import ChordSymbol.Failure

/-! Paths, and folders held in memory: what a run finds and leaves behind. -/
namespace ChordSymbol

namespace Path

/-- The parts of a path between its slashes. -/
def parts (path : List Char) : List (List Char) :=
  match path with
  | [] => [[]]
  | c :: cs =>
    if c = '/' then [] :: parts cs
    else
      match parts cs with
      | [] => [[c]]
      | p :: ps => (c :: p) :: ps

def isAbsolute (path : String) : Bool := path.toList.head? = some '/'

/-- A path holds no NUL character. -/
def isName (path : String) : Bool := !path.toList.contains '\x00'

/-- The most bytes of a part of a path. -/
def maxName : Nat := 255

/-- The most bytes of a path. -/
def maxPath : Nat := 4095

/-- Drops trailing parts that lead nowhere, given the parts in reverse; the first part stays. -/
def dropIdle : List (List Char) → List (List Char)
  | p :: q :: ps => if p = [] || p = ['.'] then dropIdle (q :: ps) else p :: q :: ps
  | ps => ps

/-- The directory part of a path to a file; empty for a mere name. -/
def directory (path : String) : String :=
  match dropIdle (parts path.toList).reverse with
  | [] => ""
  | _ :: ps =>
    match dropIdle ps with
    | [] => ""
    | [[]] => "/"
    | qs => "/".intercalate (qs.reverse.map String.ofList)

/-- `path` as seen from `dir`; no slash is put after an empty `dir` or one that ends in a slash. -/
def join (dir path : String) : String :=
  if isAbsolute path || dir = "" then path
  else if dir.toList.getLast? = some '/' then dir ++ path
  else dir ++ "/" ++ path

end Path

/-- Files by the names on the way to them, and their contents. -/
structure Folder where
  files : List (List String × String)

namespace Folder

def names (path : String) : List String := (Path.parts path.toList).map String.ofList

/-- Files with relative paths; directories on the way exist with them. -/
def ofList (files : List (String × String)) : Folder :=
  ⟨files.map fun f => ((names f.1).filter fun n => n ≠ "" && n ≠ ".", f.2)⟩

def file? (d : Folder) (place : List String) : Option String :=
  (d.files.find? (·.1 = place)).map (·.2)

/-- The top exists always, and whatever leads to a file. -/
def isDirectory (d : Folder) (place : List String) : Bool :=
  place = [] || d.files.any fun f => place.isPrefixOf f.1 && f.1 ≠ place

/-- What a path leads to. -/
inductive Target
  | directory
  | file (place : List String) (content : String)
  /-- Nothing is there, but a file can be made. -/
  | vacant (place : List String)
  | unreachable (cause : FileError)

/-- Follows a path name by name from `place`. Nothing above the top is known. -/
def follow (d : Folder) (place : List String) : List String → Target
  | [] => .directory
  | n :: ns =>
    if n = "" || n = "." then follow d place ns
    else if n = ".." then
      if place = [] then
        if ns.all fun m => m = "" || m = "." || m = ".." then .directory else .unreachable .notFound
      else follow d place.dropLast ns
    else
      let next := place ++ [n]
      match d.file? next with
      | some content => if ns = [] then .file next content else .unreachable .notDirectory
      | none =>
        if d.isDirectory next then follow d next ns
        else if Path.maxName < n.utf8ByteSize then .unreachable .nameTooLong
        else if ns = [] then .vacant next
        else .unreachable .notFound

def target (d : Folder) (path : String) : Target :=
  if !Path.isName path then .unreachable .badName
  else if path = "" then .unreachable .notFound
  else if Path.maxPath < path.utf8ByteSize then .unreachable .nameTooLong
  else if Path.isAbsolute path then
    if (names path).all fun n => n = "" || n = "." || n = ".." then .directory
    else .unreachable .notFound
  else follow d [] (names path)

def read (d : Folder) (path : String) : Except FileError String :=
  match d.target path with
  | .file _ content => .ok content
  | .directory => .error .isDirectory
  | .vacant _ => .error .notFound
  | .unreachable cause => .error cause

/-- The path without the slashes at its end. -/
def bare (path : String) : String :=
  String.ofList (path.toList.reverse.dropWhile (· = '/')).reverse

/-- The folder with a file made or replaced. A name that ends in a slash is a directory's. -/
def write (d : Folder) (path content : String) : Except FileError Folder :=
  match d.target (bare path) with
  | .file place _ | .vacant place =>
    if bare path = path then .ok ⟨(d.files.filter (·.1 ≠ place)) ++ [(place, content)]⟩
    else .error .isDirectory
  | .directory => .error .isDirectory
  | .unreachable cause => .error (if path ≠ "" && bare path = "" then .isDirectory else cause)

end Folder
end ChordSymbol
