import ChordSymbol.CommandLine.Run

/-! The program on real files. -/
namespace ChordSymbol

open CommandLine

/-- The causes that have wordings of their own, by error number. -/
def FileError.ofIO (e : IO.Error) : FileError :=
  match e with
  | .noFileOrDirectory .. | .noSuchThing .. => .notFound
  | .inappropriateType _ 20 _ => .notDirectory
  | .inappropriateType _ 21 _ => .isDirectory
  | .invalidArgument _ 36 _ => .nameTooLong
  | .permissionDenied .. => .denied
  | e => .other e.toString

def Host.files : Host IO where
  read path := do
    unless Path.isName path do return .error .badName
    try
      let bytes ← IO.FS.readBinFile path
      match String.fromUTF8? bytes with
      | some s => return .ok s
      | none => return .error .notText
    catch e => return .error (.ofIO e)
  write path content := do
    unless Path.isName path do return .error .badName
    try
      IO.FS.writeFile path content
      return .ok ()
    catch e => return .error (.ofIO e)

end ChordSymbol

def main (args : List String) : IO UInt32 := do
  let r ← ChordSymbol.CommandLine.run ChordSymbol.Host.files args
  (← IO.getStderr).putStr r.errors
  (← IO.getStdout).putStr r.output
  return r.exit.toUInt32
