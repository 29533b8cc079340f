import ChordSymbol.Text.Decimal

/-! JSON values and their text on several lines, indented by two blanks. -/
namespace ChordSymbol

inductive Json
  | null
  | bool (b : Bool)
  | int (i : Int)
  | text (s : String)
  | list (items : List Json)
  | object (fields : List (String × Json))

namespace Json

/-- One list of texts. -/
def texts (xs : List String) : Json := .list (xs.map .text)

def ints (xs : List Int) : Json := .list (xs.map .int)

def optional {α : Type} (f : α → Json) : Option α → Json
  | some a => f a
  | none => .null

/-- A field that is left out when there is nothing to say. -/
def field? {α : Type} (key : String) (f : α → Json) : Option α → List (String × Json)
  | some a => [(key, f a)]
  | none => []

def hexDigit (n : Nat) : Char := Nat.digitChar (n % 16)

/-- Only quotes, backslashes and control characters below U+0020 are escaped. -/
def escapeChar (c : Char) : List Char :=
  if c = '\x22' then ['\x5c', '\x22']
  else if c = '\x5c' then ['\x5c', '\x5c']
  else if c = '\x08' then ['\x5c', 'b']
  else if c = '\t' then ['\x5c', 't']
  else if c = '\n' then ['\x5c', 'n']
  else if c = '\x0c' then ['\x5c', 'f']
  else if c = '\r' then ['\x5c', 'r']
  else if c.toNat < 32 then
    ['\x5c', 'u', '0', '0', hexDigit (c.toNat / 16), hexDigit c.toNat]
  else [c]

def quote (s : String) : String := "\"" ++ String.ofList (s.toList.flatMap escapeChar) ++ "\""

/-- Items on lines of their own between two brackets; nothing between them when there are none. -/
def block (opening closing pad : String) (items : List String) : String :=
  if items = [] then opening ++ closing
  else opening ++ "\n" ++ ",\n".intercalate items ++ "\n" ++ pad ++ closing

mutual

/-- The text of a value that stands on a line with the margin `pad`. -/
def render (pad : String) : Json → String
  | .null => "null"
  | .bool true => "true"
  | .bool false => "false"
  | .int i => Decimal.ofInt i
  | .text s => quote s
  | .list xs => block "[" "]" pad (renderItems (pad ++ "  ") xs)
  | .object fs => block "\x7b" "\x7d" pad (renderFields (pad ++ "  ") fs)

def renderItems (pad : String) : List Json → List String
  | [] => []
  | x :: xs => (pad ++ render pad x) :: renderItems pad xs

def renderFields (pad : String) : List (String × Json) → List String
  | [] => []
  | (k, x) :: fs => (pad ++ quote k ++ ": " ++ render pad x) :: renderFields pad fs

end

def pretty (j : Json) : String := j.render ""

end Json
end ChordSymbol
