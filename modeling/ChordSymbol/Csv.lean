/-! Comma-separated values: records end in a carriage return and a line feed, and a field that holds
a comma, a quote or a line break stands in quotes, its own quotes doubled. -/
namespace ChordSymbol.Csv

def isSpecial (c : Char) : Bool := c = ',' || c = '\x22' || c = '\r' || c = '\n'

def doubleQuotes : List Char → List Char
  | [] => []
  | c :: cs => if c = '\x22' then '\x22' :: '\x22' :: doubleQuotes cs else c :: doubleQuotes cs

def encode (cs : List Char) : List Char :=
  if cs.any isSpecial then '\x22' :: doubleQuotes cs ++ ['\x22'] else cs

def field (s : String) : String := String.ofList (encode s.toList)

def record (fields : List String) : String := ",".intercalate (fields.map field) ++ "\r\n"

def table (records : List (List String)) : String := String.join (records.map record)

end ChordSymbol.Csv
