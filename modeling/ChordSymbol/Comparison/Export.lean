import ChordSymbol.Comparison.Basic
import ChordSymbol.Csv
import ChordSymbol.Json

/-! Rows of a comparison as comma-separated values, as JSON and as lines on a terminal. -/
namespace ChordSymbol.Comparison

namespace Row

def interpreterCell (r : Row) : String :=
  match r.semitones, r.reason with
  | some xs, _ => joinSemitones Display.defaultSeparator xs
  | none, some e => "error: " ++ e
  | none, none => ""

def handbookCell (r : Row) : String :=
  match r.handbook with
  | some xs => joinSemitones Display.defaultSeparator xs
  | none => "unsupported"

def cells (r : Row) : List String :=
  [r.chord, r.bass.getD "", r.interpreterCell, r.handbookCell, r.outcome.name]

/-- A bass and a reason are left out when there is none. -/
def toJson (r : Row) : Json :=
  .object ([("chord", .text r.chord)] ++ Json.field? "bass" .text r.bass ++
    [("engine", Json.optional Json.ints r.semitones)] ++
    Json.field? "engineError" .text r.reason ++
    [("reference", Json.optional Json.ints r.handbook), ("outcome", .text r.outcome.name)])

end Row

def header : List String := ["chord", "bass", "engine", "reference", "outcome"]

def toCsv (rows : List Row) : String := Csv.table (header :: rows.map (·.cells))

def toJson (rows : List Row) : Json := .list (rows.map (·.toJson))

def Summary.toJson (s : Summary) : Json :=
  .object [("total", .int s.total), ("matches", .int s.same), ("mismatches", .int s.different),
    ("engineOnly", .int s.interpreterOnly), ("referenceOnly", .int s.handbookOnly),
    ("bothRejected", .int s.neither)]

def Outcome.paint : Outcome → Text.Paint
  | same => .green
  | different => .red
  | _ => .yellow

/-- Columns of a row on a terminal; the last is not padded. -/
def line (chord semitones handbook outcome : String) : String :=
  Text.padRight 14 chord ++ " " ++ Text.padRight 22 semitones ++ " " ++
    Text.padRight 22 handbook ++ " " ++ outcome

def Row.line (separator : String) (color : Bool) (r : Row) : String :=
  let cell : Option (List Int) → String
    | some xs => joinSemitones separator xs
    | none => "-"
  Comparison.line r.chord (cell r.semitones) (cell r.handbook)
    (r.outcome.paint.apply color r.outcome.name)

/-- Header, rows, a blank line and the summary. -/
def listing (separator : String) (color : Bool) (rows : List Row) : List String :=
  line "chord" "engine" "reference" "outcome" :: rows.map (·.line separator color) ++
    ["", (Summary.ofRows rows).text]

end ChordSymbol.Comparison
