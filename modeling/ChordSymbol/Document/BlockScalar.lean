import ChordSymbol.Document.Node
import ChordSymbol.Document.Cursor

/-! Block scalars: the lines below a bar or an angle, without their common margin. Below a bar line
breaks stay; below an angle one line feed between two lines of text becomes a blank. -/
namespace ChordSymbol.Document.BlockScalar

/-- What is kept of the line breaks at the end: none, the first, or all. -/
inductive Chomp
  | strip | clip | keep

def chomp? : Char → Option Chomp
  | '-' => some .strip
  | '+' => some .keep
  | _ => none

/-- A mark for the end and a digit for the margin, in any order, and the text after them. -/
def indicators (chomp : Option Chomp) (margin : Option Nat) :
    List Char → Option Chomp × Option Nat × List Char
  | [] => (chomp, margin, [])
  | c :: cs =>
    if chomp.isNone && (chomp? c).isSome then indicators (chomp? c) margin cs
    else if margin.isNone && c.isDigit then indicators chomp (Text.hexValue? c) cs
    else (chomp, margin, c :: cs)

/-- The text after the first line, which holds no more than blanks and a comment. -/
def below? (cs : List Char) : Option (List Char) :=
  match cs.dropWhile isBlank with
  | [] => some []
  | c :: rest =>
    if isBreak c then some rest
    else if c = '#' then some ((rest.dropWhile (!isBreak ·)).drop 1)
    else none

/-- The margin that is not given: that of the first line that is not empty, and no less than that of
the empty ones before it. A tab makes no margin. -/
def margin? (least column : Nat) : List Char → Option Nat
  | [] => some (max least column)
  | c :: cs =>
    if c = ' ' then margin? least (column + 1) cs
    else if isBreak c then margin? (max least column) 0 cs
    else if c = '\t' then none
    else some (max least column)

/-- What stands between two lines of text. -/
structure Gap where
  /-- The break that ends the line of text before. -/
  first : Option Char
  /-- Whether that line starts with a blank. -/
  afterBlank : Bool
  /-- The breaks of the empty lines since, latest first. -/
  more : List Char

/-- What a gap contributes in front of another line of text; lines that start with a blank are not
joined to others. -/
def Gap.fold (folded beforeBlank : Bool) (g : Gap) : List Char :=
  if folded && g.first = some '\n' && !g.afterBlank && !beforeBlank then
    if g.more = [] then [' '] else g.more.reverse
  else g.first.toList ++ g.more.reverse

/-- What a gap contributes at the end. -/
def Gap.chomp (g : Gap) : Chomp → List Char
  | .strip => []
  | .clip => g.first.toList
  | .keep => g.first.toList ++ g.more.reverse

/-- The lines that are indented by `margin` at least; `inText` says that the margin of a line has
been passed. -/
def linesFrom (folded : Bool) (chomp : Chomp) (margin : Nat) (sofar : List Char) (gap : Gap)
    (inText : Bool) : List Char → Nat → Nat → Option (String × Cursor)
  | [], column, line => done [] column line
  | c :: cs, column, line =>
    if inText then
      if isBreak c then
        linesFrom folded chomp margin sofar { gap with first := c } false cs 0 (line + 1)
      else linesFrom folded chomp margin (c :: sofar) gap true cs (column + 1) line
    else if c = ' ' && column < margin then
      linesFrom folded chomp margin sofar gap false cs (column + 1) line
    else if c = '\t' && column < margin then none
    else if isBreak c then
      linesFrom folded chomp margin sofar { gap with more := c :: gap.more } false cs 0 (line + 1)
    else if column < margin then done (c :: cs) column line
    else
      linesFrom folded chomp margin (c :: ((gap.fold folded (isBlank c)).reverse ++ sofar))
        ⟨none, isBlank c, []⟩ true cs (column + 1) line
where
  done (rest : List Char) (column line : Nat) : Option (String × Cursor) :=
    some (String.ofList (sofar.reverse ++ gap.chomp chomp), ⟨rest, column, line, true⟩)

/-- A block scalar in a block whose content is indented by `indent` at least. -/
def read? (indent : Nat) (c : Cursor) : Option (Node × Cursor) := do
  let (chomp, given, rest) := indicators none none c.rest.tail
  let cs ← below? rest
  let margin ← match given with
    | some 0 => none
    | some n => some (indent - 1 + n)
    | none => margin? (max indent 1) 0 cs
  let (text, d) ← linesFrom (c.rest.head? = some '>') (chomp.getD .clip) margin []
    ⟨none, false, []⟩ false cs 0 (c.line + 1)
  return (.scalar false text, d)

end ChordSymbol.Document.BlockScalar
