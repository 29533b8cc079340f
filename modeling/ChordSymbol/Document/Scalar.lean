import ChordSymbol.Document.Cursor
import ChordSymbol.Text.Hex

/-! Scalars: plain, in single quotes and in double quotes. A line feed inside a scalar is folded:
one alone becomes a blank, and of several line breaks all but the first stay. -/
namespace ChordSymbol.Document

/-- Blanks and line breaks since the last character of a scalar. -/
inductive Gap
  /-- Blanks on one line, latest first. -/
  | blanks (latest : List Char)
  /-- A line break, none if it is escaped, and those after it, latest first; blanks around line breaks
  are dropped. -/
  | lines (first : Option Char) (more : List Char)

namespace Gap

def isEmpty : Gap → Bool
  | blanks [] => true
  | _ => false

def hasBreak : Gap → Bool
  | lines .. => true
  | _ => false

def addBlank (c : Char) : Gap → Gap
  | blanks ws => blanks (c :: ws)
  | g => g

def addBreak (c : Char) : Gap → Gap
  | blanks _ => lines c []
  | lines b bs => lines b (c :: bs)

/-- What a gap contributes to the scalar. -/
def fold : Gap → List Char
  | blanks ws => ws.reverse
  | lines (some '\n') [] => [' ']
  | lines (some '\n') bs => bs.reverse
  | lines b bs => b.toList ++ bs.reverse

end Gap

/-- A scalar so far, latest character first, extended over a gap. -/
def extend (sofar : List Char) (gap : Gap) (c : Char) : List Char :=
  c :: (gap.fold.reverse ++ sofar)

def isBracket (c : Char) : Bool := c = ',' || c = '[' || c = ']' || c = '\x7b' || c = '\x7d'

/-- Whether a plain scalar may start with these characters. -/
def startsPlain (ctx : Context) : List Char → Bool
  | [] => false
  | '-' :: cs => !endsWord cs
  | '?' :: cs | ':' :: cs => ctx = .block && !endsWord cs
  | c :: _ => !(isBlank c || isBreak c || isBracket c ||
      ['#', '&', '*', '!', '|', '>', '\x27', '\x22', '%', '@', '\x60'].contains c)

/-- Where a plain scalar stops for good. -/
def stopsPlain (ctx : Context) (c : Char) (cs : List Char) : Bool :=
  (c = ':' && endsWord cs) || (ctx = .flow && isBracket c)

/-- The rest of a plain scalar. It goes on over lines indented by `indent` at least, and stops in
front of a comment, a colon, a bracket that counts, or a mark. -/
def plainFrom (ctx : Context) (indent : Nat) (sofar : List Char) (gap : Gap) :
    List Char → Nat → Nat → Option (String × Cursor)
  | [], column, line => done [] column line
  | c :: cs, column, line =>
    if isBreak c then plainFrom ctx indent sofar (gap.addBreak c) cs 0 (line + 1)
    else if isBlank c then
      if c = '\t' && gap.hasBreak && column < indent then none
      else plainFrom ctx indent sofar (gap.addBlank c) cs (column + 1) line
    else
      let here : Cursor := ⟨c :: cs, column, line, gap.hasBreak⟩
      if gap.hasBreak && ctx = .block && column < indent then done (c :: cs) column line
      else if here.atBoundary then done (c :: cs) column line
      else if c = '#' && !gap.isEmpty then done (c :: cs) column line
      else if c = ':' && ctx = .flow &&
          (cs.head?.map fun d => isBracket d || d = '?').getD false then none
      else if stopsPlain ctx c cs then done (c :: cs) column line
      else plainFrom ctx indent (extend sofar gap c) (.blanks []) cs (column + 1) line
where
  done (rest : List Char) (column line : Nat) : Option (String × Cursor) :=
    some (String.ofList sofar.reverse, ⟨rest, column, line, gap.hasBreak⟩)

/-- The rest of a scalar in single quotes, where a doubled quote stands for one. `half` says that a
quote has been read that may end the scalar. -/
def singleFrom (sofar : List Char) (gap : Gap) (half : Bool) :
    List Char → Nat → Nat → Option (String × Cursor)
  | [], column, line => if half then done [] column line else none
  | c :: cs, column, line =>
    if half && c ≠ '\x27' then done (c :: cs) column line
    else if half then singleFrom (c :: sofar) (.blanks []) false cs (column + 1) line
    else if isBreak c then singleFrom sofar (gap.addBreak c) false cs 0 (line + 1)
    else if isBlank c then singleFrom sofar (gap.addBlank c) false cs (column + 1) line
    else if (Cursor.mk (c :: cs) column line false).atBoundary then none
    else if c = '\x27' then singleFrom (gap.fold.reverse ++ sofar) (.blanks []) true cs (column + 1) line
    else singleFrom (extend sofar gap c) (.blanks []) false cs (column + 1) line
where
  done (rest : List Char) (column line : Nat) : Option (String × Cursor) :=
    some (String.ofList sofar.reverse, ⟨rest, column, line, false⟩)

/-- Where in a scalar in double quotes a character stands. -/
inductive Escape
  | outside
  /-- After a backslash. -/
  | opened
  /-- Before `digits + 1` digits of a code in base sixteen, of which those read have this value. -/
  | code (digits value : Nat)

/-- The character that a letter after a backslash stands for. -/
def escaped? : Char → Option Char
  | '0' => some '\x00'
  | 'a' => some '\x07'
  | 'b' => some '\x08'
  | 't' | '\t' => some '\t'
  | 'n' => some '\n'
  | 'v' => some '\x0b'
  | 'f' => some '\x0c'
  | 'r' => some '\r'
  | 'e' => some '\x1b'
  | ' ' => some ' '
  | '\x22' => some '\x22'
  | '/' => some '/'
  | '\x5c' => some '\x5c'
  | 'N' => some '\u0085'
  | '_' => some '\u00a0'
  | 'L' => some '\u2028'
  | 'P' => some '\u2029'
  | _ => none

/-- How many digits of a code follow a letter after a backslash, less one. -/
def codeDigits? : Char → Option Nat
  | 'x' => some 1
  | 'u' => some 3
  | 'U' => some 7
  | _ => none

/-- The character with a code; half of a surrogate pair is none. -/
def ofCode? (n : Nat) : Option Char := if n.isValidChar then some (Char.ofNat n) else none

/-- The rest of a scalar in double quotes. -/
def doubleFrom (sofar : List Char) (gap : Gap) (esc : Escape) :
    List Char → Nat → Nat → Option (String × Cursor)
  | [], _, _ => none
  | c :: cs, column, line =>
    match esc with
    | .code digits value =>
      match Text.hexValue? c, digits with
      | none, _ => none
      | some d, 0 =>
        match ofCode? (value * 16 + d) with
        | none => none
        | some x => doubleFrom (x :: sofar) (.blanks []) .outside cs (column + 1) line
      | some d, k + 1 => doubleFrom sofar gap (.code k (value * 16 + d)) cs (column + 1) line
    | .opened =>
      if isBreak c then doubleFrom sofar (.lines none []) .outside cs 0 (line + 1)
      else
        match escaped? c, codeDigits? c with
        | some x, _ => doubleFrom (x :: sofar) (.blanks []) .outside cs (column + 1) line
        | none, some k => doubleFrom sofar (.blanks []) (.code k 0) cs (column + 1) line
        | none, none => none
    | .outside =>
      if isBreak c then doubleFrom sofar (gap.addBreak c) .outside cs 0 (line + 1)
      else if isBlank c then doubleFrom sofar (gap.addBlank c) .outside cs (column + 1) line
      else if (Cursor.mk (c :: cs) column line false).atBoundary then none
      else if c = '\x22' then
        some (String.ofList (gap.fold.reverse ++ sofar).reverse, ⟨cs, column + 1, line, false⟩)
      else if c = '\x5c' then
        doubleFrom (gap.fold.reverse ++ sofar) (.blanks []) .opened cs (column + 1) line
      else doubleFrom (extend sofar gap c) (.blanks []) .outside cs (column + 1) line

end ChordSymbol.Document
