/-! Positions in the text of a document, and what stands between its tokens. -/
namespace ChordSymbol.Document

/-- The text from some position on. -/
structure Cursor where
  rest : List Char
  column : Nat
  line : Nat
  /-- Whether an entry or a key of a block may start here. -/
  blockStart : Bool

/-- The kinds of context: inside brackets, indentation does not count. -/
inductive Context
  | block | flow
  deriving DecidableEq

def isBlank (c : Char) : Bool := c = ' ' || c = '\t'

/-- Breaks between lines; all others have been made line feeds. -/
def isBreak (c : Char) : Bool := c = '\n' || c = '\u2028' || c = '\u2029'

/-- The end of a word: a blank, a line break, or the end of the text. -/
def endsWord : List Char → Bool
  | [] => true
  | c :: _ => isBlank c || isBreak c

namespace Cursor

def atEnd (c : Cursor) : Bool := c.rest.isEmpty

/-- A mark of three characters, `---` or `...`, alone at the start of a line. -/
def atMark (mark : Char) (c : Cursor) : Bool :=
  c.column = 0 &&
    match c.rest with
    | x :: y :: z :: cs => x = mark && y = mark && z = mark && endsWord cs
    | _ => false

def atBoundary (c : Cursor) : Bool := c.atMark '-' || c.atMark '.'

/-- A dash that starts an entry of a block sequence. -/
def atEntry (c : Cursor) : Bool :=
  match c.rest with
  | '-' :: cs => endsWord cs
  | _ => false

/-- A bar or an angle that starts a block scalar. -/
def atBlockScalar (c : Cursor) : Bool := c.rest.head? = some '|' || c.rest.head? = some '>'

/-- A colon that separates a key from its value; between brackets any colon does. -/
def atColon (ctx : Context) (c : Cursor) : Bool :=
  match c.rest with
  | ':' :: cs => ctx = .flow || endsWord cs
  | _ => false

/-- Whether a colon at `d` makes a key of what starts at `c`: a key has its colon on its own line,
at most 1024 characters on. -/
def reaches (c d : Cursor) : Bool := c.line = d.line && c.rest.length ≤ d.rest.length + 1024

/-- `n` characters further on the same line, where no block may start. -/
def advance (n : Nat) (c : Cursor) : Cursor :=
  { c with rest := c.rest.drop n, column := c.column + n, blockStart := false }

/-- The next token after blanks, line breaks and comments. A tab is no blank where a block may
start. -/
def skipFrom (ctx : Context) (comment : Bool) : List Char → Nat → Nat → Bool → Cursor
  | [], column, line, start => ⟨[], column, line, start⟩
  | c :: cs, column, line, start =>
    if isBreak c then skipFrom ctx false cs 0 (line + 1) (start || ctx = .block)
    else if comment then skipFrom ctx true cs (column + 1) line start
    else if c = ' ' || (c = '\t' && (ctx = .flow || !start)) then
      skipFrom ctx false cs (column + 1) line start
    else if c = '#' then skipFrom ctx true cs (column + 1) line start
    else ⟨c :: cs, column, line, start⟩

def skip (ctx : Context) (c : Cursor) : Cursor :=
  skipFrom ctx false c.rest c.column c.line c.blockStart

end Cursor
end ChordSymbol.Document
