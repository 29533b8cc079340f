import ChordSymbol.Refusal

/-! Tokens: the modifiers that a suffix spells, found by longest match. A step leaves a strictly
shorter rest, so the loop ends; a text that no spelling starts is refused where it stands. -/
namespace ChordSymbol

/-- A modifier as written: the place of its rule in the table, and the rule's own spelling. -/
structure Token where
  rule : Nat
  symbol : String
  deriving DecidableEq

namespace Text

def lowerLetter (c : Char) : Char := c.toLower

/-- Equal up to the case of ASCII letters. -/
def sameLetter (a b : Char) : Bool := lowerLetter a = lowerLetter b

/-- The text after `w`, characters being compared by `same`. -/
def strip? (same : Char → Char → Bool) : List Char → List Char → Option (List Char)
  | [], cs => some cs
  | _ :: _, [] => none
  | a :: w, c :: cs => if same a c then strip? same w cs else none

theorem length_of_strip? {same : Char → Char → Bool} {w cs rest : List Char}
    (h : strip? same w cs = some rest) : cs.length = w.length + rest.length := by
  induction w generalizing cs with
  | nil => simp_all [strip?]
  | cons a w ih =>
    cases cs with
    | nil => simp [strip?] at h
    | cons c cs =>
      simp only [strip?] at h
      split at h
      · simp [ih h]; omega
      · cases h

end Text

/-- One spelling of one rule, as a suffix is compared with it. -/
structure Pattern where
  token : Token
  priority : Nat
  caseSensitive : Bool
  deriving DecidableEq

namespace Pattern

def letters (p : Pattern) : List Char := p.token.symbol.toList

def same (p : Pattern) : Char → Char → Bool :=
  if p.caseSensitive then fun a b => a = b else Text.sameLetter

/-- The spelling `m` does not stand for the first letter of `maj`. -/
def blockedBy (p : Pattern) (rest : List Char) : Bool :=
  p.token.symbol = "m" && (Text.strip? Text.sameLetter ['a', 'j'] rest).isSome

/-- The text after the spelling, if it stands in front. -/
def rest? (p : Pattern) (cs : List Char) : Option (List Char) :=
  (Text.strip? p.same p.letters cs).filter (!p.blockedBy ·)

theorem length_of_rest? {p : Pattern} {cs rest : List Char} (h : p.rest? cs = some rest) :
    cs.length = p.letters.length + rest.length :=
  Text.length_of_strip? (Option.filter_eq_some_iff.1 h).1

/-- Longer spellings are tried first, then lower priorities. -/
def before (p q : Pattern) : Bool :=
  q.letters.length < p.letters.length ||
    (p.letters.length = q.letters.length && p.priority ≤ q.priority)

/-- One pattern for each spelling of `r`, the rule at place `index`. -/
def ofRule (index : Nat) (r : Rule) : List Pattern :=
  r.symbols.map fun s => ⟨⟨index, s⟩, r.priority, r.caseSensitive⟩

/-- The spellings of a table in the order in which they are tried; among equals the table's order
decides, since the sort is stable. -/
def ofRules (rules : List Rule) : List Pattern :=
  (rules.zipIdx.flatMap fun e => ofRule e.2 e.1).mergeSort before

/-- A pattern with a letter at least, so that a match leaves less of the text. -/
abbrev Spelled := { p : Pattern // p.letters ≠ [] }

def spelled? (p : Pattern) : Option Spelled := if h : p.letters = [] then none else some ⟨p, h⟩

theorem Spelled.length_lt {p : Spelled} {cs rest : List Char} (h : p.1.rest? cs = some rest) :
    rest.length < cs.length := by
  have hlength := length_of_rest? h
  have hpos := List.length_pos_iff.2 p.2
  omega

end Pattern

namespace Token

/-- The first pattern that stands in front of `cs`, and the text after it. -/
def next? (ps : List Pattern.Spelled) (cs : List Char) : Option (Token × List Char) :=
  ps.findSome? fun p => (p.1.rest? cs).map (p.1.token, ·)

theorem next?_length_lt {ps : List Pattern.Spelled} {cs rest : List Char} {t : Token}
    (h : next? ps cs = some (t, rest)) : rest.length < cs.length := by
  obtain ⟨p, -, hp⟩ := List.exists_of_findSome?_eq_some h
  obtain ⟨r, hr, hrr⟩ := Option.map_eq_some_iff.1 hp
  cases hrr
  exact Pattern.Spelled.length_lt hr

/-- The tokens of `cs`, each the first match where the one before it ends. -/
def scan (ps : List Pattern.Spelled) (cs : List Char) : Except Refusal (List Token) :=
  if cs = [] then .ok []
  else
    match _h : next? ps cs with
    | none => .error (.unrecognizedModifier (String.ofList cs))
    | some (t, rest) =>
      match scan ps rest with
      | .ok ts => .ok (t :: ts)
      | .error e => .error e
termination_by cs.length
decreasing_by exact next?_length_lt ‹_›

@[simp] theorem scan_nil (ps : List Pattern.Spelled) : scan ps [] = .ok [] := by
  rw [scan]; rfl

end Token
end ChordSymbol
