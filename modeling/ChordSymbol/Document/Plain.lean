import ChordSymbol.Text.Cut
import ChordSymbol.Text.Hex

/-! What plain scalars may stand for: nothing, a flag, a whole number, a decimal number. -/
namespace ChordSymbol.Document

/-- A whole number as it is written; minus zero differs from zero. -/
structure Whole where
  negative : Bool
  magnitude : Nat
  deriving DecidableEq

namespace Whole

def toInt (n : Whole) : Int := if n.negative then -(n.magnitude : Int) else n.magnitude

/-- A number without a minus sign. -/
def natural? (n : Whole) : Option Nat := if n.negative then none else some n.magnitude

/-- Whether a word of so many bits can hold the number. -/
def fits (bits : Nat) (n : Whole) : Bool :=
  if n.negative then n.magnitude ≤ Nat.pow 2 (bits - 1) else n.magnitude < Nat.pow 2 bits

theorem fits_mono {a b : Nat} {n : Whole} (hab : a ≤ b) (h : n.fits a) : n.fits b := by
  have low : Nat.pow 2 (a - 1) ≤ Nat.pow 2 (b - 1) := Nat.pow_le_pow_right (by decide) (by omega)
  have high : Nat.pow 2 a ≤ Nat.pow 2 b := Nat.pow_le_pow_right (by decide) hab
  cases hn : n.negative <;> simp_all [fits] <;> omega

end Whole

namespace Plain

/-- Texts that say that a value is absent. -/
def isNull (s : String) : Bool := ["", "~", "null", "Null", "NULL"].contains s

def flag? (s : String) : Option Bool :=
  if ["true", "True", "TRUE"].contains s then some true
  else if ["false", "False", "FALSE"].contains s then some false
  else none

/-- Digits in base sixteen, eight or two after `0x`, `0o` or `0b`, else in base ten, where only zero
itself starts with a zero. -/
def unsigned? : List Char → Option Nat
  | '0' :: 'x' :: cs => Text.magnitude? 16 cs
  | '0' :: 'o' :: cs => Text.magnitude? 8 cs
  | '0' :: 'b' :: cs => Text.magnitude? 2 cs
  | ['0'] => some 0
  | '0' :: _ => none
  | cs => Text.magnitude? 10 cs

/-- A whole number with at most one sign. -/
def whole? (s : String) : Option Whole :=
  match s.toList with
  | '-' :: cs => (unsigned? cs).map (⟨true, ·⟩)
  | '+' :: cs => (unsigned? cs).map (⟨false, ·⟩)
  | cs => (unsigned? cs).map (⟨false, ·⟩)

/-- Whole numbers in base ten with at most one sign, here also with zeros in front. -/
def exponent? : List Char → Option Int
  | '-' :: cs => (Text.magnitude? 10 cs).map fun n => -(n : Int)
  | '+' :: cs => (Text.magnitude? 10 cs).map Int.ofNat
  | cs => (Text.magnitude? 10 cs).map Int.ofNat

def isExponentMark (c : Char) : Bool := c = 'e' || c = 'E'

/-- A decimal number without a sign: its digits as a whole number, and the power of ten to scale it. -/
def scaled? (cs : List Char) : Option (Nat × Int) := do
  let digits := cs.takeWhile (!isExponentMark ·)
  let power ← match cs.dropWhile (!isExponentMark ·) with
    | [] => some 0
    | _ :: ds => exponent? ds
  let (before, after) := (Text.cutChars? '.' digits).getD (digits, [])
  return (← Text.magnitude? 10 (before ++ after), power - after.length)

/-- Whether `m * 10 ^ e` rounds to a finite number in double precision. The greatest of these is
`2 ^ 1024 - 2 ^ 971`, and what lies less than half a step above it rounds down to it. -/
def isFinite (m : Nat) (e : Int) : Bool :=
  let places := (Nat.toDigits 10 m).length + e
  m = 0 || places ≤ 308 ||
    (places ≤ 309 &&
      m * Nat.pow 10 e.toNat < (Nat.pow 2 1024 - Nat.pow 2 970) * Nat.pow 10 (-e).toNat)

def dropSign : List Char → List Char
  | '+' :: cs | '-' :: cs => cs
  | cs => cs

/-- Digits with needless zeros in front are no number. -/
def isPadded : List Char → Bool
  | '0' :: c :: cs => (c :: cs).all Char.isDigit
  | _ => false

/-- Infinity, the number that is none, or a finite decimal number with at most one sign. -/
def isDecimal (s : String) : Bool :=
  let cs := dropSign s.toList
  [".inf", ".Inf", ".INF"].contains (String.ofList cs) || [".nan", ".NaN", ".NAN"].contains s ||
    (!isPadded cs && (scaled? cs).any fun d => isFinite d.1 d.2)

end Plain
end ChordSymbol.Document
