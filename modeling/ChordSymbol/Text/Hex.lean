/-! Digits in bases up to sixteen. -/
namespace ChordSymbol.Text

def hexValue? (c : Char) : Option Nat :=
  if c.isDigit then some (c.toNat - '0'.toNat)
  else if 'a' ≤ c && c ≤ 'f' then some (c.toNat - 'a'.toNat + 10)
  else if 'A' ≤ c && c ≤ 'F' then some (c.toNat - 'A'.toNat + 10)
  else none

/-- The value of digits in a base, if all are digits of it and there is one at least. -/
def magnitude? (base : Nat) (cs : List Char) : Option Nat :=
  if cs = [] then none
  else cs.foldl (fun acc c => do return (← acc) * base + (← (hexValue? c).filter (· < base))) (some 0)

end ChordSymbol.Text
