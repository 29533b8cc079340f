/-! Decimal texts of whole numbers. -/
namespace ChordSymbol.Decimal

def ofNat (n : Nat) : String := String.ofList (Nat.toDigits 10 n)

/-- A minus sign only below zero, and no leading zeros. -/
def ofInt : Int → String
  | .ofNat n => ofNat n
  | .negSucc n => "-" ++ ofNat (n + 1)

/-- The sign is written always, also before zero. -/
def signed : Int → String
  | .ofNat n => "+" ++ ofNat n
  | .negSucc n => "-" ++ ofNat (n + 1)

end ChordSymbol.Decimal
