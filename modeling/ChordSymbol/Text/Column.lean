/-! Columns and colours of terminal output. -/
namespace ChordSymbol.Text

/-- Pads with blanks to `width` characters; a longer text stays whole. -/
def padRight (width : Nat) (s : String) : String :=
  s ++ String.ofList (List.replicate (width - s.length) ' ')

/-- Terminal attributes: the codes that switch them on, and the code that ends them. -/
structure Paint where
  on : String
  off : String
  deriving DecidableEq

namespace Paint

def bold : Paint := ⟨"1", "0"⟩
def boldCyan : Paint := ⟨"36;1", "0"⟩
def boldGreen : Paint := ⟨"32;1", "0"⟩
def boldRed : Paint := ⟨"31;1", "0"⟩
def blueLabel : Paint := ⟨"34", "0"⟩
def magentaLabel : Paint := ⟨"35", "0"⟩
def green : Paint := ⟨"32", "39"⟩
def red : Paint := ⟨"31", "39"⟩
def yellow : Paint := ⟨"33", "39"⟩

def escape (code : String) : String := "\x1b[" ++ code ++ "m"

/-- The text itself when `color` is off. -/
def apply (p : Paint) (color : Bool) (s : String) : String :=
  if color then escape p.on ++ s ++ escape p.off else s

@[simp] theorem apply_false (p : Paint) (s : String) : p.apply false s = s := rfl

end Paint
end ChordSymbol.Text
