import ChordSymbol.Text.LetterTable

/-! Full lowercasing of a text. All characters but two have one small letter that does not depend
on the text around them: `İ` becomes two characters, and a capital sigma at the end of a word
becomes the final sigma. -/
namespace ChordSymbol.Text

def inRanges (ranges : List (Nat × Nat)) (c : Char) : Bool :=
  ranges.any fun r => r.1 ≤ c.toNat && c.toNat ≤ r.2

def isCased (c : Char) : Bool := inRanges LetterTable.cased c

def isCaseIgnorable (c : Char) : Bool := inRanges LetterTable.caseIgnorable c

/-- The small letter of `c`, or `c` itself. -/
def smallLetter (c : Char) : Char :=
  match LetterTable.smallLetters.find? fun r =>
      r.1 ≤ c.toNat && c.toNat ≤ r.2.1 && (c.toNat - r.1) % r.2.2.1 = 0 with
  | some r => Char.ofNat (c.toNat + r.2.2.2).toNat
  | none => c

/-- Whether a letter with case comes first, ignorable characters aside. -/
def startsCased (cs : List Char) : Bool :=
  match cs.dropWhile isCaseIgnorable with
  | [] => false
  | c :: _ => isCased c

/-- The small form of `c` after `before`, which is in reverse, and before `after`. -/
def lowercaseAt (before : List Char) (c : Char) (after : List Char) : List Char :=
  if c = 'Σ' then [if startsCased before && !startsCased after then 'ς' else 'σ']
  else if c = 'İ' then ['i', '\u0307']
  else [smallLetter c]

def lowercaseFrom (before : List Char) : List Char → List Char
  | [] => []
  | c :: cs => lowercaseAt before c cs ++ lowercaseFrom (c :: before) cs

def lowercase (s : String) : String := String.ofList (lowercaseFrom [] s.toList)

end ChordSymbol.Text
