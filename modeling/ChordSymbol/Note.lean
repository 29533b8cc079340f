import ChordSymbol.Refusal

/-! Notes as they are written: a letter A to G and at most one accidental. A note is cut off by its
grammar and sounds by a table, and these agree on what letters and accidentals there are. -/
namespace ChordSymbol.Note

/-- The letters that notes have. -/
def IsLetter (c : Char) : Prop := 'A' ≤ c ∧ c ≤ 'G'

instance (c : Char) : Decidable (IsLetter c) := inferInstanceAs (Decidable (_ ∧ _))

def accidentals : List Char := ['#', 'b', '♯', '♭']

theorem accidental_cases {a : Char} (h : a ∈ accidentals) : a = '#' ∨ a = 'b' ∨ a = '♯' ∨ a = '♭' := by
  simpa [accidentals] using h

/-- The longest note in front, and the text after it. A second accidental is left to that text. -/
def cutChars? : List Char → Option (List Char × List Char)
  | [] => none
  | c :: cs =>
    if IsLetter c then
      match cs with
      | [] => some ([c], [])
      | a :: rest => if a ∈ accidentals then some ([c, a], rest) else some ([c], a :: rest)
    else none

/-- No accidental comes first. -/
def Plain (cs : List Char) : Prop := cs.head?.all (· ∉ accidentals)

instance (cs : List Char) : Decidable (Plain cs) := inferInstanceAs (Decidable (_ = true))

theorem plain_nil : Plain [] := rfl

@[simp] theorem plain_cons {a : Char} {cs : List Char} : Plain (a :: cs) ↔ a ∉ accidentals := by
  simp [Plain]

/-- The root of a chord symbol and its suffix. -/
def cut (symbol : String) : Except Refusal (String × String) :=
  match cutChars? symbol.toList with
  | none => .error (.invalidRoot symbol)
  | some (root, suffix) => .ok (String.ofList root, String.ofList suffix)

section Cut

variable {cs root suffix : List Char}

theorem append_of_cutChars? (h : cutChars? cs = some (root, suffix)) : cs = root ++ suffix := by
  unfold cutChars? at h
  grind

theorem cutChars?_eq_some : cutChars? cs = some (root, suffix) ↔ cs = root ++ suffix ∧
    ((∃ c, root = [c] ∧ IsLetter c ∧ Plain suffix) ∨
      ∃ c a, root = [c, a] ∧ IsLetter c ∧ a ∈ accidentals) := by
  constructor
  · intro h
    refine ⟨append_of_cutChars? h, ?_⟩
    unfold cutChars? at h
    split at h
    · cases h
    · next c cs =>
      split at h
      · next hc =>
        split at h
        · cases h
          exact .inl ⟨c, rfl, hc, plain_nil⟩
        · next a rest =>
          split at h
          · next ha =>
            cases h
            exact .inr ⟨c, a, rfl, hc, ha⟩
          · next ha =>
            cases h
            exact .inl ⟨c, rfl, hc, plain_cons.2 ha⟩
      · cases h
  · rintro ⟨rfl, ⟨c, rfl, hc, hplain⟩ | ⟨c, a, rfl, hc, ha⟩⟩
    · cases suffix with
      | nil => simp [cutChars?, hc]
      | cons a suffix => simp [cutChars?, hc, plain_cons.1 hplain]
    · simp [cutChars?, hc, ha]

end Cut

theorem cut_eq_ok {symbol root suffix : String} : cut symbol = .ok (root, suffix) ↔
    cutChars? symbol.toList = some (root.toList, suffix.toList) := by
  unfold cut
  cases h : cutChars? symbol.toList with
  | none => simp
  | some found => simp [Prod.ext_iff, ← String.toList_inj]

/-- Semitones above C of a plain letter. -/
def letter? : Char → Option Int
  | 'C' => some 0
  | 'D' => some 2
  | 'E' => some 4
  | 'F' => some 5
  | 'G' => some 7
  | 'A' => some 9
  | 'B' => some 11
  | _ => none

/-- Semitones that an accidental adds. -/
def accidental? : Char → Option Int
  | '#' | '♯' => some 1
  | 'b' | '♭' => some (-1)
  | _ => none

/-- The pitch class of a text that is one whole note, C being 0. -/
def pitchClass? (note : String) : Option Int :=
  match note.toList with
  | [c] => letter? c
  | [c, a] => do
    let base ← letter? c
    let shift ← accidental? a
    return (base + shift) % 12
  | _ => none

theorem isSome_letter?_iff {c : Char} : (letter? c).isSome ↔ IsLetter c := by
  constructor
  · intro h
    unfold letter? at h
    split at h
    all_goals first | decide | cases h
  · rintro ⟨hA, hG⟩
    have hA : 65 ≤ c.toNat := hA
    have hG : c.toNat ≤ 71 := hG
    have hall : ∀ n < 7, (letter? (Char.ofNat (65 + n))).isSome := by decide
    have h := hall (c.toNat - 65) (by omega)
    rwa [Nat.add_sub_cancel' hA, Char.ofNat_toNat] at h

theorem isSome_accidental?_iff {a : Char} : (accidental? a).isSome ↔ a ∈ accidentals := by
  constructor
  · intro h
    unfold accidental? at h
    split at h
    all_goals first | decide | cases h
  · intro h
    rcases accidental_cases h with rfl | rfl | rfl | rfl <;> rfl

end ChordSymbol.Note
