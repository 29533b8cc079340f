import ChordSymbol.Lexicon.Document
import ChordSymbol.Lexicon.Json
import ChordSymbol.Proofs.Admission
import ChordSymbol.Proofs.Numerals
import ChordSymbol.Proofs.RequirementText

/-! Lexicons written out and read back. A rule leaves out what it has nothing to say of, and a reader
fills in what is left out; the rules that are read are those that were written, so that they are a lexicon
again. -/
namespace ChordSymbol

/-- Reading what was written, item by item. -/
theorem mapM_map_eq_pure {α β γ : Type} {F : Type → Type} [Monad F] [LawfulMonad F] {f : β → F γ}
    {g : α → β} {k : α → γ} {as : List α} (h : ∀ a ∈ as, f (g a) = pure (k a)) :
    (as.map g).mapM f = pure (as.map k) := by
  induction as with
  | nil => simp
  | cons a as ih =>
    obtain ⟨ha, has⟩ := List.forall_mem_cons.1 h
    simp [ha, ih has]

namespace Document

namespace Node

mutual

/-- The document that says what a JSON value says: texts are quoted, and all else is plain. -/
def ofJson : Json → Node
  | .null => .scalar true "null"
  | .bool true => .scalar true "true"
  | .bool false => .scalar true "false"
  | .int i => .scalar true (Decimal.ofInt i)
  | .text s => .scalar false s
  | .list xs => .sequence (ofItems xs)
  | .object fs => .mapping (ofFields fs)

def ofItems : List Json → List Node
  | [] => []
  | x :: xs => ofJson x :: ofItems xs

def ofFields : List (String × Json) → List (Node × Node)
  | [] => []
  | (k, x) :: fs => (.scalar false k, ofJson x) :: ofFields fs

end

theorem ofItems_eq_map (xs : List Json) : ofItems xs = xs.map ofJson := by
  induction xs with
  | nil => rfl
  | cons x xs ih => rw [ofItems, ih, List.map_cons]

theorem ofFields_eq_map (fs : List (String × Json)) :
    ofFields fs = fs.map fun e => (.scalar false e.1, ofJson e.2) := by
  induction fs with
  | nil => rfl
  | cons e fs ih => rw [ofFields, ih, List.map_cons]

theorem entries?_ofJson (fs : List (String × Json)) :
    (ofJson (.object fs)).entries? = some (fs.map fun e => (e.1, ofJson e.2)) := by
  rw [ofJson, ofFields_eq_map]
  exact mapM_map_eq_pure fun e _ => rfl

theorem list?_ofJson {α β : Type} {f : Node → Option β} {g : α → Json} {k : α → β} {as : List α}
    (h : ∀ a ∈ as, f (ofJson (g a)) = some (k a)) :
    list? f (ofJson (.list (as.map g))) = some (as.map k) := by
  unfold list?
  rw [ofJson, ofItems_eq_map, List.map_map]
  exact mapM_map_eq_pure h

theorem list?_texts {α : Type} {f : Node → Option α} {name : α → String} {as : List α}
    (h : ∀ a ∈ as, f (.scalar false (name a)) = some a) :
    list? f (ofJson (Json.texts (as.map name))) = some as := by
  have hread : ∀ a ∈ as, f (ofJson (.text (name a))) = some (id a) := h
  unfold Json.texts
  rw [List.map_map]
  exact (list?_ofJson hread).trans (congrArg some (List.map_id as))

end Node

/-- What is looked up in a document was looked up in what it was written from. -/
theorem lookup?_map {ν μ : Type} (key : String) (g : ν → μ) (es : List (String × ν)) :
    lookup? key (es.map fun e => (e.1, g e.2)) = (lookup? key es).map (·.map g) := by
  have hfilter : (es.map fun e => (e.1, g e.2)).filter (·.1 = key) =
      (es.filter (·.1 = key)).map fun e => (e.1, g e.2) := by
    rw [List.filter_map]
    rfl
  unfold lookup?
  rw [hfilter]
  generalize es.filter (·.1 = key) = found
  rcases found with _ | ⟨e, _ | ⟨e', rest⟩⟩ <;> rfl

section Present

variable {ν : Type} {key : String} {v : Option ν} {ps : List (String × Option ν)}

/-- The keys of a mapping that have a value. -/
def present (ps : List (String × Option ν)) : List (String × ν) :=
  ps.filterMap fun p => p.2.map (p.1, ·)

theorem filter_present (h : key ∉ ps.map (·.1)) : (present ps).filter (·.1 = key) = [] := by
  rw [List.filter_eq_nil_iff]
  intro e he
  obtain ⟨p, hp, hpe⟩ := List.mem_filterMap.1 he
  obtain ⟨x, -, rfl⟩ := Option.map_eq_some_iff.1 hpe
  have hne : p.1 ≠ key := fun heq => h (List.mem_map.2 ⟨p, hp, heq⟩)
  simpa using hne

theorem lookup?_present_absent (h : key ∉ ps.map (·.1)) : lookup? key (present ps) = some none := by
  unfold lookup?
  rw [filter_present h]

theorem lookup?_present (hkeys : (ps.map (·.1)).Nodup) (h : (key, v) ∈ ps) :
    lookup? key (present ps) = some v := by
  obtain ⟨front, back, rfl⟩ := List.append_of_mem h
  have hnot : key ∉ front.map (·.1) ∧ key ∉ back.map (·.1) := by
    rw [List.map_append, List.map_cons, List.perm_middle.nodup_iff, List.nodup_cons] at hkeys
    simpa using hkeys.1
  have happend : present (front ++ (key, v) :: back) =
      present front ++ (present [(key, v)] ++ present back) := by
    simp only [present, ← List.filterMap_append, List.singleton_append]
  unfold lookup?
  rw [happend, List.filter_append, List.filter_append, filter_present hnot.1, filter_present hnot.2]
  cases v <;> simp [present]

end Present

end Document

open Document

namespace Edit

theorem amountOfValue?_whole {x : Int} (h : Semitones.Held x) :
    amountOfValue? (.whole (.ofInt x)) = some x := by
  simp [amountOfValue?, Value.integer?, Whole.toInt_ofInt, h]

/-- What the keys of a written edit stand for. -/
def value (e : Edit) : Value :=
  .mapping ([(.text "type", .text e.kind.name), (.text "role", .text e.role.name)] ++
    e.amount?.toList.map fun x => (.text "value", .whole (.ofInt x)))

theorem ofValue?_value {e : Edit} (h : e.Held) : ofValue? e.value = some e := by
  have hparts : ofValue? e.value = ofParts? e.kind.name (some e.role)
      (e.amount?.bind fun x => amountOfValue? (.whole (.ofInt x))) := by
    rw [← Role.ofName?_name e.role]
    unfold value
    cases e.amount? <;> rfl
  rw [hparts]
  cases e with
  | remove r => rfl
  | replace r x | modify r x | add r x =>
    have hx := amountOfValue?_whole (h x rfl)
    simp [kind, Kind.name, role, amount?, ofParts?, hx]

theorem valueOfNode?_toJson {e : Edit} (h : e.Held) (levels : Nat) :
    Value.ofNode? (levels + 1) (Node.ofJson e.toJson) = some e.value := by
  have hquoted : ∀ s, Value.ofNode? levels (.scalar false s) = some (.text s) := by
    intro s
    cases levels <;> rfl
  have hnumber : ∀ x, e.amount? = some x → Value.ofNode? levels (.scalar true (Decimal.ofInt x)) =
      some (.whole (.ofInt x)) := by
    intro x hx
    obtain ⟨hlow, hhigh⟩ := h x hx
    have hfits : (Whole.ofInt x).fits 64 = true :=
      Whole.fits_ofInt (Int.le_trans (by decide) hlow) (Int.lt_of_le_of_lt hhigh (by decide))
    rw [← Value.ofPlain?_ofInt hfits]
    cases levels <;> rfl
  unfold toJson value
  cases ha : e.amount? with
  | none => simp [Node.ofJson, Node.ofFields, Json.field?, Value.ofNode?, hquoted]
  | some x => simp [Node.ofJson, Node.ofFields, Json.field?, Value.ofNode?, hquoted, hnumber x ha]

theorem ofNode?_toJson {e : Edit} (h : e.Held) (levels : Nat) :
    ofNode? (levels + 1) (Node.ofJson e.toJson) = some e := by
  unfold ofNode?
  rw [valueOfNode?_toJson h]
  exact ofValue?_value h

end Edit

namespace Rule

variable {r : Rule} {key : String}

/-- A byte holds the priority of a rule, and what its edits carry is held. -/
structure Fits (r : Rule) : Prop where
  priority : r.priority ≤ 255
  edits : ∀ e ∈ r.edits, e.Held

/-- The keys of a rule and their values, if they have any. -/
def fields (r : Rule) : List (String × Option Json) :=
  [("symbols", Json.texts r.symbols), ("category", Json.text r.category.name),
    ("operations", Json.list (r.edits.map (·.toJson))), ("priority", Json.int r.priority),
    ("requires", if r.requires = [] then none else Json.texts (r.requires.map (·.text))),
    ("excludes", if r.excludes = [] then none else Json.texts (r.excludes.map (·.name))),
    ("is-default", if r.isDefault then Json.bool true else none),
    ("case-sensitive", if r.caseSensitive then Json.bool true else none)]

theorem toJson_eq (r : Rule) : r.toJson = .object (present r.fields) := by
  unfold toJson fields
  split <;> split <;> split <;> split <;> rfl

/-- What a reader finds under the keys of a rule. -/
def entries (r : Rule) : List (String × Node) :=
  (present r.fields).map fun e => (e.1, Node.ofJson e.2)

theorem entries?_toJson (r : Rule) : (Node.ofJson r.toJson).entries? = some r.entries := by
  rw [toJson_eq]
  exact Node.entries?_ofJson _

theorem keys_fields (r : Rule) : r.fields.map (·.1) = ["symbols", "category", "operations", "priority",
    "requires", "excludes", "is-default", "case-sensitive"] := rfl

theorem lookup?_entries {i : Nat} {v : Option Json} (h : r.fields[i]? = some (key, v)) :
    lookup? key r.entries = some (v.map Node.ofJson) := by
  have hkeys : (r.fields.map (·.1)).Nodup := by
    rw [keys_fields]
    decide
  unfold entries
  rw [lookup?_map, lookup?_present hkeys (List.mem_of_getElem? h)]
  rfl

theorem lookup?_entries_absent (h : key ∉ r.fields.map (·.1)) : lookup? key r.entries = some none := by
  unfold entries
  rw [lookup?_map, lookup?_present_absent h]
  rfl

/-- A key that is written has to be read. -/
theorem required?_entries {α : Type} {i : Nat} {j : Json} (h : r.fields[i]? = some (key, some j))
    (f : Node → Option α) : required? key f r.entries = f (Node.ofJson j) := by
  unfold required?
  rw [lookup?_entries h]
  rfl

/-- A key is left out if a reader would fill in what it says. -/
theorem withDefault?_entries {α : Type} {i : Nat} {v : Option Json} {fallback a : α}
    {f : Node → Option α} (h : r.fields[i]? = some (key, v))
    (hwritten : ∀ j, v = some j → f (Node.ofJson j) = some a)
    (hleft : v = none → fallback = a) : withDefault? key f fallback r.entries = some a := by
  unfold withDefault?
  rw [lookup?_entries h]
  cases v with
  | none => exact congrArg some (hleft rfl)
  | some j => exact hwritten j rfl

/-- A rule as its document gives it. -/
def entry (r : Rule) : RuleEntry where
  symbols := r.symbols
  category := r.category
  edit := none
  edits := r.edits
  priority := some r.priority
  requires := r.requires
  excludes := r.excludes
  isDefault := r.isDefault
  caseSensitive := r.caseSensitive

theorem rule_entry (r : Rule) : r.entry.rule = .ok r := rfl

theorem natural?_ofJson (n : Nat) : (Node.ofJson (.int n)).natural? = some n := by
  have hwhole := Plain.whole?_ofInt n
  unfold Node.ofJson
  change (Plain.whole? (Decimal.ofInt n)).bind _ = _
  rw [hwhole]
  exact Whole.natural?_ofInt n

theorem priority_entries (hfits : r.Fits) :
    optional? "priority" (fun n => n.natural?.filter (· ≤ 255)) r.entries = some (some r.priority) := by
  unfold optional?
  refine withDefault?_entries (i := 3) rfl ?_ (by rintro ⟨⟩)
  rintro j ⟨⟩
  have hnull : (Node.ofJson (.int r.priority)).isNull = false :=
    Plain.isNull_of_whole? (Plain.whole?_ofInt r.priority)
  simp [Node.optional, hnull, natural?_ofJson, hfits.priority]

theorem edits_entries (hfits : r.Fits) :
    withDefault? "operations" (Node.list? (Edit.ofNode? (RuleEntry.maxLevels - 4))) [] r.entries =
      some r.edits := by
  have hread : ∀ e ∈ r.edits,
      Edit.ofNode? (RuleEntry.maxLevels - 4) (Node.ofJson e.toJson) = some (id e) :=
    fun e he => Edit.ofNode?_toJson (hfits.edits e he) _
  refine withDefault?_entries (i := 2) rfl ?_ (by rintro ⟨⟩)
  rintro j ⟨⟩
  exact (Node.list?_ofJson hread).trans (congrArg some (List.map_id _))

/-- A list of names that is left out if it is empty. -/
theorem names_entries {α : Type} {i : Nat} {f : Node → Option α} {name : α → String} {as : List α}
    (h : r.fields[i]? = some (key, if as = [] then none else some (Json.texts (as.map name))))
    (hread : ∀ a ∈ as, f (.scalar false (name a)) = some a) :
    withDefault? key (Node.list? f) [] r.entries = some as := by
  refine withDefault?_entries h ?_ ?_
  · intro j hj
    split at hj
    · cases hj
    · cases hj
      exact Node.list?_texts hread
  · intro hnone
    split at hnone
    · next hnil => exact hnil.symm
    · cases hnone

/-- A flag that is left out if it is not set. -/
theorem flag_entries {i : Nat} {b : Bool}
    (h : r.fields[i]? = some (key, if b then some (Json.bool true) else none)) :
    withDefault? key Node.flag? false r.entries = some b := by
  cases b with
  | false => exact withDefault?_entries h (by rintro j ⟨⟩) fun _ => rfl
  | true =>
    refine withDefault?_entries h ?_ (by rintro ⟨⟩)
    rintro j ⟨⟩
    rfl

theorem ofNode?_toJson (hfits : r.Fits) (htexts : ∀ q ∈ r.requires, ∃ s, q = .ofText s) :
    RuleEntry.ofNode? (Node.ofJson r.toJson) = some r.entry := by
  have hsymbols : required? "symbols" (Node.list? Node.text?) r.entries = some r.symbols := by
    have hread : Node.list? Node.text? (Node.ofJson (Json.texts (r.symbols.map id))) = some r.symbols :=
      Node.list?_texts fun s _ => rfl
    rw [List.map_id] at hread
    exact (required?_entries (i := 0) rfl _).trans hread
  have hcategory : required? "category" Category.ofNode? r.entries = some r.category :=
    (required?_entries (i := 1) rfl _).trans (Category.ofName?_name r.category)
  have hedit : optional? "operation" (Edit.ofNode? (RuleEntry.maxLevels - 3)) r.entries = some none := by
    have hkey : "operation" ∉ r.fields.map (·.1) := by
      rw [keys_fields]
      decide
    unfold optional? withDefault?
    rw [lookup?_entries_absent hkey]
    rfl
  have hrequires : withDefault? "requires" (Node.list? fun n => n.text?.map .ofText) [] r.entries =
      some r.requires :=
    names_entries (i := 4) rfl fun q hq => congrArg some (Requirement.ofText_text (htexts q hq))
  have hexcludes : withDefault? "excludes" (Node.list? Category.ofNode?) [] r.entries =
      some r.excludes :=
    names_entries (i := 5) rfl fun c _ => Category.ofName?_name c
  have hdefault : withDefault? "is-default" Node.flag? false r.entries = some r.isDefault :=
    flag_entries (i := 6) rfl
  have hcase : withDefault? "case-sensitive" Node.flag? false r.entries = some r.caseSensitive :=
    flag_entries (i := 7) rfl
  unfold RuleEntry.ofNode?
  rw [entries?_toJson]
  simp only [Option.bind_eq_bind, Option.bind_some, hsymbols, hcategory, hedit, edits_entries hfits,
    priority_entries hfits, hrequires, hexcludes, hdefault, hcase]
  rfl

end Rule

namespace Lexicon

variable {rules : List Rule}

theorem entriesOfNode?_toJson (hfits : ∀ r ∈ rules, r.Fits)
    (htexts : ∀ r ∈ rules, ∀ q ∈ r.requires, ∃ s, q = .ofText s) :
    entriesOfNode? (Node.ofJson (Lexicon.mk rules).toJson) = some (rules.map (·.entry)) := by
  have hread : ∀ r ∈ rules, RuleEntry.ofNode? (Node.ofJson r.toJson) = some r.entry :=
    fun r hr => Rule.ofNode?_toJson (hfits r hr) (htexts r hr)
  unfold entriesOfNode? toJson
  rw [Node.entries?_ofJson]
  exact Node.list?_ofJson hread

/-- A table of rules is read as it was written, and then admitted or refused as it would have been. -/
theorem ofNode_toJson (hfits : ∀ r ∈ rules, r.Fits)
    (htexts : ∀ r ∈ rules, ∀ q ∈ r.requires, ∃ s, q = .ofText s) :
    ofNode (Node.ofJson (Lexicon.mk rules).toJson) = ofRules rules := by
  have hrules : (rules.map (·.entry)).mapM (·.rule) = (pure (rules.map id) : Except Refusal (List Rule)) :=
    mapM_map_eq_pure fun r _ => r.rule_entry
  unfold ofNode
  rw [entriesOfNode?_toJson hfits htexts]
  simp only [hrules, List.map_id, pure_bind]

/-- A lexicon that is written out and read back is the same lexicon, if its numbers fit and each of its
requirements can be told by a text. -/
theorem read_back (rules : List Rule) (lx : Lexicon) (hok : ofRules rules = .ok lx)
    (hfits : ∀ r ∈ rules, r.Fits)
    (htexts : ∀ r ∈ rules, ∀ q ∈ r.requires, ∃ s, q = .ofText s) :
    ofNode (Node.ofJson lx.toJson) = .ok lx := by
  obtain ⟨-, rfl⟩ := ofRules_iff_wellFormed.1 hok
  rw [ofNode_toJson hfits htexts, hok]

theorem read_back_standard : ofNode (Node.ofJson standard.toJson) = .ok standard := by
  have hpriority : ∀ r ∈ standard.rules, r.priority ≤ 255 := by decide
  have hedits : ∀ r ∈ standard.rules, ∀ e ∈ r.edits, e.Held := by decide
  have htexts : ∀ r ∈ standard.rules, ∀ q ∈ r.requires, q = .ofText "extension" := by decide
  exact read_back standard.rules standard ofRules_standard
    (fun r hr => ⟨hpriority r hr, hedits r hr⟩) fun r hr q hq => ⟨_, htexts r hr q hq⟩

end Lexicon
end ChordSymbol
