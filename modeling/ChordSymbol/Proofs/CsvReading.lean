import ChordSymbol.Comparison.Export

/-! Reading comma-separated values. A grammar says how fields, records and tables may be written, and a
reader takes a text letter by letter. It reads exactly what the grammar allows, in the one way in which it
can be read; what is written as a table comes back as it was. -/
namespace ChordSymbol.Csv

/-- A field without special characters stands as it is; any text may stand in quotes. -/
inductive WritesField : List Char → List Char → Prop
  | plain {cs : List Char} (h : ∀ c ∈ cs, isSpecial c = false) : WritesField cs cs
  | quoted (cs : List Char) : WritesField ('\x22' :: doubleQuotes cs ++ ['\x22']) cs

/-- The fields of a record, commas between them. There is one at least, which may be empty. -/
inductive WritesRecord : List Char → List (List Char) → Prop
  | single {w cs : List Char} (h : WritesField w cs) : WritesRecord w [cs]
  | cons {w cs rest : List Char} {cells : List (List Char)} (h : WritesField w cs)
      (hrest : WritesRecord rest cells) : WritesRecord (w ++ ',' :: rest) (cs :: cells)

/-- Each record ends in a line break, which the last may lack unless nothing else would be left of it. -/
inductive WritesTable : List Char → List (List (List Char)) → Prop
  | nil : WritesTable [] []
  | last {w : List Char} {cells : List (List Char)} (h : WritesRecord w cells) (hne : w ≠ []) :
      WritesTable w [cells]
  | cons {w rest : List Char} {cells : List (List Char)} {records : List (List (List Char))}
      (h : WritesRecord w cells) (hrest : WritesTable rest records) :
      WritesTable (w ++ '\r' :: '\n' :: rest) (cells :: records)

/-- Where a reader stands. -/
inductive Place
  /-- In front of a field, which is the first of its record or not. -/
  | front (first : Bool)
  | plain
  | quoted
  /-- After a quote in quotes, which ends the field or is the first of two. -/
  | closed
  /-- After a carriage return. -/
  | returned
  deriving DecidableEq

/-- Whether a field may end here. -/
def Place.mayEnd : Place → Bool
  | .front _ | .plain | .closed => true
  | .quoted | .returned => false

/-- A reader, with what it has read: the letters of a field, the fields before it, the records before. -/
structure Reader where
  place : Place
  letters : List Char
  cells : List (List Char)
  records : List (List (List Char))

namespace Reader

def start : Reader := ⟨.front true, [], [], []⟩

/-- Ends a field at a comma or a carriage return, and nowhere else. -/
def endField (r : Reader) (c : Char) : Option Reader :=
  if c = ',' then some ⟨.front false, [], r.cells ++ [r.letters], r.records⟩
  else if c = '\r' then some ⟨.returned, [], r.cells ++ [r.letters], r.records⟩
  else none

/-- One more letter of a field without quotes, or its end. -/
def bare (r : Reader) (c : Char) : Option Reader :=
  if isSpecial c then r.endField c else some ⟨.plain, r.letters ++ [c], r.cells, r.records⟩

def step (r : Reader) (c : Char) : Option Reader :=
  match r.place with
  | .front _ => if c = '\x22' then some { r with place := .quoted } else r.bare c
  | .plain => r.bare c
  | .quoted =>
    if c = '\x22' then some { r with place := .closed }
    else some { r with letters := r.letters ++ [c] }
  | .closed =>
    if c = '\x22' then some { r with place := .quoted, letters := r.letters ++ [c] }
    else r.endField c
  | .returned => if c = '\n' then some ⟨.front true, [], [], r.records ++ [r.cells]⟩ else none

def run (r : Reader) (cs : List Char) : Option Reader := cs.foldlM step r

/-- The records, once the text is at an end. -/
def finish (r : Reader) : Option (List (List (List Char))) :=
  match r.place with
  | .front true => some r.records
  | .front false | .plain | .closed => some (r.records ++ [r.cells ++ [r.letters]])
  | .quoted | .returned => none

@[simp] theorem run_nil (r : Reader) : r.run [] = some r := rfl

@[simp] theorem run_cons (r : Reader) (c : Char) (cs : List Char) :
    r.run (c :: cs) = (r.step c).bind (run · cs) := rfl

theorem run_append (r : Reader) (cs ds : List Char) :
    r.run (cs ++ ds) = (r.run cs).bind (run · ds) := List.foldlM_append

end Reader

/-- The records of a text, unless it is no table. -/
def readChars? (cs : List Char) : Option (List (List (List Char))) :=
  (Reader.start.run cs).bind Reader.finish

def read? (s : String) : Option (List (List String)) :=
  (readChars? s.toList).map (·.map (·.map String.ofList))

section Complete

variable {w cs rest : List Char} {cells more : List (List Char)} {records found : List (List (List Char))}
  {r : Reader}

theorem isSpecial_quote : isSpecial '\x22' = true := by decide

theorem step_comma (h : r.place.mayEnd = true) :
    r.step ',' = some ⟨.front false, [], r.cells ++ [r.letters], r.records⟩ := by
  obtain ⟨place, letters, cells, records⟩ := r
  cases place <;> simp_all [Place.mayEnd, Reader.step, Reader.bare, Reader.endField, isSpecial]

theorem step_return (h : r.place.mayEnd = true) :
    r.step '\r' = some ⟨.returned, [], r.cells ++ [r.letters], r.records⟩ := by
  obtain ⟨place, letters, cells, records⟩ := r
  cases place <;> simp_all [Place.mayEnd, Reader.step, Reader.bare, Reader.endField, isSpecial]

theorem run_plain (h : ∀ c ∈ w, isSpecial c = false) (letters : List Char) :
    Reader.run ⟨.plain, letters, cells, records⟩ w = some ⟨.plain, letters ++ w, cells, records⟩ := by
  induction w generalizing letters with
  | nil => simp
  | cons c w ih =>
    obtain ⟨hc, hw⟩ := List.forall_mem_cons.1 h
    have hstep : Reader.step ⟨.plain, letters, cells, records⟩ c =
        some ⟨.plain, letters ++ [c], cells, records⟩ := by
      simp [Reader.step, Reader.bare, hc]
    rw [Reader.run_cons, hstep, Option.bind_some, ih hw]
    simp

theorem run_quoted (cs letters : List Char) :
    Reader.run ⟨.quoted, letters, cells, records⟩ (doubleQuotes cs) =
      some ⟨.quoted, letters ++ cs, cells, records⟩ := by
  induction cs generalizing letters with
  | nil => simp [doubleQuotes]
  | cons c cs ih =>
    by_cases hc : c = '\x22'
    · simp [doubleQuotes, hc, Reader.step, ih]
    · simp [doubleQuotes, hc, Reader.step, ih]

/-- After a field the reader has its text, and may go on to the next. -/
theorem run_field (h : WritesField w cs) (first : Bool) (cells : List (List Char))
    (records : List (List (List Char))) : ∃ place, place.mayEnd = true ∧
    (place = .front true → first = true ∧ w = []) ∧
    Reader.run ⟨.front first, [], cells, records⟩ w = some ⟨place, cs, cells, records⟩ := by
  cases h with
  | plain h =>
    cases w with
    | nil => exact ⟨.front first, rfl, by simp, rfl⟩
    | cons c w =>
      obtain ⟨hc, hw⟩ := List.forall_mem_cons.1 h
      have hquote : c ≠ '\x22' := by
        rintro rfl
        cases isSpecial_quote.symm.trans hc
      have hstep : Reader.step ⟨.front first, [], cells, records⟩ c =
          some ⟨.plain, [c], cells, records⟩ := by
        simp [Reader.step, Reader.bare, hc, hquote]
      refine ⟨.plain, rfl, by simp, ?_⟩
      rw [Reader.run_cons, hstep, Option.bind_some, run_plain hw]
      rfl
  | quoted =>
    refine ⟨.closed, rfl, by simp, ?_⟩
    have hopen : Reader.step ⟨.front first, [], cells, records⟩ '\x22' =
        some ⟨.quoted, [], cells, records⟩ := rfl
    rw [List.cons_append, Reader.run_cons, hopen, Option.bind_some, Reader.run_append, run_quoted]
    rfl

/-- After a record the reader has all its fields, the last of them still open. -/
theorem run_record (h : WritesRecord w more) (first : Bool) (cells : List (List Char))
    (records : List (List (List Char))) : ∃ place letters before,
    place.mayEnd = true ∧ (place = .front true → first = true ∧ w = []) ∧
    before ++ [letters] = cells ++ more ∧
    Reader.run ⟨.front first, [], cells, records⟩ w = some ⟨place, letters, before, records⟩ := by
  induction h generalizing first cells with
  | single h =>
    obtain ⟨place, hend, hfront, hrun⟩ := run_field h first cells records
    exact ⟨place, _, cells, hend, hfront, rfl, hrun⟩
  | @cons w cs rest more h _ ih =>
    obtain ⟨place, hend, -, hrun⟩ := run_field h first cells records
    obtain ⟨place', letters, before, hend', hfront', hbefore, hrun'⟩ := ih false (cells ++ [cs])
    refine ⟨place', letters, before, hend', fun hp => absurd (hfront' hp).1 (by decide), ?_, ?_⟩
    · rw [hbefore, List.append_assoc, List.singleton_append]
    · rw [Reader.run_append, hrun, Option.bind_some, Reader.run_cons, step_comma hend, Option.bind_some,
        hrun']

theorem finish_of_mayEnd (h : r.place.mayEnd = true) (hne : r.place ≠ .front true) :
    r.finish = some (r.records ++ [r.cells ++ [r.letters]]) := by
  obtain ⟨place, letters, cells, records⟩ := r
  cases place with
  | front first => cases first <;> simp_all [Reader.finish]
  | plain => rfl
  | closed => rfl
  | quoted => cases h
  | returned => cases h

theorem run_table (h : WritesTable w found) (records : List (List (List Char))) :
    (Reader.run ⟨.front true, [], [], records⟩ w).bind Reader.finish = some (records ++ found) := by
  induction h generalizing records with
  | nil => simp [Reader.finish]
  | last h hne =>
    obtain ⟨place, letters, before, hend, hfront, hbefore, hrun⟩ := run_record h true [] records
    rw [hrun, Option.bind_some, finish_of_mayEnd hend fun hp => hne (hfront hp).2, hbefore,
      List.nil_append]
  | @cons w rest more found h _ ih =>
    obtain ⟨place, letters, before, hend, -, hbefore, hrun⟩ := run_record h true [] records
    have hfeed : Reader.step ⟨.returned, [], before ++ [letters], records⟩ '\n' =
        some ⟨.front true, [], [], records ++ [before ++ [letters]]⟩ := rfl
    rw [Reader.run_append, hrun, Option.bind_some, Reader.run_cons, step_return hend, Option.bind_some,
      Reader.run_cons, hfeed, Option.bind_some, ih, hbefore, List.nil_append, List.append_assoc,
      List.singleton_append]

/-- What the grammar allows is read as it says. -/
theorem readChars?_of_writesTable (h : WritesTable w found) : readChars? w = some found :=
  run_table h []

end Complete

section Sound

variable {w front cs done pre : List Char} {cells more : List (List Char)}
  {records found : List (List (List Char))} {r r' : Reader} {c : Char}

/-- Fields with a comma behind each. -/
inductive Cells : List Char → List (List Char) → Prop
  | nil : Cells [] []
  | snoc {front w cs : List Char} {cells : List (List Char)} (h : Cells front cells)
      (hfield : WritesField w cs) : Cells (front ++ (w ++ [','])) (cells ++ [cs])

/-- Records with a line break behind each. -/
inductive Lines : List Char → List (List (List Char)) → Prop
  | nil : Lines [] []
  | snoc {done w : List Char} {cells : List (List Char)} {records : List (List (List Char))}
      (h : Lines done records) (hrecord : WritesRecord w cells) :
      Lines (done ++ (w ++ ['\r', '\n'])) (records ++ [cells])

/-- What stands of a field whose `letters` have been read, by the place that this leads to. -/
inductive Opened : Place → List Char → List Char → Prop
  | front (first : Bool) : Opened (.front first) [] []
  | plain {cs : List Char} (hne : cs ≠ []) (h : ∀ c ∈ cs, isSpecial c = false) : Opened .plain cs cs
  | quoted (cs : List Char) : Opened .quoted ('\x22' :: doubleQuotes cs) cs
  | closed (cs : List Char) : Opened .closed ('\x22' :: doubleQuotes cs ++ ['\x22']) cs

/-- The text behind a reader. -/
inductive Behind : List Char → Reader → Prop
  | field {done front w letters : List Char} {cells : List (List Char)}
      {records : List (List (List Char))} {place : Place} (hlines : Lines done records)
      (hcells : Cells front cells) (hopened : Opened place w letters)
      (hfirst : ∀ first, place = .front first → (first = true ↔ cells = [])) :
      Behind (done ++ (front ++ w)) ⟨place, letters, cells, records⟩
  | returned {done w : List Char} {cells : List (List Char)} {records : List (List (List Char))}
      (hlines : Lines done records) (hrecord : WritesRecord w cells) :
      Behind (done ++ (w ++ ['\r'])) ⟨.returned, [], cells, records⟩

theorem doubleQuotes_append (cs ds : List Char) :
    doubleQuotes (cs ++ ds) = doubleQuotes cs ++ doubleQuotes ds := by
  induction cs with
  | nil => rfl
  | cons c cs ih =>
    by_cases hc : c = '\x22'
    · simp [doubleQuotes, hc, ih]
    · simp [doubleQuotes, hc, ih]

theorem Cells.writesRecord (h : Cells front cells) (hrest : WritesRecord w more) :
    WritesRecord (front ++ w) (cells ++ more) := by
  induction h generalizing w more with
  | nil => exact hrest
  | snoc h hfield ih => simpa using ih (.cons hfield hrest)

theorem Lines.writesTable (h : Lines done records) (hrest : WritesTable w found) :
    WritesTable (done ++ w) (records ++ found) := by
  induction h generalizing w found with
  | nil => exact hrest
  | snoc h hrecord ih => simpa using ih (.cons hrecord hrest)

theorem Opened.writesField {place : Place} {letters : List Char} (h : Opened place w letters)
    (hend : place.mayEnd = true) : WritesField w letters := by
  cases h with
  | front first => exact .plain (by simp)
  | plain hne h => exact .plain h
  | quoted => cases hend
  | closed => exact .quoted _

theorem Behind.endField {place : Place} {letters : List Char} (hlines : Lines done records)
    (hcells : Cells front cells) (hfield : WritesField w letters)
    (h : Reader.endField ⟨place, letters, cells, records⟩ c = some r) :
    Behind (done ++ (front ++ w) ++ [c]) r := by
  unfold Reader.endField at h
  split at h
  · next hc =>
    subst hc
    cases h
    have hnext := Behind.field hlines (hcells.snoc hfield) (.front false) (by simp)
    simpa using hnext
  · split at h
    · next hc =>
      subst hc
      cases h
      have hnext := Behind.returned hlines (hcells.writesRecord (.single hfield))
      simpa using hnext
    · cases h

theorem Behind.bare {place : Place} {letters : List Char} (hlines : Lines done records)
    (hcells : Cells front cells) (hletters : ∀ c ∈ letters, isSpecial c = false)
    (h : Reader.bare ⟨place, letters, cells, records⟩ c = some r) :
    Behind (done ++ (front ++ letters) ++ [c]) r := by
  unfold Reader.bare at h
  split at h
  · exact Behind.endField hlines hcells (.plain hletters) h
  · next hc =>
    cases h
    have hmore : ∀ d ∈ letters ++ [c], isSpecial d = false := by
      simpa [or_imp, forall_and, hc] using hletters
    have hnext := Behind.field hlines hcells (.plain (by simp) hmore) (by simp)
    simpa using hnext

/-- One step: what stands behind the reader is still what it has read. -/
theorem Behind.step (h : Behind pre r) (hstep : r.step c = some r') : Behind (pre ++ [c]) r' := by
  cases h with
  | @field done front w letters cells records place hlines hcells hopened hfirst =>
    cases hopened with
    | front first =>
      simp only [Reader.step] at hstep
      split at hstep
      · next hc =>
        subst hc
        cases hstep
        have hnext := Behind.field hlines hcells (.quoted []) (by simp)
        simpa [doubleQuotes] using hnext
      · exact Behind.bare hlines hcells (by simp) hstep
    | plain hne hletters => exact Behind.bare hlines hcells hletters hstep
    | quoted =>
      simp only [Reader.step] at hstep
      split at hstep
      · next hc =>
        subst hc
        cases hstep
        have hnext := Behind.field hlines hcells (.closed letters) (by simp)
        simpa using hnext
      · next hc =>
        cases hstep
        have hnext := Behind.field hlines hcells (.quoted (letters ++ [c])) (by simp)
        simpa [doubleQuotes_append, doubleQuotes, hc] using hnext
    | closed =>
      simp only [Reader.step] at hstep
      split at hstep
      · next hc =>
        subst hc
        cases hstep
        have hnext := Behind.field hlines hcells (.quoted (letters ++ ['\x22'])) (by simp)
        simpa [doubleQuotes_append, doubleQuotes] using hnext
      · exact Behind.endField hlines hcells (.quoted letters) hstep
  | returned hlines hrecord =>
    simp only [Reader.step] at hstep
    split at hstep
    · next hc =>
      subst hc
      cases hstep
      have hnext := Behind.field (hlines.snoc hrecord) .nil (.front true) (by simp)
      simpa using hnext
    · cases hstep

theorem Behind.run (h : Behind pre r) (hrun : r.run w = some r') : Behind (pre ++ w) r' := by
  induction w generalizing pre r with
  | nil =>
    cases hrun
    simpa using h
  | cons c w ih =>
    obtain ⟨next, hstep, hrest⟩ := Option.bind_eq_some_iff.1 hrun
    simpa using ih (h.step hstep) hrest

theorem Cells.eq_nil_iff (h : Cells front cells) : front = [] ↔ cells = [] := by
  cases h <;> simp

theorem mayEnd_of_finish (h : r.finish = some found) : r.place.mayEnd = true := by
  obtain ⟨place, letters, cells, records⟩ := r
  cases place with
  | front first => rfl
  | plain => rfl
  | closed => rfl
  | quoted => cases h
  | returned => cases h

/-- Where a text may end, what stands behind the reader is a table. -/
theorem Behind.writesTable (h : Behind pre r) (hfinish : r.finish = some found) :
    WritesTable pre found := by
  have hend := mayEnd_of_finish hfinish
  cases h with
  | @field done front w letters cells records place hlines hcells hopened hfirst =>
    by_cases hplace : place = .front true
    · subst hplace
      cases hopened
      cases hcells.eq_nil_iff.2 ((hfirst true rfl).1 rfl)
      cases hfinish
      simpa using hlines.writesTable .nil
    · cases (finish_of_mayEnd hend hplace).symm.trans hfinish
      have hrecord := hcells.writesRecord (.single (hopened.writesField hend))
      refine hlines.writesTable (.last hrecord fun hnil => hplace ?_)
      -- nothing has been read of the record, so that the reader is in front of it
      obtain ⟨hfront, hw⟩ := List.append_eq_nil_iff.1 hnil
      cases hopened with
      | front first => rw [(hfirst first rfl).2 (hcells.eq_nil_iff.1 hfront)]
      | plain hne => exact absurd hw hne
      | quoted => cases hw
      | closed => cases hw
  | returned hlines hrecord => cases hfinish

theorem behind_start : Behind [] .start := .field .nil .nil (.front true) (by simp)

end Sound

/-- A text is read exactly if it is a table, and as the records that it is a table of. -/
theorem readChars?_eq_some {w : List Char} {records : List (List (List Char))} :
    readChars? w = some records ↔ WritesTable w records := by
  refine ⟨fun h => ?_, readChars?_of_writesTable⟩
  obtain ⟨r, hrun, hfinish⟩ := Option.bind_eq_some_iff.1 h
  exact (behind_start.run hrun).writesTable hfinish

/-- A line break in quotes belongs to the field. -/
example : readChars? ['\x22', 'a', '\r', '\n', '\x22', ',', '\r', '\n'] =
    some [[['a', '\r', '\n'], []]] := by decide

section Written

theorem writesField_encode (cs : List Char) : WritesField (encode cs) cs := by
  unfold encode
  split
  · exact .quoted cs
  · next h => exact .plain (by simpa using h)

theorem writesRecord_join {fields : List String} (h : fields ≠ []) :
    WritesRecord (",".intercalate (fields.map field)).toList (fields.map String.toList) := by
  induction fields with
  | nil => exact absurd rfl h
  | cons s rest ih =>
    have hfield : WritesField (field s).toList s.toList := by
      simpa [field] using writesField_encode s.toList
    cases rest with
    | nil => simpa using .single hfield
    | cons t rest =>
      have hcons := WritesRecord.cons hfield (ih (List.cons_ne_nil t rest))
      simpa [String.intercalate_cons_cons, -String.toList_intercalate] using hcons

theorem writesTable_table {records : List (List String)} (h : ∀ fields ∈ records, fields ≠ []) :
    WritesTable (table records).toList (records.map (·.map String.toList)) := by
  induction records with
  | nil => simpa [table] using .nil
  | cons fields records ih =>
    obtain ⟨hfields, hrest⟩ := List.forall_mem_cons.1 h
    have hcons := WritesTable.cons (writesRecord_join hfields) (ih hrest)
    simpa [table, record, -String.toList_intercalate] using hcons

/-- A table of records is read back as it was, whatever its texts are. -/
theorem read?_table {records : List (List String)} (h : ∀ fields ∈ records, fields ≠ []) :
    read? (table records) = some records := by
  rw [read?, readChars?_eq_some.2 (writesTable_table h)]
  simp [Function.comp_def]

end Written
end ChordSymbol.Csv

namespace ChordSymbol.Comparison

variable {rows : List Row} {fields : List String}

theorem length_of_mem_records (h : fields ∈ header :: rows.map (·.cells)) : fields.length = 5 := by
  rcases List.mem_cons.1 h with rfl | h
  · rfl
  · obtain ⟨r, -, rfl⟩ := List.mem_map.1 h
    rfl

theorem ne_nil_of_mem_records (h : fields ∈ header :: rows.map (·.cells)) : fields ≠ [] := by
  have hlength := length_of_mem_records h
  rintro rfl
  cases hlength

/-- Whatever its texts are, a comparison is read back from its comma-separated values: the header, and
for each row five fields as they were before any was quoted. No other way to read them is allowed. -/
theorem read?_toCsv (rows : List Row) :
    Csv.read? (toCsv rows) = some (["chord", "bass", "engine", "reference", "outcome"] ::
      rows.map fun r => [r.chord, r.bass.getD "", r.interpreterCell, r.handbookCell, r.outcome.name]) ∧
    (∀ records, Csv.read? (toCsv rows) = some records →
      records.length = 1 + rows.length ∧ ∀ fields ∈ records, fields.length = 5) ∧
    ∀ records, Csv.WritesTable (toCsv rows).toList records ↔
      records = (header :: rows.map (·.cells)).map (·.map String.toList) := by
  have hne : ∀ fields ∈ header :: rows.map (·.cells), fields ≠ [] := fun _ => ne_nil_of_mem_records
  have hwritten := Csv.writesTable_table hne
  have hread : Csv.read? (toCsv rows) = some (header :: rows.map (·.cells)) := Csv.read?_table hne
  refine ⟨hread, fun records h => ?_, fun records => ⟨fun h => ?_, ?_⟩⟩
  · cases hread.symm.trans h
    exact ⟨by simp [Nat.add_comm], fun fields => length_of_mem_records⟩
  · have hall := Csv.readChars?_of_writesTable hwritten
    exact Option.some.inj ((Csv.readChars?_of_writesTable h).symm.trans hall)
  · rintro rfl
    exact hwritten

end ChordSymbol.Comparison
