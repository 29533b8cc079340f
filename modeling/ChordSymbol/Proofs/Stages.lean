import ChordSymbol.Observation
import ChordSymbol.Proofs.Compatibility

/-! The stages of reading a symbol. Root, tokens and their combination can each be refused; once these
have passed, a voicing can be derived and shown whatever it is, so nothing else is ever refused. -/
namespace ChordSymbol

theorem Pattern.rule_lt_of_mem {rules : List Rule} {p : Pattern} (h : p ∈ ofRules rules) :
    p.token.rule < rules.length := by
  rw [ofRules, List.mem_mergeSort] at h
  obtain ⟨⟨r, i⟩, hri, hp⟩ := List.mem_flatMap.1 h
  obtain ⟨s, -, rfl⟩ := List.mem_map.1 hp
  exact (List.getElem?_eq_some_iff.1 (List.mem_zipIdx_iff_getElem?.1 hri)).1

namespace Token

variable {ps : List Pattern.Spelled} {cs rest : List Char} {t : Token} {ts : List Token} {e : Refusal}

theorem exists_pattern_of_next? (h : next? ps cs = some (t, rest)) : ∃ p ∈ ps, p.1.token = t := by
  obtain ⟨p, hp, hrest⟩ := List.exists_of_findSome?_eq_some h
  obtain ⟨left, -, heq⟩ := Option.map_eq_some_iff.1 hrest
  cases heq
  exact ⟨p, hp, rfl⟩

/-- The loop gives tokens of its patterns, and refuses nothing but a text it does not recognize. -/
theorem scan_cases (ps : List Pattern.Spelled) (cs : List Char) :
    (∃ ts, scan ps cs = .ok ts ∧ ∀ t ∈ ts, ∃ p ∈ ps, p.1.token = t) ∨
      ∃ left, scan ps cs = .error (.unrecognizedModifier left) := by
  fun_induction scan ps cs with
  | case1 => exact .inl ⟨[], rfl, by simp⟩
  | case2 cs _ hnext => exact .inr ⟨_, rfl⟩
  | case3 cs _ t rest hnext ts hts ih =>
    rw [hts] at ih
    obtain ⟨us, hus, hmem⟩ | ⟨left, hleft⟩ := ih
    · cases hus
      exact .inl ⟨_, rfl, List.forall_mem_cons.2 ⟨exists_pattern_of_next? hnext, hmem⟩⟩
    · cases hleft
  | case4 cs _ t rest hnext e he ih =>
    rw [he] at ih
    obtain ⟨us, hus, -⟩ | ⟨left, hleft⟩ := ih
    · cases hus
    · cases hleft
      exact .inr ⟨left, rfl⟩

end Token

namespace Lexicon

variable {lx : Lexicon} {suffix : String} {ts : List Token} {e : Refusal}

theorem mem_patterns {p : Pattern.Spelled} (h : p ∈ lx.spelledPatterns) : p.1 ∈ lx.patterns := by
  obtain ⟨q, hq, hp⟩ := List.mem_filterMap.1 h
  unfold Pattern.spelled? at hp
  split at hp
  · cases hp
  · cases hp
    exact hq

theorem rule_lt_of_tokenize (h : lx.tokenize suffix = .ok ts) : ∀ t ∈ ts, t.rule < lx.size := by
  obtain ⟨us, hus, hmem⟩ | ⟨left, hleft⟩ := Token.scan_cases lx.spelledPatterns suffix.toList
  · cases hus.symm.trans h
    intro t ht
    obtain ⟨p, hp, rfl⟩ := hmem t ht
    exact Pattern.rule_lt_of_mem (mem_patterns hp)
  · cases hleft.symm.trans h

theorem unrecognized_of_tokenize (h : lx.tokenize suffix = .error e) :
    ∃ left, e = .unrecognizedModifier left := by
  obtain ⟨us, hus, -⟩ | ⟨left, hleft⟩ := Token.scan_cases lx.spelledPatterns suffix.toList
  · cases hus.symm.trans h
  · cases hleft.symm.trans h
    exact ⟨left, rfl⟩

end Lexicon

theorem Note.invalidRoot_of_cut {symbol : String} {e : Refusal} (h : cut symbol = .error e) :
    e = .invalidRoot symbol := by
  unfold cut at h
  split at h
  · cases h
    rfl
  · cases h

/-- A pass over a list that comes through has come through at each item. -/
theorem mapM_eq_ok_iff {α β ε : Type} {f : α → Except ε β} {l : List α} {bs : List β} :
    l.mapM f = .ok bs ↔ List.Forall₂ (fun a b => f a = .ok b) l bs := by
  induction l generalizing bs with
  | nil => simp [pure, Except.pure, eq_comm]
  | cons a l ih =>
    rw [List.mapM_cons, List.forall₂_cons_left_iff]
    cases ha : f a with
    | error e => simp [bind, Except.bind]
    | ok b =>
      cases hl : l.mapM f with
      | error e => simp [bind, Except.bind, ← ih, hl]
      | ok cs => simp [bind, Except.bind, pure, Except.pure, ← ih, hl, eq_comm]

namespace Display

/-- Within an octave every tone has a name. -/
theorem exists_toneName (e : Role × Int) : ∃ n, toneName e = .ok n := by
  obtain ⟨k, hk⟩ := Int.eq_ofNat_of_zero_le (Int.emod_nonneg e.2 (by decide : (12 : Int) ≠ 0))
  have hlt : e.2 % 12 < 12 := Int.emod_lt_of_pos e.2 (by decide)
  have hnames : k < Interval.names.length := by
    have hlength : Interval.names.length = 13 := rfl
    omega
  refine ⟨Interval.names[k], ?_⟩
  unfold toneName Interval.name?
  rw [hk]
  simp [List.getElem?_eq_getElem hnames]

theorem exists_names (es : List (Role × Int)) : ∃ names, es.mapM toneName = .ok names := by
  induction es with
  | nil => exact ⟨[], rfl⟩
  | cons e es ih =>
    obtain ⟨n, hn⟩ := exists_toneName e
    obtain ⟨names, hnames⟩ := ih
    exact ⟨n :: names, by simp [List.mapM_cons, hn, hnames, bind, Except.bind, pure, Except.pure]⟩

theorem ofVoicing_eq_ok {separator : String} {v : Voicing} {shown : Display} :
    ofVoicing separator v = .ok shown ↔ ∃ names, v.toList.mapM toneName = .ok names ∧
      shown = ⟨v.toList.map (·.1), names, v.semitones, joinSemitones separator v.semitones⟩ := by
  unfold ofVoicing
  cases v.toList.mapM toneName with
  | error e => simp
  | ok names => simp [eq_comm]

theorem exists_ofVoicing (separator : String) (v : Voicing) :
    ∃ shown, ofVoicing separator v = .ok shown := by
  obtain ⟨names, hnames⟩ := exists_names v.toList
  exact ⟨_, ofVoicing_eq_ok.2 ⟨names, hnames, rfl⟩⟩

end Display

namespace Interpreter

variable {i : Interpreter} {symbol : String} {r : Reading} {e : Refusal}

theorem observeTokens_outcome (lx : Lexicon) (kept : List Modifier) (ts : List Token) :
    (observeTokens lx kept ts).outcome = Combination.keepAll lx kept ts := by
  induction ts generalizing kept with
  | nil => rfl
  | cons t ts ih =>
    unfold observeTokens Combination.keepAll Observed.andThen
    cases Combination.keep lx kept t with
    | error e => rfl
    | ok kept => exact ih kept

/-- A watched reading admits the tokens one by one, and comes to what all of them at once come to. -/
theorem observeReading_outcome (i : Interpreter) (symbol : String) :
    (i.observeReading symbol).outcome = i.resolve symbol := by
  unfold observeReading resolve
  cases Note.cut symbol with
  | error e => rfl
  | ok cut =>
    obtain ⟨root, suffix⟩ := cut
    simp only [Observed.andThen, bind, Except.bind, pure, Except.pure]
    cases i.lexicon.tokenize suffix with
    | error e => rfl
    | ok ts =>
      simp only [observeTokens_outcome, Lexicon.validate]
      cases Combination.keepAll i.lexicon [] ts with
      | error e => rfl
      | ok kept => cases Combination.finish kept <;> rfl

theorem observeChord_outcome (i : Interpreter) (symbol : String) :
    (i.observeChord symbol).outcome = i.parse symbol := by
  unfold observeChord parse Observed.andThen
  rw [observeReading_outcome]
  cases i.resolve symbol with
  | error e => rfl
  | ok r =>
    simp only [bind, Except.bind, pure, Except.pure]
    cases i.lexicon.derive r.tokens with
    | error e => rfl
    | ok d => cases Display.ofVoicing i.separator d.voicing <;> rfl

theorem observe_outcome (i : Interpreter) (symbol : String) :
    (i.observe symbol).outcome = i.parse symbol := by
  rw [← observeChord_outcome]
  unfold observe
  cases h : (i.observeChord symbol).outcome <;> simp [h]

theorem resolve_eq (i : Interpreter) (symbol : String) : i.resolve symbol =
    match Note.cut symbol with
    | .error e => .error e
    | .ok (root, suffix) =>
      match i.lexicon.tokenize suffix with
      | .error e => .error e
      | .ok ts => (i.lexicon.validate ts).map (Reading.mk root) := by
  unfold resolve
  cases Note.cut symbol with
  | error e => rfl
  | ok cut =>
    obtain ⟨root, suffix⟩ := cut
    simp only [bind, Except.bind, pure, Except.pure]
    cases i.lexicon.tokenize suffix with
    | error e => rfl
    | ok ts => cases i.lexicon.validate ts <;> rfl

/-- Of a symbol that is read, every stage has passed. -/
theorem exists_stages (h : i.resolve symbol = .ok r) : ∃ suffix,
    Note.cut symbol = .ok (r.root, suffix) ∧ i.lexicon.tokenize suffix = .ok r.tokens ∧
      i.lexicon.validate r.tokens = .ok r.tokens := by
  rw [resolve_eq] at h
  cases hcut : Note.cut symbol with
  | error e => simp [hcut] at h
  | ok cut =>
    obtain ⟨root, suffix⟩ := cut
    simp only [hcut] at h
    cases hts : i.lexicon.tokenize suffix with
    | error e => simp [hts] at h
    | ok ts =>
      simp only [hts] at h
      cases hus : i.lexicon.validate ts with
      | error e => simp [hus, Except.map] at h
      | ok us =>
        rw [hus] at h
        cases h
        obtain ⟨-, -, -, rfl⟩ := Combination.validate_eq_ok.1 hus
        exact ⟨suffix, rfl, hts, hus⟩

/-- What passes every stage is read. -/
theorem resolve_of_stages {root suffix : String} {ts us : List Token}
    (hcut : Note.cut symbol = .ok (root, suffix)) (hts : i.lexicon.tokenize suffix = .ok ts)
    (hus : i.lexicon.validate ts = .ok us) : i.resolve symbol = .ok ⟨root, us⟩ := by
  rw [resolve_eq, hcut]
  simp only [hts, hus]
  rfl

/-- What goes together can be derived and shown. -/
theorem exists_parse (h : i.resolve symbol = .ok r) : ∃ d shown, i.lexicon.derive r.tokens = .ok d ∧
    Display.ofVoicing i.separator d.voicing = .ok shown ∧
    i.parse symbol = .ok (chord symbol r d shown) := by
  obtain ⟨suffix, -, hts, -⟩ := exists_stages h
  obtain ⟨ms, hms⟩ := Lexicon.exists_modifiers (Lexicon.rule_lt_of_tokenize hts)
  have hd := Lexicon.derive_of_modifiers hms
  obtain ⟨shown, hshown⟩ := Display.exists_ofVoicing i.separator
    ((i.lexicon.start ms).applyAll ((Modifier.edits ms).map (·.2)))
  refine ⟨_, shown, hd, hshown, ?_⟩
  unfold parse
  simp [h, hd, hshown, bind, Except.bind, pure, Except.pure]

theorem parse_of_refusal (h : i.resolve symbol = .error e) : i.parse symbol = .error e := by
  unfold parse
  rw [h]
  rfl

/-- A chord has been read, derived and shown. -/
theorem exists_reading {c : Chord} (h : i.parse symbol = .ok c) : ∃ r d shown,
    i.resolve symbol = .ok r ∧ i.lexicon.derive r.tokens = .ok d ∧
      Display.ofVoicing i.separator d.voicing = .ok shown ∧ c = chord symbol r d shown := by
  cases hr : i.resolve symbol with
  | error e => cases h.symm.trans (parse_of_refusal hr)
  | ok r =>
    obtain ⟨d, shown, hd, hshown, hc⟩ := exists_parse hr
    exact ⟨r, d, shown, rfl, hd, hshown, Except.ok.inj (h.symm.trans hc)⟩

theorem refusal_of_parse (h : i.parse symbol = .error e) : i.resolve symbol = .error e := by
  cases hr : i.resolve symbol with
  | ok r =>
    obtain ⟨d, shown, -, -, hc⟩ := exists_parse hr
    cases h.symm.trans hc
  | error e' =>
    cases h.symm.trans (parse_of_refusal hr)
    rfl

end Interpreter

namespace Interpreter

end Interpreter
end ChordSymbol
