import ChordSymbol.Proofs.Stages

/-! What is seen of a symbol being read, and in which order. Every refusal has a place of its own in that
order: it tells how far the reading has come, and no edit is ever seen before one. -/
namespace ChordSymbol

namespace Observed

variable {α β : Type} {o : Observed α} {f : α → Observed β} {a : α} {e : Refusal}

theorem events_andThen (h : o.outcome = .ok a) : (o.andThen f).events = o.events ++ (f a).events := by
  rw [andThen, h]

theorem events_andThen_of_error (h : o.outcome = .error e) : (o.andThen f).events = o.events := by
  rw [andThen, h]

end Observed

namespace Combination

variable {lx : Lexicon} {kept ms : List Modifier} {ts : List Token} {e : Refusal}

/-- While tokens are admitted one by one, only their qualities and exclusions are looked at. -/
theorem refusal_of_keepAll (hms : lx.modifiers ts = .ok ms) (h : keepAll lx kept ts = .error e) :
    (∃ symbol existing, e = .conflictingQuality symbol existing) ∨
      ∃ symbol category, e = .excludedCombination symbol category := by
  obtain ⟨front, m, back, -, hq | ⟨p, -, hx⟩⟩ := keepAll_eq_error hms h
  · obtain ⟨p, -, -, -, rfl⟩ := qualityConflict?_eq_some hq
    exact .inl ⟨_, _, rfl⟩
  · rcases exclusion?_eq_some hx with ⟨-, rfl⟩ | ⟨-, rfl⟩
    · exact .inr ⟨_, _, rfl⟩
    · exact .inr ⟨_, _, rfl⟩

/-- Once all are admitted, it is their roles and companions that are looked at. -/
theorem refusal_of_finish (h : finish ms = .error e) :
    (∃ r symbol existing, e = .conflictingRole r symbol existing) ∨
      ∃ symbol q, e = .missingRequirement symbol q := by
  rcases finish_eq_error h with hr | hm
  · obtain ⟨r, x, y, -, -, -, -, rfl⟩ := replay_eq_some [] hr
    exact .inl ⟨r, _, _, rfl⟩
  · obtain ⟨front, m, back, -, q, -, -, rfl⟩ := missing?_eq_some hm
    exact .inr ⟨_, q, rfl⟩

end Combination

namespace Interpreter

/-- The announcements of modifiers, one after the other. -/
def announced (ms : List Modifier) : List Event := ms.map fun m => .modifier m.token.symbol m.rule

/-- The root of a symbol, its suffix, and the modifiers that the suffix spells. -/
structure Spelled (i : Interpreter) (symbol root suffix : String) (ms : List Modifier) : Prop where
  cut : Note.cut symbol = .ok (root, suffix)
  tokens : i.lexicon.tokenize suffix = .ok (ms.map (·.token))
  rules : i.lexicon.modifiers (ms.map (·.token)) = .ok ms

/-- What has been seen of `symbol` when it is refused. A modifier is announced before it is judged, so
the announcements go up to the one that is not admitted. -/
def SeenBefore (i : Interpreter) (symbol : String) (seen : List Event) : Refusal → Prop
  | .invalidRoot _ => seen = []
  | .unrecognizedModifier _ => ∃ root suffix,
      Note.cut symbol = .ok (root, suffix) ∧ seen = [.root root suffix]
  | e@(.conflictingQuality ..) | e@(.excludedCombination ..) => ∃ root suffix admitted m later,
      i.Spelled symbol root suffix (admitted ++ m :: later) ∧
      Combination.keepAll i.lexicon [] (admitted.map (·.token)) = .ok admitted ∧
      Combination.keep i.lexicon admitted m.token = .error e ∧
      seen = .root root suffix :: announced (admitted ++ [m])
  | .conflictingRole .. | .missingRequirement .. => ∃ root suffix ms,
      i.Spelled symbol root suffix ms ∧ seen = .root root suffix :: announced ms
  | _ => False

variable {i : Interpreter} {lx : Lexicon} {kept all ms : List Modifier} {m : Modifier} {t : Token}
  {ts : List Token} {symbol root suffix : String} {r : Reading} {c : Chord} {e : Refusal}

/-- No edit, chord or refusal is among what is seen before a refusal. -/
theorem SeenBefore.readings {seen : List Event} (h : i.SeenBefore symbol seen e) :
    ∀ ev ∈ seen, (∃ root suffix, ev = .root root suffix) ∨ ∃ s r, ev = .modifier s r := by
  have hread (root suffix : String) (ms : List Modifier) : ∀ ev ∈ Event.root root suffix :: announced ms,
      (∃ root suffix, ev = .root root suffix) ∨ ∃ s r, ev = .modifier s r := by
    intro ev hev
    rcases List.mem_cons.1 hev with rfl | hev
    · exact .inl ⟨root, suffix, rfl⟩
    · obtain ⟨m, -, rfl⟩ := List.mem_map.1 hev
      exact .inr ⟨_, _, rfl⟩
  cases e with
  | invalidRoot input =>
    cases h
    simp
  | unrecognizedModifier left =>
    obtain ⟨root, suffix, -, rfl⟩ := h
    exact hread root suffix []
  | conflictingQuality x y =>
    obtain ⟨root, suffix, admitted, m, later, -, -, -, rfl⟩ := h
    exact hread root suffix (admitted ++ [m])
  | excludedCombination x y =>
    obtain ⟨root, suffix, admitted, m, later, -, -, -, rfl⟩ := h
    exact hread root suffix (admitted ++ [m])
  | conflictingRole r x y =>
    obtain ⟨root, suffix, ms, -, rfl⟩ := h
    exact hread root suffix ms
  | missingRequirement x q =>
    obtain ⟨root, suffix, ms, -, rfl⟩ := h
    exact hread root suffix ms
  | unnamedInterval r x => cases h
  | ruleTable entry defect => cases h

theorem announce_of_modifier (h : lx.modifier t = .ok m) : announce lx t = announced [m] := by
  obtain ⟨rfl, hr⟩ := Lexicon.modifier_eq_ok.1 h
  simp [announce, announced, hr]

/-- One step: a token is announced, and the rest only if it is admitted. -/
theorem observeTokens_cons_events (hm : lx.modifier t = .ok m) :
    (observeTokens lx kept (t :: ts)).events = announced [m] ++
      match Combination.keep lx kept t with
      | .ok kept => (observeTokens lx kept ts).events
      | .error _ => [] := by
  rw [observeTokens, announce_of_modifier hm]
  cases hk : Combination.keep lx kept t with
  | ok kept => exact Observed.events_andThen rfl
  | error e => rw [Observed.events_andThen_of_error rfl, List.append_nil]

theorem observeTokens_events (hms : lx.modifiers ts = .ok ms)
    (h : Combination.keepAll lx kept ts = .ok all) :
    (observeTokens lx kept ts).events = announced ms := by
  induction ts generalizing kept ms with
  | nil =>
    cases hms
    rfl
  | cons t ts ih =>
    obtain ⟨m, ns, hm, hns, rfl⟩ := Lexicon.modifiers_cons_eq_ok.1 hms
    rw [observeTokens_cons_events hm]
    unfold Combination.keepAll at h
    cases hk : Combination.keep lx kept t with
    | error e =>
      rw [hk] at h
      cases h
    | ok kept' =>
      rw [hk] at h
      simp only [ih hns h]
      rfl

theorem observeTokens_events_of_error (hms : lx.modifiers ts = .ok ms)
    (h : Combination.keepAll lx kept ts = .error e) : ∃ admitted m later,
      ms = admitted ++ m :: later ∧
      Combination.keepAll lx kept (admitted.map (·.token)) = .ok (kept ++ admitted) ∧
      Combination.keep lx (kept ++ admitted) m.token = .error e ∧
      (observeTokens lx kept ts).events = announced (admitted ++ [m]) := by
  induction ts generalizing kept ms with
  | nil => cases h
  | cons t ts ih =>
    obtain ⟨m, ns, hm, hns, rfl⟩ := Lexicon.modifiers_cons_eq_ok.1 hms
    obtain ⟨rfl, -⟩ := Lexicon.modifier_eq_ok.1 hm
    rw [observeTokens_cons_events hm]
    unfold Combination.keepAll at h
    cases hk : Combination.keep lx kept m.token with
    | error e' =>
      rw [hk] at h
      cases h
      refine ⟨[], m, ns, rfl, ?_, ?_, List.append_nil _⟩
      · rw [List.append_nil]
        rfl
      · rw [List.append_nil, hk]
    | ok kept' =>
      rw [hk] at h
      obtain ⟨m', hm', -, rfl⟩ := Combination.keep_eq_ok.1 hk
      cases hm.symm.trans hm'
      obtain ⟨admitted, n, later, rfl, hadmitted, hrefused, hevents⟩ := ih hns h
      refine ⟨m :: admitted, n, later, rfl, ?_, ?_, ?_⟩
      · rw [List.map_cons, Combination.keepAll, hk]
        simpa using hadmitted
      · simpa using hrefused
      · simp only [hevents]
        rfl

theorem observeReading_events (hcut : Note.cut symbol = .ok (root, suffix))
    (hts : i.lexicon.tokenize suffix = .ok ts) : (i.observeReading symbol).events =
      .root root suffix :: (observeTokens i.lexicon [] ts).events := by
  unfold observeReading
  rw [hcut]
  simp only [hts]
  rw [Observed.events_andThen rfl, List.singleton_append, List.cons.injEq]
  refine ⟨rfl, ?_⟩
  cases hkept : (observeTokens i.lexicon [] ts).outcome with
  | ok kept => rw [Observed.events_andThen hkept, List.append_nil]
  | error e => rw [Observed.events_andThen_of_error hkept]

theorem spelled_of_tokenize (hcut : Note.cut symbol = .ok (root, suffix))
    (hts : i.lexicon.tokenize suffix = .ok ts) :
    ∃ ms, ms.map (·.token) = ts ∧ i.lexicon.modifiers ts = .ok ms ∧ i.Spelled symbol root suffix ms := by
  obtain ⟨ms, hms⟩ := Lexicon.exists_modifiers (Lexicon.rule_lt_of_tokenize hts)
  have htoken := Lexicon.map_token_of_modifiers hms
  exact ⟨ms, htoken, hms, hcut, by rw [htoken, hts], by rw [htoken, hms]⟩

/-- Of a symbol that is read, root and modifiers are seen. -/
theorem observeReading_events_of_ok (h : i.resolve symbol = .ok r) : ∃ suffix ms,
    i.Spelled symbol r.root suffix ms ∧ ms.map (·.token) = r.tokens ∧
      (i.observeReading symbol).events = .root r.root suffix :: announced ms := by
  obtain ⟨suffix, hcut, hts, hvalid⟩ := exists_stages h
  obtain ⟨ms, htoken, hms, hspelled⟩ := spelled_of_tokenize hcut hts
  obtain ⟨ns, hns, hcompatible, -⟩ := Combination.validate_eq_ok.1 hvalid
  cases hms.symm.trans hns
  have hkeep : Combination.keepAll i.lexicon [] r.tokens = .ok ms :=
    Combination.keepAll_eq_ok.2 ⟨ms, hms, hcompatible.tolerates, by simp, rfl⟩
  exact ⟨suffix, ms, hspelled, htoken,
    by rw [observeReading_events hcut hts, observeTokens_events hms hkeep]⟩

/-- Of a symbol that is refused, as much is seen as its refusal says. -/
theorem observeReading_events_of_error (h : i.resolve symbol = .error e) :
    i.SeenBefore symbol (i.observeReading symbol).events e := by
  have hread := h
  rw [resolve_eq] at h
  cases hcut : Note.cut symbol with
  | error e' =>
    have hseen : (i.observeReading symbol).events = [] := by rw [observeReading, hcut]
    rw [hcut] at h
    cases h
    cases Note.invalidRoot_of_cut hcut
    exact hseen
  | ok cut =>
    obtain ⟨root, suffix⟩ := cut
    simp only [hcut] at h
    cases hts : i.lexicon.tokenize suffix with
    | error e' =>
      have hseen : (i.observeReading symbol).events = [.root root suffix] := by
        unfold observeReading
        rw [hcut]
        simp only [hts]
        exact Observed.events_andThen_of_error rfl
      simp only [hts] at h
      cases h
      obtain ⟨left, rfl⟩ := Lexicon.unrecognized_of_tokenize hts
      exact ⟨root, suffix, hcut, hseen⟩
    | ok ts =>
      obtain ⟨ms, htoken, hms, hspelled⟩ := spelled_of_tokenize hcut hts
      have hseen := observeReading_events hcut hts
      simp only [hts, Lexicon.validate] at h
      cases hkeep : Combination.keepAll i.lexicon [] ts with
      | error e' =>
        obtain ⟨admitted, m, later, rfl, hadmitted, hrefused, hevents⟩ :=
          observeTokens_events_of_error hms hkeep
        rw [hevents] at hseen
        rw [hkeep] at h
        cases h
        rcases Combination.refusal_of_keepAll hms hkeep with ⟨x, y, rfl⟩ | ⟨x, y, rfl⟩
        · exact ⟨root, suffix, admitted, m, later, hspelled, hadmitted, hrefused, hseen⟩
        · exact ⟨root, suffix, admitted, m, later, hspelled, hadmitted, hrefused, hseen⟩
      | ok kept =>
        rw [observeTokens_events hms hkeep] at hseen
        simp only [hkeep] at h
        cases hfinish : Combination.finish kept with
        | ok us => simp [hfinish, Except.map] at h
        | error e' =>
          rw [hfinish] at h
          cases h
          rcases Combination.refusal_of_finish hfinish with ⟨r, x, y, rfl⟩ | ⟨x, q, rfl⟩
          · exact ⟨root, suffix, ms, hspelled, hseen⟩
          · exact ⟨root, suffix, ms, hspelled, hseen⟩

/-- The last event is the chord, after the edits that led to it. -/
theorem observe_events (h : i.parse symbol = .ok c) : ∃ suffix ms,
    i.Spelled symbol c.root suffix ms ∧ c.modifiers = ms.map (·.token.symbol) ∧
      (i.observe symbol).events =
        .root c.root suffix :: (announced ms ++ c.steps.map .step ++ [.resolved c]) := by
  obtain ⟨r, d, shown, hr, hd, hshown, rfl⟩ := exists_reading h
  obtain ⟨suffix, ms, hspelled, htoken, hseen⟩ := observeReading_events_of_ok hr
  have hreading : (i.observeReading symbol).outcome = .ok r := by rw [observeReading_outcome, hr]
  have hchord : (i.observeChord symbol).events =
      .root r.root suffix :: (announced ms ++ d.steps.map .step) := by
    rw [observeChord, Observed.events_andThen hreading, hseen, hd, List.cons_append]
  refine ⟨suffix, ms, hspelled, ?_, ?_⟩
  · simp only [chord, ← htoken, List.map_map]
    rfl
  · unfold observe
    simp only [observeChord_outcome, h, hchord, List.cons_append]
    rfl

/-- The last event is the refusal. -/
theorem observe_events_of_error (h : i.parse symbol = .error e) :
    (i.observe symbol).events = (i.observeReading symbol).events ++ [.refused e] := by
  have hreading : (i.observeReading symbol).outcome = .error e := by
    rw [observeReading_outcome, refusal_of_parse h]
  unfold observe
  simp only [observeChord_outcome, h]
  rw [observeChord, Observed.events_andThen_of_error hreading]

end Interpreter

namespace Event

/-- Lines that differ in the escape sequences around a label of nine columns, if they differ. -/
def Painted (plain painted : String) : Prop := ∃ label text on off, label.length = 9 ∧
  plain = label ++ " " ++ text ∧
  painted = Text.Paint.escape on ++ label ++ Text.Paint.escape off ++ " " ++ text

theorem length_label (e : Event) : (Text.padRight 9 e.label).length = 9 := by
  unfold label
  split <;> decide

theorem painted_line (e : Event) : Painted (e.line false) (e.line true) :=
  ⟨_, e.text, e.paint.on, e.paint.off, e.length_label, rfl, rfl⟩

end Event

namespace Tracer

variable {i : Interpreter}

theorem foldl_note (t : Tracer) (es : List Event) :
    es.foldl note t = ⟨t.color, t.lines ++ es.map (Event.line t.color)⟩ := by
  induction es generalizing t with
  | nil => simp
  | cons e es ih => simp [ih, note]

/-- A tracer that has watched others before adds the same lines as a new one. -/
theorem foldl_watch (t : Tracer) (symbols : List String) : symbols.foldl (watch i) t =
    ⟨t.color, t.lines ++
      (symbols.flatMap fun s => (i.observe s).events).map (Event.line t.color)⟩ := by
  induction symbols generalizing t with
  | nil => simp
  | cons s symbols ih => simp [ih, watch, foldl_note]

end Tracer

namespace Interpreter

theorem log_eq (i : Interpreter) (color : Bool) (symbols : List String) : i.log color symbols =
    (symbols.flatMap fun s => (i.observe s).events).map (Event.line color) := by
  rw [log, Tracer.foldl_watch]
  simp [Tracer.start]

/-- Watching changes nothing. What is seen of a chord is its root, its modifiers as written, its edits in
order of effect, and the chord; what is seen of a refusal is as much as that refusal says, no edit, and
the refusal. A log has a line for each event, the log of several symbols is their logs in turn, and
colour is around the labels alone. -/
theorem observe_in_order (i : Interpreter) (symbol : String) (color : Bool) (symbols : List String) :
    (i.observe symbol).outcome = i.parse symbol ∧
    (∀ c, i.parse symbol = .ok c → ∃ suffix ms,
      i.Spelled symbol c.root suffix ms ∧ c.modifiers = ms.map (·.token.symbol) ∧
      (i.observe symbol).events =
        .root c.root suffix :: (announced ms ++ c.steps.map .step ++ [.resolved c])) ∧
    (∀ e, i.parse symbol = .error e → ∃ seen,
      (i.observe symbol).events = seen ++ [.refused e] ∧ i.SeenBefore symbol seen e ∧
      ∀ ev ∈ seen, (∃ root suffix, ev = .root root suffix) ∨ ∃ s r, ev = .modifier s r) ∧
    i.log color [symbol] = (i.observe symbol).events.map (Event.line color) ∧
    i.log color symbols = (symbols.flatMap fun s => i.log color [s]) ∧
    List.Forall₂ Event.Painted (i.log false symbols) (i.log true symbols) := by
  refine ⟨observe_outcome i symbol, fun c hc => observe_events hc, fun e he => ?_, ?_, ?_, ?_⟩
  · have hseen := observeReading_events_of_error (refusal_of_parse he)
    exact ⟨_, observe_events_of_error he, hseen, hseen.readings⟩
  · rw [log_eq, List.flatMap_singleton]
  · simp only [log_eq, List.map_flatMap, List.flatMap_singleton]
  · rw [log_eq, log_eq, List.forall₂_map_left_iff, List.forall₂_map_right_iff, List.forall₂_same]
    exact fun e _ => e.painted_line

end Interpreter
end ChordSymbol
