import ChordSymbol.Proofs.OrderOfEffect
import ChordSymbol.Proofs.RoleEffect

/-! Runs of edits that fill no role besides their own. In such a run a role heeds its own edits
alone, so what it comes to sound can be read off without the rest of the chord. -/
namespace ChordSymbol

namespace Edit

/-- Each `replace` finds the roles below its own among those held, and nothing held is removed. -/
def backed : List Role → List Edit → Bool
  | _, [] => true
  | held, .replace r _ :: es => r.below.all (held.contains ·) && backed (r :: held) es
  | held, .modify r _ :: es => backed (r :: held) es
  | held, .add r _ :: es => backed (r :: held) es
  | held, .remove r :: es => !held.contains r && backed held es

end Edit

namespace Voicing

variable {v : Voicing} {held : List Role} {e : Edit} {es : List Edit}

/-- Whether each of `held` sounds. -/
def Holds (v : Voicing) (held : List Role) : Prop := ∀ q ∈ held, v.get? q ≠ none

theorem holds_set (h : v.Holds held) (r : Role) (x : Int) : (v.set r x).Holds (r :: held) := by
  intro q hq
  rw [get?_set]
  by_cases hqr : q = r
  · rw [if_pos hqr]
    exact Option.some_ne_none x
  · rw [if_neg hqr]
    exact h q ((List.mem_cons.1 hq).resolve_left hqr)

theorem holds_erase (h : v.Holds held) {r : Role} (hr : r ∉ held) : (v.erase r).Holds held := by
  intro q hq
  have hqr : q ≠ r := fun h => hr (h ▸ hq)
  rw [get?_erase, if_neg hqr]
  exact h q hq

theorem missingBelow_of_holds (h : v.Holds held) {r : Role}
    (hb : r.below.all (held.contains ·) = true) : v.missingBelow r = [] := by
  refine List.eq_nil_iff_forall_not_mem.2 fun q hq => ?_
  obtain ⟨hqr, hnone⟩ := mem_missingBelow.1 hq
  have hheld := List.all_eq_true.1 hb q (Role.mem_below.2 hqr)
  exact h q (by simpa using hheld) hnone

/-- A step of a backed run fills nothing, and leaves a backed run. -/
theorem backed_step (hv : v.Holds held) (hb : Edit.backed held (e :: es) = true) :
    v.backfilled e = [] ∧ ∃ held', (∀ q ∈ held, q ∈ held') ∧ (v.apply e).Holds held' ∧
      Edit.backed held' es = true := by
  cases e with
  | replace r x =>
    obtain ⟨hbelow, hes⟩ := Bool.and_eq_true_iff.1 hb
    have hnone := missingBelow_of_holds hv hbelow
    refine ⟨hnone, r :: held, fun q hq => List.mem_cons_of_mem r hq, ?_, hes⟩
    rw [apply, hnone]
    exact holds_set hv r x
  | modify r d => exact ⟨rfl, r :: held, fun q hq => List.mem_cons_of_mem r hq, holds_set hv r _, hb⟩
  | add r x => exact ⟨rfl, r :: held, fun q hq => List.mem_cons_of_mem r hq, holds_set hv r x, hb⟩
  | remove r =>
    obtain ⟨hr, hes⟩ := Bool.and_eq_true_iff.1 hb
    exact ⟨rfl, held, fun q hq => hq, holds_erase hv (by simpa using hr), hes⟩

theorem backed_run (symbol : String) (hv : v.Holds held) (hb : Edit.backed held es = true) :
    (∀ s ∈ Step.ofEdits v (es.map (symbol, ·)), s.backfilled = []) ∧ (v.applyAll es).Holds held := by
  induction es generalizing v held with
  | nil => exact ⟨by simp [Step.ofEdits], hv⟩
  | cons e es ih =>
    obtain ⟨hfill, held', hsub, hv', hb'⟩ := backed_step hv hb
    obtain ⟨hsteps, hholds⟩ := ih hv' hb'
    refine ⟨?_, fun q hq => hholds q (hsub q hq)⟩
    intro s hs
    rcases List.mem_cons.1 hs with rfl | hs
    · exact hfill
    · exact hsteps s hs

end Voicing

theorem Step.ofEdits_append (v : Voicing) (es fs : List (String × Edit)) :
    ofEdits v (es ++ fs) = ofEdits v es ++ ofEdits (v.applyAll (es.map (·.2))) fs := by
  induction es generalizing v with
  | nil => rfl
  | cons e es ih =>
    obtain ⟨s, e⟩ := e
    rw [List.cons_append, ofEdits, ofEdits, ih, List.cons_append]
    rfl

namespace Modifier

/-- If each modifier's edits are backed on their own, so is the run of all. -/
theorem backfilled_of_backed (held : List Role) (ns : List Modifier) {v : Voicing}
    (hv : v.Holds held) (hb : ∀ m ∈ ns, Edit.backed held m.rule.edits = true) :
    ∀ s ∈ Step.ofEdits v (ns.flatMap fun m => m.rule.edits.map (m.token.symbol, ·)),
      s.backfilled = [] := by
  induction ns generalizing v with
  | nil => simp [Step.ofEdits]
  | cons m ns ih =>
    obtain ⟨hsteps, hholds⟩ := Voicing.backed_run m.token.symbol hv (hb m List.mem_cons_self)
    intro s hs
    rw [List.flatMap_cons, Step.ofEdits_append, List.mem_append] at hs
    rcases hs with hs | hs
    · exact hsteps s hs
    · rw [map_snd_edits] at hs
      exact ih hholds (fun n hn => hb n (List.mem_cons_of_mem m hn)) s hs

end Modifier

/-- Where nothing is filled in, a role heeds its own edits alone. -/
theorem Voicing.get?_applyAll_own {v : Voicing} {es : List (String × Edit)}
    (h : ∀ s ∈ Step.ofEdits v es, s.backfilled = []) (q : Role) :
    (v.applyAll (es.map (·.2))).get? q =
      ((es.map (·.2)).filter (·.role = q)).foldl (Edit.effect q) (v.get? q) := by
  induction es generalizing v with
  | nil => rfl
  | cons e es ih =>
    obtain ⟨s, e⟩ := e
    have hes := ih fun t ht => h t (List.mem_cons_of_mem _ ht)
    have hfill : v.backfilled e = [] := h _ List.mem_cons_self
    rw [List.map_cons, applyAll_cons, hes, get?_apply]
    by_cases hq : e.role = q
    · rw [List.filter_cons_of_pos (by simpa using hq), List.foldl_cons]
    · rw [List.filter_cons_of_neg (by simpa using hq)]
      rcases Edit.effect_of_ne hq with hid | ⟨⟨r, x, rfl, hqr⟩, hfilled⟩
      · rw [hid]
      · cases hv : v.get? q with
        | none =>
          have hmem : q ∈ v.missingBelow r := mem_missingBelow.2 ⟨hqr, hv⟩
          rw [show v.missingBelow r = [] from hfill] at hmem
          cases hmem
        | some y => rw [hfilled, Option.getD_some]

end ChordSymbol
