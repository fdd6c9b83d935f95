/-
# Simulation of one transition system by another

A concrete system REFINES an abstract one when every concrete step either leaves the related
abstract state as it is or is a step of the abstract system.  `Simulates` states this for steps
that meet a side condition, with the abstract label read off the concrete step (`emits`), because
the results built on it say which abstract run a concrete run is, not only that there is one.

A concrete run whose steps meet the condition is an abstract run, with the labels its steps emit, in their
order (`Simulates.run`).
-/
import Tpso.Lib.Run

namespace Tpso.Lib

namespace Lts

variable {S L A M : Type} {C : Lts S L} {T : Lts A M}

/-- **`T` simulates `C`** through `rel`, for the steps that meet `cond`: a step emits nothing and the
abstract state stays, or it emits the label of an abstract step. -/
structure Simulates (C : Lts S L) (T : Lts A M) (rel : S → A → Prop) (cond : S → L → Prop)
    (emits : Transition S L → Option M) : Prop where
  init : ∀ s, C.init s → ∃ a, T.init a ∧ rel s a
  step : ∀ s l s' a, rel s a → cond s l → C.step s l s' →
    match emits ⟨s, l, s'⟩ with
    | none => rel s' a
    | some m => ∃ a', T.step a m a' ∧ rel s' a'

variable {rel : S → A → Prop} {cond : S → L → Prop} {emits : Transition S L → Option M}
  {tr : List (Transition S L)} {s : S}

/-- **A concrete run is an abstract run.** -/
theorem Simulates.run (h : Simulates C T rel cond emits) (hr : C.Run tr s)
    (hc : ∀ x ∈ tr, cond x.src x.label) :
    ∃ tr' a, T.Run tr' a ∧ tr'.map (·.label) = tr.filterMap emits ∧ rel s a := by
  induction hr with
  | start hi =>
    obtain ⟨a, ha, hrel⟩ := h.init _ hi
    exact ⟨[], a, .start ha, rfl, hrel⟩
  | @step tr s s' l hrun hst ih =>
    obtain ⟨tr', a, hrun', hlabels, hrel⟩ := ih fun x hx => hc x (List.mem_append_left _ hx)
    have hlast : cond s l := hc ⟨s, l, s'⟩ (List.mem_append_right _ (List.mem_singleton_self _))
    have hmatch := h.step s l s' a hrel hlast hst
    rw [List.filterMap_append, ← hlabels]
    cases he : emits ⟨s, l, s'⟩ with
    | none =>
      rw [he] at hmatch
      exact ⟨tr', a, hrun', by simp [he], hmatch⟩
    | some m =>
      rw [he] at hmatch
      obtain ⟨a', hstep, hrel'⟩ := hmatch
      exact ⟨tr' ++ [⟨a, m, a'⟩], a', hrun'.step hstep, by simp [he], hrel'⟩

end Lts

end Tpso.Lib
