/-
# Memories with pending patches

A write-back cache keeps part of the contents of a memory to itself.  What the memory is MEANT to hold
is the memory overlaid with the pieces that are kept back.  A piece is a `Patch`: the addresses it
speaks about and their values.  `Overlaid mem P ref` says that the memory `mem`, with the patches `P`
over it, is the reference `ref`; the rules say how that survives a patch being written back, a patch
that grows, a write that goes into a patch instead of the memory, and all patches being written back.

The patches form a family over any index type, so that the same rules serve one cache and many.
-/
import Mathlib

namespace Tpso.Lib

/-- A piece of a memory: some addresses with their values. -/
structure Patch (A V : Type) where
  dom : A → Prop
  val : A → V

/-- **The reference is the memory overlaid with the patches**: a patch is right wherever it speaks, and
the memory is right wherever no patch does. -/
structure Overlaid {A V ι : Type} (mem : A → V) (P : ι → Patch A V) (ref : A → V) : Prop where
  patch : ∀ i a, (P i).dom a → (P i).val a = ref a
  rest : ∀ a, (∀ i, ¬ (P i).dom a) → mem a = ref a

namespace Overlaid

variable {A V ι : Type} {mem mem' ref ref' : A → V} {P P' : ι → Patch A V}

/-- Without patches the memory is the reference. -/
theorem eq_of_forall_not (h : Overlaid mem P ref) (hnone : ∀ i a, ¬ (P i).dom a) : mem = ref :=
  funext fun a => h.rest a fun i => hnone i a

/-- A family that speaks about the same addresses with the same values. -/
theorem congr (h : Overlaid mem P ref) (hdom : ∀ i a, (P' i).dom a ↔ (P i).dom a)
    (hval : ∀ i a, (P i).dom a → (P' i).val a = (P i).val a) : Overlaid mem P' ref where
  patch i a ha := by
    have hold := (hdom i a).mp ha
    rw [hval i a hold]
    exact h.patch i a hold
  rest a ha := h.rest a fun i hi => ha i ((hdom i a).mpr hi)

/-- The patches that `S` names are all written back. -/
theorem flushAll (h : Overlaid mem P ref) {S : ι → Prop} (hnone : ∀ i, S i → ∀ a, ¬ (P' i).dom a)
    (hkeep : ∀ i, ¬ S i → P' i = P i) (hin : ∀ i a, S i → (P i).dom a → mem' a = ref a)
    (hout : ∀ a, (∀ i, S i → ¬ (P i).dom a) → mem' a = mem a) : Overlaid mem' P' ref where
  patch i a ha := by
    have hi : ¬ S i := fun hi => hnone i hi a ha
    rw [hkeep i hi] at ha ⊢
    exact h.patch i a ha
  rest a ha := by
    by_cases hex : ∃ i, S i ∧ (P i).dom a
    · obtain ⟨i, hi, hdom⟩ := hex
      exact hin i a hi hdom
    · have hnot : ∀ i, S i → ¬ (P i).dom a := fun i hi hdom => hex ⟨i, hi, hdom⟩
      refine (hout a hnot).trans (h.rest a ?_)
      intro i hdom
      by_cases hi : S i
      · exact hnot i hi hdom
      · exact ha i (hkeep i hi ▸ hdom)

variable [DecidableEq ι]

/-- **The write-back of a patch.**  It is written to the memory and replaced by one that speaks about
nothing. -/
theorem flush (h : Overlaid mem P ref) (i : ι) {p : Patch A V} (hp : ∀ a, ¬ p.dom a)
    (hin : ∀ a, (P i).dom a → mem' a = (P i).val a) (hout : ∀ a, ¬ (P i).dom a → mem' a = mem a) :
    Overlaid mem' (Function.update P i p) ref where
  patch j a ha := by
    by_cases hj : j = i
    · subst hj
      exact absurd (by simpa using ha) (hp a)
    · simp only [Function.update_of_ne hj] at ha ⊢
      exact h.patch j a ha
  rest a ha := by
    by_cases hold : (P i).dom a
    · exact (hin a hold).trans (h.patch i a hold)
    · refine (hout a hold).trans (h.rest a ?_)
      intro j hj
      by_cases hji : j = i
      · exact hold (hji ▸ hj)
      · have := ha j
        rw [Function.update_of_ne hji] at this
        exact this hj

/-- **A patch is replaced by a larger one.**  The reference becomes what the new patch says where it
speaks, and stays what it was elsewhere. -/
theorem replace (h : Overlaid mem P ref) (i : ι) {p : Patch A V}
    (hsub : ∀ a, (P i).dom a → p.dom a) (hothers : ∀ j, j ≠ i → ∀ a, (P j).dom a → ¬ p.dom a)
    (hval : ∀ a, p.dom a → p.val a = ref' a) (href : ∀ a, ¬ p.dom a → ref' a = ref a) :
    Overlaid mem (Function.update P i p) ref' where
  patch j a ha := by
    by_cases hj : j = i
    · subst hj
      simp only [Function.update_self] at ha ⊢
      exact hval a ha
    · simp only [Function.update_of_ne hj] at ha ⊢
      rw [href a (hothers j hj a ha)]
      exact h.patch j a ha
  rest a ha := by
    have hp : ¬ p.dom a := by simpa using ha i
    rw [href a hp]
    refine h.rest a ?_
    intro j hj
    by_cases hji : j = i
    · exact hp (hsub a (hji ▸ hj))
    · have := ha j
      rw [Function.update_of_ne hji] at this
      exact this hj

/-- **A write that goes into a patch.**  The reference changes on `W`.  The new patch covers the old one
and `W`; where it covers more than that it must hold what the memory holds. -/
theorem write (h : Overlaid mem P ref) (i : ι) {p : Patch A V} {W : A → Prop}
    (hsub : ∀ a, (P i).dom a → p.dom a) (hW : ∀ a, W a → p.dom a)
    (href : ∀ a, ¬ W a → ref' a = ref a) (hnew : ∀ a, W a → p.val a = ref' a)
    (hold : ∀ a, ¬ W a → (P i).dom a → p.val a = (P i).val a)
    (hgap : ∀ a, p.dom a → ¬ W a → ¬ (P i).dom a → p.val a = mem a)
    (hothers : ∀ j, j ≠ i → ∀ a, (P j).dom a → ¬ p.dom a) :
    Overlaid mem (Function.update P i p) ref' := by
  refine h.replace i hsub hothers ?_ fun a ha => href a fun hw => ha (hW a hw)
  intro a ha
  by_cases hw : W a
  · exact hnew a hw
  · rw [href a hw]
    by_cases hin : (P i).dom a
    · exact (hold a hw hin).trans (h.patch i a hin)
    · refine (hgap a ha hw hin).trans (h.rest a ?_)
      intro k hk
      by_cases hki : k = i
      · exact hin (hki ▸ hk)
      · exact hothers k hki a hk ha

end Overlaid

end Tpso.Lib
