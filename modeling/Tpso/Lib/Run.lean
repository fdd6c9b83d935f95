/-
# Runs of a labelled transition system, and the two rules that carry invariants along them

A component is a set of start states and a step relation whose labels are the requests, the
messages or the scheduling choices of the environment.  A RUN is recorded with every step it
took (`Transition`: the state before, the label, the state after), because the results built on
it speak about every state passed through and about every step made, not only about the last
state.

The invariant rule comes in two strengths.

* `Run.invariant`: a property kept by every step that meets a side condition holds along every
  run all of whose steps meet it.
* `Run.invariant_iff`: when, from good states, the side condition is also NECESSARY for the step
  to keep the property, the two are equivalent over whole runs.  This is the form in which "the
  program is right exactly when ..." is proved.
-/
import Mathlib

namespace Tpso.Lib

/-- One step of a run: the state it left, its label, and the state it reached. -/
structure Transition (S L : Type) where
  src : S
  label : L
  dst : S

/-- A labelled transition system. -/
structure Lts (S L : Type) where
  /-- The start states. -/
  init : S → Prop
  /-- `step s l s'`: with label `l` the system can go from `s` to `s'`. -/
  step : S → L → S → Prop

namespace Lts

variable {S L : Type} {T : Lts S L}

/-- `T.Run tr s`: starting from a start state, `T` can take the steps `tr`, in that order, and
is then in `s`. -/
inductive Run (T : Lts S L) : List (Transition S L) → S → Prop
  | start {s : S} : T.init s → Run T [] s
  | step {tr : List (Transition S L)} {s s' : S} {l : L} :
      Run T tr s → T.step s l s' → Run T (tr ++ [⟨s, l, s'⟩]) s'

/-- The system that a step FUNCTION describes: `none` means that the step is not possible. -/
def ofStep (s₀ : S) (f : S → L → Option S) : Lts S L where
  init s := s = s₀
  step s l s' := f s l = some s'

/-! ## 1. The invariant rules -/

/-- **The invariant rule.**  `I` holds at the start and every step that meets `C` keeps it, so it
holds at the end of every run whose steps all meet `C`. -/
theorem Run.invariant {I : S → Prop} {C : S → L → Prop} (h0 : ∀ s, T.init s → I s)
    (hstep : ∀ s l s', I s → C s l → T.step s l s' → I s') {tr : List (Transition S L)} {s : S}
    (hr : T.Run tr s) (hc : ∀ x ∈ tr, C x.src x.label) : I s := by
  induction hr with
  | start hi => exact h0 _ hi
  | @step tr s s' l _ hst ih =>
    have hpre : I s := ih fun x hx => hc x (List.mem_append_left _ hx)
    have hlast : C s l := hc ⟨s, l, s'⟩ (List.mem_append_right _ (List.mem_singleton_self _))
    exact hstep s l s' hpre hlast hst

/-- The same rule for what holds at EVERY step of the run: each step of a run leaves from a state
that some shorter run ends in. -/
theorem Run.invariant_steps {I : S → Prop} {C : S → L → Prop} (h0 : ∀ s, T.init s → I s)
    (hstep : ∀ s l s', I s → C s l → T.step s l s' → I s') {tr : List (Transition S L)} {s : S}
    (hr : T.Run tr s) (hc : ∀ x ∈ tr, C x.src x.label) :
    ∀ x ∈ tr, I x.src ∧ T.step x.src x.label x.dst := by
  induction hr with
  | start _ => intro x hx; exact absurd hx (List.not_mem_nil)
  | @step tr s s' l hrun hst ih =>
    have hpre : ∀ x ∈ tr, C x.src x.label := fun x hx => hc x (List.mem_append_left _ hx)
    intro x hx
    rcases List.mem_append.mp hx with hx | hx
    · exact ih hpre x hx
    · rw [List.mem_singleton.mp hx]
      exact ⟨hrun.invariant h0 hstep hpre, hst⟩

/-- **The invariant rule as an equivalence**, for runs whose steps all meet `D`.  `J` is kept by every
such step; and from a state where `J` and `I` hold, such a step keeps `I` exactly when it meets `C`.
Then a run keeps `I` in every state it passes through exactly when all its steps meet `C`. -/
theorem Run.invariant_iff_of {I J : S → Prop} {C D : S → L → Prop}
    (h0 : ∀ s, T.init s → J s ∧ I s) (hJ : ∀ s l s', J s → D s l → T.step s l s' → J s')
    (hI : ∀ s l s', J s → I s → D s l → T.step s l s' → (I s' ↔ C s l))
    {tr : List (Transition S L)} {s : S} (hr : T.Run tr s) (hD : ∀ x ∈ tr, D x.src x.label) :
    (I s ∧ ∀ x ∈ tr, I x.src) ↔ ∀ x ∈ tr, C x.src x.label := by
  have hJrun : ∀ {tr : List (Transition S L)} {s : S}, T.Run tr s →
      (∀ x ∈ tr, D x.src x.label) → J s := by
    intro tr s h hd
    exact h.invariant (C := D) (fun s hs => (h0 s hs).1) (fun s l s' hs hd hst => hJ s l s' hs hd hst) hd
  induction hr with
  | start hi => simp [(h0 _ hi).2]
  | @step tr s s' l hrun hst ih =>
    have hDpre : ∀ x ∈ tr, D x.src x.label := fun x hx => hD x (List.mem_append_left _ hx)
    have hDlast : D s l := hD ⟨s, l, s'⟩ (List.mem_append_right _ (List.mem_singleton_self _))
    have hJs : J s := hJrun hrun hDpre
    constructor
    · rintro ⟨hs', hall⟩ x hx
      have hs : I s := hall ⟨s, l, s'⟩ (List.mem_append_right _ (List.mem_singleton_self _))
      rcases List.mem_append.mp hx with hx | hx
      · exact (ih hDpre).mp ⟨hs, fun y hy => hall y (List.mem_append_left _ hy)⟩ x hx
      · rw [List.mem_singleton.mp hx]
        exact (hI s l s' hJs hs hDlast hst).mp hs'
    · intro hall
      have hpre := (ih hDpre).mpr fun x hx => hall x (List.mem_append_left _ hx)
      have hlast : C s l := hall ⟨s, l, s'⟩ (List.mem_append_right _ (List.mem_singleton_self _))
      refine ⟨(hI s l s' hJs hpre.1 hDlast hst).mpr hlast, ?_⟩
      intro x hx
      rcases List.mem_append.mp hx with hx | hx
      · exact hpre.2 x hx
      · rw [List.mem_singleton.mp hx]
        exact hpre.1

/-- The rule when nothing is asked of the steps beforehand. -/
theorem Run.invariant_iff {I J : S → Prop} {C : S → L → Prop}
    (h0 : ∀ s, T.init s → J s ∧ I s) (hJ : ∀ s l s', J s → T.step s l s' → J s')
    (hI : ∀ s l s', J s → I s → T.step s l s' → (I s' ↔ C s l))
    {tr : List (Transition S L)} {s : S} (hr : T.Run tr s) :
    (I s ∧ ∀ x ∈ tr, I x.src) ↔ ∀ x ∈ tr, C x.src x.label :=
  hr.invariant_iff_of (D := fun _ _ => True) h0 (fun s l s' hs _ => hJ s l s' hs)
    (fun s l s' hs hi _ => hI s l s' hs hi) fun _ _ => trivial

/-- **The rule for what every step does.**  From states where `I` holds, a step has the property `P` exactly
when it meets `C`, and a step that meets `C` keeps `I`.  Then all steps of a run have the property exactly
when all of them meet `C`. -/
theorem Run.steps_iff {I : S → Prop} {C : S → L → Prop} {P : Transition S L → Prop}
    (h0 : ∀ s, T.init s → I s) (hP : ∀ s l s', I s → T.step s l s' → (P ⟨s, l, s'⟩ ↔ C s l))
    (hI : ∀ s l s', I s → C s l → T.step s l s' → I s') {tr : List (Transition S L)} {s : S}
    (hr : T.Run tr s) : (∀ x ∈ tr, P x) ↔ ∀ x ∈ tr, C x.src x.label := by
  induction hr with
  | start _ => simp
  | @step tr s s' l hrun hst ih =>
    simp only [List.forall_mem_append, List.forall_mem_singleton]
    constructor
    · rintro ⟨hpre, hlast⟩
      exact ⟨ih.mp hpre, (hP s l s' (hrun.invariant h0 hI (ih.mp hpre)) hst).mp hlast⟩
    · rintro ⟨hpre, hlast⟩
      exact ⟨ih.mpr hpre, (hP s l s' (hrun.invariant h0 hI hpre) hst).mpr hlast⟩

/-! ## 2. Runs of a step function -/

/-- The run that a list of labels drives, when every one of its steps is possible: the steps
taken and the state reached. -/
def drive (f : S → L → Option S) : S → List L → Option (List (Transition S L) × S)
  | s, [] => some ([], s)
  | s, l :: ls =>
    match f s l with
    | none => none
    | some s' => (drive f s' ls).map fun r => (⟨s, l, s'⟩ :: r.1, r.2)

/-- Driving on from the end of a run gives a run. -/
theorem Run.drive_append {s₀ : S} {f : S → L → Option S} :
    ∀ (ls : List L) {pre tr : List (Transition S L)} {s s' : S},
      (ofStep s₀ f).Run pre s → Lts.drive f s ls = some (tr, s') →
      (ofStep s₀ f).Run (pre ++ tr) s'
  | [], pre, tr, s, s', hrun, hd => by
    simp only [Lts.drive, Option.some.injEq, Prod.mk.injEq] at hd
    obtain ⟨rfl, rfl⟩ := hd
    simpa using hrun
  | l :: ls, pre, tr, s, s', hrun, hd => by
    simp only [Lts.drive] at hd
    split at hd
    · exact absurd hd (by simp)
    · rename_i s1 hs1
      obtain ⟨⟨tr1, s2⟩, hd1, heq⟩ := Option.map_eq_some_iff.mp hd
      simp only [Prod.mk.injEq] at heq
      obtain ⟨rfl, rfl⟩ := heq
      have hnext : (ofStep s₀ f).Run (pre ++ [⟨s, l, s1⟩]) s1 := Run.step hrun hs1
      simpa using Run.drive_append ls hnext hd1

/-- A list of labels that can be driven from the start state gives a run. -/
theorem run_of_drive {s₀ s : S} {f : S → L → Option S} {ls : List L}
    {tr : List (Transition S L)} (h : Lts.drive f s₀ ls = some (tr, s)) :
    (ofStep s₀ f).Run tr s := by
  simpa using Run.drive_append ls (Run.start (T := ofStep s₀ f) rfl) h

/-- The labels of the driven run are the ones it was driven by. -/
theorem labels_of_drive {f : S → L → Option S} : ∀ {ls : List L} {s s' : S}
    {tr : List (Transition S L)}, Lts.drive f s ls = some (tr, s') → tr.map (·.label) = ls
  | [], s, s', tr, h => by
    simp only [Lts.drive, Option.some.injEq, Prod.mk.injEq] at h
    rw [← h.1]
    rfl
  | l :: ls, s, s', tr, h => by
    simp only [Lts.drive] at h
    split at h
    · exact absurd h (by simp)
    · obtain ⟨⟨tr1, s2⟩, hd, heq⟩ := Option.map_eq_some_iff.mp h
      rw [← (Prod.mk.inj heq).1, List.map_cons, labels_of_drive hd]

/-- A run with given labels exists whose steps and last state pass a test, as soon as driving the labels
computes that they do. -/
theorem exists_run_labels_of_drive (s₀ : S) (f : S → L → Option S) (ls : List L)
    (test : List (Transition S L) → S → Bool)
    (h : (Lts.drive f s₀ ls).any (fun r => test r.1 r.2) = true) :
    ∃ tr s, (ofStep s₀ f).Run tr s ∧ tr.map (·.label) = ls ∧ test tr s = true := by
  obtain ⟨⟨tr, s⟩, hd, ht⟩ := (Option.any_eq_true _ _).mp h
  exact ⟨tr, s, run_of_drive hd, labels_of_drive hd, ht⟩

/-- The same, when the labels do not matter. -/
theorem exists_run_of_drive (s₀ : S) (f : S → L → Option S) (ls : List L)
    (test : List (Transition S L) → S → Bool)
    (h : (Lts.drive f s₀ ls).any (fun r => test r.1 r.2) = true) :
    ∃ tr s, (ofStep s₀ f).Run tr s ∧ test tr s = true := by
  obtain ⟨tr, s, hrun, -, ht⟩ := exists_run_labels_of_drive s₀ f ls test h
  exact ⟨tr, s, hrun, ht⟩

end Lts

end Tpso.Lib
