/-
# State diagrams, and the life of one item in them

An item is born in the start state of a diagram and from then on changes its state along the
edges.  `life` is this as a transition system whose labels are the states entered, so that the labels of
a run are the ITINERARY of the item (`Walks`).  What can be said about an itinerary from the edges
alone is said here about the number of times that states are visited.

* `Walks.final`: a state without an edge out of it is the last, and is visited once.
* `Walks.count_gate`: when every edge out of `k` leads to `m` and every edge into `m` comes from
  `k`, then `m` has been visited as often as `k`, or once less while the item is in `k`.
* `Walks.count_le`: when every edge into `m` comes from `k`, `m` is visited at most as often as `k`.
-/
import Tpso.Lib.Simulation

namespace Tpso.Lib

/-- A state diagram. -/
structure Diagram (K : Type) where
  start : K
  edge : K → K → Prop

namespace Diagram

variable {K : Type} {D : Diagram K}

/-- The states an item can enter: the start state, if it does not exist yet. -/
def Enters (D : Diagram K) : Option K → K → Prop
  | none, k => k = D.start
  | some a, k => D.edge a k

/-- The life of one item that is at `o` to begin with. -/
def life (D : Diagram K) (o : Option K) : Lts (Option K) K where
  init o' := o' = o
  step a k a' := D.Enters a k ∧ a' = some k

/-- `D.Walks o ks o'`: an item at `o` that enters the states `ks`, in that order, is then at `o'`. -/
inductive Walks (D : Diagram K) (o : Option K) : List K → Option K → Prop
  | nil : Walks D o [] o
  | snoc {ks : List K} {a : Option K} {k : K} :
      Walks D o ks a → D.Enters a k → Walks D o (ks ++ [k]) (some k)

/-- **The labels of a life are an itinerary.** -/
theorem walks_of_run {o a : Option K} {tr : List (Transition (Option K) K)}
    (h : (D.life o).Run tr a) : D.Walks o (tr.map (·.label)) a := by
  induction h with
  | start hi =>
    rw [show _ = o from hi]
    exact .nil
  | step hrun hst ih =>
    obtain ⟨hk, rfl⟩ := hst
    rw [List.map_append]
    exact ih.snoc hk

/-- An item that does not exist has entered nothing. -/
theorem Walks.unborn {o : Option K} {ks : List K} (h : D.Walks o ks none) : o = none ∧ ks = [] := by
  cases h with
  | nil => exact ⟨rfl, rfl⟩

/-- What is known about `m` when it can only be entered from `k`. -/
theorem Enters.from {k m b : K} {a : Option K} (hne : m ≠ D.start) (hin : ∀ a, D.edge a m → a = k)
    (hb : D.Enters a b) (hbm : b = m) : a = some k := by
  subst hbm
  cases a with
  | none => exact absurd hb hne
  | some a => rw [hin a hb]

/-! ## What the edges say about the number of visits -/

section Counts

variable [DecidableEq K] {k m : K} {ks : List K} {o o' : Option K}

/-- The number of times an item has been in `k`, when it was at `o` to begin with and entered `ks`. -/
def visits (k : K) (o : Option K) (ks : List K) : Nat := (o.toList ++ ks).count k

@[simp]
theorem visits_nil (k : K) (o : Option K) : visits k o [] = if o = some k then 1 else 0 := by
  cases o with
  | none => rfl
  | some a => simp [visits, List.count_cons]

@[simp]
theorem visits_append (k b : K) (o : Option K) (ks : List K) :
    visits k o (ks ++ [b]) = visits k o ks + if b = k then 1 else 0 := by
  simp [visits, ← List.append_assoc, List.count_cons]

/-- **A state without an edge out of it is final**: an item that has been there is there, and has come
once. -/
theorem Walks.final (hk : ∀ b, ¬ D.edge k b) (h : D.Walks o ks o') :
    visits k o ks = if o' = some k then 1 else 0 := by
  induction h with
  | nil => exact visits_nil k o
  | @snoc ks a b hpre hb ih =>
    have hleft : a ≠ some k := by
      rintro rfl
      exact hk b hb
    rw [visits_append, ih, if_neg hleft]
    simp

/-- A state that no edge leads to is visited at birth only. -/
theorem Walks.initial (hstart : ∀ a, ¬ D.edge a D.start) (ho : o = none ∨ o = some D.start)
    (h : D.Walks o ks o') : visits D.start o ks = if o' = none then 0 else 1 := by
  induction h with
  | nil => rcases ho with rfl | rfl <;> simp
  | @snoc ks a b hpre hb ih =>
    rw [visits_append, ih]
    cases a with
    | none => simp [show b = D.start from hb]
    | some a =>
      have hbs : b ≠ D.start := by
        rintro rfl
        exact hstart a hb
      simp [hbs]

/-- **A gate**: everything that leaves `k` enters `m`, and nothing else does. -/
theorem Walks.count_gate (hne : m ≠ D.start) (hout : ∀ b, D.edge k b → b = m)
    (hin : ∀ a, D.edge a m → a = k) (ho : o ≠ some m) (h : D.Walks o ks o') :
    visits k o ks = visits m o ks + if o' = some k then 1 else 0 := by
  induction h with
  | nil => simp [ho]
  | @snoc ks a b hpre hb ih =>
    have hgate : b = m ↔ a = some k := by
      constructor
      · exact hb.from hne hin
      · rintro rfl
        exact hout b hb
    simp only [visits_append, ih, ← hgate, Option.some.injEq]

/-- **A state that is entered from one other only** is visited at most as often, and less often while
the item is in the other. -/
theorem Walks.count_le (hne : m ≠ D.start) (hkm : k ≠ m) (hin : ∀ a, D.edge a m → a = k)
    (ho : o ≠ some m) (h : D.Walks o ks o') :
    visits m o ks + (if o' = some k then 1 else 0) ≤ visits k o ks := by
  induction h with
  | nil => simp [ho]
  | @snoc ks a b hpre hb ih =>
    simp only [visits_append, Option.some.injEq]
    by_cases hbm : b = m
    · rw [if_pos (hb.from hne hin hbm)] at ih
      simp only [hbm, if_neg (Ne.symm hkm), if_true]
      omega
    · simp only [if_neg hbm]
      split at ih <;> omega

end Counts

end Diagram

end Tpso.Lib
