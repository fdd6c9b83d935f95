/-
# Scanning slots round a pointer

A scan looks at the slots of a ring one after the other, from a pointer on.  It stops at the first one that
passes a test and changes those it passes over; the pointer moves with it.  `FirstFrom` says where it stops,
`walk` what it leaves behind, and `scan_found` and `scan_none` that this is all it does.
-/
import Tpso.Lib.Ring

namespace Tpso.Lib

/-! ## 1. The first slot -/

/-- Among the slots from the pointer on, the first with the property is at distance `j`. -/
structure FirstFrom (n : Nat) (P : Nat → Prop) (pointer j : Nat) : Prop where
  lt : j < n
  holds : P ((pointer + j) % n)
  before : ∀ k < j, ¬ P ((pointer + k) % n)

/-- If there is one at all, there is a first. -/
theorem exists_firstFrom {n pointer i : Nat} {P : Nat → Prop} (hp : pointer < n) (hi : i < n) (h : P i) :
    ∃ j, FirstFrom n P pointer j := by
  classical
  obtain ⟨d, hd, rfl⟩ := FreeRun.exists_distance hp hi
  have hex : ∃ j, P ((pointer + j) % n) := ⟨d, h⟩
  refine ⟨Nat.find hex, (Nat.find_min' hex h).trans_lt hd, Nat.find_spec hex, ?_⟩
  exact fun k hk => Nat.find_min hex hk

/-- A first slot does not depend on how its test is written. -/
theorem FirstFrom.congr {n p j : Nat} {P Q : Nat → Prop} (h : FirstFrom n P p j)
    (hPQ : ∀ i, P i ↔ Q i) : FirstFrom n Q p j :=
  ⟨h.lt, (hPQ _).mp h.holds, fun k hk hQ => h.before k hk ((hPQ _).mpr hQ)⟩

/-! ## 2. What is passed over -/

/-- The slot is one of the `j` slots from the pointer on. -/
def Passed (n pointer j i : Nat) : Prop := ∃ k, k < j ∧ (pointer + k) % n = i

instance (n pointer j i : Nat) : Decidable (Passed n pointer j i) :=
  inferInstanceAs (Decidable (∃ k, k < j ∧ _))

/-- No slot comes twice in one round. -/
theorem not_passed {n pointer j : Nat} (hj : j < n) : ¬ Passed n pointer j ((pointer + j) % n) := by
  rintro ⟨k, hk, heq⟩
  exact absurd (FreeRun.distance_inj (hk.trans hj) hj heq) hk.ne

/-- Every slot comes in one round. -/
theorem passed_all {n pointer i : Nat} (hp : pointer < n) (hi : i < n) : Passed n pointer n i :=
  FreeRun.exists_distance hp hi

theorem passed_succ {n pointer j i : Nat} :
    Passed n pointer (j + 1) i ↔ Passed n pointer j i ∨ (pointer + j) % n = i := by
  constructor
  · rintro ⟨k, hk, heq⟩
    rcases Nat.lt_succ_iff_lt_or_eq.mp hk with hlt | rfl
    · exact Or.inl ⟨k, hlt, heq⟩
    · exact Or.inr heq
  · rintro (⟨k, hk, heq⟩ | heq)
    · exact ⟨k, hk.trans (Nat.lt_succ_self j), heq⟩
    · exact ⟨j, Nat.lt_succ_self j, heq⟩

section Walk

variable {α : Type} {f g : α → α} {n pointer j : Nat} {l : List α}

/-- The slots after `f` was applied to the `j` slots from the pointer on. -/
def walk (f : α → α) (n pointer j : Nat) (l : List α) : List α :=
  l.mapIdx fun i a => if Passed n pointer j i then f a else a

@[simp] theorem length_walk : (walk f n pointer j l).length = l.length := List.length_mapIdx

theorem getElem?_walk (i : Nat) :
    (walk f n pointer j l)[i]? = (l[i]?).map fun a => if Passed n pointer j i then f a else a :=
  List.getElem?_mapIdx

theorem walk_zero : walk f n pointer 0 l = l := by
  apply List.ext_getElem?
  intro i
  have hnot : ¬ Passed n pointer 0 i := fun ⟨_, hk, _⟩ => absurd hk (Nat.not_lt_zero _)
  rw [getElem?_walk]
  simp [hnot]

/-- The next slot is as it was. -/
theorem getElem?_walk_next (hj : j < n) :
    (walk f n pointer j l)[(pointer + j) % n]? = l[(pointer + j) % n]? := by
  rw [getElem?_walk]
  simp [not_passed hj]

/-- One slot more. -/
theorem walk_succ {a : α} (ha : l[(pointer + j) % n]? = some a) :
    walk f n pointer (j + 1) l = (walk f n pointer j l).set ((pointer + j) % n) (f a) := by
  apply List.ext_getElem?
  intro i
  rw [getElem?_walk]
  by_cases hi : (pointer + j) % n = i
  · subst hi
    have hpassed : Passed n pointer (j + 1) ((pointer + j) % n) := passed_succ.mpr (Or.inr rfl)
    have hlt : (pointer + j) % n < (walk f n pointer j l).length := by
      rw [length_walk]
      exact (List.getElem?_eq_some_iff.mp ha).1
    rw [List.getElem?_set_self hlt, ha]
    simp [hpassed]
  · rw [List.getElem?_set_ne hi, getElem?_walk]
    simp [passed_succ, hi]

/-- A whole round. -/
theorem walk_all (hp : pointer < n) (hl : l.length = n) : walk f n pointer n l = l.map f := by
  apply List.ext_getElem?
  intro i
  rw [getElem?_walk, List.getElem?_map]
  rcases Nat.lt_or_ge i n with hi | hi
  · simp [passed_all hp hi]
  · simp [List.getElem?_eq_none (hl.le.trans hi)]

/-- To change nothing. -/
theorem walk_id : walk (fun a => a) n pointer j l = l := by
  apply List.ext_getElem?
  intro i
  rw [getElem?_walk]
  simp

theorem walk_congr (h : ∀ a ∈ l, f a = g a) : walk f n pointer j l = walk g n pointer j l := by
  apply List.ext_getElem?
  intro i
  rw [getElem?_walk, getElem?_walk]
  cases hi : l[i]? with
  | none => rfl
  | some a => simp [h a (List.mem_of_getElem? hi)]

/-- What `f` does not touch is as it was. -/
theorem map_walk {β : Type} {h : α → β} (hf : ∀ a, h (f a) = h a) :
    (walk f n pointer j l).map h = l.map h := by
  apply List.ext_getElem?
  intro i
  rw [List.getElem?_map, List.getElem?_map, getElem?_walk, Option.map_map]
  cases l[i]? with
  | none => rfl
  | some a =>
    by_cases hp : Passed n pointer j i
    · simp [hp, hf]
    · simp [hp]

end Walk

/-! ## 3. The scan -/

section Scan

variable {α : Type} {stop : α → Bool} {pass : α → α} {n pointer j : Nat} {l : List α}

/-- Look at `k` slots at most, from the pointer on: the slots and the pointer after it, and where it
stopped. -/
def scan (stop : α → Bool) (pass : α → α) (n : Nat) : Nat → List α → Nat → (List α × Nat) × Option Nat
  | 0, l, pointer => ((l, pointer), none)
  | k + 1, l, pointer =>
    match l[pointer]? with
    | none => ((l, pointer), none)
    | some a =>
      if stop a then ((l, (pointer + 1) % n), some pointer)
      else scan stop pass n k (l.set pointer (pass a)) ((pointer + 1) % n)

/-- The slot at an index passes the test. -/
def StopsAt (stop : α → Bool) (l : List α) (i : Nat) : Prop := ∃ a, l[i]? = some a ∧ stop a = true

/-- Either some slot passes a test, or none does from the pointer on. -/
theorem exists_firstFrom_or (stop : α → Bool) {es : List α} {n p : Nat} (hp : p < n)
    (hlen : es.length = n) :
    (∃ j, FirstFrom n (StopsAt stop es) p j) ∨ ∀ e ∈ es, stop e = false := by
  by_cases hex : ∃ e ∈ es, stop e = true
  · obtain ⟨e, he, hstop⟩ := hex
    obtain ⟨i, hi⟩ := List.getElem?_of_mem he
    have hlt : i < n := hlen ▸ (List.getElem?_eq_some_iff.mp hi).1
    exact Or.inl (exists_firstFrom hp hlt ⟨e, hi, hstop⟩)
  · refine Or.inr fun e he => ?_
    cases hs : stop e with
    | false => rfl
    | true => exact absurd ⟨e, he, hs⟩ hex

/-- When no entry passes the test, no slot does. -/
theorem not_stopsAt {stop : α → Bool} {es : List α} (h : ∀ e ∈ es, stop e = false)
    (i : Nat) : ¬ StopsAt stop es i := by
  rintro ⟨e, he, hstop⟩
  rw [h e (List.mem_of_getElem? he)] at hstop
  exact absurd hstop (by simp)

/-- Two tests that agree on the entries stop at the same slots. -/
theorem stopsAt_congr {stop stop' : α → Bool} {es : List α}
    (h : ∀ e ∈ es, stop e = stop' e) (i : Nat) : StopsAt stop es i ↔ StopsAt stop' es i := by
  constructor
  · rintro ⟨e, he, hstop⟩
    exact ⟨e, he, (h e (List.mem_of_getElem? he)) ▸ hstop⟩
  · rintro ⟨e, he, hstop⟩
    exact ⟨e, he, (h e (List.mem_of_getElem? he)).symm ▸ hstop⟩

/-- A test after a change. -/
theorem stopsAt_map {stop : α → Bool} {f : α → α} {es : List α} (i : Nat) :
    StopsAt stop (es.map f) i ↔ StopsAt (fun e => stop (f e)) es i := by
  unfold StopsAt
  rw [List.getElem?_map]
  cases es[i]? with
  | none => simp
  | some e => simp

/-- Slots that fail the test are passed over. -/
theorem scan_pass (hp : pointer < n) (hl : l.length = n) (hj : j ≤ n)
    (hnot : ∀ k < j, ¬ StopsAt stop l ((pointer + k) % n)) (k : Nat) :
    scan stop pass n (k + j) l pointer =
      scan stop pass n k (walk pass n pointer j l) ((pointer + j) % n) := by
  induction j generalizing k with
  | zero => rw [walk_zero, Nat.add_zero, Nat.add_zero, Nat.mod_eq_of_lt hp]
  | succ j ih =>
    have hjn : j < n := hj
    have hlt : (pointer + j) % n < l.length := by
      rw [hl]
      exact Nat.mod_lt _ (by omega)
    obtain ⟨a, ha⟩ : ∃ a, l[(pointer + j) % n]? = some a := ⟨_, List.getElem?_eq_getElem hlt⟩
    have hfail : stop a = false := by
      have hno := hnot j (Nat.lt_succ_self j)
      cases hs : stop a with
      | false => rfl
      | true => exact absurd ⟨a, ha, hs⟩ hno
    have hstep := ih hjn.le (fun i hi => hnot i (hi.trans (Nat.lt_succ_self j))) (k + 1)
    have hnext : ((pointer + j) % n + 1) % n = (pointer + (j + 1)) % n := by
      rw [Nat.mod_add_mod, Nat.add_assoc]
    rw [show k + (j + 1) = k + 1 + j by omega, hstep, scan, getElem?_walk_next hjn, ha]
    simp only [hfail, Bool.false_eq_true, if_false, hnext, walk_succ ha]

/-- **A scan that finds something** stops at the first slot that passes the test. -/
theorem scan_found (hp : pointer < n) (hl : l.length = n) (h : FirstFrom n (StopsAt stop l) pointer j)
    {k : Nat} (hk : j < k) :
    scan stop pass n k l pointer =
      ((walk pass n pointer j l, ((pointer + j) % n + 1) % n), some ((pointer + j) % n)) := by
  obtain ⟨a, ha, hstop⟩ := h.holds
  obtain ⟨m, rfl⟩ := Nat.exists_eq_add_of_lt hk
  rw [show j + m + 1 = m + 1 + j by omega, scan_pass hp hl h.lt.le h.before, scan,
    getElem?_walk_next h.lt, ha]
  simp only [hstop, if_true]

/-- **A scan that finds nothing** has changed all it looked at. -/
theorem scan_none (hp : pointer < n) (hl : l.length = n) (hj : j ≤ n)
    (hnot : ∀ k < j, ¬ StopsAt stop l ((pointer + k) % n)) :
    scan stop pass n j l pointer = ((walk pass n pointer j l, (pointer + j) % n), none) := by
  have hpass := @scan_pass _ stop pass n pointer j l hp hl hj hnot 0
  rw [Nat.zero_add] at hpass
  rw [hpass, scan]

end Scan

end Tpso.Lib
