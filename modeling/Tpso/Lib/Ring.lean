/-
# Slots filled round a pointer

`n` slots in a ring, some of them free, and a pointer.  `FreeRun` says that the free slots are a run of
consecutive ones that starts at the pointer.  Whoever fills slots only under the pointer, and moves on
by one each time, keeps the run; and as long as there is a free slot at all, the pointer is on one.
-/
import Mathlib

namespace Tpso.Lib

/-- The free slots of a ring of `n` are the `k` slots from `pointer` on. -/
def FreeRun (n : Nat) (free : Nat → Bool) (pointer k : Nat) : Prop :=
  k ≤ n ∧ ∀ j < n, free ((pointer + j) % n) = true ↔ j < k

namespace FreeRun

variable {n k pointer : Nat} {free free' : Nat → Bool}

/-- Every slot is at some distance behind the pointer. -/
theorem exists_distance (hp : pointer < n) {i : Nat} (hi : i < n) : ∃ j < n, (pointer + j) % n = i := by
  rcases Nat.lt_or_ge i pointer with hlt | hge
  · refine ⟨n - pointer + i, by omega, ?_⟩
    rw [show pointer + (n - pointer + i) = i + n by omega, Nat.add_mod_right, Nat.mod_eq_of_lt hi]
  · refine ⟨i - pointer, by omega, ?_⟩
    rw [show pointer + (i - pointer) = i by omega, Nat.mod_eq_of_lt hi]

/-- The distance of a slot is unique. -/
theorem distance_inj {i j : Nat} (hi : i < n) (hj : j < n)
    (h : (pointer + i) % n = (pointer + j) % n) : i = j := by
  have hmod : i ≡ j [MOD n] := Nat.ModEq.add_left_cancel' pointer h
  rwa [Nat.ModEq, Nat.mod_eq_of_lt hi, Nat.mod_eq_of_lt hj] at hmod

/-- All slots are free. -/
theorem all (hfree : ∀ i < n, free i = true) : FreeRun n free pointer n := by
  refine ⟨le_refl n, fun j hj => ?_⟩
  have hlt : (pointer + j) % n < n := Nat.mod_lt _ (by omega)
  simp [hfree _ hlt, hj]

/-- No slot is free, wherever the pointer is. -/
theorem none (hfree : ∀ i < n, free i = false) : FreeRun n free pointer 0 := by
  refine ⟨Nat.zero_le n, fun j hj => ?_⟩
  have hlt : (pointer + j) % n < n := Nat.mod_lt _ (by omega)
  simp [hfree _ hlt]

/-- When the slot under the pointer is taken, all are. -/
theorem eq_false (h : FreeRun n free pointer k) (hp : pointer < n) (htaken : free pointer = false) :
    ∀ i < n, free i = false := by
  have hk : ¬ 0 < k := by
    rw [← h.2 0 (by omega), Nat.add_zero, Nat.mod_eq_of_lt hp, htaken]
    simp
  intro i hi
  obtain ⟨j, hj, rfl⟩ := exists_distance hp hi
  have hnot := (h.2 j hj).not.mpr (by omega)
  simpa using hnot

/-- **The slot under the pointer is filled**, and the pointer moves on. -/
theorem fill (h : FreeRun n free pointer k) (hp : pointer < n) (hfree : free pointer = true)
    (hfill : free' pointer = false) (hrest : ∀ i < n, i ≠ pointer → free' i = free i) :
    FreeRun n free' ((pointer + 1) % n) (k - 1) := by
  have hk : 0 < k := by
    rw [← h.2 0 (by omega), Nat.add_zero, Nat.mod_eq_of_lt hp, hfree]
  have hle := h.1
  refine ⟨by omega, fun j hj => ?_⟩
  rw [Nat.mod_add_mod, Nat.add_assoc, Nat.add_comm 1 j]
  rcases Nat.lt_or_ge (j + 1) n with hlt | hge
  · -- a slot other than the one that was filled
    have hne : (pointer + (j + 1)) % n ≠ pointer := by
      intro heq
      have heq' : (pointer + (j + 1)) % n = (pointer + 0) % n := by
        rw [heq, Nat.add_zero, Nat.mod_eq_of_lt hp]
      exact absurd (distance_inj hlt (by omega) heq') (by omega)
    rw [hrest _ (Nat.mod_lt _ (by omega)) hne, h.2 (j + 1) hlt]
    omega
  · -- once around: the slot that was filled
    obtain rfl : n = j + 1 := by omega
    rw [Nat.add_mod_right, Nat.mod_eq_of_lt hp, hfill]
    constructor
    · intro hfalse
      exact absurd hfalse (by simp)
    · intro hlt
      omega

end FreeRun

end Tpso.Lib
