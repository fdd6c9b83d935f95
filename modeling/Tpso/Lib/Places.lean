/-
# Items in named lists

A scheduler keeps every process in one of several lists, and writes the name of the list into the
process as well.  The two must agree, and nobody checks that they do: a list is changed by erasing
an item and appending it elsewhere, one operation after the other.

`Tidy s out n` says that they agree, for the items `0 .. n - 1`, while the items of `out` are in
somebody's hands and in no list.  `take` and `put` trade an item between the lists and `out`; what a
critical section does is a composition of the two, and so is the proof that it leaves the lists
tidy.
-/
import Mathlib

namespace Tpso.Lib

/-- The lists, by name, and the name each item carries. -/
structure Places (K : Type) where
  queue : K → List Nat
  tag : Nat → K

namespace Places

variable {K : Type}

/-! ## 1. Tidy lists -/

/-- **The lists are tidy**, apart from the items of `out`: every list is free of repetitions, every
item on it carries its name, and every item below `n` is on a list or in `out`, never both. -/
structure Tidy (s : Places K) (out : List Nat) (n : Nat) : Prop where
  nodup : ∀ k, (s.queue k).Nodup
  tag_eq : ∀ k, ∀ x ∈ s.queue k, s.tag x = k
  lt : ∀ k, ∀ x ∈ s.queue k, x < n
  out_nodup : out.Nodup
  out_lt : ∀ x ∈ out, x < n
  not_mem : ∀ x ∈ out, ∀ k, x ∉ s.queue k
  cover : ∀ x < n, x ∈ out ∨ ∃ k, x ∈ s.queue k

variable {s : Places K} {out : List Nat} {x n : Nat}

/-- **An item is on at most one list.** -/
theorem Tidy.unique (h : s.Tidy out n) {x : Nat} {j k : K} (hj : x ∈ s.queue j)
    (hk : x ∈ s.queue k) : j = k := (h.tag_eq j x hj).symm.trans (h.tag_eq k x hk)

/-- The hands have no order. -/
theorem Tidy.perm (h : s.Tidy out n) {out' : List Nat} (hp : out.Perm out') : s.Tidy out' n where
  nodup := h.nodup
  tag_eq := h.tag_eq
  lt := h.lt
  out_nodup := hp.nodup_iff.mp h.out_nodup
  out_lt x hx := h.out_lt x (hp.mem_iff.mpr hx)
  not_mem x hx := h.not_mem x (hp.mem_iff.mpr hx)
  cover x hx := (h.cover x hx).imp_left hp.mem_iff.mp

/-- A new item starts its life in somebody's hands. -/
theorem Tidy.fresh (h : s.Tidy out n) : s.Tidy (n :: out) (n + 1) where
  nodup := h.nodup
  tag_eq := h.tag_eq
  lt k x hx := Nat.lt_succ_of_lt (h.lt k x hx)
  out_nodup := List.nodup_cons.mpr ⟨fun hn => absurd (h.out_lt n hn) (lt_irrefl n), h.out_nodup⟩
  out_lt x hx := by
    rcases List.mem_cons.mp hx with rfl | hx
    · exact Nat.lt_succ_self x
    · exact Nat.lt_succ_of_lt (h.out_lt x hx)
  not_mem x hx k hmem := by
    rcases List.mem_cons.mp hx with rfl | hx
    · exact absurd (h.lt k x hmem) (lt_irrefl x)
    · exact h.not_mem x hx k hmem
  cover x hx := by
    rcases Nat.lt_succ_iff_lt_or_eq.mp hx with hlt | rfl
    · exact (h.cover x hlt).imp_left (List.mem_cons_of_mem _)
    · exact Or.inl List.mem_cons_self

/-! ## 2. The operations -/

variable [DecidableEq K]

/-- Remove the first occurrence of `x` from list `k`. -/
def take (k : K) (x : Nat) (s : Places K) : Places K :=
  { s with queue := Function.update s.queue k ((s.queue k).erase x) }

/-- Append `x` to list `k` and write the name into it. -/
def put (k : K) (x : Nat) (s : Places K) : Places K where
  queue := Function.update s.queue k (s.queue k ++ [x])
  tag := Function.update s.tag x k

/-- Reorder list `k`. -/
def reorder (k : K) (l : List Nat) (s : Places K) : Places K :=
  { s with queue := Function.update s.queue k l }

theorem mem_queue_take {k j : K} {x y : Nat} (h : y ∈ (s.take k x).queue j) : y ∈ s.queue j := by
  by_cases hj : j = k
  · subst hj
    exact List.mem_of_mem_erase (by simpa [Places.take] using h)
  · simpa [Places.take, hj] using h

/-- Taking an item into one's hands. -/
theorem Tidy.take (h : s.Tidy out n) {k : K} {x : Nat} (hx : x ∈ s.queue k) :
    (s.take k x).Tidy (x :: out) n where
  nodup j := by
    by_cases hj : j = k
    · subst hj
      simpa [Places.take] using (h.nodup j).erase x
    · simpa [Places.take, hj] using h.nodup j
  tag_eq j y hy := h.tag_eq j y (mem_queue_take hy)
  lt j y hy := h.lt j y (mem_queue_take hy)
  out_nodup := List.nodup_cons.mpr ⟨fun hout => h.not_mem x hout k hx, h.out_nodup⟩
  out_lt y hy := by
    rcases List.mem_cons.mp hy with rfl | hy
    · exact h.lt k y hx
    · exact h.out_lt y hy
  not_mem y hy j hmem := by
    rcases List.mem_cons.mp hy with rfl | hy
    · obtain rfl : j = k := h.unique (mem_queue_take hmem) hx
      have : y ∈ (s.queue j).erase y := by simpa [Places.take] using hmem
      exact ((h.nodup j).mem_erase_iff.mp this).1 rfl
    · exact h.not_mem y hy j (mem_queue_take hmem)
  cover y hy := by
    by_cases hyx : y = x
    · exact Or.inl (hyx ▸ List.mem_cons_self)
    · rcases h.cover y hy with hout | ⟨j, hj⟩
      · exact Or.inl (List.mem_cons_of_mem _ hout)
      · refine Or.inr ⟨j, ?_⟩
        by_cases hjk : j = k
        · subst hjk
          have : y ∈ (s.queue j).erase x := (List.mem_erase_of_ne hyx).mpr hj
          simpa [Places.take] using this
        · simpa [Places.take, hjk] using hj

theorem mem_queue_put {k j : K} {x y : Nat} (h : y ∈ (s.put k x).queue j) :
    y ∈ s.queue j ∨ (y = x ∧ j = k) := by
  by_cases hj : j = k
  · subst hj
    have : y ∈ s.queue j ++ [x] := by simpa [Places.put] using h
    rcases List.mem_append.mp this with h | h
    · exact Or.inl h
    · exact Or.inr ⟨List.mem_singleton.mp h, rfl⟩
  · exact Or.inl (by simpa [Places.put, hj] using h)

theorem mem_queue_put_of_mem {k j : K} {x y : Nat} (h : y ∈ s.queue j) :
    y ∈ (s.put k x).queue j := by
  by_cases hj : j = k
  · subst hj
    simpa [Places.put] using Or.inl h
  · simpa [Places.put, hj] using h

/-- Putting back what one holds, on whichever list. -/
theorem Tidy.put (h : s.Tidy (x :: out) n) {k : K} : (s.put k x).Tidy out n where
  nodup j := by
    by_cases hj : j = k
    · subst hj
      have : (s.queue j ++ [x]).Nodup :=
        List.nodup_append.mpr ⟨h.nodup j, List.nodup_singleton x, by
          rintro y hy z hz rfl
          exact h.not_mem x List.mem_cons_self j (List.mem_singleton.mp hz ▸ hy)⟩
      simpa [Places.put] using this
    · simpa [Places.put, hj] using h.nodup j
  tag_eq j y hy := by
    rcases mem_queue_put hy with hold | ⟨rfl, rfl⟩
    · have hne : y ≠ x := by
        rintro rfl
        exact h.not_mem y List.mem_cons_self j hold
      simpa [Places.put, hne] using h.tag_eq j y hold
    · simp [Places.put]
  lt j y hy := by
    rcases mem_queue_put hy with hy | ⟨rfl, -⟩
    · exact h.lt j y hy
    · exact h.out_lt y List.mem_cons_self
  out_nodup := (List.nodup_cons.mp h.out_nodup).2
  out_lt y hy := h.out_lt y (List.mem_cons_of_mem _ hy)
  not_mem y hy j hmem := by
    rcases mem_queue_put hmem with hmem | ⟨rfl, -⟩
    · exact h.not_mem y (List.mem_cons_of_mem _ hy) j hmem
    · exact (List.nodup_cons.mp h.out_nodup).1 hy
  cover y hy := by
    rcases h.cover y hy with hout | ⟨j, hj⟩
    · rcases List.mem_cons.mp hout with rfl | hout
      · exact Or.inr ⟨k, by simp [Places.put]⟩
      · exact Or.inl hout
    · exact Or.inr ⟨j, mem_queue_put_of_mem hj⟩

/-- Reordering a list changes nothing that matters. -/
theorem Tidy.reorder (h : s.Tidy out n) {k : K} {l : List Nat} (hp : l.Perm (s.queue k)) :
    (s.reorder k l).Tidy out n := by
  have hmem : ∀ j y, y ∈ (s.reorder k l).queue j ↔ y ∈ s.queue j := by
    intro j y
    by_cases hj : j = k
    · subst hj
      simpa [Places.reorder] using hp.mem_iff
    · simp [Places.reorder, hj]
  refine ⟨?_, fun j y hy => h.tag_eq j y ((hmem j y).mp hy), fun j y hy => h.lt j y ((hmem j y).mp hy),
    h.out_nodup, h.out_lt, fun x hx j hj => h.not_mem x hx j ((hmem j x).mp hj), ?_⟩
  · intro j
    by_cases hj : j = k
    · subst hj
      simpa [Places.reorder] using hp.nodup_iff.mpr (h.nodup j)
    · simpa [Places.reorder, hj] using h.nodup j
  · intro x hx
    rcases h.cover x hx with hout | ⟨j, hj⟩
    · exact Or.inl hout
    · exact Or.inr ⟨j, (hmem j x).mpr hj⟩

end Places

end Tpso.Lib
