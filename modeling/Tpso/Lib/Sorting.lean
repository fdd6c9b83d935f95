/-
# Stable sorts by a key

What a stable sort is, without saying how it works: its result is in order, and the items of one key
come in the order they had.  The two together leave no choice (`eq_of_filters`), so a list that is in
order stays as it is, and so does every rest of a sorted list.
-/
import Mathlib

namespace Tpso.Lib

/-- The list is in order of its keys. -/
def InOrder {α : Type} (key : α → Int) (l : List α) : Prop := l.Pairwise fun a b => key a ≤ key b

/-- A stable sort by an integer key. -/
structure StableSort (α : Type) where
  sort : (α → Int) → List α → List α
  sorted : ∀ key l, InOrder key (sort key l)
  stable : ∀ key l v, (sort key l).filter (fun a => decide (key a = v)) =
    l.filter fun a => decide (key a = v)

/-- **The order is unique**: two lists in order that agree on the items of each key are equal. -/
theorem eq_of_filters {α : Type} {key : α → Int} {l l' : List α} (h : InOrder key l)
    (h' : InOrder key l') (hsame : ∀ v, l.filter (fun a => decide (key a = v)) =
      l'.filter fun a => decide (key a = v)) : l = l' := by
  -- what is in one list is in the other
  have hmem : ∀ {m m' : List α}, (∀ v, m.filter (fun a => decide (key a = v)) =
      m'.filter fun a => decide (key a = v)) → ∀ a ∈ m, a ∈ m' := by
    intro m m' hm a ha
    have hin : a ∈ m.filter fun b => decide (key b = key a) := List.mem_filter.mpr ⟨ha, by simp⟩
    rw [hm (key a)] at hin
    exact (List.mem_filter.mp hin).1
  induction l generalizing l' with
  | nil =>
    cases l' with
    | nil => rfl
    | cons b m' => exact absurd (hmem (fun v => (hsame v).symm) b List.mem_cons_self) (by simp)
  | cons a m ih =>
    cases l' with
    | nil => exact absurd (hmem hsame a List.mem_cons_self) (by simp)
    | cons b m' =>
      obtain ⟨ha, hm⟩ := List.pairwise_cons.mp h
      obtain ⟨hb, hm'⟩ := List.pairwise_cons.mp h'
      have hab : key a ≤ key b := by
        rcases List.mem_cons.mp (hmem (fun v => (hsame v).symm) b List.mem_cons_self) with rfl | hin
        · exact le_refl _
        · exact ha b hin
      have hba : key b ≤ key a := by
        rcases List.mem_cons.mp (hmem hsame a List.mem_cons_self) with rfl | hin
        · exact le_refl _
        · exact hb a hin
      have hkey : key b = key a := le_antisymm hba hab
      have hfirst := hsame (key a)
      rw [List.filter_cons_of_pos (by simp), List.filter_cons_of_pos (by simpa using hkey)] at hfirst
      obtain ⟨rfl, -⟩ := List.cons.inj hfirst
      congr 1
      refine ih hm hm' fun v => ?_
      have hv := hsame v
      by_cases hav : key a = v
      · rw [List.filter_cons_of_pos (by simpa using hav),
          List.filter_cons_of_pos (by simpa using hav)] at hv
        exact (List.cons.inj hv).2
      · rwa [List.filter_cons_of_neg (by simpa using hav),
          List.filter_cons_of_neg (by simpa using hav)] at hv

namespace StableSort

variable {α : Type} (s : StableSort α) (key : α → Int)

/-- A list in order stays as it is. -/
theorem sort_eq_self {l : List α} (h : InOrder key l) : s.sort key l = l :=
  eq_of_filters (s.sorted key l) h (s.stable key l)

/-- Sorting is a rearrangement. -/
theorem perm [DecidableEq α] (l : List α) : (s.sort key l).Perm l := by
  refine List.perm_iff_count.mpr fun a => ?_
  have hcount : ∀ m : List α, m.count a = (m.filter fun b => decide (key b = key a)).count a := by
    intro m
    rw [List.count_filter (by simp)]
  rw [hcount, hcount l, s.stable]

/-- Merge sort is one. -/
def merge : StableSort α where
  sort key l := l.mergeSort fun a b => decide (key a ≤ key b)
  sorted key l := by
    have hsorted := @List.pairwise_mergeSort α (fun a b => decide (key a ≤ key b))
      (fun a b c hab hbc => by
        have h1 := of_decide_eq_true hab
        have h2 := of_decide_eq_true hbc
        simpa using h1.trans h2)
      (fun a b => by simpa using le_total (key a) (key b)) l
    exact hsorted.imp fun h => by simpa using h
  stable key l v := by
    have hsub : (l.filter fun a => decide (key a = v)).Sublist
        (l.mergeSort fun a b => decide (key a ≤ key b)) := by
      refine List.sublist_mergeSort (fun a b c hab hbc => ?_) (fun a b => ?_) ?_
        List.filter_sublist
      · have h1 := of_decide_eq_true hab
        have h2 := of_decide_eq_true hbc
        simpa using h1.trans h2
      · simpa using le_total (key a) (key b)
      · refine List.pairwise_of_forall_mem_list fun a ha b hb => ?_
        have h1 := of_decide_eq_true (List.mem_filter.mp ha).2
        have h2 := of_decide_eq_true (List.mem_filter.mp hb).2
        simp [h1, h2]
    have hfilter := hsub.filter fun a => decide (key a = v)
    rw [List.filter_filter] at hfilter
    simp only [Bool.and_self] at hfilter
    refine (hfilter.eq_of_length ?_).symm
    exact ((List.mergeSort_perm l _).filter _).length_eq.symm

end StableSort

end Tpso.Lib
