/-
# Words between separators

A text is words with separators between them, any number before the first and behind the last and at least
one between two (`Spaced`).  Every text has words, and reading it word by word, each time up to the next
separator and past it, finds them in order (`nextWord_cons`, `nextWord_nil`).
-/
import Mathlib

namespace Tpso.Lib

section Words

variable {α : Type} {sep : α}

/-! ## 1. The words of a text -/

/-- A word: not empty, and without separators. -/
structure IsWord (sep : α) (w : List α) : Prop where
  ne_nil : w ≠ []
  free : sep ∉ w

/-- **The words of a text.**  What follows a word is the end or starts with a separator. -/
inductive Spaced (sep : α) : List (List α) → List α → Prop where
  | blank {gap : List α} (hgap : ∀ c ∈ gap, c = sep) : Spaced sep [] gap
  | word (gap : List α) {w rest : List α} {ws : List (List α)} (hgap : ∀ c ∈ gap, c = sep) (hw : IsWord sep w)
      (hrest : ∀ c ∈ rest.head?, c = sep) (h : Spaced sep ws rest) : Spaced sep (w :: ws) (gap ++ (w ++ rest))

/-- A separator more in front. -/
theorem Spaced.cons {ws : List (List α)} {text : List α} (h : Spaced sep ws text) :
    Spaced sep ws (sep :: text) := by
  cases h with
  | blank hgap => exact .blank (List.forall_mem_cons.mpr ⟨rfl, hgap⟩)
  | word gap hgap hw hrest h =>
    exact .word (sep :: gap) (List.forall_mem_cons.mpr ⟨rfl, hgap⟩) hw hrest h

/-- A separator fewer in front. -/
theorem Spaced.tail {ws : List (List α)} {text : List α} (h : Spaced sep ws text)
    (hhead : ∀ c ∈ text.head?, c = sep) : Spaced sep ws text.tail := by
  cases h with
  | blank hgap => exact .blank fun c hc => hgap c (List.mem_of_mem_tail hc)
  | @word gap w rest ws hgap hw hrest h =>
    cases gap with
    | nil =>
      -- the text would start with a word
      obtain ⟨c, w, rfl⟩ := List.exists_cons_of_ne_nil hw.ne_nil
      obtain rfl : c = sep := hhead c (by simp)
      exact absurd List.mem_cons_self hw.free
    | cons c gap =>
      exact .word gap (fun d hd => hgap d (List.mem_cons_of_mem c hd)) hw hrest h

/-- **Every text has words.** -/
theorem exists_spaced (sep : α) (text : List α) : ∃ ws, Spaced sep ws text := by
  induction text with
  | nil => exact ⟨[], .blank (by simp)⟩
  | cons c text ih =>
    obtain ⟨ws, h⟩ := ih
    by_cases hc : c = sep
    · exact ⟨ws, hc ▸ h.cons⟩
    · have hone : IsWord sep [c] := ⟨by simp, by simpa [eq_comm] using hc⟩
      cases h with
      | blank hgap =>
        refine ⟨[[c]], .word [] (by simp) hone ?_ (.blank hgap)⟩
        exact fun d hd => hgap d (List.mem_of_mem_head? hd)
      | @word gap w rest ws hgap hw hrest h =>
        cases gap with
        | nil =>
          -- the character belongs to the first word
          have hlonger : IsWord sep (c :: w) :=
            ⟨by simp, by simpa [eq_comm (a := sep), hc] using hw.free⟩
          exact ⟨(c :: w) :: ws, .word [] (by simp) hlonger hrest h⟩
        | cons d gap =>
          refine ⟨[c] :: w :: ws, .word [] (by simp) hone ?_ (.word _ hgap hw hrest h)⟩
          intro e he
          obtain rfl : d = e := by simpa using he
          exact hgap d List.mem_cons_self

/-! ## 2. Reading word by word -/

variable [DecidableEq α]

/-- The next word and what is behind the separator that ends it, if there is a word. -/
def nextWord (sep : α) (text : List α) : Option (List α × List α) :=
  if text.dropWhile (fun c => decide (c = sep)) = [] then none
  else
    some ((text.dropWhile fun c => decide (c = sep)).takeWhile fun c => decide (c ≠ sep),
      ((text.dropWhile fun c => decide (c = sep)).dropWhile fun c => decide (c ≠ sep)).tail)

/-- Nothing is left. -/
theorem nextWord_nil {text : List α} (h : Spaced sep [] text) : nextWord sep text = none := by
  cases h with
  | blank hgap =>
    refine if_pos (List.dropWhile_eq_nil_iff.mpr ?_)
    exact fun c hc => decide_eq_true (hgap c hc)

/-- **The next word is the first one**, and what is left has the others. -/
theorem nextWord_cons {w : List α} {ws : List (List α)} {text : List α} (h : Spaced sep (w :: ws) text) :
    ∃ rest, nextWord sep text = some (w, rest) ∧ Spaced sep ws rest := by
  cases h with
  | @word gap w rest ws hgap hw hrest h =>
    have hword : ∀ c ∈ w, decide (c ≠ sep) = true := fun c hc =>
      decide_eq_true fun heq => hw.free (heq ▸ hc)
    obtain ⟨c, w', rfl⟩ := List.exists_cons_of_ne_nil hw.ne_nil
    have hc : c ≠ sep := of_decide_eq_true (hword c List.mem_cons_self)
    have hskip : (gap ++ (c :: w' ++ rest)).dropWhile (fun c => decide (c = sep)) = c :: w' ++ rest := by
      rw [List.dropWhile_append_of_pos fun d hd => decide_eq_true (hgap d hd)]
      simp [hc]
    have hend : rest.takeWhile (fun c => decide (c ≠ sep)) = [] ∧
        rest.dropWhile (fun c => decide (c ≠ sep)) = rest := by
      cases rest with
      | nil => exact ⟨rfl, rfl⟩
      | cons d rest =>
        obtain rfl : d = sep := hrest d (by simp)
        simp
    refine ⟨rest.tail, ?_, h.tail hrest⟩
    unfold nextWord
    rw [hskip, if_neg (by simp), List.takeWhile_append_of_pos hword, List.dropWhile_append_of_pos hword,
      hend.1, hend.2, List.append_nil]

end Words

end Tpso.Lib
