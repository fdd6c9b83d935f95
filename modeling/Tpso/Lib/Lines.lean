/-
# Lines of a text

A text is lines with a separator behind each, which the last line may lack (`Lines`).  Reading it line by
line, each time up to the next separator and including it, gives them in order, until nothing is left
(`readLines_lines`).
-/
import Mathlib

namespace Tpso.Lib

section Lines

variable {α : Type} {sep : α}

/-! ## 1. The lines of a text -/

/-- **The lines of a text**, without their separators.  A last line that has none is not empty. -/
inductive Lines (sep : α) : List (List α) → List α → Prop where
  | nil : Lines sep [] []
  | last {line : List α} (hne : line ≠ []) (hfree : sep ∉ line) : Lines sep [line] line
  | cons {line text : List α} {ls : List (List α)} (hfree : sep ∉ line) (h : Lines sep ls text) :
      Lines sep (line :: ls) (line ++ sep :: text)

/-! ## 2. Reading line by line -/

variable [DecidableEq α]

/-- The next line with the separator that ends it, and what is behind it, if anything is left. -/
def nextLine (sep : α) (text : List α) : Option (List α × List α) :=
  if text = [] then none
  else
    match text.dropWhile fun c => decide (c ≠ sep) with
    | [] => some (text, [])
    | c :: rest => some ((text.takeWhile fun c => decide (c ≠ sep)) ++ [c], rest)

/-- The lines that are read one after the other, as many as the fuel lets. -/
def readLines (sep : α) : Nat → List α → List (List α)
  | 0, _ => []
  | fuel + 1, text =>
    match nextLine sep text with
    | none => []
    | some (line, rest) => line :: readLines sep fuel rest

theorem decide_ne_of_free {line : List α} (hfree : sep ∉ line) :
    ∀ c ∈ line, decide (c ≠ sep) = true := fun _ hc => decide_eq_true fun heq => hfree (heq ▸ hc)

theorem nextLine_nil : nextLine sep ([] : List α) = none := if_pos rfl

/-- A last line without a separator is read whole. -/
theorem nextLine_last {line : List α} (hne : line ≠ []) (hfree : sep ∉ line) :
    nextLine sep line = some (line, []) := by
  have hdrop : line.dropWhile (fun c => decide (c ≠ sep)) = [] :=
    List.dropWhile_eq_nil_iff.mpr (decide_ne_of_free hfree)
  rw [nextLine, if_neg hne, hdrop]

/-- Any other line is read with its separator. -/
theorem nextLine_cons {line text : List α} (hfree : sep ∉ line) :
    nextLine sep (line ++ sep :: text) = some (line ++ [sep], text) := by
  have hline := decide_ne_of_free hfree
  have hdrop : (line ++ sep :: text).dropWhile (fun c => decide (c ≠ sep)) = sep :: text := by
    rw [List.dropWhile_append_of_pos hline]
    simp
  have htake : (line ++ sep :: text).takeWhile (fun c => decide (c ≠ sep)) = line := by
    rw [List.takeWhile_append_of_pos hline]
    simp
  rw [nextLine, if_neg (by simp), hdrop, htake]

/-- **What is read are the lines**, each with its separator or without one, when the fuel is the length of
the text or more. -/
theorem readLines_lines {ls : List (List α)} {text : List α} (h : Lines sep ls text) :
    ∀ {fuel : Nat}, text.length ≤ fuel →
      List.Forall₂ (fun read line => read = line ∨ read = line ++ [sep]) (readLines sep fuel text) ls := by
  induction h with
  | nil =>
    intro fuel _
    cases fuel with
    | zero => exact .nil
    | succ fuel =>
      rw [readLines, nextLine_nil]
      exact .nil
  | @last line hne hfree =>
    intro fuel hfuel
    cases fuel with
    | zero => exact absurd (List.length_eq_zero_iff.mp (Nat.le_zero.mp hfuel)) hne
    | succ fuel =>
      have hrest : readLines sep fuel ([] : List α) = [] := by
        cases fuel with
        | zero => rfl
        | succ fuel => rw [readLines, nextLine_nil]
      rw [readLines, nextLine_last hne hfree]
      simp only [hrest]
      exact .cons (Or.inl rfl) .nil
  | @cons line text ls hfree _ ih =>
    intro fuel hfuel
    rw [List.length_append, List.length_cons] at hfuel
    cases fuel with
    | zero => omega
    | succ fuel =>
      rw [readLines, nextLine_cons hfree]
      exact .cons (Or.inr rfl) (ih (by omega))

end Lines

end Tpso.Lib
