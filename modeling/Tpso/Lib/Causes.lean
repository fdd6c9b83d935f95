/-
# One cause for everybody who waits

Items wait, and what each waits for is written down somewhere else: in a queue, in a mark, in a thread
that waits for an answer.  `holds a i` says that `a` is written down as a cause for the item `i`.

`OneCause holds waits` says that the two agree: exactly the items that have a cause wait, and none has
two.  An item starts to wait with one cause (`OneCause.begin`), passes from one cause to the next
(`OneCause.pass`) and stops waiting when its cause is gone (`OneCause.finish`).  Nobody may drop a cause
without waking the item, or wake the item and forget its cause.
-/
import Mathlib

namespace Tpso.Lib

section Causes

variable {κ ι : Type} {holds holds' : κ → ι → Prop} {waits waits' : ι → Prop}

/-- **Whoever waits has one cause**, and nobody else has any. -/
structure OneCause (holds : κ → ι → Prop) (waits : ι → Prop) : Prop where
  waits_iff : ∀ i, waits i ↔ ∃ a, holds a i
  unique : ∀ a b i, holds a i → holds b i → a = b

theorem OneCause.waits_of (h : OneCause holds waits) {a : κ} {i : ι} (ha : holds a i) : waits i :=
  (h.waits_iff i).mpr ⟨a, ha⟩

/-- Items with different causes are different. -/
theorem OneCause.ne_of_ne (h : OneCause holds waits) {a b : κ} {i j : ι} (ha : holds a i) (hb : holds b j)
    (hne : b ≠ a) : j ≠ i := by
  rintro rfl
  exact hne (h.unique b a j hb ha)

theorem OneCause.congr (h : OneCause holds waits) (hh : ∀ a i, holds' a i ↔ holds a i)
    (hw : ∀ i, waits' i ↔ waits i) : OneCause holds' waits' where
  waits_iff i := by simp only [hw, hh, h.waits_iff]
  unique a b i ha hb := h.unique a b i ((hh a i).mp ha) ((hh b i).mp hb)

/-- **An item starts to wait**, with one cause. -/
theorem OneCause.begin (h : OneCause holds waits) {a : κ} {i : ι} (hi : ¬ waits i)
    (hh : ∀ b j, holds' b j ↔ holds b j ∨ (b = a ∧ j = i)) (hw : ∀ j, waits' j ↔ waits j ∨ j = i) :
    OneCause holds' waits' where
  waits_iff j := by
    rw [hw]
    constructor
    · rintro (hj | rfl)
      · obtain ⟨b, hb⟩ := (h.waits_iff j).mp hj
        exact ⟨b, (hh b j).mpr (Or.inl hb)⟩
      · exact ⟨a, (hh a j).mpr (Or.inr ⟨rfl, rfl⟩)⟩
    · rintro ⟨b, hb⟩
      exact ((hh b j).mp hb).imp h.waits_of And.right
  unique b c j hb hc := by
    rcases (hh b j).mp hb with hb | ⟨rfl, rfl⟩
    · rcases (hh c j).mp hc with hc | ⟨-, rfl⟩
      · exact h.unique b c j hb hc
      · exact absurd (h.waits_of hb) hi
    · rcases (hh c j).mp hc with hc | ⟨rfl, -⟩
      · exact absurd (h.waits_of hc) hi
      · rfl

/-- **An item passes from one cause to another** and goes on waiting. -/
theorem OneCause.pass (h : OneCause holds waits) {a b : κ} {i : ι} (hi : holds a i)
    (hh : ∀ c j, holds' c j ↔ (holds c j ∧ j ≠ i) ∨ (c = b ∧ j = i)) (hw : ∀ j, waits' j ↔ waits j) :
    OneCause holds' waits' where
  waits_iff j := by
    rw [hw]
    constructor
    · intro hj
      obtain ⟨c, hc⟩ := (h.waits_iff j).mp hj
      by_cases hne : j = i
      · exact ⟨b, (hh b j).mpr (Or.inr ⟨rfl, hne⟩)⟩
      · exact ⟨c, (hh c j).mpr (Or.inl ⟨hc, hne⟩)⟩
    · rintro ⟨c, hc⟩
      rcases (hh c j).mp hc with ⟨hc, -⟩ | ⟨-, rfl⟩
      · exact h.waits_of hc
      · exact h.waits_of hi
  unique c d j hc hd := by
    rcases (hh c j).mp hc with ⟨hc, hne⟩ | ⟨rfl, rfl⟩
    · rcases (hh d j).mp hd with ⟨hd, -⟩ | ⟨-, heq⟩
      · exact h.unique c d j hc hd
      · exact absurd heq hne
    · rcases (hh d j).mp hd with ⟨-, hne⟩ | ⟨rfl, -⟩
      · exact absurd rfl hne
      · rfl

/-- **An item stops waiting**, and its cause is gone. -/
theorem OneCause.finish (h : OneCause holds waits) {i : ι} (hh : ∀ b j, holds' b j ↔ holds b j ∧ j ≠ i)
    (hw : ∀ j, waits' j ↔ waits j ∧ j ≠ i) : OneCause holds' waits' where
  waits_iff j := by
    rw [hw, h.waits_iff]
    exact ⟨fun ⟨⟨b, hb⟩, hne⟩ => ⟨b, (hh b j).mpr ⟨hb, hne⟩⟩,
      fun ⟨b, hb⟩ => ⟨⟨b, ((hh b j).mp hb).1⟩, ((hh b j).mp hb).2⟩⟩
  unique b c j hb hc := h.unique b c j ((hh b j).mp hb).1 ((hh c j).mp hc).1

end Causes

end Tpso.Lib
