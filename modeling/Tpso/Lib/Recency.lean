/-
# The ages of what a store keeps

A store keeps some keys and, when it is full, gives one up for another.  Two lists record how old the keys
are, the oldest first: `arrivals` in the order in which they came in, `lastUses` in the order in which they were
last used.  Both are computed from the key that is used and from what is kept after it, whatever the store
does to choose.

A store that replaces round a pointer keeps its slots in order of arrival, turned by the pointer
(`rotate_set`).  One that stamps what it uses keeps them in order of use, sorted by the stamps
(`Stamped`).
-/
import Mathlib

namespace Tpso.Lib

section Order

variable {K : Type} [DecidableEq K]

/-! ## 1. Arrivals -/

/-- The order of arrival of the keys, after `k` was used and `present` is what is kept. -/
def arrivals (order present : List K) (k : K) : List K :=
  order.filter (fun x => decide (x ∈ present)) ++ if k ∈ order then [] else [k]

/-- The order of the last uses. -/
def lastUses (order present : List K) (k : K) : List K :=
  order.filter (fun x => decide (x ∈ present ∧ x ≠ k)) ++ [k]

variable {order present : List K} {k : K}

/-- Nothing comes in and nothing goes. -/
theorem arrivals_hit (hall : ∀ x ∈ order, x ∈ present) (hk : k ∈ order) :
    arrivals order present k = order := by
  rw [arrivals, if_pos hk, List.append_nil, List.filter_eq_self]
  exact fun x hx => decide_eq_true (hall x hx)

/-- A key comes in and nothing goes. -/
theorem arrivals_grow (hall : ∀ x ∈ order, x ∈ present) (hk : k ∉ order) :
    arrivals order present k = order ++ [k] := by
  rw [arrivals, if_neg hk, List.filter_eq_self.mpr]
  exact fun x hx => decide_eq_true (hall x hx)

/-- The oldest key goes and another comes in. -/
theorem arrivals_replace {v : K} {rest : List K} (hv : v ∉ present) (hall : ∀ x ∈ rest, x ∈ present)
    (hk : k ∉ v :: rest) : arrivals (v :: rest) present k = rest ++ [k] := by
  rw [arrivals, if_neg hk, List.filter_cons_of_neg (by simpa using hv), List.filter_eq_self.mpr]
  exact fun x hx => decide_eq_true (hall x hx)

/-- A key comes in, and is the latest. -/
theorem lastUses_grow (hall : ∀ x ∈ order, x ∈ present) (hk : k ∉ order) :
    lastUses order present k = order ++ [k] := by
  rw [lastUses, List.filter_eq_self.mpr]
  intro x hx
  rw [decide_eq_true_eq]
  refine ⟨hall x hx, ?_⟩
  rintro rfl
  exact hk hx

/-- A key is used again, or comes in for another: `v` leaves its place in the order. -/
theorem lastUses_renew {v : K} (hv : ∀ x ∈ order, (x ∈ present ∧ x ≠ k) ↔ x ≠ v) :
    lastUses order present k = (order.filter fun x => decide (x ≠ v)) ++ [k] := by
  unfold lastUses
  congr 1
  exact List.filter_congr fun x hx => decide_eq_decide.mpr (hv x hx)

end Order

/-! ## 2. Slots round a pointer -/

section Rotate

variable {α : Type}

/-- **The slot under the pointer is replaced**, and the pointer moves on: of the turned list the first goes,
and the new one comes last. -/
theorem rotate_set {l : List α} {p : Nat} (hp : p < l.length) (x : α) :
    (l.set p x).rotate (p + 1) = (l.rotate p).tail ++ [x] := by
  have hlen : (l.set p x).length = l.length := List.length_set
  have hdrop : l.drop p = l[p] :: l.drop (p + 1) := List.drop_eq_getElem_cons hp
  rw [List.rotate_eq_drop_append_take (by omega), List.rotate_eq_drop_append_take hp.le,
    List.drop_set_of_lt (Nat.lt_succ_self p), List.take_add_one, List.take_set_of_le (le_refl p),
    List.getElem?_set_self hp, hdrop, List.cons_append, List.tail_cons, List.append_assoc]
  rfl

/-- What goes when a slot is replaced by something new. -/
theorem getElem?_of_replaced {l : List α} {i : Nat} {x k : α} (hk : k ∈ l) (hgone : k ∉ l.set i x) :
    l[i]? = some k := by
  obtain ⟨j, hj⟩ := List.getElem?_of_mem hk
  by_cases hij : i = j
  · exact hij ▸ hj
  · have hkept : (l.set i x)[j]? = some k := by rw [List.getElem?_set_ne hij, hj]
    exact absurd (List.mem_of_getElem? hkept) hgone

/-- What is still there when a slot is replaced. -/
theorem mem_set_of_ne {l : List α} {i : Nat} {x k v : α} (hv : l[i]? = some v) (hk : k ∈ l)
    (hne : k ≠ v) : k ∈ l.set i x := by
  obtain ⟨j, hj⟩ := List.getElem?_of_mem hk
  have hij : i ≠ j := by
    rintro rfl
    exact hne (Option.some.inj (hj.symm.trans hv))
  exact List.mem_of_getElem? (by rw [List.getElem?_set_ne hij, hj])

/-- What was in a slot that is replaced by something else is gone. -/
theorem not_mem_set_of_nodup {l : List α} (hl : l.Nodup) {i : Nat} {x v : α} (hv : l[i]? = some v)
    (hne : v ≠ x) : v ∉ l.set i x := by
  intro hmem
  obtain ⟨j, hj⟩ := List.getElem?_of_mem hmem
  by_cases hij : i = j
  · subst hij
    rw [List.getElem?_set_self (List.getElem?_eq_some_iff.mp hv).1] at hj
    exact hne (Option.some.inj hj).symm
  · rw [List.getElem?_set_ne hij] at hj
    obtain ⟨hi, hvi⟩ := List.getElem?_eq_some_iff.mp hv
    obtain ⟨hj', hvj⟩ := List.getElem?_eq_some_iff.mp hj
    exact hij ((hl.getElem_inj_iff).mp (hvi.trans hvj.symm))

/-- Something new in one slot keeps the slots distinct. -/
theorem nodup_set {l : List α} (hl : l.Nodup) {i : Nat} {x : α} (hx : x ∉ l) : (l.set i x).Nodup := by
  rcases Nat.lt_or_ge i l.length with hi | hi
  · rw [List.set_eq_take_append_cons_drop, if_pos hi]
    have hsplit : (l.take i ++ l[i] :: l.drop (i + 1)).Nodup := by
      rwa [List.getElem_cons_drop, List.take_append_drop]
    refine (List.perm_middle.nodup_iff).mpr (List.nodup_cons.mpr ⟨?_, ?_⟩)
    · intro hmem
      rcases List.mem_append.mp hmem with h | h
      · exact hx (List.mem_of_mem_take h)
      · exact hx (List.mem_of_mem_drop h)
    · exact (List.nodup_cons.mp ((List.perm_middle.nodup_iff).mp hsplit)).2
  · rwa [List.set_eq_of_length_le hi]

/-- Once around is not to turn at all. -/
theorem rotate_mod_length {l : List α} {n : Nat} (hn : l.length = n) (p : Nat) :
    l.rotate (p % n) = l.rotate p := by
  rw [← hn, List.rotate_mod]

end Rotate

/-! ## 3. Stamped slots -/

section Stamps

variable {K α : Type} {key : α → K} {stamp : α → Nat} {entries : List α}
  {order : List K}

/-- The keys of the entries, in the order of their stamps. -/
def Stamped (key : α → K) (stamp : α → Nat) (entries : List α) (order : List K) : Prop :=
  ∃ sorted : List α, sorted.Perm entries ∧ sorted.Pairwise (fun a b => stamp a < stamp b) ∧
    order = sorted.map key

theorem Stamped.nil (key : α → K) (stamp : α → Nat) : Stamped key stamp [] [] :=
  ⟨[], List.Perm.refl _, List.Pairwise.nil, rfl⟩

/-- The order lists the keys of the entries. -/
theorem Stamped.perm (h : Stamped key stamp entries order) : order.Perm (entries.map key) := by
  obtain ⟨sorted, hperm, -, rfl⟩ := h
  exact hperm.map key

/-- **The entry with the least stamp is the oldest.** -/
theorem Stamped.head (h : Stamped key stamp entries order) {e : α} (he : e ∈ entries)
    (hmin : ∀ x ∈ entries, stamp e ≤ stamp x) : order.head? = some (key e) := by
  obtain ⟨sorted, hperm, hsorted, rfl⟩ := h
  cases sorted with
  | nil => exact absurd (hperm.mem_iff.mpr he) (by simp)
  | cons first rest =>
    rcases List.mem_cons.mp (hperm.mem_iff.mpr he) with rfl | hrest
    · rfl
    · have hlt := (List.pairwise_cons.mp hsorted).1 e hrest
      have hle := hmin first (hperm.mem_iff.mp List.mem_cons_self)
      omega

/-- An entry comes in with the latest stamp. -/
theorem Stamped.grow (h : Stamped key stamp entries order) {e : α}
    (hlast : ∀ x ∈ entries, stamp x < stamp e) :
    Stamped key stamp (entries ++ [e]) (order ++ [key e]) := by
  obtain ⟨sorted, hperm, hsorted, rfl⟩ := h
  refine ⟨sorted ++ [e], hperm.append_right [e], ?_, by simp⟩
  refine List.pairwise_append.mpr ⟨hsorted, List.pairwise_singleton _ _, ?_⟩
  intro a ha b hb
  rw [List.mem_singleton.mp hb]
  exact hlast a (hperm.mem_iff.mp ha)

/-- An entry goes. -/
theorem Stamped.remove [DecidableEq K] {before after : List α} {v : α}
    (h : Stamped key stamp (before ++ v :: after) order)
    (hkeys : ((before ++ v :: after).map key).Nodup) :
    Stamped key stamp (before ++ after) (order.filter fun x => decide (x ≠ key v)) := by
  obtain ⟨sorted, hperm, hsorted, rfl⟩ := h
  -- the keys are distinct, so that to drop the key is to drop the entry
  have hrest : ∀ x ∈ before ++ after, key x ≠ key v := by
    have hmiddle := (@List.perm_middle _ v before after).map key
    have hnodup := hmiddle.nodup_iff.mp hkeys
    rw [List.map_cons, List.nodup_cons] at hnodup
    exact fun x hx heq => hnodup.1 (List.mem_map.mpr ⟨x, hx, heq⟩)
  refine ⟨sorted.filter fun x => decide (key x ≠ key v), ?_, hsorted.filter _, ?_⟩
  · have hfiltered := (hperm.trans List.perm_middle).filter fun x => decide (key x ≠ key v)
    rwa [List.filter_cons_of_neg (by simp),
      List.filter_eq_self.mpr (fun x hx => decide_eq_true (hrest x hx))] at hfiltered
  · rw [List.filter_map]
    rfl

/-- **An entry is renewed**, or replaced by another, with the latest stamp. -/
theorem Stamped.renew [DecidableEq K] (h : Stamped key stamp entries order) (hkeys : (entries.map key).Nodup) {i : Nat}
    {v e : α} (hv : entries[i]? = some v) (hlast : ∀ x ∈ entries, stamp x < stamp e) :
    Stamped key stamp (entries.set i e) ((order.filter fun x => decide (x ≠ key v)) ++ [key e]) := by
  obtain ⟨hi, hget⟩ := List.getElem?_eq_some_iff.mp hv
  have hsplit : entries = entries.take i ++ v :: entries.drop (i + 1) := by
    rw [← hget, List.getElem_cons_drop, List.take_append_drop]
  have hset : entries.set i e = entries.take i ++ e :: entries.drop (i + 1) := by
    rw [List.set_eq_take_append_cons_drop, if_pos hi]
  rw [hsplit] at h hkeys
  have hremoved := h.remove hkeys
  have hgrown := hremoved.grow (e := e) fun x hx => hlast x (by
    rw [hsplit]
    rcases List.mem_append.mp hx with hx | hx
    · exact List.mem_append_left _ hx
    · exact List.mem_append_right _ (List.mem_cons_of_mem _ hx))
  obtain ⟨sorted, hperm, hsorted, heq⟩ := hgrown
  refine ⟨sorted, hperm.trans ?_, hsorted, heq⟩
  rw [hset]
  exact ((List.perm_append_singleton e _).trans List.perm_middle.symm)

end Stamps

end Tpso.Lib
