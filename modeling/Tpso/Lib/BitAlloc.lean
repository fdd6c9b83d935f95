/-
# A first-fit allocator over a bitmap, and the ledger of who holds what

A fixed number of slots, one bit a slot (`true` = taken), and a free count that is kept apart from
the bits.  `alloc` scans upwards from slot 0 and takes the first clear slots; `release` clears the
bits of a list.

Neither operation looks at who owns a slot: that the two copies of the same information (bits and
count) stay in step, and that no slot is handed out twice, depends on what the callers release.
The LEDGER `Owns a o` states it once: `o` lists every slot that is taken, each once.  An allocation
extends the ledger (`Owns.alloc`) and a release of slots on the ledger shortens it
(`Owns.release`); a release by somebody who holds nothing destroys it
(`Owns.not_owns_of_release`).
-/
import Mathlib

namespace Tpso.Lib

/-- A bitmap of slots together with its separately kept free count. -/
structure BitAlloc where
  total : Nat
  bit : Nat → Bool
  free : Int

namespace BitAlloc

/-- All slots free. -/
def empty (total : Nat) : BitAlloc := ⟨total, fun _ => false, total⟩

/-- The scan of `alloc`: `r` slots are still to be inspected, the next one is `i`, and `n` more are
wanted.  The loop stops when either runs out. -/
def scan (b : Nat → Bool) : Nat → Nat → Nat → List Nat × (Nat → Bool)
  | 0, _, _ => ([], b)
  | _ + 1, _, 0 => ([], b)
  | r + 1, i, n + 1 =>
    if b i then scan b r (i + 1) (n + 1)
    else
      let rest := scan (Function.update b i true) r (i + 1) n
      (i :: rest.1, rest.2)

/-- Take `m` slots, or nothing at all when the free COUNT says there are not enough.  The list can
still be shorter than `m` when the count is larger than the number of clear bits. -/
def alloc (a : BitAlloc) (m : Int) : Option (List Nat × BitAlloc) :=
  if a.free < m then none
  else
    let r := scan a.bit a.total 0 m.toNat
    some (r.1, { a with bit := r.2, free := a.free - r.1.length })

/-- How many bits the underlying array holds: whole bytes, so possibly a few more than `total`. -/
def capacity (a : BitAlloc) : Nat := 8 * ((a.total + 7) / 8)

/-- Clear the bits of `l` and raise the count by its length.  A bit outside the array is not this
bitmap's memory: the store is out of bounds and the operation has no defined result. -/
def release (a : BitAlloc) (l : List Nat) : Option BitAlloc :=
  if ∀ f ∈ l, f < a.capacity then
    some { a with bit := l.foldl (fun b f => Function.update b f false) a.bit,
                  free := a.free + l.length }
  else none

/-- The clear slots, in increasing order. -/
def clear (a : BitAlloc) : List Nat := (List.range a.total).filter fun f => !a.bit f

/-! ## 1. What the scan finds and sets -/

/-- The scan takes the first clear slots of the range it inspects. -/
theorem scan_fst : ∀ (r : Nat) (b : Nat → Bool) (i n : Nat),
    (scan b r i n).1 = ((List.range' i r).filter fun f => !b f).take n
  | 0, b, i, n => by simp [scan]
  | r + 1, b, i, 0 => by simp [scan]
  | r + 1, b, i, n + 1 => by
    rw [scan, List.range'_succ, List.filter_cons]
    cases hb : b i with
    | true => simpa using scan_fst r b (i + 1) (n + 1)
    | false =>
      have hcongr : ((List.range' (i + 1) r).filter fun f => !Function.update b i true f)
          = (List.range' (i + 1) r).filter fun f => !b f := by
        refine List.filter_congr fun f hf => ?_
        have hne : f ≠ i := by
          have := (List.mem_range'_1.mp hf).1
          omega
        rw [Function.update_of_ne hne]
      simp only [Bool.false_eq_true, ↓reduceIte, Bool.not_false, List.take_succ_cons,
        scan_fst r _ (i + 1) n, hcongr]

/-- The scan sets exactly the bits of the slots it took. -/
theorem scan_snd : ∀ (r : Nat) (b : Nat → Bool) (i n f : Nat),
    (scan b r i n).2 f = (b f || decide (f ∈ (scan b r i n).1))
  | 0, b, i, n, f => by simp [scan]
  | r + 1, b, i, 0, f => by simp [scan]
  | r + 1, b, i, n + 1, f => by
    rw [scan]
    cases hb : b i with
    | true => simpa using scan_snd r b (i + 1) (n + 1) f
    | false =>
      simp only [Bool.false_eq_true, ↓reduceIte, scan_snd r _ (i + 1) n f, List.mem_cons]
      by_cases hfi : f = i
      · simp [hfi]
      · simp [hfi]

theorem mem_clear {a : BitAlloc} {f : Nat} : f ∈ a.clear ↔ f < a.total ∧ a.bit f = false := by
  simp [clear]

theorem nodup_clear (a : BitAlloc) : a.clear.Nodup := List.nodup_range.filter _

/-- **What `alloc` does**: it refuses exactly when the count is too small; otherwise it takes the
lowest clear slots, sets exactly their bits and lowers the count by as many. -/
theorem alloc_eq (a : BitAlloc) (m : Int) :
    a.alloc m = if a.free < m then none
      else some (a.clear.take m.toNat,
        { a with bit := fun f => a.bit f || decide (f ∈ a.clear.take m.toNat),
                 free := a.free - (a.clear.take m.toNat).length }) := by
  have hl : (scan a.bit a.total 0 m.toNat).1 = a.clear.take m.toNat := by
    rw [scan_fst, clear, List.range_eq_range']
  have hb : (scan a.bit a.total 0 m.toNat).2
      = fun f => a.bit f || decide (f ∈ a.clear.take m.toNat) := by
    funext f
    rw [scan_snd, hl]
  simp only [alloc, hl, hb]

/-- Never more slots than were asked for. -/
theorem length_alloc_le {a a' : BitAlloc} {l : List Nat} {m : Nat} (h : a.alloc m = some (l, a')) :
    l.length ≤ m := by
  rw [alloc_eq] at h
  split at h
  · exact absurd h (by simp)
  · obtain ⟨rfl, -⟩ := Prod.mk.inj (Option.some.inj h)
    rw [List.length_take, Int.toNat_natCast]
    exact Nat.min_le_left _ _

theorem foldl_clear_apply : ∀ (l : List Nat) (b : Nat → Bool) (f : Nat),
    l.foldl (fun b f => Function.update b f false) b f = (b f && !decide (f ∈ l))
  | [], b, f => by simp
  | g :: l, b, f => by
    rw [List.foldl_cons, foldl_clear_apply l]
    by_cases hfg : f = g
    · simp [hfg]
    · simp [hfg]

/-- What `release` does, when every bit is inside the array. -/
theorem release_eq {a a' : BitAlloc} {l : List Nat} (h : a.release l = some a') :
    a' = { a with bit := fun f => a.bit f && !decide (f ∈ l), free := a.free + l.length } := by
  unfold release at h
  split at h
  · have hb : l.foldl (fun b f => Function.update b f false) a.bit
        = fun f => a.bit f && !decide (f ∈ l) := funext (foldl_clear_apply l a.bit)
    rw [← Option.some.inj h, hb]
  · exact absurd h (by simp)

theorem lt_capacity_of_lt {a : BitAlloc} {f : Nat} (h : f < a.total) : f < a.capacity := by
  unfold capacity
  omega

/-! ## 2. The ledger -/

/-- **The ledger.**  `o` lists every taken slot once, all of them exist, and the free count is the
number of clear bits. -/
structure Owns (a : BitAlloc) (o : List Nat) : Prop where
  nodup : o.Nodup
  lt_total : ∀ f ∈ o, f < a.total
  bit_iff : ∀ f < a.total, a.bit f = true ↔ f ∈ o
  free_eq : a.free = a.clear.length

theorem owns_empty (total : Nat) : (empty total).Owns [] where
  nodup := List.nodup_nil
  lt_total := by simp
  bit_iff := by simp [empty]
  free_eq := by simp [empty, clear]

/-- A ledger has no order. -/
theorem Owns.perm {a : BitAlloc} {o o' : List Nat} (h : a.Owns o) (hp : o.Perm o') : a.Owns o' where
  nodup := hp.nodup_iff.mp h.nodup
  lt_total f hf := h.lt_total f (hp.mem_iff.mpr hf)
  bit_iff f hf := (h.bit_iff f hf).trans hp.mem_iff
  free_eq := h.free_eq

/-- When the free count can be trusted, a request that is not refused is met in full. -/
theorem length_alloc {a a' : BitAlloc} {l : List Nat} {m : Int} (h : a.free = a.clear.length)
    (ha : a.alloc m = some (l, a')) : l.length = m.toNat := by
  rw [alloc_eq] at ha
  split at ha
  · exact absurd ha (by simp)
  · obtain ⟨rfl, -⟩ := Prod.mk.inj (Option.some.inj ha)
    rw [List.length_take]
    omega

/-- With a ledger it can. -/
theorem Owns.alloc_length {a a' : BitAlloc} {o l : List Nat} {m : Int} (h : a.Owns o)
    (ha : a.alloc m = some (l, a')) : l.length = m.toNat := length_alloc h.free_eq ha

theorem alloc_total {a a' : BitAlloc} {l : List Nat} {m : Int} (h : a.alloc m = some (l, a')) :
    a'.total = a.total := by
  rw [alloc_eq] at h
  split at h
  · exact absurd h (by simp)
  · rw [← (Prod.mk.inj (Option.some.inj h)).2]

theorem release_total {a a' : BitAlloc} {l : List Nat} (h : a.release l = some a') :
    a'.total = a.total := by
  rw [release_eq h]

/-- What an allocation hands out was clear, is there once, and is taken afterwards. -/
theorem alloc_slots {a a' : BitAlloc} {l : List Nat} {m : Int} (ha : a.alloc m = some (l, a')) :
    l.Nodup ∧ ∀ f ∈ l, f < a.total ∧ a.bit f = false ∧ a'.bit f = true := by
  rw [alloc_eq] at ha
  split at ha
  · exact absurd ha (by simp)
  · obtain ⟨rfl, rfl⟩ := Prod.mk.inj (Option.some.inj ha)
    refine ⟨(nodup_clear a).sublist (List.take_sublist _ _), ?_⟩
    intro f hf
    obtain ⟨hlt, hbit⟩ := mem_clear.mp (List.mem_of_mem_take hf)
    exact ⟨hlt, hbit, by simp [hf]⟩

/-- After an allocation that came out short none can be met in full: no slot is clear any more. -/
theorem alloc_short {a a' a'' : BitAlloc} {l l' : List Nat} {m : Int} (ha : a.alloc m = some (l, a'))
    (hlen : (l.length : Int) ≠ m) (ha' : a'.alloc m = some (l', a'')) : (l'.length : Int) ≠ m := by
  have hslots := (alloc_slots ha').2
  rw [alloc_eq] at ha
  split at ha
  · exact absurd ha (by simp)
  · obtain ⟨rfl, rfl⟩ := Prod.mk.inj (Option.some.inj ha)
    intro hfull
    rw [List.length_take] at hlen
    have hall : a.clear.take m.toNat = a.clear := List.take_of_length_le (by omega)
    -- a slot that is clear now was clear before, and is among those taken
    have hnil : l' = [] := by
      rw [List.eq_nil_iff_forall_not_mem]
      intro f hf
      obtain ⟨hlt, hbit, -⟩ := hslots f hf
      simp only [hall, Bool.or_eq_false_iff, decide_eq_false_iff_not] at hbit
      exact hbit.2 (mem_clear.mpr ⟨hlt, hbit.1⟩)
    rw [hnil, List.length_nil] at hfull
    omega

/-- **A release undoes the allocation.** -/
theorem release_alloc {a a' : BitAlloc} {l : List Nat} {m : Int} (ha : a.alloc m = some (l, a')) :
    a'.release l = some a := by
  have hslots := (alloc_slots ha).2
  rw [alloc_eq] at ha
  split at ha
  · exact absurd ha (by simp)
  · obtain ⟨rfl, rfl⟩ := Prod.mk.inj (Option.some.inj ha)
    obtain ⟨a'', hr⟩ : ∃ a'', release { a with
        bit := fun f => a.bit f || decide (f ∈ a.clear.take m.toNat)
        free := a.free - (a.clear.take m.toNat).length } (a.clear.take m.toNat) = some a'' :=
      ⟨_, if_pos fun f hf => lt_capacity_of_lt (hslots f hf).1⟩
    have hbit : (fun f => (a.bit f || decide (f ∈ a.clear.take m.toNat)) &&
        !decide (f ∈ a.clear.take m.toNat)) = a.bit := by
      funext f
      by_cases hf : f ∈ a.clear.take m.toNat
      · simp [hf, (hslots f hf).2.1]
      · simp [hf]
    rw [hr, release_eq hr]
    simp only [hbit, sub_add_cancel]

/-- **An allocation extends the ledger** by the slots it hands out, none of which was on it. -/
theorem Owns.alloc {a a' : BitAlloc} {o l : List Nat} {m : Int} (h : a.Owns o)
    (ha : a.alloc m = some (l, a')) : a'.Owns (l ++ o) ∧ a'.total = a.total := by
  rw [alloc_eq] at ha
  split at ha
  · exact absurd ha (by simp)
  obtain ⟨rfl, rfl⟩ := Prod.mk.inj (Option.some.inj ha)
  have hsub : ∀ f ∈ a.clear.take m.toNat, f < a.total ∧ a.bit f = false := fun f hf =>
    mem_clear.mp (List.mem_of_mem_take hf)
  have hnd : (a.clear.take m.toNat).Nodup := (nodup_clear a).sublist (List.take_sublist _ _)
  -- the old clear slots are the new ones together with those just taken
  have hperm : a.clear.Perm (a.clear.take m.toNat ++
      clear { a with bit := fun f => a.bit f || decide (f ∈ a.clear.take m.toNat),
                     free := a.free - (a.clear.take m.toNat).length }) := by
    refine (List.perm_ext_iff_of_nodup (nodup_clear a) ?_).mpr ?_
    · refine List.nodup_append.mpr ⟨hnd, nodup_clear _, ?_⟩
      rintro f hf g hg rfl
      have := (mem_clear.mp hg).2
      simp [hf] at this
    · intro f
      simp only [List.mem_append, mem_clear, Bool.or_eq_false_iff, decide_eq_false_iff_not]
      constructor
      · rintro ⟨h1, h2⟩
        by_cases hf : f ∈ a.clear.take m.toNat
        · exact Or.inl hf
        · exact Or.inr ⟨h1, h2, hf⟩
      · rintro (hf | ⟨h1, h2, -⟩)
        · exact hsub f hf
        · exact ⟨h1, h2⟩
  refine ⟨⟨?_, ?_, ?_, ?_⟩, rfl⟩
  · refine List.nodup_append.mpr ⟨hnd, h.nodup, ?_⟩
    rintro f hf g hg rfl
    have hb := hsub f hf
    rw [(h.bit_iff f hb.1).mpr hg] at hb
    exact absurd hb.2 (by simp)
  · intro f hf
    rcases List.mem_append.mp hf with hf | hf
    · exact (hsub f hf).1
    · exact h.lt_total f hf
  · intro f hf
    simp only [Bool.or_eq_true, decide_eq_true_eq, List.mem_append, h.bit_iff f hf]
    exact or_comm
  · have hlen := hperm.length_eq
    rw [List.length_append] at hlen
    have := h.free_eq
    simp only at *
    omega

/-- The bits after a release of slots that were taken: the clear slots are the old ones and the
released ones. -/
theorem clear_release_perm {a : BitAlloc} {l : List Nat} (hnd : l.Nodup)
    (hl : ∀ f ∈ l, f < a.total ∧ a.bit f = true) (n : Int) :
    (clear { a with bit := fun f => a.bit f && !decide (f ∈ l), free := n }).Perm
      (l ++ a.clear) := by
  refine (List.perm_ext_iff_of_nodup (nodup_clear _) ?_).mpr ?_
  · refine List.nodup_append.mpr ⟨hnd, nodup_clear a, ?_⟩
    rintro f hf g hg rfl
    have := (mem_clear.mp hg).2
    rw [(hl f hf).2] at this
    exact absurd this (by simp)
  · intro f
    simp only [List.mem_append, mem_clear, Bool.and_eq_false_iff, Bool.not_eq_false',
      decide_eq_true_eq]
    constructor
    · rintro ⟨h1, h2 | h2⟩
      · exact Or.inr ⟨h1, h2⟩
      · exact Or.inl h2
    · rintro (hf | ⟨h1, h2⟩)
      · exact ⟨(hl f hf).1, Or.inr hf⟩
      · exact ⟨h1, Or.inl h2⟩

/-- **A release of slots on the ledger shortens it** by exactly those. -/
theorem Owns.release {a a' : BitAlloc} {o l : List Nat} (h : a.Owns (l ++ o))
    (ha : a.release l = some a') : a'.Owns o ∧ a'.total = a.total := by
  obtain ⟨hnl, hno, hdis⟩ := List.nodup_append.mp h.nodup
  have hl : ∀ f ∈ l, f < a.total ∧ a.bit f = true := fun f hf =>
    have hlt := h.lt_total f (List.mem_append_left _ hf)
    ⟨hlt, (h.bit_iff f hlt).mpr (List.mem_append_left _ hf)⟩
  rw [release_eq ha]
  refine ⟨⟨hno, fun f hf => h.lt_total f (List.mem_append_right _ hf), ?_, ?_⟩, rfl⟩
  · intro f hf
    simp only [Bool.and_eq_true, Bool.not_eq_true', decide_eq_false_iff_not, h.bit_iff f hf,
      List.mem_append]
    constructor
    · rintro ⟨hm | hm, hn⟩
      · exact absurd hm hn
      · exact hm
    · intro hm
      exact ⟨Or.inr hm, fun hc => hdis f hc f hm rfl⟩
  · have hlen := (clear_release_perm hnl hl (a.free + l.length)).length_eq
    rw [List.length_append] at hlen
    have := h.free_eq
    rw [hlen]
    push_cast
    omega

/-- **Releasing slots that the release does not take off the ledger destroys it**: no list can be
the ledger afterwards if it still has all of the old entries.  Either a released slot was clear, and
the count now exceeds the clear bits, or it was taken, and its owner's bit is gone. -/
theorem Owns.not_owns_of_release {a a' : BitAlloc} {o l : List Nat} (h : a.Owns o)
    (ha : a.release l = some a') (hne : l ≠ []) : ¬ a'.Owns o := by
  rw [release_eq ha]
  intro h'
  -- no released slot can have been on the ledger: its bit is clear now
  have hout : ∀ f ∈ l, f ∉ o := by
    intro f hf hfo
    have := (h'.bit_iff f (h.lt_total f hfo)).mpr hfo
    simp [hf] at this
  -- so the clear slots are the same as before, and the count has grown
  have hclear : clear { a with bit := fun f => a.bit f && !decide (f ∈ l),
                               free := a.free + l.length } = a.clear := by
    refine List.filter_congr fun f hf => ?_
    have hlt : f < a.total := List.mem_range.mp hf
    by_cases hfl : f ∈ l
    · have hb : a.bit f = false := by
        rw [Bool.eq_false_iff]
        exact fun hc => hout f hfl ((h.bit_iff f hlt).mp hc)
      simp [hb]
    · simp [hfl]
  have hfree := h'.free_eq
  rw [hclear] at hfree
  have hold := h.free_eq
  have hpos : 0 < l.length := List.length_pos_iff.mpr hne
  simp only at hfree
  omega

/-! ## 3. A part of a ledger -/

/-- The slots of `o` exist, are there once, and are taken; other slots may be taken too, and the free
count is not looked at. -/
structure Holds (a : BitAlloc) (o : List Nat) : Prop where
  nodup : o.Nodup
  lt_total : ∀ f ∈ o, f < a.total
  taken : ∀ f ∈ o, a.bit f = true

theorem Owns.holds {a : BitAlloc} {o : List Nat} (h : a.Owns o) : a.Holds o where
  nodup := h.nodup
  lt_total := h.lt_total
  taken f hf := (h.bit_iff f (h.lt_total f hf)).mpr hf

theorem Holds.perm {a : BitAlloc} {o o' : List Nat} (h : a.Holds o) (hp : o.Perm o') : a.Holds o' where
  nodup := hp.nodup_iff.mp h.nodup
  lt_total f hf := h.lt_total f (hp.mem_iff.mpr hf)
  taken f hf := h.taken f (hp.mem_iff.mpr hf)

theorem Holds.sublist {a : BitAlloc} {o o' : List Nat} (h : a.Holds o) (hs : o'.Sublist o) :
    a.Holds o' where
  nodup := h.nodup.sublist hs
  lt_total f hf := h.lt_total f (hs.subset hf)
  taken f hf := h.taken f (hs.subset hf)

/-- What an allocation hands out is not on the list. -/
theorem Holds.fresh {a a' : BitAlloc} {o l : List Nat} {m : Int} (h : a.Holds o)
    (ha : a.alloc m = some (l, a')) {f : Nat} (hf : f ∈ l) : f ∉ o := by
  intro hfo
  have hclear := ((alloc_slots ha).2 f hf).2.1
  rw [h.taken f hfo] at hclear
  exact absurd hclear (by simp)

theorem Holds.alloc {a a' : BitAlloc} {o l : List Nat} {m : Int} (h : a.Holds o)
    (ha : a.alloc m = some (l, a')) : a'.Holds (l ++ o) := by
  obtain ⟨hnd, hslots⟩ := alloc_slots ha
  have hbit : ∀ f, a.bit f = true → a'.bit f = true := by
    intro f hf
    rw [alloc_eq] at ha
    split at ha
    · exact absurd ha (by simp)
    · rw [← (Prod.mk.inj (Option.some.inj ha)).2]
      simp [hf]
  constructor
  · refine List.nodup_append.mpr ⟨hnd, h.nodup, ?_⟩
    rintro f hf g hg rfl
    exact h.fresh ha hf hg
  · intro f hf
    rw [alloc_total ha]
    rcases List.mem_append.mp hf with hf | hf
    · exact (hslots f hf).1
    · exact h.lt_total f hf
  · intro f hf
    rcases List.mem_append.mp hf with hf | hf
    · exact (hslots f hf).2.2
    · exact hbit f (h.taken f hf)

/-- A release of some of the slots leaves the others. -/
theorem Holds.release {a a' : BitAlloc} {o l : List Nat} (h : a.Holds (l ++ o))
    (hr : a.release l = some a') : a'.Holds o := by
  obtain ⟨-, hnd, hdisjoint⟩ := List.nodup_append.mp h.nodup
  constructor
  · exact hnd
  · intro f hf
    rw [release_total hr]
    exact h.lt_total f (List.mem_append_right l hf)
  · intro f hf
    have hnot : f ∉ l := fun hl => hdisjoint f hl f hf rfl
    rw [release_eq hr]
    simp [h.taken f (List.mem_append_right l hf), hnot]

/-! ## 4. The specification of the two operations -/

/-- `l` are the slots that a request for `m` is met with and `a'` is the allocator afterwards: as many as were
asked for, the lowest clear ones in increasing order; exactly their bits are set and the count is right. -/
structure TakesLowest (a : BitAlloc) (m : Int) (l : List Nat) (a' : BitAlloc) : Prop where
  length : (l.length : Int) = max m 0
  increasing : l.Pairwise (· < ·)
  clear : ∀ f ∈ l, f < a.total ∧ a.bit f = false
  lowest : ∀ f ∈ l, ∀ g < f, a.bit g = false → g ∈ l
  total : a'.total = a.total
  bit : ∀ f, a'.bit f = (a.bit f || decide (f ∈ l))
  counted : a'.free = a'.clear.length

/-- `l` are slots that were taken, and `a'` is the allocator afterwards: exactly their bits are cleared and
the count is right. -/
structure ClearsExactly (a : BitAlloc) (l : List Nat) (a' : BitAlloc) : Prop where
  taken : ∀ f ∈ l, f < a.total ∧ a.bit f = true
  total : a'.total = a.total
  bit : ∀ f, a'.bit f = (a.bit f && !decide (f ∈ l))
  counted : a'.free = a'.clear.length

/-- A request is refused exactly when it exceeds the count. -/
theorem alloc_eq_none_iff {a : BitAlloc} {m : Int} : a.alloc m = none ↔ a.free < m := by
  rw [alloc_eq]
  split
  · rename_i hlt
    exact iff_of_true rfl hlt
  · rename_i hle
    exact iff_of_false (by simp) hle

theorem pairwise_clear (a : BitAlloc) : a.clear.Pairwise (· < ·) := List.pairwise_lt_range.filter _

/-- The first elements of an increasing list are its least. -/
theorem mem_take_of_lt {l : List Nat} (hl : l.Pairwise (· < ·)) {k f g : Nat} (hf : f ∈ l.take k)
    (hg : g ∈ l) (hlt : g < f) : g ∈ l.take k := by
  rw [← List.take_append_drop k l] at hl hg
  rcases List.mem_append.mp hg with hg | hg
  · exact hg
  · exact absurd hlt (not_lt.mpr ((List.pairwise_append.mp hl).2.2 f hf g hg).le)

/-- When the count is right, the taken slots are a ledger. -/
theorem owns_taken {a : BitAlloc} (h : a.free = a.clear.length) :
    a.Owns ((List.range a.total).filter a.bit) where
  nodup := List.nodup_range.filter _
  lt_total f hf := List.mem_range.mp (List.mem_filter.mp hf).1
  bit_iff f hf := by simp [hf]
  free_eq := h

/-- A ledger and the free slots make up the whole. -/
theorem Owns.length_add_free {a : BitAlloc} {o : List Nat} (h : a.Owns o) :
    o.length + a.free = a.total := by
  have hperm : o.Perm ((List.range a.total).filter a.bit) := by
    refine (List.perm_ext_iff_of_nodup h.nodup (List.nodup_range.filter _)).mpr ?_
    intro f
    rw [List.mem_filter, List.mem_range]
    exact ⟨fun hf => ⟨h.lt_total f hf, (h.bit_iff f (h.lt_total f hf)).mpr hf⟩,
      fun hf => (h.bit_iff f hf.1).mp hf.2⟩
  have hsplit := List.length_eq_length_filter_add (l := List.range a.total) a.bit
  rw [List.length_range] at hsplit
  rw [hperm.length_eq, h.free_eq, clear]
  exact_mod_cast hsplit.symm

/-- **The specification of `alloc`**, when the count is right. -/
theorem alloc_takesLowest {a a' : BitAlloc} {l : List Nat} {m : Int} (h : a.free = a.clear.length)
    (ha : a.alloc m = some (l, a')) : a.TakesLowest m l a' := by
  have hlength : (l.length : Int) = max m 0 := by
    rw [length_alloc h ha]
    omega
  have hcounted := ((owns_taken h).alloc ha).1.free_eq
  have hslots := (alloc_slots ha).2
  rw [alloc_eq] at ha
  split at ha
  · exact absurd ha (by simp)
  · obtain ⟨rfl, rfl⟩ := Prod.mk.inj (Option.some.inj ha)
    refine ⟨hlength, (pairwise_clear a).sublist (List.take_sublist _ _),
      fun f hf => ⟨(hslots f hf).1, (hslots f hf).2.1⟩, fun f hf g hlt hbit => ?_, rfl, fun _ => rfl, hcounted⟩
    exact mem_take_of_lt (pairwise_clear a) hf
      (mem_clear.mpr ⟨hlt.trans (hslots f hf).1, hbit⟩) hlt

/-- **The specification of `release`**, for slots that are taken. -/
theorem release_clearsExactly {a : BitAlloc} {l : List Nat} (h : a.free = a.clear.length)
    (hl : a.Holds l) : ∃ a', a.release l = some a' ∧ a.ClearsExactly l a' := by
  have htaken : ∀ f ∈ l, f < a.total ∧ a.bit f = true := fun f hf => ⟨hl.lt_total f hf, hl.taken f hf⟩
  obtain ⟨a', hr⟩ : ∃ a', a.release l = some a' :=
    ⟨_, if_pos fun f hf => lt_capacity_of_lt (htaken f hf).1⟩
  refine ⟨a', hr, ?_⟩
  rw [release_eq hr]
  refine ⟨htaken, rfl, fun _ => rfl, ?_⟩
  have hlen := (clear_release_perm hl.nodup htaken (a.free + l.length)).length_eq
  rw [hlen, List.length_append]
  show a.free + l.length = _
  push_cast
  omega

end BitAlloc

end Tpso.Lib
