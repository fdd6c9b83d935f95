/-
# The list of TLB entries and what points into it

`tlb_add_entry` looks neither for an entry of the same page nor at where the FIFO pointer stands against the
length of the list.  That there are not too many entries, that no page has two of them and that the pointer
is a slot of the full list rest on the callers, which add only after a miss, and on the clean-up, which
empties the list and leaves the pointer.

The slot that is replaced is one of the list except in one case.  The search for the oldest entry starts with
the index -1 and the time stamp `UINT64_MAX`, and takes only what is strictly below: it finds nothing when
every entry has the time stamp `UINT64_MAX` itself.
-/
import Tpso.Cpu.Replacement

namespace Tpso.Cpu

open Tpso.Lib

/-! ## 1. The shape of the TLB -/

/-- There are not more entries than slots, no page has two of them, and the FIFO pointer is a slot. -/
structure TlbShaped (cfg : Config) (t : Tlb) : Prop where
  length : t.entries.length ≤ cfg.tlbEntries
  nodup : t.keys.Nodup
  pointer : t.fifoPointer < cfg.tlbEntries

/-- When an entry is replaced under LRU, the time stamp of some entry is below the largest there is. -/
def StampBelow (cfg : Config) (s : Watched) (l : TlbAction) : Prop :=
  Replaces cfg s l → cfg.tlbAlgorithm = .lru → ∃ e ∈ s.tlb.entries, e.lruTimestamp < 2 ^ 64 - 1

section Shape

variable {cfg : Config} {pe : PageEntries} {t t' : Tlb} {page pid frame : Int} {s s' : Watched}
  {l : TlbAction} {tr : List (Transition Watched TlbAction)}

/-- The TLB of `mmu_init`. -/
theorem shaped_start (hn : 0 < cfg.tlbEntries) : TlbShaped cfg Watched.start.tlb :=
  ⟨Nat.zero_le _, List.nodup_nil, hn⟩

/-- The FIFO pointer stays a slot. -/
theorem nextPointer_lt (h : TlbShaped cfg t) : nextPointer cfg t < cfg.tlbEntries := by
  unfold nextPointer
  cases cfg.tlbAlgorithm with
  | fifo => exact Nat.mod_lt _ (Nat.zero_lt_of_lt h.pointer)
  | lru => exact h.pointer

/-- An entry is written over another of the same page. -/
theorem TlbShaped.renew (h : TlbShaped cfg t) {i : Nat} {v e : TlbEntry} (counter : Nat)
    (hv : t.entries[i]? = some v) (hkey : e.key = v.key) :
    TlbShaped cfg ⟨t.entries.set i e, t.fifoPointer, counter⟩ where
  length := List.length_set.le.trans h.length
  nodup := by
    show ((t.entries.set i e).map TlbEntry.key).Nodup
    rw [map_key_set_same hv hkey]
    exact h.nodup
  pointer := h.pointer

/-- A free slot is filled with an entry for a page that has none. -/
theorem TlbShaped.grow (h : TlbShaped cfg t) {e : TlbEntry} (counter : Nat) (hmiss : e.key ∉ t.keys)
    (hfree : t.entries.length < cfg.tlbEntries) :
    TlbShaped cfg ⟨t.entries ++ [e], t.fifoPointer, counter⟩ where
  length := by
    rw [List.length_append, List.length_singleton]
    exact hfree
  nodup := by
    show ((t.entries ++ [e]).map TlbEntry.key).Nodup
    rw [List.map_append, List.map_singleton, ← List.concat_eq_append]
    exact List.Nodup.concat hmiss h.nodup
  pointer := h.pointer

/-- An entry is written over another for a page that has none. -/
theorem TlbShaped.replace (h : TlbShaped cfg t) {e : TlbEntry} (i counter : Nat) (hmiss : e.key ∉ t.keys) :
    TlbShaped cfg ⟨t.entries.set i e, nextPointer cfg t, counter⟩ where
  length := List.length_set.le.trans h.length
  nodup := by
    show ((t.entries.set i e).map TlbEntry.key).Nodup
    rw [map_key_set]
    exact nodup_set h.nodup hmiss
  pointer := nextPointer_lt h

/-- A translation keeps the shape of the TLB. -/
theorem TlbShaped.frameOf (h : TlbShaped cfg t) (hframe : frameOf cfg pe t page pid = some (t', frame)) :
    TlbShaped cfg t' := by
  rcases frameOf_cases (Nat.zero_lt_of_lt h.pointer) hframe with ⟨i, e, hget, -, rfl⟩ |
    ⟨hmiss, hfree, rfl⟩ | ⟨hmiss, -, rfl⟩
  · split
    · exact h.renew _ hget rfl
    · exact h
  · exact h.grow _ hmiss hfree
  · exact h.replace _ _ hmiss

/-- A step keeps the shape of the TLB. -/
theorem TlbShaped.step (h : TlbShaped cfg s.tlb) (hstep : s.step cfg l = some s') : TlbShaped cfg s'.tlb := by
  cases l with
  | flush =>
    obtain rfl := Option.some.inj hstep
    show TlbShaped cfg (tlbFlush cfg s.tlb)
    rw [tlbFlush_eq (Nat.zero_lt_of_lt h.pointer)]
    exact ⟨Nat.zero_le _, List.nodup_nil, h.pointer⟩
  | translate pe page pid =>
    obtain ⟨⟨t', frame⟩, hframe, rfl⟩ := Option.map_eq_some_iff.mp hstep
    exact h.frameOf hframe

/-- **The shape of the TLB along every run.** -/
theorem shaped_run (hn : 0 < cfg.tlbEntries) (hr : (watchedTlb cfg).Run tr s) : TlbShaped cfg s.tlb := by
  induction hr with
  | start hinit =>
    obtain rfl := hinit
    exact shaped_start hn
  | step _ hst ih => exact ih.step hst

/-! ## 2. The slot that is replaced -/

/-- The search under LRU ends with an index of the list when some entry is below the first bound. -/
theorem lruVictimLoop_lt_iff (es : List TlbEntry) (minTs : Nat) :
    lruVictimLoop es 0 minTs es.length < es.length ↔ ∃ e ∈ es, e.lruTimestamp < minTs := by
  rcases lruVictimLoop_spec es 0 minTs es.length with ⟨heq, hall⟩ | ⟨j, e, heq, he, hless, -⟩
  · rw [heq]
    refine ⟨fun hlt => absurd hlt (lt_irrefl _), ?_⟩
    rintro ⟨e, he, hless⟩
    exact absurd hless (not_lt.mpr (hall e he))
  · rw [heq, Nat.zero_add]
    exact ⟨fun _ => ⟨e, List.mem_of_getElem? he, hless⟩, fun _ => (List.getElem?_eq_some_iff.mp he).1⟩

/-- What is replaced is replaced in a full list. -/
theorem Replaces.full (h : Replaces cfg s l) : cfg.tlbEntries ≤ s.tlb.entries.length := by
  cases l with
  | translate pe page pid => exact h.2
  | flush => exact h.elim

/-- **The victim of a step is an entry of the TLB** exactly when the search under LRU has one to find. -/
theorem TlbShaped.victimInside_iff (h : TlbShaped cfg s.tlb) :
    VictimInside cfg ⟨s, l, s'⟩ ↔ StampBelow cfg s l := by
  refine imp_congr_right fun hrep => ?_
  show tlbVictim cfg s.tlb < s.tlb.entries.length ↔ _
  unfold tlbVictim
  cases cfg.tlbAlgorithm with
  | fifo => exact iff_of_true (h.pointer.trans_le hrep.full) fun hlru => absurd hlru (by simp)
  | lru => exact (lruVictimLoop_lt_iff _ _).trans ⟨fun hless _ => hless, fun hless => hless rfl⟩

/-- **The TLB is well formed along a run exactly when every search for a victim has one to find.**  For every
number of slots from 1 on, either algorithm and every run of translations and clean-ups: the shape is that of
a TLB in every state and every slot replaced is one of the list, if and only if at each replacement under LRU
the time stamp of some entry is below `UINT64_MAX`. -/
theorem shaped_iff_stampBelow (hn : 0 < cfg.tlbEntries) (hr : (watchedTlb cfg).Run tr s) :
    (TlbShaped cfg s.tlb ∧ ∀ x ∈ tr, TlbShaped cfg x.src.tlb ∧ VictimInside cfg x) ↔
      ∀ x ∈ tr, StampBelow cfg x.src x.label := by
  have hsteps := hr.steps_iff (P := fun x => TlbShaped cfg x.src.tlb ∧ VictimInside cfg x)
    (C := StampBelow cfg) (I := fun s => TlbShaped cfg s.tlb) (fun s hs => hs ▸ shaped_start hn)
    (fun s l s' hs _ => ⟨fun hP => hs.victimInside_iff.mp hP.2, fun hC => ⟨hs, hs.victimInside_iff.mpr hC⟩⟩)
    fun s l s' hs _ hst => hs.step hst
  exact ⟨fun hall => hsteps.mp hall.2, fun hall => ⟨shaped_run hn hr, hsteps.mpr hall⟩⟩

/-- The theorem at work: three pages in two slots. -/
theorem shaped_iff_stampBelow_three_pages :
    ∃ tr s, (watchedTlb (twoEntryTlb .lru)).Run tr s ∧ s.tlb.keys = [(2, 0), (1, 0)] ∧
      TlbShaped (twoEntryTlb .lru) s.tlb ∧
      ∀ x ∈ tr, TlbShaped (twoEntryTlb .lru) x.src.tlb ∧ VictimInside (twoEntryTlb .lru) x := by
  obtain ⟨tr, s, hrun, htest⟩ := Lts.exists_run_of_drive Watched.start
    (Watched.step (twoEntryTlb .lru)) [touch 0, touch 1, touch 2]
    (fun tr s => decide (s.tlb.keys = [(2, 0), (1, 0)]) &&
      tr.all fun x => decide (2 ≤ x.src.tlb.entries.length →
        ∃ e ∈ x.src.tlb.entries, e.lruTimestamp < 2 ^ 64 - 1)) (by decide +kernel)
  simp only [Bool.and_eq_true, decide_eq_true_eq, List.all_eq_true] at htest
  exact ⟨tr, s, hrun, htest.1, (shaped_iff_stampBelow (by decide) hrun).mpr
    fun x hx hrep _ => htest.2 x hx hrep.full⟩

/-- In particular the TLB is well formed along every run under FIFO, and along every run under LRU of fewer
than `2 ^ 64` translations. -/
theorem shaped_of_countP_lt (hn : 0 < cfg.tlbEntries) (hr : (watchedTlb cfg).Run tr s)
    (hcount : cfg.tlbAlgorithm = .lru → tr.countP (fun x => x.label.isTranslation) < 2 ^ 64) :
    TlbShaped cfg s.tlb ∧ ∀ x ∈ tr, TlbShaped cfg x.src.tlb ∧ VictimInside cfg x := by
  refine (shaped_iff_stampBelow hn hr).mpr fun x hx hrep hlru => ?_
  have hshaped := hr.invariant_steps (I := fun s => TlbShaped cfg s.tlb) (C := fun _ _ => True)
    (fun s hs => hs ▸ shaped_start hn) (fun s l s' hs _ hst => hs.step hst) (fun _ _ => trivial) x hx
  exact hshaped.1.victimInside_iff.mp ((counter_run hn hlru hr (hcount hlru)).2.2 x hx).2 hrep hlru

end Shape

/-! ## 3. One slot and `2 ^ 64` translations -/

/-- A TLB with one slot under LRU. -/
def oneEntryTlb : Config := { twoEntryTlb .lru with tlbEntries := 1 }

/-- The page in the slot is translated: its entry takes the counter as its time stamp. -/
theorem frameOf_again (pe : PageEntries) (stamp counter : Nat) :
    frameOf oneEntryTlb pe ⟨[⟨0, 0, 1, stamp⟩], 0, counter⟩ 0 0 =
      some (⟨[⟨0, 0, 1, counter⟩], 0, nextTimestamp counter⟩, 1) := rfl

/-- Page 0 is translated again and again: the entry carries the time stamp of the latest translation. -/
theorem exists_run_touch : ∀ k < 2 ^ 64, ∃ tr s, (watchedTlb oneEntryTlb).Run tr s ∧
    s.tlb = ⟨[⟨0, 0, 1, k⟩], 0, nextTimestamp k⟩ := by
  intro k hk
  induction k with
  | zero =>
    have hstep : Watched.start.step oneEntryTlb (touch 0) =
        some ⟨⟨[⟨0, 0, 1, 0⟩], 0, nextTimestamp 0⟩, [(0, 0)], [(0, 0)], 0⟩ := rfl
    exact ⟨_, _, (Lts.Run.start rfl).step hstep, rfl⟩
  | succ k ih =>
    obtain ⟨tr, s, hrun, htlb⟩ := ih (by omega)
    have hnext : nextTimestamp k = k + 1 := Nat.mod_eq_of_lt hk
    rw [hnext] at htlb
    obtain ⟨s', hstep, htlb'⟩ : ∃ s', s.step oneEntryTlb (touch 0) = some s' ∧
        s'.tlb = ⟨[⟨0, 0, 1, k + 1⟩], 0, nextTimestamp (k + 1)⟩ := by
      refine ⟨_, Option.map_eq_some_iff.mpr ⟨(⟨[⟨0, 0, 1, k + 1⟩], 0, nextTimestamp (k + 1)⟩, 1), ?_, rfl⟩,
        rfl⟩
      rw [htlb]
      exact frameOf_again _ k (k + 1)
    exact ⟨_, s', hrun.step hstep, htlb'⟩

/-- **After `2 ^ 64` translations of one page the next page finds no victim.**  The one entry has the time
stamp `UINT64_MAX`, the search leaves the index where it was, at none. -/
theorem not_shaped :
    ¬ ∀ (cfg : Config) (tr : List (Transition Watched TlbAction)) (s : Watched), 0 < cfg.tlbEntries →
      (watchedTlb cfg).Run tr s →
      TlbShaped cfg s.tlb ∧ ∀ x ∈ tr, TlbShaped cfg x.src.tlb ∧ VictimInside cfg x := by
  intro hall
  obtain ⟨tr, s, hrun, htlb⟩ := exists_run_touch (2 ^ 64 - 1) (by decide)
  obtain ⟨s', hstep⟩ : ∃ s', s.step oneEntryTlb (touch 1) = some s' := by
    refine ⟨_, Option.map_eq_some_iff.mpr ⟨(⟨[⟨0, 0, 1, 2 ^ 64 - 1⟩], 0, 1⟩, 1), ?_, rfl⟩⟩
    rw [htlb]
    rfl
  have hinside := (hall oneEntryTlb _ s' (by decide) (hrun.step hstep)).2 _
    (List.mem_append_right _ (List.mem_singleton_self _))
  have hrep : Replaces oneEntryTlb s (touch 1) := by
    show (1, 0) ∉ s.tlb.keys ∧ 1 ≤ s.tlb.entries.length
    rw [htlb]
    exact ⟨by decide, le_refl _⟩
  obtain ⟨e, he, hless⟩ := (hinside.1.victimInside_iff.mp hinside.2) hrep rfl
  rw [htlb, List.mem_singleton] at he
  rw [he] at hless
  exact lt_irrefl _ hless

end Tpso.Cpu
