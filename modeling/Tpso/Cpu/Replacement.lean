/-
# Which entry of the TLB is replaced

The TLB is watched along a run of translations and clean-ups.  Beside it two lists are kept, the pages it
holds in the order in which they were inserted and in the order of their last use.

LRU replaces the page whose last use is oldest: the time stamps are in the order of use, and the search finds
the least.

FIFO replaces the slot under a pointer.  The clean-up empties the list of entries and leaves the pointer
where it is; the list is filled again from its start, and the next replacement takes the slot under the
pointer, which is not the one that was filled first unless the pointer was at 0.
-/
import Tpso.Cpu.PageWalk
import Tpso.Cpu.Translation
import Tpso.Lib.Recency
import Tpso.Lib.Run

namespace Tpso.Cpu

open Tpso.Lib

/-! ## 1. The TLB along a run -/

/-- What a TLB entry is for. -/
def TlbEntry.key (e : TlbEntry) : Int × Int := (e.page, e.pid)

/-- The pages that a TLB holds, slot by slot. -/
def Tlb.keys (t : Tlb) : List (Int × Int) := t.entries.map TlbEntry.key

/-- What happens to the TLB: a page is translated, with the page tables as they are at that moment, or
`mmu_process_cleanup` flushes it. -/
inductive TlbAction where
  | translate (pe : PageEntries) (page pid : Int)
  | flush

/-- Whether it is a translation. -/
def TlbAction.isTranslation : TlbAction → Bool
  | .translate _ _ _ => true
  | .flush => false

/-- The TLB under watch: the pages it holds in the order of insertion and of last use, and the FIFO pointer as
the latest clean-up left it. -/
structure Watched where
  tlb : Tlb
  inserted : List (Int × Int)
  used : List (Int × Int)
  flushPointer : Nat

/-- The TLB at the start. -/
def Watched.start : Watched := ⟨⟨[], 0, 0⟩, [], [], 0⟩

/-- It is the one of `mmu_init`. -/
theorem mmuInit_tlb (cfg : Config) (junk : Nat → CacheEntry) :
    (mmuInit cfg junk).tlb = Watched.start.tlb := rfl

/-- The TLB after `list_clean_and_destroy_elements`. -/
def tlbFlush (cfg : Config) (t : Tlb) : Tlb := if 0 < cfg.tlbEntries then { t with entries := [] } else t

/-- One step of the TLB. -/
def Watched.step (cfg : Config) (s : Watched) : TlbAction → Option Watched
  | .translate pe page pid =>
    (frameOf cfg pe s.tlb page pid).map fun x =>
      { s with
        tlb := x.1
        inserted := arrivals s.inserted x.1.keys (page, pid)
        used := lastUses s.used x.1.keys (page, pid) }
  | .flush =>
    some { tlb := tlbFlush cfg s.tlb, inserted := [], used := [], flushPointer := s.tlb.fifoPointer }

/-- The TLB of a CPU. -/
def watchedTlb (cfg : Config) : Lts Watched TlbAction := Lts.ofStep Watched.start (Watched.step cfg)

/-- A miss replaces only the page that was inserted earliest. -/
def EvictsEarliest (x : Transition Watched TlbAction) : Prop :=
  x.label.isTranslation = true →
    ∀ k ∈ x.src.tlb.keys, k ∉ x.dst.tlb.keys → x.src.inserted.head? = some k

/-- A miss replaces only the page whose last use is oldest. -/
def EvictsOldest (x : Transition Watched TlbAction) : Prop :=
  x.label.isTranslation = true →
    ∀ k ∈ x.src.tlb.keys, k ∉ x.dst.tlb.keys → x.src.used.head? = some k

/-- The page is not in the TLB, which is full: an entry will be replaced. -/
def Replaces (cfg : Config) (s : Watched) : TlbAction → Prop
  | .translate _ page pid => (page, pid) ∉ s.tlb.keys ∧ cfg.tlbEntries ≤ s.tlb.entries.length
  | .flush => False

instance (cfg : Config) (s : Watched) : (a : TlbAction) → Decidable (Replaces cfg s a)
  | .translate _ page pid =>
    inferInstanceAs (Decidable ((page, pid) ∉ s.tlb.keys ∧ cfg.tlbEntries ≤ s.tlb.entries.length))
  | .flush => isFalse id

/-! ## 2. What one translation does -/

section Step

variable {cfg : Config} {pe : PageEntries} {t t' : Tlb} {page pid frame : Int}

/-- The search in the TLB, by its result. -/
theorem tlbFindEntry_cases (hn : 0 < cfg.tlbEntries) (t : Tlb) (page pid : Int) :
    (tlbFindEntry cfg t page pid = (t, none) ∧ (page, pid) ∉ t.keys) ∨
    ∃ i e, t.entries[i]? = some e ∧ e.key = (page, pid) ∧
      tlbFindEntry cfg t page pid =
        (if cfg.tlbAlgorithm = .lru then
          ⟨t.entries.set i { e with lruTimestamp := t.lruTimestampCounter }, t.fifoPointer,
            nextTimestamp t.lruTimestampCounter⟩
        else t, some e.frame) := by
  unfold tlbFindEntry
  rw [if_neg hn.ne']
  split
  · rename_i hnone
    refine Or.inl ⟨rfl, fun hmem => ?_⟩
    obtain ⟨e, he, hkey⟩ := List.mem_map.mp hmem
    have hno := List.findIdx?_eq_none_iff.mp hnone e he
    simp [TlbEntry.key, Prod.ext_iff] at hkey
    simp [hkey.1, hkey.2] at hno
  · rename_i i hidx
    obtain ⟨hlt, hhit, -⟩ := List.findIdx?_eq_some_iff_getElem.mp hidx
    have hget : t.entries[i]? = some t.entries[i] := List.getElem?_eq_getElem hlt
    have hkey := of_decide_eq_true hhit
    refine Or.inr ⟨i, t.entries[i], hget, Prod.ext hkey.1 hkey.2, ?_⟩
    simp only [hget, Option.map_some]
    split
    · rw [List.modify_eq_set_getElem?, hget]
      rfl
    · rfl

/-- **What a translation does to the TLB**: a hit, an entry in a free slot, or a replacement. -/
theorem frameOf_cases (hn : 0 < cfg.tlbEntries) (h : frameOf cfg pe t page pid = some (t', frame)) :
    (∃ i e, t.entries[i]? = some e ∧ e.key = (page, pid) ∧
      t' = if cfg.tlbAlgorithm = .lru then
          ⟨t.entries.set i { e with lruTimestamp := t.lruTimestampCounter }, t.fifoPointer,
            nextTimestamp t.lruTimestampCounter⟩
        else t) ∨
    ((page, pid) ∉ t.keys ∧ t.entries.length < cfg.tlbEntries ∧
      t' = ⟨t.entries ++ [⟨page, pid, frame, t.lruTimestampCounter⟩], t.fifoPointer,
        nextTimestamp t.lruTimestampCounter⟩) ∨
    ((page, pid) ∉ t.keys ∧ cfg.tlbEntries ≤ t.entries.length ∧
      t' = ⟨t.entries.set (tlbVictim cfg t) ⟨page, pid, frame, t.lruTimestampCounter⟩, nextPointer cfg t,
        nextTimestamp t.lruTimestampCounter⟩) := by
  unfold frameOf at h
  rcases tlbFindEntry_cases hn t page pid with ⟨hfind, hmiss⟩ | ⟨i, e, hget, hkey, hfind⟩
  · rw [hfind] at h
    obtain ⟨f, -, heq⟩ := Option.map_eq_some_iff.mp h
    obtain ⟨rfl, rfl⟩ := Prod.mk.inj heq
    refine Or.inr ?_
    unfold tlbAddEntry
    rw [if_neg hn.ne']
    by_cases hfull : t.entries.length < cfg.tlbEntries
    · exact Or.inl ⟨hmiss, hfull, by simp [hfull]⟩
    · refine Or.inr ⟨hmiss, not_lt.mp hfull, ?_⟩
      simp only [hfull, if_false]
      rfl
  · rw [hfind] at h
    obtain ⟨rfl, -⟩ := Prod.mk.inj (Option.some.inj h)
    exact Or.inl ⟨i, e, hget, hkey, rfl⟩

/-- The keys after one slot is written. -/
theorem map_key_set (entries : List TlbEntry) (i : Nat) (e : TlbEntry) :
    (entries.set i e).map TlbEntry.key = (entries.map TlbEntry.key).set i e.key := List.map_set

/-- A slot that is written for the same page keeps the keys. -/
theorem map_key_set_same {entries : List TlbEntry} {i : Nat} {v e : TlbEntry} (hv : entries[i]? = some v)
    (hkey : e.key = v.key) : (entries.set i e).map TlbEntry.key = entries.map TlbEntry.key := by
  have hslot : (entries.map TlbEntry.key)[i]? = some e.key := by
    rw [List.getElem?_map, hv, hkey]
    rfl
  obtain ⟨hi, hget⟩ := List.getElem?_eq_some_iff.mp hslot
  rw [map_key_set, ← hget, List.set_getElem_self]

theorem tlbFlush_eq (hn : 0 < cfg.tlbEntries) (t : Tlb) : tlbFlush cfg t = { t with entries := [] } :=
  if_pos hn

end Step

/-! ## 3. FIFO -/

/-- How the slots lie in the order of insertion.  Until something is replaced they are filled from the first
on; from a pointer at 0, replacing turns the order with the pointer. -/
structure Queued (cfg : Config) (s : Watched) : Prop where
  nodup : s.tlb.keys.Nodup
  length : s.tlb.entries.length ≤ cfg.tlbEntries
  pointer : s.tlb.fifoPointer < cfg.tlbEntries
  order : (s.inserted = s.tlb.keys ∧ s.tlb.fifoPointer = s.flushPointer) ∨
    (s.flushPointer = 0 ∧ s.tlb.entries.length = cfg.tlbEntries ∧
      s.inserted = s.tlb.keys.rotate s.tlb.fifoPointer)

/-- The FIFO pointer was at 0 when the TLB was flushed last, if an entry is to be replaced. -/
def PointerFresh (cfg : Config) (s : Watched) (l : TlbAction) : Prop :=
  Replaces cfg s l → s.flushPointer = 0

section Fifo

variable {cfg : Config} {s s' : Watched} {l : TlbAction}

theorem queued_start (hn : 0 < cfg.tlbEntries) : Queued cfg Watched.start :=
  ⟨List.nodup_nil, Nat.zero_le _, hn, Or.inl ⟨rfl, rfl⟩⟩

/-- The slot under the pointer of a full TLB. -/
theorem Queued.slot (h : Queued cfg s) (hfull : cfg.tlbEntries ≤ s.tlb.entries.length) :
    ∃ v, s.tlb.keys[s.tlb.fifoPointer]? = some v := by
  have hlen : s.tlb.keys.length = s.tlb.entries.length := List.length_map _
  have hptr := h.pointer
  exact ⟨_, List.getElem?_eq_getElem (by omega)⟩

/-- **The slot under the pointer holds the page inserted earliest** exactly when the pointer was at 0 at the
latest flush. -/
theorem Queued.head_iff (h : Queued cfg s) (hfull : cfg.tlbEntries ≤ s.tlb.entries.length) {v : Int × Int}
    (hv : s.tlb.keys[s.tlb.fifoPointer]? = some v) :
    s.inserted.head? = some v ↔ s.flushPointer = 0 := by
  have hlen : s.tlb.keys.length = s.tlb.entries.length := List.length_map _
  have hptr := h.pointer
  rcases h.order with ⟨hkeys, hsame⟩ | ⟨hzero, -, hrotate⟩
  · rw [hkeys, List.head?_eq_getElem?, ← hsame, ← hv]
    constructor
    · intro heq
      have hpos : 0 < s.tlb.keys.length := by omega
      rw [List.getElem?_eq_getElem hpos, List.getElem?_eq_getElem (by omega : _ < s.tlb.keys.length),
        Option.some.injEq, h.nodup.getElem_inj_iff] at heq
      exact heq.symm
    · rintro hzero
      rw [hzero]
  · rw [hrotate, List.head?_rotate (by omega), hv]
    simp [hzero]

/-- What is inserted is what the TLB holds. -/
theorem Queued.mem_inserted (h : Queued cfg s) {k : Int × Int} : k ∈ s.inserted ↔ k ∈ s.tlb.keys := by
  rcases h.order with ⟨hkeys, -⟩ | ⟨-, -, hrotate⟩
  · rw [hkeys]
  · rw [hrotate, List.mem_rotate]

/-- The order of a full TLB whose pointer was at 0 at the latest flush. -/
theorem Queued.rotated (h : Queued cfg s) (hfresh : s.flushPointer = 0) :
    s.inserted = s.tlb.keys.rotate s.tlb.fifoPointer := by
  rcases h.order with ⟨hkeys, hsame⟩ | ⟨-, -, hrotate⟩
  · rw [hkeys, hsame, hfresh, List.rotate_zero]
  · exact hrotate

/-- **A step is right exactly when the pointer is fresh**, for every page that goes. -/
theorem Queued.right_iff (hn : 0 < cfg.tlbEntries) (halg : cfg.tlbAlgorithm = .fifo)
    (h : Queued cfg s) (hstep : s.step cfg l = some s') :
    EvictsEarliest ⟨s, l, s'⟩ ↔ PointerFresh cfg s l := by
  cases l with
  | flush =>
    exact ⟨fun _ hrep => hrep.elim, fun _ htrans => absurd htrans (by simp [TlbAction.isTranslation])⟩
  | translate pe page pid =>
    obtain ⟨⟨t', frame⟩, hframe, rfl⟩ := Option.map_eq_some_iff.mp hstep
    rcases frameOf_cases hn hframe with ⟨i, e, hget, hkey, heq⟩ | ⟨hmiss, hfree, heq⟩ |
      ⟨hmiss, hfull, heq⟩
    · -- a hit: nothing goes and nothing is replaced
      have hmem : (page, pid) ∈ s.tlb.keys :=
        List.mem_map.mpr ⟨e, List.mem_of_getElem? hget, hkey⟩
      simp only [halg, reduceCtorEq, if_false] at heq
      subst heq
      exact ⟨fun _ hrep => absurd hmem hrep.1, fun _ _ k hk hgone => absurd hk hgone⟩
    · -- a free slot
      subst heq
      refine ⟨fun _ hrep => absurd hrep.2 (by omega), fun _ _ k hk hgone => absurd ?_ hgone⟩
      unfold Tlb.keys
      rw [List.map_append]
      exact List.mem_append_left _ hk
    · -- a replacement
      obtain ⟨v, hv⟩ := h.slot hfull
      have hvictim : tlbVictim cfg s.tlb = s.tlb.fifoPointer := by simp [tlbVictim, halg]
      have hkeys : t'.keys = s.tlb.keys.set s.tlb.fifoPointer (page, pid) := by
        rw [heq, hvictim]
        exact map_key_set _ _ _
      have hne : v ≠ (page, pid) := by
        rintro rfl
        exact hmiss (List.mem_of_getElem? hv)
      rw [PointerFresh, ← h.head_iff hfull hv]
      constructor
      · intro hright _
        refine hright rfl v (List.mem_of_getElem? hv) ?_
        rw [hkeys]
        exact not_mem_set_of_nodup h.nodup hv hne
      · intro hfresh _ k hk hgone
        rw [hkeys] at hgone
        have hslot := getElem?_of_replaced hk hgone
        rw [hv] at hslot
        exact hslot ▸ hfresh ⟨hmiss, hfull⟩

/-- A free slot is filled. -/
theorem Queued.grow (h : Queued cfg s) {t' : Tlb} {k : Int × Int} (used : List (Int × Int))
    (hmiss : k ∉ s.tlb.keys) (hfree : s.tlb.entries.length < cfg.tlbEntries)
    (hkeys : t'.keys = s.tlb.keys ++ [k]) (hptr : t'.fifoPointer = s.tlb.fifoPointer) :
    Queued cfg ⟨t', arrivals s.inserted t'.keys k, used, s.flushPointer⟩ := by
  have horder : s.inserted = s.tlb.keys ∧ s.tlb.fifoPointer = s.flushPointer := by
    rcases h.order with horder | ⟨-, hlen, -⟩
    · exact horder
    · omega
  have hgrow : arrivals s.inserted t'.keys k = s.inserted ++ [k] := by
    refine arrivals_grow (fun x hx => ?_) (fun hmem => hmiss (h.mem_inserted.mp hmem))
    rw [hkeys]
    exact List.mem_append_left _ (h.mem_inserted.mp hx)
  refine ⟨?_, ?_, ?_, Or.inl ⟨?_, hptr.trans horder.2⟩⟩
  · show t'.keys.Nodup
    rw [hkeys, ← List.concat_eq_append]
    exact List.Nodup.concat hmiss h.nodup
  · have hlen := congrArg List.length hkeys
    simp only [Tlb.keys, List.length_map, List.length_append, List.length_singleton] at hlen
    show t'.entries.length ≤ cfg.tlbEntries
    omega
  · exact hptr ▸ h.pointer
  · show arrivals s.inserted t'.keys k = t'.keys
    rw [hgrow, hkeys, horder.1]

/-- The slot under a fresh pointer is replaced. -/
theorem Queued.replace (h : Queued cfg s) {t' : Tlb} {k : Int × Int} (used : List (Int × Int))
    (hmiss : k ∉ s.tlb.keys) (hfull : cfg.tlbEntries ≤ s.tlb.entries.length)
    (hzero : s.flushPointer = 0) (hkeys : t'.keys = s.tlb.keys.set s.tlb.fifoPointer k)
    (hnext : t'.fifoPointer = (s.tlb.fifoPointer + 1) % cfg.tlbEntries) :
    Queued cfg ⟨t', arrivals s.inserted t'.keys k, used, s.flushPointer⟩ := by
  obtain ⟨v, hv⟩ := h.slot hfull
  have hptr : s.tlb.fifoPointer < s.tlb.keys.length := (List.getElem?_eq_some_iff.mp hv).1
  have hlen : s.tlb.keys.length = cfg.tlbEntries :=
    (List.length_map _).trans (le_antisymm h.length hfull)
  have hlen' : t'.keys.length = cfg.tlbEntries := by rw [hkeys, List.length_set, hlen]
  have hvk : v ≠ k := by
    rintro rfl
    exact hmiss (List.mem_of_getElem? hv)
  -- the first of the order is the page in the slot
  have hhead := (h.head_iff hfull hv).mpr hzero
  have htail : s.inserted = v :: s.inserted.tail := by
    cases hi : s.inserted with
    | nil => simp [hi] at hhead
    | cons first rest =>
      rw [hi, List.head?_cons, Option.some.injEq] at hhead
      rw [hhead, List.tail_cons]
  have hnodup : s.inserted.Nodup := by
    rw [h.rotated hzero]
    exact List.nodup_rotate.mpr h.nodup
  have hmiss' : k ∉ v :: s.inserted.tail := htail ▸ fun hmem => hmiss (h.mem_inserted.mp hmem)
  have hreplace : arrivals s.inserted t'.keys k = s.inserted.tail ++ [k] := by
    rw [htail]
    refine arrivals_replace ?_ (fun x hx => ?_) hmiss'
    · rw [hkeys]
      exact not_mem_set_of_nodup h.nodup hv hvk
    · have hxv : x ≠ v := by
        rintro rfl
        rw [htail] at hnodup
        exact (List.nodup_cons.mp hnodup).1 hx
      rw [hkeys]
      exact mem_set_of_ne hv (h.mem_inserted.mp (List.mem_of_mem_tail hx)) hxv
  refine ⟨?_, ?_, ?_, Or.inr ⟨hzero, (List.length_map _).symm.trans hlen', ?_⟩⟩
  · show t'.keys.Nodup
    rw [hkeys]
    exact nodup_set h.nodup hmiss
  · exact ((List.length_map _).symm.trans hlen').le
  · show t'.fifoPointer < cfg.tlbEntries
    rw [hnext]
    exact Nat.mod_lt _ (by omega)
  · show arrivals s.inserted t'.keys k = t'.keys.rotate t'.fifoPointer
    rw [hreplace, hnext, rotate_mod_length hlen', hkeys, rotate_set hptr, h.rotated hzero]

/-- **A step that meets the condition keeps the order of the slots.** -/
theorem Queued.step (hn : 0 < cfg.tlbEntries) (halg : cfg.tlbAlgorithm = .fifo) (h : Queued cfg s)
    (hfresh : PointerFresh cfg s l) (hstep : s.step cfg l = some s') : Queued cfg s' := by
  cases l with
  | flush =>
    obtain rfl := Option.some.inj hstep
    rw [tlbFlush_eq hn]
    exact ⟨List.nodup_nil, Nat.zero_le _, h.pointer, Or.inl ⟨rfl, rfl⟩⟩
  | translate pe page pid =>
    obtain ⟨⟨t', frame⟩, hframe, rfl⟩ := Option.map_eq_some_iff.mp hstep
    rcases frameOf_cases hn hframe with ⟨i, e, hget, hkey, heq⟩ | ⟨hmiss, hfree, heq⟩ |
      ⟨hmiss, hfull, heq⟩
    · have hmem : (page, pid) ∈ s.tlb.keys :=
        List.mem_map.mpr ⟨e, List.mem_of_getElem? hget, hkey⟩
      simp only [halg, reduceCtorEq, if_false] at heq
      subst heq
      have hsame : arrivals s.inserted s.tlb.keys (page, pid) = s.inserted :=
        arrivals_hit (fun x hx => h.mem_inserted.mp hx) (h.mem_inserted.mpr hmem)
      refine ⟨h.nodup, h.length, h.pointer, ?_⟩
      simp only [hsame]
      exact h.order
    · refine h.grow _ hmiss hfree ?_ ?_
      · rw [heq]
        exact List.map_append
      · rw [heq]
    · refine h.replace _ hmiss hfull (hfresh ⟨hmiss, hfull⟩) ?_ ?_
      · rw [heq, tlbVictim, halg]
        exact map_key_set _ _ _
      · simp [heq, nextPointer, halg]

/-- **Exactly when FIFO replaces the earliest.**  Along every run of translations and clean-ups, every
replacement takes the page that was inserted earliest if and only if at every replacement the pointer had
been at 0 when the TLB was flushed last. -/
theorem evictsEarliest_iff (hn : 0 < cfg.tlbEntries) (halg : cfg.tlbAlgorithm = .fifo)
    {tr : List (Transition Watched TlbAction)} (hr : (watchedTlb cfg).Run tr s) :
    (∀ x ∈ tr, EvictsEarliest x) ↔ ∀ x ∈ tr, PointerFresh cfg x.src x.label := by
  refine hr.steps_iff (I := Queued cfg) ?_ ?_ ?_
  · rintro _ rfl
    exact queued_start hn
  · exact fun s l s' hq hst => hq.right_iff hn halg hst
  · exact fun s l s' hq hfresh hst => hq.step hn halg hfresh hst

end Fifo

/-- A CPU with a TLB of two entries. -/
def twoEntryTlb (algorithm : TlbAlgorithm) : Config :=
  { smallConfig with
    tlbEntries := 2
    tlbAlgorithm := algorithm }

/-- Translations of pages of process 0, all of them in frame 1. -/
def touch (page : Int) : TlbAction := .translate (fun _ _ _ => some 1) page 0

instance (x : Transition Watched TlbAction) : Decidable (EvictsEarliest x) :=
  inferInstanceAs (Decidable (_ → _))

/-- The theorem at work on the first replacement. -/
theorem evictsEarliest_iff_first :
    ∃ tr s, (watchedTlb (twoEntryTlb .fifo)).Run tr s ∧ s.inserted = [(1, 0), (2, 0)] ∧
      ∀ x ∈ tr, EvictsEarliest x := by
  obtain ⟨tr, s, hrun, htest⟩ := Lts.exists_run_of_drive Watched.start
    (Watched.step (twoEntryTlb .fifo)) [touch 0, touch 1, touch 2]
    (fun tr s => decide (s.inserted = [(1, 0), (2, 0)]) && tr.all fun x => decide (x.src.flushPointer = 0))
    (by decide +kernel)
  simp only [Bool.and_eq_true, decide_eq_true_eq, List.all_eq_true] at htest
  exact ⟨tr, s, hrun, htest.1, (evictsEarliest_iff (by decide) rfl hrun).mpr fun x hx _ => htest.2 x hx⟩

/-- **After a flush the second entry is replaced before the first.**  One replacement leaves the pointer at
1; the flush does not move it. -/
theorem not_evictsEarliest :
    ¬ ∀ (cfg : Config) (tr : List (Transition Watched TlbAction)) (s : Watched), 0 < cfg.tlbEntries →
      cfg.tlbAlgorithm = .fifo → (watchedTlb cfg).Run tr s → ∀ x ∈ tr, EvictsEarliest x := by
  intro hall
  obtain ⟨tr, s, hrun, htest⟩ := Lts.exists_run_of_drive Watched.start
    (Watched.step (twoEntryTlb .fifo))
    [touch 0, touch 1, touch 2, .flush, touch 0, touch 1, touch 2]
    (fun tr _ => tr.any fun x => decide (¬ EvictsEarliest x)) (by decide +kernel)
  obtain ⟨x, hx, hwrong⟩ := List.any_eq_true.mp htest
  exact of_decide_eq_true hwrong (hall _ tr s (by decide) rfl hrun x hx)

/-! ## 4. LRU -/

/-- The search finds an entry with the least time stamp, if one is below the first bound. -/
theorem lruVictimLoop_spec : ∀ (es : List TlbEntry) (i minTs victimIndex : Nat),
    (lruVictimLoop es i minTs victimIndex = victimIndex ∧ ∀ e ∈ es, minTs ≤ e.lruTimestamp) ∨
    ∃ j e, lruVictimLoop es i minTs victimIndex = i + j ∧ es[j]? = some e ∧ e.lruTimestamp < minTs ∧
      ∀ x ∈ es, e.lruTimestamp ≤ x.lruTimestamp := by
  intro es
  induction es with
  | nil => exact fun i minTs victimIndex => Or.inl ⟨rfl, by simp⟩
  | cons first rest ih =>
    intro i minTs victimIndex
    simp only [lruVictimLoop, List.forall_mem_cons]
    split
    · rename_i hlt
      rcases ih (i + 1) first.lruTimestamp i with ⟨heq, hall⟩ | ⟨j, e, heq, he, hless, hall⟩
      · exact Or.inr ⟨0, first, heq, rfl, hlt, le_refl _, hall⟩
      · exact Or.inr ⟨j + 1, e, by omega, he, by omega, hless.le, hall⟩
    · rename_i hge
      rcases ih (i + 1) minTs victimIndex with ⟨heq, hall⟩ | ⟨j, e, heq, he, hless, hall⟩
      · exact Or.inl ⟨heq, not_lt.mp hge, hall⟩
      · exact Or.inr ⟨j + 1, e, by omega, he, hless, by omega, hall⟩

/-- The time stamps are in the order of the last uses. -/
structure Recent (cfg : Config) (s : Watched) : Prop where
  nodup : s.tlb.keys.Nodup
  length : s.tlb.entries.length ≤ cfg.tlbEntries
  stamped : Stamped TlbEntry.key TlbEntry.lruTimestamp s.tlb.entries s.used
  below : ∀ e ∈ s.tlb.entries, e.lruTimestamp < s.tlb.lruTimestampCounter

/-- The victim that the search finds is an entry of the TLB. -/
def VictimInside (cfg : Config) (x : Transition Watched TlbAction) : Prop :=
  Replaces cfg x.src x.label → tlbVictim cfg x.src.tlb < x.src.tlb.entries.length

section Lru

variable {cfg : Config} {s s' : Watched} {l : TlbAction}

theorem recent_start : Recent cfg Watched.start :=
  ⟨List.nodup_nil, Nat.zero_le _, Stamped.nil _ _, fun _ he => absurd he (by simp [Watched.start])⟩

theorem Recent.mem_used (h : Recent cfg s) {k : Int × Int} : k ∈ s.used ↔ k ∈ s.tlb.keys :=
  h.stamped.perm.mem_iff

/-- **The victim is the page whose last use is oldest.** -/
theorem Recent.victim (h : Recent cfg s) (hn : 0 < cfg.tlbEntries) (halg : cfg.tlbAlgorithm = .lru)
    (hbound : s.tlb.lruTimestampCounter < 2 ^ 64) (hfull : cfg.tlbEntries ≤ s.tlb.entries.length) :
    ∃ e, s.tlb.entries[tlbVictim cfg s.tlb]? = some e ∧ s.used.head? = some e.key := by
  obtain ⟨first, hfirst⟩ : ∃ e, e ∈ s.tlb.entries :=
    List.exists_mem_of_length_pos (by omega)
  have hvictim : tlbVictim cfg s.tlb =
      lruVictimLoop s.tlb.entries 0 (2 ^ 64 - 1) s.tlb.entries.length := by simp [tlbVictim, halg]
  rcases lruVictimLoop_spec s.tlb.entries 0 (2 ^ 64 - 1) s.tlb.entries.length with
    ⟨-, hall⟩ | ⟨j, e, heq, he, -, hmin⟩
  · have hlow := h.below first hfirst
    have hhigh := hall first hfirst
    omega
  · refine ⟨e, ?_, h.stamped.head (List.mem_of_getElem? he) hmin⟩
    rw [hvictim, heq, Nat.zero_add]
    exact he

/-- An entry is written with the latest stamp, in the place of another that was for the same page or for one
that goes. -/
theorem Recent.renew (h : Recent cfg s) {i : Nat} {v e : TlbEntry} {p : Nat}
    (inserted : List (Int × Int)) (hv : s.tlb.entries[i]? = some v)
    (hstamp : e.lruTimestamp = s.tlb.lruTimestampCounter) (hkey : e.key = v.key ∨ e.key ∉ s.tlb.keys) :
    Recent cfg ⟨⟨s.tlb.entries.set i e, p, s.tlb.lruTimestampCounter + 1⟩, inserted,
      lastUses s.used ((s.tlb.entries.set i e).map TlbEntry.key) e.key, s.flushPointer⟩ := by
  have hvkey : s.tlb.keys[i]? = some v.key := by
    rw [Tlb.keys, List.getElem?_map, hv]
    rfl
  have hrenewed := h.stamped.renew h.nodup hv (e := e) fun x hx => hstamp ▸ h.below x hx
  -- of the order exactly the page of the slot is left out
  have hfilter : lastUses s.used ((s.tlb.entries.set i e).map TlbEntry.key) e.key =
      (s.used.filter fun x => decide (x ≠ v.key)) ++ [e.key] := by
    refine lastUses_renew fun x hx => ?_
    have hxkeys := h.mem_used.mp hx
    rw [map_key_set]
    constructor
    · rintro ⟨hmem, hne⟩ rfl
      rcases hkey with hsame | hnew
      · exact hne hsame.symm
      · exact not_mem_set_of_nodup h.nodup hvkey hne hmem
    · intro hne
      refine ⟨mem_set_of_ne hvkey hxkeys hne, ?_⟩
      rintro rfl
      rcases hkey with hsame | hnew
      · exact hne hsame
      · exact hnew hxkeys
  refine ⟨?_, ?_, ?_, ?_⟩
  · show ((s.tlb.entries.set i e).map TlbEntry.key).Nodup
    rcases hkey with hsame | hnew
    · rw [map_key_set_same hv hsame]
      exact h.nodup
    · rw [map_key_set]
      exact nodup_set h.nodup hnew
  · exact (List.length_set).le.trans h.length
  · show Stamped TlbEntry.key TlbEntry.lruTimestamp (s.tlb.entries.set i e)
      (lastUses s.used ((s.tlb.entries.set i e).map TlbEntry.key) e.key)
    rw [hfilter]
    exact hrenewed
  · intro x hx
    rcases List.mem_or_eq_of_mem_set hx with hx | rfl
    · exact (h.below x hx).trans (Nat.lt_succ_self _)
    · exact hstamp ▸ Nat.lt_succ_self _

/-- A free slot is filled with the latest stamp. -/
theorem Recent.grow (h : Recent cfg s) {e : TlbEntry} {p : Nat} (inserted : List (Int × Int))
    (hmiss : e.key ∉ s.tlb.keys) (hfree : s.tlb.entries.length < cfg.tlbEntries)
    (hstamp : e.lruTimestamp = s.tlb.lruTimestampCounter) :
    Recent cfg ⟨⟨s.tlb.entries ++ [e], p, s.tlb.lruTimestampCounter + 1⟩, inserted,
      lastUses s.used ((s.tlb.entries ++ [e]).map TlbEntry.key) e.key, s.flushPointer⟩ := by
  have hkeys : (s.tlb.entries ++ [e]).map TlbEntry.key = s.tlb.keys ++ [e.key] := List.map_append
  have hall : lastUses s.used ((s.tlb.entries ++ [e]).map TlbEntry.key) e.key = s.used ++ [e.key] := by
    refine lastUses_grow (fun x hx => ?_) (fun hmem => hmiss (h.mem_used.mp hmem))
    rw [hkeys]
    exact List.mem_append_left _ (h.mem_used.mp hx)
  refine ⟨?_, ?_, ?_, ?_⟩
  · show ((s.tlb.entries ++ [e]).map TlbEntry.key).Nodup
    rw [hkeys, ← List.concat_eq_append]
    exact List.Nodup.concat hmiss h.nodup
  · simp only [List.length_append, List.length_singleton]
    omega
  · show Stamped TlbEntry.key TlbEntry.lruTimestamp (s.tlb.entries ++ [e])
      (lastUses s.used ((s.tlb.entries ++ [e]).map TlbEntry.key) e.key)
    rw [hall]
    exact h.stamped.grow fun x hx => hstamp ▸ h.below x hx
  · intro x hx
    rcases List.mem_append.mp hx with hx | hx
    · exact (h.below x hx).trans (Nat.lt_succ_self _)
    · rw [List.mem_singleton.mp hx]
      exact hstamp ▸ Nat.lt_succ_self _

/-- **One step of the TLB under LRU**, as long as the counter has not come round. -/
theorem Recent.step (h : Recent cfg s) (hn : 0 < cfg.tlbEntries) (halg : cfg.tlbAlgorithm = .lru)
    (hbound : s.tlb.lruTimestampCounter + (if l.isTranslation then 1 else 0) < 2 ^ 64)
    (hstep : s.step cfg l = some s') :
    Recent cfg s' ∧ EvictsOldest ⟨s, l, s'⟩ ∧ VictimInside cfg ⟨s, l, s'⟩ ∧
      s'.tlb.lruTimestampCounter = s.tlb.lruTimestampCounter + if l.isTranslation then 1 else 0 := by
  cases l with
  | flush =>
    obtain rfl := Option.some.inj hstep
    rw [tlbFlush_eq hn]
    refine ⟨⟨List.nodup_nil, Nat.zero_le _, Stamped.nil _ _, fun _ he => absurd he (by simp)⟩, ?_, ?_,
      rfl⟩
    · exact fun htrans => absurd htrans (by simp [TlbAction.isTranslation])
    · exact fun hrep => hrep.elim
  | translate pe page pid =>
    obtain ⟨⟨t', frame⟩, hframe, rfl⟩ := Option.map_eq_some_iff.mp hstep
    have hlt : s.tlb.lruTimestampCounter + 1 < 2 ^ 64 := hbound
    have hnext : nextTimestamp s.tlb.lruTimestampCounter = s.tlb.lruTimestampCounter + 1 :=
      Nat.mod_eq_of_lt hlt
    rcases frameOf_cases hn hframe with ⟨i, e, hget, hkey, heq⟩ | ⟨hmiss, hfree, heq⟩ |
      ⟨hmiss, hfull, heq⟩
    · -- a hit: the same pages as before
      rw [if_pos halg, hnext] at heq
      subst heq
      have hmem : (page, pid) ∈ s.tlb.keys :=
        List.mem_map.mpr ⟨e, List.mem_of_getElem? hget, hkey⟩
      rw [← hkey]
      refine ⟨h.renew _ hget rfl (Or.inl rfl), fun _ k hk hgone => absurd ?_ hgone,
        fun hrep => absurd hmem hrep.1, rfl⟩
      have hsame := map_key_set_same (e := { e with lruTimestamp := s.tlb.lruTimestampCounter }) hget rfl
      have hkept : k ∈ s.tlb.keys := hk
      rw [Tlb.keys, ← hsame] at hkept
      exact hkept
    · -- a free slot
      rw [hnext] at heq
      subst heq
      refine ⟨h.grow _ hmiss hfree rfl, fun _ k hk hgone => absurd ?_ hgone,
        fun hrep => absurd hrep.2 (not_le.mpr hfree), rfl⟩
      unfold Tlb.keys
      rw [List.map_append]
      exact List.mem_append_left _ hk
    · -- a replacement
      obtain ⟨v, hv, holdest⟩ := h.victim hn halg (by omega) hfull
      rw [hnext] at heq
      subst heq
      refine ⟨h.renew _ hv rfl (Or.inr hmiss), fun _ k hk hgone => ?_,
        fun _ => (List.getElem?_eq_some_iff.mp hv).1, rfl⟩
      have hgone' : k ∉ s.tlb.keys.set (tlbVictim cfg s.tlb) (page, pid) := by
        rw [Tlb.keys, map_key_set] at hgone
        exact hgone
      have hslot := getElem?_of_replaced hk hgone'
      rw [Tlb.keys, List.getElem?_map, hv, Option.map_some, Option.some.injEq] at hslot
      exact hslot ▸ holdest

/-- The counter counts the translations. -/
theorem counter_run (hn : 0 < cfg.tlbEntries) (halg : cfg.tlbAlgorithm = .lru)
    {tr : List (Transition Watched TlbAction)} (hr : (watchedTlb cfg).Run tr s) :
    tr.countP (fun x => x.label.isTranslation) < 2 ^ 64 →
    Recent cfg s ∧ s.tlb.lruTimestampCounter = tr.countP (fun x => x.label.isTranslation) ∧
      ∀ x ∈ tr, EvictsOldest x ∧ VictimInside cfg x := by
  induction hr with
  | start hinit =>
    intro _
    obtain rfl := hinit
    exact ⟨recent_start, rfl, by simp⟩
  | @step tr s s' l hrun hst ih =>
    intro hcount
    simp only [List.countP_append, List.countP_singleton] at hcount ⊢
    obtain ⟨hrecent, hcounter, hall⟩ := ih (by omega)
    obtain ⟨hrecent', holdest, hinside, hcounter'⟩ := hrecent.step hn halg (by omega) hst
    refine ⟨hrecent', by omega, fun x hx => ?_⟩
    rcases List.mem_append.mp hx with hx | hx
    · exact hall x hx
    · rw [List.mem_singleton.mp hx]
      exact ⟨holdest, hinside⟩

/-- **LRU replaces the least recently used.**  Along every run of fewer than `2 ^ 64` translations, with
clean-ups anywhere between them, every replacement takes the page whose last use is oldest, and the index of
the victim is that of an entry. -/
theorem evictsOldest (hn : 0 < cfg.tlbEntries) (halg : cfg.tlbAlgorithm = .lru)
    {tr : List (Transition Watched TlbAction)} (hr : (watchedTlb cfg).Run tr s)
    (hcount : tr.countP (fun x => x.label.isTranslation) < 2 ^ 64) :
    ∀ x ∈ tr, EvictsOldest x ∧ VictimInside cfg x := (counter_run hn halg hr hcount).2.2

/-- The theorem at work: the page used again stays, the other is replaced. -/
theorem evictsOldest_used_again :
    ∃ tr s, (watchedTlb (twoEntryTlb .lru)).Run tr s ∧ s.tlb.keys = [(0, 0), (2, 0)] ∧
      (∃ x ∈ tr, Replaces (twoEntryTlb .lru) x.src x.label ∧ x.src.tlb.keys = [(0, 0), (1, 0)]) ∧
      ∀ x ∈ tr, EvictsOldest x ∧ VictimInside (twoEntryTlb .lru) x := by
  obtain ⟨tr, s, hrun, htest⟩ := Lts.exists_run_of_drive Watched.start
    (Watched.step (twoEntryTlb .lru)) [touch 0, touch 1, touch 0, touch 2]
    (fun tr s => decide (s.tlb.keys = [(0, 0), (2, 0)]) &&
      (tr.any fun x => decide (Replaces (twoEntryTlb .lru) x.src x.label) &&
        decide (x.src.tlb.keys = [(0, 0), (1, 0)])) &&
      decide (tr.countP (fun x => x.label.isTranslation) = 4)) (by decide +kernel)
  simp only [Bool.and_eq_true, decide_eq_true_eq, List.any_eq_true] at htest
  obtain ⟨⟨hkeys, hreplaces⟩, hcount⟩ := htest
  exact ⟨tr, s, hrun, hkeys, hreplaces, evictsOldest (by decide) rfl hrun (by omega)⟩

end Lru

/-! ## 5. The steps of the MMU -/

section Mmu

variable {cfg : Config} {pe : PageEntries} {pid : Int} {t t' t'' : Tlb} {mmu mmu' : Mmu}
  {mem mem' : Bytes}

/-- Pages translated one after the other. -/
def translateAll (cfg : Config) (pe : PageEntries) : List (Int × Int) → Tlb → Option Tlb
  | [], t => some t
  | k :: rest, t => (frameOf cfg pe t k.1 k.2).bind fun x => translateAll cfg pe rest x.1

/-- The one TLB comes from the other by translations. -/
def Translated (cfg : Config) (pe : PageEntries) (t t' : Tlb) : Prop :=
  ∃ pages, translateAll cfg pe pages t = some t'

theorem Translated.refl (t : Tlb) : Translated cfg pe t t := ⟨[], rfl⟩

theorem Translated.of_frameOf {page pid frame : Int} (h : frameOf cfg pe t page pid = some (t', frame)) :
    Translated cfg pe t t' := ⟨[(page, pid)], by simp [translateAll, h]⟩

theorem translateAll_append (pages more : List (Int × Int)) : ∀ t,
    translateAll cfg pe (pages ++ more) t =
      (translateAll cfg pe pages t).bind fun t => translateAll cfg pe more t := by
  induction pages with
  | nil => exact fun t => rfl
  | cons k rest ih =>
    intro t
    simp only [List.cons_append, translateAll, ih, Option.bind_assoc]

theorem Translated.trans (h : Translated cfg pe t t') (h' : Translated cfg pe t' t'') :
    Translated cfg pe t t'' := by
  obtain ⟨pages, hpages⟩ := h
  obtain ⟨more, hmore⟩ := h'
  exact ⟨pages ++ more, by rw [translateAll_append, hpages]; exact hmore⟩

/-- The address of an access. -/
theorem translate_translated {logicDir addr : Int} (h : translate cfg pe pid t logicDir = some (t', addr)) :
    Translated cfg pe t t' := by
  unfold translate at h
  split at h
  · obtain ⟨x, hx, heq⟩ := Option.map_eq_some_iff.mp h
    obtain ⟨rfl, -⟩ := Prod.mk.inj heq
    exact .of_frameOf hx
  · obtain ⟨f, -, heq⟩ := Option.map_eq_some_iff.mp h
    obtain ⟨rfl, -⟩ := Prod.mk.inj heq
    exact .refl t

/-- The address of a victim. -/
theorem victimAddress_translated {victim : CacheEntry} {addr : Int}
    (h : victimAddress cfg pe t victim = some (t', addr)) : Translated cfg pe t t' := by
  unfold victimAddress at h
  split at h
  · obtain ⟨x, hx, heq⟩ := Option.map_eq_some_iff.mp h
    obtain ⟨rfl, -⟩ := Prod.mk.inj heq
    exact .of_frameOf hx
  · obtain ⟨f, -, heq⟩ := Option.map_eq_some_iff.mp h
    obtain ⟨rfl, -⟩ := Prod.mk.inj heq
    exact .refl t

theorem selectVictimEntry_translated {r : Option Nat}
    (h : selectVictimEntry cfg pe mmu mem = some (mmu', mem', r)) :
    Translated cfg pe mmu.tlb mmu'.tlb := by
  unfold selectVictimEntry at h
  obtain ⟨found, -, h⟩ := Option.bind_eq_some_iff.mp h
  obtain ⟨victim, -, h⟩ := Option.bind_eq_some_iff.mp h
  split at h
  · obtain ⟨x, haddr, h⟩ := Option.bind_eq_some_iff.mp h
    split at h
    · obtain ⟨rfl, -⟩ := Prod.mk.inj (Option.some.inj h)
      exact victimAddress_translated haddr
    · obtain ⟨m, -, heq⟩ := Option.map_eq_some_iff.mp h
      obtain ⟨rfl, -⟩ := Prod.mk.inj heq
      exact victimAddress_translated haddr
  · obtain ⟨rfl, -⟩ := Prod.mk.inj (Option.some.inj h)
    exact .refl _

/-- The copy at the end of a WRITE does not touch the TLB. -/
theorem storeInto_tlb {m : Mmu} {i : Nat} {offset : Int} {value : List UInt8} {b : Bool}
    (h : storeInto cfg m mem i offset value = some (mmu', mem', b)) : mmu'.tlb = m.tlb := by
  unfold storeInto at h
  split at h
  · exact absurd h (by simp)
  · obtain ⟨rfl, -⟩ := Prod.mk.inj (Option.some.inj h)
    rfl

/-- **A READ or WRITE changes the TLB by translations only.** -/
theorem execution_translated {a : Access} {b : Bool}
    (h : execution cfg pe pid mmu mem a = some (mmu', mem', b)) :
    Translated cfg pe mmu.tlb mmu'.tlb := by
  cases a with
  | read logicDir size =>
    simp only [execution] at h
    split at h
    · unfold readCached at h
      split at h
      · obtain ⟨rfl, -⟩ := Prod.mk.inj (Option.some.inj h)
        exact .refl _
      · obtain ⟨⟨mmu1, mem1, r⟩, hsel, h⟩ := Option.bind_eq_some_iff.mp h
        have htlb := selectVictimEntry_translated hsel
        cases r with
        | none =>
          obtain ⟨rfl, -⟩ := Prod.mk.inj (Option.some.inj h)
          exact htlb
        | some i =>
          obtain ⟨mmu2, hload, heq⟩ := Option.map_eq_some_iff.mp h
          obtain ⟨rfl, -⟩ := Prod.mk.inj heq
          obtain ⟨x, htrans, hbytes⟩ := Option.bind_eq_some_iff.mp hload
          obtain ⟨bytes, -, rfl⟩ := Option.map_eq_some_iff.mp hbytes
          exact htlb.trans (translate_translated htrans)
    · obtain ⟨x, htrans, h⟩ := Option.bind_eq_some_iff.mp h
      obtain ⟨bytes, -, heq⟩ := Option.map_eq_some_iff.mp h
      obtain ⟨rfl, -⟩ := Prod.mk.inj heq
      exact translate_translated htrans
  | write logicDir value =>
    simp only [execution] at h
    split at h
    · unfold writeCached at h
      simp only at h
      split at h
      · rw [storeInto_tlb h]
        exact .refl _
      · obtain ⟨⟨mmu1, mem1, r⟩, hsel, h⟩ := Option.bind_eq_some_iff.mp h
        have htlb := selectVictimEntry_translated hsel
        cases r with
        | none =>
          obtain ⟨rfl, -⟩ := Prod.mk.inj (Option.some.inj h)
          exact htlb
        | some i =>
          rw [storeInto_tlb h]
          exact htlb
    · obtain ⟨x, htrans, h⟩ := Option.bind_eq_some_iff.mp h
      obtain ⟨bytes, -, heq⟩ := Option.map_eq_some_iff.mp h
      obtain ⟨rfl, -⟩ := Prod.mk.inj heq
      exact translate_translated htrans

theorem writebackAll_translated : ∀ {entries : List CacheEntry} {t : Tlb} {mem : Bytes},
    writebackAll cfg pe entries t mem = some (t', mem') → Translated cfg pe t t' := by
  intro entries
  induction entries with
  | nil =>
    intro t mem h
    obtain ⟨rfl, -⟩ := Prod.mk.inj (Option.some.inj h)
    exact .refl t
  | cons entry rest ih =>
    intro t mem h
    obtain ⟨⟨t1, mem1⟩, hone, hrest⟩ := Option.bind_eq_some_iff.mp h
    refine Translated.trans ?_ (ih hrest)
    unfold writebackIfDirty at hone
    split at hone
    · obtain ⟨x, haddr, hwrite⟩ := Option.bind_eq_some_iff.mp hone
      obtain ⟨m, -, heq⟩ := Option.map_eq_some_iff.mp hwrite
      obtain ⟨rfl, -⟩ := Prod.mk.inj heq
      obtain ⟨y, hframe, rfl⟩ := Option.map_eq_some_iff.mp haddr
      exact .of_frameOf hframe
    · obtain ⟨rfl, -⟩ := Prod.mk.inj (Option.some.inj hone)
      exact .refl t

/-- **`mmu_process_cleanup` translates the pages it writes back, and then flushes the TLB.** -/
theorem mmuProcessCleanup_translated (h : mmuProcessCleanup cfg pe mmu mem = some (mmu', mem')) :
    ∃ t, Translated cfg pe mmu.tlb t ∧ mmu'.tlb = tlbFlush cfg t := by
  unfold mmuProcessCleanup at h
  obtain ⟨⟨t, m⟩, hback, heq⟩ := Option.map_eq_some_iff.mp h
  obtain ⟨rfl, -⟩ := Prod.mk.inj heq
  refine ⟨t, ?_, rfl⟩
  split at hback
  · exact writebackAll_translated hback
  · obtain ⟨rfl, -⟩ := Prod.mk.inj (Option.some.inj hback)
    exact .refl _

/-- Translations are a run of the watched TLB. -/
theorem exists_run_of_translated {tr : List (Transition Watched TlbAction)} {s : Watched}
    (hr : (watchedTlb cfg).Run tr s) (h : Translated cfg pe s.tlb t') :
    ∃ tr' s', (watchedTlb cfg).Run (tr ++ tr') s' ∧ s'.tlb = t' := by
  obtain ⟨pages, hpages⟩ := h
  induction pages generalizing tr s with
  | nil => exact ⟨[], s, by simpa using hr, Option.some.inj hpages⟩
  | cons k rest ih =>
    obtain ⟨x, hframe, hrest⟩ := Option.bind_eq_some_iff.mp hpages
    have hstep : s.step cfg (.translate pe k.1 k.2) = some
        { s with
          tlb := x.1
          inserted := arrivals s.inserted x.1.keys k
          used := lastUses s.used x.1.keys k } := Option.map_eq_some_iff.mpr ⟨x, hframe, rfl⟩
    obtain ⟨tr', s', hrun, htlb⟩ := ih (hr.step hstep) hrest
    exact ⟨_, s', by rw [List.append_assoc] at hrun; exact hrun, htlb⟩

/-- **What the MMU does to its TLB is a run of the watched TLB**: an access goes on with translations, a
clean-up with translations and a flush. -/
theorem exists_run_of_mmu {tr : List (Transition Watched TlbAction)} {s : Watched} {cache : Cache}
    (hr : (watchedTlb cfg).Run tr s)
    (h : (∃ a b, execution cfg pe pid ⟨s.tlb, cache⟩ mem a = some (mmu', mem', b)) ∨
      mmuProcessCleanup cfg pe ⟨s.tlb, cache⟩ mem = some (mmu', mem')) :
    ∃ tr' s', (watchedTlb cfg).Run (tr ++ tr') s' ∧ s'.tlb = mmu'.tlb := by
  rcases h with ⟨a, b, hexec⟩ | hclean
  · exact exists_run_of_translated hr (execution_translated hexec)
  · obtain ⟨t, htrans, hflush⟩ := mmuProcessCleanup_translated hclean
    obtain ⟨tr', s', hrun, htlb⟩ := exists_run_of_translated hr htrans
    have hstep : s'.step cfg .flush = some ⟨tlbFlush cfg s'.tlb, [], [], s'.tlb.fifoPointer⟩ := rfl
    have hrun' := hrun.step hstep
    rw [List.append_assoc] at hrun'
    exact ⟨_, _, hrun', by rw [hflush, ← htlb]⟩

end Mmu

end Tpso.Cpu
