/-
# What `cache_load_page` loads

The page that a READ misses is asked for from the ADDRESS that is read, and what memoria answers is stored
from the start of the entry on.  For the first byte of a page the two agree.  For any other the entry holds
the page shifted: its last bytes are those of the next frame, and when the page read would go past the end
of the user space memoria answers with zeros for all of it.
-/
import Tpso.Cpu.Direct

namespace Tpso.Cpu

open Tpso.Lib
open Tpso.Memoria (pageEntries readFromUserSpace)

/-! ## 1. The bytes of a page read -/

/-- The byte at `k` of a page that is read from an address on. -/
def byteRead (cfg : Config) (m : Bytes) (addr k : Nat) : UInt8 :=
  if cfg.memoria.tamMemoria < addr + cfg.pageSize then 0 else m (addr + k)

/-- The shifted page happens to have the bytes of the page. -/
def LooksAligned (cfg : Config) (fs : List Nat) (m : Bytes) (a : Nat) : Prop :=
  ∀ k < cfg.pageSize, byteRead cfg m (byteAddr cfg fs a) k =
    m (byteAddr cfg fs (a / cfg.pageSize * cfg.pageSize) + k)

/-- The entry holds the page of an address, so that every byte of the page is in it as a READ without
the cache would return it. -/
structure Mirrors (cfg : Config) (fs : List Nat) (m : Bytes) (a : Nat) (e : CacheEntry) : Prop where
  valid : e.isValid = true
  page : e.page = (a / cfg.pageSize : Nat)
  content : ∀ k < cfg.pageSize,
    e.content k = m (byteAddr cfg fs (a / cfg.pageSize * cfg.pageSize) + k)
  read : ∀ l, l / cfg.pageSize = a / cfg.pageSize →
    readFromUserSpace cfg.memoria m (byteAddr cfg fs l) 1 = some [e.content (l % cfg.pageSize)]

section Loading

variable {cfg : Config} {s : Memoria.State} {pid : Int} {fs : List Nat} {m : Bytes}

/-- A block that starts in the user space is read as it is, or as zeros. -/
theorem readFromUserSpace_nat {addr size : Nat} (haddr : addr ≤ cfg.memoria.tamMemoria)
    (hsize : size ≤ cfg.memoria.tamMemoria) :
    readFromUserSpace cfg.memoria m addr size =
      some (if cfg.memoria.tamMemoria < addr + size then List.replicate size 0
        else m.slice addr size) := by
  unfold readFromUserSpace
  rw [if_neg (not_lt.mpr (by positivity)), exceedsUserSpace_nat haddr hsize]
  by_cases hover : cfg.memoria.tamMemoria < addr + size
  · simp [hover]
  · simp [hover]

/-- The bytes of a page read. -/
theorem readFromUserSpace_page {addr : Nat} (haddr : addr ≤ cfg.memoria.tamMemoria)
    (hpage : cfg.pageSize ≤ cfg.memoria.tamMemoria) :
    ∃ bytes, readFromUserSpace cfg.memoria m addr cfg.pageSize = some bytes ∧
      ∀ k < cfg.pageSize, bytes.getD k 0 = byteRead cfg m addr k := by
  refine ⟨_, readFromUserSpace_nat haddr hpage, fun k hk => ?_⟩
  unfold byteRead
  split
  · simp [hk]
  · exact Bytes.getD_slice hk

/-- An address and the start of its page are in one frame. -/
theorem Resident.page_start (h : Resident cfg s pid fs) {a : Nat} (ha : a < fs.length * cfg.pageSize) :
    byteAddr cfg fs a = byteAddr cfg fs (a / cfg.pageSize * cfg.pageSize) + a % cfg.pageSize ∧
      byteAddr cfg fs (a / cfg.pageSize * cfg.pageSize) + cfg.pageSize ≤ cfg.memoria.tamMemoria := by
  have hps := pageSize_pos cfg
  obtain ⟨f, hf, hend, haddr⟩ := h.frame ha
  have hstart : byteAddr cfg fs (a / cfg.pageSize * cfg.pageSize) = f * cfg.pageSize := by
    simp [byteAddr, Nat.mul_div_cancel _ hps, hf]
  rw [hstart, haddr]
  exact ⟨rfl, hend⟩

/-- **What is loaded**: the entry holds what a page read from the address gives. -/
theorem cacheLoadPage_loads (h : Resident cfg s pid fs) {mmu : Mmu}
    (htlb : TlbOk cfg (pageEntries s) mmu.tlb) {a i : Nat} (ha : a < fs.length * cfg.pageSize)
    (hi : i < mmu.cache.entries.length) (m : Bytes) :
    ∃ mmu' e, cacheLoadPage cfg (pageEntries s) mmu m a i pid = some mmu' ∧
      mmu'.cache.entries[i]? = some e ∧ e.isValid = true ∧ e.page = (a / cfg.pageSize : Nat) ∧
      ∀ k < cfg.pageSize, e.content k = byteRead cfg m (byteAddr cfg fs a) k := by
  obtain ⟨f, hf, hend, haddr⟩ := h.frame ha
  have hmod := Nat.mod_lt a (pageSize_pos cfg)
  have hwalk := h.walk hf
  have hpage : pageOf cfg a = (a / cfg.pageSize : Nat) := (Int.ofNat_tdiv a cfg.pageSize).symm
  have hoffset : offsetOf cfg a = (a % cfg.pageSize : Nat) := (Int.ofNat_tmod a cfg.pageSize).symm
  obtain ⟨tlb', htrans, -⟩ := @translate_eq _ _ _ _ _ (a : Int) htlb (hpage ▸ hwalk)
  rw [hoffset, physicalAddress_eq (h.lt f (List.mem_of_getElem? hf)) hmod.le, ← haddr] at htrans
  have hin : byteAddr cfg fs a ≤ cfg.memoria.tamMemoria := by omega
  obtain ⟨bytes, hread, hbytes⟩ := readFromUserSpace_page (m := m) hin (by omega)
  refine ⟨_, (mmu.cache.entries[i]).loaded (pageOf cfg a) pid bytes,
    Option.bind_eq_some_iff.mpr ⟨_, htrans, Option.map_eq_some_iff.mpr ⟨bytes, hread, rfl⟩⟩, ?_, rfl,
    hpage, hbytes⟩
  simp [hi]

/-- **Exactly when a loaded entry mirrors its page.**  For every resident process whose page table maps
its pages to its frames, every address inside it, with a TLB or without one, and every content of the user
space: the entry after `cache_load_page` holds the page of the address if and only if the address is the
start of the page, or the bytes read behind it happen to be those of the page. -/
theorem mirrors_iff (h : Resident cfg s pid fs) {mmu : Mmu} (htlb : TlbOk cfg (pageEntries s) mmu.tlb)
    {a i : Nat} (ha : a < fs.length * cfg.pageSize) (hi : i < mmu.cache.entries.length) (m : Bytes) :
    (∃ mmu' e, cacheLoadPage cfg (pageEntries s) mmu m a i pid = some mmu' ∧
        mmu'.cache.entries[i]? = some e ∧ Mirrors cfg fs m a e) ↔
      a % cfg.pageSize = 0 ∨ LooksAligned cfg fs m a := by
  have hps := pageSize_pos cfg
  obtain ⟨hstart, hend⟩ := h.page_start ha
  obtain ⟨mmu', e, hload, hget, hvalid, hpage, hcontent⟩ := cacheLoadPage_loads h htlb ha hi m
  have haligned : a % cfg.pageSize = 0 → LooksAligned cfg fs m a := by
    intro hzero k hk
    rw [hstart, hzero, Nat.add_zero, byteRead, if_neg (by omega)]
  constructor
  · rintro ⟨mmu2, e2, hload2, hget2, hmirror⟩
    obtain rfl : mmu' = mmu2 := Option.some.inj (hload.symm.trans hload2)
    obtain rfl : e = e2 := Option.some.inj (hget.symm.trans hget2)
    exact Or.inr fun k hk => (hcontent k hk).symm.trans (hmirror.content k hk)
  · intro hcond
    have hlooks : LooksAligned cfg fs m a := hcond.elim haligned id
    have hpaged : ∀ k < cfg.pageSize,
        e.content k = m (byteAddr cfg fs (a / cfg.pageSize * cfg.pageSize) + k) :=
      fun k hk => (hcontent k hk).trans (hlooks k hk)
    refine ⟨mmu', e, hload, hget, hvalid, hpage, hpaged, fun l hl => ?_⟩
    have hmod := Nat.mod_lt l hps
    have hinside : l < fs.length * cfg.pageSize := by
      rw [← Nat.div_lt_iff_lt_mul hps, hl, Nat.div_lt_iff_lt_mul hps]
      exact ha
    obtain ⟨hl', -⟩ := h.page_start hinside
    rw [hl] at hl'
    have hin : byteAddr cfg fs l + 1 ≤ cfg.memoria.tamMemoria := by omega
    have hread := readFromUserSpace_nat (m := m) (Nat.le_of_succ_le hin)
      (Nat.le_of_add_left_le hin)
    rw [if_neg (by omega)] at hread
    rw [hpaged _ hmod, ← hl']
    simpa [Bytes.slice] using hread

end Loading

/-- An MMU with one entry of the cache, which is free. -/
def oneEntryMmu : Mmu := ⟨⟨[], 0, 0⟩, ⟨[⟨false, 0, 0, zeros, false, false, 0, 0⟩], 0⟩⟩

theorem tlbOk_oneEntryMmu (pe : PageEntries) : TlbOk bareConfig pe oneEntryMmu.tlb := by
  simp [TlbOk, oneEntryMmu]

/-- The theorem at work on the first byte of the second page of a process of two. -/
theorem mirrors_iff_page_start :
    ∃ tr s, (Memoria.memoria Memoria.smallConfig).Run tr s ∧ Resident bareConfig s 0 [0, 1] ∧
      ∃ mmu' e, cacheLoadPage bareConfig (pageEntries s) oneEntryMmu s.userSpace (16 : Nat) 0 0 =
          some mmu' ∧ mmu'.cache.entries[0]? = some e ∧
        Mirrors bareConfig [0, 1] s.userSpace 16 e := by
  obtain ⟨tr, s, hrun, htest⟩ := Lts.exists_run_of_drive (Memoria.State.start Memoria.smallConfig)
    (fun s r => (Memoria.handle Memoria.smallConfig s r).map Prod.fst)
    [Memoria.initRequest 0 32, .writeMemory 16 [104, 105]]
    (fun tr s => (tr.all fun x => !isResumption x.label) && holdsFrames s 0 [0, 1])
    (by decide +kernel)
  simp only [Bool.and_eq_true, List.all_eq_true, Bool.not_eq_true'] at htest
  have hres := resident_of_drive hrun htest.1 htest.2
  exact ⟨tr, s, hrun, hres, (@mirrors_iff _ _ _ _ hres oneEntryMmu (tlbOk_oneEntryMmu _) 16 0
    (by decide) (by decide) s.userSpace).mpr (Or.inl (by decide))⟩

/-- **A page loaded from its middle is shifted.**  The first byte of the page is 7, and the entry that a
READ of address 3 loads starts with a zero. -/
theorem not_mirrors :
    ¬ ∀ (cfg : Config) (tr : List (Transition Memoria.State Memoria.Request)) (s : Memoria.State)
        (pid : Int) (fs : List Nat) (mmu : Mmu) (a i : Nat),
      (Memoria.memoria cfg.memoria).Run tr s → Resident cfg s pid fs →
      TlbOk cfg (pageEntries s) mmu.tlb → a < fs.length * cfg.pageSize →
      i < mmu.cache.entries.length →
      ∃ mmu' e, cacheLoadPage cfg (pageEntries s) mmu s.userSpace a i pid = some mmu' ∧
        mmu'.cache.entries[i]? = some e ∧ Mirrors cfg fs s.userSpace a e := by
  intro hall
  obtain ⟨tr, s, hrun, htest⟩ := Lts.exists_run_of_drive (Memoria.State.start Memoria.smallConfig)
    (fun s r => (Memoria.handle Memoria.smallConfig s r).map Prod.fst)
    [Memoria.initRequest 0 32, .writeMemory 0 [7]]
    (fun tr s => (tr.all fun x => !isResumption x.label) && holdsFrames s 0 [0, 1] &&
      decide (s.userSpace 0 = 7) && decide (s.userSpace 3 = 0)) (by decide +kernel)
  simp only [Bool.and_eq_true, List.all_eq_true, Bool.not_eq_true', decide_eq_true_eq] at htest
  obtain ⟨⟨⟨hnone, hholds⟩, hseven⟩, hzero⟩ := htest
  have hres := resident_of_drive hrun hnone hholds
  obtain ⟨mmu', e, hload, hget, hmirror⟩ := hall bareConfig tr s 0 [0, 1] oneEntryMmu 3 0 hrun hres
    (tlbOk_oneEntryMmu _) (by decide) (by decide)
  obtain ⟨mmu2, e2, hload2, hget2, -, -, hcontent⟩ :=
    cacheLoadPage_loads hres (tlbOk_oneEntryMmu _) (a := 3) (i := 0) (by decide) (by decide) s.userSpace
  obtain rfl : mmu' = mmu2 := Option.some.inj (hload.symm.trans hload2)
  obtain rfl : e = e2 := Option.some.inj (hget.symm.trans hget2)
  have hbyte : s.userSpace 3 = s.userSpace 0 :=
    (hcontent 0 (by decide)).symm.trans (hmirror.content 0 (by decide))
  rw [hzero, hseven] at hbyte
  exact absurd hbyte (by decide)

end Tpso.Cpu
