/-
# What a cached READ or WRITE does

The cache of a CPU is a family of patches over the user space: the modified region of each valid and
modified entry (`patchOf`).  This module says once what a READ or a WRITE does to cache and memory, for
accesses to pages that are mapped (`Outcome`, `execution_outcome`): a hit leaves the memory alone; a
miss first writes the patch of the victim back.  The results about caches are case analyses over the
outcomes.

The condition on the victim is needed: `select_victim_entry` takes a dirty victim at physical address 0
for a translation that failed, and gives up.
-/
import Tpso.Cpu.Translation
import Tpso.Cpu.Victim
import Tpso.Lib.Overlay

namespace Tpso.Cpu

open Tpso.Lib
open Tpso.Memoria (toInt32 writeToUserSpace readFromUserSpace)

/-! ## 1. Entries as patches -/

/-- What an entry keeps back: its modified region, placed where the page starts in the user space. -/
def patchOf (base : Int → Int → Nat) (e : CacheEntry) : Patch Nat UInt8 where
  dom x := e.isValid = true ∧ e.modifiedBit = true ∧
    base e.pid e.page + e.modifiedStart ≤ x ∧ x < base e.pid e.page + e.modifiedEnd
  val x := e.content (x - base e.pid e.page)

/-- The patch of a slot of the cache. -/
def patchAt (base : Int → Int → Nat) (c : Cache) (i : Nat) : Patch Nat UInt8 :=
  match c.entries[i]? with
  | some e => patchOf base e
  | none => ⟨fun _ => False, fun _ => 0⟩

variable {base : Int → Int → Nat}

theorem patchOf_congr {e e' : CacheEntry} (h : e'.forgetUse = e.forgetUse) :
    patchOf base e' = patchOf base e := by
  have hfields : patchOf base e' = patchOf base e'.forgetUse := rfl
  rw [hfields, h]
  rfl

theorem patchAt_of_getElem? (base : Int → Int → Nat) {c : Cache} {i : Nat} {e : CacheEntry} (h : c.entries[i]? = some e) :
    patchAt base c i = patchOf base e := by
  simp [patchAt, h]

/-- The slots other than `i` are the same, up to use bits. -/
def SameElse (i : Nat) (c c' : Cache) : Prop :=
  ∀ j, j ≠ i → (c'.entries[j]?).map CacheEntry.forgetUse = (c.entries[j]?).map CacheEntry.forgetUse

theorem patchAt_congr {c c' : Cache} {j : Nat}
    (h : (c'.entries[j]?).map CacheEntry.forgetUse = (c.entries[j]?).map CacheEntry.forgetUse) :
    patchAt base c' j = patchAt base c j := by
  unfold patchAt
  cases hc : c.entries[j]? with
  | none =>
    cases hc' : c'.entries[j]? with
    | none => rfl
    | some e' => simp [hc, hc'] at h
  | some e =>
    cases hc' : c'.entries[j]? with
    | none => simp [hc, hc'] at h
    | some e' => exact patchOf_congr (by simpa [hc, hc'] using h)

theorem SameButUse.sameElse {c c' : Cache} (h : SameButUse c c') (i : Nat) : SameElse i c c' := by
  intro j _
  have hj : (c'.entries.map CacheEntry.forgetUse)[j]? = (c.entries.map CacheEntry.forgetUse)[j]? := by
    rw [h]
  simpa using hj

theorem SameElse.trans {i : Nat} {c c' c'' : Cache} (h : SameElse i c c') (h' : SameElse i c' c'') :
    SameElse i c c'' := fun j hj => (h' j hj).trans (h j hj)

theorem sameElse_set (i : Nat) (c : Cache) (e : CacheEntry) (p : Nat) :
    SameElse i c ⟨c.entries.set i e, p⟩ := by
  intro j hj
  simp [List.getElem?_set_ne (Ne.symm hj)]

theorem sameElse_modify (i : Nat) (c : Cache) (f : CacheEntry → CacheEntry) :
    SameElse i c { c with entries := c.entries.modify i f } := by
  intro j hj
  simp [Ne.symm hj]

/-- **The memory after the patch of slot `i` was written back.** -/
def Flushed (base : Int → Int → Nat) (c : Cache) (i : Nat) (mem mem' : Bytes) : Prop :=
  (∀ x, (patchAt base c i).dom x → mem' x = (patchAt base c i).val x) ∧
    ∀ x, ¬ (patchAt base c i).dom x → mem' x = mem x

/-! ## 2. Caches over mapped pages -/

/-- The page is mapped to a frame of the user space that starts at `base pid page`. -/
def Placed (cfg : Config) (pe : PageEntries) (base : Int → Int → Nat) (pid page : Int) : Prop :=
  ∃ f : Nat, mmuPerformPageWalk cfg pe page pid = some (f : Int) ∧ f < cfg.memoria.framesTotal ∧
    base pid page = f * cfg.pageSize

/-- What holds of an MMU whose processes stay inside their mapped pages. -/
structure MmuOk (cfg : Config) (pe : PageEntries) (base : Int → Int → Nat) (mmu : Mmu) : Prop where
  tlb : TlbOk cfg pe mmu.tlb
  length : mmu.cache.entries.length = cfg.cacheEntries
  pointer : mmu.cache.clockPointer < cfg.cacheEntries
  placed : ∀ e ∈ mmu.cache.entries, e.isValid = true → Placed cfg pe base e.pid e.page
  region : ∀ e ∈ mmu.cache.entries, e.isValid = true → e.modifiedBit = true →
    e.modifiedEnd ≤ cfg.pageSize
  distinct : ∀ (i j : Nat) (e e' : CacheEntry), mmu.cache.entries[i]? = some e → mmu.cache.entries[j]? = some e' →
    e.isValid = true → e'.isValid = true → e.page = e'.page → i = j

/-- The condition on the victim: with a TLB, the entry that the search picks is not a modified one
whose page is in frame 0. -/
def victimClear (cfg : Config) (pe : PageEntries) (cache : Cache) : Bool :=
  match findVictim cfg cache with
  | none => true
  | some (c, i) =>
    (c.entries[i]?).all fun victim =>
      !(decide (0 < cfg.tlbEntries) && victim.isValid && victim.modifiedBit &&
        decide (mmuPerformPageWalk cfg pe victim.page victim.pid = some 0))

/-! ## 3. The victim -/

section Victim

variable {cfg : Config} {pe : PageEntries} {mmu : Mmu} {mem : Bytes}

/-- The write-back of the modified region of an entry. -/
theorem writeModifiedRegion_flushed (mem : Bytes) {e : CacheEntry} {f : Nat} {c : Cache} {i : Nat}
    (hget : c.entries[i]? = some e) (hf : f < cfg.memoria.framesTotal)
    (hbase : base e.pid e.page = f * cfg.pageSize) (hvalid : e.isValid = true)
    (hmod : e.modifiedBit = true) (hregion : e.modifiedEnd ≤ cfg.pageSize) :
    ∃ mem', writeModifiedRegion cfg mem (physicalAddress cfg f 0) e = some mem' ∧
      Flushed base c i mem mem' := by
  have hpatch := patchAt_of_getElem? base hget
  have haddr : physicalAddress cfg f 0 = (f * cfg.pageSize : Nat) := by
    simpa using physicalAddress_eq (o := 0) hf (Nat.zero_le _)
  unfold writeModifiedRegion
  split
  · rename_i hlt
    have hdata : e.modifiedStart +
        (e.content.slice e.modifiedStart (e.modifiedEnd - e.modifiedStart)).length ≤ cfg.pageSize := by
      rw [Bytes.length_slice]
      omega
    have hsum : toInt32 (physicalAddress cfg f 0 + e.modifiedStart) =
        (f * cfg.pageSize + e.modifiedStart : Nat) := by
      have heq := physicalAddress_eq (o := e.modifiedStart) hf (by omega)
      unfold physicalAddress at heq
      rw [haddr, ← heq]
      push_cast
      rfl
    refine ⟨_, by rw [hsum, writeToUserSpace_eq hf hdata], ?_⟩
    constructor
    · intro x hx
      rw [hpatch] at hx ⊢
      obtain ⟨-, -, hlo, hhi⟩ := hx
      rw [hbase] at hlo hhi
      rw [Bytes.blit_of_mem hlo (by rw [Bytes.length_slice]; omega), Bytes.getD_slice (by omega)]
      show e.content _ = e.content _
      rw [hbase]
      congr 1
      omega
    · intro x hx
      rw [hpatch] at hx
      refine Bytes.blit_of_not_mem ?_
      rintro ⟨hlo, hhi⟩
      rw [Bytes.length_slice] at hhi
      exact hx ⟨hvalid, hmod, by omega, by omega⟩
  · rename_i hge
    refine ⟨mem, rfl, ?_, fun _ _ => rfl⟩
    intro x hx
    rw [hpatch] at hx
    obtain ⟨-, -, hlo, hhi⟩ := hx
    omega

/-- **`select_victim_entry` yields a slot whose patch has been written back.** -/
theorem selectVictimEntry_spec (mem : Bytes) (hn : 0 < cfg.cacheEntries) (hok : MmuOk cfg pe base mmu)
    (hclear : victimClear cfg pe mmu.cache = true) :
    ∃ tlb' c' mem' i, selectVictimEntry cfg pe mmu mem = some (⟨tlb', c'⟩, mem', some i) ∧
      TlbOk cfg pe tlb' ∧ i < cfg.cacheEntries ∧ c'.entries.length = cfg.cacheEntries ∧
      c'.clockPointer < cfg.cacheEntries ∧ SameElse i mmu.cache c' ∧
      Flushed base mmu.cache i mem mem' := by
  obtain ⟨c', i, hfind, hfound⟩ := findVictim_found hn hok.length hok.pointer
  have hlen' : c'.entries.length = cfg.cacheEntries := hfound.same.length.trans hok.length
  obtain ⟨victim, hvictim⟩ : ∃ e, c'.entries[i]? = some e :=
    ⟨_, List.getElem?_eq_getElem (hlen' ▸ hfound.lt)⟩
  -- the victim before the use bits were cleared
  obtain ⟨e, he, hsame⟩ := hfound.same.getElem? hvictim
  have hmem := List.mem_of_getElem? he
  have hpatch : patchAt base mmu.cache i = patchOf base victim := by
    rw [patchAt_of_getElem? base he, patchOf_congr hsame]
  have hval : e.isValid = victim.isValid := by
    simpa [CacheEntry.forgetUse] using (congrArg CacheEntry.isValid hsame).symm
  have hmod : e.modifiedBit = victim.modifiedBit := by
    simpa [CacheEntry.forgetUse] using (congrArg CacheEntry.modifiedBit hsame).symm
  have hpid : e.pid = victim.pid := by
    simpa [CacheEntry.forgetUse] using (congrArg CacheEntry.pid hsame).symm
  have hpage : e.page = victim.page := by
    simpa [CacheEntry.forgetUse] using (congrArg CacheEntry.page hsame).symm
  have hend : e.modifiedEnd = victim.modifiedEnd := by
    simpa [CacheEntry.forgetUse] using (congrArg CacheEntry.modifiedEnd hsame).symm
  simp only [selectVictimEntry, hfind, hvictim, Option.bind_some]
  split
  · rename_i hdirty
    have hdirty' := Bool.and_eq_true_iff.mp hdirty
    obtain ⟨f, hwalk, hf, hbase⟩ := hok.placed e hmem (hval.trans hdirty'.1)
    have hregion := hok.region e hmem (hval.trans hdirty'.1) (hmod.trans hdirty'.2)
    rw [hpid, hpage] at hwalk hbase
    rw [hend] at hregion
    obtain ⟨tlb', haddr, htlb⟩ := victimAddress_eq hok.tlb hwalk
    -- the address is not 0, or there is no TLB
    have hnot : ¬ (0 < cfg.tlbEntries ∧ physicalAddress cfg f 0 = 0) := by
      rintro ⟨htlb0, hzero⟩
      have heq : physicalAddress cfg f 0 = (f * cfg.pageSize : Nat) := by
        simpa using physicalAddress_eq (o := 0) hf (Nat.zero_le _)
      rw [heq] at hzero
      have hps : 0 < cfg.pageSize := cfg.memoria.tamPagina_pos
      have hf0 : f = 0 := by
        rcases Nat.mul_eq_zero.mp (by exact_mod_cast hzero) with h | h
        · exact h
        · omega
      rw [hf0] at hwalk
      simp only [victimClear, hfind, hvictim, Option.all_some, htlb0, hdirty'.1, hdirty'.2,
        hwalk] at hclear
      exact absurd hclear (by simp)
    obtain ⟨mem', hwrite, hflushed⟩ := writeModifiedRegion_flushed mem hvictim hf hbase
      hdirty'.1 hdirty'.2 hregion
    refine ⟨tlb', { c' with entries := c'.entries.set i victim.cleared }, mem', i, ?_, htlb,
      hfound.lt, ?_, ?_, ?_, ?_⟩
    · rw [haddr]
      simp only [Option.bind_some]
      rw [if_neg hnot, hwrite]
      rfl
    · simpa using hlen'
    · exact hfound.pointer
    · exact (hfound.same.sameElse i).trans (sameElse_set i c' _ _)
    · unfold Flushed at hflushed ⊢
      rw [patchAt_of_getElem? base hvictim] at hflushed
      rw [hpatch]
      exact hflushed
  · rename_i hclean
    refine ⟨mmu.tlb, c', mem, i, rfl, hok.tlb, hfound.lt, hlen', hfound.pointer,
      hfound.same.sameElse i, ?_, fun _ _ => rfl⟩
    intro x hx
    rw [hpatch] at hx
    exact absurd (Bool.and_eq_true_iff.mpr ⟨hx.1, hx.2.1⟩) hclean

end Victim

/-! ## 4. Accesses -/

/-- The logical address of an access. -/
def Access.logicDir : Access → Int
  | .read logicDir _ => logicDir
  | .write logicDir _ => logicDir

/-- The number of bytes of an access. -/
def Access.size : Access → Int
  | .read _ size => size
  | .write _ value => value.length

/-- The access lies inside one page. -/
def InPage (cfg : Config) (a : Access) : Prop :=
  0 ≤ a.logicDir ∧ 0 ≤ a.size ∧ offsetOf cfg a.logicDir + a.size ≤ cfg.pageSize

/-- A write inside a page ends inside it. -/
theorem InPage.write_fits {cfg : Config} {logicDir : Int} {value : List UInt8}
    (h : InPage cfg (.write logicDir value)) :
    (offsetOf cfg logicDir).toNat + value.length ≤ cfg.pageSize := by
  have hdir : 0 ≤ logicDir := h.1
  obtain ⟨-, o, ho, -⟩ := pageOf_offsetOf cfg hdir
  have hfit := h.2.2
  simp only [Access.logicDir, Access.size, ho] at hfit
  rw [ho, Int.toNat_natCast]
  omega

/-- The cache holds no valid entry of the page. -/
def Missing (c : Cache) (page : Int) : Prop := ∀ e ∈ c.entries, e.isValid = true → e.page ≠ page

/-- A search in the cache is a hit, which sets a use bit, or a miss. -/
theorem cacheFindEntry_cases (c : Cache) (page : Int) :
    (∃ c' i e, cacheFindEntry c page = (c', some i) ∧ c.entries[i]? = some e ∧ e.isValid = true ∧
      e.page = page ∧ SameButUse c c' ∧ c'.clockPointer = c.clockPointer) ∨
    (cacheFindEntry c page = (c, none) ∧ Missing c page) := by
  unfold cacheFindEntry
  split
  · rename_i hnone
    refine Or.inr ⟨rfl, ?_⟩
    intro e he hvalid hpage
    have := List.findIdx?_eq_none_iff.mp hnone e he
    simp [hvalid, hpage] at this
  · rename_i i hidx
    obtain ⟨hlt, hhit, -⟩ := List.findIdx?_eq_some_iff_getElem.mp hidx
    have hhit' := Bool.and_eq_true_iff.mp hhit
    refine Or.inl ⟨_, i, c.entries[i], rfl, List.getElem?_eq_getElem hlt, hhit'.1,
      of_decide_eq_true hhit'.2, ?_, rfl⟩
    unfold SameButUse
    apply List.ext_getElem?
    intro j
    rw [List.getElem?_map, List.getElem?_map, List.getElem?_modify]
    by_cases hj : i = j
    · subst hj
      simp [List.getElem?_eq_getElem hlt, CacheEntry.forgetUse]
    · simp [hj]

/-- **What an access to a mapped page does to cache and memory.** -/
inductive Outcome (cfg : Config) (base : Int → Int → Nat) (pid : Int) (c : Cache) (mem : Bytes) :
    Access → Cache → Bytes → Prop
  | readHit {logicDir size : Int} {c' : Cache} : SameButUse c c' →
      Outcome cfg base pid c mem (.read logicDir size) c' mem
  | readMiss {logicDir size : Int} {c' : Cache} {mem' : Bytes} {i : Nat} {e' : CacheEntry} :
      Missing c (pageOf cfg logicDir) → SameElse i c c' → Flushed base c i mem mem' →
      c'.entries[i]? = some e' → e'.isValid = true → e'.pid = pid → e'.page = pageOf cfg logicDir →
      e'.modifiedBit = false → Outcome cfg base pid c mem (.read logicDir size) c' mem'
  | writeHit {logicDir : Int} {value : List UInt8} {c' : Cache} {i : Nat} {e e' : CacheEntry} :
      c.entries[i]? = some e → e.isValid = true → e.page = pageOf cfg logicDir → SameElse i c c' →
      c'.entries[i]? = some e' →
      e'.forgetUse = (e.store (offsetOf cfg logicDir).toNat value).forgetUse →
      Outcome cfg base pid c mem (.write logicDir value) c' mem
  | writeMiss {logicDir : Int} {value : List UInt8} {c' : Cache} {mem' : Bytes} {i : Nat}
      {e' : CacheEntry} :
      Missing c (pageOf cfg logicDir) → SameElse i c c' → Flushed base c i mem mem' →
      c'.entries[i]? = some e' → e'.isValid = true → e'.pid = pid → e'.page = pageOf cfg logicDir →
      e'.modifiedBit = true → e'.modifiedStart = (offsetOf cfg logicDir).toNat →
      e'.modifiedEnd = (offsetOf cfg logicDir).toNat + value.length →
      e'.content = zeros.blit (offsetOf cfg logicDir).toNat value →
      Outcome cfg base pid c mem (.write logicDir value) c' mem'

section Outcome

variable {cfg : Config} {pe : PageEntries} {mmu : Mmu} {mem : Bytes} {pid : Int}

/-- What a slot other than the one replaced held before. -/
theorem SameElse.getElem? {i j : Nat} {c c' : Cache} {e' : CacheEntry} (h : SameElse i c c')
    (hj : j ≠ i) (he : c'.entries[j]? = some e') :
    ∃ e, c.entries[j]? = some e ∧ e'.forgetUse = e.forgetUse := by
  have hmap := h j hj
  rw [he] at hmap
  cases hc : c.entries[j]? with
  | none => simp [hc] at hmap
  | some e => exact ⟨e, rfl, by simpa [hc] using hmap⟩

/-- The fields that matter agree when the entries agree up to the use bit. -/
theorem fields_eq {e e' : CacheEntry} (h : e'.forgetUse = e.forgetUse) :
    e'.isValid = e.isValid ∧ e'.modifiedBit = e.modifiedBit ∧ e'.pid = e.pid ∧ e'.page = e.page ∧
      e'.modifiedEnd = e.modifiedEnd := by
  simp only [CacheEntry.forgetUse, CacheEntry.mk.injEq] at h
  exact ⟨h.1, h.2.2.2.2.2.1, h.2.2.1, h.2.1, h.2.2.2.2.2.2.2⟩

/-- The MMU stays in order when one slot is replaced. -/
theorem MmuOk.replace (hok : MmuOk cfg pe base mmu) {mmu' : Mmu} {i : Nat} {e' : CacheEntry}
    (htlb : TlbOk cfg pe mmu'.tlb) (hlen : mmu'.cache.entries.length = cfg.cacheEntries)
    (hptr : mmu'.cache.clockPointer < cfg.cacheEntries) (helse : SameElse i mmu.cache mmu'.cache)
    (hget : mmu'.cache.entries[i]? = some e')
    (hplaced : e'.isValid = true → Placed cfg pe base e'.pid e'.page)
    (hregion : e'.isValid = true → e'.modifiedBit = true → e'.modifiedEnd ≤ cfg.pageSize)
    (hfresh : e'.isValid = true → ∀ j e, j ≠ i → mmu.cache.entries[j]? = some e → e.isValid = true →
      e.page ≠ e'.page) : MmuOk cfg pe base mmu' := by
  refine ⟨htlb, hlen, hptr, ?_, ?_, ?_⟩
  · intro x hx hvalid
    obtain ⟨j, hj⟩ := List.getElem?_of_mem hx
    by_cases hji : j = i
    · subst hji
      obtain rfl : e' = x := by simpa [hget] using hj
      exact hplaced hvalid
    · obtain ⟨e, he, hsame⟩ := helse.getElem? hji hj
      obtain ⟨hv, -, hpid, hpage, -⟩ := fields_eq hsame
      rw [hpid, hpage]
      exact hok.placed e (List.mem_of_getElem? he) (hv ▸ hvalid)
  · intro x hx hvalid hmod
    obtain ⟨j, hj⟩ := List.getElem?_of_mem hx
    by_cases hji : j = i
    · subst hji
      obtain rfl : e' = x := by simpa [hget] using hj
      exact hregion hvalid hmod
    · obtain ⟨e, he, hsame⟩ := helse.getElem? hji hj
      obtain ⟨hv, hm, -, -, hend⟩ := fields_eq hsame
      rw [hend]
      exact hok.region e (List.mem_of_getElem? he) (hv ▸ hvalid) (hm ▸ hmod)
  · intro j k x y hx hy hvx hvy hpage
    by_cases hji : j = i
    · by_cases hki : k = i
      · rw [hji, hki]
      · subst hji
        obtain rfl : e' = x := by simpa [hget] using hx
        obtain ⟨e, he, hsame⟩ := helse.getElem? hki hy
        obtain ⟨hv, -, -, hp, -⟩ := fields_eq hsame
        exact absurd (hp ▸ hpage.symm) (hfresh hvx k e hki he (hv ▸ hvy))
    · obtain ⟨e, he, hsame⟩ := helse.getElem? hji hx
      obtain ⟨hv, -, -, hp, -⟩ := fields_eq hsame
      by_cases hki : k = i
      · subst hki
        obtain rfl : e' = y := by simpa [hget] using hy
        exact absurd (hp ▸ hpage) (hfresh hvy j e hji he (hv ▸ hvx))
      · obtain ⟨e2, he2, hsame2⟩ := helse.getElem? hki hy
        obtain ⟨hv2, -, -, hp2, -⟩ := fields_eq hsame2
        exact hok.distinct j k e e2 he he2 (hv ▸ hvx) (hv2 ▸ hvy) (by rw [← hp, ← hp2, hpage])

/-- A cache that was only searched is in order as it was. -/
theorem MmuOk.searched (hok : MmuOk cfg pe base mmu) {tlb' : Tlb} {c' : Cache} (htlb : TlbOk cfg pe tlb')
    (hsame : SameButUse mmu.cache c') (hptr : c'.clockPointer < cfg.cacheEntries) :
    MmuOk cfg pe base ⟨tlb', c'⟩ := by
  refine ⟨htlb, hsame.length.trans hok.length, hptr, ?_, ?_, ?_⟩
  · intro x hx hvalid
    obtain ⟨j, hj⟩ := List.getElem?_of_mem hx
    obtain ⟨e, he, hs⟩ := hsame.getElem? hj
    obtain ⟨hv, -, hpid, hpage, -⟩ := fields_eq hs
    rw [hpid, hpage]
    exact hok.placed e (List.mem_of_getElem? he) (hv ▸ hvalid)
  · intro x hx hvalid hmod
    obtain ⟨j, hj⟩ := List.getElem?_of_mem hx
    obtain ⟨e, he, hs⟩ := hsame.getElem? hj
    obtain ⟨hv, hm, -, -, hend⟩ := fields_eq hs
    rw [hend]
    exact hok.region e (List.mem_of_getElem? he) (hv ▸ hvalid) (hm ▸ hmod)
  · intro j k x y hx hy hvx hvy hpage
    obtain ⟨e, he, hs⟩ := hsame.getElem? hx
    obtain ⟨e2, he2, hs2⟩ := hsame.getElem? hy
    obtain ⟨hv, -, -, hp, -⟩ := fields_eq hs
    obtain ⟨hv2, -, -, hp2, -⟩ := fields_eq hs2
    exact hok.distinct j k e e2 he he2 (hv ▸ hvx) (hv2 ▸ hvy) (by rw [← hp, ← hp2, hpage])

/-- The same for a search that left the pointer alone. -/
theorem MmuOk.sameButUse (hok : MmuOk cfg pe base mmu) {c' : Cache} (hsame : SameButUse mmu.cache c')
    (hptr : c'.clockPointer = mmu.cache.clockPointer) : MmuOk cfg pe base { mmu with cache := c' } :=
  hok.searched hok.tlb hsame (hptr ▸ hok.pointer)

/-- `store` does not look at the use bit. -/
theorem store_forgetUse {e e' : CacheEntry} (h : e'.forgetUse = e.forgetUse) (offset : Nat)
    (value : List UInt8) : (e'.store offset value).forgetUse = (e.store offset value).forgetUse := by
  have hcomm : ∀ x : CacheEntry, (x.store offset value).forgetUse = x.forgetUse.store offset value :=
    fun _ => rfl
  rw [hcomm, hcomm, h]

/-- `cache_load_page` loads something into the slot. -/
theorem cacheLoadPage_eq {logicDir : Int} {f : Nat} {t : Tlb} {c : Cache} {m : Bytes} (i : Nat)
    (htlb : TlbOk cfg pe t) (hdir : 0 ≤ logicDir)
    (hwalk : mmuPerformPageWalk cfg pe (pageOf cfg logicDir) pid = some (f : Int))
    (hf : f < cfg.memoria.framesTotal) :
    ∃ mmu' bytes, cacheLoadPage cfg pe ⟨t, c⟩ m logicDir i pid = some mmu' ∧ TlbOk cfg pe mmu'.tlb ∧
      mmu'.cache = { c with
        entries := c.entries.modify i fun e => e.loaded (pageOf cfg logicDir) pid bytes } := by
  obtain ⟨tlb', htrans, htlb'⟩ := translate_eq htlb hwalk
  obtain ⟨-, o, ho, hlt⟩ := pageOf_offsetOf cfg hdir
  rw [ho, physicalAddress_eq hf (le_of_lt hlt)] at htrans
  obtain ⟨bytes, hread⟩ := readFromUserSpace_isSome cfg m (f * cfg.pageSize + o) cfg.pageSize
  refine ⟨⟨tlb', { c with
    entries := c.entries.modify i fun e => e.loaded (pageOf cfg logicDir) pid bytes }⟩, bytes, ?_,
    htlb', rfl⟩
  exact Option.bind_eq_some_iff.mpr ⟨_, htrans, Option.map_eq_some_iff.mpr ⟨bytes, hread, rfl⟩⟩

theorem readCached_outcome {logicDir size : Int} (hn : 0 < cfg.cacheEntries)
    (hok : MmuOk cfg pe base mmu) (hin : InPage cfg (.read logicDir size))
    (hplaced : Placed cfg pe base pid (pageOf cfg logicDir))
    (hclear : (cacheFindEntry mmu.cache (pageOf cfg logicDir)).2 = none →
      victimClear cfg pe mmu.cache = true) :
    ∃ mmu' mem', readCached cfg pe pid mmu mem logicDir = some (mmu', mem', true) ∧
      Outcome cfg base pid mmu.cache mem (.read logicDir size) mmu'.cache mem' ∧
      MmuOk cfg pe base mmu' := by
  unfold readCached
  rcases cacheFindEntry_cases mmu.cache (pageOf cfg logicDir) with
    ⟨c1, i, e, hfind, he, hvalid, hpage, hsame, hptr⟩ | ⟨hfind, hmiss⟩
  · rw [hfind]
    exact ⟨_, mem, rfl, .readHit hsame, hok.sameButUse hsame hptr⟩
  · obtain ⟨tlb', c', mem', i, hsel, htlb, hlt, hlen, hptr, helse, hflushed⟩ :=
      selectVictimEntry_spec mem hn hok (hclear (by rw [hfind]))
    obtain ⟨f, hwalk, hf, hbase⟩ := hplaced
    have hdir : 0 ≤ logicDir := hin.1
    obtain ⟨mmu2, bytes, hload, htlb2, hcache⟩ :=
      cacheLoadPage_eq (c := c') (m := mem') i htlb hdir hwalk hf
    obtain ⟨e2, he2⟩ : ∃ e2, c'.entries[i]? = some e2 :=
      ⟨_, List.getElem?_eq_getElem (hlen ▸ hlt)⟩
    have hget : mmu2.cache.entries[i]? = some (e2.loaded (pageOf cfg logicDir) pid bytes) := by
      simp [hcache, he2]
    have helse2 : SameElse i mmu.cache mmu2.cache := by
      rw [hcache]
      exact helse.trans (sameElse_modify i c' _)
    refine ⟨mmu2, mem', ?_, .readMiss hmiss helse2 hflushed hget rfl rfl rfl rfl, ?_⟩
    · rw [hfind]
      exact Option.bind_eq_some_iff.mpr ⟨_, hsel, Option.map_eq_some_iff.mpr ⟨mmu2, hload, rfl⟩⟩
    refine hok.replace htlb2 (by simpa [hcache] using hlen) (by rw [hcache]; exact hptr) helse2 hget
      ?_ (by simp [CacheEntry.loaded]) ?_
    · intro _
      exact ⟨f, hwalk, hf, hbase⟩
    · intro _ j e _ hej hv
      exact hmiss e (List.mem_of_getElem? hej) hv

/-- The copy into a slot, for a write that lies inside its page. -/
theorem storeInto_eq {m : Mmu} {o i : Nat} {value : List UInt8}
    (ho : (o : Int) + value.length ≤ cfg.pageSize) :
    storeInto cfg m mem i o value = some ({ m with
      cache := { m.cache with
        entries := m.cache.entries.modify i fun e => e.store o value } }, mem, true) := by
  have hguard : ¬ ((o : Int) < 0 ∨ (cfg.pageSize : Int) < (o : Int) + value.length) := by
    rintro (h | h)
    · omega
    · omega
  simp only [storeInto, if_neg hguard, Int.toNat_natCast]

/-- A write keeps the modified region inside the page. -/
theorem store_end_le {e : CacheEntry} {o : Nat} {value : List UInt8}
    (ho : o + value.length ≤ cfg.pageSize)
    (he : e.modifiedBit = true → e.modifiedEnd ≤ cfg.pageSize) :
    (e.store o value).modifiedEnd ≤ cfg.pageSize := by
  simp only [CacheEntry.store]
  split
  · rename_i hmod
    exact max_le (he hmod) ho
  · exact ho

theorem writeCached_outcome {logicDir : Int} {value : List UInt8} (hn : 0 < cfg.cacheEntries)
    (hok : MmuOk cfg pe base mmu) (hin : InPage cfg (.write logicDir value))
    (hplaced : Placed cfg pe base pid (pageOf cfg logicDir))
    (hclear : (cacheFindEntry mmu.cache (pageOf cfg logicDir)).2 = none →
      victimClear cfg pe mmu.cache = true) :
    ∃ mmu' mem', writeCached cfg pe pid mmu mem logicDir value = some (mmu', mem', true) ∧
      Outcome cfg base pid mmu.cache mem (.write logicDir value) mmu'.cache mem' ∧
      MmuOk cfg pe base mmu' := by
  have hdir : 0 ≤ logicDir := hin.1
  obtain ⟨-, o, ho, hlto⟩ := pageOf_offsetOf cfg hdir
  have hfit : (o : Int) + value.length ≤ cfg.pageSize := by
    have := hin.2.2
    simp only [Access.logicDir, Access.size, ho] at this
    exact this
  have hfit' : o + value.length ≤ cfg.pageSize := by omega
  have hnat : (offsetOf cfg logicDir).toNat = o := by rw [ho, Int.toNat_natCast]
  unfold writeCached
  rcases cacheFindEntry_cases mmu.cache (pageOf cfg logicDir) with
    ⟨c1, i, e, hfind, he, hvalid, hpage, hsame, hptr⟩ | ⟨hfind, hmiss⟩
  · -- a hit: the entry as the search left it
    have hok1 := hok.sameButUse hsame hptr
    have hlt : i < c1.entries.length := by
      rw [hsame.length]
      exact (List.getElem?_eq_some_iff.mp he).1
    obtain ⟨e1, he1⟩ : ∃ e1, c1.entries[i]? = some e1 := ⟨_, List.getElem?_eq_getElem hlt⟩
    obtain ⟨e0, he0, hs⟩ := hsame.getElem? he1
    obtain rfl : e = e0 := by simpa [he] using he0
    obtain ⟨hv, -, -, hp, -⟩ := fields_eq hs
    have hget : (c1.entries.modify i fun e => e.store o value)[i]? = some (e1.store o value) := by
      simp [he1]
    refine ⟨⟨mmu.tlb, { c1 with entries := c1.entries.modify i fun e => e.store o value }⟩, mem, ?_,
      ?_, ?_⟩
    · simp only [hfind, ho]
      exact storeInto_eq hfit
    · refine .writeHit he hvalid hpage ((hsame.sameElse i).trans (sameElse_modify i c1 _)) hget ?_
      rw [hnat]
      exact store_forgetUse hs o value
    · refine hok1.replace hok.tlb (by simpa using hok1.length) hok1.pointer (sameElse_modify i c1 _)
        hget ?_ ?_ ?_
      · intro _
        exact hok1.placed e1 (List.mem_of_getElem? he1) (hv.trans hvalid)
      · intro _ _
        exact store_end_le hfit' fun hm =>
          hok1.region e1 (List.mem_of_getElem? he1) (hv.trans hvalid) hm
      · intro _ j x hj hx hvx heq
        have hpage1 : x.page = e1.page := heq
        exact hj (hok1.distinct j i x e1 hx he1 hvx (hv.trans hvalid) hpage1)
  · -- a miss: the victim is set up for the page and then written
    obtain ⟨tlb', c', mem', i, hsel, htlb, hlt, hlen, hptr, helse, hflushed⟩ :=
      selectVictimEntry_spec mem hn hok (hclear (by rw [hfind]))
    obtain ⟨e2, he2⟩ : ∃ e2, c'.entries[i]? = some e2 :=
      ⟨_, List.getElem?_eq_getElem (hlen ▸ hlt)⟩
    have hget : ((c'.entries.modify i fun e =>
        e.setUp (pageOf cfg logicDir) pid o value.length).modify i fun e => e.store o value)[i]? =
        some ((e2.setUp (pageOf cfg logicDir) pid o value.length).store o value) := by
      simp [he2]
    have helse2 : SameElse i mmu.cache { c' with
        entries := (c'.entries.modify i fun e =>
          e.setUp (pageOf cfg logicDir) pid o value.length).modify i fun e => e.store o value } :=
      (helse.trans (sameElse_modify i c' _)).trans (sameElse_modify i _ _)
    refine ⟨⟨tlb', { c' with
      entries := (c'.entries.modify i fun e =>
        e.setUp (pageOf cfg logicDir) pid o value.length).modify i fun e => e.store o value }⟩, mem', ?_,
      ?_, ?_⟩
    · simp only [hfind, ho, Int.toNat_natCast]
      exact Option.bind_eq_some_iff.mpr ⟨_, hsel, storeInto_eq hfit⟩
    · refine .writeMiss hmiss helse2 hflushed hget rfl rfl rfl rfl ?_ ?_ ?_
      · simp [CacheEntry.store, CacheEntry.setUp, hnat]
      · simp [CacheEntry.store, CacheEntry.setUp, hnat]
      · simp [CacheEntry.store, CacheEntry.setUp, hnat]
    · refine hok.replace htlb (by simpa using hlen) hptr helse2 hget (fun _ => hplaced) ?_ ?_
      · intro _ _
        exact store_end_le hfit' fun _ => hfit'
      · intro _ j x _ hx hvx
        exact hmiss x (List.mem_of_getElem? hx) hvx

/-- The condition on the victim of an access: a hit has none. -/
def accessClear (cfg : Config) (pe : PageEntries) (cache : Cache) (a : Access) : Bool :=
  (cacheFindEntry cache (pageOf cfg a.logicDir)).2.isSome || victimClear cfg pe cache

/-- **A READ or WRITE inside a mapped page is executed, with one of the outcomes.** -/
theorem execution_outcome {a : Access} (hn : 0 < cfg.cacheEntries) (hok : MmuOk cfg pe base mmu)
    (hin : InPage cfg a) (hplaced : Placed cfg pe base pid (pageOf cfg a.logicDir))
    (hclear : accessClear cfg pe mmu.cache a = true) :
    ∃ mmu' mem', execution cfg pe pid mmu mem a = some (mmu', mem', true) ∧
      Outcome cfg base pid mmu.cache mem a mmu'.cache mem' ∧ MmuOk cfg pe base mmu' := by
  have hclear' : (cacheFindEntry mmu.cache (pageOf cfg a.logicDir)).2 = none →
      victimClear cfg pe mmu.cache = true := by
    intro hnone
    simpa [accessClear, hnone] using hclear
  cases a with
  | read logicDir size =>
    simp only [execution, if_pos hn]
    exact readCached_outcome hn hok hin hplaced hclear'
  | write logicDir value =>
    simp only [execution, if_pos hn]
    exact writeCached_outcome hn hok hin hplaced hclear'

theorem SameButUse.symm {c c' : Cache} (h : SameButUse c c') : SameButUse c' c := Eq.symm h

theorem Missing.sameButUse {c c' : Cache} {page : Int} (h : SameButUse c c') (hm : Missing c' page) :
    Missing c page := by
  intro e he hvalid hpage
  obtain ⟨j, hj⟩ := List.getElem?_of_mem he
  obtain ⟨e', he', hs⟩ := h.symm.getElem? hj
  obtain ⟨hv, -, -, hp, -⟩ := fields_eq hs
  exact hm e' (List.mem_of_getElem? he') (hv ▸ hvalid) (hp ▸ hpage)

theorem patchAt_sameButUse {c c' : Cache} (h : SameButUse c c') (i : Nat) :
    patchAt base c' i = patchAt base c i :=
  patchAt_congr (h.sameElse (i + 1) i (Nat.ne_add_one i))

/-- The outcome does not depend on use bits. -/
theorem Outcome.sameButUse {c c1 c' : Cache} {mem' : Bytes} {a : Access} (h : SameButUse c c1)
    (ho : Outcome cfg base pid c1 mem a c' mem') : Outcome cfg base pid c mem a c' mem' := by
  have hflush : ∀ {i : Nat}, Flushed base c1 i mem mem' → Flushed base c i mem mem' := by
    intro i hf
    unfold Flushed at hf ⊢
    rwa [patchAt_sameButUse h i] at hf
  cases ho with
  | readHit hsame => exact .readHit (h.trans hsame)
  | readMiss hmiss helse hf hget hvalid hpid hpage hmod =>
    exact .readMiss (hmiss.sameButUse h) ((h.sameElse _).trans helse) (hflush hf) hget hvalid hpid
      hpage hmod
  | writeHit he hvalid hpage helse hget hstore =>
    obtain ⟨e0, he0, hs⟩ := h.getElem? he
    obtain ⟨hv, -, -, hp, -⟩ := fields_eq hs
    exact .writeHit he0 (hv ▸ hvalid) (hp ▸ hpage) ((h.sameElse _).trans helse) hget
      (hstore.trans (store_forgetUse hs _ _))
  | writeMiss hmiss helse hf hget hvalid hpid hpage hmod hstart hend hcontent =>
    exact .writeMiss (hmiss.sameButUse h) ((h.sameElse _).trans helse) (hflush hf) hget hvalid hpid
      hpage hmod hstart hend hcontent

/-- Whose entries the cache holds after an access. -/
theorem Outcome.owner {c c' : Cache} {mem' : Bytes} {a : Access}
    (ho : Outcome cfg base pid c mem a c' mem') {e' : CacheEntry} (he' : e' ∈ c'.entries)
    (hvalid : e'.isValid = true) :
    (∃ e ∈ c.entries, e.isValid = true ∧ e.pid = e'.pid ∧ e.page = e'.page) ∨
      (e'.pid = pid ∧ e'.page = pageOf cfg a.logicDir) := by
  obtain ⟨j, hj⟩ := List.getElem?_of_mem he'
  have hold : ∀ {e : CacheEntry}, c.entries[j]? = some e → e'.forgetUse = e.forgetUse →
      ∃ e ∈ c.entries, e.isValid = true ∧ e.pid = e'.pid ∧ e.page = e'.page := by
    intro e he hs
    obtain ⟨hv, -, hpid, hpage, -⟩ := fields_eq hs
    exact ⟨e, List.mem_of_getElem? he, hv ▸ hvalid, hpid.symm, hpage.symm⟩
  cases ho with
  | readHit hsame =>
    obtain ⟨e, he, hs⟩ := hsame.getElem? hj
    exact Or.inl (hold he hs)
  | @readMiss logicDir size _ _ i e1 hmiss helse hf hget hv hpid hpage hmod =>
    by_cases hji : j = i
    · subst hji
      obtain rfl : e1 = e' := by simpa [hget] using hj
      exact Or.inr ⟨hpid, hpage⟩
    · obtain ⟨e, he, hs⟩ := helse.getElem? hji hj
      exact Or.inl (hold he hs)
  | @writeHit logicDir value _ i e e1 he hv hpage helse hget hstore =>
    by_cases hji : j = i
    · subst hji
      obtain rfl : e1 = e' := by simpa [hget] using hj
      obtain ⟨-, -, hpid, hp, -⟩ := fields_eq hstore
      exact Or.inl ⟨e, List.mem_of_getElem? he, hv, hpid.symm, hp.symm⟩
    · obtain ⟨e, he, hs⟩ := helse.getElem? hji hj
      exact Or.inl (hold he hs)
  | @writeMiss logicDir value _ _ i e1 hmiss helse hf hget hv hpid hpage hmod hstart hend hcontent =>
    by_cases hji : j = i
    · subst hji
      obtain rfl : e1 = e' := by simpa [hget] using hj
      exact Or.inr ⟨hpid, hpage⟩
    · obtain ⟨e, he, hs⟩ := helse.getElem? hji hj
      exact Or.inl (hold he hs)

end Outcome

end Tpso.Cpu
