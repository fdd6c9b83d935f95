/-
# What the eviction of a dirty entry sends

`select_victim_entry` translates the page of a dirty victim, sends its modified region to memoria and
returns the entry.  With a TLB it takes the address 0 for an error, although frame 0 starts there, and
returns NULL; without one the page walk goes to the same frame and nothing is wrong.

`evict` is the function as the CPU sees it, the request it sends and the entry it returns, and
`selectVictimEntry_evict` says that what happens to the user space is the delivery of that request.
-/
import Tpso.Cpu.Retry
import Tpso.Cpu.PageWalk

namespace Tpso.Cpu

open Tpso.Lib
open Tpso.Memoria (toInt32 toInt32_eq writeToUserSpace)

/-! ## 1. The request -/

/-- The `t_memory_write_request` of a write-back. -/
structure WriteRequest where
  physicDir : Int
  data : List UInt8
deriving DecidableEq, Repr

/-- The request for the modified region of an entry whose page starts at `physicDir`; none when the region
is empty. -/
def modifiedRegionRequest (physicDir : Int) (entry : CacheEntry) : Option WriteRequest :=
  if entry.modifiedStart < entry.modifiedEnd then
    some ⟨toInt32 (physicDir + entry.modifiedStart),
      entry.content.slice entry.modifiedStart (entry.modifiedEnd - entry.modifiedStart)⟩
  else none

/-- The user space after memoria has served a request, if there was one. -/
def deliver (cfg : Config) (mem : Bytes) (request : Option WriteRequest) : Option Bytes :=
  request.elim (some mem) fun r => writeToUserSpace cfg.memoria mem r.physicDir r.data

/-- `select_victim_entry` as the CPU sees it: the request it sends and the entry it returns. -/
def evict (cfg : Config) (pe : PageEntries) (mmu : Mmu) : Option (Option WriteRequest × Option Nat) :=
  (findVictim cfg mmu.cache).bind fun found =>
    (found.1.entries[found.2]?).bind fun victim =>
      if victim.isValid && victim.modifiedBit then
        (victimAddress cfg pe mmu.tlb victim).map fun x =>
          if 0 < cfg.tlbEntries ∧ x.2 = 0 then (none, none)
          else (modifiedRegionRequest x.2 victim, some found.2)
      else some (none, some found.2)

/-- The search picks the entry at `i`, which is then `victim`. -/
def IsVictim (cfg : Config) (c : Cache) (i : Nat) (victim : CacheEntry) : Prop :=
  ∃ c', findVictim cfg c = some (c', i) ∧ c'.entries[i]? = some victim

/-- The entry has to be written back. -/
def CacheEntry.dirty (e : CacheEntry) : Bool := e.isValid && e.modifiedBit

/-- The same CPU with `ENTRADAS_TLB = 0`. -/
def Config.withoutTlb (cfg : Config) : Config := { cfg with tlbEntries := 0 }

section Evict

variable {cfg : Config} {pe : PageEntries} {mmu : Mmu} {mem : Bytes} {i f : Nat} {victim : CacheEntry}
  {tlb : Tlb}

theorem writeModifiedRegion_eq (physicDir : Int) :
    writeModifiedRegion cfg mem physicDir victim =
      deliver cfg mem (modifiedRegionRequest physicDir victim) := by
  unfold writeModifiedRegion modifiedRegionRequest deliver
  split
  · rfl
  · rfl

/-- **What `select_victim_entry` does to the user space is to send the request of `evict`.** -/
theorem selectVictimEntry_evict :
    (selectVictimEntry cfg pe mmu mem).map (fun x => (x.2.1, x.2.2)) =
      (evict cfg pe mmu).bind fun x => (deliver cfg mem x.1).map fun mem' => (mem', x.2) := by
  unfold selectVictimEntry evict
  cases hfind : findVictim cfg mmu.cache with
  | none => rfl
  | some found =>
    simp only [Option.bind_some]
    cases hvictim : found.1.entries[found.2]? with
    | none => rfl
    | some v =>
      simp only [Option.bind_some]
      split
      · cases haddr : victimAddress cfg pe mmu.tlb v with
        | none => rfl
        | some x =>
          simp only [Option.bind_some, Option.map_some]
          split
          · rfl
          · rw [writeModifiedRegion_eq, Option.map_map]
            rfl
      · rfl

/-- Every cache that is not empty has a victim. -/
theorem exists_isVictim {c : Cache} (hn : 0 < cfg.cacheEntries)
    (hlen : c.entries.length = cfg.cacheEntries) (hptr : c.clockPointer < cfg.cacheEntries) :
    ∃ i victim, IsVictim cfg c i victim := by
  obtain ⟨c', i, hfind, hfound⟩ := findVictim_found hn hlen hptr
  have hlt : i < c'.entries.length := by
    rw [hfound.same.length, hlen]
    exact hfound.lt
  exact ⟨i, c'.entries[i], c', hfind, List.getElem?_eq_getElem hlt⟩

/-- A victim that is not dirty costs nothing. -/
theorem evict_clean (h : IsVictim cfg mmu.cache i victim) (hclean : victim.dirty = false) :
    evict cfg pe mmu = some (none, some i) := by
  obtain ⟨c', hfind, hvictim⟩ := h
  unfold CacheEntry.dirty at hclean
  simp only [evict, hfind, hvictim, Option.bind_some, hclean, Bool.false_eq_true, if_false]

/-! ## 2. Where the victim's page is -/

/-- The frame of a page mapped to `f`, as the TLB has it. -/
def tlbFrame (cfg : Config) (tlb : Tlb) (e : CacheEntry) (f : Nat) : Int :=
  (tlbFindEntry cfg tlb e.page e.pid).2.getD f

/-- The address that a CPU with a TLB finds for the victim is not 0, and it is that of the frame when there
is something to write. -/
def FindsFrame (cfg : Config) (tlb : Tlb) (e : CacheEntry) (f : Nat) : Prop :=
  physicalAddress cfg (tlbFrame cfg tlb e f) 0 ≠ 0 ∧
    (e.modifiedStart < e.modifiedEnd →
      physicalAddress cfg (tlbFrame cfg tlb e f) 0 = (f * cfg.pageSize : Nat))

theorem pageWalkLoop_withoutTlb (entry : Int → Int → Option Int) (page : Int) (power : Nat) :
    ∀ id, pageWalkLoop cfg.withoutTlb entry page power id = pageWalkLoop cfg entry page power id := by
  induction power with
  | zero => exact fun _ => rfl
  | succ power ih =>
    intro id
    simp only [pageWalkLoop, ih]
    rfl

theorem mmuPerformPageWalk_withoutTlb (page pid : Int) :
    mmuPerformPageWalk cfg.withoutTlb pe page pid = mmuPerformPageWalk cfg pe page pid :=
  pageWalkLoop_withoutTlb (pe pid) page _ 1

theorem tlbFrame_withoutTlb : tlbFrame cfg.withoutTlb tlb victim f = f := by
  simp [tlbFrame, tlbFindEntry, Config.withoutTlb]

/-- A translation gives the frame of the TLB, or the one of the page walk. -/
theorem victimAddress_tlbFrame (tlb : Tlb)
    (hwalk : mmuPerformPageWalk cfg pe victim.page victim.pid = some (f : Int)) :
    ∃ tlb', victimAddress cfg pe tlb victim =
      some (tlb', physicalAddress cfg (tlbFrame cfg tlb victim f) 0) := by
  unfold victimAddress
  split
  · rename_i htlb
    unfold mmuTranslateAddressWithPageNumber frameOf tlbFrame
    cases hfind : (tlbFindEntry cfg tlb victim.page victim.pid).2 with
    | none =>
      refine ⟨tlbAddEntry cfg (tlbFindEntry cfg tlb victim.page victim.pid).1 victim.page f victim.pid, ?_⟩
      rw [show tlbFindEntry cfg tlb victim.page victim.pid =
        ((tlbFindEntry cfg tlb victim.page victim.pid).1, none) from Prod.ext rfl hfind]
      simp [hwalk]
    | some g =>
      refine ⟨(tlbFindEntry cfg tlb victim.page victim.pid).1, ?_⟩
      rw [show tlbFindEntry cfg tlb victim.page victim.pid =
        ((tlbFindEntry cfg tlb victim.page victim.pid).1, some g) from Prod.ext rfl hfind]
      simp
  · rename_i htlb
    have hnone : tlbFrame cfg tlb victim f = f := by
      simp [tlbFrame, tlbFindEntry, Nat.eq_zero_of_not_pos htlb]
    exact ⟨tlb, by rw [hnone, hwalk]; rfl⟩

/-- What becomes of a dirty victim. -/
theorem evict_dirty (h : IsVictim cfg mmu.cache i victim) (hdirty : victim.dirty = true)
    (hwalk : mmuPerformPageWalk cfg pe victim.page victim.pid = some (f : Int)) :
    evict cfg pe mmu = some
      (if 0 < cfg.tlbEntries ∧ physicalAddress cfg (tlbFrame cfg mmu.tlb victim f) 0 = 0 then (none, none)
      else (modifiedRegionRequest (physicalAddress cfg (tlbFrame cfg mmu.tlb victim f) 0) victim,
        some i)) := by
  obtain ⟨c', hfind, hvictim⟩ := h
  obtain ⟨tlb', haddr⟩ := victimAddress_tlbFrame mmu.tlb hwalk
  unfold CacheEntry.dirty at hdirty
  simp only [evict, hfind, hvictim, Option.bind_some, hdirty, if_true, haddr, Option.map_some]

/-- **A TLB that agrees with the page tables misleads only about frame 0.** -/
theorem findsFrame_iff (htlb : TlbOk cfg pe tlb)
    (hwalk : mmuPerformPageWalk cfg pe victim.page victim.pid = some (f : Int))
    (hf : f < cfg.memoria.framesTotal) : FindsFrame cfg tlb victim f ↔ f ≠ 0 := by
  have hframe : tlbFrame cfg tlb victim f = f := by
    unfold tlbFrame
    cases hfind : (tlbFindEntry cfg tlb victim.page victim.pid).2 with
    | none => rfl
    | some g =>
      have hg := (htlb.find victim.page victim.pid).2 g hfind
      rw [hwalk] at hg
      exact (Option.some.inj hg).symm
  have haddr : physicalAddress cfg f 0 = (f * cfg.pageSize : Nat) := by
    simpa using physicalAddress_eq (o := 0) hf (Nat.zero_le _)
  have hps : 0 < cfg.pageSize := cfg.memoria.tamPagina_pos
  unfold FindsFrame
  rw [hframe, haddr]
  constructor
  · rintro ⟨hne, -⟩ rfl
    exact hne (by simp)
  · intro hne
    refine ⟨?_, fun _ => rfl⟩
    have : f * cfg.pageSize ≠ 0 := Nat.mul_ne_zero hne hps.ne'
    exact_mod_cast this

/-! ## 3. The request that is asked for -/

/-- The WRITE_MEMORY of exactly the modified region of an entry whose page is in frame `f`. -/
def exactRequest (cfg : Config) (f : Nat) (e : CacheEntry) : Option WriteRequest :=
  if e.modifiedStart < e.modifiedEnd then
    some ⟨(f * cfg.pageSize + e.modifiedStart : Nat),
      e.content.slice e.modifiedStart (e.modifiedEnd - e.modifiedStart)⟩
  else none

/-- The page of an entry is mapped to the frame `f` of the user space, and its modified region lies inside
it. -/
structure InFrame (cfg : Config) (pe : PageEntries) (e : CacheEntry) (f : Nat) : Prop where
  walk : mmuPerformPageWalk cfg pe e.page e.pid = some (f : Int)
  lt : f < cfg.memoria.framesTotal
  region : e.modifiedEnd ≤ cfg.pageSize

/-- The request sent is the exact one if and only if it goes to the frame. -/
theorem modifiedRegionRequest_eq_iff (g : Int) (h : InFrame cfg pe victim f) :
    modifiedRegionRequest (physicalAddress cfg g 0) victim = exactRequest cfg f victim ↔
      (victim.modifiedStart < victim.modifiedEnd →
        physicalAddress cfg g 0 = (f * cfg.pageSize : Nat)) := by
  unfold modifiedRegionRequest exactRequest
  split
  · rename_i hlt
    have hend := frame_end_le h.lt
    have hbound := cfg.memoria.tamMemoria_lt
    have hregion := h.region
    have hsum : toInt32 ((f * cfg.pageSize : Nat) + (victim.modifiedStart : Int)) =
        (f * cfg.pageSize + victim.modifiedStart : Nat) := by
      rw [toInt32_eq (by positivity) (by omega)]
      push_cast
      rfl
    have hbase : toInt32 (f * cfg.pageSize : Nat) = (f * cfg.pageSize : Nat) :=
      toInt32_eq (by positivity) (by omega)
    simp only [Option.some.injEq, WriteRequest.mk.injEq, and_true, hlt, forall_const]
    constructor
    · intro heq
      rw [← hsum] at heq
      unfold toInt32 at heq
      -- the sum is the same up to a multiple of 2 ^ 32, and so is the address
      have hmod := Int.bmod_eq_bmod_iff_bmod_sub_eq_zero.mp heq
      rw [add_sub_add_right_eq_sub] at hmod
      have hsame := Int.bmod_eq_bmod_iff_bmod_sub_eq_zero.mpr hmod
      rw [← hbase, toInt32, ← hsame, physicalAddress, toInt32, Int.bmod_bmod]
    · intro heq
      rw [heq, hsum]
  · rename_i hge
    exact ⟨fun _ hlt => absurd hlt hge, fun _ => rfl⟩

/-- What memoria does with the exact request. -/
theorem deliver_exactRequest (h : InFrame cfg pe victim f) :
    deliver cfg mem (exactRequest cfg f victim) =
      some (mem.blit (f * cfg.pageSize + victim.modifiedStart)
        (victim.content.slice victim.modifiedStart (victim.modifiedEnd - victim.modifiedStart))) := by
  unfold deliver exactRequest
  split
  · rename_i hlt
    have hregion := h.region
    exact writeToUserSpace_eq h.lt (by rw [Bytes.length_slice]; omega)
  · rename_i hge
    have hzero : victim.modifiedEnd - victim.modifiedStart = 0 := by omega
    rw [hzero]
    refine congrArg some (funext fun x => ?_)
    exact (Bytes.blit_of_not_mem (by rw [Bytes.length_slice]; omega)).symm

/-! ## 4. A miss completes -/

/-- An access to which C gives a meaning: it starts inside the process, and a WRITE stays inside its
page. -/
def Proper (cfg : Config) : Access → Prop
  | .read logicDir _ => 0 ≤ logicDir
  | .write logicDir value => InPage cfg (.write logicDir value)

/-- A miss leaves the cache as it is. -/
theorem Missing.find {c : Cache} {page : Int} (h : Missing c page) :
    cacheFindEntry c page = (c, none) := by
  rcases cacheFindEntry_cases c page with ⟨c', j, e, -, he, hvalid, hpage, -⟩ | ⟨hfind, -⟩
  · exact absurd hpage (h e (List.mem_of_getElem? he) hvalid)
  · exact hfind

/-- The TLB stays right when a victim is selected. -/
theorem selectVictimEntry_tlbOk {mmu' : Mmu} {mem' : Bytes} {r : Option Nat}
    (hv : IsVictim cfg mmu.cache i victim) (hin : victim.dirty = true → InFrame cfg pe victim f)
    (htlb : TlbOk cfg pe mmu.tlb) (h : selectVictimEntry cfg pe mmu mem = some (mmu', mem', r)) :
    TlbOk cfg pe mmu'.tlb := by
  obtain ⟨c', hfind, hvictim⟩ := hv
  simp only [selectVictimEntry, hfind, hvictim, Option.bind_some] at h
  split at h
  · rename_i hdirty
    obtain ⟨tlb', haddr, htlb'⟩ := victimAddress_eq htlb (hin hdirty).walk
    rw [haddr, Option.bind_some] at h
    split at h
    · obtain ⟨rfl, -, -⟩ := Option.some.inj h
      exact htlb'
    · obtain ⟨m, -, heq⟩ := Option.map_eq_some_iff.mp h
      obtain ⟨rfl, -, -⟩ := heq
      exact htlb'
  · obtain ⟨rfl, -, -⟩ := Option.some.inj h
    exact htlb

/-- **A miss that is given an entry completes.** -/
theorem execution_completes {a : Access} {pid : Int} {mmu' : Mmu} {mem' : Bytes} {g : Nat}
    (hn : 0 < cfg.cacheEntries) (hsel : selectVictimEntry cfg pe mmu mem = some (mmu', mem', some i))
    (htlb : TlbOk cfg pe mmu'.tlb) (hproper : Proper cfg a)
    (hmiss : Missing mmu.cache (pageOf cfg a.logicDir))
    (hwalk : mmuPerformPageWalk cfg pe (pageOf cfg a.logicDir) pid = some (g : Int))
    (hg : g < cfg.memoria.framesTotal) :
    ∃ mmu2, execution cfg pe pid mmu mem a = some (mmu2, mem', true) := by
  have hfind := hmiss.find
  cases a with
  | read logicDir size =>
    simp only [Access.logicDir] at hfind hwalk
    obtain ⟨mmu2, bytes, hload, -⟩ :=
      @cacheLoadPage_eq _ _ _ _ _ _ mmu'.cache mem' i htlb hproper hwalk hg
    refine ⟨mmu2, ?_⟩
    simp only [execution, if_pos hn, readCached, hfind]
    exact Option.bind_eq_some_iff.mpr ⟨_, hsel, Option.map_eq_some_iff.mpr ⟨mmu2, hload, rfl⟩⟩
  | write logicDir value =>
    simp only [Access.logicDir] at hfind
    have hdir : 0 ≤ logicDir := hproper.1
    obtain ⟨-, o, ho, -⟩ := pageOf_offsetOf cfg hdir
    have hfit : (o : Int) + value.length ≤ cfg.pageSize := by
      have hle := hproper.2.2
      simpa only [Access.logicDir, Access.size, ho] using hle
    simp only [execution, if_pos hn, writeCached, hfind, ho]
    exact ⟨_, Option.bind_eq_some_iff.mpr ⟨_, hsel, storeInto_eq hfit⟩⟩

/-! ## 5. The result -/

/-- What is asked of the eviction of `victim`, whose page is in frame `f` when it is dirty. -/
structure WritesBack (cfg : Config) (pe : PageEntries) (mmu : Mmu) (i : Nat) (victim : CacheEntry)
    (f : Nat) : Prop where
  sent : victim.dirty = true → evict cfg pe mmu = some (exactRequest cfg f victim, some i)
  same : evict cfg pe mmu = evict cfg.withoutTlb pe mmu
  written : victim.dirty = true → ∀ mem : Bytes, ∃ mmu',
    selectVictimEntry cfg pe mmu mem = some (mmu', mem.blit (f * cfg.pageSize + victim.modifiedStart)
      (victim.content.slice victim.modifiedStart (victim.modifiedEnd - victim.modifiedStart)), some i)
  completes : TlbOk cfg pe mmu.tlb → ∀ (pid : Int) (mem : Bytes) (a : Access) (g : Nat), Proper cfg a →
    Missing mmu.cache (pageOf cfg a.logicDir) →
    mmuPerformPageWalk cfg pe (pageOf cfg a.logicDir) pid = some (g : Int) →
    g < cfg.memoria.framesTotal → ∃ mmu' mem', execution cfg pe pid mmu mem a = some (mmu', mem', true)

/-- Without a TLB a dirty victim is written back exactly. -/
theorem evict_withoutTlb (h : IsVictim cfg mmu.cache i victim) (hdirty : victim.dirty = true)
    (hin : InFrame cfg pe victim f) :
    evict cfg.withoutTlb pe mmu = some (exactRequest cfg f victim, some i) := by
  have haddr : physicalAddress cfg f 0 = (f * cfg.pageSize : Nat) := by
    simpa using physicalAddress_eq (o := 0) hin.lt (Nat.zero_le _)
  have hwalk : mmuPerformPageWalk cfg.withoutTlb pe victim.page victim.pid = some (f : Int) := by
    rw [mmuPerformPageWalk_withoutTlb]
    exact hin.walk
  have hevict := @evict_dirty cfg.withoutTlb _ _ _ _ _ h hdirty hwalk
  rw [tlbFrame_withoutTlb, if_neg (fun hpos => absurd hpos.1 (Nat.lt_irrefl 0))] at hevict
  rw [hevict]
  congr 2
  exact (modifiedRegionRequest_eq_iff (f : Int) hin).mpr fun _ => haddr

/-- The entry that `select_victim_entry` returns is what `evict` says. -/
theorem selectVictimEntry_of_evict {request : Option WriteRequest} {mem' : Bytes}
    (hevict : evict cfg pe mmu = some (request, some i)) (hdeliver : deliver cfg mem request = some mem') :
    ∃ mmu', selectVictimEntry cfg pe mmu mem = some (mmu', mem', some i) := by
  have hsel := @selectVictimEntry_evict cfg pe mmu mem
  rw [hevict, Option.bind_some, hdeliver, Option.map_some] at hsel
  obtain ⟨⟨mmu', m, r⟩, hselect, heq⟩ := Option.map_eq_some_iff.mp hsel
  simp only [Prod.mk.injEq] at heq
  obtain ⟨rfl, rfl⟩ := heq
  exact ⟨mmu', hselect⟩

/-- **Exactly when an eviction writes back.**  For every cache, either algorithm, every victim that the
search picks, and every frame that its page is mapped to when it is dirty: the exact region is sent, the
result is that of a CPU without a TLB and the miss completes, if and only if the victim is not dirty, or
there is no TLB, or the address found for it is not 0 and that of its frame. -/
theorem writesBack_iff (hn : 0 < cfg.cacheEntries) (h : IsVictim cfg mmu.cache i victim)
    (hin : victim.dirty = true → InFrame cfg pe victim f) :
    WritesBack cfg pe mmu i victim f ↔
      (victim.dirty = true → 0 < cfg.tlbEntries → FindsFrame cfg mmu.tlb victim f) := by
  constructor
  · intro hback hdirty htlb
    have hsent := hback.sent hdirty
    rw [evict_dirty h hdirty (hin hdirty).walk] at hsent
    split at hsent
    · simp at hsent
    · rename_i hne
      simp only [Option.some.injEq, Prod.mk.injEq, and_true] at hsent
      exact ⟨fun hzero => hne ⟨htlb, hzero⟩, (modifiedRegionRequest_eq_iff _ (hin hdirty)).mp hsent⟩
  · intro hcond
    have hsent : victim.dirty = true →
        evict cfg pe mmu = some (exactRequest cfg f victim, some i) := by
      intro hdirty
      by_cases htlb : 0 < cfg.tlbEntries
      · obtain ⟨hne, hregion⟩ := hcond hdirty htlb
        rw [evict_dirty h hdirty (hin hdirty).walk, if_neg (fun hzero => hne hzero.2),
          (modifiedRegionRequest_eq_iff _ (hin hdirty)).mpr hregion]
      · have hcfg : cfg.withoutTlb = cfg := by
          unfold Config.withoutTlb
          rw [← Nat.eq_zero_of_not_pos htlb]
        have hevict := evict_withoutTlb h hdirty (hin hdirty)
        rwa [hcfg] at hevict
    have hwritten : victim.dirty = true → ∀ mem : Bytes, ∃ mmu', selectVictimEntry cfg pe mmu mem =
        some (mmu', mem.blit (f * cfg.pageSize + victim.modifiedStart)
          (victim.content.slice victim.modifiedStart (victim.modifiedEnd - victim.modifiedStart)),
          some i) := fun hdirty mem =>
      selectVictimEntry_of_evict (hsent hdirty) (deliver_exactRequest (hin hdirty))
    have hreturns : ∀ mem : Bytes, ∃ mmu' mem', selectVictimEntry cfg pe mmu mem =
        some (mmu', mem', some i) := by
      intro mem
      cases hdirty : victim.dirty with
      | true =>
        obtain ⟨mmu', hsel⟩ := hwritten hdirty mem
        exact ⟨mmu', _, hsel⟩
      | false =>
        obtain ⟨mmu', hsel⟩ := @selectVictimEntry_of_evict _ _ _ mem _ _ _ (evict_clean h hdirty) rfl
        exact ⟨mmu', _, hsel⟩
    refine ⟨hsent, ?_, hwritten, ?_⟩
    · cases hdirty : victim.dirty with
      | true => rw [hsent hdirty, evict_withoutTlb h hdirty (hin hdirty)]
      | false => rw [evict_clean h hdirty, @evict_clean cfg.withoutTlb _ _ _ _ h hdirty]
    · intro htlb pid mem a g hproper hmiss hwalk hg
      obtain ⟨mmu', mem', hsel⟩ := hreturns mem
      obtain ⟨mmu2, hex⟩ := execution_completes hn hsel (selectVictimEntry_tlbOk h hin htlb hsel) hproper
        hmiss hwalk hg
      exact ⟨mmu2, mem', hex⟩

end Evict

/-- A CPU with a cache of one page and a TLB. -/
def evictConfig : Config := { smallConfig with tlbEntries := 2 }

/-- The entry of a page of process 0 whose first byte was written. -/
def dirtyEntry (page : Int) : CacheEntry := ⟨true, page, 0, zeros.blit 0 [97], false, true, 0, 1⟩

/-- An MMU with nothing but this entry. -/
def dirtyMmu (page : Int) : Mmu := ⟨⟨[], 0, 0⟩, ⟨[dirtyEntry page], 0⟩⟩

theorem isVictim_dirtyMmu (page : Int) : IsVictim evictConfig (dirtyMmu page).cache 0 (dirtyEntry page) :=
  ⟨⟨[dirtyEntry page], 0⟩, by
    simp [findVictim, evictConfig, smallConfig, dirtyMmu, dirtyEntry, cacheFindVictimClock], rfl⟩

/-- A page of process 0, in a run where it is in the frame of the same number. -/
theorem exists_run_inFrame (k : Nat) (hk : k < 2) :
    ∃ tr s, (Memoria.memoria Memoria.smallConfig).Run tr s ∧
      InFrame evictConfig (Memoria.pageEntries s) (dirtyEntry k) k := by
  obtain ⟨tr, s, hrun, htest⟩ := Lts.exists_run_of_drive (Memoria.State.start Memoria.smallConfig)
    (fun s r => (Memoria.handle Memoria.smallConfig s r).map Prod.fst) [Memoria.initRequest 0 32]
    (fun _ s => (List.range 2).all fun k =>
      decide (mmuPerformPageWalk evictConfig (Memoria.pageEntries s) k 0 = some (k : Int)))
    (by decide +kernel)
  have hwalk := List.all_eq_true.mp htest k (List.mem_range.mpr hk)
  have hframes : 2 ≤ evictConfig.memoria.framesTotal := by decide
  exact ⟨tr, s, hrun, of_decide_eq_true hwalk, by omega, (by decide : 1 ≤ evictConfig.pageSize)⟩

/-- The theorem at work on a page in frame 1. -/
theorem writesBack_iff_frame_one :
    ∃ tr s, (Memoria.memoria Memoria.smallConfig).Run tr s ∧
      WritesBack evictConfig (Memoria.pageEntries s) (dirtyMmu 1) 0 (dirtyEntry 1) 1 := by
  obtain ⟨tr, s, hrun, hin⟩ := exists_run_inFrame 1 (by decide)
  have htlb : TlbOk evictConfig (Memoria.pageEntries s) (dirtyMmu 1).tlb := by
    simp [TlbOk, dirtyMmu]
  refine ⟨tr, s, hrun, (writesBack_iff (by decide) (isVictim_dirtyMmu 1) fun _ => hin).mpr fun _ _ => ?_⟩
  exact (findsFrame_iff htlb hin.walk hin.lt).mpr (by decide)

/-- **A dirty page in frame 0 is not written back.**  With a TLB the CPU takes its address for an
error. -/
theorem not_writesBack :
    ¬ ∀ (cfg : Config) (tr : List (Transition Memoria.State Memoria.Request)) (s : Memoria.State)
        (mmu : Mmu) (i f : Nat) (victim : CacheEntry),
      (Memoria.memoria cfg.memoria).Run tr s → 0 < cfg.cacheEntries →
      TlbOk cfg (Memoria.pageEntries s) mmu.tlb → IsVictim cfg mmu.cache i victim →
      (victim.dirty = true → InFrame cfg (Memoria.pageEntries s) victim f) →
      WritesBack cfg (Memoria.pageEntries s) mmu i victim f := by
  intro hall
  obtain ⟨tr, s, hrun, hin⟩ := exists_run_inFrame 0 (by decide)
  have htlb : TlbOk evictConfig (Memoria.pageEntries s) (dirtyMmu 0).tlb := by
    simp [TlbOk, dirtyMmu]
  have hback := hall evictConfig tr s (dirtyMmu 0) 0 0 (dirtyEntry 0) hrun (by decide) htlb
    (isVictim_dirtyMmu 0) fun _ => hin
  have hsent := hback.sent rfl
  rw [evict_dirty (isVictim_dirtyMmu 0) rfl hin.walk, if_pos ?_] at hsent
  · simp at hsent
  · refine ⟨by decide, ?_⟩
    have hframe : tlbFrame evictConfig (dirtyMmu 0).tlb (dirtyEntry 0) 0 = 0 := rfl
    simp [hframe, physicalAddress, toInt32_eq]

end Tpso.Cpu
