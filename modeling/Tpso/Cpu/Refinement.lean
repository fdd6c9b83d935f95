/-
# The page cache refines direct access, up to the gaps it invents

For a process alone on a CPU: a program of READs and WRITEs, run with the page cache and then cleaned
up, leaves the user space that it leaves with `ENTRADAS_CACHE = 0`, and so does each of its prefixes,
exactly when two things never happen on the way (`refines_iff_cleanRun`).  A WRITE that hits a modified
entry must not extend its region over bytes that the entry does not have right (`gapClear`): a WRITE that
misses fills the entry with zeros instead of reading the page, so two separate writes into one page
write zeros over what lies between.  And the process must not come to a single entry that is dirty, and
whose page is in frame 0 (`stuck`): with a TLB the write-back of that entry is taken for a failed
translation, and the instruction is executed again for ever.
-/
import Tpso.Cpu.PageWalk
import Tpso.Cpu.Retry
import Tpso.Cpu.Writeback
import Tpso.Memoria.Mapped

namespace Tpso.Cpu

open Tpso.Lib
open Tpso.Memoria (pageEntries processManagerFindProcess writeToUserSpace readFromUserSpace)

/-! ## 1. The pages of a process -/

/-- The pages below `n` of a process are mapped to frames of their own. -/
structure Mapped (cfg : Config) (pe : PageEntries) (pid n : Int) : Prop where
  placed : ∀ page, 0 ≤ page → page < n → Placed cfg pe (frameBase cfg pe) pid page
  apart : ∀ page page', 0 ≤ page → page < n → 0 ≤ page' → page' < n →
    frameBase cfg pe pid page = frameBase cfg pe pid page' → page = page'

/-- Two frames that share a byte are the same. -/
theorem frameBase_eq_of_mem {cfg : Config} {pe : PageEntries} {pid pid' page page' : Int} {x : Nat}
    (hx : frameBase cfg pe pid page ≤ x) (hlt : x < frameBase cfg pe pid page + cfg.pageSize)
    (hx' : frameBase cfg pe pid' page' ≤ x) (hlt' : x < frameBase cfg pe pid' page' + cfg.pageSize) :
    frameBase cfg pe pid page = frameBase cfg pe pid' page' := by
  unfold frameBase at *
  have hf := Nat.div_eq_of_lt_le hx (by rw [Nat.succ_mul]; exact hlt)
  have hf' := Nat.div_eq_of_lt_le hx' (by rw [Nat.succ_mul]; exact hlt')
  rw [← hf, ← hf']

/-- The walk over the page table of a process. -/
theorem walk_of_tabled {cfg : Config} {s : Memoria.State} {pid : Int} {p : Memoria.ProcessInfo}
    {t : Memoria.PageTable} {fs : List Nat} (he : 1 ≤ cfg.memoria.entradasPorTabla)
    (hlevels : cfg.memoria.cantidadNiveles < 2 ^ 31)
    (hpow : cfg.memoria.entradasPorTabla ^ cfg.memoria.cantidadNiveles < 2 ^ 31)
    (hfind : processManagerFindProcess s.processes pid = some p)
    (ht : Memoria.Tabled cfg.memoria p t fs) (page : Nat) :
    mmuPerformPageWalk cfg (pageEntries s) page pid =
      t.followPage cfg.memoria.entradasPorTabla cfg.memoria.lastLevel page := by
  obtain ⟨hone, hnd, hids⟩ := framesIn_ids ht.frames he hlevels hpow
  have hlast : cfg.memoria.entradasPorTabla ^ cfg.memoria.lastLevel < 2 ^ 31 := by
    have hniv := Memoria.cantidadNiveles_eq cfg.memoria
    have := Nat.pow_le_pow_right he (by omega : cfg.memoria.lastLevel ≤ cfg.memoria.cantidadNiveles)
    omega
  exact mmuPerformPageWalk_eq hfind ht.table hone hnd hids ht.frames.complete he hlast page

/-- **The page table that memoria keeps for a process maps its pages.** -/
theorem mapped_of_tabled {cfg : Config} {s : Memoria.State} {pid : Int} {p : Memoria.ProcessInfo}
    {t : Memoria.PageTable} {fs : List Nat} (he : 1 ≤ cfg.memoria.entradasPorTabla)
    (hlevels : cfg.memoria.cantidadNiveles < 2 ^ 31)
    (hpow : cfg.memoria.entradasPorTabla ^ cfg.memoria.cantidadNiveles < 2 ^ 31)
    (hfind : processManagerFindProcess s.processes pid = some p)
    (ht : Memoria.Tabled cfg.memoria p t fs) :
    Mapped cfg (pageEntries s) pid (cfg.memoria.pagesNeeded p.processSize) := by
  -- the frame of a page
  have hwalk : ∀ page, 0 ≤ page → page < cfg.memoria.pagesNeeded p.processSize →
      ∃ (i f : Nat), page = i ∧ fs[i]? = some f ∧
        mmuPerformPageWalk cfg (pageEntries s) page pid = some (f : Int) := by
    intro page h0 hlt
    obtain ⟨i, rfl⟩ := Int.eq_ofNat_of_zero_le h0
    rw [← ht.length] at hlt
    have hi : i < fs.length := by exact_mod_cast hlt
    refine ⟨i, fs[i], rfl, List.getElem?_eq_getElem hi, ?_⟩
    rw [walk_of_tabled he hlevels hpow hfind ht]
    exact ht.frames.used i fs[i] (List.getElem?_eq_getElem hi)
  have hbase : ∀ {page : Int} {f : Nat}, mmuPerformPageWalk cfg (pageEntries s) page pid = some (f : Int) →
      frameBase cfg (pageEntries s) pid page = f * cfg.pageSize := by
    intro page f hw
    rw [frameBase, hw, Option.getD_some, Int.toNat_natCast]
  constructor
  · intro page h0 hlt
    obtain ⟨i, f, -, hf, hw⟩ := hwalk page h0 hlt
    exact ⟨f, hw, ht.lt f (List.mem_of_getElem? hf), hbase hw⟩
  · intro page page' h0 hlt h0' hlt' heq
    obtain ⟨i, f, rfl, hf, hw⟩ := hwalk page h0 hlt
    obtain ⟨j, g, rfl, hg, hw'⟩ := hwalk page' h0' hlt'
    rw [hbase hw, hbase hw'] at heq
    obtain rfl : f = g := Nat.eq_of_mul_eq_mul_right cfg.memoria.tamPagina_pos heq
    have hi : i < fs.length := (List.getElem?_eq_some_iff.mp hf).1
    have hij : i = j := (List.getElem?_inj hi ht.nodup).mp (hf.trans hg.symm)
    rw [hij]

/-- In every run. -/
theorem mapped_of_run {cfg : Config} {tr : List (Transition Memoria.State Memoria.Request)}
    {s : Memoria.State} {pid : Int} {p : Memoria.ProcessInfo} (hr : (Memoria.memoria cfg.memoria).Run tr s)
    (he : 1 ≤ cfg.memoria.entradasPorTabla) (hlevels : cfg.memoria.cantidadNiveles < 2 ^ 31)
    (hpow : cfg.memoria.entradasPorTabla ^ cfg.memoria.cantidadNiveles < 2 ^ 31)
    (hfind : processManagerFindProcess s.processes pid = some p) (hsize : p.processSize ≠ 0) :
    Mapped cfg (pageEntries s) pid (cfg.memoria.pagesNeeded p.processSize) := by
  obtain ⟨t, fs, ht⟩ := (Memoria.tabled_run he hpow hr).tabled p (Memoria.mem_of_find hfind) hsize
  exact mapped_of_tabled he hlevels hpow hfind ht

/-! ## 2. What is compared -/

/-- The CPU without a cache. -/
def Config.uncached (cfg : Config) : Config := { cfg with cacheEntries := 0 }

/-- From a state with the cache and one without, both run the program to its end, and after the clean-up
the user spaces are the same. -/
def AgreesFrom (cfg : Config) (pe : PageEntries) (pid : Int) (mmu : Mmu) (mem : Bytes) (mmu0 : Mmu)
    (mem0 : Bytes) (as : List Access) : Prop :=
  ∃ mmu1 mem1 mmu2 final, (∃ fuel, runProgram cfg pe pid fuel as mmu mem = some (mmu1, mem1)) ∧
    mmuProcessCleanup cfg pe mmu1 mem1 = some (mmu2, final) ∧
    ∃ mmu3 fuel, runProgram cfg.uncached pe pid fuel as mmu0 mem0 = some (mmu3, final)

/-- **The program refines itself without the cache.** -/
def Refines (cfg : Config) (pe : PageEntries) (pid : Int) (mmu : Mmu) (mem : Bytes)
    (as : List Access) : Prop :=
  AgreesFrom cfg pe pid mmu mem ⟨mmu.tlb, ⟨[], 0⟩⟩ mem as

/-- **The condition**, instruction by instruction: before each the process is not stuck, and the gap that
the instruction closes is right. -/
def CleanRun (cfg : Config) (pe : PageEntries) (pid : Int) : List Access → Mmu → Bytes → Prop
  | [], _, _ => True
  | a :: rest, mmu, mem =>
    stuck cfg pe mmu.cache a = false ∧ gapClear cfg (frameBase cfg pe) mmu.cache mem a = true ∧
      ∀ mmu' mem', Executes cfg pe pid a mmu mem mmu' mem' → CleanRun cfg pe pid rest mmu' mem'

/-- A cache without valid entries, and a TLB without entries: an MMU after `mmu_init`, or after
`mmu_process_cleanup`. -/
structure EmptyMmu (cfg : Config) (mmu : Mmu) : Prop where
  tlb : mmu.tlb.entries = []
  length : mmu.cache.entries.length = cfg.cacheEntries
  pointer : mmu.cache.clockPointer < cfg.cacheEntries
  invalid : ∀ e ∈ mmu.cache.entries, e.isValid = false

theorem emptyMmu_mmuInit {cfg : Config} (hn : 0 < cfg.cacheEntries) (junk : Nat → CacheEntry) :
    EmptyMmu cfg (mmuInit cfg junk) where
  tlb := rfl
  length := by simp [mmuInit]
  pointer := hn
  invalid e he := by
    obtain ⟨i, -, rfl⟩ := List.mem_map.mp he
    rfl

/-- An access of the process inside one of its pages. -/
def OwnPage (cfg : Config) (n : Int) (a : Access) : Prop :=
  InPage cfg a ∧ pageOf cfg a.logicDir < n

/-! ## 3. The invariant -/

/-- **The invariant**: the user space overlaid with the cache is the one without a cache. -/
structure Refining (cfg : Config) (pe : PageEntries) (pid n : Int) (mmu : Mmu) (mem ref : Bytes) :
    Prop where
  ok : MmuOk cfg pe (frameBase cfg pe) mmu
  own : ∀ e ∈ mmu.cache.entries, e.isValid = true → e.pid = pid ∧ 0 ≤ e.page ∧ e.page < n
  overlaid : Overlaid mem (patchAt (frameBase cfg pe) mmu.cache) ref

section Invariant

variable {cfg : Config} {pe : PageEntries} {pid n : Int} {mmu mmu' mmu0 : Mmu} {mem mem' ref : Bytes}
  {a : Access} {as rest : List Access}

theorem refining_of_empty (h : EmptyMmu cfg mmu) (mem : Bytes) :
    Refining cfg pe pid n mmu mem mem := by
  have hnone : ∀ {P : Prop} {e : CacheEntry}, e ∈ mmu.cache.entries → e.isValid = true → P :=
    fun he hv => absurd (h.invalid _ he ▸ hv) (by simp)
  refine ⟨⟨?_, h.length, h.pointer, fun e he hv => hnone he hv, fun e he hv => hnone he hv, ?_⟩,
    fun e he hv => hnone he hv, ?_, fun _ _ => rfl⟩
  · intro e he
    rw [h.tlb] at he
    exact absurd he (by simp)
  · intro i j e e' he _ hv
    exact hnone (List.mem_of_getElem? he) hv
  · intro i x hx
    cases he : mmu.cache.entries[i]? with
    | none => simp [patchAt, he] at hx
    | some e =>
      rw [patchAt_of_getElem? _ he] at hx
      exact hnone (List.mem_of_getElem? he) hx.1

/-- The page of an access of the process. -/
theorem OwnPage.bounds (h : OwnPage cfg n a) :
    0 ≤ pageOf cfg a.logicDir ∧ pageOf cfg a.logicDir < n :=
  ⟨(pageOf_offsetOf cfg h.1.1).1, h.2⟩

/-- Only one page of the process is in frame 0. -/
theorem Refining.oneBlocks (h : Refining cfg pe pid n mmu mem ref) (hmap : Mapped cfg pe pid n) :
    OneBlocks cfg pe mmu.cache := by
  have hzero : ∀ e, blocks cfg pe e = true → frameBase cfg pe e.pid e.page = 0 := by
    intro e hb
    simp only [blocks, Bool.and_eq_true, decide_eq_true_eq] at hb
    simp [frameBase, hb.2]
  intro e he e' he' hb hb'
  obtain ⟨hpid, h0, hlt⟩ := h.own e he (blocks_valid hb)
  obtain ⟨hpid', h0', hlt'⟩ := h.own e' he' (blocks_valid hb')
  have heq := (hzero e hb).trans (hzero e' hb').symm
  rw [hpid, hpid'] at heq
  exact hmap.apart e.page e'.page h0 hlt h0' hlt' heq

/-- What the cache keeps back of a page is in the entry of that page. -/
theorem Refining.apart (h : Refining cfg pe pid n mmu mem ref) (hmap : Mapped cfg pe pid n)
    {page : Int} (h0 : 0 ≤ page) (hlt : page < n) {k x : Nat}
    (hx : (patchAt (frameBase cfg pe) mmu.cache k).dom x) (hlo : frameBase cfg pe pid page ≤ x)
    (hhi : x < frameBase cfg pe pid page + cfg.pageSize) :
    ∃ e, mmu.cache.entries[k]? = some e ∧ e.isValid = true ∧ e.page = page := by
  obtain ⟨e, he, hvalid, -, hlo', hhi'⟩ := patchAt_mem h.ok hx
  obtain ⟨hpid, h0', hlt'⟩ := h.own e (List.mem_of_getElem? he) hvalid
  have heq := frameBase_eq_of_mem hlo' hhi' hlo hhi
  rw [hpid] at heq
  exact ⟨e, he, hvalid, hmap.apart e.page page h0' hlt' h0 hlt heq⟩

/-- In the page of an entry no other entry has a patch. -/
theorem Refining.eq_of_dom (h : Refining cfg pe pid n mmu mem ref) (hmap : Mapped cfg pe pid n) {i j x : Nat}
    {e : CacheEntry} (he : mmu.cache.entries[i]? = some e) (hvalid : e.isValid = true)
    (hx : (patchAt (frameBase cfg pe) mmu.cache j).dom x) (hlo : frameBase cfg pe e.pid e.page ≤ x)
    (hhi : x < frameBase cfg pe e.pid e.page + cfg.pageSize) : j = i := by
  obtain ⟨hpid, h0, hlt⟩ := h.own e (List.mem_of_getElem? he) hvalid
  rw [hpid] at hlo hhi
  obtain ⟨e', he', hvalid', hpage⟩ := h.apart hmap h0 hlt hx hlo hhi
  exact h.ok.distinct j i e' e he' he hvalid' hvalid hpage

/-- The entries stay those of the process. -/
theorem Refining.own_step (h : Refining cfg pe pid n mmu mem ref) (ha : OwnPage cfg n a)
    (ho : Outcome cfg (frameBase cfg pe) pid mmu.cache mem a mmu'.cache mem') :
    ∀ e' ∈ mmu'.cache.entries, e'.isValid = true → e'.pid = pid ∧ 0 ≤ e'.page ∧ e'.page < n := by
  intro e' he' hvalid
  rcases ho.owner he' hvalid with ⟨e, he, hv, hpid, hpage⟩ | ⟨hpid, hpage⟩
  · rw [← hpid, ← hpage]
    exact h.own e he hv
  · rw [hpid, hpage]
    exact ⟨rfl, ha.bounds⟩

/-- **One instruction keeps the invariant.** -/
theorem Refining.step (h : Refining cfg pe pid n mmu mem ref) (hmap : Mapped cfg pe pid n)
    (ha : OwnPage cfg n a) (hgap : gapClear cfg (frameBase cfg pe) mmu.cache mem a = true)
    (ho : Outcome cfg (frameBase cfg pe) pid mmu.cache mem a mmu'.cache mem')
    (hok : MmuOk cfg pe (frameBase cfg pe) mmu') :
    Refining cfg pe pid n mmu' mem' (directMemory cfg (frameBase cfg pe) pid ref a) := by
  obtain ⟨h0, hlt⟩ := ha.bounds
  refine ⟨hok, h.own_step ha ho, ?_⟩
  refine ho.overlaid Function.injective_id h.overlaid h.ok ha.1 (fun _ => rfl) (fun _ => rfl)
    (fun k hk => absurd rfl (hk k)) hgap ?_ ?_
  · exact fun e he hv _ => (h.own e he hv).1
  · intro k x hx hlo hhi
    obtain ⟨e, he, hv, hpage⟩ := h.apart hmap h0 hlt hx hlo hhi
    exact ⟨k, e, rfl, he, hv, hpage⟩

/-- An offset of the gap at which the entry is wrong. -/
theorem exists_of_not_gapClear {logicDir : Int} {value : List UInt8} {base : Int → Int → Nat}
    (h : gapClear cfg base mmu.cache mem (.write logicDir value) = false) :
    ∃ (i : Nat) (e : CacheEntry) (o : Nat), mmu.cache.entries[i]? = some e ∧ e.isValid = true ∧ e.page = pageOf cfg logicDir ∧
      e.modifiedBit = true ∧ inGap e (offsetOf cfg logicDir).toNat value.length o ∧
      e.content o ≠ mem (base e.pid e.page + o) := by
  unfold gapClear at h
  rcases cacheFindEntry_cases mmu.cache (pageOf cfg logicDir) with
    ⟨c1, i, e, hfind, he, hvalid, hpage, -, -⟩ | ⟨hfind, -⟩
  · simp only [hfind, he, Option.all_some, Bool.or_eq_false_iff, Bool.not_eq_false'] at h
    obtain ⟨hmod, hagree⟩ := h
    rw [gapAgrees, List.all_eq_false] at hagree
    obtain ⟨o, -, ho⟩ := hagree
    simp only [Bool.or_eq_true, Bool.not_eq_true', decide_eq_false_iff_not, decide_eq_true_eq,
      not_or, not_not] at ho
    exact ⟨i, e, o, he, hvalid, hpage, hmod, ho.1, ho.2⟩
  · simp [hfind] at h

/-- **A WRITE that closes a wrong gap** makes the user space, overlaid with the cache, another one than
that without a cache. -/
theorem Refining.step_of_gap (h : Refining cfg pe pid n mmu mem ref) (hmap : Mapped cfg pe pid n)
    (ha : OwnPage cfg n a) (hgap : gapClear cfg (frameBase cfg pe) mmu.cache mem a = false)
    (ho : Outcome cfg (frameBase cfg pe) pid mmu.cache mem a mmu'.cache mem')
    (hok : MmuOk cfg pe (frameBase cfg pe) mmu') :
    ∃ ref', Refining cfg pe pid n mmu' mem' ref' ∧
      ref' ≠ directMemory cfg (frameBase cfg pe) pid ref a := by
  classical
  obtain ⟨h0, hlt⟩ := ha.bounds
  have hown := h.own_step ha ho
  cases a with
  | read logicDir size => exact absurd hgap (by simp [gapClear])
  | write logicDir value =>
    obtain ⟨i, e, o, he, hvalid, hpage, hmod, hin, hwrong⟩ := exists_of_not_gapClear hgap
    cases ho with
    | writeMiss hmiss => exact absurd hpage (hmiss e (List.mem_of_getElem? he) hvalid)
    | @writeHit _ _ _ i' e0 e' he0 hvalid0 hpage0 helse hget hstore =>
      obtain rfl : i = i' := h.ok.distinct i i' e e0 he he0 hvalid hvalid0 (hpage.trans hpage0.symm)
      obtain rfl : e = e0 := by simpa [he] using he0
      have hpid : e.pid = pid := (h.own e (List.mem_of_getElem? he) hvalid).1
      have hregion := h.ok.region e (List.mem_of_getElem? he) hvalid
      have hfit := ha.1.write_fits
      obtain ⟨hlow, hhigh, hnotold, hnotnew⟩ := hin
      -- the byte belongs to the new patch, and to no patch before
      have hdom : (patchOf (frameBase cfg pe) (e.store (offsetOf cfg logicDir).toNat value)).dom
          (frameBase cfg pe e.pid e.page + o) := by
        rw [patchOf_store_dom]
        rw [if_pos hmod, if_pos hmod]
        exact ⟨hvalid, by omega, by omega⟩
      have hpatch := patchAt_of_getElem? (frameBase cfg pe) he
      have hinpage := store_dom_inPage hfit hregion hdom
      have hbefore : mem (frameBase cfg pe e.pid e.page + o) =
          ref (frameBase cfg pe e.pid e.page + o) := by
        refine h.overlaid.rest _ ?_
        intro j hj
        obtain rfl := h.eq_of_dom hmap he hvalid hj hinpage.1 hinpage.2
        rw [hpatch] at hj
        obtain ⟨-, -, hlo, hhi⟩ := hj
        exact hnotold ⟨by simp only [Access.logicDir] at *; omega, by simp only [Access.logicDir] at *; omega⟩
      refine ⟨fun x => if (patchOf (frameBase cfg pe) (e.store (offsetOf cfg logicDir).toNat value)).dom x
        then (patchOf (frameBase cfg pe) (e.store (offsetOf cfg logicDir).toNat value)).val x else ref x,
        ⟨hok, hown, ?_⟩, ?_⟩
      · rw [family_eq Function.injective_id (fun _ => rfl) (fun _ => rfl)
          (fun k hk => absurd rfl (hk k)) helse, patchAt_of_getElem? _ hget, patchOf_congr hstore]
        refine h.overlaid.replace i ?_ ?_ ?_ ?_
        · intro x hx
          rw [hpatch] at hx
          exact store_dom_of_dom hx
        · intro j hj x hx hnew
          obtain ⟨hlo, hhi⟩ := store_dom_inPage hfit hregion hnew
          exact hj (h.eq_of_dom hmap he hvalid hx hlo hhi)
        · intro x hx
          rw [if_pos hx]
        · intro x hx
          rw [if_neg hx]
      · intro heq
        have hbyte := congrFun heq (frameBase cfg pe e.pid e.page + o)
        simp only [if_pos hdom, directMemory] at hbyte
        rw [← hpid, ← hpage, Bytes.blit_of_not_mem (by omega), ← hbefore] at hbyte
        refine hwrong (Eq.trans ?_ hbyte)
        show _ = (e.content.blit (offsetOf cfg logicDir).toNat value) _
        rw [Bytes.blit_of_not_mem (by
          show ¬ (_ ≤ frameBase cfg pe e.pid e.page + o - frameBase cfg pe e.pid e.page ∧
            frameBase cfg pe e.pid e.page + o - frameBase cfg pe e.pid e.page < _)
          omega)]
        show e.content o = e.content (frameBase cfg pe e.pid e.page + o - frameBase cfg pe e.pid e.page)
        congr 1
        omega

/-- **The clean-up of a refining MMU** leaves the user space without a cache. -/
theorem Refining.cleanup (h : Refining cfg pe pid n mmu mem ref) (hn : 0 < cfg.cacheEntries) :
    ∃ mmu', mmuProcessCleanup cfg pe mmu mem = some (mmu', ref) := by
  obtain ⟨tlb', mem', heq, -, hall⟩ := mmuProcessCleanup_spec id hn h.ok h.overlaid
    fun _ => rfl
  have hover := hall (fun _ => ⟨fun _ => False, fun _ => 0⟩) (fun _ _ => id) fun k hk => absurd rfl (hk k)
  exact ⟨_, hover.eq_of_forall_not (fun _ _ => id) ▸ heq⟩

/-! ## 4. Without the cache -/

/-- The page walk does not look at the size of the cache. -/
theorem pageWalkLoop_uncached (entry : Int → Int → Option Int) (page : Int) (power : Nat) :
    ∀ id, pageWalkLoop cfg.uncached entry page power id = pageWalkLoop cfg entry page power id := by
  induction power with
  | zero => exact fun id => rfl
  | succ power ih =>
    intro id
    simp only [pageWalkLoop, ih]
    rfl

theorem translate_uncached (tlb : Tlb) (logicDir : Int) :
    translate cfg.uncached pe pid tlb logicDir = translate cfg pe pid tlb logicDir := by
  have hwalk : ∀ page, mmuPerformPageWalk cfg.uncached pe page pid = mmuPerformPageWalk cfg pe page pid :=
    fun page => pageWalkLoop_uncached _ _ _ _
  simp only [translate, mmuTranslateAddress, frameOf, pageOf, hwalk]
  rfl

/-- The translation of an access to a mapped page. -/
theorem translate_own {tlb : Tlb} (hmap : Mapped cfg pe pid n) (htlb : TlbOk cfg pe tlb)
    (ha : OwnPage cfg n a) :
    ∃ tlb' f o, f < cfg.memoria.framesTotal ∧ (offsetOf cfg a.logicDir).toNat = o ∧
      (o : Int) + a.size ≤ cfg.pageSize ∧
      frameBase cfg pe pid (pageOf cfg a.logicDir) = f * cfg.pageSize ∧
      translate cfg pe pid tlb a.logicDir = some (tlb', ((f * cfg.pageSize + o : Nat) : Int)) ∧
      TlbOk cfg pe tlb' := by
  obtain ⟨h0, hlt⟩ := ha.bounds
  obtain ⟨f, hwalk, hf, hbase⟩ := hmap.placed _ h0 hlt
  obtain ⟨-, o, ho, hlto⟩ := pageOf_offsetOf cfg ha.1.1
  obtain ⟨tlb', htrans, htlb'⟩ := translate_eq htlb hwalk
  rw [ho, physicalAddress_eq hf hlto.le] at htrans
  refine ⟨tlb', f, o, hf, by rw [ho, Int.toNat_natCast], ?_, hbase, htrans, htlb'⟩
  have := ha.1.2.2
  rwa [ho] at this

/-- **Without a cache an instruction acts on the user space at once.** -/
theorem executes_uncached (hmap : Mapped cfg pe pid n) (htlb : TlbOk cfg pe mmu0.tlb)
    (ha : OwnPage cfg n a) (ref : Bytes) :
    ∃ mmu0', Executes cfg.uncached pe pid a mmu0 ref mmu0'
      (directMemory cfg (frameBase cfg pe) pid ref a) ∧ TlbOk cfg pe mmu0'.tlb := by
  obtain ⟨tlb', f, o, hf, hnat, hfit, hbase, htrans, htlb'⟩ := translate_own hmap htlb ha
  refine ⟨{ mmu0 with tlb := tlb' }, .done ?_, htlb'⟩
  cases a with
  | read logicDir size =>
    have hread : ∃ bytes, readFromUserSpace cfg.memoria ref (f * cfg.pageSize + o : Nat) size =
        some bytes := by
      obtain ⟨k, hk⟩ := Int.eq_ofNat_of_zero_le ha.1.2.1
      simp only [Access.size] at hk
      rw [hk]
      exact readFromUserSpace_isSome cfg ref _ k
    obtain ⟨bytes, hread⟩ := hread
    show readDirect cfg.uncached pe pid mmu0 ref logicDir size = _
    exact Option.bind_eq_some_iff.mpr ⟨_, (translate_uncached _ _).trans htrans,
      Option.map_eq_some_iff.mpr ⟨bytes, hread, rfl⟩⟩
  | write logicDir value =>
    simp only [Access.logicDir] at hnat hbase htrans
    have hlen : o + value.length ≤ cfg.pageSize := by
      simp only [Access.size] at hfit
      exact_mod_cast hfit
    simp only [directMemory, hnat, hbase]
    show writeDirect cfg.uncached pe pid mmu0 ref logicDir value = _
    exact Option.bind_eq_some_iff.mpr ⟨_, (translate_uncached _ _).trans htrans,
      Option.map_eq_some_iff.mpr ⟨_, writeToUserSpace_eq hf hlen, rfl⟩⟩

/-! ## 5. One instruction at a time -/

/-- With nothing left to execute, what remains is the clean-up. -/
theorem agreesFrom_nil_iff (h : Refining cfg pe pid n mmu mem ref) (hn : 0 < cfg.cacheEntries)
    {mem0 : Bytes} : AgreesFrom cfg pe pid mmu mem mmu0 mem0 [] ↔ ref = mem0 := by
  obtain ⟨mmu', hclean⟩ := h.cleanup hn
  have hnil : ∀ (c : Config) (fuel : Nat) (m : Mmu) (b : Bytes),
      runProgram c pe pid fuel [] m b = some (m, b) := by
    intro c fuel m b
    cases fuel <;> rfl
  constructor
  · rintro ⟨mmu1, mem1, mmu2, final, ⟨fuel, hrun⟩, hclean', mmu3, fuel', hrun0⟩
    rw [hnil] at hrun hrun0
    obtain ⟨rfl, rfl⟩ := Prod.mk.inj (Option.some.inj hrun)
    obtain ⟨-, rfl⟩ := Prod.mk.inj (Option.some.inj hrun0)
    exact (Prod.mk.inj (Option.some.inj (hclean.symm.trans hclean'))).2
  · rintro rfl
    exact ⟨mmu, mem, mmu', ref, ⟨0, hnil _ _ _ _⟩, hclean, mmu0, 0, hnil _ _ _ _⟩

/-- Both sides execute the first instruction and go on. -/
theorem agreesFrom_cons_iff {mmu0' : Mmu} {mem0 mem0' : Bytes}
    (hexec : Executes cfg pe pid a mmu mem mmu' mem')
    (hexec0 : Executes cfg.uncached pe pid a mmu0 mem0 mmu0' mem0') :
    AgreesFrom cfg pe pid mmu mem mmu0 mem0 (a :: rest) ↔
      AgreesFrom cfg pe pid mmu' mem' mmu0' mem0' rest := by
  constructor
  · rintro ⟨mmu1, mem1, mmu2, final, hrun, hclean, mmu3, hrun0⟩
    obtain ⟨m, b, hex, hrest⟩ := runProgram_cons_iff.mp hrun
    obtain ⟨m0, b0, hex0, hrest0⟩ := runProgram_cons_iff.mp hrun0
    obtain ⟨rfl, rfl⟩ := hex.unique hexec
    obtain ⟨rfl, rfl⟩ := hex0.unique hexec0
    exact ⟨mmu1, mem1, mmu2, final, hrest, hclean, mmu3, hrest0⟩
  · rintro ⟨mmu1, mem1, mmu2, final, hrest, hclean, mmu3, hrest0⟩
    exact ⟨mmu1, mem1, mmu2, final, runProgram_cons_iff.mpr ⟨_, _, hexec, hrest⟩, hclean, mmu3,
      runProgram_cons_iff.mpr ⟨_, _, hexec0, hrest0⟩⟩

/-- A stuck process comes to no end. -/
theorem not_agreesFrom_of_stuck {mem0 : Bytes} (h : Refining cfg pe pid n mmu mem ref)
    (hs : stuck cfg pe mmu.cache a = true) : ¬ AgreesFrom cfg pe pid mmu mem mmu0 mem0 (a :: rest) := by
  rintro ⟨mmu1, mem1, mmu2, final, hrun, -⟩
  obtain ⟨m, b, hex, -⟩ := runProgram_cons_iff.mp hrun
  exact not_executes_of_stuck hex h.ok hs

/-! ## 6. Whole programs -/

/-- **Programs from any state of the invariant.**  The induction is on the program: each instruction is
executed by both sides, or the condition fails at it, and then so does the prefix that ends there. -/
theorem agreesFrom_take_iff (hmap : Mapped cfg pe pid n) (hn : 0 < cfg.cacheEntries) :
    ∀ (mmu : Mmu) (mem : Bytes) (mmu0 : Mmu) (ref : Bytes), Refining cfg pe pid n mmu mem ref →
      TlbOk cfg pe mmu0.tlb → (∀ a ∈ as, OwnPage cfg n a) →
      ((∀ k, AgreesFrom cfg pe pid mmu mem mmu0 ref (as.take k)) ↔ CleanRun cfg pe pid as mmu mem) := by
  induction as with
  | nil =>
    intro mmu mem mmu0 ref h _ _
    simp only [List.take_nil, CleanRun, iff_true]
    exact fun _ => (agreesFrom_nil_iff h hn).mpr rfl
  | cons a rest ih =>
    intro mmu mem mmu0 ref h htlb0 hin
    have ha := hin a List.mem_cons_self
    obtain ⟨h0, hlt⟩ := ha.bounds
    obtain ⟨mmu0', hexec0, htlb0'⟩ := executes_uncached hmap htlb0 ha ref
    cases hstuck : stuck cfg pe mmu.cache a with
    | true =>
      -- the first prefix that is not empty has no end
      refine iff_of_false (fun hall => ?_) fun hclean => ?_
      · exact not_agreesFrom_of_stuck h hstuck (hall 1)
      · exact absurd (hstuck.symm.trans hclean.1) (by simp)
    | false =>
      obtain ⟨mmu', mem', hexec, hout, hok⟩ := exists_executes mem hn h.ok (h.oneBlocks hmap) ha.1
        (hmap.placed _ h0 hlt) hstuck
      cases hgap : gapClear cfg (frameBase cfg pe) mmu.cache mem a with
      | false =>
        refine iff_of_false (fun hall => ?_) fun hclean => ?_
        · obtain ⟨ref', href', hne⟩ := h.step_of_gap hmap ha hgap hout hok
          exact hne ((agreesFrom_nil_iff href' hn).mp ((agreesFrom_cons_iff hexec hexec0).mp (hall 1)))
        · exact absurd (hgap.symm.trans hclean.2.1) (by simp)
      | true =>
        have hnext := ih mmu' mem' mmu0' _ (h.step hmap ha hgap hout hok) htlb0'
          fun b hb => hin b (List.mem_cons_of_mem _ hb)
        constructor
        · intro hall
          refine ⟨hstuck, hgap, ?_⟩
          intro mmu1 mem1 hexec1
          obtain ⟨rfl, rfl⟩ := hexec1.unique hexec
          refine hnext.mp fun k => ?_
          exact (agreesFrom_cons_iff hexec hexec0).mp (hall (k + 1))
        · rintro ⟨-, -, hclean⟩ k
          cases k with
          | zero => exact (agreesFrom_nil_iff h hn).mpr rfl
          | succ k =>
            rw [List.take_succ_cons, agreesFrom_cons_iff hexec hexec0]
            exact hnext.mpr (hclean mmu' mem' hexec) k

end Invariant

/-- **The page cache refines direct access exactly on clean runs.**  For every state of memoria and every
process of it with a size, every cache size, algorithm and TLB configuration, and every program of
accesses inside the pages of the process, executed from an empty cache: the program and all its prefixes
leave after the clean-up the user space that they leave without a cache, if and only if the run is
clean. -/
theorem refines_iff_cleanRun {cfg : Config} {tr : List (Transition Memoria.State Memoria.Request)}
    {s : Memoria.State} (hr : (Memoria.memoria cfg.memoria).Run tr s)
    (he : 1 ≤ cfg.memoria.entradasPorTabla) (hlevels : cfg.memoria.cantidadNiveles < 2 ^ 31)
    (hpow : cfg.memoria.entradasPorTabla ^ cfg.memoria.cantidadNiveles < 2 ^ 31)
    {pid : Int} {p : Memoria.ProcessInfo} (hfind : processManagerFindProcess s.processes pid = some p)
    (hsize : p.processSize ≠ 0) (hcache : 0 < cfg.cacheEntries) {mmu : Mmu} (hempty : EmptyMmu cfg mmu)
    {as : List Access} (hin : ∀ a ∈ as, OwnPage cfg (cfg.memoria.pagesNeeded p.processSize) a) :
    (∀ k, Refines cfg (pageEntries s) pid mmu s.userSpace (as.take k)) ↔
      CleanRun cfg (pageEntries s) pid as mmu s.userSpace := by
  have hmap := mapped_of_run hr he hlevels hpow hfind hsize
  have htlb : TlbOk cfg (pageEntries s) mmu.tlb := by
    intro e hmem
    rw [hempty.tlb] at hmem
    exact absurd hmem (by simp)
  exact agreesFrom_take_iff hmap hcache mmu s.userSpace ⟨mmu.tlb, ⟨[], 0⟩⟩ s.userSpace
    (refining_of_empty hempty s.userSpace) htlb hin

/-- A run in which every instruction advances at once, tested instruction by instruction. -/
def cleanRunTest (cfg : Config) (pe : PageEntries) (pid : Int) : List Access → Mmu → Bytes → Bool
  | [], _, _ => true
  | a :: rest, mmu, mem =>
    !stuck cfg pe mmu.cache a && gapClear cfg (frameBase cfg pe) mmu.cache mem a &&
      (execution cfg pe pid mmu mem a).any fun x => x.2.2 && cleanRunTest cfg pe pid rest x.1 x.2.1

theorem cleanRun_of_test {cfg : Config} {pe : PageEntries} {pid : Int} {as : List Access} :
    ∀ {mmu : Mmu} {mem : Bytes}, cleanRunTest cfg pe pid as mmu mem = true →
      CleanRun cfg pe pid as mmu mem := by
  induction as with
  | nil => exact fun _ => trivial
  | cons a rest ih =>
    intro mmu mem h
    simp only [cleanRunTest, Bool.and_eq_true, Bool.not_eq_true', Option.any_eq_true] at h
    obtain ⟨⟨hstuck, hgap⟩, ⟨mmu1, mem1, advanced⟩, hex, hadv, hrest⟩ := h
    refine ⟨hstuck, hgap, ?_⟩
    intro mmu' mem' hexec
    simp only at hadv
    rw [hadv] at hex
    obtain ⟨rfl, rfl⟩ := hexec.unique (.done hex)
    exact ih hrest

/-- What a program comes to does not depend on the fuel. -/
theorem runProgram_unique {cfg : Config} {pe : PageEntries} {pid : Int} {r r' : Mmu × Bytes}
    (fuel : Nat) : ∀ {fuel' : Nat} {as : List Access} {mmu : Mmu} {mem : Bytes},
    runProgram cfg pe pid fuel as mmu mem = some r → runProgram cfg pe pid fuel' as mmu mem = some r' →
    r = r' := by
  induction fuel with
  | zero =>
    intro fuel' as mmu mem h h'
    cases as with
    | nil =>
      cases fuel' <;> exact Option.some.inj (h.symm.trans h')
    | cons a rest => exact absurd h (by simp [runProgram])
  | succ fuel ih =>
    intro fuel' as mmu mem h h'
    cases as with
    | nil =>
      cases fuel' <;> exact Option.some.inj (h.symm.trans h')
    | cons a rest =>
      cases fuel' with
      | zero => exact absurd h' (by simp [runProgram])
      | succ fuel' =>
        rw [runProgram] at h h'
        obtain ⟨x, hx, hrest⟩ := Option.bind_eq_some_iff.mp h
        obtain ⟨x', hx', hrest'⟩ := Option.bind_eq_some_iff.mp h'
        obtain rfl : x = x' := Option.some.inj (hx.symm.trans hx')
        split at hrest
        · rename_i hadv
          rw [if_pos hadv] at hrest'
          exact ih hrest hrest'
        · rename_i hadv
          rw [if_neg hadv] at hrest'
          exact ih hrest hrest'

/-- A cache of two pages with the modified clock, and a TLB. -/
def clockMConfig : Config :=
  { smallConfig with
    tlbEntries := 2
    cacheEntries := 2
    cacheAlgorithm := .clockM }

/-- What `malloc` may leave in an entry of the cache. -/
def clearEntry : CacheEntry := ⟨false, 0, 0, zeros, false, false, 0, 0⟩

/-- Two writes that meet, a read, and a write into the other page. -/
def tidyProgram : List Access := [.write 0 [97, 98], .write 2 [99], .read 1 2, .write 17 [100]]

/-- The theorem at work. -/
theorem refines_iff_cleanRun_tidy :
    ∃ tr s, (Memoria.memoria clockMConfig.memoria).Run tr s ∧
      ∀ k, Refines clockMConfig (pageEntries s) 0 (mmuInit clockMConfig fun _ => clearEntry) s.userSpace
        (tidyProgram.take k) := by
  obtain ⟨tr, s, hrun, htest⟩ := Lts.exists_run_of_drive (Memoria.State.start clockMConfig.memoria)
    (fun s r => (Memoria.handle clockMConfig.memoria s r).map Prod.fst) [Memoria.initRequest 0 30]
    (fun _ s => (processManagerFindProcess s.processes 0).any
        (fun p : Memoria.ProcessInfo => decide (p.processSize = 30)) &&
      cleanRunTest clockMConfig (pageEntries s) 0 tidyProgram (mmuInit clockMConfig fun _ => clearEntry)
        s.userSpace) (by decide +kernel)
  simp only [Bool.and_eq_true, Option.any_eq_true, decide_eq_true_eq] at htest
  obtain ⟨⟨p, hfind, hsize⟩, hclean⟩ := htest
  refine ⟨tr, s, hrun, (refines_iff_cleanRun hrun (by decide) (by decide) (by decide) hfind
    (by rw [hsize]; decide) (by decide) (emptyMmu_mmuInit (by decide) _) ?_).mpr
    (cleanRun_of_test hclean)⟩
  rw [hsize]
  unfold tidyProgram OwnPage InPage
  decide +kernel

/-- WRITE "x" at 1, a READ that evicts the page, and then WRITE "a" at 0 and WRITE "b" at 2. -/
def gapProgram : List Access := [.write 1 [120], .read 16 1, .write 0 [97], .write 2 [98]]

/-- Without the condition it fails: the zero between "a" and "b" is written over the "x". -/
theorem not_refines_gap :
    ¬ ∀ (cfg : Config) (tr : List (Transition Memoria.State Memoria.Request)) (s : Memoria.State)
      (pid : Int) (p : Memoria.ProcessInfo) (mmu : Mmu) (as : List Access),
      (Memoria.memoria cfg.memoria).Run tr s → 1 ≤ cfg.memoria.entradasPorTabla →
      cfg.memoria.cantidadNiveles < 2 ^ 31 →
      cfg.memoria.entradasPorTabla ^ cfg.memoria.cantidadNiveles < 2 ^ 31 →
      processManagerFindProcess s.processes pid = some p →
      p.processSize ≠ 0 → 0 < cfg.cacheEntries → EmptyMmu cfg mmu →
      (∀ a ∈ as, OwnPage cfg (cfg.memoria.pagesNeeded p.processSize) a) →
      Refines cfg (pageEntries s) pid mmu s.userSpace as := by
  intro hall
  obtain ⟨tr, s, hrun, htest⟩ := Lts.exists_run_of_drive (Memoria.State.start smallConfig.memoria)
    (fun s r => (Memoria.handle smallConfig.memoria s r).map Prod.fst) [Memoria.initRequest 0 30]
    (fun _ s => (processManagerFindProcess s.processes 0).any
        (fun p : Memoria.ProcessInfo => decide (p.processSize = 30)) &&
      (runProgram smallConfig (pageEntries s) 0 4 gapProgram (mmuInit smallConfig fun _ => clearEntry)
        s.userSpace).any (fun x : Mmu × Bytes =>
          (mmuProcessCleanup smallConfig (pageEntries s) x.1 x.2).any
            fun y : Mmu × Bytes => decide (y.2 1 = 0)) &&
      (runProgram smallConfig.uncached (pageEntries s) 0 4 gapProgram ⟨⟨[], 0, 0⟩, ⟨[], 0⟩⟩
        s.userSpace).any (fun x : Mmu × Bytes => decide (x.2 1 = 120))) (by decide +kernel)
  simp only [Bool.and_eq_true, Option.any_eq_true, decide_eq_true_eq] at htest
  obtain ⟨⟨⟨p, hfind, hsize⟩, x, hx, y, hy, hzero⟩, z, hz, hbyte⟩ := htest
  have hin : ∀ a ∈ gapProgram, OwnPage smallConfig (smallConfig.memoria.pagesNeeded p.processSize) a := by
    rw [hsize]
    unfold gapProgram OwnPage InPage
    decide +kernel
  obtain ⟨mmu1, mem1, mmu2, final, ⟨fuel, hrun1⟩, hclean, mmu3, fuel', hrun0⟩ :=
    hall smallConfig tr s 0 p (mmuInit smallConfig fun _ => clearEntry) gapProgram hrun (by decide)
      (by decide) (by decide) hfind (by rw [hsize]; decide) (by decide) (emptyMmu_mmuInit (by decide) _) hin
  obtain rfl := runProgram_unique 4 hx hrun1
  obtain rfl := Option.some.inj (hy.symm.trans hclean)
  obtain rfl := runProgram_unique 4 hz hrun0
  rw [hzero] at hbyte
  exact absurd hbyte (by decide)

end Tpso.Cpu
