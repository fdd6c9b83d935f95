/-
# One CPU among others

Several CPUs share the user space of memoria, each with a TLB and a cache of its own.  What a READ or
WRITE does (`Tpso.Cpu.Outcome`) and what the clean-up of an entry does is said here for a CPU that gets its
answers from memoria as it is now: memoria need only answer what its MMU was built on for the processes
that matter, the one that accesses and those whose modified entries may be written back
(`execution_congr`, `cleanEntry_congr`).

The user space that is meant, the one overlaid with what all the caches keep back, changes by an access at
the bytes written, and besides at most where a WRITE extends the modified region of an entry over bytes that
lie between (`Outcome.overlaid_gap`); it does not change by a clean-up.
-/
import Tpso.Cpu.Refinement
import Tpso.Cpu.Transparency
import Tpso.Cpu.Turn

namespace Tpso.Cpu

open Tpso.Lib
open Tpso.Memoria (pageEntries processManagerFindProcess)

/-! ## 1. Which answers matter -/

section Answers

variable {cfg : Config} {pe pe' : PageEntries} {mmu : Mmu} {mem : Bytes} {pid : Int}

/-- The answers are the same for the processes with a modified entry. -/
def SameForDirty (pe pe' : PageEntries) (c : Cache) : Prop :=
  ∀ e ∈ c.entries, e.isValid = true → e.modifiedBit = true → pe' e.pid = pe e.pid

theorem translate_congr (h : pe' pid = pe pid) (tlb : Tlb) (logicDir : Int) :
    translate cfg pe' pid tlb logicDir = translate cfg pe pid tlb logicDir := by
  unfold translate mmuTranslateAddress
  rw [frameOf_congr h, mmuPerformPageWalk_congr h]

theorem victimAddress_congr {victim : CacheEntry} (h : pe' victim.pid = pe victim.pid) (tlb : Tlb) :
    victimAddress cfg pe' tlb victim = victimAddress cfg pe tlb victim := by
  unfold victimAddress mmuTranslateAddressWithPageNumber
  rw [frameOf_congr h, mmuPerformPageWalk_congr h]

/-- `select_victim_entry` asks for the page of a modified entry at most. -/
theorem selectVictimEntry_congr (mem : Bytes) (hn : 0 < cfg.cacheEntries)
    (hlen : mmu.cache.entries.length = cfg.cacheEntries) (hptr : mmu.cache.clockPointer < cfg.cacheEntries)
    (hdirty : SameForDirty pe pe' mmu.cache) :
    selectVictimEntry cfg pe' mmu mem = selectVictimEntry cfg pe mmu mem := by
  obtain ⟨c', i, hfind, hfound⟩ := findVictim_found hn hlen hptr
  unfold selectVictimEntry
  rw [hfind, Option.bind_some, Option.bind_some]
  cases hvictim : c'.entries[i]? with
  | none => rfl
  | some victim =>
    simp only [Option.bind_some]
    split
    · rename_i hcond
      obtain ⟨hvalid, hmod⟩ := Bool.and_eq_true_iff.mp hcond
      obtain ⟨e, he, hsame⟩ := hfound.same.getElem? hvictim
      obtain ⟨hv, hm, hpid, -, -⟩ := fields_eq hsame
      have hpe := hdirty e (List.mem_of_getElem? he) (hv ▸ hvalid) (hm ▸ hmod)
      rw [victimAddress_congr (hpid ▸ hpe)]
    · rfl

/-- **An access asks for pages of its process, and for the pages of modified entries.** -/
theorem execution_congr (mem : Bytes) (a : Access) (hn : 0 < cfg.cacheEntries)
    (hlen : mmu.cache.entries.length = cfg.cacheEntries) (hptr : mmu.cache.clockPointer < cfg.cacheEntries)
    (hpid : pe' pid = pe pid) (hdirty : SameForDirty pe pe' mmu.cache) :
    execution cfg pe' pid mmu mem a = execution cfg pe pid mmu mem a := by
  have hmiss : ∀ {c : Cache} {page : Int}, cacheFindEntry mmu.cache page = (c, none) →
      selectVictimEntry cfg pe' { mmu with cache := c } mem =
        selectVictimEntry cfg pe { mmu with cache := c } mem := by
    intro c page hfind
    rcases cacheFindEntry_cases mmu.cache page with ⟨c1, i, e, hhit, -⟩ | ⟨hnone, -⟩
    · rw [hfind] at hhit
      exact absurd (Prod.mk.inj hhit).2 (by simp)
    · obtain rfl : c = mmu.cache := (Prod.mk.inj (hfind.symm.trans hnone)).1
      exact selectVictimEntry_congr mem hn hlen hptr hdirty
  cases a with
  | read logicDir size =>
    simp only [execution, if_pos hn, readCached]
    split
    · rfl
    · rename_i c hfind
      rw [hmiss hfind]
      simp only [cacheLoadPage, translate_congr hpid]
  | write logicDir value =>
    simp only [execution, if_pos hn, writeCached]
    split
    · rfl
    · rename_i c hfind
      rw [hmiss hfind]

/-- The clean-up of an entry asks for its page if it is modified. -/
theorem cleanEntry_congr (mem : Bytes) (i : Nat) (hdirty : SameForDirty pe pe' mmu.cache) :
    cleanEntry cfg pe' mmu mem i = cleanEntry cfg pe mmu mem i := by
  unfold cleanEntry
  cases he : mmu.cache.entries[i]? with
  | none => rfl
  | some e =>
    simp only [Option.bind_some]
    have hsame : writebackIfDirty cfg pe' mmu.tlb mem e = writebackIfDirty cfg pe mmu.tlb mem e := by
      unfold writebackIfDirty mmuTranslateAddressWithPageNumber
      split
      · rename_i hcond
        obtain ⟨hvalid, hmod⟩ := Bool.and_eq_true_iff.mp hcond
        rw [frameOf_congr (hdirty e (List.mem_of_getElem? he) hvalid hmod)]
      · rfl
    rw [hsame]

end Answers

/-! ## 2. What a step leaves of an MMU that is right -/

section Spec

variable {cfg : Config} {pe pe' : PageEntries} {base : Int → Int → Nat} {mmu mmu' : Mmu}
  {mem mem' : Bytes} {pid : Int} {a : Access} {done : Bool}

/-- What an instruction must satisfy to be an access inside a page: of a READ the size does not matter, as
the page is loaded whole. -/
def Access.InsidePage (cfg : Config) : Access → Prop
  | .read logicDir _ => 0 ≤ logicDir
  | .write logicDir value => InPage cfg (.write logicDir value)

/-- A READ of nothing is inside its page. -/
theorem inPage_read {logicDir : Int} (hdir : 0 ≤ logicDir) : InPage cfg (.read logicDir 0) := by
  obtain ⟨-, o, ho, hlt⟩ := pageOf_offsetOf cfg hdir
  refine ⟨hdir, le_rfl, ?_⟩
  simp only [Access.logicDir, Access.size, ho, add_zero]
  omega

/-- An address is its page and its offset. -/
theorem toNat_eq_page {logicDir : Int} (cfg : Config) (hdir : 0 ≤ logicDir) :
    logicDir.toNat = (pageOf cfg logicDir).toNat * cfg.pageSize + (offsetOf cfg logicDir).toNat := by
  obtain ⟨n, rfl⟩ := Int.eq_ofNat_of_zero_le hdir
  have hpage : pageOf cfg n = (n / cfg.pageSize : Nat) := (Int.ofNat_tdiv n cfg.pageSize).symm
  have hoffset : offsetOf cfg n = (n % cfg.pageSize : Nat) := (Int.ofNat_tmod n cfg.pageSize).symm
  rw [hpage, hoffset, Int.toNat_natCast, Int.toNat_natCast, Int.toNat_natCast]
  exact (Nat.div_add_mod' n cfg.pageSize).symm

/-- **An access is carried out with one of the outcomes, or refused.** -/
theorem execution_spec (hn : 0 < cfg.cacheEntries) (hok : MmuOk cfg pe base mmu)
    (hpid : pe' pid = pe pid) (hdirty : SameForDirty pe pe' mmu.cache) (hin : a.InsidePage cfg)
    (hplaced : Placed cfg pe base pid (pageOf cfg a.logicDir))
    (h : execution cfg pe' pid mmu mem a = some (mmu', mem', done)) :
    MmuOk cfg pe base mmu' ∧ (done = true ∧ Outcome cfg base pid mmu.cache mem a mmu'.cache mem' ∨
      done = false ∧ SameButUse mmu.cache mmu'.cache ∧ mem' = mem) := by
  rw [execution_congr mem a hn hok.length hok.pointer hpid hdirty] at h
  cases hclear : accessClear cfg pe mmu.cache a with
  | true =>
    have hdone : ∃ mmu1 mem1, execution cfg pe pid mmu mem a = some (mmu1, mem1, true) ∧
        Outcome cfg base pid mmu.cache mem a mmu1.cache mem1 ∧ MmuOk cfg pe base mmu1 := by
      cases a with
      | read logicDir size =>
        have hread : ∃ mmu1 mem1, execution cfg pe pid mmu mem (.read logicDir 0) = some (mmu1, mem1, true) ∧
            Outcome cfg base pid mmu.cache mem (.read logicDir 0) mmu1.cache mem1 ∧ MmuOk cfg pe base mmu1 :=
          execution_outcome hn hok (inPage_read hin) hplaced hclear
        obtain ⟨mmu1, mem1, hex, hout, hok1⟩ := hread
        have hsame : execution cfg pe pid mmu mem (.read logicDir size) =
            execution cfg pe pid mmu mem (.read logicDir 0) := by
          simp only [execution, if_pos hn]
        refine ⟨mmu1, mem1, hsame.trans hex, ?_, hok1⟩
        cases hout with
        | readHit hsame => exact .readHit hsame
        | readMiss hmiss helse hflushed hget hvalid hpid hpage hmod =>
          exact .readMiss hmiss helse hflushed hget hvalid hpid hpage hmod
      | write logicDir value => exact execution_outcome hn hok hin hplaced hclear
    obtain ⟨mmu1, mem1, hex, hout, hok1⟩ := hdone
    obtain ⟨rfl, hrest⟩ := Prod.mk.inj (Option.some.inj (hex.symm.trans h))
    obtain ⟨rfl, rfl⟩ := Prod.mk.inj hrest
    exact ⟨hok1, Or.inl ⟨rfl, hout⟩⟩
  | false =>
    obtain ⟨tlb', c', i, e, hex, htlb, hsame, hptr, -⟩ := execution_refused pid mem hn hok hclear
    obtain ⟨rfl, hrest⟩ := Prod.mk.inj (Option.some.inj (hex.symm.trans h))
    obtain ⟨rfl, rfl⟩ := Prod.mk.inj hrest
    exact ⟨hok.searched htlb hsame hptr, Or.inr ⟨rfl, hsame, rfl⟩⟩

/-- **The clean-up of an entry writes its patch back, and invalidates it.** -/
theorem cleanEntry_spec {i : Nat} (hok : MmuOk cfg pe base mmu) (hdirty : SameForDirty pe pe' mmu.cache)
    (h : cleanEntry cfg pe' mmu mem i = some (mmu', mem')) :
    MmuOk cfg pe base mmu' ∧ Flushed base mmu.cache i mem mem' ∧ SameElse i mmu.cache mmu'.cache ∧
      ∃ e : CacheEntry, mmu'.cache.entries[i]? = some e ∧ e.isValid = false := by
  rw [cleanEntry_congr mem i hdirty] at h
  obtain ⟨e, he, hclean⟩ := Option.bind_eq_some_iff.mp h
  obtain ⟨⟨tlb1, mem1⟩, hback, heq⟩ := Option.map_eq_some_iff.mp hclean
  obtain ⟨rfl, rfl⟩ := Prod.mk.inj heq
  have hmem := List.mem_of_getElem? he
  obtain ⟨tlb2, mem2, hback', htlb, hinside, houtside⟩ := writebackIfDirty_spec mem hok.tlb
    (hok.placed e hmem) (hok.region e hmem)
  obtain ⟨rfl, rfl⟩ := Prod.mk.inj (Option.some.inj (hback'.symm.trans hback))
  have hlt : i < mmu.cache.entries.length := (List.getElem?_eq_some_iff.mp he).1
  have hget : (mmu.cache.entries.set i e.invalidated)[i]? = some e.invalidated := by
    simp [List.getElem?_set_self hlt]
  have helse : SameElse i mmu.cache { mmu.cache with entries := mmu.cache.entries.set i e.invalidated } :=
    sameElse_set i mmu.cache _ _
  refine ⟨?_, ?_, helse, e.invalidated, hget, rfl⟩
  · refine hok.replace htlb (by simpa using hok.length) hok.pointer helse hget ?_ ?_ ?_
    · intro hvalid
      exact absurd hvalid (by simp [CacheEntry.invalidated])
    · intro hvalid
      exact absurd hvalid (by simp [CacheEntry.invalidated])
    · intro hvalid
      exact absurd hvalid (by simp [CacheEntry.invalidated])
  · unfold Flushed
    rw [patchAt_of_getElem? base he]
    exact ⟨hinside, houtside⟩

/-- An MMU stays right when the answers and the frames stay for the processes that have pages. -/
theorem MmuOk.congr {base' : Int → Int → Nat} (hok : MmuOk cfg pe base mmu)
    (h : ∀ pid page f, mmuPerformPageWalk cfg pe page pid = some f →
      pe' pid = pe pid ∧ base' pid page = base pid page) : MmuOk cfg pe' base' mmu := by
  refine ⟨?_, hok.length, hok.pointer, ?_, hok.region, hok.distinct⟩
  · intro e he
    have hwalk := hok.tlb e he
    rw [mmuPerformPageWalk_congr (h _ _ _ hwalk).1]
    exact hwalk
  · intro e he hvalid
    obtain ⟨f, hwalk, hlt, hbase⟩ := hok.placed e he hvalid
    obtain ⟨hpe, hsame⟩ := h _ _ _ hwalk
    exact ⟨f, (mmuPerformPageWalk_congr hpe e.page).trans hwalk, hlt, hsame.trans hbase⟩

/-- The end of the clean-up. -/
theorem MmuOk.flushTlb (hok : MmuOk cfg pe base mmu) : MmuOk cfg pe base (flushTlb cfg mmu) := by
  refine ⟨?_, hok.length, hok.pointer, hok.placed, hok.region, hok.distinct⟩
  unfold Cpu.flushTlb
  split
  · exact fun e he => absurd he (by simp)
  · exact hok.tlb

end Spec

/-! ## 3. The user space that is meant -/

section Overlay

variable {cfg : Config} {pe : PageEntries} {base : Int → Int → Nat} {mmu : Mmu} {mem mem' ref : Bytes}
  {pid : Int} {a : Access} {c' : Cache}

/-- The byte lies where a WRITE extends the modified region of the entry that it hits, and is none of those
written; it becomes what the entry holds. -/
def GapByte (cfg : Config) (base : Int → Int → Nat) (pid : Int) (c : Cache) (a : Access) (x : Nat)
    (v : UInt8) : Prop :=
  ∃ logicDir value e o, a = .write logicDir value ∧ e ∈ c.entries ∧ e.isValid = true ∧
    e.modifiedBit = true ∧ e.page = pageOf cfg logicDir ∧
    inGap e (offsetOf cfg logicDir).toNat value.length o ∧ o < cfg.pageSize ∧
    x = base pid (pageOf cfg logicDir) + o ∧ v = e.content o

/-- A WRITE that hits extends the region of its entry, whatever lies between. -/
theorem overlaid_extend {ι : Type} [DecidableEq ι] {P : ι → Patch Nat UInt8} {k : ι} {i : Nat}
    {logicDir : Int} {value : List UInt8} {e : CacheEntry} (h : Overlaid mem P ref)
    (hok : MmuOk cfg pe base mmu) (he : mmu.cache.entries[i]? = some e) (hP : P k = patchAt base mmu.cache i)
    (hvalid : e.isValid = true) (hpid : e.pid = pid) (hpage : e.page = pageOf cfg logicDir)
    (hfit : (offsetOf cfg logicDir).toNat + value.length ≤ cfg.pageSize)
    (hothers : ∀ j, j ≠ k → ∀ x, (P j).dom x →
      ¬ (base e.pid e.page ≤ x ∧ x < base e.pid e.page + cfg.pageSize)) :
    ∃ ref', Overlaid mem
        (Function.update P k (patchOf base (e.store (offsetOf cfg logicDir).toNat value))) ref' ∧
      ∀ x, ref' x = directMemory cfg base pid ref (.write logicDir value) x ∨
        GapByte cfg base pid mmu.cache (.write logicDir value) x (ref' x) := by
  classical
  have hmem := List.mem_of_getElem? he
  have hPk : P k = patchOf base e := hP.trans (patchAt_of_getElem? base he)
  have hregion : e.modifiedBit = true → e.modifiedEnd ≤ cfg.pageSize := hok.region e hmem hvalid
  generalize ho : (offsetOf cfg logicDir).toNat = o at hfit
  have hdirect : directMemory cfg base pid ref (.write logicDir value) =
      ref.blit (base e.pid e.page + o) value := by
    rw [directMemory, hpid, hpage, ho]
  refine ⟨fun x => if (patchOf base (e.store o value)).dom x then (patchOf base (e.store o value)).val x
    else ref x, ?_, ?_⟩
  · refine h.replace k ?_ ?_ ?_ ?_
    · intro x hx
      rw [hPk] at hx
      exact store_dom_of_dom hx
    · intro j hj x hdom hnew
      exact hothers j hj x hdom (store_dom_inPage hfit hregion hnew)
    · intro x hx
      simp only [if_pos hx]
    · intro x hx
      simp only [if_neg hx]
  · intro x
    rw [hdirect]
    by_cases hdom : (patchOf base (e.store o value)).dom x
    · simp only [if_pos hdom]
      have hinPage := store_dom_inPage hfit hregion hdom
      by_cases hw : base e.pid e.page + o ≤ x ∧ x < base e.pid e.page + o + value.length
      · exact Or.inl (store_val_stored ref hw.1 hw.2)
      · rw [store_val_else hinPage.1 hw]
        by_cases hold : (patchOf base e).dom x
        · left
          rw [Bytes.blit_of_not_mem hw]
          have hpatch := h.patch k x (by rwa [hPk])
          rw [hPk] at hpatch
          exact hpatch
        · right
          obtain ⟨hmod, hin⟩ := store_gap hdom hold hw
          refine ⟨logicDir, value, e, x - base e.pid e.page, rfl, hmem, hvalid, hmod, hpage, ?_, by omega,
            ?_, rfl⟩
          · rw [ho]
            exact hin
          · rw [← hpid, ← hpage]
            omega
    · left
      simp only [if_neg hdom]
      refine (Bytes.blit_of_not_mem ?_).symm
      exact fun hw => hdom (store_dom_stored hvalid hw.1 hw.2)

/-- **Every access keeps the overlay of some user space**, which differs from the one before by the bytes
written, and by those of the gap that it closes. -/
theorem Outcome.overlaid_gap {ι : Type} [DecidableEq ι] {slot : Nat → ι} (hslot : Function.Injective slot)
    {P P' : ι → Patch Nat UInt8} (ho : Outcome cfg base pid mmu.cache mem a c' mem')
    (h : Overlaid mem P ref) (hok : MmuOk cfg pe base mmu) (hin : a.InsidePage cfg)
    (hP : ∀ j, P (slot j) = patchAt base mmu.cache j) (hP' : ∀ j, P' (slot j) = patchAt base c' j)
    (hrest : ∀ k, (∀ j, k ≠ slot j) → P' k = P k)
    (hown : ∀ e ∈ mmu.cache.entries, e.isValid = true → e.page = pageOf cfg a.logicDir → e.pid = pid)
    (hapart : ∀ k x, (P k).dom x → base pid (pageOf cfg a.logicDir) ≤ x →
      x < base pid (pageOf cfg a.logicDir) + cfg.pageSize →
      ∃ j e, k = slot j ∧ mmu.cache.entries[j]? = some e ∧ e.isValid = true ∧
        e.page = pageOf cfg a.logicDir) :
    ∃ ref', Overlaid mem' P' ref' ∧ ∀ x, ref' x = directMemory cfg base pid ref a x ∨
      GapByte cfg base pid mmu.cache a x (ref' x) := by
  cases ho with
  | @readHit logicDir size _ hsame =>
    have ho : Outcome cfg base pid mmu.cache mem (.read logicDir 0) c' mem := .readHit hsame
    exact ⟨ref, ho.overlaid hslot h hok (inPage_read hin) hP hP' hrest rfl hown hapart,
      fun x => Or.inl rfl⟩
  | @readMiss logicDir size _ _ i e' hmiss helse hflushed hget hvalid hpid hpage hmod =>
    have ho : Outcome cfg base pid mmu.cache mem (.read logicDir 0) c' mem' :=
      .readMiss hmiss helse hflushed hget hvalid hpid hpage hmod
    exact ⟨ref, ho.overlaid hslot h hok (inPage_read hin) hP hP' hrest rfl hown hapart,
      fun x => Or.inl rfl⟩
  | @writeHit logicDir value _ i e e' he hvalid hpage helse hget hstore =>
    have hpid : e.pid = pid := hown e (List.mem_of_getElem? he) hvalid hpage
    rw [family_eq hslot hP hP' hrest helse, patchAt_of_getElem? base hget, patchOf_congr hstore]
    refine overlaid_extend h hok he (hP i) hvalid hpid hpage hin.write_fits ?_
    rintro k hk x hx ⟨hlo, hhi⟩
    rw [hpid, hpage] at hlo hhi
    obtain ⟨j, e2, rfl, he2, hvalid2, hpage2⟩ := hapart k x hx hlo hhi
    exact hk (congrArg slot (hok.distinct j i e2 e he2 he hvalid2 hvalid (hpage2.trans hpage.symm)))
  | @writeMiss logicDir value _ _ i e' hmiss helse hflushed hget hvalid hpid hpage hmod hstart hend
      hcontent =>
    have hgap : gapClear cfg base mmu.cache mem (.write logicDir value) = true := by
      rcases cacheFindEntry_cases mmu.cache (pageOf cfg logicDir) with
        ⟨c1, j, e, hfind, he, hv, hp, -⟩ | ⟨hfind, -⟩
      · exact absurd hp (hmiss e (List.mem_of_getElem? he) hv)
      · simp only [gapClear, hfind]
    have ho : Outcome cfg base pid mmu.cache mem (.write logicDir value) c' mem' :=
      .writeMiss hmiss helse hflushed hget hvalid hpid hpage hmod hstart hend hcontent
    exact ⟨_, ho.overlaid hslot h hok hin hP hP' hrest hgap hown hapart, fun x => Or.inl rfl⟩

end Overlay

/-! ## 4. Modified entries -/

/-- The entry keeps back something: it is valid and modified. -/
def CacheEntry.Dirty (e : CacheEntry) : Prop := e.isValid = true ∧ e.modifiedBit = true

instance (e : CacheEntry) : Decidable e.Dirty := by
  unfold CacheEntry.Dirty
  infer_instance

section Dirty

variable {cfg : Config} {base base' : Int → Int → Nat} {c c' : Cache} {mem mem' : Bytes} {pid : Int} {a : Access}

/-- Only a modified entry has a patch that speaks about anything. -/
theorem patchAt_dirty {j x : Nat} (hx : (patchAt base c j).dom x) :
    ∃ e, c.entries[j]? = some e ∧ e.Dirty := by
  cases he : c.entries[j]? with
  | none => simp [patchAt, he] at hx
  | some e =>
    rw [patchAt_of_getElem? base he] at hx
    exact ⟨e, rfl, hx.1, hx.2.1⟩

/-- A patch does not depend on where the pages start that nothing is kept back of. -/
theorem patchAt_base {j : Nat}
    (h : ∀ e, c.entries[j]? = some e → e.Dirty → base' e.pid e.page = base e.pid e.page) (x : Nat) :
    ((patchAt base' c j).dom x ↔ (patchAt base c j).dom x) ∧
      ((patchAt base c j).dom x → (patchAt base' c j).val x = (patchAt base c j).val x) := by
  cases he : c.entries[j]? with
  | none => simp [patchAt, he]
  | some e =>
    rw [patchAt_of_getElem? base he, patchAt_of_getElem? base' he]
    by_cases hdirty : e.Dirty
    · have hsame := h e he hdirty
      simp only [patchOf, hsame, true_and, implies_true]
    · have hnone : ∀ b : Int → Int → Nat, ¬ (patchOf b e).dom x := fun b hx => hdirty ⟨hx.1, hx.2.1⟩
      exact ⟨iff_of_false (hnone base') (hnone base), fun hx => absurd hx (hnone base)⟩

/-- The entries other than one are modified as they were. -/
theorem SameElse.dirty {i j : Nat} {e' : CacheEntry} (h : SameElse i c c') (hj : j ≠ i)
    (he' : c'.entries[j]? = some e') (hdirty : e'.Dirty) :
    ∃ e ∈ c.entries, e.Dirty ∧ e.pid = e'.pid ∧ e.page = e'.page := by
  obtain ⟨e, he, hs⟩ := h.getElem? hj he'
  obtain ⟨hv, hm, hpid, hpage, -⟩ := fields_eq hs
  exact ⟨e, List.mem_of_getElem? he, ⟨hv ▸ hdirty.1, hm ▸ hdirty.2⟩, hpid.symm, hpage.symm⟩

theorem SameButUse.dirty {e' : CacheEntry} (h : SameButUse c c') (he' : e' ∈ c'.entries)
    (hdirty : e'.Dirty) : ∃ e ∈ c.entries, e.Dirty ∧ e.pid = e'.pid ∧ e.page = e'.page := by
  obtain ⟨j, hj⟩ := List.getElem?_of_mem he'
  exact (h.sameElse (j + 1)).dirty (Nat.ne_add_one j) hj hdirty

/-- **Which entries are modified after an access**: those that were, and the one of the page accessed. -/
theorem Outcome.dirty (ho : Outcome cfg base pid c mem a c' mem')
    (hown : ∀ e ∈ c.entries, e.isValid = true → e.page = pageOf cfg a.logicDir → e.pid = pid)
    {e' : CacheEntry} (he' : e' ∈ c'.entries) (hdirty : e'.Dirty) :
    (∃ e ∈ c.entries, e.Dirty ∧ e.pid = e'.pid ∧ e.page = e'.page) ∨
      (e'.pid = pid ∧ e'.page = pageOf cfg a.logicDir) := by
  obtain ⟨j, hj⟩ := List.getElem?_of_mem he'
  cases ho with
  | readHit hsame => exact Or.inl (hsame.dirty he' hdirty)
  | @readMiss logicDir size _ _ i e1 hmiss helse hf hget hv hpid hpage hmod =>
    by_cases hji : j = i
    · subst hji
      obtain rfl : e1 = e' := by simpa [hget] using hj
      exact absurd (hmod.symm.trans hdirty.2) (by simp)
    · exact Or.inl (helse.dirty hji hj hdirty)
  | @writeHit logicDir value _ i e e1 he hv hpage helse hget hstore =>
    by_cases hji : j = i
    · subst hji
      obtain rfl : e1 = e' := by simpa [hget] using hj
      obtain ⟨-, -, hpid, hp, -⟩ := fields_eq hstore
      exact Or.inr ⟨hpid.trans (hown e (List.mem_of_getElem? he) hv hpage), hp.trans hpage⟩
    · exact Or.inl (helse.dirty hji hj hdirty)
  | @writeMiss logicDir value _ _ i e1 hmiss helse hf hget hv hpid hpage hmod hstart hend hcontent =>
    by_cases hji : j = i
    · subst hji
      obtain rfl : e1 = e' := by simpa [hget] using hj
      exact Or.inr ⟨hpid, hpage⟩
    · exact Or.inl (helse.dirty hji hj hdirty)

end Dirty

end Tpso.Cpu
