/-
# Addresses outside the process

Nothing on the way of an address checks that it belongs to the process.  The page walk reduces the page
number modulo the entries of a table at every level, so a page `E ^ L` behind a mapped one is mapped as
well; division rounds towards zero, so the addresses just below 0 are on page 0; and the frame -1 of an
unmapped page is multiplied into a negative physical address, which memoria refuses only as long as the
range also ENDS below 0.

* `walk_of_nonneg`, `walk_of_neg`: what the walk gives for any page number at all;
* `rejected_iff`: exactly when an access outside the process is rejected;
* `not_rejected`: an address far behind the end that is not.
-/
import Tpso.Cpu.Direct
import Tpso.Memoria.PageEntry

namespace Tpso.Cpu

open Tpso.Lib
open Tpso.Memoria (PageTable FramesIn pageEntries pageEntryValue findTableById processManagerFindProcess
  tableCount toInt32 toInt32_eq writeToUserSpace exceedsUserSpace invalidFrameNumber doubleToInt)

/-! ## 1. The walk of any page number -/

section Walk

variable {cfg : Config} {root : PageTable}

/-- Only the page number modulo the entries of the tree matters. -/
theorem followPage_mod (e : Nat) : ∀ (r : Nat) (t : PageTable) (page : Nat),
    PageTable.followPage e r t (page % e ^ (r + 1)) = PageTable.followPage e r t page := by
  intro r
  induction r with
  | zero =>
    intro t page
    cases t with
    | lastLevel id fs => simp [PageTable.followPage]
    | inner id ts => simp [PageTable.followPage]
  | succ r ih =>
    intro t page
    cases t with
    | lastLevel id fs => simp [PageTable.followPage]
    | inner id ts =>
      have hindex : (page % e ^ (r + 1 + 1) / e ^ (r + 1)) % e = (page / e ^ (r + 1)) % e := by
        rw [pow_succ e (r + 1), Nat.mod_mul_right_div_self, Nat.mod_mod]
      have hdvd : e ^ (r + 1) ∣ e ^ (r + 1 + 1) := Dvd.intro _ (pow_succ e (r + 1)).symm
      simp only [PageTable.followPage, hindex]
      cases ts[(page / e ^ (r + 1)) % e]? with
      | none => rfl
      | some t' =>
        simp only
        rw [← ih t' (page % e ^ (r + 1 + 1)), Nat.mod_mod_of_dvd _ hdvd, ih]

/-- Once the walk has met -1 it stays there: no table has that id. -/
theorem pageWalkLoop_invalid {entry : Int → Int → Option Int} {page : Int}
    (hentry : ∀ i, entry invalidFrameNumber i = some invalidFrameNumber) :
    ∀ r : Nat, pageWalkLoop cfg entry page r invalidFrameNumber = some invalidFrameNumber
  | 0 => rfl
  | r + 1 => by
    rw [pageWalkLoop, hentry, Option.bind_some, if_neg (by decide)]
    exact pageWalkLoop_invalid hentry r

/-- A table with a positive id is never found under -1. -/
theorem pageEntryValue_invalid (hnd : (root.subtables.map PageTable.tableId).Nodup)
    (hpos : ∀ t ∈ root.subtables, 0 < t.tableId) (i : Int) :
    pageEntryValue root invalidFrameNumber i = invalidFrameNumber := by
  unfold pageEntryValue
  split
  · rfl
  · rename_i t hfind
    obtain ⟨hmem, hid⟩ := (PageTable.findTableById_eq_some_iff hnd).mp hfind
    have := hpos t hmem
    rw [hid] at this
    exact absurd this (by decide)

/-- A negative index is never inside a table. -/
theorem pageEntryValue_neg {id i : Int} (hi : i < 0) :
    pageEntryValue root id i = invalidFrameNumber := by
  unfold pageEntryValue
  split
  · rfl
  · rw [if_pos hi]

/-- The index that the CPU computes for a negative page number: the digit with its sign. -/
theorem entryIndex_neg {power : Nat} (k : Nat)
    (hpow : cfg.memoria.entradasPorTabla ^ power < 2 ^ 31) :
    (Int.tdiv (-(k : Int)) (doubleToInt (cfg.memoria.entradasPorTabla ^ power))).tmod
        cfg.memoria.entradasPorTabla =
      -((k / cfg.memoria.entradasPorTabla ^ power % cfg.memoria.entradasPorTabla : Nat) : Int) := by
  rw [Int.neg_tdiv, Int.neg_tmod, entryIndex_eq k hpow]

/-- **The walk of a negative page number.**  It goes to page 0 when all digits of the number are 0, and
is refused at the first one that is not.  The induction is on the levels that are left. -/
theorem pageWalkLoop_neg {entry : Int → Int → Option Int}
    (hentry : ∀ id i, entry id i = some (pageEntryValue root id i))
    (hnd : (root.subtables.map PageTable.tableId).Nodup)
    (hpos : ∀ t ∈ root.subtables, 0 < t.tableId) (he : 1 ≤ cfg.memoria.entradasPorTabla) (k : Nat) :
    ∀ (r : Nat) (t : PageTable) (path : List Nat), root.tableAt path = some t →
      PageTable.Complete cfg.memoria.entradasPorTabla r t →
      cfg.memoria.entradasPorTabla ^ r < 2 ^ 31 →
      pageWalkLoop cfg entry (-(k : Int)) (r + 1) t.tableId =
        if k % cfg.memoria.entradasPorTabla ^ (r + 1) = 0 then
          PageTable.followPage cfg.memoria.entradasPorTabla r t 0
        else some invalidFrameNumber := by
  have hids : ∀ t ∈ root.subtables, t.tableId ≠ 0 := fun t ht => (hpos t ht).ne'
  have hstay := @pageWalkLoop_invalid cfg entry (-(k : Int)) fun i =>
    (hentry invalidFrameNumber i).trans (congrArg some (pageEntryValue_invalid hnd hpos i))
  intro r
  induction r with
  | zero =>
    intro t path hpath hc hpow
    have hindex := entryIndex_neg k hpow
    rw [pow_zero, Nat.div_one] at hindex
    rw [Nat.zero_add, pow_one]
    by_cases hk : k % cfg.memoria.entradasPorTabla = 0
    · have hzero := pageWalkLoop_eq hentry hnd hids he 0 0 t path hpath hc hpow
      rw [if_pos hk, ← hzero]
      simp only [pageWalkLoop, pow_zero, hindex, hk, Nat.cast_zero, neg_zero, Int.zero_tdiv,
        Int.zero_tmod]
    · rw [if_neg hk, pageWalkLoop]
      simp only [pow_zero, hindex, hentry]
      rw [pageEntryValue_neg (by omega), Option.bind_some, if_neg (by decide)]
      rfl
  | succ r ih =>
    intro t path hpath hc hpow
    have hindex := entryIndex_neg k hpow
    have hsplit := @Nat.mod_pow_succ k cfg.memoria.entradasPorTabla (r + 1)
    by_cases hdigit : k / cfg.memoria.entradasPorTabla ^ (r + 1) % cfg.memoria.entradasPorTabla = 0
    · cases t with
      | lastLevel id fs => simp [PageTable.Complete] at hc
      | inner id ts =>
        obtain ⟨hlen, hall⟩ := hc
        obtain ⟨t', ht'⟩ : ∃ t', ts[0]? = some t' := ⟨_, List.getElem?_eq_getElem (by omega)⟩
        have hpath' := (PageTable.tableAt_append_singleton hpath).trans ht'
        have hvalue := pageEntryValue_eq hnd (PageTable.mem_subtables_of_tableAt hpath) (i := 0)
          (v := t'.tableId) (by simp [PageTable.entryValue, ht'])
        have hne := hids t' (PageTable.mem_subtables_of_tableAt hpath')
        have hle : cfg.memoria.entradasPorTabla ^ r ≤ cfg.memoria.entradasPorTabla ^ (r + 1) :=
          Nat.pow_le_pow_right he (Nat.le_succ r)
        have hdown := ih t' _ hpath' (hall t' (List.mem_of_getElem? ht')) (by omega)
        rw [hdigit, Nat.cast_zero, neg_zero] at hindex
        rw [hdigit, Nat.mul_zero] at hsplit
        rw [pageWalkLoop]
        simp only [hindex, hentry]
        rw [Nat.cast_zero] at hvalue
        simp only [hvalue, Option.bind_some, if_neg hne, hdown, hsplit, Nat.add_zero,
          PageTable.followPage, Nat.zero_div, Nat.zero_mod, ht']
    · have hnonzero : ¬ k % cfg.memoria.entradasPorTabla ^ (r + 1 + 1) = 0 := by
        rw [hsplit]
        have hdigits := Nat.mul_pos (Nat.pow_pos (n := r + 1) he) (Nat.pos_of_ne_zero hdigit)
        exact (Nat.add_pos_right _ hdigits).ne'
      have hneg := Int.neg_neg_of_pos (Int.natCast_pos.mpr (Nat.pos_of_ne_zero hdigit))
      rw [if_neg hnonzero, pageWalkLoop]
      simp only [hindex, hentry]
      rw [pageEntryValue_neg hneg, Option.bind_some, if_neg (by decide)]
      exact hstay (r + 1)

end Walk

/-! ## 2. The process and its pages -/

/-- The record of a process and the frames of its pages.  A process of size 0 has neither pages nor a
page table. -/
structure Paged (cfg : Config) (s : Memoria.State) (pid : Int) (p : Memoria.ProcessInfo)
    (fs : List Nat) : Prop where
  found : processManagerFindProcess s.processes pid = some p
  sized : p.processSize ≠ 0 → fs ≠ [] ∧ ∃ t, p.pageTable = .obj t ∧ FramesIn cfg.memoria fs t
  unsized : p.processSize = 0 → fs = [] ∧ ∀ t, p.pageTable ≠ .obj t
  lt : ∀ f ∈ fs, f < cfg.memoria.framesTotal
  fit : fs.length ≤ cfg.memoria.entradasPorTabla ^ cfg.memoria.cantidadNiveles
  entries : 1 ≤ cfg.memoria.entradasPorTabla
  tables : tableCount cfg.memoria.entradasPorTabla cfg.memoria.cantidadNiveles < 2 ^ 31

/-- The page number that an address ends up at: the reduced one, without its sign. -/
def reducedPage (cfg : Config) (logicDir : Int) : Nat :=
  (pageOf cfg logicDir).natAbs % cfg.memoria.entradasPorTabla ^ cfg.memoria.cantidadNiveles

/-- The walk does not end at a page of the process: a page number that is not negative is reduced to one
behind the last page, a negative one is not reduced to 0. -/
def Unaliased (cfg : Config) (fs : List Nat) (logicDir : Int) : Prop :=
  if 0 ≤ logicDir then fs.length ≤ reducedPage cfg logicDir else reducedPage cfg logicDir ≠ 0

instance (cfg : Config) (fs : List Nat) (logicDir : Int) : Decidable (Unaliased cfg fs logicDir) := by
  unfold Unaliased
  infer_instance

/-- The walk says that there is no such page, and the WRITE leaves the user space alone. -/
structure Rejected (cfg : Config) (s : Memoria.State) (pid : Int) (mmu : Mmu) (logicDir : Int)
    (value : List UInt8) : Prop where
  walk : mmuPerformPageWalk cfg (pageEntries s) (pageOf cfg logicDir) pid = some invalidFrameNumber
  unchanged : ∃ mmu' done, execution cfg (pageEntries s) pid mmu s.userSpace (.write logicDir value) =
    some (mmu', s.userSpace, done)

section Processes

variable {cfg : Config} {s : Memoria.State} {pid : Int} {p : Memoria.ProcessInfo} {fs : List Nat}

/-- Without a page table the walk has no defined end. -/
theorem Paged.walk_unsized (h : Paged cfg s pid p fs) (hzero : p.processSize = 0) (page : Int) :
    mmuPerformPageWalk cfg (pageEntries s) page pid = none := by
  have hnone : ∀ id i, pageEntries s pid id i = none := by
    intro id i
    unfold pageEntries Memoria.handlePageWalkRequest
    rw [h.found]
    cases htable : p.pageTable with
    | obj t => exact absurd htable ((h.unsized hzero).2 t)
    | null => simp [htable]
    | wild => simp [htable]
  rw [mmuPerformPageWalk, Memoria.cantidadNiveles_eq, pageWalkLoop, hnone, Option.bind_none]

/-- **The walk of any page number that is not negative.** -/
theorem Paged.walk_of_nonneg (h : Paged cfg s pid p fs) (hsize : p.processSize ≠ 0) (page : Nat) :
    mmuPerformPageWalk cfg (pageEntries s) page pid =
      some ((fs[page % cfg.memoria.entradasPorTabla ^ cfg.memoria.cantidadNiveles]?.map
        fun f : Nat => (f : Int)).getD invalidFrameNumber) := by
  obtain ⟨-, t, htable, ht⟩ := h.sized hsize
  obtain ⟨hone, hnd, hpos⟩ := framesIn_ids_of_count ht h.tables
  rw [mmuPerformPageWalk_eq h.found htable hone hnd (fun u hu => (hpos u hu).ne') ht.complete h.entries
    (pow_lastLevel_lt h.tables), ← followPage_mod, ← Memoria.cantidadNiveles_eq]
  cases hf : fs[page % cfg.memoria.entradasPorTabla ^ cfg.memoria.cantidadNiveles]? with
  | some f => exact ht.used _ f hf
  | none =>
    exact ht.unused _ (List.getElem?_eq_none_iff.mp hf) (Nat.mod_lt _ (Nat.pow_pos h.entries))

/-- **The walk of any negative page number.** -/
theorem Paged.walk_of_neg (h : Paged cfg s pid p fs) (hsize : p.processSize ≠ 0) (k : Nat) :
    mmuPerformPageWalk cfg (pageEntries s) (-(k : Int)) pid =
      if k % cfg.memoria.entradasPorTabla ^ cfg.memoria.cantidadNiveles = 0 then
        mmuPerformPageWalk cfg (pageEntries s) (0 : Nat) pid
      else some invalidFrameNumber := by
  obtain ⟨-, t, htable, ht⟩ := h.sized hsize
  obtain ⟨hone, hnd, hpos⟩ := framesIn_ids_of_count ht h.tables
  have hentry : ∀ id i, pageEntries s pid id i = some (pageEntryValue t id i) := by
    intro id i
    simp [pageEntries, Memoria.handlePageWalkRequest, h.found, htable]
  rw [mmuPerformPageWalk_eq h.found htable hone hnd (fun u hu => (hpos u hu).ne') ht.complete h.entries
    (pow_lastLevel_lt h.tables), mmuPerformPageWalk, Memoria.cantidadNiveles_eq, ← hone]
  exact pageWalkLoop_neg hentry hnd hpos h.entries k cfg.memoria.lastLevel t [] rfl ht.complete
    (pow_lastLevel_lt h.tables)

/-- A frame of the process is not the invalid one. -/
theorem Paged.walk_mapped (h : Paged cfg s pid p fs) (hsize : p.processSize ≠ 0) (page : Nat)
    (hlt : page % cfg.memoria.entradasPorTabla ^ cfg.memoria.cantidadNiveles < fs.length) :
    mmuPerformPageWalk cfg (pageEntries s) page pid ≠ some invalidFrameNumber := by
  rw [h.walk_of_nonneg hsize, List.getElem?_eq_getElem hlt]
  simp only [Option.map_some, Option.getD_some, invalidFrameNumber, ne_eq, Option.some.injEq]
  omega

/-- **What the walk of an address gives**: INVALID_FRAME_NUMBER exactly when the address is not
aliased. -/
theorem Paged.walk_invalid_iff (h : Paged cfg s pid p fs) (hsize : p.processSize ≠ 0) (logicDir : Int) :
    mmuPerformPageWalk cfg (pageEntries s) (pageOf cfg logicDir) pid = some invalidFrameNumber ↔
      Unaliased cfg fs logicDir := by
  have hps : (0 : Int) < cfg.pageSize := by exact_mod_cast pageSize_pos cfg
  have hfs : 0 < fs.length := List.length_pos_iff.mpr (h.sized hsize).1
  unfold Unaliased reducedPage
  by_cases hneg : 0 ≤ logicDir
  · have hpage : pageOf cfg logicDir = ((pageOf cfg logicDir).natAbs : Int) :=
      (Int.natAbs_of_nonneg (Int.tdiv_nonneg hneg hps.le)).symm
    rw [if_pos hneg, hpage, Int.natAbs_natCast]
    constructor
    · intro hwalk
      by_contra hlt
      exact h.walk_mapped hsize _ (not_le.mp hlt) hwalk
    · intro hle
      rw [h.walk_of_nonneg hsize, List.getElem?_eq_none hle]
      rfl
  · have hnp : 0 ≤ -pageOf cfg logicDir := by
      unfold pageOf
      rw [← Int.neg_tdiv]
      exact Int.tdiv_nonneg (by omega) hps.le
    have hpage : pageOf cfg logicDir = -((pageOf cfg logicDir).natAbs : Int) := by omega
    rw [if_neg hneg, hpage, h.walk_of_neg hsize, Int.natAbs_neg, Int.natAbs_natCast]
    constructor
    · intro hwalk hzero
      rw [if_pos hzero] at hwalk
      exact h.walk_mapped hsize 0 (by rwa [Nat.zero_mod]) hwalk
    · intro hne
      rw [if_neg hne]

/-! ## 3. The WRITE -/

/-- A write behind the invalid frame: the range starts below 0, and it is refused when it ends there
too, or when the string is too long.  Otherwise the copy starts before the user space. -/
theorem writeToUserSpace_invalid {mem : Bytes} {offset : Int} {value : List UInt8}
    (hpage : cfg.pageSize ≤ cfg.memoria.tamMemoria) (hlo : -2 ^ 31 ≤ -(cfg.pageSize : Int) + offset)
    (hhi : offset < cfg.pageSize) :
    writeToUserSpace cfg.memoria mem (physicalAddress cfg invalidFrameNumber offset) value =
      if cfg.pageSize < value.length ∨ offset + value.length < cfg.pageSize then some mem else none := by
  have hlt := cfg.memoria.tamMemoria_lt
  have hdir : physicalAddress cfg invalidFrameNumber offset = -(cfg.pageSize : Int) + offset := by
    unfold physicalAddress toInt32 invalidFrameNumber
    rw [Int.bmod_eq_of_le] <;> omega
  have hpageSize : cfg.memoria.tamPagina = cfg.pageSize := rfl
  rw [hdir, writeToUserSpace, hpageSize]
  by_cases hlong : cfg.pageSize < value.length
  · have : (cfg.pageSize : Int) < value.length := by exact_mod_cast hlong
    rw [if_pos this, if_pos (Or.inl hlong)]
  · have hshort : ¬ (cfg.pageSize : Int) < value.length := by exact_mod_cast hlong
    have hguard : exceedsUserSpace cfg.memoria (-(cfg.pageSize : Int) + offset) value.length =
        decide (offset + value.length < cfg.pageSize) := by
      unfold exceedsUserSpace toInt32
      rw [Int.bmod_eq_of_le (by omega) (by omega)]
      apply decide_eq_decide.mpr
      omega
    rw [if_neg hshort, hguard]
    by_cases hends : offset + value.length < cfg.pageSize
    · simp [hends]
    · have hbefore : -(cfg.pageSize : Int) + offset < 0 := by omega
      rw [if_neg (by simpa using hends), if_pos hbefore, if_neg (not_or.mpr ⟨hlong, hends⟩)]

/-- The offset of an address below page 0 leaves the physical address an int. -/
theorem offset_lo {logicDir : Int} (hlo : -2 ^ 31 ≤ logicDir)
    (hlt : (cfg.pageSize : Int) < 2 ^ 31) (hpage : logicDir < 0 → pageOf cfg logicDir ≠ 0) :
    -2 ^ 31 ≤ -(cfg.pageSize : Int) + offsetOf cfg logicDir := by
  have hps : (0 : Int) < cfg.pageSize := by exact_mod_cast pageSize_pos cfg
  have hsum := Int.mul_tdiv_add_tmod logicDir cfg.pageSize
  unfold offsetOf
  rcases lt_or_ge logicDir 0 with hneg | hpos
  · have hne := hpage hneg
    unfold pageOf at hne
    have hle : logicDir.tdiv cfg.pageSize ≤ -1 := by
      have hnn : 0 ≤ (-logicDir).tdiv cfg.pageSize := Int.tdiv_nonneg (by omega) hps.le
      rw [Int.neg_tdiv] at hnn
      omega
    have hmul := Int.mul_le_mul_of_nonneg_left hle hps.le
    omega
  · have := Int.tmod_nonneg (cfg.pageSize : Int) hpos
    omega

/-- **Exactly when an access is rejected.**  For every shape of the tables, every process, every address,
inside its pages or outside, and every string, with a TLB or without one: the walk gives
INVALID_FRAME_NUMBER and a WRITE without cache leaves the user space alone if and only if the process
has pages at all, the address is not reduced to one of them, and the string either ends before the end
of the page or is longer than a page. -/
theorem rejected_iff (h : Paged cfg s pid p fs) (hcache : cfg.cacheEntries = 0) {mmu : Mmu}
    (htlb : TlbOk cfg (pageEntries s) mmu.tlb) {logicDir : Int} {value : List UInt8}
    (hlo : -2 ^ 31 ≤ logicDir) :
    Rejected cfg s pid mmu logicDir value ↔
      p.processSize ≠ 0 ∧ Unaliased cfg fs logicDir ∧
        (cfg.pageSize < value.length ∨ offsetOf cfg logicDir + value.length < cfg.pageSize) := by
  have hps : (0 : Int) < cfg.pageSize := by exact_mod_cast pageSize_pos cfg
  by_cases hsize : p.processSize = 0
  · refine ⟨fun hr => ?_, fun hr => absurd hsize hr.1⟩
    have hwalk := hr.walk
    rw [h.walk_unsized hsize] at hwalk
    exact absurd hwalk (by simp)
  by_cases hun : Unaliased cfg fs logicDir
  · have hwalk := (h.walk_invalid_iff hsize logicDir).mpr hun
    -- a frame of the process shows that a page fits into the user space
    obtain ⟨f, hf⟩ := List.exists_mem_of_ne_nil fs (h.sized hsize).1
    have hend := frame_end_le (h.lt f hf)
    have hlt := cfg.memoria.tamMemoria_lt
    have hpage : logicDir < 0 → pageOf cfg logicDir ≠ 0 := by
      intro hneg hzero
      unfold Unaliased reducedPage at hun
      rw [if_neg (by omega), hzero, Int.natAbs_zero, Nat.zero_mod] at hun
      exact hun rfl
    obtain ⟨tlb', htrans, -⟩ := translate_eq htlb hwalk
    have hexec : execution cfg (pageEntries s) pid mmu s.userSpace (.write logicDir value) =
        if cfg.pageSize < value.length ∨ offsetOf cfg logicDir + value.length < cfg.pageSize then
          some ({ mmu with tlb := tlb' }, s.userSpace, true) else none := by
      simp only [execution, hcache, lt_irrefl, if_false, writeDirect, htrans, Option.bind_some]
      rw [writeToUserSpace_invalid (by omega) (offset_lo hlo (by omega) hpage)
        (Int.tmod_lt_of_pos _ hps)]
      split <;> rfl
    constructor
    · rintro ⟨-, mmu', done, hunchanged⟩
      refine ⟨hsize, hun, ?_⟩
      by_contra hbad
      rw [hexec, if_neg hbad] at hunchanged
      exact absurd hunchanged (by simp)
    · rintro ⟨-, -, hstring⟩
      exact ⟨hwalk, _, true, by rw [hexec, if_pos hstring]⟩
  · exact ⟨fun hr => absurd ((h.walk_invalid_iff hsize logicDir).mp hr.walk) hun,
      fun hr => absurd hr.2.1 hun⟩

end Processes

/-! ## 4. Processes of a run -/

/-- Frames that a tree holds one for each page are no more than its entries. -/
theorem length_le_of_framesIn {cfg : Config} {fs : List Nat} {t : PageTable}
    (ht : FramesIn cfg.memoria fs t) (hnd : fs.Nodup) (he : 1 ≤ cfg.memoria.entradasPorTabla) :
    fs.length ≤ cfg.memoria.entradasPorTabla ^ cfg.memoria.cantidadNiveles := by
  by_contra hlong
  rw [not_le] at hlong
  have hpos : 0 < cfg.memoria.entradasPorTabla ^ cfg.memoria.cantidadNiveles := Nat.pow_pos he
  -- the page behind the last entry has the frame of page 0
  have hlast := ht.used _ _ (List.getElem?_eq_getElem hlong)
  have hfirst := ht.used _ _ (List.getElem?_eq_getElem (Nat.lt_of_le_of_lt (Nat.zero_le _) hlong))
  rw [← followPage_mod, ← Memoria.cantidadNiveles_eq, Nat.mod_self, hfirst, Option.some.injEq,
    Nat.cast_inj, hnd.getElem_inj_iff] at hlast
  omega

/-- **In a run of memoria** every process has its pages in this sense. -/
theorem paged_of_run {cfg : Config} {tr : List (Transition Memoria.State Memoria.Request)}
    {s : Memoria.State} {pid : Int} {p : Memoria.ProcessInfo}
    (he : 1 ≤ cfg.memoria.entradasPorTabla) (hlevels : cfg.memoria.cantidadNiveles < 2 ^ 31)
    (hpow : cfg.memoria.entradasPorTabla ^ cfg.memoria.cantidadNiveles < 2 ^ 31)
    (hr : (Memoria.memoria cfg.memoria).Run tr s)
    (hfind : processManagerFindProcess s.processes pid = some p) :
    ∃ fs, Paged cfg s pid p fs ∧
      (p.processSize ≠ 0 → (fs.length : Int) = cfg.memoria.pagesNeeded p.processSize) := by
  have hp := Memoria.mem_of_find hfind
  have htables := Memoria.tableCount_lt he hlevels hpow
  by_cases hsize : p.processSize = 0
  · have hnone : ∀ t, p.pageTable ≠ .obj t := by
      intro t ht
      exact (Memoria.tabledBySize_memoria hr p hp).mpr ⟨t, ht⟩ hsize
    exact ⟨[], ⟨hfind, fun h => absurd hsize h, fun _ => ⟨rfl, hnone⟩, by simp, by simp, he, htables⟩,
      fun h => absurd hsize h⟩
  · obtain ⟨t, fs, ht⟩ := (Memoria.tabled_run he hpow hr).tabled p hp hsize
    have hpos := cfg.memoria.pagesNeeded_pos ((Memoria.shaped_run hr).sized p hp hsize).1
    have hne : fs ≠ [] := by
      rintro rfl
      have hlen := ht.length
      rw [List.length_nil] at hlen
      omega
    exact ⟨fs, ⟨hfind, fun _ => ⟨hne, t, ht.table, ht.frames⟩, fun h => absurd h hsize, ht.lt,
      length_le_of_framesIn ht.frames ht.nodup he, he, htables⟩, fun _ => ht.length⟩

/-- A memoria with one process of one page. -/
theorem one_page_run :
    ∃ tr s p fs, (Memoria.memoria Memoria.smallConfig).Run tr s ∧ Paged bareConfig s 0 p fs ∧
      p.processSize = 16 ∧ fs.length = 1 := by
  obtain ⟨tr, s, hrun, htest⟩ := Lts.exists_run_of_drive (Memoria.State.start Memoria.smallConfig)
    (fun s r => (Memoria.handle Memoria.smallConfig s r).map Prod.fst) [Memoria.initRequest 0 16]
    (fun _ s => (processManagerFindProcess s.processes 0).any fun p : Memoria.ProcessInfo =>
      decide (p.processSize = 16)) (by decide +kernel)
  cases hfind : processManagerFindProcess s.processes 0 with
  | none => simp [hfind] at htest
  | some p =>
    have hsize : p.processSize = 16 := by simpa [hfind] using htest
    obtain ⟨fs, hpaged, hlen⟩ := @paged_of_run bareConfig tr s 0 p (by decide) (by decide) (by decide)
      hrun hfind
    have hpages := hlen (by omega)
    rw [hsize, show bareConfig.memoria.pagesNeeded 16 = 1 by decide] at hpages
    exact ⟨tr, s, p, fs, hrun, hpaged, hsize, by omega⟩

theorem tlbOk_bareMmu (pe : PageEntries) : TlbOk bareConfig pe bareMmu.tlb := by
  simp [TlbOk, bareMmu]

/-- The theorem at work on the first address behind a process of one page. -/
theorem rejected_iff_behind :
    ∃ tr s, (Memoria.memoria Memoria.smallConfig).Run tr s ∧
      Rejected bareConfig s 0 bareMmu 16 [104] := by
  obtain ⟨tr, s, p, fs, hrun, hpaged, hsize, hlen⟩ := one_page_run
  refine ⟨tr, s, hrun, (rejected_iff hpaged rfl (tlbOk_bareMmu _) (by decide)).mpr
    ⟨by omega, ?_, by decide⟩⟩
  rw [Unaliased, if_pos (by decide), hlen]
  decide

/-- **An address far behind the end comes back.**  With two levels of two entries, address 64 of a
process of one page of 16 bytes is on page 4, which the walk takes for page 0. -/
theorem not_rejected :
    ¬ ∀ (cfg : Config) (tr : List (Transition Memoria.State Memoria.Request)) (s : Memoria.State)
        (pid : Int) (p : Memoria.ProcessInfo) (fs : List Nat) (mmu : Mmu) (logicDir : Int)
        (value : List UInt8), (Memoria.memoria cfg.memoria).Run tr s → Paged cfg s pid p fs →
      cfg.cacheEntries = 0 → TlbOk cfg (pageEntries s) mmu.tlb → -2 ^ 31 ≤ logicDir →
      logicDir < 2 ^ 31 → (logicDir < 0 ∨ (fs.length * cfg.pageSize : Nat) ≤ logicDir) →
      Rejected cfg s pid mmu logicDir value := by
  intro hall
  obtain ⟨tr, s, p, fs, hrun, hpaged, hsize, hlen⟩ := one_page_run
  have hout : ((fs.length * bareConfig.pageSize : Nat) : Int) ≤ 64 := by
    rw [hlen]
    decide
  have hrejected := hall bareConfig tr s 0 p fs bareMmu 64 [104] hrun hpaged rfl (tlbOk_bareMmu _)
    (by decide) (by decide) (.inr hout)
  have hun := (hpaged.walk_invalid_iff (by omega) 64).mp hrejected.walk
  rw [Unaliased, if_pos (by decide), hlen] at hun
  exact absurd hun (by decide)

end Tpso.Cpu
