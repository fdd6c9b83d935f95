/-
# The page walk across CPU and memoria

`mmu_perform_page_walk` computes one entry index a level by division and remainder, and asks memoria for
the entry with GET_PAGE_ENTRY, naming the table by the id that the level above returned.  memoria has
filled the tree breadth first, has numbered its tables depth first, and looks them up by id.  The three
orders agree for every depth, fan-out and number of pages (`pageWalk_framesIn`): the walk of page `i`
ends at the `i`-th frame of the process, and behind its last page at INVALID_FRAME_NUMBER.
-/
import Tpso.Cpu.Mmu
import Tpso.Memoria.PageWalk

namespace Tpso.Cpu

open Tpso.Memoria (PageTable pageEntries pageEntryValue findTableById invalidFrameNumber doubleToInt
  processManagerFindProcess FramesIn idsFrom tableCount)

variable {cfg : Config} {root : PageTable}

/-- The index that the CPU computes for a level is that of `followPage`. -/
theorem entryIndex_eq {power : Nat} (page : Nat)
    (hpow : cfg.memoria.entradasPorTabla ^ power < 2 ^ 31) :
    (Int.tdiv page (doubleToInt (cfg.memoria.entradasPorTabla ^ power))).tmod
        cfg.memoria.entradasPorTabla =
      ((page / cfg.memoria.entradasPorTabla ^ power) % cfg.memoria.entradasPorTabla : Nat) := by
  rw [doubleToInt, if_pos hpow, ← Int.ofNat_tdiv, ← Int.ofNat_tmod]

/-- memoria's answer for a table of the tree. -/
theorem pageEntryValue_eq {t : PageTable} {i : Nat} {v : Int}
    (hnd : (root.subtables.map PageTable.tableId).Nodup) (ht : t ∈ root.subtables)
    (hv : t.entryValue i = some v) : pageEntryValue root t.tableId i = v := by
  have hneg : ¬ ((i : Int) < 0) := by omega
  simp [pageEntryValue, PageTable.findTableById_eq_some hnd ht, hneg, hv]

/-- **The walk from a table of the tree down is the page followed digit by digit.**  The induction is on
the levels that are left; the path says where in the tree the walk has arrived. -/
theorem pageWalkLoop_eq {entry : Int → Int → Option Int}
    (hentry : ∀ id i, entry id i = some (pageEntryValue root id i))
    (hnd : (root.subtables.map PageTable.tableId).Nodup)
    (hids : ∀ t ∈ root.subtables, t.tableId ≠ 0) (he : 1 ≤ cfg.memoria.entradasPorTabla) (page : Nat) :
    ∀ (r : Nat) (t : PageTable) (path : List Nat), root.tableAt path = some t →
      PageTable.Complete cfg.memoria.entradasPorTabla r t →
      cfg.memoria.entradasPorTabla ^ r < 2 ^ 31 →
      pageWalkLoop cfg entry page (r + 1) t.tableId =
        PageTable.followPage cfg.memoria.entradasPorTabla r t page
  | 0, .lastLevel id fs, path, hpath, hc, hpow => by
    have hlen : fs.length = cfg.memoria.entradasPorTabla := hc
    have hlt : page % cfg.memoria.entradasPorTabla < fs.length := by
      rw [hlen]
      exact Nat.mod_lt _ he
    have hmem := PageTable.mem_subtables_of_tableAt hpath
    have hvalue := pageEntryValue_eq hnd hmem (i := page % cfg.memoria.entradasPorTabla)
      (List.getElem?_eq_getElem hlt)
    have hindex := entryIndex_eq page hpow
    rw [pow_zero, Nat.div_one] at hindex
    rw [PageTable.followPage, List.getElem?_eq_getElem hlt, pageWalkLoop]
    simp only [pow_zero, hindex, hentry, hvalue, Option.bind_some, pageWalkLoop]
    -- the frame 0 takes the branch of an error, which returns 0 as well
    split
    · rename_i hzero
      rw [hzero]
    · rfl
  | r + 1, .inner id ts, path, hpath, hc, hpow => by
    obtain ⟨hlen, hall⟩ := hc
    have hlt : (page / cfg.memoria.entradasPorTabla ^ (r + 1)) % cfg.memoria.entradasPorTabla <
        ts.length := by
      rw [hlen]
      exact Nat.mod_lt _ he
    obtain ⟨t', ht'⟩ : ∃ t', ts[(page / cfg.memoria.entradasPorTabla ^ (r + 1)) %
        cfg.memoria.entradasPorTabla]? = some t' := ⟨_, List.getElem?_eq_getElem hlt⟩
    have hpath' := (PageTable.tableAt_append_singleton hpath).trans ht'
    have hvalue := pageEntryValue_eq hnd (PageTable.mem_subtables_of_tableAt hpath)
      (i := (page / cfg.memoria.entradasPorTabla ^ (r + 1)) % cfg.memoria.entradasPorTabla)
      (v := t'.tableId) (by simp [PageTable.entryValue, ht'])
    have hne := hids t' (PageTable.mem_subtables_of_tableAt hpath')
    have hle : cfg.memoria.entradasPorTabla ^ r ≤ cfg.memoria.entradasPorTabla ^ (r + 1) :=
      Nat.pow_le_pow_right he (Nat.le_succ r)
    have ih := pageWalkLoop_eq hentry hnd hids he page r t' _ hpath' (hall t' (List.mem_of_getElem? ht'))
      (by omega)
    rw [PageTable.followPage, ht', pageWalkLoop]
    simp only [entryIndex_eq page hpow, hentry, hvalue, Option.bind_some, if_neg hne]
    exact ih
  | 0, .inner _ _, _, _, hc, _ => by simp [PageTable.Complete] at hc
  | _ + 1, .lastLevel _ _, _, _, hc, _ => by simp [PageTable.Complete] at hc

/-- The walk of a process that has a tree with distinct ids other than 0. -/
theorem mmuPerformPageWalk_eq {s : Memoria.State} {pid : Int} {p : Memoria.ProcessInfo}
    (hfind : processManagerFindProcess s.processes pid = some p) (htable : p.pageTable = .obj root)
    (hone : root.tableId = 1) (hnd : (root.subtables.map PageTable.tableId).Nodup)
    (hids : ∀ t ∈ root.subtables, t.tableId ≠ 0)
    (hc : PageTable.Complete cfg.memoria.entradasPorTabla cfg.memoria.lastLevel root)
    (he : 1 ≤ cfg.memoria.entradasPorTabla)
    (hpow : cfg.memoria.entradasPorTabla ^ cfg.memoria.lastLevel < 2 ^ 31) (page : Nat) :
    mmuPerformPageWalk cfg (pageEntries s) page pid =
      PageTable.followPage cfg.memoria.entradasPorTabla cfg.memoria.lastLevel root page := by
  have hentry : ∀ id i, pageEntries s pid id i = some (pageEntryValue root id i) := by
    intro id i
    simp [pageEntries, Memoria.handlePageWalkRequest, hfind, htable]
  rw [mmuPerformPageWalk, Memoria.cantidadNiveles_eq, ← hone]
  exact pageWalkLoop_eq hentry hnd hids he page cfg.memoria.lastLevel root [] rfl hc hpow

/-- The ids of a tree whose tables are not more than `next_table_id` can count. -/
theorem framesIn_ids_of_count {frames : List Nat} {t : PageTable} (ht : FramesIn cfg.memoria frames t)
    (hcount : tableCount cfg.memoria.entradasPorTabla cfg.memoria.cantidadNiveles < 2 ^ 31) :
    t.tableId = 1 ∧ (t.subtables.map PageTable.tableId).Nodup ∧
      ∀ u ∈ t.subtables, 0 < u.tableId := by
  obtain ⟨hnd, hpos⟩ := Memoria.nodup_idsFrom_one hcount
  refine ⟨?_, ht.ids ▸ hnd, ?_⟩
  · -- the root is the first table of the list
    have hhead : (t.subtables.map PageTable.tableId).head? = some t.tableId := by
      cases t <;> simp [PageTable.subtables]
    rw [ht.ids, idsFrom, Memoria.cantidadNiveles_eq, tableCount, Nat.add_comm, List.range_succ_eq_map] at hhead
    simp only [List.map_cons, List.head?_cons, Option.some.injEq] at hhead
    rw [← hhead]
    exact Memoria.toInt32_eq (by simp) (by simp)
  · intro u hu
    exact hpos u.tableId (ht.ids ▸ List.mem_map_of_mem hu)

/-- The ids of the tree of a new process. -/
theorem framesIn_ids {frames : List Nat} {t : PageTable} (ht : FramesIn cfg.memoria frames t)
    (he : 1 ≤ cfg.memoria.entradasPorTabla) (hlevels : cfg.memoria.cantidadNiveles < 2 ^ 31)
    (hpow : cfg.memoria.entradasPorTabla ^ cfg.memoria.cantidadNiveles < 2 ^ 31) :
    t.tableId = 1 ∧ (t.subtables.map PageTable.tableId).Nodup ∧
      ∀ u ∈ t.subtables, u.tableId ≠ 0 := by
  obtain ⟨hone, hnd, hpos⟩ := framesIn_ids_of_count ht (Memoria.tableCount_lt he hlevels hpow)
  exact ⟨hone, hnd, fun u hu => (hpos u hu).ne'⟩

/-- **The page walk is right, for every depth, fan-out and number of pages.**  `init_page_table` and
`assign_frames` on a list of frames that the tree has entries for yield a tree with distinct ids, 1 at
the root, in which `find_table_by_id` finds exactly the table of an id; and for a process with that tree
the walk of page `i` returns the `i`-th frame, and INVALID_FRAME_NUMBER behind the last one.  The
number of levels is an `int`, which says something only for tables of one entry. -/
theorem pageWalk_correct (cfg : Config) (frames : List Nat) (he : 1 ≤ cfg.memoria.entradasPorTabla)
    (hlevels : cfg.memoria.cantidadNiveles < 2 ^ 31)
    (hpow : cfg.memoria.entradasPorTabla ^ cfg.memoria.cantidadNiveles < 2 ^ 31)
    (hpos : 1 ≤ frames.length)
    (hle : frames.length ≤ cfg.memoria.entradasPorTabla ^ cfg.memoria.cantidadNiveles) :
    ∃ t, Memoria.assignFrames cfg.memoria (Memoria.initPageTable cfg.memoria 1).1 frames
        frames.length = (t, true) ∧
      t.tableId = 1 ∧ (t.subtables.map PageTable.tableId).Nodup ∧
      (∀ id u, findTableById id t = some u ↔ u ∈ t.subtables ∧ u.tableId = id) ∧
      ∀ (s : Memoria.State) (pid : Int) (p : Memoria.ProcessInfo),
        processManagerFindProcess s.processes pid = some p → p.pageTable = .obj t →
        (∀ i f : Nat, frames[i]? = some f →
          mmuPerformPageWalk cfg (pageEntries s) i pid = some (f : Int)) ∧
        ∀ i : Nat, frames.length ≤ i →
          i < cfg.memoria.entradasPorTabla ^ cfg.memoria.cantidadNiveles →
          mmuPerformPageWalk cfg (pageEntries s) i pid = some invalidFrameNumber := by
  obtain ⟨t, hassign, ht⟩ := Memoria.assignFrames_initPageTable he hpow hpos hle
  obtain ⟨hone, hnd, hids⟩ := framesIn_ids ht he hlevels hpow
  have hlast : cfg.memoria.entradasPorTabla ^ cfg.memoria.lastLevel < 2 ^ 31 := by
    have hniv := Memoria.cantidadNiveles_eq cfg.memoria
    have := Nat.pow_le_pow_right he (by omega : cfg.memoria.lastLevel ≤ cfg.memoria.cantidadNiveles)
    omega
  refine ⟨t, hassign, hone, hnd, fun id u => PageTable.findTableById_eq_some_iff hnd, ?_⟩
  intro s pid p hfind htable
  have hwalk := mmuPerformPageWalk_eq hfind htable hone hnd hids ht.complete he hlast
  refine ⟨?_, ?_⟩
  · intro i f hf
    rw [hwalk]
    exact ht.used i f hf
  · intro i hi hlt
    rw [hwalk]
    exact ht.unused i hi hlt

/-- A CPU with a cache of one page and no TLB, over a small memoria. -/
def smallConfig : Config where
  memoria := Memoria.smallConfig
  tlbEntries := 0
  tlbAlgorithm := .fifo
  cacheEntries := 1
  cacheAlgorithm := .clock

/-- memoria with one process. -/
def oneProcess (t : PageTable) (frames : List Nat) : Memoria.State :=
  { Memoria.State.start Memoria.smallConfig with
    processes := [Memoria.freshProcess 7 48 [] (.obj t) (.obj frames)] }

theorem pageWalk_correct_three_pages :
    ∃ t, Memoria.assignFrames Memoria.smallConfig (Memoria.initPageTable Memoria.smallConfig 1).1
        [2, 0, 3] 3 = (t, true) ∧ t.tableId = 1 ∧
      mmuPerformPageWalk smallConfig (pageEntries (oneProcess t [2, 0, 3])) 1 7 = some 0 ∧
      mmuPerformPageWalk smallConfig (pageEntries (oneProcess t [2, 0, 3])) 3 7 =
        some invalidFrameNumber := by
  obtain ⟨t, hassign, hone, -, -, hwalk⟩ := pageWalk_correct smallConfig [2, 0, 3] (by decide)
    (by decide) (by decide) (by decide) (by decide)
  obtain ⟨hused, hunused⟩ := hwalk (oneProcess t [2, 0, 3]) 7
    (Memoria.freshProcess 7 48 [] (.obj t) (.obj [2, 0, 3])) rfl rfl
  exact ⟨t, hassign, hone, hused 1 0 rfl, hunused 3 (by decide) (by decide)⟩

end Tpso.Cpu
