/-
# GET_PAGE_ENTRY: one level of a page walk

`handle_page_walk_request` answers for one table of a process and one of its entries: with the id of the
next table, or, at the last level, with the frame.  The table is named by its ID, and
`find_table_by_id` looks for it through the whole tree.

The ids come from one counter that runs through `_create_table` (`createTable_tableIds`: a tree of
`tableCount` tables gets that many consecutive ids, in the order in which the search passes through
them), so in a tree whose ids do not wrap around the search finds THE table of an id
(`findTableById_eq_some_iff`).
-/
import Tpso.Memoria.Steps

namespace Tpso.Memoria

/-! ## 1. `get-page-entry.c` -/

namespace PageTable

/-- `table_id`. -/
def tableId : PageTable → Int
  | .lastLevel id _ => id
  | .inner id _ => id

/-- `entry->is_last_level ? entry->frame_number : entry->next_table_id`. -/
def entryValue : PageTable → Nat → Option Int
  | .lastLevel _ fs, i => fs[i]?
  | .inner _ ts, i => (ts[i]?).map tableId

end PageTable

mutual

/-- `find_table_by_id`. -/
def findTableById (targetId : Int) : PageTable → Option PageTable
  | .lastLevel id fs => if id = targetId then some (.lastLevel id fs) else none
  | .inner id ts => if id = targetId then some (.inner id ts) else findTableAmong targetId ts

/-- The loop of `find_table_by_id` over the entries of a table. -/
def findTableAmong (targetId : Int) : List PageTable → Option PageTable
  | [] => none
  | t :: ts => (findTableById targetId t).or (findTableAmong targetId ts)

end

/-- The value that `handle_page_walk_request` finds in the tree of a process.  `num_entries` is a
`size_t`: a negative index is taken for a huge one. -/
def pageEntryValue (root : PageTable) (tableId entryIndex : Int) : Int :=
  match findTableById tableId root with
  | none => invalidFrameNumber
  | some t =>
    if entryIndex < 0 then invalidFrameNumber
    else (t.entryValue entryIndex.toNat).getD invalidFrameNumber

/-- One more access in the metrics. -/
def countAccess (p : ProcessInfo) : ProcessInfo :=
  { p with metrics := { p.metrics with pageTableAccessCount := p.metrics.pageTableAccessCount + 1 } }

/-- `handle_page_walk_request`: the state with the access counted, and the value sent back.  A process of
size 0 has no page table, and the handler follows whatever `malloc` left in its place. -/
def handlePageWalkRequest (s : State) (pid tableId entryIndex : Int) : Option (State × Int) :=
  match processManagerFindProcess s.processes pid with
  | none => some (s, invalidFrameNumber)
  | some p =>
    match p.pageTable with
    | .obj root =>
      some ({ s with processes := updateProcess countAccess pid s.processes },
        pageEntryValue root tableId entryIndex)
    | _ => none

/-- The answers of memoria in a state, for any pid, table id and entry index. -/
def pageEntries (s : State) (pid tableId entryIndex : Int) : Option Int :=
  (handlePageWalkRequest s pid tableId entryIndex).map Prod.snd

/-- What the answers for a pid depend on. -/
theorem pageEntries_congr {s s' : State} {pid : Int}
    (h : (processManagerFindProcess s'.processes pid).map (·.pageTable) =
      (processManagerFindProcess s.processes pid).map (·.pageTable)) :
    pageEntries s' pid = pageEntries s pid := by
  funext tableId entryIndex
  unfold pageEntries handlePageWalkRequest
  cases hs : processManagerFindProcess s.processes pid with
  | none =>
    cases hs' : processManagerFindProcess s'.processes pid with
    | none => rfl
    | some p' => simp [hs, hs'] at h
  | some p =>
    cases hs' : processManagerFindProcess s'.processes pid with
    | none => simp [hs, hs'] at h
    | some p' =>
      have htable : p'.pageTable = p.pageTable := by simpa [hs, hs'] using h
      simp only [htable]
      cases p.pageTable <;> rfl

/-- **An answer changes no later one**: only the metrics of the record are touched. -/
theorem pageEntries_handlePageWalkRequest {s s' : State} {pid tableId entryIndex v : Int}
    (h : handlePageWalkRequest s pid tableId entryIndex = some (s', v)) :
    pageEntries s' = pageEntries s := by
  funext q
  refine pageEntries_congr ?_
  unfold handlePageWalkRequest at h
  split at h
  · obtain ⟨rfl, -⟩ := Prod.mk.inj (Option.some.inj h)
    rfl
  · rename_i p hp
    split at h
    · obtain ⟨rfl, -⟩ := Prod.mk.inj (Option.some.inj h)
      rw [find_updateProcess (f := countAccess) (fun _ => rfl)]
      split
      · rw [Option.map_map]
        rfl
      · rfl
    · exact absurd h (by simp)

/-! ## 2. All tables of a tree -/

namespace PageTable

mutual

/-- The tables of a tree, each before those below it. -/
def subtables : PageTable → List PageTable
  | .lastLevel id fs => [.lastLevel id fs]
  | .inner id ts => .inner id ts :: subtablesOf ts

def subtablesOf : List PageTable → List PageTable
  | [] => []
  | t :: ts => subtables t ++ subtablesOf ts

end

mutual

/-- `find_table_by_id` passes through the tables in that order. -/
theorem findTableById_eq (targetId : Int) : ∀ t : PageTable,
    findTableById targetId t = t.subtables.find? fun u => decide (u.tableId = targetId)
  | .lastLevel id fs => by
    by_cases hid : id = targetId
    · simp [findTableById, subtables, tableId, hid]
    · simp [findTableById, subtables, tableId, hid]
  | .inner id ts => by
    by_cases hid : id = targetId
    · simp [findTableById, subtables, tableId, hid]
    · simp [findTableById, subtables, tableId, hid, findTableAmong_eq targetId ts]

theorem findTableAmong_eq (targetId : Int) : ∀ ts : List PageTable,
    findTableAmong targetId ts = (subtablesOf ts).find? fun u => decide (u.tableId = targetId)
  | [] => by simp [findTableAmong, subtablesOf]
  | t :: ts => by
    rw [findTableAmong, subtablesOf, List.find?_append, findTableById_eq targetId t,
      findTableAmong_eq targetId ts]

end

/-- The first item that satisfies a test on a key is THE item of that key when the keys differ. -/
theorem find_of_nodup {α : Type} {f : α → Int} : ∀ {l : List α} {a : α}, (l.map f).Nodup → a ∈ l →
    l.find? (fun b => decide (f b = f a)) = some a
  | b :: l, a, hnd, ha => by
    obtain ⟨hb, hnd'⟩ := List.nodup_cons.mp hnd
    rcases List.mem_cons.mp ha with rfl | ha
    · simp
    · have hne : ¬ f b = f a := fun h => hb (h ▸ List.mem_map_of_mem ha)
      rw [List.find?_cons_of_neg (by simpa using hne)]
      exact find_of_nodup hnd' ha

/-- **In a tree with distinct ids the search finds the table of the id.** -/
theorem findTableById_eq_some {root t : PageTable} (hnd : (root.subtables.map tableId).Nodup)
    (ht : t ∈ root.subtables) : findTableById t.tableId root = some t := by
  rw [findTableById_eq]
  exact find_of_nodup hnd ht

/-- ... and nothing else. -/
theorem findTableById_eq_some_iff {root t : PageTable} {id : Int}
    (hnd : (root.subtables.map tableId).Nodup) :
    findTableById id root = some t ↔ t ∈ root.subtables ∧ t.tableId = id := by
  constructor
  · intro h
    rw [findTableById_eq] at h
    exact ⟨List.mem_of_find?_eq_some h, by simpa using List.find?_some h⟩
  · rintro ⟨ht, rfl⟩
    exact findTableById_eq_some hnd ht

/-- The next tables are tables of the tree. -/
theorem mem_subtablesOf {t u : PageTable} : ∀ {ts : List PageTable}, t ∈ ts → u ∈ t.subtables →
    u ∈ subtablesOf ts
  | _ :: ts, ht, hu => by
    rw [subtablesOf]
    rcases List.mem_cons.mp ht with rfl | ht
    · exact List.mem_append_left _ hu
    · exact List.mem_append_right _ (mem_subtablesOf ht hu)

theorem self_mem_subtables : ∀ t : PageTable, t ∈ t.subtables
  | .lastLevel _ _ => by simp [subtables]
  | .inner _ _ => by simp [subtables]

/-- The table that a path leads to is a table of the tree. -/
theorem mem_subtables_of_tableAt {u : PageTable} : ∀ {p : List Nat} {t : PageTable},
    t.tableAt p = some u → u ∈ t.subtables
  | [], t, h => by
    have heq : t = u := by simpa [tableAt] using h
    exact heq ▸ self_mem_subtables t
  | i :: p, .lastLevel _ _, h => by simp [tableAt] at h
  | i :: p, .inner id ts, h => by
    cases hi : ts[i]? with
    | none => simp [tableAt, hi] at h
    | some t' =>
      have hu : u ∈ t'.subtables := mem_subtables_of_tableAt (p := p) (by simpa [tableAt, hi] using h)
      rw [subtables]
      exact List.mem_cons_of_mem _ (mem_subtablesOf (List.mem_of_getElem? hi) hu)

/-- One entry further down a path. -/
theorem tableAt_append_singleton {id : Int} {ts : List PageTable} {i : Nat} :
    ∀ {p : List Nat} {t : PageTable}, t.tableAt p = some (.inner id ts) → t.tableAt (p ++ [i]) = ts[i]?
  | [], t, h => by
    have heq : t = .inner id ts := by simpa [tableAt] using h
    subst heq
    cases hi : ts[i]? with
    | none => simp [tableAt, hi]
    | some t' => simp [tableAt, hi]
  | j :: p, .lastLevel _ _, h => by simp [tableAt] at h
  | j :: p, .inner id' us, h => by
    cases hj : us[j]? with
    | none => simp [tableAt, hj] at h
    | some t' =>
      have hrest := tableAt_append_singleton (i := i) (p := p) (by simpa [tableAt, hj] using h)
      simpa [tableAt, hj] using hrest

/-! ## 3. The ids of a tree -/

mutual

/-- A store leaves the ids as they are. -/
theorem tableIds_setFrame (j : Nat) (f : Int) : ∀ (p : List Nat) (t : PageTable),
    (t.setFrame p j f).subtables.map tableId = t.subtables.map tableId
  | [], .lastLevel id fs => by simp [setFrame, subtables, tableId]
  | _ :: _, .lastLevel id fs => by simp [setFrame]
  | [], .inner id ts => by simp [setFrame]
  | i :: p, .inner id ts => by
    simp [setFrame, subtables, tableId, tableIds_modify j f i p ts]

theorem tableIds_modify (j : Nat) (f : Int) : ∀ (i : Nat) (p : List Nat) (ts : List PageTable),
    (subtablesOf (ts.modify i fun t => t.setFrame p j f)).map tableId = (subtablesOf ts).map tableId
  | _, _, [] => by simp
  | 0, p, t :: ts => by simp [subtablesOf, tableIds_setFrame j f p t]
  | i + 1, p, t :: ts => by simp [subtablesOf, tableIds_modify j f i p ts]

end

end PageTable

open PageTable

/-- The counter of ids wraps around as an `int32_t`. -/
theorem toInt32_toInt32_add (x y : Int) : toInt32 (toInt32 x + y) = toInt32 (x + y) := by
  simp only [toInt32, Int.bmod_add_bmod]

/-- A run of consecutive ids. -/
def idsFrom (x : Int) (n : Nat) : List Int := (List.range n).map fun k : Nat => toInt32 (x + k)

theorem idsFrom_add (x : Int) (m n : Nat) : idsFrom x (m + n) = idsFrom x m ++ idsFrom (x + m) n := by
  unfold idsFrom
  rw [List.range_add, List.map_append, List.map_map]
  congr 1
  refine List.map_congr_left fun k _ => ?_
  simp only [Function.comp_apply, Nat.cast_add]
  congr 1
  ring

/-- The loop over the entries, given what `_create_table` does for one of them. -/
theorem createNexts_tableIds {mk : Int → PageTable × Int} {c : Nat}
    (hmk : ∀ x, (mk (toInt32 x)).1.subtables.map tableId = idsFrom x c ∧
      (mk (toInt32 x)).2 = toInt32 (x + c)) : ∀ (n : Nat) (x : Int),
    (subtablesOf (createNexts mk n (toInt32 x)).1).map tableId = idsFrom x (n * c) ∧
      (createNexts mk n (toInt32 x)).2 = toInt32 (x + (n * c : Nat))
  | 0, x => by simp [createNexts, subtablesOf, idsFrom]
  | n + 1, x => by
    obtain ⟨hids, hnext⟩ := hmk x
    obtain ⟨ihids, ihnext⟩ := createNexts_tableIds hmk n (x + c)
    have hcount : (n + 1) * c = c + n * c := by ring
    simp only [createNexts, subtablesOf, List.map_append, hids, hnext, ihids, ihnext, hcount,
      idsFrom_add, true_and]
    congr 1
    push_cast
    ring

/-- **`_create_table` numbers the tables of its tree consecutively.** -/
theorem createTable_tableIds (cfg : Config) : ∀ (r : Nat) (x : Int),
    (createTable cfg r (toInt32 x)).1.subtables.map tableId =
        idsFrom x (tableCount cfg.entradasPorTabla (r + 1)) ∧
      (createTable cfg r (toInt32 x)).2 = toInt32 (x + tableCount cfg.entradasPorTabla (r + 1))
  | 0, x => by
    simp [createTable, subtables, PageTable.tableId, idsFrom, tableCount, toInt32_toInt32_add]
  | r + 1, x => by
    obtain ⟨hids, hnext⟩ := createNexts_tableIds (createTable_tableIds cfg r) cfg.entradasPorTabla (x + 1)
    have hone : idsFrom x 1 = [toInt32 x] := by simp [idsFrom]
    rw [tableCount, idsFrom_add, hone]
    simp only [createTable, subtables, List.map_cons, PageTable.tableId, toInt32_toInt32_add, hids, hnext,
      Nat.cast_one, List.singleton_append, true_and]
    congr 1
    push_cast
    ring

/-- A tree whose entries a table are at least two has fewer tables than pages. -/
theorem tableCount_lt_pow {e : Nat} (he : 2 ≤ e) : ∀ r : Nat, tableCount e r < e ^ r
  | 0 => by simp [tableCount]
  | r + 1 => by
    have ih := tableCount_lt_pow he r
    calc tableCount e (r + 1) = 1 + e * tableCount e r := rfl
      _ < e + e * tableCount e r := by omega
      _ = e * (tableCount e r + 1) := by ring
      _ ≤ e * e ^ r := Nat.mul_le_mul (Nat.le_refl e) ih
      _ = e ^ (r + 1) := (pow_succ' e r).symm

theorem tableCount_one : ∀ r : Nat, tableCount 1 r = r
  | 0 => rfl
  | r + 1 => by rw [tableCount, tableCount_one r]; omega

/-- The tables of a tree can be counted by an `int32_t` when its pages can.  With one entry a table there
is one table a level, and the number of levels is an `int` too. -/
theorem tableCount_lt {e r : Nat} (he : 1 ≤ e) (hr : r < 2 ^ 31) (hpow : e ^ r < 2 ^ 31) :
    tableCount e r < 2 ^ 31 := by
  rcases Nat.lt_or_ge e 2 with hlt | hge
  · obtain rfl : e = 1 := by omega
    rw [tableCount_one]
    exact hr
  · exact (tableCount_lt_pow hge r).trans hpow

/-- Consecutive ids differ as long as the counter does not wrap around. -/
theorem nodup_idsFrom_one {n : Nat} (hn : n < 2 ^ 31) : (idsFrom 1 n).Nodup ∧ ∀ x ∈ idsFrom 1 n, 0 < x := by
  have hval : ∀ k ∈ List.range n, toInt32 (1 + (k : Int)) = 1 + k := by
    intro k hk
    have := List.mem_range.mp hk
    exact toInt32_eq (by omega) (by omega)
  constructor
  · refine List.Nodup.map_on ?_ List.nodup_range
    intro k hk k' hk' heq
    rw [hval k hk, hval k' hk'] at heq
    omega
  · intro x hx
    obtain ⟨k, hk, rfl⟩ := List.mem_map.mp hx
    rw [hval k hk]
    omega

/-! ## 4. The tree of a process with its frames -/

/-- All last-level entries of a tree are unused. -/
def Unused (t : PageTable) : Prop := ∀ p j x, t.frameAt p j = some x → x = invalidFrameNumber

/-- `_create_table` leaves every last-level entry unused. -/
theorem createTable_unused (cfg : Config) : ∀ (r : Nat) (id : Int), Unused (createTable cfg r id).1
  | 0, id => by
    intro p j x h
    cases p with
    | nil =>
      have hx : (List.replicate cfg.entradasPorTabla invalidFrameNumber)[j]? = some x := by
        simpa [createTable, PageTable.frameAt, PageTable.tableAt] using h
      exact List.eq_of_mem_replicate (List.mem_of_getElem? hx)
    | cons i p => simp [createTable, PageTable.frameAt, PageTable.tableAt] at h
  | r + 1, id => by
    have hnexts : ∀ (n : Nat) (id : Int), ∀ t ∈ (createNexts (createTable cfg r) n id).1, Unused t := by
      intro n
      induction n with
      | zero => intro id t ht; simp [createNexts] at ht
      | succ n ih =>
        intro id t ht
        simp only [createNexts, List.mem_cons] at ht
        rcases ht with rfl | ht
        · exact createTable_unused cfg r id
        · exact ih _ t ht
    intro p j x h
    cases p with
    | nil => simp [createTable, PageTable.frameAt, PageTable.tableAt] at h
    | cons i p =>
      simp only [createTable, PageTable.frameAt, PageTable.tableAt] at h
      cases hi : (createNexts (createTable cfg r) cfg.entradasPorTabla (toInt32 (id + 1))).1[i]? with
      | none => simp [hi] at h
      | some t =>
        simp only [hi] at h
        exact hnexts _ _ t (List.mem_of_getElem? hi) p j x h

section Assign

variable {e r n : Nat} {frames : List Nat}

/-- The inner loop stores into no entry of a page behind the last one. -/
theorem assignEntries_frameAt {a k : Nat} (hlen : frames.length = n) (ha : a < e ^ r) (hk : n ≤ k)
    (hke : k / e < e ^ r) : ∀ (cnt j : Nat) (t : PageTable) (fi : Nat), j + cnt = e →
      Assigned e r n frames (a * e + j) (t, fi) →
      (assignEntries frames n (digits e r a) cnt j t fi).1.frameAt (digits e r (k / e)) (k % e) =
        t.frameAt (digits e r (k / e)) (k % e)
  | 0, j, t, fi, _, _ => by rw [assignEntries]
  | cnt + 1, j, t, fi, hj, h => by
    rw [assignEntries]
    by_cases hfi : (fi : Int) < n
    · have hidx : fi = a * e + j := by
        have := h.index
        simp only at this
        omega
      subst hidx
      have hlt : a * e + j < frames.length := by omega
      rw [if_pos hfi, List.getElem?_eq_getElem hlt]
      have hnext := h.store ha (by omega) (by omega) (List.getElem?_eq_getElem hlt)
      rw [assignEntries_frameAt hlen ha hk hke cnt (j + 1) _ _ (by omega) hnext]
      refine PageTable.frameAt_setFrame_of_ne ?_
      intro heq
      obtain ⟨hpath, hmod⟩ := Prod.mk.inj heq
      -- the entry stored into is that of page `a * e + j`, which is below `n`
      have hdiv : a = k / e := digits_inj ha hke hpath
      have := Nat.div_add_mod k e
      rw [← hdiv, ← hmod, Nat.mul_comm] at this
      omega
    · rw [if_neg hfi]

/-- Neither does the outer loop. -/
theorem assignTables_frameAt {k : Nat} (hlen : frames.length = n) (he : 0 < e) (hk : n ≤ k)
    (hke : k / e < e ^ r) : ∀ (cnt a : Nat) (t : PageTable) (fi : Nat), a + cnt ≤ e ^ r →
      Assigned e r n frames (a * e) (t, fi) →
      (assignTables frames n ((List.range' a cnt).map (digits e r)) t fi).1.frameAt
          (digits e r (k / e)) (k % e) = t.frameAt (digits e r (k / e)) (k % e)
  | 0, a, t, fi, _, _ => by simp [assignTables]
  | cnt + 1, a, t, fi, hle, h => by
    rw [List.range'_succ, List.map_cons, assignTables]
    by_cases hfi : (fi : Int) < n
    · have hc : PageTable.Complete e (digits e r a).length t := by simpa using h.complete
      have hentries : t.numEntries (digits e r a) = e := (hc.frameAt (digits_lt he r a)).1
      have ha : a < e ^ r := by omega
      have hstart : Assigned e r n frames (a * e + 0) (t, fi) := by simpa using h
      have hin := assignEntries_assigned hlen ha e 0 t fi (by omega) hstart
      have hsucc : a * e + e = (a + 1) * e := by ring
      rw [if_pos hfi, hentries]
      rw [hsucc] at hin
      rw [assignTables_frameAt hlen he hk hke cnt (a + 1) _ _ (by omega) hin]
      exact assignEntries_frameAt hlen ha hk hke e 0 t fi (by omega) hstart
    · rw [if_neg hfi]

/-- The loops leave the ids as they are. -/
theorem assignEntries_tableIds {pages : Int} {path : List Nat} : ∀ (cnt j : Nat) (t : PageTable) (fi : Nat),
    (assignEntries frames pages path cnt j t fi).1.subtables.map tableId = t.subtables.map tableId
  | 0, j, t, fi => by rw [assignEntries]
  | cnt + 1, j, t, fi => by
    rw [assignEntries]
    split
    · cases frames[fi]? with
      | none => exact assignEntries_tableIds cnt (j + 1) t fi
      | some f => exact (assignEntries_tableIds cnt (j + 1) _ _).trans (tableIds_setFrame j f path t)
    · rfl

theorem assignTables_tableIds {pages : Int} : ∀ (paths : List (List Nat)) (t : PageTable) (fi : Nat),
    (assignTables frames pages paths t fi).1.subtables.map tableId = t.subtables.map tableId
  | [], t, fi => by rw [assignTables]
  | path :: rest, t, fi => by
    rw [assignTables]
    split
    · exact (assignTables_tableIds rest _ _).trans (assignEntries_tableIds _ 0 t fi)
    · rfl

end Assign

/-- What `assign_frames` leaves behind on a new tree: the ids, every page's frame, and unused entries
behind the last page. -/
structure FramesIn (cfg : Config) (frames : List Nat) (t : PageTable) : Prop where
  ids : t.subtables.map tableId = idsFrom 1 (tableCount cfg.entradasPorTabla cfg.cantidadNiveles)
  complete : PageTable.Complete cfg.entradasPorTabla cfg.lastLevel t
  used : ∀ i f : Nat, frames[i]? = some f →
    PageTable.followPage cfg.entradasPorTabla cfg.lastLevel t i = some (f : Int)
  unused : ∀ i : Nat, frames.length ≤ i → i < cfg.entradasPorTabla ^ cfg.cantidadNiveles →
    PageTable.followPage cfg.entradasPorTabla cfg.lastLevel t i = some invalidFrameNumber

theorem cantidadNiveles_eq (cfg : Config) : cfg.cantidadNiveles = cfg.lastLevel + 1 := by
  have := cfg.cantidadNiveles_pos
  unfold Config.lastLevel
  omega

/-- **`init_page_table` and `assign_frames` succeed on as many frames as the tree has entries for.** -/
theorem assignFrames_initPageTable {cfg : Config} {frames : List Nat} (he : 1 ≤ cfg.entradasPorTabla)
    (hpow : cfg.entradasPorTabla ^ cfg.cantidadNiveles < 2 ^ 31) (hpos : 1 ≤ frames.length)
    (hle : frames.length ≤ cfg.entradasPorTabla ^ cfg.cantidadNiveles) :
    ∃ t, assignFrames cfg (initPageTable cfg 1).1 frames frames.length = (t, true) ∧
      FramesIn cfg frames t := by
  have hniv := cantidadNiveles_eq cfg
  have hroot := createTable_complete cfg cfg.lastLevel 1
  have hlast : cfg.entradasPorTabla ^ cfg.lastLevel ≤ cfg.entradasPorTabla ^ cfg.cantidadNiveles :=
    Nat.pow_le_pow_right he (by omega)
  have hdouble : doubleToInt (cfg.entradasPorTabla ^ cfg.lastLevel) =
      (cfg.entradasPorTabla ^ cfg.lastLevel : Nat) := by
    rw [doubleToInt, if_pos (by omega)]
  have htables : collectLastLevelTables cfg (createTable cfg cfg.lastLevel 1).1
      (cfg.entradasPorTabla ^ cfg.lastLevel : Nat) =
      (List.range' 0 (cfg.entradasPorTabla ^ cfg.lastLevel)).map
        (digits cfg.entradasPorTabla cfg.lastLevel) := by
    rw [collectLastLevelTables_complete _ hroot, levelPaths, Int.toNat_natCast, ← List.map_take,
      List.take_range, Nat.min_self, List.range_eq_range']
  have hstart : Assigned cfg.entradasPorTabla cfg.lastLevel frames.length frames
      (0 * cfg.entradasPorTabla) ((createTable cfg cfg.lastLevel 1).1, 0) :=
    ⟨by simp, hroot, by simp⟩
  have hend := assignTables_assigned rfl (cfg.entradasPorTabla ^ cfg.lastLevel) 0
    (createTable cfg cfg.lastLevel 1).1 0 (by omega) hstart
  have hcap : (0 + cfg.entradasPorTabla ^ cfg.lastLevel) * cfg.entradasPorTabla =
      cfg.entradasPorTabla ^ cfg.cantidadNiveles := by rw [Nat.zero_add, hniv, pow_succ]
  have hindex := hend.index
  rw [hcap] at hindex
  refine ⟨_, ?_, ?_, hend.complete, ?_, ?_⟩
  · unfold assignFrames
    rw [if_neg (by omega)]
    simp only [initPageTable, hdouble, htables, Prod.mk.injEq, true_and, decide_eq_true_eq]
    omega
  · rw [assignTables_tableIds, hniv]
    have hids := (createTable_tableIds cfg cfg.lastLevel 1).1
    rwa [toInt32_eq (by omega) (by omega)] at hids
  · intro i f hf
    have hi : i < frames.length := (List.getElem?_eq_some_iff.mp hf).1
    rw [followPage_eq_frameAt]
    exact hend.written i (by omega) f hf
  · intro i hi hlt
    have hdiv : i / cfg.entradasPorTabla < cfg.entradasPorTabla ^ cfg.lastLevel :=
      Nat.div_lt_of_lt_mul (by rwa [hniv, pow_succ'] at hlt)
    rw [followPage_eq_frameAt, assignTables_frameAt rfl he hi hdiv _ _ _ _ (by omega) hstart]
    -- the tree is complete, so the entry exists, and it is unused
    have hc : PageTable.Complete cfg.entradasPorTabla
        (digits cfg.entradasPorTabla cfg.lastLevel (i / cfg.entradasPorTabla)).length
        (createTable cfg cfg.lastLevel 1).1 := by simpa using hroot
    obtain ⟨x, hx⟩ := (hc.frameAt (digits_lt he _ _)).2 (i % cfg.entradasPorTabla) (Nat.mod_lt _ he)
    rw [hx, createTable_unused cfg cfg.lastLevel 1 _ _ x hx]

/-! ## 5. Page tables under requests -/

/-- The record that a pid finds has the same page table as before. -/
def SameTable (s s' : State) (q : Int) : Prop :=
  (processManagerFindProcess s'.processes q).map (·.pageTable) =
    (processManagerFindProcess s.processes q).map (·.pageTable)

/-- A store that keeps the pid and the page table of the record. -/
theorem updateProcess_tables {f : ProcessInfo → ProcessInfo} (hpid : ∀ p, (f p).pid = p.pid)
    (htable : ∀ p, (f p).pageTable = p.pageTable) (pid : Int) (ps : List ProcessInfo) :
    (updateProcess f pid ps).map (·.pid) = ps.map (·.pid) ∧
      ∀ q, (processManagerFindProcess (updateProcess f pid ps) q).map (·.pageTable) =
        (processManagerFindProcess ps q).map (·.pageTable) := by
  constructor
  · induction ps with
    | nil => rfl
    | cons p ps ih =>
      rw [updateProcess]
      split
      · simp [hpid]
      · simp [ih]
  · intro q
    rw [find_updateProcess hpid]
    split
    · rw [Option.map_map]
      congr 1
      funext p
      exact htable p
    · rfl

/-- **What a request can do to the page tables**: nothing; a new process gets one; or a process ends.
Suspension and resumption do NOTHING to them. -/
theorem handle_tables {cfg : Config} {s s' : State} {r : Request} {reply : Reply}
    (h : handle cfg s r = some (s', reply)) :
    (s'.processes.map (·.pid) = s.processes.map (·.pid) ∧ (∀ q, SameTable s s' q) ∧
      ∀ pid size file left, r = .initProcess pid size file left → reply = .confirmation false) ∨
    (∃ pid size file left p, r = .initProcess pid size file left ∧ reply = .confirmation true ∧
      p.pid = pid ∧ s'.processes = s.processes ++ [p]) ∨
    (∃ pid, r = .killProcess pid ∧
      s'.processes = s.processes.eraseP fun p => decide (p.pid = pid)) := by
  cases r with
  | initProcess pid size file left =>
    obtain ⟨⟨s1, b⟩, hc, heq⟩ := Option.map_eq_some_iff.mp h
    obtain ⟨rfl, rfl⟩ := Prod.mk.inj heq
    rcases createProcess_cases hc with ⟨rfl, rfl⟩ | ⟨fs, frames, -, -, rfl, rfl⟩ |
      ⟨fs, frames, frames', id, -, -, rfl, rfl⟩ | ⟨fs, frames, t, id, ins, -, -, -, -, rfl, rfl⟩ |
      ⟨ins, -, rfl, rfl⟩
    · exact Or.inl ⟨rfl, fun _ => rfl, by simp⟩
    · exact Or.inl ⟨rfl, fun _ => rfl, by simp⟩
    · exact Or.inl ⟨rfl, fun _ => rfl, by simp⟩
    · exact Or.inr (Or.inl ⟨pid, size, file, left, _, rfl, rfl, rfl, rfl⟩)
    · exact Or.inr (Or.inl ⟨pid, size, file, left, _, rfl, rfl, rfl, rfl⟩)
  | killProcess pid =>
    obtain ⟨⟨s1, b⟩, hc, heq⟩ := Option.map_eq_some_iff.mp h
    obtain ⟨rfl, -⟩ := Prod.mk.inj heq
    rcases deleteProcess_cases hc with ⟨-, rfl, -⟩ | ⟨p, -, -, rfl, -⟩ |
      ⟨p, fs, frames, -, -, -, -, rfl, -⟩
    · exact Or.inl ⟨rfl, fun _ => rfl, by simp⟩
    · exact Or.inr (Or.inr ⟨pid, rfl, rfl⟩)
    · exact Or.inr (Or.inr ⟨pid, rfl, rfl⟩)
  | swap pid written =>
    obtain ⟨⟨s1, b⟩, hc, heq⟩ := Option.map_eq_some_iff.mp h
    obtain ⟨rfl, -⟩ := Prod.mk.inj heq
    rcases swapOutProcess_cases hc with ⟨⟨swapFrames, file, rfl⟩, -⟩ | ⟨p, -, -, -, rfl, -⟩ |
      ⟨p, fs, slots, frames, swapFrames, file, -, -, -, -, -, -, rfl, -⟩
    · exact Or.inl ⟨rfl, fun _ => rfl, by simp⟩
    · obtain ⟨hpids, htables⟩ := updateProcess_tables (f := fun p => { p with isSuspended := true })
        (fun _ => rfl) (fun _ => rfl) pid s.processes
      exact Or.inl ⟨hpids, htables, by simp⟩
    · obtain ⟨hpids, htables⟩ := updateProcess_tables (f := suspendedWith slots) (fun _ => rfl)
        (fun _ => rfl) pid s.processes
      exact Or.inl ⟨hpids, htables, by simp⟩
  | unsuspendProcess pid avail =>
    obtain ⟨⟨s1, b⟩, hc, heq⟩ := Option.map_eq_some_iff.mp h
    obtain ⟨rfl, -⟩ := Prod.mk.inj heq
    rcases swapInProcess_cases hc with ⟨rfl, -⟩ | ⟨p, -, -, -, rfl, -⟩ |
      ⟨p, slots, userFrames, frames, -, -, -, -, rfl, -⟩ |
      ⟨p, slots, userFrames, frames, frames', m, -, -, -, -, -, rfl, -⟩ |
      ⟨p, slots, userFrames, frames, swapFrames, m, -, -, -, -, -, -, -, -, rfl, -⟩
    · exact Or.inl ⟨rfl, fun _ => rfl, by simp⟩
    · obtain ⟨hpids, htables⟩ := updateProcess_tables (f := fun p => { p with isSuspended := false })
        (fun _ => rfl) (fun _ => rfl) pid s.processes
      exact Or.inl ⟨hpids, htables, by simp⟩
    · exact Or.inl ⟨rfl, fun _ => rfl, by simp⟩
    · exact Or.inl ⟨rfl, fun _ => rfl, by simp⟩
    · obtain ⟨hpids, htables⟩ := updateProcess_tables (f := resumedWith userFrames) (fun _ => rfl)
        (fun _ => rfl) pid s.processes
      exact Or.inl ⟨hpids, htables, by simp⟩
  | readMemory a n =>
    obtain ⟨m, rfl⟩ := handle_memory_eq h (Or.inl ⟨a, n, rfl⟩)
    exact Or.inl ⟨rfl, fun _ => rfl, by simp⟩
  | writeMemory a d =>
    obtain ⟨m, rfl⟩ := handle_memory_eq h (Or.inr ⟨a, d, rfl⟩)
    exact Or.inl ⟨rfl, fun _ => rfl, by simp⟩

end Tpso.Memoria
