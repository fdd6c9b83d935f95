/-
# The multi-level page tables of memoria

`page_table.c` builds the tree of tables of a new process and `assign-frames-to-process.c` writes
the process's frames into its last-level entries.  Both are embedded here as the code computes them.

A table whose entries are last-level ones holds frame numbers, any other table holds its next
tables; `_create_table` gives all entries of one table the same `is_last_level`, so the flag and
the union of `t_page_table_entry` become the two constructors of `PageTable`, and the
`next_table_id` of an entry is the `tableId` of the table it points to.  A `t_page_table *` into
the tree is the list of entry indices that leads to it from the root.

`assign_frames` reaches the last-level tables breadth first, and a page reaches its entry digit by
digit.  The results of this module are that the two orders agree:

* `collectLastLevelTables_complete`: the breadth-first loop returns the paths of the last-level
  tables in the order of their page numbers, and the fuel of the loop suffices;
* `followPage_assignFrames`: after a successful `assign_frames`, the last-level entry of page `i`
  holds the `i`-th frame, for every depth, fan-out and number of pages.
-/
import Tpso.Lib.BitAlloc

namespace Tpso.Memoria

/-! ## 1. The configuration -/

/-- The `int32_t` value of an exact integer: the wrap of two's complement. -/
@[irreducible]
def toInt32 (x : Int) : Int := x.bmod (2 ^ 32)

theorem toInt32_eq {x : Int} (h0 : 0 ≤ x) (h : x < 2 ^ 31) : toInt32 x = x := by
  unfold toInt32
  rw [Int.bmod_eq_of_le] <;> omega

/-- `memoria.config`, as far as memory is concerned.  The values are `int`s of the file.  The code
checks none of them, but memoria does not get past start-up or does not return from the first
`create_process` unless they satisfy the fields below: `frame_allocation_init` divides by
`TAM_PAGINA`, `safe_calloc` aborts on a negative size, and `_create_table` never reaches the last
level when `CANTIDAD_NIVELES` is not positive. -/
structure Config where
  tamMemoria : Nat
  tamPagina : Nat
  entradasPorTabla : Nat
  cantidadNiveles : Nat
  tamMemoria_lt : tamMemoria < 2 ^ 31
  tamPagina_pos : 0 < tamPagina
  cantidadNiveles_pos : 0 < cantidadNiveles

namespace Config

/-- `frames_total`, as `frame_allocation_init` computes it. -/
def framesTotal (cfg : Config) : Nat := cfg.tamMemoria / cfg.tamPagina

/-- `pages_needed` of `create_process`: the ceiling of `size / TAM_PAGINA`. -/
def pagesNeeded (cfg : Config) (size : Int) : Int := (size + cfg.tamPagina - 1) / cfg.tamPagina

/-- The index of the last level, `CANTIDAD_NIVELES - 1`. -/
def lastLevel (cfg : Config) : Nat := cfg.cantidadNiveles - 1

/-- A process of positive size needs at least one page. -/
theorem pagesNeeded_pos (cfg : Config) {size : Int} (h : 0 < size) : 0 < cfg.pagesNeeded size := by
  have hp : (0 : Int) < cfg.tamPagina := by exact_mod_cast cfg.tamPagina_pos
  have h1 : 1 ≤ (size + cfg.tamPagina - 1) / cfg.tamPagina :=
    (Int.le_ediv_iff_mul_le hp).mpr (by omega)
  exact h1

/-- A process of negative size needs none. -/
theorem pagesNeeded_nonpos (cfg : Config) {size : Int} (h : size < 0) :
    cfg.pagesNeeded size ≤ 0 := by
  have hp : (0 : Int) < cfg.tamPagina := by exact_mod_cast cfg.tamPagina_pos
  have h1 : (size + cfg.tamPagina - 1) / cfg.tamPagina < 1 :=
    Int.ediv_lt_of_lt_mul hp (by omega)
  exact Int.lt_add_one_iff.mp h1

end Config

/-! ## 2. `page_table.c`: the tree of tables -/

/-- `INVALID_FRAME_NUMBER`. -/
def invalidFrameNumber : Int := -1

/-- A `t_page_table` with its entries. -/
inductive PageTable where
  | lastLevel (tableId : Int) (frames : List Int)
  | inner (tableId : Int) (nexts : List PageTable)

/-- The loop of `_create_table` over the entries of a table that is not of the last level: `n` next
tables, made one after another, the global `next_table_id` running through them. -/
def createNexts (mk : Int → PageTable × Int) : Nat → Int → List PageTable × Int
  | 0, id => ([], id)
  | n + 1, id =>
    let t := mk id
    let rest := createNexts mk n t.2
    (t.1 :: rest.1, rest.2)

/-- `_create_table`, with the levels below the table's own as the recursion argument; returns the
table and the new `next_table_id`. -/
def createTable (cfg : Config) : Nat → Int → PageTable × Int
  | 0, id =>
    (.lastLevel id (List.replicate cfg.entradasPorTabla invalidFrameNumber), toInt32 (id + 1))
  | r + 1, id =>
    let nexts := createNexts (createTable cfg r) cfg.entradasPorTabla (toInt32 (id + 1))
    (.inner id nexts.1, nexts.2)

/-- `init_page_table`: the tree of a new process.  The second component is `next_table_id`, reset
for the next process. -/
def initPageTable (cfg : Config) (nextTableId : Int) : PageTable × Int :=
  ((createTable cfg cfg.lastLevel nextTableId).1, 1)

namespace PageTable

/-- The table that a path of entry indices leads to. -/
def tableAt : PageTable → List Nat → Option PageTable
  | t, [] => some t
  | .inner _ ts, i :: p =>
    match ts[i]? with
    | some t => t.tableAt p
    | none => none
  | .lastLevel _ _, _ :: _ => none

/-- `num_entries` of the table at a path. -/
def numEntries (t : PageTable) (p : List Nat) : Nat :=
  match t.tableAt p with
  | some (.lastLevel _ fs) => fs.length
  | some (.inner _ ts) => ts.length
  | none => 0

/-- `frame_number` of entry `j` of the last-level table at a path. -/
def frameAt (t : PageTable) (p : List Nat) (j : Nat) : Option Int :=
  match t.tableAt p with
  | some (.lastLevel _ fs) => fs[j]?
  | _ => none

/-- The store `entry->frame_number = f` into entry `j` of the last-level table at a path. -/
def setFrame : PageTable → List Nat → Nat → Int → PageTable
  | .lastLevel id fs, [], j, f => .lastLevel id (fs.set j f)
  | .inner id ts, i :: p, j, f => .inner id (ts.modify i fun t => t.setFrame p j f)
  | t, _, _, _ => t

/-- Following a page to its last-level entry: at every level the entry is the page number divided
by the pages below one entry, modulo the entries of a table. -/
def followPage (e : Nat) : Nat → PageTable → Nat → Option Int
  | 0, .lastLevel _ fs, page => fs[page % e]?
  | r + 1, .inner _ ts, page =>
    match ts[(page / e ^ (r + 1)) % e]? with
    | some t => followPage e r t page
    | none => none
  | _, _, _ => none

/-- The tree `_create_table` builds: every table has `e` entries, and the last level is `r` levels
below. -/
def Complete (e : Nat) : Nat → PageTable → Prop
  | 0, .lastLevel _ fs => fs.length = e
  | r + 1, .inner _ ts => ts.length = e ∧ ∀ t ∈ ts, Complete e r t
  | _, _ => False

end PageTable

/-! ## 3. `assign-frames-to-process.c` -/

/-- `queue_item_t`: a table and its level. -/
structure QueueItem where
  path : List Nat
  level : Nat

/-- The items that the loop pushes for the entries of a table that is not of the last level. -/
def nextItems (root : PageTable) (item : QueueItem) : List QueueItem :=
  match root.tableAt item.path with
  | some (.inner _ ts) => (List.range ts.length).map fun i => ⟨item.path ++ [i], item.level + 1⟩
  | _ => []

/-- The loop of `collect_last_level_tables`: breadth first, the queue and the result array explicit.
The first argument bounds the number of iterations; `tableCount` of them are enough. -/
def collectLoop (cfg : Config) (root : PageTable) (maxResultSize : Int) :
    Nat → List QueueItem → List (List Nat) → List (List Nat)
  | 0, _, result => result
  | _ + 1, [], result => result
  | fuel + 1, item :: rest, result =>
    if item.level = cfg.lastLevel then
      collectLoop cfg root maxResultSize fuel rest
        (if (result.length : Int) < maxResultSize then result ++ [item.path] else result)
    else collectLoop cfg root maxResultSize fuel (rest ++ nextItems root item) result

/-- The number of tables of a tree of `r` levels with `e` entries a table. -/
def tableCount (e : Nat) : Nat → Nat
  | 0 => 0
  | r + 1 => 1 + e * tableCount e r

/-- `collect_last_level_tables`. -/
def collectLastLevelTables (cfg : Config) (root : PageTable) (maxResultSize : Int) :
    List (List Nat) :=
  collectLoop cfg root maxResultSize (tableCount cfg.entradasPorTabla cfg.cantidadNiveles)
    [⟨[], 0⟩] []

/-- The conversion of `pow`'s `double` to `int`.  Outside the range of `int` the machine gives the
smallest one. -/
def doubleToInt (x : Nat) : Int := if x < 2 ^ 31 then x else -2 ^ 31

/-- The inner loop of `assign_frames`: entries `j, j + 1, ..` of one table, `n` of them left.  The
state is the tree and `frame_index`. -/
def assignEntries (frames : List Nat) (pagesNeeded : Int) (path : List Nat) :
    Nat → Nat → PageTable → Nat → PageTable × Nat
  | 0, _, t, frameIndex => (t, frameIndex)
  | n + 1, j, t, frameIndex =>
    if (frameIndex : Int) < pagesNeeded then
      match frames[frameIndex]? with
      | some f =>
        assignEntries frames pagesNeeded path n (j + 1) (t.setFrame path j f) (frameIndex + 1)
      | none => assignEntries frames pagesNeeded path n (j + 1) t frameIndex
    else (t, frameIndex)

/-- The outer loop of `assign_frames`, over the collected tables. -/
def assignTables (frames : List Nat) (pagesNeeded : Int) :
    List (List Nat) → PageTable → Nat → PageTable × Nat
  | [], t, frameIndex => (t, frameIndex)
  | path :: rest, t, frameIndex =>
    if (frameIndex : Int) < pagesNeeded then
      let r := assignEntries frames pagesNeeded path (t.numEntries path) 0 t frameIndex
      assignTables frames pagesNeeded rest r.1 r.2
    else (t, frameIndex)

/-- `assign_frames`: the tree with the frames written into it, and whether all of them were. -/
def assignFrames (cfg : Config) (root : PageTable) (frames : List Nat) (pagesNeeded : Int) :
    PageTable × Bool :=
  if pagesNeeded ≤ 0 then (root, false)
  else
    let maxTables := doubleToInt (cfg.entradasPorTabla ^ cfg.lastLevel)
    let tables := collectLastLevelTables cfg root maxTables
    let r := assignTables frames pagesNeeded tables root 0
    (r.1, decide ((r.2 : Int) = pagesNeeded))

/-! ## 4. The tree under a store -/

namespace PageTable

/-- A store is seen by a read of the same entry. -/
theorem frameAt_setFrame_self {f x : Int} {j : Nat} : ∀ {p : List Nat} {t : PageTable},
    t.frameAt p j = some x → (t.setFrame p j f).frameAt p j = some f
  | [], .lastLevel id fs, h => by
    have hj : j < fs.length := (List.getElem?_eq_some_iff.mp h).1
    simp [setFrame, frameAt, tableAt, hj]
  | [], .inner id ts, h => by simp [frameAt, tableAt] at h
  | i :: p, .lastLevel id fs, h => by simp [frameAt, tableAt] at h
  | i :: p, .inner id ts, h => by
    cases hi : ts[i]? with
    | none => simp [frameAt, tableAt, hi] at h
    | some t' =>
      have h' : t'.frameAt p j = some x := by simpa [frameAt, tableAt, hi] using h
      simpa [setFrame, frameAt, tableAt, List.getElem?_modify, hi] using frameAt_setFrame_self h'

/-- A store is not seen by a read of any other entry. -/
theorem frameAt_setFrame_of_ne {f : Int} {j k : Nat} : ∀ {p q : List Nat} {t : PageTable},
    (p, j) ≠ (q, k) → (t.setFrame p j f).frameAt q k = t.frameAt q k
  | [], [], .lastLevel id fs, h => by
    have hjk : j ≠ k := fun hc => h (by rw [hc])
    simp [setFrame, frameAt, tableAt, List.getElem?_set_ne hjk]
  | [], _ :: _, .lastLevel id fs, _ => by simp [setFrame, frameAt, tableAt]
  | [], q, .inner id ts, _ => by simp [setFrame]
  | i :: p, q, .lastLevel id fs, _ => by simp [setFrame]
  | i :: p, [], .inner id ts, _ => by simp [setFrame, frameAt, tableAt]
  | i :: p, i' :: q, .inner id ts, h => by
    by_cases hi : i = i'
    · subst hi
      cases ht : ts[i]? with
      | none => simp [setFrame, frameAt, tableAt, ht]
      | some t' =>
        have hne : (p, j) ≠ (q, k) := fun hc => h (by rw [(Prod.mk.inj hc).1, (Prod.mk.inj hc).2])
        simpa [setFrame, frameAt, tableAt, List.getElem?_modify, ht]
          using frameAt_setFrame_of_ne (t := t') hne
    · simp [setFrame, frameAt, tableAt, hi]

/-- A store keeps the shape of the tree. -/
theorem complete_setFrame {e j : Nat} {f : Int} : ∀ {r : Nat} {t : PageTable} (p : List Nat),
    Complete e r t → Complete e r (t.setFrame p j f)
  | 0, .lastLevel id fs, [], h => by simpa [setFrame, Complete] using h
  | 0, .lastLevel id fs, _ :: _, h => by simpa [setFrame] using h
  | r + 1, .inner id ts, [], h => by simpa [setFrame] using h
  | r + 1, .inner id ts, i :: p, h => by
    obtain ⟨hlen, hall⟩ := h
    refine ⟨by simpa using hlen, ?_⟩
    intro t ht
    obtain ⟨k, hk⟩ := List.mem_iff_getElem?.mp ht
    rw [List.getElem?_modify] at hk
    obtain ⟨t', ht', rfl⟩ := Option.map_eq_some_iff.mp hk
    have hc : Complete e r t' := hall t' (List.mem_of_getElem? ht')
    by_cases hik : i = k
    · simpa [hik] using complete_setFrame p hc
    · simpa [hik] using hc
  | 0, .inner _ _, _, h => by simp [Complete] at h
  | _ + 1, .lastLevel _ _, _, h => by simp [Complete] at h

/-- Every path of legal indices leads somewhere in a complete tree, and what it leads to is
complete. -/
theorem Complete.tableAt {e m : Nat} : ∀ {p : List Nat} {t : PageTable},
    Complete e (p.length + m) t → (∀ i ∈ p, i < e) → ∃ t', t.tableAt p = some t' ∧ Complete e m t'
  | [], t, h, _ => ⟨t, rfl, by simpa using h⟩
  | i :: p, .inner id ts, h, hp => by
    rw [List.length_cons, Nat.add_right_comm] at h
    obtain ⟨hlen, hall⟩ := h
    have hi : i < ts.length := by
      have := hp i List.mem_cons_self
      omega
    have hc := hall _ (List.getElem_mem hi)
    obtain ⟨t', ht', hct⟩ := Complete.tableAt hc fun k hk => hp k (List.mem_cons_of_mem _ hk)
    exact ⟨t', by simp [PageTable.tableAt, List.getElem?_eq_getElem hi, ht'], hct⟩
  | i :: p, .lastLevel id fs, h, _ => by
    rw [List.length_cons, Nat.add_right_comm] at h
    simp [Complete] at h

/-- The tables at the last level of a complete tree have `e` entries, all of them readable. -/
theorem Complete.frameAt {e : Nat} {p : List Nat} {t : PageTable} (h : Complete e p.length t)
    (hp : ∀ i ∈ p, i < e) : t.numEntries p = e ∧ ∀ j < e, ∃ x, t.frameAt p j = some x := by
  obtain ⟨t', ht', hc⟩ := Complete.tableAt (m := 0) h hp
  cases t' with
  | inner id ts => simp [Complete] at hc
  | lastLevel id fs =>
    have hlen : fs.length = e := hc
    refine ⟨by simp [numEntries, ht', hlen], ?_⟩
    intro j hj
    exact ⟨fs.get ⟨j, by omega⟩, by
      simp [PageTable.frameAt, ht', List.getElem?_eq_getElem (by omega : j < fs.length)]⟩

end PageTable

/-- `_create_table` builds a complete tree. -/
theorem createTable_complete (cfg : Config) : ∀ (r : Nat) (id : Int),
    PageTable.Complete cfg.entradasPorTabla r (createTable cfg r id).1
  | 0, id => by simp [createTable, PageTable.Complete]
  | r + 1, id => by
    have hn : ∀ (n : Nat) (id : Int),
        (createNexts (createTable cfg r) n id).1.length = n ∧
          ∀ t ∈ (createNexts (createTable cfg r) n id).1,
            PageTable.Complete cfg.entradasPorTabla r t := by
      intro n
      induction n with
      | zero => intro id; simp [createNexts]
      | succ n ih =>
        intro id
        have hrest := ih (createTable cfg r id).2
        refine ⟨by simp [createNexts, hrest.1], ?_⟩
        intro t ht
        simp only [createNexts, List.mem_cons] at ht
        rcases ht with rfl | ht
        · exact createTable_complete cfg r id
        · exact hrest.2 t ht
    exact hn _ _

/-! ## 5. The order of the last-level tables

The breadth-first loop produces the paths of a level by appending an index to the paths of the level
above; a page is followed from the most significant digit down.  `digits` is the first order, and
`followPage_eq_frameAt` says that the second one is the same. -/

/-- The `r` base-`e` digits of `m`, the most significant one first. -/
def digits (e : Nat) : Nat → Nat → List Nat
  | 0, _ => []
  | r + 1, m => digits e r (m / e) ++ [m % e]

@[simp] theorem length_digits (e : Nat) : ∀ r m, (digits e r m).length = r
  | 0, _ => rfl
  | r + 1, m => by simp [digits, length_digits e r]

theorem digits_lt {e : Nat} (he : 0 < e) : ∀ (r m : Nat), ∀ i ∈ digits e r m, i < e
  | 0, _, i, hi => absurd hi List.not_mem_nil
  | r + 1, m, i, hi => by
    rcases List.mem_append.mp hi with hi | hi
    · exact digits_lt he r _ i hi
    · rw [List.mem_singleton.mp hi]
      exact Nat.mod_lt _ he

/-- The leading digit split off. -/
theorem digits_succ_cons (e : Nat) : ∀ (r m : Nat),
    digits e (r + 1) m = (m / e ^ r) % e :: digits e r m
  | 0, m => by simp [digits]
  | r + 1, m => by
    have hdiv : m / e / e ^ r = m / e ^ (r + 1) := by rw [Nat.div_div_eq_div_mul, pow_succ']
    calc digits e (r + 2) m = digits e (r + 1) (m / e) ++ [m % e] := rfl
      _ = (m / e / e ^ r) % e :: (digits e r (m / e) ++ [m % e]) := by
        rw [digits_succ_cons e r]; rfl
      _ = (m / e ^ (r + 1)) % e :: digits e (r + 1) m := by rw [hdiv]; rfl

/-- Numbers below `e ^ r` are told apart by their `r` digits. -/
theorem digits_inj {e : Nat} : ∀ {r m n : Nat}, m < e ^ r → n < e ^ r →
    digits e r m = digits e r n → m = n
  | 0, m, n, hm, hn, _ => by simp at hm hn; omega
  | r + 1, m, n, hm, hn, h => by
    obtain ⟨hpre, hlast⟩ := List.append_inj' h rfl
    have hmod : m % e = n % e := by simpa using hlast
    have hm' : m / e < e ^ r := Nat.div_lt_of_lt_mul (by rwa [← pow_succ'])
    have hn' : n / e < e ^ r := Nat.div_lt_of_lt_mul (by rwa [← pow_succ'])
    have hdiv : m / e = n / e := digits_inj hm' hn' hpre
    rw [← Nat.div_add_mod m e, ← Nat.div_add_mod n e, hmod, hdiv]

/-- **The two orders agree**: following a page digit by digit ends at entry `page % e` of the
`page / e`-th last-level table. -/
theorem followPage_eq_frameAt (e : Nat) : ∀ (r : Nat) (t : PageTable) (page : Nat),
    PageTable.followPage e r t page = t.frameAt (digits e r (page / e)) (page % e)
  | 0, .lastLevel id fs, page => by
    simp [PageTable.followPage, PageTable.frameAt, PageTable.tableAt, digits]
  | 0, .inner id ts, page => by
    simp [PageTable.followPage, PageTable.frameAt, PageTable.tableAt, digits]
  | r + 1, .lastLevel id fs, page => by
    simp [PageTable.followPage, PageTable.frameAt, PageTable.tableAt, digits_succ_cons]
  | r + 1, .inner id ts, page => by
    have hdiv : page / e / e ^ r = page / e ^ (r + 1) := by rw [Nat.div_div_eq_div_mul, pow_succ']
    rw [PageTable.followPage, digits_succ_cons, hdiv]
    cases ht : ts[(page / e ^ (r + 1)) % e]? with
    | none => simp [PageTable.frameAt, PageTable.tableAt, ht]
    | some t =>
      simpa [PageTable.frameAt, PageTable.tableAt, ht] using followPage_eq_frameAt e r t page

/-- The paths of one level, in the order of the pages below them. -/
def levelPaths (e k : Nat) : List (List Nat) := (List.range (e ^ k)).map (digits e k)

/-- The paths of the next level, in breadth-first order. -/
theorem levelPaths_succ (e k : Nat) :
    levelPaths e (k + 1) = (levelPaths e k).flatMap fun p => (List.range e).map fun i => p ++ [i] := by
  have hblock : ∀ n : Nat, (List.range (n * e)).map (digits e (k + 1))
      = (List.range n).flatMap fun m => (List.range e).map fun i => digits e k m ++ [i] := by
    intro n
    induction n with
    | zero => simp
    | succ n ih =>
      rw [Nat.succ_mul, List.range_add, List.map_append, ih, List.range_succ,
        List.flatMap_append, List.flatMap_singleton, List.map_map]
      congr 1
      refine List.map_congr_left fun i hi => ?_
      have hi' : i < e := List.mem_range.mp hi
      have hd : (n * e + i) / e = n := by
        rw [Nat.mul_comm, Nat.mul_add_div (by omega), Nat.div_eq_of_lt hi', Nat.add_zero]
      have hm : (n * e + i) % e = i := by
        rw [Nat.mul_comm, Nat.mul_add_mod, Nat.mod_eq_of_lt hi']
      simp [digits, hd, hm]
  rw [levelPaths, pow_succ, hblock, levelPaths, List.flatMap_map]

/-! ## 6. The breadth-first loop -/

section Collect

variable {cfg : Config} {root : PageTable} (maxSize : Int)

/-- Queue items of one level. -/
def levelItems (k : Nat) (ps : List (List Nat)) : List QueueItem := ps.map fun p => ⟨p, k⟩

/-- The loop over a stretch of the queue above the last level: every item is replaced, at the end
of the queue, by its next tables. -/
theorem collectLoop_level {k : Nat} (hk : k ≠ cfg.lastLevel) :
    ∀ (ps : List (List Nat)) (fuel : Nat) (rest : List QueueItem) (res : List (List Nat)),
      (∀ p ∈ ps, nextItems root ⟨p, k⟩
        = (List.range cfg.entradasPorTabla).map fun i => ⟨p ++ [i], k + 1⟩) →
      collectLoop cfg root maxSize (ps.length + fuel) (levelItems k ps ++ rest) res
        = collectLoop cfg root maxSize fuel (rest ++ levelItems (k + 1)
            (ps.flatMap fun p => (List.range cfg.entradasPorTabla).map fun i => p ++ [i])) res
  | [], fuel, rest, res, _ => by simp [levelItems]
  | p :: ps, fuel, rest, res, h => by
    have hfuel : (p :: ps).length + fuel = ps.length + fuel + 1 := by simp; omega
    rw [hfuel]
    simp only [levelItems, List.map_cons, List.cons_append, collectLoop, if_neg hk]
    rw [h p List.mem_cons_self, List.append_assoc]
    have ih := collectLoop_level hk ps fuel
      (rest ++ (List.range cfg.entradasPorTabla).map fun i => ⟨p ++ [i], k + 1⟩) res
      (fun q hq => h q (List.mem_cons_of_mem _ hq))
    rw [levelItems] at ih
    rw [ih]
    simp [levelItems, List.map_flatMap, List.append_assoc, Function.comp_def]

/-- The loop over the items of the last level: they go to the result while there is room. -/
theorem collectLoop_last : ∀ (ps : List (List Nat)) (res : List (List Nat)),
    collectLoop cfg root maxSize ps.length (levelItems cfg.lastLevel ps) res
      = res ++ ps.take (maxSize.toNat - res.length)
  | [], res => by simp [levelItems, collectLoop]
  | p :: ps, res => by
    have ih := collectLoop_last ps
    simp only [levelItems] at ih
    simp only [levelItems, List.map_cons, List.length_cons, collectLoop, if_true]
    by_cases hroom : (res.length : Int) < maxSize
    · have hsub : maxSize.toNat - res.length = maxSize.toNat - (res.length + 1) + 1 := by omega
      rw [if_pos hroom, ih, hsub, List.take_succ_cons]
      simp
    · have hsub : maxSize.toNat - res.length = 0 := by omega
      rw [if_neg hroom, ih, hsub]
      simp

/-- In a complete tree the items pushed for a path above the last level are those of all `e`
indices. -/
theorem nextItems_complete {e k m : Nat} {p : List Nat} (hlen : p.length = k)
    (h : PageTable.Complete e (k + (m + 1)) root) (hp : ∀ i ∈ p, i < e) :
    nextItems root ⟨p, k⟩ = (List.range e).map fun i => ⟨p ++ [i], k + 1⟩ := by
  obtain ⟨t, ht, hc⟩ := PageTable.Complete.tableAt (m := m + 1) (hlen ▸ h) hp
  cases t with
  | lastLevel id fs => simp [PageTable.Complete] at hc
  | inner id ts => simp [nextItems, ht, hc.1]

/-- From the paths of level `k` the loop runs down to the last level, `d` levels below. -/
theorem collectLoop_levels (hroot : PageTable.Complete cfg.entradasPorTabla cfg.lastLevel root) :
    ∀ (d k : Nat), k + d = cfg.lastLevel →
      collectLoop cfg root maxSize (cfg.entradasPorTabla ^ k * tableCount cfg.entradasPorTabla (d + 1))
          (levelItems k (levelPaths cfg.entradasPorTabla k)) []
        = (levelPaths cfg.entradasPorTabla cfg.lastLevel).take maxSize.toNat
  | 0, k, hk => by
    have hk' : k = cfg.lastLevel := by omega
    have hlen : cfg.entradasPorTabla ^ k * tableCount cfg.entradasPorTabla 1
        = (levelPaths cfg.entradasPorTabla k).length := by simp [tableCount, levelPaths]
    rw [hlen, hk', collectLoop_last]
    simp
  | d + 1, k, hk => by
    have hne : k ≠ cfg.lastLevel := by omega
    have hfuel : cfg.entradasPorTabla ^ k * tableCount cfg.entradasPorTabla (d + 2)
        = (levelPaths cfg.entradasPorTabla k).length
          + cfg.entradasPorTabla ^ (k + 1) * tableCount cfg.entradasPorTabla (d + 1) := by
      simp only [tableCount, levelPaths, List.length_map, List.length_range]
      ring
    have hnext : ∀ p ∈ levelPaths cfg.entradasPorTabla k, nextItems root ⟨p, k⟩
        = (List.range cfg.entradasPorTabla).map fun i => ⟨p ++ [i], k + 1⟩ := by
      intro p hp
      obtain ⟨m, hm, rfl⟩ := List.mem_map.mp hp
      have hpos : 0 < cfg.entradasPorTabla ∨ k = 0 := by
        rcases Nat.eq_zero_or_pos cfg.entradasPorTabla with h0 | h0
        · right
          by_contra hk0
          rw [h0, zero_pow hk0] at hm
          simp at hm
        · exact Or.inl h0
      refine nextItems_complete (m := d) (length_digits _ _ _) (by rwa [hk]) ?_
      rcases hpos with h0 | rfl
      · exact digits_lt h0 _ _
      · simp [digits]
    have hstep := collectLoop_level maxSize hne (levelPaths cfg.entradasPorTabla k)
      (cfg.entradasPorTabla ^ (k + 1) * tableCount cfg.entradasPorTabla (d + 1)) [] [] hnext
    rw [hfuel]
    rw [List.append_nil, List.nil_append, ← levelPaths_succ] at hstep
    rw [hstep]
    exact collectLoop_levels hroot d (k + 1) (by omega)

/-- **The breadth-first loop is right**: on a complete tree it returns the paths of the last-level
tables in the order of their pages, as many as the result array holds. -/
theorem collectLastLevelTables_complete
    (hroot : PageTable.Complete cfg.entradasPorTabla cfg.lastLevel root) :
    collectLastLevelTables cfg root maxSize
      = (levelPaths cfg.entradasPorTabla cfg.lastLevel).take maxSize.toNat := by
  have hniv : cfg.cantidadNiveles = cfg.lastLevel + 1 := by
    have := cfg.cantidadNiveles_pos
    unfold Config.lastLevel
    omega
  have h := collectLoop_levels maxSize hroot cfg.lastLevel 0 (by omega)
  rw [pow_zero, one_mul] at h
  rw [collectLastLevelTables, hniv, ← h]
  rfl

end Collect

/-! ## 7. The two loops that write the frames -/

section Assign

variable {e r n : Nat} {frames : List Nat}

/-- **The invariant of both loops.**  After the first `m` entries of the last level have been
passed, `frame_index` is `m`, or `n` once all frames are written, and page `k < frame_index` holds
its frame. -/
structure Assigned (e r n : Nat) (frames : List Nat) (m : Nat) (s : PageTable × Nat) : Prop where
  index : s.2 = min m n
  complete : PageTable.Complete e r s.1
  written : ∀ k < s.2, ∀ f, frames[k]? = some f →
    s.1.frameAt (digits e r (k / e)) (k % e) = some (f : Int)

/-- The invariant does not move once all frames are written. -/
theorem Assigned.of_le {m m' : Nat} {s : PageTable × Nat} (h : Assigned e r n frames m s)
    (hn : n ≤ s.2) (hm : m ≤ m') : Assigned e r n frames m' s := by
  refine ⟨?_, h.complete, h.written⟩
  have := h.index
  omega

/-- One store: entry `j` of table `a` is the entry of page `a * e + j`, and no earlier page shares
it. -/
theorem Assigned.store {a j f : Nat} {t : PageTable} (h : Assigned e r n frames (a * e + j) (t, a * e + j))
    (ha : a < e ^ r) (hj : j < e) (hn : a * e + j < n) (hf : frames[a * e + j]? = some f) :
    Assigned e r n frames (a * e + (j + 1)) (t.setFrame (digits e r a) j f, a * e + j + 1) := by
  have hpath : ∀ i ∈ digits e r a, i < e := digits_lt (by omega) r a
  have hc : PageTable.Complete e (digits e r a).length t := by simpa using h.complete
  obtain ⟨x, hx⟩ := (hc.frameAt hpath).2 j hj
  have hdiv : (a * e + j) / e = a := by
    rw [Nat.mul_comm, Nat.mul_add_div (by omega), Nat.div_eq_of_lt hj, Nat.add_zero]
  have hmod : (a * e + j) % e = j := by rw [Nat.mul_comm, Nat.mul_add_mod, Nat.mod_eq_of_lt hj]
  refine ⟨by simp only; omega, PageTable.complete_setFrame _ h.complete, ?_⟩
  intro k hk g hg
  by_cases hkm : k = a * e + j
  · subst hkm
    rw [hf] at hg
    rw [hdiv, hmod, ← Option.some.inj hg]
    exact PageTable.frameAt_setFrame_self hx
  · have hlt : k < a * e + j := by simp only at hk; omega
    rw [PageTable.frameAt_setFrame_of_ne]
    · exact h.written k hlt g hg
    · intro hc
      obtain ⟨hp, hj'⟩ := Prod.mk.inj hc
      have hka : k / e ≤ a := by
        have := Nat.div_le_div_right (c := e) hlt.le
        omega
      have hak : a = k / e := digits_inj ha (lt_of_le_of_lt hka ha) hp
      have := Nat.div_add_mod k e
      rw [← hak, ← hj', Nat.mul_comm] at this
      omega

/-- The inner loop carries the invariant from entry `j` to the end of table `a`. -/
theorem assignEntries_assigned {a : Nat} (hlen : frames.length = n) (ha : a < e ^ r) :
    ∀ (cnt j : Nat) (t : PageTable) (fi : Nat), j + cnt = e →
      Assigned e r n frames (a * e + j) (t, fi) →
      Assigned e r n frames (a * e + e) (assignEntries frames n (digits e r a) cnt j t fi)
  | 0, j, t, fi, hj, h => by
    rw [assignEntries]
    have : j = e := by omega
    rwa [this] at h
  | cnt + 1, j, t, fi, hj, h => by
    rw [assignEntries]
    by_cases hfi : (fi : Int) < n
    · have hidx : fi = a * e + j := by
        have := h.index
        simp only at this
        omega
      subst hidx
      have hlt : a * e + j < frames.length := by omega
      rw [if_pos hfi, List.getElem?_eq_getElem hlt]
      exact assignEntries_assigned hlen ha cnt (j + 1) _ _ (by omega)
        (h.store ha (by omega) (by omega) (List.getElem?_eq_getElem hlt))
    · rw [if_neg hfi]
      exact h.of_le (by simp only; omega) (by omega)

/-- The outer loop carries the invariant from table `a` over the next `cnt` tables. -/
theorem assignTables_assigned (hlen : frames.length = n) :
    ∀ (cnt a : Nat) (t : PageTable) (fi : Nat), a + cnt ≤ e ^ r →
      Assigned e r n frames (a * e) (t, fi) →
      Assigned e r n frames ((a + cnt) * e)
        (assignTables frames n ((List.range' a cnt).map (digits e r)) t fi)
  | 0, a, t, fi, _, h => by simpa [assignTables] using h
  | cnt + 1, a, t, fi, hle, h => by
    rw [List.range'_succ, List.map_cons, assignTables]
    by_cases hfi : (fi : Int) < n
    · rw [if_pos hfi]
      have hentries : t.numEntries (digits e r a) = e := by
        rcases Nat.eq_zero_or_pos e with he | he
        · -- no entries: `a < 0 ^ r` leaves only the root
          subst he
          have hr : r = 0 := by
            by_contra hr
            rw [zero_pow hr] at hle
            omega
          subst hr
          have hc : PageTable.Complete 0 ([] : List Nat).length t := h.complete
          exact (hc.frameAt (by simp)).1
        · have hc : PageTable.Complete e (digits e r a).length t := by simpa using h.complete
          exact (hc.frameAt (digits_lt he r a)).1
      have hin := assignEntries_assigned hlen (by omega : a < e ^ r) e 0 t fi (by omega)
        (by simpa using h)
      have hsucc : a * e + e = (a + 1) * e := by ring
      have hcnt : a + (cnt + 1) = a + 1 + cnt := by omega
      rw [hentries, hcnt]
      exact assignTables_assigned hlen cnt (a + 1) _ _ (by omega) (by rwa [hsucc] at hin)
    · rw [if_neg hfi]
      refine h.of_le (by simp only; omega) ?_
      exact Nat.mul_le_mul (by omega) (Nat.le_refl e)

end Assign

/-- A successful `assign_frames` on a complete tree ends with the invariant, and with all frames
written. -/
theorem assigned_of_assignFrames {cfg : Config} {root t : PageTable} {frames : List Nat}
    (hroot : PageTable.Complete cfg.entradasPorTabla cfg.lastLevel root)
    (hpos : 0 < frames.length) (h : assignFrames cfg root frames frames.length = (t, true)) :
    ∃ m ≤ cfg.entradasPorTabla ^ cfg.lastLevel,
      Assigned cfg.entradasPorTabla cfg.lastLevel frames.length frames (m * cfg.entradasPorTabla)
        (t, frames.length) := by
  unfold assignFrames at h
  rw [if_neg (by omega)] at h
  simp only [collectLastLevelTables_complete _ hroot] at h
  have htake : ∀ m : Nat, (levelPaths cfg.entradasPorTabla cfg.lastLevel).take m
      = (List.range' 0 (min m (cfg.entradasPorTabla ^ cfg.lastLevel))).map
          (digits cfg.entradasPorTabla cfg.lastLevel) := by
    intro m
    rw [levelPaths, ← List.map_take, List.take_range, List.range_eq_range']
  rw [htake] at h
  have hstart : Assigned cfg.entradasPorTabla cfg.lastLevel frames.length frames
      (0 * cfg.entradasPorTabla) (root, 0) := ⟨by simp, hroot, by simp⟩
  have hend := assignTables_assigned rfl
    (min (doubleToInt (cfg.entradasPorTabla ^ cfg.lastLevel)).toNat
      (cfg.entradasPorTabla ^ cfg.lastLevel)) 0 root 0 (by omega) hstart
  obtain ⟨ht, hdone⟩ := Prod.mk.inj h
  have hall := of_decide_eq_true hdone
  refine ⟨min (doubleToInt (cfg.entradasPorTabla ^ cfg.lastLevel)).toNat
    (cfg.entradasPorTabla ^ cfg.lastLevel), Nat.min_le_right _ _, ?_⟩
  rw [Nat.zero_add] at hend
  convert hend using 1
  exact Prod.ext ht.symm (by exact_mod_cast hall.symm)

/-- **`assign_frames` writes every page its frame.**  When it succeeds on a complete tree, the
last-level entry of page `i` holds the `i`-th frame of the list. -/
theorem followPage_assignFrames {cfg : Config} {root t : PageTable} {frames : List Nat}
    (hroot : PageTable.Complete cfg.entradasPorTabla cfg.lastLevel root)
    (h : assignFrames cfg root frames frames.length = (t, true)) {i f : Nat}
    (hf : frames[i]? = some f) :
    PageTable.followPage cfg.entradasPorTabla cfg.lastLevel t i = some (f : Int) := by
  have hi : i < frames.length := (List.getElem?_eq_some_iff.mp hf).1
  obtain ⟨m, -, hend⟩ := assigned_of_assignFrames hroot (by omega) h
  rw [followPage_eq_frameAt]
  exact hend.written i hi f hf

/-- A tree has one last-level entry for each frame that was assigned. -/
theorem length_le_of_assignFrames {cfg : Config} {root t : PageTable} {frames : List Nat}
    (hroot : PageTable.Complete cfg.entradasPorTabla cfg.lastLevel root) (hpos : 0 < frames.length)
    (h : assignFrames cfg root frames frames.length = (t, true)) :
    frames.length ≤ cfg.entradasPorTabla ^ (cfg.lastLevel + 1) := by
  obtain ⟨m, hm, hend⟩ := assigned_of_assignFrames hroot hpos h
  have hindex : frames.length = min (m * cfg.entradasPorTabla) frames.length := hend.index
  have hle := Nat.mul_le_mul_right cfg.entradasPorTabla hm
  rw [pow_succ]
  omega

/-- A successful `assign_frames` was asked for at least one page. -/
theorem pos_of_assignFrames {cfg : Config} {root t : PageTable} {frames : List Nat} {n : Int}
    (h : assignFrames cfg root frames n = (t, true)) : 0 < n := by
  unfold assignFrames at h
  split at h
  · simp at h
  · omega

end Tpso.Memoria
