/-
# Is every GET_PAGE_ENTRY answered?

`handle_page_walk_request` looks for the process, then for the table, then for the entry, and answers
with INVALID_FRAME_NUMBER as soon as one of them is missing.  What it does not look at is whether the
process has a page table at all: `create_process` leaves the pointer of a process of size 0 as `malloc`
gave it, and the handler follows it.

Here the handler is written out down to the responses it sends and the places where it reads a table
(`servePageWalk`), and memoria is run with every request that changes a record, those that only count
included.

* `answered_iff`: in every reachable state, exactly when a request is answered safely;
* `not_answered`: the request about a process of size 0.
-/
import Tpso.Memoria.PageWalk

namespace Tpso.Memoria

open Tpso.Lib

/-! ## 1. The handler and its responses -/

/-- `send_page_entry_response_package(client_socket, value, flag)`. -/
structure PageEntryResponse where
  value : Int
  flag : Int

namespace PageTable

/-- `num_entries`. -/
def entryCount : PageTable → Nat
  | .lastLevel _ fs => fs.length
  | .inner _ ts => ts.length

/-- `is_last_level` of the entries of the table. -/
def isLastLevel : PageTable → Bool
  | .lastLevel _ _ => true
  | .inner _ _ => false

end PageTable

/-- `handle_page_walk_request`: the state afterwards and the responses sent.  The page table of the
record is followed as it is, and `list_get` has no result outside the list. -/
def servePageWalk (s : State) (pid tableId entryIndex : Int) :
    Option (State × List PageEntryResponse) :=
  match processManagerFindProcess s.processes pid with
  | none => some (s, [⟨invalidFrameNumber, 1⟩])
  | some process =>
    let s' := { s with processes := updateProcess countAccess pid s.processes }
    match process.pageTable with
    | .null => none
    | .wild => none
    | .obj root =>
      match if root.tableId = tableId then some root else findTableById tableId root with
      | none => some (s', [⟨invalidFrameNumber, 1⟩])
      | some targetTable =>
        -- `entry_index` is compared with a `size_t`, so a negative one is too large
        if entryIndex < 0 ∨ (targetTable.entryCount : Int) ≤ entryIndex then
          some (s', [⟨invalidFrameNumber, 1⟩])
        else
          (targetTable.entryValue entryIndex.toNat).map fun value =>
            (s', [⟨value, if targetTable.isLastLevel then 0 else 1⟩])

/-- A table holds as many entries as it says. -/
theorem PageTable.entryValue_isSome {t : PageTable} {i : Nat} :
    (t.entryValue i).isSome = true ↔ i < t.entryCount := by
  cases t with
  | lastLevel id fs => simp [PageTable.entryValue, PageTable.entryCount]
  | inner id ts => simp [PageTable.entryValue, PageTable.entryCount]

/-- The search starts at the root. -/
theorem findTableById_root {root : PageTable} {tableId : Int} :
    (if root.tableId = tableId then some root else findTableById tableId root) =
      findTableById tableId root := by
  split
  · rename_i hid
    cases root with
    | lastLevel id fs => exact (if_pos hid).symm
    | inner id ts => exact (if_pos hid).symm
  · rfl

/-- **The handler sends one response**, with the value that `handlePageWalkRequest` gives. -/
theorem servePageWalk_eq (s : State) (pid tableId entryIndex : Int) :
    (servePageWalk s pid tableId entryIndex).map (fun r => (r.1, r.2.map PageEntryResponse.value)) =
      (handlePageWalkRequest s pid tableId entryIndex).map fun r => (r.1, [r.2]) := by
  unfold servePageWalk handlePageWalkRequest
  cases hfind : processManagerFindProcess s.processes pid with
  | none => simp
  | some p =>
    cases htable : p.pageTable with
    | null => simp [htable]
    | wild => simp [htable]
    | obj root =>
      simp only [htable, findTableById_root, pageEntryValue, Option.map_some]
      cases hid : findTableById tableId root with
      | none => simp
      | some t =>
        simp only
        by_cases hneg : entryIndex < 0
        · simp [hneg]
        · by_cases hover : (t.entryCount : Int) ≤ entryIndex
          · have hnone : t.entryValue entryIndex.toNat = none := by
              rw [← Option.not_isSome_iff_eq_none, PageTable.entryValue_isSome]
              omega
            simp [hneg, hover, hnone]
          · have hsome : (t.entryValue entryIndex.toNat).isSome = true :=
              PageTable.entryValue_isSome.mpr (by omega)
            obtain ⟨v, hv⟩ := Option.isSome_iff_exists.mp hsome
            simp [hneg, hover, hv]

/-! ## 2. memoria with all its requests -/

/-- `instruction_requests_count++`. -/
def countInstruction (p : ProcessInfo) : ProcessInfo :=
  { p with metrics := { p.metrics with
      instructionRequestsCount := p.metrics.instructionRequestsCount + 1 } }

/-- The requests that change a record: those of `handle`, and the two that count. -/
inductive AnyRequest where
  | change (r : Request)
  | getPageEntry (pid tableId entryIndex : Int)
  | fetch (pid : Int)

/-- The state after a request is served. -/
def serve (cfg : Config) (s : State) : AnyRequest → Option State
  | .change r => (handle cfg s r).map Prod.fst
  | .getPageEntry pid tableId entryIndex => (servePageWalk s pid tableId entryIndex).map Prod.fst
  | .fetch pid => some { s with processes := updateProcess countInstruction pid s.processes }

/-- memoria from start-up, one request of any kind after another. -/
def clientHandler (cfg : Config) : Lts State AnyRequest :=
  Lts.ofStep (State.start cfg) (serve cfg)

/-- **The invariant**: exactly the processes with a size have a page table. -/
def TabledBySize (s : State) : Prop :=
  ∀ p ∈ s.processes, p.processSize ≠ 0 ↔ ∃ t, p.pageTable = .obj t

/-- A store that leaves sizes and tables alone keeps it. -/
theorem TabledBySize.update {s : State} {f : ProcessInfo → ProcessInfo} {pid : Int}
    (hs : TabledBySize s) (hsize : ∀ p, (f p).processSize = p.processSize)
    (htable : ∀ p, (f p).pageTable = p.pageTable) :
    TabledBySize { s with processes := updateProcess f pid s.processes } := by
  intro p' hp'
  obtain ⟨p, hp, rfl | rfl⟩ := mem_updateProcess hp'
  · exact hs p' hp
  · rw [hsize, htable]
    exact hs p hp

theorem tabledBySize_handle {cfg : Config} {s s' : State} {r : Request} {reply : Reply}
    (hs : TabledBySize s) (h : handle cfg s r = some (s', reply)) : TabledBySize s' := by
  intro p' hp'
  rcases handle_records h p' hp' with hold |
    ⟨pid, size, fs, t, ins, rfl, -, hassign, -⟩ | ⟨hzero, -, hnone⟩ | ⟨p, hp, b, rfl, -⟩ |
    ⟨p, hp, fs, slots, -, -, -, rfl⟩ |
    ⟨p, slots, userFrames, frames, pid, avail, m, -, hfind, -, -, -, -, -, rfl⟩
  · exact hs p' hold
  · exact ⟨fun _ => ⟨t, rfl⟩, fun _ => (size_pos_of_assign hassign).ne'⟩
  · exact ⟨fun hsize => absurd hzero hsize, fun ⟨t, ht⟩ => absurd ht (hnone t)⟩
  · exact hs p hp
  · exact hs p hp
  · exact hs p (mem_of_find hfind)

/-- A page walk counts, whatever it answers. -/
theorem servePageWalk_state {s s' : State} {pid tableId entryIndex : Int}
    {sent : List PageEntryResponse} (h : servePageWalk s pid tableId entryIndex = some (s', sent)) :
    s' = s ∨ s' = { s with processes := updateProcess countAccess pid s.processes } := by
  have heq := servePageWalk_eq s pid tableId entryIndex
  rw [h, Option.map_some] at heq
  unfold handlePageWalkRequest at heq
  split at heq
  · simp only [Option.map_some, Option.some.injEq, Prod.mk.injEq] at heq
    exact .inl heq.1
  · split at heq
    · simp only [Option.map_some, Option.some.injEq, Prod.mk.injEq] at heq
      exact .inr heq.1
    · exact absurd heq (by simp)

theorem tabledBySize_step {cfg : Config} {s s' : State} {r : AnyRequest} (hs : TabledBySize s)
    (h : serve cfg s r = some s') : TabledBySize s' := by
  cases r with
  | change r =>
    obtain ⟨⟨s1, reply⟩, hserved, rfl⟩ := Option.map_eq_some_iff.mp h
    exact tabledBySize_handle hs hserved
  | getPageEntry pid tableId entryIndex =>
    obtain ⟨⟨s1, sent⟩, hserved, rfl⟩ := Option.map_eq_some_iff.mp h
    rcases servePageWalk_state hserved with rfl | rfl
    · exact hs
    · exact hs.update (fun _ => rfl) fun _ => rfl
  | fetch pid =>
    obtain rfl := Option.some.inj h
    exact hs.update (fun _ => rfl) fun _ => rfl

/-- **In every run exactly the processes with a size have a page table.** -/
theorem tabledBySize_run {cfg : Config} {tr : List (Transition State AnyRequest)} {s : State}
    (hr : (clientHandler cfg).Run tr s) : TabledBySize s := by
  refine Lts.Run.invariant (C := fun _ _ => True) ?_ ?_ hr fun _ _ => trivial
  · rintro s rfl
    simp [TabledBySize, State.start]
  · intro s r s' hs _ hst
    exact tabledBySize_step hs hst

/-- The same for the runs without the requests that only count. -/
theorem tabledBySize_memoria {cfg : Config} {tr : List (Transition State Request)} {s : State}
    (hr : (memoria cfg).Run tr s) : TabledBySize s := by
  refine Lts.Run.invariant (C := fun _ _ => True) ?_ ?_ hr fun _ _ => trivial
  · rintro s rfl
    simp [TabledBySize, State.start]
  · intro s r s' hs _ hst
    obtain ⟨⟨s1, reply⟩, h, rfl⟩ := Option.map_eq_some_iff.mp hst
    exact tabledBySize_handle hs h

/-! ## 3. A safe answer -/

/-- The process exists, it has a table of that id, and the table has that entry. -/
def EntryExists (s : State) (pid tableId entryIndex : Int) : Prop :=
  ∃ p root t, processManagerFindProcess s.processes pid = some p ∧ p.pageTable = .obj root ∧
    t ∈ root.subtables ∧ t.tableId = tableId ∧ 0 ≤ entryIndex ∧ entryIndex < t.entryCount

/-- Nothing has changed but the page table access count of that process. -/
structure OnlyCounts (s s' : State) (pid : Int) : Prop where
  rest : s' = { s with processes := s'.processes }
  records : List.Forall₂ (fun p p' => p' = p ∨ p.pid = pid ∧ ∃ n,
    p' = { p with metrics := { p.metrics with pageTableAccessCount := n } }) s.processes s'.processes

/-- The request is answered once, with INVALID_FRAME_NUMBER when there is no such entry, and does
nothing else but count. -/
def Answered (s : State) (pid tableId entryIndex : Int) : Prop :=
  ∃ s' response, servePageWalk s pid tableId entryIndex = some (s', [response]) ∧
    (¬ EntryExists s pid tableId entryIndex → response.value = invalidFrameNumber) ∧
    OnlyCounts s s' pid

theorem onlyCounts_refl (s : State) (pid : Int) : OnlyCounts s s pid :=
  ⟨rfl, List.forall₂_same.mpr fun _ _ => .inl rfl⟩

/-- The store counts for one record at most. -/
theorem onlyCounts_update (s : State) (pid : Int) :
    OnlyCounts s { s with processes := updateProcess countAccess pid s.processes } pid := by
  refine ⟨rfl, ?_⟩
  simp only
  induction s.processes with
  | nil => exact .nil
  | cons p ps ih =>
    unfold updateProcess
    split
    · rename_i hpid
      exact .cons (.inr ⟨hpid, _, rfl⟩) (List.forall₂_same.mpr fun _ _ => .inl rfl)
    · exact .cons (.inl rfl) ih

/-- What the search finds is a table of the tree, and has the id. -/
theorem mem_of_findTableById {root t : PageTable} {tableId : Int}
    (h : findTableById tableId root = some t) : t ∈ root.subtables ∧ t.tableId = tableId := by
  rw [PageTable.findTableById_eq] at h
  exact ⟨List.mem_of_find?_eq_some h, by simpa using List.find?_some h⟩

/-- A process with a page table, or none at all, is answered. -/
theorem answered_of_table {s : State} {pid tableId entryIndex : Int}
    (h : ∀ p, processManagerFindProcess s.processes pid = some p → ∃ t, p.pageTable = .obj t) :
    Answered s pid tableId entryIndex := by
  unfold Answered servePageWalk
  cases hfind : processManagerFindProcess s.processes pid with
  | none => exact ⟨s, _, rfl, fun _ => rfl, onlyCounts_refl s pid⟩
  | some p =>
    obtain ⟨root, htable⟩ := h p hfind
    simp only [htable, findTableById_root]
    cases hid : findTableById tableId root with
    | none => exact ⟨_, _, rfl, fun _ => rfl, onlyCounts_update s pid⟩
    | some t =>
      obtain ⟨hmem, heq⟩ := mem_of_findTableById hid
      simp only
      split
      · exact ⟨_, _, rfl, fun _ => rfl, onlyCounts_update s pid⟩
      · rename_i hin
        rw [not_or, not_lt, not_le] at hin
        obtain ⟨v, hv⟩ := Option.isSome_iff_exists.mp
          (PageTable.entryValue_isSome.mpr (by omega : entryIndex.toNat < t.entryCount))
        refine ⟨_, ⟨v, _⟩, by rw [hv, Option.map_some], fun hnot => ?_, onlyCounts_update s pid⟩
        exact absurd ⟨p, root, t, hfind, htable, hmem, heq, hin.1, hin.2⟩ hnot

/-- **Exactly when a GET_PAGE_ENTRY is answered safely.**  In every state that memoria can reach by any
requests, and for every pid, table and index: the request is answered once, with INVALID_FRAME_NUMBER
when there is no such entry, nothing else is changed and no memory is read that is not a table, if and
only if the process, if there is one, does not have size 0. -/
theorem answered_iff {cfg : Config} {tr : List (Transition State AnyRequest)} {s : State}
    (hr : (clientHandler cfg).Run tr s) (pid tableId entryIndex : Int) :
    Answered s pid tableId entryIndex ↔
      ∀ p, processManagerFindProcess s.processes pid = some p → p.processSize ≠ 0 := by
  have hinv := tabledBySize_run hr
  constructor
  · rintro ⟨s', response, hserved, -, -⟩ p hfind
    rw [hinv p (mem_of_find hfind)]
    unfold servePageWalk at hserved
    rw [hfind] at hserved
    cases htable : p.pageTable with
    | obj t => exact ⟨t, rfl⟩
    | null => simp [htable] at hserved
    | wild => simp [htable] at hserved
  · intro hsize
    exact answered_of_table fun p hfind => (hinv p (mem_of_find hfind)).mp (hsize p hfind)

/-- The theorem at work on an index behind the end of a table of a process that was suspended. -/
theorem answered_iff_suspended :
    ∃ tr s, (clientHandler smallConfig).Run tr s ∧ Answered s 0 1 7 := by
  obtain ⟨tr, s, hrun, htest⟩ := Lts.exists_run_of_drive (State.start smallConfig) (serve smallConfig)
    [.change (initRequest 0 30), .fetch 0, .getPageEntry 0 1 0, .change (swapRequest 0)]
    (fun _ s => (processManagerFindProcess s.processes 0).all fun p : ProcessInfo =>
      decide (p.processSize ≠ 0)) (by decide +kernel)
  rw [Option.all_eq_true] at htest
  exact ⟨tr, s, hrun, (answered_iff hrun 0 1 7).mpr fun p hp => of_decide_eq_true (htest p hp)⟩

/-- **A process of size 0 is not.**  Its page table was never assigned. -/
theorem not_answered :
    ¬ ∀ (cfg : Config) (tr : List (Transition State AnyRequest)) (s : State)
        (pid tableId entryIndex : Int), (clientHandler cfg).Run tr s →
      Answered s pid tableId entryIndex := by
  intro hall
  obtain ⟨tr, s, hrun, htest⟩ := Lts.exists_run_of_drive (State.start smallConfig) (serve smallConfig)
    [.change (initRequest 0 0)] (fun _ s => (servePageWalk s 0 1 0).isNone) (by decide +kernel)
  obtain ⟨s', response, hserved, -⟩ := hall smallConfig tr s 0 1 0 hrun
  rw [hserved] at htest
  exact absurd htest (by simp)

end Tpso.Memoria
