/-
# What each request of memoria can do

One inversion lemma for each operation: every way it can end, with the state it leaves.  The
invariants of the later modules are case analyses over these lemmas and never unfold the
operations.
-/
import Tpso.Memoria.State

namespace Tpso.Memoria

open Tpso.Lib

/-! ## 1. The process list -/

/-- **The record a pid finds.**  The list around it, and what a store through the pointer and a
removal do to it. -/
theorem find_split {ps : List ProcessInfo} {pid : Int} {p : ProcessInfo}
    (h : processManagerFindProcess ps pid = some p) :
    ∃ l r, ps = l ++ p :: r ∧ p.pid = pid ∧ (∀ q ∈ l, q.pid ≠ pid) ∧
      (∀ f, updateProcess f pid ps = l ++ f p :: r) ∧
      ps.eraseP (fun p => decide (p.pid = pid)) = l ++ r := by
  induction ps with
  | nil => simp [processManagerFindProcess] at h
  | cons q ps ih =>
    by_cases hq : q.pid = pid
    · have hqp : q = p := by simpa [processManagerFindProcess, hq] using h
      subst hqp
      exact ⟨[], ps, rfl, hq, by simp, fun f => by simp [updateProcess, hq], by simp [hq]⟩
    · have h' : processManagerFindProcess ps pid = some p := by
        simpa [processManagerFindProcess, hq] using h
      obtain ⟨l, r, rfl, hp, hl, hupd, her⟩ := ih h'
      refine ⟨q :: l, r, rfl, hp, ?_, ?_, ?_⟩
      · intro x hx
        rcases List.mem_cons.mp hx with rfl | hx
        · exact hq
        · exact hl x hx
      · intro f
        simp [updateProcess, hq, hupd f]
      · simp [hq, her]

theorem mem_of_find {ps : List ProcessInfo} {pid : Int} {p : ProcessInfo}
    (h : processManagerFindProcess ps pid = some p) : p ∈ ps := by
  obtain ⟨l, r, rfl, -⟩ := find_split h
  simp

/-- A record of an updated list is an old one or an updated one. -/
theorem mem_updateProcess {f : ProcessInfo → ProcessInfo} {pid : Int} {p' : ProcessInfo} :
    ∀ {ps : List ProcessInfo}, p' ∈ updateProcess f pid ps → ∃ p ∈ ps, p' = p ∨ p' = f p := by
  intro ps
  induction ps with
  | nil => simp [updateProcess]
  | cons q ps ih =>
    intro hmem
    unfold updateProcess at hmem
    split at hmem
    · rcases List.mem_cons.mp hmem with rfl | hmem
      · exact ⟨q, List.mem_cons_self, .inr rfl⟩
      · exact ⟨p', List.mem_cons_of_mem q hmem, .inl rfl⟩
    · rcases List.mem_cons.mp hmem with rfl | hmem
      · exact ⟨p', List.mem_cons_self, .inl rfl⟩
      · obtain ⟨p, hp, heq⟩ := ih hmem
        exact ⟨p, List.mem_cons_of_mem q hp, heq⟩

/-! ## 2. `create_process` -/

theorem Ptr.unset_ne_obj {α : Type} {isNull : Bool} {a : α} : Ptr.unset isNull ≠ .obj a := by
  cases isNull with
  | false => simp [Ptr.unset]
  | true => simp [Ptr.unset]

/-- The ways `create_process` can end. -/
theorem createProcess_cases {cfg : Config} {s s' : State} {pid size : Int}
    {file : Option (List String)} {left : Leftover} {b : Bool}
    (h : createProcess cfg s pid size file left = some (s', b)) :
    (s' = s ∧ b = false) ∨
    (∃ fs frames, s.frames.alloc (cfg.pagesNeeded size) = some (fs, frames) ∧
      (fs.length : Int) ≠ cfg.pagesNeeded size ∧ s' = { s with frames := frames } ∧ b = false) ∨
    (∃ fs frames frames' id, s.frames.alloc (cfg.pagesNeeded size) = some (fs, frames) ∧
      frames.release fs = some frames' ∧ s' = { s with frames := frames', nextTableId := id } ∧
      b = false) ∨
    (∃ fs frames t id instructions, size ≠ 0 ∧
      s.frames.alloc (cfg.pagesNeeded size) = some (fs, frames) ∧
      (fs.length : Int) = cfg.pagesNeeded size ∧
      assignFrames cfg (initPageTable cfg s.nextTableId).1 fs (cfg.pagesNeeded size) = (t, true) ∧
      s' = { s with
        frames := frames
        nextTableId := id
        processes := s.processes ++ [freshProcess pid size instructions (.obj t) (.obj fs)] } ∧
      b = true) ∨
    (∃ instructions, size = 0 ∧
      s' = { s with processes := s.processes ++ [freshProcess pid size instructions
        (Ptr.unset left.tableIsNull) (Ptr.unset left.framesIsNull)] } ∧ b = true) := by
  unfold createProcess at h
  split at h
  · simp only [Option.some.injEq, Prod.mk.injEq] at h
    exact Or.inl ⟨h.1.symm, h.2.symm⟩
  · rename_i instructions hload
    by_cases hsize : size ≠ 0
    · rw [if_pos hsize] at h
      simp only at h
      split at h
      · simp only [Option.some.injEq, Prod.mk.injEq] at h
        exact Or.inl ⟨h.1.symm, h.2.symm⟩
      · split at h
        · simp only [Option.some.injEq, Prod.mk.injEq] at h
          exact Or.inl ⟨h.1.symm, h.2.symm⟩
        · rename_i fs frames halloc
          split at h
          · rename_i hlen
            simp only [Option.some.injEq, Prod.mk.injEq] at h
            exact Or.inr (Or.inl ⟨fs, frames, halloc, hlen, h.1.symm, h.2.symm⟩)
          · rename_i hlen
            split at h
            · obtain ⟨frames', hrel, heq⟩ := Option.map_eq_some_iff.mp h
              simp only [Prod.mk.injEq] at heq
              exact Or.inr (Or.inr (Or.inl
                ⟨fs, frames, frames', _, halloc, hrel, heq.1.symm, heq.2.symm⟩))
            · rename_i t hassign
              simp only [Option.some.injEq, Prod.mk.injEq] at h
              exact Or.inr (Or.inr (Or.inr (Or.inl ⟨fs, frames, t, _, instructions, hsize, halloc,
                not_not.mp hlen, hassign, h.1.symm, h.2.symm⟩)))
    · rw [if_neg hsize] at h
      simp only [Option.some.injEq, Prod.mk.injEq] at h
      exact Or.inr (Or.inr (Or.inr (Or.inr
        ⟨instructions, not_not.mp hsize, h.1.symm, h.2.symm⟩)))

/-! ## 3. `process_manager_delete_process` -/

/-- The ways a kill can end: no such process; a process of size 0 or with no frames, which gives
nothing back; a process whose frames are released into the user bitmap. -/
theorem deleteProcess_cases {s s' : State} {pid : Int} {b : Bool}
    (h : processManagerDeleteProcess s pid = some (s', b)) :
    (processManagerFindProcess s.processes pid = none ∧ s' = s ∧ b = false) ∨
    (∃ p, processManagerFindProcess s.processes pid = some p ∧
      (p.processSize = 0 ∨ p.allocatedFrames = .null) ∧
      s' = { s with processes := s.processes.eraseP fun p => decide (p.pid = pid) } ∧ b = true) ∨
    (∃ p fs frames, processManagerFindProcess s.processes pid = some p ∧ p.processSize ≠ 0 ∧
      p.allocatedFrames = .obj fs ∧ s.frames.release fs = some frames ∧
      s' = { s with
        frames := frames
        processes := s.processes.eraseP fun p => decide (p.pid = pid) } ∧ b = true) := by
  unfold processManagerDeleteProcess at h
  split at h
  · rename_i hfind
    simp only [Option.some.injEq, Prod.mk.injEq] at h
    exact Or.inl ⟨hfind, h.1.symm, h.2.symm⟩
  · rename_i p hfind
    split at h
    · exact absurd h (by simp)
    · rename_i s1 hdestroy
      simp only [Option.some.injEq, Prod.mk.injEq] at h
      unfold destroyProcessInfo at hdestroy
      by_cases hsize : p.processSize ≠ 0
      · rw [if_pos hsize] at hdestroy
        split at hdestroy
        · rename_i hnull
          rw [← Option.some.inj hdestroy] at h
          exact Or.inr (Or.inl ⟨p, hfind, Or.inr hnull, h.1.symm, h.2.symm⟩)
        · exact absurd hdestroy (by simp)
        · rename_i fs hfs
          obtain ⟨frames, hrel, rfl⟩ := Option.map_eq_some_iff.mp hdestroy
          exact Or.inr (Or.inr ⟨p, fs, frames, hfind, hsize, hfs, hrel, h.1.symm, h.2.symm⟩)
      · rw [if_neg hsize] at hdestroy
        rw [← Option.some.inj hdestroy] at h
        exact Or.inr (Or.inl ⟨p, hfind, Or.inl (not_not.mp hsize), h.1.symm, h.2.symm⟩)

/-! ## 4. `swap_out_process` and `swap_in_process` -/

/-- The record after a successful `swap_out_process`. -/
def suspendedWith (slots : List Nat) (p : ProcessInfo) : ProcessInfo :=
  { p with
    allocatedFrames := .obj slots
    isSuspended := true
    metrics := { p.metrics with swapOutCount := p.metrics.swapOutCount + 1 } }

/-- The record after a successful `swap_in_process`. -/
def resumedWith (userFrames : List Nat) (p : ProcessInfo) : ProcessInfo :=
  { p with
    allocatedFrames := .obj userFrames
    isSuspended := false
    metrics := { p.metrics with swapInCount := p.metrics.swapInCount + 1 } }

/-- The ways `swap_out_process` can end: nothing done; a record without frames marked; slots taken and
not used, because the free count promised more than there were; slots taken, and a page that could not
be written; the frames moved. -/
theorem swapOutProcess_exits {cfg : Config} {s s' : State} {pid : Int} {written : Nat → Nat}
    {b : Bool} (h : swapOutProcess cfg s pid written = some (s', b)) :
    (s' = s ∧ (b = true → ∃ p, processManagerFindProcess s.processes pid = some p ∧
      p.isSuspended = true)) ∨
    (∃ p, processManagerFindProcess s.processes pid = some p ∧ p.isSuspended = false ∧
      p.allocatedFrames = .null ∧
      s' = { s with
        processes := updateProcess (fun p => { p with isSuspended := true }) pid s.processes } ∧
      b = true) ∨
    (∃ p fs slots swapFrames, processManagerFindProcess s.processes pid = some p ∧
      p.isSuspended = false ∧ p.allocatedFrames = .obj fs ∧
      s.swapFrames.alloc fs.length = some (slots, swapFrames) ∧ slots.length < fs.length ∧
      s' = { s with swapFrames := swapFrames } ∧ b = false) ∨
    (∃ p fs slots swapFrames file, processManagerFindProcess s.processes pid = some p ∧
      p.isSuspended = false ∧ p.allocatedFrames = .obj fs ∧
      s.swapFrames.alloc fs.length = some (slots, swapFrames) ∧ fs.length ≤ slots.length ∧
      swapOutLoop cfg s.userSpace written 0 (fs.zip slots) s.swapFile = some (file, false) ∧
      s' = { s with swapFrames := swapFrames, swapFile := file } ∧ b = false) ∨
    (∃ p fs slots frames swapFrames file, processManagerFindProcess s.processes pid = some p ∧
      p.isSuspended = false ∧ p.allocatedFrames = .obj fs ∧
      s.swapFrames.alloc fs.length = some (slots, swapFrames) ∧ fs.length ≤ slots.length ∧
      swapOutLoop cfg s.userSpace written 0 (fs.zip slots) s.swapFile = some (file, true) ∧
      s.frames.release fs = some frames ∧
      s' = { s with
        frames := frames
        swapFrames := swapFrames
        swapFile := file
        processes := updateProcess (suspendedWith slots) pid s.processes } ∧ b = true) := by
  unfold swapOutProcess at h
  split at h
  · simp only [Option.some.injEq, Prod.mk.injEq] at h
    exact Or.inl ⟨h.1.symm, fun hb => absurd (h.2.trans hb) (by simp)⟩
  · rename_i p hfind
    split at h
    · rename_i hsusp
      simp only [Option.some.injEq, Prod.mk.injEq] at h
      exact Or.inl ⟨h.1.symm, fun _ => ⟨p, hfind, hsusp⟩⟩
    · rename_i hsusp
      have hres : p.isSuspended = false := by simpa using hsusp
      split at h
      · rename_i hnull
        simp only [Option.some.injEq, Prod.mk.injEq] at h
        exact Or.inr (Or.inl ⟨p, hfind, hres, hnull, h.1.symm, h.2.symm⟩)
      · exact absurd h (by simp)
      · rename_i fs hfs
        split at h
        · simp only [Option.some.injEq, Prod.mk.injEq] at h
          exact Or.inl ⟨h.1.symm, fun hb => absurd (h.2.trans hb) (by simp)⟩
        · rename_i slots swapFrames halloc
          split at h
          · rename_i hshort
            simp only [Option.some.injEq, Prod.mk.injEq] at h
            exact Or.inr (Or.inr (Or.inl
              ⟨p, fs, slots, swapFrames, hfind, hres, hfs, halloc, hshort, h.1.symm, h.2.symm⟩))
          · rename_i hlen
            split at h
            · exact absurd h (by simp)
            · rename_i file hloop
              simp only [Option.some.injEq, Prod.mk.injEq] at h
              exact Or.inr (Or.inr (Or.inr (Or.inl ⟨p, fs, slots, swapFrames, file, hfind, hres, hfs,
                halloc, not_lt.mp hlen, hloop, h.1.symm, h.2.symm⟩)))
            · rename_i file hloop
              obtain ⟨frames, hrel, heq⟩ := Option.map_eq_some_iff.mp h
              simp only [Prod.mk.injEq] at heq
              exact Or.inr (Or.inr (Or.inr (Or.inr ⟨p, fs, slots, frames, swapFrames, file, hfind,
                hres, hfs, halloc, not_lt.mp hlen, hloop, hrel, heq.1.symm, heq.2.symm⟩)))

/-- The ends of `swap_out_process` for those who do not look at the swap space: nothing but the swap
space touched; a record without frames marked; the frames moved. -/
theorem swapOutProcess_cases {cfg : Config} {s s' : State} {pid : Int} {written : Nat → Nat}
    {b : Bool} (h : swapOutProcess cfg s pid written = some (s', b)) :
    ((∃ swapFrames file, s' = { s with swapFrames := swapFrames, swapFile := file }) ∧
      (b = true → ∃ p, processManagerFindProcess s.processes pid = some p ∧ p.isSuspended = true)) ∨
    (∃ p, processManagerFindProcess s.processes pid = some p ∧ p.isSuspended = false ∧
      p.allocatedFrames = .null ∧
      s' = { s with
        processes := updateProcess (fun p => { p with isSuspended := true }) pid s.processes } ∧
      b = true) ∨
    (∃ p fs slots frames swapFrames file, processManagerFindProcess s.processes pid = some p ∧
      p.isSuspended = false ∧ p.allocatedFrames = .obj fs ∧
      s.swapFrames.alloc fs.length = some (slots, swapFrames) ∧ fs.length ≤ slots.length ∧
      s.frames.release fs = some frames ∧
      s' = { s with
        frames := frames
        swapFrames := swapFrames
        swapFile := file
        processes := updateProcess (suspendedWith slots) pid s.processes } ∧ b = true) := by
  rcases swapOutProcess_exits h with ⟨rfl, hb⟩ | hnull |
    ⟨p, fs, slots, swapFrames, -, -, -, -, -, rfl, rfl⟩ |
    ⟨p, fs, slots, swapFrames, file, -, -, -, -, -, -, rfl, rfl⟩ |
    ⟨p, fs, slots, frames, swapFrames, file, hfind, hres, hfs, halloc, hlen, -, hrest⟩
  · exact Or.inl ⟨⟨s'.swapFrames, s'.swapFile, rfl⟩, hb⟩
  · exact Or.inr (Or.inl hnull)
  · exact Or.inl ⟨⟨swapFrames, s.swapFile, rfl⟩, by simp⟩
  · exact Or.inl ⟨⟨swapFrames, file, rfl⟩, by simp⟩
  · exact Or.inr (Or.inr ⟨p, fs, slots, frames, swapFrames, file, hfind, hres, hfs, halloc, hlen,
      hrest⟩)

/-- The ways `swap_in_process` can end: nothing done; a record without slots marked; frames taken and
not used, because the free count promised more than there were; frames taken and given back after a
failed read; the process moved back. -/
theorem swapInProcess_cases {cfg : Config} {s s' : State} {pid : Int} {avail : Nat → Nat} {b : Bool}
    (h : swapInProcess cfg s pid avail = some (s', b)) :
    (s' = s ∧ ((processManagerFindProcess s.processes pid = none ∧ b = false) ∨
      ∃ p, processManagerFindProcess s.processes pid = some p ∧
        ((p.isSuspended = false ∧ b = true) ∨ (p.isSuspended = true ∧ b = false ∧
          ∃ slots, p.allocatedFrames = .obj slots ∧ s.frames.alloc slots.length = none)))) ∨
    (∃ p, processManagerFindProcess s.processes pid = some p ∧ p.isSuspended = true ∧
      (p.allocatedFrames = .null ∨ p.allocatedFrames = .obj []) ∧
      s' = { s with
        processes := updateProcess (fun p => { p with isSuspended := false }) pid s.processes } ∧
      b = true) ∨
    (∃ p slots userFrames frames, processManagerFindProcess s.processes pid = some p ∧
      p.allocatedFrames = .obj slots ∧ s.frames.alloc slots.length = some (userFrames, frames) ∧
      userFrames.length < slots.length ∧ s' = { s with frames := frames } ∧ b = false) ∨
    (∃ p slots userFrames frames frames' m,
      processManagerFindProcess s.processes pid = some p ∧ p.allocatedFrames = .obj slots ∧
      s.frames.alloc slots.length = some (userFrames, frames) ∧
      swapInLoop cfg s.swapFile avail 0 (slots.zip userFrames) s.userSpace = some (m, false) ∧
      frames.release userFrames = some frames' ∧
      s' = { s with frames := frames', userSpace := m } ∧ b = false) ∨
    (∃ p slots userFrames frames swapFrames m,
      processManagerFindProcess s.processes pid = some p ∧ p.isSuspended = true ∧
      p.allocatedFrames = .obj slots ∧ slots ≠ [] ∧
      s.frames.alloc slots.length = some (userFrames, frames) ∧
      slots.length ≤ userFrames.length ∧
      swapInLoop cfg s.swapFile avail 0 (slots.zip userFrames) s.userSpace = some (m, true) ∧
      s.swapFrames.release slots = some swapFrames ∧
      s' = { s with
        frames := frames
        swapFrames := swapFrames
        userSpace := m
        processes := updateProcess (resumedWith userFrames) pid s.processes } ∧ b = true) := by
  unfold swapInProcess at h
  split at h
  · rename_i hfind
    simp only [Option.some.injEq, Prod.mk.injEq] at h
    exact Or.inl ⟨h.1.symm, Or.inl ⟨hfind, h.2.symm⟩⟩
  · rename_i p hfind
    split at h
    · rename_i hres
      simp only [Option.some.injEq, Prod.mk.injEq] at h
      exact Or.inl ⟨h.1.symm, Or.inr ⟨p, hfind, Or.inl ⟨hres, h.2.symm⟩⟩⟩
    · rename_i hres
      have hsusp : p.isSuspended = true := by simpa using hres
      split at h
      · exact absurd h (by simp)
      · rename_i hnull
        simp only [Option.some.injEq, Prod.mk.injEq] at h
        exact Or.inr (Or.inl ⟨p, hfind, hsusp, Or.inl hnull, h.1.symm, h.2.symm⟩)
      · rename_i hnil
        simp only [Option.some.injEq, Prod.mk.injEq] at h
        exact Or.inr (Or.inl ⟨p, hfind, hsusp, Or.inr hnil, h.1.symm, h.2.symm⟩)
      · rename_i f fs hfs
        simp only at h
        split at h
        · rename_i halloc
          simp only [Option.some.injEq, Prod.mk.injEq] at h
          exact Or.inl ⟨h.1.symm,
            Or.inr ⟨p, hfind, Or.inr ⟨hsusp, h.2.symm, f :: fs, hfs, halloc⟩⟩⟩
        · rename_i userFrames frames halloc
          split at h
          · rename_i hlen
            simp only [Option.some.injEq, Prod.mk.injEq] at h
            exact Or.inr (Or.inr (Or.inl
              ⟨p, f :: fs, userFrames, frames, hfind, hfs, halloc, hlen, h.1.symm, h.2.symm⟩))
          · rename_i hlen
            split at h
            · exact absurd h (by simp)
            · rename_i m hloop
              obtain ⟨frames', hrel, heq⟩ := Option.map_eq_some_iff.mp h
              simp only [Prod.mk.injEq] at heq
              exact Or.inr (Or.inr (Or.inr (Or.inl ⟨p, f :: fs, userFrames, frames, frames', m,
                hfind, hfs, halloc, hloop, hrel, heq.1.symm, heq.2.symm⟩)))
            · rename_i m hloop
              obtain ⟨swapFrames, hrel, heq⟩ := Option.map_eq_some_iff.mp h
              simp only [Prod.mk.injEq] at heq
              exact Or.inr (Or.inr (Or.inr (Or.inr ⟨p, f :: fs, userFrames, frames, swapFrames, m,
                hfind, hsusp, hfs, by simp, halloc, not_lt.mp hlen, hloop, hrel, heq.1.symm,
                heq.2.symm⟩)))

/-! ## 5. All requests -/

/-- READ_MEMORY and WRITE_MEMORY touch nothing but bytes of the user space. -/
theorem handle_memory_eq {cfg : Config} {s s' : State} {r : Request} {reply : Reply}
    (h : handle cfg s r = some (s', reply))
    (hr : (∃ a n, r = .readMemory a n) ∨ ∃ a d, r = .writeMemory a d) :
    ∃ m, s' = { s with userSpace := m } := by
  rcases hr with ⟨a, n, rfl⟩ | ⟨a, d, rfl⟩
  · simp only [handle] at h
    split at h
    · simp only [Option.some.injEq, Prod.mk.injEq] at h
      exact ⟨s.userSpace, h.1.symm⟩
    · obtain ⟨bytes, -, heq⟩ := Option.map_eq_some_iff.mp h
      simp only [Prod.mk.injEq] at heq
      exact ⟨s.userSpace, heq.1.symm⟩
  · obtain ⟨m, -, heq⟩ := Option.map_eq_some_iff.mp h
    simp only [Prod.mk.injEq] at heq
    exact ⟨m, heq.1.symm⟩

/-! ## 6. The records after one request -/

/-- **Where a record of the next state comes from**: it was there; it is a new process with frames;
it has size 0; it holds no frames and only its suspension mark changed; its process was swapped out;
its process was swapped in. -/
theorem handle_records {cfg : Config} {s s' : State} {r : Request} {reply : Reply}
    (h : handle cfg s r = some (s', reply)) : ∀ p' ∈ s'.processes,
    p' ∈ s.processes ∨
    (∃ pid size fs t instructions, p' = freshProcess pid size instructions (.obj t) (.obj fs) ∧
      (fs.length : Int) = cfg.pagesNeeded size ∧
      assignFrames cfg (initPageTable cfg s.nextTableId).1 fs (cfg.pagesNeeded size) = (t, true) ∧
      ∃ frames, s.frames.alloc (cfg.pagesNeeded size) = some (fs, frames)) ∨
    (p'.processSize = 0 ∧ (∀ fs, p'.allocatedFrames ≠ .obj fs) ∧ ∀ t, p'.pageTable ≠ .obj t) ∨
    (∃ p ∈ s.processes, ∃ b, p' = { p with isSuspended := b } ∧
      (p.allocatedFrames = .null ∨ p.allocatedFrames = .obj [])) ∨
    (∃ p ∈ s.processes, ∃ fs slots, p.allocatedFrames = .obj fs ∧ slots.length = fs.length ∧
      (∃ written file, swapOutLoop cfg s.userSpace written 0 (fs.zip slots) s.swapFile =
        some (file, true)) ∧ p' = suspendedWith slots p) ∨
    (∃ p slots userFrames frames pid avail m, r = .unsuspendProcess pid avail ∧
      processManagerFindProcess s.processes pid = some p ∧ p.isSuspended = true ∧
      p.allocatedFrames = .obj slots ∧ s.frames.alloc slots.length = some (userFrames, frames) ∧
      userFrames.length = slots.length ∧
      swapInLoop cfg s.swapFile avail 0 (slots.zip userFrames) s.userSpace = some (m, true) ∧
      p' = resumedWith userFrames p) := by
  intro p' hp'
  -- a record of the updated list is an old one or the updated one
  have hupdate : ∀ {f : ProcessInfo → ProcessInfo} {pid : Int} {p : ProcessInfo},
      processManagerFindProcess s.processes pid = some p →
      p' ∈ updateProcess f pid s.processes → p' ∈ s.processes ∨ p' = f p := by
    intro f pid p hfind hmem
    obtain ⟨l, r, heq, -, -, hupd, -⟩ := find_split hfind
    rw [hupd f, List.mem_append, List.mem_cons] at hmem
    rw [heq, List.mem_append, List.mem_cons]
    tauto
  cases r with
  | initProcess pid size file left =>
    obtain ⟨⟨s1, b⟩, hc, heq⟩ := Option.map_eq_some_iff.mp h
    obtain ⟨rfl, -⟩ := Prod.mk.inj heq
    rcases createProcess_cases hc with ⟨rfl, -⟩ | ⟨fs, frames, -, -, rfl, -⟩ |
      ⟨fs, frames, frames', id, -, -, rfl, -⟩ |
      ⟨fs, frames, t, id, instructions, -, halloc, hlen, hassign, rfl, -⟩ | ⟨instructions, rfl, rfl, -⟩
    · exact Or.inl hp'
    · exact Or.inl hp'
    · exact Or.inl hp'
    · rcases List.mem_append.mp hp' with hp' | hp'
      · exact Or.inl hp'
      · exact Or.inr (Or.inl ⟨pid, size, fs, t, instructions, List.mem_singleton.mp hp', hlen, hassign,
          frames, halloc⟩)
    · rcases List.mem_append.mp hp' with hp' | hp'
      · exact Or.inl hp'
      · refine Or.inr (Or.inr (Or.inl ?_))
        rw [List.mem_singleton.mp hp']
        exact ⟨rfl, fun fs => Ptr.unset_ne_obj, fun t => Ptr.unset_ne_obj⟩
  | killProcess pid =>
    obtain ⟨⟨s1, b⟩, hc, heq⟩ := Option.map_eq_some_iff.mp h
    obtain ⟨rfl, -⟩ := Prod.mk.inj heq
    rcases deleteProcess_cases hc with ⟨-, rfl, -⟩ | ⟨p, -, -, rfl, -⟩ |
      ⟨p, fs, frames, -, -, -, -, rfl, -⟩
    · exact Or.inl hp'
    · exact Or.inl (List.mem_of_mem_eraseP hp')
    · exact Or.inl (List.mem_of_mem_eraseP hp')
  | swap pid written =>
    obtain ⟨⟨s1, b⟩, hc, heq⟩ := Option.map_eq_some_iff.mp h
    obtain ⟨rfl, -⟩ := Prod.mk.inj heq
    rcases swapOutProcess_exits hc with ⟨rfl, -⟩ | ⟨p, hfind, -, hnull, rfl, -⟩ |
      ⟨p, fs, slots, swapFrames, -, -, -, -, -, rfl, -⟩ |
      ⟨p, fs, slots, swapFrames, file, -, -, -, -, -, -, rfl, -⟩ |
      ⟨p, fs, slots, frames, swapFrames, file, hfind, -, hfs, halloc, hlen, hloop, -, rfl, -⟩
    · exact Or.inl hp'
    · rcases hupdate hfind hp' with hp' | hp'
      · exact Or.inl hp'
      · exact Or.inr (Or.inr (Or.inr (Or.inl ⟨p, mem_of_find hfind, true, hp', Or.inl hnull⟩)))
    · exact Or.inl hp'
    · exact Or.inl hp'
    · rcases hupdate hfind hp' with hp' | hp'
      · exact Or.inl hp'
      · have hle := BitAlloc.length_alloc_le halloc
        exact Or.inr (Or.inr (Or.inr (Or.inr (Or.inl
          ⟨p, mem_of_find hfind, fs, slots, hfs, by omega, ⟨written, file, hloop⟩, hp'⟩))))
  | unsuspendProcess pid avail =>
    obtain ⟨⟨s1, b⟩, hc, heq⟩ := Option.map_eq_some_iff.mp h
    obtain ⟨rfl, -⟩ := Prod.mk.inj heq
    rcases swapInProcess_cases hc with ⟨rfl, -⟩ | ⟨p, hfind, -, hnone, rfl, -⟩ |
      ⟨p, slots, userFrames, frames, -, -, -, -, rfl, -⟩ |
      ⟨p, slots, userFrames, frames, frames', m, -, -, -, -, -, rfl, -⟩ |
      ⟨p, slots, userFrames, frames, swapFrames, m, hfind, hsusp, hslots, -, halloc, hlen, hloop, -,
        rfl, -⟩
    · exact Or.inl hp'
    · rcases hupdate hfind hp' with hp' | hp'
      · exact Or.inl hp'
      · exact Or.inr (Or.inr (Or.inr (Or.inl ⟨p, mem_of_find hfind, false, hp', hnone⟩)))
    · exact Or.inl hp'
    · exact Or.inl hp'
    · rcases hupdate hfind hp' with hp' | hp'
      · exact Or.inl hp'
      · have hle := BitAlloc.length_alloc_le halloc
        exact Or.inr (Or.inr (Or.inr (Or.inr (Or.inr ⟨p, slots, userFrames, frames, pid, avail, m,
          rfl, hfind, hsusp, hslots, halloc, by omega, hloop, hp'⟩))))
  | readMemory a n =>
    obtain ⟨m, rfl⟩ := handle_memory_eq h (Or.inl ⟨a, n, rfl⟩)
    exact Or.inl hp'
  | writeMemory a d =>
    obtain ⟨m, rfl⟩ := handle_memory_eq h (Or.inr ⟨a, d, rfl⟩)
    exact Or.inl hp'

/-! ## 7. What every record satisfies -/

/-- The shape of the records, whatever happens: a size that is not 0 is positive, and the record
then has a page table and a list with one entry a page; a process of size 0 has no list. -/
structure Shaped (cfg : Config) (s : State) : Prop where
  sized : ∀ p ∈ s.processes, p.processSize ≠ 0 → 0 < p.processSize ∧
    ∃ t fs, p.pageTable = .obj t ∧ p.allocatedFrames = .obj fs ∧
      (fs.length : Int) = cfg.pagesNeeded p.processSize
  zero : ∀ p ∈ s.processes, p.processSize = 0 → ∀ fs, p.allocatedFrames ≠ .obj fs

theorem shaped_start (cfg : Config) : Shaped cfg (State.start cfg) :=
  ⟨by simp [State.start], by simp [State.start]⟩

/-- A process without a size needs no pages. -/
theorem pagesNeeded_zero (cfg : Config) : cfg.pagesNeeded 0 = 0 := by
  have hp := cfg.tamPagina_pos
  unfold Config.pagesNeeded
  rw [Int.zero_add]
  exact Int.ediv_eq_zero_of_lt (by omega) (by omega)

/-- A process that `create_process` gave frames to has a positive size: for a negative one
`assign_frames` would have been asked for no page at all. -/
theorem size_pos_of_assign {cfg : Config} {root t : PageTable} {fs : List Nat} {size : Int}
    (h : assignFrames cfg root fs (cfg.pagesNeeded size) = (t, true)) : 0 < size := by
  by_contra hneg
  have hpages := pos_of_assignFrames h
  rcases lt_or_eq_of_le (not_lt.mp hneg) with hlt | rfl
  · exact absurd hpages (not_lt.mpr (cfg.pagesNeeded_nonpos hlt))
  · have hzero := pagesNeeded_zero cfg
    omega

theorem shaped_step {cfg : Config} {s s' : State} {r : Request} {reply : Reply} (hs : Shaped cfg s)
    (h : handle cfg s r = some (s', reply)) : Shaped cfg s' := by
  constructor
  · intro p' hp' hsize
    rcases handle_records h p' hp' with hold | ⟨pid, size, fs, t, ins, rfl, hlen, hassign, -⟩ |
      ⟨hzero, -⟩ | ⟨p, hp, b, rfl, -⟩ | ⟨p, hp, fs, slots, hfs, hlen, -, rfl⟩ |
      ⟨p, slots, userFrames, frames, pid, avail, m, -, hfind, -, hslots, -, hlen, -, rfl⟩
    · exact hs.sized p' hold hsize
    · exact ⟨size_pos_of_assign hassign, t, fs, rfl, rfl, hlen⟩
    · exact absurd hzero hsize
    · exact hs.sized p hp hsize
    · obtain ⟨hpos, t, fs', ht, hfs', hl⟩ := hs.sized p hp hsize
      obtain rfl : fs = fs' := by simpa [hfs] using hfs'
      exact ⟨hpos, t, slots, ht, rfl, by rw [hlen]; exact hl⟩
    · obtain ⟨hpos, t, fs', ht, hfs', hl⟩ := hs.sized p (mem_of_find hfind) hsize
      obtain rfl : slots = fs' := by simpa [hslots] using hfs'
      exact ⟨hpos, t, userFrames, ht, rfl, by rw [hlen]; exact hl⟩
  · intro p' hp' hsize
    rcases handle_records h p' hp' with hold | ⟨pid, size, fs, t, ins, rfl, hlen, hassign, -⟩ |
      ⟨-, hnone, -⟩ | ⟨p, hp, b, rfl, -⟩ | ⟨p, hp, fs, slots, hfs, -, -, rfl⟩ |
      ⟨p, slots, userFrames, frames, pid, avail, m, -, hfind, -, hslots, -, -, -, rfl⟩
    · exact hs.zero p' hold hsize
    · have hpos := size_pos_of_assign hassign
      exact absurd hsize (ne_of_gt hpos)
    · exact hnone
    · exact hs.zero p hp hsize
    · exact absurd hfs (hs.zero p hp hsize fs)
    · exact absurd hslots (hs.zero p (mem_of_find hfind) hsize slots)

/-! ## 8. The record of one process -/

/-- The process a request is about. -/
def Request.pid? : Request → Option Int
  | .initProcess pid _ _ _ | .killProcess pid | .swap pid _ | .unsuspendProcess pid _ => some pid
  | .readMemory _ _ | .writeMemory _ _ => none

/-- What a confirmation says. -/
def Reply.confirmed : Reply → Bool
  | .confirmation success => success
  | _ => false

/-- The process has a record and is not suspended. -/
def Loaded (s : State) (pid : Int) : Prop :=
  ∃ p, processManagerFindProcess s.processes pid = some p ∧ p.isSuspended = false

theorem find_updateProcess {f : ProcessInfo → ProcessInfo} (hf : ∀ p, (f p).pid = p.pid)
    (pid q : Int) (ps : List ProcessInfo) :
    processManagerFindProcess (updateProcess f pid ps) q =
      if q = pid then (processManagerFindProcess ps q).map f else processManagerFindProcess ps q := by
  induction ps with
  | nil => simp [processManagerFindProcess, updateProcess]
  | cons p ps ih =>
    unfold processManagerFindProcess at ih ⊢
    by_cases hp : p.pid = pid
    · by_cases hq : q = pid
      · simp [updateProcess, hp, hq, hf]
      · have hne : ¬ p.pid = q := fun h => hq (h.symm.trans hp)
        have hne' : ¬ (f p).pid = q := by rw [hf]; exact hne
        rw [updateProcess, if_pos hp, if_neg hq, List.find?_cons_of_neg (by simpa using hne'),
          List.find?_cons_of_neg (by simpa using hne)]
    · by_cases hpq : p.pid = q
      · have hq : ¬ q = pid := fun h => hp (hpq.trans h)
        simp [updateProcess, hpq, hq]
      · simpa [updateProcess, hp, hpq] using ih

theorem find_eraseP_of_ne {pid q : Int} (hne : q ≠ pid) (ps : List ProcessInfo) :
    processManagerFindProcess (ps.eraseP fun p => decide (p.pid = pid)) q =
      processManagerFindProcess ps q := by
  induction ps with
  | nil => rfl
  | cons p ps ih =>
    unfold processManagerFindProcess at ih ⊢
    by_cases hp : p.pid = pid
    · have hpq : ¬ pid = q := fun h => hne h.symm
      simp [hp, hpq]
    · by_cases hpq : p.pid = q
      · simp [hpq, hne]
      · simpa [List.eraseP_cons, hp, hpq] using ih

/-- A record that is left after the removal of a pid has another pid, when pids are distinct. -/
theorem pid_ne_of_mem_eraseP {pid : Int} {q : ProcessInfo} : ∀ {ps : List ProcessInfo},
    (ps.map (·.pid)).Nodup → q ∈ ps.eraseP (fun p => decide (p.pid = pid)) → q.pid ≠ pid
  | [], _, hq => absurd hq (by simp)
  | p :: ps, hnd, hq => by
    obtain ⟨hfresh, hnd'⟩ := List.nodup_cons.mp hnd
    by_cases hp : p.pid = pid
    · rw [List.eraseP_cons_of_pos (by simpa using hp)] at hq
      intro heq
      have hmem : q.pid ∈ ps.map (·.pid) := List.mem_map_of_mem hq
      rw [heq, ← hp] at hmem
      exact hfresh hmem
    · rw [List.eraseP_cons_of_neg (by simpa using hp)] at hq
      rcases List.mem_cons.mp hq with rfl | hq
      · exact hp
      · exact pid_ne_of_mem_eraseP hnd' hq

/-- ... so nothing is found under the pid. -/
theorem find_eraseP_self {ps : List ProcessInfo} (hnd : (ps.map (·.pid)).Nodup) (pid : Int) :
    processManagerFindProcess (ps.eraseP fun p => decide (p.pid = pid)) pid = none :=
  List.find?_eq_none.mpr fun q hq => by simpa using pid_ne_of_mem_eraseP hnd hq

/-- **A request leaves the records of all other processes as they are.** -/
theorem handle_find_of_ne {cfg : Config} {s s' : State} {r : Request} {reply : Reply} {q : Int}
    (h : handle cfg s r = some (s', reply)) (hq : r.pid? ≠ some q) :
    processManagerFindProcess s'.processes q = processManagerFindProcess s.processes q := by
  cases r with
  | initProcess pid size file left =>
    have hne : pid ≠ q := fun h => hq (by rw [h]; rfl)
    obtain ⟨⟨s1, b⟩, hc, heq⟩ := Option.map_eq_some_iff.mp h
    obtain ⟨rfl, -⟩ := Prod.mk.inj heq
    rcases createProcess_cases hc with ⟨rfl, -⟩ | ⟨fs, frames, -, -, rfl, -⟩ |
      ⟨fs, frames, frames', id, -, -, rfl, -⟩ |
      ⟨fs, frames, t, id, instructions, -, -, hlen, hassign, rfl, -⟩ | ⟨instructions, rfl, rfl, -⟩
    · rfl
    · rfl
    · rfl
    · simp [processManagerFindProcess, freshProcess, hne]
    · simp [processManagerFindProcess, freshProcess, hne]
  | killProcess pid =>
    have hne : q ≠ pid := fun h => hq (by rw [h]; rfl)
    obtain ⟨⟨s1, b⟩, hc, heq⟩ := Option.map_eq_some_iff.mp h
    obtain ⟨rfl, -⟩ := Prod.mk.inj heq
    rcases deleteProcess_cases hc with ⟨-, rfl, -⟩ | ⟨p, -, -, rfl, -⟩ |
      ⟨p, fs, frames, -, -, -, -, rfl, -⟩
    · rfl
    · exact find_eraseP_of_ne hne s.processes
    · exact find_eraseP_of_ne hne s.processes
  | swap pid written =>
    have hne : q ≠ pid := fun h => hq (by rw [h]; rfl)
    obtain ⟨⟨s1, b⟩, hc, heq⟩ := Option.map_eq_some_iff.mp h
    obtain ⟨rfl, -⟩ := Prod.mk.inj heq
    rcases swapOutProcess_cases hc with ⟨⟨swapFrames, file, rfl⟩, -⟩ | ⟨p, -, -, -, rfl, -⟩ |
      ⟨p, fs, slots, frames, swapFrames, file, -, -, -, -, -, -, rfl, -⟩
    · rfl
    · simpa [hne] using find_updateProcess (f := fun p => { p with isSuspended := true })
        (fun _ => rfl) pid q s.processes
    · simpa [hne] using find_updateProcess (f := suspendedWith slots) (fun _ => rfl) pid q s.processes
  | unsuspendProcess pid avail =>
    have hne : q ≠ pid := fun h => hq (by rw [h]; rfl)
    obtain ⟨⟨s1, b⟩, hc, heq⟩ := Option.map_eq_some_iff.mp h
    obtain ⟨rfl, -⟩ := Prod.mk.inj heq
    rcases swapInProcess_cases hc with ⟨rfl, -⟩ | ⟨p, -, -, -, rfl, -⟩ |
      ⟨p, slots, userFrames, frames, -, -, -, -, rfl, -⟩ |
      ⟨p, slots, userFrames, frames, frames', m, -, -, -, -, -, rfl, -⟩ |
      ⟨p, slots, userFrames, frames, swapFrames, m, -, -, -, -, -, -, -, -, rfl, -⟩
    · rfl
    · simpa [hne] using find_updateProcess (f := fun p => { p with isSuspended := false })
        (fun _ => rfl) pid q s.processes
    · rfl
    · rfl
    · simpa [hne] using find_updateProcess (f := resumedWith userFrames) (fun _ => rfl) pid q
        s.processes
  | readMemory a n =>
    obtain ⟨m, rfl⟩ := handle_memory_eq h (Or.inl ⟨a, n, rfl⟩)
    rfl
  | writeMemory a d =>
    obtain ⟨m, rfl⟩ := handle_memory_eq h (Or.inr ⟨a, d, rfl⟩)
    rfl

/-- INIT_PROCESS of a pid without a record: if it is confirmed the process is loaded, and if not it
still has no record. -/
theorem init_record {cfg : Config} {s s' : State} {pid size : Int} {file : Option (List String)}
    {left : Leftover} {reply : Reply}
    (h : handle cfg s (.initProcess pid size file left) = some (s', reply))
    (hnone : processManagerFindProcess s.processes pid = none) :
    if reply.confirmed then Loaded s' pid else processManagerFindProcess s'.processes pid = none := by
  obtain ⟨⟨s1, b⟩, hc, heq⟩ := Option.map_eq_some_iff.mp h
  obtain ⟨rfl, rfl⟩ := Prod.mk.inj heq
  have hnone' : s.processes.find? (fun p => decide (p.pid = pid)) = none := hnone
  rcases createProcess_cases hc with ⟨rfl, rfl⟩ | ⟨fs, frames, -, -, rfl, rfl⟩ |
    ⟨fs, frames, frames', id, -, -, rfl, rfl⟩ |
    ⟨fs, frames, t, id, instructions, -, -, hlen, hassign, rfl, rfl⟩ | ⟨instructions, rfl, rfl, rfl⟩
  · simpa [Reply.confirmed] using hnone
  · simpa [Reply.confirmed] using hnone
  · simpa [Reply.confirmed] using hnone
  · simp [Reply.confirmed, Loaded, processManagerFindProcess, hnone', freshProcess]
  · simp [Reply.confirmed, Loaded, processManagerFindProcess, hnone', freshProcess]

/-- A SWAP that fails leaves the records as they are, and no SWAP makes one. -/
theorem swap_record {cfg : Config} {s s' : State} {pid : Int} {written : Nat → Nat} {reply : Reply}
    (h : handle cfg s (.swap pid written) = some (s', reply)) :
    (reply.confirmed = false → s'.processes = s.processes) ∧
    (processManagerFindProcess s.processes pid = none →
      processManagerFindProcess s'.processes pid = none) := by
  obtain ⟨⟨s1, b⟩, hc, heq⟩ := Option.map_eq_some_iff.mp h
  obtain ⟨rfl, rfl⟩ := Prod.mk.inj heq
  rcases swapOutProcess_cases hc with ⟨⟨swapFrames, file, rfl⟩, -⟩ | ⟨p, hfind, -, -, rfl, rfl⟩ |
    ⟨p, fs, slots, frames, swapFrames, file, hfind, -, -, -, -, -, rfl, rfl⟩
  · exact ⟨fun _ => rfl, id⟩
  · exact ⟨by simp [Reply.confirmed], by simp [hfind]⟩
  · exact ⟨by simp [Reply.confirmed], by simp [hfind]⟩

/-- An UNSUSPEND_PROCESS that is confirmed leaves the process loaded, one that is not leaves the
records as they are. -/
theorem unsuspend_record {cfg : Config} {s s' : State} {pid : Int} {avail : Nat → Nat}
    {reply : Reply} (h : handle cfg s (.unsuspendProcess pid avail) = some (s', reply)) :
    if reply.confirmed then Loaded s' pid else s'.processes = s.processes := by
  obtain ⟨⟨s1, b⟩, hc, heq⟩ := Option.map_eq_some_iff.mp h
  obtain ⟨rfl, rfl⟩ := Prod.mk.inj heq
  rcases swapInProcess_cases hc with ⟨rfl, ⟨-, rfl⟩ | ⟨p, hfind, ⟨hres, rfl⟩ | ⟨-, rfl, -⟩⟩⟩ |
    ⟨p, hfind, -, -, rfl, rfl⟩ |
    ⟨p, slots, userFrames, frames, -, -, -, -, rfl, rfl⟩ |
    ⟨p, slots, userFrames, frames, frames', m, -, -, -, -, -, rfl, rfl⟩ |
    ⟨p, slots, userFrames, frames, swapFrames, m, hfind, -, -, -, -, -, -, -, rfl, rfl⟩
  · simp [Reply.confirmed]
  · simpa [Reply.confirmed] using ⟨p, hfind, hres⟩
  · simp [Reply.confirmed]
  · have hupd := find_updateProcess (f := fun p => { p with isSuspended := false }) (fun _ => rfl)
      pid pid s.processes
    rw [if_pos rfl, hfind] at hupd
    simpa [Reply.confirmed] using ⟨_, hupd, rfl⟩
  · simp [Reply.confirmed]
  · simp [Reply.confirmed]
  · have hupd := find_updateProcess (f := resumedWith userFrames) (fun _ => rfl) pid pid s.processes
    rw [if_pos rfl, hfind] at hupd
    simpa [Reply.confirmed] using ⟨_, hupd, rfl⟩

/-! ## 9. Frames in the user space -/

section Frames

variable {cfg : Config} {f : Nat}

/-- The end of a frame is inside the user space. -/
theorem frame_end_le_tamMemoria (hf : f < cfg.framesTotal) :
    f * cfg.tamPagina + cfg.tamPagina ≤ cfg.tamMemoria := by
  have hmul : (f + 1) * cfg.tamPagina ≤ cfg.framesTotal * cfg.tamPagina :=
    Nat.mul_le_mul_right _ hf
  have hdiv : cfg.framesTotal * cfg.tamPagina ≤ cfg.tamMemoria := Nat.div_mul_le_self _ _
  calc f * cfg.tamPagina + cfg.tamPagina = (f + 1) * cfg.tamPagina := by ring
    _ ≤ cfg.framesTotal * cfg.tamPagina := hmul
    _ ≤ cfg.tamMemoria := hdiv

/-- Frames that share a byte are one. -/
theorem frame_eq_of_mem {ps g x : Nat} (hf : f * ps ≤ x) (hf' : x < f * ps + ps) (hg : g * ps ≤ x)
    (hg' : x < g * ps + ps) : f = g := by
  have hfx : x / ps = f := Nat.div_eq_of_lt_le (by linarith) (by linarith)
  have hgx : x / ps = g := Nat.div_eq_of_lt_le (by linarith) (by linarith)
  rw [← hfx, ← hgx]

/-- The address of a frame does not wrap around. -/
theorem toInt32_frame (hf : f < cfg.framesTotal) :
    toInt32 (f * cfg.tamPagina) = (f * cfg.tamPagina : Nat) := by
  have hend := frame_end_le_tamMemoria hf
  have hlt := cfg.tamMemoria_lt
  rw [toInt32_eq (by positivity)]
  · push_cast
    rfl
  · have : f * cfg.tamPagina < 2 ^ 31 := by omega
    exact_mod_cast this

/-- **A write inside a frame** stores a block in the user space. -/
theorem writeToUserSpace_frame {m : Bytes} {o : Nat} {data : List UInt8} (hf : f < cfg.framesTotal)
    (ho : o + data.length ≤ cfg.tamPagina) :
    writeToUserSpace cfg m (f * cfg.tamPagina + o : Nat) data =
      some (m.blit (f * cfg.tamPagina + o) data) := by
  have hend := frame_end_le_tamMemoria hf
  have hlt := cfg.tamMemoria_lt
  have hpage : ¬ (cfg.tamPagina : Int) < data.length := by
    have : data.length ≤ cfg.tamPagina := le_trans (Nat.le_add_left _ _) ho
    exact_mod_cast not_lt.mpr this
  have hin : exceedsUserSpace cfg ((f * cfg.tamPagina + o : Nat) : Int) data.length = false := by
    unfold exceedsUserSpace
    have hle : f * cfg.tamPagina + o + data.length ≤ cfg.tamMemoria := by omega
    rw [toInt32_eq (by positivity) (by
      have : f * cfg.tamPagina + o + data.length < 2 ^ 31 := by omega
      exact_mod_cast this)]
    simp only [decide_eq_false_iff_not, not_or, not_lt]
    exact ⟨by positivity, by exact_mod_cast hle⟩
  unfold writeToUserSpace
  rw [if_neg hpage, hin]
  simp only [Bool.false_eq_true, ↓reduceIte]
  rw [if_neg (not_lt.mpr (by positivity)), Int.toNat_natCast]

end Frames

/-! ## 10. A memory and requests to test on -/

/-- A small memory: four frames of 16 bytes, two levels of tables with two entries each. -/
def smallConfig : Config where
  tamMemoria := 64
  tamPagina := 16
  entradasPorTabla := 2
  cantidadNiveles := 2
  tamMemoria_lt := by decide
  tamPagina_pos := by decide
  cantidadNiveles_pos := by decide

/-- INIT_PROCESS for an empty script that can be opened. -/
def initRequest (pid size : Int) : Request := .initProcess pid size (some []) ⟨true, true⟩

/-- SWAP and UNSUSPEND_PROCESS when the swap file takes and gives every byte. -/
def swapRequest (pid : Int) : Request := .swap pid fun _ => 16

def unsuspendRequest (pid : Int) : Request := .unsuspendProcess pid fun _ => 16

end Tpso.Memoria
