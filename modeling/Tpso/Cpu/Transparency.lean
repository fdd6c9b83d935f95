/-
# The TLB is transparent

A TLB entry survives the context switches that syscalls cause, and it survives the suspension and
resumption of its process: nothing removes it but replacement and `mmu_process_cleanup`.  It is right all
the same, because memoria never writes into the page table of a process once `create_process` has
returned: an entry for a process that still exists holds what a walk would give NOW
(`tlb_transparent`).  (That `swap_in_process` leaves the table alone is why a resumed process is read and
written in the wrong frames: the TLB faithfully repeats the page table's error.)

The system is one CPU and memoria.  The state remembers, as a ghost, which answers GET_PAGE_ENTRY had for
a process when it was created.
-/
import Tpso.Cpu.PageWalk
import Tpso.Cpu.Translation

namespace Tpso.Cpu

open Tpso.Lib
open Tpso.Memoria (pageEntries processManagerFindProcess handle Shaped)

/-! ## 1. One CPU and memoria -/

/-- The MMU of the CPU, memoria, and the answers that memoria gave for a process when it was created. -/
structure TlbState where
  mmu : Mmu
  memoria : Memoria.State
  history : Int → Option (Int → Int → Option Int)

/-- The answers remembered. -/
def TlbState.remembered (s : TlbState) : PageEntries := fun pid => (s.history pid).getD fun _ _ => none

/-- A step: a translation of either kind, the clean-up of the MMU, or a request to memoria.  What a walk
adds to the metrics of the process is left out: no answer depends on it
(`pageEntries_handlePageWalkRequest`). -/
inductive TlbEvent where
  | translate (pid logicDir : Int)
  | translatePage (pid pageNumber : Int)
  | cleanup
  | request (r : Memoria.Request)

/-- The process exists and has a size. -/
def existsSized (s : Memoria.State) (pid : Int) : Bool :=
  (processManagerFindProcess s.processes pid).any fun p => decide (0 < p.processSize)

/-- The ghost after a request: a process that was created is remembered. -/
def remember (history : Int → Option (Int → Int → Option Int)) (s' : Memoria.State) :
    Memoria.Request → Memoria.Reply → Int → Option (Int → Int → Option Int)
  | .initProcess pid _ _ _, .confirmation true => Function.update history pid (some (pageEntries s' pid))
  | _, _ => history

/-- One step. -/
def tlbStep (cfg : Config) (s : TlbState) : TlbEvent → Option TlbState
  | .translate pid logicDir =>
    if 0 ≤ logicDir ∧ existsSized s.memoria pid then
      (mmuTranslateAddress cfg (pageEntries s.memoria) s.mmu.tlb logicDir pid).map fun x =>
        { s with mmu := { s.mmu with tlb := x.1 } }
    else none
  | .translatePage pid pageNumber =>
    if 0 ≤ pageNumber ∧ existsSized s.memoria pid then
      (mmuTranslateAddressWithPageNumber cfg (pageEntries s.memoria) s.mmu.tlb pageNumber pid).map
        fun x => { s with mmu := { s.mmu with tlb := x.1 } }
    else none
  | .cleanup =>
    (mmuProcessCleanup cfg (pageEntries s.memoria) s.mmu s.memoria.userSpace).map fun x =>
      { s with mmu := x.1, memoria := { s.memoria with userSpace := x.2 } }
  | .request r =>
    (handle cfg.memoria s.memoria r).map fun x =>
      { s with memoria := x.1, history := remember s.history x.1 r x.2 }

/-- The CPU and memoria as a transition system, from start-up. -/
def tlbSystem (cfg : Config) (junk : Nat → CacheEntry) : Lts TlbState TlbEvent :=
  Lts.ofStep ⟨mmuInit cfg junk, Memoria.State.start cfg.memoria, fun _ => none⟩ (tlbStep cfg)

/-- Pids are never reused: an INIT_PROCESS is for a pid under which no process was created before. -/
def NeverReused (s : TlbState) : TlbEvent → Prop
  | .request (.initProcess pid _ _ _) => s.history pid = none
  | _ => True

/-! ## 2. The invariant -/

/-- **The invariant**: what was remembered of a process that exists is what memoria answers now, and the
TLB holds what a walk over the remembered answers gives. -/
structure Transparent (cfg : Config) (s : TlbState) : Prop where
  shaped : Shaped cfg.memoria s.memoria
  nodup : (s.memoria.processes.map (·.pid)).Nodup
  answers : ∀ p ∈ s.memoria.processes, s.history p.pid = some (pageEntries s.memoria p.pid)
  tlb : TlbOk cfg s.remembered s.mmu.tlb
  clean : ∀ e ∈ s.mmu.cache.entries, e.isValid = false

/-- A walk asks only about its own process. -/
theorem mmuPerformPageWalk_congr {cfg : Config} {pe pe' : PageEntries} {pid : Int}
    (h : pe' pid = pe pid) (page : Int) :
    mmuPerformPageWalk cfg pe' page pid = mmuPerformPageWalk cfg pe page pid := by
  unfold mmuPerformPageWalk
  rw [h]

/-- No walk has a result when nothing is remembered of the process. -/
theorem mmuPerformPageWalk_forgotten {cfg : Config} {pe : PageEntries} {pid : Int}
    (h : pe pid = fun _ _ => none) (page : Int) : mmuPerformPageWalk cfg pe page pid = none := by
  unfold mmuPerformPageWalk
  rw [h, Memoria.cantidadNiveles_eq, pageWalkLoop]
  rfl

/-- A walk whose questions are all answered has a result. -/
theorem pageWalkLoop_isSome {cfg : Config} {entry : Int → Int → Option Int} {page : Int}
    (h : ∀ id i, ∃ v, entry id i = some v) : ∀ (n : Nat) (id : Int),
    ∃ frame, pageWalkLoop cfg entry page n id = some frame
  | 0, id => ⟨id, rfl⟩
  | n + 1, id => by
    rw [pageWalkLoop]
    obtain ⟨v, hv⟩ := h id ((page.tdiv (Memoria.doubleToInt (cfg.memoria.entradasPorTabla ^ n))).tmod
      cfg.memoria.entradasPorTabla)
    simp only [hv, Option.bind_some]
    split
    · exact ⟨0, rfl⟩
    · exact pageWalkLoop_isSome h n v

section Invariant

variable {cfg : Config} {s : TlbState} {pid : Int} {p : Memoria.ProcessInfo}

/-- For a process that exists a walk now is a walk over what was remembered. -/
theorem Transparent.walk_eq (h : Transparent cfg s)
    (hfind : processManagerFindProcess s.memoria.processes pid = some p) (page : Int) :
    mmuPerformPageWalk cfg (pageEntries s.memoria) page pid =
      mmuPerformPageWalk cfg s.remembered page pid := by
  have hpid : p.pid = pid := by simpa using List.find?_some hfind
  have hans := h.answers p (Memoria.mem_of_find hfind)
  rw [hpid] at hans
  refine mmuPerformPageWalk_congr ?_ page
  simp [TlbState.remembered, hans]

/-- ... and a process that has a size has a page table. -/
theorem Transparent.walk_isSome (h : Transparent cfg s)
    (hfind : processManagerFindProcess s.memoria.processes pid = some p) (hpos : 0 < p.processSize)
    (page : Int) : ∃ frame, mmuPerformPageWalk cfg (pageEntries s.memoria) page pid = some frame := by
  obtain ⟨-, t, fs, htable, -, -⟩ := h.shaped.sized p (Memoria.mem_of_find hfind) (ne_of_gt hpos)
  refine pageWalkLoop_isSome (fun id i => ⟨Memoria.pageEntryValue t id i, ?_⟩) _ _
  simp [pageEntries, Memoria.handlePageWalkRequest, hfind, htable]

/-- `frameOf` reads no more of memoria than the walk of its own process. -/
theorem frameOf_congr {pe pe' : PageEntries} (h : pe' pid = pe pid) (tlb : Tlb) (page : Int) :
    frameOf cfg pe' tlb page pid = frameOf cfg pe tlb page pid := by
  unfold frameOf
  rw [mmuPerformPageWalk_congr h]

/-- **A translation for a process that exists and has a size** ends at the frame of a walk made now. -/
theorem Transparent.frameOf (h : Transparent cfg s)
    (hfind : processManagerFindProcess s.memoria.processes pid = some p) (hpos : 0 < p.processSize)
    (page : Int) : ∃ tlb' frame, mmuPerformPageWalk cfg (pageEntries s.memoria) page pid = some frame ∧
      Cpu.frameOf cfg (pageEntries s.memoria) s.mmu.tlb page pid = some (tlb', frame) ∧
      TlbOk cfg s.remembered tlb' := by
  obtain ⟨frame, hwalk⟩ := h.walk_isSome hfind hpos page
  have hpid : p.pid = pid := by simpa using List.find?_some hfind
  have hans := h.answers p (Memoria.mem_of_find hfind)
  rw [hpid] at hans
  have hsame : pageEntries s.memoria pid = s.remembered pid := by simp [TlbState.remembered, hans]
  obtain ⟨tlb', hframe, htlb⟩ := frameOf_eq h.tlb (h.walk_eq hfind page ▸ hwalk)
  exact ⟨tlb', frame, hwalk, by rw [frameOf_congr hsame, hframe], htlb⟩

/-- Clean entries are not written back. -/
theorem writebackAll_clean {pe : PageEntries} {tlb : Tlb} {mem : Bytes} : ∀ {entries : List CacheEntry},
    (∀ e ∈ entries, e.isValid = false) → writebackAll cfg pe entries tlb mem = some (tlb, mem)
  | [], _ => rfl
  | e :: es, h => by
    have he : writebackIfDirty cfg pe tlb mem e = some (tlb, mem) := by
      simp [writebackIfDirty, h e List.mem_cons_self]
    rw [writebackAll, he, Option.bind_some]
    exact writebackAll_clean fun e' he' => h e' (List.mem_cons_of_mem _ he')

end Invariant

/-! ## 3. Every step keeps the invariant -/

section Steps

variable {cfg : Config} {s s' : TlbState}

/-- A request to memoria. -/
theorem transparent_request {r : Memoria.Request} {m : Memoria.State} {reply : Memoria.Reply}
    (h : Transparent cfg s) (hfresh : NeverReused s (.request r))
    (hr : handle cfg.memoria s.memoria r = some (m, reply)) :
    Transparent cfg { s with memoria := m, history := remember s.history m r reply } := by
  have hshaped := Memoria.shaped_step h.shaped hr
  rcases Memoria.handle_tables hr with ⟨hpids, htables, hinit⟩ |
    ⟨pid, size, file, left, p, rfl, rfl, rfl, hprocs⟩ | ⟨pid, rfl, hprocs⟩
  · -- nothing happened to the tables
    have hsame : remember s.history m r reply = s.history := by
      cases r with
      | initProcess pid size file left =>
        rw [hinit pid size file left rfl]
        rfl
      | _ => rfl
    rw [hsame]
    refine ⟨hshaped, hpids ▸ h.nodup, ?_, h.tlb, h.clean⟩
    intro p' hp'
    have hmem : p'.pid ∈ m.processes.map (·.pid) := List.mem_map_of_mem hp'
    rw [hpids] at hmem
    obtain ⟨p, hp, hpid⟩ := List.mem_map.mp hmem
    have hans := h.answers p hp
    rw [hpid] at hans
    rw [hans]
    exact congrArg some (Memoria.pageEntries_congr (htables p'.pid)).symm
  · -- a new process
    have hnone : s.history p.pid = none := hfresh
    have hnew : ∀ q ∈ s.memoria.processes, q.pid ≠ p.pid := by
      intro q hq heq
      have := h.answers q hq
      rw [heq, hnone] at this
      exact absurd this (by simp)
    refine ⟨hshaped, ?_, ?_, ?_, h.clean⟩
    · simp only [hprocs, List.map_append, List.map_cons, List.map_nil]
      refine List.nodup_append.mpr ⟨h.nodup, by simp, ?_⟩
      intro a ha b hb hab
      obtain ⟨q, hq, rfl⟩ := List.mem_map.mp ha
      rw [List.mem_singleton.mp hb] at hab
      exact hnew q hq hab
    · intro q hq
      simp only [remember]
      by_cases heq : q.pid = p.pid
      · rw [heq, Function.update_self]
      · rw [Function.update_of_ne heq]
        have hold : q ∈ s.memoria.processes := by
          rw [hprocs] at hq
          rcases List.mem_append.mp hq with hq | hq
          · exact hq
          · exact absurd (congrArg (·.pid) (List.mem_singleton.mp hq)) heq
        rw [h.answers q hold]
        refine congrArg some (Memoria.pageEntries_congr ?_).symm
        -- the search ends before it comes to the new record
        have hne : ¬ p.pid = q.pid := fun hc => heq hc.symm
        simp [hprocs, processManagerFindProcess, List.find?_append, hne]
    · intro e he
      have hwalk := h.tlb e he
      by_cases heq : e.pid = p.pid
      · have hforgot : s.remembered e.pid = fun _ _ => none := by
          simp [TlbState.remembered, heq, hnone]
        rw [mmuPerformPageWalk_forgotten hforgot] at hwalk
        exact absurd hwalk (by simp)
      · rw [← hwalk]
        refine mmuPerformPageWalk_congr ?_ e.page
        simp [TlbState.remembered, remember, Function.update_of_ne heq]
  · -- a process ends
    refine ⟨hshaped, ?_, ?_, h.tlb, h.clean⟩
    · rw [hprocs]
      exact h.nodup.sublist (List.eraseP_sublist.map _)
    · intro q hq
      rw [hprocs] at hq
      have hne := Memoria.pid_ne_of_mem_eraseP h.nodup hq
      refine (h.answers q (List.mem_of_mem_eraseP hq)).trans ?_
      refine congrArg some (Memoria.pageEntries_congr ?_).symm
      rw [hprocs, Memoria.find_eraseP_of_ne hne]

/-- **Every step keeps the invariant.** -/
theorem transparent_step {ev : TlbEvent} (h : Transparent cfg s) (hfresh : NeverReused s ev)
    (hst : tlbStep cfg s ev = some s') : Transparent cfg s' := by
  cases ev with
  | translate pid logicDir =>
    rw [tlbStep] at hst
    split at hst
    · rename_i hguard
      obtain ⟨p, hfind, hpos⟩ := (Option.any_eq_true _ _).mp hguard.2
      obtain ⟨tlb', frame, -, hframe, htlb⟩ := h.frameOf hfind (by simpa using hpos) (pageOf cfg logicDir)
      rw [mmuTranslateAddress, hframe] at hst
      obtain rfl := Option.some.inj hst
      exact ⟨h.shaped, h.nodup, h.answers, htlb, h.clean⟩
    · exact absurd hst (by simp)
  | translatePage pid pageNumber =>
    rw [tlbStep] at hst
    split at hst
    · rename_i hguard
      obtain ⟨p, hfind, hpos⟩ := (Option.any_eq_true _ _).mp hguard.2
      obtain ⟨tlb', frame, -, hframe, htlb⟩ := h.frameOf hfind (by simpa using hpos) pageNumber
      rw [mmuTranslateAddressWithPageNumber, hframe] at hst
      obtain rfl := Option.some.inj hst
      exact ⟨h.shaped, h.nodup, h.answers, htlb, h.clean⟩
    · exact absurd hst (by simp)
  | cleanup =>
    rw [tlbStep, mmuProcessCleanup, writebackAll_clean h.clean, ite_self] at hst
    obtain rfl := Option.some.inj hst
    refine ⟨⟨h.shaped.sized, h.shaped.zero⟩, h.nodup, ?_, ?_, ?_⟩
    · intro p hp
      exact h.answers p hp
    · intro e he
      simp only at he
      split at he
      · exact absurd he (by simp)
      · exact h.tlb e he
    · intro e he
      obtain ⟨e', -, rfl⟩ := List.mem_map.mp he
      exact rfl
  | request r =>
    obtain ⟨⟨m, reply⟩, hr, rfl⟩ := Option.map_eq_some_iff.mp hst
    exact transparent_request h hfresh hr

theorem transparent_start (cfg : Config) (junk : Nat → CacheEntry) :
    Transparent cfg ⟨mmuInit cfg junk, Memoria.State.start cfg.memoria, fun _ => none⟩ where
  shaped := Memoria.shaped_start cfg.memoria
  nodup := by simp [Memoria.State.start]
  answers := by simp [Memoria.State.start]
  tlb := by simp [TlbOk, mmuInit]
  clean := by
    intro e he
    obtain ⟨i, -, rfl⟩ := List.mem_map.mp he
    rfl

end Steps

/-! ## 4. Whole runs -/

/-- **TLB transparency.**  For every TLB size and algorithm, in every state of every run in which pids are
never reused: a hit for a process that exists gives the frame that a walk made now would give; and a
translation for a process that exists and has a size gives `walk(page) * page_size + offset`. -/
theorem tlb_transparent {cfg : Config} {junk : Nat → CacheEntry}
    {tr : List (Transition TlbState TlbEvent)} {s : TlbState} (hr : (tlbSystem cfg junk).Run tr s)
    (hfresh : ∀ x ∈ tr, NeverReused x.src x.label) :
    (∀ page pid p frame, processManagerFindProcess s.memoria.processes pid = some p →
      (tlbFindEntry cfg s.mmu.tlb page pid).2 = some frame →
      mmuPerformPageWalk cfg (pageEntries s.memoria) page pid = some frame) ∧
    ∀ logicDir pid p, 0 ≤ logicDir → processManagerFindProcess s.memoria.processes pid = some p →
      0 < p.processSize →
      ∃ tlb' frame, mmuPerformPageWalk cfg (pageEntries s.memoria) (pageOf cfg logicDir) pid =
          some frame ∧
        mmuTranslateAddress cfg (pageEntries s.memoria) s.mmu.tlb logicDir pid =
          some (tlb', physicalAddress cfg frame (offsetOf cfg logicDir)) := by
  have hinv : Transparent cfg s := hr.invariant (C := NeverReused) (by rintro s rfl; exact transparent_start cfg junk)
    (fun s ev s' h hc hst => transparent_step h hc hst) hfresh
  refine ⟨?_, ?_⟩
  · intro page pid p frame hfind hhit
    rw [hinv.walk_eq hfind]
    exact (hinv.tlb.find page pid).2 frame hhit
  · intro logicDir pid p _ hfind hpos
    obtain ⟨tlb', frame, hwalk, hframe, -⟩ := hinv.frameOf hfind hpos (pageOf cfg logicDir)
    exact ⟨tlb', frame, hwalk, by rw [mmuTranslateAddress, hframe]; rfl⟩

/-- A TLB of two entries over the small memoria. -/
def tlbConfig : Config := { smallConfig with tlbEntries := 2, tlbAlgorithm := .lru }

/-- What `malloc` may leave in a cache entry. -/
def blankEntry : CacheEntry := ⟨false, 0, 0, zeros, false, false, 0, 0⟩

/-- The theorem at work: the entry of process 0 outlives its suspension and resumption. -/
theorem tlb_transparent_resumed :
    ∃ tr s, (tlbSystem tlbConfig fun _ => blankEntry).Run tr s ∧
      (tlbFindEntry tlbConfig s.mmu.tlb 0 0).2 = some 0 ∧
      mmuPerformPageWalk tlbConfig (pageEntries s.memoria) 0 0 = some 0 := by
  obtain ⟨tr, s, hrun, htest⟩ := Lts.exists_run_of_drive
    ⟨mmuInit tlbConfig fun _ => blankEntry, Memoria.State.start tlbConfig.memoria, fun _ => none⟩
    (tlbStep tlbConfig)
    [.request (Memoria.initRequest 0 10), .translate 0 3, .request (Memoria.swapRequest 0),
      .request (Memoria.initRequest 1 10), .request (Memoria.unsuspendRequest 0)]
    (fun tr s => (processManagerFindProcess s.memoria.processes 0).isSome &&
      decide ((tlbFindEntry tlbConfig s.mmu.tlb 0 0).2 = some 0) &&
      tr.all fun x =>
        match x.label with
        | .request (.initProcess pid _ _ _) => (x.src.history pid).isNone
        | _ => true) (by decide +kernel)
  simp only [Bool.and_eq_true, decide_eq_true_eq, List.all_eq_true] at htest
  obtain ⟨⟨hexists, hhit⟩, hfresh⟩ := htest
  obtain ⟨p, hfind⟩ := Option.isSome_iff_exists.mp hexists
  refine ⟨tr, s, hrun, hhit, (tlb_transparent hrun ?_).1 0 0 p 0 hfind hhit⟩
  intro x hx
  have hx' := hfresh x hx
  obtain ⟨src, label, dst⟩ := x
  cases label with
  | request r =>
    cases r with
    | initProcess pid size file left => simpa [NeverReused] using hx'
    | _ => trivial
  | _ => trivial

end Tpso.Cpu
