/-
# No idle CPU beside a waiting process

When nothing happens any more in the kernel, a process in READY should not face an idle CPU.  The kernel
gets there by RUNS of the short-term scheduler: every event that puts a process into READY or frees a CPU
starts one, and one run dispatches at most one process.  So the runs still to come must never be fewer
than the dispatches still owed.

The kernel runs here with all its CPUs and the messages between them.  `owed` counts the processes in READY
or the available CPUs, whichever is less, and `due` the runs still to come.  The steps that can leave more
owed than due are these, and each is a place in the source where a run is missing or wasted (`keepsUp`):

* a DUMP_MEMORY that memoria refuses ends its process and starts no scheduler;
* one run of the long-term scheduler admits several processes, and one short-term run follows;
* an idle CPU is not recognised, because its mark is an old one of a process that executes elsewhere;
* a syscall finds its process gone from EXEC, because a preemption has just moved it;
* a CPU ends a turn that neither a syscall nor an INTERRUPT has ended: there was no instruction, or a
  DISPATCH was taken for the answer to INIT_PROC;
* the answer to INIT_PROC comes when the CPU waits for a DISPATCH, and lets it into the cycle.

In every run without such steps the CPUs are conserved (`conserves_of_keepsUp`).
-/
import Tpso.Kernel.Estimates
import Tpso.System.Links

namespace Tpso.Work

open Tpso.Lib Tpso.Kernel
open Tpso.Cpu (ThreadsEvent)

/-! ## 1. The kernel and its CPUs -/

/-- The kernel, and its CPUs with their sockets. -/
structure State where
  kernel : Kernel.State
  cpus : List CpuLink

/-- A thread of the kernel runs its next section, for a CPU if it answers one; the client of a CPU takes its
next syscall; a CPU makes a step; or a device sends a message. -/
inductive Event where
  | run (i : Nat) (choice : Choice) (client : Nat)
  | serve (cpu : Nat)
  | cpu (cpu : Nat) (e : ThreadsEvent)
  | device (handler : Thread)

/-- The messages of devices. -/
def isDevice : Thread → Bool
  | .newDevice _ _ | .ioCompletion _ _ _ | .ioDisconnected _ => true
  | _ => false

/-- The caller of an INIT_PROC. -/
def callerOf : Thread → Option Nat
  | .initProc callerPid _ _ => some callerPid
  | _ => none

/-- One step. -/
def step (cfg : Config) (s : State) : Event → Option State
  | .run i ch client =>
    match s.kernel.threads[i]? with
    | none => none
    | some t =>
      (take client ch s.cpus t).bind fun cpus =>
        (Kernel.step cfg s.kernel (.run i ch)).map fun k =>
          ⟨k, (newPackages s.kernel k).foldl (deliver client) cpus⟩
  | .serve cpu =>
    (s.cpus[cpu]?).bind fun l =>
      match l.syscalls with
      | [] => none
      | handler :: rest =>
        (Kernel.step cfg s.kernel (.arrive handler)).map fun k =>
          ⟨k, s.cpus.set cpu { l with syscalls := rest, calls := l.calls ++ (callerOf handler).toList }⟩
  | .cpu cpu e =>
    (s.cpus[cpu]?).bind fun l => (l.step e).map fun l' => { s with cpus := s.cpus.set cpu l' }
  | .device handler =>
    if isDevice handler then
      (Kernel.step cfg s.kernel (.arrive handler)).map fun k => { s with kernel := k }
    else none

/-- At the start every CPU waits. -/
def State.start (cfg : Config) : State := ⟨.start cfg, List.replicate cfg.cpuQuantity .start⟩

/-- The kernel with its CPUs, as a transition system. -/
def work (cfg : Config) : Lts State Event := Lts.ofStep (State.start cfg) (step cfg)

/-- No thread of the kernel is running or pending, and no message on its way. -/
structure Quiescent (s : State) : Prop where
  threads : s.kernel.threads = []
  notCrashed : s.kernel.crashed = false
  sockets : ∀ l ∈ s.cpus, l.syscalls = [] ∧ l.contexts = [] ∧ l.inbox = [] ∧ l.interrupts = []

/-- The same as a test. -/
def State.quiescent (s : State) : Bool :=
  s.kernel.threads.isEmpty && !s.kernel.crashed && s.cpus.all fun l =>
    l.syscalls.isEmpty && l.contexts.isEmpty && l.inbox.isEmpty && l.interrupts.isEmpty

theorem quiescent_iff {s : State} : s.quiescent = true ↔ Quiescent s := by
  simp only [State.quiescent, Bool.and_eq_true, List.isEmpty_iff, Bool.not_eq_true', List.all_eq_true]
  constructor
  · rintro ⟨⟨hthreads, hcrash⟩, hsockets⟩
    refine ⟨hthreads, hcrash, fun l hl => ?_⟩
    obtain ⟨⟨⟨hsyscalls, hcontexts⟩, hinbox⟩, hinterrupts⟩ := hsockets l hl
    exact ⟨hsyscalls, hcontexts, hinbox, hinterrupts⟩
  · intro h
    refine ⟨⟨h.threads, h.notCrashed⟩, fun l hl => ?_⟩
    obtain ⟨hsyscalls, hcontexts, hinbox, hinterrupts⟩ := h.sockets l hl
    exact ⟨⟨⟨hsyscalls, hcontexts⟩, hinbox⟩, hinterrupts⟩

/-- **Work conservation**: in a quiescent state READY is empty or every CPU executes a process. -/
def Conserves (s : State) : Prop :=
  Quiescent s → s.kernel.queue .ready = [] ∨ ∀ l ∈ s.cpus, turnOver l.threads.main = false

/-! ## 2. What is owed and what is due -/

/-- The runs of the short-term scheduler that wait for the answer of a CPU, and will dispatch to it. -/
def waitsFor (cpu : Nat) : Thread → Bool
  | .shortWait _ c _ => decide (c = cpu)
  | _ => false

def waiting (k : Kernel.State) (cpu : Nat) : Nat := k.threads.countP (waitsFor cpu)

/-- A CPU is idle, and no run waits for its answer. -/
def idleAt (s : State) (cpu : Nat) : Bool :=
  (s.cpus[cpu]?).any CpuLink.idle && decide (waiting s.kernel cpu = 0)

/-- How many of the first `n` CPUs are idle. -/
def count (n : Nat) (idle : Nat → Bool) : Nat := (List.range n).countP idle

/-- The idle CPUs. -/
def idleCpus (s : State) : Nat := count s.cpus.length (idleAt s)

/-- Whether the short-term scheduler runs when the long-term scheduler returns. -/
def LongCaller.schedules : LongCaller → Bool → Nat
  | .always, _ => 1
  | _, moved => if moved then 1 else 0

/-- Whether the short-term scheduler runs after `process_pending_io`. -/
def AfterPending.schedules : AfterPending → Nat
  | .ioSyscall _ => 1
  | .completed (some .blocked) => 1
  | _ => 0

/-- The runs of the short-term scheduler that a thread still brings.  A run that has chosen its CPU counts
if it will dispatch there to an idle CPU. -/
def toCome (k : Kernel.State) (idle : Nat → Bool) : Thread → Nat
  | .pendingIo _ _ after => AfterPending.schedules after
  | .long caller => LongCaller.schedules caller false
  | .longScan caller moved => LongCaller.schedules caller moved
  | .longUnsuspend _ caller moved => LongCaller.schedules caller moved
  | .longAnswered _ _ caller moved => LongCaller.schedules caller moved
  | .longMove _ _ => 1
  | .longLock caller moved => LongCaller.schedules caller moved
  | .longNew caller moved => LongCaller.schedules caller moved
  | .longCreate _ caller moved => LongCaller.schedules caller moved
  | .short _ => 1
  | .shortSelected _ cpu _ => if currentOn k cpu = none ∧ idle cpu = true then 1 else 0
  | _ => 0

/-- The runs of the short-term scheduler still to come. -/
def due (s : State) : Nat := (s.kernel.threads.map (toCome s.kernel (idleAt s))).sum

/-- The CPUs that are kept back. -/
def keptBack (s : State) : Nat := (s.kernel.threads.map keepsBack).sum + (s.cpus.map CpuLink.kept).sum

/-- The idle CPUs, less those kept back. -/
def available (s : State) : Nat := idleCpus s - keptBack s

/-- The dispatches still owed. -/
def owed (s : State) : Nat := min (available s) (s.kernel.queue .ready).length

/-- The CPU that looks free to `get_cpu_to_dispatch`. -/
def looksFree (k : Kernel.State) : Option Nat :=
  k.cpus.findIdx? fun c => c.currentProcessExecuting.all fun pid => !findPcbIn .exec pid k

/-- One more CPU would not be too much. -/
def oneMore (s : State) : Bool :=
  decide (min (idleCpus s + 1 - keptBack s) (s.kernel.queue .ready).length ≤ due s)

/-- A CPU that ends a turn has nothing to go on with: no DISPATCH is unread, and no run waits for its
answer. -/
def staysIdle (s : State) (cpu : Nat) (inbox : List Cpu.FromKernel) : Bool :=
  !inbox.any isDispatch && decide (waiting s.kernel cpu = 0)

/-- A step that does not leave more owed than due, for the kinds of steps that can. -/
def keepsUp (s : State) : Event → Bool
  | .run i ch _ =>
    match s.kernel.threads[i]? with
    | none => true
    | some t =>
      match t with
      -- a syscall finds its process in EXEC
      | .io _ _ _ _ | .exit _ | .dump _ _ => (leavesExec s.kernel ch t).isSome
      -- a refused DUMP_MEMORY
      | .dumpWait _ =>
        ch.answer || decide
          (min (idleCpus s - (keptBack s - 1)) (s.kernel.queue .ready).length ≤ due s)
      -- an admission
      | .longMove (some _) _ =>
        decide (min (available s) ((s.kernel.queue .ready).length + 1) ≤ due s)
      | .longCreate pid caller moved =>
        !(ch.answer && findPcbIn .new pid s.kernel) ||
          decide (min (available s) ((s.kernel.queue .ready).length + 1) ≤
            due s + (1 - LongCaller.schedules caller moved))
      -- the choice of a CPU
      | .short _ => decide (owed s = 0) || (looksFree s.kernel).any (idleAt s)
      | _ => true
  -- `fetch` or `decode` fails
  | .cpu cpu .noInstruction => (s.cpus[cpu]?).all fun l => !staysIdle s cpu l.inbox || oneMore s
  -- INIT_PROC is answered by a DISPATCH
  | .cpu cpu (.answer (.dispatch _ _)) => (s.cpus[cpu]?).all fun l => !staysIdle s cpu l.inbox.tail || oneMore s
  -- `recv_dispatch` receives a CONFIRMATION
  | .cpu _ (.recvDispatch .confirmation) => false
  | _ => true

/-! ## 3. What the sections do to READY and to the runs to come -/

section Sections

variable {cfg : Config} {k : Kernel.State} {ch : Choice} {idle : Nat → Bool}

theorem ready_movePcb {a b : ProcessState} (ha : a ≠ .ready) (hb : b ≠ .ready) (pid : Nat) :
    (movePcb a b pid k).queue .ready = k.queue .ready := by
  simp [movePcb, addPcbTo, removePcbFrom, Function.update_of_ne ha.symm, Function.update_of_ne hb.symm]

theorem ready_movePcb_to {a : ProcessState} (ha : a ≠ .ready) (pid : Nat) :
    (movePcb a .ready pid k).queue .ready = k.queue .ready ++ [pid] := by
  simp [movePcb, addPcbTo, removePcbFrom, Function.update_of_ne ha.symm]

theorem ready_sortList (st : ProcessState) (order : List Nat) :
    ((sortList st order k).queue .ready).length = (k.queue .ready).length := by
  unfold sortList
  split
  · rename_i hperm
    by_cases hst : st = .ready
    · subst hst
      simpa using hperm.length_eq
    · simp [Function.update_of_ne (Ne.symm hst)]
  · rfl

/-- A section after which READY is as long as before, no CPU is kept back by its threads, and no run to
come is lost. -/
structure Steady (k : Kernel.State) (idle : Nat → Bool) (t : Thread)
    (r : Kernel.State × List Thread) : Prop where
  ready : (r.1.queue .ready).length = (k.queue .ready).length
  keeps : (r.2.map keepsBack).sum = 0
  comes : toCome k idle t ≤ (r.2.map (toCome r.1 idle)).sum

/-- A section that leaves READY alone and goes on as one thread. -/
theorem Steady.one {t u : Thread} {k' : Kernel.State}
    (hready : (k'.queue .ready).length = (k.queue .ready).length) (hkeeps : keepsBack u = 0)
    (hcomes : toCome k idle t ≤ toCome k' idle u) : Steady k idle t (k', [u]) :=
  ⟨hready, by simp [hkeeps], by simpa using hcomes⟩

/-- A section that leaves READY alone and ends its thread. -/
theorem Steady.nil {t : Thread} {k' : Kernel.State}
    (hready : (k'.queue .ready).length = (k.queue .ready).length) (hcomes : toCome k idle t = 0) :
    Steady k idle t (k', []) := ⟨hready, rfl, by simp [hcomes]⟩

/-- The return of the long-term scheduler brings the run it owes. -/
theorem Steady.longReturn {t : Thread} {k' : Kernel.State} {caller : LongCaller} {moved : Bool}
    (hready : (k'.queue .ready).length = (k.queue .ready).length)
    (hcomes : toCome k idle t = LongCaller.schedules caller moved) :
    Steady k idle t (longReturn k' caller moved) := by
  cases caller with
  | always => exact Steady.one hready rfl hcomes.le
  | ifMoved =>
    cases moved with
    | true => exact Steady.one hready rfl hcomes.le
    | false => exact Steady.nil hready hcomes
  | disconnect socket =>
    cases moved with
    | true => exact Steady.one hready rfl hcomes.le
    | false => exact Steady.nil hready hcomes

theorem schedules_le (caller : LongCaller) (moved : Bool) :
    LongCaller.schedules caller moved ≤ 1 ∧ LongCaller.schedules caller true = 1 := by
  cases caller with
  | always => simp [LongCaller.schedules]
  | ifMoved => cases moved <;> simp [LongCaller.schedules]
  | disconnect socket => cases moved <;> simp [LongCaller.schedules]

theorem ready_getNextProcessToInitializeFrom (cfg : Config) (st : ProcessState) (order : List Nat) :
    ((getNextProcessToInitializeFrom cfg st order k).1.queue .ready).length =
      (k.queue .ready).length := by
  obtain ⟨order', heq⟩ := getNextProcessToInitializeFrom_eq k cfg st order
  rw [heq]
  exact ready_sortList st order'

theorem ready_mediumRollback (pid : Nat) :
    ((mediumRollback k pid).queue .ready).length = (k.queue .ready).length := by
  unfold mediumRollback
  split
  · rw [ready_movePcb (by decide) (by decide)]
  · rfl

/-- The threads whose sections are not steady by themselves. -/
def moves : Thread → Bool
  | .io _ _ _ _ | .exit _ | .dump _ _ | .dumpWait _ | .ioCompletion _ _ _ | .longMove _ _
  | .longCreate _ _ _ | .short _ | .shortSelected _ _ _ | .shortWait _ _ _ => true
  | _ => false

/-- **All other sections are steady.** -/
theorem nextSection_steady {t : Thread} (ht : moves t = false) :
    Steady k idle t (nextSection cfg k ch t) := by
  cases t with
  | initProc callerPid callerPc size =>
    simp only [nextSection, handleInitProcSyscall]
    split
    · split
      · exact Steady.nil rfl rfl
      · exact Steady.one (by simp [send, addPcbToNew, setPc]) rfl (by simp [toCome])
    · exact Steady.nil rfl rfl
  | newDevice socket deviceName =>
    simp only [nextSection, processNewDevice]
    split
    · exact Steady.nil rfl rfl
    · exact Steady.one rfl rfl (by simp [toCome])
  | ioDisconnected socket =>
    simp only [nextSection, ioDisconnected]
    split
    · exact Steady.nil rfl rfl
    · split
      · exact Steady.nil rfl rfl
      · rename_i pid _
        split
        · have hready : (movePcb .blocked .exit pid k).queue .ready = k.queue .ready :=
            ready_movePcb (by decide) (by decide) pid
          exact Steady.nil (congrArg List.length hready) rfl
        · exact Steady.one rfl rfl (by simp [toCome])
  | pendingIo deviceName socket after =>
    have hready : ((processPendingIo k deviceName socket ch.answer).queue .ready).length =
        (k.queue .ready).length := by rw [(processPendingIo_same k deviceName socket ch.answer).queue]
    refine ⟨hready, ?_, ?_⟩
    · simp only [nextSection]
      unfold AfterPending.threads
      split <;> simp [keepsBack]
    · simp only [nextSection, toCome, AfterPending.schedules, AfterPending.threads]
      split <;> simp [toCome]
  | disconnectSusp socket pid =>
    simp only [nextSection, handleFoundSuspended]
    split
    · have hready : (movePcb .suspBlocked .exit pid k).queue .ready = k.queue .ready :=
        ready_movePcb (by decide) (by decide) pid
      exact Steady.one (congrArg List.length hready) rfl (by simp [toCome])
    · exact Steady.nil rfl rfl
  | medium pid =>
    simp only [nextSection, runMediumScheduler]
    split
    · split
      · have hready : (movePcb .blocked .suspBlocked pid k).queue .ready = k.queue .ready :=
          ready_movePcb (by decide) (by decide) pid
        split
        · exact Steady.one (congrArg List.length hready) rfl (by simp [toCome])
        · exact Steady.one (congrArg List.length hready) rfl (by simp [toCome])
      · exact Steady.nil rfl rfl
    · exact Steady.nil rfl rfl
  | mediumSwap pid =>
    simp only [nextSection]
    split
    · exact Steady.one rfl rfl (by simp [toCome])
    · exact Steady.nil (ready_mediumRollback pid) rfl
  | mediumSent pid => exact Steady.one rfl rfl (by simp [toCome])
  | mediumAnswered pid success =>
    simp only [nextSection]
    split
    · exact Steady.one rfl rfl (by simp [toCome])
    · exact Steady.nil (ready_mediumRollback pid) rfl
  | long caller =>
    simp only [nextSection]
    split
    · exact Steady.one rfl rfl (by simp [toCome])
    · exact Steady.longReturn rfl rfl
  | longScan caller moved =>
    have hready := ready_getNextProcessToInitializeFrom (k := k) cfg .suspReady ch.order
    simp only [nextSection, longScan]
    split
    · rename_i k1 heq
      rw [heq] at hready
      exact Steady.one hready rfl (by simp [toCome])
    · rename_i k1 pid heq
      rw [heq] at hready
      exact Steady.one hready rfl (by simp [toCome])
  | longUnsuspend pid caller moved => exact Steady.one rfl rfl (by simp [toCome])
  | longAnswered pid success caller moved =>
    simp only [nextSection, longAnswered]
    split
    · refine Steady.one (by simp [removePcbFrom]) rfl ?_
      simp only [toCome]
      exact (schedules_le caller moved).1
    · exact Steady.one rfl rfl (by simp [toCome])
  | longLock caller moved => exact Steady.one rfl rfl (by simp [toCome])
  | longNew caller moved =>
    have hready := ready_getNextProcessToInitializeFrom (k := k) cfg .new ch.order
    simp only [nextSection, longNew]
    split
    · rename_i k1 heq
      rw [heq] at hready
      exact Steady.longReturn hready rfl
    · rename_i k1 pid heq
      rw [heq] at hready
      exact Steady.one hready rfl (by simp [toCome])
  | _ => simp [moves] at ht

/-- A syscall that finds its process in EXEC goes on to a run of the short-term scheduler, or keeps its
CPU back. -/
theorem nextSection_release {t : Thread} (h : (leavesExec k ch t).isSome = true)
    (ht : keepsBack t = 1) :
    ((nextSection cfg k ch t).1.queue .ready).length = (k.queue .ready).length ∧
      ∃ u, (nextSection cfg k ch t).2 = [u] ∧ ∀ k' idle', keepsBack u + toCome k' idle' u = 1 := by
  have hexit : ∀ pid, findPcbIn .exec pid k = true →
      ((exitProcessSyscall k pid).1.queue .ready).length = (k.queue .ready).length ∧
        (exitProcessSyscall k pid).2 = [.long .always] := by
    intro pid hfound
    have hready : (movePcb .exec .exit pid k).queue .ready = k.queue .ready :=
      ready_movePcb (by decide) (by decide) pid
    rw [exitProcessSyscall, if_pos hfound]
    exact ⟨congrArg List.length hready, rfl⟩
  cases t with
  | io pid pc sleepTime deviceName =>
    simp only [leavesExec] at h
    split at h
    · rename_i hcond
      simp only [Bool.and_eq_true, Bool.or_eq_true] at hcond
      obtain ⟨hfound, hdevice⟩ := hcond
      simp only [nextSection, handleIoProcessSyscall]
      split
      · exact ⟨(hexit pid hfound).1, _, (hexit pid hfound).2, fun _ _ => rfl⟩
      · rename_i connection hconn
        split
        · rename_i hnone
          simp [hconn, hnone] at hdevice
        · rw [if_pos hfound]
          have hready : (movePcb .exec .blocked pid (setPc pid pc k)).queue .ready = k.queue .ready :=
            ready_movePcb (by decide) (by decide) pid
          exact ⟨congrArg List.length hready, _, rfl, fun _ _ => rfl⟩
    · simp at h
  | exit pid =>
    simp only [leavesExec] at h
    split at h
    · rename_i hfound
      exact ⟨(hexit pid hfound).1, _, (hexit pid hfound).2, fun _ _ => rfl⟩
    · simp at h
  | dump pid pc =>
    simp only [leavesExec] at h
    split at h
    · rename_i hfound
      simp only [nextSection, dumpMemorySyscall, if_pos hfound]
      have hready : (movePcb .exec .blocked pid (setPc pid pc k)).queue .ready = k.queue .ready :=
        ready_movePcb (by decide) (by decide) pid
      exact ⟨congrArg List.length hready, _, rfl, fun _ _ => rfl⟩
    · simp at h
  | dumpWait pid => simp [leavesExec] at h
  | _ => simp [keepsBack] at ht

/-- The choice of a CPU and a process leaves READY as long as it was, and goes on with at most one
thread, which keeps no CPU back. -/
theorem shortSelect_ready (caller : ShortCaller) :
    ((shortSelect cfg k ch caller).1.queue .ready).length = (k.queue .ready).length ∧
      ((shortSelect cfg k ch caller).2.map keepsBack).sum = 0 := by
  obtain ⟨s1, execOrder, order, hclear, hsame, hthreads⟩ := shortSelect_cases cfg k ch caller
  constructor
  · have hs1 : s1.queue = k.queue := by
      rcases hclear with rfl | ⟨cpu, -, rfl⟩
      · rfl
      · rfl
    rw [hsame.queue, ready_sortList, ready_sortList, hs1]
  · rcases hthreads with hnil | ⟨cpu, pid, hone, -, -⟩
    · simp [hnil]
    · simp [hone, keepsBack]

/-- When a CPU looks free it is chosen, and its mark is cleared. -/
theorem shortSelect_looksFree (caller : ShortCaller) {cpu : Nat} (h : looksFree k = some cpu) :
    k.queue .ready = [] ∨ ∃ pid, (shortSelect cfg k ch caller).2 = [.shortSelected caller cpu pid] ∧
      currentOn (shortSelect cfg k ch caller).1 cpu = none := by
  have hcpu : getCpuToDispatch cfg ch.execOrder k = (setCurrent cpu none k, some cpu) := by
    unfold getCpuToDispatch
    rw [show (k.cpus.findIdx? fun c => c.currentProcessExecuting.all fun pid => !findPcbIn .exec pid k) =
      some cpu from h]
  have hlt : cpu < k.cpus.length := (List.findIdx?_eq_some_iff_getElem.mp h).1
  have hready : ((getNextProcessToDispatch cfg ch.order (setCurrent cpu none k)).1.queue .ready).length =
      (k.queue .ready).length := by
    simp only [getNextProcessToDispatch]
    split
    · rw [ready_sortList]
      rfl
    · rfl
  have hcpus : (getNextProcessToDispatch cfg ch.order (setCurrent cpu none k)).1.cpus =
      (setCurrent cpu none k).cpus := by
    simp only [getNextProcessToDispatch]
    split
    · unfold sortList
      split
      · rfl
      · rfl
    · rfl
  simp only [shortSelect, hcpu]
  cases hnext : getNextProcessToDispatch cfg ch.order (setCurrent cpu none k) with
  | mk k2 next =>
    rw [hnext] at hready hcpus
    have hhead : next = (k2.queue .ready).head? := by
      have := congrArg (fun r => (r.2, (r.1.queue .ready).head?)) hnext
      simp only [getNextProcessToDispatch, Prod.mk.injEq] at this
      rw [← this.1, ← this.2]
    cases next with
    | none =>
      refine Or.inl ?_
      have hnil : k2.queue .ready = [] := List.head?_eq_none_iff.mp hhead.symm
      rw [← List.length_eq_zero_iff, ← hready]
      simp [hnil]
    | some pid =>
      refine Or.inr ⟨pid, rfl, ?_⟩
      simp only [currentOn] at hcpus ⊢
      rw [hcpus]
      simp [setCurrent, hlt]

/-- A dispatch takes one process from READY. -/
theorem ready_dispatch {cpu pid : Nat} (h : pid ∈ k.queue .ready) :
    ((dispatch cpu pid k).queue .ready).length + 1 = (k.queue .ready).length := by
  have hpos : 0 < (k.queue .ready).length := List.length_pos_of_mem h
  have herase : (dispatch cpu pid k).queue .ready = (k.queue .ready).erase pid := by
    simp [dispatch, setCurrent, send, addPcbTo, removePcbFrom]
  rw [herase, List.length_erase_of_mem h]
  omega

theorem ready_preempt (cpu : Nat) (samePid : Bool) (pc : Int) :
    ((preempt k cpu samePid pc).queue .ready).length ≤ (k.queue .ready).length + 1 := by
  unfold preempt
  split
  · omega
  · split
    · rw [ready_movePcb_to (by decide)]
      simp [setPc]
    · omega

theorem ready_shortReturn (caller : ShortCaller) :
    (shortReturn k caller).1.queue = k.queue ∧ (shortReturn k caller).2 = [] :=
  ⟨(shortReturn_same k caller).1.queue, (shortReturn_same k caller).2⟩

/-- A section that touches the marks of the CPUs locks them. -/
theorem cpus_of_not_uses {t : Thread} (h : Lock.cpuConnections ∉ t.uses) :
    (nextSection cfg k ch t).1.cpus = k.cpus := by
  cases hspecial : t.isSpecial with
  | false => exact (nextSection_effect cfg k ch hspecial).cpus.1
  | true =>
    cases t with
    | dumpWait pid =>
      obtain ⟨dst, -, hstate, -⟩ := dumpMemoryAnswered_cases k pid ch.answer
      show (dumpMemoryAnswered k pid ch.answer).1.cpus = k.cpus
      rw [hstate]
      rfl
    | short caller => simp [Thread.uses] at h
    | shortSelected caller cpu pid => simp [Thread.uses, Thread.holds] at h
    | shortWait caller cpu pid => simp [Thread.uses, Thread.holds] at h
    | _ => simp [Thread.isSpecial] at hspecial

/-- The threads that send DISPATCHes and INTERRUPTs. -/
def reaches : Thread → Bool
  | .shortSelected _ _ _ | .shortWait _ _ _ => true
  | _ => false

/-- **All other sections reach no CPU**, and none of their threads waits for one. -/
theorem nextSection_quiet {t : Thread} (ht : reaches t = false) :
    (∀ p ∈ newPackages k (nextSection cfg k ch t).1, cpuOf p = none) ∧
      ∀ u ∈ (nextSection cfg k ch t).2, ∀ cpu, waitsFor cpu u = false := by
  constructor
  · have hnone : ∀ k' : Kernel.State, k'.sent = k.sent → ∀ p ∈ newPackages k k', cpuOf p = none := by
      intro k' hsent p hp
      rw [newPackages_of_eq hsent] at hp
      simp at hp
    have hone : ∀ (k' : Kernel.State) (q : Package), k'.sent = q :: k.sent → cpuOf q = none →
        ∀ p ∈ newPackages k k', cpuOf p = none := by
      intro k' q hsent hq p hp
      rw [newPackages_of_cons hsent, List.mem_singleton] at hp
      rw [hp, hq]
    have hexit : ∀ pid, (exitProcessSyscall k pid).1.sent = k.sent := by
      intro pid
      unfold exitProcessSyscall
      split
      · rfl
      · rfl
    cases t with
    | initProc callerPid callerPc size =>
      simp only [nextSection, handleInitProcSyscall]
      split
      · split
        · exact hnone _ rfl
        · exact hone _ (.confirmation callerPid) rfl rfl
      · exact hnone _ rfl
    | io pid pc sleepTime deviceName =>
      refine hnone _ ?_
      simp only [nextSection, handleIoProcessSyscall]
      split
      · exact hexit pid
      · split
        · rfl
        · split
          · rfl
          · rfl
    | exit pid => exact hnone _ (hexit pid)
    | newDevice socket deviceName =>
      refine hnone _ ?_
      simp only [nextSection, processNewDevice]
      split
      · rfl
      · rfl
    | pendingIo deviceName socket after =>
      simp only [nextSection]
      rcases Devices.processPendingIo_cases deviceName socket ch.answer with
        heq | ⟨c, request, rest, -, -, -, heq⟩
      · rw [heq]
        exact hnone _ rfl
      · rw [heq]
        exact hone _ (.ioOperation socket request.pid request.sleepTime) rfl rfl
    | shortSelected caller cpu pid => simp [reaches] at ht
    | shortWait caller cpu pid => simp [reaches] at ht
    | _ => exact hnone _ (nextSection_silent rfl).sent
  · have hselected : ∀ u : Thread, u.selected = none → ∀ cpu, waitsFor cpu u = false := by
      intro u hu cpu
      cases u with
      | shortWait caller c pid => simp [Thread.selected] at hu
      | _ => rfl
    cases hspecial : t.isSpecial with
    | false => exact fun u hu => hselected u (nextSection_selected cfg k ch hspecial u hu)
    | true =>
      cases t with
      | dumpWait pid =>
        simp only [nextSection, dumpMemoryAnswered]
        split
        · simp [waitsFor]
        · simp
      | short caller =>
        obtain ⟨s1, execOrder, order, -, -, hthreads⟩ := shortSelect_cases cfg k ch caller
        simp only [nextSection]
        rcases hthreads with hnil | ⟨cpu, pid, hone, -, -⟩
        · simp [hnil]
        · simp [hone, waitsFor]
      | shortSelected caller cpu pid => simp [reaches] at ht
      | shortWait caller cpu pid => simp [reaches] at ht
      | _ => simp [Thread.isSpecial] at hspecial

/-- A run that has chosen its CPU sends it a DISPATCH, an INTERRUPT, or nothing. -/
theorem shortDecide_packages (caller : ShortCaller) (cpu pid : Nat) (srt : Bool) :
    (currentOn k cpu = none ∧ (shortDecide cfg k caller cpu pid srt).2 = [] ∧
      ∃ pc, newPackages k (shortDecide cfg k caller cpu pid srt).1 = [.dispatch cpu pid pc]) ∨
    (currentOn k cpu ≠ none ∧ (shortDecide cfg k caller cpu pid srt).2 = [.shortWait caller cpu pid] ∧
      ∃ executing, newPackages k (shortDecide cfg k caller cpu pid srt).1 = [.interrupt cpu executing]) ∨
    (currentOn k cpu ≠ none ∧ (shortDecide cfg k caller cpu pid srt).2 = [] ∧
      newPackages k (shortDecide cfg k caller cpu pid srt).1 = []) := by
  have hreturn : ∀ k' : Kernel.State,
      (shortReturn k' caller).1.sent = k'.sent ∧ (shortReturn k' caller).2 = [] :=
    fun k' => ⟨(silent_shortReturn k' caller).sent, (shortReturn_same k' caller).2⟩
  unfold shortDecide
  split
  · rename_i hnone
    refine Or.inl ⟨hnone, (hreturn _).2, (k.pcbs pid).pc, newPackages_of_cons ?_⟩
    rw [(hreturn _).1]
    simp [dispatch, setCurrent, send, addPcbTo, removePcbFrom]
  · rename_i executing hsome
    have hne : currentOn k cpu ≠ none := by simp [hsome]
    split
    · exact Or.inr (Or.inl ⟨hne, rfl, _, newPackages_of_cons rfl⟩)
    · exact Or.inr (Or.inr ⟨hne, (hreturn k).2, newPackages_of_eq (hreturn k).1⟩)

/-- A run that has had its answer sends a DISPATCH. -/
theorem shortAnswered_packages (caller : ShortCaller) (cpu pid : Nat) (samePid : Bool) (pc : Int) :
    (shortAnswered k caller cpu pid samePid pc).2 = [] ∧
      ∃ pc', newPackages k (shortAnswered k caller cpu pid samePid pc).1 = [.dispatch cpu pid pc'] := by
  refine ⟨(shortReturn_same _ caller).2, ((preempt k cpu samePid pc).pcbs pid).pc, newPackages_of_cons ?_⟩
  have hsent := (silent_preempt (k := k) cpu samePid pc).sent
  rw [shortAnswered, (silent_shortReturn _ caller).sent]
  show _ :: (preempt k cpu samePid pc).sent = _
  rw [hsent]

/-- What a thread brings does not depend on the others. -/
theorem toCome_threads (k : Kernel.State) (ts : List Thread) :
    toCome { k with threads := ts } = toCome k := by
  funext idle u
  cases u with
  | shortSelected caller cpu pid => rfl
  | _ => rfl

/-- A CPU that comes to be idle takes no run away. -/
theorem toCome_mono {idle' : Nat → Bool} (h : ∀ cpu, idle cpu = true → idle' cpu = true) (u : Thread) :
    toCome k idle u ≤ toCome k idle' u := by
  cases u with
  | shortSelected caller cpu pid =>
    simp only [toCome]
    split
    · rename_i hidle
      rw [if_pos ⟨hidle.1, h cpu hidle.2⟩]
    · exact Nat.zero_le _
  | _ => exact le_rfl

/-- A CPU is idle no more. -/
def reserve (idle : Nat → Bool) : Option Nat → Nat → Bool
  | none => idle
  | some cpu => Function.update idle cpu false

/-- The CPU that a section reaches. -/
def reserved (k k' : Kernel.State) : Option Nat := (newPackages k k').findSome? cpuOf

theorem reserved_of_quiet {k' : Kernel.State} (h : ∀ p ∈ newPackages k k', cpuOf p = none) :
    reserved k k' = none := List.findSome?_eq_none_iff.mpr h

theorem reserved_of_single {k' : Kernel.State} {p : Package} (h : newPackages k k' = [p]) :
    reserved k k' = cpuOf p := by
  simp [reserved, h]

/-- **What another thread brings is not changed by a section.** -/
theorem toCome_other {t u : Thread} {others : List Thread} (hfree : t.free others = true)
    (hu : u ∈ others) :
    toCome (nextSection cfg k ch t).1 (reserve idle (reserved k (nextSection cfg k ch t).1)) u =
      toCome k idle u := by
  cases u with
  | shortSelected caller cpu pid =>
    have hnot : Lock.cpuConnections ∉ t.uses :=
      fun hl => not_holds_of_free hfree hu hl (by simp [Thread.holds])
    have hquiet : reaches t = false := by
      cases t with
      | shortSelected caller' cpu' pid' => simp [Thread.uses, Thread.holds] at hnot
      | shortWait caller' cpu' pid' => simp [Thread.uses, Thread.holds] at hnot
      | _ => rfl
    have hcur : currentOn (nextSection cfg k ch t).1 cpu = currentOn k cpu := by
      simp only [currentOn, cpus_of_not_uses hnot]
    rw [reserved_of_quiet (nextSection_quiet hquiet).1]
    simp only [toCome, hcur, reserve]
  | _ => rfl

end Sections

/-! ## 4. The idle CPUs -/

section Counting

/-- A change at one place. -/
theorem count_update {n c : Nat} (hc : c < n) (idle : Nat → Bool) (b : Bool) :
    count n (Function.update idle c b) + (idle c).toNat = count n idle + b.toNat := by
  induction n with
  | zero => exact absurd hc (Nat.not_lt_zero c)
  | succ n ih =>
    simp only [count, List.range_succ, List.countP_append, List.countP_singleton] at ih ⊢
    rcases Nat.lt_succ_iff_lt_or_eq.mp hc with hlt | rfl
    · have hne : n ≠ c := hlt.ne'
      rw [Function.update_of_ne hne]
      have := ih hlt
      omega
    · have hbelow : (List.range c).countP (Function.update idle c b) = (List.range c).countP idle := by
        refine List.countP_congr fun i hi => ?_
        rw [Function.update_of_ne (List.mem_range.mp hi).ne]
      rw [hbelow, Function.update_self]
      cases b <;> cases idle c <;> simp

end Counting

section Cpus

variable {s s' : State}

/-- Every pending INTERRUPT has a run that waits for its answer. -/
def Answered (s : State) : Prop :=
  ∀ cpu l, s.cpus[cpu]? = some l → l.pending ≤ waiting s.kernel cpu

/-- A CPU without a number is not idle. -/
theorem idleAt_of_le {cpu : Nat} (h : s.cpus.length ≤ cpu) : idleAt s cpu = false := by
  simp [idleAt, List.getElem?_eq_none h]

/-- A CPU that is seen as not idle. -/
theorem idleAt_of_view {cpu : Nat} {vs : List View} {g : View → View}
    (hview : s.cpus.map CpuLink.view = vs.modify cpu g) (hg : ∀ v, (g v).idle = false) :
    idleAt s cpu = false := by
  have h := congrArg (fun vs : List View => vs[cpu]?) hview
  simp only [List.getElem?_map, List.getElem?_modify_eq] at h
  cases hl : s.cpus[cpu]? with
  | none => simp [idleAt, hl]
  | some l =>
    rw [hl] at h
    obtain ⟨v, -, hv⟩ := Option.map_eq_some_iff.mp h.symm
    have hidle : l.idle = false := (congrArg View.idle hv).symm.trans (hg v)
    simp [idleAt, hl, hidle]

/-- A CPU for which a run waits. -/
theorem idleAt_of_waiting {cpu : Nat} (h : 0 < waiting s.kernel cpu) : idleAt s cpu = false := by
  simp [idleAt, h.ne']

/-- The CPUs after a step: their number and what they keep back are as they were, idle are the given ones,
and every pending INTERRUPT still has its run. -/
structure Cpus (s s' : State) (idle : Nat → Bool) : Prop where
  length : s'.cpus.length = s.cpus.length
  kept : (s'.cpus.map CpuLink.kept).sum = (s.cpus.map CpuLink.kept).sum
  idle : idleAt s' = idle
  answered : Answered s → Answered s'

/-- One CPU is seen differently, and the runs that wait for it may be others. -/
theorem Cpus.of_modify {cpu : Nat} {g : View → View} {b : Bool}
    (hview : s'.cpus.map CpuLink.view = (s.cpus.map CpuLink.view).modify cpu g)
    (hkept : ∀ v, (g v).kept = v.kept)
    (hothers : ∀ c, c ≠ cpu → waiting s'.kernel c = waiting s.kernel c)
    (hidle : idleAt s' cpu = b)
    (hpending : ∀ v : View, (s.cpus.map CpuLink.view)[cpu]? = some v → v.pending ≤ waiting s.kernel cpu →
      (g v).pending ≤ waiting s'.kernel cpu) :
    Cpus s s' (Function.update (idleAt s) cpu b) := by
  have hget : ∀ c, (s'.cpus[c]?).map CpuLink.view =
      (s.cpus[c]?).map fun l => if cpu = c then g l.view else l.view := by
    intro c
    have h := congrArg (fun vs : List View => vs[c]?) hview
    simp only [List.getElem?_map, List.getElem?_modify] at h
    rw [h]
    cases s.cpus[c]? <;> simp
  refine ⟨?_, ?_, ?_, ?_⟩
  · simpa using congrArg List.length hview
  · have hmap : s'.cpus.map CpuLink.kept = s.cpus.map CpuLink.kept := by
      refine List.ext_getElem? fun c => ?_
      have h := congrArg (Option.map View.kept) (hget c)
      simp only [Option.map_map] at h
      rw [List.getElem?_map, List.getElem?_map]
      refine h.trans (congrArg (fun f => Option.map f s.cpus[c]?) (funext fun l => ?_))
      simp only [Function.comp_apply]
      split
      · exact hkept l.view
      · rfl
    rw [hmap]
  · funext c
    by_cases hc : c = cpu
    · rw [hc, Function.update_self, hidle]
    · have h := congrArg (fun o : Option View => o.any View.idle) (hget c)
      simp only [Option.any_map, if_neg (Ne.symm hc)] at h
      rw [Function.update_of_ne hc, idleAt, idleAt, hothers c hc]
      exact congrArg (· && _) h
  · intro ha c l' hl'
    have h := hget c
    rw [hl', Option.map_some] at h
    obtain ⟨l, hl, hview'⟩ := Option.map_eq_some_iff.mp h.symm
    have hold := ha c l hl
    have hpend : l'.pending = l'.view.pending := rfl
    rw [hpend, ← hview']
    by_cases hc : c = cpu
    · subst hc
      simp only [↓reduceIte]
      exact hpending l.view (by rw [List.getElem?_map, hl]; rfl) hold
    · rw [if_neg (Ne.symm hc), hothers c hc]
      exact hold

/-- Nothing is seen of the step. -/
theorem Cpus.of_same (hview : s'.cpus.map CpuLink.view = s.cpus.map CpuLink.view)
    (hwaiting : waiting s'.kernel = waiting s.kernel) : Cpus s s' (idleAt s) := by
  have hidle : idleAt s' 0 = idleAt s 0 := by
    have h := congrArg (fun vs : List View => (vs[0]?).any View.idle) hview
    simp only [List.getElem?_map, Option.any_map] at h
    rw [idleAt, idleAt, hwaiting]
    exact congrArg (· && _) h
  have h := @Cpus.of_modify s s' 0 id (idleAt s 0)
    (by rw [List.modify_id]; exact hview) (fun _ => rfl) (fun c _ => congrFun hwaiting c) hidle
    fun v _ hv => by rw [hwaiting]; exact hv
  rwa [Function.update_eq_self] at h

/-- **The CPUs after a section**: the one it reaches is idle no more. -/
theorem cpus_section {cfg : Config} {ch : Choice} {t : Thread} {others : List Thread} {client : Nat}
    {cpus : List CpuLink} (hperm : s.kernel.threads.Perm (t :: others))
    (htake : take client ch s.cpus t = some cpus)
    (hkernel : s'.kernel = { (nextSection cfg s.kernel ch t).1 with
      threads := others ++ (nextSection cfg s.kernel ch t).2 })
    (hcpus : s'.cpus = (newPackages s.kernel (nextSection cfg s.kernel ch t).1).foldl (deliver client) cpus) :
    Cpus s s' (reserve (idleAt s) (reserved s.kernel (nextSection cfg s.kernel ch t).1)) := by
  have hbefore : ∀ c, waiting s.kernel c = others.countP (waitsFor c) + if waitsFor c t then 1 else 0 := by
    intro c
    rw [waiting, hperm.countP_eq, List.countP_cons]
  have hafter : ∀ c, waiting s'.kernel c =
      others.countP (waitsFor c) + (nextSection cfg s.kernel ch t).2.countP (waitsFor c) := by
    intro c
    rw [waiting, hkernel, List.countP_append]
  cases hreach : reaches t with
  | false =>
    obtain ⟨hquiet, hnew⟩ := @nextSection_quiet cfg s.kernel ch t hreach
    rw [reserved_of_quiet hquiet]
    refine Cpus.of_same ?_ (funext fun c => ?_)
    · rw [hcpus, view_deliver_quiet hquiet]
      refine view_take (fun caller cpu pid heq => ?_) htake
      rw [heq] at hreach
      simp [reaches] at hreach
    · have hzero : (nextSection cfg s.kernel ch t).2.countP (waitsFor c) = 0 := by
        rw [List.countP_eq_zero]
        intro u hu
        simp [hnew u hu c]
      have ht : waitsFor c t = false := by
        cases t with
        | shortWait caller cpu pid => simp [reaches] at hreach
        | _ => rfl
      rw [hbefore, hafter, hzero, ht]
      rfl
  | true =>
    cases t with
    | shortSelected caller cpu pid =>
      obtain rfl : s.cpus = cpus := Option.some.inj htake
      have hsel : ∀ c, waitsFor c (.shortSelected caller cpu pid) = false := fun _ => rfl
      rcases @shortDecide_packages cfg s.kernel caller cpu pid ch.preempt with
        ⟨-, hnew, pc, hps⟩ | ⟨-, hnew, executing, hps⟩ | ⟨-, hnew, hps⟩
      · have hsame : ∀ c, waiting s'.kernel c = waiting s.kernel c := by
          intro c
          rw [hafter, hbefore, hsel, nextSection, hnew]
          rfl
        have hview := view_deliver_dispatch client s.cpus cpu pid pc
        rw [nextSection, hps, List.foldl_cons, List.foldl_nil] at hcpus
        rw [← hcpus] at hview
        rw [nextSection, reserved_of_single hps]
        refine Cpus.of_modify hview (fun _ => rfl) (fun c _ => hsame c)
          (idleAt_of_view hview fun _ => rfl) fun v _ hv => ?_
        rw [hsame]
        exact hv
      · have hcount : ∀ c, waiting s'.kernel c = waiting s.kernel c + if cpu = c then 1 else 0 := by
          intro c
          rw [hafter, hbefore, hsel, nextSection, hnew]
          simp [waitsFor, List.countP_cons]
        have hview := view_deliver_interrupt client s.cpus cpu executing
        rw [nextSection, hps, List.foldl_cons, List.foldl_nil] at hcpus
        rw [← hcpus] at hview
        rw [nextSection, reserved_of_single hps]
        refine Cpus.of_modify hview (fun _ => rfl) (fun c hc => ?_) (idleAt_of_waiting ?_) fun v _ hv => ?_
        · rw [hcount, if_neg (Ne.symm hc), Nat.add_zero]
        · rw [hcount, if_pos rfl]
          exact Nat.succ_pos _
        · rw [hcount, if_pos rfl]
          exact Nat.succ_le_succ hv
      · rw [nextSection, reserved_of_quiet (by simp [hps])]
        rw [nextSection, hps] at hcpus
        refine Cpus.of_same (congrArg _ hcpus) (funext fun c => ?_)
        rw [hafter, hbefore, hsel, nextSection, hnew]
        rfl
    | shortWait caller cpu pid =>
      obtain ⟨hpos, htaken⟩ := view_take_shortWait htake
      obtain ⟨hnew, pc, hps⟩ := @shortAnswered_packages s.kernel caller cpu pid ch.answer ch.pc
      have hcount : ∀ c, waiting s.kernel c = waiting s'.kernel c + if cpu = c then 1 else 0 := by
        intro c
        rw [hafter, hbefore, nextSection, hnew]
        simp [waitsFor]
      have hview := view_deliver_dispatch client cpus cpu pid pc
      rw [nextSection, hps, List.foldl_cons, List.foldl_nil] at hcpus
      rw [← hcpus, htaken, List.modify_modify_eq] at hview
      rw [nextSection, reserved_of_single hps]
      refine Cpus.of_modify hview (fun _ => rfl) (fun c hc => ?_) (idleAt_of_view hview fun _ => rfl)
        fun v hget hv => ?_
      · rw [hcount, if_neg (Ne.symm hc), Nat.add_zero]
      · rw [hcount, if_pos rfl] at hv
        show v.pending - 1 ≤ waiting s'.kernel cpu
        omega
    | _ => simp [reaches] at hreach

end Cpus

/-! ## 5. The invariant -/

/-- The runs to come are enough, the process that a run has selected is still in READY, and every pending
INTERRUPT has a run that waits for its answer. -/
structure Inv (s : State) : Prop where
  selected : Selected s.kernel
  enough : owed s ≤ due s
  answered : Answered s

section Step

variable {cfg : Config} {s s' : State} {ch : Choice} {t : Thread} {others : List Thread}

/-- The idle CPUs after a section. -/
def idleAfter (cfg : Config) (s : State) (ch : Choice) (t : Thread) : Nat → Bool :=
  reserve (idleAt s) (reserved s.kernel (nextSection cfg s.kernel ch t).1)

theorem idleAfter_of_quiet (ht : reaches t = false) : idleAfter cfg s ch t = idleAt s := by
  rw [idleAfter, reserved_of_quiet (nextSection_quiet ht).1]
  rfl

/-- The counts of a state, with the running thread set apart. -/
theorem counts_cons (hperm : s.kernel.threads.Perm (t :: others)) :
    due s = toCome s.kernel (idleAt s) t + (others.map (toCome s.kernel (idleAt s))).sum ∧
      keptBack s = keepsBack t + ((others.map keepsBack).sum + (s.cpus.map CpuLink.kept).sum) := by
  constructor
  · rw [due, (hperm.map _).sum_eq, List.map_cons, List.sum_cons]
  · rw [keptBack, (hperm.map _).sum_eq, List.map_cons, List.sum_cons, Nat.add_assoc]

/-- The counts after a section. -/
theorem counts_after (hfree : t.free others = true) (hcpus : Cpus s s' (idleAfter cfg s ch t))
    (hkernel : s'.kernel = { (nextSection cfg s.kernel ch t).1 with
      threads := others ++ (nextSection cfg s.kernel ch t).2 }) :
    due s' = (others.map (toCome s.kernel (idleAt s))).sum +
        ((nextSection cfg s.kernel ch t).2.map
          (toCome (nextSection cfg s.kernel ch t).1 (idleAfter cfg s ch t))).sum ∧
      keptBack s' = (others.map keepsBack).sum + (s.cpus.map CpuLink.kept).sum +
        ((nextSection cfg s.kernel ch t).2.map keepsBack).sum ∧
      idleCpus s' = count s.cpus.length (idleAfter cfg s ch t) := by
  refine ⟨?_, ?_, ?_⟩
  · rw [due, hcpus.idle, hkernel, toCome_threads, List.map_append, List.sum_append]
    congr 2
    exact List.map_congr_left fun u hu => toCome_other hfree hu
  · rw [keptBack, hcpus.kept, hkernel, List.map_append, List.sum_append]
    omega
  · rw [idleCpus, hcpus.idle, hcpus.length]

/-- What a section owes and brings afterwards, when the other threads and the CPUs keep `a` CPUs back, and
the other threads bring `b` runs. -/
def KeepsUp (cfg : Config) (s : State) (ch : Choice) (t : Thread) (a b : Nat) : Prop :=
  min (count s.cpus.length (idleAfter cfg s ch t) -
      (a + ((nextSection cfg s.kernel ch t).2.map keepsBack).sum))
    ((nextSection cfg s.kernel ch t).1.queue .ready).length ≤
  b + ((nextSection cfg s.kernel ch t).2.map
    (toCome (nextSection cfg s.kernel ch t).1 (idleAfter cfg s ch t))).sum

/-- The same before the section. -/
def KeptUp (s : State) (t : Thread) (a b : Nat) : Prop :=
  min (idleCpus s - (keepsBack t + a)) (s.kernel.queue .ready).length ≤ toCome s.kernel (idleAt s) t + b

section Kinds

variable {a b : Nat}

/-- A section that yields the given state and threads, and reaches no CPU. -/
theorem KeepsUp.of_eq {r : Kernel.State × List Thread} (hnext : nextSection cfg s.kernel ch t = r)
    (hquiet : reaches t = false)
    (h : min (idleCpus s - (a + (r.2.map keepsBack).sum)) (r.1.queue .ready).length ≤
      b + (r.2.map (toCome r.1 (idleAt s))).sum) : KeepsUp cfg s ch t a b := by
  unfold KeepsUp
  rw [idleAfter_of_quiet hquiet, hnext]
  exact h

theorem keepsUp_steady (h : KeptUp s t a b) (hst : Steady s.kernel (idleAt s) t (nextSection cfg s.kernel ch t))
    (hquiet : reaches t = false) (hkeep : keepsBack t = 0) : KeepsUp cfg s ch t a b := by
  refine KeepsUp.of_eq rfl hquiet ?_
  obtain ⟨hready, hkeeps, hcomes⟩ := hst
  unfold KeptUp at h
  rw [hready, hkeeps]
  omega

theorem keepsUp_release (h : KeptUp s t a b) (hleave : (leavesExec s.kernel ch t).isSome = true)
    (hquiet : reaches t = false) (hkeep : keepsBack t = 1)
    (hcome : toCome s.kernel (idleAt s) t = 0) : KeepsUp cfg s ch t a b := by
  obtain ⟨hready, u, hone, hsum⟩ := @nextSection_release cfg s.kernel ch t hleave hkeep
  have hsum' := hsum (nextSection cfg s.kernel ch t).1 (idleAt s)
  refine KeepsUp.of_eq rfl hquiet ?_
  unfold KeptUp at h
  simp only [hone, hready, List.map_cons, List.map_nil, List.sum_cons, List.sum_nil]
  omega

/-- The answer to a DUMP_MEMORY. -/
theorem keepsUp_dumpWait {pid : Nat} (h : KeptUp s (.dumpWait pid) a b)
    (hok : ch.answer = true ∨ min (idleCpus s - a) (s.kernel.queue .ready).length ≤ b) :
    KeepsUp cfg s ch (.dumpWait pid) a b := by
  unfold KeptUp at h
  simp only [toCome, keepsBack] at h
  cases hans : ch.answer with
  | true =>
    have hready : (movePcb .blocked .ready pid s.kernel).queue .ready =
        s.kernel.queue .ready ++ [pid] := ready_movePcb_to (by decide) pid
    have hnext : nextSection cfg s.kernel ch (.dumpWait pid) =
        (movePcb .blocked .ready pid s.kernel, [.short .plain]) := by
      simp [nextSection, dumpMemoryAnswered, hans, movePcb]
    refine KeepsUp.of_eq hnext rfl ?_
    simp only [hready, List.map_cons, List.map_nil, List.sum_cons, List.sum_nil, keepsBack, toCome,
      List.length_append, List.length_singleton]
    omega
  | false =>
    have hready : (movePcb .blocked .exit pid s.kernel).queue .ready = s.kernel.queue .ready :=
      ready_movePcb (by decide) (by decide) pid
    have hnext : nextSection cfg s.kernel ch (.dumpWait pid) =
        (movePcb .blocked .exit pid s.kernel, []) := by
      simp [nextSection, dumpMemoryAnswered, hans, movePcb, exitRoutine]
    refine KeepsUp.of_eq hnext rfl ?_
    have hfew := hok.resolve_left (by simp [hans])
    simpa only [hready, List.map_nil, List.sum_nil, Nat.add_zero] using hfew

/-- A completion brings a process to READY and a run with it. -/
theorem keepsUp_ioCompletion {socket pid : Nat} {deviceName : String}
    (h : KeptUp s (.ioCompletion socket deviceName pid) a b) :
    KeepsUp cfg s ch (.ioCompletion socket deviceName pid) a b := by
  have hready : (movePcb .blocked .ready pid s.kernel).queue .ready = s.kernel.queue .ready ++ [pid] :=
    ready_movePcb_to (by decide) pid
  have hsusp : (movePcb .suspBlocked .suspReady pid s.kernel).queue .ready = s.kernel.queue .ready :=
    ready_movePcb (by decide) (by decide) pid
  unfold KeptUp at h
  simp only [toCome, keepsBack] at h
  refine KeepsUp.of_eq rfl rfl ?_
  simp only [nextSection, ioCompletion]
  split
  · simp only [List.map_nil, List.sum_nil]
    omega
  · split
    · simp only [setIoCurrent, hready, List.map_cons, List.map_nil, List.sum_cons, List.sum_nil, keepsBack,
        toCome, AfterPending.schedules, List.length_append, List.length_singleton]
      omega
    · split
      · simp only [setIoCurrent, hsusp, List.map_cons, List.map_nil, List.sum_cons, List.sum_nil, keepsBack,
          toCome, AfterPending.schedules]
        omega
      · simp only [setIoCurrent, List.map_cons, List.map_nil, List.sum_cons, List.sum_nil, keepsBack, toCome,
          AfterPending.schedules]
        omega

/-- A process is brought back from SUSP_READY. -/
theorem keepsUp_longMove {popped : Option Nat} {caller : LongCaller}
    (h : KeptUp s (.longMove popped caller) a b)
    (hok : popped ≠ none → min (idleCpus s - a) ((s.kernel.queue .ready).length + 1) ≤ b + 1) :
    KeepsUp cfg s ch (.longMove popped caller) a b := by
  have hone := (schedules_le caller true).2
  unfold KeptUp at h
  simp only [toCome, keepsBack] at h
  cases popped with
  | none =>
    refine KeepsUp.of_eq (r := (s.kernel, [.longScan caller true])) rfl rfl ?_
    simp only [List.map_cons, List.map_nil, List.sum_cons, List.sum_nil, keepsBack, toCome, hone]
    omega
  | some pid =>
    have hready : ((addPcbTo .ready pid s.kernel).queue .ready).length =
        (s.kernel.queue .ready).length + 1 := by simp [addPcbTo]
    have hfew := hok (by simp)
    refine KeepsUp.of_eq (r := (addPcbTo .ready pid s.kernel, [.longScan caller true])) rfl rfl ?_
    simp only [hready, List.map_cons, List.map_nil, List.sum_cons, List.sum_nil, keepsBack, toCome, hone]
    omega

/-- A process is admitted from NEW, or refused. -/
theorem keepsUp_longCreate {pid : Nat} {caller : LongCaller} {moved : Bool}
    (h : KeptUp s (.longCreate pid caller moved) a b)
    (hok : ch.answer = true → findPcbIn .new pid s.kernel = true →
      min (idleCpus s - a) ((s.kernel.queue .ready).length + 1) ≤ b + 1) :
    KeepsUp cfg s ch (.longCreate pid caller moved) a b := by
  have hone := (schedules_le caller true).2
  have hle := (schedules_le caller moved).1
  cases hans : ch.answer with
  | false =>
    refine keepsUp_steady h ?_ rfl rfl
    simp only [nextSection, longCreate, hans, Bool.false_eq_true, ↓reduceIte]
    exact Steady.longReturn rfl rfl
  | true =>
    unfold KeptUp at h
    simp only [toCome, keepsBack] at h
    cases hfound : findPcbIn .new pid s.kernel with
    | true =>
      have hready : (movePcb .new .ready pid s.kernel).queue .ready = s.kernel.queue .ready ++ [pid] :=
        ready_movePcb_to (by decide) pid
      have hfew := hok hans hfound
      have hnext : nextSection cfg s.kernel ch (.longCreate pid caller moved) =
          (movePcb .new .ready pid s.kernel, [.longNew caller true]) := by
        simp [nextSection, longCreate, hans, hfound]
      refine KeepsUp.of_eq hnext rfl ?_
      simp only [hready, List.map_cons, List.map_nil, List.sum_cons, List.sum_nil, keepsBack, toCome, hone,
        List.length_append, List.length_singleton]
      omega
    | false =>
      have hnext : nextSection cfg s.kernel ch (.longCreate pid caller moved) =
          (s.kernel, [.longNew caller true]) := by
        simp [nextSection, longCreate, hans, hfound]
      refine KeepsUp.of_eq hnext rfl ?_
      simp only [List.map_cons, List.map_nil, List.sum_cons, List.sum_nil, keepsBack, toCome, hone]
      omega

/-- A run chooses its CPU: an idle one, unless nothing is owed. -/
theorem keepsUp_short {caller : ShortCaller} (h : KeptUp s (.short caller) a b)
    (hok : min (idleCpus s - a) (s.kernel.queue .ready).length = 0 ∨
      ∃ cpu, looksFree s.kernel = some cpu ∧ idleAt s cpu = true) :
    KeepsUp cfg s ch (.short caller) a b := by
  obtain ⟨hready, hkeeps⟩ := @shortSelect_ready cfg s.kernel ch caller
  refine KeepsUp.of_eq (r := shortSelect cfg s.kernel ch caller) rfl rfl ?_
  unfold KeptUp at h
  simp only [toCome, keepsBack] at h
  rw [hready, hkeeps]
  rcases hok with hzero | ⟨cpu, hfree, hidle⟩
  · omega
  · rcases @shortSelect_looksFree cfg s.kernel ch caller cpu hfree with hnil | ⟨pid, hone, hcur⟩
    · simp [hnil]
    · have hcomes : ((shortSelect cfg s.kernel ch caller).2.map
          (toCome (shortSelect cfg s.kernel ch caller).1 (idleAt s))).sum = 1 := by
        simp [hone, toCome, hcur, hidle]
      rw [hcomes]
      omega

theorem queue_shortDecide {k : Kernel.State} {caller : ShortCaller} {cpu pid : Nat} {srt : Bool}
    (h : currentOn k cpu ≠ none) : (shortDecide cfg k caller cpu pid srt).1.queue = k.queue :=
  ((shortDecide_cases cfg k caller cpu pid srt).resolve_left fun hnone => h hnone.1).1.queue

/-- A CPU that is reached is idle no more. -/
theorem count_reserve (cpu : Nat) :
    count s.cpus.length (reserve (idleAt s) (some cpu)) + (idleAt s cpu).toNat = idleCpus s := by
  rcases Nat.lt_or_ge cpu s.cpus.length with hlt | hge
  · exact (count_update hlt (idleAt s) false).trans (Nat.add_zero _)
  · have hidle := idleAt_of_le hge
    have hself : reserve (idleAt s) (some cpu) = idleAt s := by
      rw [reserve, ← hidle, Function.update_eq_self]
    rw [hself, hidle]
    rfl

/-- A run dispatches, interrupts or returns. -/
theorem keepsUp_shortSelected {caller : ShortCaller} {cpu pid : Nat}
    (h : KeptUp s (.shortSelected caller cpu pid) a b) (hpid : pid ∈ s.kernel.queue .ready) :
    KeepsUp cfg s ch (.shortSelected caller cpu pid) a b := by
  unfold KeptUp at h
  simp only [toCome, keepsBack] at h
  have hcount := @count_reserve s cpu
  unfold KeepsUp idleAfter
  rcases @shortDecide_packages cfg s.kernel caller cpu pid ch.preempt with
    ⟨hcur, hnil, pc, hps⟩ | ⟨hcur, hone, executing, hps⟩ | ⟨hcur, hnil, hps⟩
  · have hready : ((shortDecide cfg s.kernel caller cpu pid ch.preempt).1.queue .ready).length + 1 =
        (s.kernel.queue .ready).length := by
      have hnext : shortDecide cfg s.kernel caller cpu pid ch.preempt =
          shortReturn (dispatch cpu pid s.kernel) caller := by simp [shortDecide, hcur]
      rw [hnext, (ready_shortReturn caller).1]
      exact ready_dispatch hpid
    simp only [nextSection, hnil, reserved_of_single hps, cpuOf, List.map_nil, List.sum_nil]
    simp only [hcur, true_and] at h
    cases hidle : idleAt s cpu with
    | true =>
      rw [hidle] at hcount h
      simp only [Bool.toNat_true, ↓reduceIte] at hcount h
      omega
    | false =>
      rw [hidle] at hcount h
      simp only [Bool.toNat_false, Bool.false_eq_true, ↓reduceIte] at hcount h
      omega
  · have hqueue : (shortDecide cfg s.kernel caller cpu pid ch.preempt).1.queue = s.kernel.queue :=
      queue_shortDecide hcur
    simp only [nextSection, hone, hqueue, reserved_of_single hps, cpuOf, List.map_cons, List.map_nil,
      List.sum_cons, List.sum_nil, keepsBack, toCome]
    simp only [hcur, false_and, ↓reduceIte] at h
    omega
  · have hqueue : (shortDecide cfg s.kernel caller cpu pid ch.preempt).1.queue = s.kernel.queue :=
      queue_shortDecide hcur
    have hnone : reserved s.kernel (shortDecide cfg s.kernel caller cpu pid ch.preempt).1 = none :=
      reserved_of_quiet (by simp [hps])
    simp only [nextSection, hnil, hqueue, hnone, reserve, List.map_nil, List.sum_nil]
    simp only [hcur, false_and, ↓reduceIte] at h
    unfold idleCpus at h
    omega

/-- A run that has had the answer to its INTERRUPT replaces a process of READY by the preempted one at
most. -/
theorem keepsUp_shortWait {caller : ShortCaller} {cpu pid : Nat}
    (h : KeptUp s (.shortWait caller cpu pid) a b) (hpid : pid ∈ s.kernel.queue .ready) :
    KeepsUp cfg s ch (.shortWait caller cpu pid) a b := by
  unfold KeptUp at h
  simp only [toCome, keepsBack] at h
  have hcount := @count_reserve s cpu
  have hpre := @ready_preempt s.kernel cpu ch.answer ch.pc
  have hdispatch := @ready_dispatch (preempt s.kernel cpu ch.answer ch.pc) cpu pid
    (mem_ready_preempt hpid cpu ch.answer ch.pc)
  obtain ⟨hnil, pc, hps⟩ := @shortAnswered_packages s.kernel caller cpu pid ch.answer ch.pc
  have hqueue : (shortAnswered s.kernel caller cpu pid ch.answer ch.pc).1.queue =
      (dispatch cpu pid (preempt s.kernel cpu ch.answer ch.pc)).queue := (ready_shortReturn caller).1
  unfold KeepsUp idleAfter
  simp only [nextSection, hnil, hqueue, reserved_of_single hps, cpuOf, List.map_nil, List.sum_nil]
  omega

end Kinds

/-- **A section leaves no more owed than due**, unless it is of the four kinds. -/
theorem enough_after (hs : Inv s) {i client : Nat} (hget : s.kernel.threads[i]? = some t)
    (hperm : s.kernel.threads.Perm (t :: others)) (hfree : t.free others = true)
    (hcpus : Cpus s s' (idleAfter cfg s ch t))
    (hkernel : s'.kernel = { (nextSection cfg s.kernel ch t).1 with
      threads := others ++ (nextSection cfg s.kernel ch t).2 })
    (hok : keepsUp s (.run i ch client) = true) : owed s' ≤ due s' := by
  obtain ⟨hdue, hkept⟩ := counts_cons hperm
  obtain ⟨hdue', hkept', hidle'⟩ := counts_after hfree hcpus hkernel
  have hready' : s'.kernel.queue = (nextSection cfg s.kernel ch t).1.queue := by rw [hkernel]
  have hmem : t ∈ s.kernel.threads := List.mem_of_getElem? hget
  have hbefore : KeptUp s t ((others.map keepsBack).sum + (s.cpus.map CpuLink.kept).sum)
      (others.map (toCome s.kernel (idleAt s))).sum := by
    have henough := hs.enough
    rwa [owed, available, hkept, hdue] at henough
  suffices hafter : KeepsUp cfg s ch t ((others.map keepsBack).sum + (s.cpus.map CpuLink.kept).sum)
      (others.map (toCome s.kernel (idleAt s))).sum by
    rw [owed, available, hkept', hdue', hidle', hready']
    exact hafter
  simp only [keepsUp, hget] at hok
  cases t with
  | io pid pc sleepTime deviceName => exact keepsUp_release hbefore hok rfl rfl rfl
  | exit pid => exact keepsUp_release hbefore hok rfl rfl rfl
  | dump pid pc => exact keepsUp_release hbefore hok rfl rfl rfl
  | dumpWait pid =>
    simp only [hkept, hdue, toCome, keepsBack, Bool.or_eq_true, decide_eq_true_eq] at hok
    rw [Nat.add_sub_cancel_left, Nat.zero_add] at hok
    exact keepsUp_dumpWait hbefore hok
  | ioCompletion socket deviceName pid => exact keepsUp_ioCompletion hbefore
  | longMove popped caller =>
    refine keepsUp_longMove hbefore ?_
    intro hsome
    obtain ⟨pid, rfl⟩ := Option.ne_none_iff_exists'.mp hsome
    simp only [available, hkept, hdue, toCome, keepsBack, Nat.zero_add, decide_eq_true_eq] at hok
    omega
  | longCreate pid caller moved =>
    refine keepsUp_longCreate hbefore ?_
    intro hans hfound
    have hle := (schedules_le caller moved).1
    simp only [hans, hfound, available, hkept, hdue, toCome, keepsBack, Nat.zero_add, Bool.and_self,
      Bool.not_true, Bool.false_or, decide_eq_true_eq] at hok
    omega
  | short caller =>
    refine keepsUp_short hbefore ?_
    simp only [owed, available, hkept, keepsBack, Nat.zero_add, Bool.or_eq_true, decide_eq_true_eq,
      Option.any_eq_true] at hok
    exact hok
  | shortSelected caller cpu pid =>
    exact keepsUp_shortSelected hbefore (hs.selected _ hmem pid rfl)
  | shortWait caller cpu pid => exact keepsUp_shortWait hbefore (hs.selected _ hmem pid rfl)
  | _ => exact keepsUp_steady hbefore (nextSection_steady rfl) rfl rfl

/-- Without a section, the runs to come are enough if the CPUs that become idle are kept back or are not too
much. -/
theorem enough_of_arrived (hs : owed s ≤ due s) {handlers : List Thread}
    (hkernel : s'.kernel = { s.kernel with threads := s.kernel.threads ++ handlers })
    (hidle : ∀ cpu, idleAt s cpu = true → idleAt s' cpu = true)
    (hcount : idleCpus s' + keptBack s ≤ idleCpus s + keptBack s' ∨
      min (idleCpus s' - keptBack s') (s.kernel.queue .ready).length ≤ due s) : owed s' ≤ due s' := by
  have hdue : due s ≤ due s' := by
    rw [due, due, hkernel, toCome_threads, List.map_append, List.sum_append]
    exact (List.sum_le_sum fun u _ => toCome_mono hidle u).trans (Nat.le_add_right _ _)
  have hready : s'.kernel.queue .ready = s.kernel.queue .ready := by rw [hkernel]
  simp only [owed, available, hready] at hs ⊢
  omega

/-- One CPU of the list is replaced by another that is seen alike. -/
theorem map_set_of_eq {α : Type} {f : CpuLink → α} {cpus : List CpuLink} {cpu : Nat} {l l' : CpuLink}
    (hl : cpus[cpu]? = some l) (h : f l' = f l) : (cpus.set cpu l').map f = cpus.map f := by
  refine List.ext_getElem? fun c => ?_
  rw [List.getElem?_map, List.getElem?_map, List.getElem?_set]
  by_cases hc : cpu = c
  · subst hc
    have hlt := (List.getElem?_eq_some_iff.mp hl).1
    rw [if_pos rfl, if_pos hlt, hl, Option.map_some, Option.map_some, h]
  · rw [if_neg hc]

/-- The syscalls of one CPU change what is kept back. -/
theorem kept_set {cpus : List CpuLink} {cpu : Nat} {l l' : CpuLink} (hl : cpus[cpu]? = some l) :
    ((cpus.set cpu l').map CpuLink.kept).sum + l.kept = (cpus.map CpuLink.kept).sum + l'.kept := by
  induction cpus generalizing cpu with
  | nil => simp at hl
  | cons l0 cpus ih =>
    cases cpu with
    | zero =>
      obtain rfl : l0 = l := by simpa using hl
      simp only [List.set_cons_zero, List.map_cons, List.sum_cons]
      omega
    | succ cpu =>
      have hrest := ih (by simpa using hl)
      simp only [List.set_cons_succ, List.map_cons, List.sum_cons]
      omega

/-- The message of a CPU or of a device changes what is kept back, and nothing else. -/
theorem inv_arrive (hs : Inv s) {handler : Thread} {cpus : List CpuLink} (hhandler : handler.isHandler = true)
    (hidle : cpus.map CpuLink.idle = s.cpus.map CpuLink.idle)
    (hpending : cpus.map CpuLink.pending = s.cpus.map CpuLink.pending)
    (hkept : (s.cpus.map CpuLink.kept).sum ≤ (cpus.map CpuLink.kept).sum + keepsBack handler) :
    Inv ⟨{ s.kernel with threads := s.kernel.threads ++ [handler] }, cpus⟩ := by
  have hwaiting : ∀ cpu, waiting { s.kernel with threads := s.kernel.threads ++ [handler] } cpu =
      waiting s.kernel cpu := by
    intro cpu
    have hnot : waitsFor cpu handler = false := by
      cases handler with
      | shortWait caller c pid => simp [Thread.isHandler] at hhandler
      | _ => rfl
    simp [waiting, hnot]
  have hsame : idleAt ⟨{ s.kernel with threads := s.kernel.threads ++ [handler] }, cpus⟩ = idleAt s := by
    funext cpu
    have h := congrArg (fun bs : List Bool => (bs[cpu]?).any id) hidle
    simp only [List.getElem?_map, Option.any_map] at h
    rw [idleAt, idleAt, hwaiting]
    exact congrArg (· && _) h
  have hlength : cpus.length = s.cpus.length := by simpa using congrArg List.length hidle
  refine ⟨selected_arrive hs.selected hhandler, ?_, ?_⟩
  · refine enough_of_arrived hs.enough rfl (fun cpu hcpu => hsame ▸ hcpu) (Or.inl ?_)
    simp only [idleCpus, hsame, hlength, keptBack, List.map_append, List.sum_append, List.map_cons,
      List.map_nil, List.sum_cons, List.sum_nil]
    omega
  · intro cpu l' hl'
    have h := congrArg (fun ns : List Nat => ns[cpu]?) hpending
    simp only [List.getElem?_map] at h
    rw [show cpus[cpu]? = some l' from hl', Option.map_some] at h
    obtain ⟨l, hl, heq⟩ := Option.map_eq_some_iff.mp h.symm
    rw [hwaiting, ← heq]
    exact hs.answered cpu l hl

/-- A CPU changes: it loses no INTERRUPT and does not stop being idle; if it becomes idle, it is kept back or
not too much. -/
theorem inv_set (hs : Inv s) {cpu : Nat} {l l' : CpuLink} (hl : s.cpus[cpu]? = some l)
    (hpending : l'.pending = l.pending) (hidle : l.idle = true → l'.idle = true) (hkept : l.kept ≤ l'.kept)
    (hcount : (l'.idle && decide (waiting s.kernel cpu = 0)).toNat + l.kept ≤ (idleAt s cpu).toNat + l'.kept ∨
      oneMore s = true) : Inv { s with cpus := s.cpus.set cpu l' } := by
  have hlt := (List.getElem?_eq_some_iff.mp hl).1
  have hhere : idleAt s cpu = (l.idle && decide (waiting s.kernel cpu = 0)) := by simp [idleAt, hl]
  have hafter : idleAt { s with cpus := s.cpus.set cpu l' } =
      Function.update (idleAt s) cpu (l'.idle && decide (waiting s.kernel cpu = 0)) := by
    funext c
    by_cases hc : c = cpu
    · subst hc
      simp [idleAt, hlt]
    · rw [Function.update_of_ne hc, idleAt, idleAt, List.getElem?_set_ne (Ne.symm hc)]
  refine ⟨hs.selected, ?_, ?_⟩
  · refine @enough_of_arrived s { s with cpus := s.cpus.set cpu l' } hs.enough [] (by simp) (fun c hc => ?_) ?_
    · rw [hafter]
      by_cases heq : c = cpu
      · subst heq
        rw [hhere, Bool.and_eq_true] at hc
        rw [Function.update_self, Bool.and_eq_true]
        exact ⟨hidle hc.1, hc.2⟩
      · rwa [Function.update_of_ne heq]
    · have hidleCpus : idleCpus { s with cpus := s.cpus.set cpu l' } + (idleAt s cpu).toNat =
          idleCpus s + (l'.idle && decide (waiting s.kernel cpu = 0)).toNat := by
        rw [idleCpus, hafter, List.length_set]
        exact count_update hlt (idleAt s) _
      have hkeptBack : keptBack { s with cpus := s.cpus.set cpu l' } + l.kept = keptBack s + l'.kept := by
        have hset := @kept_set s.cpus cpu l l' hl
        simp only [keptBack]
        omega
      rcases hcount with hfew | hone
      · left
        omega
      · right
        have hle := (l'.idle && decide (waiting s.kernel cpu = 0)).toNat_le
        simp only [oneMore, decide_eq_true_eq] at hone
        omega
  · intro c l0 hl0
    by_cases hc : cpu = c
    · subst hc
      rw [List.getElem?_set_self hlt] at hl0
      obtain rfl := Option.some.inj hl0
      rw [hpending]
      exact hs.answered cpu l hl
    · exact hs.answered c l0 ((List.getElem?_set_ne hc).symm.trans hl0)

/-- **A step of a CPU keeps the runs to come enough**, unless it ends a turn for nothing. -/
theorem inv_cpu (hs : Inv s) {cpu : Nat} {l l' : CpuLink} {e : ThreadsEvent} (hl : s.cpus[cpu]? = some l)
    (hst : l.step e = some l') (hok : keepsUp s (.cpu cpu e) = true) :
    Inv { s with cpus := s.cpus.set cpu l' } := by
  obtain ⟨hmove, hpending⟩ := linkMove hst
  have hhere : idleAt s cpu = (l.idle && decide (waiting s.kernel cpu = 0)) := by simp [idleAt, hl]
  have hends : ∀ inbox : List Cpu.FromKernel, l'.idle = (!inbox.any isDispatch) → l.idle = false →
      l'.kept = l.kept → (!staysIdle s cpu inbox || oneMore s) = true →
      Inv { s with cpus := s.cpus.set cpu l' } := by
    intro inbox hidle' hidle hkept hcond
    refine inv_set hs hl hpending (by simp [hidle]) hkept.ge ?_
    rcases Bool.or_eq_true_iff.mp hcond with hbusy | hone
    · left
      rw [Bool.not_eq_true'] at hbusy
      rw [hidle', show (!inbox.any isDispatch && decide (waiting s.kernel cpu = 0)) = false from hbusy, hkept]
      exact Nat.add_le_add_right (Nat.zero_le _) _
    · exact Or.inr hone
  cases hmove with
  | same hidle hkept =>
    refine inv_set hs hl hpending (fun h => hidle.trans h) hkept.ge (Or.inl ?_)
    rw [hidle, hhere, hkept]
  | givesUp hidle hkept =>
    refine inv_set hs hl hpending (by simp [hidle]) (by omega) (Or.inl ?_)
    have hle := (l'.idle && decide (waiting s.kernel cpu = 0)).toNat_le
    omega
  | answers hinterrupts hidle hkept =>
    have hpos := List.length_pos_of_ne_nil hinterrupts
    have hwaiting := hs.answered cpu l hl
    have hsome : waiting s.kernel cpu ≠ 0 := by
      simp only [CpuLink.pending] at hwaiting
      omega
    refine inv_set hs hl hpending hidle hkept.ge (Or.inl ?_)
    simp [hsome, hkept]
  | noInstruction he hidle hidle' hkept =>
    subst he
    rw [keepsUp, hl, Option.all_some] at hok
    exact hends l.inbox hidle' hidle hkept hok
  | noAnswer pid pc he hidle hidle' hkept =>
    subst he
    rw [keepsUp, hl, Option.all_some] at hok
    exact hends l.inbox.tail hidle' hidle hkept hok
  | letIn he =>
    subst he
    simp [keepsUp] at hok

/-- **Every step keeps the runs to come enough**, unless it is one of the places. -/
theorem inv_step {e : Event} (hs : Inv s) (hok : keepsUp s e = true) (h : step cfg s e = some s') :
    Inv s' := by
  cases e with
  | run i ch client =>
    simp only [step] at h
    split at h
    · exact absurd h (by simp)
    · rename_i t ht
      obtain ⟨cpus, htake, h⟩ := Option.bind_eq_some_iff.mp h
      obtain ⟨k, hk, rfl⟩ := Option.map_eq_some_iff.mp h
      obtain ⟨t', others, ht', hperm, hfree, -, rfl⟩ := step_run hk
      obtain rfl : t = t' := by
        rw [ht] at ht'
        exact Option.some.inj ht'
      have hcpus := @cpus_section s ⟨_, _⟩ cfg ch t others client cpus hperm htake rfl rfl
      refine ⟨selected_section ?_ hfree, enough_after hs ht hperm hfree hcpus rfl hok,
        hcpus.answered hs.answered⟩
      exact fun u hu => hs.selected u (hperm.mem_iff.mpr hu)
  | serve cpu =>
    simp only [step] at h
    obtain ⟨l, hl, h⟩ := Option.bind_eq_some_iff.mp h
    split at h
    · exact absurd h (by simp)
    · rename_i handler rest hsyscalls
      obtain ⟨k, hk, rfl⟩ := Option.map_eq_some_iff.mp h
      obtain ⟨hhandler, rfl⟩ := step_arrive hk
      refine inv_arrive hs hhandler (map_set_of_eq hl rfl) (map_set_of_eq hl rfl) ?_
      have hkept := @kept_set s.cpus cpu l
        { l with syscalls := rest, calls := l.calls ++ (callerOf handler).toList } hl
      have hmoved : l.kept = keepsBack handler + (rest.map keepsBack).sum := by
        rw [CpuLink.kept, hsyscalls, List.map_cons, List.sum_cons]
      simp only [CpuLink.kept] at hkept hmoved ⊢
      omega
  | cpu cpu e =>
    simp only [step] at h
    obtain ⟨l, hl, h⟩ := Option.bind_eq_some_iff.mp h
    obtain ⟨l', hl', rfl⟩ := Option.map_eq_some_iff.mp h
    exact inv_cpu hs hl hl' hok
  | device handler =>
    simp only [step] at h
    split at h
    · obtain ⟨k, hk, rfl⟩ := Option.map_eq_some_iff.mp h
      obtain ⟨hhandler, rfl⟩ := step_arrive hk
      exact inv_arrive hs hhandler rfl rfl (Nat.le_add_right _ _)
    · exact absurd h (by simp)

end Step

theorem inv_start (cfg : Config) : Inv (State.start cfg) := by
  refine ⟨?_, ?_, ?_⟩
  · intro t ht pid hpid
    obtain rfl : t = .long .ifMoved := by simpa [State.start, Kernel.State.start] using ht
    simp [Thread.selected] at hpid
  · simp [owed, State.start, Kernel.State.start]
  · intro cpu l hl
    obtain rfl : l = .start := by
      have hmem := List.mem_of_getElem? hl
      rw [State.start] at hmem
      exact List.eq_of_mem_replicate hmem
    exact Nat.zero_le _

/-! ## 6. Whole runs -/

/-- With nothing left to run and no message on its way, nothing is owed. -/
theorem Inv.conserves {s : State} (h : Inv s) : Conserves s := by
  intro hq
  have henough := h.enough
  have hkept : keptBack s = 0 := by
    have hcpus : s.cpus.map CpuLink.kept = s.cpus.map fun _ => 0 := by
      refine List.map_congr_left fun l hl => ?_
      rw [CpuLink.kept, (hq.sockets l hl).1]
      rfl
    rw [keptBack, hq.threads, hcpus]
    simp
  have hdue : due s = 0 := by rw [due, hq.threads]; rfl
  rcases Nat.eq_zero_or_pos (s.kernel.queue .ready).length with hready | hready
  · exact Or.inl (List.length_eq_zero_iff.mp hready)
  · refine Or.inr fun l hl => ?_
    have hnone : idleCpus s = 0 := by
      rw [owed, available, hkept, hdue] at henough
      omega
    obtain ⟨cpu, hlt, rfl⟩ := List.mem_iff_getElem.mp hl
    have hidle := List.countP_eq_zero.mp hnone cpu (List.mem_range.mpr hlt)
    have hinbox := (hq.sockets _ hl).2.2.1
    simpa [idleAt, hlt, waiting, hq.threads, CpuLink.idle, hinbox] using hidle

/-- A section of the only thread of the kernel. -/
def next : Event := .run 0 {} 0

/-- The only CPU finds no INTERRUPT, and the cycle ends. -/
def endOfCycle : List Event := [.cpu 0 .handle, .cpu 0 .unlock, .cpu 0 .endCycle]

/-- The root process starts process 1 on its one CPU and gives the CPU up by a syscall. -/
def oneWaiting (syscall : Cpu.Instruction) : List Event :=
  List.replicate 8 next ++
    [.cpu 0 (.recvDispatch (.dispatch 0 0)), .cpu 0 .lockDispatched,
      .cpu 0 (.execute (.initProc "child" 16 true) true), .serve 0] ++
    List.replicate 9 next ++ .cpu 0 (.answer .confirmation) :: endOfCycle ++
    .cpu 0 (.execute syscall true) :: endOfCycle ++ [.serve 0]

end Tpso.Work
