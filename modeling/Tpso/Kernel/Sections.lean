/-
# The critical sections of the kernel, and the kernel as a transition system

One definition for each handler and scheduler of `kernel/src`, cut where the source takes and
releases its locks.  A section yields the new state and the threads that continue it: none when the
handler returns, several when it starts threads with `pthread_create`.

A section of EXEC is atomic here, as if its semaphore kept the others out.  `Tpso.Kernel.Locks` shows that
the source can lose this exclusion: one path of the short-term scheduler posts EXEC twice.
-/
import Tpso.Kernel.State

namespace Tpso.Kernel

open Tpso.Lib

/-! ## 1. What the environment decides -/

/-- The choices of the environment during one section. -/
structure Choice where
  /-- The answer of memoria; for an interrupt, whether `interrupted_same_pid == 0`; for a package to
  an IO device, whether it could be sent. -/
  answer : Bool := true
  /-- Whether `connect_to_memory` succeeds. -/
  connected : Bool := true
  /-- Whether the process has been in BLOCKED for `sleep_time`. -/
  elapsed : Bool := true
  /-- What `compare_cpu_bursts_SRT` says. -/
  preempt : Bool := false
  /-- The `pc` of a CPU_CONTEXT. -/
  pc : Int := 0
  /-- The outcome of sorting the list the section takes a process from. -/
  order : List Nat := []
  /-- The outcome of sorting EXEC. -/
  execOrder : List Nat := []
  /-- The place of a new IO connection in the dictionary. -/
  position : Nat := 0

/-! ## 2. Syscalls -/

/-- `exit_routine`, for the PCB that was just removed from a list. -/
def exitRoutine (pid : Nat) (s : State) : State := addPcbTo .exit pid s

/-- `exit_routine(NULL)` follows the pointer. -/
def crash (s : State) : State := { s with crashed := true }

/-- `handle_init_proc_syscall`. -/
def handleInitProcSyscall (s : State) (callerPid : Nat) (callerPc size : Int) :
    State × List Thread :=
  if findPcbIn .exec callerPid s then
    let s := setPc callerPid callerPc s
    let pid := s.newPid + 1
    let s := { s with newPid := pid }
    if findPcbIn .new pid s then (s, [])
    else (send (.confirmation callerPid) (addPcbToNew pid (pcbCreate 0 size) s), [.long .always])
  else (s, [])

/-- `handle_io_connection_not_found` and `exit_process_syscall`: EXEC to EXIT, then the long-term and
the short-term scheduler in a thread of their own. -/
def exitProcessSyscall (s : State) (pid : Nat) : State × List Thread :=
  if findPcbIn .exec pid s then (exitRoutine pid (removePcbFrom .exec pid s), [.long .always])
  else (crash s, [])

/-- `handle_io_process_syscall`, up to its call of `process_pending_io`. -/
def handleIoProcessSyscall (s : State) (pid : Nat) (pc sleepTime : Int) (deviceName : String) :
    State × List Thread :=
  match getIoConnectionStatusByDeviceName s deviceName with
  | none => exitProcessSyscall s pid
  | some connection =>
    match s.ioRequests deviceName with
    | none => (s, [])
    | some requests =>
      if findPcbIn .exec pid s then
        let s := movePcb .exec .blocked pid (setPc pid pc s)
        (setIoRequests deviceName (requests ++ [⟨pid, sleepTime⟩]) s,
          [.pendingIo deviceName connection.socket (.ioSyscall pid)])
      else (s, [])

/-- The first section of `dump_memory_syscall`. -/
def dumpMemorySyscall (s : State) (pid : Nat) (pc : Int) : State × List Thread :=
  if findPcbIn .exec pid s then (movePcb .exec .blocked pid (setPc pid pc s), [.dumpWait pid])
  else (s, [])

/-- The second section of `dump_memory_syscall`, after memoria's answer.  Whether the PCB was still in
BLOCKED is not looked at. -/
def dumpMemoryAnswered (s : State) (pid : Nat) (confirmation : Bool) : State × List Thread :=
  if confirmation then (addPcbTo .ready pid (removePcbFrom .blocked pid s), [.short .plain])
  else (exitRoutine pid (removePcbFrom .blocked pid s), [])

/-! ## 3. IO -/

/-- `process_new_device`. -/
def processNewDevice (s : State) (socket : Nat) (deviceName : String) (position : Nat) :
    State × List Thread :=
  let s := createIoConnection socket deviceName position s
  match s.ioRequests deviceName with
  | none => (setIoRequests deviceName [] s, [])
  | some _ => (s, [.pendingIo deviceName socket .nothing])

/-- The threads started after `process_pending_io`. -/
def AfterPending.threads : AfterPending → List Thread
  | .nothing => []
  | .ioSyscall pid => [.medium pid, .short .plain]
  | .completed (some .blocked) => [.short .plain]
  | .completed (some .suspBlocked) => [.long .ifMoved]
  | .completed _ => []

/-- `process_pending_io`.  The package goes to the socket of the caller, the mark to the connection
found. -/
def processPendingIo (s : State) (deviceName : String) (socket : Nat) (sentOk : Bool) : State :=
  match getIoConnectionStatusByDeviceName s deviceName with
  | none => s
  | some connection =>
    match s.ioRequests deviceName with
    | none => s
    | some requests =>
      let isTrulyBusy := connection.currentProcessExecuting.any fun pid =>
        findPcbIn .blocked pid s || findPcbIn .suspBlocked pid s
      if isTrulyBusy then s
      else
        match requests with
        | [] => s
        | request :: rest =>
          if sentOk then
            setIoCurrent connection.socket (some request.pid)
              (setIoRequests deviceName rest
                (send (.ioOperation socket request.pid request.sleepTime) s))
          else s

/-- `io_completion`, up to its call of `process_pending_io`. -/
def ioCompletion (s : State) (socket : Nat) (deviceName : String) (pid : Nat) :
    State × List Thread :=
  match findIoConnectionBySocket s socket with
  | none => (s, [])
  | some _ =>
    if findPcbIn .blocked pid s then
      (setIoCurrent socket none (movePcb .blocked .ready pid s),
        [.pendingIo deviceName socket (.completed (some .blocked))])
    else if findPcbIn .suspBlocked pid s then
      (setIoCurrent socket none (movePcb .suspBlocked .suspReady pid s),
        [.pendingIo deviceName socket (.completed (some .suspBlocked))])
    else (setIoCurrent socket none s, [.pendingIo deviceName socket (.completed none)])

/-- `io_disconnected` with the first half of `handle_found_process`. -/
def ioDisconnected (s : State) (socket : Nat) : State × List Thread :=
  match findIoConnectionBySocket s socket with
  | none => (s, [])
  | some connection =>
    match connection.currentProcessExecuting with
    | none => (deleteIoConnection socket s, [])
    | some pid =>
      if findPcbIn .blocked pid s then
        (deleteIoConnection socket (exitRoutine pid (removePcbFrom .blocked pid s)), [])
      else (s, [.disconnectSusp socket pid])

/-- The second half of `handle_found_process`. -/
def handleFoundSuspended (s : State) (socket pid : Nat) : State × List Thread :=
  if findPcbIn .suspBlocked pid s then
    (exitRoutine pid (removePcbFrom .suspBlocked pid s), [.long (.disconnect socket)])
  else (deleteIoConnection socket s, [])

/-! ## 4. `run_medium_scheduler` -/

/-- The section that suspends the process. -/
def runMediumScheduler (s : State) (pid : Nat) (elapsed : Bool) : State × List Thread :=
  if findPcbIn .blocked pid s then
    if elapsed then
      (movePcb .blocked .suspBlocked pid s,
        if (s.pcbs pid).size ≠ 0 then [.mediumSwap pid] else [.long .ifMoved])
    else (s, [])
  else (s, [])

/-- The rollback: `remove_pcb_from_susp_blocked`, then `add_pcb_to_blocked`, which ignores NULL. -/
def mediumRollback (s : State) (pid : Nat) : State :=
  if findPcbIn .suspBlocked pid s then movePcb .suspBlocked .blocked pid s else s

/-! ## 5. `run_long_scheduler` -/

/-- The return of `run_long_scheduler` to its caller. -/
def longReturn (s : State) (caller : LongCaller) (moved : Bool) : State × List Thread :=
  match caller with
  | .always => (s, [.short .plain])
  | .ifMoved => (s, if moved then [.short .plain] else [])
  | .disconnect socket =>
    if moved then (s, [.short (.disconnect socket)]) else (deleteIoConnection socket s, [])

/-- `get_next_process_to_initialize_from_susp_ready` and `.._from_new`. -/
def getNextProcessToInitializeFrom (cfg : Config) (st : ProcessState) (order : List Nat) (s : State) :
    State × Option Nat :=
  let s := if cfg.longTermAlgorithm = .pmcp then sortList st order s else s
  (s, (s.queue st).head?)

/-- The SUSP_READY loop: the next process is chosen and UNSUSPEND_PROCESS sent. -/
def longScan (cfg : Config) (s : State) (order : List Nat) (caller : LongCaller) (moved : Bool) :
    State × List Thread :=
  match getNextProcessToInitializeFrom cfg .suspReady order s with
  | (s, none) => (s, [.longLock caller moved])
  | (s, some pid) => (s, [.longUnsuspend pid caller moved])

/-- The SUSP_READY loop: memoria has answered. -/
def longAnswered (s : State) (pid : Nat) (success : Bool) (caller : LongCaller) (moved : Bool) :
    State × List Thread :=
  if success then
    (removePcbFrom .suspReady pid s,
      [.longMove (if findPcbIn .suspReady pid s then some pid else none) caller])
  else (s, [.longLock caller moved])

/-- The SUSP_READY loop: the PCB that was removed is added to READY. -/
def longMove (s : State) (popped : Option Nat) (caller : LongCaller) : State × List Thread :=
  match popped with
  | none => (s, [.longScan caller true])
  | some pid => (addPcbTo .ready pid s, [.longScan caller true])

/-- The NEW loop: the next process is chosen and INIT_PROCESS sent. -/
def longNew (cfg : Config) (s : State) (order : List Nat) (caller : LongCaller) (moved : Bool) :
    State × List Thread :=
  match getNextProcessToInitializeFrom cfg .new order s with
  | (s, none) => longReturn s caller moved
  | (s, some pid) => (s, [.longCreate pid caller moved])

/-- The NEW loop: memoria has answered. -/
def longCreate (s : State) (pid : Nat) (memoryOk : Bool) (caller : LongCaller) (moved : Bool) :
    State × List Thread :=
  if memoryOk then
    (if findPcbIn .new pid s then movePcb .new .ready pid s else s, [.longNew caller true])
  else longReturn s caller moved

/-! ## 6. `run_short_scheduler` -/

/-- The return of `run_short_scheduler` to its caller. -/
def shortReturn (s : State) : ShortCaller → State × List Thread
  | .plain => (s, [])
  | .disconnect socket => (deleteIoConnection socket s, [])

/-- `get_cpu_by_algorithm` with `get_cpu_by_SJF`. -/
def getCpuByAlgorithm (cfg : Config) (execOrder : List Nat) (s : State) : State × Option Nat :=
  if cfg.shortTermAlgorithm = .sjf then
    let s := sortList .exec execOrder s
    match (s.queue .exec).getLast? with
    | none => (s, if s.cpus = [] then none else some 0)
    | some pid => (s, getCpuConnectionByPid s pid)
  else (s, if s.cpus = [] then none else some 0)

/-- `get_cpu_to_dispatch`: the first CPU without a mark or whose process is not in EXEC, and then its
mark is cleared; else the one the algorithm picks. -/
def getCpuToDispatch (cfg : Config) (execOrder : List Nat) (s : State) : State × Option Nat :=
  match s.cpus.findIdx? fun c => c.currentProcessExecuting.all fun pid => !findPcbIn .exec pid s with
  | some cpu => (setCurrent cpu none s, some cpu)
  | none => getCpuByAlgorithm cfg execOrder s

/-- `get_next_process_to_dispatch`. -/
def getNextProcessToDispatch (cfg : Config) (order : List Nat) (s : State) : State × Option Nat :=
  let s := if cfg.shortTermAlgorithm = .sjf then sortList .ready order s else s
  (s, (s.queue .ready).head?)

/-- `get_short_scheduler_context`, under CPU_CONNECTIONS and READY. -/
def shortSelect (cfg : Config) (s : State) (ch : Choice) (caller : ShortCaller) :
    State × List Thread :=
  match getCpuToDispatch cfg ch.execOrder s with
  | (s, none) => shortReturn s caller
  | (s, some cpu) =>
    match getNextProcessToDispatch cfg ch.order s with
    | (s, none) => shortReturn s caller
    | (s, some pid) => (s, [.shortSelected caller cpu pid])

/-- The last part of `run_short_scheduler`: READY to EXEC, DISPATCH, and the mark. -/
def dispatch (cpu pid : Nat) (s : State) : State :=
  setCurrent cpu (some pid)
    (send (.dispatch cpu pid (s.pcbs pid).pc) (addPcbTo .exec pid (removePcbFrom .ready pid s)))

/-- `should_preempt_executing_process`. -/
def shouldPreemptExecutingProcess (s : State) (pidExecuting : Nat) (srt : Bool) : Bool :=
  !findPcbIn .exec pidExecuting s || srt

/-- `run_short_scheduler` once a CPU and a process are chosen. -/
def shortDecide (cfg : Config) (s : State) (caller : ShortCaller) (cpu pid : Nat) (srt : Bool) :
    State × List Thread :=
  match currentOn s cpu with
  | none => shortReturn (dispatch cpu pid s) caller
  | some executing =>
    if cfg.preemptionEnabled && shouldPreemptExecutingProcess s executing srt then
      (send (.interrupt cpu executing) s, [.shortWait caller cpu pid])
    else shortReturn s caller

/-- The preempted PCB goes back to READY, if the CPU answered for it and it is still in EXEC. -/
def preempt (s : State) (cpu : Nat) (samePid : Bool) (pc : Int) : State :=
  match currentOn s cpu with
  | none => s
  | some executing =>
    if samePid && findPcbIn .exec executing s then
      movePcb .exec .ready executing (setPc executing pc s)
    else s

/-- `run_short_scheduler` after the CPU_CONTEXT. -/
def shortAnswered (s : State) (caller : ShortCaller) (cpu pid : Nat) (samePid : Bool) (pc : Int) :
    State × List Thread :=
  shortReturn (dispatch cpu pid (preempt s cpu samePid pc)) caller

/-! ## 7. Threads and the transition system -/

/-- The next section of a thread. -/
def nextSection (cfg : Config) (s : State) (ch : Choice) : Thread → State × List Thread
  | .initProc callerPid callerPc size => handleInitProcSyscall s callerPid callerPc size
  | .io pid pc sleepTime deviceName => handleIoProcessSyscall s pid pc sleepTime deviceName
  | .exit pid => exitProcessSyscall s pid
  | .dump pid pc => dumpMemorySyscall s pid pc
  | .newDevice socket deviceName => processNewDevice s socket deviceName ch.position
  | .ioCompletion socket deviceName pid => ioCompletion s socket deviceName pid
  | .ioDisconnected socket => ioDisconnected s socket
  | .dumpWait pid => dumpMemoryAnswered s pid ch.answer
  | .pendingIo deviceName socket after =>
    (processPendingIo s deviceName socket ch.answer, after.threads)
  | .disconnectSusp socket pid => handleFoundSuspended s socket pid
  | .medium pid => runMediumScheduler s pid ch.elapsed
  | .mediumSwap pid => if ch.connected then (s, [.mediumSent pid]) else (mediumRollback s pid, [])
  | .mediumSent pid => (s, [.mediumAnswered pid ch.answer])
  | .mediumAnswered pid success =>
    if success then (s, [.long .ifMoved]) else (mediumRollback s pid, [])
  | .long caller => if ch.connected then (s, [.longScan caller false]) else longReturn s caller false
  | .longScan caller moved => longScan cfg s ch.order caller moved
  | .longUnsuspend pid caller moved => (s, [.longAnswered pid ch.answer caller moved])
  | .longAnswered pid success caller moved => longAnswered s pid success caller moved
  | .longMove popped caller => longMove s popped caller
  | .longLock caller moved => (s, [.longNew caller moved])
  | .longNew caller moved => longNew cfg s ch.order caller moved
  | .longCreate pid caller moved => longCreate s pid ch.answer caller moved
  | .short caller => shortSelect cfg s ch caller
  | .shortSelected caller cpu pid => shortDecide cfg s caller cpu pid ch.preempt
  | .shortWait caller cpu pid => shortAnswered s caller cpu pid ch.answer ch.pc

/-- The messages that start a handler: syscalls from CPUs, and what IO devices send. -/
def Thread.isHandler : Thread → Bool
  | .initProc _ _ _ | .io _ _ _ _ | .exit _ | .dump _ _ | .newDevice _ _ | .ioCompletion _ _ _
  | .ioDisconnected _ => true
  | _ => false

/-- A step of the kernel: a message arrives, or a thread runs its next section. -/
inductive Event where
  | arrive (handler : Thread)
  | run (i : Nat) (choice : Choice)

/-- Whether a thread can run its section beside the others: none of them holds a lock it needs. -/
def Thread.free (t : Thread) (others : List Thread) : Bool :=
  t.uses.all fun l => others.all fun u => !u.holds.contains l

/-- One step.  After a crash there are none. -/
def step (cfg : Config) (s : State) : Event → Option State
  | .arrive handler =>
    if s.crashed = false ∧ handler.isHandler then some { s with threads := s.threads ++ [handler] }
    else none
  | .run i ch =>
    match s.threads[i]? with
    | none => none
    | some t =>
      let others := s.threads.eraseIdx i
      if s.crashed = false ∧ t.free others then
        let r := nextSection cfg s ch t
        some { r.1 with threads := others ++ r.2 }
      else none

/-- The kernel as a transition system: any order of messages and sections. -/
def kernel (cfg : Config) : Lts State Event := Lts.ofStep (State.start cfg) (step cfg)

end Tpso.Kernel
