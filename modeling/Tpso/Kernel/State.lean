/-
# The kernel: its lists, its connections and its threads

The kernel is a pool of threads that work on shared lists.  Every access to a list happens between
the `lock_..` and `unlock_..` calls of the list, so a CRITICAL SECTION is one step of the model:
`Thread` has one constructor for each point where a thread is about to enter a section (or waits for
a message inside one), and `nextSection` of the next module says what the section does and which
threads are there afterwards.

A pid stands for its PCB: the kernel creates one PCB for each value of `new_pid`, which only grows.
Time, the metrics of a PCB and the name of its script decide nothing here and are left out; where
they decide an ordering or a comparison (the sorts of SJF and PMCP, the comparison of SRT, the time a
process has been blocked) the outcome is a choice of the environment.
-/
import Tpso.Lib.Places
import Tpso.Lib.Run

namespace Tpso.Kernel

open Tpso.Lib

/-! ## 1. PCBs and lists -/

/-- `PROCESS_STATE`: the names of the seven lists. -/
inductive ProcessState where
  | new
  | ready
  | exec
  | blocked
  | suspBlocked
  | suspReady
  | exit
  deriving DecidableEq, Repr

/-- `t_pcb`. -/
structure Pcb where
  pc : Int
  size : Int
  currentState : ProcessState

/-- `pcb_create`. -/
def pcbCreate (pc size : Int) : Pcb := ⟨pc, size, .new⟩

/-- `PLANIFICATION_ALGORITHM`. -/
inductive PlanificationAlgorithm where
  | fifo
  | sjf
  | pmcp
  deriving DecidableEq

/-- `kernel.config`, as far as the schedulers read it, and the size of the root process. -/
structure Config where
  shortTermAlgorithm : PlanificationAlgorithm
  longTermAlgorithm : PlanificationAlgorithm
  preemptionEnabled : Bool
  cpuQuantity : Nat
  rootSize : Int

/-! ## 2. Connections and messages -/

/-- `t_cpu_connection`: `none` is the -1 of `current_process_executing`. -/
structure CpuConnection where
  currentProcessExecuting : Option Nat
  deriving DecidableEq

/-- `t_io_connection`, with the socket that is its key. -/
structure IoConnection where
  socket : Nat
  deviceName : String
  currentProcessExecuting : Option Nat

/-- `t_io_request`. -/
structure IoRequest where
  pid : Nat
  sleepTime : Int

/-- The packages the kernel sends to CPUs and to IO devices. -/
inductive Package where
  | dispatch (cpu pid : Nat) (pc : Int)
  | interrupt (cpu pid : Nat)
  | confirmation (pid : Nat)
  | ioOperation (socket pid : Nat) (sleepTime : Int)
  deriving DecidableEq

/-! ## 3. Threads -/

/-- Who called `run_long_scheduler`, that is, what happens when it returns: the short-term scheduler
runs in any case, or only if a process was moved, or it is `io_disconnected`, which still has to
delete its connection. -/
inductive LongCaller where
  | always
  | ifMoved
  | disconnect (socket : Nat)

/-- Who called `run_short_scheduler`. -/
inductive ShortCaller where
  | plain
  | disconnect (socket : Nat)

/-- What follows a call of `process_pending_io`. -/
inductive AfterPending where
  | nothing
  /-- `handle_io_process_syscall` starts the medium-term timer of the process and a short-term
  scheduler. -/
  | ioSyscall (pid : Nat)
  /-- `io_completion` starts a scheduler that depends on where it found the process. -/
  | completed (foundIn : Option ProcessState)

/-- Where a thread of the kernel can be between two steps. -/
inductive Thread where
  -- handlers that have received their message
  | initProc (callerPid : Nat) (callerPc size : Int)
  | io (pid : Nat) (pc sleepTime : Int) (deviceName : String)
  | exit (pid : Nat)
  | dump (pid : Nat) (pc : Int)
  | newDevice (socket : Nat) (deviceName : String)
  | ioCompletion (socket : Nat) (deviceName : String) (pid : Nat)
  | ioDisconnected (socket : Nat)
  -- inside a handler
  | dumpWait (pid : Nat)
  | pendingIo (deviceName : String) (socket : Nat) (after : AfterPending)
  | disconnectSusp (socket pid : Nat)
  -- `run_medium_scheduler`
  | medium (pid : Nat)
  | mediumSwap (pid : Nat)
  | mediumSent (pid : Nat)
  | mediumAnswered (pid : Nat) (success : Bool)
  -- `run_long_scheduler`
  | long (caller : LongCaller)
  | longScan (caller : LongCaller) (moved : Bool)
  | longUnsuspend (pid : Nat) (caller : LongCaller) (moved : Bool)
  | longAnswered (pid : Nat) (success : Bool) (caller : LongCaller) (moved : Bool)
  | longMove (popped : Option Nat) (caller : LongCaller)
  | longLock (caller : LongCaller) (moved : Bool)
  | longNew (caller : LongCaller) (moved : Bool)
  | longCreate (pid : Nat) (caller : LongCaller) (moved : Bool)
  -- `run_short_scheduler`
  | short (caller : ShortCaller)
  | shortSelected (caller : ShortCaller) (cpu pid : Nat)
  | shortWait (caller : ShortCaller) (cpu pid : Nat)

/-- The locks that can be held from one step to the next.  The locks of EXEC, BLOCKED, SUSP_BLOCKED,
EXIT and of the IO requests are released at the end of the section that takes them. -/
inductive Lock where
  | cpuConnections
  | ready
  | new
  | suspReady
  | ioConnections
  deriving DecidableEq

/-- `io_disconnected` keeps IO_CONNECTIONS while it runs the schedulers. -/
def LongCaller.holds : LongCaller → List Lock
  | .disconnect _ => [.ioConnections]
  | _ => []

def ShortCaller.holds : ShortCaller → List Lock
  | .disconnect _ => [.ioConnections]
  | .plain => []

/-- The locks a thread holds while it is between two steps. -/
def Thread.holds : Thread → List Lock
  | .disconnectSusp _ _ => [.ioConnections]
  | .long caller => caller.holds
  | .longScan caller _ => caller.holds
  | .longUnsuspend _ caller _ => .suspReady :: caller.holds
  | .longAnswered _ _ caller _ => .suspReady :: caller.holds
  | .longMove _ caller => caller.holds
  | .longLock caller _ => caller.holds
  | .longNew caller _ => .ready :: .new :: caller.holds
  | .longCreate _ caller _ => .ready :: .new :: caller.holds
  | .short caller => caller.holds
  | .shortSelected caller _ _ => .cpuConnections :: .ready :: caller.holds
  | .shortWait caller _ _ => .cpuConnections :: .ready :: caller.holds
  | _ => []

/-- The locks the next section of a thread works under: those it takes on entry and those it has kept
since an earlier section. -/
def Thread.uses : Thread → List Lock
  | .initProc _ _ _ => [.new]
  | .io _ _ _ _ => [.ioConnections]
  | .newDevice _ _ => [.ioConnections]
  | .ioCompletion _ _ _ => [.ioConnections, .ready, .suspReady]
  | .ioDisconnected _ => [.ioConnections]
  | .dumpWait _ => [.ready]
  | .pendingIo _ _ _ => [.ioConnections]
  | .longScan caller _ => .suspReady :: caller.holds
  | .longMove _ caller => .ready :: caller.holds
  | .longLock caller _ => .ready :: .new :: caller.holds
  | .short caller => .cpuConnections :: .ready :: caller.holds
  | t => t.holds

/-! ## 4. The state -/

/-- The globals of the kernel and its threads. -/
structure State where
  /-- The seven lists. -/
  queue : ProcessState → List Nat
  pcbs : Nat → Pcb
  /-- `new_pid`, the last pid given: without a bound here, an `_Atomic int32_t` in the source. -/
  newPid : Nat
  cpus : List CpuConnection
  /-- The connections in the order in which the dictionary yields them. -/
  ioConnections : List IoConnection
  /-- The request queue of a device name, once a device of that name has connected. -/
  ioRequests : String → Option (List IoRequest)
  /-- Every package sent, the last one first. -/
  sent : List Package
  threads : List Thread
  /-- A null pointer was followed. -/
  crashed : Bool

/-- The state when `initialize_root_process` has put PCB 0 on the NEW list and is about to call the
long-term scheduler. -/
def State.start (cfg : Config) : State where
  queue := fun st => if st = .new then [0] else []
  pcbs := fun _ => pcbCreate 0 cfg.rootSize
  newPid := 0
  cpus := List.replicate cfg.cpuQuantity ⟨none⟩
  ioConnections := []
  ioRequests := fun _ => none
  sent := []
  threads := [.long .ifMoved]
  crashed := false

/-- The lists and the `current_state` of the PCBs, as lists with named items. -/
def State.places (s : State) : Places ProcessState := ⟨s.queue, fun pid => (s.pcbs pid).currentState⟩

/-! ## 5. `repository/process` -/

/-- `find_pcb_in_..`. -/
def findPcbIn (st : ProcessState) (pid : Nat) (s : State) : Bool := decide (pid ∈ s.queue st)

/-- `remove_pcb_from_..`: the first match is removed; `findPcbIn` before it says whether the call
returns the PCB or NULL. -/
def removePcbFrom (st : ProcessState) (pid : Nat) (s : State) : State :=
  { s with queue := Function.update s.queue st ((s.queue st).erase pid) }

/-- `add_pcb_to_..`: `pcb_change_state`, then `list_add`. -/
def addPcbTo (st : ProcessState) (pid : Nat) (s : State) : State :=
  { s with
    queue := Function.update s.queue st (s.queue st ++ [pid])
    pcbs := Function.update s.pcbs pid { s.pcbs pid with currentState := st } }

/-- A PCB taken from one list and added to another within one section. -/
def movePcb (src dst : ProcessState) (pid : Nat) (s : State) : State :=
  addPcbTo dst pid (removePcbFrom src pid s)

/-- `add_pcb_to_new` changes no state: the PCB was created in NEW. -/
def addPcbToNew (pid : Nat) (pcb : Pcb) (s : State) : State :=
  { s with
    queue := Function.update s.queue .new (s.queue .new ++ [pid])
    pcbs := Function.update s.pcbs pid pcb }

/-- `pcb->pc = pc`. -/
def setPc (pid : Nat) (pc : Int) (s : State) : State :=
  { s with pcbs := Function.update s.pcbs pid { s.pcbs pid with pc := pc } }

/-- `list_sort` with a comparison that reads time and floating point: some reordering. -/
def sortList (st : ProcessState) (order : List Nat) (s : State) : State :=
  if order.Perm (s.queue st) then { s with queue := Function.update s.queue st order } else s

/-! ## 6. `repository/cpu` and `repository/io` -/

/-- `get_cpu_connection_by_pid`. -/
def getCpuConnectionByPid (s : State) (pid : Nat) : Option Nat :=
  s.cpus.findIdx? fun c => decide (c.currentProcessExecuting = some pid)

/-- `cpu->current_process_executing`. -/
def currentOn (s : State) (cpu : Nat) : Option Nat := (s.cpus[cpu]?).bind (·.currentProcessExecuting)

/-- A store into `cpu->current_process_executing`. -/
def setCurrent (cpu : Nat) (mark : Option Nat) (s : State) : State :=
  { s with cpus := s.cpus.set cpu ⟨mark⟩ }

/-- `find_io_connection_by_socket`. -/
def findIoConnectionBySocket (s : State) (socket : Nat) : Option IoConnection :=
  s.ioConnections.find? fun c => decide (c.socket = socket)

/-- `get_io_connection_status_by_device_name`: the first connection of the name that is not busy, or
else the first of the name. -/
def getIoConnectionStatusByDeviceName (s : State) (deviceName : String) : Option IoConnection :=
  let named := s.ioConnections.filter fun c => decide (c.deviceName = deviceName)
  (named.find? fun c => decide (c.currentProcessExecuting = none)).or named.head?

/-- A store into `connection->current_process_executing`. -/
def setIoCurrent (socket : Nat) (mark : Option Nat) (s : State) : State :=
  { s with ioConnections := s.ioConnections.map fun c =>
      if c.socket = socket then { c with currentProcessExecuting := mark } else c }

/-- `create_io_connection`; the hash of the socket decides the place of the connection. -/
def createIoConnection (socket : Nat) (deviceName : String) (position : Nat) (s : State) : State :=
  let others := s.ioConnections.filter fun c => decide (c.socket ≠ socket)
  { s with ioConnections := others.take position ++ ⟨socket, deviceName, none⟩ :: others.drop position }

/-- `delete_io_connection`. -/
def deleteIoConnection (socket : Nat) (s : State) : State :=
  { s with ioConnections := s.ioConnections.filter fun c => decide (c.socket ≠ socket) }

/-- A store into the request queue of a device name. -/
def setIoRequests (deviceName : String) (q : List IoRequest) (s : State) : State :=
  { s with ioRequests := Function.update s.ioRequests deviceName (some q) }

/-- A package is sent. -/
def send (p : Package) (s : State) : State := { s with sent := p :: s.sent }

/-- The CPU a DISPATCH package sends a process to. -/
def Package.dispatchOf (pid : Nat) : Package → Option Nat
  | .dispatch cpu q _ => if q = pid then some cpu else none
  | _ => none

/-- The CPU to which the last DISPATCH of a process was sent. -/
def State.lastDispatch (s : State) (pid : Nat) : Option Nat := s.sent.findSome? (Package.dispatchOf pid)

end Tpso.Kernel
