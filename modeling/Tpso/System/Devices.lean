/-
# Which device works for which process

`process_pending_io` gives the first waiting request of a device name to a connection of that name.  It
SENDS the IO_OPERATION on the socket its caller handed in and MARKS the connection it looks up itself.
The two were chosen in different critical sections: between them another thread may have marked the
caller's connection, and then the request goes out on one socket and the mark to another connection.

The kernel runs here together with the devices at the other end of the sockets.  A device announces
itself once, works on the operations it receives one after another, sends one completion for each, and
may disconnect at any time.  As long as every request is sent on the socket of the connection that gets
the mark, and that connection was free, a connection is marked with a process exactly when its device
works for it (`assigned_of_ownSocket`).
-/
import Tpso.Kernel.Assignment

namespace Tpso.Devices

open Tpso.Lib Tpso.Kernel

/-! ## 1. Devices and the kernel -/

/-- The IO module at the other end of a socket. -/
structure Device where
  name : String
  /-- The operations it has received and not completed, the oldest first. -/
  working : List Nat
  connected : Bool

/-- The kernel, the devices by socket, and the IO_OPERATIONs sent on each socket whose completion the
kernel has not processed. -/
structure State where
  kernel : Kernel.State
  devices : Nat → Option Device
  outstanding : Nat → List Nat

/-- What happens: a step of the kernel, or a device that connects, completes its oldest operation or
disconnects. -/
inductive Event where
  | kernel (e : Kernel.Event)
  | connect (socket : Nat) (deviceName : String)
  | complete (socket : Nat)
  | disconnect (socket : Nat)

/-- The messages of CPUs. -/
def isSyscall : Thread → Bool
  | .initProc _ _ _ | .io _ _ _ _ | .exit _ | .dump _ _ => true
  | _ => false

/-- The IO_OPERATION that a section has sent, if it sent one: socket and pid. -/
def newOperation (k k' : Kernel.State) : Option (Nat × Nat) :=
  match k'.sent with
  | .ioOperation socket pid _ :: rest => if rest = k.sent then some (socket, pid) else none
  | _ => none

/-- The operation of a package reaches the device at its socket and is outstanding from then on. -/
def deliver (s : State) : Option (Nat × Nat) → State
  | none => s
  | some (socket, pid) =>
    { s with
      devices := Function.update s.devices socket
        ((s.devices socket).map fun d => { d with working := d.working ++ [pid] })
      outstanding := Function.update s.outstanding socket (s.outstanding socket ++ [pid]) }

/-- A completion that `io_completion` has processed is not outstanding any more. -/
def settle (s : State) : Thread → State
  | .ioCompletion socket _ pid =>
    { s with outstanding := Function.update s.outstanding socket ((s.outstanding socket).erase pid) }
  | _ => s

/-- One step. -/
def step (cfg : Config) (s : State) : Event → Option State
  | .kernel (.arrive handler) =>
    if isSyscall handler then
      (Kernel.step cfg s.kernel (.arrive handler)).map fun k => { s with kernel := k }
    else none
  | .kernel (.run i ch) =>
    match s.kernel.threads[i]? with
    | none => none
    | some t =>
      (Kernel.step cfg s.kernel (.run i ch)).map fun k =>
        deliver (settle { s with kernel := k } t) (newOperation s.kernel k)
  | .connect socket deviceName =>
    match s.devices socket with
    | some _ => none
    | none =>
      (Kernel.step cfg s.kernel (.arrive (.newDevice socket deviceName))).map fun k =>
        { s with
          kernel := k
          devices := Function.update s.devices socket (some ⟨deviceName, [], true⟩) }
  | .complete socket =>
    match s.devices socket with
    | some ⟨deviceName, pid :: rest, true⟩ =>
      (Kernel.step cfg s.kernel (.arrive (.ioCompletion socket deviceName pid))).map fun k =>
        { s with
          kernel := k
          devices := Function.update s.devices socket (some ⟨deviceName, rest, true⟩) }
    | _ => none
  | .disconnect socket =>
    match s.devices socket with
    | some ⟨deviceName, working, true⟩ =>
      (Kernel.step cfg s.kernel (.arrive (.ioDisconnected socket))).map fun k =>
        { s with
          kernel := k
          devices := Function.update s.devices socket (some ⟨deviceName, working, false⟩) }
    | _ => none

/-- The kernel before any device has connected. -/
def State.start (cfg : Config) : State := ⟨.start cfg, fun _ => none, fun _ => []⟩

/-- The kernel with its devices, as a transition system. -/
def devices (cfg : Config) : Lts State Event := Lts.ofStep (State.start cfg) (step cfg)

/-- **A connection is marked with a process exactly when an IO_OPERATION for it is outstanding on the
connection's own socket**, and no connection has two operations outstanding. -/
def Assigned (s : State) : Prop :=
  ∀ c ∈ s.kernel.ioConnections,
    (∀ pid, c.currentProcessExecuting = some pid ↔ pid ∈ s.outstanding c.socket) ∧
      (s.outstanding c.socket).length ≤ 1

/-- `is_truly_busy`. -/
def isTrulyBusy (k : Kernel.State) (c : IoConnection) : Bool :=
  c.currentProcessExecuting.any fun pid => findPcbIn .blocked pid k || findPcbIn .suspBlocked pid k

/-- The connection to which `process_pending_io` gives a request, if there is one to give. -/
def givesTo (k : Kernel.State) (deviceName : String) : Option IoConnection :=
  (getIoConnectionStatusByDeviceName k deviceName).filter fun c =>
    !isTrulyBusy k c && (k.ioRequests deviceName).any fun requests => !requests.isEmpty

/-- A step that gives a request away, and can send it, gives it to a connection without a mark, whose
socket is the one that `process_pending_io` was called with. -/
def ownSocket (s : State) : Event → Bool
  | .kernel (.run i ch) =>
    match s.kernel.threads[i]? with
    | some (.pendingIo deviceName socket _) =>
      !ch.answer || (givesTo s.kernel deviceName).all fun c =>
        decide (c.socket = socket ∧ c.currentProcessExecuting = none)
    | _ => true
  | _ => true

/-! ## 2. What a section does to the connections -/

section Sections

variable {cfg : Config} {k : Kernel.State} {ch : Choice}

/-- A section that creates and marks no connection, sends no IO_OPERATION and starts no handler. -/
structure Quiet (k : Kernel.State) (r : Kernel.State × List Thread) : Prop where
  connections : ∀ c ∈ r.1.ioConnections, c ∈ k.ioConnections
  sent : r.1.sent = k.sent ∨ ∃ p, r.1.sent = p :: k.sent ∧ ∀ socket pid sleepTime,
    p ≠ .ioOperation socket pid sleepTime
  threads : ∀ u ∈ r.2, u.isHandler = false

theorem Quiet.of_eq {r : Kernel.State × List Thread} (hc : r.1.ioConnections = k.ioConnections)
    (hs : r.1.sent = k.sent) (ht : ∀ u ∈ r.2, u.isHandler = false) : Quiet k r :=
  ⟨fun _ h => hc ▸ h, Or.inl hs, ht⟩

/-- Deleting a connection afterwards keeps a section quiet. -/
theorem Quiet.delete {r : Kernel.State × List Thread} (h : Quiet k r) (socket : Nat) :
    Quiet k (deleteIoConnection socket r.1, r.2) :=
  ⟨fun c hc => h.connections c (List.mem_of_mem_filter hc), h.sent, h.threads⟩

theorem Quiet.longReturn {k' : Kernel.State} (h : Quiet k (k', [])) (caller : LongCaller) (moved : Bool) :
    Quiet k (longReturn k' caller moved) := by
  cases caller with
  | always => exact ⟨h.connections, h.sent, by simp [Kernel.longReturn, Thread.isHandler]⟩
  | ifMoved =>
    cases moved with
    | true => exact ⟨h.connections, h.sent, by simp [Kernel.longReturn, Thread.isHandler]⟩
    | false => exact ⟨h.connections, h.sent, by simp [Kernel.longReturn]⟩
  | disconnect socket =>
    cases moved with
    | true => exact ⟨h.connections, h.sent, by simp [Kernel.longReturn, Thread.isHandler]⟩
    | false => exact h.delete socket

theorem Quiet.shortReturn {k' : Kernel.State} (h : Quiet k (k', [])) (caller : ShortCaller) :
    Quiet k (shortReturn k' caller) := by
  cases caller with
  | plain => exact h
  | disconnect socket => exact h.delete socket

/-- Sorting a list leaves the connections and the packages alone. -/
theorem sortList_io (st : ProcessState) (order : List Nat) (k : Kernel.State) :
    (sortList st order k).ioConnections = k.ioConnections ∧ (sortList st order k).sent = k.sent := by
  unfold sortList
  split
  · exact ⟨rfl, rfl⟩
  · exact ⟨rfl, rfl⟩

theorem quiet_getNextProcessToInitializeFrom (k : Kernel.State) (cfg : Config) (st : ProcessState) (order : List Nat) :
    Quiet k ((getNextProcessToInitializeFrom cfg st order k).1, []) := by
  obtain ⟨order', heq⟩ := getNextProcessToInitializeFrom_eq k cfg st order
  rw [heq]
  exact Quiet.of_eq (sortList_io st order' k).1 (sortList_io st order' k).2 (by simp)

theorem quiet_exitProcessSyscall (pid : Nat) : Quiet k (exitProcessSyscall k pid) := by
  unfold exitProcessSyscall
  split
  · exact Quiet.of_eq rfl rfl (by simp [Thread.isHandler])
  · exact Quiet.of_eq rfl rfl (by simp)

theorem quiet_handleIoProcessSyscall (pid : Nat) (pc sleepTime : Int) (deviceName : String) :
    Quiet k (handleIoProcessSyscall k pid pc sleepTime deviceName) := by
  unfold handleIoProcessSyscall
  split
  · exact quiet_exitProcessSyscall pid
  · split
    · exact Quiet.of_eq rfl rfl (by simp)
    · split
      · exact Quiet.of_eq rfl rfl (by simp [Thread.isHandler])
      · exact Quiet.of_eq rfl rfl (by simp)

theorem quiet_handleInitProcSyscall (pid : Nat) (callerPc size : Int) :
    Quiet k (handleInitProcSyscall k pid callerPc size) := by
  unfold handleInitProcSyscall
  split
  · simp only
    split
    · exact Quiet.of_eq rfl rfl (by simp)
    · exact ⟨fun _ h => h, Or.inr ⟨.confirmation pid, rfl, by simp⟩, by simp [Thread.isHandler]⟩
  · exact Quiet.of_eq rfl rfl (by simp)

theorem quiet_ioDisconnected (socket : Nat) : Quiet k (ioDisconnected k socket) := by
  have hsame : Quiet k (k, []) := Quiet.of_eq rfl rfl (by simp)
  unfold ioDisconnected
  split
  · exact hsame
  · split
    · exact hsame.delete socket
    · rename_i pid _
      split
      · have hexit : Quiet k (exitRoutine pid (removePcbFrom .blocked pid k), []) :=
          Quiet.of_eq rfl rfl (by simp)
        exact hexit.delete socket
      · exact Quiet.of_eq rfl rfl (by simp [Thread.isHandler])

theorem quiet_handleFoundSuspended (socket pid : Nat) : Quiet k (handleFoundSuspended k socket pid) := by
  have hsame : Quiet k (k, []) := Quiet.of_eq rfl rfl (by simp)
  unfold handleFoundSuspended
  split
  · exact Quiet.of_eq rfl rfl (by simp [Thread.isHandler])
  · exact hsame.delete socket

theorem quiet_mediumRollback (pid : Nat) : Quiet k (mediumRollback k pid, []) := by
  unfold mediumRollback
  split
  · exact Quiet.of_eq rfl rfl (by simp)
  · exact Quiet.of_eq rfl rfl (by simp)

theorem quiet_dispatch (cpu pid : Nat) {k' : Kernel.State} (hc : k'.ioConnections = k.ioConnections)
    (hs : k'.sent = k.sent) : Quiet k (dispatch cpu pid k', []) :=
  ⟨fun _ h => hc ▸ h, Or.inr ⟨.dispatch cpu pid (k'.pcbs pid).pc, congrArg _ hs, by simp⟩, by simp⟩

theorem preempt_io (k : Kernel.State) (cpu : Nat) (samePid : Bool) (pc : Int) :
    (preempt k cpu samePid pc).ioConnections = k.ioConnections ∧
      (preempt k cpu samePid pc).sent = k.sent := by
  unfold preempt
  split
  · exact ⟨rfl, rfl⟩
  · split
    · exact ⟨rfl, rfl⟩
    · exact ⟨rfl, rfl⟩

theorem getCpuToDispatch_io (cfg : Config) (execOrder : List Nat) (k : Kernel.State) :
    (getCpuToDispatch cfg execOrder k).1.ioConnections = k.ioConnections ∧
      (getCpuToDispatch cfg execOrder k).1.sent = k.sent := by
  rcases getCpuToDispatch_cases cfg execOrder k with ⟨cpu, -, -, heq⟩ | ⟨order, cpu, heq, -⟩
  · rw [heq]
    exact ⟨rfl, rfl⟩
  · rw [heq]
    exact sortList_io .exec order k

theorem getNextProcessToDispatch_io (cfg : Config) (order : List Nat) (k : Kernel.State) :
    (getNextProcessToDispatch cfg order k).1.ioConnections = k.ioConnections ∧
      (getNextProcessToDispatch cfg order k).1.sent = k.sent := by
  simp only [getNextProcessToDispatch]
  split
  · exact sortList_io .ready order k
  · exact ⟨rfl, rfl⟩

theorem quiet_shortSelect (caller : ShortCaller) : Quiet k (shortSelect cfg k ch caller) := by
  have hcpu := getCpuToDispatch_io cfg ch.execOrder k
  unfold shortSelect
  split
  · rename_i k1 heq
    rw [heq] at hcpu
    exact Quiet.shortReturn (Quiet.of_eq hcpu.1 hcpu.2 (by simp)) caller
  · rename_i k1 cpu heq
    rw [heq] at hcpu
    have hready := getNextProcessToDispatch_io cfg ch.order k1
    split
    · rename_i k2 heq'
      rw [heq'] at hready
      exact Quiet.shortReturn (Quiet.of_eq (hready.1.trans hcpu.1) (hready.2.trans hcpu.2) (by simp)) caller
    · rename_i k2 pid heq'
      rw [heq'] at hready
      exact Quiet.of_eq (hready.1.trans hcpu.1) (hready.2.trans hcpu.2) (by simp [Thread.isHandler])

theorem quiet_shortDecide (caller : ShortCaller) (cpu pid : Nat) (srt : Bool) :
    Quiet k (shortDecide cfg k caller cpu pid srt) := by
  unfold shortDecide
  split
  · exact (quiet_dispatch cpu pid rfl rfl).shortReturn caller
  · rename_i executing _
    split
    · exact ⟨fun _ h => h, Or.inr ⟨.interrupt cpu executing, rfl, by simp⟩, by simp [Thread.isHandler]⟩
    · exact Quiet.shortReturn (Quiet.of_eq rfl rfl (by simp)) caller

/-- The threads whose sections change connections or send operations. -/
def changesIo : Thread → Bool
  | .newDevice _ _ | .ioCompletion _ _ _ | .pendingIo _ _ _ => true
  | _ => false

/-- **All other sections are quiet.** -/
theorem nextSection_quiet {t : Thread} (ht : changesIo t = false) : Quiet k (nextSection cfg k ch t) := by
  have hsame : Quiet k (k, []) := Quiet.of_eq rfl rfl (by simp)
  cases t with
  | initProc callerPid callerPc size => exact quiet_handleInitProcSyscall callerPid callerPc size
  | io pid pc sleepTime deviceName => exact quiet_handleIoProcessSyscall pid pc sleepTime deviceName
  | exit pid => exact quiet_exitProcessSyscall pid
  | dump pid pc =>
    simp only [nextSection, dumpMemorySyscall]
    split
    · exact Quiet.of_eq rfl rfl (by simp [Thread.isHandler])
    · exact hsame
  | newDevice socket deviceName => simp [changesIo] at ht
  | ioCompletion socket deviceName pid => simp [changesIo] at ht
  | ioDisconnected socket => exact quiet_ioDisconnected socket
  | dumpWait pid =>
    simp only [nextSection, dumpMemoryAnswered]
    split
    · exact Quiet.of_eq rfl rfl (by simp [Thread.isHandler])
    · exact Quiet.of_eq rfl rfl (by simp)
  | pendingIo deviceName socket after => simp [changesIo] at ht
  | disconnectSusp socket pid => exact quiet_handleFoundSuspended socket pid
  | medium pid =>
    simp only [nextSection, runMediumScheduler]
    split
    · split
      · refine Quiet.of_eq rfl rfl ?_
        split
        · simp [Thread.isHandler]
        · simp [Thread.isHandler]
      · exact hsame
    · exact hsame
  | mediumSwap pid =>
    simp only [nextSection]
    split
    · exact Quiet.of_eq rfl rfl (by simp [Thread.isHandler])
    · exact quiet_mediumRollback pid
  | mediumSent pid => exact Quiet.of_eq rfl rfl (by simp [nextSection, Thread.isHandler])
  | mediumAnswered pid success =>
    simp only [nextSection]
    split
    · exact Quiet.of_eq rfl rfl (by simp [Thread.isHandler])
    · exact quiet_mediumRollback pid
  | long caller =>
    simp only [nextSection]
    split
    · exact Quiet.of_eq rfl rfl (by simp [Thread.isHandler])
    · exact hsame.longReturn caller false
  | longScan caller moved =>
    have hnext := quiet_getNextProcessToInitializeFrom k cfg .suspReady ch.order
    simp only [nextSection, longScan]
    split
    · rename_i k1 heq
      rw [heq] at hnext
      exact ⟨hnext.connections, hnext.sent, by simp [Thread.isHandler]⟩
    · rename_i k1 pid heq
      rw [heq] at hnext
      exact ⟨hnext.connections, hnext.sent, by simp [Thread.isHandler]⟩
  | longUnsuspend pid caller moved => exact Quiet.of_eq rfl rfl (by simp [nextSection, Thread.isHandler])
  | longAnswered pid success caller moved =>
    simp only [nextSection, longAnswered]
    split
    · exact Quiet.of_eq rfl rfl (by simp [Thread.isHandler])
    · exact Quiet.of_eq rfl rfl (by simp [Thread.isHandler])
  | longMove popped caller =>
    cases popped with
    | none => exact Quiet.of_eq rfl rfl (by simp [nextSection, longMove, Thread.isHandler])
    | some pid => exact Quiet.of_eq rfl rfl (by simp [nextSection, longMove, Thread.isHandler])
  | longLock caller moved => exact Quiet.of_eq rfl rfl (by simp [nextSection, Thread.isHandler])
  | longNew caller moved =>
    have hnext := quiet_getNextProcessToInitializeFrom k cfg .new ch.order
    simp only [nextSection, longNew]
    split
    · rename_i k1 heq
      rw [heq] at hnext
      exact hnext.longReturn caller moved
    · rename_i k1 pid heq
      rw [heq] at hnext
      exact ⟨hnext.connections, hnext.sent, by simp [Thread.isHandler]⟩
  | longCreate pid caller moved =>
    simp only [nextSection, longCreate]
    split
    · split
      · exact Quiet.of_eq rfl rfl (by simp [Thread.isHandler])
      · exact Quiet.of_eq rfl rfl (by simp [Thread.isHandler])
    · exact hsame.longReturn caller moved
  | short caller => exact quiet_shortSelect caller
  | shortSelected caller cpu pid => exact quiet_shortDecide caller cpu pid ch.preempt
  | shortWait caller cpu pid =>
    have h := preempt_io k cpu ch.answer ch.pc
    exact (quiet_dispatch cpu pid h.1 h.2).shortReturn caller

/-- **What `process_pending_io` does**: nothing, or it takes the first request, sends it on the socket it
was given and marks the connection it has found. -/
theorem processPendingIo_cases (deviceName : String) (socket : Nat) (sentOk : Bool) :
    processPendingIo k deviceName socket sentOk = k ∨
      ∃ c, ∃ request : IoRequest, ∃ rest, givesTo k deviceName = some c ∧ c ∈ k.ioConnections ∧ sentOk = true ∧
        processPendingIo k deviceName socket sentOk = setIoCurrent c.socket (some request.pid)
          (setIoRequests deviceName rest
            (send (.ioOperation socket request.pid request.sleepTime) k)) := by
  unfold processPendingIo
  split
  · exact Or.inl rfl
  · rename_i c hfound
    split
    · exact Or.inl rfl
    · rename_i requests hrequests
      simp only
      split
      · exact Or.inl rfl
      · rename_i hbusy
        split
        · exact Or.inl rfl
        · rename_i request rest
          split
          · rename_i hok
            refine Or.inr ⟨c, request, rest, ?_, ?_, hok, rfl⟩
            · rw [givesTo, hfound, hrequests]
              simpa [isTrulyBusy, Option.filter] using hbusy
            · rw [getIoConnectionStatusByDeviceName, Option.or_eq_some_iff] at hfound
              rcases hfound with h | ⟨-, h⟩
              · exact List.mem_of_mem_filter (List.mem_of_find?_eq_some h)
              · exact List.mem_of_mem_filter (List.mem_of_mem_head? h)
          · exact Or.inl rfl

end Sections

/-! ## 3. The invariant -/

/-- The process whose operation on `socket` a thread completes. -/
def completes (socket : Nat) : Thread → Option Nat
  | .ioCompletion socket' _ pid => if socket' = socket then some pid else none
  | _ => none

/-- The completions of a socket that have been received and not processed. -/
def completions (socket : Nat) (threads : List Thread) : List Nat := threads.filterMap (completes socket)

/-- The announcement of the device at a socket. -/
def announces (socket : Nat) : Thread → Bool
  | .newDevice socket' _ => decide (socket' = socket)
  | _ => false

/-- The operations on which the device at a socket still works. -/
def workingOn (s : State) (socket : Nat) : List Nat := ((s.devices socket).map (·.working)).getD []

/-- How often a socket can still become a connection: it is unused, or its announcement waits. -/
def yetToJoin (s : State) (socket : Nat) : Nat :=
  (if (s.devices socket).isNone then 1 else 0) + s.kernel.threads.countP (announces socket)

/-- **The invariant.**  The mark of a connection is the list of its outstanding operations; those are the
ones a device works on or whose completion waits for its section; and a socket becomes a connection once,
with nothing outstanding. -/
structure Inv (s : State) : Prop where
  marks : ∀ c ∈ s.kernel.ioConnections, s.outstanding c.socket = c.currentProcessExecuting.toList
  inFlight : ∀ socket,
    (s.outstanding socket).Perm (completions socket s.kernel.threads ++ workingOn s socket)
  joinsOnce : ∀ socket, yetToJoin s socket ≤ 1
  fresh : ∀ socket, 0 < yetToJoin s socket →
    s.outstanding socket = [] ∧ ∀ c ∈ s.kernel.ioConnections, c.socket ≠ socket

/-- The invariant is stronger than the property. -/
theorem Inv.assigned {s : State} (h : Inv s) : Assigned s := by
  intro c hc
  rw [h.marks c hc]
  cases hmark : c.currentProcessExecuting with
  | none => simp
  | some pid =>
    refine ⟨?_, by simp⟩
    intro q
    simp [eq_comm]

section Step

variable {cfg : Config} {s s' : State}

/-- A thread that is no handler completes and announces nothing. -/
theorem completes_of_not_handler {u : Thread} (h : u.isHandler = false) (socket : Nat) :
    completes socket u = none ∧ announces socket u = false := by
  cases u with
  | newDevice a b => simp [Thread.isHandler] at h
  | ioCompletion a b c => simp [Thread.isHandler] at h
  | _ => exact ⟨rfl, rfl⟩

theorem completions_append_of_not_handler {others new : List Thread} (h : ∀ u ∈ new, u.isHandler = false)
    (socket : Nat) : completions socket (others ++ new) = completions socket others := by
  have hnil : new.filterMap (completes socket) = [] := by
    rw [List.filterMap_eq_nil_iff]
    exact fun u hu => (completes_of_not_handler (h u hu) socket).1
  rw [completions, List.filterMap_append, hnil, List.append_nil, completions]

theorem countP_append_of_not_handler {others new : List Thread} (h : ∀ u ∈ new, u.isHandler = false)
    (socket : Nat) :
    (others ++ new).countP (announces socket) = others.countP (announces socket) := by
  have hzero : new.countP (announces socket) = 0 := by
    rw [List.countP_eq_zero]
    intro u hu
    simp [(completes_of_not_handler (h u hu) socket).2]
  rw [List.countP_append, hzero, Nat.add_zero]

/-- The ghost parts after a section: what is outstanding, and the devices. -/
theorem newOperation_of_sent {k k' : Kernel.State} (h : k'.sent = k.sent ∨ ∃ p, k'.sent = p :: k.sent ∧
    ∀ socket pid sleepTime, p ≠ .ioOperation socket pid sleepTime) : newOperation k k' = none := by
  unfold newOperation
  split
  · rename_i socket pid sleepTime rest hsent
    rw [if_neg]
    rintro rfl
    rcases h with h | ⟨p, h, hp⟩
    · rw [hsent] at h
      simp at h
    · rw [hsent] at h
      exact hp socket pid sleepTime (List.cons.inj h).1.symm
  · rfl

/-- What is in flight on a socket, with the running thread set apart. -/
theorem Inv.inFlight_cons (hs : Inv s) {t : Thread} {others : List Thread}
    (hperm : s.kernel.threads.Perm (t :: others)) (socket : Nat) :
    (s.outstanding socket).Perm
      ((completes socket t).toList ++ (completions socket others ++ workingOn s socket)) := by
  have h := (hperm.filterMap (completes socket)).append_right (workingOn s socket)
  refine (hs.inFlight socket).trans (h.trans ?_)
  cases hc : completes socket t with
  | none => simp [completions, hc]
  | some pid => simp [completions, hc]

/-- How often a socket can still become a connection, with the running thread set apart. -/
theorem yetToJoin_cons {t : Thread} {others : List Thread} (hperm : s.kernel.threads.Perm (t :: others))
    (socket : Nat) :
    yetToJoin s socket = (if (s.devices socket).isNone then 1 else 0) +
      (others.countP (announces socket) + if announces socket t then 1 else 0) := by
  rw [yetToJoin, hperm.countP_eq, List.countP_cons]

/-- **A quiet section keeps the invariant.** -/
theorem Inv.quiet (hs : Inv s) {t : Thread} {others : List Thread} {r : Kernel.State × List Thread}
    (hperm : s.kernel.threads.Perm (t :: others)) (hq : Quiet s.kernel r)
    (hnone : ∀ socket, completes socket t = none ∧ announces socket t = false) :
    Inv { s with kernel := { r.1 with threads := others ++ r.2 } } := by
  have hjoin : ∀ socket, yetToJoin { s with kernel := { r.1 with threads := others ++ r.2 } } socket =
      yetToJoin s socket := by
    intro socket
    rw [yetToJoin_cons hperm, (hnone socket).2, yetToJoin, countP_append_of_not_handler hq.threads]
    rfl
  refine ⟨?_, ?_, ?_, ?_⟩
  · exact fun c hc => hs.marks c (hq.connections c hc)
  · intro socket
    have h := hs.inFlight_cons hperm socket
    rw [(hnone socket).1] at h
    rw [completions_append_of_not_handler hq.threads]
    exact h
  · intro socket
    rw [hjoin]
    exact hs.joinsOnce socket
  · intro socket hpos
    rw [hjoin] at hpos
    obtain ⟨hnil, hconn⟩ := hs.fresh socket hpos
    exact ⟨hnil, fun c hc => hconn c (hq.connections c hc)⟩

/-- **A new connection is free**: nothing is outstanding on its socket. -/
theorem Inv.newDevice (hs : Inv s) {socket position : Nat} {deviceName : String} {others : List Thread}
    (hperm : s.kernel.threads.Perm (.newDevice socket deviceName :: others)) :
    Inv { s with kernel :=
      { (processNewDevice s.kernel socket deviceName position).1 with
        threads := others ++ (processNewDevice s.kernel socket deviceName position).2 } } := by
  have hnew : ∀ u ∈ (processNewDevice s.kernel socket deviceName position).2, u.isHandler = false := by
    simp only [processNewDevice]
    split
    · simp
    · simp [Thread.isHandler]
  have hconns : ∀ c ∈ (processNewDevice s.kernel socket deviceName position).1.ioConnections,
      c = ⟨socket, deviceName, none⟩ ∨ c ∈ s.kernel.ioConnections := by
    have hcreate : ∀ c ∈ (createIoConnection socket deviceName position s.kernel).ioConnections,
        c = ⟨socket, deviceName, none⟩ ∨ c ∈ s.kernel.ioConnections := by
      intro c hc
      simp only [createIoConnection, List.mem_append, List.mem_cons] at hc
      rcases hc with hc | rfl | hc
      · exact Or.inr (List.mem_of_mem_filter (List.mem_of_mem_take hc))
      · exact Or.inl rfl
      · exact Or.inr (List.mem_of_mem_filter (List.mem_of_mem_drop hc))
    simp only [processNewDevice]
    split
    · exact hcreate
    · exact hcreate
  have hjoin : ∀ socket', yetToJoin { s with kernel :=
      { (processNewDevice s.kernel socket deviceName position).1 with
        threads := others ++ (processNewDevice s.kernel socket deviceName position).2 } } socket' +
      (if socket = socket' then 1 else 0) = yetToJoin s socket' := by
    intro socket'
    rw [yetToJoin_cons hperm, yetToJoin, countP_append_of_not_handler hnew]
    simp [announces, Nat.add_assoc]
  have hfree := hs.fresh socket (by have := hjoin socket; simp at this; omega)
  refine ⟨?_, ?_, ?_, ?_⟩
  · intro c hc
    rcases hconns c hc with rfl | hold
    · exact hfree.1
    · exact hs.marks c hold
  · intro socket'
    rw [completions_append_of_not_handler hnew]
    exact hs.inFlight_cons hperm socket'
  · intro socket'
    have := hjoin socket'
    have := hs.joinsOnce socket'
    omega
  · intro socket' hpos
    have hj := hjoin socket'
    have hle := hs.joinsOnce socket'
    -- the socket that has just joined does not join again
    have hne : socket ≠ socket' := by
      intro h
      rw [if_pos h] at hj
      omega
    rw [if_neg hne, Nat.add_zero] at hj
    obtain ⟨hnil, hconn⟩ := hs.fresh socket' (hj ▸ hpos)
    refine ⟨hnil, ?_⟩
    intro c hc
    rcases hconns c hc with rfl | hold
    · exact hne
    · exact hconn c hold

/-- What `io_completion` does to the connections: the one at its socket, if there is one, is freed. -/
theorem ioCompletion_connections {k : Kernel.State} {socket pid : Nat} {deviceName : String} :
    (ioCompletion k socket deviceName pid).1.sent = k.sent ∧
      (∀ u ∈ (ioCompletion k socket deviceName pid).2, u.isHandler = false) ∧
      ∀ c ∈ (ioCompletion k socket deviceName pid).1.ioConnections, ∃ c' ∈ k.ioConnections,
        c'.socket = c.socket ∧
          c.currentProcessExecuting = if c.socket = socket then none else c'.currentProcessExecuting := by
  have hset : ∀ k' : Kernel.State, k'.ioConnections = k.ioConnections →
      ∀ c ∈ (setIoCurrent socket none k').ioConnections, ∃ c' ∈ k.ioConnections,
        c'.socket = c.socket ∧
          c.currentProcessExecuting = if c.socket = socket then none else c'.currentProcessExecuting := by
    intro k' hk c hc
    simp only [setIoCurrent, hk, List.mem_map] at hc
    obtain ⟨c', hc', rfl⟩ := hc
    refine ⟨c', hc', ?_⟩
    by_cases h : c'.socket = socket
    · simp [h]
    · simp [h]
  unfold ioCompletion
  split
  · rename_i hnone
    refine ⟨rfl, by simp, ?_⟩
    intro c hc
    have hne : c.socket ≠ socket := by
      have := List.find?_eq_none.mp hnone c hc
      simpa using this
    exact ⟨c, hc, rfl, by rw [if_neg hne]⟩
  · split
    · exact ⟨rfl, by simp [Thread.isHandler], hset _ rfl⟩
    · split
      · exact ⟨rfl, by simp [Thread.isHandler], hset _ rfl⟩
      · exact ⟨rfl, by simp [Thread.isHandler], hset _ rfl⟩

/-- **A processed completion frees the connection**, and it was the only operation outstanding there. -/
theorem Inv.completed (hs : Inv s) {socket pid : Nat} {deviceName : String} {others : List Thread}
    (hperm : s.kernel.threads.Perm (.ioCompletion socket deviceName pid :: others)) :
    Inv { s with
      kernel := { (ioCompletion s.kernel socket deviceName pid).1 with
        threads := others ++ (ioCompletion s.kernel socket deviceName pid).2 }
      outstanding :=
        Function.update s.outstanding socket ((s.outstanding socket).erase pid) } := by
  obtain ⟨-, hnew, hconns⟩ := @ioCompletion_connections s.kernel socket pid deviceName
  have hself := hs.inFlight_cons hperm socket
  simp only [completes, ↓reduceIte, Option.toList_some, List.singleton_append] at hself
  have hmem : pid ∈ s.outstanding socket := hself.mem_iff.mpr List.mem_cons_self
  have hjoin : ∀ socket', yetToJoin { s with
      kernel := { (ioCompletion s.kernel socket deviceName pid).1 with
        threads := others ++ (ioCompletion s.kernel socket deviceName pid).2 }
      outstanding := Function.update s.outstanding socket ((s.outstanding socket).erase pid) } socket' =
      yetToJoin s socket' := by
    intro socket'
    rw [yetToJoin_cons hperm, yetToJoin, countP_append_of_not_handler hnew]
    rfl
  refine ⟨?_, ?_, ?_, ?_⟩
  · intro c hc
    obtain ⟨c', hc', hsock, hmark⟩ := hconns c hc
    have hold := hs.marks c' hc'
    rw [hsock] at hold
    by_cases h : c.socket = socket
    · -- the mark was the one outstanding operation
      rw [h] at hold ⊢
      rw [hold] at hmem
      have hpid : c'.currentProcessExecuting = some pid := by simpa using hmem
      simp only [hmark, if_pos h, Function.update_self, hold, hpid]
      simp
    · simp only [hmark, if_neg h, Function.update_of_ne h]
      exact hold
  · intro socket'
    rw [completions_append_of_not_handler hnew]
    by_cases h : socket' = socket
    · subst h
      simp only [Function.update_self]
      exact (List.cons_perm_iff_perm_erase.mp hself.symm).2.symm
    · simp only [Function.update_of_ne h]
      have hother := hs.inFlight_cons hperm socket'
      simp only [completes, if_neg (Ne.symm h), Option.toList_none, List.nil_append] at hother
      exact hother
  · intro socket'
    rw [hjoin]
    exact hs.joinsOnce socket'
  · intro socket' hpos
    rw [hjoin] at hpos
    obtain ⟨hnil, hconn⟩ := hs.fresh socket' hpos
    have hne : socket' ≠ socket := by
      rintro rfl
      rw [hnil] at hmem
      exact absurd hmem List.not_mem_nil
    refine ⟨by simpa only [Function.update_of_ne hne] using hnil, ?_⟩
    intro c hc
    obtain ⟨c', hc', hsock, -⟩ := hconns c hc
    rw [← hsock]
    exact hconn c' hc'

/-- A package makes no device and removes none. -/
theorem deliver_isNone (s : State) (op : Option (Nat × Nat)) (socket : Nat) :
    ((deliver s op).devices socket).isNone = (s.devices socket).isNone := by
  cases op with
  | none => rfl
  | some op =>
    by_cases h : socket = op.1
    · subst h
      simp [deliver]
    · simp [deliver, Function.update_of_ne h]

/-- **A request given to a free connection on its own socket.** -/
theorem Inv.given (hs : Inv s) {socket : Nat} {deviceName : String} {after : AfterPending}
    {others : List Thread} {c : IoConnection} {pid : Nat} {k : Kernel.State}
    (hperm : s.kernel.threads.Perm (.pendingIo deviceName socket after :: others))
    (hc : c ∈ s.kernel.ioConnections) (hsock : c.socket = socket) (hfree : c.currentProcessExecuting = none)
    (hk : k.ioConnections = (setIoCurrent socket (some pid) s.kernel).ioConnections)
    {new : List Thread} (hnew : ∀ u ∈ new, u.isHandler = false) :
    Inv (deliver { s with kernel := { k with threads := others ++ new } } (some (socket, pid))) := by
  have hnil : s.outstanding socket = [] := by
    have := hs.marks c hc
    rw [hsock, hfree] at this
    exact this
  -- the socket has a connection, so it has a device
  have hjoined : yetToJoin s socket = 0 := by
    by_contra hpos
    exact (hs.fresh socket (Nat.pos_of_ne_zero hpos)).2 c hc hsock
  obtain ⟨d, hd⟩ : ∃ d, s.devices socket = some d := by
    rw [← Option.isSome_iff_exists, Option.isSome_iff_ne_none]
    intro hnone
    simp [yetToJoin, hnone] at hjoined
  have hjoin : ∀ socket', yetToJoin
      (deliver { s with kernel := { k with threads := others ++ new } } (some (socket, pid))) socket' =
      yetToJoin s socket' := by
    intro socket'
    rw [yetToJoin_cons hperm, yetToJoin, deliver_isNone]
    simp only [deliver]
    rw [countP_append_of_not_handler hnew]
    rfl
  refine ⟨?_, ?_, ?_, ?_⟩
  · intro c' hc'
    simp only [deliver, hk, setIoCurrent, List.mem_map] at hc'
    obtain ⟨c0, hc0, rfl⟩ := hc'
    simp only [deliver]
    by_cases h : c0.socket = socket
    · simp [h, hnil]
    · simp only [if_neg h]
      rw [Function.update_of_ne h]
      exact hs.marks c0 hc0
  · intro socket'
    have hold := hs.inFlight_cons hperm socket'
    simp only [completes, Option.toList_none, List.nil_append] at hold
    simp only [deliver, workingOn]
    rw [completions_append_of_not_handler hnew]
    by_cases h : socket' = socket
    · subst h
      rw [Function.update_self, Function.update_self, hd]
      simp only [workingOn, hd, Option.map_some, Option.getD_some] at hold ⊢
      rw [← List.append_assoc]
      exact hold.append_right [pid]
    · rw [Function.update_of_ne h, Function.update_of_ne h]
      exact hold
  · intro socket'
    rw [hjoin]
    exact hs.joinsOnce socket'
  · intro socket' hpos
    rw [hjoin] at hpos
    have hne : socket' ≠ socket := by
      rintro rfl
      omega
    obtain ⟨hnil', hconn⟩ := hs.fresh socket' hpos
    refine ⟨?_, ?_⟩
    · simp only [deliver]
      rw [Function.update_of_ne hne]
      exact hnil'
    · intro c' hc'
      simp only [deliver, hk, setIoCurrent, List.mem_map] at hc'
      obtain ⟨c0, hc0, rfl⟩ := hc'
      by_cases h : c0.socket = socket
      · rw [if_pos h]
        simpa [h] using hne.symm
      · rw [if_neg h]
        exact hconn c0 hc0

/-- **A section keeps the invariant** when it gives no request to the wrong connection. -/
theorem inv_run {i : Nat} {ch : Choice} (hs : Inv s) (hok : ownSocket s (.kernel (.run i ch)) = true)
    (h : step cfg s (.kernel (.run i ch)) = some s') : Inv s' := by
  simp only [step] at h
  split at h
  · exact absurd h (by simp)
  · rename_i t ht
    obtain ⟨k, hk, rfl⟩ := Option.map_eq_some_iff.mp h
    obtain ⟨t', others, ht', hperm, -, -, hkeq⟩ := step_run hk
    obtain rfl : t = t' := by
      rw [ht] at ht'
      exact Option.some.inj ht'
    have hquiet : changesIo t = false →
        Inv (deliver (settle { s with kernel := k } t) (newOperation s.kernel k)) := by
      intro hnot
      have hq : Quiet s.kernel (nextSection cfg s.kernel ch t) := nextSection_quiet hnot
      have hop : newOperation s.kernel k = none := newOperation_of_sent (by rw [hkeq]; exact hq.sent)
      have hsettle : settle { s with kernel := k } t = { s with kernel := k } := by
        cases t with
        | ioCompletion a b c => simp [changesIo] at hnot
        | _ => rfl
      rw [hop, hsettle, hkeq]
      refine hs.quiet hperm hq ?_
      intro socket
      cases t with
      | newDevice a b => simp [changesIo] at hnot
      | ioCompletion a b c => simp [changesIo] at hnot
      | _ => exact ⟨rfl, rfl⟩
    cases t with
    | newDevice socket deviceName =>
      have hop : newOperation s.kernel k = none := by
        refine newOperation_of_sent (Or.inl ?_)
        rw [hkeq]
        simp only [nextSection, processNewDevice]
        split
        · rfl
        · rfl
      rw [hop, hkeq]
      exact hs.newDevice hperm
    | ioCompletion socket deviceName pid =>
      have hop : newOperation s.kernel k = none := by
        refine newOperation_of_sent (Or.inl ?_)
        rw [hkeq]
        exact ioCompletion_connections.1
      rw [hop, hkeq]
      exact hs.completed hperm
    | pendingIo deviceName socket after =>
      have hnew : ∀ u ∈ after.threads, u.isHandler = false := by
        unfold AfterPending.threads
        split
        · simp
        · simp [Thread.isHandler]
        · simp [Thread.isHandler]
        · simp [Thread.isHandler]
        · simp
      have hpending := @processPendingIo_cases s.kernel deviceName socket ch.answer
      simp only [nextSection] at hkeq
      rcases hpending with hsame | ⟨c, request, rest, hgives, hc, hans, heq⟩
      · rw [hsame] at hkeq
        have hop : newOperation s.kernel k = none := newOperation_of_sent (Or.inl (by rw [hkeq]))
        have hq : Quiet s.kernel (s.kernel, after.threads) := Quiet.of_eq rfl rfl hnew
        rw [hop, hkeq]
        exact hs.quiet hperm hq fun _ => ⟨rfl, rfl⟩
      · simp only [ownSocket, ht, hans, hgives, Option.all_some, Bool.not_true, Bool.false_or,
          decide_eq_true_eq] at hok
        obtain ⟨hsock, hfree⟩ := hok
        rw [heq] at hkeq
        have hop : newOperation s.kernel k = some (socket, request.pid) := by
          rw [hkeq]
          simp [newOperation, setIoCurrent, setIoRequests, send]
        rw [hop, hkeq]
        refine hs.given hperm hc hsock hfree ?_ hnew
        rw [hsock]
        rfl
    | _ => exact hquiet rfl

/-- A message that is neither a completion nor an announcement. -/
theorem Inv.arrive (hs : Inv s) {handler : Thread} {d : Nat → Option Device}
    (hnone : ∀ socket, completes socket handler = none ∧ announces socket handler = false)
    (hdev : ∀ socket, (d socket).map (·.working) = (s.devices socket).map (·.working)) :
    Inv { s with kernel := { s.kernel with threads := s.kernel.threads ++ [handler] }, devices := d } := by
  have hisNone : ∀ socket, (d socket).isNone = (s.devices socket).isNone := by
    intro socket
    have h := congrArg Option.isNone (hdev socket)
    simpa using h
  have hjoin : ∀ socket, yetToJoin
      { s with kernel := { s.kernel with threads := s.kernel.threads ++ [handler] }, devices := d } socket =
      yetToJoin s socket := by
    intro socket
    simp [yetToJoin, List.countP_append, (hnone socket).2, hisNone]
  refine ⟨hs.marks, ?_, ?_, ?_⟩
  · intro socket
    have h := hs.inFlight socket
    simp only [workingOn] at h ⊢
    rw [hdev]
    simpa [completions, List.filterMap_append, (hnone socket).1] using h
  · intro socket
    rw [hjoin]
    exact hs.joinsOnce socket
  · intro socket hpos
    rw [hjoin] at hpos
    exact hs.fresh socket hpos

/-- A device that connects uses a new socket. -/
theorem Inv.connect (hs : Inv s) {socket : Nat} {deviceName : String} (hnew : s.devices socket = none) :
    Inv { s with
      kernel := { s.kernel with threads := s.kernel.threads ++ [.newDevice socket deviceName] }
      devices := Function.update s.devices socket (some ⟨deviceName, [], true⟩) } := by
  have hjoin : ∀ socket', yetToJoin { s with
      kernel := { s.kernel with threads := s.kernel.threads ++ [.newDevice socket deviceName] }
      devices := Function.update s.devices socket (some ⟨deviceName, [], true⟩) } socket' =
      yetToJoin s socket' := by
    intro socket'
    by_cases h : socket' = socket
    · subst h
      simp [yetToJoin, hnew, announces, List.countP_append, Nat.add_comm]
    · simp [yetToJoin, Function.update_of_ne h, announces, List.countP_append, Ne.symm h]
  refine ⟨hs.marks, ?_, ?_, ?_⟩
  · intro socket'
    have h := hs.inFlight socket'
    simp only [workingOn] at h ⊢
    by_cases heq : socket' = socket
    · subst heq
      simpa [completions, List.filterMap_append, List.filterMap_cons, completes, hnew] using h
    · simpa [completions, List.filterMap_append, List.filterMap_cons, completes,
        Function.update_of_ne heq] using h
  · intro socket'
    rw [hjoin]
    exact hs.joinsOnce socket'
  · intro socket' hpos
    rw [hjoin] at hpos
    exact hs.fresh socket' hpos

/-- A device that completes its oldest operation. -/
theorem Inv.complete (hs : Inv s) {socket pid : Nat} {deviceName : String} {rest : List Nat}
    (hdev : s.devices socket = some ⟨deviceName, pid :: rest, true⟩) :
    Inv { s with
      kernel := { s.kernel with threads := s.kernel.threads ++ [.ioCompletion socket deviceName pid] }
      devices := Function.update s.devices socket (some ⟨deviceName, rest, true⟩) } := by
  have hjoin : ∀ socket', yetToJoin { s with
      kernel := { s.kernel with threads := s.kernel.threads ++ [.ioCompletion socket deviceName pid] }
      devices := Function.update s.devices socket (some ⟨deviceName, rest, true⟩) } socket' =
      yetToJoin s socket' := by
    intro socket'
    by_cases h : socket' = socket
    · subst h
      simp [yetToJoin, hdev, announces, List.countP_append]
    · simp [yetToJoin, Function.update_of_ne h, announces, List.countP_append]
  refine ⟨hs.marks, ?_, ?_, ?_⟩
  · intro socket'
    have h := hs.inFlight socket'
    simp only [workingOn] at h ⊢
    by_cases heq : socket' = socket
    · subst heq
      simpa [completions, List.filterMap_append, completes, hdev] using h
    · simpa [completions, List.filterMap_append, completes, Function.update_of_ne heq, Ne.symm heq] using h
  · intro socket'
    rw [hjoin]
    exact hs.joinsOnce socket'
  · intro socket' hpos
    rw [hjoin] at hpos
    exact hs.fresh socket' hpos

/-- **Every step keeps the invariant** when it gives no request to the wrong connection. -/
theorem inv_step {e : Event} (hs : Inv s) (hok : ownSocket s e = true) (h : step cfg s e = some s') :
    Inv s' := by
  cases e with
  | kernel e =>
    cases e with
    | run i ch => exact inv_run hs hok h
    | arrive handler =>
      simp only [step] at h
      split at h
      · rename_i hsys
        obtain ⟨k, hk, rfl⟩ := Option.map_eq_some_iff.mp h
        obtain ⟨-, rfl⟩ := step_arrive hk
        refine hs.arrive ?_ fun _ => rfl
        intro socket
        cases handler with
        | newDevice a b => simp [isSyscall] at hsys
        | ioCompletion a b c => simp [isSyscall] at hsys
        | _ => exact ⟨rfl, rfl⟩
      · exact absurd h (by simp)
  | connect socket deviceName =>
    simp only [step] at h
    split at h
    · exact absurd h (by simp)
    · rename_i hnew
      obtain ⟨k, hk, rfl⟩ := Option.map_eq_some_iff.mp h
      obtain ⟨-, rfl⟩ := step_arrive hk
      exact hs.connect hnew
  | complete socket =>
    simp only [step] at h
    split at h
    · rename_i deviceName pid rest hdev
      obtain ⟨k, hk, rfl⟩ := Option.map_eq_some_iff.mp h
      obtain ⟨-, rfl⟩ := step_arrive hk
      exact hs.complete hdev
    · exact absurd h (by simp)
  | disconnect socket =>
    simp only [step] at h
    split at h
    · rename_i deviceName working hdev
      obtain ⟨k, hk, rfl⟩ := Option.map_eq_some_iff.mp h
      obtain ⟨-, rfl⟩ := step_arrive hk
      refine hs.arrive (fun _ => ⟨rfl, rfl⟩) ?_
      intro socket'
      by_cases heq : socket' = socket
      · subst heq
        simp [hdev]
      · rw [Function.update_of_ne heq]
    · exact absurd h (by simp)

end Step

/-- Before any device has connected there is nothing to keep. -/
theorem inv_start (cfg : Config) : Inv (State.start cfg) := by
  refine ⟨?_, ?_, ?_, ?_⟩
  · intro c hc
    exact absurd hc List.not_mem_nil
  · intro socket
    exact List.Perm.refl _
  · intro socket
    simp [yetToJoin, State.start, Kernel.State.start, announces]
  · intro socket _
    exact ⟨rfl, fun c hc => absurd hc List.not_mem_nil⟩

/-! ## 4. Whole runs -/

/-- **In every run in which each request is given to a free connection on its own socket, a connection is
marked with a process exactly when an IO_OPERATION for it is outstanding on that connection's socket**, in
every state the run passes through. -/
theorem assigned_of_ownSocket {cfg : Config} {tr : List (Transition State Event)} {s : State}
    (hr : (devices cfg).Run tr s) (hok : ∀ x ∈ tr, ownSocket x.src x.label = true) :
    Assigned s ∧ ∀ x ∈ tr, Assigned x.src := by
  have h0 : ∀ s, (devices cfg).init s → Inv s := by
    rintro s rfl
    exact inv_start cfg
  have hstep : ∀ s e s', Inv s → ownSocket s e = true → (devices cfg).step s e s' → Inv s' :=
    fun s e s' hs ho hst => inv_step hs ho hst
  refine ⟨(hr.invariant h0 hstep hok).assigned, ?_⟩
  intro x hx
  exact ((hr.invariant_steps h0 hstep hok) x hx).1.assigned

/-- Two processes in EXEC and two devices of one name, at the sockets 5 and 6. -/
def twoDisks : List Event :=
  bootTwo.map .kernel ++
    [.connect 5 "disk", .kernel (.run 0 {}), .connect 6 "disk", .kernel (.run 0 {}), .kernel (.run 0 {})]

/-- The theorem at work: the first process waits for one of the devices, which then completes. -/
theorem assigned_of_ownSocket_one_io :
    ∃ tr s, (devices twoCpus).Run tr s ∧ (∃ x ∈ tr, x.src.outstanding 6 = [0]) ∧
      s.outstanding 6 = [] ∧ Assigned s ∧ ∀ x ∈ tr, Assigned x.src := by
  obtain ⟨tr, s, hrun, htest⟩ := Lts.exists_run_of_drive (State.start twoCpus) (step twoCpus)
    (twoDisks ++
      [.kernel (.arrive (.io 0 1 100 "disk")), .kernel (.run 0 {}), .kernel (.run 0 {}), .complete 6,
        .kernel (.run 2 {})])
    (fun tr s => (tr.any fun x => decide (x.src.outstanding 6 = [0])) &&
      decide (s.outstanding 6 = []) && tr.all fun x => ownSocket x.src x.label) (by decide +kernel)
  simp only [Bool.and_eq_true, List.any_eq_true, decide_eq_true_eq, List.all_eq_true] at htest
  obtain ⟨⟨hmid, hend⟩, hok⟩ := htest
  exact ⟨tr, s, hrun, hmid, hend, assigned_of_ownSocket hrun hok⟩

/-- Without the condition a connection is marked whose device does nothing.  Both processes ask for the
device name before either request is given away, so both calls of `process_pending_io` carry the socket
6; the second one finds the connection at socket 5 free, marks it, and sends on socket 6. -/
theorem not_assigned_two_requests :
    ¬ ∀ (cfg : Config) (tr : List (Transition State Event)) (s : State),
      (devices cfg).Run tr s → Assigned s := by
  intro hall
  obtain ⟨tr, s, hrun, htest⟩ := Lts.exists_run_of_drive (State.start twoCpus) (step twoCpus)
    (twoDisks ++
      [.kernel (.arrive (.io 0 1 100 "disk")), .kernel (.arrive (.io 1 1 100 "disk")),
        .kernel (.run 0 {}), .kernel (.run 0 {}), .kernel (.run 0 {}), .kernel (.run 0 {})])
    (fun _ s => (s.kernel.ioConnections.any fun c =>
        decide (c.socket = 5 ∧ c.currentProcessExecuting = some 1)) && decide (s.outstanding 5 = []))
    (by decide +kernel)
  simp only [Bool.and_eq_true, List.any_eq_true, decide_eq_true_eq] at htest
  obtain ⟨⟨c, hc, hsock, hmark⟩, hnil⟩ := htest
  have hmem := ((hall twoCpus tr s hrun c hc).1 1).mp hmark
  rw [hsock, hnil] at hmem
  exact absurd hmem List.not_mem_nil

end Tpso.Devices
