/-
# The two threads of a CPU

`Tpso.Cpu.Cycle` shows a CPU as its memory sees it.  Here it is shown as the kernel sees it: the main
thread and the listener, each with its own place in the program, the list of interrupts they share with its
lock, and the semaphore `cpu_mutex`.

The semaphore starts at one, and `main` gives it back wherever it leaves the instruction cycle.  It takes it
in `recv_dispatch`, but only when the package is a DISPATCH: any other package lets it into the cycle
without the semaphore (`units_step`).

What an instruction does to memory decides nothing here; of a READ or WRITE it is the environment that says
whether it advances the program counter.
-/
import Tpso.Cpu.Cycle

namespace Tpso.Cpu

/-! ## 1. States -/

/-- What the kernel sends on the dispatch socket. -/
inductive FromKernel where
  | dispatch (pid pc : Int)
  | confirmation
deriving DecidableEq, Repr

/-- Where the main thread is. -/
inductive MainThread where
  /-- In `recv_dispatch`, before `recv_package` returns. -/
  | receiving
  /-- In `recv_dispatch` with a DISPATCH, before `lock_cpu_mutex` returns. -/
  | locking (pid pc : Int)
  /-- Before the next instruction. -/
  | fetching
  /-- INIT_PROC is sent and not answered. -/
  | calling
  /-- After an instruction. -/
  | executed (shouldPreempt : Bool)
  /-- In `interrupt_handler`, with the lock of the list. -/
  | handling (shouldPreempt interrupted : Bool)
  /-- After `interrupt_handler`. -/
  | handled (turnEnds : Bool)
deriving DecidableEq, Repr

/-- Where the listener is. -/
inductive ListenerThread where
  /-- Before `recv_package` returns. -/
  | receiving
  /-- The INTERRUPT is in the list; before `lock_cpu_mutex` returns. -/
  | locking
  /-- Before `interrupt_handler` has the lock of the list. -/
  | locked
  /-- In `interrupt_handler`, with the lock of the list. -/
  | handling
deriving DecidableEq, Repr

/-- What the two threads share, and where they are. -/
structure Threads where
  pid : Int
  pc : Int
  main : MainThread
  listener : ListenerThread
  interrupts : List Int
  cpuMutex : Nat

/-- A CPU at the start.  Both `pid` and `pc` are 0. -/
def Threads.start : Threads := ⟨0, 0, .receiving, .receiving, [], 1⟩

/-- Whether the main thread has the lock of the list. -/
def MainThread.locksList : MainThread → Bool
  | .handling _ _ => true
  | _ => false

/-- Whether nobody has the lock of the list. -/
def Threads.listFree (s : Threads) : Bool := !s.main.locksList && s.listener != .handling

/-! ## 2. Steps -/

/-- What a step of one of the threads is. -/
inductive ThreadsEvent where
  -- the main thread
  /-- `recv_package` in `recv_dispatch`. -/
  | recvDispatch (package : FromKernel)
  /-- `lock_cpu_mutex` in `recv_dispatch`. -/
  | lockDispatched
  /-- `fetch` or `decode` returned NULL. -/
  | noInstruction
  /-- `execution`, and whether a READ or WRITE succeeds. -/
  | execute (instruction : Instruction) (success : Bool)
  /-- `recv_package` after INIT_PROC. -/
  | answer (package : FromKernel)
  /-- `lock_interrupt_list`. -/
  | handle
  /-- `check_interrupt`. -/
  | check
  /-- The list is empty. -/
  | unlock
  /-- The end of the cycle. -/
  | endCycle
  -- the listener
  /-- `recv_package` and `add_interrupt`. -/
  | recvInterrupt (pid : Int)
  /-- `lock_cpu_mutex`. -/
  | listen
  | handleListened
  | checkListened
  | unlockListened

/-- `execution`, up to the answer to INIT_PROC. -/
def executeSyscall (s : Threads) (success : Bool) : Instruction → Threads × List Sent
  | .noop => ({ s with pc := s.pc + 1, main := .executed false }, [])
  | .access _ => ({ s with pc := if success then s.pc + 1 else s.pc, main := .executed false }, [])
  | .goto target => ({ s with pc := target, main := .executed false }, [])
  | .io device time =>
    ({ s with pc := s.pc + 1, main := .executed true }, [.io s.pid (s.pc + 1) device time])
  | .initProc file size _ =>
    ({ s with pc := s.pc + 1, main := .calling }, [.initProc s.pid (s.pc + 1) file size])
  | .dumpMemory => ({ s with pc := s.pc + 1, main := .executed true }, [.dumpMemory s.pid (s.pc + 1)])
  | .exit => ({ s with pc := s.pc + 1, main := .executed true }, [.exit s.pid (s.pc + 1)])
  | .unknown => ({ s with main := .executed false }, [])

/-- The answer of `check_interrupt`. -/
def contextFor (s : Threads) (pid : Int) : Sent := .context pid s.pc (decide (pid ≠ s.pid))

/-- **One step of one of the threads**, and the messages it sends. -/
def threadsStep (s : Threads) : ThreadsEvent → Option (Threads × List Sent)
  | .recvDispatch package =>
    match s.main, package with
    | .receiving, .dispatch pid pc => some ({ s with main := .locking pid pc }, [])
    -- `recv_dispatch` returns NULL, which `main` does not look at
    | .receiving, .confirmation => some ({ s with main := .fetching }, [])
    | _, _ => none
  | .lockDispatched =>
    match s.main with
    | .locking pid pc =>
      if 0 < s.cpuMutex then
        some ({ s with pid := pid, pc := pc, main := .fetching, cpuMutex := s.cpuMutex - 1 }, [])
      else none
    | _ => none
  | .noInstruction =>
    match s.main with
    | .fetching => some ({ s with main := .receiving, cpuMutex := s.cpuMutex + 1 }, [])
    | _ => none
  | .execute instruction success =>
    match s.main with
    | .fetching =>
      if s.pid < 0 ∨ s.pc < 0 then none else some (executeSyscall s success instruction)
    | _ => none
  | .answer package =>
    match s.main with
    | .calling => some ({ s with main := .executed (decide (package ≠ .confirmation)) }, [])
    | _ => none
  | .handle =>
    match s.main with
    | .executed shouldPreempt =>
      if s.listFree then some ({ s with main := .handling shouldPreempt false }, []) else none
    | _ => none
  | .check =>
    match s.main, s.interrupts.getLast? with
    | .handling shouldPreempt _, some pid =>
      some ({ s with main := .handling shouldPreempt true, interrupts := s.interrupts.dropLast },
        [contextFor s pid])
    | _, _ => none
  | .unlock =>
    match s.main, s.interrupts with
    | .handling shouldPreempt interrupted, [] =>
      some ({ s with main := .handled (shouldPreempt || interrupted) }, [])
    | _, _ => none
  | .endCycle =>
    match s.main with
    | .handled true =>
      some ({ s with pid := -1, pc := -1, main := .receiving, cpuMutex := s.cpuMutex + 1 }, [])
    | .handled false => some ({ s with main := .fetching }, [])
    | _ => none
  | .recvInterrupt pid =>
    match s.listener with
    | .receiving =>
      if s.listFree then some ({ s with listener := .locking, interrupts := s.interrupts ++ [pid] }, [])
      else none
    | _ => none
  | .listen =>
    match s.listener with
    | .locking =>
      if 0 < s.cpuMutex then some ({ s with listener := .locked, cpuMutex := s.cpuMutex - 1 }, [])
      else none
    | _ => none
  | .handleListened =>
    match s.listener with
    | .locked => if s.listFree then some ({ s with listener := .handling }, []) else none
    | _ => none
  | .checkListened =>
    match s.listener, s.interrupts.getLast? with
    | .handling, some pid =>
      some ({ s with interrupts := s.interrupts.dropLast }, [contextFor s pid])
    | _, _ => none
  | .unlockListened =>
    match s.listener, s.interrupts with
    | .handling, [] => some ({ s with listener := .receiving, cpuMutex := s.cpuMutex + 1 }, [])
    | _, _ => none

/-- What a step of a thread finds, and what it leaves. -/
inductive ThreadsMove (s : Threads) : ThreadsEvent → Threads → List Sent → Prop where
  | dispatched (pid pc : Int) (hmain : s.main = .receiving) :
    ThreadsMove s (.recvDispatch (.dispatch pid pc)) { s with main := .locking pid pc } []
  | letIn (hmain : s.main = .receiving) :
    ThreadsMove s (.recvDispatch .confirmation) { s with main := .fetching } []
  | lockDispatched (pid pc : Int) (hmain : s.main = .locking pid pc) (hpos : 0 < s.cpuMutex) :
    ThreadsMove s .lockDispatched
      { s with pid := pid, pc := pc, main := .fetching, cpuMutex := s.cpuMutex - 1 } []
  | noInstruction (hmain : s.main = .fetching) :
    ThreadsMove s .noInstruction { s with main := .receiving, cpuMutex := s.cpuMutex + 1 } []
  | execute (instruction : Instruction) (success : Bool) (hmain : s.main = .fetching) (hpid : 0 ≤ s.pid) :
    ThreadsMove s (.execute instruction success) (executeSyscall s success instruction).1
      (executeSyscall s success instruction).2
  | answer (package : FromKernel) (hmain : s.main = .calling) :
    ThreadsMove s (.answer package) { s with main := .executed (decide (package ≠ .confirmation)) } []
  | handle (shouldPreempt : Bool) (hmain : s.main = .executed shouldPreempt) :
    ThreadsMove s .handle { s with main := .handling shouldPreempt false } []
  | check (shouldPreempt interrupted : Bool) (pid : Int)
    (hmain : s.main = .handling shouldPreempt interrupted) :
    ThreadsMove s .check
      { s with main := .handling shouldPreempt true, interrupts := s.interrupts.dropLast } [contextFor s pid]
  | unlock (shouldPreempt interrupted : Bool) (hmain : s.main = .handling shouldPreempt interrupted) :
    ThreadsMove s .unlock { s with main := .handled (shouldPreempt || interrupted) } []
  | endTurn (hmain : s.main = .handled true) :
    ThreadsMove s .endCycle { s with pid := -1, pc := -1, main := .receiving, cpuMutex := s.cpuMutex + 1 } []
  | endCycle (hmain : s.main = .handled false) : ThreadsMove s .endCycle { s with main := .fetching } []
  | recvInterrupt (pid : Int) (hlistener : s.listener = .receiving) :
    ThreadsMove s (.recvInterrupt pid) { s with listener := .locking, interrupts := s.interrupts ++ [pid] } []
  | listen (hlistener : s.listener = .locking) (hpos : 0 < s.cpuMutex) :
    ThreadsMove s .listen { s with listener := .locked, cpuMutex := s.cpuMutex - 1 } []
  | handleListened (hlistener : s.listener = .locked) :
    ThreadsMove s .handleListened { s with listener := .handling } []
  | checkListened (pid : Int) (hlistener : s.listener = .handling) :
    ThreadsMove s .checkListened { s with interrupts := s.interrupts.dropLast } [contextFor s pid]
  | unlockListened (hlistener : s.listener = .handling) :
    ThreadsMove s .unlockListened { s with listener := .receiving, cpuMutex := s.cpuMutex + 1 } []

/-- Every step is one of these. -/
theorem threadsStep_cases {s s' : Threads} {e : ThreadsEvent} {out : List Sent}
    (h : threadsStep s e = some (s', out)) : ThreadsMove s e s' out := by
  cases e with
  | recvDispatch package =>
    simp only [threadsStep] at h
    split at h
    · rename_i pid pc hmain
      obtain ⟨rfl, rfl⟩ := Prod.mk.inj (Option.some.inj h)
      exact .dispatched pid pc hmain
    · rename_i hmain
      obtain ⟨rfl, rfl⟩ := Prod.mk.inj (Option.some.inj h)
      exact .letIn hmain
    · exact absurd h (by simp)
  | lockDispatched =>
    simp only [threadsStep] at h
    split at h
    · rename_i pid pc hmain
      obtain ⟨hpos, hout⟩ := Option.ite_none_right_eq_some.mp h
      obtain ⟨rfl, rfl⟩ := Prod.mk.inj (Option.some.inj hout)
      exact .lockDispatched pid pc hmain hpos
    · exact absurd h (by simp)
  | noInstruction =>
    simp only [threadsStep] at h
    split at h
    · rename_i hmain
      obtain ⟨rfl, rfl⟩ := Prod.mk.inj (Option.some.inj h)
      exact .noInstruction hmain
    · exact absurd h (by simp)
  | execute instruction success =>
    simp only [threadsStep] at h
    split at h
    · rename_i hmain
      obtain ⟨hneg, hout⟩ := Option.ite_none_left_eq_some.mp h
      obtain ⟨rfl, rfl⟩ := Prod.mk.inj (Option.some.inj hout)
      exact .execute instruction success hmain (by omega)
    · exact absurd h (by simp)
  | answer package =>
    simp only [threadsStep] at h
    split at h
    · rename_i hmain
      obtain ⟨rfl, rfl⟩ := Prod.mk.inj (Option.some.inj h)
      exact .answer package hmain
    · exact absurd h (by simp)
  | handle =>
    simp only [threadsStep] at h
    split at h
    · rename_i shouldPreempt hmain
      obtain ⟨-, hout⟩ := Option.ite_none_right_eq_some.mp h
      obtain ⟨rfl, rfl⟩ := Prod.mk.inj (Option.some.inj hout)
      exact .handle shouldPreempt hmain
    · exact absurd h (by simp)
  | check =>
    simp only [threadsStep] at h
    split at h
    · rename_i shouldPreempt interrupted pid hmain hlast
      obtain ⟨rfl, rfl⟩ := Prod.mk.inj (Option.some.inj h)
      exact .check shouldPreempt interrupted pid hmain
    · exact absurd h (by simp)
  | unlock =>
    simp only [threadsStep] at h
    split at h
    · rename_i shouldPreempt interrupted hmain hnil
      obtain ⟨rfl, rfl⟩ := Prod.mk.inj (Option.some.inj h)
      exact .unlock shouldPreempt interrupted hmain
    · exact absurd h (by simp)
  | endCycle =>
    simp only [threadsStep] at h
    split at h
    · rename_i hmain
      obtain ⟨rfl, rfl⟩ := Prod.mk.inj (Option.some.inj h)
      exact .endTurn hmain
    · rename_i hmain
      obtain ⟨rfl, rfl⟩ := Prod.mk.inj (Option.some.inj h)
      exact .endCycle hmain
    · exact absurd h (by simp)
  | recvInterrupt pid =>
    simp only [threadsStep] at h
    split at h
    · rename_i hlistener
      obtain ⟨-, hout⟩ := Option.ite_none_right_eq_some.mp h
      obtain ⟨rfl, rfl⟩ := Prod.mk.inj (Option.some.inj hout)
      exact .recvInterrupt pid hlistener
    · exact absurd h (by simp)
  | listen =>
    simp only [threadsStep] at h
    split at h
    · rename_i hlistener
      obtain ⟨hpos, hout⟩ := Option.ite_none_right_eq_some.mp h
      obtain ⟨rfl, rfl⟩ := Prod.mk.inj (Option.some.inj hout)
      exact .listen hlistener hpos
    · exact absurd h (by simp)
  | handleListened =>
    simp only [threadsStep] at h
    split at h
    · rename_i hlistener
      obtain ⟨-, hout⟩ := Option.ite_none_right_eq_some.mp h
      obtain ⟨rfl, rfl⟩ := Prod.mk.inj (Option.some.inj hout)
      exact .handleListened hlistener
    · exact absurd h (by simp)
  | checkListened =>
    simp only [threadsStep] at h
    split at h
    · rename_i pid hlistener hlast
      obtain ⟨rfl, rfl⟩ := Prod.mk.inj (Option.some.inj h)
      exact .checkListened pid hlistener
    · exact absurd h (by simp)
  | unlockListened =>
    simp only [threadsStep] at h
    split at h
    · rename_i hlistener hnil
      obtain ⟨rfl, rfl⟩ := Prod.mk.inj (Option.some.inj h)
      exact .unlockListened hlistener
    · exact absurd h (by simp)

/-! ## 3. The semaphore -/

/-- What the main thread should hold of the semaphore. -/
def MainThread.held : MainThread → Nat
  | .receiving => 0
  | .locking _ _ => 0
  | _ => 1

/-- What the listener holds of the semaphore. -/
def ListenerThread.held : ListenerThread → Nat
  | .locked => 1
  | .handling => 1
  | _ => 0

/-- The units of the semaphore, free or taken. -/
def Threads.units (s : Threads) : Nat := s.cpuMutex + s.main.held + s.listener.held

/-- The units of the semaphore that a step adds. -/
def ThreadsEvent.adds : ThreadsEvent → Nat
  | .recvDispatch .confirmation => 1
  | _ => 0

theorem units_execute {s : Threads} (hmain : s.main = .fetching) (success : Bool) (instruction : Instruction) :
    (executeSyscall s success instruction).1.units = s.units := by
  cases instruction with
  | _ => simp [executeSyscall, Threads.units, MainThread.held, hmain]

/-- **The semaphore stays a lock until `recv_dispatch` receives something else than a DISPATCH**, which adds
a unit. -/
theorem units_step {s s' : Threads} {e : ThreadsEvent} {out : List Sent} (h : threadsStep s e = some (s', out)) :
    s'.units = s.units + e.adds := by
  cases threadsStep_cases h with
  | execute instruction success hmain hpid => exact units_execute hmain success instruction
  | lockDispatched pid pc hmain hpos =>
    simp only [Threads.units, ThreadsEvent.adds, hmain, MainThread.held]
    omega
  | endTurn hmain =>
    simp only [Threads.units, ThreadsEvent.adds, hmain, MainThread.held]
    omega
  | noInstruction hmain =>
    simp only [Threads.units, ThreadsEvent.adds, hmain, MainThread.held]
    omega
  | letIn hmain =>
    simp only [Threads.units, ThreadsEvent.adds, hmain, MainThread.held]
    omega
  | listen hlistener hpos =>
    simp only [Threads.units, ThreadsEvent.adds, hlistener, ListenerThread.held]
    omega
  | unlockListened hlistener =>
    simp only [Threads.units, ThreadsEvent.adds, hlistener, ListenerThread.held]
    omega
  | recvInterrupt pid hlistener => simp [Threads.units, ThreadsEvent.adds, hlistener, ListenerThread.held]
  | handleListened hlistener => simp [Threads.units, ThreadsEvent.adds, hlistener, ListenerThread.held]
  | checkListened pid hlistener => rfl
  | dispatched pid pc hmain => simp [Threads.units, ThreadsEvent.adds, hmain, MainThread.held]
  | answer package hmain => simp [Threads.units, ThreadsEvent.adds, hmain, MainThread.held]
  | handle shouldPreempt hmain => simp [Threads.units, ThreadsEvent.adds, hmain, MainThread.held]
  | check shouldPreempt interrupted pid hmain =>
    simp [Threads.units, ThreadsEvent.adds, hmain, MainThread.held]
  | unlock shouldPreempt interrupted hmain =>
    simp [Threads.units, ThreadsEvent.adds, hmain, MainThread.held]
  | endCycle hmain => simp [Threads.units, ThreadsEvent.adds, hmain, MainThread.held]

end Tpso.Cpu
