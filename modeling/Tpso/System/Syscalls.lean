/-
# No syscall is lost to a preemption

A CPU sends its syscalls on the dispatch socket and its answers to INTERRUPTs on the interrupt socket.  Two
threads of the kernel read them, and nothing orders the one against the other.  So the short-term scheduler
may learn that the CPU has stopped a process, and move its PCB from EXEC to READY, while a syscall of that
process waits for its handler, which will look for the PCB in EXEC.

The kernel runs here with one CPU and with the messages between them.  UNDER WAY for a process is everything
that can still become, or already is, a syscall that gives up the CPU: a DISPATCH the CPU has not received,
the CPU itself while it may execute the process, an IO, DUMP_MEMORY or EXIT package in the socket, and its
handler before it has run.  The kernel is right as long as EXEC has a PCB for everything that is under way
(`Covered`).  Every step keeps that but one: a preemption that takes a PCB from EXEC that something under way
still needs (`covered_step_iff`).
-/
import Tpso.Cpu.Threads
import Tpso.Kernel.Packages
import Tpso.System.Devices

namespace Tpso.Syscalls

open Tpso.Lib Tpso.Kernel
open Tpso.Cpu (Threads ThreadsEvent MainThread FromKernel Sent threadsStep)

/-! ## 1. The kernel, a CPU and the messages between them -/

/-- The configuration of a kernel with one CPU. -/
structure Config where
  kernel : Kernel.Config
  oneCpu : kernel.cpuQuantity = 1

/-- The answer to an INTERRUPT. -/
structure CpuContext where
  pid : Int
  pc : Int
  /-- `interrupted_same_pid == 0`. -/
  same : Bool

/-- The kernel, the CPU, and what is in the two sockets, in both directions. -/
structure State where
  kernel : Kernel.State
  cpu : Threads
  /-- Syscalls on the way to the kernel, by the handler they will start. -/
  syscalls : List Thread
  contexts : List CpuContext
  inbox : List FromKernel
  interrupts : List Nat

/-- What happens: a message from an IO device or a section of the kernel, `handle_dispatch_client` taking the
next syscall, or a step of the CPU. -/
inductive Event where
  | kernel (e : Kernel.Event)
  | serve
  | cpu (e : ThreadsEvent)

/-- The handler that a syscall starts. -/
def handlerOf : Sent → Option Thread
  | .io pid pc device time => some (.io pid.toNat pc time device)
  | .initProc pid pc _ size => some (.initProc pid.toNat pc size)
  | .dumpMemory pid pc => some (.dump pid.toNat pc)
  | .exit pid _ => some (.exit pid.toNat)
  | .context _ _ _ => none

def contextOf : Sent → Option CpuContext
  | .context pid pc other => some ⟨pid, pc, !other⟩
  | _ => none

/-- What a CPU has sent goes into the sockets. -/
def post (s : State) (out : List Sent) : State :=
  { s with
    syscalls := s.syscalls ++ out.filterMap handlerOf
    contexts := s.contexts ++ out.filterMap contextOf }

/-- A step of the CPU that receives takes its message from the socket. -/
def receive (s : State) : ThreadsEvent → Option State
  | .recvDispatch package | .answer package =>
    if s.inbox.head? = some package then some { s with inbox := s.inbox.tail } else none
  | .recvInterrupt pid =>
    if s.interrupts.head?.map Int.ofNat = some pid then some { s with interrupts := s.interrupts.tail }
    else none
  | _ => some s

/-- A package to the CPU goes into its socket. -/
def deliver (s : State) : Package → State
  | .dispatch _ pid pc => { s with inbox := s.inbox ++ [.dispatch pid pc] }
  | .confirmation _ => { s with inbox := s.inbox ++ [.confirmation] }
  | .interrupt _ pid => { s with interrupts := s.interrupts ++ [pid] }
  | .ioOperation _ _ _ => s

/-- The section that waits for a CPU_CONTEXT takes it from the socket. -/
def receiveContext (s : State) (t : Thread) (ch : Choice) : Option State :=
  match t, s.contexts with
  | .shortWait _ _ _, [] => none
  | .shortWait _ _ _, c :: rest =>
    if ch.answer = c.same ∧ ch.pc = c.pc then some { s with contexts := rest } else none
  | _, _ => some s

/-- Whether `handle_dispatch_client` is inside a handler. -/
def clientBusy (k : Kernel.State) : Bool :=
  k.threads.any fun t => Devices.isSyscall t || match t with
    | .dumpWait _ => true
    | .pendingIo _ _ (.ioSyscall _) => true
    | _ => false

/-- One step. -/
def step (cfg : Config) (s : State) : Event → Option State
  | .kernel (.arrive handler) =>
    if Devices.isSyscall handler then none
    else (Kernel.step cfg.kernel s.kernel (.arrive handler)).map fun k => { s with kernel := k }
  | .kernel (.run i ch) =>
    match s.kernel.threads[i]? with
    | none => none
    | some t =>
      (receiveContext s t ch).bind fun s1 =>
        (Kernel.step cfg.kernel s.kernel (.run i ch)).map fun k =>
          (newPackages s.kernel k).foldl deliver { s1 with kernel := k }
  | .serve =>
    match s.syscalls with
    | [] => none
    | handler :: rest =>
      if clientBusy s.kernel then none
      else (Kernel.step cfg.kernel s.kernel (.arrive handler)).map fun k =>
        { s with kernel := k, syscalls := rest }
  | .cpu e =>
    (receive s e).bind fun s1 => (threadsStep s.cpu e).map fun x => post { s1 with cpu := x.1 } x.2

/-- The CPU waits, and nothing is in the sockets. -/
def State.start (cfg : Config) : State := ⟨.start cfg.kernel, .start, [], [], [], []⟩

/-- The kernel with one CPU, as a transition system. -/
def system (cfg : Config) : Lts State Event := Lts.ofStep (State.start cfg) (step cfg)

/-! ## 2. What is asked of the kernel -/

/-- The syscalls the CPU sends in a step. -/
def sentIn (x : Transition State Event) : List Thread :=
  match x.label with
  | .cpu e => ((threadsStep x.src.cpu e).map fun r => r.2.filterMap handlerOf).getD []
  | _ => []

/-- The syscall whose handler runs in a step. -/
def handledIn (x : Transition State Event) : List Thread :=
  match x.label with
  | .kernel (.run i _) => (x.src.kernel.threads[i]?).toList.filter Devices.isSyscall
  | _ => []

/-- The syscalls that wait for their handler, those whose handler has started first. -/
def waiting (s : State) : List Thread := s.kernel.threads.filter Devices.isSyscall ++ s.syscalls

/-- **Every syscall is applied once**: the syscalls the CPU has sent are, in their order, those whose
handlers have run and those that still wait for it; each handler of an IO, DUMP_MEMORY or EXIT moves its PCB
from EXEC; and `exit_routine` was never entered with NULL. -/
structure AppliedOnce (tr : List (Transition State Event)) (s : State) : Prop where
  once : tr.flatMap sentIn = tr.flatMap handledIn ++ waiting s
  moved : ∀ x ∈ tr, ∀ t ∈ handledIn x, ∀ pid ∈ t.releases, Applies x.src.kernel t pid x.dst.kernel
  notCrashed : s.kernel.crashed = false

/-! ## 3. What is under way -/

/-- The answers to INIT_PROC that the CPU has not received. -/
def answersOwed (s : State) : Nat :=
  s.inbox.count .confirmation + s.syscalls.countP Thread.isInitProc + s.kernel.threads.countP Thread.isInitProc

/-- Whether a CPU with its main thread at a place, and with a pid, may execute instructions of a process
before it receives a DISPATCH.  In `recv_dispatch` it may only when an answer to INIT_PROC lets it into the
cycle with the pid it has kept. -/
def mayExecute (owed : Bool) (main : MainThread) (current : Int) (pid : Nat) : Bool :=
  match main with
  | .receiving => owed && decide (current = pid)
  | .locking p _ => decide (p = pid)
  | .executed true | .handling true _ | .handling _ true | .handled true => false
  | _ => decide (current = pid)

/-- Whether a package of the dispatch socket is a DISPATCH of the process. -/
def dispatches (pid : Nat) : FromKernel → Bool
  | .dispatch p _ => decide (p = pid)
  | .confirmation => false

/-- The handlers that give up the CPU of a process. -/
def releasing (pid : Nat) (handlers : List Thread) : Nat :=
  handlers.countP fun t => t.releases = some pid

/-- How many syscalls that give up the CPU are, or may still become, under way for a process. -/
def underWay (s : State) (pid : Nat) : Nat :=
  s.inbox.countP (dispatches pid) + (if mayExecute (decide (0 < answersOwed s)) s.cpu.main s.cpu.pid pid then 1 else 0) +
    releasing pid s.syscalls + releasing pid s.kernel.threads

/-- EXEC has a PCB for everything that is under way. -/
def Covered (s : State) : Prop := ∀ pid, underWay s pid ≤ (s.kernel.queue .exec).count pid

/-- A step takes no PCB from EXEC for a preemption while something under way needs it: when the CPU has
answered that it stopped the process, and that process is still in EXEC, fewer things are under way for it
than EXEC has PCBs of it. -/
def undisturbed (s : State) : Event → Bool
  | .kernel (.run i ch) =>
    (s.kernel.threads[i]?.bind (preempted s.kernel ch)).all fun pid =>
      decide (underWay s pid < (s.kernel.queue .exec).count pid)
  | _ => true

/-! ## 4. The CPU -/

section Cpu

variable {c c' : Threads} {out : List Sent} {o o' : Bool} {pid : Nat}

/-- The package of the dispatch socket that a step of the CPU receives. -/
def received : ThreadsEvent → List FromKernel
  | .recvDispatch package => [package]
  | .answer package => [package]
  | _ => []

theorem mayExecute_mono (h : o' = true → o = true) (main : MainThread) (current : Int) (pid : Nat) :
    mayExecute o' main current pid = true → mayExecute o main current pid = true := by
  cases main with
  | receiving =>
    intro hmay
    simp only [mayExecute, Bool.and_eq_true] at hmay ⊢
    exact ⟨h hmay.1, hmay.2⟩
  | executed shouldPreempt => cases shouldPreempt <;> exact id
  | handling shouldPreempt interrupted => cases shouldPreempt <;> cases interrupted <;> exact id
  | handled turnEnds => cases turnEnds <;> exact id
  | _ => exact id

/-- An instruction that gives up the CPU makes one syscall of what was execution. -/
theorem mayExecute_execute (hpid : 0 ≤ c.pid) (hmain : c.main = .fetching)
    (success : Bool) (instruction : Cpu.Instruction) :
    (if mayExecute o' (Cpu.executeSyscall c success instruction).1.main
        (Cpu.executeSyscall c success instruction).1.pid pid then 1 else 0) +
        releasing pid ((Cpu.executeSyscall c success instruction).2.filterMap handlerOf) ≤
      if mayExecute o c.main c.pid pid then 1 else 0 := by
  have hto : c.pid.toNat = pid ↔ c.pid = (pid : Int) := by omega
  by_cases hcur : c.pid = (pid : Int)
  · cases instruction with
    | _ => simp [Cpu.executeSyscall, mayExecute, hmain, releasing, handlerOf, Thread.releases, hcur]
  · cases instruction with
    | _ => simp [Cpu.executeSyscall, mayExecute, hmain, releasing, handlerOf, Thread.releases, hto, hcur]

/-- **A step of the CPU makes no more of what is under way.** -/
theorem mayExecute_step {e : ThreadsEvent} (h : threadsStep c e = some (c', out))
    (ho : out.filterMap handlerOf = [] → o' = true → o = true)
    (hconf : e = .recvDispatch .confirmation → o = true) :
    (if mayExecute o' c'.main c'.pid pid then 1 else 0) + releasing pid (out.filterMap handlerOf) ≤
      (if mayExecute o c.main c.pid pid then 1 else 0) + (received e).countP (dispatches pid) := by
  -- a step of the listener leaves the main thread and its pid alone, and sends no syscall
  have hsame : c'.main = c.main → c'.pid = c.pid → out.filterMap handlerOf = [] →
      (if mayExecute o' c'.main c'.pid pid then 1 else 0) + releasing pid (out.filterMap handlerOf) ≤
        (if mayExecute o c.main c.pid pid then 1 else 0) + (received e).countP (dispatches pid) := by
    intro hm hp hnil
    rw [hm, hp, hnil]
    have hmono := mayExecute_mono (ho hnil) c.main c.pid pid
    simp only [releasing, List.countP_nil, Nat.add_zero]
    split_ifs <;> simp_all
  cases Cpu.threadsStep_cases h with
  | dispatched p pc hmain => simp [mayExecute, received, dispatches, releasing, List.countP_cons]
  | letIn hmain => simp [mayExecute, received, dispatches, releasing, hmain, hconf rfl]
  | lockDispatched p pc hmain hpos => simp [mayExecute, received, releasing, hmain]
  | noInstruction hmain =>
    by_cases hp : c.pid = pid
    · cases o' <;> simp [mayExecute, received, releasing, hmain, hp]
    · simp [mayExecute, received, releasing, hmain, hp]
  | execute instruction success hmain hpid => exact mayExecute_execute hpid hmain success instruction
  | answer package hmain =>
    cases package with
    | confirmation => simp [mayExecute, received, releasing, hmain, dispatches]
    | dispatch p pc => simp [mayExecute, received, releasing]
  | handle shouldPreempt hmain => cases shouldPreempt <;> simp [mayExecute, received, releasing, hmain]
  | check shouldPreempt interrupted p hmain =>
    have hnil : [Cpu.contextFor c p].filterMap handlerOf = [] := rfl
    cases shouldPreempt <;> simp [mayExecute, received, releasing, hnil]
  | unlock shouldPreempt interrupted hmain =>
    cases shouldPreempt <;> cases interrupted <;> simp [mayExecute, received, releasing, hmain]
  | endTurn hmain =>
    have hne : (-1 : Int) ≠ pid := by omega
    simp [mayExecute, received, releasing, hne]
  | endCycle hmain => simp [mayExecute, received, releasing, hmain]
  | recvInterrupt p hlistener => exact hsame rfl rfl rfl
  | listen hlistener hpos => exact hsame rfl rfl rfl
  | handleListened hlistener => exact hsame rfl rfl rfl
  | checkListened p hlistener => exact hsame rfl rfl rfl
  | unlockListened hlistener => exact hsame rfl rfl rfl

end Cpu

/-! ## 5. Sections of the kernel -/

section Sections

variable {cfg : Kernel.Config} {k : Kernel.State} {ch : Choice}

/-- No section starts a handler. -/
theorem nextSection_not_handler (t : Thread) : ∀ u ∈ (nextSection cfg k ch t).2, u.isHandler = false := by
  cases t with
  | newDevice socket deviceName =>
    simp only [nextSection, processNewDevice]
    split
    · simp
    · simp [Thread.isHandler]
  | ioCompletion socket deviceName pid => exact Devices.ioCompletion_connections.2.1
  | pendingIo deviceName socket after =>
    simp only [nextSection]
    unfold AfterPending.threads
    split <;> simp [Thread.isHandler]
  | _ => exact (Devices.nextSection_quiet rfl).threads

/-- A request queue is never taken away. -/
theorem nextSection_ioRequests (t : Thread) {deviceName : String} (h : (k.ioRequests deviceName).isSome = true) :
    ((nextSection cfg k ch t).1.ioRequests deviceName).isSome = true := by
  have hset : ∀ (name : String) (q : List IoRequest),
      (Function.update k.ioRequests name (some q) deviceName).isSome = true := by
    intro name q
    by_cases heq : deviceName = name
    · simp [heq]
    · simpa [Function.update_of_ne heq] using h
  have hsilent : isLoud t = false → ((nextSection cfg k ch t).1.ioRequests deviceName).isSome = true := by
    intro hl
    rwa [(nextSection_silent hl).ioRequests]
  have hexit : ∀ pid, (exitProcessSyscall k pid).1.ioRequests = k.ioRequests := by
    intro pid
    unfold exitProcessSyscall
    split
    · rfl
    · rfl
  have hreturn : ∀ (k' : Kernel.State) caller, k'.ioRequests = k.ioRequests →
      ((shortReturn k' caller).1.ioRequests deviceName).isSome = true := by
    intro k' caller heq
    rwa [(silent_shortReturn k' caller).ioRequests, heq]
  cases t with
  | initProc callerPid callerPc size =>
    simp only [nextSection, handleInitProcSyscall]
    split
    · split
      · exact h
      · exact h
    · exact h
  | io pid pc sleepTime name =>
    simp only [nextSection, handleIoProcessSyscall]
    split
    · rwa [hexit]
    · split
      · exact h
      · split
        · exact hset _ _
        · exact h
  | exit pid =>
    simp only [nextSection]
    rwa [hexit]
  | newDevice socket name =>
    simp only [nextSection, processNewDevice]
    split
    · exact hset _ _
    · exact h
  | pendingIo name socket after =>
    simp only [nextSection]
    rcases Devices.processPendingIo_cases name socket ch.answer with heq | ⟨c, request, rest, -, -, -, heq⟩
    · rwa [heq]
    · rw [heq]
      exact hset _ _
  | shortSelected caller cpu pid =>
    simp only [nextSection, shortDecide]
    split
    · exact hreturn _ caller rfl
    · split
      · exact h
      · exact hreturn _ caller rfl
  | shortWait caller cpu pid => exact hreturn _ caller (silent_preempt cpu ch.answer ch.pc).ioRequests
  | _ => exact hsilent rfl

/-- **Every section keeps a request queue for every connection.** -/
theorem queued_nextSection (hq : Queued k) (t : Thread) : Queued (nextSection cfg k ch t).1 := by
  -- the names of the connections, where those are only marked
  have hmarked : ∀ (k' : Kernel.State) (socket : Nat) (mark : Option Nat), k'.ioConnections = k.ioConnections →
      ∀ c ∈ (setIoCurrent socket mark k').ioConnections, ∃ c' ∈ k.ioConnections, c'.deviceName = c.deviceName := by
    intro k' socket mark hk c hc
    simp only [setIoCurrent, hk, List.mem_map] at hc
    obtain ⟨c', hc', rfl⟩ := hc
    refine ⟨c', hc', ?_⟩
    split
    · rfl
    · rfl
  have hnames : (∀ c ∈ (nextSection cfg k ch t).1.ioConnections, ∃ c' ∈ k.ioConnections,
      c'.deviceName = c.deviceName) → Queued (nextSection cfg k ch t).1 := by
    intro h c hc
    obtain ⟨c', hc', hname⟩ := h c hc
    rw [← hname]
    exact nextSection_ioRequests t (hq c' hc')
  cases t with
  | newDevice socket deviceName =>
    intro c hc
    have hconn : c.deviceName = deviceName ∨ c ∈ k.ioConnections := by
      have hcreate : ∀ c ∈ (createIoConnection socket deviceName ch.position k).ioConnections,
          c.deviceName = deviceName ∨ c ∈ k.ioConnections := by
        intro c hc
        simp only [createIoConnection, List.mem_append, List.mem_cons] at hc
        rcases hc with hc | rfl | hc
        · exact Or.inr (List.mem_of_mem_filter (List.mem_of_mem_take hc))
        · exact Or.inl rfl
        · exact Or.inr (List.mem_of_mem_filter (List.mem_of_mem_drop hc))
      simp only [nextSection, processNewDevice] at hc
      split at hc
      · exact hcreate c hc
      · exact hcreate c hc
    rcases hconn with hname | hold
    · simp only [nextSection, processNewDevice, hname]
      split
      · simp [setIoRequests]
      · rename_i requests hsome
        simpa using Option.isSome_iff_exists.mpr ⟨requests, hsome⟩
    · exact nextSection_ioRequests _ (hq c hold)
  | ioCompletion socket deviceName pid =>
    apply hnames
    simp only [nextSection, ioCompletion]
    split
    · exact fun c hc => ⟨c, hc, rfl⟩
    · split
      · exact hmarked _ socket none rfl
      · split
        · exact hmarked _ socket none rfl
        · exact hmarked _ socket none rfl
  | pendingIo deviceName socket after =>
    apply hnames
    simp only [nextSection]
    rcases Devices.processPendingIo_cases deviceName socket ch.answer with
      heq | ⟨c, request, rest, -, -, -, heq⟩
    · rw [heq]
      exact fun c hc => ⟨c, hc, rfl⟩
    · rw [heq]
      exact hmarked _ c.socket _ rfl
  | _ => exact hnames fun c hc => ⟨c, (Devices.nextSection_quiet rfl).connections c hc, rfl⟩

end Sections

section Steps

variable {cfg : Config} {s s' : State}

/-- What a package puts into the dispatch socket. -/
def toCpu : Package → Option FromKernel
  | .dispatch _ pid pc => some (.dispatch pid pc)
  | .confirmation _ => some .confirmation
  | _ => none

/-- Packages go to the end of the dispatch socket or elsewhere. -/
theorem deliver_eq (ps : List Package) (s : State) :
    (ps.foldl deliver s).kernel = s.kernel ∧ (ps.foldl deliver s).cpu = s.cpu ∧
      (ps.foldl deliver s).syscalls = s.syscalls ∧
        (ps.foldl deliver s).inbox = s.inbox ++ ps.filterMap toCpu := by
  induction ps generalizing s with
  | nil => simp
  | cons p ps ih =>
    obtain ⟨hk, hc, hs, hi⟩ := ih (deliver s p)
    rw [List.foldl_cons]
    cases p with
    | _ => exact ⟨hk, hc, hs, hi.trans (by simp [deliver, toCpu, List.filterMap_cons])⟩

/-- Taking a CPU_CONTEXT changes nothing else. -/
theorem receiveContext_eq {t : Thread} {ch : Choice} {s1 : State} (h : receiveContext s t ch = some s1) :
    s1.cpu = s.cpu ∧ s1.syscalls = s.syscalls ∧ s1.inbox = s.inbox := by
  unfold receiveContext at h
  split at h
  · exact absurd h (by simp)
  · split at h
    · obtain rfl := Option.some.inj h
      exact ⟨rfl, rfl, rfl⟩
    · exact absurd h (by simp)
  · obtain rfl := Option.some.inj h
    exact ⟨rfl, rfl, rfl⟩

/-- **What a section of the kernel is**, with what it puts into the dispatch socket. -/
theorem step_section {i : Nat} {ch : Choice} (h : step cfg s (.kernel (.run i ch)) = some s') :
    ∃ t others, s.kernel.threads[i]? = some t ∧ s.kernel.threads.Perm (t :: others) ∧
      s.kernel.crashed = false ∧
      s'.kernel = { (nextSection cfg.kernel s.kernel ch t).1 with
        threads := others ++ (nextSection cfg.kernel s.kernel ch t).2 } ∧
      s'.cpu = s.cpu ∧ s'.syscalls = s.syscalls ∧
      s'.inbox = s.inbox ++
        (newPackages s.kernel (nextSection cfg.kernel s.kernel ch t).1).filterMap toCpu := by
  simp only [step] at h
  split at h
  · exact absurd h (by simp)
  · rename_i t ht
    obtain ⟨s1, hreceive, h⟩ := Option.bind_eq_some_iff.mp h
    obtain ⟨k, hk, rfl⟩ := Option.map_eq_some_iff.mp h
    obtain ⟨t', others, ht', hperm, -, hcrash, hkeq⟩ := step_run hk
    obtain rfl : t = t' := Option.some.inj (ht.symm.trans ht')
    obtain ⟨hcpu, hsyscalls, hinbox⟩ := receiveContext_eq hreceive
    obtain ⟨hk', hcpu', hsyscalls', hinbox'⟩ := deliver_eq (newPackages s.kernel k) { s1 with kernel := k }
    refine ⟨t, others, ht, hperm, hcrash, hk'.trans hkeq, hcpu'.trans hcpu, hsyscalls'.trans hsyscalls, ?_⟩
    rw [hinbox', hkeq]
    exact congrArg (· ++ _) hinbox

/-! ## 6. Steps -/

/-- **What a step is.** -/
theorem step_cases {e : Event} (h : step cfg s e = some s') :
    (∃ i ch, e = .kernel (.run i ch)) ∨
    (∃ handler, e = .kernel (.arrive handler) ∧ Devices.isSyscall handler = false ∧
      s' = { s with kernel := { s.kernel with threads := s.kernel.threads ++ [handler] } }) ∨
    (∃ handler rest, e = .serve ∧ s.syscalls = handler :: rest ∧ clientBusy s.kernel = false ∧
      s' = { s with
        kernel := { s.kernel with threads := s.kernel.threads ++ [handler] }, syscalls := rest }) ∨
    ∃ e' s1 c' out, e = .cpu e' ∧ receive s e' = some s1 ∧ threadsStep s.cpu e' = some (c', out) ∧
      s' = post { s1 with cpu := c' } out := by
  cases e with
  | kernel e =>
    cases e with
    | run i ch => exact Or.inl ⟨i, ch, rfl⟩
    | arrive handler =>
      simp only [step] at h
      split at h
      · exact absurd h (by simp)
      · rename_i hsyscall
        obtain ⟨k, hk, rfl⟩ := Option.map_eq_some_iff.mp h
        obtain ⟨-, rfl⟩ := step_arrive hk
        exact Or.inr (Or.inl ⟨handler, rfl, by simpa using hsyscall, rfl⟩)
  | serve =>
    simp only [step] at h
    split at h
    · exact absurd h (by simp)
    · rename_i handler rest hsyscalls
      split at h
      · exact absurd h (by simp)
      · rename_i hbusy
        obtain ⟨k, hk, rfl⟩ := Option.map_eq_some_iff.mp h
        obtain ⟨-, rfl⟩ := step_arrive hk
        exact Or.inr (Or.inr (Or.inl ⟨handler, rest, rfl, hsyscalls, by simpa using hbusy, rfl⟩))
  | cpu e' =>
    simp only [step] at h
    obtain ⟨s1, hreceive, h⟩ := Option.bind_eq_some_iff.mp h
    obtain ⟨⟨c', out⟩, hst, rfl⟩ := Option.map_eq_some_iff.mp h
    exact Or.inr (Or.inr (Or.inr ⟨e', s1, c', out, rfl, hreceive, hst, rfl⟩))

/-- What is received leaves the socket, and nothing else changes. -/
theorem receive_eq {e : ThreadsEvent} {s1 : State} (h : receive s e = some s1) :
    s1.kernel = s.kernel ∧ s1.syscalls = s.syscalls ∧ s.inbox = received e ++ s1.inbox := by
  have hpop : ∀ package, (if s.inbox.head? = some package then some { s with inbox := s.inbox.tail } else none)
      = some s1 → s1.kernel = s.kernel ∧ s1.syscalls = s.syscalls ∧ s.inbox = [package] ++ s1.inbox := by
    intro package hif
    split at hif
    · rename_i hhead
      obtain rfl := Option.some.inj hif
      refine ⟨rfl, rfl, ?_⟩
      obtain ⟨rest, hrest⟩ := List.head?_eq_some_iff.mp hhead
      simp [hrest]
    · exact absurd hif (by simp)
  cases e with
  | recvDispatch package => exact hpop package h
  | answer package => exact hpop package h
  | recvInterrupt pid =>
    simp only [receive] at h
    split at h
    · obtain rfl := Option.some.inj h
      exact ⟨rfl, rfl, rfl⟩
    · exact absurd h (by simp)
  | _ =>
    obtain rfl := Option.some.inj h
    exact ⟨rfl, rfl, rfl⟩

/-- **A step of the CPU keeps everything under way covered.** -/
theorem covered_cpu (hs : Covered s) {e : ThreadsEvent} {s1 : State} {c' : Threads} {out : List Sent}
    (hreceive : receive s e = some s1) (hst : threadsStep s.cpu e = some (c', out)) :
    Covered (post { s1 with cpu := c' } out) := by
  obtain ⟨hkernel, hsyscalls, hinbox⟩ := receive_eq hreceive
  intro pid
  have howed : out.filterMap handlerOf = [] →
      decide (0 < answersOwed (post { s1 with cpu := c' } out)) = true →
      decide (0 < answersOwed s) = true := by
    intro hnil
    simp only [decide_eq_true_eq, answersOwed, post, hkernel, hsyscalls, hinbox, hnil, List.append_nil,
      List.count_append]
    omega
  have hconf : e = .recvDispatch .confirmation → decide (0 < answersOwed s) = true := by
    rintro rfl
    simp only [decide_eq_true_eq, answersOwed, hinbox, received, List.count_append, List.count_singleton_self]
    omega
  have hle := @mayExecute_step s.cpu c' out _ _ pid e hst howed hconf
  have hold := hs pid
  simp only [underWay, hinbox, List.countP_append] at hold
  simp only [underWay, post, hkernel, hsyscalls, releasing, List.countP_append] at hle ⊢
  simp only [releasing] at hold
  omega

/-- No thread that is not a handler is one of a syscall. -/
theorem releases_of_not_handler {u : Thread} (h : u.isHandler = false) :
    u.releases = none ∧ u.isInitProc = false ∧ Devices.isSyscall u = false := by
  cases u <;> simp_all [Thread.isHandler, Thread.releases, Thread.isInitProc, Devices.isSyscall]

/-- **What a section changes of what is under way**: its own thread is handled, and what it sends is on its
way.  The execution on the CPU changes only by the answers owed. -/
theorem underWay_section {t : Thread} {others new : List Thread} {delivered : List FromKernel}
    (hperm : s.kernel.threads.Perm (t :: others)) (hnew : ∀ u ∈ new, u.isHandler = false)
    (hthreads : s'.kernel.threads = others ++ new) (hcpu : s'.cpu = s.cpu)
    (hsyscalls : s'.syscalls = s.syscalls) (hinbox : s'.inbox = s.inbox ++ delivered) :
    (answersOwed s' + (if t.isInitProc then 1 else 0) = answersOwed s + delivered.count .confirmation) ∧
    ∀ pid, underWay s' pid + (if t.releases = some pid then 1 else 0) +
        (if mayExecute (decide (0 < answersOwed s)) s.cpu.main s.cpu.pid pid then 1 else 0) =
      underWay s pid + delivered.countP (dispatches pid) +
        (if mayExecute (decide (0 < answersOwed s')) s.cpu.main s.cpu.pid pid then 1 else 0) := by
  constructor
  · have hzero : new.countP Thread.isInitProc = 0 := by
      rw [List.countP_eq_zero]
      intro u hu
      simp [(releases_of_not_handler (hnew u hu)).2.1]
    simp only [answersOwed, hinbox, hsyscalls, hthreads, List.count_append, List.countP_append, hzero,
      hperm.countP_eq, List.countP_cons]
    omega
  · intro pid
    have hzero : new.countP (fun t => decide (t.releases = some pid)) = 0 := by
      rw [List.countP_eq_zero]
      intro u hu
      simp [(releases_of_not_handler (hnew u hu)).1]
    simp only [underWay, releasing, hinbox, hsyscalls, hcpu, hthreads, List.countP_append, hzero,
      hperm.countP_eq, List.countP_cons, decide_eq_true_eq]
    omega

/-- The thread that a section runs is under way until it has run. -/
theorem one_le_underWay {t : Thread} {others : List Thread} {pid : Nat}
    (hperm : s.kernel.threads.Perm (t :: others)) (ht : t.releases = some pid) : 1 ≤ underWay s pid := by
  simp only [underWay, releasing, hperm.countP_eq, List.countP_cons, ht, decide_true, if_true]
  omega

/-- Fewer answers owed, no more execution. -/
theorem mayExecute_le {owed owed' : Nat} (h : owed' ≤ owed) (main : MainThread) (current : Int) (pid : Nat) :
    (if mayExecute (decide (0 < owed')) main current pid then 1 else 0) ≤
      if mayExecute (decide (0 < owed)) main current pid then 1 else 0 := by
  have hmono := @mayExecute_mono (decide (0 < owed)) (decide (0 < owed'))
    (by simp only [decide_eq_true_eq]; omega) main current pid
  split_ifs with h1 h2
  · exact Nat.le_refl 1
  · exact absurd (hmono h1) h2
  · exact Nat.zero_le 1
  · exact Nat.le_refl 0

/-- The number of PCBs of a process when another, or one of its own, joins the list. -/
theorem count_append_singleton (l : List Nat) (p q : Nat) :
    (l ++ [p]).count q = l.count q + if p = q then 1 else 0 := by
  rw [List.count_append, List.count_singleton]
  simp

/-- What a section that sends no DISPATCH puts into the dispatch socket. -/
theorem delivered_of_no_dispatch {t : Thread} {ps : List Package} (h : ps = [] ∨ ∃ p, ps = [p] ∧
    (∀ pid, p.dispatchOf pid = none) ∧ ∀ pid, p = .confirmation pid → t.isInitProc = true) :
    (∀ pid, (ps.filterMap toCpu).countP (dispatches pid) = 0) ∧
      (ps.filterMap toCpu).count .confirmation ≤ if t.isInitProc then 1 else 0 := by
  rcases h with rfl | ⟨p, rfl, hdispatch, hconf⟩
  · simp
  · cases p with
    | dispatch cpu q pc => exact absurd (hdispatch q) (by simp [Package.dispatchOf])
    | confirmation q => simp [toCpu, dispatches, hconf q rfl]
    | interrupt cpu q => simp [toCpu, List.filterMap_cons]
    | ioOperation socket q time => simp [toCpu, List.filterMap_cons]

/-- **A section keeps everything under way covered exactly when it disturbs nothing.** -/
theorem covered_run (hs : Covered s) (hq : Queued s.kernel) {i : Nat} {ch : Choice}
    (h : step cfg s (.kernel (.run i ch)) = some s') :
    Covered s' ↔ undisturbed s (.kernel (.run i ch)) = true := by
  obtain ⟨t, others, ht, hperm, -, hkernel, hcpu, hsyscalls, hinbox⟩ := step_section h
  have hthreads : s'.kernel.threads = others ++ (nextSection cfg.kernel s.kernel ch t).2 := by rw [hkernel]
  obtain ⟨howed, hway⟩ := underWay_section hperm (nextSection_not_handler t) hthreads hcpu hsyscalls hinbox
  have hcovered : Covered s' ↔
      ∀ pid, underWay s' pid ≤ ((nextSection cfg.kernel s.kernel ch t).1.queue .exec).count pid := by
    rw [Covered, hkernel]
  have hdisturbs : undisturbed s (.kernel (.run i ch)) = (preempted s.kernel ch t).all fun pid =>
      decide (underWay s pid < (s.kernel.queue .exec).count pid) := by
    simp [undisturbed, ht]
  rw [hcovered, hdisturbs]
  cases @nextSection_exec cfg.kernel s.kernel ch hq t with
  | keeps hrel hnone hexec hps =>
    rw [hnone]
    refine iff_of_true ?_ rfl
    intro pid
    obtain ⟨hzero, hconf⟩ := delivered_of_no_dispatch hps
    have hmay := mayExecute_le (by omega : answersOwed s' ≤ answersOwed s) s.cpu.main s.cpu.pid pid
    have hpid := hway pid
    rw [hzero pid] at hpid
    have hold := hs pid
    rw [hexec.count_eq]
    omega
  | @moves pid₀ hrel hnone happlies hps =>
    rw [hnone]
    refine iff_of_true ?_ rfl
    intro pid
    rw [hps] at howed hway
    simp only [List.filterMap_nil, List.count_nil, Nat.add_zero] at howed
    have hmay := mayExecute_le (by omega : answersOwed s' ≤ answersOwed s) s.cpu.main s.cpu.pid pid
    have hpid := hway pid
    simp only [hrel, List.filterMap_nil, List.countP_nil, Nat.add_zero, Option.some.injEq] at hpid
    have hold := hs pid
    rw [happlies.taken, List.count_erase]
    by_cases heq : pid₀ = pid
    · simp only [heq, if_true, BEq.rfl] at hpid ⊢
      omega
    · simp only [heq, if_false, beq_iff_eq] at hpid ⊢
      omega
  | @lost pid₀ hrel hmissing =>
    have hone := one_le_underWay hperm hrel
    have hold := hs pid₀
    rw [List.count_eq_zero_of_not_mem hmissing] at hold
    omega
  | @dispatches cpu pid₀ pc hrel hinit hps hexec =>
    rw [hps] at howed hway
    simp only [hinit, toCpu, List.filterMap_cons, List.filterMap_nil] at howed hway
    have heq : answersOwed s' = answersOwed s := by simpa using howed
    have hpid : ∀ pid, underWay s' pid = underWay s pid + if pid₀ = pid then 1 else 0 := by
      intro pid
      have h := hway pid
      rw [heq, hrel] at h
      simp only [Tpso.Syscalls.dispatches, List.countP_cons, List.countP_nil, decide_eq_true_eq,
        Nat.cast_inj, reduceCtorEq, if_false] at h
      omega
    cases hvictim : preempted s.kernel ch t with
    | none =>
      refine iff_of_true ?_ rfl
      intro pid
      rw [hexec, hvictim, hpid, count_append_singleton]
      exact Nat.add_le_add_right (hs pid) _
    | some victim =>
      have hmem := List.count_pos_iff.mpr (preempted_mem hvictim)
      have hcount : ∀ pid, ((nextSection cfg.kernel s.kernel ch t).1.queue .exec).count pid =
          ((s.kernel.queue .exec).erase victim).count pid + if pid₀ = pid then 1 else 0 := by
        intro pid
        rw [hexec, hvictim, count_append_singleton, Option.toList_some, List.diff_cons, List.diff_nil]
      simp only [Option.all_some, decide_eq_true_eq]
      constructor
      · intro hall
        have h := hall victim
        rw [hpid, hcount, List.count_erase_self] at h
        omega
      · intro hlt pid
        rw [hpid, hcount]
        refine Nat.add_le_add_right ?_ _
        by_cases heq : victim = pid
        · subst heq
          rw [List.count_erase_self]
          omega
        · rw [List.count_erase_of_ne (Ne.symm heq)]
          exact hs pid

/-- What the kernel's handling of a message leaves as it was. -/
theorem covered_arrive {handler : Thread} (hs : Covered s) (hsyscall : Devices.isSyscall handler = false) :
    Covered { s with kernel := { s.kernel with threads := s.kernel.threads ++ [handler] } } := by
  have hnot : handler.releases = none ∧ handler.isInitProc = false := by
    cases handler <;> simp_all [Devices.isSyscall, Thread.releases, Thread.isInitProc]
  intro pid
  have h := hs pid
  simpa [underWay, answersOwed, releasing, List.countP_append, hnot.1, hnot.2] using h

/-- A syscall that is taken from the socket is under way as before. -/
theorem covered_serve {handler : Thread} {rest : List Thread} (hs : Covered s)
    (hsyscalls : s.syscalls = handler :: rest) :
    Covered { s with
      kernel := { s.kernel with threads := s.kernel.threads ++ [handler] }, syscalls := rest } := by
  intro pid
  have h := hs pid
  have howed : answersOwed { s with
      kernel := { s.kernel with threads := s.kernel.threads ++ [handler] }, syscalls := rest } =
      answersOwed s := by
    simp only [answersOwed, hsyscalls, List.countP_append, List.countP_cons, List.countP_nil]
    omega
  simp only [underWay, howed, releasing, hsyscalls, List.countP_append, List.countP_cons, List.countP_nil] at h ⊢
  omega

/-- **A step keeps everything under way covered exactly when it disturbs nothing.** -/
theorem covered_step_iff (hs : Covered s) (hq : Queued s.kernel) {e : Event} (h : step cfg s e = some s') :
    Covered s' ↔ undisturbed s e = true := by
  rcases step_cases h with ⟨i, ch, rfl⟩ | ⟨handler, rfl, hsyscall, rfl⟩ | ⟨handler, rest, rfl, hsyscalls, -, rfl⟩ |
    ⟨e', s1, c', out, rfl, hreceive, hst, rfl⟩
  · exact covered_run hs hq h
  · exact iff_of_true (covered_arrive hs hsyscall) rfl
  · exact iff_of_true (covered_serve hs hsyscalls) rfl
  · exact iff_of_true (covered_cpu hs hreceive hst) rfl

/-- **Every step keeps a request queue for every connection.** -/
theorem queued_step (hq : Queued s.kernel) {e : Event} (h : step cfg s e = some s') : Queued s'.kernel := by
  rcases step_cases h with ⟨i, ch, rfl⟩ | ⟨handler, rfl, -, rfl⟩ | ⟨handler, rest, rfl, -, -, rfl⟩ |
    ⟨e', s1, c', out, rfl, hreceive, -, rfl⟩
  · obtain ⟨t, others, -, -, -, hkernel, -⟩ := step_section h
    rw [hkernel]
    exact queued_nextSection hq t
  · exact hq
  · exact hq
  · simpa [post, (receive_eq hreceive).1] using hq

end Steps

section Runs

variable {cfg : Config} {s s' : State}

/-- **What the handler of a syscall does while everything under way is covered**: it moves its PCB from EXEC,
and no section crashes. -/
theorem applies_run (hs : Covered s) (hq : Queued s.kernel) {i : Nat} {ch : Choice}
    (h : step cfg s (.kernel (.run i ch)) = some s') :
    s'.kernel.crashed = s.kernel.crashed ∧
      ∀ t, s.kernel.threads[i]? = some t → ∀ pid, t.releases = some pid →
        Applies s.kernel t pid s'.kernel := by
  obtain ⟨t, others, ht, hperm, -, hkernel, -⟩ := step_section h
  rw [hkernel]
  cases @nextSection_exec cfg.kernel s.kernel ch hq t with
  | keeps hrel _ _ _ hcrash =>
    refine ⟨hcrash, ?_⟩
    intro t' ht' pid hpid
    obtain rfl := Option.some.inj (ht.symm.trans ht')
    exact absurd (hrel.symm.trans hpid) (by simp)
  | moves hrel _ happlies _ hcrash =>
    refine ⟨hcrash, ?_⟩
    intro t' ht' pid hpid
    obtain rfl := Option.some.inj (ht.symm.trans ht')
    obtain rfl := Option.some.inj (hrel.symm.trans hpid)
    exact ⟨happlies.found, happlies.taken, happlies.added, happlies.state⟩
  | @lost pid₀ hrel hmissing =>
    have hone := one_le_underWay hperm hrel
    have hold := hs pid₀
    rw [List.count_eq_zero_of_not_mem hmissing] at hold
    omega
  | dispatches hrel _ _ _ hcrash =>
    refine ⟨hcrash, ?_⟩
    intro t' ht' pid hpid
    obtain rfl := Option.some.inj (ht.symm.trans ht')
    exact absurd (hrel.symm.trans hpid) (by simp)

/-- The kernel does not crash in a step from where everything under way is covered. -/
theorem crashed_step (hs : Covered s) (hq : Queued s.kernel) (hc : s.kernel.crashed = false) {e : Event}
    (h : step cfg s e = some s') : s'.kernel.crashed = false := by
  rcases step_cases h with ⟨i, ch, rfl⟩ | ⟨handler, rfl, -, rfl⟩ | ⟨handler, rest, rfl, -, -, rfl⟩ |
    ⟨e', s1, c', out, rfl, hreceive, -, rfl⟩
  · rw [(applies_run hs hq h).1, hc]
  · exact hc
  · exact hc
  · simpa [post, (receive_eq hreceive).1] using hc

/-- At most one handler of a syscall has started, and only syscalls are in the socket. -/
structure Serial (s : State) : Prop where
  one : (s.kernel.threads.filter Devices.isSyscall).length ≤ 1
  syscalls : ∀ t ∈ s.syscalls, Devices.isSyscall t = true

/-- What a CPU sends to the dispatch socket are syscalls. -/
theorem isSyscall_of_handlerOf {out : List Sent} : ∀ t ∈ out.filterMap handlerOf, Devices.isSyscall t = true := by
  intro t ht
  obtain ⟨sent, -, hsent⟩ := List.mem_filterMap.mp ht
  cases sent <;> simp [handlerOf] at hsent <;> subst hsent <;> rfl

/-- The handlers of syscalls beside the one a section runs. -/
theorem filter_section (hs : Serial s) {t : Thread} {others new : List Thread}
    (hperm : s.kernel.threads.Perm (t :: others)) (hnew : ∀ u ∈ new, u.isHandler = false) :
    s.kernel.threads.filter Devices.isSyscall =
      [t].filter Devices.isSyscall ++ (others ++ new).filter Devices.isSyscall := by
  have hnil : new.filter Devices.isSyscall = [] := by
    rw [List.filter_eq_nil_iff]
    intro u hu
    simp [(releases_of_not_handler (hnew u hu)).2.2]
  have hp := hperm.filter Devices.isSyscall
  rw [← List.singleton_append, List.filter_append] at hp
  rw [List.filter_append, hnil, List.append_nil]
  have hlen := hs.one
  match hfilter : s.kernel.threads.filter Devices.isSyscall with
  | [] =>
    rw [hfilter] at hp
    exact hp.nil_eq
  | [u] =>
    rw [hfilter] at hp
    exact List.singleton_perm.mp hp
  | u :: v :: rest =>
    rw [hfilter] at hlen
    simp at hlen

/-- **A step applies the first of the waiting syscalls or none, and adds those it sends at the end.** -/
theorem waiting_step (hs : Serial s) {e : Event} (h : step cfg s e = some s') :
    Serial s' ∧ waiting s ++ sentIn ⟨s, e, s'⟩ = handledIn ⟨s, e, s'⟩ ++ waiting s' := by
  rcases step_cases h with ⟨i, ch, rfl⟩ | ⟨handler, rfl, hsyscall, rfl⟩ |
    ⟨handler, rest, rfl, hsyscalls, hbusy, rfl⟩ | ⟨e', s1, c', out, rfl, hreceive, hst, rfl⟩
  · obtain ⟨t, others, ht, hperm, -, hkernel, -, hsyscalls, -⟩ := step_section h
    have hfilter := filter_section hs hperm
      (@nextSection_not_handler cfg.kernel s.kernel ch t)
    have hone := hs.one
    rw [hfilter, List.length_append] at hone
    refine ⟨⟨?_, by rw [hsyscalls]; exact hs.syscalls⟩, ?_⟩
    · rw [hkernel]
      exact le_trans (Nat.le_add_left _ _) hone
    · simp only [waiting, sentIn, handledIn, ht, hfilter, hkernel, hsyscalls, Option.toList_some,
        List.append_nil, List.append_assoc]
  · have hfilter : (s.kernel.threads ++ [handler]).filter Devices.isSyscall =
        s.kernel.threads.filter Devices.isSyscall := by
      simp [List.filter_append, hsyscall]
    refine ⟨⟨by simpa only [hfilter] using hs.one, hs.syscalls⟩, ?_⟩
    simp only [waiting, sentIn, handledIn, hfilter, List.append_nil, List.nil_append]
  · have hnil : s.kernel.threads.filter Devices.isSyscall = [] := by
      rw [List.filter_eq_nil_iff]
      intro u hu hsys
      have htrue : clientBusy s.kernel = true := List.any_eq_true.mpr ⟨u, hu, by simp [hsys]⟩
      exact absurd (hbusy.symm.trans htrue) (by simp)
    have hsys : Devices.isSyscall handler = true := hs.syscalls handler (by simp [hsyscalls])
    refine ⟨⟨?_, fun t ht => hs.syscalls t (by simp [hsyscalls, ht])⟩, ?_⟩
    · simp [List.filter_append, hnil, hsys]
    · simp [waiting, sentIn, handledIn, List.filter_append, hnil, hsys, hsyscalls]
  · obtain ⟨hkernel, hsyscalls, -⟩ := receive_eq hreceive
    refine ⟨⟨?_, ?_⟩, ?_⟩
    · simpa [post, hkernel] using hs.one
    · intro t ht
      rcases List.mem_append.mp ht with hold | hnew
      · exact hs.syscalls t (hsyscalls ▸ hold)
      · exact isSyscall_of_handlerOf t hnew
    · simp [waiting, sentIn, handledIn, post, hst, hkernel, hsyscalls]

end Runs

/-! ## 7. Whole runs -/

/-- At the start nothing is under way, and no device is connected. -/
theorem covered_start (cfg : Config) : Covered (State.start cfg) ∧ Queued (State.start cfg).kernel := by
  refine ⟨?_, ?_⟩
  · intro pid
    simp [underWay, answersOwed, mayExecute, releasing, State.start, Threads.start, Kernel.State.start,
      Thread.releases, Thread.isInitProc]
  · intro c hc
    exact absurd hc List.not_mem_nil

/-- **In every run the syscalls are applied in the order in which they were sent**, each at most once. -/
theorem once_of_run {cfg : Config} {tr : List (Transition State Event)} {s : State}
    (hr : (system cfg).Run tr s) : tr.flatMap sentIn = tr.flatMap handledIn ++ waiting s := by
  have hall : Serial s ∧ tr.flatMap sentIn = tr.flatMap handledIn ++ waiting s := by
    induction hr with
    | start hi =>
      obtain rfl := hi
      exact ⟨⟨by simp [State.start, Kernel.State.start, Devices.isSyscall], by simp [State.start]⟩,
        by simp [waiting, State.start, Kernel.State.start, Devices.isSyscall]⟩
    | @step tr s s' e hrun hst ih =>
      obtain ⟨hserial, heq⟩ := ih
      obtain ⟨hserial', hstep⟩ := waiting_step hserial hst
      refine ⟨hserial', ?_⟩
      let x : Transition State Event := ⟨s, e, s'⟩
      calc
        (tr ++ [x]).flatMap sentIn = tr.flatMap handledIn ++ (waiting s ++ sentIn x) := by simp [heq]
        _ = tr.flatMap handledIn ++ (handledIn x ++ waiting s') := by rw [hstep]
        _ = (tr ++ [x]).flatMap handledIn ++ waiting s' := by simp
  exact hall.2

/-- **EXEC has a PCB for everything under way, all along a run, exactly when no step of the run disturbs
what is under way.** -/
theorem covered_iff_undisturbed {cfg : Config} {tr : List (Transition State Event)} {s : State}
    (hr : (system cfg).Run tr s) :
    (Covered s ∧ ∀ x ∈ tr, Covered x.src) ↔ ∀ x ∈ tr, undisturbed x.src x.label = true := by
  refine Lts.Run.invariant_iff (I := Covered) (J := fun s => Queued s.kernel)
    (C := fun s e => undisturbed s e = true) ?_ ?_ ?_ hr
  · rintro s rfl
    exact ⟨(covered_start cfg).2, (covered_start cfg).1⟩
  · exact fun s e s' hq hst => queued_step hq hst
  · exact fun s e s' hq hs hst => covered_step_iff hs hq hst

/-- **In every run in which no preemption takes a PCB from EXEC that something under way still needs, every
syscall is applied once.** -/
theorem appliedOnce_of_undisturbed {cfg : Config} {tr : List (Transition State Event)} {s : State}
    (hr : (system cfg).Run tr s) (hok : ∀ x ∈ tr, undisturbed x.src x.label = true) : AppliedOnce tr s := by
  have h0 : ∀ s, (system cfg).init s →
      Covered s ∧ Queued s.kernel ∧ s.kernel.crashed = false := by
    rintro s rfl
    exact ⟨(covered_start cfg).1, (covered_start cfg).2, rfl⟩
  have hstep : ∀ s e s', Covered s ∧ Queued s.kernel ∧ s.kernel.crashed = false → undisturbed s e = true →
      (system cfg).step s e s' → Covered s' ∧ Queued s'.kernel ∧ s'.kernel.crashed = false :=
    fun s e s' hs ho hst => ⟨(covered_step_iff hs.1 hs.2.1 hst).mpr ho, queued_step hs.2.1 hst,
      crashed_step hs.1 hs.2.1 hs.2.2 hst⟩
  refine ⟨once_of_run hr, ?_, (hr.invariant h0 hstep hok).2.2⟩
  rintro ⟨s1, e, s2⟩ hx t ht pid hpid
  obtain ⟨hinv, hst⟩ := hr.invariant_steps h0 hstep hok _ hx
  cases e with
  | kernel e =>
    cases e with
    | run i ch =>
      simp only [handledIn, List.mem_filter, Option.mem_toList] at ht
      exact (applies_run hinv.1 hinv.2.1 hst).2 t ht.1 pid hpid
    | arrive handler => exact absurd ht List.not_mem_nil
  | serve => exact absurd ht List.not_mem_nil
  | cpu e => exact absurd ht List.not_mem_nil

/-- One CPU, and a scheduler that preempts. -/
def srtConfig : Config := ⟨⟨.sjf, .fifo, true, 1, 0⟩, rfl⟩

/-- A section of the only thread of the kernel. -/
def next : Event := .kernel (.run 0 {})

/-- Process 0 is admitted, dispatched, and creates process 1, which is admitted in turn. -/
def bootPair : List Event :=
  List.replicate 6 next ++
    [.kernel (.run 0 { order := [0] }), next, .cpu (.recvDispatch (.dispatch 0 0)), .cpu .lockDispatched,
      .cpu (.execute (.initProc "child" 0 true) true), .serve, next, .cpu (.answer .confirmation),
      .cpu .handle, .cpu .unlock, .cpu .endCycle] ++
    List.replicate 6 next ++ [.kernel (.run 0 { order := [1], execOrder := [0] })]

/-- The CPU finds an INTERRUPT for process 0 after an instruction, and stops. -/
def interrupted : List Event :=
  [.cpu (.recvInterrupt 0), .cpu .handle, .cpu .check, .cpu .unlock, .cpu .endCycle]

/-- The theorem at work: process 0 is preempted between two instructions, process 1 runs and ends. -/
theorem appliedOnce_of_undisturbed_preempted :
    ∃ tr s, (system srtConfig).Run tr s ∧ AppliedOnce tr s ∧ s.kernel.queue .exit = [1] ∧
      s.kernel.queue .ready = [0] := by
  obtain ⟨tr, s, hrun, htest⟩ := Lts.exists_run_of_drive (State.start srtConfig) (step srtConfig)
    (bootPair ++ [.kernel (.run 0 { preempt := true }), .cpu (.execute .noop true)] ++ interrupted ++
      [.kernel (.run 0 { pc := 2 }), .cpu (.recvDispatch (.dispatch 1 0)), .cpu .listen,
        .cpu .handleListened, .cpu .unlockListened, .cpu .lockDispatched, .cpu (.execute .exit true), .serve,
        next])
    (fun tr s => (tr.all fun x => undisturbed x.src x.label) && decide (s.kernel.queue .exit = [1]) &&
      decide (s.kernel.queue .ready = [0])) (by decide +kernel)
  simp only [Bool.and_eq_true, List.all_eq_true, decide_eq_true_eq] at htest
  obtain ⟨⟨hok, hexit⟩, hready⟩ := htest
  exact ⟨tr, s, hrun, appliedOnce_of_undisturbed hrun hok, hexit, hready⟩

/-- Without the condition the kernel follows a null pointer.  Process 0 executes EXIT while an INTERRUPT for
it is in the list; the CPU still has the pid of the process and answers that it has stopped it; the scheduler
moves it to READY; and the handler of the EXIT finds nothing in EXEC. -/
theorem not_appliedOnce_exit :
    ¬ ∀ (cfg : Config) (tr : List (Transition State Event)) (s : State),
      (system cfg).Run tr s → AppliedOnce tr s := by
  intro hall
  obtain ⟨tr, s, hrun, htest⟩ := Lts.exists_run_of_drive (State.start srtConfig) (step srtConfig)
    (bootPair ++ [.kernel (.run 0 { preempt := true }), .cpu (.execute .exit true)] ++ interrupted ++
      [.kernel (.run 0 { pc := 2 }), .serve, next])
    (fun _ s => s.kernel.crashed) (by decide +kernel)
  rw [(hall srtConfig tr s hrun).notCrashed] at htest
  exact absurd htest (by simp)

end Tpso.Syscalls
