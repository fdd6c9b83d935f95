/-
# Threads of the kernel and CPUs that wait for each other

The semaphores alone cannot close a cycle: all handlers take them in one order, IO_CONNECTIONS first and
EXIT last.  Messages can.  A short-term scheduler keeps CPU_CONNECTIONS and READY while it waits for the
CPU_CONTEXT of a CPU; a CPU in INIT_PROC answers no interrupt and waits for the CONFIRMATION of its
dispatch client; and a dispatch client serves one syscall after the other.

The handlers of INIT_PROC, EXIT and IO leave the schedulers to threads of their own, so that the client
is soon back.  `dump_memory_syscall` does not: it waits on READY, and runs the short-term scheduler
itself.  When the CPU has gone on to another process in the meantime and that process executes
INIT_PROC, the client waits for the CPU and the CPU for the client (`not_deadlockFree_dump`).  An IO that
waits on IO_CONNECTIONS does the same through an IO completion that waits on READY.

When a CPU sends INIT_PROC only to a client that is not inside an IO or a DUMP_MEMORY, and the syscall
finds its caller in EXEC, no cycle closes in any run (`deadlockFree_of_prompt`).
-/
import Tpso.Kernel.Locks
import Tpso.Kernel.Partition
import Tpso.Lib.Tasks

namespace Tpso.Deadlock

open Tpso.Lib Tpso.Lib.Task Tpso.Kernel

/-! ## 1. The threads of the kernel -/

/-- The messages between the kernel and a CPU: INTERRUPT, CPU_CONTEXT, DISPATCH, and the CONFIRMATION of
an INIT_PROC. -/
inductive Message where
  | interrupt (cpu : Nat)
  | context (cpu : Nat)
  | dispatch (cpu : Nat)
  | confirmation (cpu : Nat)
  deriving DecidableEq

inductive Syscall where
  | initProc
  | io
  | exit
  | dump
  deriving DecidableEq

/-- The threads of the kernel that are no dispatch clients: those that a message of a device starts,
those that handlers start, and `initialize_root_process`. -/
inductive Job where
  | newDevice
  | ioCompletion
  | ioDisconnected
  /-- `medium_scheduler_thread`. -/
  | medium
  /-- `process_schedulers`, `process_schedulers_exit` and `process_schedulers_io`. -/
  | schedulers
  /-- `process_schedulers_for_susp_blocked`. -/
  | schedulersForSuspBlocked
  /-- `short_scheduler_thread` and `process_scheduler_for_blocked`. -/
  | short
  | root
  deriving DecidableEq

abbrev KernelTask := Task Sem Question Message Job

/-- The end of `run_short_scheduler`: DISPATCH, and all semaphores posted. -/
def shortDispatch (cpu : Nat) (next : KernelTask) : KernelTask :=
  .send (.dispatch cpu) <| postAll [.cpuConnections, .exec, .ready, .cpu cpu] next

/-- `run_short_scheduler`. -/
def runShortScheduler (next : KernelTask) : KernelTask :=
  waitAll [.cpuConnections, .ready] <|
  .ask .contextFound fun found =>
    if found = false then postAll [.cpuConnections, .ready] next
    else
      -- the CPU of `get_cpu_to_dispatch`
      .pick fun cpu =>
      wait (.cpu cpu) <|
      .ask .cpuFree fun free =>
        if free = true then wait .exec (shortDispatch cpu next)
        else
          .ask .preemptionEnabled fun enabled =>
            if enabled = false then postAll [.cpuConnections, .ready, .cpu cpu] next
            else
              -- `should_preempt_executing_process`
              wait .exec <|
              .ask .shouldPreempt fun preempt =>
                if preempt = true then
                  -- `send_and_receive_interrupt`
                  .send (.interrupt cpu) <| post .exec <|
                  .recv (.context cpu) fun same =>
                    if same = true then wait .exec (shortDispatch cpu next)
                    else shortDispatch cpu next
                else postAll [.cpuConnections, .exec, .ready, .cpu cpu] next

/-- `run_long_scheduler`, with any number of processes brought back from SUSP_READY. -/
def runLongScheduler (next : KernelTask) : KernelTask :=
  .pick fun rounds => run (Kernel.runLongScheduler rounds .done) next

/-- `exit_routine`. -/
def exitRoutine (next : KernelTask) : KernelTask := run (exitRoutineLocks .done) next

/-- `process_pending_io`. -/
def processPendingIo (next : KernelTask) : KernelTask := run (processPendingIoLocks .done) next

/-- The schedulers where the short-term one runs only if the long-term one moved a process. -/
def schedulersIfMoved (next : KernelTask) : KernelTask :=
  runLongScheduler <|
  .ask .processesInitialized fun moved => if moved = true then runShortScheduler next else next

/-- What each thread does. -/
def Job.task : Job → KernelTask
  | .newDevice => run Handler.newDevice.prog .done
  | .ioCompletion =>
    wait .ioConnections <|
    .ask .deviceFound fun found =>
      if found = false then post .ioConnections .done
      else
        waitAll [.ready, .blocked, .suspBlocked, .suspReady] <|
        .ask .pcbFound fun inBlocked =>
        .ask .inSuspBlocked fun inSuspBlocked =>
          postAll [.suspReady, .suspBlocked, .blocked, .ready, .ioConnections] <|
          processPendingIo <|
          if inBlocked = true then .fork .short .done
          else if inSuspBlocked = true then .fork .schedulersForSuspBlocked .done
          else .done
  | .ioDisconnected =>
    wait .ioConnections <|
    .ask .deviceFound fun found =>
      if found = false then post .ioConnections .done
      else .ask .deviceMarked fun marked =>
        if marked = false then post .ioConnections .done
        else
          wait .blocked <|
          .ask .pcbFound fun pcb =>
            if pcb = true then exitRoutine (postAll [.blocked, .ioConnections] .done)
            else
              post .blocked <| wait .suspBlocked <|
              .ask .inSuspBlocked fun susp =>
                if susp = true then
                  exitRoutine <| post .suspBlocked <|
                    schedulersIfMoved (post .ioConnections .done)
                else postAll [.suspBlocked, .ioConnections] .done
  | .medium =>
    wait .blocked <|
    .ask .pcbFound fun pcb =>
      if pcb = false then post .blocked .done
      else .ask .elapsed fun elapsed =>
        if elapsed = false then post .blocked .done
        else
          wait .suspBlocked <| postAll [.blocked, .suspBlocked] <|
          .ask .hasSize fun size =>
            if size = false then schedulersIfMoved .done
            else .ask .swapped fun success =>
              if success = true then schedulersIfMoved .done
              else waitAll [.blocked, .suspBlocked] (postAll [.suspBlocked, .blocked] .done)
  | .schedulers => runLongScheduler (runShortScheduler .done)
  | .schedulersForSuspBlocked => schedulersIfMoved .done
  | .short => runShortScheduler .done
  | .root => wait .new <| post .new <| schedulersIfMoved .done

/-- What the dispatch client of a CPU does for a syscall. -/
def Syscall.task (cpu : Nat) : Syscall → KernelTask
  | .initProc =>
    waitAll [.new, .exec] <|
    .ask .pcbFound fun found =>
      -- on the error paths the CPU gets no answer
      if found = false then postAll [.exec, .new] .done
      else postAll [.new, .exec] <| .send (.confirmation cpu) <| .fork .schedulers .done
  | .io =>
    wait .ioConnections <|
    .ask .deviceFound fun found =>
      if found = false then
        wait .exec <| exitRoutine <| post .exec <| .fork .schedulers <| post .ioConnections .done
      else
        wait .ioRequestsLink <|
        .ask .linkFound fun link =>
          if link = false then postAll [.ioRequestsLink, .ioConnections] .done
          else
            waitAll [.ioRequestsQueue, .exec, .blocked] <|
            .ask .pcbFound fun pcb =>
              postAll [.blocked, .exec, .ioRequestsQueue, .ioRequestsLink, .ioConnections] <|
              if pcb = false then .done
              else processPendingIo <| .fork .medium <| .fork .short .done
  | .exit => wait .exec <| exitRoutine <| post .exec <| .fork .schedulers .done
  | .dump =>
    waitAll [.exec, .blocked] <|
    .ask .pcbFound fun pcb =>
      if pcb = false then postAll [.exec, .blocked] .done
      else
        postAll [.blocked, .exec] <| waitAll [.ready, .blocked] <|
        .ask .dumpConfirmed fun confirmation =>
          if confirmation = true then postAll [.ready, .blocked] (runShortScheduler .done)
          else exitRoutine (postAll [.ready, .blocked] .done)

/-! ## 2. The CPUs -/

/-- What arrives on the dispatch socket of a CPU. -/
inductive Package where
  | dispatch
  | confirmation
  deriving DecidableEq

/-- A CPU receives a DISPATCH, executes a process, or waits for the CONFIRMATION of INIT_PROC. -/
inductive Mode where
  | idle
  | running
  | awaiting
  deriving DecidableEq

/-- A CPU with the packages it has not received, the INTERRUPTs it has not answered, and the CPU_CONTEXTs
that the kernel has not received: `true` stands for `interrupted_same_pid == 0`. -/
structure Cpu where
  mode : Mode
  inbox : List Package
  interrupts : Nat
  contexts : List Bool

/-- What a CPU does next.  `same` says what it answers to the interrupts it finds. -/
inductive Action where
  | receive (same : Bool)
  | instruction (same : Bool)
  | syscall (s : Syscall) (same : Bool)
  /-- `interrupt_listener` gets the mutex of an idle CPU. -/
  | listen (same : Bool)
  /-- The instruction cannot be fetched or decoded. -/
  | fault
  deriving DecidableEq

/-- `interrupt_handler` empties the list. -/
def Cpu.answer (c : Cpu) (same : Bool) : Cpu :=
  { c with
    mode := .idle
    interrupts := 0
    contexts := c.contexts ++ List.replicate c.interrupts same }

/-- The end of a turn of the instruction cycle that does not preempt: interrupts are looked for. -/
def Cpu.check (c : Cpu) (same : Bool) : Cpu :=
  if c.interrupts = 0 then { c with mode := .running } else c.answer same

/-- One step of a CPU, and the syscall it sends. -/
def Cpu.step (c : Cpu) : Action → Option (Cpu × Option Syscall)
  | .receive same =>
    match c.mode, c.inbox with
    | .idle, _ :: rest => some ({ c with mode := .running, inbox := rest }, none)
    | .awaiting, .confirmation :: rest => some (({ c with inbox := rest } : Cpu).check same, none)
    | .awaiting, .dispatch :: rest => some (({ c with inbox := rest } : Cpu).answer same, none)
    | _, _ => none
  | .instruction same => if c.mode = .running then some (c.check same, none) else none
  | .syscall s same =>
    if c.mode = .running then
      -- INIT_PROC waits before the interrupts are looked for
      some (if s = .initProc then { c with mode := .awaiting } else c.answer same, some s)
    else none
  | .listen same => if c.mode = .idle ∧ c.interrupts ≠ 0 then some (c.answer same, none) else none
  | .fault => if c.mode = .running then some ({ c with mode := .idle }, none) else none

/-! ## 3. The system -/

abbrev KernelThread := TaskThread Sem Question Message Job

/-- `handle_dispatch_client`: the syscall it serves, and those on its socket. -/
structure Client where
  thread : KernelThread
  current : Option Syscall
  queue : List Syscall

/-- The syscalls a client has not finished. -/
def Client.busy (c : Client) : List Syscall :=
  if c.thread.task.isDone then c.queue else c.current.toList ++ c.queue

/-- The client waits for a syscall. -/
def Client.idle (c : Client) : Bool := c.thread.task.isDone && c.queue.isEmpty

/-- The counters of the semaphores, the threads of the kernel, and the CPUs with their clients. -/
structure State where
  count : Sem → Nat
  workers : List KernelThread
  clients : Nat → Client
  cpus : Nat → Cpu

/-- The next CPU_CONTEXT. -/
def mail (cpus : Nat → Cpu) : Message → Option Bool
  | .context cpu => (cpus cpu).contexts.head?
  | _ => none

/-- A CPU_CONTEXT is received. -/
def collect (cpus : Nat → Cpu) : Message → Nat → Cpu
  | .context cpu =>
    Function.update cpus cpu { cpus cpu with contexts := (cpus cpu).contexts.tail }
  | _ => cpus

/-- A message of the kernel arrives at its CPU. -/
def deliver (cpus : Nat → Cpu) : Message → Nat → Cpu
  | .interrupt cpu =>
    Function.update cpus cpu { cpus cpu with interrupts := (cpus cpu).interrupts + 1 }
  | .dispatch cpu =>
    Function.update cpus cpu { cpus cpu with inbox := (cpus cpu).inbox ++ [.dispatch] }
  | .confirmation cpu =>
    Function.update cpus cpu { cpus cpu with inbox := (cpus cpu).inbox ++ [.confirmation] }
  | .context _ => cpus

/-- The CPUs after a step of a thread. -/
def cpusAfter (cpus : Nat → Cpu) (r : TaskOut Sem Question Message Job) : Nat → Cpu :=
  let cpus := r.received.elim cpus (collect cpus)
  r.sent.elim cpus (deliver cpus)

/-- A syscall arrives at the client of its CPU. -/
def enqueue (clients : Nat → Client) (i : Nat) (s : Syscall) : Nat → Client :=
  Function.update clients i { clients i with queue := (clients i).queue ++ [s] }

/-- The threads a step starts. -/
def startedBy (r : TaskOut Sem Question Message Job) : List KernelThread :=
  r.started.toList.map fun job => ⟨job.task, []⟩

/-- A message of a device arrives, a thread or a dispatch client goes on, or a CPU. -/
inductive Event where
  | message (job : Job)
  | worker (k : Nat) (answer : Bool) (number : Nat)
  | client (i : Nat) (answer : Bool) (number : Nat)
  | cpu (i : Nat) (action : Action)

/-- The jobs that a message of a device starts. -/
def Job.isMessage : Job → Bool
  | .newDevice | .ioCompletion | .ioDisconnected => true
  | _ => false

/-- One step. -/
def step (σ : State) : Event → Option State
  | .message job =>
    if job.isMessage then some { σ with workers := σ.workers ++ [⟨job.task, []⟩] } else none
  | .worker k answer number =>
    (σ.workers[k]?).bind fun t =>
      (t.step σ.count (mail σ.cpus) answer number).map fun r =>
        { σ with
          count := r.count
          workers := σ.workers.set k r.thread ++ startedBy r
          cpus := cpusAfter σ.cpus r }
  | .client i answer number =>
    let c := σ.clients i
    if c.thread.task.isDone then
      match c.queue with
      | [] => none
      | s :: rest =>
        let next : Client := ⟨⟨s.task i, c.thread.held⟩, some s, rest⟩
        some { σ with clients := Function.update σ.clients i next }
    else
      (c.thread.step σ.count (mail σ.cpus) answer number).map fun r =>
        { count := r.count
          workers := σ.workers ++ startedBy r
          clients := Function.update σ.clients i { c with thread := r.thread }
          cpus := cpusAfter σ.cpus r }
  | .cpu i action =>
    ((σ.cpus i).step action).map fun x =>
      { σ with
        cpus := Function.update σ.cpus i x.1
        clients := x.2.elim σ.clients (enqueue σ.clients i) }

/-- All semaphores at 1, the CPUs and their clients idle, and the root process about to be
initialized. -/
def State.start : State where
  count := fun _ => 1
  workers := [⟨Job.root.task, []⟩]
  clients := fun _ => ⟨⟨.done, []⟩, none, []⟩
  cpus := fun _ => ⟨.idle, [], 0, []⟩

/-- Kernel and CPUs as a transition system: any interleaving, any number of CPUs. -/
def kernelAndCpus : Lts State Event := Lts.ofStep State.start step

/-! ## 4. The property and the condition -/

/-- Those who can wait: a thread of the kernel, the dispatch client of a CPU, a CPU. -/
inductive Agent where
  | worker (k : Nat)
  | client (i : Nat)
  | cpu (i : Nat)
  deriving DecidableEq

/-- The thread of an agent. -/
def threadOf (σ : State) : Agent → Option KernelThread
  | .worker k => σ.workers[k]?
  | .client i => some (σ.clients i).thread
  | .cpu _ => none

/-- What a thread is stuck on in state `σ`. -/
def stuckOn (σ : State) (t : KernelThread) : Option (Sem ⊕ Message) :=
  t.blockedOn σ.count (mail σ.cpus)

/-- **Who waits for whom**: for a holder of a semaphore, for the CPU whose CPU_CONTEXT is missing, for the
client whose CONFIRMATION is missing, or for the CPU that sends the syscalls. -/
inductive Waits (σ : State) : Agent → Agent → Prop
  | semaphore {a b : Agent} {t u : KernelThread} {sem : Sem} : threadOf σ a = some t →
      stuckOn σ t = some (.inl sem) → threadOf σ b = some u → sem ∈ u.held → Waits σ a b
  | context {a : Agent} {t : KernelThread} {i : Nat} : threadOf σ a = some t →
      stuckOn σ t = some (.inr (.context i)) → Waits σ a (.cpu i)
  | confirmation {i : Nat} : (σ.cpus i).mode = .awaiting → (σ.cpus i).inbox = [] →
      Waits σ (.cpu i) (.client i)
  | syscall {i : Nat} : (σ.clients i).idle = true → Waits σ (.client i) (.cpu i)

/-- **No deadlock**: nobody waits, over any number of others, for itself. -/
def DeadlockFree (σ : State) : Prop := ∀ a, ¬ Relation.TransGen (Waits σ) a a

/-- The syscalls whose handlers wait on nothing that a scheduler keeps while it waits for a CPU. -/
def Syscall.quick : Syscall → Bool
  | .initProc | .exit => true
  | _ => false

/-- The condition on one step: a CPU sends INIT_PROC to a client that is not inside an IO or a
DUMP_MEMORY, and INIT_PROC finds its caller in EXEC. -/
def prompt (σ : State) : Event → Bool
  | .cpu i (.syscall .initProc _) => (σ.clients i).busy.all Syscall.quick
  | .client i answer _ =>
    match (σ.clients i).current, (σ.clients i).thread.task with
    | some .initProc, .ask .pcbFound _ => answer
    | _, _ => true
  | _ => true

/-! ## 5. The order -/

/-- The place of what a thread can be stuck on. -/
def rank : Sem ⊕ Message → Nat
  | .inl .ioConnections => 0
  | .inl .ioRequestsLink => 1
  | .inl .ioRequestsQueue => 2
  | .inl .cpuConnections => 3
  | .inl .ready => 4
  | .inl (.cpu _) => 5
  -- a CPU_CONTEXT, and between it and the rest a CPU in INIT_PROC
  | .inr _ => 6
  | .inl .new => 8
  | .inl .exec => 9
  | .inl .blocked => 10
  | .inl .suspBlocked => 11
  | .inl .suspReady => 12
  | .inl .exit => 13

/-- The place of a CPU in INIT_PROC. -/
def awaitingRank : Nat := 7

theorem rank_le (x : Sem ⊕ Message) : rank x ≤ 13 := by
  unfold rank
  split <;> omega

section Order

variable {held : List Sem} {next : KernelTask}

/-- Only IO_CONNECTIONS, the link and the queue may be held when a scheduler starts. -/
def Low (held : List Sem) : Prop := ∀ sem ∈ held, rank (.inl sem) < rank (.inl .cpuConnections)

theorem Low.not_mem (h : Low held) {sem : Sem} (hsem : 3 ≤ rank (.inl sem)) : sem ∉ held :=
  fun hin => absurd (h sem hin) (by simpa [rank] using hsem)

theorem Low.lt (h : Low held) {sem : Sem} {x : Sem ⊕ Message} (hx : 3 ≤ rank x) (hsem : sem ∈ held) :
    rank (.inl sem) < rank x := lt_of_lt_of_le (h sem hsem) hx

theorem shortDispatch_ordered (hlow : Low held) (cpu : Nat) (hnext : next.Ordered rank held) :
    (shortDispatch cpu next).Ordered rank (.exec :: .cpu cpu :: .ready :: .cpuConnections :: held) ∧
      (shortDispatch cpu next).Ordered rank (.cpu cpu :: .ready :: .cpuConnections :: held) := by
  have hexec : held.erase Sem.exec = held := List.erase_of_not_mem (hlow.not_mem (by decide))
  constructor
  · simpa [shortDispatch, postAll, post, Task.Ordered, List.erase_cons] using hnext
  · -- EXEC is posted without having been waited on
    simpa [shortDispatch, postAll, post, Task.Ordered, List.erase_cons, hexec] using hnext

theorem runShortScheduler_ordered (hlow : Low held) (hnext : next.Ordered rank held) :
    (runShortScheduler next).Ordered rank held := by
  have hlt : ∀ {x : Sem ⊕ Message}, 3 ≤ rank x → ∀ sem ∈ held, rank (.inl sem) < rank x :=
    fun hx sem hsem => hlow.lt hx hsem
  refine ⟨hlt (by decide), ?_, ?_⟩
  · simpa [rank] using hlt (x := .inl .ready) (by decide)
  · intro found
    cases found with
    | false => simpa [postAll, post, Task.Ordered, List.erase_cons] using hnext
    | true =>
      intro cpu
      obtain ⟨hwith, hwithout⟩ := shortDispatch_ordered hlow cpu hnext
      refine ⟨?_, ?_⟩
      · simpa [rank] using hlt (x := .inl (.cpu cpu)) (by simp [rank])
      · have hexec : ∀ sem ∈ Sem.cpu cpu :: .ready :: .cpuConnections :: held,
            rank (.inl sem) < rank (.inl .exec) := by
          simpa [rank] using hlt (x := .inl .exec) (by decide)
        intro free
        cases free with
        | true => exact ⟨hexec, hwith⟩
        | false =>
          intro enabled
          cases enabled with
          | false => simpa [postAll, post, Task.Ordered, List.erase_cons] using hnext
          | true =>
            refine ⟨hexec, ?_⟩
            intro preempt
            cases preempt with
            | false => simpa [postAll, post, Task.Ordered, List.erase_cons] using hnext
            | true =>
              have hcontext : ∀ sem ∈ Sem.cpu cpu :: .ready :: .cpuConnections :: held,
                  rank (.inl sem) < rank (.inr (.context cpu)) := by
                simpa [rank] using hlt (x := .inr (.context cpu)) (by simp [rank])
              refine ⟨by simpa using hcontext, ?_⟩
              intro same
              cases same with
              | true => exact ⟨by simpa using hexec, by simpa using hwith⟩
              | false => simpa using hwithout

theorem longSuspReady_nested (hlow : Low held) {p : LockProg}
    (hp : p.Nested (fun sem => rank (.inl sem)) held held) (rounds : Nat) :
    (longSuspReady p rounds).Nested (fun sem => rank (.inl sem)) held held := by
  have hsusp : ∀ sem ∈ held, rank (.inl sem) < rank (.inl .suspReady) :=
    fun sem hsem => hlow.lt (by decide) hsem
  have hready : ∀ sem ∈ held, rank (.inl sem) < rank (.inl .ready) :=
    fun sem hsem => hlow.lt (by decide) hsem
  have hpost : (Prog.post .suspReady p).Nested (fun sem => rank (.inl sem)) held
      (.suspReady :: held) := by
    simpa [Prog.post, Prog.Nested] using hp
  induction rounds with
  | zero => exact ⟨hsusp, hpost⟩
  | succ rounds ih =>
    refine ⟨hsusp, ?_⟩
    intro found
    cases found with
    | false => exact hpost
    | true =>
      intro success
      cases success with
      | false => exact hpost
      | true =>
        simp only [Prog.post, Prog.wait]
        exact ⟨hready, ih⟩

theorem runLongScheduler_ordered (hlow : Low held) (hnext : next.Ordered rank held) :
    (runLongScheduler next).Ordered rank held := by
  intro rounds
  refine ordered_run hnext ?_
  intro connected
  cases connected with
  | false => rfl
  | true =>
    refine longSuspReady_nested hlow ?_ rounds
    have hready : ∀ sem ∈ held, rank (.inl sem) < rank (.inl .ready) :=
      fun sem hsem => hlow.lt (by decide) hsem
    have hnew : ∀ sem ∈ Sem.ready :: held, rank (.inl sem) < rank (.inl .new) := by
      intro sem hsem
      rcases List.mem_cons.mp hsem with rfl | hsem
      · decide
      · exact hlow.lt (by decide) hsem
    exact ⟨hready, hnew, by simp [Prog.postAll, Prog.post, Prog.Nested]⟩

theorem schedulersIfMoved_ordered (hlow : Low held) (hnext : next.Ordered rank held) :
    (schedulersIfMoved next).Ordered rank held := by
  refine runLongScheduler_ordered hlow ?_
  intro moved
  cases moved with
  | false => exact hnext
  | true => exact runShortScheduler_ordered hlow hnext

theorem exitRoutine_ordered (hexit : ∀ sem ∈ held, rank (.inl sem) < rank (.inl .exit))
    (hnext : next.Ordered rank held) : (exitRoutine next).Ordered rank held := by
  have hposted : next.Ordered rank ((Sem.exit :: held).erase .exit) := by simpa using hnext
  exact ⟨hexit, hposted⟩

theorem processPendingIoLocks_nested :
    (processPendingIoLocks .done).Nested (fun sem => rank (.inl sem)) [] [] := by
  refine ⟨by simp, ?_⟩
  intro found
  cases found with
  | false => simp [Prog.post, Prog.Nested]
  | true =>
    refine ⟨by simp [rank], ?_⟩
    intro link
    cases link with
    | false => simp [Prog.postAll, Prog.post, Prog.Nested]
    | true =>
      refine ⟨by simp [rank], ?_⟩
      intro marked
      cases marked with
      | false => simp [Prog.postAll, Prog.post, Prog.Nested]
      | true => simp [Prog.waitAll, Prog.wait, Prog.postAll, Prog.post, Prog.Nested, rank]

theorem processPendingIo_ordered (hnext : next.Ordered rank []) :
    (processPendingIo next).Ordered rank [] := ordered_run hnext processPendingIoLocks_nested

theorem low_nil : Low [] := by simp [Low]

theorem low_ioConnections : Low [.ioConnections] := by simp [Low, rank]

end Order

/-- **Every thread waits in the order.** -/
theorem job_ordered (job : Job) : job.task.Ordered rank [] := by
  have hdone : (Task.done : KernelTask).Ordered rank [] := rfl
  cases job with
  | newDevice =>
    refine ordered_run hdone ⟨by simp, by simp [rank], ?_⟩
    intro link
    cases link with
    | true => simpa using processPendingIoLocks_nested
    | false => simp [Prog.Nested]
  | ioCompletion =>
    refine ⟨by simp, ?_⟩
    intro found
    cases found with
    | false => simp [post, Task.Ordered]
    | true =>
      refine ⟨by simp [rank], by simp [rank], by simp [rank], by simp [rank], ?_⟩
      intro inBlocked inSuspBlocked
      simp only [postAll, post, Task.Ordered, List.foldr, List.erase_cons_head]
      refine processPendingIo_ordered ?_
      cases inBlocked with
      | true => rfl
      | false =>
        cases inSuspBlocked with
        | true => rfl
        | false => rfl
  | ioDisconnected =>
    refine ⟨by simp, ?_⟩
    intro found
    cases found with
    | false => simp [post, Task.Ordered]
    | true =>
      intro marked
      cases marked with
      | false => simp [post, Task.Ordered]
      | true =>
        refine ⟨by simp [rank], ?_⟩
        intro pcb
        cases pcb with
        | true =>
          refine exitRoutine_ordered (by simp [rank]) ?_
          simp [postAll, post, Task.Ordered]
        | false =>
          refine ⟨by simp [rank], ?_⟩
          intro susp
          cases susp with
          | false => simp [postAll, post, Task.Ordered]
          | true =>
            refine exitRoutine_ordered (by simp [rank]) ?_
            have hend : (post .ioConnections .done : KernelTask).Ordered rank [.ioConnections] := by
              simp [post, Task.Ordered]
            simpa [post, Task.Ordered] using schedulersIfMoved_ordered low_ioConnections hend
  | medium =>
    refine ⟨by simp, ?_⟩
    intro pcb
    cases pcb with
    | false => simp [post, Task.Ordered]
    | true =>
      intro elapsed
      cases elapsed with
      | false => simp [post, Task.Ordered]
      | true =>
        refine ⟨by simp [rank], ?_⟩
        simp only [postAll, post, Task.Ordered, List.foldr, List.erase_cons]
        intro size
        cases size with
        | false => simpa using schedulersIfMoved_ordered low_nil hdone
        | true =>
          intro success
          cases success with
          | true => simpa using schedulersIfMoved_ordered low_nil hdone
          | false => simp [waitAll, wait, Task.Ordered, rank]
  | schedulers => exact runLongScheduler_ordered low_nil (runShortScheduler_ordered low_nil hdone)
  | schedulersForSuspBlocked => exact schedulersIfMoved_ordered low_nil hdone
  | short => exact runShortScheduler_ordered low_nil hdone
  | root =>
    have hposted : (schedulersIfMoved .done).Ordered rank (([Sem.new] : List Sem).erase .new) := by
      simpa using schedulersIfMoved_ordered low_nil hdone
    exact ⟨by simp, hposted⟩

/-- **Every syscall waits in the order.** -/
theorem syscall_ordered (s : Syscall) (cpu : Nat) : (s.task cpu).Ordered rank [] := by
  have hdone : (Task.done : KernelTask).Ordered rank [] := rfl
  cases s with
  | initProc =>
    refine ⟨by simp, by simp [rank], ?_⟩
    intro found
    cases found with
    | false => simp [postAll, post, Task.Ordered]
    | true => simp [postAll, post, Task.Ordered]
  | io =>
    refine ⟨by simp, ?_⟩
    intro found
    cases found with
    | false =>
      refine ⟨by simp [rank], exitRoutine_ordered (by simp [rank]) ?_⟩
      simp [post, Task.Ordered]
    | true =>
      refine ⟨by simp [rank], ?_⟩
      intro link
      cases link with
      | false => simp [postAll, post, Task.Ordered]
      | true =>
        refine ⟨by simp [rank], by simp [rank], by simp [rank], ?_⟩
        intro pcb
        simp only [postAll, post, Task.Ordered, List.foldr, List.erase_cons_head]
        cases pcb with
        | false => rfl
        | true => exact processPendingIo_ordered rfl
  | exit =>
    refine ⟨by simp, exitRoutine_ordered (by simp [rank]) ?_⟩
    simp [post, Task.Ordered]
  | dump =>
    refine ⟨by simp, by simp [rank], ?_⟩
    intro pcb
    cases pcb with
    | false => simp [postAll, post, Task.Ordered]
    | true =>
      simp only [postAll, post, List.foldr]
      refine ⟨by simp, by simp [rank], ?_⟩
      intro confirmation
      cases confirmation with
      | true =>
        simpa [Task.Ordered, List.erase_cons] using runShortScheduler_ordered low_nil hdone
      | false =>
        refine exitRoutine_ordered (by simp [rank]) ?_
        simp [Task.Ordered]

/-- The handlers of INIT_PROC and EXIT wait on nothing that is kept while a CPU is waited for. -/
theorem syscall_late {s : Syscall} (h : s.quick = true) (cpu : Nat) :
    (s.task cpu).Late rank awaitingRank := by
  cases s with
  | initProc =>
    refine ⟨by decide, by decide, ?_⟩
    intro found
    cases found with
    | false => simp [postAll, post, Task.Late]
    | true => simp [postAll, post, Task.Late]
  | exit => simp [Syscall.task, exitRoutine, exitRoutineLocks, run, wait, post, Prog.wait, Prog.post,
      Task.Late, rank, awaitingRank]
  | io => simp [Syscall.quick] at h
  | dump => simp [Syscall.quick] at h

/-- The answers with which INIT_PROC finds its caller. -/
def CallerFound (q : Question) (b : Bool) : Prop := q = .pcbFound → b = true

/-- INIT_PROC confirms, once it has found its caller. -/
theorem initProc_sends (cpu : Nat) :
    (Syscall.initProc.task cpu).Sends CallerFound (.confirmation cpu) := by
  intro found hfound
  obtain rfl : found = true := hfound rfl
  exact Or.inl rfl

/-! ## 6. The invariant -/

/-- All threads wait in the order; the client of a CPU in INIT_PROC is inside quick handlers only; and
the CONFIRMATION is there or on its way. -/
structure Inv (σ : State) : Prop where
  workers : ∀ t ∈ σ.workers, t.task.Ordered rank t.held
  clients : ∀ i, (σ.clients i).thread.task.Ordered rank (σ.clients i).thread.held
  late : ∀ i, (∀ s ∈ (σ.clients i).current, s.quick = true) →
    (σ.clients i).thread.task.Late rank awaitingRank
  quick : ∀ i, (σ.cpus i).mode = .awaiting → ∀ s ∈ (σ.clients i).busy, s.quick = true
  confirms : ∀ i, (σ.cpus i).mode = .awaiting →
    Package.confirmation ∈ (σ.cpus i).inbox ∨ Syscall.initProc ∈ (σ.clients i).queue ∨
      ((σ.clients i).current = some .initProc ∧
        (σ.clients i).thread.task.Sends CallerFound (.confirmation i))

theorem inv_start : Inv State.start := by
  refine ⟨?_, fun _ => rfl, fun _ _ => trivial, ?_, ?_⟩
  · intro t ht
    rw [List.mem_singleton.mp ht]
    exact job_ordered .root
  · simp [State.start]
  · simp [State.start]

/-! ## 7. No cycle -/

section Cycle

variable {σ : State} {a b : Agent} {t : KernelThread}

/-- The place of what a thread is stuck on; above all places if it is not stuck. -/
def threadRank (σ : State) (t : KernelThread) : Nat := (stuckOn σ t).elim 15 rank

/-- The place of an agent in the order. -/
def agentRank (σ : State) : Agent → Nat
  | .worker k => (σ.workers[k]?).elim 15 (threadRank σ)
  | .client i => if (σ.clients i).idle = true then 14 else threadRank σ (σ.clients i).thread
  | .cpu i => if (σ.cpus i).mode = .awaiting ∧ (σ.cpus i).inbox = [] then awaitingRank else 15

/-- An agent that is stuck has the rank of what it is stuck on. -/
theorem agentRank_of_stuck {x : Sem ⊕ Message} (ha : threadOf σ a = some t)
    (hx : stuckOn σ t = some x) : agentRank σ a = rank x := by
  cases a with
  | worker k =>
    have hk : σ.workers[k]? = some t := ha
    simp [agentRank, hk, threadRank, hx]
  | client i =>
    obtain rfl : (σ.clients i).thread = t := Option.some.inj ha
    have hbusy : (σ.clients i).thread.task.isDone = false := TaskThread.isDone_of_blockedOn hx
    simp [agentRank, Client.idle, hbusy, threadRank, hx]
  | cpu i => exact absurd ha (by simp [threadOf])

/-- An agent that is not stuck ranks above all that can be waited on. -/
theorem agentRank_of_free (ha : threadOf σ a = some t) (hx : stuckOn σ t = none) :
    14 ≤ agentRank σ a := by
  cases a with
  | worker k =>
    have hk : σ.workers[k]? = some t := ha
    simp [agentRank, hk, threadRank, hx]
  | client i =>
    obtain rfl : (σ.clients i).thread = t := Option.some.inj ha
    simp only [agentRank]
    split
    · exact le_refl _
    · simp [threadRank, hx]
  | cpu i => exact absurd ha (by simp [threadOf])

theorem Inv.ordered (hσ : Inv σ) (ha : threadOf σ a = some t) : t.task.Ordered rank t.held := by
  cases a with
  | worker k => exact hσ.workers t (List.mem_of_getElem? ha)
  | client i =>
    obtain rfl : (σ.clients i).thread = t := Option.some.inj ha
    exact hσ.clients i
  | cpu i => exact absurd ha (by simp [threadOf])

/-- A CPU that waits for a CONFIRMATION has a client on its way to send it. -/
theorem Inv.client_rank (hσ : Inv σ) {i : Nat} (hmode : (σ.cpus i).mode = .awaiting)
    (hinbox : (σ.cpus i).inbox = []) : awaitingRank < agentRank σ (.client i) := by
  have hpending := hσ.confirms i hmode
  rw [hinbox] at hpending
  cases hdone : (σ.clients i).thread.task.isDone with
  | true =>
    -- it has the syscall on its socket
    rcases hpending with hin | hqueue | ⟨-, hsends⟩
    · exact absurd hin (List.not_mem_nil)
    · have hne : (σ.clients i).queue ≠ [] := List.ne_nil_of_mem hqueue
      have hfree : stuckOn σ (σ.clients i).thread = none := by
        by_contra hstuck
        obtain ⟨x, hx⟩ := Option.ne_none_iff_exists'.mp hstuck
        have := TaskThread.isDone_of_blockedOn hx
        exact absurd (hdone.symm.trans this) (by simp)
      simp [agentRank, Client.idle, hne, threadRank, hfree, awaitingRank]
    · cases htask : (σ.clients i).thread.task with
      | done =>
        rw [htask] at hsends
        exact absurd hsends (by simp [Task.Sends])
      | _ => simp [htask, Task.isDone] at hdone
  | false =>
    cases hx : stuckOn σ (σ.clients i).thread with
    | none => exact lt_of_lt_of_le (by decide) (agentRank_of_free (a := .client i) rfl hx)
    | some x =>
      rw [agentRank_of_stuck (a := .client i) rfl hx]
      -- it is inside a handler that waits late
      refine (hσ.late i fun s hs => ?_).lt_of_blockedOn hx
      exact hσ.quick i hmode s (by simp [Client.busy, hdone, Option.mem_def.mp hs])

/-- **Along every wait the rank rises.** -/
theorem Inv.waits_rank (hσ : Inv σ) (h : Waits σ a b) : agentRank σ a < agentRank σ b := by
  cases h with
  | @semaphore _ _ t u sem ha hstuck hb hheld =>
    rw [agentRank_of_stuck ha hstuck]
    cases hu : stuckOn σ u with
    | none =>
      have hle := rank_le (.inl sem)
      have hfree := agentRank_of_free hb hu
      omega
    | some x =>
      rw [agentRank_of_stuck hb hu]
      exact (hσ.ordered hb).lt_of_blockedOn hu sem hheld
  | @context _ t i ha hstuck =>
    rw [agentRank_of_stuck ha hstuck]
    simp only [agentRank]
    split
    · simp [rank, awaitingRank]
    · simp [rank]
  | @confirmation i hmode hinbox =>
    have hcpu : agentRank σ (.cpu i) = awaitingRank := if_pos ⟨hmode, hinbox⟩
    rw [hcpu]
    exact hσ.client_rank hmode hinbox
  | @syscall i hidle =>
    have hclient : agentRank σ (.client i) = 14 := if_pos hidle
    have hcpu : agentRank σ (.cpu i) = 15 := by
      refine if_neg ?_
      rintro ⟨hmode, hinbox⟩
      -- the client of a CPU in INIT_PROC is not idle
      simp only [Client.idle, Bool.and_eq_true, List.isEmpty_iff] at hidle
      rcases hσ.confirms i hmode with hin | hqueue | ⟨-, hsends⟩
      · rw [hinbox] at hin
        exact absurd hin (List.not_mem_nil)
      · rw [hidle.2] at hqueue
        exact absurd hqueue (List.not_mem_nil)
      · cases htask : (σ.clients i).thread.task with
        | done =>
          rw [htask] at hsends
          exact absurd hsends (by simp [Task.Sends])
        | _ => simp [htask, Task.isDone] at hidle
    rw [hclient, hcpu]
    decide

theorem Inv.deadlockFree (hσ : Inv σ) : DeadlockFree σ :=
  not_transGen_of_rank (agentRank σ) fun _ _ h => hσ.waits_rank h

end Cycle

/-! ## 8. One step -/

section Step

variable {σ σ' : State} {r : TaskOut Sem Question Message Job}

theorem collect_cpu (cpus : Nat → Cpu) (m : Message) (i : Nat) :
    (collect cpus m i).mode = (cpus i).mode ∧ (collect cpus m i).inbox = (cpus i).inbox := by
  cases m with
  | context cpu =>
    by_cases hi : i = cpu
    · subst hi
      simp [collect]
    · simp [collect, hi]
  | _ => exact ⟨rfl, rfl⟩

theorem deliver_cpu (cpus : Nat → Cpu) (m : Message) (i : Nat) :
    (deliver cpus m i).mode = (cpus i).mode ∧
      ∀ p ∈ (cpus i).inbox, p ∈ (deliver cpus m i).inbox := by
  cases m with
  | context cpu => exact ⟨rfl, fun _ h => h⟩
  | interrupt cpu =>
    by_cases hi : i = cpu
    · subst hi
      simp [deliver]
    · simp [deliver, hi]
  | dispatch cpu =>
    by_cases hi : i = cpu
    · subst hi
      simp +contextual [deliver]
    · simp [deliver, hi]
  | confirmation cpu =>
    by_cases hi : i = cpu
    · subst hi
      simp +contextual [deliver]
    · simp [deliver, hi]

/-- A thread does not change what a CPU does, and takes nothing from its dispatch socket. -/
theorem cpusAfter_cpu (cpus : Nat → Cpu) (r : TaskOut Sem Question Message Job) (i : Nat) :
    (cpusAfter cpus r i).mode = (cpus i).mode ∧
      ∀ p ∈ (cpus i).inbox, p ∈ (cpusAfter cpus r i).inbox := by
  have hcollect : ((r.received.elim cpus (collect cpus)) i).mode = (cpus i).mode ∧
      ((r.received.elim cpus (collect cpus)) i).inbox = (cpus i).inbox := by
    cases r.received with
    | none => exact ⟨rfl, rfl⟩
    | some m => exact collect_cpu cpus m i
  unfold cpusAfter
  cases r.sent with
  | none => exact ⟨hcollect.1, fun p hp => hcollect.2.symm ▸ hp⟩
  | some m =>
    obtain ⟨hmode, hinbox⟩ := deliver_cpu (r.received.elim cpus (collect cpus)) m i
    exact ⟨hmode.trans hcollect.1, fun p hp => hinbox p (hcollect.2.symm ▸ hp)⟩

/-- A CONFIRMATION arrives. -/
theorem cpusAfter_confirmation (cpus : Nat → Cpu) {i : Nat} (h : r.sent = some (.confirmation i)) :
    Package.confirmation ∈ (cpusAfter cpus r i).inbox := by
  simp [cpusAfter, h, deliver]

theorem startedBy_ordered (r : TaskOut Sem Question Message Job) :
    ∀ t ∈ startedBy r, t.task.Ordered rank t.held := by
  intro t ht
  obtain ⟨job, -, rfl⟩ := List.mem_map.mp ht
  exact job_ordered job

/-- A step of a thread that is no client. -/
theorem inv_worker {k number : Nat} {answer : Bool} (hσ : Inv σ)
    (h : step σ (.worker k answer number) = some σ') : Inv σ' := by
  obtain ⟨t, hget, h⟩ := Option.bind_eq_some_iff.mp h
  obtain ⟨r, hstep, rfl⟩ := Option.map_eq_some_iff.mp h
  refine ⟨?_, hσ.clients, hσ.late, ?_, ?_⟩
  · intro u hu
    rcases List.mem_append.mp hu with hu | hu
    · rcases List.mem_or_eq_of_mem_set hu with hu | rfl
      · exact hσ.workers u hu
      · exact (hσ.workers t (List.mem_of_getElem? hget)).step hstep
    · exact startedBy_ordered r u hu
  · intro i hmode
    exact hσ.quick i ((cpusAfter_cpu σ.cpus r i).1 ▸ hmode)
  · intro i hmode
    rcases hσ.confirms i ((cpusAfter_cpu σ.cpus r i).1 ▸ hmode) with hin | hrest
    · exact Or.inl ((cpusAfter_cpu σ.cpus r i).2 _ hin)
    · exact Or.inr hrest

/-- A client takes the next syscall from its socket. -/
theorem inv_next {i number : Nat} {answer : Bool} (hσ : Inv σ)
    (hdone : (σ.clients i).thread.task.isDone = true)
    (h : step σ (.client i answer number) = some σ') : Inv σ' := by
  simp only [step, hdone, ↓reduceIte] at h
  split at h
  · exact absurd h (by simp)
  · rename_i s rest hqueue
    obtain rfl := Option.some.inj h
    -- a client that has ended holds nothing
    have hheld : (σ.clients i).thread.held = [] := by
      have hordered := hσ.clients i
      cases htask : (σ.clients i).thread.task with
      | done =>
        rw [htask] at hordered
        exact hordered
      | _ => simp [htask, Task.isDone] at hdone
    refine ⟨hσ.workers, ?_, ?_, ?_, ?_⟩
    · intro j
      by_cases hj : j = i
      · subst hj
        simpa [hheld] using syscall_ordered s j
      · simpa [hj] using hσ.clients j
    · intro j hquick
      by_cases hj : j = i
      · subst hj
        simp only [Function.update_self] at hquick ⊢
        exact syscall_late (hquick s rfl) j
      · simp only [Function.update_of_ne hj] at hquick ⊢
        exact hσ.late j hquick
    · intro j hmode u hu
      by_cases hj : j = i
      · subst hj
        refine hσ.quick j hmode u ?_
        simp only [Client.busy, hdone, ↓reduceIte, hqueue]
        simp only [Function.update_self, Client.busy] at hu
        split at hu
        · exact List.mem_cons_of_mem _ hu
        · simpa using hu
      · simp only [Function.update_of_ne hj] at hu
        exact hσ.quick j hmode u hu
    · intro j hmode
      by_cases hj : j = i
      · subst hj
        simp only [Function.update_self]
        rcases hσ.confirms j hmode with hin | hin | ⟨-, hsends⟩
        · exact Or.inl hin
        · rw [hqueue] at hin
          rcases List.mem_cons.mp hin with rfl | hin
          · exact Or.inr (Or.inr ⟨rfl, initProc_sends j⟩)
          · exact Or.inr (Or.inl hin)
        · cases htask : (σ.clients j).thread.task with
          | done =>
            rw [htask] at hsends
            exact absurd hsends (by simp [Task.Sends])
          | _ => simp [htask, Task.isDone] at hdone
      · simp only [Function.update_of_ne hj]
        exact hσ.confirms j hmode

/-- A client goes on with its syscall. -/
theorem inv_serve {i number : Nat} {answer : Bool} (hσ : Inv σ)
    (hdone : (σ.clients i).thread.task.isDone = false)
    (hc : prompt σ (.client i answer number) = true)
    (h : step σ (.client i answer number) = some σ') : Inv σ' := by
  simp only [step, hdone, Bool.false_eq_true, ↓reduceIte] at h
  obtain ⟨r, hstep, rfl⟩ := Option.map_eq_some_iff.mp h
  have hmode : ∀ j, (cpusAfter σ.cpus r j).mode = (σ.cpus j).mode :=
    fun j => (cpusAfter_cpu σ.cpus r j).1
  refine ⟨?_, ?_, ?_, ?_, ?_⟩
  · intro u hu
    rcases List.mem_append.mp hu with hu | hu
    · exact hσ.workers u hu
    · exact startedBy_ordered r u hu
  · intro j
    by_cases hj : j = i
    · subst hj
      simpa using (hσ.clients j).step hstep
    · simpa [hj] using hσ.clients j
  · intro j hquick
    by_cases hj : j = i
    · subst hj
      simp only [Function.update_self] at hquick ⊢
      exact (hσ.late j hquick).step hstep
    · simp only [Function.update_of_ne hj] at hquick ⊢
      exact hσ.late j hquick
  · intro j hawait u hu
    refine hσ.quick j ((hmode j).symm.trans hawait) u ?_
    by_cases hj : j = i
    · subst hj
      simp only [Client.busy, hdone, Bool.false_eq_true, ↓reduceIte]
      simp only [Function.update_self, Client.busy] at hu
      split at hu
      · exact List.mem_append_right _ hu
      · exact hu
    · simpa [Function.update_of_ne hj] using hu
  · intro j hawait
    rcases hσ.confirms j ((hmode j).symm.trans hawait) with hin | hin | ⟨hcurrent, hsends⟩
    · exact Or.inl ((cpusAfter_cpu σ.cpus r j).2 _ hin)
    · refine Or.inr (Or.inl ?_)
      by_cases hj : j = i
      · subst hj
        simpa using hin
      · simpa [Function.update_of_ne hj] using hin
    · by_cases hj : j = i
      · subst hj
        have hanswer : ∀ q next, (σ.clients j).thread.task = .ask q next → CallerFound q answer := by
          rintro q next htask rfl
          simpa [prompt, hcurrent, htask] using hc
        rcases hsends.step hanswer hstep with hsent | hlater
        · exact Or.inl (cpusAfter_confirmation σ.cpus hsent)
        · exact Or.inr (Or.inr (by simpa [hcurrent] using hlater))
      · exact Or.inr (Or.inr (by simpa [Function.update_of_ne hj] using ⟨hcurrent, hsends⟩))

/-- A CPU that is in INIT_PROC after a step has just sent it. -/
theorem cpu_awaiting {c c' : Cpu} {action : Action} {s : Option Syscall}
    (h : c.step action = some (c', s)) (hawait : c'.mode = .awaiting) :
    ∃ same, action = .syscall .initProc same ∧ s = some .initProc := by
  have hanswer : ∀ (c : Cpu) (same : Bool), (c.answer same).mode = .idle := fun _ _ => rfl
  have hcheck : ∀ (c : Cpu) (same : Bool), (c.check same).mode ≠ .awaiting := by
    intro c same
    unfold Cpu.check
    split
    · simp
    · simp [hanswer]
  cases action with
  | receive same =>
    simp only [Cpu.step] at h
    split at h
    · obtain ⟨rfl, -⟩ := Prod.mk.inj (Option.some.inj h)
      exact absurd hawait (by simp)
    · obtain ⟨rfl, -⟩ := Prod.mk.inj (Option.some.inj h)
      exact absurd hawait (hcheck _ _)
    · obtain ⟨rfl, -⟩ := Prod.mk.inj (Option.some.inj h)
      exact absurd hawait (by simp [hanswer])
    · exact absurd h (by simp)
  | instruction same =>
    simp only [Cpu.step, Option.ite_none_right_eq_some, Option.some.injEq, Prod.mk.injEq] at h
    obtain ⟨-, rfl, -⟩ := h
    exact absurd hawait (hcheck _ _)
  | syscall u same =>
    simp only [Cpu.step, Option.ite_none_right_eq_some, Option.some.injEq, Prod.mk.injEq] at h
    obtain ⟨-, rfl, rfl⟩ := h
    by_cases hu : u = .initProc
    · subst hu
      exact ⟨same, rfl, rfl⟩
    · rw [if_neg hu, hanswer] at hawait
      exact absurd hawait (by simp)
  | listen same =>
    simp only [Cpu.step, Option.ite_none_right_eq_some, Option.some.injEq, Prod.mk.injEq] at h
    obtain ⟨-, rfl, -⟩ := h
    exact absurd hawait (by simp [hanswer])
  | fault =>
    simp only [Cpu.step, Option.ite_none_right_eq_some, Option.some.injEq, Prod.mk.injEq] at h
    obtain ⟨-, rfl, -⟩ := h
    exact absurd hawait (by simp)

/-- The thread and the syscall that a client is serving stay when another one arrives. -/
theorem enqueue_client (clients : Nat → Client) (i j : Nat) (s : Option Syscall) :
    ((s.elim clients (enqueue clients i)) j).thread = (clients j).thread ∧
      ((s.elim clients (enqueue clients i)) j).current = (clients j).current := by
  cases s with
  | none => exact ⟨rfl, rfl⟩
  | some s =>
    by_cases hj : j = i
    · subst hj
      simp [enqueue]
    · simp [enqueue, hj]

/-- A step of a CPU. -/
theorem inv_cpu {i : Nat} {action : Action} (hσ : Inv σ) (hc : prompt σ (.cpu i action) = true)
    (h : step σ (.cpu i action) = some σ') : Inv σ' := by
  obtain ⟨⟨c', s⟩, hstep, rfl⟩ := Option.map_eq_some_iff.mp h
  have hclient := enqueue_client σ.clients i
  refine ⟨hσ.workers, ?_, ?_, ?_, ?_⟩
  · intro j
    simpa [(hclient j s).1] using hσ.clients j
  · intro j hquick
    simpa [(hclient j s).1] using hσ.late j (by simpa [(hclient j s).2] using hquick)
  · intro j hmode u hu
    by_cases hj : j = i
    · subst hj
      -- INIT_PROC is sent to a client inside quick handlers
      simp only [Function.update_self] at hmode
      obtain ⟨same, rfl, rfl⟩ := cpu_awaiting hstep hmode
      have hbusy : ∀ v ∈ (σ.clients j).busy, v.quick = true := by
        simpa [prompt, List.all_eq_true] using hc
      simp only [Option.elim_some, enqueue, Function.update_self, Client.busy] at hu hbusy
      split at hu
      · rename_i hdone
        simp only [hdone, ↓reduceIte] at hbusy
        rcases List.mem_append.mp hu with hu | hu
        · exact hbusy u hu
        · rw [List.mem_singleton.mp hu]
          rfl
      · rename_i hdone
        simp only [hdone] at hbusy
        rw [← List.append_assoc] at hu
        rcases List.mem_append.mp hu with hu | hu
        · exact hbusy u hu
        · rw [List.mem_singleton.mp hu]
          rfl
    · simp only [Function.update_of_ne hj] at hmode
      refine hσ.quick j hmode u ?_
      cases s with
      | none => exact hu
      | some s => simpa [enqueue, Function.update_of_ne hj] using hu
  · intro j hmode
    by_cases hj : j = i
    · subst hj
      simp only [Function.update_self] at hmode
      obtain ⟨same, rfl, rfl⟩ := cpu_awaiting hstep hmode
      exact Or.inr (Or.inl (by simp [enqueue]))
    · simp only [Function.update_of_ne hj] at hmode ⊢
      cases s with
      | none => exact hσ.confirms j hmode
      | some s => simpa [enqueue, Function.update_of_ne hj] using hσ.confirms j hmode

end Step

/-! ## 9. Whole runs -/

theorem inv_step {σ σ' : State} {e : Event} (hσ : Inv σ) (hc : prompt σ e = true)
    (h : step σ e = some σ') : Inv σ' := by
  cases e with
  | message job =>
    simp only [step, Option.ite_none_right_eq_some, Option.some.injEq] at h
    obtain ⟨-, rfl⟩ := h
    refine ⟨?_, hσ.clients, hσ.late, hσ.quick, hσ.confirms⟩
    intro t ht
    rcases List.mem_append.mp ht with ht | ht
    · exact hσ.workers t ht
    · rw [List.mem_singleton.mp ht]
      exact job_ordered job
  | worker k answer number => exact inv_worker hσ h
  | client i answer number =>
    cases hdone : (σ.clients i).thread.task.isDone with
    | true => exact inv_next hσ hdone h
    | false => exact inv_serve hσ hdone hc h
  | cpu i action => exact inv_cpu hσ hc h

/-- **Nobody waits in a cycle, in any state of any run in which a CPU sends INIT_PROC only to a client
that is not inside an IO or a DUMP_MEMORY, and every INIT_PROC finds its caller in EXEC.** -/
theorem deadlockFree_of_prompt {tr : List (Transition State Event)} {σ : State}
    (hr : kernelAndCpus.Run tr σ) (hc : ∀ x ∈ tr, prompt x.src x.label = true) :
    DeadlockFree σ ∧ ∀ x ∈ tr, DeadlockFree x.src := by
  have h0 : ∀ s, kernelAndCpus.init s → Inv s := by
    rintro s rfl
    exact inv_start
  have hstep : ∀ s e s', Inv s → prompt s e = true → kernelAndCpus.step s e s' → Inv s' :=
    fun s e s' hs hc hst => inv_step hs hc hst
  refine ⟨(hr.invariant h0 hstep hc).deadlockFree, ?_⟩
  intro x hx
  exact (hr.invariant_steps h0 hstep hc x hx).1.deadlockFree

/-- Steps of a thread and of a client whose questions are all answered with yes, on CPU 0. -/
def worker (k n : Nat) : List Event := List.replicate n (.worker k true 0)

def client (n : Nat) : List Event := List.replicate n (.client 0 true 0)

/-- The root process is dispatched, creates a process, and goes on; the thread of `process_schedulers`
has run the long-term scheduler. -/
def created : List Event :=
  worker 0 23 ++ [.cpu 0 (.receive true), .cpu 0 (.syscall .initProc true)] ++ client 8 ++
    [.cpu 0 (.receive true)] ++ worker 1 8

/-- The theorem at work: the short-term scheduler waits for the CPU, and the CPU for its client, which
has the INIT_PROC on its socket. -/
theorem deadlockFree_of_prompt_waiting :
    ∃ tr σ, kernelAndCpus.Run tr σ ∧ Waits σ (.worker 1) (.cpu 0) ∧ Waits σ (.cpu 0) (.client 0) ∧
      DeadlockFree σ := by
  obtain ⟨tr, σ, hrun, htest⟩ := Lts.exists_run_of_drive State.start step
    (created ++ worker 1 5 ++ [.worker 1 false 0] ++ worker 1 3 ++
      [.cpu 0 (.syscall .initProc true)] ++ worker 1 2)
    (fun tr σ => decide ((σ.workers[1]?).map (stuckOn σ) = some (some (.inr (.context 0)))) &&
      decide ((σ.cpus 0).mode = .awaiting) && decide ((σ.cpus 0).inbox = []) &&
      tr.all fun x => prompt x.src x.label)
    (by decide +kernel)
  simp only [Bool.and_eq_true, decide_eq_true_eq, List.all_eq_true] at htest
  obtain ⟨⟨⟨hstuck, hmode⟩, hinbox⟩, hc⟩ := htest
  obtain ⟨t, ht, hx⟩ := Option.map_eq_some_iff.mp hstuck
  exact ⟨tr, σ, hrun, .context (a := .worker 1) ht hx, .confirmation hmode hinbox,
    (deadlockFree_of_prompt hrun hc).1⟩

/-- A scheduler that waits for the context of process 0 from CPU 0. -/
def isShortWait : Kernel.Thread → Bool
  | .shortWait .plain cpu pid => decide (cpu = 0 ∧ pid = 0)
  | _ => false

theorem eq_of_isShortWait {t : Kernel.Thread} (h : isShortWait t = true) :
    t = .shortWait .plain 0 0 := by
  unfold isShortWait at h
  split at h
  · obtain ⟨rfl, rfl⟩ := of_decide_eq_true h
    rfl
  · exact absurd h (by simp)

/-- Without the condition there is a cycle of two.  The root process dumps its memory, and its CPU gets
process 1; process 1 executes INIT_PROC while the client is still waiting for memoria.  The client puts
the root process into READY, runs the short-term scheduler, interrupts process 1, and waits for a CPU
that waits for it.  The lists and the marks of the kernel allow it: process 1 is in EXEC and the root
process in READY when the answer to the INTERRUPT is waited for. -/
theorem not_deadlockFree_dump :
    (¬ ∀ (tr : List (Transition State Event)) (σ : State), kernelAndCpus.Run tr σ →
      DeadlockFree σ) ∧
    ∃ tr s, (kernel oneCpuSrt).Run tr s ∧ s.queue .exec = [1] ∧ s.queue .ready = [0] ∧
      currentOn s 0 = some 1 ∧ Thread.shortWait .plain 0 0 ∈ s.threads := by
  constructor
  · intro hall
    obtain ⟨tr, σ, hrun, htest⟩ := Lts.exists_run_of_drive State.start step
      (created ++ [.cpu 0 (.syscall .dump true)] ++ client 6 ++ worker 1 12 ++
        [.cpu 0 (.receive true), .cpu 0 (.syscall .initProc true)] ++ client 10 ++
        [.client 0 false 0] ++ client 5)
      (fun _ σ => decide (stuckOn σ (σ.clients 0).thread = some (.inr (.context 0))) &&
        decide ((σ.cpus 0).mode = .awaiting) && decide ((σ.cpus 0).inbox = []))
      (by decide +kernel)
    simp only [Bool.and_eq_true, decide_eq_true_eq] at htest
    obtain ⟨⟨hstuck, hmode⟩, hinbox⟩ := htest
    refine hall tr σ hrun (.client 0) ?_
    exact .tail (.single (.context (a := .client 0) rfl hstuck)) (.confirmation hmode hinbox)
  · obtain ⟨tr, s, hrun, htest⟩ := Lts.exists_run_of_drive (Kernel.State.start oneCpuSrt)
      (Kernel.step oneCpuSrt)
      (boot ++ [.arrive (.initProc 0 1 16)] ++ List.replicate 7 (.run 0 {}) ++
        [.arrive (.dump 0 2), .run 1 {}, .run 0 {}, .run 1 {}, .run 0 {}, .run 0 {},
          .run 0 { preempt := true }])
      (fun _ s => decide (s.queue .exec = [1]) && decide (s.queue .ready = [0]) &&
        decide (currentOn s 0 = some 1) && s.threads.any isShortWait) (by decide +kernel)
    simp only [Bool.and_eq_true, decide_eq_true_eq, List.any_eq_true] at htest
    obtain ⟨⟨⟨hexec, hready⟩, hcpu⟩, t, ht, hwait⟩ := htest
    exact ⟨tr, s, hrun, hexec, hready, hcpu, eq_of_isShortWait hwait ▸ ht⟩

end Tpso.Deadlock
