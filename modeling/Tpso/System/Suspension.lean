/-
# The kernel and memoria agree on who is suspended

The kernel's lists say which processes may run, memoria's records say which are in memory.  The two
are kept in step by messages: a thread of the kernel sends SWAP, UNSUSPEND_PROCESS, INIT_PROCESS or
KILL_PROCESS over a connection of its own and waits; memoria serves the connections in any order.

`run_medium_scheduler` puts a process into SUSP_BLOCKED BEFORE it sends the SWAP.  While the SWAP is
on its way an IO completion can move the process on to SUSP_READY, and `run_long_scheduler` then asks
for its return: `swap_in_process` answers true, since the process is not suspended yet, and the
process is in READY with a SWAP still to be served.  When no UNSUSPEND_PROCESS overtakes a suspension
in this way, and no dump overtakes a timer, kernel and memoria agree (`agreed_of_settled`).

INIT_PROCESS and KILL_PROCESS are sent and answered within one section: the kernel keeps its locks until the
answer is there.  `kill_process_in_memory` follows a null pointer when memoria closes the connection instead
of answering; that crash is left out.
-/
import Tpso.Kernel.Moves
import Tpso.Memoria.Steps

namespace Tpso.System

open Tpso.Lib Tpso.Kernel

/-! ## 1. The two modules together -/

/-- The configurations of the two modules. -/
structure Config where
  kernel : Kernel.Config
  memoria : Memoria.Config

/-- The states of the two modules.  A request is in flight while a thread of the kernel stands at the
point where it waits for the answer. -/
structure State where
  kernel : Kernel.State
  memoria : Memoria.State

/-- What memoria's environment decides while a request is served: the swap file, the script and what
`malloc` returns. -/
structure Service where
  written : Nat → Nat := fun _ => 0
  avail : Nat → Nat := fun _ => 0
  file : Option (List String) := some []
  left : Memoria.Leftover := ⟨true, true⟩

/-- `exit_routine` asks memoria to kill the process. -/
def killOf (pid : Nat) : Option Memoria.Request := some (.killProcess pid)

/-- The request that the next section of a thread has memoria serve. -/
def requestOf (k : Kernel.State) (ch : Choice) (sv : Service) : Thread → Option Memoria.Request
  | .mediumSent pid => some (.swap pid sv.written)
  | .longUnsuspend pid _ _ => some (.unsuspendProcess pid sv.avail)
  | .longCreate pid _ _ => some (.initProcess pid (k.pcbs pid).size sv.file sv.left)
  | .exit pid => if findPcbIn .exec pid k then killOf pid else none
  | .io pid _ _ deviceName =>
    match getIoConnectionStatusByDeviceName k deviceName with
    | none => if findPcbIn .exec pid k then killOf pid else none
    | some _ => none
  | .dumpWait pid => if ch.answer then none else killOf pid
  | .ioDisconnected socket =>
    match findIoConnectionBySocket k socket with
    | none => none
    | some connection =>
      match connection.currentProcessExecuting with
      | none => none
      | some pid => if findPcbIn .blocked pid k then killOf pid else none
  | .disconnectSusp _ pid => if findPcbIn .suspBlocked pid k then killOf pid else none
  | _ => none

/-- Whether a thread goes on by what memoria answers to its request. -/
def awaitsReply : Thread → Bool
  | .mediumSent _ | .longUnsuspend _ _ _ | .longCreate _ _ _ => true
  | _ => false

/-- A step of the whole: a message reaches the kernel; a thread of the kernel runs a section, and
memoria serves the request it makes there; a CPU reads or writes memory. -/
inductive Event where
  | arrive (handler : Thread)
  | run (i : Nat) (choice : Choice) (service : Service)
  | access (request : Memoria.Request)

/-- The request of thread `t` served: memoria's next state, and the choices with its answer among
them. -/
def serve (cfg : Config) (s : State) (ch : Choice) (sv : Service) (t : Thread) :
    Option (Memoria.State × Choice) :=
  match requestOf s.kernel ch sv t with
  | none => some (s.memoria, ch)
  | some r =>
    (Memoria.handle cfg.memoria s.memoria r).map fun x =>
      (x.1, if awaitsReply t then { ch with answer := x.2.confirmed } else ch)

/-- One step of the whole. -/
def step (cfg : Config) (s : State) : Event → Option State
  | .arrive handler =>
    (Kernel.step cfg.kernel s.kernel (.arrive handler)).map fun k => { s with kernel := k }
  | .run i ch sv =>
    (s.kernel.threads[i]?).bind fun t =>
      (serve cfg s ch sv t).bind fun x =>
        (Kernel.step cfg.kernel s.kernel (.run i x.2)).map fun k => ⟨k, x.1⟩
  | .access r =>
    if r.pid? = none then
      (Memoria.handle cfg.memoria s.memoria r).map fun x => { s with memoria := x.1 }
    else none

/-- Both modules as their `main` leaves them. -/
def State.start (cfg : Config) : State := ⟨.start cfg.kernel, .start cfg.memoria⟩

/-- Kernel and memoria as a transition system. -/
def system (cfg : Config) : Lts State Event := Lts.ofStep (State.start cfg) (step cfg)

/-! ## 2. The property and the condition -/

/-- **Agreement on suspension.**  A process of positive size in READY or EXEC has a record in memoria
that is not suspended, and no SWAP for it is in flight. -/
def Agreed (s : State) : Prop :=
  ∀ pid, pid ∈ s.kernel.queue .ready ∨ pid ∈ s.kernel.queue .exec → 0 < (s.kernel.pcbs pid).size →
    Memoria.Loaded s.memoria pid ∧ Thread.mediumSent pid ∉ s.kernel.threads

/-- The processes whose suspension is under way. -/
def suspending (k : Kernel.State) : List Nat := k.threads.filterMap Thread.suspends

/-- The condition on one step: UNSUSPEND_PROCESS is served only when no suspension of the process is
under way, and the second section of `dump_memory_syscall` finds its PCB in BLOCKED. -/
def settled (s : State) : Event → Bool
  | .run i ch _ =>
    dumpInPlace s.kernel (.run i ch) &&
      match s.kernel.threads[i]? with
      | some (.longUnsuspend pid _ _) => !decide (pid ∈ suspending s.kernel)
      | _ => true
  | _ => true

/-! ## 3. What a section changes for one process -/

/-- The lists of processes that are in memory. -/
def inMemory : ProcessState → Bool
  | .ready | .exec | .blocked => true
  | _ => false

/-- A process that memoria must have loaded: it is on a list of processes in memory, on its way to one,
or memoria has just confirmed its return. -/
def Resident (k : Kernel.State) (pid : Nat) : Prop :=
  (∃ st, inMemory st = true ∧ pid ∈ k.queue st) ∨ pid ∈ k.transit ∨
    ∃ caller moved, Thread.longAnswered pid true caller moved ∈ k.threads

/-- A section that makes a process resident: the rollback of a suspension, or an answer of memoria. -/
inductive Enters (k : Kernel.State) (ch : Choice) : Thread → Nat → Prop
  | unsent {pid : Nat} : ch.connected = false → pid ∈ k.queue .suspBlocked →
      Enters k ch (.mediumSwap pid) pid
  | failed {pid : Nat} : pid ∈ k.queue .suspBlocked → Enters k ch (.mediumAnswered pid false) pid
  | unsuspended {pid : Nat} {caller : LongCaller} {moved : Bool} : ch.answer = true →
      Enters k ch (.longUnsuspend pid caller moved) pid
  | admitted {pid : Nat} {caller : LongCaller} {moved : Bool} : ch.answer = true →
      pid ∈ k.queue .new → Enters k ch (.longCreate pid caller moved) pid

/-- The kernel after thread `t` has run a section beside `others`. -/
def after (cfg : Kernel.Config) (k : Kernel.State) (ch : Choice) (t : Thread)
    (others : List Thread) : Kernel.State :=
  { (nextSection cfg k ch t).1 with threads := others ++ (nextSection cfg k ch t).2 }

section Section

variable {cfg : Kernel.Config} {k : Kernel.State} {ch : Choice} {t : Thread} {others : List Thread}
  {pid : Nat}

/-- A process arrives on a list of processes in memory from another such list, by a rollback, or from
NEW. -/
theorem resident_of_queue (hplace : InPlace k t) {st : ProcessState} (hst : inMemory st = true)
    (h : pid ∈ (nextSection cfg k ch t).1.queue st) :
    (∃ a, inMemory a = true ∧ pid ∈ k.queue a) ∨ pid ∈ t.transit ∨ Enters k ch t pid := by
  rcases mem_queue_after hplace h with hold | ⟨a, ha, hmove⟩ | ⟨rfl, -⟩ | ⟨-, hput⟩
  · exact Or.inl ⟨st, hst, hold⟩
  · cases hmove with
    | legal hlegal =>
      cases hlegal with
      | ioBlock => exact Or.inl ⟨_, rfl, ha⟩
      | dumpBlock => exact Or.inl ⟨_, rfl, ha⟩
      | complete => exact Or.inl ⟨_, rfl, ha⟩
      | rollbackUnsent =>
        cases hcon : ch.connected with
        | true => exact Or.inl ⟨.blocked, rfl, by simpa [nextSection, hcon] using h⟩
        | false => exact Or.inr (Or.inr (.unsent hcon ha))
      | rollback => exact Or.inr (Or.inr (.failed ha))
      | @admitted _ caller moved =>
        cases hans : ch.answer with
        | true => exact Or.inr (Or.inr (.admitted hans ha))
        | false =>
          have hsame := longReturn_same k caller moved
          refine Or.inl ⟨.ready, rfl, ?_⟩
          simpa [nextSection, longCreate, hans, hsame.1.queue] using h
      | _ => simp [inMemory] at hst
    | dumped _ => exact Or.inl ⟨_, rfl, ha⟩
    | dumpFailed _ => simp [inMemory] at hst
    | dispatch _ => exact Or.inl ⟨_, rfl, ha⟩
    | preempt _ _ => exact Or.inl ⟨_, rfl, ha⟩
  · simp [inMemory] at hst
  · exact Or.inr (Or.inl hput)

/-- What is in the hands of the threads that continue a section was on SUSP_READY, and memoria had
confirmed its return. -/
theorem transit_new {u : Thread} (hu : u ∈ (nextSection cfg k ch t).2) (h : pid ∈ u.transit) :
    ∃ caller moved, t = .longAnswered pid true caller moved := by
  cases hhands : t.handsOn with
  | false =>
    rw [(nextSection_idle cfg k ch hhands u hu).2.2] at h
    exact absurd h (List.not_mem_nil)
  | true =>
    have hspecial : t.isSpecial = false := by
      cases t with
      | medium _ => rfl
      | mediumSwap _ => rfl
      | mediumSent _ => rfl
      | longScan _ _ => rfl
      | longUnsuspend _ _ _ => rfl
      | longAnswered _ _ _ _ => rfl
      | longNew _ _ => rfl
      | _ => simp [Thread.handsOn] at hhands
    have he := nextSection_effect cfg k ch hspecial
    have hmem : pid ∈ (nextSection cfg k ch t).2.flatMap Thread.transit :=
      List.mem_flatMap.mpr ⟨u, hu, h⟩
    unfold HasEffect at he
    generalize (nextSection cfg k ch t).2.flatMap Thread.transit = held' at he hmem
    generalize t.transit = held at he
    cases he with
    | @take _ caller moved _ ht _ _ =>
      obtain rfl := List.mem_singleton.mp hmem
      exact ⟨caller, moved, ht⟩
    | _ => exact absurd hmem (List.not_mem_nil)

/-- The answer to UNSUSPEND_PROCESS is received by the thread that asked. -/
theorem answered_new {success : Bool} {caller : LongCaller} {moved : Bool}
    (hu : Thread.longAnswered pid success caller moved ∈ (nextSection cfg k ch t).2) :
    t = .longUnsuspend pid caller moved ∧ success = ch.answer := by
  cases hhands : t.handsOn with
  | false => exact absurd (nextSection_idle cfg k ch hhands _ hu).1 (by simp [Thread.picked])
  | true =>
    cases t with
    | medium q =>
      simp only [nextSection, runMediumScheduler] at hu
      grind
    | mediumSwap q =>
      simp only [nextSection] at hu
      grind
    | mediumSent q => simp [nextSection] at hu
    | longScan caller' moved' =>
      simp only [nextSection, longScan] at hu
      grind
    | longUnsuspend q caller' moved' =>
      simp only [nextSection, List.mem_singleton, Thread.longAnswered.injEq] at hu
      obtain ⟨rfl, rfl, rfl, rfl⟩ := hu
      exact ⟨rfl, rfl⟩
    | longAnswered q success' caller' moved' =>
      simp only [nextSection, longAnswered] at hu
      grind
    | longNew caller' moved' =>
      have hidle := fun s => longReturn_idle s caller' moved'
      simp only [nextSection, longNew] at hu
      grind [Thread.idle, Thread.picked]
    | _ => simp [Thread.handsOn] at hhands

/-- **A process that is resident after a section was so before, or the section brought it in.** -/
theorem resident_after (hplace : InPlace k t) (hperm : k.threads.Perm (t :: others))
    (h : Resident (after cfg k ch t others) pid) : Resident k pid ∨ Enters k ch t pid := by
  have hmem : ∀ {u}, u ∈ t :: others → u ∈ k.threads := fun hu => hperm.mem_iff.mpr hu
  rcases h with ⟨st, hst, hq⟩ | htr | ⟨caller, moved, hans⟩
  · rcases resident_of_queue hplace hst hq with hold | htr | henter
    · exact Or.inl (Or.inl hold)
    · exact Or.inl (Or.inr (Or.inl (List.mem_flatMap.mpr ⟨t, hmem List.mem_cons_self, htr⟩)))
    · exact Or.inr henter
  · obtain ⟨u, hu, hin⟩ := List.mem_flatMap.mp htr
    rcases List.mem_append.mp hu with hu | hu
    · exact Or.inl (Or.inr (Or.inl (List.mem_flatMap.mpr ⟨u, hmem (List.mem_cons_of_mem _ hu), hin⟩)))
    · obtain ⟨caller, moved, rfl⟩ := transit_new hu hin
      exact Or.inl (Or.inr (Or.inr ⟨caller, moved, hmem List.mem_cons_self⟩))
  · rcases List.mem_append.mp hans with hans | hans
    · exact Or.inl (Or.inr (Or.inr ⟨caller, moved, hmem (List.mem_cons_of_mem _ hans)⟩))
    · obtain ⟨rfl, hyes⟩ := answered_new hans
      exact Or.inr (.unsuspended hyes.symm)

/-- **The suspensions that a section starts or carries on.** -/
theorem suspends_new (cfg : Kernel.Config) (k : Kernel.State) (ch : Choice) (t : Thread) :
    (nextSection cfg k ch t).2.filterMap Thread.suspends = [] ∨
    ∃ pid, (nextSection cfg k ch t).2.filterMap Thread.suspends = [pid] ∧
      (t = .mediumSwap pid ∨ (t = .mediumSent pid ∧ ch.answer = false) ∨
        (t = .medium pid ∧ pid ∈ k.queue .blocked ∧ (k.pcbs pid).size ≠ 0 ∧
          pid ∈ (nextSection cfg k ch t).1.queue .suspBlocked)) := by
  -- threads that suspend nothing
  have hnil : (∀ u ∈ (nextSection cfg k ch t).2, u.suspends = none) →
      (nextSection cfg k ch t).2.filterMap Thread.suspends = [] :=
    fun h => List.filterMap_eq_nil_iff.mpr h
  cases hhands : t.handsOn with
  | false => exact Or.inl (hnil fun u hu => (nextSection_idle cfg k ch hhands u hu).2.1)
  | true =>
    cases t with
    | medium pid =>
      simp only [nextSection, runMediumScheduler]
      split
      · rename_i hfound
        split
        · split
          · rename_i hsize
            exact Or.inr ⟨pid, rfl, Or.inr (Or.inr ⟨rfl, mem_of_findPcbIn hfound, hsize,
              mem_movePcb_self⟩)⟩
          · exact Or.inl rfl
        · exact Or.inl rfl
      · exact Or.inl rfl
    | mediumSwap pid =>
      cases hcon : ch.connected with
      | true => exact Or.inr ⟨pid, by simp [nextSection, hcon, Thread.suspends], Or.inl rfl⟩
      | false => exact Or.inl (by simp [nextSection, hcon])
    | mediumSent pid =>
      cases hans : ch.answer with
      | true => exact Or.inl (by simp [nextSection, hans, Thread.suspends])
      | false =>
        exact Or.inr ⟨pid, by simp [nextSection, hans, Thread.suspends],
          Or.inr (Or.inl ⟨rfl, rfl⟩)⟩
    | longScan caller moved =>
      exact Or.inl (hnil (by simp only [nextSection, longScan]; grind [Thread.suspends]))
    | longUnsuspend pid caller moved =>
      exact Or.inl (by simp [nextSection, Thread.suspends])
    | longAnswered pid success caller moved =>
      exact Or.inl (hnil (by simp only [nextSection, longAnswered]; grind [Thread.suspends]))
    | longNew caller moved =>
      have hidle := fun s => longReturn_idle s caller moved
      exact Or.inl (hnil (by
        simp only [nextSection, longNew]
        grind [Thread.idle, Thread.suspends]))
    | _ => simp [Thread.handsOn] at hhands

/-- A process is suspended after a section if it was so before, or was in BLOCKED. -/
theorem suspended_after (hplace : InPlace k t) {st : ProcessState}
    (hst : st = .suspBlocked ∨ st = .suspReady) (h : pid ∈ (nextSection cfg k ch t).1.queue st) :
    pid ∈ k.queue .suspBlocked ∨ pid ∈ k.queue .suspReady ∨ pid ∈ k.queue .blocked := by
  rcases mem_queue_after hplace h with hold | ⟨a, ha, hmove⟩ | ⟨rfl, -⟩ | ⟨rfl, -⟩
  · rcases hst with rfl | rfl
    · exact Or.inl hold
    · exact Or.inr (Or.inl hold)
  · cases hmove with
    | legal hlegal =>
      cases hlegal with
      | completeSuspended => exact Or.inl ha
      | suspend => exact Or.inr (Or.inr ha)
      | _ => simp at hst
    | _ => simp at hst
  · simp at hst
  · simp at hst

/-- A process on NEW was there before or has just been created. -/
theorem new_after (hplace : InPlace k t) (h : pid ∈ (nextSection cfg k ch t).1.queue .new) :
    pid ∈ k.queue .new ∨ pid = k.newPid + 1 := by
  rcases mem_queue_after hplace h with hold | ⟨a, ha, hmove⟩ | ⟨-, heq⟩ | ⟨hst, -⟩
  · exact Or.inl hold
  · cases hmove with
    | legal hlegal => cases hlegal
  · exact Or.inr heq
  · exact absurd hst (by simp)

/-- **A KILL_PROCESS comes with the move of its PCB to EXIT.** -/
theorem mem_exit_of_kill (cfg : Kernel.Config) {sv : Service} {r : Memoria.Request} (h : requestOf k ch sv t = some r)
    (ht : awaitsReply t = false) :
    ∃ pid : Nat, r = .killProcess pid ∧ pid ∈ (nextSection cfg k ch t).1.queue .exit := by
  cases t with
  | exit pid =>
    simp only [requestOf, killOf, Option.ite_none_right_eq_some, Option.some.injEq] at h
    obtain ⟨hfound, rfl⟩ := h
    exact ⟨pid, rfl, by simp [nextSection, exitProcessSyscall, hfound, exitRoutine, addPcbTo]⟩
  | io pid pc sleepTime deviceName =>
    simp only [requestOf, killOf] at h
    split at h
    · rename_i hdevice
      simp only [Option.ite_none_right_eq_some, Option.some.injEq] at h
      obtain ⟨hfound, rfl⟩ := h
      exact ⟨pid, rfl, by simp [nextSection, handleIoProcessSyscall, hdevice, exitProcessSyscall,
        hfound, exitRoutine, addPcbTo]⟩
    · exact absurd h (by simp)
  | dumpWait pid =>
    simp only [requestOf, killOf, Option.ite_none_left_eq_some, Option.some.injEq] at h
    obtain ⟨hno, rfl⟩ := h
    exact ⟨pid, rfl, by simp [nextSection, dumpMemoryAnswered, hno, exitRoutine, addPcbTo]⟩
  | ioDisconnected socket =>
    simp only [requestOf, killOf] at h
    split at h
    · exact absurd h (by simp)
    · rename_i connection hcon
      split at h
      · exact absurd h (by simp)
      · rename_i pid hpid
        simp only [Option.ite_none_right_eq_some, Option.some.injEq] at h
        obtain ⟨hfound, rfl⟩ := h
        exact ⟨pid, rfl, by simp [nextSection, ioDisconnected, hcon, hpid, hfound, exitRoutine,
          addPcbTo, deleteIoConnection]⟩
  | disconnectSusp socket pid =>
    simp only [requestOf, killOf, Option.ite_none_right_eq_some, Option.some.injEq] at h
    obtain ⟨hfound, rfl⟩ := h
    exact ⟨pid, rfl, by simp [nextSection, handleFoundSuspended, hfound, exitRoutine, addPcbTo]⟩
  | mediumSent pid => simp [awaitsReply] at ht
  | longUnsuspend pid caller moved => simp [awaitsReply] at ht
  | longCreate pid caller moved => simp [awaitsReply] at ht
  | _ => simp [requestOf] at h

end Section

/-! ## 4. What a served request changes for one process -/

/-- **What memoria does during a section**: nothing, or it serves the one request the thread makes. -/
inductive Served (cfg : Config) (s : State) : Thread → Choice → Memoria.State → Prop
  | nothing {t : Thread} {ch : Choice} : awaitsReply t = false → Served cfg s t ch s.memoria
  | swap {pid : Nat} {ch : Choice} {written : Nat → Nat} {m : Memoria.State} {reply : Memoria.Reply} :
      Memoria.handle cfg.memoria s.memoria (.swap pid written) = some (m, reply) →
      ch.answer = reply.confirmed → Served cfg s (.mediumSent pid) ch m
  | unsuspend {pid : Nat} {caller : LongCaller} {moved : Bool} {ch : Choice} {avail : Nat → Nat}
      {m : Memoria.State} {reply : Memoria.Reply} :
      Memoria.handle cfg.memoria s.memoria (.unsuspendProcess pid avail) = some (m, reply) →
      ch.answer = reply.confirmed → Served cfg s (.longUnsuspend pid caller moved) ch m
  | init {pid : Nat} {caller : LongCaller} {moved : Bool} {ch : Choice} {size : Int}
      {file : Option (List String)} {left : Memoria.Leftover} {m : Memoria.State}
      {reply : Memoria.Reply} :
      Memoria.handle cfg.memoria s.memoria (.initProcess pid size file left) = some (m, reply) →
      ch.answer = reply.confirmed → Served cfg s (.longCreate pid caller moved) ch m
  | kill {t : Thread} {pid : Nat} {ch : Choice} {m : Memoria.State} {reply : Memoria.Reply} :
      awaitsReply t = false →
      Memoria.handle cfg.memoria s.memoria (.killProcess pid) = some (m, reply) →
      pid ∈ (nextSection cfg.kernel s.kernel ch t).1.queue .exit → Served cfg s t ch m

theorem served_of_serve {cfg : Config} {s : State} {ch ch' : Choice} {sv : Service} {t : Thread}
    {m : Memoria.State} (h : serve cfg s ch sv t = some (m, ch')) : Served cfg s t ch' m := by
  unfold serve at h
  cases hawait : awaitsReply t with
  | false =>
    split at h
    · simp only [Option.some.injEq, Prod.mk.injEq] at h
      obtain ⟨rfl, rfl⟩ := h
      exact .nothing hawait
    · rename_i r hr
      obtain ⟨pid, rfl, hexit⟩ := mem_exit_of_kill cfg.kernel hr hawait
      obtain ⟨⟨m1, reply⟩, hserved, heq⟩ := Option.map_eq_some_iff.mp h
      simp only [hawait, Bool.false_eq_true, ↓reduceIte, Prod.mk.injEq] at heq
      obtain ⟨rfl, rfl⟩ := heq
      exact .kill hawait hserved hexit
  | true =>
    cases t with
    | mediumSent pid =>
      obtain ⟨⟨m1, reply⟩, hserved, heq⟩ := Option.map_eq_some_iff.mp h
      obtain ⟨rfl, rfl⟩ := Prod.mk.inj heq
      exact .swap hserved rfl
    | longUnsuspend pid caller moved =>
      obtain ⟨⟨m1, reply⟩, hserved, heq⟩ := Option.map_eq_some_iff.mp h
      obtain ⟨rfl, rfl⟩ := Prod.mk.inj heq
      exact .unsuspend hserved rfl
    | longCreate pid caller moved =>
      obtain ⟨⟨m1, reply⟩, hserved, heq⟩ := Option.map_eq_some_iff.mp h
      obtain ⟨rfl, rfl⟩ := Prod.mk.inj heq
      exact .init hserved rfl
    | _ => simp [awaitsReply] at hawait

section Served

variable {cfg : Config} {s : State} {ch : Choice} {t : Thread} {m : Memoria.State} {q : Nat}

theorem pid?_ne {pid : Nat} {r : Memoria.Request} (hr : r.pid? = some (pid : Int)) (hne : q ≠ pid) :
    r.pid? ≠ some (q : Int) := by
  rw [hr]
  intro heq
  have : (pid : Int) = q := by simpa using heq
  exact hne (by omega)

theorem loaded_of_find {m m' : Memoria.State} {q : Int} (h : Memoria.Loaded m q)
    (heq : Memoria.processManagerFindProcess m'.processes q =
      Memoria.processManagerFindProcess m.processes q) : Memoria.Loaded m' q := by
  obtain ⟨p, hp, hres⟩ := h
  exact ⟨p, by rw [heq, hp], hres⟩

/-- A loaded process stays loaded, unless it is swapped out, created again or killed. -/
theorem Served.loaded (h : Served cfg s t ch m) (hl : Memoria.Loaded s.memoria q) :
    Memoria.Loaded m q ∨ (t = .mediumSent q ∧ ch.answer = true) ∨
      (∃ caller moved, t = .longCreate q caller moved) ∨
      q ∈ (nextSection cfg.kernel s.kernel ch t).1.queue .exit := by
  cases h with
  | nothing _ => exact Or.inl hl
  | @swap pid _ written _ reply hserved hans =>
    by_cases hq : q = pid
    · subst hq
      cases hreply : reply.confirmed with
      | true => exact Or.inr (Or.inl ⟨rfl, hans.trans hreply⟩)
      | false =>
        refine Or.inl (loaded_of_find hl ?_)
        rw [(Memoria.swap_record hserved).1 hreply]
    · exact Or.inl (loaded_of_find hl (Memoria.handle_find_of_ne hserved (pid?_ne rfl hq)))
  | @unsuspend pid caller moved _ avail _ reply hserved hans =>
    by_cases hq : q = pid
    · subst hq
      have hrecord := Memoria.unsuspend_record hserved
      cases hreply : reply.confirmed with
      | true => exact Or.inl (by simpa [hreply] using hrecord)
      | false =>
        refine Or.inl (loaded_of_find hl ?_)
        rw [show m.processes = s.memoria.processes by simpa [hreply] using hrecord]
    · exact Or.inl (loaded_of_find hl (Memoria.handle_find_of_ne hserved (pid?_ne rfl hq)))
  | @init pid caller moved _ size file left _ reply hserved hans =>
    by_cases hq : q = pid
    · subst hq
      exact Or.inr (Or.inr (Or.inl ⟨caller, moved, rfl⟩))
    · exact Or.inl (loaded_of_find hl (Memoria.handle_find_of_ne hserved (pid?_ne rfl hq)))
  | @kill _ pid _ _ reply _ hserved hexit =>
    by_cases hq : q = pid
    · subst hq
      exact Or.inr (Or.inr (Or.inr hexit))
    · exact Or.inl (loaded_of_find hl (Memoria.handle_find_of_ne hserved (pid?_ne rfl hq)))

/-- A process without a record gets one only when it is created. -/
theorem Served.unborn (h : Served cfg s t ch m)
    (hnone : Memoria.processManagerFindProcess s.memoria.processes q = none) :
    Memoria.processManagerFindProcess m.processes q = none ∨
      (∃ caller moved, t = .longUnsuspend q caller moved) ∨
      (∃ caller moved, t = .longCreate q caller moved ∧ ch.answer = true) ∨
      q ∈ (nextSection cfg.kernel s.kernel ch t).1.queue .exit := by
  cases h with
  | nothing _ => exact Or.inl hnone
  | @swap pid _ written _ reply hserved hans =>
    by_cases hq : q = pid
    · subst hq
      exact Or.inl ((Memoria.swap_record hserved).2 hnone)
    · exact Or.inl (by rwa [Memoria.handle_find_of_ne hserved (pid?_ne rfl hq)])
  | @unsuspend pid caller moved _ avail _ reply hserved hans =>
    by_cases hq : q = pid
    · subst hq
      exact Or.inr (Or.inl ⟨caller, moved, rfl⟩)
    · exact Or.inl (by rwa [Memoria.handle_find_of_ne hserved (pid?_ne rfl hq)])
  | @init pid caller moved _ size file left _ reply hserved hans =>
    by_cases hq : q = pid
    · subst hq
      have hrecord := Memoria.init_record hserved hnone
      cases hreply : reply.confirmed with
      | true =>
        exact Or.inr (Or.inr (Or.inl ⟨caller, moved, rfl, hans.trans hreply⟩))
      | false => exact Or.inl (by simpa [hreply] using hrecord)
    · exact Or.inl (by rwa [Memoria.handle_find_of_ne hserved (pid?_ne rfl hq)])
  | @kill _ pid _ _ reply _ hserved hexit =>
    by_cases hq : q = pid
    · subst hq
      exact Or.inr (Or.inr (Or.inr hexit))
    · exact Or.inl (by rwa [Memoria.handle_find_of_ne hserved (pid?_ne rfl hq)])

/-- After a confirmed UNSUSPEND_PROCESS the process is loaded. -/
theorem Served.unsuspended {caller : LongCaller} {moved : Bool}
    (h : Served cfg s (.longUnsuspend q caller moved) ch m) (hans : ch.answer = true) :
    Memoria.Loaded m q := by
  cases h with
  | nothing hno => simp [awaitsReply] at hno
  | unsuspend hserved hreply =>
    have hrecord := Memoria.unsuspend_record hserved
    rwa [← hreply, hans, if_pos rfl] at hrecord
  | kill hno _ _ => simp [awaitsReply] at hno

/-- After a confirmed INIT_PROCESS of a process without a record it is loaded. -/
theorem Served.admitted {caller : LongCaller} {moved : Bool}
    (h : Served cfg s (.longCreate q caller moved) ch m) (hans : ch.answer = true)
    (hnone : Memoria.processManagerFindProcess s.memoria.processes q = none) :
    Memoria.Loaded m q := by
  cases h with
  | nothing hno => simp [awaitsReply] at hno
  | init hserved hreply =>
    have hrecord := Memoria.init_record hserved hnone
    rwa [← hreply, hans, if_pos rfl] at hrecord
  | kill hno _ _ => simp [awaitsReply] at hno

end Served

/-! ## 5. The invariant -/

/-- What holds along a run.  Beside the invariants of the kernel: a resident process is loaded and its
suspension not under way; a process whose suspension is under way is loaded as long as it is on a
suspended list; no process is being suspended twice; and a process that was never admitted has no
record. -/
structure Inv (s : State) : Prop where
  lists : Kernel.Inv s.kernel
  picked : Picked s.kernel
  resident : ∀ pid, Resident s.kernel pid → (s.kernel.pcbs pid).size ≠ 0 →
    Memoria.Loaded s.memoria pid ∧ pid ∉ suspending s.kernel
  waiting : ∀ pid ∈ suspending s.kernel,
    pid ∈ s.kernel.queue .suspBlocked ∨ pid ∈ s.kernel.queue .suspReady →
    (s.kernel.pcbs pid).size ≠ 0 → Memoria.Loaded s.memoria pid
  distinct : (suspending s.kernel).Nodup
  unborn : ∀ pid, pid ∈ s.kernel.queue .new ∨ s.kernel.newPid < pid →
    Memoria.processManagerFindProcess s.memoria.processes pid = none ∧ pid ∉ suspending s.kernel

section Lists

variable {k : Kernel.State} {pid : Nat} {st : ProcessState}

/-- A process that is on a list of processes out of memory is not resident. -/
theorem not_resident (hk : Kernel.Inv k) (hpick : Picked k) (st : ProcessState)
    (h : pid ∈ k.queue st) (hout : inMemory st = false) (hst : st ≠ .suspReady) : ¬ Resident k pid := by
  rintro (⟨a, ha, hmem⟩ | htr | ⟨caller, moved, hans⟩)
  · obtain rfl := hk.tidy.unique h hmem
    simp [hout] at ha
  · exact hk.tidy.not_mem pid htr st h
  · exact hst (hk.tidy.unique h (hpick _ hans .suspReady pid rfl))

/-- A resident process exists. -/
theorem Resident.le (hk : Kernel.Inv k) (hpick : Picked k) (h : Resident k pid) :
    pid ≤ k.newPid := by
  rcases h with ⟨st, -, hmem⟩ | htr | ⟨caller, moved, hans⟩
  · exact Nat.lt_succ_iff.mp (hk.tidy.lt st pid hmem)
  · exact Nat.lt_succ_iff.mp (hk.tidy.out_lt pid htr)
  · exact Nat.lt_succ_iff.mp (hk.tidy.lt .suspReady pid (hpick _ hans .suspReady pid rfl))

theorem le_of_mem (hk : Kernel.Inv k) (h : pid ∈ k.queue st) : pid ≤ k.newPid :=
  Nat.lt_succ_iff.mp (hk.tidy.lt st pid h)

end Lists

/-- The suspensions under way after a section. -/
theorem mem_suspending_after {cfg : Kernel.Config} {k : Kernel.State} {ch : Choice} {t : Thread}
    {others : List Thread} {pid : Nat} :
    pid ∈ suspending (after cfg k ch t others) ↔
      pid ∈ others.filterMap Thread.suspends ∨
        pid ∈ (nextSection cfg k ch t).2.filterMap Thread.suspends := by
  simp [suspending, after]

theorem mem_suspending_iff {k : Kernel.State} {t : Thread} {others : List Thread} {pid : Nat}
    (hperm : k.threads.Perm (t :: others)) :
    pid ∈ suspending k ↔ t.suspends = some pid ∨ pid ∈ others.filterMap Thread.suspends := by
  rw [suspending, (hperm.filterMap Thread.suspends).mem_iff]
  cases h : t.suspends with
  | none => simp [h]
  | some q => simp [h, eq_comm]

/-! ## 6. One section -/

section Step

variable {cfg : Config} {s : State} {ch : Choice} {t : Thread} {others : List Thread}
  {m : Memoria.State} {pid : Nat}

/-- A suspension that is under way after a section was so before, or it has just begun. -/
theorem suspending_before (hperm : s.kernel.threads.Perm (t :: others))
    (h : pid ∈ suspending (after cfg.kernel s.kernel ch t others)) :
    pid ∈ suspending s.kernel ∨ (t = .medium pid ∧ pid ∈ s.kernel.queue .blocked ∧
      (s.kernel.pcbs pid).size ≠ 0 ∧
      pid ∈ (nextSection cfg.kernel s.kernel ch t).1.queue .suspBlocked) := by
  rcases mem_suspending_after.mp h with hold | hnew
  · exact Or.inl ((mem_suspending_iff hperm).mpr (Or.inr hold))
  · rcases suspends_new cfg.kernel s.kernel ch t with hnil | ⟨q, hone, hwho⟩
    · rw [hnil] at hnew
      exact absurd hnew (List.not_mem_nil)
    · rw [hone] at hnew
      obtain rfl := List.mem_singleton.mp hnew
      rcases hwho with rfl | ⟨rfl, -⟩ | hbegin
      · exact Or.inl ((mem_suspending_iff hperm).mpr (Or.inl rfl))
      · exact Or.inl ((mem_suspending_iff hperm).mpr (Or.inl rfl))
      · exact Or.inr hbegin

/-- A suspension that a thread carries on is not carried on by another. -/
theorem not_mem_others (hs : Inv s) (hperm : s.kernel.threads.Perm (t :: others))
    (ht : t.suspends = some pid) : pid ∉ others.filterMap Thread.suspends := by
  have hnodup := (hperm.filterMap Thread.suspends).nodup_iff.mp hs.distinct
  rw [List.filterMap_cons, ht] at hnodup
  exact (List.nodup_cons.mp hnodup).1

/-- The rollback of a suspension finds its process loaded and ends the only suspension of it. -/
theorem rolledBack_step (hs : Inv s) (hperm : s.kernel.threads.Perm (t :: others))
    (hserved : Served cfg s t ch m) (ht : t.suspends = some pid) (hsent : t ≠ .mediumSent pid)
    (hend : (nextSection cfg.kernel s.kernel ch t).2 = [])
    (hblocked : pid ∈ s.kernel.queue .suspBlocked) (hsize : (s.kernel.pcbs pid).size ≠ 0)
    (hnexit : pid ∉ (nextSection cfg.kernel s.kernel ch t).1.queue .exit) :
    Memoria.Loaded m pid ∧ pid ∉ suspending (after cfg.kernel s.kernel ch t others) := by
  have hmine : pid ∈ suspending s.kernel := (mem_suspending_iff hperm).mpr (Or.inl ht)
  have hloaded := hs.waiting pid hmine (Or.inl hblocked) hsize
  constructor
  · rcases hserved.loaded hloaded with hyes | ⟨hsent', -⟩ | ⟨caller, moved, rfl⟩ | hexit
    · exact hyes
    · exact absurd hsent' hsent
    · exact absurd ht (by simp [Thread.suspends])
    · exact absurd hexit hnexit
  · intro hsusp
    rcases mem_suspending_after.mp hsusp with hother | hnew
    · exact not_mem_others hs hperm ht hother
    · rw [hend] at hnew
      exact absurd hnew (List.not_mem_nil)

/-- **Resident processes are loaded after the section.** -/
theorem resident_step (hs : Inv s) (hplace : InPlace s.kernel t)
    (hperm : s.kernel.threads.Perm (t :: others)) (hserved : Served cfg s t ch m)
    (hsettled : ∀ q caller moved, t = .longUnsuspend q caller moved → q ∉ suspending s.kernel)
    (hlists : Kernel.Inv (after cfg.kernel s.kernel ch t others))
    (hpicked : Picked (after cfg.kernel s.kernel ch t others))
    (h : Resident (after cfg.kernel s.kernel ch t others) pid)
    (hsize : (s.kernel.pcbs pid).size ≠ 0) :
    Memoria.Loaded m pid ∧ pid ∉ suspending (after cfg.kernel s.kernel ch t others) := by
  have hmem : t ∈ s.kernel.threads := hperm.mem_iff.mpr List.mem_cons_self
  have hnexit : pid ∉ (nextSection cfg.kernel s.kernel ch t).1.queue .exit :=
    fun hexit => not_resident hlists hpicked .exit hexit rfl (by simp) h
  rcases resident_after hplace hperm h with hold | henter
  · obtain ⟨hloaded, hquiet⟩ := hs.resident pid hold hsize
    constructor
    · rcases hserved.loaded hloaded with hyes | ⟨rfl, -⟩ | ⟨caller, moved, rfl⟩ | hexit
      · exact hyes
      · exact absurd ((mem_suspending_iff hperm).mpr (Or.inl rfl)) hquiet
      · exact absurd hold (not_resident hs.lists hs.picked .new (hs.picked _ hmem .new pid rfl)
          rfl (by simp))
      · exact absurd hexit hnexit
    · intro hsusp
      rcases suspending_before hperm hsusp with hbefore | ⟨-, -, -, hnow⟩
      · exact hquiet hbefore
      · exact not_resident hlists hpicked .suspBlocked hnow rfl (by simp) h
  · cases henter with
    | unsent hcon hblocked =>
      exact rolledBack_step hs hperm hserved rfl (by simp) (by simp [nextSection, hcon]) hblocked
        hsize hnexit
    | failed hblocked =>
      exact rolledBack_step hs hperm hserved rfl (by simp) (by simp [nextSection]) hblocked
        hsize hnexit
    | unsuspended hans =>
      refine ⟨hserved.unsuspended hans, ?_⟩
      intro hsusp
      rcases suspending_before hperm hsusp with hbefore | ⟨hne, -⟩
      · exact hsettled _ _ _ rfl hbefore
      · exact absurd hne (by simp)
    | admitted hans hnew =>
      obtain ⟨hnone, hquiet⟩ := hs.unborn pid (Or.inl hnew)
      refine ⟨hserved.admitted hans hnone, ?_⟩
      intro hsusp
      rcases suspending_before hperm hsusp with hbefore | ⟨hne, -⟩
      · exact hquiet hbefore
      · exact absurd hne (by simp)

/-- **A process whose suspension is under way is loaded after the section**, if it is on a suspended
list then. -/
theorem waiting_step (hs : Inv s) (hplace : InPlace s.kernel t)
    (hperm : s.kernel.threads.Perm (t :: others)) (hserved : Served cfg s t ch m)
    (hlists : Kernel.Inv (after cfg.kernel s.kernel ch t others))
    (hsusp : pid ∈ suspending (after cfg.kernel s.kernel ch t others)) {st : ProcessState}
    (hst : st = .suspBlocked ∨ st = .suspReady)
    (h : pid ∈ (nextSection cfg.kernel s.kernel ch t).1.queue st)
    (hsize : (s.kernel.pcbs pid).size ≠ 0) : Memoria.Loaded m pid := by
  have hmem : t ∈ s.kernel.threads := hperm.mem_iff.mpr List.mem_cons_self
  -- in BLOCKED no suspension is under way
  have hblocked : pid ∈ s.kernel.queue .blocked →
      Memoria.Loaded s.memoria pid ∧ pid ∉ suspending s.kernel :=
    fun hb => hs.resident pid (Or.inl ⟨.blocked, rfl, hb⟩) hsize
  have hplaces := suspended_after hplace hst h
  have hloaded : Memoria.Loaded s.memoria pid := by
    rcases hplaces with hsb | hsr | hb
    · rcases suspending_before hperm hsusp with hbefore | ⟨-, hb, -⟩
      · exact hs.waiting pid hbefore (Or.inl hsb) hsize
      · exact (hblocked hb).1
    · rcases suspending_before hperm hsusp with hbefore | ⟨-, hb, -⟩
      · exact hs.waiting pid hbefore (Or.inr hsr) hsize
      · exact (hblocked hb).1
    · exact (hblocked hb).1
  rcases hserved.loaded hloaded with hyes | ⟨rfl, hans⟩ | ⟨caller, moved, rfl⟩ | hexit
  · exact hyes
  · -- the SWAP succeeded, so its thread suspends no longer, and no other did
    rcases mem_suspending_after.mp hsusp with hother | hnew
    · exact absurd hother (not_mem_others hs hperm rfl)
    · simp [nextSection, hans, Thread.suspends] at hnew
  · have hnew := hs.picked _ hmem .new pid rfl
    rcases hplaces with hx | hx | hx
    · exact absurd (hs.lists.tidy.unique hnew hx) (by simp)
    · exact absurd (hs.lists.tidy.unique hnew hx) (by simp)
    · exact absurd (hs.lists.tidy.unique hnew hx) (by simp)
  · have heq : ProcessState.exit = st := hlists.tidy.unique hexit h
    rcases hst with rfl | rfl
    · exact absurd heq (by simp)
    · exact absurd heq (by simp)

/-- **No process is being suspended twice after the section.** -/
theorem distinct_step (hs : Inv s) (hperm : s.kernel.threads.Perm (t :: others)) :
    (suspending (after cfg.kernel s.kernel ch t others)).Nodup := by
  have hnodup := (hperm.filterMap Thread.suspends).nodup_iff.mp hs.distinct
  have hothers : (others.filterMap Thread.suspends).Nodup := by
    rw [List.filterMap_cons] at hnodup
    split at hnodup
    · exact hnodup
    · exact (List.nodup_cons.mp hnodup).2
  have happend : suspending (after cfg.kernel s.kernel ch t others) =
      others.filterMap Thread.suspends ++
        (nextSection cfg.kernel s.kernel ch t).2.filterMap Thread.suspends := by
    simp [suspending, after]
  rw [happend]
  rcases suspends_new cfg.kernel s.kernel ch t with hnil | ⟨pid, hone, hwho⟩
  · rw [hnil, List.append_nil]
    exact hothers
  · rw [hone]
    have hnot : pid ∉ others.filterMap Thread.suspends := by
      rcases hwho with rfl | ⟨rfl, -⟩ | ⟨-, hb, hsize, -⟩
      · exact not_mem_others hs hperm rfl
      · exact not_mem_others hs hperm rfl
      · intro hother
        exact (hs.resident pid (Or.inl ⟨.blocked, rfl, hb⟩) hsize).2
          ((mem_suspending_iff hperm).mpr (Or.inr hother))
    refine List.nodup_append.mpr ⟨hothers, List.nodup_singleton pid, ?_⟩
    rintro x hx y hy rfl
    exact hnot (List.mem_singleton.mp hy ▸ hx)

/-- **A process that was never admitted has no record after the section.** -/
theorem unborn_step (hs : Inv s) (hplace : InPlace s.kernel t)
    (hperm : s.kernel.threads.Perm (t :: others)) (hserved : Served cfg s t ch m)
    (hlists : Kernel.Inv (after cfg.kernel s.kernel ch t others))
    (h : pid ∈ (nextSection cfg.kernel s.kernel ch t).1.queue .new ∨
      (nextSection cfg.kernel s.kernel ch t).1.newPid < pid) :
    Memoria.processManagerFindProcess m.processes pid = none ∧
      pid ∉ suspending (after cfg.kernel s.kernel ch t others) := by
  have hmem : t ∈ s.kernel.threads := hperm.mem_iff.mpr List.mem_cons_self
  -- on any other list after the section it would have been admitted
  have hother : ∀ st, st ≠ .new → pid ∉ (nextSection cfg.kernel s.kernel ch t).1.queue st := by
    intro st hst hin
    rcases h with hnew | hlt
    · exact hst (hlists.tidy.unique hin hnew)
    · exact absurd (le_of_mem hlists hin) (not_le.mpr hlt)
  have hbefore : pid ∈ s.kernel.queue .new ∨ s.kernel.newPid < pid := by
    rcases h with hnew | hlt
    · rcases new_after hplace hnew with hold | rfl
      · exact Or.inl hold
      · exact Or.inr (Nat.lt_succ_self _)
    · exact Or.inr (lt_of_le_of_lt (nextSection_grows cfg.kernel s.kernel ch t).newPid hlt)
  obtain ⟨hnone, hquiet⟩ := hs.unborn pid hbefore
  constructor
  · rcases hserved.unborn hnone with hstill | ⟨caller, moved, rfl⟩ | ⟨caller, moved, rfl, hans⟩ | hexit
    · exact hstill
    · have hsr := hs.picked _ hmem .suspReady pid rfl
      rcases hbefore with hnew | hlt
      · exact absurd (hs.lists.tidy.unique hnew hsr) (by simp)
      · exact absurd (le_of_mem hs.lists hsr) (not_le.mpr hlt)
    · have hnew := hs.picked _ hmem .new pid rfl
      refine absurd ?_ (hother .ready (by simp))
      simp [nextSection, longCreate, hans, findPcbIn, hnew, movePcb, addPcbTo]
    · exact absurd hexit (hother .exit (by simp))
  · intro hsusp
    rcases suspending_before hperm hsusp with hold | ⟨-, -, -, hnow⟩
    · exact hquiet hold
    · exact hother .suspBlocked (by simp) hnow

/-- The size of a process on the suspended lists, or resident, is the one it had before the section. -/
theorem size_after (cfg : Config) (ch : Choice) (t : Thread) (others : List Thread)
    (hle : pid ≤ s.kernel.newPid) :
    ((after cfg.kernel s.kernel ch t others).pcbs pid).size = (s.kernel.pcbs pid).size :=
  (nextSection_grows cfg.kernel s.kernel ch t).size pid hle

theorem Enters.le (hs : Inv s) (hmem : t ∈ s.kernel.threads) (h : Enters s.kernel ch t pid) :
    pid ≤ s.kernel.newPid := by
  cases h with
  | unsent _ hin => exact le_of_mem hs.lists hin
  | failed hin => exact le_of_mem hs.lists hin
  | unsuspended _ => exact le_of_mem hs.lists (hs.picked _ hmem .suspReady pid rfl)
  | admitted _ hin => exact le_of_mem hs.lists hin

end Step

/-! ## 7. Whole runs -/

theorem inv_run {cfg : Config} {s s' : State} {i : Nat} {ch : Choice} {sv : Service} (hs : Inv s)
    (hc : settled s (.run i ch sv) = true) (h : step cfg s (.run i ch sv) = some s') : Inv s' := by
  simp only [step] at h
  obtain ⟨t, hget, h⟩ := Option.bind_eq_some_iff.mp h
  obtain ⟨⟨m, ch'⟩, hserve, h⟩ := Option.bind_eq_some_iff.mp h
  obtain ⟨k', hstep, rfl⟩ := Option.map_eq_some_iff.mp h
  have hserved := served_of_serve hserve
  simp only [settled, Bool.and_eq_true] at hc
  have hdump : dumpInPlace s.kernel (.run i ch') = true := hc.1
  have hsettled : ∀ q caller moved, t = .longUnsuspend q caller moved →
      q ∉ suspending s.kernel := by
    rintro q caller moved rfl
    have := hc.2
    rw [hget] at this
    simpa using this
  -- the kernel's own invariants, and its next state in terms of the section
  have hlists := inv_step hs.lists hdump hstep
  have hpicked := picked_step hs.lists hs.picked hdump hstep
  have hplace := hs.lists.inPlace hdump hget
  obtain ⟨t', others, hget', hperm, -, -, rfl⟩ := step_run hstep
  obtain rfl : t = t' := by simpa [hget] using hget'
  have hmem : t ∈ s.kernel.threads := hperm.mem_iff.mpr List.mem_cons_self
  refine ⟨hlists, hpicked, ?_, ?_, distinct_step hs hperm, ?_⟩
  · intro pid hres hsize
    have hle : pid ≤ s.kernel.newPid := by
      rcases resident_after hplace hperm hres with hold | henter
      · exact hold.le hs.lists hs.picked
      · exact henter.le hs hmem
    have hsize' : (s.kernel.pcbs pid).size ≠ 0 := by
      rw [← size_after cfg ch' t others hle]
      exact hsize
    exact resident_step hs hplace hperm hserved hsettled hlists hpicked hres hsize'
  · intro pid hsusp hin hsize
    obtain ⟨st, hst, hin⟩ : ∃ st, (st = .suspBlocked ∨ st = .suspReady) ∧
        pid ∈ (nextSection cfg.kernel s.kernel ch' t).1.queue st := by
      rcases hin with hin | hin
      · exact ⟨_, Or.inl rfl, hin⟩
      · exact ⟨_, Or.inr rfl, hin⟩
    have hle : pid ≤ s.kernel.newPid := by
      rcases suspended_after hplace hst hin with hx | hx | hx
      · exact le_of_mem hs.lists hx
      · exact le_of_mem hs.lists hx
      · exact le_of_mem hs.lists hx
    have hsize' : (s.kernel.pcbs pid).size ≠ 0 := by
      rw [← size_after cfg ch' t others hle]
      exact hsize
    exact waiting_step hs hplace hperm hserved hlists hsusp hst hin hsize'
  · intro pid hnew
    exact unborn_step hs hplace hperm hserved hlists hnew

/-- A message that arrives brings nothing into memory and suspends nothing. -/
theorem inv_arrive {cfg : Config} {s s' : State} {handler : Thread} (hs : Inv s)
    (h : step cfg s (.arrive handler) = some s') : Inv s' := by
  obtain ⟨k', hstep, rfl⟩ := Option.map_eq_some_iff.mp h
  have hlists := inv_step (e := .arrive handler) hs.lists rfl hstep
  have hpicked := picked_step (e := .arrive handler) hs.lists hs.picked rfl hstep
  obtain ⟨hhandler, rfl⟩ := step_arrive hstep
  have hfacts : handler.suspends = none ∧ handler.transit = [] ∧ handler.picked = none := by
    cases handler with
    | initProc _ _ _ => exact ⟨rfl, rfl, rfl⟩
    | io _ _ _ _ => exact ⟨rfl, rfl, rfl⟩
    | exit _ => exact ⟨rfl, rfl, rfl⟩
    | dump _ _ => exact ⟨rfl, rfl, rfl⟩
    | newDevice _ _ => exact ⟨rfl, rfl, rfl⟩
    | ioCompletion _ _ _ => exact ⟨rfl, rfl, rfl⟩
    | ioDisconnected _ => exact ⟨rfl, rfl, rfl⟩
    | _ => simp [Thread.isHandler] at hhandler
  have hsusp : suspending { s.kernel with threads := s.kernel.threads ++ [handler] } =
      suspending s.kernel := by
    simp [suspending, hfacts.1]
  have hres : ∀ pid, Resident { s.kernel with threads := s.kernel.threads ++ [handler] } pid →
      Resident s.kernel pid := by
    rintro pid (hin | htr | ⟨caller, moved, hans⟩)
    · exact Or.inl hin
    · exact Or.inr (Or.inl (by simpa [Kernel.State.transit, hfacts.2.1] using htr))
    · rcases List.mem_append.mp hans with hans | hans
      · exact Or.inr (Or.inr ⟨caller, moved, hans⟩)
      · have := hfacts.2.2
        rw [← List.mem_singleton.mp hans] at this
        exact absurd this (by simp [Thread.picked])
  refine ⟨hlists, hpicked, ?_, ?_, ?_, ?_⟩
  · intro pid hin hsize
    rw [hsusp]
    exact hs.resident pid (hres pid hin) hsize
  · intro pid hin
    rw [hsusp] at hin
    exact hs.waiting pid hin
  · rw [hsusp]
    exact hs.distinct
  · intro pid hin
    rw [hsusp]
    exact hs.unborn pid hin

/-- READ_MEMORY and WRITE_MEMORY touch no record. -/
theorem inv_access {cfg : Config} {s s' : State} {r : Memoria.Request} (hs : Inv s)
    (h : step cfg s (.access r) = some s') : Inv s' := by
  simp only [step] at h
  split at h
  · rename_i hpid
    obtain ⟨⟨m, reply⟩, hserved, rfl⟩ := Option.map_eq_some_iff.mp h
    have hfind : ∀ q : Int, Memoria.processManagerFindProcess m.processes q =
        Memoria.processManagerFindProcess s.memoria.processes q :=
      fun q => Memoria.handle_find_of_ne hserved (by simp [hpid])
    refine ⟨hs.lists, hs.picked, ?_, ?_, hs.distinct, ?_⟩
    · intro pid hres hsize
      obtain ⟨hloaded, hquiet⟩ := hs.resident pid hres hsize
      exact ⟨loaded_of_find hloaded (hfind pid), hquiet⟩
    · intro pid hin hst hsize
      exact loaded_of_find (hs.waiting pid hin hst hsize) (hfind pid)
    · intro pid hin
      obtain ⟨hnone, hquiet⟩ := hs.unborn pid hin
      exact ⟨by rw [hfind pid, hnone], hquiet⟩
  · exact absurd h (by simp)

theorem inv_start (cfg : Config) : Inv (State.start cfg) := by
  have hsusp : suspending (State.start cfg).kernel = [] := by
    simp [suspending, State.start, Kernel.State.start, Thread.suspends]
  refine ⟨Kernel.inv_start cfg.kernel, picked_start cfg.kernel, ?_, ?_, ?_, ?_⟩
  · rintro pid (⟨st, hst, hin⟩ | htr | ⟨caller, moved, hans⟩)
    · cases st <;> simp [State.start, Kernel.State.start, inMemory] at hst hin
    · simp [State.start, Kernel.State.start, Kernel.State.transit, Thread.transit] at htr
    · simp [State.start, Kernel.State.start] at hans
  · intro pid hin
    rw [hsusp] at hin
    exact absurd hin (List.not_mem_nil)
  · rw [hsusp]
    exact List.nodup_nil
  · intro pid _
    rw [hsusp]
    exact ⟨rfl, List.not_mem_nil⟩

theorem Inv.agreed {s : State} (h : Inv s) : Agreed s := by
  intro pid hin hsize
  have hres : Resident s.kernel pid := by
    rcases hin with hin | hin
    · exact Or.inl ⟨.ready, rfl, hin⟩
    · exact Or.inl ⟨.exec, rfl, hin⟩
  obtain ⟨hloaded, hquiet⟩ := h.resident pid hres (ne_of_gt hsize)
  refine ⟨hloaded, ?_⟩
  intro hsent
  exact hquiet (List.mem_filterMap.mpr ⟨_, hsent, rfl⟩)

/-- **Kernel and memoria agree on suspension in every state of every run in which no UNSUSPEND_PROCESS
is served while a suspension of the process is under way, and every dump ends with its PCB in
BLOCKED.** -/
theorem agreed_of_settled {cfg : Config} {tr : List (Transition State Event)} {s : State}
    (hr : (system cfg).Run tr s) (hc : ∀ x ∈ tr, settled x.src x.label = true) :
    Agreed s ∧ ∀ x ∈ tr, Agreed x.src := by
  have h0 : ∀ s, (system cfg).init s → Inv s := by
    rintro s rfl
    exact inv_start cfg
  have hstep : ∀ s e s', Inv s → settled s e = true → (system cfg).step s e s' → Inv s' := by
    intro s e s' hs hc hst
    cases e with
    | arrive handler => exact inv_arrive hs hst
    | run i ch sv => exact inv_run hs hc hst
    | access r => exact inv_access hs hst
  refine ⟨(hr.invariant h0 hstep hc).agreed, ?_⟩
  intro x hx
  exact (hr.invariant_steps h0 hstep hc x hx).1.agreed

/-- One CPU and a small memory. -/
def small : Config := ⟨oneCpu, Memoria.smallConfig⟩

/-- A section of the thread at position `i`, with every byte of the swap file at hand. -/
def runAt (i : Nat) : Event := .run i {} { written := fun _ => 16, avail := fun _ => 16 }

/-- The root process is admitted and dispatched, a device connects, and the process does an IO that
takes so long that its medium-term timer suspends it.  Thread 0 is about to connect to memoria. -/
def untilTimer : List Event :=
  List.replicate 8 (runAt 0) ++
    [.arrive (.newDevice 5 "disk"), runAt 0, .arrive (.io 0 1 100 "disk"), runAt 0, runAt 0, runAt 1,
      runAt 0]

/-- The theorem at work: the SWAP is served, the long-term scheduler finds nothing to do, the IO
completes, and the process comes back by an UNSUSPEND_PROCESS. -/
theorem agreed_of_settled_resumed :
    ∃ tr s, (system small).Run tr s ∧ s.kernel.queue .exec = [0] ∧ Agreed s := by
  obtain ⟨tr, s, hrun, htest⟩ := Lts.exists_run_of_drive (State.start small) (step small)
    (untilTimer ++ [runAt 0, runAt 0, runAt 0, runAt 0, runAt 0, runAt 0, runAt 0,
      .arrive (.ioCompletion 5 "disk" 0)] ++ List.replicate 12 (runAt 0))
    (fun tr s => decide (s.kernel.queue .exec = [0]) && tr.all fun x => settled x.src x.label)
    (by decide +kernel)
  simp only [Bool.and_eq_true, decide_eq_true_eq, List.all_eq_true] at htest
  exact ⟨tr, s, hrun, htest.1, (agreed_of_settled hrun htest.2).1⟩

/-- Without the condition the agreement is lost.  The SWAP of the root process is sent; before it is
served the IO completes, UNSUSPEND_PROCESS is confirmed, since the process is not suspended yet, and
the process is in READY with the SWAP still in flight. -/
theorem not_agreed_swap_overtaken :
    ¬ ∀ (cfg : Config) (tr : List (Transition State Event)) (s : State),
      (system cfg).Run tr s → Agreed s := by
  intro hall
  obtain ⟨tr, s, hrun, htest⟩ := Lts.exists_run_of_drive (State.start small) (step small)
    (untilTimer ++ [runAt 0, .arrive (.ioCompletion 5 "disk" 0)] ++ List.replicate 7 (runAt 1))
    (fun _ s => decide (0 ∈ s.kernel.queue .ready) && decide (0 < (s.kernel.pcbs 0).size) &&
      s.kernel.threads.any fun t => match t with | .mediumSent pid => decide (pid = 0) | _ => false)
    (by decide +kernel)
  simp only [Bool.and_eq_true, decide_eq_true_eq, List.any_eq_true] at htest
  obtain ⟨⟨hready, hsize⟩, t, ht, hsent⟩ := htest
  have hmem : Thread.mediumSent 0 ∈ s.kernel.threads := by
    split at hsent
    · rwa [of_decide_eq_true hsent] at ht
    · exact absurd hsent (by simp)
  exact (hall small tr s hrun 0 (Or.inl hready) hsize).2 hmem

end Tpso.System
