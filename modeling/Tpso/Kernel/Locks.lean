/-
# The semaphores of the kernel

Every handler and scheduler of `kernel/src` as a program over semaphores, in the order of its calls.
`lock_exec_list` is called in one helper of `run_short_scheduler`
(`should_preempt_executing_process`), undone in another (`send_and_receive_interrupt`), and taken again
only when the CPU answered for the interrupted pid; the common end of the function posts EXEC in any
case.  So exactly one path is not balanced, and when no scheduler takes it, EXEC excludes
(`locks_balanced_and_exclusive`).
-/
import Tpso.Kernel.Sections
import Tpso.Lib.Semaphore

namespace Tpso.Kernel

open Tpso.Lib

/-! ## 1. Semaphores and questions -/

/-- The semaphores: one for each list and dictionary, and one for each CPU. -/
inductive Sem where
  | cpuConnections
  | ready
  | exec
  | new
  | blocked
  | suspBlocked
  | suspReady
  | exit
  | ioConnections
  | ioRequestsLink
  | ioRequestsQueue
  | cpu (id : Nat)
  deriving DecidableEq

/-- What decides the path of a handler. -/
inductive Question where
  /-- `run_short_scheduler`: a CPU and a process were found. -/
  | contextFound
  /-- `run_short_scheduler`: `current_process_executing == -1`. -/
  | cpuFree
  | preemptionEnabled
  | shouldPreempt
  /-- `run_short_scheduler`: `interrupted_same_pid == 0`. -/
  | samePid
  | memoryConnected
  | suspReadyFound
  | unsuspended
  | processesInitialized
  | pcbFound
  | deviceFound
  | linkFound
  | deviceMarked
  | inSuspBlocked
  | dumpConfirmed
  | elapsed
  | hasSize
  | swapped
  deriving DecidableEq

abbrev LockProg := Prog Sem Question

open Prog

/-! ## 2. The programs -/

/-- The common end of `run_short_scheduler`, after the DISPATCH. -/
def shortUnlock (cpu : Nat) (next : LockProg) : LockProg :=
  postAll [.cpuConnections, .exec, .ready, .cpu cpu] next

/-- `run_short_scheduler`, when `get_cpu_to_dispatch` yields CPU `cpu`. -/
def runShortScheduler (cpu : Nat) (next : LockProg) : LockProg :=
  waitAll [.cpuConnections, .ready] <|
  .ask .contextFound fun found =>
    if found = false then postAll [.cpuConnections, .ready] next
    else
      wait (.cpu cpu) <|
      .ask .cpuFree fun free =>
        if free = true then wait .exec (shortUnlock cpu next)
        else
          .ask .preemptionEnabled fun enabled =>
            if enabled = false then postAll [.cpuConnections, .ready, .cpu cpu] next
            else
              -- `should_preempt_executing_process`
              wait .exec <|
              .ask .shouldPreempt fun preempt =>
                if preempt = true then
                  -- `send_and_receive_interrupt`
                  post .exec <|
                  .ask .samePid fun same =>
                    if same = true then wait .exec (shortUnlock cpu next)
                    else shortUnlock cpu next
                else shortUnlock cpu next

/-- The SUSP_READY loop of `run_long_scheduler`, with at most `rounds` processes brought back. -/
def longSuspReady (next : LockProg) : Nat → LockProg
  | 0 => wait .suspReady (post .suspReady next)
  | rounds + 1 =>
    wait .suspReady <|
    .ask .suspReadyFound fun found =>
      if found = false then post .suspReady next
      else .ask .unsuspended fun success =>
        if success = false then post .suspReady next
        else post .suspReady (wait .ready (post .ready (longSuspReady next rounds)))

/-- `run_long_scheduler`. -/
def runLongScheduler (rounds : Nat) (next : LockProg) : LockProg :=
  .ask .memoryConnected fun connected =>
    if connected = false then next
    else longSuspReady (waitAll [.ready, .new] (postAll [.new, .ready] next)) rounds

/-- `exit_routine`. -/
def exitRoutineLocks (next : LockProg) : LockProg := wait .exit (post .exit next)

/-- `process_pending_io`. -/
def processPendingIoLocks (next : LockProg) : LockProg :=
  wait .ioConnections <|
  .ask .deviceFound fun found =>
    if found = false then post .ioConnections next
    else
      wait .ioRequestsLink <|
      .ask .linkFound fun link =>
        if link = false then postAll [.ioRequestsLink, .ioConnections] next
        else
          wait .ioRequestsQueue <|
          .ask .deviceMarked fun marked =>
            if marked = true then
              waitAll [.blocked, .suspBlocked] <| postAll [.suspBlocked, .blocked] <|
                postAll [.ioRequestsQueue, .ioRequestsLink, .ioConnections] next
            else postAll [.ioRequestsQueue, .ioRequestsLink, .ioConnections] next

/-- The handlers, with the number of rounds of their long-term scheduler and the CPU that their
short-term scheduler gets. -/
inductive Handler where
  | initProc
  | io
  | exit
  | dump (cpu : Nat)
  | newDevice
  | ioCompletion
  | ioDisconnected (rounds cpu : Nat)
  | medium (rounds cpu : Nat)
  | schedulers (rounds cpu : Nat)
  | short (cpu : Nat)
  | root (rounds cpu : Nat)

/-- The schedulers where the short-term one runs only if the long-term one moved a process. -/
def schedulersIfMoved (rounds cpu : Nat) (next : LockProg) : LockProg :=
  runLongScheduler rounds <|
  .ask .processesInitialized fun moved =>
    if moved = true then runShortScheduler cpu next else next

/-- The semaphore calls of each handler. -/
def Handler.prog : Handler → LockProg
  | .initProc =>
    waitAll [.new, .exec] <|
    .ask .pcbFound fun found =>
      if found = false then postAll [.exec, .new] .done else postAll [.new, .exec] .done
  | .io =>
    wait .ioConnections <|
    .ask .deviceFound fun found =>
      if found = false then
        wait .exec <| exitRoutineLocks <| post .exec <| post .ioConnections .done
      else
        wait .ioRequestsLink <|
        .ask .linkFound fun link =>
          if link = false then postAll [.ioRequestsLink, .ioConnections] .done
          else
            waitAll [.ioRequestsQueue, .exec, .blocked] <|
            .ask .pcbFound fun pcb =>
              postAll [.blocked, .exec, .ioRequestsQueue, .ioRequestsLink, .ioConnections] <|
              if pcb = false then .done else processPendingIoLocks .done
  | .exit => wait .exec <| exitRoutineLocks <| post .exec .done
  | .dump cpu =>
    waitAll [.exec, .blocked] <|
    .ask .pcbFound fun pcb =>
      if pcb = false then postAll [.exec, .blocked] .done
      else
        postAll [.blocked, .exec] <| waitAll [.ready, .blocked] <|
        .ask .dumpConfirmed fun confirmation =>
          if confirmation = true then postAll [.ready, .blocked] (runShortScheduler cpu .done)
          else exitRoutineLocks (postAll [.ready, .blocked] .done)
  | .newDevice =>
    waitAll [.ioConnections, .ioRequestsLink] <| postAll [.ioRequestsLink, .ioConnections] <|
    .ask .linkFound fun link => if link = true then processPendingIoLocks .done else .done
  | .ioCompletion =>
    wait .ioConnections <|
    .ask .deviceFound fun found =>
      if found = false then post .ioConnections .done
      else
        waitAll [.ready, .blocked, .suspBlocked, .suspReady] <|
        postAll [.suspReady, .suspBlocked, .blocked, .ready, .ioConnections] <|
        processPendingIoLocks .done
  | .ioDisconnected rounds cpu =>
    wait .ioConnections <|
    .ask .deviceFound fun found =>
      if found = false then post .ioConnections .done
      else .ask .deviceMarked fun marked =>
        if marked = false then post .ioConnections .done
        else
          wait .blocked <|
          .ask .pcbFound fun pcb =>
            if pcb = true then exitRoutineLocks (postAll [.blocked, .ioConnections] .done)
            else
              post .blocked <| wait .suspBlocked <|
              .ask .inSuspBlocked fun susp =>
                if susp = true then
                  exitRoutineLocks <| post .suspBlocked <|
                    schedulersIfMoved rounds cpu (post .ioConnections .done)
                else postAll [.suspBlocked, .ioConnections] .done
  | .medium rounds cpu =>
    wait .blocked <|
    .ask .pcbFound fun pcb =>
      if pcb = false then post .blocked .done
      else .ask .elapsed fun elapsed =>
        if elapsed = false then post .blocked .done
        else
          wait .suspBlocked <| postAll [.blocked, .suspBlocked] <|
          .ask .hasSize fun size =>
            if size = false then schedulersIfMoved rounds cpu .done
            else .ask .swapped fun success =>
              if success = true then schedulersIfMoved rounds cpu .done
              else waitAll [.blocked, .suspBlocked] (postAll [.suspBlocked, .blocked] .done)
  | .schedulers rounds cpu => runLongScheduler rounds (runShortScheduler cpu .done)
  | .short cpu => runShortScheduler cpu .done
  | .root rounds cpu => wait .new <| post .new <| schedulersIfMoved rounds cpu .done

/-! ## 3. Balance -/

/-- The answers that keep `run_short_scheduler` off its unbalanced path. -/
def SamePidOk (q : Question) (b : Bool) : Prop := q = .samePid → b = true

section Balance

variable {cpu rounds : Nat} {next : LockProg} {held : List Sem}

theorem shortUnlock_balanced (cpu : Nat) (h : next.Balanced SamePidOk held) :
    (shortUnlock cpu next).Balanced SamePidOk
      (.exec :: .cpu cpu :: .ready :: .cpuConnections :: held) := by
  simp [shortUnlock, h]

theorem runShortScheduler_balanced (h : next.Balanced SamePidOk held) :
    (runShortScheduler cpu next).Balanced SamePidOk held := by
  have hend := shortUnlock_balanced cpu h
  rw [runShortScheduler, balanced_waitAll]
  intro found _
  cases found with
  | false => simp [h]
  | true =>
    intro free _
    cases free with
    | true => exact hend
    | false =>
      intro enabled _
      cases enabled with
      | false => simp [h]
      | true =>
        intro preempt _
        cases preempt with
        | false => exact hend
        | true =>
          refine ⟨by simp, ?_⟩
          intro same hsame
          obtain rfl : same = true := hsame rfl
          simpa [List.erase_cons] using hend

theorem longSuspReady_balanced (h : next.Balanced SamePidOk held) :
    (longSuspReady next rounds).Balanced SamePidOk held := by
  have hpost : (post .suspReady next).Balanced SamePidOk (.suspReady :: held) := by
    simpa using h
  induction rounds with
  | zero => exact hpost
  | succ rounds ih =>
    intro found _
    cases found with
    | false => exact hpost
    | true =>
      intro success _
      cases success with
      | false => exact hpost
      | true => simpa using ih

theorem runLongScheduler_balanced (h : next.Balanced SamePidOk held) :
    (runLongScheduler rounds next).Balanced SamePidOk held := by
  intro connected _
  cases connected with
  | false => exact h
  | true =>
    refine longSuspReady_balanced ?_
    rw [balanced_waitAll]
    simpa [List.erase_cons] using h

theorem exitRoutineLocks_balanced (h : next.Balanced SamePidOk held) :
    (exitRoutineLocks next).Balanced SamePidOk held := by
  simpa [exitRoutineLocks] using h

theorem processPendingIoLocks_balanced (h : next.Balanced SamePidOk held) :
    (processPendingIoLocks next).Balanced SamePidOk held := by
  intro found _
  cases found with
  | false => simpa using h
  | true =>
    intro link _
    cases link with
    | false => simpa [List.erase_cons] using h
    | true =>
      intro marked _
      cases marked with
      | false => simpa [List.erase_cons] using h
      | true => simpa [List.erase_cons] using h

theorem schedulersIfMoved_balanced (h : next.Balanced SamePidOk held) :
    (schedulersIfMoved rounds cpu next).Balanced SamePidOk held := by
  refine runLongScheduler_balanced ?_
  intro moved _
  cases moved with
  | false => exact h
  | true => exact runShortScheduler_balanced h

end Balance

/-- **Every handler is balanced**, as long as a CPU_CONTEXT answers for the interrupted pid. -/
theorem handler_balanced (h : Handler) : h.prog.Balanced SamePidOk [] := by
  have hdone : (Prog.done : LockProg).Balanced SamePidOk [] := rfl
  cases h with
  | initProc =>
    intro found _
    cases found with
    | false => simp
    | true => simp
  | io =>
    intro found _
    cases found with
    | false =>
      refine exitRoutineLocks_balanced ?_
      simp
    | true =>
      intro link _
      cases link with
      | false => simp
      | true =>
        intro pcb _
        cases pcb with
        | false => simp
        | true =>
          simpa using processPendingIoLocks_balanced hdone
  | exit =>
    refine exitRoutineLocks_balanced ?_
    simp
  | dump cpu =>
    intro pcb _
    cases pcb with
    | false => simp
    | true =>
      refine ⟨by simp, by simp, ?_⟩
      intro confirmation _
      cases confirmation with
      | true =>
        simpa using runShortScheduler_balanced hdone
      | false =>
        refine exitRoutineLocks_balanced ?_
        simp
  | newDevice =>
    refine ⟨by simp, by simp, ?_⟩
    intro link _
    cases link with
    | true => simpa using processPendingIoLocks_balanced hdone
    | false => simp
  | ioCompletion =>
    intro found _
    cases found with
    | false => simp
    | true =>
      simpa using processPendingIoLocks_balanced hdone
  | ioDisconnected rounds cpu =>
    intro found _
    cases found with
    | false => simp
    | true =>
      intro marked _
      cases marked with
      | false => simp
      | true =>
        intro pcb _
        cases pcb with
        | true =>
          refine exitRoutineLocks_balanced ?_
          simp
        | false =>
          refine ⟨by simp, ?_⟩
          intro susp _
          cases susp with
          | true =>
            refine exitRoutineLocks_balanced ⟨by simp, ?_⟩
            refine schedulersIfMoved_balanced ?_
            simp
          | false => simp
  | medium rounds cpu =>
    intro pcb _
    cases pcb with
    | false => simp
    | true =>
      intro elapsed _
      cases elapsed with
      | false => simp
      | true =>
        refine ⟨by simp, by simp, ?_⟩
        intro size _
        cases size with
        | false => simpa using schedulersIfMoved_balanced hdone
        | true =>
          intro success _
          cases success with
          | true => simpa using schedulersIfMoved_balanced hdone
          | false => simp
  | schedulers rounds cpu =>
    exact runLongScheduler_balanced (runShortScheduler_balanced hdone)
  | short cpu => exact runShortScheduler_balanced hdone
  | root rounds cpu =>
    refine ⟨by simp, ?_⟩
    simpa using schedulersIfMoved_balanced hdone

/-! ## 4. The paths of `run_short_scheduler` -/

/-- The path that the answers select waits on and posts every semaphore equally often. -/
def PathBalanced (cpu : Nat) (a : Question → Bool) : Prop :=
  ∀ sem, ((runShortScheduler cpu .done).trace a).count (.wait sem)
    = ((runShortScheduler cpu .done).trace a).count (.post sem)

/-- **One path is unbalanced**: the CPU is busy, preemption is decided, and the CPU answers for another
pid. -/
theorem pathBalanced_iff (cpu : Nat) (a : Question → Bool) :
    PathBalanced cpu a ↔
      ¬ (a .contextFound = true ∧ a .cpuFree = false ∧ a .preemptionEnabled = true ∧
        a .shouldPreempt = true ∧ a .samePid = false) := by
  unfold PathBalanced
  cases hfound : a .contextFound with
  | false => simp [runShortScheduler, hfound, List.count_cons]
  | true =>
    cases hfree : a .cpuFree with
    | true =>
      simp [runShortScheduler, shortUnlock, hfound, hfree, List.count_cons]
      omega
    | false =>
      cases henabled : a .preemptionEnabled with
      | false =>
        simp [runShortScheduler, hfound, hfree, henabled, List.count_cons]
      | true =>
        cases hpreempt : a .shouldPreempt with
        | false =>
          simp [runShortScheduler, shortUnlock, hfound, hfree, henabled, hpreempt,
            List.count_cons]
          omega
        | true =>
          cases hsame : a .samePid with
          | true =>
            simp [runShortScheduler, shortUnlock, hfound, hfree, henabled, hpreempt, hsame,
              List.count_cons]
            omega
          | false =>
            -- EXEC is waited on once and posted twice
            simp [runShortScheduler, shortUnlock, hfound, hfree, henabled, hpreempt, hsame,
              List.count_cons]
            exact ⟨.exec, by simp⟩

/-- The CPU that a call of `run_short_scheduler` gets in state `s`. -/
def shortCpu (cfg : Config) (s : State) (ch : Choice) : Nat :=
  (getCpuToDispatch cfg ch.execOrder s).2.getD 0

/-- The answers in one call of `run_short_scheduler`: the CPU and the process are chosen in state `s`,
the mark and EXEC are looked at in state `s'`, and the CPU_CONTEXT says `samePid`. -/
def shortAnswers (cfg : Config) (s : State) (ch : Choice) (s' : State) (srt samePid : Bool) :
    Question → Bool
  | .contextFound => !(shortSelect cfg s ch .plain).2.isEmpty
  | .cpuFree => (currentOn s' (shortCpu cfg s ch)).isNone
  | .preemptionEnabled => cfg.preemptionEnabled
  | .shouldPreempt => (currentOn s' (shortCpu cfg s ch)).any fun executing =>
      shouldPreemptExecutingProcess s' executing srt
  | .samePid => samePid
  | _ => true

/-- The unbalanced path, in terms of the states: a process and a busy CPU were found, its process is to
be preempted, and the CPU_CONTEXT is for another pid. -/
def InterruptsAnother (cfg : Config) (s : State) (ch : Choice) (s' : State) (srt samePid : Bool) :
    Prop :=
  (shortSelect cfg s ch .plain).2 ≠ [] ∧ cfg.preemptionEnabled = true ∧ samePid = false ∧
    ∃ executing, currentOn s' (shortCpu cfg s ch) = some executing ∧
      shouldPreemptExecutingProcess s' executing srt = true

theorem shortPath_balanced_iff (cfg : Config) (s : State) (ch : Choice) (s' : State)
    (srt samePid : Bool) :
    PathBalanced (shortCpu cfg s ch) (shortAnswers cfg s ch s' srt samePid) ↔
      ¬ InterruptsAnother cfg s ch s' srt samePid := by
  rw [pathBalanced_iff, InterruptsAnother]
  cases hcur : currentOn s' (shortCpu cfg s ch) with
  | none => simp [shortAnswers, hcur]
  | some executing =>
    simp only [shortAnswers, hcur, Bool.not_eq_true', List.isEmpty_eq_false_iff, Option.isNone_some,
      Option.any_some, Option.some.injEq, exists_eq_left']
    tauto

/-! ## 5. Whole runs -/

/-- EXEC is never above 1, and no two threads are inside its critical section. -/
def ExecExclusive (σ : SemState Sem Question) : Prop :=
  σ.count .exec ≤ 1 ∧ ∀ (i j : Nat) (t u : SemThread Sem Question),
    σ.threads[i]? = some t → σ.threads[j]? = some u →
    Sem.exec ∈ t.held → Sem.exec ∈ u.held → i = j

/-- **The locks of the short-term scheduler.**  A path through `run_short_scheduler` posts every
semaphore as often as it waits on it exactly when it is not the path on which a CPU answers an interrupt
for another pid; and along every run, of any handlers in any order, in which no CPU does that, EXEC
excludes. -/
theorem locks_balanced_and_exclusive (cfg : Config) (s : State) (ch : Choice) (s' : State)
    (srt samePid : Bool) :
    (PathBalanced (shortCpu cfg s ch) (shortAnswers cfg s ch s' srt samePid) ↔
      ¬ InterruptsAnother cfg s ch s' srt samePid) ∧
    (∀ (tr : List (Transition (SemState Sem Question) (SemLabel Handler)))
      (σ : SemState Sem Question), (semaphores Handler.prog).Run tr σ →
      (∀ x ∈ tr, AnswerOk SamePidOk x.src x.label) → ExecExclusive σ) := by
  refine ⟨shortPath_balanced_iff cfg s ch s' srt samePid, ?_⟩
  intro tr σ hr hok
  have hinv := semInv_run handler_balanced hr hok
  exact ⟨hinv.count_le_one .exec, fun i j t u hi hj ht hu => hinv.exclusive hi hj ht hu⟩

/-- The labels of a run that sends no answer for another pid. -/
def samePidOnly (tr : List (Transition (SemState Sem Question) (SemLabel Handler))) : Bool :=
  tr.all fun x =>
    match x.label with
    | .start _ => true
    | .run i answer =>
      match x.src.threads[i]? with
      | some ⟨.ask q _, _⟩ => decide (q ≠ .samePid) || answer
      | _ => true

theorem answerOk_of_samePidOnly {tr : List (Transition (SemState Sem Question) (SemLabel Handler))}
    (h : samePidOnly tr = true) : ∀ x ∈ tr, AnswerOk SamePidOk x.src x.label := by
  intro x hx
  have hx' := List.all_eq_true.mp h x hx
  obtain ⟨src, label, dst⟩ := x
  cases label with
  | start a => trivial
  | run i answer =>
    simp only [AnswerOk]
    simp only at hx'
    split
    · rename_i q next held hget
      simp only [hget, Bool.or_eq_true, decide_eq_true_eq] at hx'
      intro hq
      rcases hx' with hne | hans
      · exact absurd hq hne
      · exact hans
    · trivial

/-- One CPU, SJF with preemption. -/
def oneCpuSrt : Config := ⟨.sjf, .fifo, true, 1, 16⟩

/-- The theorem at work: a scheduler inside EXEC on a free CPU, while an EXIT waits for it. -/
theorem locks_balanced_and_exclusive_free_cpu :
    ∃ tr σ, (semaphores Handler.prog).Run tr σ ∧ σ.count .exec = 0 ∧ ExecExclusive σ := by
  obtain ⟨tr, σ, hrun, htest⟩ := Lts.exists_run_of_drive (SemState.start : SemState Sem Question)
    (semStep Handler.prog)
    [.start (.short 0), .start .exit, .run 0 true, .run 0 true, .run 0 true, .run 0 true,
      .run 0 true, .run 0 true]
    (fun tr σ => decide (σ.count .exec = 0) && samePidOnly tr) (by decide)
  simp only [Bool.and_eq_true, decide_eq_true_eq] at htest
  exact ⟨tr, σ, hrun, htest.1,
    (locks_balanced_and_exclusive oneCpuSrt (State.start oneCpuSrt) {} (State.start oneCpuSrt)
      true false).2 tr σ hrun (answerOk_of_samePidOnly htest.2)⟩

/-- Without the condition both halves fail.  The root process runs and process 1 is in READY when
`run_short_scheduler` is called; it decides to preempt, the CPU answers for another pid, and EXEC has
been posted once too often: two EXIT syscalls are then inside the critical section together. -/
theorem not_locks_balanced_other_pid :
    (∃ tr s, (kernel oneCpuSrt).Run tr s ∧
      ¬ PathBalanced (shortCpu oneCpuSrt s {}) (shortAnswers oneCpuSrt s {} s true false)) ∧
    ∃ tr σ, (semaphores Handler.prog).Run tr σ ∧ ¬ ExecExclusive σ := by
  constructor
  · obtain ⟨tr, s, hrun, htest⟩ := Lts.exists_run_of_drive (State.start oneCpuSrt) (step oneCpuSrt)
      (List.replicate 8 (.run 0 {}) ++ .arrive (.initProc 0 1 16) :: List.replicate 7 (.run 0 {}))
      (fun _ s => !(shortSelect oneCpuSrt s {} .plain).2.isEmpty &&
        decide (currentOn s (shortCpu oneCpuSrt s {}) = some 0)) (by decide)
    simp only [Bool.and_eq_true, Bool.not_eq_true', List.isEmpty_eq_false_iff,
      decide_eq_true_eq] at htest
    refine ⟨tr, s, hrun, ?_⟩
    rw [shortPath_balanced_iff, not_not]
    exact ⟨htest.1, rfl, rfl, 0, htest.2, by simp [shouldPreemptExecutingProcess]⟩
  · obtain ⟨tr, σ, hrun, htest⟩ := Lts.exists_run_of_drive
      (SemState.start : SemState Sem Question) (semStep Handler.prog)
      [.start (.short 0), .run 0 true, .run 0 true, .run 0 true, .run 0 true, .run 0 false,
        .run 0 true, .run 0 true, .run 0 true, .run 0 true, .run 0 false,
        .run 0 true, .run 0 true, .run 0 true, .run 0 true,
        .start .exit, .start .exit, .run 1 true, .run 2 true]
      (fun _ σ => (σ.threads[1]?).any (fun t => t.held.contains .exec) &&
        (σ.threads[2]?).any (fun t => t.held.contains .exec)) (by decide)
    simp only [Bool.and_eq_true, Option.any_eq_true, List.contains_iff_mem] at htest
    obtain ⟨⟨t, ht, htexec⟩, u, hu, huexec⟩ := htest
    refine ⟨tr, σ, hrun, ?_⟩
    intro hex
    exact absurd (hex.2 1 2 t u ht hu htexec huexec) (by simp)

end Tpso.Kernel
