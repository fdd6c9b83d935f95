/-
# The queues of the kernel are first in, first out

Three of the kernel's lists are meant to be queues: READY under FIFO, NEW under FIFO, and the requests
of each device name.  The code takes the first item of each in one critical section and removes it in
another, after a message to a CPU, to memoria or to a device, and it removes it BY PID.  That the item
removed is the first one follows from the locks that are kept in between.

Each law is an equation about a whole run.  The DISPATCH packages sent, in their order, followed by
READY, are the processes in the order in which they entered READY (`ready_fifo`).  The processes admitted,
in their order, followed by NEW, are all pids from 0 on (`new_fifo`).  The requests accepted for a
device name are those sent to its devices followed by those that wait (`requests_fifo`).  None of them
needs the lists to be tidy.
-/
import Tpso.Kernel.Packages
import Tpso.Kernel.Lifecycle
import Tpso.Lib.Conservation

namespace Tpso.Kernel

open Tpso.Lib

/-! ## 1. What enters a list -/

/-- The calls of `pcb_change_state` in a step. -/
def calls (x : Transition State Event) : List (Nat × ProcessState) :=
  match x.label with
  | .arrive _ => []
  | .run i ch =>
    match x.src.threads[i]? with
    | none => []
    | some t => changes x.src ch t

/-- The processes that some calls put into a state. -/
def into (st : ProcessState) (calls : List (Nat × ProcessState)) : List Nat :=
  calls.filterMap fun c => if c.2 = st then some c.1 else none

/-- The process that a DISPATCH is for. -/
def Package.dispatched : Package → Option Nat
  | .dispatch _ pid _ => some pid
  | _ => none

/-- The processes dispatched so far, the first one first. -/
def State.dispatches (s : State) : List Nat := s.sent.reverse.filterMap Package.dispatched

/-! ## 2. What a section adds to a list -/

section Lists

variable {cfg : Config} {s s' : State} {ch : Choice} {t : Thread}

@[simp]
theorem queue_addPcbTo (a b : ProcessState) (pid : Nat) (s : State) :
    (addPcbTo a pid s).queue b = if b = a then s.queue a ++ [pid] else s.queue b := by
  by_cases hb : b = a
  · subst hb
    simp [addPcbTo]
  · simp [addPcbTo, hb]

@[simp]
theorem queue_removePcbFrom (a b : ProcessState) (pid : Nat) (s : State) :
    (removePcbFrom a pid s).queue b = if b = a then (s.queue a).erase pid else s.queue b := by
  by_cases hb : b = a
  · subst hb
    simp [removePcbFrom]
  · simp [removePcbFrom, hb]

theorem queue_sortList {a b : ProcessState} (order : List Nat) (s : State) (hb : b ≠ a) :
    (sortList a order s).queue b = s.queue b := by
  unfold sortList
  split
  · simp [hb]
  · rfl

theorem queue_longReturn (s : State) (caller : LongCaller) (moved : Bool) :
    (longReturn s caller moved).1.queue = s.queue := (longReturn_same s caller moved).1.queue

/-- `getNextProcessToInitializeFrom` reorders its own list at most. -/
theorem queue_of_next {st : ProcessState} {order : List Nat} {next : Option Nat}
    (h : getNextProcessToInitializeFrom cfg st order s = (s', next)) {a : ProcessState} (ha : a ≠ st) :
    s'.queue a = s.queue a := by
  obtain ⟨order', heq⟩ := getNextProcessToInitializeFrom_eq s cfg st order
  rw [h] at heq
  rw [show s' = sortList st order' s from heq, queue_sortList order' s ha]

theorem queue_longScan (order : List Nat) (caller : LongCaller) (moved : Bool) {a : ProcessState}
    (ha : a ≠ .suspReady) : (longScan cfg s order caller moved).1.queue a = s.queue a := by
  unfold longScan
  split
  · rename_i s' hnext
    exact queue_of_next hnext ha
  · rename_i s' q hnext
    exact queue_of_next hnext ha

theorem queue_longNew (order : List Nat) (caller : LongCaller) (moved : Bool) {a : ProcessState}
    (ha : a ≠ .new) : (longNew cfg s order caller moved).1.queue a = s.queue a := by
  unfold longNew
  split
  · rename_i s' hnext
    rw [queue_longReturn]
    exact queue_of_next hnext ha
  · rename_i s' q hnext
    exact queue_of_next hnext ha

/-- The pid that is given in a step. -/
def born (s s' : State) : List Nat := if s'.newPid = s.newPid then [] else [s'.newPid]

theorem born_of_eq (h : s'.newPid = s.newPid) : born s s' = [] := if_pos h

/-- What a section leaves of a list it takes nothing from, when it creates no PCB. -/
def Adds (a : ProcessState) (s s' : State) (ch : Choice) (t : Thread) : Prop :=
  s'.queue a = s.queue a ++ into a (changes s ch t)

/-- A list that a section leaves alone, while it makes no call for it. -/
theorem adds_of_eq {a : ProcessState} (hqueue : s'.queue a = s.queue a)
    (hnil : into a (changes s ch t) = []) : Adds a s s' ch t := by
  rw [Adds, hqueue, hnil, List.append_nil]

/-- A PCB that moves between two lists, seen from a list it does not leave. -/
theorem adds_movePcb {k : State} {a src dst : ProcessState} {pid : Nat} (hk : k.queue = s.queue)
    (ha : a ≠ src) (hcalls : changes s ch t = [(pid, dst)]) : Adds a s (movePcb src dst pid k) ch t := by
  rw [Adds, hcalls]
  by_cases hdst : a = dst
  · subst hdst
    simp [into, movePcb, ha, hk]
  · simp [into, movePcb, ha, hdst, Ne.symm hdst, hk]

theorem adds_exit {a : ProcessState} {pid : Nat} (ha : a ≠ .exec)
    (hcalls : changes s ch t = if findPcbIn .exec pid s then [(pid, .exit)] else []) :
    Adds a s (exitProcessSyscall s pid).1 ch t := by
  unfold exitProcessSyscall
  split
  · rename_i hfound
    exact adds_movePcb rfl ha (by rw [hcalls, if_pos hfound])
  · rename_i hfound
    refine adds_of_eq rfl ?_
    rw [hcalls, if_neg hfound]
    rfl

theorem adds_io {a : ProcessState} {pid : Nat} {pc sleepTime : Int} {deviceName : String}
    (ha : a ≠ .exec) : Adds a s (handleIoProcessSyscall s pid pc sleepTime deviceName).1 ch
      (.io pid pc sleepTime deviceName) := by
  unfold handleIoProcessSyscall
  split
  · rename_i hnone
    exact adds_exit ha (by simp [changes, hnone])
  · rename_i connection hsome
    split
    · rename_i hnone
      exact adds_of_eq rfl (by simp [changes, hsome, hnone, into])
    · rename_i requests hrequests
      split
      · rename_i hfound
        exact adds_movePcb (t := .io pid pc sleepTime deviceName) rfl ha
          (by simp [changes, hsome, hrequests, hfound])
      · rename_i hfound
        exact adds_of_eq rfl (by simp [changes, hfound, into])

theorem adds_ioCompletion {a : ProcessState} {socket pid : Nat} {deviceName : String}
    (ha : a ≠ .blocked) (ha' : a ≠ .suspBlocked) :
    Adds a s (ioCompletion s socket deviceName pid).1 ch (.ioCompletion socket deviceName pid) := by
  unfold ioCompletion
  split
  · rename_i hnone
    exact adds_of_eq rfl (by simp [changes, hnone, into])
  · rename_i connection hsome
    split
    · rename_i hfound
      exact adds_movePcb (t := .ioCompletion socket deviceName pid) rfl ha (by simp [changes, hsome, hfound])
    · rename_i hblocked
      split
      · rename_i hfound
        exact adds_movePcb (t := .ioCompletion socket deviceName pid) rfl ha'
          (by simp [changes, hsome, hblocked, hfound])
      · rename_i hfound
        exact adds_of_eq rfl (by simp [changes, hsome, hblocked, hfound, into])

theorem adds_ioDisconnected {a : ProcessState} {socket : Nat} (ha : a ≠ .blocked) :
    Adds a s (ioDisconnected s socket).1 ch (.ioDisconnected socket) := by
  unfold ioDisconnected
  split
  · rename_i hnone
    exact adds_of_eq rfl (by simp [changes, hnone, into])
  · rename_i connection hsome
    split
    · rename_i hidle
      exact adds_of_eq rfl (by simp [changes, hsome, hidle, into])
    · rename_i pid hbusy
      split
      · rename_i hfound
        exact adds_movePcb (t := .ioDisconnected socket) rfl ha (by simp [changes, hsome, hbusy, hfound])
      · rename_i hfound
        exact adds_of_eq rfl (by simp [changes, hsome, hbusy, hfound, into])

theorem adds_mediumRollback {a : ProcessState} {pid : Nat} (ha : a ≠ .suspBlocked)
    (hcalls : changes s ch t = if findPcbIn .suspBlocked pid s then [(pid, .blocked)] else []) :
    Adds a s (mediumRollback s pid) ch t := by
  unfold mediumRollback
  split
  · rename_i hfound
    exact adds_movePcb rfl ha (by rw [hcalls, if_pos hfound])
  · rename_i hfound
    refine adds_of_eq rfl ?_
    rw [hcalls, if_neg hfound]
    rfl

theorem adds_short {a : ProcessState} (ha : a ≠ .exec) (ha' : a ≠ .ready) (caller : ShortCaller) :
    Adds a s (shortSelect cfg s ch caller).1 ch (.short caller) := by
  obtain ⟨s1, execOrder, order, hclear, hsame, -⟩ := shortSelect_cases cfg s ch caller
  have h1 : s1.queue = s.queue := by
    rcases hclear with rfl | ⟨cpu, -, rfl⟩
    · rfl
    · rfl
  refine adds_of_eq ?_ rfl
  rw [hsame.queue, queue_sortList _ _ ha', queue_sortList _ _ ha, h1]

theorem adds_shortSelected {a : ProcessState} (ha : a ≠ .ready) (caller : ShortCaller) (cpu pid : Nat) :
    Adds a s (shortDecide cfg s caller cpu pid ch.preempt).1 ch (.shortSelected caller cpu pid) := by
  unfold shortDecide
  split
  · rename_i hnone
    have hmove : Adds a s (movePcb .ready .exec pid s) ch (.shortSelected caller cpu pid) :=
      adds_movePcb rfl ha (by simp [changes, hnone])
    rw [Adds, (shortReturn_same _ caller).1.queue, mem_queue_dispatch]
    exact hmove
  · rename_i executing hcur
    have hnil : into a (changes s ch (.shortSelected caller cpu pid)) = [] := by
      simp [changes, hcur, into]
    split
    · exact adds_of_eq rfl hnil
    · exact adds_of_eq (by rw [(shortReturn_same s caller).1.queue]) hnil

theorem adds_shortWait {a : ProcessState} (ha : a ≠ .exec) (ha' : a ≠ .ready) (caller : ShortCaller)
    (cpu pid : Nat) : Adds a s (shortAnswered s caller cpu pid ch.answer ch.pc).1 ch
      (.shortWait caller cpu pid) := by
  have hnil : into a (changes s ch (.shortWait caller cpu pid)) = [] := by
    simp only [changes]
    split
    · simp [into, Ne.symm ha]
    · split
      · simp [into, Ne.symm ha, Ne.symm ha']
      · simp [into, Ne.symm ha]
  refine adds_of_eq ?_ hnil
  rw [shortAnswered, (shortReturn_same _ caller).1.queue, mem_queue_dispatch]
  rcases preempt_queue s cpu ch with heq | ⟨executing, -, -, -, heq⟩
  · simp [movePcb, ha, ha', heq]
  · simp [movePcb, ha, ha', heq]

/-- **A list that a section takes nothing from grows by the calls for it**, and NEW by the PCB that the
section creates. -/
theorem list_section {a : ProcessState} (ha : a ∉ t.takesFrom)
    (hnew : a = .new → s.newPid + 1 ∉ s.queue .new) :
    (nextSection cfg s ch t).1.queue a = s.queue a ++ into a (changes s ch t) ++
      if a = .new then born s (nextSection cfg s ch t).1 else [] := by
  have hlist : t.isInitProc = false → Adds a s (nextSection cfg s ch t).1 ch t →
      (nextSection cfg s ch t).1.queue a = s.queue a ++ into a (changes s ch t) ++
        if a = .new then born s (nextSection cfg s ch t).1 else [] := by
    intro hinit hadds
    rw [hadds, born_of_eq (newPid_section hinit)]
    simp
  cases t with
  | initProc callerPid callerPc size =>
    simp only [nextSection, handleInitProcSyscall, changes, into]
    by_cases hst : a = .new
    · subst hst
      split
      · simp [findPcbIn, setPc, hnew rfl, born, addPcbToNew, send]
      · simp [born]
    · split
      · split
        · simp [setPc]
        · simp [setPc, addPcbToNew, send, hst]
      · simp
  | io pid pc sleepTime deviceName => exact hlist rfl (adds_io (by simpa [Thread.takesFrom] using ha))
  | exit pid => exact hlist rfl (adds_exit (by simpa [Thread.takesFrom] using ha) rfl)
  | dump pid pc =>
    have ha : a ≠ .exec := by simpa [Thread.takesFrom] using ha
    refine hlist rfl ?_
    simp only [nextSection, dumpMemorySyscall]
    split
    · rename_i hfound
      exact adds_movePcb (t := .dump pid pc) rfl ha (by simp [changes, hfound])
    · rename_i hfound
      exact adds_of_eq rfl (by simp [changes, hfound, into])
  | newDevice socket deviceName =>
    refine hlist rfl (adds_of_eq ?_ rfl)
    simp only [nextSection, processNewDevice]
    split
    · rfl
    · rfl
  | ioCompletion socket deviceName pid =>
    have ha : a ≠ .blocked ∧ a ≠ .suspBlocked := by simpa [Thread.takesFrom] using ha
    exact hlist rfl (adds_ioCompletion ha.1 ha.2)
  | ioDisconnected socket => exact hlist rfl (adds_ioDisconnected (by simpa [Thread.takesFrom] using ha))
  | dumpWait pid =>
    have ha : a ≠ .blocked := by simpa [Thread.takesFrom] using ha
    refine hlist rfl ?_
    cases hans : ch.answer with
    | true =>
      simp only [nextSection, dumpMemoryAnswered, hans, ↓reduceIte]
      exact adds_movePcb (t := .dumpWait pid) rfl ha (by simp [changes, hans])
    | false =>
      simp only [nextSection, dumpMemoryAnswered, hans, Bool.false_eq_true, ↓reduceIte]
      exact adds_movePcb (t := .dumpWait pid) rfl ha (by simp [changes, hans])
  | pendingIo deviceName socket after =>
    refine hlist rfl (adds_of_eq ?_ rfl)
    simp only [nextSection, (processPendingIo_same s deviceName socket ch.answer).queue]
  | disconnectSusp socket pid =>
    have ha : a ≠ .suspBlocked := by simpa [Thread.takesFrom] using ha
    refine hlist rfl ?_
    simp only [nextSection, handleFoundSuspended]
    split
    · rename_i hfound
      exact adds_movePcb (t := .disconnectSusp socket pid) rfl ha (by simp [changes, hfound])
    · rename_i hfound
      exact adds_of_eq rfl (by simp [changes, hfound, into])
  | medium pid =>
    have ha : a ≠ .blocked := by simpa [Thread.takesFrom] using ha
    refine hlist rfl ?_
    simp only [nextSection, runMediumScheduler]
    split
    · rename_i hfound
      split
      · rename_i helapsed
        exact adds_movePcb (t := .medium pid) rfl ha (by simp [changes, hfound, helapsed])
      · rename_i helapsed
        exact adds_of_eq rfl (by simp [changes, helapsed, into])
    · rename_i hfound
      exact adds_of_eq rfl (by simp [changes, hfound, into])
  | mediumSwap pid =>
    have ha : a ≠ .suspBlocked := by simpa [Thread.takesFrom] using ha
    refine hlist rfl ?_
    cases hcon : ch.connected with
    | true => exact adds_of_eq (by simp [nextSection, hcon]) (by simp [changes, hcon, into])
    | false =>
      have hroll : Adds a s (mediumRollback s pid) ch (.mediumSwap pid) :=
        adds_mediumRollback ha (by simp [changes, hcon])
      simpa [nextSection, hcon] using hroll
  | mediumSent pid => exact hlist rfl (adds_of_eq rfl rfl)
  | mediumAnswered pid success =>
    have hne : a ≠ .suspBlocked := by simpa [Thread.takesFrom] using ha
    refine hlist rfl ?_
    cases success with
    | true => exact adds_of_eq rfl (by simp [changes, into])
    | false => exact adds_mediumRollback (t := .mediumAnswered pid false) hne (by simp [changes])
  | long caller =>
    refine hlist rfl (adds_of_eq ?_ rfl)
    cases hcon : ch.connected with
    | true => simp [nextSection, hcon]
    | false => simp [nextSection, hcon, queue_longReturn]
  | longScan caller moved =>
    exact hlist rfl (adds_of_eq (queue_longScan _ _ _ (by simpa [Thread.takesFrom] using ha)) rfl)
  | longUnsuspend pid caller moved => exact hlist rfl (adds_of_eq rfl rfl)
  | longAnswered pid success caller moved =>
    have hne : a ≠ .suspReady := by simpa [Thread.takesFrom] using ha
    refine hlist rfl (adds_of_eq ?_ rfl)
    cases success with
    | true => simp [nextSection, longAnswered, hne]
    | false => simp [nextSection, longAnswered]
  | longMove popped caller =>
    refine hlist rfl ?_
    cases popped with
    | none => exact adds_of_eq rfl rfl
    | some pid =>
      by_cases hst : a = .ready
      · subst hst
        simp [Adds, nextSection, longMove, changes, into]
      · simp [Adds, nextSection, longMove, changes, into, hst, Ne.symm hst]
  | longLock caller moved => exact hlist rfl (adds_of_eq rfl rfl)
  | longNew caller moved =>
    exact hlist rfl (adds_of_eq (queue_longNew _ _ _ (by simpa [Thread.takesFrom] using ha)) rfl)
  | longCreate pid caller moved =>
    have ha : a ≠ .new := by simpa [Thread.takesFrom] using ha
    refine hlist rfl ?_
    simp only [nextSection, longCreate]
    split
    · rename_i hans
      split
      · rename_i hfound
        exact adds_movePcb (t := .longCreate pid caller moved) rfl ha (by simp [changes, hans, hfound])
      · rename_i hfound
        exact adds_of_eq rfl (by simp [changes, hfound, into])
    · rename_i hans
      exact adds_of_eq (by rw [queue_longReturn]) (by simp [changes, hans, into])
  | short caller =>
    have ha : a ≠ .exec ∧ a ≠ .ready := by simpa [Thread.takesFrom] using ha
    exact hlist rfl (adds_short ha.1 ha.2 caller)
  | shortSelected caller cpu pid =>
    exact hlist rfl (adds_shortSelected (by simpa [Thread.takesFrom] using ha) caller cpu pid)
  | shortWait caller cpu pid =>
    have ha : a ≠ .exec ∧ a ≠ .ready := by simpa [Thread.takesFrom] using ha
    exact hlist rfl (adds_shortWait ha.1 ha.2 caller cpu pid)

/-- No call puts a process into NEW. -/
theorem into_new : into .new (changes s ch t) = [] := by
  refine List.filterMap_eq_nil_iff.mpr fun c hc => if_neg ?_
  cases t with
  | shortWait caller cpu pid =>
    simp only [changes] at hc
    grind
  | longMove popped caller =>
    cases popped with
    | none => simp [changes] at hc
    | some pid => simp_all [changes]
  | _ =>
    simp only [changes] at hc
    grind

/-- A section that is not one of the short-term scheduler only adds to READY. -/
theorem ready_section (ht : t.isSpecial = false ∨ ∃ pid, t = .dumpWait pid) :
    (nextSection cfg s ch t).1.queue .ready = s.queue .ready ++ into .ready (changes s ch t) := by
  have htakes : ProcessState.ready ∉ t.takesFrom := by
    rcases ht with ht | ⟨pid, rfl⟩
    · cases t <;> simp [Thread.takesFrom, Thread.isSpecial] at ht ⊢
    · simp [Thread.takesFrom]
  simpa using list_section htakes (by simp)

/-! ## 3. READY -/

/-- The handlers send no DISPATCH. -/
theorem dispatches_section (ht : t.isSpecial = false ∨ ∃ pid, t = .dumpWait pid) :
    (nextSection cfg s ch t).1.dispatches = s.dispatches := by
  have hsilent : ∀ {k : State}, k.sent = s.sent → k.dispatches = s.dispatches := by
    intro k hk
    rw [State.dispatches, hk, State.dispatches]
  have hexit : ∀ pid, (exitProcessSyscall s pid).1.sent = s.sent := by
    intro pid
    unfold exitProcessSyscall
    split
    · rfl
    · rfl
  cases hloud : isLoud t with
  | false => exact hsilent (nextSection_silent hloud).sent
  | true =>
    cases t with
    | initProc callerPid callerPc size =>
      simp only [nextSection, handleInitProcSyscall]
      split
      · split
        · rfl
        · simp [State.dispatches, send, addPcbToNew, setPc, Package.dispatched]
      · rfl
    | io pid pc sleepTime deviceName =>
      simp only [nextSection, handleIoProcessSyscall]
      split
      · exact hsilent (hexit pid)
      · split
        · rfl
        · split
          · rfl
          · rfl
    | exit pid => exact hsilent (hexit pid)
    | newDevice socket deviceName =>
      simp only [nextSection, processNewDevice]
      split
      · rfl
      · rfl
    | pendingIo deviceName socket after =>
      simp only [nextSection, processPendingIo]
      split
      · rfl
      · split
        · rfl
        · split
          · rfl
          · split
            · rfl
            · split
              · simp [State.dispatches, send, setIoCurrent, setIoRequests, Package.dispatched]
              · rfl
    | shortSelected caller cpu pid => simp [Thread.isSpecial] at ht
    | shortWait caller cpu pid => simp [Thread.isSpecial] at ht
    | _ => simp [isLoud] at hloud

/-- The processes dispatched, and then READY. -/
def State.readyLog (s : State) : List Nat := s.dispatches ++ s.queue .ready

/-- The selected process is the first of READY. -/
def FirstSelected (s : State) : Prop :=
  ∀ t ∈ s.threads, ∀ pid, t.selected = some pid → (s.queue .ready).head? = some pid

/-- **A dispatch of the first process moves it from READY to the packages.** -/
theorem readyLog_dispatch {pid : Nat} (h : (s.queue .ready).head? = some pid) (cpu : Nat) :
    (dispatch cpu pid s).readyLog = s.readyLog := by
  obtain ⟨rest, hrest⟩ : ∃ rest, s.queue .ready = pid :: rest := List.head?_eq_some_iff.mp h
  simp [State.readyLog, State.dispatches, dispatch, setCurrent, send, Package.dispatched, hrest]
  rfl

theorem readyLog_shortReturn (s : State) (caller : ShortCaller) :
    (shortReturn s caller).1.readyLog = s.readyLog := by
  cases caller with
  | plain => rfl
  | disconnect socket => rfl

/-- What a preemption does to READY. -/
theorem readyLog_preempt (s : State) (ch : Choice) (caller : ShortCaller) (cpu pid : Nat) :
    (preempt s cpu ch.answer ch.pc).readyLog =
      s.readyLog ++ into .ready (changes s ch (.shortWait caller cpu pid)) := by
  unfold preempt
  split
  · rename_i hnone
    simp [changes, hnone, into]
  · rename_i executing hcur
    split
    · rename_i hok
      simp [changes, hcur, hok, into, State.readyLog, movePcb, setPc]
      rfl
    · rename_i hok
      simp [changes, hcur, hok, into]

/-- The first of READY stays first when a process is preempted. -/
theorem head_preempt {pid : Nat} (h : (s.queue .ready).head? = some pid) (cpu : Nat) (samePid : Bool)
    (pc : Int) : ((preempt s cpu samePid pc).queue .ready).head? = some pid := by
  unfold preempt
  split
  · exact h
  · split
    · simp [movePcb, setPc, h]
    · exact h

/-- **The choice of a process under FIFO**: READY is left as it is, and the process chosen is its
first. -/
theorem shortSelect_fifo (hfifo : cfg.shortTermAlgorithm ≠ .sjf) (caller : ShortCaller) :
    (shortSelect cfg s ch caller).1.readyLog = s.readyLog ∧
      ∀ u ∈ (shortSelect cfg s ch caller).2, ∀ pid, u.selected = some pid →
        ((shortSelect cfg s ch caller).1.queue .ready).head? = some pid := by
  have hsent : (shortSelect cfg s ch caller).1.dispatches = s.dispatches := by
    rw [State.dispatches, (silent_shortSelect s caller).sent, State.dispatches]
  have hcpu : (getCpuToDispatch cfg ch.execOrder s).1.queue .ready = s.queue .ready := by
    rcases getCpuToDispatch_cases cfg ch.execOrder s with ⟨cpu, -, -, heq⟩ | ⟨order, cpu, heq, -⟩
    · rw [heq]
      rfl
    · rw [heq]
      exact queue_sortList order s (by simp)
  have hready : (shortSelect cfg s ch caller).1.queue .ready = s.queue .ready ∧
      ∀ u ∈ (shortSelect cfg s ch caller).2, ∀ pid, u.selected = some pid →
        (s.queue .ready).head? = some pid := by
    unfold shortSelect
    split
    · rename_i s1 heq
      rw [heq] at hcpu
      have hsame := shortReturn_same s1 caller
      refine ⟨by rw [hsame.1.queue]; exact hcpu, ?_⟩
      rw [hsame.2]
      simp
    · rename_i s1 cpu heq
      rw [heq] at hcpu
      simp only [getNextProcessToDispatch, if_neg hfifo]
      split
      · rename_i s2 hnext
        obtain ⟨rfl, -⟩ := Prod.mk.inj hnext
        have hsame := shortReturn_same s1 caller
        refine ⟨by rw [hsame.1.queue]; exact hcpu, ?_⟩
        rw [hsame.2]
        simp
      · rename_i s2 pid hnext
        obtain ⟨rfl, hhead⟩ := Prod.mk.inj hnext
        refine ⟨hcpu, ?_⟩
        intro u hu q hq
        obtain rfl := List.mem_singleton.mp hu
        obtain rfl : pid = q := by simpa [Thread.selected] using hq
        rw [← hcpu]
        exact hhead
  refine ⟨by rw [State.readyLog, hsent, hready.1, State.readyLog], ?_⟩
  rw [hready.1]
  exact hready.2

/-- **Every section adds to READY what it puts there, and takes only the process it dispatches.** -/
theorem readyLog_section (hfifo : cfg.shortTermAlgorithm ≠ .sjf)
    (hsel : ∀ pid, t.selected = some pid → (s.queue .ready).head? = some pid) :
    (nextSection cfg s ch t).1.readyLog = s.readyLog ++ into .ready (changes s ch t) := by
  by_cases ht : t.isSpecial = false ∨ ∃ pid, t = .dumpWait pid
  · rw [State.readyLog, dispatches_section ht, ready_section ht, State.readyLog, List.append_assoc]
  · cases t with
    | short caller =>
      rw [nextSection, (shortSelect_fifo hfifo caller).1]
      simp [changes, into]
    | shortSelected caller cpu pid =>
      have hhead := hsel pid rfl
      simp only [nextSection, shortDecide]
      split
      · rename_i hnone
        rw [readyLog_shortReturn, readyLog_dispatch hhead]
        simp [changes, hnone, into]
      · rename_i executing hcur
        have hnil : into .ready (changes s ch (.shortSelected caller cpu pid)) = [] := by
          simp [changes, hcur, into]
        rw [hnil, List.append_nil]
        split
        · simp [State.readyLog, State.dispatches, send, Package.dispatched]
        · exact readyLog_shortReturn s caller
    | shortWait caller cpu pid =>
      have hhead := head_preempt (hsel pid rfl) cpu ch.answer ch.pc
      simp only [nextSection, shortAnswered]
      rw [readyLog_shortReturn, readyLog_dispatch hhead, readyLog_preempt s ch caller cpu pid]
    | dumpWait pid => exact absurd (Or.inr ⟨pid, rfl⟩) ht
    | _ => exact absurd (Or.inl rfl) ht

/-- A section that does not lock READY leaves it alone. -/
theorem ready_unlocked (hlock : Lock.ready ∉ t.uses) :
    (nextSection cfg s ch t).1.queue .ready = s.queue .ready := by
  have ht : t.isSpecial = false := by
    cases t with
    | short caller => simp [Thread.uses] at hlock
    | shortSelected caller cpu pid => simp [Thread.uses, Thread.holds] at hlock
    | shortWait caller cpu pid => simp [Thread.uses, Thread.holds] at hlock
    | dumpWait pid => simp [Thread.uses] at hlock
    | _ => rfl
  have hnil : into .ready (changes s ch t) = [] := by
    cases t with
    | ioCompletion socket deviceName pid => simp [Thread.uses] at hlock
    | longMove popped caller => simp [Thread.uses] at hlock
    | longCreate pid caller moved => simp [Thread.uses, Thread.holds] at hlock
    | _ =>
      simp only [changes]
      grind [into, Thread.isSpecial]
  rw [ready_section (Or.inl ht), hnil, List.append_nil]

/-- The processes that the threads after a section have selected are the first of READY. -/
theorem firstSelected_section (hfifo : cfg.shortTermAlgorithm ≠ .sjf)
    (hsel : ∀ pid, t.selected = some pid → (s.queue .ready).head? = some pid) :
    ∀ u ∈ (nextSection cfg s ch t).2, ∀ pid, u.selected = some pid →
      ((nextSection cfg s ch t).1.queue .ready).head? = some pid := by
  intro u hu q hq
  cases hspecial : t.isSpecial with
  | false => simp [nextSection_selected cfg s ch hspecial u hu] at hq
  | true =>
    cases t with
    | dumpWait pid =>
      obtain ⟨-, -, -, hthreads | hthreads⟩ := dumpMemoryAnswered_cases s pid ch.answer
      · simp [nextSection, hthreads] at hu
      · obtain rfl : u = .short .plain := by simpa [nextSection, hthreads] using hu
        simp [Thread.selected] at hq
    | short caller => exact (shortSelect_fifo hfifo caller).2 u hu q hq
    | shortSelected caller cpu pid =>
      have hhead := hsel pid rfl
      rcases shortDecide_cases cfg s caller cpu pid ch.preempt with ⟨-, -, hnil⟩ |
        ⟨hsame, hthreads | hthreads⟩
      · simp [nextSection, hnil] at hu
      · simp [nextSection, hthreads] at hu
      · obtain rfl : u = .shortWait caller cpu pid := by simpa [nextSection, hthreads] using hu
        obtain rfl : pid = q := by simpa [Thread.selected] using hq
        show ((shortDecide cfg s caller cpu pid ch.preempt).1.queue .ready).head? = some pid
        rwa [hsame.queue]
    | shortWait caller cpu pid => simp [nextSection, shortAnswered, (shortReturn_same _ caller).2] at hu
    | _ => simp [Thread.isSpecial] at hspecial

/-- **The selected process stays the first of READY**, because its thread holds the lock. -/
theorem firstSelected_step {e : Event} (hfifo : cfg.shortTermAlgorithm ≠ .sjf) (h : FirstSelected s)
    (hst : step cfg s e = some s') : FirstSelected s' := by
  cases e with
  | arrive handler =>
    obtain ⟨hhandler, rfl⟩ := step_arrive hst
    intro u hu pid hpid
    rcases List.mem_append.mp hu with hu | hu
    · exact h u hu pid hpid
    · rw [List.mem_singleton.mp hu, (isHandler_facts hhandler).2] at hpid
      exact absurd hpid (by simp)
  | run i ch =>
    obtain ⟨t, others, -, hperm, hfree, -, rfl⟩ := step_run hst
    have hmem : ∀ u ∈ t :: others, u ∈ s.threads := fun u hu => hperm.mem_iff.mpr hu
    intro u hu pid hpid
    rcases List.mem_append.mp hu with hu | hu
    · have hlock : Lock.ready ∉ t.uses := fun hl =>
        not_selected_of_free hfree hl hu hpid
      show ((nextSection cfg s ch t).1.queue .ready).head? = some pid
      rw [ready_unlocked hlock]
      exact h u (hmem u (List.mem_cons_of_mem _ hu)) pid hpid
    · exact firstSelected_section hfifo (h t (hmem t List.mem_cons_self)) u hu pid hpid

theorem readyLog_step {e : Event} (hfifo : cfg.shortTermAlgorithm ≠ .sjf) (h : FirstSelected s)
    (hst : step cfg s e = some s') :
    s'.readyLog = s.readyLog ++ into .ready (calls ⟨s, e, s'⟩) := by
  cases e with
  | arrive handler =>
    obtain ⟨-, rfl⟩ := step_arrive hst
    exact (List.append_nil _).symm
  | run i ch =>
    obtain ⟨t, others, hget, hperm, -, -, rfl⟩ := step_run hst
    have hsel := h t (hperm.mem_iff.mpr List.mem_cons_self)
    simp only [calls, hget]
    exact readyLog_section hfifo hsel

/-! ## 4. NEW -/

/-- The processes that a section of the long-term scheduler admits from NEW. -/
def admits (s : State) (ch : Choice) (t : Thread) : List Nat :=
  match t with
  | .longCreate _ _ _ => into .ready (changes s ch t)
  | _ => []

/-- The processes admitted from NEW in a step. -/
def admitted (x : Transition State Event) : List Nat :=
  match x.label with
  | .arrive _ => []
  | .run i ch =>
    match x.src.threads[i]? with
    | none => []
    | some t => admits x.src ch t

/-- The process that memoria is asked to create is the first of NEW. -/
def FirstPicked (s : State) : Prop :=
  ∀ t ∈ s.threads, ∀ pid, t.picked = some (.new, pid) → (s.queue .new).head? = some pid

/-- NEW holds pids that have been given. -/
def NewGiven (s : State) : Prop := ∀ pid ∈ s.queue .new, pid ≤ s.newPid

theorem NewGiven.fresh (h : NewGiven s) : s.newPid + 1 ∉ s.queue .new :=
  fun hmem => absurd (h _ hmem) (by omega)

/-- What follows when FIFO chooses the next process to create. -/
theorem longNew_fifo (hfifo : cfg.longTermAlgorithm ≠ .pmcp) (caller : LongCaller) (moved : Bool) :
    (longNew cfg s ch.order caller moved).1.queue .new = s.queue .new ∧
      ∀ u ∈ (longNew cfg s ch.order caller moved).2, ∀ pid, u.picked = some (.new, pid) →
        (s.queue .new).head? = some pid := by
  simp only [longNew, getNextProcessToInitializeFrom, if_neg hfifo]
  split
  · rename_i s' hnext
    obtain ⟨rfl, -⟩ := Prod.mk.inj hnext
    refine ⟨by rw [queue_longReturn], ?_⟩
    intro u hu pid hpick
    rw [(longReturn_idle s caller moved u hu).1] at hpick
    exact absurd hpick (by simp)
  · rename_i s' q hnext
    obtain ⟨rfl, hhead⟩ := Prod.mk.inj hnext
    refine ⟨rfl, ?_⟩
    intro u hu pid hpick
    obtain rfl := List.mem_singleton.mp hu
    obtain rfl : q = pid := by simpa [Thread.picked] using hpick
    exact hhead

/-- **Every section adds to NEW the PCB it creates, and takes only the process it admits.** -/
theorem new_section (hfifo : cfg.longTermAlgorithm ≠ .pmcp) (hgiven : NewGiven s)
    (hpick : ∀ pid, t.picked = some (.new, pid) → (s.queue .new).head? = some pid) :
    s.queue .new ++ born s (nextSection cfg s ch t).1 =
      admits s ch t ++ (nextSection cfg s ch t).1.queue .new := by
  by_cases htakes : ProcessState.new ∈ t.takesFrom
  · cases t with
    | longNew caller moved =>
      rw [born_of_eq (newPid_section rfl), List.append_nil]
      exact (longNew_fifo hfifo caller moved).1.symm
    | longCreate pid caller moved =>
      obtain ⟨rest, hrest⟩ := List.head?_eq_some_iff.mp (hpick pid rfl)
      have hfound : findPcbIn .new pid s = true := by simp [findPcbIn, hrest]
      rw [born_of_eq (newPid_section rfl), List.append_nil]
      cases hans : ch.answer with
      | true => simp [nextSection, longCreate, hans, hfound, admits, changes, into, movePcb, hrest]
      | false => simp [nextSection, longCreate, hans, admits, changes, into, queue_longReturn]
    | _ => simp [Thread.takesFrom] at htakes
  · have hnone : admits s ch t = [] := by
      cases t with
      | longCreate pid caller moved => simp [Thread.takesFrom] at htakes
      | _ => rfl
    rw [list_section htakes fun _ => hgiven.fresh, into_new, hnone]
    simp

/-- **The process that memoria is asked about stays the first of NEW**, because its thread holds the
lock. -/
theorem firstPicked_step {e : Event} (hfifo : cfg.longTermAlgorithm ≠ .pmcp)
    (h : FirstPicked s ∧ NewGiven s) (hst : step cfg s e = some s') : FirstPicked s' ∧ NewGiven s' := by
  obtain ⟨hpicked, hgiven⟩ := h
  cases e with
  | arrive handler =>
    obtain ⟨hhandler, rfl⟩ := step_arrive hst
    refine ⟨?_, hgiven⟩
    intro u hu pid hpid
    rcases List.mem_append.mp hu with hu | hu
    · exact hpicked u hu pid hpid
    · obtain rfl := List.mem_singleton.mp hu
      cases u <;> simp [Thread.isHandler, Thread.picked] at hhandler hpid
  | run i ch =>
    obtain ⟨t, others, -, hperm, hfree, -, rfl⟩ := step_run hst
    have hmem : ∀ u ∈ t :: others, u ∈ s.threads := fun u hu => hperm.mem_iff.mpr hu
    have hsection : s.queue .new ++ born s (nextSection cfg s ch t).1 =
        admits s ch t ++ (nextSection cfg s ch t).1.queue .new :=
      new_section hfifo hgiven (hpicked t (hmem t List.mem_cons_self))
    constructor
    · intro u hu pid hpid
      rcases List.mem_append.mp hu with hu | hu
      · -- another thread has picked a process: it holds NEW, so this section does not touch it
        have hholds : Lock.new ∈ u.holds := by
          cases u <;> simp [Thread.picked, Thread.holds] at hpid ⊢
        have hlock : Lock.new ∉ t.uses := fun hl => not_holds_of_free hfree hu hl hholds
        have hfree : ProcessState.new ∉ t.takesFrom ∧ t.isInitProc = false := by
          cases t <;> simp [Thread.uses, Thread.holds, Thread.takesFrom, Thread.isInitProc] at hlock ⊢
        have hsame : (nextSection cfg s ch t).1.queue .new = s.queue .new ++ into .new (changes s ch t) ++
            if ProcessState.new = .new then born s (nextSection cfg s ch t).1 else [] :=
          list_section hfree.1 fun _ => hgiven.fresh
        rw [into_new, born_of_eq (newPid_section hfree.2)] at hsame
        show ((nextSection cfg s ch t).1.queue .new).head? = some pid
        rw [hsame]
        simpa using hpicked u (hmem u (List.mem_cons_of_mem _ hu)) pid hpid
      · cases hhands : t.handsOn with
        | false =>
          rw [(nextSection_idle cfg s ch hhands u hu).1] at hpid
          exact absurd hpid (by simp)
        | true =>
          cases t with
          | longNew caller moved =>
            show ((longNew cfg s ch.order caller moved).1.queue .new).head? = some pid
            rw [(longNew_fifo hfifo caller moved).1]
            exact (longNew_fifo hfifo caller moved).2 u hu pid hpid
          | longScan caller moved =>
            simp only [nextSection, longScan] at hu
            split at hu <;> simp_all [Thread.picked]
          | medium q =>
            simp only [nextSection, runMediumScheduler] at hu
            grind [Thread.picked]
          | mediumSwap q =>
            simp only [nextSection] at hu
            grind [Thread.picked]
          | longAnswered q success caller moved =>
            simp only [nextSection, longAnswered] at hu
            grind [Thread.picked]
          | _ => simp_all [Thread.handsOn, nextSection, Thread.picked]
    · intro q hq
      show q ≤ (nextSection cfg s ch t).1.newPid
      have hmem : q ∈ s.queue .new ++ born s (nextSection cfg s ch t).1 := by
        rw [hsection]
        exact List.mem_append_right _ hq
      have hgrows := (nextSection_grows cfg s ch t).newPid
      rcases List.mem_append.mp hmem with hold | hborn
      · exact (hgiven q hold).trans hgrows
      · unfold born at hborn
        split at hborn
        · simp at hborn
        · exact (List.mem_singleton.mp hborn).le

/-! ## 5. The requests of a device name -/

/-- The operation that a package asks a device for. -/
def Package.operation : Package → Option IoRequest
  | .ioOperation _ pid sleepTime => some ⟨pid, sleepTime⟩
  | _ => none

/-- The request that an IO syscall adds to the queue of a device name. -/
def asks (s : State) (d : String) : Thread → List IoRequest
  | .io pid _ sleepTime deviceName =>
    if deviceName = d ∧ (getIoConnectionStatusByDeviceName s d).isSome ∧ (s.ioRequests d).isSome ∧
      findPcbIn .exec pid s = true then [⟨pid, sleepTime⟩] else []
  | _ => []

/-- The requests for a device name that a section sends on, read off the packages. -/
def operates (s s' : State) (d : String) : Thread → List IoRequest
  | .pendingIo deviceName _ _ =>
    if deviceName = d then (newPackages s s').filterMap Package.operation else []
  | _ => []

/-- A definition about threads, for the thread of a step. -/
def ofStep {α : Type} (f : State → State → Thread → List α) (x : Transition State Event) : List α :=
  match x.label with
  | .arrive _ => []
  | .run i _ =>
    match x.src.threads[i]? with
    | none => []
    | some t => f x.src x.dst t

/-- The requests accepted for a device name in a step, and those sent. -/
def asked (d : String) : Transition State Event → List IoRequest := ofStep fun s _ t => asks s d t

def operated (d : String) : Transition State Event → List IoRequest := ofStep fun s s' t => operates s s' d t

/-- The requests that wait for a device of the name. -/
def State.requests (s : State) (d : String) : List IoRequest := (s.ioRequests d).getD []

theorem requests_setIoRequests (d deviceName : String) (q : List IoRequest) (s : State) :
    (setIoRequests deviceName q s).requests d = if d = deviceName then q else s.requests d := by
  by_cases hd : d = deviceName
  · simp [State.requests, setIoRequests, hd]
  · simp [State.requests, setIoRequests, hd]

/-- `process_pending_io` sends the first request and removes it. -/
theorem requests_processPendingIo (d deviceName : String) (socket : Nat) (after : AfterPending)
    (sentOk : Bool) :
    s.requests d = operates s (processPendingIo s deviceName socket sentOk) d
        (.pendingIo deviceName socket after) ++
      (processPendingIo s deviceName socket sentOk).requests d := by
  have hstay : s.requests d = operates s s d (.pendingIo deviceName socket after) ++ s.requests d := by
    simp [operates, newPackages]
  unfold processPendingIo
  split
  · exact hstay
  · split
    · exact hstay
    · rename_i connection hconn requests hrequests
      simp only
      split
      · exact hstay
      · split
        · exact hstay
        · rename_i request rest
          split
          · by_cases hd : d = deviceName
            · subst hd
              simp [operates, newPackages, setIoCurrent, setIoRequests, send, Package.operation,
                State.requests, hrequests]
            · simp [operates, Ne.symm hd, State.requests, setIoCurrent, setIoRequests, send, hd]
          · exact hstay

/-- The sections of the short-term scheduler leave the requests alone. -/
theorem requests_short (cfg : Config) (d : String) (caller : ShortCaller) (cpu pid : Nat) :
    (shortDecide cfg s caller cpu pid ch.preempt).1.requests d = s.requests d ∧
      (shortAnswered s caller cpu pid ch.answer ch.pc).1.requests d = s.requests d := by
  have hreturn : ∀ s : State, (shortReturn s caller).1.requests d = s.requests d := fun s => by
    rw [State.requests, (silent_shortReturn s caller).ioRequests, State.requests]
  constructor
  · unfold shortDecide
    split
    · rw [hreturn]
      rfl
    · split
      · rfl
      · exact hreturn s
  · unfold shortAnswered
    rw [hreturn]
    show (preempt s cpu ch.answer ch.pc).requests d = s.requests d
    unfold preempt
    repeat' split
    all_goals rfl

/-- **Every section adds to the requests of a name what it accepts, and takes what it sends.** -/
theorem requests_section (d : String) :
    s.requests d ++ asks s d t =
      operates s (nextSection cfg s ch t).1 d t ++ (nextSection cfg s ch t).1.requests d := by
  cases hloud : isLoud t with
  | false =>
    have hsame : (nextSection cfg s ch t).1.requests d = s.requests d := by
      rw [State.requests, (nextSection_silent hloud).ioRequests, State.requests]
    rw [hsame]
    cases t <;> simp [isLoud, asks, operates] at hloud ⊢
  | true =>
    cases t with
    | initProc callerPid callerPc size =>
      simp only [nextSection, handleInitProcSyscall, asks, operates, List.append_nil, List.nil_append]
      repeat' split
      all_goals rfl
    | io pid pc sleepTime deviceName =>
      simp only [nextSection, handleIoProcessSyscall, operates, List.nil_append]
      split
      · rename_i hnone
        have hasks : asks s d (.io pid pc sleepTime deviceName) = [] := by
          refine if_neg ?_
          rintro ⟨rfl, hsome, -⟩
          simp [hnone] at hsome
        rw [hasks, List.append_nil]
        unfold exitProcessSyscall
        split
        · rfl
        · rfl
      · rename_i connection hconn
        split
        · rename_i hnone
          have hasks : asks s d (.io pid pc sleepTime deviceName) = [] := by
            refine if_neg ?_
            rintro ⟨rfl, -, hsome, -⟩
            simp [hnone] at hsome
          rw [hasks, List.append_nil]
        · rename_i requests hrequests
          split
          · rename_i hfound
            rw [requests_setIoRequests]
            by_cases hd : d = deviceName
            · subst hd
              simp [asks, hconn, hrequests, hfound, State.requests]
            · simp [asks, Ne.symm hd, State.requests, hd, movePcb, setPc, addPcbTo, removePcbFrom]
          · rename_i hfound
            simp [asks, hfound]
    | exit pid =>
      simp only [nextSection, exitProcessSyscall, asks, operates, List.append_nil, List.nil_append]
      split
      · rfl
      · rfl
    | newDevice socket deviceName =>
      simp only [nextSection, processNewDevice, asks, operates, List.append_nil, List.nil_append]
      split
      · rename_i hnone
        rw [requests_setIoRequests]
        split
        · rename_i hd
          subst hd
          have hnone : s.ioRequests d = none := hnone
          simp [State.requests, hnone]
        · rfl
      · rfl
    | pendingIo deviceName socket after =>
      simp only [asks, List.append_nil]
      exact requests_processPendingIo d deviceName socket after ch.answer
    | shortSelected caller cpu pid =>
      simpa [asks, operates, nextSection] using (requests_short cfg d caller cpu pid).1.symm
    | shortWait caller cpu pid =>
      simpa [asks, operates, nextSection] using
        (requests_short cfg d caller cpu pid).2.symm
    | _ => simp [isLoud] at hloud

end Lists

/-! ## 6. Runs -/

/-- **READY is first in, first out**: in every run under FIFO, the processes of the DISPATCH packages sent,
in their order, followed by READY, are the processes in the order in which they entered READY. -/
theorem ready_fifo {cfg : Config} {tr : List (Transition State Event)} {s : State}
    (hr : (kernel cfg).Run tr s) (hfifo : cfg.shortTermAlgorithm ≠ .sjf) :
    s.dispatches ++ s.queue .ready = tr.flatMap fun x => into .ready (calls x) := by
  have hlog := hr.logged State.readyLog (fun x => into .ready (calls x)) []
    (I := FirstSelected) (C := fun _ _ => True) ?_
    (fun s e s' h _ hst => firstSelected_step hfifo h hst)
    (fun s e s' h _ hst => readyLog_step hfifo h hst) (fun _ _ => trivial)
  · exact hlog
  · rintro s rfl
    refine ⟨?_, rfl⟩
    intro t ht pid hpid
    obtain rfl : t = .long .ifMoved := by simpa [State.start] using ht
    simp [Thread.selected] at hpid

/-- The root process starts two more and waits for a device; then process 1 dumps its memory. -/
def threeTurns : List Event :=
  boot ++ handled (.initProc 0 1 16) 9 ++ handled (.initProc 0 2 16) 9 ++
    handled (.newDevice 5 "disk") 1 ++ handled (.io 0 3 100 "disk") 12 ++
    handled (.ioCompletion 5 "disk" 0) 12 ++ handled (.dump 1 1) 4

/-- The theorem at work: each process has had the CPU once, and two of them wait for it again. -/
theorem ready_fifo_three :
    ∃ tr s, (kernel oneCpu).Run tr s ∧ s.dispatches = [0, 1, 2] ∧ s.queue .ready = [0, 1] ∧
      s.dispatches ++ s.queue .ready = tr.flatMap fun x => into .ready (calls x) := by
  obtain ⟨tr, s, hrun, htest⟩ := Lts.exists_run_of_drive (State.start oneCpu) (step oneCpu) threeTurns
    (fun _ s => decide (s.dispatches = [0, 1, 2] ∧ s.queue .ready = [0, 1])) (by decide)
  obtain ⟨hdispatches, hready⟩ := of_decide_eq_true htest
  exact ⟨tr, s, hrun, hdispatches, hready, ready_fifo hrun (by decide)⟩

/-- **NEW is first in, first out, and pids are given in order**: in every run under FIFO, the processes
that the long-term scheduler has admitted, in their order, followed by NEW, are all pids from 0 to the
last one given, each once. -/
theorem new_fifo {cfg : Config} {tr : List (Transition State Event)} {s : State}
    (hr : (kernel cfg).Run tr s) (hfifo : cfg.longTermAlgorithm ≠ .pmcp) :
    tr.flatMap admitted ++ s.queue .new = List.range (s.newPid + 1) := by
  have h0 : ∀ s, (kernel cfg).init s → FirstPicked s ∧ NewGiven s := by
    rintro s rfl
    constructor
    · intro t ht pid hpid
      obtain rfl : t = .long .ifMoved := by simpa [State.start] using ht
      simp [Thread.picked] at hpid
    · intro pid hpid
      exact Nat.le_of_eq (by simpa [State.start] using hpid)
  have hstep : ∀ s e s', FirstPicked s ∧ NewGiven s → True → (kernel cfg).step s e s' →
      FirstPicked s' ∧ NewGiven s' := fun s e s' h _ hst => firstPicked_step hfifo h hst
  have hpids : List.range (s.newPid + 1) = [0] ++ tr.flatMap fun x => born x.src x.dst := by
    refine hr.logged (fun s => List.range (s.newPid + 1)) _ [0] (C := fun _ _ => True)
      (fun s hs => ⟨h0 s hs, by rw [hs]; rfl⟩) hstep ?_ (fun _ _ => trivial)
    intro s e s' h _ hst
    cases e with
    | arrive handler =>
      obtain ⟨-, rfl⟩ := step_arrive hst
      simp [born]
    | run i ch =>
      obtain ⟨t, others, -, -, -, -, rfl⟩ := step_run hst
      rcases nextSection_newborn cfg ch t h.2.fresh with hsame | ⟨hsucc, -⟩
      · simp [born, hsame]
      · simp [born, hsucc, List.range_succ]
  have hqueue : [0] ++ tr.flatMap (fun x => born x.src x.dst) = tr.flatMap admitted ++ s.queue .new := by
    refine hr.conserved (fun s => s.queue .new) _ _ [0] (C := fun _ _ => True)
      (fun s hs => ⟨h0 s hs, by rw [hs]; rfl⟩) hstep ?_ (fun _ _ => trivial)
    intro s e s' h _ hst
    cases e with
    | arrive handler =>
      obtain ⟨-, rfl⟩ := step_arrive hst
      simp [born, admitted]
    | run i ch =>
      obtain ⟨t, others, hget, hperm, -, -, rfl⟩ := step_run hst
      simp only [admitted, hget]
      exact new_section hfifo h.2 (h.1 t (hperm.mem_iff.mpr List.mem_cons_self))
  rw [← hqueue, hpids]

/-- The root process starts two more, and memoria refuses them. -/
def twoRefused : List Event :=
  boot ++ .arrive (.initProc 0 1 16) :: List.replicate 7 (.run 0 { answer := false }) ++
    .arrive (.initProc 0 2 32) :: List.replicate 7 (.run 0 { answer := false })

/-- The theorem at work: the root process was admitted, and two more wait for memory. -/
theorem new_fifo_two_wait :
    ∃ tr s, (kernel oneCpu).Run tr s ∧ tr.flatMap admitted = [0] ∧ s.queue .new = [1, 2] ∧
      tr.flatMap admitted ++ s.queue .new = List.range (s.newPid + 1) := by
  obtain ⟨tr, s, hrun, htest⟩ := Lts.exists_run_of_drive (State.start oneCpu) (step oneCpu) twoRefused
    (fun tr s => decide (tr.flatMap admitted = [0] ∧ s.queue .new = [1, 2])) (by decide)
  obtain ⟨hadmitted, hnew⟩ := of_decide_eq_true htest
  exact ⟨tr, s, hrun, hadmitted, hnew, new_fifo hrun (by decide)⟩

/-- **The requests of a device name are served first in, first out**: in every run, those accepted, in
their order, are those sent to devices, in their order, followed by those that wait. -/
theorem requests_fifo {cfg : Config} {tr : List (Transition State Event)} {s : State}
    (hr : (kernel cfg).Run tr s) (d : String) :
    tr.flatMap (asked d) = tr.flatMap (operated d) ++ s.requests d := by
  refine hr.conserved (fun s => s.requests d) _ _ [] (I := fun _ => True) (C := fun _ _ => True)
    ?_ (fun _ _ _ _ _ _ => trivial) ?_ (fun _ _ => trivial)
  · rintro s rfl
    exact ⟨trivial, rfl⟩
  · intro s e s' _ _ hst
    cases e with
    | arrive handler =>
      obtain ⟨-, rfl⟩ := step_arrive hst
      simp [asked, operated, ofStep, State.requests]
    | run i ch =>
      obtain ⟨t, others, hget, -, -, -, rfl⟩ := step_run hst
      simp only [asked, operated, ofStep, hget]
      exact requests_section d

/-- Two processes ask for the same disk, before the first has been in BLOCKED for long. -/
def twoAsk : List Event :=
  boot ++ handled (.initProc 0 1 16) 9 ++ handled (.newDevice 5 "disk") 1 ++
    .arrive (.io 0 3 100 "disk") :: List.replicate 5 (.run 0 { elapsed := false }) ++
    .arrive (.io 1 3 50 "disk") :: List.replicate 4 (.run 0 { elapsed := false })

/-- The theorem at work: the request of the root process was sent, that of process 1 waits. -/
theorem requests_fifo_two_ask :
    ∃ tr s, (kernel oneCpu).Run tr s ∧ (tr.flatMap (operated "disk")).map (·.pid) = [0] ∧
      (s.requests "disk").map (·.pid) = [1] ∧
      tr.flatMap (asked "disk") = tr.flatMap (operated "disk") ++ s.requests "disk" := by
  obtain ⟨tr, s, hrun, htest⟩ := Lts.exists_run_of_drive (State.start oneCpu) (step oneCpu) twoAsk
    (fun tr s => decide ((tr.flatMap (operated "disk")).map (·.pid) = [0] ∧
      (s.requests "disk").map (·.pid) = [1])) (by decide)
  obtain ⟨hoperated, hwait⟩ := of_decide_eq_true htest
  exact ⟨tr, s, hrun, hoperated, hwait, requests_fifo hrun "disk"⟩

end Tpso.Kernel
