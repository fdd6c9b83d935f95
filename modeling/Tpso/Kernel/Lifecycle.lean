/-
# The life of a process is a path in the seven-state diagram

`pcb_change_state` writes whatever state it is given.  Which states follow each other is decided by
the handlers: each takes a PCB from one list and adds it to another, between other handlers that do the
same.  `changes` lists the calls of `pcb_change_state` that a section makes, and
`sevenStates` is the diagram they are meant to keep to.

The kernel is simulated, for every pid, by the life of one item in that diagram
(`lifecycle_simulates`), when an answered DUMP_MEMORY finds its process in BLOCKED.  So the states
that `current_state` goes through are an itinerary (`lifecycle_of_run`), EXIT is final, and
no process gets from SUSP_BLOCKED to READY except through SUSP_READY or BLOCKED.
-/
import Tpso.Kernel.Moves
import Tpso.Kernel.Packages
import Tpso.Lib.Diagram

namespace Tpso.Kernel

open Tpso.Lib

/-! ## 1. The diagram -/

/-- The edges of the diagram. -/
def follows : ProcessState → ProcessState → Bool
  | .new, .ready => true
  | .ready, .exec => true
  | .exec, .ready | .exec, .blocked | .exec, .exit => true
  | .blocked, .ready | .blocked, .suspBlocked | .blocked, .exit => true
  | .suspBlocked, .blocked | .suspBlocked, .suspReady | .suspBlocked, .exit => true
  | .suspReady, .ready => true
  | _, _ => false

/-- The seven states, and how a process may go from one to another. -/
def sevenStates : Diagram ProcessState where
  start := .new
  edge a b := follows a b = true

/-- Where the kernel says that a process is: nowhere before its PCB is created. -/
def State.stage (s : State) (pid : Nat) : Option ProcessState :=
  if pid ≤ s.newPid then some (s.pcbs pid).currentState else none

/-- The state that a process enters in a step, if it enters one. -/
def entered (pid : Nat) (x : Transition State Event) : Option ProcessState :=
  if x.dst.stage pid = x.src.stage pid then none else x.dst.stage pid

/-! ## 2. The calls of `pcb_change_state` -/

/-- The calls that a section makes, in their order. -/
def changes (s : State) (ch : Choice) : Thread → List (Nat × ProcessState)
  | .io pid _ _ deviceName =>
    if findPcbIn .exec pid s then
      match getIoConnectionStatusByDeviceName s deviceName, s.ioRequests deviceName with
      | none, _ => [(pid, .exit)]
      | some _, some _ => [(pid, .blocked)]
      | some _, none => []
    else []
  | .exit pid => if findPcbIn .exec pid s then [(pid, .exit)] else []
  | .dump pid _ => if findPcbIn .exec pid s then [(pid, .blocked)] else []
  | .dumpWait pid => [(pid, if ch.answer then .ready else .exit)]
  | .ioCompletion socket _ pid =>
    if (findIoConnectionBySocket s socket).isNone then []
    else if findPcbIn .blocked pid s then [(pid, .ready)]
    else if findPcbIn .suspBlocked pid s then [(pid, .suspReady)]
    else []
  | .ioDisconnected socket =>
    match (findIoConnectionBySocket s socket).bind (·.currentProcessExecuting) with
    | none => []
    | some pid => if findPcbIn .blocked pid s then [(pid, .exit)] else []
  | .disconnectSusp _ pid => if findPcbIn .suspBlocked pid s then [(pid, .exit)] else []
  | .medium pid => if findPcbIn .blocked pid s && ch.elapsed then [(pid, .suspBlocked)] else []
  | .mediumSwap pid =>
    if !ch.connected && findPcbIn .suspBlocked pid s then [(pid, .blocked)] else []
  | .mediumAnswered pid success =>
    if !success && findPcbIn .suspBlocked pid s then [(pid, .blocked)] else []
  | .longMove (some pid) _ => [(pid, .ready)]
  | .longCreate pid _ _ => if ch.answer && findPcbIn .new pid s then [(pid, .ready)] else []
  | .shortSelected _ cpu pid => if currentOn s cpu = none then [(pid, .exec)] else []
  | .shortWait _ cpu pid =>
    match currentOn s cpu with
    | none => [(pid, .exec)]
    | some executing =>
      if ch.answer && findPcbIn .exec executing s then [(executing, .ready), (pid, .exec)]
      else [(pid, .exec)]
  | _ => []

attribute [local simp] changes

/-- The lists from which a section may take a PCB, or which it may reorder. -/
def Thread.takesFrom : Thread → List ProcessState
  | .io _ _ _ _ | .exit _ | .dump _ _ => [.exec]
  | .dumpWait _ | .ioDisconnected _ | .medium _ => [.blocked]
  | .ioCompletion _ _ _ => [.blocked, .suspBlocked]
  | .disconnectSusp _ _ | .mediumSwap _ | .mediumAnswered _ _ => [.suspBlocked]
  | .longScan _ _ | .longAnswered _ _ _ _ => [.suspReady]
  | .longNew _ _ | .longCreate _ _ _ => [.new]
  | .shortSelected _ _ _ => [.ready]
  | .short _ | .shortWait _ _ _ => [.exec, .ready]
  | _ => []

/-- `current_state` of the PCBs after some calls. -/
def applyChanges (calls : List (Nat × ProcessState)) (state : Nat → ProcessState) :
    Nat → ProcessState :=
  calls.foldl (fun state c => Function.update state c.1 c.2) state

/-- `current_state` of the PCBs. -/
def State.states (s : State) : Nat → ProcessState := fun pid => (s.pcbs pid).currentState

@[simp]
theorem states_addPcbTo (st : ProcessState) (pid : Nat) (s : State) :
    (addPcbTo st pid s).states = Function.update s.states pid st := by
  funext q
  by_cases hq : q = pid
  · simp [State.states, addPcbTo, hq]
  · simp [State.states, addPcbTo, hq]

@[simp]
theorem states_removePcbFrom (st : ProcessState) (pid : Nat) (s : State) :
    (removePcbFrom st pid s).states = s.states := rfl

@[simp]
theorem states_movePcb (a b : ProcessState) (pid : Nat) (s : State) :
    (movePcb a b pid s).states = Function.update s.states pid b := by
  rw [movePcb, states_addPcbTo, states_removePcbFrom]

@[simp]
theorem states_setPc (pid : Nat) (pc : Int) (s : State) : (setPc pid pc s).states = s.states :=
  funext (SameCore.setPc pid pc s).state

theorem SameCore.states {s s' : State} (h : SameCore s s') : s'.states = s.states := funext h.state

@[simp]
theorem states_sortList (st : ProcessState) (order : List Nat) (s : State) :
    (sortList st order s).states = s.states := by
  unfold State.states
  rw [(sortList_eq st order s).1]

theorem states_longReturn (s : State) (caller : LongCaller) (moved : Bool) :
    (longReturn s caller moved).1.states = s.states := (longReturn_same s caller moved).1.states

theorem states_exitProcessSyscall (s : State) (pid : Nat) :
    (exitProcessSyscall s pid).1.states =
      applyChanges (if findPcbIn .exec pid s then [(pid, .exit)] else []) s.states := by
  unfold exitProcessSyscall
  split
  · simp [exitRoutine, applyChanges]
  · rfl

theorem states_mediumRollback (s : State) (pid : Nat) :
    (mediumRollback s pid).states =
      applyChanges (if findPcbIn .suspBlocked pid s then [(pid, .blocked)] else []) s.states := by
  unfold mediumRollback
  split
  · simp [applyChanges]
  · rfl

theorem states_dispatch (cpu pid : Nat) (s : State) :
    (dispatch cpu pid s).states = Function.update s.states pid .exec :=
  states_movePcb .ready .exec pid s

theorem states_handleInitProcSyscall (s : State) (callerPid : Nat) (callerPc size : Int) {pid : Nat}
    (hpid : pid ≤ s.newPid) :
    (handleInitProcSyscall s callerPid callerPc size).1.states pid = s.states pid := by
  have hne : pid ≠ s.newPid + 1 := by omega
  have hpc := congrFun (states_setPc callerPid callerPc s) pid
  unfold handleInitProcSyscall
  split
  · simp only
    split
    · exact hpc
    · have hsame : (setPc callerPid callerPc s).newPid = s.newPid := rfl
      simpa [State.states, addPcbToNew, send, hsame, hne] using hpc
  · rfl

theorem states_handleIoProcessSyscall (s : State) (ch : Choice) (pid : Nat) (pc sleepTime : Int)
    (deviceName : String) :
    (handleIoProcessSyscall s pid pc sleepTime deviceName).1.states =
      applyChanges (changes s ch (.io pid pc sleepTime deviceName)) s.states := by
  unfold handleIoProcessSyscall
  split
  · rename_i hnone
    rw [states_exitProcessSyscall]
    simp [hnone]
  · rename_i connection hsome
    split
    · rename_i hrequests
      simp [hsome, hrequests, applyChanges]
    · rename_i requests hrequests
      split
      · rename_i hfound
        have hset : ∀ (d : String) (q : List IoRequest) (s : State),
            (setIoRequests d q s).states = s.states := fun _ _ _ => rfl
        simp [hsome, hrequests, hfound, applyChanges, hset]
      · rename_i hfound
        simp [hfound, applyChanges]

theorem states_ioCompletion (s : State) (ch : Choice) (socket pid : Nat) (deviceName : String) :
    (ioCompletion s socket deviceName pid).1.states =
      applyChanges (changes s ch (.ioCompletion socket deviceName pid)) s.states := by
  have hset : ∀ s : State, (setIoCurrent socket none s).states = s.states := fun _ => rfl
  unfold ioCompletion
  split
  · rename_i hnone
    simp [hnone, applyChanges]
  · rename_i connection hsome
    split
    · rename_i hfound
      simp [hsome, hfound, applyChanges, hset]
    · rename_i hblocked
      split
      · rename_i hfound
        simp [hsome, hblocked, hfound, applyChanges, hset]
      · rename_i hfound
        simp [hsome, hblocked, hfound, applyChanges, hset]

theorem states_ioDisconnected (s : State) (ch : Choice) (socket : Nat) :
    (ioDisconnected s socket).1.states =
      applyChanges (changes s ch (.ioDisconnected socket)) s.states := by
  have hdel : ∀ s : State, (deleteIoConnection socket s).states = s.states := fun _ => rfl
  unfold ioDisconnected
  split
  · rename_i hnone
    simp [hnone, applyChanges]
  · rename_i connection hsome
    split
    · rename_i hidle
      simp [hsome, hidle, applyChanges, hdel]
    · rename_i pid hbusy
      split
      · rename_i hfound
        simp [hsome, hbusy, hfound, applyChanges, hdel, exitRoutine]
      · rename_i hfound
        simp [hsome, hbusy, hfound, applyChanges]

/-- `getNextProcessToInitializeFrom` only sorts. -/
theorem states_of_next {cfg : Config} {st : ProcessState} {order : List Nat} {s s' : State}
    {next : Option Nat} (h : getNextProcessToInitializeFrom cfg st order s = (s', next)) :
    s'.states = s.states := by
  obtain ⟨order', heq⟩ := getNextProcessToInitializeFrom_eq s cfg st order
  rw [h] at heq
  rw [show s' = sortList st order' s from heq, states_sortList]

theorem states_longScan (cfg : Config) (s : State) (order : List Nat) (caller : LongCaller)
    (moved : Bool) : (longScan cfg s order caller moved).1.states = s.states := by
  unfold longScan
  split
  · rename_i s' hnext
    exact states_of_next hnext
  · rename_i s' q hnext
    exact states_of_next hnext

theorem states_longNew (cfg : Config) (s : State) (order : List Nat) (caller : LongCaller)
    (moved : Bool) : (longNew cfg s order caller moved).1.states = s.states := by
  unfold longNew
  split
  · rename_i s' hnext
    rw [states_longReturn]
    exact states_of_next hnext
  · rename_i s' q hnext
    exact states_of_next hnext

theorem states_shortSelect (cfg : Config) (s : State) (ch : Choice) (caller : ShortCaller) :
    (shortSelect cfg s ch caller).1.states = s.states := by
  obtain ⟨s1, execOrder, order, hclear, hsame, -⟩ := shortSelect_cases cfg s ch caller
  have h1 : s1.states = s.states := by
    rcases hclear with rfl | ⟨cpu, -, rfl⟩
    · rfl
    · rfl
  rw [hsame.states, states_sortList, states_sortList, h1]

theorem states_shortDecide (cfg : Config) (s : State) (ch : Choice) (caller : ShortCaller)
    (cpu pid : Nat) (srt : Bool) :
    (shortDecide cfg s caller cpu pid srt).1.states =
      applyChanges (changes s ch (.shortSelected caller cpu pid)) s.states := by
  unfold shortDecide
  split
  · rename_i hnone
    rw [(shortReturn_same _ caller).1.states, states_dispatch]
    simp [hnone, applyChanges]
  · rename_i executing hcur
    have hstay : applyChanges (changes s ch (.shortSelected caller cpu pid)) s.states = s.states := by
      simp [hcur, applyChanges]
    rw [hstay]
    split
    · rfl
    · exact (shortReturn_same s caller).1.states

theorem states_shortAnswered (s : State) (ch : Choice) (caller : ShortCaller) (cpu pid : Nat) :
    (shortAnswered s caller cpu pid ch.answer ch.pc).1.states =
      applyChanges (changes s ch (.shortWait caller cpu pid)) s.states := by
  unfold shortAnswered
  rw [(shortReturn_same _ caller).1.states, states_dispatch]
  unfold preempt
  split
  · rename_i hnone
    simp [hnone, applyChanges]
  · rename_i executing hcur
    split
    · rename_i hok
      simp [hcur, hok, applyChanges]
    · rename_i hok
      simp [hcur, hok, applyChanges]

/-- **The calls are all that a section does to `current_state`**, apart from the PCB it creates. -/
theorem states_section (cfg : Config) (s : State) (ch : Choice) (t : Thread) {pid : Nat}
    (hpid : pid ≤ s.newPid) :
    (nextSection cfg s ch t).1.states pid = applyChanges (changes s ch t) s.states pid := by
  cases t with
  | initProc callerPid callerPc size =>
    exact states_handleInitProcSyscall s callerPid callerPc size hpid
  | io q pc sleepTime deviceName =>
    exact congrFun (states_handleIoProcessSyscall s ch q pc sleepTime deviceName) pid
  | exit q => exact congrFun (states_exitProcessSyscall s q) pid
  | dump q pc =>
    simp only [nextSection, dumpMemorySyscall, changes]
    split
    · simp [applyChanges]
    · rfl
  | newDevice socket deviceName =>
    simp only [nextSection, processNewDevice]
    split
    · rfl
    · rfl
  | ioCompletion socket deviceName q =>
    exact congrFun (states_ioCompletion s ch socket q deviceName) pid
  | ioDisconnected socket => exact congrFun (states_ioDisconnected s ch socket) pid
  | dumpWait q =>
    simp only [nextSection, dumpMemoryAnswered, changes]
    cases ch.answer with
    | true => simp [applyChanges]
    | false => simp [applyChanges, exitRoutine]
  | pendingIo deviceName socket after =>
    exact congrFun (processPendingIo_same s deviceName socket ch.answer).states pid
  | disconnectSusp socket q =>
    simp only [nextSection, handleFoundSuspended, changes]
    split
    · simp [applyChanges, exitRoutine]
    · rfl
  | medium q =>
    simp only [nextSection, runMediumScheduler, changes, Bool.and_eq_true]
    by_cases hfound : findPcbIn .blocked q s = true
    · cases ch.elapsed with
      | true => simp [hfound, applyChanges]
      | false => simp [hfound, applyChanges]
    · simp [hfound, applyChanges]
  | mediumSwap q =>
    cases hcon : ch.connected with
    | true => simp [nextSection, hcon, applyChanges]
    | false => simp [nextSection, hcon, states_mediumRollback]
  | mediumSent q => rfl
  | mediumAnswered q success =>
    cases success with
    | true => simp [nextSection, applyChanges]
    | false => simp [nextSection, states_mediumRollback]
  | long caller =>
    simp only [nextSection, changes]
    split
    · rfl
    · exact congrFun (states_longReturn s caller false) pid
  | longScan caller moved => exact congrFun (states_longScan cfg s ch.order caller moved) pid
  | longUnsuspend q caller moved => rfl
  | longAnswered q success caller moved =>
    cases success with
    | true => rfl
    | false => rfl
  | longMove popped caller =>
    cases popped with
    | none => rfl
    | some q => simp [nextSection, longMove, applyChanges]
  | longLock caller moved => rfl
  | longNew caller moved => exact congrFun (states_longNew cfg s ch.order caller moved) pid
  | longCreate q caller moved =>
    cases hans : ch.answer with
    | true =>
      by_cases hfound : findPcbIn .new q s = true
      · simp [nextSection, longCreate, hans, hfound, applyChanges]
      · simp [nextSection, longCreate, hans, hfound, applyChanges]
    | false => simp [nextSection, longCreate, hans, applyChanges, states_longReturn]
  | short caller => exact congrFun (states_shortSelect cfg s ch caller) pid
  | shortSelected caller cpu q => exact congrFun (states_shortDecide cfg s ch caller cpu q ch.preempt) pid
  | shortWait caller cpu q => exact congrFun (states_shortAnswered s ch caller cpu q) pid

/-! ## 3. Every call is an edge -/

/-- The PCB that a thread carries between two lists is still marked SUSP_READY. -/
def Carried (s : State) : Prop := ∀ pid ∈ s.transit, s.states pid = .suspReady

section Edges

variable {s : State} {pid : Nat}

/-- What the lists say about a process that is on one of them. -/
theorem Inv.on_list (h : Inv s) {st : ProcessState} (hp : pid ∈ s.queue st) :
    pid ≤ s.newPid ∧ s.states pid = st :=
  ⟨Nat.lt_succ_iff.mp (h.tidy.lt st pid hp), h.tidy.tag_eq st pid hp⟩

/-- A call for a process that the section has found on a list. -/
theorem follows_of_found {t : Thread} {a b : ProcessState} (hedge : follows a b = true)
    (hfound : findPcbIn a pid s = true) (htakes : a ∈ t.takesFrom) :
    ∀ c ∈ [(pid, b)], (∃ a ∈ t.takesFrom, c.1 ∈ s.queue a ∧ follows a c.2 = true) ∨
      (c.1 ∈ t.transit ∧ c.2 = .ready) := by
  intro c hc
  obtain rfl := List.mem_singleton.mp hc
  exact Or.inl ⟨a, htakes, mem_of_findPcbIn hfound, hedge⟩

/-- **Where a section finds the processes it calls for**: on a list it takes from, from which an
edge leads to the new state, or in its hands. -/
theorem changes_from {ch : Choice} {t : Thread} (hplace : InPlace s t) :
    ∀ c ∈ changes s ch t, (∃ a ∈ t.takesFrom, c.1 ∈ s.queue a ∧ follows a c.2 = true) ∨
      (c.1 ∈ t.transit ∧ c.2 = .ready) := by
  cases t with
  | io pid pc sleepTime deviceName =>
    simp only [changes]
    split
    · rename_i hfound
      split
      · exact follows_of_found rfl hfound (by simp [Thread.takesFrom])
      · exact follows_of_found rfl hfound (by simp [Thread.takesFrom])
      · simp
    · simp
  | exit pid =>
    simp only [changes]
    split
    · exact follows_of_found rfl ‹_› (by simp [Thread.takesFrom])
    · simp
  | dump pid pc =>
    simp only [changes]
    split
    · exact follows_of_found rfl ‹_› (by simp [Thread.takesFrom])
    · simp
  | dumpWait pid =>
    have hfound : findPcbIn .blocked pid s = true := by simpa [findPcbIn] using hplace.dump pid rfl
    simp only [changes]
    split
    · exact follows_of_found rfl hfound (by simp [Thread.takesFrom])
    · exact follows_of_found rfl hfound (by simp [Thread.takesFrom])
  | ioCompletion socket deviceName pid =>
    simp only [changes]
    split
    · simp
    · split
      · exact follows_of_found rfl ‹_› (by simp [Thread.takesFrom])
      · split
        · exact follows_of_found rfl ‹_› (by simp [Thread.takesFrom])
        · simp
  | ioDisconnected socket =>
    simp only [changes]
    split
    · simp
    · split
      · exact follows_of_found rfl ‹_› (by simp [Thread.takesFrom])
      · simp
  | disconnectSusp socket pid =>
    simp only [changes]
    split
    · exact follows_of_found rfl ‹_› (by simp [Thread.takesFrom])
    · simp
  | medium pid =>
    simp only [changes]
    split
    · rename_i hok
      exact follows_of_found rfl (Bool.and_eq_true_iff.mp hok).1 (by simp [Thread.takesFrom])
    · simp
  | mediumSwap pid =>
    simp only [changes]
    split
    · rename_i hok
      exact follows_of_found rfl (Bool.and_eq_true_iff.mp hok).2 (by simp [Thread.takesFrom])
    · simp
  | mediumAnswered pid success =>
    simp only [changes]
    split
    · rename_i hok
      exact follows_of_found rfl (Bool.and_eq_true_iff.mp hok).2 (by simp [Thread.takesFrom])
    · simp
  | longMove popped caller =>
    cases popped with
    | none => simp
    | some pid =>
      intro c hc
      obtain rfl : c = (pid, .ready) := by simpa using hc
      exact Or.inr ⟨by simp [Thread.transit], rfl⟩
  | longCreate pid caller moved =>
    simp only [changes]
    split
    · rename_i hok
      exact follows_of_found rfl (Bool.and_eq_true_iff.mp hok).2 (by simp [Thread.takesFrom])
    · simp
  | shortSelected caller cpu pid =>
    have hfound : findPcbIn .ready pid s = true := by simpa [findPcbIn] using hplace.selected pid rfl
    simp only [changes]
    split
    · exact follows_of_found rfl hfound (by simp [Thread.takesFrom])
    · simp
  | shortWait caller cpu pid =>
    have hfound : findPcbIn .ready pid s = true := by simpa [findPcbIn] using hplace.selected pid rfl
    have hdispatch := follows_of_found (t := .shortWait caller cpu pid) (b := .exec) rfl hfound
      (by simp [Thread.takesFrom])
    simp only [changes]
    split
    · exact hdispatch
    · split
      · rename_i executing hcur hok
        have hpreempt := follows_of_found (t := .shortWait caller cpu pid) (b := .ready) rfl
          (Bool.and_eq_true_iff.mp hok).2 (by simp [Thread.takesFrom])
        intro c hc
        rcases List.mem_cons.mp hc with rfl | hc
        · exact hpreempt _ List.mem_cons_self
        · exact hdispatch c hc
      · exact hdispatch
  | _ => simp

/-- **Every call of a section is an edge of the diagram.** -/
theorem changes_follow {ch : Choice} {t : Thread} (h : Inv s) (hcarried : Carried s)
    (ht : t ∈ s.threads) (hplace : InPlace s t) :
    ∀ c ∈ changes s ch t, c.1 ≤ s.newPid ∧ follows (s.states c.1) c.2 = true := by
  intro c hc
  rcases changes_from hplace c hc with ⟨a, -, hmem, hedge⟩ | ⟨hmem, hready⟩
  · obtain ⟨hle, hst⟩ := h.on_list hmem
    exact ⟨hle, by rwa [hst]⟩
  · have hmem : c.1 ∈ s.transit := List.mem_flatMap.mpr ⟨t, ht, hmem⟩
    exact ⟨Nat.lt_succ_iff.mp (h.tidy.out_lt _ hmem), by rw [hcarried _ hmem, hready]; rfl⟩

/-- A section calls `pcb_change_state` at most once for a process. -/
theorem changes_nodup {ch : Choice} {t : Thread} (h : Inv s) (hplace : InPlace s t) :
    ((changes s ch t).map Prod.fst).Nodup := by
  cases t with
  | shortWait caller cpu pid =>
    simp only [changes]
    split
    · simp
    · split
      · rename_i executing hcur hok
        have hne : executing ≠ pid := by
          rintro rfl
          have hexec := (h.on_list (mem_of_findPcbIn (Bool.and_eq_true_iff.mp hok).2)).2
          rw [(h.on_list (hplace.selected executing rfl)).2] at hexec
          exact absurd hexec (by simp)
        simpa using hne
      · simp
  | longMove popped caller =>
    cases popped with
    | none => simp
    | some pid => simp
  | _ =>
    simp only [changes]
    grind

/-- What a list of calls does to one process. -/
theorem applyChanges_cases : ∀ (calls : List (Nat × ProcessState)) (f : Nat → ProcessState) (q : Nat),
    (calls.map Prod.fst).Nodup →
    (applyChanges calls f q = f q ∧ ∀ k, (q, k) ∉ calls) ∨ (q, applyChanges calls f q) ∈ calls
  | [], _, _, _ => Or.inl ⟨rfl, by simp⟩
  | c :: calls, f, q, hnodup => by
    obtain ⟨hfresh, hrest⟩ := List.nodup_cons.mp hnodup
    have ih := applyChanges_cases calls (Function.update f c.1 c.2) q hrest
    simp only [applyChanges, List.foldl_cons] at ih ⊢
    rcases ih with ⟨heq, hnone⟩ | hmem
    · by_cases hq : q = c.1
      · subst hq
        refine Or.inr (List.mem_cons.mpr (Or.inl ?_))
        rw [heq, Function.update_self]
      · refine Or.inl ⟨by rw [heq, Function.update_of_ne hq], ?_⟩
        intro k hk
        rcases List.mem_cons.mp hk with hk | hk
        · exact hq (by rw [← hk])
        · exact hnone k hk
    · exact Or.inr (List.mem_cons_of_mem _ hmem)

end Edges

/-! ## 4. One step -/

section Step

variable {cfg : Config} {s s' : State} {ch : Choice} {t : Thread} {pid : Nat}

/-- `getNextProcessToInitializeFrom` gives no pid. -/
theorem newPid_of_next {st : ProcessState} {order : List Nat} {next : Option Nat}
    (h : getNextProcessToInitializeFrom cfg st order s = (s', next)) : s'.newPid = s.newPid := by
  obtain ⟨order', heq⟩ := getNextProcessToInitializeFrom_eq s cfg st order
  rw [h] at heq
  rw [show s' = sortList st order' s from heq, (sortList_eq st order' s).2]

theorem newPid_mediumRollback (s : State) (pid : Nat) : (mediumRollback s pid).newPid = s.newPid := by
  unfold mediumRollback
  split <;> rfl

/-- **Only INIT_PROC gives a pid.** -/
theorem newPid_section (ht : t.isInitProc = false) : (nextSection cfg s ch t).1.newPid = s.newPid := by
  cases t with
  | initProc callerPid callerPc size => simp [Thread.isInitProc] at ht
  | io pid pc sleepTime deviceName =>
    simp only [nextSection, handleIoProcessSyscall, exitProcessSyscall]
    repeat' split
    all_goals rfl
  | exit pid =>
    simp only [nextSection, exitProcessSyscall]
    split <;> rfl
  | dump pid pc =>
    simp only [nextSection, dumpMemorySyscall]
    split <;> rfl
  | newDevice socket deviceName =>
    simp only [nextSection, processNewDevice]
    split <;> rfl
  | ioCompletion socket deviceName pid =>
    simp only [nextSection, ioCompletion]
    repeat' split
    all_goals rfl
  | ioDisconnected socket =>
    simp only [nextSection, ioDisconnected]
    repeat' split
    all_goals rfl
  | dumpWait pid =>
    simp only [nextSection, dumpMemoryAnswered]
    split <;> rfl
  | pendingIo deviceName socket after =>
    exact (processPendingIo_same s deviceName socket ch.answer).newPid
  | disconnectSusp socket pid =>
    simp only [nextSection, handleFoundSuspended]
    split <;> rfl
  | medium pid =>
    simp only [nextSection, runMediumScheduler]
    repeat' split
    all_goals rfl
  | mediumSwap pid =>
    simp only [nextSection]
    split
    · rfl
    · exact newPid_mediumRollback s pid
  | mediumSent pid => rfl
  | mediumAnswered pid success =>
    simp only [nextSection]
    split
    · rfl
    · exact newPid_mediumRollback s pid
  | long caller =>
    simp only [nextSection]
    split
    · rfl
    · exact (longReturn_same s caller false).1.newPid
  | longScan caller moved =>
    simp only [nextSection, longScan]
    split
    · rename_i s' hnext
      exact newPid_of_next hnext
    · rename_i s' q hnext
      exact newPid_of_next hnext
  | longUnsuspend pid caller moved => rfl
  | longAnswered pid success caller moved =>
    simp only [nextSection, longAnswered]
    split <;> rfl
  | longMove popped caller =>
    cases popped with
    | none => rfl
    | some pid => rfl
  | longLock caller moved => rfl
  | longNew caller moved =>
    simp only [nextSection, longNew]
    split
    · rename_i s' hnext
      exact (longReturn_same s' caller moved).1.newPid.trans (newPid_of_next hnext)
    · rename_i s' q hnext
      exact newPid_of_next hnext
  | longCreate pid caller moved =>
    simp only [nextSection, longCreate]
    split
    · split <;> rfl
    · exact (longReturn_same s caller moved).1.newPid
  | short caller =>
    obtain ⟨s1, execOrder, order, hclear, hsame, -⟩ := shortSelect_cases cfg s ch caller
    have h1 : s1.newPid = s.newPid := by
      rcases hclear with rfl | ⟨cpu, -, rfl⟩
      · rfl
      · rfl
    exact hsame.newPid.trans (((sortList_eq _ _ _).2.trans (sortList_eq _ _ _).2).trans h1)
  | shortSelected caller cpu pid =>
    rcases shortDecide_cases cfg s caller cpu pid ch.preempt with ⟨-, hsame, -⟩ | ⟨hsame, -⟩
    · exact hsame.newPid
    · exact hsame.newPid
  | shortWait caller cpu pid =>
    have hsame := shortReturn_same (dispatch cpu pid (preempt s cpu ch.answer ch.pc)) caller
    refine hsame.1.newPid.trans ?_
    show (preempt s cpu ch.answer ch.pc).newPid = s.newPid
    unfold preempt
    repeat' split
    all_goals rfl

/-- **A section creates one PCB, in NEW, or none.** -/
theorem nextSection_newborn (cfg : Config) (ch : Choice) (t : Thread)
    (hnew : s.newPid + 1 ∉ s.queue .new) :
    (nextSection cfg s ch t).1.newPid = s.newPid ∨
      ((nextSection cfg s ch t).1.newPid = s.newPid + 1 ∧
        (nextSection cfg s ch t).1.states (s.newPid + 1) = .new) := by
  cases hinit : t.isInitProc with
  | false => exact Or.inl (newPid_section hinit)
  | true =>
    cases t with
    | initProc callerPid callerPc size =>
      simp only [nextSection, handleInitProcSyscall]
      split
      · have hfresh : findPcbIn .new (s.newPid + 1)
            { setPc callerPid callerPc s with newPid := s.newPid + 1 } = false :=
          decide_eq_false hnew
        refine Or.inr ?_
        simp only [show (setPc callerPid callerPc s).newPid = s.newPid from rfl, hfresh]
        simp [State.states, addPcbToNew, pcbCreate, send]
      · exact Or.inl rfl
    | _ => simp [Thread.isInitProc] at hinit

/-- What a section does to the state of one process: nothing, or one call. -/
theorem states_cases (h : Inv s) (hcarried : Carried s) (ht : t ∈ s.threads) (hplace : InPlace s t)
    (hpid : pid ≤ s.newPid) :
    (nextSection cfg s ch t).1.states pid = s.states pid ∨
      follows (s.states pid) ((nextSection cfg s ch t).1.states pid) = true := by
  rw [states_section cfg s ch t hpid]
  rcases applyChanges_cases (changes s ch t) s.states pid (changes_nodup h hplace) with ⟨heq, -⟩ | hmem
  · exact Or.inl heq
  · exact Or.inr (changes_follow h hcarried ht hplace _ hmem).2

/-- A pid that was never given is on no list. -/
theorem Inv.unborn (h : Inv s) (st : ProcessState) : s.newPid + 1 ∉ s.queue st :=
  fun hmem => absurd (h.tidy.lt st _ hmem) (lt_irrefl _)

/-- **One section, seen from one process**: its stage stays, or it enters a state that the diagram
allows. -/
theorem stage_section (h : Inv s) (hcarried : Carried s) (ht : t ∈ s.threads) (hplace : InPlace s t)
    (pid : Nat) :
    (nextSection cfg s ch t).1.stage pid = s.stage pid ∨
      ∃ k, (nextSection cfg s ch t).1.stage pid = some k ∧ sevenStates.Enters (s.stage pid) k := by
  have hborn := nextSection_newborn cfg ch t (h.unborn .new)
  by_cases hpid : pid ≤ s.newPid
  · have hpid' : pid ≤ (nextSection cfg s ch t).1.newPid := by omega
    simp only [State.stage, if_pos hpid, if_pos hpid', Option.some.injEq]
    have hcases : (nextSection cfg s ch t).1.states pid = s.states pid ∨
        follows (s.states pid) ((nextSection cfg s ch t).1.states pid) = true :=
      states_cases h hcarried ht hplace hpid
    rcases hcases with heq | hedge
    · exact Or.inl heq
    · exact Or.inr ⟨_, rfl, hedge⟩
  · rcases hborn with hsame | ⟨hsucc, hnew⟩
    · exact Or.inl (by simp [State.stage, hsame, hpid])
    · by_cases heq : pid = s.newPid + 1
      · subst heq
        refine Or.inr ⟨.new, ?_, ?_⟩
        · rw [State.stage, if_pos hsucc.ge]
          exact congrArg some hnew
        · simp [State.stage, Diagram.Enters, sevenStates]
      · have hpid' : ¬ pid ≤ (nextSection cfg s ch t).1.newPid := by omega
        exact Or.inl (by simp [State.stage, hpid, hpid'])

/-! ## 5. Runs -/

/-- A thread that continues a section carries a PCB only when the section took it from SUSP_READY. -/
theorem transit_section {q : Nat}
    (hq : q ∈ (nextSection cfg s ch t).2.flatMap Thread.transit) :
    q ∈ s.queue .suspReady ∧ (nextSection cfg s ch t).1.states = s.states := by
  cases hhands : t.handsOn with
  | false =>
    obtain ⟨u, hu, hmem⟩ := List.mem_flatMap.mp hq
    rw [(nextSection_idle cfg s ch hhands u hu).2.2] at hmem
    exact absurd hmem (by simp)
  | true =>
    have hspecial : t.isSpecial = false := by
      cases t <;> simp_all [Thread.handsOn, Thread.isSpecial]
    have he := nextSection_effect cfg s ch hspecial
    unfold HasEffect at he
    generalize t.transit = held at he
    generalize (nextSection cfg s ch t).2.flatMap Thread.transit = held' at he hq
    cases he with
    | @take p caller moved s' ht hp hs =>
      obtain rfl : q = p := by simpa using hq
      exact ⟨hp, hs.states⟩
    | _ => simp at hq

/-- **What is carried stays marked.** -/
theorem carried_step {e : Event} (h : Inv s) (hcarried : Carried s) (hc : dumpInPlace s e = true)
    (hst : step cfg s e = some s') : Carried s' := by
  cases e with
  | arrive handler =>
    obtain ⟨hhandler, rfl⟩ := step_arrive hst
    intro q hq
    have hq : q ∈ s.transit := by
      simpa [State.transit, (isHandler_facts hhandler).1] using hq
    exact hcarried q hq
  | run i ch =>
    obtain ⟨t, others, hget, hperm, -, -, rfl⟩ := step_run hst
    have hplace := h.inPlace hc hget
    intro q hq
    have hq : q ∈ others.flatMap Thread.transit ∨
        q ∈ (nextSection cfg s ch t).2.flatMap Thread.transit := by
      simpa [State.transit] using hq
    show (nextSection cfg s ch t).1.states q = .suspReady
    rcases hq with hq | hq
    · have hnodup := (transit_perm hperm).nodup_iff.mp h.tidy.out_nodup
      have hmem : q ∈ s.transit :=
        (transit_perm hperm).mem_iff.mpr (List.mem_append_right _ hq)
      have hle : q ≤ s.newPid := Nat.lt_succ_iff.mp (h.tidy.out_lt q hmem)
      rw [states_section cfg s ch t hle]
      rcases applyChanges_cases (changes s ch t) s.states q (changes_nodup h hplace) with
        ⟨heq, -⟩ | hcall
      · rw [heq]
        exact hcarried q hmem
      · -- a call would be for a process on a list, or in the hands of this thread
        rcases changes_from hplace _ hcall with ⟨a, -, hlist, -⟩ | ⟨hhands, -⟩
        · exact absurd hlist (h.tidy.not_mem q hmem a)
        · exact absurd hq (List.disjoint_of_nodup_append hnodup hhands)
    · obtain ⟨hlist, hsame⟩ := transit_section hq
      rw [hsame]
      exact (h.on_list hlist).2

theorem carried_start (cfg : Config) : Carried (State.start cfg) := by
  intro q hq
  simp [State.transit, State.start, Thread.transit] at hq

/-- One step, seen from one process. -/
theorem stage_step {e : Event} (h : Inv s) (hcarried : Carried s) (hc : dumpInPlace s e = true)
    (hst : step cfg s e = some s') (pid : Nat) :
    s'.stage pid = s.stage pid ∨ ∃ k, s'.stage pid = some k ∧ sevenStates.Enters (s.stage pid) k := by
  cases e with
  | arrive handler =>
    obtain ⟨-, rfl⟩ := step_arrive hst
    exact Or.inl rfl
  | run i ch =>
    obtain ⟨t, others, hget, hperm, -, -, rfl⟩ := step_run hst
    exact stage_section h hcarried (hperm.mem_iff.mpr List.mem_cons_self) (h.inPlace hc hget) pid

end Step

/-- A stage of the diagram is never entered from itself. -/
theorem ne_of_enters {o : Option ProcessState} {k : ProcessState} (h : sevenStates.Enters o k) :
    o ≠ some k := by
  rintro rfl
  cases k with
  | _ => simp [Diagram.Enters, sevenStates, follows] at h

/-- **The diagram simulates the kernel**, seen from any process. -/
theorem lifecycle_simulates (cfg : Config) (pid : Nat) :
    (kernel cfg).Simulates (sevenStates.life ((State.start cfg).stage pid))
      (fun s o => (Inv s ∧ Carried s) ∧ o = s.stage pid) (fun s e => dumpInPlace s e = true)
      (entered pid) where
  init s hs := by
    obtain rfl : s = State.start cfg := hs
    exact ⟨_, rfl, ⟨inv_start cfg, carried_start cfg⟩, rfl⟩
  step s e s' o hrel hc hst := by
    obtain ⟨⟨h, hcarried⟩, rfl⟩ := hrel
    have hinv : Inv s' ∧ Carried s' := ⟨inv_step h hc hst, carried_step h hcarried hc hst⟩
    rcases stage_step h hcarried hc hst pid with hsame | ⟨k, hk, henters⟩
    · rw [entered, if_pos hsame]
      exact ⟨hinv, hsame.symm⟩
    · have hentered : entered pid ⟨s, e, s'⟩ = some k := by
        rw [entered, hk, if_neg (ne_of_enters henters).symm]
      rw [hentered]
      exact ⟨some k, ⟨henters, rfl⟩, hinv, hk.symm⟩

/-- **The states a process goes through are a path of the seven-state diagram**, in every run in which an
answered DUMP_MEMORY finds its process in BLOCKED. -/
theorem lifecycle_of_run {cfg : Config} {tr : List (Transition State Event)} {s : State}
    (hr : (kernel cfg).Run tr s) (hc : ∀ x ∈ tr, dumpInPlace x.src x.label = true) (pid : Nat) :
    sevenStates.Walks ((State.start cfg).stage pid) (tr.filterMap (entered pid)) (s.stage pid) := by
  obtain ⟨tr', o, hrun, hlabels, -, rfl⟩ := (lifecycle_simulates cfg pid).run hr hc
  rw [← hlabels]
  exact Diagram.walks_of_run hrun

/-- A message arrives, and the first thread runs for so many sections. -/
def handled (handler : Thread) (sections : Nat) : List Event :=
  .arrive handler :: List.replicate sections (.run 0 {})

/-- The root process asks for a device, is suspended while it waits, comes back and ends. -/
def wholeLife : List Event :=
  boot ++ handled (.newDevice 5 "disk") 1 ++ handled (.io 0 1 100 "disk") 11 ++
    handled (.ioCompletion 5 "disk" 0) 12 ++ handled (.exit 0) 6

/-- The theorem at work: the root process goes once around the diagram. -/
theorem lifecycle_of_run_suspended :
    ∃ tr s, (kernel oneCpu).Run tr s ∧ tr.filterMap (entered 0) =
        [.ready, .exec, .blocked, .suspBlocked, .suspReady, .ready, .exec, .exit] ∧
      sevenStates.Walks (some .new) (tr.filterMap (entered 0)) (some .exit) := by
  obtain ⟨tr, s, hrun, htest⟩ := Lts.exists_run_of_drive (State.start oneCpu) (step oneCpu) wholeLife
    (fun tr s => (tr.all fun x => dumpInPlace x.src x.label) && decide (tr.filterMap (entered 0) =
      [.ready, .exec, .blocked, .suspBlocked, .suspReady, .ready, .exec, .exit]) &&
      decide (s.stage 0 = some .exit)) (by decide)
  simp only [Bool.and_eq_true, List.all_eq_true, decide_eq_true_eq] at htest
  have hwalk := lifecycle_of_run hrun htest.1.1 0
  rw [htest.2] at hwalk
  exact ⟨tr, s, hrun, htest.1.2, hwalk⟩

end Tpso.Kernel
