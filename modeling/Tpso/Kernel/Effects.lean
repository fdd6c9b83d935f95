/-
# What a section can do

The handlers differ in when they act; what they do to the lists, to the CPU marks and to the
DISPATCH packages is one of few things.  `Effect` lists them once, with the guards under which they
happen, for every section but four (`nextSection_effect`).  The sections of the short-term scheduler,
the only ones that touch EXEC, READY, the marks and the packages together, and the second section of
`dump_memory_syscall`, which looks for its PCB nowhere, have an inversion lemma each.  The invariants of
the later modules are case analyses over these lemmas.
-/
import Tpso.Kernel.Sections

namespace Tpso.Kernel

open Tpso.Lib

/-! ## 1. States that agree on everything but IO and program counters -/

/-- The lists, the PCBs apart from their `pc`, the pids given, the CPU marks and the DISPATCH packages
are the same. -/
structure SameCore (s s' : State) : Prop where
  queue : s'.queue = s.queue
  state : ∀ pid, (s'.pcbs pid).currentState = (s.pcbs pid).currentState
  size : ∀ pid, (s'.pcbs pid).size = (s.pcbs pid).size
  newPid : s'.newPid = s.newPid
  cpus : s'.cpus = s.cpus
  lastDispatch : s'.lastDispatch = s.lastDispatch

namespace SameCore

theorem refl (s : State) : SameCore s s := ⟨rfl, fun _ => rfl, fun _ => rfl, rfl, rfl, rfl⟩

theorem trans {s s' s'' : State} (h : SameCore s s') (h' : SameCore s' s'') : SameCore s s'' where
  queue := h'.queue.trans h.queue
  state pid := (h'.state pid).trans (h.state pid)
  size pid := (h'.size pid).trans (h.size pid)
  newPid := h'.newPid.trans h.newPid
  cpus := h'.cpus.trans h.cpus
  lastDispatch := h'.lastDispatch.trans h.lastDispatch

theorem setPc (pid : Nat) (pc : Int) (s : State) : SameCore s (setPc pid pc s) := by
  refine ⟨rfl, ?_, ?_, rfl, rfl, rfl⟩
  · intro q
    by_cases hq : q = pid
    · simp [Kernel.setPc, hq]
    · simp [Kernel.setPc, hq]
  · intro q
    by_cases hq : q = pid
    · simp [Kernel.setPc, hq]
    · simp [Kernel.setPc, hq]

theorem setIoCurrent (socket : Nat) (mark : Option Nat) (s : State) :
    SameCore s (setIoCurrent socket mark s) := ⟨rfl, fun _ => rfl, fun _ => rfl, rfl, rfl, rfl⟩

theorem setIoRequests (deviceName : String) (q : List IoRequest) (s : State) :
    SameCore s (setIoRequests deviceName q s) := ⟨rfl, fun _ => rfl, fun _ => rfl, rfl, rfl, rfl⟩

theorem createIoConnection (socket : Nat) (deviceName : String) (position : Nat) (s : State) :
    SameCore s (createIoConnection socket deviceName position s) :=
  ⟨rfl, fun _ => rfl, fun _ => rfl, rfl, rfl, rfl⟩

theorem deleteIoConnection (socket : Nat) (s : State) : SameCore s (deleteIoConnection socket s) :=
  ⟨rfl, fun _ => rfl, fun _ => rfl, rfl, rfl, rfl⟩

theorem crash (s : State) : SameCore s (crash s) := ⟨rfl, fun _ => rfl, fun _ => rfl, rfl, rfl, rfl⟩

/-- A package that is no DISPATCH. -/
theorem send {p : Package} (hp : ∀ pid, p.dispatchOf pid = none) (s : State) :
    SameCore s (send p s) := by
  refine ⟨rfl, fun _ => rfl, fun _ => rfl, rfl, rfl, ?_⟩
  funext pid
  simp [State.lastDispatch, Kernel.send, hp pid]

/-- Moving a PCB commutes with what is not compared. -/
theorem movePcb {s s' : State} (h : SameCore s s') (a b : ProcessState) (pid : Nat) :
    SameCore (movePcb a b pid s) (movePcb a b pid s') := by
  refine ⟨?_, ?_, ?_, h.newPid, h.cpus, h.lastDispatch⟩
  · simp only [Kernel.movePcb, addPcbTo, removePcbFrom, h.queue]
  · intro q
    by_cases hq : q = pid
    · simp [Kernel.movePcb, addPcbTo, removePcbFrom, hq]
    · simpa [Kernel.movePcb, addPcbTo, removePcbFrom, hq] using h.state q
  · intro q
    by_cases hq : q = pid
    · simpa [Kernel.movePcb, addPcbTo, removePcbFrom, hq] using h.size pid
    · simpa [Kernel.movePcb, addPcbTo, removePcbFrom, hq] using h.size q

end SameCore

/-! ## 2. The effects -/

/-- The moves that a thread makes in its next section, each after finding the PCB on the list it is
taken from. -/
inductive Legal : Thread → ProcessState → ProcessState → Nat → Prop
  | exit {pid : Nat} : Legal (.exit pid) .exec .exit pid
  | ioExit {pid : Nat} {pc sleepTime : Int} {deviceName : String} :
      Legal (.io pid pc sleepTime deviceName) .exec .exit pid
  | ioBlock {pid : Nat} {pc sleepTime : Int} {deviceName : String} :
      Legal (.io pid pc sleepTime deviceName) .exec .blocked pid
  | dumpBlock {pid : Nat} {pc : Int} : Legal (.dump pid pc) .exec .blocked pid
  | complete {socket pid : Nat} {deviceName : String} :
      Legal (.ioCompletion socket deviceName pid) .blocked .ready pid
  | completeSuspended {socket pid : Nat} {deviceName : String} :
      Legal (.ioCompletion socket deviceName pid) .suspBlocked .suspReady pid
  | disconnect {socket pid : Nat} : Legal (.ioDisconnected socket) .blocked .exit pid
  | disconnectSuspended {socket pid : Nat} :
      Legal (.disconnectSusp socket pid) .suspBlocked .exit pid
  | suspend {pid : Nat} : Legal (.medium pid) .blocked .suspBlocked pid
  | rollbackUnsent {pid : Nat} : Legal (.mediumSwap pid) .suspBlocked .blocked pid
  | rollback {pid : Nat} : Legal (.mediumAnswered pid false) .suspBlocked .blocked pid
  | admitted {pid : Nat} {caller : LongCaller} {moved : Bool} :
      Legal (.longCreate pid caller moved) .new .ready pid

/-- **What a section does.**  `Effect s t held held' s'`: thread `t` starts with the PCBs `held` in its
hands and ends with `held'`. -/
inductive Effect (s : State) (t : Thread) : List Nat → List Nat → State → Prop
  | same {s' : State} : SameCore s s' → Effect s t [] [] s'
  | move {a b : ProcessState} {pid : Nat} {s' : State} :
      Legal t a b pid → pid ∈ s.queue a → SameCore (movePcb a b pid s) s' → Effect s t [] [] s'
  | fresh {pc size : Int} {s' : State} :
      SameCore (addPcbToNew (s.newPid + 1) (pcbCreate pc size) { s with newPid := s.newPid + 1 }) s' →
      Effect s t [] [] s'
  | wasted {s' : State} : s.newPid + 1 ∈ s.queue .new →
      SameCore { s with newPid := s.newPid + 1 } s' → Effect s t [] [] s'
  | sort {st : ProcessState} {order : List Nat} {s' : State} :
      st = .suspReady ∨ st = .new → SameCore (sortList st order s) s' → Effect s t [] [] s'
  | take {pid : Nat} {caller : LongCaller} {moved : Bool} {s' : State} :
      t = .longAnswered pid true caller moved → pid ∈ s.queue .suspReady →
      SameCore (removePcbFrom .suspReady pid s) s' → Effect s t [] [pid] s'
  | put {pid : Nat} {s' : State} : SameCore (addPcbTo .ready pid s) s' → Effect s t [pid] [] s'

/-- The PCBs a thread has removed from a list and not yet added to another. -/
def Thread.transit : Thread → List Nat
  | .longMove (some pid) _ => [pid]
  | _ => []

/-- The threads with sections of their own kind: those inside `run_short_scheduler`, and
`dump_memory_syscall` after memoria's answer. -/
def Thread.isSpecial : Thread → Bool
  | .short _ | .shortSelected _ _ _ | .shortWait _ _ _ | .dumpWait _ => true
  | _ => false

theorem mem_of_findPcbIn {s : State} {st : ProcessState} {pid : Nat}
    (h : findPcbIn st pid s = true) : pid ∈ s.queue st := by
  simpa [findPcbIn] using h

/-- Sorting a list in its own order changes nothing. -/
theorem sortList_self (st : ProcessState) (s : State) : sortList st (s.queue st) s = s := by
  rw [sortList, if_pos (List.Perm.refl _), Function.update_eq_self]

theorem longReturn_same (s : State) (caller : LongCaller) (moved : Bool) :
    SameCore s (longReturn s caller moved).1 ∧
      (longReturn s caller moved).2.flatMap Thread.transit = [] := by
  cases caller with
  | always => exact ⟨SameCore.refl s, rfl⟩
  | ifMoved =>
    cases moved with
    | true => exact ⟨SameCore.refl s, rfl⟩
    | false => exact ⟨SameCore.refl s, rfl⟩
  | disconnect socket =>
    cases moved with
    | true => exact ⟨SameCore.refl s, rfl⟩
    | false => exact ⟨SameCore.deleteIoConnection socket s, rfl⟩

section Handlers

variable (s : State) (pid : Nat)

/-- The effect of a section with the threads that continue it. -/
def HasEffect (t : Thread) (r : State × List Thread) : Prop :=
  Effect s t t.transit (r.2.flatMap Thread.transit) r.1

theorem handleInitProcSyscall_effect (callerPc size : Int) :
    HasEffect s (.initProc pid callerPc size) (handleInitProcSyscall s pid callerPc size) := by
  unfold handleInitProcSyscall
  split
  · simp only
    split
    · rename_i hfound
      refine Effect.wasted (mem_of_findPcbIn hfound) ?_
      have h := SameCore.setPc pid callerPc s
      exact ⟨rfl, h.state, h.size, rfl, rfl, rfl⟩
    · refine @Effect.fresh s _ 0 size _ ?_
      refine SameCore.trans ?_ (SameCore.send (fun _ => rfl) _)
      have h := SameCore.setPc pid callerPc s
      refine ⟨rfl, ?_, ?_, rfl, rfl, rfl⟩
      · intro q
        by_cases hq : q = s.newPid + 1
        · simp [addPcbToNew, setPc, hq]
        · simpa [addPcbToNew, setPc, hq] using h.state q
      · intro q
        by_cases hq : q = s.newPid + 1
        · simp [addPcbToNew, setPc, hq]
        · simpa [addPcbToNew, setPc, hq] using h.size q
  · exact Effect.same (SameCore.refl s)

theorem exitProcessSyscall_effect {t : Thread} (ht : t.transit = [])
    (hlegal : Legal t .exec .exit pid) : HasEffect s t (exitProcessSyscall s pid) := by
  unfold HasEffect exitProcessSyscall
  rw [ht]
  split
  · rename_i hfound
    exact Effect.move hlegal (mem_of_findPcbIn hfound) (SameCore.refl _)
  · exact Effect.same (SameCore.crash s)

theorem handleIoProcessSyscall_effect (pc sleepTime : Int) (deviceName : String) :
    HasEffect s (.io pid pc sleepTime deviceName)
      (handleIoProcessSyscall s pid pc sleepTime deviceName) := by
  unfold handleIoProcessSyscall
  split
  · exact exitProcessSyscall_effect s pid rfl .ioExit
  · split
    · exact Effect.same (SameCore.refl s)
    · split
      · rename_i hfound
        refine Effect.move .ioBlock (mem_of_findPcbIn hfound) ?_
        exact ((SameCore.setPc pid pc s).movePcb .exec .blocked pid).trans
          (SameCore.setIoRequests _ _ _)
      · exact Effect.same (SameCore.refl s)

theorem dumpMemorySyscall_effect (pc : Int) :
    HasEffect s (.dump pid pc) (dumpMemorySyscall s pid pc) := by
  unfold dumpMemorySyscall
  split
  · rename_i hfound
    exact Effect.move .dumpBlock (mem_of_findPcbIn hfound)
      ((SameCore.setPc pid pc s).movePcb .exec .blocked pid)
  · exact Effect.same (SameCore.refl s)

/-- `dump_memory_syscall` after memoria's answer moves its PCB without looking where it is. -/
theorem dumpMemoryAnswered_cases (confirmation : Bool) :
    ∃ dst, (dst = .ready ∨ dst = .exit) ∧
      (dumpMemoryAnswered s pid confirmation).1 = movePcb .blocked dst pid s ∧
      ((dumpMemoryAnswered s pid confirmation).2 = [] ∨
        (dumpMemoryAnswered s pid confirmation).2 = [.short .plain]) := by
  cases confirmation with
  | true => exact ⟨.ready, Or.inl rfl, rfl, Or.inr rfl⟩
  | false => exact ⟨.exit, Or.inr rfl, rfl, Or.inl rfl⟩

theorem processNewDevice_effect (socket : Nat) (deviceName : String) (position : Nat) :
    HasEffect s (.newDevice socket deviceName) (processNewDevice s socket deviceName position) := by
  have h := SameCore.createIoConnection socket deviceName position s
  simp only [processNewDevice]
  split
  · exact Effect.same (h.trans (SameCore.setIoRequests _ _ _))
  · exact Effect.same h

theorem processPendingIo_same (deviceName : String) (socket : Nat) (sentOk : Bool) :
    SameCore s (processPendingIo s deviceName socket sentOk) := by
  unfold processPendingIo
  split
  · exact SameCore.refl s
  · split
    · exact SameCore.refl s
    · simp only
      split
      · exact SameCore.refl s
      · split
        · exact SameCore.refl s
        · split
          · exact ((SameCore.send (fun _ => rfl) s).trans (SameCore.setIoRequests _ _ _)).trans
              (SameCore.setIoCurrent _ _ _)
          · exact SameCore.refl s

theorem afterPending_transit (after : AfterPending) :
    after.threads.flatMap Thread.transit = [] := by
  unfold AfterPending.threads
  split
  · rfl
  · rfl
  · rfl
  · rfl
  · rfl

theorem ioCompletion_effect (socket : Nat) (deviceName : String) :
    HasEffect s (.ioCompletion socket deviceName pid) (ioCompletion s socket deviceName pid) := by
  unfold ioCompletion
  split
  · exact Effect.same (SameCore.refl s)
  · split
    · rename_i hfound
      exact Effect.move .complete (mem_of_findPcbIn hfound) (SameCore.setIoCurrent _ _ _)
    · split
      · rename_i hfound
        exact Effect.move .completeSuspended (mem_of_findPcbIn hfound) (SameCore.setIoCurrent _ _ _)
      · exact Effect.same (SameCore.setIoCurrent _ _ _)

theorem ioDisconnected_effect (socket : Nat) :
    HasEffect s (.ioDisconnected socket) (ioDisconnected s socket) := by
  unfold ioDisconnected
  split
  · exact Effect.same (SameCore.refl s)
  · split
    · exact Effect.same (SameCore.deleteIoConnection socket s)
    · split
      · rename_i hfound
        exact Effect.move .disconnect (mem_of_findPcbIn hfound) (SameCore.deleteIoConnection _ _)
      · exact Effect.same (SameCore.refl s)

theorem handleFoundSuspended_effect (socket : Nat) :
    HasEffect s (.disconnectSusp socket pid) (handleFoundSuspended s socket pid) := by
  unfold handleFoundSuspended
  split
  · rename_i hfound
    exact Effect.move .disconnectSuspended (mem_of_findPcbIn hfound) (SameCore.refl _)
  · exact Effect.same (SameCore.deleteIoConnection socket s)

theorem runMediumScheduler_effect (elapsed : Bool) :
    HasEffect s (.medium pid) (runMediumScheduler s pid elapsed) := by
  unfold runMediumScheduler
  split
  · rename_i hfound
    cases elapsed with
    | false => exact Effect.same (SameCore.refl s)
    | true =>
      have hnone : (if (s.pcbs pid).size ≠ 0 then [Thread.mediumSwap pid]
          else [Thread.long .ifMoved]).flatMap Thread.transit = [] := by
        split
        · rfl
        · rfl
      unfold HasEffect
      simp only [↓reduceIte, hnone]
      exact Effect.move .suspend (mem_of_findPcbIn hfound) (SameCore.refl _)
  · exact Effect.same (SameCore.refl s)

theorem mediumRollback_effect {t : Thread} (hlegal : Legal t .suspBlocked .blocked pid) :
    Effect s t [] [] (mediumRollback s pid) := by
  unfold mediumRollback
  split
  · rename_i hfound
    exact Effect.move hlegal (mem_of_findPcbIn hfound) (SameCore.refl _)
  · exact Effect.same (SameCore.refl s)

theorem longReturn_effect {t : Thread} (ht : t.transit = []) (caller : LongCaller) (moved : Bool) :
    HasEffect s t (longReturn s caller moved) := by
  have h := longReturn_same s caller moved
  unfold HasEffect
  rw [h.2, ht]
  exact Effect.same h.1

/-- The choice of the next process leaves a reordered list behind. -/
theorem getNextProcessToInitializeFrom_eq (cfg : Config) (st : ProcessState) (order : List Nat) :
    ∃ order', (getNextProcessToInitializeFrom cfg st order s).1 = sortList st order' s := by
  simp only [getNextProcessToInitializeFrom]
  split
  · exact ⟨order, rfl⟩
  · exact ⟨s.queue st, (sortList_self st s).symm⟩

theorem longScan_effect (cfg : Config) (order : List Nat) (caller : LongCaller) (moved : Bool) :
    HasEffect s (.longScan caller moved) (longScan cfg s order caller moved) := by
  obtain ⟨order', heq⟩ := getNextProcessToInitializeFrom_eq s cfg .suspReady order
  unfold longScan
  split
  · rename_i s' hnext
    obtain rfl : s' = sortList .suspReady order' s := by rw [← heq, hnext]
    exact Effect.sort (Or.inl rfl) (SameCore.refl _)
  · rename_i s' q hnext
    obtain rfl : s' = sortList .suspReady order' s := by rw [← heq, hnext]
    exact Effect.sort (Or.inl rfl) (SameCore.refl _)

theorem longAnswered_effect (success : Bool) (caller : LongCaller) (moved : Bool) :
    HasEffect s (.longAnswered pid success caller moved)
      (longAnswered s pid success caller moved) := by
  cases success with
  | false => exact Effect.same (SameCore.refl s)
  | true =>
    cases hfound : findPcbIn .suspReady pid s with
    | true =>
      simp only [HasEffect, longAnswered, hfound, ↓reduceIte]
      exact Effect.take rfl (mem_of_findPcbIn hfound) (SameCore.refl _)
    | false =>
      -- nothing was removed, and `add_pcb_to_ready` will ignore the NULL
      have hmem : pid ∉ s.queue .suspReady := by simpa [findPcbIn] using hfound
      have hsame : removePcbFrom .suspReady pid s = s := by
        unfold removePcbFrom
        rw [List.erase_of_not_mem hmem, Function.update_eq_self]
      simp only [HasEffect, longAnswered, hfound, ↓reduceIte, hsame]
      exact Effect.same (SameCore.refl s)

theorem longMove_effect (popped : Option Nat) (caller : LongCaller) :
    HasEffect s (.longMove popped caller) (longMove s popped caller) := by
  cases popped with
  | none => exact Effect.same (SameCore.refl s)
  | some q => exact Effect.put (SameCore.refl _)

theorem longNew_effect (cfg : Config) (order : List Nat) (caller : LongCaller) (moved : Bool) :
    HasEffect s (.longNew caller moved) (longNew cfg s order caller moved) := by
  obtain ⟨order', heq⟩ := getNextProcessToInitializeFrom_eq s cfg .new order
  unfold longNew
  split
  · rename_i s' hnext
    obtain rfl : s' = sortList .new order' s := by rw [← heq, hnext]
    have h := longReturn_same (sortList .new order' s) caller moved
    unfold HasEffect
    rw [h.2]
    exact Effect.sort (Or.inr rfl) h.1
  · rename_i s' q hnext
    obtain rfl : s' = sortList .new order' s := by rw [← heq, hnext]
    exact Effect.sort (Or.inr rfl) (SameCore.refl _)

theorem longCreate_effect (memoryOk : Bool) (caller : LongCaller) (moved : Bool) :
    HasEffect s (.longCreate pid caller moved) (longCreate s pid memoryOk caller moved) := by
  cases memoryOk with
  | false => exact longReturn_effect s rfl caller moved
  | true =>
    cases hfound : findPcbIn .new pid s with
    | true =>
      simp only [HasEffect, longCreate, hfound, ↓reduceIte]
      exact Effect.move .admitted (mem_of_findPcbIn hfound) (SameCore.refl _)
    | false =>
      simp only [HasEffect, longCreate, hfound, ↓reduceIte]
      exact Effect.same (SameCore.refl s)

end Handlers

/-- **Every other section has one of the effects.** -/
theorem nextSection_effect (cfg : Config) (s : State) (ch : Choice) {t : Thread}
    (ht : t.isSpecial = false) : HasEffect s t (nextSection cfg s ch t) := by
  cases t with
  | initProc callerPid callerPc size => exact handleInitProcSyscall_effect s callerPid callerPc size
  | io pid pc sleepTime deviceName => exact handleIoProcessSyscall_effect s pid pc sleepTime deviceName
  | exit pid => exact exitProcessSyscall_effect s pid rfl .exit
  | dump pid pc => exact dumpMemorySyscall_effect s pid pc
  | newDevice socket deviceName => exact processNewDevice_effect s socket deviceName ch.position
  | ioCompletion socket deviceName pid => exact ioCompletion_effect s pid socket deviceName
  | ioDisconnected socket => exact ioDisconnected_effect s socket
  | dumpWait pid => simp [Thread.isSpecial] at ht
  | pendingIo deviceName socket after =>
    unfold HasEffect
    simp only [nextSection, afterPending_transit]
    exact Effect.same (processPendingIo_same s deviceName socket ch.answer)
  | disconnectSusp socket pid => exact handleFoundSuspended_effect s pid socket
  | medium pid => exact runMediumScheduler_effect s pid ch.elapsed
  | mediumSwap pid =>
    cases h : ch.connected with
    | true =>
      simpa [nextSection, HasEffect, h, Thread.transit] using Effect.same (SameCore.refl s)
    | false => simpa [nextSection, HasEffect, h, Thread.transit] using
      mediumRollback_effect s pid .rollbackUnsent
  | mediumSent pid => exact Effect.same (SameCore.refl s)
  | mediumAnswered pid success =>
    cases success with
    | true => exact Effect.same (SameCore.refl s)
    | false => exact mediumRollback_effect s pid .rollback
  | long caller =>
    cases h : ch.connected with
    | true =>
      simpa [nextSection, HasEffect, h, Thread.transit] using Effect.same (SameCore.refl s)
    | false => simpa [nextSection, h] using longReturn_effect s rfl caller false
  | longScan caller moved => exact longScan_effect s cfg ch.order caller moved
  | longUnsuspend pid caller moved => exact Effect.same (SameCore.refl s)
  | longAnswered pid success caller moved => exact longAnswered_effect s pid success caller moved
  | longMove popped caller => exact longMove_effect s popped caller
  | longLock caller moved => exact Effect.same (SameCore.refl s)
  | longNew caller moved => exact longNew_effect s cfg ch.order caller moved
  | longCreate pid caller moved => exact longCreate_effect s pid ch.answer caller moved
  | short caller => simp [Thread.isSpecial] at ht
  | shortSelected caller cpu pid => simp [Thread.isSpecial] at ht
  | shortWait caller cpu pid => simp [Thread.isSpecial] at ht

/-! ## 3. The sections of the short-term scheduler -/

theorem shortReturn_same (s : State) (caller : ShortCaller) :
    SameCore s (shortReturn s caller).1 ∧ (shortReturn s caller).2 = [] := by
  cases caller with
  | plain => exact ⟨SameCore.refl s, rfl⟩
  | disconnect socket => exact ⟨SameCore.deleteIoConnection socket s, rfl⟩

/-- `get_cpu_to_dispatch` clears the mark of a CPU whose process is not in EXEC, or reorders EXEC.  The
CPU it returns exists. -/
theorem getCpuToDispatch_cases (cfg : Config) (execOrder : List Nat) (s : State) :
    (∃ cpu, (∀ pid, currentOn s cpu = some pid → pid ∉ s.queue .exec) ∧ cpu < s.cpus.length ∧
      getCpuToDispatch cfg execOrder s = (setCurrent cpu none s, some cpu)) ∨
    (∃ order cpu, getCpuToDispatch cfg execOrder s = (sortList .exec order s, cpu) ∧
      ∀ i, cpu = some i → i < s.cpus.length) := by
  -- the CPU an algorithm falls back on is the first of the list
  have hfirst : ∀ i, (if s.cpus = [] then none else some 0) = some i → i < s.cpus.length := by
    intro i hi
    split at hi
    · exact absurd hi (by simp)
    · rename_i hne
      obtain rfl : 0 = i := by simpa using hi
      exact List.length_pos_iff.mpr hne
  unfold getCpuToDispatch
  split
  · rename_i cpu hidx
    obtain ⟨hlt, hfree, -⟩ := List.findIdx?_eq_some_iff_getElem.mp hidx
    refine Or.inl ⟨cpu, ?_, hlt, rfl⟩
    intro pid hcur
    have hmark : (s.cpus[cpu]).currentProcessExecuting = some pid := by
      simpa [currentOn, List.getElem?_eq_getElem hlt] using hcur
    rw [hmark] at hfree
    simpa [findPcbIn] using hfree
  · refine Or.inr ?_
    have hcpus : (sortList .exec execOrder s).cpus = s.cpus := by
      unfold sortList
      split
      · rfl
      · rfl
    unfold getCpuByAlgorithm
    split
    · simp only
      split
      · exact ⟨execOrder, _, rfl, by rw [hcpus]; exact hfirst⟩
      · refine ⟨execOrder, _, rfl, ?_⟩
        intro i hi
        obtain ⟨hlt, -⟩ := List.findIdx?_eq_some_iff_getElem.mp hi
        rwa [hcpus] at hlt
    · exact ⟨s.queue .exec, _, by rw [sortList_self], hfirst⟩

/-- The CPU marks that the choice of a CPU leaves: as they were, or one cleared whose process is not in
EXEC. -/
def ClearsIdle (s s' : State) : Prop :=
  s' = s ∨ ∃ cpu, (∀ pid, currentOn s cpu = some pid → pid ∉ s.queue .exec) ∧
    s' = setCurrent cpu none s

/-- **What the choice of a CPU and a process leaves behind**: perhaps a cleared mark, EXEC and READY
reordered, and, if it succeeds, a selected process that is in READY. -/
theorem shortSelect_cases (cfg : Config) (s : State) (ch : Choice) (caller : ShortCaller) :
    ∃ s1 execOrder order, ClearsIdle s s1 ∧
      SameCore (sortList .ready order (sortList .exec execOrder s1))
        (shortSelect cfg s ch caller).1 ∧
      ((shortSelect cfg s ch caller).2 = [] ∨
        ∃ cpu pid, (shortSelect cfg s ch caller).2 = [.shortSelected caller cpu pid] ∧
          cpu < s.cpus.length ∧ pid ∈ (shortSelect cfg s ch caller).1.queue .ready) := by
  -- the first half: a state of the required form, before READY is looked at
  have hcpu : ∃ s1 execOrder, ClearsIdle s s1 ∧
      (getCpuToDispatch cfg ch.execOrder s).1 = sortList .exec execOrder s1 ∧
      ∀ i, (getCpuToDispatch cfg ch.execOrder s).2 = some i → i < s.cpus.length := by
    rcases getCpuToDispatch_cases cfg ch.execOrder s with ⟨cpu, hidle, hlt, heq⟩ |
      ⟨order, cpu, heq, hlt⟩
    · refine ⟨setCurrent cpu none s, (setCurrent cpu none s).queue .exec, Or.inr ⟨cpu, hidle, rfl⟩,
        by rw [heq, sortList_self], ?_⟩
      intro i hi
      obtain rfl : cpu = i := by simpa [heq] using hi
      exact hlt
    · exact ⟨s, order, Or.inl rfl, by rw [heq], by rw [heq]; exact hlt⟩
  obtain ⟨s1, execOrder, hclear, heq, hvalid⟩ := hcpu
  unfold shortSelect
  split
  · rename_i s2 hnone
    obtain rfl : s2 = sortList .exec execOrder s1 := by rw [← heq, hnone]
    have h := shortReturn_same (sortList .exec execOrder s1) caller
    refine ⟨s1, execOrder, (sortList .exec execOrder s1).queue .ready, hclear, ?_, Or.inl h.2⟩
    rw [sortList_self]
    exact h.1
  · rename_i s2 cpu hsome
    obtain rfl : s2 = sortList .exec execOrder s1 := by rw [← heq, hsome]
    -- the second half: the sort of READY
    have hready : ∃ order, (getNextProcessToDispatch cfg ch.order (sortList .exec execOrder s1)).1
        = sortList .ready order (sortList .exec execOrder s1) := by
      simp only [getNextProcessToDispatch]
      split
      · exact ⟨ch.order, rfl⟩
      · exact ⟨_, (sortList_self .ready _).symm⟩
    obtain ⟨order, hord⟩ := hready
    split
    · rename_i s3 hnone
      obtain rfl : s3 = sortList .ready order (sortList .exec execOrder s1) := by
        rw [← hord, hnone]
      have h := shortReturn_same (sortList .ready order (sortList .exec execOrder s1)) caller
      exact ⟨s1, execOrder, order, hclear, h.1, Or.inl h.2⟩
    · rename_i s3 pid hpid
      obtain rfl : s3 = sortList .ready order (sortList .exec execOrder s1) := by
        rw [← hord, hpid]
      have hlt : cpu < s.cpus.length := hvalid cpu (by rw [hsome])
      refine ⟨s1, execOrder, order, hclear, SameCore.refl _, Or.inr ⟨cpu, pid, rfl, hlt, ?_⟩⟩
      have hhead : ((sortList .ready order (sortList .exec execOrder s1)).queue .ready).head?
          = some pid := by
        have := congrArg Prod.snd hpid
        simp only [getNextProcessToDispatch] at this hord
        rw [hord] at this
        exact this
      exact List.mem_of_mem_head? (by rw [hhead]; rfl)

/-- **What follows the choice**: the process is dispatched to a CPU without a mark, or an INTERRUPT is
sent, or nothing happens. -/
theorem shortDecide_cases (cfg : Config) (s : State) (caller : ShortCaller) (cpu pid : Nat)
    (srt : Bool) :
    (currentOn s cpu = none ∧ SameCore (dispatch cpu pid s) (shortDecide cfg s caller cpu pid srt).1 ∧
      (shortDecide cfg s caller cpu pid srt).2 = []) ∨
    (SameCore s (shortDecide cfg s caller cpu pid srt).1 ∧
      ((shortDecide cfg s caller cpu pid srt).2 = [] ∨
        (shortDecide cfg s caller cpu pid srt).2 = [.shortWait caller cpu pid])) := by
  unfold shortDecide
  split
  · rename_i hnone
    have h := shortReturn_same (dispatch cpu pid s) caller
    exact Or.inl ⟨hnone, h.1, h.2⟩
  · split
    · exact Or.inr ⟨SameCore.send (fun _ => rfl) s, Or.inr rfl⟩
    · have h := shortReturn_same s caller
      exact Or.inr ⟨h.1, Or.inl h.2⟩

/-! ## 4. One step -/

/-- What a step of a thread is made of. -/
theorem step_run {cfg : Config} {s s' : State} {i : Nat} {ch : Choice}
    (h : step cfg s (.run i ch) = some s') :
    ∃ t others, s.threads[i]? = some t ∧ s.threads.Perm (t :: others) ∧ t.free others = true ∧
      s.crashed = false ∧
      s' = { (nextSection cfg s ch t).1 with threads := others ++ (nextSection cfg s ch t).2 } := by
  simp only [step] at h
  split at h
  · exact absurd h (by simp)
  · rename_i t ht
    split at h
    · rename_i hok
      obtain ⟨hlt, hget⟩ := List.getElem?_eq_some_iff.mp ht
      refine ⟨t, s.threads.eraseIdx i, ht, ?_, hok.2, hok.1, (Option.some.inj h).symm⟩
      rw [← hget]
      exact (List.getElem_cons_eraseIdx_perm hlt).symm
    · exact absurd h (by simp)

theorem step_arrive {cfg : Config} {s s' : State} {handler : Thread}
    (h : step cfg s (.arrive handler) = some s') :
    handler.isHandler = true ∧ s' = { s with threads := s.threads ++ [handler] } := by
  simp only [step] at h
  split at h
  · rename_i hok
    exact ⟨hok.2, (Option.some.inj h).symm⟩
  · exact absurd h (by simp)

/-- A thread that can run needs no lock that another holds. -/
theorem not_holds_of_free {t u : Thread} {others : List Thread} {l : Lock}
    (h : t.free others = true) (hu : u ∈ others) (hl : l ∈ t.uses) : l ∉ u.holds := by
  simp only [Thread.free, List.all_eq_true, Bool.not_eq_true', List.contains_eq_mem,
    decide_eq_false_iff_not] at h
  exact h l hl u hu

end Tpso.Kernel
