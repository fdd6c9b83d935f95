/-
# What a section sends, and what it takes from EXEC

Most sections are silent: they send no package and change no request queue (`nextSection_silent`).  For
the others it is said here which package they send, and for all of them what becomes of EXEC
(`nextSection_exec`): a handler of IO, DUMP_MEMORY or EXIT takes its PCB from there, the short-term
scheduler puts one there for every DISPATCH, and takes one away when it preempts; nothing else.
-/
import Tpso.Kernel.Effects

namespace Tpso.Kernel

open Tpso.Lib

/-! ## 1. Handlers that take a PCB from EXEC -/

/-- The process whose IO, DUMP_MEMORY or EXIT a handler carries out. -/
def Thread.releases : Thread → Option Nat
  | .io pid _ _ _ => some pid
  | .dump pid _ => some pid
  | .exit pid => some pid
  | _ => none

def Thread.isInitProc : Thread → Bool
  | .initProc _ _ _ => true
  | _ => false

/-- The list to which a handler moves its PCB. -/
def destination (k : State) : Thread → ProcessState
  | .io _ _ _ deviceName =>
    if (getIoConnectionStatusByDeviceName k deviceName).isSome then .blocked else .exit
  | .dump _ _ => .blocked
  | _ => .exit

/-- A handler finds its PCB in EXEC and moves it. -/
structure Applies (k : State) (t : Thread) (pid : Nat) (k' : State) : Prop where
  found : pid ∈ k.queue .exec
  taken : k'.queue .exec = (k.queue .exec).erase pid
  added : k'.queue (destination k t) = k.queue (destination k t) ++ [pid]
  state : (k'.pcbs pid).currentState = destination k t

/-- The process that a section takes from EXEC for a preemption. -/
def preempted (k : State) (ch : Choice) : Thread → Option Nat
  | .shortWait _ cpu _ =>
    if ch.answer then (currentOn k cpu).filter fun pid => findPcbIn .exec pid k else none
  | _ => none

/-- The packages that a section has sent, the first one first. -/
def newPackages (k k' : State) : List Package :=
  (k'.sent.take (k'.sent.length - k.sent.length)).reverse

/-- Every connection has a request queue for its device name. -/
def Queued (k : State) : Prop := ∀ c ∈ k.ioConnections, (k.ioRequests c.deviceName).isSome = true

/-! ## 2. Silent sections -/

section Sections

variable {cfg : Config} {k : State} {ch : Choice}

/-- The packages, the request queues and the crash flag are as they were. -/
structure Silent (k k' : State) : Prop where
  sent : k'.sent = k.sent
  ioRequests : k'.ioRequests = k.ioRequests
  crashed : k'.crashed = k.crashed

theorem Silent.refl (k : State) : Silent k k := ⟨rfl, rfl, rfl⟩

theorem Silent.trans {k k' k'' : State} (h : Silent k k') (h' : Silent k' k'') : Silent k k'' :=
  ⟨h'.sent.trans h.sent, h'.ioRequests.trans h.ioRequests, h'.crashed.trans h.crashed⟩

theorem silent_sortList (st : ProcessState) (order : List Nat) (k : State) :
    Silent k (sortList st order k) := by
  unfold sortList
  split
  · exact ⟨rfl, rfl, rfl⟩
  · exact Silent.refl k

theorem silent_longReturn (k : State) (caller : LongCaller) (moved : Bool) :
    Silent k (longReturn k caller moved).1 := by
  cases caller with
  | always => exact Silent.refl k
  | ifMoved => exact Silent.refl k
  | disconnect socket =>
    cases moved with
    | true => exact Silent.refl k
    | false => exact ⟨rfl, rfl, rfl⟩

theorem silent_shortReturn (k : State) (caller : ShortCaller) : Silent k (shortReturn k caller).1 := by
  cases caller with
  | plain => exact Silent.refl k
  | disconnect socket => exact ⟨rfl, rfl, rfl⟩

theorem silent_mediumRollback (k : State) (pid : Nat) : Silent k (mediumRollback k pid) := by
  unfold mediumRollback
  split
  · exact ⟨rfl, rfl, rfl⟩
  · exact Silent.refl k

theorem silent_getNextProcessToInitializeFrom (st : ProcessState) (order : List Nat) (k : State) :
    Silent k (getNextProcessToInitializeFrom cfg st order k).1 := by
  obtain ⟨order', heq⟩ := getNextProcessToInitializeFrom_eq k cfg st order
  rw [heq]
  exact silent_sortList st order' k

theorem silent_shortSelect (k : State) (caller : ShortCaller) :
    Silent k (shortSelect cfg k ch caller).1 := by
  have hcpu : Silent k (getCpuToDispatch cfg ch.execOrder k).1 := by
    rcases getCpuToDispatch_cases cfg ch.execOrder k with ⟨cpu, -, -, heq⟩ | ⟨order, cpu, heq, -⟩
    · rw [heq]
      exact ⟨rfl, rfl, rfl⟩
    · rw [heq]
      exact silent_sortList .exec order k
  have hready : ∀ k', Silent k' (getNextProcessToDispatch cfg ch.order k').1 := by
    intro k'
    simp only [getNextProcessToDispatch]
    split
    · exact silent_sortList .ready ch.order k'
    · exact Silent.refl k'
  unfold shortSelect
  split
  · rename_i k1 heq
    rw [heq] at hcpu
    exact hcpu.trans (silent_shortReturn k1 caller)
  · rename_i k1 cpu heq
    rw [heq] at hcpu
    have hnext := hready k1
    split
    · rename_i k2 heq'
      rw [heq'] at hnext
      exact (hcpu.trans hnext).trans (silent_shortReturn k2 caller)
    · rename_i k2 pid heq'
      rw [heq'] at hnext
      exact hcpu.trans hnext

/-- The threads whose sections send packages, change request queues or may crash. -/
def isLoud : Thread → Bool
  | .initProc _ _ _ | .io _ _ _ _ | .exit _ | .newDevice _ _ | .pendingIo _ _ _ | .shortSelected _ _ _
  | .shortWait _ _ _ => true
  | _ => false

/-- **All other sections are silent.** -/
theorem nextSection_silent {t : Thread} (ht : isLoud t = false) :
    Silent k (nextSection cfg k ch t).1 := by
  cases t with
  | initProc callerPid callerPc size => simp [isLoud] at ht
  | io pid pc sleepTime deviceName => simp [isLoud] at ht
  | exit pid => simp [isLoud] at ht
  | dump pid pc =>
    simp only [nextSection, dumpMemorySyscall]
    split
    · exact ⟨rfl, rfl, rfl⟩
    · exact Silent.refl k
  | newDevice socket deviceName => simp [isLoud] at ht
  | ioCompletion socket deviceName pid =>
    simp only [nextSection, ioCompletion]
    split
    · exact Silent.refl k
    · split
      · exact ⟨rfl, rfl, rfl⟩
      · split
        · exact ⟨rfl, rfl, rfl⟩
        · exact ⟨rfl, rfl, rfl⟩
  | ioDisconnected socket =>
    simp only [nextSection, ioDisconnected]
    split
    · exact Silent.refl k
    · split
      · exact ⟨rfl, rfl, rfl⟩
      · split
        · exact ⟨rfl, rfl, rfl⟩
        · exact Silent.refl k
  | dumpWait pid =>
    obtain ⟨dst, -, heq, -⟩ := dumpMemoryAnswered_cases k pid ch.answer
    simp only [nextSection, heq]
    exact ⟨rfl, rfl, rfl⟩
  | pendingIo deviceName socket after => simp [isLoud] at ht
  | disconnectSusp socket pid =>
    simp only [nextSection, handleFoundSuspended]
    split
    · exact ⟨rfl, rfl, rfl⟩
    · exact ⟨rfl, rfl, rfl⟩
  | medium pid =>
    simp only [nextSection, runMediumScheduler]
    split
    · split
      · exact ⟨rfl, rfl, rfl⟩
      · exact Silent.refl k
    · exact Silent.refl k
  | mediumSwap pid =>
    simp only [nextSection]
    split
    · exact Silent.refl k
    · exact silent_mediumRollback k pid
  | mediumSent pid => exact Silent.refl k
  | mediumAnswered pid success =>
    simp only [nextSection]
    split
    · exact Silent.refl k
    · exact silent_mediumRollback k pid
  | long caller =>
    simp only [nextSection]
    split
    · exact Silent.refl k
    · exact silent_longReturn k caller false
  | longScan caller moved =>
    have hnext := @silent_getNextProcessToInitializeFrom cfg .suspReady ch.order k
    simp only [nextSection, longScan]
    split
    · rename_i k1 heq
      rwa [heq] at hnext
    · rename_i k1 pid heq
      rwa [heq] at hnext
  | longUnsuspend pid caller moved => exact Silent.refl k
  | longAnswered pid success caller moved =>
    simp only [nextSection, longAnswered]
    split
    · exact ⟨rfl, rfl, rfl⟩
    · exact Silent.refl k
  | longMove popped caller =>
    cases popped with
    | none => exact Silent.refl k
    | some pid => exact ⟨rfl, rfl, rfl⟩
  | longLock caller moved => exact Silent.refl k
  | longNew caller moved =>
    have hnext := @silent_getNextProcessToInitializeFrom cfg .new ch.order k
    simp only [nextSection, longNew]
    split
    · rename_i k1 heq
      rw [heq] at hnext
      exact hnext.trans (silent_longReturn k1 caller moved)
    · rename_i k1 pid heq
      rwa [heq] at hnext
  | longCreate pid caller moved =>
    simp only [nextSection, longCreate]
    split
    · split
      · exact ⟨rfl, rfl, rfl⟩
      · exact Silent.refl k
    · exact silent_longReturn k caller moved
  | short caller => exact silent_shortSelect k caller
  | shortSelected caller cpu pid => simp [isLoud] at ht
  | shortWait caller cpu pid => simp [isLoud] at ht

theorem newPackages_of_eq {k' : State} (h : k'.sent = k.sent) : newPackages k k' = [] := by
  simp [newPackages, h]

theorem newPackages_of_cons {k' : State} {p : Package} (h : k'.sent = p :: k.sent) :
    newPackages k k' = [p] := by
  simp [newPackages, h]

theorem Silent.newPackages {k k' : State} (h : Silent k k') : newPackages k k' = [] :=
  newPackages_of_eq h.sent

/-! ## 3. EXEC -/

/-- A PCB that moves between other lists leaves EXEC alone. -/
theorem exec_movePcb {a b : ProcessState} (ha : a ≠ .exec) (hb : b ≠ .exec) (pid : Nat) (k : State) :
    (movePcb a b pid k).queue .exec = k.queue .exec := by
  simp [movePcb, addPcbTo, removePcbFrom, Function.update_of_ne ha.symm, Function.update_of_ne hb.symm]

theorem exec_sortList (st : ProcessState) (order : List Nat) (k : State) :
    ((sortList st order k).queue .exec).Perm (k.queue .exec) := by
  unfold sortList
  split
  · rename_i hperm
    by_cases hst : st = .exec
    · subst hst
      simpa using hperm
    · simp [Function.update_of_ne (Ne.symm hst)]
  · exact List.Perm.refl _

theorem Legal.dst_ne {t : Thread} {a b : ProcessState} {pid : Nat} (h : Legal t a b pid) : b ≠ .exec := by
  cases h <;> simp

/-- Only a handler that releases the CPU moves a PCB out of EXEC. -/
theorem Legal.src_ne {t : Thread} {a b : ProcessState} {pid : Nat} (h : Legal t a b pid)
    (ht : t.releases = none) : a ≠ .exec := by
  cases h <;> simp [Thread.releases] at ht ⊢

/-- What an effect does to EXEC. -/
theorem Effect.exec {t : Thread} {held held' : List Nat} {k' : State} (h : Effect k t held held' k')
    (ht : t.releases = none) : (k'.queue .exec).Perm (k.queue .exec) := by
  cases h with
  | same hsame => rw [hsame.queue]
  | move hlegal _ hsame => rw [hsame.queue, exec_movePcb (hlegal.src_ne ht) hlegal.dst_ne]
  | fresh hsame =>
    rw [hsame.queue]
    simp [addPcbToNew]
  | wasted _ hsame => rw [hsame.queue]
  | @sort st order s' hst hsame =>
    rw [hsame.queue]
    exact exec_sortList st order k
  | take _ _ hsame =>
    rw [hsame.queue]
    simp [removePcbFrom]
  | put hsame =>
    rw [hsame.queue]
    simp [addPcbTo]

theorem exec_shortSelect (caller : ShortCaller) :
    ((shortSelect cfg k ch caller).1.queue .exec).Perm (k.queue .exec) := by
  obtain ⟨s1, execOrder, order, hclear, hsame, -⟩ := shortSelect_cases cfg k ch caller
  have hs1 : s1.queue = k.queue := by
    rcases hclear with rfl | ⟨cpu, -, rfl⟩
    · rfl
    · rfl
  rw [hsame.queue, ← hs1]
  exact (exec_sortList .ready order _).trans (exec_sortList .exec execOrder s1)

/-- `preempt` takes the preempted PCB from EXEC. -/
theorem exec_preempt (caller : ShortCaller) (cpu pid : Nat) :
    (preempt k cpu ch.answer ch.pc).queue .exec =
      (k.queue .exec).diff (preempted k ch (.shortWait caller cpu pid)).toList := by
  unfold preempt
  split
  · rename_i hnone
    simp [preempted, hnone]
  · rename_i executing hcur
    split
    · rename_i hcond
      obtain ⟨hans, hfound⟩ := Bool.and_eq_true_iff.mp hcond
      simp [preempted, hcur, hans, hfound, Option.filter, movePcb, addPcbTo, removePcbFrom, setPc]
    · rename_i hcond
      cases hans : ch.answer with
      | false => simp [preempted, hans]
      | true =>
        have hfound : findPcbIn .exec executing k = false := by simpa [hans] using hcond
        simp [preempted, hcur, hans, hfound, Option.filter]

/-- A preempted process was in EXEC. -/
theorem preempted_mem {t : Thread} {pid : Nat} (h : preempted k ch t = some pid) : pid ∈ k.queue .exec := by
  unfold preempted at h
  split at h
  · split at h
    · exact mem_of_findPcbIn (Option.filter_eq_some_iff.mp h).2
    · exact absurd h (by simp)
  · exact absurd h (by simp)

theorem exec_dispatch (cpu pid : Nat) (k : State) :
    (dispatch cpu pid k).queue .exec = k.queue .exec ++ [pid] := by
  simp [dispatch, setCurrent, send, addPcbTo, removePcbFrom]

/-! ## 4. Every section -/

/-- **What a section does to EXEC, and the package it sends.** -/
inductive ExecEffect (k : State) (ch : Choice) (t : Thread) (k' : State) : Prop
  | keeps : t.releases = none → preempted k ch t = none → (k'.queue .exec).Perm (k.queue .exec) →
      (newPackages k k' = [] ∨ ∃ p, newPackages k k' = [p] ∧ (∀ pid, p.dispatchOf pid = none) ∧
        ∀ pid, p = .confirmation pid → t.isInitProc = true) →
      k'.crashed = k.crashed → ExecEffect k ch t k'
  | moves {pid : Nat} : t.releases = some pid → preempted k ch t = none → Applies k t pid k' →
      newPackages k k' = [] → k'.crashed = k.crashed → ExecEffect k ch t k'
  | lost {pid : Nat} : t.releases = some pid → pid ∉ k.queue .exec → ExecEffect k ch t k'
  | dispatches {cpu pid : Nat} {pc : Int} : t.releases = none → t.isInitProc = false →
      newPackages k k' = [.dispatch cpu pid pc] →
      k'.queue .exec = (k.queue .exec).diff (preempted k ch t).toList ++ [pid] →
      k'.crashed = k.crashed → ExecEffect k ch t k'

/-- A silent section that releases no CPU. -/
theorem ExecEffect.silent {t : Thread} {k' : State} (ht : t.releases = none)
    (hp : preempted k ch t = none) (hs : Silent k k') (hexec : (k'.queue .exec).Perm (k.queue .exec)) :
    ExecEffect k ch t k' :=
  .keeps ht hp hexec (Or.inl hs.newPackages) hs.crashed

/-- EXIT, and an IO without a device. -/
theorem execEffect_exitProcessSyscall {t : Thread} {pid : Nat} (ht : t.releases = some pid)
    (hp : preempted k ch t = none) (hdst : destination k t = .exit) :
    ExecEffect k ch t (exitProcessSyscall k pid).1 := by
  unfold exitProcessSyscall
  split
  · rename_i hfound
    refine .moves ht hp ⟨mem_of_findPcbIn hfound, ?_, ?_, ?_⟩ (newPackages_of_eq rfl) rfl
    · simp [exitRoutine, addPcbTo, removePcbFrom]
    · simp [hdst, exitRoutine, addPcbTo, removePcbFrom]
    · simp [hdst, exitRoutine, addPcbTo]
  · rename_i hfound
    exact .lost ht (by simpa [findPcbIn] using hfound)

/-- A PCB that a handler moves from EXEC to BLOCKED. -/
theorem moves_blocked {t : Thread} {pid : Nat} {pc : Int} (hfound : pid ∈ k.queue .exec)
    (hdst : destination k t = .blocked) : Applies k t pid (movePcb .exec .blocked pid (setPc pid pc k)) := by
  refine ⟨hfound, ?_, ?_, ?_⟩
  · simp [movePcb, addPcbTo, removePcbFrom, setPc]
  · simp [hdst, movePcb, addPcbTo, removePcbFrom, setPc]
  · simp [hdst, movePcb, addPcbTo]

/-- The connection found for a device name is one of that name. -/
theorem getIoConnectionStatusByDeviceName_mem {deviceName : String} {c : IoConnection}
    (h : getIoConnectionStatusByDeviceName k deviceName = some c) :
    c ∈ k.ioConnections ∧ c.deviceName = deviceName := by
  have hmem : c ∈ k.ioConnections.filter fun c => decide (c.deviceName = deviceName) := by
    rw [getIoConnectionStatusByDeviceName, Option.or_eq_some_iff] at h
    rcases h with h | ⟨-, h⟩
    · exact List.mem_of_find?_eq_some h
    · exact List.mem_of_mem_head? h
  simpa using hmem

/-- IO. -/
theorem execEffect_handleIoProcessSyscall (hq : Queued k) (pid : Nat) (pc sleepTime : Int)
    (deviceName : String) : ExecEffect k ch (.io pid pc sleepTime deviceName)
      (handleIoProcessSyscall k pid pc sleepTime deviceName).1 := by
  unfold handleIoProcessSyscall
  split
  · rename_i hnone
    exact execEffect_exitProcessSyscall rfl rfl (by simp [destination, hnone])
  · rename_i connection hconn
    obtain ⟨hmem, hname⟩ := getIoConnectionStatusByDeviceName_mem hconn
    split
    · rename_i hnone
      have hsome := hq connection hmem
      rw [hname, hnone] at hsome
      exact absurd hsome (by simp)
    · split
      · rename_i hfound
        have hmoves := @moves_blocked k (.io pid pc sleepTime deviceName) pid pc (mem_of_findPcbIn hfound)
          (by simp [destination, hconn])
        exact .moves rfl rfl ⟨hmoves.found, hmoves.taken, hmoves.added, hmoves.state⟩ (newPackages_of_eq rfl) rfl
      · rename_i hfound
        exact .lost rfl (by simpa [findPcbIn] using hfound)

/-- DUMP_MEMORY. -/
theorem execEffect_dumpMemorySyscall (pid : Nat) (pc : Int) :
    ExecEffect k ch (.dump pid pc) (dumpMemorySyscall k pid pc).1 := by
  unfold dumpMemorySyscall
  split
  · rename_i hfound
    exact .moves rfl rfl (moves_blocked (mem_of_findPcbIn hfound) rfl) (newPackages_of_eq rfl) rfl
  · rename_i hfound
    exact .lost rfl (by simpa [findPcbIn] using hfound)

/-- INIT_PROC. -/
theorem execEffect_handleInitProcSyscall (callerPid : Nat) (callerPc size : Int) :
    ExecEffect k ch (.initProc callerPid callerPc size)
      (handleInitProcSyscall k callerPid callerPc size).1 := by
  have hexec := (handleInitProcSyscall_effect k callerPid callerPc size).exec rfl
  unfold handleInitProcSyscall at hexec ⊢
  split at hexec
  · rename_i hfound
    simp only [if_pos hfound] at hexec ⊢
    split at hexec
    · rename_i hnew
      rw [if_pos hnew]
      exact .keeps rfl rfl hexec (Or.inl (newPackages_of_eq rfl)) rfl
    · rename_i hnew
      rw [if_neg hnew]
      refine .keeps rfl rfl hexec (Or.inr ⟨.confirmation callerPid, newPackages_of_cons rfl, fun _ => rfl, ?_⟩) rfl
      exact fun _ _ => rfl
  · rename_i hfound
    rw [if_neg hfound]
    exact .silent rfl rfl (Silent.refl k) (List.Perm.refl _)

/-- `process_pending_io`. -/
theorem execEffect_processPendingIo (deviceName : String) (socket : Nat) (after : AfterPending) (sentOk : Bool) :
    ExecEffect k ch (.pendingIo deviceName socket after) (processPendingIo k deviceName socket sentOk) := by
  have hsame : (processPendingIo k deviceName socket sentOk).queue .exec = k.queue .exec := by
    rw [(processPendingIo_same k deviceName socket sentOk).queue]
  have hexec := List.Perm.of_eq hsame
  unfold processPendingIo at hexec ⊢
  split
  · exact .silent rfl rfl (Silent.refl k) (List.Perm.refl _)
  · split
    · exact .silent rfl rfl (Silent.refl k) (List.Perm.refl _)
    · simp only
      split
      · exact .silent rfl rfl (Silent.refl k) (List.Perm.refl _)
      · split
        · exact .silent rfl rfl (Silent.refl k) (List.Perm.refl _)
        · split
          · refine .keeps rfl rfl (List.Perm.refl _) (Or.inr ⟨_, newPackages_of_cons rfl, fun _ => rfl, ?_⟩) rfl
            exact fun _ h => by cases h
          · exact .silent rfl rfl (Silent.refl k) (List.Perm.refl _)

/-- A DISPATCH, before the scheduler returns. -/
theorem execEffect_shortReturn {t : Thread} {k' : State} (h : ExecEffect k ch t k')
    (caller : ShortCaller) : ExecEffect k ch t (shortReturn k' caller).1 := by
  cases caller with
  | plain => exact h
  | disconnect socket =>
    cases h with
    | keeps ht hv he hp hc => exact .keeps ht hv he hp hc
    | moves ht hv hm hp hc => exact .moves ht hv ⟨hm.found, hm.taken, hm.added, hm.state⟩ hp hc
    | lost ht hn => exact .lost ht hn
    | dispatches ht hi hp he hc => exact .dispatches ht hi hp he hc

/-- The choice between a DISPATCH, an INTERRUPT and nothing. -/
theorem execEffect_shortDecide (caller : ShortCaller) (cpu pid : Nat) (srt : Bool) :
    ExecEffect k ch (.shortSelected caller cpu pid) (shortDecide cfg k caller cpu pid srt).1 := by
  unfold shortDecide
  split
  · refine execEffect_shortReturn ?_ caller
    exact .dispatches rfl rfl (newPackages_of_cons rfl) (exec_dispatch cpu pid k) rfl
  · split
    · refine .keeps rfl rfl (List.Perm.refl _) (Or.inr ⟨_, newPackages_of_cons rfl, fun _ => rfl, ?_⟩) rfl
      exact fun _ h => by cases h
    · refine execEffect_shortReturn ?_ caller
      exact .silent rfl rfl (Silent.refl k) (List.Perm.refl _)

theorem silent_preempt (cpu : Nat) (samePid : Bool) (pc : Int) : Silent k (preempt k cpu samePid pc) := by
  unfold preempt
  split
  · exact Silent.refl k
  · split
    · exact ⟨rfl, rfl, rfl⟩
    · exact Silent.refl k

/-- The answer to an INTERRUPT. -/
theorem execEffect_shortAnswered (caller : ShortCaller) (cpu pid : Nat) :
    ExecEffect k ch (.shortWait caller cpu pid) (shortAnswered k caller cpu pid ch.answer ch.pc).1 := by
  have hsilent := @silent_preempt k cpu ch.answer ch.pc
  have hsent : (dispatch cpu pid (preempt k cpu ch.answer ch.pc)).sent =
      .dispatch cpu pid ((preempt k cpu ch.answer ch.pc).pcbs pid).pc :: k.sent := by
    rw [← hsilent.sent]
    rfl
  have hexec := exec_dispatch cpu pid (preempt k cpu ch.answer ch.pc)
  refine execEffect_shortReturn ?_ caller
  rw [exec_preempt caller cpu pid] at hexec
  exact .dispatches rfl rfl (newPackages_of_cons hsent) hexec hsilent.crashed

/-- **Every section has such an effect.** -/
theorem nextSection_exec (hq : Queued k) (t : Thread) : ExecEffect k ch t (nextSection cfg k ch t).1 := by
  have hrest : isLoud t = false → t.isSpecial = false → t.releases = none → preempted k ch t = none →
      ExecEffect k ch t (nextSection cfg k ch t).1 := fun hl hs hr hp =>
    .silent hr hp (nextSection_silent hl) ((nextSection_effect cfg k ch hs).exec hr)
  cases t with
  | initProc callerPid callerPc size => exact execEffect_handleInitProcSyscall callerPid callerPc size
  | io pid pc sleepTime deviceName => exact execEffect_handleIoProcessSyscall hq pid pc sleepTime deviceName
  | exit pid => exact execEffect_exitProcessSyscall rfl rfl rfl
  | dump pid pc => exact execEffect_dumpMemorySyscall pid pc
  | newDevice socket deviceName =>
    have hexec := (processNewDevice_effect k socket deviceName ch.position).exec rfl
    have hsilent : (processNewDevice k socket deviceName ch.position).1.sent = k.sent ∧
        (processNewDevice k socket deviceName ch.position).1.crashed = k.crashed := by
      simp only [processNewDevice]
      split
      · exact ⟨rfl, rfl⟩
      · exact ⟨rfl, rfl⟩
    exact .keeps rfl rfl hexec (Or.inl (newPackages_of_eq hsilent.1)) hsilent.2
  | pendingIo deviceName socket after => exact execEffect_processPendingIo deviceName socket after ch.answer
  | dumpWait pid =>
    refine .silent rfl rfl (nextSection_silent rfl) ?_
    obtain ⟨dst, hdst, heq, -⟩ := dumpMemoryAnswered_cases k pid ch.answer
    have hne : dst ≠ .exec := by
      rcases hdst with rfl | rfl
      · simp
      · simp
    simp only [nextSection, heq]
    rw [exec_movePcb (by simp) hne]
  | short caller => exact .silent rfl rfl (nextSection_silent rfl) (exec_shortSelect caller)
  | shortSelected caller cpu pid => exact execEffect_shortDecide caller cpu pid ch.preempt
  | shortWait caller cpu pid => exact execEffect_shortAnswered caller cpu pid
  | _ => exact hrest rfl rfl rfl rfl

end Sections

end Tpso.Kernel
