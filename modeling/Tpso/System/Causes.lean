/-
# What the waiting processes wait for

A process in BLOCKED or SUSP_BLOCKED comes back only when somebody brings it back: the device that its
request was given to, by a completion; the one its request will be given to, when it is free; or the
handler of its DUMP_MEMORY, when memoria answers.  Each of these is written down elsewhere: in the queue
of requests of a device name, in the mark of a connection, in a thread that waits.

Each critical section of the kernel reads and writes one or two of these places and one or two of the
lists.  What is shown of each of them is that it keeps the two in step (`Causes`): whoever waits has exactly
one cause to.  Most sections go on beside (`Aside`); the others make a process wait, hand its cause on, or
bring it back.
-/
import Tpso.Lib.Causes
import Tpso.Kernel.Queues
import Tpso.System.Devices

namespace Tpso.Kernel

/-! ## 1. Connections about to be deleted -/

/-- The socket whose connection is deleted when the scheduler returns. -/
def LongCaller.leaves : LongCaller → Option Nat
  | .disconnect socket => some socket
  | _ => none

def ShortCaller.leaves : ShortCaller → Option Nat
  | .disconnect socket => some socket
  | .plain => none

/-- `io_disconnected` has found the process of its connection in SUSP_BLOCKED, ended it, and called the
schedulers: the connection and its mark are still there, the process is not. -/
def Thread.leaves : Thread → Option Nat
  | .long caller => caller.leaves
  | .longScan caller _ => caller.leaves
  | .longUnsuspend _ caller _ => caller.leaves
  | .longAnswered _ _ caller _ => caller.leaves
  | .longMove _ caller => caller.leaves
  | .longLock caller _ => caller.leaves
  | .longNew caller _ => caller.leaves
  | .longCreate _ caller _ => caller.leaves
  | .short caller => caller.leaves
  | .shortSelected caller _ _ => caller.leaves
  | .shortWait caller _ _ => caller.leaves
  | _ => none

theorem LongCaller.holds_of_leaves {caller : LongCaller} {socket : Nat} (h : caller.leaves = some socket) :
    .ioConnections ∈ caller.holds := by
  cases caller with
  | always => simp [LongCaller.leaves] at h
  | ifMoved => simp [LongCaller.leaves] at h
  | disconnect socket => exact List.mem_singleton_self _

theorem ShortCaller.holds_of_leaves {caller : ShortCaller} {socket : Nat} (h : caller.leaves = some socket) :
    .ioConnections ∈ caller.holds := by
  cases caller with
  | plain => simp [ShortCaller.leaves] at h
  | disconnect socket => exact List.mem_singleton_self _

/-- IO_CONNECTIONS is held until the connection is deleted. -/
theorem Thread.holds_of_leaves {t : Thread} {socket : Nat} (h : t.leaves = some socket) :
    .ioConnections ∈ t.holds := by
  cases t with
  | long caller => exact LongCaller.holds_of_leaves h
  | longScan caller moved => exact LongCaller.holds_of_leaves h
  | longUnsuspend pid caller moved => exact List.mem_cons_of_mem _ (LongCaller.holds_of_leaves h)
  | longAnswered pid success caller moved => exact List.mem_cons_of_mem _ (LongCaller.holds_of_leaves h)
  | longMove popped caller => exact LongCaller.holds_of_leaves h
  | longLock caller moved => exact LongCaller.holds_of_leaves h
  | longNew caller moved =>
    exact List.mem_cons_of_mem _ (List.mem_cons_of_mem _ (LongCaller.holds_of_leaves h))
  | longCreate pid caller moved =>
    exact List.mem_cons_of_mem _ (List.mem_cons_of_mem _ (LongCaller.holds_of_leaves h))
  | short caller => exact ShortCaller.holds_of_leaves h
  | shortSelected caller cpu pid =>
    exact List.mem_cons_of_mem _ (List.mem_cons_of_mem _ (ShortCaller.holds_of_leaves h))
  | shortWait caller cpu pid =>
    exact List.mem_cons_of_mem _ (List.mem_cons_of_mem _ (ShortCaller.holds_of_leaves h))
  | _ => simp [Thread.leaves] at h

/-- Nobody else is about to delete a connection while a section works under IO_CONNECTIONS. -/
theorem not_leaves_of_free {t : Thread} {others : List Thread} (h : t.free others = true)
    (hl : .ioConnections ∈ t.uses) : ∀ u ∈ others, u.leaves = none := by
  intro u hu
  cases hleaves : u.leaves with
  | none => rfl
  | some socket => exact absurd (Thread.holds_of_leaves hleaves) (not_holds_of_free h hu hl)

end Tpso.Kernel

namespace Tpso.Waiting

open Tpso.Lib Tpso.Kernel Tpso.Devices

/-! ## 2. What a process waits for -/

/-- Why a process waits. -/
inductive Cause where
  /-- Its request is in the queue of a device name. -/
  | request (deviceName : String)
  /-- The connection at a socket is marked with it. -/
  | device (socket : Nat)
  /-- memoria has not answered its DUMP_MEMORY. -/
  | dump
deriving DecidableEq

/-- The connection at a socket is marked with a process. -/
def Marked (k : Kernel.State) (socket pid : Nat) : Prop :=
  ∃ c ∈ k.ioConnections, c.socket = socket ∧ c.currentProcessExecuting = some pid

/-- **Where a cause is written down.**  The mark of a connection that is about to be deleted is none. -/
def holds (k : Kernel.State) : Cause → Nat → Prop
  | .request deviceName, pid => pid ∈ (k.requests deviceName).map (·.pid)
  | .device socket, pid => Marked k socket pid ∧ ∀ u ∈ k.threads, u.leaves ≠ some socket
  | .dump, pid => .dumpWait pid ∈ k.threads

/-- The processes that wait. -/
def waits (k : Kernel.State) (pid : Nat) : Prop := pid ∈ k.queue .blocked ∨ pid ∈ k.queue .suspBlocked

/-! ## 3. Sections that go on beside -/

section Aside

variable {cfg : Config} {k k' : Kernel.State} {ch : Choice} {t : Thread} {r : Kernel.State × List Thread}

/-- The threads whose sections write or take away causes. -/
def changesCauses : Thread → Bool
  | .io _ _ _ _ | .dump _ _ | .dumpWait _ | .newDevice _ _ | .pendingIo _ _ _ | .ioCompletion _ _ _
  | .ioDisconnected _ | .disconnectSusp _ _ => true
  | _ => false

/-- The connections stay and are as much about to be deleted as before, or the one that the thread is to
delete is deleted. -/
def Passes (k : Kernel.State) (t : Thread) (r : Kernel.State × List Thread) : Prop :=
  (r.1.ioConnections = k.ioConnections ∧ ∀ socket, (∃ u ∈ r.2, u.leaves = some socket) ↔ t.leaves = some socket) ∨
    ∃ socket, t.leaves = some socket ∧ r.1.ioConnections = (deleteIoConnection socket k).ioConnections ∧ r.2 = []

/-- A section that writes no cause and takes none away. -/
structure Aside (k : Kernel.State) (t : Thread) (r : Kernel.State × List Thread) : Prop where
  requests : r.1.ioRequests = k.ioRequests
  dumps : ∀ pid, .dumpWait pid ∉ r.2
  searches : ∀ socket pid, .disconnectSusp socket pid ∉ r.2
  passes : Passes k t r

/-- The request queues and the connections are as they were. -/
structure SameIo (k k' : Kernel.State) : Prop where
  requests : k'.ioRequests = k.ioRequests
  connections : k'.ioConnections = k.ioConnections

theorem SameIo.trans {k'' : Kernel.State} (h : SameIo k k') (h' : SameIo k' k'') : SameIo k k'' :=
  ⟨h'.requests.trans h.requests, h'.connections.trans h.connections⟩

theorem sameIo_sortList (st : ProcessState) (order : List Nat) (k : Kernel.State) :
    SameIo k (sortList st order k) := ⟨(silent_sortList st order k).ioRequests, (sortList_io st order k).1⟩

/-- `getNextProcessToInitializeFrom` only sorts. -/
theorem sameIo_of_next {st : ProcessState} {order : List Nat} {next : Option Nat}
    (h : getNextProcessToInitializeFrom cfg st order k = (k', next)) : SameIo k k' := by
  obtain ⟨order', heq⟩ := getNextProcessToInitializeFrom_eq k cfg st order
  rw [h] at heq
  rw [show k' = sortList st order' k from heq]
  exact sameIo_sortList st order' k

theorem sameIo_of_cpu {execOrder : List Nat} {cpu : Option Nat}
    (h : getCpuToDispatch cfg execOrder k = (k', cpu)) : SameIo k k' := by
  have hk : k' = (getCpuToDispatch cfg execOrder k).1 := by rw [h]
  rw [hk]
  rcases getCpuToDispatch_cases cfg execOrder k with ⟨cpu, -, -, heq⟩ | ⟨order, cpu, heq, -⟩
  · rw [heq]
    exact ⟨rfl, rfl⟩
  · rw [heq]
    exact sameIo_sortList .exec order k

theorem sameIo_of_ready {order : List Nat} {next : Option Nat}
    (h : getNextProcessToDispatch cfg order k = (k', next)) : SameIo k k' := by
  have hk : k' = (getNextProcessToDispatch cfg order k).1 := by rw [h]
  rw [hk]
  simp only [getNextProcessToDispatch]
  split
  · exact sameIo_sortList .ready order k
  · exact ⟨rfl, rfl⟩

theorem sameIo_mediumRollback (pid : Nat) (k : Kernel.State) : SameIo k (mediumRollback k pid) := by
  unfold mediumRollback
  split
  · exact ⟨rfl, rfl⟩
  · exact ⟨rfl, rfl⟩

theorem sameIo_preempt (cpu : Nat) (samePid : Bool) (pc : Int) (k : Kernel.State) :
    SameIo k (preempt k cpu samePid pc) := by
  unfold preempt
  split
  · exact ⟨rfl, rfl⟩
  · split
    · exact ⟨rfl, rfl⟩
    · exact ⟨rfl, rfl⟩

/-- A section that continues as one thread, with the same caller. -/
theorem SameIo.one {u : Thread} (h : SameIo k k') (hl : u.leaves = t.leaves) (hd : ∀ pid, u ≠ .dumpWait pid)
    (hs : ∀ socket pid, u ≠ .disconnectSusp socket pid) : Aside k t (k', [u]) where
  requests := h.requests
  dumps pid hu := hd pid (List.mem_singleton.mp hu).symm
  searches socket pid hu := hs socket pid (List.mem_singleton.mp hu).symm
  passes := Or.inl ⟨h.connections, fun socket => by simp [hl]⟩

/-- A section after which nothing is left to do. -/
theorem SameIo.nil (h : SameIo k k') (hl : t.leaves = none) : Aside k t (k', []) where
  requests := h.requests
  dumps pid hu := absurd hu List.not_mem_nil
  searches socket pid hu := absurd hu List.not_mem_nil
  passes := Or.inl ⟨h.connections, fun socket => by simp [hl]⟩

/-- The deletion at the end. -/
theorem SameIo.delete {socket : Nat} (h : SameIo k k') (hl : t.leaves = some socket) :
    Aside k t (deleteIoConnection socket k', []) where
  requests := h.requests
  dumps pid hu := absurd hu List.not_mem_nil
  searches socket pid hu := absurd hu List.not_mem_nil
  passes := Or.inr ⟨socket, hl, by simp [deleteIoConnection, h.connections], rfl⟩

theorem SameIo.longReturn (h : SameIo k k') (caller : LongCaller) (moved : Bool)
    (hl : t.leaves = caller.leaves) : Aside k t (longReturn k' caller moved) := by
  cases caller with
  | always => exact h.one hl.symm (by simp) (by simp)
  | ifMoved =>
    cases moved with
    | true => exact h.one hl.symm (by simp) (by simp)
    | false => exact h.nil hl
  | disconnect socket =>
    cases moved with
    | true => exact h.one hl.symm (by simp) (by simp)
    | false => exact h.delete hl

theorem SameIo.shortReturn (h : SameIo k k') (caller : ShortCaller) (hl : t.leaves = caller.leaves) :
    Aside k t (shortReturn k' caller) := by
  cases caller with
  | plain => exact h.nil hl
  | disconnect socket => exact h.delete hl

theorem aside_exitProcessSyscall (pid : Nat) (hl : t.leaves = none) :
    Aside k t (exitProcessSyscall k pid) := by
  unfold exitProcessSyscall
  split
  · exact SameIo.one (k := k) ⟨rfl, rfl⟩ hl.symm (by simp) (by simp)
  · exact SameIo.nil (k := k) ⟨rfl, rfl⟩ hl

theorem aside_shortSelect (caller : ShortCaller) :
    Aside k (.short caller) (shortSelect cfg k ch caller) := by
  unfold shortSelect
  split
  · rename_i k1 heq
    exact (sameIo_of_cpu heq).shortReturn caller rfl
  · rename_i k1 cpu heq
    split
    · rename_i k2 heq'
      exact ((sameIo_of_cpu heq).trans (sameIo_of_ready heq')).shortReturn caller rfl
    · rename_i k2 pid heq'
      exact ((sameIo_of_cpu heq).trans (sameIo_of_ready heq')).one rfl (by simp) (by simp)

/-- **All other sections go on beside.** -/
theorem nextSection_aside (ht : changesCauses t = false) : Aside k t (nextSection cfg k ch t) := by
  have hsame : SameIo k k := ⟨rfl, rfl⟩
  cases t with
  | initProc callerPid callerPc size =>
    simp only [nextSection, handleInitProcSyscall]
    split
    · split
      · exact SameIo.nil (k := k) ⟨rfl, rfl⟩ rfl
      · exact SameIo.one (k := k) ⟨rfl, rfl⟩ rfl (by simp) (by simp)
    · exact hsame.nil rfl
  | exit pid => exact aside_exitProcessSyscall pid rfl
  | medium pid =>
    simp only [nextSection, runMediumScheduler]
    split
    · split
      · split
        · exact SameIo.one (k := k) ⟨rfl, rfl⟩ rfl (by simp) (by simp)
        · exact SameIo.one (k := k) ⟨rfl, rfl⟩ rfl (by simp) (by simp)
      · exact hsame.nil rfl
    · exact hsame.nil rfl
  | mediumSwap pid =>
    simp only [nextSection]
    split
    · exact hsame.one rfl (by simp) (by simp)
    · exact (sameIo_mediumRollback pid k).nil rfl
  | mediumSent pid => exact hsame.one rfl (by simp) (by simp)
  | mediumAnswered pid success =>
    simp only [nextSection]
    split
    · exact hsame.one rfl (by simp) (by simp)
    · exact (sameIo_mediumRollback pid k).nil rfl
  | long caller =>
    simp only [nextSection]
    split
    · exact hsame.one rfl (by simp) (by simp)
    · exact hsame.longReturn caller false rfl
  | longScan caller moved =>
    simp only [nextSection, longScan]
    split
    · rename_i k1 heq
      exact (sameIo_of_next heq).one rfl (by simp) (by simp)
    · rename_i k1 pid heq
      exact (sameIo_of_next heq).one rfl (by simp) (by simp)
  | longUnsuspend pid caller moved => exact hsame.one rfl (by simp) (by simp)
  | longAnswered pid success caller moved =>
    simp only [nextSection, longAnswered]
    split
    · exact SameIo.one (k := k) ⟨rfl, rfl⟩ rfl (by simp) (by simp)
    · exact hsame.one rfl (by simp) (by simp)
  | longMove popped caller =>
    simp only [nextSection, longMove]
    split
    · exact hsame.one rfl (by simp) (by simp)
    · exact SameIo.one (k := k) ⟨rfl, rfl⟩ rfl (by simp) (by simp)
  | longLock caller moved => exact hsame.one rfl (by simp) (by simp)
  | longNew caller moved =>
    simp only [nextSection, longNew]
    split
    · rename_i k1 heq
      exact (sameIo_of_next heq).longReturn caller moved rfl
    · rename_i k1 pid heq
      exact (sameIo_of_next heq).one rfl (by simp) (by simp)
  | longCreate pid caller moved =>
    simp only [nextSection, longCreate]
    split
    · split
      · exact SameIo.one (k := k) ⟨rfl, rfl⟩ rfl (by simp) (by simp)
      · exact hsame.one rfl (by simp) (by simp)
    · exact hsame.longReturn caller moved rfl
  | short caller => exact aside_shortSelect caller
  | shortSelected caller cpu pid =>
    simp only [nextSection, shortDecide]
    split
    · have hdispatch : SameIo k (dispatch cpu pid k) := ⟨rfl, rfl⟩
      exact hdispatch.shortReturn caller rfl
    · split
      · exact SameIo.one (k := k) ⟨rfl, rfl⟩ rfl (by simp) (by simp)
      · exact hsame.shortReturn caller rfl
  | shortWait caller cpu pid =>
    have hpreempt := sameIo_preempt cpu ch.answer ch.pc k
    have hdispatch : SameIo k (dispatch cpu pid (preempt k cpu ch.answer ch.pc)) :=
      ⟨hpreempt.requests, hpreempt.connections⟩
    exact hdispatch.shortReturn caller rfl
  | _ => simp [changesCauses] at ht

end Aside

/-! ## 4. Who waits after a section -/

/-- BLOCKED and SUSP_BLOCKED. -/
def isWaiting : ProcessState → Bool
  | .blocked | .suspBlocked => true
  | _ => false

section Follows

variable {cfg : Config} {k k' : Kernel.State} {ch : Choice} {t : Thread} {calls : List (Nat × ProcessState)}

/-- The two lists, read off `current_state`. -/
theorem waits_iff (hk : Kernel.Inv k) (hcarried : Carried k) (pid : Nat) :
    waits k pid ↔ pid ≤ k.newPid ∧ isWaiting (k.states pid) = true := by
  constructor
  · rintro (hb | hb)
    · rw [(hk.on_list hb).2]
      exact ⟨(hk.on_list hb).1, rfl⟩
    · rw [(hk.on_list hb).2]
      exact ⟨(hk.on_list hb).1, rfl⟩
  · rintro ⟨hle, hw⟩
    rcases hk.tidy.cover pid (Nat.lt_succ_of_le hle) with hin | ⟨a, ha⟩
    · rw [hcarried pid hin] at hw
      exact absurd hw (by decide)
    · rw [(hk.on_list ha).2] at hw
      cases a with
      | blocked => exact Or.inl ha
      | suspBlocked => exact Or.inr ha
      | _ => exact absurd hw (by decide)

/-- Whom the calls of `pcb_change_state` concern, wait or not as they say; all others as before. -/
structure Follows (k k' : Kernel.State) (calls : List (Nat × ProcessState)) : Prop where
  called : ∀ pid st, (pid, st) ∈ calls → (waits k' pid ↔ isWaiting st = true)
  others : ∀ pid, (∀ st, (pid, st) ∉ calls) → (waits k' pid ↔ waits k pid)

theorem Follows.nil (h : Follows k k' []) (pid : Nat) : waits k' pid ↔ waits k pid :=
  h.others pid fun _ => List.not_mem_nil

/-- One process is called into one of the two lists. -/
theorem Follows.into {pid : Nat} {st : ProcessState} (h : Follows k k' [(pid, st)])
    (hst : isWaiting st = true) (j : Nat) : waits k' j ↔ waits k j ∨ j = pid := by
  by_cases hj : j = pid
  · subst hj
    simp [h.called j st (List.mem_singleton_self _), hst]
  · simp [h.others j (by simp [hj]), hj]

/-- One process is called out of the two lists. -/
theorem Follows.outOf {pid : Nat} {st : ProcessState} (h : Follows k k' [(pid, st)])
    (hst : isWaiting st = false) (j : Nat) : waits k' j ↔ waits k j ∧ j ≠ pid := by
  by_cases hj : j = pid
  · subst hj
    simp [h.called j st (List.mem_singleton_self _), hst]
  · simp [h.others j (by simp [hj]), hj]

/-- The kernel after a section, with the other threads and those that continue it. -/
def after (others : List Thread) (r : Kernel.State × List Thread) : Kernel.State :=
  { r.1 with threads := others ++ r.2 }

/-- **A section changes who waits by its calls alone.** -/
theorem follows_section {others : List Thread} (hk : Kernel.Inv k) (hcarried : Carried k) (ht : t ∈ k.threads)
    (hplace : InPlace k t) (hk' : Kernel.Inv (after others (nextSection cfg k ch t)))
    (hcarried' : Carried (after others (nextSection cfg k ch t))) :
    Follows k (after others (nextSection cfg k ch t)) (changes k ch t) := by
  have hborn : (nextSection cfg k ch t).1.newPid = k.newPid ∨
      ((nextSection cfg k ch t).1.newPid = k.newPid + 1 ∧
        (nextSection cfg k ch t).1.states (k.newPid + 1) = .new) :=
    nextSection_newborn cfg ch t (hk.unborn .new)
  have hle : k.newPid ≤ (nextSection cfg k ch t).1.newPid := by
    rcases hborn with h | ⟨h, -⟩
    · exact h.ge
    · omega
  have hnodup : ((changes k ch t).map Prod.fst).Nodup := changes_nodup hk hplace
  constructor
  · intro pid st hcall
    have hpid := (changes_follow hk hcarried ht hplace _ hcall).1
    have hstate : (nextSection cfg k ch t).1.states pid = st := by
      rw [states_section cfg k ch t hpid]
      rcases applyChanges_cases (changes k ch t) k.states pid hnodup with ⟨-, hnone⟩ | hmem
      · exact absurd hcall (hnone st)
      · exact congrArg Prod.snd (List.inj_on_of_nodup_map hnodup hmem hcall rfl)
    rw [waits_iff hk' hcarried', ← hstate]
    exact and_iff_right (hpid.trans hle)
  · intro pid hnone
    rw [waits_iff hk' hcarried', waits_iff hk hcarried]
    by_cases hpid : pid ≤ k.newPid
    · have hstate : (nextSection cfg k ch t).1.states pid = k.states pid := by
        rw [states_section cfg k ch t hpid]
        rcases applyChanges_cases (changes k ch t) k.states pid hnodup with ⟨heq, -⟩ | hmem
        · exact heq
        · exact absurd hmem (hnone _)
      rw [← hstate]
      exact and_congr_left fun _ => iff_of_true (hpid.trans hle) hpid
    · -- only the PCB that was just created can have a larger pid
      refine iff_of_false ?_ fun h => hpid h.1
      rintro ⟨hle', hw⟩
      have hle' : pid ≤ (nextSection cfg k ch t).1.newPid := hle'
      have hw : isWaiting ((nextSection cfg k ch t).1.states pid) = true := hw
      rcases hborn with hsame | ⟨hnew, hstate⟩
      · omega
      · have hpid' : pid = k.newPid + 1 := by omega
        rw [hpid', hstate] at hw
        exact absurd hw (by decide)

/-- **A section that goes on beside calls nobody into the two lists, and nobody out of them.** -/
theorem changes_aside (hk : Kernel.Inv k) (hcarried : Carried k) (ht : t ∈ k.threads) (hplace : InPlace k t)
    (haside : changesCauses t = false) {pid : Nat} {st : ProcessState} (hcall : (pid, st) ∈ changes k ch t) :
    isWaiting st = isWaiting (k.states pid) := by
  have hfound : ∀ {a : ProcessState} {q : Nat}, findPcbIn a q k = true → k.states q = a := fun h =>
    (hk.on_list (mem_of_findPcbIn h)).2
  cases t with
  | exit q =>
    simp only [changes] at hcall
    split at hcall
    · rename_i hexec
      obtain ⟨rfl, rfl⟩ := Prod.mk.inj (List.mem_singleton.mp hcall)
      rw [hfound hexec]
      rfl
    · exact absurd hcall List.not_mem_nil
  | medium q =>
    simp only [changes] at hcall
    split at hcall
    · rename_i hblocked
      obtain ⟨rfl, rfl⟩ := Prod.mk.inj (List.mem_singleton.mp hcall)
      rw [hfound (Bool.and_eq_true_iff.mp hblocked).1]
      rfl
    · exact absurd hcall List.not_mem_nil
  | mediumSwap q =>
    simp only [changes] at hcall
    split at hcall
    · rename_i hsusp
      obtain ⟨rfl, rfl⟩ := Prod.mk.inj (List.mem_singleton.mp hcall)
      rw [hfound (Bool.and_eq_true_iff.mp hsusp).2]
      rfl
    · exact absurd hcall List.not_mem_nil
  | mediumAnswered q success =>
    simp only [changes] at hcall
    split at hcall
    · rename_i hsusp
      obtain ⟨rfl, rfl⟩ := Prod.mk.inj (List.mem_singleton.mp hcall)
      rw [hfound (Bool.and_eq_true_iff.mp hsusp).2]
      rfl
    · exact absurd hcall List.not_mem_nil
  | longMove popped caller =>
    cases popped with
    | none => exact absurd hcall List.not_mem_nil
    | some q =>
      obtain ⟨rfl, rfl⟩ := Prod.mk.inj (List.mem_singleton.mp hcall)
      rw [hcarried pid (List.mem_flatMap.mpr ⟨_, ht, List.mem_singleton_self _⟩)]
      rfl
  | longCreate q caller moved =>
    simp only [changes] at hcall
    split at hcall
    · rename_i hnew
      obtain ⟨rfl, rfl⟩ := Prod.mk.inj (List.mem_singleton.mp hcall)
      rw [hfound (Bool.and_eq_true_iff.mp hnew).2]
      rfl
    · exact absurd hcall List.not_mem_nil
  | shortSelected caller cpu q =>
    simp only [changes] at hcall
    split at hcall
    · obtain ⟨rfl, rfl⟩ := Prod.mk.inj (List.mem_singleton.mp hcall)
      rw [(hk.on_list (hplace.1 pid rfl)).2]
      rfl
    · exact absurd hcall List.not_mem_nil
  | shortWait caller cpu q =>
    have hq : k.states q = .ready := (hk.on_list (hplace.1 q rfl)).2
    have hone : (pid, st) = (q, .exec) → isWaiting st = isWaiting (k.states pid) := by
      intro heq
      obtain ⟨rfl, rfl⟩ := Prod.mk.inj heq
      rw [hq]
      rfl
    simp only [changes] at hcall
    split at hcall
    · exact hone (List.mem_singleton.mp hcall)
    · rename_i executing _
      split at hcall
      · rename_i hexec
        rcases List.mem_cons.mp hcall with heq | hcall
        · obtain ⟨rfl, rfl⟩ := Prod.mk.inj heq
          rw [hfound (Bool.and_eq_true_iff.mp hexec).2]
          rfl
        · exact hone (List.mem_singleton.mp hcall)
      · exact hone (List.mem_singleton.mp hcall)
  | initProc callerPid callerPc size => exact absurd hcall List.not_mem_nil
  | mediumSent q => exact absurd hcall List.not_mem_nil
  | long caller => exact absurd hcall List.not_mem_nil
  | longScan caller moved => exact absurd hcall List.not_mem_nil
  | longUnsuspend q caller moved => exact absurd hcall List.not_mem_nil
  | longAnswered q success caller moved => exact absurd hcall List.not_mem_nil
  | longLock caller moved => exact absurd hcall List.not_mem_nil
  | longNew caller moved => exact absurd hcall List.not_mem_nil
  | short caller => exact absurd hcall List.not_mem_nil
  | _ => simp [changesCauses] at haside

end Follows

/-! ## 5. The causes after a section -/

/-- The process whose dump a thread waits for. -/
def dumped : Thread → Option Nat
  | .dumpWait pid => some pid
  | _ => none

/-- **The invariant**: whoever waits has one cause, no queue and no two threads name a process twice, and
`io_disconnected` looks for the process with which its connection is marked. -/
structure Causes (k : Kernel.State) : Prop where
  one : OneCause (holds k) (waits k)
  requests : ∀ d, ((k.requests d).map (·.pid)).Nodup
  dumps : (k.threads.filterMap dumped).Nodup
  searched : ∀ socket pid, .disconnectSusp socket pid ∈ k.threads → holds k (.device socket) pid

section Causes

variable {cfg : Config} {k : Kernel.State} {ch : Choice} {t : Thread} {others : List Thread}
  {r : Kernel.State × List Thread}

theorem mem_filterMap_dumped {threads : List Thread} {pid : Nat} :
    pid ∈ threads.filterMap dumped ↔ .dumpWait pid ∈ threads := by
  constructor
  · intro h
    obtain ⟨u, hu, heq⟩ := List.mem_filterMap.mp h
    cases u with
    | dumpWait q =>
      obtain rfl := Option.some.inj heq
      exact hu
    | _ => simp [dumped] at heq
  · intro h
    exact List.mem_filterMap.mpr ⟨_, h, rfl⟩

/-- What is left of the threads, when the running one waits for no dump and the new ones for none either. -/
theorem dumps_after (h : Causes k) (hperm : k.threads.Perm (t :: others)) (hnew : ∀ pid, .dumpWait pid ∉ r.2) :
    ((after others r).threads.filterMap dumped).Nodup := by
  have hnone : r.2.filterMap dumped = [] := by
    refine List.eq_nil_iff_forall_not_mem.mpr fun pid hpid => ?_
    exact hnew pid (mem_filterMap_dumped.mp hpid)
  have hothers : (others.filterMap dumped).Nodup := by
    have hsub : (others.filterMap dumped).Sublist ((t :: others).filterMap dumped) :=
      (List.sublist_cons_self t others).filterMap dumped
    exact ((hperm.filterMap dumped).nodup_iff.mp h.dumps).sublist hsub
  simpa [after, hnone] using hothers

/-- The dumps that are waited for, likewise. -/
theorem mem_dumpWait_after (hperm : k.threads.Perm (t :: others)) (ht : ∀ pid, t ≠ .dumpWait pid)
    (hnew : ∀ pid, .dumpWait pid ∉ r.2) (pid : Nat) :
    .dumpWait pid ∈ (after others r).threads ↔ .dumpWait pid ∈ k.threads := by
  rw [hperm.mem_iff, List.mem_cons, after, List.mem_append]
  constructor
  · rintro (h | h)
    · exact Or.inr h
    · exact absurd h (hnew pid)
  · rintro (h | h)
    · exact absurd h.symm (ht pid)
    · exact Or.inl h

/-- **A section that goes on beside keeps every cause.** -/
theorem Aside.holds_iff (h : Aside k t r) (hperm : k.threads.Perm (t :: others))
    (ht : ∀ pid, t ≠ .dumpWait pid) (a : Cause) (pid : Nat) : holds (after others r) a pid ↔ holds k a pid := by
  cases a with
  | request d =>
    simp only [holds, State.requests, after, h.requests]
  | dump => exact mem_dumpWait_after hperm ht h.dumps pid
  | device socket =>
    have hleaves : (∀ u ∈ k.threads, u.leaves ≠ some socket) ↔
        t.leaves ≠ some socket ∧ ∀ u ∈ others, u.leaves ≠ some socket := by
      simp only [hperm.mem_iff, List.forall_mem_cons]
    have hafter : (∀ u ∈ (after others r).threads, u.leaves ≠ some socket) ↔
        (∀ u ∈ others, u.leaves ≠ some socket) ∧ ∀ u ∈ r.2, u.leaves ≠ some socket := by
      simp only [after, List.forall_mem_append]
    simp only [holds, Marked, hleaves, hafter]
    rcases h.passes with ⟨hconn, hsame⟩ | ⟨socket', hsocket', hconn, hnil⟩
    · have hnew : (∀ u ∈ r.2, u.leaves ≠ some socket) ↔ t.leaves ≠ some socket := by
        rw [← not_iff_not, not_not, ← hsame socket]
        simp
      simp only [after, hconn, hnew, and_comm]
    · simp only [after, hconn, hnil, hsocket', deleteIoConnection, List.mem_filter, decide_eq_true_eq]
      by_cases heq : socket = socket'
      · subst heq
        constructor
        · rintro ⟨⟨c, ⟨-, hne⟩, heq, -⟩, -⟩
          exact absurd heq hne
        · rintro ⟨-, hne, -⟩
          exact absurd rfl hne
      · constructor
        · rintro ⟨⟨c, ⟨hc, -⟩, hsock, hmark⟩, hothers, -⟩
          exact ⟨⟨c, hc, hsock, hmark⟩, fun h => heq (Option.some.inj h).symm, hothers⟩
        · rintro ⟨⟨c, hc, hsock, hmark⟩, -, hothers⟩
          exact ⟨⟨c, ⟨hc, hsock ▸ heq⟩, hsock, hmark⟩, hothers, by simp⟩

/-- **A section that goes on beside keeps the invariant.** -/
theorem Causes.aside (h : Causes k) (haside : Aside k t r) (hperm : k.threads.Perm (t :: others))
    (ht : ∀ pid, t ≠ .dumpWait pid) (hw : ∀ pid, waits (after others r) pid ↔ waits k pid) :
    Causes (after others r) where
  one := h.one.congr (haside.holds_iff hperm ht) hw
  requests d := by
    rw [show (after others r).requests d = k.requests d by simp only [State.requests, after, haside.requests]]
    exact h.requests d
  dumps := dumps_after h hperm haside.dumps
  searched socket pid hu := by
    rw [haside.holds_iff hperm ht]
    rcases List.mem_append.mp hu with hu | hu
    · exact h.searched socket pid (hperm.mem_iff.mpr (List.mem_cons_of_mem _ hu))
    · exact absurd hu (haside.searches socket pid)

end Causes

/-! ## 6. Sections under IO_CONNECTIONS -/

section Under

variable {cfg : Config} {k : Kernel.State} {ch : Choice} {t : Thread} {others : List Thread}
  {r : Kernel.State × List Thread}

/-- The threads that neither wait for a dump nor are inside `io_disconnected`. -/
def isPlain (u : Thread) : Bool :=
  match u with
  | .dumpWait _ | .disconnectSusp _ _ => false
  | u => u.leaves.isNone

theorem isPlain_spec {u : Thread} (h : isPlain u = true) :
    u.leaves = none ∧ (∀ pid, u ≠ .dumpWait pid) ∧ ∀ socket pid, u ≠ .disconnectSusp socket pid := by
  cases u with
  | dumpWait pid => exact absurd h (by simp [isPlain])
  | disconnectSusp socket pid => exact absurd h (by simp [isPlain])
  | _ => exact ⟨Option.isNone_iff_eq_none.mp h, by simp, by simp⟩

/-- **A section under IO_CONNECTIONS**, of a thread that continues as plain threads or not at all: nobody else
is inside `io_disconnected`. -/
structure Under (k : Kernel.State) (t : Thread) (others : List Thread) (r : Kernel.State × List Thread) :
    Prop where
  perm : k.threads.Perm (t :: others)
  free : t.free others = true
  uses : .ioConnections ∈ t.uses
  leaves : t.leaves = none
  dumps : ∀ pid, t ≠ .dumpWait pid
  plain : ∀ u ∈ r.2, isPlain u = true

theorem Under.device_before (h : Under k t others r) (socket pid : Nat) :
    holds k (.device socket) pid ↔ Marked k socket pid := by
  refine and_iff_left fun u hu => ?_
  rcases List.mem_cons.mp (h.perm.mem_iff.mp hu) with rfl | hu
  · simp [h.leaves]
  · simp [not_leaves_of_free h.free h.uses u hu]

theorem Under.device_after (h : Under k t others r) (socket pid : Nat) :
    holds (after others r) (.device socket) pid ↔ Marked r.1 socket pid := by
  refine and_iff_left fun u hu => ?_
  rcases List.mem_append.mp hu with hu | hu
  · simp [not_leaves_of_free h.free h.uses u hu]
  · simp [(isPlain_spec (h.plain u hu)).1]

theorem Under.dump_iff (h : Under k t others r) (pid : Nat) :
    holds (after others r) .dump pid ↔ holds k .dump pid :=
  mem_dumpWait_after h.perm h.dumps (fun q hq => (isPlain_spec (h.plain _ hq)).2.1 q rfl) pid

/-- What is left to show of the invariant. -/
theorem Under.causes (h : Under k t others r) (hk : Causes k)
    (hone : OneCause (holds (after others r)) (waits (after others r)))
    (hrequests : ∀ d, ((r.1.requests d).map (·.pid)).Nodup) : Causes (after others r) where
  one := hone
  requests := hrequests
  dumps := dumps_after hk h.perm fun q hq => (isPlain_spec (h.plain _ hq)).2.1 q rfl
  searched socket pid hu := by
    rcases List.mem_append.mp hu with hu | hu
    · exact absurd (List.mem_singleton_self _) (not_holds_of_free h.free hu h.uses)
    · exact absurd rfl ((isPlain_spec (h.plain _ hu)).2.2 socket pid)

/-- Nothing that is written down changes. -/
theorem Under.same (h : Under k t others r) (hk : Causes k) (hr : ∀ d, r.1.requests d = k.requests d)
    (hm : ∀ socket pid, Marked r.1 socket pid ↔ Marked k socket pid)
    (hw : ∀ pid, waits (after others r) pid ↔ waits k pid) : Causes (after others r) := by
  refine h.causes hk (hk.one.congr ?_ hw) fun d => hr d ▸ hk.requests d
  intro b j
  cases b with
  | request d => simp only [holds, after, State.requests] at hr ⊢; rw [hr]
  | device socket => rw [h.device_after, h.device_before, hm]
  | dump => exact h.dump_iff j

/-- **An IO request is accepted**: its process waits in the queue of the device name. -/
theorem Under.accepted (h : Under k t others r) (hk : Causes k) (request : IoRequest) {d : String}
    (hr : ∀ d', r.1.requests d' = if d' = d then k.requests d ++ [request] else k.requests d')
    (hc : r.1.ioConnections = k.ioConnections) (hpid : ¬ waits k request.pid)
    (hw : ∀ j, waits (after others r) j ↔ waits k j ∨ j = request.pid) : Causes (after others r) := by
  refine h.causes hk (hk.one.begin (a := .request d) hpid ?_ hw) fun d' => ?_
  · intro b j
    cases b with
    | request d' =>
      show j ∈ (r.1.requests d').map (·.pid) ↔ _
      rw [hr]
      split
      · rename_i heq
        simp [holds, heq, eq_comm]
      · rename_i hne
        simp [holds, hne]
    | device socket =>
      rw [h.device_after, h.device_before]
      simp [Marked, hc]
    | dump =>
      rw [h.dump_iff]
      simp
  · rw [hr]
    split
    · rw [List.map_append, List.map_singleton, List.nodup_append]
      refine ⟨hk.requests d, List.nodup_singleton _, ?_⟩
      intro a ha b hb heq
      refine hpid (hk.one.waits_of (a := .request d) ?_)
      show request.pid ∈ (k.requests d).map (·.pid)
      rw [← List.mem_singleton.mp hb, ← heq]
      exact ha
    · exact hk.requests d'

/-- **A request is given to a connection without a mark**: its process passes from the queue to the
connection. -/
theorem Under.given (h : Under k t others r) (hk : Causes k) {request : IoRequest} {rest : List IoRequest}
    {d : String} (socket : Nat) (hfirst : k.requests d = request :: rest)
    (hr : ∀ d', r.1.requests d' = if d' = d then rest else k.requests d')
    (hm : ∀ socket' pid, Marked r.1 socket' pid ↔ Marked k socket' pid ∨ socket' = socket ∧ pid = request.pid)
    (hw : ∀ j, waits (after others r) j ↔ waits k j) : Causes (after others r) := by
  have hheld : holds k (.request d) request.pid := by
    show request.pid ∈ (k.requests d).map (·.pid)
    rw [hfirst]
    exact List.mem_cons_self
  have hnodup : request.pid ∉ rest.map (·.pid) ∧ (rest.map (·.pid)).Nodup := by
    have := hk.requests d
    rw [hfirst, List.map_cons] at this
    exact List.nodup_cons.mp this
  have hother : ∀ {b : Cause} {j : Nat}, b ≠ .request d → holds k b j → j ≠ request.pid := fun hb hj =>
    hk.one.ne_of_ne hheld hj hb
  refine h.causes hk (hk.one.pass (b := .device socket) hheld ?_ hw) fun d' => ?_
  · intro b j
    cases b with
    | request d' =>
      show j ∈ (r.1.requests d').map (·.pid) ↔ _
      rw [hr]
      split
      · rename_i heq
        subst heq
        have hmem : j ∈ rest.map (·.pid) → j ≠ request.pid := fun hj heq => hnodup.1 (heq ▸ hj)
        simp only [holds, hfirst, List.map_cons, List.mem_cons, reduceCtorEq, false_and, or_false]
        exact ⟨fun hj => ⟨Or.inr hj, hmem hj⟩, fun hj => hj.1.resolve_left hj.2⟩
      · rename_i hne
        have hj : holds k (.request d') j → j ≠ request.pid := hother (by simpa using hne)
        simpa [holds] using hj
    | device socket' =>
      rw [h.device_after, hm, h.device_before, Cause.device.injEq]
      refine or_congr ?_ Iff.rfl
      refine (and_iff_left_of_imp fun hj => ?_).symm
      exact hother (by simp) ((h.device_before socket' j).mpr hj)
    | dump =>
      rw [h.dump_iff]
      have hj : holds k .dump j → j ≠ request.pid := hother (by simp)
      simpa using hj
  · rw [hr]
    split
    · exact hnodup.2
    · exact hk.requests d'

/-- **The operation of a connection ends**, and its process waits no longer. -/
theorem Under.ended (h : Under k t others r) (hk : Causes k) {socket pid : Nat} (hheld : Marked k socket pid)
    (hr : ∀ d, r.1.requests d = k.requests d)
    (hm : ∀ socket' j, Marked r.1 socket' j ↔ Marked k socket' j ∧ socket' ≠ socket)
    (honly : ∀ j, Marked k socket j → j = pid)
    (hw : ∀ j, waits (after others r) j ↔ waits k j ∧ j ≠ pid) : Causes (after others r) := by
  have hheld := (h.device_before socket pid).mpr hheld
  have hother : ∀ {b : Cause} {j : Nat}, b ≠ .device socket → holds k b j → j ≠ pid := fun hb hj =>
    hk.one.ne_of_ne hheld hj hb
  refine h.causes hk (hk.one.finish ?_ hw) fun d => hr d ▸ hk.requests d
  intro b j
  cases b with
  | request d =>
    have hj : holds k (.request d) j → j ≠ pid := hother (by simp)
    show j ∈ (r.1.requests d).map (·.pid) ↔ _
    rw [hr]
    exact (and_iff_left_of_imp hj).symm
  | device socket' =>
    rw [h.device_after, hm, h.device_before]
    refine and_congr_right fun hj => ⟨fun hne => ?_, ?_⟩
    · exact hother (by simpa using hne) ((h.device_before socket' j).mpr hj)
    · rintro hne rfl
      exact hne (honly j hj)
  | dump =>
    have hj : holds k .dump j → j ≠ pid := hother (by simp)
    rw [h.dump_iff]
    exact (and_iff_left_of_imp hj).symm

end Under

/-! ## 7. One section after the other -/

section Sections

variable {cfg : Config} {k : Kernel.State} {ch : Choice} {others : List Thread}

/-- A process on a list other than BLOCKED and SUSP_BLOCKED does not wait. -/
theorem not_waits_of_found (hk : Kernel.Inv k) {st : ProcessState} {pid : Nat} (hfound : findPcbIn st pid k = true)
    (hst : isWaiting st = false) : ¬ waits k pid := by
  have hmem := mem_of_findPcbIn hfound
  rintro (h | h)
  · rw [hk.tidy.unique hmem h] at hst
    exact absurd hst (by decide)
  · rw [hk.tidy.unique hmem h] at hst
    exact absurd hst (by decide)

/-- A section that finds nothing to do. -/
theorem causes_nothing (hcauses : Causes k) {t : Thread} (hperm : k.threads.Perm (t :: others))
    (ht : ∀ q, t ≠ .dumpWait q) (hl : t.leaves = none) (hr : nextSection cfg k ch t = (k, []))
    (hcalls : changes k ch t = [])
    (hf : Follows k (after others (nextSection cfg k ch t)) (changes k ch t)) :
    Causes (after others (nextSection cfg k ch t)) := by
  rw [hcalls] at hf
  rw [hr] at hf ⊢
  exact hcauses.aside (SameIo.nil ⟨rfl, rfl⟩ hl) hperm ht hf.nil

/-- `exit_process_syscall`, whoever calls it. -/
theorem causes_exit (hcauses : Causes k) (hk : Kernel.Inv k) {t : Thread} {pid : Nat}
    (hperm : k.threads.Perm (t :: others)) (ht : ∀ q, t ≠ .dumpWait q) (hl : t.leaves = none)
    (hf : Follows k (after others (exitProcessSyscall k pid))
      (if findPcbIn .exec pid k then [(pid, .exit)] else [])) :
    Causes (after others (exitProcessSyscall k pid)) := by
  refine hcauses.aside (aside_exitProcessSyscall pid hl) hperm ht fun j => ?_
  split at hf
  · rename_i hexec
    rw [hf.outOf rfl]
    refine and_iff_left_of_imp ?_
    rintro hj rfl
    exact not_waits_of_found hk hexec rfl hj
  · exact hf.nil j

/-- `handle_io_process_syscall`. -/
theorem causes_io (hcauses : Causes k) (hk : Kernel.Inv k) {pid : Nat} {pc sleepTime : Int} {d : String}
    (hperm : k.threads.Perm (.io pid pc sleepTime d :: others))
    (hfree : (Thread.io pid pc sleepTime d).free others = true)
    (hf : Follows k (after others (nextSection cfg k ch (.io pid pc sleepTime d)))
      (changes k ch (.io pid pc sleepTime d))) :
    Causes (after others (nextSection cfg k ch (.io pid pc sleepTime d))) := by
  cases hstatus : getIoConnectionStatusByDeviceName k d with
  | none =>
    have hr : nextSection cfg k ch (.io pid pc sleepTime d) = exitProcessSyscall k pid := by
      simp only [nextSection, handleIoProcessSyscall, hstatus]
    have hcalls : changes k ch (.io pid pc sleepTime d) =
        if findPcbIn .exec pid k then [(pid, .exit)] else [] := by
      simp only [changes, hstatus]
    rw [hcalls] at hf
    rw [hr] at hf ⊢
    exact causes_exit hcauses hk hperm (by simp) rfl hf
  | some c =>
    cases hrequests : k.ioRequests d with
    | none =>
      refine causes_nothing hcauses hperm (by simp) rfl ?_ ?_ hf
      · simp only [nextSection, handleIoProcessSyscall, hstatus, hrequests]
      · simp only [changes, hstatus, hrequests, ite_self]
    | some requests =>
      cases hexec : findPcbIn .exec pid k with
      | false =>
        refine causes_nothing hcauses hperm (by simp) rfl ?_ ?_ hf
        · simp [nextSection, handleIoProcessSyscall, hstatus, hrequests, hexec]
        · simp [changes, hexec]
      | true =>
        have hcalls : changes k ch (.io pid pc sleepTime d) = [(pid, .blocked)] := by
          simp [changes, hstatus, hrequests, hexec]
        have hr : nextSection cfg k ch (.io pid pc sleepTime d) =
            (setIoRequests d (requests ++ [⟨pid, sleepTime⟩]) (movePcb .exec .blocked pid (setPc pid pc k)),
              [.pendingIo d c.socket (.ioSyscall pid)]) := by
          simp [nextSection, handleIoProcessSyscall, hstatus, hrequests, hexec]
        rw [hcalls] at hf
        rw [hr] at hf ⊢
        have hunder : Under k (.io pid pc sleepTime d) others
            (setIoRequests d (requests ++ [⟨pid, sleepTime⟩]) (movePcb .exec .blocked pid (setPc pid pc k)),
              [.pendingIo d c.socket (.ioSyscall pid)]) :=
          ⟨hperm, hfree, by simp [Thread.uses], rfl, by simp, by simp [isPlain, Thread.leaves]⟩
        refine hunder.accepted hcauses ⟨pid, sleepTime⟩ (d := d) ?_ rfl
          (not_waits_of_found hk hexec rfl) (hf.into rfl)
        intro d'
        rw [requests_setIoRequests]
        split
        · rw [State.requests, hrequests]
          rfl
        · rfl

/-- The first section of `dump_memory_syscall`. -/
theorem causes_dump (hcauses : Causes k) (hk : Kernel.Inv k) {pid : Nat} {pc : Int}
    (hperm : k.threads.Perm (.dump pid pc :: others))
    (hf : Follows k (after others (nextSection cfg k ch (.dump pid pc))) (changes k ch (.dump pid pc))) :
    Causes (after others (nextSection cfg k ch (.dump pid pc))) := by
  cases hexec : findPcbIn .exec pid k with
  | false =>
    refine causes_nothing hcauses hperm (by simp) rfl ?_ ?_ hf
    · simp [nextSection, dumpMemorySyscall, hexec]
    · simp [changes, hexec]
  | true =>
    have hr : nextSection cfg k ch (.dump pid pc) =
        (movePcb .exec .blocked pid (setPc pid pc k), [.dumpWait pid]) := by
      simp [nextSection, dumpMemorySyscall, hexec]
    have hcalls : changes k ch (.dump pid pc) = [(pid, .blocked)] := by simp [changes, hexec]
    rw [hcalls] at hf
    rw [hr] at hf ⊢
    have hpid := not_waits_of_found hk hexec rfl
    have hmem : ∀ q, .dumpWait q ∈ others ++ [.dumpWait pid] ↔ .dumpWait q ∈ k.threads ∨ q = pid := by
      intro q
      rw [hperm.mem_iff]
      simp
    have hleaves : ∀ socket, (∀ u ∈ others ++ [.dumpWait pid], u.leaves ≠ some socket) ↔
        ∀ u ∈ k.threads, u.leaves ≠ some socket := by
      intro socket
      simp only [hperm.mem_iff, List.forall_mem_append, List.forall_mem_cons]
      simp [Thread.leaves]
    have hholds : ∀ b j, holds (after others (movePcb .exec .blocked pid (setPc pid pc k), [.dumpWait pid])) b j ↔
        holds k b j ∨ b = .dump ∧ j = pid := by
      intro b j
      cases b with
      | request d =>
        simp only [reduceCtorEq, false_and, or_false]
        exact Iff.rfl
      | device socket =>
        simp only [reduceCtorEq, false_and, or_false]
        exact and_congr_right fun _ => hleaves socket
      | dump =>
        simp only [true_and]
        exact hmem j
    refine ⟨hcauses.one.begin hpid hholds (hf.into rfl), hcauses.requests, ?_, ?_⟩
    · show ((others ++ [Thread.dumpWait pid]).filterMap dumped).Nodup
      rw [List.filterMap_append, List.nodup_append]
      have hfresh : pid ∉ others.filterMap dumped := by
        intro hmem'
        refine hpid (hcauses.one.waits_of (a := .dump) ?_)
        exact hperm.mem_iff.mpr (List.mem_cons_of_mem _ (mem_filterMap_dumped.mp hmem'))
      refine ⟨(hperm.filterMap dumped).nodup_iff.mp hcauses.dumps, by simp [dumped], ?_⟩
      rintro a ha b hb rfl
      simp only [List.filterMap_cons, dumped, List.filterMap_nil, List.mem_singleton] at hb
      exact hfresh (hb ▸ ha)
    · intro socket q hu
      have hmem' : .disconnectSusp socket q ∈ k.threads := by
        rcases List.mem_append.mp hu with hu | hu
        · exact hperm.mem_iff.mpr (List.mem_cons_of_mem _ hu)
        · simp at hu
      exact (hholds _ _).mpr (Or.inl (hcauses.searched socket q hmem'))

/-- memoria has answered, and the process is still in BLOCKED. -/
theorem causes_dumpWait (hcauses : Causes k) {pid : Nat} (hperm : k.threads.Perm (.dumpWait pid :: others))
    (hf : Follows k (after others (nextSection cfg k ch (.dumpWait pid))) (changes k ch (.dumpWait pid))) :
    Causes (after others (nextSection cfg k ch (.dumpWait pid))) := by
  have hr : (nextSection cfg k ch (.dumpWait pid)).1.ioRequests = k.ioRequests ∧
      (nextSection cfg k ch (.dumpWait pid)).1.ioConnections = k.ioConnections ∧
      ∀ u ∈ (nextSection cfg k ch (.dumpWait pid)).2, isPlain u = true := by
    simp only [nextSection, dumpMemoryAnswered]
    split
    · exact ⟨rfl, rfl, by simp [isPlain, Thread.leaves, ShortCaller.leaves]⟩
    · exact ⟨rfl, rfl, by simp⟩
  generalize nextSection cfg k ch (.dumpWait pid) = r at hf hr ⊢
  obtain ⟨hrequests, hconn, hplain⟩ := hr
  have hnodup : (pid :: others.filterMap dumped).Nodup := (hperm.filterMap dumped).nodup_iff.mp hcauses.dumps
  have hheld : holds k .dump pid := hperm.mem_iff.mpr List.mem_cons_self
  have hother : ∀ {b : Cause} {j : Nat}, b ≠ .dump → holds k b j → j ≠ pid := fun hb hj =>
    hcauses.one.ne_of_ne hheld hj hb
  have hmem : ∀ q, .dumpWait q ∈ (after others r).threads ↔ .dumpWait q ∈ k.threads ∧ q ≠ pid := by
    intro q
    rw [hperm.mem_iff, after, List.mem_append, List.mem_cons, Thread.dumpWait.injEq]
    constructor
    · rintro (hq | hq)
      · refine ⟨Or.inr hq, ?_⟩
        rintro rfl
        exact (List.nodup_cons.mp hnodup).1 (mem_filterMap_dumped.mpr hq)
      · exact absurd rfl ((isPlain_spec (hplain _ hq)).2.1 q)
    · rintro ⟨heq | hq, hne⟩
      · exact absurd heq hne
      · exact Or.inl hq
  have hleaves : ∀ socket, (∀ u ∈ (after others r).threads, u.leaves ≠ some socket) ↔
      ∀ u ∈ k.threads, u.leaves ≠ some socket := by
    intro socket
    simp only [hperm.mem_iff, after, List.forall_mem_append, List.forall_mem_cons]
    refine ⟨fun h => ⟨by simp [Thread.leaves], h.1⟩, fun h => ⟨h.2, fun u hu => ?_⟩⟩
    simp [(isPlain_spec (hplain u hu)).1]
  have hholds : ∀ b j, holds (after others r) b j ↔ holds k b j ∧ j ≠ pid := by
    intro b j
    cases b with
    | request d =>
      have hj : holds k (.request d) j → j ≠ pid := hother (by simp)
      rw [and_iff_left_of_imp hj]
      simp only [holds, State.requests, after, hrequests]
    | device socket =>
      have hj : holds k (.device socket) j → j ≠ pid := hother (by simp)
      rw [and_iff_left_of_imp hj]
      simp only [holds, Marked, hleaves socket]
      simp only [after, hconn]
    | dump => exact hmem j
  have hw : ∀ j, waits (after others r) j ↔ waits k j ∧ j ≠ pid := by
    simp only [changes] at hf
    exact hf.outOf (by split <;> rfl)
  refine ⟨hcauses.one.finish hholds hw, fun d => ?_, ?_, ?_⟩
  · simpa only [State.requests, after, hrequests] using hcauses.requests d
  · exact dumps_after hcauses hperm fun q hq => (isPlain_spec (hplain _ hq)).2.1 q rfl
  · intro socket q hu
    have hmem' : .disconnectSusp socket q ∈ k.threads := by
      rcases List.mem_append.mp hu with hu | hu
      · exact hperm.mem_iff.mpr (List.mem_cons_of_mem _ hu)
      · exact absurd rfl ((isPlain_spec (hplain _ hu)).2.2 socket q)
    have hq := hcauses.searched socket q hmem'
    exact (hholds _ _).mpr ⟨hq, hother (by simp) hq⟩

/-- `process_new_device`, for a socket that has no connection. -/
theorem causes_newDevice (hcauses : Causes k) {socket : Nat} {d : String}
    (hperm : k.threads.Perm (.newDevice socket d :: others))
    (hfree : (Thread.newDevice socket d).free others = true)
    (hnew : ∀ c ∈ k.ioConnections, c.socket ≠ socket)
    (hf : Follows k (after others (nextSection cfg k ch (.newDevice socket d)))
      (changes k ch (.newDevice socket d))) :
    Causes (after others (nextSection cfg k ch (.newDevice socket d))) := by
  have hr : (∀ d', (nextSection cfg k ch (.newDevice socket d)).1.requests d' = k.requests d') ∧
      (nextSection cfg k ch (.newDevice socket d)).1.ioConnections =
        (createIoConnection socket d ch.position k).ioConnections ∧
      ∀ u ∈ (nextSection cfg k ch (.newDevice socket d)).2, isPlain u = true := by
    simp only [nextSection, processNewDevice]
    split
    · rename_i hnone
      refine ⟨fun d' => ?_, rfl, by simp⟩
      rw [requests_setIoRequests]
      split
      · rename_i heq
        have hnone : k.ioRequests d = none := hnone
        rw [heq, State.requests, hnone]
        rfl
      · rfl
    · exact ⟨fun _ => rfl, rfl, by simp [isPlain, Thread.leaves]⟩
  generalize nextSection cfg k ch (.newDevice socket d) = r at hf hr ⊢
  obtain ⟨hrequests, hconn, hplain⟩ := hr
  have hunder : Under k (.newDevice socket d) others r :=
    ⟨hperm, hfree, by simp [Thread.uses], rfl, by simp, hplain⟩
  refine hunder.same hcauses hrequests ?_ hf.nil
  intro socket' pid
  have hothers : (k.ioConnections.filter fun c => decide (c.socket ≠ socket)) = k.ioConnections :=
    List.filter_eq_self.mpr fun c hc => decide_eq_true (hnew c hc)
  simp only [Marked, hconn, createIoConnection, hothers]
  constructor
  · rintro ⟨c, hc, hsock, hmark⟩
    rcases List.mem_append.mp hc with hc | hc
    · exact ⟨c, List.mem_of_mem_take hc, hsock, hmark⟩
    · rcases List.mem_cons.mp hc with rfl | hc
      · exact absurd hmark (by simp)
      · exact ⟨c, List.mem_of_mem_drop hc, hsock, hmark⟩
  · rintro ⟨c, hc, hsock, hmark⟩
    refine ⟨c, ?_, hsock, hmark⟩
    rw [← List.take_append_drop ch.position k.ioConnections] at hc
    rcases List.mem_append.mp hc with hc | hc
    · exact List.mem_append_left _ hc
    · exact List.mem_append_right _ (List.mem_cons_of_mem _ hc)

/-- **What `process_pending_io` gives away**: the first request in the queue of the name. -/
theorem processPendingIo_gives (k : Kernel.State) (d : String) (socket : Nat) (sentOk : Bool) :
    (processPendingIo k d socket sentOk = k ∧
      (sentOk = false ∨ givesTo k d = none)) ∨
      ∃ c request rest, givesTo k d = some c ∧ c ∈ k.ioConnections ∧ k.requests d = request :: rest ∧
        sentOk = true ∧
        processPendingIo k d socket sentOk = setIoCurrent c.socket (some request.pid)
          (setIoRequests d rest (send (.ioOperation socket request.pid request.sleepTime) k)) := by
  unfold processPendingIo
  split
  · rename_i hnone
    exact Or.inl ⟨rfl, Or.inr (by rw [givesTo, hnone]; rfl)⟩
  · rename_i c hfound
    have hmem : c ∈ k.ioConnections := by
      rw [getIoConnectionStatusByDeviceName, Option.or_eq_some_iff] at hfound
      rcases hfound with h | ⟨-, h⟩
      · exact List.mem_of_mem_filter (List.mem_of_find?_eq_some h)
      · exact List.mem_of_mem_filter (List.mem_of_mem_head? h)
    split
    · rename_i hnone
      exact Or.inl ⟨rfl, Or.inr (by simp [givesTo, hfound, hnone, Option.filter])⟩
    · rename_i requests hrequests
      simp only
      split
      · rename_i hbusy
        refine Or.inl ⟨rfl, Or.inr ?_⟩
        have hbusy : isTrulyBusy k c = true := hbusy
        simp [givesTo, hfound, Option.filter, hbusy]
      · rename_i hbusy
        have hbusy : isTrulyBusy k c = false := Bool.eq_false_iff.mpr hbusy
        split
        · exact Or.inl ⟨rfl, Or.inr (by simp [givesTo, hfound, hrequests, Option.filter])⟩
        · rename_i request rest
          split
          · rename_i hok
            refine Or.inr ⟨c, request, rest, ?_, hmem, ?_, hok, rfl⟩
            · simp [givesTo, hfound, hrequests, Option.filter, hbusy]
            · rw [State.requests, hrequests]
              rfl
          · rename_i hok
            exact Or.inl ⟨rfl, Or.inl (Bool.eq_false_iff.mpr hok)⟩

/-- The threads that follow `process_pending_io` are plain. -/
theorem isPlain_afterPending (next : AfterPending) : ∀ u ∈ next.threads, isPlain u = true := by
  intro u hu
  unfold AfterPending.threads at hu
  split at hu
  · exact absurd hu List.not_mem_nil
  · rcases List.mem_cons.mp hu with rfl | hu
    · rfl
    · obtain rfl := List.mem_singleton.mp hu
      rfl
  · obtain rfl := List.mem_singleton.mp hu
    rfl
  · obtain rfl := List.mem_singleton.mp hu
    rfl
  · exact absurd hu List.not_mem_nil

/-- What marking a socket does, when it was not marked. -/
theorem marked_setIoCurrent {k : Kernel.State} {c : IoConnection} (hc : c ∈ k.ioConnections)
    (hunmarked : ∀ q, ¬ Marked k c.socket q) (pid socket q : Nat) :
    Marked (setIoCurrent c.socket (some pid) k) socket q ↔ Marked k socket q ∨ socket = c.socket ∧ q = pid := by
  simp only [Marked, setIoCurrent, List.mem_map]
  constructor
  · rintro ⟨c', ⟨c0, hc0, rfl⟩, hsock, hmark⟩
    split at hsock
    · rename_i heq
      rw [if_pos heq] at hmark
      exact Or.inr ⟨by rw [← hsock]; exact heq, (Option.some.inj hmark).symm⟩
    · rename_i hne
      rw [if_neg hne] at hmark
      exact Or.inl ⟨c0, hc0, hsock, hmark⟩
  · rintro (⟨c0, hc0, hsock, hmark⟩ | ⟨rfl, rfl⟩)
    · have hne : c0.socket ≠ c.socket := fun heq =>
        hunmarked q ⟨c0, hc0, heq, hmark⟩
      exact ⟨c0, ⟨c0, hc0, if_neg hne⟩, hsock, hmark⟩
    · exact ⟨_, ⟨c, hc, rfl⟩, by simp, by simp⟩

/-- `process_pending_io`, when it gives its request to a connection without a mark. -/
theorem causes_pendingIo (hcauses : Causes k) {d : String} {socket : Nat} {next : AfterPending}
    (hperm : k.threads.Perm (.pendingIo d socket next :: others))
    (hfree : (Thread.pendingIo d socket next).free others = true)
    (hunmarked : ch.answer = true → ∀ c, givesTo k d = some c → ∀ q, ¬ Marked k c.socket q)
    (hf : Follows k (after others (nextSection cfg k ch (.pendingIo d socket next)))
      (changes k ch (.pendingIo d socket next))) :
    Causes (after others (nextSection cfg k ch (.pendingIo d socket next))) := by
  have hunder : Under k (.pendingIo d socket next) others
      (nextSection cfg k ch (.pendingIo d socket next)) :=
    ⟨hperm, hfree, by simp [Thread.uses], rfl, by simp, isPlain_afterPending next⟩
  rcases processPendingIo_gives k d socket ch.answer with ⟨heq, -⟩ | ⟨c, request, rest, hgives, hc, hfirst, hok, heq⟩
  · refine hunder.same hcauses (fun d' => ?_) (fun socket' pid => ?_) hf.nil
    · simp only [nextSection, heq]
    · simp only [nextSection, heq]
  · refine hunder.given hcauses c.socket hfirst (fun d' => ?_) (fun socket' pid => ?_) hf.nil
    · simp only [nextSection, heq]
      exact requests_setIoRequests d' d rest _
    · simp only [nextSection, heq]
      exact marked_setIoCurrent (k := k) hc (hunmarked hok c hgives) request.pid socket' pid

/-- Connections at one socket have one mark. -/
def OneMark (k : Kernel.State) : Prop :=
  ∀ c ∈ k.ioConnections, ∀ c' ∈ k.ioConnections, c.socket = c'.socket →
    c.currentProcessExecuting = c'.currentProcessExecuting

theorem OneMark.unique (h : OneMark k) {socket i j : Nat} (hi : Marked k socket i) (hj : Marked k socket j) :
    i = j := by
  obtain ⟨c, hc, hsock, hmark⟩ := hi
  obtain ⟨c', hc', hsock', hmark'⟩ := hj
  have := h c hc c' hc' (hsock.trans hsock'.symm)
  rw [hmark, hmark'] at this
  exact Option.some.inj this

theorem marked_clear (k : Kernel.State) (socket socket' q : Nat) :
    Marked (setIoCurrent socket none k) socket' q ↔ Marked k socket' q ∧ socket' ≠ socket := by
  simp only [Marked, setIoCurrent, List.mem_map]
  constructor
  · rintro ⟨c', ⟨c0, hc0, rfl⟩, hsock, hmark⟩
    split at hmark
    · exact absurd hmark (by simp)
    · rename_i hne
      rw [if_neg hne] at hsock
      exact ⟨⟨c0, hc0, hsock, hmark⟩, hsock ▸ hne⟩
  · rintro ⟨⟨c0, hc0, hsock, hmark⟩, hne⟩
    have hne' : c0.socket ≠ socket := hsock ▸ hne
    exact ⟨c0, ⟨c0, hc0, if_neg hne'⟩, hsock, hmark⟩

theorem marked_delete (k : Kernel.State) (socket socket' q : Nat) :
    Marked (deleteIoConnection socket k) socket' q ↔ Marked k socket' q ∧ socket' ≠ socket := by
  simp only [Marked, deleteIoConnection, List.mem_filter, decide_eq_true_eq]
  constructor
  · rintro ⟨c, ⟨hc, hne⟩, hsock, hmark⟩
    exact ⟨⟨c, hc, hsock, hmark⟩, hsock ▸ hne⟩
  · rintro ⟨⟨c, hc, hsock, hmark⟩, hne⟩
    exact ⟨c, ⟨hc, hsock ▸ hne⟩, hsock, hmark⟩

theorem mem_of_findSocket {socket : Nat} {c : IoConnection} (h : findIoConnectionBySocket k socket = some c) :
    c ∈ k.ioConnections ∧ c.socket = socket :=
  ⟨List.mem_of_find?_eq_some h,
    of_decide_eq_true (List.find?_some (p := fun c : IoConnection => decide (c.socket = socket)) h)⟩

/-- `io_completion`, for the process with which the connection is marked. -/
theorem causes_ioCompletion (hcauses : Causes k) (honly : OneMark k) {socket pid : Nat} {d : String}
    (hperm : k.threads.Perm (.ioCompletion socket d pid :: others))
    (hfree : (Thread.ioCompletion socket d pid).free others = true)
    (hmark : ∀ c, findIoConnectionBySocket k socket = some c → c.currentProcessExecuting = some pid)
    (hf : Follows k (after others (nextSection cfg k ch (.ioCompletion socket d pid)))
      (changes k ch (.ioCompletion socket d pid))) :
    Causes (after others (nextSection cfg k ch (.ioCompletion socket d pid))) := by
  cases hfound : findIoConnectionBySocket k socket with
  | none =>
    refine causes_nothing hcauses hperm (by simp) rfl ?_ ?_ hf
    · simp only [nextSection, ioCompletion, hfound]
    · simp [changes, hfound]
  | some c =>
    obtain ⟨hc, hsock⟩ := mem_of_findSocket hfound
    have hmarked : Marked k socket pid := ⟨c, hc, hsock, hmark c hfound⟩
    have hunder : ∀ k' next, Under k (.ioCompletion socket d pid) others
        (k', [.pendingIo d socket (.completed next)]) := fun k' next =>
      ⟨hperm, hfree, by simp [Thread.uses], rfl, by simp, by simp [isPlain, Thread.leaves]⟩
    have hwaits : waits k pid := hcauses.one.waits_of (((hunder k none).device_before socket pid).mpr hmarked)
    have hclear : ∀ k' : Kernel.State, k'.ioConnections = k.ioConnections → ∀ socket' j,
        Marked (setIoCurrent socket none k') socket' j ↔ Marked k socket' j ∧ socket' ≠ socket := by
      intro k' hconn socket' j
      rw [marked_clear]
      simp only [Marked, hconn]
    cases hblocked : findPcbIn .blocked pid k with
    | true =>
      have hr : nextSection cfg k ch (.ioCompletion socket d pid) =
          (setIoCurrent socket none (movePcb .blocked .ready pid k),
            [.pendingIo d socket (.completed (some .blocked))]) := by
        simp [nextSection, ioCompletion, hfound, hblocked]
      have hcalls : changes k ch (.ioCompletion socket d pid) = [(pid, .ready)] := by
        simp [changes, hfound, hblocked]
      rw [hcalls] at hf
      rw [hr] at hf ⊢
      exact (hunder _ _).ended hcauses hmarked (fun _ => rfl) (hclear _ rfl)
        (fun j hj => honly.unique hj hmarked) (hf.outOf rfl)
    | false =>
      have hsusp : findPcbIn .suspBlocked pid k = true := by
        rcases hwaits with h | h
        · exact absurd h (of_decide_eq_false hblocked)
        · exact decide_eq_true h
      have hr : nextSection cfg k ch (.ioCompletion socket d pid) =
          (setIoCurrent socket none (movePcb .suspBlocked .suspReady pid k),
            [.pendingIo d socket (.completed (some .suspBlocked))]) := by
        simp [nextSection, ioCompletion, hfound, hblocked, hsusp]
      have hcalls : changes k ch (.ioCompletion socket d pid) = [(pid, .suspReady)] := by
        simp [changes, hfound, hblocked, hsusp]
      rw [hcalls] at hf
      rw [hr] at hf ⊢
      exact (hunder _ _).ended hcauses hmarked (fun _ => rfl) (hclear _ rfl)
        (fun j hj => honly.unique hj hmarked) (hf.outOf rfl)

/-- `io_disconnected`, up to the search in SUSP_BLOCKED. -/
theorem causes_ioDisconnected (hcauses : Causes k) (honly : OneMark k) {socket : Nat}
    (hperm : k.threads.Perm (.ioDisconnected socket :: others))
    (hfree : (Thread.ioDisconnected socket).free others = true)
    (hf : Follows k (after others (nextSection cfg k ch (.ioDisconnected socket)))
      (changes k ch (.ioDisconnected socket))) :
    Causes (after others (nextSection cfg k ch (.ioDisconnected socket))) := by
  have hunder : ∀ k', Under k (.ioDisconnected socket) others (k', []) := fun k' =>
    ⟨hperm, hfree, by simp [Thread.uses], rfl, by simp, by simp⟩
  cases hfound : findIoConnectionBySocket k socket with
  | none =>
    refine causes_nothing hcauses hperm (by simp) rfl ?_ ?_ hf
    · simp only [nextSection, ioDisconnected, hfound]
    · simp [changes, hfound]
  | some c =>
    obtain ⟨hc, hsock⟩ := mem_of_findSocket hfound
    cases hmark : c.currentProcessExecuting with
    | none =>
      have hr : nextSection cfg k ch (.ioDisconnected socket) = (deleteIoConnection socket k, []) := by
        simp only [nextSection, ioDisconnected, hfound, hmark]
      have hcalls : changes k ch (.ioDisconnected socket) = [] := by simp [changes, hfound, hmark]
      rw [hcalls] at hf
      rw [hr] at hf ⊢
      refine (hunder _).same hcauses (fun _ => rfl) (fun socket' j => ?_) hf.nil
      rw [marked_delete]
      refine and_iff_left_of_imp ?_
      rintro ⟨c', hc', hsock', hmark'⟩ rfl
      rw [← honly c hc c' hc' (hsock.trans hsock'.symm), hmark] at hmark'
      exact absurd hmark' (by simp)
    | some pid =>
      have hmarked : Marked k socket pid := ⟨c, hc, hsock, hmark⟩
      cases hblocked : findPcbIn .blocked pid k with
      | true =>
        have hr : nextSection cfg k ch (.ioDisconnected socket) =
            (deleteIoConnection socket (exitRoutine pid (removePcbFrom .blocked pid k)), []) := by
          simp [nextSection, ioDisconnected, hfound, hmark, hblocked]
        have hcalls : changes k ch (.ioDisconnected socket) = [(pid, .exit)] := by
          simp [changes, hfound, hmark, hblocked]
        rw [hcalls] at hf
        rw [hr] at hf ⊢
        exact (hunder _).ended hcauses hmarked (fun _ => rfl) (fun socket' j => marked_delete _ socket socket' j)
          (fun j hj => honly.unique hj hmarked) (hf.outOf rfl)
      | false =>
        have hr : nextSection cfg k ch (.ioDisconnected socket) = (k, [.disconnectSusp socket pid]) := by
          simp [nextSection, ioDisconnected, hfound, hmark, hblocked]
        have hcalls : changes k ch (.ioDisconnected socket) = [] := by
          simp [changes, hfound, hmark, hblocked]
        rw [hcalls] at hf
        rw [hr] at hf ⊢
        have hnone : ∀ u ∈ (after others (k, [.disconnectSusp socket pid])).threads, u.leaves = none := by
          intro u hu
          rcases List.mem_append.mp hu with hu | hu
          · exact not_leaves_of_free hfree (by simp [Thread.uses]) u hu
          · rw [List.mem_singleton.mp hu]
            rfl
        have hholds : ∀ b j, holds (after others (k, [.disconnectSusp socket pid])) b j ↔ holds k b j := by
          intro b j
          cases b with
          | request d => exact Iff.rfl
          | device socket' =>
            rw [(hunder k).device_before]
            exact and_iff_left fun u hu => by simp [hnone u hu]
          | dump => exact mem_dumpWait_after hperm (by simp) (by simp) j
        refine ⟨hcauses.one.congr hholds hf.nil, hcauses.requests, dumps_after hcauses hperm (by simp), ?_⟩
        intro socket' q hu
        rw [hholds]
        rcases List.mem_append.mp hu with hu | hu
        · exact hcauses.searched socket' q (hperm.mem_iff.mpr (List.mem_cons_of_mem _ hu))
        · obtain ⟨rfl, rfl⟩ := Thread.disconnectSusp.inj (List.mem_singleton.mp hu)
          exact ((hunder k).device_before _ _).mpr hmarked

/-- The search in SUSP_BLOCKED, when the process has not gone back to BLOCKED. -/
theorem causes_disconnectSusp (hcauses : Causes k) (honly : OneMark k) {socket pid : Nat}
    (hperm : k.threads.Perm (.disconnectSusp socket pid :: others))
    (hfree : (Thread.disconnectSusp socket pid).free others = true)
    (hstill : findPcbIn .blocked pid k = false)
    (hf : Follows k (after others (nextSection cfg k ch (.disconnectSusp socket pid)))
      (changes k ch (.disconnectSusp socket pid))) :
    Causes (after others (nextSection cfg k ch (.disconnectSusp socket pid))) := by
  have hheld : holds k (.device socket) pid :=
    hcauses.searched socket pid (hperm.mem_iff.mpr List.mem_cons_self)
  have hsusp : findPcbIn .suspBlocked pid k = true := by
    rcases hcauses.one.waits_of hheld with h | h
    · exact absurd h (of_decide_eq_false hstill)
    · exact decide_eq_true h
  have hr : nextSection cfg k ch (.disconnectSusp socket pid) =
      (exitRoutine pid (removePcbFrom .suspBlocked pid k), [.long (.disconnect socket)]) := by
    simp [nextSection, handleFoundSuspended, hsusp]
  have hcalls : changes k ch (.disconnectSusp socket pid) = [(pid, .exit)] := by simp [changes, hsusp]
  rw [hcalls] at hf
  rw [hr] at hf ⊢
  have hother : ∀ {b : Cause} {j : Nat}, b ≠ .device socket → holds k b j → j ≠ pid := fun hb hj =>
    hcauses.one.ne_of_ne hheld hj hb
  have hnone := not_leaves_of_free hfree (by simp [Thread.uses, Thread.holds])
  have hbefore : ∀ socket' j, holds k (.device socket') j ↔ Marked k socket' j := by
    intro socket' j
    refine and_iff_left fun u hu => ?_
    rcases List.mem_cons.mp (hperm.mem_iff.mp hu) with rfl | hu
    · simp [Thread.leaves]
    · simp [hnone u hu]
  have hleaves : ∀ socket', (∀ u ∈ others ++ [Thread.long (.disconnect socket)], u.leaves ≠ some socket') ↔
      socket' ≠ socket := by
    intro socket'
    constructor
    · rintro h rfl
      exact h _ (List.mem_append_right _ (List.mem_singleton_self _)) rfl
    · intro hne u hu
      rcases List.mem_append.mp hu with hu | hu
      · simp [hnone u hu]
      · rw [List.mem_singleton.mp hu]
        exact fun heq => hne (Option.some.inj heq).symm
  have hholds : ∀ b j, holds (after others (exitRoutine pid (removePcbFrom .suspBlocked pid k),
      [.long (.disconnect socket)])) b j ↔ holds k b j ∧ j ≠ pid := by
    intro b j
    cases b with
    | request d =>
      have hj : holds k (.request d) j → j ≠ pid := hother (by simp)
      exact (and_iff_left_of_imp hj).symm
    | device socket' =>
      rw [hbefore]
      refine and_congr_right fun hj => (hleaves socket').trans ⟨fun hne => ?_, ?_⟩
      · exact hother (by simpa using hne) ((hbefore socket' j).mpr hj)
      · rintro hne rfl
        exact hne (honly.unique hj ((hbefore _ _).mp hheld))
    | dump =>
      have hj : holds k .dump j → j ≠ pid := hother (by simp)
      rw [and_iff_left_of_imp hj]
      exact mem_dumpWait_after hperm (by simp) (by simp) j
  refine ⟨hcauses.one.finish hholds (hf.outOf rfl), hcauses.requests, dumps_after hcauses hperm (by simp), ?_⟩
  intro socket' q hu
  rcases List.mem_append.mp hu with hu | hu
  · exact absurd (List.mem_singleton_self _)
      (not_holds_of_free hfree hu (by simp [Thread.uses, Thread.holds]))
  · simp at hu

end Sections

end Tpso.Waiting
