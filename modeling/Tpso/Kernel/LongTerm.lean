/-
# The NEW phase of the long-term scheduler

`run_long_scheduler` looks at the head of NEW, asks memoria for its process, and on a yes removes the
PCB by its PID and appends it to READY; on the first no it stops.  Under PMCP the list is sorted again
before every look.  Here the whole function is run, with memoria as any machine that answers, so that
its answers may depend on everything it has been asked before.

* `newLoop_eq`: the loop ends, and it moves the longest prefix of the ordered list that memoria accepts
  in a row;
* `longTerm_admits`: this, and when the function returns true, for every NEW and READY list, every
  sequence of answers, and whatever other threads do while the function holds no lock.
-/
import Tpso.Kernel.Effects
import Tpso.Lib.Sorting

namespace Tpso.Kernel

open Tpso.Lib

/-! ## 1. `run_long_scheduler` as a whole -/

/-- `pcb->size`. -/
def sizeKey (s : State) (pid : Nat) : Int := (s.pcbs pid).size

/-- memoria: what it answers to INIT_PROCESS and to UNSUSPEND_PROCESS, and its state afterwards. -/
structure Answerer (M : Type) where
  create : M → (pid : Nat) → (size : Int) → M × Bool
  unsuspend : M → (pid : Nat) → M × Bool

section Function

variable {M : Type} (cfg : Config) (listSort : StableSort Nat) (memoria : Answerer M)

/-- The NEW loop.  No result: the fuel has run out. -/
def newLoop : Nat → State → M → Bool → Option (State × M × Bool)
  | 0, _, _, _ => none
  | fuel + 1, s, m, processesInitialized =>
    match getNextProcessToInitializeFrom cfg .new (listSort.sort (sizeKey s) (s.queue .new)) s with
    | (s, none) => some (s, m, processesInitialized)
    | (s, some pid) =>
      let answer := memoria.create m pid (s.pcbs pid).size
      if answer.2 then
        newLoop fuel (if findPcbIn .new pid s then movePcb .new .ready pid s else s) answer.1 true
      else some (s, answer.1, processesInitialized)

/-- The SUSP_READY loop with `processes_initialized`, and the processes it moves.  It holds a lock only
while it looks and asks, and while it adds to READY: in between, other threads and other clients of
memoria may do anything. -/
inductive SuspReadyLoop (others : State → M → State → M → Prop) :
    State → M → Bool → State → M → Bool → List Nat → Prop
  | empty {s s' : State} {m : M} {b : Bool}
      (hnext : getNextProcessToInitializeFrom cfg .suspReady
        (listSort.sort (sizeKey s) (s.queue .suspReady)) s = (s', none)) :
      SuspReadyLoop others s m b s' m b []
  | refused {s s' : State} {m m' : M} {b : Bool} {pid : Nat}
      (hnext : getNextProcessToInitializeFrom cfg .suspReady
        (listSort.sort (sizeKey s) (s.queue .suspReady)) s = (s', some pid))
      (hanswer : memoria.unsuspend m pid = (m', false)) :
      SuspReadyLoop others s m b s' m' b []
  | moved {s s1 s2 s3 s' : State} {m m1 m2 m3 m' : M} {b b' : Bool} {pid : Nat} {pids : List Nat}
      (hnext : getNextProcessToInitializeFrom cfg .suspReady
        (listSort.sort (sizeKey s) (s.queue .suspReady)) s = (s1, some pid))
      (hanswer : memoria.unsuspend m pid = (m1, true))
      (hunlocked : others (removePcbFrom .suspReady pid s1) m1 s2 m2)
      (hunlocked' : others
        (if findPcbIn .suspReady pid s1 then addPcbTo .ready pid s2 else s2) m2 s3 m3)
      (hrest : SuspReadyLoop others s3 m3 true s' m' b' pids) :
      SuspReadyLoop others s m b s' m' b'
        ((if findPcbIn .suspReady pid s1 then [pid] else []) ++ pids)

/-- `run_long_scheduler`: the states before and after, the processes moved to READY, and what it
returns. -/
inductive RunLongScheduler (others : State → M → State → M → Prop) :
    State → M → State → M → List Nat → Bool → Prop
  | unconnected {s : State} {m : M} : RunLongScheduler others s m s m [] false
  | done {s s1 s2 s' : State} {m m1 m2 m' : M} {b result : Bool} {pids new : List Nat}
      (hsusp : SuspReadyLoop cfg listSort memoria others s m false s1 m1 b pids)
      (hlocked : others s1 m1 s2 m2)
      (hnew : newLoop cfg listSort memoria ((s2.queue .new).length + 1) s2 m2 b =
        some (s', m', result))
      (hready : s'.queue .ready = s2.queue .ready ++ new) :
      RunLongScheduler others s m s' m' (pids ++ new) result

end Function

/-! ## 2. What the NEW phase should do -/

section Phase

variable {M : Type} (cfg : Config) (listSort : StableSort Nat) (memoria : Answerer M)

/-- NEW in the order of the algorithm: by arrival, or by size and then by arrival. -/
def admissionOrder (s : State) : List Nat :=
  if cfg.longTermAlgorithm = .pmcp then listSort.sort (sizeKey s) (s.queue .new) else s.queue .new

/-- The longest prefix of a list that memoria accepts in a row, and memoria afterwards: after the
first refusal nothing more is asked. -/
def acceptedInARow (size : Nat → Int) : M → List Nat → List Nat × M
  | m, [] => ([], m)
  | m, pid :: rest =>
    let answer := memoria.create m pid (size pid)
    if answer.2 then
      let more := acceptedInARow size answer.1 rest
      (pid :: more.1, more.2)
    else ([], answer.1)

/-- The state after the NEW phase that starts in `s`, and memoria's. -/
structure Admitted (s : State) (m : M) (s' : State) (m' : M) (accepted : List Nat) : Prop where
  prefix_eq : acceptedInARow memoria (sizeKey s) m (admissionOrder cfg listSort s) = (accepted, m')
  ready : s'.queue .ready = s.queue .ready ++ accepted
  new : s'.queue .new = (admissionOrder cfg listSort s).drop accepted.length
  elsewhere : ∀ st, st ≠ .ready → st ≠ .new → s'.queue st = s.queue st
  currentState : ∀ pid ∈ accepted, (s'.pcbs pid).currentState = .ready
  size : ∀ pid, (s'.pcbs pid).size = (s.pcbs pid).size
  perm : (s'.queue .ready ++ s'.queue .new).Perm (s.queue .ready ++ s.queue .new)

end Phase

/-! ## 3. The loop over an ordered list -/

section Loop

variable {M : Type} {cfg : Config} {listSort : StableSort Nat} {memoria : Answerer M}

/-- A PCB at the head of NEW goes to the end of READY. -/
theorem movePcb_head {s : State} {pid : Nat} {l : List Nat} (h : s.queue .new = pid :: l) :
    (movePcb .new .ready pid s).queue .new = l ∧
      (movePcb .new .ready pid s).queue .ready = s.queue .ready ++ [pid] ∧
      (∀ st, st ≠ .ready → st ≠ .new → (movePcb .new .ready pid s).queue st = s.queue st) ∧
      sizeKey (movePcb .new .ready pid s) = sizeKey s ∧
      ∀ q, ((movePcb .new .ready pid s).pcbs q).currentState =
        if q = pid then .ready else (s.pcbs q).currentState := by
  refine ⟨?_, ?_, ?_, ?_, ?_⟩
  · simp [movePcb, addPcbTo, removePcbFrom, h]
  · simp [movePcb, addPcbTo, removePcbFrom]
  · intro st hready hnew
    simp [movePcb, addPcbTo, removePcbFrom, Function.update_of_ne hready, Function.update_of_ne hnew]
  · funext q
    by_cases hq : q = pid
    · simp [sizeKey, movePcb, addPcbTo, removePcbFrom, hq]
    · simp [sizeKey, movePcb, addPcbTo, removePcbFrom, Function.update_of_ne hq]
  · intro q
    by_cases hq : q = pid
    · simp [movePcb, addPcbTo, removePcbFrom, hq]
    · simp [movePcb, addPcbTo, removePcbFrom, hq]

/-- NEW is as the algorithm wants it. -/
def Ordered (cfg : Config) (s : State) : Prop :=
  cfg.longTermAlgorithm = .pmcp → InOrder (sizeKey s) (s.queue .new)

/-- On an ordered NEW the next process is the head, and nothing is moved. -/
theorem getNext_of_ordered (listSort : StableSort Nat) {s : State} (h : Ordered cfg s) :
    getNextProcessToInitializeFrom cfg .new (listSort.sort (sizeKey s) (s.queue .new)) s =
      (s, (s.queue .new).head?) := by
  unfold getNextProcessToInitializeFrom
  split
  · rename_i hpmcp
    rw [listSort.sort_eq_self (sizeKey s) (h hpmcp), sortList_self]
  · rfl

/-- One round of the loop: nobody is left, or the next process is refused, or it is moved. -/
theorem newLoop_none {fuel : Nat} {s s' : State} {m : M} {b : Bool}
    (hnext : getNextProcessToInitializeFrom cfg .new
      (listSort.sort (sizeKey s) (s.queue .new)) s = (s', none)) :
    newLoop cfg listSort memoria (fuel + 1) s m b = some (s', m, b) := by
  rw [newLoop, hnext]

theorem newLoop_refused {fuel : Nat} {s s' : State} {m : M} {b : Bool} {pid : Nat}
    (hnext : getNextProcessToInitializeFrom cfg .new
      (listSort.sort (sizeKey s) (s.queue .new)) s = (s', some pid))
    (hanswer : (memoria.create m pid (sizeKey s' pid)).2 = false) :
    newLoop cfg listSort memoria (fuel + 1) s m b =
      some (s', (memoria.create m pid (sizeKey s' pid)).1, b) := by
  rw [newLoop, hnext]
  simp only [sizeKey] at hanswer
  simp [hanswer, sizeKey]

theorem newLoop_moved {fuel : Nat} {s s' : State} {m : M} {b : Bool} {pid : Nat}
    (hnext : getNextProcessToInitializeFrom cfg .new
      (listSort.sort (sizeKey s) (s.queue .new)) s = (s', some pid))
    (hanswer : (memoria.create m pid (sizeKey s' pid)).2 = true) :
    newLoop cfg listSort memoria (fuel + 1) s m b =
      newLoop cfg listSort memoria fuel
        (if findPcbIn .new pid s' then movePcb .new .ready pid s' else s')
        (memoria.create m pid (sizeKey s' pid)).1 true := by
  rw [newLoop, hnext]
  simp only [sizeKey] at hanswer
  simp [hanswer, sizeKey]

/-- A round that moves a process is the two sections `longNew` and `longCreate` of the kernel, with the
answer of memoria between them. -/
theorem newLoop_of_sections {fuel : Nat} {s s1 s2 : State} {m : M} {b : Bool} {pid : Nat}
    {caller : LongCaller}
    (hchosen : longNew cfg s (listSort.sort (sizeKey s) (s.queue .new)) caller b =
      (s1, [.longCreate pid caller b]))
    (hcreated : longCreate s1 pid (memoria.create m pid (sizeKey s1 pid)).2 caller b =
      (s2, [.longNew caller true])) :
    newLoop cfg listSort memoria (fuel + 1) s m b =
      newLoop cfg listSort memoria fuel s2 (memoria.create m pid (sizeKey s1 pid)).1 true := by
  have hreturn : ∀ (t t' : State) (th : Thread), longReturn t caller b = (t', [th]) →
      ∃ c, th = .short c := by
    intro t t' th h
    unfold longReturn at h
    split at h
    · exact ⟨_, by simpa using (Prod.mk.inj h).2.symm⟩
    · split at h
      · exact ⟨_, by simpa using (Prod.mk.inj h).2.symm⟩
      · simp at h
    · split at h
      · exact ⟨_, by simpa using (Prod.mk.inj h).2.symm⟩
      · simp at h
  unfold longNew at hchosen
  split at hchosen
  · obtain ⟨c, hc⟩ := hreturn _ _ _ hchosen
    cases hc
  · rename_i t q hnext
    obtain ⟨rfl, hq⟩ := Prod.mk.inj hchosen
    obtain rfl : q = pid := by simpa using hq
    unfold longCreate at hcreated
    split at hcreated
    · rename_i hanswer
      obtain ⟨rfl, -⟩ := Prod.mk.inj hcreated
      exact newLoop_moved hnext hanswer
    · obtain ⟨c, hc⟩ := hreturn _ _ _ hcreated
      cases hc

/-- **The loop on an ordered NEW**, by induction on the list: every round moves the head and leaves an
ordered rest. -/
theorem newLoop_of_ordered : ∀ (l : List Nat) (s : State) (m : M) (b : Bool), s.queue .new = l →
    Ordered cfg s →
    ∃ s', newLoop cfg listSort memoria (l.length + 1) s m b =
        some (s', (acceptedInARow memoria (sizeKey s) m l).2,
          b || !(acceptedInARow memoria (sizeKey s) m l).1.isEmpty) ∧
      s'.queue .ready = s.queue .ready ++ (acceptedInARow memoria (sizeKey s) m l).1 ∧
      s'.queue .new = l.drop (acceptedInARow memoria (sizeKey s) m l).1.length ∧
      (∀ st, st ≠ .ready → st ≠ .new → s'.queue st = s.queue st) ∧
      sizeKey s' = sizeKey s ∧
      ∀ pid, (s'.pcbs pid).currentState =
        if pid ∈ (acceptedInARow memoria (sizeKey s) m l).1 then .ready
        else (s.pcbs pid).currentState := by
  intro l
  induction l with
  | nil =>
    intro s m b hnew hordered
    have hnext := getNext_of_ordered listSort hordered
    rw [hnew, List.head?_nil, ← hnew] at hnext
    refine ⟨s, ?_, by simp [acceptedInARow], by simp [acceptedInARow, hnew], fun _ _ _ => rfl, rfl,
      by simp [acceptedInARow]⟩
    rw [newLoop_none hnext]
    simp [acceptedInARow]
  | cons pid l ih =>
    intro s m b hnew hordered
    have hnext := getNext_of_ordered listSort hordered
    rw [hnew, List.head?_cons, ← hnew] at hnext
    cases hanswer : (memoria.create m pid (sizeKey s pid)).2 with
    | false =>
      refine ⟨s, ?_, by simp [acceptedInARow, hanswer], by simp [acceptedInARow, hanswer, hnew],
        fun _ _ _ => rfl, rfl, by simp [acceptedInARow, hanswer]⟩
      rw [newLoop_refused hnext hanswer]
      simp [acceptedInARow, hanswer]
    | true =>
      obtain ⟨hrest, hready, helse, hkey, hstate⟩ := movePcb_head hnew
      have hordered' : Ordered cfg (movePcb .new .ready pid s) := by
        intro hpmcp
        rw [hrest, hkey]
        have hall := hordered hpmcp
        rw [hnew] at hall
        exact (List.pairwise_cons.mp hall).2
      obtain ⟨s', hloop, hready', hnew', helse', hkey', hstate'⟩ := ih _
        (memoria.create m pid (sizeKey s pid)).1 true hrest hordered'
      rw [hkey] at hloop hready' hnew' hkey' hstate'
      have haccepted : acceptedInARow memoria (sizeKey s) m (pid :: l) =
          (pid :: (acceptedInARow memoria (sizeKey s) (memoria.create m pid (sizeKey s pid)).1 l).1,
            (acceptedInARow memoria (sizeKey s) (memoria.create m pid (sizeKey s pid)).1 l).2) := by
        simp [acceptedInARow, hanswer]
      rw [haccepted]
      refine ⟨s', ?_, ?_, ?_, ?_, hkey', ?_⟩
      · have hfound : findPcbIn .new pid s = true := by simp [findPcbIn, hnew]
        rw [List.length_cons, newLoop_moved hnext hanswer, if_pos hfound, hloop]
        simp
      · rw [hready', hready, List.append_assoc, List.singleton_append]
      · rw [hnew', List.length_cons, List.drop_succ_cons]
      · intro st h1 h2
        rw [helse' st h1 h2, helse st h1 h2]
      · intro q
        rw [hstate' q, hstate q]
        by_cases hq : q = pid
        · simp [hq]
        · simp [hq]

/-- The look at the head sorts NEW when the algorithm asks for it, and changes nothing else. -/
theorem getNext_new (cfg : Config) (listSort : StableSort Nat) (s : State) :
    ∃ s0, getNextProcessToInitializeFrom cfg .new (listSort.sort (sizeKey s) (s.queue .new)) s =
        (s0, (s0.queue .new).head?) ∧
      s0.queue .new = admissionOrder cfg listSort s ∧
      (∀ st, st ≠ .new → s0.queue st = s.queue st) ∧ s0.pcbs = s.pcbs := by
  unfold getNextProcessToInitializeFrom admissionOrder
  by_cases hpmcp : cfg.longTermAlgorithm = .pmcp
  · have hperm := listSort.perm (sizeKey s) (s.queue .new)
    simp only [if_pos hpmcp]
    refine ⟨_, rfl, ?_, ?_, ?_⟩
    · simp [sortList, hperm]
    · intro st hst
      simp [sortList, hperm, Function.update_of_ne hst]
    · simp [sortList, hperm]
  · simp only [if_neg hpmcp]
    exact ⟨s, rfl, rfl, fun _ _ => rfl, rfl⟩

/-- The admission order is a rearrangement of NEW. -/
theorem admissionOrder_perm (cfg : Config) (listSort : StableSort Nat) (s : State) :
    (admissionOrder cfg listSort s).Perm (s.queue .new) := by
  unfold admissionOrder
  split
  · exact listSort.perm _ _
  · exact List.Perm.refl _

/-- What is accepted in a row is a prefix. -/
theorem acceptedInARow_prefix (memoria : Answerer M) (size : Nat → Int) :
    ∀ (l : List Nat) (m : M), (acceptedInARow memoria size m l).1 ++
      l.drop (acceptedInARow memoria size m l).1.length = l := by
  intro l
  induction l with
  | nil => simp [acceptedInARow]
  | cons pid rest ih =>
    intro m
    cases hanswer : (memoria.create m pid (size pid)).2 with
    | false => simp [acceptedInARow, hanswer]
    | true => simp [acceptedInARow, hanswer, ih]

/-- **The NEW loop ends, and admits the longest prefix of the admission order that memoria accepts in
a row.**  Its first look puts NEW into that order, and the loop goes on as on an ordered list. -/
theorem newLoop_eq (cfg : Config) (listSort : StableSort Nat) (memoria : Answerer M) (s : State)
    (m : M) (b : Bool) :
    ∃ s' m' accepted, newLoop cfg listSort memoria ((s.queue .new).length + 1) s m b =
        some (s', m', b || !accepted.isEmpty) ∧
      Admitted cfg listSort memoria s m s' m' accepted := by
  obtain ⟨s0, hnext, hnew0, helse0, hpcbs0⟩ := getNext_new cfg listSort s
  have hkey0 : sizeKey s0 = sizeKey s := by
    funext q
    simp [sizeKey, hpcbs0]
  have hordered0 : Ordered cfg s0 := by
    intro hpmcp
    rw [hkey0, hnew0]
    unfold admissionOrder
    rw [if_pos hpmcp]
    exact listSort.sorted _ _
  have hperm := admissionOrder_perm cfg listSort s
  have hsame : newLoop cfg listSort memoria ((s.queue .new).length + 1) s m b =
      newLoop cfg listSort memoria ((admissionOrder cfg listSort s).length + 1) s0 m b := by
    rw [← hperm.length_eq, newLoop, newLoop, hnext, getNext_of_ordered listSort hordered0]
  obtain ⟨s', hloop, hready, hnew, helse, hkey, hstate⟩ :=
    @newLoop_of_ordered _ cfg listSort memoria _ s0 m b hnew0 hordered0
  rw [hkey0] at hloop hready hnew hkey hstate
  rw [helse0 .ready (by decide)] at hready
  refine ⟨s', _, _, hsame.trans hloop, ?_⟩
  constructor
  · rfl
  · exact hready
  · exact hnew
  · intro st h1 h2
    rw [helse st h1 h2, helse0 st h2]
  · intro pid hpid
    rw [hstate pid, if_pos hpid]
  · exact fun pid => congrFun hkey pid
  · rw [hready, hnew, List.append_assoc, acceptedInARow_prefix]
    exact hperm.append_left _

end Loop

/-! ## 4. The whole function -/

section Whole

variable {M : Type}

/-- The SUSP_READY loop sets the flag exactly when it has moved a process: what it removes is what it
has just found. -/
theorem SuspReadyLoop.flag {cfg : Config} {listSort : StableSort Nat} {memoria : Answerer M}
    {others : State → M → State → M → Prop} {s s' : State} {m m' : M} {b b' : Bool}
    {pids : List Nat} (h : SuspReadyLoop cfg listSort memoria others s m b s' m' b' pids) :
    b' = (b || !pids.isEmpty) := by
  induction h with
  | empty _ => simp
  | refused _ _ => simp
  | @moved s s1 s2 s3 s' m m1 m2 m3 m' b b' pid pids hnext hanswer _ _ hrest ih =>
    have hfound : findPcbIn .suspReady pid s1 = true := by
      unfold getNextProcessToInitializeFrom at hnext
      obtain ⟨hs1, hhead⟩ := Prod.mk.inj hnext
      rw [hs1] at hhead
      unfold findPcbIn
      exact decide_eq_true (List.mem_of_mem_head? hhead)
    simp [ih, hfound]

/-- **Long-term admission order.**  From every state and every state of memoria the NEW phase ends and
admits the longest prefix of the admission order that memoria accepts in a row; and whatever the other
threads do during the SUSP_READY phase, the function returns true if and only if it has moved a process
from SUSP_READY or from NEW to READY. -/
theorem longTerm_admits (cfg : Config) (listSort : StableSort Nat) (memoria : Answerer M)
    (others : State → M → State → M → Prop) :
    (∀ s m b, ∃ s' m' accepted,
      newLoop cfg listSort memoria ((s.queue .new).length + 1) s m b =
          some (s', m', b || !accepted.isEmpty) ∧
        Admitted cfg listSort memoria s m s' m' accepted) ∧
    ∀ s m s' m' moved result,
      RunLongScheduler cfg listSort memoria others s m s' m' moved result →
        (result = true ↔ moved ≠ []) := by
  constructor
  · exact newLoop_eq cfg listSort memoria
  · intro s m s' m' moved result h
    rcases h with _ | ⟨hsusp, -, hnew, hready⟩
    · simp
    · obtain ⟨t', n', accepted, hloop, hadmitted⟩ := newLoop_eq cfg listSort memoria _ _ _
      rw [hnew] at hloop
      obtain ⟨rfl, -, hresult⟩ := by simpa using hloop
      have haccepted := List.append_cancel_left (hready.symm.trans hadmitted.ready)
      rw [hresult, hsusp.flag, haccepted]
      simp only [Bool.false_or, Bool.or_eq_true, Bool.not_eq_true', List.isEmpty_eq_false_iff,
        ne_eq, List.append_eq_nil_iff]
      exact Classical.not_and_iff_not_or_not.symm

end Whole

/-- Three processes in NEW, of 30, 20 and 10 bytes. -/
def threeNew : State :=
  { State.start ⟨.fifo, .pmcp, false, 1, 30⟩ with
    queue := fun st => if st = .new then [0, 1, 2] else []
    pcbs := fun pid => pcbCreate 0 (if pid = 0 then 30 else if pid = 1 then 20 else 10) }

/-- memoria with so many bytes left. -/
def bytesLeft : Answerer Int where
  create left _ size := if size ≤ left then (left - size, true) else (left, false)
  unsuspend left _ := (left, false)

/-- Nothing happens in between. -/
def alone {M : Type} (s : State) (m : M) (s' : State) (m' : M) : Prop := s' = s ∧ m' = m

theorem sort_threeNew : StableSort.merge.sort (sizeKey threeNew) [0, 1, 2] = [2, 1, 0] := by
  simp [StableSort.merge, List.mergeSort, List.MergeSort.Internal.splitInTwo, sizeKey, threeNew, pcbCreate]

/-- SUSP_READY is empty. -/
theorem suspReady_threeNew (cfg : Config) :
    getNextProcessToInitializeFrom cfg .suspReady
      (StableSort.merge.sort (sizeKey threeNew) (threeNew.queue .suspReady)) threeNew = (threeNew, none) := by
  have hnil : threeNew.queue .suspReady = [] := rfl
  have hsort : StableSort.merge.sort (sizeKey threeNew) [] = [] :=
    List.Perm.eq_nil (StableSort.merge.perm (sizeKey threeNew) [])
  have hsame : sortList .suspReady [] threeNew = threeNew := by
    rw [sortList, hnil, if_pos (List.Perm.refl _), ← hnil, Function.update_eq_self]
  unfold getNextProcessToInitializeFrom
  rw [hnil, hsort, hsame, ite_self]
  rfl

/-- The theorem at work: under PMCP the smaller processes go first, the third does not fit, and the function
returns true. -/
theorem longTerm_admits_smallest_first :
    ∃ s' left result, RunLongScheduler ⟨.fifo, .pmcp, false, 1, 30⟩ StableSort.merge bytesLeft alone threeNew
        35 s' left [2, 1] result ∧
      s'.queue .ready = [2, 1] ∧ s'.queue .new = [0] ∧ left = 5 ∧ result = true := by
  obtain ⟨hloop, hreturns⟩ := longTerm_admits ⟨.fifo, .pmcp, false, 1, 30⟩ StableSort.merge bytesLeft alone
  obtain ⟨s', left, accepted, heq, hadmitted⟩ := hloop threeNew 35 false
  have horder : admissionOrder ⟨.fifo, .pmcp, false, 1, 30⟩ StableSort.merge threeNew = [2, 1, 0] :=
    sort_threeNew
  have hprefix := hadmitted.prefix_eq
  rw [horder, show acceptedInARow bytesLeft (sizeKey threeNew) 35 [2, 1, 0] = ([2, 1], 5) by decide] at hprefix
  obtain ⟨rfl, rfl⟩ := Prod.mk.inj hprefix
  have hready : s'.queue .ready = [2, 1] := hadmitted.ready
  have hnew := hadmitted.new
  rw [horder] at hnew
  have hrun : RunLongScheduler ⟨.fifo, .pmcp, false, 1, 30⟩ StableSort.merge bytesLeft alone threeNew 35 s' 5
      ([] ++ [2, 1]) true :=
    .done (.empty (suspReady_threeNew _)) ⟨rfl, rfl⟩ heq hadmitted.ready
  exact ⟨s', 5, true, hrun, hready, hnew, rfl, (hreturns _ _ _ _ _ _ hrun).mpr (by simp)⟩

end Tpso.Kernel
