/-
# Which CPU executes which process

`current_process_executing` of a CPU connection is written when a process is dispatched and cleared
when `get_cpu_to_dispatch` happens to pick the CPU; it is not cleared when the process leaves EXEC by
a syscall.  A process that comes back and is dispatched to another CPU is then carried by two
connections, and `get_cpu_connection_by_pid` finds whichever comes first.  And a CPU_CONTEXT with
`interrupted_same_pid != 0` makes `run_short_scheduler` overwrite a mark without looking whether its
process is still in EXEC.

Apart from these two, everything else in the kernel only removes processes from EXEC
(`Effect.exec_sublist`), and the assignment survives (`assigned_of_cleanDispatch`).
-/
import Tpso.Kernel.Partition

namespace Tpso.Kernel

open Tpso.Lib

/-! ## 1. The property -/

/-- **The CPU assignment.**  No two connections carry the same process, and every process in EXEC is
carried by exactly one connection, the one to which its last DISPATCH was sent. -/
structure Assigned (s : State) : Prop where
  distinct : ∀ i j pid, currentOn s i = some pid → currentOn s j = some pid → i = j
  carried : ∀ pid ∈ s.queue .exec, ∃ cpu, s.lastDispatch pid = some cpu ∧
    currentOn s cpu = some pid ∧ ∀ j, currentOn s j = some pid → j = cpu

/-- No connection but `cpu` carries the process. -/
def carriedOnlyBy (s : State) (cpu pid : Nat) : Bool :=
  (List.range s.cpus.length).all fun j => decide (j = cpu) || decide (currentOn s j ≠ some pid)

/-- The condition on one step: a process is dispatched only when no other connection still carries it,
and a CPU_CONTEXT for another pid is received only when the process marked on the CPU has left
EXEC. -/
def cleanDispatch (s : State) : Event → Bool
  | .run i ch =>
    match s.threads[i]? with
    | some (.shortSelected _ cpu pid) =>
      (currentOn s cpu).isSome || carriedOnlyBy s cpu pid
    | some (.shortWait _ cpu pid) =>
      carriedOnlyBy s cpu pid &&
        (ch.answer || (currentOn s cpu).all fun executing => !findPcbIn .exec executing s)
    | _ => true
  | .arrive _ => true

theorem lt_of_currentOn {s : State} {cpu pid : Nat} (h : currentOn s cpu = some pid) :
    cpu < s.cpus.length := by
  obtain ⟨c, hc, -⟩ := Option.bind_eq_some_iff.mp h
  exact (List.getElem?_eq_some_iff.mp hc).1

theorem eq_of_carriedOnlyBy {s : State} {cpu pid j : Nat} (h : carriedOnlyBy s cpu pid = true)
    (hj : currentOn s j = some pid) : j = cpu := by
  simp only [carriedOnlyBy, List.all_eq_true, List.mem_range, Bool.or_eq_true,
    decide_eq_true_eq] at h
  rcases h j (lt_of_currentOn hj) with heq | hne
  · exact heq
  · exact absurd hj hne

/-! ## 2. The invariant -/

/-- The CPU a thread inside `run_short_scheduler` has chosen. -/
def Thread.chosenCpu : Thread → Option Nat
  | .shortSelected _ cpu _ => some cpu
  | .shortWait _ cpu _ => some cpu
  | _ => none

/-- The assignment, and EXEC without repetitions. -/
structure AssignedCore (s : State) : Prop where
  assigned : Assigned s
  nodup : (s.queue .exec).Nodup

/-- What holds along a run: also, the chosen CPUs exist. -/
structure AssignedInv (s : State) : Prop extends AssignedCore s where
  chosen : ∀ t ∈ s.threads, ∀ cpu, t.chosenCpu = some cpu → cpu < s.cpus.length

/-- A state in which only EXEC got shorter. -/
theorem AssignedCore.sublist {s s' : State} (h : AssignedCore s)
    (hexec : (s'.queue .exec).Sublist (s.queue .exec)) (hcpus : s'.cpus = s.cpus)
    (hlast : s'.lastDispatch = s.lastDispatch) : AssignedCore s' := by
  have hcur : ∀ cpu, currentOn s' cpu = currentOn s cpu := by
    intro cpu
    simp only [currentOn, hcpus]
  refine ⟨⟨?_, ?_⟩, h.nodup.sublist hexec⟩
  · intro i j pid hi hj
    rw [hcur] at hi hj
    exact h.assigned.distinct i j pid hi hj
  · intro pid hpid
    simp only [hcur, hlast]
    exact h.assigned.carried pid (hexec.subset hpid)

theorem AssignedCore.same {s s' : State} (h : AssignedCore s) (hs : SameCore s s') :
    AssignedCore s' := h.sublist (by rw [hs.queue]) hs.cpus hs.lastDispatch

/-- A state in which EXEC is reordered. -/
theorem AssignedCore.sortList {s : State} (h : AssignedCore s) {st : ProcessState}
    {order : List Nat} : AssignedCore (sortList st order s) := by
  have hcur : ∀ cpu, currentOn (Kernel.sortList st order s) cpu = currentOn s cpu := by
    intro cpu
    unfold Kernel.sortList
    split
    · rfl
    · rfl
  have hlast : (Kernel.sortList st order s).lastDispatch = s.lastDispatch := by
    unfold Kernel.sortList
    split
    · rfl
    · rfl
  refine ⟨⟨?_, ?_⟩, ?_⟩
  · intro i j pid hi hj
    rw [hcur] at hi hj
    exact h.assigned.distinct i j pid hi hj
  · intro pid hpid
    simp only [hcur, hlast]
    exact h.assigned.carried pid (mem_queue_sortList.mp hpid)
  · unfold Kernel.sortList
    split
    · rename_i hp
      by_cases hst : ProcessState.exec = st
      · subst hst
        simpa using hp.nodup_iff.mpr h.nodup
      · simpa [hst] using h.nodup
    · exact h.nodup

/-! ## 3. The marks -/

theorem currentOn_setCurrent {s : State} {cpu j : Nat} {mark : Option Nat}
    (hlt : cpu < s.cpus.length) :
    currentOn (setCurrent cpu mark s) j = if j = cpu then mark else currentOn s j := by
  by_cases hj : j = cpu
  · subst hj
    simp [currentOn, setCurrent, hlt]
  · have hne : cpu ≠ j := fun h => hj h.symm
    simp [currentOn, setCurrent, hj, List.getElem?_set_ne hne]

theorem currentOn_setCurrent_of_le {s : State} {cpu j : Nat} {mark : Option Nat}
    (hle : s.cpus.length ≤ cpu) : currentOn (setCurrent cpu mark s) j = currentOn s j := by
  simp [currentOn, setCurrent, List.set_eq_of_length_le hle]

/-- Clearing the mark of a CPU whose process has left EXEC. -/
theorem AssignedCore.clear {s s' : State} (h : AssignedCore s) (hc : ClearsIdle s s') :
    AssignedCore s' := by
  rcases hc with rfl | ⟨cpu, hidle, rfl⟩
  · exact h
  rcases Nat.lt_or_ge cpu s.cpus.length with hlt | hge
  · -- a mark that is still there is an old one
    have hold : ∀ j pid, currentOn (setCurrent cpu none s) j = some pid →
        currentOn s j = some pid := by
      intro j pid hj
      rw [currentOn_setCurrent hlt] at hj
      split at hj
      · exact absurd hj (by simp)
      · exact hj
    refine ⟨⟨?_, ?_⟩, h.nodup⟩
    · intro i j pid hi hj
      exact h.assigned.distinct i j pid (hold i pid hi) (hold j pid hj)
    · intro pid hpid
      obtain ⟨c, hlast, hcur, honly⟩ := h.assigned.carried pid hpid
      have hne : c ≠ cpu := by
        rintro rfl
        exact hidle pid hcur hpid
      refine ⟨c, hlast, ?_, fun j hj => honly j (hold j pid hj)⟩
      rw [currentOn_setCurrent hlt, if_neg hne]
      exact hcur
  · have hsame : ∀ j, currentOn (setCurrent cpu none s) j = currentOn s j := fun j =>
      currentOn_setCurrent_of_le hge
    refine ⟨⟨?_, ?_⟩, h.nodup⟩
    · intro i j pid hi hj
      rw [hsame] at hi hj
      exact h.assigned.distinct i j pid hi hj
    · intro pid hpid
      simp only [hsame]
      exact h.assigned.carried pid hpid

/-- **A clean dispatch keeps the assignment**: the process is on no list of EXEC and carried by no
other CPU, and whatever the CPU carried before has left EXEC. -/
theorem AssignedCore.dispatch {s : State} (h : AssignedCore s) {cpu pid : Nat}
    (hlt : cpu < s.cpus.length) (hnew : pid ∉ s.queue .exec)
    (honly : ∀ j, currentOn s j = some pid → j = cpu)
    (hold : ∀ old, currentOn s cpu = some old → old ∉ s.queue .exec) :
    AssignedCore (dispatch cpu pid s) := by
  have hexec : (Kernel.dispatch cpu pid s).queue .exec = s.queue .exec ++ [pid] := by
    simp [Kernel.dispatch, setCurrent, send, addPcbTo, removePcbFrom]
  have hcur : ∀ j, currentOn (Kernel.dispatch cpu pid s) j
      = if j = cpu then some pid else currentOn s j := fun j =>
    currentOn_setCurrent (s := send (.dispatch cpu pid (s.pcbs pid).pc)
      (addPcbTo .exec pid (removePcbFrom .ready pid s))) hlt
  have hlast : ∀ q, (Kernel.dispatch cpu pid s).lastDispatch q
      = if pid = q then some cpu else s.lastDispatch q := by
    intro q
    by_cases hq : pid = q
    · simp [State.lastDispatch, Kernel.dispatch, setCurrent, send, Package.dispatchOf, hq]
    · simp [State.lastDispatch, Kernel.dispatch, setCurrent, send, Package.dispatchOf, hq,
        addPcbTo, removePcbFrom]
  -- whoever carries `pid` now is `cpu`
  have hpid : ∀ j, currentOn (Kernel.dispatch cpu pid s) j = some pid → j = cpu := by
    intro j hj
    rw [hcur] at hj
    split at hj
    · assumption
    · exact honly j hj
  refine ⟨⟨?_, ?_⟩, ?_⟩
  · intro i j q hi hj
    by_cases hq : q = pid
    · subst hq
      rw [hpid i hi, hpid j hj]
    · have hback : ∀ k, currentOn (Kernel.dispatch cpu pid s) k = some q →
          currentOn s k = some q := by
        intro k hk
        rw [hcur] at hk
        split at hk
        · exact absurd (Option.some.inj hk).symm hq
        · exact hk
      exact h.assigned.distinct i j q (hback i hi) (hback j hj)
  · intro q hmem
    rw [hexec] at hmem
    rcases List.mem_append.mp hmem with hmem | hmem
    · -- an old process of EXEC: it is not the new one, and not the one `cpu` carried
      have hne : pid ≠ q := by
        rintro rfl
        exact hnew hmem
      obtain ⟨c, hl, hc, hc'⟩ := h.assigned.carried q hmem
      have hcne : c ≠ cpu := by
        rintro rfl
        exact hold q hc hmem
      refine ⟨c, by rw [hlast, if_neg hne]; exact hl, by rw [hcur, if_neg hcne]; exact hc, ?_⟩
      intro j hj
      rw [hcur] at hj
      split at hj
      · exact absurd (Option.some.inj hj) hne
      · exact hc' j hj
    · obtain rfl := List.mem_singleton.mp hmem
      exact ⟨cpu, by rw [hlast, if_pos rfl], by rw [hcur, if_pos rfl], hpid⟩
  · rw [hexec]
    refine List.nodup_append.mpr ⟨h.nodup, List.nodup_singleton pid, ?_⟩
    rintro x hx y hy rfl
    exact hnew (List.mem_singleton.mp hy ▸ hx)

/-! ## 4. The other sections -/

/-- **Outside the short-term scheduler EXEC only loses processes.** -/
theorem Effect.exec_sublist {s s' : State} {t : Thread} {held held' : List Nat}
    (he : Effect s t held held' s') :
    (s'.queue .exec).Sublist (s.queue .exec) := by
  cases he with
  | same hs => rw [hs.queue]
  | @move a b pid _ hlegal _ hs =>
    rw [hs.queue]
    cases hlegal <;> simp [movePcb, addPcbTo, removePcbFrom, List.erase_sublist]
  | fresh hs => simp [hs.queue, addPcbToNew]
  | wasted _ hs => rw [hs.queue]
  | @sort st order _ hst hs =>
    have hsort : (sortList st order s).queue .exec = s.queue .exec := by
      unfold sortList
      split
      · rcases hst with rfl | rfl
        · simp
        · simp
      · rfl
    rw [hs.queue, hsort]
  | take _ _ hs => simp [hs.queue, removePcbFrom]
  | put hs => simp [hs.queue, addPcbTo]

theorem Effect.cpus {s s' : State} {t : Thread} {held held' : List Nat}
    (he : Effect s t held held' s') :
    s'.cpus = s.cpus ∧ s'.lastDispatch = s.lastDispatch := by
  cases he with
  | @sort st order _ hst hs =>
    have hsort : (sortList st order s).cpus = s.cpus ∧
        (sortList st order s).lastDispatch = s.lastDispatch := by
      unfold sortList
      split
      · exact ⟨rfl, rfl⟩
      · exact ⟨rfl, rfl⟩
    exact ⟨hs.cpus.trans hsort.1, hs.lastDispatch.trans hsort.2⟩
  | same hs => exact ⟨hs.cpus, hs.lastDispatch⟩
  | move _ _ hs => exact ⟨hs.cpus, hs.lastDispatch⟩
  | fresh hs => exact ⟨hs.cpus, hs.lastDispatch⟩
  | wasted _ hs => exact ⟨hs.cpus, hs.lastDispatch⟩
  | take _ _ hs => exact ⟨hs.cpus, hs.lastDispatch⟩
  | put hs => exact ⟨hs.cpus, hs.lastDispatch⟩

/-- A thread without a selected process has chosen no CPU. -/
theorem chosenCpu_of_selected_none {t : Thread} (h : t.selected = none) : t.chosenCpu = none := by
  cases t with
  | shortSelected caller cpu pid => simp [Thread.selected] at h
  | shortWait caller cpu pid => simp [Thread.selected] at h
  | _ => rfl

/-! ## 5. One step -/

/-- The threads after a section, put back together. -/
theorem AssignedInv.of_section {s : State} {others new : List Thread} (hcore : AssignedCore s)
    (hothers : ∀ u ∈ others, ∀ cpu, u.chosenCpu = some cpu → cpu < s.cpus.length)
    (hnew : ∀ u ∈ new, ∀ cpu, u.chosenCpu = some cpu → cpu < s.cpus.length) :
    AssignedInv { s with threads := others ++ new } := by
  refine ⟨⟨⟨hcore.assigned.distinct, hcore.assigned.carried⟩, hcore.nodup⟩, ?_⟩
  intro u hu
  rcases List.mem_append.mp hu with hu | hu
  · exact hothers u hu
  · exact hnew u hu

theorem length_cpus_dispatch (cpu pid : Nat) (s : State) :
    (dispatch cpu pid s).cpus.length = s.cpus.length := by
  simp [dispatch, setCurrent, send, addPcbTo, removePcbFrom]

/-- `preempt` takes the process of the CPU out of EXEC, if it moves anything. -/
theorem preempt_core {s : State} (h : AssignedCore s) (cpu : Nat) (samePid : Bool) (pc : Int) :
    AssignedCore (preempt s cpu samePid pc) ∧ (preempt s cpu samePid pc).cpus = s.cpus ∧
      ((preempt s cpu samePid pc).queue .exec).Sublist (s.queue .exec) ∧
      (samePid = true → ∀ old, currentOn s cpu = some old →
        old ∉ (preempt s cpu samePid pc).queue .exec) := by
  unfold preempt
  split
  · rename_i hnone
    exact ⟨h, rfl, List.Sublist.refl _, fun _ old hold => by simp [hnone] at hold⟩
  · rename_i executing hcur
    split
    · have hexec : (movePcb .exec .ready executing (setPc executing pc s)).queue .exec
          = (s.queue .exec).erase executing := by
        simp [movePcb, addPcbTo, removePcbFrom, setPc]
      have hsub : ((movePcb .exec .ready executing (setPc executing pc s)).queue .exec).Sublist
          (s.queue .exec) := by
        rw [hexec]
        exact List.erase_sublist
      refine ⟨h.sublist hsub rfl rfl, rfl, hsub, ?_⟩
      intro _ old hold
      obtain rfl : executing = old := by simpa [hcur] using hold
      rw [hexec]
      exact h.nodup.not_mem_erase
    · rename_i hneg
      refine ⟨h, rfl, List.Sublist.refl _, ?_⟩
      intro hsame old hold
      obtain rfl : executing = old := by simpa [hcur] using hold
      simpa [hsame, findPcbIn] using hneg

/-- What a section leaves: lists and marks that still agree, as many CPUs as before, and threads that have
chosen a CPU there is. -/
structure KeepsAssigned (s : State) (r : State × List Thread) : Prop where
  core : AssignedCore r.1
  cpus : r.1.cpus.length = s.cpus.length
  chosen : ∀ u ∈ r.2, ∀ cpu, u.chosenCpu = some cpu → cpu < s.cpus.length

section Sections

variable {cfg : Config} {s : State} {ch : Choice}

theorem keepsAssigned_effect (hcore : AssignedCore s) {t : Thread} (hspecial : t.isSpecial = false) :
    KeepsAssigned s (nextSection cfg s ch t) := by
  have he := nextSection_effect cfg s ch hspecial
  refine ⟨hcore.sublist he.exec_sublist he.cpus.1 he.cpus.2, congrArg List.length he.cpus.1, ?_⟩
  intro u hu cpu hcpu
  rw [chosenCpu_of_selected_none (nextSection_selected cfg s ch hspecial u hu)] at hcpu
  exact absurd hcpu (by simp)

/-- The answer to a DUMP_MEMORY moves nothing in EXEC. -/
theorem keepsAssigned_dumpWait (hcore : AssignedCore s) (pid : Nat) :
    KeepsAssigned s (nextSection cfg s ch (.dumpWait pid)) := by
  obtain ⟨dst, hdst, hstate, hthreads⟩ := dumpMemoryAnswered_cases s pid ch.answer
  have hexec : (movePcb .blocked dst pid s).queue .exec = s.queue .exec := by
    rcases hdst with rfl | rfl
    · simp [movePcb, addPcbTo, removePcbFrom]
    · simp [movePcb, addPcbTo, removePcbFrom]
  refine ⟨?_, ?_, ?_⟩
  · simp only [nextSection, hstate]
    exact hcore.sublist (by rw [hexec]) rfl rfl
  · simp only [nextSection, hstate]
    rfl
  · intro u hu cpu hcpu
    rcases hthreads with hthreads | hthreads
    · simp [nextSection, hthreads] at hu
    · obtain rfl : u = .short .plain := by simpa [nextSection, hthreads] using hu
      simp [Thread.chosenCpu] at hcpu

/-- The choice of the process and the CPU clears marks of idle CPUs and sorts lists. -/
theorem keepsAssigned_short (hcore : AssignedCore s) (caller : ShortCaller) :
    KeepsAssigned s (nextSection cfg s ch (.short caller)) := by
  obtain ⟨s1, execOrder, order, hclear, hsame, hthreads⟩ := shortSelect_cases cfg s ch caller
  have hlen : s1.cpus.length = s.cpus.length := by
    rcases hclear with rfl | ⟨cpu, -, rfl⟩
    · rfl
    · simp [setCurrent]
  have hsort : ∀ st o (x : State), (sortList st o x).cpus = x.cpus := by
    intro st o x
    unfold sortList
    split
    · rfl
    · rfl
  refine ⟨(hcore.clear hclear).sortList.sortList.same hsame, ?_, ?_⟩
  · simp only [nextSection]
    rw [hsame.cpus, hsort, hsort, hlen]
  · intro u hu cpu hcpu
    rcases hthreads with hthreads | ⟨c, pid, hthreads, hlt, -⟩
    · simp [nextSection, hthreads] at hu
    · obtain rfl : u = .shortSelected caller c pid := by simpa [nextSection, hthreads] using hu
      obtain rfl : c = cpu := by simpa [Thread.chosenCpu] using hcpu
      exact hlt

/-- A dispatch to a CPU that carries nobody, or an interruption of the one it carries. -/
theorem keepsAssigned_shortSelected (hcore : AssignedCore s) {caller : ShortCaller} {cpu pid : Nat}
    (hlt : cpu < s.cpus.length)
    (honly : currentOn s cpu = none → ∀ j, currentOn s j = some pid → j = cpu) :
    KeepsAssigned s (nextSection cfg s ch (.shortSelected caller cpu pid)) := by
  rcases shortDecide_cases cfg s caller cpu pid ch.preempt with ⟨hfree, hsame, hnil⟩ | ⟨hsame, hthreads⟩
  · -- a process of EXEC is carried by somebody, and `cpu` carries nobody
    have hnew : pid ∉ s.queue .exec := by
      intro hmem
      obtain ⟨c, -, hcur, -⟩ := hcore.assigned.carried pid hmem
      rw [honly hfree c hcur, hfree] at hcur
      exact absurd hcur (by simp)
    have hdisp : AssignedCore (dispatch cpu pid s) :=
      hcore.dispatch hlt hnew (honly hfree) (fun old hold => by simp [hfree] at hold)
    refine ⟨hdisp.same hsame, ?_, ?_⟩
    · simp only [nextSection, hsame.cpus, length_cpus_dispatch]
    · simp [nextSection, hnil]
  · refine ⟨hcore.same hsame, ?_, ?_⟩
    · simp only [nextSection, hsame.cpus]
    · intro u hu c hcpu
      rcases hthreads with hthreads | hthreads
      · simp [nextSection, hthreads] at hu
      · obtain rfl : u = .shortWait caller cpu pid := by simpa [nextSection, hthreads] using hu
        obtain rfl : cpu = c := by simpa [Thread.chosenCpu] using hcpu
        exact hlt

/-- The answer of an interrupted CPU, and the dispatch to it. -/
theorem keepsAssigned_shortWait (hcore : AssignedCore s) {caller : ShortCaller} {cpu pid : Nat}
    (hlt : cpu < s.cpus.length) (honly : ∀ j, currentOn s j = some pid → j = cpu)
    (hleft : ch.answer = true ∨ ∀ old, currentOn s cpu = some old → old ∉ s.queue .exec) :
    KeepsAssigned s (nextSection cfg s ch (.shortWait caller cpu pid)) := by
  obtain ⟨hcore', hcpus, hsub, hgone⟩ := preempt_core hcore cpu ch.answer ch.pc
  have hcur' : ∀ j, currentOn (preempt s cpu ch.answer ch.pc) j = currentOn s j := by
    intro j
    simp only [currentOn, hcpus]
  -- what the CPU carried is out of EXEC: removed just now, or gone before
  have hold : ∀ old, currentOn (preempt s cpu ch.answer ch.pc) cpu = some old →
      old ∉ (preempt s cpu ch.answer ch.pc).queue .exec := by
    intro old hcur
    rw [hcur'] at hcur
    rcases hleft with hsame | hleft
    · exact hgone hsame old hcur
    · exact fun hmem => hleft old hcur (hsub.subset hmem)
  have hnew : pid ∉ (preempt s cpu ch.answer ch.pc).queue .exec := by
    intro hmem
    obtain ⟨c, -, hcur, -⟩ := hcore'.assigned.carried pid hmem
    rw [hcur'] at hcur
    obtain rfl := honly c hcur
    exact hold pid (by rw [hcur']; exact hcur) hmem
  have hdisp : AssignedCore (dispatch cpu pid (preempt s cpu ch.answer ch.pc)) := by
    refine hcore'.dispatch (by rw [hcpus]; exact hlt) hnew ?_ hold
    intro j hj
    rw [hcur'] at hj
    exact honly j hj
  have hsame := shortReturn_same (dispatch cpu pid (preempt s cpu ch.answer ch.pc)) caller
  refine ⟨hdisp.same hsame.1, ?_, ?_⟩
  · simp only [nextSection, shortAnswered, hsame.1.cpus, length_cpus_dispatch, hcpus]
  · simp [nextSection, shortAnswered, hsame.2]

end Sections

theorem assignedInv_run {cfg : Config} {s s' : State} {i : Nat} {ch : Choice} (hs : AssignedInv s)
    (hc : cleanDispatch s (.run i ch) = true) (h : step cfg s (.run i ch) = some s') :
    AssignedInv s' := by
  obtain ⟨t, others, hget, hperm, -, -, rfl⟩ := step_run h
  have hchosen : ∀ u ∈ t :: others, ∀ cpu, u.chosenCpu = some cpu → cpu < s.cpus.length :=
    fun u hu => hs.chosen u (hperm.mem_iff.mpr hu)
  have hcore := hs.toAssignedCore
  have hkeeps : KeepsAssigned s (nextSection cfg s ch t) := by
    cases hspecial : t.isSpecial with
    | false => exact keepsAssigned_effect hcore hspecial
    | true =>
      cases t with
      | dumpWait pid => exact keepsAssigned_dumpWait hcore pid
      | short caller => exact keepsAssigned_short hcore caller
      | shortSelected caller cpu pid =>
        refine keepsAssigned_shortSelected hcore (hchosen _ List.mem_cons_self cpu rfl) ?_
        intro hfree j hj
        simp only [cleanDispatch, hget, hfree, Option.isSome_none, Bool.false_or] at hc
        exact eq_of_carriedOnlyBy hc hj
      | shortWait caller cpu pid =>
        simp only [cleanDispatch, hget, Bool.and_eq_true, Bool.or_eq_true] at hc
        refine keepsAssigned_shortWait hcore (hchosen _ List.mem_cons_self cpu rfl)
          (fun j hj => eq_of_carriedOnlyBy hc.1 hj) ?_
        rcases hc.2 with hsame | hleft
        · exact Or.inl hsame
        · refine Or.inr ?_
          intro old hcur hmem
          simp [hcur, findPcbIn, hmem] at hleft
      | _ => simp [Thread.isSpecial] at hspecial
  refine AssignedInv.of_section hkeeps.core ?_ ?_
  · intro u hu cpu hcpu
    rw [hkeeps.cpus]
    exact hchosen u (List.mem_cons_of_mem _ hu) cpu hcpu
  · intro u hu cpu hcpu
    rw [hkeeps.cpus]
    exact hkeeps.chosen u hu cpu hcpu

theorem assignedInv_step {cfg : Config} {s s' : State} {e : Event} (hs : AssignedInv s)
    (hc : cleanDispatch s e = true) (h : step cfg s e = some s') : AssignedInv s' := by
  cases e with
  | run i ch => exact assignedInv_run hs hc h
  | arrive handler =>
    obtain ⟨hhandler, rfl⟩ := step_arrive h
    refine AssignedInv.of_section hs.toAssignedCore hs.chosen ?_
    intro u hu cpu hcpu
    rw [List.mem_singleton.mp hu] at hcpu
    cases handler with
    | shortSelected caller c pid => simp [Thread.isHandler] at hhandler
    | shortWait caller c pid => simp [Thread.isHandler] at hhandler
    | _ => simp [Thread.chosenCpu] at hcpu

/-! ## 6. Whole runs -/

theorem assignedInv_start (cfg : Config) : AssignedInv (State.start cfg) := by
  refine ⟨⟨⟨?_, ?_⟩, ?_⟩, ?_⟩
  · intro i j pid hi
    obtain ⟨c, hc, hmark⟩ := Option.bind_eq_some_iff.mp hi
    obtain rfl : c = ⟨none⟩ := (List.mem_replicate.mp (List.mem_of_getElem? hc)).2
    simp at hmark
  · intro pid hpid
    simp [State.start] at hpid
  · simp [State.start]
  · intro t ht cpu hcpu
    obtain rfl : t = .long .ifMoved := by simpa [State.start] using ht
    simp [Thread.chosenCpu] at hcpu

/-- **The CPU assignment holds in every state of every run whose dispatches are clean.** -/
theorem assigned_of_cleanDispatch {cfg : Config} {tr : List (Transition State Event)} {s : State}
    (hr : (kernel cfg).Run tr s) (hc : ∀ x ∈ tr, cleanDispatch x.src x.label = true) :
    Assigned s ∧ ∀ x ∈ tr, Assigned x.src := by
  have h0 : ∀ s, (kernel cfg).init s → AssignedInv s := by
    rintro s rfl
    exact assignedInv_start cfg
  have hstep : ∀ s e s', AssignedInv s → cleanDispatch s e = true → (kernel cfg).step s e s' →
      AssignedInv s' := fun s e s' hs hc hst => assignedInv_step hs hc hst
  refine ⟨(hr.invariant h0 hstep hc).assigned, ?_⟩
  intro x hx
  exact (hr.invariant_steps h0 hstep hc x hx).1.assigned

/-- Two CPUs, FIFO everywhere, no preemption, a root process of 16 bytes. -/
def twoCpus : Config := ⟨.fifo, .fifo, false, 2, 16⟩

/-- The root process starts process 1, which is admitted and dispatched to CPU 1. -/
def bootTwo : List Event := boot ++ .arrive (.initProc 0 1 16) :: List.replicate 9 (.run 0 {})

/-- The theorem at work: two processes on two CPUs. -/
theorem assigned_of_cleanDispatch_two :
    ∃ tr s, (kernel twoCpus).Run tr s ∧ s.queue .exec = [0, 1] ∧ Assigned s := by
  obtain ⟨tr, s, hrun, htest⟩ := Lts.exists_run_of_drive (State.start twoCpus) (step twoCpus) bootTwo
    (fun tr s => decide (s.queue .exec = [0, 1]) && tr.all fun x => cleanDispatch x.src x.label)
    (by decide)
  simp only [Bool.and_eq_true, decide_eq_true_eq, List.all_eq_true] at htest
  exact ⟨tr, s, hrun, htest.1, (assigned_of_cleanDispatch hrun htest.2).1⟩

/-- Without the condition two connections carry one process.  Process 1 leaves CPU 1 by an IO, process
0 leaves CPU 0 by EXIT, every scheduler from then on picks CPU 0, and so does the one that dispatches
process 1 again: the mark on CPU 1 is still there. -/
theorem not_assigned_stale_mark :
    ¬ ∀ (cfg : Config) (tr : List (Transition State Event)) (s : State),
      (kernel cfg).Run tr s → Assigned s := by
  intro hall
  obtain ⟨tr, s, hrun, htest⟩ := Lts.exists_run_of_drive (State.start twoCpus) (step twoCpus)
    (bootTwo ++
      [.arrive (.newDevice 5 "disk"), .run 0 {},
        -- process 1 waits for the device; threads: timer, short-term scheduler
        .arrive (.io 1 1 100 "disk"), .run 0 {}, .run 0 {},
        -- process 0 ends before that scheduler runs
        .arrive (.exit 0), .run 2 {}, .run 1 {},
        -- process 1 comes back and is dispatched to CPU 0
        .arrive (.ioCompletion 5 "disk" 1), .run 2 {}, .run 2 {}, .run 2 {}, .run 2 {}])
    (fun _ s => decide (currentOn s 0 = some 1 ∧ currentOn s 1 = some 1)) (by decide)
  have htwo := of_decide_eq_true htest
  exact absurd ((hall twoCpus tr s hrun).distinct 0 1 1 htwo.1 htwo.2) (by simp)

end Tpso.Kernel
