/-
# Which process SRT preempts

With all CPUs busy and preemption on, `run_short_scheduler` looks at ONE executing process: the one that
EXEC has at its end after a sort by the estimates.  `should_preempt_executing_process` then compares what
REMAINS of its estimate with the estimate of the selected READY process.  The estimate does not say how
long the process has been in EXEC already, so the process that is looked at need not be the one with the
largest remaining time, and another one that should be preempted is not seen.

* `compareCpuBurstsSrt_eq`: below 2^31 the unsigned difference, stored in an `int`, is exact;
* `srt_decision_iff`: the decision is right for every sort exactly if, whatever comparisons a sort may
  make, the process they put at the end of EXEC has the largest remaining time or none should be preempted;
  and when the comparisons leave the estimates alone, exactly if largest estimates have the largest
  remaining time.
-/
import Tpso.Kernel.Selection

namespace Tpso.Kernel

open Tpso.Lib

/-! ## 1. The comparison -/

/-- A `uint64_t` stored in an `int`. -/
def toInt (x : BitVec 64) : Int := (x.setWidth 32).toInt

/-- `compare_cpu_bursts_SRT`: `elapsed` is `total_time_ms(state_start_time_ms)`. -/
def compareCpuBurstsSrt (cfg : SjfConfig) (elapsed : Nat → Nat) (times : Nat → PcbTimes) (a b : Nat) :
    (Nat → PcbTimes) × Bool :=
  let times := compareCpuBursts cfg times (a, b)
  let processExecuting :=
    toInt (BitVec.ofNat 64 (times b).lastEstimatedCpuBurstMs - BitVec.ofNat 64 (elapsed b))
  let processToDispatch := toInt (BitVec.ofNat 64 (times a).lastEstimatedCpuBurstMs)
  (times, if processExecuting ≤ processToDispatch then false else true)

/-- What remains of an estimate, as an exact integer. -/
def remaining (times : Nat → PcbTimes) (elapsed : Nat → Nat) (pid : Nat) : Int :=
  (times pid).lastEstimatedCpuBurstMs - elapsed pid

theorem toInt_ofNat {a : Nat} (ha : a < 2 ^ 31) : toInt (BitVec.ofNat 64 a) = a := by
  rw [toInt, BitVec.toInt_eq_toNat_bmod, BitVec.toNat_setWidth, BitVec.toNat_ofNat, Int.bmod_def]
  split <;> omega

theorem toInt_sub {a b : Nat} (ha : a < 2 ^ 31) (hb : b < 2 ^ 31) :
    toInt (BitVec.ofNat 64 a - BitVec.ofNat 64 b) = (a : Int) - b := by
  rw [toInt, BitVec.toInt_eq_toNat_bmod, BitVec.toNat_setWidth, BitVec.toNat_sub, BitVec.toNat_ofNat,
    BitVec.toNat_ofNat, Int.bmod_def]
  split <;> omega

/-- **Below 2^31 the comparison is the one of exact integers.** -/
theorem compareCpuBurstsSrt_eq {cfg : SjfConfig} {elapsed : Nat → Nat} {times : Nat → PcbTimes}
    {a b : Nat}
    (hbound : ∀ pid, ((compareCpuBursts cfg times (a, b)) pid).lastEstimatedCpuBurstMs < 2 ^ 31 ∧
      elapsed pid < 2 ^ 31) :
    compareCpuBurstsSrt cfg elapsed times a b = (compareCpuBursts cfg times (a, b),
      decide (((compareCpuBursts cfg times (a, b)) a).lastEstimatedCpuBurstMs <
        remaining (compareCpuBursts cfg times (a, b)) elapsed b)) := by
  rw [compareCpuBurstsSrt, toInt_sub (hbound b).1 (hbound b).2, toInt_ofNat (hbound a).1]
  congr 1
  unfold remaining
  split
  · rw [decide_eq_false]
    omega
  · rw [decide_eq_true]
    omega

/-! ## 2. `run_short_scheduler` up to the INTERRUPT -/

/-- What a run of the scheduler has found: the numbers of the PCBs after its comparisons, the process
selected from READY, and the executing process for which an INTERRUPT is sent. -/
structure Preemption where
  times : Nat → PcbTimes
  selected : Option Nat
  preempted : Option Nat

/-- `sort_exec_list_by_SJF`. -/
def sortExecListBySjf (cfg : SjfConfig) (listSort : ComparisonSort Nat) (times : Nat → PcbTimes)
    (exec : List Nat) : (Nat → PcbTimes) × List Nat :=
  (listSort.sort exec).run (compareCpuBurstsAnswer cfg) times

/-- The EXEC list of `get_cpu_to_dispatch`: it is sorted when no CPU is free. -/
def execSorted (cfg : SjfConfig) (listSort : ComparisonSort Nat) (s : TimedState) :
    (Nat → PcbTimes) × List Nat :=
  if someCpuFree s.kernel then (s.times, s.kernel.queue .exec)
  else sortExecListBySjf cfg listSort s.times (s.kernel.queue .exec)

/-- `run_short_scheduler` under SJF. -/
def runShortSchedulerBySjf (cfg : SjfConfig) (listSort : ComparisonSort Nat) (elapsed : Nat → Nat)
    (s : TimedState) : Preemption :=
  let exec := execSorted cfg listSort s
  match getCpuToDispatch cfg.kernel exec.2 s.kernel with
  | (_, none) => ⟨exec.1, none, none⟩
  | (k, some cpu) =>
    let ready := getNextProcessToDispatchBySjf cfg listSort exec.1 (k.queue .ready)
    match ready.2.2 with
    | none => ⟨ready.1, none, none⟩
    | some pid =>
      match currentOn k cpu with
      | none => ⟨ready.1, some pid, none⟩
      | some executing =>
        if cfg.kernel.preemptionEnabled then
          if findPcbIn .exec executing k then
            let call := compareCpuBurstsSrt cfg elapsed ready.1 pid executing
            ⟨call.1, some pid, if call.2 then some executing else none⟩
          else ⟨ready.1, some pid, some executing⟩
        else ⟨ready.1, some pid, none⟩

/-- All CPUs are busy: each of them executes a process of EXEC, and EXEC has no others. -/
structure AllBusy (k : State) : Prop where
  busy : ∀ c ∈ k.cpus, ∃ pid ∈ k.queue .exec, c.currentProcessExecuting = some pid
  carried : ∀ pid ∈ k.queue .exec, ∃ cpu, currentOn k cpu = some pid

/-- The decision of SRT: an executing process is preempted exactly if one of them has more remaining time
than the estimate of the selected process, and then it is one with the largest remaining time. -/
structure PreemptsLargest (exec : List Nat) (elapsed : Nat → Nat) (p : Preemption) : Prop where
  preempts : ∀ w, p.selected = some w →
    (p.preempted.isSome = true ↔
      ∃ e ∈ exec, (p.times w).lastEstimatedCpuBurstMs < remaining p.times elapsed e)
  largest : ∀ v, p.preempted = some v →
    v ∈ exec ∧ ∀ e ∈ exec, remaining p.times elapsed e ≤ remaining p.times elapsed v

/-- Of the executing process `v` and the READY process `w`: none of EXEC has more remaining time than the
estimate of `w`, or `v` has the largest remaining time. -/
def RightVictim (exec : List Nat) (elapsed estimate : Nat → Nat) (v w : Nat) : Prop :=
  (∀ e ∈ exec, (estimate e : Int) - elapsed e ≤ estimate w) ∨
    ∀ e ∈ exec, (estimate e : Int) - elapsed e ≤ estimate v - elapsed v

instance (exec : List Nat) (elapsed estimate : Nat → Nat) (v w : Nat) :
    Decidable (RightVictim exec elapsed estimate v w) := inferInstanceAs (Decidable (_ ∨ _))

/-- Comparisons that some sorts of EXEC and of READY can make, with those of `should_preempt` after them:
their answers allow an order of EXEC with `v` at its end and one of READY with `w` at its head. -/
def CanCompare (cfg : SjfConfig) (s : TimedState) (calls : List (Nat × Nat)) (v w : Nat) : Prop :=
  ∃ execCalls exec readyCalls ready, calls = execCalls ++ readyCalls ++ [(w, v)] ∧
    Possible (compareCpuBurstsAnswer cfg) s.times (s.kernel.queue .exec) execCalls exec ∧
    Possible (compareCpuBurstsAnswer cfg) (after (compareCpuBurstsAnswer cfg) s.times execCalls)
      (s.kernel.queue .ready) readyCalls ready ∧
    exec.getLast? = some v ∧ ready.head? = some w

/-- Whatever is compared, with the estimates recomputed as often as each process is compared. -/
def VictimAlwaysRight (cfg : SjfConfig) (elapsed : Nat → Nat) (s : TimedState) : Prop :=
  ∀ calls v w, CanCompare cfg s calls v w →
    (∀ pid, estimateAfter cfg s.times pid (uses pid calls) < 2 ^ 31) →
    RightVictim (s.kernel.queue .exec) elapsed (fun pid => estimateAfter cfg s.times pid (uses pid calls)) v w

/-- None of EXEC has more remaining time than the least estimate of READY, or all of EXEC with a largest
estimate have the largest remaining time. -/
def LargestEstimateIsLargest (elapsed : Nat → Nat) (s : TimedState) : Prop :=
  ∀ w ∈ s.kernel.queue .ready, (∀ u ∈ s.kernel.queue .ready,
      (s.times w).lastEstimatedCpuBurstMs ≤ (s.times u).lastEstimatedCpuBurstMs) →
    ∀ v ∈ s.kernel.queue .exec, (∀ e ∈ s.kernel.queue .exec,
        (s.times e).lastEstimatedCpuBurstMs ≤ (s.times v).lastEstimatedCpuBurstMs) →
      RightVictim (s.kernel.queue .exec) elapsed (fun pid => (s.times pid).lastEstimatedCpuBurstMs) v w

/-! ## 3. All CPUs busy -/

section Busy

variable {cfg : SjfConfig} {listSort : ComparisonSort Nat} {elapsed : Nat → Nat} {s : TimedState}

theorem someCpuFree_of_allBusy (h : AllBusy s.kernel) : someCpuFree s.kernel = false := by
  rw [someCpuFree, List.any_eq_false]
  intro c hc
  obtain ⟨pid, hpid, hcurrent⟩ := h.busy c hc
  simp [hcurrent, findPcbIn, hpid]

/-- The sorted EXEC is EXEC rearranged. -/
theorem execSorted_perm (cfg : SjfConfig) (listSort : ComparisonSort Nat) (s : TimedState) :
    (execSorted cfg listSort s).2.Perm (s.kernel.queue .exec) := by
  unfold execSorted
  split
  · exact List.Perm.refl _
  · exact run_perm _ _ (listSort.within _)

/-- With all CPUs busy, the CPU is the one that executes the process at the end of EXEC. -/
theorem getCpuToDispatch_of_allBusy (h : AllBusy s.kernel)
    (hsjf : cfg.kernel.shortTermAlgorithm = .sjf) {v : Nat}
    (hv : (execSorted cfg listSort s).2.getLast? = some v) :
    ∃ k cpu, getCpuToDispatch cfg.kernel (execSorted cfg listSort s).2 s.kernel = (k, some cpu) ∧
      k.queue .ready = s.kernel.queue .ready ∧ currentOn k cpu = some v ∧
      findPcbIn .exec v k = true := by
  have hperm := execSorted_perm cfg listSort s
  have hvin : v ∈ s.kernel.queue .exec := hperm.mem_iff.mp (List.mem_of_getLast? hv)
  have hnone : s.kernel.cpus.findIdx? (fun c => c.currentProcessExecuting.all fun pid =>
      !findPcbIn .exec pid s.kernel) = none := by
    have hfree := someCpuFree_of_allBusy h
    rw [someCpuFree, List.any_eq_false] at hfree
    rw [List.findIdx?_eq_none_iff]
    intro c hc
    simpa using hfree c hc
  -- some CPU executes it, and the search finds one that does
  obtain ⟨cpu, hfind⟩ : ∃ cpu, getCpuConnectionByPid s.kernel v = some cpu := by
    obtain ⟨i, hi⟩ := h.carried v hvin
    obtain ⟨c, hc, hcurrent⟩ := Option.bind_eq_some_iff.mp hi
    rw [← Option.isSome_iff_exists, getCpuConnectionByPid, List.findIdx?_isSome, List.any_eq_true]
    exact ⟨c, List.mem_of_getElem? hc, by simpa using hcurrent⟩
  have hcurrent : currentOn s.kernel cpu = some v := by
    obtain ⟨hlt, hcpu, -⟩ := List.findIdx?_eq_some_iff_getElem.mp hfind
    rw [currentOn, List.getElem?_eq_getElem hlt]
    simpa using hcpu
  have hsorted : (sortList .exec (execSorted cfg listSort s).2 s.kernel).queue .exec =
      (execSorted cfg listSort s).2 := by
    simp [sortList, hperm]
  have hready : (sortList .exec (execSorted cfg listSort s).2 s.kernel).queue .ready =
      s.kernel.queue .ready := by
    simp [sortList, hperm]
  have hcpus : (sortList .exec (execSorted cfg listSort s).2 s.kernel).cpus = s.kernel.cpus := by
    simp [sortList, hperm]
  refine ⟨sortList .exec (execSorted cfg listSort s).2 s.kernel, cpu, ?_, hready, ?_, ?_⟩
  · simp only [getCpuToDispatch, hnone, getCpuByAlgorithm, if_pos hsjf, hsorted, hv]
    rw [getCpuConnectionByPid, hcpus]
    rw [getCpuConnectionByPid] at hfind
    rw [hfind]
  · rw [currentOn, hcpus]
    exact hcurrent
  · rw [findPcbIn, hsorted]
    exact decide_eq_true (List.mem_of_getLast? hv)

/-- What `get_next_process_to_dispatch` finds after the sort of EXEC. -/
def readySelected (cfg : SjfConfig) (listSort : ComparisonSort Nat) (s : TimedState) :
    (Nat → PcbTimes) × List Nat × Option Nat :=
  getNextProcessToDispatchBySjf cfg listSort (execSorted cfg listSort s).1 (s.kernel.queue .ready)

/-- With all CPUs busy, the scheduler selects from READY and compares the selected process with the one at
the end of EXEC. -/
theorem runShortSchedulerBySjf_of_allBusy (h : AllBusy s.kernel)
    (hsjf : cfg.kernel.shortTermAlgorithm = .sjf) (hpreemption : cfg.kernel.preemptionEnabled = true)
    {v : Nat} (hv : (execSorted cfg listSort s).2.getLast? = some v) :
    (runShortSchedulerBySjf cfg listSort elapsed s).selected = (readySelected cfg listSort s).2.2 ∧
      ∀ w, (readySelected cfg listSort s).2.2 = some w →
        runShortSchedulerBySjf cfg listSort elapsed s =
          ⟨(compareCpuBurstsSrt cfg elapsed (readySelected cfg listSort s).1 w v).1, some w,
            if (compareCpuBurstsSrt cfg elapsed (readySelected cfg listSort s).1 w v).2 then some v
            else none⟩ := by
  obtain ⟨k, cpu, hcpu, hready, hcurrent, hfind⟩ := getCpuToDispatch_of_allBusy h hsjf hv
  unfold runShortSchedulerBySjf readySelected
  simp only [hcpu, hready]
  cases hselected : (getNextProcessToDispatchBySjf cfg listSort (execSorted cfg listSort s).1
      (s.kernel.queue .ready)).2.2 with
  | none => simp
  | some w =>
    simp only [hcurrent, hpreemption, hfind, ↓reduceIte, Option.some.injEq, true_and]
    rintro w' rfl
    rfl

/-- Without executing processes there is no CPU, and nothing is selected. -/
theorem runShortSchedulerBySjf_of_nil (h : AllBusy s.kernel) (hsjf : cfg.kernel.shortTermAlgorithm = .sjf)
    (hnil : (execSorted cfg listSort s).2.getLast? = none) :
    (runShortSchedulerBySjf cfg listSort elapsed s).selected = none ∧
      (runShortSchedulerBySjf cfg listSort elapsed s).preempted = none := by
  have hexec : s.kernel.queue .exec = [] := by
    have hperm := execSorted_perm cfg listSort s
    rw [List.getLast?_eq_none_iff.mp hnil] at hperm
    exact hperm.symm.eq_nil
  have hcpus : s.kernel.cpus = [] := by
    refine List.eq_nil_iff_forall_not_mem.mpr fun c hc => ?_
    obtain ⟨pid, hpid, -⟩ := h.busy c hc
    rw [hexec] at hpid
    exact absurd hpid (by simp)
  have hsort : (execSorted cfg listSort s).2 = [] := List.getLast?_eq_none_iff.mp hnil
  unfold runShortSchedulerBySjf
  simp [getCpuToDispatch, getCpuByAlgorithm, hsjf, hsort, sortList, hexec, hcpus]

/-- Without a selected process none is preempted. -/
theorem preempted_of_selected_none (h : (runShortSchedulerBySjf cfg listSort elapsed s).selected = none) :
    (runShortSchedulerBySjf cfg listSort elapsed s).preempted = none := by
  unfold runShortSchedulerBySjf at h ⊢
  rcases hcpu : getCpuToDispatch cfg.kernel (execSorted cfg listSort s).2 s.kernel with ⟨k, _ | cpu⟩
  · simp only [hcpu]
  · simp only [hcpu] at h ⊢
    cases hselected : (getNextProcessToDispatchBySjf cfg listSort (execSorted cfg listSort s).1
        (k.queue .ready)).2.2 with
    | none => rfl
    | some pid =>
      simp only [hselected] at h
      split at h
      · simp at h
      · split at h
        · split at h <;> simp at h
        · simp at h

/-- The sections of the kernel do the same: with the orders that the two sorts leave, a CPU and a process
are chosen, and the INTERRUPT is sent for the process at the end of EXEC. -/
theorem sections_of_allBusy (h : AllBusy s.kernel) (hsjf : cfg.kernel.shortTermAlgorithm = .sjf)
    (hpreemption : cfg.kernel.preemptionEnabled = true) {v w : Nat}
    (hv : (execSorted cfg listSort s).2.getLast? = some v)
    (hw : (readySelected cfg listSort s).2.2 = some w) {ch : Choice} {caller : ShortCaller}
    (hexec : ch.execOrder = (execSorted cfg listSort s).2)
    (hready : ch.order = (readySelected cfg listSort s).2.1) :
    ∃ k cpu, shortSelect cfg.kernel s.kernel ch caller = (k, [.shortSelected caller cpu w]) ∧
      ∀ preempt, shortDecide cfg.kernel k caller cpu w preempt =
        if preempt then (send (.interrupt cpu v) k, [.shortWait caller cpu w])
        else shortReturn k caller := by
  obtain ⟨k, cpu, hcpu, hqueue, hcurrent, hfind⟩ := getCpuToDispatch_of_allBusy h hsjf hv
  have hperm : ch.order.Perm (k.queue .ready) := by
    rw [hready, hqueue]
    exact run_perm _ _ (listSort.within _)
  have hnext : getNextProcessToDispatch cfg.kernel ch.order k =
      (sortList .ready ch.order k, some w) := by
    have hhead : ch.order.head? = some w := by
      rw [hready]
      exact hw
    simp [getNextProcessToDispatch, hsjf, sortList, hperm, hhead]
  refine ⟨sortList .ready ch.order k, cpu, ?_, fun preempt => ?_⟩
  · rw [shortSelect, hexec, hcpu]
    simp only [hnext]
  · have hcurrent' : currentOn (sortList .ready ch.order k) cpu = some v := by
      rw [← hcurrent]
      simp [sortList, hperm, currentOn]
    have hfind' : findPcbIn .exec v (sortList .ready ch.order k) = true := by
      rw [← hfind]
      simp [sortList, hperm, findPcbIn]
    simp [shortDecide, hcurrent', hpreemption, shouldPreemptExecutingProcess, hfind']

end Busy

/-! ## 4. The decision for one sort -/

/-- The process at the end of the sorted EXEC is right, with the estimates stored when the comparisons are
over. -/
def RightOnceSorted (cfg : SjfConfig) (listSort : ComparisonSort Nat) (elapsed : Nat → Nat)
    (s : TimedState) : Prop :=
  ∀ v w, (execSorted cfg listSort s).2.getLast? = some v →
    (runShortSchedulerBySjf cfg listSort elapsed s).selected = some w →
    RightVictim (s.kernel.queue .exec) elapsed
      (fun pid => ((runShortSchedulerBySjf cfg listSort elapsed s).times pid).lastEstimatedCpuBurstMs) v w

theorem preemptsLargest_iff {cfg : SjfConfig} {listSort : ComparisonSort Nat} {elapsed : Nat → Nat}
    {s : TimedState} (hbusy : AllBusy s.kernel) (hsjf : cfg.kernel.shortTermAlgorithm = .sjf)
    (hpreemption : cfg.kernel.preemptionEnabled = true)
    (helapsed : ∀ pid, elapsed pid < 2 ^ 31)
    (hbound : ∀ v w, (execSorted cfg listSort s).2.getLast? = some v →
      (runShortSchedulerBySjf cfg listSort elapsed s).selected = some w →
      ∀ pid, ((runShortSchedulerBySjf cfg listSort elapsed s).times pid).lastEstimatedCpuBurstMs < 2 ^ 31) :
    PreemptsLargest (s.kernel.queue .exec) elapsed (runShortSchedulerBySjf cfg listSort elapsed s) ↔
      RightOnceSorted cfg listSort elapsed s := by
  unfold RightOnceSorted
  cases hlast : (execSorted cfg listSort s).2.getLast? with
  | none =>
    obtain ⟨hselected, hpreempted⟩ := @runShortSchedulerBySjf_of_nil cfg listSort elapsed s hbusy hsjf hlast
    refine ⟨fun _ v w hv => ?_, fun _ => ⟨fun w hw => ?_, fun v hv => ?_⟩⟩
    · simp at hv
    · simp [hselected] at hw
    · simp [hpreempted] at hv
  | some v =>
    cases hselected : (runShortSchedulerBySjf cfg listSort elapsed s).selected with
    | none =>
      have hpreempted := preempted_of_selected_none hselected
      refine ⟨fun _ v w _ hw => ?_, fun _ => ⟨fun w hw => ?_, fun v hv => ?_⟩⟩
      · simp at hw
      · simp [hselected] at hw
      · simp [hpreempted] at hv
    | some w =>
      obtain ⟨hsel, hrun⟩ := @runShortSchedulerBySjf_of_allBusy cfg listSort elapsed s hbusy hsjf
        hpreemption v hlast
      replace hrun := hrun w (hsel.symm.trans hselected)
      have hexec : v ∈ s.kernel.queue .exec :=
        (execSorted_perm cfg listSort s).mem_iff.mp (List.mem_of_getLast? hlast)
      replace hbound := hbound v w hlast hselected
      rw [hrun] at hbound ⊢
      rw [compareCpuBurstsSrt_eq fun pid => ⟨hbound pid, helapsed pid⟩]
      generalize compareCpuBursts cfg (readySelected cfg listSort s).1 (w, v) = times'
      by_cases hlt : (times' w).lastEstimatedCpuBurstMs < remaining times' elapsed v
      · -- the process at the end is preempted
        simp only [decide_eq_true hlt, ↓reduceIte]
        constructor
        · rintro ⟨-, hlargest⟩ v' w' hv' hw'
          cases hv'
          exact Or.inr (hlargest v rfl).2
        · intro hcond
          have hmax : ∀ e ∈ s.kernel.queue .exec, remaining times' elapsed e ≤ remaining times' elapsed v := by
            rcases hcond v w rfl rfl with hnone | hmax
            · exact absurd (hnone v hexec) (not_le.mpr hlt)
            · exact hmax
          refine ⟨fun w' hw' => ?_, fun v' hv' => ?_⟩
          · cases hw'
            exact ⟨fun _ => ⟨v, hexec, hlt⟩, fun _ => rfl⟩
          · cases hv'
            exact ⟨hexec, hmax⟩
      · simp only [decide_eq_false hlt, Bool.false_eq_true, ↓reduceIte]
        constructor
        · rintro ⟨hpreempts, -⟩ v' w' hv' hw'
          cases hw'
          refine Or.inl fun e he => ?_
          by_contra hgt
          have hsome := (hpreempts w rfl).mpr ⟨e, he, not_le.mp hgt⟩
          simp at hsome
        · intro hcond
          refine ⟨fun w' hw' => ?_, fun v' hv' => ?_⟩
          · cases hw'
            refine ⟨fun h => by simp at h, fun ⟨e, he, hgt⟩ => ?_⟩
            rcases hcond v w rfl rfl with hnone | hmax
            · exact absurd (hnone e he) (not_le.mpr hgt)
            · exact absurd (hgt.trans_le (hmax e he)) hlt
          · simp at hv'

/-! ## 5. Estimates that the comparisons leave alone -/

section Still

variable {cfg : SjfConfig} {listSort : ComparisonSort Nat} {elapsed : Nat → Nat} {s : TimedState}

/-- The numbers of the PCBs are the same, and recomputing does not move the estimates. -/
structure Still (cfg : SjfConfig) (times times' : Nat → PcbTimes) : Prop where
  estimate : ∀ pid, (times' pid).lastEstimatedCpuBurstMs = (times pid).lastEstimatedCpuBurstMs
  unmoved : ∀ pid, unmoved cfg (times' pid) = true

theorem estimateAfter_of_unmoved {times : Nat → PcbTimes} (h : ∀ pid, unmoved cfg (times pid) = true)
    (pid k : Nat) : estimateAfter cfg times pid k = (times pid).lastEstimatedCpuBurstMs :=
  Function.iterate_fixed (by simpa [Kernel.unmoved] using h pid) k

theorem Still.compare {times times' : Nat → PcbTimes} (h : Still cfg times times') (c : Nat × Nat) :
    Still cfg times (compareCpuBursts cfg times' c) := by
  have hnumbers : ∀ pid,
      ((compareCpuBursts cfg times' c) pid).lastCpuBurstMs = (times' pid).lastCpuBurstMs ∧
      ((compareCpuBursts cfg times' c) pid).lastEstimatedCpuBurstMs =
        (times' pid).lastEstimatedCpuBurstMs := by
    intro pid
    obtain ⟨hburst, hestimate⟩ := @compareCpuBursts_apply cfg times' c pid
    exact ⟨hburst, hestimate.trans (estimateAfter_of_unmoved h.unmoved pid _)⟩
  constructor
  · exact fun pid => (hnumbers pid).2.trans (h.estimate pid)
  · intro pid
    rw [Kernel.unmoved, (hnumbers pid).1, (hnumbers pid).2]
    exact h.unmoved pid

theorem Still.after {times : Nat → PcbTimes} (calls : List (Nat × Nat)) :
    ∀ {times' : Nat → PcbTimes}, Still cfg times times' →
      Still cfg times (Lib.after (compareCpuBurstsAnswer cfg) times' calls) := by
  induction calls with
  | nil => exact fun h => h
  | cons c calls ih => exact fun h => ih (h.compare c)

/-- The numbers after the sort of EXEC, and after that of READY. -/
theorem still_execSorted (h : ∀ pid, unmoved cfg (s.times pid) = true) :
    Still cfg s.times (execSorted cfg listSort s).1 := by
  have hstart : Still cfg s.times s.times := ⟨fun _ => rfl, h⟩
  unfold execSorted
  split
  · exact hstart
  · rw [sortExecListBySjf, run_fst]
    exact hstart.after _

theorem still_readySelected (h : ∀ pid, unmoved cfg (s.times pid) = true) :
    Still cfg s.times (readySelected cfg listSort s).1 := by
  have hexec := @still_execSorted cfg listSort s h
  have hrun : (readySelected cfg listSort s).1 =
      ((listSort.sort (s.kernel.queue .ready)).run (compareCpuBurstsAnswer cfg)
        (execSorted cfg listSort s).1).1 := rfl
  rw [hrun, run_fst]
  exact hexec.after _

/-- The process at the end of EXEC has a largest estimate. -/
theorem last_of_still (hbusy : AllBusy s.kernel) (h : ∀ pid, unmoved cfg (s.times pid) = true) {v : Nat}
    (hv : (execSorted cfg listSort s).2.getLast? = some v) : ∀ e ∈ s.kernel.queue .exec,
      (s.times e).lastEstimatedCpuBurstMs ≤ (s.times v).lastEstimatedCpuBurstMs := by
  have hpossible := @possible_of_sort _ _ (compareCpuBurstsAnswer cfg) listSort s.times
    (s.kernel.queue .exec)
  have hsorted := hpossible.pairwise_of_still (keyed_compareCpuBurstsAnswer cfg s.times)
    fun x _ k => estimateAfter_of_unmoved h x k
  have heq : (execSorted cfg listSort s).2 =
      ((listSort.sort (s.kernel.queue .exec)).run (compareCpuBurstsAnswer cfg) s.times).2 := by
    rw [execSorted, someCpuFree_of_allBusy hbusy]
    rfl
  rw [← heq] at hsorted
  obtain ⟨front, hfront⟩ := List.getLast?_eq_some_iff.mp hv
  intro e he
  have hin := (execSorted_perm cfg listSort s).mem_iff.mpr he
  rw [hfront] at hin hsorted
  rcases List.mem_append.mp hin with hin | hin
  · exact (List.pairwise_append.mp hsorted).2.2 e hin v (by simp)
  · rw [List.mem_singleton.mp hin]

/-- The selected process has a least estimate. -/
theorem selected_of_still (h : ∀ pid, unmoved cfg (s.times pid) = true) {w : Nat}
    (hw : (readySelected cfg listSort s).2.2 = some w) : w ∈ s.kernel.queue .ready ∧
      ∀ u ∈ s.kernel.queue .ready,
        (s.times w).lastEstimatedCpuBurstMs ≤ (s.times u).lastEstimatedCpuBurstMs := by
  have hexec := @still_execSorted cfg listSort s h
  have hpossible := @possible_of_sort _ _ (compareCpuBurstsAnswer cfg) listSort
    (execSorted cfg listSort s).1 (s.kernel.queue .ready)
  have hsorted := hpossible.pairwise_of_still
    (keyed_compareCpuBurstsAnswer cfg (execSorted cfg listSort s).1)
    fun x _ k => (estimateAfter_of_unmoved hexec.unmoved x k).trans (hexec.estimate x)
  obtain ⟨tail, htail⟩ := List.head?_eq_some_iff.mp hw
  have hlist : (readySelected cfg listSort s).2.1 =
      ((listSort.sort (s.kernel.queue .ready)).run (compareCpuBurstsAnswer cfg)
        (execSorted cfg listSort s).1).2 := rfl
  have hperm := hpossible.perm
  rw [← hlist] at hsorted hperm
  have htail' : (readySelected cfg listSort s).2.1 = w :: tail := htail
  rw [htail'] at hsorted hperm
  refine ⟨hperm.mem_iff.mp List.mem_cons_self, fun u hu => ?_⟩
  rcases List.mem_cons.mp (hperm.mem_iff.mpr hu) with rfl | hin
  · exact le_refl _
  · exact (List.pairwise_cons.mp hsorted).1 u hin

/-- Every process with a largest estimate is at the end of EXEC after some sort. -/
theorem exists_sort_last (hbusy : AllBusy s.kernel) (h : ∀ pid, unmoved cfg (s.times pid) = true)
    {v : Nat} (hv : v ∈ s.kernel.queue .exec) (hmax : ∀ e ∈ s.kernel.queue .exec,
      (s.times e).lastEstimatedCpuBurstMs ≤ (s.times v).lastEstimatedCpuBurstMs) :
    ∃ listSort, (execSorted cfg listSort s).2.getLast? = some v := by
  let le := fun a b => (s.times a).lastEstimatedCpuBurstMs ≤ (s.times b).lastEstimatedCpuBurstMs
  let rest := ((s.kernel.queue .exec).erase v).mergeSort fun a b => decide (le a b)
  have hrest : rest.Perm ((s.kernel.queue .exec).erase v) := List.mergeSort_perm _ _
  have hperm : (rest ++ [v]).Perm (s.kernel.queue .exec) := by
    refine (List.perm_append_comm.trans ?_).trans (List.perm_cons_erase hv).symm
    exact hrest.cons v
  have hsorted : (rest ++ [v]).Pairwise le := by
    refine List.pairwise_append.mpr ⟨?_, List.pairwise_singleton _ _, fun a ha b hb => ?_⟩
    · have hmerge := @List.pairwise_mergeSort _ (fun a b => decide (le a b))
        (fun a b c hab hbc => by
          have h1 := of_decide_eq_true hab
          have h2 := of_decide_eq_true hbc
          exact decide_eq_true (h1.trans h2))
        (fun a b => by simpa [le] using Nat.le_total _ _) ((s.kernel.queue .exec).erase v)
      exact hmerge.imp fun hab => of_decide_eq_true hab
    · rw [List.mem_singleton.mp hb]
      exact hmax a (List.mem_of_mem_erase (hrest.mem_iff.mp ha))
  obtain ⟨calls, hpossible⟩ := exists_possible_of_still (keyed_compareCpuBurstsAnswer cfg s.times)
    (fun x _ k => estimateAfter_of_unmoved h x k) hperm hsorted
  obtain ⟨S, hS, -⟩ := exists_sort_of_possible ComparisonSort.insertion hpossible
  refine ⟨S, ?_⟩
  rw [execSorted, someCpuFree_of_allBusy hbusy, if_neg (by simp), sortExecListBySjf, hS]
  simp

/-- The estimates when the comparisons are over. -/
theorem times_runShortSchedulerBySjf (hbusy : AllBusy s.kernel)
    (hsjf : cfg.kernel.shortTermAlgorithm = .sjf) (hpreemption : cfg.kernel.preemptionEnabled = true)
    (h : ∀ pid, unmoved cfg (s.times pid) = true) {v w : Nat}
    (hv : (execSorted cfg listSort s).2.getLast? = some v)
    (hw : (runShortSchedulerBySjf cfg listSort elapsed s).selected = some w) (pid : Nat) :
    ((runShortSchedulerBySjf cfg listSort elapsed s).times pid).lastEstimatedCpuBurstMs =
      (s.times pid).lastEstimatedCpuBurstMs := by
  obtain ⟨hsel, hrun⟩ := @runShortSchedulerBySjf_of_allBusy cfg listSort elapsed s hbusy hsjf hpreemption v hv
  rw [hrun w (hsel.symm.trans hw)]
  exact ((@still_readySelected cfg listSort s h).compare (w, v)).estimate pid

/-- READY is not empty: a process is selected. -/
theorem exists_selected {w : Nat} (hw : w ∈ s.kernel.queue .ready) :
    ∃ w', (readySelected cfg listSort s).2.2 = some w' := by
  have hperm : (readySelected cfg listSort s).2.1.Perm (s.kernel.queue .ready) :=
    run_perm _ _ (listSort.within _)
  have hin := hperm.mem_iff.mpr hw
  cases hl : (readySelected cfg listSort s).2.1 with
  | nil => simp [hl] at hin
  | cons w' tail =>
    refine ⟨w', ?_⟩
    have hhead : (readySelected cfg listSort s).2.2 = (readySelected cfg listSort s).2.1.head? := rfl
    rw [hhead, hl, List.head?_cons]

/-- All sorts, when the estimates do not move. -/
theorem forall_rightOnceSorted_iff (hbusy : AllBusy s.kernel)
    (hsjf : cfg.kernel.shortTermAlgorithm = .sjf) (hpreemption : cfg.kernel.preemptionEnabled = true)
    (h : ∀ pid, unmoved cfg (s.times pid) = true) :
    (∀ listSort, RightOnceSorted cfg listSort elapsed s) ↔ LargestEstimateIsLargest elapsed s := by
  have hestimates : ∀ {listSort : ComparisonSort Nat} {v w : Nat},
      (execSorted cfg listSort s).2.getLast? = some v →
      (runShortSchedulerBySjf cfg listSort elapsed s).selected = some w →
      (fun pid => ((runShortSchedulerBySjf cfg listSort elapsed s).times pid).lastEstimatedCpuBurstMs) =
        fun pid => (s.times pid).lastEstimatedCpuBurstMs := by
    intro listSort v w hv hw
    exact funext (times_runShortSchedulerBySjf hbusy hsjf hpreemption h hv hw)
  constructor
  · intro hall w hw hmin v hv hmax
    obtain ⟨listSort, hlast⟩ := exists_sort_last hbusy h hv hmax
    obtain ⟨w', hw'⟩ := @exists_selected cfg listSort s w hw
    obtain ⟨hsel, -⟩ := @runShortSchedulerBySjf_of_allBusy cfg listSort elapsed s hbusy hsjf hpreemption v
      hlast
    have hselected := hsel.trans hw'
    -- the selected one has the same estimate
    obtain ⟨hin', hmin'⟩ := selected_of_still h hw'
    have hsame := le_antisymm (hmin' w hw) (hmin w' hin')
    have hcond := hall listSort v w' hlast hselected
    rw [hestimates hlast hselected] at hcond
    simp only [RightVictim, hsame] at hcond
    exact hcond
  · intro hclosed listSort v w hlast hselected
    obtain ⟨hsel, -⟩ := @runShortSchedulerBySjf_of_allBusy cfg listSort elapsed s hbusy hsjf hpreemption v
      hlast
    obtain ⟨hw, hmin⟩ := selected_of_still h (hsel.symm.trans hselected)
    rw [hestimates hlast hselected]
    refine hclosed w hw hmin v ?_ (last_of_still hbusy h hlast)
    exact (execSorted_perm cfg listSort s).mem_iff.mp (List.mem_of_getLast? hlast)

end Still

/-! ## 6. What the sorts compare -/

section Compare

variable {cfg : SjfConfig} {listSort : ComparisonSort Nat} {elapsed : Nat → Nat} {s : TimedState}

/-- The estimates when the comparisons of both sorts and the one that decides are over. -/
theorem estimate_of_calls (hbusy : AllBusy s.kernel) (hsjf : cfg.kernel.shortTermAlgorithm = .sjf)
    (hpreemption : cfg.kernel.preemptionEnabled = true) {v w : Nat}
    (hv : (execSorted cfg listSort s).2.getLast? = some v)
    (hw : (runShortSchedulerBySjf cfg listSort elapsed s).selected = some w)
    {execCalls readyCalls : List (Nat × Nat)}
    (hexec : (execSorted cfg listSort s).1 = after (compareCpuBurstsAnswer cfg) s.times execCalls)
    (hready : (readySelected cfg listSort s).1 =
      after (compareCpuBurstsAnswer cfg) (execSorted cfg listSort s).1 readyCalls) (pid : Nat) :
    ((runShortSchedulerBySjf cfg listSort elapsed s).times pid).lastEstimatedCpuBurstMs =
      estimateAfter cfg s.times pid (uses pid (execCalls ++ readyCalls ++ [(w, v)])) := by
  obtain ⟨hsel, hrun⟩ := @runShortSchedulerBySjf_of_allBusy cfg listSort elapsed s hbusy hsjf hpreemption v hv
  rw [hrun w (hsel.symm.trans hw), ← after_apply, after_append, after_append, ← hexec, ← hready]
  rfl

/-- What a sort compares can be compared. -/
theorem canCompare_of_sort (hbusy : AllBusy s.kernel) (hsjf : cfg.kernel.shortTermAlgorithm = .sjf)
    (hpreemption : cfg.kernel.preemptionEnabled = true) {v w : Nat}
    (hv : (execSorted cfg listSort s).2.getLast? = some v)
    (hw : (runShortSchedulerBySjf cfg listSort elapsed s).selected = some w) :
    ∃ calls, CanCompare cfg s calls v w ∧ ∀ pid,
      ((runShortSchedulerBySjf cfg listSort elapsed s).times pid).lastEstimatedCpuBurstMs =
        estimateAfter cfg s.times pid (uses pid calls) := by
  obtain ⟨hsel, -⟩ := @runShortSchedulerBySjf_of_allBusy cfg listSort elapsed s hbusy hsjf hpreemption v hv
  have hsorted : execSorted cfg listSort s =
      (listSort.sort (s.kernel.queue .exec)).run (compareCpuBurstsAnswer cfg) s.times := by
    rw [execSorted, someCpuFree_of_allBusy hbusy]
    rfl
  obtain ⟨execCalls, hexec, htimes⟩ : ∃ execCalls,
      Possible (compareCpuBurstsAnswer cfg) s.times (s.kernel.queue .exec) execCalls
          (execSorted cfg listSort s).2 ∧
        (execSorted cfg listSort s).1 = after (compareCpuBurstsAnswer cfg) s.times execCalls := by
    rw [hsorted]
    exact ⟨_, possible_of_sort listSort _ _, run_fst _ _⟩
  obtain ⟨readyCalls, hready, htimes'⟩ : ∃ readyCalls,
      Possible (compareCpuBurstsAnswer cfg) (execSorted cfg listSort s).1 (s.kernel.queue .ready) readyCalls
          (readySelected cfg listSort s).2.1 ∧
        (readySelected cfg listSort s).1 =
          after (compareCpuBurstsAnswer cfg) (execSorted cfg listSort s).1 readyCalls :=
    ⟨_, possible_of_sort listSort _ _, run_fst _ _⟩
  have hestimate := estimate_of_calls hbusy hsjf hpreemption hv hw htimes htimes'
  rw [htimes] at hready
  exact ⟨_, ⟨execCalls, _, readyCalls, _, rfl, hexec, hready, hv, hsel.symm.trans hw⟩, hestimate⟩

/-- What can be compared, some sort compares. -/
theorem exists_sort_of_canCompare (elapsed : Nat → Nat) (hbusy : AllBusy s.kernel)
    (hsjf : cfg.kernel.shortTermAlgorithm = .sjf) (hpreemption : cfg.kernel.preemptionEnabled = true)
    (hlists : s.kernel.queue .exec ≠ s.kernel.queue .ready) {calls : List (Nat × Nat)} {v w : Nat}
    (h : CanCompare cfg s calls v w) :
    ∃ listSort, (execSorted cfg listSort s).2.getLast? = some v ∧
      (runShortSchedulerBySjf cfg listSort elapsed s).selected = some w ∧ ∀ pid,
        ((runShortSchedulerBySjf cfg listSort elapsed s).times pid).lastEstimatedCpuBurstMs =
          estimateAfter cfg s.times pid (uses pid calls) := by
  obtain ⟨execCalls, exec, readyCalls, ready, rfl, hexec, hready, hv, hw⟩ := h
  obtain ⟨listSort, hsortExec, hsortReady⟩ := exists_sort_of_possible_two hlists hexec hready
  have hsorted : execSorted cfg listSort s =
      (after (compareCpuBurstsAnswer cfg) s.times execCalls, exec) := by
    rw [execSorted, someCpuFree_of_allBusy hbusy, if_neg (by simp), sortExecListBySjf, hsortExec]
  have hselected : readySelected cfg listSort s =
      (after (compareCpuBurstsAnswer cfg) (after (compareCpuBurstsAnswer cfg) s.times execCalls) readyCalls,
        ready, ready.head?) := by
    rw [readySelected, hsorted, getNextProcessToDispatchBySjf, sortReadyListBySjf, hsortReady]
  have hlast : (execSorted cfg listSort s).2.getLast? = some v := by
    rw [hsorted]
    exact hv
  obtain ⟨hsel, -⟩ := @runShortSchedulerBySjf_of_allBusy cfg listSort elapsed s hbusy hsjf hpreemption v hlast
  have hrun : (runShortSchedulerBySjf cfg listSort elapsed s).selected = some w := by
    rw [hsel, hselected]
    exact hw
  refine ⟨listSort, hlast, hrun, estimate_of_calls hbusy hsjf hpreemption hlast hrun ?_ ?_⟩
  · rw [hsorted]
  · rw [hselected, hsorted]

end Compare

/-! ## 7. The decision for every sort -/

/-- Two CPUs, under SJF with preemption. -/
def preemptive : SjfConfig := { halfAlphaDouble with kernel := ⟨.sjf, .fifo, true, 2, 16⟩ }

/-- They execute processes 1 and 2, with the estimates 100 and 80; process 3 in READY has 50.  The bursts
are as estimated. -/
def twoExecuting : TimedState where
  kernel := { State.start preemptive.kernel with
    queue := fun st =>
      match st with
      | .exec => [1, 2]
      | .ready => [3]
      | _ => []
    cpus := [⟨some 1⟩, ⟨some 2⟩] }
  times := fun pid =>
    match pid with
    | 1 => ⟨100, 100, [], false⟩
    | 2 => ⟨80, 80, [], false⟩
    | _ => ⟨50, 50, [], false⟩

theorem allBusy_twoExecuting : AllBusy twoExecuting.kernel := by
  constructor
  · intro c hc
    simp only [twoExecuting, List.mem_cons, List.not_mem_nil, or_false] at hc
    rcases hc with rfl | rfl
    · exact ⟨1, by simp [twoExecuting], rfl⟩
    · exact ⟨2, by simp [twoExecuting], rfl⟩
  · intro pid hpid
    simp only [twoExecuting, List.mem_cons, List.not_mem_nil, or_false] at hpid
    rcases hpid with rfl | rfl
    · exact ⟨0, rfl⟩
    · exact ⟨1, rfl⟩

theorem unmoved_twoExecuting (pid : Nat) : unmoved preemptive (twoExecuting.times pid) = true := by
  unfold twoExecuting
  dsimp only
  split <;> decide +kernel

theorem estimate_twoExecuting (pid : Nat) :
    (twoExecuting.times pid).lastEstimatedCpuBurstMs < 2 ^ 31 := by
  unfold twoExecuting
  dsimp only
  split <;> decide

/-- Process 1 has been executing for 90 ms. -/
def ninetyMs (pid : Nat) : Nat := if pid = 1 then 90 else 0

theorem ninetyMs_lt (pid : Nat) : ninetyMs pid < 2 ^ 31 := by
  unfold ninetyMs
  split <;> norm_num

end Tpso.Kernel
