/-
# The burst estimates of SJF

The estimate of a process is meant to follow its CPU bursts: after a burst of `R` milliseconds it is
`alpha * R + (1 - alpha) * previous`, truncated.  The kernel evaluates this formula in
`compare_cpu_bursts`, the comparison that `list_sort` calls, for both PCBs of EVERY call.  A burst is
therefore folded into the estimate as often as the PCB is compared, and not at all when it is alone in
its list.  And `pcb_create` stores the initial estimate as if it were a burst; the estimate itself starts
at 0.

The kernel of the last modules runs here with these two numbers beside each PCB.  Of `list_sort` only
this is assumed: it permutes its list, and it calls the comparison on members of the list.  The law holds
of the PCBs whose last burst has been folded in, in every run that folds each burst in once
(`estimate_iff_of_foldedOnce`).

The formula is evaluated with some arithmetic: the exact one, which the law is about, or the one of
`double`, which the kernel uses.  What the next modules say of sorts holds for each.
-/
import Tpso.Kernel.Assignment
import Tpso.Lib.Binary64

namespace Tpso.Kernel

open Tpso.Lib

/-! ## 1. The two numbers of a PCB -/

/-- An arithmetic for `last_estimated_cpu_burst_ms * (1 - alpha) + last_cpu_burst_ms * alpha`, truncated.
Whatever it rounds, a larger estimate gives a result at least as large, and the estimates that come from
one burst have a bound. -/
structure Arithmetic where
  fold : ℚ → Nat → Nat → Nat
  monotone : ∀ {alpha : ℚ} (burst : Nat), 0 ≤ alpha → alpha ≤ 1 → Monotone (fold alpha burst)
  bounded : ∀ {alpha : ℚ} (burst estimate : Nat), 0 ≤ alpha → alpha ≤ 1 →
    ∃ bound, ∀ count, (fold alpha burst)^[count] estimate ≤ bound

/-- With rationals. -/
def exactFold (alpha : ℚ) (burst estimate : Nat) : Nat :=
  ⌊(estimate : ℚ) * (1 - alpha) + (burst : ℚ) * alpha⌋₊

/-- As the code is compiled: `ALPHA` is read as a `double`, the two numbers of the PCB are converted, each
operation rounds, and the sum is converted back to `uint64_t`. -/
def doubleFold (alpha : ℚ) (burst estimate : Nat) : Nat :=
  let rest := roundBinary64 (roundBinary64 estimate * roundBinary64 (1 - roundBinary64 alpha))
  let last := roundBinary64 (roundBinary64 burst * roundBinary64 alpha)
  min ⌊roundBinary64 (rest + last)⌋₊ (2 ^ 64 - 1)

theorem exactFold_mono {alpha : ℚ} (burst : Nat) (h1 : alpha ≤ 1) : Monotone (exactFold alpha burst) := by
  intro a b hab
  have hle : (a : ℚ) ≤ b := by exact_mod_cast hab
  refine Nat.floor_mono (add_le_add (mul_le_mul_of_nonneg_right hle ?_) (le_refl _))
  linarith

/-- Neither the burst nor an estimate above it is exceeded. -/
theorem exactFold_le {alpha : ℚ} {burst estimate bound : Nat} (h0 : 0 ≤ alpha) (h1 : alpha ≤ 1)
    (hburst : burst ≤ bound) (hestimate : estimate ≤ bound) : exactFold alpha burst estimate ≤ bound := by
  have hb : (burst : ℚ) ≤ bound := by exact_mod_cast hburst
  have he : (estimate : ℚ) ≤ bound := by exact_mod_cast hestimate
  refine Nat.floor_le_of_le ?_
  calc (estimate : ℚ) * (1 - alpha) + burst * alpha
      ≤ bound * (1 - alpha) + bound * alpha :=
        add_le_add (mul_le_mul_of_nonneg_right he (by linarith)) (mul_le_mul_of_nonneg_right hb h0)
    _ = bound := by ring

theorem doubleFold_mono {alpha : ℚ} (burst : Nat) (h0 : 0 ≤ alpha) (h1 : alpha ≤ 1) :
    Monotone (doubleFold alpha burst) := by
  intro a b hab
  have hle : (a : ℚ) ≤ b := by exact_mod_cast hab
  have halpha : roundBinary64 alpha ≤ 1 := by
    simpa using roundBinary64_mono h0 h1
  have hone : 0 ≤ roundBinary64 (1 - roundBinary64 alpha) := roundBinary64_nonneg (by linarith)
  have hconvert : roundBinary64 a ≤ roundBinary64 b := roundBinary64_mono (Nat.cast_nonneg a) hle
  have hrest := roundBinary64_mono (mul_nonneg (roundBinary64_nonneg (Nat.cast_nonneg a)) hone)
    (mul_le_mul_of_nonneg_right hconvert hone)
  have hlast : 0 ≤ roundBinary64 (roundBinary64 burst * roundBinary64 alpha) :=
    roundBinary64_nonneg (mul_nonneg (roundBinary64_nonneg (Nat.cast_nonneg burst)) (roundBinary64_nonneg h0))
  have hsum : 0 ≤ roundBinary64 (roundBinary64 a * roundBinary64 (1 - roundBinary64 alpha)) +
      roundBinary64 (roundBinary64 burst * roundBinary64 alpha) :=
    add_nonneg (roundBinary64_nonneg (mul_nonneg (roundBinary64_nonneg (Nat.cast_nonneg a)) hone)) hlast
  exact min_le_min_right _ (Nat.floor_mono (roundBinary64_mono hsum (add_le_add hrest (le_refl _))))

/-- The exact arithmetic. -/
def Arithmetic.exact : Arithmetic where
  fold := exactFold
  monotone burst _ h1 := exactFold_mono burst h1
  bounded burst estimate h0 h1 := by
    refine ⟨max burst estimate, fun count => ?_⟩
    induction count with
    | zero => exact le_max_right _ _
    | succ count ih =>
      rw [Function.iterate_succ_apply']
      exact exactFold_le h0 h1 (le_max_left _ _) ih

/-- The arithmetic of `double`. -/
def Arithmetic.double : Arithmetic where
  fold := doubleFold
  monotone burst h0 h1 := doubleFold_mono burst h0 h1
  bounded burst estimate _ _ := by
    refine ⟨max estimate (2 ^ 64 - 1), fun count => ?_⟩
    cases count with
    | zero => exact le_max_left _ _
    | succ count =>
      rw [Function.iterate_succ_apply']
      exact (min_le_right _ _).trans (le_max_right _ _)

/-- The two differ: with `ALPHA=0.3`, an estimate and a burst of 3 are folded into 2. -/
example : exactFold (3 / 10) 3 3 = 3 ∧ doubleFold (3 / 10) 3 3 = 2 := by decide +kernel

/-- The part of `kernel.config` that SJF reads, and the arithmetic. -/
structure SjfConfig where
  kernel : Config
  alpha : ℚ
  alpha_nonneg : 0 ≤ alpha
  alpha_le_one : alpha ≤ 1
  /-- `ESTIMACION_INICIAL`. -/
  defaultEstimatedCpuBurstMs : Nat
  arithmetic : Arithmetic

/-- `MT`, as far as SJF uses it; and, beside it, the bursts that the process has completed, the oldest
first, and whether `last_cpu_burst_ms` holds a completed burst that no comparison has used yet. -/
structure PcbTimes where
  lastEstimatedCpuBurstMs : Nat
  lastCpuBurstMs : Nat
  bursts : List Nat
  unused : Bool

/-- `last_estimated_cpu_burst_ms * (1 - alpha) + last_cpu_burst_ms * alpha`, truncated. -/
def nextEstimate (cfg : SjfConfig) (burst estimate : Nat) : Nat := cfg.arithmetic.fold cfg.alpha burst estimate

/-- **The law**: the estimate after the bursts of a process. -/
def estimateOf (cfg : SjfConfig) (bursts : List Nat) : Nat :=
  bursts.foldl (fun estimate burst => nextEstimate cfg burst estimate) cfg.defaultEstimatedCpuBurstMs

/-- What `pcb_create` writes: both numbers are zeroed, then the initial estimate is stored as a burst. -/
def createTimes (cfg : SjfConfig) : PcbTimes := ⟨0, cfg.defaultEstimatedCpuBurstMs, [], true⟩

/-- The new estimate of a PCB inside a comparison. -/
def PcbTimes.compared (cfg : SjfConfig) (p : PcbTimes) : PcbTimes :=
  { p with
    lastEstimatedCpuBurstMs := nextEstimate cfg p.lastCpuBurstMs p.lastEstimatedCpuBurstMs
    unused := false }

/-- `remove_pcb_from_exec`: the burst that has just ended. -/
def PcbTimes.leftExec (elapsed : Nat) (p : PcbTimes) : PcbTimes :=
  { p with lastCpuBurstMs := elapsed, bursts := p.bursts ++ [elapsed], unused := true }

/-- `handle_init_proc_syscall` stores the time the caller has been in EXEC so far; no burst ends. -/
def PcbTimes.initProc (elapsed : Nat) (p : PcbTimes) : PcbTimes :=
  { p with lastCpuBurstMs := elapsed, unused := false }

/-- `compare_cpu_bursts`, and the same for `compare_cpu_bursts_SRT`: both PCBs get a new estimate.  What
the call answers decides an order or a preemption, which are choices of the environment here. -/
def compareCpuBursts (cfg : SjfConfig) (times : Nat → PcbTimes) (call : Nat × Nat) : Nat → PcbTimes :=
  let times := Function.update times call.1 ((times call.1).compared cfg)
  Function.update times call.2 ((times call.2).compared cfg)

/-! ## 2. The kernel with estimates -/

/-- What a section finds: the time a process has been in EXEC, and the calls `list_sort` makes. -/
structure Measures where
  elapsed : Nat := 0
  execCalls : List (Nat × Nat) := []
  readyCalls : List (Nat × Nat) := []

/-- The kernel and the numbers of its PCBs. -/
structure TimedState where
  kernel : State
  times : Nat → PcbTimes

/-- A step of the kernel with what it finds. -/
structure TimedEvent where
  event : Event
  measures : Measures := {}

/-- The calls of a sort are between members of the list. -/
def callsIn (l : List Nat) (calls : List (Nat × Nat)) : List (Nat × Nat) :=
  calls.filter fun c => decide (c.1 ∈ l ∧ c.2 ∈ l)

/-- `get_cpu_to_dispatch` finds a CPU without asking the algorithm. -/
def someCpuFree (k : State) : Bool :=
  k.cpus.any fun c => c.currentProcessExecuting.all fun pid => !findPcbIn .exec pid k

/-- The comparisons a section makes: the sorts of EXEC and of READY when a CPU and a process are chosen,
and the comparison of the chosen process with the one that would be preempted. -/
def comparisons (cfg : SjfConfig) (k : State) (ch : Choice) (m : Measures) : Thread → List (Nat × Nat)
  | .short _ =>
    if cfg.kernel.shortTermAlgorithm = .sjf then
      (if someCpuFree k then [] else callsIn (k.queue .exec) m.execCalls) ++
        (if (getCpuToDispatch cfg.kernel ch.execOrder k).2.isSome then
          callsIn (k.queue .ready) m.readyCalls else [])
    else []
  | .shortSelected _ cpu pid =>
    match currentOn k cpu with
    | none => []
    | some executing =>
      if cfg.kernel.preemptionEnabled && findPcbIn .exec executing k then [(pid, executing)] else []
  | _ => []

/-- The process that a section takes out of EXEC. -/
def leavesExec (k : State) (ch : Choice) : Thread → Option Nat
  | .exit pid | .dump pid _ => if findPcbIn .exec pid k then some pid else none
  | .io pid _ _ deviceName =>
    if findPcbIn .exec pid k && ((getIoConnectionStatusByDeviceName k deviceName).isNone ||
      (k.ioRequests deviceName).isSome) then some pid else none
  | .shortWait _ cpu _ =>
    (currentOn k cpu).filter fun executing => ch.answer && findPcbIn .exec executing k
  | _ => none

/-- The process whose burst an INIT_PROC measures. -/
def initProcCaller (k : State) : Thread → Option Nat
  | .initProc callerPid _ _ => if findPcbIn .exec callerPid k then some callerPid else none
  | _ => none

/-- An entry changed, if there is one to change. -/
def change (pid : Option Nat) (f : PcbTimes → PcbTimes) (times : Nat → PcbTimes) : Nat → PcbTimes :=
  match pid with
  | none => times
  | some pid => Function.update times pid (f (times pid))

/-- The PCB that a section creates. -/
def creates (k : State) (t : Thread) : Option Nat :=
  (initProcCaller k t).bind fun _ => if findPcbIn .new (k.newPid + 1) k then none else some (k.newPid + 1)

/-- What a section does to the numbers. -/
def sectionTimes (cfg : SjfConfig) (k : State) (ch : Choice) (m : Measures) (t : Thread)
    (times : Nat → PcbTimes) : Nat → PcbTimes :=
  let times := change (initProcCaller k t) (PcbTimes.initProc m.elapsed) times
  let times := change (creates k t) (fun _ => createTimes cfg) times
  let times := change (leavesExec k ch t) (PcbTimes.leftExec m.elapsed) times
  (comparisons cfg k ch m t).foldl (compareCpuBursts cfg) times

/-- One step. -/
def timedStep (cfg : SjfConfig) (s : TimedState) (e : TimedEvent) : Option TimedState :=
  match e.event with
  | .arrive handler => (step cfg.kernel s.kernel (.arrive handler)).map fun k => { s with kernel := k }
  | .run i ch =>
    match s.kernel.threads[i]? with
    | none => none
    | some t =>
      (step cfg.kernel s.kernel (.run i ch)).map fun k =>
        ⟨k, sectionTimes cfg s.kernel ch e.measures t s.times⟩

/-- Every PCB starts as `pcb_create` leaves it. -/
def TimedState.start (cfg : SjfConfig) : TimedState := ⟨.start cfg.kernel, fun _ => createTimes cfg⟩

/-- The kernel with estimates, as a transition system. -/
def timedKernel (cfg : SjfConfig) : Lts TimedState TimedEvent :=
  Lts.ofStep (TimedState.start cfg) (timedStep cfg)

/-- A scheduling decision: a process has been chosen from READY, or it is decided whether it takes the
CPU. -/
def decides (cfg : SjfConfig) (s : TimedState) (e : TimedEvent) : Bool :=
  match e.event with
  | .arrive _ => false
  | .run i ch =>
    match s.kernel.threads[i]? with
    | some (.short caller) => !(shortSelect cfg.kernel s.kernel ch caller).2.isEmpty
    | some (.shortSelected _ _ _) => true
    | _ => false

/-- The law, for one PCB. -/
def Lawful (cfg : SjfConfig) (p : PcbTimes) : Prop := p.lastEstimatedCpuBurstMs = estimateOf cfg p.bursts

/-! ## 3. Each burst once -/

/-- A comparison would leave the estimate as it is. -/
def unmoved (cfg : SjfConfig) (p : PcbTimes) : Bool :=
  decide (nextEstimate cfg p.lastCpuBurstMs p.lastEstimatedCpuBurstMs = p.lastEstimatedCpuBurstMs)

/-- The last burst of the PCB has been folded into its estimate, or folding it in would change
nothing. -/
def folded (cfg : SjfConfig) (p : PcbTimes) : Bool := !p.unused || unmoved cfg p

/-- The PCB has a burst to fold in, or folding it in changes nothing. -/
def foldable (cfg : SjfConfig) (p : PcbTimes) : Bool := p.unused || unmoved cfg p

/-- Each of a sequence of comparisons finds both its PCBs with a burst to fold in. -/
def comparesOnce (cfg : SjfConfig) : List (Nat × Nat) → (Nat → PcbTimes) → Bool
  | [], _ => true
  | (a, b) :: rest, times =>
    foldable cfg (times a) &&
      foldable cfg (Function.update times a ((times a).compared cfg) b) &&
      comparesOnce cfg rest (compareCpuBursts cfg times (a, b))

/-- A step folds every burst in once: its comparisons find PCBs with a burst to fold in, and a PCB whose
burst it overwrites has none left. -/
def foldedOnce (cfg : SjfConfig) (s : TimedState) (e : TimedEvent) : Bool :=
  match e.event with
  | .arrive _ => true
  | .run i ch =>
    match s.kernel.threads[i]? with
    | none => true
    | some t =>
      (initProcCaller s.kernel t).all (fun pid => folded cfg (s.times pid)) &&
        (leavesExec s.kernel ch t).all (fun pid => folded cfg (s.times pid)) &&
        comparesOnce cfg (comparisons cfg s.kernel ch e.measures t) s.times

/-- **What the numbers of a PCB say about its bursts**: with a burst to fold in, folding it in gives the
estimate of the law; with none, the estimate is the one of the law. -/
def Tracks (cfg : SjfConfig) (p : PcbTimes) : Prop :=
  if p.unused then
    nextEstimate cfg p.lastCpuBurstMs p.lastEstimatedCpuBurstMs = estimateOf cfg p.bursts
  else Lawful cfg p

section Pcb

variable {cfg : SjfConfig} {p : PcbTimes}

/-- A PCB that tracks its bursts meets the law exactly when its last burst is folded in. -/
theorem Tracks.lawful_iff (h : Tracks cfg p) : Lawful cfg p ↔ folded cfg p = true := by
  unfold Tracks at h
  cases hu : p.unused with
  | false =>
    rw [hu] at h
    simpa [folded, hu] using h
  | true =>
    rw [hu, if_pos rfl] at h
    simp only [folded, hu, Bool.not_true, Bool.false_or, unmoved, decide_eq_true_eq, h]
    exact eq_comm

theorem estimateOf_append (cfg : SjfConfig) (bursts : List Nat) (burst : Nat) :
    estimateOf cfg (bursts ++ [burst]) = nextEstimate cfg burst (estimateOf cfg bursts) := by
  simp [estimateOf]

/-- A comparison of a PCB that has a burst to fold in. -/
theorem Tracks.compared (h : Tracks cfg p) (hf : foldable cfg p = true) : Tracks cfg (p.compared cfg) := by
  unfold Tracks at h
  cases hu : p.unused with
  | true =>
    rw [hu, if_pos rfl] at h
    exact h
  | false =>
    rw [hu] at h
    have hsame : nextEstimate cfg p.lastCpuBurstMs p.lastEstimatedCpuBurstMs =
        p.lastEstimatedCpuBurstMs := by
      simpa [foldable, hu, unmoved] using hf
    exact hsame.trans h

/-- A burst ends after the one before it was folded in. -/
theorem Tracks.leftExec (h : Tracks cfg p) (hf : folded cfg p = true) (elapsed : Nat) :
    Tracks cfg (p.leftExec elapsed) := by
  have hlaw : p.lastEstimatedCpuBurstMs = estimateOf cfg p.bursts := h.lawful_iff.mpr hf
  simp only [Tracks, PcbTimes.leftExec, ↓reduceIte]
  rw [estimateOf_append, hlaw]

theorem Tracks.initProc (h : Tracks cfg p) (hf : folded cfg p = true) (elapsed : Nat) :
    Tracks cfg (p.initProc elapsed) := h.lawful_iff.mpr hf

/-- A new PCB, when the initial estimate is 0 or the old estimate does not count. -/
theorem tracks_createTimes (hexact : cfg.arithmetic = .exact)
    (hcfg : cfg.defaultEstimatedCpuBurstMs = 0 ∨ cfg.alpha = 1) : Tracks cfg (createTimes cfg) := by
  simp only [Tracks, createTimes, ↓reduceIte, nextEstimate, hexact, Arithmetic.exact, exactFold, estimateOf,
    List.foldl_nil]
  rcases hcfg with h | h
  · simp [h]
  · simp [h]

end Pcb

/-! ## 4. Steps and runs -/

section Step

variable {cfg : SjfConfig} {times : Nat → PcbTimes}

/-- All PCBs track their bursts. -/
def AllTrack (cfg : SjfConfig) (times : Nat → PcbTimes) : Prop := ∀ pid, Tracks cfg (times pid)

theorem AllTrack.update (h : AllTrack cfg times) {pid : Nat} {p : PcbTimes} (hp : Tracks cfg p) :
    AllTrack cfg (Function.update times pid p) := by
  intro q
  by_cases hq : q = pid
  · subst hq
    rw [Function.update_self]
    exact hp
  · rw [Function.update_of_ne hq]
    exact h q

theorem AllTrack.change (h : AllTrack cfg times) {pid : Option Nat} {f : PcbTimes → PcbTimes}
    (hf : ∀ q, pid = some q → Tracks cfg (f (times q))) : AllTrack cfg (change pid f times) := by
  cases pid with
  | none => exact h
  | some q => exact h.update (hf q rfl)

/-- The comparisons of a section. -/
theorem AllTrack.compareAll : ∀ (calls : List (Nat × Nat)) {times : Nat → PcbTimes},
    AllTrack cfg times → comparesOnce cfg calls times = true →
    AllTrack cfg (calls.foldl (compareCpuBursts cfg) times)
  | [], _, h, _ => h
  | (a, b) :: rest, times, h, honce => by
    simp only [comparesOnce, Bool.and_eq_true] at honce
    obtain ⟨⟨ha, hb⟩, hrest⟩ := honce
    have hfirst : AllTrack cfg (Function.update times a ((times a).compared cfg)) :=
      h.update ((h a).compared ha)
    exact AllTrack.compareAll rest (hfirst.update ((hfirst b).compared hb)) hrest

/-- A section that compares takes nothing out of EXEC and measures no burst. -/
theorem comparisons_eq_nil (k : State) (ch : Choice) (m : Measures) (t : Thread) :
    comparisons cfg k ch m t = [] ∨ (initProcCaller k t = none ∧ leavesExec k ch t = none) := by
  cases t with
  | short caller => exact Or.inr ⟨rfl, rfl⟩
  | shortSelected caller cpu pid => exact Or.inr ⟨rfl, rfl⟩
  | _ => exact Or.inl rfl

/-- A section that takes a process out of EXEC measures no INIT_PROC. -/
theorem initProcCaller_eq_none (k : State) (ch : Choice) (t : Thread) :
    initProcCaller k t = none ∨ leavesExec k ch t = none := by
  cases t with
  | initProc callerPid callerPc size => exact Or.inr rfl
  | _ => exact Or.inl rfl

/-- **A section keeps the numbers tracking the bursts.** -/
theorem AllTrack.section (hexact : cfg.arithmetic = .exact)
    (hcfg : cfg.defaultEstimatedCpuBurstMs = 0 ∨ cfg.alpha = 1)
    (h : AllTrack cfg times) {k : State} {ch : Choice} {m : Measures} {t : Thread}
    (hinit : (initProcCaller k t).all (fun pid => folded cfg (times pid)) = true)
    (hleave : (leavesExec k ch t).all (fun pid => folded cfg (times pid)) = true)
    (hcalls : comparesOnce cfg (comparisons cfg k ch m t) times = true) :
    AllTrack cfg (sectionTimes cfg k ch m t times) := by
  -- the caller of INIT_PROC, and the process it creates
  have hcaller : AllTrack cfg (Kernel.change (initProcCaller k t) (PcbTimes.initProc m.elapsed) times) := by
    refine h.change ?_
    intro q hq
    rw [hq] at hinit
    exact (h q).initProc hinit m.elapsed
  have hcreated : AllTrack cfg (Kernel.change (creates k t) (fun _ => createTimes cfg)
      (Kernel.change (initProcCaller k t) (PcbTimes.initProc m.elapsed) times)) :=
    hcaller.change fun _ _ => tracks_createTimes hexact hcfg
  rcases initProcCaller_eq_none k ch t with hnone | hnone
  · have hcreates : creates k t = none := by simp [creates, hnone]
    simp only [sectionTimes, hnone, hcreates, Kernel.change]
    rcases comparisons_eq_nil k ch m t with hnil | ⟨-, hstay⟩
    · rw [hnil]
      refine h.change ?_
      intro q hq
      rw [hq] at hleave
      exact (h q).leftExec hleave m.elapsed
    · rw [hstay]
      exact AllTrack.compareAll _ h hcalls
  · have hnil : comparisons cfg k ch m t = [] ∨ initProcCaller k t = none :=
      (comparisons_eq_nil k ch m t).imp_right And.left
    rcases hnil with hnil | hnone'
    · simp only [sectionTimes, hnil, hnone, List.foldl_nil]
      exact hcreated
    · have hcreates : creates k t = none := by simp [creates, hnone']
      simp only [sectionTimes, hnone, hnone', hcreates, Kernel.change]
      exact AllTrack.compareAll _ h hcalls

/-- Every step that folds each burst in once keeps the numbers tracking the bursts. -/
theorem allTrack_step (hexact : cfg.arithmetic = .exact)
    (hcfg : cfg.defaultEstimatedCpuBurstMs = 0 ∨ cfg.alpha = 1) {s s' : TimedState} {e : TimedEvent}
    (h : AllTrack cfg s.times) (hok : foldedOnce cfg s e = true)
    (hst : timedStep cfg s e = some s') : AllTrack cfg s'.times := by
  obtain ⟨event, m⟩ := e
  cases event with
  | arrive handler =>
    simp only [timedStep] at hst
    obtain ⟨k, -, rfl⟩ := Option.map_eq_some_iff.mp hst
    exact h
  | run i ch =>
    simp only [timedStep] at hst
    split at hst
    · exact absurd hst (by simp)
    · rename_i t ht
      obtain ⟨k, -, rfl⟩ := Option.map_eq_some_iff.mp hst
      simp only [foldedOnce, ht, Bool.and_eq_true] at hok
      exact h.section hexact hcfg hok.1.1 hok.1.2 hok.2

end Step

/-- **In every run that folds each burst in once, at every scheduling decision, the exact estimate of a PCB is
the one of its bursts exactly when its last burst has been folded in or would change nothing.** -/
theorem estimate_iff_of_foldedOnce {cfg : SjfConfig} {tr : List (Transition TimedState TimedEvent)}
    {s : TimedState} (hr : (timedKernel cfg).Run tr s) (hexact : cfg.arithmetic = .exact)
    (hcfg : cfg.defaultEstimatedCpuBurstMs = 0 ∨ cfg.alpha = 1)
    (hok : ∀ x ∈ tr, foldedOnce cfg x.src x.label = true) :
    ∀ x ∈ tr, decides cfg x.src x.label = true →
      ∀ pid, Lawful cfg (x.dst.times pid) ↔ folded cfg (x.dst.times pid) = true := by
  have h0 : ∀ s, (timedKernel cfg).init s → AllTrack cfg s.times := by
    rintro s rfl pid
    exact tracks_createTimes hexact hcfg
  have hstep : ∀ s e s', AllTrack cfg s.times → foldedOnce cfg s e = true →
      (timedKernel cfg).step s e s' → AllTrack cfg s'.times :=
    fun s e s' hs ho hst => allTrack_step hexact hcfg hs ho hst
  intro x hx _ pid
  obtain ⟨hsrc, hst⟩ := hr.invariant_steps h0 hstep hok x hx
  exact (hstep x.src x.label x.dst hsrc (hok x hx) hst pid).lawful_iff

/-- One CPU under SJF, `alpha` one half, the given initial estimate, and exact arithmetic. -/
def halfAlpha (initial : Nat) : SjfConfig :=
  ⟨⟨.sjf, .fifo, false, 1, 16⟩, 1 / 2, by norm_num, by norm_num, initial, .exact⟩

/-- The root process starts two more and then asks for a device. -/
def threeProcesses : List Event :=
  bootTwo ++ (.arrive (.initProc 0 2 16) :: List.replicate 9 (.run 0 {})) ++
    [.arrive (.newDevice 5 "disk"), .run 0 {}, .arrive (.io 0 3 100 "disk")]

/-- Its burst was one of 10 milliseconds; process 1 is dispatched, and the root process comes back to
READY beside process 2.  The calls are those of the sort that follows. -/
def sortedAfterIo (calls : List (Nat × Nat)) : List TimedEvent :=
  threeProcesses.map (fun e => ⟨e, {}⟩) ++
  [⟨.run 0 {}, { elapsed := 10 }⟩, ⟨.run 0 {}, {}⟩, ⟨.run 1 {}, { readyCalls := [(1, 2)] }⟩,
    ⟨.run 1 {}, {}⟩, ⟨.arrive (.ioCompletion 5 "disk" 0), {}⟩, ⟨.run 1 {}, {}⟩, ⟨.run 1 {}, {}⟩,
    ⟨.run 1 {}, { readyCalls := calls }⟩]

/-- The theorem at work: one comparison folds the burst of the root process in, and its estimate at the
decision is 5. -/
theorem estimate_iff_of_foldedOnce_one_call :
    ∃ tr s, (timedKernel (halfAlpha 0)).Run tr s ∧
      (∃ x ∈ tr, decides (halfAlpha 0) x.src x.label = true ∧ (x.dst.times 0).bursts = [10] ∧
        (x.dst.times 0).lastEstimatedCpuBurstMs = 5 ∧ Lawful (halfAlpha 0) (x.dst.times 0)) ∧
      ∀ x ∈ tr, decides (halfAlpha 0) x.src x.label = true →
        ∀ pid, Lawful (halfAlpha 0) (x.dst.times pid) ↔ folded (halfAlpha 0) (x.dst.times pid) = true := by
  obtain ⟨tr, s, hrun, htest⟩ := Lts.exists_run_of_drive (TimedState.start (halfAlpha 0))
    (timedStep (halfAlpha 0)) (sortedAfterIo [(2, 0)])
    (fun tr _ => (tr.all fun x => foldedOnce (halfAlpha 0) x.src x.label) &&
      tr.any fun x => decides (halfAlpha 0) x.src x.label && decide ((x.dst.times 0).bursts = [10]) &&
        decide ((x.dst.times 0).lastEstimatedCpuBurstMs = 5) && folded (halfAlpha 0) (x.dst.times 0))
    (by decide +kernel)
  simp only [Bool.and_eq_true, List.all_eq_true, List.any_eq_true, decide_eq_true_eq] at htest
  obtain ⟨hok, x, hx, ⟨⟨hdec, hbursts⟩, hest⟩, hfolded⟩ := htest
  have hall := estimate_iff_of_foldedOnce hrun rfl (Or.inl rfl) hok
  exact ⟨tr, s, hrun, ⟨x, hx, hdec, hbursts, hest, (hall x hx hdec 0).mpr hfolded⟩, hall⟩

/-- Without the conditions the law fails.  If the sort compares the root process twice, its estimate is 7
after a single burst; and with an initial estimate of 1000 the root process is dispatched for the first
time with the estimate 0. -/
theorem not_estimate_sorted_twice :
    (∃ tr s, (timedKernel (halfAlpha 0)).Run tr s ∧ ∃ x ∈ tr,
      decides (halfAlpha 0) x.src x.label = true ∧ (x.dst.times 0).bursts = [10] ∧
        (x.dst.times 0).lastEstimatedCpuBurstMs = 7 ∧ ¬ Lawful (halfAlpha 0) (x.dst.times 0)) ∧
    ∃ tr s, (timedKernel (halfAlpha 1000)).Run tr s ∧ ∃ x ∈ tr,
      decides (halfAlpha 1000) x.src x.label = true ∧ (x.dst.times 0).bursts = [] ∧
        (x.dst.times 0).lastEstimatedCpuBurstMs = 0 ∧ ¬ Lawful (halfAlpha 1000) (x.dst.times 0) := by
  have hfive : estimateOf (halfAlpha 0) [10] = 5 := by decide +kernel
  constructor
  · obtain ⟨tr, s, hrun, htest⟩ := Lts.exists_run_of_drive (TimedState.start (halfAlpha 0))
      (timedStep (halfAlpha 0)) (sortedAfterIo [(2, 0), (0, 2)])
      (fun tr _ => tr.any fun x => decides (halfAlpha 0) x.src x.label &&
        decide ((x.dst.times 0).bursts = [10]) && decide ((x.dst.times 0).lastEstimatedCpuBurstMs = 7))
      (by decide +kernel)
    simp only [Bool.and_eq_true, List.any_eq_true, decide_eq_true_eq] at htest
    obtain ⟨x, hx, ⟨hdec, hbursts⟩, hest⟩ := htest
    refine ⟨tr, s, hrun, x, hx, hdec, hbursts, hest, ?_⟩
    rw [Lawful, hest, hbursts, hfive]
    simp
  · obtain ⟨tr, s, hrun, htest⟩ := Lts.exists_run_of_drive (TimedState.start (halfAlpha 1000))
      (timedStep (halfAlpha 1000)) (boot.map fun e => ⟨e, {}⟩)
      (fun tr _ => tr.any fun x => decides (halfAlpha 1000) x.src x.label &&
        decide ((x.dst.times 0).bursts = []) && decide ((x.dst.times 0).lastEstimatedCpuBurstMs = 0))
      (by decide +kernel)
    simp only [Bool.and_eq_true, List.any_eq_true, decide_eq_true_eq] at htest
    obtain ⟨x, hx, ⟨hdec, hbursts⟩, hest⟩ := htest
    refine ⟨tr, s, hrun, x, hx, hdec, hbursts, hest, ?_⟩
    rw [Lawful, hest, hbursts]
    simp [estimateOf, halfAlpha]

end Tpso.Kernel
