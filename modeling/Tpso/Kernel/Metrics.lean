/-
# The metrics that a process is logged with when it ends

A PCB counts how often the process entered each state (ME) and how many milliseconds it spent there
(MT).  Both are written by `pcb_change_state`, at times the clock decides, and once more by
`exit_routine`.

The kernel runs here with these numbers beside each PCB and with a clock that only goes forward.  The
counters are the visits of the itinerary of the last module, so the laws of the diagram hold for them
(`counted_of_run`): NEW is counted once, EXIT at most once, READY as often as EXEC or once more, SUSP_READY at
most as often as SUSP_BLOCKED and that at most as often as BLOCKED.  The times of a process never add up
to more than its life (`timed_of_run`), with one exception: when memoria does not confirm the end of the
process, `exit_routine` writes the time of day into the time in EXEC.
-/
import Tpso.Kernel.Lifecycle

namespace Tpso.Kernel

open Tpso.Lib

/-! ## 1. The numbers of a PCB -/

/-- `ME`, `MT` and `state_start_time_ms`; and, beside them, when the PCB was created and whether memoria
failed to confirm its end. -/
structure PcbMetrics where
  count : ProcessState → Nat
  timeMs : ProcessState → Nat
  stateStartTimeMs : Nat
  createdMs : Nat
  zombie : Bool

/-- What `pcb_create` writes. -/
def createMetrics (now : Nat) : PcbMetrics where
  count st := if st = .new then 1 else 0
  timeMs _ := 0
  stateStartTimeMs := now
  createdMs := now
  zombie := false

/-- By how much the clock has advanced at each of its readings during a call of `pcb_change_state`, and
at the one that may follow in `exit_routine`; and what memoria answers there. -/
structure Readings where
  elapsed : Nat := 0
  entered : Nat := 0
  killed : Nat := 0
  memResponse : Bool := true

/-- `pcb_change_state`, when the first reading of the clock is `now` and the second `later`. -/
def pcbChangeState (cur newState : ProcessState) (now later : Nat) (m : PcbMetrics) : PcbMetrics :=
  { m with
    timeMs := Function.update m.timeMs cur (m.timeMs cur + (now - m.stateStartTimeMs))
    count := Function.update m.count newState (m.count newState + 1)
    stateStartTimeMs := later }

/-- `exit_routine`, after memoria's answer. -/
def exitMetrics (memResponse : Bool) (now : Nat) (m : PcbMetrics) : PcbMetrics :=
  if memResponse then
    { m with timeMs := Function.update m.timeMs .exit (now - m.stateStartTimeMs) }
  else { m with timeMs := Function.update m.timeMs .exec now, zombie := true }

/-- One call, with what follows it in `exit_routine`: the new numbers and the clock. -/
def meterCall (cur newState : ProcessState) (r : Readings) (clock : Nat) (m : PcbMetrics) : PcbMetrics × Nat :=
  let now := clock + r.elapsed
  let later := now + r.entered
  let m := pcbChangeState cur newState now later m
  if newState = .exit then (exitMetrics r.memResponse (later + r.killed) m, later + r.killed) else (m, later)

/-! ## 2. The kernel with metrics -/

/-- The kernel, the numbers of its PCBs and the clock. -/
structure MeteredState where
  kernel : State
  metrics : Nat → PcbMetrics
  clock : Nat

/-- A step of the kernel with what it reads off the clock: when a PCB is created, and at the calls of
`pcb_change_state`. -/
structure MeteredEvent where
  event : Event
  created : Nat := 0
  readings : List Readings := []

/-- The calls of a section. -/
def meter : List (Nat × ProcessState) → List Readings → (Nat → ProcessState) →
    (Nat → PcbMetrics) → Nat → (Nat → PcbMetrics) × Nat
  | [], _, _, metrics, clock => (metrics, clock)
  | (pid, newState) :: calls, rs, states, metrics, clock =>
    let r := meterCall (states pid) newState (rs.headD {}) clock (metrics pid)
    meter calls rs.tail (Function.update states pid newState) (Function.update metrics pid r.1) r.2

/-- What a section does to the numbers, when `newPid` is the last pid given after it. -/
def sectionMetrics (s : MeteredState) (ch : Choice) (t : Thread) (newPid : Nat) (e : MeteredEvent) :
    (Nat → PcbMetrics) × Nat :=
  let r := meter (changes s.kernel ch t) e.readings s.kernel.states s.metrics s.clock
  if newPid = s.kernel.newPid then r
  else (Function.update r.1 newPid (createMetrics (r.2 + e.created)), r.2 + e.created)

/-- One step. -/
def meteredStep (cfg : Config) (s : MeteredState) (e : MeteredEvent) : Option MeteredState :=
  match e.event with
  | .arrive handler => (step cfg s.kernel (.arrive handler)).map fun k => { s with kernel := k }
  | .run i ch =>
    match s.kernel.threads[i]? with
    | none => none
    | some t =>
      (step cfg s.kernel (.run i ch)).map fun k =>
        let r := sectionMetrics s ch t k.newPid e
        ⟨k, r.1, r.2⟩

/-- The root process is created when the clock shows `now`. -/
def MeteredState.start (cfg : Config) (now : Nat) : MeteredState :=
  ⟨.start cfg, fun _ => createMetrics now, now⟩

/-- The kernel with metrics, as a transition system. -/
def meteredKernel (cfg : Config) (now : Nat) : Lts MeteredState MeteredEvent :=
  Lts.ofStep (MeteredState.start cfg now) (meteredStep cfg)

/-! ## 3. One section -/

section Meter

variable {states : Nat → ProcessState} {metrics : Nat → PcbMetrics} {clock : Nat}

theorem count_meterCall (cur newState : ProcessState) (r : Readings) (clock : Nat) (m : PcbMetrics)
    (k : ProcessState) :
    (meterCall cur newState r clock m).1.count k = m.count k + if newState = k then 1 else 0 := by
  have hchange : ∀ now later, (pcbChangeState cur newState now later m).count k =
      m.count k + if newState = k then 1 else 0 := by
    intro now later
    by_cases hk : k = newState
    · simp [pcbChangeState, hk]
    · simp [pcbChangeState, hk, Ne.symm hk]
  have hlast := hchange (clock + r.elapsed) (clock + r.elapsed + r.entered)
  unfold meterCall
  simp only
  split
  · unfold exitMetrics
    split
    · exact hlast
    · exact hlast
  · exact hlast

/-- **The counters count the calls.** -/
theorem count_meter : ∀ (calls : List (Nat × ProcessState)) (rs : List Readings)
    (states : Nat → ProcessState) (metrics : Nat → PcbMetrics) (clock pid : Nat) (k : ProcessState),
    ((meter calls rs states metrics clock).1 pid).count k = (metrics pid).count k + calls.count (pid, k)
  | [], _, _, _, _, _, _ => rfl
  | (q, newState) :: calls, rs, states, metrics, clock, pid, k => by
    simp only [meter, count_meter calls, List.count_cons]
    by_cases hq : pid = q
    · subst hq
      rw [Function.update_self, count_meterCall]
      by_cases hk : newState = k
      · simp [hk]
        omega
      · simp [hk]
    · have hne : (q, newState) ≠ (pid, k) := by
        rintro h
        exact hq (Prod.mk.inj h).1.symm
      simp [Function.update_of_ne hq, hne]

/-- The milliseconds of all states together. -/
def PcbMetrics.totalMs (m : PcbMetrics) : Nat :=
  m.timeMs .new + m.timeMs .ready + m.timeMs .exec + m.timeMs .blocked + m.timeMs .suspBlocked +
    m.timeMs .suspReady + m.timeMs .exit

/-- **The times of a process in state `st` are part of its life**, unless memoria did not confirm its
end. -/
structure Timed (m : PcbMetrics) (st : ProcessState) (clock : Nat) : Prop where
  created_le : m.createdMs ≤ m.stateStartTimeMs
  start_le : m.stateStartTimeMs ≤ clock
  exit_eq : m.zombie = false → st ≠ .exit → m.timeMs .exit = 0
  total_le : m.zombie = false →
    m.createdMs + m.totalMs ≤ if st = .exit then clock else m.stateStartTimeMs

theorem Timed.mono {m : PcbMetrics} {st : ProcessState} {clock clock' : Nat} (h : Timed m st clock)
    (hle : clock ≤ clock') : Timed m st clock' where
  created_le := h.created_le
  start_le := h.start_le.trans hle
  exit_eq := h.exit_eq
  total_le hz := by
    have htotal := h.total_le hz
    by_cases hst : st = .exit
    · rw [if_pos hst] at htotal ⊢
      exact htotal.trans hle
    · rw [if_neg hst] at htotal ⊢
      exact htotal

theorem timed_createMetrics (st : ProcessState) (now : Nat) : Timed (createMetrics now) st now where
  created_le := le_refl _
  start_le := le_refl _
  exit_eq _ _ := rfl
  total_le _ := by
    simp [createMetrics, PcbMetrics.totalMs]

theorem totalMs_pcbChangeState (cur newState : ProcessState) (now later : Nat) (m : PcbMetrics) :
    (pcbChangeState cur newState now later m).totalMs = m.totalMs + (now - m.stateStartTimeMs) := by
  cases cur <;> simp [PcbMetrics.totalMs, pcbChangeState] <;> omega

/-- **One call keeps the times in order**, and the clock goes forward. -/
theorem Timed.call {m : PcbMetrics} {cur newState : ProcessState} (h : Timed m cur clock)
    (hcur : cur ≠ .exit) (r : Readings) :
    Timed (meterCall cur newState r clock m).1 newState (meterCall cur newState r clock m).2 ∧
      clock ≤ (meterCall cur newState r clock m).2 := by
  have hcreated := h.created_le
  have hstart := h.start_le
  have htotal := totalMs_pcbChangeState cur newState (clock + r.elapsed)
    (clock + r.elapsed + r.entered) m
  have hexit : m.zombie = false →
      (pcbChangeState cur newState (clock + r.elapsed) (clock + r.elapsed + r.entered) m).timeMs .exit
        = 0 := by
    intro hz
    simpa [pcbChangeState, Function.update_of_ne (Ne.symm hcur)] using h.exit_eq hz hcur
  generalize hm : pcbChangeState cur newState (clock + r.elapsed) (clock + r.elapsed + r.entered) m = m'
    at htotal hexit
  have hsame : m'.createdMs = m.createdMs ∧ m'.stateStartTimeMs = clock + r.elapsed + r.entered ∧
      m'.zombie = m.zombie := by
    subst hm
    exact ⟨rfl, rfl, rfl⟩
  obtain ⟨hcr, hst, hz⟩ := hsame
  -- before `exit_routine` writes anything, the times end where the new state begins
  have hbase : m.zombie = false → m'.createdMs + m'.totalMs ≤ clock + r.elapsed := by
    intro hzombie
    have := h.total_le hzombie
    rw [if_neg hcur] at this
    omega
  unfold meterCall
  simp only [hm]
  by_cases hnew : newState = .exit
  · rw [if_pos hnew]
    subst hnew
    cases hresp : r.memResponse with
    | true =>
      refine ⟨⟨?_, ?_, fun _ hne => absurd rfl hne, ?_⟩, by simp only; omega⟩
      · simp only [exitMetrics, ↓reduceIte]
        omega
      · simp only [exitMetrics, ↓reduceIte]
        omega
      · intro hzombie
        have hzombie : m.zombie = false := by simpa [exitMetrics, hz] using hzombie
        have hnone := hexit hzombie
        have hlast := hbase hzombie
        simp only [PcbMetrics.totalMs] at hlast
        simp only [exitMetrics, ↓reduceIte, PcbMetrics.totalMs, Function.update_self,
          Function.update_of_ne (by decide : ProcessState.new ≠ .exit),
          Function.update_of_ne (by decide : ProcessState.ready ≠ .exit),
          Function.update_of_ne (by decide : ProcessState.exec ≠ .exit),
          Function.update_of_ne (by decide : ProcessState.blocked ≠ .exit),
          Function.update_of_ne (by decide : ProcessState.suspBlocked ≠ .exit),
          Function.update_of_ne (by decide : ProcessState.suspReady ≠ .exit)]
        omega
    | false =>
      refine ⟨⟨?_, ?_, fun _ hne => absurd rfl hne, ?_⟩, by simp only; omega⟩
      · simp only [exitMetrics, Bool.false_eq_true, ↓reduceIte]
        omega
      · simp only [exitMetrics, Bool.false_eq_true, ↓reduceIte]
        omega
      · intro hzombie
        exact absurd hzombie (by simp [exitMetrics])
  · rw [if_neg hnew]
    refine ⟨⟨?_, hst.le, fun hzombie _ => hexit (hz ▸ hzombie), ?_⟩, by simp only; omega⟩
    · show m'.createdMs ≤ m'.stateStartTimeMs
      omega
    · intro hzombie
      have hlast := hbase (hz ▸ hzombie)
      rw [if_neg hnew]
      show m'.createdMs + m'.totalMs ≤ m'.stateStartTimeMs
      omega

/-- **The calls of a section keep the times of all processes in order.** -/
theorem timed_meter {n : Nat} : ∀ (calls : List (Nat × ProcessState)) (rs : List Readings)
    {states : Nat → ProcessState} {metrics : Nat → PcbMetrics} {clock : Nat},
    (∀ pid ≤ n, Timed (metrics pid) (states pid) clock) → (calls.map Prod.fst).Nodup →
    (∀ c ∈ calls, follows (states c.1) c.2 = true) →
    (∀ pid ≤ n, Timed ((meter calls rs states metrics clock).1 pid) (applyChanges calls states pid)
      (meter calls rs states metrics clock).2) ∧ clock ≤ (meter calls rs states metrics clock).2
  | [], _, _, _, _, h, _, _ => ⟨h, le_refl _⟩
  | (q, newState) :: calls, rs, states, metrics, clock, h, hnodup, hedges => by
    obtain ⟨hfresh, hrest⟩ := List.nodup_cons.mp hnodup
    have hcur : states q ≠ .exit := by
      intro hexit
      have hedge := hedges (q, newState) List.mem_cons_self
      simp [hexit, follows] at hedge
    -- the clock after the first call, whoever it is for
    have hclock : clock ≤ (meterCall (states q) newState (rs.headD {}) clock (metrics q)).2 := by
      unfold meterCall
      simp only
      split
      · simp only
        omega
      · simp only
        omega
    have hfirst : ∀ pid ≤ n, Timed
        (Function.update metrics q (meterCall (states q) newState (rs.headD {}) clock (metrics q)).1 pid)
        (Function.update states q newState pid)
        (meterCall (states q) newState (rs.headD {}) clock (metrics q)).2 := by
      intro pid hpid
      by_cases hq : pid = q
      · subst hq
        rw [Function.update_self, Function.update_self]
        exact ((h pid hpid).call hcur _).1
      · rw [Function.update_of_ne hq, Function.update_of_ne hq]
        exact (h pid hpid).mono hclock
    have hedges' : ∀ c ∈ calls, follows (Function.update states q newState c.1) c.2 = true := by
      intro c hc
      have hne : c.1 ≠ q := by
        rintro rfl
        exact hfresh (List.mem_map.mpr ⟨c, hc, rfl⟩)
      rw [Function.update_of_ne hne]
      exact hedges c (List.mem_cons_of_mem _ hc)
    obtain ⟨hall, hlater⟩ := timed_meter calls rs.tail hfirst hrest hedges'
    exact ⟨hall, hclock.trans hlater⟩

end Meter

/-! ## 4. Runs -/

section Runs

variable {cfg : Config} {now : Nat} {s s' : MeteredState} {e : MeteredEvent}

/-- What a step with metrics is made of. -/
theorem meteredStep_cases (h : meteredStep cfg s e = some s') :
    step cfg s.kernel e.event = some s'.kernel ∧
      ((∃ handler, e.event = .arrive handler ∧ s'.metrics = s.metrics ∧ s'.clock = s.clock) ∨
        ∃ i ch t, e.event = .run i ch ∧ s.kernel.threads[i]? = some t ∧
          s'.metrics = (sectionMetrics s ch t s'.kernel.newPid e).1 ∧
          s'.clock = (sectionMetrics s ch t s'.kernel.newPid e).2) := by
  unfold meteredStep at h
  split at h
  · rename_i handler hev
    obtain ⟨k, hk, rfl⟩ := Option.map_eq_some_iff.mp h
    exact ⟨hev ▸ hk, Or.inl ⟨handler, hev, rfl, rfl⟩⟩
  · rename_i i ch hev
    split at h
    · exact absurd h (by simp)
    · rename_i t ht
      obtain ⟨k, hk, rfl⟩ := Option.map_eq_some_iff.mp h
      exact ⟨hev ▸ hk, Or.inr ⟨i, ch, t, hev, ht, rfl, rfl⟩⟩

/-- The times of all processes are in order. -/
def AllTimed (s : MeteredState) : Prop :=
  ∀ pid ≤ s.kernel.newPid, Timed (s.metrics pid) (s.kernel.states pid) s.clock

/-- The numbers after a section: those the calls leave, and those of a PCB that the section creates. -/
theorem sectionMetrics_cases (ch : Choice) (t : Thread) {newPid : Nat}
    (hnew : newPid = s.kernel.newPid ∨ newPid = s.kernel.newPid + 1) :
    let r := meter (changes s.kernel ch t) e.readings s.kernel.states s.metrics s.clock
    (∀ pid ≤ s.kernel.newPid, (sectionMetrics s ch t newPid e).1 pid = r.1 pid) ∧
      r.2 ≤ (sectionMetrics s ch t newPid e).2 ∧
      (newPid = s.kernel.newPid + 1 →
        (sectionMetrics s ch t newPid e).1 newPid = createMetrics (sectionMetrics s ch t newPid e).2) := by
  intro r
  unfold sectionMetrics
  rcases hnew with rfl | rfl
  · rw [if_pos rfl]
    exact ⟨fun _ _ => rfl, le_refl _, fun h => absurd h (by omega)⟩
  · rw [if_neg (by omega)]
    refine ⟨?_, Nat.le_add_right _ _, fun _ => Function.update_self _ _ _⟩
    intro pid hpid
    have hne : pid ≠ s.kernel.newPid + 1 := by omega
    exact Function.update_of_ne hne _ _

/-- **A step keeps the times in order.** -/
theorem allTimed_step (hlived : Inv s.kernel ∧ Carried s.kernel) (h : AllTimed s)
    (hc : dumpInPlace s.kernel e.event = true) (hst : meteredStep cfg s e = some s') : AllTimed s' := by
  obtain ⟨hkernel, ⟨handler, hev, hmetrics, hclock⟩ | ⟨i, ch, t, hev, hget, hmetrics, hclock⟩⟩ :=
    meteredStep_cases hst
  · rw [hev] at hkernel
    obtain ⟨-, hk⟩ := step_arrive hkernel
    unfold AllTimed
    rw [hmetrics, hclock, hk]
    exact h
  · rw [hev] at hkernel hc
    obtain ⟨hinv, hcarried⟩ := hlived
    have hplace := hinv.inPlace hc hget
    have hmem : t ∈ s.kernel.threads := List.mem_of_getElem? hget
    obtain ⟨t', others, hget', -, -, -, hk⟩ := step_run hkernel
    obtain rfl : t = t' := Option.some.inj (hget.symm.trans hget')
    have hnewPid : s'.kernel.newPid = (nextSection cfg s.kernel ch t).1.newPid := by rw [hk]
    have hstates : s'.kernel.states = (nextSection cfg s.kernel ch t).1.states := by
      rw [hk]
      rfl
    have hborn := nextSection_newborn cfg ch t (hinv.unborn .new)
    have hnew : s'.kernel.newPid = s.kernel.newPid ∨ s'.kernel.newPid = s.kernel.newPid + 1 := by
      rcases hborn with h | h <;> omega
    obtain ⟨hold, hle, hcreated⟩ := sectionMetrics_cases (e := e) ch t hnew
    obtain ⟨hcalls, -⟩ := timed_meter (changes s.kernel ch t) e.readings h (changes_nodup hinv hplace)
      fun c hc => (changes_follow hinv hcarried hmem hplace c hc).2
    intro pid hpid
    rw [hmetrics, hclock, hstates]
    by_cases hlt : pid ≤ s.kernel.newPid
    · rw [hold pid hlt, states_section cfg s.kernel ch t hlt]
      exact (hcalls pid hlt).mono hle
    · have heq : s'.kernel.newPid = s.kernel.newPid + 1 := by omega
      obtain rfl : pid = s'.kernel.newPid := by omega
      rw [hcreated heq]
      exact timed_createMetrics _ _

/-- A process has at most one call in a section. -/
theorem count_calls {calls : List (Nat × ProcessState)} (hnodup : (calls.map Prod.fst).Nodup)
    {pid : Nat} {k' : ProcessState} (hmem : (pid, k') ∈ calls) (k : ProcessState) :
    calls.count (pid, k) = if k' = k then 1 else 0 := by
  by_cases hk : k' = k
  · subst hk
    rw [if_pos rfl]
    exact List.count_eq_one_of_mem (List.Nodup.of_map _ hnodup) hmem
  · rw [if_neg hk]
    refine List.count_eq_zero_of_not_mem fun hother => hk ?_
    exact (Prod.mk.inj (List.inj_on_of_nodup_map hnodup hmem hother rfl)).2

/-- A step with metrics is a step of the kernel. -/
def kernelStep (x : Transition MeteredState MeteredEvent) : Transition State Event :=
  ⟨x.src.kernel, x.label.event, x.dst.kernel⟩

/-- **A counter goes up when its state is entered.** -/
theorem count_step (hlived : Inv s.kernel ∧ Carried s.kernel)
    (hc : dumpInPlace s.kernel e.event = true) (hst : meteredStep cfg s e = some s') {pid : Nat}
    (hpid : pid ≤ s.kernel.newPid) (k : ProcessState) :
    (s'.metrics pid).count k = (s.metrics pid).count k +
      if entered pid (kernelStep ⟨s, e, s'⟩) = some k then 1 else 0 := by
  obtain ⟨hkernel, ⟨handler, hev, hmetrics, -⟩ | ⟨i, ch, t, hev, hget, hmetrics, -⟩⟩ :=
    meteredStep_cases hst
  · rw [hev] at hkernel
    obtain ⟨-, hk⟩ := step_arrive hkernel
    have hsame : s'.kernel.stage pid = s.kernel.stage pid := by rw [hk]; rfl
    simp [hmetrics, entered, kernelStep, hsame]
  · rw [hev] at hkernel hc
    obtain ⟨hinv, hcarried⟩ := hlived
    have hplace := hinv.inPlace hc hget
    have hmem : t ∈ s.kernel.threads := List.mem_of_getElem? hget
    obtain ⟨t', others, hget', -, -, -, hk⟩ := step_run hkernel
    obtain rfl : t = t' := Option.some.inj (hget.symm.trans hget')
    have hnewPid : s'.kernel.newPid = (nextSection cfg s.kernel ch t).1.newPid := by rw [hk]
    have hborn := nextSection_newborn cfg ch t (hinv.unborn .new)
    have hnew : s'.kernel.newPid = s.kernel.newPid ∨ s'.kernel.newPid = s.kernel.newPid + 1 := by
      rcases hborn with h | h <;> omega
    obtain ⟨hold, -, -⟩ := sectionMetrics_cases (e := e) ch t hnew
    have hle : pid ≤ s'.kernel.newPid := by omega
    have hstate : s'.kernel.states pid = applyChanges (changes s.kernel ch t) s.kernel.states pid := by
      rw [hk]
      exact states_section cfg s.kernel ch t hpid
    have hstage : s.kernel.stage pid = some (s.kernel.states pid) := if_pos hpid
    have hstage' : s'.kernel.stage pid = some (s'.kernel.states pid) := if_pos hle
    have hnodup : ((changes s.kernel ch t).map Prod.fst).Nodup := changes_nodup hinv hplace
    rw [hmetrics, hold pid hpid, count_meter]
    simp only [entered, kernelStep, hstage, hstage', hstate]
    rcases applyChanges_cases (changes s.kernel ch t) s.kernel.states pid hnodup with
      ⟨heq, hnone⟩ | hcall
    · rw [List.count_eq_zero_of_not_mem (hnone k), heq]
      simp
    · have hedge := (changes_follow hinv hcarried hmem hplace _ hcall).2
      have hne : applyChanges (changes s.kernel ch t) s.kernel.states pid ≠ s.kernel.states pid := by
        intro heq
        refine ne_of_enters (o := some (s.kernel.states pid)) hedge ?_
        rw [heq]
      simp [count_calls hnodup hcall, hne]

/-- **A PCB that appears in a step is in NEW**, with the numbers of `pcb_create`. -/
theorem newborn_step (hinv : Inv s.kernel) (hst : meteredStep cfg s e = some s') {pid : Nat}
    (hold : ¬ pid ≤ s.kernel.newPid) (hnew : pid ≤ s'.kernel.newPid) :
    s'.kernel.stage pid = some .new ∧ s'.metrics pid = createMetrics s'.clock := by
  obtain ⟨hkernel, ⟨handler, hev, -, -⟩ | ⟨i, ch, t, hev, hget, hmetrics, hclock⟩⟩ :=
    meteredStep_cases hst
  · rw [hev] at hkernel
    obtain ⟨-, hk⟩ := step_arrive hkernel
    rw [hk] at hnew
    exact absurd hnew hold
  · rw [hev] at hkernel
    obtain ⟨t', others, hget', -, -, -, hk⟩ := step_run hkernel
    obtain rfl : t = t' := Option.some.inj (hget.symm.trans hget')
    have hnewPid : s'.kernel.newPid = (nextSection cfg s.kernel ch t).1.newPid := by rw [hk]
    rcases nextSection_newborn cfg ch t (hinv.unborn .new) with hsame | ⟨hsucc, hstate⟩
    · omega
    · have heq : s'.kernel.newPid = s.kernel.newPid + 1 := by omega
      obtain rfl : pid = s'.kernel.newPid := by omega
      obtain ⟨-, -, hcreated⟩ := sectionMetrics_cases (e := e) ch t (Or.inr heq)
      refine ⟨?_, by rw [hmetrics, hclock, hcreated heq]⟩
      rw [State.stage, if_pos (le_refl _)]
      refine congrArg some (Eq.trans ?_ hstate)
      rw [heq, hk]
      rfl

/-- A run with metrics is a run of the kernel. -/
theorem kernel_run {tr : List (Transition MeteredState MeteredEvent)}
    (hr : (meteredKernel cfg now).Run tr s) : (kernel cfg).Run (tr.map kernelStep) s.kernel := by
  induction hr with
  | start hi =>
    obtain rfl := hi
    exact .start rfl
  | step hrun hst ih =>
    rw [List.map_append]
    exact ih.step (meteredStep_cases hst).1

/-- What is known of the kernel in such a run. -/
theorem lived_of_run {tr : List (Transition MeteredState MeteredEvent)}
    (hr : (meteredKernel cfg now).Run tr s)
    (hc : ∀ x ∈ tr, dumpInPlace x.src.kernel x.label.event = true) :
    Inv s.kernel ∧ Carried s.kernel := by
  refine hr.invariant (I := fun s => Inv s.kernel ∧ Carried s.kernel)
    (C := fun s e => dumpInPlace s.kernel e.event = true) ?_ ?_ hc
  · rintro s rfl
    exact ⟨inv_start cfg, carried_start cfg⟩
  · intro s e s' h hc hst
    have hkernel := (meteredStep_cases hst).1
    exact ⟨inv_step h.1 hc hkernel, carried_step h.1 h.2 hc hkernel⟩

/-- **The counters of a process are the visits of its itinerary.** -/
theorem count_eq_visits {tr : List (Transition MeteredState MeteredEvent)}
    (hr : (meteredKernel cfg now).Run tr s)
    (hc : ∀ x ∈ tr, dumpInPlace x.src.kernel x.label.event = true) {pid : Nat}
    (hpid : pid ≤ s.kernel.newPid) (k : ProcessState) :
    (s.metrics pid).count k = Diagram.visits k ((State.start cfg).stage pid)
      ((tr.map kernelStep).filterMap (entered pid)) := by
  induction hr with
  | start hi =>
    obtain rfl := hi
    obtain rfl : pid = 0 := Nat.le_zero.mp hpid
    cases k with
    | _ => rfl
  | @step tr s s' e hrun hst ih =>
    have hpre : ∀ x ∈ tr, dumpInPlace x.src.kernel x.label.event = true :=
      fun x hx => hc x (List.mem_append_left _ hx)
    have hlast : dumpInPlace s.kernel e.event = true :=
      hc ⟨s, e, s'⟩ (List.mem_append_right _ (List.mem_singleton_self _))
    have hlived := lived_of_run hrun hpre
    rw [List.map_append, List.filterMap_append]
    by_cases hold : pid ≤ s.kernel.newPid
    · rw [count_step hlived hlast hst hold k, ih hpre hold]
      cases hentered : entered pid (kernelStep ⟨s, e, s'⟩) with
      | none => simp [hentered]
      | some k' => simp [hentered]
    · -- the process is created here, so it has been nowhere before
      obtain ⟨hstage', hmetrics⟩ := newborn_step hlived.1 hst hold hpid
      have hstage : s.kernel.stage pid = none := if_neg hold
      have hwalk := lifecycle_of_run (kernel_run hrun) (by simpa [kernelStep] using hpre) pid
      rw [hstage] at hwalk
      obtain ⟨horigin, hnil⟩ := hwalk.unborn
      have hentered : entered pid (kernelStep ⟨s, e, s'⟩) = some .new := by
        simp [entered, kernelStep, hstage, hstage']
      rw [hmetrics, horigin, hnil]
      by_cases hk : k = .new
      · simp [hentered, createMetrics, Diagram.visits, hk]
      · simp [hentered, createMetrics, Diagram.visits, hk, Ne.symm hk]

/-- **What the counters of a process in state `st` say about each other.** -/
structure Counted (m : PcbMetrics) (st : ProcessState) : Prop where
  new : m.count .new = 1
  ready : m.count .ready = m.count .exec + if st = .ready then 1 else 0
  blocked : m.count .suspBlocked + (if st = .blocked then 1 else 0) ≤ m.count .blocked
  suspended : m.count .suspReady + (if st = .suspBlocked then 1 else 0) ≤ m.count .suspBlocked
  exit : m.count .exit = if st = .exit then 1 else 0

theorem stage_start (cfg : Config) (pid : Nat) :
    (State.start cfg).stage pid = none ∨ (State.start cfg).stage pid = some sevenStates.start := by
  by_cases hpid : pid ≤ (State.start cfg).newPid
  · exact Or.inr (if_pos hpid)
  · exact Or.inl (if_neg hpid)

theorem allTimed_of_run {tr : List (Transition MeteredState MeteredEvent)}
    (hr : (meteredKernel cfg now).Run tr s)
    (hc : ∀ x ∈ tr, dumpInPlace x.src.kernel x.label.event = true) : AllTimed s := by
  have h : (Inv s.kernel ∧ Carried s.kernel) ∧ AllTimed s := by
    refine hr.invariant (I := fun s => (Inv s.kernel ∧ Carried s.kernel) ∧ AllTimed s)
      (C := fun s e => dumpInPlace s.kernel e.event = true) ?_ ?_ hc
    · rintro s rfl
      exact ⟨⟨inv_start cfg, carried_start cfg⟩, fun _ _ => timed_createMetrics _ now⟩
    · intro s e s' h hc hst
      have hkernel := (meteredStep_cases hst).1
      exact ⟨⟨inv_step h.1.1 hc hkernel, carried_step h.1.1 h.1.2 hc hkernel⟩,
        allTimed_step h.1 h.2 hc hst⟩
  exact h.2

/-- **The counters that are logged obey the diagram, and the times are part of the life of the process**,
for every process in every run in which an answered DUMP_MEMORY finds its process in BLOCKED. -/
theorem metrics_of_run {tr : List (Transition MeteredState MeteredEvent)}
    (hr : (meteredKernel cfg now).Run tr s)
    (hc : ∀ x ∈ tr, dumpInPlace x.src.kernel x.label.event = true) :
    ∀ pid ≤ s.kernel.newPid, Counted (s.metrics pid) (s.kernel.states pid) ∧
      Timed (s.metrics pid) (s.kernel.states pid) s.clock := by
  intro pid hpid
  refine ⟨?_, allTimed_of_run hr hc pid hpid⟩
  have hcount := count_eq_visits hr hc hpid
  have hwalk := lifecycle_of_run (kernel_run hr) (by simpa [kernelStep] using hc) pid
  have hstage : s.kernel.stage pid = some (s.kernel.states pid) := if_pos hpid
  have horigin := stage_start cfg pid
  rw [hstage] at hwalk
  constructor
  · rw [hcount]
    exact (hwalk.initial (D := sevenStates) (by intro a; cases a <;> simp [sevenStates, follows])
      horigin).trans (by simp)
  · rw [hcount, hcount]
    simpa using hwalk.count_gate (k := .ready) (m := .exec) (by simp [sevenStates])
      (by intro b; cases b <;> simp [sevenStates, follows])
      (by intro a; cases a <;> simp [sevenStates, follows])
      (by rcases horigin with h | h <;> simp [h, sevenStates])
  · rw [hcount, hcount]
    simpa using hwalk.count_le (k := .blocked) (m := .suspBlocked) (by simp [sevenStates]) (by simp)
      (by intro a; cases a <;> simp [sevenStates, follows])
      (by rcases horigin with h | h <;> simp [h, sevenStates])
  · rw [hcount, hcount]
    simpa using hwalk.count_le (k := .suspBlocked) (m := .suspReady) (by simp [sevenStates]) (by simp)
      (by intro a; cases a <;> simp [sevenStates, follows])
      (by rcases horigin with h | h <;> simp [h, sevenStates])
  · rw [hcount]
    simpa using hwalk.final (k := .exit) (by intro b; cases b <;> simp [sevenStates, follows])

end Runs

/-- The theorem at work: the root process goes once around the diagram, ten milliseconds in each state
but the last. -/
theorem metrics_of_run_suspended :
    ∃ tr s, (meteredKernel oneCpu 1000).Run tr s ∧ (s.metrics 0).count .ready = 2 ∧
      (s.metrics 0).timeMs .ready = 20 ∧ (s.metrics 0).totalMs = 80 ∧ s.clock = 1080 ∧
      Counted (s.metrics 0) .exit ∧ Timed (s.metrics 0) .exit 1080 := by
  obtain ⟨tr, s, hrun, htest⟩ := Lts.exists_run_of_drive (MeteredState.start oneCpu 1000)
    (meteredStep oneCpu) (wholeLife.map fun e => { event := e, readings := [{ elapsed := 10 }] })
    (fun tr s => (tr.all fun x => dumpInPlace x.src.kernel x.label.event) &&
      decide ((s.metrics 0).count .ready = 2 ∧ (s.metrics 0).timeMs .ready = 20 ∧
        (s.metrics 0).totalMs = 80 ∧ s.clock = 1080 ∧ s.kernel.states 0 = .exit))
    (by decide)
  simp only [Bool.and_eq_true, List.all_eq_true, decide_eq_true_eq] at htest
  obtain ⟨hall, hready, htime, htotal, hclock, hexit⟩ := htest
  obtain ⟨hcounted, htimed⟩ := metrics_of_run hrun hall 0 (Nat.zero_le _)
  rw [hexit] at hcounted htimed
  rw [hclock] at htimed
  exact ⟨tr, s, hrun, hready, htime, htotal, hclock, hcounted, htimed⟩

end Tpso.Kernel
