/-
# Suspended processes before new ones

`run_long_scheduler` first brings back processes from SUSP_READY, as long as memoria confirms, and then
admits processes from NEW.  Suspended processes are meant to have priority: a NEW process is admitted
only when no suspended one is waiting.  The first loop has TWO exits, though (no process left, or memoria
refused), and the second loop does not ask which of them was taken: `break` where the comment says
"y terminar".

The scheduler is run here on its own, section by section, with any answers of memoria and any lists to
start with.  It breaks the priority exactly when memoria refuses an UNSUSPEND_PROCESS and then confirms
an INIT_PROCESS (`priority_iff`).
-/
import Tpso.Kernel.Moves

namespace Tpso.Kernel

open Tpso.Lib

/-! ## 1. `run_long_scheduler` on its own -/

/-- The sections of `run_long_scheduler`. -/
def Thread.isLong : Thread → Bool
  | .long _ | .longScan _ _ | .longUnsuspend _ _ _ | .longAnswered _ _ _ _ | .longMove _ _
  | .longLock _ _ | .longNew _ _ | .longCreate _ _ _ => true
  | _ => false

/-- The next section of the scheduler; there is none after it has returned. -/
def longStep (cfg : Config) (s : State × List Thread) (ch : Choice) : Option (State × List Thread) :=
  match s.2 with
  | [t] => if t.isLong then some (nextSection cfg s.1 ch t) else none
  | _ => none

/-- A call of `run_long_scheduler` with no other handler interleaved. -/
def longAlone (cfg : Config) (s₀ : State) (caller : LongCaller) : Lts (State × List Thread) Choice :=
  Lts.ofStep (s₀, [.long caller]) (longStep cfg)

/-- A process is moved from NEW to READY. -/
def Admits (s s' : State) : Prop :=
  ∃ pid, (s.queue .new).count pid = (s'.queue .new).count pid + 1 ∧
    (s'.queue .ready).count pid = (s.queue .ready).count pid + 1

/-- memoria refuses an UNSUSPEND_PROCESS. -/
def refuses (x : Transition (State × List Thread) Choice) : Prop :=
  ∃ pid caller moved, x.src.2 = [.longUnsuspend pid caller moved] ∧ x.label.answer = false

/-- memoria confirms an INIT_PROCESS. -/
def accepts (x : Transition (State × List Thread) Choice) : Prop :=
  ∃ pid caller moved, x.src.2 = [.longCreate pid caller moved] ∧ x.label.answer = true

/-! ## 2. One section -/

section Section

variable {cfg : Config} {s : State} {ch : Choice}

/-- NEW keeps its processes, in whatever order. -/
theorem not_admits_of_perm {s' : State} (h : (s'.queue .new).Perm (s.queue .new)) : ¬ Admits s s' := by
  rintro ⟨pid, hnew, -⟩
  rw [h.count_eq pid] at hnew
  omega

/-- The choice of the next process reorders its list and leaves the others alone. -/
theorem getNextProcessToInitializeFrom_spec (cfg : Config) (st : ProcessState) (order : List Nat)
    (s : State) :
    ((getNextProcessToInitializeFrom cfg st order s).1.queue st).Perm (s.queue st) ∧
      (∀ st', st' ≠ st →
        (getNextProcessToInitializeFrom cfg st order s).1.queue st' = s.queue st') ∧
      (getNextProcessToInitializeFrom cfg st order s).2 =
        ((getNextProcessToInitializeFrom cfg st order s).1.queue st).head? := by
  refine ⟨?_, ?_, rfl⟩
  · obtain ⟨order', heq⟩ := getNextProcessToInitializeFrom_eq s cfg st order
    rw [heq, sortList]
    split
    · rename_i hperm
      simpa using hperm
    · exact List.Perm.refl _
  · intro st' hne
    obtain ⟨order', heq⟩ := getNextProcessToInitializeFrom_eq s cfg st order
    rw [heq, sortList]
    split
    · simp [Function.update_of_ne hne]
    · rfl

/-- The return of the scheduler moves nothing. -/
theorem longReturn_queue (s : State) (caller : LongCaller) (moved : Bool) :
    (longReturn s caller moved).1.queue = s.queue ∧
      ∀ t ∈ (longReturn s caller moved).2, t.isLong = false := by
  cases caller with
  | always => exact ⟨rfl, by simp [longReturn, Thread.isLong]⟩
  | ifMoved =>
    cases moved with
    | true => exact ⟨rfl, by simp [longReturn, Thread.isLong]⟩
    | false => exact ⟨rfl, by simp [longReturn]⟩
  | disconnect socket =>
    cases moved with
    | true => exact ⟨rfl, by simp [longReturn, Thread.isLong]⟩
    | false => exact ⟨rfl, by simp [longReturn]⟩

/-- What the return starts is no section of the scheduler. -/
theorem not_isLong_of_longReturn {caller : LongCaller} {moved : Bool} {u : Thread}
    (h : (longReturn s caller moved).2 = [u]) : ¬ u.isLong = true := by
  have hmem : u ∈ (longReturn s caller moved).2 := by rw [h]; exact List.mem_singleton_self u
  rw [(longReturn_queue s caller moved).2 u hmem]
  exact Bool.false_ne_true

/-- A confirmed INIT_PROCESS of a process that is in NEW admits it. -/
theorem admits_movePcb {pid : Nat} (hpid : pid ∈ s.queue .new) : Admits s (movePcb .new .ready pid s) := by
  refine ⟨pid, ?_, ?_⟩
  · have hpos : 0 < (s.queue .new).count pid := List.count_pos_iff.mpr hpid
    simp only [movePcb, addPcbTo, removePcbFrom]
    rw [Function.update_of_ne (by decide), Function.update_self, List.count_erase_self]
    omega
  · simp only [movePcb, addPcbTo, removePcbFrom]
    rw [Function.update_self, Function.update_of_ne (by decide)]
    simp

/-- **What is known of the scheduler between two sections.**  `R` says that memoria has refused to bring
a process back, `A` that it has confirmed a new one. -/
def Phase (R A : Prop) (s : State) : Thread → Prop
  | .long _ | .longScan _ _ | .longMove _ _ => ¬ R ∧ ¬ A
  | .longUnsuspend pid _ _ => ¬ R ∧ ¬ A ∧ pid ∈ s.queue .suspReady
  | .longAnswered pid success _ _ => (R ↔ success = false) ∧ ¬ A ∧ pid ∈ s.queue .suspReady
  | .longLock _ _ | .longNew _ _ => s.queue .suspReady = [] ↔ ¬ R
  | .longCreate pid _ _ => (s.queue .suspReady = [] ↔ ¬ R) ∧ pid ∈ s.queue .new
  | _ => True

/-- The step of the scheduler that begins in thread `t`. -/
def longTransition (cfg : Config) (s : State) (ch : Choice) (t : Thread) :
    Transition (State × List Thread) Choice := ⟨(s, [t]), ch, nextSection cfg s ch t⟩

/-- A section other than the answer to INIT_PROCESS confirms none. -/
theorem not_accepts {t : Thread} (h : ∀ pid caller moved, t ≠ .longCreate pid caller moved) :
    ¬ accepts (longTransition cfg s ch t) := by
  rintro ⟨pid, caller, moved, ht, -⟩
  exact h pid caller moved (by simpa [longTransition] using ht)

/-- A section other than the answer to UNSUSPEND_PROCESS refuses none. -/
theorem not_refuses {t : Thread} (h : ∀ pid caller moved, t ≠ .longUnsuspend pid caller moved) :
    ¬ refuses (longTransition cfg s ch t) := by
  rintro ⟨pid, caller, moved, ht, -⟩
  exact h pid caller moved (by simpa [longTransition] using ht)

/-- What one section does to the phase: it admits a process exactly when memoria confirms one, and what
is known afterwards is again a phase. -/
def PhaseStep (R A : Prop) (s : State) (x : Transition (State × List Thread) Choice) : Prop :=
  (Admits s x.dst.1 ↔ accepts x) ∧ (accepts x → (s.queue .suspReady = [] ↔ ¬ R)) ∧ (refuses x → ¬ A) ∧
    ∀ u, x.dst.2 = [u] → u.isLong = true → Phase (R ∨ refuses x) (A ∨ accepts x) x.dst.1 u

/-- A section that neither refuses nor confirms, and keeps NEW. -/
theorem PhaseStep.quiet {R A : Prop} {t : Thread}
    (hcreate : ∀ pid caller moved, t ≠ .longCreate pid caller moved)
    (hunsuspend : ∀ pid caller moved, t ≠ .longUnsuspend pid caller moved)
    (hnew : ((nextSection cfg s ch t).1.queue .new).Perm (s.queue .new))
    (hphase : ∀ u, (nextSection cfg s ch t).2 = [u] → u.isLong = true →
      Phase R A (nextSection cfg s ch t).1 u) :
    PhaseStep R A s (longTransition cfg s ch t) := by
  have ha : ¬ accepts (longTransition cfg s ch t) := not_accepts hcreate
  have hr : ¬ refuses (longTransition cfg s ch t) := not_refuses hunsuspend
  refine ⟨⟨fun h => absurd h (not_admits_of_perm hnew), fun h => absurd h ha⟩, fun h => absurd h ha,
    fun h => absurd h hr, ?_⟩
  intro u hu hlong
  simp only [ha, hr, or_false]
  exact hphase u hu hlong

/-- The answer to UNSUSPEND_PROCESS is a refusal or not, and confirms nothing. -/
theorem phaseStep_longUnsuspend {R A : Prop} {pid : Nat} {caller : LongCaller} {moved : Bool}
    (hp : Phase R A s (.longUnsuspend pid caller moved)) :
    PhaseStep R A s (longTransition cfg s ch (.longUnsuspend pid caller moved)) := by
  obtain ⟨hnr, hna, hmem⟩ := hp
  have ha : ¬ accepts (longTransition cfg s ch (.longUnsuspend pid caller moved)) :=
    not_accepts (by simp)
  have hr : refuses (longTransition cfg s ch (.longUnsuspend pid caller moved)) ↔ ch.answer = false := by
    simp [refuses, longTransition]
  refine ⟨⟨fun h => absurd h (not_admits_of_perm (List.Perm.refl _)), fun h => absurd h ha⟩,
    fun h => absurd h ha, fun _ => hna, ?_⟩
  intro u hu _
  obtain rfl : .longAnswered pid ch.answer caller moved = u := by
    simpa [longTransition, nextSection] using hu
  refine ⟨?_, ?_, hmem⟩
  · rw [hr]
    exact ⟨fun h => h.resolve_left hnr, Or.inr⟩
  · rintro (h | h)
    · exact hna h
    · exact ha h

/-- The answer to INIT_PROCESS admits the process when it confirms it. -/
theorem phaseStep_longCreate {R A : Prop} {pid : Nat} {caller : LongCaller} {moved : Bool}
    (hp : Phase R A s (.longCreate pid caller moved)) :
    PhaseStep R A s (longTransition cfg s ch (.longCreate pid caller moved)) := by
  obtain ⟨hiff, hmem⟩ := hp
  have hr : ¬ refuses (longTransition cfg s ch (.longCreate pid caller moved)) :=
    not_refuses (by simp)
  have ha : accepts (longTransition cfg s ch (.longCreate pid caller moved)) ↔ ch.answer = true := by
    simp [accepts, longTransition]
  have hfound : findPcbIn .new pid s = true := by simpa [findPcbIn] using hmem
  cases hans : ch.answer with
  | true =>
    have hdst : nextSection cfg s ch (.longCreate pid caller moved) =
        (movePcb .new .ready pid s, [.longNew caller true]) := by
      simp [nextSection, longCreate, hans, hfound]
    refine ⟨⟨fun _ => ha.mpr hans, fun _ => ?_⟩, fun _ => hiff, fun h => absurd h hr, ?_⟩
    · simp only [longTransition, hdst]
      exact admits_movePcb hmem
    · intro u hu _
      simp only [longTransition, hdst] at hu ⊢
      obtain rfl : .longNew caller true = u := by simpa using hu
      have hsame : (movePcb .new .ready pid s).queue .suspReady = s.queue .suspReady := by
        simp only [movePcb, addPcbTo, removePcbFrom]
        rw [Function.update_of_ne (by decide), Function.update_of_ne (by decide)]
      simp only [Phase, hsame]
      rw [hiff]
      constructor
      · rintro h (h' | h')
        · exact h h'
        · exact hr h'
      · exact fun h h' => h (Or.inl h')
  | false =>
    have hdst : nextSection cfg s ch (.longCreate pid caller moved) = longReturn s caller moved := by
      simp [nextSection, longCreate, hans]
    have hna : ¬ accepts (longTransition cfg s ch (.longCreate pid caller moved)) := by
      rw [ha, hans]
      simp
    refine ⟨⟨fun h => absurd h (not_admits_of_perm ?_), fun h => absurd h hna⟩, fun _ => hiff,
      fun h => absurd h hr, ?_⟩
    · simp only [longTransition, hdst]
      rw [(longReturn_queue s caller moved).1]
    · intro u hu hul
      simp only [longTransition, hdst] at hu
      exact absurd hul (not_isLong_of_longReturn hu)

/-- **Every section is a step from phase to phase.** -/
theorem phaseStep_of_phase {R A : Prop} {t : Thread} (hp : Phase R A s t) (hlong : t.isLong = true) :
    PhaseStep R A s (longTransition cfg s ch t) := by
  cases t with
  | long caller =>
    refine PhaseStep.quiet (by simp) (by simp) ?_ ?_
    · simp only [nextSection]
      split
      · exact List.Perm.refl _
      · rw [(longReturn_queue s caller false).1]
    · intro u hu hul
      simp only [nextSection] at hu ⊢
      split at hu
      · rename_i hcon
        obtain rfl : .longScan caller false = u := by simpa using hu
        exact hp
      · exact absurd hul (not_isLong_of_longReturn hu)
  | longScan caller moved =>
    obtain ⟨hperm, hothers, hhead⟩ := getNextProcessToInitializeFrom_spec cfg .suspReady ch.order s
    refine PhaseStep.quiet (by simp) (by simp) ?_ ?_
    · have hsame := hothers .new (by decide)
      simp only [nextSection, longScan]
      split
      · rename_i s' hnext
        rw [hnext] at hsame
        rw [hsame]
      · rename_i s' q hnext
        rw [hnext] at hsame
        rw [hsame]
    · intro u hu _
      simp only [nextSection, longScan] at hu ⊢
      split at hu
      · rename_i s' hnext
        rw [hnext] at hhead
        obtain rfl : .longLock caller moved = u := by simpa using hu
        have hnil : s'.queue .suspReady = [] := List.head?_eq_none_iff.mp hhead.symm
        exact ⟨fun _ => hp.1, fun _ => hnil⟩
      · rename_i s' q hnext
        rw [hnext] at hhead
        obtain rfl : .longUnsuspend q caller moved = u := by simpa using hu
        exact ⟨hp.1, hp.2, List.mem_of_mem_head? hhead.symm⟩
  | longUnsuspend pid caller moved => exact phaseStep_longUnsuspend hp
  | longAnswered pid success caller moved =>
    obtain ⟨hiff, hna, hmem⟩ := hp
    refine PhaseStep.quiet (by simp) (by simp) ?_ ?_
    · cases success with
      | true =>
        simp only [nextSection, longAnswered, ↓reduceIte, removePcbFrom]
        rw [Function.update_of_ne (by decide)]
      | false => exact List.Perm.refl _
    · intro u hu _
      cases success with
      | true =>
        obtain ⟨popped, rfl⟩ : ∃ popped, .longMove popped caller = u := by
          simp only [nextSection, longAnswered, ↓reduceIte, List.cons.injEq, and_true] at hu
          exact ⟨_, hu⟩
        exact ⟨fun hR => absurd (hiff.mp hR) (by simp), hna⟩
      | false =>
        obtain rfl : .longLock caller moved = u := by simpa [nextSection, longAnswered] using hu
        have hR : R := hiff.mpr rfl
        -- the process that was refused is still there
        refine ⟨fun hnil => absurd hmem (by simp [nextSection, longAnswered] at hnil; simp [hnil]),
          fun hnR => absurd hR hnR⟩
  | longMove popped caller =>
    refine PhaseStep.quiet (by simp) (by simp) ?_ ?_
    · cases popped with
      | none => exact List.Perm.refl _
      | some q =>
        simp only [nextSection, longMove, addPcbTo]
        rw [Function.update_of_ne (by decide)]
    · intro u hu _
      obtain rfl : .longScan caller true = u := by
        cases popped with
        | none => simpa [nextSection, longMove] using hu
        | some q => simpa [nextSection, longMove] using hu
      exact hp
  | longLock caller moved =>
    refine PhaseStep.quiet (by simp) (by simp) (List.Perm.refl _) ?_
    intro u hu _
    obtain rfl : .longNew caller moved = u := by simpa [nextSection] using hu
    exact hp
  | longNew caller moved =>
    obtain ⟨hperm, hothers, hhead⟩ := getNextProcessToInitializeFrom_spec cfg .new ch.order s
    have hsusp := hothers .suspReady (by decide)
    refine PhaseStep.quiet (by simp) (by simp) ?_ ?_
    · simp only [nextSection, longNew]
      split
      · rename_i s' hnext
        rw [hnext] at hperm
        rw [(longReturn_queue s' caller moved).1]
        exact hperm
      · rename_i s' q hnext
        rw [hnext] at hperm
        exact hperm
    · intro u hu hul
      simp only [nextSection, longNew] at hu ⊢
      split at hu
      · rename_i s' hnext
        exact absurd hul (not_isLong_of_longReturn hu)
      · rename_i s' q hnext
        rw [hnext] at hhead hsusp
        obtain rfl : .longCreate q caller moved = u := by simpa using hu
        refine ⟨?_, List.mem_of_mem_head? hhead.symm⟩
        simp only at hsusp ⊢
        rw [hsusp]
        exact hp
  | longCreate pid caller moved => exact phaseStep_longCreate hp
  | _ => simp [Thread.isLong] at hlong

end Section

/-! ## 3. Whole runs of the scheduler -/

/-- memoria has refused to bring a process back, and has confirmed a new one, somewhere in the run. -/
def Refuses (tr : List (Transition (State × List Thread) Choice)) : Prop := ∃ x ∈ tr, refuses x

def Accepts (tr : List (Transition (State × List Thread) Choice)) : Prop := ∃ x ∈ tr, accepts x

theorem refuses_append {tr : List (Transition (State × List Thread) Choice)}
    {x : Transition (State × List Thread) Choice} : Refuses (tr ++ [x]) ↔ Refuses tr ∨ refuses x := by
  simp [Refuses, or_and_right, exists_or]

theorem accepts_append {tr : List (Transition (State × List Thread) Choice)}
    {x : Transition (State × List Thread) Choice} : Accepts (tr ++ [x]) ↔ Accepts tr ∨ accepts x := by
  simp [Accepts, or_and_right, exists_or]

/-- A step of the scheduler is a section of its thread. -/
theorem longStep_eq {cfg : Config} {s s' : State × List Thread} {ch : Choice}
    (h : longStep cfg s ch = some s') :
    ∃ t, s = (s.1, [t]) ∧ t.isLong = true ∧ s' = nextSection cfg s.1 ch t := by
  obtain ⟨k, ts⟩ := s
  unfold longStep at h
  split at h
  · rename_i t ht
    split at h
    · rename_i hlong
      exact ⟨t, by simpa using ht, hlong, (Option.some.inj h).symm⟩
    · exact absurd h (by simp)
  · exact absurd h (by simp)

/-- **The run of the scheduler**: between two sections it is in a phase, the processes admitted are those
memoria confirmed, and each was admitted over an empty SUSP_READY unless memoria had refused. -/
theorem longAlone_run {cfg : Config} {s₀ : State} {caller : LongCaller}
    {tr : List (Transition (State × List Thread) Choice)} {s : State × List Thread}
    (hr : (longAlone cfg s₀ caller).Run tr s) :
    (∀ t, s.2 = [t] → t.isLong = true → Phase (Refuses tr) (Accepts tr) s.1 t) ∧
      ∀ x ∈ tr, (Admits x.src.1 x.dst.1 ↔ accepts x) ∧
        (accepts x → (x.src.1.queue .suspReady = [] ↔ ¬ Refuses tr)) := by
  induction hr with
  | start h0 =>
    obtain rfl := h0
    refine ⟨?_, by simp⟩
    intro t ht _
    obtain rfl : .long caller = t := by simpa using ht
    exact ⟨by simp [Refuses], by simp [Accepts]⟩
  | @step tr s s' ch _ hst ih =>
    obtain ⟨hphase, hall⟩ := ih
    obtain ⟨t, hs, hlong, rfl⟩ := longStep_eq hst
    have hx : (⟨s, ch, nextSection cfg s.1 ch t⟩ : Transition (State × List Thread) Choice) =
        longTransition cfg s.1 ch t := by
      rw [longTransition, ← hs]
    have hstep : PhaseStep (Refuses tr) (Accepts tr) s.1 (longTransition cfg s.1 ch t) :=
      phaseStep_of_phase (hphase t (by rw [hs]) hlong) hlong
    obtain ⟨hadmits, hempty, hnone, hnext⟩ := hstep
    rw [← hx] at hadmits hempty hnone hnext
    refine ⟨?_, ?_⟩
    · intro u hu hul
      rw [refuses_append, accepts_append]
      exact hnext u hu hul
    · intro x hxmem
      rw [refuses_append]
      rcases List.mem_append.mp hxmem with hold | hnew
      · refine ⟨(hall x hold).1, ?_⟩
        intro hacc
        -- nothing is refused any more once a process has been admitted
        have hnr : ¬ refuses _ := fun h => hnone h ⟨x, hold, hacc⟩
        rw [(hall x hold).2 hacc]
        simp [hnr]
      · rw [List.mem_singleton.mp hnew]
        refine ⟨hadmits, ?_⟩
        intro hacc
        have hnr : ¬ refuses (⟨s, ch, nextSection cfg s.1 ch t⟩ :
            Transition (State × List Thread) Choice) := by
          rintro ⟨pid, c, m, hsrc, -⟩
          obtain ⟨pid', c', m', hsrc', -⟩ := hacc
          simp only at hsrc hsrc'
          rw [hsrc] at hsrc'
          simp at hsrc'
        rw [hempty hacc]
        simp [hnr]

/-- **Suspended processes have priority in a run of `run_long_scheduler` exactly when memoria does not, in
that run, refuse to bring a suspended process back and then confirm a new one.** -/
theorem priority_iff {cfg : Config} {s₀ : State} {caller : LongCaller}
    {tr : List (Transition (State × List Thread) Choice)} {s : State × List Thread}
    (hr : (longAlone cfg s₀ caller).Run tr s) :
    (∀ x ∈ tr, Admits x.src.1 x.dst.1 → x.src.1.queue .suspReady = []) ↔
      ¬ (Refuses tr ∧ Accepts tr) := by
  have hall := (longAlone_run hr).2
  constructor
  · rintro hprio ⟨href, x, hx, hacc⟩
    exact ((hall x hx).2 hacc).mp (hprio x hx ((hall x hx).1.mpr hacc)) href
  · intro hnot x hx hadm
    have hacc := (hall x hx).1.mp hadm
    exact ((hall x hx).2 hacc).mpr fun href => hnot ⟨href, x, hx, hacc⟩

/-- A kernel with process 1 in SUSP_READY and process 2 in NEW. -/
def oneSuspendedOneNew : State :=
  { State.start ⟨.fifo, .fifo, false, 1, 0⟩ with
    queue := fun st => if st = .suspReady then [1] else if st = .new then [2] else [] }

/-- The theorem at work on a run in which memoria confirms both. -/
theorem priority_iff_both_confirmed :
    ∃ tr s, (longAlone ⟨.fifo, .fifo, false, 1, 0⟩ oneSuspendedOneNew .ifMoved).Run tr s ∧
      s.1.queue .ready = [1, 2] ∧
      ∀ x ∈ tr, Admits x.src.1 x.dst.1 → x.src.1.queue .suspReady = [] := by
  obtain ⟨tr, s, hrun, htest⟩ := Lts.exists_run_of_drive (oneSuspendedOneNew, [.long .ifMoved])
    (longStep ⟨.fifo, .fifo, false, 1, 0⟩) (List.replicate 9 ({} : Choice))
    (fun tr s => decide (s.1.queue .ready = [1, 2]) && tr.all fun x => x.label.answer) (by decide)
  simp only [Bool.and_eq_true, decide_eq_true_eq, List.all_eq_true] at htest
  refine ⟨tr, s, hrun, htest.1, (priority_iff hrun).mpr ?_⟩
  rintro ⟨⟨x, hx, pid, caller, moved, -, hans⟩, -⟩
  rw [htest.2 x hx] at hans
  exact absurd hans (by simp)

/-- Without the condition the priority is broken: memoria refuses process 1, and process 2 is admitted
while process 1 waits. -/
theorem not_priority_refused :
    ¬ ∀ (cfg : Config) (s₀ : State) (caller : LongCaller)
      (tr : List (Transition (State × List Thread) Choice)) (s : State × List Thread),
      (longAlone cfg s₀ caller).Run tr s →
      ∀ x ∈ tr, Admits x.src.1 x.dst.1 → x.src.1.queue .suspReady = [] := by
  intro hall
  obtain ⟨tr, s, hrun, htest⟩ := Lts.exists_run_of_drive (oneSuspendedOneNew, [.long .ifMoved])
    (longStep ⟨.fifo, .fifo, false, 1, 0⟩)
    [{}, {}, { answer := false }, {}, {}, {}, {}]
    (fun tr _ => tr.any fun x => decide (x.src.1.queue .suspReady = [1]) &&
      decide (x.src.1.queue .new = [2]) && decide (x.dst.1.queue .new = []) &&
      decide (x.src.1.queue .ready = []) && decide (x.dst.1.queue .ready = [2])) (by decide)
  simp only [List.any_eq_true, Bool.and_eq_true, decide_eq_true_eq] at htest
  obtain ⟨x, hx, ⟨⟨⟨hsusp, hnew⟩, hnew'⟩, hready⟩, hready'⟩ := htest
  have := hall _ _ _ tr s hrun x hx ⟨2, by simp [hnew, hnew'], by simp [hready, hready']⟩
  rw [hsusp] at this
  exact absurd this (by simp)

end Tpso.Kernel
