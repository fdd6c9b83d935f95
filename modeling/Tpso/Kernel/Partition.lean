/-
# Every PCB is in exactly one list

Ten handlers move PCBs between seven lists.  All of them but one look for the PCB on the list they
take it from and do nothing when it is not there.  The exception is the second section of
`dump_memory_syscall`, which runs after a remote call: by then an old medium-term timer may have moved
the PCB to SUSP_BLOCKED, and the section adds it to READY (or EXIT) all the same.

The lists are an instance of `Tpso.Lib.Places`: each effect keeps them tidy, apart from the PCB that
`run_long_scheduler` carries from SUSP_READY to READY (`Effect.tidy`).  The process that the
short-term scheduler has selected stays in READY because its thread holds the lock
(`Selected`).  The run theorem is `partition_of_dumpInPlace`.
-/
import Tpso.Kernel.Effects

namespace Tpso.Kernel

open Tpso.Lib

/-! ## 1. The property -/

/-- The PCBs in somebody's hands. -/
def State.transit (s : State) : List Nat := s.threads.flatMap Thread.transit

/-- **The PCB partition.**  Every PCB created is in at most one list, at most once, its
`current_state` names the list, and it is in exactly one when no handler is between removing and
re-adding it. -/
def Partition (s : State) : Prop :=
  ∀ pid ≤ s.newPid,
    (∀ a b, pid ∈ s.queue a → pid ∈ s.queue b → a = b) ∧
    (∀ a, (s.queue a).count pid ≤ 1) ∧
    (∀ a, pid ∈ s.queue a → (s.pcbs pid).currentState = a) ∧
    (pid ∉ s.transit → ∃ a, pid ∈ s.queue a)

/-- The condition on one step: when the second section of `dump_memory_syscall` runs, its PCB is still
in BLOCKED. -/
def dumpInPlace (s : State) : Event → Bool
  | .run i _ =>
    match s.threads[i]? with
    | some (.dumpWait pid) => findPcbIn .blocked pid s
    | _ => true
  | .arrive _ => true

/-! ## 2. The lists after the elementary operations -/

@[simp]
theorem places_removePcbFrom (st : ProcessState) (pid : Nat) (s : State) :
    (removePcbFrom st pid s).places = s.places.take st pid := rfl

@[simp]
theorem places_addPcbTo (st : ProcessState) (pid : Nat) (s : State) :
    (addPcbTo st pid s).places = s.places.put st pid := by
  simp only [State.places, addPcbTo, Places.put, Places.mk.injEq, true_and]
  funext q
  by_cases hq : q = pid
  · simp [hq]
  · simp [hq]

@[simp]
theorem places_addPcbToNew (pid : Nat) (pc size : Int) (s : State) :
    (addPcbToNew pid (pcbCreate pc size) s).places = s.places.put .new pid := by
  simp only [State.places, addPcbToNew, Places.put, Places.mk.injEq, true_and]
  funext q
  by_cases hq : q = pid
  · simp [hq, pcbCreate]
  · simp [hq]

theorem SameCore.places {s s' : State} (h : SameCore s s') : s'.places = s.places := by
  simp only [State.places, h.queue, Places.mk.injEq, true_and]
  exact funext h.state

/-- What tidy means of a kernel state when the PCBs `out` are in somebody's hands. -/
def TidyApart (out : List Nat) (s : State) : Prop := s.places.Tidy out (s.newPid + 1)

section Tidy

variable {s s' : State} {out : List Nat} {pid : Nat}

theorem TidyApart.same (h : TidyApart out s) (hs : SameCore s s') : TidyApart out s' := by
  unfold TidyApart
  rw [hs.places, hs.newPid]
  exact h

theorem TidyApart.move (h : TidyApart out s) {src dst : ProcessState} (hp : pid ∈ s.queue src) :
    TidyApart out (movePcb src dst pid s) := by
  unfold TidyApart movePcb
  rw [places_addPcbTo, places_removePcbFrom]
  exact (h.take hp).put

theorem TidyApart.sortList (h : TidyApart out s) {st : ProcessState} {order : List Nat} :
    TidyApart out (sortList st order s) := by
  unfold Kernel.sortList
  split
  · rename_i hp
    exact Places.Tidy.reorder h hp
  · exact h

theorem TidyApart.setPc (h : TidyApart out s) {q : Nat} {pc : Int} :
    TidyApart out (setPc q pc s) := h.same (SameCore.setPc q pc s)

theorem TidyApart.dispatch (h : TidyApart out s) (cpu : Nat) (hp : pid ∈ s.queue .ready) :
    TidyApart out (dispatch cpu pid s) := by
  have hmove : TidyApart out (movePcb .ready .exec pid s) := h.move hp
  exact hmove

theorem TidyApart.preempt (h : TidyApart out s) (cpu : Nat) (samePid : Bool) (pc : Int) :
    TidyApart out (preempt s cpu samePid pc) := by
  unfold Kernel.preempt
  split
  · exact h
  · split
    · rename_i hfound
      exact h.setPc.move (mem_of_findPcbIn (Bool.and_eq_true_iff.mp hfound).2)
    · exact h

/-- **Each effect keeps the lists tidy.** -/
theorem Effect.tidy {t : Thread} {held held' : List Nat} (he : Effect s t held held' s')
    (h : TidyApart (held ++ out) s) : TidyApart (held' ++ out) s' := by
  cases he with
  | same hs => exact h.same hs
  | move _ hp hs => exact (h.move hp).same hs
  | @fresh pc size _ hs =>
    refine TidyApart.same ?_ hs
    unfold TidyApart
    rw [places_addPcbToNew]
    exact h.fresh.put
  | wasted hmem hs =>
    -- a pid that was never given is on no list
    exact absurd (h.lt .new _ hmem) (lt_irrefl _)
  | sort _ hs => exact h.sortList.same hs
  | take _ hp hs =>
    refine TidyApart.same ?_ hs
    exact Places.Tidy.take h hp
  | @put pid _ hs =>
    refine TidyApart.same ?_ hs
    unfold TidyApart
    rw [places_addPcbTo]
    exact Places.Tidy.put h

end Tidy

/-! ## 3. The selected process -/

/-- The process that a thread inside `run_short_scheduler` has taken from READY without removing it. -/
def Thread.selected : Thread → Option Nat
  | .shortSelected _ _ pid => some pid
  | .shortWait _ _ pid => some pid
  | _ => none

/-- The selected process is still in READY. -/
def Selected (s : State) : Prop :=
  ∀ t ∈ s.threads, ∀ pid, t.selected = some pid → pid ∈ s.queue .ready

/-- While a process is selected, READY is locked. -/
theorem ready_mem_holds {t : Thread} {pid : Nat} (h : t.selected = some pid) :
    Lock.ready ∈ t.holds := by
  cases t with
  | shortSelected caller cpu q => simp [Thread.holds]
  | shortWait caller cpu q => simp [Thread.holds]
  | _ => simp [Thread.selected] at h

theorem longReturn_selected (s : State) (caller : LongCaller) (moved : Bool) :
    ∀ u ∈ (longReturn s caller moved).2, u.selected = none := by
  unfold longReturn
  grind [Thread.selected]

/-- Only the short-term scheduler selects. -/
theorem nextSection_selected (cfg : Config) (s : State) (ch : Choice) {t : Thread}
    (ht : t.isSpecial = false) : ∀ u ∈ (nextSection cfg s ch t).2, u.selected = none := by
  have hlong := longReturn_selected
  cases t <;> simp only [nextSection]
  case initProc => unfold handleInitProcSyscall; grind [Thread.selected]
  case io => unfold handleIoProcessSyscall exitProcessSyscall; grind [Thread.selected]
  case exit => unfold exitProcessSyscall; grind [Thread.selected]
  case dump => unfold dumpMemorySyscall; grind [Thread.selected]
  case newDevice => unfold processNewDevice; grind [Thread.selected]
  case ioCompletion => unfold ioCompletion; grind [Thread.selected]
  case ioDisconnected => unfold ioDisconnected; grind [Thread.selected]
  case pendingIo => unfold AfterPending.threads; grind [Thread.selected]
  case disconnectSusp => unfold handleFoundSuspended; grind [Thread.selected]
  case medium => unfold runMediumScheduler; grind [Thread.selected]
  case longScan => unfold longScan; grind [Thread.selected]
  case longAnswered => unfold longAnswered; grind [Thread.selected]
  case longMove => unfold longMove; grind [Thread.selected]
  case longNew => unfold longNew; grind [Thread.selected]
  case longCreate => unfold longCreate; grind [Thread.selected]
  all_goals grind [Thread.selected, Thread.isSpecial]

theorem mem_queue_sortList {st a : ProcessState} {order : List Nat} {s : State} {q : Nat} :
    q ∈ (sortList st order s).queue a ↔ q ∈ s.queue a := by
  unfold sortList
  split
  · rename_i hp
    by_cases ha : a = st
    · subst ha
      simpa using hp.mem_iff
    · simp [ha]
  · rfl

theorem mem_queue_movePcb {src dst a : ProcessState} {pid q : Nat} {s : State} (ha : a ≠ src)
    (h : q ∈ s.queue a) : q ∈ (movePcb src dst pid s).queue a := by
  have hrem : q ∈ (removePcbFrom src pid s).places.queue a := by
    simpa [State.places, removePcbFrom, ha] using h
  have := Places.mem_queue_put_of_mem (k := dst) (x := pid) hrem
  rwa [← places_addPcbTo] at this

/-- No effect takes anything from READY. -/
theorem Effect.mem_ready {s s' : State} {t : Thread} {held held' : List Nat} {q : Nat}
    (he : Effect s t held held' s') (hq : q ∈ s.queue .ready) : q ∈ s'.queue .ready := by
  cases he with
  | same hs => rwa [hs.queue]
  | move hlegal _ hs =>
    rw [hs.queue]
    exact mem_queue_movePcb (by cases hlegal <;> simp) hq
  | fresh hs => simpa [hs.queue, addPcbToNew] using hq
  | wasted _ hs => rwa [hs.queue]
  | sort _ hs =>
    rw [hs.queue]
    exact mem_queue_sortList.mpr hq
  | take _ _ hs => simpa [hs.queue, removePcbFrom] using hq
  | put hs => simp [hs.queue, addPcbTo, hq]

/-! ## 4. One step -/

/-- What holds along a run: the lists are tidy apart from what is in transit, and the selected process
is in READY. -/
structure Inv (s : State) : Prop where
  tidy : TidyApart s.transit s
  selected : Selected s

/-- The PCBs in transit, seen from one thread. -/
theorem transit_perm {s : State} {t : Thread} {others : List Thread}
    (hp : s.threads.Perm (t :: others)) :
    s.transit.Perm (t.transit ++ others.flatMap Thread.transit) := hp.flatMap_right Thread.transit

/-- The threads after a section, put back together. -/
theorem Inv.of_section {s : State} {others new : List Thread}
    (htidy : TidyApart (new.flatMap Thread.transit ++ others.flatMap Thread.transit) s)
    (hsel : ∀ u ∈ others ++ new, ∀ pid, u.selected = some pid → pid ∈ s.queue .ready) :
    Inv { s with threads := others ++ new } := by
  constructor
  · have hperm : (new.flatMap Thread.transit ++ others.flatMap Thread.transit).Perm
        (State.transit { s with threads := others ++ new }) := by
      simpa [State.transit] using List.perm_append_comm
    exact Places.Tidy.perm htidy hperm
  · exact hsel

/-- With READY in use by a thread, no other has a process selected. -/
theorem not_selected_of_free {t u : Thread} {others : List Thread} {pid : Nat}
    (hfree : t.free others = true) (ht : Lock.ready ∈ t.uses) (hu : u ∈ others) :
    u.selected ≠ some pid :=
  fun hsel => not_holds_of_free hfree hu ht (ready_mem_holds hsel)

/-- **The selected process stays in READY**: a section that takes something from READY needs its lock,
and then nobody else has a process selected. -/
theorem selected_section {cfg : Config} {s : State} {ch : Choice} {t : Thread} {others : List Thread}
    (hs : ∀ u ∈ t :: others, ∀ pid, u.selected = some pid → pid ∈ s.queue .ready)
    (hfree : t.free others = true) :
    ∀ u ∈ others ++ (nextSection cfg s ch t).2, ∀ pid, u.selected = some pid →
      pid ∈ (nextSection cfg s ch t).1.queue .ready := by
  have hlocked : Lock.ready ∈ t.uses → ∀ u ∈ others, ∀ pid, u.selected ≠ some pid :=
    fun hlock u hu pid => not_selected_of_free hfree hlock hu
  intro u hu q hq
  rcases List.mem_append.mp hu with hu | hu
  · cases hspecial : t.isSpecial with
    | false =>
      exact (nextSection_effect cfg s ch hspecial).mem_ready (hs u (List.mem_cons_of_mem _ hu) q hq)
    | true =>
      refine absurd hq (hlocked ?_ u hu q)
      cases t with
      | dumpWait pid => simp [Thread.uses]
      | short caller => simp [Thread.uses]
      | shortSelected caller cpu pid => simp [Thread.uses, Thread.holds]
      | shortWait caller cpu pid => simp [Thread.uses, Thread.holds]
      | _ => simp [Thread.isSpecial] at hspecial
  · cases hspecial : t.isSpecial with
    | false => simp [nextSection_selected cfg s ch hspecial u hu] at hq
    | true =>
      cases t with
      | dumpWait pid =>
        obtain ⟨-, -, -, hthreads | hthreads⟩ := dumpMemoryAnswered_cases s pid ch.answer
        · simp [nextSection, hthreads] at hu
        · obtain rfl : u = .short .plain := by simpa [nextSection, hthreads] using hu
          simp [Thread.selected] at hq
      | short caller =>
        obtain ⟨-, -, -, -, -, hthreads | ⟨cpu, pid, hthreads, -, hmem⟩⟩ := shortSelect_cases cfg s ch caller
        · simp [nextSection, hthreads] at hu
        · obtain rfl : u = .shortSelected caller cpu pid := by simpa [nextSection, hthreads] using hu
          obtain rfl : pid = q := by simpa [Thread.selected] using hq
          exact hmem
      | shortSelected caller cpu pid =>
        have hready : pid ∈ s.queue .ready := hs _ List.mem_cons_self pid rfl
        rcases shortDecide_cases cfg s caller cpu pid ch.preempt with ⟨-, -, hnil⟩ |
          ⟨hsame, hthreads | hthreads⟩
        · simp [nextSection, hnil] at hu
        · simp [nextSection, hthreads] at hu
        · obtain rfl : u = .shortWait caller cpu pid := by simpa [nextSection, hthreads] using hu
          obtain rfl : pid = q := by simpa [Thread.selected] using hq
          show pid ∈ (shortDecide cfg s caller cpu pid ch.preempt).1.queue .ready
          rwa [hsame.queue]
      | shortWait caller cpu pid => simp [nextSection, shortAnswered, (shortReturn_same _ caller).2] at hu
      | _ => simp [Thread.isSpecial] at hspecial

/-- A preemption leaves the selected process in READY. -/
theorem mem_ready_preempt {s : State} {pid : Nat} (h : pid ∈ s.queue .ready) (cpu : Nat) (samePid : Bool)
    (pc : Int) : pid ∈ (preempt s cpu samePid pc).queue .ready := by
  unfold preempt
  split
  · exact h
  · split
    · exact mem_queue_movePcb (by simp) h
    · exact h

/-- **The lists stay tidy**, if the process of an answered DUMP_MEMORY is still in BLOCKED. -/
theorem tidy_section {cfg : Config} {s : State} {ch : Choice} {t : Thread} {out : List Nat}
    (htidy : TidyApart (t.transit ++ out) s) (hsel : ∀ pid, t.selected = some pid → pid ∈ s.queue .ready)
    (hdump : ∀ pid, t = .dumpWait pid → pid ∈ s.queue .blocked) :
    TidyApart ((nextSection cfg s ch t).2.flatMap Thread.transit ++ out) (nextSection cfg s ch t).1 := by
  cases hspecial : t.isSpecial with
  | false => exact (nextSection_effect cfg s ch hspecial).tidy htidy
  | true =>
    cases t with
    | dumpWait pid =>
      obtain ⟨dst, -, hstate, hthreads⟩ := dumpMemoryAnswered_cases s pid ch.answer
      have hnil : (nextSection cfg s ch (.dumpWait pid)).2.flatMap Thread.transit = [] := by
        rcases hthreads with hthreads | hthreads
        · simp [nextSection, hthreads]
        · simp [nextSection, hthreads, Thread.transit]
      rw [hnil]
      show TidyApart _ (dumpMemoryAnswered s pid ch.answer).1
      rw [hstate]
      exact htidy.move (hdump pid rfl)
    | short caller =>
      obtain ⟨s1, execOrder, order, hclear, hsame, hthreads⟩ := shortSelect_cases cfg s ch caller
      have h1 : TidyApart out s1 := by
        rcases hclear with rfl | ⟨cpu, -, rfl⟩
        · exact htidy
        · exact htidy
      have hnil : (nextSection cfg s ch (.short caller)).2.flatMap Thread.transit = [] := by
        rcases hthreads with hthreads | ⟨cpu, pid, hthreads, -, -⟩
        · simp [nextSection, hthreads]
        · simp [nextSection, hthreads, Thread.transit]
      rw [hnil]
      exact h1.sortList.sortList.same hsame
    | shortSelected caller cpu pid =>
      rcases shortDecide_cases cfg s caller cpu pid ch.preempt with ⟨-, hsame, hnil⟩ |
        ⟨hsame, hthreads⟩
      · simp only [nextSection, hnil, List.flatMap_nil, List.nil_append]
        exact (htidy.dispatch cpu (hsel pid rfl)).same hsame
      · have hnil : (nextSection cfg s ch (.shortSelected caller cpu pid)).2.flatMap
            Thread.transit = [] := by
          rcases hthreads with hthreads | hthreads
          · simp [nextSection, hthreads]
          · simp [nextSection, hthreads, Thread.transit]
        rw [hnil]
        exact htidy.same hsame
    | shortWait caller cpu pid =>
      have hsame := shortReturn_same (dispatch cpu pid (preempt s cpu ch.answer ch.pc)) caller
      have hready := mem_ready_preempt (hsel pid rfl) cpu ch.answer ch.pc
      simp only [nextSection, shortAnswered, hsame.2, List.flatMap_nil, List.nil_append]
      exact ((htidy.preempt cpu ch.answer ch.pc).dispatch cpu hready).same hsame.1
    | _ => simp [Thread.isSpecial] at hspecial

theorem inv_run {cfg : Config} {s s' : State} {i : Nat} {ch : Choice} (hs : Inv s)
    (hc : dumpInPlace s (.run i ch) = true) (h : step cfg s (.run i ch) = some s') : Inv s' := by
  obtain ⟨t, others, hget, hperm, hfree, -, rfl⟩ := step_run h
  have hsel : ∀ u ∈ t :: others, ∀ pid, u.selected = some pid → pid ∈ s.queue .ready :=
    fun u hu => hs.selected u (hperm.mem_iff.mpr hu)
  refine Inv.of_section (tidy_section ?_ (hsel t List.mem_cons_self) ?_) (selected_section hsel hfree)
  · exact Places.Tidy.perm hs.tidy (transit_perm hperm)
  · rintro pid rfl
    simp only [dumpInPlace, hget] at hc
    exact mem_of_findPcbIn hc

/-- A handler starts with nothing in its hands and nothing selected. -/
theorem isHandler_facts {handler : Thread} (h : handler.isHandler = true) :
    handler.transit = [] ∧ handler.selected = none := by
  cases handler with
  | longMove popped caller => simp [Thread.isHandler] at h
  | shortSelected caller cpu pid => simp [Thread.isHandler] at h
  | shortWait caller cpu pid => simp [Thread.isHandler] at h
  | _ => exact ⟨rfl, rfl⟩

theorem selected_arrive {s : State} {handler : Thread} (hs : Selected s) (h : handler.isHandler = true) :
    ∀ u ∈ s.threads ++ [handler], ∀ pid, u.selected = some pid → pid ∈ s.queue .ready := by
  intro u hu pid hpid
  rcases List.mem_append.mp hu with hu | hu
  · exact hs u hu pid hpid
  · rw [List.mem_singleton.mp hu, (isHandler_facts h).2] at hpid
    exact absurd hpid (by simp)

/-- A message that arrives adds a thread with nothing in its hands. -/
theorem inv_arrive {cfg : Config} {s s' : State} {handler : Thread} (hs : Inv s)
    (h : step cfg s (.arrive handler) = some s') : Inv s' := by
  obtain ⟨hhandler, rfl⟩ := step_arrive h
  refine Inv.of_section ?_ (selected_arrive hs.selected hhandler)
  simpa [(isHandler_facts hhandler).1, State.transit] using hs.tidy

/-! ## 5. Whole runs -/

theorem inv_start (cfg : Config) : Inv (State.start cfg) := by
  constructor
  · refine ⟨?_, ?_, ?_, by simp [State.transit, State.start, Thread.transit],
      by simp [State.transit, State.start, Thread.transit],
      by simp [State.transit, State.start, Thread.transit], ?_⟩
    · intro k
      by_cases hk : k = .new
      · simp [State.places, State.start, hk]
      · simp [State.places, State.start, hk]
    · intro k x hx
      by_cases hk : k = .new
      · simp [State.places, State.start, hk, pcbCreate]
      · simp [State.places, State.start, hk] at hx
    · intro k x hx
      by_cases hk : k = .new
      · obtain rfl : x = 0 := by simpa [State.places, State.start, hk] using hx
        exact Nat.zero_lt_succ _
      · simp [State.places, State.start, hk] at hx
    · intro x hx
      obtain rfl : x = 0 := Nat.lt_one_iff.mp hx
      exact Or.inr ⟨.new, by simp [State.places, State.start]⟩
  · intro t ht pid hpid
    obtain rfl : t = .long .ifMoved := by simpa [State.start] using ht
    simp [Thread.selected] at hpid

theorem Inv.partition {s : State} (h : Inv s) : Partition s := by
  intro pid hpid
  refine ⟨fun a b ha hb => h.tidy.unique ha hb, ?_, fun a ha => h.tidy.tag_eq a pid ha, ?_⟩
  · intro a
    exact List.nodup_iff_count_le_one.mp (h.tidy.nodup a) pid
  · intro hout
    rcases h.tidy.cover pid (Nat.lt_succ_of_le hpid) with hin | hex
    · exact absurd hin hout
    · exact hex

theorem inv_step {cfg : Config} {s s' : State} {e : Event} (hs : Inv s)
    (hc : dumpInPlace s e = true) (h : step cfg s e = some s') : Inv s' := by
  cases e with
  | arrive handler => exact inv_arrive hs h
  | run i ch => exact inv_run hs hc h

/-- **The PCB partition holds in every state of every run in which `dump_memory_syscall`, whenever its
second section runs, still has its PCB in BLOCKED.** -/
theorem partition_of_dumpInPlace {cfg : Config} {tr : List (Transition State Event)} {s : State}
    (hr : (kernel cfg).Run tr s) (hc : ∀ x ∈ tr, dumpInPlace x.src x.label = true) :
    Partition s ∧ ∀ x ∈ tr, Partition x.src := by
  have h0 : ∀ s, (kernel cfg).init s → Inv s := by
    rintro s rfl
    exact inv_start cfg
  have hstep : ∀ s e s', Inv s → dumpInPlace s e = true → (kernel cfg).step s e s' → Inv s' :=
    fun s e s' hs hc hst => inv_step hs hc hst
  refine ⟨(hr.invariant h0 hstep hc).partition, ?_⟩
  intro x hx
  exact (hr.invariant_steps h0 hstep hc x hx).1.partition

/-- One CPU, FIFO everywhere, no preemption, a root process of 16 bytes. -/
def oneCpu : Config := ⟨.fifo, .fifo, false, 1, 16⟩

/-- The root process is admitted and dispatched: eight sections of one thread. -/
def boot : List Event := List.replicate 8 (.run 0 {})

/-- The theorem at work: the root process dumps its memory and is still in BLOCKED when the answer
comes. -/
theorem partition_of_dumpInPlace_root :
    ∃ tr s, (kernel oneCpu).Run tr s ∧ s.queue .ready = [0] ∧ Partition s := by
  obtain ⟨tr, s, hrun, htest⟩ := Lts.exists_run_of_drive (State.start oneCpu) (step oneCpu)
    (boot ++ [.arrive (.dump 0 1), .run 0 {}, .run 0 {}])
    (fun tr s => decide (s.queue .ready = [0]) && tr.all fun x => dumpInPlace x.src x.label)
    (by decide)
  simp only [Bool.and_eq_true, decide_eq_true_eq, List.all_eq_true] at htest
  exact ⟨tr, s, hrun, htest.1, (partition_of_dumpInPlace hrun htest.2).1⟩

/-- Without the condition the partition is lost.  The root process does an IO, which starts a
medium-term timer; it is dispatched again and asks for a dump; the old timer suspends it before the
answer; and the answer puts it into READY beside SUSP_BLOCKED. -/
theorem not_partition_old_timer :
    ¬ ∀ (cfg : Config) (tr : List (Transition State Event)) (s : State),
      (kernel cfg).Run tr s → Partition s := by
  intro hall
  obtain ⟨tr, s, hrun, htest⟩ := Lts.exists_run_of_drive (State.start oneCpu) (step oneCpu)
    (boot ++
      [.arrive (.newDevice 5 "disk"), .run 0 {},
        -- the IO syscall, its device, and the short-term scheduler that finds nothing
        .arrive (.io 0 1 100 "disk"), .run 0 {}, .run 0 {}, .run 1 {},
        -- the completion, and the dispatch of the process; the timer is thread 0
        .arrive (.ioCompletion 5 "disk" 0), .run 1 {}, .run 1 {}, .run 1 {}, .run 1 {},
        -- the dump, the timer, the answer
        .arrive (.dump 0 2), .run 1 {}, .run 0 {}, .run 0 {}])
    (fun _ s => decide (0 ∈ s.queue .ready ∧ 0 ∈ s.queue .suspBlocked)) (by decide)
  have htwo := of_decide_eq_true htest
  exact absurd ((hall oneCpu tr s hrun 0 (Nat.zero_le _)).1 _ _ htwo.1 htwo.2) (by simp)

end Tpso.Kernel
