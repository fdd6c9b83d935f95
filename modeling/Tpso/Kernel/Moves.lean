/-
# Where a PCB can go in one section

`Effect` says what a section does to the kernel; this module reads it from the side of ONE process:
if it is on a list after a section, it was there before or the thread of the section moved it there
(`mem_queue_after`), and if it was on a list before, it is there afterwards or the thread took it
away (`mem_queue_before`).  The moves of the short-term scheduler and of `dump_memory_syscall` are
among them (`Moves`), so that the systems built around the kernel need to know nothing else about its
lists.

The second half is about processes that a thread has PICKED: `run_long_scheduler` asks memoria about
the first process of SUSP_READY or NEW while it keeps the list locked, so the process is still there
when the answer comes.
-/
import Tpso.Kernel.Partition

namespace Tpso.Kernel

open Tpso.Lib

/-! ## 1. One move -/

section OneMove

variable {s : State} {a b st : ProcessState} {pid q : Nat}

theorem mem_of_mem_movePcb (h : q ∈ (movePcb a b pid s).queue st) :
    q ∈ s.queue st ∨ (q = pid ∧ st = b) := by
  have hput : q ∈ ((s.places.take a pid).put b pid).queue st := by
    rw [← places_removePcbFrom, ← places_addPcbTo]
    exact h
  rcases Places.mem_queue_put hput with htake | hnew
  · exact Or.inl (Places.mem_queue_take htake)
  · exact Or.inr hnew

theorem mem_movePcb_self : pid ∈ (movePcb a b pid s).queue b := by
  simp [movePcb, addPcbTo]

/-- A process that is not the one that moves stays where it is. -/
theorem mem_movePcb_of_ne (hne : q ≠ pid) (h : q ∈ s.queue st) :
    q ∈ (movePcb a b pid s).queue st := by
  have htake : q ∈ (s.places.take a pid).queue st := by
    by_cases hst : st = a
    · subst hst
      simpa [Places.take, State.places] using (List.mem_erase_of_ne hne).mpr h
    · simpa [Places.take, State.places, hst] using h
  have hput := Places.mem_queue_put_of_mem (k := b) (x := pid) htake
  rwa [← places_removePcbFrom, ← places_addPcbTo] at hput

/-- Whether a process is on a list is the same before and after a move, unless it is the one that
moves. -/
theorem mem_movePcb_cases (a b : ProcessState) (pid : Nat) (h : q ∈ s.queue st) :
    q ∈ (movePcb a b pid s).queue st ∨ (q = pid ∧ q ∈ (movePcb a b pid s).queue b) := by
  by_cases hne : q = pid
  · subst hne
    exact Or.inr ⟨rfl, mem_movePcb_self⟩
  · exact Or.inl (mem_movePcb_of_ne hne h)

end OneMove

/-! ## 2. The moves of a section -/

/-- **The moves a thread can make**: those after finding the PCB, the dump's, the dispatch of the
selected process, and the return of a preempted one. -/
inductive Moves (s : State) (ch : Choice) : Thread → ProcessState → ProcessState → Nat → Prop
  | legal {t : Thread} {a b : ProcessState} {pid : Nat} : Legal t a b pid → Moves s ch t a b pid
  | dumped {pid : Nat} : ch.answer = true → Moves s ch (.dumpWait pid) .blocked .ready pid
  | dumpFailed {pid : Nat} : ch.answer = false → Moves s ch (.dumpWait pid) .blocked .exit pid
  | dispatch {t : Thread} {pid : Nat} : t.selected = some pid → Moves s ch t .ready .exec pid
  | preempt {caller : ShortCaller} {cpu pid executing : Nat} : ch.answer = true →
      currentOn s cpu = some executing → Moves s ch (.shortWait caller cpu pid) .exec .ready executing

/-- What it takes for a PCB to be on a list after a section. -/
def Arrived (s : State) (ch : Choice) (t : Thread) (st : ProcessState) (q : Nat) : Prop :=
  q ∈ s.queue st ∨ (∃ a, q ∈ s.queue a ∧ Moves s ch t a st q) ∨
    (st = .new ∧ q = s.newPid + 1) ∨ (st = .ready ∧ q ∈ t.transit)

/-- What becomes of a PCB that was on a list: it is there, it was moved, or it is in the hands of
`run_long_scheduler`. -/
def Departed (s : State) (ch : Choice) (t : Thread) (s' : State) (st : ProcessState) (q : Nat) :
    Prop :=
  q ∈ s'.queue st ∨ (∃ b, Moves s ch t st b q ∧ q ∈ s'.queue b) ∨
    (st = .suspReady ∧ ∃ caller moved, t = .longAnswered q true caller moved)

section Effects

variable {s s' : State} {t : Thread} {ch : Choice} {st : ProcessState} {q : Nat}

theorem Effect.arrived {held' : List Nat} (he : Effect s t t.transit held' s')
    (h : q ∈ s'.queue st) : Arrived s ch t st q := by
  generalize hheld : t.transit = held at he
  cases he with
  | same hs => exact Or.inl (by rwa [hs.queue] at h)
  | @move a b pid _ hlegal hp hs =>
    rw [hs.queue] at h
    rcases mem_of_mem_movePcb h with hold | ⟨rfl, rfl⟩
    · exact Or.inl hold
    · exact Or.inr (Or.inl ⟨a, hp, .legal hlegal⟩)
  | @fresh pc size _ hs =>
    rw [hs.queue] at h
    have hput : q ∈ (s.places.put .new (s.newPid + 1)).queue st := by
      rw [← places_addPcbToNew (s.newPid + 1) pc size s]
      exact h
    rcases Places.mem_queue_put hput with hold | ⟨rfl, rfl⟩
    · exact Or.inl hold
    · exact Or.inr (Or.inr (Or.inl ⟨rfl, rfl⟩))
  | wasted _ hs => exact Or.inl (by rwa [hs.queue] at h)
  | sort _ hs =>
    rw [hs.queue] at h
    exact Or.inl (mem_queue_sortList.mp h)
  | take _ _ hs =>
    rw [hs.queue] at h
    exact Or.inl (Places.mem_queue_take (s := s.places) h)
  | @put pid _ hs =>
    rw [hs.queue] at h
    have hput : q ∈ (s.places.put .ready pid).queue st := by
      rw [← places_addPcbTo]
      exact h
    rcases Places.mem_queue_put hput with hold | ⟨rfl, rfl⟩
    · exact Or.inl hold
    · exact Or.inr (Or.inr (Or.inr ⟨rfl, by simp [hheld]⟩))

theorem Effect.departed {held held' : List Nat} (he : Effect s t held held' s')
    (h : q ∈ s.queue st) (hunique : ∀ a, q ∈ s.queue a → a = st) : Departed s ch t s' st q := by
  cases he with
  | same hs => exact Or.inl (by rwa [hs.queue])
  | @move a b pid _ hlegal hp hs =>
    simp only [Departed, hs.queue]
    rcases mem_movePcb_cases a b pid h with hstay | ⟨rfl, hmoved⟩
    · exact Or.inl hstay
    · obtain rfl := hunique a hp
      exact Or.inr (Or.inl ⟨b, .legal hlegal, hmoved⟩)
  | fresh hs =>
    refine Or.inl ?_
    rw [hs.queue]
    by_cases hst : st = .new
    · subst hst
      simp [addPcbToNew, h]
    · simpa [addPcbToNew, hst] using h
  | wasted _ hs => exact Or.inl (by rwa [hs.queue])
  | sort _ hs => exact Or.inl (by rw [hs.queue]; exact mem_queue_sortList.mpr h)
  | @take pid caller moved _ ht hp hs =>
    by_cases hq : q = pid
    · subst hq
      exact Or.inr (Or.inr ⟨(hunique _ hp).symm, caller, moved, ht⟩)
    · refine Or.inl ?_
      rw [hs.queue]
      by_cases hst : st = .suspReady
      · subst hst
        simpa [removePcbFrom] using (List.mem_erase_of_ne hq).mpr h
      · simpa [removePcbFrom, hst] using h
  | put hs =>
    refine Or.inl ?_
    rw [hs.queue]
    by_cases hst : st = .ready
    · subst hst
      simp [addPcbTo, h]
    · simpa [addPcbTo, hst] using h

end Effects

/-! ## 3. The short-term scheduler -/

section Short

variable {s : State} {ch : Choice} {st : ProcessState} {q cpu pid : Nat} {caller : ShortCaller}

theorem mem_queue_shortSelect (cfg : Config) :
    q ∈ (shortSelect cfg s ch caller).1.queue st ↔ q ∈ s.queue st := by
  obtain ⟨s1, execOrder, order, hclear, hsame, -⟩ := shortSelect_cases cfg s ch caller
  have h1 : s1.queue = s.queue := by
    rcases hclear with rfl | ⟨cpu, -, rfl⟩
    · rfl
    · rfl
  rw [hsame.queue, mem_queue_sortList, mem_queue_sortList, h1]

theorem mem_queue_dispatch (cpu pid : Nat) (s : State) :
    (dispatch cpu pid s).queue = (movePcb .ready .exec pid s).queue := rfl

/-- The preemption moves the process that the CPU carries, or nothing. -/
theorem preempt_queue (s : State) (cpu : Nat) (ch : Choice) :
    (preempt s cpu ch.answer ch.pc).queue = s.queue ∨
    ∃ executing, ch.answer = true ∧ currentOn s cpu = some executing ∧ executing ∈ s.queue .exec ∧
      (preempt s cpu ch.answer ch.pc).queue = (movePcb .exec .ready executing s).queue := by
  unfold preempt
  split
  · exact Or.inl rfl
  · rename_i executing hcur
    split
    · rename_i hok
      have hok := Bool.and_eq_true_iff.mp hok
      exact Or.inr ⟨executing, hok.1, hcur, mem_of_findPcbIn hok.2, rfl⟩
    · exact Or.inl rfl

theorem shortWait_arrived (hready : pid ∈ s.queue .ready)
    (h : q ∈ (shortAnswered s caller cpu pid ch.answer ch.pc).1.queue st) :
    Arrived s ch (.shortWait caller cpu pid) st q := by
  have hsame := shortReturn_same (dispatch cpu pid (preempt s cpu ch.answer ch.pc)) caller
  simp only [shortAnswered, hsame.1.queue, mem_queue_dispatch] at h
  rcases mem_of_mem_movePcb h with hmid | ⟨rfl, rfl⟩
  · rcases preempt_queue s cpu ch with heq | ⟨executing, hans, hcur, hexec, heq⟩
    · exact Or.inl (by rwa [heq] at hmid)
    · rw [heq] at hmid
      rcases mem_of_mem_movePcb hmid with hold | ⟨rfl, rfl⟩
      · exact Or.inl hold
      · exact Or.inr (Or.inl ⟨.exec, hexec, .preempt hans hcur⟩)
  · exact Or.inr (Or.inl ⟨.ready, hready, .dispatch rfl⟩)

theorem shortWait_departed (hready : pid ∈ s.queue .ready)
    (hunique : ∀ x a b, x ∈ s.queue a → x ∈ s.queue b → a = b) (h : q ∈ s.queue st) :
    Departed s ch (.shortWait caller cpu pid)
      (shortAnswered s caller cpu pid ch.answer ch.pc).1 st q := by
  have hsame := shortReturn_same (dispatch cpu pid (preempt s cpu ch.answer ch.pc)) caller
  simp only [Departed, shortAnswered, hsame.1.queue, mem_queue_dispatch]
  -- where the process is between the two moves
  rcases preempt_queue s cpu ch with heq | ⟨executing, hans, hcur, hexec, heq⟩
  · have hmid : q ∈ (preempt s cpu ch.answer ch.pc).queue st := by rwa [heq]
    rcases mem_movePcb_cases .ready .exec pid hmid with hstay | ⟨rfl, hmoved⟩
    · exact Or.inl hstay
    · obtain rfl := hunique q st .ready h hready
      exact Or.inr (Or.inl ⟨.exec, .dispatch rfl, hmoved⟩)
  · have hne : executing ≠ pid := by
      rintro rfl
      exact absurd (hunique _ _ _ hready hexec) (by simp)
    have hmid := mem_movePcb_cases .exec .ready executing h
    rw [← heq] at hmid
    rcases hmid with hmid | ⟨rfl, hmid⟩
    · rcases mem_movePcb_cases .ready .exec pid hmid with hstay | ⟨rfl, hmoved⟩
      · exact Or.inl hstay
      · obtain rfl := hunique q st .ready h hready
        exact Or.inr (Or.inl ⟨.exec, .dispatch rfl, hmoved⟩)
    · obtain rfl := hunique q st .exec h hexec
      exact Or.inr (Or.inl ⟨.ready, .preempt hans hcur, mem_movePcb_of_ne hne hmid⟩)

end Short

/-! ## 4. Every section -/

section Sections

variable {cfg : Config} {s : State} {ch : Choice} {t : Thread} {st : ProcessState} {q : Nat}

/-- What a section may rely on: its selected process is in READY, and a dump's PCB is in BLOCKED. -/
structure InPlace (s : State) (t : Thread) : Prop where
  selected : ∀ pid, t.selected = some pid → pid ∈ s.queue .ready
  dump : ∀ pid, t = .dumpWait pid → pid ∈ s.queue .blocked

/-- **A PCB on a list after a section was there before or was moved there by its thread.** -/
theorem mem_queue_after (hplace : InPlace s t) (h : q ∈ (nextSection cfg s ch t).1.queue st) :
    Arrived s ch t st q := by
  cases hspecial : t.isSpecial with
  | false => exact (nextSection_effect cfg s ch hspecial).arrived h
  | true =>
    cases t with
    | dumpWait pid =>
      have hp := hplace.dump pid rfl
      cases hans : ch.answer with
      | true =>
        simp only [nextSection, hans] at h
        rcases mem_of_mem_movePcb (a := .blocked) (b := .ready) h with hold | ⟨rfl, rfl⟩
        · exact Or.inl hold
        · exact Or.inr (Or.inl ⟨.blocked, hp, .dumped hans⟩)
      | false =>
        simp only [nextSection, hans] at h
        rcases mem_of_mem_movePcb (a := .blocked) (b := .exit) h with hold | ⟨rfl, rfl⟩
        · exact Or.inl hold
        · exact Or.inr (Or.inl ⟨.blocked, hp, .dumpFailed hans⟩)
    | short caller => exact Or.inl ((mem_queue_shortSelect cfg).mp h)
    | shortSelected caller cpu pid =>
      have hp := hplace.selected pid rfl
      rcases shortDecide_cases cfg s caller cpu pid ch.preempt with ⟨-, hsame, -⟩ | ⟨hsame, -⟩
      · have h : q ∈ (movePcb .ready .exec pid s).queue st := by
          rw [← mem_queue_dispatch cpu, ← hsame.queue]
          exact h
        rcases mem_of_mem_movePcb h with hold | ⟨rfl, rfl⟩
        · exact Or.inl hold
        · exact Or.inr (Or.inl ⟨.ready, hp, .dispatch rfl⟩)
      · exact Or.inl (by rw [← hsame.queue]; exact h)
    | shortWait caller cpu pid => exact shortWait_arrived (hplace.selected pid rfl) h
    | _ => simp [Thread.isSpecial] at hspecial

/-- **A PCB on a list before a section is there afterwards or was moved by its thread.** -/
theorem mem_queue_before (hplace : InPlace s t)
    (hunique : ∀ x a b, x ∈ s.queue a → x ∈ s.queue b → a = b) (h : q ∈ s.queue st) :
    Departed s ch t (nextSection cfg s ch t).1 st q := by
  cases hspecial : t.isSpecial with
  | false =>
    exact (nextSection_effect cfg s ch hspecial).departed h fun a ha => hunique q a st ha h
  | true =>
    cases t with
    | dumpWait pid =>
      have hp := hplace.dump pid rfl
      cases hans : ch.answer with
      | true =>
        have hcases := mem_movePcb_cases .blocked .ready pid h
        simp only [Departed, nextSection, hans]
        rcases hcases with hstay | ⟨rfl, hmoved⟩
        · exact Or.inl hstay
        · obtain rfl := hunique q st .blocked h hp
          exact Or.inr (Or.inl ⟨.ready, .dumped hans, hmoved⟩)
      | false =>
        have hcases := mem_movePcb_cases .blocked .exit pid h
        simp only [Departed, nextSection, hans]
        rcases hcases with hstay | ⟨rfl, hmoved⟩
        · exact Or.inl hstay
        · obtain rfl := hunique q st .blocked h hp
          exact Or.inr (Or.inl ⟨.exit, .dumpFailed hans, hmoved⟩)
    | short caller => exact Or.inl ((mem_queue_shortSelect cfg).mpr h)
    | shortSelected caller cpu pid =>
      have hp := hplace.selected pid rfl
      simp only [Departed, nextSection]
      rcases shortDecide_cases cfg s caller cpu pid ch.preempt with ⟨-, hsame, -⟩ | ⟨hsame, -⟩
      · simp only [hsame.queue, mem_queue_dispatch]
        rcases mem_movePcb_cases .ready .exec pid h with hstay | ⟨rfl, hmoved⟩
        · exact Or.inl hstay
        · obtain rfl := hunique q st .ready h hp
          exact Or.inr (Or.inl ⟨.exec, .dispatch rfl, hmoved⟩)
      · exact Or.inl (by rwa [hsame.queue])
    | shortWait caller cpu pid =>
      exact shortWait_departed (hplace.selected pid rfl) hunique h
    | _ => simp [Thread.isSpecial] at hspecial

end Sections

/-- The condition on dumps and the invariant of the lists give the section what it relies on. -/
theorem Inv.inPlace {s : State} {i : Nat} {ch : Choice} {t : Thread} (hs : Inv s)
    (hc : dumpInPlace s (.run i ch) = true) (hget : s.threads[i]? = some t) : InPlace s t := by
  constructor
  · intro pid hsel
    exact hs.selected t (List.mem_of_getElem? hget) pid hsel
  · rintro pid rfl
    simp only [dumpInPlace, hget] at hc
    exact mem_of_findPcbIn hc

/-! ## 5. Sizes and pids -/

section Sizes

variable {s s' : State} {q : Nat}

theorem size_addPcbTo (st : ProcessState) (pid : Nat) (s : State) :
    ((addPcbTo st pid s).pcbs q).size = (s.pcbs q).size := by
  by_cases hq : q = pid
  · simp [addPcbTo, hq]
  · simp [addPcbTo, hq]

theorem sortList_eq (st : ProcessState) (order : List Nat) (s : State) :
    (sortList st order s).pcbs = s.pcbs ∧ (sortList st order s).newPid = s.newPid := by
  unfold sortList
  split
  · exact ⟨rfl, rfl⟩
  · exact ⟨rfl, rfl⟩

/-- The size of a process that exists does not change, and pids are only added. -/
structure Grows (s s' : State) : Prop where
  size : ∀ q ≤ s.newPid, (s'.pcbs q).size = (s.pcbs q).size
  newPid : s.newPid ≤ s'.newPid

theorem Grows.trans {s'' : State} (h : Grows s s') (h' : Grows s' s'') : Grows s s'' where
  size q hq := (h'.size q (hq.trans h.newPid)).trans (h.size q hq)
  newPid := h.newPid.trans h'.newPid

theorem SameCore.grows (h : SameCore s s') : Grows s s' := ⟨fun q _ => h.size q, h.newPid.ge⟩

theorem Grows.addPcbTo (st : ProcessState) (pid : Nat) (s : State) : Grows s (addPcbTo st pid s) :=
  ⟨fun _ _ => size_addPcbTo st pid s, le_refl _⟩

theorem Grows.movePcb (a b : ProcessState) (pid : Nat) (s : State) : Grows s (movePcb a b pid s) :=
  ⟨(Grows.addPcbTo b pid (removePcbFrom a pid s)).size, le_refl _⟩

theorem Grows.dispatch (cpu pid : Nat) (s : State) : Grows s (dispatch cpu pid s) :=
  ⟨(Grows.movePcb .ready .exec pid s).size, le_refl _⟩

theorem Grows.sortList (st : ProcessState) (order : List Nat) (s : State) :
    Grows s (sortList st order s) :=
  ⟨fun q _ => by rw [(sortList_eq st order s).1], (sortList_eq st order s).2.ge⟩

theorem Grows.preempt (s : State) (cpu : Nat) (samePid : Bool) (pc : Int) :
    Grows s (preempt s cpu samePid pc) := by
  unfold Kernel.preempt
  split
  · exact (SameCore.refl s).grows
  · split
    · exact (SameCore.setPc _ pc s).grows.trans (Grows.movePcb _ _ _ _)
    · exact (SameCore.refl s).grows

theorem Effect.grows {t : Thread} {held held' : List Nat} (he : Effect s t held held' s') :
    Grows s s' := by
  cases he with
  | same hs => exact hs.grows
  | move _ _ hs => exact (Grows.movePcb _ _ _ s).trans hs.grows
  | @fresh pc size _ hs =>
    refine Grows.trans ⟨?_, Nat.le_succ _⟩ hs.grows
    intro q hq
    have hne : q ≠ s.newPid + 1 := by omega
    simp [addPcbToNew, hne]
  | wasted _ hs => exact ⟨fun q _ => hs.size q, hs.newPid ▸ Nat.le_succ _⟩
  | sort _ hs => exact (Grows.sortList _ _ s).trans hs.grows
  | take _ _ hs => exact ⟨fun q _ => hs.size q, hs.newPid.ge⟩
  | put hs => exact (Grows.addPcbTo _ _ s).trans hs.grows

/-- **No section changes the size of a process or takes a pid back.** -/
theorem nextSection_grows (cfg : Config) (s : State) (ch : Choice) (t : Thread) :
    Grows s (nextSection cfg s ch t).1 := by
  cases hspecial : t.isSpecial with
  | false => exact (nextSection_effect cfg s ch hspecial).grows
  | true =>
    cases t with
    | dumpWait pid =>
      obtain ⟨dst, -, hstate, -⟩ := dumpMemoryAnswered_cases s pid ch.answer
      show Grows s (dumpMemoryAnswered s pid ch.answer).1
      rw [hstate]
      exact Grows.movePcb _ _ _ s
    | short caller =>
      obtain ⟨s1, execOrder, order, hclear, hsame, -⟩ := shortSelect_cases cfg s ch caller
      have h1 : Grows s s1 := by
        rcases hclear with rfl | ⟨cpu, -, rfl⟩
        · exact (SameCore.refl s1).grows
        · exact ⟨fun _ _ => rfl, le_refl _⟩
      exact ((h1.trans (Grows.sortList _ _ s1)).trans (Grows.sortList _ _ _)).trans hsame.grows
    | shortSelected caller cpu pid =>
      rcases shortDecide_cases cfg s caller cpu pid ch.preempt with ⟨-, hsame, -⟩ | ⟨hsame, -⟩
      · exact (Grows.dispatch cpu pid s).trans hsame.grows
      · exact hsame.grows
    | shortWait caller cpu pid =>
      have hsame := shortReturn_same (dispatch cpu pid (preempt s cpu ch.answer ch.pc)) caller
      exact ((Grows.preempt s cpu ch.answer ch.pc).trans (Grows.dispatch cpu pid _)).trans
        hsame.1.grows
    | _ => simp [Thread.isSpecial] at hspecial

end Sizes

/-! ## 6. Picked processes -/

/-- The process that `run_long_scheduler` has asked memoria about, with the list it keeps locked. -/
def Thread.picked : Thread → Option (ProcessState × Nat)
  | .longUnsuspend pid _ _ => some (.suspReady, pid)
  | .longAnswered pid _ _ _ => some (.suspReady, pid)
  | .longCreate pid _ _ => some (.new, pid)
  | _ => none

/-- The process that a run of `run_medium_scheduler` has put into SUSP_BLOCKED, until the SWAP is done
or its failure dealt with. -/
def Thread.suspends : Thread → Option Nat
  | .mediumSwap pid => some pid
  | .mediumSent pid => some pid
  | .mediumAnswered pid false => some pid
  | _ => none

/-- A picked process is still on the list it was picked from. -/
def Picked (s : State) : Prop :=
  ∀ t ∈ s.threads, ∀ st pid, t.picked = some (st, pid) → pid ∈ s.queue st

/-- Who takes a process from the list of a picked one needs a lock that the picking thread holds. -/
theorem not_taken_of_picked {t u : Thread} {others : List Thread} {st : ProcessState} {q : Nat}
    (hfree : t.free others = true) (hu : u ∈ others) (hpick : u.picked = some (st, q)) {s s' : State}
    {ch : Choice} (h : Departed s ch t s' st q) : q ∈ s'.queue st := by
  -- the two kinds of lists, with the lock that is held
  have hlock : (st = .suspReady ∧ Lock.suspReady ∈ u.holds) ∨ (st = .new ∧ Lock.new ∈ u.holds) := by
    cases u with
    | longUnsuspend pid caller moved =>
      simp only [Thread.picked, Option.some.injEq, Prod.mk.injEq] at hpick
      exact Or.inl ⟨hpick.1.symm, by simp [Thread.holds]⟩
    | longAnswered pid success caller moved =>
      simp only [Thread.picked, Option.some.injEq, Prod.mk.injEq] at hpick
      exact Or.inl ⟨hpick.1.symm, by simp [Thread.holds]⟩
    | longCreate pid caller moved =>
      simp only [Thread.picked, Option.some.injEq, Prod.mk.injEq] at hpick
      exact Or.inr ⟨hpick.1.symm, by simp [Thread.holds]⟩
    | _ => simp [Thread.picked] at hpick
  rcases h with hstay | ⟨b, hmove, -⟩ | ⟨rfl, caller, moved, rfl⟩
  · exact hstay
  · rcases hlock with ⟨rfl, -⟩ | ⟨rfl, hnew⟩
    · cases hmove with
      | legal hlegal => cases hlegal
    · cases hmove with
      | legal hlegal =>
        cases hlegal with
        | admitted => exact absurd hnew (not_holds_of_free hfree hu (by simp [Thread.uses, Thread.holds]))
  · rcases hlock with ⟨-, hsusp⟩ | ⟨hst, -⟩
    · exact absurd hsusp (not_holds_of_free hfree hu (by simp [Thread.uses, Thread.holds]))
    · exact absurd hst (by simp)

/-- A thread that has picked nothing, suspends nothing and has nothing in its hands. -/
def Thread.idle (u : Thread) : Prop := u.picked = none ∧ u.suspends = none ∧ u.transit = []

theorem longReturn_idle (s : State) (caller : LongCaller) (moved : Bool) :
    ∀ u ∈ (longReturn s caller moved).2, u.idle := by
  unfold longReturn
  grind [Thread.idle, Thread.picked, Thread.suspends, Thread.transit]

/-- The sections that hand a process on to the thread that continues them. -/
def Thread.handsOn : Thread → Bool
  | .medium _ | .mediumSwap _ | .mediumSent _ | .longScan _ _ | .longUnsuspend _ _ _
  | .longAnswered _ _ _ _ | .longNew _ _ => true
  | _ => false

/-- **All other sections leave idle threads.** -/
theorem nextSection_idle (cfg : Config) (s : State) (ch : Choice) {t : Thread}
    (ht : t.handsOn = false) : ∀ u ∈ (nextSection cfg s ch t).2, u.idle := by
  have hlong := longReturn_idle
  cases t with
  | initProc callerPid callerPc size =>
    simp only [nextSection, handleInitProcSyscall]
    grind [Thread.idle, Thread.picked, Thread.suspends, Thread.transit]
  | io pid pc sleepTime deviceName =>
    simp only [nextSection, handleIoProcessSyscall, exitProcessSyscall]
    grind [Thread.idle, Thread.picked, Thread.suspends, Thread.transit]
  | exit pid =>
    simp only [nextSection, exitProcessSyscall]
    grind [Thread.idle, Thread.picked, Thread.suspends, Thread.transit]
  | dump pid pc =>
    simp only [nextSection, dumpMemorySyscall]
    grind [Thread.idle, Thread.picked, Thread.suspends, Thread.transit]
  | newDevice socket deviceName =>
    simp only [nextSection, processNewDevice]
    grind [Thread.idle, Thread.picked, Thread.suspends, Thread.transit]
  | ioCompletion socket deviceName pid =>
    simp only [nextSection, ioCompletion]
    grind [Thread.idle, Thread.picked, Thread.suspends, Thread.transit]
  | ioDisconnected socket =>
    simp only [nextSection, ioDisconnected]
    grind [Thread.idle, Thread.picked, Thread.suspends, Thread.transit]
  | dumpWait pid =>
    simp only [nextSection, dumpMemoryAnswered]
    grind [Thread.idle, Thread.picked, Thread.suspends, Thread.transit]
  | pendingIo deviceName socket after =>
    simp only [nextSection, AfterPending.threads]
    grind [Thread.idle, Thread.picked, Thread.suspends, Thread.transit]
  | disconnectSusp socket pid =>
    simp only [nextSection, handleFoundSuspended]
    grind [Thread.idle, Thread.picked, Thread.suspends, Thread.transit]
  | longMove popped caller =>
    simp only [nextSection, longMove]
    grind [Thread.idle, Thread.picked, Thread.suspends, Thread.transit]
  | longCreate pid caller moved =>
    simp only [nextSection, longCreate]
    grind [Thread.idle, Thread.picked, Thread.suspends, Thread.transit]
  | short caller =>
    obtain ⟨-, -, -, -, -, hthreads⟩ := shortSelect_cases cfg s ch caller
    rcases hthreads with hthreads | ⟨cpu, pid, hthreads, -, -⟩
    · simp [nextSection, hthreads]
    · simp [nextSection, hthreads, Thread.idle, Thread.picked, Thread.suspends, Thread.transit]
  | shortSelected caller cpu pid =>
    rcases shortDecide_cases cfg s caller cpu pid ch.preempt with ⟨-, -, hnil⟩ |
      ⟨-, hthreads | hthreads⟩
    · simp [nextSection, hnil]
    · simp [nextSection, hthreads]
    · simp [nextSection, hthreads, Thread.idle, Thread.picked, Thread.suspends, Thread.transit]
  | shortWait caller cpu pid => simp [nextSection, shortAnswered, (shortReturn_same _ caller).2]
  | mediumAnswered pid success =>
    simp only [nextSection]
    grind [Thread.idle, Thread.picked, Thread.suspends, Thread.transit]
  | long caller =>
    simp only [nextSection]
    grind [Thread.idle, Thread.picked, Thread.suspends, Thread.transit]
  | longLock caller moved =>
    simp only [nextSection]
    grind [Thread.idle, Thread.picked, Thread.suspends, Thread.transit]
  | _ => simp [Thread.handsOn] at ht

/-- The next process to initialize is on its list. -/
theorem mem_of_getNextProcessToInitializeFrom {cfg : Config} {st : ProcessState} {order : List Nat}
    {s s' : State} {q : Nat} (h : getNextProcessToInitializeFrom cfg st order s = (s', some q)) :
    q ∈ s'.queue st := by
  obtain ⟨hs, hhead⟩ := Prod.mk.inj h
  rw [hs] at hhead
  exact List.mem_of_mem_head? (by rw [hhead]; rfl)

theorem longScan_picked (cfg : Config) (s : State) (order : List Nat) (caller : LongCaller)
    (moved : Bool) : ∀ u ∈ (longScan cfg s order caller moved).2, ∀ st pid,
      u.picked = some (st, pid) → pid ∈ (longScan cfg s order caller moved).1.queue st := by
  intro u hu st pid hpick
  unfold longScan at hu ⊢
  split at hu
  · rename_i hnone
    obtain rfl : u = .longLock caller moved := by simpa using hu
    simp [Thread.picked] at hpick
  · rename_i s' q hsome
    obtain rfl : u = .longUnsuspend q caller moved := by simpa using hu
    simp only [Thread.picked, Option.some.injEq, Prod.mk.injEq] at hpick
    obtain ⟨rfl, rfl⟩ := hpick
    exact mem_of_getNextProcessToInitializeFrom hsome

theorem longNew_picked (cfg : Config) (s : State) (order : List Nat) (caller : LongCaller)
    (moved : Bool) : ∀ u ∈ (longNew cfg s order caller moved).2, ∀ st pid,
      u.picked = some (st, pid) → pid ∈ (longNew cfg s order caller moved).1.queue st := by
  intro u hu st pid hpick
  unfold longNew at hu ⊢
  split at hu
  · rename_i s' hnone
    rw [(longReturn_idle _ _ _ u hu).1] at hpick
    exact absurd hpick (by simp)
  · rename_i s' q hsome
    obtain rfl : u = .longCreate q caller moved := by simpa using hu
    simp only [Thread.picked, Option.some.injEq, Prod.mk.injEq] at hpick
    obtain ⟨rfl, rfl⟩ := hpick
    exact mem_of_getNextProcessToInitializeFrom hsome

/-- **What the threads that continue a section have picked is on its list.** -/
theorem nextSection_picked (cfg : Config) (s : State) (ch : Choice) {t : Thread}
    (ht : ∀ st pid, t.picked = some (st, pid) → pid ∈ s.queue st) :
    ∀ u ∈ (nextSection cfg s ch t).2, ∀ st pid, u.picked = some (st, pid) →
      pid ∈ (nextSection cfg s ch t).1.queue st := by
  -- a thread that has picked nothing
  have hnone : (∀ u ∈ (nextSection cfg s ch t).2, u.picked = none) →
      ∀ u ∈ (nextSection cfg s ch t).2, ∀ st pid, u.picked = some (st, pid) →
        pid ∈ (nextSection cfg s ch t).1.queue st := by
    intro h u hu st pid hpick
    rw [h u hu] at hpick
    exact absurd hpick (by simp)
  cases hhands : t.handsOn with
  | false => exact hnone fun u hu => (nextSection_idle cfg s ch hhands u hu).1
  | true =>
    cases t with
    | longScan caller moved => exact longScan_picked cfg s ch.order caller moved
    | longNew caller moved => exact longNew_picked cfg s ch.order caller moved
    | longUnsuspend q caller moved =>
      intro u hu st pid hpick
      obtain rfl : u = .longAnswered q ch.answer caller moved := by simpa [nextSection] using hu
      exact ht st pid hpick
    | medium pid =>
      exact hnone (by simp only [nextSection, runMediumScheduler]; grind [Thread.picked])
    | mediumSwap pid => exact hnone (by simp only [nextSection]; grind [Thread.picked])
    | mediumSent pid => exact hnone (by simp [nextSection, Thread.picked])
    | longAnswered pid success caller moved =>
      exact hnone (by simp only [nextSection, longAnswered]; grind [Thread.picked])
    | _ => simp [Thread.handsOn] at hhands

/-- **Picked processes stay on their lists.** -/
theorem picked_step {cfg : Config} {s s' : State} {e : Event} (hinv : Inv s) (hs : Picked s)
    (hc : dumpInPlace s e = true) (h : step cfg s e = some s') : Picked s' := by
  cases e with
  | arrive handler =>
    obtain ⟨hhandler, rfl⟩ := step_arrive h
    intro t ht st pid hpick
    rcases List.mem_append.mp ht with ht | ht
    · exact hs t ht st pid hpick
    · rw [List.mem_singleton.mp ht] at hpick
      cases handler with
      | longUnsuspend pid caller moved => simp [Thread.isHandler] at hhandler
      | longAnswered pid success caller moved => simp [Thread.isHandler] at hhandler
      | longCreate pid caller moved => simp [Thread.isHandler] at hhandler
      | _ => simp [Thread.picked] at hpick
  | run i ch =>
    obtain ⟨t, others, hget, hperm, hfree, -, heq⟩ := step_run h
    have hplace := hinv.inPlace hc hget
    subst heq
    intro u hu st pid hpick
    rcases List.mem_append.mp hu with hu | hu
    · have hmem : pid ∈ s.queue st :=
        hs u (hperm.mem_iff.mpr (List.mem_cons_of_mem _ hu)) st pid hpick
      exact not_taken_of_picked hfree hu hpick
        (mem_queue_before hplace (fun x a b ha hb => hinv.tidy.unique ha hb) hmem)
    · exact nextSection_picked cfg s ch
        (hs t (hperm.mem_iff.mpr List.mem_cons_self)) u hu st pid hpick

theorem picked_start (cfg : Config) : Picked (State.start cfg) := by
  intro t ht st pid hpick
  obtain rfl : t = .long .ifMoved := by simpa [State.start] using ht
  simp [Thread.picked] at hpick

end Tpso.Kernel
