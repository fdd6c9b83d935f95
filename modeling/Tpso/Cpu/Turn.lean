/-
# What a step of a CPU does

A step leaves the MMU alone, or it is a READ or WRITE of the process that the CPU has, or the clean-up of
one entry, or the end of the clean-up (`StepEffect`).  And it starts a turn, goes on with one, or ends one
(`TurnMove`).  Once an instruction or an interrupt has decided that the turn ends, the process accesses
nothing any more (`Phase.mayAccess`), though the CPU still answers interrupts and cleans up.
-/
import Tpso.Cpu.Cycle

namespace Tpso.Cpu

open Tpso.Lib

/-- Whether the process of the main thread may still access memory in this turn. -/
def Phase.mayAccess : Phase → Bool
  | .fetching => true
  | .executed shouldPreempt => !shouldPreempt
  | .handling (.cycle shouldPreempt) interrupted => !(shouldPreempt || interrupted)
  | _ => false

theorem Phase.busy_of_mayAccess {p : Phase} (h : p.mayAccess = true) : p.busy = true := by
  cases p with
  | fetching => rfl
  | executed shouldPreempt => rfl
  | handling handler interrupted => cases handler <;> simp_all [Phase.mayAccess, Phase.busy]
  | waiting => simp [Phase.mayAccess] at h
  | cleaning handler i => simp [Phase.mayAccess] at h

/-- What a step does to the MMU and the user space. -/
inductive StepEffect (cfg : Config) (pe : PageEntries) (s : CpuState) (mem : Bytes) (ev : CpuEvent)
    (mmu' : Mmu) (mem' : Bytes) : Prop where
  | same (hmmu : mmu' = s.mmu) (hmem : mem' = mem) (hev : ∀ a, ev ≠ .execute (.access a))
  | access (a : Access) (done : Bool) (hev : ev = .execute (.access a)) (hphase : s.phase = .fetching)
      (h : execution cfg pe s.pid s.mmu mem a = some (mmu', mem', done))
  | cleaned (i : Nat) (hev : ev = .clean) (h : cleanEntry cfg pe s.mmu mem i = some (mmu', mem'))
  | flushed (hev : ev = .clean) (hmmu : mmu' = flushTlb cfg s.mmu) (hmem : mem' = mem)

/-- What a step does to the turn. -/
inductive TurnMove (s s' : CpuState) (ev : CpuEvent) : Prop where
  | starts (pid pc : Int) (hev : ev = .dispatch pid pc) (hwaiting : s.phase = .waiting)
      (hpid : s'.pid = pid) (hphase : s'.phase = .fetching)
  | goesOn (hne : ∀ pid pc, ev ≠ .dispatch pid pc) (hpid : s'.pid = s.pid)
      (hbusy : s'.phase.busy = s.phase.busy) (hmay : s'.phase.mayAccess = true → s.phase.mayAccess = true)
  | ends (hev : ev = .noInstruction ∨ ev = .handled ∧ s.phase.mayAccess = false)
      (hbusy : s'.phase.busy = false)

section Step

variable {cfg : Config} {pe : PageEntries} {s s' : CpuState} {mem mem' : Bytes} {sent : List Sent}
  {ev : CpuEvent}

/-- The process is the same and goes on. -/
theorem TurnMove.of_phase {s1 : CpuState} (hs : s1 = s') (hne : ∀ pid pc, ev ≠ .dispatch pid pc)
    (hpid : s1.pid = s.pid) (hbusy : s1.phase.busy = s.phase.busy)
    (hmay : s1.phase.mayAccess = true → s.phase.mayAccess = true) : TurnMove s s' ev := by
  subst hs
  exact .goesOn hne hpid hbusy hmay

theorem executeInstruction_effect {instruction : Instruction} (hphase : s.phase = .fetching)
    (h : executeInstruction cfg pe s mem instruction = some (s', mem', sent)) :
    StepEffect cfg pe s mem (.execute instruction) s'.mmu mem' ∧ TurnMove s s' (.execute instruction) := by
  cases instruction with
  | access a =>
    obtain ⟨⟨mmu', m, done⟩, hexec, heq⟩ := Option.map_eq_some_iff.mp h
    obtain ⟨rfl, hrest⟩ := Prod.mk.inj heq
    obtain ⟨rfl, -⟩ := Prod.mk.inj hrest
    exact ⟨.access a done rfl hphase hexec, .goesOn (by simp) rfl (by simp [hphase, Phase.busy])
      fun _ => by simp [hphase, Phase.mayAccess]⟩
  | noop | goto | io | initProc | dumpMemory | exit | unknown =>
    obtain ⟨rfl, hrest⟩ := Prod.mk.inj (Option.some.inj h)
    obtain ⟨rfl, -⟩ := Prod.mk.inj hrest
    exact ⟨.same rfl rfl (by simp), .goesOn (by simp) rfl (by simp [hphase, Phase.busy])
      fun _ => by simp [hphase, Phase.mayAccess]⟩

/-- **A step of a CPU.** -/
theorem cpuStep_effect (h : cpuStep cfg pe s mem ev = some (s', mem', sent)) :
    StepEffect cfg pe s mem ev s'.mmu mem' ∧ TurnMove s s' ev := by
  cases ev with
  | dispatch pid pc =>
    simp only [cpuStep] at h
    split at h
    · rename_i hphase
      obtain ⟨rfl, hrest⟩ := Prod.mk.inj (Option.some.inj h)
      obtain ⟨rfl, -⟩ := Prod.mk.inj hrest
      exact ⟨.same rfl rfl (by simp), .starts pid pc rfl hphase rfl rfl⟩
    · exact absurd h (by simp)
  | noInstruction =>
    simp only [cpuStep] at h
    split at h
    · obtain ⟨rfl, hrest⟩ := Prod.mk.inj (Option.some.inj h)
      obtain ⟨rfl, -⟩ := Prod.mk.inj hrest
      exact ⟨.same rfl rfl (by simp), .ends (Or.inl rfl) rfl⟩
    · exact absurd h (by simp)
  | execute instruction =>
    simp only [cpuStep] at h
    split at h
    · rename_i hphase
      split at h
      · exact absurd h (by simp)
      · exact executeInstruction_effect hphase h
    · exact absurd h (by simp)
  | arrive pid =>
    simp only [cpuStep] at h
    split at h
    · exact absurd h (by simp)
    · obtain ⟨rfl, hrest⟩ := Prod.mk.inj (Option.some.inj h)
      obtain ⟨rfl, -⟩ := Prod.mk.inj hrest
      exact ⟨.same rfl rfl (by simp), .goesOn (by simp) rfl rfl id⟩
  | listen =>
    simp only [cpuStep] at h
    split at h
    · rename_i hphase
      obtain ⟨rfl, hrest⟩ := Prod.mk.inj (Option.some.inj h)
      obtain ⟨rfl, -⟩ := Prod.mk.inj hrest
      exact ⟨.same rfl rfl (by simp), .goesOn (by simp) rfl (by simp [hphase, Phase.busy])
        (by simp [Phase.mayAccess])⟩
    · exact absurd h (by simp)
  | handle =>
    simp only [cpuStep] at h
    split at h
    · rename_i hphase
      obtain ⟨rfl, hrest⟩ := Prod.mk.inj (Option.some.inj h)
      obtain ⟨rfl, -⟩ := Prod.mk.inj hrest
      exact ⟨.same rfl rfl (by simp), .goesOn (by simp) rfl (by simp [hphase, Phase.busy])
        (by simp [hphase, Phase.mayAccess])⟩
    · exact absurd h (by simp)
  | check =>
    simp only [cpuStep] at h
    split at h
    · rename_i handler interrupted pid hphase hlast
      obtain ⟨hs, hrest⟩ := Prod.mk.inj (Option.some.inj h)
      obtain ⟨rfl, -⟩ := Prod.mk.inj hrest
      -- the answer is for the process that the CPU has, or for another
      unfold checkInterrupt at hs
      split at hs
      · refine ⟨.same (by rw [← hs]) rfl (by simp), .of_phase hs (by simp) rfl ?_ (by simp [Phase.mayAccess])⟩
        rw [hphase]
        cases handler <;> rfl
      · refine ⟨.same (by rw [← hs]) rfl (by simp), .of_phase hs (by simp) rfl ?_ ?_⟩
        · rw [hphase]
          cases handler <;> rfl
        · cases handler <;> simp [Phase.mayAccess]
    · exact absurd h (by simp)
  | clean =>
    simp only [cpuStep] at h
    split at h
    · rename_i handler i hphase
      split at h
      · obtain ⟨⟨mmu1, m⟩, hclean, heq⟩ := Option.map_eq_some_iff.mp h
        obtain ⟨rfl, hrest⟩ := Prod.mk.inj heq
        obtain ⟨rfl, -⟩ := Prod.mk.inj hrest
        refine ⟨.cleaned i rfl hclean, .goesOn (by simp) rfl ?_ (by simp [Phase.mayAccess])⟩
        rw [hphase]
        cases handler <;> rfl
      · obtain ⟨rfl, hrest⟩ := Prod.mk.inj (Option.some.inj h)
        obtain ⟨rfl, -⟩ := Prod.mk.inj hrest
        refine ⟨.flushed rfl rfl rfl, .goesOn (by simp) rfl ?_ ?_⟩
        · rw [hphase]
          cases handler <;> rfl
        · cases handler <;> simp [Phase.mayAccess]
    · exact absurd h (by simp)
  | handled =>
    simp only [cpuStep] at h
    split at h
    · rename_i shouldPreempt interrupted hphase _
      obtain ⟨hs, hrest⟩ := Prod.mk.inj (Option.some.inj h)
      obtain ⟨rfl, -⟩ := Prod.mk.inj hrest
      have hmay : s.phase.mayAccess = !(shouldPreempt || interrupted) := by
        rw [hphase]
        rfl
      unfold endOfCycle at hs
      split at hs
      · rename_i hends
        refine ⟨.same (by rw [← hs]) rfl (by simp), .ends (Or.inr ⟨rfl, ?_⟩) (by rw [← hs]; rfl)⟩
        rw [hmay, hends]
        rfl
      · rename_i hstays
        refine ⟨.same (by rw [← hs]) rfl (by simp), .of_phase hs (by simp) rfl ?_ ?_⟩
        · rw [hphase]
          rfl
        · intro _
          rw [hmay]
          simpa using hstays
    · rename_i hphase _
      obtain ⟨rfl, hrest⟩ := Prod.mk.inj (Option.some.inj h)
      obtain ⟨rfl, -⟩ := Prod.mk.inj hrest
      exact ⟨.same rfl rfl (by simp), .goesOn (by simp) rfl (by simp [hphase, Phase.busy])
        (by simp [Phase.mayAccess])⟩
    · exact absurd h (by simp)

end Step

end Tpso.Cpu
