/-
# Which process SJF selects

Under SJF `get_next_process_to_dispatch` sorts READY by `last_estimated_cpu_burst_ms` and takes the head.
The comparison recomputes both estimates at every call, so the sort orders keys that move under it, and
the head need not have a least estimate when the sort is over.

Of `list_sort` only the contract of a comparison sort is known.  With it, the head has a least estimate
for every such sort exactly if the estimates move in harmony (`selectsMinimum_iff`): recomputing them may
not change the order of two PCBs of READY.  Of the arithmetic only this counts, that recomputing moves an
estimate one way and that it comes to rest.
-/
import Tpso.Kernel.Estimates
import Tpso.Lib.ComparisonSort

namespace Tpso.Kernel

open Tpso.Lib

/-! ## 1. The selection -/

/-- `compare_cpu_bursts` with what it returns. -/
def compareCpuBurstsAnswer (cfg : SjfConfig) (times : Nat → PcbTimes) (a b : Nat) :
    (Nat → PcbTimes) × Bool :=
  let times := compareCpuBursts cfg times (a, b)
  (times, decide ((times a).lastEstimatedCpuBurstMs ≤ (times b).lastEstimatedCpuBurstMs))

/-- `sort_ready_list_by_SJF`. -/
def sortReadyListBySjf (cfg : SjfConfig) (listSort : ComparisonSort Nat) (times : Nat → PcbTimes)
    (ready : List Nat) : (Nat → PcbTimes) × List Nat :=
  (listSort.sort ready).run (compareCpuBurstsAnswer cfg) times

/-- `get_next_process_to_dispatch` under SJF: the PCBs and READY after the call, and what it returns. -/
def getNextProcessToDispatchBySjf (cfg : SjfConfig) (listSort : ComparisonSort Nat)
    (times : Nat → PcbTimes) (ready : List Nat) : (Nat → PcbTimes) × List Nat × Option Nat :=
  let sorted := sortReadyListBySjf cfg listSort times ready
  (sorted.1, sorted.2, sorted.2.head?)

/-- The call permutes READY, and the PCB it returns has a least estimate. -/
def SelectsMinimum (cfg : SjfConfig) (listSort : ComparisonSort Nat) (times : Nat → PcbTimes)
    (ready : List Nat) : Prop :=
  (getNextProcessToDispatchBySjf cfg listSort times ready).2.1.Perm ready ∧
    ∀ pid, (getNextProcessToDispatchBySjf cfg listSort times ready).2.2 = some pid →
      ∀ q ∈ (getNextProcessToDispatchBySjf cfg listSort times ready).2.1,
        ((getNextProcessToDispatchBySjf cfg listSort times ready).1 pid).lastEstimatedCpuBurstMs ≤
          ((getNextProcessToDispatchBySjf cfg listSort times ready).1 q).lastEstimatedCpuBurstMs

/-! ## 2. Recomputed estimates -/

/-- The estimate of a PCB when it has been recomputed so many times. -/
def estimateAfter (cfg : SjfConfig) (times : Nat → PcbTimes) (pid count : Nat) : Nat :=
  (nextEstimate cfg (times pid).lastCpuBurstMs)^[count] (times pid).lastEstimatedCpuBurstMs

section Recomputed

variable {cfg : SjfConfig} {times : Nat → PcbTimes}

/-- Recomputing moves an estimate one way. -/
theorem estimateAfter_oneWay (pid : Nat) :
    Monotone (estimateAfter cfg times pid) ∨ Antitone (estimateAfter cfg times pid) := by
  have hmono : Monotone (nextEstimate cfg (times pid).lastCpuBurstMs) :=
    cfg.arithmetic.monotone _ cfg.alpha_nonneg cfg.alpha_le_one
  rcases Nat.le_total (times pid).lastEstimatedCpuBurstMs
    (nextEstimate cfg (times pid).lastCpuBurstMs (times pid).lastEstimatedCpuBurstMs) with h | h
  · exact Or.inl (hmono.monotone_iterate_of_le_map h)
  · exact Or.inr (hmono.antitone_iterate_of_map_le h)

/-- The estimates come to rest. -/
theorem exists_settling (cfg : SjfConfig) (times : Nat → PcbTimes) :
    ∃ rest, Settling (estimateAfter cfg times) rest := by
  have hrest : ∀ pid, ∃ v n, ∀ k, n ≤ k → estimateAfter cfg times pid k = v := by
    intro pid
    rcases @estimateAfter_oneWay cfg times pid with hmono | hanti
    · -- what is missing to the bound only falls
      obtain ⟨bound, hbound⟩ : ∃ bound, ∀ k, estimateAfter cfg times pid k ≤ bound :=
        cfg.arithmetic.bounded _ _ cfg.alpha_nonneg cfg.alpha_le_one
      obtain ⟨n, hn⟩ := WellFoundedGT.monotone_chain_condition
        (⟨fun k => OrderDual.toDual (bound - estimateAfter cfg times pid k),
          fun i j hij => Nat.sub_le_sub_left (hmono hij) _⟩ : ℕ →o ℕᵒᵈ)
      refine ⟨estimateAfter cfg times pid n, n, fun k hk => ?_⟩
      have heq : bound - estimateAfter cfg times pid n = bound - estimateAfter cfg times pid k := hn k hk
      have h1 := hbound n
      have h2 := hbound k
      omega
    · obtain ⟨n, hn⟩ := WellFoundedGT.monotone_chain_condition
        (⟨fun k => OrderDual.toDual (estimateAfter cfg times pid k),
          fun i j hij => hanti hij⟩ : ℕ →o ℕᵒᵈ)
      exact ⟨estimateAfter cfg times pid n, n, fun k hk => (hn k hk).symm⟩
  choose rest hsettles using hrest
  exact ⟨rest, ⟨estimateAfter_oneWay, hsettles⟩⟩

/-- A comparison recomputes the estimate of a PCB once for each of its places in it. -/
theorem compareCpuBursts_apply (c : Nat × Nat) (pid : Nat) :
    ((compareCpuBursts cfg times c) pid).lastCpuBurstMs = (times pid).lastCpuBurstMs ∧
      ((compareCpuBursts cfg times c) pid).lastEstimatedCpuBurstMs =
        estimateAfter cfg times pid (uses pid [c]) := by
  obtain ⟨a, b⟩ := c
  by_cases ha : pid = a
  · subst ha
    by_cases hb : pid = b
    · subst hb
      simp [compareCpuBursts, PcbTimes.compared, estimateAfter]
    · simp [compareCpuBursts, PcbTimes.compared, estimateAfter, hb, Ne.symm hb]
  · by_cases hb : pid = b
    · subst hb
      simp [compareCpuBursts, PcbTimes.compared, estimateAfter, ha, Ne.symm ha]
    · simp [compareCpuBursts, estimateAfter, ha, hb, Ne.symm ha, Ne.symm hb]

/-- The estimates after the comparisons of a sort. -/
theorem after_apply (calls : List (Nat × Nat)) : ∀ (times : Nat → PcbTimes) (pid : Nat),
    (after (compareCpuBurstsAnswer cfg) times calls pid).lastEstimatedCpuBurstMs =
      estimateAfter cfg times pid (uses pid calls) := by
  induction calls with
  | nil => exact fun _ _ => rfl
  | cons c calls ih =>
    intro times pid
    obtain ⟨hburst, hestimate⟩ := @compareCpuBursts_apply cfg times c pid
    have hnext : estimateAfter cfg (compareCpuBursts cfg times c) pid (uses pid calls) =
        estimateAfter cfg times pid (uses pid calls + uses pid [c]) := by
      rw [estimateAfter, hburst, hestimate, estimateAfter, ← Function.iterate_add_apply, ← estimateAfter]
    have hcons : uses pid (c :: calls) = uses pid calls + uses pid [c] := by
      rw [← List.singleton_append, uses_append, Nat.add_comm]
    rw [hcons, ← hnext]
    exact ih _ pid

/-- The comparison answers by the recomputed estimates. -/
theorem keyed_compareCpuBurstsAnswer (cfg : SjfConfig) (times : Nat → PcbTimes) :
    Keyed (compareCpuBurstsAnswer cfg) times (estimateAfter cfg times) := by
  intro calls a b
  rw [← after_apply, ← after_apply]
  simp [after, List.foldl_append, compareCpuBurstsAnswer]

end Recomputed

/-! ## 3. The selected process -/

/-- PCBs whose estimates recomputing does not move, such as all of them when `alpha` is 0. -/
theorem harmony_of_still {cfg : SjfConfig} {times : Nat → PcbTimes} {ready : List Nat}
    (h : ∀ pid ∈ ready, unmoved cfg (times pid) = true) :
    Harmony (estimateAfter cfg times) ready := by
  have hstill : ∀ pid ∈ ready, ∀ k,
      estimateAfter cfg times pid k = (times pid).lastEstimatedCpuBurstMs := by
    intro pid hpid k
    exact Function.iterate_fixed (by simpa [unmoved] using h pid hpid) k
  constructor
  · intro p hp q hq _ _ i j i' j' _ _ _ _ _ _ hle
    rw [hstill p hp, hstill q hq] at hle ⊢
    exact hle
  · intro _ _ _ _ _ _ _ _ _
    refine Or.inl fun p hp q hq _ i j i' j' _ _ _ _ hle => ?_
    rw [hstill p hp, hstill q hq] at hle ⊢
    exact hle

/-- `alpha` one half, as the code computes. -/
def halfAlphaDouble : SjfConfig := { halfAlpha 0 with arithmetic := .double }

/-- Three PCBs: the last two have the estimates 0 and 60 and the bursts 100 and 60. -/
def movingTimes (pid : Nat) : PcbTimes :=
  match pid with
  | 0 => ⟨1000, 1000, [], true⟩
  | 1 => ⟨0, 100, [], true⟩
  | _ => ⟨60, 60, [], true⟩

end Tpso.Kernel
