/-
# Which victim the two clocks find

`cache_find_victim_clock` is one scan of the cache round the clock pointer, and each of the two passes of
`cache_find_victim_clock_m` is another.  None has a bound in the code.

CLOCK stops at the first entry that is free or not in use, and clears the use bits it passes; when all are
in use it comes round to where it started.  CLOCK-M looks for an entry that is free, or neither used nor
modified; then for one that is modified and not used, clearing use bits; and when there is none of either all
use bits are clear, and the next round finds one.
-/
import Tpso.Cpu.Victim
import Tpso.Lib.Scan

namespace Tpso.Cpu

open Tpso.Lib

/-! ## 1. What the searches look for -/

/-- CLOCK takes an entry that is free or not in use. -/
def CacheEntry.spare (e : CacheEntry) : Bool := !(e.isValid && e.useBit)

/-- The first pass of CLOCK-M takes an entry that is free, or neither used nor modified. -/
def CacheEntry.firstChoice (e : CacheEntry) : Bool := !e.isValid || (!e.useBit && !e.modifiedBit)

/-- The second pass takes one that is modified and not used. -/
def CacheEntry.secondChoice (e : CacheEntry) : Bool := e.isValid && !e.useBit && e.modifiedBit

/-- What the second pass does to the entries it passes over. -/
def CacheEntry.passedOver (e : CacheEntry) : CacheEntry :=
  { e with useBit := if e.isValid then false else e.useBit }

variable {n : Nat} {c : Cache}

theorem cacheFindVictimClock_eq_scan (n fuel : Nat) : ∀ c : Cache, cacheFindVictimClock n fuel c =
    (scan CacheEntry.spare CacheEntry.forgetUse n fuel c.entries c.clockPointer).2.map fun i =>
      (⟨(scan CacheEntry.spare CacheEntry.forgetUse n fuel c.entries c.clockPointer).1.1,
        (scan CacheEntry.spare CacheEntry.forgetUse n fuel c.entries c.clockPointer).1.2⟩, i) := by
  induction fuel with
  | zero => exact fun c => rfl
  | succ fuel ih =>
    intro c
    simp only [cacheFindVictimClock, scan]
    cases he : c.entries[c.clockPointer]? with
    | none => rfl
    | some e =>
      cases hs : e.isValid && e.useBit with
      | true =>
        simp only [hs, if_true, CacheEntry.spare, Bool.not_true, Bool.false_eq_true, if_false]
        exact ih _
      | false => simp [hs, CacheEntry.spare]

theorem clockMFirstPass_eq_scan (n k : Nat) : ∀ c : Cache, clockMFirstPass n k c =
    (⟨(scan CacheEntry.firstChoice (fun e => e) n k c.entries c.clockPointer).1.1,
      (scan CacheEntry.firstChoice (fun e => e) n k c.entries c.clockPointer).1.2⟩,
      (scan CacheEntry.firstChoice (fun e => e) n k c.entries c.clockPointer).2) := by
  induction k with
  | zero => exact fun c => rfl
  | succ k ih =>
    intro c
    simp only [clockMFirstPass, scan]
    cases he : c.entries[c.clockPointer]? with
    | none => rfl
    | some e =>
      obtain ⟨hlt, hget⟩ := List.getElem?_eq_some_iff.mp he
      have hself : c.entries.set c.clockPointer e = c.entries := by rw [← hget, List.set_getElem_self]
      simp only [hself, CacheEntry.firstChoice]
      split
      · rfl
      · exact ih _

theorem clockMSecondPass_eq_scan (n k : Nat) : ∀ c : Cache, clockMSecondPass n k c =
    (⟨(scan CacheEntry.secondChoice CacheEntry.passedOver n k c.entries c.clockPointer).1.1,
      (scan CacheEntry.secondChoice CacheEntry.passedOver n k c.entries c.clockPointer).1.2⟩,
      (scan CacheEntry.secondChoice CacheEntry.passedOver n k c.entries c.clockPointer).2) := by
  induction k with
  | zero => exact fun c => rfl
  | succ k ih =>
    intro c
    simp only [clockMSecondPass, scan]
    cases he : c.entries[c.clockPointer]? with
    | none => rfl
    | some e =>
      cases hs : e.isValid && !e.useBit && e.modifiedBit with
      | true => simp [CacheEntry.secondChoice, hs]
      | false =>
        simp only [CacheEntry.secondChoice, hs, Bool.false_eq_true, if_false]
        exact ih _

/-! ## 2. CLOCK -/

/-- What CLOCK finds in a cache: the number of entries it passes over, the cache after it and the
victim. -/
inductive ClockFinds (n : Nat) (c : Cache) : Nat → Cache → Nat → Prop
  /-- The first entry that is free or not in use. -/
  | spare {j : Nat} : FirstFrom n (StopsAt CacheEntry.spare c.entries) c.clockPointer j →
      ClockFinds n c j ⟨walk CacheEntry.forgetUse n c.clockPointer j c.entries,
        ((c.clockPointer + j) % n + 1) % n⟩ ((c.clockPointer + j) % n)
  /-- All are in use, and the entry under the pointer gets its turn again. -/
  | round : (∀ e ∈ c.entries, e.isValid = true ∧ e.useBit = true) →
      ClockFinds n c n ⟨c.entries.map CacheEntry.forgetUse, (c.clockPointer + 1) % n⟩ c.clockPointer

/-- Clearing use bits changes nothing else. -/
theorem sameButUse_walk (p j q : Nat) :
    SameButUse c ⟨walk CacheEntry.forgetUse n p j c.entries, q⟩ := map_walk fun _ => rfl

/-- **CLOCK.**  For every cache and every pointer: the search passes over `j ≤ n` entries and stops at the
next, whatever the bits are, and with one inspection less it would not have ended. -/
theorem cacheFindVictimClock_finds (hlen : c.entries.length = n) (hptr : c.clockPointer < n) :
    ∃ j c' i, j ≤ n ∧ ClockFinds n c j c' i ∧ i < n ∧ c'.clockPointer = (i + 1) % n ∧ SameButUse c c' ∧
      ∀ fuel, cacheFindVictimClock n fuel c = if j < fuel then some (c', i) else none := by
  have hn : 0 < n := by omega
  rcases exists_firstFrom_or CacheEntry.spare hptr hlen with ⟨j, hfirst⟩ | hnone
  · refine ⟨j, _, _, hfirst.lt.le, .spare hfirst, Nat.mod_lt _ hn, rfl, sameButUse_walk _ _ _,
      fun fuel => ?_⟩
    rw [cacheFindVictimClock_eq_scan]
    split
    · rename_i hfuel
      rw [scan_found hptr hlen hfirst hfuel]
      rfl
    · rename_i hfuel
      have hle : fuel ≤ j := not_lt.mp hfuel
      rw [scan_none hptr hlen (hle.trans hfirst.lt.le) fun k hk => hfirst.before k (hk.trans_le hle)]
      rfl
  · have hall : ∀ e ∈ c.entries, e.isValid = true ∧ e.useBit = true := by
      intro e he
      have hspare := hnone e he
      simpa [CacheEntry.spare] using hspare
    have hsame : SameButUse c ⟨c.entries.map CacheEntry.forgetUse, (c.clockPointer + 1) % n⟩ := by
      rw [← walk_all hptr hlen]
      exact sameButUse_walk _ _ _
    refine ⟨n, _, _, le_refl n, .round hall, hptr, rfl, hsame, fun fuel => ?_⟩
    rw [cacheFindVictimClock_eq_scan]
    have hnot := not_stopsAt hnone
    split
    · -- once around, and the entry under the pointer is not in use any more
      rename_i hfuel
      obtain ⟨m, rfl⟩ := Nat.exists_eq_add_of_lt hfuel
      have hlt : c.clockPointer < c.entries.length := by omega
      rw [show n + m + 1 = m + 1 + n by omega, scan_pass hptr hlen (le_refl n) fun k _ => hnot _,
        walk_all hptr hlen, Nat.add_mod_right, Nat.mod_eq_of_lt hptr, scan, List.getElem?_map,
        List.getElem?_eq_getElem hlt]
      simp [CacheEntry.spare, CacheEntry.forgetUse]
    · rename_i hfuel
      rw [scan_none hptr hlen (not_lt.mp hfuel) fun k _ => hnot _]
      rfl

/-! ## 3. CLOCK-M -/

/-- What CLOCK-M finds in a cache: the cache after it and the victim. -/
inductive ClockMFinds (n : Nat) (c : Cache) : Cache → Nat → Prop
  /-- The first entry that is free, or neither used nor modified; no bit is changed. -/
  | clean {j : Nat} : FirstFrom n (StopsAt CacheEntry.firstChoice c.entries) c.clockPointer j →
      ClockMFinds n c ⟨c.entries, ((c.clockPointer + j) % n + 1) % n⟩ ((c.clockPointer + j) % n)
  /-- There is none: the first that is modified and not used; the use bits before it are cleared. -/
  | modified {j : Nat} : (∀ e ∈ c.entries, e.firstChoice = false) →
      FirstFrom n (StopsAt (fun e => !e.useBit && e.modifiedBit) c.entries) c.clockPointer j →
      ClockMFinds n c ⟨walk CacheEntry.forgetUse n c.clockPointer j c.entries,
        ((c.clockPointer + j) % n + 1) % n⟩ ((c.clockPointer + j) % n)
  /-- All are in use: all use bits are cleared, and then it is the first that is not modified. -/
  | unmodified {j : Nat} : (∀ e ∈ c.entries, e.isValid = true ∧ e.useBit = true) →
      FirstFrom n (StopsAt (fun e => !e.modifiedBit) c.entries) c.clockPointer j →
      ClockMFinds n c ⟨c.entries.map CacheEntry.forgetUse, ((c.clockPointer + j) % n + 1) % n⟩
        ((c.clockPointer + j) % n)
  /-- All are in use and modified: the entry under the pointer. -/
  | round : (∀ e ∈ c.entries, e.isValid = true ∧ e.useBit = true ∧ e.modifiedBit = true) →
      ClockMFinds n c ⟨c.entries.map CacheEntry.forgetUse, (c.clockPointer + 1) % n⟩ c.clockPointer

/-- What is found is an entry, the pointer is behind it, and only use bits have changed. -/
theorem ClockMFinds.frame {c' : Cache} {i : Nat} (h : ClockMFinds n c c' i) (hlen : c.entries.length = n)
    (hptr : c.clockPointer < n) : i < n ∧ c'.clockPointer = (i + 1) % n ∧ SameButUse c c' := by
  have hn : 0 < n := by omega
  have hall : ∀ q, SameButUse c ⟨c.entries.map CacheEntry.forgetUse, q⟩ := by
    intro q
    rw [← walk_all hptr hlen]
    exact sameButUse_walk _ _ _
  cases h with
  | clean _ => exact ⟨Nat.mod_lt _ hn, rfl, rfl⟩
  | modified _ _ => exact ⟨Nat.mod_lt _ hn, rfl, sameButUse_walk _ _ _⟩
  | unmodified _ _ => exact ⟨Nat.mod_lt _ hn, rfl, hall _⟩
  | round _ => exact ⟨hptr, rfl, hall _⟩

/-- A first pass that finds something is the end. -/
theorem cacheFindVictimClockM_first {j fuel : Nat} (hlen : c.entries.length = n)
    (hptr : c.clockPointer < n)
    (hfirst : FirstFrom n (StopsAt CacheEntry.firstChoice c.entries) c.clockPointer j) :
    cacheFindVictimClockM n (fuel + 1) c =
      some (⟨c.entries, ((c.clockPointer + j) % n + 1) % n⟩, (c.clockPointer + j) % n) := by
  rw [cacheFindVictimClockM, clockMFirstPass_eq_scan, scan_found hptr hlen hfirst hfirst.lt, walk_id]

/-- A first pass that finds nothing leads to the second. -/
theorem cacheFindVictimClockM_second {j fuel : Nat} (hlen : c.entries.length = n)
    (hptr : c.clockPointer < n) (hnone : ∀ e ∈ c.entries, e.firstChoice = false)
    (hsecond : FirstFrom n (StopsAt CacheEntry.secondChoice c.entries) c.clockPointer j) :
    cacheFindVictimClockM n (fuel + 1) c =
      some (⟨walk CacheEntry.passedOver n c.clockPointer j c.entries,
        ((c.clockPointer + j) % n + 1) % n⟩, (c.clockPointer + j) % n) := by
  rw [cacheFindVictimClockM, clockMFirstPass_eq_scan,
    scan_none hptr hlen (le_refl n) fun k _ => not_stopsAt hnone _, walk_id, Nat.add_mod_right,
    Nat.mod_eq_of_lt hptr]
  simp only [clockMSecondPass_eq_scan, scan_found hptr hlen hsecond hsecond.lt]

/-- When both find nothing the use bits are clear and the pointer is where it was. -/
theorem cacheFindVictimClockM_again {fuel : Nat} (hlen : c.entries.length = n) (hptr : c.clockPointer < n)
    (hfirst : ∀ e ∈ c.entries, e.firstChoice = false) (hsecond : ∀ e ∈ c.entries, e.secondChoice = false) :
    cacheFindVictimClockM n (fuel + 1) c =
      cacheFindVictimClockM n fuel ⟨c.entries.map CacheEntry.passedOver, c.clockPointer⟩ := by
  rw [cacheFindVictimClockM, clockMFirstPass_eq_scan,
    scan_none hptr hlen (le_refl n) fun k _ => not_stopsAt hfirst _, walk_id, Nat.add_mod_right,
    Nat.mod_eq_of_lt hptr]
  simp only [clockMSecondPass_eq_scan,
    scan_none hptr hlen (le_refl n) fun k _ => not_stopsAt hsecond _, walk_all hptr hlen,
    Nat.add_mod_right, Nat.mod_eq_of_lt hptr]

/-- **CLOCK-M.**  For every cache and every pointer the search ends in its second round at the latest, with
one of the four results. -/
theorem cacheFindVictimClockM_finds (hlen : c.entries.length = n) (hptr : c.clockPointer < n) :
    ∃ c' i, ClockMFinds n c c' i ∧ i < n ∧ c'.clockPointer = (i + 1) % n ∧ SameButUse c c' ∧
      ∀ fuel, 2 ≤ fuel → cacheFindVictimClockM n fuel c = some (c', i) := by
  suffices hmain : ∃ c' i, ClockMFinds n c c' i ∧
      ∀ fuel, cacheFindVictimClockM n (fuel + 2) c = some (c', i) by
    obtain ⟨c', i, hfinds, hrun⟩ := hmain
    obtain ⟨hi, hpointer, hsame⟩ := hfinds.frame hlen hptr
    refine ⟨c', i, hfinds, hi, hpointer, hsame, fun fuel hfuel => ?_⟩
    obtain ⟨m, rfl⟩ := Nat.exists_eq_add_of_le hfuel
    rw [Nat.add_comm 2 m]
    exact hrun m
  rcases exists_firstFrom_or CacheEntry.firstChoice hptr hlen with ⟨j, hfirst⟩ | hnone
  · exact ⟨_, _, .clean hfirst, fun fuel => cacheFindVictimClockM_first hlen hptr hfirst⟩
  -- all entries are valid from here on
  have hvalid : ∀ e ∈ c.entries, e.isValid = true ∧ (e.useBit = true ∨ e.modifiedBit = true) := by
    intro e he
    have hno := hnone e he
    cases hv : e.isValid <;> cases hu : e.useBit <;> cases hm : e.modifiedBit <;>
      simp [CacheEntry.firstChoice, hv, hu, hm] at hno ⊢
  have hpassed : ∀ e ∈ c.entries, e.passedOver = e.forgetUse := by
    intro e he
    simp [CacheEntry.passedOver, CacheEntry.forgetUse, (hvalid e he).1]
  rcases exists_firstFrom_or CacheEntry.secondChoice hptr hlen with ⟨j, hsecond⟩ | hneither
  · have hsame : ∀ e ∈ c.entries, e.secondChoice = (!e.useBit && e.modifiedBit) := by
      intro e he
      simp [CacheEntry.secondChoice, (hvalid e he).1]
    refine ⟨_, _, .modified hnone (hsecond.congr (stopsAt_congr hsame)), fun fuel => ?_⟩
    rw [cacheFindVictimClockM_second hlen hptr hnone hsecond, walk_congr hpassed]
  -- and in use
  have huse : ∀ e ∈ c.entries, e.isValid = true ∧ e.useBit = true := by
    intro e he
    obtain ⟨hv, hor⟩ := hvalid e he
    refine ⟨hv, hor.elim id fun hm => ?_⟩
    have hno := hneither e he
    simpa [CacheEntry.secondChoice, hv, hm] using hno
  have hmap : c.entries.map CacheEntry.passedOver = c.entries.map CacheEntry.forgetUse :=
    List.map_congr_left hpassed
  have hlen' : (c.entries.map CacheEntry.forgetUse).length = n := by rw [List.length_map, hlen]
  have hagain : ∀ fuel, cacheFindVictimClockM n (fuel + 2) c =
      cacheFindVictimClockM n (fuel + 1) ⟨c.entries.map CacheEntry.forgetUse, c.clockPointer⟩ := by
    intro fuel
    rw [cacheFindVictimClockM_again hlen hptr hnone hneither, hmap]
  rcases exists_firstFrom_or (fun e : CacheEntry => !e.modifiedBit) hptr hlen with
    ⟨j, hclean⟩ | hmodified
  · -- the first that is not modified is free to go in the next round
    have hsame : ∀ e ∈ c.entries, (!e.modifiedBit) = e.forgetUse.firstChoice := by
      intro e he
      simp [CacheEntry.firstChoice, CacheEntry.forgetUse, (huse e he).1]
    have hnext : FirstFrom n (StopsAt CacheEntry.firstChoice (c.entries.map CacheEntry.forgetUse))
        c.clockPointer j :=
      (hclean.congr (stopsAt_congr hsame)).congr fun i => (stopsAt_map i).symm
    refine ⟨_, _, .unmodified huse hclean, fun fuel => ?_⟩
    rw [hagain, @cacheFindVictimClockM_first n ⟨c.entries.map CacheEntry.forgetUse, c.clockPointer⟩ _ _ hlen'
      hptr hnext]
  · -- the second pass of the next round takes the first entry it looks at
    have hall : ∀ e ∈ c.entries, e.isValid = true ∧ e.useBit = true ∧ e.modifiedBit = true := by
      intro e he
      exact ⟨(huse e he).1, (huse e he).2, by simpa using hmodified e he⟩
    have hnone' : ∀ e ∈ c.entries.map CacheEntry.forgetUse, e.firstChoice = false := by
      intro e he
      obtain ⟨x, hx, rfl⟩ := List.mem_map.mp he
      obtain ⟨hv, -, hm⟩ := hall x hx
      simp [CacheEntry.firstChoice, CacheEntry.forgetUse, hv, hm]
    have hlt : c.clockPointer < c.entries.length := by omega
    have hfirst : FirstFrom n (StopsAt CacheEntry.secondChoice (c.entries.map CacheEntry.forgetUse))
        c.clockPointer 0 := by
      refine ⟨by omega, ?_, fun k hk => absurd hk (Nat.not_lt_zero k)⟩
      obtain ⟨hv, -, hm⟩ := hall _ (List.getElem_mem hlt)
      rw [Nat.add_zero, Nat.mod_eq_of_lt hptr, stopsAt_map]
      exact ⟨_, List.getElem?_eq_getElem hlt, by
        simp [CacheEntry.secondChoice, CacheEntry.forgetUse, hv, hm]⟩
    refine ⟨_, _, .round hall, fun fuel => ?_⟩
    rw [hagain, @cacheFindVictimClockM_second n ⟨c.entries.map CacheEntry.forgetUse, c.clockPointer⟩ _ _
      hlen' hptr hnone' hfirst]
    simp only [walk_zero, Nat.add_zero, Nat.mod_eq_of_lt hptr]

/-! ## 4. The configured search -/

/-- `select_victim_entry` gives CLOCK enough rounds. -/
theorem findVictim_clock {cfg : Config} (halg : cfg.cacheAlgorithm = .clock)
    (hlen : c.entries.length = cfg.cacheEntries) (hptr : c.clockPointer < cfg.cacheEntries) :
    ∃ j c' i, findVictim cfg c = some (c', i) ∧ ClockFinds cfg.cacheEntries c j c' i := by
  obtain ⟨j, c', i, hj, hfinds, -, -, -, hrun⟩ := cacheFindVictimClock_finds hlen hptr
  refine ⟨j, c', i, ?_, hfinds⟩
  simp only [findVictim, halg]
  rw [hrun, if_pos (by omega)]

/-- And CLOCK-M. -/
theorem findVictim_clockM {cfg : Config} (halg : cfg.cacheAlgorithm = .clockM)
    (hlen : c.entries.length = cfg.cacheEntries) (hptr : c.clockPointer < cfg.cacheEntries) :
    ∃ c' i, findVictim cfg c = some (c', i) ∧ ClockMFinds cfg.cacheEntries c c' i := by
  obtain ⟨c', i, hfinds, -, -, -, hrun⟩ := cacheFindVictimClockM_finds hlen hptr
  refine ⟨c', i, ?_, hfinds⟩
  simp only [findVictim, halg]
  exact hrun _ (by omega)

/-- A cache of two entries in use, the second of them modified. -/
def busyCache : Cache :=
  ⟨[⟨true, 0, 0, zeros, true, false, 0, 0⟩, ⟨true, 1, 0, zeros, true, true, 0, 4⟩], 1⟩

/-- CLOCK at work: three inspections are enough for two entries. -/
theorem cacheFindVictimClock_finds_busy :
    ∃ c' i, cacheFindVictimClock 2 3 busyCache = some (c', i) ∧ SameButUse busyCache c' ∧
      c'.clockPointer = (i + 1) % 2 := by
  obtain ⟨j, c', i, hj, -, -, hpointer, hsame, hrun⟩ :=
    @cacheFindVictimClock_finds 2 busyCache rfl (by decide)
  exact ⟨c', i, by rw [hrun, if_pos (by omega)], hsame, hpointer⟩

/-- CLOCK-M at work: in the second round. -/
theorem cacheFindVictimClockM_finds_busy :
    ∃ c' i, cacheFindVictimClockM 2 2 busyCache = some (c', i) ∧ SameButUse busyCache c' ∧
      c'.clockPointer = (i + 1) % 2 := by
  obtain ⟨c', i, -, -, hpointer, hsame, hrun⟩ :=
    @cacheFindVictimClockM_finds 2 busyCache rfl (by decide)
  exact ⟨c', i, hrun 2 (le_refl 2), hsame, hpointer⟩

end Tpso.Cpu
