/-
# The search for a victim ends, and changes nothing but use bits

Both searches of `mmu.c` are loops without a bound.  Each round of `cache_find_victim_clock` that finds
nothing clears a use bit, and so does each round of the two passes of `cache_find_victim_clock_m`: the
entry under the clock pointer is in use, for otherwise the first pass or the second would have taken
it.  The number of use bits is therefore the measure for both.
-/
import Tpso.Cpu.Mmu

namespace Tpso.Cpu

/-! ## 1. Caches that differ in use bits only -/

/-- An entry without its use bit. -/
def CacheEntry.forgetUse (e : CacheEntry) : CacheEntry := { e with useBit := false }

/-- The number of entries in use. -/
def Cache.inUse (c : Cache) : Nat := c.entries.countP fun e => e.isValid && e.useBit

/-- The two caches hold the same entries up to use bits. -/
def SameButUse (c c' : Cache) : Prop :=
  c'.entries.map CacheEntry.forgetUse = c.entries.map CacheEntry.forgetUse

theorem SameButUse.refl (c : Cache) : SameButUse c c := rfl

theorem SameButUse.trans {c c' c'' : Cache} (h : SameButUse c c') (h' : SameButUse c' c'') :
    SameButUse c c'' := Eq.trans h' h

theorem SameButUse.length {c c' : Cache} (h : SameButUse c c') :
    c'.entries.length = c.entries.length := by
  simpa using congrArg List.length h

/-- An entry of the one cache has a counterpart in the other. -/
theorem SameButUse.getElem? {c c' : Cache} (h : SameButUse c c') {i : Nat} {e' : CacheEntry}
    (he : c'.entries[i]? = some e') :
    ∃ e, c.entries[i]? = some e ∧ e'.forgetUse = e.forgetUse := by
  have hi : (c'.entries.map CacheEntry.forgetUse)[i]? = (c.entries.map CacheEntry.forgetUse)[i]? := by
    rw [h]
  rw [List.getElem?_map, List.getElem?_map, he] at hi
  cases hc : c.entries[i]? with
  | none => simp [hc] at hi
  | some e => exact ⟨e, rfl, by simpa [hc] using hi⟩

/-- Storing an entry that differs in its use bit. -/
theorem sameButUse_set {c : Cache} {i : Nat} {e : CacheEntry} (p : Nat) (e' : CacheEntry)
    (he : c.entries[i]? = some e) (hsame : e'.forgetUse = e.forgetUse) : SameButUse c ⟨c.entries.set i e', p⟩ := by
  unfold SameButUse
  have hget : (c.entries.map CacheEntry.forgetUse)[i]? = some e.forgetUse := by simp [he]
  obtain ⟨hlt, hval⟩ := List.getElem?_eq_some_iff.mp hget
  rw [List.map_set, hsame, ← hval, List.set_getElem_self]

/-- Clearing a use bit lowers the measure. -/
theorem inUse_set {c : Cache} {i : Nat} {e : CacheEntry} (p : Nat) (e' : CacheEntry)
    (he : c.entries[i]? = some e) (hclear : (e'.isValid && e'.useBit) = false) :
    (Cache.inUse ⟨c.entries.set i e', p⟩) + (if e.isValid && e.useBit then 1 else 0) = c.inUse := by
  obtain ⟨hlt, hval⟩ := List.getElem?_eq_some_iff.mp he
  have hcount := List.countP_set (p := fun e : CacheEntry => e.isValid && e.useBit) (a := e') hlt
  have hpos : (if e.isValid && e.useBit then 1 else 0) ≤ c.inUse := by
    split
    · rename_i huse
      exact List.countP_pos_iff.mpr ⟨e, List.mem_of_getElem? he, huse⟩
    · exact Nat.zero_le _
  unfold Cache.inUse at hpos ⊢
  simp only [hcount, hval, hclear, Bool.false_eq_true, if_false, Nat.add_zero]
  omega

/-! ## 2. `cache_find_victim_clock` -/

/-- What a search for a victim yields: an entry of the cache, which differs in use bits only. -/
structure Found (n : Nat) (c c' : Cache) (i : Nat) : Prop where
  lt : i < n
  same : SameButUse c c'
  pointer : c'.clockPointer < n

theorem Found.of_same {n i : Nat} {c c' c'' : Cache} (h : SameButUse c c') (hf : Found n c' c'' i) :
    Found n c c'' i := ⟨hf.lt, h.trans hf.same, hf.pointer⟩

variable {n : Nat}

theorem cacheFindVictimClock_found (hn : 0 < n) : ∀ (fuel : Nat) (c : Cache),
    c.entries.length = n → c.clockPointer < n → c.inUse < fuel →
    ∃ c' i, cacheFindVictimClock n fuel c = some (c', i) ∧ Found n c c' i
  | 0, c, _, _, hfuel => absurd hfuel (Nat.not_lt_zero _)
  | fuel + 1, c, hlen, hptr, hfuel => by
    obtain ⟨e, he⟩ : ∃ e, c.entries[c.clockPointer]? = some e :=
      ⟨_, List.getElem?_eq_getElem (hlen ▸ hptr)⟩
    have hnext : (c.clockPointer + 1) % n < n := Nat.mod_lt _ hn
    simp only [cacheFindVictimClock, he]
    split
    · -- in use: the bit is cleared, and the measure falls
      rename_i huse
      have hsame := sameButUse_set ((c.clockPointer + 1) % n)
        { e with useBit := false } he rfl
      have hcount := inUse_set ((c.clockPointer + 1) % n)
        { e with useBit := false } he (by simp)
      rw [if_pos huse] at hcount
      obtain ⟨c', i, heq, hfound⟩ := cacheFindVictimClock_found hn fuel
        ⟨c.entries.set c.clockPointer { e with useBit := false }, (c.clockPointer + 1) % n⟩
        (by simpa using hlen) hnext (by omega)
      exact ⟨c', i, heq, hfound.of_same hsame⟩
    · exact ⟨_, _, rfl, hptr, SameButUse.refl c, hnext⟩

/-! ## 3. `cache_find_victim_clock_m` -/

/-- The first pass finds a victim, or goes once around over entries that are all in use or
modified. -/
theorem clockMFirstPass_cases (hn : 0 < n) : ∀ (k : Nat) (c : Cache),
    c.entries.length = n → c.clockPointer < n →
    (∃ c' i, clockMFirstPass n k c = (c', some i) ∧ Found n c c' i) ∨
    (clockMFirstPass n k c = ({ c with clockPointer := (c.clockPointer + k) % n }, none) ∧
      (0 < k → ∀ e, c.entries[c.clockPointer]? = some e →
        e.isValid = true ∧ (e.useBit = true ∨ e.modifiedBit = true)))
  | 0, c, _, hptr => by
    refine Or.inr ⟨?_, fun h => absurd h (Nat.lt_irrefl 0)⟩
    simp [clockMFirstPass, Nat.mod_eq_of_lt hptr]
  | k + 1, c, hlen, hptr => by
    obtain ⟨e, he⟩ : ∃ e, c.entries[c.clockPointer]? = some e :=
      ⟨_, List.getElem?_eq_getElem (hlen ▸ hptr)⟩
    have hnext : (c.clockPointer + 1) % n < n := Nat.mod_lt _ hn
    simp only [clockMFirstPass, he]
    split
    · exact Or.inl ⟨_, _, rfl, hptr, rfl, hnext⟩
    · rename_i hbusy
      have hentry : e.isValid = true ∧ (e.useBit = true ∨ e.modifiedBit = true) := by
        cases hv : e.isValid <;> cases hu : e.useBit <;> cases hm : e.modifiedBit <;>
          simp [hv, hu, hm] at hbusy ⊢
      rcases clockMFirstPass_cases hn k { c with clockPointer := (c.clockPointer + 1) % n } hlen hnext
        with ⟨c', i, heq, hfound⟩ | ⟨heq, -⟩
      · exact Or.inl ⟨c', i, heq, hfound.lt, hfound.same, hfound.pointer⟩
      · refine Or.inr ⟨?_, ?_⟩
        · rw [heq]
          simp [Nat.add_comm 1 k, Nat.add_assoc]
        · intro _ e' he'
          obtain rfl : e = e' := by simpa using he'
          exact hentry

/-- The second pass finds a victim, or goes once around and clears the use bits it passes; the first of
them at least. -/
theorem clockMSecondPass_cases (hn : 0 < n) : ∀ (k : Nat) (c : Cache),
    c.entries.length = n → c.clockPointer < n →
    (∃ c' i, clockMSecondPass n k c = (c', some i) ∧ Found n c c' i) ∨
    (∃ c', clockMSecondPass n k c = (c', none) ∧ SameButUse c c' ∧ c'.clockPointer < n ∧
      c'.inUse ≤ c.inUse ∧
      (0 < k → ∀ e, c.entries[c.clockPointer]? = some e →
        (e.isValid && !e.useBit && e.modifiedBit) = false ∧
        (e.isValid = true → e.useBit = true → c'.inUse < c.inUse)))
  | 0, c, _, hptr => by
    exact Or.inr ⟨c, rfl, SameButUse.refl c, hptr, le_refl _, fun h => absurd h (Nat.lt_irrefl 0)⟩
  | k + 1, c, hlen, hptr => by
    obtain ⟨e, he⟩ : ∃ e, c.entries[c.clockPointer]? = some e :=
      ⟨_, List.getElem?_eq_getElem (hlen ▸ hptr)⟩
    have hnext : (c.clockPointer + 1) % n < n := Nat.mod_lt _ hn
    simp only [clockMSecondPass, he]
    split
    · exact Or.inl ⟨_, _, rfl, hptr, rfl, hnext⟩
    · rename_i hpass
      have hsame := sameButUse_set ((c.clockPointer + 1) % n)
        { e with useBit := if e.isValid then false else e.useBit } he rfl
      have hcount := inUse_set ((c.clockPointer + 1) % n)
        { e with useBit := if e.isValid then false else e.useBit } he
        (by cases e.isValid <;> simp)
      rcases clockMSecondPass_cases hn k
        ⟨c.entries.set c.clockPointer { e with useBit := if e.isValid then false else e.useBit },
          (c.clockPointer + 1) % n⟩ (by simpa using hlen) hnext
        with ⟨c', i, heq, hfound⟩ | ⟨c', heq, hsame', hptr', hle, -⟩
      · exact Or.inl ⟨c', i, heq, hfound.of_same hsame⟩
      · refine Or.inr ⟨c', heq, hsame.trans hsame', hptr', by omega, ?_⟩
        intro _ e' he'
        obtain rfl : e = e' := by simpa using he'
        refine ⟨by simpa using hpass, ?_⟩
        intro hv hu
        have hone : (if (e.isValid && e.useBit) = true then 1 else 0) = 1 := by simp [hv, hu]
        omega

theorem cacheFindVictimClockM_found (hn : 0 < n) : ∀ (fuel : Nat) (c : Cache),
    c.entries.length = n → c.clockPointer < n → c.inUse < fuel →
    ∃ c' i, cacheFindVictimClockM n fuel c = some (c', i) ∧ Found n c c' i
  | 0, c, _, _, hfuel => absurd hfuel (Nat.not_lt_zero _)
  | fuel + 1, c, hlen, hptr, hfuel => by
    simp only [cacheFindVictimClockM]
    rcases clockMFirstPass_cases hn n c hlen hptr with ⟨c1, i, heq, hfound⟩ | ⟨heq, hbusy⟩
    · rw [heq]
      exact ⟨c1, i, rfl, hfound⟩
    · -- the pointer is back where it was
      have hback : ({ c with clockPointer := (c.clockPointer + n) % n } : Cache) = c := by
        simp [Nat.mod_eq_of_lt hptr]
      rw [heq, hback]
      simp only
      rcases clockMSecondPass_cases hn n c hlen hptr with ⟨c2, i, heq2, hfound⟩ |
        ⟨c2, heq2, hsame, hptr2, -, hfirst⟩
      · rw [heq2]
        exact ⟨c2, i, rfl, hfound⟩
      · obtain ⟨e, he⟩ : ∃ e, c.entries[c.clockPointer]? = some e :=
          ⟨_, List.getElem?_eq_getElem (hlen ▸ hptr)⟩
        obtain ⟨hvalid, hor⟩ := hbusy hn e he
        obtain ⟨hnot, hless⟩ := hfirst hn e he
        have huse : e.useBit = true := by
          rcases hor with huse | hmod
          · exact huse
          · cases hu : e.useBit with
            | true => rfl
            | false => simp [hvalid, hu, hmod] at hnot
        have hdrop := hless hvalid huse
        rw [heq2]
        obtain ⟨c3, i, heq3, hfound⟩ := cacheFindVictimClockM_found hn fuel c2
          (by rw [hsame.length, hlen]) hptr2 (by omega)
        exact ⟨c3, i, heq3, hfound.of_same hsame⟩

/-- **The configured search finds a victim in every cache that is not empty.** -/
theorem findVictim_found {cfg : Config} {c : Cache} (hn : 0 < cfg.cacheEntries)
    (hlen : c.entries.length = cfg.cacheEntries) (hptr : c.clockPointer < cfg.cacheEntries) :
    ∃ c' i, findVictim cfg c = some (c', i) ∧ Found cfg.cacheEntries c c' i := by
  have hfuel : c.inUse < c.entries.length + 1 := Nat.lt_succ_of_le List.countP_le_length
  unfold findVictim
  split
  · exact cacheFindVictimClock_found hn _ c hlen hptr hfuel
  · exact cacheFindVictimClockM_found hn _ c hlen hptr hfuel

end Tpso.Cpu
