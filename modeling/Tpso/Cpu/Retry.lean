/-
# An instruction that fails is executed again

`execution` returns without advancing the program counter when `select_victim_entry` gives up, and the
instruction loop fetches the same instruction again.  Each attempt moves the clock pointer past the
victim that was refused, or clears use bits on its way to it, so that with two entries or more some
attempt comes to a victim that is accepted (`exists_executes`).  With one entry there is no other victim:
the process never advances (`not_executes_of_stuck`).
-/
import Tpso.Cpu.Outcome

namespace Tpso.Cpu

open Tpso.Lib

/-! ## 1. Progress of the search -/

/-- The search moves the pointer behind what it found, and on its way it cleared a use bit, unless it
found the entry under the pointer or one that is not dirty. -/
structure Progress (n : Nat) (c c' : Cache) (i : Nat) : Prop where
  pointer : c'.clockPointer = (i + 1) % n
  inUse : c'.inUse ≤ c.inUse
  moves : i = c.clockPointer ∨ c'.inUse < c.inUse ∨
    ∀ e, c'.entries[i]? = some e → (e.isValid && e.modifiedBit) = false

section Search

variable {n : Nat}

theorem cacheFindVictimClock_progress (fuel : Nat) :
    ∀ (c c' : Cache) (i : Nat), cacheFindVictimClock n fuel c = some (c', i) → Progress n c c' i := by
  induction fuel with
  | zero =>
    intro c c' i h
    exact absurd h (by simp [cacheFindVictimClock])
  | succ fuel ih =>
    intro c c' i h
    rw [cacheFindVictimClock] at h
    split at h
    · exact absurd h (by simp)
    · rename_i e he
      split at h
      · rename_i huse
        have hcount := inUse_set ((c.clockPointer + 1) % n) { e with useBit := false } he (by simp)
        rw [if_pos huse] at hcount
        have hrest := ih _ c' i h
        have hle := hrest.inUse
        exact ⟨hrest.pointer, by omega, Or.inr (Or.inl (by omega))⟩
      · obtain ⟨rfl, rfl⟩ := Prod.mk.inj (Option.some.inj h)
        exact ⟨rfl, le_refl _, Or.inl rfl⟩

theorem clockMFirstPass_some (k : Nat) : ∀ (c c' : Cache) (i : Nat),
    clockMFirstPass n k c = (c', some i) → c'.entries = c.entries ∧ c'.clockPointer = (i + 1) % n ∧
      ∀ e, c.entries[i]? = some e → (e.isValid && e.modifiedBit) = false := by
  induction k with
  | zero =>
    intro c c' i h
    exact absurd h (by simp [clockMFirstPass])
  | succ k ih =>
    intro c c' i h
    rw [clockMFirstPass] at h
    split at h
    · exact absurd h (by simp)
    · rename_i e he
      simp only at h
      split at h
      · rename_i hclean
        obtain ⟨rfl, hi⟩ := Prod.mk.inj h
        obtain rfl := Option.some.inj hi
        refine ⟨rfl, rfl, ?_⟩
        intro e' he'
        obtain rfl : e = e' := by simpa [he] using he'
        cases hv : e.isValid <;> cases hm : e.modifiedBit <;> simp [hv, hm] at hclean ⊢
      · exact ih { c with clockPointer := (c.clockPointer + 1) % n } c' i h

theorem clockMSecondPass_some (k : Nat) : ∀ (c c' : Cache) (i : Nat),
    clockMSecondPass n k c = (c', some i) → c'.clockPointer = (i + 1) % n ∧ c'.inUse ≤ c.inUse ∧
      (i = c.clockPointer ∨ ∀ e, c.entries[c.clockPointer]? = some e → e.isValid = true →
        e.useBit = true → c'.inUse < c.inUse) := by
  induction k with
  | zero =>
    intro c c' i h
    exact absurd h (by simp [clockMSecondPass])
  | succ k ih =>
    intro c c' i h
    rw [clockMSecondPass] at h
    split at h
    · exact absurd h (by simp)
    · rename_i e he
      simp only at h
      split at h
      · obtain ⟨rfl, hi⟩ := Prod.mk.inj h
        obtain rfl := Option.some.inj hi
        exact ⟨rfl, le_refl _, Or.inl rfl⟩
      · have hcount := inUse_set ((c.clockPointer + 1) % n)
          { e with useBit := if e.isValid then false else e.useBit } he
          (by cases e.isValid <;> simp)
        obtain ⟨hptr, hle, -⟩ := ih _ c' i h
        refine ⟨hptr, by omega, Or.inr ?_⟩
        intro e' he' hv hu
        obtain rfl : e = e' := by simpa [he] using he'
        have hone : (if (e.isValid && e.useBit) = true then 1 else 0) = 1 := by simp [hv, hu]
        omega

theorem cacheFindVictimClockM_progress (hn : 0 < n) (fuel : Nat) : ∀ (c c' : Cache) (i : Nat),
    c.entries.length = n → c.clockPointer < n → cacheFindVictimClockM n fuel c = some (c', i) →
    Progress n c c' i := by
  induction fuel with
  | zero =>
    intro c c' i _ _ h
    exact absurd h (by simp [cacheFindVictimClockM])
  | succ fuel ih =>
    intro c c' i hlen hptr h
    rw [cacheFindVictimClockM] at h
    rcases clockMFirstPass_cases hn n c hlen hptr with ⟨c1, i1, heq, -⟩ | ⟨heq, hbusy⟩
    · rw [heq] at h
      obtain ⟨rfl, rfl⟩ := Prod.mk.inj (Option.some.inj h)
      obtain ⟨hentries, hpointer, hclean⟩ := clockMFirstPass_some n c c1 i1 heq
      refine ⟨hpointer, ?_, Or.inr (Or.inr (hentries ▸ hclean))⟩
      unfold Cache.inUse
      rw [hentries]
    · -- the first pass went once around: the entry under the pointer is in use, or dirty
      have hback : ({ c with clockPointer := (c.clockPointer + n) % n } : Cache) = c := by
        simp [Nat.mod_eq_of_lt hptr]
      rw [heq, hback] at h
      simp only at h
      obtain ⟨e, he⟩ : ∃ e, c.entries[c.clockPointer]? = some e :=
        ⟨_, List.getElem?_eq_getElem (hlen ▸ hptr)⟩
      obtain ⟨hvalid, hor⟩ := hbusy hn e he
      split at h
      · rename_i c2 i2 hsecond
        obtain ⟨rfl, rfl⟩ := Prod.mk.inj (Option.some.inj h)
        obtain ⟨hpointer, hle, hmoves⟩ := clockMSecondPass_some n c c2 i2 hsecond
        refine ⟨hpointer, hle, ?_⟩
        rcases hmoves with hat | hless
        · exact Or.inl hat
        · by_cases huse : e.useBit = true
          · exact Or.inr (Or.inl (hless e he hvalid huse))
          · -- not in use and dirty: the second pass takes it at once
            have hmod : e.modifiedBit = true := by simpa [huse] using hor
            refine Or.inl ?_
            obtain ⟨k, rfl⟩ : ∃ k, n = k + 1 := ⟨n - 1, by omega⟩
            simp only [clockMSecondPass, he] at hsecond
            rw [if_pos (by simp [hvalid, huse, hmod])] at hsecond
            exact (Option.some.inj (Prod.mk.inj hsecond).2).symm
      · rename_i c2 hsecond
        rcases clockMSecondPass_cases hn n c hlen hptr with ⟨c3, i3, heq3, -⟩ |
          ⟨c3, heq3, hsame, hptr3, -, hfirst⟩
        · rw [heq3] at hsecond
          exact absurd (Prod.mk.inj hsecond).2 (by simp)
        · obtain rfl : c3 = c2 := by
            rw [heq3] at hsecond
            exact (Prod.mk.inj hsecond).1
          obtain ⟨hnot, hless⟩ := hfirst hn e he
          have huse : e.useBit = true := by
            rcases hor with huse | hmod
            · exact huse
            · cases hu : e.useBit with
              | true => rfl
              | false => simp [hvalid, hu, hmod] at hnot
          have hdrop := hless hvalid huse
          have hrest := ih c3 c' i (by rw [hsame.length, hlen]) hptr3 h
          have hle := hrest.inUse
          exact ⟨hrest.pointer, by omega, Or.inr (Or.inl (by omega))⟩

end Search

theorem findVictim_progress {cfg : Config} {c c' : Cache} {i : Nat} (hn : 0 < cfg.cacheEntries)
    (hlen : c.entries.length = cfg.cacheEntries) (hptr : c.clockPointer < cfg.cacheEntries)
    (h : findVictim cfg c = some (c', i)) : Progress cfg.cacheEntries c c' i := by
  unfold findVictim at h
  split at h
  · exact cacheFindVictimClock_progress _ c c' i h
  · exact cacheFindVictimClockM_progress hn _ c c' i hlen hptr h

/-! ## 2. Until the program counter advances -/

/-- The instruction is executed, and executed again, until the program counter advances. -/
inductive Executes (cfg : Config) (pe : PageEntries) (pid : Int) (a : Access) :
    Mmu → Bytes → Mmu → Bytes → Prop
  | done {mmu mmu' : Mmu} {mem mem' : Bytes} :
      execution cfg pe pid mmu mem a = some (mmu', mem', true) → Executes cfg pe pid a mmu mem mmu' mem'
  | again {mmu mmu1 mmu' : Mmu} {mem mem1 mem' : Bytes} :
      execution cfg pe pid mmu mem a = some (mmu1, mem1, false) →
      Executes cfg pe pid a mmu1 mem1 mmu' mem' → Executes cfg pe pid a mmu mem mmu' mem'

variable {cfg : Config} {pe : PageEntries} {pid : Int} {a : Access} {base : Int → Int → Nat}
  {mmu mmu' mmu'' : Mmu} {mem mem' mem'' : Bytes}

/-- The execution of an instruction is deterministic. -/
theorem Executes.unique (h : Executes cfg pe pid a mmu mem mmu' mem')
    (h' : Executes cfg pe pid a mmu mem mmu'' mem'') : mmu' = mmu'' ∧ mem' = mem'' := by
  induction h with
  | done hex =>
    cases h' with
    | done hex' =>
      rw [hex] at hex'
      simp only [Option.some.injEq, Prod.mk.injEq, and_true] at hex'
      exact hex'
    | again hex' _ => simp [hex] at hex'
  | again hex _ ih =>
    cases h' with
    | done hex' => simp [hex] at hex'
    | again hex' hrest =>
      rw [hex] at hex'
      simp only [Option.some.injEq, Prod.mk.injEq, and_true] at hex'
      obtain ⟨rfl, rfl⟩ := hex'
      exact ih hrest

/-- A program comes to its end if its first instruction does, and then the rest. -/
theorem runProgram_cons_iff {rest : List Access} {r : Mmu × Bytes} :
    (∃ fuel, runProgram cfg pe pid fuel (a :: rest) mmu mem = some r) ↔
      ∃ mmu' mem', Executes cfg pe pid a mmu mem mmu' mem' ∧
        ∃ fuel, runProgram cfg pe pid fuel rest mmu' mem' = some r := by
  constructor
  · rintro ⟨fuel, h⟩
    induction fuel generalizing mmu mem with
    | zero => exact absurd h (by simp [runProgram])
    | succ fuel ih =>
      rw [runProgram] at h
      obtain ⟨⟨mmu1, mem1, advanced⟩, hex, hrest⟩ := Option.bind_eq_some_iff.mp h
      cases advanced with
      | true => exact ⟨mmu1, mem1, .done hex, fuel, hrest⟩
      | false =>
        obtain ⟨mmu2, mem2, hexec, hend⟩ := ih hrest
        exact ⟨mmu2, mem2, .again hex hexec, hend⟩
  · rintro ⟨mmu', mem', hexec, fuel, hrest⟩
    induction hexec with
    | done hex =>
      refine ⟨fuel + 1, ?_⟩
      rw [runProgram, hex]
      exact hrest
    | again hex _ ih =>
      obtain ⟨fuel', h⟩ := ih hrest
      refine ⟨fuel' + 1, ?_⟩
      rw [runProgram, hex]
      exact h

/-! ## 3. A victim that is refused -/

/-- A dirty entry whose page is in frame 0. -/
def blocks (cfg : Config) (pe : PageEntries) (e : CacheEntry) : Bool :=
  e.isValid && e.modifiedBit && decide (mmuPerformPageWalk cfg pe e.page e.pid = some 0)

theorem blocks_congr {e e' : CacheEntry} (h : e'.forgetUse = e.forgetUse) :
    blocks cfg pe e' = blocks cfg pe e := by
  obtain ⟨hv, hm, hpid, hpage, -⟩ := fields_eq h
  unfold blocks
  rw [hv, hm, hpid, hpage]

/-- **What `select_victim_entry` does when it gives up**: the search has moved on, and nothing else has
changed. -/
theorem selectVictimEntry_refused (mem : Bytes) (hn : 0 < cfg.cacheEntries)
    (hok : MmuOk cfg pe base mmu) (hclear : victimClear cfg pe mmu.cache = false) :
    ∃ tlb' c' i e, selectVictimEntry cfg pe mmu mem = some (⟨tlb', c'⟩, mem, none) ∧
      TlbOk cfg pe tlb' ∧ SameButUse mmu.cache c' ∧ c'.clockPointer < cfg.cacheEntries ∧
      Progress cfg.cacheEntries mmu.cache c' i ∧ c'.entries[i]? = some e ∧ i < cfg.cacheEntries ∧
      blocks cfg pe e = true ∧ 0 < cfg.tlbEntries := by
  obtain ⟨c', i, hfind, hfound⟩ := findVictim_found hn hok.length hok.pointer
  have hprogress := findVictim_progress hn hok.length hok.pointer hfind
  have hlen' : c'.entries.length = cfg.cacheEntries := hfound.same.length.trans hok.length
  obtain ⟨victim, hvictim⟩ : ∃ e, c'.entries[i]? = some e :=
    ⟨_, List.getElem?_eq_getElem (hlen' ▸ hfound.lt)⟩
  have hnot := hclear
  simp only [victimClear, hfind, hvictim, Option.all_some, Bool.not_eq_false',
    Bool.and_eq_true, decide_eq_true_eq] at hnot
  obtain ⟨⟨⟨htlb, hvalid⟩, hmod⟩, hwalk⟩ := hnot
  obtain ⟨e, he, hsame⟩ := hfound.same.getElem? hvictim
  obtain ⟨hv, -, hpid, hpage, -⟩ := fields_eq hsame
  obtain ⟨f, hwalk', hf, hbase⟩ := hok.placed e (List.mem_of_getElem? he) (hv ▸ hvalid)
  rw [← hpid, ← hpage, hwalk] at hwalk'
  obtain ⟨tlb', haddr, htlb'⟩ := victimAddress_eq hok.tlb hwalk
  have hzero : physicalAddress cfg 0 0 = 0 := by
    simp [physicalAddress, Memoria.toInt32_eq]
  refine ⟨tlb', c', i, victim, ?_, htlb', hfound.same, hfound.pointer, hprogress, hvictim, hfound.lt,
    ?_⟩
  · simp only [selectVictimEntry, hfind, hvictim, Option.bind_some, hvalid, hmod, Bool.and_self,
      if_true, haddr]
    rw [if_pos ⟨htlb, hzero⟩]
  · exact ⟨by simp [blocks, hvalid, hmod, hwalk], htlb⟩

/-- The access is executed in vain. -/
theorem execution_refused (pid : Int) (mem : Bytes) (hn : 0 < cfg.cacheEntries) (hok : MmuOk cfg pe base mmu)
    (hclear : accessClear cfg pe mmu.cache a = false) :
    ∃ tlb' c' i e, execution cfg pe pid mmu mem a = some (⟨tlb', c'⟩, mem, false) ∧
      TlbOk cfg pe tlb' ∧ SameButUse mmu.cache c' ∧ c'.clockPointer < cfg.cacheEntries ∧
      Progress cfg.cacheEntries mmu.cache c' i ∧ c'.entries[i]? = some e ∧ i < cfg.cacheEntries ∧
      blocks cfg pe e = true ∧ 0 < cfg.tlbEntries := by
  obtain ⟨hmiss, hvictim⟩ := Bool.or_eq_false_iff.mp hclear
  have hfind : cacheFindEntry mmu.cache (pageOf cfg a.logicDir) = (mmu.cache, none) := by
    rcases cacheFindEntry_cases mmu.cache (pageOf cfg a.logicDir) with
      ⟨c1, i, e, hfind, -⟩ | ⟨hfind, -⟩
    · rw [hfind] at hmiss
      exact absurd hmiss (by simp)
    · exact hfind
  obtain ⟨tlb', c', i, e, hsel, hrest⟩ := selectVictimEntry_refused mem hn hok hvictim
  refine ⟨tlb', c', i, e, ?_, hrest⟩
  cases a with
  | read logicDir size =>
    simp only [Access.logicDir] at hfind
    simp only [execution, if_pos hn, readCached, hfind, hsel, Option.bind_some, Option.elim_none]
  | write logicDir value =>
    simp only [Access.logicDir] at hfind
    simp only [execution, if_pos hn, writeCached, hfind, hsel, Option.bind_some, Option.elim_none]

/-! ## 4. Some attempt succeeds -/

/-- At most one page that the cache keeps is in frame 0. -/
def OneBlocks (cfg : Config) (pe : PageEntries) (c : Cache) : Prop :=
  ∀ e ∈ c.entries, ∀ e' ∈ c.entries, blocks cfg pe e = true → blocks cfg pe e' = true →
    e.page = e'.page

theorem OneBlocks.sameButUse {c c' : Cache} (h : OneBlocks cfg pe c) (hsame : SameButUse c c') :
    OneBlocks cfg pe c' := by
  intro x hx y hy hbx hby
  obtain ⟨i, hi⟩ := List.getElem?_of_mem hx
  obtain ⟨j, hj⟩ := List.getElem?_of_mem hy
  obtain ⟨e, he, hse⟩ := hsame.getElem? hi
  obtain ⟨e', he', hse'⟩ := hsame.getElem? hj
  obtain ⟨-, -, -, hpe, -⟩ := fields_eq hse
  obtain ⟨-, -, -, hpe', -⟩ := fields_eq hse'
  rw [hpe, hpe']
  exact h e (List.mem_of_getElem? he) e' (List.mem_of_getElem? he') (blocks_congr hse ▸ hbx)
    (blocks_congr hse' ▸ hby)

/-- Whether the entry under the clock pointer blocks. -/
def blockedHere (cfg : Config) (pe : PageEntries) (c : Cache) : Bool :=
  (c.entries[c.clockPointer]?).any (blocks cfg pe)

/-- What each attempt in vain makes smaller. -/
def attempts (cfg : Config) (pe : PageEntries) (c : Cache) : Nat :=
  2 * c.inUse + if blockedHere cfg pe c then 1 else 0

theorem blocks_valid {e : CacheEntry} (h : blocks cfg pe e = true) : e.isValid = true := by
  simp only [blocks, Bool.and_eq_true] at h
  exact h.1.1

/-- An attempt in vain makes the measure smaller. -/
theorem attempts_lt {c' : Cache} {i : Nat} {e : CacheEntry} {tlb' : Tlb} (hn : 1 < cfg.cacheEntries)
    (hok : MmuOk cfg pe base ⟨tlb', c'⟩) (hone : OneBlocks cfg pe c') (hsame : SameButUse mmu.cache c')
    (hprogress : Progress cfg.cacheEntries mmu.cache c' i) (he : c'.entries[i]? = some e)
    (hi : i < cfg.cacheEntries) (hblocks : blocks cfg pe e = true) :
    attempts cfg pe c' < attempts cfg pe mmu.cache := by
  have hle := hprogress.inUse
  unfold attempts
  rcases hprogress.moves with hat | hless | hclean
  · -- the entry under the pointer was refused: the next one is another
    have hbefore : blockedHere cfg pe mmu.cache = true := by
      obtain ⟨e0, he0, hs⟩ := hsame.getElem? he
      rw [blockedHere, ← hat, he0, Option.any_some, ← blocks_congr hs]
      exact hblocks
    have hafter : blockedHere cfg pe c' = false := by
      by_contra hb
      obtain ⟨x, hx, hb'⟩ := (Option.any_eq_true _ _).mp (Bool.eq_true_of_not_eq_false hb)
      have hpage := hone x (List.mem_of_getElem? hx) e (List.mem_of_getElem? he) hb' hblocks
      have heq := hok.distinct _ i x e hx he (blocks_valid hb') (blocks_valid hblocks) hpage
      rw [hprogress.pointer] at heq
      rcases Nat.lt_or_ge (i + 1) cfg.cacheEntries with hlt | hge
      · rw [Nat.mod_eq_of_lt hlt] at heq
        omega
      · have hend : i + 1 = cfg.cacheEntries := by omega
        rw [hend, Nat.mod_self] at heq
        omega
    rw [hbefore, hafter]
    simp only [if_true, Bool.false_eq_true, if_false]
    omega
  · split <;> split <;> omega
  · have hnot := hclean e he
    simp only [blocks, Bool.and_eq_true] at hblocks
    rw [hblocks.1.1, hblocks.1.2] at hnot
    exact absurd hnot (by simp)

/-- **With two entries or more some attempt is accepted.** -/
theorem exists_accepted (hn : 1 < cfg.cacheEntries) (a : Access) (mem : Bytes) (m : Nat) :
    ∀ mmu : Mmu, attempts cfg pe mmu.cache < m → MmuOk cfg pe base mmu → OneBlocks cfg pe mmu.cache →
      ∃ mmu1, SameButUse mmu.cache mmu1.cache ∧ MmuOk cfg pe base mmu1 ∧
        accessClear cfg pe mmu1.cache a = true ∧ ∀ mmu' mem', Executes cfg pe pid a mmu1 mem mmu' mem' →
          Executes cfg pe pid a mmu mem mmu' mem' := by
  induction m with
  | zero => exact fun mmu h => absurd h (Nat.not_lt_zero _)
  | succ m ih =>
    intro mmu hm hok hone
    by_cases hclear : accessClear cfg pe mmu.cache a = true
    · exact ⟨mmu, SameButUse.refl _, hok, hclear, fun _ _ h => h⟩
    · obtain ⟨tlb', c', i, e, hex, htlb, hsame, hptr, hprogress, he, hi, hblocks, -⟩ :=
        execution_refused pid mem (by omega) hok (by simpa using hclear)
      have hok' : MmuOk cfg pe base ⟨tlb', c'⟩ := hok.searched htlb hsame hptr
      have hone' : OneBlocks cfg pe c' := hone.sameButUse hsame
      have hlt := attempts_lt hn hok' hone' hsame hprogress he hi hblocks
      obtain ⟨mmu1, hsame1, hok1, hclear1, hexec⟩ := ih ⟨tlb', c'⟩ (by
        show attempts cfg pe c' < m
        omega) hok' hone'
      exact ⟨mmu1, hsame.trans hsame1, hok1, hclear1, fun mmu' mem' h => .again hex (hexec mmu' mem' h)⟩

/-- **The condition under which a process never advances**: the cache has a single entry, the access
misses it, and the entry is dirty with its page in frame 0, which the TLB is trusted about. -/
def stuck (cfg : Config) (pe : PageEntries) (cache : Cache) (a : Access) : Bool :=
  decide (cfg.cacheEntries = 1) && decide (0 < cfg.tlbEntries) &&
    (cacheFindEntry cache (pageOf cfg a.logicDir)).2.isNone && cache.entries.any (blocks cfg pe)

/-- **A READ or WRITE inside a mapped page is executed in the end**, unless the process is stuck. -/
theorem exists_executes (mem : Bytes) (hn : 0 < cfg.cacheEntries) (hok : MmuOk cfg pe base mmu)
    (hone : OneBlocks cfg pe mmu.cache) (hin : InPage cfg a)
    (hplaced : Placed cfg pe base pid (pageOf cfg a.logicDir)) (hfree : stuck cfg pe mmu.cache a = false) :
    ∃ mmu' mem', Executes cfg pe pid a mmu mem mmu' mem' ∧
      Outcome cfg base pid mmu.cache mem a mmu'.cache mem' ∧ MmuOk cfg pe base mmu' := by
  obtain ⟨mmu1, hsame, hok1, hclear, hexec⟩ : ∃ mmu1, SameButUse mmu.cache mmu1.cache ∧
      MmuOk cfg pe base mmu1 ∧ accessClear cfg pe mmu1.cache a = true ∧
      ∀ mmu' mem', Executes cfg pe pid a mmu1 mem mmu' mem' → Executes cfg pe pid a mmu mem mmu' mem' := by
    rcases Nat.lt_or_ge 1 cfg.cacheEntries with hmany | hle
    · exact exists_accepted hmany a mem _ mmu (Nat.lt_succ_self _) hok hone
    · refine ⟨mmu, SameButUse.refl _, hok, ?_, fun _ _ h => h⟩
      by_contra hclear
      have hclear' : accessClear cfg pe mmu.cache a = false := by simpa using hclear
      obtain ⟨tlb', c', i, e, -, -, hs, -, -, he, -, hblocks, htlb⟩ :=
        execution_refused pid mem hn hok hclear'
      obtain ⟨e0, he0, hse⟩ := hs.getElem? he
      have hany : mmu.cache.entries.any (blocks cfg pe) = true :=
        List.any_eq_true.mpr ⟨e0, List.mem_of_getElem? he0, blocks_congr hse ▸ hblocks⟩
      have hmiss := (Bool.or_eq_false_iff.mp hclear').1
      have h1 : cfg.cacheEntries = 1 := by omega
      simp only [stuck, h1, htlb, decide_true, Bool.true_and, hany, Bool.and_true] at hfree
      rw [Option.isNone_eq_false_iff] at hfree
      rw [hfree] at hmiss
      exact absurd hmiss (by simp)
  obtain ⟨mmu', mem', hex, hout, hok'⟩ := @execution_outcome _ _ _ _ mem _ a hn hok1 hin hplaced hclear
  exact ⟨mmu', mem', hexec mmu' mem' (.done hex), hout.sameButUse hsame, hok'⟩

/-- A search that misses leaves the cache alone. -/
theorem cacheFindEntry_isNone {c : Cache} {page : Int} :
    (cacheFindEntry c page).2.isNone = true ↔ Missing c page := by
  rcases cacheFindEntry_cases c page with ⟨c1, i, e, hfind, he, hvalid, hpage, -⟩ | ⟨hfind, hmiss⟩
  · rw [hfind]
    simp only [Option.isNone_some, Bool.false_eq_true, false_iff]
    exact fun h => h e (List.mem_of_getElem? he) hvalid hpage
  · rw [hfind]
    simpa using hmiss

theorem stuck_sameButUse {c c' : Cache} (h : SameButUse c c') (hs : stuck cfg pe c a = true) :
    stuck cfg pe c' a = true := by
  simp only [stuck, Bool.and_eq_true, decide_eq_true_eq] at hs ⊢
  obtain ⟨⟨⟨hone, htlb⟩, hmiss⟩, hany⟩ := hs
  refine ⟨⟨⟨hone, htlb⟩, ?_⟩, ?_⟩
  · rw [cacheFindEntry_isNone] at hmiss ⊢
    exact hmiss.sameButUse h.symm
  · obtain ⟨e, he, hblocks⟩ := List.any_eq_true.mp hany
    obtain ⟨i, hi⟩ := List.getElem?_of_mem he
    obtain ⟨e', he', hse⟩ := h.symm.getElem? hi
    exact List.any_eq_true.mpr ⟨e', List.mem_of_getElem? he', blocks_congr hse ▸ hblocks⟩

/-- In a cache of one entry the search can only find that entry. -/
theorem accessClear_of_stuck (hok : MmuOk cfg pe base mmu) (hs : stuck cfg pe mmu.cache a = true) :
    accessClear cfg pe mmu.cache a = false := by
  simp only [stuck, Bool.and_eq_true, decide_eq_true_eq] at hs
  obtain ⟨⟨⟨hone, htlb⟩, hmiss⟩, hany⟩ := hs
  have hn : 0 < cfg.cacheEntries := by omega
  obtain ⟨c', i, hfind, hfound⟩ := findVictim_found hn hok.length hok.pointer
  have hlen' : c'.entries.length = cfg.cacheEntries := hfound.same.length.trans hok.length
  obtain ⟨victim, hvictim⟩ : ∃ e, c'.entries[i]? = some e :=
    ⟨_, List.getElem?_eq_getElem (hlen' ▸ hfound.lt)⟩
  obtain ⟨e, he, hse⟩ := hfound.same.getElem? hvictim
  obtain ⟨e0, he0, hblocks⟩ := List.any_eq_true.mp hany
  obtain ⟨j, hj⟩ := List.getElem?_of_mem he0
  have hjlt : j < cfg.cacheEntries := hok.length ▸ (List.getElem?_eq_some_iff.mp hj).1
  have hij : i = j := by
    have := hfound.lt
    omega
  subst hij
  obtain rfl : e = e0 := by simpa [he] using hj
  rw [← blocks_congr hse] at hblocks
  simp only [blocks, Bool.and_eq_true, decide_eq_true_eq] at hblocks
  obtain ⟨⟨hvalid, hmod⟩, hwalk⟩ := hblocks
  rw [accessClear, Option.isSome_eq_false_iff.mpr hmiss, Bool.false_or]
  simp [victimClear, hfind, hvictim, htlb, hvalid, hmod, hwalk]

/-- **A stuck process never advances.** -/
theorem not_executes_of_stuck (h : Executes cfg pe pid a mmu mem mmu' mem') :
    MmuOk cfg pe base mmu → stuck cfg pe mmu.cache a = true → False := by
  induction h with
  | @done mmu mmu' mem mem' hex =>
    intro hok hs
    have hn : cfg.cacheEntries = 1 := by
      simp only [stuck, Bool.and_eq_true, decide_eq_true_eq] at hs
      exact hs.1.1.1
    obtain ⟨tlb', c', i, e, hex', -⟩ := execution_refused pid mem (by omega) hok
      (accessClear_of_stuck hok hs)
    rw [hex] at hex'
    simp at hex'
  | @again mmu mmu1 mmu' mem mem1 mem' hex _ ih =>
    intro hok hs
    have hn : cfg.cacheEntries = 1 := by
      simp only [stuck, Bool.and_eq_true, decide_eq_true_eq] at hs
      exact hs.1.1.1
    obtain ⟨tlb', c', i, e, hex', htlb, hsame, hptr, -⟩ := execution_refused pid mem (by omega)
      hok (accessClear_of_stuck hok hs)
    rw [hex] at hex'
    simp only [Option.some.injEq, Prod.mk.injEq, and_true] at hex'
    obtain ⟨rfl, rfl⟩ := hex'
    exact ih (hok.searched htlb hsame hptr) (stuck_sameButUse hsame hs)

end Tpso.Cpu
