/-
# Whose pages a process finds in the cache

`cache_find_entry` looks for a page number, whoever asks.  Nothing else keeps the pages of two processes
apart than that the cache holds the pages of one process only: those of the process that the CPU has.  Every
access keeps it so (`execution_owned`), a clean-up empties the cache, and what the CPU does otherwise leaves
the cache alone.

What is left is the DISPATCH, which changes the process and not the cache.  A CPU that its process left
through an interrupt is clean by then; one that its process left through a system call is not.
-/
import Tpso.Cpu.Turn
import Tpso.Cpu.Outcome
import Tpso.Cpu.Representation

namespace Tpso.Cpu

open Tpso.Lib

/-! ## 1. A cache with the pages of one process -/

/-- Every valid entry is of the process. -/
def Owned (pid : Int) (c : Cache) : Prop := ∀ e ∈ c.entries, e.isValid = true → e.pid = pid

section Owned

variable {cfg : Config} {pe : PageEntries} {mmu : Mmu} {mem : Bytes} {c c' : Cache} {pid : Int}

theorem Owned.sameButUse (h : Owned pid c) (hsame : SameButUse c c') : Owned pid c' := by
  intro e' he' hvalid
  obtain ⟨j, hj⟩ := List.getElem?_of_mem he'
  obtain ⟨e, he, hforget⟩ := hsame.getElem? hj
  obtain ⟨hv, -, hpid, -⟩ := fields_eq hforget
  rw [hpid]
  exact h e (List.mem_of_getElem? he) (hv ▸ hvalid)

theorem Owned.modify (h : Owned pid c) (i p : Nat) {f : CacheEntry → CacheEntry}
    (hf : ∀ e : CacheEntry, (e.isValid = true → e.pid = pid) → (f e).isValid = true →
      (f e).pid = pid) :
    Owned pid ⟨c.entries.modify i f, p⟩ := by
  intro e' he' hvalid
  obtain ⟨j, hj⟩ := List.getElem?_of_mem he'
  rw [List.getElem?_modify] at hj
  obtain ⟨e, he, rfl⟩ := Option.map_eq_some_iff.mp hj
  have hown := h e (List.mem_of_getElem? he)
  split
  · rename_i hij
    rw [if_pos hij] at hvalid
    exact hf e hown hvalid
  · rename_i hij
    rw [if_neg hij] at hvalid
    exact hown hvalid

theorem Owned.set (h : Owned pid c) (i p : Nat) {e : CacheEntry} (he : e.isValid = true → e.pid = pid) :
    Owned pid ⟨c.entries.set i e, p⟩ := by
  intro e' he' hvalid
  rcases List.mem_or_eq_of_mem_set he' with hold | rfl
  · exact h e' hold hvalid
  · exact he hvalid

/-- The search for a victim changes use bits, and a write-back clears the victim's content. -/
theorem selectVictimEntry_owned (hn : 0 < cfg.cacheEntries)
    (hlen : mmu.cache.entries.length = cfg.cacheEntries)
    (hptr : mmu.cache.clockPointer < cfg.cacheEntries) {mmu' : Mmu} {mem' : Bytes} {r : Option Nat}
    (hown : Owned pid mmu.cache) (h : selectVictimEntry cfg pe mmu mem = some (mmu', mem', r)) :
    Owned pid mmu'.cache := by
  obtain ⟨c', i, hfind, hfound⟩ := findVictim_found hn hlen hptr
  have hown' : Owned pid c' := hown.sameButUse hfound.same
  unfold selectVictimEntry at h
  rw [hfind, Option.bind_some] at h
  obtain ⟨victim, hvictim, h⟩ := Option.bind_eq_some_iff.mp h
  simp only at hvictim h
  split at h
  · obtain ⟨x, -, h⟩ := Option.bind_eq_some_iff.mp h
    split at h
    · obtain ⟨rfl, -, -⟩ := by simpa using h
      exact hown'
    · obtain ⟨m, -, heq⟩ := Option.map_eq_some_iff.mp h
      obtain ⟨rfl, -, -⟩ := by simpa using heq
      exact hown'.set i _ fun hvalid => hown' victim (List.mem_of_getElem? hvictim) hvalid
  · obtain ⟨rfl, -, -⟩ := by simpa using h
    exact hown'

/-- The end of a WRITE. -/
theorem storeInto_owned {i : Nat} {offset : Int} {value : List UInt8} {mmu' : Mmu} {mem' : Bytes}
    {done : Bool} (h : storeInto cfg mmu mem i offset value = some (mmu', mem', done)) :
    ∃ o, mmu'.cache = ⟨mmu.cache.entries.modify i fun e => e.store o value,
      mmu.cache.clockPointer⟩ := by
  unfold storeInto at h
  split at h
  · exact absurd h (by simp)
  · obtain ⟨rfl, -, -⟩ := by simpa using h
    exact ⟨_, rfl⟩

/-- **An access leaves the pages of its process in the cache**, and no others, when no others were
there. -/
theorem execution_owned (hn : 0 < cfg.cacheEntries) (hlen : mmu.cache.entries.length = cfg.cacheEntries)
    (hptr : mmu.cache.clockPointer < cfg.cacheEntries) {a : Access} {mmu' : Mmu} {mem' : Bytes}
    {done : Bool} (hown : Owned pid mmu.cache)
    (h : execution cfg pe pid mmu mem a = some (mmu', mem', done)) : Owned pid mmu'.cache := by
  cases a with
  | write logicDir value =>
    simp only [execution, hn, if_true, writeCached] at h
    rcases cacheFindEntry_cases mmu.cache (pageOf cfg logicDir) with
      ⟨c, i, e, hfind, -, -, -, hsame, -⟩ | ⟨hfind, -⟩
    · rw [hfind] at h
      obtain ⟨o, hcache⟩ := storeInto_owned h
      rw [hcache]
      exact (hown.sameButUse hsame).modify i _ fun e he => he
    · rw [hfind] at h
      obtain ⟨⟨mmu1, mem1, r⟩, hselect, h⟩ := Option.bind_eq_some_iff.mp h
      have hown1 := selectVictimEntry_owned hn hlen hptr hown hselect
      cases r with
      | none =>
        obtain ⟨rfl, -, -⟩ := by simpa using h
        exact hown1
      | some i =>
        obtain ⟨o, hcache⟩ := storeInto_owned h
        rw [hcache]
        exact (hown1.modify i mmu1.cache.clockPointer fun _ _ _ => rfl).modify i _ fun e he => he
  | read logicDir size =>
    simp only [execution, hn, if_true, readCached] at h
    rcases cacheFindEntry_cases mmu.cache (pageOf cfg logicDir) with
      ⟨c, i, e, hfind, -, -, -, hsame, -⟩ | ⟨hfind, -⟩
    · rw [hfind] at h
      obtain ⟨rfl, -, -⟩ := by simpa using h
      exact hown.sameButUse hsame
    · rw [hfind] at h
      obtain ⟨⟨mmu1, mem1, r⟩, hselect, h⟩ := Option.bind_eq_some_iff.mp h
      have hown1 := selectVictimEntry_owned hn hlen hptr hown hselect
      cases r with
      | none =>
        obtain ⟨rfl, -, -⟩ := by simpa using h
        exact hown1
      | some i =>
        obtain ⟨mmu2, hload, heq⟩ := Option.map_eq_some_iff.mp h
        obtain ⟨rfl, -, -⟩ := by simpa using heq
        obtain ⟨x, -, hload⟩ := Option.bind_eq_some_iff.mp hload
        obtain ⟨bytes, -, rfl⟩ := Option.map_eq_some_iff.mp hload
        exact hown1.modify i _ fun _ _ _ => rfl

end Owned

/-! ## 2. What a step does -/

section Step

variable {cfg : Config} {pe : PageEntries} {s s' : CpuState} {mem mem' : Bytes} {sent : List Sent}
  {ev : CpuEvent}

/-- What a step does to the cache: nothing, an access of the process that the CPU has, or the clean-up
of one entry. -/
inductive CacheStep (cfg : Config) (pe : PageEntries) (s : CpuState) (mem : Bytes) (c' : Cache) : Prop where
  | same (h : c' = s.mmu.cache)
  | access (a : Access) (mmu' : Mmu) (mem' : Bytes) (done : Bool)
      (h : execution cfg pe s.pid s.mmu mem a = some (mmu', mem', done)) (hcache : c' = mmu'.cache)
      (hbusy : s.phase.busy = true)
  | cleaned (i : Nat) (e : CacheEntry) (he : s.mmu.cache.entries[i]? = some e)
      (h : c' = ⟨s.mmu.cache.entries.set i e.invalidated, s.mmu.cache.clockPointer⟩)

/-- What a step does to the turn: a DISPATCH starts one, and a process that the CPU has after any other
step, it had before. -/
inductive TurnStep (s s' : CpuState) (ev : CpuEvent) : Prop where
  | dispatched (pid pc : Int) (hev : ev = .dispatch pid pc) (hpid : s'.pid = pid)
      (hphase : s'.phase = .fetching) (hcache : s'.mmu.cache = s.mmu.cache)
  | kept (hne : ∀ pid pc, ev ≠ .dispatch pid pc)
      (hturn : s'.phase.busy = true → s.phase.busy = true ∧ s'.pid = s.pid)

/-- **A step of the cycle.** -/
theorem cpuStep_cases (h : cpuStep cfg pe s mem ev = some (s', mem', sent)) :
    CacheStep cfg pe s mem s'.mmu.cache ∧ TurnStep s s' ev := by
  obtain ⟨heffect, hmove⟩ := cpuStep_effect h
  constructor
  · cases heffect with
    | same hmmu hmem hev => exact .same (by rw [hmmu])
    | access a done hev hphase hexec => exact .access a s'.mmu mem' done hexec rfl (by rw [hphase]; rfl)
    | cleaned i hev hclean =>
      obtain ⟨e, he, hclean⟩ := Option.bind_eq_some_iff.mp hclean
      obtain ⟨x, -, heq⟩ := Option.map_eq_some_iff.mp hclean
      obtain ⟨hmmu, -⟩ := Prod.mk.inj heq
      exact .cleaned i e he (by rw [← hmmu])
    | flushed hev hmmu hmem => exact .same (by rw [hmmu]; rfl)
  · cases hmove with
    | starts pid pc hev hwaiting hpid hphase =>
      refine .dispatched pid pc hev hpid hphase ?_
      cases heffect with
      | same hmmu hmem hne => rw [hmmu]
      | access a done hev' hphase' hexec => exact absurd (hev.symm.trans hev') (by simp)
      | cleaned i hev' hclean => exact absurd (hev.symm.trans hev') (by simp)
      | flushed hev' hmmu hmem => exact absurd (hev.symm.trans hev') (by simp)
    | goesOn hne hpid hbusy hmay => exact .kept hne fun hb => ⟨hbusy ▸ hb, hpid⟩
    | ends hev hbusy =>
      refine .kept ?_ fun hb => absurd (hbusy.symm.trans hb) (by simp)
      rcases hev with rfl | ⟨rfl, -⟩ <;> simp

end Step

/-! ## 3. Runs -/

/-- A cache of its size, with its pointer at an entry and every page in one slot at most. -/
structure Orderly (n : Nat) (c : Cache) : Prop where
  length : c.entries.length = n
  pointer : c.clockPointer < n
  unique : ∀ (i j : Nat) (page : Int), c.slots[i]? = some (some page) → c.slots[j]? = some (some page) → i = j

/-- A step of a CPU, and what it saw of memoria. -/
structure Seen where
  pe : PageEntries
  mem : Bytes
  event : CpuEvent

/-- One CPU from its start on: any DISPATCHes, instructions and INTERRUPTs. -/
def cpuCycle (cfg : Config) (junk : Nat → CacheEntry) : Lts CpuState Seen :=
  Lts.ofStep (CpuState.start cfg junk) fun s x => (cpuStep cfg x.pe s x.mem x.event).map Prod.fst

/-- Whichever page the process asks for, an entry that `cache_find_entry` returns is its own. -/
def Isolated (s : CpuState) : Prop :=
  s.phase.busy = true → ∀ (page : Int) (i : Nat) (e : CacheEntry),
    (cacheFindEntry s.mmu.cache page).2 = some i → s.mmu.cache.entries[i]? = some e → e.pid = s.pid

/-- At a DISPATCH, the cache has no page of another process. -/
def CleanDispatch (s : CpuState) : CpuEvent → Prop
  | .dispatch pid _ => Owned pid s.mmu.cache
  | _ => True

section Runs

variable {cfg : Config} {junk : Nat → CacheEntry} {s s' : CpuState}

/-- Every valid entry can be found. -/
theorem owned_iff_found {n : Nat} {c : Cache} (ho : Orderly n c) (pid : Int) :
    Owned pid c ↔ ∀ (page : Int) (i : Nat) (e : CacheEntry), (cacheFindEntry c page).2 = some i →
      c.entries[i]? = some e → e.pid = pid := by
  constructor
  · intro hown page i e hfind he
    rcases cacheFindEntry_cases c page with ⟨c', j, e', heq, he', hvalid, -, -, -⟩ | ⟨heq, -⟩
    · rw [heq] at hfind
      obtain rfl : j = i := Option.some.inj hfind
      obtain rfl : e' = e := Option.some.inj (he'.symm.trans he)
      exact hown e' (List.mem_of_getElem? he') hvalid
    · rw [heq] at hfind
      exact absurd hfind (by simp)
  · intro hfound e he hvalid
    obtain ⟨j, hj⟩ := List.getElem?_of_mem he
    have hslot : ∀ {k : Nat} {e' : CacheEntry}, c.entries[k]? = some e' → e'.isValid = true →
        c.slots[k]? = some (some e'.page) := by
      intro k e' hk hv
      simp [Cache.slots, hk, CacheEntry.slot, hv]
    rcases cacheFindEntry_cases c e.page with ⟨c', i, e', heq, he', hvalid', hpage, -, -⟩ | ⟨-, hmiss⟩
    · obtain rfl : i = j := ho.unique i j e.page (hpage ▸ hslot he' hvalid') (hslot hj hvalid)
      exact hfound e.page i e (by rw [heq]) hj
    · exact absurd rfl (hmiss e he hvalid)

/-- Every step keeps the cache in order. -/
theorem orderly_step {pe : PageEntries} {mem : Bytes} {c' : Cache} (hn : 0 < cfg.cacheEntries)
    (ho : Orderly cfg.cacheEntries s.mmu.cache) (h : CacheStep cfg pe s mem c') :
    Orderly cfg.cacheEntries c' := by
  cases h with
  | same h =>
    rw [h]
    exact ho
  | access a mmu' mem' done h hcache hbusy =>
    rw [hcache]
    cases execution_change hn ho.length ho.pointer h with
    | same hslots hpointer =>
      exact ⟨by rw [← length_slots, hslots, length_slots, ho.length], hpointer ▸ ho.pointer,
        hslots ▸ ho.unique⟩
    | fill page hmiss hfree hslots hpointer =>
      exact ⟨by rw [length_of_slots hslots, ho.length], hpointer ▸ Nat.mod_lt _ hn,
        unique_set hslots hmiss ho.unique⟩
    | evict page i hmiss htaken hslots hpointer =>
      exact ⟨by rw [length_of_slots hslots, ho.length], hpointer, unique_set hslots hmiss ho.unique⟩
    | refuse htaken hslots hpointer =>
      exact ⟨by rw [← length_slots, hslots, length_slots, ho.length], hpointer, hslots ▸ ho.unique⟩
  | cleaned i e he h =>
    have hslots : c'.slots = s.mmu.cache.slots.set i none := by
      rw [h, Cache.slots, List.map_set]
      rfl
    have hold : ∀ {k : Nat} {page : Int}, c'.slots[k]? = some (some page) →
        s.mmu.cache.slots[k]? = some (some page) := by
      intro k page hk
      rw [hslots, List.getElem?_set] at hk
      split at hk
      · split at hk <;> exact absurd hk (by simp)
      · exact hk
    refine ⟨by rw [length_of_slots hslots, ho.length], by rw [h]; exact ho.pointer, ?_⟩
    exact fun a b page ha hb => ho.unique a b page (hold ha) (hold hb)

/-- Every step that is not a DISPATCH keeps the pages of the process its own. -/
theorem owned_step {pe : PageEntries} {mem : Bytes} {c' : Cache} (hn : 0 < cfg.cacheEntries)
    (ho : Orderly cfg.cacheEntries s.mmu.cache) (hown : Owned s.pid s.mmu.cache)
    (h : CacheStep cfg pe s mem c') : Owned s.pid c' := by
  cases h with
  | same h =>
    rw [h]
    exact hown
  | access a mmu' mem' done h hcache hbusy =>
    rw [hcache]
    exact execution_owned hn ho.length ho.pointer hown h
  | cleaned i e he h =>
    rw [h]
    exact hown.set i _ fun hvalid => absurd hvalid (by simp [CacheEntry.invalidated])

theorem isolated_iff {n : Nat} (ho : Orderly n s.mmu.cache) :
    Isolated s ↔ (s.phase.busy = true → Owned s.pid s.mmu.cache) := by
  unfold Isolated
  rw [owned_iff_found ho]

theorem isolated_start (hn : 0 < cfg.cacheEntries) :
    Orderly cfg.cacheEntries (CpuState.start cfg junk).mmu.cache ∧ Isolated (CpuState.start cfg junk) := by
  have hrep : Represented cfg.cacheEntries (mmuInit cfg junk).cache := represented_start hn
  exact ⟨⟨hrep.length, hrep.pointer, hrep.unique⟩, fun hbusy => absurd hbusy Bool.false_ne_true⟩

/-- A step keeps the processes apart exactly when it is not a DISPATCH to a cache with pages of another. -/
theorem isolated_step_iff (hn : 0 < cfg.cacheEntries) {x : Seen} (ho : Orderly cfg.cacheEntries s.mmu.cache)
    (hiso : Isolated s) (hst : (cpuCycle cfg junk).step s x s') :
    Isolated s' ↔ CleanDispatch s x.event := by
  obtain ⟨⟨s1, m, sent⟩, h, rfl⟩ := Option.map_eq_some_iff.mp hst
  obtain ⟨hcache, hturn⟩ := cpuStep_cases h
  have ho' : Orderly cfg.cacheEntries s1.mmu.cache := orderly_step hn ho hcache
  show Isolated s1 ↔ CleanDispatch s x.event
  rw [isolated_iff ho']
  rw [isolated_iff ho] at hiso
  cases hturn with
  | dispatched pid pc hev hpid hphase hsame =>
    rw [hev, hpid, hsame, hphase]
    exact ⟨fun hall => hall rfl, fun hown _ => hown⟩
  | kept hne hturn =>
    have hclean : CleanDispatch s x.event := by
      cases hev : x.event with
      | dispatch pid pc => exact absurd hev (hne pid pc)
      | _ => trivial
    refine ⟨fun _ => hclean, fun _ hbusy => ?_⟩
    obtain ⟨hbusy0, hpid⟩ := hturn hbusy
    rw [hpid]
    exact owned_step hn ho (hiso hbusy0) hcache

/-- **Cache isolation**, for every size of the cache from 1 on, both algorithms and every run of one CPU:
any DISPATCHes, instructions and INTERRUPTs, whatever memoria answers.  A process finds only its own pages
in the cache, throughout the run, exactly when at every DISPATCH the cache has no page of another
process. -/
theorem isolated_run_iff {tr : List (Transition CpuState Seen)} (hn : 0 < cfg.cacheEntries)
    (hr : (cpuCycle cfg junk).Run tr s) :
    (Isolated s ∧ ∀ x ∈ tr, Isolated x.src) ↔ ∀ x ∈ tr, CleanDispatch x.src x.label.event := by
  refine hr.invariant_iff (J := fun s => Orderly cfg.cacheEntries s.mmu.cache) (I := Isolated)
    (C := fun s x => CleanDispatch s x.event) ?_ ?_ fun s x s' ho hiso => isolated_step_iff hn ho hiso
  · rintro s rfl
    exact isolated_start hn
  · intro s x s' ho hst
    obtain ⟨⟨s1, m, sent⟩, h, rfl⟩ := Option.map_eq_some_iff.mp hst
    exact orderly_step hn ho (cpuStep_cases h).1

/-- The entry from which a READ or WRITE is served, when it is a hit. -/
def servedEntry (cfg : Config) (s : CpuState) : CpuEvent → Option CacheEntry
  | .execute (.access a) =>
    (cacheFindEntry s.mmu.cache (pageOf cfg a.logicDir)).2.bind fun i => s.mmu.cache.entries[i]?
  | _ => none

/-- **Every hit of the run is served from an entry of its own process**, when every DISPATCH finds the cache
without pages of another. -/
theorem served_own {tr : List (Transition CpuState Seen)} (hn : 0 < cfg.cacheEntries)
    (hr : (cpuCycle cfg junk).Run tr s) (hclean : ∀ x ∈ tr, CleanDispatch x.src x.label.event) :
    ∀ x ∈ tr, ∀ e, servedEntry cfg x.src x.label.event = some e → e.pid = x.src.pid := by
  have hkept := hr.invariant_steps
    (I := fun s => Orderly cfg.cacheEntries s.mmu.cache ∧ Isolated s)
    (C := fun s x => CleanDispatch s x.event)
    (fun s hs => by
      obtain rfl := hs
      exact isolated_start hn)
    (fun s x s' hs hc hst => by
      refine ⟨?_, (isolated_step_iff hn hs.1 hs.2 hst).mpr hc⟩
      obtain ⟨⟨s1, m, sent⟩, h, rfl⟩ := Option.map_eq_some_iff.mp hst
      exact orderly_step hn hs.1 (cpuStep_cases h).1) hclean
  intro x hx e he
  obtain ⟨⟨-, hiso⟩, hst⟩ := hkept x hx
  obtain ⟨y, hstep, -⟩ := Option.map_eq_some_iff.mp hst
  cases hev : x.label.event with
  | execute instruction =>
    cases instruction with
    | access a =>
      rw [hev] at hstep he
      obtain ⟨i, hfind, hentry⟩ := Option.bind_eq_some_iff.mp he
      have hbusy : x.src.phase.busy = true := by
        cases hphase : x.src.phase with
        | fetching => rfl
        | _ => simp [cpuStep, hphase] at hstep
      exact hiso hbusy _ i e hfind hentry
    | _ => simp [servedEntry, hev] at he
  | _ => simp [servedEntry, hev] at he

end Runs

instance (pid : Int) (c : Cache) : Decidable (Owned pid c) := by
  unfold Owned
  infer_instance

instance (s : CpuState) : (ev : CpuEvent) → Decidable (CleanDispatch s ev)
  | .dispatch pid _ => inferInstanceAs (Decidable (Owned pid s.mmu.cache))
  | .noInstruction => isTrue trivial
  | .execute _ => isTrue trivial
  | .arrive _ => isTrue trivial
  | .listen => isTrue trivial
  | .handle => isTrue trivial
  | .check => isTrue trivial
  | .clean => isTrue trivial
  | .handled => isTrue trivial

/-- A step while memoria says that every page is in frame 1. -/
def seen (event : CpuEvent) : Seen := ⟨fun _ _ _ => some 1, zeros, event⟩

/-- Process 0 reads its page 0, and then leaves the CPU. -/
def readThen (leaving : List CpuEvent) : List Seen :=
  (CpuEvent.dispatch 0 0 :: .execute (.access (.read 0 4)) :: leaving).map seen

/-- The entry that process `pid` would get for page 0 is of `owner`. -/
def servedFrom (owner pid : Int) (s : CpuState) : Bool :=
  s.phase.busy && decide (s.pid = pid) &&
    ((cacheFindEntry s.mmu.cache 0).2.bind fun i => s.mmu.cache.entries[i]?).any fun e =>
      decide (e.pid = owner)

/-- The theorem at work: process 0 leaves through an interrupt, and process 1 loads page 0 anew. -/
theorem isolated_run_iff_interrupted :
    ∃ tr s, (cpuCycle pairConfig fun _ => rawEntry).Run tr s ∧ servedFrom 1 1 s = true ∧ Isolated s := by
  obtain ⟨tr, s, hrun, htest⟩ := Lts.exists_run_of_drive (CpuState.start pairConfig fun _ => rawEntry)
    (fun s (x : Seen) => (cpuStep pairConfig x.pe s x.mem x.event).map Prod.fst)
    (readThen [.arrive 0, .handle, .check, .clean, .clean, .clean, .handled, .dispatch 1 0,
      .execute (.access (.read 0 4))])
    (fun tr s => servedFrom 1 1 s &&
      tr.all fun x => decide (CleanDispatch x.src x.label.event)) (by decide +kernel)
  obtain ⟨hserved, hclean⟩ := Bool.and_eq_true_iff.mp htest
  have hall : ∀ x ∈ tr, CleanDispatch x.src x.label.event :=
    fun x hx => of_decide_eq_true (List.all_eq_true.mp hclean x hx)
  exact ⟨tr, s, hrun, hserved, ((isolated_run_iff (by decide) hrun).mpr hall).1⟩

/-- Process 0 leaves through IO, and the READ of process 1 is served from page 0 of process 0. -/
theorem not_isolated :
    ∃ tr s, (cpuCycle pairConfig fun _ => rawEntry).Run tr s ∧
      (∃ x ∈ tr, x.src.pid = 1 ∧ ∃ e, servedEntry pairConfig x.src x.label.event = some e ∧ e.pid = 0) ∧
      ¬ Isolated s := by
  obtain ⟨tr, s, hrun, htest⟩ := Lts.exists_run_of_drive (CpuState.start pairConfig fun _ => rawEntry)
    (fun s (x : Seen) => (cpuStep pairConfig x.pe s x.mem x.event).map Prod.fst)
    (readThen [.handle, .handled, .execute (.io "DISCO" 10), .handle, .handled, .dispatch 1 0,
      .execute (.access (.read 0 4))])
    (fun tr s => servedFrom 0 1 s && tr.any fun x => decide (x.src.pid = 1) &&
      (servedEntry pairConfig x.src x.label.event).any fun (e : CacheEntry) => decide (e.pid = 0))
    (by decide +kernel)
  simp only [servedFrom, Bool.and_eq_true, decide_eq_true_eq, Option.any_eq_true,
    Option.bind_eq_some_iff, List.any_eq_true] at htest
  obtain ⟨⟨⟨hbusy, hpid⟩, e, ⟨i, hfind, he⟩, howner⟩, hread⟩ := htest
  refine ⟨tr, s, hrun, hread, fun hiso => ?_⟩
  have hown := hiso hbusy 0 i e hfind he
  rw [howner, hpid] at hown
  exact absurd hown (by decide)

end Tpso.Cpu
