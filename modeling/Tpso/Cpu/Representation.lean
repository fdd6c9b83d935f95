/-
# The free slots of the page cache

Neither search for a victim looks for a free slot first: both take an unused page if they meet it
earlier.  That no page is given up while a slot is free rests on an invariant that the code does not
mention: the free slots are a run of consecutive ones that starts at the clock pointer.  A search that
begins on a free slot takes it and moves on by one; a search that begins on a page then knows that no
slot is free at all, and may leave the pointer wherever it likes.

* `Change`: what one access or one clean-up does to the slots and to the pointer, whatever memoria
  answers and whatever the user space holds;
* `represented_run`: the invariant, in every run of a CPU.
-/
import Tpso.Cpu.Execution
import Tpso.Cpu.PageWalk
import Tpso.Cpu.Victim
import Tpso.Lib.Ring
import Tpso.Lib.Run

namespace Tpso.Cpu

open Tpso.Lib

/-! ## 1. Slots -/

/-- The page in a slot, if it is taken. -/
def CacheEntry.slot (e : CacheEntry) : Option Int := if e.isValid then some e.page else none

/-- The slots of the cache. -/
def Cache.slots (c : Cache) : List (Option Int) := c.entries.map CacheEntry.slot

/-- Slot `i` is free. -/
def Cache.isFree (c : Cache) (i : Nat) : Bool := decide (c.slots[i]? = some none)

/-- The page is in the cache. -/
def Cached (c : Cache) (page : Int) : Prop := some page ∈ c.slots

/-- **The representation invariant.**  The cache has its `n` entries and the pointer is at one of them;
a page is in one slot at most; the free slots are a run that starts at the pointer. -/
structure Represented (n : Nat) (c : Cache) : Prop where
  length : c.entries.length = n
  pointer : c.clockPointer < n
  unique : ∀ (i j : Nat) (page : Int), c.slots[i]? = some (some page) → c.slots[j]? = some (some page) → i = j
  free : ∃ k, FreeRun n c.isFree c.clockPointer k

/-- What an access can do. -/
inductive Change (n : Nat) (c c' : Cache) : Prop where
  /-- A hit. -/
  | same (hslots : c'.slots = c.slots) (hpointer : c'.clockPointer = c.clockPointer)
  /-- A miss that takes the free slot under the pointer. -/
  | fill (page : Int) (hmiss : ¬ Cached c page) (hfree : c.isFree c.clockPointer = true)
      (hslots : c'.slots = c.slots.set c.clockPointer (some page))
      (hpointer : c'.clockPointer = (c.clockPointer + 1) % n)
  /-- A miss that replaces a page. -/
  | evict (page : Int) (i : Nat) (hmiss : ¬ Cached c page) (htaken : c.isFree c.clockPointer = false)
      (hslots : c'.slots = c.slots.set i (some page)) (hpointer : c'.clockPointer < n)
  /-- A miss whose victim could not be written back. -/
  | refuse (htaken : c.isFree c.clockPointer = false) (hslots : c'.slots = c.slots)
      (hpointer : c'.clockPointer < n)

/-- What a clean-up does. -/
structure Emptied (n : Nat) (c c' : Cache) : Prop where
  free : ∀ i < n, c'.isFree i = true
  length : c'.entries.length = c.entries.length
  pointer : c'.clockPointer = c.clockPointer

/-! ## 2. The invariant under a change -/

section Changes

variable {n : Nat} {c c' : Cache}

@[simp] theorem length_slots (c : Cache) : c.slots.length = c.entries.length := by
  simp [Cache.slots]

theorem length_of_slots {page : Option Int} {i : Nat} (h : c'.slots = c.slots.set i page) :
    c'.entries.length = c.entries.length := by
  rw [← length_slots, h, List.length_set, length_slots]

/-- The free slots are a matter of the slots. -/
theorem isFree_congr (h : c'.slots = c.slots) : c'.isFree = c.isFree := by
  funext i
  rw [Cache.isFree, Cache.isFree, h]

/-- The free slots after one has been filled. -/
theorem isFree_set {page : Int} {i : Nat} (h : c'.slots = c.slots.set i (some page))
    (hi : i < c.entries.length) :
    c'.isFree i = false ∧ ∀ j, j ≠ i → c'.isFree j = c.isFree j := by
  constructor
  · simp [Cache.isFree, h, hi]
  · intro j hj
    rw [Cache.isFree, Cache.isFree, h, List.getElem?_set_ne (Ne.symm hj)]

/-- A page that was not in the cache is in one slot only after it has been put there. -/
theorem unique_set {page : Int} {i : Nat} (h : c'.slots = c.slots.set i (some page))
    (hmiss : ¬ Cached c page)
    (hunique : ∀ (i j : Nat) (page : Int),
      c.slots[i]? = some (some page) → c.slots[j]? = some (some page) → i = j) :
    ∀ (i j : Nat) (page : Int), c'.slots[i]? = some (some page) → c'.slots[j]? = some (some page) → i = j := by
  intro a b q ha hb
  rw [h, List.getElem?_set] at ha hb
  have hnot : ∀ j, c.slots[j]? ≠ some (some page) := fun j hj => hmiss (List.mem_of_getElem? hj)
  split at ha
  · split at hb
    · omega
    · split at ha
      · obtain rfl : page = q := by simpa using ha
        exact absurd hb (hnot b)
      · exact absurd ha (by simp)
  · split at hb
    · split at hb
      · obtain rfl : page = q := by simpa using hb
        exact absurd ha (hnot a)
      · exact absurd hb (by simp)
    · exact hunique a b q ha hb

/-- When the slot under the pointer is taken, no slot is free. -/
theorem Represented.not_free (h : Represented n c) (htaken : c.isFree c.clockPointer = false) :
    ∀ i < n, c.isFree i = false := by
  obtain ⟨k, hk⟩ := h.free
  exact hk.eq_false h.pointer htaken

/-- **Every access keeps the invariant.** -/
theorem Represented.change (h : Represented n c) (hc : Change n c c') : Represented n c' := by
  cases hc with
  | same hslots hpointer =>
    obtain ⟨k, hk⟩ := h.free
    constructor
    · rw [← length_slots, hslots, length_slots, h.length]
    · rw [hpointer]
      exact h.pointer
    · rw [hslots]
      exact h.unique
    · rw [hpointer, isFree_congr hslots]
      exact ⟨k, hk⟩
  | fill page hmiss hfree hslots hpointer =>
    obtain ⟨k, hk⟩ := h.free
    obtain ⟨hfilled, hrest⟩ := isFree_set hslots (h.length ▸ h.pointer)
    constructor
    · rw [length_of_slots hslots, h.length]
    · rw [hpointer]
      exact Nat.mod_lt _ (by have := h.pointer; omega)
    · exact unique_set hslots hmiss h.unique
    · rw [hpointer]
      exact ⟨k - 1, hk.fill h.pointer hfree hfilled fun i _ hi => hrest i hi⟩
  | evict page i hmiss htaken hslots hpointer =>
    have hnone := h.not_free htaken
    constructor
    · rw [length_of_slots hslots, h.length]
    · exact hpointer
    · exact unique_set hslots hmiss h.unique
    · refine ⟨0, FreeRun.none fun j hj => ?_⟩
      by_cases hi : i < c.entries.length
      · obtain ⟨hfilled, hrest⟩ := isFree_set hslots hi
        by_cases hji : j = i
        · rw [hji]
          exact hfilled
        · rw [hrest j hji]
          exact hnone j hj
      · rw [List.set_eq_of_length_le (by simpa using hi)] at hslots
        rw [isFree_congr hslots]
        exact hnone j hj
  | refuse htaken hslots hpointer =>
    have hnone := h.not_free htaken
    constructor
    · rw [← length_slots, hslots, length_slots, h.length]
    · exact hpointer
    · rw [hslots]
      exact h.unique
    · rw [isFree_congr hslots]
      exact ⟨0, FreeRun.none hnone⟩

/-- An empty cache has the invariant, wherever its pointer is. -/
theorem represented_of_empty (hlength : c.entries.length = n) (hpointer : c.clockPointer < n)
    (hfree : ∀ i < n, c.isFree i = true) : Represented n c := by
  constructor
  · exact hlength
  · exact hpointer
  · intro i j page hi _
    have hlt : i < n := by
      rw [← hlength, ← length_slots]
      exact (List.getElem?_eq_some_iff.mp hi).1
    have hnone := of_decide_eq_true (hfree i hlt)
    rw [hi] at hnone
    exact absurd hnone (by simp)
  · exact ⟨n, FreeRun.all hfree⟩

/-- **A clean-up keeps it.** -/
theorem Represented.emptied (h : Represented n c) (hc : Emptied n c c') : Represented n c' :=
  represented_of_empty (hc.length.trans h.length) (hc.pointer ▸ h.pointer) hc.free

/-- **Only a full cache gives up a page.** -/
theorem Represented.full_of_lost (h : Represented n c) (hc : Change n c c') {page : Int}
    (hin : Cached c page) (hout : ¬ Cached c' page) : ∀ i < n, c.isFree i = false := by
  cases hc with
  | same hslots hpointer => exact absurd (by rwa [Cached, hslots]) hout
  | fill newPage hmiss hfree hslots hpointer =>
    -- the page is in another slot than the one that was free
    obtain ⟨i, hi⟩ := List.mem_iff_getElem?.mp hin
    have hne : c.clockPointer ≠ i := by
      rintro rfl
      have hnone := of_decide_eq_true hfree
      rw [hi] at hnone
      exact absurd hnone (by simp)
    refine absurd (List.mem_of_getElem? (i := i) ?_) hout
    rw [hslots, List.getElem?_set_ne hne, hi]
  | evict newPage i hmiss htaken hslots hpointer => exact h.not_free htaken
  | refuse htaken hslots hpointer => exact h.not_free htaken

end Changes

/-! ## 3. What the operations do -/

section Operations

variable {cfg : Config} {pe : PageEntries} {mmu : Mmu} {mem : Bytes} {c : Cache}

/-- Use bits are not in the slots. -/
theorem SameButUse.slots {c c' : Cache} (h : SameButUse c c') : c'.slots = c.slots := by
  have hslot : ∀ l : List CacheEntry,
      l.map CacheEntry.slot = (l.map CacheEntry.forgetUse).map CacheEntry.slot := by
    intro l
    rw [List.map_map]
    rfl
  rw [Cache.slots, Cache.slots, hslot, h, ← hslot]

/-- A store into an entry that leaves its slot alone. -/
theorem slots_modify {c : Cache} {i : Nat} {f : CacheEntry → CacheEntry}
    (hf : ∀ e, (f e).slot = e.slot) : (c.entries.modify i f).map CacheEntry.slot = c.slots := by
  apply List.ext_getElem?
  intro j
  rw [Cache.slots, List.getElem?_map, List.getElem?_map, List.getElem?_modify]
  cases c.entries[j]? with
  | none => rfl
  | some e =>
    by_cases hij : i = j
    · simp [hij, hf]
    · simp [hij]

/-- A store into an entry that puts a page into its slot. -/
theorem slots_modify_page {c : Cache} {i : Nat} {page : Int} {f : CacheEntry → CacheEntry}
    (hf : ∀ e, (f e).slot = some page) :
    (c.entries.modify i f).map CacheEntry.slot = c.slots.set i (some page) := by
  apply List.ext_getElem?
  intro j
  rw [Cache.slots, List.getElem?_map, List.getElem?_modify, List.getElem?_set, List.getElem?_map]
  by_cases hij : i = j
  · subst hij
    rcases Nat.lt_or_ge i c.entries.length with hlt | hge
    · simp [hlt, hf]
    · simp [not_lt.mpr hge]
  · simp [hij]

/-- `cache_find_entry` hits exactly the pages in the slots. -/
theorem cacheFindEntry_slots (c : Cache) (page : Int) :
    (cacheFindEntry c page).1.slots = c.slots ∧
      (cacheFindEntry c page).1.clockPointer = c.clockPointer ∧
      ((cacheFindEntry c page).2 = none → ¬ Cached c page) := by
  unfold cacheFindEntry
  split
  · rename_i hnone
    refine ⟨rfl, rfl, fun _ hin => ?_⟩
    obtain ⟨e, he, hslot⟩ := List.mem_map.mp hin
    have hmiss := List.findIdx?_eq_none_iff.mp hnone e he
    unfold CacheEntry.slot at hslot
    split at hslot
    · rename_i hvalid
      obtain rfl := Option.some.inj hslot
      simp [hvalid] at hmiss
    · exact absurd hslot (by simp)
  · refine ⟨slots_modify fun _ => rfl, rfl, fun h => absurd h (by simp)⟩

/-- A search that starts on a free slot takes it. -/
theorem findVictim_of_free (hfree : c.isFree c.clockPointer = true) (hn : 0 < cfg.cacheEntries) :
    findVictim cfg c =
      some ({ c with clockPointer := (c.clockPointer + 1) % cfg.cacheEntries }, c.clockPointer) := by
  obtain ⟨e, he, hslot⟩ : ∃ e, c.entries[c.clockPointer]? = some e ∧ e.slot = none := by
    have hslot := of_decide_eq_true hfree
    rw [Cache.slots, List.getElem?_map] at hslot
    exact Option.map_eq_some_iff.mp hslot
  have hvalid : e.isValid = false := by
    cases hv : e.isValid with
    | false => rfl
    | true => simp [CacheEntry.slot, hv] at hslot
  obtain ⟨m, hm⟩ : ∃ m, cfg.cacheEntries = m + 1 := ⟨cfg.cacheEntries - 1, by omega⟩
  unfold findVictim
  cases cfg.cacheAlgorithm with
  | clock => simp [cacheFindVictimClock, he, hvalid]
  | clockM => simp [cacheFindVictimClockM, hm, clockMFirstPass, he, hvalid]

/-- What a search for a victim does to the slots and the pointer. -/
theorem findVictim_slots (hn : 0 < cfg.cacheEntries) (hlen : c.entries.length = cfg.cacheEntries)
    (hptr : c.clockPointer < cfg.cacheEntries) {c' : Cache} {i : Nat}
    (h : findVictim cfg c = some (c', i)) :
    c'.slots = c.slots ∧ i < cfg.cacheEntries ∧ c'.clockPointer < cfg.cacheEntries ∧
      (c.isFree c.clockPointer = true → i = c.clockPointer ∧
        c'.clockPointer = (c.clockPointer + 1) % cfg.cacheEntries) := by
  obtain ⟨c'', i', heq, hfound⟩ := findVictim_found hn hlen hptr
  rw [h, Option.some.injEq, Prod.mk.injEq] at heq
  obtain ⟨rfl, rfl⟩ := heq
  refine ⟨hfound.same.slots, hfound.lt, hfound.pointer, fun hfree => ?_⟩
  rw [findVictim_of_free hfree hn, Option.some.injEq, Prod.mk.injEq] at h
  exact ⟨h.2.symm, by rw [← h.1]⟩

/-- What `select_victim_entry` does to them.  Only the write-back of a page can fail. -/
theorem selectVictimEntry_slots (hn : 0 < cfg.cacheEntries)
    (hlen : mmu.cache.entries.length = cfg.cacheEntries)
    (hptr : mmu.cache.clockPointer < cfg.cacheEntries) {mmu' : Mmu} {mem' : Bytes} {r : Option Nat}
    (h : selectVictimEntry cfg pe mmu mem = some (mmu', mem', r)) :
    mmu'.cache.slots = mmu.cache.slots ∧ mmu'.cache.clockPointer < cfg.cacheEntries ∧
      (mmu.cache.isFree mmu.cache.clockPointer = true → r = some mmu.cache.clockPointer ∧
        mmu'.cache.clockPointer = (mmu.cache.clockPointer + 1) % cfg.cacheEntries) := by
  unfold selectVictimEntry at h
  obtain ⟨⟨c', i⟩, hfind, h⟩ := Option.bind_eq_some_iff.mp h
  obtain ⟨victim, hvictim, h⟩ := Option.bind_eq_some_iff.mp h
  obtain ⟨hslots, hi, hptr', hfree⟩ := findVictim_slots hn hlen hptr hfind
  simp only at hvictim h
  split at h
  · rename_i hdirty
    have hvalid : victim.isValid = true := (Bool.and_eq_true_iff.mp hdirty).1
    -- the victim is a page, so the search did not start on a free slot
    have htaken : mmu.cache.isFree mmu.cache.clockPointer = true → False := by
      intro hf
      obtain ⟨rfl, -⟩ := hfree hf
      have hslot := of_decide_eq_true hf
      rw [← hslots, Cache.slots, List.getElem?_map, hvictim] at hslot
      simp [CacheEntry.slot, hvalid] at hslot
    obtain ⟨x, -, h⟩ := Option.bind_eq_some_iff.mp h
    split at h
    · obtain ⟨rfl, -, -⟩ := by simpa using h
      exact ⟨hslots, hptr', fun hf => (htaken hf).elim⟩
    · obtain ⟨m, -, heq⟩ := Option.map_eq_some_iff.mp h
      obtain ⟨rfl, -, -⟩ := by simpa using heq
      refine ⟨?_, hptr', fun hf => (htaken hf).elim⟩
      rw [← hslots]
      obtain ⟨hlt, hval⟩ := List.getElem?_eq_some_iff.mp hvictim
      have hsame : victim.cleared.slot = c'.slots.get ⟨i, by simpa using hlt⟩ := by
        simp [Cache.slots, hval, CacheEntry.slot, CacheEntry.cleared, hvalid]
      rw [Cache.slots, List.map_set, hsame]
      exact List.set_getElem_self _
  · obtain ⟨rfl, -, rfl⟩ := by simpa using h
    exact ⟨hslots, hptr', fun hf => ⟨congrArg some (hfree hf).1, (hfree hf).2⟩⟩

/-- The page of an access that missed goes into the slot of the victim. -/
theorem change_of_victim {c0 : Cache} {mmu' : Mmu} {mem' : Bytes} {r : Option Nat} {page : Int}
    (hn : 0 < cfg.cacheEntries) (hlen : c0.entries.length = cfg.cacheEntries)
    (hptr : c0.clockPointer < cfg.cacheEntries) (hslots : mmu.cache.slots = c0.slots)
    (hsame : mmu.cache.clockPointer = c0.clockPointer) (hmiss : ¬ Cached c0 page)
    (h : selectVictimEntry cfg pe mmu mem = some (mmu', mem', r)) :
    (r = none → Change cfg.cacheEntries c0 mmu'.cache) ∧
    ∀ i c', r = some i → c'.slots = mmu'.cache.slots.set i (some page) →
      c'.clockPointer = mmu'.cache.clockPointer → Change cfg.cacheEntries c0 c' := by
  have hfree0 : mmu.cache.isFree mmu.cache.clockPointer = c0.isFree c0.clockPointer := by
    rw [isFree_congr hslots, hsame]
  obtain ⟨hslots', hptr', hfree⟩ := selectVictimEntry_slots hn
    (by rw [← length_slots, hslots, length_slots, hlen]) (by rw [hsame]; exact hptr) h
  rw [hfree0, hsame] at hfree
  constructor
  · intro hnone
    cases hf : c0.isFree c0.clockPointer with
    | true =>
      rw [(hfree hf).1] at hnone
      exact absurd hnone (by simp)
    | false => exact .refuse hf (hslots'.trans hslots) hptr'
  · intro i c' hi hset hpointer
    rw [hslots', hslots] at hset
    cases hf : c0.isFree c0.clockPointer with
    | true =>
      obtain ⟨hr, hnext⟩ := hfree hf
      obtain rfl : i = c0.clockPointer := Option.some.inj (hi.symm.trans hr)
      exact .fill page hmiss hf hset (hpointer.trans hnext)
    | false => exact .evict page i hmiss hf hset (hpointer ▸ hptr')

/-- The end of a WRITE leaves the slots alone. -/
theorem storeInto_slots {i : Nat} {offset : Int} {value : List UInt8} {mmu' : Mmu} {mem' : Bytes}
    {done : Bool} (h : storeInto cfg mmu mem i offset value = some (mmu', mem', done)) :
    mmu'.cache.slots = mmu.cache.slots ∧ mmu'.cache.clockPointer = mmu.cache.clockPointer := by
  unfold storeInto at h
  split at h
  · exact absurd h (by simp)
  · obtain ⟨rfl, -, -⟩ := by simpa using h
    exact ⟨slots_modify fun _ => rfl, rfl⟩

/-- `cache_load_page` puts the page into the slot. -/
theorem cacheLoadPage_slots {logicDir : Int} {i : Nat} {pid : Int} {mmu' : Mmu}
    (h : cacheLoadPage cfg pe mmu mem logicDir i pid = some mmu') :
    mmu'.cache.slots = mmu.cache.slots.set i (some (pageOf cfg logicDir)) ∧
      mmu'.cache.clockPointer = mmu.cache.clockPointer := by
  unfold cacheLoadPage at h
  obtain ⟨x, -, h⟩ := Option.bind_eq_some_iff.mp h
  obtain ⟨bytes, -, rfl⟩ := Option.map_eq_some_iff.mp h
  exact ⟨slots_modify_page fun _ => rfl, rfl⟩

/-- **A READ or WRITE**, of any process, anywhere, whatever memoria answers. -/
theorem execution_change {pid : Int} {a : Access} {mmu' : Mmu} {mem' : Bytes} {done : Bool}
    (hn : 0 < cfg.cacheEntries) (hlen : mmu.cache.entries.length = cfg.cacheEntries)
    (hptr : mmu.cache.clockPointer < cfg.cacheEntries)
    (h : execution cfg pe pid mmu mem a = some (mmu', mem', done)) :
    Change cfg.cacheEntries mmu.cache mmu'.cache := by
  cases a with
  | write logicDir value =>
    obtain ⟨hslots, hsame, hmiss⟩ := cacheFindEntry_slots mmu.cache (pageOf cfg logicDir)
    simp only [execution, hn, if_true, writeCached] at h
    split at h
    · rename_i c i hfind
      rw [hfind] at hslots hsame
      obtain ⟨hstored, hpointer⟩ := storeInto_slots h
      exact .same (hstored.trans hslots) (hpointer.trans hsame)
    · rename_i c hfind
      rw [hfind] at hslots hsame hmiss
      obtain ⟨⟨mmu1, mem1, r⟩, hselect, h⟩ := Option.bind_eq_some_iff.mp h
      obtain ⟨hrefuse, htake⟩ := change_of_victim hn hlen hptr hslots hsame (hmiss rfl) hselect
      cases r with
      | none =>
        obtain ⟨rfl, -, -⟩ := by simpa using h
        exact hrefuse rfl
      | some i =>
        obtain ⟨hstored, hpointer⟩ := storeInto_slots h
        refine htake i mmu'.cache rfl (hstored.trans ?_) hpointer
        exact slots_modify_page fun _ => rfl
  | read logicDir size =>
    obtain ⟨hslots, hsame, hmiss⟩ := cacheFindEntry_slots mmu.cache (pageOf cfg logicDir)
    simp only [execution, hn, if_true, readCached] at h
    split at h
    · rename_i c i hfind
      rw [hfind] at hslots hsame
      obtain ⟨rfl, -, -⟩ := by simpa using h
      exact .same hslots hsame
    · rename_i c hfind
      rw [hfind] at hslots hsame hmiss
      obtain ⟨⟨mmu1, mem1, r⟩, hselect, h⟩ := Option.bind_eq_some_iff.mp h
      obtain ⟨hrefuse, htake⟩ := change_of_victim hn hlen hptr hslots hsame (hmiss rfl) hselect
      cases r with
      | none =>
        obtain ⟨rfl, -, -⟩ := by simpa using h
        exact hrefuse rfl
      | some i =>
        obtain ⟨mmu2, hload, heq⟩ := Option.map_eq_some_iff.mp h
        obtain ⟨rfl, -, -⟩ := by simpa using heq
        obtain ⟨hloaded, hpointer⟩ := cacheLoadPage_slots hload
        exact htake i mmu2.cache rfl hloaded hpointer

/-- **A clean-up.** -/
theorem mmuProcessCleanup_change {mmu' : Mmu} {mem' : Bytes}
    (hlen : mmu.cache.entries.length = cfg.cacheEntries)
    (h : mmuProcessCleanup cfg pe mmu mem = some (mmu', mem')) :
    Emptied cfg.cacheEntries mmu.cache mmu'.cache := by
  obtain ⟨x, -, heq⟩ := Option.map_eq_some_iff.mp h
  obtain ⟨rfl, -⟩ := Prod.mk.inj heq
  refine ⟨fun i hi => ?_, by simp, rfl⟩
  have hlt : i < mmu.cache.entries.length := hlen ▸ hi
  simp [Cache.isFree, Cache.slots, hlt, CacheEntry.slot, CacheEntry.invalidated]

end Operations

/-! ## 4. Runs -/

/-- What a CPU does with its cache.  The answers of memoria and the contents of the user space are
those of the moment, whoever else has written there meanwhile. -/
inductive CacheEvent where
  | access (pe : PageEntries) (mem : Bytes) (pid : Int) (a : Access)
  | cleanup (pe : PageEntries) (mem : Bytes)

/-- Whether the event is an access. -/
def CacheEvent.isAccess : CacheEvent → Bool
  | .access _ _ _ _ => true
  | .cleanup _ _ => false

/-- The MMU after an event. -/
def CacheEvent.step (cfg : Config) (mmu : Mmu) : CacheEvent → Option Mmu
  | .access pe mem pid a => (execution cfg pe pid mmu mem a).map fun x => x.1
  | .cleanup pe mem => (mmuProcessCleanup cfg pe mmu mem).map fun x => x.1

/-- A CPU from `mmu_init` on. -/
def cpuCache (cfg : Config) (junk : Nat → CacheEntry) : Lts Mmu CacheEvent :=
  Lts.ofStep (mmuInit cfg junk) (CacheEvent.step cfg)

section Runs

variable {cfg : Config} {junk : Nat → CacheEntry} {mmu mmu' : Mmu} {ev : CacheEvent}

/-- At first all slots are free. -/
theorem represented_start (hn : 0 < cfg.cacheEntries) :
    Represented cfg.cacheEntries (mmuInit cfg junk).cache := by
  refine represented_of_empty (by simp [mmuInit]) hn fun i hi => ?_
  simp [Cache.isFree, Cache.slots, mmuInit, CacheEntry.slot, hi]

/-- Every event keeps the invariant. -/
theorem represented_step (hn : 0 < cfg.cacheEntries) (hr : Represented cfg.cacheEntries mmu.cache)
    (h : ev.step cfg mmu = some mmu') : Represented cfg.cacheEntries mmu'.cache := by
  cases ev with
  | access pe mem pid a =>
    obtain ⟨⟨mmu1, mem1, done⟩, hexec, rfl⟩ := Option.map_eq_some_iff.mp h
    exact hr.change (execution_change hn hr.length hr.pointer hexec)
  | cleanup pe mem =>
    obtain ⟨⟨mmu1, mem1⟩, hclean, rfl⟩ := Option.map_eq_some_iff.mp h
    exact hr.emptied (mmuProcessCleanup_change hr.length hclean)

/-- In every run, before every event and after the last one. -/
theorem represented_everywhere {tr : List (Transition Mmu CacheEvent)} (hn : 0 < cfg.cacheEntries)
    (hr : (cpuCache cfg junk).Run tr mmu) :
    Represented cfg.cacheEntries mmu.cache ∧
      ∀ x ∈ tr, Represented cfg.cacheEntries x.src.cache ∧ x.label.step cfg x.src = some x.dst := by
  have h0 : ∀ m, (cpuCache cfg junk).init m → Represented cfg.cacheEntries m.cache := by
    rintro m rfl
    exact represented_start hn
  have hstep : ∀ m ev m', Represented cfg.cacheEntries m.cache → True →
      (cpuCache cfg junk).step m ev m' → Represented cfg.cacheEntries m'.cache :=
    fun m ev m' hm _ hst => represented_step hn hm hst
  exact ⟨hr.invariant h0 hstep fun _ _ => trivial, hr.invariant_steps h0 hstep fun _ _ => trivial⟩

/-- **The representation invariant of the cache**, for every size from 1 on, both algorithms and every
run of one CPU: any accesses of any processes, refused ones included, and clean-ups, with whatever
memoria answers meanwhile.  The cache has its entries, the pointer is at one of them, no page is in two
slots, and the free slots are a run that starts at the pointer.  Hence an access that makes a page leave
the cache finds no slot free. -/
theorem represented_run {tr : List (Transition Mmu CacheEvent)} (hn : 0 < cfg.cacheEntries)
    (hr : (cpuCache cfg junk).Run tr mmu) :
    Represented cfg.cacheEntries mmu.cache ∧
      ∀ x ∈ tr, x.label.isAccess = true → ∀ page, Cached x.src.cache page →
        ¬ Cached x.dst.cache page → ∀ i < cfg.cacheEntries, x.src.cache.isFree i = false := by
  obtain ⟨hlast, hall⟩ := represented_everywhere hn hr
  refine ⟨hlast, ?_⟩
  rintro ⟨src, label, dst⟩ hx haccess page hin hout
  obtain ⟨hsrc, hstep⟩ := hall _ hx
  cases label with
  | access pe mem pid a =>
    obtain ⟨⟨mmu1, mem1, done⟩, hexec, rfl⟩ := Option.map_eq_some_iff.mp hstep
    exact hsrc.full_of_lost (execution_change hn hsrc.length hsrc.pointer hexec) hin hout
  | cleanup pe mem => exact absurd haccess (by simp [CacheEvent.isAccess])

end Runs

/-- A CPU with a cache of two pages. -/
def pairConfig : Config := { smallConfig with cacheEntries := 2 }

/-- An entry as `malloc` may leave it. -/
def rawEntry : CacheEntry := ⟨true, 5, 0, zeros, true, true, 0, 0⟩

/-- The theorem at work on two misses that fill a cache of two entries, and a third that replaces a
page. -/
theorem represented_run_three_pages :
    ∃ tr mmu, (cpuCache pairConfig fun _ => rawEntry).Run tr mmu ∧
      mmu.cache.slots = [some 2, some 1] ∧ Represented 2 mmu.cache := by
  obtain ⟨tr, mmu, hrun, htest⟩ := Lts.exists_run_of_drive (mmuInit pairConfig fun _ => rawEntry)
    (CacheEvent.step pairConfig)
    [.access (fun _ _ _ => some 1) zeros 0 (.read 0 4),
      .access (fun _ _ _ => some 1) zeros 0 (.write 20 [104]),
      .access (fun _ _ _ => some 1) zeros 0 (.read 32 4)]
    (fun _ mmu => decide (mmu.cache.slots = [some 2, some 1])) (by decide +kernel)
  exact ⟨tr, mmu, hrun, of_decide_eq_true htest, (represented_run (by decide) hrun).1⟩

end Tpso.Cpu
