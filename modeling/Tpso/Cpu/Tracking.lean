/-
# What the modified region of an entry covers

Of a modified entry only the region from `modified_start` to `modified_end` is written back.  The region is
set at several places: a WRITE that misses sets it, and then a WRITE, whether it hit or missed, sets it again
or extends it, according to a modified bit which in a slot that has just been taken is what `malloc`, an
earlier page or the last clean-up left there.  A load empties it, and so does a clean-up.

Beside a run of a CPU the bytes are recorded that were written to each entry since its slot was taken, or the
cache cleaned up (`written`).

* `Used`: what an access does to the entries, whatever memoria answers;
* `covers_run`: in every run of WRITEs inside their pages the region covers what was written, and the entry
  has the bytes that were written last.
-/
import Tpso.Cpu.Outcome
import Tpso.Cpu.Representation

namespace Tpso.Cpu

open Tpso.Lib

/-! ## 1. What was written -/

/-- The bytes of an access, over what was written before. -/
def Access.writes (cfg : Config) (w : Nat → Option UInt8) : Access → Nat → Option UInt8
  | .read _ _, o => w o
  | .write logicDir value, o =>
    if (offsetOf cfg logicDir).toNat ≤ o ∧ o < (offsetOf cfg logicDir).toNat + value.length then
      value[o - (offsetOf cfg logicDir).toNat]?
    else w o

/-- The entry that an access uses, and whether its slot was taken for the page. -/
def Access.entry (cfg : Config) (pe : PageEntries) (mmu : Mmu) (mem : Bytes) (a : Access) :
    Option (Nat × Bool) :=
  match (cacheFindEntry mmu.cache (pageOf cfg a.logicDir)).2 with
  | some i => some (i, false)
  | none => ((selectVictimEntry cfg pe mmu mem).bind fun x => x.2.2).map fun i => (i, true)

/-- What was written to each entry, after an access that used this one. -/
def Access.record (cfg : Config) (w : Nat → Nat → Option UInt8) (a : Access) :
    Option (Nat × Bool) → Nat → Nat → Option UInt8
  | none => w
  | some (i, taken) => Function.update w i (a.writes cfg (if taken then fun _ => none else w i))

/-- What was written to each entry, after an event. -/
def CacheEvent.record (cfg : Config) (mmu : Mmu) (w : Nat → Nat → Option UInt8) :
    CacheEvent → Nat → Nat → Option UInt8
  | .access pe mem _ a => a.record cfg w (a.entry cfg pe mmu mem)
  | .cleanup _ _ => fun _ _ => none

/-- **The bytes written to each entry**, by offset, since its slot was taken or the cache was cleaned up. -/
def written (cfg : Config) (tr : List (Transition Mmu CacheEvent)) : Nat → Nat → Option UInt8 :=
  tr.foldl (fun w x => x.label.record cfg x.src w) fun _ _ => none

theorem written_append (cfg : Config) (tr : List (Transition Mmu CacheEvent))
    (x : Transition Mmu CacheEvent) :
    written cfg (tr ++ [x]) = x.label.record cfg x.src (written cfg tr) := by
  simp [written]

/-- A WRITE has a string that is not empty, and it lies in one page. -/
def CacheEvent.InPage (cfg : Config) : CacheEvent → Prop
  | .access _ _ _ (.write logicDir value) =>
    value ≠ [] ∧ 0 ≤ offsetOf cfg logicDir ∧ offsetOf cfg logicDir + value.length ≤ cfg.pageSize
  | _ => True

/-! ## 2. One entry -/

/-- **The region is one of the page and covers what was written**, and the entry has these bytes. -/
structure Covers (cfg : Config) (e : CacheEntry) (w : Nat → Option UInt8) : Prop where
  nonempty : e.modifiedStart < e.modifiedEnd
  inPage : e.modifiedEnd ≤ cfg.pageSize
  covered : ∀ o v, w o = some v → e.modifiedStart ≤ o ∧ o < e.modifiedEnd
  content : ∀ o v, w o = some v → e.content o = v

/-- An entry and what was written to it. -/
structure Tracked (cfg : Config) (e : CacheEntry) (w : Nat → Option UInt8) : Prop where
  modified : e.isValid = true → e.modifiedBit = true → Covers cfg e w
  clean : e.isValid = true → e.modifiedBit = false → ∀ o, w o = none

section Entry

variable {cfg : Config} {e e' : CacheEntry} {w : Nat → Option UInt8} {logicDir : Int}
  {value : List UInt8}

theorem Tracked.congr (h : Tracked cfg e w) (hsame : e'.forgetUse = e.forgetUse) : Tracked cfg e' w := by
  obtain ⟨v, page, pid, content, use, m, s, f⟩ := e
  obtain ⟨v', page', pid', content', use', m', s', f'⟩ := e'
  simp only [CacheEntry.forgetUse, CacheEntry.mk.injEq] at hsame
  obtain ⟨rfl, rfl, rfl, rfl, -, rfl, rfl, rfl⟩ := hsame
  exact ⟨fun hv hm => ⟨(h.modified hv hm).1, (h.modified hv hm).2, (h.modified hv hm).3,
    (h.modified hv hm).4⟩, h.clean⟩

/-- What is not valid or not modified, with nothing written, is tracked. -/
theorem tracked_of_clean (h : e.isValid = true → e.modifiedBit = false) (hw : ∀ o, w o = none) :
    Tracked cfg e w :=
  ⟨fun hv hm => absurd (h hv) (by simp [hm]), fun _ _ => hw⟩

/-- The byte at an offset after a WRITE: one of the string, or the byte before. -/
theorem writes_cases (cfg : Config) (w : Nat → Option UInt8) {o : Nat} {v : UInt8}
    (h : (Access.write logicDir value).writes cfg w o = some v) :
    ((offsetOf cfg logicDir).toNat ≤ o ∧ o < (offsetOf cfg logicDir).toNat + value.length ∧
      value.getD (o - (offsetOf cfg logicDir).toNat) 0 = v) ∨
    (¬ ((offsetOf cfg logicDir).toNat ≤ o ∧ o < (offsetOf cfg logicDir).toNat + value.length) ∧
      w o = some v) := by
  simp only [Access.writes] at h
  split at h
  · rename_i hin
    refine Or.inl ⟨hin.1, hin.2, ?_⟩
    rw [List.getD_eq_getElem?_getD, h, Option.getD_some]
  · rename_i hout
    exact Or.inr ⟨hout, h⟩

/-- **A WRITE into a modified entry extends the region.** -/
theorem Covers.store (h : Covers cfg e w) (hmod : e.modifiedBit = true) (hne : value ≠ [])
    (hfit : (offsetOf cfg logicDir).toNat + value.length ≤ cfg.pageSize) :
    Covers cfg (e.store (offsetOf cfg logicDir).toNat value)
      ((Access.write logicDir value).writes cfg w) := by
  have hlen := List.length_pos_iff.mpr hne
  have hregion := h.nonempty
  have hin := h.inPage
  constructor
  · simp only [CacheEntry.store, hmod, if_true]
    omega
  · simp only [CacheEntry.store, hmod, if_true]
    omega
  · intro o v hw
    simp only [CacheEntry.store, hmod, if_true]
    rcases writes_cases cfg w hw with ⟨hlo, hhi, -⟩ | ⟨-, hold⟩
    · omega
    · have hcovered := h.covered o v hold
      omega
  · intro o v hw
    simp only [CacheEntry.store]
    rcases writes_cases cfg w hw with ⟨hlo, hhi, hv⟩ | ⟨hout, hold⟩
    · rw [Bytes.blit_of_mem hlo hhi, hv]
    · rw [Bytes.blit_of_not_mem hout, h.content o v hold]

/-- **A WRITE into an entry to which nothing was written** makes the region its own. -/
theorem covers_first (hfresh : e.modifiedBit = true →
      e.modifiedStart = (offsetOf cfg logicDir).toNat ∧
        e.modifiedEnd = (offsetOf cfg logicDir).toNat + value.length)
    (hw : ∀ o, w o = none) (hne : value ≠ [])
    (hfit : (offsetOf cfg logicDir).toNat + value.length ≤ cfg.pageSize) :
    Covers cfg (e.store (offsetOf cfg logicDir).toNat value)
      ((Access.write logicDir value).writes cfg w) := by
  have hlen := List.length_pos_iff.mpr hne
  -- whatever the modified bit was, the region is that of the string
  have hregion : (e.store (offsetOf cfg logicDir).toNat value).modifiedStart =
        (offsetOf cfg logicDir).toNat ∧
      (e.store (offsetOf cfg logicDir).toNat value).modifiedEnd =
        (offsetOf cfg logicDir).toNat + value.length := by
    cases hmod : e.modifiedBit with
    | false => simp [CacheEntry.store, hmod]
    | true =>
      obtain ⟨hstart, hend⟩ := hfresh hmod
      simp [CacheEntry.store, hmod, hstart, hend]
  constructor
  · rw [hregion.1, hregion.2]
    omega
  · rw [hregion.2]
    exact hfit
  · intro o v hv
    rw [hregion.1, hregion.2]
    rcases writes_cases cfg w hv with ⟨hlo, hhi, -⟩ | ⟨-, hold⟩
    · exact ⟨hlo, hhi⟩
    · rw [hw] at hold
      exact absurd hold (by simp)
  · intro o v hv
    simp only [CacheEntry.store]
    rcases writes_cases cfg w hv with ⟨hlo, hhi, hbyte⟩ | ⟨-, hold⟩
    · rw [Bytes.blit_of_mem hlo hhi, hbyte]
    · rw [hw] at hold
      exact absurd hold (by simp)

/-- A WRITE that hits keeps track. -/
theorem Tracked.store (h : Tracked cfg e w) (hvalid : e.isValid = true) (hne : value ≠ [])
    (hfit : (offsetOf cfg logicDir).toNat + value.length ≤ cfg.pageSize) :
    Tracked cfg (e.store (offsetOf cfg logicDir).toNat value)
      ((Access.write logicDir value).writes cfg w) := by
  refine ⟨fun _ _ => ?_, fun _ hclean => absurd hclean (by simp [CacheEntry.store])⟩
  cases hmod : e.modifiedBit with
  | false => exact covers_first (fun h => absurd h (by simp [hmod])) (h.clean hvalid hmod) hne hfit
  | true => exact (h.modified hvalid hmod).store hmod hne hfit

/-- **A WRITE that misses is tracked from the start**, whatever was in the slot. -/
theorem tracked_setUp (e : CacheEntry) (page pid : Int) (hne : value ≠ [])
    (hfit : (offsetOf cfg logicDir).toNat + value.length ≤ cfg.pageSize) :
    Tracked cfg ((e.setUp page pid (offsetOf cfg logicDir).toNat value.length).store
        (offsetOf cfg logicDir).toNat value)
      ((Access.write logicDir value).writes cfg fun _ => none) :=
  ⟨fun _ _ => covers_first (fun _ => ⟨rfl, rfl⟩) (fun _ => rfl) hne hfit,
    fun _ hclean => absurd hclean (by simp [CacheEntry.store])⟩

end Entry

/-! ## 3. What an access does to the entries -/

/-- **What an access does to the entries**, whatever memoria answers: it uses none, one that holds its page, or
one that was taken for it. -/
inductive Used (cfg : Config) (c c' : Cache) : Access → Option (Nat × Bool) → Prop
  | nothing {a : Access} (hsame : SameButUse c c') : Used cfg c c' a none
  | readHit {logicDir size : Int} {i : Nat} (hsame : SameButUse c c') :
      Used cfg c c' (.read logicDir size) (some (i, false))
  | writeHit {logicDir : Int} {value : List UInt8} {i : Nat} {e e' : CacheEntry}
      (hget : c.entries[i]? = some e) (hvalid : e.isValid = true) (helse : SameElse i c c')
      (hget' : c'.entries[i]? = some e')
      (hstore : e'.forgetUse = (e.store (offsetOf cfg logicDir).toNat value).forgetUse) :
      Used cfg c c' (.write logicDir value) (some (i, false))
  | readMiss {logicDir size : Int} {i : Nat} (helse : SameElse i c c')
      (hloaded : ∀ e' ∈ c'.entries[i]?, e'.modifiedBit = false) :
      Used cfg c c' (.read logicDir size) (some (i, true))
  | writeMiss {logicDir : Int} {value : List UInt8} {i : Nat} (helse : SameElse i c c')
      (hstored : ∀ e' ∈ c'.entries[i]?, ∃ (e : CacheEntry) (page pid : Int),
        e' = (e.setUp page pid (offsetOf cfg logicDir).toNat value.length).store
          (offsetOf cfg logicDir).toNat value) :
      Used cfg c c' (.write logicDir value) (some (i, true))

section Uses

variable {cfg : Config} {pe : PageEntries} {mmu mmu' : Mmu} {mem mem' : Bytes}

/-- `select_victim_entry` leaves all entries but the victim alone, and all of them if it gives up. -/
theorem selectVictimEntry_else (hn : 0 < cfg.cacheEntries)
    (hlen : mmu.cache.entries.length = cfg.cacheEntries)
    (hptr : mmu.cache.clockPointer < cfg.cacheEntries) {r : Option Nat}
    (h : selectVictimEntry cfg pe mmu mem = some (mmu', mem', r)) :
    (r = none → SameButUse mmu.cache mmu'.cache) ∧
      ∀ i, r = some i → SameElse i mmu.cache mmu'.cache := by
  unfold selectVictimEntry at h
  obtain ⟨⟨c', j⟩, hfind, h⟩ := Option.bind_eq_some_iff.mp h
  obtain ⟨victim, hvictim, h⟩ := Option.bind_eq_some_iff.mp h
  obtain ⟨c'', j', heq, hfound⟩ := findVictim_found hn hlen hptr
  obtain ⟨rfl, rfl⟩ := Prod.mk.inj (Option.some.inj (hfind.symm.trans heq))
  simp only at h
  split at h
  · obtain ⟨x, -, h⟩ := Option.bind_eq_some_iff.mp h
    split at h
    · obtain ⟨rfl, -, rfl⟩ := by simpa using h
      exact ⟨fun _ => hfound.same, fun i hi => absurd hi (by simp)⟩
    · obtain ⟨m, -, heq⟩ := Option.map_eq_some_iff.mp h
      obtain ⟨rfl, -, rfl⟩ := by simpa using heq
      refine ⟨fun hnone => absurd hnone (by simp), fun i hi => ?_⟩
      obtain rfl := Option.some.inj hi
      exact (hfound.same.sameElse _).trans (sameElse_set _ c' _ _)
  · obtain ⟨rfl, -, rfl⟩ := by simpa using h
    exact ⟨fun hnone => absurd hnone (by simp), fun i _ => hfound.same.sameElse i⟩

/-- The copy of a WRITE goes to one entry. -/
theorem storeInto_cache {m : Mmu} {i : Nat} {offset : Int} {value : List UInt8} {done : Bool}
    (h : storeInto cfg m mem i offset value = some (mmu', mem', done)) :
    mmu'.cache = { m.cache with
      entries := m.cache.entries.modify i fun e => e.store offset.toNat value } := by
  unfold storeInto at h
  split at h
  · exact absurd h (by simp)
  · obtain ⟨rfl, -, -⟩ := by simpa using h
    rfl

/-- An access that misses uses the slot of the victim. -/
theorem entry_of_miss {a : Access} {c : Cache}
    (hmiss : cacheFindEntry mmu.cache (pageOf cfg a.logicDir) = (c, none)) {r : Option Nat} {mmu1 : Mmu}
    {mem1 : Bytes} (hsel : selectVictimEntry cfg pe mmu mem = some (mmu1, mem1, r)) :
    a.entry cfg pe mmu mem = r.map fun i => (i, true) := by
  simp [Access.entry, hmiss, hsel]

/-- **A READ or WRITE with the cache.** -/
theorem execution_used {pid : Int} {a : Access} {done : Bool} (hn : 0 < cfg.cacheEntries)
    (hlen : mmu.cache.entries.length = cfg.cacheEntries)
    (hptr : mmu.cache.clockPointer < cfg.cacheEntries)
    (h : execution cfg pe pid mmu mem a = some (mmu', mem', done)) :
    Used cfg mmu.cache mmu'.cache a (a.entry cfg pe mmu mem) := by
  cases a with
  | read logicDir size =>
    simp only [execution, hn, if_true, readCached] at h
    rcases cacheFindEntry_cases mmu.cache (pageOf cfg logicDir) with
      ⟨c, i, e, hfind, -, -, -, hsame, -⟩ | ⟨hfind, -⟩
    · rw [hfind] at h
      obtain ⟨rfl, -, -⟩ := by simpa using h
      have hentry : (Access.read logicDir size).entry cfg pe mmu mem = some (i, false) := by
        simp [Access.entry, Access.logicDir, hfind]
      rw [hentry]
      exact .readHit hsame
    · rw [hfind] at h
      obtain ⟨⟨mmu1, mem1, r⟩, hsel, h⟩ := Option.bind_eq_some_iff.mp h
      obtain ⟨hrefused, helse⟩ := selectVictimEntry_else hn hlen hptr hsel
      rw [entry_of_miss (a := .read logicDir size) hfind hsel]
      cases r with
      | none =>
        obtain ⟨rfl, -, -⟩ := by simpa using h
        exact .nothing (hrefused rfl)
      | some i =>
        obtain ⟨mmu2, hload, heq⟩ := Option.map_eq_some_iff.mp h
        obtain ⟨rfl, -, -⟩ := by simpa using heq
        obtain ⟨x, -, hload⟩ := Option.bind_eq_some_iff.mp hload
        obtain ⟨bytes, -, rfl⟩ := Option.map_eq_some_iff.mp hload
        refine .readMiss ((helse i rfl).trans (sameElse_modify i _ _)) fun e' he' => ?_
        simp only [List.getElem?_modify_eq, Option.mem_def, Option.map_eq_map,
          Option.map_eq_some_iff] at he'
        obtain ⟨e, -, rfl⟩ := he'
        rfl
  | write logicDir value =>
    simp only [execution, hn, if_true, writeCached] at h
    rcases cacheFindEntry_cases mmu.cache (pageOf cfg logicDir) with
      ⟨c, i, e, hfind, hget, hvalid, -, hsame, -⟩ | ⟨hfind, -⟩
    · rw [hfind] at h
      have hentry : (Access.write logicDir value).entry cfg pe mmu mem = some (i, false) := by
        simp [Access.entry, Access.logicDir, hfind]
      have hcache : mmu'.cache = _ := storeInto_cache h
      -- the entry found, with its use bit set
      obtain ⟨e1, he1, hsame1⟩ : ∃ e1, c.entries[i]? = some e1 ∧ e1.forgetUse = e.forgetUse := by
        have hi : (c.entries.map CacheEntry.forgetUse)[i]? = some e.forgetUse := by
          rw [hsame, List.getElem?_map, hget, Option.map_some]
        rw [List.getElem?_map] at hi
        exact Option.map_eq_some_iff.mp hi
      rw [hentry, hcache]
      have hget1 : (c.entries.modify i fun entry => entry.store (offsetOf cfg logicDir).toNat value)[i]? =
          some (e1.store (offsetOf cfg logicDir).toNat value) := by
        simp [he1]
      exact .writeHit hget hvalid ((hsame.sameElse i).trans (sameElse_modify i c _)) hget1
        (store_forgetUse hsame1 _ value)
    · rw [hfind] at h
      obtain ⟨⟨mmu1, mem1, r⟩, hsel, h⟩ := Option.bind_eq_some_iff.mp h
      obtain ⟨hrefused, helse⟩ := selectVictimEntry_else hn hlen hptr hsel
      rw [entry_of_miss (a := .write logicDir value) hfind hsel]
      cases r with
      | none =>
        obtain ⟨rfl, -, -⟩ := by simpa using h
        exact .nothing (hrefused rfl)
      | some i =>
        have hcache : mmu'.cache = _ := storeInto_cache h
        rw [hcache]
        refine .writeMiss (((helse i rfl).trans (sameElse_modify i mmu1.cache _)).trans
          (sameElse_modify i _ _)) fun e' he' => ?_
        simp only [List.getElem?_modify_eq, Option.mem_def, Option.map_eq_map, Option.map_map,
          Option.map_eq_some_iff, Function.comp_apply] at he'
        obtain ⟨e, -, rfl⟩ := he'
        exact ⟨e, _, _, rfl⟩

/-- **An access keeps track of every entry.** -/
theorem Used.tracked {c c' : Cache} {a : Access} {r : Option (Nat × Bool)} (h : Used cfg c c' a r)
    {pid : Int} (hin : (CacheEvent.access pe mem pid a).InPage cfg) {w : Nat → Nat → Option UInt8}
    (hw : ∀ i, ∀ e ∈ c.entries[i]?, Tracked cfg e (w i)) :
    ∀ j, ∀ e' ∈ c'.entries[j]?, Tracked cfg e' (a.record cfg w r j) := by
  have hother : ∀ {j : Nat} {e' : CacheEntry},
      (∃ e, c.entries[j]? = some e ∧ e'.forgetUse = e.forgetUse) → Tracked cfg e' (w j) := by
    rintro j e' ⟨e, he, hsame⟩
    exact (hw j e he).congr hsame
  cases h with
  | nothing hsame => exact fun j e' he' => hother (hsame.getElem? he')
  | @readHit logicDir size i hsame =>
    have hsame' : (Access.read logicDir size).record cfg w (some (i, false)) = w :=
      Function.update_eq_self i w
    rw [hsame']
    exact fun j e' he' => hother (hsame.getElem? he')
  | @writeHit logicDir value i e e' hget hvalid helse hget' hstore =>
    intro j x hx
    by_cases hj : j = i
    · subst hj
      obtain rfl : e' = x := Option.some.inj (hget'.symm.trans hx)
      rw [Access.record, Function.update_self]
      refine Tracked.congr ?_ hstore
      exact (hw j e hget).store hvalid hin.1 (by have := hin.2; omega)
    · rw [Access.record, Function.update_of_ne hj]
      exact hother (helse.getElem? hj hx)
  | @readMiss logicDir size i helse hloaded =>
    intro j x hx
    by_cases hj : j = i
    · subst hj
      rw [Access.record, Function.update_self]
      exact tracked_of_clean (fun _ => hloaded x hx) fun o => rfl
    · rw [Access.record, Function.update_of_ne hj]
      exact hother (helse.getElem? hj hx)
  | @writeMiss logicDir value i helse hstored =>
    intro j x hx
    by_cases hj : j = i
    · subst hj
      obtain ⟨e, page, pid', rfl⟩ := hstored x hx
      rw [Access.record, Function.update_self]
      exact tracked_setUp e page pid' hin.1 (by have := hin.2; omega)
    · rw [Access.record, Function.update_of_ne hj]
      exact hother (helse.getElem? hj hx)

end Uses

/-! ## 4. Runs -/

section Runs

variable {cfg : Config} {junk : Nat → CacheEntry} {mmu mmu' : Mmu}
  {tr : List (Transition Mmu CacheEvent)}

/-- Without a cache there are no entries. -/
theorem entries_of_disabled (hn : cfg.cacheEntries = 0) (hr : (cpuCache cfg junk).Run tr mmu) :
    mmu.cache.entries = [] := by
  refine hr.invariant (I := fun mmu => mmu.cache.entries = []) (C := fun _ _ => True) ?_ ?_ fun _ _ => trivial
  · rintro _ rfl
    simp [mmuInit, hn]
  · intro m ev m' hm _ hst
    have hstep : ev.step cfg m = some m' := hst
    cases ev with
    | access pe mem pid a =>
      obtain ⟨⟨m1, mem1, done⟩, hexec, rfl⟩ := Option.map_eq_some_iff.mp hstep
      cases a with
      | read logicDir size =>
        simp only [execution, hn, lt_irrefl, if_false] at hexec
        obtain ⟨x, -, hexec⟩ := Option.bind_eq_some_iff.mp hexec
        obtain ⟨bytes, -, heq⟩ := Option.map_eq_some_iff.mp hexec
        obtain ⟨rfl, -, -⟩ := by simpa using heq
        exact hm
      | write logicDir value =>
        simp only [execution, hn, lt_irrefl, if_false] at hexec
        obtain ⟨x, -, hexec⟩ := Option.bind_eq_some_iff.mp hexec
        obtain ⟨mem2, -, heq⟩ := Option.map_eq_some_iff.mp hexec
        obtain ⟨rfl, -, -⟩ := by simpa using heq
        exact hm
    | cleanup pe mem =>
      obtain ⟨⟨m1, mem1⟩, hclean, rfl⟩ := Option.map_eq_some_iff.mp hstep
      obtain ⟨x, -, heq⟩ := Option.map_eq_some_iff.mp hclean
      obtain ⟨rfl, -⟩ := Prod.mk.inj heq
      simp [hm]

/-- A clean-up leaves nothing to track. -/
theorem tracked_cleanup {pe : PageEntries} {mem : Bytes}
    (hst : (CacheEvent.cleanup pe mem).step cfg mmu = some mmu') :
    ∀ e ∈ mmu'.cache.entries, Tracked cfg e fun _ => none := by
  obtain ⟨⟨m1, mem1⟩, hclean, rfl⟩ := Option.map_eq_some_iff.mp hst
  obtain ⟨x, -, heq⟩ := Option.map_eq_some_iff.mp hclean
  obtain ⟨rfl, -⟩ := Prod.mk.inj heq
  intro e he
  obtain ⟨e0, -, rfl⟩ := List.mem_map.mp he
  exact tracked_of_clean (fun _ => rfl) fun _ => rfl

/-- **Every entry is tracked**, in every run of WRITEs inside their pages. -/
theorem tracked_run (hr : (cpuCache cfg junk).Run tr mmu) : (∀ x ∈ tr, x.label.InPage cfg) →
    ∀ i, ∀ e ∈ mmu.cache.entries[i]?, Tracked cfg e (written cfg tr i) := by
  induction hr with
  | start hinit =>
    obtain rfl := hinit
    intro _ i e he
    have hmem := List.mem_of_getElem? he
    obtain ⟨j, -, rfl⟩ := List.mem_map.mp hmem
    exact tracked_of_clean (fun hv => absurd hv (by simp)) fun _ => rfl
  | @step tr m m' ev hrun hst ih =>
    intro hin i e he
    have hpre := ih fun x hx => hin x (List.mem_append_left _ hx)
    have hlast : ev.InPage cfg := hin ⟨m, ev, m'⟩ (List.mem_append_right _ List.mem_cons_self)
    rw [written_append]
    cases ev with
    | access pe mem pid a =>
      obtain ⟨⟨m1, mem1, done⟩, hexec, rfl⟩ := Option.map_eq_some_iff.mp hst
      rcases Nat.eq_zero_or_pos cfg.cacheEntries with hn | hn
      · -- nothing is ever in the cache
        rw [entries_of_disabled hn (hrun.step hst)] at he
        exact absurd he (by simp)
      · obtain ⟨hrep, -⟩ := represented_everywhere hn hrun
        exact (execution_used hn hrep.length hrep.pointer hexec).tracked hlast hpre i e he
    | cleanup pe mem => exact tracked_cleanup hst e (List.mem_of_getElem? he)

/-- **The modified region covers what was written.**  In every run of one CPU, with any cache and any TLB,
whatever the slots held at first and whatever memoria answers meanwhile, whose WRITEs have strings that are not
empty and lie inside their page: in a valid entry with its modified bit set the region is not empty and ends
inside the page, every offset written since the slot was taken or the cache cleaned up is in it, and the
content there is the byte written last. -/
theorem covers_run (hr : (cpuCache cfg junk).Run tr mmu) (hin : ∀ x ∈ tr, x.label.InPage cfg) {i : Nat}
    {e : CacheEntry} (he : mmu.cache.entries[i]? = some e) (hvalid : e.isValid = true)
    (hmodified : e.modifiedBit = true) : Covers cfg e (written cfg tr i) :=
  (tracked_run hr hin i e he).modified hvalid hmodified

end Runs

/-- Two WRITEs into one page, the first into a slot whose modified bit is set already. -/
def twoWrites : List CacheEvent :=
  [.access (fun _ _ _ => some 1) zeros 0 (.write 17 [97]),
    .access (fun _ _ _ => some 1) zeros 0 (.write 20 [98, 99])]

/-- The theorem at work on them. -/
theorem covers_run_two_writes :
    ∃ tr mmu e, (cpuCache pairConfig fun _ => rawEntry).Run tr mmu ∧ mmu.cache.entries[0]? = some e ∧
      (e.modifiedStart, e.modifiedEnd) = (1, 6) ∧ written pairConfig tr 0 5 = some 99 ∧
      Covers pairConfig e (written pairConfig tr 0) := by
  obtain ⟨tr, mmu, hrun, hlabels, htest⟩ := Lts.exists_run_labels_of_drive
    (mmuInit pairConfig fun _ => rawEntry) (CacheEvent.step pairConfig) twoWrites
    (fun tr mmu => (mmu.cache.entries[0]?).any (fun e : CacheEntry => e.isValid && e.modifiedBit &&
      decide ((e.modifiedStart, e.modifiedEnd) = (1, 6))) &&
      decide (written pairConfig tr 0 5 = some 99)) (by decide +kernel)
  simp only [Bool.and_eq_true, Option.any_eq_true, decide_eq_true_eq] at htest
  obtain ⟨⟨e, he, ⟨hvalid, hmodified⟩, hregion⟩, hwritten⟩ := htest
  have hin : ∀ l ∈ tr.map (·.label), CacheEvent.InPage pairConfig l := by
    rw [hlabels]
    intro l hl
    simp only [twoWrites, List.mem_cons, List.not_mem_nil, or_false] at hl
    rcases hl with rfl | rfl
    · exact ⟨by simp, by decide, by decide⟩
    · exact ⟨by simp, by decide, by decide⟩
  exact ⟨tr, mmu, e, hrun, he, hregion, hwritten,
    covers_run hrun (List.forall_mem_map.mp hin) he hvalid hmodified⟩

end Tpso.Cpu
