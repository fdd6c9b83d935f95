/-
# A page comes back from the swap space as it went

While a process is suspended its pages are in the slots of the swap file that its record names, and
everything else goes on: its old frames are given to others, other processes are suspended to the slots
beside its own and come back.  What keeps its pages is one fact about the bitmap of slots: the slots on
the lists of suspended processes are taken, and each is on one list only.  So an allocation never hands
out one of them, and the only writes of the swap file are to slots that were handed out
(`Kept`, `kept_step`).

Nothing is needed about whether the other requests succeed, and the user frames play no part while the
process is away (`swap_round_trip`).
-/
import Tpso.Memoria.Atomicity
import Tpso.Memoria.Mapped

namespace Tpso.Memoria

open Tpso.Lib

/-! ## 1. The copy to the swap file -/

section Copy

variable {cfg : Config}

/-- The positions of the slots do not wrap around. -/
def SlotsFit (cfg : Config) : Prop := swapInitialFrames * cfg.tamPagina < 2 ^ 31

/-- The position of a slot in the file. -/
theorem toInt32_slot (hfit : SlotsFit cfg) {slot : Nat} (hslot : slot < swapInitialFrames) :
    toInt32 (slot * cfg.tamPagina) = (slot * cfg.tamPagina : Nat) := by
  have hle : slot * cfg.tamPagina ≤ swapInitialFrames * cfg.tamPagina :=
    Nat.mul_le_mul_right _ (Nat.le_of_lt hslot)
  have hlt : slot * cfg.tamPagina < 2 ^ 31 := lt_of_le_of_lt hle hfit
  rw [toInt32_eq (by positivity) (by exact_mod_cast hlt)]
  push_cast
  rfl

/-- A frame does not exceed the user space. -/
theorem exceedsUserSpace_frame {f : Nat} (hf : f < cfg.framesTotal) :
    exceedsUserSpace cfg (toInt32 (f * cfg.tamPagina)) cfg.tamPagina = false := by
  have hend := frame_end_le_tamMemoria hf
  have hlt := cfg.tamMemoria_lt
  unfold exceedsUserSpace
  rw [toInt32_frame hf, toInt32_eq (by positivity) (by
    have : f * cfg.tamPagina + cfg.tamPagina < 2 ^ 31 := by omega
    exact_mod_cast this)]
  simp only [decide_eq_false_iff_not, not_or, not_lt]
  exact ⟨by positivity, by exact_mod_cast hend⟩

/-- A page read from a frame. -/
theorem readFromUserSpace_frame {m : Bytes} {f : Nat} (hf : f < cfg.framesTotal) :
    readFromUserSpace cfg m (toInt32 (f * cfg.tamPagina)) cfg.tamPagina =
      some (m.slice (f * cfg.tamPagina) cfg.tamPagina) := by
  unfold readFromUserSpace
  rw [exceedsUserSpace_frame hf, toInt32_frame hf, if_neg (not_lt.mpr (by positivity))]
  simp only [Bool.false_eq_true, ↓reduceIte]
  rw [if_neg (not_lt.mpr (by positivity)), Int.toNat_natCast, Int.toNat_natCast]

/-- A write of a page to a slot. -/
theorem swapWriteFrame_eq (hfit : SlotsFit cfg) (file : SwapFile) {slot : Nat} (n : Nat)
    (page : List UInt8) (hslot : slot < swapInitialFrames) :
    (swapWriteFrame cfg file slot page n).1.bytes =
        file.bytes.blit (slot * cfg.tamPagina) (page.take n) ∧
      ((swapWriteFrame cfg file slot page n).2 = true ↔ page.length ≤ n) := by
  have hpos := toInt32_slot hfit hslot
  have hnotneg : ¬ ((slot * cfg.tamPagina : Nat) : Int) < 0 := not_lt.mpr (Int.natCast_nonneg _)
  unfold swapWriteFrame
  simp only [hpos, if_neg hnotneg, Int.toNat_natCast, decide_eq_true_eq, List.length_take, true_and]
  omega

/-- It changes at most the bytes of its slot, and all of them if it succeeds. -/
theorem swapWriteFrame_bytes (hfit : SlotsFit cfg) (file : SwapFile) (n : Nat) {slot : Nat}
    {page : List UInt8} (hslot : slot < swapInitialFrames) (hlen : page.length = cfg.tamPagina) :
    (∀ x, ¬ (slot * cfg.tamPagina ≤ x ∧ x < slot * cfg.tamPagina + cfg.tamPagina) →
      (swapWriteFrame cfg file slot page n).1.bytes x = file.bytes x) ∧
    ((swapWriteFrame cfg file slot page n).2 = true → ∀ o < cfg.tamPagina,
      (swapWriteFrame cfg file slot page n).1.bytes (slot * cfg.tamPagina + o) = page.getD o 0) := by
  obtain ⟨hbytes, hwhole⟩ := swapWriteFrame_eq hfit file n page hslot
  rw [hbytes, hwhole]
  constructor
  · intro x hx
    refine Bytes.blit_of_not_mem ?_
    have htake : (page.take n).length ≤ cfg.tamPagina := by
      rw [← hlen]
      exact List.length_take_le' n page
    omega
  · intro hle o ho
    rw [List.take_of_length_le hle, Bytes.blit_of_mem (by omega) (by omega), Nat.add_sub_cancel_left]

/-- **What the copy to the swap file leaves there**: only bytes of the slots it was given change; and if
it succeeds, each slot holds its page. -/
theorem swapOutLoop_copied (hfit : SlotsFit cfg) {m : Bytes} {written : Nat → Nat} {file' : SwapFile}
    {b : Bool} : ∀ (frames slots : List Nat) (i : Nat) (file : SwapFile),
    (∀ k ∈ slots, k < swapInitialFrames) → slots.Nodup →
    swapOutLoop cfg m written i (frames.zip slots) file = some (file', b) →
    (∀ x, (∀ k ∈ slots, ¬ (k * cfg.tamPagina ≤ x ∧ x < k * cfg.tamPagina + cfg.tamPagina)) →
      file'.bytes x = file.bytes x) ∧
    (b = true → (∀ f ∈ frames, f < cfg.framesTotal) → ∀ (j f slot : Nat), frames[j]? = some f →
      slots[j]? = some slot → ∀ o < cfg.tamPagina,
        file'.bytes (slot * cfg.tamPagina + o) = m (f * cfg.tamPagina + o)) := by
  intro frames
  induction frames with
  | nil =>
    intro slots i file _ _ h
    simp only [List.zip_nil_left, swapOutLoop, Option.some.injEq, Prod.mk.injEq] at h
    rw [← h.1]
    exact ⟨fun _ _ => rfl, fun _ _ j f slot hf => by simp at hf⟩
  | cons f frames ih =>
    intro slots i file hlt hnd h
    cases slots with
    | nil =>
      simp only [List.zip_nil_right, swapOutLoop, Option.some.injEq, Prod.mk.injEq] at h
      rw [← h.1]
      exact ⟨fun _ _ => rfl, fun _ _ j f slot _ hs => by simp at hs⟩
    | cons k slots =>
      obtain ⟨hfresh, hnd'⟩ := List.nodup_cons.mp hnd
      have hk : k < swapInitialFrames := hlt k List.mem_cons_self
      have hlt' : ∀ k' ∈ slots, k' < swapInitialFrames :=
        fun k' hk' => hlt k' (List.mem_cons_of_mem _ hk')
      rw [List.zip_cons_cons] at h
      cases hread : readFromUserSpace cfg m (toInt32 (f * cfg.tamPagina)) cfg.tamPagina with
      | none =>
        rw [swapOutLoop, hread] at h
        exact absurd h (by simp)
      | some page =>
        have hlen := length_readFromUserSpace hread
        obtain ⟨hout, hin⟩ := swapWriteFrame_bytes hfit file (written i) hk hlen
        rw [swapOutLoop_cons hread] at h
        split at h
        · rename_i hwhole
          obtain ⟨hout', hin'⟩ := ih slots (i + 1) _ hlt' hnd' h
          constructor
          · intro x hx
            rw [hout' x fun k' hk' => hx k' (List.mem_cons_of_mem _ hk'), hout x (hx k List.mem_cons_self)]
          · intro hb hframes j f' slot hf hs o ho
            cases j with
            | zero =>
              obtain rfl : f = f' := by simpa using hf
              obtain rfl : k = slot := by simpa using hs
              -- no later page goes to this slot
              rw [hout' (k * cfg.tamPagina + o), hin hwhole o ho]
              · rw [readFromUserSpace_frame (hframes f List.mem_cons_self)] at hread
                rw [← Option.some.inj hread, Bytes.getD_slice ho]
              · intro k' hk' hmem
                have heq := frame_eq_of_mem (f := k) (by omega) (by omega) hmem.1 hmem.2
                exact hfresh (heq ▸ hk')
            | succ j =>
              exact hin' hb (fun g hg => hframes g (List.mem_cons_of_mem _ hg)) j f' slot
                (by simpa using hf) (by simpa using hs) o ho
        · simp only [Option.some.injEq, Prod.mk.injEq] at h
          rw [← h.1]
          exact ⟨fun x hx => hout x (hx k List.mem_cons_self), fun hb => by simp [← h.2] at hb⟩

end Copy

/-! ## 2. What stays while a process is away -/

/-- No slot of a suspended process can be handed out. -/
structure SlotsHeld (s : State) : Prop where
  total : s.swapFrames.total = swapInitialFrames
  holds : s.swapFrames.Holds (allSuspended s.processes)

section Held

variable {cfg : Config} {s s' : State} {pid : Int} {b : Bool}

/-- A SWAP hands out slots that nobody has, to a process that had none. -/
theorem SlotsHeld.swap (h : SlotsHeld s) {written : Nat → Nat}
    (hswap : swapOutProcess cfg s pid written = some (s', b)) : SlotsHeld s' := by
  rcases swapOutProcess_exits hswap with ⟨rfl, -⟩ | ⟨r, hfind, hres, hnull, rfl, -⟩ |
    ⟨r, fs, new, swapFrames, -, -, -, halloc, -, rfl, -⟩ |
    ⟨r, fs, new, swapFrames, file, -, -, -, halloc, -, -, rfl, -⟩ |
    ⟨r, fs, new, frames, swapFrames, file, hfind, hres, -, halloc, -, -, -, rfl, -⟩
  · exact h
  · obtain ⟨rest, hperm, hupd, -⟩ := flatMap_find suspendedSlots hfind
    rw [suspendedSlots_of_resident hres] at hperm
    have hnew := (hupd fun p => { p with isSuspended := true }).symm
    simp only [suspendedSlots_of_none (Or.inl hnull) true] at hnew
    exact ⟨h.total, h.holds.perm (hperm.trans hnew)⟩
  · refine ⟨(BitAlloc.alloc_total halloc).trans h.total, ?_⟩
    exact (h.holds.alloc halloc).sublist (List.sublist_append_right new _)
  · refine ⟨(BitAlloc.alloc_total halloc).trans h.total, ?_⟩
    exact (h.holds.alloc halloc).sublist (List.sublist_append_right new _)
  · obtain ⟨rest, hperm, hupd, -⟩ := flatMap_find suspendedSlots hfind
    rw [suspendedSlots_of_resident hres] at hperm
    refine ⟨(BitAlloc.alloc_total halloc).trans h.total, ?_⟩
    refine ((h.holds.alloc halloc).perm (hperm.append_left new)).perm ?_
    simpa [allSuspended, suspendedSlots, suspendedWith] using (hupd (suspendedWith new)).symm

/-- An UNSUSPEND_PROCESS takes slots from the process that had them. -/
theorem SlotsHeld.unsuspend (h : SlotsHeld s) {avail : Nat → Nat}
    (hswap : swapInProcess cfg s pid avail = some (s', b)) : SlotsHeld s' := by
  rcases swapInProcess_cases hswap with ⟨rfl, -⟩ | ⟨r, hfind, hsusp, hnone, rfl, -⟩ |
    ⟨r, old, userFrames, frames, -, -, -, -, rfl, -⟩ |
    ⟨r, old, userFrames, frames, frames', m, -, -, -, -, -, rfl, -⟩ |
    ⟨r, old, userFrames, frames, swapFrames, m, hfind, hsusp, hold, -, -, -, -, hrel, rfl, -⟩
  · exact h
  · obtain ⟨rest, hperm, hupd, -⟩ := flatMap_find suspendedSlots hfind
    have hnil : suspendedSlots r = [] := by
      rcases hnone with hn | hn
      · simp [suspendedSlots, hn]
      · simp [suspendedSlots, hn]
    rw [hnil] at hperm
    have hnew := (hupd fun p => { p with isSuspended := false }).symm
    simp only [suspendedSlots_of_none hnone false] at hnew
    exact ⟨h.total, h.holds.perm (hperm.trans hnew)⟩
  · exact ⟨h.total, h.holds⟩
  · exact ⟨h.total, h.holds⟩
  · obtain ⟨rest, hperm, hupd, -⟩ := flatMap_find suspendedSlots hfind
    rw [suspendedSlots_of_obj hsusp hold] at hperm
    refine ⟨(BitAlloc.release_total hrel).trans h.total, ?_⟩
    refine ((h.holds.perm hperm).release hrel).perm ?_
    simpa [allSuspended, suspendedSlots, resumedWith] using (hupd (resumedWith userFrames)).symm

/-- **No request hands out the slot of a suspended process**, whether it succeeds or not. -/
theorem slotsHeld_step {r : Request} {reply : Reply} (h : SlotsHeld s)
    (hst : handle cfg s r = some (s', reply)) : SlotsHeld s' := by
  cases r with
  | initProcess q size file left =>
    obtain ⟨⟨s1, b⟩, hcr, heq⟩ := Option.map_eq_some_iff.mp hst
    obtain ⟨rfl, -⟩ := Prod.mk.inj heq
    rcases createProcess_cases hcr with ⟨rfl, -⟩ | ⟨fs, frames, -, -, rfl, -⟩ |
      ⟨fs, frames, frames', id, -, -, rfl, -⟩ |
      ⟨fs, frames, t, id, ins, -, -, -, -, rfl, -⟩ | ⟨ins, -, rfl, -⟩
    · exact h
    · exact ⟨h.total, h.holds⟩
    · exact ⟨h.total, h.holds⟩
    · exact ⟨h.total, by simpa [allSuspended, suspendedSlots, freshProcess] using h.holds⟩
    · exact ⟨h.total, by simpa [allSuspended, suspendedSlots, freshProcess] using h.holds⟩
  | killProcess q =>
    obtain ⟨⟨s1, b⟩, hd, heq⟩ := Option.map_eq_some_iff.mp hst
    obtain ⟨rfl, -⟩ := Prod.mk.inj heq
    -- a list with one record less has no more slots
    have hless : (allSuspended (s.processes.eraseP fun p => decide (p.pid = q))).Sublist
        (allSuspended s.processes) := List.Sublist.flatMap List.eraseP_sublist suspendedSlots
    rcases deleteProcess_cases hd with ⟨-, rfl, -⟩ | ⟨p, -, -, rfl, -⟩ |
      ⟨p, fs, frames, -, -, -, -, rfl, -⟩
    · exact h
    · exact ⟨h.total, h.holds.sublist hless⟩
    · exact ⟨h.total, h.holds.sublist hless⟩
  | swap q written =>
    obtain ⟨⟨s1, b⟩, hsw, heq⟩ := Option.map_eq_some_iff.mp hst
    obtain ⟨rfl, -⟩ := Prod.mk.inj heq
    exact h.swap hsw
  | unsuspendProcess q avail =>
    obtain ⟨⟨s1, b⟩, hsw, heq⟩ := Option.map_eq_some_iff.mp hst
    obtain ⟨rfl, -⟩ := Prod.mk.inj heq
    exact h.unsuspend hsw
  | readMemory a n =>
    obtain ⟨m, rfl⟩ := handle_memory_eq hst (Or.inl ⟨a, n, rfl⟩)
    exact ⟨h.total, h.holds⟩
  | writeMemory a d =>
    obtain ⟨m, rfl⟩ := handle_memory_eq hst (Or.inr ⟨a, d, rfl⟩)
    exact ⟨h.total, h.holds⟩

end Held

/-- The record of the process names its slots, no slot of a suspended process can be handed out, and the
slots hold the pages. -/
structure Kept (cfg : Config) (pid : Int) (slots : List Nat) (page : Nat → Nat → UInt8) (s : State) :
    Prop where
  framesTotal : s.frames.total = cfg.framesTotal
  slotsTotal : s.swapFrames.total = swapInitialFrames
  holds : s.swapFrames.Holds (allSuspended s.processes)
  record : ∃ q, processManagerFindProcess s.processes pid = some q ∧ q.isSuspended = true ∧
    q.allocatedFrames = .obj slots
  file : ∀ (i slot : Nat), slots[i]? = some slot → ∀ o < cfg.tamPagina,
    s.swapFile.bytes (slot * cfg.tamPagina + o) = page i o

section Step

variable {cfg : Config} {pid : Int} {slots : List Nat} {page : Nat → Nat → UInt8} {s s' : State}

/-- The slots of the process are among those that cannot be handed out. -/
theorem Kept.mem (h : Kept cfg pid slots page s) {k : Nat} (hk : k ∈ slots) :
    k ∈ allSuspended s.processes := by
  obtain ⟨q, hfind, hsusp, hslots⟩ := h.record
  refine List.mem_flatMap.mpr ⟨q, mem_of_find hfind, ?_⟩
  rw [suspendedSlots_of_obj hsusp hslots]
  exact hk

/-- A copy to slots that have just been handed out leaves the pages alone. -/
theorem Kept.file_of_copy (h : Kept cfg pid slots page s) (hfit : SlotsFit cfg) {m : Bytes}
    {written : Nat → Nat} {frames new : List Nat} {n : Int} {swapFrames : BitAlloc} {file' : SwapFile}
    {b : Bool} (halloc : s.swapFrames.alloc n = some (new, swapFrames))
    (hloop : swapOutLoop cfg m written 0 (frames.zip new) s.swapFile = some (file', b)) :
    ∀ (i slot : Nat), slots[i]? = some slot → ∀ o < cfg.tamPagina,
      file'.bytes (slot * cfg.tamPagina + o) = page i o := by
  intro i slot hs o ho
  obtain ⟨hnd, hclear⟩ := BitAlloc.alloc_slots halloc
  have hlt : ∀ k ∈ new, k < swapInitialFrames := fun k hk => h.slotsTotal ▸ (hclear k hk).1
  rw [(swapOutLoop_copied hfit frames new 0 s.swapFile hlt hnd hloop).1, h.file i slot hs o ho]
  intro k hk hmem
  have heq := frame_eq_of_mem (f := slot) (by omega) (by omega) hmem.1 hmem.2
  exact h.holds.fresh halloc hk (heq ▸ h.mem (List.mem_of_getElem? hs))

/-- No request changes the pages in the swap file. -/
theorem Kept.file_step (h : Kept cfg pid slots page s) (hfit : SlotsFit cfg) {r : Request} {reply : Reply}
    (hst : handle cfg s r = some (s', reply)) : ∀ (i slot : Nat), slots[i]? = some slot →
      ∀ o < cfg.tamPagina, s'.swapFile.bytes (slot * cfg.tamPagina + o) = page i o := by
  cases r with
  | initProcess q size file left =>
    obtain ⟨⟨s1, b⟩, hcr, heq⟩ := Option.map_eq_some_iff.mp hst
    obtain ⟨rfl, -⟩ := Prod.mk.inj heq
    rcases createProcess_cases hcr with ⟨rfl, -⟩ | ⟨fs, frames, -, -, rfl, -⟩ |
      ⟨fs, frames, frames', id, -, -, rfl, -⟩ |
      ⟨fs, frames, t, id, ins, -, -, -, -, rfl, -⟩ | ⟨ins, -, rfl, -⟩ <;> exact h.file
  | killProcess q =>
    obtain ⟨⟨s1, b⟩, hd, heq⟩ := Option.map_eq_some_iff.mp hst
    obtain ⟨rfl, -⟩ := Prod.mk.inj heq
    rcases deleteProcess_cases hd with ⟨-, rfl, -⟩ | ⟨p, -, -, rfl, -⟩ |
      ⟨p, fs, frames, -, -, -, -, rfl, -⟩ <;> exact h.file
  | swap q written =>
    obtain ⟨⟨s1, b⟩, hsw, heq⟩ := Option.map_eq_some_iff.mp hst
    obtain ⟨rfl, -⟩ := Prod.mk.inj heq
    rcases swapOutProcess_exits hsw with ⟨rfl, -⟩ | ⟨r, -, -, -, rfl, -⟩ |
      ⟨r, fs, new, swapFrames, -, -, -, -, -, rfl, -⟩ |
      ⟨r, fs, new, swapFrames, file, -, -, -, halloc, -, hloop, rfl, -⟩ |
      ⟨r, fs, new, frames, swapFrames, file, -, -, -, halloc, -, hloop, -, rfl, -⟩
    · exact h.file
    · exact h.file
    · exact h.file
    · exact h.file_of_copy hfit halloc hloop
    · exact h.file_of_copy hfit halloc hloop
  | unsuspendProcess q avail =>
    obtain ⟨⟨s1, b⟩, hsw, heq⟩ := Option.map_eq_some_iff.mp hst
    obtain ⟨rfl, -⟩ := Prod.mk.inj heq
    rcases swapInProcess_cases hsw with ⟨rfl, -⟩ | ⟨r, -, -, -, rfl, -⟩ |
      ⟨r, old, userFrames, frames, -, -, -, -, rfl, -⟩ |
      ⟨r, old, userFrames, frames, frames', m, -, -, -, -, -, rfl, -⟩ |
      ⟨r, old, userFrames, frames, swapFrames, m, -, -, -, -, -, -, -, -, rfl, -⟩ <;> exact h.file
  | readMemory a n =>
    obtain ⟨m, rfl⟩ := handle_memory_eq hst (Or.inl ⟨a, n, rfl⟩)
    exact h.file
  | writeMemory a d =>
    obtain ⟨m, rfl⟩ := handle_memory_eq hst (Or.inr ⟨a, d, rfl⟩)
    exact h.file

/-- **A request about another process, and every access to the memory, leaves the pages in the swap file
and the slots to their process**, whether the request succeeds or not. -/
theorem kept_step (hfit : SlotsFit cfg) {r : Request} {reply : Reply} (h : Kept cfg pid slots page s)
    (hother : r.pid? ≠ some pid) (hst : handle cfg s r = some (s', reply)) :
    Kept cfg pid slots page s' := by
  obtain ⟨p, hfind, hsusp, hslots⟩ := h.record
  have hheld := slotsHeld_step ⟨h.slotsTotal, h.holds⟩ hst
  exact ⟨(handle_framesTotal hst).trans h.framesTotal, hheld.total, hheld.holds,
    ⟨p, (handle_find_of_ne hst hother).trans hfind, hsusp, hslots⟩, h.file_step hfit hst⟩

end Step

/-! ## 3. The round trip -/

section RoundTrip

variable {cfg : Config} {pid : Int}

/-- memoria from any state on. -/
def memoriaFrom (cfg : Config) (s : State) : Lts State Request :=
  Lts.ofStep s fun s r => (handle cfg s r).map Prod.fst

/-- After a suspension the slots hold the pages of the frames. -/
theorem kept_of_swapOut (hfit : SlotsFit cfg) {s s1 : State} {p : ProcessInfo} {fs : List Nat}
    {written : Nat → Nat} (htotal : s.frames.total = cfg.framesTotal)
    (hlt : ∀ f ∈ fs, f < cfg.framesTotal) (hslots : SlotsHeld s)
    (hfind : processManagerFindProcess s.processes pid = some p) (hres : p.isSuspended = false)
    (hfs : p.allocatedFrames = .obj fs) (hout : swapOutProcess cfg s pid written = some (s1, true)) :
    ∃ slots, slots.length = fs.length ∧ Kept cfg pid slots
      (fun i o => s.userSpace (fs.getD i 0 * cfg.tamPagina + o)) s1 := by
  have hheld := hslots.swap hout
  rcases swapOutProcess_exits hout with ⟨-, hb⟩ | ⟨q, hq, -, hnull, -, -⟩ |
    ⟨q, fs', slots, swapFrames, -, -, -, -, -, -, hb⟩ |
    ⟨q, fs', slots, swapFrames, file, -, -, -, -, -, -, -, hb⟩ |
    ⟨q, fs', slots, frames, swapFrames, file, hq, -, hfs', halloc, hlen, hloop, hrel, rfl, -⟩
  · obtain ⟨q, hq, hsusp⟩ := hb rfl
    rw [hfind] at hq
    rw [← Option.some.inj hq, hres] at hsusp
    exact absurd hsusp (by simp)
  · rw [hfind] at hq
    rw [← Option.some.inj hq, hfs] at hnull
    exact absurd hnull (by simp)
  · exact absurd hb (by simp)
  · exact absurd hb (by simp)
  · obtain rfl : p = q := Option.some.inj (hfind.symm.trans hq)
    obtain rfl : fs = fs' := by simpa [hfs] using hfs'
    obtain ⟨hnd, hclear⟩ := BitAlloc.alloc_slots halloc
    have hltSlots : ∀ k ∈ slots, k < swapInitialFrames := fun k hk => hslots.total ▸ (hclear k hk).1
    have hlength : slots.length = fs.length := le_antisymm (BitAlloc.length_alloc_le halloc) hlen
    refine ⟨slots, hlength, (BitAlloc.release_total hrel).trans htotal, hheld.total, hheld.holds, ?_, ?_⟩
    · have hupd := find_updateProcess (f := suspendedWith slots) (fun _ => rfl) pid pid s.processes
      rw [if_pos rfl, hfind] at hupd
      exact ⟨_, hupd, rfl, rfl⟩
    · intro i slot hs o ho
      have hi : i < fs.length := hlength ▸ (List.getElem?_eq_some_iff.mp hs).1
      have hf : fs[i]? = some fs[i] := List.getElem?_eq_getElem hi
      rw [(swapOutLoop_copied hfit fs slots 0 s.swapFile hltSlots hnd hloop).2 rfl hlt i _ slot hf hs o
        ho, List.getD_eq_getElem _ _ hi]

/-- A resumption puts the pages into the new frames, which nobody had. -/
theorem Kept.resumed {slots : List Nat} {page : Nat → Nat → UInt8} {s s' : State} {avail : Nat → Nat}
    (h : Kept cfg pid slots page s) (hfit : SlotsFit cfg)
    (hin : swapInProcess cfg s pid avail = some (s', true)) :
    ∃ p' fs', processManagerFindProcess s'.processes pid = some p' ∧ p'.isSuspended = false ∧
      p'.allocatedFrames = .obj fs' ∧ fs'.length = slots.length ∧
      (∀ f ∈ fs', s.frames.bit f = false) ∧
      ∀ (i f : Nat), fs'[i]? = some f → ∀ o < cfg.tamPagina,
        s'.userSpace (f * cfg.tamPagina + o) = page i o := by
  obtain ⟨q, hfind, hsusp, hq⟩ := h.record
  rcases swapInProcess_cases hin with ⟨-, ⟨hnone, -⟩ | ⟨r, hr, ⟨hres, -⟩ | ⟨-, hb, -⟩⟩⟩ |
    ⟨r, hr, -, hnone, rfl, -⟩ | ⟨r, old, userFrames, frames, -, -, -, -, -, hb⟩ |
    ⟨r, old, userFrames, frames, frames', m, -, -, -, -, -, -, hb⟩ |
    ⟨r, old, userFrames, frames, swapFrames, m, hr, -, hold, -, halloc, hlen, hloop, -, rfl, -⟩
  · rw [hfind] at hnone
    exact absurd hnone (by simp)
  · rw [hfind] at hr
    rw [← Option.some.inj hr, hsusp] at hres
    exact absurd hres (by simp)
  · exact absurd hb (by simp)
  · -- the process has no pages
    obtain rfl : q = r := Option.some.inj (hfind.symm.trans hr)
    have hnil : slots = [] := by
      rcases hnone with hn | hn
      · simp [hq] at hn
      · simpa [hq] using hn
    have hupd := find_updateProcess (f := fun p => { p with isSuspended := false }) (fun _ => rfl)
      pid pid s.processes
    rw [if_pos rfl, hfind] at hupd
    exact ⟨_, slots, hupd, rfl, hq, rfl, by simp [hnil], fun i f hf => by simp [hnil] at hf⟩
  · exact absurd hb (by simp)
  · exact absurd hb (by simp)
  · obtain rfl : q = r := Option.some.inj (hfind.symm.trans hr)
    obtain rfl : slots = old := by simpa [hq] using hold
    obtain ⟨hnd, hclear⟩ := BitAlloc.alloc_slots halloc
    have hlt : ∀ f ∈ userFrames, f < cfg.framesTotal := fun f hf => h.framesTotal ▸ (hclear f hf).1
    have hreads := (swapInLoop_success_iff hlen hloop).mp rfl
    have hupd := find_updateProcess (f := resumedWith userFrames) (fun _ => rfl) pid pid s.processes
    rw [if_pos rfl, hfind] at hupd
    refine ⟨_, userFrames, hupd, rfl, rfl, le_antisymm (BitAlloc.length_alloc_le halloc) hlen,
      fun f hf => (hclear f hf).2.1, ?_⟩
    intro i f hf o ho
    have hi : i < slots.length :=
      lt_of_lt_of_le (List.getElem?_eq_some_iff.mp hf).1 (BitAlloc.length_alloc_le halloc)
    have hs : slots[i]? = some slots[i] := List.getElem?_eq_getElem hi
    obtain ⟨bytes, hbytes⟩ := Option.isSome_iff_exists.mp (hreads i slots[i] hs)
    have hcopied := (swapInLoop_copied slots userFrames 0 s.userSpace hlt hnd hloop).1 i f slots[i]
      bytes hf hs (fun l slot _ hl => hreads l slot hl) hbytes o ho
    -- what is read is what the slot holds
    have hslot : slots[i] < swapInitialFrames :=
      h.slotsTotal ▸ h.holds.lt_total _ (h.mem (List.getElem_mem hi))
    have hslice : bytes = s.swapFile.bytes.slice (slots[i] * cfg.tamPagina) cfg.tamPagina := by
      unfold swapReadFrame at hbytes
      simp only [toInt32_slot hfit hslot] at hbytes
      split at hbytes
      · exact absurd hbytes (by simp)
      · split at hbytes
        · exact absurd hbytes (by simp)
        · exact (Option.some.inj hbytes).symm.trans (by rw [Int.toNat_natCast])
    rw [hslice, Bytes.getD_slice ho, h.file i _ hs o ho] at hcopied
    exact hcopied

/-- **Swap round trip.**  When a resident process is suspended, any requests about other processes and any
accesses to the memory follow, and the process is resumed, the `i`-th of its new frames holds byte for
byte what the `i`-th of its frames held before, whatever the new frames are. -/
theorem swap_round_trip (hfit : swapInitialFrames * cfg.tamPagina < 2 ^ 31) {s0 s1 s2 s3 : State}
    (htotal : s0.frames.total = cfg.framesTotal) (hshape : Shaped cfg s0) (hframes : FramesOwned s0)
    (hslots : SlotsOwned s0) {p : ProcessInfo} {fs : List Nat}
    (hfind : processManagerFindProcess s0.processes pid = some p) (hres : p.isSuspended = false)
    (hfs : p.allocatedFrames = .obj fs) {written avail : Nat → Nat}
    (hout : swapOutProcess cfg s0 pid written = some (s1, true))
    {tr : List (Transition State Request)} (hrun : (memoriaFrom cfg s1).Run tr s2)
    (hothers : ∀ x ∈ tr, x.label.pid? ≠ some pid)
    (hin : swapInProcess cfg s2 pid avail = some (s3, true)) :
    ∃ p' fs', processManagerFindProcess s3.processes pid = some p' ∧ p'.isSuspended = false ∧
      p'.allocatedFrames = .obj fs' ∧ fs'.length = fs.length ∧
      ∀ (i f f' : Nat), fs[i]? = some f → fs'[i]? = some f' → ∀ o < cfg.tamPagina,
        s3.userSpace (f' * cfg.tamPagina + o) = s0.userSpace (f * cfg.tamPagina + o) := by
  obtain ⟨hslotsTotal, howns⟩ := slotsOwned_iff_owns.mp hslots
  have hlt : ∀ f ∈ fs, f < cfg.framesTotal := by
    intro f hf
    rw [← htotal]
    refine ((framesOwned_iff_owns hshape).mp hframes).lt_total f ?_
    exact mem_allResident.mpr ⟨p, mem_of_find hfind, by rwa [residentFrames_of_obj hres hfs]⟩
  obtain ⟨slots, hlength, hkept⟩ :=
    kept_of_swapOut hfit htotal hlt ⟨hslotsTotal, howns.holds⟩ hfind hres hfs hout
  have hkept2 : Kept cfg pid slots (fun i o => s0.userSpace (fs.getD i 0 * cfg.tamPagina + o)) s2 := by
    refine hrun.invariant (C := fun _ r => r.pid? ≠ some pid) ?_ ?_ hothers
    · rintro s rfl
      exact hkept
    · intro s r s' hs hother hst
      obtain ⟨⟨t, reply⟩, h, rfl⟩ := Option.map_eq_some_iff.mp hst
      exact kept_step hfit hs hother h
  obtain ⟨p', fs', hfind', hres', hfs', hlength', -, hcontent⟩ := hkept2.resumed hfit hin
  refine ⟨p', fs', hfind', hres', hfs', hlength'.trans hlength, fun i f f' hf hf' o ho => ?_⟩
  rw [hcontent i f' hf' o ho]
  simp only [List.getD_eq_getElem?_getD, hf, Option.getD_some]

end RoundTrip

/-- While process 0 is suspended, process 1 gets its frames, writes to one of them and is suspended to
the slots beside its own, and process 2 keeps its first frame. -/
def meanwhile : List Request :=
  [initRequest 1 40, .writeMemory 3 [9], swapRequest 1, initRequest 2 10]

/-- Process 0 has the frames 0 and 1; it can be suspended, then the others run, and then it can be
resumed, to the frames 1 and 2. -/
def comesBack (s : State) : Bool :=
  ((processManagerFindProcess s.processes 0).any fun p => !p.isSuspended && residentFrames p == [0, 1]) &&
    (swapOutProcess smallConfig s 0 fun _ => 16).any fun out =>
      out.2 && (Lts.drive (fun s r => (handle smallConfig s r).map Prod.fst) out.1 meanwhile).any
        fun d => (d.1.all fun x => decide (x.label.pid? ≠ some 0)) &&
          (swapInProcess smallConfig d.2 0 fun _ => 16).any fun back =>
            back.2 && (processManagerFindProcess back.1.processes 0).any fun p =>
              residentFrames p == [1, 2]

/-- The theorem at work: the byte 7 that process 0 wrote into frame 0 comes back in frame 1. -/
theorem swap_round_trip_moved :
    ∃ s0 s3 : State, s0.userSpace 3 = 7 ∧ s3.userSpace (1 * 16 + 3) = 7 ∧
      ∃ p', processManagerFindProcess s3.processes 0 = some p' ∧ p'.allocatedFrames = .obj [1, 2] := by
  obtain ⟨tr0, s0, hrun0, hlabels, htest⟩ := Lts.exists_run_labels_of_drive (State.start smallConfig)
    (fun s r => (handle smallConfig s r).map Prod.fst) [initRequest 0 30, .writeMemory 3 [7]]
    (fun tr s => (tr.all fun x => decide (x.src.swapFrames.total = swapInitialFrames)) &&
      decide (s.frames.total = smallConfig.framesTotal) && decide (s.userSpace 3 = 7) && comesBack s)
    (by decide +kernel)
  simp only [comesBack, Bool.and_eq_true, decide_eq_true_eq, Option.any_eq_true, beq_iff_eq,
    Bool.not_eq_true', List.all_eq_true] at htest
  obtain ⟨⟨⟨-, htotal⟩, hbyte⟩, ⟨p, hfind, hres, hfs⟩, ⟨s1, b⟩, hout, hb, ⟨tr, s2⟩, hdrive, hothers,
    ⟨s3, b'⟩, hin, hb', p3, hfind3, hfs3⟩ := htest
  obtain rfl : b = true := hb
  obtain rfl : b' = true := hb'
  have hlist : ∀ {q : ProcessInfo} {x y : Nat}, residentFrames q = [x, y] →
      q.allocatedFrames = .obj [x, y] := by
    intro q x y hq
    unfold residentFrames at hq
    split at hq
    · simp at hq
    · split at hq
      · rename_i fs hobj
        rw [hobj, hq]
      · simp at hq
  -- neither request kills, and neither uses the swap file
  have hmem : ∀ x ∈ tr0, x.label ∈ [initRequest 0 30, .writeMemory 3 [7]] :=
    fun x hx => hlabels ▸ List.mem_map_of_mem hx
  have hkills : ∀ x ∈ tr0, KillsResident x.src x.label := by
    intro x hx
    have hlabel := hmem x hx
    simp only [List.mem_cons, List.not_mem_nil, or_false] at hlabel
    rcases hlabel with h | h <;> rw [h] <;> trivial
  have hwrites : ∀ x ∈ tr0, WritesSucceed smallConfig x.src x.label := by
    intro x hx
    have hlabel := hmem x hx
    simp only [List.mem_cons, List.not_mem_nil, or_false] at hlabel
    rcases hlabel with h | h <;> rw [h] <;> trivial
  obtain ⟨p', fs', hfind', -, hfs', -, hcontent⟩ := swap_round_trip (by decide) htotal
    (shaped_run hrun0) ((framesOwned_iff hrun0).mpr hkills).1
    ((slotsOwned_iff hrun0 hwrites).mpr hkills).1 hfind hres (hlist hfs) hout
    (Lts.run_of_drive hdrive) hothers hin
  obtain rfl : p3 = p' := Option.some.inj (hfind3.symm.trans hfind')
  rw [hlist hfs3] at hfs'
  obtain rfl : [1, 2] = fs' := by simpa using hfs'
  exact ⟨s0, s3, hbyte, (hcontent 0 0 1 rfl rfl 3 (by decide)).trans (by simpa using hbyte),
    p3, hfind3, hlist hfs3⟩

end Tpso.Memoria
