/-
# What a suspension or resumption that fails leaves behind

`swap_out_process` and `swap_in_process` take frames of one kind, copy page by page, and give the frames
of the other kind back; when they return false, nothing should have happened.  Nothing happens on the
exits before the copy, as long as the free counts can be trusted.  After it:

* `swap_out_process` that cannot write a page destroys the list of slots it was given WITHOUT releasing
  them: a failing write always leaks them (`swapOut_atomic_iff`);
* `swap_in_process` gives its frames back, but the pages copied before the failing read stay copied.
  That shows when a frame that the bitmap calls free is on the list of a resident process
  (`swapIn_atomic_iff`).
-/
import Tpso.Memoria.Agreement
import Tpso.Memoria.Slots

namespace Tpso.Memoria

open Tpso.Lib

/-! ## 1. The property and the conditions -/

/-- **Nothing has happened**: the records, both bitmaps and both counts are the same, and so are the bytes
of every user frame that a process owns. -/
structure Unchanged (cfg : Config) (s s' : State) : Prop where
  processes : s'.processes = s.processes
  frames : s'.frames = s.frames
  swapFrames : s'.swapFrames = s.swapFrames
  owned : ∀ p ∈ s.processes, ∀ f ∈ residentFrames p, ∀ o < cfg.tamPagina,
    s'.userSpace (f * cfg.tamPagina + o) = s.userSpace (f * cfg.tamPagina + o)

theorem Unchanged.refl (cfg : Config) (s : State) : Unchanged cfg s s :=
  ⟨rfl, rfl, rfl, fun _ _ _ _ _ _ => rfl⟩

/-- The condition on `swap_out_process`: no page that it comes to write fails to be written whole.  It
does not come to a page behind one whose read has no defined result. -/
def SwapOutWrites (cfg : Config) (s : State) (pid : Int) (written : Nat → Nat) : Prop :=
  ∀ p fs slots swapFrames, processManagerFindProcess s.processes pid = some p →
    p.isSuspended = false → p.allocatedFrames = .obj fs →
    s.swapFrames.alloc fs.length = some (slots, swapFrames) →
    ∀ (k slot : Nat), slots[k]? = some slot → ¬ WritesWhole cfg written k slot →
      ∃ j ≤ k, ∃ f, fs[j]? = some f ∧
        readFromUserSpace cfg s.userSpace (toInt32 (f * cfg.tamPagina)) cfg.tamPagina = none

/-- The pages of the slots up to the `j`-th can be read from the swap file; the first of them is the
`i`-th of the process. -/
def ReadableUpTo (cfg : Config) (file : SwapFile) (avail : Nat → Nat) (i : Nat) (slots : List Nat)
    (j : Nat) : Prop :=
  ∀ (l slot : Nat), l ≤ j → slots[l]? = some slot →
    (swapReadFrame cfg file slot cfg.tamPagina (avail (i + l))).isSome

/-- The condition on `swap_in_process`: when a page cannot be read from the swap file, every free frame
that a page before the first such one is copied to is on no list of a resident process, or holds that
page already. -/
def SwapInSpares (cfg : Config) (s : State) (pid : Int) (avail : Nat → Nat) : Prop :=
  ∀ p slots userFrames frames, processManagerFindProcess s.processes pid = some p →
    p.isSuspended = true → p.allocatedFrames = .obj slots →
    s.frames.alloc slots.length = some (userFrames, frames) →
    ∀ (k slot : Nat), slots[k]? = some slot →
      swapReadFrame cfg s.swapFile slot cfg.tamPagina (avail k) = none →
      ∀ (j f slot' : Nat) (page : List UInt8), userFrames[j]? = some f → slots[j]? = some slot' →
        ReadableUpTo cfg s.swapFile avail 0 slots j →
        swapReadFrame cfg s.swapFile slot' cfg.tamPagina (avail j) = some page →
        (∃ q ∈ s.processes, f ∈ residentFrames q) →
        ∀ o < cfg.tamPagina, s.userSpace (f * cfg.tamPagina + o) = page.getD o 0

/-! ## 2. Suspension -/

/-- **A failing suspension leaves nothing behind exactly when every page it comes to write is written
whole.** -/
theorem swapOut_atomic_iff {cfg : Config} {s : State} {pid : Int} {written : Nat → Nat}
    (hcount : s.swapFrames.free = s.swapFrames.clear.length) :
    (∀ s', swapOutProcess cfg s pid written = some (s', false) → Unchanged cfg s s') ↔
      SwapOutWrites cfg s pid written := by
  constructor
  · intro hall p fs slots swapFrames hfind hres hfs halloc k slot hslot hbad
    by_contra hreads
    have hlen : slots.length = fs.length := by
      simpa using BitAlloc.length_alloc hcount halloc
    -- the copy fails at page `k`, or before
    obtain ⟨file, hloop⟩ : ∃ file', swapOutLoop cfg s.userSpace written 0 (fs.zip slots) s.swapFile =
        some (file', false) := (swapOutLoop_fails_iff (fs.zip slots) 0 s.swapFile).mpr (by
        have hk : k < slots.length := (List.getElem?_eq_some_iff.mp hslot).1
        refine ⟨k, fs[k], slot, ?_, by simpa using hbad, ?_⟩
        · rw [List.getElem?_zip_eq_some]
          exact ⟨List.getElem?_eq_getElem (by omega), hslot⟩
        · intro j hj x hx
          obtain ⟨hf, -⟩ := List.getElem?_zip_eq_some.mp hx
          rw [Option.isSome_iff_ne_none]
          intro hnone
          exact hreads ⟨j, hj, x.1, hf, hnone⟩)
    have hresult : swapOutProcess cfg s pid written =
        some ({ s with swapFrames := swapFrames, swapFile := file }, false) := by
      have hnot : ¬ slots.length < fs.length := by omega
      simp only [swapOutProcess, hfind, hres, hfs, halloc, hloop, if_neg hnot, Bool.false_eq_true,
        if_false]
    -- the slot was clear, and is taken now
    have hsame := (hall _ hresult).swapFrames
    obtain ⟨-, hclear, htaken⟩ := (BitAlloc.alloc_slots halloc).2 slot (List.mem_of_getElem? hslot)
    simp only at hsame
    rw [hsame, hclear] at htaken
    exact absurd htaken (by simp)
  · intro hcond s' h
    rcases swapOutProcess_exits h with ⟨rfl, -⟩ | ⟨p, -, -, -, -, hb⟩ |
      ⟨p, fs, slots, swapFrames, -, -, -, halloc, hshort, -, -⟩ |
      ⟨p, fs, slots, swapFrames, file, hfind, hres, hfs, halloc, -, hloop, -, -⟩ |
      ⟨p, fs, slots, frames, swapFrames, file, -, -, -, -, -, -, -, -, hb⟩
    · exact Unchanged.refl cfg s'
    · exact absurd hb (by simp)
    · have hlen := BitAlloc.length_alloc hcount halloc
      omega
    · obtain ⟨k, uf, slot, hk, hbad, hreads⟩ := (swapOutLoop_fails_iff _ _ _).mp ⟨file, hloop⟩
      obtain ⟨hufk, hslot⟩ := List.getElem?_zip_eq_some.mp hk
      obtain ⟨j, hj, f, hf, hnone⟩ :=
        hcond p fs slots swapFrames hfind hres hfs halloc k slot hslot (by simpa using hbad)
      have hkl : k < slots.length := (List.getElem?_eq_some_iff.mp hslot).1
      have hpair : (fs.zip slots)[j]? = some (f, slots[j]) :=
        List.getElem?_zip_eq_some.mpr ⟨hf, List.getElem?_eq_getElem (by omega)⟩
      have := hreads j hj _ hpair
      rw [hnone] at this
      exact absurd this (by simp)
    · exact absurd hb (by simp)

/-! ## 3. Resumption -/

section Copy

variable {cfg : Config} {file : SwapFile} {avail : Nat → Nat}

/-- What is read from the swap file is a page. -/
theorem length_swapReadFrame {slot size n : Nat} {page : List UInt8}
    (h : swapReadFrame cfg file slot size n = some page) : page.length = size := by
  unfold swapReadFrame at h
  simp only at h
  split at h
  · exact absurd h (by simp)
  · split at h
    · exact absurd h (by simp)
    · rw [← Option.some.inj h, Bytes.length_slice]

/-- One round of the copy into a frame, when the page can be read. -/
theorem swapInLoop_cons {i slot f : Nat} {rest : List (Nat × Nat)} {m : Bytes} {page : List UInt8}
    (hread : swapReadFrame cfg file slot cfg.tamPagina (avail i) = some page)
    (hf : f < cfg.framesTotal) :
    swapInLoop cfg file avail i ((slot, f) :: rest) m =
      swapInLoop cfg file avail (i + 1) rest (m.blit (f * cfg.tamPagina) page) := by
  have hlen := length_swapReadFrame hread
  have hwrite : writeToUserSpace cfg m (f * cfg.tamPagina + 0 : Nat) page =
      some (m.blit (f * cfg.tamPagina + 0) page) := writeToUserSpace_frame hf (by omega)
  rw [Nat.add_zero] at hwrite
  rw [swapInLoop, hread, Option.elim_some, toInt32_frame hf]
  exact bind_of_eq_some hwrite _

/-- The copy into existing frames always comes to an end. -/
theorem swapInLoop_isSome : ∀ (slots userFrames : List Nat) (i : Nat) (m : Bytes),
    (∀ f ∈ userFrames, f < cfg.framesTotal) →
    ∃ r, swapInLoop cfg file avail i (slots.zip userFrames) m = some r
  | [], _, i, m, _ => ⟨(m, true), by simp [swapInLoop]⟩
  | _ :: _, [], i, m, _ => ⟨(m, true), by simp [swapInLoop]⟩
  | slot :: slots, f :: userFrames, i, m, hlt => by
    rw [List.zip_cons_cons]
    cases hread : swapReadFrame cfg file slot cfg.tamPagina (avail i) with
    | none => exact ⟨(m, false), by rw [swapInLoop, hread, Option.elim_none]⟩
    | some page =>
      rw [swapInLoop_cons hread (hlt f List.mem_cons_self)]
      exact swapInLoop_isSome slots userFrames (i + 1) _ fun g hg => hlt g (List.mem_cons_of_mem _ hg)

theorem ReadableUpTo.tail {i slot j : Nat} {slots : List Nat}
    (h : ReadableUpTo cfg file avail i (slot :: slots) (j + 1)) :
    ReadableUpTo cfg file avail (i + 1) slots j := by
  intro l slot' hl hs
  have := h (l + 1) slot' (by omega) (by simpa using hs)
  rwa [show i + (l + 1) = i + 1 + l by omega] at this

theorem ReadableUpTo.cons {i slot j : Nat} {slots : List Nat} {page : List UInt8}
    (hread : swapReadFrame cfg file slot cfg.tamPagina (avail i) = some page)
    (h : ReadableUpTo cfg file avail (i + 1) slots j) :
    ReadableUpTo cfg file avail i (slot :: slots) (j + 1) := by
  intro l slot' hl hs
  cases l with
  | zero =>
    obtain rfl : slot = slot' := by simpa using hs
    simp [hread]
  | succ l =>
    have := h l slot' (by omega) (by simpa using hs)
    rwa [show i + 1 + l = i + (l + 1) by omega] at this

/-- **What the copy leaves in the user space**: the pages up to the first that cannot be read are in
their frames, and nothing else has changed. -/
theorem swapInLoop_copied {m' : Bytes} {b : Bool} : ∀ (slots userFrames : List Nat) (i : Nat) (m : Bytes),
    (∀ f ∈ userFrames, f < cfg.framesTotal) → userFrames.Nodup →
    swapInLoop cfg file avail i (slots.zip userFrames) m = some (m', b) →
    (∀ (j f slot : Nat) (page : List UInt8), userFrames[j]? = some f → slots[j]? = some slot →
      ReadableUpTo cfg file avail i slots j →
      swapReadFrame cfg file slot cfg.tamPagina (avail (i + j)) = some page →
      ∀ o < cfg.tamPagina, m' (f * cfg.tamPagina + o) = page.getD o 0) ∧
    ∀ x, (∀ j f : Nat, userFrames[j]? = some f → j < slots.length →
      ReadableUpTo cfg file avail i slots j →
      ¬ (f * cfg.tamPagina ≤ x ∧ x < f * cfg.tamPagina + cfg.tamPagina)) → m' x = m x
  | [], _, i, m, _, _, h => by
    simp only [List.zip_nil_left, swapInLoop, Option.some.injEq, Prod.mk.injEq] at h
    refine ⟨?_, fun x _ => by rw [h.1]⟩
    intro j f slot page _ hs
    simp at hs
  | _ :: _, [], i, m, _, _, h => by
    simp only [List.zip_nil_right, swapInLoop, Option.some.injEq, Prod.mk.injEq] at h
    refine ⟨?_, fun x _ => by rw [h.1]⟩
    intro j f slot page hf
    simp at hf
  | slot :: slots, f :: userFrames, i, m, hlt, hnd, h => by
    rw [List.zip_cons_cons] at h
    obtain ⟨hfresh, hnd'⟩ := List.nodup_cons.mp hnd
    have hlt' : ∀ g ∈ userFrames, g < cfg.framesTotal := fun g hg => hlt g (List.mem_cons_of_mem _ hg)
    cases hread : swapReadFrame cfg file slot cfg.tamPagina (avail i) with
    | none =>
      -- nothing more is copied
      rw [swapInLoop, hread, Option.elim_none, Option.some.injEq, Prod.mk.injEq] at h
      refine ⟨?_, fun x _ => by rw [h.1]⟩
      intro j g slot' page _ _ hup
      have := hup 0 slot (Nat.zero_le j) rfl
      rw [Nat.add_zero, hread] at this
      exact absurd this (by simp)
    | some page =>
      have hlen := length_swapReadFrame hread
      rw [swapInLoop_cons hread (hlt f List.mem_cons_self)] at h
      obtain ⟨hin, hout⟩ := swapInLoop_copied slots userFrames (i + 1) _ hlt' hnd' h
      refine ⟨?_, ?_⟩
      · intro j g slot' page' hg hs hup hread' o ho
        cases j with
        | zero =>
          obtain rfl : f = g := by simpa using hg
          obtain rfl : slot = slot' := by simpa using hs
          obtain rfl : page = page' := by simpa [hread] using hread'
          -- no later page goes to this frame
          rw [hout (f * cfg.tamPagina + o), Bytes.blit_of_mem (by omega) (by omega)]
          · congr 1
            omega
          · intro j g hg _ _ hmem
            have heq := frame_eq_of_mem (f := f) (by omega) (by omega) hmem.1 hmem.2
            exact hfresh (heq ▸ List.mem_of_getElem? hg)
        | succ j =>
          refine hin j g slot' page' (by simpa using hg) (by simpa using hs) hup.tail ?_ o ho
          rwa [show i + (j + 1) = i + 1 + j by omega] at hread'
      · intro x hx
        rw [hout x, Bytes.blit_of_not_mem]
        · rw [hlen]
          refine hx 0 f rfl (by simp) ?_
          intro l slot' hl hs
          obtain rfl : l = 0 := by omega
          obtain rfl : slot = slot' := by simpa using hs
          simp [hread]
        · intro j g hg hj hup
          exact hx (j + 1) g (by simpa using hg) (by simpa using hj) (hup.cons hread)

end Copy

/-- **A failing resumption leaves nothing behind exactly when it has copied no page over one that a
process owns.** -/
theorem swapIn_atomic_iff {cfg : Config} {s : State} {pid : Int} {avail : Nat → Nat}
    (htotal : s.frames.total = cfg.framesTotal) (hcount : s.frames.free = s.frames.clear.length) :
    (∀ s', swapInProcess cfg s pid avail = some (s', false) → Unchanged cfg s s') ↔
      SwapInSpares cfg s pid avail := by
  constructor
  · intro hall p slots userFrames frames hfind hsusp hslots halloc k slot hslot hbad j f slot' page
      hf hs hup hread howned o ho
    have hlen : userFrames.length = slots.length := by
      simpa using BitAlloc.length_alloc hcount halloc
    obtain ⟨hnd, hfree⟩ := BitAlloc.alloc_slots halloc
    have hlt : ∀ g ∈ userFrames, g < cfg.framesTotal := fun g hg => htotal ▸ (hfree g hg).1
    obtain ⟨⟨m, b⟩, hloop⟩ : ∃ r, swapInLoop cfg s.swapFile avail 0 (slots.zip userFrames) s.userSpace =
        some r := swapInLoop_isSome slots userFrames 0 s.userSpace hlt
    obtain rfl : b = false := by
      rw [Bool.eq_false_iff]
      intro hb
      have := (swapInLoop_success_iff (by omega) hloop).mp hb k slot hslot
      rw [Nat.zero_add, hbad] at this
      exact absurd this (by simp)
    have hresult : swapInProcess cfg s pid avail =
        some ({ s with frames := s.frames, userSpace := m }, false) := by
      obtain _ | ⟨x, xs⟩ := slots
      · simp at hslot
      · have hnot : ¬ userFrames.length < (x :: xs).length := by omega
        simp only [swapInProcess, hfind, hsusp, hslots, halloc, hloop, if_neg hnot,
          BitAlloc.release_alloc halloc, Option.map_some, Bool.true_eq_false, if_false]
    obtain ⟨q, hq, hfq⟩ := howned
    have hkept := (hall _ hresult).owned q hq f hfq o ho
    have hcopied := (swapInLoop_copied slots userFrames 0 s.userSpace hlt hnd hloop).1 j f slot' page
      hf hs hup (by rwa [Nat.zero_add]) o ho
    exact hkept.symm.trans hcopied
  · intro hcond s' h
    rcases swapInProcess_cases h with ⟨rfl, -⟩ | ⟨p, -, -, -, -, hb⟩ |
      ⟨p, slots, userFrames, frames, -, -, halloc, hshort, -, -⟩ |
      ⟨p, slots, userFrames, frames, frames', m, hfind, hslots, halloc, hloop, hrel, rfl, -⟩ |
      ⟨p, slots, userFrames, frames, swapFrames, m, -, -, -, -, -, -, -, -, -, hb⟩
    · exact Unchanged.refl cfg s'
    · exact absurd hb (by simp)
    · have hlen := BitAlloc.length_alloc hcount halloc
      omega
    · have hsusp : p.isSuspended = true := by
        by_contra hres
        have hres' : p.isSuspended = false := by simpa using hres
        simp [swapInProcess, hfind, hres'] at h
      have hlen : userFrames.length = slots.length := by
        simpa using BitAlloc.length_alloc hcount halloc
      obtain ⟨hnd, hfree⟩ := BitAlloc.alloc_slots halloc
      have hlt : ∀ g ∈ userFrames, g < cfg.framesTotal := fun g hg => htotal ▸ (hfree g hg).1
      obtain ⟨hcopied, hrest⟩ := swapInLoop_copied slots userFrames 0 s.userSpace hlt hnd hloop
      -- some page could not be read
      obtain ⟨k, slot, hslot, hbad⟩ : ∃ k slot, slots[k]? = some slot ∧
          swapReadFrame cfg s.swapFile slot cfg.tamPagina (avail k) = none := by
        by_contra hnone
        have := (swapInLoop_success_iff (by omega) hloop).mpr (by
          intro i slot hi
          rw [Option.isSome_iff_ne_none, Nat.zero_add]
          exact fun hc => hnone ⟨i, slot, hi, hc⟩)
        exact absurd this (by simp)
      have hframes : frames' = s.frames := by
        rw [BitAlloc.release_alloc halloc] at hrel
        exact (Option.some.inj hrel).symm
      refine ⟨rfl, hframes, rfl, ?_⟩
      intro q hq f hfq o ho
      by_cases hhit : ∃ j, userFrames[j]? = some f ∧ j < slots.length ∧
          ReadableUpTo cfg s.swapFile avail 0 slots j
      · obtain ⟨j, hf, hj, hup⟩ := hhit
        have hs : slots[j]? = some slots[j] := List.getElem?_eq_getElem hj
        obtain ⟨page, hpage⟩ := Option.isSome_iff_exists.mp (hup j slots[j] (Nat.le_refl j) hs)
        have hnow := hcopied j f slots[j] page hf hs hup hpage o ho
        rw [Nat.zero_add] at hpage
        have hbefore := hcond p slots userFrames frames hfind hsusp hslots halloc k slot hslot hbad j f
          slots[j] page hf hs hup hpage ⟨q, hq, hfq⟩ o ho
        exact hnow.trans hbefore.symm
      · refine hrest _ ?_
        intro j g hg hj hup hmem
        have heq : f = g := frame_eq_of_mem (by omega) (by omega) hmem.1 hmem.2
        exact hhit ⟨j, heq ▸ hg, hj, hup⟩
    · exact absurd hb (by simp)

/-! ## 4. Both -/

/-- Both free counts are the numbers of clear bits; `frames_total` is what `frame_allocation_init` made
it. -/
structure CountsTrue (cfg : Config) (s : State) : Prop where
  total : s.frames.total = cfg.framesTotal
  frames : s.frames.free = s.frames.clear.length
  swapFrames : s.swapFrames.free = s.swapFrames.clear.length

/-- **Failure atomicity of suspension and resumption**, for every state with true counts, every pid and
every pattern of failures, and exactly under which conditions. -/
theorem swap_atomic_iff (cfg : Config) (s : State) (pid : Int) (written avail : Nat → Nat)
    (hcounts : CountsTrue cfg s) :
    ((∀ s', swapOutProcess cfg s pid written = some (s', false) → Unchanged cfg s s') ↔
        SwapOutWrites cfg s pid written) ∧
      ((∀ s', swapInProcess cfg s pid avail = some (s', false) → Unchanged cfg s s') ↔
        SwapInSpares cfg s pid avail) :=
  ⟨swapOut_atomic_iff hcounts.swapFrames, swapIn_atomic_iff hcounts.total hcounts.frames⟩

/-- Process 0 is suspended to slot 0. -/
def oneSuspended : State where
  frames := BitAlloc.empty 4
  swapFrames := ⟨swapInitialFrames, fun k => decide (k = 0), 4095⟩
  userSpace := fun _ => 0
  swapFile := ⟨16, fun _ => 1⟩
  nextTableId := 1
  processes := [suspendedWith [0] (freshProcess 0 10 [] (.obj (initPageTable smallConfig 1).1) (.obj [0]))]

/-- The theorem at work on a resumption whose only page cannot be read. -/
theorem swap_atomic_iff_unreadable :
    CountsTrue smallConfig oneSuspended ∧
      (∃ s', swapInProcess smallConfig oneSuspended 0 (fun _ => 0) = some (s', false)) ∧
      ∀ s', swapInProcess smallConfig oneSuspended 0 (fun _ => 0) = some (s', false) →
        Unchanged smallConfig oneSuspended s' := by
  have hcounts : CountsTrue smallConfig oneSuspended := ⟨rfl, by decide, by decide +kernel⟩
  have hfail : (swapInProcess smallConfig oneSuspended 0 fun _ => 0).any (fun r => !r.2) = true := by
    decide +kernel
  obtain ⟨⟨s', b⟩, hresult, hb⟩ := (Option.any_eq_true _ _).mp hfail
  obtain rfl : b = false := by simpa using hb
  refine ⟨hcounts, ⟨s', hresult⟩,
    (swap_atomic_iff smallConfig oneSuspended 0 (fun _ => 0) (fun _ => 0) hcounts).2.mpr ?_⟩
  intro p slots userFrames frames hfind _ hslots _ k slot _ _ j f slot' page _ hs hup
  -- the first page is not readable, so no page was copied
  obtain rfl : _ = p := Option.some.inj hfind
  obtain rfl : [0] = slots := by simpa [suspendedWith] using hslots
  exact absurd (hup 0 0 (Nat.zero_le j) rfl) (by decide +kernel)

/-- Without the condition the slots leak: after INIT_PROCESS(0, 10) a SWAP(0) whose only page cannot be
written returns false, and slot 0 is taken. -/
theorem not_swap_atomic_unwritten :
    ¬ ∀ (cfg : Config) (s s' : State) (pid : Int) (written : Nat → Nat), CountsTrue cfg s →
      swapOutProcess cfg s pid written = some (s', false) → Unchanged cfg s s' := by
  intro hall
  obtain ⟨tr, s, -, htest⟩ := Lts.exists_run_of_drive (State.start smallConfig)
    (fun s r => (handle smallConfig s r).map Prod.fst) [initRequest 0 10]
    (fun _ s => decide (s.frames.total = smallConfig.framesTotal) &&
      decide (s.frames.free = s.frames.clear.length) &&
      decide (s.swapFrames.free = s.swapFrames.clear.length) && !s.swapFrames.bit 0 &&
      (swapOutProcess smallConfig s 0 fun _ => 0).any fun r => !r.2 && r.1.swapFrames.bit 0)
    (by decide +kernel)
  simp only [Bool.and_eq_true, decide_eq_true_eq, Bool.not_eq_true', Option.any_eq_true] at htest
  obtain ⟨⟨⟨⟨htotal, hfree⟩, hswap⟩, hclear⟩, ⟨s', b⟩, hresult, rfl, htaken⟩ := htest
  have hsame := (hall smallConfig s s' 0 (fun _ => 0) ⟨htotal, hfree, hswap⟩ hresult).swapFrames
  rw [hsame, hclear] at htaken
  exact absurd htaken (by simp)

end Tpso.Memoria
