/-
# Who owns which slot of the swap space

The other bitmap.  `swap_out_process` takes one slot a page and `swap_in_process` gives them back; the
slots of a process are the `allocated_frames` of its record while it is suspended.  The ledger of
`Tpso.Lib.BitAlloc` is instantiated a second time, with the slots of the suspended processes.

A process can also END while it is suspended, and `destroy_process_info` never calls
`swap_release_frames`: its slots stay taken for ever.  As long as the swap file takes what is written to
it, that is the only leak (`slotsOwned_iff`).
-/
import Tpso.Memoria.Ownership

namespace Tpso.Memoria

open Tpso.Lib

/-! ## 1. The property and the conditions -/

/-- The swap slots a record holds: its list, while it is suspended. -/
def suspendedSlots (p : ProcessInfo) : List Nat :=
  if p.isSuspended then
    match p.allocatedFrames with
    | .obj fs => fs
    | _ => []
  else []

/-- **Swap-slot conservation.**  The bits are set exactly for the slots of suspended processes, every slot
is on one list only and once in it, and the free count is the number of clear bits. -/
structure SlotsOwned (s : State) : Prop where
  total_eq : s.swapFrames.total = swapInitialFrames
  nodup : ∀ p ∈ s.processes, (suspendedSlots p).Nodup
  lt_total : ∀ p ∈ s.processes, ∀ k ∈ suspendedSlots p, k < swapInitialFrames
  disjoint : s.processes.Pairwise fun p q => (suspendedSlots p).Disjoint (suspendedSlots q)
  bit_iff : ∀ k < swapInitialFrames,
    s.swapFrames.bit k = true ↔ ∃ p ∈ s.processes, k ∈ suspendedSlots p
  free_eq : s.swapFrames.free = s.swapFrames.clear.length

/-- The `i`-th page reaches its slot whole: `fseek` accepts the position, and `fwrite` manages all bytes. -/
def WritesWhole (cfg : Config) (written : Nat → Nat) (i slot : Nat) : Prop :=
  0 ≤ toInt32 (slot * cfg.tamPagina) ∧ cfg.tamPagina ≤ written i

/-- Every write of the swap file that a request makes succeeds. -/
def WritesSucceed (cfg : Config) (s : State) : Request → Prop
  | .swap pid written => ∀ p fs slots swapFrames, processManagerFindProcess s.processes pid = some p →
      p.isSuspended = false → p.allocatedFrames = .obj fs →
      s.swapFrames.alloc fs.length = some (slots, swapFrames) →
      ∀ i slot, slots[i]? = some slot → WritesWhole cfg written i slot
  | _ => True

/-! ## 2. The copy to the swap file -/

/-- What is read has the length asked for. -/
theorem length_readFromUserSpace {cfg : Config} {m : Bytes} {a : Int} {n : Nat} {page : List UInt8}
    (h : readFromUserSpace cfg m a n = some page) : page.length = n := by
  unfold readFromUserSpace at h
  split at h
  · exact absurd h (by simp)
  · split at h
    · rw [← Option.some.inj h, List.length_replicate, Int.toNat_natCast]
    · split at h
      · exact absurd h (by simp)
      · rw [← Option.some.inj h, Bytes.length_slice, Int.toNat_natCast]

/-- `swap_write_frame` succeeds exactly when the page is written whole. -/
theorem swapWriteFrame_snd {cfg : Config} {file : SwapFile} {slot i : Nat} {page : List UInt8}
    {written : Nat → Nat} (hlen : page.length = cfg.tamPagina) :
    (swapWriteFrame cfg file slot page (written i)).2 = true ↔ WritesWhole cfg written i slot := by
  unfold swapWriteFrame WritesWhole
  simp only
  split
  · rename_i hneg
    simp [hneg]
  · rename_i hpos
    simp only [List.length_take, hlen, decide_eq_true_eq]
    omega

theorem bind_of_eq_some {α β : Type} {o : Option α} {a : α} (h : o = some a) (f : α → Option β) :
    o.bind f = f a := by
  rw [h]
  rfl

/-- One round of the copy, when the page can be read. -/
theorem swapOutLoop_cons {cfg : Config} {m : Bytes} {written : Nat → Nat} {i userFrame slot : Nat}
    {rest : List (Nat × Nat)} {file : SwapFile} {page : List UInt8}
    (hread : readFromUserSpace cfg m (toInt32 (userFrame * cfg.tamPagina)) cfg.tamPagina = some page) :
    swapOutLoop cfg m written i ((userFrame, slot) :: rest) file =
      if (swapWriteFrame cfg file slot page (written i)).2 = true then
        swapOutLoop cfg m written (i + 1) rest (swapWriteFrame cfg file slot page (written i)).1
      else some ((swapWriteFrame cfg file slot page (written i)).1, false) := by
  rw [swapOutLoop]
  exact bind_of_eq_some hread _

/-- **When the copy to the swap file fails**: some page is not written whole, and all pages up to it can
be read. -/
theorem swapOutLoop_fails_iff {cfg : Config} {m : Bytes} {written : Nat → Nat} :
    ∀ (pairs : List (Nat × Nat)) (i : Nat) (file : SwapFile),
      (∃ file', swapOutLoop cfg m written i pairs file = some (file', false)) ↔
        ∃ k userFrame slot, pairs[k]? = some (userFrame, slot) ∧
          ¬ WritesWhole cfg written (i + k) slot ∧
          ∀ j ≤ k, ∀ x, pairs[j]? = some x →
            (readFromUserSpace cfg m (toInt32 (x.1 * cfg.tamPagina)) cfg.tamPagina).isSome
  | [], i, file => by simp [swapOutLoop]
  | (userFrame, slot) :: rest, i, file => by
    cases hread : readFromUserSpace cfg m (toInt32 (userFrame * cfg.tamPagina)) cfg.tamPagina with
    | none =>
      have hnone : swapOutLoop cfg m written i ((userFrame, slot) :: rest) file = none := by
        rw [swapOutLoop, hread]
        rfl
      rw [hnone]
      constructor
      · rintro ⟨file', h⟩
        exact absurd h (by simp)
      · rintro ⟨k, uf, sl, -, -, hall⟩
        have := hall 0 (Nat.zero_le k) (userFrame, slot) rfl
        simp [hread] at this
    | some page =>
      have hlen := length_readFromUserSpace hread
      have hwhole : (swapWriteFrame cfg file slot page (written i)).2 = true ↔
          WritesWhole cfg written i slot := swapWriteFrame_snd hlen
      by_cases hok : WritesWhole cfg written i slot
      · rw [swapOutLoop_cons hread, if_pos (hwhole.mpr hok), swapOutLoop_fails_iff rest (i + 1)]
        constructor
        · rintro ⟨k, uf, sl, hk, hbad, hall⟩
          refine ⟨k + 1, uf, sl, by simpa using hk, by rwa [← Nat.add_right_comm] at hbad, ?_⟩
          intro j hj x hx
          cases j with
          | zero =>
            obtain rfl : (userFrame, slot) = x := by simpa using hx
            simp [hread]
          | succ j => exact hall j (by omega) x (by simpa using hx)
        · rintro ⟨k, uf, sl, hk, hbad, hall⟩
          cases k with
          | zero =>
            have heq : (userFrame, slot) = (uf, sl) := by simpa using hk
            rw [(Prod.mk.inj heq).2] at hok
            exact absurd hok hbad
          | succ k =>
            refine ⟨k, uf, sl, by simpa using hk, by rwa [Nat.add_right_comm], ?_⟩
            intro j hj x hx
            exact hall (j + 1) (by omega) x (by simpa using hx)
      · rw [swapOutLoop_cons hread, if_neg fun h => hok (hwhole.mp h)]
        constructor
        · intro _
          refine ⟨0, userFrame, slot, rfl, by simpa using hok, ?_⟩
          intro j hj x hx
          obtain rfl : j = 0 := by omega
          obtain rfl : (userFrame, slot) = x := by simpa using hx
          simp [hread]
        · intro _
          exact ⟨_, rfl⟩

/-! ## 3. The property is the ledger of the suspended lists -/

/-- All slots of suspended processes, in the order of the process list. -/
def allSuspended (ps : List ProcessInfo) : List Nat := ps.flatMap suspendedSlots

theorem slotsOwned_iff_owns {s : State} :
    SlotsOwned s ↔ s.swapFrames.total = swapInitialFrames ∧
      s.swapFrames.Owns (allSuspended s.processes) := by
  constructor
  · intro h
    refine ⟨h.total_eq, List.nodup_flatMap.mpr ⟨h.nodup, h.disjoint⟩, ?_, ?_, h.free_eq⟩
    · intro k hk
      obtain ⟨p, hp, hkp⟩ := List.mem_flatMap.mp hk
      rw [h.total_eq]
      exact h.lt_total p hp k hkp
    · intro k hk
      rw [h.bit_iff k (h.total_eq ▸ hk), allSuspended, List.mem_flatMap]
  · rintro ⟨htotal, h⟩
    obtain ⟨hnd, hdis⟩ := List.nodup_flatMap.mp h.nodup
    refine ⟨htotal, hnd, ?_, hdis, ?_, h.free_eq⟩
    · intro p hp k hk
      rw [← htotal]
      exact h.lt_total k (List.mem_flatMap.mpr ⟨p, hp, hk⟩)
    · intro k hk
      rw [h.bit_iff k (htotal.symm ▸ hk), allSuspended, List.mem_flatMap]

theorem suspendedSlots_of_resident {p : ProcessInfo} (h : p.isSuspended = false) :
    suspendedSlots p = [] := by
  simp [suspendedSlots, h]

theorem suspendedSlots_of_obj {p : ProcessInfo} {slots : List Nat} (hsusp : p.isSuspended = true)
    (hslots : p.allocatedFrames = .obj slots) : suspendedSlots p = slots := by
  simp [suspendedSlots, hsusp, hslots]

/-- A record without slots holds none, whatever its mark says. -/
theorem suspendedSlots_of_none {p : ProcessInfo}
    (h : p.allocatedFrames = .null ∨ p.allocatedFrames = .obj []) (b : Bool) :
    suspendedSlots { p with isSuspended := b } = [] := by
  cases b with
  | false => rfl
  | true =>
    rcases h with h | h
    · simp [suspendedSlots, h]
    · simp [suspendedSlots, h]

/-! ## 4. One request -/

/-- With a ledger and a swap file that works, `swap_out_process` either leaves the slots alone, or moves
the process. -/
theorem swap_keeps_slots {cfg : Config} {s s' : State} {pid : Int} {written : Nat → Nat} {b : Bool}
    (ho : s.swapFrames.Owns (allSuspended s.processes)) (hw : WritesSucceed cfg s (.swap pid written))
    (h : swapOutProcess cfg s pid written = some (s', b)) :
    s'.swapFrames.total = s.swapFrames.total ∧ s'.swapFrames.Owns (allSuspended s'.processes) := by
  rcases swapOutProcess_exits h with ⟨rfl, -⟩ | ⟨p, hfind, hres, hnull, rfl, -⟩ |
    ⟨p, fs, slots, swapFrames, -, -, -, halloc, hshort, -, -⟩ |
    ⟨p, fs, slots, swapFrames, file, hfind, hres, hfs, halloc, -, hloop, -, -⟩ |
    ⟨p, fs, slots, frames, swapFrames, file, hfind, hres, hfs, halloc, -, -, -, rfl, -⟩
  · exact ⟨rfl, ho⟩
  · obtain ⟨rest, hperm, hupd, -⟩ := flatMap_find suspendedSlots hfind
    rw [suspendedSlots_of_resident hres] at hperm
    have hnew := (hupd fun p => { p with isSuspended := true }).symm
    simp only [suspendedSlots_of_none (Or.inl hnull) true] at hnew
    exact ⟨rfl, ho.perm (hperm.trans hnew)⟩
  · -- the free count can be trusted, so this way out is closed
    have hmet := ho.alloc_length halloc
    omega
  · -- and so is this one, as all pages are written whole
    obtain ⟨k, uf, slot, hk, hbad, -⟩ := (swapOutLoop_fails_iff _ _ _).mp ⟨file, hloop⟩
    have hslot : slots[k]? = some slot := (List.getElem?_zip_eq_some.mp hk).2
    exact absurd (by simpa using hw p fs slots swapFrames hfind hres hfs halloc k slot hslot) hbad
  · obtain ⟨rest, hperm, hupd, -⟩ := flatMap_find suspendedSlots hfind
    rw [suspendedSlots_of_resident hres] at hperm
    obtain ⟨hnew, htotal⟩ := ho.alloc halloc
    have hfull := hnew.perm (hperm.append_left slots)
    refine ⟨htotal, hfull.perm ?_⟩
    simpa [allSuspended, suspendedSlots, suspendedWith] using (hupd (suspendedWith slots)).symm

/-- **Every request keeps the ledger of slots**, if it does not kill a suspended process. -/
theorem owns_slots_step {cfg : Config} {s s' : State} {r : Request} {reply : Reply}
    (hshape : Shaped cfg s) (ho : s.swapFrames.Owns (allSuspended s.processes))
    (hw : WritesSucceed cfg s r) (hc : KillsResident s r) (h : handle cfg s r = some (s', reply)) :
    s'.swapFrames.total = s.swapFrames.total ∧ s'.swapFrames.Owns (allSuspended s'.processes) := by
  cases r with
  | initProcess pid size file left =>
    obtain ⟨⟨s1, b⟩, hcr, heq⟩ := Option.map_eq_some_iff.mp h
    obtain ⟨rfl, -⟩ := Prod.mk.inj heq
    rcases createProcess_cases hcr with ⟨rfl, -⟩ | ⟨fs, frames, -, -, rfl, -⟩ |
      ⟨fs, frames, frames', id, -, -, rfl, -⟩ | ⟨fs, frames, t, id, ins, -, -, -, -, rfl, -⟩ |
      ⟨ins, -, rfl, -⟩
    · exact ⟨rfl, ho⟩
    · exact ⟨rfl, ho⟩
    · exact ⟨rfl, ho⟩
    · exact ⟨rfl, by simpa [allSuspended, suspendedSlots, freshProcess] using ho⟩
    · exact ⟨rfl, by simpa [allSuspended, suspendedSlots, freshProcess] using ho⟩
  | killProcess pid =>
    obtain ⟨⟨s1, b⟩, hd, heq⟩ := Option.map_eq_some_iff.mp h
    obtain ⟨rfl, -⟩ := Prod.mk.inj heq
    rcases deleteProcess_cases hd with ⟨-, rfl, -⟩ | ⟨p, hfind, hnone, rfl, -⟩ |
      ⟨p, fs, frames, hfind, hsize, hfs, hrel, rfl, -⟩
    · exact ⟨rfl, ho⟩
    · obtain ⟨rest, hperm, -, her⟩ := flatMap_find suspendedSlots hfind
      -- a record of size 0, or without a list, has no slots
      have hnil : suspendedSlots p = [] := by
        have hnolist : ∀ fs, p.allocatedFrames ≠ .obj fs := by
          intro fs hfs
          rcases hnone with hzero | hnull
          · exact hshape.zero p (mem_of_find hfind) hzero fs hfs
          · simp [hnull] at hfs
        unfold suspendedSlots
        split
        · split
          · rename_i fs hfs
            exact absurd hfs (hnolist fs)
          · rfl
        · rfl
      rw [hnil] at hperm
      exact ⟨rfl, by simpa [allSuspended, her] using ho.perm hperm⟩
    · obtain ⟨rest, hperm, -, her⟩ := flatMap_find suspendedSlots hfind
      rw [suspendedSlots_of_resident (hc p hfind hsize)] at hperm
      exact ⟨rfl, by simpa [allSuspended, her] using ho.perm hperm⟩
  | swap pid written =>
    obtain ⟨⟨s1, b⟩, hsw, heq⟩ := Option.map_eq_some_iff.mp h
    obtain ⟨rfl, -⟩ := Prod.mk.inj heq
    exact swap_keeps_slots ho hw hsw
  | unsuspendProcess pid avail =>
    obtain ⟨⟨s1, b⟩, hsw, heq⟩ := Option.map_eq_some_iff.mp h
    obtain ⟨rfl, -⟩ := Prod.mk.inj heq
    rcases swapInProcess_cases hsw with ⟨rfl, -⟩ | ⟨p, hfind, hsusp, hnone, rfl, -⟩ |
      ⟨p, slots, userFrames, frames, -, -, -, -, rfl, -⟩ |
      ⟨p, slots, userFrames, frames, frames', m, -, -, -, -, -, rfl, -⟩ |
      ⟨p, slots, userFrames, frames, swapFrames, m, hfind, hsusp, hslots, -, -, -, -, hrel, rfl, -⟩
    · exact ⟨rfl, ho⟩
    · obtain ⟨rest, hperm, hupd, -⟩ := flatMap_find suspendedSlots hfind
      have hnil : suspendedSlots p = [] := by
        rcases hnone with h | h
        · simp [suspendedSlots, h]
        · simp [suspendedSlots, h]
      rw [hnil] at hperm
      have hnew := (hupd fun p => { p with isSuspended := false }).symm
      simp only [suspendedSlots_of_none hnone false] at hnew
      exact ⟨rfl, ho.perm (hperm.trans hnew)⟩
    · exact ⟨rfl, ho⟩
    · exact ⟨rfl, ho⟩
    · obtain ⟨rest, hperm, hupd, -⟩ := flatMap_find suspendedSlots hfind
      rw [suspendedSlots_of_obj hsusp hslots] at hperm
      obtain ⟨hgone, htotal⟩ := (ho.perm hperm).release hrel
      refine ⟨htotal, hgone.perm ?_⟩
      simpa [allSuspended, suspendedSlots, resumedWith] using (hupd (resumedWith userFrames)).symm
  | readMemory a n =>
    obtain ⟨m, rfl⟩ := handle_memory_eq h (Or.inl ⟨a, n, rfl⟩)
    exact ⟨rfl, ho⟩
  | writeMemory a d =>
    obtain ⟨m, rfl⟩ := handle_memory_eq h (Or.inr ⟨a, d, rfl⟩)
    exact ⟨rfl, ho⟩

/-- **And killing a suspended process leaks its slots**: their bits stay set, and no list has them. -/
theorem killsResident_of_owns_slots {cfg : Config} {s s' : State} {r : Request} {reply : Reply}
    (hshape : Shaped cfg s) (ho : s.swapFrames.Owns (allSuspended s.processes))
    (h : handle cfg s r = some (s', reply)) (ho' : s'.swapFrames.Owns (allSuspended s'.processes)) :
    KillsResident s r := by
  cases r with
  | killProcess pid =>
    intro p hfind hsize
    by_contra hres
    have hsusp : p.isSuspended = true := by simpa using hres
    obtain ⟨⟨s1, b⟩, hd, heq⟩ := Option.map_eq_some_iff.mp h
    obtain ⟨rfl, -⟩ := Prod.mk.inj heq
    obtain ⟨hpos, t, fs, -, hfs, hlen⟩ := hshape.sized p (mem_of_find hfind) hsize
    -- the slots of the process are not empty
    obtain ⟨k, hk⟩ : ∃ k, k ∈ fs := by
      refine List.exists_mem_of_length_pos ?_
      have := cfg.pagesNeeded_pos hpos
      omega
    obtain ⟨rest, hperm, -, her⟩ := flatMap_find suspendedSlots hfind
    rw [suspendedSlots_of_obj hsusp hfs] at hperm
    have howned : s.swapFrames.Owns (fs ++ rest) := ho.perm hperm
    have hlt := howned.lt_total k (List.mem_append_left _ hk)
    have hbit := (howned.bit_iff k hlt).mpr (List.mem_append_left _ hk)
    have hgone : k ∉ rest := fun hr =>
      (List.nodup_append.mp howned.nodup).2.2 k hk k hr rfl
    -- the slots are no concern of the kill: the bitmap is as it was, the list is gone
    have hsame : s1.swapFrames = s.swapFrames ∧
        s1.processes = s.processes.eraseP fun p => decide (p.pid = pid) := by
      rcases deleteProcess_cases hd with ⟨hnone, -, -⟩ | ⟨q, -, -, rfl, -⟩ |
        ⟨q, fs', frames, -, -, -, -, rfl, -⟩
      · simp [hfind] at hnone
      · exact ⟨rfl, rfl⟩
      · exact ⟨rfl, rfl⟩
    rw [hsame.1, hsame.2, allSuspended, her] at ho'
    exact hgone ((ho'.bit_iff k hlt).mp hbit)
  | _ => trivial

/-! ## 5. Whole runs -/

/-- **The slots are conserved, in every state of a run in which the swap file takes every write, exactly
when the run kills no process of non-zero size while it is suspended.** -/
theorem slotsOwned_iff {cfg : Config} {tr : List (Transition State Request)} {s : State}
    (hr : (memoria cfg).Run tr s) (hw : ∀ x ∈ tr, WritesSucceed cfg x.src x.label) :
    (SlotsOwned s ∧ ∀ x ∈ tr, SlotsOwned x.src) ↔ ∀ x ∈ tr, KillsResident x.src x.label := by
  refine Lts.Run.invariant_iff_of (J := Shaped cfg) ?_ ?_ ?_ hr hw
  · rintro s rfl
    exact ⟨shaped_start cfg,
      slotsOwned_iff_owns.mpr ⟨rfl, BitAlloc.owns_empty swapInitialFrames⟩⟩
  · intro s r s' hs _ hst
    obtain ⟨⟨s1, reply⟩, h, rfl⟩ := Option.map_eq_some_iff.mp hst
    exact shaped_step hs h
  · intro s r s' hshape hs hwr hst
    obtain ⟨⟨s1, reply⟩, h, rfl⟩ := Option.map_eq_some_iff.mp hst
    obtain ⟨htotal, ho⟩ := slotsOwned_iff_owns.mp hs
    constructor
    · intro hs'
      exact killsResident_of_owns_slots hshape ho h (slotsOwned_iff_owns.mp hs').2
    · intro hc
      obtain ⟨htotal', ho'⟩ := owns_slots_step hshape ho hwr hc h
      exact slotsOwned_iff_owns.mpr ⟨htotal'.trans htotal, ho'⟩

/-- In the small memory all slots have legal positions in the file. -/
theorem writesSucceed_small {s : State} (h : s.swapFrames.total = swapInitialFrames) (pid : Int) :
    WritesSucceed smallConfig s (swapRequest pid) := by
  intro p fs slots swapFrames _ _ _ halloc i slot hslot
  have hlt : slot < swapInitialFrames :=
    h ▸ ((BitAlloc.alloc_slots halloc).2 slot (List.mem_of_getElem? hslot)).1
  refine ⟨?_, Nat.le_refl 16⟩
  have hpos : (0 : Int) ≤ slot * (16 : Nat) := by positivity
  have hsmall : (slot : Int) * (16 : Nat) < 2 ^ 31 := by
    unfold swapInitialFrames at hlt
    omega
  exact (toInt32_eq hpos hsmall).symm ▸ hpos

/-- The theorem at work on a run that suspends a process, resumes it and kills it. -/
theorem slotsOwned_iff_resumed_then_killed :
    ∃ tr s, (memoria smallConfig).Run tr s ∧ s.processes.length = 1 ∧ SlotsOwned s := by
  obtain ⟨tr, s, hrun, hlabels, htest⟩ := Lts.exists_run_labels_of_drive (State.start smallConfig)
    (fun s r => (handle smallConfig s r).map Prod.fst)
    [initRequest 0 30, initRequest 1 10, swapRequest 0, unsuspendRequest 0, .killProcess 0]
    (fun tr s => decide (s.processes.length = 1) && tr.all fun x =>
      decide (x.src.swapFrames.total = swapInitialFrames) &&
        (x.src.processes.all (fun p => !p.isSuspended) || !x.label.isKill)) (by decide +kernel)
  simp only [Bool.and_eq_true, decide_eq_true_eq, List.all_eq_true, Bool.or_eq_true] at htest
  have hmem : ∀ x ∈ tr, x.label ∈ [initRequest 0 30, initRequest 1 10, swapRequest 0,
      unsuspendRequest 0, .killProcess 0] := fun x hx => hlabels ▸ List.mem_map_of_mem hx
  refine ⟨tr, s, hrun, htest.1, ((slotsOwned_iff hrun ?_).mpr ?_).1⟩
  · intro x hx
    have htotal := (htest.2 x hx).1
    have hlabel := hmem x hx
    simp only [List.mem_cons, List.not_mem_nil, or_false] at hlabel
    rcases hlabel with h | h | h | h | h
    · rw [h]; trivial
    · rw [h]; trivial
    · rw [h]
      exact writesSucceed_small htotal 0
    · rw [h]; trivial
    · rw [h]; trivial
  · intro x hx
    have hx' := (htest.2 x hx).2
    obtain ⟨src, label, dst⟩ := x
    cases label with
    | killProcess pid =>
      intro p hfind _
      rcases hx' with hall | hbad
      · simpa using hall p (mem_of_find hfind)
      · simp [Request.isKill] at hbad
    | _ => trivial

/-- Without the condition slots leak although the swap file works: process 0 is suspended to slot 0 and
killed, the bit of slot 0 stays set, and no process is left. -/
theorem not_slotsOwned_suspended_killed :
    ¬ ∀ (cfg : Config) (tr : List (Transition State Request)) (s : State),
      (memoria cfg).Run tr s → (∀ x ∈ tr, WritesSucceed cfg x.src x.label) → SlotsOwned s := by
  intro hall
  obtain ⟨tr, s, hrun, hlabels, htest⟩ := Lts.exists_run_labels_of_drive (State.start smallConfig)
    (fun s r => (handle smallConfig s r).map Prod.fst)
    [initRequest 0 10, swapRequest 0, .killProcess 0]
    (fun tr s => decide (s.processes.length = 0) && s.swapFrames.bit 0 &&
      tr.all fun x => decide (x.src.swapFrames.total = swapInitialFrames)) (by decide +kernel)
  simp only [Bool.and_eq_true, decide_eq_true_eq, List.all_eq_true] at htest
  obtain ⟨⟨hnone, hbit⟩, htotal⟩ := htest
  have hmem : ∀ x ∈ tr, x.label ∈ [initRequest 0 10, swapRequest 0, .killProcess 0] :=
    fun x hx => hlabels ▸ List.mem_map_of_mem hx
  have hwrites : ∀ x ∈ tr, WritesSucceed smallConfig x.src x.label := by
    intro x hx
    have hlabel := hmem x hx
    simp only [List.mem_cons, List.not_mem_nil, or_false] at hlabel
    rcases hlabel with h | h | h
    · rw [h]; trivial
    · rw [h]
      exact writesSucceed_small (htotal x hx) 0
    · rw [h]; trivial
  have howned := hall smallConfig tr s hrun hwrites
  obtain ⟨p, hp, -⟩ := (howned.bit_iff 0 (by decide)).mp hbit
  rw [List.length_eq_zero_iff.mp hnone] at hp
  exact absurd hp (by simp)

end Tpso.Memoria
