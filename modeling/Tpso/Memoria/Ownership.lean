/-
# Who owns which user frame

`allocated_frames` means user frames while a process is resident and swap slots while it is
suspended.  `swap_out_process` and `swap_in_process` free each kind into its own bitmap;
`destroy_process_info` does not look at the mark and frees whatever the list holds into the USER
bitmap.

The ledger of `Tpso.Lib.BitAlloc` is instantiated with the frames of the resident processes.  Every
request keeps it, except the KILL_PROCESS of a suspended process, which always destroys it
(`framesOwned_iff`).
-/
import Tpso.Memoria.Steps

namespace Tpso.Memoria

open Tpso.Lib

/-! ## 1. The property -/

/-- The user frames a record holds: its list, while it is not suspended. -/
def residentFrames (p : ProcessInfo) : List Nat :=
  if p.isSuspended then []
  else match p.allocatedFrames with
    | .obj fs => fs
    | _ => []

/-- **User-frame ownership.**  (a) The frame lists of the resident processes of positive size have no
repetitions, exist and are pairwise disjoint; (b) the bits are set exactly for the frames on some
resident list; (c) the free count is the number of clear bits. -/
structure FramesOwned (s : State) : Prop where
  nodup : ∀ p ∈ s.processes, 0 < p.processSize → (residentFrames p).Nodup
  lt_total : ∀ p ∈ s.processes, 0 < p.processSize → ∀ f ∈ residentFrames p, f < s.frames.total
  disjoint : s.processes.Pairwise fun p q => 0 < p.processSize → 0 < q.processSize →
    (residentFrames p).Disjoint (residentFrames q)
  bit_iff : ∀ f < s.frames.total, s.frames.bit f = true ↔ ∃ p ∈ s.processes, f ∈ residentFrames p
  free_eq : s.frames.free = s.frames.clear.length

/-- The condition on one request: a KILL_PROCESS does not find a suspended process that has a size. -/
def KillsResident (s : State) : Request → Prop
  | .killProcess pid => ∀ p, processManagerFindProcess s.processes pid = some p →
      p.processSize ≠ 0 → p.isSuspended = false
  | _ => True

/-! ## 2. The property is the ledger of the resident lists -/

/-- All frames on resident lists, in the order of the process list. -/
def allResident (ps : List ProcessInfo) : List Nat := ps.flatMap residentFrames

theorem mem_allResident {ps : List ProcessInfo} {f : Nat} :
    f ∈ allResident ps ↔ ∃ p ∈ ps, f ∈ residentFrames p := List.mem_flatMap

/-- Only a process of positive size holds frames. -/
theorem Shaped.pos_of_mem {cfg : Config} {s : State} (hs : Shaped cfg s) {p : ProcessInfo}
    (hp : p ∈ s.processes) {f : Nat} (hf : f ∈ residentFrames p) : 0 < p.processSize := by
  by_cases hsize : p.processSize = 0
  · unfold residentFrames at hf
    split at hf
    · simp at hf
    · split at hf
      · rename_i fs hfs
        exact absurd hfs (hs.zero p hp hsize fs)
      · simp at hf
  · exact (hs.sized p hp hsize).1

theorem framesOwned_iff_owns {cfg : Config} {s : State} (hs : Shaped cfg s) :
    FramesOwned s ↔ s.frames.Owns (allResident s.processes) := by
  constructor
  · intro h
    refine ⟨?_, ?_, ?_, h.free_eq⟩
    · refine List.nodup_flatMap.mpr ⟨?_, ?_⟩
      · intro p hp
        by_cases hpos : 0 < p.processSize
        · exact h.nodup p hp hpos
        · have hnil : residentFrames p = [] :=
            List.eq_nil_iff_forall_not_mem.mpr fun f hf => hpos (hs.pos_of_mem hp hf)
          rw [hnil]
          exact List.nodup_nil
      · refine h.disjoint.imp_of_mem ?_
        intro p q hp hq hdis f hf hg
        exact hdis (hs.pos_of_mem hp hf) (hs.pos_of_mem hq hg) hf hg
    · intro f hf
      obtain ⟨p, hp, hfp⟩ := mem_allResident.mp hf
      exact h.lt_total p hp (hs.pos_of_mem hp hfp) f hfp
    · intro f hf
      rw [h.bit_iff f hf, mem_allResident]
  · intro h
    obtain ⟨hnd, hdis⟩ := List.nodup_flatMap.mp h.nodup
    refine ⟨fun p hp _ => hnd p hp, ?_, hdis.imp fun hd _ _ => hd, ?_, h.free_eq⟩
    · intro p hp _ f hf
      exact h.lt_total f (mem_allResident.mpr ⟨p, hp, hf⟩)
    · intro f hf
      rw [h.bit_iff f hf, mem_allResident]

/-! ## 3. How each change of the list changes the ledger -/

theorem allResident_append (ps qs : List ProcessInfo) :
    allResident (ps ++ qs) = allResident ps ++ allResident qs := List.flatMap_append

/-- What the record that a pid finds contributes to a list can be put first; the rest is what is left
when the record is removed, and what stays when it is changed. -/
theorem flatMap_find (g : ProcessInfo → List Nat) {ps : List ProcessInfo} {pid : Int} {p : ProcessInfo}
    (h : processManagerFindProcess ps pid = some p) :
    ∃ rest, (ps.flatMap g).Perm (g p ++ rest) ∧
      (∀ f, ((updateProcess f pid ps).flatMap g).Perm (g (f p) ++ rest)) ∧
      (ps.eraseP fun p => decide (p.pid = pid)).flatMap g = rest := by
  obtain ⟨l, r, heq, -, -, hupd, her⟩ := find_split h
  have hmid : ∀ q, ((l ++ q :: r).flatMap g).Perm (g q ++ (l ++ r).flatMap g) := by
    intro q
    exact List.perm_middle.flatMap_right g
  refine ⟨(l ++ r).flatMap g, heq ▸ hmid p, ?_, by rw [her]⟩
  intro f
  rw [hupd f]
  exact hmid (f p)

theorem allResident_find {ps : List ProcessInfo} {pid : Int} {p : ProcessInfo}
    (h : processManagerFindProcess ps pid = some p) :
    ∃ rest, (allResident ps).Perm (residentFrames p ++ rest) ∧
      (∀ f, (allResident (updateProcess f pid ps)).Perm (residentFrames (f p) ++ rest)) ∧
      allResident (ps.eraseP fun p => decide (p.pid = pid)) = rest :=
  flatMap_find residentFrames h

theorem residentFrames_of_obj {p : ProcessInfo} {fs : List Nat} (hres : p.isSuspended = false)
    (hfs : p.allocatedFrames = .obj fs) : residentFrames p = fs := by
  simp [residentFrames, hres, hfs]

theorem residentFrames_of_suspended {p : ProcessInfo} (h : p.isSuspended = true) :
    residentFrames p = [] := by
  simp [residentFrames, h]

/-- A record without frames holds none, whatever its mark says. -/
theorem residentFrames_of_none {p : ProcessInfo}
    (h : p.allocatedFrames = .null ∨ p.allocatedFrames = .obj []) (b : Bool) :
    residentFrames { p with isSuspended := b } = [] := by
  cases b with
  | true => rfl
  | false =>
    rcases h with h | h
    · simp [residentFrames, h]
    · simp [residentFrames, h]

/-! ## 4. One request -/

/-- **Every request keeps the ledger**, if it does not kill a suspended process. -/
theorem owns_step {cfg : Config} {s s' : State} {r : Request} {reply : Reply} (hshape : Shaped cfg s)
    (ho : s.frames.Owns (allResident s.processes)) (hc : KillsResident s r)
    (h : handle cfg s r = some (s', reply)) : s'.frames.Owns (allResident s'.processes) := by
  cases r with
  | initProcess pid size file left =>
    obtain ⟨⟨s1, b⟩, hcr, heq⟩ := Option.map_eq_some_iff.mp h
    obtain ⟨rfl, -⟩ := Prod.mk.inj heq
    rcases createProcess_cases hcr with ⟨rfl, -⟩ | ⟨fs, frames, halloc, hlen, rfl, -⟩ |
      ⟨fs, frames, frames', id, halloc, hrel, rfl, -⟩ |
      ⟨fs, frames, t, id, ins, -, halloc, -, -, rfl, -⟩ | ⟨ins, -, rfl, -⟩
    · exact ho
    · -- with a ledger only a request for a negative number of pages gets another number, and none
      have hmet := ho.alloc_length halloc
      have hnil : fs = [] := List.length_eq_zero_iff.mp (by omega)
      simpa [hnil] using (ho.alloc halloc).1
    · exact ((ho.alloc halloc).1.release hrel).1
    · have hnew := (ho.alloc halloc).1
      rw [allResident_append]
      exact hnew.perm (by
        simpa [allResident, residentFrames, freshProcess] using List.perm_append_comm)
    · rw [allResident_append]
      have hnone : residentFrames (freshProcess pid size ins (Ptr.unset left.tableIsNull)
          (Ptr.unset left.framesIsNull)) = [] := by
        unfold residentFrames freshProcess
        cases left.framesIsNull with
        | true => rfl
        | false => rfl
      simpa [allResident, hnone] using ho
  | killProcess pid =>
    obtain ⟨⟨s1, b⟩, hd, heq⟩ := Option.map_eq_some_iff.mp h
    obtain ⟨rfl, -⟩ := Prod.mk.inj heq
    rcases deleteProcess_cases hd with ⟨-, rfl, -⟩ | ⟨p, hfind, hnone, rfl, -⟩ |
      ⟨p, fs, frames, hfind, hsize, hfs, hrel, rfl, -⟩
    · exact ho
    · obtain ⟨rest, hperm, -, her⟩ := allResident_find hfind
      have hnil : residentFrames p = [] := by
        refine List.eq_nil_iff_forall_not_mem.mpr fun f hf => ?_
        have hpos := hshape.pos_of_mem (mem_of_find hfind) hf
        obtain ⟨-, t, fs, -, hfs, -⟩ := hshape.sized p (mem_of_find hfind) (ne_of_gt hpos)
        rcases hnone with hzero | hnull
        · omega
        · simp [hnull] at hfs
      rw [hnil] at hperm
      rw [her]
      exact ho.perm (by simpa using hperm)
    · obtain ⟨rest, hperm, -, her⟩ := allResident_find hfind
      rw [residentFrames_of_obj (hc p hfind hsize) hfs] at hperm
      rw [her]
      exact ((ho.perm hperm).release hrel).1
  | swap pid written =>
    obtain ⟨⟨s1, b⟩, hsw, heq⟩ := Option.map_eq_some_iff.mp h
    obtain ⟨rfl, -⟩ := Prod.mk.inj heq
    rcases swapOutProcess_cases hsw with ⟨⟨swapFrames, file, rfl⟩, -⟩ |
      ⟨p, hfind, -, hnull, rfl, -⟩ |
      ⟨p, fs, slots, frames, swapFrames, file, hfind, hres, hfs, -, -, hrel, rfl, -⟩
    · exact ho
    · obtain ⟨rest, hperm, hupd, -⟩ := allResident_find hfind
      have hnil : residentFrames p = [] := by simp [residentFrames, hnull]
      rw [hnil] at hperm
      have hnew := (hupd fun p => { p with isSuspended := true }).symm
      simp only [residentFrames_of_none (Or.inl hnull) true] at hnew
      exact ho.perm (hperm.trans hnew)
    · obtain ⟨rest, hperm, hupd, -⟩ := allResident_find hfind
      rw [residentFrames_of_obj hres hfs] at hperm
      have hgone := ((ho.perm hperm).release hrel).1
      exact hgone.perm (by
        simpa [residentFrames, suspendedWith] using (hupd (suspendedWith slots)).symm)
  | unsuspendProcess pid avail =>
    obtain ⟨⟨s1, b⟩, hsw, heq⟩ := Option.map_eq_some_iff.mp h
    obtain ⟨rfl, -⟩ := Prod.mk.inj heq
    rcases swapInProcess_cases hsw with ⟨rfl, -⟩ | ⟨p, hfind, hsusp, hnone, rfl, -⟩ |
      ⟨p, slots, userFrames, frames, -, -, halloc, hshort, -, -⟩ |
      ⟨p, slots, userFrames, frames, frames', m, -, -, halloc, -, hrel, rfl, -⟩ |
      ⟨p, slots, userFrames, frames, swapFrames, m, hfind, hsusp, hslots, -, halloc, -, -, -, rfl, -⟩
    · exact ho
    · obtain ⟨rest, hperm, hupd, -⟩ := allResident_find hfind
      rw [residentFrames_of_suspended hsusp] at hperm
      have hnew := (hupd fun p => { p with isSuspended := false }).symm
      simp only [residentFrames_of_none hnone false] at hnew
      exact ho.perm (hperm.trans hnew)
    · -- the free count can be trusted, so this way out is closed
      have hmet := ho.alloc_length halloc
      omega
    · exact ((ho.alloc halloc).1.release hrel).1
    · obtain ⟨rest, hperm, hupd, -⟩ := allResident_find hfind
      rw [residentFrames_of_suspended hsusp] at hperm
      have hnew := (ho.alloc halloc).1.perm (hperm.append_left userFrames)
      exact hnew.perm (by
        simpa [residentFrames, resumedWith] using (hupd (resumedWith userFrames)).symm)
  | readMemory a n =>
    obtain ⟨m, rfl⟩ := handle_memory_eq h (Or.inl ⟨a, n, rfl⟩)
    exact ho
  | writeMemory a d =>
    obtain ⟨m, rfl⟩ := handle_memory_eq h (Or.inr ⟨a, d, rfl⟩)
    exact ho

/-- **And killing a suspended process destroys it**: the slots are cleared in the user bitmap, but no
resident list got shorter. -/
theorem killsResident_of_owns {cfg : Config} {s s' : State} {r : Request} {reply : Reply}
    (hshape : Shaped cfg s) (ho : s.frames.Owns (allResident s.processes))
    (h : handle cfg s r = some (s', reply)) (ho' : s'.frames.Owns (allResident s'.processes)) :
    KillsResident s r := by
  cases r with
  | killProcess pid =>
    intro p hfind hsize
    by_contra hres
    have hsusp : p.isSuspended = true := by simpa using hres
    obtain ⟨⟨s1, b⟩, hd, heq⟩ := Option.map_eq_some_iff.mp h
    obtain ⟨rfl, -⟩ := Prod.mk.inj heq
    obtain ⟨hpos, t, fs, -, hfs, hlen⟩ := hshape.sized p (mem_of_find hfind) hsize
    rcases deleteProcess_cases hd with ⟨hnone, -, -⟩ | ⟨q, hq, hnone, -, -⟩ |
      ⟨q, fs', frames, hq, -, hfs', hrel, rfl, -⟩
    · simp [hfind] at hnone
    · obtain rfl : p = q := by simpa [hfind] using hq
      rcases hnone with hzero | hnull
      · exact hsize hzero
      · simp [hnull] at hfs
    · obtain rfl : p = q := by simpa [hfind] using hq
      obtain rfl : fs = fs' := by simpa [hfs] using hfs'
      obtain ⟨rest, hperm, -, her⟩ := allResident_find hfind
      rw [residentFrames_of_suspended hsusp] at hperm
      have hne : fs ≠ [] := by
        rintro rfl
        have := cfg.pagesNeeded_pos hpos
        rw [List.length_nil] at hlen
        omega
      refine (ho.perm (by simpa using hperm)).not_owns_of_release hrel hne ?_
      rw [← her]
      exact ho'
  | _ => trivial

/-! ## 5. Whole runs -/

/-- **The user frames are owned, in every state of a run, exactly when the run kills no process of
non-zero size while it is suspended.** -/
theorem framesOwned_iff {cfg : Config} {tr : List (Transition State Request)} {s : State}
    (hr : (memoria cfg).Run tr s) :
    (FramesOwned s ∧ ∀ x ∈ tr, FramesOwned x.src) ↔ ∀ x ∈ tr, KillsResident x.src x.label := by
  refine Lts.Run.invariant_iff (J := Shaped cfg) ?_ ?_ ?_ hr
  · rintro s rfl
    refine ⟨shaped_start cfg, (framesOwned_iff_owns (shaped_start cfg)).mpr ?_⟩
    exact BitAlloc.owns_empty cfg.framesTotal
  · intro s r s' hs hst
    obtain ⟨⟨s1, reply⟩, h, rfl⟩ := Option.map_eq_some_iff.mp hst
    exact shaped_step hs h
  · intro s r s' hshape hs hst
    obtain ⟨⟨s1, reply⟩, h, rfl⟩ := Option.map_eq_some_iff.mp hst
    rw [framesOwned_iff_owns hshape] at hs
    rw [framesOwned_iff_owns (shaped_step hshape h)]
    exact ⟨killsResident_of_owns hshape hs h, fun hc => owns_step hshape hs hc h⟩

/-- Whether a request is KILL_PROCESS. -/
def Request.isKill : Request → Bool
  | .killProcess _ => true
  | _ => false

/-- The theorem at work on a run that suspends a process, resumes it and kills it. -/
theorem framesOwned_iff_resumed_then_killed :
    ∃ tr s, (memoria smallConfig).Run tr s ∧ s.processes.length = 1 ∧ FramesOwned s := by
  obtain ⟨tr, s, hrun, htest⟩ := Lts.exists_run_of_drive (State.start smallConfig)
    (fun s r => (handle smallConfig s r).map Prod.fst)
    [initRequest 0 30, initRequest 1 10, swapRequest 0, unsuspendRequest 0, .killProcess 0]
    (fun tr s => decide (s.processes.length = 1) &&
      tr.all fun x => x.src.processes.all (fun p => !p.isSuspended) || !x.label.isKill)
    (by decide +kernel)
  simp only [Bool.and_eq_true, decide_eq_true_eq, List.all_eq_true, Bool.or_eq_true] at htest
  refine ⟨tr, s, hrun, htest.1, ((framesOwned_iff hrun).mpr ?_).1⟩
  intro x hx
  have hx' := htest.2 x hx
  obtain ⟨src, label, dst⟩ := x
  cases label with
  | killProcess pid =>
    intro p hfind _
    rcases hx' with hall | hbad
    · simpa using hall p (mem_of_find hfind)
    · simp [Request.isKill] at hbad
  | _ => trivial

/-- Without the condition the ownership is lost: process 0 is suspended to swap slot 0, process 1 gets
user frame 0, and the end of process 0 clears bit 0 of the user bitmap. -/
theorem not_framesOwned_suspended_killed :
    ¬ ∀ (cfg : Config) (tr : List (Transition State Request)) (s : State),
      (memoria cfg).Run tr s → FramesOwned s := by
  intro hall
  obtain ⟨tr, s, hrun, htest⟩ := Lts.exists_run_of_drive (State.start smallConfig)
    (fun s r => (handle smallConfig s r).map Prod.fst)
    [initRequest 0 10, swapRequest 0, initRequest 1 10, .killProcess 0]
    (fun _ s => decide (0 < s.frames.total) && !s.frames.bit 0 &&
      s.processes.any fun p => (residentFrames p).contains 0) (by decide +kernel)
  simp only [Bool.and_eq_true, decide_eq_true_eq, Bool.not_eq_true', List.any_eq_true,
    List.contains_iff_mem] at htest
  obtain ⟨⟨hlt, hbit⟩, p, hp, hmem⟩ := htest
  have := ((hall smallConfig tr s hrun).bit_iff 0 hlt).mpr ⟨p, hp, hmem⟩
  rw [hbit] at this
  exact absurd this (by simp)

end Tpso.Memoria
