/-
# The page table of a process maps its pages to frames of its own

`create_process` is the only writer of a page table.  What it leaves there, the frames that the bitmap
gave it, each once, stays for as long as the process has a record (`tabled_run`), whatever happens to
the process in between: the walk of one of its pages always ends at a frame of the user space, and the
walks of two pages at two frames.  Whether the process still OWNS these frames is another question
(`Tpso.Memoria.Agreement`).
-/
import Tpso.Memoria.PageWalk

namespace Tpso.Memoria

open Tpso.Lib

/-! ## 1. What no request changes -/

section Constants

variable {cfg : Config} {s s' : State} {r : Request} {reply : Reply}

/-- The tables are numbered from 1 for every process. -/
theorem createProcess_nextTableId {pid size : Int} {file : Option (List String)} {left : Leftover}
    {b : Bool} (h : createProcess cfg s pid size file left = some (s', b)) (hid : s.nextTableId = 1) :
    s'.nextTableId = 1 := by
  unfold createProcess at h
  split at h
  · simp only [Option.some.injEq, Prod.mk.injEq] at h
    rw [← h.1]
    exact hid
  · split at h
    · simp only at h
      split at h
      · simp only [Option.some.injEq, Prod.mk.injEq] at h
        rw [← h.1]
        exact hid
      · split at h
        · simp only [Option.some.injEq, Prod.mk.injEq] at h
          rw [← h.1]
          exact hid
        · split at h
          · simp only [Option.some.injEq, Prod.mk.injEq] at h
            rw [← h.1]
            exact hid
          · split at h
            · obtain ⟨frames', hrel, heq⟩ := Option.map_eq_some_iff.mp h
              rw [← (Prod.mk.inj heq).1]
              rfl
            · simp only [Option.some.injEq, Prod.mk.injEq] at h
              rw [← h.1]
              rfl
    · simp only [Option.some.injEq, Prod.mk.injEq] at h
      rw [← h.1]
      exact hid

/-- The same for every request. -/
theorem handle_nextTableId (h : handle cfg s r = some (s', reply)) (hid : s.nextTableId = 1) :
    s'.nextTableId = 1 := by
  cases r with
  | initProcess pid size file left =>
    obtain ⟨⟨s1, b⟩, hserved, heq⟩ := Option.map_eq_some_iff.mp h
    obtain ⟨rfl, -⟩ := Prod.mk.inj heq
    exact createProcess_nextTableId hserved hid
  | killProcess pid =>
    obtain ⟨⟨s1, b⟩, hserved, heq⟩ := Option.map_eq_some_iff.mp h
    obtain ⟨rfl, -⟩ := Prod.mk.inj heq
    rcases deleteProcess_cases hserved with ⟨-, rfl, -⟩ | ⟨_, -, -, rfl, -⟩ |
      ⟨_, _, frames, -, -, -, -, rfl, -⟩ <;> exact hid
  | swap pid written =>
    obtain ⟨⟨s1, b⟩, hserved, heq⟩ := Option.map_eq_some_iff.mp h
    obtain ⟨rfl, -⟩ := Prod.mk.inj heq
    rcases swapOutProcess_cases hserved with ⟨⟨_, _, rfl⟩, -⟩ | ⟨_, -, -, -, rfl, -⟩ |
      ⟨_, _, _, frames, _, _, -, -, -, -, -, -, rfl, -⟩ <;> exact hid
  | unsuspendProcess pid avail =>
    obtain ⟨⟨s1, b⟩, hserved, heq⟩ := Option.map_eq_some_iff.mp h
    obtain ⟨rfl, -⟩ := Prod.mk.inj heq
    rcases swapInProcess_cases hserved with ⟨rfl, -⟩ | ⟨_, -, -, -, rfl, -⟩ |
      ⟨_, _, _, frames, -, -, -, -, rfl, -⟩ | ⟨_, _, _, frames, frames', _, -, -, -, -, -, rfl, -⟩ |
      ⟨_, _, _, frames, _, _, -, -, -, -, -, -, -, -, rfl, -⟩ <;> exact hid
  | readMemory physicalAddress size =>
    obtain ⟨_, rfl⟩ := handle_memory_eq h (Or.inl ⟨_, _, rfl⟩)
    exact hid
  | writeMemory physicalAddress data =>
    obtain ⟨_, rfl⟩ := handle_memory_eq h (Or.inr ⟨_, _, rfl⟩)
    exact hid

/-- The number of frames stays what it is. -/
theorem handle_framesTotal (h : handle cfg s r = some (s', reply)) :
    s'.frames.total = s.frames.total := by
  cases r with
  | initProcess pid size file left =>
    obtain ⟨⟨s1, b⟩, hserved, heq⟩ := Option.map_eq_some_iff.mp h
    obtain ⟨rfl, -⟩ := Prod.mk.inj heq
    rcases createProcess_cases hserved with ⟨rfl, -⟩ | ⟨_, frames, halloc, -, rfl, -⟩ |
      ⟨_, frames, frames', _, halloc, hrel, rfl, -⟩ |
      ⟨_, frames, _, _, _, -, halloc, -, -, rfl, -⟩ | ⟨_, -, rfl, -⟩
    · rfl
    · exact BitAlloc.alloc_total halloc
    · exact (BitAlloc.release_total hrel).trans (BitAlloc.alloc_total halloc)
    · exact BitAlloc.alloc_total halloc
    · rfl
  | killProcess pid =>
    obtain ⟨⟨s1, b⟩, hserved, heq⟩ := Option.map_eq_some_iff.mp h
    obtain ⟨rfl, -⟩ := Prod.mk.inj heq
    rcases deleteProcess_cases hserved with ⟨-, rfl, -⟩ | ⟨_, -, -, rfl, -⟩ |
      ⟨_, _, frames, -, -, -, hrel, rfl, -⟩
    · rfl
    · rfl
    · exact BitAlloc.release_total hrel
  | swap pid written =>
    obtain ⟨⟨s1, b⟩, hserved, heq⟩ := Option.map_eq_some_iff.mp h
    obtain ⟨rfl, -⟩ := Prod.mk.inj heq
    rcases swapOutProcess_cases hserved with ⟨⟨_, _, rfl⟩, -⟩ | ⟨_, -, -, -, rfl, -⟩ |
      ⟨_, _, _, frames, _, _, -, -, -, -, -, hrel, rfl, -⟩
    · rfl
    · rfl
    · exact BitAlloc.release_total hrel
  | unsuspendProcess pid avail =>
    obtain ⟨⟨s1, b⟩, hserved, heq⟩ := Option.map_eq_some_iff.mp h
    obtain ⟨rfl, -⟩ := Prod.mk.inj heq
    rcases swapInProcess_cases hserved with ⟨rfl, -⟩ | ⟨_, -, -, -, rfl, -⟩ |
      ⟨_, _, _, frames, -, -, halloc, -, rfl, -⟩ |
      ⟨_, _, _, frames, frames', _, -, -, halloc, -, hrel, rfl, -⟩ |
      ⟨_, _, _, frames, _, _, -, -, -, -, halloc, -, -, -, rfl, -⟩
    · rfl
    · rfl
    · exact BitAlloc.alloc_total halloc
    · exact (BitAlloc.release_total hrel).trans (BitAlloc.alloc_total halloc)
    · exact BitAlloc.alloc_total halloc
  | readMemory physicalAddress size =>
    obtain ⟨_, rfl⟩ := handle_memory_eq h (Or.inl ⟨_, _, rfl⟩)
    rfl
  | writeMemory physicalAddress data =>
    obtain ⟨_, rfl⟩ := handle_memory_eq h (Or.inr ⟨_, _, rfl⟩)
    rfl

end Constants

/-! ## 2. The invariant -/

/-- The page table holds the frames it was filled with, each once, one for each page. -/
structure Tabled (cfg : Config) (p : ProcessInfo) (t : PageTable) (fs : List Nat) : Prop where
  table : p.pageTable = .obj t
  frames : FramesIn cfg fs t
  nodup : fs.Nodup
  lt : ∀ f ∈ fs, f < cfg.framesTotal
  length : (fs.length : Int) = cfg.pagesNeeded p.processSize

/-- **The invariant**: every process with a size has such a page table. -/
structure AllTabled (cfg : Config) (s : State) : Prop where
  nextTableId : s.nextTableId = 1
  total : s.frames.total = cfg.framesTotal
  tabled : ∀ p ∈ s.processes, p.processSize ≠ 0 → ∃ t fs, Tabled cfg p t fs

theorem allTabled_start (cfg : Config) : AllTabled cfg (State.start cfg) :=
  ⟨rfl, rfl, by simp [State.start]⟩

section Steps

variable {cfg : Config} {s s' : State}

/-- The table of a new process. -/
theorem tabled_fresh {pid size : Int} {fs : List Nat} {t : PageTable} {instructions : List String}
    {frames : BitAlloc} (he : 1 ≤ cfg.entradasPorTabla)
    (hpow : cfg.entradasPorTabla ^ cfg.cantidadNiveles < 2 ^ 31) (hs : AllTabled cfg s)
    (hlen : (fs.length : Int) = cfg.pagesNeeded size)
    (hassign : assignFrames cfg (initPageTable cfg s.nextTableId).1 fs (cfg.pagesNeeded size) = (t, true))
    (halloc : s.frames.alloc (cfg.pagesNeeded size) = some (fs, frames)) :
    Tabled cfg (freshProcess pid size instructions (.obj t) (.obj fs)) t fs := by
  rw [hs.nextTableId, ← hlen] at hassign
  have hpos : 0 < fs.length := by
    have := pos_of_assignFrames hassign
    exact_mod_cast this
  have hfit := length_le_of_assignFrames (createTable_complete cfg cfg.lastLevel 1) hpos hassign
  rw [← cantidadNiveles_eq] at hfit
  obtain ⟨t', hassign', hframes⟩ := assignFrames_initPageTable he hpow hpos hfit
  obtain rfl : t' = t := (Prod.mk.inj (hassign'.symm.trans hassign)).1
  obtain ⟨hnd, hslots⟩ := BitAlloc.alloc_slots halloc
  exact ⟨rfl, hframes, hnd, fun f hf => hs.total ▸ (hslots f hf).1, hlen⟩

/-- **No request touches the page table of a process.** -/
theorem allTabled_step {r : Request} {reply : Reply} (he : 1 ≤ cfg.entradasPorTabla)
    (hpow : cfg.entradasPorTabla ^ cfg.cantidadNiveles < 2 ^ 31) (hs : AllTabled cfg s)
    (h : handle cfg s r = some (s', reply)) : AllTabled cfg s' := by
  refine ⟨handle_nextTableId h hs.nextTableId, (handle_framesTotal h).trans hs.total, ?_⟩
  intro p' hp' hsize
  -- a record of the same size with the same table
  have hkeep : ∀ p ∈ s.processes, p'.processSize = p.processSize → p'.pageTable = p.pageTable →
      ∃ t fs, Tabled cfg p' t fs := by
    intro p hp hsz htable
    obtain ⟨t, fs, ht⟩ := hs.tabled p hp (hsz ▸ hsize)
    exact ⟨t, fs, htable.trans ht.table, ht.frames, ht.nodup, ht.lt, by rw [hsz]; exact ht.length⟩
  rcases handle_records h p' hp' with hold |
    ⟨pid, size, fs, t, ins, rfl, hlen, hassign, frames, halloc⟩ | ⟨hzero, -⟩ |
    ⟨p, hp, b, rfl, -⟩ | ⟨p, hp, fs, slots, -, -, -, rfl⟩ |
    ⟨p, slots, userFrames, frames, pid, avail, m, -, hfind, -, -, -, -, -, rfl⟩
  · exact hkeep p' hold rfl rfl
  · exact ⟨t, fs, tabled_fresh he hpow hs hlen hassign halloc⟩
  · exact absurd hzero hsize
  · exact hkeep p hp rfl rfl
  · exact hkeep p hp rfl rfl
  · exact hkeep p (mem_of_find hfind) rfl rfl

/-- **In every run of memoria every process with a size has its page table.** -/
theorem tabled_run {tr : List (Transition State Request)} (he : 1 ≤ cfg.entradasPorTabla)
    (hpow : cfg.entradasPorTabla ^ cfg.cantidadNiveles < 2 ^ 31) (hr : (memoria cfg).Run tr s) :
    AllTabled cfg s := by
  refine Lts.Run.invariant (C := fun _ _ => True) ?_ ?_ hr fun _ _ => trivial
  · rintro s rfl
    exact allTabled_start cfg
  · intro s r s' hs _ hst
    obtain ⟨⟨s1, reply⟩, h, rfl⟩ := Option.map_eq_some_iff.mp hst
    exact allTabled_step he hpow hs h

/-- In every run of memoria the records have their shape. -/
theorem shaped_run {tr : List (Transition State Request)} (hr : (memoria cfg).Run tr s) :
    Shaped cfg s := by
  refine Lts.Run.invariant (C := fun _ _ => True) ?_ ?_ hr fun _ _ => trivial
  · rintro s rfl
    exact shaped_start cfg
  · intro s r s' hs _ hst
    obtain ⟨⟨s1, reply⟩, h, rfl⟩ := Option.map_eq_some_iff.mp hst
    exact shaped_step hs h

end Steps

end Tpso.Memoria
