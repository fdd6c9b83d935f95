/-
# Page tables and frame lists

The frames of a process are stored twice: in the last-level entries of its page table, which
ACCESS_PAGE_TBL follows, and in the flat list `allocated_frames`, which suspension, resumption and
the release of the process use.  `create_process` writes both.  `swap_in_process` writes the list
only, so a process that comes back to other frames than it left has a page table that still names
the old ones, and by then they may be somebody else's.

The module says exactly when the two copies agree: along a run they do in every state if and only if
every UNSUSPEND_PROCESS that succeeds gets back the very frames the page table names
(`tablesAgree_iff`).
-/
import Tpso.Memoria.Steps

namespace Tpso.Memoria

open Tpso.Lib

/-! ## 1. The property -/

/-- The page table and the frame list of a record name the same frames, page by page. -/
def Agrees (cfg : Config) (p : ProcessInfo) : Prop :=
  ∃ t fs, p.pageTable = .obj t ∧ p.allocatedFrames = .obj fs ∧
    ∀ i : Nat, (i : Int) < cfg.pagesNeeded p.processSize → ∃ f : Nat, fs[i]? = some f ∧
      t.followPage cfg.entradasPorTabla cfg.lastLevel i = some (f : Int)

/-- **Page-table / frame agreement**, for every process of positive size that is not suspended. -/
def TablesAgree (cfg : Config) (s : State) : Prop :=
  ∀ p ∈ s.processes, 0 < p.processSize → p.isSuspended = false → Agrees cfg p

/-- The condition on one request: an UNSUSPEND_PROCESS that finds a suspended process, enough free
frames and a swap file that gives every page back is about to hand out, page by page, the frames that
the page table of the process names. -/
def ResumesInPlace (cfg : Config) (s : State) : Request → Prop
  | .unsuspendProcess pid avail =>
    ∀ p t slots userFrames frames, processManagerFindProcess s.processes pid = some p →
      0 < p.processSize → p.isSuspended = true → p.pageTable = .obj t →
      p.allocatedFrames = .obj slots →
      s.frames.alloc slots.length = some (userFrames, frames) → userFrames.length = slots.length →
      (∀ i slot, slots[i]? = some slot →
        (swapReadFrame cfg s.swapFile slot cfg.tamPagina (avail i)).isSome) →
      ∀ i f : Nat, userFrames[i]? = some f →
        t.followPage cfg.entradasPorTabla cfg.lastLevel i = some (f : Int)
  | _ => True

/-! ## 2. When the copy loop of `swap_in_process` succeeds -/

/-- The loop succeeds exactly when every page can be read from the swap file. -/
theorem swapInLoop_success_iff {cfg : Config} {file : SwapFile} {avail : Nat → Nat}
    {slots userFrames : List Nat} {k : Nat} {m m' : Bytes} {b : Bool}
    (hlen : slots.length ≤ userFrames.length)
    (h : swapInLoop cfg file avail k (slots.zip userFrames) m = some (m', b)) :
    b = true ↔ ∀ i slot, slots[i]? = some slot →
      (swapReadFrame cfg file slot cfg.tamPagina (avail (k + i))).isSome := by
  induction slots generalizing userFrames k m with
  | nil =>
    simp only [List.zip_nil_left, swapInLoop, Option.some.injEq, Prod.mk.injEq] at h
    simp [← h.2]
  | cons slot slots ih =>
    obtain _ | ⟨f, userFrames⟩ := userFrames
    · simp at hlen
    rw [List.zip_cons_cons, swapInLoop] at h
    cases hread : swapReadFrame cfg file slot cfg.tamPagina (avail k) with
    | none =>
      simp only [hread, Option.elim_none, Option.some.injEq, Prod.mk.injEq] at h
      refine ⟨fun hb => absurd hb (by simp [← h.2]), fun hall => ?_⟩
      have := hall 0 slot (by simp)
      simp [hread] at this
    | some page =>
      simp only [hread, Option.elim_some] at h
      obtain ⟨m1, -, h⟩ := Option.bind_eq_some_iff.mp h
      rw [ih (by simpa using hlen) h]
      constructor
      · intro hall i slot' hi
        cases i with
        | zero =>
          obtain rfl : slot = slot' := by simpa using hi
          simp [hread]
        | succ i =>
          have := hall i slot' (by simpa using hi)
          rwa [show k + 1 + i = k + (i + 1) by omega] at this
      · intro hall i slot' hi
        have := hall (i + 1) slot' (by simpa using hi)
        rwa [show k + (i + 1) = k + 1 + i by omega] at this

/-! ## 3. One request -/

/-- The process that `create_process` makes agrees. -/
theorem agrees_fresh {cfg : Config} {pid size : Int} {ins : List String} {t : PageTable}
    {fs : List Nat} {id : Int} (hlen : (fs.length : Int) = cfg.pagesNeeded size)
    (hassign : assignFrames cfg (initPageTable cfg id).1 fs (cfg.pagesNeeded size) = (t, true)) :
    Agrees cfg (freshProcess pid size ins (.obj t) (.obj fs)) := by
  refine ⟨t, fs, rfl, rfl, ?_⟩
  intro i hi
  have hlt : i < fs.length := by
    have : (i : Int) < cfg.pagesNeeded size := hi
    omega
  have hf : fs[i]? = some fs[i] := List.getElem?_eq_getElem hlt
  rw [← hlen] at hassign
  exact ⟨fs[i], hf, followPage_assignFrames (createTable_complete cfg cfg.lastLevel id) hassign hf⟩

/-- A step whose resumption, if it makes one, is in place keeps the agreement. -/
theorem tablesAgree_step {cfg : Config} {s s' : State} {r : Request} {reply : Reply}
    (hshape : Shaped cfg s) (hs : TablesAgree cfg s) (hc : ResumesInPlace cfg s r)
    (h : handle cfg s r = some (s', reply)) : TablesAgree cfg s' := by
  intro p' hp' hpos hres
  rcases handle_records h p' hp' with hold | ⟨pid, size, fs, t, ins, rfl, hlen, hassign, -⟩ | hzero |
    ⟨p, hp, b, rfl, hnone⟩ | ⟨p, hp, fs, slots, hfs, hlen, -, rfl⟩ |
    ⟨p, slots, userFrames, frames, pid, avail, m, rfl, hfind, hsusp, hslots, halloc, hlen, hloop,
      rfl⟩
  · exact hs p' hold hpos hres
  · exact agrees_fresh hlen hassign
  · omega
  · -- a process with a size has frames, so its mark alone never changes
    obtain ⟨hpos, t, fs, -, hfs, hl⟩ := hshape.sized p hp (ne_of_gt hpos)
    have hpages := cfg.pagesNeeded_pos hpos
    rcases hnone with hnull | hnil
    · simp [hnull] at hfs
    · obtain rfl : [] = fs := by simpa [hnil] using hfs
      simp at hl
      omega
  · simp [suspendedWith] at hres
  · -- the process came back: the condition says that its table names the frames it got
    obtain ⟨-, t, fs, ht, hfs, hl⟩ := hshape.sized p (mem_of_find hfind) (ne_of_gt hpos)
    obtain rfl : slots = fs := by simpa [hslots] using hfs
    have hreads := (swapInLoop_success_iff (le_of_eq hlen.symm) hloop).mp rfl
    have hplace := hc p t slots userFrames frames hfind hpos hsusp ht hslots halloc hlen
      (by simpa using hreads)
    refine ⟨t, userFrames, ht, rfl, ?_⟩
    intro i hi
    have hlt : i < userFrames.length := by
      have : (i : Int) < cfg.pagesNeeded p.processSize := hi
      omega
    have hf : userFrames[i]? = some userFrames[i] := List.getElem?_eq_getElem hlt
    exact ⟨userFrames[i], hf, hplace i _ hf⟩

/-- And only such a step does: after a resumption to other frames the two copies differ. -/
theorem resumesInPlace_of_tablesAgree {cfg : Config} {s s' : State} {r : Request} {reply : Reply}
    (hshape : Shaped cfg s) (h : handle cfg s r = some (s', reply)) (hs' : TablesAgree cfg s') :
    ResumesInPlace cfg s r := by
  cases r with
  | unsuspendProcess pid avail =>
    intro p t slots userFrames frames hfind hpos hsusp ht hslots halloc hlen hreads i f hf
    obtain ⟨⟨s1, b⟩, hc, heq⟩ := Option.map_eq_some_iff.mp h
    obtain ⟨rfl, -⟩ := Prod.mk.inj heq
    obtain ⟨-, t', slots', ht', hslots', hpages⟩ := hshape.sized p (mem_of_find hfind) (ne_of_gt hpos)
    obtain rfl : t = t' := by simpa [ht] using ht'
    obtain rfl : slots = slots' := by simpa [hslots] using hslots'
    have hpositive := cfg.pagesNeeded_pos hpos
    -- every way to end but the successful one contradicts what the condition assumes
    rcases swapInProcess_cases hc with ⟨-, hwhy⟩ | ⟨q, hq, -, hnone, -, -⟩ |
      ⟨q, sl, uf, fr, hq, hsl, hal, hlt, -, -⟩ |
      ⟨q, sl, uf, fr, fr', m, hq, hsl, hal, hloop, -, -, -⟩ |
      ⟨q, sl, uf, fr, sf, m, hq, -, hsl, -, hal, -, hloop, -, rfl, -⟩
    · rcases hwhy with ⟨hnone, -⟩ | ⟨q, hq, ⟨hres, -⟩ | ⟨-, -, sl, hsl, hal⟩⟩
      · simp [hfind] at hnone
      · obtain rfl : p = q := by simpa [hfind] using hq
        simp [hsusp] at hres
      · obtain rfl : p = q := by simpa [hfind] using hq
        obtain rfl : slots = sl := by simpa [hslots] using hsl
        simp [halloc] at hal
    · obtain rfl : p = q := by simpa [hfind] using hq
      rcases hnone with hnull | hnil
      · simp [hnull] at hslots
      · obtain rfl : [] = slots := by simpa [hnil] using hslots
        rw [List.length_nil] at hpages
        omega
    · obtain rfl : p = q := by simpa [hfind] using hq
      obtain rfl : slots = sl := by simpa [hslots] using hsl
      obtain ⟨rfl, -⟩ : userFrames = uf ∧ frames = fr := by simpa [halloc] using hal
      omega
    · obtain rfl : p = q := by simpa [hfind] using hq
      obtain rfl : slots = sl := by simpa [hslots] using hsl
      obtain ⟨rfl, -⟩ : userFrames = uf ∧ frames = fr := by simpa [halloc] using hal
      have := (swapInLoop_success_iff (le_of_eq hlen.symm) hloop).mpr (by simpa using hreads)
      exact absurd this (by simp)
    · obtain rfl : p = q := by simpa [hfind] using hq
      obtain rfl : slots = sl := by simpa [hslots] using hsl
      obtain ⟨rfl, -⟩ : userFrames = uf ∧ frames = fr := by simpa [halloc] using hal
      obtain ⟨l, rest, -, -, -, hupd, -⟩ := find_split hfind
      have hmem : resumedWith userFrames p ∈ updateProcess (resumedWith userFrames) pid s.processes := by
        rw [hupd]
        simp
      obtain ⟨t', fs', ht', hfs', hagree⟩ := hs' _ hmem hpos rfl
      obtain rfl : t = t' := by simpa [resumedWith, ht] using ht'
      obtain rfl : userFrames = fs' := by simpa [resumedWith] using hfs'
      have hi : i < userFrames.length := (List.getElem?_eq_some_iff.mp hf).1
      obtain ⟨f', hf', hfollow⟩ := hagree i (by
        have : ((resumedWith userFrames p).processSize) = p.processSize := rfl
        rw [this]
        omega)
      rw [hf] at hf'
      rw [hfollow, Option.some.inj hf']
  | _ => trivial

/-! ## 4. Whole runs -/

/-- **Page tables and frame lists agree in every state of a run exactly when every successful
resumption of the run is in place.** -/
theorem tablesAgree_iff {cfg : Config} {tr : List (Transition State Request)} {s : State}
    (hr : (memoria cfg).Run tr s) :
    (TablesAgree cfg s ∧ ∀ x ∈ tr, TablesAgree cfg x.src) ↔
      ∀ x ∈ tr, ResumesInPlace cfg x.src x.label := by
  refine Lts.Run.invariant_iff (J := Shaped cfg) ?_ ?_ ?_ hr
  · rintro s rfl
    exact ⟨shaped_start cfg, by simp [TablesAgree, State.start]⟩
  · intro s r s' hs hst
    obtain ⟨⟨s1, reply⟩, h, rfl⟩ := Option.map_eq_some_iff.mp hst
    exact shaped_step hs h
  · intro s r s' hshape hs hst
    obtain ⟨⟨s1, reply⟩, h, rfl⟩ := Option.map_eq_some_iff.mp hst
    exact ⟨resumesInPlace_of_tablesAgree hshape h, fun hc => tablesAgree_step hshape hs hc h⟩

/-- Whether the first page of the process agrees. -/
def firstPageAgrees (cfg : Config) (p : ProcessInfo) : Bool :=
  match p.pageTable, p.allocatedFrames with
  | .obj t, .obj (f :: _) =>
    decide (t.followPage cfg.entradasPorTabla cfg.lastLevel 0 = some (f : Int))
  | _, _ => false

theorem firstPageAgrees_of_agrees {cfg : Config} {p : ProcessInfo} (hpos : 0 < p.processSize)
    (h : Agrees cfg p) : firstPageAgrees cfg p = true := by
  obtain ⟨t, fs, ht, hfs, hall⟩ := h
  obtain ⟨f, hf, hfollow⟩ := hall 0 (cfg.pagesNeeded_pos hpos)
  obtain _ | ⟨g, fs⟩ := fs
  · simp at hf
  · obtain rfl : g = f := by simpa using hf
    simp [firstPageAgrees, ht, hfs, hfollow]

/-- Whether the frames that would be handed out to a process are those that its page table names. -/
def namesFrames (cfg : Config) (s : State) (pid : Int) : Bool :=
  (processManagerFindProcess s.processes pid).all fun p =>
    match p.pageTable, p.allocatedFrames with
    | .obj t, .obj slots => (s.frames.alloc slots.length).all fun r =>
      (List.range r.1.length).all fun i =>
        decide (t.followPage cfg.entradasPorTabla cfg.lastLevel i = (r.1[i]?).map Int.ofNat)
    | _, _ => true

theorem resumesInPlace_of_namesFrames {cfg : Config} {s : State} {pid : Int} {avail : Nat → Nat}
    (h : namesFrames cfg s pid = true) : ResumesInPlace cfg s (.unsuspendProcess pid avail) := by
  intro p t slots userFrames frames hfind _ _ ht hslots halloc _ _ i f hf
  have hlt : i < userFrames.length := (List.getElem?_eq_some_iff.mp hf).1
  simp only [namesFrames, hfind, ht, hslots, halloc, Option.all_some, List.all_eq_true, List.mem_range,
    decide_eq_true_eq] at h
  rw [h i hlt, hf]
  rfl

/-- The theorem at work: process 0 is suspended and comes back to its frames, and another process is
created after it. -/
theorem tablesAgree_iff_two_processes :
    ∃ tr s, (memoria smallConfig).Run tr s ∧ (∃ x ∈ tr, ∃ p ∈ x.src.processes, p.isSuspended = true) ∧
      s.processes.length = 2 ∧ (∀ p ∈ s.processes, p.isSuspended = false) ∧ TablesAgree smallConfig s := by
  obtain ⟨tr, s, hrun, htest⟩ := Lts.exists_run_of_drive (State.start smallConfig)
    (fun s r => (handle smallConfig s r).map Prod.fst)
    [initRequest 0 30, swapRequest 0, unsuspendRequest 0, initRequest 1 10]
    (fun tr s => (tr.any fun x => x.src.processes.any fun p => p.isSuspended) &&
      decide (s.processes.length = 2) && (s.processes.all fun p => !p.isSuspended) &&
      tr.all fun x => match x.label with
        | .unsuspendProcess pid _ => namesFrames smallConfig x.src pid
        | _ => true) (by decide +kernel)
  simp only [Bool.and_eq_true, decide_eq_true_eq, List.any_eq_true, List.all_eq_true,
    Bool.not_eq_true'] at htest
  obtain ⟨⟨⟨hsuspended, hlength⟩, hresident⟩, hok⟩ := htest
  refine ⟨tr, s, hrun, hsuspended, hlength, hresident, ((tablesAgree_iff hrun).mpr ?_).1⟩
  intro x hx
  have hx' := hok x hx
  obtain ⟨src, label, dst⟩ := x
  cases label with
  | unsuspendProcess pid avail => exact resumesInPlace_of_namesFrames hx'
  | _ => trivial

/-- Without the condition the agreement is lost: process 0 is suspended, process 2 takes its frame, and process 0
comes back to frame 2 while its page table still names frame 0. -/
theorem not_tablesAgree_resumed_elsewhere :
    ¬ ∀ (cfg : Config) (tr : List (Transition State Request)) (s : State),
      (memoria cfg).Run tr s → TablesAgree cfg s := by
  intro hall
  obtain ⟨tr, s, hrun, htest⟩ := Lts.exists_run_of_drive (State.start smallConfig)
    (fun s r => (handle smallConfig s r).map Prod.fst)
    [initRequest 0 10, initRequest 1 10, swapRequest 0, initRequest 2 10, unsuspendRequest 0]
    (fun _ s => s.processes.any fun p => decide (0 < p.processSize) && !p.isSuspended &&
      !firstPageAgrees smallConfig p) (by decide +kernel)
  obtain ⟨p, hp, hbad⟩ := List.any_eq_true.mp htest
  simp only [Bool.and_eq_true, decide_eq_true_eq, Bool.not_eq_true'] at hbad
  have hagree := hall smallConfig tr s hrun p hp hbad.1.1 hbad.1.2
  rw [firstPageAgrees_of_agrees hbad.1.1 hagree] at hbad
  exact absurd hbad.2 (by simp)

end Tpso.Memoria
