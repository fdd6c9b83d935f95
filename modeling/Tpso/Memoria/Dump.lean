/-
# DUMP_MEMORY writes the frames with the numbers on the list

`dump_memory_request_handler` copies, for each number on the list of the record, the user frame with that
number.  While the process is resident these are its pages.  `swap_out_process` puts swap slots on the same
list, and the handler does not look at the suspension mark: the dump of a suspended process shows user frames
that happen to have the numbers of its slots, and whoever holds them now.

Every list of a reachable state has addresses that can be read (`Placed`): frames of the user space while the
process is resident, slots that `fseek` once accepted while it is suspended.  So the handler always has a
result, and what it writes is known byte for byte.
-/
import Tpso.Memoria.RoundTrip

namespace Tpso.Memoria

open Tpso.Lib

/-! ## 1. `dump-memory.c` -/

/-- The copy loop of `dump_memory_request_handler`; `written i` bytes of the `i`-th page reach the file, which
holds `file` so far.  Stops at the first page that is not written whole. -/
def dumpLoop (cfg : Config) (m : Bytes) (written : Nat → Nat) :
    Nat → List Nat → List UInt8 → Option (List UInt8 × Bool)
  | _, [], file => some (file, true)
  | i, frameNumber :: rest, file =>
    (readFromUserSpace cfg m (toInt32 (frameNumber * cfg.tamPagina)) cfg.tamPagina).bind fun buffer =>
      if (buffer.take (written i)).length ≠ cfg.tamPagina then
        some (file ++ buffer.take (written i), false)
      else dumpLoop cfg m written (i + 1) rest (file ++ buffer.take (written i))

/-- `dump_memory_request_handler`: the dump file, if one is created, and the answer.  `fopen` says whether
`create_dump_file` gives a file, `malloc` whether there is a buffer. -/
def dumpMemoryRequestHandler (cfg : Config) (s : State) (pid : Int) (fopen malloc : Bool)
    (written : Nat → Nat) : Option (Option (List UInt8) × Bool) :=
  match processManagerFindProcess s.processes pid with
  | none => some (none, false)
  | some proc =>
    match proc.allocatedFrames with
    | .null => some (none, false)
    | .wild => none
    | .obj [] => some (none, false)
    | .obj (f :: fs) =>
      if fopen = false then some (none, false)
      else if malloc = false then some (some [], false)
      else (dumpLoop cfg s.userSpace written 0 (f :: fs) []).map fun r => (some r.1, r.2)

/-! ## 2. The property and the condition -/

/-- The page of a process at an entry of its list, where memoria keeps it: in the user space while the process
is resident, in the swap file while it is suspended. -/
def ownPage (cfg : Config) (s : State) (p : ProcessInfo) (k : Nat) : List UInt8 :=
  if p.isSuspended then
    s.swapFile.bytes.slice (toInt32 (k * cfg.tamPagina)).toNat cfg.tamPagina
  else s.userSpace.slice (k * cfg.tamPagina) cfg.tamPagina

/-- The entries of the list of a record, one for each page. -/
def entries (p : ProcessInfo) : List Nat :=
  match p.allocatedFrames with
  | .obj fs => fs
  | _ => []

/-- The records of the other processes. -/
def others (s : State) (pid : Int) : List ProcessInfo :=
  s.processes.eraseP fun p => decide (p.pid = pid)

/-- The page that the handler reads for an entry lies in the user space, and one of its bytes in a frame of
another process. -/
def ReadsForeign (cfg : Config) (s : State) (pid : Int) (k : Nat) : Prop :=
  exceedsUserSpace cfg (toInt32 (k * cfg.tamPagina)) cfg.tamPagina = false ∧
    ∃ q ∈ others s pid, ∃ g ∈ residentFrames q, ∃ x : Nat,
      (toInt32 (k * cfg.tamPagina) ≤ x ∧ (x : Int) < toInt32 (k * cfg.tamPagina) + cfg.tamPagina) ∧
      g * cfg.tamPagina ≤ x ∧ x < g * cfg.tamPagina + cfg.tamPagina

/-- **The content of a dump.**  If the handler answers `true`, the file consists of the pages of the process in
order, as many as its size needs, and no byte of it was read from a frame of another process. -/
def DumpsOwn (cfg : Config) (s : State) (pid : Int) (p : ProcessInfo) : Prop :=
  ∀ (fopen malloc : Bool) (written : Nat → Nat) (file : Option (List UInt8)),
    dumpMemoryRequestHandler cfg s pid fopen malloc written = some (file, true) →
    file = some ((entries p).map (ownPage cfg s p)).flatten ∧
      ((entries p).length : Int) = cfg.pagesNeeded p.processSize ∧
      ∀ k ∈ entries p, ¬ ReadsForeign cfg s pid k

/-- The condition: the process is resident and shares no frame; or it is suspended, and the user page with the
number of each of its slots is of nobody else and holds the very bytes of the slot. -/
def NumbersMatch (cfg : Config) (s : State) (pid : Int) (p : ProcessInfo) : Prop :=
  (p.isSuspended = false ∧ ∀ q ∈ others s pid, (residentFrames p).Disjoint (residentFrames q)) ∨
  (p.isSuspended = true ∧ ∀ k ∈ suspendedSlots p,
    readFromUserSpace cfg s.userSpace (toInt32 (k * cfg.tamPagina)) cfg.tamPagina =
      some (s.swapFile.bytes.slice (toInt32 (k * cfg.tamPagina)).toNat cfg.tamPagina) ∧
    ¬ ReadsForeign cfg s pid k)

/-! ## 3. Every list has addresses that can be read -/

/-- **The invariant**: resident processes list frames of the user space, suspended ones slots whose position
`fseek` accepts. -/
structure Placed (cfg : Config) (s : State) : Prop where
  nextTableId : s.nextTableId = 1
  total : s.frames.total = cfg.framesTotal
  resident : ∀ p ∈ s.processes, ∀ f ∈ residentFrames p, f < cfg.framesTotal
  suspended : ∀ p ∈ s.processes, ∀ k ∈ suspendedSlots p, 0 ≤ toInt32 (k * cfg.tamPagina)

section Places

variable {cfg : Config} {s s' : State}

/-- A copy to the swap file succeeds only at positions that are not negative. -/
theorem swapOutLoop_positions {m : Bytes} {written : Nat → Nat} {file' : SwapFile} :
    ∀ (pairs : List (Nat × Nat)) (i : Nat) (file : SwapFile),
      swapOutLoop cfg m written i pairs file = some (file', true) →
      ∀ x ∈ pairs, 0 ≤ toInt32 (x.2 * cfg.tamPagina) := by
  intro pairs
  induction pairs with
  | nil =>
    intro i file _ x hx
    exact absurd hx List.not_mem_nil
  | cons pair rest ih =>
    intro i file h x hx
    obtain ⟨userFrame, slot⟩ := pair
    cases hread : readFromUserSpace cfg m (toInt32 (userFrame * cfg.tamPagina)) cfg.tamPagina with
    | none =>
      rw [swapOutLoop, hread] at h
      exact absurd h (by simp)
    | some page =>
      rw [swapOutLoop_cons hread] at h
      split at h
      · rename_i hdone
        rcases List.mem_cons.mp hx with rfl | hx
        · exact ((swapWriteFrame_snd (length_readFromUserSpace hread)).mp hdone).1
        · exact ih (i + 1) _ h x hx
      · simp at h

theorem placed_start (cfg : Config) : Placed cfg (State.start cfg) :=
  ⟨rfl, rfl, by simp [State.start], by simp [State.start]⟩

/-- **Every request keeps it.** -/
theorem placed_step {r : Request} {reply : Reply} (hs : Placed cfg s)
    (h : handle cfg s r = some (s', reply)) : Placed cfg s' := by
  have hgiven : ∀ {n : Int} {fs : List Nat} {frames : BitAlloc}, s.frames.alloc n = some (fs, frames) →
      ∀ f ∈ fs, f < cfg.framesTotal :=
    fun halloc f hf => hs.total ▸ ((BitAlloc.alloc_slots halloc).2 f hf).1
  refine ⟨handle_nextTableId h hs.nextTableId, (handle_framesTotal h).trans hs.total, ?_, ?_⟩
  · intro p' hp' f hf
    rcases handle_records h p' hp' with hold | ⟨pid, size, fs, t, ins, rfl, -, -, frames, halloc⟩ |
      ⟨-, hnone, -⟩ | ⟨p, -, b, rfl, hnone⟩ | ⟨p, -, fs, slots, -, -, -, rfl⟩ |
      ⟨p, slots, userFrames, frames, pid, avail, m, -, -, -, -, halloc, -, -, rfl⟩
    · exact hs.resident p' hold f hf
    · exact hgiven halloc f hf
    · unfold residentFrames at hf
      split at hf
      · simp at hf
      · split at hf
        · rename_i fs hfs
          exact absurd hfs (hnone fs)
        · simp at hf
    · rw [residentFrames_of_none hnone b] at hf
      exact absurd hf List.not_mem_nil
    · exact absurd hf List.not_mem_nil
    · exact hgiven halloc f hf
  · intro p' hp' k hk
    rcases handle_records h p' hp' with hold | ⟨pid, size, fs, t, ins, rfl, -, -, -⟩ |
      ⟨-, hnone, -⟩ | ⟨p, -, b, rfl, hnone⟩ |
      ⟨p, -, fs, slots, -, hlen, ⟨written, file, hloop⟩, rfl⟩ |
      ⟨p, slots, userFrames, frames, pid, avail, m, -, -, -, -, -, -, -, rfl⟩
    · exact hs.suspended p' hold k hk
    · exact absurd hk List.not_mem_nil
    · unfold suspendedSlots at hk
      split at hk
      · split at hk
        · rename_i fs hfs
          exact absurd hfs (hnone fs)
        · simp at hk
      · simp at hk
    · rw [suspendedSlots_of_none hnone b] at hk
      exact absurd hk List.not_mem_nil
    · -- the slots are those the copy went to
      obtain ⟨i, hi, rfl⟩ := List.getElem_of_mem hk
      have hslot : i < slots.length := hi
      have hframe : i < fs.length := hlen ▸ hslot
      have hmem : (fs[i], slots[i]) ∈ fs.zip slots := by
        rw [List.mem_iff_getElem]
        exact ⟨i, by rw [List.length_zip]; omega, List.getElem_zip⟩
      exact swapOutLoop_positions _ 0 s.swapFile hloop _ hmem
    · exact absurd hk List.not_mem_nil

/-- In every state of every run. -/
theorem placed_run {tr : List (Transition State Request)} (hr : (memoria cfg).Run tr s) :
    Placed cfg s := by
  refine hr.invariant (C := fun _ _ => True) ?_ ?_ fun _ _ => trivial
  · rintro s rfl
    exact placed_start cfg
  · intro s r s' hs _ hst
    obtain ⟨⟨s1, reply⟩, h, rfl⟩ := Option.map_eq_some_iff.mp hst
    exact placed_step hs h

end Places

/-! ## 4. What the handler writes -/

section Content

variable {cfg : Config} {s : State} {pid : Int} {p : ProcessInfo}

/-- The user page that the handler takes for an entry of the list. -/
def framePage (cfg : Config) (m : Bytes) (k : Nat) : List UInt8 :=
  (readFromUserSpace cfg m (toInt32 (k * cfg.tamPagina)) cfg.tamPagina).getD []

/-- It can be read when the address is not negative. -/
theorem readFromUserSpace_framePage {m : Bytes} {k : Nat} (h : 0 ≤ toInt32 (k * cfg.tamPagina)) :
    readFromUserSpace cfg m (toInt32 (k * cfg.tamPagina)) cfg.tamPagina = some (framePage cfg m k) := by
  have hread : (readFromUserSpace cfg m (toInt32 (k * cfg.tamPagina)) cfg.tamPagina).isSome := by
    unfold readFromUserSpace
    rw [if_neg (not_lt.mpr (Int.natCast_nonneg _)), if_neg (not_lt.mpr h)]
    split
    · rfl
    · rfl
  obtain ⟨page, hpage⟩ := Option.isSome_iff_exists.mp hread
  simp [framePage, hpage]

theorem length_framePage {m : Bytes} {k : Nat} (h : 0 ≤ toInt32 (k * cfg.tamPagina)) :
    (framePage cfg m k).length = cfg.tamPagina :=
  length_readFromUserSpace (readFromUserSpace_framePage h)

/-- **When the copy loop ends well**: every page is written whole, and then the file is what it was followed by
the pages. -/
theorem dumpLoop_true_iff {m : Bytes} {written : Nat → Nat} {file' : List UInt8} :
    ∀ (fs : List Nat) (i : Nat) (file : List UInt8),
      (∀ k ∈ fs, 0 ≤ toInt32 (k * cfg.tamPagina)) →
      (dumpLoop cfg m written i fs file = some (file', true) ↔
        (∀ j < fs.length, cfg.tamPagina ≤ written (i + j)) ∧
          file' = file ++ (fs.map (framePage cfg m)).flatten) := by
  intro fs
  induction fs with
  | nil =>
    intro i file _
    simp [dumpLoop, eq_comm]
  | cons k fs ih =>
    intro i file hpos
    have hk := hpos k List.mem_cons_self
    have hlen : (framePage cfg m k).length = cfg.tamPagina := length_framePage hk
    rw [dumpLoop, bind_of_eq_some (readFromUserSpace_framePage hk)]
    by_cases hwhole : cfg.tamPagina ≤ written i
    · have htake : (framePage cfg m k).take (written i) = framePage cfg m k :=
        List.take_of_length_le (hlen ▸ hwhole)
      rw [htake, if_neg (not_not.mpr hlen),
        ih (i + 1) _ fun k' hk' => hpos k' (List.mem_cons_of_mem _ hk')]
      constructor
      · rintro ⟨hall, rfl⟩
        refine ⟨fun j hj => ?_, by simp⟩
        cases j with
        | zero => exact hwhole
        | succ j =>
          rw [Nat.add_comm j 1, ← Nat.add_assoc]
          exact hall j (Nat.lt_of_succ_lt_succ hj)
      · rintro ⟨hall, rfl⟩
        refine ⟨fun j hj => ?_, by simp⟩
        rw [Nat.add_assoc, Nat.add_comm 1 j]
        exact hall (j + 1) (Nat.succ_lt_succ hj)
    · have hshort : ((framePage cfg m k).take (written i)).length ≠ cfg.tamPagina := by
        rw [List.length_take]
        omega
      rw [if_pos hshort]
      constructor
      · intro h
        simp at h
      · rintro ⟨hall, -⟩
        exact absurd (hall 0 (Nat.succ_pos _)) hwhole

/-- The handler for a process that has a list. -/
theorem dumpMemoryRequestHandler_obj {fopen malloc : Bool} {written : Nat → Nat} {f : Nat} {fs : List Nat}
    (hfind : processManagerFindProcess s.processes pid = some p)
    (hfs : p.allocatedFrames = .obj (f :: fs)) :
    dumpMemoryRequestHandler cfg s pid fopen malloc written =
      if fopen = false then some (none, false)
      else if malloc = false then some (some [], false)
      else (dumpLoop cfg s.userSpace written 0 (f :: fs) []).map fun r => (some r.1, r.2) := by
  unfold dumpMemoryRequestHandler
  rw [hfind]
  simp only [hfs]

/-- **When the handler answers `true`**, and what is in the file then. -/
theorem dumpMemoryRequestHandler_true_iff {fopen malloc : Bool} {written : Nat → Nat}
    {file : Option (List UInt8)} {f : Nat} {fs : List Nat}
    (hfind : processManagerFindProcess s.processes pid = some p) (hfs : p.allocatedFrames = .obj (f :: fs))
    (hpos : ∀ k ∈ f :: fs, 0 ≤ toInt32 (k * cfg.tamPagina)) :
    dumpMemoryRequestHandler cfg s pid fopen malloc written = some (file, true) ↔
      (fopen = true ∧ malloc = true ∧ ∀ j < (f :: fs).length, cfg.tamPagina ≤ written j) ∧
        file = some ((f :: fs).map (framePage cfg s.userSpace)).flatten := by
  rw [dumpMemoryRequestHandler_obj hfind hfs]
  cases fopen with
  | false => simp
  | true =>
    cases malloc with
    | false => simp
    | true =>
      rw [if_neg Bool.true_eq_false.mp, if_neg Bool.true_eq_false.mp, Option.map_eq_some_iff]
      constructor
      · rintro ⟨⟨file', b⟩, hdump, heq⟩
        obtain ⟨rfl, rfl⟩ := Prod.mk.inj heq
        obtain ⟨hwritten, hfile⟩ := (dumpLoop_true_iff (f :: fs) 0 [] hpos).mp hdump
        refine ⟨⟨rfl, rfl, fun j hj => ?_⟩, by rw [hfile, List.nil_append]⟩
        exact Nat.zero_add j ▸ hwritten j hj
      · rintro ⟨⟨-, -, hwritten⟩, rfl⟩
        refine ⟨(_, true), (dumpLoop_true_iff (f :: fs) 0 [] hpos).mpr ⟨fun j hj => ?_, rfl⟩, ?_⟩
        · exact (Nat.zero_add j).symm ▸ hwritten j hj
        · rw [List.nil_append]

/-- Files of pages of one length are equal when the pages are. -/
theorem flatten_map_inj {g h : Nat → List UInt8} {n : Nat} :
    ∀ {ks : List Nat}, (∀ k ∈ ks, (g k).length = n ∧ (h k).length = n) →
      ((ks.map g).flatten = (ks.map h).flatten ↔ ∀ k ∈ ks, g k = h k) := by
  intro ks
  induction ks with
  | nil => simp
  | cons k ks ih =>
    intro hlen
    obtain ⟨hg, hh⟩ := hlen k List.mem_cons_self
    have htail := ih fun k' hk' => hlen k' (List.mem_cons_of_mem k hk')
    rw [List.map_cons, List.map_cons, List.flatten_cons, List.flatten_cons, List.forall_mem_cons,
      ← htail]
    constructor
    · intro heq
      exact List.append_inj heq (hg.trans hh.symm)
    · rintro ⟨hhead, htail⟩
      rw [hhead, htail]

end Content

/-! ## 5. Whose pages these are -/

section Owner

variable {cfg : Config} {s : State} {pid : Int} {p : ProcessInfo}

/-- Of a frame the handler reads a foreign byte exactly when another process has the frame. -/
theorem readsForeign_frame_iff {k : Nat} (hk : k < cfg.framesTotal) :
    ReadsForeign cfg s pid k ↔ ∃ q ∈ others s pid, k ∈ residentFrames q := by
  unfold ReadsForeign
  rw [toInt32_frame hk]
  constructor
  · rintro ⟨-, q, hq, g, hg, x, ⟨hlo, hhi⟩, hglo, hghi⟩
    obtain rfl : k = g := frame_eq_of_mem (by omega) (by omega) hglo hghi
    exact ⟨q, hq, hg⟩
  · rintro ⟨q, hq, hmem⟩
    have hps := cfg.tamPagina_pos
    refine ⟨toInt32_frame hk ▸ exceedsUserSpace_frame hk, q, hq, k, hmem, k * cfg.tamPagina, ?_, ?_⟩
    · omega
    · omega

theorem length_ownPage (k : Nat) : (ownPage cfg s p k).length = cfg.tamPagina := by
  unfold ownPage
  split
  · exact Bytes.length_slice _ _ _
  · exact Bytes.length_slice _ _ _

/-- A resident process that shares no frame with others, which is how the requests leave it as long as no
suspended process is killed. -/
theorem disjoint_others (hshape : Shaped cfg s) (howned : FramesOwned s)
    (hfind : processManagerFindProcess s.processes pid = some p) :
    ∀ q ∈ others s pid, (residentFrames p).Disjoint (residentFrames q) := by
  obtain ⟨rest, hperm, -, her⟩ := allResident_find hfind
  have hnodup := hperm.nodup_iff.mp ((framesOwned_iff_owns hshape).mp howned).nodup
  intro q hq f hf hg
  refine (List.nodup_append.mp hnodup).2.2 f hf f ?_ rfl
  rw [← her]
  exact mem_allResident.mpr ⟨q, hq, hg⟩

/-- **The content of a dump in a state whose lists can be read.** -/
theorem dumpsOwn_iff_numbersMatch (hshape : Shaped cfg s) (hplaced : Placed cfg s)
    (hfind : processManagerFindProcess s.processes pid = some p) (hpos : 0 < p.processSize) :
    DumpsOwn cfg s pid p ↔ NumbersMatch cfg s pid p := by
  have hmem := mem_of_find hfind
  obtain ⟨-, t, fs, -, hfs, hlen⟩ := hshape.sized p hmem (ne_of_gt hpos)
  have hentries : entries p = fs := by simp [entries, hfs]
  obtain ⟨f, rest, rfl⟩ : ∃ f rest, fs = f :: rest := by
    have hpages := cfg.pagesNeeded_pos hpos
    refine List.exists_cons_of_ne_nil ?_
    rintro rfl
    rw [List.length_nil] at hlen
    omega
  have hreads : ∀ k ∈ f :: rest, 0 ≤ toInt32 (k * cfg.tamPagina) := by
    intro k hk
    cases hsusp : p.isSuspended with
    | false =>
      rw [toInt32_frame (hplaced.resident p hmem k (residentFrames_of_obj hsusp hfs ▸ hk))]
      exact Int.natCast_nonneg _
    | true => exact hplaced.suspended p hmem k (suspendedSlots_of_obj hsusp hfs ▸ hk)
  have hinj := flatten_map_inj (g := framePage cfg s.userSpace) (h := ownPage cfg s p)
    (n := cfg.tamPagina) fun k hk => ⟨length_framePage (hreads k hk), length_ownPage k⟩
  -- one dump that succeeds speaks for all
  have hpages : DumpsOwn cfg s pid p ↔
      (∀ k ∈ f :: rest, framePage cfg s.userSpace k = ownPage cfg s p k) ∧
        ∀ k ∈ f :: rest, ¬ ReadsForeign cfg s pid k := by
    unfold DumpsOwn
    rw [hentries]
    constructor
    · intro hdump
      obtain ⟨hfile, -, hforeign⟩ := hdump true true (fun _ => cfg.tamPagina) _
        ((dumpMemoryRequestHandler_true_iff hfind hfs hreads).mpr ⟨⟨rfl, rfl, fun _ _ => le_refl _⟩, rfl⟩)
      exact ⟨hinj.mp (Option.some.inj hfile), hforeign⟩
    · rintro ⟨hsame, hforeign⟩ fopen malloc written file hdump
      obtain ⟨-, rfl⟩ := (dumpMemoryRequestHandler_true_iff hfind hfs hreads).mp hdump
      exact ⟨congrArg some (hinj.mpr hsame), hlen, hforeign⟩
  rw [hpages]
  unfold NumbersMatch
  cases hsusp : p.isSuspended with
  | false =>
    have hframes := residentFrames_of_obj hsusp hfs
    have hlt : ∀ k ∈ f :: rest, k < cfg.framesTotal := fun k hk =>
      hplaced.resident p hmem k (hframes ▸ hk)
    simp only [true_and, Bool.false_eq_true, false_and, or_false, hframes]
    constructor
    · rintro ⟨-, hforeign⟩ q hq k hk hkq
      exact hforeign k hk ((readsForeign_frame_iff (hlt k hk)).mpr ⟨q, hq, hkq⟩)
    · intro hdisjoint
      constructor
      · intro k hk
        rw [framePage, readFromUserSpace_frame (hlt k hk), Option.getD_some, ownPage, hsusp]
        rfl
      · intro k hk hforeign
        obtain ⟨q, hq, hkq⟩ := (readsForeign_frame_iff (hlt k hk)).mp hforeign
        exact hdisjoint q hq hk hkq
  | true =>
    have hslots := suspendedSlots_of_obj hsusp hfs
    simp only [Bool.true_eq_false, false_and, true_and, false_or, hslots]
    have hown : ∀ k, ownPage cfg s p k =
        s.swapFile.bytes.slice (toInt32 (k * cfg.tamPagina)).toNat cfg.tamPagina := by
      intro k
      rw [ownPage, hsusp]
      rfl
    constructor
    · rintro ⟨hsame, hforeign⟩ k hk
      refine ⟨?_, hforeign k hk⟩
      rw [readFromUserSpace_framePage (hreads k hk), hsame k hk, hown]
    · intro hmatch
      refine ⟨fun k hk => ?_, fun k hk => (hmatch k hk).2⟩
      rw [framePage, (hmatch k hk).1, Option.getD_some, hown]

/-- **The dump of a resident process is its own**, in every run that kills no suspended process. -/
theorem dump_of_resident {tr : List (Transition State Request)} (hr : (memoria cfg).Run tr s)
    (hkills : ∀ x ∈ tr, KillsResident x.src x.label)
    (hfind : processManagerFindProcess s.processes pid = some p) (hpos : 0 < p.processSize)
    (hres : p.isSuspended = false) : DumpsOwn cfg s pid p :=
  (dumpsOwn_iff_numbersMatch (shaped_run hr) (placed_run hr) hfind hpos).mpr
    (Or.inl ⟨hres, disjoint_others (shaped_run hr) ((framesOwned_iff hr).mpr hkills).1 hfind⟩)

end Owner

end Tpso.Memoria
