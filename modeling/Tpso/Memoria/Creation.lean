/-
# `create_process` does all or nothing

`create_process` has six exits: the script cannot be opened, the free count is too small, the frames come out
short (which is where a negative size ends), the tree of tables is too small for the frames, and the two
successes.  Each failure gives back what was taken before it, so that a refused request leaves memoria as it
was.

When it succeeds is what one expects, except for one conversion.  `assign_frames` computes the number of
last-level tables with `pow` and keeps it in an `int`; from 2 ^ 31 tables on it is negative, no table is
collected, and every process with a size is refused.
-/
import Tpso.Memoria.Steps

namespace Tpso.Memoria

open Tpso.Lib

/-! ## 1. When the tree is large enough -/

section Tree

variable {cfg : Config} {root : PageTable} {frames : List Nat}

/-- The number of last-level tables that `assign_frames` collects. -/
def collected (cfg : Config) : Nat :=
  min (doubleToInt (cfg.entradasPorTabla ^ cfg.lastLevel)).toNat (cfg.entradasPorTabla ^ cfg.lastLevel)

/-- All of them, or none when there are too many for an `int`. -/
theorem collected_eq (cfg : Config) :
    collected cfg = if cfg.entradasPorTabla ^ cfg.lastLevel < 2 ^ 31
      then cfg.entradasPorTabla ^ cfg.lastLevel else 0 := by
  unfold collected doubleToInt
  split
  · rw [Int.toNat_natCast, Nat.min_self]
  · have hneg : (-2 ^ 31 : Int).toNat = 0 := by decide
    rw [hneg, Nat.zero_min]

/-- **`assign_frames` succeeds exactly when there is an entry for each frame.** -/
theorem assignFrames_snd (hroot : PageTable.Complete cfg.entradasPorTabla cfg.lastLevel root)
    (hpos : 0 < frames.length) :
    (assignFrames cfg root frames frames.length).2 = true ↔
      frames.length ≤ collected cfg * cfg.entradasPorTabla := by
  have htake : (levelPaths cfg.entradasPorTabla cfg.lastLevel).take
      (doubleToInt (cfg.entradasPorTabla ^ cfg.lastLevel)).toNat =
      (List.range' 0 (collected cfg)).map (digits cfg.entradasPorTabla cfg.lastLevel) := by
    rw [levelPaths, ← List.map_take, List.take_range, List.range_eq_range']
    rfl
  have hstart : Assigned cfg.entradasPorTabla cfg.lastLevel frames.length frames
      (0 * cfg.entradasPorTabla) (root, 0) := ⟨by simp, hroot, by simp⟩
  have hend := assignTables_assigned rfl (collected cfg) 0 root 0
    (by rw [Nat.zero_add]; exact Nat.min_le_right _ _) hstart
  rw [Nat.zero_add] at hend
  have hindex := hend.index
  unfold assignFrames
  rw [if_neg (by omega)]
  simp only [collectLastLevelTables_complete _ hroot, htake, decide_eq_true_eq, Nat.cast_inj, hindex]
  omega

end Tree

/-! ## 2. What is asked of `create_process` -/

/-- The frames after the `k` lowest clear ones were taken. -/
def takeLowest (a : BitAlloc) (k : Nat) : BitAlloc :=
  { a with
    bit := fun f => a.bit f || decide (f ∈ a.clear.take k)
    free := a.free - k }

/-- A process of this size fits: it has no size, or it has pages, no more than there are free frames and
entries in the tree. -/
def Fits (cfg : Config) (s : State) (size : Int) : Prop :=
  size = 0 ∨ (1 ≤ cfg.pagesNeeded size ∧ cfg.pagesNeeded size ≤ s.frames.free ∧
    cfg.pagesNeeded size ≤ (cfg.entradasPorTabla ^ cfg.cantidadNiveles : Nat))

/-- The state after the creation of a process: the lowest free frames are its own, and its record is the
last of the list. -/
def Created (cfg : Config) (s s' : State) (pid size : Int) : Prop :=
  ∃ p : ProcessInfo, p.pid = pid ∧ p.processSize = size ∧ p.isSuspended = false ∧
    (size ≠ 0 → p.allocatedFrames = .obj (s.frames.clear.take (cfg.pagesNeeded size).toNat)) ∧
    s' = { s with
      frames := takeLowest s.frames (cfg.pagesNeeded size).toNat
      processes := s.processes ++ [p] }

/-- **Exact and atomic**: the process is created exactly when the script can be opened and it fits, and a
refused request changes nothing. -/
def CreatesExactly (cfg : Config) (s : State) (pid size : Int) (file : Option (List String))
    (left : Leftover) : Prop :=
  ∃ s' b, createProcess cfg s pid size file left = some (s', b) ∧
    (b = true ↔ file.isSome = true ∧ Fits cfg s size) ∧
    (b = true → Created cfg s s' pid size) ∧ (b = false → s' = s)

/-- The number of last-level tables is an `int`, if `create_process` gets as far as to need it. -/
def TablesFit (cfg : Config) (s : State) (size : Int) (file : Option (List String)) : Prop :=
  file.isSome = true → size ≠ 0 → Fits cfg s size → cfg.entradasPorTabla ^ cfg.lastLevel < 2 ^ 31

/-! ## 3. The exits -/

section Create

variable {cfg : Config} {s : State} {pid size : Int} {file : Option (List String)} {left : Leftover}

/-- Nothing is taken for no pages. -/
theorem takeLowest_zero (a : BitAlloc) : takeLowest a 0 = a := by
  simp [takeLowest]

/-- An allocation that is not refused takes the lowest free frames. -/
theorem alloc_takeLowest {a : BitAlloc} {m : Int} (hcount : a.free = a.clear.length) (h : m ≤ a.free) :
    a.alloc m = some (a.clear.take m.toNat, takeLowest a m.toNat) := by
  rw [BitAlloc.alloc_eq, if_neg (not_lt.mpr h)]
  have hlen : (a.clear.take m.toNat).length = m.toNat := by
    rw [List.length_take]
    omega
  rw [hlen]
  rfl

/-- The exit for a script that cannot be opened. -/
theorem createProcess_noScript :
    createProcess cfg s pid size none left = some (s, false) := rfl

/-- A process without a size. -/
theorem createProcess_unsized (lines : List String) : ∃ p : ProcessInfo, p.pid = pid ∧
    p.processSize = 0 ∧ p.isSuspended = false ∧
    createProcess cfg s pid 0 (some lines) left =
      some ({ s with processes := s.processes ++ [p] }, true) :=
  ⟨_, rfl, rfl, rfl, rfl⟩

/-- The exit when the free count is too small. -/
theorem createProcess_noFrames {lines : List String} (hsize : size ≠ 0)
    (h : s.frames.free < cfg.pagesNeeded size) :
    createProcess cfg s pid size (some lines) left = some (s, false) := by
  simp [createProcess, processManagerLoadScriptLines, hsize, h]

/-- The exit for a size that is negative by a page or more: no frames are taken, and none are the number
asked for. -/
theorem createProcess_negative {lines : List String} (hsize : size ≠ 0)
    (hcount : s.frames.free = s.frames.clear.length) (hneg : cfg.pagesNeeded size < 0) :
    createProcess cfg s pid size (some lines) left = some (s, false) := by
  have hle : cfg.pagesNeeded size ≤ s.frames.free := by omega
  have hzero : (cfg.pagesNeeded size).toNat = 0 := by omega
  have halloc := alloc_takeLowest hcount hle
  rw [hzero, takeLowest_zero, List.take_zero] at halloc
  have hne : ((([] : List Nat).length : Nat) : Int) ≠ cfg.pagesNeeded size := by
    simp only [List.length_nil, Nat.cast_zero]
    omega
  simp only [createProcess, processManagerLoadScriptLines, Option.map_some, hsize, ne_eq,
    not_false_eq_true, if_true, not_lt.mpr hle, if_false, halloc, hne]

/-- What is left once the frames are taken: they go into the tree of tables, or back. -/
theorem createProcess_frames {lines : List String} (hsize : size ≠ 0)
    (hid : s.nextTableId = 1) (hcount : s.frames.free = s.frames.clear.length)
    (hnn : 0 ≤ cfg.pagesNeeded size) (hle : cfg.pagesNeeded size ≤ s.frames.free) :
    (0 < cfg.pagesNeeded size ∧
      cfg.pagesNeeded size ≤ (collected cfg * cfg.entradasPorTabla : Nat) ∧
      ∃ s', createProcess cfg s pid size (some lines) left = some (s', true) ∧
        Created cfg s s' pid size) ∨
    (¬ (0 < cfg.pagesNeeded size ∧
      cfg.pagesNeeded size ≤ (collected cfg * cfg.entradasPorTabla : Nat)) ∧
      createProcess cfg s pid size (some lines) left = some (s, false)) := by
  have halloc := alloc_takeLowest hcount hle
  have hlen : ((s.frames.clear.take (cfg.pagesNeeded size).toNat).length : Int) =
      cfg.pagesNeeded size := by
    rw [List.length_take]
    omega
  have hback := BitAlloc.release_alloc halloc
  have hsame : { s with frames := s.frames, nextTableId := 1 } = s := by rw [← hid]
  generalize hfs : s.frames.clear.take (cfg.pagesNeeded size).toNat = fs at halloc hlen hback
  have hroot : PageTable.Complete cfg.entradasPorTabla cfg.lastLevel
      (initPageTable cfg s.nextTableId).1 := createTable_complete cfg _ _
  -- whether the tree takes all the frames
  have hassign : (assignFrames cfg (initPageTable cfg s.nextTableId).1 fs (cfg.pagesNeeded size)).2 = true ↔
      0 < cfg.pagesNeeded size ∧
        cfg.pagesNeeded size ≤ (collected cfg * cfg.entradasPorTabla : Nat) := by
    rcases Nat.eq_zero_or_pos fs.length with hzero | hpos
    · have hnone : cfg.pagesNeeded size ≤ 0 := by omega
      unfold assignFrames
      rw [if_pos hnone]
      simp only [Bool.false_eq_true, false_iff]
      omega
    · rw [← hlen, assignFrames_snd hroot hpos]
      omega
  have hne : ¬ (fs.length : Int) ≠ cfg.pagesNeeded size := not_not.mpr hlen
  cases htree : assignFrames cfg (initPageTable cfg s.nextTableId).1 fs (cfg.pagesNeeded size) with
  | mk t ok =>
    rw [htree] at hassign
    cases ok with
    | true =>
      obtain ⟨hpos, hfit⟩ := hassign.mp rfl
      refine Or.inl ⟨hpos, hfit, _, ?_,
        ⟨freshProcess pid size (((lines.map trimLine).filter fun l => l ≠ "")) (.obj t) (.obj fs), rfl,
          rfl, rfl, fun _ => congrArg Ptr.obj hfs.symm, rfl⟩⟩
      simp only [createProcess, processManagerLoadScriptLines, Option.map_some, hsize, ne_eq,
        not_false_eq_true, if_true, not_lt.mpr hle, if_false, halloc, hne, htree]
      rw [hid]
      rfl
    | false =>
      refine Or.inr ⟨fun hfit => absurd (hassign.mpr hfit) (by simp), ?_⟩
      simp only [createProcess, processManagerLoadScriptLines, Option.map_some, hsize, ne_eq,
        not_false_eq_true, if_true, not_lt.mpr hle, if_false, halloc, hne, htree, hback]
      exact congrArg some (Prod.ext hsame rfl)

/-- The entries of the last level, when the tables are counted right. -/
theorem collected_mul (h : cfg.entradasPorTabla ^ cfg.lastLevel < 2 ^ 31) :
    collected cfg * cfg.entradasPorTabla = cfg.entradasPorTabla ^ cfg.cantidadNiveles := by
  have hlevels : cfg.cantidadNiveles = cfg.lastLevel + 1 := by
    have hpos := cfg.cantidadNiveles_pos
    unfold Config.lastLevel
    omega
  rw [collected_eq, if_pos h, hlevels, pow_succ]

/-- No more than that are ever collected. -/
theorem collected_mul_le (cfg : Config) :
    collected cfg * cfg.entradasPorTabla ≤ cfg.entradasPorTabla ^ cfg.cantidadNiveles := by
  by_cases h : cfg.entradasPorTabla ^ cfg.lastLevel < 2 ^ 31
  · exact (collected_mul h).le
  · rw [collected_eq, if_neg h, Nat.zero_mul]
    exact Nat.zero_le _

/-- A refusal that changes nothing is right for what does not fit. -/
theorem createsExactly_refused (h : createProcess cfg s pid size file left = some (s, false))
    (hnot : ¬ (file.isSome = true ∧ Fits cfg s size)) : CreatesExactly cfg s pid size file left :=
  ⟨s, false, h, ⟨fun hb => absurd hb (by simp), fun hfit => absurd hfit hnot⟩,
    fun hb => absurd hb (by simp), fun _ => rfl⟩

/-- **Exactly when `create_process` is exact and atomic.**  For every state whose free count is the number
of clear bits, every pid, every size and every script: the process is created if and only if the script can be
opened and the process fits, with the lowest free frames, and a refusal leaves the state as it was; unless
the tree has 2 ^ 31 last-level tables or more and `create_process` gets to it. -/
theorem createsExactly_iff (hid : s.nextTableId = 1) (hcount : s.frames.free = s.frames.clear.length) :
    CreatesExactly cfg s pid size file left ↔ TablesFit cfg s size file := by
  constructor
  · rintro ⟨s', b, hcreate, hiff, -, -⟩ hsome hsize hfits
    obtain ⟨lines, rfl⟩ := Option.isSome_iff_exists.mp hsome
    obtain rfl : b = true := hiff.mpr ⟨hsome, hfits⟩
    obtain ⟨hpos, hle, -⟩ := hfits.resolve_left hsize
    rcases @createProcess_frames _ _ pid _ left lines hsize hid hcount
      (by omega) hle with ⟨-, hfit, -⟩ | ⟨-, hrefused⟩
    · by_contra hbig
      rw [collected_eq, if_neg hbig, Nat.zero_mul] at hfit
      omega
    · rw [hcreate] at hrefused
      simp at hrefused
  · intro htables
    cases file with
    | none => exact createsExactly_refused createProcess_noScript fun h => absurd h.1 (by simp)
    | some lines =>
      by_cases hsize : size = 0
      · subst hsize
        obtain ⟨p, hpid, hpsize, hres, hcreate⟩ :=
          @createProcess_unsized cfg s pid left lines
        refine ⟨_, true, hcreate, ⟨fun _ => ⟨rfl, Or.inl rfl⟩, fun _ => rfl⟩, fun _ => ?_,
          fun hb => absurd hb (by simp)⟩
        refine ⟨p, hpid, hpsize, hres, fun hne => absurd rfl hne, ?_⟩
        rw [pagesNeeded_zero, Int.toNat_zero, takeLowest_zero]
      have hfit : Fits cfg s size → 1 ≤ cfg.pagesNeeded size ∧ cfg.pagesNeeded size ≤ s.frames.free ∧
          cfg.pagesNeeded size ≤ (cfg.entradasPorTabla ^ cfg.cantidadNiveles : Nat) :=
        fun h => h.resolve_left hsize
      rcases lt_or_ge s.frames.free (cfg.pagesNeeded size) with hfew | hle
      · refine createsExactly_refused (createProcess_noFrames hsize hfew) fun h => ?_
        obtain ⟨-, hle, -⟩ := hfit h.2
        omega
      rcases lt_or_ge (cfg.pagesNeeded size) 0 with hneg | hnn
      · refine createsExactly_refused (createProcess_negative hsize hcount hneg) fun h => ?_
        obtain ⟨hpos, -, -⟩ := hfit h.2
        omega
      rcases @createProcess_frames _ _ pid _ left lines hsize hid hcount hnn hle
        with ⟨hpos, htree, s', hcreate, hcreated⟩ | ⟨hnot, hrefused⟩
      · have hentries := collected_mul_le cfg
        exact ⟨s', true, hcreate, ⟨fun _ => ⟨rfl, Or.inr ⟨by omega, hle, by omega⟩⟩, fun _ => rfl⟩,
          fun _ => hcreated, fun hb => absurd hb (by simp)⟩
      · refine createsExactly_refused hrefused fun h => hnot ?_
        obtain ⟨hpos, -, htree⟩ := hfit h.2
        have hentries := collected_mul (htables rfl hsize h.2)
        omega

end Create

/-- The theorem at work on a process of three pages. -/
theorem createsExactly_iff_small :
    CreatesExactly smallConfig (State.start smallConfig) 7 40 (some ["NOOP\n"]) ⟨true, true⟩ :=
  (createsExactly_iff rfl (BitAlloc.owns_empty 4).free_eq).mpr fun _ _ _ => by decide

/-- The small memory with 32 levels of tables. -/
def deepConfig : Config :=
  { smallConfig with cantidadNiveles := 32, cantidadNiveles_pos := by decide }

/-- **A process of one page is refused**, although there are free frames and the tree has 2 ^ 32
entries. -/
theorem not_createsExactly :
    ¬ ∀ (cfg : Config) (s : State) (pid size : Int) (file : Option (List String)) (left : Leftover),
      s.nextTableId = 1 → s.frames.free = s.frames.clear.length →
      CreatesExactly cfg s pid size file left := by
  intro hall
  have hcount : (State.start deepConfig).frames.free = (State.start deepConfig).frames.clear.length :=
    (BitAlloc.owns_empty 4).free_eq
  have hpages : deepConfig.pagesNeeded 1 = 1 := by decide
  obtain ⟨s', b, hcreate, hiff, -, -⟩ :=
    hall deepConfig (State.start deepConfig) 7 1 (some []) ⟨true, true⟩ rfl hcount
  obtain rfl : b = true := by
    refine hiff.mpr ⟨rfl, Or.inr ?_⟩
    rw [hpages]
    exact ⟨le_refl 1, by decide, by decide⟩
  rcases @createProcess_frames deepConfig (State.start deepConfig) 7 1 ⟨true, true⟩ [] (by decide) rfl hcount
      (by decide) (by decide) with
    ⟨-, hfit, -⟩ | ⟨-, hrefused⟩
  · rw [collected_eq, if_neg (by decide), Nat.zero_mul, hpages] at hfit
    exact absurd hfit (by decide)
  · rw [hcreate] at hrefused
    simp at hrefused

end Tpso.Memoria
