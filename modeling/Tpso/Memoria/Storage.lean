/-
# What memoria keeps of a process across the requests of the kernel

The kernel never writes to the user space: it asks for processes to be created, killed, suspended and
resumed.  Suspension and resumption copy whole pages between the user space and the swap file, and they
write only into frames that nobody had.  So the bytes of a process stay where its record says they are, in
its frames while it is resident and in its slots while it is not (`Stores`), and every request keeps them
(`stores_step`), as long as the frames in the record are those in the page table, no frame has two owners
and no record has the pid of another (`Sound`).

The user space here is any user space that agrees with the one that there is on the frames of the process
that goes: with write-back caches the one that is meant differs from the one that there is.
-/
import Tpso.Memoria.RoundTrip

namespace Tpso.Memoria

open Tpso.Lib

/-! ## 1. A memoria in order -/

/-- **The invariant**: the page table and the frame list of a resident process agree, and every frame, slot
and pid has one owner. -/
structure Sound (cfg : Config) (s : State) : Prop where
  shaped : Shaped cfg s
  tabled : AllTabled cfg s
  owns : s.frames.Owns (allResident s.processes)
  agree : TablesAgree cfg s
  held : SlotsHeld s
  pids : (s.processes.map (·.pid)).Nodup

/-- **The condition on a request**: it does not kill a suspended process, it does not resume a process to
other frames than the page table names, and it does not create a process under a pid that has a record. -/
structure Careful (cfg : Config) (s : State) (r : Request) : Prop where
  kills : KillsResident s r
  resumes : ResumesInPlace cfg s r
  fresh : ∀ pid size file left, r = .initProcess pid size file left →
    processManagerFindProcess s.processes pid = none

theorem sound_start (cfg : Config) : Sound cfg (State.start cfg) where
  shaped := shaped_start cfg
  tabled := allTabled_start cfg
  owns := BitAlloc.owns_empty cfg.framesTotal
  agree := by simp [TablesAgree, State.start]
  held := ⟨rfl, (BitAlloc.owns_empty swapInitialFrames).holds⟩
  pids := by simp [State.start]

section Step

variable {cfg : Config} {s s' : State} {r : Request} {reply : Reply} {pid : Int} {p : ProcessInfo}

/-- The pids stay distinct. -/
theorem pids_step (hpids : (s.processes.map (·.pid)).Nodup)
    (hfresh : ∀ pid size file left, r = .initProcess pid size file left →
      processManagerFindProcess s.processes pid = none)
    (hst : handle cfg s r = some (s', reply)) : (s'.processes.map (·.pid)).Nodup := by
  rcases handle_tables hst with ⟨hsame, -, -⟩ | ⟨pid, size, file, left, p, rfl, -, rfl, hprocs⟩ |
    ⟨pid, -, hprocs⟩
  · rw [hsame]
    exact hpids
  · rw [hprocs, List.map_append, List.map_singleton, ← List.concat_eq_append]
    refine hpids.concat ?_
    intro hmem
    obtain ⟨q, hq, heq⟩ := List.mem_map.mp hmem
    have := List.find?_eq_none.mp (hfresh _ _ _ _ rfl) q hq
    simp [heq] at this
  · rw [hprocs]
    exact hpids.sublist (List.eraseP_sublist.map _)

/-- **Every careful request keeps memoria in order.** -/
theorem sound_step (he : 1 ≤ cfg.entradasPorTabla)
    (hpow : cfg.entradasPorTabla ^ cfg.cantidadNiveles < 2 ^ 31) (h : Sound cfg s)
    (hc : Careful cfg s r) (hst : handle cfg s r = some (s', reply)) : Sound cfg s' where
  shaped := shaped_step h.shaped hst
  tabled := allTabled_step he hpow h.tabled hst
  owns := owns_step h.shaped h.owns hc.kills hst
  agree := tablesAgree_step h.shaped h.agree hc.resumes hst
  held := slotsHeld_step h.held hst
  pids := pids_step h.pids hc.fresh hst

/-- The frame of a resident process is taken. -/
theorem Sound.taken (h : Sound cfg s) (hfind : processManagerFindProcess s.processes pid = some p)
    {f : Nat} (hf : f ∈ residentFrames p) : f < cfg.framesTotal ∧ s.frames.bit f = true := by
  have hmem : f ∈ allResident s.processes := mem_allResident.mpr ⟨p, mem_of_find hfind, hf⟩
  have hlt := h.owns.lt_total f hmem
  exact ⟨h.tabled.total ▸ hlt, (h.owns.bit_iff f hlt).mpr hmem⟩

/-- A frame has one owner. -/
theorem Sound.owner (h : Sound cfg s) {pid' : Int} {p' : ProcessInfo}
    (hfind : processManagerFindProcess s.processes pid = some p)
    (hfind' : processManagerFindProcess s.processes pid' = some p') {f : Nat}
    (hf : f ∈ residentFrames p) (hf' : f ∈ residentFrames p') : pid = pid' := by
  by_contra hne
  obtain ⟨l, r, heq, hpid, hl, -, -⟩ := find_split hfind
  have hpid' : p'.pid = pid' := by simpa using List.find?_some hfind'
  -- the other record is before or behind, and its list is another part of the ledger
  have hmem : p' ∈ l ++ r := by
    have hin := mem_of_find hfind'
    rw [heq] at hin
    rcases List.mem_append.mp hin with hin | hin
    · exact List.mem_append_left _ hin
    · rcases List.mem_cons.mp hin with rfl | hin
      · exact absurd (hpid.symm.trans hpid') hne
      · exact List.mem_append_right _ hin
  have hnd := h.owns.nodup
  rw [heq] at hnd
  have hperm : (allResident (l ++ p :: r)).Perm (residentFrames p ++ allResident (l ++ r)) :=
    List.perm_middle.flatMap_right residentFrames
  exact (List.nodup_append.mp (hperm.nodup hnd)).2.2 f hf f (mem_allResident.mpr ⟨p', hmem, hf'⟩) rfl

/-! ## 2. Where the kernel's requests write -/

/-- **A request of the kernel writes to the user space only in frames that nobody had.** -/
theorem handle_userSpace (htotal : s.frames.total = cfg.framesTotal) (hkernel : r.pid? ≠ none)
    (hst : handle cfg s r = some (s', reply)) {x : Nat} (hx : s.frames.bit (x / cfg.tamPagina) = true) :
    s'.userSpace x = s.userSpace x := by
  cases r with
  | initProcess q size file left =>
    obtain ⟨⟨s1, b⟩, hserved, heq⟩ := Option.map_eq_some_iff.mp hst
    obtain ⟨rfl, -⟩ := Prod.mk.inj heq
    rcases createProcess_cases hserved with ⟨rfl, -⟩ | ⟨_, frames, -, -, rfl, -⟩ |
      ⟨_, frames, frames', _, -, -, rfl, -⟩ | ⟨_, frames, _, _, _, -, -, -, -, rfl, -⟩ |
      ⟨_, -, rfl, -⟩ <;> rfl
  | killProcess q =>
    obtain ⟨⟨s1, b⟩, hserved, heq⟩ := Option.map_eq_some_iff.mp hst
    obtain ⟨rfl, -⟩ := Prod.mk.inj heq
    rcases deleteProcess_cases hserved with ⟨-, rfl, -⟩ | ⟨_, -, -, rfl, -⟩ |
      ⟨_, _, frames, -, -, -, -, rfl, -⟩ <;> rfl
  | swap q written =>
    obtain ⟨⟨s1, b⟩, hserved, heq⟩ := Option.map_eq_some_iff.mp hst
    obtain ⟨rfl, -⟩ := Prod.mk.inj heq
    rcases swapOutProcess_cases hserved with ⟨⟨_, _, rfl⟩, -⟩ | ⟨_, -, -, -, rfl, -⟩ |
      ⟨_, _, _, frames, _, _, -, -, -, -, -, -, rfl, -⟩ <;> rfl
  | unsuspendProcess q avail =>
    obtain ⟨⟨s1, b⟩, hserved, heq⟩ := Option.map_eq_some_iff.mp hst
    obtain ⟨rfl, -⟩ := Prod.mk.inj heq
    -- the frames that the pages are copied to were clear
    have hcopy : ∀ {slots userFrames : List Nat} {n : Int} {frames : BitAlloc} {m : Bytes} {b : Bool},
        s.frames.alloc n = some (userFrames, frames) →
        swapInLoop cfg s.swapFile avail 0 (slots.zip userFrames) s.userSpace = some (m, b) →
        m x = s.userSpace x := by
      intro slots userFrames n frames m b halloc hloop
      obtain ⟨hnd, hclear⟩ := BitAlloc.alloc_slots halloc
      have hlt : ∀ f ∈ userFrames, f < cfg.framesTotal := fun f hf => htotal ▸ (hclear f hf).1
      refine (swapInLoop_copied slots userFrames 0 s.userSpace hlt hnd hloop).2 x ?_
      rintro j f hf - - ⟨hlo, hhi⟩
      have hdiv : x / cfg.tamPagina = f := Nat.div_eq_of_lt_le hlo (by rw [Nat.succ_mul]; exact hhi)
      have := (hclear f (List.mem_of_getElem? hf)).2.1
      rw [← hdiv, hx] at this
      exact absurd this (by simp)
    rcases swapInProcess_cases hserved with ⟨rfl, -⟩ | ⟨_, -, -, -, rfl, -⟩ |
      ⟨_, _, _, frames, -, -, -, -, rfl, -⟩ | ⟨_, _, _, frames, frames', _, -, -, halloc, hloop, -, rfl, -⟩ |
      ⟨_, _, _, frames, _, _, -, -, -, -, halloc, -, hloop, -, rfl, -⟩
    · rfl
    · rfl
    · rfl
    · exact hcopy halloc hloop
    · exact hcopy halloc hloop
  | readMemory a n => exact absurd rfl hkernel
  | writeMemory a d => exact absurd rfl hkernel

/-- Only an INIT_PROCESS makes a record for a pid that has none. -/
theorem handle_find_none (hst : handle cfg s r = some (s', reply))
    (hnone : processManagerFindProcess s.processes pid = none)
    (hne : ∀ size file left, r ≠ .initProcess pid size file left) :
    processManagerFindProcess s'.processes pid = none := by
  have hiff : ∀ {ps : List ProcessInfo},
      processManagerFindProcess ps pid = none ↔ pid ∉ ps.map (·.pid) := by
    intro ps
    simp [processManagerFindProcess, List.find?_eq_none]
  rw [hiff] at hnone ⊢
  rcases handle_tables hst with ⟨hsame, -, -⟩ | ⟨q, size, file, left, p, rfl, -, rfl, hprocs⟩ |
    ⟨q, -, hprocs⟩
  · rwa [hsame]
  · rw [hprocs, List.map_append, List.map_singleton, List.mem_append, List.mem_singleton]
    rintro (hmem | rfl)
    · exact hnone hmem
    · exact hne size file left rfl
  · rw [hprocs]
    exact fun hmem => hnone ((List.eraseP_sublist.map _).subset hmem)

/-- A process keeps its size for as long as it has a record. -/
theorem handle_processSize (h : Sound cfg s) (hc : Careful cfg s r) (hst : handle cfg s r = some (s', reply))
    (hfind : processManagerFindProcess s.processes pid = some p) {p' : ProcessInfo}
    (hfind' : processManagerFindProcess s'.processes pid = some p') : p'.processSize = p.processSize := by
  -- the record is the old one, or an update of it that keeps the size
  have hupdated : ∀ {f : ProcessInfo → ProcessInfo},
      processManagerFindProcess (updateProcess f pid s.processes) pid = some p' →
      (∀ q, (f q).pid = q.pid) → (∀ q, (f q).processSize = q.processSize) →
      p'.processSize = p.processSize := by
    intro f hp' hpid hsize
    rw [find_updateProcess hpid, if_pos rfl, hfind, Option.map_some] at hp'
    rw [← Option.some.inj hp', hsize]
  have hsame : processManagerFindProcess s.processes pid = some p' → p'.processSize = p.processSize := by
    intro hp'
    rw [Option.some.inj (hfind.symm.trans hp')]
  by_cases hpid : r.pid? = some pid
  · cases r with
    | initProcess q size file left =>
      obtain rfl : q = pid := by simpa [Request.pid?] using hpid
      exact absurd (hfind.symm.trans (hc.fresh q size file left rfl)) (by simp)
    | killProcess q =>
      obtain rfl : q = pid := by simpa [Request.pid?] using hpid
      obtain ⟨⟨s1, b⟩, hserved, heq⟩ := Option.map_eq_some_iff.mp hst
      obtain ⟨rfl, -⟩ := Prod.mk.inj heq
      have hgone := find_eraseP_self h.pids q
      rcases deleteProcess_cases hserved with ⟨-, rfl, -⟩ | ⟨_, -, -, rfl, -⟩ |
        ⟨_, _, frames, -, -, -, -, rfl, -⟩
      · exact hsame hfind'
      · exact absurd (hgone.symm.trans hfind') (by simp)
      · exact absurd (hgone.symm.trans hfind') (by simp)
    | swap q written =>
      obtain rfl : q = pid := by simpa [Request.pid?] using hpid
      obtain ⟨⟨s1, b⟩, hserved, heq⟩ := Option.map_eq_some_iff.mp hst
      obtain ⟨rfl, -⟩ := Prod.mk.inj heq
      rcases swapOutProcess_cases hserved with ⟨⟨_, _, rfl⟩, -⟩ | ⟨_, -, -, -, rfl, -⟩ |
        ⟨_, _, _, frames, _, _, -, -, -, -, -, -, rfl, -⟩
      · exact hsame hfind'
      · exact hupdated hfind' (fun _ => rfl) fun _ => rfl
      · exact hupdated hfind' (fun _ => rfl) fun _ => rfl
    | unsuspendProcess q avail =>
      obtain rfl : q = pid := by simpa [Request.pid?] using hpid
      obtain ⟨⟨s1, b⟩, hserved, heq⟩ := Option.map_eq_some_iff.mp hst
      obtain ⟨rfl, -⟩ := Prod.mk.inj heq
      rcases swapInProcess_cases hserved with ⟨rfl, -⟩ | ⟨_, -, -, -, rfl, -⟩ |
        ⟨_, _, _, frames, -, -, -, -, rfl, -⟩ | ⟨_, _, _, frames, frames', _, -, -, -, -, -, rfl, -⟩ |
        ⟨_, _, _, frames, _, _, -, -, -, -, -, -, -, -, rfl, -⟩
      · exact hsame hfind'
      · exact hupdated hfind' (fun _ => rfl) fun _ => rfl
      · exact hsame hfind'
      · exact hsame hfind'
      · exact hupdated hfind' (fun _ => rfl) fun _ => rfl
    | readMemory a n => exact absurd hpid (by simp [Request.pid?])
    | writeMemory a d => exact absurd hpid (by simp [Request.pid?])
  · exact hsame ((handle_find_of_ne hst hpid).symm.trans hfind')

end Step

/-! ## 3. The bytes of a process -/

/-- Where the pages of a process are: the user space, or the swap file. -/
def storeOf (s : State) (mem : Bytes) (p : ProcessInfo) : Bytes :=
  if p.isSuspended then s.swapFile.bytes else mem

/-- **The bytes of a process that `w` names are there**, page by page, in its frames or in its slots. -/
def Stores (cfg : Config) (s : State) (mem : Bytes) (pid : Int) (w : Nat → Option UInt8) : Prop :=
  ∀ p fs, processManagerFindProcess s.processes pid = some p → p.allocatedFrames = .obj fs →
    ∀ (i f : Nat), fs[i]? = some f → ∀ o < cfg.tamPagina, ∀ v,
      w (i * cfg.tamPagina + o) = some v → storeOf s mem p (f * cfg.tamPagina + o) = v

/-- The user space that is meant, after a request: in the frames that somebody had it stays; in the others
it is what the request left there. -/
def relocated (cfg : Config) (s s' : State) (mem : Bytes) : Bytes := fun x =>
  if s.frames.bit (x / cfg.tamPagina) then mem x else s'.userSpace x

section Stores

variable {cfg : Config} {s s' : State} {r : Request} {reply : Reply} {pid : Int} {p : ProcessInfo}
  {mem : Bytes} {w : Nat → Option UInt8}

theorem frame_div {f o ps : Nat} (ho : o < ps) : (f * ps + o) / ps = f :=
  Nat.div_eq_of_lt_le (by omega) (by rw [Nat.succ_mul]; omega)

/-- In the frames of a resident process the user space that is meant stays. -/
theorem Sound.relocated_eq (h : Sound cfg s)
    (hfind : processManagerFindProcess s.processes pid = some p) {f o : Nat} (hf : f ∈ residentFrames p)
    (ho : o < cfg.tamPagina) :
    relocated cfg s s' mem (f * cfg.tamPagina + o) = mem (f * cfg.tamPagina + o) := by
  unfold relocated
  rw [frame_div ho, (h.taken hfind hf).2, if_pos rfl]

/-- The pages of a suspended process are kept in the swap file. -/
theorem Sound.kept (h : Sound cfg s) {slots : List Nat}
    (hfind : processManagerFindProcess s.processes pid = some p) (hsusp : p.isSuspended = true)
    (hslots : p.allocatedFrames = .obj slots) :
    Kept cfg pid slots (fun i o => s.swapFile.bytes (slots.getD i 0 * cfg.tamPagina + o)) s where
  framesTotal := h.tabled.total
  slotsTotal := h.held.total
  holds := h.held.holds
  record := ⟨p, hfind, hsusp, hslots⟩
  file i slot hslot o ho := by simp [List.getD_eq_getElem?_getD, hslot]

/-- A process whose record stays keeps its bytes. -/
theorem Stores.keep (hs : Stores cfg s mem pid w) (h : Sound cfg s) (hfit : SlotsFit cfg)
    (hst : handle cfg s r = some (s', reply))
    (hsame : processManagerFindProcess s'.processes pid = processManagerFindProcess s.processes pid) :
    Stores cfg s' (relocated cfg s s' mem) pid w := by
  intro p fs hfind hfs i f hf o ho v hv
  rw [hsame] at hfind
  have hbyte := hs p fs hfind hfs i f hf o ho v hv
  cases hsusp : p.isSuspended with
  | true =>
    rw [storeOf, hsusp, if_pos rfl] at hbyte ⊢
    rw [(h.kept hfind hsusp hfs).file_step hfit hst i f hf o ho, ← hbyte]
    simp [List.getD_eq_getElem?_getD, hf]
  | false =>
    have hmem : f ∈ residentFrames p := by
      rw [residentFrames_of_obj hsusp hfs]
      exact List.mem_of_getElem? hf
    rw [storeOf, hsusp] at hbyte ⊢
    exact (h.relocated_eq hfind hmem ho).trans hbyte

/-- A process that is suspended takes its bytes along. -/
theorem Stores.swap (hs : Stores cfg s mem pid w) (h : Sound cfg s) (hfit : SlotsFit cfg)
    {written : Nat → Nat} (hst : handle cfg s (.swap pid written) = some (s', reply))
    (hmem : ∀ p, processManagerFindProcess s.processes pid = some p → ∀ f ∈ residentFrames p,
      ∀ o < cfg.tamPagina, mem (f * cfg.tamPagina + o) = s.userSpace (f * cfg.tamPagina + o)) :
    Stores cfg s' (relocated cfg s s' mem) pid w := by
  obtain ⟨⟨s1, b⟩, hswap, heq⟩ := Option.map_eq_some_iff.mp hst
  obtain ⟨rfl, -⟩ := Prod.mk.inj heq
  rcases swapOutProcess_exits hswap with ⟨rfl, -⟩ | ⟨q, hfind, -, hnull, rfl, -⟩ |
    ⟨_, _, _, swapFrames, -, -, -, -, -, rfl, -⟩ | ⟨_, _, _, swapFrames, file, -, -, -, -, -, -, rfl, -⟩ |
    ⟨q, fs, slots, frames, swapFrames, file, hfind, hres, hfs, halloc, hlen, hloop, hrel, hs', rfl⟩
  · exact hs.keep h hfit hst rfl
  · -- a process without frames has no bytes
    intro p fs hp hfs
    have hupd := find_updateProcess (f := fun p => { p with isSuspended := true }) (fun _ => rfl) pid pid
      s.processes
    rw [if_pos rfl, hfind] at hupd
    obtain rfl := Option.some.inj (hp.symm.trans hupd)
    exact absurd (hnull.symm.trans hfs) (by simp)
  · exact hs.keep h hfit hst rfl
  · exact hs.keep h hfit hst rfl
  · have hlt : ∀ f ∈ fs, f < cfg.framesTotal := fun f hf =>
      (h.taken hfind (by rwa [residentFrames_of_obj hres hfs])).1
    obtain ⟨slots', hlength, hkept⟩ := kept_of_swapOut hfit h.tabled.total hlt h.held hfind hres hfs hswap
    obtain ⟨q', hfind', hsusp', hslots'⟩ := hkept.record
    intro p fs' hp hfs' i slot hslot o ho v hv
    obtain rfl := Option.some.inj (hfind'.symm.trans hp)
    obtain rfl : slots' = fs' := by simpa [hslots'] using hfs'
    have hi : i < fs.length := hlength ▸ (List.getElem?_eq_some_iff.mp hslot).1
    have hf : fs[i]? = some fs[i] := List.getElem?_eq_getElem hi
    have hbyte := hs q fs hfind hfs i fs[i] hf o ho v hv
    rw [storeOf, hres] at hbyte
    rw [storeOf, hsusp', if_pos rfl, hkept.file i slot hslot o ho, List.getD_eq_getElem _ _ hi, ← hbyte]
    refine (hmem q hfind fs[i] ?_ o ho).symm
    rw [residentFrames_of_obj hres hfs]
    exact List.getElem_mem hi

/-- A process that is resumed brings its bytes back. -/
theorem Stores.unsuspend (hs : Stores cfg s mem pid w) (h : Sound cfg s) (hfit : SlotsFit cfg)
    {avail : Nat → Nat} (hst : handle cfg s (.unsuspendProcess pid avail) = some (s', reply)) :
    Stores cfg s' (relocated cfg s s' mem) pid w := by
  obtain ⟨⟨s1, b⟩, hswap, heq⟩ := Option.map_eq_some_iff.mp hst
  obtain ⟨rfl, -⟩ := Prod.mk.inj heq
  rcases swapInProcess_cases hswap with ⟨rfl, -⟩ | ⟨q, hfind, -, hnone, rfl, -⟩ |
    ⟨_, _, _, frames, -, -, -, -, rfl, -⟩ | ⟨_, _, _, frames, frames', m, -, -, -, -, -, rfl, -⟩ |
    ⟨q, slots, userFrames, frames, swapFrames, m, hfind, hsusp, hslots, -, -, -, -, -, -, rfl⟩
  · exact hs.keep h hfit hst rfl
  · -- a process without slots has no bytes
    intro p fs hp hfs i f hf
    have hupd := find_updateProcess (f := fun p => { p with isSuspended := false }) (fun _ => rfl) pid pid
      s.processes
    rw [if_pos rfl, hfind] at hupd
    obtain rfl := Option.some.inj (hp.symm.trans hupd)
    rcases hnone with hnull | hnil
    · exact absurd (hnull.symm.trans hfs) (by simp)
    · obtain rfl : [] = fs := by simpa [hnil] using hfs
      simp at hf
  · exact hs.keep h hfit hst rfl
  · exact hs.keep h hfit hst rfl
  · obtain ⟨p', fs', hfind', hres', hfs', hlength, hclear, hcontent⟩ :=
      (h.kept hfind hsusp hslots).resumed hfit hswap
    intro p fs hp hfs i f hf o ho v hv
    obtain rfl := Option.some.inj (hfind'.symm.trans hp)
    obtain rfl : fs' = fs := by simpa [hfs'] using hfs
    have hnew : s.frames.bit ((f * cfg.tamPagina + o) / cfg.tamPagina) = false := by
      rw [frame_div ho]
      exact hclear f (List.mem_of_getElem? hf)
    have hi : i < slots.length := hlength ▸ (List.getElem?_eq_some_iff.mp hf).1
    have hbyte := hs q slots hfind hslots i slots[i] (List.getElem?_eq_getElem hi) o ho v hv
    rw [storeOf, hsusp, if_pos rfl] at hbyte
    simp only [storeOf, hres', relocated, hnew, Bool.false_eq_true, ↓reduceIte]
    rw [hcontent i f hf o ho, List.getD_eq_getElem _ _ hi, hbyte]

/-- **Every careful request of the kernel keeps the bytes of the processes**, if the user space that is
meant is the one that there is in the frames of a process that is suspended. -/
theorem stores_step (hs : Stores cfg s mem pid w) (h : Sound cfg s) (hfit : SlotsFit cfg)
    (hc : Careful cfg s r) (hst : handle cfg s r = some (s', reply))
    (hfind : processManagerFindProcess s.processes pid = some p)
    (hmem : ∀ written, r = .swap pid written → ∀ f ∈ residentFrames p, ∀ o < cfg.tamPagina,
      mem (f * cfg.tamPagina + o) = s.userSpace (f * cfg.tamPagina + o)) :
    Stores cfg s' (relocated cfg s s' mem) pid w := by
  by_cases hpid : r.pid? = some pid
  · cases r with
    | initProcess q size file left =>
      obtain rfl : q = pid := by simpa [Request.pid?] using hpid
      exact absurd (hfind.symm.trans (hc.fresh q size file left rfl)) (by simp)
    | killProcess q =>
      obtain rfl : q = pid := by simpa [Request.pid?] using hpid
      obtain ⟨⟨s1, b⟩, hd, heq⟩ := Option.map_eq_some_iff.mp hst
      obtain ⟨rfl, -⟩ := Prod.mk.inj heq
      have hgone := find_eraseP_self h.pids q
      rcases deleteProcess_cases hd with ⟨hnone, -⟩ | ⟨_, -, -, rfl, -⟩ | ⟨_, _, frames, -, -, -, -, rfl, -⟩
      · exact absurd (hfind.symm.trans hnone) (by simp)
      · exact fun p' fs' hp' => absurd (hgone.symm.trans hp') (by simp)
      · exact fun p' fs' hp' => absurd (hgone.symm.trans hp') (by simp)
    | swap q written =>
      obtain rfl : q = pid := by simpa [Request.pid?] using hpid
      refine hs.swap h hfit hst ?_
      intro p' hp'
      obtain rfl := Option.some.inj (hfind.symm.trans hp')
      exact hmem written rfl
    | unsuspendProcess q avail =>
      obtain rfl : q = pid := by simpa [Request.pid?] using hpid
      exact hs.unsuspend h hfit hst
    | readMemory a n => exact absurd hpid (by simp [Request.pid?])
    | writeMemory a d => exact absurd hpid (by simp [Request.pid?])
  · exact hs.keep h hfit hst (handle_find_of_ne hst hpid)

end Stores

end Tpso.Memoria
