/-
# When the caches of several CPUs are coherent

The user space that there is, overlaid with what all caches keep back, is the user space that is MEANT, and
there every process has what it last wrote (`Meant`).  A process whose pages no cache keeps back then has it
in memoria as well.  The rest is about who keeps back what: a CPU keeps back pages of the process that it has
and of no other, nothing when it has none, and no two CPUs are at work for one process (`Turns`).

Every step keeps both (`turns_cpu`, `meant_cpu`, `turns_request`, `meant_request`) as long as the kernel waits
for the write-back before it sends a process to another CPU, and no turn ends with modified entries.
-/
import Tpso.System.Cluster

namespace Tpso.Coherence

open Tpso.Lib Tpso.Cpu
open Tpso.Memoria (pageEntries processManagerFindProcess handle residentFrames)

/-! ## 1. The invariant -/

/-- Numbers of memoria's configuration that do not overflow an `int`. -/
structure Sizes (cfg : Memoria.Config) : Prop where
  entries : 1 ≤ cfg.entradasPorTabla
  levels : cfg.cantidadNiveles < 2 ^ 31
  pages : cfg.entradasPorTabla ^ cfg.cantidadNiveles < 2 ^ 31
  slots : Memoria.SlotsFit cfg

section Invariant

variable {κ : Type} (cl : Cluster κ) (M : Machine κ)

/-- The answers remembered. -/
def Machine.remembered : PageEntries := fun pid => (M.history pid).getD fun _ _ => none

/-- Where a page starts in the user space, whichever CPU asks. -/
def Machine.base : Int → Int → Nat := frameBase ⟨cl.memoria, 0, .fifo, 0, .clock⟩ M.remembered

/-- What the caches keep back. -/
def Machine.patches (k : κ × Nat) : Patch Nat UInt8 := patchAt (M.base cl) (M.cpus k.1).mmu.cache k.2

/-- The page is one of a resident process. -/
def ResidentPage (pid page : Int) : Prop :=
  ∃ p, processManagerFindProcess M.memoria.processes pid = some p ∧ p.isSuspended = false ∧ 0 ≤ page ∧
    page < cl.memoria.pagesNeeded p.processSize

/-- **Who keeps back what.** -/
structure Turns : Prop where
  own : ∀ c, ∀ e ∈ (M.cpus c).mmu.cache.entries, e.Dirty →
    e.pid = (M.cpus c).pid ∧ ResidentPage cl M e.pid e.page
  idle : ∀ c, (M.cpus c).phase.busy = false → CacheClean M c
  works : ∀ c, (M.cpus c).phase.mayAccess = true → Memoria.Loaded M.memoria (M.cpus c).pid
  alone : ∀ c c', c ≠ c' → AtWork M c → AtWork M c' → (M.cpus c).pid ≠ (M.cpus c').pid
  fresh : ∀ c, M.fresh c = true → CacheClean M c

/-- **The user space that is meant**: every process has what it last wrote. -/
structure Meant (ref : Bytes) : Prop where
  sound : Memoria.Sound cl.memoria M.memoria
  answers : ∀ p ∈ M.memoria.processes, M.history p.pid = some (pageEntries M.memoria p.pid)
  mmu : ∀ c, MmuOk (cl.cpu c) M.remembered (M.base cl) (M.cpus c).mmu
  overlaid : Overlaid M.memoria.userSpace (M.patches cl) ref
  stores : ∀ pid, Memoria.Stores cl.memoria M.memoria ref pid (M.last pid)
  inside : ∀ pid p x v, processManagerFindProcess M.memoria.processes pid = some p →
    M.last pid x = some v →
    ((x / cl.memoria.tamPagina : Nat) : Int) < cl.memoria.pagesNeeded p.processSize
  forgotten : ∀ pid, M.history pid = none → ∀ x, M.last pid x = none

end Invariant

/-! ## 2. The bytes of an access -/

section Bytes

variable {cfg : Cpu.Config} {base : Int → Int → Nat} {pid : Int} {a : Access} {w : Nat → Option UInt8}
  {ref ref' : Bytes} {o : Nat}

/-- An access writes to addresses of its page only. -/
theorem wroteBytes_else (hin : a.InsidePage cfg) {i : Nat} (ho : o < cfg.pageSize)
    (hi : i ≠ (pageOf cfg a.logicDir).toNat) :
    wroteBytes w a (i * cfg.pageSize + o) = w (i * cfg.pageSize + o) := by
  cases a with
  | read logicDir size => rfl
  | write logicDir value =>
    simp only [wroteBytes]
    refine if_neg ?_
    rintro ⟨hdir, hlo, hhi⟩
    have hfit := InPage.write_fits hin
    rw [toNat_eq_page cfg hdir] at hlo hhi
    have hstart : (pageOf cfg logicDir).toNat * cfg.pageSize ≤ i * cfg.pageSize + o := by omega
    have hend : i * cfg.pageSize + o < (pageOf cfg logicDir).toNat * cfg.pageSize + cfg.pageSize := by
      omega
    exact hi (Memoria.frame_eq_of_mem (Nat.le_add_right _ o) (Nat.add_lt_add_left ho _) hstart hend)

/-- ... and to bytes of its frame only. -/
theorem directMemory_else (hin : a.InsidePage cfg) {x : Nat}
    (hx : ¬ (base pid (pageOf cfg a.logicDir) ≤ x ∧
      x < base pid (pageOf cfg a.logicDir) + cfg.pageSize)) :
    directMemory cfg base pid ref a x = ref x := by
  cases a with
  | read logicDir size => rfl
  | write logicDir value =>
    have hfit := InPage.write_fits hin
    refine Bytes.blit_of_not_mem ?_
    rintro ⟨hlo, hhi⟩
    exact hx ⟨by simp only [Access.logicDir]; omega, by simp only [Access.logicDir]; omega⟩

/-- In its page it leaves what was written last. -/
theorem directMemory_wrote (hin : a.InsidePage cfg) {v : UInt8}
    (hv : wroteBytes w a ((pageOf cfg a.logicDir).toNat * cfg.pageSize + o) = some v)
    (hold : w ((pageOf cfg a.logicDir).toNat * cfg.pageSize + o) = some v →
      ref (base pid (pageOf cfg a.logicDir) + o) = v) :
    directMemory cfg base pid ref a (base pid (pageOf cfg a.logicDir) + o) = v := by
  cases a with
  | read logicDir size => exact hold hv
  | write logicDir value =>
    have hdir : 0 ≤ logicDir := hin.1
    have haddr := toNat_eq_page cfg hdir
    simp only [Access.logicDir] at hv hold ⊢
    simp only [wroteBytes, hdir, true_and] at hv
    simp only [directMemory]
    by_cases hw : (offsetOf cfg logicDir).toNat ≤ o ∧ o < (offsetOf cfg logicDir).toNat + value.length
    · rw [if_pos ⟨by omega, by omega⟩] at hv
      rw [Bytes.blit_of_mem (by omega) (by omega)]
      have hindex : (pageOf cfg logicDir).toNat * cfg.pageSize + o - logicDir.toNat =
          base pid (pageOf cfg logicDir) + o -
            (base pid (pageOf cfg logicDir) + (offsetOf cfg logicDir).toNat) := by omega
      rw [hindex] at hv
      simp only [List.getD_eq_getElem?_getD, hv, Option.getD_some]
    · rw [if_neg (by omega)] at hv
      rw [Bytes.blit_of_not_mem (by omega)]
      exact hold hv

/-- With the gap that it closes as well, if that has what was written before. -/
theorem meant_wrote {c : Cache} {v : UInt8} (hin : a.InsidePage cfg)
    (hgap : ∀ x v v', GapByte cfg (fun _ page => page.toNat * cfg.pageSize) pid c a x v → w x = some v' →
      v = v')
    (hmeant : ∀ x, ref' x = directMemory cfg base pid ref a x ∨ GapByte cfg base pid c a x (ref' x))
    (hv : wroteBytes w a ((pageOf cfg a.logicDir).toNat * cfg.pageSize + o) = some v)
    (hold : w ((pageOf cfg a.logicDir).toNat * cfg.pageSize + o) = some v →
      ref (base pid (pageOf cfg a.logicDir) + o) = v) :
    ref' (base pid (pageOf cfg a.logicDir) + o) = v := by
  rcases hmeant (base pid (pageOf cfg a.logicDir) + o) with heq | hbyte
  · rw [heq]
    exact directMemory_wrote hin hv hold
  · obtain ⟨logicDir, value, e, o', rfl, he, hvalid, hmod, hpage, hinGap, ho', hx, hcontent⟩ := hbyte
    simp only [Access.logicDir] at hv hold hx hcontent ⊢
    obtain rfl : o = o' := by omega
    rw [hcontent]
    refine hgap ((pageOf cfg logicDir).toNat * cfg.pageSize + o) (e.content o) v
      ⟨logicDir, value, e, o, rfl, he, hvalid, hmod, hpage, hinGap, ho', rfl, rfl⟩ ?_
    -- the byte is none of those written now
    have hdir : 0 ≤ logicDir := hin.1
    have haddr := toNat_eq_page cfg hdir
    have hnot := hinGap.2.2.2
    simp only [wroteBytes, hdir, true_and] at hv
    rwa [if_neg (by omega)] at hv

/-- Outside its frame nothing changes. -/
theorem meant_else {c : Cache} (hin : a.InsidePage cfg)
    (hmeant : ∀ x, ref' x = directMemory cfg base pid ref a x ∨ GapByte cfg base pid c a x (ref' x))
    {x : Nat} (hx : ¬ (base pid (pageOf cfg a.logicDir) ≤ x ∧
      x < base pid (pageOf cfg a.logicDir) + cfg.pageSize)) : ref' x = ref x := by
  rcases hmeant x with heq | ⟨logicDir, value, e, o, rfl, -, -, -, -, -, ho, rfl, -⟩
  · rw [heq]
    exact directMemory_else hin hx
  · exact absurd ⟨Nat.le_add_right _ _, Nat.add_lt_add_left ho _⟩ hx

end Bytes

/-! ## 3. Where the pages are -/

section Pages

variable {κ : Type} {cl : Cluster κ} {M : Machine κ} {ref : Bytes} {pid page : Int}

theorem Cluster.pageSize_eq (cl : Cluster κ) (c : κ) : (cl.cpu c).pageSize = cl.memoria.tamPagina := by
  unfold Config.pageSize
  rw [cl.shared]

/-- A page of a resident process: the record, its frames, and the frame of the page. -/
structure Located (cl : Cluster κ) (M : Machine κ) (pid page : Int) (p : Memoria.ProcessInfo)
    (fs : List Nat) (f : Nat) : Prop where
  find : processManagerFindProcess M.memoria.processes pid = some p
  resident : p.isSuspended = false
  frames : p.allocatedFrames = .obj fs
  nonneg : 0 ≤ page
  get : fs[page.toNat]? = some f
  walk : ∀ cfg : Cpu.Config, cfg.memoria = cl.memoria →
    mmuPerformPageWalk cfg (pageEntries M.memoria) page pid = some (f : Int)
  remembered : M.remembered pid = pageEntries M.memoria pid

/-- What is remembered of a process that has a record is what memoria answers now. -/
theorem Meant.remembered (h : Meant cl M ref) {p : Memoria.ProcessInfo}
    (hfind : processManagerFindProcess M.memoria.processes pid = some p) :
    M.remembered pid = pageEntries M.memoria pid := by
  have hpid : p.pid = pid := by simpa using List.find?_some hfind
  have hans := h.answers p (Memoria.mem_of_find hfind)
  rw [hpid] at hans
  simp [Machine.remembered, hans]

theorem Meant.located (hz : Sizes cl.memoria) (h : Meant cl M ref) (hpage : ResidentPage cl M pid page) :
    ∃ p fs f, Located cl M pid page p fs f := by
  obtain ⟨p, hfind, hres, h0, hlt⟩ := hpage
  obtain ⟨i, rfl⟩ := Int.eq_ofNat_of_zero_le h0
  have hsize : p.processSize ≠ 0 := by
    intro hzero
    have hpages : cl.memoria.pagesNeeded 0 = 0 := Memoria.pagesNeeded_zero cl.memoria
    rw [hzero, hpages] at hlt
    omega
  have hmem := Memoria.mem_of_find hfind
  have hpos := (h.sound.shaped.sized p hmem hsize).1
  obtain ⟨t, fs, ht, hfs, hagree⟩ := h.sound.agree p hmem hpos hres
  obtain ⟨f, hf, hfollow⟩ := hagree i hlt
  refine ⟨p, fs, f, hfind, hres, hfs, h0, hf, ?_, h.remembered hfind⟩
  intro cfg hcfg
  obtain ⟨t', fs', ht'⟩ := h.sound.tabled.tabled p hmem hsize
  obtain rfl : t = t' := by simpa [ht] using ht'.table
  rw [← hcfg] at ht'
  rw [walk_of_tabled (by rw [hcfg]; exact hz.entries) (by rw [hcfg]; exact hz.levels)
    (by rw [hcfg]; exact hz.pages) hfind ht', hcfg]
  exact hfollow

variable {p p' : Memoria.ProcessInfo} {fs fs' : List Nat} {f : Nat}

theorem Located.walk_remembered (l : Located cl M pid page p fs f) {cfg : Cpu.Config}
    (hcfg : cfg.memoria = cl.memoria) :
    mmuPerformPageWalk cfg M.remembered page pid = some (f : Int) :=
  (mmuPerformPageWalk_congr l.remembered page).trans (l.walk cfg hcfg)

/-- The page starts where its frame does. -/
theorem Located.base_eq (l : Located cl M pid page p fs f) :
    M.base cl pid page = f * cl.memoria.tamPagina := by
  unfold Machine.base frameBase
  rw [l.walk_remembered rfl, Option.getD_some, Int.toNat_natCast]
  rfl

theorem Located.mem (l : Located cl M pid page p fs f) : f ∈ residentFrames p := by
  rw [Memoria.residentFrames_of_obj l.resident l.frames]
  exact List.mem_of_getElem? l.get

theorem Located.placed (l : Located cl M pid page p fs f) (h : Meant cl M ref) (c : κ) :
    Placed (cl.cpu c) M.remembered (M.base cl) pid page := by
  refine ⟨f, l.walk_remembered (cl.shared c), ?_, ?_⟩
  · rw [cl.shared]
    exact (h.sound.taken l.find l.mem).1
  · rw [l.base_eq, cl.pageSize_eq]

/-- **A frame belongs to one page of one process.** -/
theorem Located.unique (l : Located cl M pid page p fs f) (h : Meant cl M ref) {pid' : Int} {i : Nat}
    (hfind : processManagerFindProcess M.memoria.processes pid' = some p') (hres : p'.isSuspended = false)
    (hfs : p'.allocatedFrames = .obj fs') (hget : fs'[i]? = some f) : pid' = pid ∧ i = page.toNat := by
  have hmem : f ∈ residentFrames p' := by
    rw [Memoria.residentFrames_of_obj hres hfs]
    exact List.mem_of_getElem? hget
  obtain rfl : pid' = pid := h.sound.owner hfind l.find hmem l.mem
  obtain rfl : p' = p := Option.some.inj (hfind.symm.trans l.find)
  obtain rfl : fs' = fs := by simpa [hfs] using l.frames
  refine ⟨rfl, ?_⟩
  have hnd := (List.nodup_flatMap.mp h.sound.owns.nodup).1 p' (Memoria.mem_of_find hfind)
  rw [Memoria.residentFrames_of_obj hres hfs] at hnd
  exact (List.getElem?_inj (List.getElem?_eq_some_iff.mp hget).1 hnd).mp (hget.trans l.get.symm)

/-- A patch speaks about the page of a modified entry. -/
theorem Meant.patch_mem (h : Meant cl M ref) {k : κ × Nat} {x : Nat} (hx : (M.patches cl k).dom x) :
    ∃ e, (M.cpus k.1).mmu.cache.entries[k.2]? = some e ∧ e.Dirty ∧ M.base cl e.pid e.page ≤ x ∧
      x < M.base cl e.pid e.page + cl.memoria.tamPagina := by
  obtain ⟨e, he, hvalid, hmod, hlo, hhi⟩ := patchAt_mem (h.mmu k.1) hx
  rw [cl.pageSize_eq] at hhi
  exact ⟨e, he, ⟨hvalid, hmod⟩, hlo, hhi⟩

/-- **What a cache keeps back in the frame of a page is from that page.** -/
theorem Meant.apart (hz : Sizes cl.memoria) (h : Meant cl M ref) (ht : Turns cl M)
    (l : Located cl M pid page p fs f) {k : κ × Nat} {x : Nat} (hx : (M.patches cl k).dom x)
    (hlo : M.base cl pid page ≤ x) (hhi : x < M.base cl pid page + cl.memoria.tamPagina) :
    ∃ e, (M.cpus k.1).mmu.cache.entries[k.2]? = some e ∧ e.Dirty ∧ e.pid = pid ∧ e.page = page := by
  obtain ⟨e, he, hdirty, hlo', hhi'⟩ := h.patch_mem hx
  obtain ⟨p', fs', f', l'⟩ := h.located hz (ht.own k.1 e (List.mem_of_getElem? he) hdirty).2
  rw [l.base_eq] at hlo hhi
  rw [l'.base_eq] at hlo' hhi'
  obtain rfl : f' = f := Memoria.frame_eq_of_mem hlo' hhi' hlo hhi
  obtain ⟨hpid, hpages⟩ := l.unique h l'.find l'.resident l'.frames l'.get
  refine ⟨e, he, hdirty, hpid, ?_⟩
  have h0 := l.nonneg
  have h0' := l'.nonneg
  omega

/-- memoria answers for the processes with modified entries what the MMUs were built on. -/
theorem Meant.sameForDirty (h : Meant cl M ref) (ht : Turns cl M) (c : κ) :
    SameForDirty M.remembered (pageEntries M.memoria) (M.cpus c).mmu.cache := by
  intro e he hvalid hmod
  obtain ⟨-, p, hfind, -⟩ := ht.own c e he ⟨hvalid, hmod⟩
  exact (h.remembered hfind).symm

/-- A page that is accessed in a step that meets the condition. -/
theorem OwnAccess.residentPage {c : κ} {a : Access} (hown : OwnAccess cl M c a) (ht : Turns cl M)
    (hphase : (M.cpus c).phase = .fetching) :
    ResidentPage cl M (M.cpus c).pid (pageOf (cl.cpu c) a.logicDir) := by
  obtain ⟨p, hfind, hres⟩ := ht.works c (by rw [hphase]; rfl)
  obtain ⟨p', hfind', hlt⟩ := hown.mapped
  obtain rfl : p = p' := Option.some.inj (hfind.symm.trans hfind')
  refine ⟨p, hfind, hres, (pageOf_offsetOf (cl.cpu c) ?_).1, hlt⟩
  cases a with
  | read logicDir size => exact hown.inside
  | write logicDir value => exact hown.inside.1

/-- The user space that is meant has what was last written, after an access as well. -/
theorem Meant.stores_access {c : κ} {a : Access} {ref' : Bytes} (h : Meant cl M ref) (hown : OwnAccess cl M c a)
    (l : Located cl M (M.cpus c).pid (pageOf (cl.cpu c) a.logicDir) p fs f)
    (hmeant : ∀ x, ref' x = directMemory (cl.cpu c) (M.base cl) (M.cpus c).pid ref a x ∨
      GapByte (cl.cpu c) (M.base cl) (M.cpus c).pid (M.cpus c).mmu.cache a x (ref' x)) (pid : Int) :
    Memoria.Stores cl.memoria M.memoria ref' pid
      (Function.update M.last (M.cpus c).pid (wroteBytes (M.last (M.cpus c).pid) a) pid) := by
  have hps := cl.pageSize_eq c
  intro p' fs' hfind' hfs' i f' hf' o ho v hv
  have hold := h.stores pid p' fs' hfind' hfs' i f' hf' o ho
  cases hsusp : p'.isSuspended with
  | true =>
    -- the process is not the one that accesses
    have hne : pid ≠ (M.cpus c).pid := by
      rintro rfl
      obtain rfl : p' = p := Option.some.inj (hfind'.symm.trans l.find)
      exact absurd (hsusp.symm.trans l.resident) (by simp)
    rw [Function.update_of_ne hne] at hv
    have hbyte := hold v hv
    rw [Memoria.storeOf, hsusp, if_pos rfl] at hbyte ⊢
    exact hbyte
  | false =>
    rw [Memoria.storeOf, hsusp] at hold ⊢
    simp only [Bool.false_eq_true, ↓reduceIte] at hold ⊢
    by_cases hframe : f' = f
    · -- the frame of the page
      subst hframe
      obtain ⟨rfl, rfl⟩ := l.unique h hfind' hsusp hfs' hf'
      rw [Function.update_self, ← hps] at hv
      rw [← l.base_eq, ← hps] at hold
      rw [← l.base_eq]
      refine meant_wrote hown.inside ?_ hmeant hv (hold v)
      rw [hps]
      exact hown.gap
    · have hbase := l.base_eq
      have helse : ref' (f' * cl.memoria.tamPagina + o) = ref (f' * cl.memoria.tamPagina + o) := by
        refine meant_else hown.inside hmeant ?_
        rw [hbase, hps]
        rintro ⟨hlo, hhi⟩
        exact hframe (Memoria.frame_eq_of_mem (Nat.le_add_right _ o) (Nat.add_lt_add_left ho _) hlo hhi)
      rw [helse]
      refine hold v ?_
      by_cases hpid : pid = (M.cpus c).pid
      · -- another page of the process
        subst hpid
        obtain rfl : p' = p := Option.some.inj (hfind'.symm.trans l.find)
        obtain rfl : fs' = fs := by simpa [hfs'] using l.frames
        have hi : i ≠ (pageOf (cl.cpu c) a.logicDir).toNat := by
          rintro rfl
          exact hframe (Option.some.inj (hf'.symm.trans l.get))
        rw [Function.update_self, ← hps, wroteBytes_else hown.inside (by rw [hps]; exact ho) hi, hps] at hv
        exact hv
      · rwa [Function.update_of_ne hpid] at hv

/-- What a process wrote lies in its pages, after an access as well. -/
theorem Meant.inside_access {c : κ} {a : Access} (h : Meant cl M ref) (hown : OwnAccess cl M c a)
    (hres : ResidentPage cl M (M.cpus c).pid (pageOf (cl.cpu c) a.logicDir)) (pid : Int)
    (p : Memoria.ProcessInfo) (x : Nat) (v : UInt8)
    (hfind : processManagerFindProcess M.memoria.processes pid = some p)
    (hv : Function.update M.last (M.cpus c).pid (wroteBytes (M.last (M.cpus c).pid) a) pid x = some v) :
    ((x / cl.memoria.tamPagina : Nat) : Int) < cl.memoria.pagesNeeded p.processSize := by
  by_cases hpid : pid = (M.cpus c).pid
  · subst hpid
    rw [Function.update_self] at hv
    obtain ⟨p', hfind', -, h0, hlt⟩ := hres
    obtain rfl : p = p' := Option.some.inj (hfind.symm.trans hfind')
    by_cases hi : x / cl.memoria.tamPagina = (pageOf (cl.cpu c) a.logicDir).toNat
    · rw [hi]
      omega
    · have hps := cl.pageSize_eq c
      have hmod : x % (cl.cpu c).pageSize < (cl.cpu c).pageSize :=
        Nat.mod_lt x (cl.cpu c).memoria.tamPagina_pos
      rw [← hps] at hi
      have helse := wroteBytes_else (w := M.last (M.cpus c).pid) hown.inside hmod hi
      rw [Nat.div_add_mod' x] at helse
      exact h.inside _ p x v hfind (helse.symm.trans hv)
  · rw [Function.update_of_ne hpid] at hv
    exact h.inside pid p x v hfind hv

/-- A process that never was has written nothing, after an access as well: the one that accesses is another. -/
theorem Meant.forgotten_access {c : κ} {a : Access} (h : Meant cl M ref)
    (hfind : processManagerFindProcess M.memoria.processes (M.cpus c).pid = some p) (pid : Int)
    (hnone : M.history pid = none) (x : Nat) :
    Function.update M.last (M.cpus c).pid (wroteBytes (M.last (M.cpus c).pid) a) pid x = none := by
  have hpid : pid ≠ (M.cpus c).pid := by
    rintro rfl
    have hans := h.answers p (Memoria.mem_of_find hfind)
    have hp : p.pid = (M.cpus c).pid := by simpa using List.find?_some hfind
    rw [hp, hnone] at hans
    exact absurd hans (by simp)
  rw [Function.update_of_ne hpid]
  exact h.forgotten pid hnone x

/-- No other CPU keeps back anything in the frame of a page of the process that a CPU executes. -/
theorem Meant.apart_access {c : κ} {a : Access} (hz : Sizes cl.memoria) (h : Meant cl M ref) (ht : Turns cl M)
    (hphase : (M.cpus c).phase = .fetching)
    (l : Located cl M (M.cpus c).pid (pageOf (cl.cpu c) a.logicDir) p fs f) (k : κ × Nat) (x : Nat)
    (hx : (M.patches cl k).dom x) (hlo : M.base cl (M.cpus c).pid (pageOf (cl.cpu c) a.logicDir) ≤ x)
    (hhi : x < M.base cl (M.cpus c).pid (pageOf (cl.cpu c) a.logicDir) + (cl.cpu c).pageSize) :
    ∃ j e, k = (c, j) ∧ (M.cpus c).mmu.cache.entries[j]? = some e ∧ e.isValid = true ∧
      e.page = pageOf (cl.cpu c) a.logicDir := by
  rw [cl.pageSize_eq c] at hhi
  obtain ⟨e, he, hdirty, hpid, hpage⟩ := h.apart hz ht l hx hlo hhi
  have hk : k.1 = c := by
    by_contra hne
    refine ht.alone k.1 c hne (Or.inr ⟨e, List.mem_of_getElem? he, hdirty⟩) (Or.inl (by rw [hphase]; rfl)) ?_
    rw [← hpid]
    exact (ht.own k.1 e (List.mem_of_getElem? he) hdirty).1.symm
  obtain ⟨c', j⟩ := k
  obtain rfl : c' = c := hk
  exact ⟨j, e, rfl, he, hdirty.1, hpage⟩

end Pages

/-! ## 4. A step of a CPU keeps the turns -/

section Cpu

variable {κ : Type} {cl : Cluster κ} {M : Machine κ} {c : κ} {s' : CpuState} {ev : CpuEvent}
  {mem' : Bytes} {last' : Int → Nat → Option UInt8}

/-- The modified entries after a step: those from before, and those of the page that was accessed. -/
def DirtyFrom (cl : Cluster κ) (M : Machine κ) (c : κ) (ev : CpuEvent) (s' : CpuState) : Prop :=
  ∀ e' ∈ s'.mmu.cache.entries, e'.Dirty →
    (∃ e ∈ (M.cpus c).mmu.cache.entries, e.Dirty ∧ e.pid = e'.pid ∧ e.page = e'.page) ∨
    ((∃ a, ev = .execute (.access a)) ∧ (M.cpus c).phase = .fetching ∧ e'.pid = (M.cpus c).pid ∧
      ResidentPage cl M e'.pid e'.page)

/-- A step that is no access of a CPU without modified entries leaves none. -/
theorem DirtyFrom.clean (hdirty : DirtyFrom cl M c ev s') (hclean : CacheClean M c)
    (hev : ∀ a, ev = .execute (.access a) → (M.cpus c).phase ≠ .fetching) :
    ∀ e' ∈ s'.mmu.cache.entries, ¬ e'.Dirty := by
  intro e' he' hd
  rcases hdirty e' he' hd with ⟨e, he, hde, -⟩ | ⟨⟨a, ha⟩, hphase, -⟩
  · exact hclean e he hde
  · exact hev a ha hphase

/-- What holds of the CPU that moves. -/
structure TurnKept (cl : Cluster κ) (M : Machine κ) (c : κ) (ev : CpuEvent) (s' : CpuState) : Prop where
  own : ∀ e ∈ s'.mmu.cache.entries, e.Dirty → e.pid = s'.pid ∧ ResidentPage cl M e.pid e.page
  idle : s'.phase.busy = false → ∀ e ∈ s'.mmu.cache.entries, ¬ e.Dirty
  works : s'.phase.mayAccess = true → Memoria.Loaded M.memoria s'.pid
  alone : (s'.phase.mayAccess = true ∨ ∃ e ∈ s'.mmu.cache.entries, e.Dirty) →
    ∀ c', c' ≠ c → AtWork M c' → (M.cpus c').pid ≠ s'.pid
  fresh : freshAfter M c ev = true → ∀ e ∈ s'.mmu.cache.entries, ¬ e.Dirty

/-- A turn starts. -/
theorem TurnKept.starts {pid pc : Int} (ht : Turns cl M) (hc : Settled cl M (.cpu c (.dispatch pid pc)))
    (hwaiting : (M.cpus c).phase = .waiting) (hpid : s'.pid = pid)
    (hdirty : DirtyFrom cl M c (.dispatch pid pc) s') : TurnKept cl M c (.dispatch pid pc) s' := by
  have hclean : ∀ e ∈ s'.mmu.cache.entries, ¬ e.Dirty :=
    hdirty.clean (ht.idle c (by rw [hwaiting]; rfl)) (by simp)
  refine ⟨fun e he hd => absurd hd (hclean e he), fun _ => hclean, fun _ => hpid ▸ hc.1, ?_,
    fun _ => hclean⟩
  rw [hpid]
  exact fun _ => hc.2

/-- A turn goes on. -/
theorem TurnKept.goesOn (ht : Turns cl M) (hne : ∀ pid pc, ev ≠ .dispatch pid pc)
    (hpid : s'.pid = (M.cpus c).pid) (hbusy : s'.phase.busy = (M.cpus c).phase.busy)
    (hmay : s'.phase.mayAccess = true → (M.cpus c).phase.mayAccess = true)
    (hdirty : DirtyFrom cl M c ev s') : TurnKept cl M c ev s' := by
  refine ⟨?_, ?_, ?_, ?_, ?_⟩
  · intro e' he' hd
    rcases hdirty e' he' hd with ⟨e, he, hde, hp, hpage⟩ | ⟨-, -, hp, hres⟩
    · have hown := ht.own c e he hde
      rw [hp, hpage] at hown
      exact ⟨hown.1.trans hpid.symm, hown.2⟩
    · exact ⟨hp.trans hpid.symm, hres⟩
  · intro hb
    refine hdirty.clean (ht.idle c (hbusy ▸ hb)) fun a _ hphase => ?_
    rw [hbusy, hphase] at hb
    exact absurd hb (by simp [Phase.busy])
  · intro hm
    rw [hpid]
    exact ht.works c (hmay hm)
  · intro hwork c' hc' hwork'
    rw [hpid]
    refine (ht.alone c c' (Ne.symm hc') ?_ hwork').symm
    rcases hwork with hm | ⟨e', he', hd⟩
    · exact Or.inl (hmay hm)
    · rcases hdirty e' he' hd with ⟨e, he, hde, -⟩ | ⟨-, hphase, -⟩
      · exact Or.inr ⟨e, he, hde⟩
      · exact Or.inl (by rw [hphase]; rfl)
  · -- the process has executed nothing yet
    intro hf
    cases ev with
    | dispatch pid pc => exact absurd rfl (hne pid pc)
    | execute instruction => exact absurd hf (by simp [freshAfter])
    | noInstruction => exact absurd hf (by simp [freshAfter])
    | arrive | listen | handle | check | clean | handled =>
      exact hdirty.clean (ht.fresh c hf) (by simp)

/-- A turn ends. -/
theorem TurnKept.ends (hc : Settled cl M (.cpu c ev))
    (hev : ev = .noInstruction ∨ ev = .handled ∧ (M.cpus c).phase.mayAccess = false)
    (hbusy : s'.phase.busy = false) (hdirty : DirtyFrom cl M c ev s') : TurnKept cl M c ev s' := by
  have hclean : ∀ e ∈ s'.mmu.cache.entries, ¬ e.Dirty := by
    rcases hev with rfl | ⟨rfl, hmay⟩
    · exact hdirty.clean hc (by simp)
    · exact hdirty.clean (hc hmay) (by simp)
  have hmay : s'.phase.mayAccess ≠ true := fun hm =>
    absurd (hbusy.symm.trans (Phase.busy_of_mayAccess hm)) (by simp)
  refine ⟨fun e he hd => absurd hd (hclean e he), fun _ => hclean, fun hm => absurd hm hmay, ?_,
    fun _ => hclean⟩
  rintro (hm | ⟨e, he, hd⟩)
  · exact absurd hm hmay
  · exact absurd hd (hclean e he)

variable [DecidableEq κ]

/-- The machine after a step of a CPU. -/
def Machine.moved (M : Machine κ) (c : κ) (ev : CpuEvent) (s' : CpuState) (mem' : Bytes)
    (last' : Int → Nat → Option UInt8) : Machine κ :=
  { M with
    memoria := { M.memoria with userSpace := mem' }
    cpus := Function.update M.cpus c s'
    last := last'
    fresh := Function.update M.fresh c (freshAfter M c ev) }

theorem Machine.moved_self : (M.moved c ev s' mem' last').cpus c = s' := by
  simp [Machine.moved]

theorem Machine.moved_of_ne {c' : κ} (hne : c' ≠ c) :
    (M.moved c ev s' mem' last').cpus c' = M.cpus c' := by
  simp [Machine.moved, Function.update_of_ne hne]

/-- **A step of a CPU keeps the turns.** -/
theorem turns_cpu (ht : Turns cl M) (hc : Settled cl M (.cpu c ev)) (hmove : TurnMove (M.cpus c) s' ev)
    (hdirty : DirtyFrom cl M c ev s') : Turns cl (M.moved c ev s' mem' last') := by
  have hkept : TurnKept cl M c ev s' := by
    cases hmove with
    | starts pid pc hev hwaiting hpid hphase =>
      subst hev
      exact .starts ht hc hwaiting hpid hdirty
    | goesOn hne hpid hbusy hmay => exact .goesOn ht hne hpid hbusy hmay hdirty
    | ends hev hbusy => exact .ends hc hev hbusy hdirty
  have hself : (M.moved c ev s' mem' last').cpus c = s' := Machine.moved_self
  have hother : ∀ {c'}, c' ≠ c → (M.moved c ev s' mem' last').cpus c' = M.cpus c' := Machine.moved_of_ne
  have hwork : ∀ {c'}, c' ≠ c → AtWork (M.moved c ev s' mem' last') c' → AtWork M c' := by
    intro c' hne hw
    unfold AtWork at hw ⊢
    rwa [hother hne] at hw
  have hworkSelf : AtWork (M.moved c ev s' mem' last') c →
      s'.phase.mayAccess = true ∨ ∃ e ∈ s'.mmu.cache.entries, e.Dirty := by
    intro hw
    unfold AtWork at hw
    rwa [hself] at hw
  refine ⟨?_, ?_, ?_, ?_, ?_⟩
  · intro c' e he hd
    by_cases hne : c' = c
    · subst hne
      rw [hself] at he ⊢
      exact hkept.own e he hd
    · rw [hother hne] at he ⊢
      exact ht.own c' e he hd
  · intro c' hb
    unfold CacheClean
    by_cases hne : c' = c
    · subst hne
      rw [hself] at hb ⊢
      exact hkept.idle hb
    · rw [hother hne] at hb ⊢
      exact ht.idle c' hb
  · intro c' hm
    by_cases hne : c' = c
    · subst hne
      rw [hself] at hm ⊢
      exact hkept.works hm
    · rw [hother hne] at hm ⊢
      exact ht.works c' hm
  · intro c1 c2 hne hw1 hw2
    by_cases h1 : c1 = c
    · subst h1
      rw [hself, hother (Ne.symm hne)]
      exact (hkept.alone (hworkSelf hw1) c2 (Ne.symm hne) (hwork (Ne.symm hne) hw2)).symm
    · by_cases h2 : c2 = c
      · subst h2
        rw [hself, hother hne]
        exact hkept.alone (hworkSelf hw2) c1 hne (hwork hne hw1)
      · rw [hother h1, hother h2]
        exact ht.alone c1 c2 hne (hwork h1 hw1) (hwork h2 hw2)
  · intro c' hf
    unfold CacheClean
    by_cases hne : c' = c
    · subst hne
      rw [hself]
      exact hkept.fresh (by simpa [Machine.moved] using hf)
    · rw [hother hne]
      exact ht.fresh c' (by simpa [Machine.moved, Function.update_of_ne hne] using hf)

end Cpu

/-! ## 5. A step of a CPU keeps the user space that is meant -/

section Memory

variable {κ : Type} [DecidableEq κ] {cl : Cluster κ} {M : Machine κ} {ref ref' : Bytes} {c : κ}
  {s' : CpuState} {ev : CpuEvent} {mem' : Bytes} {last' : Int → Nat → Option UInt8}

/-- What the CPU keeps back after its step. -/
theorem moved_patches_self (j : Nat) :
    (M.moved c ev s' mem' last').patches cl (c, j) = patchAt (M.base cl) s'.mmu.cache j := by
  unfold Machine.patches
  rw [Machine.moved_self]
  rfl

/-- The other CPUs keep back what they did. -/
theorem moved_patches_other {k : κ × Nat} (hk : ∀ j, k ≠ (c, j)) :
    (M.moved c ev s' mem' last').patches cl k = M.patches cl k := by
  have hne : k.1 ≠ c := fun h => hk k.2 (by rw [← h])
  unfold Machine.patches
  rw [Machine.moved_of_ne hne]
  rfl

/-- memoria answers GET_PAGE_ENTRY as before. -/
theorem moved_pageEntries : pageEntries (M.moved c ev s' mem' last').memoria = pageEntries M.memoria :=
  funext fun _ => Memoria.pageEntries_congr rfl

/-- What has to be shown of the CPU that moves. -/
theorem Meant.moved (h : Meant cl M ref)
    (hmmu : MmuOk (cl.cpu c) M.remembered (M.base cl) s'.mmu)
    (hover : Overlaid mem' ((M.moved c ev s' mem' last').patches cl) ref')
    (hstores : ∀ pid, Memoria.Stores cl.memoria M.memoria ref' pid (last' pid))
    (hinside : ∀ pid p x v, processManagerFindProcess M.memoria.processes pid = some p →
      last' pid x = some v →
      ((x / cl.memoria.tamPagina : Nat) : Int) < cl.memoria.pagesNeeded p.processSize)
    (hforgotten : ∀ pid, M.history pid = none → ∀ x, last' pid x = none) :
    Meant cl (M.moved c ev s' mem' last') ref' where
  sound :=
    { shaped := ⟨h.sound.shaped.sized, h.sound.shaped.zero⟩
      tabled := ⟨h.sound.tabled.nextTableId, h.sound.tabled.total, h.sound.tabled.tabled⟩
      owns := h.sound.owns
      agree := h.sound.agree
      held := ⟨h.sound.held.total, h.sound.held.holds⟩
      pids := h.sound.pids }
  answers p hp := by
    rw [moved_pageEntries]
    exact h.answers p hp
  mmu c' := by
    by_cases hne : c' = c
    · subst hne
      rw [Machine.moved_self]
      exact hmmu
    · rw [Machine.moved_of_ne hne]
      exact h.mmu c'
  overlaid := hover
  stores := hstores
  inside := hinside
  forgotten := hforgotten

/-- A step that changes no patch. -/
theorem Meant.unchanged (h : Meant cl M ref) (hmmu : MmuOk (cl.cpu c) M.remembered (M.base cl) s'.mmu)
    (hpatch : ∀ j, patchAt (M.base cl) s'.mmu.cache j = patchAt (M.base cl) (M.cpus c).mmu.cache j) :
    Meant cl (M.moved c ev s' M.memoria.userSpace M.last) ref := by
  refine h.moved hmmu ?_ h.stores h.inside h.forgotten
  have hsame : (M.moved c ev s' M.memoria.userSpace M.last).patches cl = M.patches cl := by
    funext k
    by_cases hk : ∃ j, k = (c, j)
    · obtain ⟨j, rfl⟩ := hk
      rw [moved_patches_self]
      exact hpatch j
    · exact moved_patches_other fun j hj => hk ⟨j, hj⟩
  rw [hsame]
  exact h.overlaid

/-- The clean-up of an entry. -/
theorem Meant.cleaned (h : Meant cl M ref) (ht : Turns cl M) {i : Nat}
    (hclean : cleanEntry (cl.cpu c) (pageEntries M.memoria) (M.cpus c).mmu M.memoria.userSpace i =
      some (s'.mmu, mem')) :
    Meant cl (M.moved c ev s' mem' M.last) ref ∧ DirtyFrom cl M c ev s' := by
  obtain ⟨hmmu, hflushed, helse, e', hget, hinvalid⟩ :=
    cleanEntry_spec (h.mmu c) (h.sameForDirty ht c) hclean
  constructor
  · refine h.moved hmmu ?_ h.stores h.inside h.forgotten
    rw [family_eq (Prod.mk_right_injective c) (P := M.patches cl) (fun _ => rfl) moved_patches_self
      (fun k hk => moved_patches_other hk) helse]
    refine overlaid_flushed h.overlaid rfl hflushed ?_
    intro x hx
    rw [patchAt_of_getElem? _ hget] at hx
    exact absurd (hinvalid.symm.trans hx.1) (by simp)
  · intro e he hdirty
    obtain ⟨j, hj⟩ := List.getElem?_of_mem he
    by_cases hji : j = i
    · subst hji
      obtain rfl : e' = e := by simpa [hget] using hj
      exact absurd (hinvalid.symm.trans hdirty.1) (by simp)
    · exact Or.inl (helse.dirty hji hj hdirty)

/-- **An access of the process that the CPU has.** -/
theorem Meant.access (hz : Sizes cl.memoria) (h : Meant cl M ref) (ht : Turns cl M) {a : Access}
    {done : Bool} (hphase : (M.cpus c).phase = .fetching) (hown : OwnAccess cl M c a)
    (hexec : execution (cl.cpu c) (pageEntries M.memoria) (M.cpus c).pid (M.cpus c).mmu
      M.memoria.userSpace a = some (s'.mmu, mem', done)) :
    (∃ ref', Meant cl (M.moved c (.execute (.access a)) s' mem'
      (lastAfter cl M c (.execute (.access a)))) ref') ∧ DirtyFrom cl M c (.execute (.access a)) s' := by
  have hres := hown.residentPage ht hphase
  obtain ⟨p, fs, f, l⟩ := h.located hz hres
  have hlast : lastAfter cl M c (.execute (.access a)) =
      if done then Function.update M.last (M.cpus c).pid (wroteBytes (M.last (M.cpus c).pid) a)
      else M.last := by
    simp only [lastAfter, hexec, Option.any_some]
  obtain ⟨hmmu, ⟨rfl, hout⟩ | ⟨rfl, hsame, rfl⟩⟩ := execution_spec (cl.cached c) (h.mmu c)
    (h.remembered l.find).symm (h.sameForDirty ht c) hown.inside (l.placed h c) hexec
  · -- the access is carried out
    rw [hlast, if_pos rfl]
    constructor
    · obtain ⟨ref', hover, hmeant⟩ := hout.overlaid_gap (Prod.mk_right_injective c) h.overlaid (h.mmu c)
        hown.inside (fun _ => rfl) moved_patches_self (fun k hk => moved_patches_other hk) hown.own
        (h.apart_access hz ht hphase l)
      exact ⟨ref', h.moved hmmu hover (h.stores_access hown l hmeant) (h.inside_access hown hres)
        (h.forgotten_access l.find)⟩
    · intro e' he' hdirty
      rcases hout.dirty hown.own he' hdirty with hold | ⟨hpid, hpage⟩
      · exact Or.inl hold
      · rw [hpid, hpage]
        exact Or.inr ⟨⟨a, rfl⟩, hphase, rfl, hres⟩
  · -- the access is refused
    rw [hlast]
    simp only [Bool.false_eq_true, ↓reduceIte]
    exact ⟨⟨ref, h.unchanged hmmu fun j => patchAt_sameButUse hsame j⟩,
      fun e' he' hdirty => Or.inl (hsame.dirty he' hdirty)⟩

end Memory

/-! ## 6. A request of the kernel -/

section Request

variable {κ : Type} {cl : Cluster κ} {M : Machine κ} {ref : Bytes} {r : Memoria.Request}
  {m : Memoria.State} {reply : Memoria.Reply} {pid : Int}

/-- The machine after a request. -/
def Machine.asked (M : Machine κ) (r : Memoria.Request) (m : Memoria.State) (reply : Memoria.Reply) :
    Machine κ :=
  { M with
    memoria := m
    history := remember M.history m r reply }

/-- What was remembered of a process stays. -/
theorem history_asked (hc : SettledRequest cl M r) (hsome : M.history pid ≠ none) :
    (M.asked r m reply).history pid = M.history pid := by
  show remember M.history m r reply pid = M.history pid
  cases r with
  | initProcess q size file left =>
    have hne : pid ≠ q := by
      rintro rfl
      exact hsome (hc.fresh pid size file left rfl)
    cases reply with
    | confirmation success =>
      cases success with
      | true => exact Function.update_of_ne hne _ M.history
      | false => rfl
    | data bytes => rfl
    | nothing => rfl
  | _ => rfl

/-- A process of which nothing is remembered afterwards was not remembered before. -/
theorem history_none (hnone : (M.asked r m reply).history pid = none) : M.history pid = none := by
  by_contra hsome
  have hnone' : remember M.history m r reply pid = none := hnone
  unfold remember at hnone'
  split at hnone'
  · rename_i q size file left
    by_cases hq : pid = q
    · subst hq
      simp at hnone'
    · rw [Function.update_of_ne hq] at hnone'
      exact hsome hnone'
  · exact hsome hnone'

/-- A process that has a record is remembered. -/
theorem Meant.history_ne (h : Meant cl M ref) {p : Memoria.ProcessInfo}
    (hfind : processManagerFindProcess M.memoria.processes pid = some p) : M.history pid ≠ none := by
  have hpid : p.pid = pid := by simpa using List.find?_some hfind
  have hans := h.answers p (Memoria.mem_of_find hfind)
  rw [hpid] at hans
  rw [hans]
  simp

/-- The condition on a request, as memoria sees it. -/
theorem Meant.careful (h : Meant cl M ref) (hc : SettledRequest cl M r) :
    Memoria.Careful cl.memoria M.memoria r where
  kills := hc.kills
  resumes := hc.resumes
  fresh pid size file left hr := by
    cases hfind : processManagerFindProcess M.memoria.processes pid with
    | none => rfl
    | some p => exact absurd (hc.fresh pid size file left hr) (h.history_ne hfind)

/-- **The record of a process for which a CPU is at work stays as it is.** -/
theorem Meant.find_asked (h : Meant cl M ref) (hc : SettledRequest cl M r)
    (hst : handle cl.memoria M.memoria r = some (m, reply)) {c : κ} (hwork : AtWork M c)
    {p : Memoria.ProcessInfo} (hres : p.isSuspended = false)
    (hfind : processManagerFindProcess M.memoria.processes (M.cpus c).pid = some p) :
    processManagerFindProcess m.processes (M.cpus c).pid = some p := by
  by_cases hpid : r.pid? = some (M.cpus c).pid
  · cases r with
    | initProcess q size file left =>
      obtain rfl : q = (M.cpus c).pid := by simpa [Memoria.Request.pid?] using hpid
      exact absurd (hc.fresh _ size file left rfl) (h.history_ne hfind)
    | killProcess q =>
      obtain rfl : q = (M.cpus c).pid := by simpa [Memoria.Request.pid?] using hpid
      exact absurd rfl (hc.idle _ (Or.inl rfl) c hwork)
    | swap q written =>
      obtain rfl : q = (M.cpus c).pid := by simpa [Memoria.Request.pid?] using hpid
      exact absurd rfl (hc.idle _ (Or.inr ⟨written, rfl⟩) c hwork)
    | unsuspendProcess q avail =>
      obtain rfl : q = (M.cpus c).pid := by simpa [Memoria.Request.pid?] using hpid
      -- it is not suspended
      obtain ⟨⟨m', b⟩, hserved, heq⟩ := Option.map_eq_some_iff.mp hst
      obtain ⟨rfl, -⟩ := Prod.mk.inj heq
      simp only [Memoria.swapInProcess, hfind, hres, ↓reduceIte, Option.some.injEq,
        Prod.mk.injEq] at hserved
      rw [← hserved.1]
      exact hfind
    | readMemory a n => exact absurd hpid (by simp [Memoria.Request.pid?])
    | writeMemory a d => exact absurd hpid (by simp [Memoria.Request.pid?])
  · rw [Memoria.handle_find_of_ne hst hpid]
    exact hfind

/-- **A request keeps the turns.** -/
theorem turns_request (h : Meant cl M ref) (ht : Turns cl M) (hc : SettledRequest cl M r)
    (hst : handle cl.memoria M.memoria r = some (m, reply)) : Turns cl (M.asked r m reply) := by
  refine ⟨?_, ht.idle, ?_, ht.alone, ht.fresh⟩
  · intro c e he hd
    obtain ⟨hpid, p, hfind, hres, hpage⟩ := ht.own c e he hd
    rw [hpid] at hfind
    have hfind' := h.find_asked hc hst (Or.inr ⟨e, he, hd⟩) hres hfind
    rw [← hpid] at hfind'
    exact ⟨hpid, p, hfind', hres, hpage⟩
  · intro c hm
    obtain ⟨p, hfind, hres⟩ := ht.works c hm
    exact ⟨p, h.find_asked hc hst (Or.inl hm) hres hfind, hres⟩

/-- In the frames of a process of which no cache keeps back anything memoria has what is meant. -/
theorem Meant.userSpace_eq (hz : Sizes cl.memoria) (h : Meant cl M ref) (ht : Turns cl M)
    (hclean : ∀ c, ∀ e ∈ (M.cpus c).mmu.cache.entries, e.Dirty → e.pid ≠ pid) {p : Memoria.ProcessInfo}
    (hfind : processManagerFindProcess M.memoria.processes pid = some p) {f o : Nat}
    (hf : f ∈ residentFrames p) (ho : o < cl.memoria.tamPagina) :
    M.memoria.userSpace (f * cl.memoria.tamPagina + o) = ref (f * cl.memoria.tamPagina + o) := by
  refine h.overlaid.rest _ fun k hx => ?_
  obtain ⟨e, he, hdirty, hlo, hhi⟩ := h.patch_mem hx
  have hmem := List.mem_of_getElem? he
  obtain ⟨p', fs', f', l⟩ := h.located hz (ht.own k.1 e hmem hdirty).2
  rw [l.base_eq] at hlo hhi
  obtain rfl : f = f' :=
    Memoria.frame_eq_of_mem (Nat.le_add_right _ o) (Nat.add_lt_add_left ho _) hlo hhi
  exact hclean k.1 e hmem hdirty (h.sound.owner l.find hfind l.mem hf)

/-- For a process with a history the answers and the pages stay. -/
theorem base_asked (hc : SettledRequest cl M r) (hsome : M.history pid ≠ none) (page : Int) :
    (M.asked r m reply).remembered pid = M.remembered pid ∧
      (M.asked r m reply).base cl pid page = M.base cl pid page := by
  have hsame : (M.asked r m reply).remembered pid = M.remembered pid := by
    unfold Machine.remembered
    rw [history_asked hc hsome]
  refine ⟨hsame, ?_⟩
  unfold Machine.base frameBase
  rw [mmuPerformPageWalk_congr hsame]

/-- What the caches keep back is kept back, from frames that the request does not touch. -/
theorem Meant.overlaid_asked (hz : Sizes cl.memoria) (h : Meant cl M ref) (ht : Turns cl M)
    (hc : SettledRequest cl M r) (hkernel : r.pid? ≠ none)
    (hst : handle cl.memoria M.memoria r = some (m, reply)) :
    Overlaid m.userSpace ((M.asked r m reply).patches cl)
      (Memoria.relocated cl.memoria M.memoria m ref) := by
  have htaken : ∀ k x, (M.patches cl k).dom x →
      M.memoria.frames.bit (x / cl.memoria.tamPagina) = true := by
    intro k x hx
    obtain ⟨e, he, hdirty, hlo, hhi⟩ := h.patch_mem hx
    obtain ⟨p, fs, f, l⟩ := h.located hz (ht.own k.1 e (List.mem_of_getElem? he) hdirty).2
    rw [l.base_eq] at hlo hhi
    rw [Nat.div_eq_of_lt_le hlo (by rw [Nat.succ_mul]; exact hhi)]
    exact (h.sound.taken l.find l.mem).2
  have hover : Overlaid m.userSpace (M.patches cl) (Memoria.relocated cl.memoria M.memoria m ref) := by
    constructor
    · intro k x hx
      unfold Memoria.relocated
      rw [htaken k x hx, if_pos rfl]
      exact h.overlaid.patch k x hx
    · intro x hx
      unfold Memoria.relocated
      split
      · rename_i hbit
        rw [Memoria.handle_userSpace h.sound.tabled.total hkernel hst hbit]
        exact h.overlaid.rest x hx
      · rfl
  have hbase : ∀ k : κ × Nat, ∀ e, (M.cpus k.1).mmu.cache.entries[k.2]? = some e → e.Dirty →
      (M.asked r m reply).base cl e.pid e.page = M.base cl e.pid e.page := by
    intro k e he hdirty
    obtain ⟨-, p, hfind, -⟩ := ht.own k.1 e (List.mem_of_getElem? he) hdirty
    exact (base_asked hc (h.history_ne hfind) e.page).2
  exact hover.congr (fun k x => (patchAt_base (hbase k) x).1) fun k x => (patchAt_base (hbase k) x).2

/-- **A request keeps the user space that is meant**, up to where the pages are. -/
theorem meant_request (hz : Sizes cl.memoria) (h : Meant cl M ref) (ht : Turns cl M)
    (hc : SettledRequest cl M r) (hkernel : r.pid? ≠ none)
    (hst : handle cl.memoria M.memoria r = some (m, reply)) :
    Meant cl (M.asked r m reply) (Memoria.relocated cl.memoria M.memoria m ref) := by
  have hcareful := h.careful hc
  -- a process of which anything was written had a record
  have hrecord : ∀ pid x v, M.last pid x = some v →
      (∃ p, processManagerFindProcess M.memoria.processes pid = some p) ∨
        processManagerFindProcess m.processes pid = none := by
    intro pid x v hv
    cases hfind : processManagerFindProcess M.memoria.processes pid with
    | some p => exact Or.inl ⟨p, rfl⟩
    | none =>
      refine Or.inr (Memoria.handle_find_none hst hfind ?_)
      rintro size file left rfl
      have := h.forgotten pid (hc.fresh pid size file left rfl) x
      exact absurd (this.symm.trans hv) (by simp)
  refine ⟨Memoria.sound_step hz.entries hz.pages h.sound hcareful hst, ?_, ?_,
    h.overlaid_asked hz ht hc hkernel hst, ?_, ?_, ?_⟩
  · have htransparent : Transparent ⟨cl.memoria, 0, .fifo, 0, .clock⟩
        ⟨⟨⟨[], 0, 0⟩, ⟨[], 0⟩⟩, M.memoria, M.history⟩ :=
      ⟨h.sound.shaped, h.sound.pids, h.answers, by simp [TlbOk], by simp⟩
    refine (transparent_request htransparent ?_ hst).answers
    cases r with
    | initProcess pid size file left => exact hc.fresh pid size file left rfl
    | _ => trivial
  · intro c
    refine (h.mmu c).congr fun pid page f hwalk => base_asked hc ?_ page
    intro hnone
    have hforgot : M.remembered pid = fun _ _ => none := by simp [Machine.remembered, hnone]
    rw [mmuPerformPageWalk_forgotten hforgot] at hwalk
    exact absurd hwalk (by simp)
  · intro pid p' fs' hfind' hfs' i f hf o ho v hv
    rcases hrecord pid _ v hv with ⟨p, hfind⟩ | hnone
    · refine Memoria.stores_step (h.stores pid) h.sound hz.slots hcareful hst hfind ?_ p' fs' hfind' hfs' i f
        hf o ho v hv
      intro written hr f' hf' o' ho'
      refine (h.userSpace_eq hz ht ?_ hfind hf' ho').symm
      intro c e he hd
      rw [(ht.own c e he hd).1]
      exact hc.idle pid (Or.inr ⟨written, hr⟩) c (Or.inr ⟨e, he, hd⟩)
    · exact absurd (hnone.symm.trans hfind') (by simp)
  · intro pid p' x v hfind' hv
    rcases hrecord pid x v hv with ⟨p, hfind⟩ | hnone
    · rw [Memoria.handle_processSize h.sound hcareful hst hfind hfind']
      exact h.inside pid p x v hfind hv
    · exact absurd (hnone.symm.trans hfind') (by simp)
  · exact fun pid hnone => h.forgotten pid (history_none hnone)

end Request

/-! ## 7. Whole runs -/

section Start

variable {κ : Type}

/-- Nothing is modified after `mmu_init`. -/
theorem cacheClean_start (cl : Cluster κ) (junk : κ → Nat → CacheEntry) (c : κ) :
    CacheClean (Machine.start cl junk) c := by
  intro e he hd
  obtain ⟨i, -, rfl⟩ := List.mem_map.mp he
  exact absurd hd.1 (by simp)

theorem turns_start (cl : Cluster κ) (junk : κ → Nat → CacheEntry) : Turns cl (Machine.start cl junk) where
  own c e he hd := absurd hd (cacheClean_start cl junk c e he)
  idle c _ := cacheClean_start cl junk c
  works c hm := absurd hm (by simp [Machine.start, CpuState.start, Phase.mayAccess])
  alone c c' _ hw := by
    rcases hw with hm | ⟨e, he, hd⟩
    · exact absurd hm (by simp [Machine.start, CpuState.start, Phase.mayAccess])
    · exact absurd hd (cacheClean_start cl junk c e he)
  fresh c hf := absurd hf (by simp [Machine.start])

theorem meant_start (cl : Cluster κ) (junk : κ → Nat → CacheEntry) :
    Meant cl (Machine.start cl junk) (Machine.start cl junk).memoria.userSpace where
  sound := Memoria.sound_start cl.memoria
  answers := by simp [Machine.start, Memoria.State.start]
  mmu c := by
    have hempty := emptyMmu_mmuInit (cl.cached c) (junk c)
    have hnone : Refining (cl.cpu c) (fun _ _ _ => none) 0 0 (mmuInit (cl.cpu c) (junk c)) zeros zeros :=
      refining_of_empty hempty zeros
    refine hnone.ok.congr fun pid page f hwalk => ?_
    rw [mmuPerformPageWalk_forgotten rfl] at hwalk
    exact absurd hwalk (by simp)
  overlaid := by
    refine ⟨fun k x hx => ?_, fun _ _ => rfl⟩
    obtain ⟨e, he, hdirty⟩ := patchAt_dirty hx
    exact absurd hdirty (cacheClean_start cl junk k.1 e (List.mem_of_getElem? he))
  stores pid p fs hfind := by simp [Machine.start, Memoria.State.start, processManagerFindProcess] at hfind
  inside pid p x v hfind := by simp [Machine.start, Memoria.State.start, processManagerFindProcess] at hfind
  forgotten _ _ _ := rfl

end Start

section Runs

variable {κ : Type} [DecidableEq κ] {cl : Cluster κ} {M M' : Machine κ} {ref : Bytes}

/-- **Every step that meets the condition keeps the invariant.** -/
theorem coherent_step (hz : Sizes cl.memoria) {move : Move κ} (h : Meant cl M ref) (ht : Turns cl M)
    (hc : Settled cl M move) (hst : machineStep cl M move = some M') :
    (∃ ref', Meant cl M' ref') ∧ Turns cl M' := by
  cases move with
  | cpu c ev =>
    obtain ⟨⟨s', mem', sent⟩, hstep, rfl⟩ := Option.map_eq_some_iff.mp hst
    obtain ⟨heffect, hmove⟩ := cpuStep_effect hstep
    show (∃ ref', Meant cl (M.moved c ev s' mem' (lastAfter cl M c ev)) ref') ∧
      Turns cl (M.moved c ev s' mem' (lastAfter cl M c ev))
    -- no step but an access changes what was written last
    have hlast : (∀ a, ev ≠ .execute (.access a)) → lastAfter cl M c ev = M.last := by
      intro hne
      unfold lastAfter
      split
      · rename_i a
        exact absurd rfl (hne a)
      · rfl
    cases heffect with
    | same hmmu hmem hev =>
      subst hmem
      rw [hlast hev]
      refine ⟨⟨ref, h.unchanged (hmmu ▸ h.mmu c) fun j => by rw [hmmu]⟩, turns_cpu ht hc hmove ?_⟩
      intro e he hd
      rw [hmmu] at he
      exact Or.inl ⟨e, he, hd, rfl, rfl⟩
    | access a done hev hphase hexec =>
      subst hev
      obtain ⟨hmeant, hdirty⟩ := h.access hz ht hphase hc hexec
      exact ⟨hmeant, turns_cpu ht hc hmove hdirty⟩
    | cleaned i hev hclean =>
      rw [hlast (by simp [hev])]
      obtain ⟨hmeant, hdirty⟩ := h.cleaned ht hclean
      exact ⟨⟨ref, hmeant⟩, turns_cpu ht hc hmove hdirty⟩
    | flushed hev hmmu hmem =>
      subst hmem
      rw [hlast (by simp [hev])]
      refine ⟨⟨ref, h.unchanged (hmmu ▸ (h.mmu c).flushTlb) fun j => by rw [hmmu]; rfl⟩,
        turns_cpu ht hc hmove ?_⟩
      intro e he hd
      rw [hmmu] at he
      exact Or.inl ⟨e, he, hd, rfl, rfl⟩
  | request r =>
    simp only [machineStep] at hst
    split at hst
    · rename_i hkernel
      obtain ⟨⟨m, reply⟩, hserved, rfl⟩ := Option.map_eq_some_iff.mp hst
      have hne : r.pid? ≠ none := Option.isSome_iff_ne_none.mp hkernel
      exact ⟨⟨_, meant_request hz h ht hc hne hserved⟩, turns_request h ht hc hserved⟩
    · exact absurd hst (by simp)

/-- What the invariant says of a process that was dispatched and has executed nothing yet. -/
theorem coherentAt_of_meant (hz : Sizes cl.memoria) (h : Meant cl M ref) (ht : Turns cl M) {c : κ}
    (hfresh : M.fresh c = true) (hphase : (M.cpus c).phase = .fetching) : CoherentAt cl M c := by
  have hmay : (M.cpus c).phase.mayAccess = true := by
    rw [hphase]
    rfl
  have hclean : ∀ c', ∀ e ∈ (M.cpus c').mmu.cache.entries, e.Dirty → e.pid ≠ (M.cpus c).pid := by
    intro c' e he hd
    by_cases hne : c' = c
    · subst hne
      exact absurd hd (ht.fresh c' hfresh e he)
    · rw [(ht.own c' e he hd).1]
      exact ht.alone c' c hne (Or.inr ⟨e, he, hd⟩) (Or.inl hmay)
  refine ⟨?_, hclean⟩
  intro x v hv
  obtain ⟨p, hfind, hres⟩ := ht.works c hmay
  obtain ⟨p', fs, f, l⟩ := h.located hz
    ⟨p, hfind, hres, Int.natCast_nonneg _, h.inside _ p x v hfind hv⟩
  have ho : x % cl.memoria.tamPagina < cl.memoria.tamPagina := Nat.mod_lt x cl.memoria.tamPagina_pos
  refine ⟨f, l.walk _ (cl.shared c), ?_⟩
  rw [h.userSpace_eq hz ht hclean l.find l.mem ho]
  have hbyte := h.stores _ p' fs l.find l.frames _ f l.get _ ho v
  rw [Int.toNat_natCast, Nat.div_add_mod' x, Memoria.storeOf, l.resident] at hbyte
  exact hbyte hv

/-- **Coherence across CPUs.**  For any number of CPUs and every order of their steps and of the kernel's
requests, in which each step meets the condition: whenever a CPU is about to execute the first instruction
of a process since its DISPATCH, memoria has what the process last wrote to each of its addresses, and no
CPU keeps back anything of it. -/
theorem coherent_run {junk : κ → Nat → CacheEntry} {tr : List (Transition (Machine κ) (Move κ))}
    (hr : (system cl junk).Run tr M) (hz : Sizes cl.memoria) (hc : ∀ x ∈ tr, Settled cl x.src x.label)
    {c : κ} {instruction : Instruction} (hfresh : M.fresh c = true)
    (hstep : machineStep cl M (.cpu c (.execute instruction)) = some M') : CoherentAt cl M c := by
  have hinv : (∃ ref, Meant cl M ref) ∧ Turns cl M := by
    refine hr.invariant (I := fun M => (∃ ref, Meant cl M ref) ∧ Turns cl M) (C := Settled cl) ?_ ?_ hc
    · rintro s rfl
      exact ⟨⟨_, meant_start cl junk⟩, turns_start cl junk⟩
    · rintro s move s' ⟨⟨ref, h⟩, ht⟩ hset hst
      exact coherent_step hz h ht hset hst
  obtain ⟨⟨ref, h⟩, ht⟩ := hinv
  -- an instruction is executed by a CPU that has fetched it
  obtain ⟨⟨s', mem', sent⟩, hcpu, -⟩ := Option.map_eq_some_iff.mp hstep
  have hphase : (M.cpus c).phase = .fetching := by
    simp only [cpuStep] at hcpu
    split at hcpu
    · rename_i hphase
      exact hphase
    · exact absurd hcpu (by simp)
  exact coherentAt_of_meant hz h ht hfresh hphase

end Runs

/-! ## 8. Two CPUs -/

/-- Two CPUs with a cache of one page each. -/
def pairCluster : Cluster Bool where
  memoria := Memoria.smallConfig
  cpu _ := smallConfig
  shared _ := rfl
  cached _ := by decide

section Pair

variable {cl : Cluster Bool} {M : Machine Bool}

/-- Whether nothing in the cache of a CPU is modified. -/
def cacheCleanTest (M : Machine Bool) (c : Bool) : Bool :=
  (M.cpus c).mmu.cache.entries.all fun e => !(e.isValid && e.modifiedBit)

theorem cacheClean_of_test {c : Bool} (h : cacheCleanTest M c = true) : CacheClean M c := by
  intro e he ⟨hvalid, hmod⟩
  have hclean := List.all_eq_true.mp h e he
  simp [hvalid, hmod] at hclean

/-- The condition, tested.  Of the accesses those pass that are in their page and miss. -/
def settledTest (cl : Cluster Bool) (M : Machine Bool) : Move Bool → Bool
  | .cpu c (.dispatch pid _) =>
    ((processManagerFindProcess M.memoria.processes pid).any fun p => !p.isSuspended) &&
      (decide ((M.cpus !c).pid ≠ pid) || !(M.cpus !c).phase.mayAccess && cacheCleanTest M !c)
  | .cpu c (.execute (.access a)) =>
    decide (0 ≤ a.logicDir ∧ 0 ≤ a.size ∧ offsetOf (cl.cpu c) a.logicDir + a.size ≤ (cl.cpu c).pageSize) &&
      ((processManagerFindProcess M.memoria.processes (M.cpus c).pid).any fun p =>
        decide (pageOf (cl.cpu c) a.logicDir < cl.memoria.pagesNeeded p.processSize)) &&
      (M.cpus c).mmu.cache.entries.all fun e => !e.isValid || decide (e.page ≠ pageOf (cl.cpu c) a.logicDir)
  | .cpu c .noInstruction => cacheCleanTest M c
  | .cpu c .handled => (M.cpus c).phase.mayAccess || cacheCleanTest M c
  | .cpu _ _ => true
  | .request (.initProcess pid _ _ _) => (M.history pid).isNone
  | .request _ => false

theorem settled_of_test {move : Move Bool} (h : settledTest cl M move = true) : Settled cl M move := by
  unfold settledTest at h
  split at h
  · rename_i c pid pc
    simp only [Bool.and_eq_true, Bool.or_eq_true, Bool.not_eq_true', Option.any_eq_true,
      decide_eq_true_eq] at h
    obtain ⟨hres, hidle⟩ := h
    refine ⟨hres, fun c' hne hw hpid => ?_⟩
    rw [Bool.eq_not_of_ne hne] at hw hpid
    rcases hidle with hother | ⟨hmay, hclean⟩
    · exact hother hpid
    · rcases hw with hbusy | ⟨e, he, hd⟩
      · rw [hmay] at hbusy
        exact absurd hbusy (by decide)
      · exact cacheClean_of_test hclean e he hd
  · rename_i c a
    simp only [Bool.and_eq_true, Option.any_eq_true, decide_eq_true_eq] at h
    obtain ⟨⟨hin, hmapped⟩, hmiss⟩ := h
    have hother : ∀ e ∈ (M.cpus c).mmu.cache.entries, e.isValid = true →
        e.page ≠ pageOf (cl.cpu c) a.logicDir := by
      intro e he hvalid
      have hpage := List.all_eq_true.mp hmiss e he
      simpa [hvalid] using hpage
    refine ⟨?_, hmapped, fun e he hvalid hpage => absurd hpage (hother e he hvalid), ?_⟩
    · cases a with
      | read logicDir size => exact hin.1
      | write logicDir value => exact hin
    · rintro x v v' ⟨logicDir, value, e, o, rfl, he, hvalid, -, hpage, -⟩
      exact absurd hpage (hother e he hvalid)
  · exact cacheClean_of_test h
  · rename_i c
    intro hmay
    rw [hmay, Bool.false_or] at h
    exact cacheClean_of_test h
  · rename_i c ev hdispatch haccess hnone hhandled
    cases ev with
    | dispatch pid pc => exact absurd rfl (hdispatch pid pc)
    | noInstruction => exact absurd rfl hnone
    | handled => exact absurd rfl hhandled
    | execute instruction =>
      cases instruction with
      | access a => exact absurd rfl (haccess a)
      | _ => trivial
    | _ => trivial
  · rename_i pid size file left
    refine ⟨trivial, trivial, ?_, ?_⟩
    · rintro pid' size' file' left' heq
      injection heq with hpid
      rw [← hpid]
      exact Option.isNone_iff_eq_none.mp h
    · rintro pid' (heq | ⟨written, heq⟩)
      · exact absurd heq (by simp)
      · exact absurd heq (by simp)
  · exact absurd h (by decide)

/-- Process 0 writes "a" to its first byte on the first CPU, leaves, and is dispatched to the second. -/
def writeThen (leaving : List CpuEvent) : List (Move Bool) :=
  .request (Memoria.initRequest 0 30) ::
    ((CpuEvent.dispatch 0 0 :: .execute (.access (.write 0 [97])) :: leaving).map (Move.cpu false) ++
      [.cpu true (.dispatch 0 2)])

/-- Whether the second CPU is about to execute the first instruction of a process that wrote "a" to its
first byte, and what memoria has there. -/
def firstByte (M : Machine Bool) : Option UInt8 :=
  if M.fresh true && decide (M.last (M.cpus true).pid 0 = some 97) &&
      (machineStep pairCluster M (.cpu true (.execute .noop))).isSome then
    (mmuPerformPageWalk smallConfig (pageEntries M.memoria) (0 / pairCluster.memoria.tamPagina : Nat)
      (M.cpus true).pid).map fun frame =>
        M.memoria.userSpace (frame.toNat * pairCluster.memoria.tamPagina + 0 % pairCluster.memoria.tamPagina)
  else none

theorem step_of_firstByte {v : UInt8} (h : firstByte M = some v) :
    M.fresh true = true ∧ M.last (M.cpus true).pid 0 = some 97 ∧
      ∃ M', machineStep pairCluster M (.cpu true (.execute .noop)) = some M' := by
  unfold firstByte at h
  split at h
  · rename_i htest
    simp only [Bool.and_eq_true, decide_eq_true_eq] at htest
    obtain ⟨⟨hfresh, hlast⟩, hstep⟩ := htest
    exact ⟨hfresh, hlast, Option.isSome_iff_exists.mp hstep⟩
  · exact absurd h (by simp)

/-- In a coherent state memoria has the "a". -/
theorem CoherentAt.firstByte_eq {v : UInt8} (hcoh : CoherentAt pairCluster M true)
    (h : firstByte M = some v) : v = 97 := by
  obtain ⟨-, hlast, -⟩ := step_of_firstByte h
  obtain ⟨frame, hwalk, hbyte⟩ := hcoh.written 0 97 hlast
  unfold firstByte at h
  split at h
  · obtain ⟨f, hf, hv⟩ := Option.map_eq_some_iff.mp h
    obtain rfl := Option.some.inj (hwalk.symm.trans hf)
    rw [← hv, Int.toNat_natCast]
    exact hbyte
  · exact absurd h (by simp)

/-- The theorem at work: process 0 is interrupted, and dispatched again when its page was written back. -/
theorem coherent_run_interrupted :
    ∃ tr M, (system pairCluster fun _ _ => clearEntry).Run tr M ∧ M.last (M.cpus true).pid 0 = some 97 ∧
      CoherentAt pairCluster M true := by
  obtain ⟨tr, M, hrun, htest⟩ := Lts.exists_run_of_drive (Machine.start pairCluster fun _ _ => clearEntry)
    (fun M move => machineStep pairCluster M move)
    (writeThen [.arrive 0, .handle, .check, .clean, .clean, .handled])
    (fun tr M => (firstByte M).isSome && tr.all fun x => settledTest pairCluster x.src x.label)
    (by decide +kernel)
  obtain ⟨hbyte, hsettled⟩ := Bool.and_eq_true_iff.mp htest
  obtain ⟨v, hbyte⟩ := Option.isSome_iff_exists.mp hbyte
  obtain ⟨hfresh, hlast, M', hstep⟩ := step_of_firstByte hbyte
  have hall : ∀ x ∈ tr, Settled pairCluster x.src x.label :=
    fun x hx => settled_of_test (List.all_eq_true.mp hsettled x hx)
  have hsizes : Sizes pairCluster.memoria :=
    ⟨by decide, by decide, by decide, by unfold Memoria.SlotsFit; decide⟩
  exact ⟨tr, M, hrun, hlast, coherent_run hrun hsizes hall hfresh hstep⟩

/-- The end of a turn. -/
def endsTurn : Move Bool → Bool
  | .cpu _ .handled => true
  | _ => false

/-- A DISPATCH. -/
def dispatches : Move Bool → Bool
  | .cpu _ (.dispatch _ _) => true
  | _ => false

/-- A run that ends with another byte in memoria, and meets the condition except at some kind of step. -/
theorem not_coherent_of_drive (except : Move Bool → Bool) (leaving : List CpuEvent)
    (htest : (Lts.drive (fun M move => machineStep pairCluster M move)
      (Machine.start pairCluster fun _ _ => clearEntry) (writeThen leaving)).any
        (fun r => decide (firstByte r.2 = some 0) &&
          r.1.all fun x => except x.label || settledTest pairCluster x.src x.label) = true) :
    ∃ tr M M', (system pairCluster fun _ _ => clearEntry).Run tr M ∧
      (∀ x ∈ tr, except x.label = false → Settled pairCluster x.src x.label) ∧ M.fresh true = true ∧
      machineStep pairCluster M (.cpu true (.execute .noop)) = some M' ∧ ¬ CoherentAt pairCluster M true := by
  obtain ⟨tr, M, hrun, hpass⟩ := Lts.exists_run_of_drive (Machine.start pairCluster fun _ _ => clearEntry)
    (fun M move => machineStep pairCluster M move) (writeThen leaving)
    (fun tr M => decide (firstByte M = some 0) &&
      tr.all fun x => except x.label || settledTest pairCluster x.src x.label) htest
  simp only [Bool.and_eq_true, decide_eq_true_eq] at hpass
  obtain ⟨hbyte, hsettled⟩ := hpass
  obtain ⟨hfresh, -, M', hstep⟩ := step_of_firstByte hbyte
  refine ⟨tr, M, M', hrun, fun x hx hno => ?_, hfresh, hstep, fun hcoh => ?_⟩
  · have hone := List.all_eq_true.mp hsettled x hx
    rw [hno, Bool.false_or] at hone
    exact settled_of_test hone
  · exact absurd (hcoh.firstByte_eq hbyte) (by decide)

/-- Process 0 leaves through IO instead: its page stays in the first cache, and memoria does not have the
"a" when the second CPU executes it.  Only the end of the turn misses the condition. -/
theorem not_coherent_io :
    ¬ ∀ (tr : List (Transition (Machine Bool) (Move Bool))) (M M' : Machine Bool),
      (system pairCluster fun _ _ => clearEntry).Run tr M →
      (∀ x ∈ tr, endsTurn x.label = false → Settled pairCluster x.src x.label) →
      M.fresh true = true → machineStep pairCluster M (.cpu true (.execute .noop)) = some M' →
      CoherentAt pairCluster M true := by
  intro hall
  obtain ⟨tr, M, M', hrun, hsettled, hfresh, hstep, hnot⟩ := not_coherent_of_drive endsTurn
    [.handle, .handled, .execute (.io "DISCO" 10), .handle, .handled] (by decide +kernel)
  exact hnot (hall tr M M' hrun hsettled hfresh hstep)

/-- Process 0 is interrupted, and dispatched again when the answer is out and nothing is written back yet.
Only the DISPATCH misses the condition. -/
theorem not_coherent_early :
    ¬ ∀ (tr : List (Transition (Machine Bool) (Move Bool))) (M M' : Machine Bool),
      (system pairCluster fun _ _ => clearEntry).Run tr M →
      (∀ x ∈ tr, dispatches x.label = false → Settled pairCluster x.src x.label) →
      M.fresh true = true → machineStep pairCluster M (.cpu true (.execute .noop)) = some M' →
      CoherentAt pairCluster M true := by
  intro hall
  obtain ⟨tr, M, M', hrun, hsettled, hfresh, hstep, hnot⟩ := not_coherent_of_drive dispatches
    [.arrive 0, .handle, .check] (by decide +kernel)
  exact hnot (hall tr M M' hrun hsettled hfresh hstep)

end Pair

end Tpso.Coherence
