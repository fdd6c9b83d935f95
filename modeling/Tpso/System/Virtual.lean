/-
# Every process has a machine of its own

CPUs without a cache share one memoria.  They fetch the statements of the scripts from it, translate the
logical addresses of their process through their TLBs or by page walks, and read and write the frames that
memoria gave to the process, while the kernel has processes created, killed, suspended and resumed.

The machine that a process seems to have is much simpler: its own bytes, by logical addresses, that nobody
else writes and that stay while it is suspended, and the statements of its script, one after the other as
long as its turn lasts.  The CPUs and memoria together are a simulation of such machines
(`virtual_simulates`): every run of them, in whatever order the CPUs and the requests of the kernel take
their steps, is a run of machines of their own, with the same turns, the same messages to the kernel and
READs that show what the process itself wrote last (`virtual_of_run`).
-/
import Tpso.Lib.Simulation
import Tpso.Cpu.Language
import Tpso.System.Coherence

namespace Tpso.Virtual

open Tpso.Lib Tpso.Utils Tpso.Cpu
open Tpso.Memoria (pageEntries processManagerFindProcess processManagerLoadScriptLines handle residentFrames
  Stores)

/-! ## 1. CPUs without a cache and one memoria -/

/-- The configurations: memoria's, the TLBs of the CPUs, and the files of the scripts by pid. -/
structure Plant (κ : Type) where
  memoria : Memoria.Config
  tlbEntries : κ → Nat
  tlbAlgorithm : κ → TlbAlgorithm
  script : Int → List UInt8

/-- The configuration of a CPU.  `ENTRADAS_CACHE` is 0. -/
def Plant.cpu {κ : Type} (pl : Plant κ) (c : κ) : Cpu.Config :=
  ⟨pl.memoria, pl.tlbEntries c, pl.tlbAlgorithm c, 0, .clock⟩

/-- The states of memoria and of the CPUs, and, as a ghost, the answers to GET_PAGE_ENTRY that memoria had
for a process when it was created. -/
structure Machine (κ : Type) where
  memoria : Memoria.State
  cpus : κ → CpuState
  history : Int → Option (Int → Int → Option Int)

/-- What happens: a CPU executes the instruction at its program counter, whether an INIT_PROC is confirmed
or not; a CPU takes another step; memoria serves a request of the kernel. -/
inductive Event (κ : Type) where
  | execute (c : κ) (confirmed : Bool)
  | cpu (c : κ) (event : CpuEvent)
  | request (r : Memoria.Request)

section Steps

variable {κ : Type} [DecidableEq κ] (pl : Plant κ) (M : Machine κ)

/-- `fetch` and `decode`.  memoria sends an empty line for a process that it does not know. -/
def Machine.fetched (c : κ) : Option TInstruction :=
  match processManagerFindProcess M.memoria.processes (M.cpus c).pid with
  | none => parseInstruction (getInstructionRequestHandler none (M.cpus c).pc) zeroed
  | some p => decodeAt p.instructions (M.cpus c).pc

/-- The instruction that a CPU executes next. -/
def Machine.current (c : κ) (confirmed : Bool) : Option Instruction :=
  (M.fetched c).bind fun r => instructionOf r confirmed

/-- A step of a CPU, and what it sends to the kernel. -/
def cpuMove (c : κ) (event : CpuEvent) : Option (Machine κ × List Sent) :=
  (cpuStep (pl.cpu c) (pageEntries M.memoria) (M.cpus c) M.memoria.userSpace event).map fun x =>
    ({ M with
      memoria := { M.memoria with userSpace := x.2.1 }
      cpus := Function.update M.cpus c x.1 }, x.2.2)

/-- The file that a process is created from is that of its script, if it can be opened. -/
def opensScript : Memoria.Request → Bool
  | .initProcess pid _ file _ => file.all fun lines => decide (lines = fileLines (pl.script pid))
  | _ => true

/-- One step. -/
def machineStep : Event κ → Option (Machine κ)
  | .execute c confirmed =>
    (M.current c confirmed).bind fun i => (cpuMove pl M c (.execute i)).map Prod.fst
  | .cpu c event =>
    match event with
    | .execute _ => none
    | event => (cpuMove pl M c event).map Prod.fst
  | .request r =>
    if r.pid?.isSome && opensScript pl r then
      (handle pl.memoria M.memoria r).map fun x =>
        { M with memoria := x.1, history := remember M.history x.1 r x.2 }
    else none

/-- Every module at its start. -/
def Machine.start (junk : κ → Nat → CacheEntry) : Machine κ where
  memoria := Memoria.State.start pl.memoria
  cpus c := CpuState.start (pl.cpu c) (junk c)
  history _ := none

/-- The CPUs and memoria as a transition system. -/
def machine (junk : κ → Nat → CacheEntry) : Lts (Machine κ) (Event κ) :=
  Lts.ofStep (Machine.start pl junk) fun M event => machineStep pl M event

end Steps

/-! ## 2. Machines of their own -/

/-- The machines of the processes: which process a CPU has and at which program counter, and the bytes that
each process has written. -/
structure Ideal (κ : Type) where
  turns : κ → Option (Int × Int)
  images : Int → Image

/-- What is seen of a CPU: a turn starts, the process executes its next statement, is asked to leave and
answers, or leaves.  What a statement logs and sends is seen with it. -/
inductive Act (κ : Type) where
  | turn (c : κ) (pid pc : Int)
  | execute (c : κ) (pid pc : Int) (value : Option (List UInt8)) (sent : List Sent)
  | context (c : κ) (pid pc : Int)
  | leave (c : κ)
deriving DecidableEq

section Ideal

variable {κ : Type} [DecidableEq κ] (program : Int → List Statement)

/-- **A step of machines of their own.**  A process executes the statement of its script at its program
counter, on its own bytes. -/
inductive IdealStep (A : Ideal κ) : Act κ → Ideal κ → Prop where
  | turn (c : κ) (pid pc : Int) :
      IdealStep A (.turn c pid pc) { A with turns := Function.update A.turns c (some (pid, pc)) }
  | execute {c : κ} {pid pc : Int} {value : Option (List UInt8)} (hturn : A.turns c = some (pid, pc))
      (hshows : (statementAt (program pid) pc).Shows (A.images pid) value) :
      IdealStep A (.execute c pid pc value ((statementAt (program pid) pc).sends pid pc))
        { turns := Function.update A.turns c (some (pid, (statementAt (program pid) pc).next pc))
          images := Function.update A.images pid ((statementAt (program pid) pc).writes (A.images pid)) }
  | context {c : κ} {pid pc : Int} (hturn : A.turns c = some (pid, pc)) :
      IdealStep A (.context c pid pc) A
  | leave (c : κ) : IdealStep A (.leave c) { A with turns := Function.update A.turns c none }

/-- Machines of their own as a transition system.  At the start nobody has written anything. -/
def ideal : Lts (Ideal κ) (Act κ) where
  init A := A = ⟨fun _ => none, fun _ _ => none⟩
  step := IdealStep program

/-- What an act writes to the bytes of a process. -/
def Act.writes (pid : Int) : Act κ → Image → Image
  | .execute _ q pc _ _, image => if q = pid then (statementAt (program pid) pc).writes image else image
  | _, image => image

/-- **The bytes of a process are those that its own statements wrote**, in the order in which it executed
them. -/
theorem images_of_run {tr : List (Transition (Ideal κ) (Act κ))} {A : Ideal κ}
    (hr : (ideal program).Run tr A) (pid : Int) :
    A.images pid = (tr.map (·.label)).foldl (fun image act => act.writes program pid image) fun _ => none := by
  induction hr with
  | start hi => rw [show _ = _ from hi]; rfl
  | step _ hst ih =>
    rw [List.map_append, List.foldl_append, ← ih]
    cases hst with
    | turn c q pc => rfl
    | @execute c q pc value hturn hshows =>
      by_cases hq : q = pid
      · subst hq
        simp [Act.writes]
      · simp [Act.writes, hq, Function.update_of_ne (Ne.symm hq)]
    | context hturn => rfl
    | leave c => rfl

end Ideal

/-! ## 3. What is seen of a step -/

section Seen

variable {κ : Type} [DecidableEq κ] (pl : Plant κ)

/-- The answer to an INTERRUPT for the process that the CPU has. -/
def ownContext (c : κ) : Sent → Option (Act κ)
  | .context pid pc false => some (.context c pid pc)
  | _ => none

/-- What a step that executes nothing shows: a turn that starts, one that ends, or the answer of a process
that is to leave. -/
def turnAct (c : κ) (event : CpuEvent) (before after : Bool) (sent : List Sent) : Option (Act κ) :=
  match event with
  | .dispatch pid pc => some (.turn c pid pc)
  | _ =>
    if before then
      if after then sent.findSome? (ownContext c) else some (.leave c)
    else none

/-- What a step of the CPUs and memoria shows. -/
def seen (x : Transition (Machine κ) (Event κ)) : Option (Act κ) :=
  match x.label with
  | .execute c confirmed =>
    (x.src.current c confirmed).bind fun i =>
      (cpuMove pl x.src c (.execute i)).map fun moved =>
        .execute c (x.src.cpus c).pid (x.src.cpus c).pc
          (shown (pl.cpu c) (pageEntries x.src.memoria) (x.src.cpus c) x.src.memoria.userSpace i) moved.2
  | .cpu c event =>
    turnAct c event (x.src.cpus c).phase.busy (x.dst.cpus c).phase.busy
      (((cpuMove pl x.src c event).map Prod.snd).getD [])
  | .request _ => none

end Seen

/-! ## 4. The condition -/

section Condition

variable {κ : Type} (pl : Plant κ) (program : Int → List Statement) (M : Machine κ)

/-- The statement at the program counter of a CPU can be executed: its process has a record, and a block that
it accesses fits into the frames of the process, which is resident. -/
def CanExecute (c : κ) : Prop :=
  ∃ p, processManagerFindProcess M.memoria.processes (M.cpus c).pid = some p ∧
    ∀ a n, (statementAt (program (M.cpus c).pid) (M.cpus c).pc).block = some (a, n) →
      p.isSuspended = false ∧ ∃ fs, p.allocatedFrames = .obj fs ∧ Fits (pl.cpu c) fs a n

/-- **The condition on a step.**  A request kills a process only while it is resident, resumes it only to the
frames that its page table names, and creates none under a pid that was used. -/
def Proper : Event κ → Prop
  | .execute c _ => CanExecute pl program M c
  | .cpu _ _ => True
  | .request r => Memoria.KillsResident M.memoria r ∧ Memoria.ResumesInPlace pl.memoria M.memoria r ∧
    ∀ pid size file left, r = .initProcess pid size file left → M.history pid = none

end Condition

/-! ## 5. The records of the scripts -/

section Records

variable {cfg : Memoria.Config} {s s' : Memoria.State} {r : Memoria.Request} {reply : Memoria.Reply}

/-- A record that `create_process` makes has the instructions of the file. -/
theorem createProcess_instructions {pid size : Int} {file : Option (List String)} {left : Memoria.Leftover}
    {b : Bool} (h : Memoria.createProcess cfg s pid size file left = some (s', b)) :
    ∀ p' ∈ s'.processes, p' ∈ s.processes ∨
      p'.pid = pid ∧ processManagerLoadScriptLines file = some p'.instructions := by
  unfold Memoria.createProcess at h
  split at h
  · obtain ⟨rfl, -⟩ := Prod.mk.inj (Option.some.inj h)
    exact fun p' hp' => Or.inl hp'
  · rename_i instructions hload
    have hnew : ∀ table frames, ∀ p' ∈ s.processes ++ [Memoria.freshProcess pid size instructions table frames],
        p' ∈ s.processes ∨ p'.pid = pid ∧ processManagerLoadScriptLines file = some p'.instructions := by
      intro table frames p' hp'
      rcases List.mem_append.mp hp' with hp' | hp'
      · exact Or.inl hp'
      · obtain rfl := List.mem_singleton.mp hp'
        exact Or.inr ⟨rfl, hload⟩
    split at h
    · simp only at h
      split at h
      · obtain ⟨rfl, -⟩ := Prod.mk.inj (Option.some.inj h)
        exact fun p' hp' => Or.inl hp'
      · split at h
        · obtain ⟨rfl, -⟩ := Prod.mk.inj (Option.some.inj h)
          exact fun p' hp' => Or.inl hp'
        · split at h
          · obtain ⟨rfl, -⟩ := Prod.mk.inj (Option.some.inj h)
            exact fun p' hp' => Or.inl hp'
          · split at h
            · obtain ⟨frames, -, heq⟩ := Option.map_eq_some_iff.mp h
              obtain ⟨rfl, -⟩ := Prod.mk.inj heq
              exact fun p' hp' => Or.inl hp'
            · obtain ⟨rfl, -⟩ := Prod.mk.inj (Option.some.inj h)
              exact hnew _ _
    · obtain ⟨rfl, -⟩ := Prod.mk.inj (Option.some.inj h)
      exact hnew _ _

/-- An update that touches neither the pid nor the instructions. -/
theorem updateProcess_instructions {f : Memoria.ProcessInfo → Memoria.ProcessInfo} {pid : Int}
    {ps : List Memoria.ProcessInfo} {p' : Memoria.ProcessInfo} (hp' : p' ∈ Memoria.updateProcess f pid ps)
    (hf : ∀ p, (f p).pid = p.pid ∧ (f p).instructions = p.instructions) :
    ∃ p ∈ ps, p.pid = p'.pid ∧ p.instructions = p'.instructions := by
  obtain ⟨p, hp, rfl | rfl⟩ := Memoria.mem_updateProcess hp'
  · exact ⟨p', hp, rfl, rfl⟩
  · exact ⟨p, hp, (hf p).1.symm, (hf p).2.symm⟩

/-- **Where the instructions of a record come from**: from the record before, or from the file that its
process was created from. -/
theorem handle_instructions (h : handle cfg s r = some (s', reply)) : ∀ p' ∈ s'.processes,
    (∃ p ∈ s.processes, p.pid = p'.pid ∧ p.instructions = p'.instructions) ∨
      ∃ size file left, r = .initProcess p'.pid size file left ∧
        processManagerLoadScriptLines file = some p'.instructions := by
  have hsame : s'.processes = s.processes → ∀ p' ∈ s'.processes,
      (∃ p ∈ s.processes, p.pid = p'.pid ∧ p.instructions = p'.instructions) ∨
        ∃ size file left, r = .initProcess p'.pid size file left ∧
          processManagerLoadScriptLines file = some p'.instructions :=
    fun heq p' hp' => Or.inl ⟨p', heq ▸ hp', rfl, rfl⟩
  cases r with
  | initProcess pid size file left =>
    obtain ⟨⟨s1, b⟩, hc, heq⟩ := Option.map_eq_some_iff.mp h
    obtain ⟨rfl, -⟩ := Prod.mk.inj heq
    intro p' hp'
    rcases createProcess_instructions hc p' hp' with hold | ⟨rfl, hload⟩
    · exact Or.inl ⟨p', hold, rfl, rfl⟩
    · exact Or.inr ⟨size, file, left, rfl, hload⟩
  | killProcess pid =>
    obtain ⟨⟨s1, b⟩, hc, heq⟩ := Option.map_eq_some_iff.mp h
    obtain ⟨rfl, -⟩ := Prod.mk.inj heq
    rcases Memoria.deleteProcess_cases hc with
      ⟨-, rfl, -⟩ | ⟨p, -, -, rfl, -⟩ | ⟨p, fs, frames, -, -, -, -, rfl, -⟩
    · exact hsame rfl
    · exact fun p' hp' => Or.inl ⟨p', List.mem_of_mem_eraseP hp', rfl, rfl⟩
    · exact fun p' hp' => Or.inl ⟨p', List.mem_of_mem_eraseP hp', rfl, rfl⟩
  | swap pid written =>
    obtain ⟨⟨s1, b⟩, hc, heq⟩ := Option.map_eq_some_iff.mp h
    obtain ⟨rfl, -⟩ := Prod.mk.inj heq
    rcases Memoria.swapOutProcess_cases hc with ⟨⟨swapFrames, file, rfl⟩, -⟩ | ⟨p, -, -, -, rfl, -⟩ |
      ⟨p, fs, slots, frames, swapFrames, file, -, -, -, -, -, -, rfl, -⟩
    · exact hsame rfl
    · exact fun p' hp' => Or.inl (updateProcess_instructions hp' fun _ => ⟨rfl, rfl⟩)
    · exact fun p' hp' => Or.inl (updateProcess_instructions hp' fun _ => ⟨rfl, rfl⟩)
  | unsuspendProcess pid avail =>
    obtain ⟨⟨s1, b⟩, hc, heq⟩ := Option.map_eq_some_iff.mp h
    obtain ⟨rfl, -⟩ := Prod.mk.inj heq
    rcases Memoria.swapInProcess_cases hc with ⟨rfl, -⟩ | ⟨p, -, -, -, rfl, -⟩ |
      ⟨p, slots, userFrames, frames, -, -, -, -, rfl, -⟩ |
      ⟨p, slots, userFrames, frames, frames', m, -, -, -, -, -, rfl, -⟩ |
      ⟨p, slots, userFrames, frames, swapFrames, m, -, -, -, -, -, -, -, -, rfl, -⟩
    · exact hsame rfl
    · exact fun p' hp' => Or.inl (updateProcess_instructions hp' fun _ => ⟨rfl, rfl⟩)
    · exact hsame rfl
    · exact hsame rfl
    · exact fun p' hp' => Or.inl (updateProcess_instructions hp' fun _ => ⟨rfl, rfl⟩)
  | readMemory a n =>
    obtain ⟨m, rfl⟩ := Memoria.handle_memory_eq h (Or.inl ⟨a, n, rfl⟩)
    exact hsame rfl
  | writeMemory a data =>
    obtain ⟨m, rfl⟩ := Memoria.handle_memory_eq h (Or.inr ⟨a, data, rfl⟩)
    exact hsame rfl

end Records

/-! ## 6. What the machines of their own stand for -/

section Represents

variable {κ : Type} {pl : Plant κ} {M : Machine κ} {A : Ideal κ}

/-- **The relation**: memoria is in order, every TLB holds what page walks give, the records have their
scripts, a CPU that is at work has its turn, and what a process has written is where its pages are, in its
frames or in the swap file. -/
structure Represents (pl : Plant κ) (M : Machine κ) (A : Ideal κ) : Prop where
  sound : Memoria.Sound pl.memoria M.memoria
  transparent : ∀ c, Transparent (pl.cpu c) ⟨(M.cpus c).mmu, M.memoria, M.history⟩
  scripts : ∀ p ∈ M.memoria.processes, loadScript (pl.script p.pid) = some p.instructions
  turns : ∀ c, A.turns c =
    if (M.cpus c).phase.busy then some ((M.cpus c).pid, (M.cpus c).pc) else none
  stores : ∀ pid, Stores pl.memoria M.memoria M.memoria.userSpace pid (A.images pid)
  forgotten : ∀ pid, M.history pid = none → ∀ x, A.images pid x = none

/-- A resident process with frames. -/
theorem Represents.resident (hz : Coherence.Sizes pl.memoria) (h : Represents pl M A) (c : κ) {pid : Int}
    {p : Memoria.ProcessInfo} {fs : List Nat}
    (hfind : processManagerFindProcess M.memoria.processes pid = some p) (hres : p.isSuspended = false)
    (hfs : p.allocatedFrames = .obj fs) : Resident (pl.cpu c) M.memoria pid fs := by
  have hmem := Memoria.mem_of_find hfind
  have hsize : p.processSize ≠ 0 := fun hzero => h.sound.shaped.zero p hmem hzero fs hfs
  have hpos := (h.sound.shaped.sized p hmem hsize).1
  exact resident_of_tables hz.entries hz.levels hz.pages h.sound.tabled h.sound.shaped hfind hsize hres hfs
    (h.sound.agree p hmem hpos hres)

/-- The statement that a CPU fetches is the one of the script at its program counter. -/
theorem Represents.current {program : Int → List Statement}
    (hprogram : ∀ pid, Script (pl.script pid) (program pid)) (h : Represents pl M A) {c : κ}
    (hc : CanExecute pl program M c) {confirmed : Bool} {i : Instruction}
    (hi : M.current c confirmed = some i) :
    i = (statementAt (program (M.cpus c).pid) (M.cpus c).pc).instruction confirmed := by
  obtain ⟨p, hfind, -⟩ := hc
  obtain ⟨instructions, hload, -, hdecode⟩ := decode_of_script (hprogram (M.cpus c).pid)
  have hpid : p.pid = (M.cpus c).pid := by simpa using List.find?_some hfind
  have hrecord := h.scripts p (Memoria.mem_of_find hfind)
  rw [hpid, hload] at hrecord
  obtain rfl := Option.some.inj hrecord
  rw [Machine.current, Machine.fetched, hfind] at hi
  simp only [hdecode, Option.bind_some] at hi
  exact instructionOf_record hi

end Represents

/-! ## 7. Accesses -/

section Accesses

variable {cfg : Cpu.Config} {m : Memoria.State} {fs : List Nat} {pid : Int} {a : Nat} {value : List UInt8}
  {mem' : Bytes} {images : Int → Image}

/-- Two bytes of a process are at two places. -/
theorem byteAddr_inj (hnodup : fs.Nodup) {x y : Nat} (hx : x < fs.length * cfg.pageSize)
    (hy : y < fs.length * cfg.pageSize) (h : byteAddr cfg fs x = byteAddr cfg fs y) : x = y := by
  have hps := pageSize_pos cfg
  obtain ⟨hframe, hoffset⟩ := mul_add_inj (Nat.mod_lt x hps) (Nat.mod_lt y hps) h
  have hx' : x / cfg.pageSize < fs.length := Nat.div_lt_of_lt_mul (by rwa [Nat.mul_comm])
  have hy' : y / cfg.pageSize < fs.length := Nat.div_lt_of_lt_mul (by rwa [Nat.mul_comm])
  rw [List.getD_eq_getElem _ _ hx', List.getD_eq_getElem _ _ hy'] at hframe
  have hpage : x / cfg.pageSize = y / cfg.pageSize := (hnodup.getElem_inj_iff).mp hframe
  calc x = x / cfg.pageSize * cfg.pageSize + x % cfg.pageSize := (Nat.div_add_mod' x cfg.pageSize).symm
    _ = y / cfg.pageSize * cfg.pageSize + y % cfg.pageSize := by rw [hpage, hoffset]
    _ = y := Nat.div_add_mod' y cfg.pageSize

/-- The place of a byte of a page. -/
theorem byteAddr_page (cfg : Cpu.Config) {i f o : Nat} (hf : fs[i]? = some f) (ho : o < cfg.pageSize) :
    byteAddr cfg fs (i * cfg.pageSize + o) = f * cfg.pageSize + o ∧
      i * cfg.pageSize + o < fs.length * cfg.pageSize := by
  have hps := pageSize_pos cfg
  have hdiv : (i * cfg.pageSize + o) / cfg.pageSize = i := by
    rw [Nat.mul_comm, Nat.mul_add_div hps, Nat.div_eq_of_lt ho, Nat.add_zero]
  have hmod : (i * cfg.pageSize + o) % cfg.pageSize = o := by
    rw [Nat.mul_comm, Nat.mul_add_mod, Nat.mod_eq_of_lt ho]
  have hlt : i < fs.length := (List.getElem?_eq_some_iff.mp hf).1
  constructor
  · simp [byteAddr, hdiv, hmod, hf]
  · calc i * cfg.pageSize + o < (i + 1) * cfg.pageSize := by rw [Nat.succ_mul]; omega
      _ ≤ fs.length * cfg.pageSize := Nat.mul_le_mul_right _ hlt

/-- **A WRITE of one process**, seen by all: its own bytes are what it wrote, and those of the others stay. -/
theorem stores_write {n : Int32} (hsound : Memoria.Sound cfg.memoria m)
    (hres : Resident cfg m pid fs) (hfits : Fits cfg fs n.toInt value.length)
    (hw : WritesExactly cfg fs m.userSpace mem' n.toInt.toNat value)
    (hstores : ∀ q, Stores cfg.memoria m m.userSpace q (images q)) (q : Int) :
    Stores cfg.memoria { m with userSpace := mem' } mem' q
      (Function.update images pid ((Statement.write n value).writes (images pid)) q) := by
  obtain ⟨p, t, hfind, hresident, hfs, -, -⟩ := hres.record
  intro p' gs hfind' hgs i g hg o ho v hv
  have hold := hstores q p' gs hfind' hgs i g hg o ho v
  cases hsusp : p'.isSuspended with
  | true =>
    -- a suspended process is another one, and its bytes are in the swap file
    have hq : q ≠ pid := by
      rintro rfl
      obtain rfl : p' = p := Option.some.inj (hfind'.symm.trans hfind)
      rw [hresident] at hsusp
      exact absurd hsusp (by simp)
    rw [Function.update_of_ne hq] at hv
    have h := hold hv
    simp only [Memoria.storeOf, hsusp, ↓reduceIte] at h ⊢
    exact h
  | false =>
    simp only [Memoria.storeOf, hsusp, Bool.false_eq_true, ↓reduceIte] at hold ⊢
    by_cases hq : q = pid
    · subst hq
      obtain rfl : p' = p := Option.some.inj (hfind'.symm.trans hfind)
      obtain rfl : gs = fs := Memoria.Ptr.obj.inj (hgs.symm.trans hfs)
      obtain ⟨haddr, hlt⟩ := byteAddr_page cfg hg ho
      rw [Function.update_self] at hv
      by_cases hin : n.toInt.toNat ≤ i * cfg.pageSize + o ∧ i * cfg.pageSize + o < n.toInt.toNat + value.length
      · have hbyte := hw.stored (i * cfg.pageSize + o - n.toInt.toNat) (by omega)
        have hsum : n.toInt.toNat + (i * cfg.pageSize + o - n.toInt.toNat) = i * cfg.pageSize + o :=
          Nat.add_sub_of_le hin.1
        rw [hsum, haddr] at hbyte
        have hv' : value[i * cfg.pageSize + o - n.toInt.toNat]? = some v := (if_pos hin).symm.trans hv
        rw [List.getD_eq_getElem?_getD, hv'] at hbyte
        exact hbyte
      · have hother : mem' (g * cfg.pageSize + o) = m.userSpace (g * cfg.pageSize + o) := by
          refine hw.others _ fun k hk heq => hin ?_
          rw [← haddr] at heq
          have hinside := hfits.inside
          have hsame := byteAddr_inj hres.nodup hlt (by omega) heq
          omega
        exact hother.trans (hold ((if_neg hin).symm.trans hv))
    · rw [Function.update_of_ne hq] at hv
      have hother : mem' (g * cfg.pageSize + o) = m.userSpace (g * cfg.pageSize + o) := by
        refine hw.others _ fun k hk heq => hq ?_
        obtain ⟨f, hf, -, haddr⟩ := hres.frame (a := n.toInt.toNat + k) (by have := hfits.inside; omega)
        rw [haddr] at heq
        obtain ⟨rfl, -⟩ := mul_add_inj ho (Nat.mod_lt _ (pageSize_pos cfg)) heq
        refine hsound.owner hfind' hfind (f := g) ?_ ?_
        · simp only [residentFrames, hsusp, Bool.false_eq_true, ↓reduceIte, hgs]
          exact List.mem_of_getElem? hg
        · simp only [residentFrames, hresident, Bool.false_eq_true, ↓reduceIte, hfs]
          exact List.mem_of_getElem? hf
      exact hother.trans (hold hv)

/-- **A READ of a process** shows what it wrote. -/
theorem shows_read {image : Image} {n size : Int32} {bytes : List UInt8} (hres : Resident cfg m pid fs)
    (hfits : Fits cfg fs n.toInt size.toInt.toNat) (hlen : (bytes.length : Int) = size.toInt)
    (hbytes : ∀ k < bytes.length, bytes[k]? = some (m.userSpace (byteAddr cfg fs (n.toInt.toNat + k))))
    (hstores : Stores cfg.memoria m m.userSpace pid image) :
    (Statement.read n size).Shows image (some bytes) := by
  obtain ⟨p, t, hfind, hresident, hfs, -, -⟩ := hres.record
  refine ⟨hlen, fun k hk v hv => ?_⟩
  have hinside := hfits.inside
  obtain ⟨f, hf, -, haddr⟩ := hres.frame (a := n.toInt.toNat + k) (by omega)
  have hstored := hstores p fs hfind hfs _ f hf _ (Nat.mod_lt (n.toInt.toNat + k) (pageSize_pos cfg)) v
    ((congrArg image (Nat.div_add_mod' (n.toInt.toNat + k) cfg.pageSize)).trans hv)
  simp only [Memoria.storeOf, hresident, Bool.false_eq_true, ↓reduceIte] at hstored
  rw [hbytes k hk, haddr]
  exact congrArg some hstored

end Accesses

/-! ## 8. The steps -/

section Quiet

variable {cfg : Cpu.Config} {pe : PageEntries} {s s' : CpuState} {mem mem' : Bytes} {sent : List Sent}
  {event : CpuEvent}

/-- **A step of a CPU that executes nothing** leaves the memory alone and what the TLB holds right; a process
that is at work after it was at work before, at the same program counter, unless its turn has just started;
and the answer to an INTERRUPT for it has that program counter. -/
structure Quiet (cfg : Cpu.Config) (s s' : CpuState) (mem mem' : Bytes) (sent : List Sent)
    (event : CpuEvent) : Prop where
  mem : mem' = mem
  cache : s'.mmu.cache = s.mmu.cache
  tlb : s'.mmu.tlb = s.mmu.tlb ∨ s'.mmu.tlb.entries = []
  turn : (∃ pid pc, event = .dispatch pid pc ∧ s'.pid = pid ∧ s'.pc = pc ∧ s'.phase.busy = true) ∨
    ((∀ pid pc, event ≠ .dispatch pid pc) ∧
      (s'.phase.busy = true → s.phase.busy = true ∧ s'.pid = s.pid ∧ s'.pc = s.pc))
  context : ∀ pid pc, Sent.context pid pc false ∈ sent → pid = s.pid ∧ pc = s.pc

theorem cpuStep_quiet (hcache : cfg.cacheEntries = 0) (hne : ∀ i, event ≠ .execute i)
    (h : cpuStep cfg pe s mem event = some (s', mem', sent)) : Quiet cfg s s' mem mem' sent event := by
  cases event with
  | execute i => exact absurd rfl (hne i)
  | dispatch pid pc =>
    simp only [cpuStep] at h
    split at h
    · obtain ⟨rfl, rfl, rfl⟩ := by simpa using h
      exact ⟨rfl, rfl, Or.inl rfl, Or.inl ⟨pid, pc, rfl, rfl, rfl, rfl⟩, by simp⟩
    · exact absurd h (by simp)
  | noInstruction =>
    simp only [cpuStep] at h
    split at h
    · obtain ⟨rfl, rfl, rfl⟩ := by simpa using h
      exact ⟨rfl, rfl, Or.inl rfl, Or.inr ⟨by simp, by simp [Phase.busy]⟩, by simp⟩
    · exact absurd h (by simp)
  | arrive pid =>
    simp only [cpuStep] at h
    split at h
    · exact absurd h (by simp)
    · obtain ⟨rfl, rfl, rfl⟩ := by simpa using h
      exact ⟨rfl, rfl, Or.inl rfl, Or.inr ⟨by simp, fun hbusy => ⟨hbusy, rfl, rfl⟩⟩, by simp⟩
  | listen =>
    simp only [cpuStep] at h
    split at h
    · obtain ⟨rfl, rfl, rfl⟩ := by simpa using h
      exact ⟨rfl, rfl, Or.inl rfl, Or.inr ⟨by simp, by simp [Phase.busy]⟩, by simp⟩
    · exact absurd h (by simp)
  | handle =>
    simp only [cpuStep] at h
    split at h
    · rename_i hphase
      obtain ⟨rfl, rfl, rfl⟩ := by simpa using h
      exact ⟨rfl, rfl, Or.inl rfl, Or.inr ⟨by simp, fun _ => ⟨by rw [hphase]; rfl, rfl, rfl⟩⟩, by simp⟩
    · exact absurd h (by simp)
  | check =>
    simp only [cpuStep] at h
    split at h
    · rename_i handler interrupted pid hphase hlast
      have hbusy : (Phase.cleaning handler 0).busy = (Phase.handling handler interrupted).busy ∧
          (Phase.handling handler true).busy = (Phase.handling handler interrupted).busy := by
        cases handler <;> exact ⟨rfl, rfl⟩
      unfold checkInterrupt at h
      split at h
      · rename_i hpid
        obtain ⟨rfl, rfl, rfl⟩ := by simpa using h
        refine ⟨rfl, rfl, Or.inl rfl, Or.inr ⟨by simp, fun hb => ⟨?_, rfl, rfl⟩⟩, ?_⟩
        · rw [hphase, ← hbusy.1]
          exact hb
        · intro q pc hq
          obtain ⟨rfl, rfl⟩ : q = pid ∧ pc = s.pc := by simpa using hq
          exact ⟨hpid, rfl⟩
      · obtain ⟨rfl, rfl, rfl⟩ := by simpa using h
        refine ⟨rfl, rfl, Or.inl rfl, Or.inr ⟨by simp, fun hb => ⟨?_, rfl, rfl⟩⟩, by simp⟩
        rw [hphase, ← hbusy.2]
        exact hb
    · exact absurd h (by simp)
  | clean =>
    simp only [cpuStep] at h
    split at h
    · rename_i handler i hphase
      have hbusy : (Phase.handling handler true).busy = (Phase.cleaning handler i).busy := by
        cases handler <;> rfl
      rw [if_neg (by omega)] at h
      obtain ⟨rfl, rfl, rfl⟩ := by simpa using h
      refine ⟨rfl, rfl, ?_, Or.inr ⟨by simp, fun hb => ⟨?_, rfl, rfl⟩⟩, by simp⟩
      · unfold flushTlb
        split
        · exact Or.inr rfl
        · exact Or.inl rfl
      · rw [hphase, ← hbusy]
        exact hb
    · exact absurd h (by simp)
  | handled =>
    simp only [cpuStep] at h
    split at h
    · rename_i shouldPreempt interrupted hphase hnone
      unfold endOfCycle at h
      split at h
      · obtain ⟨rfl, rfl, rfl⟩ := by simpa using h
        exact ⟨rfl, rfl, Or.inl rfl, Or.inr ⟨by simp, by simp [Phase.busy]⟩, by simp⟩
      · obtain ⟨rfl, rfl, rfl⟩ := by simpa using h
        exact ⟨rfl, rfl, Or.inl rfl, Or.inr ⟨by simp, fun _ => ⟨by rw [hphase]; rfl, rfl, rfl⟩⟩, by simp⟩
    · obtain ⟨rfl, rfl, rfl⟩ := by simpa using h
      exact ⟨rfl, rfl, Or.inl rfl, Or.inr ⟨by simp, by simp [Phase.busy]⟩, by simp⟩
    · exact absurd h (by simp)

end Quiet

section Keeps

variable {κ : Type} {pl : Plant κ} {M : Machine κ} {A : Ideal κ} {c : κ} {s' : CpuState} {mem' : Bytes}
  {sent : List Sent}

/-- The bytes stay when the memory does. -/
theorem Represents.stores_same (h : Represents pl M A) (pid : Int) :
    Stores pl.memoria { M.memoria with userSpace := M.memoria.userSpace } M.memoria.userSpace pid
      (A.images pid) := h.stores pid

/-- A quiet step keeps the TLB right. -/
theorem Represents.transparent_quiet (h : Represents pl M A) {event : CpuEvent}
    (hq : Quiet (pl.cpu c) (M.cpus c) s' M.memoria.userSpace mem' sent event) :
    Transparent (pl.cpu c) ⟨s'.mmu, M.memoria, M.history⟩ := by
  have ht := h.transparent c
  refine ⟨ht.shaped, ht.nodup, ht.answers, ?_, ?_⟩
  · intro e he
    rcases hq.tlb with hsame | hnil
    · exact ht.tlb e (hsame ▸ he)
    · simp only at he
      rw [hnil] at he
      exact absurd he List.not_mem_nil
  · intro e he
    simp only at he
    rw [hq.cache] at he
    exact ht.clean e he

end Keeps

section Steps

variable {κ : Type} [DecidableEq κ] {pl : Plant κ} {program : Int → List Statement} {M M' : Machine κ}
  {A : Ideal κ} {c : κ} {s' : CpuState} {mem' : Bytes} {sent : List Sent}

/-- The machine after a step of a CPU. -/
def Machine.moved (M : Machine κ) (c : κ) (s' : CpuState) (mem' : Bytes) : Machine κ :=
  { M with
    memoria := { M.memoria with userSpace := mem' }
    cpus := Function.update M.cpus c s' }

theorem cpuMove_eq {event : CpuEvent} (h : cpuMove pl M c event = some (M', sent)) :
    ∃ s' mem', cpuStep (pl.cpu c) (pageEntries M.memoria) (M.cpus c) M.memoria.userSpace event =
      some (s', mem', sent) ∧ M' = M.moved c s' mem' := by
  obtain ⟨⟨s', mem', sent'⟩, hst, heq⟩ := Option.map_eq_some_iff.mp h
  obtain ⟨rfl, rfl⟩ := Prod.mk.inj heq
  exact ⟨s', mem', hst, rfl⟩

/-- No answer of memoria depends on the bytes of the user space. -/
theorem transparent_userSpace {cfg : Cpu.Config} {mmu : Mmu} {m : Memoria.State}
    {history : Int → Option (Int → Int → Option Int)} (h : Transparent cfg ⟨mmu, m, history⟩) (mem' : Bytes) :
    Transparent cfg ⟨mmu, { m with userSpace := mem' }, history⟩ := by
  have hanswers : ∀ pid, pageEntries { m with userSpace := mem' } pid = pageEntries m pid := fun pid =>
    Memoria.pageEntries_congr rfl
  refine ⟨⟨h.shaped.sized, h.shaped.zero⟩, h.nodup, ?_, h.tlb, h.clean⟩
  intro p hp
  exact (h.answers p hp).trans (congrArg some (hanswers p.pid).symm)

/-- What has to be shown of the CPU that moves. -/
theorem Represents.moved (h : Represents pl M A) {A' : Ideal κ}
    (htransparent : Transparent (pl.cpu c) ⟨s'.mmu, M.memoria, M.history⟩)
    (hturn : A'.turns = Function.update A.turns c (if s'.phase.busy then some (s'.pid, s'.pc) else none))
    (hstores : ∀ pid, Stores pl.memoria { M.memoria with userSpace := mem' } mem' pid (A'.images pid))
    (hforgotten : ∀ pid, M.history pid = none → ∀ x, A'.images pid x = none) :
    Represents pl (M.moved c s' mem') A' where
  sound :=
    { shaped := ⟨h.sound.shaped.sized, h.sound.shaped.zero⟩
      tabled := ⟨h.sound.tabled.nextTableId, h.sound.tabled.total, h.sound.tabled.tabled⟩
      owns := h.sound.owns
      agree := h.sound.agree
      held := ⟨h.sound.held.total, h.sound.held.holds⟩
      pids := h.sound.pids }
  transparent c' := by
    by_cases hne : c' = c
    · subst hne
      simp only [Machine.moved, Function.update_self]
      exact transparent_userSpace htransparent mem'
    · simp only [Machine.moved, Function.update_of_ne hne]
      exact transparent_userSpace (h.transparent c') mem'
  scripts := h.scripts
  turns c' := by
    rw [hturn]
    by_cases hne : c' = c
    · subst hne
      simp only [Machine.moved, Function.update_self]
    · simp only [Machine.moved, Function.update_of_ne hne]
      exact h.turns c'
  stores := hstores
  forgotten := hforgotten

/-- **A quiet step.** -/
theorem represents_quiet (program : Int → List Statement) (h : Represents pl M A) {event : CpuEvent}
    (hne : ∀ i, event ≠ .execute i) (hst : cpuMove pl M c event = some (M', sent)) :
    match turnAct c event (M.cpus c).phase.busy (M'.cpus c).phase.busy sent with
    | none => Represents pl M' A
    | some act => ∃ A', (ideal program).step A act A' ∧ Represents pl M' A' := by
  obtain ⟨s', mem', hcpu, rfl⟩ := cpuMove_eq hst
  have hq := cpuStep_quiet rfl hne hcpu
  have htransparent := h.transparent_quiet hq
  obtain rfl := hq.mem
  have hself : (M.moved c s' M.memoria.userSpace).cpus c = s' := by simp [Machine.moved]
  rcases hq.turn with ⟨pid, pc, rfl, rfl, rfl, hbusy⟩ | ⟨hdispatch, hturn⟩
  · exact ⟨_, .turn c s'.pid s'.pc, h.moved htransparent (by simp [hbusy]) h.stores_same h.forgotten⟩
  · have hturns := h.turns c
    have hact : turnAct c event (M.cpus c).phase.busy s'.phase.busy sent =
        if (M.cpus c).phase.busy then
          if s'.phase.busy then sent.findSome? (ownContext c) else some (.leave c)
        else none := by
      cases event with
      | dispatch pid pc => exact absurd rfl (hdispatch pid pc)
      | _ => rfl
    rw [hself, hact]
    cases hbusy : (M.cpus c).phase.busy with
    | false =>
      -- nobody was at work
      have hidle : s'.phase.busy = false := by
        by_contra hb
        rw [(hturn (by simpa using hb)).1] at hbusy
        exact absurd hbusy (by simp)
      refine h.moved htransparent ?_ h.stores_same h.forgotten
      rw [hidle, if_neg (by simp), Function.eq_update_self_iff, hturns, hbusy]
      rfl
    | true =>
      cases hbusy' : s'.phase.busy with
      | false =>
        exact ⟨_, .leave c, h.moved htransparent (by simp [hbusy']) h.stores_same h.forgotten⟩
      | true =>
        obtain ⟨-, hpid, hpc⟩ := hturn hbusy'
        rw [hbusy, if_pos rfl] at hturns
        have hkept : Represents pl (M.moved c s' M.memoria.userSpace) A := by
          refine h.moved htransparent ?_ h.stores_same h.forgotten
          rw [hbusy', if_pos rfl, hpid, hpc, Function.eq_update_self_iff, hturns]
        simp only [↓reduceIte]
        cases hfind : sent.findSome? (ownContext c) with
        | none => exact hkept
        | some act =>
          obtain ⟨msg, hmsg, hown⟩ := List.exists_of_findSome?_eq_some hfind
          unfold ownContext at hown
          split at hown
          · rename_i pid pc
            obtain rfl := Option.some.inj hown
            obtain ⟨rfl, rfl⟩ := hq.context pid pc hmsg
            exact ⟨A, .context hturns, hkept⟩
          · exact absurd hown (by simp)

/-- What is left to show when the statement has been executed. -/
theorem Represents.executed (h : Represents pl M A) {st : Statement} {p : Memoria.ProcessInfo}
    (hfind : processManagerFindProcess M.memoria.processes (M.cpus c).pid = some p)
    (hbusy : s'.phase.busy = true) (hpid : s'.pid = (M.cpus c).pid) (hpc : s'.pc = st.next (M.cpus c).pc)
    (htransparent : Transparent (pl.cpu c) ⟨s'.mmu, M.memoria, M.history⟩)
    (hstores : ∀ q, Stores pl.memoria { M.memoria with userSpace := mem' } mem' q
      (Function.update A.images (M.cpus c).pid (st.writes (A.images (M.cpus c).pid)) q)) :
    Represents pl (M.moved c s' mem')
      { turns := Function.update A.turns c (some ((M.cpus c).pid, st.next (M.cpus c).pc))
        images := Function.update A.images (M.cpus c).pid (st.writes (A.images (M.cpus c).pid)) } := by
  refine h.moved htransparent (by rw [hbusy, if_pos rfl, hpid, hpc]) hstores ?_
  intro q hnone x
  have hne : q ≠ (M.cpus c).pid := by
    rintro rfl
    have hrecord : p.pid = (M.cpus c).pid := by simpa using List.find?_some hfind
    have hanswers : M.history p.pid = some (pageEntries M.memoria p.pid) :=
      (h.transparent c).answers p (Memoria.mem_of_find hfind)
    rw [hrecord, hnone] at hanswers
    exact absurd hanswers (by simp)
  exact (congrFun (Function.update_of_ne hne _ _) x).trans (h.forgotten q hnone x)

/-- **A statement is executed as the machine of the process executes it.** -/
theorem represents_execute (hz : Coherence.Sizes pl.memoria)
    (hprogram : ∀ pid, Script (pl.script pid) (program pid)) (h : Represents pl M A)
    (hc : CanExecute pl program M c) {confirmed : Bool} {i : Instruction}
    (hi : M.current c confirmed = some i) (hst : cpuMove pl M c (.execute i) = some (M', sent)) :
    ∃ A', (ideal program).step A (.execute c (M.cpus c).pid (M.cpus c).pc
        (shown (pl.cpu c) (pageEntries M.memoria) (M.cpus c) M.memoria.userSpace i) sent) A' ∧
      Represents pl M' A' := by
  obtain rfl := h.current hprogram hc hi
  obtain ⟨p, hfind, hfits⟩ := hc
  obtain ⟨s', mem', hcpu, rfl⟩ := cpuMove_eq hst
  have hphase : (M.cpus c).phase = .fetching := by
    simp only [cpuStep] at hcpu
    split at hcpu
    · assumption
    · exact absurd hcpu (by simp)
  have hexec : executeInstruction (pl.cpu c) (pageEntries M.memoria) (M.cpus c) M.memoria.userSpace
      ((statementAt (program (M.cpus c).pid) (M.cpus c).pc).instruction confirmed) =
        some (s', mem', sent) := by
    simp only [cpuStep, hphase] at hcpu
    split at hcpu
    · exact absurd hcpu (by simp)
    · exact hcpu
  have hturn : A.turns c = some ((M.cpus c).pid, (M.cpus c).pc) := by
    rw [h.turns c, hphase]
    rfl
  generalize hstatement : statementAt (program (M.cpus c).pid) (M.cpus c).pc = st at hexec hfits
  -- the step of the machine of its own, once what it shows and sends is known
  have hstep : ∀ {value : Option (List UInt8)}, st.Shows (A.images (M.cpus c).pid) value →
      sent = st.sends (M.cpus c).pid (M.cpus c).pc →
      (ideal program).step A (.execute c (M.cpus c).pid (M.cpus c).pc value sent)
        { turns := Function.update A.turns c (some ((M.cpus c).pid, st.next (M.cpus c).pc))
          images := Function.update A.images (M.cpus c).pid (st.writes (A.images (M.cpus c).pid)) } := by
    rintro value hshows rfl
    have hexecute : (ideal program).step A (.execute c (M.cpus c).pid (M.cpus c).pc value
        ((statementAt (program (M.cpus c).pid) (M.cpus c).pc).sends (M.cpus c).pid (M.cpus c).pc)) _ :=
      .execute hturn (by rwa [hstatement])
    rwa [hstatement] at hexecute
  cases hblock : st.block with
  | none =>
    obtain ⟨hplain, hwrites, hshows⟩ := executeInstruction_plain (pl.cpu c) (pageEntries M.memoria) (M.cpus c)
      M.memoria.userSpace confirmed hblock
    rw [hplain] at hexec
    obtain ⟨rfl, rfl, rfl⟩ := by simpa using hexec
    refine ⟨_, hstep (hshows _) rfl, h.executed hfind rfl rfl rfl (h.transparent c) ?_⟩
    rw [hwrites, Function.update_eq_self]
    exact h.stores
  | some block =>
    obtain ⟨hresident, fs, hfs, hfit⟩ := hfits block.1 block.2 hblock
    have hres := h.resident hz c hfind hresident hfs
    cases st with
    | read n size =>
      obtain rfl : block = (n.toInt, size.toInt.toNat) := (Option.some.inj hblock).symm
      obtain ⟨tlb', bytes, hread, hvalue, hlen, hbytes, htransparent⟩ :=
        executeInstruction_read M.memoria.userSpace rfl (h.transparent c) hres hfit
      obtain ⟨rfl, rfl, rfl⟩ := by simpa using hread.symm.trans hexec
      refine ⟨_, hstep ?_ rfl, h.executed hfind rfl rfl rfl htransparent ?_⟩
      · have hshown : shown (pl.cpu c) (pageEntries M.memoria) (M.cpus c) M.memoria.userSpace
            ((Statement.read n size).instruction confirmed) = some bytes := hvalue
        rw [hshown]
        exact shows_read hres hfit hlen hbytes (h.stores (M.cpus c).pid)
      · have hwrites : (Statement.read n size).writes (A.images (M.cpus c).pid) =
            A.images (M.cpus c).pid := rfl
        rw [hwrites, Function.update_eq_self]
        exact h.stores
    | write n value =>
      obtain rfl : block = (n.toInt, value.length) := (Option.some.inj hblock).symm
      obtain ⟨tlb', written, hwrite, hexactly, htransparent⟩ :=
        executeInstruction_write M.memoria.userSpace rfl (h.transparent c) hres hfit
      obtain ⟨rfl, rfl, rfl⟩ := by simpa using hwrite.symm.trans hexec
      exact ⟨_, hstep rfl rfl, h.executed hfind rfl rfl rfl htransparent
        (stores_write h.sound hres hfit hexactly h.stores)⟩
    | _ => exact absurd hblock (by simp [Statement.block])

/-- **A request of the kernel** changes no byte that a process has written. -/
theorem represents_request [Nonempty κ] (hz : Coherence.Sizes pl.memoria) (h : Represents pl M A)
    {r : Memoria.Request} (hc : Proper pl program M (.request r)) (hst : machineStep pl M (.request r) = some M') :
    Represents pl M' A := by
  obtain ⟨hkills, hresumes, hfresh⟩ := hc
  simp only [machineStep] at hst
  split at hst
  · rename_i hserves
    obtain ⟨hkernel, hopens⟩ := (Bool.and_eq_true_iff.mp hserves)
    obtain ⟨⟨m, reply⟩, hhandle, rfl⟩ := Option.map_eq_some_iff.mp hst
    have hrecord : ∀ pid, M.history pid = none → processManagerFindProcess M.memoria.processes pid = none := by
      intro pid hnone
      cases hfind : processManagerFindProcess M.memoria.processes pid with
      | none => rfl
      | some p =>
        obtain ⟨c⟩ : Nonempty κ := inferInstance
        have hpid : p.pid = pid := by simpa using List.find?_some hfind
        have hanswers : M.history p.pid = some (pageEntries M.memoria p.pid) :=
          (h.transparent c).answers p (Memoria.mem_of_find hfind)
        rw [hpid, hnone] at hanswers
        exact absurd hanswers (by simp)
    have hcareful : Memoria.Careful pl.memoria M.memoria r :=
      ⟨hkills, hresumes, fun pid size file left hr => hrecord pid (hfresh pid size file left hr)⟩
    refine ⟨Memoria.sound_step hz.entries hz.pages h.sound hcareful hhandle, ?_, ?_, h.turns, ?_, ?_⟩
    · intro c
      refine transparent_request (h.transparent c) ?_ hhandle
      cases r with
      | initProcess pid size file left => exact hfresh pid size file left rfl
      | _ => trivial
    · intro p' hp'
      rcases handle_instructions hhandle p' hp' with ⟨p, hp, hpid, hinstructions⟩ |
        ⟨size, file, left, rfl, hload⟩
      · rw [← hpid, ← hinstructions]
        exact h.scripts p hp
      · cases file with
        | none => exact absurd hload (by simp [processManagerLoadScriptLines])
        | some lines =>
          obtain rfl : lines = fileLines (pl.script p'.pid) := by simpa [opensScript] using hopens
          exact hload
    · intro pid
      have hmem : Memoria.relocated pl.memoria M.memoria m M.memoria.userSpace = m.userSpace := by
        funext x
        unfold Memoria.relocated
        split
        · rename_i hbit
          exact (Memoria.handle_userSpace h.sound.tabled.total (Option.isSome_iff_ne_none.mp hkernel) hhandle
            hbit).symm
        · rfl
      cases hfind : processManagerFindProcess M.memoria.processes pid with
      | some p =>
        rw [← hmem]
        exact Memoria.stores_step (h.stores pid) h.sound hz.slots hcareful hhandle hfind
          fun _ _ _ _ _ _ => rfl
      | none =>
        intro p' fs' hfind' hfs' i f hf o ho v hv
        by_cases hinit : ∃ size file left, r = .initProcess pid size file left
        · -- a process that is created has written nothing
          obtain ⟨size, file, left, rfl⟩ := hinit
          rw [h.forgotten pid (hfresh pid size file left rfl)] at hv
          exact absurd hv (by simp)
        · have hnone := Memoria.handle_find_none hhandle hfind
            fun size file left hr => hinit ⟨size, file, left, hr⟩
          exact absurd (hnone.symm.trans hfind') (by simp)
    · intro pid hnone
      refine h.forgotten pid ?_
      by_contra hsome
      have hnone' : remember M.history m r reply pid = none := hnone
      unfold remember at hnone'
      split at hnone'
      · rename_i q size file left
        by_cases hq : pid = q
        · subst hq
          rw [Function.update_self] at hnone'
          exact absurd hnone' (by simp)
        · rw [Function.update_of_ne hq] at hnone'
          exact hsome hnone'
      · exact hsome hnone'
  · exact absurd hst (by simp)

end Steps

/-! ## 9. Runs -/

section Runs

theorem represents_start {κ : Type} (pl : Plant κ) (junk : κ → Nat → CacheEntry) :
    Represents pl (Machine.start pl junk) ⟨fun _ => none, fun _ _ => none⟩ where
  sound := Memoria.sound_start pl.memoria
  transparent c := transparent_start (pl.cpu c) (junk c)
  scripts := by simp [Machine.start, Memoria.State.start]
  turns _ := rfl
  stores pid p fs hfind := by simp [Machine.start, Memoria.State.start, processManagerFindProcess] at hfind
  forgotten _ _ _ := rfl

variable {κ : Type} [DecidableEq κ] [Nonempty κ] {pl : Plant κ} {program : Int → List Statement}
  {junk : κ → Nat → CacheEntry} {M : Machine κ}

/-- **The CPUs and memoria are simulated by machines of their own.** -/
theorem virtual_simulates (hz : Coherence.Sizes pl.memoria)
    (hprogram : ∀ pid, Script (pl.script pid) (program pid)) :
    (machine pl junk).Simulates (ideal program) (Represents pl) (Proper pl program) (seen pl) where
  init := by
    rintro M rfl
    exact ⟨_, rfl, represents_start pl junk⟩
  step M event M' A h hc hst := by
    cases event with
    | execute c confirmed =>
      obtain ⟨i, hi, hexec⟩ := Option.bind_eq_some_iff.mp hst
      obtain ⟨⟨M'', sent⟩, hmove, rfl⟩ := Option.map_eq_some_iff.mp hexec
      simp only [seen, hi, hmove, Option.bind_some, Option.map_some]
      exact represents_execute hz hprogram h hc hi hmove
    | cpu c event =>
      have hmove : ∃ sent, cpuMove pl M c event = some (M', sent) ∧ ∀ i, event ≠ .execute i := by
        cases event with
        | execute i => exact absurd hst (by simp [machine, Lts.ofStep, machineStep])
        | _ =>
          obtain ⟨⟨M'', sent⟩, hmove, rfl⟩ := Option.map_eq_some_iff.mp hst
          exact ⟨sent, hmove, by simp⟩
      obtain ⟨sent, hmove, hne⟩ := hmove
      have hquiet := represents_quiet program h hne hmove
      simp only [seen, hmove, Option.map_some, Option.getD_some]
      cases hact : turnAct c event (M.cpus c).phase.busy (M'.cpus c).phase.busy sent with
      | none =>
        rw [hact] at hquiet
        exact hquiet
      | some act =>
        rw [hact] at hquiet
        exact hquiet
    | request r => exact represents_request hz h hc hst

end Runs

/-! ## 10. Two processes at one address -/

/-- Process 0 reads back what it wrote; process 1 executes `WRITE 0 yo`. -/
def scripts (pid : Int) : List UInt8 :=
  if pid = 0 then readBackScript
  else if pid = 1 then [87, 82, 73, 84, 69, 32, 48, 32, 121, 111]
  else []

def programs (pid : Int) : List Statement :=
  if pid = 0 then readBack else if pid = 1 then [.write 0 [121, 111]] else []

/-- The files are scripts, and these are their statements. -/
theorem script_scripts (pid : Int) : Script (scripts pid) (programs pid) := by
  unfold scripts programs
  split
  · exact script_readBack
  · split
    · exact ⟨[[87, 82, 73, 84, 69, 32, 48, 32, 121, 111] ++ []], .last (by simp) (by simp),
        .statement (spells_write_zero [121, 111] (by simp) (by simp) (by simp))
          (by simp [isTrailing]) (by simp) .nil⟩
    · exact ⟨[], .nil, .nil⟩

/-- Two CPUs, the second with a TLB. -/
def twoCpus : Plant Bool := ⟨Memoria.smallConfig, fun c => if c then 2 else 0, fun _ => .lru, scripts⟩

/-- A test for the condition. -/
def isProper (M : Machine Bool) : Event Bool → Bool
  | .cpu _ _ => true
  | .execute c _ =>
    (processManagerFindProcess M.memoria.processes (M.cpus c).pid).any fun p =>
      match (statementAt (programs (M.cpus c).pid) (M.cpus c).pc).block, p.allocatedFrames with
      | none, _ => true
      | some (a, n), .obj fs =>
        !p.isSuspended && decide (0 ≤ a ∧ 0 < n ∧ a.toNat + n ≤ fs.length * 16 ∧ a.toNat % 16 + n ≤ 16)
      | _, _ => false
  | .request (.initProcess pid _ _ _) => (M.history pid).isNone
  | .request (.swap _ _) => true
  | .request (.unsuspendProcess pid _) =>
    (processManagerFindProcess M.memoria.processes pid).all fun p =>
      match p.pageTable, p.allocatedFrames with
      | .obj t, .obj slots => (M.memoria.frames.alloc slots.length).all fun x =>
        decide (∀ i : Nat, i < x.1.length → t.followPage 2 1 i = (x.1[i]?).map fun f : Nat => (f : Int))
      | _, _ => true
  | .request _ => false

theorem proper_of_isProper {M : Machine Bool} {event : Event Bool} (h : isProper M event = true) :
    Proper twoCpus programs M event := by
  cases event with
  | cpu c event => trivial
  | execute c confirmed =>
    obtain ⟨p, hfind, htest⟩ := (Option.any_eq_true _ _).mp h
    refine ⟨p, hfind, fun a n hblock => ?_⟩
    rw [hblock] at htest
    cases hfs : p.allocatedFrames with
    | obj fs =>
      rw [hfs] at htest
      simp only [Bool.and_eq_true, Bool.not_eq_true', decide_eq_true_eq] at htest
      obtain ⟨hresident, hnonneg, hpos, hinside, hpage⟩ := htest
      exact ⟨hresident, fs, rfl, hnonneg, hpos, hinside, Or.inl hpage⟩
    | null => rw [hfs] at htest; exact absurd htest (by simp)
    | wild => rw [hfs] at htest; exact absurd htest (by simp)
  | request r =>
    cases r with
    | initProcess pid size file left =>
      refine ⟨trivial, trivial, ?_⟩
      rintro pid' size' file' left' heq
      injection heq with hpid
      exact hpid ▸ Option.isNone_iff_eq_none.mp h
    | swap pid written => exact ⟨trivial, trivial, by simp⟩
    | unsuspendProcess pid avail =>
      refine ⟨trivial, ?_, by simp⟩
      intro p t slots userFrames frames hfind _ _ htable hslots halloc _ _ i f hf
      have htest := (Option.all_eq_true _ _).mp h p hfind
      rw [htable, hslots] at htest
      have hall := of_decide_eq_true ((Option.all_eq_true _ _).mp htest _ halloc)
      have hi := hall i (List.getElem?_eq_some_iff.mp hf).1
      rw [hf] at hi
      exact hi
    | _ => exact absurd h (by simp [isProper])

/-- Both processes write to address 0; process 0 is interrupted, suspended and resumed, and reads on the
other CPU. -/
def twoAtZero : List (Event Bool) :=
  [.request (.initProcess 0 16 (some (fileLines (scripts 0))) ⟨true, true⟩),
    .request (.initProcess 1 16 (some (fileLines (scripts 1))) ⟨true, true⟩),
    .cpu false (.dispatch 0 0), .cpu true (.dispatch 1 0), .execute false true, .execute true true,
    .cpu false (.arrive 0), .cpu false .handle, .cpu false .check, .cpu false .clean, .cpu false .handled,
    .request (Memoria.swapRequest 0), .request (Memoria.unsuspendRequest 0),
    .cpu true .handle, .cpu true .handled, .cpu true .noInstruction, .cpu true (.dispatch 0 1),
    .execute true true]

end Tpso.Virtual
