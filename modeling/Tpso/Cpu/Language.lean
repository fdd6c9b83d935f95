/-
# The language of the scripts

A script is a program in a small language: its statements access the memory of the process, jump, call the
kernel, or do nothing.  Each of them is given a meaning here that knows nothing of frames, page tables or
TLBs: where the program counter goes, which bytes of the process are written, by their logical addresses,
which bytes a READ may show, and what is sent to the kernel.

`execution` does what the statement means.  For the statements that do not access memory that holds of every
CPU (`executeInstruction_plain`); for READ and WRITE it is said here of CPUs without a cache, and of blocks
that lie in one page or in two whose frames follow each other (`executeInstruction_write`,
`executeInstruction_read`), with the TLB that the CPU has, or without one.
-/
import Tpso.Cpu.Script
import Tpso.Cpu.Cycle
import Tpso.Cpu.Loading
import Tpso.Cpu.Sharing

namespace Tpso.Cpu

open Tpso.Lib
open Tpso.Memoria (pageEntries readFromUserSpace writeToUserSpace)

/-! ## 1. The meaning of a statement -/

/-- The bytes that a process has written, by their logical addresses. -/
abbrev Image := Nat → Option UInt8

/-- The text of a token. -/
def textOf (token : List UInt8) : String := String.ofList (token.map charOf)

namespace Statement

/-- The program counter after the statement. -/
def next : Statement → Int → Int
  | .goto n, _ => n.toInt
  | _, pc => pc + 1

/-- The bytes of the process after the statement. -/
def writes : Statement → Image → Image
  | .write n s, image => fun x =>
    if n.toInt.toNat ≤ x ∧ x < n.toInt.toNat + s.length then s[x - n.toInt.toNat]? else image x
  | _, image => image

/-- **What a statement may show**: a READ as many bytes as it asks for, and among them those that the process
has written; the others nothing. -/
def Shows (image : Image) : Statement → Option (List UInt8) → Prop
  | .read n m, some bytes => (bytes.length : Int) = m.toInt ∧
    ∀ k < bytes.length, ∀ v, image (n.toInt.toNat + k) = some v → bytes[k]? = some v
  | .read _ _, none => False
  | _, value => value = none

/-- What a statement sends to the kernel, with the program counter behind it. -/
def sends (pid pc : Int) : Statement → List Sent
  | .io s n => [.io pid (pc + 1) (textOf s) n.toInt]
  | .initProc s n => [.initProc pid (pc + 1) (textOf s) n.toInt]
  | .dumpMemory => [.dumpMemory pid (pc + 1)]
  | .exit => [.exit pid (pc + 1)]
  | _ => []

/-- Whether the process gives up the CPU, given whether an INIT_PROC was confirmed. -/
def preempts (confirmed : Bool) : Statement → Bool
  | .io _ _ | .dumpMemory | .exit => true
  | .initProc _ _ => !confirmed
  | _ => false

/-- The address and the size of the block that a statement accesses. -/
def block : Statement → Option (Int × Nat)
  | .read n m => some (n.toInt, m.toInt.toNat)
  | .write n s => some (n.toInt, s.length)
  | _ => none

/-- The instruction of a statement. -/
def instruction (confirmed : Bool) : Statement → Instruction
  | .noop => .noop
  | .exit => .exit
  | .dumpMemory => .dumpMemory
  | .goto n => .goto n.toInt
  | .read n m => .access (.read n.toInt m.toInt)
  | .write n s => .access (.write n.toInt s)
  | .io s n => .io (textOf s) n.toInt
  | .initProc s n => .initProc (textOf s) n.toInt confirmed

end Statement

/-! ## 2. The switch of `execution` -/

/-- What `execution` makes of a record.  A string that is NULL is followed; of one whose size is not that of
the string other bytes are used. -/
def instructionOf (r : TInstruction) (confirmed : Bool) : Option Instruction :=
  match r.instructionCode with
  | .noop => some .noop
  | .write =>
    r.operandString.bind fun s =>
      if r.operandStringSize.toInt = s.length then some (.access (.write r.operandNumeric1.toInt s))
      else none
  | .read => some (.access (.read r.operandNumeric1.toInt r.operandNumeric2.toInt))
  | .goto => some (.goto r.operandNumeric1.toInt)
  | .io => r.operandString.map fun s => .io (textOf s) r.operandNumeric1.toInt
  | .initProc => r.operandString.map fun s => .initProc (textOf s) r.operandNumeric1.toInt confirmed
  | .dumpMemory => some .dumpMemory
  | .exit => some .exit
  | .unknown => some .unknown

/-- The record of a statement is executed as its instruction. -/
theorem instructionOf_record {st : Statement} {confirmed : Bool} {i : Instruction}
    (h : instructionOf st.record confirmed = some i) : i = st.instruction confirmed := by
  cases st with
  | write n s =>
    by_cases hsize : (Int32.ofNat s.length).toInt = s.length
    · exact (Option.some.inj ((if_pos hsize).symm.trans h)).symm
    · exact absurd ((if_neg hsize).symm.trans h) (by simp)
  | _ => exact (Option.some.inj h).symm

/-- What a READ without the cache logs. -/
def readValue (cfg : Config) (pe : PageEntries) (pid : Int) (tlb : Tlb) (mem : Bytes) (logicDir size : Int) :
    Option (List UInt8) :=
  (translate cfg pe pid tlb logicDir).bind fun x => readFromUserSpace cfg.memoria mem x.2 size

/-- What an instruction logs of the memory. -/
def shown (cfg : Config) (pe : PageEntries) (s : CpuState) (mem : Bytes) : Instruction → Option (List UInt8)
  | .access (.read logicDir size) => readValue cfg pe s.pid s.mmu.tlb mem logicDir size
  | _ => none

/-! ## 3. Statements that do not access memory -/

section Plain

variable (cfg : Config) (pe : PageEntries) (s : CpuState) (mem : Bytes) (confirmed : Bool) {st : Statement}

/-- **Executing such a statement** does what it means, and leaves the MMU and the memory alone. -/
theorem executeInstruction_plain (h : st.block = none) :
    executeInstruction cfg pe s mem (st.instruction confirmed) =
      some ({ s with pc := st.next s.pc, phase := .executed (st.preempts confirmed) }, mem,
        st.sends s.pid s.pc) ∧
      (∀ image, st.writes image = image) ∧
      ∀ image, st.Shows image (shown cfg pe s mem (st.instruction confirmed)) := by
  cases st with
  | read n m => exact absurd h (by simp [Statement.block])
  | write n s => exact absurd h (by simp [Statement.block])
  | _ => exact ⟨rfl, fun _ => rfl, fun _ => rfl⟩

end Plain

/-! ## 4. Statements that access memory, without the cache -/

/-- **The block fits**: it lies in the process, and in one page or in two whose frames follow each other. -/
structure Fits (cfg : Config) (fs : List Nat) (a : Int) (n : Nat) : Prop where
  nonneg : 0 ≤ a
  pos : 0 < n
  inside : a.toNat + n ≤ fs.length * cfg.pageSize
  contiguous : Contiguous cfg fs a.toNat n

section Access

variable {cfg : Config} {s : CpuState} {m : Memoria.State} {history : Int → Option (Int → Int → Option Int)}
  {fs : List Nat} {a : Int} {n : Nat}

/-- What a block that fits is, physically: a block at the address of its first byte. -/
theorem Fits.physical {pid : Int} (hfits : Fits cfg fs a n) (hres : Resident cfg m pid fs) :
    n ≤ cfg.pageSize ∧ byteAddr cfg fs a.toNat + n ≤ cfg.memoria.tamMemoria ∧
      ∀ k < n, byteAddr cfg fs (a.toNat + k) = byteAddr cfg fs a.toNat + k := by
  have hne : List.replicate n (0 : UInt8) ≠ [] := by
    have := hfits.pos
    simp only [ne_eq, List.replicate_eq_nil_iff]
    omega
  have hlen : (List.replicate n (0 : UInt8)).length = n := List.length_replicate
  obtain ⟨hskip, hbytes⟩ := hres.contiguous hne (by rw [hlen]; exact hfits.inside)
    (by rw [hlen]; exact hfits.contiguous)
  rw [hlen] at hskip hbytes
  simp only [skips, decide_eq_false_iff_not, not_or, not_lt] at hskip
  exact ⟨hskip.1, hskip.2, hbytes⟩

/-- **The translation of a logical address**, from the TLB or by a page walk. -/
theorem translate_resident (h : Transparent cfg ⟨s.mmu, m, history⟩) (hres : Resident cfg m s.pid fs)
    (ha : 0 ≤ a) (hlt : a.toNat < fs.length * cfg.pageSize) :
    ∃ tlb', translate cfg (pageEntries m) s.pid s.mmu.tlb a = some (tlb', (byteAddr cfg fs a.toNat : Int)) ∧
      Transparent cfg ⟨{ s.mmu with tlb := tlb' }, m, history⟩ := by
  obtain ⟨l, rfl⟩ := Int.eq_ofNat_of_zero_le ha
  rw [Int.toNat_natCast] at hlt ⊢
  obtain ⟨f, hf, -, haddr⟩ := hres.frame hlt
  have hpage : pageOf cfg l = (l / cfg.pageSize : Nat) := (Int.ofNat_tdiv l cfg.pageSize).symm
  have hoffset : offsetOf cfg l = (l % cfg.pageSize : Nat) := (Int.ofNat_tmod l cfg.pageSize).symm
  obtain ⟨p, t, hfind, -⟩ := hres.record
  have hwalk : mmuPerformPageWalk cfg (TlbState.remembered ⟨s.mmu, m, history⟩) (pageOf cfg l) s.pid =
      some (f : Int) := by
    rw [← h.walk_eq hfind, hpage]
    exact hres.walk hf
  have hsame : pageEntries m s.pid = TlbState.remembered ⟨s.mmu, m, history⟩ s.pid := by
    have hpid : p.pid = s.pid := by simpa using List.find?_some hfind
    have hans : history p.pid = some (pageEntries m p.pid) := h.answers p (Memoria.mem_of_find hfind)
    rw [hpid] at hans
    simp [TlbState.remembered, hans]
  have htranslated : ∃ tlb', translate cfg (TlbState.remembered ⟨s.mmu, m, history⟩) s.pid s.mmu.tlb l =
      some (tlb', physicalAddress cfg f (offsetOf cfg l)) ∧
        TlbOk cfg (TlbState.remembered ⟨s.mmu, m, history⟩) tlb' := translate_eq h.tlb hwalk
  obtain ⟨tlb', htrans, htlb⟩ := htranslated
  have hmod := Nat.mod_lt l (pageSize_pos cfg)
  rw [hoffset, physicalAddress_eq (hres.lt f (List.mem_of_getElem? hf)) hmod.le, ← haddr] at htrans
  refine ⟨tlb', ?_, h.shaped, h.nodup, h.answers, htlb, h.clean⟩
  rw [translate_congr hsame, htrans]

/-- **A WRITE** stores its string at its logical address and changes nothing else. -/
theorem executeInstruction_write (mem : Bytes) (hcache : cfg.cacheEntries = 0)
    (h : Transparent cfg ⟨s.mmu, m, history⟩) (hres : Resident cfg m s.pid fs) {value : List UInt8}
    (hfits : Fits cfg fs a value.length) :
    ∃ tlb' mem', executeInstruction cfg (pageEntries m) s mem (.access (.write a value)) =
        some ({ s with mmu := { s.mmu with tlb := tlb' }, pc := s.pc + 1, phase := .executed false }, mem', []) ∧
      WritesExactly cfg fs mem mem' a.toNat value ∧
      Transparent cfg ⟨{ s.mmu with tlb := tlb' }, m, history⟩ := by
  obtain ⟨hshort, hend, hbytes⟩ := hfits.physical hres
  have hlt : a.toNat < fs.length * cfg.pageSize := by
    have := hfits.inside
    have := hfits.pos
    omega
  obtain ⟨tlb', htrans, htlb⟩ := translate_resident h hres hfits.nonneg hlt
  refine ⟨tlb', mem.blit (byteAddr cfg fs a.toNat) value, ?_, writesExactly_blit hbytes, htlb⟩
  have hskip : skips cfg (byteAddr cfg fs a.toNat) value.length = false := by
    simp only [skips, decide_eq_false_iff_not]
    omega
  have hpage : cfg.pageSize ≤ cfg.memoria.tamMemoria := by
    obtain ⟨f, -, hframe, -⟩ := hres.frame hlt
    omega
  have hwrite : writeToUserSpace cfg.memoria mem (byteAddr cfg fs a.toNat) value =
      some (mem.blit (byteAddr cfg fs a.toNat) value) := by
    rw [writeToUserSpace_nat (by omega) hpage, hskip]
    rfl
  simp only [executeInstruction, execution, hcache, lt_irrefl, if_false, writeDirect, htrans,
    Option.bind_some, hwrite, Option.map_some, if_true]

/-- **A READ** shows the bytes at its logical address and changes nothing. -/
theorem executeInstruction_read (mem : Bytes) (hcache : cfg.cacheEntries = 0)
    (h : Transparent cfg ⟨s.mmu, m, history⟩) (hres : Resident cfg m s.pid fs) {size : Int}
    (hfits : Fits cfg fs a size.toNat) :
    ∃ tlb' bytes, executeInstruction cfg (pageEntries m) s mem (.access (.read a size)) =
        some ({ s with mmu := { s.mmu with tlb := tlb' }, pc := s.pc + 1, phase := .executed false }, mem, []) ∧
      readValue cfg (pageEntries m) s.pid s.mmu.tlb mem a size = some bytes ∧
      (bytes.length : Int) = size ∧
      (∀ k < bytes.length, bytes[k]? = some (mem (byteAddr cfg fs (a.toNat + k)))) ∧
      Transparent cfg ⟨{ s.mmu with tlb := tlb' }, m, history⟩ := by
  obtain ⟨hshort, hend, hbytes⟩ := hfits.physical hres
  have hpos := hfits.pos
  obtain ⟨n, rfl⟩ := Int.eq_ofNat_of_zero_le (a := size) (by omega)
  rw [Int.toNat_natCast] at hend hbytes
  obtain ⟨tlb', htrans, htlb⟩ := translate_resident h hres hfits.nonneg (by have := hfits.inside; omega)
  have hread : readFromUserSpace cfg.memoria mem (byteAddr cfg fs a.toNat) n =
      some (mem.slice (byteAddr cfg fs a.toNat) n) := by
    rw [readFromUserSpace_nat (by omega) (by omega), if_neg (by omega)]
  have hdirect : readDirect cfg (pageEntries m) s.pid s.mmu mem a n =
      some ({ s.mmu with tlb := tlb' }, mem, true) := by
    rw [readDirect, htrans, Option.bind_some, hread]
    rfl
  refine ⟨tlb', mem.slice (byteAddr cfg fs a.toNat) n, ?_, ?_, by simp, ?_, htlb⟩
  · simp only [executeInstruction, execution, hcache, lt_irrefl, if_false, hdirect, Option.map_some, if_true]
  · rw [readValue, htrans, Option.bind_some]
    exact hread
  · intro k hk
    rw [hbytes k (by simpa using hk), List.getElem?_eq_getElem hk]
    simp [Bytes.slice]

end Access

end Tpso.Cpu
