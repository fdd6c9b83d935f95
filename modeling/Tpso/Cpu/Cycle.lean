/-
# The instruction cycle of a CPU

A CPU has two threads.  The main thread waits for a DISPATCH, and then fetches and executes instructions of
that process until one of them gives up the CPU or an interrupt is found.  The listener puts every INTERRUPT
into a list, and looks through the list itself when the main thread has no process.

Both look through the list in the same way (`interrupt_handler`), the last INTERRUPT first.  One for the
process that the CPU has makes it answer with the context and then clean up, one entry of the cache after
the other; one for any other process is answered as such.  Either kind ends the process's turn.

A step may send messages, and it sees memoria as it is at that moment.
-/
import Tpso.Cpu.Execution

namespace Tpso.Cpu

open Tpso.Lib

/-! ## 1. Instructions and messages -/

/-- The instructions.  Of INIT_PROC the CPU waits for the confirmation. -/
inductive Instruction where
  | noop
  | access (a : Access)
  | goto (target : Int)
  | io (device : String) (time : Int)
  | initProc (file : String) (size : Int) (confirmed : Bool)
  | dumpMemory
  | exit
  | unknown

/-- What a CPU sends to the kernel. -/
inductive Sent where
  | io (pid pc : Int) (device : String) (time : Int)
  | initProc (pid pc : Int) (file : String) (size : Int)
  | dumpMemory (pid pc : Int)
  | exit (pid pc : Int)
  /-- The answer to an INTERRUPT, and whether it was for another process. -/
  | context (pid pc : Int) (other : Bool)
deriving DecidableEq, Repr

/-! ## 2. States -/

/-- Who looks through the list of interrupts: the main thread, after an instruction that asked for
preemption or not, or the listener. -/
inductive Handler where
  | cycle (shouldPreempt : Bool)
  | listener
deriving DecidableEq, Repr

/-- Where the CPU is. -/
inductive Phase where
  /-- In `recv_dispatch`. -/
  | waiting
  /-- Before the next instruction. -/
  | fetching
  /-- After an instruction. -/
  | executed (shouldPreempt : Bool)
  /-- In `interrupt_handler`. -/
  | handling (handler : Handler) (interrupted : Bool)
  /-- In `mmu_process_cleanup`, with the entries before the index done. -/
  | cleaning (handler : Handler) (i : Nat)
deriving DecidableEq, Repr

/-- The state of a CPU.  Of the INTERRUPTs in the list the pid matters. -/
structure CpuState where
  mmu : Mmu
  pid : Int
  pc : Int
  interrupts : List Int
  phase : Phase

/-- Whether the main thread has a process. -/
def Phase.busy : Phase → Bool
  | .waiting => false
  | .fetching => true
  | .executed _ => true
  | .handling (.cycle _) _ => true
  | .handling .listener _ => false
  | .cleaning (.cycle _) _ => true
  | .cleaning .listener _ => false

/-- Whether somebody holds the lock of the list. -/
def Phase.locked : Phase → Bool
  | .handling _ _ => true
  | .cleaning _ _ => true
  | _ => false

/-- A CPU at the start.  Both `pid` and `pc` are 0. -/
def CpuState.start (cfg : Config) (junk : Nat → CacheEntry) : CpuState :=
  ⟨mmuInit cfg junk, 0, 0, [], .waiting⟩

/-! ## 3. Steps -/

/-- What a step of a CPU is. -/
inductive CpuEvent where
  /-- `recv_dispatch`. -/
  | dispatch (pid pc : Int)
  /-- There is no instruction: `fetch` or `decode` returned NULL. -/
  | noInstruction
  /-- `execution`. -/
  | execute (instruction : Instruction)
  /-- The listener puts an INTERRUPT into the list. -/
  | arrive (pid : Int)
  /-- The listener has the CPU to itself. -/
  | listen
  /-- The main thread locks the list. -/
  | handle
  /-- `check_interrupt` for the last INTERRUPT. -/
  | check
  /-- One entry of the clean-up, or its end. -/
  | clean
  /-- The list is empty. -/
  | handled

section Step

variable (cfg : Config) (pe : PageEntries)

/-- `execution`.  A READ or WRITE that fails does not advance the program counter; an unknown
instruction does not either. -/
def executeInstruction (s : CpuState) (mem : Bytes) :
    Instruction → Option (CpuState × Bytes × List Sent)
  | .noop => some ({ s with pc := s.pc + 1, phase := .executed false }, mem, [])
  | .access a =>
    (execution cfg pe s.pid s.mmu mem a).map fun x =>
      ({ s with
        mmu := x.1
        pc := if x.2.2 then s.pc + 1 else s.pc
        phase := .executed false }, x.2.1, [])
  | .goto target => some ({ s with pc := target, phase := .executed false }, mem, [])
  | .io device time =>
    some ({ s with pc := s.pc + 1, phase := .executed true }, mem, [.io s.pid (s.pc + 1) device time])
  | .initProc file size confirmed =>
    some ({ s with pc := s.pc + 1, phase := .executed (!confirmed) }, mem,
      [.initProc s.pid (s.pc + 1) file size])
  | .dumpMemory =>
    some ({ s with pc := s.pc + 1, phase := .executed true }, mem, [.dumpMemory s.pid (s.pc + 1)])
  | .exit => some ({ s with pc := s.pc + 1, phase := .executed true }, mem, [.exit s.pid (s.pc + 1)])
  | .unknown => some ({ s with phase := .executed false }, mem, [])

/-- `check_interrupt`: the context goes out before the clean-up. -/
def checkInterrupt (s : CpuState) (handler : Handler) (pid : Int) (rest : List Int) :
    CpuState × List Sent :=
  if pid = s.pid then
    ({ s with interrupts := rest, phase := .cleaning handler 0 }, [.context pid s.pc false])
  else
    ({ s with interrupts := rest, phase := .handling handler true }, [.context pid s.pc true])

/-- One entry of `mmu_process_cleanup`. -/
def cleanEntry (mmu : Mmu) (mem : Bytes) (i : Nat) : Option (Mmu × Bytes) :=
  (mmu.cache.entries[i]?).bind fun entry =>
    (writebackIfDirty cfg pe mmu.tlb mem entry).map fun x =>
      (⟨x.1, { mmu.cache with entries := mmu.cache.entries.set i entry.invalidated }⟩, x.2)

/-- The end of `mmu_process_cleanup`. -/
def flushTlb (mmu : Mmu) : Mmu :=
  { mmu with tlb := if 0 < cfg.tlbEntries then { mmu.tlb with entries := [] } else mmu.tlb }

/-- The main thread after `interrupt_handler`. -/
def endOfCycle (s : CpuState) (turnEnds : Bool) : CpuState :=
  if turnEnds then { s with pid := -1, pc := -1, phase := .waiting } else { s with phase := .fetching }

/-- **One step of a CPU**: the state, the user space of memoria and the messages after it. -/
def cpuStep (s : CpuState) (mem : Bytes) : CpuEvent → Option (CpuState × Bytes × List Sent)
  | .dispatch pid pc =>
    match s.phase with
    | .waiting => some ({ s with pid := pid, pc := pc, phase := .fetching }, mem, [])
    | _ => none
  | .noInstruction =>
    match s.phase with
    | .fetching => some ({ s with phase := .waiting }, mem, [])
    | _ => none
  | .execute instruction =>
    match s.phase with
    | .fetching =>
      if s.pid < 0 ∨ s.pc < 0 then none else executeInstruction cfg pe s mem instruction
    | _ => none
  | .arrive pid =>
    if s.phase.locked then none
    else some ({ s with interrupts := s.interrupts ++ [pid] }, mem, [])
  | .listen =>
    match s.phase with
    | .waiting => some ({ s with phase := .handling .listener false }, mem, [])
    | _ => none
  | .handle =>
    match s.phase with
    | .executed shouldPreempt =>
      some ({ s with phase := .handling (.cycle shouldPreempt) false }, mem, [])
    | _ => none
  | .check =>
    match s.phase, s.interrupts.getLast? with
    | .handling handler _, some pid =>
      let x := checkInterrupt s handler pid s.interrupts.dropLast
      some (x.1, mem, x.2)
    | _, _ => none
  | .clean =>
    match s.phase with
    | .cleaning handler i =>
      if i < cfg.cacheEntries then
        (cleanEntry cfg pe s.mmu mem i).map fun x =>
          ({ s with mmu := x.1, phase := .cleaning handler (i + 1) }, x.2, [])
      else some ({ s with mmu := flushTlb cfg s.mmu, phase := .handling handler true }, mem, [])
    | _ => none
  | .handled =>
    match s.phase, s.interrupts with
    | .handling (.cycle shouldPreempt) interrupted, [] =>
      some (endOfCycle s (shouldPreempt || interrupted), mem, [])
    | .handling .listener _, [] => some ({ s with phase := .waiting }, mem, [])
    | _, _ => none

end Step

end Tpso.Cpu
