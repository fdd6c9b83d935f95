/-
# Several CPUs and one memoria

Any number of CPUs, each with a TLB and a write-back cache of its own, share the user space of memoria.  The
kernel tells a CPU which process to execute and when to give it up, and asks memoria for processes to be
created, killed, suspended and resumed; which it does when is left open, so that every order of its messages
and of the CPUs' steps is a run.

A modified entry is written back when it is replaced, and when the process is interrupted, entry by entry
AFTER the answer to the interrupt was sent; a process that leaves through a system call leaves its modified
entries in the cache.  `CoherentAt` says what a process relies on when it is executed again; `Settled` says
what the kernel would have to wait for.
-/
import Tpso.Cpu.Sharing
import Tpso.Memoria.Storage

namespace Tpso.Coherence

open Tpso.Lib Tpso.Cpu
open Tpso.Memoria (pageEntries processManagerFindProcess handle)

/-! ## 1. States and steps -/

/-- The configurations.  The CPUs have memoria's sizes and may differ in everything else. -/
structure Cluster (κ : Type) where
  memoria : Memoria.Config
  cpu : κ → Cpu.Config
  shared : ∀ c, (cpu c).memoria = memoria
  cached : ∀ c, 0 < (cpu c).cacheEntries

/-- The states of memoria and of the CPUs.  Three fields are ghosts: the answers to GET_PAGE_ENTRY that
memoria had for a process when it was created, the value that a process last wrote to each of its
addresses, and whether a CPU has executed nothing since its last DISPATCH. -/
structure Machine (κ : Type) where
  memoria : Memoria.State
  cpus : κ → CpuState
  history : Int → Option (Int → Int → Option Int)
  last : Int → Nat → Option UInt8
  fresh : κ → Bool

/-- A step of one CPU, or a request of the kernel that memoria serves. -/
inductive Move (κ : Type) where
  | cpu (c : κ) (event : CpuEvent)
  | request (r : Memoria.Request)

/-- The last value written to each address, after an access. -/
def wroteBytes (w : Nat → Option UInt8) : Access → Nat → Option UInt8
  | .read _ _ => w
  | .write logicDir value => fun x =>
    if 0 ≤ logicDir ∧ logicDir.toNat ≤ x ∧ x < logicDir.toNat + value.length then
      value[x - logicDir.toNat]?
    else w x

section Steps

variable {κ : Type} [DecidableEq κ] (cl : Cluster κ) (M : Machine κ)

/-- An access that is refused writes nothing. -/
def lastAfter (c : κ) : CpuEvent → Int → Nat → Option UInt8
  | .execute (.access a) =>
    if (execution (cl.cpu c) (pageEntries M.memoria) (M.cpus c).pid (M.cpus c).mmu
        M.memoria.userSpace a).any fun x => x.2.2 then
      Function.update M.last (M.cpus c).pid (wroteBytes (M.last (M.cpus c).pid) a)
    else M.last
  | _ => M.last

def freshAfter (c : κ) : CpuEvent → Bool
  | .dispatch _ _ => true
  | .execute _ => false
  | .noInstruction => false
  | _ => M.fresh c

/-- One step.  A CPU sees memoria as it is; READ_MEMORY and WRITE_MEMORY are steps of a CPU. -/
def machineStep : Move κ → Option (Machine κ)
  | .cpu c event =>
    (cpuStep (cl.cpu c) (pageEntries M.memoria) (M.cpus c) M.memoria.userSpace event).map fun x =>
      { M with
        memoria := { M.memoria with userSpace := x.2.1 }
        cpus := Function.update M.cpus c x.1
        last := lastAfter cl M c event
        fresh := Function.update M.fresh c (freshAfter M c event) }
  | .request r =>
    if r.pid?.isSome then
      (handle cl.memoria M.memoria r).map fun x =>
        { M with
          memoria := x.1
          history := remember M.history x.1 r x.2 }
    else none

/-- Every module at its start. -/
def Machine.start (junk : κ → Nat → CacheEntry) : Machine κ where
  memoria := Memoria.State.start cl.memoria
  cpus c := CpuState.start (cl.cpu c) (junk c)
  history _ := none
  last _ _ := none
  fresh _ := false

/-- The CPUs and memoria as a transition system. -/
def system (junk : κ → Nat → CacheEntry) : Lts (Machine κ) (Move κ) :=
  Lts.ofStep (Machine.start cl junk) fun M move => machineStep cl M move

end Steps

/-! ## 2. Coherence -/

section Coherence

variable {κ : Type} (cl : Cluster κ) (M : Machine κ)

/-- **Coherence for the process that a CPU has**: what it last wrote to an address is in memoria, in the
frame that its page table maps, and no CPU keeps back anything of it. -/
structure CoherentAt (c : κ) : Prop where
  written : ∀ x v, M.last (M.cpus c).pid x = some v →
    ∃ frame : Nat, mmuPerformPageWalk (cl.cpu c) (pageEntries M.memoria)
        (x / cl.memoria.tamPagina : Nat) (M.cpus c).pid = some (frame : Int) ∧
      M.memoria.userSpace (frame * cl.memoria.tamPagina + x % cl.memoria.tamPagina) = v
  clean : ∀ c', ∀ e ∈ (M.cpus c').mmu.cache.entries, e.Dirty → e.pid ≠ (M.cpus c).pid

/-- Nothing in the cache of a CPU is modified. -/
def CacheClean (c : κ) : Prop := ∀ e ∈ (M.cpus c).mmu.cache.entries, ¬ e.Dirty

/-- The CPU is not done with the process that it has: the process may still access memory, or some of what
it wrote has not been written back. -/
def AtWork (c : κ) : Prop :=
  (M.cpus c).phase.mayAccess = true ∨ ∃ e ∈ (M.cpus c).mmu.cache.entries, e.Dirty

/-! ## 3. The condition -/

/-- The condition on an access: it lies in a page of its process and does not hit the entry of another
process, and a WRITE that extends the modified region of an entry over bytes that the process wrote before
finds them in the entry. -/
structure OwnAccess (c : κ) (a : Access) : Prop where
  inside : a.InsidePage (cl.cpu c)
  mapped : ∃ p, processManagerFindProcess M.memoria.processes (M.cpus c).pid = some p ∧
    pageOf (cl.cpu c) a.logicDir < cl.memoria.pagesNeeded p.processSize
  own : ∀ e ∈ (M.cpus c).mmu.cache.entries, e.isValid = true → e.page = pageOf (cl.cpu c) a.logicDir →
    e.pid = (M.cpus c).pid
  gap : ∀ x v v', GapByte (cl.cpu c) (fun _ page => page.toNat * cl.memoria.tamPagina) (M.cpus c).pid
      (M.cpus c).mmu.cache a x v → M.last (M.cpus c).pid x = some v' → v = v'

/-- The condition on a request: a process is killed or suspended only when no CPU is at work for it, killed
only while it is resident, and resumed only to the frames that its page table names; and pids are not
reused. -/
structure SettledRequest (r : Memoria.Request) : Prop where
  kills : Memoria.KillsResident M.memoria r
  resumes : Memoria.ResumesInPlace cl.memoria M.memoria r
  fresh : ∀ pid size file left, r = .initProcess pid size file left → M.history pid = none
  idle : ∀ pid, (r = .killProcess pid ∨ ∃ written, r = .swap pid written) →
    ∀ c, AtWork M c → (M.cpus c).pid ≠ pid

/-- **The condition on a step.**  A DISPATCH is for a resident process for which no other CPU is at work,
and a turn ends only when nothing in the cache is modified. -/
def Settled : Move κ → Prop
  | .cpu c (.dispatch pid _) => Memoria.Loaded M.memoria pid ∧
    ∀ c', c' ≠ c → AtWork M c' → (M.cpus c').pid ≠ pid
  | .cpu c (.execute (.access a)) => OwnAccess cl M c a
  | .cpu c .noInstruction => CacheClean M c
  | .cpu c .handled => (M.cpus c).phase.mayAccess = false → CacheClean M c
  | .request r => SettledRequest cl M r
  | _ => True

end Coherence

end Tpso.Coherence
