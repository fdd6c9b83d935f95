/-
# The CPUs as the schedulers see them

A kernel has a dispatch socket and an interrupt socket to each of its CPUs.  `CpuLink` is one CPU with what
is in its sockets, in both directions.  For the schedulers three things of it count:

* whether the CPU is IDLE: its main thread has ended the turn of its process, and no DISPATCH is unread;
* how many INTERRUPTs are PENDING: sent, and the answer not read by the kernel;
* how many CPUs its unread syscalls KEEP BACK: an IO, EXIT or DUMP_MEMORY has ended the turn, and the
  kernel has not heard of it.

`linkMove` says what a step of the CPU does to them, and `view_deliver` what a package of the kernel does.
-/
import Tpso.System.Syscalls

namespace Tpso.Work

open Tpso.Lib Tpso.Kernel
open Tpso.Cpu (Threads ThreadsEvent MainThread FromKernel Sent threadsStep)
open Tpso.Syscalls (CpuContext handlerOf contextOf)

/-! ## 1. A CPU and its sockets -/

/-- A CPU, and what is in its two sockets. -/
structure CpuLink where
  threads : Threads
  /-- Syscalls on the way to the kernel, by the handler they will start. -/
  syscalls : List Thread
  /-- The processes for which `handle_dispatch_client` has started `handle_init_proc_syscall`. -/
  calls : List Nat
  contexts : List CpuContext
  inbox : List FromKernel
  interrupts : List Nat

/-- The CPU waits, and nothing is in the sockets. -/
def CpuLink.start : CpuLink := ⟨.start, [], [], [], [], []⟩

/-- A step of the CPU that receives takes its message from the socket. -/
def CpuLink.receive (l : CpuLink) : ThreadsEvent → Option CpuLink
  | .recvDispatch package | .answer package =>
    if l.inbox.head? = some package then some { l with inbox := l.inbox.tail } else none
  | .recvInterrupt pid =>
    if l.interrupts.head?.map Int.ofNat = some pid then some { l with interrupts := l.interrupts.tail }
    else none
  | _ => some l

/-- What the CPU has sent goes into the sockets. -/
def CpuLink.post (l : CpuLink) (out : List Sent) : CpuLink :=
  { l with
    syscalls := l.syscalls ++ out.filterMap handlerOf
    contexts := l.contexts ++ out.filterMap contextOf }

/-- One step of the CPU. -/
def CpuLink.step (l : CpuLink) (e : ThreadsEvent) : Option CpuLink :=
  (l.receive e).bind fun l1 =>
    (threadsStep l1.threads e).map fun x => CpuLink.post { l1 with threads := x.1 } x.2

/-- A package goes into the socket of its CPU; a CONFIRMATION goes to the CPU whose syscall is handled. -/
def deliver (client : Nat) (cpus : List CpuLink) : Package → List CpuLink
  | .dispatch cpu pid pc => cpus.modify cpu fun l => { l with inbox := l.inbox ++ [.dispatch pid pc] }
  | .confirmation _ => cpus.modify client fun l => { l with inbox := l.inbox ++ [.confirmation] }
  | .interrupt cpu pid => cpus.modify cpu fun l => { l with interrupts := l.interrupts ++ [pid] }
  | .ioOperation _ _ _ => cpus

/-- What a section takes from a CPU: the answer to its INTERRUPT, or the INIT_PROC it handles. -/
def take (client : Nat) (ch : Choice) (cpus : List CpuLink) : Thread → Option (List CpuLink)
  | .shortWait _ cpu _ =>
    (cpus[cpu]?).bind fun l =>
      match l.contexts with
      | [] => none
      | c :: rest =>
        if ch.answer = c.same ∧ ch.pc = c.pc then some (cpus.modify cpu fun l => { l with contexts := rest })
        else none
  | .initProc callerPid _ _ =>
    (cpus[client]?).bind fun l =>
      if callerPid ∈ l.calls then
        some (cpus.modify client fun l => { l with calls := l.calls.erase callerPid })
      else none
  | _ => some cpus

/-! ## 2. What the schedulers see -/

/-- The main thread has ended the turn of its process. -/
def turnOver : MainThread → Bool
  | .receiving => true
  | .executed shouldPreempt => shouldPreempt
  | .handling shouldPreempt interrupted => shouldPreempt || interrupted
  | .handled turnEnds => turnEnds
  | _ => false

def isDispatch : FromKernel → Bool
  | .dispatch _ _ => true
  | .confirmation => false

/-- The CPU executes no process, and none is on its way to it. -/
def CpuLink.idle (l : CpuLink) : Bool := turnOver l.threads.main && !l.inbox.any isDispatch

/-- The INTERRUPTs whose answer the kernel has not read. -/
def CpuLink.pending (l : CpuLink) : Nat :=
  l.interrupts.length + l.threads.interrupts.length + l.contexts.length

/-- A syscall that gave its CPU up and has not started its scheduler yet keeps one CPU back. -/
def keepsBack : Thread → Nat
  | .io _ _ _ _ | .exit _ | .dump _ _ | .dumpWait _ => 1
  | _ => 0

/-- The CPUs that the unread syscalls keep back. -/
def CpuLink.kept (l : CpuLink) : Nat := (l.syscalls.map keepsBack).sum

/-- What the schedulers see of a CPU. -/
structure View where
  idle : Bool
  pending : Nat
  kept : Nat

def CpuLink.view (l : CpuLink) : View := ⟨l.idle, l.pending, l.kept⟩

/-! ## 3. Steps of a CPU -/

section Steps

variable {l l' l1 : CpuLink} {e : ThreadsEvent}

/-- What a step of a CPU does to what the schedulers see. -/
inductive LinkMove (l : CpuLink) (e : ThreadsEvent) (l' : CpuLink) : Prop
  /-- Nothing. -/
  | same (hidle : l'.idle = l.idle) (hkept : l'.kept = l.kept)
  /-- An IO, EXIT or DUMP_MEMORY ends the turn. -/
  | givesUp (hidle : l.idle = false) (hkept : l'.kept = l.kept + 1)
  /-- The answer to an INTERRUPT ends the turn. -/
  | answers (hinterrupts : l.threads.interrupts ≠ []) (hidle : l.idle = true → l'.idle = true)
    (hkept : l'.kept = l.kept)
  /-- `fetch` or `decode` ends the turn. -/
  | noInstruction (he : e = .noInstruction) (hidle : l.idle = false)
    (hidle' : l'.idle = !l.inbox.any isDispatch) (hkept : l'.kept = l.kept)
  /-- A DISPATCH is taken for the answer to INIT_PROC, which ends the turn. -/
  | noAnswer (pid pc : Int) (he : e = .answer (.dispatch pid pc)) (hidle : l.idle = false)
    (hidle' : l'.idle = !l.inbox.tail.any isDispatch) (hkept : l'.kept = l.kept)
  /-- `recv_dispatch` receives a CONFIRMATION. -/
  | letIn (he : e = .recvDispatch .confirmation)

@[simp] theorem post_nil (l : CpuLink) : l.post [] = l := by simp [CpuLink.post]

/-- The answer to an INTERRUPT goes into its socket. -/
theorem post_contextFor (l : CpuLink) (c : Threads) (pid : Int) :
    (l.post [Cpu.contextFor c pid]).kept = l.kept ∧
      (l.post [Cpu.contextFor c pid]).pending = l.pending + 1 := by
  have hhandler : [Cpu.contextFor c pid].filterMap handlerOf = [] := rfl
  constructor
  · simp [CpuLink.post, CpuLink.kept, hhandler]
  · simp [CpuLink.post, CpuLink.pending, Cpu.contextFor, contextOf, Nat.add_assoc]

/-- An INTERRUPT that is taken from the list to be answered. -/
theorem pending_dropLast (l : CpuLink) (main : MainThread) (h : l.threads.interrupts ≠ []) :
    CpuLink.pending { l with threads :=
      { l.threads with main := main, interrupts := l.threads.interrupts.dropLast } } + 1 = l.pending := by
  have hpos := List.length_pos_of_ne_nil h
  simp only [CpuLink.pending, List.length_dropLast]
  omega

/-- A package that is received was the first in the dispatch socket. -/
theorem receive_package {package : FromKernel}
    (h : (if l.inbox.head? = some package then some { l with inbox := l.inbox.tail } else none) = some l1) :
    ∃ rest, l.inbox = package :: rest ∧ l1 = { l with inbox := rest } := by
  split at h
  · rename_i hhead
    obtain ⟨rest, hrest⟩ := List.head?_eq_some_iff.mp hhead
    refine ⟨rest, hrest, (Option.some.inj h).symm.trans ?_⟩
    rw [hrest]
    rfl
  · exact absurd h (by simp)

/-- **A step of a CPU is one of these, and loses no INTERRUPT.** -/
theorem linkMove (h : l.step e = some l') : LinkMove l e l' ∧ l'.pending = l.pending := by
  obtain ⟨l1, hreceive, h⟩ := Option.bind_eq_some_iff.mp h
  obtain ⟨⟨c, out⟩, hst, rfl⟩ := Option.map_eq_some_iff.mp h
  cases Cpu.threadsStep_cases hst with
  | dispatched pid pc hmain =>
    obtain ⟨rest, hinbox, rfl⟩ := receive_package hreceive
    rw [post_nil]
    refine ⟨.same ?_ rfl, rfl⟩
    simp [CpuLink.idle, turnOver, hinbox, isDispatch]
  | letIn hmain =>
    obtain ⟨rest, hinbox, rfl⟩ := receive_package hreceive
    rw [post_nil]
    exact ⟨.letIn rfl, rfl⟩
  | answer package hmain =>
    obtain ⟨rest, hinbox, rfl⟩ := receive_package hreceive
    have hmain' : l.threads.main = .calling := hmain
    have hidle : l.idle = false := by simp [CpuLink.idle, turnOver, hmain']
    rw [post_nil]
    refine ⟨?_, rfl⟩
    cases package with
    | confirmation =>
      refine .same ?_ rfl
      rw [hidle]
      simp [CpuLink.idle, turnOver]
    | dispatch pid pc =>
      refine .noAnswer pid pc rfl hidle ?_ rfl
      simp [CpuLink.idle, turnOver, hinbox]
  | recvInterrupt pid hlistener =>
    simp only [CpuLink.receive] at hreceive
    split at hreceive
    · rename_i hhead
      obtain rfl := Option.some.inj hreceive
      rw [post_nil]
      refine ⟨.same rfl rfl, ?_⟩
      cases hinterrupts : l.interrupts with
      | nil => simp [hinterrupts] at hhead
      | cons first rest =>
        simp only [CpuLink.pending, hinterrupts, List.tail_cons, List.length_append, List.length_cons,
          List.length_nil]
        omega
    · exact absurd hreceive (by simp)
  | noInstruction hmain =>
    obtain rfl := Option.some.inj hreceive
    rw [post_nil]
    refine ⟨.noInstruction rfl ?_ ?_ rfl, rfl⟩
    · simp [CpuLink.idle, turnOver, hmain]
    · simp [CpuLink.idle, turnOver]
  | execute instruction success hmain hpid =>
    obtain rfl := Option.some.inj hreceive
    have hidle : l.idle = false := by simp [CpuLink.idle, turnOver, hmain]
    cases instruction with
    | io device time =>
      refine ⟨.givesUp hidle ?_, ?_⟩
      · simp [CpuLink.post, CpuLink.kept, Cpu.executeSyscall, handlerOf, keepsBack]
      · simp [CpuLink.post, CpuLink.pending, Cpu.executeSyscall, contextOf]
    | dumpMemory =>
      refine ⟨.givesUp hidle ?_, ?_⟩
      · simp [CpuLink.post, CpuLink.kept, Cpu.executeSyscall, handlerOf, keepsBack]
      · simp [CpuLink.post, CpuLink.pending, Cpu.executeSyscall, contextOf]
    | exit =>
      refine ⟨.givesUp hidle ?_, ?_⟩
      · simp [CpuLink.post, CpuLink.kept, Cpu.executeSyscall, handlerOf, keepsBack]
      · simp [CpuLink.post, CpuLink.pending, Cpu.executeSyscall, contextOf]
    | initProc file size _ =>
      refine ⟨.same ?_ ?_, ?_⟩
      · rw [hidle]
        simp [CpuLink.post, CpuLink.idle, Cpu.executeSyscall, turnOver]
      · simp [CpuLink.post, CpuLink.kept, Cpu.executeSyscall, handlerOf, keepsBack]
      · simp [CpuLink.post, CpuLink.pending, Cpu.executeSyscall, contextOf]
    | _ =>
      simp only [Cpu.executeSyscall, post_nil]
      refine ⟨.same ?_ rfl, rfl⟩
      rw [hidle]
      simp [CpuLink.idle, turnOver]
  | check shouldPreempt interrupted pid hmain =>
    obtain rfl := Option.some.inj hreceive
    have hlast : l.threads.interrupts ≠ [] := by
      intro hnil
      simp [threadsStep, hmain, hnil] at hst
    obtain ⟨hkept, hpending⟩ := post_contextFor { l with threads := { l.threads with
      main := .handling shouldPreempt true, interrupts := l.threads.interrupts.dropLast } } l.threads pid
    refine ⟨.answers hlast ?_ hkept, hpending.trans (pending_dropLast l _ hlast)⟩
    simp [CpuLink.post, CpuLink.idle, turnOver]
  | checkListened pid hlistener =>
    obtain rfl := Option.some.inj hreceive
    have hlast : l.threads.interrupts ≠ [] := by
      intro hnil
      simp [threadsStep, hlistener, hnil] at hst
    obtain ⟨hkept, hpending⟩ := post_contextFor { l with threads := { l.threads with
      interrupts := l.threads.interrupts.dropLast } } l.threads pid
    exact ⟨.same rfl hkept, hpending.trans (pending_dropLast l _ hlast)⟩
  | _ =>
    obtain rfl := Option.some.inj hreceive
    rw [post_nil]
    refine ⟨.same ?_ rfl, rfl⟩
    simp_all [CpuLink.idle, turnOver]

end Steps

/-! ## 4. Packages of the kernel -/

section Packages

variable {cpus cpus' : List CpuLink} {client : Nat}

theorem view_modify {f : CpuLink → CpuLink} {g : View → View} (h : ∀ l, (f l).view = g l.view)
    (cpus : List CpuLink) (i : Nat) :
    (cpus.modify i f).map CpuLink.view = (cpus.map CpuLink.view).modify i g := by
  refine List.ext_getElem? fun j => ?_
  rw [List.getElem?_map, List.getElem?_modify, List.getElem?_modify, List.getElem?_map]
  cases cpus[j]? with
  | none => rfl
  | some l =>
    by_cases hij : i = j
    · simp [hij, h l]
    · simp [hij]

/-- A change that the schedulers do not see. -/
theorem view_modify_self {f : CpuLink → CpuLink} (h : ∀ l, (f l).view = l.view) (cpus : List CpuLink)
    (i : Nat) : (cpus.modify i f).map CpuLink.view = cpus.map CpuLink.view := by
  rw [view_modify (g := id) h, List.modify_id]

/-- The CPU that receives a DISPATCH or an INTERRUPT. -/
def cpuOf : Package → Option Nat
  | .dispatch cpu _ _ => some cpu
  | .interrupt cpu _ => some cpu
  | _ => none

/-- Other packages are not seen. -/
theorem view_deliver_quiet {ps : List Package} (h : ∀ p ∈ ps, cpuOf p = none) :
    (ps.foldl (deliver client) cpus).map CpuLink.view = cpus.map CpuLink.view := by
  induction ps generalizing cpus with
  | nil => rfl
  | cons p ps ih =>
    rw [List.foldl_cons, ih fun q hq => h q (List.mem_cons_of_mem p hq)]
    have hp := h p List.mem_cons_self
    cases p with
    | dispatch cpu pid pc => simp [cpuOf] at hp
    | interrupt cpu pid => simp [cpuOf] at hp
    | confirmation pid =>
      refine view_modify_self (fun l => ?_) cpus client
      simp [CpuLink.view, CpuLink.idle, CpuLink.pending, CpuLink.kept, isDispatch]
    | ioOperation socket pid time => rfl

/-- A DISPATCH leaves the CPU not idle. -/
theorem view_deliver_dispatch (client : Nat) (cpus : List CpuLink) (cpu pid : Nat) (pc : Int) :
    (deliver client cpus (.dispatch cpu pid pc)).map CpuLink.view =
      (cpus.map CpuLink.view).modify cpu fun v => { v with idle := false } := by
  refine view_modify (fun l => ?_) cpus cpu
  simp [CpuLink.view, CpuLink.idle, CpuLink.pending, CpuLink.kept, isDispatch]

/-- An INTERRUPT is pending. -/
theorem view_deliver_interrupt (client : Nat) (cpus : List CpuLink) (cpu pid : Nat) :
    (deliver client cpus (.interrupt cpu pid)).map CpuLink.view =
      (cpus.map CpuLink.view).modify cpu fun v => { v with pending := v.pending + 1 } := by
  refine view_modify (fun l => ?_) cpus cpu
  simp only [CpuLink.view, CpuLink.pending, List.length_append, List.length_singleton]
  congr 1
  omega

/-- The answer to an INTERRUPT is read. -/
theorem view_take_shortWait {ch : Choice} {caller : ShortCaller} {cpu pid : Nat}
    (h : take client ch cpus (.shortWait caller cpu pid) = some cpus') :
    (∀ v, (cpus.map CpuLink.view)[cpu]? = some v → 0 < v.pending) ∧
      cpus'.map CpuLink.view =
        (cpus.map CpuLink.view).modify cpu fun v => { v with pending := v.pending - 1 } := by
  simp only [take] at h
  obtain ⟨l, hl, h⟩ := Option.bind_eq_some_iff.mp h
  split at h
  · exact absurd h (by simp)
  · rename_i c rest hcontexts
    obtain ⟨-, hcpus⟩ := Option.ite_none_right_eq_some.mp h
    obtain rfl := Option.some.inj hcpus
    refine ⟨fun v hv => ?_, ?_⟩
    · rw [List.getElem?_map, hl] at hv
      obtain rfl := Option.some.inj hv
      simp only [CpuLink.view, CpuLink.pending, hcontexts, List.length_cons]
      omega
    · refine List.ext_getElem? fun j => ?_
      rw [List.getElem?_map, List.getElem?_modify, List.getElem?_modify, List.getElem?_map]
      by_cases hj : cpu = j
      · subst hj
        simp only [hl, CpuLink.view, CpuLink.idle, CpuLink.kept, CpuLink.pending, hcontexts,
          Option.map_eq_map, Option.map_some, ↓reduceIte, List.length_cons]
        rfl
      · simp [hj]

/-- Other sections take nothing that is seen. -/
theorem view_take {ch : Choice} {t : Thread} (ht : ∀ caller cpu pid, t ≠ .shortWait caller cpu pid)
    (h : take client ch cpus t = some cpus') : cpus'.map CpuLink.view = cpus.map CpuLink.view := by
  cases t with
  | shortWait caller cpu pid => exact absurd rfl (ht caller cpu pid)
  | initProc callerPid callerPc size =>
    simp only [take] at h
    obtain ⟨l, -, h⟩ := Option.bind_eq_some_iff.mp h
    obtain ⟨-, hcpus⟩ := Option.ite_none_right_eq_some.mp h
    obtain rfl := Option.some.inj hcpus
    refine view_modify_self (fun l => ?_) cpus client
    rfl
  | _ =>
    obtain rfl := Option.some.inj h
    rfl

end Packages

end Tpso.Work
