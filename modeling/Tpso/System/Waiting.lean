/-
# Nobody waits for nothing

With the devices at the other end of the sockets, the lists BLOCKED and SUSP_BLOCKED and what is written
down about their processes agree in every run (`causes_of_run`): whoever waits has exactly one cause to, and
every request, mark and dump is of a process that waits.  So no process is forgotten in BLOCKED or
SUSP_BLOCKED, and none leaves it with an operation under way.

The condition is on the steps.  Two of its parts are those of `Tpso.System.Devices` and of the lists: a
request goes to a free connection on its own socket, and an answered DUMP_MEMORY finds its process in
BLOCKED.  The third is about `io_disconnected`, which looks for its process in BLOCKED and then, in another
section, in SUSP_BLOCKED: a medium-term scheduler that rolls back between the two hides the process from
both, and it is left in BLOCKED with its device gone.
-/
import Tpso.System.Causes

namespace Tpso.Waiting

open Tpso.Lib Tpso.Kernel Tpso.Devices

/-! ## 1. The condition and the invariant -/

/-- `handle_found_process` does not find the process back in BLOCKED. -/
def stillSuspended (k : Kernel.State) : Kernel.Event → Bool
  | .run i _ =>
    match k.threads[i]? with
    | some (.disconnectSusp _ pid) => !findPcbIn .blocked pid k
    | _ => true
  | .arrive _ => true

/-- **The condition on a step.** -/
def orderly (s : Devices.State) (e : Devices.Event) : Bool :=
  ownSocket s e &&
    match e with
    | .kernel e => dumpInPlace s.kernel e && stillSuspended s.kernel e
    | _ => true

/-- **The invariant**: the lists are tidy, a connection is marked with the process its device works for, and
whoever waits has one cause. -/
structure Inv (s : Devices.State) : Prop where
  kernel : Kernel.Inv s.kernel
  carried : Carried s.kernel
  devices : Devices.Inv s
  causes : Causes s.kernel

section Facts

variable {cfg : Config} {s s' : Devices.State}

theorem kernel_deliver (s : Devices.State) (op : Option (Nat × Nat)) : (deliver s op).kernel = s.kernel := by
  cases op <;> rfl

theorem kernel_settle (s : Devices.State) (t : Thread) : (settle s t).kernel = s.kernel := by
  cases t <;> rfl

/-- A step with the devices is a step of the kernel. -/
theorem step_kernel {e : Devices.Event} (h : Devices.step cfg s e = some s') :
    ∃ e', Kernel.step cfg s.kernel e' = some s'.kernel ∧ (e = .kernel e' ∨ ∃ handler, e' = .arrive handler) := by
  cases e with
  | kernel e =>
    cases e with
    | arrive handler =>
      simp only [Devices.step] at h
      split at h
      · obtain ⟨k, hk, rfl⟩ := Option.map_eq_some_iff.mp h
        exact ⟨_, hk, Or.inl rfl⟩
      · exact absurd h (by simp)
    | run i ch =>
      simp only [Devices.step] at h
      split at h
      · exact absurd h (by simp)
      · obtain ⟨k, hk, rfl⟩ := Option.map_eq_some_iff.mp h
        rw [kernel_deliver, kernel_settle]
        exact ⟨_, hk, Or.inl rfl⟩
  | connect socket d =>
    simp only [Devices.step] at h
    split at h
    · exact absurd h (by simp)
    · obtain ⟨k, hk, rfl⟩ := Option.map_eq_some_iff.mp h
      exact ⟨_, hk, Or.inr ⟨_, rfl⟩⟩
  | complete socket =>
    simp only [Devices.step] at h
    split at h
    · obtain ⟨k, hk, rfl⟩ := Option.map_eq_some_iff.mp h
      exact ⟨_, hk, Or.inr ⟨_, rfl⟩⟩
    · exact absurd h (by simp)
  | disconnect socket =>
    simp only [Devices.step] at h
    split at h
    · obtain ⟨k, hk, rfl⟩ := Option.map_eq_some_iff.mp h
      exact ⟨_, hk, Or.inr ⟨_, rfl⟩⟩
    · exact absurd h (by simp)

/-- Connections at one socket have one mark: its outstanding operations. -/
theorem oneMark_of_inv (h : Devices.Inv s) : OneMark s.kernel := by
  intro c hc c' hc' hsock
  have hsame : c.currentProcessExecuting.toList = c'.currentProcessExecuting.toList := by
    rw [← h.marks c hc, ← h.marks c' hc', hsock]
  cases hmark : c.currentProcessExecuting with
  | none =>
    rw [hmark] at hsame
    exact (Option.toList_eq_nil_iff.mp hsame.symm).symm
  | some pid =>
    rw [hmark] at hsame
    exact (Option.toList_eq_singleton_iff.mp hsame.symm).symm

/-- The connection whose completion has arrived is marked with its process. -/
theorem marked_of_completion (h : Devices.Inv s) {socket pid : Nat} {d : String}
    (ht : .ioCompletion socket d pid ∈ s.kernel.threads) {c : IoConnection}
    (hfound : findIoConnectionBySocket s.kernel socket = some c) : c.currentProcessExecuting = some pid := by
  obtain ⟨hc, rfl⟩ := mem_of_findSocket hfound
  have hmem : pid ∈ s.outstanding c.socket := by
    refine (h.inFlight c.socket).mem_iff.mpr (List.mem_append_left _ ?_)
    exact List.mem_filterMap.mpr ⟨_, ht, by simp [completes]⟩
  rw [h.marks c hc] at hmem
  exact Option.mem_toList.mp hmem

/-- A socket that announces its device has no connection. -/
theorem unconnected_of_newDevice (h : Devices.Inv s) {socket : Nat} {d : String}
    (ht : .newDevice socket d ∈ s.kernel.threads) : ∀ c ∈ s.kernel.ioConnections, c.socket ≠ socket := by
  refine (h.fresh socket ?_).2
  have hpos : 0 < s.kernel.threads.countP (announces socket) :=
    List.countP_pos_iff.mpr ⟨_, ht, by simp [announces]⟩
  unfold yetToJoin
  omega

end Facts

/-! ## 2. One step -/

section Step

variable {cfg : Config} {s s' : Devices.State}

/-- **A section keeps the causes** of a kernel whose connections are marked with what their devices do. -/
theorem causes_run {i : Nat} {ch : Choice} {k' : Kernel.State} (hs : Inv s)
    (hc : orderly s (.kernel (.run i ch)) = true) (hk : Kernel.step cfg s.kernel (.run i ch) = some k') :
    Causes k' := by
  obtain ⟨hown, hplaced⟩ := Bool.and_eq_true_iff.mp hc
  obtain ⟨hdump, hstill⟩ := Bool.and_eq_true_iff.mp hplaced
  have hinv' : Kernel.Inv k' := Kernel.inv_step hs.kernel hdump hk
  have hcarried' : Carried k' := carried_step hs.kernel hs.carried hdump hk
  obtain ⟨t, others, hget, hperm, hfree, -, rfl⟩ := step_run hk
  have ht : t ∈ s.kernel.threads := List.mem_of_getElem? hget
  have hplace : InPlace s.kernel t := hs.kernel.inPlace hdump hget
  have hf : Follows s.kernel (after others (nextSection cfg s.kernel ch t)) (changes s.kernel ch t) :=
    follows_section hs.kernel hs.carried ht hplace hinv' hcarried'
  have honly := oneMark_of_inv hs.devices
  cases haside : changesCauses t with
  | false =>
    have hdumps : ∀ pid, t ≠ .dumpWait pid := by
      rintro pid rfl
      exact absurd haside (by simp [changesCauses])
    refine hs.causes.aside (nextSection_aside haside) hperm hdumps fun pid => ?_
    by_cases hcall : ∃ st, (pid, st) ∈ changes s.kernel ch t
    · obtain ⟨st, hst⟩ := hcall
      rw [hf.called pid st hst, waits_iff hs.kernel hs.carried,
        changes_aside hs.kernel hs.carried ht hplace haside hst]
      exact (and_iff_right (changes_follow hs.kernel hs.carried ht hplace _ hst).1).symm
    · exact hf.others pid fun st hst => hcall ⟨st, hst⟩
  | true =>
    cases t with
    | io pid pc sleepTime d => exact causes_io hs.causes hs.kernel hperm hfree hf
    | dump pid pc => exact causes_dump hs.causes hs.kernel hperm hf
    | dumpWait pid => exact causes_dumpWait hs.causes hperm hf
    | newDevice socket d =>
      exact causes_newDevice hs.causes hperm hfree (unconnected_of_newDevice hs.devices ht) hf
    | pendingIo d socket next =>
      refine causes_pendingIo hs.causes hperm hfree (fun hok c hgives q => ?_) hf
      have hfreeMark : c.currentProcessExecuting = none := by
        simp only [ownSocket, hget, hok, hgives, Bool.not_true, Bool.false_or, Option.all_some,
          decide_eq_true_eq] at hown
        exact hown.2
      rintro ⟨c', hc', hsock, hmark⟩
      have hmem : c ∈ s.kernel.ioConnections := by
        rcases processPendingIo_gives s.kernel d socket true with ⟨-, h | h⟩ | ⟨c0, -, -, h, hc0, -⟩
        · exact absurd h (by simp)
        · rw [hgives] at h
          exact absurd h (by simp)
        · rw [hgives] at h
          exact Option.some.inj h ▸ hc0
      rw [honly c' hc' c hmem hsock, hfreeMark] at hmark
      exact absurd hmark (by simp)
    | ioCompletion socket d pid =>
      exact causes_ioCompletion hs.causes honly hperm hfree (fun c hc => marked_of_completion hs.devices ht hc) hf
    | ioDisconnected socket => exact causes_ioDisconnected hs.causes honly hperm hfree hf
    | disconnectSusp socket pid =>
      refine causes_disconnectSusp hs.causes honly hperm hfree ?_ hf
      simpa [stillSuspended, hget] using hstill
    | _ => simp [changesCauses] at haside

/-- A message that has only arrived changes nothing that is written down. -/
theorem causes_arrive {k k' : Kernel.State} {handler : Thread} (h : Causes k)
    (hk : Kernel.step cfg k (.arrive handler) = some k') : Causes k' := by
  obtain ⟨hhandler, rfl⟩ := step_arrive hk
  have hdumps : ∀ pid, handler ≠ .dumpWait pid := by
    rintro pid rfl
    exact absurd hhandler (by simp [Thread.isHandler])
  have hsearch : ∀ socket pid, handler ≠ .disconnectSusp socket pid := by
    rintro socket pid rfl
    exact absurd hhandler (by simp [Thread.isHandler])
  have hleaves : handler.leaves = none := by
    cases handler <;> first | rfl | simp [Thread.isHandler] at hhandler
  have hmem : ∀ pid, .dumpWait pid ∈ k.threads ++ [handler] ↔ .dumpWait pid ∈ k.threads := by
    intro pid
    rw [List.mem_append, List.mem_singleton]
    exact or_iff_left fun heq => hdumps pid heq.symm
  have hholds : ∀ b j, holds { k with threads := k.threads ++ [handler] } b j ↔ holds k b j := by
    intro b j
    cases b with
    | request d => exact Iff.rfl
    | device socket =>
      refine and_congr_right fun _ => ?_
      simp only [List.forall_mem_append, List.forall_mem_singleton, hleaves]
      exact and_iff_left (Option.some_ne_none socket).symm
    | dump => exact hmem j
  refine ⟨h.one.congr hholds fun _ => Iff.rfl, h.requests, ?_, ?_⟩
  · have hnone : dumped handler = none := by
      cases hd : dumped handler with
      | none => rfl
      | some pid =>
        have hin : pid ∈ [handler].filterMap dumped := by simp [hd]
        exact absurd (List.mem_singleton.mp (mem_filterMap_dumped.mp hin)).symm (hdumps pid)
    simpa [List.filterMap_append, hnone] using h.dumps
  · intro socket pid hu
    rw [hholds]
    rcases List.mem_append.mp hu with hu | hu
    · exact h.searched socket pid hu
    · exact absurd (List.mem_singleton.mp hu).symm (hsearch socket pid)

/-- **Every step that meets the condition keeps the invariant.** -/
theorem inv_step {e : Devices.Event} (hs : Inv s) (hc : orderly s e = true) (h : Devices.step cfg s e = some s') :
    Inv s' := by
  have hown : ownSocket s e = true := (Bool.and_eq_true_iff.mp hc).1
  obtain ⟨e', hk, hcases⟩ := step_kernel h
  have hdump : dumpInPlace s.kernel e' = true := by
    rcases hcases with rfl | ⟨handler, rfl⟩
    · exact (Bool.and_eq_true_iff.mp (Bool.and_eq_true_iff.mp hc).2).1
    · rfl
  refine ⟨Kernel.inv_step hs.kernel hdump hk, carried_step hs.kernel hs.carried hdump hk,
    Devices.inv_step hs.devices hown h, ?_⟩
  cases e' with
  | arrive handler => exact causes_arrive hs.causes hk
  | run i ch =>
    rcases hcases with rfl | ⟨handler, habs⟩
    · exact causes_run hs hc hk
    · exact absurd habs (by simp)

/-- At the start nothing is written down, and nobody waits. -/
theorem inv_start (cfg : Config) : Inv (Devices.State.start cfg) := by
  have hnone : ∀ a pid, ¬ holds (Devices.State.start cfg).kernel a pid := by
    intro a pid ha
    cases a with
    | request d => exact absurd ha List.not_mem_nil
    | device socket =>
      obtain ⟨⟨c, hc, -⟩, -⟩ := ha
      exact absurd hc List.not_mem_nil
    | dump => simp [holds, Devices.State.start, Kernel.State.start] at ha
  have hwaits : ∀ pid, ¬ waits (Devices.State.start cfg).kernel pid := by
    rintro pid (h | h)
    · exact absurd h List.not_mem_nil
    · exact absurd h List.not_mem_nil
  refine ⟨Kernel.inv_start cfg, carried_start cfg, Devices.inv_start cfg, ?_, fun d => List.nodup_nil,
    List.nodup_nil, fun socket pid h => ?_⟩
  · refine ⟨fun pid => iff_of_false (hwaits pid) ?_, fun a _ pid ha => absurd ha (hnone a pid)⟩
    rintro ⟨a, ha⟩
    exact hnone a pid ha
  · simp [Devices.State.start, Kernel.State.start] at h

end Step

/-! ## 3. Whole runs -/

/-- **Whoever waits has one cause to, and nobody else has any**, in every run whose steps meet the condition;
and no queue names a process twice. -/
theorem causes_of_run {cfg : Config} {tr : List (Transition Devices.State Devices.Event)} {s : Devices.State}
    (hr : (devices cfg).Run tr s) (hc : ∀ x ∈ tr, orderly x.src x.label = true) :
    OneCause (holds s.kernel) (waits s.kernel) ∧ ∀ d, ((s.kernel.requests d).map (·.pid)).Nodup := by
  have hinv : Inv s := by
    refine hr.invariant (C := fun s e => orderly s e = true) ?_ ?_ hc
    · rintro s rfl
      exact inv_start cfg
    · exact fun s e s' hs hok hst => inv_step hs hok hst
  exact ⟨hinv.causes.one, hinv.causes.requests⟩

/-- Two processes and one device, for which both ask. -/
def oneDisk : List Devices.Event :=
  bootTwo.map .kernel ++
    [.connect 5 "disk", .kernel (.run 0 {}),
      .kernel (.arrive (.io 0 1 100 "disk")), .kernel (.run 0 {}), .kernel (.run 0 {}),
      .kernel (.arrive (.io 1 1 100 "disk")), .kernel (.run 2 {}), .kernel (.run 2 {})]

/-- The theorem at work: process 0 waits for the device, process 1 in the queue. -/
theorem causes_of_run_one_disk :
    ∃ tr s, (devices twoCpus).Run tr s ∧ s.kernel.queue .blocked = [0, 1] ∧
      (s.kernel.ioConnections.map fun c => (c.socket, c.currentProcessExecuting)) = [(5, some 0)] ∧
      (s.kernel.requests "disk").map (·.pid) = [1] ∧
      OneCause (holds s.kernel) (waits s.kernel) ∧ ∀ d, ((s.kernel.requests d).map (·.pid)).Nodup := by
  obtain ⟨tr, s, hrun, htest⟩ := Lts.exists_run_of_drive (Devices.State.start twoCpus) (Devices.step twoCpus)
    oneDisk
    (fun tr s => decide (s.kernel.queue .blocked = [0, 1] ∧
      (s.kernel.ioConnections.map fun c => (c.socket, c.currentProcessExecuting)) = [(5, some 0)] ∧
      (s.kernel.requests "disk").map (·.pid) = [1]) && tr.all fun x => orderly x.src x.label)
    (by decide +kernel)
  simp only [Bool.and_eq_true, decide_eq_true_eq, List.all_eq_true] at htest
  obtain ⟨⟨hblocked, hmark, hqueue⟩, hok⟩ := htest
  exact ⟨tr, s, hrun, hblocked, hmark, hqueue, causes_of_run hrun hok⟩

/-- The root process waits for a device and is suspended; the device disconnects, and memoria's refusal to
suspend comes between the two searches of `handle_found_process`. -/
def rolledBack : List Devices.Event :=
  boot.map .kernel ++
    [.connect 5 "disk", .kernel (.run 0 {}),
      .kernel (.arrive (.io 0 1 100 "disk")), .kernel (.run 0 {}), .kernel (.run 0 {}),
      -- the timer and the short-term scheduler are left
      .kernel (.run 1 {}), .kernel (.run 0 {}), .kernel (.run 0 {}), .kernel (.run 0 { answer := false }),
      .disconnect 5, .kernel (.run 1 {}), .kernel (.run 0 {}), .kernel (.run 0 {})]

/-- Without the third part of the condition a process is forgotten: it is in BLOCKED, and there is no
connection, no request and no thread that could bring it back. -/
theorem forgotten_rolled_back :
    ∃ tr s, (devices oneCpu).Run tr s ∧ (∀ x ∈ tr, ownSocket x.src x.label = true) ∧
      0 ∈ s.kernel.queue .blocked ∧ s.kernel.ioConnections.length = 0 ∧ s.kernel.threads.length = 0 ∧
      (s.kernel.requests "disk").length = 0 := by
  obtain ⟨tr, s, hrun, htest⟩ := Lts.exists_run_of_drive (Devices.State.start oneCpu) (Devices.step oneCpu)
    rolledBack
    (fun tr s => (tr.all fun x => ownSocket x.src x.label) && decide (0 ∈ s.kernel.queue .blocked ∧
      s.kernel.ioConnections.length = 0 ∧ s.kernel.threads.length = 0 ∧
      (s.kernel.requests "disk").length = 0)) (by decide +kernel)
  simp only [Bool.and_eq_true, decide_eq_true_eq, List.all_eq_true] at htest
  exact ⟨tr, s, hrun, htest.1, htest.2⟩

end Tpso.Waiting
