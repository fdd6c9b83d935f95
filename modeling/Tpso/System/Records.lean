/-
# Memoria has one record for each process the kernel has admitted

The kernel and memoria keep a list of processes each.  Memoria's grows by INIT_PROCESS and shrinks by
KILL_PROCESS, and what became of a request the kernel learns from its answer.  A record without a
process would keep its frames for ever; a process without a record would read memory that is not its
own.

The two lists are the same (`records_of_run`): up to their order, memoria's records are the processes
that are in one of the states between NEW and EXIT, with the size that their PCB has.  This needs no
condition on the interleaving except the one of the seven-state diagram, and holds with a suspension
under way as well: a KILL_PROCESS is sent by the section that makes the PCB exit (`kill_iff`), and out of
NEW leads only a confirmed INIT_PROCESS (`created_of_change`).
-/
import Tpso.System.Suspension
import Tpso.Kernel.Lifecycle
import Tpso.Memoria.Storage

namespace Tpso.System

open Tpso.Lib Tpso.Kernel

/-! ## 1. The two lists -/

/-- The states of a process that has been admitted and has not ended. -/
def isAdmitted : ProcessState → Bool
  | .new | .exit => false
  | _ => true

/-- The size of a process that is admitted, as its PCB has it. -/
def admittedSize (k : Kernel.State) (pid : Nat) : Option Int :=
  if pid ≤ k.newPid ∧ isAdmitted (k.states pid) = true then some (k.pcbs pid).size else none

/-- The admitted processes with their sizes. -/
def admitted (k : Kernel.State) : List (Int × Int) :=
  (List.range (k.newPid + 1)).filterMap fun pid => (admittedSize k pid).map fun size => ((pid : Int), size)

/-- The size on record for a pid. -/
def recordedSize (m : Memoria.State) (pid : Int) : Option Int :=
  (Memoria.processManagerFindProcess m.processes pid).map (·.processSize)

/-- The records of memoria: the pid and the size of each. -/
def recorded (m : Memoria.State) : List (Int × Int) := m.processes.map fun p => (p.pid, p.processSize)

/-- The condition on one step: the second section of `dump_memory_syscall` finds its PCB in BLOCKED. -/
def inPlace (s : State) : Event → Bool
  | .run i ch _ => dumpInPlace s.kernel (.run i ch)
  | _ => true

/-! ## 2. What a section does to the kernel's list -/

section Section

variable {cfg : Kernel.Config} {k : Kernel.State} {ch : Choice} {t : Thread} {pid : Nat}

/-- What a call is for is the last word on its process. -/
theorem applyChanges_of_mem {calls : List (Nat × ProcessState)} {f : Nat → ProcessState} {q : Nat}
    {st : ProcessState} (hnodup : (calls.map Prod.fst).Nodup) (h : (q, st) ∈ calls) :
    applyChanges calls f q = st := by
  rcases applyChanges_cases calls f q hnodup with ⟨-, hnone⟩ | hmem
  · exact absurd h (hnone st)
  · exact (Prod.mk.inj (List.inj_on_of_nodup_map hnodup hmem h rfl)).2

/-- **Out of NEW leads only a confirmed INIT_PROCESS.** -/
theorem created_of_change (h : Kernel.Inv k) (hcarried : Carried k) (ht : t ∈ k.threads)
    (hplace : InPlace k t) {st : ProcessState} (hcall : (pid, st) ∈ changes k ch t)
    (hnew : k.states pid = .new) :
    ch.answer = true ∧ ∃ caller moved, t = .longCreate pid caller moved := by
  rcases changes_from hplace _ hcall with ⟨a, htakes, hlist, -⟩ | ⟨hhands, -⟩
  · obtain rfl : a = .new := by rw [← (h.on_list hlist).2, hnew]
    cases t with
    | longNew caller moved => simp [changes] at hcall
    | longCreate q caller moved =>
      simp only [changes] at hcall
      split at hcall
      · rename_i hok
        obtain ⟨rfl, -⟩ := Prod.mk.inj (List.mem_singleton.mp hcall)
        exact ⟨(Bool.and_eq_true_iff.mp hok).1, caller, moved, rfl⟩
      · exact absurd hcall (List.not_mem_nil)
    | _ => simp [Thread.takesFrom] at htakes
  · have hsusp := hcarried pid (List.mem_flatMap.mpr ⟨t, ht, hhands⟩)
    rw [hnew] at hsusp
    exact absurd hsusp (by simp)

/-- A process that a section makes exit is not admitted any more. -/
theorem admittedSize_of_exit (h : Kernel.Inv k) (hplace : InPlace k t)
    (hexit : (pid, ProcessState.exit) ∈ changes k ch t) (hle : pid ≤ k.newPid) :
    admittedSize (nextSection cfg k ch t).1 pid = none := by
  have hstate : (nextSection cfg k ch t).1.states pid = .exit := by
    rw [states_section cfg k ch t hle, applyChanges_of_mem (changes_nodup h hplace) hexit]
  simp [admittedSize, hstate, isAdmitted]

/-- A process whose INIT_PROCESS is confirmed is admitted. -/
theorem admittedSize_of_create (h : Kernel.Inv k) {caller : LongCaller} {moved : Bool}
    (hplace : InPlace k (.longCreate pid caller moved)) (hans : ch.answer = true)
    (hnew : pid ∈ k.queue .new) :
    admittedSize (nextSection cfg k ch (.longCreate pid caller moved)).1 pid =
      some (k.pcbs pid).size := by
  have hle : pid ≤ k.newPid := (h.on_list hnew).1
  have hgrows := nextSection_grows cfg k ch (.longCreate pid caller moved)
  have hready : (pid, ProcessState.ready) ∈ changes k ch (.longCreate pid caller moved) := by
    simp [changes, hans, findPcbIn, hnew]
  have hstate : (nextSection cfg k ch (.longCreate pid caller moved)).1.states pid = .ready := by
    rw [states_section cfg k ch _ hle, applyChanges_of_mem (changes_nodup h hplace) hready]
  rw [admittedSize, if_pos ⟨hle.trans hgrows.newPid, by rw [hstate]; rfl⟩, hgrows.size pid hle]

/-- **All other processes stay as they are**: admitted, with their size, or not. -/
theorem admittedSize_same (h : Kernel.Inv k) (hcarried : Carried k) (ht : t ∈ k.threads)
    (hplace : InPlace k t) (hexit : (pid, ProcessState.exit) ∉ changes k ch t)
    (hcreate : ch.answer = true → ∀ caller moved, t ≠ .longCreate pid caller moved) :
    admittedSize (nextSection cfg k ch t).1 pid = admittedSize k pid := by
  have hgrows := nextSection_grows cfg k ch t
  by_cases hle : pid ≤ k.newPid
  · have hle' := hle.trans hgrows.newPid
    have hadmitted : isAdmitted ((nextSection cfg k ch t).1.states pid) = isAdmitted (k.states pid) := by
      rw [states_section cfg k ch t hle]
      rcases applyChanges_cases (changes k ch t) k.states pid (changes_nodup h hplace) with
        ⟨heq, -⟩ | hcall
      · rw [heq]
      · -- a call leaves a process admitted, or not, unless its edge is one of the two
        have hedge := (changes_follow h hcarried ht hplace _ hcall).2
        have hnew : k.states pid ≠ .new := by
          intro hnew
          obtain ⟨hans, caller, moved, heq⟩ := created_of_change h hcarried ht hplace hcall hnew
          exact hcreate hans caller moved heq
        generalize applyChanges (changes k ch t) k.states pid = st at hcall hedge
        have hst : st ≠ .exit := by
          rintro rfl
          exact hexit hcall
        revert hedge
        cases st <;> cases hfrom : k.states pid <;> simp_all [follows, isAdmitted]
    simp only [admittedSize, hle, hle', true_and, hadmitted, hgrows.size pid hle]
  · have hbefore : admittedSize k pid = none := if_neg fun hand => hle hand.1
    rw [hbefore]
    rcases nextSection_newborn cfg ch t (h.unborn .new) with hsame | ⟨hsucc, hnew⟩
    · exact if_neg fun hand => hle (hsame ▸ hand.1)
    · by_cases heq : pid = k.newPid + 1
      · subst heq
        simp [admittedSize, hnew, isAdmitted]
      · exact if_neg fun hand => by omega

end Section

/-! ## 3. What a request does to memoria's list -/

section Request

variable {cfg : Memoria.Config} {m m' : Memoria.State} {r : Memoria.Request} {reply : Memoria.Reply}

/-- Every request but INIT_PROCESS and KILL_PROCESS keeps the sizes on record. -/
theorem recordedSize_same (hkill : ∀ pid, r ≠ .killProcess pid)
    (hinit : ∀ pid size file left, r ≠ .initProcess pid size file left)
    (hst : Memoria.handle cfg m r = some (m', reply)) (q : Int) :
    recordedSize m' q = recordedSize m q := by
  have hupdated : ∀ (f : Memoria.ProcessInfo → Memoria.ProcessInfo) (pid : Int),
      (∀ p, (f p).pid = p.pid) → (∀ p, (f p).processSize = p.processSize) →
      (Memoria.processManagerFindProcess (Memoria.updateProcess f pid m.processes) q).map
        (·.processSize) = recordedSize m q := by
    intro f pid hpid hsize
    rw [Memoria.find_updateProcess hpid, recordedSize]
    split
    · rw [Option.map_map]
      congr 1
      funext p
      exact hsize p
    · rfl
  cases r with
  | initProcess pid size file left => exact absurd rfl (hinit pid size file left)
  | killProcess pid => exact absurd rfl (hkill pid)
  | swap pid written =>
    obtain ⟨⟨m1, b⟩, hserved, heq⟩ := Option.map_eq_some_iff.mp hst
    obtain ⟨rfl, -⟩ := Prod.mk.inj heq
    rcases Memoria.swapOutProcess_cases hserved with ⟨⟨_, _, rfl⟩, -⟩ | ⟨_, -, -, -, rfl, -⟩ |
      ⟨_, _, _, _, _, _, -, -, -, -, -, -, rfl, -⟩
    · rfl
    · exact hupdated _ pid (fun _ => rfl) fun _ => rfl
    · exact hupdated _ pid (fun _ => rfl) fun _ => rfl
  | unsuspendProcess pid avail =>
    obtain ⟨⟨m1, b⟩, hserved, heq⟩ := Option.map_eq_some_iff.mp hst
    obtain ⟨rfl, -⟩ := Prod.mk.inj heq
    rcases Memoria.swapInProcess_cases hserved with ⟨rfl, -⟩ | ⟨_, -, -, -, rfl, -⟩ |
      ⟨_, _, _, _, -, -, -, -, rfl, -⟩ | ⟨_, _, _, _, _, _, -, -, -, -, -, rfl, -⟩ |
      ⟨_, _, _, _, _, _, -, -, -, -, -, -, -, -, rfl, -⟩
    · rfl
    · exact hupdated _ pid (fun _ => rfl) fun _ => rfl
    · rfl
    · rfl
    · exact hupdated _ pid (fun _ => rfl) fun _ => rfl
  | readMemory a n =>
    obtain ⟨_, rfl⟩ := Memoria.handle_memory_eq hst (Or.inl ⟨a, n, rfl⟩)
    rfl
  | writeMemory a d =>
    obtain ⟨_, rfl⟩ := Memoria.handle_memory_eq hst (Or.inr ⟨a, d, rfl⟩)
    rfl

/-- INIT_PROCESS records the size of a new process, if it is confirmed. -/
theorem recordedSize_init {pid size : Int} {file : Option (List String)} {left : Memoria.Leftover}
    (hst : Memoria.handle cfg m (.initProcess pid size file left) = some (m', reply))
    (hnone : recordedSize m pid = none) (q : Int) :
    recordedSize m' q = if q = pid ∧ reply.confirmed = true then some size else recordedSize m q := by
  by_cases hq : q = pid
  · subst hq
    have hfind : Memoria.processManagerFindProcess m.processes q = none := by
      simpa [recordedSize] using hnone
    have hfind' : m.processes.find? (fun p => decide (p.pid = q)) = none := hfind
    obtain ⟨⟨m1, b⟩, hserved, heq⟩ := Option.map_eq_some_iff.mp hst
    obtain ⟨rfl, rfl⟩ := Prod.mk.inj heq
    rcases Memoria.createProcess_cases hserved with ⟨rfl, rfl⟩ | ⟨_, _, -, -, rfl, rfl⟩ |
      ⟨_, _, _, _, -, -, rfl, rfl⟩ | ⟨_, _, _, _, _, -, -, -, -, rfl, rfl⟩ | ⟨_, rfl, rfl, rfl⟩
    · simp [Memoria.Reply.confirmed]
    · simp [Memoria.Reply.confirmed, recordedSize]
    · simp [Memoria.Reply.confirmed, recordedSize]
    · simp [Memoria.Reply.confirmed, recordedSize, Memoria.processManagerFindProcess, hfind',
        Memoria.freshProcess]
    · simp [Memoria.Reply.confirmed, recordedSize, Memoria.processManagerFindProcess, hfind',
        Memoria.freshProcess]
  · rw [if_neg fun hand => hq hand.1, recordedSize, recordedSize,
      Memoria.handle_find_of_ne hst (by simpa [Memoria.Request.pid?] using fun heq => hq heq.symm)]

/-- KILL_PROCESS removes the record of its process. -/
theorem recordedSize_kill {pid : Int} (hpids : (m.processes.map (·.pid)).Nodup)
    (hst : Memoria.handle cfg m (.killProcess pid) = some (m', reply)) (q : Int) :
    recordedSize m' q = if q = pid then none else recordedSize m q := by
  by_cases hq : q = pid
  · subst hq
    have hgone := Memoria.find_eraseP_self hpids q
    rw [if_pos rfl]
    obtain ⟨⟨m1, b⟩, hserved, heq⟩ := Option.map_eq_some_iff.mp hst
    obtain ⟨rfl, -⟩ := Prod.mk.inj heq
    rcases Memoria.deleteProcess_cases hserved with ⟨hnone, rfl, -⟩ | ⟨_, -, -, rfl, -⟩ |
      ⟨_, _, _, -, -, -, -, rfl, -⟩
    · rw [recordedSize, hnone, Option.map_none]
    · rw [recordedSize, hgone, Option.map_none]
    · rw [recordedSize, hgone, Option.map_none]
  · rw [if_neg hq, recordedSize, recordedSize,
      Memoria.handle_find_of_ne hst (by simpa [Memoria.Request.pid?] using fun heq => hq heq.symm)]

/-- A pid on record was there before, or it is the one of an INIT_PROCESS. -/
theorem mem_pids_step (hst : Memoria.handle cfg m r = some (m', reply)) {q : Int}
    (h : q ∈ m'.processes.map (·.pid)) :
    q ∈ m.processes.map (·.pid) ∨ ∃ size file left, r = .initProcess q size file left := by
  rcases Memoria.handle_tables hst with ⟨hsame, -, -⟩ | ⟨pid, size, file, left, p, rfl, -, rfl, hprocs⟩ |
    ⟨pid, -, hprocs⟩
  · exact Or.inl (hsame ▸ h)
  · rw [hprocs, List.map_append, List.map_singleton] at h
    rcases List.mem_append.mp h with h | h
    · exact Or.inl h
    · obtain rfl := List.mem_singleton.mp h
      exact Or.inr ⟨size, file, left, rfl⟩
  · rw [hprocs] at h
    exact Or.inl ((List.eraseP_sublist.map _).subset h)

end Request

/-! ## 4. Which request a section makes -/

section Requests

variable {cfg : Config} {s : State} {k : Kernel.State} {ch ch' : Choice} {sv : Service} {t : Thread}
  {m : Memoria.State} {pid : Nat}

theorem killOf_iff {q : Nat} :
    killOf q = some (.killProcess pid) ↔ (pid, ProcessState.exit) ∈ [(q, ProcessState.exit)] := by
  simp only [killOf, Option.some.injEq, Memoria.Request.killProcess.injEq, Nat.cast_inj,
    List.mem_singleton, Prod.mk.injEq, and_true]
  exact eq_comm

/-- The same for a process that may not be where the section looks for it. -/
theorem killOf_if_iff {q : Nat} {c : Prop} [Decidable c] :
    (if c then killOf q else none) = some (.killProcess pid) ↔
      (pid, ProcessState.exit) ∈ if c then [(q, ProcessState.exit)] else [] := by
  split
  · exact killOf_iff
  · simp

/-- **A section asks for the kill of the process that it makes exit.** -/
theorem kill_iff (sv : Service) (ht : awaitsReply t = false) :
    requestOf k ch sv t = some (.killProcess pid) ↔ (pid, ProcessState.exit) ∈ changes k ch t := by
  cases t with
  | io q pc sleepTime deviceName =>
    simp only [requestOf, changes]
    cases hdevice : getIoConnectionStatusByDeviceName k deviceName with
    | none => exact killOf_if_iff (c := findPcbIn .exec q k = true)
    | some connection => cases k.ioRequests deviceName <;> simp
  | exit q => exact killOf_if_iff
  | dump q pc => simp only [requestOf, changes]; split <;> simp
  | dumpWait q =>
    simp only [requestOf, changes]
    split
    · simp
    · exact killOf_iff
  | ioCompletion socket deviceName q =>
    simp only [requestOf, changes]
    repeat' split
    all_goals simp
  | ioDisconnected socket =>
    simp only [requestOf, changes]
    cases findIoConnectionBySocket k socket with
    | none => simp
    | some connection =>
      simp only [Option.bind_some]
      cases connection.currentProcessExecuting with
      | none => simp
      | some q => exact killOf_if_iff
  | disconnectSusp socket q => exact killOf_if_iff
  | medium q => simp only [requestOf, changes]; split <;> simp
  | mediumSwap q => simp only [requestOf, changes]; split <;> simp
  | mediumAnswered q success => simp only [requestOf, changes]; split <;> simp
  | longMove popped caller => cases popped <;> simp [requestOf, changes]
  | shortSelected caller cpu q => simp only [requestOf, changes]; split <;> simp
  | shortWait caller cpu q =>
    simp only [requestOf, changes]
    repeat' split
    all_goals simp
  | mediumSent q => simp [awaitsReply] at ht
  | longUnsuspend q caller moved => simp [awaitsReply] at ht
  | longCreate q caller moved => simp [awaitsReply] at ht
  | _ => simp [requestOf, changes]

/-- A section that waits for memoria makes no process exit. -/
theorem not_exit_of_awaits (ht : awaitsReply t = true) :
    (pid, ProcessState.exit) ∉ changes k ch t := by
  cases t with
  | mediumSent q => simp [changes]
  | longUnsuspend q caller moved => simp [changes]
  | longCreate q caller moved => simp only [changes]; split <;> simp
  | _ => simp [awaitsReply] at ht

/-- **What is served with a section, seen from both lists**: after it the size on record for a process is
the one that it is admitted with, if it was so before. -/
theorem sizes_section (h : Kernel.Inv s.kernel) (hpicked : Picked s.kernel) (hcarried : Carried s.kernel)
    (ht : t ∈ s.kernel.threads) (hplace : InPlace s.kernel t)
    (hpids : (s.memoria.processes.map (·.pid)).Nodup)
    (hsizes : ∀ pid : Nat, recordedSize s.memoria pid = admittedSize s.kernel pid)
    (hserve : serve cfg s ch sv t = some (m, ch')) (pid : Nat) :
    recordedSize m pid = admittedSize (nextSection cfg.kernel s.kernel ch' t).1 pid := by
  have hsame : (pid, ProcessState.exit) ∉ changes s.kernel ch' t →
      (ch'.answer = true → ∀ caller moved, t ≠ .longCreate pid caller moved) →
      admittedSize (nextSection cfg.kernel s.kernel ch' t).1 pid = admittedSize s.kernel pid :=
    admittedSize_same h hcarried ht hplace
  unfold serve at hserve
  cases hawait : awaitsReply t with
  | false =>
    have hcreate : ch'.answer = true → ∀ caller moved, t ≠ .longCreate pid caller moved := by
      rintro - caller moved rfl
      simp [awaitsReply] at hawait
    split at hserve
    · rename_i hnone
      obtain ⟨rfl, rfl⟩ := Prod.mk.inj (Option.some.inj hserve)
      have hexit : (pid, ProcessState.exit) ∉ changes s.kernel ch t := by
        rw [← kill_iff sv hawait, hnone]
        simp
      rw [hsame hexit hcreate, hsizes pid]
    · rename_i r hr
      obtain ⟨q, rfl, -⟩ := mem_exit_of_kill cfg.kernel hr hawait
      obtain ⟨⟨m1, reply⟩, hserved, heq⟩ := Option.map_eq_some_iff.mp hserve
      simp only [hawait, Bool.false_eq_true, ↓reduceIte, Prod.mk.injEq] at heq
      obtain ⟨rfl, rfl⟩ := heq
      have hexit : (q, ProcessState.exit) ∈ changes s.kernel ch t := (kill_iff sv hawait).mp hr
      rw [recordedSize_kill hpids hserved]
      by_cases hq : (pid : Int) = q
      · obtain rfl : pid = q := by exact_mod_cast hq
        have hle := (changes_follow h hcarried ht hplace _ hexit).1
        rw [if_pos rfl, admittedSize_of_exit h hplace hexit hle]
      · have hother : (pid, ProcessState.exit) ∉ changes s.kernel ch t := by
          rw [← kill_iff sv hawait, hr]
          simpa using fun heq => hq (by rw [heq])
        rw [if_neg hq, hsame hother hcreate, hsizes pid]
  | true =>
    have hexit : (pid, ProcessState.exit) ∉ changes s.kernel ch' t := not_exit_of_awaits hawait
    cases t with
    | mediumSent q =>
      obtain ⟨⟨m1, reply⟩, hserved, heq⟩ := Option.map_eq_some_iff.mp hserve
      obtain ⟨rfl, rfl⟩ := Prod.mk.inj heq
      rw [recordedSize_same (by simp) (by simp) hserved, hsizes pid, hsame hexit (by simp)]
    | longUnsuspend q caller moved =>
      obtain ⟨⟨m1, reply⟩, hserved, heq⟩ := Option.map_eq_some_iff.mp hserve
      obtain ⟨rfl, rfl⟩ := Prod.mk.inj heq
      rw [recordedSize_same (by simp) (by simp) hserved, hsizes pid, hsame hexit (by simp)]
    | longCreate q caller moved =>
      obtain ⟨⟨m1, reply⟩, hserved, heq⟩ := Option.map_eq_some_iff.mp hserve
      obtain ⟨rfl, rfl⟩ := Prod.mk.inj heq
      have hnew : q ∈ s.kernel.queue .new := hpicked _ ht .new q rfl
      have hnone : recordedSize s.memoria q = none := by
        rw [hsizes q]
        simp [admittedSize, (h.on_list hnew).2, isAdmitted]
      rw [recordedSize_init hserved hnone]
      by_cases hq : (pid : Int) = q ∧ reply.confirmed = true
      · obtain rfl : pid = q := by exact_mod_cast hq.1
        rw [if_pos hq, admittedSize_of_create h hplace hq.2 hnew]
      · have hcreate : reply.confirmed = true →
            ∀ caller' moved', Thread.longCreate q caller moved ≠ .longCreate pid caller' moved' := by
          rintro hans caller' moved' heq
          simp only [Thread.longCreate.injEq] at heq
          exact hq ⟨by exact_mod_cast heq.1.symm, hans⟩
        rw [if_neg hq, hsame hexit hcreate, hsizes pid]
    | _ => simp [awaitsReply] at hawait

end Requests

/-! ## 5. Runs -/

/-- What holds along a run. -/
structure Registered (s : State) : Prop where
  lists : Kernel.Inv s.kernel
  picked : Picked s.kernel
  carried : Carried s.kernel
  pids : (s.memoria.processes.map (·.pid)).Nodup
  known : ∀ q ∈ s.memoria.processes.map (·.pid), 0 ≤ q
  sizes : ∀ pid : Nat, recordedSize s.memoria pid = admittedSize s.kernel pid

/-- A request for the creation of a process comes from the thread that has picked it. -/
theorem init_of_request {k : Kernel.State} {ch : Choice} {sv : Service} {t : Thread} {pid size : Int}
    {file : Option (List String)} {left : Memoria.Leftover}
    (h : requestOf k ch sv t = some (.initProcess pid size file left)) :
    ∃ (q : Nat) (caller : LongCaller) (moved : Bool), pid = q ∧ t = .longCreate q caller moved := by
  cases hawait : awaitsReply t with
  | false =>
    obtain ⟨q, heq, -⟩ := mem_exit_of_kill oneCpu h hawait
    simp at heq
  | true =>
    cases t with
    | mediumSent q => simp [requestOf] at h
    | longUnsuspend q caller moved => simp [requestOf] at h
    | longCreate q caller moved =>
      simp only [requestOf, Option.some.injEq, Memoria.Request.initProcess.injEq] at h
      exact ⟨q, caller, moved, h.1.symm, rfl⟩
    | _ => simp [awaitsReply] at hawait

/-- **A section of the kernel keeps the two lists equal.** -/
theorem registered_run {cfg : Config} {s s' : State} {i : Nat} {ch : Choice} {sv : Service}
    (hs : Registered s) (hc : inPlace s (.run i ch sv) = true)
    (hst : step cfg s (.run i ch sv) = some s') : Registered s' := by
  simp only [step] at hst
  obtain ⟨t, hget, hst⟩ := Option.bind_eq_some_iff.mp hst
  obtain ⟨⟨m, ch'⟩, hserve, hst⟩ := Option.bind_eq_some_iff.mp hst
  obtain ⟨k', hstep, rfl⟩ := Option.map_eq_some_iff.mp hst
  have hdump : dumpInPlace s.kernel (.run i ch') = true := hc
  have hplace := hs.lists.inPlace hdump hget
  have ht : t ∈ s.kernel.threads := List.mem_of_getElem? hget
  have hsizes := sizes_section hs.lists hs.picked hs.carried ht hplace hs.pids hs.sizes hserve
  have hinit : ∀ r reply, Memoria.handle cfg.memoria s.memoria r = some (m, reply) →
      requestOf s.kernel ch sv t = some r →
      (m.processes.map (·.pid)).Nodup ∧ ∀ q ∈ m.processes.map (·.pid), 0 ≤ q := by
    intro r reply hserved hr
    constructor
    · refine Memoria.pids_step hs.pids ?_ hserved
      rintro pid size file left rfl
      obtain ⟨q, caller, moved, rfl, rfl⟩ := init_of_request hr
      have hnone : recordedSize s.memoria q = none := by
        rw [hs.sizes q]
        simp [admittedSize, (hs.lists.on_list (hs.picked _ ht .new q rfl)).2, isAdmitted]
      simpa [recordedSize] using hnone
    · intro q hq
      rcases mem_pids_step hserved hq with hold | ⟨size, file, left, rfl⟩
      · exact hs.known q hold
      · obtain ⟨q', -, -, rfl, -⟩ := init_of_request hr
        exact Int.natCast_nonneg q'
  have hpids : (m.processes.map (·.pid)).Nodup ∧ ∀ q ∈ m.processes.map (·.pid), 0 ≤ q := by
    unfold serve at hserve
    split at hserve
    · obtain ⟨rfl, -⟩ := Prod.mk.inj (Option.some.inj hserve)
      exact ⟨hs.pids, hs.known⟩
    · rename_i r hr
      obtain ⟨⟨m1, reply⟩, hserved, heq⟩ := Option.map_eq_some_iff.mp hserve
      obtain ⟨rfl, -⟩ := Prod.mk.inj heq
      exact hinit r reply hserved hr
  refine ⟨inv_step hs.lists hdump hstep, picked_step hs.lists hs.picked hdump hstep,
    carried_step hs.lists hs.carried hdump hstep, hpids.1, hpids.2, ?_⟩
  intro pid
  obtain ⟨t', others, hget', -, -, -, rfl⟩ := step_run hstep
  obtain rfl : t = t' := by simpa [hget] using hget'
  exact hsizes pid

theorem registered_step {cfg : Config} {s s' : State} {e : Event} (hs : Registered s)
    (hc : inPlace s e = true) (hst : step cfg s e = some s') : Registered s' := by
  cases e with
  | run i ch sv => exact registered_run hs hc hst
  | arrive handler =>
    obtain ⟨k', hstep, rfl⟩ := Option.map_eq_some_iff.mp hst
    refine ⟨inv_step (e := .arrive handler) hs.lists rfl hstep,
      picked_step (e := .arrive handler) hs.lists hs.picked rfl hstep,
      carried_step (e := .arrive handler) hs.lists hs.carried rfl hstep, hs.pids, hs.known, ?_⟩
    obtain ⟨-, rfl⟩ := step_arrive hstep
    exact hs.sizes
  | access r =>
    simp only [step] at hst
    split at hst
    · rename_i hpid
      obtain ⟨⟨m, reply⟩, hserved, rfl⟩ := Option.map_eq_some_iff.mp hst
      have hmemory : (∃ a n, r = .readMemory a n) ∨ ∃ a d, r = .writeMemory a d := by
        cases r with
        | readMemory a n => exact Or.inl ⟨a, n, rfl⟩
        | writeMemory a d => exact Or.inr ⟨a, d, rfl⟩
        | _ => simp [Memoria.Request.pid?] at hpid
      obtain ⟨_, rfl⟩ := Memoria.handle_memory_eq hserved hmemory
      exact ⟨hs.lists, hs.picked, hs.carried, hs.pids, hs.known, hs.sizes⟩
    · exact absurd hst (by simp)

theorem registered_start (cfg : Config) : Registered (State.start cfg) where
  lists := Kernel.inv_start cfg.kernel
  picked := picked_start cfg.kernel
  carried := carried_start cfg.kernel
  pids := List.nodup_nil
  known := by simp [State.start, Memoria.State.start]
  sizes pid := by
    have hnone : admittedSize (State.start cfg).kernel pid = none :=
      if_neg fun hand => absurd hand.2 (by simp [isAdmitted, State.states, State.start,
        Kernel.State.start, pcbCreate])
    rw [hnone]
    rfl

/-- Distinct pids: what is on the list is what is found. -/
theorem mem_recorded {m : Memoria.State} (hpids : (m.processes.map (·.pid)).Nodup) {q size : Int} :
    (q, size) ∈ recorded m ↔ recordedSize m q = some size := by
  constructor
  · intro hmem
    obtain ⟨p, hp, heq⟩ := List.mem_map.mp hmem
    obtain ⟨rfl, rfl⟩ := Prod.mk.inj heq
    rw [recordedSize, Memoria.processManagerFindProcess, Memoria.PageTable.find_of_nodup hpids hp]
    rfl
  · intro hrec
    obtain ⟨p, hfind, rfl⟩ := Option.map_eq_some_iff.mp hrec
    have hpid : p.pid = q := by simpa using List.find?_some hfind
    exact List.mem_map.mpr ⟨p, Memoria.mem_of_find hfind, by rw [hpid]⟩

theorem mem_admitted {k : Kernel.State} {q size : Int} :
    (q, size) ∈ admitted k ↔ ∃ pid : Nat, q = pid ∧ admittedSize k pid = some size := by
  simp only [admitted, List.mem_filterMap, List.mem_range, Option.map_eq_some_iff, Prod.mk.injEq]
  constructor
  · rintro ⟨pid, -, _, hadm, rfl, rfl⟩
    exact ⟨pid, rfl, hadm⟩
  · rintro ⟨pid, rfl, hadm⟩
    have hle : pid ≤ k.newPid := by
      by_contra hgt
      rw [admittedSize, if_neg fun hand => hgt hand.1] at hadm
      exact absurd hadm (by simp)
    exact ⟨pid, Nat.lt_succ_iff.mpr hle, size, hadm, rfl, rfl⟩

/-- Two lists with the same size for each pid are one, up to order. -/
theorem Registered.perm {s : State} (h : Registered s) : (recorded s.memoria).Perm (admitted s.kernel) := by
  have hrecorded : (recorded s.memoria).Nodup := by
    refine List.Nodup.of_map Prod.fst ?_
    rw [recorded, List.map_map]
    exact h.pids
  have hadmitted : (admitted s.kernel).Nodup := by
    refine List.nodup_range.filterMap ?_
    rintro a b x ha hb
    obtain ⟨_, -, rfl⟩ := Option.map_eq_some_iff.mp ha
    obtain ⟨_, -, heq⟩ := Option.map_eq_some_iff.mp hb
    exact_mod_cast (Prod.mk.inj heq).1.symm
  refine (List.perm_ext_iff_of_nodup hrecorded hadmitted).mpr ?_
  rintro ⟨q, size⟩
  rw [mem_recorded h.pids, mem_admitted]
  constructor
  · intro hrec
    obtain ⟨p, hfind, -⟩ := Option.map_eq_some_iff.mp hrec
    have hpid : p.pid = q := by simpa using List.find?_some hfind
    obtain ⟨pid, rfl⟩ := Int.eq_ofNat_of_zero_le
      (h.known q (List.mem_map.mpr ⟨p, Memoria.mem_of_find hfind, hpid⟩))
    exact ⟨pid, rfl, by rw [← h.sizes pid, hrec]⟩
  · rintro ⟨pid, rfl, hadm⟩
    rw [h.sizes pid, hadm]

/-- **Memoria's records are the processes that the kernel has admitted and not ended**, each with the size
its PCB has, in every run in which an answered DUMP_MEMORY finds its process in BLOCKED. -/
theorem records_of_run {cfg : Config} {tr : List (Transition State Event)} {s : State}
    (hr : (system cfg).Run tr s) (hc : ∀ x ∈ tr, inPlace x.src x.label = true) :
    (recorded s.memoria).Perm (admitted s.kernel) := by
  refine (hr.invariant (I := Registered) (C := fun s e => inPlace s e = true) ?_ ?_ hc).perm
  · rintro s rfl
    exact registered_start cfg
  · intro s e s' hs hc hst
    exact registered_step hs hc hst

/-- The theorem at work: the root process creates another and ends, and memoria has the record of the
other. -/
theorem records_of_run_exit :
    ∃ tr s, (system small).Run tr s ∧ s.kernel.queue .exit = [0] ∧ admitted s.kernel = [(1, 16)] ∧
      (recorded s.memoria).Perm (admitted s.kernel) := by
  obtain ⟨tr, s, hrun, htest⟩ := Lts.exists_run_of_drive (State.start small) (step small)
    (List.replicate 8 (runAt 0) ++ [.arrive (.initProc 0 1 16)] ++ List.replicate 9 (runAt 0) ++
      [.arrive (.exit 0)] ++ List.replicate 7 (runAt 0))
    (fun tr s => decide (s.kernel.queue .exit = [0]) && decide (admitted s.kernel = [(1, 16)]) &&
      tr.all fun x => inPlace x.src x.label)
    (by decide +kernel)
  simp only [Bool.and_eq_true, decide_eq_true_eq, List.all_eq_true] at htest
  exact ⟨tr, s, hrun, htest.1.1, htest.1.2, records_of_run hrun htest.2⟩

end Tpso.System
