/-
# What the kernel lets run fits into memory

The kernel does not know how much memory there is: it admits a process when INIT_PROCESS is
confirmed, brings one back when UNSUSPEND_PROCESS is confirmed, and takes a process out of memory when a
SWAP is.  All the same the processes in READY, EXEC and BLOCKED never need more pages than there are
frames that are taken (`capacity_of_run`).

Three facts meet here.  A process on one of these lists has a record that is not suspended
(`Inv.resident`); its record has the size that its PCB has (`Registered`); and the frames on record are the
ones that are taken, each once (`Memoria.owns_step`).  The last is lost when a suspended process is killed,
because its slots are then released as frames; so no device may disconnect while its process is suspended
(`spares`).  All other kills are for processes in EXEC or BLOCKED, which are loaded.
-/
import Tpso.System.Records
import Tpso.Memoria.Ownership

namespace Tpso.System

open Tpso.Lib Tpso.Kernel

/-! ## 1. The condition and the invariant -/

/-- The processes that the kernel has in memory. -/
def running (k : Kernel.State) : List Nat := k.queue .ready ++ k.queue .exec ++ k.queue .blocked

/-- A device that disconnects does not find its process suspended. -/
def spares (s : State) : Event → Bool
  | .run i _ _ =>
    match s.kernel.threads[i]? with
    | some (.disconnectSusp _ pid) => !findPcbIn .suspBlocked pid s.kernel
    | _ => true
  | _ => true

/-- What holds along a run: the invariants of the two modules together, and memoria's ledger. -/
structure Budgeted (cfg : Config) (s : State) : Prop where
  agreed : Inv s
  registered : Registered s
  shaped : Memoria.Shaped cfg.memoria s.memoria
  owns : s.memoria.frames.Owns (Memoria.allResident s.memoria.processes)
  total : s.memoria.frames.total = cfg.memoria.framesTotal

section Step

variable {cfg : Config} {s s' : State} {k : Kernel.State} {ch : Choice} {sv : Service} {t : Thread}
  {pid : Nat}

/-- **A process that is killed is in EXEC or BLOCKED**, or its device has disconnected while it was
suspended. -/
theorem killed_from (hplace : InPlace k t) (h : requestOf k ch sv t = some (.killProcess pid)) :
    pid ∈ k.queue .exec ∨ pid ∈ k.queue .blocked ∨
      ∃ socket, t = .disconnectSusp socket pid ∧ pid ∈ k.queue .suspBlocked := by
  have hfound : ∀ {st : ProcessState} {q : Nat},
      (if findPcbIn st q k then killOf q else none) = some (.killProcess pid) → pid ∈ k.queue st := by
    intro st q hq
    simp only [killOf, Option.ite_none_right_eq_some, Option.some.injEq,
      Memoria.Request.killProcess.injEq, Nat.cast_inj] at hq
    obtain ⟨hmem, rfl⟩ := hq
    exact mem_of_findPcbIn hmem
  cases t with
  | exit q => exact Or.inl (hfound h)
  | io q pc sleepTime deviceName =>
    simp only [requestOf] at h
    split at h
    · exact Or.inl (hfound h)
    · exact absurd h (by simp)
  | dumpWait q =>
    simp only [requestOf, killOf, Option.ite_none_left_eq_some, Option.some.injEq,
      Memoria.Request.killProcess.injEq, Nat.cast_inj] at h
    obtain ⟨-, rfl⟩ := h
    exact Or.inr (Or.inl (hplace.dump q rfl))
  | ioDisconnected socket =>
    simp only [requestOf] at h
    split at h
    · exact absurd h (by simp)
    · split at h
      · exact absurd h (by simp)
      · exact Or.inr (Or.inl (hfound h))
  | disconnectSusp socket q =>
    have hmem := hfound h
    simp only [requestOf, killOf, Option.ite_none_right_eq_some, Option.some.injEq,
      Memoria.Request.killProcess.injEq, Nat.cast_inj] at h
    exact Or.inr (Or.inr ⟨socket, by rw [h.2], hmem⟩)
  | mediumSent q => simp [requestOf] at h
  | longUnsuspend q caller moved => simp [requestOf] at h
  | longCreate q caller moved => simp [requestOf] at h
  | _ => simp [requestOf] at h

/-- **The kernel has memoria kill resident processes only**, when no device disconnects while its process
is suspended. -/
theorem killsResident_of_spares (hs : Budgeted cfg s) {i : Nat} {r : Memoria.Request}
    (hget : s.kernel.threads[i]? = some t) (hplace : InPlace s.kernel t)
    (hspares : spares s (.run i ch sv) = true) (hr : requestOf s.kernel ch sv t = some r) :
    Memoria.KillsResident s.memoria r := by
  cases r with
  | killProcess q =>
    intro p hfind hsize
    have hawait : awaitsReply t = false := by
      cases t <;> first | rfl | simp [requestOf] at hr
    obtain ⟨pid, heq, -⟩ := mem_exit_of_kill cfg.kernel hr hawait
    obtain rfl : q = pid := by simpa using heq
    have hres : ∃ st, inMemory st = true ∧ pid ∈ s.kernel.queue st := by
      rcases killed_from hplace hr with hexec | hblocked | ⟨socket, rfl, hsusp⟩
      · exact ⟨.exec, rfl, hexec⟩
      · exact ⟨.blocked, rfl, hblocked⟩
      · simp [spares, hget, findPcbIn, hsusp] at hspares
    -- the size on record is the size of the PCB
    obtain ⟨st, hin, hmem⟩ := hres
    have hrec : recordedSize s.memoria pid = some p.processSize := by rw [recordedSize, hfind]; rfl
    have hadm : admittedSize s.kernel pid = some p.processSize := by
      rw [← hs.registered.sizes pid, hrec]
    have hpcb : (s.kernel.pcbs pid).size = p.processSize := by
      rw [admittedSize] at hadm
      split at hadm
      · exact Option.some.inj hadm
      · exact absurd hadm (by simp)
    obtain ⟨⟨p', hfind', hloaded⟩, -⟩ :=
      hs.agreed.resident pid (Or.inl ⟨st, hin, hmem⟩) (by rw [hpcb]; exact hsize)
    rw [hfind] at hfind'
    rw [Option.some.inj hfind']
    exact hloaded
  | _ => trivial

/-- A request keeps what memoria holds by itself. -/
theorem Budgeted.served (hs : Budgeted cfg s) {r : Memoria.Request} {m : Memoria.State}
    {reply : Memoria.Reply} (hkills : Memoria.KillsResident s.memoria r)
    (hserved : Memoria.handle cfg.memoria s.memoria r = some (m, reply)) :
    Memoria.Shaped cfg.memoria m ∧ m.frames.Owns (Memoria.allResident m.processes) ∧
      m.frames.total = cfg.memoria.framesTotal :=
  ⟨Memoria.shaped_step hs.shaped hserved, Memoria.owns_step hs.shaped hs.owns hkills hserved,
    (Memoria.handle_framesTotal hserved).trans hs.total⟩

/-- **One step keeps the accounts.** -/
theorem budgeted_step {e : Event} (hs : Budgeted cfg s) (hc : settled s e = true)
    (hspares : spares s e = true) (hst : step cfg s e = some s') : Budgeted cfg s' := by
  cases e with
  | arrive handler =>
    have hagreed := inv_arrive hs.agreed hst
    have hregistered := registered_step (e := .arrive handler) hs.registered rfl hst
    obtain ⟨k', -, rfl⟩ := Option.map_eq_some_iff.mp hst
    exact ⟨hagreed, hregistered, hs.shaped, hs.owns, hs.total⟩
  | run i ch sv =>
    have hagreed := inv_run hs.agreed hc hst
    have hdump : inPlace s (.run i ch sv) = true := (Bool.and_eq_true_iff.mp hc).1
    have hregistered := registered_step (e := .run i ch sv) hs.registered hdump hst
    simp only [step] at hst
    obtain ⟨t, hget, hst⟩ := Option.bind_eq_some_iff.mp hst
    obtain ⟨⟨m, ch'⟩, hserve, hst⟩ := Option.bind_eq_some_iff.mp hst
    obtain ⟨k', hstep, rfl⟩ := Option.map_eq_some_iff.mp hst
    have hdump' : dumpInPlace s.kernel (.run i ch) = true := hdump
    have hplace : InPlace s.kernel t := hs.agreed.lists.inPlace hdump' hget
    have hmemoria : Memoria.Shaped cfg.memoria m ∧ m.frames.Owns (Memoria.allResident m.processes) ∧
        m.frames.total = cfg.memoria.framesTotal := by
      unfold serve at hserve
      split at hserve
      · obtain ⟨rfl, -⟩ := Prod.mk.inj (Option.some.inj hserve)
        exact ⟨hs.shaped, hs.owns, hs.total⟩
      · rename_i r hr
        obtain ⟨⟨m1, reply⟩, hserved, heq⟩ := Option.map_eq_some_iff.mp hserve
        obtain ⟨rfl, -⟩ := Prod.mk.inj heq
        exact hs.served (killsResident_of_spares hs hget hplace hspares hr) hserved
    exact ⟨hagreed, hregistered, hmemoria.1, hmemoria.2.1, hmemoria.2.2⟩
  | access r =>
    have hagreed := inv_access hs.agreed hst
    have hregistered := registered_step (e := .access r) hs.registered rfl hst
    simp only [step] at hst
    split at hst
    · rename_i hpid
      obtain ⟨⟨m, reply⟩, hserved, rfl⟩ := Option.map_eq_some_iff.mp hst
      have hkills : Memoria.KillsResident s.memoria r := by
        cases r with
        | killProcess q => simp [Memoria.Request.pid?] at hpid
        | _ => trivial
      obtain ⟨hshaped, howns, htotal⟩ := hs.served hkills hserved
      exact ⟨hagreed, hregistered, hshaped, howns, htotal⟩
    · exact absurd hst (by simp)

theorem budgeted_start (cfg : Config) : Budgeted cfg (State.start cfg) where
  agreed := inv_start cfg
  registered := registered_start cfg
  shaped := Memoria.shaped_start cfg.memoria
  owns := BitAlloc.owns_empty _
  total := rfl

end Step

/-! ## 2. The accounts -/

section Accounts

variable {cfg : Config} {s : State} {pid : Nat}

/-- A process that the kernel has in memory is admitted, with the size in its PCB. -/
theorem Budgeted.admitted (hs : Budgeted cfg s) (h : pid ∈ running s.kernel) :
    (∃ st, inMemory st = true ∧ pid ∈ s.kernel.queue st) ∧
      admittedSize s.kernel pid = some (s.kernel.pcbs pid).size := by
  obtain ⟨st, hin, hmem⟩ : ∃ st, inMemory st = true ∧ pid ∈ s.kernel.queue st := by
    simp only [running, List.mem_append] at h
    rcases h with (h | h) | h
    · exact ⟨.ready, rfl, h⟩
    · exact ⟨.exec, rfl, h⟩
    · exact ⟨.blocked, rfl, h⟩
  obtain ⟨hle, hstate⟩ := hs.agreed.lists.on_list hmem
  refine ⟨⟨st, hin, hmem⟩, if_pos ⟨hle, ?_⟩⟩
  rw [hstate]
  cases st <;> first | rfl | simp [inMemory] at hin

/-- **A process that the kernel has in memory holds the frames its size needs.** -/
theorem Budgeted.holds (hs : Budgeted cfg s) (h : pid ∈ running s.kernel) :
    ∃ p, Memoria.processManagerFindProcess s.memoria.processes pid = some p ∧
      ((Memoria.residentFrames p).length : Int) = cfg.memoria.pagesNeeded (s.kernel.pcbs pid).size := by
  obtain ⟨hlist, hadm⟩ := hs.admitted h
  obtain ⟨p, hfind, hsize⟩ : ∃ p, Memoria.processManagerFindProcess s.memoria.processes pid = some p ∧
      p.processSize = (s.kernel.pcbs pid).size :=
    Option.map_eq_some_iff.mp ((hs.registered.sizes pid).trans hadm)
  refine ⟨p, hfind, ?_⟩
  have hp := Memoria.mem_of_find hfind
  rw [← hsize]
  by_cases hzero : p.processSize = 0
  · have hnone : Memoria.residentFrames p = [] := by
      unfold Memoria.residentFrames
      split
      · rfl
      · split
        · rename_i fs hfs
          exact absurd hfs (hs.shaped.zero p hp hzero fs)
        · rfl
    rw [hnone, hzero, Memoria.pagesNeeded_zero]
    rfl
  · obtain ⟨⟨p', hfind', hloaded⟩, -⟩ := hs.agreed.resident pid (Or.inl hlist) (by rwa [← hsize])
    obtain rfl : p = p' := Option.some.inj (hfind.symm.trans hfind')
    obtain ⟨-, t, fs, -, hfs, hlen⟩ := hs.shaped.sized p hp hzero
    rw [Memoria.residentFrames_of_obj hloaded hfs, hlen]

/-- No process is twice on the lists of those in memory. -/
theorem nodup_running {k : Kernel.State} (h : Kernel.Inv k) : (running k).Nodup := by
  have hdisjoint : ∀ {a b : ProcessState}, a ≠ b → (k.queue a).Disjoint (k.queue b) :=
    fun hne x ha hb => hne (h.tidy.unique ha hb)
  refine List.nodup_append'.mpr ⟨List.nodup_append'.mpr
    ⟨h.tidy.nodup .ready, h.tidy.nodup .exec, hdisjoint (by simp)⟩, h.tidy.nodup .blocked, ?_⟩
  exact List.disjoint_append_left.mpr ⟨hdisjoint (by simp), hdisjoint (by simp)⟩

/-- The records of the processes in memory, in the order of the kernel's lists. -/
def recordsOf (s : State) : List Memoria.ProcessInfo :=
  (running s.kernel).filterMap fun pid : Nat =>
    Memoria.processManagerFindProcess s.memoria.processes pid

/-- They are some of memoria's records, each once. -/
theorem recordsOf_subperm (h : Kernel.Inv s.kernel) :
    (recordsOf s).Subperm s.memoria.processes := by
  unfold recordsOf
  refine List.subperm_of_subset ?_ ?_
  · refine (nodup_running h).filterMap ?_
    intro a b p ha hb
    have hpa : p.pid = (a : Int) := by simpa using List.find?_some ha
    have hpb : p.pid = (b : Int) := by simpa using List.find?_some hb
    exact_mod_cast hpa.symm.trans hpb
  · intro p hp
    obtain ⟨pid, -, hfind⟩ := List.mem_filterMap.mp hp
    exact Memoria.mem_of_find hfind

/-- Their frames are counted once in the ledger. -/
theorem length_recordsOf_le (h : Kernel.Inv s.kernel) :
    ((recordsOf s).map fun p => (Memoria.residentFrames p).length).sum ≤
      (Memoria.allResident s.memoria.processes).length := by
  obtain ⟨l, hperm, hsub⟩ := recordsOf_subperm h
  rw [Memoria.allResident, List.length_flatMap, ← (hperm.map _).sum_eq]
  exact (hsub.map _).sum_le_sum fun _ _ => Nat.zero_le _

/-- The pages that the processes in memory need. -/
def pagesInMemory (cfg : Config) (k : Kernel.State) : Int :=
  ((running k).map fun pid => cfg.memoria.pagesNeeded (k.pcbs pid).size).sum

/-- The pages are those of the records. -/
theorem Budgeted.pages (hs : Budgeted cfg s) :
    pagesInMemory cfg s.kernel =
      (((recordsOf s).map fun p => (Memoria.residentFrames p).length).sum : Nat) := by
  have hpages : ∀ l : List Nat, (∀ pid ∈ l, pid ∈ running s.kernel) →
      (l.map fun pid => cfg.memoria.pagesNeeded (s.kernel.pcbs pid).size).sum =
        (((l.filterMap fun pid : Nat =>
          Memoria.processManagerFindProcess s.memoria.processes pid).map fun p =>
            (Memoria.residentFrames p).length).sum : Nat) := by
    intro l
    induction l with
    | nil => intro _; rfl
    | cons pid l ih =>
      intro hall
      obtain ⟨p, hfind, hlen⟩ := hs.holds (hall pid List.mem_cons_self)
      rw [List.filterMap_cons_some (f := fun pid : Nat =>
        Memoria.processManagerFindProcess s.memoria.processes pid) hfind, List.map_cons,
        List.map_cons, List.sum_cons, List.sum_cons, ih fun q hq => hall q (List.mem_cons_of_mem _ hq), ← hlen]
      push_cast
      rfl
  exact hpages (running s.kernel) fun _ h => h

theorem Budgeted.bound (hs : Budgeted cfg s) :
    pagesInMemory cfg s.kernel + s.memoria.frames.free ≤ cfg.memoria.framesTotal := by
  have hledger := hs.owns.length_add_free
  have hle := length_recordsOf_le hs.agreed.lists
  rw [hs.pages, ← hs.total]
  omega

end Accounts

/-- **The processes in READY, EXEC and BLOCKED fit into the frames that are taken**, in every run in which
no UNSUSPEND_PROCESS overtakes a suspension, every dump ends with its PCB in BLOCKED, and no device
disconnects while its process is suspended. -/
theorem capacity_of_run {cfg : Config} {tr : List (Transition State Event)} {s : State}
    (hr : (system cfg).Run tr s)
    (hc : ∀ x ∈ tr, settled x.src x.label = true ∧ spares x.src x.label = true) :
    pagesInMemory cfg s.kernel + s.memoria.frames.free ≤ cfg.memoria.framesTotal := by
  refine (hr.invariant (I := Budgeted cfg)
    (C := fun s e => settled s e = true ∧ spares s e = true) ?_ ?_ hc).bound
  · rintro s rfl
    exact budgeted_start cfg
  · intro s e s' hs hc hst
    exact budgeted_step hs hc.1 hc.2 hst

/-- The theorem at work: the root process and another fill the memory. -/
theorem capacity_of_run_full :
    ∃ tr s, (system small).Run tr s ∧ pagesInMemory small s.kernel = 4 ∧
      pagesInMemory small s.kernel + s.memoria.frames.free ≤ small.memoria.framesTotal := by
  obtain ⟨tr, s, hrun, htest⟩ := Lts.exists_run_of_drive (State.start small) (step small)
    (List.replicate 8 (runAt 0) ++ [.arrive (.initProc 0 1 48)] ++ List.replicate 9 (runAt 0))
    (fun tr s => decide (pagesInMemory small s.kernel = 4) &&
      tr.all fun x => settled x.src x.label && spares x.src x.label)
    (by decide +kernel)
  simp only [Bool.and_eq_true, decide_eq_true_eq, List.all_eq_true] at htest
  exact ⟨tr, s, hrun, htest.1, capacity_of_run hrun htest.2⟩

end Tpso.System
