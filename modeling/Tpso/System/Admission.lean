/-
# No process waits in NEW beside memory that would take it

A process stays in NEW because memoria refused it.  Memory is given back on several paths, by EXIT, by
an IO on an unknown device, by a refused DUMP_MEMORY, by the disconnection of a device and by a SWAP,
and each path has to start the long-term scheduler itself, for nothing else will try again.

The invariant is that a process which memoria would admit never waits alone: some thread of the kernel
is still going to run the NEW loop (`tries`).  Two paths free memory and forget the scheduler: the second
section of `dump_memory_syscall` when the dump was refused, and `handle_found_process` for a process in
BLOCKED.  A third loses its turn, a long-term scheduler that cannot connect to memoria.  When on these
another thread is about to try, or memoria would refuse all the same, no admission is missed
(`noMissed_of_retried`).
-/
import Tpso.Kernel.Priority
import Tpso.Memoria.Mapped
import Tpso.System.Suspension

namespace Tpso.Admission

open Tpso.Lib Tpso.Kernel Tpso.System

/-! ## 1. Kernel and memoria, with the scripts and the order of NEW fixed -/

/-- `pcb->size`, as a function of the pid. -/
def sizes (k : Kernel.State) (pid : Nat) : Int := (k.pcbs pid).size

/-- The two modules, the script that can be opened for each pid, and `list_sort` with
`compare_process_size`: it reorders a list, a shorter process comes first, and a list that is in order
stays as it is. -/
structure Config where
  system : System.Config
  scripts : Nat → Option (List String)
  sortBySize : (Nat → Int) → List Nat → List Nat
  sortBySize_perm : ∀ size l, (sortBySize size l).Perm l
  sortBySize_sorted : ∀ size l, (sortBySize size l).Pairwise fun a b => size a ≤ size b
  sortBySize_of_sorted : ∀ size l, (l.Pairwise fun a b => size a ≤ size b) → sortBySize size l = l

/-- NEW is sorted by `list_sort`, and INIT_PROCESS finds the script of its pid. -/
def adjust (cfg : Config) (s : System.State) : System.Event → System.Event
  | .run i ch sv =>
    match s.kernel.threads[i]? with
    | some (.longNew _ _) =>
      .run i { ch with order := cfg.sortBySize (sizes s.kernel) (s.kernel.queue .new) } sv
    | some (.longCreate pid _ _) => .run i ch { sv with file := cfg.scripts pid }
    | _ => .run i ch sv
  | e => e

/-- One step of kernel and memoria. -/
def step (cfg : Config) (s : System.State) (e : System.Event) : Option System.State :=
  System.step cfg.system s (adjust cfg s e)

/-- Kernel and memoria as a transition system. -/
def admission (cfg : Config) : Lts System.State System.Event :=
  Lts.ofStep (State.start cfg.system) (step cfg)

/-! ## 2. The property and the condition -/

/-- The process the long-term algorithm selects from NEW. -/
def selects (cfg : Config) (k : Kernel.State) : Option Nat :=
  (getNextProcessToInitializeFrom cfg.system.kernel .new
    (cfg.sortBySize (sizes k) (k.queue .new)) k).2

/-- The INIT_PROCESS request for a process. -/
def initRequest (cfg : Config) (s : System.State) (left : Memoria.Leftover) (pid : Nat) :
    Memoria.Request := .initProcess pid (s.kernel.pcbs pid).size (cfg.scripts pid) left

/-- **No missed admission**: in a quiescent state with SUSP_READY empty, memoria would refuse the
process that the algorithm selects from a NEW that is not empty. -/
def NoMissed (cfg : Config) (s : System.State) : Prop :=
  s.kernel.threads = [] → s.kernel.crashed = false → s.kernel.queue .suspReady = [] →
    s.kernel.queue .new ≠ [] →
    ∃ pid ∈ s.kernel.queue .new, selects cfg s.kernel = some pid ∧
      ∀ left, ∃ m, Memoria.handle cfg.system.memoria s.memoria (initRequest cfg s left pid) =
        some (m, .confirmation false)

/-- Whether memoria would admit a process. -/
def admits (cfg : Config) (s : System.State) (pid : Nat) : Bool :=
  decide ((Memoria.createProcess cfg.system.memoria s.memoria pid (sizes s.kernel pid)
    (cfg.scripts pid) ⟨true, true⟩).map Prod.snd = some true)

/-- A process waits although memoria would admit it. -/
def missed (cfg : Config) (s : System.State) : Bool :=
  decide (s.kernel.queue .suspReady = []) && (selects cfg s.kernel).any (admits cfg s)

/-- The threads that run the NEW loop before they end. -/
def tries : Thread → Bool
  | .mediumAnswered _ success => success
  | t => t.isLong

/-- The sections that free memory, or give up a turn, and leave the NEW loop to others. -/
def forgets (k : Kernel.State) (ch : Choice) (sv : Service) : Thread → Bool
  | .long _ => !ch.connected
  | .dumpWait _ => !ch.answer
  | .ioDisconnected socket => (requestOf k ch sv (.ioDisconnected socket)).isSome
  | _ => false

/-- The condition on one step: a section that forgets leaves another thread that will try, or a memory
that would not admit the waiting process. -/
def retried (cfg : Config) (s : System.State) : System.Event → Bool
  | .run i ch sv =>
    match s.kernel.threads[i]? with
    | none => true
    | some t =>
      !forgets s.kernel ch sv t || (s.kernel.threads.eraseIdx i).any tries ||
        !(serve cfg.system s ch sv t).any fun x => missed cfg { s with memoria := x.1 }
  | _ => true

/-! ## 3. What memoria refuses it refuses again -/

section Refusal

variable {cfg : Memoria.Config} {m m' : Memoria.State} {pid size : Int} {file : Option (List String)}
  {left left' : Memoria.Leftover}

/-- `create_process` always answers. -/
theorem createProcess_isSome (cfg : Memoria.Config) (m : Memoria.State) (pid size : Int)
    (file : Option (List String)) (left : Memoria.Leftover) :
    (Memoria.createProcess cfg m pid size file left).isSome = true := by
  unfold Memoria.createProcess
  split
  · rfl
  · split
    · simp only
      split
      · rfl
      · split
        · rfl
        · rename_i fs frames halloc
          split
          · rfl
          · split
            · -- the frames just taken can be given back
              rw [BitAlloc.release_alloc halloc]
              rfl
            · rfl
    · rfl

/-- The answer depends on the frames and on the number of the next table alone. -/
theorem createProcess_congr (hframes : m'.frames = m.frames)
    (htables : m'.nextTableId = m.nextTableId) :
    (Memoria.createProcess cfg m' pid size file left').map Prod.snd =
      (Memoria.createProcess cfg m pid size file left).map Prod.snd := by
  unfold Memoria.createProcess
  rw [hframes, htables]
  split
  · rfl
  · split
    · simp only
      split
      · rfl
      · split
        · rfl
        · split
          · rfl
          · split
            · rw [Option.map_map, Option.map_map]
              rfl
            · rfl
    · rfl

/-- A refusal leaves the frames as they were, or takes what was clear without filling the request. -/
theorem refused_frames (h : Memoria.createProcess cfg m pid size file left = some (m', false)) :
    m'.frames = m.frames ∨
      ∃ fs, m.frames.alloc (cfg.pagesNeeded size) = some (fs, m'.frames) ∧
        (fs.length : Int) ≠ cfg.pagesNeeded size := by
  rcases Memoria.createProcess_cases h with ⟨rfl, -⟩ | ⟨fs, frames, halloc, hlen, rfl, -⟩ |
    ⟨fs, frames, frames', id, halloc, hrel, rfl, -⟩ | ⟨_, _, _, _, _, -, -, -, -, -, hb⟩ |
    ⟨_, -, -, hb⟩
  · exact Or.inl rfl
  · exact Or.inr ⟨fs, halloc, hlen⟩
  · rw [BitAlloc.release_alloc halloc] at hrel
    exact Or.inl (Option.some.inj hrel).symm
  · exact absurd hb (by simp)
  · exact absurd hb (by simp)

/-- **A refusal persists**: asked again at once, memoria refuses again. -/
theorem createProcess_refused_again
    (h : Memoria.createProcess cfg m pid size file left = some (m', false))
    (hid : m.nextTableId = 1) :
    ∃ m'', Memoria.createProcess cfg m' pid size file left' = some (m'', false) := by
  obtain ⟨⟨m'', b⟩, h'⟩ := Option.isSome_iff_exists.mp (createProcess_isSome cfg m' pid size file left')
  rcases refused_frames h with hframes | ⟨fs, halloc, hlen⟩
  · have htables : m'.nextTableId = m.nextTableId :=
      (Memoria.createProcess_nextTableId h hid).trans hid.symm
    have heq : (Memoria.createProcess cfg m' pid size file left').map Prod.snd =
        (Memoria.createProcess cfg m pid size file left).map Prod.snd :=
      createProcess_congr hframes htables
    rw [h, h'] at heq
    obtain rfl : b = false := Option.some.inj heq
    exact ⟨m'', h'⟩
  · -- no clear frame is left, so the next request comes out short too
    cases b with
    | false => exact ⟨m'', h'⟩
    | true =>
      rcases Memoria.createProcess_cases h' with ⟨-, hb⟩ | ⟨_, _, -, -, -, hb⟩ |
        ⟨_, _, _, _, -, -, -, hb⟩ | ⟨fs', frames', _, _, _, -, halloc', hlen', -⟩ | ⟨_, rfl, -⟩
      · exact absurd hb (by simp)
      · exact absurd hb (by simp)
      · exact absurd hb (by simp)
      · exact absurd hlen' (BitAlloc.alloc_short halloc hlen halloc')
      · -- a process of size 0 is refused for its script alone
        unfold Memoria.createProcess at h h'
        cases hload : Memoria.processManagerLoadScriptLines file with
        | none => simp [hload] at h'
        | some instructions => simp [hload] at h

end Refusal

/-! ## 4. What the sections leave for a process in NEW -/

/-- NEW and the sizes are the same. -/
structure SameNew (k k' : Kernel.State) : Prop where
  new : k'.queue .new = k.queue .new
  size : ∀ pid, (k'.pcbs pid).size = (k.pcbs pid).size

/-- NEW and the sizes are the same, and SUSP_READY has not been emptied. -/
structure Calm (k k' : Kernel.State) : Prop extends SameNew k k' where
  suspReady : k'.queue .suspReady = [] → k.queue .suspReady = []

namespace Calm

variable {k k' k'' : Kernel.State}

theorem refl (k : Kernel.State) : Calm k k := ⟨⟨rfl, fun _ => rfl⟩, id⟩

theorem trans (h : Calm k k') (h' : Calm k' k'') : Calm k k'' :=
  ⟨⟨h'.new.trans h.new, fun pid => (h'.size pid).trans (h.size pid)⟩,
    fun hnil => h.suspReady (h'.suspReady hnil)⟩

theorem of_same (h : SameCore k k') : Calm k k' :=
  ⟨⟨by rw [h.queue], h.size⟩, fun hnil => by rwa [h.queue] at hnil⟩

/-- The threads do not matter. -/
theorem threads (k : Kernel.State) (ts : List Thread) : Calm k { k with threads := ts } :=
  ⟨⟨rfl, fun _ => rfl⟩, id⟩

theorem addPcbTo {st : ProcessState} (hst : st ≠ .new) (pid : Nat) (k : Kernel.State) :
    Calm k (addPcbTo st pid k) := by
  refine ⟨⟨?_, ?_⟩, ?_⟩
  · simp [Kernel.addPcbTo, Function.update_of_ne hst.symm]
  · intro q
    by_cases hq : q = pid
    · simp [Kernel.addPcbTo, hq]
    · simp [Kernel.addPcbTo, hq]
  · by_cases hsr : st = .suspReady
    · simp [Kernel.addPcbTo, hsr]
    · simp [Kernel.addPcbTo, Function.update_of_ne (Ne.symm hsr)]

theorem removePcbFrom {st : ProcessState} (hst : st ≠ .new) (hsr : st ≠ .suspReady) (pid : Nat)
    (k : Kernel.State) : Calm k (removePcbFrom st pid k) := by
  refine ⟨⟨?_, fun _ => rfl⟩, ?_⟩
  · simp [Kernel.removePcbFrom, Function.update_of_ne hst.symm]
  · simp [Kernel.removePcbFrom, Function.update_of_ne hsr.symm]

theorem movePcb {a b : ProcessState} (ha : a ≠ .new) (hsr : a ≠ .suspReady) (hb : b ≠ .new)
    (pid : Nat) (k : Kernel.State) : Calm k (movePcb a b pid k) :=
  (removePcbFrom ha hsr pid k).trans (addPcbTo hb pid _)

theorem sortList {st : ProcessState} (hst : st ≠ .new) (order : List Nat) (k : Kernel.State) :
    Calm k (sortList st order k) := by
  unfold Kernel.sortList
  split
  · rename_i hperm
    refine ⟨⟨?_, fun _ => rfl⟩, ?_⟩
    · simp [Function.update_of_ne hst.symm]
    · by_cases hsr : st = .suspReady
      · subst hsr
        intro hnil
        have horder : order = [] := by simpa using hnil
        rw [horder] at hperm
        exact hperm.nil_eq.symm
      · simp [Function.update_of_ne (Ne.symm hsr)]
  · exact refl k

theorem mediumRollback (k : Kernel.State) (pid : Nat) : Calm k (mediumRollback k pid) := by
  unfold Kernel.mediumRollback
  split
  · exact movePcb (by decide) (by decide) (by decide) pid k
  · exact refl k

theorem preempt (k : Kernel.State) (cpu : Nat) (samePid : Bool) (pc : Int) :
    Calm k (preempt k cpu samePid pc) := by
  unfold Kernel.preempt
  split
  · exact refl k
  · split
    · exact (of_same (SameCore.setPc _ pc k)).trans
        (movePcb (by decide) (by decide) (by decide) _ _)
    · exact refl k

theorem dispatch (cpu pid : Nat) (k : Kernel.State) : Calm k (dispatch cpu pid k) := by
  have h : Calm k (Kernel.movePcb .ready .exec pid k) :=
    movePcb (by decide) (by decide) (by decide) pid k
  exact ⟨⟨h.new, h.size⟩, h.suspReady⟩

end Calm

section Sections

variable {cfg : Kernel.Config} {k : Kernel.State} {ch : Choice}

/-- The sections outside `run_long_scheduler` that do not lock NEW. -/
theorem nextSection_calm {t : Thread} (hlong : t.isLong = false) (hnew : Lock.new ∉ t.uses) :
    Calm k (nextSection cfg k ch t).1 := by
  cases t with
  | initProc _ _ _ => simp [Thread.uses] at hnew
  | io pid pc sleepTime deviceName =>
    have hexit : Calm k (exitProcessSyscall k pid).1 := by
      unfold exitProcessSyscall
      split
      · exact Calm.movePcb (a := .exec) (b := .exit) (by decide) (by decide) (by decide) pid k
      · exact Calm.of_same (SameCore.crash k)
    simp only [nextSection, handleIoProcessSyscall]
    split
    · exact hexit
    · split
      · exact Calm.refl k
      · split
        · exact ((Calm.of_same (SameCore.setPc pid pc k)).trans
            (Calm.movePcb (by decide) (by decide) (by decide) pid _)).trans
            (Calm.of_same (SameCore.setIoRequests _ _ _))
        · exact Calm.refl k
  | exit pid =>
    simp only [nextSection, exitProcessSyscall]
    split
    · exact Calm.movePcb (a := .exec) (b := .exit) (by decide) (by decide) (by decide) pid k
    · exact Calm.of_same (SameCore.crash k)
  | dump pid pc =>
    simp only [nextSection, dumpMemorySyscall]
    split
    · exact (Calm.of_same (SameCore.setPc pid pc k)).trans
        (Calm.movePcb (by decide) (by decide) (by decide) pid _)
    · exact Calm.refl k
  | newDevice socket deviceName =>
    have h := SameCore.createIoConnection socket deviceName ch.position k
    simp only [nextSection, processNewDevice]
    split
    · exact Calm.of_same (h.trans (SameCore.setIoRequests _ _ _))
    · exact Calm.of_same h
  | ioCompletion socket deviceName pid =>
    simp only [nextSection, ioCompletion]
    split
    · exact Calm.refl k
    · split
      · exact (Calm.movePcb (by decide) (by decide) (by decide) pid k).trans
          (Calm.of_same (SameCore.setIoCurrent _ _ _))
      · split
        · exact (Calm.movePcb (by decide) (by decide) (by decide) pid k).trans
            (Calm.of_same (SameCore.setIoCurrent _ _ _))
        · exact Calm.of_same (SameCore.setIoCurrent _ _ _)
  | ioDisconnected socket =>
    simp only [nextSection, ioDisconnected]
    split
    · exact Calm.refl k
    · split
      · exact Calm.of_same (SameCore.deleteIoConnection socket k)
      · rename_i pid _
        split
        · exact (Calm.movePcb (a := .blocked) (b := .exit) (by decide) (by decide) (by decide) pid
            k).trans (Calm.of_same (SameCore.deleteIoConnection socket _))
        · exact Calm.refl k
  | dumpWait pid =>
    obtain ⟨dst, hdst, hstate, -⟩ := dumpMemoryAnswered_cases k pid ch.answer
    simp only [nextSection, hstate]
    refine Calm.movePcb (by decide) (by decide) ?_ pid k
    rcases hdst with rfl | rfl
    · decide
    · decide
  | pendingIo deviceName socket after =>
    exact Calm.of_same (processPendingIo_same k deviceName socket ch.answer)
  | disconnectSusp socket pid =>
    simp only [nextSection, handleFoundSuspended]
    split
    · exact Calm.movePcb (a := .suspBlocked) (b := .exit) (by decide) (by decide) (by decide) pid k
    · exact Calm.of_same (SameCore.deleteIoConnection socket k)
  | medium pid =>
    simp only [nextSection, runMediumScheduler]
    split
    · split
      · exact Calm.movePcb (by decide) (by decide) (by decide) pid k
      · exact Calm.refl k
    · exact Calm.refl k
  | mediumSwap pid =>
    simp only [nextSection]
    split
    · exact Calm.refl k
    · exact Calm.mediumRollback k pid
  | mediumSent pid => exact Calm.refl k
  | mediumAnswered pid success =>
    simp only [nextSection]
    split
    · exact Calm.refl k
    · exact Calm.mediumRollback k pid
  | short caller =>
    obtain ⟨s1, execOrder, order, hclear, hsame, -⟩ := shortSelect_cases cfg k ch caller
    have h1 : Calm k s1 := by
      rcases hclear with rfl | ⟨cpu, -, rfl⟩
      · exact Calm.refl s1
      · exact ⟨⟨rfl, fun _ => rfl⟩, id⟩
    exact ((h1.trans (Calm.sortList (by decide) execOrder s1)).trans
      (Calm.sortList (by decide) order _)).trans (Calm.of_same hsame)
  | shortSelected caller cpu pid =>
    rcases shortDecide_cases cfg k caller cpu pid ch.preempt with ⟨-, hsame, -⟩ | ⟨hsame, -⟩
    · exact (Calm.dispatch cpu pid k).trans (Calm.of_same hsame)
    · exact Calm.of_same hsame
  | shortWait caller cpu pid =>
    have hsame := shortReturn_same (dispatch cpu pid (preempt k cpu ch.answer ch.pc)) caller
    exact ((Calm.preempt k cpu ch.answer ch.pc).trans (Calm.dispatch cpu pid _)).trans
      (Calm.of_same hsame.1)
  | _ => simp [Thread.isLong] at hlong

/-- **NEW and the sizes change under the lock of NEW alone.** -/
theorem nextSection_sameNew {t : Thread} (hnew : Lock.new ∉ t.uses) :
    SameNew k (nextSection cfg k ch t).1 := by
  cases hlong : t.isLong with
  | false => exact (nextSection_calm hlong hnew).toSameNew
  | true =>
    cases t with
    | long caller =>
      simp only [nextSection]
      split
      · exact (Calm.refl k).toSameNew
      · exact (Calm.of_same (longReturn_same k caller false).1).toSameNew
    | longScan caller moved =>
      obtain ⟨order', heq⟩ := getNextProcessToInitializeFrom_eq k cfg .suspReady ch.order
      have h := @Calm.sortList .suspReady (by decide) order' k
      simp only [nextSection, longScan]
      split
      · rename_i s' hnext
        obtain rfl : s' = sortList .suspReady order' k := by rw [← heq, hnext]
        exact h.toSameNew
      · rename_i s' pid hnext
        obtain rfl : s' = sortList .suspReady order' k := by rw [← heq, hnext]
        exact h.toSameNew
    | longUnsuspend pid caller moved => exact (Calm.refl k).toSameNew
    | longAnswered pid success caller moved =>
      simp only [nextSection, longAnswered]
      split
      · exact ⟨by simp [removePcbFrom], fun _ => rfl⟩
      · exact (Calm.refl k).toSameNew
    | longMove popped caller =>
      cases popped with
      | none => exact (Calm.refl k).toSameNew
      | some pid => exact (Calm.addPcbTo (by decide) pid k).toSameNew
    | longLock caller moved => simp [Thread.uses] at hnew
    | longNew caller moved => simp [Thread.uses, Thread.holds] at hnew
    | longCreate pid caller moved => simp [Thread.uses, Thread.holds] at hnew
    | _ => simp [Thread.isLong] at hlong

/-- A section whose request frees memory starts the long-term scheduler, or forgets it. -/
theorem tries_of_request {sv : Service} {t : Thread} (hlong : t.isLong = false)
    (hawait : awaitsReply t = false) (hr : (requestOf k ch sv t).isSome = true) :
    forgets k ch sv t = true ∨ ∃ u ∈ (nextSection cfg k ch t).2, tries u = true := by
  cases t with
  | io pid pc sleepTime deviceName =>
    simp only [requestOf, killOf] at hr
    split at hr
    · rename_i hdevice
      split at hr
      · rename_i hfound
        exact Or.inr ⟨.long .always, by simp [nextSection, handleIoProcessSyscall, hdevice,
          exitProcessSyscall, hfound], rfl⟩
      · exact absurd hr (by simp)
    · exact absurd hr (by simp)
  | exit pid =>
    simp only [requestOf, killOf] at hr
    split at hr
    · rename_i hfound
      exact Or.inr ⟨.long .always, by simp [nextSection, exitProcessSyscall, hfound], rfl⟩
    · exact absurd hr (by simp)
  | dumpWait pid =>
    simp only [requestOf, killOf] at hr
    split at hr
    · exact absurd hr (by simp)
    · rename_i hno
      exact Or.inl (by simpa [forgets] using hno)
  | ioDisconnected socket => exact Or.inl hr
  | disconnectSusp socket pid =>
    simp only [requestOf, killOf] at hr
    split at hr
    · rename_i hfound
      exact Or.inr ⟨.long (.disconnect socket), by simp [nextSection, handleFoundSuspended, hfound],
        rfl⟩
    · exact absurd hr (by simp)
  | mediumSent pid => simp [awaitsReply] at hawait
  | longUnsuspend _ _ _ => simp [Thread.isLong] at hlong
  | longCreate _ _ _ => simp [Thread.isLong] at hlong
  | _ => simp [requestOf] at hr

end Sections

/-! ## 5. What is selected, and what would be admitted -/

section Selection

variable {cfg : Config} {k k' : Kernel.State}

theorem queue_sortList {st : ProcessState} {order : List Nat} (h : order.Perm (k.queue st)) :
    (sortList st order k).queue st = order := by
  rw [sortList, if_pos h]
  exact Function.update_self _ _ _

theorem selects_eq (cfg : Config) (k : Kernel.State) :
    selects cfg k = (if cfg.system.kernel.longTermAlgorithm = .pmcp
      then cfg.sortBySize (sizes k) (k.queue .new) else k.queue .new).head? := by
  simp only [selects, getNextProcessToInitializeFrom]
  split
  · rw [queue_sortList (cfg.sortBySize_perm _ _)]
  · rfl

theorem SameNew.sizes (h : SameNew k k') : sizes k' = sizes k := funext h.size

/-- What is selected depends on NEW and on the sizes. -/
theorem SameNew.selects (h : SameNew k k') : selects cfg k' = selects cfg k := by
  rw [selects_eq, selects_eq, h.sizes, h.new]

theorem selects_mem {pid : Nat} (h : selects cfg k = some pid) : pid ∈ k.queue .new := by
  rw [selects_eq] at h
  have hmem := List.mem_of_mem_head? (Option.mem_def.mpr h)
  split at hmem
  · exact (cfg.sortBySize_perm _ _).mem_iff.mp hmem
  · exact hmem

theorem selects_isSome (h : k.queue .new ≠ []) : (selects cfg k).isSome = true := by
  rw [selects_eq, List.isSome_head?]
  split
  · intro hnil
    have hperm := cfg.sortBySize_perm (sizes k) (k.queue .new)
    rw [hnil] at hperm
    exact h hperm.nil_eq.symm
  · exact h

/-- **The NEW loop picks what is selected**, and ends only when NEW is empty. -/
theorem longNew_selects {caller : LongCaller} {moved : Bool} {ch : Choice}
    (horder : ch.order = cfg.sortBySize (sizes k) (k.queue .new)) :
    (∃ pid, selects cfg (nextSection cfg.system.kernel k ch (.longNew caller moved)).1 = some pid ∧
      (nextSection cfg.system.kernel k ch (.longNew caller moved)).2 =
        [.longCreate pid caller moved]) ∨
    (nextSection cfg.system.kernel k ch (.longNew caller moved)).1.queue .new = [] := by
  have hsort : ∀ st pid?, getNextProcessToInitializeFrom cfg.system.kernel .new ch.order k = (st, pid?) →
      selects cfg st = pid? ∧ (pid? = none → st.queue .new = []) := by
    intro st pid? heq
    simp only [getNextProcessToInitializeFrom, Prod.mk.injEq] at heq
    obtain ⟨rfl, rfl⟩ := heq
    refine ⟨?_, fun hnone => List.head?_eq_none_iff.mp hnone⟩
    rw [selects_eq]
    split
    · -- NEW is in order now, and is selected from as it stands
      have hsizes : sizes (sortList .new ch.order k) = sizes k := by
        unfold sortList
        split
        · rfl
        · rfl
      rw [hsizes, horder, queue_sortList (cfg.sortBySize_perm _ _),
        cfg.sortBySize_of_sorted _ _ (cfg.sortBySize_sorted _ _)]
    · rfl
  simp only [nextSection, longNew]
  split
  · rename_i st hnone
    obtain ⟨-, hnil⟩ := hsort st none hnone
    right
    rw [(longReturn_same st caller moved).1.queue]
    exact hnil rfl
  · rename_i st pid hsome
    exact Or.inl ⟨pid, (hsort st _ hsome).1, rfl⟩

/-- A process that waits after a calm section waited before. -/
theorem missed_of_calm {s s' : System.State} (hmissed : missed cfg s' = true)
    (h : Calm s.kernel s'.kernel) (hframes : s'.memoria.frames = s.memoria.frames)
    (htables : s'.memoria.nextTableId = s.memoria.nextTableId) : missed cfg s = true := by
  have hadmits : admits cfg s' = admits cfg s := by
    funext pid
    simp only [admits, h.sizes]
    rw [createProcess_congr hframes htables]
  simp only [missed, Bool.and_eq_true, decide_eq_true_eq] at hmissed ⊢
  rw [h.selects, hadmits] at hmissed
  exact ⟨h.suspReady hmissed.1, hmissed.2⟩

/-- Nothing waits when NEW is empty. -/
theorem not_missed_of_nil {m : Memoria.State} (h : k.queue .new = []) : missed cfg ⟨k, m⟩ = false := by
  have hnone : selects cfg k = none := by
    rw [selects_eq, h]
    have hnil : cfg.sortBySize (sizes k) [] = [] := (cfg.sortBySize_perm _ []).eq_nil
    rw [hnil, ite_self]
    rfl
  simp [missed, hnone]

end Selection

/-! ## 6. What memoria does to its frames -/

section Frames

variable {cfg : Memoria.Config} {m m' : Memoria.State} {r : Memoria.Request} {reply : Memoria.Reply}

/-- A refused SWAP leaves the frames alone. -/
theorem swap_refused {pid : Int} {written : Nat → Nat}
    (h : Memoria.handle cfg m (.swap pid written) = some (m', reply))
    (hno : reply.confirmed = false) : m'.frames = m.frames ∧ m'.nextTableId = m.nextTableId := by
  obtain ⟨⟨m1, b⟩, hserved, heq⟩ := Option.map_eq_some_iff.mp h
  obtain ⟨rfl, rfl⟩ := Prod.mk.inj heq
  obtain rfl : b = false := hno
  rcases Memoria.swapOutProcess_cases hserved with ⟨⟨_, _, rfl⟩, -⟩ | ⟨_, -, -, -, -, hb⟩ |
    ⟨_, _, _, _, _, _, -, -, -, -, -, -, -, hb⟩
  · exact ⟨rfl, rfl⟩
  · exact absurd hb (by simp)
  · exact absurd hb (by simp)

end Frames

/-! ## 7. The invariant -/

/-- **No process that memoria would admit waits alone**, and a process that INIT_PROCESS is being asked
for is the one selected. -/
structure Inv (cfg : Config) (s : System.State) : Prop where
  tried : missed cfg s = true → ∃ t ∈ s.kernel.threads, tries t = true
  picked : ∀ pid caller moved, Thread.longCreate pid caller moved ∈ s.kernel.threads →
    selects cfg s.kernel = some pid
  tables : s.memoria.nextTableId = 1

section Step

variable {cfg : Config} {s : System.State} {t : Thread} {others : List Thread} {ch ch' : Choice}
  {sv : Service} {m : Memoria.State}

/-- What the section of `t` must leave: a process that waits is not left to the threads that are gone. -/
def Passes (cfg : Config) (s : System.State) (t : Thread) (others : List Thread)
    (r : Kernel.State × List Thread) (m : Memoria.State) : Prop :=
  missed cfg ⟨r.1, m⟩ = true →
    (∃ u ∈ r.2, tries u = true) ∨ (∃ u ∈ others, tries u = true) ∨
      (missed cfg s = true ∧ tries t = false)

/-- A section that goes on to the NEW loop. -/
theorem Passes.of_tries {r : Kernel.State × List Thread} (h : ∃ u ∈ r.2, tries u = true) :
    Passes cfg s t others r m := fun _ => Or.inl h

/-- A calm section of a thread that was not going to try, with the frames untouched. -/
theorem Passes.of_calm {r : Kernel.State × List Thread} (h : Calm s.kernel r.1)
    (hframes : m.frames = s.memoria.frames) (htables : m.nextTableId = s.memoria.nextTableId)
    (ht : tries t = false) : Passes cfg s t others r m :=
  fun hmissed => Or.inr (Or.inr ⟨missed_of_calm hmissed h hframes htables, ht⟩)

/-- A calm section after which others try, or nothing waits as the kernel stood before it. -/
theorem Passes.of_retried {r : Kernel.State × List Thread} (h : Calm s.kernel r.1)
    (hc : others.any tries = true ∨ missed cfg { s with memoria := m } = false) :
    Passes cfg s t others r m := by
  intro hmissed
  rcases hc with hc | hc
  · exact Or.inr (Or.inl (List.any_eq_true.mp hc))
  · have hbefore : missed cfg { s with memoria := m } = true := missed_of_calm hmissed h rfl rfl
    exact absurd (hbefore.symm.trans hc) (by simp)

/-- No request, no change in memoria. -/
theorem serve_none (hr : requestOf s.kernel ch sv t = none)
    (hserve : serve cfg.system s ch sv t = some (m, ch')) : m = s.memoria ∧ ch' = ch := by
  simp only [serve, hr, Option.some.injEq, Prod.mk.injEq] at hserve
  exact ⟨hserve.1.symm, hserve.2.symm⟩

/-- A thread that does not go on by memoria's answer keeps its choices. -/
theorem serve_choice (hawait : awaitsReply t = false)
    (hserve : serve cfg.system s ch sv t = some (m, ch')) : ch' = ch := by
  unfold serve at hserve
  split at hserve
  · simp only [Option.some.injEq, Prod.mk.injEq] at hserve
    exact hserve.2.symm
  · obtain ⟨x, -, heq⟩ := Option.map_eq_some_iff.mp hserve
    simp only [hawait, Bool.false_eq_true, ↓reduceIte, Prod.mk.injEq] at heq
    exact heq.2.symm

/-- A new process is admitted by a thread that will try, or nothing changes for those in NEW. -/
theorem initProc_passes {callerPid : Nat} {callerPc size : Int} :
    (∃ u ∈ (nextSection cfg.system.kernel s.kernel ch (.initProc callerPid callerPc size)).2,
      tries u = true) ∨
    Calm s.kernel (nextSection cfg.system.kernel s.kernel ch (.initProc callerPid callerPc size)).1 := by
  simp only [nextSection, handleInitProcSyscall]
  split
  · split
    · have h := Calm.of_same (SameCore.setPc callerPid callerPc s.kernel)
      exact Or.inr ⟨⟨h.new, h.size⟩, h.suspReady⟩
    · exact Or.inl ⟨.long .always, by simp, rfl⟩
  · exact Or.inr (Calm.refl _)

/-- Outside `run_long_scheduler` only INIT_PROC takes the lock of NEW. -/
theorem initProc_of_uses (hlong : t.isLong = false) (hnew : Lock.new ∈ t.uses) :
    ∃ callerPid callerPc size, t = .initProc callerPid callerPc size := by
  have hcaller : ∀ caller : ShortCaller, Lock.new ∉ caller.holds := by
    intro caller
    cases caller with
    | plain => simp [ShortCaller.holds]
    | disconnect socket => simp [ShortCaller.holds]
  cases t with
  | initProc callerPid callerPc size => exact ⟨callerPid, callerPc, size, rfl⟩
  | short caller => simp [Thread.uses, hcaller] at hnew
  | shortSelected caller cpu pid => simp [Thread.uses, Thread.holds, hcaller] at hnew
  | shortWait caller cpu pid => simp [Thread.uses, Thread.holds, hcaller] at hnew
  | _ => simp [Thread.uses, Thread.holds, Thread.isLong] at hnew hlong

/-- The threads outside `run_long_scheduler`. -/
theorem passes_handler (hlong : t.isLong = false)
    (hserve : serve cfg.system s ch sv t = some (m, ch'))
    (hc : forgets s.kernel ch sv t = true →
      others.any tries = true ∨ missed cfg { s with memoria := m } = false) :
    Passes cfg s t others (nextSection cfg.system.kernel s.kernel ch' t) m := by
  by_cases hnext : ∃ u ∈ (nextSection cfg.system.kernel s.kernel ch' t).2, tries u = true
  · exact Passes.of_tries hnext
  · have hcalm : Calm s.kernel (nextSection cfg.system.kernel s.kernel ch' t).1 := by
      by_cases hnew : Lock.new ∈ t.uses
      · obtain ⟨callerPid, callerPc, size, rfl⟩ := initProc_of_uses hlong hnew
        exact initProc_passes.resolve_left hnext
      · exact nextSection_calm hlong hnew
    cases hawait : awaitsReply t with
    | true =>
      cases t with
      | mediumSent pid =>
        obtain ⟨⟨m1, reply⟩, hserved, heq⟩ := Option.map_eq_some_iff.mp hserve
        obtain ⟨rfl, rfl⟩ := Prod.mk.inj heq
        cases hno : reply.confirmed with
        | true =>
          refine absurd ⟨.mediumAnswered pid true, ?_, rfl⟩ hnext
          simp [nextSection, awaitsReply, hno]
        | false =>
          obtain ⟨hframes, htables⟩ := swap_refused hserved hno
          exact Passes.of_calm hcalm hframes htables rfl
      | longUnsuspend _ _ _ => simp [Thread.isLong] at hlong
      | longCreate _ _ _ => simp [Thread.isLong] at hlong
      | _ => simp [awaitsReply] at hawait
    | false =>
      obtain rfl := serve_choice hawait hserve
      cases hr : requestOf s.kernel ch' sv t with
      | none =>
        obtain ⟨rfl, -⟩ := serve_none hr hserve
        refine Passes.of_calm hcalm rfl rfl ?_
        cases t with
        | mediumAnswered pid success =>
          cases success with
          | false => rfl
          | true => exact absurd ⟨.long .ifMoved, by simp [nextSection], rfl⟩ hnext
        | _ => exact hlong
      | some r =>
        rcases @tries_of_request cfg.system.kernel _ _ _ _ hlong hawait (by rw [hr]; rfl) with
          hforgets | htries
        · exact Passes.of_retried hcalm (hc hforgets)
        · exact absurd htries hnext

/-- The sections of `run_long_scheduler`. -/
theorem passes_long (hs : Inv cfg s) (hmem : t ∈ s.kernel.threads) (hlong : t.isLong = true)
    (horder : ∀ caller moved, t = .longNew caller moved →
      ch.order = cfg.sortBySize (sizes s.kernel) (s.kernel.queue .new))
    (hscript : ∀ pid caller moved, t = .longCreate pid caller moved → sv.file = cfg.scripts pid)
    (hserve : serve cfg.system s ch sv t = some (m, ch'))
    (hc : forgets s.kernel ch sv t = true →
      others.any tries = true ∨ missed cfg { s with memoria := m } = false) :
    Passes cfg s t others (nextSection cfg.system.kernel s.kernel ch' t) m := by
  cases t with
  | long caller =>
    obtain rfl := serve_choice rfl hserve
    cases hcon : ch'.connected with
    | true => exact Passes.of_tries ⟨.longScan caller false, by simp [nextSection, hcon], rfl⟩
    | false =>
      refine Passes.of_retried ?_ (hc (by simp [forgets, hcon]))
      simpa [nextSection, hcon] using Calm.of_same (longReturn_same s.kernel caller false).1
  | longScan caller moved =>
    refine Passes.of_tries ?_
    simp only [nextSection, longScan]
    split
    · exact ⟨.longLock caller moved, by simp, rfl⟩
    · rename_i pid _
      exact ⟨.longUnsuspend pid caller moved, by simp, rfl⟩
  | longUnsuspend pid caller moved =>
    exact Passes.of_tries ⟨.longAnswered pid ch'.answer caller moved, by simp [nextSection], rfl⟩
  | longAnswered pid success caller moved =>
    refine Passes.of_tries ?_
    simp only [nextSection, longAnswered]
    split
    · exact ⟨_, List.mem_singleton_self _, rfl⟩
    · exact ⟨.longLock caller moved, by simp, rfl⟩
  | longMove popped caller =>
    cases popped with
    | none => exact Passes.of_tries ⟨.longScan caller true, by simp [nextSection, longMove], rfl⟩
    | some pid => exact Passes.of_tries ⟨.longScan caller true, by simp [nextSection, longMove], rfl⟩
  | longLock caller moved =>
    exact Passes.of_tries ⟨.longNew caller moved, by simp [nextSection], rfl⟩
  | longNew caller moved =>
    obtain rfl := serve_choice rfl hserve
    rcases @longNew_selects cfg _ caller moved _ (horder caller moved rfl) with
      ⟨pid, -, hnext⟩ | hnil
    · exact Passes.of_tries ⟨.longCreate pid caller moved, by rw [hnext]; simp, rfl⟩
    · intro hmissed
      rw [not_missed_of_nil hnil] at hmissed
      exact absurd hmissed (by simp)
  | longCreate pid caller moved =>
    obtain ⟨⟨m1, reply⟩, hserved, heq⟩ := Option.map_eq_some_iff.mp hserve
    obtain ⟨rfl, rfl⟩ := Prod.mk.inj heq
    obtain ⟨⟨m2, b⟩, hcreate, heq⟩ := Option.map_eq_some_iff.mp hserved
    obtain ⟨rfl, rfl⟩ := Prod.mk.inj heq
    cases b with
    | true =>
      refine Passes.of_tries ⟨.longNew caller true, ?_, rfl⟩
      simp [nextSection, longCreate, awaitsReply, Memoria.Reply.confirmed]
    | false =>
      -- the process selected is the one just refused, and it would be refused again
      intro hmissed
      have hcalm : Calm s.kernel (longReturn s.kernel caller moved).1 :=
        Calm.of_same (longReturn_same s.kernel caller moved).1
      have hmissed' : missed cfg ⟨(longReturn s.kernel caller moved).1, m2⟩ = true := hmissed
      have hstill : missed cfg { s with memoria := m2 } = true :=
        missed_of_calm hmissed' hcalm rfl rfl
      simp only [missed, hs.picked pid caller moved hmem, Bool.and_eq_true, decide_eq_true_eq,
        Option.any_some, admits] at hstill
      rw [hscript pid caller moved rfl] at hcreate
      obtain ⟨m3, hagain⟩ := @createProcess_refused_again _ _ _ _ _ _ _ ⟨true, true⟩ hcreate hs.tables
      have hsize : sizes s.kernel pid = (s.kernel.pcbs pid).size := rfl
      rw [hsize, hagain] at hstill
      exact absurd hstill.2 (by simp)
  | _ => simp [Thread.isLong] at hlong

/-- INIT_PROCESS is asked for by a thread that has just picked the process. -/
theorem create_new {pid : Nat} {caller : LongCaller} {moved : Bool}
    (horder : ∀ caller moved, t = .longNew caller moved →
      ch.order = cfg.sortBySize (sizes s.kernel) (s.kernel.queue .new))
    (hu : Thread.longCreate pid caller moved ∈ (nextSection cfg.system.kernel s.kernel ch t).2) :
    selects cfg (nextSection cfg.system.kernel s.kernel ch t).1 = some pid := by
  cases hhands : t.handsOn with
  | false =>
    have hidle := (nextSection_idle cfg.system.kernel s.kernel ch hhands _ hu).1
    exact absurd hidle (by simp [Thread.picked])
  | true =>
    cases t with
    | longNew caller' moved' =>
      rcases @longNew_selects cfg _ caller' moved' _ (horder caller' moved' rfl) with
        ⟨q, hsel, hnext⟩ | hnil
      · rw [hnext] at hu
        obtain ⟨rfl, rfl, rfl⟩ := Thread.longCreate.inj (List.mem_singleton.mp hu)
        exact hsel
      · -- NEW is empty, so nothing was picked
        simp only [nextSection] at hu hnil
        have hin := longNew_picked cfg.system.kernel s.kernel ch.order caller' moved' _ hu .new pid rfl
        rw [hnil] at hin
        exact absurd hin (List.not_mem_nil)
    | medium q =>
      simp only [nextSection, runMediumScheduler] at hu
      grind
    | mediumSwap q =>
      simp only [nextSection] at hu
      grind
    | mediumSent q => simp [nextSection] at hu
    | longScan caller' moved' =>
      simp only [nextSection, longScan] at hu
      grind
    | longUnsuspend q caller' moved' => simp [nextSection] at hu
    | longAnswered q success caller' moved' =>
      simp only [nextSection, longAnswered] at hu
      grind
    | _ => simp [Thread.handsOn] at hhands

/-- What the choices of a section are, once NEW is sorted and the script found. -/
theorem adjust_run {i : Nat} (cfg : Config) (ch : Choice) (sv : Service)
    (hget : s.kernel.threads[i]? = some t) :
    ∃ ch1 sv1, adjust cfg s (.run i ch sv) = .run i ch1 sv1 ∧
      (forgets s.kernel ch1 sv1 t = true → ch1 = ch ∧ sv1 = sv) ∧
      (∀ caller moved, t = .longNew caller moved →
        ch1.order = cfg.sortBySize (sizes s.kernel) (s.kernel.queue .new)) ∧
      ∀ pid caller moved, t = .longCreate pid caller moved → sv1.file = cfg.scripts pid := by
  cases t with
  | longNew caller moved =>
    refine ⟨{ ch with order := cfg.sortBySize (sizes s.kernel) (s.kernel.queue .new) }, sv,
      by simp only [adjust, hget], ?_, fun _ _ _ => rfl, ?_⟩
    · simp [forgets]
    · simp
  | longCreate pid caller moved =>
    refine ⟨ch, { sv with file := cfg.scripts pid }, by simp only [adjust, hget], ?_, ?_, ?_⟩
    · simp [forgets]
    · simp
    · intro q caller' moved' heq
      rw [(Thread.longCreate.inj heq).1]
  | _ => exact ⟨ch, sv, by simp only [adjust, hget], fun _ => ⟨rfl, rfl⟩, by simp, by simp⟩

end Step

/-! ## 8. Whole runs -/

theorem inv_run {cfg : Config} {s s' : System.State} {i : Nat} {ch : Choice} {sv : Service}
    (hs : Inv cfg s) (hc : retried cfg s (.run i ch sv) = true)
    (h : step cfg s (.run i ch sv) = some s') : Inv cfg s' := by
  obtain ⟨t, hget⟩ : ∃ t, s.kernel.threads[i]? = some t := by
    cases hget : s.kernel.threads[i]? with
    | some t => exact ⟨t, rfl⟩
    | none => simp [step, adjust, System.step, hget] at h
  obtain ⟨ch1, sv1, hadjust, hforgets, horder, hscript⟩ := adjust_run cfg ch sv hget
  rw [step, hadjust, System.step, hget, Option.bind_some] at h
  obtain ⟨⟨m, ch2⟩, hserve, h⟩ := Option.bind_eq_some_iff.mp h
  obtain ⟨k', hstep, rfl⟩ := Option.map_eq_some_iff.mp h
  obtain ⟨t', others, hget', hperm, hfree, -, rfl⟩ := step_run hstep
  obtain rfl : t = t' := by simpa [hget] using hget'
  have hmem : t ∈ s.kernel.threads := hperm.mem_iff.mpr List.mem_cons_self
  -- the other threads are those the condition looks at
  have hothers : others.Perm (s.kernel.threads.eraseIdx i) := by
    obtain ⟨hlt, heq⟩ := List.getElem?_eq_some_iff.mp hget
    have herase := List.getElem_cons_eraseIdx_perm hlt
    rw [heq] at herase
    exact (hperm.symm.trans herase.symm).cons_inv
  have hc' : forgets s.kernel ch1 sv1 t = true →
      others.any tries = true ∨ missed cfg { s with memoria := m } = false := by
    intro hf
    obtain ⟨rfl, rfl⟩ := hforgets hf
    simp only [retried, hget, hf, hserve, Bool.not_true, Bool.false_or, Bool.or_eq_true,
      Option.any_some, Bool.not_eq_true'] at hc
    rcases hc with hc | hc
    · obtain ⟨u, hu, htry⟩ := List.any_eq_true.mp hc
      exact Or.inl (List.any_eq_true.mpr ⟨u, hothers.mem_iff.mpr hu, htry⟩)
    · exact Or.inr hc
  have horder' : ∀ caller moved, t = .longNew caller moved →
      ch2.order = cfg.sortBySize (sizes s.kernel) (s.kernel.queue .new) := by
    rintro caller moved rfl
    rw [serve_choice rfl hserve]
    exact horder caller moved rfl
  have hpasses : Passes cfg s t others (nextSection cfg.system.kernel s.kernel ch2 t) m := by
    cases hlong : t.isLong with
    | false => exact passes_handler hlong hserve hc'
    | true => exact passes_long hs hmem hlong horder hscript hserve hc'
  refine ⟨?_, ?_, ?_⟩
  · intro hmissed
    have hsection : missed cfg ⟨(nextSection cfg.system.kernel s.kernel ch2 t).1, m⟩ = true :=
      missed_of_calm hmissed (Calm.threads _ _) rfl rfl
    rcases hpasses hsection with ⟨u, hu, htry⟩ | ⟨u, hu, htry⟩ | ⟨hbefore, hidle⟩
    · exact ⟨u, List.mem_append_right _ hu, htry⟩
    · exact ⟨u, List.mem_append_left _ hu, htry⟩
    · -- the thread that was going to try is not the one that has run
      obtain ⟨u, hu, htry⟩ := hs.tried hbefore
      rcases List.mem_cons.mp (hperm.mem_iff.mp hu) with rfl | hin
      · exact absurd (htry.symm.trans hidle) (by simp)
      · exact ⟨u, List.mem_append_left _ hin, htry⟩
  · intro pid caller moved hin
    refine (Calm.threads (nextSection cfg.system.kernel s.kernel ch2 t).1 _).selects.trans ?_
    rcases List.mem_append.mp hin with hin | hin
    · have hnew : Lock.new ∉ t.uses :=
        fun huse => not_holds_of_free hfree hin huse (by simp [Thread.holds])
      have hsame : SameNew s.kernel (nextSection cfg.system.kernel s.kernel ch2 t).1 :=
        nextSection_sameNew hnew
      have hbefore := hs.picked pid caller moved (hperm.mem_iff.mpr (List.mem_cons_of_mem _ hin))
      exact hsame.selects.trans hbefore
    · exact create_new horder' hin
  · show m.nextTableId = 1
    cases hr : requestOf s.kernel ch1 sv1 t with
    | none =>
      rw [(serve_none hr hserve).1]
      exact hs.tables
    | some r =>
      simp only [serve, hr] at hserve
      obtain ⟨⟨m1, reply⟩, hserved, heq⟩ := Option.map_eq_some_iff.mp hserve
      obtain ⟨rfl, -⟩ := Prod.mk.inj heq
      exact Memoria.handle_nextTableId hserved hs.tables

/-- A message that arrives leaves NEW and memoria alone. -/
theorem inv_arrive {cfg : Config} {s s' : System.State} {handler : Thread} (hs : Inv cfg s)
    (h : step cfg s (.arrive handler) = some s') : Inv cfg s' := by
  obtain ⟨k', hstep, rfl⟩ := Option.map_eq_some_iff.mp h
  obtain ⟨hhandler, rfl⟩ := step_arrive hstep
  refine ⟨?_, ?_, hs.tables⟩
  · intro hmissed
    obtain ⟨u, hu, htry⟩ := hs.tried (missed_of_calm hmissed (Calm.threads _ _) rfl rfl)
    exact ⟨u, List.mem_append_left _ hu, htry⟩
  · intro pid caller moved hin
    refine (Calm.threads s.kernel _).selects.trans ?_
    rcases List.mem_append.mp hin with hin | hin
    · exact hs.picked pid caller moved hin
    · rw [← List.mem_singleton.mp hin] at hhandler
      exact absurd hhandler (by simp [Thread.isHandler])

/-- READ_MEMORY and WRITE_MEMORY leave the frames alone. -/
theorem inv_access {cfg : Config} {s s' : System.State} {r : Memoria.Request} (hs : Inv cfg s)
    (h : step cfg s (.access r) = some s') : Inv cfg s' := by
  simp only [step, adjust, System.step] at h
  split at h
  · rename_i hpid
    obtain ⟨⟨m, reply⟩, hserved, rfl⟩ := Option.map_eq_some_iff.mp h
    have hmemory : (∃ a n, r = .readMemory a n) ∨ ∃ a d, r = .writeMemory a d := by
      cases r with
      | readMemory a n => exact Or.inl ⟨a, n, rfl⟩
      | writeMemory a d => exact Or.inr ⟨a, d, rfl⟩
      | _ => simp [Memoria.Request.pid?] at hpid
    obtain ⟨bytes, rfl⟩ := Memoria.handle_memory_eq hserved hmemory
    refine ⟨?_, hs.picked, hs.tables⟩
    intro hmissed
    exact hs.tried (missed_of_calm hmissed (Calm.refl s.kernel) rfl rfl)
  · exact absurd h (by simp)

theorem inv_start (cfg : Config) : Inv cfg (State.start cfg.system) := by
  refine ⟨fun _ => ⟨.long .ifMoved, List.mem_singleton_self _, rfl⟩, ?_, rfl⟩
  intro pid caller moved hin
  exact absurd (List.mem_singleton.mp hin) (by simp)

theorem Inv.noMissed {cfg : Config} {s : System.State} (h : Inv cfg s) : NoMissed cfg s := by
  intro hquiet _ hsusp hnew
  obtain ⟨pid, hsel⟩ := Option.isSome_iff_exists.mp (@selects_isSome cfg _ hnew)
  refine ⟨pid, selects_mem hsel, hsel, ?_⟩
  have hno : admits cfg s pid = false := by
    by_contra hyes
    have hmissed : missed cfg s = true := by
      simp [missed, hsusp, hsel, Bool.eq_true_of_not_eq_false hyes]
    obtain ⟨t, ht, -⟩ := h.tried hmissed
    rw [hquiet] at ht
    exact absurd ht (List.not_mem_nil)
  intro left
  obtain ⟨⟨m, b⟩, hcreate⟩ := Option.isSome_iff_exists.mp (createProcess_isSome
    cfg.system.memoria s.memoria pid (s.kernel.pcbs pid).size (cfg.scripts pid) left)
  -- what `malloc` left in the record does not matter
  have hsame : (Memoria.createProcess cfg.system.memoria s.memoria pid (sizes s.kernel pid)
      (cfg.scripts pid) ⟨true, true⟩).map Prod.snd = some b := by
    rw [@createProcess_congr _ s.memoria _ _ _ _ left _ rfl rfl]
    exact congrArg (Option.map Prod.snd) hcreate
  obtain rfl : b = false := by simpa [admits, hsame] using hno
  exact ⟨m, by simp [initRequest, Memoria.handle, hcreate]⟩

/-- **No admission is missed in any run in which a section that forgets the long-term scheduler leaves
another thread that will try, or a memory that would not admit the waiting process.** -/
theorem noMissed_of_retried {cfg : Config} {tr : List (Transition System.State System.Event)}
    {s : System.State} (hr : (admission cfg).Run tr s)
    (hc : ∀ x ∈ tr, retried cfg x.src x.label = true) :
    NoMissed cfg s ∧ ∀ x ∈ tr, NoMissed cfg x.src := by
  have h0 : ∀ s, (admission cfg).init s → Inv cfg s := by
    rintro s rfl
    exact inv_start cfg
  have hstep : ∀ s e s', Inv cfg s → retried cfg s e = true → (admission cfg).step s e s' →
      Inv cfg s' := by
    intro s e s' hs hc hst
    cases e with
    | arrive handler => exact inv_arrive hs hst
    | run i ch sv => exact inv_run hs hc hst
    | access r => exact inv_access hs hst
  refine ⟨(hr.invariant h0 hstep hc).noMissed, ?_⟩
  intro x hx
  exact (hr.invariant_steps h0 hstep hc x hx).1.noMissed

/-- One CPU, a small memory, an empty script for every pid, and NEW in the order of arrival. -/
def smallScripts : Config where
  system := small
  scripts := fun _ => some []
  sortBySize := fun size l => l.insertionSort fun a b => size a ≤ size b
  sortBySize_perm := fun _ l => List.perm_insertionSort _ l
  sortBySize_sorted := fun _ l => List.pairwise_insertionSort _ l
  sortBySize_of_sorted := fun _ _ h => h.insertionSort_eq

/-- A section of the thread at position 0, memoria confirming a dump or not. -/
def run (dumped : Bool) : System.Event := .run 0 { answer := dumped } {}

/-- The root process is admitted and dispatched. -/
def started : List System.Event := List.replicate 8 (run true)

/-- It creates a process that needs the whole memory, and memoria refuses it. -/
def refused : List System.Event := .arrive (.initProc 0 1 64) :: List.replicate 7 (run true)

/-- The theorem at work: two processes wait, the root process ends, the first of them is admitted and
the second refused again. -/
theorem noMissed_of_retried_exit :
    ∃ tr s, (admission smallScripts).Run tr s ∧ s.kernel.threads = [] ∧
      s.kernel.queue .exec = [1] ∧ s.kernel.queue .new = [2] ∧ NoMissed smallScripts s := by
  obtain ⟨tr, s, hrun, htest⟩ := Lts.exists_run_of_drive (State.start smallScripts.system)
    (step smallScripts)
    (started ++ refused ++ refused ++ .arrive (.exit 0) :: List.replicate 10 (run true))
    (fun tr s => s.kernel.threads.isEmpty && decide (s.kernel.queue .exec = [1]) &&
      decide (s.kernel.queue .new = [2]) && tr.all fun x => retried smallScripts x.src x.label)
    (by decide +kernel)
  simp only [Bool.and_eq_true, decide_eq_true_eq, List.all_eq_true, List.isEmpty_iff] at htest
  obtain ⟨⟨⟨hquiet, hexec⟩, hnew⟩, hc⟩ := htest
  exact ⟨tr, s, hrun, hquiet, hexec, hnew, (noMissed_of_retried hrun hc).1⟩

/-- Without the condition an admission is missed.  Process 1 waits; the root process dumps its memory,
memoria refuses, and the root process ends with all its frames given back and no scheduler started. -/
theorem not_noMissed_refused_dump :
    ¬ ∀ (cfg : Config) (tr : List (Transition System.State System.Event)) (s : System.State),
      (admission cfg).Run tr s → NoMissed cfg s := by
  intro hall
  obtain ⟨tr, s, hrun, htest⟩ := Lts.exists_run_of_drive (State.start smallScripts.system)
    (step smallScripts) (started ++ refused ++ [.arrive (.dump 0 2), run true, run false])
    (fun _ s => s.kernel.threads.isEmpty && !s.kernel.crashed &&
      !(s.kernel.queue .new).isEmpty && missed smallScripts s)
    (by decide +kernel)
  simp only [Bool.and_eq_true, Bool.not_eq_true', List.isEmpty_iff, List.isEmpty_eq_false_iff]
    at htest
  obtain ⟨⟨⟨hquiet, hcrash⟩, hnew⟩, hmissed⟩ := htest
  simp only [missed, Bool.and_eq_true, decide_eq_true_eq] at hmissed
  obtain ⟨hsusp, hsel⟩ := hmissed
  obtain ⟨pid, -, hpid, hrefused⟩ := hall smallScripts tr s hrun hquiet hcrash hsusp hnew
  obtain ⟨m, hm⟩ := hrefused ⟨true, true⟩
  obtain ⟨⟨m', b⟩, hcreate, heq⟩ := Option.map_eq_some_iff.mp hm
  obtain rfl : b = false := by simpa using (Prod.mk.inj heq).2
  have hsize : sizes s.kernel pid = (s.kernel.pcbs pid).size := rfl
  simp [hpid, admits, hsize, hcreate] at hsel

end Tpso.Admission
