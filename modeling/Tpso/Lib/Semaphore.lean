/-
# Threads that wait on and post binary semaphores

A handler is seen here through its semaphore calls only: a PROGRAM waits, posts, asks the rest of the
system a question (a lookup, a comparison, a message) and ends.  `Prog.trace` is the sequence of calls
on one path; the transition system `semaphores` interleaves any number of programs over counters that
start at 1.

A program is BALANCED with respect to a set of answers when on every path with these answers it posts
only what it holds and ends with nothing held.  Balanced programs keep `counter + holders = 1` for
every semaphore (`SemInv`), whence no counter exceeds 1 (`SemInv.count_le_one`) and no semaphore is
held twice (`SemInv.exclusive`).
-/
import Tpso.Lib.Run

namespace Tpso.Lib

/-- A semaphore call. -/
inductive SemOp (S : Type) where
  | wait (s : S)
  | post (s : S)
  deriving DecidableEq

/-- A program over semaphores `S` that asks questions `Q`. -/
inductive Prog (S Q : Type) where
  | done
  | op (o : SemOp S) (next : Prog S Q)
  | ask (q : Q) (next : Bool → Prog S Q)

variable {S Q H : Type}

namespace Prog

def wait (s : S) (next : Prog S Q) : Prog S Q := .op (.wait s) next

def post (s : S) (next : Prog S Q) : Prog S Q := .op (.post s) next

/-- Several calls in a row. -/
def waitAll (l : List S) (next : Prog S Q) : Prog S Q := l.foldr wait next

def postAll (l : List S) (next : Prog S Q) : Prog S Q := l.foldr post next

/-- The calls made on the path that the answers `a` select. -/
def trace (a : Q → Bool) : Prog S Q → List (SemOp S)
  | .done => []
  | .op o next => o :: trace a next
  | .ask q next => trace a (next (a q))

/-- **Balanced programs.**  Starting with the semaphores `held`, every path with answers in `ok` posts
only what it holds and ends with nothing. -/
def Balanced [DecidableEq S] (ok : Q → Bool → Prop) : List S → Prog S Q → Prop
  | held, .done => held = []
  | held, .op (.wait s) next => Balanced ok (s :: held) next
  | held, .op (.post s) next => s ∈ held ∧ Balanced ok (held.erase s) next
  | held, .ask q next => ∀ b, ok q b → Balanced ok held (next b)

section Calls

variable {ok : Q → Bool → Prop} {a : Q → Bool} {held l : List S} {s : S} {next : Prog S Q}

@[simp]
theorem waitAll_nil : waitAll [] next = next := rfl

@[simp]
theorem waitAll_cons : waitAll (s :: l) next = wait s (waitAll l next) := rfl

@[simp]
theorem postAll_nil : postAll [] next = next := rfl

@[simp]
theorem postAll_cons : postAll (s :: l) next = post s (postAll l next) := rfl

@[simp]
theorem trace_done : (done : Prog S Q).trace a = [] := rfl

@[simp]
theorem trace_wait : (wait s next).trace a = .wait s :: next.trace a := rfl

@[simp]
theorem trace_post : (post s next).trace a = .post s :: next.trace a := rfl

@[simp]
theorem trace_ask {q : Q} {answered : Bool → Prog S Q} :
    (ask q answered).trace a = (answered (a q)).trace a := rfl

variable [DecidableEq S]

@[simp]
theorem balanced_done : (done : Prog S Q).Balanced ok held ↔ held = [] := Iff.rfl

@[simp]
theorem balanced_wait : (wait s next).Balanced ok held ↔ next.Balanced ok (s :: held) := Iff.rfl

@[simp]
theorem balanced_post :
    (post s next).Balanced ok held ↔ s ∈ held ∧ next.Balanced ok (held.erase s) := Iff.rfl

theorem balanced_waitAll : (waitAll l next).Balanced ok held ↔ next.Balanced ok (l.reverse ++ held) := by
  induction l generalizing held with
  | nil => rfl
  | cons s l ih =>
    rw [List.reverse_cons, List.append_assoc]
    exact ih

end Calls

end Prog

/-! ## 1. The interleaving of programs -/

/-- A thread: what it has still to do, and the semaphores it has waited on and not posted since. -/
structure SemThread (S Q : Type) where
  prog : Prog S Q
  held : List S

/-- The counters and the threads. -/
structure SemState (S Q : Type) where
  count : S → Nat
  threads : List (SemThread S Q)

/-- A thread starts a handler, or thread `i` goes on; `answer` is read when it asks a question. -/
inductive SemLabel (H : Type) where
  | start (h : H)
  | run (i : Nat) (answer : Bool)

/-- One step of a thread.  A wait on a counter at 0 is not possible. -/
def SemThread.step [DecidableEq S] (count : S → Nat) (t : SemThread S Q) (answer : Bool) :
    Option ((S → Nat) × SemThread S Q) :=
  match t.prog with
  | .done => none
  | .op (.wait s) next =>
    if count s = 0 then none
    else some (Function.update count s (count s - 1), ⟨next, s :: t.held⟩)
  | .op (.post s) next =>
    some (Function.update count s (count s + 1), ⟨next, t.held.erase s⟩)
  | .ask _ next => some (count, ⟨next answer, t.held⟩)

/-- One step of the system. -/
def semStep [DecidableEq S] (prog : H → Prog S Q) (σ : SemState S Q) :
    SemLabel H → Option (SemState S Q)
  | .start h => some { σ with threads := σ.threads ++ [⟨prog h, []⟩] }
  | .run i answer =>
    match σ.threads[i]? with
    | none => none
    | some t => (t.step σ.count answer).map fun r => ⟨r.1, σ.threads.set i r.2⟩

/-- All counters at 1 and no thread. -/
def SemState.start : SemState S Q := ⟨fun _ => 1, []⟩

/-- Any interleaving of any number of the handlers. -/
def semaphores [DecidableEq S] (prog : H → Prog S Q) : Lts (SemState S Q) (SemLabel H) :=
  Lts.ofStep SemState.start (semStep prog)

/-- The condition on one step: a question that is asked gets an answer in `ok`. -/
def AnswerOk (ok : Q → Bool → Prop) (σ : SemState S Q) : SemLabel H → Prop
  | .start _ => True
  | .run i answer =>
    match σ.threads[i]? with
    | some ⟨.ask q _, _⟩ => ok q answer
    | _ => True

/-! ## 2. The invariant -/

variable [DecidableEq S]

/-- **The invariant**: counter and holders add up to 1, and every thread is balanced from where it
is. -/
structure SemInv (ok : Q → Bool → Prop) (σ : SemState S Q) : Prop where
  count_add : ∀ s, σ.count s + (σ.threads.flatMap SemThread.held).count s = 1
  balanced : ∀ t ∈ σ.threads, t.prog.Balanced ok t.held

theorem SemInv.count_le_one {ok : Q → Bool → Prop} {σ : SemState S Q} (h : SemInv ok σ) (s : S) :
    σ.count s ≤ 1 := by
  have := h.count_add s
  omega

/-- Two different threads that hold a semaphore are counted twice. -/
theorem two_le_count_flatMap {l : List (SemThread S Q)} {s : S} {i j : Nat} {t u : SemThread S Q}
    (hij : i < j) (hi : l[i]? = some t) (hj : l[j]? = some u) (ht : s ∈ t.held) (hu : s ∈ u.held) :
    2 ≤ (l.flatMap SemThread.held).count s := by
  induction l generalizing i j with
  | nil => simp at hi
  | cons a l ih =>
    obtain ⟨j, rfl⟩ : ∃ k, j = k + 1 := ⟨j - 1, by omega⟩
    have hj' : l[j]? = some u := by simpa using hj
    rw [List.flatMap_cons, List.count_append]
    cases i with
    | zero =>
      obtain rfl : a = t := by simpa using hi
      have h1 : 0 < a.held.count s := List.count_pos_iff.mpr ht
      have h2 : 0 < (l.flatMap SemThread.held).count s :=
        List.count_pos_iff.mpr (List.mem_flatMap.mpr ⟨u, List.mem_of_getElem? hj', hu⟩)
      omega
    | succ i =>
      have := ih (Nat.lt_of_succ_lt_succ hij) (by simpa using hi) hj'
      omega

/-- **Mutual exclusion**: no semaphore is held by two threads. -/
theorem SemInv.exclusive {ok : Q → Bool → Prop} {σ : SemState S Q} (h : SemInv ok σ) {s : S}
    {i j : Nat} {t u : SemThread S Q} (hi : σ.threads[i]? = some t) (hj : σ.threads[j]? = some u)
    (ht : s ∈ t.held) (hu : s ∈ u.held) : i = j := by
  have hsum := h.count_add s
  rcases Nat.lt_trichotomy i j with hlt | heq | hgt
  · have := two_le_count_flatMap hlt hi hj ht hu
    omega
  · exact heq
  · have := two_le_count_flatMap hgt hj hi hu ht
    omega

/-- Replacing one thread changes the number of holders by its own. -/
theorem count_flatMap_set {l : List (SemThread S Q)} {i : Nat} {t : SemThread S Q}
    (t' : SemThread S Q) (s : S) (hi : l[i]? = some t) :
    ((l.set i t').flatMap SemThread.held).count s + t.held.count s
      = (l.flatMap SemThread.held).count s + t'.held.count s := by
  induction l generalizing i with
  | nil => simp at hi
  | cons a l ih =>
    cases i with
    | zero =>
      obtain rfl : a = t := by simpa using hi
      simp only [List.set_cons_zero, List.flatMap_cons, List.count_append]
      omega
    | succ i =>
      have := ih (by simpa using hi)
      simp only [List.set_cons_succ, List.flatMap_cons, List.count_append]
      omega

theorem semInv_start (ok : Q → Bool → Prop) : SemInv ok (SemState.start : SemState S Q) :=
  ⟨by simp [SemState.start], by simp [SemState.start]⟩

/-- Every step with answers in `ok` keeps the invariant, if the handlers are balanced. -/
theorem semInv_step {ok : Q → Bool → Prop} {prog : H → Prog S Q}
    (hprog : ∀ h, (prog h).Balanced ok []) {σ σ' : SemState S Q} {l : SemLabel H}
    (hσ : SemInv ok σ) (hok : AnswerOk ok σ l) (h : semStep prog σ l = some σ') : SemInv ok σ' := by
  cases l with
  | start a =>
    obtain rfl := Option.some.inj h
    refine ⟨?_, ?_⟩
    · intro s
      simpa using hσ.count_add s
    · intro t ht
      rcases List.mem_append.mp ht with ht | ht
      · exact hσ.balanced t ht
      · rw [List.mem_singleton.mp ht]
        exact hprog a
  | run i answer =>
    simp only [semStep] at h
    split at h
    · exact absurd h (by simp)
    · rename_i t hi
      obtain ⟨⟨count', t'⟩, hstep, rfl⟩ := Option.map_eq_some_iff.mp h
      have hbal := hσ.balanced t (List.mem_of_getElem? hi)
      obtain ⟨prog, held⟩ := t
      -- what one step of a balanced thread does to the counters and to what it holds
      have hthread : t'.prog.Balanced ok t'.held ∧
          ∀ s, count' s + t'.held.count s = σ.count s + held.count s := by
        cases prog with
        | done => simp [SemThread.step] at hstep
        | op o next =>
          cases o with
          | wait s =>
            simp only [SemThread.step] at hstep
            split at hstep
            · exact absurd hstep (by simp)
            · obtain ⟨rfl, rfl⟩ := Prod.mk.inj (Option.some.inj hstep)
              refine ⟨hbal, ?_⟩
              intro u
              by_cases hu : u = s
              · subst hu
                simp only [Function.update_self, List.count_cons_self]
                omega
              · have hne : s ≠ u := fun h => hu h.symm
                simp [hu, hne]
          | post s =>
            obtain ⟨rfl, rfl⟩ := Prod.mk.inj (Option.some.inj hstep)
            obtain ⟨hmem, hnext⟩ := hbal
            refine ⟨hnext, ?_⟩
            intro u
            by_cases hu : u = s
            · subst hu
              have hpos : 0 < held.count u := List.count_pos_iff.mpr hmem
              simp only [Function.update_self, List.count_erase_self]
              omega
            · simp [hu, List.count_erase_of_ne hu]
        | ask q next =>
          obtain ⟨rfl, rfl⟩ := Prod.mk.inj (Option.some.inj hstep)
          simp only [AnswerOk, hi] at hok
          exact ⟨hbal answer hok, fun s => rfl⟩
      refine ⟨?_, ?_⟩
      · intro s
        have hset := count_flatMap_set t' s hi
        have h1 := hσ.count_add s
        have h2 := hthread.2 s
        simp only at hset ⊢
        omega
      · intro u hu
        rcases List.mem_or_eq_of_mem_set hu with hu | rfl
        · exact hσ.balanced u hu
        · exact hthread.1

/-- **Balanced handlers keep the invariant along every run with answers in `ok`.** -/
theorem semInv_run {ok : Q → Bool → Prop} {prog : H → Prog S Q}
    (hprog : ∀ h, (prog h).Balanced ok []) {tr : List (Transition (SemState S Q) (SemLabel H))}
    {σ : SemState S Q} (hr : (semaphores prog).Run tr σ)
    (hok : ∀ x ∈ tr, AnswerOk ok x.src x.label) : SemInv ok σ := by
  refine hr.invariant (I := SemInv ok) (C := AnswerOk ok) ?_ ?_ hok
  · rintro s rfl
    exact semInv_start ok
  · intro s l s' hs hl hst
    exact semInv_step hprog hs hl hst

end Tpso.Lib
