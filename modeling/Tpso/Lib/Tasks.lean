/-
# Threads that wait on semaphores and on messages

A TASK is a program over semaphores that also sends and receives messages, draws numbers and starts
other tasks.  A thread that runs one can be stuck in two places: at a wait on a counter at 0, and at a
receive with no message there (`TaskThread.blockedOn`).

Give a rank to everything a thread can be stuck on.  If a thread waits only on what ranks above all it
holds (`Task.Ordered`), whoever holds what it waits on is stuck, if at all, on something of a higher
rank, and no cycle of such waits closes (`not_transGen_of_rank`).  `Task.Late` and `Task.Sends` say of
the rest of a task that it waits only above a bound, and that it will send a message.
-/
import Mathlib.Logic.Relation
import Tpso.Lib.Semaphore

namespace Tpso.Lib

/-- Programs over semaphores `S`, questions `Q`, messages `M` and tasks `J` that can be started.  What
is received is a `Bool`. -/
inductive Task (S Q M J : Type) where
  | done
  | op (o : SemOp S) (next : Task S Q M J)
  | ask (q : Q) (next : Bool → Task S Q M J)
  | pick (next : Nat → Task S Q M J)
  | send (m : M) (next : Task S Q M J)
  | recv (m : M) (next : Bool → Task S Q M J)
  | fork (j : J) (next : Task S Q M J)

variable {S Q M J : Type}

namespace Task

def wait (s : S) (next : Task S Q M J) : Task S Q M J := .op (.wait s) next

def post (s : S) (next : Task S Q M J) : Task S Q M J := .op (.post s) next

/-- Several calls in a row. -/
def waitAll (l : List S) (next : Task S Q M J) : Task S Q M J := l.foldr wait next

def postAll (l : List S) (next : Task S Q M J) : Task S Q M J := l.foldr post next

/-- A program without messages, and then `next`. -/
def run : Prog S Q → Task S Q M J → Task S Q M J
  | .done, next => next
  | .op o p, next => .op o (run p next)
  | .ask q p, next => .ask q fun b => run (p b) next

def isDone : Task S Q M J → Bool
  | .done => true
  | _ => false

end Task

/-- A thread: what it has still to do, and the semaphores it has waited on and not posted since. -/
structure TaskThread (S Q M J : Type) where
  task : Task S Q M J
  held : List S

/-- What one step of a thread leaves and what it gives to the rest of the system. -/
structure TaskOut (S Q M J : Type) where
  count : S → Nat
  thread : TaskThread S Q M J
  sent : Option M := none
  received : Option M := none
  started : Option J := none

/-- One step of a thread.  `mail` says which messages are there, `answer` and `number` are what the
rest of the system replies. -/
def TaskThread.step [DecidableEq S] (count : S → Nat) (mail : M → Option Bool)
    (t : TaskThread S Q M J) (answer : Bool) (number : Nat) : Option (TaskOut S Q M J) :=
  match t.task with
  | .done => none
  | .op (.wait s) next =>
    if count s = 0 then none
    else some { count := Function.update count s (count s - 1), thread := ⟨next, s :: t.held⟩ }
  | .op (.post s) next =>
    some { count := Function.update count s (count s + 1), thread := ⟨next, t.held.erase s⟩ }
  | .ask _ next => some { count := count, thread := ⟨next answer, t.held⟩ }
  | .pick next => some { count := count, thread := ⟨next number, t.held⟩ }
  | .send m next => some { count := count, thread := ⟨next, t.held⟩, sent := some m }
  | .recv m next =>
    (mail m).map fun b => { count := count, thread := ⟨next b, t.held⟩, received := some m }
  | .fork j next => some { count := count, thread := ⟨next, t.held⟩, started := some j }

/-- What a thread is stuck on. -/
def TaskThread.blockedOn (count : S → Nat) (mail : M → Option Bool) (t : TaskThread S Q M J) :
    Option (S ⊕ M) :=
  match t.task with
  | .op (.wait s) _ => if count s = 0 then some (.inl s) else none
  | .recv m _ => if (mail m).isNone then some (.inr m) else none
  | _ => none

/-! ## 1. Ranks -/

/-- **A relation along which a rank rises has no cycle.** -/
theorem not_transGen_of_rank {A : Type} {r : A → A → Prop} (rank : A → Nat)
    (h : ∀ a b, r a b → rank a < rank b) (a : A) : ¬ Relation.TransGen r a a := by
  intro hcycle
  have hlt : ∀ b, Relation.TransGen r a b → rank a < rank b := by
    intro b hb
    induction hb with
    | single hab => exact h _ _ hab
    | tail _ hbc ih => exact lt_trans ih (h _ _ hbc)
  exact absurd (hlt a hcycle) (lt_irrefl _)

/-- The rest of a task waits on nothing up to `bound` and receives nothing. -/
def Task.Late (rank : S ⊕ M → Nat) (bound : Nat) : Task S Q M J → Prop
  | .done => True
  | .op (.wait s) next => bound < rank (.inl s) ∧ Late rank bound next
  | .op (.post _) next => Late rank bound next
  | .ask _ next => ∀ b, Late rank bound (next b)
  | .pick next => ∀ n, Late rank bound (next n)
  | .send _ next => Late rank bound next
  | .recv _ _ => False
  | .fork _ next => Late rank bound next

/-- With answers in `ok` the rest of a task sends `m`. -/
def Task.Sends (ok : Q → Bool → Prop) (m : M) : Task S Q M J → Prop
  | .done => False
  | .op _ next => Sends ok m next
  | .ask q next => ∀ b, ok q b → Sends ok m (next b)
  | .pick next => ∀ n, Sends ok m (next n)
  | .send m' next => m' = m ∨ Sends ok m next
  | .recv _ next => ∀ b, Sends ok m (next b)
  | .fork _ next => Sends ok m next

/-- What a late thread is stuck on is a semaphore above the bound. -/
theorem Task.Late.lt_of_blockedOn {rank : S ⊕ M → Nat} {bound : Nat} {count : S → Nat}
    {mail : M → Option Bool} {t : TaskThread S Q M J} (ht : t.task.Late rank bound) {x : S ⊕ M}
    (h : t.blockedOn count mail = some x) : bound < rank x := by
  unfold TaskThread.blockedOn at h
  split at h
  · rename_i s next htask
    rw [htask] at ht
    simp only [Option.ite_none_right_eq_some, Option.some.injEq] at h
    obtain ⟨-, rfl⟩ := h
    exact ht.1
  · rename_i m next htask
    rw [htask] at ht
    exact absurd ht (by simp [Task.Late])
  · exact absurd h (by simp)

/-- A thread that is stuck has not ended. -/
theorem TaskThread.isDone_of_blockedOn {count : S → Nat} {mail : M → Option Bool}
    {t : TaskThread S Q M J} {x : S ⊕ M} (h : t.blockedOn count mail = some x) :
    t.task.isDone = false := by
  cases htask : t.task with
  | done => simp [TaskThread.blockedOn, htask] at h
  | _ => rfl

variable [DecidableEq S]

/-- A thread that holds `held` and goes on with the task waits only on what ranks above all it holds,
and holds nothing in the end. -/
def Task.Ordered (rank : S ⊕ M → Nat) : List S → Task S Q M J → Prop
  | held, .done => held = []
  | held, .op (.wait s) next =>
    (∀ h ∈ held, rank (.inl h) < rank (.inl s)) ∧ Ordered rank (s :: held) next
  | held, .op (.post s) next => Ordered rank (held.erase s) next
  | held, .ask _ next => ∀ b, Ordered rank held (next b)
  | held, .pick next => ∀ n, Ordered rank held (next n)
  | held, .send _ next => Ordered rank held next
  | held, .recv m next =>
    (∀ h ∈ held, rank (.inl h) < rank (.inr m)) ∧ ∀ b, Ordered rank held (next b)
  | held, .fork _ next => Ordered rank held next

/-- A program that holds `held` waits in the order of the ranks, and holds `base` in the end. -/
def Prog.Nested (rank : S → Nat) (base : List S) : List S → Prog S Q → Prop
  | held, .done => held = base
  | held, .op (.wait s) next => (∀ h ∈ held, rank h < rank s) ∧ Nested rank base (s :: held) next
  | held, .op (.post s) next => Nested rank base (held.erase s) next
  | held, .ask _ next => ∀ b, Nested rank base held (next b)

/-- A nested program may stand before an ordered task. -/
theorem Task.ordered_run {rank : S ⊕ M → Nat} {base : List S} {next : Task S Q M J}
    (hnext : next.Ordered rank base) : ∀ {held : List S} {p : Prog S Q},
    p.Nested (fun s => rank (.inl s)) base held → (Task.run p next).Ordered rank held := by
  intro held p
  induction p generalizing held with
  | done =>
    intro hp
    obtain rfl : held = base := hp
    exact hnext
  | op o p ih =>
    intro hp
    cases o with
    | wait s => exact ⟨hp.1, ih hp.2⟩
    | post s => exact ih hp
  | ask q p ih => exact fun hp b => ih b (hp b)

/-! ## 2. One step -/

section Step

variable {rank : S ⊕ M → Nat} {count : S → Nat} {mail : M → Option Bool} {t : TaskThread S Q M J}
  {answer : Bool} {number bound : Nat} {r : TaskOut S Q M J}

/-- What a step finds and what it leaves. -/
inductive TaskMove (count : S → Nat) (mail : M → Option Bool) (answer : Bool) (number : Nat) (held : List S) :
    Task S Q M J → TaskOut S Q M J → Prop where
  | wait (s : S) (next : Task S Q M J) (hpos : count s ≠ 0) :
    TaskMove count mail answer number held (.op (.wait s) next)
      { count := Function.update count s (count s - 1), thread := ⟨next, s :: held⟩ }
  | post (s : S) (next : Task S Q M J) :
    TaskMove count mail answer number held (.op (.post s) next)
      { count := Function.update count s (count s + 1), thread := ⟨next, held.erase s⟩ }
  | ask (q : Q) (next : Bool → Task S Q M J) :
    TaskMove count mail answer number held (.ask q next) { count := count, thread := ⟨next answer, held⟩ }
  | pick (next : Nat → Task S Q M J) :
    TaskMove count mail answer number held (.pick next) { count := count, thread := ⟨next number, held⟩ }
  | send (m : M) (next : Task S Q M J) :
    TaskMove count mail answer number held (.send m next)
      { count := count, thread := ⟨next, held⟩, sent := some m }
  | recv (m : M) (next : Bool → Task S Q M J) (b : Bool) (hmail : mail m = some b) :
    TaskMove count mail answer number held (.recv m next)
      { count := count, thread := ⟨next b, held⟩, received := some m }
  | fork (j : J) (next : Task S Q M J) :
    TaskMove count mail answer number held (.fork j next)
      { count := count, thread := ⟨next, held⟩, started := some j }

/-- Every step is one of these. -/
theorem TaskThread.step_cases (h : t.step count mail answer number = some r) :
    TaskMove count mail answer number t.held t.task r := by
  obtain ⟨task, held⟩ := t
  cases task with
  | done => exact absurd h (by simp [TaskThread.step])
  | op o next =>
    cases o with
    | wait s =>
      obtain ⟨hpos, hr⟩ := Option.ite_none_left_eq_some.mp h
      obtain rfl := Option.some.inj hr
      exact .wait s next hpos
    | post s =>
      obtain rfl := Option.some.inj h
      exact .post s next
  | ask q next =>
    obtain rfl := Option.some.inj h
    exact .ask q next
  | pick next =>
    obtain rfl := Option.some.inj h
    exact .pick next
  | send m next =>
    obtain rfl := Option.some.inj h
    exact .send m next
  | recv m next =>
    obtain ⟨b, hmail, rfl⟩ := Option.map_eq_some_iff.mp h
    exact .recv m next b hmail
  | fork j next =>
    obtain rfl := Option.some.inj h
    exact .fork j next

/-- An ordered thread stays ordered. -/
theorem Task.Ordered.step (ht : t.task.Ordered rank t.held)
    (h : t.step count mail answer number = some r) :
    r.thread.task.Ordered rank r.thread.held := by
  obtain ⟨task, held⟩ := t
  cases TaskThread.step_cases h with
  | wait s next hpos => exact ht.2
  | post s next => exact ht
  | ask q next => exact ht answer
  | pick next => exact ht number
  | send m next => exact ht
  | recv m next b hmail => exact ht.2 b
  | fork j next => exact ht

/-- A late task stays late. -/
theorem Task.Late.step (ht : t.task.Late rank bound)
    (h : t.step count mail answer number = some r) : r.thread.task.Late rank bound := by
  obtain ⟨task, held⟩ := t
  cases TaskThread.step_cases h with
  | wait s next hpos => exact ht.2
  | post s next => exact ht
  | ask q next => exact ht answer
  | pick next => exact ht number
  | send m next => exact ht
  | recv m next b hmail => exact absurd ht (by simp [Task.Late])
  | fork j next => exact ht

/-- A message that is to be sent is sent now or still to be sent. -/
theorem Task.Sends.step {ok : Q → Bool → Prop} {m : M} (ht : t.task.Sends ok m)
    (hok : ∀ q next, t.task = .ask q next → ok q answer)
    (h : t.step count mail answer number = some r) :
    r.sent = some m ∨ r.thread.task.Sends ok m := by
  obtain ⟨task, held⟩ := t
  cases TaskThread.step_cases h with
  | wait s next hpos => exact Or.inr ht
  | post s next => exact Or.inr ht
  | ask q next => exact Or.inr (ht answer (hok q next rfl))
  | pick next => exact Or.inr (ht number)
  | send m' next =>
    rcases ht with rfl | hlater
    · exact Or.inl rfl
    · exact Or.inr hlater
  | recv m' next b hmail => exact Or.inr (ht b)
  | fork j next => exact Or.inr ht

/-- **What an ordered thread is stuck on ranks above all it holds.** -/
theorem Task.Ordered.lt_of_blockedOn (ht : t.task.Ordered rank t.held) {x : S ⊕ M}
    (h : t.blockedOn count mail = some x) : ∀ s ∈ t.held, rank (.inl s) < rank x := by
  unfold TaskThread.blockedOn at h
  split at h
  · rename_i s next htask
    rw [htask] at ht
    simp only [Option.ite_none_right_eq_some, Option.some.injEq] at h
    obtain ⟨-, rfl⟩ := h
    exact ht.1
  · rename_i m next htask
    rw [htask] at ht
    simp only [Option.ite_none_right_eq_some, Option.some.injEq] at h
    obtain ⟨-, rfl⟩ := h
    exact ht.1
  · exact absurd h (by simp)

end Step

end Tpso.Lib
