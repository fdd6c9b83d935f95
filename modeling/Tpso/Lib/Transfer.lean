/-
# Writing in order and reading back

A writer puts one value after the other, and a reader on the other side takes them one after the other.
Nobody writes down where a value ends: each read must consume exactly what one write produced, whatever
follows.

`Writes` and `Reads` say this of one program; the rules put programs one after the other, and lists of
them, so that a program made of such steps is judged step by step.  The state is left open: it may be a
stream, or a buffer with a cursor.
-/
import Mathlib

namespace Tpso.Lib

/-! ## 1. Numbers as bytes -/

/-- The `n` low bytes of a number, the lowest first. -/
def leBytes : Nat → Nat → List UInt8
  | 0, _ => []
  | n + 1, m => UInt8.ofNat m :: leBytes n (m / 256)

/-- The number that bytes stand for, the lowest first. -/
def leNat : List UInt8 → Nat
  | [] => 0
  | b :: bs => b.toNat + 256 * leNat bs

@[simp] theorem length_leBytes (n m : Nat) : (leBytes n m).length = n := by
  induction n generalizing m with
  | zero => rfl
  | succ n ih => simp [leBytes, ih]

/-- The bytes give the number back, as far as they reach. -/
theorem leNat_leBytes (n m : Nat) : leNat (leBytes n m) = m % 256 ^ n := by
  induction n generalizing m with
  | zero => simp [leBytes, leNat, Nat.mod_one]
  | succ n ih =>
    have hbyte : (UInt8.ofNat m).toNat = m % 256 := by simp
    rw [leBytes, leNat, ih, hbyte, Nat.pow_succ', Nat.mod_mul]

/-! ## 2. Reading -/

section Reads

variable {σ β α γ κ : Type}

/-- Where `bytes` come next, `f` consumes exactly these and returns `a`.  `ahead s bs` says that `bs` is
what is left to read in the state `s`. -/
def Reads (ahead : σ → List β → Prop) (f : StateT σ Option α) (bytes : List β) (a : α) : Prop :=
  ∀ s rest, ahead s (bytes ++ rest) → ∃ s', f.run s = some (a, s') ∧ ahead s' rest

/-- Where `bytes` come next, `f` returns `a`. -/
def Yields (ahead : σ → List β → Prop) (f : StateT σ Option α) (bytes : List β) (a : α) : Prop :=
  ∀ s rest, ahead s (bytes ++ rest) → ∃ s', f.run s = some (a, s')

variable {ahead : σ → List β → Prop}

/-- Nothing is read. -/
theorem Reads.pure (a : α) : Reads ahead (Pure.pure a) [] a :=
  fun s _ h => ⟨s, rfl, h⟩

/-- One read after the other. -/
theorem Reads.bind {f : StateT σ Option α} {g : α → StateT σ Option γ} {xs ys : List β} {a : α} {c : γ}
    (hf : Reads ahead f xs a) (hg : Reads ahead (g a) ys c) : Reads ahead (f >>= g) (xs ++ ys) c := by
  intro s rest h
  rw [List.append_assoc] at h
  obtain ⟨s1, hrun1, h1⟩ := hf s _ h
  obtain ⟨s2, hrun2, h2⟩ := hg s1 rest h1
  exact ⟨s2, by simp [StateT.run_bind, hrun1, hrun2], h2⟩

/-- One read, and then a step that reads nothing. -/
theorem Reads.bind_nil {f : StateT σ Option α} {g : α → StateT σ Option γ} {bytes : List β} {a : α}
    {c : γ} (hf : Reads ahead f bytes a) (hg : Reads ahead (g a) [] c) :
    Reads ahead (f >>= g) bytes c := by
  have h := hf.bind hg
  rwa [List.append_nil] at h

/-- A step that leaves the state alone. -/
theorem Reads.lift {o : Option α} {a : α} (ho : o = some a) : Reads ahead (StateT.lift o) [] a :=
  fun s _ h => ⟨s, by simp [ho], h⟩

/-- **A list of reads**: what was written for one item after the other is read so. -/
theorem Reads.mapM {items : List κ} {key : κ → γ} {read : γ → StateT σ Option α} {bytes : κ → List β}
    {out : κ → α} (h : ∀ x ∈ items, Reads ahead (read (key x)) (bytes x) (out x)) :
    Reads ahead ((items.map key).mapM read) (items.flatMap bytes) (items.map out) := by
  induction items with
  | nil =>
    simp only [List.map_nil, List.mapM_nil, List.flatMap_nil]
    exact Reads.pure []
  | cons x items ih =>
    simp only [List.map_cons, List.mapM_cons, List.flatMap_cons]
    have hrest := ih fun y hy => h y (List.mem_cons_of_mem _ hy)
    refine (h x List.mem_cons_self).bind ?_
    exact hrest.bind_nil (Reads.pure _)

/-- A read returns something. -/
theorem Reads.yields {f : StateT σ Option α} {bytes : List β} {a : α} (h : Reads ahead f bytes a) :
    Yields ahead f bytes a := by
  intro s rest hs
  obtain ⟨s', hrun, -⟩ := h s rest hs
  exact ⟨s', hrun⟩

/-- One read, and then the rest of the program. -/
theorem Reads.bind_yields {f : StateT σ Option α} {g : α → StateT σ Option γ} {xs ys : List β} {a : α}
    {c : γ} (hf : Reads ahead f xs a) (hg : Yields ahead (g a) ys c) :
    Yields ahead (f >>= g) (xs ++ ys) c := by
  intro s rest h
  rw [List.append_assoc] at h
  obtain ⟨s1, hrun1, h1⟩ := hf s _ h
  obtain ⟨s2, hrun2⟩ := hg s1 rest h1
  exact ⟨s2, by simp [StateT.run_bind, hrun1, hrun2]⟩

end Reads

/-! ## 3. Writing -/

section Writes

variable {σ β κ : Type}

/-- Where `done` has been written and there is room, `f` writes `bytes` behind it. -/
def Writes (written : σ → List β → Prop) (fits : List β → Prop) (f : StateT σ Option Unit)
    (bytes : List β) : Prop :=
  ∀ s done, written s done → fits (done ++ bytes) →
    ∃ s', f.run s = some ((), s') ∧ written s' (done ++ bytes)

variable {written : σ → List β → Prop} {fits : List β → Prop}

/-- Nothing is written. -/
theorem Writes.pure : Writes written fits (Pure.pure ()) [] := by
  intro s done h _
  exact ⟨s, rfl, by rwa [List.append_nil]⟩

/-- One write after the other, where what fits still fits when less is written. -/
theorem Writes.bind (hfits : ∀ xs ys : List β, fits (xs ++ ys) → fits xs)
    {f g : StateT σ Option Unit} {xs ys : List β} (hf : Writes written fits f xs)
    (hg : Writes written fits g ys) : Writes written fits (f >>= fun _ => g) (xs ++ ys) := by
  intro s done h hfit
  rw [← List.append_assoc] at hfit ⊢
  obtain ⟨s1, hrun1, h1⟩ := hf s done h (hfits _ ys hfit)
  obtain ⟨s2, hrun2, h2⟩ := hg s1 _ h1 hfit
  exact ⟨s2, by simp [StateT.run_bind, hrun1, hrun2], h2⟩

/-- **A list of writes.** -/
theorem Writes.forM (hfits : ∀ xs ys : List β, fits (xs ++ ys) → fits xs) {items : List κ}
    {write : κ → StateT σ Option Unit} {bytes : κ → List β}
    (h : ∀ x ∈ items, Writes written fits (write x) (bytes x)) :
    Writes written fits (items.forM write) (items.flatMap bytes) := by
  induction items with
  | nil => exact Writes.pure
  | cons x items ih =>
    simp only [List.forM_eq_forM, List.forM_cons, List.flatMap_cons]
    exact (h x List.mem_cons_self).bind hfits (ih fun y hy => h y (List.mem_cons_of_mem _ hy))

end Writes

end Tpso.Lib
