/-
# Sorts that only see the answers of a comparison

A library sort calls the comparison it is given and knows nothing else about its items.  It is therefore a
tree of questions, and what it promises (that the result is in order) it promises for comparisons that
are a fixed order.  A comparison with a STATE, one that changes what it compares, gets no promise; but
neither can it get just anything.

* `forall_sort_iff`: what a sort can do with a comparison that has a state is to ask some questions and
  to end with an arrangement that is in order for EVERY fixed order that would have answered in this way.
  If there is none, because the answers contradict each other, any arrangement will do.
* `head_least_iff`: when the items have keys that move each time an item is compared, the first item of
  the result has a least key, whatever the sort, exactly if the keys move in harmony (`Harmony`).
-/
import Mathlib

namespace Tpso.Lib

/-! ## 1. Trees of questions -/

/-- What a sort does next: it has finished, or it asks about two items and goes on with the answer. -/
inductive Asking (α : Type) where
  | done (l : List α)
  | ask (a b : α) (next : Bool → Asking α)

/-- A total preorder, as a comparison. -/
structure TotalPreorder {α : Type} (le : α → α → Bool) : Prop where
  total : ∀ a b, le a b = true ∨ le b a = true
  trans : ∀ a b c, le a b = true → le b c = true → le a c = true

namespace Asking

variable {σ α : Type}

/-- The tree with a comparison that may change a state. -/
def run (cmp : σ → α → α → σ × Bool) : Asking α → σ → σ × List α
  | done l, s => (s, l)
  | ask a b next, s => (next (cmp s a b).2).run cmp (cmp s a b).1

/-- The questions it asks. -/
def calls (cmp : σ → α → α → σ × Bool) : Asking α → σ → List (α × α)
  | done _, _ => []
  | ask a b next, s => (a, b) :: (next (cmp s a b).2).calls cmp (cmp s a b).1

/-- The result with a fixed comparison. -/
def result (le : α → α → Bool) : Asking α → List α
  | done l => l
  | ask a b next => (next (le a b)).result le

/-- The tree asks about members of the list only, and permutes it. -/
def Within (l : List α) : Asking α → Prop
  | done r => r.Perm l
  | ask a b next => a ∈ l ∧ b ∈ l ∧ ∀ answer, (next answer).Within l

end Asking

/-- A sort: with any answers it permutes the list, and with the answers of a total preorder the result is
in order. -/
structure ComparisonSort (α : Type) where
  sort : List α → Asking α
  within : ∀ l, (sort l).Within l
  sorted : ∀ le, TotalPreorder le → ∀ l, ((sort l).result le).Pairwise fun a b => le a b = true

/-! ## 2. Insertion sort -/

section Insertion

variable {α : Type}

/-- An item is compared with those of the list until it is at most one of them. -/
def insertAsking (x : α) : List α → (List α → Asking α) → Asking α
  | [], k => k [x]
  | y :: ys, k => .ask x y fun answer =>
    if answer then k (x :: y :: ys) else insertAsking x ys fun zs => k (y :: zs)

def insertionAsking : List α → (List α → Asking α) → Asking α
  | [], k => k []
  | x :: xs, k => insertionAsking xs fun sorted => insertAsking x sorted k

theorem result_insertAsking (le : α → α → Bool) (x : α) : ∀ (l : List α) (k : List α → Asking α),
    (insertAsking x l k).result le = (k (l.orderedInsert (fun a b => le a b = true) x)).result le := by
  intro l
  induction l with
  | nil => simp [insertAsking]
  | cons y ys ih =>
    intro k
    cases h : le x y with
    | true => simp [insertAsking, Asking.result, h]
    | false => simp [insertAsking, Asking.result, h, ih]

theorem result_insertionAsking (le : α → α → Bool) : ∀ (l : List α) (k : List α → Asking α),
    (insertionAsking l k).result le = (k (l.insertionSort fun a b => le a b = true)).result le := by
  intro l
  induction l with
  | nil => simp [insertionAsking]
  | cons x xs ih =>
    intro k
    simp [insertionAsking, ih, result_insertAsking]

theorem within_insertAsking {whole : List α} {x : α} (hx : x ∈ whole) : ∀ (l : List α)
    (k : List α → Asking α), (∀ y ∈ l, y ∈ whole) →
    (∀ zs, zs.Perm (x :: l) → (k zs).Within whole) → (insertAsking x l k).Within whole := by
  intro l
  induction l with
  | nil => exact fun k _ hk => hk [x] (List.Perm.refl _)
  | cons y ys ih =>
    intro k hl hk
    refine ⟨hx, hl y List.mem_cons_self, fun answer => ?_⟩
    cases answer with
    | true => exact hk _ (List.Perm.refl _)
    | false =>
      refine ih _ (fun z hz => hl z (List.mem_cons_of_mem y hz)) fun zs hzs => hk _ ?_
      exact (hzs.cons y).trans (List.Perm.swap x y ys)

theorem within_insertionAsking {whole : List α} : ∀ (l : List α) (k : List α → Asking α),
    (∀ y ∈ l, y ∈ whole) → (∀ zs, zs.Perm l → (k zs).Within whole) →
    (insertionAsking l k).Within whole := by
  intro l
  induction l with
  | nil => exact fun k _ hk => hk [] (List.Perm.refl _)
  | cons x xs ih =>
    intro k hl hk
    refine ih _ (fun y hy => hl y (List.mem_cons_of_mem x hy)) fun sorted hsorted => ?_
    refine within_insertAsking (hl x List.mem_cons_self) sorted k ?_ ?_
    · exact fun y hy => hl y (List.mem_cons_of_mem x (hsorted.mem_iff.mp hy))
    · exact fun zs hzs => hk zs (hzs.trans (hsorted.cons x))

/-- Insertion sort, from the right. -/
def ComparisonSort.insertion : ComparisonSort α where
  sort l := insertionAsking l .done
  within l := within_insertionAsking l .done (fun _ hy => hy) fun _ hzs => hzs
  sorted le hle l := by
    have : Std.Total fun a b => le a b = true := ⟨hle.total⟩
    have : IsTrans α fun a b => le a b = true := ⟨hle.trans⟩
    rw [result_insertionAsking]
    exact List.pairwise_insertionSort _ l

end Insertion

/-! ## 3. What a sort can do -/

section Possible

variable {σ α : Type} {cmp : σ → α → α → σ × Bool} {s : σ} {le : α → α → Bool} {l r : List α}
  {calls : List (α × α)}

/-- The state after some questions. -/
def after (cmp : σ → α → α → σ × Bool) (s : σ) (calls : List (α × α)) : σ :=
  calls.foldl (fun t c => (cmp t c.1 c.2).1) s

/-- The order would have given each of the answers. -/
def Agrees (cmp : σ → α → α → σ × Bool) (s : σ) (le : α → α → Bool) (calls : List (α × α)) : Prop :=
  ∀ before a b later, calls = before ++ (a, b) :: later →
    (cmp (after cmp s before) a b).2 = le a b

/-- Questions about members, and an arrangement that is right for every order that would have given the
answers. -/
structure Possible (cmp : σ → α → α → σ × Bool) (s : σ) (l : List α) (calls : List (α × α))
    (r : List α) : Prop where
  members : ∀ c ∈ calls, c.1 ∈ l ∧ c.2 ∈ l
  perm : r.Perm l
  inOrder : ∀ le, TotalPreorder le → Agrees cmp s le calls → r.Pairwise fun a b => le a b = true

theorem after_append (calls calls' : List (α × α)) :
    after cmp s (calls ++ calls') = after cmp (after cmp s calls) calls' := List.foldl_append

theorem agrees_nil : Agrees cmp s le [] := by
  intro before a b later h
  simp at h

theorem agrees_cons {a b : α} : Agrees cmp s le ((a, b) :: calls) ↔
    (cmp s a b).2 = le a b ∧ Agrees cmp (cmp s a b).1 le calls := by
  constructor
  · intro h
    refine ⟨h [] a b calls rfl, fun before c d later hcalls => ?_⟩
    exact h ((a, b) :: before) c d later (by rw [hcalls, List.cons_append])
  · rintro ⟨hfirst, hrest⟩ before c d later hcalls
    cases before with
    | nil =>
      obtain ⟨hab, -⟩ := List.cons.inj hcalls
      obtain ⟨rfl, rfl⟩ := Prod.mk.inj hab
      exact hfirst
    | cons e before =>
      obtain ⟨rfl, hcalls'⟩ := List.cons.inj hcalls
      exact hrest before c d later hcalls'

/-- The state a tree ends in is the one after its questions. -/
theorem run_fst (t : Asking α) : ∀ s, (t.run cmp s).1 = after cmp s (t.calls cmp s) := by
  induction t with
  | done l => exact fun _ => rfl
  | ask a b next ih => exact fun s => ih _ _

theorem calls_members (t : Asking α) : ∀ s, t.Within l → ∀ c ∈ t.calls cmp s, c.1 ∈ l ∧ c.2 ∈ l := by
  induction t with
  | done r => exact fun _ _ c hc => absurd hc (by simp [Asking.calls])
  | ask a b next ih =>
    rintro s ⟨ha, hb, hnext⟩ c hc
    rcases List.mem_cons.mp hc with rfl | hc
    · exact ⟨ha, hb⟩
    · exact ih _ _ (hnext _) c hc

theorem run_perm (t : Asking α) : ∀ s, t.Within l → (t.run cmp s).2.Perm l := by
  induction t with
  | done r => exact fun _ h => h
  | ask a b next ih => exact fun s h => ih _ _ (h.2.2 _)

/-- An order that would have given the answers leads to the same result. -/
theorem run_snd (t : Asking α) : ∀ s, Agrees cmp s le (t.calls cmp s) →
    (t.run cmp s).2 = t.result le := by
  induction t with
  | done l => exact fun _ _ => rfl
  | ask a b next ih =>
    intro s h
    obtain ⟨hfirst, hrest⟩ := agrees_cons.mp h
    rw [Asking.run, Asking.result, ← hfirst]
    exact ih _ _ hrest

/-- What a sort does is possible. -/
theorem possible_of_sort (S : ComparisonSort α) (s : σ) (l : List α) :
    Possible cmp s l ((S.sort l).calls cmp s) ((S.sort l).run cmp s).2 := by
  constructor
  · exact calls_members _ s (S.within l)
  · exact run_perm _ s (S.within l)
  · intro le hle hagrees
    rw [run_snd _ s hagrees]
    exact S.sorted le hle l

/-- The first item is at most every other one, for every order that would have given the answers. -/
theorem Possible.head_le (h : Possible cmp s l calls r) {le : α → α → Bool} (hle : TotalPreorder le)
    (hagrees : Agrees cmp s le calls) {x y : α} (hx : r.head? = some x) (hy : y ∈ r) (hxy : x ≠ y) :
    le x y = true := by
  obtain ⟨tail, rfl⟩ := List.head?_eq_some_iff.mp hx
  have hall := h.inOrder le hle hagrees
  refine (List.pairwise_cons.mp hall).1 y ?_
  rcases List.mem_cons.mp hy with rfl | hy
  · exact absurd rfl hxy
  · exact hy

/-- Two answers that contradict each other: anything is possible. -/
theorem possible_of_clash {before before' later later' : List (α × α)} {a b : α}
    (hmem : ∀ c ∈ calls, c.1 ∈ l ∧ c.2 ∈ l) (hperm : r.Perm l)
    (hfirst : calls = before ++ (a, b) :: later) (hsecond : calls = before' ++ (a, b) :: later')
    (hclash : (cmp (after cmp s before) a b).2 ≠ (cmp (after cmp s before') a b).2) :
    Possible cmp s l calls r := by
  refine ⟨hmem, hperm, fun le _ hagrees => ?_⟩
  exact absurd ((hagrees _ _ _ _ hfirst).trans (hagrees _ _ _ _ hsecond).symm) hclash

/-- Given questions and a result; at an answer that is not the one of the comparison the tree goes on
with another one. -/
def follow (cmp : σ → α → α → σ × Bool) (default : Asking α) (r : List α) :
    List (α × α) → σ → Asking α
  | [], _ => .done r
  | (a, b) :: calls, s => .ask a b fun answer =>
    if answer = (cmp s a b).2 then follow cmp default r calls (cmp s a b).1 else default

theorem run_follow (default : Asking α) (r : List α) : ∀ (calls : List (α × α)) (s : σ),
    (follow cmp default r calls s).run cmp s = (after cmp s calls, r) := by
  intro calls
  induction calls with
  | nil => exact fun _ => rfl
  | cons c calls ih =>
    intro s
    rw [follow, Asking.run, if_pos rfl]
    exact ih _

theorem within_follow {default : Asking α} (hdefault : default.Within l) (hr : r.Perm l) :
    ∀ (calls : List (α × α)) (s : σ), (∀ c ∈ calls, c.1 ∈ l ∧ c.2 ∈ l) →
    (follow cmp default r calls s).Within l := by
  intro calls
  induction calls with
  | nil => exact fun _ _ => hr
  | cons c calls ih =>
    intro s hmem
    obtain ⟨ha, hb⟩ := hmem c List.mem_cons_self
    refine ⟨ha, hb, fun answer => ?_⟩
    beta_reduce
    split
    · exact ih _ fun d hd => hmem d (List.mem_cons_of_mem c hd)
    · exact hdefault

/-- With a fixed order the tree ends as planned, if the order would have given the answers, or as the
other tree. -/
theorem result_follow (default : Asking α) (r : List α) : ∀ (calls : List (α × α)) (s : σ),
    (Agrees cmp s le calls ∧ (follow cmp default r calls s).result le = r) ∨
      (follow cmp default r calls s).result le = default.result le := by
  intro calls
  induction calls with
  | nil => exact fun _ => Or.inl ⟨agrees_nil, rfl⟩
  | cons c calls ih =>
    intro s
    rw [follow, Asking.result]
    by_cases hanswer : le c.1 c.2 = (cmp s c.1 c.2).2
    · rw [if_pos hanswer]
      rcases ih (cmp s c.1 c.2).1 with ⟨hagrees, hresult⟩ | hresult
      · exact Or.inl ⟨agrees_cons.mpr ⟨hanswer.symm, hagrees⟩, hresult⟩
      · exact Or.inr hresult
    · rw [if_neg hanswer]
      exact Or.inr rfl

/-- What is possible, some sort does that sorts all other lists as a given one. -/
theorem exists_sort_of_possible [DecidableEq α] (other : ComparisonSort α) (h : Possible cmp s l calls r) :
    ∃ S : ComparisonSort α, (S.sort l).run cmp s = (after cmp s calls, r) ∧
      ∀ l', l' ≠ l → S.sort l' = other.sort l' := by
  refine ⟨⟨fun l' => if l' = l then follow cmp (other.sort l) r calls s else other.sort l', ?_, ?_⟩, ?_,
    fun l' hl' => if_neg hl'⟩
  · intro l'
    split
    · rename_i heq
      rw [heq]
      exact within_follow (other.within l) h.perm calls s h.members
    · exact other.within l'
  · intro le hle l'
    split
    · rcases result_follow (other.sort l) r calls s with ⟨hagrees, hresult⟩ | hresult
      · rw [hresult]
        exact h.inOrder le hle hagrees
      · rw [hresult]
        exact other.sorted le hle l
    · exact other.sorted le hle l'
  · simp only [↓reduceIte]
    exact run_follow _ _ _ _

/-- What is possible of one list and of another, one sort does. -/
theorem exists_sort_of_possible_two [DecidableEq α] {s' : σ} {l' r' : List α} {calls' : List (α × α)}
    (hl : l ≠ l') (h : Possible cmp s l calls r) (h' : Possible cmp s' l' calls' r') :
    ∃ S : ComparisonSort α, (S.sort l).run cmp s = (after cmp s calls, r) ∧
      (S.sort l').run cmp s' = (after cmp s' calls', r') := by
  obtain ⟨S, hS, -⟩ := exists_sort_of_possible ComparisonSort.insertion h
  obtain ⟨S', hS', hother⟩ := exists_sort_of_possible S h'
  refine ⟨S', ?_, hS'⟩
  rw [hother l hl]
  exact hS

/-- **What all sorts have in common with a comparison that has a state.** -/
theorem forall_sort_iff [DecidableEq α] (cmp : σ → α → α → σ × Bool) (s : σ) (l : List α)
    (P : σ → List α → Prop) :
    (∀ S : ComparisonSort α, P ((S.sort l).run cmp s).1 ((S.sort l).run cmp s).2) ↔
      ∀ calls r, Possible cmp s l calls r → P (after cmp s calls) r := by
  constructor
  · intro h calls r hpossible
    obtain ⟨S, hS, -⟩ := exists_sort_of_possible ComparisonSort.insertion hpossible
    have hP := h S
    rwa [hS] at hP
  · intro h S
    rw [run_fst]
    exact h _ _ (possible_of_sort S s l)

end Possible

/-! ## 4. Orders -/

/-- The order in which all items are equal. -/
theorem totalPreorder_true {α : Type} : TotalPreorder fun _ _ : α => true := ⟨by simp, by simp⟩

theorem totalPreorder_key {α : Type} (key : α → Nat) : TotalPreorder fun a b => decide (key a ≤ key b) := by
  constructor
  · intro a b
    simpa using Nat.le_total (key a) (key b)
  · intro a b c hab hbc
    simp only [decide_eq_true_eq] at hab hbc ⊢
    exact hab.trans hbc

section Ends

variable {α : Type} [DecidableEq α] {le : α → α → Bool}

/-- The order with one item above all others. -/
def atTop (x : α) (le : α → α → Bool) (a b : α) : Bool := decide (b = x) || (decide (a ≠ x) && le a b)

/-- The order with one item below all others. -/
def atBottom (x : α) (le : α → α → Bool) (a b : α) : Bool :=
  decide (a = x) || (decide (b ≠ x) && le a b)

theorem TotalPreorder.atTop (h : TotalPreorder le) (x : α) : TotalPreorder (atTop x le) := by
  constructor
  · intro a b
    have := h.total a b
    by_cases ha : a = x <;> by_cases hb : b = x <;> simp_all [Lib.atTop]
  · intro a b c
    have := h.trans a b c
    by_cases ha : a = x <;> by_cases hb : b = x <;> by_cases hc : c = x <;> simp_all [Lib.atTop]

theorem TotalPreorder.atBottom (h : TotalPreorder le) (x : α) : TotalPreorder (atBottom x le) := by
  constructor
  · intro a b
    have := h.total a b
    by_cases ha : a = x <;> by_cases hb : b = x <;> simp_all [Lib.atBottom]
  · intro a b c
    have := h.trans a b c
    by_cases ha : a = x <;> by_cases hb : b = x <;> by_cases hc : c = x <;> simp_all [Lib.atBottom]

end Ends

/-! ## 5. Keys that move when an item is compared -/

section Keys

variable {α : Type}

/-- Each key moves in one direction, and comes to rest. -/
structure Settling (key : α → Nat → Nat) (rest : α → Nat) : Prop where
  oneWay : ∀ x, Monotone (key x) ∨ Antitone (key x)
  settles : ∀ x, ∃ n, ∀ k, n ≤ k → key x k = rest x

/-- Two items alone: once the key of one is at most that of the other, it stays so.  Both have been
compared, and each of the comparisons was of two items. -/
def Lasting (key : α → Nat → Nat) (p q : α) : Prop :=
  ∀ i j i' j', 1 ≤ i → i ≤ i' → 1 ≤ j → j ≤ j' → i % 2 = j % 2 → i' % 2 = j' % 2 →
    key p i ≤ key q j → key p i' ≤ key q j'

/-- The order of two items does not depend on how often they have been compared. -/
def Fixed (key : α → Nat → Nat) (l : List α) : Prop :=
  ∀ p ∈ l, ∀ q ∈ l, p ≠ q → ∀ i j i' j', 1 ≤ i → 1 ≤ j → 1 ≤ i' → 1 ≤ j' →
    key p i ≤ key q j → key p i' ≤ key q j'

/-- Only one key moves, and it comes to rest where the others are. -/
def OneMoves (key : α → Nat → Nat) (l : List α) : Prop :=
  ∃ x ∈ l, ∃ v, (∀ y ∈ l, y ≠ x → ∀ k, key y k = v) ∧ ∃ n, ∀ k, n ≤ k → key x k = v

/-- The keys move in harmony. -/
structure Harmony (key : α → Nat → Nat) (l : List α) : Prop where
  two : ∀ p ∈ l, ∀ q ∈ l, p ≠ q → (∀ r ∈ l, r = p ∨ r = q) → Lasting key p q
  more : ∀ p ∈ l, ∀ q ∈ l, ∀ r ∈ l, p ≠ q → r ≠ p → r ≠ q → Fixed key l ∨ OneMoves key l

section Settle

variable {key : α → Nat → Nat} {rest : α → Nat}

/-- Once a key is where it rests, it stays there. -/
theorem Settling.stays (h : Settling key rest) {x : α} {i k : Nat} (hik : i ≤ k)
    (hi : key x i = rest x) : key x k = rest x := by
  obtain ⟨n, hn⟩ := h.settles x
  have hlast : key x (max n k) = rest x := hn _ (le_max_left n k)
  rcases h.oneWay x with hmono | hanti
  · have h1 := hmono hik
    have h2 := hmono (le_max_right n k)
    omega
  · have h1 := hanti hik
    have h2 := hanti (le_max_right n k)
    omega

/-- A key below its resting place has been below it before. -/
theorem Settling.below (h : Settling key rest) {x : α} {i k : Nat} (hik : i ≤ k)
    (hk : key x k < rest x) : key x i < rest x := by
  obtain ⟨n, hn⟩ := h.settles x
  have hlast : key x (max n k) = rest x := hn _ (le_max_left n k)
  rcases h.oneWay x with hmono | hanti
  · exact (hmono hik).trans_lt hk
  · have h2 := hanti (le_max_right n k)
    omega

/-- A key above its resting place has been above it before. -/
theorem Settling.above (h : Settling key rest) {x : α} {i k : Nat} (hik : i ≤ k)
    (hk : rest x < key x k) : rest x < key x i := by
  obtain ⟨n, hn⟩ := h.settles x
  have hlast : key x (max n k) = rest x := hn _ (le_max_left n k)
  rcases h.oneWay x with hmono | hanti
  · have h2 := hmono (le_max_right n k)
    omega
  · exact hk.trans_le (hanti hik)

/-- There is a number of comparisons after which all keys of a list are at rest. -/
theorem Settling.exists_bound (h : Settling key rest) (l : List α) :
    ∃ n, ∀ x ∈ l, ∀ k, n ≤ k → key x k = rest x := by
  induction l with
  | nil => exact ⟨0, fun x hx => absurd hx (by simp)⟩
  | cons y l ih =>
    obtain ⟨n, hn⟩ := ih
    obtain ⟨m, hm⟩ := h.settles y
    refine ⟨max m n, fun x hx k hk => ?_⟩
    rcases List.mem_cons.mp hx with rfl | hx
    · exact hm k ((le_max_left m n).trans hk)
    · exact hn x hx k ((le_max_right m n).trans hk)

end Settle

variable [DecidableEq α]

/-- How often an item occurs in the questions. -/
def uses (x : α) (calls : List (α × α)) : Nat :=
  (calls.map Prod.fst).count x + (calls.map Prod.snd).count x

@[simp] theorem uses_nil (x : α) : uses x [] = 0 := rfl

@[simp] theorem uses_append (x : α) (calls calls' : List (α × α)) :
    uses x (calls ++ calls') = uses x calls + uses x calls' := by
  simp only [uses, List.map_append, List.count_append]
  omega

@[simp] theorem uses_cons (x a b : α) (calls : List (α × α)) :
    uses x ((a, b) :: calls) =
      (if a = x then 1 else 0) + (if b = x then 1 else 0) + uses x calls := by
  simp only [uses, List.map_cons, List.count_cons, beq_iff_eq]
  omega

@[simp] theorem uses_replicate (x a b : α) (n : Nat) :
    uses x (List.replicate n (a, b)) = n * ((if a = x then 1 else 0) + (if b = x then 1 else 0)) := by
  simp only [uses, List.map_replicate, List.count_replicate, beq_iff_eq]
  split <;> split <;> omega

/-- The comparison answers by the keys the two items have after it. -/
def Keyed {σ : Type} (cmp : σ → α → α → σ × Bool) (s : σ) (key : α → Nat → Nat) : Prop :=
  ∀ calls a b, (cmp (after cmp s calls) a b).2 =
    decide (key a (uses a (calls ++ [(a, b)])) ≤ key b (uses b (calls ++ [(a, b)])))

/-- The first item of the result has a least key. -/
def HeadLeast (key : α → Nat → Nat) (calls : List (α × α)) (r : List α) : Prop :=
  ∀ h, r.head? = some h → ∀ q ∈ r, key h (uses h calls) ≤ key q (uses q calls)

/-! ## 6. Keys in harmony -/

section Harmonic

variable {σ : Type} {cmp : σ → α → α → σ × Bool} {s : σ} {key : α → Nat → Nat} {rest : α → Nat}
  {l r : List α} {calls : List (α × α)}

/-- The answer to one of the questions. -/
theorem Keyed.answer (h : Keyed cmp s key) {before later : List (α × α)} {a b : α}
    (hcalls : calls = before ++ (a, b) :: later) :
    ∃ i j, uses a before < i ∧ i ≤ uses a calls ∧ uses b before < j ∧ j ≤ uses b calls ∧
      i = uses a (before ++ [(a, b)]) ∧ j = uses b (before ++ [(a, b)]) ∧
      (cmp (after cmp s before) a b).2 = decide (key a i ≤ key b j) := by
  refine ⟨_, _, ?_, ?_, ?_, ?_, rfl, rfl, h before a b⟩
  · simp
  · simp [hcalls]
  · simp
  · simp [hcalls]

/-- Questions about two items use the two an even number of times. -/
theorem even_uses {x y : α} (hxy : x ≠ y) : ∀ calls : List (α × α),
    (∀ c ∈ calls, (c.1 = x ∨ c.1 = y) ∧ (c.2 = x ∨ c.2 = y)) →
      uses x calls % 2 = uses y calls % 2 := by
  intro calls
  induction calls with
  | nil => simp
  | cons c calls ih =>
    intro h
    have hrest := ih fun d hd => h d (List.mem_cons_of_mem c hd)
    obtain ⟨a, b⟩ := c
    have hab := h (a, b) List.mem_cons_self
    dsimp only at hab
    obtain ⟨ha, hb⟩ := hab
    rcases ha with rfl | rfl <;> rcases hb with rfl | rfl <;>
      simp [hxy, hxy.symm] <;> omega

/-- Two items. -/
theorem Possible.headLeast_two (h : Possible cmp s l calls r) (hkey : Keyed cmp s key) {x y : α}
    (hx : r.head? = some x) (hy : y ∈ r) (hxy : x ≠ y) (hl : ∀ z ∈ l, z = x ∨ z = y)
    (hlasting : Lasting key x y) : key x (uses x calls) ≤ key y (uses y calls) := by
  by_contra hlt
  have heven : ∀ cs : List (α × α), (∀ c ∈ cs, c ∈ calls) → uses x cs % 2 = uses y cs % 2 := by
    intro cs hcs
    refine even_uses hxy cs fun c hc => ?_
    obtain ⟨h1, h2⟩ := h.members c (hcs c hc)
    exact ⟨hl _ h1, hl _ h2⟩
  -- no answer says that `x` is at most `y`, so `y` could be strictly below it
  have hnever : ∀ i j, 1 ≤ i → i ≤ uses x calls → 1 ≤ j → j ≤ uses y calls → i % 2 = j % 2 →
      ¬ key x i ≤ key y j := by
    intro i j h1 h2 h3 h4 hpar hle
    exact hlt (hlasting i j _ _ h1 h2 h3 h4 hpar (heven calls fun _ hc => hc) hle)
  have hagrees : Agrees cmp s (atBottom y fun _ _ => true) calls := by
    intro before a b later hcalls
    obtain ⟨i, j, hi, hi', hj, hj', hie, hje, hanswer⟩ := hkey.answer hcalls
    rw [hanswer]
    have hmem : (a, b) ∈ calls := by simp [hcalls]
    have hprefix : ∀ c ∈ before ++ [(a, b)], c ∈ calls := by
      intro c hc
      rw [hcalls]
      simp only [List.mem_append, List.mem_cons, List.not_mem_nil, or_false] at hc ⊢
      tauto
    obtain ⟨ha, hb⟩ := h.members _ hmem
    have hpar := heven _ hprefix
    rcases hl a ha with rfl | rfl <;> rcases hl b hb with rfl | rfl
    · simp [hie, hje, atBottom, hxy]
    · have hn := hnever i j (by omega) hi' (by omega) hj' (by omega)
      simp [atBottom, hn, hxy]
    · have hn := hnever j i (by omega) hj' (by omega) hi' (by omega)
      simp only [atBottom, decide_true, Bool.true_or, decide_eq_true_eq]
      omega
    · simp [hie, hje, atBottom]
  have hbad := h.head_le (totalPreorder_true.atBottom y) hagrees hx hy hxy
  simp [atBottom, hxy] at hbad

/-- A fixed order. -/
theorem Possible.headLeast_fixed (h : Possible cmp s l calls r) (hkey : Keyed cmp s key)
    (hsettling : Settling key rest) {x y : α} (hx : r.head? = some x) (hy : y ∈ r) (hxy : x ≠ y)
    (hfixed : Fixed key l) : key x (uses x calls) ≤ key y (uses y calls) := by
  have hxl : x ∈ l := h.perm.mem_iff.mp (List.mem_of_mem_head? hx)
  have hyl : y ∈ l := h.perm.mem_iff.mp hy
  -- the order is the one of the resting places
  obtain ⟨n, hn⟩ := hsettling.exists_bound l
  have hrest : ∀ a ∈ l, ∀ b ∈ l, a ≠ b → ∀ i j, 1 ≤ i → 1 ≤ j →
      (key a i ≤ key b j ↔ rest a ≤ rest b) := by
    intro a ha b hb hab i j hi hj
    rw [← hn a ha (n + 1) (by omega), ← hn b hb (n + 1) (by omega)]
    exact ⟨hfixed a ha b hb hab i j _ _ hi hj (by omega) (by omega),
      hfixed a ha b hb hab _ _ i j (by omega) (by omega) hi hj⟩
  have hagrees : Agrees cmp s (fun a b => decide (rest a ≤ rest b)) calls := by
    intro before a b later hcalls
    obtain ⟨i, j, hi, -, hj, -, hie, hje, hanswer⟩ := hkey.answer hcalls
    rw [hanswer]
    obtain ⟨ha, hb⟩ := h.members (a, b) (by simp [hcalls])
    by_cases hab : a = b
    · subst hab
      simp [hie, hje]
    · exact decide_eq_decide.mpr (hrest a ha b hb hab i j (by omega) (by omega))
  have hle := totalPreorder_key rest
  -- an item that has not been compared could be anywhere
  have hunused : ∀ {z : α}, uses z calls = 0 → ∀ a b, (a, b) ∈ calls → a ≠ z ∧ b ≠ z := by
    intro z hz a b hab
    constructor
    · rintro rfl
      have hpos : 0 < (calls.map Prod.fst).count a :=
        List.count_pos_iff.mpr (List.mem_map.mpr ⟨_, hab, rfl⟩)
      simp only [uses] at hz
      omega
    · rintro rfl
      have hpos : 0 < (calls.map Prod.snd).count b :=
        List.count_pos_iff.mpr (List.mem_map.mpr ⟨_, hab, rfl⟩)
      simp only [uses] at hz
      omega
  rcases Nat.eq_zero_or_pos (uses x calls) with hux | hux
  · have htop : Agrees cmp s (atTop x fun a b => decide (rest a ≤ rest b)) calls := by
      intro before a b later hcalls
      obtain ⟨ha, hb⟩ := hunused hux a b (by simp [hcalls])
      rw [hagrees before a b later hcalls]
      simp [atTop, ha, hb]
    have hbad := h.head_le (hle.atTop x) htop hx hy hxy
    simp [atTop, Ne.symm hxy] at hbad
  · rcases Nat.eq_zero_or_pos (uses y calls) with huy | huy
    · have hbottom : Agrees cmp s (atBottom y fun a b => decide (rest a ≤ rest b)) calls := by
        intro before a b later hcalls
        obtain ⟨ha, hb⟩ := hunused huy a b (by simp [hcalls])
        rw [hagrees before a b later hcalls]
        simp [atBottom, ha, hb]
      have hbad := h.head_le (hle.atBottom y) hbottom hx hy hxy
      simp [atBottom, hxy] at hbad
    · have hxy' := h.head_le hle hagrees hx hy hxy
      exact (hrest x hxl y hyl hxy _ _ hux huy).mpr (by simpa using hxy')

/-- One key that moves. -/
theorem Possible.headLeast_oneMoves (h : Possible cmp s l calls r) (hkey : Keyed cmp s key)
    (hsettling : Settling key rest) {x y : α} (hx : r.head? = some x) (hy : y ∈ r) (hxy : x ≠ y)
    (hone : OneMoves key l) : key x (uses x calls) ≤ key y (uses y calls) := by
  have hxl : x ∈ l := h.perm.mem_iff.mp (List.mem_of_mem_head? hx)
  have hyl : y ∈ l := h.perm.mem_iff.mp hy
  obtain ⟨z, hz, v, hothers, n, hn⟩ := hone
  have hv : rest z = v := by
    obtain ⟨m, hm⟩ := hsettling.settles z
    rw [← hm (max m n) (le_max_left m n), hn (max m n) (le_max_right m n)]
  by_contra hlt
  by_cases hxz : x = z
  · subst hxz
    rw [hothers y hyl (Ne.symm hxy), not_le, ← hv] at hlt
    have hagrees : Agrees cmp s (atTop x fun _ _ => true) calls := by
      intro before a b later hcalls
      obtain ⟨i, j, -, hi', -, hj', hie, hje, hanswer⟩ := hkey.answer hcalls
      rw [hanswer]
      obtain ⟨ha, hb⟩ := h.members (a, b) (by simp [hcalls])
      by_cases hax : a = x <;> by_cases hbx : b = x
      · subst hax
        subst hbx
        simp [hie, hje, atTop]
      · subst hax
        have habove := hsettling.above hi' hlt
        simp only [atTop, hothers b hb hbx, hbx]
        simp
        omega
      · subst hbx
        have habove := hsettling.above hj' hlt
        simp only [atTop, hothers a ha hax]
        simp
        omega
      · simp [atTop, hothers a ha hax, hothers b hb hbx, hax]
    have hbad := h.head_le (totalPreorder_true.atTop x) hagrees hx hy hxy
    simp [atTop, Ne.symm hxy] at hbad
  · rw [hothers x hxl hxz] at hlt
    by_cases hyz : y = z
    · subst hyz
      rw [not_le, ← hv] at hlt
      have hagrees : Agrees cmp s (atBottom y fun _ _ => true) calls := by
        intro before a b later hcalls
        obtain ⟨i, j, -, hi', -, hj', hie, hje, hanswer⟩ := hkey.answer hcalls
        rw [hanswer]
        obtain ⟨ha, hb⟩ := h.members (a, b) (by simp [hcalls])
        by_cases hay : a = y <;> by_cases hby : b = y
        · subst hay
          subst hby
          simp [hie, hje, atBottom]
        · subst hay
          have hbelow := hsettling.below hi' hlt
          simp only [atBottom, hothers b hb hby]
          simp
          omega
        · subst hby
          have hbelow := hsettling.below hj' hlt
          simp only [atBottom, hothers a ha hay, hay]
          simp
          omega
        · simp [atBottom, hothers a ha hay, hothers b hb hby, hby]
      have hbad := h.head_le (totalPreorder_true.atBottom y) hagrees hx hy hxy
      simp [atBottom, hxy] at hbad
    · rw [hothers y hyl hyz] at hlt
      exact hlt le_rfl

/-- **With keys in harmony the first item has a least key.** -/
theorem Possible.headLeast (h : Possible cmp s l calls r) (hkey : Keyed cmp s key)
    (hsettling : Settling key rest) (hharmony : Harmony key l) : HeadLeast key calls r := by
  intro x hx y hy
  have hxl : x ∈ l := h.perm.mem_iff.mp (List.mem_of_mem_head? hx)
  have hyl : y ∈ l := h.perm.mem_iff.mp hy
  by_cases hxy : x = y
  · rw [hxy]
  · by_cases hl : ∀ z ∈ l, z = x ∨ z = y
    · exact h.headLeast_two hkey hx hy hxy hl (hharmony.two x hxl y hyl hxy hl)
    · push Not at hl
      obtain ⟨z, hz, hzx, hzy⟩ := hl
      rcases hharmony.more x hxl y hyl z hz hxy hzx hzy with hfixed | hone
      · exact h.headLeast_fixed hkey hsettling hx hy hxy hfixed
      · exact h.headLeast_oneMoves hkey hsettling hx hy hxy hone

/-- Keys that do not move: the result is in order. -/
theorem Possible.pairwise_of_still (h : Possible cmp s l calls r) (hkey : Keyed cmp s key)
    {v : α → Nat} (hstill : ∀ x ∈ l, ∀ k, key x k = v x) : r.Pairwise fun a b => v a ≤ v b := by
  have hagrees : Agrees cmp s (fun a b => decide (v a ≤ v b)) calls := by
    intro before a b later hcalls
    obtain ⟨ha, hb⟩ := h.members (a, b) (by simp [hcalls])
    rw [hkey, hstill a ha, hstill b hb]
  exact (h.inOrder _ (totalPreorder_key v) hagrees).imp fun hab => by simpa using hab

/-- Keys that do not move: every arrangement in order is possible. -/
theorem exists_possible_of_still (hkey : Keyed cmp s key) {v : α → Nat}
    (hstill : ∀ x ∈ l, ∀ k, key x k = v x) (hperm : r.Perm l)
    (hsorted : r.Pairwise fun a b => v a ≤ v b) : ∃ calls, Possible cmp s l calls r := by
  -- all pairs are asked about
  refine ⟨l.product l, ?_, hperm, fun le _ hagrees => ?_⟩
  · intro c hc
    exact List.mem_product.mp hc
  · refine hsorted.imp_of_mem fun {a b} ha hb hab => ?_
    have ha' := hperm.mem_iff.mp ha
    have hb' := hperm.mem_iff.mp hb
    obtain ⟨before, later, hcalls⟩ := List.append_of_mem (List.mem_product.mpr ⟨ha', hb'⟩)
    rw [← hagrees before a b later hcalls, hkey, hstill a ha', hstill b hb']
    exact decide_eq_true hab

/-! ## 7. Keys that are not in harmony -/

/-- The list with one of its items at the front. -/
def front (x : α) (l : List α) : List α :=
  l.filter (fun y => decide (y = x)) ++ l.filter fun y => !decide (y = x)

theorem front_perm (x : α) (l : List α) : (front x l).Perm l := List.filter_append_perm _ l

theorem head?_front {x : α} (hx : x ∈ l) : (front x l).head? = some x := by
  have hin : x ∈ l.filter fun y => decide (y = x) := List.mem_filter.mpr ⟨hx, by simp⟩
  cases hf : l.filter fun y => decide (y = x) with
  | nil => simp [hf] at hin
  | cons y tail =>
    have hy : y ∈ l.filter fun z => decide (z = x) := by simp [hf]
    rw [front, hf]
    simpa using (List.mem_filter.mp hy).2

/-- Questions about two items alone that use them as often as wanted. -/
theorem exists_calls_even {p q : α} (hpq : p ≠ q) {c d : Nat} (hpar : c % 2 = d % 2) :
    ∃ calls : List (α × α), (∀ e ∈ calls, (e.1 = p ∨ e.1 = q) ∧ (e.2 = p ∨ e.2 = q)) ∧
      uses p calls = c ∧ uses q calls = d := by
  refine ⟨List.replicate (c / 2) (p, p) ++ List.replicate (d / 2) (q, q) ++
    List.replicate (c % 2) (p, q), ?_, ?_, ?_⟩
  · intro e he
    simp only [List.mem_append, List.mem_replicate] at he
    rcases he with (⟨-, rfl⟩ | ⟨-, rfl⟩) | ⟨-, rfl⟩ <;> simp
  · simp [hpq.symm]
    omega
  · simp [hpq]
    omega

/-- Questions that use every member often enough. -/
theorem le_uses_flatMap {x : α} (n : Nat) (hx : x ∈ l) :
    n ≤ uses x (l.flatMap fun z => List.replicate n (z, z)) := by
  induction l with
  | nil => simp at hx
  | cons y l ih =>
    rw [List.flatMap_cons, uses_append]
    rcases List.mem_cons.mp hx with rfl | hx
    · simp
      omega
    · exact (ih hx).trans (Nat.le_add_left _ _)

/-- With two items, an order that does not last shows. -/
theorem lasting_of_headLeast (hkey : Keyed cmp s key)
    (hleast : ∀ calls r, Possible cmp s l calls r → HeadLeast key calls r) {p q : α} (hp : p ∈ l)
    (hq : q ∈ l) (hpq : p ≠ q) (hl : ∀ r ∈ l, r = p ∨ r = q) : Lasting key p q := by
  intro i j i' j' hi hii' hj hjj' hpar hpar' hle
  -- use them until they are compared as `i` and `j`, and then until they are `i'` and `j'`
  obtain ⟨before, hbefore, hbp, hbq⟩ := @exists_calls_even _ _ _ _ hpq (i - 1) (j - 1) (by omega)
  obtain ⟨later, hlater, hlp, hlq⟩ := @exists_calls_even _ _ _ _ hpq (i' - i) (j' - j) (by omega)
  have hpossible : Possible cmp s l (before ++ (p, q) :: later) (front p l) := by
    refine ⟨?_, front_perm p l, fun le hle' hagrees => ?_⟩
    · have hin : ∀ {a : α}, a = p ∨ a = q → a ∈ l := by
        rintro a (rfl | rfl)
        · exact hp
        · exact hq
      intro c hc
      rcases List.mem_append.mp hc with hc | hc
      · exact ⟨hin (hbefore c hc).1, hin (hbefore c hc).2⟩
      · rcases List.mem_cons.mp hc with rfl | hc
        · exact ⟨hp, hq⟩
        · exact ⟨hin (hlater c hc).1, hin (hlater c hc).2⟩
    · have hrefl : ∀ a, le a a = true := fun a => (hle'.total a a).elim id id
      have hlepq : le p q = true := by
        rw [← hagrees before p q later rfl, hkey before p q]
        simp only [uses_append, uses_cons, uses_nil, hbp, hbq, ↓reduceIte, if_neg hpq,
          if_neg hpq.symm, decide_eq_true_eq]
        have h1 : i - 1 + (1 + 0 + 0) = i := by omega
        have h2 : j - 1 + (0 + 1 + 0) = j := by omega
        rw [h1, h2]
        exact hle
      refine List.pairwise_append.mpr ⟨?_, ?_, ?_⟩
      · refine List.pairwise_of_forall_mem_list fun a ha b hb => ?_
        rw [of_decide_eq_true (List.mem_filter.mp ha).2, of_decide_eq_true (List.mem_filter.mp hb).2]
        exact hrefl p
      · refine List.pairwise_of_forall_mem_list fun a ha b hb => ?_
        have hother : ∀ c ∈ l.filter (fun y => !decide (y = p)), c = q := by
          intro c hc
          obtain ⟨hc, hcp⟩ := List.mem_filter.mp hc
          exact (hl c hc).resolve_left (by simpa using hcp)
        rw [hother a ha, hother b hb]
        exact hrefl q
      · intro a ha b hb
        obtain ⟨hb, hbp⟩ := List.mem_filter.mp hb
        rw [of_decide_eq_true (List.mem_filter.mp ha).2,
          (hl b hb).resolve_left (by simpa using hbp)]
        exact hlepq
  have hfinal := hleast _ _ hpossible p (head?_front hp) q ((front_perm p l).mem_iff.mpr hq)
  simp only [uses_append, uses_cons, hbp, hbq, hlp, hlq, ↓reduceIte, if_neg hpq,
    if_neg hpq.symm] at hfinal
  have h1 : i - 1 + (1 + 0 + (i' - i)) = i' := by omega
  have h2 : j - 1 + (0 + 1 + (j' - j)) = j' := by omega
  rwa [h1, h2] at hfinal

/-- With a third item, an order that changes shows, unless all keys come to rest at one value. -/
theorem rest_eq_of_headLeast (hkey : Keyed cmp s key) (hsettling : Settling key rest)
    (hleast : ∀ calls r, Possible cmp s l calls r → HeadLeast key calls r) {p q w : α} (hp : p ∈ l)
    (hq : q ∈ l) (hw : w ∈ l) (hpq : p ≠ q) (hwp : w ≠ p) (hwq : w ≠ q) {i j : Nat} (hi : 1 ≤ i)
    (hj : 1 ≤ j) (hchange : ¬ (key p i ≤ key q j ↔ rest p ≤ rest q)) :
    ∀ x ∈ l, ∀ y ∈ l, rest x ≤ rest y := by
  intro x hx y hy
  obtain ⟨n, hn⟩ := hsettling.exists_bound l
  let before := List.replicate (i - 1) (p, w) ++ List.replicate (j - 1) (q, w)
  let settle := l.flatMap fun z => List.replicate n (z, z)
  have hmem : ∀ c ∈ before ++ (p, q) :: (settle ++ [(p, q)]), c.1 ∈ l ∧ c.2 ∈ l := by
    intro c hc
    simp only [before, settle, List.mem_append, List.mem_replicate, List.mem_cons, List.mem_flatMap,
      List.not_mem_nil, or_false] at hc
    rcases hc with (⟨-, rfl⟩ | ⟨-, rfl⟩) | rfl | ⟨z, hz, -, rfl⟩ | rfl
    · exact ⟨hp, hw⟩
    · exact ⟨hq, hw⟩
    · exact ⟨hp, hq⟩
    · exact ⟨hz, hz⟩
    · exact ⟨hp, hq⟩
  -- in the end all keys are at rest
  have hrest : ∀ z ∈ l, ∀ later, key z (uses z (before ++ (p, q) :: (settle ++ later))) = rest z := by
    intro z hz later
    refine hn z hz _ ((le_uses_flatMap n hz).trans ?_)
    simp only [uses_append, uses_cons, settle]
    omega
  have hfirst : (cmp (after cmp s before) p q).2 = decide (key p i ≤ key q j) := by
    rw [hkey before p q]
    simp [before, hpq, hpq.symm, hwp, hwq, Nat.sub_add_cancel hi, Nat.sub_add_cancel hj]
  have hsecond : (cmp (after cmp s (before ++ (p, q) :: settle)) p q).2 =
      decide (rest p ≤ rest q) := by
    have happ : before ++ (p, q) :: settle ++ [(p, q)] = before ++ (p, q) :: (settle ++ [(p, q)]) := by
      simp
    rw [hkey, happ, hrest p hp, hrest q hq]
  have hpossible : Possible cmp s l (before ++ (p, q) :: (settle ++ [(p, q)])) (front x l) := by
    refine possible_of_clash hmem (front_perm x l) rfl
      (show _ = (before ++ (p, q) :: settle) ++ (p, q) :: [] by simp) ?_
    rw [hfirst, hsecond]
    exact fun heq => hchange (decide_eq_decide.mp heq)
  have hfinal := hleast _ _ hpossible x (head?_front hx) y ((front_perm x l).mem_iff.mpr hy)
  rwa [hrest x hx, hrest y hy] at hfinal

/-- With a third item, and all keys coming to rest at one value: if one of them is still on its way
after a comparison, no other moves. -/
theorem still_of_headLeast (hkey : Keyed cmp s key) (hsettling : Settling key rest)
    (hleast : ∀ calls r, Possible cmp s l calls r → HeadLeast key calls r) {v : Nat}
    (hv : ∀ z ∈ l, rest z = v) {x y w : α} (hx : x ∈ l) (hy : y ∈ l) (hw : w ∈ l) (hxy : x ≠ y)
    (hwx : w ≠ x) (hwy : w ≠ y) (hmoves : key x 1 ≠ v) : key y 0 = v := by
  obtain ⟨n, hn⟩ := hsettling.exists_bound l
  -- the two are compared at once, and again when `x` is at rest too; `y` is left out
  let question := if v < key x 1 then (x, w) else (w, x)
  let before := List.replicate n (w, w)
  let settle := List.replicate n (x, x)
  have hquestion : question = (x, w) ∨ question = (w, x) := by
    simp only [question]
    split
    · exact Or.inl rfl
    · exact Or.inr rfl
  have hmem : ∀ c ∈ before ++ question :: (settle ++ [question]), c.1 ∈ l ∧ c.2 ∈ l := by
    intro c hc
    simp only [before, settle, List.mem_append, List.mem_replicate, List.mem_cons,
      List.not_mem_nil, or_false] at hc
    have hq : question.1 ∈ l ∧ question.2 ∈ l := by
      rcases hquestion with h | h <;> rw [h]
      · exact ⟨hx, hw⟩
      · exact ⟨hw, hx⟩
    rcases hc with ⟨-, rfl⟩ | rfl | ⟨-, rfl⟩ | rfl
    · exact ⟨hw, hw⟩
    · exact hq
    · exact ⟨hx, hx⟩
    · exact hq
  have hux : ∀ cs, uses x (before ++ question :: cs) = 1 + uses x cs := by
    intro cs
    rcases hquestion with h | h <;> simp [h, before, hwx]
  have huw : ∀ cs, n ≤ uses w (before ++ question :: cs) := by
    intro cs
    simp [before]
    omega
  have hyless : uses y (before ++ question :: (settle ++ [question])) = 0 := by
    rcases hquestion with h | h <;> simp [h, before, settle, hwy, hxy]
  have hclash : (cmp (after cmp s before) question.1 question.2).2 ≠
      (cmp (after cmp s (before ++ question :: settle)) question.1 question.2).2 := by
    have happ : before ++ question :: settle ++ [question] =
        before ++ question :: (settle ++ [question]) := by simp
    have hkx : key x (uses x (before ++ question :: (settle ++ [question]))) = v := by
      rw [hux, ← hv x hx]
      refine hn x hx _ ?_
      simp [settle]
      omega
    have hkw : ∀ cs, key w (uses w (before ++ question :: cs)) = v := by
      intro cs
      rw [← hv w hw]
      exact hn w hw _ (huw cs)
    have hkx1 : key x (uses x (before ++ [question])) = key x 1 := by
      rw [hux, uses_nil]
    rw [hkey before, hkey (before ++ question :: settle), happ]
    rcases Nat.lt_or_ge v (key x 1) with hlt | hge
    · have hq : question = (x, w) := if_pos hlt
      rw [hq] at hkx hkw hkx1 ⊢
      simp only [hkx, hkw, hkx1]
      simp
      omega
    · have hq : question = (w, x) := if_neg (by omega)
      rw [hq] at hkx hkw hkx1 ⊢
      simp only [hkx, hkw, hkx1]
      simp
      omega
  have hpossible : ∀ z, Possible cmp s l (before ++ question :: (settle ++ [question])) (front z l) :=
    fun z => possible_of_clash hmem (front_perm z l) rfl
      (show _ = (before ++ question :: settle) ++ question :: [] by simp) hclash
  have hkx : key x (uses x (before ++ question :: (settle ++ [question]))) = v := by
    rw [hux, ← hv x hx]
    refine hn x hx _ ?_
    simp [settle]
    omega
  have h1 := hleast _ _ (hpossible x) x (head?_front hx) y ((front_perm x l).mem_iff.mpr hy)
  have h2 := hleast _ _ (hpossible y) y (head?_front hy) x ((front_perm y l).mem_iff.mpr hx)
  rw [hkx, hyless] at h1
  rw [hkx, hyless] at h2
  omega

/-- **When the first item always has a least key, the keys are in harmony.** -/
theorem harmony_of_headLeast (hkey : Keyed cmp s key) (hsettling : Settling key rest)
    (hleast : ∀ calls r, Possible cmp s l calls r → HeadLeast key calls r) : Harmony key l := by
  constructor
  · exact fun p hp q hq hpq hl => lasting_of_headLeast hkey hleast hp hq hpq hl
  · intro a ha b hb c hc hab hca hcb
    by_cases hfixed : Fixed key l
    · exact Or.inl hfixed
    · refine Or.inr ?_
      -- among three items there is one beside any two
      have hthird : ∀ p q, ∃ w ∈ l, w ≠ p ∧ w ≠ q := by
        intro p q
        by_cases h1 : a ≠ p ∧ a ≠ q
        · exact ⟨a, ha, h1⟩
        · by_cases h2 : b ≠ p ∧ b ≠ q
          · exact ⟨b, hb, h2⟩
          · refine ⟨c, hc, ?_⟩
            have hc' : (a = p ∨ a = q) ∧ (b = p ∨ b = q) := by tauto
            rcases hc' with ⟨rfl | rfl, rfl | rfl⟩ <;> simp_all
      unfold Fixed at hfixed
      push Not at hfixed
      obtain ⟨p, hp, q, hq, hpq, i, j, i', j', hi, hj, hi', hj', hle, hlt⟩ := hfixed
      obtain ⟨w, hw, hwp, hwq⟩ := hthird p q
      have hequal : ∀ x ∈ l, ∀ y ∈ l, rest x ≤ rest y := by
        by_cases hrest : rest p ≤ rest q
        · exact rest_eq_of_headLeast hkey hsettling hleast hp hq hw hpq hwp hwq hi' hj'
            fun h => absurd (h.mpr hrest) (by omega)
        · exact rest_eq_of_headLeast hkey hsettling hleast hp hq hw hpq hwp hwq hi hj
            fun h => hrest (h.mp hle)
      have hv : ∀ z ∈ l, rest z = rest p :=
        fun z hz => le_antisymm (hequal z hz p hp) (hequal p hp z hz)
      -- `p` or `q` is still on its way after one comparison
      have hmoves : ∃ x ∈ l, key x 1 ≠ rest p := by
        by_contra hnone
        push Not at hnone
        have hstill : ∀ z ∈ l, ∀ k, 1 ≤ k → key z k = rest p := by
          intro z hz k hk
          rw [← hv z hz]
          exact hsettling.stays hk ((hnone z hz).trans (hv z hz).symm)
        rw [hstill p hp i' hi', hstill q hq j' hj'] at hlt
        exact absurd hlt (lt_irrefl _)
      obtain ⟨x, hx, hmove⟩ := hmoves
      refine ⟨x, hx, rest p, fun y hy hyx k => ?_, ?_⟩
      · obtain ⟨w', hw', hwx, hwy⟩ := hthird x y
        have hzero := still_of_headLeast hkey hsettling hleast hv hx hy hw' (Ne.symm hyx) hwx hwy hmove
        rw [← hv y hy]
        exact hsettling.stays (Nat.zero_le k) (hzero.trans (hv y hy).symm)
      · obtain ⟨n, hn⟩ := hsettling.settles x
        exact ⟨n, fun k hk => (hn k hk).trans (hv x hx)⟩

/-- **The first item of the result has a least key, whatever a sort does with the comparison, if and
only if the keys move in harmony.** -/
theorem headLeast_iff (hkey : Keyed cmp s key) (hsettling : Settling key rest) (l : List α) :
    (∀ calls r, Possible cmp s l calls r → HeadLeast key calls r) ↔ Harmony key l :=
  ⟨harmony_of_headLeast hkey hsettling,
    fun hharmony _ _ hpossible => hpossible.headLeast hkey hsettling hharmony⟩

end Harmonic

end Keys

end Tpso.Lib
