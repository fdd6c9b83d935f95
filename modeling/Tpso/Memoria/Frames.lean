/-
# The lists that are handed out of the two bitmaps

`frame_manager.c` keeps the frames of user space and `swap_manager.c` the slots of the swap file, each as a
bitmap and a count of the free ones.  A list that was handed out is OUTSTANDING until it is given back.

The count is what makes the scan find enough: a request is refused by the count alone, and the scan of the
bitmap is expected to come up with as many clear bits as were asked for.  So the count has to be right in
every state that allocations and releases lead to, from whatever bitmap they start.
-/
import Tpso.Lib.Run
import Tpso.Memoria.State

namespace Tpso.Memoria

open Tpso.Lib

/-! ## 1. The functions of the two managers -/

/-- The two bitmaps of memoria. -/
inductive Space where
  | user
  | swap
  deriving DecidableEq

/-- The bitmap of a space, with its total and its count. -/
def State.bitmap (s : State) : Space → BitAlloc
  | .user => s.frames
  | .swap => s.swapFrames

/-- A bitmap is stored. -/
def State.setBitmap (s : State) : Space → BitAlloc → State
  | .user, a => { s with frames := a }
  | .swap, a => { s with swapFrames := a }

/-- The body that the two allocation functions have in common. -/
def allocateIn (sp : Space) (s : State) (pagesNeeded : Int) : Option (List Nat) × State :=
  match (s.bitmap sp).alloc pagesNeeded with
  | none => (none, s)
  | some (l, a) => (some l, s.setBitmap sp a)

/-- `allocate_frames`. -/
def allocateFrames (s : State) (pagesNeeded : Int) : Option (List Nat) × State :=
  allocateIn .user s pagesNeeded

/-- `swap_allocate_frames`. -/
def swapAllocateFrames (s : State) (pagesNeeded : Int) : Option (List Nat) × State :=
  allocateIn .swap s pagesNeeded

/-- The body that the two release functions have in common. -/
def releaseIn (sp : Space) (s : State) (frameList : List Nat) : Option State :=
  ((s.bitmap sp).release frameList).map (s.setBitmap sp)

/-- `release_frames`. -/
def releaseFrames (s : State) (frameList : List Nat) : Option State := releaseIn .user s frameList

/-- `swap_release_frames`, which returns at once when there is no list. -/
def swapReleaseFrames (s : State) : Option (List Nat) → Option State
  | none => some s
  | some frameList => releaseIn .swap s frameList

/-- The allocation function of a space. -/
def allocate : Space → State → Int → Option (List Nat) × State
  | .user => allocateFrames
  | .swap => swapAllocateFrames

/-- The release function of a space, for a list. -/
def giveBack : Space → State → List Nat → Option State
  | .user, s, l => releaseFrames s l
  | .swap, s, l => swapReleaseFrames s (some l)

section Spaces

variable {s : State} {sp other : Space} {a : BitAlloc} {l : List Nat} {m : Int}

@[simp] theorem State.bitmap_setBitmap : (s.setBitmap sp a).bitmap sp = a := by
  cases sp <;> rfl

/-- The other bitmap is another. -/
theorem State.bitmap_setBitmap_of_ne (hne : other ≠ sp) :
    (s.setBitmap sp a).bitmap other = s.bitmap other := by
  cases sp <;> cases other <;> first | rfl | exact absurd rfl hne

theorem allocate_eq : allocate sp s m = allocateIn sp s m := by
  cases sp <;> rfl

theorem giveBack_eq : giveBack sp s l = releaseIn sp s l := by
  cases sp <;> rfl

/-- An allocation, by its result. -/
theorem allocate_cases (sp : Space) (s : State) (m : Int) :
    (allocate sp s m = (none, s) ∧ (s.bitmap sp).alloc m = none) ∨
    ∃ l a, allocate sp s m = (some l, s.setBitmap sp a) ∧ (s.bitmap sp).alloc m = some (l, a) := by
  rw [allocate_eq]
  unfold allocateIn
  split
  · rename_i hnone
    exact Or.inl ⟨rfl, hnone⟩
  · rename_i l a hsome
    exact Or.inr ⟨l, a, rfl, hsome⟩

end Spaces

/-! ## 2. Lists that are outstanding -/

/-- Memoria, and the lists of each space that were handed out and not given back. -/
structure Lent where
  memoria : State
  lists : Space → List (List Nat)

/-- A request, or the return of a list. -/
inductive FrameAction where
  | allocate (sp : Space) (pagesNeeded : Int)
  | release (sp : Space) (frameList : List Nat)

/-- One step: only a list that is outstanding is given back. -/
def Lent.step (h : Lent) : FrameAction → Option Lent
  | .allocate sp m =>
    let r := allocate sp h.memoria m
    some ⟨r.2, Function.update h.lists sp (r.1.toList ++ h.lists sp)⟩
  | .release sp l =>
    if l ∈ h.lists sp then
      (giveBack sp h.memoria l).map fun s => ⟨s, Function.update h.lists sp ((h.lists sp).erase l)⟩
    else none

/-- Allocations and releases in any order, on both spaces, from any state. -/
def lending (h₀ : Lent) : Lts Lent FrameAction := Lts.ofStep h₀ Lent.step

/-- The count is the number of clear bits, and the outstanding lists hold slots that are taken, each once. -/
structure InStep (a : BitAlloc) (lists : List (List Nat)) : Prop where
  counted : a.free = a.clear.length
  holds : a.Holds lists.flatten

/-- `frame_allocation_init` starts in step, with nothing outstanding. -/
theorem inStep_start (cfg : Config) (sp : Space) : InStep ((State.start cfg).bitmap sp) [] := by
  cases sp with
  | user => exact ⟨(BitAlloc.owns_empty _).free_eq, (BitAlloc.owns_empty _).holds⟩
  | swap => exact ⟨(BitAlloc.owns_empty _).free_eq, (BitAlloc.owns_empty _).holds⟩

section Lending

variable {h h' h₀ : Lent} {sp : Space} {a a' : BitAlloc} {lists : List (List Nat)} {l : List Nat} {m : Int}
  {tr : List (Transition Lent FrameAction)}

/-- A list that is handed out. -/
theorem InStep.alloc (hi : InStep a lists) (ha : a.alloc m = some (l, a')) : InStep a' (l :: lists) where
  counted := (BitAlloc.alloc_takesLowest hi.counted ha).counted
  holds := hi.holds.alloc ha

/-- Any of the lists can be put first. -/
theorem InStep.perm (hi : InStep a lists) (hl : l ∈ lists) : a.Holds (l ++ (lists.erase l).flatten) :=
  hi.holds.perm (List.perm_cons_erase hl).flatten

/-- The slots of one list. -/
theorem InStep.held (hi : InStep a lists) (hl : l ∈ lists) : a.Holds l :=
  (hi.perm hl).sublist (List.sublist_append_left _ _)

/-- A list that is given back. -/
theorem InStep.release (hi : InStep a lists) (hl : l ∈ lists) :
    ∃ a', a.release l = some a' ∧ a.ClearsExactly l a' ∧ InStep a' (lists.erase l) := by
  obtain ⟨a', hr, hclears⟩ := BitAlloc.release_clearsExactly hi.counted (hi.held hl)
  exact ⟨a', hr, hclears, hclears.counted, (hi.perm hl).release hr⟩

/-- A step on one space leaves the other as it was. -/
theorem InStep.update {s : State} {lists : Space → List (List Nat)} {target : Space} {a : BitAlloc}
    {o : List (List Nat)} (hi : ∀ sp, InStep (s.bitmap sp) (lists sp)) (hat : InStep a o) (sp : Space) :
    InStep ((s.setBitmap target a).bitmap sp) (Function.update lists target o sp) := by
  by_cases hsp : sp = target
  · subst hsp
    rw [State.bitmap_setBitmap, Function.update_self]
    exact hat
  · rw [State.bitmap_setBitmap_of_ne hsp, Function.update_of_ne hsp]
    exact hi sp

/-- **A step keeps both bitmaps in step with what is outstanding.** -/
theorem Lent.step_inStep (hi : ∀ sp, InStep (h.memoria.bitmap sp) (h.lists sp)) {x : FrameAction}
    (hstep : h.step x = some h') : ∀ sp, InStep (h'.memoria.bitmap sp) (h'.lists sp) := by
  cases x with
  | allocate target m =>
    rcases allocate_cases target h.memoria m with ⟨heq, -⟩ | ⟨l, a, heq, halloc⟩
    · simp only [Lent.step, heq, Option.toList_none, List.nil_append, Function.update_eq_self,
        Option.some.injEq] at hstep
      rw [← hstep]
      exact hi
    · simp only [Lent.step, heq, Option.toList_some, List.singleton_append, Option.some.injEq] at hstep
      rw [← hstep]
      exact InStep.update hi ((hi target).alloc halloc)
  | release target l =>
    simp only [Lent.step] at hstep
    split at hstep
    · rename_i hl
      obtain ⟨s, hback, rfl⟩ := Option.map_eq_some_iff.mp hstep
      obtain ⟨a, hr, -, hin⟩ := (hi target).release hl
      rw [giveBack_eq, releaseIn, hr, Option.map_some, Option.some.injEq] at hback
      rw [← hback]
      exact InStep.update hi hin
    · exact absurd hstep (by simp)

/-! ## 3. The specification -/

/-- What a state does with requests and with the lists that are outstanding: a request is refused exactly when
it exceeds the count, and then nothing changes; otherwise it is met with the lowest clear slots.  Any
outstanding list can be given back, which clears exactly its bits, and no two of them share a slot. -/
structure Serves (h : Lent) (sp : Space) : Prop where
  counted : (h.memoria.bitmap sp).free = (h.memoria.bitmap sp).clear.length
  refused : ∀ m, (allocate sp h.memoria m).1 = none ↔ (h.memoria.bitmap sp).free < m
  unchanged : ∀ m, (allocate sp h.memoria m).1 = none → (allocate sp h.memoria m).2 = h.memoria
  given : ∀ m l, (allocate sp h.memoria m).1 = some l →
    ∃ a, (allocate sp h.memoria m).2 = h.memoria.setBitmap sp a ∧
      (h.memoria.bitmap sp).TakesLowest m l a
  givenBack : ∀ l ∈ h.lists sp, ∃ a, giveBack sp h.memoria l = some (h.memoria.setBitmap sp a) ∧
    (h.memoria.bitmap sp).ClearsExactly l a
  disjoint : (h.lists sp).Pairwise List.Disjoint

/-- The outstanding lists share no slot. -/
theorem InStep.disjoint (hi : InStep a lists) : lists.Pairwise List.Disjoint :=
  (List.nodup_flatten.mp hi.holds.nodup).2

/-- A state that is in step serves. -/
theorem serves_of_inStep (hi : InStep (h.memoria.bitmap sp) (h.lists sp)) : Serves h sp where
  counted := hi.counted
  refused m := by
    rw [← BitAlloc.alloc_eq_none_iff]
    rcases allocate_cases sp h.memoria m with ⟨heq, hnone⟩ | ⟨l, a, heq, hsome⟩
    · rw [heq]
      exact iff_of_true rfl hnone
    · rw [heq, hsome]
      exact iff_of_false (by simp) (by simp)
  unchanged m hnone := by
    rcases allocate_cases sp h.memoria m with ⟨heq, -⟩ | ⟨l, a, heq, -⟩
    · rw [heq]
    · rw [heq] at hnone
      exact absurd hnone (by simp)
  given m l hgiven := by
    rcases allocate_cases sp h.memoria m with ⟨heq, -⟩ | ⟨l', a, heq, hsome⟩
    · rw [heq] at hgiven
      exact absurd hgiven (by simp)
    · rw [heq] at hgiven
      obtain rfl := Option.some.inj hgiven
      exact ⟨a, by rw [heq], BitAlloc.alloc_takesLowest hi.counted hsome⟩
  givenBack l hl := by
    obtain ⟨a, hr, hclears, -⟩ := hi.release hl
    exact ⟨a, by rw [giveBack_eq, releaseIn, hr, Option.map_some], hclears⟩
  disjoint := hi.disjoint

/-- **The frame allocators serve in every state.**  From any totals and bitmaps with true counts, and any
lists of taken slots that are outstanding, allocations of any size and releases of outstanding lists, in any
order and on both spaces, lead only to states that serve. -/
theorem serves_run (h0 : ∀ sp, InStep (h₀.memoria.bitmap sp) (h₀.lists sp)) (hr : (lending h₀).Run tr h) :
    ∀ sp, Serves h sp := by
  have hinv : ∀ sp, InStep (h.memoria.bitmap sp) (h.lists sp) := by
    induction hr with
    | start hinit =>
      obtain rfl := hinit
      exact h0
    | step _ hst ih => exact Lent.step_inStep ih hst
  exact fun sp => serves_of_inStep (hinv sp)

end Lending

/-- Four frames, the second of which is taken, and an empty swap file. -/
def someLent : Lent where
  memoria :=
    { frames := ⟨4, fun f => decide (f = 1), 3⟩
      swapFrames := BitAlloc.empty swapInitialFrames
      userSpace := fun _ => 0
      swapFile := ⟨0, fun _ => 0⟩
      nextTableId := 1
      processes := [] }
  lists := fun _ => []

/-- The theorem at work: the first list is given back while the second is outstanding, and its frames go
out again. -/
theorem serves_run_again :
    ∃ tr h, (lending someLent).Run tr h ∧ h.lists .user = [[0, 2], [3]] ∧ h.lists .swap = [[0]] ∧
      ∀ sp, Serves h sp := by
  obtain ⟨tr, h, hrun, htest⟩ := Lts.exists_run_of_drive someLent Lent.step
    [.allocate .user 2, .allocate .user 1, .allocate .swap 1, .release .user [0, 2], .allocate .user 4,
      .allocate .user 2]
    (fun _ h => decide (h.lists .user = [[0, 2], [3]]) && decide (h.lists .swap = [[0]]))
    (by decide +kernel)
  simp only [Bool.and_eq_true, decide_eq_true_eq] at htest
  refine ⟨tr, h, hrun, htest.1, htest.2, serves_run (fun sp => ?_) hrun⟩
  cases sp with
  | user => exact ⟨by decide, List.nodup_nil, fun _ hf => absurd hf (by simp [someLent]),
      fun _ hf => absurd hf (by simp [someLent])⟩
  | swap => exact ⟨by decide +kernel, List.nodup_nil, fun _ hf => absurd hf (by simp [someLent]),
      fun _ hf => absurd hf (by simp [someLent])⟩

end Tpso.Memoria
