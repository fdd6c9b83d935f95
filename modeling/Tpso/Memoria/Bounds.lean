/-
# What the bounds check of the user space lets through

`write_to_user_space` and `read_from_user_space` screen a request with one comparison,
`physical_address + size > user_space_size`.  The sum is an `int32_t`, which wraps, and the
comparison with a `size_t` turns a negative sum into a huge one.  So the check refuses every range
that starts inside the space and runs past its end, but it looks at the end of the range only: a
range with a negative start passes whenever its end is inside.

* `boundsCheck_iff`: for every size of the space and of the page and every pair of operands, exactly
  when the check keeps the copy of each function, and the copy behind each request, inside the
  space;
* `not_boundsCheck`: a request for one byte at address -1, which the check lets through.

The operands are the machine's own: `BitVec 32` for an `int32_t`, `BitVec 64` for a `size_t`.
-/
import Tpso.Memoria.State

namespace Tpso.Memoria

open Tpso.Lib

/-! ## 1. The two functions up to their `memcpy` -/

/-- The value of an `int32_t` converted to `size_t`. -/
def sizeT (x : BitVec 32) : BitVec 64 := x.signExtend 64

/-- The guard `physical_address + size > user_space_size`. -/
def passesEnd (userSpaceSize : BitVec 64) (physicalAddress size : BitVec 32) : Bool :=
  userSpaceSize.ult (sizeT (physicalAddress + size))

/-- Whether `write_to_user_space` reaches its `memcpy`. -/
def writeCopies (tamPagina : BitVec 32) (userSpaceSize : BitVec 64)
    (physicalAddress size : BitVec 32) : Bool :=
  if tamPagina.slt size then false
  else if passesEnd userSpaceSize physicalAddress size then false
  else true

/-- Whether `read_from_user_space` reaches its `memcpy`. -/
def readCopies (userSpaceSize : BitVec 64) (physicalAddress size : BitVec 32) : Bool :=
  if passesEnd userSpaceSize physicalAddress size then false else true

/-- `malloc`: which sizes it can serve at the moment.  It serves none above `PTRDIFF_MAX`. -/
structure Malloc where
  serves : BitVec 64 → Bool
  serves_le : ∀ n, serves n = true → n.toNat < 2 ^ 63

/-- Whether serving a WRITE_MEMORY request reaches the `memcpy` of `write_to_user_space`:
`read_memory_write_request` aborts when there is no memory for the data. -/
def writeRequestCopies (malloc : Malloc) (tamPagina : BitVec 32) (userSpaceSize : BitVec 64)
    (physicalAddress size : BitVec 32) : Bool :=
  if malloc.serves (sizeT size) then writeCopies tamPagina userSpaceSize physicalAddress size
  else false

/-- Whether serving a READ_MEMORY request reaches the `memcpy` of `read_from_user_space`:
`read_memory_request_handler` gives up when there is no memory for the answer. -/
def readRequestCopies (malloc : Malloc) (userSpaceSize : BitVec 64)
    (physicalAddress size : BitVec 32) : Bool :=
  if malloc.serves (sizeT size) then readCopies userSpaceSize physicalAddress size else false

/-! ## 2. The guard in exact integers -/

/-- The conversion leaves a value that is not negative alone and adds `2 ^ 64` to any other. -/
theorem toNat_sizeT (x : BitVec 32) :
    ((sizeT x).toNat : Int) = if x.toInt < 0 then x.toInt + 2 ^ 64 else x.toInt := by
  have hlt := x.isLt
  unfold sizeT
  rw [BitVec.toNat_signExtend, BitVec.toNat_setWidth, BitVec.toInt_eq_msb_cond]
  cases x.msb <;> simp <;> omega

/-- The sum of two `int32_t` that lie on different sides of zero is exact. -/
theorem toInt_add_of_mixed {x y : BitVec 32} (hx : x.toInt < 0) (hy : 0 ≤ y.toInt) :
    (x + y).toInt = x.toInt + y.toInt := by
  have hx' := x.le_toInt
  have hy' := y.toInt_lt
  rw [BitVec.toInt_add, Int.bmod_eq_of_le] <;> omega

/-- The sum of two negative `int32_t` wraps once when it leaves the type. -/
theorem toInt_add_of_neg {x y : BitVec 32} (hx : x.toInt < 0) (hy : y.toInt < 0) :
    (x + y).toInt =
      if x.toInt + y.toInt < -2 ^ 31 then x.toInt + y.toInt + 2 ^ 32 else x.toInt + y.toInt := by
  have hx' := x.le_toInt
  have hy' := y.le_toInt
  rw [BitVec.toInt_add]
  split
  · rw [← Int.add_bmod_right, Int.bmod_eq_of_le] <;> omega
  · rw [Int.bmod_eq_of_le] <;> omega

/-- The sum of two `int32_t` that are not negative wraps once when it leaves the type. -/
theorem toInt_add_of_nonneg {x y : BitVec 32} (hx : 0 ≤ x.toInt) (hy : 0 ≤ y.toInt) :
    (x + y).toInt =
      if x.toInt + y.toInt < 2 ^ 31 then x.toInt + y.toInt else x.toInt + y.toInt - 2 ^ 32 := by
  have hx' := x.toInt_lt
  have hy' := y.toInt_lt
  rw [BitVec.toInt_add]
  split
  · rw [Int.bmod_eq_of_le] <;> omega
  · rw [← Int.sub_bmod_right, Int.bmod_eq_of_le] <;> omega

/-- The guard compares the converted sum with the size of the space. -/
theorem passesEnd_eq (userSpaceSize : BitVec 64) (physicalAddress size : BitVec 32) :
    passesEnd userSpaceSize physicalAddress size =
      decide ((userSpaceSize.toNat : Int) <
        if (physicalAddress + size).toInt < 0 then (physicalAddress + size).toInt + 2 ^ 64
        else (physicalAddress + size).toInt) := by
  rw [← toNat_sizeT, passesEnd, BitVec.ult_eq_decide]
  exact decide_eq_decide.mpr (by omega)

/-- The guard is the test of the handlers: a user space that memoria can start with is smaller than
any negative sum is as a `size_t`. -/
theorem exceedsUserSpace_eq (cfg : Config) (physicalAddress size : BitVec 32) :
    exceedsUserSpace cfg physicalAddress.toInt size.toInt =
      passesEnd (BitVec.ofNat 64 cfg.tamMemoria) physicalAddress size := by
  have hlt := cfg.tamMemoria_lt
  have hle := (physicalAddress + size).le_toInt
  have htotal : (BitVec.ofNat 64 cfg.tamMemoria).toNat = cfg.tamMemoria := by
    rw [BitVec.toNat_ofNat, Nat.mod_eq_of_lt (by omega)]
  have hsum : toInt32 (physicalAddress.toInt + size.toInt) = (physicalAddress + size).toInt := by
    rw [BitVec.toInt_add, toInt32]
  rw [passesEnd_eq, exceedsUserSpace, htotal, hsum]
  apply decide_eq_decide.mpr
  split <;> omega

/-- `writeToUserSpace` stores bytes, or has no defined result, exactly when its `memcpy` is
reached. -/
theorem writeToUserSpace_eq (cfg : Config) (m : Bytes) (physicalAddress size tamPagina : BitVec 32)
    (data : List UInt8) (hpage : tamPagina.toInt = cfg.tamPagina)
    (hdata : size.toInt = data.length) :
    writeToUserSpace cfg m physicalAddress.toInt data =
      if writeCopies tamPagina (BitVec.ofNat 64 cfg.tamMemoria) physicalAddress size then
        if physicalAddress.toInt < 0 then none else some (m.blit physicalAddress.toInt.toNat data)
      else some m := by
  have hlarge : tamPagina.slt size = decide ((cfg.tamPagina : Int) < data.length) := by
    rw [BitVec.slt_eq_decide, hpage, hdata]
  rw [writeToUserSpace, ← hdata, exceedsUserSpace_eq, writeCopies, hlarge, ← hdata]
  by_cases h1 : (cfg.tamPagina : Int) < size.toInt
  · simp [h1]
  · cases h2 : passesEnd (BitVec.ofNat 64 cfg.tamMemoria) physicalAddress size <;> simp [h1]

/-- `readFromUserSpace` takes bytes from the user space, or has no defined result, exactly when its
`memcpy` is reached. -/
theorem readFromUserSpace_eq (cfg : Config) (m : Bytes) (physicalAddress size : BitVec 32)
    (hsize : 0 ≤ size.toInt) :
    readFromUserSpace cfg m physicalAddress.toInt size.toInt =
      if readCopies (BitVec.ofNat 64 cfg.tamMemoria) physicalAddress size then
        if physicalAddress.toInt < 0 then none
        else some (m.slice physicalAddress.toInt.toNat size.toInt.toNat)
      else some (List.replicate size.toInt.toNat 0) := by
  rw [readFromUserSpace, if_neg (by omega), exceedsUserSpace_eq, readCopies]
  cases passesEnd (BitVec.ofNat 64 cfg.tamMemoria) physicalAddress size <;> simp

/-! ## 3. Where the copy lands -/

/-- The range lies inside the user space, in exact integers. -/
def InUserSpace (userSpaceSize : BitVec 64) (physicalAddress size : BitVec 32) : Prop :=
  0 ≤ physicalAddress.toInt ∧ 0 ≤ size.toInt ∧
    physicalAddress.toInt + size.toInt ≤ userSpaceSize.toNat

/-- The ranges for which the comparison is enough: both operands are not negative, or the exact sum
is beyond the space, or it is negative and becomes, as a `size_t`, larger than the space; a sum
below `-2 ^ 31` first comes back as a positive one. -/
def Screened (userSpaceSize : BitVec 64) (physicalAddress size : BitVec 32) : Prop :=
  let sum := physicalAddress.toInt + size.toInt
  let total : Int := userSpaceSize.toNat
  (0 ≤ physicalAddress.toInt ∧ 0 ≤ size.toInt) ∨
    total < sum ∨
    (sum < 0 ∧ -2 ^ 31 ≤ sum ∧ total < sum + 2 ^ 64) ∨
    (sum < -2 ^ 31 ∧ total < sum + 2 ^ 32)

/-- A range whose operands are not negative passes the guard only when it lies inside. -/
theorem inUserSpace_of_nonneg {userSpaceSize : BitVec 64} {physicalAddress size : BitVec 32}
    (hpa : 0 ≤ physicalAddress.toInt) (hsize : 0 ≤ size.toInt)
    (h : passesEnd userSpaceSize physicalAddress size = false) :
    InUserSpace userSpaceSize physicalAddress size := by
  refine ⟨hpa, hsize, ?_⟩
  have hpa' := physicalAddress.toInt_lt
  have hsize' := size.toInt_lt
  rw [passesEnd_eq, toInt_add_of_nonneg hpa hsize, decide_eq_false_iff_not] at h
  split at h <;> split at h <;> omega

/-- A range with a negative operand is refused exactly when it is one of the screened ones. -/
theorem passesEnd_iff_screened {userSpaceSize : BitVec 64} {physicalAddress size : BitVec 32}
    (hneg : ¬(0 ≤ physicalAddress.toInt ∧ 0 ≤ size.toInt)) :
    passesEnd userSpaceSize physicalAddress size = true ↔
      Screened userSpaceSize physicalAddress size := by
  have hpa := physicalAddress.le_toInt
  have hpa' := physicalAddress.toInt_lt
  have hsize := size.le_toInt
  have hsize' := size.toInt_lt
  simp only [passesEnd_eq, decide_eq_true_eq, Screened, hneg, false_or]
  rcases lt_or_ge physicalAddress.toInt 0 with h1 | h1
  · rcases lt_or_ge size.toInt 0 with h2 | h2
    · rw [toInt_add_of_neg h1 h2]
      split <;> split <;> omega
    · rw [toInt_add_of_mixed h1 h2]
      split <;> omega
  · have h2 : size.toInt < 0 := by omega
    rw [add_comm physicalAddress size, toInt_add_of_mixed h2 h1]
    split <;> omega

/-- What the comparison guarantees, for both functions. -/
theorem guard_iff (userSpaceSize : BitVec 64) (physicalAddress size : BitVec 32) :
    (passesEnd userSpaceSize physicalAddress size = false →
        InUserSpace userSpaceSize physicalAddress size) ↔
      Screened userSpaceSize physicalAddress size := by
  by_cases hpos : 0 ≤ physicalAddress.toInt ∧ 0 ≤ size.toInt
  · exact ⟨fun _ => .inl hpos, fun _ => inUserSpace_of_nonneg hpos.1 hpos.2⟩
  · rw [← passesEnd_iff_screened hpos, ← Bool.not_eq_false]
    constructor
    · intro h hpass
      obtain ⟨hpa, hsize, -⟩ := h hpass
      exact hpos ⟨hpa, hsize⟩
    · intro h hpass
      exact absurd hpass h

/-- **Exactly when the bounds check keeps the copies inside the user space.**  For every size of the
space and of the page and every two `int32_t`: the copy of `read_from_user_space`, when it is
reached, lies inside the space if and only if the range is a screened one; that of
`write_to_user_space` also when the size exceeds the page and the copy is never reached.  Behind a
request no size is negative, since there is no memory for one. -/
theorem boundsCheck_iff (malloc : Malloc) (tamPagina : BitVec 32) (userSpaceSize : BitVec 64)
    (physicalAddress size : BitVec 32) :
    ((readCopies userSpaceSize physicalAddress size = true →
        InUserSpace userSpaceSize physicalAddress size) ↔
      Screened userSpaceSize physicalAddress size) ∧
    ((writeCopies tamPagina userSpaceSize physicalAddress size = true →
        InUserSpace userSpaceSize physicalAddress size) ↔
      tamPagina.toInt < size.toInt ∨ Screened userSpaceSize physicalAddress size) ∧
    ((readRequestCopies malloc userSpaceSize physicalAddress size = true →
        InUserSpace userSpaceSize physicalAddress size) ↔
      malloc.serves (sizeT size) = false ∨ Screened userSpaceSize physicalAddress size) ∧
    ((writeRequestCopies malloc tamPagina userSpaceSize physicalAddress size = true →
        InUserSpace userSpaceSize physicalAddress size) ↔
      malloc.serves (sizeT size) = false ∨ tamPagina.toInt < size.toInt ∨
        Screened userSpaceSize physicalAddress size) := by
  have hguard := guard_iff userSpaceSize physicalAddress size
  have hread : (readCopies userSpaceSize physicalAddress size = true →
      InUserSpace userSpaceSize physicalAddress size) ↔
      Screened userSpaceSize physicalAddress size := by
    rw [← hguard]
    cases hpass : passesEnd userSpaceSize physicalAddress size <;> simp [readCopies, hpass]
  have hwrite : (writeCopies tamPagina userSpaceSize physicalAddress size = true →
      InUserSpace userSpaceSize physicalAddress size) ↔
      tamPagina.toInt < size.toInt ∨ Screened userSpaceSize physicalAddress size := by
    rw [← hguard, ← decide_eq_true_iff (p := tamPagina.toInt < size.toInt), ← BitVec.slt_eq_decide]
    cases hlarge : tamPagina.slt size
    · cases hpass : passesEnd userSpaceSize physicalAddress size <;>
        simp [writeCopies, hlarge, hpass]
    · simp [writeCopies, hlarge]
  refine ⟨hread, hwrite, ?_, ?_⟩
  · rw [← hread]
    cases hserved : malloc.serves (sizeT size) <;> simp [readRequestCopies, hserved]
  · rw [← hwrite]
    cases hserved : malloc.serves (sizeT size) <;> simp [writeRequestCopies, hserved]

/-- A `malloc` that serves whatever it may. -/
def ampleMalloc : Malloc where
  serves n := decide (n.toNat < 2 ^ 63)
  serves_le _ h := by simpa using h

/-- **One byte at address -1 passes.**  The CPU asks for it when it writes the last byte of a page
that no frame is assigned to: the sum is 0, so every user space, here one of 4096 bytes in pages of
64, lets both requests through to a copy that starts before the space. -/
theorem not_boundsCheck :
    (readRequestCopies ampleMalloc 4096 (-1) 1 = true ∧ ¬InUserSpace 4096 (-1) 1) ∧
    (writeRequestCopies ampleMalloc 64 4096 (-1) 1 = true ∧ ¬InUserSpace 4096 (-1) 1) := by
  have hout : ¬InUserSpace 4096 (-1) 1 := fun h => absurd h.1 (by decide)
  exact ⟨⟨by decide, hout⟩, by decide, hout⟩

end Tpso.Memoria
