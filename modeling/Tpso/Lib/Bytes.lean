/-
# Byte memories

A memory is a function from addresses to bytes; its size is kept by whoever owns it.  A write of a
block is `blit`, a read of one is `slice`.
-/
import Mathlib

namespace Tpso.Lib

/-- A byte memory. -/
abbrev Bytes := Nat → UInt8

namespace Bytes

/-- Write the block `data` at address `addr`. -/
def blit (m : Bytes) (addr : Nat) (data : List UInt8) : Bytes := fun a =>
  if addr ≤ a ∧ a < addr + data.length then data.getD (a - addr) 0 else m a

/-- The `n` bytes from address `addr` on. -/
def slice (m : Bytes) (addr n : Nat) : List UInt8 := (List.range n).map fun k => m (addr + k)

@[simp] theorem length_slice (m : Bytes) (addr n : Nat) : (m.slice addr n).length = n := by
  simp [slice]

/-- Inside the block the memory holds the block's bytes. -/
theorem blit_of_mem {m : Bytes} {addr a : Nat} {data : List UInt8} (h1 : addr ≤ a)
    (h2 : a < addr + data.length) : m.blit addr data a = data.getD (a - addr) 0 :=
  if_pos ⟨h1, h2⟩

/-- Outside the block nothing changes. -/
theorem blit_of_not_mem {m : Bytes} {addr a : Nat} {data : List UInt8}
    (h : ¬ (addr ≤ a ∧ a < addr + data.length)) : m.blit addr data a = m a := if_neg h

/-- A byte of a slice. -/
theorem getD_slice {m : Bytes} {addr n k : Nat} (h : k < n) :
    (m.slice addr n).getD k 0 = m (addr + k) := by
  simp [slice, h]

end Bytes

end Tpso.Lib
