/-
# The buffer of a message

A message is put together in a buffer with a cursor: `buffer_add` copies bytes to the cursor and moves it,
and lets the stream grow when it is too short; `buffer_read` takes bytes from the cursor.  Nothing in the
buffer says where a value ends, except that a string goes behind its length.

All sizes are `int32_t`.  Where the code would go wrong (an allocation of a negative size, which
`safe_malloc` answers with `abort`, a copy of a negative length, a sum that overflows, a read past the
end, which leaves its destination uninitialised) the model has no result.
-/
import Tpso.Lib.Transfer

namespace Tpso.Utils

open Tpso.Lib

/-! ## 1. Values in memory -/

/-- The bytes of an `int32_t`. -/
def int32Bytes (x : Int32) : List UInt8 := leBytes 4 x.toBitVec.toNat

/-- The `int32_t` in four bytes. -/
def int32OfBytes (bs : List UInt8) : Int32 := Int32.ofBitVec (BitVec.ofNat 32 (leNat bs))

@[simp] theorem length_int32Bytes (x : Int32) : (int32Bytes x).length = 4 := length_leBytes 4 _

@[simp] theorem int32OfBytes_int32Bytes (x : Int32) : int32OfBytes (int32Bytes x) = x := by
  have hlt : x.toBitVec.toNat < 256 ^ 4 := x.toBitVec.isLt
  unfold int32OfBytes int32Bytes
  rw [leNat_leBytes, Nat.mod_eq_of_lt hlt, BitVec.ofNat_toNat, BitVec.setWidth_eq,
    Int32.ofBitVec_toBitVec]

/-- A size that an `int32_t` can hold. -/
theorem toInt_ofNat_of_lt {n : Nat} (h : n < 2 ^ 31) : (Int32.ofNat n).toInt = n :=
  Int32.toInt_ofNat_of_lt h

/-- A NUL-terminated string: its characters, without the NUL. -/
structure CString where
  chars : List UInt8
  noNul : 0 ∉ chars
deriving DecidableEq, Repr

/-- The string as it is in memory. -/
def CString.bytes (s : CString) : List UInt8 := s.chars ++ [0]

/-- `strlen(s) + 1`, passed as an `int32_t`. -/
def CString.lengthWithNul (s : CString) : Int32 := Int32.ofNat (s.chars.length + 1)

/-- The string at the start of a block, if there is a NUL. -/
def CString.ofBytes (bs : List UInt8) : Option CString :=
  if 0 ∈ bs then
    some ⟨bs.takeWhile (· ≠ 0), fun h => by simpa using List.mem_takeWhile_imp h⟩
  else none

/-- A block of memory with its size. -/
structure Block where
  size : Int32
  data : List UInt8
  sized : size.toInt = data.length
deriving DecidableEq, Repr

@[simp] theorem CString.length_bytes (s : CString) : s.bytes.length = s.chars.length + 1 := by
  simp [CString.bytes]

/-- A string is found again in its bytes. -/
@[simp] theorem CString.ofBytes_bytes (s : CString) : CString.ofBytes s.bytes = some s := by
  have htake : s.bytes.takeWhile (· ≠ 0) = s.chars := by
    have hall : ∀ c ∈ s.chars, decide (c ≠ 0) = true := by
      intro c hc
      have hne : c ≠ 0 := fun h => s.noNul (h ▸ hc)
      simpa using hne
    rw [CString.bytes, List.takeWhile_append_of_pos hall]
    simp
  have hnul : 0 ∈ s.bytes := by simp [CString.bytes]
  unfold CString.ofBytes
  rw [if_pos hnul]
  cases s
  simpa using htake

/-- A length that an `int32_t` can hold. -/
theorem CString.toInt_lengthWithNul {s : CString} (h : s.bytes.length < 2 ^ 31) :
    s.lengthWithNul.toInt = s.bytes.length := by
  rw [s.length_bytes] at h ⊢
  exact toInt_ofNat_of_lt h

/-! ## 2. The operations -/

/-- `t_buffer`. -/
structure Buffer where
  streamSize : Int32
  stream : List UInt8
  offset : Int32
deriving DecidableEq, Repr

/-- A program that works on one buffer. -/
abbrev BufferM := StateT Buffer Option

/-- `buffer_create`: `calloc` clears the stream. -/
def bufferCreate (size : Int32) : Option Buffer :=
  if size.toInt < 0 then none else some ⟨size, List.replicate size.toInt.toNat 0, 0⟩

/-- `buffer_add`, where `data` points to `size` bytes at least. -/
def bufferAdd (data : List UInt8) (size : Int32) : BufferM Unit := fun buffer =>
  let upto := buffer.offset.toInt + size.toInt
  if size.toInt < 0 ∨ data.length < size.toInt.toNat ∨ 2 ^ 31 ≤ upto then none
  else
    some ((),
      { streamSize := if upto > buffer.streamSize.toInt then Int32.ofInt upto else buffer.streamSize
        stream := buffer.stream.take buffer.offset.toInt.toNat ++ data.take size.toInt.toNat ++
          buffer.stream.drop upto.toNat
        offset := Int32.ofInt upto })

/-- `buffer_add_int32`. -/
def bufferAddInt32 (data : Int32) : BufferM Unit := bufferAdd (int32Bytes data) 4

/-- `buffer_add_string`. -/
def bufferAddString (length : Int32) (string : List UInt8) : BufferM Unit := do
  bufferAddInt32 length
  bufferAdd string length

/-- `buffer_read`. -/
def bufferRead (size : Int32) : BufferM Block := fun buffer =>
  let upto := buffer.offset.toInt + size.toInt
  let data := (buffer.stream.drop buffer.offset.toInt.toNat).take size.toInt.toNat
  if 2 ^ 31 ≤ upto ∨ upto > buffer.streamSize.toInt then none
  else if h : size.toInt = data.length then
    some (⟨size, data, h⟩, { buffer with offset := Int32.ofInt upto })
  else none

/-- `buffer_read_int32`. -/
def bufferReadInt32 : BufferM Int32 := do
  let data ← bufferRead 4
  pure (int32OfBytes data.data)

/-- `buffer_read_string`: the block and its length. -/
def bufferReadString : BufferM Block := do
  let length ← bufferReadInt32
  bufferRead length

/-- `buffer->offset = 0`. -/
def rewind : BufferM Unit := modify fun buffer => { buffer with offset := 0 }

/-- A block that is used as a string. -/
def asString (block : Block) : BufferM CString := StateT.lift (CString.ofBytes block.data)

/-! ## 3. A buffer that is being filled -/

/-- A length that an `int32_t` can hold. -/
def Short (bs : List UInt8) : Prop := bs.length < 2 ^ 31

theorem Short.left (xs ys : List UInt8) (h : Short (xs ++ ys)) : Short xs := by
  simp only [Short, List.length_append] at h ⊢
  omega

/-- A buffer of `n` bytes into which `done` has been written: behind it is what `calloc` left. -/
structure Filling (n : Nat) (buffer : Buffer) (done : List UInt8) : Prop where
  offset : buffer.offset.toInt = done.length
  stream : buffer.stream = done ++ List.replicate (n - done.length) 0
  streamSize : buffer.streamSize.toInt = buffer.stream.length

theorem filling_create {size : Int32} {n : Nat} (h : size.toInt = n) :
    ∃ buffer, bufferCreate size = some buffer ∧ Filling n buffer [] := by
  have hpos : ¬ size.toInt < 0 := by omega
  refine ⟨⟨size, List.replicate size.toInt.toNat 0, 0⟩, by simp only [bufferCreate, if_neg hpos], ?_⟩
  constructor
  · rfl
  · simp [h]
  · simp [h]

/-- **`buffer_add` writes its bytes**, whether the stream has room for them or grows. -/
theorem bufferAdd_writes {n : Nat} {data : List UInt8} {size : Int32} (h : size.toInt = data.length) :
    Writes (Filling n) Short (bufferAdd data size) data := by
  intro buffer done hb hfit
  have hshort : done.length + data.length < 2 ^ 31 := by simpa [Short] using hfit
  have hupto : buffer.offset.toInt + size.toInt = ((done.length + data.length : Nat) : Int) := by
    rw [hb.offset, h]
    push_cast
    rfl
  have hguard : ¬ (size.toInt < 0 ∨ data.length < size.toInt.toNat ∨
      2 ^ 31 ≤ buffer.offset.toInt + size.toInt) := by
    rw [hupto, h]
    omega
  have hoffset : (Int32.ofInt ((done.length + data.length : Nat) : Int)).toInt =
      ((done.length + data.length : Nat) : Int) := toInt_ofNat_of_lt hshort
  have hstream : buffer.stream.take buffer.offset.toInt.toNat ++ data.take size.toInt.toNat ++
      buffer.stream.drop (buffer.offset.toInt + size.toInt).toNat =
        done ++ data ++ List.replicate (n - (done ++ data).length) 0 := by
    rw [hupto, hb.offset, h, hb.stream]
    simp only [Int.toNat_natCast, List.take_left', List.take_length, List.length_append]
    rw [List.drop_append, List.drop_replicate, List.drop_eq_nil_of_le (Nat.le_add_right _ _),
      List.nil_append]
    congr 2
    omega
  refine ⟨_, if_neg hguard, ?_⟩
  constructor
  · simp only [hupto, hoffset, List.length_append]
  · exact hstream
  · show (if _ then _ else _ : Int32).toInt = _
    rw [hstream]
    have hsize := hb.streamSize
    rw [hb.stream] at hsize
    simp only [List.length_append, List.length_replicate] at hsize ⊢
    split
    · rename_i hgrow
      rw [hupto] at hgrow ⊢
      rw [hoffset]
      omega
    · rename_i hroom
      rw [hupto] at hroom
      omega

theorem bufferAddInt32_writes {n : Nat} (x : Int32) :
    Writes (Filling n) Short (bufferAddInt32 x) (int32Bytes x) :=
  bufferAdd_writes (by simp)

/-- A block behind its length. -/
theorem bufferAddString_writes {n : Nat} (block : Block) :
    Writes (Filling n) Short (bufferAddString block.size block.data)
      (int32Bytes block.size ++ block.data) :=
  (bufferAddInt32_writes block.size).bind Short.left (bufferAdd_writes block.sized)

/-- A string behind its length. -/
theorem bufferAddCString_writes {n : Nat} (s : CString) :
    Writes (Filling n) Short (bufferAddString s.lengthWithNul s.bytes)
      (int32Bytes s.lengthWithNul ++ s.bytes) := by
  intro buffer done hb hfit
  have hshort : s.bytes.length < 2 ^ 31 := by
    simp only [Short, List.length_append] at hfit
    omega
  exact bufferAddString_writes ⟨s.lengthWithNul, s.bytes, CString.toInt_lengthWithNul hshort⟩ buffer
    done hb hfit

/-- When as much has been written as was allocated first, the stream is what was written. -/
theorem Filling.full {n : Nat} {buffer : Buffer} {done : List UInt8} (h : Filling n buffer done)
    (hn : n ≤ done.length) : buffer.stream = done ∧ buffer.streamSize.toInt = done.length := by
  have hstream : buffer.stream = done := by
    rw [h.stream, Nat.sub_eq_zero_of_le hn, List.replicate_zero, List.append_nil]
  exact ⟨hstream, hstream ▸ h.streamSize⟩

/-! ## 4. A buffer that is being read -/

/-- What is left to read in a buffer. -/
structure Ahead (buffer : Buffer) (rest : List UInt8) : Prop where
  stream : ∃ done : List UInt8, buffer.stream = done ++ rest ∧ buffer.offset.toInt = done.length
  streamSize : buffer.streamSize.toInt = buffer.stream.length

theorem Ahead.rewound {buffer : Buffer} (h : buffer.streamSize.toInt = buffer.stream.length) :
    Ahead { buffer with offset := 0 } buffer.stream :=
  ⟨⟨[], rfl, rfl⟩, h⟩

/-- **`buffer_read` takes the bytes that come next.** -/
theorem bufferRead_reads {size : Int32} {data : List UInt8} (h : size.toInt = data.length) :
    Reads Ahead (bufferRead size) data ⟨size, data, h⟩ := by
  rintro buffer rest ⟨⟨done, hstream, hoffset⟩, hsize⟩
  have hlength : buffer.streamSize.toInt = ((done.length + (data.length + rest.length) : Nat) : Int) := by
    rw [hsize, hstream]
    simp
  have hlt := buffer.streamSize.toInt_lt
  have hupto : buffer.offset.toInt + size.toInt = ((done.length + data.length : Nat) : Int) := by
    rw [hoffset, h]
    push_cast
    rfl
  have hguard : ¬ (2 ^ 31 ≤ buffer.offset.toInt + size.toInt ∨
      buffer.offset.toInt + size.toInt > buffer.streamSize.toInt) := by
    rw [hupto]
    omega
  have hdata : (buffer.stream.drop buffer.offset.toInt.toNat).take size.toInt.toNat = data := by
    rw [hoffset, h, hstream]
    simp
  refine ⟨{ buffer with offset := Int32.ofInt (buffer.offset.toInt + size.toInt) }, ?_,
    ⟨done ++ data, by rw [hstream, List.append_assoc], ?_⟩, hsize⟩
  · show bufferRead size buffer = _
    unfold bufferRead
    simp only [if_neg hguard, hdata, dif_pos h]
  · rw [hupto, List.length_append]
    exact toInt_ofNat_of_lt (by omega)

theorem bufferReadInt32_reads (x : Int32) : Reads Ahead bufferReadInt32 (int32Bytes x) x := by
  have hword : Reads Ahead (bufferRead 4) (int32Bytes x) ⟨4, int32Bytes x, by simp⟩ :=
    bufferRead_reads _
  refine hword.bind_nil ?_
  rw [int32OfBytes_int32Bytes]
  exact Reads.pure x

theorem bufferReadString_reads (block : Block) :
    Reads Ahead bufferReadString (int32Bytes block.size ++ block.data) block :=
  (bufferReadInt32_reads block.size).bind (bufferRead_reads block.sized)

/-- A string behind its length. -/
theorem bufferReadCString_reads {s : CString} (h : Short s.bytes) :
    Reads Ahead (bufferReadString >>= asString) (int32Bytes s.lengthWithNul ++ s.bytes) s := by
  have hblock := bufferReadString_reads ⟨s.lengthWithNul, s.bytes, CString.toInt_lengthWithNul h⟩
  exact hblock.bind_nil (Reads.lift s.ofBytes_bytes)

end Tpso.Utils
