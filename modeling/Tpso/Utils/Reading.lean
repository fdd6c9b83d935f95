/-
# Readers and the payload they read

A package reader puts the cursor back to the start and then calls `buffer_read_int32`, `buffer_read_string`
and `buffer_read`.  What it reads next may depend on what it has read, and the lengths in a payload come from
the other side.

Two things stand between such a length and the stream.  A destination is allocated first, and `safe_malloc`
ends the program when it is asked for a negative size; and `buffer_read` refuses to read past the end.  But it
adds the size to the offset as an `int32_t`: a length from `2 ^ 31 - offset` on makes the sum negative, the
test is passed, and the copy goes on behind the stream.

* `readsInside_iff`: exactly when the copies of a reader stay inside the payload;
* `not_readsInside`: a WRITE_MEMORY of eight bytes for which they do not.

A destination that nothing is copied to keeps what it held, and one that is copied from elsewhere gets what is
there: both are left open here.
-/
import Tpso.Lib.Run
import Tpso.Utils.Truncation

namespace Tpso.Utils

open Tpso.Lib

/-! ## 1. `buffer_read` on any size -/

/-- What `memcpy` reads of the stream. -/
structure Copy where
  start : Int
  size : Int
deriving DecidableEq, Repr

/-- The copy that `buffer_read` makes, if it passes its test.  The sum wraps around. -/
def Buffer.copy (buffer : Buffer) (size : Int32) : Option Copy :=
  if buffer.offset + size > buffer.streamSize then none
  else some ⟨buffer.offset.toInt, size.toInt⟩

/-- The buffer after `buffer_read`. -/
def Buffer.afterRead (buffer : Buffer) (size : Int32) : Buffer :=
  if buffer.offset + size > buffer.streamSize then buffer
  else { buffer with offset := buffer.offset + size }

/-- The copy reads the stream only. -/
def Copy.Inside (c : Copy) (buffer : Buffer) : Prop :=
  0 ≤ c.size ∧ 0 ≤ c.start ∧ c.start + c.size ≤ buffer.streamSize.toInt

instance (c : Copy) (buffer : Buffer) : Decidable (c.Inside buffer) :=
  inferInstanceAs (Decidable (_ ∧ _))

/-- The destination of a read may hold these bytes afterwards: those of the stream where they were copied
from there. -/
def Buffer.delivers (buffer : Buffer) (size : Int32) (bytes : List UInt8) : Bool :=
  (buffer.copy size).all fun c =>
    !decide (c.Inside buffer) || decide (bytes = (buffer.stream.drop c.start.toNat).take c.size.toNat)

/-! ## 2. Readers -/

/-- One step of a reader, with what it finds in the destination.  A block has been allocated before, so its
size is not negative. -/
inductive ReadStep where
  /-- `buffer->offset = 0`. -/
  | rewind
  /-- `buffer_read_int32`. -/
  | int32 (value : Int32)
  /-- `safe_malloc` and `buffer_read`. -/
  | block (data : Block)
deriving DecidableEq, Repr

/-- The size that a step asks `buffer_read` for. -/
def ReadStep.size : ReadStep → Option Int32
  | .rewind => none
  | .int32 _ => some 4
  | .block data => some data.size

/-- The buffer after a step. -/
def ReadStep.next (buffer : Buffer) : ReadStep → Option Buffer
  | .rewind => some { buffer with offset := 0 }
  | .int32 value =>
    if buffer.delivers 4 (int32Bytes value) then some (buffer.afterRead 4) else none
  | .block data =>
    if buffer.delivers data.size data.data then some (buffer.afterRead data.size) else none

/-- Any steps on one buffer. -/
def reading (buffer : Buffer) : Lts Buffer ReadStep := Lts.ofStep buffer ReadStep.next

/-- What a package reader does with the buffer. -/
inductive Reader where
  | done
  | rewind (next : Reader)
  | readInt32 (next : Int32 → Reader)
  | readBlock (size : Int32) (next : Reader)

/-- The steps are those of the reader, or the first of them. -/
def Reader.Makes : Reader → List ReadStep → Prop
  | _, [] => True
  | .rewind next, .rewind :: steps => next.Makes steps
  | .readInt32 next, .int32 value :: steps => (next value).Makes steps
  | .readBlock size next, .block data :: steps => data.size = size ∧ next.Makes steps
  | _, _ :: _ => False

namespace Reader

/-- `buffer_read_string`. -/
def readString (next : Reader) : Reader := .readInt32 fun length => .readBlock length next

/-- Numbers, one after the other. -/
def readInt32s : Nat → Reader → Reader
  | 0, next => next
  | n + 1, next => .readInt32 fun _ => readInt32s n next

/-- `read_syscall_package`. -/
def readSyscallPackage : Reader :=
  .rewind <| .readInt32 fun syscallType => readInt32s 2 <|
    if syscallType = 0 then readInt32s 1 <| readString <| .rewind .done
    else if syscallType = 1 then readString <| readInt32s 1 <| .rewind .done
    else .rewind .done

/-- `read_init_process_package`. -/
def readInitProcessPackage : Reader := .rewind <| readInt32s 2 <| readString <| .rewind .done

/-- `read_memory_write_request`. -/
def readMemoryWriteRequest : Reader :=
  .rewind <| .readInt32 fun _ => .readInt32 fun size => .readBlock size .done

/-- `read_mmu_page_read_response`. -/
def readMmuPageReadResponse : Reader := .rewind <| .readInt32 fun pageSize => .readBlock pageSize .done

/-- The readers of one string and nothing else. -/
def readOneString : Reader := .rewind <| readString .done

/-- The readers of some numbers and nothing else. -/
def readNumbers (n : Nat) : Reader := .rewind <| readInt32s n .done

/-- Those that put the cursor back at the end. -/
def readNumbersAndRewind (n : Nat) : Reader := .rewind <| readInt32s n <| .rewind .done

/-- `read_memory_read_response`. -/
def readMemoryReadResponse : Reader := readOneString

/-- `read_instruction_package`. -/
def readInstructionPackage : Reader := readOneString

/-- `read_new_io_package`. -/
def readNewIoPackage : Reader := .rewind <| readString <| .rewind .done

/-- `read_io_completion_package`. -/
def readIoCompletionPackage : Reader := .rewind <| readString <| readInt32s 1 <| .rewind .done

/-- `read_io_operation_package`. -/
def readIoOperationPackage : Reader := readNumbersAndRewind 2

/-- `read_kill_process_package`. -/
def readKillProcessPackage : Reader := readNumbersAndRewind 1

/-- `read_page_entry_request_package`. -/
def readPageEntryRequestPackage : Reader := readNumbers 3

/-- `read_page_entry_response_package`. -/
def readPageEntryResponsePackage : Reader := readNumbers 2

/-- `read_memory_read_request`. -/
def readMemoryReadRequest : Reader := readNumbers 2

/-- `read_cpu_context_package`. -/
def readCpuContextPackage : Reader := readNumbers 3

/-- `read_dispatch_package`. -/
def readDispatchPackage : Reader := readNumbers 2

/-- `read_fetch_package`. -/
def readFetchPackage : Reader := readNumbers 2

/-- `read_swap_package`. -/
def readSwapPackage : Reader := readNumbers 1

/-- `read_confirmation_package`. -/
def readConfirmationPackage : Reader := readNumbers 1

/-- `read_interrupt_package`. -/
def readInterruptPackage : Reader := readNumbers 1

/-- `read_dump_memory_package`. -/
def readDumpMemoryPackage : Reader := readNumbers 1

end Reader

/-- The package readers. -/
def packageReaders : List Reader :=
  [.readSyscallPackage, .readInitProcessPackage, .readMemoryWriteRequest, .readMmuPageReadResponse,
    .readMemoryReadResponse, .readInstructionPackage, .readNewIoPackage, .readIoCompletionPackage,
    .readIoOperationPackage, .readKillProcessPackage, .readPageEntryRequestPackage,
    .readPageEntryResponsePackage, .readMemoryReadRequest, .readCpuContextPackage, .readDispatchPackage,
    .readFetchPackage, .readSwapPackage, .readConfirmationPackage, .readInterruptPackage,
    .readDumpMemoryPackage]

/-! ## 3. The property -/

/-- The offset is inside the stream, or at its end. -/
def Buffer.InBounds (buffer : Buffer) : Prop :=
  0 ≤ buffer.offset.toInt ∧ buffer.offset.toInt ≤ buffer.streamSize.toInt

/-- **A step stays inside the payload.** -/
structure ReadsInside (x : Transition Buffer ReadStep) : Prop where
  copies : ∀ size ∈ x.label.size, ∀ c ∈ x.src.copy size, c.Inside x.src
  before : x.src.InBounds
  after : x.dst.InBounds
  refused : ∀ size ∈ x.label.size, x.src.streamSize.toInt < x.src.offset.toInt + size.toInt →
    x.src.copy size = none ∧ x.dst = x.src

/-- The sum of `buffer_read` is no `int32_t`. -/
def Overflows (buffer : Buffer) (l : ReadStep) : Prop :=
  ∃ size ∈ l.size, 2 ^ 31 ≤ buffer.offset.toInt + size.toInt

instance (buffer : Buffer) (l : ReadStep) : Decidable (Overflows buffer l) :=
  inferInstanceAs (Decidable (∃ size, size ∈ l.size ∧ _))

/-! ## 4. One step -/

section Step

variable {buffer buffer' : Buffer} {l : ReadStep} {size : Int32}

/-- No step asks for a negative size. -/
theorem ReadStep.size_nonneg (h : size ∈ l.size) : 0 ≤ size.toInt := by
  cases l with
  | rewind => exact absurd h (by simp [ReadStep.size])
  | int32 value =>
    obtain rfl : 4 = size := by simpa [ReadStep.size] using h
    decide
  | block data =>
    obtain rfl : data.size = size := by simpa [ReadStep.size] using h
    rw [data.sized]
    exact Int.natCast_nonneg _

/-- A step that reads leaves the buffer that `buffer_read` leaves. -/
theorem ReadStep.next_eq (h : size ∈ l.size) (hstep : l.next buffer = some buffer') :
    buffer' = buffer.afterRead size := by
  cases l with
  | rewind => exact absurd h (by simp [ReadStep.size])
  | int32 value =>
    obtain rfl : 4 = size := by simpa [ReadStep.size] using h
    simp only [ReadStep.next, Option.ite_none_right_eq_some, Option.some.injEq] at hstep
    exact hstep.2.symm
  | block data =>
    obtain rfl : data.size = size := by simpa [ReadStep.size] using h
    simp only [ReadStep.next, Option.ite_none_right_eq_some, Option.some.injEq] at hstep
    exact hstep.2.symm

/-- Where the sum is an `int32_t`, the test is the one that is meant. -/
theorem Buffer.test_iff (hb : buffer.InBounds) (h0 : 0 ≤ size.toInt)
    (hsum : buffer.offset.toInt + size.toInt < 2 ^ 31) :
    (buffer.offset + size).toInt = buffer.offset.toInt + size.toInt ∧
      (buffer.offset + size > buffer.streamSize ↔
        buffer.streamSize.toInt < buffer.offset.toInt + size.toInt) := by
  have hadd : (buffer.offset + size).toInt = buffer.offset.toInt + size.toInt := by
    rw [Int32.toInt_add]
    exact Int.bmod_eq_of_le (by have := hb.1; omega) (by omega)
  exact ⟨hadd, by rw [gt_iff_lt, Int32.lt_iff_toInt_lt, hadd]⟩

/-- **A sum that is none passes the test.** -/
theorem Buffer.copy_of_overflow (hb : buffer.InBounds)
    (hsum : 2 ^ 31 ≤ buffer.offset.toInt + size.toInt) :
    buffer.copy size = some ⟨buffer.offset.toInt, size.toInt⟩ := by
  have hoffset := buffer.offset.toInt_lt
  have hsize := size.toInt_lt
  have hneg : (buffer.offset + size).toInt < 0 := by
    rw [Int32.toInt_add, Int.bmod_def]
    split
    · omega
    · omega
  refine if_neg ?_
  rw [gt_iff_lt, Int32.lt_iff_toInt_lt]
  have hpos := hb.1.trans hb.2
  omega

/-- There is a block of every size that is not negative. -/
theorem exists_block (size : Int32) (h : 0 ≤ size.toInt) : ∃ data : Block, data.size = size := by
  refine ⟨⟨size, List.replicate size.toInt.toNat 0, ?_⟩, rfl⟩
  rw [List.length_replicate, Int.toNat_of_nonneg h]

/-- Where the copy goes on behind the stream, nothing is known of the bytes that it finds. -/
theorem next_of_overflow (hb : buffer.InBounds) {data : Block}
    (hsum : 2 ^ 31 ≤ buffer.offset.toInt + data.size.toInt) :
    ReadStep.next buffer (.block data) = some (buffer.afterRead data.size) := by
  have hcopy := Buffer.copy_of_overflow hb hsum
  have hout : ¬ Copy.Inside ⟨buffer.offset.toInt, data.size.toInt⟩ buffer := by
    rintro ⟨-, -, hend⟩
    have hlt := buffer.streamSize.toInt_lt
    simp only at hend
    omega
  refine if_pos ?_
  simp [Buffer.delivers, hcopy, hout]

/-- **A step stays inside exactly when its sum is an `int32_t`.** -/
theorem readsInside_step (hb : buffer.InBounds) (hstep : l.next buffer = some buffer') :
    ReadsInside ⟨buffer, l, buffer'⟩ ↔ ¬ Overflows buffer l := by
  constructor
  · rintro hinside ⟨size, hsize, hsum⟩
    -- the copy that is made ends behind the stream
    obtain ⟨-, -, hend⟩ := hinside.copies size hsize _ (Buffer.copy_of_overflow hb hsum)
    have hlt := buffer.streamSize.toInt_lt
    simp only at hend
    omega
  · intro hno
    have hread : ∀ size ∈ l.size, (buffer.offset + size).toInt = buffer.offset.toInt + size.toInt ∧
        (buffer.offset + size > buffer.streamSize ↔
          buffer.streamSize.toInt < buffer.offset.toInt + size.toInt) := by
      intro size hsize
      exact Buffer.test_iff hb (ReadStep.size_nonneg hsize) (not_le.mp fun h => hno ⟨size, hsize, h⟩)
    refine ⟨?_, hb, ?_, ?_⟩
    · intro size hsize c hc
      unfold Buffer.copy at hc
      split at hc
      · exact absurd hc (by simp)
      · rename_i htest
        obtain rfl := Option.some.inj hc
        rw [(hread size hsize).2] at htest
        exact ⟨ReadStep.size_nonneg hsize, hb.1, not_lt.mp htest⟩
    · cases hl : l.size with
      | none =>
        cases l with
        | rewind =>
          obtain rfl := Option.some.inj hstep
          exact ⟨le_refl 0, hb.1.trans hb.2⟩
        | int32 value => exact absurd hl (by simp [ReadStep.size])
        | block data => exact absurd hl (by simp [ReadStep.size])
      | some size =>
        obtain ⟨hsum, htest⟩ := hread size hl
        rw [ReadStep.next_eq hl hstep]
        unfold Buffer.afterRead
        split
        · exact hb
        · rename_i hfits
          rw [htest] at hfits
          refine ⟨?_, hsum.le.trans (not_lt.mp hfits)⟩
          show 0 ≤ (buffer.offset + size).toInt
          have h0 := ReadStep.size_nonneg hl
          have hpos := hb.1
          omega
    · intro size hsize hlong
      have htest := (hread size hsize).2.mpr hlong
      exact ⟨if_pos htest, (ReadStep.next_eq hsize hstep).trans (if_pos htest)⟩

/-- A copy that stays inside has an `int32_t` for its sum. -/
theorem Buffer.copy_inside (hb : buffer.InBounds) {c : Copy} (hc : buffer.copy size = some c)
    (hinside : c.Inside buffer) : c = ⟨buffer.offset.toInt, size.toInt⟩ ∧
      buffer.afterRead size =
        { buffer with offset := Int32.ofInt (buffer.offset.toInt + size.toInt) } := by
  unfold Buffer.copy at hc
  split at hc
  · exact absurd hc (by simp)
  · rename_i htest
    obtain rfl := Option.some.inj hc
    obtain ⟨h0, -, hend⟩ := hinside
    have hlt := buffer.streamSize.toInt_lt
    have hsum := (Buffer.test_iff hb h0 (hend.trans_lt hlt)).1
    refine ⟨rfl, ?_⟩
    have hoffset : buffer.offset + size = Int32.ofInt (buffer.offset.toInt + size.toInt) := by
      rw [← hsum, Int32.ofInt_toInt]
    rw [Buffer.afterRead, if_neg htest, hoffset]

/-- **A copy that stays inside is the `buffer_read` of the other modules**, and they make no other. -/
theorem bufferRead_iff (hb : buffer.InBounds) (data : Block) :
    (bufferRead data.size).run buffer = some (data, buffer') ↔
      ReadStep.next buffer (.block data) = some buffer' ∧
        ∃ c, buffer.copy data.size = some c ∧ c.Inside buffer := by
  have h0 : 0 ≤ data.size.toInt := by
    rw [data.sized]
    exact Int.natCast_nonneg _
  have hread : (bufferRead data.size).run buffer = bufferRead data.size buffer := rfl
  rw [hread]
  unfold bufferRead
  simp only
  constructor
  · intro hrun
    split at hrun
    · exact absurd hrun (by simp)
    · rename_i hguard
      split at hrun
      · rename_i hlen
        obtain ⟨hdata, rfl⟩ := Prod.mk.inj (Option.some.inj hrun)
        have hcopy : buffer.copy data.size = some ⟨buffer.offset.toInt, data.size.toInt⟩ := by
          refine if_neg ?_
          rw [(Buffer.test_iff hb h0 (by omega)).2]
          omega
        have hinside : Copy.Inside ⟨buffer.offset.toInt, data.size.toInt⟩ buffer :=
          ⟨h0, hb.1, by simp only; omega⟩
        have hdelivers : buffer.delivers data.size data.data = true := by
          rw [Buffer.delivers, hcopy]
          simp only [Option.all_some, Bool.or_eq_true, decide_eq_true_eq]
          exact Or.inr (congrArg Block.data hdata).symm
        refine ⟨?_, _, hcopy, hinside⟩
        rw [ReadStep.next, if_pos hdelivers, (Buffer.copy_inside hb hcopy hinside).2]
      · exact absurd hrun (by simp)
  · rintro ⟨hstep, c, hcopy, hinside⟩
    obtain ⟨rfl, hafter⟩ := Buffer.copy_inside hb hcopy hinside
    simp only [ReadStep.next, Buffer.delivers, hcopy, hinside, Option.all_some, decide_true,
      Bool.not_true, Bool.false_or, decide_eq_true_eq, Option.ite_none_right_eq_some,
      Option.some.injEq] at hstep
    obtain ⟨hdata, rfl⟩ := hstep
    have hlt := buffer.streamSize.toInt_lt
    have hend := hinside.2.2
    simp only at hend
    rw [if_neg (by omega), dif_pos (by rw [← hdata]; exact data.sized), hafter]
    simp only [← hdata]

end Step

/-! ## 5. Runs -/

/-- What `recvWaitall` leaves in its destination is as long as it was. -/
theorem recvWaitall_length {dest stream data rest : List UInt8} {count : Nat}
    (h : (recvWaitall dest).run stream = some ((count, data), rest)) :
    data.length = dest.length ∧ (count ≠ 0 → 0 < dest.length) := by
  obtain ⟨hpair, -⟩ := Prod.mk.inj (Option.some.inj h)
  obtain ⟨rfl, rfl⟩ := Prod.mk.inj hpair
  constructor
  · rw [List.length_append, List.length_take, List.length_drop]
    omega
  · omega

/-- **A package that comes from the network has a payload**, with the cursor at its end. -/
theorem exists_payload {before : Uninit} {stream rest : List UInt8} {package : Package}
    (h : (recvPackageEof before).run stream = some (some package, rest)) :
    ∃ payload : List UInt8, 0 < payload.length ∧ Short payload ∧
      package.buffer = receivedBuffer payload := by
  unfold recvPackageEof at h
  simp only [StateT.run_bind, Option.bind_eq_bind, Option.bind_eq_some_iff] at h
  obtain ⟨⟨⟨count, opcode⟩, s1⟩, -, h⟩ := h
  simp only at h
  split at h
  · simp at h
  · simp only [StateT.run_bind, Option.bind_eq_bind, Option.bind_eq_some_iff] at h
    obtain ⟨⟨⟨count, size⟩, s2⟩, -, h⟩ := h
    simp only at h
    split at h
    · simp at h
    · simp only [StateT.run_bind, Option.bind_eq_bind, Option.bind_eq_some_iff] at h
      obtain ⟨⟨_, s3⟩, -, ⟨⟨count, data⟩, s4⟩, hdata, h⟩ := h
      simp only at h
      split at h
      · simp at h
      · rename_i hcount
        obtain ⟨hlen, hpos⟩ := recvWaitall_length hdata
        rw [before.block_length] at hlen hpos
        have h0 := hpos hcount
        have hlt := (int32OfBytes size).toInt_lt
        have hshort : Short data := by
          unfold Short
          omega
        have hsize : Int32.ofNat data.length = int32OfBytes size := by
          apply Int32.toInt.inj
          rw [toInt_ofNat_of_lt hshort, hlen]
          omega
        obtain ⟨empty, hcreate, hadd⟩ := bufferAdd_received hshort
        rw [hsize] at hcreate hadd
        simp [StateT.run_bind, hcreate, hadd] at h
        exact ⟨data, by omega, hshort, by rw [← h.1]⟩

theorem inBounds_received {payload : List UInt8} (h : Short payload) :
    (receivedBuffer payload).InBounds := by
  have hsize := toInt_ofNat_of_lt h
  constructor
  · show 0 ≤ (Int32.ofNat payload.length).toInt
    omega
  · exact le_refl _

/-- **Exactly when a reader stays inside the payload.**  For every package that comes from the network,
whatever its payload and what the destinations held, and all steps on its buffer, those of the package readers
among them: every copy reads the payload only, the offset stays in it, and a read that does not fit copies
nothing and leaves the offset alone, if and only if no step has an offset and a size whose sum is not an
`int32_t`. -/
theorem readsInside_iff {before : Uninit} {stream rest : List UInt8} {package : Package}
    (hrecv : (recvPackageEof before).run stream = some (some package, rest))
    {tr : List (Transition Buffer ReadStep)} {buffer : Buffer}
    (hr : (reading package.buffer).Run tr buffer) :
    (∀ x ∈ tr, ReadsInside x) ↔ ∀ x ∈ tr, ¬ Overflows x.src x.label := by
  obtain ⟨payload, -, hshort, hbuffer⟩ := exists_payload hrecv
  refine hr.steps_iff (I := Buffer.InBounds) (C := fun b l => ¬ Overflows b l) ?_ ?_ ?_
  · rintro _ rfl
    rw [hbuffer]
    exact inBounds_received hshort
  · exact fun b l b' hb hst => readsInside_step hb hst
  · exact fun b l b' hb hno hst => ((readsInside_step hb hst).mpr hno).after

/-- A WRITE_MEMORY of two bytes. -/
def smallWrite : List UInt8 := int32Bytes 0 ++ int32Bytes 2 ++ [7, 8]

/-- The theorem at work on it. -/
theorem readsInside_iff_small :
    ∃ package tr buffer, (recvPackageEof Uninit.ones).run
        (framed Opcode.writeMemory.code smallWrite) = some (some package, []) ∧
      (reading package.buffer).Run tr buffer ∧
      Reader.readMemoryWriteRequest.Makes (tr.map (·.label)) ∧ ∀ x ∈ tr, ReadsInside x := by
  have hshort : Short smallWrite := by
    unfold Short
    decide
  have hreads := @recvPackageEof_reads Uninit.ones Opcode.writeMemory.code smallWrite hshort (by decide)
  obtain ⟨_, hrecv, rfl⟩ := hreads _ [] (List.append_nil _).symm
  obtain ⟨tr, buffer, hrun, hlabels, htest⟩ := Lts.exists_run_labels_of_drive (receivedBuffer smallWrite)
    ReadStep.next [.rewind, .int32 0, .int32 2, .block ⟨2, [7, 8], rfl⟩]
    (fun tr _ => tr.all fun x => decide (¬ Overflows x.src x.label)) (by decide +kernel)
  refine ⟨_, tr, buffer, hrecv, hrun, ?_, (readsInside_iff hrecv hrun).mpr fun x hx => ?_⟩
  · rw [hlabels]
    exact ⟨rfl, trivial⟩
  · exact of_decide_eq_true (List.all_eq_true.mp htest x hx)

/-- A WRITE_MEMORY of no bytes that says it has as many as an `int32_t` can count. -/
def hugeWrite : List UInt8 := int32Bytes 0 ++ int32Bytes (2 ^ 31 - 1)

/-- **The sum of 8 and the largest `int32_t` is negative**, and more than two thousand million bytes are copied
from behind a payload of eight. -/
theorem not_readsInside :
    ¬ ∀ (before : Uninit) (stream rest : List UInt8) (package : Package)
        (tr : List (Transition Buffer ReadStep)) (buffer : Buffer),
      (recvPackageEof before).run stream = some (some package, rest) →
      (reading package.buffer).Run tr buffer →
      (∃ reader ∈ packageReaders, reader.Makes (tr.map (·.label))) → ∀ x ∈ tr, ReadsInside x := by
  intro hall
  have hshort : Short hugeWrite := by
    unfold Short
    decide
  have hreads := @recvPackageEof_reads Uninit.ones Opcode.writeMemory.code hugeWrite hshort (by decide)
  obtain ⟨_, hrecv, rfl⟩ := hreads _ [] (List.append_nil _).symm
  obtain ⟨tr, buffer, hrun, hlabels, htest⟩ := Lts.exists_run_labels_of_drive (receivedBuffer hugeWrite)
    ReadStep.next [.rewind, .int32 0, .int32 (2 ^ 31 - 1)]
    (fun _ buffer => decide (buffer.offset = 8 ∧ buffer.streamSize = 8)) (by decide +kernel)
  obtain ⟨hoffset, hsize⟩ := of_decide_eq_true htest
  have hbounds : buffer.InBounds := by
    rw [Buffer.InBounds, hoffset, hsize]
    decide
  obtain ⟨data, hdata⟩ := exists_block (2 ^ 31 - 1) (by decide)
  have hsum : 2 ^ 31 ≤ buffer.offset.toInt + data.size.toInt := by
    rw [hoffset, hdata]
    decide
  have hstep := next_of_overflow hbounds hsum
  have hmakes : Reader.readMemoryWriteRequest.Makes
      (tr.map (·.label) ++ [.block data]) := by
    rw [hlabels]
    exact ⟨hdata, trivial⟩
  have hwrong := hall _ _ _ _ _ _ hrecv (hrun.step hstep)
    ⟨.readMemoryWriteRequest, by simp [packageReaders], by rw [List.map_append]; exact hmakes⟩ _
    (List.mem_append_right _ List.mem_cons_self)
  exact (readsInside_step hbounds hstep).mp hwrong ⟨data.size, rfl, hsum⟩

end Tpso.Utils
