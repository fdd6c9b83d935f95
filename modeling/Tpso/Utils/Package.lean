/-
# A package on a connection

A package is an opcode and a buffer.  On the wire it is the opcode, the size of the stream and the stream;
there is nothing between one package and the next.  The receiver reads the opcode and the size, four bytes
each, and then as many bytes as the size says (`recvPackage_reads`).

A stream is received into a buffer with the cursor at its end.
-/
import Tpso.Utils.Buffer

namespace Tpso.Utils

open Tpso.Lib

/-! ## 1. Packages -/

/-- The codes of `Eopcodes.h`, in their order. -/
inductive Opcode where
  | fetch | instruction | listInstructions | getFreeSpace | initProcess | unsuspendProcess
  | killProcess | swap | writeMemory | readMemory | cDumpMemory | getPageEntry
  | confirmation
  | newIo | ioCompletion | syscall
  | dispatch | interrupt | cpuContext
  | ioOperation
deriving DecidableEq, Repr

/-- An `OPCODE` is an `int32_t`. -/
def Opcode.code (opcode : Opcode) : Int32 := Int32.ofNat opcode.ctorIdx

/-- `t_package`. -/
structure Package where
  opcode : Int32
  buffer : Buffer
deriving DecidableEq, Repr

/-- `create_package`. -/
def createPackage (opcode : Opcode) (buffer : Buffer) : Package := ⟨opcode.code, buffer⟩

/-- The shape of every `create_*_package`: a buffer of a first size, writes, and the package. -/
def packed (opcode : Opcode) (size : Int32) (write : BufferM Unit) : Option Package := do
  let buffer ← bufferCreate size
  let (_, buffer) ← write.run buffer
  pure (createPackage opcode buffer)

/-- `serialize_package`: the total size is an `int32_t` as well. -/
def serializePackage (package : Package) : Option (List UInt8) :=
  let totalSize := Int32.ofInt (8 + package.buffer.streamSize.toInt)
  if totalSize.toInt < 0 then none
  else
    some (int32Bytes package.opcode ++ int32Bytes package.buffer.streamSize ++
      package.buffer.stream.take package.buffer.streamSize.toInt.toNat)

/-! ## 2. The connection -/

/-- The bytes on a connection, on the side of the sender those sent so far, on the side of the receiver
those not yet received. -/
abbrev Connection := StateT (List UInt8) Option

/-- `send`, which transmits all of its bytes. -/
def send (data : List UInt8) : Connection Unit := modify (· ++ data)

/-- `recv` with `MSG_WAITALL`.  A call for no bytes returns 0, which its callers take for an error. -/
def recv (size : Nat) : Connection (List UInt8) := fun stream =>
  if size = 0 ∨ stream.length < size then none else some (stream.take size, stream.drop size)

/-- `send_package`. -/
def sendPackage (package : Package) : Connection Unit := do
  let data ← StateT.lift (serializePackage package)
  send data

/-- `recv_package`. -/
def recvPackage : Connection Package := do
  let opcode ← recv 4
  let size ← recv 4
  let bufferStreamSize := int32OfBytes size
  let data ← recv bufferStreamSize.toInt.toNat
  let buffer ← StateT.lift (bufferCreate bufferStreamSize)
  let (_, buffer) ← StateT.lift ((bufferAdd data bufferStreamSize).run buffer)
  pure ⟨int32OfBytes opcode, buffer⟩

/-! ## 3. What they do -/

/-- What a package with this stream is on the wire. -/
def framed (opcode : Int32) (stream : List UInt8) : List UInt8 :=
  int32Bytes opcode ++ int32Bytes (Int32.ofNat stream.length) ++ stream

/-- Every `create_*_package` whose first size is no larger than what it writes. -/
theorem packed_eq {opcode : Opcode} {size : Int32} {n : Nat} {write : BufferM Unit} {bytes : List UInt8}
    (hsize : size.toInt = n) (hwrite : Writes (Filling n) Short write bytes) (hn : n ≤ bytes.length)
    (hshort : Short bytes) : ∃ buffer, packed opcode size write = some (createPackage opcode buffer) ∧
      buffer.stream = bytes ∧ buffer.streamSize.toInt = bytes.length := by
  obtain ⟨empty, hcreate, hempty⟩ := filling_create hsize
  obtain ⟨buffer, hrun, hfilled⟩ := hwrite empty [] hempty hshort
  refine ⟨buffer, ?_, hfilled.full hn⟩
  simp [packed, hcreate, hrun]

/-- Sending a package writes its frame, unless the total size is out of range. -/
theorem sendPackage_writes (package : Package) {bytes : List UInt8}
    (hstream : package.buffer.stream = bytes)
    (hsize : package.buffer.streamSize.toInt = bytes.length) (hfit : 8 + bytes.length < 2 ^ 31)
    (sent : List UInt8) :
    Writes (fun s done => s = sent ++ done) (fun _ => True) (sendPackage package)
      (framed package.opcode bytes) := by
  rintro s done rfl -
  have htotal : (Int32.ofInt (8 + package.buffer.streamSize.toInt)).toInt = 8 + bytes.length := by
    rw [hsize, Int32.toInt_ofInt_of_le (by omega) (by omega)]
  have hcount : package.buffer.streamSize = Int32.ofNat bytes.length := by
    apply Int32.toInt.inj
    rw [hsize, toInt_ofNat_of_lt (by omega)]
  have hserial : serializePackage package = some (framed package.opcode bytes) := by
    simp only [serializePackage, htotal]
    rw [if_neg (by omega), hsize, hstream, Int.toNat_natCast, List.take_length, framed, hcount]
  exact ⟨sent ++ (done ++ framed package.opcode bytes), by simp [sendPackage, hserial, send], rfl⟩

/-- `recv` takes the bytes that come next. -/
theorem recv_reads {bytes : List UInt8} {n : Nat} (hlen : bytes.length = n) (hpos : 0 < n) :
    Reads (· = ·) (recv n) bytes bytes := by
  rintro s rest rfl
  refine ⟨rest, ?_, rfl⟩
  have hguard : ¬ (n = 0 ∨ (bytes ++ rest).length < n) := by
    rw [List.length_append]
    omega
  show recv n (bytes ++ rest) = _
  simp only [recv, if_neg hguard, List.take_left' hlen, List.drop_left' hlen]

/-- The buffer that a stream is received into. -/
def receivedBuffer (stream : List UInt8) : Buffer :=
  ⟨Int32.ofNat stream.length, stream, Int32.ofNat stream.length⟩

/-- A stream is copied whole into the buffer. -/
theorem bufferAdd_received {stream : List UInt8} (hshort : Short stream) :
    ∃ empty, bufferCreate (Int32.ofNat stream.length) = some empty ∧
      (bufferAdd stream (Int32.ofNat stream.length)).run empty =
        some ((), receivedBuffer stream) := by
  have hsize := toInt_ofNat_of_lt hshort
  obtain ⟨empty, hcreate, hempty⟩ := filling_create hsize
  obtain ⟨buffer, hrun, hfilled⟩ := bufferAdd_writes hsize empty [] hempty hshort
  refine ⟨empty, hcreate, hrun.trans ?_⟩
  obtain ⟨hstream, hlength⟩ := hfilled.full le_rfl
  have hoffset := hfilled.offset
  rw [List.nil_append] at hstream hlength hoffset
  have hbuffer : buffer = receivedBuffer stream := by
    obtain ⟨streamSize, data, offset⟩ := buffer
    simp only [receivedBuffer, Buffer.mk.injEq]
    exact ⟨Int32.toInt.inj (hlength.trans hsize.symm), hstream,
      Int32.toInt.inj (hoffset.trans hsize.symm)⟩
  rw [hbuffer]

/-- **Receiving takes one frame**, where the stream is not empty. -/
theorem recvPackage_reads {opcode : Int32} {stream : List UInt8} (hshort : Short stream)
    (hpos : 0 < stream.length) :
    Reads (· = ·) recvPackage (framed opcode stream) ⟨opcode, receivedBuffer stream⟩ := by
  obtain ⟨empty, hcreate, hadd⟩ := bufferAdd_received hshort
  have hsize := toInt_ofNat_of_lt hshort
  unfold recvPackage framed
  rw [List.append_assoc]
  refine (recv_reads (length_int32Bytes opcode) (by omega)).bind ?_
  refine (recv_reads (length_int32Bytes _) (by omega)).bind ?_
  simp only [int32OfBytes_int32Bytes, hsize, Int.toNat_natCast]
  refine (recv_reads rfl hpos).bind_nil ?_
  refine (Reads.lift hcreate).bind_nil ?_
  exact (Reads.lift hadd).bind_nil (Reads.pure _)

end Tpso.Utils
