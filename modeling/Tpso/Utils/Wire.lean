/-
# Every message survives the wire

What a message is on the wire is a list of fields (`Message.fields`): numbers, strings and blocks, the last
two behind their length.  Each writer puts exactly these fields into its buffer (`create_eq`), whatever room
it asked for first, and each reader takes exactly these back (`read_yields`).  The frame around them says
how long they are, so one package ends where the next begins (`messages_survive`).

The lengths are `int32_t`, and so is the total size of a package, with the eight bytes in front of its
stream.  This is the only limit: a block of 2^31 - 1 bytes has a size that an `int32_t` can hold, and still
no package can carry it (`not_every_message_survives`).
-/
import Tpso.Utils.Messages

namespace Tpso.Utils

open Tpso.Lib

/-! ## 1. Messages -/

/-- A message of any kind. -/
inductive Message where
  | syscall (data : SyscallPackageData)
  | initProcess (data : InitProcessPackageData)
  | pageEntryRequest (data : PageEntryRequestData)
  | pageEntryResponse (data : PageEntryResponseData)
  | memoryReadRequest (data : MemoryReadRequest)
  | memoryReadResponse (data : Block)
  | memoryWriteRequest (data : MemoryWriteRequest)
  | mmuPageReadResponse (page : Block)
  | cpuContext (data : CpuContextPackageData)
  | ioCompletion (data : IoCompletionPackageData)
  | ioOperation (data : IoOperationPackageData)
  | swap (pid : Int32)
  | swapIn (pid : Int32)
  | instruction (text : CString)
  | confirmation (success : Bool)
  | newIo (deviceName : CString)
  | dispatch (data : PidAndPc)
  | fetch (data : PidAndPc)
  | interrupt (pid : Int32)
  | killProcess (pid : Int32)
  | dumpMemory (pid : Int32)
deriving DecidableEq, Repr

/-- The kinds: two of them may have one opcode, and the receiver knows which one it waits for. -/
inductive Kind where
  | syscall | initProcess | pageEntryRequest | pageEntryResponse | memoryReadRequest
  | memoryReadResponse | memoryWriteRequest | mmuPageReadResponse | cpuContext | ioCompletion
  | ioOperation | swap | swapIn | instruction | confirmation | newIo | dispatch | fetch | interrupt
  | killProcess | dumpMemory
deriving DecidableEq, Repr

def Message.kind : Message → Kind
  | .syscall _ => .syscall
  | .initProcess _ => .initProcess
  | .pageEntryRequest _ => .pageEntryRequest
  | .pageEntryResponse _ => .pageEntryResponse
  | .memoryReadRequest _ => .memoryReadRequest
  | .memoryReadResponse _ => .memoryReadResponse
  | .memoryWriteRequest _ => .memoryWriteRequest
  | .mmuPageReadResponse _ => .mmuPageReadResponse
  | .cpuContext _ => .cpuContext
  | .ioCompletion _ => .ioCompletion
  | .ioOperation _ => .ioOperation
  | .swap _ => .swap
  | .swapIn _ => .swapIn
  | .instruction _ => .instruction
  | .confirmation _ => .confirmation
  | .newIo _ => .newIo
  | .dispatch _ => .dispatch
  | .fetch _ => .fetch
  | .interrupt _ => .interrupt
  | .killProcess _ => .killProcess
  | .dumpMemory _ => .dumpMemory

def Kind.opcode : Kind → Opcode
  | .syscall => .syscall
  | .initProcess => .initProcess
  | .pageEntryRequest => .getPageEntry
  | .pageEntryResponse => .getPageEntry
  | .memoryReadRequest => .readMemory
  | .memoryReadResponse => .readMemory
  | .memoryWriteRequest => .writeMemory
  | .mmuPageReadResponse => .readMemory
  | .cpuContext => .cpuContext
  | .ioCompletion => .ioCompletion
  | .ioOperation => .ioOperation
  | .swap => .swap
  | .swapIn => .unsuspendProcess
  | .instruction => .instruction
  | .confirmation => .confirmation
  | .newIo => .newIo
  | .dispatch => .dispatch
  | .fetch => .fetch
  | .interrupt => .interrupt
  | .killProcess => .killProcess
  | .dumpMemory => .cDumpMemory

/-- The writer of each kind. -/
def Message.create : Message → Option Package
  | .syscall data => createSyscallPackage data
  | .initProcess data => createInitProcessPackage data.pid data.size (some data.pseudocodePath)
  | .pageEntryRequest data => createPageEntryRequestPackage data.pid data.tableId data.entryIndex
  | .pageEntryResponse data => respondPageEntry data
  | .memoryReadRequest data => createMemoryReadRequestPackage data
  | .memoryReadResponse data => createPackageMemoryReadResponse data
  | .memoryWriteRequest data => createMemoryWriteRequestPackage data
  | .mmuPageReadResponse page => createMmuPageReadResponse page
  | .cpuContext data => createCpuContextPackage data.pid data.pc data.interruptedSamePid
  | .ioCompletion data => createIoCompletionPackage data.deviceName data.pid
  | .ioOperation data => createIoOperationPackage data.pid data.sleepTime
  | .swap pid => createSwapOperationPackage pid .swap
  | .swapIn pid => createSwapOperationPackage pid .unsuspendProcess
  | .instruction text => createInstructionPackage text
  | .confirmation success => createConfirmationPackage (if success then 1 else 0)
  | .newIo deviceName => createNewIoPackage deviceName
  | .dispatch data => createDispatchPackage data.pid data.pc
  | .fetch data => createFetchPackage data.pid data.pc
  | .interrupt pid => createInterruptPackage pid
  | .killProcess pid => createKillProcessPackage pid
  | .dumpMemory pid => createDumpMemoryPackage pid

/-- The reader of each kind. -/
def Kind.read : Kind → BufferM Message
  | .syscall => Message.syscall <$> readSyscallPackage
  | .initProcess => Message.initProcess <$> readInitProcessPackage
  | .pageEntryRequest => Message.pageEntryRequest <$> readPageEntryRequestPackage
  | .pageEntryResponse => Message.pageEntryResponse <$> readPageEntryResponsePackage
  | .memoryReadRequest => Message.memoryReadRequest <$> readMemoryReadRequest
  | .memoryReadResponse => Message.memoryReadResponse <$> readMemoryReadResponse
  | .memoryWriteRequest => Message.memoryWriteRequest <$> readMemoryWriteRequest
  | .mmuPageReadResponse => Message.mmuPageReadResponse <$> readMmuPageReadResponse
  | .cpuContext => Message.cpuContext <$> readCpuContextPackage
  | .ioCompletion => Message.ioCompletion <$> readIoCompletionPackage
  | .ioOperation => Message.ioOperation <$> readIoOperationPackage
  | .swap => Message.swap <$> readSwapPackage
  | .swapIn => Message.swapIn <$> readSwapPackage
  | .instruction => Message.instruction <$> readInstructionPackage
  | .confirmation => Message.confirmation <$> readConfirmationPackage
  | .newIo => Message.newIo <$> readNewIoPackage
  | .dispatch => Message.dispatch <$> readDispatchPackage
  | .fetch => Message.fetch <$> readFetchPackage
  | .interrupt => Message.interrupt <$> readInterruptPackage
  | .killProcess => Message.killProcess <$> readKillProcessPackage
  | .dumpMemory => Message.dumpMemory <$> readDumpMemoryPackage

/-- Sending a message. -/
def Message.send (m : Message) : Connection Unit := do
  let package ← StateT.lift m.create
  sendPackage package

/-- Receiving a message of a kind: its opcode and what the reader returns. -/
def Kind.receive (kind : Kind) : Connection (Int32 × Message) := do
  let package ← recvPackage
  let m ← StateT.lift (kind.read.run' package.buffer)
  pure (package.opcode, m)

/-! ## 2. The fields of a message -/

/-- A field: a number, or a string or a block behind its length. -/
inductive Field where
  | int (x : Int32)
  | string (s : CString)
  | block (b : Block)
deriving DecidableEq, Repr

def Field.bytes : Field → List UInt8
  | .int x => int32Bytes x
  | .string s => int32Bytes s.lengthWithNul ++ s.bytes
  | .block b => int32Bytes b.size ++ b.data

/-- The parameters of a system call. -/
def SyscallParams.fields : SyscallParams → List Field
  | .initProc memorySpace pseudocodeFile => [.int memorySpace, .string pseudocodeFile]
  | .io deviceName sleepTime => [.string deviceName, .int sleepTime]
  | .dumpMemory => []
  | .exit => []

/-- What is sent of a message, in order. -/
def Message.fields : Message → List Field
  | .syscall data =>
    .int data.params.syscallType :: .int data.pid :: .int data.pc :: data.params.fields
  | .initProcess data => [.int data.pid, .int data.size, .string data.pseudocodePath]
  | .pageEntryRequest data => [.int data.pid, .int data.tableId, .int data.entryIndex]
  | .pageEntryResponse data => [.int data.value, .int (if data.isLastLevel then 0 else 1)]
  | .memoryReadRequest data => [.int data.physicalAddress, .int data.size]
  | .memoryReadResponse data => [.block data]
  | .memoryWriteRequest data => [.int data.physicalAddress, .block data.data]
  | .mmuPageReadResponse page => [.block page]
  | .cpuContext data => [.int data.pid, .int data.pc, .int data.interruptedSamePid]
  | .ioCompletion data => [.string data.deviceName, .int data.pid]
  | .ioOperation data => [.int data.pid, .int data.sleepTime]
  | .swap pid => [.int pid]
  | .swapIn pid => [.int pid]
  | .instruction text => [.string text]
  | .confirmation success => [.int (if success then 1 else 0)]
  | .newIo deviceName => [.string deviceName]
  | .dispatch data => [.int data.pid, .int data.pc]
  | .fetch data => [.int data.pid, .int data.pc]
  | .interrupt pid => [.int pid]
  | .killProcess pid => [.int pid]
  | .dumpMemory pid => [.int pid]

/-- The bytes of a list of fields. -/
def fieldBytes (fields : List Field) : List UInt8 := fields.flatMap Field.bytes

/-- The stream of a message. -/
def Message.stream (m : Message) : List UInt8 := fieldBytes m.fields

/-- The size of the whole package. -/
def Message.totalSize (m : Message) : Nat := 8 + m.stream.length

/-! ## 3. Each writer writes the fields -/

/-- `create` builds the package of this opcode whose stream is `bytes`. -/
def Builds (create : Option Package) (opcode : Opcode) (bytes : List UInt8) : Prop :=
  ∃ buffer, create = some (createPackage opcode buffer) ∧ buffer.stream = bytes ∧
    buffer.streamSize.toInt = bytes.length

/-- The sum of two sizes. -/
theorem toInt_add_of_lt {a b : Int32} {x y : Nat} (ha : a.toInt = x) (hb : b.toInt = y)
    (h : x + y < 2 ^ 31) : (a + b).toInt = ((x + y : Nat) : Int) := by
  rw [Int32.toInt_add, ha, hb, ← Nat.cast_add]
  exact Int.bmod_eq_of_le (by omega) (by omega)

section Builds

variable {n : Nat} {w w' : BufferM Unit} {f : Field} {fs : List Field} {opcode : Opcode}

/-- One field, and then the others. -/
theorem writes_cons (hf : Writes (Filling n) Short w f.bytes)
    (hfs : Writes (Filling n) Short w' (fieldBytes fs)) :
    Writes (Filling n) Short (do w; w') (fieldBytes (f :: fs)) := hf.bind Short.left hfs

/-- The last field. -/
theorem writes_last (hf : Writes (Filling n) Short w f.bytes) :
    Writes (Filling n) Short w (fieldBytes [f]) := by
  rwa [fieldBytes, List.flatMap_singleton]

theorem writes_int (x : Int32) : Writes (Filling n) Short (bufferAddInt32 x) (Field.int x).bytes :=
  bufferAddInt32_writes x

theorem writes_string (s : CString) :
    Writes (Filling n) Short (bufferAddString s.lengthWithNul s.bytes) (Field.string s).bytes :=
  bufferAddCString_writes s

/-- A block, with its length written by hand or not. -/
theorem writes_block (b : Block) :
    Writes (Filling n) Short (do bufferAddInt32 b.size; bufferAdd b.data b.size)
      (Field.block b).bytes := bufferAddString_writes b

@[simp] theorem length_fieldBytes_cons :
    (fieldBytes (f :: fs)).length = f.bytes.length + (fieldBytes fs).length := by
  simp [fieldBytes]

@[simp] theorem length_fieldBytes_nil : (fieldBytes []).length = 0 := rfl

@[simp] theorem length_int (x : Int32) : (Field.int x).bytes.length = 4 := length_int32Bytes x

@[simp] theorem length_string (s : CString) :
    (Field.string s).bytes.length = 4 + s.bytes.length := by
  simp [Field.bytes]

@[simp] theorem length_block (b : Block) : (Field.block b).bytes.length = 4 + b.data.length := by
  simp [Field.bytes]

/-- A package of one number. -/
theorem createInt32Package_builds (x : Int32) :
    Builds (createInt32Package opcode x) opcode (fieldBytes [.int x]) :=
  packed_eq (n := 4) rfl (writes_last (writes_int x)) (by simp) (by simp [Short])

/-- A package of two numbers. -/
theorem twoInts_builds (x y : Int32) :
    Builds (packed opcode 8 do bufferAddInt32 x; bufferAddInt32 y) opcode
      (fieldBytes [.int x, .int y]) :=
  packed_eq (n := 8) rfl (writes_cons (writes_int x) (writes_last (writes_int y))) (by simp)
    (by simp [Short])

/-- A package of three numbers, with room for all of them or for fewer. -/
theorem threeInts_builds {size : Int32} (hsize : size.toInt = n) (hn : n ≤ 12) (x y z : Int32) :
    Builds (packed opcode size do bufferAddInt32 x; bufferAddInt32 y; bufferAddInt32 z) opcode
      (fieldBytes [.int x, .int y, .int z]) :=
  packed_eq hsize (writes_cons (writes_int x) (writes_cons (writes_int y)
    (writes_last (writes_int z)))) (by simpa using hn) (by simp [Short])

/-- A package of one string. -/
theorem createCStringPackage_builds {s : CString} (h : Short (fieldBytes [.string s])) :
    Builds (createCStringPackage opcode s) opcode (fieldBytes [.string s]) :=
  packed_eq (n := 0) rfl (writes_last (writes_string s)) (Nat.zero_le _) h

end Builds

/-- The parameters of a system call. -/
theorem writes_syscallParams {n : Nat} (params : SyscallParams) :
    Writes (Filling n) Short
      (match params with
        | .initProc memorySpace pseudocodeFile => do
          bufferAddInt32 memorySpace
          bufferAddString pseudocodeFile.lengthWithNul pseudocodeFile.bytes
        | .io deviceName sleepTime => do
          bufferAddString deviceName.lengthWithNul deviceName.bytes
          bufferAddInt32 sleepTime
        | .dumpMemory => pure ()
        | .exit => pure ())
      (fieldBytes params.fields) := by
  cases params with
  | initProc memorySpace file => exact writes_cons (writes_int _) (writes_last (writes_string _))
  | io device sleepTime => exact writes_cons (writes_string _) (writes_last (writes_int _))
  | dumpMemory => exact Writes.pure
  | exit => exact Writes.pure

/-- **Each writer puts exactly the fields into its buffer**, as long as their bytes have a size. -/
theorem create_builds (m : Message) (h : Short m.stream) : Builds m.create m.kind.opcode m.stream := by
  have hshort : m.stream.length < 2 ^ 31 := h
  cases m with
  | syscall data =>
    have hlen : (Message.syscall data).stream.length =
        12 + (fieldBytes data.params.fields).length := by
      simp only [Message.stream, Message.fields, length_fieldBytes_cons, length_int]
      omega
    exact packed_eq (n := 12) rfl (writes_cons (writes_int _) (writes_cons (writes_int data.pid)
      (writes_cons (writes_int data.pc) (writes_syscallParams data.params)))) (by omega) h
  | initProcess data =>
    have hlen : (Message.initProcess data).stream.length = 12 + data.pseudocodePath.bytes.length := by
      simp only [Message.stream, Message.fields, length_fieldBytes_cons, length_fieldBytes_nil,
        length_int, length_string]
      omega
    have hpath := CString.toInt_lengthWithNul (s := data.pseudocodePath) (by omega)
    exact packed_eq (toInt_add_of_lt (x := 8) rfl hpath (by omega)) (writes_cons (writes_int data.pid)
      (writes_cons (writes_int data.size) (writes_last (writes_string data.pseudocodePath))))
      (by omega) h
  | pageEntryRequest data => exact threeInts_builds (n := 12) rfl le_rfl _ _ _
  | pageEntryResponse data => exact twoInts_builds _ _
  | memoryReadRequest data => exact twoInts_builds _ _
  | memoryReadResponse data =>
    have hlen : (Message.memoryReadResponse data).stream.length = 4 + data.data.length := by
      simp only [Message.stream, Message.fields, length_fieldBytes_cons, length_fieldBytes_nil,
        length_block, add_zero]
    exact packed_eq (toInt_add_of_lt (y := 4) data.sized rfl (by omega))
      (writes_last (writes_block data)) (by omega) h
  | memoryWriteRequest data =>
    have hlen : (Message.memoryWriteRequest data).stream.length = 8 + data.data.data.length := by
      simp only [Message.stream, Message.fields, length_fieldBytes_cons, length_fieldBytes_nil,
        length_int, length_block]
      omega
    exact packed_eq (toInt_add_of_lt (x := 8) rfl data.data.sized (by omega))
      (writes_cons (writes_int data.physicalAddress) (writes_last (writes_block data.data)))
      (by omega) h
  | mmuPageReadResponse page =>
    have hlen : (Message.mmuPageReadResponse page).stream.length = 4 + page.data.length := by
      simp only [Message.stream, Message.fields, length_fieldBytes_cons, length_fieldBytes_nil,
        length_block, add_zero]
    exact packed_eq (toInt_add_of_lt (x := 4) rfl page.sized (by omega))
      (writes_last (writes_block page)) (by omega) h
  | cpuContext data => exact threeInts_builds (n := 8) rfl (by omega) _ _ _
  | ioCompletion data =>
    have hlen : (Message.ioCompletion data).stream.length = 8 + data.deviceName.bytes.length := by
      simp only [Message.stream, Message.fields, length_fieldBytes_cons, length_fieldBytes_nil,
        length_int, length_string]
      omega
    have hname := CString.toInt_lengthWithNul (s := data.deviceName) (by omega)
    exact packed_eq (toInt_add_of_lt (y := 4) hname rfl (by omega))
      (writes_cons (writes_string data.deviceName) (writes_last (writes_int data.pid))) (by omega) h
  | ioOperation data => exact twoInts_builds _ _
  | swap pid => exact createInt32Package_builds pid
  | swapIn pid => exact createInt32Package_builds pid
  | instruction text => exact createCStringPackage_builds h
  | confirmation success => exact createInt32Package_builds _
  | newIo deviceName => exact createCStringPackage_builds h
  | dispatch data => exact twoInts_builds _ _
  | fetch data => exact twoInts_builds _ _
  | interrupt pid => exact createInt32Package_builds pid
  | killProcess pid => exact createInt32Package_builds pid
  | dumpMemory pid => exact createInt32Package_builds pid

/-! ## 4. Each reader reads the fields -/

/-- On a buffer whose stream is `bytes`, wherever its cursor is, the reader returns `a`. -/
def Returns {α : Type} (read : BufferM α) (bytes : List UInt8) (a : α) : Prop :=
  ∀ buffer : Buffer, buffer.stream = bytes → buffer.streamSize.toInt = bytes.length →
    read.run' buffer = some a

section Returns

variable {α β : Type} {read : BufferM α} {a : α} {f : Field} {fs : List Field}

/-- A reader starts at the start. -/
theorem Returns.rewound (h : Yields Ahead read (fieldBytes fs) a) :
    Returns (do rewind; read) (fieldBytes fs) a := by
  intro buffer hstream hsize
  have hahead : Ahead { buffer with offset := 0 } (fieldBytes fs ++ []) := by
    rw [List.append_nil, ← hstream]
    exact Ahead.rewound (hstream ▸ hsize)
  obtain ⟨buffer', hrun⟩ := h _ [] hahead
  have hrewind : (rewind >>= fun _ => read).run buffer = read.run { buffer with offset := 0 } := rfl
  rw [StateT.run'_eq, hrewind, hrun]
  rfl

/-- What is read becomes a message. -/
theorem Returns.map {bytes : List UInt8} (g : α → β) (h : Returns read bytes a) :
    Returns (g <$> read) bytes (g a) := by
  intro buffer hstream hsize
  have hread := h buffer hstream hsize
  simp only [StateT.run'_eq, StateT.run_map, Option.map_eq_map, Option.map_map,
    Option.map_eq_some_iff] at hread ⊢
  obtain ⟨x, hrun, rfl⟩ := hread
  exact ⟨x, hrun, rfl⟩

theorem reads_int (x : Int32) : Reads Ahead bufferReadInt32 (Field.int x).bytes x :=
  bufferReadInt32_reads x

theorem reads_string {s : CString} (h : Short s.bytes) :
    Reads Ahead (bufferReadString >>= asString) (Field.string s).bytes s := bufferReadCString_reads h

theorem reads_block (b : Block) : Reads Ahead bufferReadString (Field.block b).bytes b :=
  bufferReadString_reads b

/-- One field, and then the others. -/
theorem yields_cons {g : α → BufferM β} {c : β} (hf : Reads Ahead read f.bytes a)
    (hfs : Yields Ahead (g a) (fieldBytes fs) c) : Yields Ahead (read >>= g) (fieldBytes (f :: fs)) c :=
  hf.bind_yields hfs

/-- The last field. -/
theorem yields_last (hf : Reads Ahead read f.bytes a) : Yields Ahead read (fieldBytes [f]) a := by
  rw [fieldBytes, List.flatMap_singleton]
  exact hf.yields

/-- The result of a reader. -/
theorem yields_pure (c : β) : Yields Ahead (pure c) (fieldBytes []) c := (Reads.pure c).yields

/-- The result of a reader that puts the cursor back. -/
theorem yields_rewind (c : β) : Yields Ahead (do rewind; pure c) (fieldBytes []) c :=
  fun buffer _ _ => ⟨{ buffer with offset := 0 }, rfl⟩

/-- A package of one number. -/
theorem oneInt_returns (mk : Int32 → β) (x : Int32) :
    Returns (do rewind; let x ← bufferReadInt32; pure (mk x)) (fieldBytes [.int x]) (mk x) :=
  Returns.rewound (yields_cons (reads_int x) (yields_pure (mk x)))

theorem readInt32Package_returns (x : Int32) : Returns readInt32Package (fieldBytes [.int x]) x :=
  Returns.rewound (yields_last (reads_int x))

/-- A package of two numbers. -/
theorem twoInts_returns (mk : Int32 → Int32 → β) (x y : Int32) :
    Returns (do rewind; let x ← bufferReadInt32; let y ← bufferReadInt32; pure (mk x y))
      (fieldBytes [.int x, .int y]) (mk x y) :=
  Returns.rewound (yields_cons (reads_int x) (yields_cons (reads_int y) (yields_pure (mk x y))))

/-- A package of three numbers. -/
theorem threeInts_returns (mk : Int32 → Int32 → Int32 → β) (x y z : Int32) :
    Returns (do
        rewind
        let x ← bufferReadInt32
        let y ← bufferReadInt32
        let z ← bufferReadInt32
        pure (mk x y z)) (fieldBytes [.int x, .int y, .int z]) (mk x y z) :=
  Returns.rewound (yields_cons (reads_int x) (yields_cons (reads_int y)
    (yields_cons (reads_int z) (yields_pure (mk x y z)))))

/-- A block whose length is read by hand. -/
theorem yields_block {g : Block → BufferM β} {c : β} (b : Block)
    (hg : Yields Ahead (g b) (fieldBytes fs) c) :
    Yields Ahead (do let size ← bufferReadInt32; let data ← bufferRead size; g data)
      (fieldBytes (.block b :: fs)) c := by
  have h := yields_cons (reads_block b) hg
  rwa [bufferReadString, bind_assoc] at h

end Returns

/-- A string in a stream that has a size. -/
theorem Short.string {s : CString} {fs : List Field} (h : Short (fieldBytes fs))
    (hs : .string s ∈ fs) : Short s.bytes := by
  obtain ⟨before, after, rfl⟩ := List.append_of_mem hs
  simp only [Short, fieldBytes, List.flatMap_append, List.flatMap_cons, List.length_append,
    length_string] at h ⊢
  omega

/-- The parameters of a system call, and the end of the reader. -/
theorem readSyscallParams_yields {β : Type} {params : SyscallParams}
    (h : Short (fieldBytes params.fields)) {g : SyscallParams → BufferM β} {c : β}
    (hg : Yields Ahead (g params) (fieldBytes []) c) :
    Yields Ahead (readSyscallParams params.syscallType >>= g) (fieldBytes params.fields) c := by
  cases params with
  | initProc memorySpace file =>
    have hfile : Short file.bytes := Short.string h (by simp [SyscallParams.fields])
    have hprogram : readSyscallParams 0 >>= g = bufferReadInt32 >>= fun memorySpace =>
        (bufferReadString >>= asString) >>= fun file => g (.initProc memorySpace file) := by
      simp [readSyscallParams]
    rw [SyscallParams.syscallType, hprogram]
    exact yields_cons (reads_int memorySpace) (yields_cons (reads_string hfile) hg)
  | io device sleepTime =>
    have hdevice : Short device.bytes := Short.string h (by simp [SyscallParams.fields])
    have hprogram : readSyscallParams 1 >>= g = (bufferReadString >>= asString) >>= fun device =>
        bufferReadInt32 >>= fun sleepTime => g (.io device sleepTime) := by
      simp [readSyscallParams]
    rw [SyscallParams.syscallType, hprogram]
    exact yields_cons (reads_string hdevice) (yields_cons (reads_int sleepTime) hg)
  | dumpMemory => exact hg
  | exit => exact hg

/-- **Each reader takes exactly the fields back.** -/
theorem read_returns (m : Message) (h : Short m.stream) : Returns m.kind.read m.stream m := by
  cases m with
  | syscall data =>
    have hparams : Short (fieldBytes data.params.fields) := by
      have hshort : (Message.syscall data).stream.length < 2 ^ 31 := h
      simp only [Message.stream, Message.fields, length_fieldBytes_cons] at hshort
      simp only [Short]
      omega
    refine (Returns.rewound ?_).map Message.syscall
    refine yields_cons (reads_int data.params.syscallType) ?_
    refine yields_cons (reads_int data.pid) (yields_cons (reads_int data.pc) ?_)
    exact readSyscallParams_yields hparams (yields_rewind data)
  | initProcess data =>
    have hpath : Short data.pseudocodePath.bytes := Short.string h (by simp [Message.fields])
    refine (Returns.rewound ?_).map Message.initProcess
    refine yields_cons (reads_int data.pid) (yields_cons (reads_int data.size) ?_)
    exact yields_cons (reads_string hpath) (yields_rewind data)
  | pageEntryRequest data =>
    exact (threeInts_returns PageEntryRequestData.mk data.pid data.tableId data.entryIndex).map _
  | pageEntryResponse data =>
    obtain ⟨value, isLastLevel⟩ := data
    have hflag : ((if isLastLevel then 0 else 1 : Int32) == 0) = isLastLevel := by
      cases isLastLevel <;> rfl
    have hread := twoInts_returns (fun value flag => (⟨value, flag == 0⟩ : PageEntryResponseData))
      value (if isLastLevel then 0 else 1)
    rw [hflag] at hread
    exact hread.map Message.pageEntryResponse
  | memoryReadRequest data =>
    exact (twoInts_returns MemoryReadRequest.mk data.physicalAddress data.size).map _
  | memoryReadResponse data =>
    exact (Returns.rewound (yields_last (reads_block data))).map Message.memoryReadResponse
  | memoryWriteRequest data =>
    refine (Returns.rewound ?_).map Message.memoryWriteRequest
    refine yields_cons (reads_int data.physicalAddress) ?_
    exact yields_block data.data (yields_pure data)
  | mmuPageReadResponse page =>
    exact (Returns.rewound (yields_last (reads_block page))).map Message.mmuPageReadResponse
  | cpuContext data =>
    exact (threeInts_returns CpuContextPackageData.mk data.pid data.pc data.interruptedSamePid).map _
  | ioCompletion data =>
    have hname : Short data.deviceName.bytes := Short.string h (by simp [Message.fields])
    refine (Returns.rewound ?_).map Message.ioCompletion
    exact yields_cons (reads_string hname) (yields_cons (reads_int data.pid) (yields_rewind data))
  | ioOperation data =>
    refine (Returns.rewound ?_).map Message.ioOperation
    exact yields_cons (reads_int data.pid) (yields_cons (reads_int data.sleepTime) (yields_rewind data))
  | swap pid => exact (readInt32Package_returns pid).map Message.swap
  | swapIn pid => exact (readInt32Package_returns pid).map Message.swapIn
  | instruction text =>
    have htext : Short text.bytes := Short.string h (by simp [Message.fields])
    exact (Returns.rewound (yields_last (reads_string htext))).map Message.instruction
  | confirmation success =>
    have hflag : ((if success then 1 else 0 : Int32) != 0) = success := by cases success <;> rfl
    have hread := oneInt_returns (fun flag => flag != 0) (if success then 1 else 0)
    rw [hflag] at hread
    exact hread.map Message.confirmation
  | newIo deviceName =>
    have hname : Short deviceName.bytes := Short.string h (by simp [Message.fields])
    refine (Returns.rewound ?_).map Message.newIo
    exact yields_cons (reads_string hname) (yields_rewind deviceName)
  | dispatch data => exact (twoInts_returns PidAndPc.mk data.pid data.pc).map Message.dispatch
  | fetch data => exact (twoInts_returns PidAndPc.mk data.pid data.pc).map Message.fetch
  | interrupt pid => exact (readInt32Package_returns pid).map Message.interrupt
  | killProcess pid =>
    exact (Returns.rewound (yields_cons (reads_int pid) (yields_rewind pid))).map Message.killProcess
  | dumpMemory pid => exact (readInt32Package_returns pid).map Message.dumpMemory

/-! ## 5. A connection -/

/-- What a message is on the wire. -/
def Message.wire (m : Message) : List UInt8 := framed m.kind.opcode.code m.stream

/-- No message is empty. -/
theorem stream_pos (m : Message) : 0 < m.stream.length := by
  have hfields : ∃ f fs, m.fields = f :: fs := by
    cases m <;> exact ⟨_, _, rfl⟩
  obtain ⟨f, fs, heq⟩ := hfields
  have hbytes : 4 ≤ f.bytes.length := by
    cases f with
    | int x => simp
    | string s => simp
    | block b => simp
  rw [Message.stream, heq, length_fieldBytes_cons]
  omega

/-- Sending a message writes its frame. -/
theorem send_writes {m : Message} (hfit : m.totalSize < 2 ^ 31) (sent : List UInt8) :
    Writes (fun s done => s = sent ++ done) (fun _ => True) m.send m.wire := by
  have hshort : Short m.stream := by
    simp only [Message.totalSize, Short] at hfit ⊢
    omega
  obtain ⟨buffer, hcreate, hstream, hsize⟩ := create_builds m hshort
  intro s done hs _
  obtain ⟨s', hrun, hs'⟩ := sendPackage_writes (createPackage m.kind.opcode buffer) hstream hsize
    hfit sent s done hs trivial
  exact ⟨s', by simp [Message.send, hcreate, hrun], hs'⟩

/-- Receiving its kind takes the frame and returns the message. -/
theorem receive_reads {m : Message} (hshort : Short m.stream) :
    Reads (· = ·) m.kind.receive m.wire (m.kind.opcode.code, m) := by
  have hread : m.kind.read.run' (receivedBuffer m.stream) = some m :=
    read_returns m hshort _ rfl (toInt_ofNat_of_lt hshort)
  exact (recvPackage_reads hshort (stream_pos m)).bind_nil ((Reads.lift hread).bind_nil (Reads.pure _))

/-- The messages are sent, one after the other, behind whatever was sent before; and a receiver that waits
for their kinds gets their opcodes and the messages, in order, from exactly the bytes that were sent. -/
def Survive (ms : List Message) : Prop :=
  ∃ wire : List UInt8,
    (∀ sent, (ms.forM Message.send).run sent = some ((), sent ++ wire)) ∧
    ∀ rest, ((ms.map Message.kind).mapM Kind.receive).run (wire ++ rest) =
      some (ms.map fun m => (m.kind.opcode.code, m), rest)

/-- **Every message survives the wire**, in every sequence, when no package has 2^31 bytes or more. -/
theorem messages_survive (ms : List Message) (hfit : ∀ m ∈ ms, m.totalSize < 2 ^ 31) : Survive ms := by
  refine ⟨ms.flatMap Message.wire, fun sent => ?_, fun rest => ?_⟩
  · have hwrite : Writes (fun s done => s = sent ++ done) (fun _ => True) (ms.forM Message.send)
        (ms.flatMap Message.wire) :=
      Writes.forM (fun _ _ _ => trivial) fun m hm => send_writes (hfit m hm) sent
    obtain ⟨s', hrun, rfl⟩ := hwrite sent [] (List.append_nil sent).symm trivial
    exact hrun
  · have hread : Reads (· = ·) ((ms.map Message.kind).mapM Kind.receive) (ms.flatMap Message.wire)
        (ms.map fun m => (m.kind.opcode.code, m)) := by
      refine Reads.mapM fun m hm => receive_reads ?_
      have htotal := hfit m hm
      simp only [Message.totalSize, Short] at htotal ⊢
      omega
    obtain ⟨s', hrun, rfl⟩ := hread _ rest rfl
    exact hrun

/-- The theorem at work on a system call, the answer for a page entry and a write to the memory. -/
theorem messages_survive_three :
    Survive [.syscall ⟨3, 7, .io ⟨[68, 49], by decide⟩ 250⟩, .pageEntryResponse ⟨-1, true⟩,
      .memoryWriteRequest ⟨64, ⟨2, [0, 255], by decide⟩⟩] :=
  messages_survive _ (by decide)

theorem length_replicate_toInt :
    (2147483647 : Int32).toInt = (List.replicate 2147483647 (0 : UInt8)).length := by
  rw [List.length_replicate]
  rfl

/-- The largest block that has a size. -/
def largestBlock : Block := ⟨2147483647, List.replicate 2147483647 0, length_replicate_toInt⟩

/-- A size is not enough: with its length in front, the block is too long for a package. -/
theorem not_every_message_survives : ¬ ∀ ms : List Message, Survive ms := by
  intro h
  obtain ⟨wire, hsend, -⟩ := h [.memoryReadResponse largestBlock]
  have hcreate : (Message.memoryReadResponse largestBlock).create = none := rfl
  have hnone : ((Message.memoryReadResponse largestBlock).send).run [] = none := by
    simp [Message.send, hcreate]
  have hrun := hsend []
  simp [hnone] at hrun

end Tpso.Utils
