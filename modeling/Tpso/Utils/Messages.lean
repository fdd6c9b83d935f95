/-
# The messages and their writers and readers

One writer and one reader for each kind of package.  They agree on nothing but the order of the fields, so
the pairs are written here side by side, as in the sources, with the first size of each buffer: several
are smaller than what is written.

A reader starts by putting the cursor back to the start.
-/
import Tpso.Utils.Package

namespace Tpso.Utils

/-! ## 1. System calls and processes -/

/-- The parameters of a system call, one variant for each `SYSCALL_TYPE`. -/
inductive SyscallParams where
  | initProc (memorySpace : Int32) (pseudocodeFile : CString)
  | io (deviceName : CString) (sleepTime : Int32)
  | dumpMemory
  | exit
deriving DecidableEq, Repr

/-- `SYSCALL_TYPE`. -/
def SyscallParams.syscallType : SyscallParams → Int32
  | .initProc _ _ => 0
  | .io _ _ => 1
  | .dumpMemory => 2
  | .exit => 3

/-- `syscall_package_data`. -/
structure SyscallPackageData where
  pid : Int32
  pc : Int32
  params : SyscallParams
deriving DecidableEq, Repr

/-- `create_syscall_package`. -/
def createSyscallPackage (syscall : SyscallPackageData) : Option Package :=
  packed .syscall 12 do
    bufferAddInt32 syscall.params.syscallType
    bufferAddInt32 syscall.pid
    bufferAddInt32 syscall.pc
    match syscall.params with
    | .initProc memorySpace pseudocodeFile =>
      bufferAddInt32 memorySpace
      bufferAddString pseudocodeFile.lengthWithNul pseudocodeFile.bytes
    | .io deviceName sleepTime =>
      bufferAddString deviceName.lengthWithNul deviceName.bytes
      bufferAddInt32 sleepTime
    | .dumpMemory => pure ()
    | .exit => pure ()

/-- The `switch` of `read_syscall_package`.  A number that is no `SYSCALL_TYPE` leaves the parameters
unset. -/
def readSyscallParams (syscallType : Int32) : BufferM SyscallParams :=
  if syscallType = 0 then do
    let memorySpace ← bufferReadInt32
    let pseudocodeFile ← bufferReadString >>= asString
    pure (.initProc memorySpace pseudocodeFile)
  else if syscallType = 1 then do
    let deviceName ← bufferReadString >>= asString
    let sleepTime ← bufferReadInt32
    pure (.io deviceName sleepTime)
  else if syscallType = 2 then pure .dumpMemory
  else if syscallType = 3 then pure .exit
  else StateT.lift none

/-- `read_syscall_package`. -/
def readSyscallPackage : BufferM SyscallPackageData := do
  rewind
  let syscallType ← bufferReadInt32
  let pid ← bufferReadInt32
  let pc ← bufferReadInt32
  let params ← readSyscallParams syscallType
  rewind
  pure ⟨pid, pc, params⟩

/-- `init_process_package_data`. -/
structure InitProcessPackageData where
  pid : Int32
  size : Int32
  pseudocodePath : CString
deriving DecidableEq, Repr

/-- `create_init_process_package`, where the path may be `NULL`. -/
def createInitProcessPackage (pid size : Int32) (pseudocodePath : Option CString) : Option Package :=
  let pathLen := match pseudocodePath with
    | some path => path.lengthWithNul
    | none => 1
  packed .initProcess (8 + pathLen) do
    bufferAddInt32 pid
    bufferAddInt32 size
    match pseudocodePath with
    | some path => bufferAddString path.lengthWithNul path.bytes
    | none => bufferAddString 0 [0]

/-- `read_init_process_package`. -/
def readInitProcessPackage : BufferM InitProcessPackageData := do
  rewind
  let pid ← bufferReadInt32
  let size ← bufferReadInt32
  let pseudocodePath ← bufferReadString >>= asString
  rewind
  pure ⟨pid, size, pseudocodePath⟩

/-! ## 2. Page entries and the memory -/

/-- `page_entry_request_data`. -/
structure PageEntryRequestData where
  pid : Int32
  tableId : Int32
  entryIndex : Int32
deriving DecidableEq, Repr

/-- `create_page_entry_request_package`. -/
def createPageEntryRequestPackage (pid tableId entryIndex : Int32) : Option Package :=
  packed .getPageEntry 12 do
    bufferAddInt32 pid
    bufferAddInt32 tableId
    bufferAddInt32 entryIndex

/-- `read_page_entry_request_package`. -/
def readPageEntryRequestPackage : BufferM PageEntryRequestData := do
  rewind
  let pid ← bufferReadInt32
  let tableId ← bufferReadInt32
  let entryIndex ← bufferReadInt32
  pure ⟨pid, tableId, entryIndex⟩

/-- `page_entry_response_data`. -/
structure PageEntryResponseData where
  value : Int32
  isLastLevel : Bool
deriving DecidableEq, Repr

/-- `create_page_entry_response_package`. -/
def createPageEntryResponsePackage (value isLastLevel : Int32) : Option Package :=
  packed .getPageEntry 8 do
    bufferAddInt32 value
    bufferAddInt32 isLastLevel

/-- How memoria answers with an entry: the flag goes inverted. -/
def respondPageEntry (entry : PageEntryResponseData) : Option Package :=
  createPageEntryResponsePackage entry.value (if entry.isLastLevel then 0 else 1)

/-- `read_page_entry_response_package`. -/
def readPageEntryResponsePackage : BufferM PageEntryResponseData := do
  rewind
  let value ← bufferReadInt32
  let isLastLevel ← bufferReadInt32
  pure ⟨value, isLastLevel == 0⟩

/-- `t_memory_read_request`. -/
structure MemoryReadRequest where
  physicalAddress : Int32
  size : Int32
deriving DecidableEq, Repr

/-- The package of `send_memory_read_request`. -/
def createMemoryReadRequestPackage (request : MemoryReadRequest) : Option Package :=
  packed .readMemory 8 do
    bufferAddInt32 request.physicalAddress
    bufferAddInt32 request.size

/-- `read_memory_read_request`. -/
def readMemoryReadRequest : BufferM MemoryReadRequest := do
  rewind
  let physicalAddress ← bufferReadInt32
  let size ← bufferReadInt32
  pure ⟨physicalAddress, size⟩

/-- `create_package_memory_read_response`. -/
def createPackageMemoryReadResponse (data : Block) : Option Package :=
  packed .readMemory (data.size + 4) do
    bufferAddString data.size data.data

/-- `read_memory_read_response`. -/
def readMemoryReadResponse : BufferM Block := do
  rewind
  bufferReadString

/-- `t_memory_write_request`: the address, and the data with their size. -/
structure MemoryWriteRequest where
  physicalAddress : Int32
  data : Block
deriving DecidableEq, Repr

/-- The package of `send_memory_write_request`. -/
def createMemoryWriteRequestPackage (request : MemoryWriteRequest) : Option Package :=
  packed .writeMemory (8 + request.data.size) do
    bufferAddInt32 request.physicalAddress
    bufferAddInt32 request.data.size
    bufferAdd request.data.data request.data.size

/-- `read_memory_write_request`. -/
def readMemoryWriteRequest : BufferM MemoryWriteRequest := do
  rewind
  let physicalAddress ← bufferReadInt32
  let size ← bufferReadInt32
  let data ← bufferRead size
  pure ⟨physicalAddress, data⟩

/-- `create_mmu_page_read_response`. -/
def createMmuPageReadResponse (page : Block) : Option Package :=
  packed .readMemory (4 + page.size) do
    bufferAddInt32 page.size
    bufferAdd page.data page.size

/-- `read_mmu_page_read_response`. -/
def readMmuPageReadResponse : BufferM Block := do
  rewind
  let pageSize ← bufferReadInt32
  bufferRead pageSize

/-! ## 3. The processors -/

/-- `cpu_context_package_data`. -/
structure CpuContextPackageData where
  pid : Int32
  pc : Int32
  interruptedSamePid : Int32
deriving DecidableEq, Repr

/-- `create_cpu_context_package`, with room for two of its three fields. -/
def createCpuContextPackage (pid pc interruptedSamePid : Int32) : Option Package :=
  packed .cpuContext 8 do
    bufferAddInt32 pid
    bufferAddInt32 pc
    bufferAddInt32 interruptedSamePid

/-- `read_cpu_context_package`. -/
def readCpuContextPackage : BufferM CpuContextPackageData := do
  rewind
  let pid ← bufferReadInt32
  let pc ← bufferReadInt32
  let interruptedSamePid ← bufferReadInt32
  pure ⟨pid, pc, interruptedSamePid⟩

/-- `dispatch_package_data` and `fetch_package_data`. -/
structure PidAndPc where
  pid : Int32
  pc : Int32
deriving DecidableEq, Repr

/-- The package of a pid and a pc. -/
def createPidAndPcPackage (opcode : Opcode) (pid pc : Int32) : Option Package :=
  packed opcode 8 do
    bufferAddInt32 pid
    bufferAddInt32 pc

/-- Its reader. -/
def readPidAndPcPackage : BufferM PidAndPc := do
  rewind
  let pid ← bufferReadInt32
  let pc ← bufferReadInt32
  pure ⟨pid, pc⟩

/-- `create_dispatch_package`. -/
def createDispatchPackage (pid pc : Int32) : Option Package := createPidAndPcPackage .dispatch pid pc

/-- `read_dispatch_package`. -/
def readDispatchPackage : BufferM PidAndPc := readPidAndPcPackage

/-- `create_fetch_package`. -/
def createFetchPackage (pid pc : Int32) : Option Package := createPidAndPcPackage .fetch pid pc

/-- `read_fetch_package`. -/
def readFetchPackage : BufferM PidAndPc := readPidAndPcPackage

/-! ## 4. Devices -/

/-- `io_completion_package_data`. -/
structure IoCompletionPackageData where
  deviceName : CString
  pid : Int32
deriving DecidableEq, Repr

/-- `create_io_completion_package`, with room for the string and the pid, but not for the length. -/
def createIoCompletionPackage (deviceName : CString) (pid : Int32) : Option Package :=
  packed .ioCompletion (deviceName.lengthWithNul + 4) do
    bufferAddString deviceName.lengthWithNul deviceName.bytes
    bufferAddInt32 pid

/-- `read_io_completion_package`. -/
def readIoCompletionPackage : BufferM IoCompletionPackageData := do
  rewind
  let deviceName ← bufferReadString >>= asString
  let pid ← bufferReadInt32
  rewind
  pure ⟨deviceName, pid⟩

/-- The fields of `io_operation_package_data` that are sent. -/
structure IoOperationPackageData where
  pid : Int32
  sleepTime : Int32
deriving DecidableEq, Repr

/-- `create_io_operation_package`. -/
def createIoOperationPackage (pid time : Int32) : Option Package :=
  packed .ioOperation 8 do
    bufferAddInt32 pid
    bufferAddInt32 time

/-- `read_io_operation_package`. -/
def readIoOperationPackage : BufferM IoOperationPackageData := do
  rewind
  let pid ← bufferReadInt32
  let sleepTime ← bufferReadInt32
  rewind
  pure ⟨pid, sleepTime⟩

/-! ## 5. Packages of one field -/

/-- The package of one number. -/
def createInt32Package (opcode : Opcode) (x : Int32) : Option Package :=
  packed opcode 4 do
    bufferAddInt32 x

/-- Its reader. -/
def readInt32Package : BufferM Int32 := do
  rewind
  bufferReadInt32

/-- The package of one string, with no room at first. -/
def createCStringPackage (opcode : Opcode) (s : CString) : Option Package :=
  packed opcode 0 do
    bufferAddString s.lengthWithNul s.bytes

/-- Its reader. -/
def readCStringPackage : BufferM CString := do
  rewind
  bufferReadString >>= asString

/-- `create_swap_operation_package`, for `SWAP` and `UNSUSPEND_PROCESS`. -/
def createSwapOperationPackage (pid : Int32) (operation : Opcode) : Option Package :=
  createInt32Package operation pid

/-- `read_swap_package`. -/
def readSwapPackage : BufferM Int32 := readInt32Package

/-- `create_confirmation_package`. -/
def createConfirmationPackage (success : Int32) : Option Package :=
  createInt32Package .confirmation success

/-- `read_confirmation_package`. -/
def readConfirmationPackage : BufferM Bool := do
  rewind
  let success ← bufferReadInt32
  pure (success != 0)

/-- `create_interrupt_package`. -/
def createInterruptPackage (pid : Int32) : Option Package := createInt32Package .interrupt pid

/-- `read_interrupt_package`. -/
def readInterruptPackage : BufferM Int32 := readInt32Package

/-- `create_kill_process_package`. -/
def createKillProcessPackage (pid : Int32) : Option Package := createInt32Package .killProcess pid

/-- `read_kill_process_package`. -/
def readKillProcessPackage : BufferM Int32 := do
  rewind
  let pid ← bufferReadInt32
  rewind
  pure pid

/-- `create_dump_memory_package`. -/
def createDumpMemoryPackage (pid : Int32) : Option Package := createInt32Package .cDumpMemory pid

/-- `read_dump_memory_package`. -/
def readDumpMemoryPackage : BufferM Int32 := readInt32Package

/-- `create_instruction_package`. -/
def createInstructionPackage (instruction : CString) : Option Package :=
  createCStringPackage .instruction instruction

/-- `read_instruction_package`. -/
def readInstructionPackage : BufferM CString := readCStringPackage

/-- `create_new_io_package`. -/
def createNewIoPackage (deviceName : CString) : Option Package := createCStringPackage .newIo deviceName

/-- `read_new_io_package`. -/
def readNewIoPackage : BufferM CString := do
  rewind
  let deviceName ← bufferReadString >>= asString
  rewind
  pure deviceName

end Tpso.Utils
