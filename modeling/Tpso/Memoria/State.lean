/-
# The state of memoria and its request handlers

One definition for each function of `memoria/src` that the requests INIT_PROCESS, KILL_PROCESS,
SWAP, UNSUSPEND_PROCESS, READ_MEMORY and WRITE_MEMORY reach, under the source's words.

What the environment decides is an argument: whether the script can be opened and what it holds,
how many bytes each `fwrite` and `fread` on the swap file manages, and what the uninitialised
fields of a fresh `process_info` happen to contain.  A handler has no result (`none`) exactly where
the C code has no defined behaviour: a wild pointer followed, or a store or copy outside the object
it is meant for.
-/
import Tpso.Lib.Bytes
import Tpso.Lib.Run
import Tpso.Memoria.PageTable

namespace Tpso.Memoria

open Tpso.Lib

/-! ## 1. The data -/

/-- A pointer field of a record obtained from `malloc`. -/
inductive Ptr (α : Type) where
  /-- `NULL`. -/
  | null
  /-- Never assigned, and what `malloc` left there is not `NULL`. -/
  | wild
  /-- A valid pointer. -/
  | obj (a : α)

/-- `t_process_metrics`, the counters that some handler increments. -/
structure ProcessMetrics where
  pageTableAccessCount : Nat := 0
  instructionRequestsCount : Nat := 0
  swapOutCount : Nat := 0
  swapInCount : Nat := 0

/-- `process_info`.  `allocatedFrames` holds user frames while the process is resident and swap
slots while it is suspended. -/
structure ProcessInfo where
  pid : Int
  processSize : Int
  isSuspended : Bool
  instructions : List String
  pageTable : Ptr PageTable
  metrics : ProcessMetrics
  allocatedFrames : Ptr (List Nat)

/-- The swap file: its length and its bytes. -/
structure SwapFile where
  size : Nat
  bytes : Bytes

/-- `SWAP_INITIAL_FRAMES`. -/
def swapInitialFrames : Nat := 4096

/-- The globals of memoria. -/
structure State where
  /-- `frames_total`, `frames_bitmap` and `frames_free_count`. -/
  frames : BitAlloc
  /-- `swap_frames_total`, `swap_frames_bitmap` and `swap_frames_free_count`. -/
  swapFrames : BitAlloc
  userSpace : Bytes
  swapFile : SwapFile
  nextTableId : Int
  /-- `global_process_list`. -/
  processes : List ProcessInfo

/-- The state `main` sets up before it starts to listen. -/
def State.start (cfg : Config) : State where
  frames := BitAlloc.empty cfg.framesTotal
  swapFrames := BitAlloc.empty swapInitialFrames
  userSpace := fun _ => 0
  swapFile := ⟨0, fun _ => 0⟩
  nextTableId := 1
  processes := []

/-! ## 2. `user_space_memory.c` -/

/-- The test `physical_address + size > user_space_size`: the sum is an `int32_t`, and the
comparison with a `size_t` makes a negative one huge. -/
def exceedsUserSpace (cfg : Config) (physicalAddress size : Int) : Bool :=
  let sum := toInt32 (physicalAddress + size)
  decide (sum < 0 ∨ (cfg.tamMemoria : Int) < sum)

/-- `write_to_user_space`. -/
def writeToUserSpace (cfg : Config) (m : Bytes) (physicalAddress : Int) (data : List UInt8) :
    Option Bytes :=
  if (cfg.tamPagina : Int) < data.length then some m
  else if exceedsUserSpace cfg physicalAddress data.length then some m
  else if physicalAddress < 0 then none
  else some (m.blit physicalAddress.toNat data)

/-- `read_from_user_space`: the bytes it leaves in the buffer. -/
def readFromUserSpace (cfg : Config) (m : Bytes) (physicalAddress size : Int) :
    Option (List UInt8) :=
  if size < 0 then none
  else if exceedsUserSpace cfg physicalAddress size then some (List.replicate size.toNat 0)
  else if physicalAddress < 0 then none
  else some (m.slice physicalAddress.toNat size.toNat)

/-! ## 3. `swap_manager.c` -/

/-- `swap_write_frame`, where `fwrite` manages `written` bytes.  `fseek` refuses the negative
position that an overflowing product gives. -/
def swapWriteFrame (cfg : Config) (file : SwapFile) (frameNum : Nat) (data : List UInt8)
    (written : Nat) : SwapFile × Bool :=
  let position := toInt32 (frameNum * cfg.tamPagina)
  if position < 0 then (file, false)
  else
    let done := data.take written
    ({ size := if done = [] then file.size else max file.size (position.toNat + done.length),
       bytes := file.bytes.blit position.toNat done },
      decide (done.length = data.length))

/-- `swap_read_frame`, where `fread` manages `avail` bytes, or what is left of the file. -/
def swapReadFrame (cfg : Config) (file : SwapFile) (frameNum size avail : Nat) :
    Option (List UInt8) :=
  let position := toInt32 (frameNum * cfg.tamPagina)
  if position < 0 then none
  else if min avail (file.size - position.toNat) < size then none
  else some (file.bytes.slice position.toNat size)

/-! ## 4. `process_manager.c` -/

/-- `process_manager_find_process`: the first record of the list with that pid. -/
def processManagerFindProcess (ps : List ProcessInfo) (pid : Int) : Option ProcessInfo :=
  ps.find? fun p => decide (p.pid = pid)

/-- A store through the pointer that `process_manager_find_process` returned. -/
def updateProcess (f : ProcessInfo → ProcessInfo) (pid : Int) : List ProcessInfo → List ProcessInfo
  | [] => []
  | p :: ps => if p.pid = pid then f p :: ps else p :: updateProcess f pid ps

/-- `destroy_process_info`: the frames of the record go to `release_frames`, whatever bitmap they
came from. -/
def destroyProcessInfo (s : State) (p : ProcessInfo) : Option State :=
  if p.processSize ≠ 0 then
    match p.allocatedFrames with
    | .null => some s
    | .wild => none
    | .obj fs => (s.frames.release fs).map fun frames => { s with frames := frames }
  else some s

/-- `process_manager_delete_process`. -/
def processManagerDeleteProcess (s : State) (pid : Int) : Option (State × Bool) :=
  match processManagerFindProcess s.processes pid with
  | none => some (s, false)
  | some p =>
    match destroyProcessInfo s p with
    | none => none
    | some s' =>
      some ({ s' with processes := s.processes.eraseP fun p => decide (p.pid = pid) }, true)

/-! ## 5. `init-process.c` -/

/-- Trailing line ends, blanks and tabs are cut off. -/
def trimLine (line : String) : String :=
  String.ofList (line.toList.reverse.dropWhile fun c =>
    c = '\n' ∨ c = '\r' ∨ c = ' ' ∨ c = '\t').reverse

/-- `process_manager_load_script_lines`, given the lines of the file, if it can be opened. -/
def processManagerLoadScriptLines (file : Option (List String)) : Option (List String) :=
  file.map fun lines => (lines.map trimLine).filter fun l => l ≠ ""

/-- What `malloc` left in the two pointer fields that `create_process` does not set for a process
of size 0. -/
structure Leftover where
  tableIsNull : Bool
  framesIsNull : Bool

/-- An unassigned pointer field. -/
def Ptr.unset {α : Type} (isNull : Bool) : Ptr α := if isNull then .null else .wild

/-- The record that `create_process` appends to the list. -/
def freshProcess (pid size : Int) (instructions : List String) (table : Ptr PageTable)
    (frames : Ptr (List Nat)) : ProcessInfo where
  pid := pid
  processSize := size
  isSuspended := false
  instructions := instructions
  pageTable := table
  metrics := {}
  allocatedFrames := frames

/-- `create_process`. -/
def createProcess (cfg : Config) (s : State) (pid size : Int) (file : Option (List String))
    (left : Leftover) : Option (State × Bool) :=
  match processManagerLoadScriptLines file with
  | none => some (s, false)
  | some instructions =>
    if size ≠ 0 then
      let pagesNeeded := cfg.pagesNeeded size
      if s.frames.free < pagesNeeded then some (s, false)
      else
        match s.frames.alloc pagesNeeded with
        | none => some (s, false)
        | some (fs, frames) =>
          if (fs.length : Int) ≠ pagesNeeded then some ({ s with frames := frames }, false)
          else
            let table := initPageTable cfg s.nextTableId
            match assignFrames cfg table.1 fs pagesNeeded with
            | (_, false) =>
              (frames.release fs).map fun frames' =>
                ({ s with frames := frames', nextTableId := table.2 }, false)
            | (t, true) =>
              some ({ s with
                frames := frames
                nextTableId := table.2
                processes := s.processes ++ [freshProcess pid size instructions (.obj t) (.obj fs)] },
                true)
    else
      some ({ s with processes := s.processes ++ [freshProcess pid size instructions
        (Ptr.unset left.tableIsNull) (Ptr.unset left.framesIsNull)] }, true)

/-! ## 6. `swap_out.c` and `swap_in.c` -/

/-- The copy loop of `swap_out_process` over pairs of user frame and swap slot; `written i` bytes
of the `i`-th page reach the file.  Stops at the first page that is not written whole. -/
def swapOutLoop (cfg : Config) (m : Bytes) (written : Nat → Nat) :
    Nat → List (Nat × Nat) → SwapFile → Option (SwapFile × Bool)
  | _, [], file => some (file, true)
  | i, (userFrame, swapFrame) :: rest, file =>
    (readFromUserSpace cfg m (toInt32 (userFrame * cfg.tamPagina)) cfg.tamPagina).bind fun page =>
      let done := swapWriteFrame cfg file swapFrame page (written i)
      if done.2 = true then swapOutLoop cfg m written (i + 1) rest done.1
      else some (done.1, false)

/-- `swap_out_process`.  The exits after `swap_allocate_frames` destroy the list of slots without
giving the slots back. -/
def swapOutProcess (cfg : Config) (s : State) (pid : Int) (written : Nat → Nat) :
    Option (State × Bool) :=
  match processManagerFindProcess s.processes pid with
  | none => some (s, false)
  | some p =>
    if p.isSuspended then some (s, true)
    else
      match p.allocatedFrames with
      | .null =>
        some ({ s with processes :=
          updateProcess (fun p => { p with isSuspended := true }) pid s.processes }, true)
      | .wild => none
      | .obj fs =>
        match s.swapFrames.alloc fs.length with
        | none => some (s, false)
        | some (slots, swapFrames) =>
          if slots.length < fs.length then some ({ s with swapFrames := swapFrames }, false)
          else
            match swapOutLoop cfg s.userSpace written 0 (fs.zip slots) s.swapFile with
            | none => none
            | some (file, false) =>
              some ({ s with swapFrames := swapFrames, swapFile := file }, false)
            | some (file, true) =>
              (s.frames.release fs).map fun frames =>
                ({ s with
                  frames := frames
                  swapFrames := swapFrames
                  swapFile := file
                  processes := updateProcess (fun p =>
                    { p with
                      allocatedFrames := .obj slots
                      isSuspended := true
                      metrics := { p.metrics with swapOutCount := p.metrics.swapOutCount + 1 } })
                    pid s.processes }, true)

/-- The copy loop of `swap_in_process` over pairs of swap slot and user frame; `avail i` bytes of
the `i`-th page can be read.  Pages already copied stay copied when a later one fails. -/
def swapInLoop (cfg : Config) (file : SwapFile) (avail : Nat → Nat) :
    Nat → List (Nat × Nat) → Bytes → Option (Bytes × Bool)
  | _, [], m => some (m, true)
  | i, (swapFrame, userFrame) :: rest, m =>
    (swapReadFrame cfg file swapFrame cfg.tamPagina (avail i)).elim (some (m, false)) fun page =>
      (writeToUserSpace cfg m (toInt32 (userFrame * cfg.tamPagina)) page).bind fun m' =>
        swapInLoop cfg file avail (i + 1) rest m'

/-- `swap_in_process`.  The record gets the new frames; its page table is left as it is. -/
def swapInProcess (cfg : Config) (s : State) (pid : Int) (avail : Nat → Nat) :
    Option (State × Bool) :=
  match processManagerFindProcess s.processes pid with
  | none => some (s, false)
  | some p =>
    if p.isSuspended = false then some (s, true)
    else
      match p.allocatedFrames with
      | .wild => none
      | .null =>
        some ({ s with processes :=
          updateProcess (fun p => { p with isSuspended := false }) pid s.processes }, true)
      | .obj [] =>
        some ({ s with processes :=
          updateProcess (fun p => { p with isSuspended := false }) pid s.processes }, true)
      | .obj (f :: fs) =>
        let slots := f :: fs
        match s.frames.alloc slots.length with
        | none => some (s, false)
        | some (userFrames, frames) =>
          if userFrames.length < slots.length then some ({ s with frames := frames }, false)
          else
            match swapInLoop cfg s.swapFile avail 0 (slots.zip userFrames) s.userSpace with
            | none => none
            | some (m, false) =>
              (frames.release userFrames).map fun frames' =>
                ({ s with frames := frames', userSpace := m }, false)
            | some (m, true) =>
              (s.swapFrames.release slots).map fun swapFrames =>
                ({ s with
                  frames := frames
                  swapFrames := swapFrames
                  userSpace := m
                  processes := updateProcess (fun p =>
                    { p with
                      allocatedFrames := .obj userFrames
                      isSuspended := false
                      metrics := { p.metrics with swapInCount := p.metrics.swapInCount + 1 } })
                    pid s.processes }, true)

/-! ## 7. The requests -/

/-- The requests of `client_handler` that can change the state, with what the environment decides
while they are served. -/
inductive Request where
  | initProcess (pid size : Int) (file : Option (List String)) (left : Leftover)
  | killProcess (pid : Int)
  | swap (pid : Int) (written : Nat → Nat)
  | unsuspendProcess (pid : Int) (avail : Nat → Nat)
  | readMemory (physicalAddress size : Int)
  | writeMemory (physicalAddress : Int) (data : List UInt8)

/-- What goes back to the client. -/
inductive Reply where
  | confirmation (success : Bool)
  | data (bytes : List UInt8)
  | nothing

/-- One request served.  `read_memory_request_handler` answers nothing when `malloc` refuses a
negative size; `write_memory_request_handler` confirms whatever `write_to_user_space` did. -/
def handle (cfg : Config) (s : State) : Request → Option (State × Reply)
  | .initProcess pid size file left =>
    (createProcess cfg s pid size file left).map fun r => (r.1, .confirmation r.2)
  | .killProcess pid => (processManagerDeleteProcess s pid).map fun r => (r.1, .confirmation r.2)
  | .swap pid written => (swapOutProcess cfg s pid written).map fun r => (r.1, .confirmation r.2)
  | .unsuspendProcess pid avail =>
    (swapInProcess cfg s pid avail).map fun r => (r.1, .confirmation r.2)
  | .readMemory physicalAddress size =>
    if size < 0 then some (s, .nothing)
    else (readFromUserSpace cfg s.userSpace physicalAddress size).map fun bytes => (s, .data bytes)
  | .writeMemory physicalAddress data =>
    (writeToUserSpace cfg s.userSpace physicalAddress data).map fun m =>
      ({ s with userSpace := m }, .confirmation true)

/-- memoria as a transition system: from start-up, one request after another. -/
def memoria (cfg : Config) : Lts State Request :=
  Lts.ofStep (State.start cfg) fun s r => (handle cfg s r).map Prod.fst

end Tpso.Memoria
