/-
# The MMU of a CPU: page walk, TLB and page cache

One definition for each function of `cpu/src/mmu.c`.  The state is what the file keeps in globals: the
TLB with its FIFO pointer and time stamps, and the cache with its clock pointer.  memoria appears
twice: as the answers to GET_PAGE_ENTRY, which are an argument (`PageEntries`; the handler of memoria
that gives them is in `Tpso.Memoria.PageWalk`), and as the user space, which READ_MEMORY and
WRITE_MEMORY read and write with memoria's own functions.

A function has no result (`none`) where the C code has no defined behaviour, and the two searches for a
victim, which loop until they find one, where the fuel runs out; `Tpso.Cpu.Victim` shows that it does
not.
-/
import Tpso.Lib.Bytes
import Tpso.Memoria.State

namespace Tpso.Cpu

open Tpso.Lib
open Tpso.Memoria (toInt32 doubleToInt writeToUserSpace readFromUserSpace)

/-! ## 1. The data -/

/-- `TLBReplacementAlgorithm`. -/
inductive TlbAlgorithm where
  | fifo
  | lru
  deriving DecidableEq

/-- `CacheReplacementAlgorithm`. -/
inductive CacheAlgorithm where
  | clock
  | clockM
  deriving DecidableEq

/-- `MMUConfig`, `TLBConfig` and `CacheConfig`.  The sizes of pages and tables are those of memoria's
own configuration. -/
structure Config where
  memoria : Memoria.Config
  tlbEntries : Nat
  tlbAlgorithm : TlbAlgorithm
  cacheEntries : Nat
  cacheAlgorithm : CacheAlgorithm

/-- `page_size`. -/
def Config.pageSize (cfg : Config) : Nat := cfg.memoria.tamPagina

/-- `TLBEntry`. -/
structure TlbEntry where
  page : Int
  pid : Int
  frame : Int
  lruTimestamp : Nat

/-- `g_tlb`, `g_tlb_fifo_pointer` and `g_lru_timestamp_counter`, a `uint64_t`. -/
structure Tlb where
  entries : List TlbEntry
  fifoPointer : Nat
  lruTimestampCounter : Nat

/-- `CacheEntry`.  The modified region is a pair of offsets into the content. -/
structure CacheEntry where
  isValid : Bool
  page : Int
  pid : Int
  content : Bytes
  useBit : Bool
  modifiedBit : Bool
  modifiedStart : Nat
  modifiedEnd : Nat

/-- `g_cache` and `g_cache_clock_pointer`. -/
structure Cache where
  entries : List CacheEntry
  clockPointer : Nat

/-- The globals of `mmu.c`. -/
structure Mmu where
  tlb : Tlb
  cache : Cache

/-- A page of zeros. -/
def zeros : Bytes := fun _ => 0

/-- `mmu_init`.  The entries come from `malloc`: `junk` is what their other fields happen to hold. -/
def mmuInit (cfg : Config) (junk : Nat → CacheEntry) : Mmu where
  tlb := ⟨[], 0, 0⟩
  cache :=
    { entries := (List.range cfg.cacheEntries).map fun i =>
        { junk i with
          isValid := false
          content := zeros
          modifiedStart := 0
          modifiedEnd := 0 }
      clockPointer := 0 }

/-! ## 2. The page walk -/

/-- The answers of memoria to GET_PAGE_ENTRY: for a pid, a table id and an entry index, the value of
the entry; no answer where memoria has no defined behaviour. -/
abbrev PageEntries := Int → Int → Int → Option Int

/-- The loop of `mmu_perform_page_walk`, over the levels that are left. -/
def pageWalkLoop (cfg : Config) (entry : Int → Int → Option Int) (pageNumber : Int) :
    Nat → Int → Option Int
  | 0, nextTableId => some nextTableId
  | power + 1, nextTableId =>
    let divisor := doubleToInt (cfg.memoria.entradasPorTabla ^ power)
    let entryIndex := (pageNumber.tdiv divisor).tmod cfg.memoria.entradasPorTabla
    (entry nextTableId entryIndex).bind fun value =>
      if value = 0 then some 0 else pageWalkLoop cfg entry pageNumber power value

/-- `mmu_perform_page_walk`. -/
def mmuPerformPageWalk (cfg : Config) (pe : PageEntries) (pageNumber pid : Int) : Option Int :=
  pageWalkLoop cfg (pe pid) pageNumber cfg.memoria.cantidadNiveles 1

/-! ## 3. The TLB -/

/-- `g_lru_timestamp_counter++`. -/
def nextTimestamp (counter : Nat) : Nat := (counter + 1) % 2 ^ 64

/-- `tlb_find_entry`: the frame of the first entry for the page and the pid. -/
def tlbFindEntry (cfg : Config) (tlb : Tlb) (pageNumber pid : Int) : Tlb × Option Int :=
  if cfg.tlbEntries = 0 then (tlb, none)
  else
    match tlb.entries.findIdx? fun e => decide (e.page = pageNumber ∧ e.pid = pid) with
    | none => (tlb, none)
    | some i =>
      let frame := (tlb.entries[i]?).map (·.frame)
      if cfg.tlbAlgorithm = .lru then
        ({ tlb with
           entries := tlb.entries.modify i fun e =>
             { e with lruTimestamp := tlb.lruTimestampCounter }
           lruTimestampCounter := nextTimestamp tlb.lruTimestampCounter }, frame)
      else (tlb, frame)

/-- The search for the entry with the least time stamp. -/
def lruVictimLoop : List TlbEntry → Nat → Nat → Nat → Nat
  | [], _, _, victimIndex => victimIndex
  | e :: es, i, minTs, victimIndex =>
    if e.lruTimestamp < minTs then lruVictimLoop es (i + 1) e.lruTimestamp i
    else lruVictimLoop es (i + 1) minTs victimIndex

/-- The index that `tlb_add_entry` replaces.  The search under LRU starts with an index that is none of the
list (-1 in the code, the length here). -/
def tlbVictim (cfg : Config) (tlb : Tlb) : Nat :=
  match cfg.tlbAlgorithm with
  | .fifo => tlb.fifoPointer
  | .lru => lruVictimLoop tlb.entries 0 (2 ^ 64 - 1) tlb.entries.length

/-- The FIFO pointer after a replacement. -/
def nextPointer (cfg : Config) (tlb : Tlb) : Nat :=
  match cfg.tlbAlgorithm with
  | .fifo => (tlb.fifoPointer + 1) % cfg.tlbEntries
  | .lru => tlb.fifoPointer

/-- `tlb_add_entry`.  An index that is none of the list replaces nothing. -/
def tlbAddEntry (cfg : Config) (tlb : Tlb) (pageNumber frameNumber pid : Int) : Tlb :=
  if cfg.tlbEntries = 0 then tlb
  else
    let entry : TlbEntry := ⟨pageNumber, pid, frameNumber, tlb.lruTimestampCounter⟩
    let tlb := { tlb with lruTimestampCounter := nextTimestamp tlb.lruTimestampCounter }
    if tlb.entries.length < cfg.tlbEntries then { tlb with entries := tlb.entries ++ [entry] }
    else
      { tlb with
        entries := tlb.entries.set (tlbVictim cfg tlb) entry
        fifoPointer := nextPointer cfg tlb }

/-- The frame of a page: from the TLB, or by a page walk that is then remembered. -/
def frameOf (cfg : Config) (pe : PageEntries) (tlb : Tlb) (pageNumber pid : Int) :
    Option (Tlb × Int) :=
  match tlbFindEntry cfg tlb pageNumber pid with
  | (tlb, some frame) => some (tlb, frame)
  | (tlb, none) =>
    (mmuPerformPageWalk cfg pe pageNumber pid).map fun frame =>
      (tlbAddEntry cfg tlb pageNumber frame pid, frame)

/-- `frame_number * page_size + offset`. -/
def physicalAddress (cfg : Config) (frame offset : Int) : Int :=
  toInt32 (frame * cfg.pageSize + offset)

/-- The page and the offset of a logical address; C rounds towards zero. -/
def pageOf (cfg : Config) (logicDir : Int) : Int := logicDir.tdiv cfg.pageSize

def offsetOf (cfg : Config) (logicDir : Int) : Int := logicDir.tmod cfg.pageSize

/-- `mmu_translate_address`. -/
def mmuTranslateAddress (cfg : Config) (pe : PageEntries) (tlb : Tlb) (logicDir pid : Int) :
    Option (Tlb × Int) :=
  (frameOf cfg pe tlb (pageOf cfg logicDir) pid).map fun x =>
    (x.1, physicalAddress cfg x.2 (offsetOf cfg logicDir))

/-- `mmu_translate_address_with_page_number`. -/
def mmuTranslateAddressWithPageNumber (cfg : Config) (pe : PageEntries) (tlb : Tlb)
    (pageNumber pid : Int) : Option (Tlb × Int) :=
  (frameOf cfg pe tlb pageNumber pid).map fun x => (x.1, physicalAddress cfg x.2 0)

/-- The physical address of an access.  Without a TLB it comes from a page walk. -/
def translate (cfg : Config) (pe : PageEntries) (pid : Int) (tlb : Tlb) (logicDir : Int) :
    Option (Tlb × Int) :=
  if 0 < cfg.tlbEntries then mmuTranslateAddress cfg pe tlb logicDir pid
  else
    (mmuPerformPageWalk cfg pe (pageOf cfg logicDir) pid).map fun frame =>
      (tlb, physicalAddress cfg frame (offsetOf cfg logicDir))

/-! ## 4. The cache -/

/-- `cache_find_entry`: the index of the first valid entry of the page.  The pid is only logged. -/
def cacheFindEntry (cache : Cache) (pageNumber : Int) : Cache × Option Nat :=
  match cache.entries.findIdx? fun e => e.isValid && decide (e.page = pageNumber) with
  | none => (cache, none)
  | some i =>
    ({ cache with entries := cache.entries.modify i fun e => { e with useBit := true } }, some i)

/-- `cache_find_victim_clock`. -/
def cacheFindVictimClock (n : Nat) : Nat → Cache → Option (Cache × Nat)
  | 0, _ => none
  | fuel + 1, cache =>
    match cache.entries[cache.clockPointer]? with
    | none => none
    | some entry =>
      let next := (cache.clockPointer + 1) % n
      if entry.isValid && entry.useBit then
        cacheFindVictimClock n fuel
          { entries := cache.entries.set cache.clockPointer { entry with useBit := false }
            clockPointer := next }
      else some ({ cache with clockPointer := next }, cache.clockPointer)

/-- The first pass of `cache_find_victim_clock_m`: an entry that is free, or neither used nor
modified. -/
def clockMFirstPass (n : Nat) : Nat → Cache → Cache × Option Nat
  | 0, cache => (cache, none)
  | k + 1, cache =>
    match cache.entries[cache.clockPointer]? with
    | none => (cache, none)
    | some entry =>
      let advanced := { cache with clockPointer := (cache.clockPointer + 1) % n }
      if !entry.isValid || (!entry.useBit && !entry.modifiedBit) then
        (advanced, some cache.clockPointer)
      else clockMFirstPass n k advanced

/-- The second pass: an entry that is modified and not used; the use bits passed over are cleared. -/
def clockMSecondPass (n : Nat) : Nat → Cache → Cache × Option Nat
  | 0, cache => (cache, none)
  | k + 1, cache =>
    match cache.entries[cache.clockPointer]? with
    | none => (cache, none)
    | some entry =>
      let next := (cache.clockPointer + 1) % n
      if entry.isValid && !entry.useBit && entry.modifiedBit then
        ({ cache with clockPointer := next }, some cache.clockPointer)
      else
        clockMSecondPass n k
          { entries := cache.entries.set cache.clockPointer
              { entry with useBit := if entry.isValid then false else entry.useBit }
            clockPointer := next }

/-- `cache_find_victim_clock_m`. -/
def cacheFindVictimClockM (n : Nat) : Nat → Cache → Option (Cache × Nat)
  | 0, _ => none
  | fuel + 1, cache =>
    match clockMFirstPass n n cache with
    | (cache, some i) => some (cache, i)
    | (cache, none) =>
      match clockMSecondPass n n cache with
      | (cache, some i) => some (cache, i)
      | (cache, none) => cacheFindVictimClockM n fuel cache

/-- The victim of the configured algorithm.  No search takes more than one round for each entry and
one more. -/
def findVictim (cfg : Config) (cache : Cache) : Option (Cache × Nat) :=
  match cfg.cacheAlgorithm with
  | .clock => cacheFindVictimClock cfg.cacheEntries (cache.entries.length + 1) cache
  | .clockM => cacheFindVictimClockM cfg.cacheEntries (cache.entries.length + 1) cache

/-- A WRITE_MEMORY of the modified region of an entry whose page starts at `physicDir`. -/
def writeModifiedRegion (cfg : Config) (mem : Bytes) (physicDir : Int) (entry : CacheEntry) :
    Option Bytes :=
  if entry.modifiedStart < entry.modifiedEnd then
    writeToUserSpace cfg.memoria mem (toInt32 (physicDir + entry.modifiedStart))
      (entry.content.slice entry.modifiedStart (entry.modifiedEnd - entry.modifiedStart))
  else some mem

/-- The physical address of a victim's page.  Without a TLB it comes from a page walk. -/
def victimAddress (cfg : Config) (pe : PageEntries) (tlb : Tlb) (victim : CacheEntry) :
    Option (Tlb × Int) :=
  if 0 < cfg.tlbEntries then mmuTranslateAddressWithPageNumber cfg pe tlb victim.page victim.pid
  else
    (mmuPerformPageWalk cfg pe victim.page victim.pid).map fun frame =>
      (tlb, physicalAddress cfg frame 0)

/-- A dirty victim after its write-back.  It keeps its `modified_bit`. -/
def CacheEntry.cleared (entry : CacheEntry) : CacheEntry :=
  { entry with
    content := zeros
    modifiedStart := 0
    modifiedEnd := 0 }

/-- `select_victim_entry`: the index of the entry, or NULL when the TLB says that its page is at
address 0.  A dirty victim is written back. -/
def selectVictimEntry (cfg : Config) (pe : PageEntries) (mmu : Mmu) (mem : Bytes) :
    Option (Mmu × Bytes × Option Nat) :=
  (findVictim cfg mmu.cache).bind fun found =>
    (found.1.entries[found.2]?).bind fun victim =>
      if victim.isValid && victim.modifiedBit then
        (victimAddress cfg pe mmu.tlb victim).bind fun x =>
          if 0 < cfg.tlbEntries ∧ x.2 = 0 then some (⟨x.1, found.1⟩, mem, none)
          else
            (writeModifiedRegion cfg mem x.2 victim).map fun mem' =>
              (⟨x.1, { found.1 with entries := found.1.entries.set found.2 victim.cleared }⟩, mem',
                some found.2)
      else some (⟨mmu.tlb, found.1⟩, mem, some found.2)

/-- An entry after `cache_load_page`: its content is the bytes that memoria returned, with zeros behind
them. -/
def CacheEntry.loaded (entry : CacheEntry) (pageNumber pid : Int) (bytes : List UInt8) : CacheEntry :=
  { entry with
    isValid := true
    page := pageNumber
    pid := pid
    content := fun a => bytes.getD a 0
    useBit := true
    modifiedBit := false
    modifiedStart := 0
    modifiedEnd := 0 }

/-- `cache_load_page`.  The whole page is asked for from the ADDRESS read on, not from the start of
the page. -/
def cacheLoadPage (cfg : Config) (pe : PageEntries) (mmu : Mmu) (mem : Bytes) (logicDir : Int)
    (i : Nat) (pid : Int) : Option Mmu :=
  (translate cfg pe pid mmu.tlb logicDir).bind fun x =>
    (readFromUserSpace cfg.memoria mem x.2 cfg.pageSize).map fun bytes =>
      { tlb := x.1
        cache := { mmu.cache with
          entries := mmu.cache.entries.modify i fun e =>
            e.loaded (pageOf cfg logicDir) pid bytes } }

/-! ## 5. Clean-up -/

/-- An entry after the clean-up. -/
def CacheEntry.invalidated (entry : CacheEntry) : CacheEntry :=
  { entry with
    isValid := false
    modifiedBit := false
    modifiedStart := 0
    modifiedEnd := 0 }

/-- `_writeback_if_dirty` for one entry. -/
def writebackIfDirty (cfg : Config) (pe : PageEntries) (tlb : Tlb) (mem : Bytes)
    (entry : CacheEntry) : Option (Tlb × Bytes) :=
  if entry.isValid && entry.modifiedBit then
    (mmuTranslateAddressWithPageNumber cfg pe tlb entry.page entry.pid).bind fun x =>
      (writeModifiedRegion cfg mem x.2 entry).map fun mem' => (x.1, mem')
  else some (tlb, mem)

/-- `list_iterate(g_cache, _writeback_if_dirty)`: the entries one after the other. -/
def writebackAll (cfg : Config) (pe : PageEntries) :
    List CacheEntry → Tlb → Bytes → Option (Tlb × Bytes)
  | [], tlb, mem => some (tlb, mem)
  | entry :: rest, tlb, mem =>
    (writebackIfDirty cfg pe tlb mem entry).bind fun x => writebackAll cfg pe rest x.1 x.2

/-- `mmu_process_cleanup`. -/
def mmuProcessCleanup (cfg : Config) (pe : PageEntries) (mmu : Mmu) (mem : Bytes) :
    Option (Mmu × Bytes) :=
  (if 0 < cfg.cacheEntries then writebackAll cfg pe mmu.cache.entries mmu.tlb mem
    else some (mmu.tlb, mem)).map fun x =>
      ({ tlb := if 0 < cfg.tlbEntries then { x.1 with entries := [] } else x.1
         cache := { mmu.cache with
           entries := mmu.cache.entries.map CacheEntry.invalidated } }, x.2)

end Tpso.Cpu
