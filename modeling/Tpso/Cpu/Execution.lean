/-
# READ and WRITE instructions

The READ and WRITE cases of `execution` in `instructionCycle.c`, with the page cache and without it
(`ENTRADAS_CACHE = 0`).  The result says whether the program counter was advanced: an instruction that
fails is fetched and executed again.
-/
import Tpso.Cpu.Mmu

namespace Tpso.Cpu

open Tpso.Lib
open Tpso.Memoria (writeToUserSpace readFromUserSpace)

/-- The instructions that access memory. -/
inductive Access where
  | read (logicDir size : Int)
  | write (logicDir : Int) (value : List UInt8)

/-! ## 1. WRITE with the cache -/

/-- A victim set up for a page that is about to be written.  The page is NOT read from memory. -/
def CacheEntry.setUp (entry : CacheEntry) (pageNumber pid : Int) (offset size : Nat) : CacheEntry :=
  { entry with
    isValid := true
    pid := pid
    page := pageNumber
    useBit := true
    modifiedStart := offset
    modifiedEnd := offset + size
    content := zeros }

/-- The modified region takes in the bytes written, and everything between them and what it was. -/
def CacheEntry.store (entry : CacheEntry) (offset : Nat) (value : List UInt8) : CacheEntry :=
  { entry with
    modifiedStart := if entry.modifiedBit then min entry.modifiedStart offset else offset
    modifiedEnd :=
      if entry.modifiedBit then max entry.modifiedEnd (offset + value.length)
      else offset + value.length
    content := entry.content.blit offset value
    modifiedBit := true }

/-- The end of a WRITE: the copy into the entry, which must lie inside the page. -/
def storeInto (cfg : Config) (mmu : Mmu) (mem : Bytes) (i : Nat) (offset : Int)
    (value : List UInt8) : Option (Mmu × Bytes × Bool) :=
  if offset < 0 ∨ (cfg.pageSize : Int) < offset + value.length then none
  else
    some ({ mmu with
      cache := { mmu.cache with
        entries := mmu.cache.entries.modify i fun e => e.store offset.toNat value } }, mem, true)

/-- WRITE with the cache. -/
def writeCached (cfg : Config) (pe : PageEntries) (pid : Int) (mmu : Mmu) (mem : Bytes)
    (logicDir : Int) (value : List UInt8) : Option (Mmu × Bytes × Bool) :=
  let pageNumber := pageOf cfg logicDir
  let offset := offsetOf cfg logicDir
  match cacheFindEntry mmu.cache pageNumber with
  | (cache, some i) => storeInto cfg { mmu with cache := cache } mem i offset value
  | (cache, none) =>
    (selectVictimEntry cfg pe { mmu with cache := cache } mem).bind fun x =>
      x.2.2.elim (some (x.1, x.2.1, false)) fun i =>
        storeInto cfg
          { x.1 with
            cache := { x.1.cache with
              entries := x.1.cache.entries.modify i fun e =>
                e.setUp pageNumber pid offset.toNat value.length } } x.2.1 i offset value

/-! ## 2. READ with the cache -/

/-- READ with the cache.  What is read is only logged. -/
def readCached (cfg : Config) (pe : PageEntries) (pid : Int) (mmu : Mmu) (mem : Bytes)
    (logicDir : Int) : Option (Mmu × Bytes × Bool) :=
  match cacheFindEntry mmu.cache (pageOf cfg logicDir) with
  | (cache, some _) => some ({ mmu with cache := cache }, mem, true)
  | (cache, none) =>
    (selectVictimEntry cfg pe { mmu with cache := cache } mem).bind fun x =>
      x.2.2.elim (some (x.1, x.2.1, false)) fun i =>
        (cacheLoadPage cfg pe x.1 x.2.1 logicDir i pid).map fun mmu' => (mmu', x.2.1, true)

/-! ## 3. Without the cache -/

/-- WRITE without the cache. -/
def writeDirect (cfg : Config) (pe : PageEntries) (pid : Int) (mmu : Mmu) (mem : Bytes)
    (logicDir : Int) (value : List UInt8) : Option (Mmu × Bytes × Bool) :=
  (translate cfg pe pid mmu.tlb logicDir).bind fun x =>
    (writeToUserSpace cfg.memoria mem x.2 value).map fun mem' =>
      ({ mmu with tlb := x.1 }, mem', true)

/-- READ without the cache. -/
def readDirect (cfg : Config) (pe : PageEntries) (pid : Int) (mmu : Mmu) (mem : Bytes)
    (logicDir size : Int) : Option (Mmu × Bytes × Bool) :=
  (translate cfg pe pid mmu.tlb logicDir).bind fun x =>
    (readFromUserSpace cfg.memoria mem x.2 size).map fun _ => ({ mmu with tlb := x.1 }, mem, true)

/-! ## 4. Programs of READs and WRITEs -/

/-- `execution`, for READ and WRITE. -/
def execution (cfg : Config) (pe : PageEntries) (pid : Int) (mmu : Mmu) (mem : Bytes) :
    Access → Option (Mmu × Bytes × Bool)
  | .write logicDir value =>
    if 0 < cfg.cacheEntries then writeCached cfg pe pid mmu mem logicDir value
    else writeDirect cfg pe pid mmu mem logicDir value
  | .read logicDir size =>
    if 0 < cfg.cacheEntries then readCached cfg pe pid mmu mem logicDir
    else readDirect cfg pe pid mmu mem logicDir size

/-- The instruction loop over a program of READs and WRITEs.  An instruction that did not advance the
program counter is executed again; no result means that the program has not come to its end. -/
def runProgram (cfg : Config) (pe : PageEntries) (pid : Int) :
    Nat → List Access → Mmu → Bytes → Option (Mmu × Bytes)
  | _, [], mmu, mem => some (mmu, mem)
  | 0, _ :: _, _, _ => none
  | fuel + 1, a :: rest, mmu, mem =>
    (execution cfg pe pid mmu mem a).bind fun x =>
      if x.2.2 then runProgram cfg pe pid fuel rest x.1 x.2.1
      else runProgram cfg pe pid fuel (a :: rest) x.1 x.2.1

end Tpso.Cpu
