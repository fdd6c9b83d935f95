/-
# Translation gives the frame of the page table

The TLB is a cache of page walks: as long as the page tables stay as they are, what it holds is what a
walk would give (`TlbOk`), whichever way it replaces entries, so every translation ends at the frame
that the page table maps (`frameOf_eq`).  For pages that are mapped into the user space the addresses
do not overflow, and a write inside a page is a block of bytes stored at `frame * page_size + offset`.
-/
import Tpso.Cpu.Execution
import Tpso.Memoria.Steps

namespace Tpso.Cpu

open Tpso.Lib
open Tpso.Memoria (toInt32 toInt32_eq writeToUserSpace readFromUserSpace exceedsUserSpace)

/-! ## 1. The TLB -/

variable {cfg : Config} {pe : PageEntries} {tlb : Tlb} {page pid frame : Int}

/-- Every TLB entry holds what a page walk would give. -/
def TlbOk (cfg : Config) (pe : PageEntries) (tlb : Tlb) : Prop :=
  ∀ e ∈ tlb.entries, mmuPerformPageWalk cfg pe e.page e.pid = some e.frame

theorem TlbOk.find (h : TlbOk cfg pe tlb) (page pid : Int) :
    TlbOk cfg pe (tlbFindEntry cfg tlb page pid).1 ∧
      ∀ f, (tlbFindEntry cfg tlb page pid).2 = some f → mmuPerformPageWalk cfg pe page pid = some f := by
  unfold tlbFindEntry
  split
  · exact ⟨h, by simp⟩
  · split
    · exact ⟨h, by simp⟩
    · rename_i i hidx
      obtain ⟨hlt, hhit, -⟩ := List.findIdx?_eq_some_iff_getElem.mp hidx
      -- the entry found is for the page and the pid
      have hframe : ∀ f, (tlb.entries[i]?).map (·.frame) = some f →
          mmuPerformPageWalk cfg pe page pid = some f := by
        intro f hf
        have hmem := h (tlb.entries[i]) (List.getElem_mem hlt)
        have hkey := of_decide_eq_true hhit
        rw [hkey.1, hkey.2] at hmem
        simpa [List.getElem?_eq_getElem hlt, ← hmem] using hf
      simp only
      split
      · refine ⟨?_, hframe⟩
        intro e he
        obtain ⟨j, hj, rfl⟩ := List.mem_iff_getElem.mp he
        rw [List.getElem_modify]
        have hj' : j < tlb.entries.length := by simpa using hj
        split
        · exact h (tlb.entries[j]) (List.getElem_mem hj')
        · exact h (tlb.entries[j]) (List.getElem_mem hj')
      · exact ⟨h, hframe⟩

theorem TlbOk.add (h : TlbOk cfg pe tlb) (hwalk : mmuPerformPageWalk cfg pe page pid = some frame) :
    TlbOk cfg pe (tlbAddEntry cfg tlb page frame pid) := by
  have hset : ∀ (i : Nat) (e : TlbEntry),
      e ∈ tlb.entries.set i ⟨page, pid, frame, tlb.lruTimestampCounter⟩ →
      mmuPerformPageWalk cfg pe e.page e.pid = some e.frame := by
    intro i e he
    rcases List.mem_or_eq_of_mem_set he with he | rfl
    · exact h e he
    · exact hwalk
  unfold tlbAddEntry
  split
  · exact h
  · simp only
    split
    · intro e he
      rcases List.mem_append.mp he with he | he
      · exact h e he
      · rw [List.mem_singleton.mp he]
        exact hwalk
    · exact fun e he => hset _ e he

/-- **A translation gives the frame that the page table maps.** -/
theorem frameOf_eq (h : TlbOk cfg pe tlb) (hwalk : mmuPerformPageWalk cfg pe page pid = some frame) :
    ∃ tlb', frameOf cfg pe tlb page pid = some (tlb', frame) ∧ TlbOk cfg pe tlb' := by
  obtain ⟨hok, hhit⟩ := h.find page pid
  unfold frameOf
  split
  · rename_i tlb' f hfind
    rw [hfind] at hok hhit
    obtain rfl : frame = f := by simpa [hwalk] using hhit f rfl
    exact ⟨tlb', rfl, hok⟩
  · rename_i tlb' hfind
    rw [hfind] at hok
    exact ⟨tlbAddEntry cfg tlb' page frame pid, by simp [hwalk], hok.add hwalk⟩

theorem mmuTranslateAddressWithPageNumber_eq (h : TlbOk cfg pe tlb)
    (hwalk : mmuPerformPageWalk cfg pe page pid = some frame) :
    ∃ tlb', mmuTranslateAddressWithPageNumber cfg pe tlb page pid =
      some (tlb', physicalAddress cfg frame 0) ∧ TlbOk cfg pe tlb' := by
  obtain ⟨tlb', heq, hok⟩ := frameOf_eq h hwalk
  exact ⟨tlb', by simp [mmuTranslateAddressWithPageNumber, heq], hok⟩

theorem victimAddress_eq {victim : CacheEntry} (h : TlbOk cfg pe tlb)
    (hwalk : mmuPerformPageWalk cfg pe victim.page victim.pid = some frame) :
    ∃ tlb', victimAddress cfg pe tlb victim = some (tlb', physicalAddress cfg frame 0) ∧
      TlbOk cfg pe tlb' := by
  unfold victimAddress
  split
  · exact mmuTranslateAddressWithPageNumber_eq h hwalk
  · exact ⟨tlb, by simp [hwalk], h⟩

theorem translate_eq {logicDir : Int} (h : TlbOk cfg pe tlb)
    (hwalk : mmuPerformPageWalk cfg pe (pageOf cfg logicDir) pid = some frame) :
    ∃ tlb', translate cfg pe pid tlb logicDir =
      some (tlb', physicalAddress cfg frame (offsetOf cfg logicDir)) ∧ TlbOk cfg pe tlb' := by
  unfold translate
  split
  · obtain ⟨tlb', heq, hok⟩ := frameOf_eq h hwalk
    exact ⟨tlb', by simp [mmuTranslateAddress, heq], hok⟩
  · exact ⟨tlb, by simp [hwalk], h⟩

/-! ## 2. Addresses -/

/-- The end of a frame is inside the user space. -/
theorem frame_end_le {f : Nat} (hf : f < cfg.memoria.framesTotal) :
    f * cfg.pageSize + cfg.pageSize ≤ cfg.memoria.tamMemoria := Memoria.frame_end_le_tamMemoria hf

/-- The address of a byte of a mapped page. -/
theorem physicalAddress_eq {f o : Nat} (hf : f < cfg.memoria.framesTotal) (ho : o ≤ cfg.pageSize) :
    physicalAddress cfg f o = (f * cfg.pageSize + o : Nat) := by
  have hend := frame_end_le hf
  have hlt := cfg.memoria.tamMemoria_lt
  unfold physicalAddress
  rw [toInt32_eq]
  · push_cast
    rfl
  · positivity
  · have : (f * cfg.pageSize + o : Nat) < 2 ^ 31 := by omega
    exact_mod_cast this

/-- **A write inside a page** stores a block in the user space. -/
theorem writeToUserSpace_eq {mem : Bytes} {f o : Nat} {data : List UInt8}
    (hf : f < cfg.memoria.framesTotal) (ho : o + data.length ≤ cfg.pageSize) :
    writeToUserSpace cfg.memoria mem (f * cfg.pageSize + o : Nat) data =
      some (mem.blit (f * cfg.pageSize + o) data) := Memoria.writeToUserSpace_frame hf ho

/-- A read from a mapped page gives some bytes. -/
theorem readFromUserSpace_isSome (cfg : Config) (mem : Bytes) (a n : Nat) :
    ∃ bytes, readFromUserSpace cfg.memoria mem a n = some bytes := by
  unfold readFromUserSpace
  rw [if_neg (not_lt.mpr (by positivity))]
  split
  · exact ⟨_, rfl⟩
  · rw [if_neg (not_lt.mpr (by positivity))]
    exact ⟨_, rfl⟩

/-! ## 3. Logical addresses -/

/-- A logical address that is not negative is a page and an offset into it. -/
theorem pageOf_offsetOf (cfg : Config) {logicDir : Int} (h : 0 ≤ logicDir) :
    0 ≤ pageOf cfg logicDir ∧ ∃ o : Nat, offsetOf cfg logicDir = o ∧ o < cfg.pageSize := by
  have hps : 0 < cfg.pageSize := cfg.memoria.tamPagina_pos
  have hps' : (0 : Int) < cfg.pageSize := by exact_mod_cast hps
  refine ⟨Int.tdiv_nonneg h hps'.le, (logicDir.tmod cfg.pageSize).toNat, ?_, ?_⟩
  · exact (Int.toNat_of_nonneg (Int.tmod_nonneg _ h)).symm
  · have hlt := Int.tmod_lt_of_pos logicDir hps'
    have hnn := Int.tmod_nonneg (cfg.pageSize : Int) h
    omega

end Tpso.Cpu
