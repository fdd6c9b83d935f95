/-
# WRITE without the cache

Without the cache a WRITE translates the page of its FIRST byte and sends the whole string to one
physical address.  memoria screens the size of the string and the end of the user space; neither side
looks at the end of the frame.  A string that lies in one page is stored where it belongs.  One that
goes on into the next page is stored behind the frame of the first, in whatever frame that is, or, when
the frame is the last one of the user space, not at all; the CPU gets a confirmation in every case.

* `writesExactly_iff`: exactly when a WRITE stores its string at its logical address and nothing
  anywhere else;
* `not_writesExactly`: a string across two pages whose frames are apart overwrites a byte of another
  process.
-/
import Tpso.Cpu.PageWalk
import Tpso.Cpu.Translation
import Tpso.Memoria.Agreement
import Tpso.Memoria.Mapped

namespace Tpso.Cpu

open Tpso.Lib
open Tpso.Memoria (PageTable FramesIn pageEntries processManagerFindProcess tableCount toInt32
  toInt32_eq writeToUserSpace exceedsUserSpace invalidFrameNumber)

/-! ## 1. The bytes of a process -/

/-- The physical address of a logical one: page by page, the frame of the list and the offset. -/
def byteAddr (cfg : Config) (fs : List Nat) (l : Nat) : Nat :=
  fs.getD (l / cfg.pageSize) 0 * cfg.pageSize + l % cfg.pageSize

/-- A resident process whose page table maps page `i` to its `i`-th frame.  The tables of the tree
have been numbered without overflow of `next_table_id`. -/
structure Resident (cfg : Config) (s : Memoria.State) (pid : Int) (fs : List Nat) : Prop where
  record : ∃ p t, processManagerFindProcess s.processes pid = some p ∧ p.isSuspended = false ∧
    p.allocatedFrames = .obj fs ∧ p.pageTable = .obj t ∧ FramesIn cfg.memoria fs t
  nodup : fs.Nodup
  lt : ∀ f ∈ fs, f < cfg.memoria.framesTotal
  entries : 1 ≤ cfg.memoria.entradasPorTabla
  tables : tableCount cfg.memoria.entradasPorTabla cfg.memoria.cantidadNiveles < 2 ^ 31

/-- The string is at its logical address, and no other byte has changed. -/
structure WritesExactly (cfg : Config) (fs : List Nat) (mem mem' : Bytes) (logicDir : Nat)
    (value : List UInt8) : Prop where
  stored : ∀ k < value.length, mem' (byteAddr cfg fs (logicDir + k)) = value.getD k 0
  others : ∀ x, (∀ k < value.length, x ≠ byteAddr cfg fs (logicDir + k)) → mem' x = mem x

section Addresses

variable {cfg : Config} {fs : List Nat} {a : Nat}

theorem pageSize_pos (cfg : Config) : 0 < cfg.pageSize := cfg.memoria.tamPagina_pos

/-- The bytes of one page follow each other. -/
theorem byteAddr_add_of_lt {k : Nat} (h : a % cfg.pageSize + k < cfg.pageSize) :
    byteAddr cfg fs (a + k) = byteAddr cfg fs a + k := by
  have hps := pageSize_pos cfg
  have hmod : (a + k) % cfg.pageSize = a % cfg.pageSize + k := by
    rw [Nat.add_mod, Nat.mod_eq_of_lt (a := k) (by omega), Nat.mod_eq_of_lt h]
  have hdiv : (a + k) / cfg.pageSize = a / cfg.pageSize := by
    rw [Nat.add_div hps, Nat.div_eq_of_lt (a := k) (by omega), Nat.mod_eq_of_lt (a := k) (by omega),
      if_neg (by omega), Nat.add_zero]
  simp only [byteAddr, hmod, hdiv]
  omega

/-- The bytes of the page after it are in the frame of that page. -/
theorem byteAddr_add_of_ge {k : Nat} (h1 : cfg.pageSize ≤ a % cfg.pageSize + k)
    (h2 : k < cfg.pageSize) :
    byteAddr cfg fs (a + k) =
      fs.getD (a / cfg.pageSize + 1) 0 * cfg.pageSize + (a % cfg.pageSize + k - cfg.pageSize) := by
  have hps := pageSize_pos cfg
  have hlt := Nat.mod_lt a hps
  have hsum : a + k = (a / cfg.pageSize + 1) * cfg.pageSize + (a % cfg.pageSize + k - cfg.pageSize) := by
    have := Nat.div_add_mod a cfg.pageSize
    rw [Nat.add_mul, Nat.one_mul, Nat.mul_comm (a / cfg.pageSize)]
    omega
  have hdiv : (a + k) / cfg.pageSize = a / cfg.pageSize + 1 := by
    rw [hsum, Nat.add_comm, Nat.add_mul_div_right _ _ hps, Nat.div_eq_of_lt (by omega), Nat.zero_add]
  have hmod : (a + k) % cfg.pageSize = a % cfg.pageSize + k - cfg.pageSize := by
    rw [hsum, Nat.mul_add_mod_self_right, Nat.mod_eq_of_lt (by omega)]
  rw [byteAddr, hdiv, hmod]

/-- Another string of bytes of the page lies at another place. -/
theorem mul_add_inj {ps f g o o' : Nat} (ho : o < ps) (ho' : o' < ps)
    (h : f * ps + o = g * ps + o') : f = g ∧ o = o' := by
  have hdiv : (f * ps + o) / ps = (g * ps + o') / ps := by rw [h]
  have hps : 0 < ps := by omega
  rw [Nat.add_comm, Nat.add_mul_div_right _ _ hps, Nat.div_eq_of_lt ho, Nat.add_comm (g * ps),
    Nat.add_mul_div_right _ _ hps, Nat.div_eq_of_lt ho'] at hdiv
  have hfg : f = g := by omega
  subst hfg
  exact ⟨rfl, by omega⟩

end Addresses

/-! ## 2. What a WRITE does to the user space -/

/-- `write_to_user_space` returns without storing anything. -/
def skips (cfg : Config) (physicDir size : Nat) : Bool :=
  decide (cfg.pageSize < size ∨ cfg.memoria.tamMemoria < physicDir + size)

/-- The guard of memoria, for a block that starts in the user space. -/
theorem exceedsUserSpace_nat {cfg : Config} {physicDir size : Nat}
    (hdir : physicDir ≤ cfg.memoria.tamMemoria) (hsize : size ≤ cfg.memoria.tamMemoria) :
    exceedsUserSpace cfg.memoria physicDir size =
      decide (cfg.memoria.tamMemoria < physicDir + size) := by
  have hlt := cfg.memoria.tamMemoria_lt
  unfold exceedsUserSpace toInt32
  apply decide_eq_decide.mpr
  by_cases hwrap : physicDir + size < 2 ^ 31
  · rw [Int.bmod_eq_of_le (by omega) (by omega)]
    omega
  · rw [← Int.sub_bmod_right, Int.bmod_eq_of_le (by omega) (by omega)]
    omega

/-- A write to an address of the user space stores the whole string, or nothing. -/
theorem writeToUserSpace_nat {cfg : Config} {mem : Bytes} {physicDir : Nat} {value : List UInt8}
    (hdir : physicDir ≤ cfg.memoria.tamMemoria) (hpage : cfg.pageSize ≤ cfg.memoria.tamMemoria) :
    writeToUserSpace cfg.memoria mem physicDir value =
      some (if skips cfg physicDir value.length then mem else mem.blit physicDir value) := by
  unfold writeToUserSpace skips
  by_cases hlong : cfg.pageSize < value.length
  · have : (cfg.memoria.tamPagina : Int) < value.length := by exact_mod_cast hlong
    simp [hlong, this]
  · have hshort : ¬ (cfg.memoria.tamPagina : Int) < value.length := by exact_mod_cast hlong
    rw [if_neg hshort, exceedsUserSpace_nat hdir (by omega)]
    by_cases hover : cfg.memoria.tamMemoria < physicDir + value.length
    · simp [hover]
    · simp [hlong, hover]

/-- There is at least one entry for each last-level table, so the divisors of the walk are ints. -/
theorem pow_le_tableCount {e : Nat} : ∀ r : Nat, e ^ r ≤ tableCount e (r + 1)
  | 0 => by simp [tableCount]
  | r + 1 => by
    have ih := pow_le_tableCount (e := e) r
    rw [tableCount, pow_succ']
    exact (Nat.mul_le_mul_left e ih).trans (Nat.le_add_left _ _)

theorem pow_lastLevel_lt {cfg : Config}
    (h : tableCount cfg.memoria.entradasPorTabla cfg.memoria.cantidadNiveles < 2 ^ 31) :
    cfg.memoria.entradasPorTabla ^ cfg.memoria.lastLevel < 2 ^ 31 := by
  rw [Memoria.cantidadNiveles_eq] at h
  exact (pow_le_tableCount _).trans_lt h

section Writes

variable {cfg : Config} {s : Memoria.State} {pid : Int} {fs : List Nat}

/-- The walk of a page of a resident process. -/
theorem Resident.walk (h : Resident cfg s pid fs) {i f : Nat} (hf : fs[i]? = some f) :
    mmuPerformPageWalk cfg (pageEntries s) i pid = some (f : Int) := by
  obtain ⟨p, t, hfind, -, -, htable, ht⟩ := h.record
  obtain ⟨hone, hnd, hpos⟩ := framesIn_ids_of_count ht h.tables
  rw [mmuPerformPageWalk_eq hfind htable hone hnd (fun u hu => (hpos u hu).ne') ht.complete h.entries
    (pow_lastLevel_lt h.tables)]
  exact ht.used i f hf

/-- The frame of an address of a resident process, and where it is. -/
theorem Resident.frame (h : Resident cfg s pid fs) {a : Nat} (ha : a < fs.length * cfg.pageSize) :
    ∃ f, fs[a / cfg.pageSize]? = some f ∧ f * cfg.pageSize + cfg.pageSize ≤ cfg.memoria.tamMemoria ∧
      byteAddr cfg fs a = f * cfg.pageSize + a % cfg.pageSize := by
  have hlt : a / cfg.pageSize < fs.length := Nat.div_lt_of_lt_mul (by rwa [Nat.mul_comm])
  refine ⟨fs[a / cfg.pageSize], List.getElem?_eq_getElem hlt, ?_, ?_⟩
  · exact frame_end_le (h.lt _ (List.getElem_mem hlt))
  · simp [byteAddr, List.getElem?_eq_getElem hlt]

/-- **A WRITE without the cache** sends the string to the address of its first byte. -/
theorem execution_write_direct (h : Resident cfg s pid fs) (hcache : cfg.cacheEntries = 0) {mmu : Mmu}
    (htlb : TlbOk cfg (pageEntries s) mmu.tlb) {a : Nat} (ha : a < fs.length * cfg.pageSize)
    (mem : Bytes) (value : List UInt8) :
    ∃ mmu', execution cfg (pageEntries s) pid mmu mem (.write a value) =
      some (mmu', if skips cfg (byteAddr cfg fs a) value.length then mem
        else mem.blit (byteAddr cfg fs a) value, true) := by
  have hps := pageSize_pos cfg
  have hmod := Nat.mod_lt a hps
  obtain ⟨f, hf, hend, haddr⟩ := h.frame ha
  have hmem := h.lt f (List.mem_of_getElem? hf)
  have hwalk := h.walk hf
  have hpage : pageOf cfg a = (a / cfg.pageSize : Nat) := (Int.ofNat_tdiv a cfg.pageSize).symm
  have hoffset : offsetOf cfg a = (a % cfg.pageSize : Nat) := (Int.ofNat_tmod a cfg.pageSize).symm
  obtain ⟨tlb', htrans, -⟩ := @translate_eq _ _ _ _ _ (a : Int) htlb (hpage ▸ hwalk)
  rw [hoffset, physicalAddress_eq hmem hmod.le, ← haddr] at htrans
  refine ⟨{ mmu with tlb := tlb' }, ?_⟩
  simp only [execution, hcache, lt_irrefl, if_false, writeDirect, htrans, Option.bind_some]
  rw [writeToUserSpace_nat (by omega) (by omega)]
  rfl

/-! ## 3. When the string arrives -/

/-- The string lies in one page, or in two pages whose frames follow each other. -/
def Contiguous (cfg : Config) (fs : List Nat) (a size : Nat) : Prop :=
  a % cfg.pageSize + size ≤ cfg.pageSize ∨
    size ≤ cfg.pageSize ∧ ∃ f, fs[a / cfg.pageSize]? = some f ∧ fs[a / cfg.pageSize + 1]? = some (f + 1)

/-- The string is lost, wholly or behind the end of the page, but the bytes of the user space that the
loss concerns have the values of the string already. -/
def AlreadyThere (cfg : Config) (fs : List Nat) (mem : Bytes) (a : Nat) (value : List UInt8) : Prop :=
  if skips cfg (byteAddr cfg fs a) value.length then
    ∀ k < value.length, mem (byteAddr cfg fs (a + k)) = value.getD k 0
  else
    ∀ k < value.length, cfg.pageSize ≤ a % cfg.pageSize + k →
      mem (byteAddr cfg fs (a + k)) = value.getD k 0 ∧
      mem (byteAddr cfg fs a + k) = value.getD k 0

/-- A block whose bytes are those of the logical addresses. -/
theorem writesExactly_blit {mem : Bytes} {a : Nat} {value : List UInt8}
    (h : ∀ k < value.length, byteAddr cfg fs (a + k) = byteAddr cfg fs a + k) :
    WritesExactly cfg fs mem (mem.blit (byteAddr cfg fs a) value) a value := by
  constructor
  · intro k hk
    rw [h k hk, Bytes.blit_of_mem (by omega) (by omega), Nat.add_sub_cancel_left]
  · intro x hx
    refine Bytes.blit_of_not_mem ?_
    rintro ⟨h1, h2⟩
    refine hx (x - byteAddr cfg fs a) (by omega) ?_
    rw [h _ (by omega)]
    omega

/-- A contiguous string is not skipped, and its bytes follow each other. -/
theorem Resident.contiguous (h : Resident cfg s pid fs) {a : Nat} {value : List UInt8}
    (hne : value ≠ []) (ha : a + value.length ≤ fs.length * cfg.pageSize)
    (hc : Contiguous cfg fs a value.length) :
    skips cfg (byteAddr cfg fs a) value.length = false ∧
      ∀ k < value.length, byteAddr cfg fs (a + k) = byteAddr cfg fs a + k := by
  have hlen : 0 < value.length := List.length_pos_iff.mpr hne
  have hps := pageSize_pos cfg
  have hmod := Nat.mod_lt a hps
  obtain ⟨f, hf, hend, haddr⟩ := h.frame (a := a) (by omega)
  rcases hc with hin | ⟨hshort, f', hf', hnext⟩
  · refine ⟨?_, fun k hk => byteAddr_add_of_lt (by omega)⟩
    simp only [skips, decide_eq_false_iff_not]
    omega
  · obtain rfl : f = f' := Option.some.inj (hf.symm.trans hf')
    have hend' := frame_end_le (h.lt _ (List.mem_of_getElem? hnext))
    rw [Nat.add_mul] at hend'
    refine ⟨?_, ?_⟩
    · simp only [skips, decide_eq_false_iff_not]
      omega
    · intro k hk
      rcases Nat.lt_or_ge (a % cfg.pageSize + k) cfg.pageSize with hlt | hge
      · exact byteAddr_add_of_lt hlt
      · rw [byteAddr_add_of_ge hge (by omega), haddr]
        simp only [List.getD_eq_getElem?_getD, hnext, Option.getD_some, Nat.add_mul]
        omega

/-- The bytes of a string that goes on into a page whose frame is elsewhere: those of the second page
are apart from the block that memoria stores, and the end of the block is apart from all of them. -/
theorem Resident.apart (h : Resident cfg s pid fs) {a size : Nat}
    (ha : a + size ≤ fs.length * cfg.pageSize) (hshort : size ≤ cfg.pageSize)
    (hc : ¬ Contiguous cfg fs a size) {k : Nat} (hk : k < size)
    (hge : cfg.pageSize ≤ a % cfg.pageSize + k) :
    (∀ j < size, byteAddr cfg fs (a + k) ≠ byteAddr cfg fs a + j) ∧
      ∀ j < size, byteAddr cfg fs a + k ≠ byteAddr cfg fs (a + j) := by
  have hps := pageSize_pos cfg
  have hmod := Nat.mod_lt a hps
  obtain ⟨f, hf, -, haddr⟩ := h.frame (a := a) (by omega)
  -- the second page exists, and its frame is neither that of the first nor the one behind it
  have hnextpage : a / cfg.pageSize + 1 < fs.length := by
    have hdiv := Nat.div_add_mod a cfg.pageSize
    by_contra hlast
    have := Nat.mul_le_mul_right cfg.pageSize (not_lt.mp hlast)
    rw [Nat.add_mul, Nat.one_mul, Nat.mul_comm (a / cfg.pageSize)] at this
    omega
  obtain ⟨g, hg⟩ : ∃ g, fs[a / cfg.pageSize + 1]? = some g := ⟨_, List.getElem?_eq_getElem hnextpage⟩
  have hgf : g ≠ f := by
    intro heq
    have := (List.getElem?_inj hnextpage h.nodup).mp (hg.trans (heq ▸ hf.symm))
    omega
  have hgf1 : g ≠ f + 1 := fun heq => hc (.inr ⟨hshort, f, hf, heq ▸ hg⟩)
  have hsecond : ∀ j, cfg.pageSize ≤ a % cfg.pageSize + j → j < cfg.pageSize →
      byteAddr cfg fs (a + j) = g * cfg.pageSize + (a % cfg.pageSize + j - cfg.pageSize) := by
    intro j h1 h2
    rw [byteAddr_add_of_ge h1 h2, List.getD_eq_getElem?_getD, hg, Option.getD_some]
  have hblock : ∀ j, cfg.pageSize ≤ a % cfg.pageSize + j →
      byteAddr cfg fs a + j = (f + 1) * cfg.pageSize + (a % cfg.pageSize + j - cfg.pageSize) := by
    intro j h1
    rw [haddr, Nat.add_mul, Nat.one_mul]
    omega
  constructor
  · intro j hj heq
    rw [hsecond k hge (by omega)] at heq
    rcases Nat.lt_or_ge (a % cfg.pageSize + j) cfg.pageSize with hlt | hge'
    · rw [haddr, Nat.add_assoc] at heq
      exact hgf (mul_add_inj (by omega) hlt heq).1
    · rw [hblock j hge'] at heq
      exact hgf1 (mul_add_inj (by omega) (by omega) heq).1
  · intro j hj heq
    rw [hblock k hge] at heq
    rcases Nat.lt_or_ge (a % cfg.pageSize + j) cfg.pageSize with hlt | hge'
    · rw [byteAddr_add_of_lt hlt, haddr, Nat.add_assoc] at heq
      have := (mul_add_inj (by omega) hlt heq).1
      omega
    · rw [hsecond j hge' (by omega)] at heq
      exact hgf1 (mul_add_inj (by omega) (by omega) heq).1.symm

/-- When a string that is not contiguous arrives all the same. -/
theorem Resident.writesExactly_split (h : Resident cfg s pid fs) {a : Nat} {mem : Bytes}
    {value : List UInt8} (ha : a + value.length ≤ fs.length * cfg.pageSize)
    (hc : ¬ Contiguous cfg fs a value.length)
    (hstored : skips cfg (byteAddr cfg fs a) value.length = false) :
    WritesExactly cfg fs mem (mem.blit (byteAddr cfg fs a) value) a value ↔
      ∀ k < value.length, cfg.pageSize ≤ a % cfg.pageSize + k →
        mem (byteAddr cfg fs (a + k)) = value.getD k 0 ∧
        mem (byteAddr cfg fs a + k) = value.getD k 0 := by
  have hshort : value.length ≤ cfg.pageSize := by
    simp only [skips, decide_eq_false_iff_not] at hstored
    omega
  constructor
  · intro hw k hk hge
    obtain ⟨hfar, hbehind⟩ := h.apart ha hshort hc hk hge
    constructor
    · rw [← hw.stored k hk]
      refine (Bytes.blit_of_not_mem ?_).symm
      rintro ⟨h1, h2⟩
      exact hfar (byteAddr cfg fs (a + k) - byteAddr cfg fs a) (by omega) (by omega)
    · rw [← hw.others _ hbehind, Bytes.blit_of_mem (by omega) (by omega), Nat.add_sub_cancel_left]
  · intro hthere
    constructor
    · intro k hk
      rcases Nat.lt_or_ge (a % cfg.pageSize + k) cfg.pageSize with hlt | hge
      · rw [byteAddr_add_of_lt hlt, Bytes.blit_of_mem (by omega) (by omega), Nat.add_sub_cancel_left]
      · obtain ⟨hfar, -⟩ := h.apart ha hshort hc hk hge
        rw [Bytes.blit_of_not_mem, (hthere k hk hge).1]
        rintro ⟨h1, h2⟩
        exact hfar (byteAddr cfg fs (a + k) - byteAddr cfg fs a) (by omega) (by omega)
    · intro x hx
      by_cases hin : byteAddr cfg fs a ≤ x ∧ x < byteAddr cfg fs a + value.length
      · obtain ⟨k, rfl⟩ := Nat.exists_eq_add_of_le hin.1
        rw [Bytes.blit_of_mem (by omega) hin.2, Nat.add_sub_cancel_left]
        rcases Nat.lt_or_ge (a % cfg.pageSize + k) cfg.pageSize with hlt | hge
        · exact absurd (byteAddr_add_of_lt hlt).symm (hx k (by omega))
        · exact (hthere k (by omega) hge).2.symm
      · exact Bytes.blit_of_not_mem hin

/-- **Exactly when a WRITE without the cache writes what it should.**  For every resident process whose
page table maps its pages to its frames, every address and every string inside the process, with a TLB
or without one: the instruction is executed, and it stores the string at its logical address and changes
nothing else if and only if the string lies in one page, or in two whose frames follow each other, or
the bytes that go astray have their values already. -/
theorem writesExactly_iff (h : Resident cfg s pid fs) (hcache : cfg.cacheEntries = 0) {mmu : Mmu}
    (htlb : TlbOk cfg (pageEntries s) mmu.tlb) {a : Nat} {value : List UInt8} (hne : value ≠ [])
    (ha : a + value.length ≤ fs.length * cfg.pageSize) :
    (∃ mmu' mem', execution cfg (pageEntries s) pid mmu s.userSpace (.write a value) =
        some (mmu', mem', true) ∧ WritesExactly cfg fs s.userSpace mem' a value) ↔
      Contiguous cfg fs a value.length ∨ AlreadyThere cfg fs s.userSpace a value := by
  have hlen : 0 < value.length := List.length_pos_iff.mpr hne
  obtain ⟨mmu', hexec⟩ := execution_write_direct h hcache htlb (a := a) (by omega) s.userSpace value
  have hresult : (∃ mmu' mem', execution cfg (pageEntries s) pid mmu s.userSpace (.write a value) =
        some (mmu', mem', true) ∧ WritesExactly cfg fs s.userSpace mem' a value) ↔
      WritesExactly cfg fs s.userSpace
        (if skips cfg (byteAddr cfg fs a) value.length then s.userSpace
          else s.userSpace.blit (byteAddr cfg fs a) value) a value := by
    rw [hexec]
    constructor
    · rintro ⟨mmu'', mem', heq, hw⟩
      simp only [Option.some.injEq, Prod.mk.injEq, and_true] at heq
      rwa [heq.2]
    · intro hw
      exact ⟨mmu', _, rfl, hw⟩
  rw [hresult]
  by_cases hc : Contiguous cfg fs a value.length
  · obtain ⟨hstored, hfollow⟩ := h.contiguous hne ha hc
    simp only [hc, true_or, iff_true, hstored, Bool.false_eq_true, if_false]
    exact writesExactly_blit hfollow
  · simp only [hc, false_or, AlreadyThere]
    cases hstored : skips cfg (byteAddr cfg fs a) value.length with
    | false => simpa using h.writesExactly_split ha hc hstored
    | true =>
      simp only [if_true]
      constructor
      · intro hw k hk
        exact hw.stored k hk
      · intro hthere
        exact ⟨hthere, fun _ _ => rfl⟩

end Writes

/-! ## 4. Resident processes of a run -/

/-- A process with a size whose page table and frame list agree is resident in this sense. -/
theorem resident_of_tables {cfg : Config} {s : Memoria.State} {pid : Int} {p : Memoria.ProcessInfo}
    {fs : List Nat} (he : 1 ≤ cfg.memoria.entradasPorTabla) (hlevels : cfg.memoria.cantidadNiveles < 2 ^ 31)
    (hpow : cfg.memoria.entradasPorTabla ^ cfg.memoria.cantidadNiveles < 2 ^ 31)
    (htabled : Memoria.AllTabled cfg.memoria s) (hshaped : Memoria.Shaped cfg.memoria s)
    (hfind : processManagerFindProcess s.processes pid = some p) (hsize : p.processSize ≠ 0)
    (hres : p.isSuspended = false) (hfs : p.allocatedFrames = .obj fs)
    (hagree : Memoria.Agrees cfg.memoria p) : Resident cfg s pid fs := by
  have hp := Memoria.mem_of_find hfind
  obtain ⟨t, gs, ht⟩ := htabled.tabled p hp hsize
  obtain ⟨-, t', fs', htable', hfs', hlen⟩ := hshaped.sized p hp hsize
  obtain rfl : fs' = fs := Memoria.Ptr.obj.inj (hfs'.symm.trans hfs)
  -- the frames of the list are those that the table was filled with
  have heq : fs' = gs := by
    apply List.ext_getElem?
    intro i
    obtain ⟨t'', fs'', htable, hfs'', hall⟩ := hagree
    obtain rfl : fs'' = fs' := Memoria.Ptr.obj.inj (hfs''.symm.trans hfs)
    obtain rfl : t'' = t := Memoria.Ptr.obj.inj (htable.symm.trans ht.table)
    have hsame : fs''.length = gs.length := by
      have := hlen.trans ht.length.symm
      exact_mod_cast this
    rcases Nat.lt_or_ge i fs''.length with hi | hi
    · obtain ⟨f, hf, hfollow⟩ := hall i (by rw [← hlen]; exact_mod_cast hi)
      have hused := ht.frames.used i gs[i] (List.getElem?_eq_getElem _)
      rw [hfollow, Option.some.injEq, Nat.cast_inj] at hused
      rw [hf, hused]
      exact (List.getElem?_eq_getElem _).symm
    · rw [List.getElem?_eq_none hi, List.getElem?_eq_none (hsame ▸ hi)]
  subst heq
  exact ⟨⟨p, t, hfind, hres, hfs, ht.table, ht.frames⟩, ht.nodup, ht.lt, he,
    Memoria.tableCount_lt he hlevels hpow⟩

/-- **In a run of memoria**, a process with a size whose page table and frame list agree is resident in
this sense. -/
theorem resident_of_run {cfg : Config} {tr : List (Transition Memoria.State Memoria.Request)}
    {s : Memoria.State} {pid : Int} {p : Memoria.ProcessInfo} {fs : List Nat}
    (he : 1 ≤ cfg.memoria.entradasPorTabla) (hlevels : cfg.memoria.cantidadNiveles < 2 ^ 31)
    (hpow : cfg.memoria.entradasPorTabla ^ cfg.memoria.cantidadNiveles < 2 ^ 31)
    (hr : (Memoria.memoria cfg.memoria).Run tr s)
    (hfind : processManagerFindProcess s.processes pid = some p) (hsize : p.processSize ≠ 0)
    (hres : p.isSuspended = false) (hfs : p.allocatedFrames = .obj fs)
    (hagree : Memoria.Agrees cfg.memoria p) : Resident cfg s pid fs :=
  resident_of_tables he hlevels hpow (Memoria.tabled_run he hpow hr) (Memoria.shaped_run hr) hfind hsize hres
    hfs hagree

/-- A CPU without cache and TLB. -/
def bareConfig : Config := { smallConfig with cacheEntries := 0 }

/-- The MMU of such a CPU. -/
def bareMmu : Mmu := ⟨⟨[], 0, 0⟩, ⟨[], 0⟩⟩

/-- Whether the process that a pid finds is resident with these frames. -/
def holdsFrames (s : Memoria.State) (pid : Int) (fs : List Nat) : Bool :=
  match processManagerFindProcess s.processes pid with
  | none => false
  | some p =>
    decide (p.processSize ≠ 0) && !p.isSuspended &&
      match p.allocatedFrames with
      | .obj gs => decide (gs = fs)
      | _ => false

/-- Nobody is resumed. -/
def isResumption : Memoria.Request → Bool
  | .unsuspendProcess _ _ => true
  | _ => false

/-- A resident process of a run in which nobody was resumed. -/
theorem resident_of_drive {tr : List (Transition Memoria.State Memoria.Request)}
    {s : Memoria.State} {pid : Int} {fs : List Nat}
    (hr : (Memoria.memoria Memoria.smallConfig).Run tr s)
    (hnone : ∀ x ∈ tr, isResumption x.label = false) (hholds : holdsFrames s pid fs = true) :
    Resident bareConfig s pid fs := by
  have hagree := ((Memoria.tablesAgree_iff hr).mpr ?_).1
  · unfold holdsFrames at hholds
    split at hholds
    · exact absurd hholds (by simp)
    · rename_i p hfind
      simp only [Bool.and_eq_true, decide_eq_true_eq, Bool.not_eq_true'] at hholds
      obtain ⟨⟨hsize, hres⟩, hframes⟩ := hholds
      split at hframes
      · rename_i gs hgs
        obtain rfl := of_decide_eq_true hframes
        have hp := Memoria.mem_of_find hfind
        exact resident_of_run (by decide) (by decide) (by decide) hr hfind hsize hres hgs
          (hagree p hp ((Memoria.shaped_run hr).sized p hp hsize).1 hres)
      · exact absurd hframes (by simp)
  · intro x hx
    have hlabel := hnone x hx
    obtain ⟨src, label, dst⟩ := x
    cases label with
    | unsuspendProcess pid avail => simp [isResumption] at hlabel
    | _ => trivial

/-- The theorem at work on two bytes in the middle of the first page of a process of two. -/
theorem writesExactly_iff_in_page :
    ∃ tr s, (Memoria.memoria Memoria.smallConfig).Run tr s ∧ Resident bareConfig s 0 [0, 1] ∧
      ∃ mmu' mem', execution bareConfig (pageEntries s) 0 bareMmu s.userSpace
          (.write (10 : Nat) [104, 105]) = some (mmu', mem', true) ∧
        WritesExactly bareConfig [0, 1] s.userSpace mem' 10 [104, 105] := by
  obtain ⟨tr, s, hrun, htest⟩ := Lts.exists_run_of_drive (Memoria.State.start Memoria.smallConfig)
    (fun s r => (Memoria.handle Memoria.smallConfig s r).map Prod.fst) [Memoria.initRequest 0 32]
    (fun tr s => (tr.all fun x => !isResumption x.label) && holdsFrames s 0 [0, 1])
    (by decide +kernel)
  simp only [Bool.and_eq_true, List.all_eq_true, Bool.not_eq_true'] at htest
  have hres := resident_of_drive hrun htest.1 htest.2
  exact ⟨tr, s, hrun, hres, (@writesExactly_iff _ _ _ _ hres rfl bareMmu (by simp [TlbOk, bareMmu])
    10 [104, 105] (by decide) (by decide)).mpr (.inl (.inl (by decide)))⟩

/-- **A string across two pages is torn.**  Process 2 has the frames 0 and 2, process 1 the frame
between them.  Two bytes at address 15 of process 2 end up in frames 0 and 1. -/
theorem not_writesExactly :
    ¬ ∀ (cfg : Config) (tr : List (Transition Memoria.State Memoria.Request)) (s : Memoria.State)
        (pid : Int) (fs : List Nat) (mmu : Mmu) (a : Nat) (value : List UInt8),
      (Memoria.memoria cfg.memoria).Run tr s → Resident cfg s pid fs → cfg.cacheEntries = 0 →
      TlbOk cfg (pageEntries s) mmu.tlb → value ≠ [] →
      a + value.length ≤ fs.length * cfg.pageSize →
      ∃ mmu' mem', execution cfg (pageEntries s) pid mmu s.userSpace (.write a value) =
        some (mmu', mem', true) ∧ WritesExactly cfg fs s.userSpace mem' a value := by
  intro hall
  obtain ⟨tr, s, hrun, htest⟩ := Lts.exists_run_of_drive (Memoria.State.start Memoria.smallConfig)
    (fun s r => (Memoria.handle Memoria.smallConfig s r).map Prod.fst)
    [Memoria.initRequest 0 16, Memoria.initRequest 1 16, .killProcess 0, Memoria.initRequest 2 32]
    (fun tr s => (tr.all fun x => !isResumption x.label) && holdsFrames s 2 [0, 2] &&
      holdsFrames s 1 [1] && decide (s.userSpace 32 = 0)) (by decide +kernel)
  simp only [Bool.and_eq_true, List.all_eq_true, Bool.not_eq_true', decide_eq_true_eq] at htest
  obtain ⟨⟨⟨hnone, hholds⟩, -⟩, hzero⟩ := htest
  have hres := resident_of_drive hrun hnone hholds
  have htlb : TlbOk bareConfig (pageEntries s) bareMmu.tlb := by simp [TlbOk, bareMmu]
  obtain ⟨mmu', mem', hexec, hw⟩ := hall bareConfig tr s 2 [0, 2] bareMmu 15 [104, 105] hrun hres rfl
    htlb (by decide) (by decide)
  obtain ⟨mmu'', hdirect⟩ := execution_write_direct hres rfl htlb (a := 15) (by decide) s.userSpace
    [104, 105]
  have hstored : skips bareConfig (byteAddr bareConfig [0, 2] 15) [(104 : UInt8), 105].length = false := by
    decide
  rw [hstored] at hdirect
  obtain ⟨-, rfl, -⟩ := by simpa using hexec.symm.trans hdirect
  have hapart : ¬ Contiguous bareConfig [0, 2] 15 [(104 : UInt8), 105].length := by
    rintro (hin | ⟨-, f, hf, hnext⟩)
    · exact absurd hin (by decide)
    · obtain rfl : 0 = f := Option.some.inj hf
      exact absurd hnext (by decide)
  -- the second byte belongs to frame 2, where there is still a zero
  have hsecond := ((hres.writesExactly_split (by decide) hapart hstored).mp hw 1 (by decide)
    (by decide)).1
  have haddr : byteAddr bareConfig [0, 2] (15 + 1) = 32 := by decide
  rw [haddr, hzero] at hsecond
  exact absurd hsecond (by decide)

end Tpso.Cpu
