/-
# The cache as an overlay of the user space

The user space that a process MEANS is the one it would have without a cache: every WRITE stored at
once (`directMemory`).  The user space that there is, overlaid with the modified regions of the caches,
is the one that is meant, and every access keeps it so (`Outcome.overlaid`), on one condition: a WRITE
that hits a modified entry extends its region over everything between the old region and the bytes
written, and what the entry holds THERE must be what the user space holds (`gapClear`).  It need not:
a WRITE that misses fills the entry with zeros instead of the page, and a READ that misses fills it
from the address read on.

The rule is stated for any family of patches that contains those of the cache at hand, so that it
serves one CPU and many.
-/
import Tpso.Cpu.Outcome

namespace Tpso.Cpu

open Tpso.Lib

/-! ## 1. The page that is written -/

/-- The start of a page's frame in the user space, by the page table. -/
def frameBase (cfg : Config) (pe : PageEntries) (pid page : Int) : Nat :=
  ((mmuPerformPageWalk cfg pe page pid).getD 0).toNat * cfg.pageSize

/-- The user space after an access without cache. -/
def directMemory (cfg : Config) (base : Int → Int → Nat) (pid : Int) (mem : Bytes) : Access → Bytes
  | .read _ _ => mem
  | .write logicDir value =>
    mem.blit (base pid (pageOf cfg logicDir) + (offsetOf cfg logicDir).toNat) value

/-- The bytes of a patch lie in the frame of its entry's page. -/
theorem patchAt_mem {cfg : Config} {pe : PageEntries} {base : Int → Int → Nat} {mmu : Mmu} {i x : Nat}
    (hok : MmuOk cfg pe base mmu) (h : (patchAt base mmu.cache i).dom x) :
    ∃ e, mmu.cache.entries[i]? = some e ∧ e.isValid = true ∧ e.modifiedBit = true ∧
      base e.pid e.page ≤ x ∧ x < base e.pid e.page + cfg.pageSize := by
  unfold patchAt at h
  cases he : mmu.cache.entries[i]? with
  | none => simp [he] at h
  | some e =>
    rw [he] at h
    obtain ⟨hvalid, hmod, hlo, hhi⟩ := h
    have hend := hok.region e (List.mem_of_getElem? he) hvalid hmod
    exact ⟨e, rfl, hvalid, hmod, by omega, by omega⟩

/-! ## 2. The condition on the gap -/

/-- Whether an offset lies between the modified region of an entry and the bytes of a write. -/
def inGap (e : CacheEntry) (offset size o : Nat) : Prop :=
  min e.modifiedStart offset ≤ o ∧ o < max e.modifiedEnd (offset + size) ∧
    ¬ (e.modifiedStart ≤ o ∧ o < e.modifiedEnd) ∧ ¬ (offset ≤ o ∧ o < offset + size)

instance (e : CacheEntry) (offset size o : Nat) : Decidable (inGap e offset size o) := by
  unfold inGap
  infer_instance

/-- In the gap the entry holds what the user space holds. -/
def gapAgrees (cfg : Config) (base : Int → Int → Nat) (mem : Bytes) (e : CacheEntry)
    (offset size : Nat) : Bool :=
  (List.range cfg.pageSize).all fun o =>
    !decide (inGap e offset size o) || decide (e.content o = mem (base e.pid e.page + o))

/-- **The condition on a WRITE that hits a modified entry**: whatever its region is extended over holds
what the user space holds. -/
def gapClear (cfg : Config) (base : Int → Int → Nat) (cache : Cache) (mem : Bytes) : Access → Bool
  | .read _ _ => true
  | .write logicDir value =>
    match (cacheFindEntry cache (pageOf cfg logicDir)).2 with
    | none => true
    | some i =>
      (cache.entries[i]?).all fun e =>
        !e.modifiedBit || gapAgrees cfg base mem e (offsetOf cfg logicDir).toNat value.length

/-! ## 3. Every access keeps the overlay -/

section Overlay

variable {cfg : Config} {pe : PageEntries} {base : Int → Int → Nat} {mmu : Mmu} {mem : Bytes}
  {pid : Int} {c' : Cache} {mem' ref : Bytes} {a : Access}

/-- The entry that a WRITE hits satisfies the condition on the gap. -/
theorem gapAgrees_of_hit {logicDir : Int} {value : List UInt8} {i : Nat} {e : CacheEntry}
    (hok : MmuOk cfg pe base mmu) (hgap : gapClear cfg base mmu.cache mem (.write logicDir value) = true)
    (he : mmu.cache.entries[i]? = some e) (hvalid : e.isValid = true)
    (hpage : e.page = pageOf cfg logicDir) (hmod : e.modifiedBit = true) :
    gapAgrees cfg base mem e (offsetOf cfg logicDir).toNat value.length = true := by
  rcases cacheFindEntry_cases mmu.cache (pageOf cfg logicDir) with
    ⟨c1, i', e', hfind, he', hvalid', hpage', -, -⟩ | ⟨-, hmiss⟩
  · obtain rfl : i = i' := hok.distinct i i' e e' he he' hvalid hvalid' (hpage.trans hpage'.symm)
    simp only [gapClear, hfind, he, Option.all_some, hmod, Bool.not_true, Bool.false_or] at hgap
    exact hgap
  · exact absurd hpage (hmiss e (List.mem_of_getElem? he) hvalid)

/-- The patch of an entry after a write into it. -/
theorem patchOf_store_dom {e : CacheEntry} {o x : Nat} {value : List UInt8} :
    (patchOf base (e.store o value)).dom x ↔ e.isValid = true ∧
      base e.pid e.page + (if e.modifiedBit then min e.modifiedStart o else o) ≤ x ∧
      x < base e.pid e.page +
        (if e.modifiedBit then max e.modifiedEnd (o + value.length) else o + value.length) := by
  simp [patchOf, CacheEntry.store]

/-- The old region is kept. -/
theorem store_dom_of_dom {e : CacheEntry} {o x : Nat} {value : List UInt8} (h : (patchOf base e).dom x) :
    (patchOf base (e.store o value)).dom x := by
  obtain ⟨hvalid, hmod, hlo, hhi⟩ := h
  rw [patchOf_store_dom]
  refine ⟨hvalid, ?_, ?_⟩
  · rw [if_pos hmod]
    omega
  · rw [if_pos hmod]
    omega

/-- The new region lies in the page. -/
theorem store_dom_inPage {e : CacheEntry} {o x : Nat} {value : List UInt8}
    (hfit : o + value.length ≤ cfg.pageSize)
    (hregion : e.modifiedBit = true → e.modifiedEnd ≤ cfg.pageSize)
    (h : (patchOf base (e.store o value)).dom x) :
    base e.pid e.page ≤ x ∧ x < base e.pid e.page + cfg.pageSize := by
  have hend : (e.store o value).modifiedEnd ≤ cfg.pageSize := store_end_le hfit hregion
  obtain ⟨-, -, hlo, hhi⟩ := h
  have hbase : base (e.store o value).pid (e.store o value).page = base e.pid e.page := rfl
  rw [hbase] at hlo hhi
  exact ⟨by omega, by omega⟩

/-- What is stored lies in the new region. -/
theorem store_dom_stored {e : CacheEntry} {o x : Nat} {value : List UInt8} (hvalid : e.isValid = true)
    (hlo : base e.pid e.page + o ≤ x) (hhi : x < base e.pid e.page + o + value.length) :
    (patchOf base (e.store o value)).dom x := by
  rw [patchOf_store_dom]
  refine ⟨hvalid, ?_, ?_⟩
  · split <;> omega
  · split <;> omega

/-- There the patch has what was stored. -/
theorem store_val_stored {e : CacheEntry} {o x : Nat} {value : List UInt8} (ref : Bytes)
    (hlo : base e.pid e.page + o ≤ x) (hhi : x < base e.pid e.page + o + value.length) :
    (patchOf base (e.store o value)).val x = ref.blit (base e.pid e.page + o) value x := by
  rw [Bytes.blit_of_mem hlo hhi]
  show (e.content.blit o value) (x - base e.pid e.page) = _
  rw [Bytes.blit_of_mem (by omega) (by omega)]
  congr 1
  omega

/-- Elsewhere in the page it has the old content. -/
theorem store_val_else {e : CacheEntry} {o x : Nat} {value : List UInt8} (hpage : base e.pid e.page ≤ x)
    (hx : ¬ (base e.pid e.page + o ≤ x ∧ x < base e.pid e.page + o + value.length)) :
    (patchOf base (e.store o value)).val x = e.content (x - base e.pid e.page) := by
  show (e.content.blit o value) (x - base e.pid e.page) = e.content (x - base e.pid e.page)
  refine Bytes.blit_of_not_mem ?_
  rintro ⟨hlo, hhi⟩
  exact hx ⟨by omega, by omega⟩

/-- What is in the new region, was not in the old one and is not stored lies in the gap between the two. -/
theorem store_gap {e : CacheEntry} {o x : Nat} {value : List UInt8}
    (hdom : (patchOf base (e.store o value)).dom x) (hold : ¬ (patchOf base e).dom x)
    (hx : ¬ (base e.pid e.page + o ≤ x ∧ x < base e.pid e.page + o + value.length)) :
    e.modifiedBit = true ∧ inGap e o value.length (x - base e.pid e.page) := by
  rw [patchOf_store_dom] at hdom
  obtain ⟨hvalid, hlo, hhi⟩ := hdom
  cases hmod : e.modifiedBit with
  | false =>
    simp only [hmod, Bool.false_eq_true, ↓reduceIte] at hlo hhi
    exact absurd ⟨hlo, by omega⟩ hx
  | true =>
    simp only [hmod, ↓reduceIte] at hlo hhi
    have hnot : ¬ (base e.pid e.page + e.modifiedStart ≤ x ∧ x < base e.pid e.page + e.modifiedEnd) :=
      fun hc => hold ⟨hvalid, hmod, hc.1, hc.2⟩
    exact ⟨rfl, by omega, by omega, by omega, by omega⟩

/-- **A WRITE that hits** goes into the patch of its entry. -/
theorem overlaid_writeHit {ι : Type} [DecidableEq ι] {P : ι → Patch Nat UInt8} {k : ι} {o i : Nat}
    {value : List UInt8} {e : CacheEntry} (h : Overlaid mem P ref) (hok : MmuOk cfg pe base mmu)
    (he : mmu.cache.entries[i]? = some e) (hP : P k = patchAt base mmu.cache i)
    (hvalid : e.isValid = true) (hfit : o + value.length ≤ cfg.pageSize)
    (hgap : e.modifiedBit = true → gapAgrees cfg base mem e o value.length = true)
    (hothers : ∀ j, j ≠ k → ∀ x, (P j).dom x →
      ¬ (base e.pid e.page ≤ x ∧ x < base e.pid e.page + cfg.pageSize)) :
    Overlaid mem (Function.update P k (patchOf base (e.store o value)))
      (ref.blit (base e.pid e.page + o) value) := by
  have hPk : P k = patchOf base e := hP.trans (patchAt_of_getElem? base he)
  have hregion : e.modifiedBit = true → e.modifiedEnd ≤ cfg.pageSize :=
    hok.region e (List.mem_of_getElem? he) hvalid
  refine h.write k (W := fun x => base e.pid e.page + o ≤ x ∧
    x < base e.pid e.page + o + value.length) ?_ ?_ ?_ ?_ ?_ ?_ ?_
  · intro x hx
    rw [hPk] at hx
    exact store_dom_of_dom hx
  · exact fun x hx => store_dom_stored hvalid hx.1 hx.2
  · exact fun x hx => Bytes.blit_of_not_mem hx
  · exact fun x hx => store_val_stored ref hx.1 hx.2
  · intro x hx hdom
    rw [hPk] at hdom ⊢
    exact store_val_else (store_dom_inPage hfit hregion (store_dom_of_dom hdom)).1 hx
  · intro x hdom hx hold
    rw [hPk] at hold
    have hpage := store_dom_inPage hfit hregion hdom
    obtain ⟨hmod, hin⟩ := store_gap hdom hold hx
    have hagree := hgap hmod
    simp only [gapAgrees, List.all_eq_true, List.mem_range] at hagree
    have hbyte := hagree (x - base e.pid e.page) (by omega)
    simp only [hin, decide_true, Bool.not_true, Bool.false_or, decide_eq_true_eq] at hbyte
    rw [store_val_else hpage.1 hx, hbyte]
    congr 1
    omega
  · intro j hj x hdom hnew
    exact hothers j hj x hdom (store_dom_inPage hfit hregion hnew)

/-- The modified region of the victim is written back, and the slot keeps nothing back any more. -/
theorem overlaid_flushed {ι : Type} [DecidableEq ι] {P : ι → Patch Nat UInt8} {k : ι} {i : Nat}
    (h : Overlaid mem P ref) (hP : P k = patchAt base mmu.cache i)
    (hflushed : Flushed base mmu.cache i mem mem') {p : Patch Nat UInt8} (hp : ∀ x, ¬ p.dom x) :
    Overlaid mem' (Function.update P k p) ref := by
  refine h.flush k hp ?_ ?_
  · intro x hx
    rw [hP] at hx ⊢
    exact hflushed.1 x hx
  · intro x hx
    rw [hP] at hx
    exact hflushed.2 x hx

/-- **A WRITE that misses**: the slot, just flushed, keeps back the bytes written and no others. -/
theorem overlaid_writeMiss {ι : Type} [DecidableEq ι] {P : ι → Patch Nat UInt8} {k : ι} {i o : Nat}
    {value : List UInt8} {e' : CacheEntry} (h : Overlaid mem P ref)
    (hP : P k = patchAt base mmu.cache i) (hflushed : Flushed base mmu.cache i mem mem')
    (hvalid : e'.isValid = true) (hmod : e'.modifiedBit = true) (hstart : e'.modifiedStart = o)
    (hend : e'.modifiedEnd = o + value.length) (hcontent : e'.content = zeros.blit o value)
    (hfit : o + value.length ≤ cfg.pageSize)
    (hothers : ∀ j, j ≠ k → ∀ x, (P j).dom x →
      ¬ (base e'.pid e'.page ≤ x ∧ x < base e'.pid e'.page + cfg.pageSize)) :
    Overlaid mem' (Function.update P k (patchOf base e'))
      (ref.blit (base e'.pid e'.page + o) value) := by
  have hdom : ∀ x, (patchOf base e').dom x ↔
      base e'.pid e'.page + o ≤ x ∧ x < base e'.pid e'.page + o + value.length := by
    intro x
    simp only [patchOf, hvalid, hmod, hstart, hend, true_and, Nat.add_assoc]
  have hnone : Overlaid mem' (Function.update P k ⟨fun _ => False, fun _ => 0⟩) ref :=
    overlaid_flushed h hP hflushed fun _ => id
  have hidem := Function.update_idem (a := k) (⟨fun _ => False, fun _ => 0⟩ : Patch Nat UInt8)
    (patchOf base e') P
  rw [← hidem]
  refine hnone.replace k ?_ ?_ ?_ ?_
  · intro x hx
    simp at hx
  · intro j hj x hx hnew
    rw [Function.update_of_ne hj] at hx
    obtain ⟨hlo, hhi⟩ := (hdom x).mp hnew
    exact hothers j hj x hx ⟨by omega, by omega⟩
  · intro x hx
    obtain ⟨hlo, hhi⟩ := (hdom x).mp hx
    rw [Bytes.blit_of_mem hlo hhi]
    show e'.content (x - base e'.pid e'.page) = _
    rw [hcontent, Bytes.blit_of_mem (by omega) (by omega)]
    congr 1
    omega
  · intro x hx
    exact Bytes.blit_of_not_mem fun hc => hx ((hdom x).mpr hc)

/-- One slot of a family is replaced. -/
theorem family_eq {ι : Type} [DecidableEq ι] {slot : Nat → ι} (hslot : Function.Injective slot)
    {P P' : ι → Patch Nat UInt8} {i : Nat} (hP : ∀ j, P (slot j) = patchAt base mmu.cache j)
    (hP' : ∀ j, P' (slot j) = patchAt base c' j) (hrest : ∀ k, (∀ j, k ≠ slot j) → P' k = P k)
    (helse : SameElse i mmu.cache c') : P' = Function.update P (slot i) (patchAt base c' i) := by
  funext k
  by_cases hk : ∃ j, k = slot j
  · obtain ⟨j, rfl⟩ := hk
    by_cases hji : j = i
    · subst hji
      rw [Function.update_self, hP']
    · rw [Function.update_of_ne fun heq => hji (hslot heq), hP', hP]
      exact patchAt_congr (helse j hji)
  · have hne : ∀ j, k ≠ slot j := fun j hj => hk ⟨j, hj⟩
    rw [Function.update_of_ne (hne i), hrest k hne]

/-- **Every access keeps the overlay**: the user space with what the caches keep back stays the user space
without a cache. -/
theorem Outcome.overlaid {ι : Type} [DecidableEq ι] {slot : Nat → ι} (hslot : Function.Injective slot)
    {P P' : ι → Patch Nat UInt8} (ho : Outcome cfg base pid mmu.cache mem a c' mem')
    (h : Overlaid mem P ref) (hok : MmuOk cfg pe base mmu) (hin : InPage cfg a)
    (hP : ∀ j, P (slot j) = patchAt base mmu.cache j) (hP' : ∀ j, P' (slot j) = patchAt base c' j)
    (hrest : ∀ k, (∀ j, k ≠ slot j) → P' k = P k) (hgap : gapClear cfg base mmu.cache mem a = true)
    (hown : ∀ e ∈ mmu.cache.entries, e.isValid = true → e.page = pageOf cfg a.logicDir → e.pid = pid)
    (hapart : ∀ k x, (P k).dom x → base pid (pageOf cfg a.logicDir) ≤ x →
      x < base pid (pageOf cfg a.logicDir) + cfg.pageSize →
      ∃ j e, k = slot j ∧ mmu.cache.entries[j]? = some e ∧ e.isValid = true ∧
        e.page = pageOf cfg a.logicDir) :
    Overlaid mem' P' (directMemory cfg base pid ref a) := by
  cases ho with
  | readHit hsame =>
    have hfamily : P' = P := by
      funext k
      by_cases hk : ∃ j, k = slot j
      · obtain ⟨j, rfl⟩ := hk
        rw [hP', hP]
        exact patchAt_sameButUse hsame j
      · exact hrest k fun j hj => hk ⟨j, hj⟩
    rw [hfamily]
    exact h
  | @readMiss logicDir size _ _ i e' hmiss helse hflushed hget hvalid hpid hpage hmod =>
    rw [family_eq hslot hP hP' hrest helse]
    refine overlaid_flushed h (hP i) hflushed ?_
    intro x hx
    rw [patchAt_of_getElem? base hget] at hx
    exact absurd (hmod.symm.trans hx.2.1) (by simp)
  | @writeHit logicDir value _ i e e' he hvalid hpage helse hget hstore =>
    have hpid : e.pid = pid := hown e (List.mem_of_getElem? he) hvalid hpage
    rw [family_eq hslot hP hP' hrest helse, patchAt_of_getElem? base hget, patchOf_congr hstore]
    show Overlaid mem _ (ref.blit (base pid (pageOf cfg logicDir) + (offsetOf cfg logicDir).toNat) value)
    rw [← hpid, ← hpage]
    refine overlaid_writeHit h hok he (hP i) hvalid hin.write_fits ?_ ?_
    · exact gapAgrees_of_hit hok hgap he hvalid hpage
    · rintro k hk x hx ⟨hlo, hhi⟩
      rw [hpid, hpage] at hlo hhi
      obtain ⟨j, e2, rfl, he2, hvalid2, hpage2⟩ := hapart k x hx hlo hhi
      exact hk (congrArg slot (hok.distinct j i e2 e he2 he hvalid2 hvalid (hpage2.trans hpage.symm)))
  | @writeMiss logicDir value _ _ i e' hmiss helse hflushed hget hvalid hpid hpage hmod hstart hend
      hcontent =>
    rw [family_eq hslot hP hP' hrest helse, patchAt_of_getElem? base hget]
    show Overlaid mem' _ (ref.blit (base pid (pageOf cfg logicDir) + (offsetOf cfg logicDir).toNat) value)
    rw [← hpid, ← hpage]
    refine overlaid_writeMiss h (hP i) hflushed hvalid hmod hstart hend hcontent hin.write_fits ?_
    rintro k - x hx ⟨hlo, hhi⟩
    rw [hpid, hpage] at hlo hhi
    obtain ⟨j, e2, -, he2, hvalid2, hpage2⟩ := hapart k x hx hlo hhi
    exact hmiss e2 (List.mem_of_getElem? he2) hvalid2 hpage2

end Overlay

/-! ## 4. The clean-up -/

section Cleanup

variable {cfg : Config} {pe : PageEntries} {base : Int → Int → Nat} {mmu : Mmu} {mem ref : Bytes}

/-- One entry written back, if it is dirty. -/
theorem writebackIfDirty_spec (mem : Bytes) {tlb : Tlb} {e : CacheEntry} (htlb : TlbOk cfg pe tlb)
    (hplaced : e.isValid = true → Placed cfg pe base e.pid e.page)
    (hregion : e.isValid = true → e.modifiedBit = true → e.modifiedEnd ≤ cfg.pageSize) :
    ∃ tlb' mem', writebackIfDirty cfg pe tlb mem e = some (tlb', mem') ∧ TlbOk cfg pe tlb' ∧
      (∀ x, (patchOf base e).dom x → mem' x = (patchOf base e).val x) ∧
      ∀ x, ¬ (patchOf base e).dom x → mem' x = mem x := by
  unfold writebackIfDirty
  split
  · rename_i hdirty
    obtain ⟨hvalid, hmod⟩ := Bool.and_eq_true_iff.mp hdirty
    obtain ⟨f, hwalk, hf, hbase⟩ := hplaced hvalid
    obtain ⟨tlb', htrans, htlb'⟩ := mmuTranslateAddressWithPageNumber_eq htlb hwalk
    obtain ⟨mem', hwrite, hflushed⟩ := writeModifiedRegion_flushed (c := ⟨[e], 0⟩) (i := 0) mem rfl hf
      hbase hvalid hmod (hregion hvalid hmod)
    refine ⟨tlb', mem', ?_, htlb', hflushed⟩
    rw [htrans, Option.bind_some, hwrite, Option.map_some]
  · rename_i hclean
    refine ⟨tlb, mem, rfl, htlb, ?_, fun _ _ => rfl⟩
    intro x hx
    exact absurd (Bool.and_eq_true_iff.mpr ⟨hx.1, hx.2.1⟩) hclean

/-- **All entries written back**: where some entry keeps bytes back the memory becomes the reference,
whatever the order; elsewhere it stays. -/
theorem writebackAll_spec : ∀ (entries : List CacheEntry) (tlb : Tlb) (mem : Bytes),
    TlbOk cfg pe tlb → (∀ e ∈ entries, e.isValid = true → Placed cfg pe base e.pid e.page) →
    (∀ e ∈ entries, e.isValid = true → e.modifiedBit = true → e.modifiedEnd ≤ cfg.pageSize) →
    (∀ e ∈ entries, ∀ x, (patchOf base e).dom x → (patchOf base e).val x = ref x) →
    ∃ tlb' mem', writebackAll cfg pe entries tlb mem = some (tlb', mem') ∧ TlbOk cfg pe tlb' ∧
      (∀ e ∈ entries, ∀ x, (patchOf base e).dom x → mem' x = ref x) ∧
      ∀ x, (∀ e ∈ entries, ¬ (patchOf base e).dom x) → mem' x = mem x
  | [], tlb, mem, htlb, _, _, _ => ⟨tlb, mem, rfl, htlb, by simp, fun _ _ => rfl⟩
  | e :: rest, tlb, mem, htlb, hplaced, hregion, hval => by
    obtain ⟨tlb1, mem1, hone, htlb1, hin1, hout1⟩ := writebackIfDirty_spec mem htlb
      (hplaced e List.mem_cons_self) (hregion e List.mem_cons_self)
    obtain ⟨tlb', mem', hall, htlb', hin', hout'⟩ := writebackAll_spec rest tlb1 mem1 htlb1
      (fun e' he' => hplaced e' (List.mem_cons_of_mem _ he'))
      (fun e' he' => hregion e' (List.mem_cons_of_mem _ he'))
      (fun e' he' => hval e' (List.mem_cons_of_mem _ he'))
    refine ⟨tlb', mem', ?_, htlb', ?_, ?_⟩
    · rw [writebackAll, hone]
      exact hall
    · intro e' he' x hx
      rcases List.mem_cons.mp he' with rfl | he'
      · -- a later entry may write the byte again, with the same value
        by_cases hlater : ∃ e2 ∈ rest, (patchOf base e2).dom x
        · obtain ⟨e2, he2, hx2⟩ := hlater
          exact hin' e2 he2 x hx2
        · rw [hout' x fun e2 he2 hx2 => hlater ⟨e2, he2, hx2⟩, hin1 x hx]
          exact hval e' List.mem_cons_self x hx
      · exact hin' e' he' x hx
    · intro x hx
      rw [hout' x fun e' he' => hx e' (List.mem_cons_of_mem _ he')]
      exact hout1 x (hx e List.mem_cons_self)

/-- **`mmu_process_cleanup` completes, and nothing is kept back any more.** -/
theorem mmuProcessCleanup_spec {ι : Type} (slot : Nat → ι) {P : ι → Patch Nat UInt8}
    (hn : 0 < cfg.cacheEntries) (hok : MmuOk cfg pe base mmu) (h : Overlaid mem P ref)
    (hP : ∀ j, P (slot j) = patchAt base mmu.cache j) :
    ∃ tlb' mem', mmuProcessCleanup cfg pe mmu mem = some (⟨tlb',
        { mmu.cache with entries := mmu.cache.entries.map CacheEntry.invalidated }⟩, mem') ∧
      TlbOk cfg pe tlb' ∧
      ∀ P' : ι → Patch Nat UInt8, (∀ j x, ¬ (P' (slot j)).dom x) →
        (∀ k, (∀ j, k ≠ slot j) → P' k = P k) → Overlaid mem' P' ref := by
  have hentry : ∀ e ∈ mmu.cache.entries, ∃ j, P (slot j) = patchOf base e := by
    intro e he
    obtain ⟨j, hj⟩ := List.getElem?_of_mem he
    exact ⟨j, (hP j).trans (patchAt_of_getElem? base hj)⟩
  have hval : ∀ e ∈ mmu.cache.entries, ∀ x, (patchOf base e).dom x → (patchOf base e).val x = ref x := by
    intro e he x hx
    obtain ⟨j, hj⟩ := hentry e he
    rw [← hj] at hx ⊢
    exact h.patch (slot j) x hx
  obtain ⟨tlb', mem', hall, htlb', hin, hout⟩ := writebackAll_spec mmu.cache.entries mmu.tlb mem
    hok.tlb hok.placed hok.region hval
  refine ⟨if 0 < cfg.tlbEntries then { tlb' with entries := [] } else tlb', mem', ?_, ?_, ?_⟩
  · rw [mmuProcessCleanup, if_pos hn, hall, Option.map_some]
  · split
    · exact fun e he => absurd he (by simp)
    · exact htlb'
  · intro P' hnone hkeep
    refine h.flushAll (S := fun k => ∃ j, k = slot j) ?_ ?_ ?_ ?_
    · rintro k ⟨j, rfl⟩ x
      exact hnone j x
    · exact fun k hk => hkeep k fun j hj => hk ⟨j, hj⟩
    · rintro k x ⟨j, rfl⟩ hx
      rw [hP j] at hx
      cases he : mmu.cache.entries[j]? with
      | none => simp [patchAt, he] at hx
      | some e =>
        rw [patchAt_of_getElem? base he] at hx
        exact hin e (List.mem_of_getElem? he) x hx
    · intro x hx
      refine hout x ?_
      intro e he hdom
      obtain ⟨j, hj⟩ := hentry e he
      exact hx (slot j) ⟨j, rfl⟩ (hj ▸ hdom)

end Cleanup

end Tpso.Cpu
