/-
# From the text of a script to the instructions of a CPU

memoria reads a script line by line with `getline`, cuts off what is blank at the end of each line, drops the
lines of which nothing is left, and keeps the others in the record of the process.  A CPU asks for the line at
its program counter and decodes it.

Both ends together are stated here on the bytes of the file.  A script whose lines are blank or spell
statements (`Script`) is executed as exactly those statements: what is fetched and decoded at a program counter
is the record of the statement there, whatever blank lines stand between, and a NOOP past the last one
(`decode_of_script`).
-/
import Tpso.Lib.Lines
import Tpso.Cpu.Parsing
import Tpso.Memoria.Steps

namespace Tpso.Cpu

open Tpso.Lib Tpso.Utils
open Tpso.Memoria (processManagerFindProcess processManagerLoadScriptLines trimLine)

/-! ## 1. Reading the file -/

/-- The character of a byte, and back. -/
def charOf (b : UInt8) : Char := Char.ofNat b.toNat

def byteOf (c : Char) : UInt8 := UInt8.ofNat c.toNat

/-- A line as `strlen` and `strdup` see it: up to the first NUL. -/
def lineText (line : List UInt8) : String :=
  String.ofList ((line.takeWhile fun b => decide (b ≠ 0)).map charOf)

/-- The `while` over `getline`: the lines of a file, each with its line end. -/
def fileLines (file : List UInt8) : List String := (readLines 10 file.length file).map lineText

/-- The instructions that `create_process` keeps of a script. -/
def loadScript (file : List UInt8) : Option (List String) :=
  processManagerLoadScriptLines (some (fileLines file))

/-! ## 2. What is kept of a line -/

/-- Line ends, blanks and tabs. -/
def isTrailing (b : UInt8) : Bool := decide (b = 10 ∨ b = 13 ∨ b = 32 ∨ b = 9)

/-- What is left of a line without its end. -/
def lineBody (line : List UInt8) : List UInt8 :=
  (line.takeWhile fun b => decide (b ≠ 0)).rdropWhile isTrailing

/-- The characters of an instruction in memory. -/
def instructionString (s : String) : CString where
  chars := (s.toList.map byteOf).takeWhile fun b => decide (b ≠ 0)
  noNul h := by simpa using List.mem_takeWhile_imp h

@[simp]
theorem byteOf_charOf (b : UInt8) : byteOf (charOf b) = b := by
  obtain ⟨b⟩ := b
  revert b
  decide

/-- `trimLine` looks for the same bytes. -/
theorem isTrailing_charOf (b : UInt8) :
    decide (charOf b = '\n' ∨ charOf b = '\r' ∨ charOf b = ' ' ∨ charOf b = '\t') = isTrailing b := by
  obtain ⟨b⟩ := b
  revert b
  decide

/-- **Trimming**: what is left of the text of a line is the body of the line. -/
theorem trimLine_lineText (line : List UInt8) :
    trimLine (lineText line) = String.ofList ((lineBody line).map charOf) := by
  have hpred : (fun c => decide (c = '\n' ∨ c = '\r' ∨ c = ' ' ∨ c = '\t')) ∘ charOf = isTrailing :=
    funext isTrailing_charOf
  rw [trimLine, lineText, String.toList_ofList, ← List.map_reverse, List.dropWhile_map, hpred,
    ← List.map_reverse]
  rfl

theorem lineBody_noNul (line : List UInt8) : 0 ∉ lineBody line := by
  intro h
  have hmem := (List.rdropWhile_prefix isTrailing _).subset h
  simpa using List.mem_takeWhile_imp hmem

/-- The line end does not matter. -/
theorem lineBody_newline (line : List UInt8) : lineBody (line ++ [10]) = lineBody line := by
  unfold lineBody
  by_cases hnul : 0 ∈ line
  · have hshort : ¬ ∀ b ∈ line, decide (b ≠ 0) = true := fun h => by simpa using h 0 hnul
    rw [List.takeWhile_append, if_neg]
    intro hlen
    exact hshort (List.takeWhile_eq_self_iff.mp (List.IsPrefix.eq_of_length (List.takeWhile_prefix _) hlen))
  · have hall : ∀ b ∈ line, decide (b ≠ 0) = true := fun b hb =>
      decide_eq_true fun heq => hnul (heq ▸ hb)
    rw [List.takeWhile_append_of_pos hall, List.takeWhile_eq_self_iff.mpr hall]
    exact List.rdropWhile_concat_pos isTrailing _ _ (by decide)

/-- The body of a line in memory. -/
theorem instructionString_ofList {body : List UInt8} (h : 0 ∉ body) :
    instructionString (String.ofList (body.map charOf)) = ⟨body, h⟩ := by
  have hall : ∀ b ∈ body, decide (b ≠ 0) = true := fun b hb => decide_eq_true fun heq => h (heq ▸ hb)
  have hback : (body.map charOf).map byteOf = body := by
    rw [List.map_map]
    exact (List.map_congr_left fun b _ => byteOf_charOf b).trans (List.map_id body)
  simp only [instructionString, String.toList_ofList, hback, List.takeWhile_eq_self_iff.mpr hall]

/-- The instruction of a line, if something is left of it. -/
def lineInstruction (line : List UInt8) : Option CString :=
  if lineBody line = [] then none else some ⟨lineBody line, lineBody_noNul line⟩

/-- **What memoria keeps of a script**: the bodies of its lines, in order, without the empty ones. -/
theorem loadScript_eq {ls : List (List UInt8)} {file : List UInt8} (h : Lines 10 ls file) :
    ∃ instructions, loadScript file = some instructions ∧
      instructions.map instructionString = ls.filterMap lineInstruction := by
  refine ⟨_, rfl, ?_⟩
  have hread := readLines_lines h (le_refl file.length)
  rw [fileLines]
  generalize readLines 10 file.length file = read at hread
  clear h
  induction hread with
  | nil => rfl
  | @cons r line read ls hline _ ih =>
    have hbody : lineBody r = lineBody line := by
      rcases hline with rfl | rfl
      · rfl
      · exact lineBody_newline line
    have htrim : trimLine (lineText r) = String.ofList ((lineBody line).map charOf) := by
      rw [trimLine_lineText, hbody]
    by_cases hempty : lineBody line = []
    · have hdrop : trimLine (lineText r) = "" := by rw [htrim, hempty]; rfl
      have hnone : lineInstruction line = none := if_pos hempty
      simp only [List.map_cons, List.filterMap_cons, hnone, List.filter_cons, hdrop]
      simpa using ih
    · have hkeep : trimLine (lineText r) ≠ "" := by
        rw [htrim]
        intro heq
        have hlist := congrArg String.toList heq
        rw [String.toList_ofList] at hlist
        exact hempty (List.map_eq_nil_iff.mp hlist)
      have hsome : lineInstruction line = some ⟨lineBody line, lineBody_noNul line⟩ := if_neg hempty
      simp only [List.map_cons, List.filterMap_cons, hsome, List.filter_cons, hkeep, ne_eq, not_false_eq_true,
        decide_true, ↓reduceIte]
      rw [htrim, instructionString_ofList (lineBody_noNul line)]
      exact congrArg _ ih

/-! ## 3. Scripts -/

/-- What the lines of a script say: each is blank, or it spells a statement and has blanks behind it. -/
inductive Says : List (List UInt8) → List Statement → Prop where
  | nil : Says [] []
  | blank {line : List UInt8} {ls : List (List UInt8)} {sts : List Statement}
      (hblank : ∀ b ∈ line, isTrailing b = true) (h : Says ls sts) : Says (line :: ls) sts
  | statement {line : CString} {gap : List UInt8} {st : Statement} {ls : List (List UInt8)}
      {sts : List Statement} (hst : st.Spells line) (hend : ∀ b ∈ line.chars.getLast?, isTrailing b = false)
      (hgap : ∀ b ∈ gap, isTrailing b = true) (h : Says ls sts) :
      Says ((line.chars ++ gap) :: ls) (st :: sts)

/-- **A script**: a file whose lines say the statements. -/
def Script (file : List UInt8) (sts : List Statement) : Prop := ∃ ls, Lines 10 ls file ∧ Says ls sts

/-- A line that spells a statement is not empty. -/
theorem Statement.Spells.ne_nil {st : Statement} {line : CString} (h : st.Spells line) : line.chars ≠ [] := by
  obtain ⟨m, ws, hspaced, -, -⟩ := h
  intro hnil
  rw [hnil] at hspaced
  generalize hnil' : ([] : List UInt8) = text at hspaced
  cases hspaced with
  | word gap hgap hw hrest h =>
    obtain ⟨-, hw'⟩ := List.append_eq_nil_iff.mp hnil'.symm
    exact hw.ne_nil (List.append_eq_nil_iff.mp hw').1

theorem lineInstruction_blank {line : List UInt8} (h : ∀ b ∈ line, isTrailing b = true) :
    lineInstruction line = none := by
  refine if_pos ?_
  rw [lineBody, List.rdropWhile_eq_nil_iff]
  exact fun b hb => h b ((List.takeWhile_prefix _).subset hb)

theorem lineInstruction_spells {st : Statement} {line : CString} {gap : List UInt8} (hst : st.Spells line)
    (hend : ∀ b ∈ line.chars.getLast?, isTrailing b = false) (hgap : ∀ b ∈ gap, isTrailing b = true) :
    lineInstruction (line.chars ++ gap) = some line := by
  have hnonul : ∀ b ∈ line.chars ++ gap, decide (b ≠ 0) = true := by
    intro b hb
    refine decide_eq_true ?_
    rintro rfl
    rcases List.mem_append.mp hb with hb | hb
    · exact line.noNul hb
    · exact absurd (hgap 0 hb) (by decide)
  have hdrop : gap.reverse.dropWhile isTrailing = [] :=
    List.dropWhile_eq_nil_iff.mpr fun b hb => hgap b (List.mem_reverse.mp hb)
  have hbody : lineBody (line.chars ++ gap) = line.chars := by
    rw [lineBody, List.takeWhile_eq_self_iff.mpr hnonul, List.rdropWhile, List.reverse_append,
      List.dropWhile_append, hdrop]
    simp only [List.isEmpty_nil, ↓reduceIte]
    rw [← List.rdropWhile, List.rdropWhile_eq_self_iff]
    intro hne hlast
    rw [hend _ (List.getLast?_eq_getLast_of_ne_nil hne)] at hlast
    exact absurd hlast (by decide)
  rw [lineInstruction, if_neg (by rw [hbody]; exact hst.ne_nil)]
  cases line
  simp only [hbody]

/-- **The instructions of a script spell its statements**, one for each. -/
theorem Says.spells {ls : List (List UInt8)} {sts : List Statement} (h : Says ls sts) :
    List.Forall₂ Statement.Spells sts (ls.filterMap lineInstruction) := by
  induction h with
  | nil => exact .nil
  | blank hblank _ ih =>
    rw [List.filterMap_cons, lineInstruction_blank hblank]
    exact ih
  | statement hst hend hgap _ ih =>
    rw [List.filterMap_cons, lineInstruction_spells hst hend hgap]
    exact .cons hst ih

/-! ## 4. Fetching and decoding -/

/-- What `decode` makes of the line that memoria sends for a program counter. -/
def decodeAt (instructions : List String) (pc : Int) : Option TInstruction :=
  parseInstruction (getInstructionRequestHandler (some (instructions.map instructionString)) pc) zeroed

/-- The statement at a program counter: past the last one there is always a NOOP more. -/
def statementAt (sts : List Statement) (pc : Int) : Statement :=
  if pc < 0 then .noop else sts.getD pc.toNat .noop

/-- **A script is executed as its statements.**  Whatever stands in the file between them, the instruction
that is fetched and decoded at a program counter is the statement at that counter. -/
theorem decode_of_script {file : List UInt8} {sts : List Statement} (h : Script file sts) :
    ∃ instructions, loadScript file = some instructions ∧ instructions.length = sts.length ∧
      ∀ pc, decodeAt instructions pc = some (statementAt sts pc).record := by
  obtain ⟨ls, hlines, hsays⟩ := h
  obtain ⟨instructions, hload, hmap⟩ := loadScript_eq hlines
  have hspells := hsays.spells
  rw [← hmap] at hspells
  refine ⟨instructions, hload, ?_, ?_⟩
  · simpa using hspells.length_eq.symm
  · intro pc
    unfold decodeAt getInstructionRequestHandler statementAt
    by_cases hneg : pc < 0
    · simp only [hneg, ↓reduceIte]
      exact parseInstruction_blank (.blank (by simp)) zeroed
    · simp only [hneg, ↓reduceIte]
      by_cases hlt : pc.toNat < sts.length
      · have hlt' : pc.toNat < (instructions.map instructionString).length := hspells.length_eq ▸ hlt
        rw [List.getD_eq_getElem _ _ hlt, List.getD_eq_getElem _ _ hlt']
        exact parseInstruction_of_spells (List.forall₂_iff_get.mp hspells |>.2 pc.toNat hlt hlt')
      · have hge' : (instructions.map instructionString).length ≤ pc.toNat := by
          rw [← hspells.length_eq]
          omega
        rw [List.getD_eq_default _ _ (Nat.le_of_not_lt hlt), List.getD_eq_default _ _ hge']
        exact parseInstruction_blank (.blank (by simp)) zeroed

/-- `WRITE 0 hi` and `READ 0 2`, with a blank line between and a carriage return at the end. -/
def readBackScript : List UInt8 :=
  [87, 82, 73, 84, 69, 32, 48, 32, 104, 105, 10, 9, 10, 82, 69, 65, 68, 32, 48, 32, 50, 13, 10]

def readBack : List Statement := [.write 0 [104, 105], .read 0 2]

theorem isMnemonic_write : IsMnemonic .write [87, 82, 73, 84, 69] := by
  unfold IsMnemonic
  decide

theorem isMnemonic_read : IsMnemonic .read [82, 69, 65, 68] := by
  unfold IsMnemonic
  decide

theorem isDecimal_digit {n : Int32} {d : UInt8} (hd : 48 ≤ d ∧ d ≤ 57) (hn : n.toInt = decimalValue [d]) :
    IsDecimal n [d] :=
  ⟨[], [d], rfl, by simp, by simpa using hd, Or.inl ⟨Or.inl rfl, hn⟩⟩

/-- A line of three words. -/
theorem spells_three {st : Statement} {line : CString} {m x y : List UInt8} (hm : IsMnemonic st.code m)
    (hfree : ∀ w ∈ [m, x, y], w ≠ [] ∧ 32 ∉ w) (hops : List.Forall₂ Operand.Spells st.operands [x, y])
    (hline : line.chars = m ++ 32 :: (x ++ 32 :: y)) : st.Spells line := by
  have hword : ∀ w ∈ [m, x, y], IsWord 32 w := fun w hw => ⟨(hfree w hw).1, (hfree w hw).2⟩
  have hlast : Spaced 32 [y] ([32] ++ (y ++ [])) :=
    .word [32] (by simp) (hword y (by simp)) (by simp) (.blank (by simp))
  have hmiddle : Spaced 32 [x, y] ([32] ++ (x ++ ([32] ++ (y ++ [])))) :=
    .word [32] (by simp) (hword x (by simp)) (by simp) hlast
  refine ⟨m, [x, y], ?_, hm, hops⟩
  have hall : Spaced 32 [m, x, y] ([] ++ (m ++ ([32] ++ (x ++ ([32] ++ (y ++ [])))))) :=
    .word [] (by simp) (hword m (by simp)) (by simp) hmiddle
  rw [hline]
  simpa using hall

/-- A line `WRITE 0 word`. -/
theorem spells_write_zero (word : List UInt8) (hne : word ≠ []) (hfree : 32 ∉ word)
    (hnul : 0 ∉ [87, 82, 73, 84, 69, 32, 48, 32] ++ word) :
    (Statement.write 0 word).Spells ⟨[87, 82, 73, 84, 69, 32, 48, 32] ++ word, hnul⟩ :=
  spells_three (m := [87, 82, 73, 84, 69]) (x := [48]) isMnemonic_write (by simp [hne, hfree])
    (.cons (isDecimal_digit (by decide) (by decide)) (.cons rfl .nil)) rfl

theorem script_readBack : Script readBackScript readBack := by
  have hread : (Statement.read 0 2).Spells ⟨[82, 69, 65, 68, 32, 48, 32, 50], by decide⟩ :=
    spells_three (m := [82, 69, 65, 68]) (x := [48]) (y := [50]) isMnemonic_read (by simp)
      (.cons (isDecimal_digit (by decide) (by decide))
        (.cons (isDecimal_digit (by decide) (by decide)) .nil)) rfl
  refine ⟨[[87, 82, 73, 84, 69, 32, 48, 32, 104, 105] ++ [], [9], [82, 69, 65, 68, 32, 48, 32, 50] ++ [13]],
    ?_, ?_⟩
  · have hlast : Lines (10 : UInt8) [[82, 69, 65, 68, 32, 48, 32, 50, 13]]
        ([82, 69, 65, 68, 32, 48, 32, 50, 13] ++ [10]) := .cons (by simp) .nil
    have hblank : Lines (10 : UInt8) [[9], [82, 69, 65, 68, 32, 48, 32, 50, 13]]
        ([9] ++ 10 :: ([82, 69, 65, 68, 32, 48, 32, 50, 13] ++ [10])) := .cons (by simp) hlast
    exact .cons (by simp) hblank
  · exact .statement (spells_write_zero [104, 105] (by simp) (by simp) (by simp)) (by simp [isTrailing]) (by simp)
      (.blank (by simp [isTrailing]) (.statement hread (by simp [isTrailing]) (by simp [isTrailing]) .nil))

/-- The theorem at work: a WRITE, a READ, and then NOOPs. -/
theorem decode_of_script_read_back :
    ∃ instructions, loadScript readBackScript = some instructions ∧ instructions.length = readBack.length ∧
      ∀ pc, decodeAt instructions pc = some (statementAt readBack pc).record :=
  decode_of_script script_readBack

end Tpso.Cpu
