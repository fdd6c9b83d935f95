/-
# Parsing an instruction

memoria sends an instruction as a line of text, and `parse_instruction` cuts it into tokens with `strtok_r`.
The first token is the mnemonic; what follows is read as operands, as many as the mnemonic has, and each is
used without a look at whether there was a token.

The grammar is stated on the words of the line (`Statement.Spells`).  A line of the grammar is parsed as it
should be, and a line that starts with no mnemonic is refused (`parsesGrammar_iff`).  Nothing else is refused:
behind a mnemonic, tokens that are missing are followed as NULL pointers and tokens too many or malformed are
accepted, and a line without any token leaves the record as `decode` made it, all zeros, which is a NOOP.
-/
import Tpso.Lib.Words
import Tpso.Utils.Buffer

namespace Tpso.Cpu

open Tpso.Lib Tpso.Utils

/-! ## 1. `Einstruction_codes.c` -/

/-- `INSTRUCTION_CODE`, in the order of its values: NOOP is 0.  UNKNOWN is -1. -/
inductive InstructionCode where
  | noop
  | write
  | read
  | goto
  | io
  | initProc
  | dumpMemory
  | exit
  | unknown
deriving DecidableEq, Repr

/-- The bytes of an ASCII text. -/
def ascii (text : List Char) : List UInt8 := text.map fun c => UInt8.ofNat c.toNat

/-- `instruction_code_names`, each with its index. -/
def instructionCodeNames : List (InstructionCode × List UInt8) :=
  [(.noop, ascii ['N', 'O', 'O', 'P']),
    (.write, ascii ['W', 'R', 'I', 'T', 'E']),
    (.read, ascii ['R', 'E', 'A', 'D']),
    (.goto, ascii ['G', 'O', 'T', 'O']),
    (.io, ascii ['I', 'O']),
    (.initProc, ascii ['I', 'N', 'I', 'T', '_', 'P', 'R', 'O', 'C']),
    (.dumpMemory, ascii ['D', 'U', 'M', 'P', '_', 'M', 'E', 'M', 'O', 'R', 'Y']),
    (.exit, ascii ['E', 'X', 'I', 'T'])]

/-- `tolower` in the C locale. -/
def tolower (c : UInt8) : UInt8 := if 65 ≤ c ∧ c ≤ 90 then c + 32 else c

/-- `strcasecmp(s1, s2) == 0`. -/
def strcasecmpZero (s1 s2 : List UInt8) : Bool := decide (s1.map tolower = s2.map tolower)

/-- `string_to_instruction_code`; the argument can be NULL. -/
def stringToInstructionCode : Option (List UInt8) → InstructionCode
  | none => .unknown
  | some instructionCode =>
    ((instructionCodeNames.find? fun x => strcasecmpZero instructionCode x.2).map Prod.fst).getD .unknown

/-! ## 2. `atoi` -/

/-- `isspace` and `isdigit` in the C locale. -/
def isspace (c : UInt8) : Bool := decide (c = 32 ∨ 9 ≤ c ∧ c ≤ 13)

def isdigit (c : UInt8) : Bool := decide (48 ≤ c ∧ c ≤ 57)

/-- The number that the digits at the start of a text make. -/
def leadingNumber (s : List UInt8) : Nat :=
  (s.takeWhile isdigit).foldl (fun n d => 10 * n + (d.toNat - 48)) 0

/-- `strtol(s, NULL, 10)`: blanks, a sign, digits; what does not fit a `long` becomes its bound. -/
def strtol (s : List UInt8) : Int :=
  let s := s.dropWhile isspace
  if s.head? = some 45 then max (-2 ^ 63) (-leadingNumber s.tail)
  else if s.head? = some 43 then min (2 ^ 63 - 1) (leadingNumber s.tail)
  else min (2 ^ 63 - 1) (leadingNumber s)

/-- `atoi`, which is `strtol` converted to `int`. -/
def atoi (s : List UInt8) : Int32 := Int32.ofInt (strtol s)

/-! ## 3. `parse_instruction` -/

/-- `t_instruction`.  The string is NULL or the characters of a token. -/
structure TInstruction where
  instructionCode : InstructionCode
  operandNumeric1 : Int32
  operandNumeric2 : Int32
  operandStringSize : Int32
  operandString : Option (List UInt8)
deriving DecidableEq, Repr

/-- The record that `decode` gets from `safe_calloc`: the code 0 is NOOP. -/
def zeroed : TInstruction := ⟨.noop, 0, 0, 0, none⟩

/-- The stores of a token into the record. -/
def setNumeric1 (token : List UInt8) (instruction : TInstruction) : TInstruction :=
  { instruction with operandNumeric1 := atoi token }

def setNumeric2 (token : List UInt8) (instruction : TInstruction) : TInstruction :=
  { instruction with operandNumeric2 := atoi token }

def setString (token : List UInt8) (instruction : TInstruction) : TInstruction :=
  { instruction with operandString := some token, operandStringSize := Int32.ofNat token.length }

/-- The operands of each case of the switch, in the order they are read. -/
def operandReads : InstructionCode → List (List UInt8 → TInstruction → TInstruction)
  | .dumpMemory | .exit | .noop => []
  | .write => [setNumeric1, setString]
  | .read => [setNumeric1, setNumeric2]
  | .goto => [setNumeric1]
  | .io => [setString, setNumeric1]
  | .initProc => [setString, setNumeric1]
  | .unknown => []

/-- `strtok_r` with the delimiter " ", on what is not parsed yet. -/
def strtokR (s : List UInt8) : Option (List UInt8 × List UInt8) := nextWord 32 s

/-- The reads of a case, one token after the other.  `atoi` and `strdup` of NULL have no result. -/
def readOperands : List (List UInt8 → TInstruction → TInstruction) → List UInt8 → TInstruction →
    Option TInstruction
  | [], _, instruction => some instruction
  | set :: sets, alreadyParsed, instruction =>
    match strtokR alreadyParsed with
    | none => none
    | some (token, alreadyParsed') => readOperands sets alreadyParsed' (set token instruction)

/-- `parse_instruction`. -/
def parseInstruction (instructionString : CString) (instruction : TInstruction) : Option TInstruction :=
  match strtokR instructionString.chars with
  | none => some instruction
  | some (token, alreadyParsed) =>
    let code := stringToInstructionCode (some token)
    readOperands (operandReads code) alreadyParsed { instruction with instructionCode := code }

/-- The line that `get_instruction_request_handler` sends, given the instructions of the process if there is
one; `list_get` has no element at a negative index. -/
def getInstructionRequestHandler (instructions : Option (List CString)) (pc : Int) : CString :=
  match instructions with
  | none => ⟨[], by simp⟩
  | some lines => if pc < 0 then ⟨[], by simp⟩ else lines.getD pc.toNat ⟨[], by simp⟩

/-! ## 4. The grammar -/

/-- `toupper` in the C locale, for the grammar. -/
def upper (c : UInt8) : UInt8 := if 97 ≤ c ∧ c ≤ 122 then c - 32 else c

/-- The word is the mnemonic of the code, in any letter case. -/
def IsMnemonic (code : InstructionCode) (w : List UInt8) : Prop :=
  (code, w.map upper) ∈ instructionCodeNames

/-- The number that digits mean in decimal. -/
def decimalValue (digits : List UInt8) : Nat :=
  Nat.ofDigits 10 (digits.reverse.map fun d => d.toNat - 48)

/-- The word is the number in decimal: digits, at least one, and a sign or none. -/
def IsDecimal (n : Int32) (w : List UInt8) : Prop :=
  ∃ sign digits, w = sign ++ digits ∧ digits ≠ [] ∧ (∀ d ∈ digits, 48 ≤ d ∧ d ≤ 57) ∧
    (((sign = [] ∨ sign = [43]) ∧ n.toInt = decimalValue digits) ∨
      (sign = [45] ∧ n.toInt = -decimalValue digits))

/-- An operand: a number or a name. -/
inductive Operand where
  | number (n : Int32)
  | name (s : List UInt8)

/-- How an operand is written. -/
def Operand.Spells : Operand → List UInt8 → Prop
  | .number n, w => IsDecimal n w
  | .name s, w => w = s

/-- What a line of the grammar says. -/
inductive Statement where
  | noop
  | exit
  | dumpMemory
  | goto (n : Int32)
  | read (n m : Int32)
  | write (n : Int32) (s : List UInt8)
  | io (s : List UInt8) (n : Int32)
  | initProc (s : List UInt8) (n : Int32)

/-- Its mnemonic. -/
def Statement.code : Statement → InstructionCode
  | .noop => .noop
  | .exit => .exit
  | .dumpMemory => .dumpMemory
  | .goto _ => .goto
  | .read _ _ => .read
  | .write _ _ => .write
  | .io _ _ => .io
  | .initProc _ _ => .initProc

/-- Its operands, in the order of the line. -/
def Statement.operands : Statement → List Operand
  | .noop | .exit | .dumpMemory => []
  | .goto n => [.number n]
  | .read n m => [.number n, .number m]
  | .write n s => [.number n, .name s]
  | .io s n => [.name s, .number n]
  | .initProc s n => [.name s, .number n]

/-- The record with its mnemonic and its operands, and nothing else. -/
def Statement.record : Statement → TInstruction
  | .noop => { zeroed with instructionCode := .noop }
  | .exit => { zeroed with instructionCode := .exit }
  | .dumpMemory => { zeroed with instructionCode := .dumpMemory }
  | .goto n => { zeroed with instructionCode := .goto, operandNumeric1 := n }
  | .read n m => { zeroed with instructionCode := .read, operandNumeric1 := n, operandNumeric2 := m }
  | .write n s =>
    ⟨.write, n, 0, Int32.ofNat s.length, some s⟩
  | .io s n => ⟨.io, n, 0, Int32.ofNat s.length, some s⟩
  | .initProc s n => ⟨.initProc, n, 0, Int32.ofNat s.length, some s⟩

/-- **The grammar**: the words of the line, separated by spaces, are the mnemonic and the operands. -/
def Statement.Spells (st : Statement) (line : CString) : Prop :=
  ∃ m ws, Spaced 32 (m :: ws) line.chars ∧ IsMnemonic st.code m ∧
    List.Forall₂ Operand.Spells st.operands ws

/-- **Parsing accepts exactly the grammar**: a line of the grammar gives its record, and every other line a
record with the code UNKNOWN, and no operand is read from a token that is not there. -/
def ParsesGrammar (line : CString) : Prop :=
  (∀ st : Statement, st.Spells line → parseInstruction line zeroed = some st.record) ∧
    ((∀ st : Statement, ¬ st.Spells line) →
      ∃ i, parseInstruction line zeroed = some i ∧ i.instructionCode = .unknown)

/-- The condition: the line is in the grammar, or its first word is no mnemonic. -/
def WellFormedOrUnknown (line : CString) : Prop :=
  (∃ st : Statement, st.Spells line) ∨
    ∃ m ws, Spaced 32 (m :: ws) line.chars ∧ ∀ code, ¬ IsMnemonic code m

/-! ## 5. Names -/

theorem tolower_upper (c : UInt8) : tolower (upper c) = tolower c := by
  obtain ⟨b⟩ := c
  revert b
  decide

theorem upper_tolower (c : UInt8) : upper (tolower c) = upper c := by
  obtain ⟨b⟩ := c
  revert b
  decide

/-- `strcasecmp` compares what is left when the letter case is dropped, either way. -/
theorem strcasecmpZero_iff {s1 s2 : List UInt8} :
    strcasecmpZero s1 s2 = true ↔ s1.map upper = s2.map upper := by
  unfold strcasecmpZero
  rw [decide_eq_true_iff]
  constructor
  · intro h
    have hmap := congrArg (List.map upper) h
    simpa only [List.map_map, Function.comp_def, upper_tolower] using hmap
  · intro h
    have hmap := congrArg (List.map tolower) h
    simpa only [List.map_map, Function.comp_def, tolower_upper] using hmap

/-- The code that is found for a mnemonic. -/
theorem stringToInstructionCode_mnemonic {code : InstructionCode} {m : List UInt8}
    (h : IsMnemonic code m) : stringToInstructionCode (some m) = code := by
  have hnames : ∀ x ∈ instructionCodeNames, stringToInstructionCode (some x.2) = x.1 := by decide
  have hupper : stringToInstructionCode (some m) = stringToInstructionCode (some (m.map upper)) := by
    have hsame : ∀ name, strcasecmpZero m name = strcasecmpZero (m.map upper) name := by
      intro name
      rw [Bool.eq_iff_iff, strcasecmpZero, strcasecmpZero, decide_eq_true_iff, decide_eq_true_iff,
        List.map_map, Function.comp_def]
      simp only [tolower_upper]
    simp only [stringToInstructionCode, hsame]
  rw [hupper]
  exact hnames _ h

/-- **A token is unknown exactly when it is no mnemonic.** -/
theorem stringToInstructionCode_unknown_iff {m : List UInt8} :
    stringToInstructionCode (some m) = .unknown ↔ ∀ code, ¬ IsMnemonic code m := by
  constructor
  · intro h code hcode
    have hnames : ∀ x ∈ instructionCodeNames, x.1 ≠ .unknown := by decide
    exact hnames _ hcode ((stringToInstructionCode_mnemonic hcode).symm.trans h)
  · intro hnone
    have hupper : ∀ x ∈ instructionCodeNames, x.2.map upper = x.2 := by decide
    have hfind : instructionCodeNames.find? (fun x => strcasecmpZero m x.2) = none := by
      rw [List.find?_eq_none]
      intro x hx hzero
      refine hnone x.1 ?_
      have hname := (strcasecmpZero_iff.mp hzero).trans (hupper x hx)
      rw [IsMnemonic, hname]
      exact hx
    simp only [stringToInstructionCode, hfind, Option.map_none, Option.getD_none]

/-! ## 6. Numbers -/

/-- The digits at the start of a text that is all digits. -/
theorem leadingNumber_digits {digits : List UInt8} (h : ∀ d ∈ digits, 48 ≤ d ∧ d ≤ 57) :
    leadingNumber digits = decimalValue digits := by
  have hall : digits.takeWhile isdigit = digits := by
    rw [List.takeWhile_eq_self_iff]
    exact fun d hd => decide_eq_true (h d hd)
  rw [leadingNumber, hall, decimalValue, Nat.ofDigits_eq_foldr, List.foldr_map, List.foldr_reverse]
  congr 1
  funext n d
  simp only [Nat.cast_id]
  ring

/-- **`atoi` of a decimal number that fits is the number.** -/
theorem atoi_of_isDecimal {n : Int32} {w : List UInt8} (h : IsDecimal n w) : atoi w = n := by
  obtain ⟨sign, digits, rfl, hne, hdigits, hvalue⟩ := h
  obtain ⟨d, ds, rfl⟩ := List.exists_cons_of_ne_nil hne
  have hlo := Int32.le_toInt n
  have hhi := Int32.toInt_lt n
  have hnumber := leadingNumber_digits hdigits
  have hd := hdigits d List.mem_cons_self
  have hnotspace : ∀ c : UInt8, (c = 43 ∨ c = 45 ∨ (48 ≤ c ∧ c ≤ 57)) → isspace c = false := by
    rintro ⟨b⟩
    revert b
    decide
  have hplain : d ≠ 45 ∧ d ≠ 43 := by
    constructor
    · rintro rfl
      exact absurd hd.1 (by decide)
    · rintro rfl
      exact absurd hd.1 (by decide)
  suffices hstrtol : strtol (sign ++ d :: ds) = n.toInt by
    rw [atoi, hstrtol, Int32.ofInt_toInt]
  rcases hvalue with ⟨rfl | rfl, hn⟩ | ⟨rfl, hn⟩
  · have hskip : (d :: ds).dropWhile isspace = d :: ds := by
      simp [hnotspace d (Or.inr (Or.inr hd))]
    simp only [strtol, List.nil_append, hskip, List.head?_cons, Option.some.injEq, hplain.1, hplain.2,
      ↓reduceIte, hnumber, ← hn]
    exact min_eq_right (by omega)
  · have hskip : (43 :: d :: ds).dropWhile isspace = 43 :: d :: ds := by
      simp [hnotspace 43 (Or.inl rfl)]
    simp only [strtol, List.singleton_append, hskip, List.head?_cons, Option.some.injEq, List.tail_cons,
      hnumber, ← hn]
    rw [if_neg (by decide), if_pos trivial]
    exact min_eq_right (by omega)
  · have hskip : (45 :: d :: ds).dropWhile isspace = 45 :: d :: ds := by
      simp [hnotspace 45 (Or.inr (Or.inl rfl))]
    simp only [strtol, List.singleton_append, hskip, List.head?_cons, Option.some.injEq, List.tail_cons,
      hnumber, ← hn]
    rw [if_pos trivial]
    exact max_eq_right (by omega)

/-! ## 7. Reading words -/

/-- The same reads from a list of words. -/
def readWords : List (List UInt8 → TInstruction → TInstruction) → List (List UInt8) → TInstruction →
    Option TInstruction
  | [], _, i => some i
  | _ :: _, [], _ => none
  | set :: sets, w :: ws, i => readWords sets ws (set w i)

/-- **Operands are read from the words of the text.** -/
theorem readOperands_spaced {sets : List (List UInt8 → TInstruction → TInstruction)} :
    ∀ {ws : List (List UInt8)} {text : List UInt8} {i : TInstruction}, Spaced 32 ws text →
      readOperands sets text i = readWords sets ws i := by
  induction sets with
  | nil =>
    intro ws text i _
    cases ws with
    | nil => rfl
    | cons w ws => rfl
  | cons set sets ih =>
    intro ws text i h
    cases ws with
    | nil => rw [readOperands, strtokR, nextWord_nil h, readWords]
    | cons w ws =>
      obtain ⟨rest, hnext, hrest⟩ := nextWord_cons h
      rw [readOperands, strtokR, hnext, readWords]
      exact ih hrest

/-- No operand overwrites the code. -/
theorem readWords_code {sets : List (List UInt8 → TInstruction → TInstruction)} :
    ∀ {ws : List (List UInt8)} {i i' : TInstruction},
      (∀ set ∈ sets, ∀ w j, (set w j).instructionCode = j.instructionCode) →
      readWords sets ws i = some i' → i'.instructionCode = i.instructionCode := by
  induction sets with
  | nil =>
    intro ws i i' _ h
    cases ws with
    | nil => rw [Option.some.inj h]
    | cons w ws => rw [Option.some.inj h]
  | cons set sets ih =>
    intro ws i i' hsets h
    cases ws with
    | nil => exact absurd h (by simp [readWords])
    | cons w ws =>
      rw [ih (fun set hset => hsets set (List.mem_cons_of_mem _ hset)) h]
      exact hsets set List.mem_cons_self w i

theorem operandReads_code (code : InstructionCode) :
    ∀ set ∈ operandReads code, ∀ w j, (set w j).instructionCode = j.instructionCode := by
  intro set hset w j
  cases code <;> simp only [operandReads, List.mem_cons, List.not_mem_nil, or_false] at hset <;>
    rcases hset with rfl | rfl <;> rfl

/-- The parse of a line with a first word. -/
theorem parseInstruction_spaced {line : CString} {m : List UInt8} {ws : List (List UInt8)}
    (h : Spaced 32 (m :: ws) line.chars) (i : TInstruction) :
    parseInstruction line i = readWords (operandReads (stringToInstructionCode (some m))) ws
      { i with instructionCode := stringToInstructionCode (some m) } := by
  obtain ⟨rest, hnext, hrest⟩ := nextWord_cons h
  rw [parseInstruction, strtokR, hnext]
  exact readOperands_spaced hrest

/-- **A line of the grammar gives its record.** -/
theorem parseInstruction_of_spells {line : CString} {st : Statement} (h : st.Spells line) :
    parseInstruction line zeroed = some st.record := by
  obtain ⟨m, ws, hspaced, hcode, hoperands⟩ := h
  rw [parseInstruction_spaced hspaced, stringToInstructionCode_mnemonic hcode]
  cases st with
  | noop => rfl
  | exit => rfl
  | dumpMemory => rfl
  | goto n =>
    obtain ⟨a, _, ha, htail, rfl⟩ := List.forall₂_cons_left_iff.mp hoperands
    obtain rfl := List.forall₂_nil_left_iff.mp htail
    rw [← atoi_of_isDecimal ha]
    rfl
  | read n k =>
    obtain ⟨a, _, ha, htail, rfl⟩ := List.forall₂_cons_left_iff.mp hoperands
    obtain ⟨b, _, hb, htail', rfl⟩ := List.forall₂_cons_left_iff.mp htail
    rw [← atoi_of_isDecimal ha, ← atoi_of_isDecimal hb]
    rfl
  | write n s =>
    obtain ⟨a, _, ha, htail, rfl⟩ := List.forall₂_cons_left_iff.mp hoperands
    obtain ⟨b, _, rfl, htail', rfl⟩ := List.forall₂_cons_left_iff.mp htail
    rw [← atoi_of_isDecimal ha]
    rfl
  | io s n =>
    obtain ⟨a, _, rfl, htail, rfl⟩ := List.forall₂_cons_left_iff.mp hoperands
    obtain ⟨b, _, hb, htail', rfl⟩ := List.forall₂_cons_left_iff.mp htail
    rw [← atoi_of_isDecimal hb]
    rfl
  | initProc s n =>
    obtain ⟨a, _, rfl, htail, rfl⟩ := List.forall₂_cons_left_iff.mp hoperands
    obtain ⟨b, _, hb, htail', rfl⟩ := List.forall₂_cons_left_iff.mp htail
    rw [← atoi_of_isDecimal hb]
    rfl

/-- A line without a word leaves the record alone. -/
theorem parseInstruction_blank {line : CString} (h : Spaced 32 [] line.chars) (i : TInstruction) :
    parseInstruction line i = some i := by
  rw [parseInstruction, strtokR, nextWord_nil h]

/-- **What is parsed to UNKNOWN**: exactly the lines whose first word is no mnemonic. -/
theorem parseInstruction_unknown_iff {line : CString} :
    (∃ i, parseInstruction line zeroed = some i ∧ i.instructionCode = .unknown) ↔
      ∃ m ws, Spaced 32 (m :: ws) line.chars ∧ ∀ code, ¬ IsMnemonic code m := by
  constructor
  · rintro ⟨i, hparse, hunknown⟩
    obtain ⟨ws, hspaced⟩ := exists_spaced 32 line.chars
    cases ws with
    | nil =>
      rw [parseInstruction_blank hspaced] at hparse
      rw [← Option.some.inj hparse] at hunknown
      exact absurd hunknown (by decide)
    | cons m ws =>
      refine ⟨m, ws, hspaced, stringToInstructionCode_unknown_iff.mp ?_⟩
      rw [parseInstruction_spaced hspaced] at hparse
      exact (readWords_code (operandReads_code _) hparse).symm.trans hunknown
  · rintro ⟨m, ws, hspaced, hnone⟩
    rw [parseInstruction_spaced hspaced, stringToInstructionCode_unknown_iff.mpr hnone]
    cases ws with
    | nil => exact ⟨_, rfl, rfl⟩
    | cons w ws => exact ⟨_, rfl, rfl⟩

/-! ## 8. The grammar and the parser -/

/-- **Instruction parsing**: it accepts exactly the grammar on the lines of the grammar and on those whose first
word is no mnemonic, and on no others. -/
theorem parsesGrammar_iff (line : CString) : ParsesGrammar line ↔ WellFormedOrUnknown line := by
  constructor
  · intro h
    by_cases hgrammar : ∃ st : Statement, st.Spells line
    · exact Or.inl hgrammar
    · exact Or.inr (parseInstruction_unknown_iff.mp (h.2 fun st hst => hgrammar ⟨st, hst⟩))
  · intro h
    refine ⟨fun st hst => parseInstruction_of_spells hst, fun hnone => ?_⟩
    rcases h with ⟨st, hst⟩ | hunknown
    · exact absurd hst (hnone st)
    · exact parseInstruction_unknown_iff.mpr hunknown

/-- The empty line does not become UNKNOWN: it is executed as a NOOP. -/
theorem not_parsesGrammar : ¬ ∀ line : CString, ParsesGrammar line := by
  intro hall
  have hempty : Spaced (32 : UInt8) [] [] := .blank (by simp)
  obtain ⟨i, hparse, hunknown⟩ := (hall ⟨[], by simp⟩).2 fun st hst => by
    obtain ⟨m, ws, hspaced, -⟩ := hst
    obtain ⟨rest, hnext, -⟩ := nextWord_cons hspaced
    exact absurd (hnext.symm.trans (nextWord_nil hempty)) (by simp)
  rw [parseInstruction_blank hempty] at hparse
  rw [← Option.some.inj hparse] at hunknown
  exact absurd hunknown (by decide)

/-- **Past the last instruction there is always a NOOP more**: what memoria sends is parsed to the record that
`decode` started from. -/
theorem parse_past_the_end {lines : List CString} {pc : Int} (h : (lines.length : Int) ≤ pc) :
    parseInstruction (getInstructionRequestHandler (some lines) pc) zeroed = some zeroed := by
  have hline : getInstructionRequestHandler (some lines) pc = ⟨[], by simp⟩ := by
    simp only [getInstructionRequestHandler]
    rw [if_neg (by omega), List.getD_eq_default _ _ (by omega)]
  rw [hline]
  exact parseInstruction_blank (.blank (by simp)) zeroed

end Tpso.Cpu
