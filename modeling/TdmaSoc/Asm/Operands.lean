import TdmaSoc.Asm.Lengths

/-!
# Operands

What a line asks for by the texts of its operands, against what it is assembled to. The assembler checks no range
and no label: a number is masked to its field, an unknown label is taken for 0, and some operands are not looked at.
-/

namespace TdmaSoc
namespace Asm

/-- What an operand is, by its text. -/
inductive OperandKind
  | register (n : Option Int)
  | literal (v : Option Int)
  | label (key : Str)
deriving DecidableEq, Repr

variable (py : Python)

def operandKind : Str → OperandKind
  | 'R' :: reg => .register (py.int reg)
  | '#' :: val => .literal (py.int0 val)
  | '$' :: key => if py.isdigit key then .literal (py.int key) else .label key
  | o => .label o

def operandsOf (line : Str) : List Str := ((parts py line).drop 1).filter (· ≠ [])

/-- One of the source lines defines the label. -/
def Defines (asmLines : List Str) (key : Str) : Prop := ∃ line ∈ asmLines, lineLabel py line = some key

/-- The operand is in range, and a literal is the operand word. -/
def Encoded (asmLines : List Str) (word : Option Word) : OperandKind → Prop
  | .register n => ∃ k ∈ n, 0 ≤ k ∧ k ≤ 15
  | .literal v => ∃ k ∈ v, -32768 ≤ k ∧ k ≤ 65535 ∧ ∃ w ∈ word, (w.toNat : Int) = k % 65536
  | .label key => Defines py asmLines key

/-! ### Read off the text -/

/-- `int` cannot read the number that the operand is taken for. -/
def Unreadable (o : Str) : Prop :=
  match detectAddrMode o with
  | .register => py.int (o.drop 1) = none
  | .immediate => py.int0 (o.drop 1) = none
  | .direct => py.isdigit (o.drop 1) = true ∧ py.int (o.drop 1) = none
  | .inherent => False

def noOperands : List Str := ["NOOP".toList, "END".toList, "ENDPROG".toList]

/-- The operands of which one cannot be read, or of which the mnemonic does not take as many. -/
def BadOperands (mnemonic : Str) (ops : List Str) : Prop :=
  mnemonic ∉ noOperands ∧
    match ops with
    | [o] => Unreadable py o ∨ mnemonic = "JMP".toList ∧ detectAddrMode o ≠ .register
    | [o₀, o₁] => detectAddrMode o₀ = .register ∧ Unreadable py o₀ ∨ Unreadable py o₁
    | [o₀, _, o₂] =>
      mnemonic ∉ threeRegs ∨ detectAddrMode o₀ = .register ∧ Unreadable py o₀ ∨ Unreadable py o₂
    | _ => False

/-- The mnemonic is unknown, or the operands are bad. A line that begins with a comma is skipped. -/
def Refused (line : Str) : Prop :=
  match parts py line with
  | [] => False
  | [] :: _ => False
  | first :: ops =>
    opcodes.lookup (py.strUpper first) = none ∨ BadOperands py (py.strUpper first) (ops.filter (· ≠ []))

/-- The number that an operand gives to the second word; its first character is not looked at. -/
def operandValue (asmLines : List Str) (o : Str) : Option Int :=
  match detectAddrMode o with
  | .immediate => py.int0 (o.drop 1)
  | .direct =>
    if py.isdigit (o.drop 1) then py.int (o.drop 1) else some ((position py (o.drop 1) asmLines).getD 0 : Nat)
  | _ => none

def opsValue (asmLines : List Str) (mnemonic : Str) (ops : List Str) : Option Int :=
  if mnemonic ∈ noOperands then none
  else match ops with
    | [o] => if mnemonic = "JMP".toList then none else operandValue py asmLines o
    | [_, o] => operandValue py asmLines o
    | [_, _, o] => operandValue py asmLines o
    | _ => none

/-- The number that the second word is taken from, where the line has one. -/
def lineValue (asmLines : List Str) (line : Str) : Option Int :=
  match parts py line with
  | [] => none
  | [] :: _ => none
  | first :: ops => opsValue py asmLines (py.strUpper first) (ops.filter (· ≠ []))

/-- The registers and the literals are in range, the labels are defined, and a literal is what the second word is
taken from. -/
structure Fits (asmLines : List Str) (line : Str) : Prop where
  registers : ∀ o ∈ operandsOf py line, ∀ n, operandKind py o = .register n → ∃ k ∈ n, 0 ≤ k ∧ k ≤ 15
  literals : ∀ o ∈ operandsOf py line, ∀ v, operandKind py o = .literal v →
    ∃ k ∈ v, -32768 ≤ k ∧ k ≤ 65535 ∧ ∃ u ∈ lineValue py asmLines line, u % 65536 = k % 65536
  labels : ∀ o ∈ operandsOf py line, ∀ key, operandKind py o = .label key → Defines py asmLines key

/-! ### What is refused and what is emitted -/

/-- The second word's number, for the modes that have it. -/
def Fields.value (f : Fields) : Option Int := if f.Long then some f.operand else none

/-- Fails exactly if `bad`, and otherwise has the number `u` for the second word. -/
def Gives (x : Except AsmError Fields) (bad : Prop) (u : Option Int) : Prop :=
  (bad → ∃ e, x = .error e) ∧ (¬bad → ∃ f, x = .ok f ∧ f.value = u)

variable {py} {labels : Labels} {o : Str}

theorem Gives.ok {f : Fields} {u : Option Int} (h : f.value = u) : Gives (.ok f) False u :=
  ⟨False.elim, fun _ => ⟨f, rfl, h⟩⟩

/-- A number is read before the rest. -/
theorem Gives.bind {y : Except AsmError Int} {g : Int → Except AsmError Fields} {bad₀ bad : Prop} {u : Option Int}
    (hbad : bad₀ → ∃ e, y = .error e) (hgood : ¬bad₀ → ∃ n, y = .ok n ∧ Gives (g n) bad u) :
    Gives (y >>= g) (bad₀ ∨ bad) u := by
  by_cases hb : bad₀
  · obtain ⟨e, he⟩ := hbad hb
    rw [he]
    exact ⟨fun _ => ⟨e, rfl⟩, fun h => absurd (.inl hb) h⟩
  · obtain ⟨n, hn, hg⟩ := hgood hb
    rw [hn]
    refine ⟨fun h => hg.1 (h.resolve_left hb), fun h => hg.2 fun h' => h (.inr h')⟩

/-- The number that is read last. -/
theorem Gives.last {y : Except AsmError Int} {g : Int → Fields} {bad : Prop} {u : Option Int}
    (hbad : bad → ∃ e, y = .error e) (hgood : ¬bad → ∃ n, y = .ok n ∧ (g n).value = u) :
    Gives (do return g (← y)) bad u := by
  have h : Gives (y >>= fun n => .ok (g n)) (bad ∨ False) u := by
    refine Gives.bind hbad fun hb => ?_
    obtain ⟨n, hn, hu⟩ := hgood hb
    exact ⟨n, hn, .ok hu⟩
  rw [or_false] at h
  exact h

theorem register_shape (h : detectAddrMode o = .register) : o = 'R' :: o.drop 1 := by
  rw [detectAddrMode.eq_def] at h
  split at h
  case h_3 => rfl
  all_goals cases h

theorem parseRegister_of_register (h : detectAddrMode o = .register) : parseRegister py o =
    match py.int (o.drop 1) with
    | some n => .ok n
    | none => .error .valueError := by
  rw [register_shape h]
  rfl

theorem parseRegister_of_ne (h : detectAddrMode o ≠ .register) : parseRegister py o = .ok 0 := by
  rw [parseRegister.eq_def]
  split
  · exact absurd rfl h
  · rfl

theorem parseImmediate_of_immediate (h : detectAddrMode o = .immediate) : parseImmediate py o =
    match py.int0 (o.drop 1) with
    | some n => .ok n
    | none => .error .valueError := by
  obtain ⟨rest, rfl⟩ := detectAddrMode_immediate h
  rfl

/-- A number that `int` may fail to read. -/
theorem read_cases {a : Option Int} {y : Except AsmError Int}
    (h : y = match a with | some n => .ok n | none => .error .valueError) :
    (a = none → ∃ e, y = .error e) ∧ (¬a = none → ∃ n, y = .ok n ∧ a = some n) := by
  cases a with
  | none => exact ⟨fun _ => ⟨_, h⟩, fun hb => absurd rfl hb⟩
  | some n => exact ⟨nofun, fun _ => ⟨n, h, rfl⟩⟩

variable (py) in
theorem read_register (h : detectAddrMode o = .register) : (Unreadable py o → ∃ e, parseRegister py o = .error e) ∧
    (¬Unreadable py o → ∃ n, parseRegister py o = .ok n) := by
  have hu : Unreadable py o ↔ py.int (o.drop 1) = none := by rw [Unreadable, h]
  obtain ⟨hbad, hgood⟩ := read_cases (@parseRegister_of_register py _ h)
  rw [hu]
  refine ⟨hbad, fun hb => ?_⟩
  obtain ⟨n, hn, -⟩ := hgood hb
  exact ⟨n, hn⟩

theorem read_immediate (asmLines : List Str) (h : detectAddrMode o = .immediate) :
    (Unreadable py o → ∃ e, parseImmediate py o = .error e) ∧
      (¬Unreadable py o → ∃ n, parseImmediate py o = .ok n ∧ operandValue py asmLines o = some n) := by
  have hu : Unreadable py o ↔ py.int0 (o.drop 1) = none := by rw [Unreadable, h]
  have hv : operandValue py asmLines o = py.int0 (o.drop 1) := by rw [operandValue, h]
  rw [hu, hv]
  exact read_cases (parseImmediate_of_immediate h)

theorem read_direct (asmLines : List Str) (h : detectAddrMode o = .direct) :
    (Unreadable py o → ∃ e, keyValue py (labelsOf py asmLines) (o.drop 1) = .error e) ∧
      (¬Unreadable py o → ∃ n, keyValue py (labelsOf py asmLines) (o.drop 1) = .ok n ∧
        operandValue py asmLines o = some n) := by
  have hu : Unreadable py o ↔ py.isdigit (o.drop 1) = true ∧ py.int (o.drop 1) = none := by rw [Unreadable, h]
  have hv : operandValue py asmLines o = if py.isdigit (o.drop 1) then py.int (o.drop 1)
      else some ((position py (o.drop 1) asmLines).getD 0 : Nat) := by rw [operandValue, h]
  rw [hu, hv, keyValue, lookup_labelsOf]
  cases py.isdigit (o.drop 1) with
  | true =>
    rw [if_pos rfl, if_pos rfl]
    simp only [true_and]
    exact read_cases rfl
  | false =>
    rw [if_neg (by simp), if_neg (by simp)]
    exact ⟨fun hb => by simp at hb, fun _ => ⟨_, rfl, rfl⟩⟩

/-! The last operand of a line, mode by mode. -/

theorem Gives.register (asmLines : List Str) (h : detectAddrMode o = .register) {g : Int → Fields}
    (hg : ∀ n, (g n).value = none) :
    Gives (do return g (← parseRegister py o)) (Unreadable py o) (operandValue py asmLines o) := by
  obtain ⟨hbad, hgood⟩ := read_register py h
  refine Gives.last hbad fun hb => ?_
  obtain ⟨n, hn⟩ := hgood hb
  refine ⟨n, hn, ?_⟩
  rw [operandValue, h, hg]

theorem Gives.immediate (asmLines : List Str) (h : detectAddrMode o = .immediate) {g : Int → Fields}
    (hg : ∀ n, (g n).value = some n) :
    Gives (do return g (← parseImmediate py o)) (Unreadable py o) (operandValue py asmLines o) := by
  obtain ⟨hbad, hgood⟩ := read_immediate asmLines h
  refine Gives.last hbad fun hb => ?_
  obtain ⟨n, hn, hv⟩ := hgood hb
  exact ⟨n, hn, (hg n).trans hv.symm⟩

theorem Gives.direct (asmLines : List Str) (h : detectAddrMode o = .direct) {g : Int → Fields}
    (hg : ∀ n, (g n).value = some n) : Gives (do return g (← keyValue py (labelsOf py asmLines) (o.drop 1)))
      (Unreadable py o) (operandValue py asmLines o) := by
  obtain ⟨hbad, hgood⟩ := read_direct asmLines h
  refine Gives.last hbad fun hb => ?_
  obtain ⟨n, hn, hv⟩ := hgood hb
  exact ⟨n, hn, (hg n).trans hv.symm⟩

theorem Gives.inherent (asmLines : List Str) (h : detectAddrMode o = .inherent) {f : Fields} (hf : f.value = none) :
    Gives (.ok f) (Unreadable py o) (operandValue py asmLines o) := by
  rw [Unreadable, operandValue, h]
  exact .ok hf

theorem oneOperand_gives (asmLines : List Str) (o : Str) :
    Gives (oneOperand py (labelsOf py asmLines) o) (Unreadable py o) (operandValue py asmLines o) := by
  rw [oneOperand]
  cases hd : detectAddrMode o with
  | register => exact .register asmLines hd fun _ => rfl
  | immediate => exact .immediate asmLines hd fun _ => rfl
  | direct => exact .direct asmLines hd fun _ => rfl
  | inherent => exact .inherent asmLines hd rfl

theorem jmpOperand_gives (o : Str) :
    Gives (jmpOperand py o) (Unreadable py o ∨ detectAddrMode o ≠ .register) none := by
  rw [jmpOperand]
  by_cases hd : detectAddrMode o = .register
  · have hpre : ['R'].isPrefixOf o = true := by
      rw [register_shape hd]
      rfl
    obtain ⟨hbad, hgood⟩ := read_register py hd
    rw [if_pos hpre, or_iff_left (not_not.2 hd)]
    refine Gives.last hbad fun hb => ?_
    obtain ⟨n, hn⟩ := hgood hb
    exact ⟨n, hn, rfl⟩
  · have hpre : ¬['R'].isPrefixOf o = true := by
      rintro hp
      obtain ⟨t, rfl⟩ := List.isPrefixOf_iff_prefix.1 hp
      exact hd rfl
    rw [if_neg hpre]
    exact ⟨fun _ => ⟨_, rfl⟩, fun hb => absurd (.inr hd) hb⟩

/-- The register that the line begins with. -/
theorem first_register (py : Python) (o : Str) :
    (detectAddrMode o = .register ∧ Unreadable py o → ∃ e, parseRegister py o = .error e) ∧
      (¬(detectAddrMode o = .register ∧ Unreadable py o) → ∃ n, parseRegister py o = .ok n) := by
  by_cases hd : detectAddrMode o = .register
  · simpa only [hd, true_and] using read_register py hd
  · refine ⟨fun hb => absurd hb.1 hd, fun _ => ⟨0, parseRegister_of_ne hd⟩⟩

theorem twoOperands_gives (asmLines : List Str) (m o₀ o₁ : Str) : Gives (twoOperands py (labelsOf py asmLines) m o₀ o₁)
    (detectAddrMode o₀ = .register ∧ Unreadable py o₀ ∨ Unreadable py o₁) (operandValue py asmLines o₁) := by
  obtain ⟨hbad₀, hgood₀⟩ := first_register py o₀
  refine Gives.bind hbad₀ fun hb₀ => ?_
  obtain ⟨rz, hrz⟩ := hgood₀ hb₀
  refine ⟨rz, hrz, ?_⟩
  cases hd : detectAddrMode o₁ with
  | register => exact .register asmLines hd fun _ => rfl
  | immediate => exact .immediate asmLines hd fun _ => rfl
  | direct =>
    by_cases hm : m = "STR".toList
    · simp only [hm, if_true, hrz]
      exact .direct asmLines hd fun _ => rfl
    · simp only [hm, if_false]
      exact .direct asmLines hd fun _ => rfl
  | inherent => exact .inherent asmLines hd rfl

theorem threeOperands_gives (asmLines : List Str) (m o₀ o₁ o₂ : Str) :
    Gives (threeOperands py (labelsOf py asmLines) m o₀ o₁ o₂)
      (m ∉ threeRegs ∨ detectAddrMode o₀ = .register ∧ Unreadable py o₀ ∨ Unreadable py o₂)
      (operandValue py asmLines o₂) := by
  rw [threeOperands]
  by_cases hm : m ∈ threeRegs
  · rw [if_neg (not_not.2 hm), if_pos hm, or_iff_right (not_not.2 hm)]
    obtain ⟨hbad₀, hgood₀⟩ := first_register py o₀
    refine Gives.bind hbad₀ fun hb₀ => ?_
    obtain ⟨rz, hrz⟩ := hgood₀ hb₀
    refine ⟨rz, hrz, ?_⟩
    -- `rx` is read from the last operand, which is 0 in every mode but the register's
    cases hd : detectAddrMode o₂ with
    | register => exact .register asmLines hd fun _ => rfl
    | immediate =>
      rw [parseRegister_of_ne (by simp [hd])]
      exact .immediate asmLines hd fun _ => rfl
    | direct =>
      rw [parseRegister_of_ne (by simp [hd])]
      exact .direct asmLines hd fun _ => rfl
    | inherent =>
      rw [parseRegister_of_ne (by simp [hd])]
      exact .inherent asmLines hd rfl
  · rw [if_pos hm]
    exact ⟨fun _ => ⟨_, rfl⟩, fun hb => absurd (.inl hm) hb⟩

theorem fields_gives (py : Python) (asmLines : List Str) (m : Str) (ops : List Str) :
    Gives (fields py (labelsOf py asmLines) m ops) (BadOperands py m ops) (opsValue py asmLines m ops) := by
  rw [fields.eq_def, BadOperands.eq_def, opsValue.eq_def]
  by_cases hm : m ∈ noOperands
  · rw [if_pos hm, if_pos (show m ∈ ["NOOP".toList, "END".toList, "ENDPROG".toList] from hm)]
    exact ⟨fun hb => absurd hm hb.1, fun _ => ⟨_, rfl, rfl⟩⟩
  · rw [if_neg hm, if_neg (show m ∉ ["NOOP".toList, "END".toList, "ENDPROG".toList] from hm), and_iff_right hm]
    rcases ops with _ | ⟨o₀, _ | ⟨o₁, _ | ⟨o₂, _ | ⟨_, _⟩⟩⟩⟩
    · exact .ok rfl
    · dsimp only
      by_cases hj : m = "JMP".toList
      · rw [if_pos hj, if_pos hj, and_iff_right hj]
        exact jmpOperand_gives o₀
      · rw [if_neg hj, if_neg hj, or_iff_left (fun h => hj h.1)]
        exact oneOperand_gives asmLines o₀
    · exact twoOperands_gives asmLines m o₀ o₁
    · exact threeOperands_gives asmLines m o₀ o₁ o₂
    · exact .ok rfl

/-! ### Lines and programs -/

theorem words_second (opcode : BitVec 6) (f : Fields) :
    (f.words opcode)[1]? = f.value.map fun v => (BitVec.ofInt 16 v : Word) := by
  rw [Fields.words, Fields.value]
  by_cases hl : f.Long
  · rw [if_pos hl, if_pos hl]
    rfl
  · rw [if_neg hl, if_neg hl]
    rfl

/-- A line is refused, or assembled with the second word that its text gives. -/
theorem assembleLine_gives (py : Python) (asmLines : List Str) (line : Str) :
    (Refused py line → ∃ e, assembleLine py (labelsOf py asmLines) 0 line = .error e) ∧
      (¬Refused py line → ∃ ws, assembleLine py (labelsOf py asmLines) 0 line = .ok ws ∧
        ws[1]? = (lineValue py asmLines line).map fun v => (BitVec.ofInt 16 v : Word)) := by
  rw [assembleLine, Refused, lineValue]
  by_cases hl : line = []
  · rw [if_pos hl, hl]
    exact ⟨False.elim, fun _ => ⟨_, rfl, rfl⟩⟩
  · rw [if_neg hl]
    cases parts py line with
    | nil => exact ⟨False.elim, fun _ => ⟨_, rfl, rfl⟩⟩
    | cons first ops =>
      cases first with
      | nil => exact ⟨False.elim, fun _ => ⟨_, rfl, rfl⟩⟩
      | cons c cs =>
        dsimp only
        rw [assembleInstruction]
        cases ho : opcodes.lookup (py.strUpper (c :: cs)) with
        | none => exact ⟨fun _ => ⟨_, rfl⟩, fun hb => absurd (.inl rfl) hb⟩
        | some opcode =>
          obtain ⟨hbad, hgood⟩ := fields_gives py asmLines (py.strUpper (c :: cs)) (ops.filter (· ≠ []))
          refine ⟨fun hb => ?_, fun hb => ?_⟩
          · obtain ⟨e, he⟩ := hbad (hb.resolve_left (by simp))
            exact ⟨e, by dsimp only; rw [he]; rfl⟩
          · obtain ⟨f, hf, hv⟩ := hgood fun h => hb (.inr h)
            refine ⟨f.words opcode, by dsimp only; rw [hf]; rfl, ?_⟩
            rw [words_second, hv]

theorem emit_of_ok {lines : List Str} (h : ∀ line ∈ lines, ∃ ws, assembleLine py labels 0 line = .ok ws)
    (acc : List Word) (pc : Nat) : ∃ words, emit py labels acc pc lines = .ok words := by
  induction lines generalizing acc pc with
  | nil => exact ⟨acc, rfl⟩
  | cons line rest ih =>
    obtain ⟨ws, hws⟩ := h line List.mem_cons_self
    obtain ⟨words, hwords⟩ := ih (fun l hl => h l (List.mem_cons_of_mem _ hl)) (acc ++ ws) (pc + ws.length)
    exact ⟨words, bind_eq_ok.2 ⟨ws, hws, hwords⟩⟩

/-- A program is assembled exactly if none of its instruction lines is refused. -/
theorem assemble_ok_iff (asmLines : List Str) :
    (∃ words, assemble py asmLines = .ok words) ↔ ∀ line ∈ instrs py asmLines, ¬Refused py line := by
  constructor
  · rintro ⟨words, h⟩ line hl hb
    obtain ⟨e, he⟩ := (assembleLine_gives py asmLines line).1 hb
    rw [(assemble_ok h).1 line hl] at he
    cases he
  · intro h
    rw [assemble, instructions_foldl]
    refine emit_of_ok (fun line hl => ?_) [] 0
    obtain ⟨ws, hws, -⟩ := (assembleLine_gives py asmLines line).2 (h line hl)
    exact ⟨ws, hws⟩

/-- The literal is the second word exactly if the number that word is taken from agrees with it. -/
theorem second_word_iff {word : Option Word} {value : Option Int}
    (h : word = value.map fun v => (BitVec.ofInt 16 v : Word)) (k : Int) :
    (∃ w ∈ word, (w.toNat : Int) = k % 65536) ↔ ∃ u ∈ value, u % 65536 = k % 65536 := by
  have hw (u : Int) : (((BitVec.ofInt 16 u : Word)).toNat : Int) = u % 65536 := Fields.toNat_ofInt u
  subst h
  cases value with
  | none => simp
  | some u =>
    simp only [Option.map_some, Option.mem_some_iff, exists_eq_left']
    rw [hw]

theorem encoded_iff_fits {asmLines : List Str} {line : Str} {ws : List Word}
    (h : ws[1]? = (lineValue py asmLines line).map fun v => (BitVec.ofInt 16 v : Word)) :
    (∀ o ∈ operandsOf py line, Encoded py asmLines ws[1]? (operandKind py o)) ↔ Fits py asmLines line := by
  constructor
  · intro henc
    refine ⟨?_, ?_, ?_⟩
    · intro o ho n hk
      have := henc o ho
      rwa [hk] at this
    · intro o ho v hk
      have := henc o ho
      rw [hk] at this
      obtain ⟨k, hv, hlo, hhi, hw⟩ := this
      exact ⟨k, hv, hlo, hhi, (second_word_iff h k).1 hw⟩
    · intro o ho key hk
      have := henc o ho
      rwa [hk] at this
  · intro hfit o ho
    cases hk : operandKind py o with
    | register n => exact hfit.registers o ho n hk
    | literal v =>
      obtain ⟨k, hv, hlo, hhi, hu⟩ := hfit.literals o ho v hk
      exact ⟨k, hv, hlo, hhi, (second_word_iff h k).2 hu⟩
    | label key => exact hfit.labels o ho key hk

/-- The assembler fails exactly on the lines that it cannot read, and what it accepts it encodes exactly if the
operands fit as they are written: it checks nothing else. -/
theorem operands_encoded (asmLines : List Str) :
    ((∃ words, assemble py asmLines = .ok words) ↔ ∀ line ∈ instrs py asmLines, ¬Refused py line) ∧
    ∀ line,
      (∀ ws, assembleLine py (labelsOf py asmLines) 0 line = .ok ws →
        ∀ o ∈ operandsOf py line, Encoded py asmLines ws[1]? (operandKind py o)) ↔
      Refused py line ∨ Fits py asmLines line := by
  refine ⟨assemble_ok_iff asmLines, fun line => ?_⟩
  obtain ⟨hbad, hgood⟩ := assembleLine_gives py asmLines line
  by_cases hb : Refused py line
  · obtain ⟨e, he⟩ := hbad hb
    refine ⟨fun _ => .inl hb, fun _ ws hws => ?_⟩
    rw [he] at hws
    cases hws
  · obtain ⟨ws, hws, hword⟩ := hgood hb
    rw [or_iff_right hb, ← encoded_iff_fits hword]
    refine ⟨fun h => h ws hws, fun h ws' hws' => ?_⟩
    rw [hws] at hws'
    cases hws'
    exact h

/-- A register and a literal out of range, and a label that no line defines. -/
def maskedLines : List Str := ["LDR R16 #65536".toList, "SZ $nowhere".toList]

/-- They are assembled to `R0`, to 0 and to 0. -/
theorem operands_masked : assemble .ascii maskedLines = .ok [0x4000, 0, 0x9400, 0] ∧
    assembleLine .ascii (labelsOf .ascii maskedLines) 0 "LDR R16 #65536".toList = .ok [0x4000, 0] ∧
    assembleLine .ascii (labelsOf .ascii maskedLines) 0 "SZ $nowhere".toList = .ok [0x9400, 0] ∧
    ¬Encoded .ascii maskedLines (some 0) (operandKind .ascii "R16".toList) ∧
    ¬Encoded .ascii maskedLines (some 0) (operandKind .ascii "#65536".toList) ∧
    ¬Encoded .ascii maskedLines (some 0) (operandKind .ascii "$nowhere".toList) := by
  have hr : operandKind .ascii "R16".toList = .register (some 16) := by decide +kernel
  have hv : operandKind .ascii "#65536".toList = .literal (some 65536) := by decide +kernel
  have hl : operandKind .ascii "$nowhere".toList = .label "nowhere".toList := by decide +kernel
  refine ⟨by decide +kernel, by decide +kernel, by decide +kernel, ?_, ?_, ?_⟩
  · rw [hr]
    rintro ⟨k, hk, -, hhi⟩
    cases hk
    exact absurd hhi (by decide)
  · rw [hv]
    rintro ⟨k, hk, -, hhi, -⟩
    cases hk
    exact absurd hhi (by decide)
  · rw [hl]
    rintro ⟨line, hline, hlabel⟩
    have hnone : ∀ line ∈ maskedLines, lineLabel .ascii line ≠ some "nowhere".toList := by decide +kernel
    exact hnone line hline hlabel

end Asm
end TdmaSoc
