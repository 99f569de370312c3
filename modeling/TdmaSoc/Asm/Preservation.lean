import Mathlib.Data.List.Forall2
import TdmaSoc.Asm.Meaning
import TdmaSoc.Asm.ThreeOperands
import TdmaSoc.ReCOP.Datacall

/-!
# The assembler keeps the meaning

A program whose lines are all `Sound` is accepted, and the processor with its words at address 0 does line by line
what the text says: from each start of an instruction, a run of `n` lines of the text is a run of `n`
instructions (`preserves`).
-/

namespace TdmaSoc

theorem ProgMem.Loaded.middle {rom : ProgMem} {front words rest : List Word}
    (h : rom.Loaded 0 (front ++ (words ++ rest))) : rom.Loaded (BitVec.ofNat 15 front.length) words := by
  intro k w hw
  rw [← BitVec.ofNat_add, ← BitVec.zero_add (BitVec.ofNat 15 (front.length + k))]
  refine h (front.length + k) w ?_
  rw [List.getElem?_append_right (by omega), Nat.add_sub_cancel_left]
  exact (List.getElem?_append_left (List.getElem?_eq_some_iff.1 hw).1).trans hw

theorem ProgMem.loaded_of_length {pc : BitVec 15} {words : List Word} (h : words.length ≤ 2 ^ 15) :
    (holding pc words).Loaded pc words := by
  intro k w hw
  have hk : k < words.length := (List.getElem?_eq_some_iff.1 hw).1
  unfold holding
  rw [BitVec.add_comm, BitVec.add_sub_cancel, BitVec.toNat_ofNat, Nat.mod_eq_of_lt (by omega),
    List.getD_eq_getElem?_getD, hw]
  rfl

namespace Recop

theorem sample_zero (rom : ProgMem) (mem : BitVec 12 → Word) : (blank mem).sample rom 0 = .boot mem := by
  rw [sample, after_succ]
  exact arch_clock_idle rom ⟨rfl, rfl, rfl, rfl, rfl, rfl, rfl⟩ rfl

theorem firstT0_zero {rom : ProgMem} {s₀ : Recop} : s₀.FirstT0 rom 0 :=
  ⟨rfl, fun u hu => absurd hu (Nat.succ_ne_zero u)⟩

end Recop

namespace Asm
variable {py : Python} {asmLines : List Str} {labels : Labels} {o : Str} {t : Term}

/-! ### Operands -/

/-- What the assembler reads in `o` is `t`. -/
structure ReadAs (py : Python) (labels : Labels) (o : Str) (t : Term) : Prop where
  mode : detectAddrMode o = t.mode
  register : ∃ n, parseRegister py o = .ok n ∧ BitVec.ofInt 4 n = t.register
  operand : ∃ n, operandOf py labels o = .ok n ∧ BitVec.ofInt 16 n = t.word

theorem readAs_register {reg : Str} {n : Int} (h : py.int reg = some n) :
    ReadAs py labels ('R' :: reg) (.reg (BitVec.ofInt 4 n)) where
  mode := rfl
  register := ⟨n, by simp only [parseRegister, h], rfl⟩
  operand := ⟨0, rfl, rfl⟩

theorem readAs_immediate {val : Str} {n : Int} (h : py.int0 val = some n) :
    ReadAs py labels ('#' :: val) (.imm (BitVec.ofInt 16 n)) where
  mode := rfl
  register := ⟨0, rfl, rfl⟩
  operand := by
    refine ⟨n, ?_, rfl⟩
    show parseImmediate py ('#' :: val) = .ok n
    simp only [parseImmediate, h]

theorem readAs_direct {key : Str} {n : Int} (h : keyValue py labels key = .ok n) :
    ReadAs py labels ('$' :: key) (.dir (BitVec.ofInt 16 n)) where
  mode := rfl
  register := ⟨0, rfl, rfl⟩
  operand := ⟨n, h, rfl⟩

theorem operand_shape (py : Python) (o : Str) :
    (∃ reg, o = 'R' :: reg) ∨ (∃ val, o = '#' :: val) ∨ (∃ key, o = '$' :: key) ∨ operandKind py o = .label o := by
  rw [operandKind.eq_def]
  split
  · exact .inl ⟨_, rfl⟩
  · exact .inr (.inl ⟨_, rfl⟩)
  · exact .inr (.inr (.inl ⟨_, rfl⟩))
  · exact .inr (.inr (.inr rfl))

/-- An operand that stands for something is read as that, but for the labels. -/
theorem readAs_of_term (h : term py asmLines o = some t) (hr : Resolves py asmLines o (operandKind py o)) :
    ReadAs py (labelsOf py asmLines) o t := by
  rcases operand_shape py o with ⟨reg, rfl⟩ | ⟨val, rfl⟩ | ⟨key, rfl⟩ | hl
  · obtain ⟨n, hn, rfl⟩ := Option.map_eq_some_iff.1 h
    exact readAs_register (Option.filter_eq_some_iff.1 hn).1
  · obtain ⟨n, hn, rfl⟩ := Option.map_eq_some_iff.1 h
    exact readAs_immediate (Option.filter_eq_some_iff.1 hn).1
  · rw [term] at h
    simp only [operandKind] at h hr
    by_cases hd : py.isdigit key = true
    · rw [if_pos hd] at h
      obtain ⟨n, hn, rfl⟩ := Option.map_eq_some_iff.1 h
      refine readAs_direct ?_
      rw [keyValue, if_pos hd, (Option.filter_eq_some_iff.1 hn).1]
    · rw [if_neg hd] at h hr
      obtain ⟨-, hpos⟩ := hr
      obtain ⟨n, hn, rfl⟩ := Option.map_eq_some_iff.1 h
      rw [← BitVec.ofInt_natCast]
      refine readAs_direct ?_
      rw [keyValue, if_neg hd, lookup_labelsOf, hpos, (Option.filter_eq_some_iff.1 hn).1]
      rfl
  · -- without `$` the first character is lost
    rw [hl] at hr
    exact absurd (congrArg List.length hr.1) (by simp)

/-! ### Fields -/

/-- The fields as the words have them. -/
structure Fields.Bits (f : Fields) (am : AddressMode) (z x : BitVec 4) (v : Word) : Prop where
  am : f.am = am
  rz : BitVec.ofInt 4 f.rz = z
  rx : BitVec.ofInt 4 f.rx = x
  operand : BitVec.ofInt 16 f.operand = v

theorem Fields.Bits.instruction {f : Fields} {z x : BitVec 4} (h : f.Bits t.mode z x t.word) (opcode : BitVec 6) :
    f.instruction opcode = Instruction.decode t.mode.bits opcode z x t.word := by
  have hv : (if f.Long then BitVec.ofInt 16 f.operand else 0) = t.word := by
    rw [h.operand]
    cases t with
    | reg x => exact ite_self 0
    | imm v => exact if_pos (.inl h.am)
    | dir v => exact if_pos (.inr h.am)
  rw [Fields.instruction, h.am, h.rz, h.rx, hv]

theorem oneOperand_bits (h : ReadAs py labels o t) :
    ∃ f, oneOperand py labels o = .ok f ∧ f.Bits t.mode t.register 0 t.word := by
  obtain ⟨r, hr, hbits⟩ := h.register
  obtain ⟨n, hn, hword⟩ := h.operand
  rw [operandOf, h.mode] at hn
  rw [oneOperand, h.mode]
  cases t with
  | reg x => exact ⟨_, by dsimp only [Term.mode]; rw [hr]; rfl, rfl, hbits, rfl, rfl⟩
  | imm v => exact ⟨_, by dsimp only [Term.mode] at hn ⊢; rw [hn]; rfl, rfl, rfl, rfl, hword⟩
  | dir v => exact ⟨_, by dsimp only [Term.mode] at hn ⊢; rw [hn]; rfl, rfl, rfl, rfl, hword⟩

theorem jmpOperand_bits {x : BitVec 4} (h : ReadAs py labels o (.reg x)) :
    ∃ f, jmpOperand py o = .ok f ∧ f.Bits .register 0 x 0 := by
  obtain ⟨r, hr, hbits⟩ := h.register
  have hpre : ['R'].isPrefixOf o = true := by
    rw [register_shape h.mode]
    rfl
  rw [jmpOperand, if_pos hpre, hr]
  exact ⟨_, rfl, rfl, rfl, hbits, rfl⟩

theorem twoOperands_bits {m o₀ : Str} {r : BitVec 4} (hs : m ≠ "STR".toList ∨ t.mode ≠ .direct)
    (h₀ : ReadAs py labels o₀ (.reg r)) (h : ReadAs py labels o t) :
    ∃ f, twoOperands py labels m o₀ o = .ok f ∧ f.Bits t.mode r t.register t.word := by
  obtain ⟨z, hz, hzbits⟩ := h₀.register
  obtain ⟨x, hx, hbits⟩ := h.register
  obtain ⟨n, hn, hword⟩ := h.operand
  rw [operandOf, h.mode] at hn
  rw [twoOperands, h.mode, hz]
  cases t with
  | reg y => exact ⟨⟨.register, z, x, 0⟩, by dsimp only [Term.mode]; rw [hx]; rfl, rfl, hzbits, hbits, rfl⟩
  | imm v =>
    exact ⟨⟨.immediate, z, 0, n⟩, by dsimp only [Term.mode] at hn ⊢; rw [hn]; rfl, rfl, hzbits, rfl, hword⟩
  | dir v =>
    refine ⟨⟨.direct, z, 0, n⟩, ?_, rfl, hzbits, rfl, hword⟩
    dsimp only [Term.mode] at hn ⊢
    rw [hn]
    exact if_neg (hs.resolve_right fun hm => hm rfl)

/-- `STR Rx $address` has its register in the other field. -/
theorem strOperands_bits {o₀ : Str} {r : BitVec 4} {v : Word} (h₀ : ReadAs py labels o₀ (.reg r))
    (h : ReadAs py labels o (.dir v)) :
    ∃ f, twoOperands py labels "STR".toList o₀ o = .ok f ∧ f.Bits .direct 0 r v := by
  obtain ⟨z, hz, hzbits⟩ := h₀.register
  obtain ⟨n, hn, hword⟩ := h.operand
  rw [operandOf, h.mode] at hn
  dsimp only [Term.mode] at hn
  refine ⟨⟨.direct, 0, z, n⟩, ?_, rfl, rfl, hzbits, hword⟩
  rw [twoOperands, h.mode, hz]
  dsimp only [Term.mode]
  rw [hn]
  rfl

theorem threeOperands_bits {m o₀ : Str} (o₁ : Str) {z : BitVec 4} (hm : m ∈ threeRegs)
    (h₀ : ReadAs py labels o₀ (.reg z)) (h : ReadAs py labels o t) :
    ∃ f, threeOperands py labels m o₀ o₁ o = .ok f ∧ f.Bits t.mode z t.register t.word := by
  obtain ⟨n₀, hz, hzbits⟩ := h₀.register
  obtain ⟨x, hx, hbits⟩ := h.register
  obtain ⟨n, hn, hword⟩ := h.operand
  rw [operandOf, h.mode] at hn
  rw [threeOperands, if_neg (not_not.2 hm), if_pos hm, hz, hx, h.mode]
  cases t with
  | reg y => exact ⟨_, rfl, rfl, hzbits, hbits, rfl⟩
  | imm v => exact ⟨_, by dsimp only [Term.mode] at hn ⊢; rw [hn]; rfl, rfl, hzbits, hbits, hword⟩
  | dir v => exact ⟨_, by dsimp only [Term.mode] at hn ⊢; rw [hn]; rfl, rfl, hzbits, hbits, hword⟩

/-! ### Lines -/

/-- The assembler makes the instruction `i` of a mnemonic and its operands. -/
def Makes (py : Python) (labels : Labels) (m : Str) (ops : List Str) (i : Instruction) : Prop :=
  ∃ opcode f, opcodes.lookup m = some opcode ∧ fields py labels m ops = .ok f ∧ f.instruction opcode = some i

variable {m : Str} {i : Instruction}

theorem fields_of_operands {ops : List Str} (hn : m ∉ noOperands) :
    fields py labels m ops = match ops with
      | [o] => if m = "JMP".toList then jmpOperand py o else oneOperand py labels o
      | [o₀, o₁] => twoOperands py labels m o₀ o₁
      | [o₀, o₁, o₂] => threeOperands py labels m o₀ o₁ o₂
      | _ => .ok ⟨.inherent, 0, 0, 0⟩ := by
  rw [fields.eq_def]
  exact if_neg hn

theorem makes_inherent (opcode : BitVec 6) (ho : opcodes.lookup m = some opcode)
    (hi : Instruction.decode 0 opcode 0 0 0 = some i) : Makes py labels m [] i := by
  refine ⟨opcode, ⟨.inherent, 0, 0, 0⟩, ho, ?_, hi⟩
  rw [fields.eq_def]
  split <;> rfl

theorem makes_one (opcode : BitVec 6) (ho : opcodes.lookup m = some opcode) (hn : m ∉ noOperands)
    (hj : m ≠ "JMP".toList) (h : ReadAs py labels o t)
    (hi : Instruction.decode t.mode.bits opcode t.register 0 t.word = some i) : Makes py labels m [o] i := by
  obtain ⟨f, hf, hbits⟩ := oneOperand_bits h
  refine ⟨opcode, f, ho, ?_, (hbits.instruction opcode).trans hi⟩
  rw [fields_of_operands hn]
  exact (if_neg hj).trans hf

theorem makes_two (opcode : BitVec 6) {o₀ : Str} {r : BitVec 4} (ho : opcodes.lookup m = some opcode)
    (hn : m ∉ noOperands) (hs : m ≠ "STR".toList ∨ t.mode ≠ .direct) (h₀ : ReadAs py labels o₀ (.reg r))
    (h : ReadAs py labels o t) (hi : Instruction.decode t.mode.bits opcode r t.register t.word = some i) :
    Makes py labels m [o₀, o] i := by
  obtain ⟨f, hf, hbits⟩ := twoOperands_bits hs h₀ h
  refine ⟨opcode, f, ho, ?_, (hbits.instruction opcode).trans hi⟩
  rw [fields_of_operands hn]
  exact hf

theorem makes_three (opcode : BitVec 6) {o₀ o₁ : Str} {z : BitVec 4} (ho : opcodes.lookup m = some opcode)
    (hn : m ∉ noOperands) (hm : m ∈ threeRegs) (h₀ : ReadAs py labels o₀ (.reg z)) (h : ReadAs py labels o t)
    (hi : Instruction.decode t.mode.bits opcode z t.register t.word = some i) : Makes py labels m [o₀, o₁, o] i := by
  obtain ⟨f, hf, hbits⟩ := threeOperands_bits o₁ hm h₀ h
  refine ⟨opcode, f, ho, ?_, (hbits.instruction opcode).trans hi⟩
  rw [fields_of_operands hn]
  exact hf

open Instruction

theorem makes_of_means₀ (h : means₀ m = some i) : Makes py labels m [] i := by
  unfold means₀ at h
  split_ifs at h with h₁ h₂
  · subst h₁
    cases h
    exact makes_inherent Opcode.clfz rfl rfl
  · subst h₂
    cases h
    exact makes_inherent Opcode.noop rfl rfl

theorem makes_jmp {x : BitVec 4} (h : ReadAs py labels o (.reg x)) :
    Makes py labels "JMP".toList [o] (.jmp (.reg x)) := by
  obtain ⟨f, hf, hbits⟩ := jmpOperand_bits h
  exact ⟨Opcode.jmp, f, rfl, hf, hbits.instruction (t := .reg x) Opcode.jmp⟩

theorem makes_of_means₁ (h : means₁ m t = some i) (he : Encodable m i) (hr : ReadAs py labels o t) :
    Makes py labels m [o] i := by
  unfold means₁ at h
  split_ifs at h with hm hm hm hm hm hm
  all_goals
    subst hm
    cases t
    all_goals cases h
  · exact makes_jmp hr
  · exact absurd he id
  · exact absurd he id
  · exact makes_one Opcode.sz rfl (by decide) (by decide) hr rfl
  · exact makes_one Opcode.sz rfl (by decide) (by decide) hr rfl
  · obtain rfl : _ = (0 : BitVec 4) := he
    exact makes_one Opcode.datacall rfl (by decide) (by decide) hr rfl
  · obtain rfl : _ = (0 : BitVec 4) := he
    exact makes_one Opcode.ssop rfl (by decide) (by decide) hr rfl
  · exact makes_one Opcode.lsip rfl (by decide) (by decide) hr rfl
  · exact makes_one Opcode.strpc rfl (by decide) (by decide) hr rfl

theorem makes_str {o₀ : Str} {r : BitVec 4} {v : Word} (h₀ : ReadAs py labels o₀ (.reg r))
    (h : ReadAs py labels o (.dir v)) : Makes py labels "STR".toList [o₀, o] (.str (.value v) (.reg r)) := by
  obtain ⟨f, hf, hbits⟩ := strOperands_bits h₀ h
  exact ⟨Opcode.str, f, rfl, hf, hbits.instruction (t := .dir v) Opcode.str⟩

theorem makes_of_means₂ {o₀ : Str} {r : BitVec 4} (h : means₂ m r t = some i) (he : Encodable m i)
    (h₀ : ReadAs py labels o₀ (.reg r)) (hr : ReadAs py labels o t) : Makes py labels m [o₀, o] i := by
  unfold means₂ at h
  split_ifs at h with hm hm hm hm hm
  all_goals
    subst hm
    cases t
    all_goals cases h
  · exact makes_two Opcode.ldr rfl (by decide) (.inl (by decide)) h₀ hr rfl
  · exact makes_two Opcode.ldr rfl (by decide) (.inl (by decide)) h₀ hr rfl
  · exact makes_two Opcode.ldr rfl (by decide) (.inl (by decide)) h₀ hr rfl
  · exact makes_two Opcode.str rfl (by decide) (.inr fun h => AddressMode.noConfusion h) h₀ hr rfl
  · exact makes_two Opcode.str rfl (by decide) (.inr fun h => AddressMode.noConfusion h) h₀ hr rfl
  · exact makes_str h₀ hr
  · exact absurd rfl he.1
  · exact makes_two Opcode.subr rfl (by decide) (.inl (by decide)) h₀ hr rfl
  · exact makes_two Opcode.present rfl (by decide) (.inl (by decide)) h₀ hr rfl
  · exact makes_two Opcode.present rfl (by decide) (.inl (by decide)) h₀ hr rfl
  · obtain rfl : r = 0 := he
    exact makes_two Opcode.datacall2 rfl (by decide) (.inl (by decide)) h₀ hr rfl

theorem operation_cases {op : AluOp} (h : operation m = some op) :
    ∃ d : ThreeOp, m = d.mnemonic ∧ op = d.op := by
  unfold operation at h
  split_ifs at h with hm hm hm hm hm
  all_goals
    subst hm
    cases h
  · exact ⟨.add, rfl, rfl⟩
  · exact ⟨.sub, rfl, rfl⟩
  · exact ⟨.subv, rfl, rfl⟩
  · exact ⟨.and, rfl, rfl⟩
  · exact ⟨.or, rfl, rfl⟩

theorem makes_of_means₃ {o₀ o₁ : Str} {z x : BitVec 4} (h : means₃ m z x t = some i) (he : Encodable m i)
    (h₀ : ReadAs py labels o₀ (.reg z)) (hr : ReadAs py labels o t) : Makes py labels m [o₀, o₁, o] i := by
  cases t with
  | dir v => cases h
  | reg y =>
    obtain ⟨op, hop, rfl⟩ := Option.map_eq_some_iff.1 h
    obtain ⟨d, rfl, rfl⟩ := operation_cases hop
    obtain ⟨hsub, rfl⟩ := he
    cases d with
    | add => exact makes_three Opcode.addr rfl (by decide) (by decide) h₀ hr rfl
    | sub => exact absurd rfl hsub
    | subv => exact absurd rfl hsub
    | and => exact makes_three Opcode.andr rfl (by decide) (by decide) h₀ hr rfl
    | or => exact makes_three Opcode.orr rfl (by decide) (by decide) h₀ hr rfl
  | imm v =>
    obtain ⟨op, hop, rfl⟩ := Option.map_eq_some_iff.1 h
    obtain ⟨d, rfl, rfl⟩ := operation_cases hop
    cases d with
    | add =>
      obtain rfl : x = 0 := he
      exact makes_three Opcode.addr rfl (by decide) (by decide) h₀ hr rfl
    | sub =>
      obtain rfl : x = z := he
      exact makes_three Opcode.subr rfl (by decide) (by decide) h₀ hr rfl
    | subv =>
      obtain rfl : x = 0 := he
      exact makes_three Opcode.subvr rfl (by decide) (by decide) h₀ hr rfl
    | and =>
      obtain rfl : x = 0 := he
      exact makes_three Opcode.andr rfl (by decide) (by decide) h₀ hr rfl
    | or =>
      obtain rfl : x = 0 := he
      exact makes_three Opcode.orr rfl (by decide) (by decide) h₀ hr rfl

/-- A mnemonic whose operands are read as they are meant. -/
theorem makes_of_means {ops : List Str} {ts : List Term} (h : means m ts = some i) (he : Encodable m i)
    (hr : List.Forall₂ (ReadAs py labels) ops ts) : Makes py labels m ops i := by
  unfold means at h
  split at h
  · cases hr
    exact makes_of_means₀ h
  · obtain _ | ⟨ht, _ | _⟩ := hr
    exact makes_of_means₁ h he ht
  · obtain _ | ⟨h₀, _ | ⟨ht, _ | _⟩⟩ := hr
    exact makes_of_means₂ h he h₀ ht
  · obtain _ | ⟨h₀, _ | ⟨_, _ | ⟨ht, _ | _⟩⟩⟩ := hr
    exact makes_of_means₃ h he h₀ ht
  · cases h

/-! ### A line of a program -/

theorem forall₂_of_mapM {α β : Type} {f : α → Option β} {as : List α} {bs : List β} (h : as.mapM f = some bs) :
    List.Forall₂ (fun a b => f a = some b) as bs := by
  induction as generalizing bs with
  | nil =>
    cases h
    exact .nil
  | cons a as ih =>
    rw [List.mapM_cons] at h
    obtain ⟨b, hb, h⟩ := Option.bind_eq_some_iff.1 h
    obtain ⟨cs, hcs, h⟩ := Option.bind_eq_some_iff.1 h
    cases h
    exact .cons hb (ih hcs)

theorem Sound.makes {line : Str} (h : Sound py asmLines line) :
    ∃ i, lineMeans py asmLines line = some i ∧
      Makes py (labelsOf py asmLines) (mnemonic py line) (operandsOf py line) i := by
  obtain ⟨⟨i, hi, he⟩, hres⟩ := h
  obtain ⟨ts, hts, hmeans⟩ := Option.bind_eq_some_iff.1 hi
  refine ⟨i, hi, makes_of_means hmeans he ?_⟩
  exact ((List.forall₂_and_left _ _).2 ⟨hres, forall₂_of_mapM hts⟩).imp fun _ _ h => readAs_of_term h.2 h.1

/-- A sound line assembles to the words of its instruction. -/
theorem Sound.assembleLine {line : Str} (h : Sound py asmLines line) : ∃ i opcode, ∃ f : Fields,
    lineMeans py asmLines line = some i ∧ assembleLine py (labelsOf py asmLines) 0 line = .ok (f.words opcode) ∧
      f.instruction opcode = some i ∧ Instruction.words f.am.bits = BitVec.ofNat 15 (lineWords py line) := by
  obtain ⟨i, hi, opcode, f, ho, hf, hinstr⟩ := h.makes
  have hline : Asm.assembleLine py (labelsOf py asmLines) 0 line = .ok (f.words opcode) := by
    rw [Asm.assembleLine]
    rw [mnemonic] at ho hf
    rw [operandsOf] at hf
    by_cases hl : line = []
    · rw [hl] at ho
      cases ho
    · rw [if_neg hl]
      cases hp : parts py line with
      | nil =>
        rw [hp] at ho
        cases ho
      | cons first ops =>
        rw [hp] at ho hf
        cases first with
        | nil => cases ho
        | cons c cs =>
          change opcodes.lookup (py.strUpper (c :: cs)) = _ at ho
          change fields py _ (py.strUpper (c :: cs)) (ops.filter (· ≠ [])) = _ at hf
          show assembleInstruction py ((c :: cs) :: ops) _ 0 = _
          simp only [assembleInstruction, ho, hf]
          rfl
  refine ⟨i, opcode, f, hi, hline, hinstr, ?_⟩
  rw [← length_of_assembleLine hline, length_words, Instruction.words]
  by_cases hlong : f.Long
  · rw [if_pos hlong, if_pos (Fields.long_bits.2 hlong)]
    rfl
  · rw [if_neg hlong, if_neg fun hb => hlong (Fields.long_bits.1 hb)]
    rfl

/-- The place of a line among the words. -/
theorem exists_of_lineAt {lines : List Str} {n : Nat} {line : Str} (h : lineAt py lines n = some line) :
    ∃ front rest, lines = front ++ line :: rest ∧ (front.map (lineWords py)).sum = n := by
  induction lines generalizing n with
  | nil => cases h
  | cons first rest ih =>
    rw [lineAt] at h
    split_ifs at h with h0 hle
    · cases h
      exact ⟨[], rest, rfl, h0.symm⟩
    · obtain ⟨front, back, rfl, hsum⟩ := ih h
      refine ⟨first :: front, back, rfl, ?_⟩
      rw [List.map_cons, List.sum_cons, hsum]
      omega

/-! ### Programs -/

theorem loaded_lineAt {words : List Word} (h : assemble py asmLines = .ok words) {rom : ProgMem}
    (hrom : rom.Loaded 0 words) {n : Nat} {line : Str} (hline : lineAt py (instrs py asmLines) n = some line) :
    rom.Loaded (BitVec.ofNat 15 n) (wordsOf py (labelsOf py asmLines) line) := by
  obtain ⟨hok, hwords⟩ := assemble_ok h
  obtain ⟨front, rest, hsplit, hsum⟩ := exists_of_lineAt hline
  have hn : (front.flatMap (wordsOf py (labelsOf py asmLines))).length = n := by
    rw [List.length_flatMap, ← hsum]
    congr 1
    refine List.map_congr_left fun l hl => length_of_assembleLine (hok l ?_)
    rw [hsplit]
    exact List.mem_append_left _ hl
  rw [hwords, hsplit, List.flatMap_append, List.flatMap_cons] at hrom
  rw [← hn]
  exact hrom.middle

theorem mem_of_lineAt {lines : List Str} {n : Nat} {line : Str} (h : lineAt py lines n = some line) : line ∈ lines := by
  obtain ⟨front, rest, rfl, -⟩ := exists_of_lineAt h
  exact List.mem_append_right _ List.mem_cons_self

section
variable (hall : ∀ line ∈ instrs py asmLines, Sound py asmLines line)
include hall

theorem assemble_of_sound : ∃ words, assemble py asmLines = .ok words := by
  rw [assemble, instructions_foldl]
  refine emit_of_ok (fun line hl => ?_) [] 0
  obtain ⟨_, opcode, f, -, hf, -⟩ := (hall line hl).assembleLine
  exact ⟨_, hf⟩

variable {rom : ProgMem} {s₀ : Recop} {words : List Word} {t : Nat} {a : Arch}

/-- One line of the text is one instruction. -/
theorem step_preserved (h : assemble py asmLines = .ok words) (hrom : rom.Loaded 0 words) (ht : s₀.FirstT0 rom t)
    (hstep : Source.step py asmLines (s₀.sample rom t) = some a) :
    s₀.FirstT0 rom (Recop.finish rom s₀ t) ∧ s₀.sample rom (Recop.finish rom s₀ t) = a := by
  obtain ⟨line, hline, hstep⟩ := Option.bind_eq_some_iff.1 hstep
  obtain ⟨i, hi, ha⟩ := Option.bind_eq_some_iff.1 hstep
  cases ha
  have hmem := mem_of_lineAt hline
  obtain ⟨i', opcode, f, hi', hwords, hinstr, hlength⟩ := (hall line hmem).assembleLine
  cases hi.symm.trans hi'
  have hloaded := loaded_lineAt h hrom hline
  rw [BitVec.ofNat_toNat, BitVec.setWidth_eq, wordsOf, hwords] at hloaded
  obtain ⟨ham, hfetch⟩ := Fields.fetch_of_loaded hloaded
  obtain ⟨hfirst, hexec⟩ := ht.executes i (hfetch.trans hinstr)
  rw [ham, hlength] at hexec
  exact ⟨hfirst, hexec⟩

end

/-- A program of sound lines is accepted. With its words at address 0, from every start of an instruction on: if
the text takes the state there in `n` lines to `a`, the processor starts an instruction in the state `a`, `12 n`
to `14 n` clocks later. -/
theorem preserves (py : Python) (asmLines : List Str) (hall : ∀ line ∈ instrs py asmLines, Sound py asmLines line) :
    ∃ words, assemble py asmLines = .ok words ∧
      ∀ (rom : ProgMem) (s₀ : Recop) (t n : Nat) (a : Arch), rom.Loaded 0 words → s₀.FirstT0 rom t →
        Source.run py asmLines n (s₀.sample rom t) = some a →
        ∃ t', s₀.FirstT0 rom t' ∧ s₀.sample rom t' = a ∧ t + 12 * n ≤ t' ∧ t' ≤ t + 14 * n := by
  obtain ⟨words, hwords⟩ := assemble_of_sound hall
  refine ⟨words, hwords, fun rom s₀ t n a hrom ht hrun => ?_⟩
  induction n generalizing t with
  | zero =>
    cases hrun
    exact ⟨t, ht, rfl, by omega, by omega⟩
  | succ n ih =>
    obtain ⟨b, hb, hrun⟩ := Option.bind_eq_some_iff.1 hrun
    obtain ⟨hfirst, rfl⟩ := step_preserved hall hwords hrom ht hb
    obtain ⟨t', ht', ha, hle, hge⟩ := ih _ hfirst hrun
    have hcycles : 12 ≤ (rom (s₀.sample rom t).pc).cycles ∧ (rom (s₀.sample rom t).pc).cycles ≤ 14 := by
      unfold Word.cycles
      split <;> omega
    unfold Recop.finish at hle hge
    exact ⟨t', ht', ha, by omega, by omega⟩

/-- Sends 5 to port 3 again and again. -/
def resend : List Str :=
  ["again LDR R0 #0x8300 ; to port 3".toList, "  DATACALL2 R0 #5".toList, "PRESENT R1 $again".toList, "ENDPROG".toList]

def resendWords : List Word := [0x4000, 0x8300, 0x6900, 5, 0x9C10, 0]

def resendState : Nat → Arch
  | 0 => .boot fun _ => 0
  | 1 => { Arch.boot fun _ => 0 with pc := 2, regs := Function.update (fun _ => 0) 0 0x8300 }
  | 2 => { Arch.boot fun _ => 0 with pc := 4, regs := Function.update (fun _ => 0) 0 0x8300, dpcr := 0x83000005 }
  | _ => { Arch.boot fun _ => 0 with regs := Function.update (fun _ => 0) 0 0x8300, dpcr := 0x83000005 }

theorem run_resend {i : Nat} (hi : i ≤ 3) : Source.run .ascii resend i (.boot fun _ => 0) = some (resendState i) := by
  have hlines : lineAt .ascii (instrs .ascii resend) 0 = some "LDR R0 #0x8300".toList ∧
      lineAt .ascii (instrs .ascii resend) 2 = some "DATACALL2 R0 #5".toList ∧
      lineAt .ascii (instrs .ascii resend) 4 = some "PRESENT R1 $again".toList := by decide +kernel
  have hmeans : lineMeans .ascii resend "LDR R0 #0x8300".toList = some (.ldr 0 (.value 0x8300)) ∧
      lineMeans .ascii resend "DATACALL2 R0 #5".toList = some (.datacall 0 (.value 5)) ∧
      lineMeans .ascii resend "PRESENT R1 $again".toList = some (.present 1 0) := by decide +kernel
  have hwords : lineWords .ascii "LDR R0 #0x8300".toList = 2 ∧ lineWords .ascii "DATACALL2 R0 #5".toList = 2 := by
    decide +kernel
  refine Source.run_of_steps (n := 3) (a := resendState) (fun i hi => ?_) hi
  rcases i with _ | _ | _ | i
  · rw [Source.step_of hlines.1 hmeans.1, hwords.1]
    rfl
  · rw [Source.step_of hlines.2.1 hmeans.2.1, hwords.2]
    refine congrArg some (Arch.ext rfl rfl rfl rfl ?_ rfl)
    have hr : (resendState 1).regs 0 = 0x8300 := rfl
    show (resendState 1).regs 0 ++ (5 : Word) = (0x83000005 : BitVec (16 + 16))
    rw [hr]
    rfl
  · exact Source.step_of hlines.2.2 hmeans.2.2
  · omega

theorem preserves_resend : assemble .ascii resend = .ok resendWords ∧
    ∃ t, (Recop.blank fun _ => 0).FirstT0 (.holding 0 resendWords) t ∧
      ((Recop.blank fun _ => 0).sample (.holding 0 resendWords) t).dpcr = 0x83000005 ∧ 36 ≤ t ∧ t ≤ 42 := by
  have hok : assemble .ascii resend = .ok resendWords := by decide +kernel
  obtain ⟨words, hwords, hrun⟩ := preserves .ascii resend (by decide +kernel)
  cases hok.symm.trans hwords
  obtain ⟨t, ht, hsample, hle, hge⟩ := hrun (.holding 0 resendWords) (Recop.blank fun _ => 0) 0 3 (resendState 3)
    (ProgMem.loaded_of_length (by decide)) Recop.firstT0_zero (by rw [Recop.sample_zero]; exact run_resend (by omega))
  exact ⟨hok, t, ht, by rw [hsample]; rfl, by omega, by omega⟩

end Asm
end TdmaSoc
