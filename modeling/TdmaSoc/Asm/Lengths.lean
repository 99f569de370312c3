import TdmaSoc.Asm.Labels

/-!
# Lengths of instructions

The assembler takes the number of an instruction's words from the text of its operand, the fetch unit from
bits 15 and 14 of its first word. Read from the start, the words of an accepted program fall into the groups
they were emitted in (`fetchGroups_words`), and every group brings the fields of its line into the
instruction register (`Fields.held_words`).
-/

namespace TdmaSoc

/-- The words of a program as the fetch unit takes them, if the last instruction is complete. -/
def fetchGroups : List Word → Option (List (List Word))
  | [] => some []
  | [w] => if w.Long then none else some [[w]]
  | w :: v :: rest =>
    if w.Long then (fetchGroups rest).map ([w, v] :: ·) else (fetchGroups (v :: rest)).map ([w] :: ·)

theorem fetchGroups_long {w : Word} (h : w.Long) (v : Word) (rest : List Word) :
    fetchGroups (w :: v :: rest) = (fetchGroups rest).map ([w, v] :: ·) := by
  rw [fetchGroups, if_pos h]

theorem fetchGroups_short {w : Word} (h : ¬ w.Long) (rest : List Word) :
    fetchGroups (w :: rest) = (fetchGroups rest).map ([w] :: ·) := by
  cases rest with
  | nil => exact if_neg h
  | cons v rest => rw [fetchGroups, if_neg h]

/-- The instruction register with a group of words in the fetch buffers; the second buffer is cleared when
there is one word. -/
def InstReg.holding : List Word → InstReg
  | [w] => clock (w ++ (0 : Word))
  | [w, v] => clock (w ++ v)
  | _ => reset

namespace Asm
variable {py : Python} {labels : Labels}

/-! ### Modes without a second word -/

theorem twoOperands_short {m o₀ o₁ : Str} {f : Fields} (h : twoOperands py labels m o₀ o₁ = .ok f)
    (hs : ¬ f.Long) : f.operand = 0 := by
  rw [twoOperands] at h
  obtain ⟨rz, -, h⟩ := bind_eq_ok.1 h
  cases hd : detectAddrMode o₁ <;> rw [hd] at h
  case inherent => cases h; rfl
  all_goals obtain ⟨v, hv, h⟩ := bind_eq_ok.1 h
  case register => cases h; rfl
  case immediate => cases h; exact absurd (.inl rfl) hs
  case direct =>
    split at h
    · obtain ⟨x, -, h⟩ := bind_eq_ok.1 h
      cases h; exact absurd (.inr rfl) hs
    · cases h; exact absurd (.inr rfl) hs

theorem threeOperands_short {m o₀ o₁ o₂ : Str} {f : Fields} (h : threeOperands py labels m o₀ o₁ o₂ = .ok f)
    (hs : ¬ f.Long) : f.operand = 0 := by
  rw [threeOperands] at h
  split at h
  · cases h
  obtain ⟨rz, -, h⟩ := bind_eq_ok.1 h
  obtain ⟨rx, -, h⟩ := bind_eq_ok.1 h
  cases hd : detectAddrMode o₂ <;> rw [hd] at h
  case inherent | register => cases h; rfl
  all_goals obtain ⟨v, -, h⟩ := bind_eq_ok.1 h
  case immediate => cases h; exact absurd (.inl rfl) hs
  case direct => cases h; exact absurd (.inr rfl) hs

theorem oneOperand_short {o : Str} {f : Fields} (h : oneOperand py labels o = .ok f) (hs : ¬ f.Long) :
    f.operand = 0 := by
  rw [oneOperand] at h
  cases hd : detectAddrMode o <;> rw [hd] at h
  case inherent => cases h; rfl
  all_goals obtain ⟨v, -, h⟩ := bind_eq_ok.1 h
  case register => cases h; rfl
  case immediate => cases h; exact absurd (.inl rfl) hs
  case direct => cases h; exact absurd (.inr rfl) hs

/-- No operand value is chosen for an instruction of one word. -/
theorem operand_of_short {m : Str} {ops : List Str} {f : Fields} (h : fields py labels m ops = .ok f)
    (hs : ¬ f.Long) : f.operand = 0 := by
  rw [fields.eq_def] at h
  by_cases hm : m ∈ ["NOOP".toList, "END".toList, "ENDPROG".toList]
  · rw [if_pos hm] at h
    cases h; rfl
  · rw [if_neg hm] at h
    rcases ops with _ | ⟨o, _ | ⟨_, _ | ⟨_, _ | ⟨_, _⟩⟩⟩⟩
    · cases h
      rfl
    · by_cases hj : m = "JMP".toList
      · simp only [hj, if_true, jmpOperand] at h
        split at h
        · obtain ⟨v, -, h⟩ := bind_eq_ok.1 h
          cases h; rfl
        · cases h
      · simp only [hj, if_false] at h
        exact oneOperand_short h hs
    · exact twoOperands_short h hs
    · exact threeOperands_short h hs
    · cases h
      rfl

/-! ### One group -/

namespace Fields

/-- The instruction register `ir` has the mode, the registers and the operand that were chosen for a line,
and its opcode. -/
structure In (opcode : BitVec 6) (f : Fields) (ir : InstReg) : Prop where
  am : ir.opcode.slice 6 2 = f.am.bits
  opcode : ir.opcode.slice 0 6 = opcode
  rz : (ir.rz.toNat : Int) = f.rz % 16
  rx : (ir.rx.toNat : Int) = f.rx % 16
  operand : (ir.operand.toNat : Int) = f.operand % 65536

theorem toNat_ofInt {w : Nat} (v : Int) : ((BitVec.ofInt w v).toNat : Int) = v % (2 ^ w : Nat) := by
  have hpos : ((2 ^ w : Nat) : Int) ≠ 0 := by exact_mod_cast (Nat.two_pow_pos w).ne'
  rw [BitVec.toNat_ofInt, Int.toNat_of_nonneg (Int.emod_nonneg v hpos)]

variable (opcode : BitVec 6) (f : Fields)

theorem words_first : ∃ w rest, f.words opcode = w :: rest ∧ (w.Long ↔ f.Long) ∧ w.am = f.am.bits ∧
    w.opcode = opcode ∧ w.rz = BitVec.ofInt 4 f.rz ∧ w.rx = BitVec.ofInt 4 f.rx ∧
    rest = if f.Long then [BitVec.ofInt 16 f.operand] else [] := by
  obtain ⟨ham, hop, hz, hx⟩ := Word.fields_append f.am.bits opcode (BitVec.ofInt 4 f.rz) (BitVec.ofInt 4 f.rx)
  refine ⟨_, if f.Long then [BitVec.ofInt 16 f.operand] else [], ?_, ?_, ham, hop, hz, hx, rfl⟩
  · rw [words]
    split <;> rfl
  · rw [Word.Long, ham]
    exact long_bits

theorem held_words {f : Fields} (hs : ¬ f.Long → f.operand = 0) : f.In opcode (InstReg.holding (f.words opcode)) := by
  obtain ⟨w, rest, hw, -, ham, hop, hz, hx, rfl⟩ := words_first opcode f
  have hir : InstReg.holding (f.words opcode) = InstReg.clock (w ++ BitVec.ofInt 16 f.operand) := by
    rw [hw]
    by_cases hl : f.Long
    · rw [if_pos hl]; rfl
    · rw [if_neg hl, hs hl]; rfl
  rw [hir]
  refine ⟨?_, ?_, ?_, ?_, ?_⟩
  · rw [InstReg.opcode_clock_am, ham]
  · rw [InstReg.opcode_clock_opcode, hop]
  · rw [InstReg.rz_clock, hz]; exact toNat_ofInt f.rz
  · rw [InstReg.rx_clock, hx]; exact toNat_ofInt f.rx
  · rw [InstReg.operand_clock]; exact toNat_ofInt f.operand

/-- The fetch unit takes the words of an instruction for one, whatever follows. -/
theorem fetchGroups_words (rest : List Word) :
    fetchGroups (f.words opcode ++ rest) = (fetchGroups rest).map (f.words opcode :: ·) := by
  obtain ⟨w, tail, hw, hlong, -, -, -, -, rfl⟩ := words_first opcode f
  rw [hw]
  by_cases hl : f.Long
  · rw [if_pos hl]
    exact fetchGroups_long (hlong.2 hl) _ rest
  · rw [if_neg hl]
    exact fetchGroups_short (fun h => hl (hlong.1 h)) rest

end Fields

/-! ### All lines -/

/-- What an instruction line emits: nothing, or the words of an instruction. -/
theorem emitted_cases {line : Str} {ws : List Word} (h : assembleLine py labels 0 line = .ok ws) :
    ws = [] ∨ ∃ first ops opcode f, parts py line = first :: ops ∧ opcodes.lookup (py.strUpper first) = some opcode ∧
      fields py labels (py.strUpper first) (ops.filter (· ≠ [])) = .ok f ∧ ws = f.words opcode := by
  rw [assembleLine] at h
  split at h
  · cases h; exact .inl rfl
  · cases hp : parts py line with
    | nil => rw [hp] at h; cases h; exact .inl rfl
    | cons first ops =>
      rw [hp] at h
      cases first with
      | nil => cases h; exact .inl rfl
      | cons c cs =>
        obtain ⟨opcode, f, ho, hf, rfl⟩ := assembleInstruction_ok h
        exact .inr ⟨_, ops, opcode, f, rfl, ho, hf, rfl⟩

theorem fetchGroups_flatMap {lines : List Str} {g : Str → List Word}
    (h : ∀ line ∈ lines, assembleLine py labels 0 line = .ok (g line)) :
    fetchGroups (lines.flatMap g) = some ((lines.map g).filter (· ≠ [])) := by
  induction lines with
  | nil => rfl
  | cons line rest ih =>
    have ih := ih fun l hl => h l (List.mem_cons_of_mem _ hl)
    rw [List.flatMap_cons, List.map_cons]
    rcases emitted_cases (h line List.mem_cons_self) with hw | ⟨_, _, opcode, f, -, -, -, hw⟩
    · rw [hw, List.nil_append, ih]
      rfl
    · obtain ⟨w, tail, hws, -⟩ := Fields.words_first opcode f
      rw [hw, Fields.fetchGroups_words, ih, hws]
      rfl

/-- The assembler and the fetch unit agree on where instructions begin and end: read from the start, the
returned words are, without remainder, the groups emitted for the instruction lines, in order; and the fields
of each in the instruction register are those chosen for its line. -/
theorem lengths_agree {asmLines : List Str} {words : List Word} (h : assemble py asmLines = .ok words) :
    (∀ line ∈ instrs py asmLines,
        assembleLine py (labelsOf py asmLines) 0 line = .ok (wordsOf py (labelsOf py asmLines) line)) ∧
      fetchGroups words = some (((instrs py asmLines).map (wordsOf py (labelsOf py asmLines))).filter (· ≠ [])) ∧
      ∀ line ∈ instrs py asmLines, wordsOf py (labelsOf py asmLines) line ≠ [] →
        ∃ first ops opcode f, parts py line = first :: ops ∧ opcodes.lookup (py.strUpper first) = some opcode ∧
          fields py (labelsOf py asmLines) (py.strUpper first) (ops.filter (· ≠ [])) = .ok f ∧
          f.In opcode (InstReg.holding (wordsOf py (labelsOf py asmLines) line)) := by
  obtain ⟨hall, hwords⟩ := assemble_ok h
  refine ⟨hall, ?_, fun line hl hne => ?_⟩
  · rw [hwords]
    exact fetchGroups_flatMap hall
  · rcases emitted_cases (hall line hl) with h0 | ⟨first, ops, opcode, f, hp, ho, hf, hw⟩
    · exact absurd h0 hne
    · refine ⟨first, ops, opcode, f, hp, ho, hf, ?_⟩
      rw [hw]
      exact Fields.held_words opcode (operand_of_short hf)

/-- Two words, one word and two words. -/
def exampleMix : List Str := ["LDR R1 #2".toList, "CLFZ".toList, "STR R3 $5".toList]

theorem lengths_agree_mix :
    assemble .ascii exampleMix = .ok [0x4010, 2, 0x1000, 0x8203, 5] ∧
      fetchGroups [0x4010, 2, 0x1000, 0x8203, 5] =
        some (((instrs .ascii exampleMix).map (wordsOf .ascii (labelsOf .ascii exampleMix))).filter (· ≠ [])) :=
  ⟨by decide +kernel, (@lengths_agree .ascii exampleMix [0x4010, 2, 0x1000, 0x8203, 5] (by decide +kernel)).2.1⟩

end Asm
end TdmaSoc
