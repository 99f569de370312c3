import TdmaSoc.Asm.Passes

/-!
# Labels

The first pass counts a label's position in instruction lines, but an instruction of two words takes two
places; and an operand is looked up without its first character, which is only right for `$label`. So
whether a branch lands where its label stands can be read off the text of the program: `Use.lands_iff`.
-/

namespace TdmaSoc
namespace Asm
variable {py : Python} {labels : Labels}

inductive BranchOp | jmp | present | sz
deriving DecidableEq, Repr

namespace BranchOp

def mnemonic : BranchOp → Str
  | jmp => "JMP".toList
  | present => "PRESENT".toList
  | sz => "SZ".toList

def opcode : BranchOp → BitVec 6
  | jmp => Opcode.jmp
  | present => Opcode.present
  | sz => Opcode.sz

end BranchOp

/-- The instruction line `line` is the branch `op` with the target `t`. -/
def IsBranch (py : Python) (op : BranchOp) (line t : Str) : Prop :=
  ∃ first ops, parts py line = first :: ops ∧ py.strUpper first = op.mnemonic ∧
    match op with
    | .present => ∃ o, ops.filter (· ≠ []) = [o, t]
    | _ => ops.filter (· ≠ []) = [t]

theorem fields_of_branch {op : BranchOp} {line t : Str} {ws : List Word} (hb : IsBranch py op line t)
    (h : assembleLine py labels 0 line = .ok ws) :
    ∃ f, ws = f.words op.opcode ∧
      (op = .jmp ∧ jmpOperand py t = .ok f ∨
        op ≠ .jmp ∧ f.am = detectAddrMode t ∧ operandOf py labels t = .ok f.operand) := by
  obtain ⟨first, ops, hp, hm, hops⟩ := hb
  rw [assembleLine, hp] at h
  split at h
  · next hl =>
    rw [hl] at hp
    cases hp
    cases op <;> cases hm
  · cases first with
    | nil => cases op <;> cases hm
    | cons c cs =>
      obtain ⟨opcode, f, ho, hf, rfl⟩ := assembleInstruction_ok h
      rw [hm] at ho hf
      have hopc : opcode = op.opcode := by
        have : opcodes.lookup op.mnemonic = some op.opcode := by cases op <;> rfl
        exact Option.some.inj (ho.symm.trans this)
      refine ⟨f, by rw [hopc], ?_⟩
      cases op with
      | jmp =>
        rw [hops] at hf
        exact .inl ⟨rfl, hf⟩
      | present =>
        obtain ⟨o, hops⟩ := hops
        rw [hops] at hf
        exact .inr ⟨by decide, twoOperands_ok hf⟩
      | sz =>
        rw [hops] at hf
        exact .inr ⟨by decide, oneOperand_ok hf⟩

/-- A label that one source line defines, and an instruction line that branches to it. -/
structure Use (py : Python) (asmLines : List Str) (label : Str) where
  before : List Str
  line : Str
  after : List Str
  split : asmLines = before ++ line :: after
  defines : lineLabel py line = some label
  once : ∀ l ∈ before ++ after, lineLabel py l ≠ some label
  front : List Str
  branch : Str
  rest : List Str
  uses : instrs py asmLines = front ++ branch :: rest
  op : BranchOp
  operand : Str
  isBranch : IsBranch py op branch operand
  names : operand = label ∨ operand = '$' :: label

def labelsOf (py : Python) (asmLines : List Str) : Labels := (asmLines.foldl (collect py) ⟨[], 0, []⟩).labels

namespace Use
variable {asmLines : List Str} {label : Str} {words : List Word} (u : Use py asmLines label)

/-- The index in the returned words of the first word of the instruction the label stands before. -/
def target : Nat := ((instrs py u.before).flatMap (wordsOf py (labelsOf py asmLines))).length

/-- The index in the returned words of the first word of the branch. -/
def place : Nat := (u.front.flatMap (wordsOf py (labelsOf py asmLines))).length

/-- The branch has `target` for its operand word and, loaded at 0 and taken, continues there. -/
def Lands (words : List Word) : Prop :=
  ∃ w₁ w₂, wordsOf py (labelsOf py asmLines) u.branch = [w₁, w₂] ∧ w₂.toNat = u.target ∧
    ∀ (rom : ProgMem) (a : Arch) (s : Recop) (i : Instruction), rom.Loaded 0 words → s.Sampled a →
      a.pc = BitVec.ofNat 15 u.place → rom.fetch a.pc = some i → i.Taken a →
      ((Recop.clock rom)^[14] s).pc.pcOut = BitVec.ofNat 15 u.target

/-- The number of words before the label, by the text of the lines. -/
def distance : Nat := ((instrs py u.before).map (lineWords py)).sum

/-- What the assembler takes the operand for is the number of words before the label. -/
def Refers : Prop :=
  u.op ≠ .jmp ∧
    match detectAddrMode u.operand with
    | .inherent => False
    | .register => False
    | .immediate => ∃ n : Int, py.int0 (u.operand.drop 1) = some n ∧ n % 2 ^ 16 = u.distance
    | .direct =>
      if py.isdigit (u.operand.drop 1) then ∃ n : Int, py.int (u.operand.drop 1) = some n ∧ n % 2 ^ 16 = u.distance
      else (position py (u.operand.drop 1) asmLines).getD 0 % 2 ^ 16 = u.distance

end Use

theorem assemble_ok {asmLines : List Str} {words : List Word} (h : assemble py asmLines = .ok words) :
    (∀ line ∈ instrs py asmLines,
        assembleLine py (labelsOf py asmLines) 0 line = .ok (wordsOf py (labelsOf py asmLines) line)) ∧
      words = (instrs py asmLines).flatMap (wordsOf py (labelsOf py asmLines)) := by
  have hi : (asmLines.foldl (collect py) ⟨[], 0, []⟩).instructions = instrs py asmLines :=
    instructions_foldl asmLines ⟨[], 0, []⟩
  rw [assemble, hi] at h
  exact emit_ok h

theorem lookup_labelsOf (asmLines : List Str) (key : Str) :
    (labelsOf py asmLines).lookup key = position py key asmLines := by
  rw [labelsOf, lookup_foldl]
  cases position py key asmLines <;> simp

theorem detectAddrMode_immediate {o : Str} (h : detectAddrMode o = .immediate) : ∃ rest, o = '#' :: rest := by
  rw [detectAddrMode.eq_def] at h
  split at h
  case h_1 rest => exact ⟨rest, rfl⟩
  all_goals cases h

theorem toNat_ofInt_eq_iff {v : Int} {n : Nat} : (BitVec.ofInt 16 v).toNat = n ↔ v % 2 ^ 16 = n := by
  rw [BitVec.toNat_ofInt]
  have := Int.emod_nonneg v (show (65536 : Int) ≠ 0 by decide)
  have h : ((2 ^ 16 : Nat) : Int) = 65536 := by decide
  rw [h, show (2 : Int) ^ 16 = 65536 by decide]
  omega

namespace Use
variable {asmLines : List Str} {label : Str} {words : List Word} (u : Use py asmLines label)

theorem target_eq (h : assemble py asmLines = .ok words) : u.target = u.distance := by
  rw [target, distance, List.length_flatMap]
  congr 1
  refine List.map_congr_left fun line hline => length_of_assembleLine ((assemble_ok h).1 line ?_)
  rw [u.split, instrs, List.filterMap_append]
  exact List.mem_append_left _ hline

theorem refers_iff {v : Int} (hop : u.op ≠ .jmp) (hv : operandOf py (labelsOf py asmLines) u.operand = .ok v) :
    u.Refers ↔ (detectAddrMode u.operand = .immediate ∨ detectAddrMode u.operand = .direct) ∧
      v % 2 ^ 16 = u.distance := by
  rw [Refers, operandOf] at *
  cases hd : detectAddrMode u.operand <;> rw [hd] at hv
  case inherent | register => simp
  case immediate =>
    obtain ⟨rest, hr⟩ := detectAddrMode_immediate hd
    simp only [hr, parseImmediate] at hv ⊢
    cases hi : py.int0 rest with
    | none => rw [hi] at hv; cases hv
    | some n =>
      rw [hi] at hv
      cases hv
      simp [hop, hi]
  case direct =>
    simp only [keyValue, lookup_labelsOf] at hv
    generalize u.operand.drop 1 = key at hv ⊢
    by_cases hk : py.isdigit key
    · rw [if_pos hk] at hv
      cases hi : py.int key with
      | none => rw [hi] at hv; cases hv
      | some n =>
        rw [hi] at hv
        cases hv
        simp [hop, hk]
    · rw [if_neg hk] at hv
      cases hv
      simp only [hop, hk, ne_eq, not_false_eq_true, true_and, reduceCtorEq, or_true, Bool.false_eq_true, if_false]
      omega

/-- A branch with a second word goes where that says. -/
theorem continues (h : assemble py asmLines = .ok words) {f : Fields} (hop : u.op ≠ .jmp) (hl : f.Long)
    (hf : wordsOf py (labelsOf py asmLines) u.branch = f.words u.op.opcode) {rom : ProgMem} {a : Arch} {s : Recop}
    {i : Instruction} (hrom : rom.Loaded 0 words) (hs : s.Sampled a) (hpc : a.pc = BitVec.ofNat 15 u.place)
    (hi : rom.fetch a.pc = some i) (ht : i.Taken a) :
    ((Recop.clock rom)^[14] s).pc.pcOut = (BitVec.ofInt 16 f.operand).slice 0 15 := by
  have hloaded : rom.Loaded a.pc (f.words u.op.opcode) := by
    intro k w hw
    rw [hpc, ← BitVec.ofNat_add, ← BitVec.zero_add (BitVec.ofNat 15 (u.place + k))]
    refine hrom (u.place + k) w ?_
    rw [(assemble_ok h).2, u.uses, List.flatMap_append, List.getElem?_append_right (by rw [place]; omega),
      List.flatMap_cons, hf, place, Nat.add_sub_cancel_left]
    exact (List.getElem?_append_left (List.getElem?_eq_some_iff.1 hw).1).trans hw
  obtain ⟨ham, hfetch⟩ := Fields.fetch_of_loaded hloaded
  have hcycles : (rom a.pc).cycles = 14 := by
    rw [Word.cycles, if_pos]
    rw [Word.Long, ham]
    exact Fields.long_bits.2 hl
  have hnext := hs.exec hi
  rw [hcycles] at hnext
  refine (congrArg Arch.pc hnext.arch).trans ?_
  have hinstr := hi.symm.trans hfetch
  rw [Fields.instruction, if_pos hl] at hinstr
  cases hop' : u.op with
  | jmp => exact absurd hop' hop
  | present =>
    rw [hop'] at hinstr
    cases hinstr
    exact if_pos ht
  | sz =>
    rw [hop'] at hinstr
    cases hinstr
    exact if_pos ht

theorem lands_iff_words (h : assemble py asmLines = .ok words) {f : Fields} (hop : u.op ≠ .jmp)
    (hf : wordsOf py (labelsOf py asmLines) u.branch = f.words u.op.opcode) :
    u.Lands words ↔ f.Long ∧ f.operand % 2 ^ 16 = u.distance := by
  rw [← u.target_eq h, ← toNat_ofInt_eq_iff]
  refine ⟨?_, ?_⟩
  · rintro ⟨w₁, w₂, hw, ht, -⟩
    rw [hf, Fields.words] at hw
    split at hw
    · next hl =>
      cases hw
      exact ⟨hl, ht⟩
    · cases hw
  · rintro ⟨hl, ht⟩
    have hw := hf
    rw [Fields.words, if_pos hl] at hw
    refine ⟨_, _, hw, ht, fun rom a s i hrom hs hpc hi htaken => ?_⟩
    rw [u.continues h hop hl hf hrom hs hpc hi htaken, ← ht]
    exact BitVec.eq_of_toNat_eq (by simp [BitVec.slice])

/-- In an accepted program no `JMP` names a label, but for the register mode. A branch to `$label` lands
exactly if as many lines as words stand before the label, a branch to any operand exactly if what the
assembler reads there is that number of words. -/
theorem lands_iff (h : assemble py asmLines = .ok words) :
    (u.op = .jmp → ∃ rest, u.operand = 'R' :: rest) ∧
      (u.operand = '$' :: label → py.isdigit label = false →
        (u.Lands words ↔ u.op ≠ .jmp ∧ (instrs py u.before).length % 2 ^ 16 = u.distance)) ∧
      (u.Lands words ↔ u.Refers) := by
  have hmem : u.branch ∈ instrs py asmLines := by
    rw [u.uses]
    exact List.mem_append_right _ List.mem_cons_self
  obtain ⟨f, hf, hcase⟩ := fields_of_branch u.isBranch ((assemble_ok h).1 _ hmem)
  have hlands : u.Lands words ↔ u.Refers := by
    rcases hcase with ⟨hj, hjmp⟩ | ⟨hop, ham, hv⟩
    · refine iff_of_false ?_ fun hr => hr.1 hj
      rintro ⟨w₁, w₂, hw, -⟩
      have hr := jmpOperand_ok hjmp
      rw [hf, Fields.words, if_neg (by rw [Fields.Long, hr]; decide)] at hw
      cases hw
    · rw [u.lands_iff_words h hop hf, u.refers_iff hop hv, Fields.Long, ham]
  refine ⟨fun hj => ?_, fun ho hd => ?_, hlands⟩
  · rcases hcase with ⟨-, hjmp⟩ | ⟨hop, -⟩
    · rw [jmpOperand] at hjmp
      split at hjmp
      · next hr =>
        obtain ⟨rest, hrest⟩ := List.isPrefixOf_iff_prefix.1 hr
        exact ⟨rest, hrest.symm⟩
      · cases hjmp
    · exact absurd hj hop
  · have hpos : position py label asmLines = some (instrs py u.before).length :=
      (congrArg (position py label) u.split).trans (position_of_once u.defines u.once)
    rw [hlands, Refers, ho]
    simp only [detectAddrMode, List.drop_one, List.tail_cons, hd, Bool.false_eq_true, if_false, hpos, Option.getD_some]

def exampleLoop : List Str := ["NOOP".toList, "loop SUBV R1 R1 #1".toList, "PRESENT R1 $loop".toList]

def exampleUse : Use .ascii exampleLoop "loop".toList where
  before := ["NOOP".toList]
  line := "loop SUBV R1 R1 #1".toList
  after := ["PRESENT R1 $loop".toList]
  split := rfl
  defines := by decide +kernel
  once := by decide +kernel
  front := ["NOOP".toList, "SUBV R1 R1 #1".toList]
  branch := "PRESENT R1 $loop".toList
  rest := []
  uses := by decide +kernel
  op := .present
  operand := "$loop".toList
  isBranch := ⟨"PRESENT".toList, ["R1".toList, "$loop".toList], by decide +kernel, by decide +kernel, "R1".toList,
    by decide +kernel⟩
  names := .inr rfl

theorem lands_iff_loop : exampleUse.Lands [0x3400, 0x4310, 1, 0x9C10, 1] :=
  ((@lands_iff .ascii exampleLoop "loop".toList [0x3400, 0x4310, 1, 0x9C10, 1] exampleUse (by decide +kernel)).2.1 rfl
    (by decide +kernel)).2 ⟨by decide, by decide +kernel⟩

def lateLoop (target : Str) : List Str :=
  ["LDR R1 #2".toList, "loop SUBV R1 R1 #1".toList, "PRESENT R1 ".toList ++ target]

def lateUse : Use .ascii (lateLoop "$loop".toList) "loop".toList where
  before := ["LDR R1 #2".toList]
  line := "loop SUBV R1 R1 #1".toList
  after := ["PRESENT R1 $loop".toList]
  split := rfl
  defines := by decide +kernel
  once := by decide +kernel
  front := ["LDR R1 #2".toList, "SUBV R1 R1 #1".toList]
  branch := "PRESENT R1 $loop".toList
  rest := []
  uses := by decide +kernel
  op := .present
  operand := "$loop".toList
  isBranch := ⟨"PRESENT".toList, ["R1".toList, "$loop".toList], by decide +kernel, by decide +kernel, "R1".toList,
    by decide +kernel⟩
  names := .inr rfl

/-- The loop stands at word 2; `$loop` is taken for 1, `loop` for 0, and `JMP loop` ends the assembler. -/
theorem loop_missed :
    assemble .ascii (lateLoop "$loop".toList) = .ok [0x4010, 2, 0x4310, 1, 0x9C10, 1] ∧
      ¬ lateUse.Lands [0x4010, 2, 0x4310, 1, 0x9C10, 1] ∧
      assemble .ascii (lateLoop "loop".toList) = .ok [0x4010, 2, 0x4310, 1, 0x9C10, 0] ∧
      assemble .ascii ["loop NOOP".toList, "JMP loop".toList] = .error .unboundLocalError := by
  refine ⟨by decide +kernel, ?_, by decide +kernel, by decide +kernel⟩
  rintro ⟨w₁, w₂, hw, ht, -⟩
  have hwords : wordsOf .ascii (labelsOf .ascii (lateLoop "$loop".toList)) lateUse.branch = [0x9C10, 1] := by
    decide +kernel
  have htarget : lateUse.target = 2 := by decide +kernel
  rw [hwords] at hw
  cases hw
  rw [htarget] at ht
  exact absurd ht (by decide)

end Use
end Asm
end TdmaSoc
