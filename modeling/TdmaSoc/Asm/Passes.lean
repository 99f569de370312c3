import TdmaSoc.Asm.Encoding

/-!
# The two passes of the assembler

What each pass makes of a single source line, and the whole program as the sum of it. The first pass gives
a label the number of instruction lines before it, `position`; the second gives an instruction line the
words that its text asks for, `lineWords`.
-/

namespace TdmaSoc
namespace Asm
variable (py : Python)

/-! ### The two passes, line by line -/

def lineLabel (line : Str) : Option Str :=
  match parseLine py line with
  | some (.label label _) => some label
  | _ => none

/-- The instruction line that a source line contributes. -/
def lineInstr (line : Str) : Option Str :=
  match parseLine py line with
  | none => none
  | some (.label _ rest) => if py.strUpper (py.strip rest) ∈ ends ∨ rest = [] then none else some rest
  | some (.instr line) => if py.strUpper (py.strip line) ∈ ends then none else some line

def instrs (asmLines : List Str) : List Str := asmLines.filterMap (lineInstr py)

/-- The number of instruction lines before the last definition of `key`. -/
def position (key : Str) : List Str → Option Nat
  | [] => none
  | line :: rest =>
    match position key rest with
    | some n => some ((lineInstr py line).toList.length + n)
    | none => if lineLabel py line = some key then some 0 else none

/-- The words of an instruction whose last operand is `o`. -/
def operandWords (o : Str) : Nat :=
  if detectAddrMode o = .immediate ∨ detectAddrMode o = .direct then 2 else 1

def opsWords (mnemonic : Str) (ops : List Str) : Nat :=
  if mnemonic ∈ ["NOOP".toList, "END".toList, "ENDPROG".toList] then 1
  else match ops with
    | [o] => if mnemonic = "JMP".toList then 1 else operandWords o
    | [_, o] => operandWords o
    | [_, _, o] => operandWords o
    | _ => 1

/-- The words an instruction line takes, by its text. -/
def lineWords (line : Str) : Nat :=
  match parts py line with
  | [] => 0
  | [] :: _ => 0
  | first :: ops => opsWords (py.strUpper first) (ops.filter (· ≠ []))

variable {py}

theorem collect_eq (s : Collected) (line : Str) :
    collect py s line =
      { labels := ((lineLabel py line).map (·, s.pc)).toList ++ s.labels
        pc := s.pc + (lineInstr py line).toList.length
        instructions := s.instructions ++ (lineInstr py line).toList } := by
  rw [collect, lineLabel, lineInstr]
  cases parseLine py line with
  | none => simp
  | some l =>
    cases l with
    | label label rest =>
      by_cases he : py.strUpper (py.strip rest) ∈ ends
      · simp [he]
      · by_cases hr : rest = []
        · simp [hr]
        · simp [he, hr]
    | instr line =>
      by_cases he : py.strUpper (py.strip line) ∈ ends <;> simp [he]

theorem instructions_foldl (asmLines : List Str) (s : Collected) :
    (asmLines.foldl (collect py) s).instructions = s.instructions ++ instrs py asmLines := by
  induction asmLines generalizing s with
  | nil => exact (List.append_nil _).symm
  | cons line rest ih =>
    rw [List.foldl_cons, ih, collect_eq, instrs, instrs, List.filterMap_cons]
    cases lineInstr py line <;> simp

/-- The label table of the first pass. -/
theorem lookup_foldl (key : Str) (asmLines : List Str) (s : Collected) :
    (asmLines.foldl (collect py) s).labels.lookup key =
      ((position py key asmLines).map (s.pc + ·)).or (s.labels.lookup key) := by
  induction asmLines generalizing s with
  | nil => rfl
  | cons line rest ih =>
    rw [List.foldl_cons, ih, collect_eq, position]
    cases hp : position py key rest with
    | some n => simp [Nat.add_assoc]
    | none =>
      cases hl : lineLabel py line with
      | none => simp
      | some label =>
        by_cases hk : label = key
        · simp [hk]
        · simp [hk, List.lookup_cons, show (key == label) = false by simpa using Ne.symm hk]

/-- A label that one line defines stands after the instruction lines before it. -/
theorem position_of_once {label : Str} {before after : List Str} {line : Str}
    (hl : lineLabel py line = some label) (h : ∀ l ∈ before ++ after, lineLabel py l ≠ some label) :
    position py label (before ++ line :: after) = some (instrs py before).length := by
  have hafter : position py label after = none := by
    have h' : ∀ l ∈ after, lineLabel py l ≠ some label := fun l hm => h l (List.mem_append_right _ hm)
    clear h
    induction after with
    | nil => rfl
    | cons a as ih =>
      rw [position, ih fun l hm => h' l (List.mem_cons_of_mem _ hm)]
      exact if_neg (h' a List.mem_cons_self)
  induction before with
  | nil => rw [List.nil_append, position, hafter]; exact if_pos hl
  | cons b bs ih =>
    rw [List.cons_append, position, ih fun l hm => h l (List.mem_cons_of_mem _ hm), instrs, instrs,
      List.filterMap_cons]
    cases lineInstr py b <;> simp [Nat.add_comm]

/-- The operand word of an operand that is not a register. -/
def operandOf (py : Python) (labels : Labels) (o : Str) : Except AsmError Int :=
  match detectAddrMode o with
  | .immediate => parseImmediate py o
  | .direct => keyValue py labels (o.drop 1)
  | _ => .ok 0

theorem bind_eq_ok {α β : Type} {x : Except AsmError α} {f : α → Except AsmError β} {b : β} :
    x >>= f = .ok b ↔ ∃ a, x = .ok a ∧ f a = .ok b := by
  cases x with
  | error e =>
    refine ⟨fun h => ?_, ?_⟩
    · cases h
    · rintro ⟨_, h, _⟩
      cases h
  | ok a =>
    refine ⟨fun h => ⟨a, rfl, h⟩, ?_⟩
    rintro ⟨_, h, hf⟩
    cases h
    exact hf

variable {labels : Labels} {f : Fields}

theorem oneOperand_ok {o : Str} (h : oneOperand py labels o = .ok f) :
    f.am = detectAddrMode o ∧ operandOf py labels o = .ok f.operand := by
  rw [oneOperand] at h
  rw [operandOf]
  cases hd : detectAddrMode o <;> rw [hd] at h
  case inherent => cases h; exact ⟨rfl, rfl⟩
  all_goals
    obtain ⟨v, hv, hf⟩ := bind_eq_ok.1 h
    cases hf
  case register => exact ⟨rfl, rfl⟩
  all_goals exact ⟨rfl, hv⟩

theorem twoOperands_ok {m o₀ o₁ : Str} (h : twoOperands py labels m o₀ o₁ = .ok f) :
    f.am = detectAddrMode o₁ ∧ operandOf py labels o₁ = .ok f.operand := by
  rw [twoOperands] at h
  rw [operandOf]
  obtain ⟨rz, -, h⟩ := bind_eq_ok.1 h
  cases hd : detectAddrMode o₁ <;> rw [hd] at h
  case inherent => cases h; exact ⟨rfl, rfl⟩
  all_goals obtain ⟨v, hv, h⟩ := bind_eq_ok.1 h
  case immediate => cases h; exact ⟨rfl, hv⟩
  case register => cases h; exact ⟨rfl, rfl⟩
  case direct =>
    by_cases hm : m = "STR".toList
    · rw [if_pos hm] at h
      obtain ⟨x, -, h⟩ := bind_eq_ok.1 h
      cases h; exact ⟨rfl, hv⟩
    · rw [if_neg hm] at h
      cases h; exact ⟨rfl, hv⟩

theorem threeOperands_ok {m o₀ o₁ o₂ : Str} (h : threeOperands py labels m o₀ o₁ o₂ = .ok f) :
    f.am = detectAddrMode o₂ := by
  rw [threeOperands] at h
  split at h
  · cases h
  obtain ⟨rz, -, h⟩ := bind_eq_ok.1 h
  obtain ⟨rx, -, h⟩ := bind_eq_ok.1 h
  cases hd : detectAddrMode o₂ <;> rw [hd] at h
  case inherent | register => cases h; rfl
  all_goals
    obtain ⟨v, -, h⟩ := bind_eq_ok.1 h
    cases h; rfl

theorem jmpOperand_ok {o : Str} (h : jmpOperand py o = .ok f) : f.am = .register := by
  rw [jmpOperand] at h
  split at h
  · obtain ⟨v, -, h⟩ := bind_eq_ok.1 h
    cases h; rfl
  · cases h

theorem length_words (opcode : BitVec 6) (f : Fields) : (f.words opcode).length = if f.Long then 2 else 1 := by
  rw [Fields.words]; split <;> rfl

theorem assembleInstruction_ok {first : Str} {ops : List Str} {pc : Nat} {ws : List Word}
    (h : assembleInstruction py (first :: ops) labels pc = .ok ws) :
    ∃ opcode f, opcodes.lookup (py.strUpper first) = some opcode ∧
      fields py labels (py.strUpper first) (ops.filter (· ≠ [])) = .ok f ∧ ws = f.words opcode := by
  simp only [assembleInstruction] at h
  cases ho : opcodes.lookup (py.strUpper first) with
  | none => rw [ho] at h; cases h
  | some opcode =>
    rw [ho] at h
    cases hf : fields py labels (py.strUpper first) (ops.filter (· ≠ [])) with
    | error e => rw [hf] at h; cases h
    | ok f => rw [hf] at h; cases h; exact ⟨opcode, f, rfl, rfl, rfl⟩

theorem words_of_fields {m : Str} {ops : List Str} (h : fields py labels m ops = .ok f) :
    (if f.Long then 2 else 1) = opsWords m ops := by
  have hlong {o : Str} (h : f.am = detectAddrMode o) : (if f.Long then 2 else 1) = operandWords o := by
    rw [operandWords, ← h]; rfl
  rw [fields.eq_def] at h
  rw [opsWords.eq_def]
  by_cases hm : m ∈ ["NOOP".toList, "END".toList, "ENDPROG".toList]
  · rw [if_pos hm] at h ⊢
    cases h; rfl
  · rw [if_neg hm] at h ⊢
    match ops, h with
    | [], h => cases h; rfl
    | [o], h =>
      by_cases hj : m = "JMP".toList
      · simp only [hj, if_true] at h ⊢
        have hr := jmpOperand_ok h
        exact if_neg (by rw [Fields.Long, hr]; decide)
      · simp only [hj, if_false] at h ⊢
        exact hlong (oneOperand_ok h).1
    | [_, o], h => exact hlong (twoOperands_ok h).1
    | [_, _, o], h => exact hlong (threeOperands_ok h)
    | _ :: _ :: _ :: _ :: _, h => cases h; rfl

/-- The words of a line that assembles are as many as its text says. -/
theorem length_of_assembleLine {line : Str} {pc : Nat} {ws : List Word}
    (h : assembleLine py labels pc line = .ok ws) : ws.length = lineWords py line := by
  rw [assembleLine] at h
  split at h
  · next hl => cases h; rw [hl]; rfl
  · rw [lineWords]
    cases hp : parts py line with
    | nil => rw [hp] at h; cases h; rfl
    | cons first ops =>
      rw [hp] at h
      cases first with
      | nil => cases h; rfl
      | cons c cs =>
        obtain ⟨opcode, f, -, hf, rfl⟩ := assembleInstruction_ok h
        exact (length_words opcode f).trans (words_of_fields hf)

def wordsOf (py : Python) (labels : Labels) (line : Str) : List Word :=
  match assembleLine py labels 0 line with
  | .ok ws => ws
  | .error _ => []

theorem emit_ok {lines : List Str} {acc : List Word} {pc : Nat} {words : List Word}
    (h : emit py labels acc pc lines = .ok words) :
    (∀ line ∈ lines, assembleLine py labels 0 line = .ok (wordsOf py labels line)) ∧
      words = acc ++ lines.flatMap (wordsOf py labels) := by
  induction lines generalizing acc pc with
  | nil => cases h; exact ⟨nofun, (List.append_nil _).symm⟩
  | cons line rest ih =>
    obtain ⟨ws, hws, h⟩ := bind_eq_ok.1 h
    have hline : assembleLine py labels 0 line = .ok ws := hws
    have hof : wordsOf py labels line = ws := by rw [wordsOf, hline]
    obtain ⟨hall, hwords⟩ := ih h
    refine ⟨?_, ?_⟩
    · rintro l hl
      rcases List.mem_cons.1 hl with rfl | hl
      · rw [hof, hline]
      · exact hall l hl
    · rw [hwords, List.flatMap_cons, hof, List.append_assoc]

end Asm
end TdmaSoc
