import TdmaSoc.Asm.Operands

/-!
# What a program says

The meaning of an assembly program by its text, without regard to how it is encoded: the operands stand where
the comments of `opcodes.vhd` have them, a number after `#` or `$` is meant as it is written, and a label is the
address of the instruction it stands before. `Source.run` runs the lines as they are written.
-/

namespace TdmaSoc

/-- What an operand stands for. -/
inductive Term
  | reg (r : BitVec 4)
  | imm (v : Word)
  | dir (v : Word)
deriving DecidableEq, Repr

namespace Term

def mode : Term → AddressMode
  | reg _ => .register
  | imm _ => .immediate
  | dir _ => .direct

/-- The register, or `R0`. -/
def register : Term → BitVec 4
  | reg r => r
  | _ => 0

/-- The number, or 0. -/
def word : Term → Word
  | reg _ => 0
  | imm v => v
  | dir v => v

/-- Where a jump goes. -/
def target : Term → Operand
  | reg r => .reg r
  | imm v => .value v
  | dir v => .value v

end Term

namespace Instruction
open Term

/-- `CLFZ`, `NOOP` -/
def means₀ (m : Str) : Option Instruction :=
  if m = "CLFZ".toList then some clfz
  else if m = "NOOP".toList then some noop
  else none

/-- `JMP target`, `SZ target`, `DATACALL Rx`, `SSOP Rx`, `LSIP Rz`, `STRPC $address` -/
def means₁ (m : Str) (t : Term) : Option Instruction :=
  if m = "JMP".toList then some (jmp t.target)
  else if m = "SZ".toList then
    match t with
    | reg _ => none
    | imm v => some (sz v)
    | dir v => some (sz v)
  else if m = "DATACALL".toList then
    match t with
    | reg x => some (datacall x (.reg 7))
    | _ => none
  else if m = "SSOP".toList then
    match t with
    | reg x => some (ssop x)
    | _ => none
  else if m = "LSIP".toList then
    match t with
    | reg z => some (lsip z)
    | _ => none
  else if m = "STRPC".toList then
    match t with
    | dir v => some (strpc v)
    | _ => none
  else none

/-- `LDR Rz op`, `STR Rz op` or `STR Rx $address`, `SUB Rz op`, `PRESENT Rz target`, `DATACALL2 Rx #value` -/
def means₂ (m : Str) (r : BitVec 4) (t : Term) : Option Instruction :=
  if m = "LDR".toList then
    match t with
    | reg x => some (load r (.reg x))
    | imm v => some (ldr r (.value v))
    | dir v => some (load r (.value v))
  else if m = "STR".toList then
    match t with
    | reg x => some (str (.reg r) (.reg x))
    | imm v => some (str (.reg r) (.value v))
    | dir v => some (str (.value v) (.reg r))
  else if m = "SUB".toList then
    match t with
    | reg y => some (alu .sub r (.reg r) (.reg y))
    | imm v => some (alu .sub r (.reg r) (.value v))
    | dir _ => none
  else if m = "PRESENT".toList then
    match t with
    | reg _ => none
    | imm v => some (present r v)
    | dir v => some (present r v)
  else if m = "DATACALL2".toList then
    match t with
    | imm v => some (datacall r (.value v))
    | _ => none
  else none

/-- The operation of `m Rz Rx op`. -/
def operation (m : Str) : Option AluOp :=
  if m = "ADD".toList then some .add
  else if m = "SUB".toList then some .sub
  else if m = "SUBV".toList then some .sub
  else if m = "AND".toList then some .and
  else if m = "OR".toList then some .or
  else none

def means₃ (m : Str) (z x : BitVec 4) (t : Term) : Option Instruction :=
  match t with
  | reg y => (operation m).map fun op => alu op z (.reg x) (.reg y)
  | imm v => (operation m).map fun op => alu op z (.reg x) (.value v)
  | dir _ => none

/-- What a mnemonic says with its operands. -/
def means (m : Str) : List Term → Option Instruction
  | [] => means₀ m
  | [t] => means₁ m t
  | [reg r, t] => means₂ m r t
  | [reg z, reg x, t] => means₃ m z x t
  | _ => none

end Instruction

/-- The state of a processor out of reset. -/
def Arch.boot (mem : BitVec 12 → Word) : Arch := ⟨0, fun _ => 0, false, mem, 0, 0⟩

namespace Asm
variable (py : Python)

/-- The number of words before the last definition of `key`. -/
def address (key : Str) : List Str → Option Nat
  | [] => none
  | line :: rest =>
    match address key rest with
    | some n => some (((lineInstr py line).toList.map (lineWords py)).sum + n)
    | none => if lineLabel py line = some key then some 0 else none

variable (asmLines : List Str)

/-- What an operand stands for, if it is a register, a number of 16 bits or a label of the program. -/
def term (o : Str) : Option Term :=
  match operandKind py o with
  | .register n => (n.filter fun n => 0 ≤ n ∧ n ≤ 15).map fun n => .reg (BitVec.ofInt 4 n)
  | .literal v =>
    (v.filter fun v => -32768 ≤ v ∧ v ≤ 65535).map fun v =>
      if detectAddrMode o = .immediate then .imm (BitVec.ofInt 16 v) else .dir (BitVec.ofInt 16 v)
  | .label key => ((address py key asmLines).filter (· < 65536)).map fun n => .dir (BitVec.ofNat 16 n)

def mnemonic (line : Str) : Str := py.strUpper ((parts py line).headD [])

def lineMeans (line : Str) : Option Instruction :=
  ((operandsOf py line).mapM (term py asmLines)).bind (Instruction.means (mnemonic py line))

/-- The instruction line whose words begin at `n`. -/
def lineAt : List Str → Nat → Option Str
  | [], _ => none
  | line :: rest, n =>
    if n = 0 then some line else if lineWords py line ≤ n then lineAt rest (n - lineWords py line) else none

namespace Source

/-- The line at the program counter, done as it is written. -/
def step (a : Arch) : Option Arch := do
  let line ← lineAt py (instrs py asmLines) a.pc.toNat
  let i ← lineMeans py asmLines line
  return i.exec (BitVec.ofNat 15 (lineWords py line)) a

def run : Nat → Arch → Option Arch
  | 0, a => some a
  | n + 1, a => (step py asmLines a).bind (run n)

variable {py asmLines} in
theorem step_of {a : Arch} {line : Str} {i : Instruction}
    (hline : lineAt py (instrs py asmLines) a.pc.toNat = some line) (hi : lineMeans py asmLines line = some i) :
    step py asmLines a = some (i.exec (BitVec.ofNat 15 (lineWords py line)) a) := by
  rw [step, hline, Option.bind_eq_bind, Option.bind_some, hi]
  rfl

variable {py asmLines} in
theorem run_succ (n : Nat) (a : Arch) : run py asmLines (n + 1) a = (run py asmLines n a).bind (step py asmLines) := by
  induction n generalizing a with
  | zero =>
    show (step py asmLines a).bind (run py asmLines 0) = step py asmLines a
    cases step py asmLines a <;> rfl
  | succ n ih =>
    rw [run]
    cases ha : step py asmLines a with
    | none =>
      rw [run, ha]
      rfl
    | some b =>
      rw [Option.bind_some, ih, run, ha]
      rfl

variable {py asmLines} in
theorem run_of_steps {n : Nat} {a : Nat → Arch} (h : ∀ i < n, step py asmLines (a i) = some (a (i + 1))) {i : Nat}
    (hi : i ≤ n) : run py asmLines i (a 0) = some (a i) := by
  induction i with
  | zero => rfl
  | succ i ih =>
    rw [run_succ, ih (by omega), Option.bind_some]
    exact h i hi

end Source

/-! ### Where the assembler does what a line says -/

/-- A label is written with `$`, and as many lines as words stand before it. -/
def Resolves (o : Str) : OperandKind → Prop
  | .label key => o = '$' :: key ∧ position py key asmLines = address py key asmLines
  | .register _ => True
  | .literal _ => True

instance (o : Str) : (k : OperandKind) → Decidable (Resolves py asmLines o k)
  | .label _ => instDecidableAnd
  | .register _ => instDecidableTrue
  | .literal _ => instDecidableTrue

/-- The operands are in the fields that the processor takes them from. -/
def Encodable (m : Str) : Instruction → Prop
  | .alu op z (.reg x) (.value _) => x = if op = .sub ∧ m = "SUB".toList then z else 0
  | .alu op z (.reg x) (.reg _) => op ≠ .sub ∧ x = z
  | .alu _ _ (.value _) _ => False
  | .jmp (.value _) => False
  | .datacall x _ => x = 0
  | .ssop x => x = 0
  | _ => True

instance (m : Str) : (i : Instruction) → Decidable (Encodable m i)
  | .alu op z (.reg x) (.value _) => inferInstanceAs (Decidable (x = if op = .sub ∧ m = "SUB".toList then z else 0))
  | .alu op z (.reg x) (.reg _) => inferInstanceAs (Decidable (op ≠ .sub ∧ x = z))
  | .alu _ _ (.value _) _ => instDecidableFalse
  | .jmp (.value _) => instDecidableFalse
  | .jmp (.reg _) => instDecidableTrue
  | .datacall x _ => inferInstanceAs (Decidable (x = 0))
  | .ssop x => inferInstanceAs (Decidable (x = 0))
  | .ldr .. => instDecidableTrue
  | .load .. => instDecidableTrue
  | .str .. => instDecidableTrue
  | .strpc _ => instDecidableTrue
  | .present .. => instDecidableTrue
  | .sz _ => instDecidableTrue
  | .clfz => instDecidableTrue
  | .lsip _ => instDecidableTrue
  | .noop => instDecidableTrue

/-- The line has a meaning, and the assembler keeps it. -/
def Sound (line : Str) : Prop :=
  (∃ i ∈ lineMeans py asmLines line, Encodable (mnemonic py line) i) ∧
    ∀ o ∈ operandsOf py line, Resolves py asmLines o (operandKind py o)

instance (line : Str) : Decidable (Sound py asmLines line) := instDecidableAnd

end Asm
end TdmaSoc
