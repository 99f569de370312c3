import TdmaSoc.Lib.PyStr
import TdmaSoc.ReCOP.Opcodes

/-!
# The assembler

`asm_to_mif.py`: a first pass collects the labels and the instruction lines, a second assembles the lines
one by one. An exception ends the program without output.
-/

namespace TdmaSoc

inductive AddressMode | inherent | immediate | direct | register
deriving DecidableEq, Repr

def AddressMode.bits : AddressMode → BitVec 2
  | inherent => 0b00
  | immediate => 0b01
  | direct => 0b10
  | register => 0b11

inductive AsmError
  /-- `raise Exception(text)` -/
  | exception (text : Str)
  /-- `int` cannot read a number. -/
  | valueError
  /-- A local variable is read before it is assigned. -/
  | unboundLocalError
  | indexError
deriving DecidableEq, Repr

namespace Asm

def opcodes : List (Str × BitVec 6) :=
  [("LDR".toList, 0b000000), ("STR".toList, 0b000010), ("JMP".toList, 0b011000), ("PRESENT".toList, 0b011100),
    ("AND".toList, 0b001000), ("OR".toList, 0b001100), ("ADD".toList, 0b111000), ("SUB".toList, 0b000100),
    ("SUBV".toList, 0b000011), ("CLFZ".toList, 0b010000), ("CER".toList, 0b111100), ("CEOT".toList, 0b111110),
    ("SEOT".toList, 0b111111), ("NOOP".toList, 0b110100), ("SZ".toList, 0b010100), ("LER".toList, 0b110110),
    ("SSVOP".toList, 0b111011), ("SSOP".toList, 0b111010), ("LSIP".toList, 0b110111),
    ("DATACALL".toList, 0b101000), ("DATACALL2".toList, 0b101001), ("MAX".toList, 0b011110),
    ("STRPC".toList, 0b011101), ("SRES".toList, 0b101010)]

/-- `labels`; the latest assignment comes first. -/
abbrev Labels := List (Str × Nat)

inductive Line
  | label (label rest : Str)
  | instr (line : Str)
deriving DecidableEq, Repr

def detectAddrMode : Str → AddressMode
  | '#' :: _ => .immediate
  | '$' :: _ => .direct
  | 'R' :: _ => .register
  | [] => .inherent
  | _ => .direct

/-- What `assemble_instruction` finds out about a line besides the opcode. -/
structure Fields where
  am : AddressMode
  rz : Int
  rx : Int
  operand : Int
deriving DecidableEq, Repr

def ends : List Str := ["ENDPROG".toList, "END".toList]

variable (py : Python)

def parseRegister : Str → Except AsmError Int
  | 'R' :: reg => match py.int reg with
    | some n => .ok n
    | none => .error .valueError
  | _ => .ok 0

def parseImmediate (val : Str) : Except AsmError Int :=
  match py.int0 (match val with | '#' :: rest => rest | _ => val) with
  | some n => .ok n
  | none => .error .valueError

def parseLine (line : Str) : Option Line :=
  let line := py.strip (line.takeWhile (· ≠ ';'))
  if line = [] then none
  else if ':' ∈ line then
    some (.label (py.strip (line.takeWhile (· ≠ ':'))) (py.strip ((line.dropWhile (· ≠ ':')).drop 1)))
  else match py.split line with
    | first :: second :: rest =>
      if py.isidentifier first ∧ opcodes.lookup (py.strUpper first) = none then
        some (.label (py.strip first) (py.strip ([' '].intercalate (second :: rest))))
      else some (.instr line)
    | _ => some (.instr line)

/-- `int(key) if key.isdigit() else labels.get(key, 0)` -/
def keyValue (labels : Labels) (key : Str) : Except AsmError Int :=
  if py.isdigit key then
    match py.int key with
    | some n => .ok n
    | none => .error .valueError
  else .ok ((labels.lookup key).getD 0)

/-- One operand, of a mnemonic other than `JMP`. -/
def oneOperand (labels : Labels) (o : Str) : Except AsmError Fields :=
  match detectAddrMode o with
  | .register => do return ⟨.register, ← parseRegister py o, 0, 0⟩
  | .immediate => do return ⟨.immediate, 0, 0, ← parseImmediate py o⟩
  | .direct => do return ⟨.direct, 0, 0, ← keyValue py labels (o.drop 1)⟩
  | .inherent => .ok ⟨.inherent, 0, 0, 0⟩

/-- `JMP` with one operand. `key` has no value where it is read. -/
def jmpOperand (o : Str) : Except AsmError Fields :=
  if ['R'].isPrefixOf o then do return ⟨.register, 0, ← parseRegister py o, 0⟩
  else .error .unboundLocalError

def twoOperands (labels : Labels) (mnemonic o₀ o₁ : Str) : Except AsmError Fields := do
  let rz ← parseRegister py o₀
  match detectAddrMode o₁ with
  | .register => return ⟨.register, rz, ← parseRegister py o₁, 0⟩
  | .immediate => return ⟨.immediate, rz, 0, ← parseImmediate py o₁⟩
  | .direct =>
    let operand ← keyValue py labels (o₁.drop 1)
    if mnemonic = "STR".toList then return ⟨.direct, 0, ← parseRegister py o₀, operand⟩
    else return ⟨.direct, rz, 0, operand⟩
  | .inherent => return ⟨.inherent, rz, 0, 0⟩

def threeRegs : List Str := ["ADD".toList, "SUB".toList, "SUBV".toList, "AND".toList, "OR".toList]

def threeOperands (labels : Labels) (mnemonic o₀ o₁ o₂ : Str) : Except AsmError Fields :=
  if mnemonic ∉ threeRegs then
    .error (.exception ("Instruction ".toList ++ mnemonic ++ " does not support three-register form".toList))
  else do
    let rz ← parseRegister py o₀
    let rx ← parseRegister py (if mnemonic ∈ threeRegs then o₂ else o₁)
    match detectAddrMode o₂ with
    | .immediate => return ⟨.immediate, rz, rx, ← parseImmediate py o₂⟩
    | .direct => return ⟨.direct, rz, rx, ← keyValue py labels (o₂.drop 1)⟩
    | am => return ⟨am, rz, rx, 0⟩

/-- The branches on the mnemonic and the number of operands. -/
def fields (labels : Labels) (mnemonic : Str) (ops : List Str) : Except AsmError Fields :=
  if mnemonic ∈ ["NOOP".toList, "END".toList, "ENDPROG".toList] then .ok ⟨.inherent, 0, 0, 0⟩
  else match ops with
    | [o] => if mnemonic = "JMP".toList then jmpOperand py o else oneOperand py labels o
    | [o₀, o₁] => twoOperands py labels mnemonic o₀ o₁
    | [o₀, o₁, o₂] => threeOperands py labels mnemonic o₀ o₁ o₂
    | _ => .ok ⟨.inherent, 0, 0, 0⟩

def Fields.Long (f : Fields) : Prop := f.am = .immediate ∨ f.am = .direct

instance (f : Fields) : Decidable f.Long := instDecidableOr

/-- `word1`, and `word2` for the modes that have it. The masks take the numbers modulo the fields' widths. -/
def Fields.words (opcode : BitVec 6) (f : Fields) : List Word :=
  let word1 : Word := f.am.bits ++ opcode ++ BitVec.ofInt 4 f.rz ++ BitVec.ofInt 4 f.rx
  if f.Long then [word1, BitVec.ofInt 16 f.operand] else [word1]

/-- The parameter `pc` is not used. -/
def assembleInstruction (parts : List Str) (labels : Labels) (_pc : Nat) : Except AsmError (List Word) :=
  match parts with
  | [] => .error .indexError
  | first :: ops =>
    let mnemonic := py.strUpper first
    match opcodes.lookup mnemonic with
    | none => .error (.exception ("Unknown opcode: ".toList ++ mnemonic))
    | some opcode => (fields py labels mnemonic (ops.filter (· ≠ []))).map (·.words opcode)

structure Collected where
  labels : Labels
  pc : Nat
  instructions : List Str

def collect (s : Collected) (line : Str) : Collected :=
  match parseLine py line with
  | none => s
  | some (.label label rest) =>
    if py.strUpper (py.strip rest) ∈ ends then { s with labels := (label, s.pc) :: s.labels }
    else if rest = [] then { s with labels := (label, s.pc) :: s.labels }
    else
      { labels := (label, s.pc) :: s.labels, pc := s.pc + 1, instructions := s.instructions ++ [rest] }
  | some (.instr line) =>
    if py.strUpper (py.strip line) ∈ ends then s
    else { s with pc := s.pc + 1, instructions := s.instructions ++ [line] }

/-- `re.split(r'[\\s,]+', line.strip())` -/
def parts (line : Str) : List Str := reSplit (fun c => py.isspace c || c == ',') (py.strip line)

/-- One turn of the second pass. -/
def assembleLine (labels : Labels) (pc : Nat) (line : Str) : Except AsmError (List Word) :=
  if line = [] then .ok []
  else match parts py line with
    | [] => .ok []
    | [] :: _ => .ok []
    | parts => assembleInstruction py parts labels pc

/-- The second pass, from `mif_words` on. -/
def emit (labels : Labels) : List Word → Nat → List Str → Except AsmError (List Word)
  | mifWords, _, [] => .ok mifWords
  | mifWords, pc, line :: rest => do
    let words ← assembleLine py labels pc line
    emit labels (mifWords ++ words) (pc + words.length) rest

/-- `assemble`, with the exception where the program exits. -/
def assemble (asmLines : List Str) : Except AsmError (List Word) :=
  let s := asmLines.foldl (collect py) ⟨[], 0, []⟩
  emit py s.labels [] 0 s.instructions

end Asm
end TdmaSoc
