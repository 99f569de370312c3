import TdmaSoc.ReCOP.Execute

/-!
# The processor and its instruction set
-/

namespace TdmaSoc
open Instruction

def AluOp.code : AluOp → BitVec 3
  | .and => aluAnd
  | .or => aluOr
  | .add => aluAdd
  | .sub => aluSub

namespace Arch
variable {c : ControlUnit} {am m : BitVec 2} {o : BitVec 6} {z x : BitVec 4} {v held : Word}

theorem execute_idle (h : (c.tickT2 am o).aluOperation = aluIdle) (a : Arch) :
    a.execute c am o z x v held =
      a.writeBack ((c.tickT2 am o).tickT3 o (rzEmpty (a.regs z)) a.z) z x v
        (a.result (c.tickT2 am o) z x v held) := by
  have hb : a.flagged (c.tickT2 am o) (a.result (c.tickT2 am o) z x v held) = a := by
    rw [flagged, h]; rfl
  rw [execute, hb]

theorem execute_alu (op : AluOp) {a : Arch} {r : Word} (h : (c.tickT2 am o).aluOperation = op.code)
    (hr : a.result (c.tickT2 am o) z x v held = r) :
    a.execute c am o z x v held =
      writeBack ((c.tickT2 am o).tickT3 o (rzEmpty (a.regs z)) (decide (r = 0))) z x v r
        { a with z := decide (r = 0) } := by
  have hb : a.flagged (c.tickT2 am o) r = { a with z := decide (r = 0) } := by
    rw [flagged, h]; cases op <;> rfl
  rw [execute, hr, hb]

theorem decode_unknown (h : (o ≠ Opcode.andr ∧ o ≠ Opcode.orr ∧ o ≠ Opcode.addr ∧ o ≠ Opcode.subvr ∧
      o ≠ Opcode.subr ∧ o ≠ Opcode.ldr ∧ o ≠ Opcode.str ∧ o ≠ Opcode.jmp ∧ o ≠ Opcode.present ∧ o ≠ Opcode.sz) ∧
      o ≠ Opcode.datacall ∧ o ≠ Opcode.datacall2 ∧ o ≠ Opcode.strpc ∧ o ≠ Opcode.clfz ∧ o ≠ Opcode.lsip ∧
      o ≠ Opcode.ssop) : decode am o z x v = some noop := by
  simp only [decode, h, if_false]

/-- The control unit takes every opcode it does not know for `NOOP`. -/
theorem execute_unknown (h : (o ≠ Opcode.andr ∧ o ≠ Opcode.orr ∧ o ≠ Opcode.addr ∧ o ≠ Opcode.subvr ∧
      o ≠ Opcode.subr ∧ o ≠ Opcode.ldr ∧ o ≠ Opcode.str ∧ o ≠ Opcode.jmp ∧ o ≠ Opcode.present ∧ o ≠ Opcode.sz) ∧
      o ≠ Opcode.datacall ∧ o ≠ Opcode.datacall2 ∧ o ≠ Opcode.strpc ∧ o ≠ Opcode.clfz ∧ o ≠ Opcode.lsip ∧
      o ≠ Opcode.ssop) (a : Arch) :
    ControlUnit.pcModeT1 am o m = ControlUnit.pcModeT1 am Opcode.noop m ∧
      decode am o z x v = some noop ∧
      a.execute c am o z x v held = a.execute c am Opcode.noop z x v held := by
  have h2 : c.tickT2 am o = c.tickT2 am Opcode.noop := by
    rw [ControlUnit.tickT2, ControlUnit.decodeT2]
    simp only [h, or_self, if_false]; rfl
  have h3 (p : ControlUnit) (e f : Bool) : p.tickT3 o e f = p.tickT3 Opcode.noop e f := by
    rw [ControlUnit.tickT3, ControlUnit.decodeT3]
    simp only [h, or_self, if_false]; rfl
  refine ⟨?_, ?_, ?_⟩
  · rw [ControlUnit.pcModeT1]
    simp only [h, if_false]; rfl
  · exact decode_unknown h
  · simp only [execute, h2, h3]

theorem execute_eq {i : Instruction} (hq : c.Quiet) (hi : decode am o z x v = some i)
    (hm : c.pcMode = ControlUnit.pcModeT1 am o m) (a : Arch) :
    a.execute c am o z x v held = i.exec (words am) a := by
  obtain ⟨st, ns, pw, pm, da, di, dw, ifs, rs, rw, ao, o1, o2, ds, dp, iq, so, cz⟩ := c
  obtain ⟨rfl, rfl, rfl, rfl, rfl, rfl, rfl⟩ := hq
  change pm = _ at hm
  subst hm
  rcases Opcode.cases o with (rfl | rfl | rfl | rfl | rfl | rfl | rfl | rfl | rfl | rfl) |
    (rfl | rfl | rfl | rfl | rfl | rfl) | h
  · rcases am_cases am with rfl | rfl | rfl | rfl <;> cases hi <;> rw [execute_alu .and rfl rfl] <;>
      exact Arch.ext rfl (Function.update_idem ..) rfl rfl rfl rfl
  · rcases am_cases am with rfl | rfl | rfl | rfl <;> cases hi <;> rw [execute_alu .or rfl rfl] <;>
      exact Arch.ext rfl (Function.update_idem ..) rfl rfl rfl rfl
  · rcases am_cases am with rfl | rfl | rfl | rfl <;> cases hi <;> rw [execute_alu .add rfl rfl] <;>
      exact Arch.ext rfl (Function.update_idem ..) rfl rfl rfl rfl
  · rcases am_cases am with rfl | rfl | rfl | rfl <;> cases hi <;> rw [execute_alu .sub rfl rfl] <;>
      exact Arch.ext rfl (Function.update_idem ..) rfl rfl rfl rfl
  · rcases am_cases am with rfl | rfl | rfl | rfl <;> cases hi <;> rw [execute_alu .sub rfl rfl] <;>
      exact Arch.ext rfl (Function.update_idem ..) rfl rfl rfl rfl
  · -- `LDR Rz Rz`: the memory still shows the word at the old address in the second write
    rcases am_cases am with rfl | rfl | rfl | rfl <;> cases hi <;> rw [execute_idle rfl] <;>
      exact Arch.ext rfl (Function.update_idem ..) rfl rfl rfl rfl
  · rcases am_cases am with rfl | rfl | rfl | rfl <;> cases hi <;> rw [execute_idle rfl] <;>
      exact Arch.ext rfl rfl rfl (Function.update_idem ..) rfl rfl
  · rcases am_cases am with rfl | rfl | rfl | rfl <;> cases hi <;> rw [execute_idle rfl] <;> rfl
  · cases hi
    rw [execute_idle rfl, rzEmpty, exec]
    by_cases hz : a.regs z = 0 <;> simp only [hz, decide_true, decide_false, if_true, if_false] <;> rfl
  · cases hi
    rw [execute_idle rfl]
    obtain ⟨pc, regs, zf, mem, dpcr, sop⟩ := a
    cases zf <;> rfl
  · rcases am_cases am with rfl | rfl | rfl | rfl <;> cases hi <;> rw [execute_idle rfl] <;> rfl
  · rcases am_cases am with rfl | rfl | rfl | rfl <;> cases hi <;> rw [execute_idle rfl] <;> rfl
  · -- the second write finds the program counter at the next instruction
    rcases am_cases am with rfl | rfl | rfl | rfl <;> cases hi <;> rw [execute_idle rfl] <;>
      exact Arch.ext rfl rfl rfl (Function.update_idem ..) rfl rfl
  · rcases am_cases am with rfl | rfl | rfl | rfl <;> cases hi <;> rw [execute_idle rfl] <;> rfl
  · rcases am_cases am with rfl | rfl | rfl | rfl <;> cases hi <;> rw [execute_idle rfl] <;>
      exact Arch.ext rfl (Function.update_idem ..) rfl rfl rfl rfl
  · rcases am_cases am with rfl | rfl | rfl | rfl <;> cases hi <;> rw [execute_idle rfl] <;> rfl
  · obtain ⟨hp, hd, he⟩ := execute_unknown h a
    cases hd.symm.trans hi
    rw [he, hp]
    rcases am_cases am with rfl | rfl | rfl | rfl <;> rw [execute_idle rfl] <;> rfl

end Arch

def Word.cycles (w : Word) : Nat := if w.Long then 14 else 12

/-- One clock of `T0`, the fetch, two clocks of `T2`, two of `T3`, and one of `T0` again. -/
theorem Word.cycles_eq (w : Word) : w.cycles = (if w.Long then 8 else 6) + 4 + 1 + 1 := by
  unfold cycles
  split <;> rfl

theorem Word.twelve_le_cycles (w : Word) : 12 ≤ w.cycles := by
  unfold cycles
  split <;> omega

theorem Word.cycles_pos (w : Word) : 0 < w.cycles := Nat.lt_of_lt_of_le (by omega) w.twelve_le_cycles

namespace Recop
variable (rom : ProgMem) (s₀ : Recop)

/-- Clock `t` after the reset is the first of `T0`. -/
def FirstT0 (t : Nat) : Prop :=
  (s₀.after rom t).cu.state = .T0 ∧ ∀ u, u + 1 = t → (s₀.after rom u).cu.state ≠ .T0

def sample (t : Nat) : Arch := (s₀.after rom (t + 1)).arch

theorem after_add (t k : Nat) : s₀.after rom (t + k) = (clock rom)^[k] (s₀.after rom t) := by
  rw [after, Nat.add_comm, Function.iterate_add_apply]; rfl

theorem after_succ (t : Nat) : s₀.after rom (t + 1) = (s₀.after rom t).clock rom := after_add rom s₀ t 1

variable {rom s₀}

theorem sampled_reset : ((s₀.reset).clock rom).Sampled (s₀.sample rom 0) where
  arch := by rw [sample, after_succ]; rfl
  quiet := ⟨rfl, rfl, rfl, rfl, rfl, rfl, rfl⟩
  aluOperation := rfl
  irFetchStart := rfl
  nextState := rfl
  start := .inr rfl
  fetchState := rfl
  nextFetchState := rfl
  instFetched := rfl

/-- After the first clock of an instruction, its fetch and its execution one clock is left. -/
theorem iterate_cycles {P : Recop → Prop} {s e : Recop} {w : Word}
    (h : Steps (Recop.clock rom) P ((if w.Long then 8 else 6) + 4) (s.clock rom) e) :
    (Recop.clock rom)^[w.cycles - 1] s = e ∧ (Recop.clock rom)^[w.cycles] s = e.clock rom := by
  have hend : (Recop.clock rom)^[(if w.Long then 8 else 6) + 4 + 1] s = e := h.iterate_eq
  rw [w.cycles_eq, Nat.add_sub_cancel]
  constructor
  · exact hend
  · rw [Function.iterate_succ_apply', hend]

/-- One instruction, whatever it is: when the next one starts and where that leaves the state. -/
theorem Sampled.instruction (rom : ProgMem) {a : Arch} {s : Recop} (h : s.Sampled a) :
    ∃ e c held m, Steps (Recop.clock rom) Busy ((if (rom a.pc).Long then 8 else 6) + 4) (s.clock rom) e ∧
      ¬ e.Busy ∧ (e.clock rom).Sampled
        (a.execute c (rom a.pc).am (rom a.pc).opcode (rom a.pc).rz (rom a.pc).rx (rom.operand a.pc) held) ∧
      c.Quiet ∧ c.pcMode = ControlUnit.pcModeT1 (rom a.pc).am (rom a.pc).opcode m := by
  obtain ⟨d, hd, hdec⟩ := h.fetch rom
  obtain ⟨e, he, hbusy, -, hwritten⟩ := hdec.written rom
  obtain ⟨m, hm⟩ := hdec.pcMode
  refine ⟨e, d.cu, d.aluResult, m, ?_, hbusy, hwritten.sampled rom, hdec.quiet, hm⟩
  exact (hd.mono fun _ h => h.busy).trans (he.mono fun _ h => h.busy)

theorem Sampled.exec {a : Arch} {s : Recop} {i : Instruction} (h : s.Sampled a) (hi : rom.fetch a.pc = some i) :
    ((Recop.clock rom)^[(rom a.pc).cycles] s).Sampled (i.exec (Instruction.words (rom a.pc).am) a) := by
  obtain ⟨e, c, held, m, hsteps, -, hnext, hq, hm⟩ := h.instruction rom
  rw [(iterate_cycles hsteps).2, ← Arch.execute_eq hq hi hm a]
  exact hnext

/-- A processor about to fetch in the state `a`. -/
def start (a : Arch) : Recop where
  cu := { ControlUnit.reset with nextState := .T1, state := .T1, irFetchStart := true }
  fetch := .reset
  ir := .reset
  pc := ⟨a.pc, false⟩
  regs := a.regs
  aluResult := 0
  zFlag := a.z
  progMemAddress := 0
  dm := ⟨a.mem, 0⟩
  reg := ⟨a.dpcr, a.sop⟩

theorem sampled_start (a : Arch) : (start a).Sampled a where
  arch := rfl
  quiet := ⟨rfl, rfl, rfl, rfl, rfl, rfl, rfl⟩
  aluOperation := rfl
  irFetchStart := rfl
  nextState := rfl
  start := .inr rfl
  fetchState := rfl
  nextFetchState := rfl
  instFetched := rfl

theorem next_sample {t : Nat} (ht : s₀.FirstT0 rom t) (hs : (s₀.after rom (t + 1)).Sampled (s₀.sample rom t)) :
    let w := rom (s₀.sample rom t).pc
    s₀.FirstT0 rom (t + w.cycles) ∧ (∀ u, t < u → u < t + w.cycles → ¬ s₀.FirstT0 rom u) ∧
      (s₀.after rom (t + w.cycles + 1)).Sampled (s₀.sample rom (t + w.cycles)) ∧
      ∃ c held m, s₀.sample rom (t + w.cycles) =
          (s₀.sample rom t).execute c w.am w.opcode w.rz w.rx (rom.operand (s₀.sample rom t).pc) held ∧
        c.Quiet ∧ c.pcMode = ControlUnit.pcModeT1 w.am w.opcode m := by
  intro w
  obtain ⟨e, c, held, m, hsteps, he, hnext, hq, hm⟩ := hs.instruction rom
  have hn := w.cycles_eq
  have hn1 : 0 < (if w.Long then 8 else 6) + 4 := by omega
  change Steps _ _ ((if w.Long then 8 else 6) + 4) _ _ at hsteps
  rw [← after_succ] at hsteps
  generalize (if w.Long then 8 else 6) + 4 = n at hsteps hn hn1
  have hbusy (k : Nat) (hk : k < n) : (s₀.after rom (t + 2 + k)).cu.state ≠ .T0 := by
    rw [after_add]; exact hsteps.get hk
  have hend : s₀.after rom (t + w.cycles) = e := by
    rw [hn, show t + (n + 2) = t + 2 + n by omega, after_add]; exact hsteps.iterate_eq
  have hnext' : (s₀.after rom (t + w.cycles + 1)).Sampled
      ((s₀.sample rom t).execute c w.am w.opcode w.rz w.rx (rom.operand (s₀.sample rom t).pc) held) := by
    rw [after_succ, hend]; exact hnext
  have hsample : s₀.sample rom (t + w.cycles) =
      (s₀.sample rom t).execute c w.am w.opcode w.rz w.rx (rom.operand (s₀.sample rom t).pc) held := hnext'.arch
  refine ⟨⟨?_, ?_⟩, ?_, ?_, c, held, m, hsample, hq, hm⟩
  · rw [hend]; exact not_not.1 he
  · intro u hu
    rw [show u = t + 2 + (n - 1) by omega]
    exact hbusy (n - 1) (by omega)
  · rintro u hlt hlt' ⟨hu, hfirst⟩
    by_cases h1 : u = t + 1
    · exact hfirst t h1.symm ht.1
    · rw [show u = t + 2 + (u - (t + 2)) by omega] at hu
      exact hbusy (u - (t + 2)) (by omega) hu
  · rw [hsample]; exact hnext'

/-- Clock `t` is a first clock of `T0` that ends in a sampled state. -/
structure Begins (rom : ProgMem) (s₀ : Recop) (t : Nat) : Prop where
  first : s₀.FirstT0 rom t
  sampled : (s₀.after rom (t + 1)).Sampled (s₀.sample rom t)

/-- Every first clock of `T0` ends in a sampled state. -/
theorem FirstT0.sampled {t : Nat} (ht : s₀.FirstT0 rom t) :
    (s₀.after rom (t + 1)).Sampled (s₀.sample rom t) := by
  obtain ⟨τ, ⟨hτ, hs⟩, hle, hlt⟩ := exists_segment (Begins rom s₀)
    (fun t => (rom (s₀.sample rom t).pc).cycles)
    ⟨⟨rfl, fun u hu => absurd hu (Nat.succ_ne_zero u)⟩, by rw [after_succ]; exact sampled_reset⟩
    (fun t => Word.cycles_pos _)
    (fun t h => by
      obtain ⟨hf, _, hs, _⟩ := next_sample h.first h.sampled
      exact ⟨hf, hs⟩) t
  obtain rfl | hne := hle.eq_or_lt
  · exact hs
  · exact absurd ht ((next_sample hτ hs).2.1 t hne hlt)

/-- An instruction ends in the next first clock of `T0`. -/
theorem FirstT0.executes {t : Nat} (ht : s₀.FirstT0 rom t) (i : Instruction)
    (hi : rom.fetch (s₀.sample rom t).pc = some i) :
    let w := rom (s₀.sample rom t).pc
    s₀.FirstT0 rom (t + w.cycles) ∧
      s₀.sample rom (t + w.cycles) = i.exec (Instruction.words w.am) (s₀.sample rom t) := by
  obtain ⟨hfirst, -, -, c, held, m, hexec, hq, hm⟩ := next_sample ht ht.sampled
  exact ⟨hfirst, hexec.trans (Arch.execute_eq hq hi hm _)⟩

/-- The processor refines the instruction set: from one first clock of `T0` to the next an instruction
takes 12 clocks, or 14 with an operand, and does in the architectural state what `exec` says. -/
theorem refines (rom : ProgMem) (s₀ : Recop) (t : Nat) (i : Instruction) (ht : s₀.FirstT0 rom t)
    (hi : rom.fetch (s₀.sample rom t).pc = some i) :
    let w := rom (s₀.sample rom t).pc
    s₀.FirstT0 rom (t + w.cycles) ∧ (∀ u, t < u → u < t + w.cycles → ¬ s₀.FirstT0 rom u) ∧
      s₀.sample rom (t + w.cycles) = i.exec (Instruction.words w.am) (s₀.sample rom t) := by
  obtain ⟨hfirst, hgap, _, c, held, m, hexec, hq, hm⟩ := next_sample ht ht.sampled
  exact ⟨hfirst, hgap, hexec.trans (Arch.execute_eq hq hi hm _)⟩

def addProgram : ProgMem := fun pc => if pc = 0 then 0b01_111000_0010_0001 else 5

theorem refines_add :
    (blank fun _ => 0).FirstT0 addProgram 14 ∧
      (∀ u, 0 < u → u < 14 → ¬ (blank fun _ => 0).FirstT0 addProgram u) ∧
      (blank fun _ => 0).sample addProgram 14 =
        (Instruction.alu .add 2 (.reg 1) (.value 5)).exec 2 ((blank fun _ => 0).sample addProgram 0) :=
  refines addProgram (blank fun _ => 0) 0 (.alu .add 2 (.reg 1) (.value 5))
    ⟨rfl, fun u hu => absurd hu (Nat.succ_ne_zero u)⟩ rfl

end Recop
end TdmaSoc
