import TdmaSoc.ReCOP.Refinement

/-!
# Writing twice

The write enables rise with the first clock of `T3` and fall with the first of `T0`, so each of them is up at two
edges. Nothing that an instruction writes is among the sources of its own second write (`Arch.strobe_strobe`), but for
the program counter, which has moved on between the two: an instruction that stores it stores two words.
-/

namespace TdmaSoc

/-- The enables under which the registers, the data memory, DPCR, SOP and Z are written. -/
structure Strobes where
  rfWrite : Bool
  dmWrite : Bool
  dpcrWriteFlag : Bool
  sopWrite : Bool
  aluClrZFlag : Bool
deriving DecidableEq, Repr

def Strobes.none : Strobes := ⟨false, false, false, false, false⟩

namespace ControlUnit
variable {c : ControlUnit} {irOpcode : BitVec 8} {g e z : Bool} {o : BitVec 6}

def strobes (c : ControlUnit) : Strobes := ⟨c.rfWrite, c.dmWrite, c.dpcrWriteFlag, c.sopWrite, c.aluClrZFlag⟩

theorem Quiet.strobes (h : c.Quiet) : c.strobes = .none := by
  rw [ControlUnit.strobes, h.rfWrite, h.dmWrite, h.dpcrWriteFlag, h.sopWrite, h.aluClrZFlag]
  rfl

/-- Only the clocks of `T3` raise enables. -/
theorem Quiet.clock (h : c.Quiet) (hs : c.state ≠ .T3) : (c.clock irOpcode g e z).Quiet := by
  have hd : c.defaults.Quiet := ⟨rfl, h.dmWrite, h.rfWrite, rfl, rfl, rfl, rfl⟩
  have hprocess : (c.opcodeProcess irOpcode g e z).Quiet := by
    rw [opcodeProcess]
    cases hstate : c.state with
    | T0 => exact ⟨rfl, rfl, rfl, rfl, rfl, rfl, rfl⟩
    | T1 => cases g <;> exact ⟨rfl, h.dmWrite, h.rfWrite, rfl, rfl, rfl, rfl⟩
    | T2 => exact hd.tickT2
    | T3 => exact absurd hstate hs
  exact ⟨hprocess.1, hprocess.2, hprocess.3, hprocess.4, hprocess.5, hprocess.6, hprocess.7⟩

/-- An instruction that writes the register file raises no other enable. -/
theorem Quiet.tickT3_rfWrite (h : c.Quiet) (hrf : (c.tickT3 o e z).rfWrite = true) :
    (c.tickT3 o e z).dmWrite = false ∧ (c.tickT3 o e z).dpcrWriteFlag = false ∧
      (c.tickT3 o e z).sopWrite = false := by
  have hnot : c.rfWrite ≠ true := by rw [h.rfWrite]; exact Bool.false_ne_true
  rcases Opcode.cases o with (rfl | rfl | rfl | rfl | rfl | rfl | rfl | rfl | rfl | rfl) |
    (rfl | rfl | rfl | rfl | rfl | rfl) | hother
  case inr.inr =>
    simp only [tickT3, decodeT3, hother, or_self, if_false] at hrf ⊢
    exact ⟨h.dmWrite, h.dpcrWriteFlag, h.sopWrite⟩
  all_goals first | exact ⟨h.dmWrite, h.dpcrWriteFlag, h.sopWrite⟩ | exact absurd hrf hnot

/-- What an instruction stores is the program counter only for `STRPC`, and for `STR` in the inherent mode, which stores
what the instruction before has selected. -/
theorem Quiet.stores_pc (h : c.Quiet) {am : BitVec 2} (hdm : ((c.tickT2 am o).tickT3 o e z).dmWrite = true)
    (hsel : ((c.tickT2 am o).tickT3 o e z).dmSelIn = dmSelInPc) :
    o = Opcode.strpc ∨ o = Opcode.str ∧ am = amInherent := by
  have hnot : c.dmWrite ≠ true := by rw [h.dmWrite]; exact Bool.false_ne_true
  have hvalue : dmSelInValue ≠ dmSelInPc := by decide
  have hrx : dmSelInRx ≠ dmSelInPc := by decide
  rcases Opcode.cases o with (rfl | rfl | rfl | rfl | rfl | rfl | rfl | rfl | rfl | rfl) |
    (rfl | rfl | rfl | rfl | rfl | rfl) | hother
  case inr.inr =>
    simp only [tickT3, decodeT3, hother, or_self, if_false] at hdm
    rw [h.tickT2.dmWrite] at hdm
    cases hdm
  case inr.inl.inr.inr.inl => exact .inl rfl
  case inl.inr.inr.inr.inr.inr.inr.inl =>
    rcases am_cases am with rfl | rfl | rfl | rfl
    · exact .inr ⟨rfl, rfl⟩
    · exact absurd hsel hvalue
    · exact absurd hsel hrx
    · exact absurd hsel hrx
  all_goals rcases am_cases am with rfl | rfl | rfl | rfl <;> exact absurd hdm hnot

theorem dmSelAddr_tickT2 (c : ControlUnit) (am : BitVec 2) (o : BitVec 6) (h : c.dmSelAddr ≠ dmSelAddrPc) :
    (c.tickT2 am o).dmSelAddr ≠ dmSelAddrPc := by
  have hvalue : dmSelAddrValue ≠ dmSelAddrPc := by decide
  have hrx : dmSelAddrRx ≠ dmSelAddrPc := by decide
  have hrz : dmSelAddrRz ≠ dmSelAddrPc := by decide
  rcases Opcode.cases o with (rfl | rfl | rfl | rfl | rfl | rfl | rfl | rfl | rfl | rfl) |
    (rfl | rfl | rfl | rfl | rfl | rfl) | hother
  case inr.inr =>
    simp only [tickT2, decodeT2, hother, or_self, if_false]
    exact h
  all_goals rcases am_cases am with rfl | rfl | rfl | rfl <;> first | exact h | exact hvalue | exact hrx | exact hrz

/-- The program counter is never selected as an address of the data memory. -/
theorem dmSelAddr_clock (h : c.dmSelAddr ≠ dmSelAddrPc) : (c.clock irOpcode g e z).dmSelAddr ≠ dmSelAddrPc := by
  rw [clock, opcodeProcess]
  cases c.state with
  | T0 => exact h
  | T1 => cases g <;> exact h
  | T2 => exact dmSelAddr_tickT2 c.defaults _ _ h
  | T3 =>
    obtain ⟨_, _, _, _, _, _, _, _, hd⟩ := tickT3_frame c.defaults (irOpcode.slice 0 6) e z
    show (c.defaults.tickT3 _ _ _).dmSelAddr ≠ _
    rw [hd]
    exact h

end ControlUnit

namespace Arch
variable {q : ControlUnit} {z x : BitVec 4} {v r : Word} {read : BitVec 12}

/-- The second write of the same enables changes nothing outside the data memory. -/
theorem strobe_strobe (h : q.rfWrite = true → q.dmWrite = false ∧ q.dpcrWriteFlag = false ∧ q.sopWrite = false)
    (z x : BitVec 4) (v r : Word) (read : BitVec 12) (a : Arch) (pc : BitVec 15) :
    let b : Arch := { a.strobe q z x v r read with pc := pc }
    (b.strobe q z x v r read).regs = b.regs ∧ (b.strobe q z x v r read).z = b.z ∧
      (b.strobe q z x v r read).dpcr = b.dpcr ∧ (b.strobe q z x v r read).sop = b.sop := by
  intro b
  have hz : (b.strobe q z x v r read).z = b.z := by
    show (if q.aluClrZFlag then false else if q.aluClrZFlag then false else a.z) = if q.aluClrZFlag then false else a.z
    split <;> rfl
  have hreg : ∀ b : Arch, (⟨(b.strobe q z x v r read).dpcr, (b.strobe q z x v r read).sop⟩ : Registers) =
      Registers.clock (b.regs 7) (b.regs x) v q.dpcrSel q.dpcrWriteFlag q.sopWrite ⟨b.dpcr, b.sop⟩ := fun _ => rfl
  suffices hkeep : (b.strobe q z x v r read).regs = b.regs ∧
      (⟨(b.strobe q z x v r read).dpcr, (b.strobe q z x v r read).sop⟩ : Registers) = ⟨b.dpcr, b.sop⟩ from
    ⟨hkeep.1, hz, congrArg Registers.dpcr hkeep.2, congrArg Registers.sop hkeep.2⟩
  cases hrf : q.rfWrite
  · have hregs : b.regs = a.regs := regs_strobe_of_not (x := x) hrf a
    refine ⟨regs_strobe_of_not hrf b, ?_⟩
    rw [hreg, hregs, show (⟨b.dpcr, b.sop⟩ : Registers) = _ from hreg a, registers_clock_clock]
  · obtain ⟨hdm, hdpcr, hsop⟩ := h hrf
    have hmem : b.mem = a.mem := show (a.strobe q z x v r read).mem = a.mem from mem_strobe_of_not hdm a
    constructor
    · -- the memory shows the same word, the ALU holds its result
      show (if q.rfWrite then _ else _) = if q.rfWrite then _ else _
      rw [hrf, hmem]
      show Function.update (if q.rfWrite then _ else _) z _ = _
      rw [hrf]
      exact Function.update_idem ..
    · rw [hreg, hdpcr, hsop]
      rfl

/-- The second write to the data memory is to the same cell, with the same word unless that is the program counter. -/
theorem mem_strobe_strobe (haddr : q.dmSelAddr ≠ dmSelAddrPc) (h : q.rfWrite = true → q.dmWrite = false)
    (z x : BitVec 4) (v r : Word) (read : BitVec 12) (a : Arch) (pc : BitVec 15) :
    let b : Arch := { a.strobe q z x v r read with pc := pc }
    (¬ (q.dmWrite = true ∧ q.dmSelIn = dmSelInPc) → (b.strobe q z x v r read).mem = b.mem) ∧
      (q.dmWrite = true → q.dmSelIn = dmSelInPc → ∃ cell,
        b.mem = Function.update a.mem cell ((0 : BitVec 1) ++ a.pc) ∧
          (b.strobe q z x v r read).mem = Function.update a.mem cell ((0 : BitVec 1) ++ pc)) := by
  intro b
  cases hdm : q.dmWrite
  · exact ⟨fun _ => mem_strobe_of_not hdm b, fun hw => Bool.noConfusion hw⟩
  · have hregs : b.regs = a.regs := by
      refine regs_strobe_of_not (x := x) ?_ a
      by_contra hrf
      rw [h (by simpa using hrf)] at hdm
      cases hdm
    have hcell : ∀ pc', dataMemInAddr q.dmSelAddr v pc' (a.regs x) (a.regs z) =
        dataMemInAddr q.dmSelAddr v a.pc (a.regs x) (a.regs z) := by
      intro pc'
      unfold dataMemInAddr
      rw [if_neg haddr, if_neg haddr]
    have hfirst : b.mem = Function.update a.mem (dataMemInAddr q.dmSelAddr v a.pc (a.regs x) (a.regs z))
        (dataMemInData q.dmSelIn v a.pc (a.regs x)) := by
      show (if q.dmWrite then _ else _) = _
      rw [hdm]
      rfl
    have hsecond : (b.strobe q z x v r read).mem =
        Function.update a.mem (dataMemInAddr q.dmSelAddr v a.pc (a.regs x) (a.regs z))
          (dataMemInData q.dmSelIn v pc (a.regs x)) := by
      show (if q.dmWrite then Function.update b.mem (dataMemInAddr q.dmSelAddr v pc (b.regs x) (b.regs z))
        (dataMemInData q.dmSelIn v pc (b.regs x)) else b.mem) = _
      rw [hdm, if_pos rfl, hregs, hcell, hfirst, Function.update_idem]
    constructor
    · intro hpc
      have hdata : dataMemInData q.dmSelIn v pc (a.regs x) = dataMemInData q.dmSelIn v a.pc (a.regs x) := by
        unfold dataMemInData
        rw [if_neg fun hsel => hpc ⟨rfl, hsel⟩, if_neg fun hsel => hpc ⟨rfl, hsel⟩]
      rw [hsecond, hfirst, hdata]
    · intro _ hsel
      refine ⟨dataMemInAddr q.dmSelAddr v a.pc (a.regs x) (a.regs z), hfirst.trans ?_, hsecond.trans ?_⟩
      · rw [hsel]
        rfl
      · rw [hsel]
        rfl

end Arch

namespace Recop
variable {rom : ProgMem} {s s₀ : Recop} {a : Arch} {t : Nat}

theorem dmSelAddr_after (rom : ProgMem) (s₀ : Recop) (t : Nat) : (s₀.after rom t).cu.dmSelAddr ≠ dmSelAddrPc := by
  induction t with
  | zero => exact show dmSelAddrValue ≠ dmSelAddrPc by decide
  | succ t ih =>
    rw [after_succ, cu_clock]
    exact ControlUnit.dmSelAddr_clock ih

/-- What the second write finds and leaves. -/
theorem Written.second {q : ControlUnit} {r w v : Word} (rom : ProgMem) (h : s.Written q r w v a)
    (hrf : q.rfWrite = true → q.dmWrite = false ∧ q.dpcrWriteFlag = false ∧ q.sopWrite = false)
    (haddr : q.dmSelAddr ≠ dmSelAddrPc) :
    (s.clock rom).regs = s.regs ∧ (s.clock rom).reg.dpcr = s.reg.dpcr ∧ (s.clock rom).reg.sop = s.reg.sop ∧
      (s.clock rom).zFlag = s.zFlag ∧
      (¬ (q.dmWrite = true ∧ q.dmSelIn = dmSelInPc) → (s.clock rom).dm.cells = s.dm.cells) ∧
      (q.dmWrite = true → q.dmSelIn = dmSelInPc → ∃ cell,
        s.dm.cells = Function.update a.mem cell ((0 : BitVec 1) ++ a.pc) ∧
          (s.clock rom).dm.cells = Function.update a.mem cell ((0 : BitVec 1) ++ (s.clock rom).pc.pcOut)) := by
  obtain ⟨m, hex⟩ := h.executing
  have hfirst := hex.arch
  have hsecond := (h.sampled rom).arch
  have hpc : (s.clock rom).pc.pcOut = a.nextPc q w.rx v := congrArg Arch.pc hsecond
  obtain ⟨hregs, hz, hdpcr, hsop⟩ := Arch.strobe_strobe hrf w.rz w.rx v r
    (dataMemInAddr q.dmSelAddr v a.pc (a.regs w.rx) (a.regs w.rz)) a (a.nextPc q w.rx v)
  obtain ⟨hmem, hstore⟩ := Arch.mem_strobe_strobe haddr (fun h => (hrf h).1) w.rz w.rx v r
    (dataMemInAddr q.dmSelAddr v a.pc (a.regs w.rx) (a.regs w.rz)) a (a.nextPc q w.rx v)
  refine ⟨?_, ?_, ?_, ?_, fun hnot => ?_, fun hdm hsel => ?_⟩
  · exact (congrArg Arch.regs hsecond).trans (hregs.trans (congrArg Arch.regs hfirst).symm)
  · exact (congrArg Arch.dpcr hsecond).trans (hdpcr.trans (congrArg Arch.dpcr hfirst).symm)
  · exact (congrArg Arch.sop hsecond).trans (hsop.trans (congrArg Arch.sop hfirst).symm)
  · exact (congrArg Arch.z hsecond).trans (hz.trans (congrArg Arch.z hfirst).symm)
  · exact (congrArg Arch.mem hsecond).trans ((hmem hnot).trans (congrArg Arch.mem hfirst).symm)
  · obtain ⟨cell, hone, htwo⟩ := hstore hdm hsel
    rw [hpc]
    exact ⟨cell, (congrArg Arch.mem hfirst).trans hone, (congrArg Arch.mem hsecond).trans htwo⟩

/-- The last clocks of an instruction: the enables stay down until the clock before the last, are up with the first
write and still up before the second. -/
theorem Sampled.strobes (rom : ProgMem) (h : s.Sampled a) :
    ∃ q r b, (∀ k, k + 2 < (rom a.pc).cycles → ((Recop.clock rom)^[k] s).cu.Quiet) ∧
      ((Recop.clock rom)^[(rom a.pc).cycles - 2] s).cu.strobes = q.strobes ∧
      ((Recop.clock rom)^[(rom a.pc).cycles - 1] s).Written q r (rom a.pc) (rom.operand a.pc) b ∧
      (q.rfWrite = true → q.dmWrite = false ∧ q.dpcrWriteFlag = false ∧ q.sopWrite = false) ∧
      (q.dmWrite = true → q.dmSelIn = dmSelInPc →
        (rom a.pc).opcode = Opcode.strpc ∨ (rom a.pc).opcode = Opcode.str ∧ (rom a.pc).am = amInherent) ∧
      b.mem = a.mem ∧ b.pc = a.pc := by
  obtain ⟨d, hd, hdec⟩ := h.fetch rom
  obtain ⟨e, he, hlatched⟩ := hdec.latched rom
  obtain ⟨g, hg, -, hwritten⟩ := hlatched.written rom
  have hraised := hlatched.raised rom
  have hsteps := (hd.mono fun _ h => h.busy).trans (he.mono fun _ h => h.busy)
  obtain ⟨hlast, -⟩ := iterate_cycles (hsteps.trans (hg.mono fun _ h => h.busy))
  have hcycles := (rom a.pc).cycles_eq
  have hfirst : (s.clock rom).cu.Quiet := h.quiet.clock (by rcases h.start with hs | hs <;> rw [hs] <;> decide)
  have hfetch : ∀ k ≤ if (rom a.pc).Long then 8 else 6, ((Recop.clock rom)^[k] (s.clock rom)).cu.Quiet := by
    intro k hk
    refine hd.keeps_at (I := fun x => x.cu.Quiet) hfirst (fun x hx hq => hq.clock ?_) hk
    rw [hx.state]
    exact CuState.noConfusion
  generalize (if (rom a.pc).Long then 8 else 6) = n at *
  have hd' : (Recop.clock rom)^[n] (s.clock rom) = d := hd.iterate_eq
  have he' : (Recop.clock rom)^[n + 2] (s.clock rom) = e := hsteps.iterate_eq
  have hquiet : ∀ k ≤ n + 2, ((Recop.clock rom)^[k] (s.clock rom)).cu.Quiet := by
    intro k hk
    by_cases hkn : k ≤ n
    · exact hfetch k hkn
    · -- the two clocks of `T2`
      have hT2 : (d.clock rom).cu.Quiet := hdec.quiet.clock (by rw [hdec.state]; exact CuState.noConfusion)
      obtain rfl | rfl : k = n + 1 ∨ k = n + 2 := by omega
      · rw [Function.iterate_succ_apply', hd']
        exact hT2
      · rw [Function.iterate_succ_apply', Function.iterate_succ_apply', hd']
        refine hT2.clock ?_
        show d.cu.nextState ≠ _
        rw [hdec.nextState]
        exact CuState.noConfusion
  rw [← hlast] at hwritten
  refine ⟨_, _, _, ?_, ?_, hwritten, ?_, ?_, rfl, rfl⟩
  · intro k hk
    cases k with
    | zero => exact h.quiet
    | succ k => exact hquiet k (by omega)
  · rw [show (rom a.pc).cycles - 2 = n + 2 + 1 + 1 by omega, Function.iterate_succ_apply, Function.iterate_succ_apply',
      he', hraised.cu]
    rfl
  · exact hlatched.quiet.tickT3_rfWrite
  · exact hdec.quiet.stores_pc

/-- Every enable that an instruction raises is up at two edges, and the second finds the registers, DPCR, SOP and Z
as it leaves them, and the data memory too, unless the instruction stores the program counter: then the word at one
cell is the program counter first and the next one after. -/
theorem writes_twice (rom : ProgMem) (s₀ : Recop) (t : Nat) (ht : s₀.FirstT0 rom t) :
    let w := rom (s₀.sample rom t).pc
    let first := s₀.after rom (t + w.cycles)
    let second := s₀.after rom (t + w.cycles + 1)
    (∀ u, t < u → u + 1 < t + w.cycles → (s₀.after rom u).cu.strobes = .none) ∧
      (s₀.after rom (t + w.cycles - 1)).cu.strobes = first.cu.strobes ∧ second.cu.strobes = .none ∧
      second.regs = first.regs ∧ second.reg.dpcr = first.reg.dpcr ∧ second.reg.sop = first.reg.sop ∧
      second.zFlag = first.zFlag ∧
      (¬ (first.cu.dmWrite = true ∧ first.cu.dmSelIn = dmSelInPc) → second.dm.cells = first.dm.cells) ∧
      (first.cu.dmWrite = true → first.cu.dmSelIn = dmSelInPc →
        (w.opcode = Opcode.strpc ∨ w.opcode = Opcode.str ∧ w.am = amInherent) ∧
          ∃ cell,
            first.dm.cells = Function.update (s₀.sample rom t).mem cell ((0 : BitVec 1) ++ (s₀.sample rom t).pc) ∧
            second.dm.cells =
              Function.update (s₀.sample rom t).mem cell ((0 : BitVec 1) ++ (s₀.sample rom (t + w.cycles)).pc)) := by
  intro w first second
  obtain ⟨q, r, b, hquiet, hraised, hwritten, hrf, hstore, hmem, hpc⟩ := ht.sampled.strobes rom
  change ∀ k, k + 2 < w.cycles → _ at hquiet
  have hn := w.twelve_le_cycles
  have hfirst : (Recop.clock rom)^[w.cycles - 1] (s₀.after rom (t + 1)) = first := by
    rw [← after_add, show t + 1 + (w.cycles - 1) = t + w.cycles by omega]
  have hbefore : (Recop.clock rom)^[w.cycles - 2] (s₀.after rom (t + 1)) = s₀.after rom (t + w.cycles - 1) := by
    rw [← after_add, show t + 1 + (w.cycles - 2) = t + w.cycles - 1 by omega]
  have hsecond : second = first.clock rom := after_succ ..
  change Written q r w _ b ((Recop.clock rom)^[w.cycles - 1] _) at hwritten
  change ((Recop.clock rom)^[w.cycles - 2] _).cu.strobes = _ at hraised
  rw [hfirst] at hwritten
  rw [hbefore] at hraised
  obtain ⟨m, hex⟩ := hwritten.executing
  have hcu : first.cu = (q.withMode m).fsmProcess .T0 := hex.cu
  have haddr : q.dmSelAddr ≠ dmSelAddrPc := by
    have := dmSelAddr_after rom s₀ (t + w.cycles)
    change first.cu.dmSelAddr ≠ _ at this
    rw [hcu] at this
    exact this
  obtain ⟨hregs, hdpcr, hsop, hz, hsame, hpcs⟩ := hwritten.second rom hrf haddr
  have hpc' : (first.clock rom).pc.pcOut = (s₀.sample rom (t + w.cycles)).pc := by rw [← hsecond]; rfl
  rw [hmem, hpc, hpc'] at hpcs
  rw [hsecond, hcu]
  refine ⟨?_, hraised, (hwritten.sampled rom).quiet.strobes, hregs, hdpcr, hsop, hz, hsame, ?_⟩
  · intro u hlt hle
    have hq := hquiet (u - (t + 1)) (by omega)
    rw [← after_add, show t + 1 + (u - (t + 1)) = u by omega] at hq
    exact hq.strobes
  · intro hdm hsel
    exact ⟨hstore hdm hsel, hpcs hdm hsel⟩

/-- `STRPC 5` -/
def strpcProgram : ProgMem := fun pc => if pc = 0 then 0b10_011101_0000_0000 else 5

theorem writes_twice_add :
    ((blank fun _ => 0).after addProgram 15).regs = ((blank fun _ => 0).after addProgram 14).regs :=
  (writes_twice addProgram (blank fun _ => 0) 0 ⟨rfl, fun u hu => absurd hu (Nat.succ_ne_zero u)⟩).2.2.2.1

/-- The first write of `STRPC` stores its own address and the second the next one. -/
theorem writes_differ :
    (blank fun _ => 0).FirstT0 strpcProgram 0 ∧
      ((blank fun _ => 0).after strpcProgram 13).cu.dmWrite = true ∧
      ((blank fun _ => 0).after strpcProgram 14).cu.dmWrite = true ∧
      ((blank fun _ => 0).after strpcProgram 14).dm.cells 5 = 0 ∧
      ((blank fun _ => 0).after strpcProgram 15).dm.cells 5 = 2 :=
  ⟨⟨rfl, fun u hu => absurd hu (Nat.succ_ne_zero u)⟩, rfl, rfl, rfl, rfl⟩

end Recop
end TdmaSoc
