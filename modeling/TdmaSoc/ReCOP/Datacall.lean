import TdmaSoc.ReCOP.Refinement

/-!
# DPCR

`DATACALL` and `DATACALL2` load DPCR in the last clock of `T3` and once more, with the same word, in the first
clock of `T0`. So DPCR holds from the end of the one instruction to the end of the other (`FirstT0.dpcr`), for at
least twelve clocks.
-/

namespace TdmaSoc
open Instruction

namespace ControlUnit
variable {c : ControlUnit} {irOpcode : BitVec 8} {g e z : Bool} {am : BitVec 2} {o : BitVec 6}

/-- DPCR is written after `T3` only. -/
theorem state_of_dpcrWriteFlag (h : (c.clock irOpcode g e z).dpcrWriteFlag = true) : c.state = .T3 := by
  have hT2 : ∀ c : ControlUnit, ∀ am o, (c.tickT2 am o).dpcrWriteFlag = c.dpcrWriteFlag := fun c am o => by
    obtain ⟨m, da, di, r, f, o1, o2, d, hd⟩ := tickT2_frame c am o
    rw [hd]
  rw [clock, opcodeProcess] at h
  cases hs : c.state <;> rw [hs] at h
  case T0 => cases h
  case T1 => cases g <;> cases h
  case T2 =>
    have h : (c.defaults.tickT2 _ _).dpcrWriteFlag = true := h
    rw [hT2] at h
    cases h

theorem nextState_of_T3 (h : c.state = .T3) : (c.clock irOpcode g e z).nextState = .T0 := by
  rw [clock, opcodeProcess, h]
  obtain ⟨m, r, rw, dw, dp, iq, so, cz, hd⟩ :=
    tickT3_frame c.defaults (irOpcode.slice 0 6) e z
  show (c.defaults.tickT3 _ _ _).nextState = _
  rw [hd]

theorem Quiet.tickT3_datacall (h : c.Quiet) (ho : o = Opcode.datacall ∨ o = Opcode.datacall2) :
    (c.tickT3 o e z).dpcrWriteFlag = true ∧ (c.tickT3 o e z).rfWrite = false := by
  rcases ho with rfl | rfl
  · exact ⟨rfl, h.rfWrite⟩
  · exact ⟨rfl, h.rfWrite⟩

theorem Quiet.tickT3_other (h : c.Quiet) (ho : ¬ (o = Opcode.datacall ∨ o = Opcode.datacall2)) :
    (c.tickT3 o e z).dpcrWriteFlag = false := by
  rcases Opcode.cases o with (rfl | rfl | rfl | rfl | rfl | rfl | rfl | rfl | rfl | rfl) |
    (rfl | rfl | rfl | rfl | rfl | rfl) | hother
  case inr.inl.inl => exact absurd (.inl rfl) ho
  case inr.inl.inr.inl => exact absurd (.inr rfl) ho
  case inr.inr =>
    simp only [tickT3, decodeT3, hother, or_self, if_false]
    exact h.dpcrWriteFlag
  all_goals exact h.dpcrWriteFlag

end ControlUnit

namespace Arch
variable {q : ControlUnit} {z x : BitVec 4} {v result : Word} {a : Arch}

/-- A second write finds the same words in the registers. -/
theorem dpcr_strobe_strobe (h : q.dpcrWriteFlag = true → q.rfWrite = false) (pc : BitVec 15) (read read' : BitVec 12) :
    (strobe q z x v result read { a.strobe q z x v result read' with pc := pc }).dpcr =
      (a.strobe q z x v result read').dpcr := by
  cases hd : q.dpcrWriteFlag with
  | false => exact dpcr_strobe_of_not hd _
  | true =>
    have hregs : (a.strobe q z x v result read').regs = a.regs := regs_strobe_of_not (h hd) a
    show (Registers.clock ((a.strobe q z x v result read').regs 7) ((a.strobe q z x v result read').regs x) v
      q.dpcrSel q.dpcrWriteFlag q.sopWrite _).dpcr = _
    rw [hregs]
    exact congrArg Registers.dpcr (registers_clock_clock ..)

end Arch

namespace Recop
variable {rom : ProgMem} {s s₀ : Recop} {a : Arch} {t u : Nat}

theorem exists_instruction (rom : ProgMem) (s₀ : Recop) (u : Nat) :
    ∃ t, s₀.FirstT0 rom t ∧ t ≤ u ∧ u < t + (rom (s₀.sample rom t).pc).cycles := by
  refine exists_segment (s₀.FirstT0 rom) (fun t => (rom (s₀.sample rom t).pc).cycles) ?_ ?_ ?_ u
  · exact ⟨rfl, fun u hu => absurd hu (Nat.succ_ne_zero u)⟩
  · exact fun t => Word.cycles_pos _
  · exact fun t ht => (next_sample ht ht.sampled).1

/-- The two writes at the end of an instruction leave the same word in DPCR. -/
theorem Sampled.dpcr (rom : ProgMem) (h : s.Sampled a) :
    ((Recop.clock rom)^[(rom a.pc).cycles - 1] s).reg.dpcr = ((Recop.clock rom)^[(rom a.pc).cycles] s).reg.dpcr := by
  obtain ⟨d, hd, hdec⟩ := h.fetch rom
  obtain ⟨g, hg, -, hquiet, hwritten⟩ := hdec.written rom
  obtain ⟨hlast, hend⟩ := iterate_cycles ((hd.mono fun _ h => h.busy).trans (hg.mono fun _ h => h.busy))
  rw [hlast, hend]
  obtain ⟨m, hg'⟩ := hwritten.executing
  have hfirst := congrArg Arch.dpcr hg'.arch
  have hsecond := congrArg Arch.dpcr (hwritten.sampled rom).arch
  refine hfirst.trans (Eq.trans ?_ hsecond.symm)
  refine (Arch.dpcr_strobe_strobe (fun hflag => ?_) _ _ _).symm
  by_contra hrf
  have ho : (rom a.pc).opcode = Opcode.datacall ∨ (rom a.pc).opcode = Opcode.datacall2 := by
    by_contra ho
    rw [hquiet.tickT3_other ho] at hflag
    cases hflag
  exact hrf (hquiet.tickT3_datacall ho).2

theorem FirstT0.exists_before (ht : s₀.FirstT0 rom t) (hpos : 0 < t) :
    ∃ τ, s₀.FirstT0 rom τ ∧ t = τ + (rom (s₀.sample rom τ).pc).cycles := by
  obtain ⟨τ, hτ, hle, hlt⟩ := exists_instruction rom s₀ (t - 1)
  refine ⟨τ, hτ, ?_⟩
  by_contra hne
  exact (next_sample hτ hτ.sampled).2.1 t (by omega) (by omega) ht

/-- At the first clock of `T0` DPCR holds what the instruction before has left. -/
theorem FirstT0.dpcr_sample (ht : s₀.FirstT0 rom t) : (s₀.after rom t).reg.dpcr = (s₀.sample rom t).dpcr := by
  rcases Nat.eq_zero_or_pos t with rfl | hpos
  · rw [sample, after_succ]
    rfl
  · obtain ⟨τ, hτ, rfl⟩ := ht.exists_before hpos
    have h := hτ.sampled.dpcr rom
    rw [← after_add, ← after_add] at h
    have hc : τ + 1 + ((rom (s₀.sample rom τ).pc).cycles - 1) = τ + (rom (s₀.sample rom τ).pc).cycles := by
      have := (rom (s₀.sample rom τ).pc).cycles_pos
      omega
    rw [hc, Nat.add_right_comm] at h
    exact h

/-- DPCR does not change before the end of an instruction. -/
theorem FirstT0.dpcr (ht : s₀.FirstT0 rom t) {k : Nat} (hk : k < (rom (s₀.sample rom t).pc).cycles) :
    (s₀.after rom (t + k)).reg.dpcr = (s₀.sample rom t).dpcr := by
  obtain ⟨-, hgap, -⟩ := next_sample ht ht.sampled
  induction k with
  | zero => exact ht.dpcr_sample
  | succ k ih =>
    rcases Nat.eq_zero_or_pos k with rfl | hpos
    · rfl
    have hquiet : (s₀.after rom (t + k)).cu.dpcrWriteFlag = false := by
      by_contra hflag
      -- the clock before was of `T3`, so the one after is of `T0`
      obtain ⟨j, rfl⟩ : ∃ j, k = j + 1 := ⟨k - 1, by omega⟩
      rw [← Nat.add_assoc, after_succ, cu_clock] at hflag
      have hT3 : (s₀.after rom (t + j)).cu.state = .T3 :=
        ControlUnit.state_of_dpcrWriteFlag (by simpa using hflag)
      have hT0 : (s₀.after rom (t + j + 1 + 1)).cu.state = .T0 := by
        rw [after_succ]
        show (s₀.after rom (t + j + 1)).cu.nextState = _
        rw [after_succ, cu_clock]
        exact ControlUnit.nextState_of_T3 hT3
      have hbefore : (s₀.after rom (t + j + 1)).cu.state = .T0 := by
        by_contra hne
        refine hgap (t + j + 1 + 1) (by omega) (by omega) ⟨hT0, fun u hu => ?_⟩
        rw [show u = t + j + 1 by omega]
        exact hne
      refine hgap (t + j + 1) (by omega) (by omega) ⟨hbefore, fun u hu => ?_⟩
      rw [show u = t + j by omega, hT3]
      exact CuState.noConfusion
    rw [← Nat.add_assoc, after_succ]
    show (if (s₀.after rom (t + k)).cu.dpcrWriteFlag then _ else _) = _
    rw [hquiet]
    exact ih (by omega)

/-- The instruction that starts in clock `t` loads `v` into DPCR. -/
def Loads (rom : ProgMem) (s₀ : Recop) (t : Nat) (v : BitVec 32) : Prop :=
  s₀.FirstT0 rom t ∧ ∃ rx low, rom.fetch (s₀.sample rom t).pc = some (.datacall rx low) ∧
    v = (s₀.sample rom t).regs rx ++ low.eval (s₀.sample rom t)

/-- The clock in which the instruction that starts in clock `t` is over. -/
def finish (rom : ProgMem) (s₀ : Recop) (t : Nat) : Nat := t + (rom (s₀.sample rom t).pc).cycles

variable {v : BitVec 32}

theorem Loads.sample_finish (h : Loads rom s₀ t v) : (s₀.sample rom (finish rom s₀ t)).dpcr = v := by
  obtain ⟨ht, rx, low, hi, rfl⟩ := h
  obtain ⟨-, hexec⟩ := ht.executes _ hi
  exact congrArg Arch.dpcr hexec

theorem firstT0_finish (ht : s₀.FirstT0 rom t) : s₀.FirstT0 rom (finish rom s₀ t) :=
  (next_sample ht ht.sampled).1

/-- An instruction loads DPCR or leaves it as it was. -/
theorem FirstT0.dpcr_finish (ht : s₀.FirstT0 rom t) :
    (s₀.sample rom (finish rom s₀ t)).dpcr = (s₀.sample rom t).dpcr ∨
      Loads rom s₀ t (s₀.sample rom (finish rom s₀ t)).dpcr := by
  by_cases ho : (rom (s₀.sample rom t).pc).opcode = Opcode.datacall ∨
      (rom (s₀.sample rom t).pc).opcode = Opcode.datacall2
  · obtain ⟨rx, low, hi⟩ : ∃ rx low, rom.fetch (s₀.sample rom t).pc = some (.datacall rx low) := by
      unfold ProgMem.fetch
      rcases ho with ho | ho <;> rw [ho]
      · exact ⟨_, _, rfl⟩
      · exact ⟨_, _, rfl⟩
    have hload : Loads rom s₀ t _ := ⟨ht, rx, low, hi, rfl⟩
    right
    rw [hload.sample_finish]
    exact hload
  · left
    obtain ⟨-, -, -, c, held, m, hexec, hq, -⟩ := next_sample ht ht.sampled
    show (s₀.sample rom (t + _)).dpcr = _
    rw [hexec]
    unfold Arch.execute Arch.writeBack
    dsimp only
    rw [Arch.dpcr_strobe_of_not (hq.tickT2.tickT3_other ho)]
    dsimp only
    rw [Arch.dpcr_strobe_of_not (hq.tickT2.tickT3_other ho)]
    rfl

/-- The instructions follow each other from clock 0 on. -/
theorem FirstT0.induction {C : Nat → Prop} (ht : s₀.FirstT0 rom t) (h0 : C 0)
    (hstep : ∀ τ, s₀.FirstT0 rom τ → C τ → C (Recop.finish rom s₀ τ)) : C t := by
  induction t using Nat.strongRecOn with
  | ind t ih =>
    rcases Nat.eq_zero_or_pos t with rfl | hpos
    · exact h0
    · obtain ⟨τ, hτ, hfinish⟩ := ht.exists_before hpos
      have hcycles := (rom (s₀.sample rom τ).pc).cycles_pos
      rw [show t = Recop.finish rom s₀ τ from hfinish]
      exact hstep τ hτ (ih τ (by omega) hτ)

/-- What an instruction has loaded stays for twelve clocks. -/
theorem Loads.dpcr (h : Loads rom s₀ t v) {k : Nat} (hk : k < 12) :
    (s₀.after rom (finish rom s₀ t + k)).reg.dpcr = v := by
  rw [(firstT0_finish h.1).dpcr (Nat.lt_of_lt_of_le hk (Word.twelve_le_cycles _)), h.sample_finish]

theorem Loads.finish_le {t' : Nat} {v' : BitVec 32} (h : Loads rom s₀ t v) (h' : Loads rom s₀ t' v') (hlt : t < t') :
    finish rom s₀ t + 12 ≤ finish rom s₀ t' := by
  have hle : finish rom s₀ t ≤ t' := by
    by_contra hgt
    exact (next_sample h.1 h.1.sampled).2.1 t' hlt (by unfold finish at hgt; omega) h'.1
  have := (rom (s₀.sample rom t').pc).twelve_le_cycles
  show _ ≤ t' + _
  omega

/-- DPCR holds 0 until an instruction loads it. -/
theorem dpcr_cases (rom : ProgMem) (s₀ : Recop) (u : Nat) :
    (s₀.after rom u).reg.dpcr = 0 ∨ ∃ t, Loads rom s₀ t (s₀.after rom u).reg.dpcr := by
  obtain ⟨t, ht, hle, hlt⟩ := exists_instruction rom s₀ u
  rw [show u = t + (u - t) by omega, ht.dpcr (by omega)]
  refine ht.induction (C := fun t => (s₀.sample rom t).dpcr = 0 ∨ ∃ τ, Loads rom s₀ τ (s₀.sample rom t).dpcr) ?_ ?_
  · left
    rw [sample, after_succ]
    rfl
  · intro τ hτ ih
    rcases hτ.dpcr_finish with hsame | hload
    · rw [hsame]
      exact ih
    · exact .inr ⟨τ, hload⟩

end Recop
end TdmaSoc
