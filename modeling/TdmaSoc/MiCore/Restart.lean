import TdmaSoc.MiCore.Refinement

/-!
# Resets in the middle of an instruction

The reset circuit acts one clock after `rst_l` goes low, so an instruction that has been decoded by then is still
executed: its third clock writes the registers, the condition bits and the internal RAM, while PC, SP and the signal
output register are already held at their initial values. An instruction that has not come so far leaves nothing.
`Phase` says where a run is between these cases.
-/

namespace TdmaSoc
namespace MiCore

/-- What whole instructions, with inputs that are in `P`, and restarts make of `a₀`. -/
inductive Arch.Reaches (lpm : Lpm) (rom : BitVec 10 → BitVec 32) (P : Input → Prop) (a₀ : Arch) : Arch → Prop
  | start : Reaches lpm rom P a₀ a₀
  | step {a : Arch} {first third : Input} (hfirst : P first) (hthird : P third) :
    Reaches lpm rom P a₀ a → Reaches lpm rom P a₀ (a.step lpm rom first third)
  | restart {a : Arch} : Reaches lpm rom P a₀ a → Reaches lpm rom P a₀ a.restart

/-- Registers, condition bits and internal RAM; a reset leaves them. -/
structure Agrees (m : MiCore) (a : Arch) : Prop where
  regs : m.regs = a.regs
  ccr : m.ccr = a.ccr
  ram : m.intRam.cells = a.ram

/-- The same state with the reset over. -/
def unreset (m : MiCore) : MiCore := { m with resetCircuit := .running }

def Input.high (i : Input) : Input := { i with rstL := true }

variable {lpm : Lpm} {rom : BitVec 10 → BitVec 32} {P : Input → Prop} {a a₀ : Arch} {m m' m₂ : MiCore}
  {ir : BitVec 32} {i i₀ i₁ : Input}

theorem unreset_eq (h : m.resetCircuit = .running) : m.unreset = m := by
  unfold unreset
  rw [← h]

theorem unreset_clock (h : m.resetCircuit = .running) (i : Input) :
    (m.clock lpm rom i).unreset = m.clock lpm rom i.high := by
  unfold unreset clock
  rw [h]
  rfl

theorem resetCircuit_clock (h : m.resetCircuit = .running) (i : Input) :
    (m.clock lpm rom i).resetCircuit = .running ∧ i.rstL = true ∨ (m.clock lpm rom i).resetCircuit.Resetting := by
  show m.resetCircuit.clock i.rstL = .running ∧ i.rstL = true ∨ (m.resetCircuit.clock i.rstL).Resetting
  rw [h]
  cases i.rstL with
  | false => exact .inr (ResetCircuit.clock_low _)
  | true => exact .inl ⟨rfl, rfl⟩

/-- Neither does the clock look at the reset for these, nor do they look at it. -/
theorem Agrees.of_unreset (h : (m.unreset.clock lpm rom i.high).Agrees a) : (m.clock lpm rom i).Agrees a :=
  ⟨h.regs, h.ccr, h.ram⟩

theorem Agrees.restart (h : (m.clock lpm rom i).Agrees a) (hreset : m.resetCircuit.Resetting) :
    (m.clock lpm rom i).arch = a.restart := by
  obtain ⟨-, hpc, hsp, hsor⟩ := clock_resetting lpm rom hreset i
  unfold MiCore.arch
  rw [hpc, hsp, hsor, h.regs, h.ccr, h.ram]
  rfl

/-- Fetching changes none of them. -/
theorem Agrees.clock_T0 (h : m.Agrees a) (hstate : m.state = .T0) (i : Input) : (m.clock lpm rom i).Agrees a := by
  have hsig : m.signals = decodeT0 := by
    unfold signals
    rw [hstate]
    rfl
  refine ⟨?_, ?_, ?_⟩
  · show (if m.signals.ldRf then _ else _) = _
    rw [hsig, ← h.regs]
    rfl
  · exact (ccrNext_of_keeps lpm (by rw [hsig]; exact ⟨rfl, rfl, rfl, rfl, rfl, rfl, rfl, rfl⟩)).trans h.ccr
  · exact (clock_cells_of_not_we (by rw [hsig]; rfl)).trans h.ram

/-- Where a run is: between two instructions, out of reset or in it, or in the second or the third clock of one, with
the reset perhaps under way. -/
inductive Phase (lpm : Lpm) (rom : BitVec 10 → BitVec 32) (P : Input → Prop) (a₀ : Arch) (m : MiCore) : Prop
  | idle {a : Arch} (hreach : a₀.Reaches lpm rom P a)
      (hreset : m.resetCircuit = .powerOn ∨ m.resetCircuit.Resetting) (hstate : m.state = .T0) (hagrees : m.Agrees a)
  | begun (hbegun : m.Begun) (hreach : a₀.Reaches lpm rom P m.arch)
  | fetched {m' : MiCore} {i₀ : Input} (hbegun : m'.Begun) (hreach : a₀.Reaches lpm rom P m'.arch)
      (hP : P i₀) (hi₀ : i₀.rstL = true)
      (hreset : m.resetCircuit = .running ∨ m.resetCircuit.Resetting)
      (hm : m.unreset = m'.clock lpm rom i₀)
  | decoded {m' : MiCore} {i₀ i₁ : Input} (hbegun : m'.Begun) (hreach : a₀.Reaches lpm rom P m'.arch)
      (hP : P i₀) (hi₀ : i₀.rstL = true) (hi₁ : i₁.rstL = true)
      (hreset : m.resetCircuit = .running ∨ m.resetCircuit.Resetting)
      (hm : m.unreset = (m'.clock lpm rom i₀).clock lpm rom i₁)

/-- A clock of the reset ends the instruction, and perhaps the reset. -/
theorem Phase.of_resetting (hreset : m.resetCircuit.Resetting) (hreach : a₀.Reaches lpm rom P a)
    (hagrees : (m.clock lpm rom i).Agrees a) : Phase lpm rom P a₀ (m.clock lpm rom i) := by
  have hstate := (clock_resetting lpm rom hreset i).1
  have hclock : (m.clock lpm rom i).resetCircuit = m.resetCircuit.clock i.rstL := rfl
  cases hrst : i.rstL with
  | false =>
    rw [hrst] at hclock
    refine .idle hreach (.inr ?_) hstate hagrees
    rw [hclock]
    exact ResetCircuit.clock_low _
  | true =>
    rw [hrst] at hclock
    rcases hreset.clock with ⟨-, hrunning⟩ | ⟨-, hresetting, -⟩
    · refine .begun ⟨hclock.trans hrunning, hstate⟩ ?_
      rw [hagrees.restart hreset]
      exact hreach.restart
    · rw [← hclock] at hresetting
      exact .idle hreach (.inr hresetting) hstate hagrees

theorem Latched.agrees (h : Latched m ir m₂) : m₂.Agrees m.arch := ⟨h.regs, h.ccr, h.cells⟩

theorem Phase.clock (h : Phase lpm rom P a₀ m) (hi : P i.high) : Phase lpm rom P a₀ (m.clock lpm rom i) := by
  cases h with
  | idle hreach hreset hstate hagrees =>
    have hagrees' : (m.clock lpm rom i).Agrees _ := hagrees.clock_T0 hstate i
    rcases hreset with hpower | hreset
    · refine .idle hreach ?_ ?_ hagrees'
      · show m.resetCircuit.clock i.rstL = _ ∨ (m.resetCircuit.clock i.rstL).Resetting
        rw [hpower]
        cases i.rstL with
        | false => exact .inr (ResetCircuit.clock_low _)
        | true => exact .inl rfl
      · show pulseDistributor m.resetCircuit m.state _ = _
        rw [hpower]
        exact hstate
    · exact .of_resetting hreset hreach hagrees'
  | begun hbegun hreach =>
    refine .fetched hbegun hreach hi rfl ?_ (unreset_clock hbegun.reset i)
    exact (resetCircuit_clock hbegun.reset i).imp And.left id
  | @fetched m' i₀ hbegun hreach hP hi₀ hreset hm =>
    rcases hreset with hrunning | hreset
    · rw [unreset_eq hrunning] at hm
      have hm' : (m.clock lpm rom i).unreset = (m'.clock lpm rom i₀).clock lpm rom i.high := by
        rw [unreset_clock hrunning, hm]
      exact .decoded hbegun hreach hP hi₀ rfl ((resetCircuit_clock hrunning i).imp And.left id) hm'
    · refine .of_resetting hreset hreach (Agrees.of_unreset ?_)
      rw [hm]
      exact (hbegun.latched lpm rom hi₀ rfl).agrees
  | @decoded m' i₀ i₁ hbegun hreach hP hi₀ hi₁ hreset hm =>
    obtain ⟨hnext, hstep⟩ := hbegun.step lpm rom i.high hi₀ hi₁ rfl
    have hreach' := hreach.step hP hi
    rw [← hstep] at hreach'
    have hagrees : (m.clock lpm rom i).Agrees (m.unreset.clock lpm rom i.high).arch := .of_unreset ⟨rfl, rfl, rfl⟩
    rw [← hm] at hnext hreach'
    rcases hreset with hrunning | hreset
    · have hunreset := unreset_eq hrunning
      rw [hunreset] at hnext hreach' hagrees
      rcases resetCircuit_clock hrunning i with ⟨-, hrst⟩ | hresetting
      · have hhigh : i.high = i := by
          unfold Input.high
          rw [← hrst]
        rw [hhigh] at hnext hreach'
        exact .begun hnext hreach'
      · refine .idle hreach' (.inr hresetting) ?_ hagrees
        exact hnext.state
    · exact .of_resetting hreset hreach' hagrees

/-- A reset never splits an instruction. Whenever one starts in a run from power-on, whatever `rst_l` has done before,
the state that the program sees is one that whole instructions and whole restarts lead to. -/
theorem whole_instructions (lpm : Lpm) (rom : BitVec 10 → BitVec 32) (m₀ : MiCore) (h₀ : m₀.PowerOn)
    (P : Input → Prop) (is : List Input) (hP : ∀ i ∈ is, P i.high) (hstart : ((machine lpm rom m₀).run is).Starts) :
    m₀.arch.Reaches lpm rom P ((machine lpm rom m₀).run is).arch := by
  have hphase : Phase lpm rom P m₀.arch ((machine lpm rom m₀).run is) := by
    clear hstart
    induction is using List.reverseRecOn with
    | nil => exact .idle .start (.inl h₀.1) h₀.2 ⟨rfl, rfl, rfl⟩
    | append_singleton is i ih =>
      rw [Machine.run_concat]
      have his := ih fun j hj => hP j (List.mem_append_left _ hj)
      exact his.clock (hP i (List.mem_append_right _ (List.mem_singleton_self i)))
  have hbegun := begun_of_starts h₀ is hstart
  cases hphase with
  | idle _ hreset =>
    rw [hbegun.reset] at hreset
    rcases hreset with hpower | hresetting
    · cases hpower
    · cases hresetting.sr
  | begun _ hreach => exact hreach
  | fetched hbegun' _ _ _ _ hm =>
    have hstate := (congrArg MiCore.state hm).trans (clock_state hbegun'.reset)
    rw [hbegun'.signals] at hstate
    cases hbegun.state.symm.trans hstate
  | decoded hbegun' _ _ hi₀ hi₁ _ hm =>
    have hstate := (congrArg MiCore.state hm).trans (hbegun'.latched lpm rom hi₀ hi₁).state
    cases hbegun.state.symm.trans hstate

/-- `rst_l` is low for one clock, and again in the second clock of the first instruction. -/
theorem whole_instructions_example :
    examplePowerOn.arch.Reaches exampleLpm exampleRom (· = exampleInput true)
      ((machine exampleLpm exampleRom examplePowerOn).run
        ([false, true, true, true, true, false, true, true, true, true].map exampleInput)).arch := by
  refine whole_instructions exampleLpm exampleRom examplePowerOn ⟨rfl, rfl⟩ _ _ (fun i hi => ?_)
    ⟨by decide +kernel, by decide +kernel⟩
  obtain ⟨b, -, rfl⟩ := List.mem_map.1 hi
  rfl

end MiCore
end TdmaSoc
