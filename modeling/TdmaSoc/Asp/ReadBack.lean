import TdmaSoc.Asp.AvgAsp
import TdmaSoc.Lib.Machine

/-!
# Reading an average

A request latches its address in one clock, the memory shows the word there in the next and puts it into its
output register in the one after that. But the answer to a request is always sent in the second clock: the
request itself has cleared `avgReady`, so no new average can come before it. What it carries is the word at
the address that was latched before.
-/

namespace TdmaSoc
namespace AvgAspRAM

/-- The averaging component with arbitrary words on its receive port. -/
def machine : Machine AvgAspRAM TdmaMinPort := ⟨init, clock⟩

/-- A request arrives only after the one before it has been answered. -/
def Once (s : AvgAspRAM) (recv : TdmaMinPort) : Prop := isAvgRequest recv.data = true → s.readRequest = false

instance (s : AvgAspRAM) (recv : TdmaMinPort) : Decidable (Once s recv) := inferInstanceAs (Decidable (_ → _))

/-- After `is`, the word at `a` is `v` at some clock while the words `js` arrive. -/
def Held (a : BitVec 10) (v : BitVec 16) (is js : List TdmaMinPort) : Prop :=
  ∃ k ≤ js.length, (machine.run (is ++ js.take k)).ram.ram a = v

/-- The word at the latched address is the word at `a`, or the average that is about to be written there. -/
def Shows (s : AvgAspRAM) (a : BitVec 10) : Prop :=
  s.ram.ram s.ramRaddr = s.ram.ram a ∨
    s.ldr.avgReady = true ∧ s.ramWaddr = a ∧ s.ram.ram s.ramRaddr = s.ldr.avgData

instance (s : AvgAspRAM) (a : BitVec 10) : Decidable (s.Shows a) := instDecidableOr

variable {s : AvgAspRAM} {request : TdmaMinPort}

theorem avgReady_clock_request (hr : isAvgRequest request.data = true) : (s.clock request).ldr.avgReady = false := by
  obtain ⟨htype, hmode⟩ := isData_iff.1 hr
  show (s.ldr.clock request).avgReady = false
  rw [AvgAsp.avgReady_clock, AvgAsp.isConfig, AvgAsp.accepts, isSample, isData, htype, hmode]
  rfl

theorem ram_clock (s : AvgAspRAM) (recv : TdmaMinPort) (a : BitVec 10) :
    (s.clock recv).ram.ram a =
      if s.ldr.avgReady = true ∧ s.ramWaddr = a then s.ldr.avgData else s.ram.ram a := by
  show (if s.ldr.avgReady = true then Function.update s.ram.ram s.ramWaddr s.ldr.avgData else s.ram.ram) a = _
  cases s.ldr.avgReady
  · simp
  · by_cases ha : s.ramWaddr = a
    · subst ha; simp
    · simp [ha, Function.update_of_ne (Ne.symm ha)]

/-- Before the answer, no average goes out. -/
theorem send_request (hr : isAvgRequest request.data = true) (h : s.Once request) :
    isAvgData (s.clock request).sendSignal.data = false := by
  have hread : s.readRequest = false := h hr
  show isAvgData (if s.ldr.avgReady then addrPacket s.ramWaddr
    else if s.readRequest then dataPacket s.prevCorrCalculate s.ram.qReg else .idle).data = false
  rw [hread]
  split
  · exact isData_addrPacket 0b0011#4 _
  · exact isData_zero _

theorem send_answer (hr : isAvgRequest request.data = true) (h : s.Once request) (next : TdmaMinPort) :
    ∃ flag, ((s.clock request).clock next).sendSignal = dataPacket flag (s.ram.ram s.ramRaddr) := by
  have hread : (s.clock request).readRequest = true := by
    show (if s.answers then false else if isAvgRequest request.data then true else s.readRequest) = true
    rw [answers, h hr, hr, Bool.and_false]; rfl
  refine ⟨(s.clock request).prevCorrCalculate, ?_⟩
  show (if (s.clock request).ldr.avgReady then _ else if (s.clock request).readRequest then _ else _) = _
  rw [avgReady_clock_request hr, hread]
  rfl

theorem slice_dataPacket (flag : Bool) (q : BitVec 16) : (dataPacket flag q).data.slice 0 16 = q :=
  BitVec.slice_setSlice_same _ _ _ (by omega)

theorem held_iff {is : List TdmaMinPort} (hr : isAvgRequest request.data = true)
    (h : (machine.run is).Once request) (next : TdmaMinPort) (a : BitVec 10) :
    Held a ((machine.run (is ++ [request, next])).sendSignal.data.slice 0 16) is [request, next] ↔
      (machine.run is).Shows a := by
  have h1 : machine.run (is ++ [request]) = (machine.run is).clock request := machine.run_concat is request
  have h2 : machine.run (is ++ [request, next]) = ((machine.run is).clock request).clock next :=
    machine.run_append is [request, next]
  obtain ⟨flag, hsend⟩ := send_answer hr h next
  have hlast : (((machine.run is).clock request).clock next).ram.ram a =
      ((machine.run is).clock request).ram.ram a := by
    rw [ram_clock _ next, avgReady_clock_request hr]
    exact if_neg fun hw => Bool.noConfusion hw.1
  have hram := ram_clock (machine.run is) request a
  rw [h2, hsend, slice_dataPacket]
  unfold Shows
  constructor
  · rintro ⟨k, hk, hheld⟩
    have hk : k = 0 ∨ k = 1 ∨ k = 2 := by simp at hk; omega
    have hcase : (machine.run is).ram.ram a = (machine.run is).ram.ram (machine.run is).ramRaddr ∨
        ((machine.run is).clock request).ram.ram a = (machine.run is).ram.ram (machine.run is).ramRaddr := by
      rcases hk with rfl | rfl | rfl
      · rw [List.take_zero, List.append_nil] at hheld
        exact .inl hheld
      · exact .inr ((congrArg (·.ram.ram a) h1).symm.trans hheld)
      · exact .inr (hlast.symm.trans ((congrArg (·.ram.ram a) h2).symm.trans hheld))
    rcases hcase with hheld | hheld
    · exact .inl hheld.symm
    · rw [hram] at hheld
      split at hheld
      case isTrue hw => exact .inr ⟨hw.1, hw.2, hheld.symm⟩
      case isFalse => exact .inl hheld.symm
  · rintro (heq | ⟨hready, hw, heq⟩)
    · refine ⟨0, Nat.zero_le _, ?_⟩
      rw [List.take_zero, List.append_nil]
      exact heq.symm
    · refine ⟨1, by simp, (congrArg (·.ram.ram a) h1).trans ?_⟩
      rw [hram, if_pos ⟨hready, hw⟩]
      exact heq.symm

/-- The answer to a request for `a` is the first average that goes out after it, in the second clock. It
carries a word that `a` held between the two exactly if `Shows a` held when the request arrived. -/
theorem read_back (is : List TdmaMinPort) (request next : TdmaMinPort) (hr : isAvgRequest request.data = true)
    (h : machine.Along Once (is ++ [request])) :
    let answer := (machine.run (is ++ [request, next])).sendSignal.data
    isAvgData (machine.run (is ++ [request])).sendSignal.data = false ∧ isAvgData answer = true ∧
      (Held (request.data.slice 0 10) (answer.slice 0 16) is [request, next] ↔
        (machine.run is).Shows (request.data.slice 0 10)) := by
  have honce : (machine.run is).Once request := ((machine.along_concat Once is request).1 h).2
  refine ⟨?_, ?_, held_iff hr honce next _⟩
  · rw [machine.run_concat]
    exact send_request hr honce
  · obtain ⟨flag, hsend⟩ := send_answer hr honce next
    have hrun : machine.run (is ++ [request, next]) = ((machine.run is).clock request).clock next :=
      machine.run_append is [request, next]
    rw [hrun, hsend]
    exact isData_dataPacket 0b0011#4 ..

/-- Two samples of value 5, so that 5 is written to address 1, and an idle clock. -/
def exampleSamples : List TdmaMinPort := [⟨0, 0x80100805⟩, ⟨0, 0x80100805⟩, .idle, .idle]

def exampleRequest (a : BitVec 10) : TdmaMinPort := ⟨0, (dataWord 0b0010#4).setSlice 0 a⟩

/-- Asked for address 1 once more, the component answers with the 5 that is there. -/
theorem read_back_again :
    let is := exampleSamples ++ [exampleRequest 1, .idle, .idle]
    let answer := (machine.run (is ++ [exampleRequest 1, .idle])).sendSignal.data
    answer.slice 0 16 = 5#16 ∧ Held 1 (answer.slice 0 16) is [exampleRequest 1, .idle] :=
  ⟨by decide +kernel, (read_back (exampleSamples ++ [exampleRequest 1, .idle, .idle]) (exampleRequest 1) .idle
    (by decide) (by decide +kernel)).2.2.2 (by decide +kernel)⟩

/-- Address 1 is asked for and the word at address 0 is sent. -/
theorem read_back_other :
    machine.Along Once (exampleSamples ++ [exampleRequest 1]) ∧
      ¬ Held 1 ((machine.run (exampleSamples ++ [exampleRequest 1, .idle])).sendSignal.data.slice 0 16) exampleSamples
        [exampleRequest 1, .idle] := by
  refine ⟨by decide +kernel, ?_⟩
  rw [held_iff (by decide) (by decide +kernel)]
  decide +kernel

end AvgAspRAM
end TdmaSoc
