import TdmaSoc.Asp.ADCAsp
import TdmaSoc.Lib.Machine

/-!
# The resolution of the samples

`bit_size` is assigned in every clock from the word received there, so a sample is marked with the resolution of a
configuration only in the clock after it: in all others it is marked as one of 10 bits. That is right for the samples
after a configuration that has bit 3 set.
-/

namespace TdmaSoc
namespace ADCAsp

/-- The ADC component with arbitrary words on the pins of the ADC and on the receive port. -/
def machine : Machine ADCAsp (BitVec 10 × TdmaMinPort) := ⟨init, fun s i => s.clock i.1 i.2⟩

/-- Bit 3 of the configuration received last, '0' if there is none. -/
def resolution (is : List (BitVec 10 × TdmaMinPort)) : Bool :=
  is.foldl (fun bit i => if isConfig i.2.data then i.2.data.getLsbD 3 else bit) false

theorem resolution_concat (is : List (BitVec 10 × TdmaMinPort)) (i : BitVec 10 × TdmaMinPort) :
    resolution (is ++ [i]) = if isConfig i.2.data then i.2.data.getLsbD 3 else resolution is := by
  rw [resolution, List.foldl_append]
  rfl

/-- A configuration is the last word received, or the last configuration has bit 3 set. -/
def Remembered (is : List (BitVec 10 × TdmaMinPort)) : Prop :=
  (∃ js i, is = js ++ [i] ∧ isConfig i.2.data = true) ∨ resolution is = true

/-- What is on the send port after the clock of `i`. -/
def sentBy (is : List (BitVec 10 × TdmaMinPort)) (i : BitVec 10 × TdmaMinPort) : TdmaMinData :=
  (machine.run (is ++ [i])).sendSignal.data

theorem getLsbD_samplePacket (b : Bool) (adc : BitVec 10) : (samplePacket b adc).data.getLsbD 11 = b := by
  rw [samplePacket, BitVec.getLsbD_setSlice, if_pos (by decide), if_neg (by decide), BitVec.getLsbD_setSlice,
    if_pos (by decide), if_pos (by decide)]
  cases b <;> rfl

/-- A word that is sent is a sample with the resolution bit of the clock before. -/
theorem sentBy_of_isSample {is : List (BitVec 10 × TdmaMinPort)} {i : BitVec 10 × TdmaMinPort}
    (h : isSample (sentBy is i) = true) :
    (machine.run is).expired = true ∧ (sentBy is i).getLsbD 11 = (machine.run is).bitSize := by
  have hsend : (machine.run (is ++ [i])).sendSignal =
      if (machine.run is).expired then samplePacket (machine.run is).bitSize i.1 else .idle := by
    rw [Machine.run_concat]
    rfl
  rw [sentBy, hsend] at h ⊢
  cases hexp : (machine.run is).expired
  · rw [hexp] at h
    cases h.symm.trans (isData_zero _)
  · exact ⟨rfl, getLsbD_samplePacket _ _⟩

/-- A sample is marked with the configured resolution exactly if a configuration came directly before it, or the
configured resolution is the one of 10 bits. -/
theorem resolution_iff_remembered {is : List (BitVec 10 × TdmaMinPort)} {i : BitVec 10 × TdmaMinPort}
    (h : isSample (sentBy is i) = true) : (sentBy is i).getLsbD 11 = resolution is ↔ Remembered is := by
  obtain ⟨hexp, hbit⟩ := sentBy_of_isSample h
  rw [hbit]
  cases is using List.reverseRecOn with
  | nil => cases hexp
  | append_singleton is j =>
    have hsize : (machine.run (is ++ [j])).bitSize = !(isConfig j.2.data && !j.2.data.getLsbD 3) := by
      rw [Machine.run_concat]
      rfl
    rw [hsize, Remembered, resolution_concat]
    cases hconfig : isConfig j.2.data
    · constructor
      · intro hres
        exact .inr hres.symm
      · rintro (⟨js, i', heq, hi'⟩ | hres)
        · obtain ⟨-, hj⟩ := List.append_inj' heq rfl
          obtain rfl := List.singleton_inj.1 hj
          cases hconfig.symm.trans hi'
        · exact hres.symm
    · constructor
      · intro _
        exact .inl ⟨is, j, rfl, hconfig⟩
      · intro _
        cases j.2.data.getLsbD 3 <;> rfl

/-- In a run the samples are all marked with the configured resolution exactly if each of them comes directly after a
configuration, or after one to 10 bits. -/
theorem run_resolution_iff (is : List (BitVec 10 × TdmaMinPort)) :
    (∀ js i, js ++ [i] <+: is → isSample (sentBy js i) = true → (sentBy js i).getLsbD 11 = resolution js) ↔
      ∀ js i, js ++ [i] <+: is → isSample (sentBy js i) = true → Remembered js := by
  constructor
  · intro h js i hpre hsample
    exact (resolution_iff_remembered hsample).1 (h js i hpre hsample)
  · intro h js i hpre hsample
    exact (resolution_iff_remembered hsample).2 (h js i hpre hsample)

/-- A sample every clock at 8 bits, configured once: the second sample after the configuration is marked as one of
10 bits. -/
theorem resolution_forgotten :
    ¬ ∀ is js i, js ++ [i] <+: is → isSample (sentBy js i) = true → (sentBy js i).getLsbD 11 = resolution js := by
  intro h
  have hsecond := h [(0, ⟨1, 0x90000000⟩), (0, .idle), (0, .idle)] [(0, ⟨1, 0x90000000⟩), (0, .idle)] (0, .idle)
    ⟨[], rfl⟩ (by decide +kernel)
  exact absurd hsecond (by decide +kernel)

end ADCAsp
end TdmaSoc
