import TdmaSoc.Asp.Peaks

/-!
# Valleys

What `PdAsp` does with the value that ends a fall. Every other value is counted, or ends a rise; this one is not, so
the count latched at a peak is one less than the number of values since the peak before. And `correlation_min`, which
starts at 0, is never above a valley.
-/

namespace TdmaSoc
namespace Detector
variable {d : Detector} {x : BitVec 36} {n : Nat}

/-- `n` values have come since the last peak, and the counter has missed the one that turned the slope. -/
def Counted (d : Detector) (n : Nat) : Prop :=
  d.lastSlopePos.toNat ≤ n ∧ d.counter = BitVec.ofNat 18 (n - d.lastSlopePos.toNat)

theorem counted_peak (d : Detector) (x : BitVec 36) : (d.peak x).Counted 0 := ⟨Nat.le_refl 0, rfl⟩

theorem Counted.keep (h : d.Counted n) : (d.keep x).Counted (n + 1) := by
  obtain ⟨hle, hcounter⟩ := h
  refine ⟨Nat.le_succ_of_le hle, ?_⟩
  show d.counter + 1 = BitVec.ofNat 18 (n + 1 - d.lastSlopePos.toNat)
  rw [hcounter, Nat.sub_add_comm hle, BitVec.ofNat_add]
  rfl

theorem Counted.valley (h : d.Counted n) (hfall : d.lastSlopePos = false) : (d.valley x).Counted (n + 1) := by
  obtain ⟨-, hcounter⟩ := h
  rw [hfall] at hcounter
  exact ⟨Nat.le_add_left 1 n, hcounter⟩

theorem Counted.step (h : d.Counted n) (hdet : d.detects x = false) : (d.step x).Counted (n + 1) := by
  unfold Detector.step
  split
  case isTrue hrise =>
    split
    case isTrue => exact h.keep
    case isFalse hfall =>
      rw [detects, hrise, decide_eq_false hfall] at hdet
      cases hdet
  case isFalse hfall =>
    split
    case isTrue => exact h.valley (Bool.eq_false_iff.2 hfall)
    case isFalse => exact h.keep

theorem correlationMin_step (h : d.correlationMin = 0) (x : BitVec 36) : (d.step x).correlationMin = 0 := by
  rcases d.step_cases x with ⟨-, hstep⟩ | ⟨-, hstep | hstep⟩
  · rw [hstep]
    exact h
  · rw [hstep]
    show (if d.currentCorrelationValue < d.correlationMin then _ else d.correlationMin) = 0
    rw [h]
    exact if_neg BitVec.not_lt_zero
  · rw [hstep]
    exact h

/-- Nothing is below the value that the minimum starts with. -/
theorem correlationMin_run (xs : List (BitVec 36)) : (machine.run xs).correlationMin = 0 :=
  Machine.always (M := machine) (I := fun d => d.correlationMin = 0) rfl (fun _ x hd => correlationMin_step hd x) xs

/-- `b` is below the values before and after it. -/
def IsValley (xs : List (BitVec 36)) (b : BitVec 36) : Prop :=
  ∃ pre a c post, xs = pre ++ a :: b :: c :: post ∧ b < a ∧ b < c

end Detector

namespace PdAsp
open Detector

/-- The count of the values that have come since a peak. -/
theorem counted_since {pre is : List TdmaMinPort} {recv : TdmaMinPort} (hpeak : (machine.run pre).detects recv = true)
    (h : NoPeak (pre ++ [recv]) is) :
    ∃ n, (delivered (pre ++ [recv] ++ is)).length = (delivered (pre ++ [recv])).length + n ∧
      (machine.run (pre ++ [recv] ++ is)).detector.Counted n := by
  induction is using List.reverseRecOn with
  | nil =>
    obtain ⟨x, -, hdet, -⟩ := run_of_detects hpeak
    rw [List.append_nil, hdet]
    exact ⟨0, rfl, counted_peak _ x⟩
  | append_singleton is r ih =>
    obtain ⟨his, hr⟩ := (noPeak_concat ..).1 h
    obtain ⟨n, hlen, hcount⟩ := ih his
    rw [← List.append_assoc]
    rcases run_cases (pre ++ [recv] ++ is) r with ⟨hsame, hkeep, -, -⟩ | ⟨x, hnew, hstep, hdet, -⟩
    · rw [hsame, hkeep]
      exact ⟨n, hlen, hcount⟩
    · rw [hr, ← (detector_run _).1] at hdet
      rw [hnew, hstep, List.length_append, hlen]
      exact ⟨n + 1, rfl, hcount.step hdet.symm⟩

/-- If the `k`-th and the `m`-th value end consecutive rises, the count latched with the second is `m - k - 2`: one
less than the number of values between them. -/
theorem count_between_peaks {pre is : List TdmaMinPort} {first second : TdmaMinPort}
    (hfirst : (machine.run pre).detects first = true) (hnone : NoPeak (pre ++ [first]) is)
    (hsecond : (machine.run (pre ++ [first] ++ is)).detects second = true) :
    let k := (delivered (pre ++ [first])).length
    let m := (delivered (pre ++ [first] ++ is ++ [second])).length
    let counterPrev := (machine.run (pre ++ [first] ++ is ++ [second])).counterPrev.toNat
    k + 2 ≤ m ∧ counterPrev = (m - k - 2) % 2 ^ 18 ∧ counterPrev ≠ (m - k - 1) % 2 ^ 18 := by
  obtain ⟨n, hlen, hle, hcounter⟩ := counted_since hfirst hnone
  obtain ⟨x, hnew, hpeak, hrise⟩ := run_of_detects hsecond
  rw [hrise] at hle hcounter
  have hprev : (machine.run (pre ++ [first] ++ is ++ [second])).counterPrev = BitVec.ofNat 18 (n - 1) :=
    (congrArg Detector.counterPrev hpeak).trans hcounter
  have hpos : 1 ≤ n := hle
  dsimp only
  rw [hprev, hnew, List.length_append, hlen, List.length_singleton, BitVec.toNat_ofNat]
  refine ⟨?_, ?_, ?_⟩
  · omega
  · congr 1
    omega
  · omega

/-- Of the values 5, 3, 4, 2 the second and the fourth end a rise; there is one value between them. -/
theorem count_between_peaks_none :
    (machine.run ((halves 5 ++ [CorAsp.halfPacket false 0] ++ [CorAsp.halfPacket true 3]) ++
      (halves 4 ++ [CorAsp.halfPacket false 0]) ++ [CorAsp.halfPacket true 2])).counterPrev.toNat = 0 :=
  (count_between_peaks (by decide +kernel) (by decide +kernel) (by decide +kernel)).2.1.trans (by decide +kernel)

theorem count_not_between_peaks :
    ¬ ∀ pre first is second, (delivered (pre ++ [first] ++ is ++ [second])).IsChain (· ≠ ·) →
      (machine.run pre).detects first = true → NoPeak (pre ++ [first]) is →
      (machine.run (pre ++ [first] ++ is)).detects second = true →
      (machine.run (pre ++ [first] ++ is ++ [second])).counterPrev.toNat =
        ((delivered (pre ++ [first] ++ is ++ [second])).length - (delivered (pre ++ [first])).length - 1) % 2 ^ 18 := by
  intro h
  have hone := h (halves 5 ++ [CorAsp.halfPacket false 0]) (CorAsp.halfPacket true 3)
    (halves 4 ++ [CorAsp.halfPacket false 0]) (CorAsp.halfPacket true 2) (by decide +kernel) (by decide +kernel)
    (by decide +kernel) (by decide +kernel)
  exact absurd hone (by decide +kernel)

/-- The recorded minimum is the smallest valley exactly if a valley has reached 0. -/
theorem correlationMin_isLeast_iff (is : List TdmaMinPort) :
    IsLeast {b | IsValley (delivered is) b} (machine.run is).correlationMin ↔ IsValley (delivered is) 0 := by
  have hmin : (machine.run is).correlationMin = 0 :=
    (congrArg Detector.correlationMin (detector_run is).1).trans (correlationMin_run _)
  rw [hmin]
  constructor
  · intro h
    exact h.1
  · intro h
    exact ⟨h, fun b _ => Nat.zero_le b.toNat⟩

/-- The values 5, 3 and 4 have the valley 3. -/
theorem correlationMin_not_valley :
    ¬ ∀ is, (delivered is).IsChain (· ≠ ·) → (∃ b, IsValley (delivered is) b) →
      IsLeast {b | IsValley (delivered is) b} (machine.run is).correlationMin := by
  intro h
  have hvalues : delivered (halves 5 ++ halves 3 ++ halves 4) = [5, 3, 4] := by decide +kernel
  obtain ⟨⟨pre, a, c, post, hxs, hlt, -⟩, -⟩ := h (halves 5 ++ halves 3 ++ halves 4)
    (by rw [hvalues]; decide) ⟨3, [], 5, 4, [], hvalues, by decide, by decide⟩
  have hmin : (machine.run (halves 5 ++ halves 3 ++ halves 4)).correlationMin = 0 := by decide +kernel
  rw [hvalues, hmin] at hxs
  have hzero : (0 : BitVec 36) ∈ pre ++ a :: 0 :: c :: post := by simp
  rw [← hxs] at hzero
  exact absurd hzero (by decide)

end PdAsp
end TdmaSoc
