import Mathlib.Data.List.Chain
import Mathlib.Order.Bounds.Defs
import TdmaSoc.Asp.Detector
import TdmaSoc.Lib.Peaks

/-!
# Peaks

While no two neighbours among the values are equal, the slope bit of the detector tells a rise from a fall, so a peak
is detected with the first value after a rise that is below the one before: that one is a local maximum.
-/

namespace TdmaSoc
namespace Detector

variable {d : Detector} {x : BitVec 36} {xs : List (BitVec 36)}

/-- No two consecutive values are equal; the value before the first is 0. -/
def Distinct (xs : List (BitVec 36)) : Prop := (0#36 :: xs).IsChain (· ≠ ·)

theorem current_step (d : Detector) (x : BitVec 36) : (d.step x).currentCorrelationValue = x := by
  rcases d.step_cases x with ⟨-, h⟩ | ⟨-, h | h⟩
  · rw [h, peak]
  · rw [h, valley]
  · rw [h, keep]

theorem current_run {pre : List (BitVec 36)} {b : BitVec 36} (h : 0#36 :: xs = pre ++ [b]) :
    (machine.run xs).currentCorrelationValue = b := by
  cases xs using List.reverseRecOn with
  | nil =>
    have h' : [] ++ [0#36] = pre ++ [b] := h
    obtain ⟨-, hb⟩ := List.append_inj' h' rfl
    exact (List.cons.inj hb).1
  | append_singleton xs x =>
    have h' : (0#36 :: xs) ++ [x] = pre ++ [b] := h
    obtain ⟨-, hb⟩ := List.append_inj' h' rfl
    rw [Machine.run_concat, ← (List.cons.inj hb).1]
    exact current_step _ x

theorem current_run_two {pre : List (BitVec 36)} {a b : BitVec 36} (h : 0#36 :: xs = pre ++ [a, b]) :
    (machine.run xs).currentCorrelationValue = b := by
  have h' : 0#36 :: xs = (pre ++ [a]) ++ [b] := by
    rw [h, List.append_assoc]
    rfl
  exact current_run h'

/-- Two different values make a slope, whatever the slope before them. -/
theorem lastSlopePos_step (h : d.currentCorrelationValue ≠ x) :
    (d.step x).lastSlopePos = decide (d.currentCorrelationValue < x) := by
  unfold step
  rcases Bool.eq_false_or_eq_true d.lastSlopePos with hl | hl
  · rw [if_pos hl]
    split
    case isTrue hgt => exact hl.trans (decide_eq_true hgt).symm
    case isFalse hgt => exact (decide_eq_false hgt).symm
  · rw [if_neg (by rw [hl]; exact Bool.false_ne_true)]
    split
    case isTrue hge => exact (decide_eq_true (by bv_omega)).symm
    case isFalse hge => exact hl.trans (decide_eq_false (by bv_omega)).symm

theorem Distinct.init (h : Distinct (xs ++ [x])) : Distinct xs := by
  rw [Distinct, ← List.cons_append] at h
  exact h.left_of_append

theorem Distinct.ne {pre : List (BitVec 36)} {a b : BitVec 36} (h : Distinct xs) (hxs : 0#36 :: xs = pre ++ [a, b]) :
    a ≠ b := by
  rw [Distinct, hxs] at h
  exact List.isChain_pair.1 h.right_of_append

theorem Distinct.lastSlopePos_iff {pre : List (BitVec 36)} {a b : BitVec 36} (h : Distinct xs)
    (hxs : 0#36 :: xs = pre ++ [a, b]) : (machine.run xs).lastSlopePos = true ↔ a < b := by
  cases xs using List.reverseRecOn with
  | nil =>
    have hlen := congrArg List.length hxs
    simp at hlen
  | append_singleton xs x =>
    have hsplit : 0#36 :: xs ++ [x] = (pre ++ [a]) ++ [b] := by rw [List.append_assoc]; exact hxs
    obtain ⟨ha, hb⟩ := List.append_inj' hsplit rfl
    obtain ⟨rfl, -⟩ := List.cons.inj hb
    have hne := h.ne hxs
    rw [← current_run ha] at hne ⊢
    rw [Machine.run_concat]
    show (step _ x).lastSlopePos = true ↔ _
    rw [lastSlopePos_step hne, decide_eq_true_eq]

theorem exists_last_two (hne : xs ≠ []) : ∃ pre a b, 0#36 :: xs = pre ++ [a, b] := by
  cases xs using List.reverseRecOn with
  | nil => exact absurd rfl hne
  | append_singleton xs b =>
    obtain ⟨pre, a, hpre⟩ := (List.eq_nil_or_concat' (0#36 :: xs)).resolve_left (List.cons_ne_nil _ _)
    refine ⟨pre, a, b, ?_⟩
    rw [← List.cons_append, hpre, List.append_assoc]
    rfl

/-- A value is detected to end a rise exactly if the one before it is a local maximum. -/
theorem Distinct.detects_iff (h : Distinct (xs ++ [x])) :
    (machine.run xs).detects x = true ↔ ∃ pre a b, 0#36 :: xs = pre ++ [a, b] ∧ a < b ∧ x < b := by
  constructor
  · intro hdet
    rw [detects, Bool.and_eq_true] at hdet
    obtain ⟨hrise, hfall⟩ := hdet
    have hxs : xs ≠ [] := by
      rintro rfl
      cases hrise
    obtain ⟨pre, a, b, hab⟩ := exists_last_two hxs
    have hcur := current_run_two hab
    have hbx : 0#36 :: (xs ++ [x]) = (pre ++ [a]) ++ [b, x] := by
      rw [← List.cons_append, hab, List.append_assoc, List.append_assoc]
      rfl
    have hne := h.ne hbx
    rw [hcur] at hfall
    refine ⟨pre, a, b, hab, (h.init.lastSlopePos_iff hab).1 hrise, ?_⟩
    have hle : ¬ x > b := by simpa using hfall
    bv_omega
  · rintro ⟨pre, a, b, hab, hrise, hfall⟩
    have hcur := current_run_two hab
    rw [detects, (h.init.lastSlopePos_iff hab).2 hrise, hcur, Bool.true_and, Bool.not_eq_true', decide_eq_false_iff_not]
    bv_omega

/-- The value before `x`, if it is detected as a peak. -/
def detected (d : Detector) (x : BitVec 36) : List (BitVec 36) :=
  if d.detects x then [d.currentCorrelationValue] else []

theorem Distinct.detected_run (h : Distinct xs) : machine.log detected xs = peaks (0#36 :: xs) := by
  induction xs using List.reverseRecOn with
  | nil => rfl
  | append_singleton xs x ih =>
    rw [Machine.log_concat, ih h.init, detected]
    by_cases hxs : xs = []
    · subst hxs
      rfl
    · obtain ⟨pre, a, b, hab⟩ := exists_last_two hxs
      have hcur := current_run_two hab
      rw [← List.cons_append, hab, List.append_assoc]
      show _ = peaks (pre ++ [a, b, x])
      rw [peaks_concat, hcur]
      congr 1
      refine if_congr ?_ rfl rfl
      rw [h.detects_iff]
      constructor
      · rintro ⟨pre', a', b', hab', hlt⟩
        obtain ⟨-, heq⟩ := List.append_inj' (hab.symm.trans hab') rfl
        simp only [List.cons.injEq, and_true] at heq
        rw [heq.1, heq.2]
        exact hlt
      · exact fun hlt => ⟨pre, a, b, hab, hlt⟩

theorem correlationMax_step (d : Detector) (x : BitVec 36) : (d.step x).correlationMax =
    if d.detects x ∧ d.currentCorrelationValue > d.correlationMax then d.currentCorrelationValue
    else d.correlationMax := by
  rcases d.step_cases x with ⟨hdet, h⟩ | ⟨hdet, h | h⟩
  · simp [h, hdet, peak]
  · simp [h, hdet, valley]
  · simp [h, hdet, keep]

/-- `m` is the largest of `vs`, or 0 if there is none. -/
def Largest (m : BitVec 36) (vs : List (BitVec 36)) : Prop :=
  (vs = [] → m = 0#36) ∧ (vs ≠ [] → IsGreatest {v | v ∈ vs} m)

theorem Largest.concat {m : BitVec 36} {vs : List (BitVec 36)} (h : Largest m vs) (v : BitVec 36) :
    Largest (if v > m then v else m) (vs ++ [v]) := by
  refine ⟨fun hnil => absurd hnil (by simp), fun _ => ⟨?_, ?_⟩⟩
  · split
    · exact List.mem_append_right _ (List.mem_singleton_self v)
    case isFalse hle =>
      by_cases hvs : vs = []
      · have hm := h.1 hvs
        have hv : m = v := by bv_omega
        rw [hv]
        exact List.mem_append_right _ (List.mem_singleton_self v)
      · exact List.mem_append_left _ (h.2 hvs).1
  · intro w hw
    rcases List.mem_append.1 hw with hw | hw
    · have hle : w ≤ m := (h.2 (List.ne_nil_of_mem hw)).2 hw
      split <;> bv_omega
    · rw [List.mem_singleton.1 hw]
      split <;> bv_omega

theorem largest_run (xs : List (BitVec 36)) :
    Largest (machine.run xs).correlationMax (machine.log detected xs) := by
  induction xs using List.reverseRecOn with
  | nil => exact ⟨fun _ => rfl, fun h => absurd rfl h⟩
  | append_singleton xs x ih =>
    rw [Machine.log_concat, Machine.run_concat, detected]
    show Largest ((machine.run xs).step x).correlationMax _
    rw [correlationMax_step]
    cases (machine.run xs).detects x
    · rw [if_neg (by simp), if_neg Bool.false_ne_true, List.append_nil]
      exact ih
    · have hmax := ih.concat (machine.run xs).currentCorrelationValue
      simpa using hmax

end Detector

namespace PdAsp

/-- The value before the one that is complete now, if it is detected as a peak. -/
def detected (s : PdAsp) (recv : TdmaMinPort) : List (BitVec 36) :=
  if s.detects recv then [s.currentCorrelationValue] else []

theorem log_detected (is : List TdmaMinPort) :
    machine.log detected is = Detector.machine.log Detector.detected (delivered is) := by
  induction is using List.reverseRecOn with
  | nil => rfl
  | append_singleton is r ih =>
    have hcur : (machine.run is).currentCorrelationValue = _ :=
      congrArg Detector.currentCorrelationValue (detector_run is).1
    rw [Machine.log_concat, ih, detected]
    rcases run_cases is r with ⟨hsame, -, hnot, -⟩ | ⟨x, hnew, -, hdet, -⟩
    · rw [hsame, hnot]
      exact List.append_nil _
    · rw [hnew, hdet, hcur, Machine.log_concat]
      rfl

/-- Values of which no two consecutive ones are equal are detected when they end a rise with a fall, that is if the
value before them is a local maximum; then the count is latched and the flag raised, in no other clock. The maximum is
the largest of the peaks so far. -/
theorem detects_peaks (is : List TdmaMinPort) (recv : TdmaMinPort)
    (h : Detector.Distinct (delivered (is ++ [recv]))) :
    let s := machine.run is
    let s' := machine.run (is ++ [recv])
    (s.detects recv = true ↔ ∃ pre a b x, 0#36 :: delivered is = pre ++ [a, b] ∧
        delivered (is ++ [recv]) = delivered is ++ [x] ∧ a < b ∧ x < b) ∧
      (s.detects recv = true → s'.peakDetected = true ∧ s'.counterPrev = s.counter ∧ s'.counter = 0#18) ∧
      (s.detects recv = false → (s'.peakDetected = true → s.peakDetected = true) ∧ s'.counterPrev = s.counterPrev) ∧
      machine.log detected (is ++ [recv]) = peaks (0#36 :: delivered (is ++ [recv])) ∧
      (peaks (0#36 :: delivered (is ++ [recv])) ≠ [] →
        IsGreatest {v | v ∈ peaks (0#36 :: delivered (is ++ [recv]))} s'.correlationMax) := by
  have hpeaks := (log_detected (is ++ [recv])).trans h.detected_run
  have hmax := (Detector.largest_run (delivered (is ++ [recv]))).2
  have hmax' : (machine.run (is ++ [recv])).correlationMax = _ :=
    congrArg Detector.correlationMax (detector_run (is ++ [recv])).1
  rw [h.detected_run, ← hmax'] at hmax
  refine ⟨?_, ?_, ?_, hpeaks, hmax⟩
  · rcases run_cases is recv with ⟨hsame, -, hnot, -⟩ | ⟨x, hnew, -, hdet, -⟩
    · rw [hsame, hnot]
      constructor
      · intro hfalse
        cases hfalse
      · rintro ⟨-, -, -, x, -, hx, -⟩
        exact absurd hx (by simp)
    · rw [hnew] at h ⊢
      rw [hdet, h.detects_iff]
      constructor
      · rintro ⟨pre, a, b, hab, hlt⟩
        exact ⟨pre, a, b, x, hab, rfl, hlt⟩
      · rintro ⟨pre, a, b, x', hab, hx, hlt⟩
        rw [List.append_cancel_left_eq, List.cons.injEq] at hx
        rw [hx.1]
        exact ⟨pre, a, b, hab, hlt⟩
  · intro hdetects
    obtain ⟨x, -, hpeak, -⟩ := run_of_detects hdetects
    refine ⟨?_, congrArg Detector.counterPrev hpeak, congrArg Detector.counter hpeak⟩
    rw [(clock_flag is recv).1, hdetects, Bool.true_or]
  · intro hdetects
    refine ⟨fun hp => ?_, (clock_flag is recv).2 hdetects⟩
    rw [(clock_flag is recv).1, hdetects, Bool.false_or, Bool.and_eq_true] at hp
    exact hp.1

/-- The values 5 and 3, with an acknowledgement between the halves of the second; the last half is still to come. -/
def exampleFalling : List TdmaMinPort :=
  [CorAsp.halfPacket false 0, CorAsp.halfPacket true 5, CorAsp.halfPacket false 0, ⟨4, dataWord 0b0110#4⟩]

theorem detects_peaks_five : (machine.run exampleFalling).detects (CorAsp.halfPacket true 3) = true :=
  (detects_peaks exampleFalling (CorAsp.halfPacket true 3) (by unfold Detector.Distinct; decide +kernel)).1.2
    ⟨[], 0, 5, 3, by decide +kernel, by decide +kernel, by decide, by decide⟩

end PdAsp
end TdmaSoc
