import TdmaSoc.Asp.Peaks
import TdmaSoc.Lib.Runs

/-!
# Plateaus

Every repetition of a value turns the slope of `PdAsp` around: an equal value is no rise after a rise, and no fall
after a fall. So a plateau of equal values adds a peak for every second repetition (`logFrom_detected_runs`), and
repeating a value changes the peaks except where one more repetition fits between two of these (`Harmless`).
-/

namespace TdmaSoc
namespace Detector

variable {d : Detector} {v : BitVec 36}

/-- The slope that follows a plateau of `v`; after the last one the detector does as if a rise followed. -/
def slopeTo (v : BitVec 36) (ps : List (BitVec 36 × Nat)) : Bool :=
  match ps with
  | [] => true
  | (w, _) :: _ => decide (v < w)

/-- How often a value is detected that is repeated `k` times, between the slopes `before` and `after`. -/
def plateauCount (before after : Bool) (k : Nat) : Nat :=
  if before = after then (k + 1) / 2 else k / 2 + before.toNat

/-- The values detected on the plateaus `ps`, after the slope `before`. -/
def plateauPeaks : Bool → List (BitVec 36 × Nat) → List (BitVec 36)
  | _, [] => []
  | before, (v, k) :: ps =>
    List.replicate (plateauCount before (slopeTo v ps) k) v ++ plateauPeaks (slopeTo v ps) ps

/-- An equal value turns the slope around; after a rise it is detected. -/
theorem step_equal (hv : d.currentCorrelationValue = v) :
    detected d v = List.replicate d.lastSlopePos.toNat v ∧ (d.step v).lastSlopePos = !d.lastSlopePos ∧
      (d.step v).currentCorrelationValue = v := by
  subst hv
  refine ⟨?_, ?_, current_step d _⟩
  · rw [detected, detects]
    cases d.lastSlopePos
    · rfl
    · simp
  · unfold step
    cases d.lastSlopePos
    · simp [valley]
    · simp [peak]

/-- `k` repetitions of a value, of which every second is detected. -/
theorem runFrom_equal (hv : d.currentCorrelationValue = v) (k : Nat) :
    machine.logFrom detected d (List.replicate k v) = List.replicate ((k + d.lastSlopePos.toNat) / 2) v ∧
      (machine.runFrom d (List.replicate k v)).lastSlopePos = (d.lastSlopePos ^^ decide (k % 2 = 1)) ∧
      (machine.runFrom d (List.replicate k v)).currentCorrelationValue = v := by
  induction k generalizing d with
  | zero =>
    refine ⟨?_, (Bool.xor_false _).symm, hv⟩
    cases d.lastSlopePos <;> rfl
  | succ k ih =>
    obtain ⟨hlog, hslope, hcur⟩ := step_equal hv
    obtain ⟨ihLog, ihSlope, ihCur⟩ := ih hcur
    rw [hslope] at ihLog ihSlope
    rw [List.replicate_succ, Machine.logFrom, hlog, Machine.runFrom_cons]
    refine ⟨?_, ?_, ihCur⟩
    · refine (congrArg _ ihLog).trans ?_
      rw [List.replicate_append_replicate]
      congr 1
      cases d.lastSlopePos <;> simp only [Bool.not_true, Bool.not_false, Bool.toNat_true, Bool.toNat_false] <;> omega
    · refine ihSlope.trans ?_
      rcases Nat.mod_two_eq_zero_or_one k with hk | hk
      · rw [hk, show (k + 1) % 2 = 1 by omega]
        cases d.lastSlopePos <;> rfl
      · rw [hk, show (k + 1) % 2 = 0 by omega]
        cases d.lastSlopePos <;> rfl

/-- The value after the plateau is another one, and makes the slope. -/
theorem detected_other {w : BitVec 36} (hv : d.currentCorrelationValue = v) (hne : v ≠ w) :
    detected d w = List.replicate (d.lastSlopePos && !decide (v < w)).toNat v ∧
      (d.step w).lastSlopePos = decide (v < w) := by
  subst hv
  refine ⟨?_, lastSlopePos_step hne⟩
  rw [detected, detects]
  cases d.lastSlopePos
  · rfl
  · by_cases hlt : d.currentCorrelationValue < w
    · simp [hlt]
    · simp [hlt]

theorem plateauCount_eq (before after : Bool) (k : Nat) :
    (k + before.toNat) / 2 + ((before ^^ decide (k % 2 = 1)) && !after).toNat = plateauCount before after k := by
  rcases Nat.mod_two_eq_zero_or_one k with hk | hk
  · rw [hk]
    cases before <;> cases after <;> simp [plateauCount] <;> omega
  · rw [hk]
    cases before <;> cases after <;> simp [plateauCount] <;> omega

/-- What is detected on the rest of a plateau and the plateaus after it. -/
theorem logFrom_detected_runs {k : Nat} {ps : List (BitVec 36 × Nat)} (hps : RunsApart ((v, k) :: ps))
    (hv : d.currentCorrelationValue = v) :
    machine.logFrom detected d (List.replicate k v ++ expandRuns ps) = plateauPeaks d.lastSlopePos ((v, k) :: ps) := by
  induction ps generalizing d v k with
  | nil =>
    obtain ⟨hlog, -, -⟩ := runFrom_equal hv k
    have hcount := plateauCount_eq d.lastSlopePos true k
    rw [Bool.not_true, Bool.and_false, Bool.toNat_false, Nat.add_zero] at hcount
    rw [expandRuns, List.flatMap_nil, List.append_nil, hlog, hcount, plateauPeaks, plateauPeaks, List.append_nil]
    rfl
  | cons p ps ih =>
    obtain ⟨w, l⟩ := p
    obtain ⟨hne, hps⟩ := List.isChain_cons_cons.1 hps
    obtain ⟨hlog, hslope, hcur⟩ := runFrom_equal hv k
    obtain ⟨hdet, hafter⟩ := detected_other hcur hne
    rw [hslope] at hdet
    have hrest := ih hps (current_step (machine.runFrom d (List.replicate k v)) w)
    rw [hafter] at hrest
    rw [expandRuns_cons, Machine.logFrom_append, hlog, Machine.logFrom, hdet]
    refine (congrArg _ (congrArg _ hrest)).trans ?_
    rw [← List.append_assoc, List.replicate_append_replicate, plateauCount_eq]
    rfl

/-- The values detected from power-on, when the detector holds 0 and the slope is negative. -/
theorem log_detected_runs (xs : List (BitVec 36)) :
    machine.log detected xs = plateauPeaks false (runs (0#36 :: xs)) := by
  have hexpand := expandRuns_runs (0#36 :: xs)
  have hapart := runsApart_runs (0#36 :: xs)
  obtain ⟨k, ps, hruns⟩ := exists_pushRun 0#36 (runs xs)
  have hruns : runs (0#36 :: xs) = (0#36, k) :: ps := hruns
  rw [hruns] at hexpand hapart ⊢
  rw [expandRuns_cons, List.cons.injEq] at hexpand
  rw [← hexpand.2]
  exact logFrom_detected_runs hapart rfl

/-- Every plateau of `qs` is that of `ps` or one value longer, in the way that adds no peak: at a turning point to an
even number of repetitions, on a slope to an odd number. -/
def Harmless : Bool → List (BitVec 36 × Nat) → List (BitVec 36 × Nat) → Prop
  | before, (v, k) :: ps, (_, k') :: qs =>
    (k' = k ∨ k' = k + 1 ∧ (k % 2 = 0 ↔ before ≠ slopeTo v ps)) ∧ Harmless (slopeTo v ps) ps qs
  | _, _, _ => True

theorem slopeTo_eq {ps qs : List (BitVec 36 × Nat)} (h : Lengthened ps qs) (v : BitVec 36) :
    slopeTo v ps = slopeTo v qs := by
  cases h with
  | nil => rfl
  | cons hpq _ => rw [slopeTo, slopeTo, hpq.1]

theorem plateauCount_le (before after : Bool) {k k' : Nat} (hle : k ≤ k') :
    plateauCount before after k ≤ plateauCount before after k' := by
  unfold plateauCount
  split <;> omega

theorem plateauCount_eq_iff (before after : Bool) {k k' : Nat} (hle : k ≤ k') :
    plateauCount before after k = plateauCount before after k' ↔
      k' = k ∨ k' = k + 1 ∧ (k % 2 = 0 ↔ before ≠ after) := by
  unfold plateauCount
  by_cases hslope : before = after
  · rw [if_pos hslope, if_pos hslope, iff_false_right (not_not_intro hslope)]
    omega
  · rw [if_neg hslope, if_neg hslope, iff_true_right hslope]
    omega

/-- Longer plateaus have no fewer peaks, so that all of them together tell whether one has more. -/
theorem plateauPeaks_iff {ps qs : List (BitVec 36 × Nat)} (h : Lengthened ps qs) (before : Bool) :
    (plateauPeaks before ps).length ≤ (plateauPeaks before qs).length ∧
      ((plateauPeaks before ps).length = (plateauPeaks before qs).length ↔ Harmless before ps qs) ∧
      (Harmless before ps qs → plateauPeaks before ps = plateauPeaks before qs) := by
  induction h generalizing before with
  | nil => exact ⟨Nat.le_refl 0, iff_of_true rfl trivial, fun _ => rfl⟩
  | @cons p q ps qs hpq hrest ih =>
    obtain ⟨v, k⟩ := p
    obtain ⟨w, k'⟩ := q
    obtain ⟨rfl, hk⟩ := hpq
    obtain ⟨hle, hiff, heq⟩ := ih (slopeTo v ps)
    have hk : k ≤ k' := hk
    have hslope := slopeTo_eq hrest v
    have hcount := plateauCount_le before (slopeTo v ps) hk
    have hcountIff := plateauCount_eq_iff before (slopeTo v ps) hk
    simp only [plateauPeaks, Harmless, List.length_append, List.length_replicate, ← hslope]
    refine ⟨Nat.add_le_add hcount hle, ?_, ?_⟩
    · rw [← hcountIff, ← hiff]
      clear hcountIff hiff
      omega
    · rintro ⟨hhere, hthere⟩
      rw [heq hthere, hcountIff.2 hhere]

/-- The maximum recorded with a peak. -/
def recorded (d : Detector) (x : BitVec 36) : List (BitVec 36) :=
  if d.detects x then [(d.step x).correlationMax] else []

/-- The maxima of the peaks `vs`, from `m` on. -/
def maxima (m : BitVec 36) : List (BitVec 36) → List (BitVec 36)
  | [] => []
  | v :: vs => (if v > m then v else m) :: maxima (if v > m then v else m) vs

theorem logFrom_recorded (d : Detector) (xs : List (BitVec 36)) :
    machine.logFrom recorded d xs = maxima d.correlationMax (machine.logFrom detected d xs) := by
  induction xs generalizing d with
  | nil => rfl
  | cons x xs ih =>
    have hmax := correlationMax_step d x
    rw [Machine.logFrom, Machine.logFrom, ih, recorded, detected]
    show _ ++ maxima (d.step x).correlationMax _ = _
    cases hdet : d.detects x
    · rw [hdet, if_neg (fun h => Bool.false_ne_true h.1)] at hmax
      rw [hmax]
      rfl
    · simp only [hdet, true_and] at hmax
      rw [hmax]
      rfl

/-- Two runs have as many peaks, with the same maxima, exactly if the repetitions are harmless. -/
theorem log_recorded_iff {xs ys : List (BitVec 36)} (h : Repeats (0#36 :: xs) (0#36 :: ys)) :
    ((machine.log detected xs).length = (machine.log detected ys).length ∧
        machine.log recorded xs = machine.log recorded ys) ↔
      Harmless false (runs (0#36 :: xs)) (runs (0#36 :: ys)) := by
  obtain ⟨-, hiff, heq⟩ := plateauPeaks_iff h.runs false
  have hrec : ∀ zs, machine.log recorded zs = maxima 0#36 (machine.log detected zs) := logFrom_recorded init
  rw [hrec, hrec, log_detected_runs, log_detected_runs, ← hiff]
  constructor
  · intro hboth
    exact hboth.1
  · intro hlen
    exact ⟨hlen, congrArg (maxima 0#36) (heq (hiff.1 hlen))⟩

/-- A constant sequence of `n` values has `n / 2` peaks. -/
theorem log_detected_replicate (v : BitVec 36) (n : Nat) :
    machine.log detected (List.replicate n v) = List.replicate (n / 2) v := by
  by_cases hv : v = 0#36
  · exact (runFrom_equal (d := init) hv.symm n).1
  · cases n with
    | zero => rfl
    | succ n =>
      have hslope : (init.step v).lastSlopePos = true := by
        rw [lastSlopePos_step (Ne.symm hv)]
        exact decide_eq_true (show 0#36 < v by bv_omega)
      have hlog := (runFrom_equal (current_step init v) n).1
      rw [hslope] at hlog
      exact hlog

instance decidableHarmless : ∀ before ps qs, Decidable (Harmless before ps qs)
  | before, (v, k) :: ps, (_, k') :: qs =>
    @instDecidableAnd (k' = k ∨ k' = k + 1 ∧ (k % 2 = 0 ↔ before ≠ slopeTo v ps)) _ inferInstance
      (decidableHarmless (slopeTo v ps) ps qs)
  | _, [], _ => .isTrue trivial
  | _, _ :: _, [] => .isTrue trivial

end Detector

namespace PdAsp
open Detector

/-- The maximum recorded with the peak that is detected now. -/
def recorded (s : PdAsp) (recv : TdmaMinPort) : List (BitVec 36) :=
  if s.detects recv then [(s.clock recv).correlationMax] else []

theorem log_recorded (is : List TdmaMinPort) :
    machine.log recorded is = Detector.machine.log Detector.recorded (delivered is) := by
  induction is using List.reverseRecOn with
  | nil => rfl
  | append_singleton is r ih =>
    rw [Machine.log_concat, ih, recorded]
    rcases run_cases is r with ⟨hsame, -, hnot, -⟩ | ⟨x, hnew, hstep, hdet, -⟩
    · rw [hsame, hnot]
      exact List.append_nil _
    · rw [Machine.run_concat] at hstep
      have hmax : ((machine.run is).clock r).correlationMax = ((machine.run is).detector.step x).correlationMax :=
        congrArg Detector.correlationMax hstep
      rw [hnew, hdet, hmax, (detector_run is).1, Machine.log_concat]
      rfl

/-- A sequence with some values repeated, the 0 before the first among them, has as many peaks as the sequence and the
same successive maxima exactly if no plateau becomes longer but harmlessly. -/
theorem repeats_same_peaks_iff {is is' : List TdmaMinPort}
    (h : Repeats (0#36 :: delivered is) (0#36 :: delivered is')) :
    ((machine.log detected is).length = (machine.log detected is').length ∧
        machine.log recorded is = machine.log recorded is') ↔
      Harmless false (runs (0#36 :: delivered is)) (runs (0#36 :: delivered is')) := by
  rw [log_recorded, log_recorded, log_detected, log_detected]
  exact log_recorded_iff h

theorem delivered_five_three : delivered (halves 5 ++ halves 3) = [5, 3] := by decide +kernel

theorem delivered_five_five_three : delivered (halves 5 ++ halves 5 ++ halves 3) = [5, 5, 3] := by decide +kernel

/-- Of 5, 3 and of 5, 5, 3 the one peak is 5. -/
theorem repeats_same_peaks_five :
    machine.log recorded (halves 5 ++ halves 3) = machine.log recorded (halves 5 ++ halves 5 ++ halves 3) := by
  refine ((repeats_same_peaks_iff ?_).2 ?_).2
  · rw [delivered_five_three, delivered_five_five_three]
    exact .cons 0 0 (.cons 5 1 (.cons 3 0 .nil))
  · rw [delivered_five_three, delivered_five_five_three]
    decide

/-- Two zeros make a peak. -/
theorem repeats_new_peak :
    ¬ ∀ is is', Repeats (0#36 :: delivered is) (0#36 :: delivered is') →
      (machine.log detected is).length = (machine.log detected is').length ∧
        machine.log recorded is = machine.log recorded is' := by
  intro h
  have hvalues : delivered (halves 0 ++ halves 0) = [0, 0] := by decide +kernel
  obtain ⟨hlen, -⟩ := h [] (halves 0 ++ halves 0) (by rw [hvalues]; exact .cons 0 2 .nil)
  exact absurd hlen (by decide +kernel)

end PdAsp
end TdmaSoc
