import TdmaSoc.Asp.Halves
import TdmaSoc.Lib.Machine

/-!
# What PdAsp does with a value

The words that PdAsp receives deliver a sequence of values (`delivered`); configurations, acknowledgements and other
words between the halves do not change it. On this sequence PdAsp is the machine `Detector`, which takes one whole
value per step: `detector_run`.
-/

namespace TdmaSoc

/-- The registers that follow the slope of the values. -/
structure Detector where
  lastSlopePos : Bool
  counter : BitVec 18
  counterPrev : BitVec 18
  correlationMin : BitVec 36
  correlationMax : BitVec 36
  currentCorrelationValue : BitVec 36
deriving DecidableEq, Repr

namespace Detector

def init : Detector := ⟨false, 0, 0, 0, 0, 0⟩

/-- A value that does not rise after a rise: the last one was a peak. -/
def peak (d : Detector) (x : BitVec 36) : Detector :=
  { d with
    correlationMax :=
      if d.currentCorrelationValue > d.correlationMax then d.currentCorrelationValue else d.correlationMax
    lastSlopePos := false
    counterPrev := d.counter
    counter := 0
    currentCorrelationValue := x }

/-- A value that does not fall after a fall: the last one was a valley. -/
def valley (d : Detector) (x : BitVec 36) : Detector :=
  { d with
    correlationMin :=
      if d.currentCorrelationValue < d.correlationMin then d.currentCorrelationValue else d.correlationMin
    lastSlopePos := true
    currentCorrelationValue := x }

def keep (d : Detector) (x : BitVec 36) : Detector :=
  { d with counter := d.counter + 1, currentCorrelationValue := x }

def step (d : Detector) (x : BitVec 36) : Detector :=
  if d.lastSlopePos then
    if x > d.currentCorrelationValue then d.keep x else d.peak x
  else if x ≥ d.currentCorrelationValue then d.valley x
  else d.keep x

/-- The detector with arbitrary values, one per step. -/
def machine : Machine Detector (BitVec 36) := ⟨init, step⟩

def detects (d : Detector) (x : BitVec 36) : Bool := d.lastSlopePos && !decide (x > d.currentCorrelationValue)

theorem step_cases (d : Detector) (x : BitVec 36) :
    d.detects x = true ∧ d.step x = d.peak x ∨
      d.detects x = false ∧ (d.step x = d.valley x ∨ d.step x = d.keep x) := by
  unfold step detects
  rcases Bool.eq_false_or_eq_true d.lastSlopePos with hl | hl
  · by_cases hgt : x > d.currentCorrelationValue
    · simp [hl, hgt]
    · simp [hl, hgt]
  · by_cases hge : x ≥ d.currentCorrelationValue
    · simp [hl, hge]
    · simp [hl, hge]

/-- Without a peak the latched count stays. -/
theorem counterPrev_step {d : Detector} {x : BitVec 36} (h : d.detects x = false) :
    (d.step x).counterPrev = d.counterPrev := by
  rcases d.step_cases x with ⟨hdet, -⟩ | ⟨-, hstep | hstep⟩
  · cases h.symm.trans hdet
  · rw [hstep]
    rfl
  · rw [hstep]
    rfl

end Detector

namespace PdAsp
variable {s : PdAsp} {recv : TdmaMinPort} {is : List TdmaMinPort}

/-- The peak detection component with arbitrary words on its receive port. -/
def machine : Machine PdAsp TdmaMinPort := ⟨init, clock⟩

/-- The high half that has come last, and the values whose low half has come. -/
def gather (acc : BitVec 18 × List (BitVec 36)) (recv : TdmaMinPort) : BitVec 18 × List (BitVec 36) :=
  if isCorrelation recv.data then
    if recv.data.getLsbD 18 then (acc.1, acc.2 ++ [acc.1 ++ recv.data.slice 0 18])
    else (recv.data.slice 0 18, acc.2)
  else acc

def gathered (is : List TdmaMinPort) : BitVec 18 × List (BitVec 36) := is.foldl gather (0, [])

/-- The values that the words `is` deliver. -/
def delivered (is : List TdmaMinPort) : List (BitVec 36) := (gathered is).2

theorem gathered_append (is js : List TdmaMinPort) : gathered (is ++ js) = js.foldl gather (gathered is) :=
  List.foldl_append

theorem gathered_concat (is : List TdmaMinPort) (recv : TdmaMinPort) :
    gathered (is ++ [recv]) = gather (gathered is) recv :=
  gathered_append is [recv]

theorem foldl_gather_of_not_correlation {js : List TdmaMinPort} (h : ∀ r ∈ js, isCorrelation r.data = false)
    (acc : BitVec 18 × List (BitVec 36)) : js.foldl gather acc = acc := by
  induction js generalizing acc with
  | nil => rfl
  | cons r js ih =>
    have hacc : gather acc r = acc := by
      rw [gather, h r (by simp)]
      rfl
    rw [List.foldl_cons, hacc]
    exact ih (fun q hq => h q (List.mem_cons_of_mem _ hq)) acc

/-- Two halves deliver their value, whatever other words come between them. -/
theorem delivered_halves (is : List TdmaMinPort) {between : List TdmaMinPort}
    (h : ∀ r ∈ between, isCorrelation r.data = false) (v : BitVec 36) :
    delivered (is ++ CorAsp.halfPacket false (v.slice 18 18) :: between ++ [CorAsp.halfPacket true (v.slice 0 18)]) =
      delivered is ++ [v] := by
  have happend : v.slice 18 18 ++ v.slice 0 18 = v := by
    refine BitVec.eq_of_getLsbD_eq fun i hi => ?_
    rw [BitVec.getLsbD_append, BitVec.getLsbD_slice, BitVec.getLsbD_slice, Nat.zero_add]
    split
    · simp [*]
    · simp [show i - 18 < 18 by omega, show 18 + (i - 18) = i by omega]
  have hd : ∀ b (w : BitVec 18), isCorrelation (CorAsp.halfPacket b w).data = true := fun b w => by simp [isCorrelation]
  rw [delivered, gathered_append, gathered_append, List.foldl_cons, List.foldl_cons, List.foldl_nil,
    foldl_gather_of_not_correlation h, gather, gather, hd, hd, CorAsp.getLsbD_halfPacket, CorAsp.getLsbD_halfPacket,
    CorAsp.slice_halfPacket, CorAsp.slice_halfPacket]
  show delivered is ++ [v.slice 18 18 ++ v.slice 0 18] = _
  rw [happend]

/-- The two halves of a value. -/
def halves (v : BitVec 36) : List TdmaMinPort :=
  [CorAsp.halfPacket false (v.slice 18 18), CorAsp.halfPacket true (v.slice 0 18)]

def detector (s : PdAsp) : Detector where
  lastSlopePos := s.lastSlopePos
  counter := s.counter
  counterPrev := s.counterPrev
  correlationMin := s.correlationMin
  correlationMax := s.correlationMax
  currentCorrelationValue := s.currentCorrelationValue

theorem detector_send (s v : PdAsp) : (s.send v).detector = v.detector ∧ (s.send v).correlationRdy = v.correlationRdy ∧
    (s.send v).peakDetected = v.peakDetected := by
  unfold send
  split <;> exact ⟨rfl, rfl, rfl⟩

/-- The clock of a low half is a step of the detector. -/
theorem clock_of_second (h : isCorrelation recv.data = true) (h18 : recv.data.getLsbD 18 = true) {x : BitVec 36}
    (hx : s.incompleteCorrelationValue.setSlice 0 (recv.data.slice 0 18) = x) :
    (s.clock recv).detector = s.detector.step x ∧ (s.clock recv).correlationRdy = false ∧
      s.detects recv = s.detector.detects x ∧
      (s.clock recv).peakDetected = (s.detector.detects x || s.peakDetected) := by
  have hdecode := decode_of_second (s := s) h h18
  rw [hx] at hdecode
  obtain ⟨hdet, hrdy, hpeak⟩ := detector_send s (s.slope (s.decode recv))
  unfold clock detects
  rw [hdet, hrdy, hpeak, hdecode]
  rcases Bool.eq_false_or_eq_true s.lastSlopePos with hl | hl
  · by_cases hgt : x > s.currentCorrelationValue
    · simp [slope, Detector.step, Detector.detects, Detector.keep, detector, hl, hgt]
    · simp [slope, peak, Detector.step, Detector.detects, Detector.peak, detector, hl, hgt]
  · by_cases hge : x ≥ s.currentCorrelationValue
    · simp [slope, Detector.step, Detector.detects, Detector.valley, detector, hl, hge]
    · simp [slope, Detector.step, Detector.detects, Detector.keep, detector, hl, hge]

theorem decode_of_not_second (h : (isCorrelation recv.data && recv.data.getLsbD 18) = false) :
    (s.decode recv).detector = s.detector ∧ (s.decode recv).correlationRdy = s.correlationRdy ∧
      (s.decode recv).peakDetected = (s.peakDetected && !isCountRead recv.data) := by
  unfold isCorrelation isCountRead isData at *
  unfold decode
  by_cases hconfig : packetType recv.data = 0b1011#4
  · rw [if_pos hconfig, hconfig]
    exact ⟨rfl, rfl, (Bool.and_true _).symm⟩
  · rw [if_neg hconfig]
    by_cases hdata : packetType recv.data = 0b1000#4
    · rw [if_pos hdata]
      rw [hdata] at h ⊢
      by_cases hcor : packetMode recv.data = 0b0101#4
      · rw [hcor] at h ⊢
        have hfirst : recv.data.getLsbD 18 = false := h
        rw [if_pos rfl, if_pos hfirst]
        exact ⟨rfl, rfl, (Bool.and_true _).symm⟩
      · rw [if_neg hcor]
        by_cases hread : packetMode recv.data = 0b0110#4
        · rw [if_pos hread, hread]
          exact ⟨rfl, rfl, (Bool.and_false _).symm⟩
        · rw [if_neg hread]
          exact ⟨rfl, rfl, by simp [hread]⟩
    · rw [if_neg hdata]
      exact ⟨rfl, rfl, by simp [hdata]⟩

/-- In every other clock the registers of the detector stay; only an acknowledgement takes the flag down. -/
theorem clock_of_not_second (h : (isCorrelation recv.data && recv.data.getLsbD 18) = false)
    (hrdy : s.correlationRdy = false) :
    (s.clock recv).detector = s.detector ∧ (s.clock recv).correlationRdy = false ∧ s.detects recv = false ∧
      (s.clock recv).peakDetected = (s.peakDetected && !isCountRead recv.data) := by
  obtain ⟨hdecode, hrdy', hpeak⟩ := decode_of_not_second (s := s) h
  have hslope : s.slope (s.decode recv) = s.decode recv := by
    rw [slope, hrdy', hrdy]
    rfl
  obtain ⟨hdet, hrdy'', hpeak'⟩ := detector_send s (s.slope (s.decode recv))
  unfold clock detects
  rw [hdet, hrdy'', hpeak', hslope, hdecode, hrdy', hrdy, hpeak]
  exact ⟨rfl, rfl, rfl, rfl⟩

/-- A register that has taken the low half holds the value of its two halves. -/
theorem setSlice_eq_append (inc : BitVec 36) (low : BitVec 18) : inc.setSlice 0 low = inc.slice 18 18 ++ low := by
  refine BitVec.eq_of_getLsbD_eq fun i hi => ?_
  rw [BitVec.getLsbD_setSlice, BitVec.getLsbD_append, BitVec.getLsbD_slice, if_pos hi]
  by_cases hlo : i < 18
  · simp [hlo]
  · simp [hlo, show i - 18 < 18 by omega, show 18 + (i - 18) = i by omega]

/-- PdAsp holds the high half that has come last, and its detector has taken the values delivered. -/
theorem detector_run (is : List TdmaMinPort) :
    (machine.run is).detector = Detector.machine.run (delivered is) ∧ (machine.run is).correlationRdy = false ∧
      (machine.run is).incompleteCorrelationValue.slice 18 18 = (gathered is).1 := by
  induction is using List.reverseRecOn with
  | nil => exact ⟨rfl, rfl, by decide⟩
  | append_singleton is r ih =>
    obtain ⟨hdet, hrdy, hhigh⟩ := ih
    have hinc := ((machine.run is).clock_values r).1
    rw [Machine.run_concat, delivered, gathered_concat, gather]
    show ((machine.run is).clock r).detector = _ ∧ ((machine.run is).clock r).correlationRdy = _ ∧
      ((machine.run is).clock r).incompleteCorrelationValue.slice 18 18 = _
    rw [hinc]
    rcases Bool.eq_false_or_eq_true (isCorrelation r.data) with hd | hd
    · rcases Bool.eq_false_or_eq_true (r.data.getLsbD 18) with h18 | h18
      · obtain ⟨hstep, hrdy', -, -⟩ := clock_of_second hd h18
          ((setSlice_eq_append _ _).trans (congrArg (· ++ r.data.slice 0 18) hhigh))
        rw [hstep, hrdy', hdet, hd, h18, if_pos rfl, if_pos rfl, Machine.run_concat, decode_of_second hd h18]
        exact ⟨rfl, rfl, (BitVec.slice_setSlice_disjoint _ _ (.inr (by omega))).trans hhigh⟩
      · have hsecond : (isCorrelation r.data && r.data.getLsbD 18) = false := by rw [h18, Bool.and_false]
        obtain ⟨hkeep, hrdy', -, -⟩ := clock_of_not_second hsecond hrdy
        rw [hkeep, hrdy', hdet, hd, h18, decode_of_first hd h18]
        exact ⟨rfl, rfl, BitVec.slice_setSlice_same _ _ _ (by decide)⟩
    · have hsecond : (isCorrelation r.data && r.data.getLsbD 18) = false := by rw [hd, Bool.false_and]
      obtain ⟨hkeep, hrdy', -, -⟩ := clock_of_not_second hsecond hrdy
      rw [hkeep, hrdy', hdet, hd, (decode_of_not_correlation hd).1]
      exact ⟨rfl, rfl, hhigh⟩

/-- A clock delivers a value to the detector or leaves it as it is. -/
theorem run_cases (is : List TdmaMinPort) (recv : TdmaMinPort) :
    (delivered (is ++ [recv]) = delivered is ∧ (machine.run (is ++ [recv])).detector = (machine.run is).detector ∧
        (machine.run is).detects recv = false ∧
        (machine.run (is ++ [recv])).peakDetected = ((machine.run is).peakDetected && !isCountRead recv.data)) ∨
      ∃ x, delivered (is ++ [recv]) = delivered is ++ [x] ∧
        (machine.run (is ++ [recv])).detector = (machine.run is).detector.step x ∧
        (machine.run is).detects recv = (Detector.machine.run (delivered is)).detects x ∧
        (machine.run (is ++ [recv])).peakDetected =
          ((machine.run is).detects recv || (machine.run is).peakDetected) := by
  obtain ⟨hdet, hrdy, hhigh⟩ := detector_run is
  rw [Machine.run_concat]
  cases hsecond : isCorrelation recv.data && recv.data.getLsbD 18
  · left
    obtain ⟨hkeep, -, hnot, hflag⟩ := clock_of_not_second hsecond hrdy
    refine ⟨?_, hkeep, hnot, hflag⟩
    rw [delivered, gathered_concat, gather]
    rcases Bool.and_eq_false_iff.1 hsecond with hd | h18
    · rw [hd]
      rfl
    · rw [h18]
      split <;> rfl
  · right
    obtain ⟨hd, h18⟩ := Bool.and_eq_true_iff.1 hsecond
    obtain ⟨hstep, -, hdetects, hflag⟩ := clock_of_second hd h18
      ((setSlice_eq_append _ _).trans (congrArg (· ++ recv.data.slice 0 18) hhigh))
    refine ⟨_, ?_, hstep, ?_, ?_⟩
    · rw [delivered, gathered_concat, gather, hd, h18]
      rfl
    · rw [hdetects, hdet]
    · rw [hdetects]
      exact hflag

/-- No value is detected as the end of a rise while the words `is` come after `pre`. -/
def NoPeak (pre is : List TdmaMinPort) : Prop :=
  machine.AlongFrom (fun s recv => s.detects recv = false) (machine.run pre) is

instance (pre is : List TdmaMinPort) : Decidable (NoPeak pre is) := Machine.decidableAlongFrom ..

theorem noPeak_concat (pre is : List TdmaMinPort) (recv : TdmaMinPort) :
    NoPeak pre (is ++ [recv]) ↔ NoPeak pre is ∧ (machine.run (pre ++ is)).detects recv = false := by
  rw [NoPeak, machine.alongFrom_append, machine.run_append]
  exact and_congr Iff.rfl (and_iff_left trivial)

/-- The clock that detects a peak has a value, latches the count and clears it. -/
theorem run_of_detects {is : List TdmaMinPort} {recv : TdmaMinPort} (h : (machine.run is).detects recv = true) :
    ∃ x, delivered (is ++ [recv]) = delivered is ++ [x] ∧
      (machine.run (is ++ [recv])).detector = (machine.run is).detector.peak x ∧
      (machine.run is).detector.lastSlopePos = true := by
  rcases run_cases is recv with ⟨-, -, hnot, -⟩ | ⟨x, hnew, hstep, hdet, -⟩
  · cases hnot.symm.trans h
  · rw [h, ← (detector_run is).1] at hdet
    rcases (machine.run is).detector.step_cases x with ⟨-, hpeak⟩ | ⟨hnot, -⟩
    · rw [hpeak] at hstep
      exact ⟨x, hnew, hstep, (Bool.and_eq_true_iff.1 hdet.symm).1⟩
    · cases hnot.symm.trans hdet.symm

/-- The word that completes a value is no acknowledgement. -/
theorem isCountRead_of_delivers {x : BitVec 36} (h : delivered (is ++ [recv]) = delivered is ++ [x]) :
    isCountRead recv.data = false := by
  by_contra hread
  have hmode := (isData_iff.1 (Bool.eq_true_of_not_eq_false hread)).2
  have hcorrelation : isCorrelation recv.data = false := by
    rw [isCorrelation, isData, hmode, Bool.and_eq_false_iff]
    exact .inr rfl
  have hsame : delivered (is ++ [recv]) = delivered is := by
    rw [delivered, gathered_concat, gather, hcorrelation]
    rfl
  rw [hsame] at h
  exact List.cons_ne_nil x [] (List.self_eq_append_right.1 h)

/-- The flag goes up with a peak and down with an acknowledgement; the count is latched with a peak only. -/
theorem clock_flag (is : List TdmaMinPort) (recv : TdmaMinPort) :
    (machine.run (is ++ [recv])).peakDetected =
        ((machine.run is).detects recv || (machine.run is).peakDetected && !isCountRead recv.data) ∧
      ((machine.run is).detects recv = false →
        (machine.run (is ++ [recv])).counterPrev = (machine.run is).counterPrev) := by
  rcases run_cases is recv with ⟨-, hkeep, hnot, hflag⟩ | ⟨x, hnew, hstep, hdet, hflag⟩
  · rw [hflag, hnot]
    exact ⟨rfl, fun _ => congrArg Detector.counterPrev hkeep⟩
  · rw [hflag, isCountRead_of_delivers hnew, Bool.not_false, Bool.and_true]
    refine ⟨rfl, fun hnot => ?_⟩
    rw [hnot, ← (detector_run is).1] at hdet
    exact (congrArg Detector.counterPrev hstep).trans (Detector.counterPrev_step hdet.symm)

end PdAsp
end TdmaSoc
