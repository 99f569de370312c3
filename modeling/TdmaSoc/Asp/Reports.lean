import TdmaSoc.Asp.Detector

/-!
# From the peak to its report

The flag `peak_detected` stands for the history that matters to the report: a peak has been detected, and since the
last one no acknowledgement has come (`peakDetected_iff_pending`). A peak and an acknowledgement never come in one
clock, since one ends a correlation value and the other does not.
-/

namespace TdmaSoc
namespace PdAsp

variable {is pre post : List TdmaMinPort} {first recv : TdmaMinPort}

/-- Of the words `is`, `first` is the last that detects a peak. -/
structure LastPeak (is pre : List TdmaMinPort) (first : TdmaMinPort) (post : List TdmaMinPort) : Prop where
  split : is = pre ++ [first] ++ post
  detects : (machine.run pre).detects first = true
  none : NoPeak (pre ++ [first]) post

/-- A peak has been detected, and after the last one no acknowledgement has been received. -/
def Pending (is : List TdmaMinPort) : Prop :=
  ∃ pre first post, LastPeak is pre first post ∧ ∀ r ∈ post, isCountRead r.data = false

theorem LastPeak.of_detects (h : (machine.run is).detects recv = true) : LastPeak (is ++ [recv]) is recv [] :=
  ⟨(List.append_nil _).symm, h, trivial⟩

theorem LastPeak.concat (h : LastPeak is pre first post) (hnot : (machine.run is).detects recv = false) :
    LastPeak (is ++ [recv]) pre first (post ++ [recv]) := by
  obtain ⟨rfl, hdet, hnone⟩ := h
  exact ⟨List.append_assoc .., hdet, (noPeak_concat ..).2 ⟨hnone, hnot⟩⟩

/-- The last peak is that of the last word, or was there before it. -/
theorem LastPeak.concat_cases (h : LastPeak (is ++ [recv]) pre first post) :
    (machine.run is).detects recv = true ∧ post = [] ∨
      ∃ post', post = post' ++ [recv] ∧ LastPeak is pre first post' ∧ (machine.run is).detects recv = false := by
  obtain ⟨hsplit, hdet, hnone⟩ := h
  cases post using List.reverseRecOn with
  | nil =>
    rw [List.append_nil] at hsplit
    obtain ⟨rfl, hrecv⟩ := List.append_inj' hsplit rfl
    rw [List.singleton_inj.1 hrecv]
    exact .inl ⟨hdet, rfl⟩
  | append_singleton post r =>
    rw [← List.append_assoc] at hsplit
    obtain ⟨rfl, hrecv⟩ := List.append_inj' hsplit rfl
    rw [List.singleton_inj.1 hrecv]
    obtain ⟨hnone, hnot⟩ := (noPeak_concat ..).1 hnone
    exact .inr ⟨post, rfl, ⟨rfl, hdet, hnone⟩, hnot⟩

theorem pending_concat (is : List TdmaMinPort) (recv : TdmaMinPort) : Pending (is ++ [recv]) ↔
    (machine.run is).detects recv = true ∨ Pending is ∧ isCountRead recv.data = false := by
  constructor
  · rintro ⟨pre, first, post, hlast, hread⟩
    rcases hlast.concat_cases with ⟨hdet, -⟩ | ⟨post', rfl, hlast', -⟩
    · exact .inl hdet
    · refine .inr ⟨⟨pre, first, post', hlast', fun r hr => hread r (List.mem_append_left _ hr)⟩, ?_⟩
      exact hread recv (List.mem_append_right _ (List.mem_singleton_self _))
  · intro h
    cases hdet : (machine.run is).detects recv with
    | true => exact ⟨is, recv, [], .of_detects hdet, fun r hr => nomatch hr⟩
    | false =>
      rw [hdet] at h
      obtain ⟨⟨pre, first, post, hlast, hread⟩, hrecv⟩ := h.resolve_left Bool.false_ne_true
      refine ⟨pre, first, post ++ [recv], hlast.concat hdet, fun r hr => ?_⟩
      rcases List.mem_append.1 hr with hr | hr
      · exact hread r hr
      · rw [List.mem_singleton.1 hr]
        exact hrecv

theorem peakDetected_iff_pending (is : List TdmaMinPort) : (machine.run is).peakDetected = true ↔ Pending is := by
  induction is using List.reverseRecOn with
  | nil =>
    constructor
    · intro h
      cases h
    · rintro ⟨pre, first, post, hlast, -⟩
      have hlen := congrArg List.length hlast.split
      simp at hlen
  | append_singleton is r ih =>
    rw [(clock_flag is r).1, pending_concat, ← ih, Bool.or_eq_true, Bool.and_eq_true, Bool.not_eq_true']

theorem LastPeak.counterPrev (h : LastPeak is pre first post) :
    (machine.run is).counterPrev = (machine.run (pre ++ [first])).counterPrev := by
  obtain ⟨rfl, -, hnone⟩ := h
  induction post using List.reverseRecOn with
  | nil => rw [List.append_nil]
  | append_singleton post r ih =>
    obtain ⟨hnone, hnot⟩ := (noPeak_concat ..).1 hnone
    rw [← List.append_assoc, (clock_flag _ r).2 hnot, ih hnone]

/-- To the Nios, a data packet with mode 0111 and bit 18 set. -/
def IsReport (p : TdmaMinPort) : Prop := p.addr = 7#8 ∧ isPeakReport p.data = true ∧ p.data.getLsbD 18 = true

/-- Type, mode, bit 18 and the count are all that a report has. -/
theorem reportPacket_eq (c : BitVec 18) : reportPacket c = ⟨7#8, 0x80740000#32 ||| c.setWidth 32⟩ := by
  have hhead : (dataWord 0b0111#4).setSlice 18 1#1 &&& ~~~((BitVec.allOnes 18).setWidth 32 <<< 0) = 0x80740000#32 := by
    decide
  rw [reportPacket, BitVec.setSlice, hhead, BitVec.shiftLeft_zero]

theorem isReport_reportPacket (c : BitVec 18) : IsReport (reportPacket c) := by
  refine ⟨rfl, ?_, ?_⟩
  · rw [reportPacket, isPeakReport, isData_setSlice _ _ _ (by decide), isData_setSlice _ _ _ (by decide),
      isData_dataWord]
    rfl
  · rw [reportPacket, BitVec.getLsbD_setSlice, if_pos (by decide), if_neg (by decide)]
    rfl

theorem not_isReport_idle : ¬ IsReport .idle := fun h => absurd h.1 (by decide)

theorem sendSignal_concat (is : List TdmaMinPort) (recv : TdmaMinPort) : (machine.run (is ++ [recv])).sendSignal =
    if (machine.run is).peakDetected then reportPacket (machine.run is).counterPrev else .idle := by
  rw [Machine.run_concat]
  exact sendSignal_clock _ recv

/-- In the clock of the next word a peak is not followed by another: the slope is negative. -/
theorem detects_after_peak (h : (machine.run is).detects first = true) (recv : TdmaMinPort) :
    (machine.run (is ++ [first])).detects recv = false := by
  obtain ⟨x, -, hpeak, -⟩ := run_of_detects h
  have hslope : (machine.run (is ++ [first])).lastSlopePos = false := congrArg Detector.lastSlopePos hpeak
  rw [detects, hslope, Bool.and_false, Bool.false_and]

/-- The word sent in a clock is a report exactly if a peak has been detected before it and not been acknowledged since;
it has the count latched with the last peak. Every other word is zero. A peak is reported in the clock after it, and
its count stays in that clock. -/
theorem report_until_acknowledged (is : List TdmaMinPort) (recv : TdmaMinPort) :
    let sent := (machine.run (is ++ [recv])).sendSignal
    (IsReport sent ↔ Pending is) ∧
      (∀ pre first post, IsReport sent → LastPeak is pre first post →
        sent = ⟨7#8, 0x80740000#32 ||| (machine.run (pre ++ [first])).counterPrev.setWidth 32⟩) ∧
      (¬ IsReport sent → sent = ⟨0#8, 0#32⟩) ∧
      ((machine.run is).detects recv = true → ∀ next,
        (machine.run (is ++ [recv] ++ [next])).sendSignal =
            ⟨7#8, 0x80740000#32 ||| (machine.run (is ++ [recv])).counterPrev.setWidth 32⟩ ∧
          (machine.run (is ++ [recv] ++ [next])).counterPrev = (machine.run (is ++ [recv])).counterPrev) := by
  dsimp only
  refine ⟨?_, ?_, ?_, ?_⟩
  · rw [sendSignal_concat, ← peakDetected_iff_pending]
    split
    case isTrue hflag => exact iff_of_true (isReport_reportPacket _) hflag
    case isFalse hflag => exact iff_of_false not_isReport_idle hflag
  · intro pre first post hreport hlast
    rw [sendSignal_concat] at hreport ⊢
    split
    case isTrue hflag => rw [reportPacket_eq, hlast.counterPrev]
    case isFalse hflag =>
      rw [if_neg hflag] at hreport
      exact absurd hreport not_isReport_idle
  · intro hreport
    rw [sendSignal_concat] at hreport ⊢
    split
    case isTrue hflag =>
      rw [if_pos hflag] at hreport
      exact absurd (isReport_reportPacket _) hreport
    case isFalse => rfl
  · intro hdet next
    have hflag : (machine.run (is ++ [recv])).peakDetected = true := by
      rw [(clock_flag is recv).1, hdet, Bool.true_or]
    refine ⟨?_, (clock_flag _ next).2 (detects_after_peak hdet next)⟩
    rw [sendSignal_concat, if_pos hflag, reportPacket_eq]

/-- The values 5, 7 and 3, and an acknowledgement: a report with the count 1, and then no more. -/
theorem report_until_acknowledged_once :
    let before := halves 5 ++ halves 7 ++ [CorAsp.halfPacket false 0]
    let peak := CorAsp.halfPacket true 3
    let countRead : TdmaMinPort := ⟨4, dataWord 0b0110#4⟩
    (machine.run (before ++ [peak] ++ [countRead])).sendSignal = ⟨7#8, 0x80740001#32⟩ ∧
      (machine.run (before ++ [peak] ++ [countRead] ++ [.idle])).sendSignal = ⟨0#8, 0#32⟩ := by
  intro before peak countRead
  constructor
  · have hcount : (machine.run (before ++ [peak])).counterPrev = 1 := by decide +kernel
    have hreported := ((report_until_acknowledged before peak).2.2.2 (by decide +kernel) countRead).1
    rw [hcount] at hreported
    exact hreported
  · refine (report_until_acknowledged (before ++ [peak] ++ [countRead]) .idle).2.2.1 fun hreport => ?_
    rcases (pending_concat ..).1 ((report_until_acknowledged _ .idle).1.1 hreport) with hdet | ⟨-, hread⟩
    · exact absurd hdet (by decide +kernel)
    · exact absurd hread (by decide)

end PdAsp
end TdmaSoc
