import TdmaSoc.Asp.Valleys

/-!
# Which values a count is for

The values that end a rise have numbers (`ended`). The count that is latched with one of them goes back to the one
before, or to the start: it is two less than the difference of the two numbers.
-/

namespace TdmaSoc
namespace Detector
variable {xs ys : List (BitVec 36)} {x : BitVec 36}

/-- The numbers of the values that end a rise; the first value has the number 1. -/
def ended (xs : List (BitVec 36)) : List Nat :=
  ((List.range xs.length).filter fun m => (machine.run (xs.take m)).detects (xs.getD m 0)).map (· + 1)

theorem ended_concat (xs : List (BitVec 36)) (x : BitVec 36) :
    ended (xs ++ [x]) = ended xs ++ if (machine.run xs).detects x then [xs.length + 1] else [] := by
  have hold : (List.range xs.length).filter (fun m =>
      (machine.run ((xs ++ [x]).take m)).detects ((xs ++ [x]).getD m 0)) =
        (List.range xs.length).filter fun m => (machine.run (xs.take m)).detects (xs.getD m 0) := by
    refine List.filter_congr fun m hm => ?_
    have hm := List.mem_range.1 hm
    rw [List.take_append_of_le_length (Nat.le_of_lt hm), List.getD_append _ _ _ _ hm]
  unfold ended
  rw [List.length_append, List.length_singleton, List.range_succ, List.filter_append, List.map_append, hold,
    List.filter_singleton, List.take_left, List.getD_append_right _ _ _ _ (Nat.le_refl _), Nat.sub_self]
  congr 1
  show List.map _ (bif (machine.run xs).detects x then _ else _) = _
  cases (machine.run xs).detects x <;> rfl

theorem ended_append (xs ys : List (BitVec 36)) : ended xs <+: ended (xs ++ ys) := by
  induction ys using List.reverseRecOn with
  | nil => simp only [List.append_nil, List.prefix_refl]
  | append_singleton ys y ih =>
    rw [← List.append_assoc, ended_concat]
    exact ih.trans (List.prefix_append ..)

/-- The count since the last value that has ended a rise. -/
theorem counted_run (xs : List (BitVec 36)) : ∃ before k, 0 :: ended xs = before ++ [k] ∧ k ≤ xs.length ∧
    (machine.run xs).Counted (xs.length - k) := by
  induction xs using List.reverseRecOn with
  | nil => exact ⟨[], 0, rfl, Nat.le_refl 0, Nat.le_refl 0, rfl⟩
  | append_singleton xs x ih =>
    rw [ended_concat, Machine.run_concat, List.length_append, List.length_singleton]
    show ∃ before k, _ ∧ _ ∧ ((machine.run xs).step x).Counted _
    rcases (machine.run xs).step_cases x with ⟨hdet, hstep⟩ | ⟨hdet, -⟩
    · refine ⟨0 :: ended xs, xs.length + 1, by rw [hdet, if_pos rfl]; rfl, Nat.le_refl _, ?_⟩
      rw [hstep, Nat.sub_self]
      exact counted_peak _ x
    · obtain ⟨before, k, hlast, hle, hcount⟩ := ih
      refine ⟨before, k, by rw [hdet, if_neg Bool.false_ne_true, List.append_nil]; exact hlast, by omega, ?_⟩
      rw [Nat.sub_add_comm hle]
      exact hcount.step hdet

/-- The count latched with the last value that has ended a rise. -/
theorem latched_run (h : ended xs ≠ []) : ∃ k m, [k, m] <:+ 0 :: ended xs ∧ k + 2 ≤ m ∧
    (machine.run xs).counterPrev = BitVec.ofNat 18 (m - k - 2) := by
  induction xs using List.reverseRecOn with
  | nil => exact absurd rfl h
  | append_singleton xs x ih =>
    rw [ended_concat] at h ⊢
    rw [Machine.run_concat]
    show ∃ k m, _ ∧ _ ∧ ((machine.run xs).step x).counterPrev = _
    cases hdet : (machine.run xs).detects x
    · rw [hdet, if_neg Bool.false_ne_true, List.append_nil] at h
      rw [if_neg Bool.false_ne_true, List.append_nil, counterPrev_step hdet]
      exact ih h
    · obtain ⟨before, k, hlast, hle, hrise, hcounter⟩ := counted_run xs
      have hslope : (machine.run xs).lastSlopePos = true := (Bool.and_eq_true_iff.1 hdet).1
      have hstep : (machine.run xs).step x = (machine.run xs).peak x := by
        rcases (machine.run xs).step_cases x with ⟨-, hstep⟩ | ⟨hnot, -⟩
        · exact hstep
        · cases hnot.symm.trans hdet
      rw [hslope, Bool.toNat_true] at hrise hcounter
      refine ⟨k, xs.length + 1, ⟨before, ?_⟩, by omega, ?_⟩
      · rw [if_pos rfl, ← List.cons_append, hlast, List.append_assoc]
        rfl
      · rw [hstep, show xs.length + 1 - k - 2 = xs.length - k - 1 by omega]
        exact hcounter

/-- `c` is a count for two consecutive of these values. -/
def Counts (xs : List (BitVec 36)) (c : Nat) : Prop :=
  ∃ k m, [k, m] <:+: 0 :: ended xs ∧ k + 2 ≤ m ∧ c = (m - k - 2) % 2 ^ 18

theorem counts_run (h : ended xs ≠ []) : Counts xs (machine.run xs).counterPrev.toNat := by
  obtain ⟨k, m, hlast, hle, hcount⟩ := latched_run h
  exact ⟨k, m, List.IsSuffix.isInfix hlast, hle, by rw [hcount, BitVec.toNat_ofNat]⟩

theorem Counts.append {c : Nat} (h : Counts xs c) (ys : List (BitVec 36)) : Counts (xs ++ ys) c := by
  obtain ⟨k, m, hpair, hcount⟩ := h
  obtain ⟨rest, hrest⟩ := ended_append xs ys
  refine ⟨k, m, List.IsInfix.trans hpair ?_, hcount⟩
  rw [← hrest, ← List.cons_append]
  exact List.IsPrefix.isInfix (List.prefix_append ..)

end Detector

namespace PdAsp

/-- What PdAsp assigns to `current_correlation_value` are the values delivered. -/
theorem log_assigned (is : List TdmaMinPort) : machine.log assigned is = delivered is := by
  induction is using List.reverseRecOn with
  | nil => rfl
  | append_singleton is r ih =>
    rw [Machine.log_concat, ih, delivered, delivered, gathered_concat, gather]
    rcases Bool.eq_false_or_eq_true (isCorrelation r.data) with hd | hd
    · rcases Bool.eq_false_or_eq_true (r.data.getLsbD 18) with h18 | h18
      · rw [hd, h18, if_pos rfl, if_pos rfl, assigned_of_second hd h18, setSlice_eq_append, (detector_run is).2.2]
      · rw [hd, h18, if_pos rfl, if_neg Bool.false_ne_true, assigned_of_first h18, List.append_nil]
    · rw [hd, if_neg Bool.false_ne_true, assigned, hd, Bool.false_and, if_neg Bool.false_ne_true, List.append_nil]

/-- While the flag is up, the latched count is one of those for the values delivered. -/
theorem counts_of_peakDetected {is : List TdmaMinPort} (h : (machine.run is).peakDetected = true) :
    Detector.Counts (delivered is) (machine.run is).counterPrev.toNat := by
  have hended : Detector.ended (delivered is) ≠ [] := by
    induction is using List.reverseRecOn with
    | nil => cases h
    | append_singleton is r ih =>
      rcases run_cases is r with ⟨hsame, -, -, hflag⟩ | ⟨x, hnew, -, hdet, hflag⟩
      · rw [hflag, Bool.and_eq_true] at h
        rw [hsame]
        exact ih h.1
      · rw [hflag, Bool.or_eq_true, hdet] at h
        rw [hnew, Detector.ended_concat]
        rcases h with h | h
        · rw [if_pos h]
          exact List.append_ne_nil_of_right_ne_nil _ (List.cons_ne_nil _ _)
        · exact List.append_ne_nil_of_left_ne_nil (ih h) _
  have hcount : (machine.run is).counterPrev = _ := congrArg Detector.counterPrev (detector_run is).1
  rw [hcount]
  exact Detector.counts_run hended

end PdAsp
end TdmaSoc
