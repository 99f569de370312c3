import Mathlib.Data.Nat.Bitwise

/-!
# Reading and assigning slices of a bit vector

`d.slice lo w` is the `w` bits of `d` from bit `lo` up, `d.setSlice lo v` is `d` after `v` has been
assigned to the bits from `lo` up. Reading back an assigned slice gives what was assigned, reading a
slice next to it gives what was there.
-/

namespace BitVec
variable {n w w' : Nat}

/-- `d(lo + w - 1 downto lo)` -/
def slice (d : BitVec n) (lo w : Nat) : BitVec w := d.extractLsb' lo w

/-- `d(lo + w - 1 downto lo) <= v`, every other bit kept. -/
def setSlice (d : BitVec n) (lo : Nat) (v : BitVec w) : BitVec n :=
  d &&& ~~~((allOnes w).setWidth n <<< lo) ||| v.setWidth n <<< lo

theorem getLsbD_setSlice (d : BitVec n) (lo : Nat) (v : BitVec w) (i : Nat) :
    (d.setSlice lo v).getLsbD i =
      if i < n then if lo ≤ i ∧ i < lo + w then v.getLsbD (i - lo) else d.getLsbD i else false := by
  by_cases hn : i < n
  · by_cases hlo : i < lo
    · simp [setSlice, hn, hlo]
    · by_cases hw : i - lo < w
      · have hw' : i < lo + w := by omega
        simp [setSlice, hn, hlo, hw, hw', show lo ≤ i by omega]
      · have hw' : ¬ i < lo + w := by omega
        have hv : v.getLsbD (i - lo) = false := BitVec.getLsbD_of_ge _ _ (by omega)
        simp [setSlice, hn, hlo, hw, hw', hv]
  · rw [if_neg hn]; exact BitVec.getLsbD_of_ge _ _ (by omega)

@[simp] theorem slice_setSlice_same (d : BitVec n) (lo : Nat) (v : BitVec w) (h : lo + w ≤ n) :
    (d.setSlice lo v).slice lo w = v := by
  ext i hi
  simp only [slice, BitVec.getElem_extractLsb', getLsbD_setSlice]
  rw [if_pos (by omega), if_pos (by omega), ← BitVec.getLsbD_eq_getElem hi]
  congr 1; omega

theorem slice_setSlice_disjoint (d : BitVec n) {lo lo' : Nat} (v : BitVec w) (h : lo' + w' ≤ lo ∨ lo + w ≤ lo') :
    (d.setSlice lo v).slice lo' w' = d.slice lo' w' := by
  ext i hi
  simp only [slice, BitVec.getElem_extractLsb', getLsbD_setSlice]
  by_cases hn : lo' + i < n
  · rw [if_pos hn, if_neg (by omega)]
  · rw [if_neg hn, BitVec.getLsbD_of_ge _ _ (by omega)]

theorem getLsbD_slice (d : BitVec n) (lo w i : Nat) :
    (d.slice lo w).getLsbD i = (decide (i < w) && d.getLsbD (lo + i)) := by
  simp only [slice, BitVec.getLsbD_extractLsb']

/-- A word with the upper bits of `v` becomes `v` when it is assigned the lower bits of `v`. -/
theorem setSlice_slice_eq {d v : BitVec n} {lo : Nat} (h : lo + w = n) (high : d.slice lo w = v.slice lo w) :
    d.setSlice 0 (v.slice 0 lo) = v := by
  refine BitVec.eq_of_getLsbD_eq fun i hi => ?_
  rw [getLsbD_setSlice, if_pos hi, getLsbD_slice]
  by_cases hlo : i < lo
  · simp [hlo]
  · rw [if_neg (by omega)]
    have := congrArg (BitVec.getLsbD · (i - lo)) high
    simp only [getLsbD_slice, show lo + (i - lo) = i by omega, show i - lo < w by omega, decide_true,
      Bool.true_and] at this
    exact this

@[simp] theorem slice_zero (lo w : Nat) : (0#n).slice lo w = 0#w := by
  ext i hi; simp [slice]

/-- What is left of a shifted vector under a mask of ones is a slice. -/
theorem toNat_shift_mask (d : BitVec n) (lo : Nat) (h : w ≤ n) :
    ((d >>> lo) &&& BitVec.ofNat n (2 ^ w - 1)).toNat = (d.slice lo w).toNat := by
  have hmask : 2 ^ w - 1 < 2 ^ n := by
    have hle := Nat.pow_le_pow_right (show 0 < 2 by omega) h
    have hpos := Nat.two_pow_pos w
    omega
  rw [toNat_and, toNat_ushiftRight, toNat_ofNat, Nat.mod_eq_of_lt hmask, Nat.and_two_pow_sub_one_eq_mod, slice,
    extractLsb'_toNat]

end BitVec
