import Mathlib.Algebra.BigOperators.Group.Finset.Basic
import Mathlib.Data.BitVec

/-!
# The windowed correlation of a circular buffer

What is to be computed, without the component that computes it: the sum of the products of the `n`
pairs of words mirrored about the gap below the origin `o`, and the order in which the addresses of
the window are asked for, spreading out from the origin.
-/

namespace TdmaSoc
namespace Window

abbrev Address := BitVec 10

/-- `o, o-1, o+1, o-2, o+2, …, o-n, o+n` -/
def schedule (o : Address) (n : Nat) : List Address :=
  o :: (List.range n).flatMap fun i => [o - 1 - BitVec.ofNat 10 i, o + 1 + BitVec.ofNat 10 i]

/-- The sum for `i = 0 .. n-1` of `v (o + i) * v (o - 1 - i)`. -/
def correlation (v : Address → BitVec 16) (o : Address) (n : Nat) : Nat :=
  ∑ i ∈ Finset.range n, (v (o + BitVec.ofNat 10 i)).toNat * (v (o - 1 - BitVec.ofNat 10 i)).toNat

def answers (v : Address → BitVec 16) (l : List Address) : List (Address × BitVec 16) := l.map fun a => (a, v a)

theorem schedule_succ (o : Address) (n : Nat) :
    schedule o (n + 1) = schedule o n ++ [o - 1 - BitVec.ofNat 10 n, o + 1 + BitVec.ofNat 10 n] := by
  simp [schedule, List.range_succ]

theorem schedule_length (o : Address) (n : Nat) : (schedule o n).length = 2 * n + 1 := by
  induction n with
  | zero => rfl
  | succ n ih => rw [schedule_succ, List.length_append, ih]; simp; omega

theorem schedule_prefix (o : Address) {k n : Nat} (h : k < n) : schedule o (k + 1) <+: schedule o n := by
  obtain ⟨m, rfl⟩ : ∃ m, n = k + 1 + m := ⟨n - (k + 1), by omega⟩
  clear h
  induction m with
  | zero => exact List.prefix_refl _
  | succ m ih => exact ih.trans (by rw [← Nat.add_assoc, schedule_succ o (k + 1 + m)]; exact List.prefix_append ..)

theorem mem_schedule {o a : Address} {n : Nat} :
    a ∈ schedule o n ↔ a = o ∨ ∃ i < n, a = o - 1 - BitVec.ofNat 10 i ∨ a = o + 1 + BitVec.ofNat 10 i := by
  simp [schedule]

theorem below_mem_schedule (o : Address) {i n : Nat} (h : i < n) : o - 1 - BitVec.ofNat 10 i ∈ schedule o n :=
  mem_schedule.2 (.inr ⟨i, h, .inl rfl⟩)

theorem above_mem_schedule (o : Address) {i n : Nat} (h : i ≤ n) : o + BitVec.ofNat 10 i ∈ schedule o n := by
  rcases i with _ | i
  · exact mem_schedule.2 (.inl (by simp))
  · refine mem_schedule.2 (.inr ⟨i, h, .inr ?_⟩)
    rw [BitVec.ofNat_add, BitVec.add_assoc, BitVec.add_comm 1]; rfl

/-- The next address below has not been asked for yet. -/
theorem below_not_mem_schedule (o : Address) {k : Nat} (hk : k < 511) :
    o - 1 - BitVec.ofNat 10 k ∉ schedule o k := by
  rw [mem_schedule]
  rintro (h | ⟨i, hi, h | h⟩) <;> bv_omega

theorem above_not_mem_schedule (o : Address) {k : Nat} (hk : k < 511) :
    o + 1 + BitVec.ofNat 10 k ∉ schedule o k ++ [o - 1 - BitVec.ofNat 10 k] := by
  rw [List.mem_append, mem_schedule, List.mem_singleton]
  rintro ((h | ⟨i, hi, h | h⟩) | h) <;> bv_omega

theorem answers_update {v : Address → BitVec 16} {a : Address} {x : BitVec 16} {l : List Address} (h : a ∉ l) :
    answers (Function.update v a x) l = answers v l := by
  refine List.map_congr_left fun b hb => ?_
  have hba : b ≠ a := fun hba => h (hba ▸ hb)
  rw [Function.update_of_ne hba]

theorem answers_concat (v : Address → BitVec 16) (l : List Address) (a : Address) :
    answers v (l ++ [a]) = answers v l ++ [(a, v a)] := by
  simp [answers]

theorem correlation_succ (v : Address → BitVec 16) (o : Address) (n : Nat) :
    correlation v o (n + 1) = correlation v o n +
      (v (o + BitVec.ofNat 10 n)).toNat * (v (o - 1 - BitVec.ofNat 10 n)).toNat :=
  Finset.sum_range_succ ..

theorem correlation_congr {v v' : Address → BitVec 16} {o : Address} {n : Nat}
    (h : ∀ a ∈ schedule o n, v a = v' a) : correlation v o n = correlation v' o n := by
  refine Finset.sum_congr rfl fun i hi => ?_
  have hi := Finset.mem_range.1 hi
  rw [h _ (above_mem_schedule o (Nat.le_of_lt hi)), h _ (below_mem_schedule o hi)]

theorem correlation_update {v : Address → BitVec 16} {o a : Address} {x : BitVec 16} {n : Nat}
    (h : a ∉ schedule o n) : correlation (Function.update v a x) o n = correlation v o n :=
  correlation_congr fun b hb =>
    have hba : b ≠ a := fun hba => h (hba ▸ hb)
    Function.update_of_ne hba ..

/-- A product of two words is below `2 ^ 32`, so a correlation of `n` pairs is below `n * 2 ^ 32`. -/
theorem correlation_le (v : Address → BitVec 16) (o : Address) (n : Nat) :
    correlation v o n ≤ n * 4294836225 := by
  induction n with
  | zero => simp [correlation]
  | succ n ih =>
    have h1 := (v (o + BitVec.ofNat 10 n)).isLt
    have h2 := (v (o - 1 - BitVec.ofNat 10 n)).isLt
    have := Nat.mul_le_mul (Nat.le_sub_one_of_lt h1) (Nat.le_sub_one_of_lt h2)
    rw [correlation_succ]; omega

/-- Among the last `2 * n` addresses up to the newest, which are those of `n` pairs about the origin next to it. -/
def Behind (newest : Address) (n : Nat) (a : Address) : Prop := ∃ j < 2 * n, a = newest - BitVec.ofNat 10 j

instance (newest : Address) (n : Nat) (a : Address) : Decidable (Behind newest n a) :=
  inferInstanceAs (Decidable (∃ j < 2 * n, _))

theorem behind_origin (newest : Address) {n : Nat} (h : 1 ≤ n) : Behind newest n (newest - BitVec.ofNat 10 (n - 1)) :=
  ⟨n - 1, by omega, rfl⟩

theorem behind_below (newest : Address) {k n : Nat} (h : k < n) :
    Behind newest n (newest - BitVec.ofNat 10 (n - 1) - BitVec.ofNat 10 k - 1) := by
  obtain ⟨m, rfl⟩ : ∃ m, n = m + 1 := ⟨n - 1, by omega⟩
  refine ⟨m + k + 1, by omega, ?_⟩
  rw [BitVec.ofNat_add, BitVec.ofNat_add, sub_add_eq_sub_sub, sub_add_eq_sub_sub, Nat.add_sub_cancel]
  rfl

theorem behind_above (newest : Address) {k n : Nat} (h : k < n) :
    Behind newest n (newest - BitVec.ofNat 10 (n - 1) + BitVec.ofNat 10 k) := by
  obtain ⟨m, hm⟩ : ∃ m, n - 1 = k + m := ⟨n - 1 - k, by omega⟩
  refine ⟨m, by omega, ?_⟩
  rw [hm, BitVec.ofNat_add, sub_add_eq_sub_sub_swap, BitVec.sub_add_cancel]

/-- Every address of the schedule but the last is among those behind the newest. -/
theorem behind_of_schedule {newest a b : Address} {l : List Address} {n : Nat} (hn : 1 ≤ n)
    (h : l ++ [a, b] <+: schedule (newest - BitVec.ofNat 10 (n - 1)) n) : Behind newest n a := by
  obtain ⟨m, rfl⟩ : ∃ m, n = m + 1 := ⟨n - 1, by omega⟩
  rw [schedule_succ, List.append_cons, List.append_cons _ _ [_ + 1 + _], List.prefix_concat_iff] at h
  have hmem : a ∈ schedule (newest - BitVec.ofNat 10 (m + 1 - 1)) m ++
      [newest - BitVec.ofNat 10 (m + 1 - 1) - 1 - BitVec.ofNat 10 m] := by
    rcases h with h | h
    · rw [← (List.append_inj_left' h rfl)]
      exact List.mem_append_right _ (List.mem_singleton_self a)
    · exact h.subset (List.mem_append_left _ (List.mem_append_right _ (List.mem_singleton_self a)))
  rw [List.mem_append, mem_schedule, List.mem_singleton] at hmem
  rcases hmem with (rfl | ⟨i, hi, rfl | rfl⟩) | rfl
  · exact behind_origin newest hn
  · rw [sub_right_comm]
    exact behind_below newest (by omega)
  · have := behind_above newest (show i + 1 < m + 1 by omega)
    rw [BitVec.ofNat_add, BitVec.add_comm (BitVec.ofNat 10 i), ← BitVec.add_assoc] at this
    exact this
  · rw [sub_right_comm]
    exact behind_below newest (by omega)

theorem Behind.mono {newest a : Address} {n m : Nat} (h : Behind newest n a) (hnm : n ≤ m) : Behind newest m a := by
  obtain ⟨j, hj, ha⟩ := h
  exact ⟨j, by omega, ha⟩

/-! ### Answers that come one request late -/

/-- The products of the words on both sides of `o`, those at `o` itself left out. -/
def centred (u : Address → BitVec 16) (o : Address) (n : Nat) : Nat :=
  ∑ i ∈ Finset.range n, (u (o - 1 - BitVec.ofNat 10 i)).toNat * (u (o + 1 + BitVec.ofNat 10 i)).toNat

/-- The same for words that are numbered, about the number `newest + 1 - n`. What stands at the number itself is
multiplied by `p`. -/
def lateCorrelation (w : Nat → Nat) (newest n p : Nat) : Nat :=
  p * w (newest + 1 - n) + ∑ i ∈ Finset.range (n - 1), w (newest - (n + i)) * w (newest - (n - 2 - i))

theorem getLast?_schedule (o : Address) (n : Nat) : (schedule o n).getLast? = some (o + BitVec.ofNat 10 n) := by
  cases n with
  | zero => simp [schedule]
  | succ n =>
    rw [schedule_succ, List.append_cons, List.getLast?_concat, BitVec.ofNat_add, BitVec.add_comm (BitVec.ofNat 10 n),
      ← BitVec.add_assoc]
    rfl

/-- Each answer is the word at the address asked for before. -/
theorem late_of_isChain {v u : Address → BitVec 16} {o : Address} {n : Nat}
    (h : (answers v (schedule o n)).IsChain fun p q => q.2 = u p.1) {i : Nat} (hi : i < n) :
    v (o - 1 - BitVec.ofNat 10 i) = u (o + BitVec.ofNat 10 i) ∧
      v (o + 1 + BitVec.ofNat 10 i) = u (o - 1 - BitVec.ofNat 10 i) := by
  induction n with
  | zero => exact absurd hi (Nat.not_lt_zero i)
  | succ n ih =>
    have hsplit : answers v (schedule o (n + 1)) = answers v (schedule o n) ++
        [(o - 1 - BitVec.ofNat 10 n, v (o - 1 - BitVec.ofNat 10 n)),
          (o + 1 + BitVec.ofNat 10 n, v (o + 1 + BitVec.ofNat 10 n))] := by
      rw [schedule_succ, answers, List.map_append]
      rfl
    rw [hsplit, List.isChain_append, List.isChain_pair] at h
    obtain ⟨hpre, hpair, hlast⟩ := h
    rcases Nat.lt_succ_iff_lt_or_eq.1 hi with hlt | rfl
    · exact ih hpre hlt
    · refine ⟨hlast (o + BitVec.ofNat 10 i, v (o + BitVec.ofNat 10 i)) ?_ _ rfl, hpair⟩
      rw [answers, List.getLast?_map, getLast?_schedule]
      rfl

/-- Answers that come one request late make a correlation about the origin itself. -/
theorem correlation_late {v u : Address → BitVec 16} {o : Address} {n : Nat}
    (h : (answers v (schedule o (n + 1))).IsChain fun p q => q.2 = u p.1) :
    correlation v o (n + 1) = (v o).toNat * (u o).toNat + centred u o n := by
  have hzero := (late_of_isChain h (Nat.succ_pos n)).1
  have hnone : ∀ a : Address, a + BitVec.ofNat 10 0 = a ∧ a - BitVec.ofNat 10 0 = a := fun a =>
    ⟨BitVec.add_zero a, BitVec.sub_zero a⟩
  rw [(hnone _).1, (hnone _).2] at hzero
  rw [correlation, Finset.sum_range_succ', (hnone _).1, (hnone _).2, hzero, Nat.add_comm, centred]
  congr 1
  refine Finset.sum_congr rfl fun i hi => ?_
  have hi := Finset.mem_range.1 hi
  have habove := (late_of_isChain h (show i < n + 1 by omega)).2
  have hbelow := (late_of_isChain h (show i + 1 < n + 1 by omega)).1
  rw [hbelow, BitVec.ofNat_add, BitVec.add_comm (BitVec.ofNat 10 i), ← BitVec.add_assoc]
  show (v (o + 1 + BitVec.ofNat 10 i)).toNat * (u (o + 1 + BitVec.ofNat 10 i)).toNat = _
  rw [habove]

end Window
end TdmaSoc
