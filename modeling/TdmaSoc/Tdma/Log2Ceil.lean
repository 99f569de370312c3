import Mathlib.Order.Bounds.Defs
import TdmaSoc.Tdma.Types

/-!
# The powers that log2Ceil evaluates

The condition of the loop is a short-circuit `and` with the power on its left: `2**i` is evaluated before `i < 31` can
stop it. `log2CeilTrace` records the powers; above `2 ^ 30` the last one is `2 ^ 31`, which is no integer.
-/

namespace TdmaSoc
variable {x : Nat}

/-- `integer'high` -/
def integerHigh : Nat := 2 ^ 31 - 1

/-- The loop entered with exponent `i`, for `turns` evaluations of its condition at most: the powers that it evaluates,
and the exponent that it returns if it has ended. -/
def log2CeilTrace (x : Nat) : Nat → Nat → List Nat × Option Nat
  | 0, _ => ([], none)
  | turns + 1, i =>
    if 2 ^ i < x ∧ i < 31 then (2 ^ i :: (log2CeilTrace x turns (i + 1)).1, (log2CeilTrace x turns (i + 1)).2)
    else ([2 ^ i], some i)

/-- Within 32 evaluations the loop has ended. -/
theorem log2CeilTrace_ends (x : Nat) :
    ∀ {turns i : Nat}, turns + i = 31 → (log2CeilTrace x (turns + 1) i).2 = some (log2CeilLoop x turns i)
  | 0, i, hi => by
    have hguard : ¬ (2 ^ i < x ∧ i < 31) := by omega
    rw [log2CeilTrace, if_neg hguard]
    rfl
  | turns + 1, i, hi => by
    rw [log2CeilTrace, log2CeilLoop]
    split
    case isTrue => exact log2CeilTrace_ends x (by omega)
    case isFalse => rfl

/-- While `x` is at most `2 ^ 30` the loop ends before it reaches the exponent 31. -/
theorem powers_le (hx : x ≤ 2 ^ 30) :
    ∀ {turns i : Nat}, i ≤ 30 → ∀ p ∈ (log2CeilTrace x turns i).1, p ≤ integerHigh
  | 0, _, _ => fun p hp => nomatch hp
  | turns + 1, i, hi => by
    intro p hp
    have hpow : 2 ^ i ≤ integerHigh :=
      Nat.le_trans (Nat.pow_le_pow_right (by decide) hi) (by decide)
    rw [log2CeilTrace] at hp
    split at hp
    case isTrue hturn =>
      have hlt : i < 30 := (Nat.pow_lt_pow_iff_right (by decide)).1 (Nat.lt_of_lt_of_le hturn.1 hx)
      rcases List.mem_cons.1 hp with rfl | hp
      · exact hpow
      · exact powers_le hx hlt p hp
    case isFalse =>
      rw [List.mem_singleton.1 hp]
      exact hpow

/-- Above it the loop goes on to the exponent 31, and evaluates its power. -/
theorem mem_powers (hx : 2 ^ 30 < x) :
    ∀ {turns i : Nat}, turns + i = 31 → 2 ^ 31 ∈ (log2CeilTrace x (turns + 1) i).1
  | 0, i, hi => by
    have hguard : ¬ (2 ^ i < x ∧ i < 31) := by omega
    rw [log2CeilTrace, if_neg hguard, show i = 31 by omega]
    exact List.mem_singleton_self _
  | turns + 1, i, hi => by
    have hpow : 2 ^ i ≤ 2 ^ 30 := Nat.pow_le_pow_right (by decide) (by omega)
    rw [log2CeilTrace, if_pos ⟨Nat.lt_of_le_of_lt hpow hx, by omega⟩]
    exact List.mem_cons_of_mem _ (mem_powers hx (by omega))

theorem isLeast_log2Ceil (hx : x ≤ 2 ^ 31) : IsLeast {i | x ≤ 2 ^ i} (log2Ceil x) :=
  ⟨le_two_pow_log2Ceil hx, fun _ hb => log2Ceil_le hb⟩

/-- The loop ends with the least exponent that is enough; each power that it evaluates on the way is an integer exactly
up to `2 ^ 30`. -/
theorem log2Ceil_exact_iff (x : Nat) :
    ((∃ turns, (log2CeilTrace x turns 0).2 = some (log2Ceil x)) ∧
        (∀ turns, ∀ p ∈ (log2CeilTrace x turns 0).1, p ≤ integerHigh) ∧ IsLeast {i | x ≤ 2 ^ i} (log2Ceil x)) ↔
      x ≤ 2 ^ 30 := by
  constructor
  · rintro ⟨-, hpowers, -⟩
    by_contra hlarge
    have hle : 2 ^ 31 ≤ integerHigh := hpowers 32 _ (mem_powers (by omega) rfl)
    exact absurd hle (by decide)
  · intro hsmall
    refine ⟨⟨32, log2CeilTrace_ends x rfl⟩, fun turns => powers_le hsmall (by decide), isLeast_log2Ceil ?_⟩
    exact Nat.le_trans hsmall (by decide)

/-- The largest `positive` makes the loop evaluate `2 ** 31`. -/
theorem log2Ceil_overflows : ¬ ∀ x, 0 < x ∧ x ≤ integerHigh →
    (∃ turns, (log2CeilTrace x turns 0).2 = some (log2Ceil x)) ∧
      (∀ turns, ∀ p ∈ (log2CeilTrace x turns 0).1, p ≤ integerHigh) ∧ IsLeast {i | x ≤ 2 ^ i} (log2Ceil x) := by
  intro h
  have hle : 2 ^ 31 ≤ integerHigh :=
    (h integerHigh ⟨by decide, Nat.le_refl _⟩).2.1 32 _ (mem_powers (by decide) rfl)
  exact absurd hle (by decide)

end TdmaSoc
