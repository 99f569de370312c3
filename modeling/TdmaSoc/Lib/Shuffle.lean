import Mathlib.Data.Nat.Bitwise
import Mathlib.Tactic.Ring

/-!
# Cascades of exchange-and-shuffle stages

A stage of a `2 ^ n`-terminal network reads its output `j` from the input whose number is `j`, with
its low bit exchanged when the stage's control bit is set, rotated right by one bit. `cascade` puts
`k` such stages in a row, the one controlled by bit `k - 1` first. Rotating `n` times is no rotation
at all, so `n` stages connect terminal `q` to terminal `q ^^^ c`, where `c` is the control word.
-/

namespace TdmaSoc
namespace Shuffle
variable {α : Type*}

/-- `j`, an `n`-bit number, rotated right by one bit. -/
def rotateRight (n j : Nat) : Nat := j / 2 + j % 2 * 2 ^ (n - 1)

def exchange (b : Bool) (j : Nat) : Nat := j ^^^ b.toNat

/-- The first `k` stages seen from the output: bit `0` of the control word acts next to it. -/
def cascade (n c : Nat) : Nat → (Nat → α) → Nat → α
  | 0, f => f
  | k + 1, f => cascade n c k fun j => f (rotateRight n (exchange (c.testBit k) j))

/-- The input terminal that `k` stages connect to output `q`. -/
def route (n c : Nat) : Nat → Nat → Nat
  | 0, q => q
  | k + 1, q => rotateRight n (exchange (c.testBit k) (route n c k q))

theorem cascade_eq (n c k : Nat) (f : Nat → α) (q : Nat) : cascade n c k f q = f (route n c k q) := by
  induction k generalizing f with
  | zero => rfl
  | succ k ih => rw [cascade, ih]; rfl

theorem exchange_div_two (b : Bool) (j : Nat) : exchange b j / 2 = j / 2 := by
  cases b
  · simp [exchange]
  · simp [exchange, Nat.xor_div_two]

theorem exchange_mod_two (b : Bool) (j : Nat) : exchange b j % 2 = (j % 2 + b.toNat) % 2 := by
  cases b
  · simp [exchange]
  · simp [exchange, Nat.xor_mod_two_eq]

theorem mod_two_pow_succ' (x k : Nat) : x % 2 ^ (k + 1) = x % 2 ^ k + x / 2 ^ k % 2 * 2 ^ k := by
  rw [Nat.mod_pow_succ, Nat.mul_comm]

theorem xor_div_two_pow_mod_two (q c k : Nat) :
    (q ^^^ c) / 2 ^ k % 2 = (q / 2 ^ k % 2 + (c.testBit k).toNat) % 2 := by
  rw [Nat.xor_div_two_pow, Nat.xor_mod_two_eq, Nat.testBit_eq_decide_div_mod_eq]
  have h2 : c / 2 ^ k % 2 < 2 := Nat.mod_lt _ (by decide)
  rcases Nat.mod_two_eq_zero_or_one (c / 2 ^ k) with h | h <;> simp [h, Nat.add_mod]

/-- After `k ≤ n` stages the low `k` bits of `q ^^^ c` have moved to the top, in order, and the rest
of `q` has moved down. -/
theorem route_eq {n k : Nat} (c q : Nat) (hk : k ≤ n) :
    route n c k q = q / 2 ^ k + (q ^^^ c) % 2 ^ k * 2 ^ (n - k) := by
  induction k with
  | zero => simp [route, Nat.mod_one]
  | succ k ih =>
    have ih := ih (by omega)
    obtain ⟨m, rfl⟩ : ∃ m, n = k + 1 + m := ⟨n - (k + 1), by omega⟩
    have hpow : 2 ^ (k + 1 + m - k) = 2 * 2 ^ m := by
      rw [show k + 1 + m - k = m + 1 by omega, pow_succ]; ring
    have htop : 2 ^ (k + 1 + m - 1) = 2 ^ k * 2 ^ m := by
      rw [show k + 1 + m - 1 = k + m by omega, pow_add]
    rw [hpow] at ih
    -- the bit that stage `k` moves to the top is bit `k` of `q ^^^ c`
    have hlow : route (k + 1 + m) c k q % 2 = q / 2 ^ k % 2 := by
      rw [ih, show (q ^^^ c) % 2 ^ k * (2 * 2 ^ m) = 2 * ((q ^^^ c) % 2 ^ k * 2 ^ m) by ring]; omega
    have hhigh : route (k + 1 + m) c k q / 2 = q / 2 ^ (k + 1) + (q ^^^ c) % 2 ^ k * 2 ^ m := by
      rw [ih, show (q ^^^ c) % 2 ^ k * (2 * 2 ^ m) = 2 * ((q ^^^ c) % 2 ^ k * 2 ^ m) by ring,
        Nat.pow_succ, ← Nat.div_div_eq_div_mul]
      omega
    rw [route, rotateRight, exchange_div_two, exchange_mod_two, hlow, hhigh, htop, mod_two_pow_succ',
      xor_div_two_pow_mod_two, show k + 1 + m - (k + 1) = m by omega]
    ring

/-- `n` stages connect output `q` to input `q ^^^ c`. -/
theorem route_full {n c q : Nat} (hq : q < 2 ^ n) (hc : c < 2 ^ n) : route n c n q = q ^^^ c := by
  rw [route_eq c q (Nat.le_refl n), Nat.div_eq_of_lt hq, Nat.mod_eq_of_lt (Nat.xor_lt_two_pow hq hc)]
  simp

end Shuffle
end TdmaSoc
