import Mathlib.Logic.Function.Iterate

/-!
# Steps of a clock

`Steps f P n s s'`: `n` clocks lead from `s` to `s'`, and `P` holds of every state before `s'`. Paths
compose, and every state on one can be looked at. `exists_segment` is for a run cut into segments: every
clock belongs to one.
-/

namespace TdmaSoc
variable {σ : Type*}

def Steps (f : σ → σ) (P : σ → Prop) : Nat → σ → σ → Prop
  | 0, s, s' => s = s'
  | n + 1, s, s' => P s ∧ Steps f P n (f s) s'

namespace Steps
variable {f : σ → σ} {P : σ → Prop}

theorem trans {n m : Nat} {s s' s'' : σ} (h : Steps f P n s s') (h' : Steps f P m s' s'') :
    Steps f P (n + m) s s'' := by
  induction n generalizing s with
  | zero => cases h; rwa [Nat.zero_add]
  | succ n ih =>
    rw [Nat.add_right_comm]
    exact ⟨h.1, ih h.2⟩

theorem iterate_eq {n : Nat} {s s' : σ} (h : Steps f P n s s') : f^[n] s = s' := by
  induction n generalizing s with
  | zero => exact h
  | succ n ih => exact ih h.2

theorem get {n k : Nat} {s s' : σ} (h : Steps f P n s s') (hk : k < n) : P (f^[k] s) := by
  induction n generalizing s k with
  | zero => omega
  | succ n ih =>
    cases k with
    | zero => exact h.1
    | succ k =>
      show P (f^[k] (f s))
      exact ih h.2 (by omega)

theorem mono {Q : σ → Prop} {n : Nat} {s s' : σ} (hPQ : ∀ x, P x → Q x) (h : Steps f P n s s') :
    Steps f Q n s s' := by
  induction n generalizing s with
  | zero => exact h
  | succ n ih => exact ⟨hPQ s h.1, ih h.2⟩

/-- What every clock of the path keeps is there all along it. -/
theorem keeps_at {I : σ → Prop} {n k : Nat} {s s' : σ} (h : Steps f P n s s') (h0 : I s)
    (hstep : ∀ x, P x → I x → I (f x)) (hk : k ≤ n) : I (f^[k] s) := by
  induction k generalizing n s with
  | zero => exact h0
  | succ k ih =>
    cases n with
    | zero => omega
    | succ n => exact ih h.2 (hstep s h.1 h0) (by omega)

theorem keeps {I : σ → Prop} {n : Nat} {s s' : σ} (h : Steps f P n s s') (h0 : I s)
    (hstep : ∀ x, P x → I x → I (f x)) : I s' := by
  rw [← h.iterate_eq]
  exact h.keeps_at h0 hstep (Nat.le_refl n)

end Steps

/-- Segments that follow each other from 0 on leave no gap. -/
theorem exists_segment (Start : Nat → Prop) (len : Nat → Nat) (h0 : Start 0) (hpos : ∀ t, 0 < len t)
    (hnext : ∀ t, Start t → Start (t + len t)) (m : Nat) : ∃ t, Start t ∧ t ≤ m ∧ m < t + len t := by
  induction m with
  | zero => exact ⟨0, h0, Nat.le_refl 0, by have := hpos 0; omega⟩
  | succ m ih =>
    obtain ⟨t, ht, hle, hlt⟩ := ih
    by_cases hm : m + 1 < t + len t
    · exact ⟨t, ht, by omega, hm⟩
    · have := hpos (t + len t)
      exact ⟨t + len t, hnext t ht, by omega, by omega⟩

end TdmaSoc
