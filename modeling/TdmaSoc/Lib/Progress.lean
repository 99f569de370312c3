import TdmaSoc.Lib.Machine

/-!
# Logs that keep growing

`bound s k` says that what is observed next comes within `k` steps of `s`. It is a relation rather than a function
of the state, so that it can be given by cases. When every step that observes nothing lowers the bound, the log grows
in time (`log_grows`), and when all states have a bound, it grows at a rate (`log_grows_by`).
-/

namespace TdmaSoc
namespace Machine
variable {σ ι β : Type*} {M : Machine σ ι} {P : σ → ι → Prop} {obs : σ → ι → List β} {is js : List ι}

theorem length_log_append (M : Machine σ ι) (obs : σ → ι → List β) (is js : List ι) :
    (M.log obs (is ++ js)).length = (M.log obs is).length + (M.logFrom obs (M.run is) js).length := by
  rw [log_append, List.length_append]

theorem log_grows (bound : σ → Nat → Prop)
    (hstep : ∀ is i k, M.Along P is → P (M.run is) i → bound (M.run is) k →
      obs (M.run is) i ≠ [] ∨ ∃ k' < k, bound (M.step (M.run is) i) k')
    {k : Nat} (h : M.Along P (is ++ js)) (hk : bound (M.run is) k) (hlen : k < js.length) :
    (M.log obs is).length < (M.log obs (is ++ js)).length := by
  induction js generalizing is k with
  | nil => exact absurd hlen (Nat.not_lt_zero k)
  | cons j js ih =>
    rw [List.append_cons] at h ⊢
    have hpre := ((along_append ..).1 h).1
    have hnow := (along_concat ..).1 hpre
    have hgrown := length_log_append M obs (is ++ [j]) js
    have hone := congrArg List.length (M.log_concat obs is j)
    rw [List.length_append] at hone
    rcases hstep is j k hnow.1 hnow.2 hk with hobs | ⟨k', hlt, hk'⟩
    · have := List.length_pos_iff.2 hobs
      omega
    · rw [← M.run_concat] at hk'
      rw [List.length_cons] at hlen
      have := ih h hk' (by omega)
      omega

theorem log_grows_by (bound : σ → Nat → Prop) {most : Nat} (hall : ∀ is, M.Along P is → ∃ k < most, bound (M.run is) k)
    (hstep : ∀ is i k, M.Along P is → P (M.run is) i → bound (M.run is) k →
      obs (M.run is) i ≠ [] ∨ ∃ k' < k, bound (M.step (M.run is) i) k')
    {m : Nat} (h : M.Along P (is ++ js)) (hlen : most * m ≤ js.length) :
    (M.log obs is).length + m ≤ (M.log obs (is ++ js)).length := by
  induction m generalizing is js with
  | zero =>
    rw [length_log_append]
    omega
  | succ m ih =>
    rw [Nat.mul_succ] at hlen
    rw [← List.take_append_drop most js, ← List.append_assoc] at h ⊢
    have hpre := ((along_append ..).1 h).1
    obtain ⟨k, hk, hbound⟩ := hall is ((along_append ..).1 hpre).1
    have htake : (js.take most).length = most := List.length_take_of_le (by omega)
    have hfirst := log_grows bound hstep hpre hbound (by omega)
    have hrest := ih h (by rw [List.length_drop]; omega)
    omega

end Machine
end TdmaSoc
