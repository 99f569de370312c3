import TdmaSoc.Lib.Machine

/-!
# A machine inside a machine

A component of a larger machine runs as it does alone, on the inputs that the rest makes for it. `Hosts f g` says
so: `f` reads the component's state off the state of the whole, and `g` its input. What is known of all runs of
the component then holds in every run of the whole.
-/

namespace TdmaSoc
namespace Machine
variable {σ ι τ κ β : Type*} {N : Machine τ κ} {M : Machine σ ι} {f : τ → σ} {g : τ → κ → ι}

structure Hosts (N : Machine τ κ) (M : Machine σ ι) (f : τ → σ) (g : τ → κ → ι) : Prop where
  init : f N.init = M.init
  step : ∀ t k, f (N.step t k) = M.step (f t) (g t k)

/-- What the component is given along a run of the whole. -/
def inputs (N : Machine τ κ) (g : τ → κ → ι) (ks : List κ) : List ι := N.log (fun t k => [g t k]) ks

theorem inputs_concat (ks : List κ) (k : κ) : N.inputs g (ks ++ [k]) = N.inputs g ks ++ [g (N.run ks) k] :=
  N.log_concat _ ks k

theorem length_inputs (ks : List κ) : (N.inputs g ks).length = ks.length := by
  induction ks using List.reverseRecOn with
  | nil => rfl
  | append_singleton ks k ih => rw [inputs_concat, List.length_append, List.length_append, ih]; rfl

theorem inputs_take (ks : List κ) (n : Nat) : (N.inputs g ks).take n = N.inputs g (ks.take n) := by
  induction ks using List.reverseRecOn with
  | nil =>
    rw [List.take_nil]
    exact List.take_nil
  | append_singleton ks k ih =>
    rcases Nat.lt_or_ge ks.length n with hlt | hge
    · rw [List.take_of_length_le (by rw [length_inputs, List.length_append, List.length_singleton]; omega),
        List.take_of_length_le (by rw [List.length_append, List.length_singleton]; omega)]
    · rw [inputs_concat, List.take_append_of_le_length (by rwa [length_inputs]), List.take_append_of_le_length hge, ih]

/-- A part that is given the inputs of the whole. -/
theorem inputs_self (N : Machine τ κ) (ks : List κ) : N.inputs (fun _ k => k) ks = ks := by
  induction ks using List.reverseRecOn with
  | nil => rfl
  | append_singleton ks k ih => rw [inputs_concat, ih]

namespace Hosts

theorem run (h : N.Hosts M f g) (ks : List κ) : M.run (N.inputs g ks) = f (N.run ks) := by
  induction ks using List.reverseRecOn with
  | nil => exact h.init.symm
  | append_singleton ks k ih => rw [inputs_concat, M.run_concat, ih, N.run_concat, h.step]

theorem along_iff (h : N.Hosts M f g) {P : σ → ι → Prop} {ks : List κ} :
    M.Along P (N.inputs g ks) ↔ N.Along (fun t k => P (f t) (g t k)) ks := by
  induction ks using List.reverseRecOn with
  | nil => exact Iff.rfl
  | append_singleton ks k ih => rw [inputs_concat, M.along_concat, N.along_concat, ih, h.run]

theorem log (h : N.Hosts M f g) (obs : σ → ι → List β) (ks : List κ) :
    M.log obs (N.inputs g ks) = N.log (fun t k => obs (f t) (g t k)) ks := by
  induction ks using List.reverseRecOn with
  | nil => rfl
  | append_singleton ks k ih => rw [inputs_concat, M.log_concat, N.log_concat, ih, h.run]

end Hosts

/-- A guard on the inputs alone. -/
theorem along_of_forall {Q : κ → Prop} {ks : List κ} (h : ∀ k ∈ ks, Q k) : N.Along (fun _ k => Q k) ks := by
  induction ks using List.reverseRecOn with
  | nil => trivial
  | append_singleton ks k ih =>
    rw [N.along_concat]
    exact ⟨ih fun k hk => h k (List.mem_append_left _ hk), h k (List.mem_append_right _ (List.mem_singleton_self k))⟩

end Machine
end TdmaSoc
