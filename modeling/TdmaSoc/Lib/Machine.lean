import Mathlib.Data.List.Forall2
import Mathlib.Data.List.Induction

/-!
# Synchronous machines

A `Machine` takes one `step` per clock edge on one input per clock. A run is the list of its inputs;
`run` is the state after them, `log` what an observer of every step has written down, and `Along P`
says that the guard `P` (of the state before the step and its input) held at every step. Everything
about runs is proved by appending one clock at a time: `invariant` and `ledger` are the induction
rules for one run, `related` is the one for two.
-/

namespace TdmaSoc

structure Machine (σ ι : Type*) where
  init : σ
  step : σ → ι → σ

namespace Machine
variable {σ ι β : Type*} (M : Machine σ ι)

def runFrom (s : σ) (is : List ι) : σ := is.foldl M.step s

/-- The state after the inputs `is`, from power-on. -/
def run (is : List ι) : σ := M.runFrom M.init is

/-- The guard `P` holds of the state and the input before every step on `is`. -/
def AlongFrom (P : σ → ι → Prop) : σ → List ι → Prop
  | _, [] => True
  | s, i :: is => P s i ∧ AlongFrom P (M.step s i) is

def Along (P : σ → ι → Prop) (is : List ι) : Prop := M.AlongFrom P M.init is

instance decidableAlongFrom (P : σ → ι → Prop) [∀ s i, Decidable (P s i)] :
    ∀ (s : σ) (is : List ι), Decidable (M.AlongFrom P s is)
  | _, [] => .isTrue trivial
  | s, i :: is => @instDecidableAnd _ _ _ (decidableAlongFrom P (M.step s i) is)

instance (P : σ → ι → Prop) [∀ s i, Decidable (P s i)] (is : List ι) : Decidable (M.Along P is) :=
  M.decidableAlongFrom P M.init is

/-- What an observer `obs` of every step (state before it, input) writes down along a run. -/
def logFrom (obs : σ → ι → List β) : σ → List ι → List β
  | _, [] => []
  | s, i :: is => obs s i ++ logFrom obs (M.step s i) is

def log (obs : σ → ι → List β) (is : List ι) : List β := M.logFrom obs M.init is

@[simp] theorem run_nil : M.run [] = M.init := rfl

theorem runFrom_append (s : σ) (is js : List ι) : M.runFrom s (is ++ js) = M.runFrom (M.runFrom s is) js :=
  List.foldl_append

@[simp] theorem runFrom_cons (s : σ) (i : ι) (is : List ι) :
    M.runFrom s (i :: is) = M.runFrom (M.step s i) is := rfl

theorem run_append (is js : List ι) : M.run (is ++ js) = M.runFrom (M.run is) js :=
  M.runFrom_append M.init is js

@[simp] theorem run_concat (is : List ι) (i : ι) : M.run (is ++ [i]) = M.step (M.run is) i :=
  M.run_append is [i]

theorem alongFrom_append (P : σ → ι → Prop) (s : σ) (is js : List ι) :
    M.AlongFrom P s (is ++ js) ↔ M.AlongFrom P s is ∧ M.AlongFrom P (M.runFrom s is) js := by
  induction is generalizing s with
  | nil => simp [AlongFrom, runFrom]
  | cons i is ih => simp only [List.cons_append, AlongFrom, ih, runFrom_cons, and_assoc]

theorem along_append (P : σ → ι → Prop) (is js : List ι) :
    M.Along P (is ++ js) ↔ M.Along P is ∧ M.AlongFrom P (M.run is) js :=
  M.alongFrom_append P M.init is js

@[simp] theorem along_concat (P : σ → ι → Prop) (is : List ι) (i : ι) :
    M.Along P (is ++ [i]) ↔ M.Along P is ∧ P (M.run is) i := by
  rw [along_append]; simp [AlongFrom]

theorem logFrom_append (obs : σ → ι → List β) (s : σ) (is js : List ι) :
    M.logFrom obs s (is ++ js) = M.logFrom obs s is ++ M.logFrom obs (M.runFrom s is) js := by
  induction is generalizing s with
  | nil => rfl
  | cons i is ih => simp only [List.cons_append, logFrom, ih, runFrom_cons, List.append_assoc]

theorem log_append (obs : σ → ι → List β) (is js : List ι) :
    M.log obs (is ++ js) = M.log obs is ++ M.logFrom obs (M.run is) js :=
  M.logFrom_append obs M.init is js

@[simp] theorem log_nil (obs : σ → ι → List β) : M.log obs [] = [] := rfl

@[simp] theorem log_concat (obs : σ → ι → List β) (is : List ι) (i : ι) :
    M.log obs (is ++ [i]) = M.log obs is ++ obs (M.run is) i := by
  rw [log_append]; simp [logFrom]

variable {M}

/-- What a log has was observed at some step of the run. -/
theorem mem_log {obs : σ → ι → List β} {is : List ι} {b : β} (h : b ∈ M.log obs is) :
    ∃ seen i, seen ++ [i] <+: is ∧ b ∈ obs (M.run seen) i := by
  induction is using List.reverseRecOn with
  | nil => cases h
  | append_singleton is i ih =>
    rw [log_concat] at h
    rcases List.mem_append.1 h with h | h
    · obtain ⟨seen, j, hpre, hb⟩ := ih h
      exact ⟨seen, j, hpre.trans (List.prefix_append ..), hb⟩
    · exact ⟨is, i, List.prefix_refl _, h⟩

theorem AlongFrom.mono {P Q : σ → ι → Prop} (h : ∀ s i, P s i → Q s i) {s : σ} {is : List ι}
    (hp : M.AlongFrom P s is) : M.AlongFrom Q s is := by
  induction is generalizing s with
  | nil => trivial
  | cons i is ih => exact ⟨h _ _ hp.1, ih hp.2⟩

theorem Along.mono {P Q : σ → ι → Prop} (h : ∀ s i, P s i → Q s i) {is : List ι}
    (hp : M.Along P is) : M.Along Q is :=
  AlongFrom.mono h hp

/-- An invariant of every guarded step holds after every guarded run. -/
theorem invariantFrom {P : σ → ι → Prop} {I : σ → Prop} (hstep : ∀ s i, I s → P s i → I (M.step s i))
    {s : σ} (h0 : I s) {is : List ι} (h : M.AlongFrom P s is) : I (M.runFrom s is) := by
  induction is generalizing s with
  | nil => exact h0
  | cons i is ih => exact ih (hstep s i h0 h.1) h.2

theorem invariant {P : σ → ι → Prop} {I : σ → Prop} (h0 : I M.init)
    (hstep : ∀ s i, I s → P s i → I (M.step s i)) {is : List ι} (h : M.Along P is) : I (M.run is) :=
  invariantFrom hstep h0 h

/-- An invariant of every step holds after every run. -/
theorem always {I : σ → Prop} (h0 : I M.init) (hstep : ∀ s i, I s → I (M.step s i)) (is : List ι) : I (M.run is) := by
  induction is using List.reverseRecOn with
  | nil => exact h0
  | append_singleton is i ih =>
    rw [run_concat]
    exact hstep _ i ih

/-- A relation that steps on related inputs keep holds of two runs on related inputs. -/
theorem related {R : σ → σ → Prop} {Q : ι → ι → Prop} (h0 : R M.init M.init)
    (hstep : ∀ s s', R s s' → ∀ i i', Q i i' → R (M.step s i) (M.step s' i')) {is is' : List ι}
    (h : List.Forall₂ Q is is') : R (M.run is) (M.run is') := by
  have hfold : Relator.LiftFun R (Relator.LiftFun Q R) M.step M.step := fun s s' hs i i' hi => hstep s s' hs i i' hi
  exact List.rel_foldl hfold h0 h

/-- Where every step accounts for what goes `out` and what stays by what was there and what comes `inn`, the run
does so too. -/
theorem ledger {P : σ → ι → Prop} {inn out : σ → ι → List β} (rest : σ → List β) (h0 : rest M.init = [])
    (hstep : ∀ is i, M.Along P is → P (M.run is) i →
      out (M.run is) i ++ rest (M.step (M.run is) i) = rest (M.run is) ++ inn (M.run is) i)
    {is : List ι} (h : M.Along P is) : M.log inn is = M.log out is ++ rest (M.run is) := by
  induction is using List.reverseRecOn with
  | nil => rw [log_nil, log_nil, run_nil, h0]; rfl
  | append_singleton is i ih =>
    rw [along_concat] at h
    rw [log_concat, log_concat, run_concat, ih h.1, List.append_assoc, List.append_assoc, hstep is i h.1 h.2]

/-- A guard that follows from an invariant of the steps it guards may be assumed at every step. -/
theorem Along.strengthen {P : σ → ι → Prop} {I : σ → Prop} (h0 : I M.init)
    (hstep : ∀ s i, I s → P s i → I (M.step s i)) {is : List ι} (h : M.Along P is) :
    M.Along (fun s i => I s ∧ P s i) is := by
  induction is using List.reverseRecOn with
  | nil => trivial
  | append_singleton is i ih =>
    rw [along_concat] at h ⊢
    exact ⟨ih h.1, invariant h0 hstep h.1, h.2⟩

/-- A goal that stays reached is reached within `rank` clocks, when every clock spent waiting for it lowers
the rank. -/
theorem reaches_within {P : σ → ι → Prop} {is : List ι} (goal wait : List ι → Prop) (rank : σ → Nat)
    (hinit : goal [] ∨ wait []) (hmono : ∀ js i, goal js → goal (js ++ [i]))
    (hstep : ∀ js i, M.Along P (is ++ js) → P (M.run (is ++ js)) i → wait js →
      goal (js ++ [i]) ∨ wait (js ++ [i]) ∧ rank (M.step (M.run (is ++ js)) i) < rank (M.run (is ++ js)))
    {js : List ι} (h : M.Along P (is ++ js)) (hlen : rank (M.run is) < js.length) : goal js := by
  have hall : goal js ∨ wait js ∧ rank (M.run (is ++ js)) + js.length ≤ rank (M.run is) := by
    clear hlen
    induction js using List.reverseRecOn with
    | nil => exact hinit.imp id fun hw => ⟨hw, by rw [List.append_nil]; exact Nat.le_refl _⟩
    | append_singleton js i ih =>
      rw [← List.append_assoc, along_concat] at h
      rcases ih h.1 with hg | ⟨hw, hrank⟩
      · exact .inl (hmono js i hg)
      · refine (hstep js i h.1 h.2 hw).imp id fun ⟨hw', hlt⟩ => ⟨hw', ?_⟩
        rw [← List.append_assoc, run_concat, List.length_append, List.length_singleton]
        omega
  rcases hall with hg | ⟨-, hrank⟩
  · exact hg
  · omega

end Machine
end TdmaSoc
