import Mathlib.Data.List.Chain
import Mathlib.Data.List.Forall2
import Mathlib.Tactic.TypeStar

/-!
# Runs of equal values

`runs` cuts a sequence into its longest runs of equal values, each given by the value and the number of times it is
repeated after its first occurrence. `Repeats xs ys` says that `ys` is `xs` with some values repeated: it has the same
runs, some of them longer (`Repeats.runs`).
-/

namespace TdmaSoc
variable {α : Type*}

def expandRuns (ps : List (α × Nat)) : List α := ps.flatMap fun p => List.replicate (p.2 + 1) p.1

theorem expandRuns_cons (v : α) (k : Nat) (ps : List (α × Nat)) :
    expandRuns ((v, k) :: ps) = v :: (List.replicate k v ++ expandRuns ps) := rfl

/-- Neighbouring runs have different values. -/
def RunsApart (ps : List (α × Nat)) : Prop := ps.IsChain fun p q => p.1 ≠ q.1

/-- `ys` is `xs` with some of its values repeated any number of times. -/
inductive Repeats : List α → List α → Prop
  | nil : Repeats [] []
  | cons (x : α) (times : Nat) {xs ys : List α} :
    Repeats xs ys → Repeats (x :: xs) (x :: (List.replicate times x ++ ys))

/-- The runs `qs` have the values of `ps`, and are at least as long. -/
def Lengthened (ps qs : List (α × Nat)) : Prop := List.Forall₂ (fun p q => p.1 = q.1 ∧ p.2 ≤ q.2) ps qs

variable [DecidableEq α]

/-- The runs of `x :: xs` from those of `xs`. -/
def pushRun (x : α) (ps : List (α × Nat)) : List (α × Nat) :=
  match ps with
  | [] => [(x, 0)]
  | (y, k) :: ps => if x = y then (y, k + 1) :: ps else (x, 0) :: (y, k) :: ps

def runs (xs : List α) : List (α × Nat) := xs.foldr pushRun []

theorem expandRuns_pushRun (x : α) (ps : List (α × Nat)) : expandRuns (pushRun x ps) = x :: expandRuns ps := by
  cases ps with
  | nil => rfl
  | cons p ps =>
    obtain ⟨y, k⟩ := p
    rw [pushRun]
    split
    case isTrue hxy =>
      subst hxy
      rfl
    case isFalse => rfl

theorem expandRuns_runs (xs : List α) : expandRuns (runs xs) = xs := by
  induction xs with
  | nil => rfl
  | cons x xs ih => exact (expandRuns_pushRun x (runs xs)).trans (congrArg (x :: ·) ih)

theorem exists_pushRun (x : α) (ps : List (α × Nat)) : ∃ k qs, pushRun x ps = (x, k) :: qs := by
  cases ps with
  | nil => exact ⟨0, [], rfl⟩
  | cons p ps =>
    obtain ⟨y, k⟩ := p
    rw [pushRun]
    split
    case isTrue hxy =>
      subst hxy
      exact ⟨k + 1, ps, rfl⟩
    case isFalse => exact ⟨0, (y, k) :: ps, rfl⟩

theorem RunsApart.push {ps : List (α × Nat)} (h : RunsApart ps) (x : α) : RunsApart (pushRun x ps) := by
  cases ps with
  | nil => exact .singleton _
  | cons p ps =>
    obtain ⟨y, k⟩ := p
    rw [pushRun]
    split
    case isTrue =>
      cases ps with
      | nil => exact .singleton _
      | cons q ps => exact List.isChain_cons_cons.2 (List.isChain_cons_cons.1 h)
    case isFalse hxy => exact List.isChain_cons_cons.2 ⟨hxy, h⟩

theorem runsApart_runs (xs : List α) : RunsApart (runs xs) := by
  induction xs with
  | nil => exact .nil
  | cons x xs ih => exact ih.push x

theorem Lengthened.push {ps qs : List (α × Nat)} (h : Lengthened ps qs) (x : α) :
    Lengthened (pushRun x ps) (pushRun x qs) := by
  cases h with
  | nil => exact .cons ⟨rfl, Nat.le_refl 0⟩ .nil
  | @cons p q ps qs hpq hrest =>
    obtain ⟨y, k⟩ := p
    obtain ⟨z, l⟩ := q
    obtain ⟨rfl, hle⟩ := hpq
    rw [pushRun, pushRun]
    split
    case isTrue => exact .cons ⟨rfl, Nat.succ_le_succ hle⟩ hrest
    case isFalse => exact .cons ⟨rfl, Nat.le_refl 0⟩ (.cons ⟨rfl, hle⟩ hrest)

/-- Repeating the first value once more lengthens the first run. -/
theorem Lengthened.push_again {ps qs : List (α × Nat)} {x : α} (h : Lengthened ps (pushRun x qs)) :
    Lengthened ps (pushRun x (pushRun x qs)) := by
  obtain ⟨k, rest, hx⟩ := exists_pushRun x qs
  rw [hx] at h ⊢
  cases h with
  | cons hpq hrest =>
    rw [pushRun, if_pos rfl]
    exact .cons ⟨hpq.1, Nat.le_succ_of_le hpq.2⟩ hrest

theorem Repeats.runs {xs ys : List α} (h : Repeats xs ys) : Lengthened (runs xs) (runs ys) := by
  induction h with
  | nil => exact .nil
  | @cons x times xs ys _ ih =>
    induction times with
    | zero => exact ih.push x
    | succ times ihTimes => exact ihTimes.push_again

end TdmaSoc
