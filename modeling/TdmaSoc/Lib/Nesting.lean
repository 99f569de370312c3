import Mathlib.Tactic.TypeStar

/-!
# Nested brackets on a stack

`Nested w d a b`: the letters `w` from place `a` to place `b` are brackets, nested at most `d` deep.
A stack of `cap` cells that grows down (`Grows`) follows brackets by putting a word on for each that opens
and taking one off for each that closes. If its free cells are as many as the brackets are deep, it is in the end
as it was (`Grows.frame`), and each closing bracket finds the word of its partner on top (`Grows.partner`).
-/

namespace TdmaSoc

inductive Letter (β : Type*) where
  | opening (b : β)
  | closing (b : β)
  | plain
deriving DecidableEq, Repr

section
variable {β : Type*} (w : Nat → Option (Letter β))

/-- The letters from place `a` to place `b` are brackets, nested at most `d` deep. -/
inductive Nested : Nat → Nat → Nat → Prop
  | nil (d a : Nat) : Nested d a a
  | plain {d a b : Nat} : w a = some .plain → Nested d (a + 1) b → Nested d a b
  | pair {d a j b : Nat} {x : β} : w a = some (.opening x) → Nested d (a + 1) j → w j = some (.closing x) →
      Nested (d + 1) (j + 1) b → Nested (d + 1) a b

/-- The bracket that opens at `i` is closed at `j`. -/
def Partners (i j : Nat) : Prop :=
  ∃ x d, w i = some (.opening x) ∧ Nested w d (i + 1) j ∧ w j = some (.closing x)

variable {w}

theorem Nested.le {d a b : Nat} (h : Nested w d a b) : a ≤ b := by
  induction h with
  | nil => exact Nat.le_refl _
  | plain _ _ ih => omega
  | pair _ _ _ _ ih ih' => omega

end

section
variable {β V : Type*} {w : Nat → Option (Letter β)} {n cap : Nat} {free : Nat → Nat} {cell : Nat → Nat → V}
  {word : Nat → V}

/-- What the letters before place `n` do to a stack of `cap` cells, the first `free k` of which are free before
place `k`: an opening bracket stores `word k`. -/
structure Grows (w : Nat → Option (Letter β)) (n cap : Nat) (free : Nat → Nat) (cell : Nat → Nat → V)
    (word : Nat → V) : Prop where
  plain : ∀ k < n, w k = some .plain → free (k + 1) = free k ∧ ∀ q < cap, cell (k + 1) q = cell k q
  opening : ∀ k < n, ∀ x p, w k = some (.opening x) → free k = p + 1 → p < cap →
    free (k + 1) = p ∧ cell (k + 1) p = word k ∧ ∀ q < cap, q ≠ p → cell (k + 1) q = cell k q
  closing : ∀ k < n, ∀ x, w k = some (.closing x) → free k < cap →
    free (k + 1) = free k + 1 ∧ ∀ q < cap, cell (k + 1) q = cell k q

variable (hg : Grows w n cap free cell word)
include hg

/-- Nested brackets leave the stack as it was. -/
theorem Grows.frame {d a b : Nat} (h : Nested w d a b) (hb : b ≤ n) (hd : d ≤ free a) (hcap : free a ≤ cap) :
    free b = free a ∧ ∀ q < cap, free a ≤ q → cell b q = cell a q := by
  induction h with
  | nil => exact ⟨rfl, fun _ _ _ => rfl⟩
  | plain hw hrest ih =>
    obtain ⟨hfree, hcell⟩ := hg.plain _ (Nat.lt_of_lt_of_le hrest.le hb) hw
    obtain ⟨hfree', hcell'⟩ := ih hb (by omega) (by omega)
    refine ⟨hfree'.trans hfree, fun q hq hle => ?_⟩
    rw [hcell' q hq (by omega), hcell q hq]
  | @pair d a j b x hopen hinner hclose hrest ih ih' =>
    have hj := hinner.le
    have hjb := hrest.le
    obtain ⟨p, hp⟩ : ∃ p, free a = p + 1 := ⟨free a - 1, by omega⟩
    obtain ⟨hfree, -, hcell⟩ := hg.opening a (by omega) x p hopen hp (by omega)
    obtain ⟨hfreej, hcellj⟩ := ih (by omega) (by omega) (by omega)
    obtain ⟨hfree', hcell'⟩ := hg.closing j (by omega) x hclose (by omega)
    obtain ⟨hfreeb, hcellb⟩ := ih' hb (by omega) (by omega)
    refine ⟨by omega, fun q hq hle => ?_⟩
    rw [hcellb q hq (by omega), hcell' q hq, hcellj q hq (by omega), hcell q hq (by omega)]

/-- A closing bracket finds the word of its partner in the cell that it gives free. -/
theorem Grows.partner {d a b : Nat} (h : Nested w d a b) (hb : b ≤ n) (hd : d ≤ free a) (hcap : free a ≤ cap)
    {j : Nat} {x : β} (ha : a ≤ j) (hj : j < b) (hw : w j = some (.closing x)) :
    ∃ i, a ≤ i ∧ i < j ∧ w i = some (.opening x) ∧ Partners w i j ∧ free j < cap ∧ cell j (free j) = word i := by
  induction h with
  | nil => omega
  | @plain d a b hplain hrest ih =>
    obtain ⟨hfree, -⟩ := hg.plain _ (Nat.lt_of_lt_of_le hrest.le hb) hplain
    have hne : a ≠ j := fun h => by rw [h, hw] at hplain; cases hplain
    obtain ⟨i, hi, h⟩ := ih hb (by omega) (by omega) (by omega) hj
    exact ⟨i, by omega, h⟩
  | @pair d a j' b y hopen hinner hclose hrest ih ih' =>
    have hj' := hinner.le
    have hj'b := hrest.le
    obtain ⟨p, hp⟩ : ∃ p, free a = p + 1 := ⟨free a - 1, by omega⟩
    obtain ⟨hfree, hstored, -⟩ := hg.opening a (by omega) y p hopen hp (by omega)
    obtain ⟨hfreej, hcellj⟩ := hg.frame hinner (by omega) (by omega) (by omega)
    have hne : a ≠ j := fun h => by rw [h, hw] at hopen; cases hopen
    rcases Nat.lt_trichotomy j j' with hlt | rfl | hgt
    · obtain ⟨i, hi, h⟩ := ih (by omega) (by omega) (by omega) (by omega) hlt
      exact ⟨i, by omega, h⟩
    · obtain rfl : x = y := by
        rw [hw] at hclose
        cases hclose
        rfl
      refine ⟨a, Nat.le_refl a, by omega, hopen, ⟨x, d, hopen, hinner, hclose⟩, by omega, ?_⟩
      rw [hfreej, hfree, hcellj p (by omega) (by omega), hstored]
    · obtain ⟨hfree', -⟩ := hg.closing j' (by omega) y hclose (by omega)
      obtain ⟨i, hi, h⟩ := ih' hb (by omega) (by omega) (by omega) hj
      exact ⟨i, by omega, h⟩

end
end TdmaSoc
