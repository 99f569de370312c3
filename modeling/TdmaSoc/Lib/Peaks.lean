import Mathlib.Data.List.Basic
import Mathlib.Tactic.TypeStar

/-!
# Local maxima

`peaks` lists the values of a sequence that are above both their neighbours. Appending a value can make the
one before it a peak, and changes nothing else.
-/

namespace TdmaSoc
variable {α : Type*} [LT α] [DecidableLT α]

def peaks : List α → List α
  | a :: b :: c :: xs => if a < b ∧ c < b then b :: peaks (b :: c :: xs) else peaks (b :: c :: xs)
  | _ => []

/-- The second of the values `a`, `b` and those of `xs`, if it is a peak. -/
def peakAt (a b : α) (xs : List α) : List α :=
  match xs with
  | [] => []
  | c :: _ => if a < b ∧ c < b then [b] else []

theorem peaks_cons_cons (a b : α) (xs : List α) : peaks (a :: b :: xs) = peakAt a b xs ++ peaks (b :: xs) := by
  cases xs with
  | nil => rfl
  | cons c xs =>
    rw [peaks, peakAt]
    split <;> rfl

theorem peaks_concat (xs : List α) (a b c : α) :
    peaks (xs ++ [a, b, c]) = peaks (xs ++ [a, b]) ++ if a < b ∧ c < b then [b] else [] := by
  induction xs with
  | nil => exact (peaks_cons_cons a b [c]).trans (List.append_nil _)
  | cons x xs ih =>
    -- the first two values see the third of both lists, which is the same
    cases xs with
    | nil => rw [List.cons_append, List.cons_append, List.nil_append, List.nil_append, peaks_cons_cons x,
        peaks_cons_cons x, List.append_assoc]; exact congrArg _ ih
    | cons y xs =>
      have hhead : peakAt x y (xs ++ [a, b, c]) = peakAt x y (xs ++ [a, b]) := by cases xs <;> rfl
      rw [List.cons_append, List.cons_append, peaks_cons_cons, hhead, List.cons_append, List.cons_append,
        peaks_cons_cons, List.append_assoc]
      exact congrArg _ ih

end TdmaSoc
