import Mathlib.Algebra.BigOperators.Group.List.Basic
import Mathlib.Data.List.Rotate
import Mathlib.Logic.Function.Basic

/-!
# Ring buffers

A list of cells with a pointer that goes round. The cell at the pointer is the oldest, and it is the one that
the next word replaces; so in the order of age the cells are a queue of fixed length. A memory that is written round
and round holds the last words (`Holds`).
-/

namespace TdmaSoc
namespace RingBuffer
variable {α : Type*}

/-- The cells from the oldest to the newest, the pointer being `p`. -/
def aged (cells : List α) (p : Nat) : List α := cells.rotate p

@[simp] theorem length_aged (cells : List α) (p : Nat) : (aged cells p).length = cells.length :=
  List.length_rotate ..

theorem sum_aged [AddCommMonoid α] (cells : List α) (p : Nat) : (aged cells p).sum = cells.sum :=
  (List.rotate_perm cells p).sum_eq

/-- Writing at the pointer and moving it on takes the oldest cell off the queue and puts the word on. -/
theorem aged_set {cells : List α} {p : Nat} (hp : p < cells.length) (x : α) :
    aged (cells.set p x) ((p + 1) % cells.length) = (aged cells p).tail ++ [x] := by
  have hdrop : (cells.set p x).drop (p + 1) = cells.drop (p + 1) := List.drop_set_of_lt (Nat.lt_succ_self p)
  have htake : (cells.set p x).take (p + 1) = cells.take p ++ [x] := by
    rw [List.take_add_one, List.take_set_of_le (Nat.le_refl p), List.getElem?_set_self hp]
    rfl
  have hset : cells.length = (cells.set p x).length := (List.length_set ..).symm
  unfold aged
  rw [hset, List.rotate_mod, List.rotate_eq_drop_append_take (by omega),
    List.rotate_eq_drop_append_take (Nat.le_of_lt hp), hdrop, htake, List.drop_eq_getElem_cons hp,
    List.cons_append, List.tail_cons, List.append_assoc]

/-- After the pointer has moved on, the newest cell is the one it has left. -/
theorem getElem?_aged_last {cells : List α} (h : cells ≠ []) (p : Nat) :
    (aged cells ((p + 1) % cells.length))[cells.length - 1]? = cells[p % cells.length]? := by
  have hpos : 0 < cells.length := List.length_pos_of_ne_nil h
  unfold aged
  rw [List.rotate_mod, List.getElem?_rotate (by omega), show cells.length - 1 + (p + 1) = p + cells.length by omega,
    Nat.add_mod_right]

/-- A queue after the words `xs` have gone through it. -/
def shift (queue xs : List α) : List α := (queue ++ xs).drop xs.length

@[simp] theorem shift_nil (queue : List α) : shift queue [] = queue := List.append_nil queue

theorem shift_concat {queue : List α} (h : queue ≠ []) (xs : List α) (x : α) :
    shift queue (xs ++ [x]) = (shift queue xs).tail ++ [x] := by
  have hpos : 0 < queue.length := List.length_pos_of_ne_nil h
  unfold shift
  rw [← List.append_assoc, List.length_append, List.length_singleton, List.tail_drop,
    List.drop_append_of_le_length (by rw [List.length_append]; omega)]

/-- Once as many words have gone through as the queue is long, it holds the last of them. -/
theorem shift_of_le {queue xs : List α} (h : queue.length ≤ xs.length) :
    shift queue xs = xs.drop (xs.length - queue.length) := by
  unfold shift
  rw [List.drop_append, List.drop_eq_nil_of_le h, List.nil_append]

/-- One word fewer leaves the newest cell in front of them. -/
theorem shift_of_succ {queue xs : List α} (h : xs.length + 1 = queue.length) :
    shift queue xs = queue[xs.length]?.toList ++ xs := by
  unfold shift
  rw [List.drop_append_of_le_length (by omega), List.drop_eq_getElem_cons (by omega),
    List.drop_eq_nil_of_le (by omega), List.getElem?_eq_getElem (by omega)]
  rfl

/-- The memory holds the last `size` of the words `ws`, the `m`-th of them at `place m`. -/
def Holds {A : Type*} (place : Nat → A) (size : Nat) (ws : List α) (mem : A → α) : Prop :=
  ∀ m w, ws[m]? = some w → ws.length ≤ m + size → mem (place m) = w

theorem Holds.nil {A : Type*} (place : Nat → A) (size : Nat) (mem : A → α) : Holds place size [] mem :=
  fun _ _ hm => absurd hm (by simp)

theorem Holds.write {A : Type*} [DecidableEq A] {place : Nat → A} {size : Nat} {ws : List α} {mem : A → α}
    (hplace : ∀ m n, m < n → n < m + size → place m ≠ place n) (h : Holds place size ws mem) (x : α) :
    Holds place size (ws ++ [x]) (Function.update mem (place ws.length) x) := by
  intro m w hm hlen
  rw [List.length_append, List.length_singleton] at hlen
  rcases Nat.lt_or_ge m ws.length with hlt | hge
  · rw [List.getElem?_append_left hlt] at hm
    rw [Function.update_of_ne (hplace m ws.length hlt (by omega))]
    exact h m w hm (by omega)
  · rw [List.getElem?_append_right hge] at hm
    obtain ⟨hzero, hw⟩ := List.getElem?_eq_some_iff.1 hm
    rw [List.length_singleton] at hzero
    rw [show m = ws.length by omega, Function.update_self, ← hw]
    simp

end RingBuffer
end TdmaSoc
