import Mathlib.Data.List.Basic

/-!
# Single-clock show-ahead FIFOs

A queue of at most `numwords` words. Every clock may read the word on show and may write a word; a
read of the empty queue and a write to the full one are ignored. The bound on the contents is a
field, so it needs no invariant of its own.
-/

namespace TdmaSoc

structure Scfifo (α : Type*) (numwords : Nat) where
  items : List α
  fits : items.length ≤ numwords

namespace Scfifo
variable {α : Type*} {numwords : Nat} (f : Scfifo α numwords)

def nil : Scfifo α numwords := ⟨[], Nat.zero_le _⟩

def full : Bool := decide (numwords ≤ f.items.length)

/-- The word on show; none when the queue is empty. -/
def q : Option α := f.items.head?

def reads (rdreq : Bool) : List α := if rdreq then f.items.take 1 else []

def writes (wrreq : Bool) (data : α) : List α := if wrreq && !f.full then [data] else []

def clock (rdreq wrreq : Bool) (data : α) : Scfifo α numwords where
  items := (if rdreq then f.items.tail else f.items) ++ f.writes wrreq data
  fits := by
    have h := f.fits
    have hr : (if rdreq then f.items.tail else f.items).length ≤ f.items.length := by
      split <;> simp
    rw [List.length_append]
    by_cases hw : (wrreq && !f.full) = true
    · have hlt : f.items.length < numwords := by simp [full] at hw; exact hw.2
      simp only [writes, hw, if_true, List.length_singleton]; omega
    · simp only [writes, hw, Bool.false_eq_true, if_false, List.length_nil]; omega

@[simp] theorem nil_items : (nil : Scfifo α numwords).items = [] := rfl

theorem clock_items (rdreq wrreq : Bool) (data : α) :
    (f.clock rdreq wrreq data).items = (if rdreq then f.items.tail else f.items) ++ f.writes wrreq data := rfl

/-- Nothing is lost or reordered inside: what is read, then what is kept, is what was there, then what
is written. -/
theorem reads_append_clock (rdreq wrreq : Bool) (data : α) :
    f.reads rdreq ++ (f.clock rdreq wrreq data).items = f.items ++ f.writes wrreq data := by
  rw [clock_items, ← List.append_assoc]
  congr 1
  cases rdreq
  · rfl
  · cases h : f.items <;> simp [reads, h]

theorem mem_clock {rdreq wrreq : Bool} {data x : α} (h : x ∈ (f.clock rdreq wrreq data).items) :
    x ∈ f.items ∨ wrreq = true ∧ x = data := by
  rw [clock_items, List.mem_append] at h
  rcases h with h | h
  · cases rdreq
    · exact .inl h
    · exact .inl (List.mem_of_mem_tail h)
  · unfold writes at h
    split at h
    case isTrue hw => simp at hw h; exact .inr ⟨hw.1, h⟩
    case isFalse => simp at h

theorem writes_of_lt {data : α} (h : f.items.length < numwords) : f.writes true data = [data] := by
  simp [writes, full, h]

theorem writes_of_full {wrreq : Bool} {data : α} (h : f.full = true) : f.writes wrreq data = [] := by
  simp [writes, h]

@[simp] theorem writes_false (data : α) : f.writes false data = [] := rfl

end Scfifo
end TdmaSoc
