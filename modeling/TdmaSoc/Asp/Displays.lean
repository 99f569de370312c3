import Mathlib.Order.Bounds.Defs
import TdmaSoc.Asp.Nios
import TdmaSoc.Lib.Machine

/-!
# What the displays show

The main loop of `gp2.c` turn by turn: `loop` reads the words one after the other and makes all the writes of one
before it reads the next (`finish_run`). The largest count is shown by its last three digits; the other three displays
keep the pattern of the start, which is no digit.
-/

namespace TdmaSoc
namespace Nios

/-- The accesses of the processor, each with the word that it reads if it is a read. -/
def machine : Machine Nios (BitVec 32) := ⟨init, access⟩

/-- The writes that are left to do have been made. -/
def finish (s : Nios) : Nios := { s.todo.foldl (fun s w => s.iowr w.1 w.2) s with todo := [] }

def loop (ws : List (BitVec 32)) : Nios := ws.foldl (fun s w => (s.handle w).finish) init.finish

/-- The word that an access reads. -/
def reads (s : Nios) (recvData : BitVec 32) : List (BitVec 32) := if s.todo = [] then [recvData] else []

/-- `corrCount` of the peak reports. -/
def counts (ws : List (BitVec 32)) : List (BitVec 32) := (ws.filter isReport).map (· &&& 0x3FFFF#32)

/-- The digit that lights these segments. -/
def readDigit (segments : BitVec 7) : Option Nat :=
  (List.range 10).find? fun digit => (display7 digit).setWidth 7 == segments

def digit (s : Nios) (display : Fin 6) : Nat := (readDigit (s.hex display)).getD 0

/-- The number on the displays; one that shows no digit counts nothing. -/
def displayed (s : Nios) : Nat :=
  s.digit 0 + 10 * s.digit 1 + 100 * s.digit 2 + 1000 * s.digit 3 + 10000 * s.digit 4 + 100000 * s.digit 5

variable {s : Nios} {recvData : BitVec 32}

theorem loop_concat (ws : List (BitVec 32)) (w : BitVec 32) : loop (ws ++ [w]) = ((loop ws).handle w).finish :=
  List.foldl_append

theorem finish_of_nil (h : s.todo = []) : s.finish = s := by
  unfold finish
  rw [h]
  cases s
  cases h
  rfl

theorem foldl_iowr_todo (writes : List (Pio × BitVec 32)) (s : Nios) (todo : List (Pio × BitVec 32)) :
    writes.foldl (fun s w => s.iowr w.1 w.2) { s with todo := todo } =
      { writes.foldl (fun s w => s.iowr w.1 w.2) s with todo := todo } := by
  induction writes generalizing s with
  | nil => rfl
  | cons w writes ih =>
    rw [List.foldl_cons, List.foldl_cons, ← ih]
    congr 1
    unfold iowr
    split <;> rfl

/-- A write is one of those that were left. -/
theorem finish_access {w : Pio × BitVec 32} {ws : List (Pio × BitVec 32)} (h : s.todo = w :: ws) :
    (s.access recvData).finish = s.finish := by
  rw [access_of_todo h, finish, finish, h, List.foldl_cons]
  dsimp only
  rw [foldl_iowr_todo]

/-- An access makes a turn of the loop if it reads a word. -/
theorem finish_step (s : Nios) (recvData : BitVec 32) :
    (s.access recvData).finish = (s.reads recvData).foldl (fun s w => (s.handle w).finish) s.finish := by
  rw [reads]
  cases hw : s.todo with
  | nil =>
    rw [if_pos rfl, access_of_nil hw, finish_of_nil hw]
    rfl
  | cons v vs =>
    rw [if_neg (List.cons_ne_nil v vs)]
    exact finish_access hw

theorem loop_append (ws vs : List (BitVec 32)) :
    loop (ws ++ vs) = vs.foldl (fun s w => (s.handle w).finish) (loop ws) := List.foldl_append

/-- The accesses of any run make the turns of the loop, on the words read. -/
theorem finish_run (is : List (BitVec 32)) : (machine.run is).finish = loop (machine.log reads is) := by
  induction is using List.reverseRecOn with
  | nil => rfl
  | append_singleton is w ih =>
    rw [Machine.run_concat, Machine.log_concat, loop_append, ← ih]
    exact finish_step ..

/-! ### The digits -/

theorem readDigit_display7 : ∀ digit < 10, readDigit ((display7 digit).setWidth 7) = some digit := by decide

/-- The last three digits of `count`, or at the start none. -/
structure Shows (s : Nios) (count : BitVec 32) : Prop where
  idle : s.todo = []
  ones : s.hex 0 = if count = 0 then 15 else (display7 (count.toNat % 10)).setWidth 7
  tens : s.hex 1 = if count = 0 then 15 else (display7 (count.toNat / 10 % 10)).setWidth 7
  hundreds : s.hex 2 = if count = 0 then 15 else (display7 (count.toNat / 100 % 10)).setWidth 7
  rest : s.hex 3 = 15 ∧ s.hex 4 = 15 ∧ s.hex 5 = 15

theorem shows_start : init.finish.Shows 0 := ⟨rfl, rfl, rfl, rfl, rfl, rfl, rfl⟩

/-- A count above the largest so far is written to the displays and kept; any other word leaves both. -/
theorem Shows.handle (h : s.Shows s.maxCorr) (w : BitVec 32) :
    ((s.handle w).finish).Shows (s.handle w).finish.maxCorr := by
  unfold Nios.handle
  split
  case isTrue =>
    dsimp only
    by_cases hlarger : w &&& 0x3FFFF#32 > s.maxCorr
    · have hne : w &&& 0x3FFFF#32 ≠ 0 := by
        intro hzero
        rw [hzero] at hlarger
        exact BitVec.not_lt_zero hlarger
      rw [if_pos hlarger, if_pos hlarger]
      refine ⟨rfl, ?_, ?_, ?_, h.rest⟩
      · exact (if_neg hne).symm
      · exact (if_neg hne).symm
      · exact (if_neg hne).symm
    · rw [if_neg hlarger, if_neg hlarger]
      exact ⟨rfl, h.ones, h.tens, h.hundreds, h.rest⟩
  case isFalse =>
    rw [finish_of_nil h.idle]
    exact h

theorem shows_loop (ws : List (BitVec 32)) : (loop ws).Shows (loop ws).maxCorr := by
  induction ws using List.reverseRecOn with
  | nil => exact shows_start
  | append_singleton ws w ih =>
    rw [loop_concat]
    exact ih.handle w

theorem Shows.displayed {count : BitVec 32} (h : s.Shows count) : s.displayed = count.toNat % 1000 := by
  obtain ⟨-, h0, h1, h2, h3, h4, h5⟩ := h
  have hblank : readDigit 15 = none := by decide
  unfold Nios.displayed digit
  rw [h0, h1, h2, h3, h4, h5, hblank]
  by_cases hzero : count = 0
  · subst hzero
    rfl
  · rw [if_neg hzero, if_neg hzero, if_neg hzero, readDigit_display7 _ (Nat.mod_lt _ (by decide)),
      readDigit_display7 _ (Nat.mod_lt _ (by decide)), readDigit_display7 _ (Nat.mod_lt _ (by decide))]
    simp only [Option.getD_some, Option.getD_none]
    omega

/-! ### The largest count -/

theorem maxCorr_finish (s : Nios) : s.finish.maxCorr = s.maxCorr := by
  have hiowr : ∀ (writes : List (Pio × BitVec 32)) (s : Nios),
      (writes.foldl (fun s w => s.iowr w.1 w.2) s).maxCorr = s.maxCorr := by
    intro writes
    induction writes with
    | nil => exact fun _ => rfl
    | cons w writes ih =>
      intro s
      rw [List.foldl_cons, ih]
      unfold iowr
      split <;> rfl
  exact hiowr s.todo s

theorem counts_concat (ws : List (BitVec 32)) (w : BitVec 32) :
    counts (ws ++ [w]) = counts ws ++ if isReport w then [w &&& 0x3FFFF#32] else [] := by
  rw [counts, List.filter_append, List.map_append]
  cases hw : isReport w
  · rw [List.filter_cons_of_neg (by rw [hw]; exact Bool.false_ne_true)]
    rfl
  · rw [List.filter_cons_of_pos hw]
    rfl

theorem maxCorr_loop (ws : List (BitVec 32)) : (∀ c ∈ counts ws, c ≤ (loop ws).maxCorr) ∧
    ((loop ws).maxCorr = 0 ∨ (loop ws).maxCorr ∈ counts ws) := by
  induction ws using List.reverseRecOn with
  | nil => exact ⟨fun c hc => (nomatch hc), .inl rfl⟩
  | append_singleton ws w ih =>
    obtain ⟨hle, hmem⟩ := ih
    rw [loop_concat, maxCorr_finish, counts_concat, handle]
    cases hw : isReport w
    · rw [if_neg Bool.false_ne_true, if_neg Bool.false_ne_true, List.append_nil]
      exact ⟨hle, hmem⟩
    · rw [if_pos rfl, if_pos rfl]
      dsimp only
      split
      case isTrue hlarger =>
        refine ⟨fun c hc => ?_, .inr (List.mem_append_right _ (List.mem_singleton_self _))⟩
        rcases List.mem_append.1 hc with hc | hc
        · have := hle c hc
          bv_omega
        · rw [List.mem_singleton.1 hc]
          exact BitVec.le_refl _
      case isFalse hsmaller =>
        refine ⟨fun c hc => ?_, hmem.imp id fun hm => List.mem_append_left _ hm⟩
        rcases List.mem_append.1 hc with hc | hc
        · exact hle c hc
        · rw [List.mem_singleton.1 hc]
          exact BitVec.not_lt.1 hsmaller

/-- After a report with a count, the displays show the largest count exactly if it has three digits. -/
theorem displayed_iff {ws : List (BitVec 32)} (hpos : ∃ c ∈ counts ws, c ≠ 0) :
    IsGreatest {n | ∃ c ∈ counts ws, c.toNat = n} (loop ws).displayed ↔ ∀ c ∈ counts ws, c.toNat < 1000 := by
  obtain ⟨hle, hmem⟩ := maxCorr_loop ws
  have hmem : (loop ws).maxCorr ∈ counts ws := by
    refine hmem.resolve_left fun hzero => ?_
    obtain ⟨c, hc, hne⟩ := hpos
    have hcle := hle c hc
    rw [hzero] at hcle
    exact hne (by bv_omega)
  have hle : ∀ c ∈ counts ws, c.toNat ≤ (loop ws).maxCorr.toNat := fun c hc => BitVec.le_def.1 (hle c hc)
  rw [(shows_loop ws).displayed]
  constructor
  · rintro ⟨-, hupper⟩ c hc
    have hmax : (loop ws).maxCorr.toNat ≤ (loop ws).maxCorr.toNat % 1000 := hupper ⟨_, hmem, rfl⟩
    have hcle := hle c hc
    omega
  · intro hsmall
    rw [Nat.mod_eq_of_lt (hsmall _ hmem)]
    refine ⟨⟨_, hmem, rfl⟩, ?_⟩
    rintro n ⟨c, hc, rfl⟩
    exact hle c hc

/-- A peak report with the count `c`. -/
def report (c : BitVec 18) : BitVec 32 := 0x80740000#32 ||| c.setWidth 32

/-- Three words, of which two are reports. -/
def exampleWords : List (BitVec 32) := [report 7, 0, report 5]

theorem displayed_seven : (loop exampleWords).displayed = 7 := by
  have hcounts : counts exampleWords = [7, 5] := by decide +kernel
  have hmem : 7 ∈ counts exampleWords := by
    rw [hcounts]
    exact List.mem_cons_self ..
  have hle : ∀ c ∈ counts exampleWords, c.toNat ≤ 7 := by
    rw [hcounts]
    intro c hc
    rcases List.mem_pair.1 hc with rfl | rfl
    · exact Nat.le_refl 7
    · exact Nat.le_add_right 5 2
  obtain ⟨⟨c, hc, hn⟩, hupper⟩ := (displayed_iff ⟨7, hmem, by decide⟩).2 fun c hc =>
    Nat.lt_of_le_of_lt (hle c hc) (by decide)
  refine Nat.le_antisymm ?_ (hupper ⟨7, hmem, rfl⟩)
  rw [← hn]
  exact hle c hc

/-- Of the count 1234 the displays show 234. -/
theorem displayed_not_greatest :
    ¬ ∀ ws, (∃ c ∈ counts ws, c ≠ 0) → IsGreatest {n | ∃ c ∈ counts ws, c.toNat = n} (loop ws).displayed := by
  intro h
  have hmem : 1234 ∈ counts [report 1234] := by decide +kernel
  have hle : 1234 ≤ (loop [report 1234]).displayed := (h [report 1234] ⟨1234, hmem, by decide⟩).2 ⟨1234, hmem, rfl⟩
  exact absurd hle (by decide +kernel)

end Nios
end TdmaSoc
