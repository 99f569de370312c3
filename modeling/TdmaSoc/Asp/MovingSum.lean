import Mathlib.Algebra.Order.BigOperators.Group.List
import Mathlib.Algebra.Order.Group.Nat
import TdmaSoc.Asp.AvgAsp
import TdmaSoc.Lib.Machine
import TdmaSoc.Lib.RingBuffer

/-!
# The moving sum

`sumAcc` is the sum of all 64 cells of the buffer (`Summed`), whatever the window. While the pointer is in the
window the cells of the window are a queue of the last samples, so the sum is right once the cells outside
are 0. A change of the window clears nothing: what `leftover` lists stays in the sum.
-/

namespace TdmaSoc
namespace AvgAsp
open RingBuffer

/-- The averaging process with arbitrary words on its receive port. -/
def machine : Machine AvgAsp TdmaMinPort := ⟨init, clock⟩

/-- The values of the accepted samples among the words `is`. -/
def samples (is : List TdmaMinPort) : List Nat :=
  (is.filter fun r => accepts r.data).map fun r => (sampleOf r.data).toNat

theorem samples_append (is js : List TdmaMinPort) : samples (is ++ js) = samples is ++ samples js := by
  unfold samples
  rw [List.filter_append, List.map_append]

theorem samples_cons (r : TdmaMinPort) (is : List TdmaMinPort) :
    samples (r :: is) = if accepts r.data then (sampleOf r.data).toNat :: samples is else samples is := by
  cases h : accepts r.data <;> simp [samples, h]

def cells (s : AvgAsp) : List Nat := s.bufferReg.toList.map (·.toNat)

variable {s : AvgAsp} {recv : TdmaMinPort}

@[simp] theorem length_cells (s : AvgAsp) : s.cells.length = 64 := by simp [cells]

theorem cells_lt {x : Nat} (h : x ∈ s.cells) : x < 1024 := by
  obtain ⟨v, -, rfl⟩ := List.mem_map.1 h
  exact v.isLt

theorem getElem?_cells (s : AvgAsp) (i : Fin 64) : s.cells[i.val]? = some s.bufferReg[i].toNat := by
  simp [cells]

theorem isConfig_of_accepts (h : accepts recv.data = true) : isConfig recv.data = false := by
  unfold accepts at h
  rw [Bool.and_eq_true] at h
  rw [isConfig, (isData_iff.1 h.1).1]
  rfl

theorem accepts_of_isConfig (h : isConfig recv.data = true) : accepts recv.data = false := by
  by_contra ha
  rw [isConfig_of_accepts (Bool.not_eq_false _ ▸ ha)] at h
  cases h

/-! ### One clock -/

theorem clock_config (h : isConfig recv.data = true) :
    (s.clock recv).cells = s.cells ∧ (s.clock recv).ptr = s.ptr ∧ (s.clock recv).sumAcc = s.sumAcc ∧
      (s.clock recv).avgWindowSize = desiredSize (recv.data.slice 0 3) := by
  unfold clock
  rw [if_pos h]
  exact ⟨rfl, rfl, rfl, rfl⟩

theorem clock_idle (hc : isConfig recv.data = false) (ha : accepts recv.data = false) :
    (s.clock recv).cells = s.cells ∧ (s.clock recv).ptr = s.ptr ∧ (s.clock recv).sumAcc = s.sumAcc ∧
      (s.clock recv).avgWindowSize = s.avgWindowSize := by
  unfold clock
  rw [hc, ha]
  exact ⟨rfl, rfl, rfl, rfl⟩

theorem clock_sample (h : accepts recv.data = true) :
    (s.clock recv).cells = s.cells.set s.ptr (sampleOf recv.data).toNat ∧
      (s.clock recv).ptr.val = (s.ptr.val + 1) % s.avgWindowSize ∧
      (∀ i, s.ptr = i → (s.clock recv).sumAcc =
        s.sumAcc + (sampleOf recv.data).setWidth 16 - s.bufferReg[i].setWidth 16) ∧
      (s.clock recv).avgWindowSize = s.avgWindowSize := by
  unfold clock
  rw [isConfig_of_accepts h, h]
  refine ⟨?_, ?_, ?_, ?_⟩
  · show (s.bufferReg.set s.ptr (sampleOf recv.data)).toList.map (·.toNat) = _
    rw [Vector.toList_set, List.map_set]
    rfl
  · rfl
  · rintro _ rfl
    rfl
  · rfl

/-- The sum takes in all cells, of whatever window. -/
def Summed (s : AvgAsp) : Prop := s.sumAcc.toNat = s.cells.sum

theorem sum_set {l : List Nat} {p old : Nat} (h : l[p]? = some old) (x : Nat) : (l.set p x).sum + old = l.sum + x := by
  obtain ⟨hp, hold⟩ := List.getElem?_eq_some_iff.1 h
  have hsplit : l.sum = (l.take p).sum + (l[p] + (l.drop (p + 1)).sum) := by
    rw [← List.sum_cons, ← List.drop_eq_getElem_cons hp, ← List.sum_append, List.take_append_drop]
  rw [List.sum_set, if_pos hp, hsplit, hold]
  omega

theorem sum_cells_le (s : AvgAsp) : s.cells.sum ≤ 65472 := by
  have := List.sum_le_card_nsmul s.cells 1023 fun x hx => Nat.le_of_lt_succ (cells_lt hx)
  rwa [length_cells] at this

/-- The new sample comes into the sum and the oldest goes out of it. The sum of 64 cells fits into 16 bits, so
nothing is lost when the addition before wraps. -/
theorem Summed.clock_sample (h : s.Summed) (ha : accepts recv.data = true) {oldest : Nat}
    (hold : s.cells[s.ptr.val]? = some oldest) :
    (s.clock recv).sumAcc.toNat + oldest = s.sumAcc.toNat + (sampleOf recv.data).toNat := by
  unfold Summed at h
  obtain ⟨hcells, -, hsum, -⟩ := AvgAsp.clock_sample (s := s) ha
  have hset := sum_set hold (sampleOf recv.data).toNat
  have hle := sum_cells_le (s.clock recv)
  rw [hcells] at hle
  rw [getElem?_cells, Option.some_inj] at hold
  have hnew := (sampleOf recv.data).isLt
  have hlt := s.bufferReg[s.ptr].isLt
  rw [hsum s.ptr rfl, BitVec.toNat_sub, BitVec.toNat_add, BitVec.toNat_setWidth, BitVec.toNat_setWidth, hold, h]
  omega

theorem Summed.clock (h : s.Summed) (recv : TdmaMinPort) : (s.clock recv).Summed := by
  unfold Summed at h ⊢
  cases hc : isConfig recv.data
  · cases ha : accepts recv.data
    · obtain ⟨hcells, -, hsum, -⟩ := clock_idle (s := s) hc ha
      rw [hcells, hsum, h]
    · obtain ⟨hcells, -, -, -⟩ := AvgAsp.clock_sample (s := s) ha
      have hacc := Summed.clock_sample h ha (getElem?_cells s s.ptr)
      have hset := sum_set (getElem?_cells s s.ptr) (sampleOf recv.data).toNat
      rw [hcells]
      omega
  · obtain ⟨hcells, -, hsum, -⟩ := clock_config (s := s) hc
    rw [hcells, hsum, h]

theorem summed_run (is : List TdmaMinPort) : (machine.run is).Summed := by
  refine Machine.always ?_ (fun s recv h => h.clock recv) is
  show (0 : BitVec 16).toNat = ((Vector.replicate 64 (0 : BitVec 10)).toList.map (·.toNat)).sum
  decide

/-- The counter is below an interval of eight bits when it is kept, so the next sample can count it up. -/
theorem counter_lt_clock (h : s.correlationSampleIntervalCounter < 255) (recv : TdmaMinPort) :
    (s.clock recv).correlationSampleIntervalCounter < 255 := by
  have hinterval := s.correlationSampleInterval.isLt
  unfold AvgAsp.clock
  split
  · exact h
  · split
    · show (if s.correlationSampleIntervalCounter + 1 ≥ _ then 0 else s.correlationSampleIntervalCounter + 1) < 255
      split <;> omega
    · exact h

theorem counter_lt_run (is : List TdmaMinPort) : (machine.run is).correlationSampleIntervalCounter < 255 := by
  refine Machine.always (I := fun s : AvgAsp => s.correlationSampleIntervalCounter < 255) ?_ ?_ is
  · decide
  · exact fun s recv h => counter_lt_clock h recv

/-- Whatever arrives, the sum is that of all cells and every value is in its range, also while the next sample is
taken in. -/
theorem ranges_run (is : List TdmaMinPort) :
    let s := machine.run is
    s.sumAcc.toNat = s.cells.sum ∧ s.sumAcc.toNat ≤ 64 * 1023 ∧ s.ptr.val ≤ 63 ∧ s.cells.length = 64 ∧
      (∀ x ∈ s.cells, x ≤ 1023) ∧ s.correlationSampleIntervalCounter + 1 ≤ 255 ∧
      ∀ recv oldest, accepts recv.data = true → s.cells[s.ptr.val]? = some oldest →
        (s.clock recv).sumAcc.toNat + oldest = s.sumAcc.toNat + (sampleOf recv.data).toNat := by
  have hsum := summed_run is
  refine ⟨hsum, ?_, Nat.le_of_lt_succ (Fin.isLt _), length_cells _, ?_, counter_lt_run is, ?_⟩
  · exact Nat.le_trans (Nat.le_of_eq hsum) (sum_cells_le _)
  · intro x hx
    exact Nat.le_of_lt_succ (cells_lt hx)
  · intro recv oldest ha hold
    exact hsum.clock_sample ha hold

/-! ### The pointer in the window -/

def window (s : AvgAsp) : List Nat := s.cells.take s.avgWindowSize

def outside (s : AvgAsp) : List Nat := s.cells.drop s.avgWindowSize

/-- The cells of the window in the order in which they will be replaced. -/
def recent (s : AvgAsp) : List Nat := aged s.window s.ptr

@[simp] theorem length_window (s : AvgAsp) : s.window.length = s.avgWindowSize := by
  have := s.avgWindowSize.2
  rw [window, List.length_take, length_cells]
  omega

theorem sum_cells (s : AvgAsp) : s.cells.sum = s.recent.sum + s.outside.sum := by
  rw [recent, sum_aged, window, outside, ← List.sum_append, List.take_append_drop]

theorem window_ne_nil (s : AvgAsp) : s.window ≠ [] := by
  refine List.ne_nil_of_length_pos ?_
  have := s.avgWindowSize.2
  rw [length_window]
  omega

theorem recent_ne_nil (s : AvgAsp) : s.recent ≠ [] := by
  refine List.ne_nil_of_length_pos ?_
  have := s.avgWindowSize.2
  rw [recent, length_aged, length_window]
  omega

/-- The state `s'` is that of `s` after the samples `xs`, with the pointer in a window that has not changed. -/
structure Slid (s : AvgAsp) (xs : List Nat) (s' : AvgAsp) : Prop where
  size : s'.avgWindowSize = s.avgWindowSize
  ptr_lt : s'.ptr.val < s'.avgWindowSize
  recent : s'.recent = shift s.recent xs
  outside : s'.outside = s.outside

theorem Slid.refl (h : s.ptr.val < s.avgWindowSize) : s.Slid [] s := ⟨rfl, h, (shift_nil _).symm, rfl⟩

/-- Every word slides the window on, if it does not select another one. -/
theorem Slid.clock {xs : List Nat} {s' : AvgAsp} (h : s.Slid xs s')
    (hc : isConfig recv.data = true → desiredSize (recv.data.slice 0 3) = s.avgWindowSize) :
    s.Slid (xs ++ samples [recv]) (s'.clock recv) := by
  cases ha : accepts recv.data
  · obtain ⟨hcells, hptr, hsize⟩ : (s'.clock recv).cells = s'.cells ∧ (s'.clock recv).ptr = s'.ptr ∧
        (s'.clock recv).avgWindowSize = s'.avgWindowSize := by
      cases hconfig : isConfig recv.data
      · obtain ⟨hcells, hptr, -, hsize⟩ := clock_idle (s := s') hconfig ha
        exact ⟨hcells, hptr, hsize⟩
      · obtain ⟨hcells, hptr, -, hsize⟩ := clock_config (s := s') hconfig
        exact ⟨hcells, hptr, hsize.trans ((hc hconfig).trans h.size.symm)⟩
    have hxs : samples [recv] = [] := by rw [samples_cons, ha]; rfl
    rw [hxs, List.append_nil]
    refine ⟨hsize.trans h.size, by rw [hptr, hsize]; exact h.ptr_lt, ?_, ?_⟩
    · rw [← h.recent, AvgAsp.recent, AvgAsp.recent, AvgAsp.window, AvgAsp.window, hcells, hptr, hsize]
    · rw [← h.outside, AvgAsp.outside, AvgAsp.outside, hcells, hsize]
  · obtain ⟨hcells, hptr, -, hsize⟩ := clock_sample (s := s') ha
    have hxs : samples [recv] = [(sampleOf recv.data).toNat] := by rw [samples_cons, ha]; rfl
    have hpos := s'.avgWindowSize.2
    have hwindow : (s'.clock recv).window = s'.window.set s'.ptr (sampleOf recv.data).toNat := by
      rw [AvgAsp.window, AvgAsp.window, hcells, hsize, List.take_set]
    rw [hxs]
    refine ⟨hsize.trans h.size, ?_, ?_, ?_⟩
    · rw [hptr, hsize]
      exact Nat.mod_lt _ (by omega)
    · have hlt : s'.ptr.val < s'.window.length := by rw [length_window]; exact h.ptr_lt
      rw [shift_concat s.recent_ne_nil, ← h.recent, AvgAsp.recent, AvgAsp.recent, ← aged_set hlt, hwindow, hptr,
        length_window]
    · rw [← h.outside, AvgAsp.outside, AvgAsp.outside, hcells, hsize, List.drop_set_of_lt h.ptr_lt]

theorem Slid.run (h : s.ptr.val < s.avgWindowSize) {is : List TdmaMinPort}
    (hc : ∀ r ∈ is, isConfig r.data = true → desiredSize (r.data.slice 0 3) = s.avgWindowSize) :
    s.Slid (samples is) (machine.runFrom s is) := by
  induction is using List.reverseRecOn with
  | nil => exact .refl h
  | append_singleton is r ih =>
    rw [samples_append, Machine.runFrom_append]
    exact (ih fun r hr => hc r (List.mem_append_left _ hr)).clock (hc r (by simp))

/-- Without configurations the window stays. -/
theorem Slid.run_of_not_config (h : s.ptr.val < s.avgWindowSize) {is : List TdmaMinPort}
    (hc : ∀ r ∈ is, isConfig r.data = false) : s.Slid (samples is) (machine.runFrom s is) := by
  refine Slid.run h fun r hr hconfig => ?_
  rw [hc r hr] at hconfig
  cases hconfig

/-- Words that are neither configurations nor samples leave the buffer as it is. -/
theorem Slid.idle {is : List TdmaMinPort} (hc : ∀ r ∈ is, isConfig r.data = false)
    (ha : ∀ r ∈ is, accepts r.data = false) :
    (machine.runFrom s is).cells = s.cells ∧ (machine.runFrom s is).ptr = s.ptr ∧
      (machine.runFrom s is).avgWindowSize = s.avgWindowSize := by
  induction is generalizing s with
  | nil => exact ⟨rfl, rfl, rfl⟩
  | cons r is ih =>
    obtain ⟨hcells, hptr, -, hsize⟩ := clock_idle (s := s) (hc r (by simp)) (ha r (by simp))
    obtain ⟨hcells', hptr', hsize'⟩ := ih (s := s.clock r) (fun r hr => hc r (List.mem_cons_of_mem _ hr))
      fun r hr => ha r (List.mem_cons_of_mem _ hr)
    exact ⟨hcells'.trans hcells, hptr'.trans hptr, hsize'.trans hsize⟩

/-! ### After a change of the window -/

/-- What is in the sum besides the last `size` samples when the window of `s` has been set to `size` and the
samples `xs`, no fewer, have followed. A pointer outside the window puts the first of them there. -/
def leftover (s : AvgAsp) (size : Nat) (xs : List Nat) : List Nat :=
  if s.ptr.val < size then s.cells.drop size
  else (s.cells.drop size).set (s.ptr - size)
    (if xs.length = size then s.cells.getD (s.ptr % size) 0 else xs.headD 0)

/-- The last `n` of `xs`. -/
def last (n : Nat) (xs : List Nat) : List Nat := xs.drop (xs.length - n)

theorem exists_first_sample {is : List TdmaMinPort} (h : samples is ≠ []) :
    ∃ before r after, is = before ++ r :: after ∧ (∀ r ∈ before, accepts r.data = false) ∧ accepts r.data = true := by
  induction is with
  | nil => exact absurd rfl h
  | cons r is ih =>
    cases ha : accepts r.data
    · have hne : samples is ≠ [] := by
        rw [samples_cons, ha] at h
        exact h
      obtain ⟨before, r', after, rfl, hbefore, hr'⟩ := ih hne
      refine ⟨r :: before, r', after, rfl, ?_, hr'⟩
      rintro q hq
      rcases List.mem_cons.1 hq with rfl | hq
      · exact ha
      · exact hbefore q hq
    · exact ⟨[], r, is, rfl, fun _ hq => absurd hq List.not_mem_nil, ha⟩

/-- A sample at a pointer outside the window goes there, and the pointer comes into the window. -/
theorem clock_outside (h : accepts recv.data = true) (hp : s.avgWindowSize ≤ s.ptr.val) :
    (s.clock recv).avgWindowSize = s.avgWindowSize ∧ (s.clock recv).ptr.val < (s.clock recv).avgWindowSize ∧
      (s.clock recv).recent = aged s.window ((s.ptr.val + 1) % s.avgWindowSize) ∧
      (s.clock recv).outside = s.outside.set (s.ptr - s.avgWindowSize) (sampleOf recv.data).toNat := by
  obtain ⟨hcells, hptr, -, hsize⟩ := clock_sample (s := s) h
  have hpos := s.avgWindowSize.2
  refine ⟨hsize, ?_, ?_, ?_⟩
  · rw [hptr, hsize]
    exact Nat.mod_lt _ (by omega)
  · rw [recent, window, window, hcells, hptr, hsize, List.take_set_of_le hp]
  · rw [outside, outside, hcells, hsize, List.drop_set, if_neg (by omega)]

theorem sum_after_outside (is : List TdmaMinPort) (h : accepts recv.data = true) (hp : s.avgWindowSize ≤ s.ptr.val)
    (hc : ∀ r ∈ is, isConfig r.data = false) (hn : s.avgWindowSize.val ≤ (samples is).length + 1) :
    (machine.runFrom (s.clock recv) is).cells.sum =
      (last s.avgWindowSize ((sampleOf recv.data).toNat :: samples is)).sum +
        (s.leftover s.avgWindowSize ((sampleOf recv.data).toNat :: samples is)).sum := by
  obtain ⟨hsize, hptr, hrecent, hout⟩ := clock_outside h hp
  have hpos := s.avgWindowSize.2
  have hlen : (s.clock recv).recent.length = s.avgWindowSize := by rw [hrecent, length_aged, length_window]
  have hslid := Slid.run_of_not_config hptr hc
  have hp64 := s.ptr.isLt
  have hq : s.ptr.val - s.avgWindowSize.val < s.outside.length := by
    rw [outside, List.length_drop, length_cells]
    omega
  rw [sum_cells, hslid.recent, hslid.outside, hout, leftover, if_neg (by omega), last, List.length_cons]
  by_cases heq : (samples is).length + 1 = s.avgWindowSize
  · -- the cell the pointer skipped has not been replaced yet
    have hmod : s.ptr.val % s.avgWindowSize < s.avgWindowSize := Nat.mod_lt _ (by omega)
    have hskip : (s.clock recv).recent[(samples is).length]? = some (s.cells.getD (s.ptr % s.avgWindowSize) 0) := by
      have hlast := getElem?_aged_last s.window_ne_nil s.ptr.val
      rw [length_window] at hlast
      rw [hrecent, show (samples is).length = s.avgWindowSize.val - 1 by omega, hlast, window,
        List.getElem?_take_of_lt hmod, List.getD_eq_getElem?_getD,
        List.getElem?_eq_getElem (by rw [length_cells]; omega)]
      rfl
    have hnew := sum_set (List.getElem?_eq_getElem hq) (sampleOf recv.data).toNat
    have hold := sum_set (List.getElem?_eq_getElem hq) (s.cells.getD (s.ptr % s.avgWindowSize) 0)
    rw [shift_of_succ (by omega), hskip, if_pos heq, heq, Nat.sub_self, List.drop_zero, List.sum_append,
      List.sum_cons]
    show s.cells.getD _ 0 + 0 + _ + _ = _ + (s.outside.set _ _).sum
    omega
  · rw [shift_of_le (by omega), hlen, if_neg heq, show (samples is).length + 1 - s.avgWindowSize.val =
      (samples is).length - s.avgWindowSize.val + 1 by omega, List.drop_succ_cons]
    rfl

theorem sum_after (s : AvgAsp) {is : List TdmaMinPort} (hc : ∀ r ∈ is, isConfig r.data = false)
    (hn : s.avgWindowSize.val ≤ (samples is).length) :
    (machine.runFrom s is).cells.sum =
      (last s.avgWindowSize (samples is)).sum + (s.leftover s.avgWindowSize (samples is)).sum := by
  have hpos := s.avgWindowSize.2
  by_cases hp : s.ptr.val < s.avgWindowSize
  · have hslid := Slid.run_of_not_config hp hc
    have hlen : s.recent.length = s.avgWindowSize := by rw [recent, length_aged, length_window]
    rw [sum_cells, hslid.recent, hslid.outside, leftover, if_pos hp, last, shift_of_le (by omega), hlen]
    rfl
  · have hne : samples is ≠ [] := List.ne_nil_of_length_pos (by omega)
    obtain ⟨before, r, after, rfl, hbefore, hr⟩ := exists_first_sample hne
    have hxs : samples (before ++ r :: after) = (sampleOf r.data).toNat :: samples after := by
      have hnone : samples before = [] := by
        unfold samples
        rw [List.filter_eq_nil_iff.2 fun q hq => by rw [hbefore q hq]; exact Bool.false_ne_true]
        rfl
      rw [samples_append, hnone, samples_cons, hr]
      rfl
    obtain ⟨hcells, hptr, hsize⟩ := Slid.idle (s := s) (fun q hq => hc q (List.mem_append_left _ hq)) hbefore
    have hafter := sum_after_outside (s := machine.runFrom s before) after hr
      (by rw [hptr, hsize]; omega) (fun q hq => hc q (by simp [hq]))
      (by rw [hsize]; rw [hxs, List.length_cons] at hn; exact hn)
    rw [hxs, Machine.runFrom_append, Machine.runFrom_cons]
    rw [leftover, hsize, hptr, hcells] at hafter
    exact hafter

/-- The moving sum after a configuration that selects the window size `W`. Once `W` samples have been accepted
since, the sum is that of the last `W` of all exactly if nothing but zeros is left over from before. -/
theorem moving_sum (pre post : List TdmaMinPort) (config : TdmaMinPort) (hconfig : isConfig config.data = true)
    (hpost : ∀ r ∈ post, isConfig r.data = false)
    (hn : (desiredSize (config.data.slice 0 3)).val ≤ (samples post).length) :
    (machine.run (pre ++ config :: post)).sumAcc.toNat =
        (last (desiredSize (config.data.slice 0 3)) (samples (pre ++ config :: post))).sum ↔
      ∀ x ∈ (machine.run pre).leftover (desiredSize (config.data.slice 0 3)) (samples post), x = 0 := by
  obtain ⟨hcells, hptr, -, hsize⟩ := clock_config (s := machine.run pre) hconfig
  have hxs : samples (pre ++ config :: post) = samples pre ++ samples post := by
    rw [samples_append, samples_cons, accepts_of_isConfig hconfig]
    rfl
  have hlast : last (desiredSize (config.data.slice 0 3)) (samples pre ++ samples post) =
      last (desiredSize (config.data.slice 0 3)) (samples post) := by
    rw [last, last, List.length_append, Nat.add_sub_assoc hn, ← List.drop_drop, List.drop_left]
  have hsum := sum_after ((machine.run pre).clock config) hpost (by rw [hsize]; exact hn)
  rw [hsize, leftover, hptr, hcells] at hsum
  have hacc : (machine.run (pre ++ config :: post)).sumAcc.toNat =
      (machine.runFrom ((machine.run pre).clock config) post).cells.sum := by
    rw [summed_run, Machine.run_append]
    rfl
  rw [hacc, hsum, hxs, hlast, ← List.sum_eq_zero_iff]
  show _ + ((machine.run pre).leftover _ _).sum = _ ↔ _
  omega

/-- A sample of value 1. -/
def exampleSample : TdmaMinPort := ⟨0, 0x80100801⟩

/-- Window size 4. -/
def exampleWindow : TdmaMinPort := ⟨0, 0x90800020⟩

theorem moving_sum_first :
    (machine.run ([] ++ exampleWindow :: List.replicate 4 exampleSample)).sumAcc.toNat =
      (last 4 (samples ([] ++ exampleWindow :: List.replicate 4 exampleSample))).sum :=
  (moving_sum [] (List.replicate 4 exampleSample) exampleWindow (by decide) (by decide) (by decide +kernel)).2
    (by decide +kernel)

/-- The last four samples are four times 1, and the sum is 6. -/
theorem moving_sum_stale :
    isConfig exampleWindow.data = true ∧ (desiredSize (exampleWindow.data.slice 0 3)).val = 4 ∧
      (samples (List.replicate 4 exampleSample)).length = 4 ∧
      (machine.run (List.replicate 5 exampleSample ++ exampleWindow :: List.replicate 4 exampleSample)).sumAcc.toNat ≠
        (last 4 (samples (List.replicate 5 exampleSample ++ exampleWindow :: List.replicate 4 exampleSample))).sum := by
  decide +kernel

end AvgAsp
end TdmaSoc
