import Mathlib.Data.List.Chain
import TdmaSoc.Asp.MovingSum
import TdmaSoc.Asp.ReadBack

/-!
# The averages in the memory

The average of a sample is published in the clock after it: the averaging process holds `avgReady` up, and the
memory and the announcement both take the write address. With a window that is fixed before the first sample the
words written are the moving sums. `avgReady` is taken down by the next word, unless that word is a configuration:
then the word before it is written a second time.
-/

namespace TdmaSoc
namespace AvgAsp
open RingBuffer

variable {s : AvgAsp} {recv : TdmaMinPort}

theorem avgData_clock (h : accepts recv.data = true) : (s.clock recv).avgData = s.sumAcc := by
  unfold AvgAsp.clock
  rw [isConfig_of_accepts h, h]
  rfl

/-! ### A window that is fixed before the first sample -/

theorem samples_concat (is : List TdmaMinPort) (recv : TdmaMinPort) :
    samples (is ++ [recv]) = if accepts recv.data then samples is ++ [(sampleOf recv.data).toNat] else samples is := by
  rw [samples_append, samples_cons]
  cases accepts recv.data
  · exact List.append_nil _
  · rfl

theorem cells_unsampled {pre : List TdmaMinPort} (h : samples pre = []) :
    (machine.run pre).cells = List.replicate 64 0 ∧ (machine.run pre).ptr.val = 0 := by
  induction pre using List.reverseRecOn with
  | nil => exact ⟨by decide, rfl⟩
  | append_singleton pre r ih =>
    rw [samples_concat] at h
    cases ha : accepts r.data
    · rw [ha] at h
      rw [Machine.run_concat, ← (ih h).1, ← (ih h).2]
      cases hc : isConfig r.data
      · obtain ⟨hcells, hptr, -, -⟩ := clock_idle (s := machine.run pre) hc ha
        exact ⟨hcells, congrArg Fin.val hptr⟩
      · obtain ⟨hcells, hptr, -, -⟩ := clock_config (s := machine.run pre) hc
        exact ⟨hcells, congrArg Fin.val hptr⟩
    · rw [ha] at h
      exact absurd h (List.append_ne_nil_of_right_ne_nil _ (List.cons_ne_nil _ _))

theorem sum_shift_replicate (n : Nat) (xs : List Nat) : (shift (List.replicate n 0) xs).sum = (last n xs).sum := by
  unfold shift last
  rw [List.drop_append, List.length_replicate, List.drop_replicate, List.sum_append, List.sum_replicate_nat,
    Nat.mul_zero, Nat.zero_add]

/-- The sum is that of the last samples, as many as the window is wide. -/
theorem sumAcc_fixed {pre : List TdmaMinPort} (post : List TdmaMinPort) (hpre : samples pre = [])
    (hc : ∀ r ∈ post, isConfig r.data = true → desiredSize (r.data.slice 0 3) = (machine.run pre).avgWindowSize) :
    (machine.run (pre ++ post)).sumAcc.toNat = (last (machine.run pre).avgWindowSize (samples (pre ++ post))).sum := by
  obtain ⟨hcells, hptr⟩ := cells_unsampled hpre
  have hpos := (machine.run pre).avgWindowSize.2
  have hslid := Slid.run (by rw [hptr]; omega) hc
  have hrecent : (machine.run pre).recent = List.replicate (machine.run pre).avgWindowSize 0 := by
    rw [recent, window, hcells, hptr, List.take_replicate, Nat.min_eq_left hpos.2]
    exact List.rotate_zero _
  have hout : (machine.run pre).outside.sum = 0 := by
    rw [outside, hcells, List.drop_replicate, List.sum_replicate_nat, Nat.mul_zero]
  rw [summed_run, sum_cells, samples_append, hpre, List.nil_append, Machine.run_append, hslid.recent, hslid.outside,
    hrecent, sum_shift_replicate, hout, Nat.add_zero]

/-- What is written for the samples `xs` under the window size `size`: the sums of the samples before each. -/
def averages (size : Nat) (xs : List Nat) : List (Nat × Nat) :=
  (List.range xs.length).map fun m => (m % 1024, (last size (xs.take m)).sum)

theorem averages_concat (size : Nat) (xs : List Nat) (x : Nat) :
    averages size (xs ++ [x]) = averages size xs ++ [(xs.length % 1024, (last size xs).sum)] := by
  unfold averages
  rw [List.length_append, List.length_singleton, List.range_succ, List.map_append, List.map_singleton,
    List.take_left]
  congr 1
  refine List.map_congr_left fun m hm => ?_
  rw [List.take_append_of_le_length (Nat.le_of_lt (List.mem_range.1 hm))]

end AvgAsp

namespace AvgAspRAM
open AvgAsp (accepts isConfig samples desiredSize)

variable {s : AvgAspRAM} {recv : TdmaMinPort} {is : List TdmaMinPort}

theorem ldr_run (is : List TdmaMinPort) : (machine.run is).ldr = AvgAsp.machine.run is := by
  induction is using List.reverseRecOn with
  | nil => rfl
  | append_singleton is r ih =>
    rw [Machine.run_concat, Machine.run_concat, ← ih]
    rfl

/-! ### Writes and announcements -/

/-- The word that goes into the memory in this clock, after its address. -/
def writes (s : AvgAspRAM) (_ : TdmaMinPort) : List (BitVec 10 × BitVec 16) :=
  if s.ldr.avgReady then [(s.ramWaddr, s.ldr.avgData)] else []

def store (ram : BitVec 10 → BitVec 16) (word : BitVec 10 × BitVec 16) : BitVec 10 → BitVec 16 :=
  Function.update ram word.1 word.2

/-- The memory holds what has been written. -/
theorem ram_run (is : List TdmaMinPort) :
    (machine.run is).ram.ram = (machine.log writes is).foldl store fun _ => 0 := by
  induction is using List.reverseRecOn with
  | nil => rfl
  | append_singleton is r ih =>
    rw [Machine.run_concat, Machine.log_concat, List.foldl_append, ← ih]
    show (if (machine.run is).ldr.avgReady then _ else _) = List.foldl store _ (if _ then _ else _)
    split <;> rfl

/-- The announcement of an address that leaves in this clock. -/
def announces (s : AvgAspRAM) (recv : TdmaMinPort) : List TdmaMinPort :=
  if isAvgAddr (s.clock recv).sendSignal.data then [(s.clock recv).sendSignal] else []

theorem announces_eq (s : AvgAspRAM) (recv : TdmaMinPort) :
    announces s recv = (writes s recv).map fun word => addrPacket word.1 := by
  unfold announces writes
  have hsend : (s.clock recv).sendSignal = if s.ldr.avgReady then addrPacket s.ramWaddr
      else if s.readRequest then dataPacket s.prevCorrCalculate s.ram.qReg else .idle := rfl
  rw [hsend]
  cases s.ldr.avgReady
  · cases s.readRequest <;> simp [TdmaMinPort.idle]
  · simp

theorem slice_addrPacket (a : BitVec 10) : (addrPacket a).data.slice 0 10 = a :=
  BitVec.slice_setSlice_same _ _ _ (by omega)

theorem length_log_announces (is : List TdmaMinPort) :
    (machine.log announces is).length = (machine.log writes is).length := by
  induction is using List.reverseRecOn with
  | nil => rfl
  | append_singleton is r ih =>
    rw [Machine.log_concat, Machine.log_concat, List.length_append, List.length_append, ih, announces_eq,
      List.length_map]

/-- The write address counts the words written. -/
theorem ramWaddr_run (is : List TdmaMinPort) :
    (machine.run is).ramWaddr = BitVec.ofNat 10 (machine.log writes is).length := by
  induction is using List.reverseRecOn with
  | nil => rfl
  | append_singleton is r ih =>
    rw [Machine.run_concat, Machine.log_concat, List.length_append, writes]
    show (if (machine.run is).ldr.avgReady then _ else _) = _
    cases (machine.run is).ldr.avgReady
    · exact ih
    · rw [if_pos rfl, if_pos rfl, List.length_singleton, BitVec.ofNat_add, ← ih]
      rfl

/-! ### How long the sum stays ready -/

/-- No configuration of the averaging process comes in the clock after a sample that counts. -/
def Spaced (is : List TdmaMinPort) : Prop := is.IsChain fun r next => accepts r.data = true → isConfig next.data = false

theorem spaced_concat {r : TdmaMinPort} : Spaced (is ++ [r]) ↔
    Spaced is ∧ (isConfig r.data = true → ∀ q ∈ is.getLast?, accepts q.data = false) := by
  unfold Spaced
  rw [List.isChain_append, List.head?_cons]
  constructor
  · rintro ⟨his, -, hlast⟩
    refine ⟨his, fun hr q hq => ?_⟩
    by_contra ha
    have := hlast q hq r rfl (by simpa using ha)
    rw [hr] at this
    cases this
  · rintro ⟨his, hlast⟩
    refine ⟨his, List.IsChain.singleton r, ?_⟩
    rintro q hq _ ⟨⟩ ha
    by_contra hr
    rw [hlast (by simpa using hr) q hq] at ha
    cases ha

theorem avgReady_concat (is : List TdmaMinPort) (r : TdmaMinPort) : (machine.run (is ++ [r])).ldr.avgReady =
    if isConfig r.data then (machine.run is).ldr.avgReady else accepts r.data := by
  rw [Machine.run_concat]
  exact AvgAsp.avgReady_clock _ r

/-- Among spaced words the sum is ready in the clock after a sample, and in no other. -/
theorem Spaced.avgReady_iff (h : Spaced is) :
    (machine.run is).ldr.avgReady = true ↔ ∃ q ∈ is.getLast?, accepts q.data = true := by
  induction is using List.reverseRecOn with
  | nil =>
    constructor
    · intro hr
      cases hr
    · rintro ⟨q, hq, -⟩
      cases hq
  | append_singleton is r ih =>
    rw [spaced_concat] at h
    rw [avgReady_concat, List.getLast?_concat]
    cases hr : isConfig r.data
    · constructor
      · intro ha
        exact ⟨r, rfl, ha⟩
      · rintro ⟨_, ⟨⟩, ha⟩
        exact ha
    · rw [if_pos rfl, ih h.1]
      constructor
      · rintro ⟨q, hq, ha⟩
        rw [h.2 hr q hq] at ha
        cases ha
      · rintro ⟨_, ⟨⟩, ha⟩
        rw [AvgAsp.accepts_of_isConfig hr] at ha
        cases ha

/-- The configurations that arrive while a sum is ready. -/
def stretches (s : AvgAspRAM) (recv : TdmaMinPort) : List TdmaMinPort :=
  if isConfig recv.data && s.ldr.avgReady then [recv] else []

/-- Every sample is written once, and once more for every configuration that keeps its sum ready. -/
theorem length_log_writes (is : List TdmaMinPort) (r : TdmaMinPort) :
    (machine.log writes (is ++ [r])).length = (samples is).length + (machine.log stretches is).length := by
  induction is using List.reverseRecOn generalizing r with
  | nil => rfl
  | append_singleton is q ih =>
    rw [Machine.log_concat, List.length_append, ih q, AvgAsp.samples_concat, machine.log_concat stretches is,
      List.length_append, writes, stretches, avgReady_concat]
    cases hq : isConfig q.data
    · cases ha : accepts q.data
      · rfl
      · rw [if_neg Bool.false_ne_true, if_pos rfl, if_pos rfl, List.length_append]
        show _ + 1 = _ + 1 + (_ + 0)
        omega
    · rw [AvgAsp.accepts_of_isConfig hq, Bool.true_and, if_pos rfl]
      cases (machine.run is).ldr.avgReady
      · rfl
      · exact Nat.add_assoc _ _ 1

theorem log_stretches_eq_nil_iff : machine.log stretches is = [] ↔ Spaced is := by
  induction is using List.reverseRecOn with
  | nil => exact ⟨fun _ => List.IsChain.nil, fun _ => rfl⟩
  | append_singleton is r ih =>
    rw [Machine.log_concat, List.append_eq_nil_iff, spaced_concat, ih, and_congr_right_iff]
    intro h
    rw [stretches, ite_eq_right_iff]
    constructor
    · intro hnone hr q hq
      by_contra ha
      have hready := h.avgReady_iff.2 ⟨q, hq, by simpa using ha⟩
      exact absurd (hnone (by rw [hr, hready]; rfl)) (List.cons_ne_nil _ _)
    · intro hlast hboth
      rw [Bool.and_eq_true] at hboth
      obtain ⟨q, hq, ha⟩ := h.avgReady_iff.1 hboth.2
      rw [hlast hboth.1 q hq] at ha
      cases ha

/-- Every sample that counts is written and announced once, exactly if no configuration comes right after one. -/
theorem written_once (is : List TdmaMinPort) :
    ((machine.log writes (is ++ [.idle])).length = (samples is).length ∧
        (machine.log announces (is ++ [.idle])).length = (samples is).length) ↔
      Spaced is := by
  rw [length_log_announces, and_self, length_log_writes, ← log_stretches_eq_nil_iff, ← List.length_eq_zero_iff]
  omega

/-- A sample and a configuration of the averaging process. -/
def exampleReconfigured : List TdmaMinPort := [AvgAsp.exampleSample, AvgAsp.exampleWindow]

theorem written_twice :
    (samples exampleReconfigured).length = 1 ∧ (machine.log writes (exampleReconfigured ++ [.idle])).length = 2 ∧
      (machine.log announces (exampleReconfigured ++ [.idle])).length = 2 := by
  decide +kernel

/-! ### What is written under a fixed window -/

/-- The word written in the clock after `r`, if that is a sample: the sum as it was before. -/
theorem Spaced.writes_concat {r : TdmaMinPort} (h : Spaced (is ++ [r])) (next : TdmaMinPort) :
    writes (machine.run (is ++ [r])) next =
      if accepts r.data then [(BitVec.ofNat 10 (samples is).length, (AvgAsp.machine.run is).sumAcc)] else [] := by
  have hconfig := (spaced_concat.1 h).2
  have hready := (spaced_concat.1 h).1.avgReady_iff
  rw [writes, avgReady_concat, ramWaddr_run, length_log_writes, log_stretches_eq_nil_iff.2 (spaced_concat.1 h).1]
  cases hr : isConfig r.data
  · cases ha : accepts r.data
    · rfl
    · have hdata : (machine.run (is ++ [r])).ldr.avgData = (AvgAsp.machine.run is).sumAcc := by
        rw [ldr_run, Machine.run_concat]
        exact AvgAsp.avgData_clock ha
      rw [hdata]
      rfl
  · have hnot : (machine.run is).ldr.avgReady = false := by
      by_contra hready'
      obtain ⟨q, hq, ha⟩ := hready.1 (by simpa using hready')
      rw [hconfig hr q hq] at ha
      cases ha
    rw [AvgAsp.accepts_of_isConfig hr, hnot]
    rfl

/-- With a window that is fixed before the first sample, what has been written one clock after the words `pre` and
`post` is a moving sum for every sample among them, and the memory holds what has been written; and an announcement
leaves when a word is written, with its address. -/
theorem averages_written (pre post : List TdmaMinPort) (next : TdmaMinPort) (hpre : samples pre = [])
    (hc : ∀ r ∈ post, isConfig r.data = true →
      desiredSize (r.data.slice 0 3) = (machine.run pre).ldr.avgWindowSize)
    (hspaced : Spaced (pre ++ post)) :
    ((machine.log writes (pre ++ post ++ [next])).map fun word => (word.1.toNat, word.2.toNat)) =
        AvgAsp.averages (machine.run pre).ldr.avgWindowSize (samples (pre ++ post)) ∧
      ((machine.run (pre ++ post ++ [next])).ram.ram =
        (machine.log writes (pre ++ post ++ [next])).foldl store fun _ => 0) ∧
      ∀ s recv, (announces s recv).map (fun packet => (packet.addr, packet.data.slice 0 10)) =
        (writes s recv).map fun word => (3#8, word.1) := by
  refine ⟨?_, ram_run _, ?_⟩
  · induction post using List.reverseRecOn generalizing next with
    | nil =>
      rw [List.append_nil] at hspaced ⊢
      have hlen := length_log_writes pre next
      rw [hpre, log_stretches_eq_nil_iff.2 hspaced] at hlen
      rw [List.eq_nil_of_length_eq_zero hlen, hpre]
      rfl
    | append_singleton post r ih =>
      rw [← List.append_assoc] at hspaced ⊢
      have hwritten := ih r (fun q hq => hc q (List.mem_append_left _ hq)) (spaced_concat.1 hspaced).1
      have hsum := AvgAsp.sumAcc_fixed post hpre fun q hq => by
        rw [← ldr_run]
        exact hc q (List.mem_append_left _ hq)
      rw [Machine.log_concat, List.map_append, hwritten, hspaced.writes_concat, AvgAsp.samples_concat]
      cases accepts r.data
      · exact List.append_nil _
      · rw [if_pos rfl, if_pos rfl, AvgAsp.averages_concat, ldr_run, ← hsum]
        rfl
  · intro s recv
    rw [announces_eq, List.map_map]
    refine List.map_congr_left fun word _ => ?_
    show ((addrPacket word.1).addr, (addrPacket word.1).data.slice 0 10) = _
    rw [slice_addrPacket]
    rfl

theorem averages_written_five :
    (machine.log writes ([AvgAsp.exampleWindow] ++ List.replicate 5 AvgAsp.exampleSample ++ [.idle])).map
        (fun word => (word.1.toNat, word.2.toNat)) =
      AvgAsp.averages (machine.run [AvgAsp.exampleWindow]).ldr.avgWindowSize
        (samples ([AvgAsp.exampleWindow] ++ List.replicate 5 AvgAsp.exampleSample)) :=
  (averages_written [AvgAsp.exampleWindow] (List.replicate 5 AvgAsp.exampleSample) .idle (by decide)
    (by decide +kernel) (log_stretches_eq_nil_iff.1 (by decide +kernel))).1

example : AvgAsp.averages 4 [1, 2, 3, 4, 5, 6] = [(0, 0), (1, 1), (2, 3), (3, 6), (4, 10), (5, 14)] := by decide

end AvgAspRAM
end TdmaSoc
