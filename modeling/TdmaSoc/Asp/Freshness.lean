import TdmaSoc.Asp.Chip

/-!
# How old a peak report is

`PdAsp` on port 4 repeats its report in every clock until the peak is acknowledged, and the network takes one
packet to port 7 in eight clocks, so the reports pile up behind each other. A report at place `k` of the queue
goes out in the slot 3 that is the `k`-th after the next one; the queue has 256 places, which bounds the age
of what port 7 shows (`Fresh.clock`).
-/

namespace TdmaSoc
namespace Chip
open TdmaMin

/-- `PdAsp` is on port 4; the other ports send what the environment likes. -/
def pdOnly : Fin 8 → Bool := onPorts [4]

/-- After the first `u` clocks of the run a peak was detected, with the count `c` before it. -/
def Was (is : List ChipInput) (u : Nat) (c : BitVec 18) : Prop :=
  u ≤ is.length ∧ ((machine pdOnly).run (is.take u)).pd.peakDetected = true ∧
    ((machine pdOnly).run (is.take u)).pd.counterPrev = c

variable {is : List ChipInput} {u : Nat} {c : BitVec 18}

theorem Was.concat (h : Was is u c) (i : ChipInput) : Was (is ++ [i]) u c := by
  obtain ⟨hle, h⟩ := h
  refine ⟨by rw [List.length_append]; omega, ?_⟩
  rw [List.take_append_of_le_length hle]
  exact h

theorem was_now (h : ((machine pdOnly).run is).pd.peakDetected = true) :
    Was is is.length ((machine pdOnly).run is).pd.counterPrev := by
  refine ⟨Nat.le_refl _, ?_⟩
  rw [List.take_length]
  exact ⟨h, rfl⟩

/-- Every report under way was true so late that it is at most 2049 clocks old when port 7 shows it. -/
structure Fresh (is : List ChipInput) (x : Chip) : Prop where
  queue : ∀ k p, (x.net.queue 4)[k]? = some p →
    ∃ u c, p = PdAsp.reportPacket c ∧ Was is u c ∧ is.length + wait 3 x.net + 8 * k + 1 ≤ u + 2049
  send : x.pd.sendSignal = .idle ∨
    ∃ u c, x.pd.sendSignal = PdAsp.reportPacket c ∧ Was is u c ∧ is.length ≤ u + 1
  recv : isPeakReport (x.net.recvs 7).data = true → (x.net.recvs 7).addr = TdmaMin.portAddr 4 →
    ∃ u, Was is u ((x.net.recvs 7).data.slice 0 18) ∧ is.length ≤ u + 2049

theorem Fresh.init : Fresh [] Chip.init where
  queue k p h := by simp [Chip.init, TdmaMin.queue, TdmaMin.init, TdmaMinInterface.init] at h
  send := .inl rfl
  recv h := by cases h

theorem slice_reportPacket (c : BitVec 18) : (PdAsp.reportPacket c).data.slice 0 18 = c :=
  BitVec.slice_setSlice_same _ _ _ (by omega)

theorem reportPacket_addr (c : BitVec 18) : (PdAsp.reportPacket c).addr = TdmaMin.portAddr (7 : Fin 8) := rfl

variable {x : Chip}

/-- The head of the queue leaves in slot 3. -/
theorem Fresh.ack_iff (h : Fresh is x) {p : TdmaMinPort} {ps : List TdmaMinPort} (hq : x.net.queue 4 = p :: ps) :
    x.net.ack 4 = true ↔ x.net.slot = 3 := by
  obtain ⟨u, c, rfl, -⟩ := h.queue 0 p (by rw [hq]; rfl)
  exact TdmaMin.ack_iff (by omega) hq (reportPacket_addr c)

/-- What stays in the queue comes as much nearer to its slot as it gets older. -/
theorem Fresh.stays (h : Fresh is x) (i : ChipInput) {k : Nat} {p : TdmaMinPort}
    (hk : (if x.net.ack 4 then (x.net.queue 4).tail else x.net.queue 4)[k]? = some p) :
    ∃ u c, p = PdAsp.reportPacket c ∧ Was (is ++ [i]) u c ∧
      (is ++ [i]).length + wait 3 (x.clock pdOnly i).net + 8 * k + 1 ≤ u + 2049 := by
  rw [List.length_append, List.length_singleton]
  show ∃ u c, _ ∧ _ ∧ _ + wait 3 (x.net.clock (x.sends pdOnly i)) + _ + _ ≤ _
  cases hq : x.net.queue 4 with
  | nil =>
    rw [hq] at hk
    split at hk <;> simp at hk
  | cons y ys =>
    cases hack : x.net.ack 4
    · have hslot : x.net.slot ≠ 3 := fun hs => by rw [(h.ack_iff hq).2 hs] at hack; cases hack
      rw [hack] at hk
      obtain ⟨u, c, hp, hwas, hle⟩ := h.queue k p hk
      have hw := wait_clock_of_ne (by omega) hslot (x.sends pdOnly i)
      exact ⟨u, c, hp, hwas.concat i, by omega⟩
    · obtain ⟨hw, hw'⟩ := wait_clock_of_eq ((h.ack_iff hq).1 hack) (x.sends pdOnly i)
      rw [hack, if_pos rfl, List.getElem?_tail] at hk
      obtain ⟨u, c, hp, hwas, hle⟩ := h.queue (k + 1) p hk
      exact ⟨u, c, hp, hwas.concat i, by omega⟩

/-- A report that is taken into the queue is two clocks old, and has at most 255 before it. -/
theorem Fresh.enters (h : Fresh is x) (i : ChipInput) {p : TdmaMinPort}
    (hp : p ∈ (x.net.interfaces 4).fifo.writes x.pd.sendSignal.valid x.pd.sendSignal) :
    ∃ u c, p = PdAsp.reportPacket c ∧ Was (is ++ [i]) u c ∧
      (is ++ [i]).length + wait 3 (x.clock pdOnly i).net +
        8 * (if x.net.ack 4 then (x.net.queue 4).tail else x.net.queue 4).length + 1 ≤ u + 2049 := by
  rw [List.length_append, List.length_singleton]
  show ∃ u c, _ ∧ _ ∧ _ + wait 3 (x.net.clock (x.sends pdOnly i)) + _ + _ ≤ _
  unfold Scfifo.writes at hp
  split at hp
  case isFalse => exact absurd hp List.not_mem_nil
  case isTrue hw =>
    obtain ⟨hvalid, hfull⟩ := Bool.and_eq_true_iff.1 hw
    obtain rfl := List.mem_singleton.1 hp
    have hlt : (x.net.queue 4).length < 256 := by
      simp [Scfifo.full] at hfull
      exact hfull
    rcases h.send with hidle | ⟨u, c, hsend, hwas, hle⟩
    · rw [hidle] at hvalid
      cases hvalid
    · refine ⟨u, c, hsend, hwas.concat i, ?_⟩
      have h8 := wait_lt 3 (x.net.clock (x.sends pdOnly i))
      by_cases hslot : x.net.slot = 3
      · -- a queue with words in it gives one up
        cases hq : x.net.queue 4 with
        | nil =>
          have hlen : (if x.net.ack 4 then ([] : List TdmaMinPort).tail else []).length = 0 := by split <;> rfl
          rw [hlen]
          omega
        | cons y ys =>
          rw [(h.ack_iff hq).2 hslot, if_pos rfl, List.tail_cons]
          rw [hq, List.length_cons] at hlt
          omega
      · have hw' := wait_clock_of_ne (by omega) hslot (x.sends pdOnly i)
        have h8' := wait_lt 3 x.net
        have hlen : (if x.net.ack 4 then (x.net.queue 4).tail else x.net.queue 4).length ≤ (x.net.queue 4).length := by
          split
          · rw [List.length_tail]
            omega
          · exact Nat.le_refl _
        omega

theorem Fresh.clock (h : Fresh is x) (hx : x = (machine pdOnly).run is) (i : ChipInput) :
    Fresh (is ++ [i]) (x.clock pdOnly i) where
  queue k p hk := by
    have hsends : x.sends pdOnly i 4 = x.pd.sendSignal := rfl
    have hqueue : (x.clock pdOnly i).net.queue 4 =
        (if x.net.ack 4 then (x.net.queue 4).tail else x.net.queue 4) ++
          (x.net.interfaces 4).fifo.writes x.pd.sendSignal.valid x.pd.sendSignal := by
      show (x.net.clock (x.sends pdOnly i)).queue 4 = _
      rw [TdmaMin.queue_clock, Scfifo.clock_items, hsends]
      rfl
    rw [hqueue] at hk
    by_cases hlt : k < (if x.net.ack 4 then (x.net.queue 4).tail else x.net.queue 4).length
    · rw [List.getElem?_append_left hlt] at hk
      exact h.stays i hk
    · rw [List.getElem?_append_right (by omega)] at hk
      have hmem := List.mem_of_getElem? hk
      have hone : ((x.net.interfaces 4).fifo.writes x.pd.sendSignal.valid x.pd.sendSignal).length ≤ 1 := by
        unfold Scfifo.writes
        split <;> simp
      have hk' := (List.getElem?_eq_some_iff.1 hk).1
      rw [show k = (if x.net.ack 4 then (x.net.queue 4).tail else x.net.queue 4).length by omega]
      exact h.enters i hmem
  send := by
    show (x.pd.clock (x.net.recvs 4)).sendSignal = _ ∨ ∃ u c, (x.pd.clock (x.net.recvs 4)).sendSignal = _ ∧ _
    rw [PdAsp.sendSignal_clock]
    cases hpd : x.pd.peakDetected
    · exact .inl rfl
    · have hwas : Was is is.length x.pd.counterPrev := by
        rw [hx]
        exact was_now (by rw [← hx]; exact hpd)
      exact .inr ⟨_, _, rfl, hwas.concat i, by rw [List.length_append, List.length_singleton]⟩
  recv hkind hlabel := by
    show ∃ u, Was _ u (((x.net.clock (x.sends pdOnly i)).recvs 7).data.slice 0 18) ∧ _
    rcases TdmaMin.recvs_clock_cases (n := x.net) (by omega) (by omega) (x.sends pdOnly i) 7 with
      h0 | ⟨p, y, ys, hq, -, hack, hr⟩
    · have hzero : isPeakReport ((x.net.clock (x.sends pdOnly i)).recvs 7).data = false := by
        rw [h0]
        exact isData_zero _
      rw [show (x.clock pdOnly i).net = x.net.clock (x.sends pdOnly i) from rfl, hzero] at hkind
      cases hkind
    · -- the label says that it was the head of the queue of port 4
      have hp4 : p = 4 := by
        have haddr : TdmaMin.portAddr p = TdmaMin.portAddr (4 : Fin 8) := (congrArg (·.addr) hr).symm.trans hlabel
        exact Fin.ext ((TdmaMin.portAddr_inj (by omega) (by omega)).1 haddr)
      subst hp4
      obtain ⟨u, c, rfl, hwas, hle⟩ := h.queue 0 y (by rw [hq]; rfl)
      rw [hr, slice_reportPacket, List.length_append, List.length_singleton]
      exact ⟨u, hwas.concat i, by omega⟩

theorem fresh_run (is : List ChipInput) : Fresh is ((machine pdOnly).run is) := by
  induction is using List.reverseRecOn with
  | nil => exact .init
  | append_singleton is i ih =>
    rw [Machine.run_concat]
    exact ih.clock rfl i

/-- A peak report that port 7 shows under the label of `PdAsp` was true at most 2049 clocks before, however long
the acknowledgement takes. -/
theorem peak_report_age (is : List ChipInput)
    (hkind : isPeakReport (((machine pdOnly).run is).net.recvs 7).data = true)
    (hlabel : (((machine pdOnly).run is).net.recvs 7).addr = TdmaMin.portAddr 4) :
    ∃ u ≤ is.length, is.length ≤ u + 2049 ∧ ((machine pdOnly).run (is.take u)).pd.peakDetected = true ∧
      ((machine pdOnly).run (is.take u)).pd.counterPrev =
        (((machine pdOnly).run is).net.recvs 7).data.slice 0 18 := by
  obtain ⟨u, ⟨hu, hpd, hc⟩, hle⟩ := (fresh_run is).recv hkind hlabel
  exact ⟨u, hu, hle, hpd, hc⟩

/-- The values 1 and 0 from port 3, and an acknowledgement from port 7 that is there 20 clocks after the peak. -/
def lateAck (t : Nat) : ChipInput :=
  let packet : TdmaMinPort :=
    if t = 1 then CorAsp.halfPacket true 1
    else if t = 3 then CorAsp.halfPacket true 0
    else if t < 4 then CorAsp.halfPacket false 0
    else .idle
  let countRead : TdmaMinPort := if t = 50 then ⟨TdmaMin.portAddr (4 : Fin 8), dataWord 0b0110#4⟩ else .idle
  ⟨0, false, fun p => if p = 3 then packet else if p = 7 then countRead else .idle⟩

/-- The first report of the peak arrives at once. -/
theorem peak_report_age_first :
    ∃ u ≤ 36, 36 ≤ u + 2049 ∧
      ((machine pdOnly).run (((List.range 36).map lateAck).take u)).pd.peakDetected = true ∧
      ((machine pdOnly).run (((List.range 36).map lateAck).take u)).pd.counterPrev =
        (((machine pdOnly).run ((List.range 36).map lateAck)).net.recvs 7).data.slice 0 18 :=
  peak_report_age ((List.range 36).map lateAck) (by decide +kernel) (by decide +kernel)

/-- A report is there more than 16 clocks after the acknowledgement has ended the peak. -/
theorem peak_report_stale :
    let is := (List.range 76).map lateAck
    isPeakReport (((machine pdOnly).run is).net.recvs 7).data = true ∧
      (((machine pdOnly).run is).net.recvs 7).addr = TdmaMin.portAddr 4 ∧
      ¬ ∃ u ≤ is.length, is.length ≤ u + 16 ∧ ((machine pdOnly).run (is.take u)).pd.peakDetected = true ∧
        ((machine pdOnly).run (is.take u)).pd.counterPrev =
          (((machine pdOnly).run is).net.recvs 7).data.slice 0 18 := by
  have hcleared : ∀ u ≤ 76, 76 ≤ u + 16 →
      ((machine pdOnly).run (((List.range 76).map lateAck).take u)).pd.peakDetected = false := by decide +kernel
  refine ⟨by decide +kernel, by decide +kernel, ?_⟩
  rintro ⟨u, hle, hge, hpd, -⟩
  rw [hcleared u hle hge] at hpd
  cases hpd

end Chip
end TdmaSoc
