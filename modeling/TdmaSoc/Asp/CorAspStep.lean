import TdmaSoc.Asp.CorAsp

/-!
# What one clock of CorAsp does

`Handshake` is what the flags of the request handshake satisfy between two clocks, as long as averages
only come while one has been asked for. Under it a clock is one of five kinds, each with its own
equation: waiting (`clock_wait`), taking an answer (`clock_answer_*`), sending a half (`clock_half`),
the step through `S2` (`clock_s2`) and sending a request (`clock_request`).
-/

namespace TdmaSoc
namespace CorAsp
variable {s : CorAsp} {recv : TdmaMinPort}

@[simp] theorem isData_requestPacket (mode : BitVec 4) (a : BitVec 10) :
    isData mode (requestPacket a).data = (0b0010#4 == mode) := by
  rw [requestPacket, isData_setSlice _ _ _ (by decide), isData_dataWord]

@[simp] theorem isData_halfPacket (mode : BitVec 4) (second : Bool) (half : BitVec 18) :
    isData mode (halfPacket second half).data = (0b0101#4 == mode) := by
  rw [halfPacket, isData_setSlice _ _ _ (by decide), isData_setSlice _ _ _ (by decide), isData_dataWord]

@[simp] theorem slice_requestPacket (a : BitVec 10) : (requestPacket a).data.slice 0 10 = a := by
  simp [requestPacket]

@[simp] theorem slice_halfPacket (second : Bool) (half : BitVec 18) :
    (halfPacket second half).data.slice 0 18 = half := by
  simp [halfPacket]

@[simp] theorem getLsbD_halfPacket (second : Bool) (half : BitVec 18) :
    (halfPacket second half).data.getLsbD 18 = second := by
  simp only [halfPacket, BitVec.getLsbD_setSlice]
  simp

inductive Sent : TdmaMinPort → Prop
  | idle : Sent .idle
  | half (second : Bool) (half : BitVec 18) : Sent (halfPacket second half)
  | request (a : BitVec 10) : Sent (requestPacket a)

theorem sent_clock (s : CorAsp) (recv : TdmaMinPort) : Sent (s.clock recv).sendSignal := by
  unfold clock send
  split
  · exact .half ..
  · split
    · exact .half ..
    · split
      · exact .request ..
      · exact .idle

theorem decode_kept : s.decode recv = { s with
    correlationWindowSize := (s.decode recv).correlationWindowSize
    calculate := (s.decode recv).calculate
    avgData := (s.decode recv).avgData
    newestAvgDataAddr := (s.decode recv).newestAvgDataAddr
    justRecvAvgData := (s.decode recv).justRecvAvgData } := by
  unfold decode
  repeat' split
  all_goals rfl

/-- What is sent touches the flags of the halves and of the request only. -/
theorem send_kept {v : CorAsp} : s.send v = { v with
    sendSignal := (s.send v).sendSignal
    correlationFirstHalf := v.correlationFirstHalf && !s.correlationFirstHalf
    correlationSecondHalf := v.correlationSecondHalf && (s.correlationFirstHalf || !s.correlationSecondHalf)
    sendAvgDataRq :=
      v.sendAvgDataRq && (s.correlationFirstHalf || s.correlationSecondHalf || v.hasSendAvgDataRq)
    hasSendAvgDataRq :=
      v.hasSendAvgDataRq || v.sendAvgDataRq && !(s.correlationFirstHalf || s.correlationSecondHalf) } := by
  unfold send
  cases s.correlationFirstHalf
  · cases s.correlationSecondHalf
    · cases v.sendAvgDataRq <;> cases v.hasSendAvgDataRq <;> simp
    · simp
  · simp

theorem fsm_kept {v : CorAsp} : (s.fsm v).newestAvgDataAddr = v.newestAvgDataAddr ∧
    (s.fsm v).correlationWindowSize = v.correlationWindowSize := by
  unfold fsm
  dsimp only
  repeat' split
  all_goals exact ⟨rfl, rfl⟩

/-- An average sets the data, its flag and possibly `calculate`. -/
theorem decode_of_avgData (h : isAvgData recv.data = true) : s.decode recv = { s with
    calculate := if recv.data.getLsbD 16 then true else s.calculate
    avgData := recv.data.slice 0 16
    justRecvAvgData := true } := by
  rw [isData_iff] at h
  rw [decode, h.1, h.2]; rfl

/-- Every other word touches the window size and the newest address only. -/
theorem decode_of_not_avgData (h : isAvgData recv.data = false) : s.decode recv = { s with
    correlationWindowSize := (s.decode recv).correlationWindowSize
    newestAvgDataAddr := (s.decode recv).newestAvgDataAddr } := by
  have h' : packetType recv.data = 0b1000#4 → packetMode recv.data ≠ 0b0011#4 := fun ht hm =>
    absurd (isData_iff.2 ⟨ht, hm⟩) (by simp [h])
  unfold decode
  split
  · rfl
  · split
    case isTrue ht => rw [if_neg (h' ht)]; split <;> rfl
    case isFalse => rfl

theorem clock_newestAvgDataAddr : (s.clock recv).newestAvgDataAddr =
    if isAvgAddr recv.data then recv.data.slice 0 10 else s.newestAvgDataAddr := by
  rw [clock, send_kept]
  show (s.fsm (s.decode recv)).newestAvgDataAddr = _
  rw [fsm_kept.1, decode]
  by_cases ht : packetType recv.data = 0b1000#4
  · by_cases hm : packetMode recv.data = 0b0011#4 <;> simp [isAvgAddr, isData, ht, hm]
    split <;> rfl
  · simp only [isAvgAddr, isData, ht, beq_eq_false_iff_ne.2 ht, Bool.false_and]
    split <;> rfl

theorem windowSize_le (code : BitVec 3) : windowSize code ≤ 15 := by
  unfold windowSize
  split <;> decide

theorem one_le_windowSize (code : BitVec 3) : 1 ≤ windowSize code := by
  unfold windowSize
  split <;> decide

theorem two_le_windowSize {code : BitVec 3} (h : code ≠ 0b000#3) : 2 ≤ windowSize code := by
  unfold windowSize
  split
  · exact absurd rfl h
  all_goals decide

theorem decode_correlationWindowSize : (s.decode recv).correlationWindowSize =
    if packetType recv.data = 0b1010#4 then windowSize (recv.data.slice 0 3) else s.correlationWindowSize := by
  unfold decode
  split
  · rfl
  · split
    · split
      · rfl
      · split <;> rfl
    · rfl

theorem clock_correlationWindowSize :
    (s.clock recv).correlationWindowSize = (s.decode recv).correlationWindowSize := by
  rw [clock, send_kept]
  exact fsm_kept.2

theorem originOffset_eq {w : Nat} (h : 1 ≤ w / 2) :
    BitVec.ofInt 10 (originOffset w) = BitVec.ofNat 10 (w / 2 - 1) := by
  obtain ⟨m, hm⟩ : ∃ m, w / 2 = m + 1 := ⟨w / 2 - 1, by omega⟩
  rw [originOffset, hm, show ((m + 1 : Nat) : Int) - 1 = (m : Int) by omega, BitVec.ofInt_natCast]
  rfl

/-- The flags of the request handshake between two clocks. -/
structure Handshake (s : CorAsp) : Prop where
  justRecv : s.justRecvAvgData = false
  /-- While a request is out nothing waits to be sent and `S2` is not the state. -/
  waiting : s.hasSendAvgDataRq = true → s.sendAvgDataRq = false ∧ s.correlationFirstHalf = false ∧
    s.correlationSecondHalf = false ∧ s.state ≠ .S2
  first : s.correlationFirstHalf = true → s.correlationSecondHalf = true
  /-- The halves leave from `S0`, and a request is kept back for them only. -/
  second : s.correlationSecondHalf = true → s.state = .S0
  rq : s.sendAvgDataRq = true → s.state = .S0

theorem Handshake.init : CorAsp.init.Handshake := ⟨rfl, by decide, by decide, by decide, by decide⟩

/-- The request that the state machine would compute in this clock. -/
def nextAddr (s : CorAsp) (newest : BitVec 10) : BitVec 10 :=
  match s.state with
  | .S0 => newest - BitVec.ofInt 10 (originOffset s.correlationWindowSize)
  | .S1 => s.currentCorrOrigin - BitVec.ofNat 10 s.counter.toNat - 1
  | _ => s.currentCorrOrigin + BitVec.ofNat 10 s.counter.toNat

section Clock
variable (h : s.Handshake)
include h

theorem Handshake.clock_wait (hs : s.hasSendAvgDataRq = true) (hr : isAvgData recv.data = false) :
    s.clock recv = { s with
    correlationWindowSize := (s.decode recv).correlationWindowSize
    newestAvgDataAddr := (s.decode recv).newestAvgDataAddr
    sendSignal := .idle } := by
  obtain ⟨hrq, hf, h2, hst⟩ := h.waiting hs
  have hj := h.justRecv
  rw [clock, decode_of_not_avgData hr]
  cases hstate : s.state
  case S2 => exact absurd hstate hst
  all_goals simp [fsm, send, hstate, hj, hs, hrq, hf, h2]

/-- An answer that does not start a correlation is dropped. -/
theorem Handshake.clock_answer_s0 (hs : s.hasSendAvgDataRq = true) (hr : isAvgData recv.data = true)
    (hstate : s.state = .S0) (hc : s.calculate = false) : s.clock recv = { s with
      calculate := recv.data.getLsbD 16
      avgData := recv.data.slice 0 16
      hasSendAvgDataRq := false
      correlationRdy := false
      correlationPairProduct := 0
      counter := 0
      multiplicandTemp := 0
      sendSignal := .idle } := by
  obtain ⟨hrq, hf, h2, -⟩ := h.waiting hs
  have hj := h.justRecv
  rw [clock, decode_of_avgData hr]
  simp [fsm, send, hstate, hj, hrq, hf, h2, hc]

/-- The answer that starts a correlation. -/
theorem Handshake.clock_answer_start (hs : s.hasSendAvgDataRq = true) (hr : isAvgData recv.data = true)
    (hstate : s.state = .S0) (hc : s.calculate = true) : s.clock recv = { s with
      calculate := false
      avgData := recv.data.slice 0 16
      hasSendAvgDataRq := false
      correlationRdy := false
      correlationPairProduct := 0
      counter := 0
      correlation := 0
      multiplicandTemp := recv.data.slice 0 16
      currentCorrOrigin := s.avgDataMemAddr
      state := .S1
      sendSignal := .idle } := by
  obtain ⟨hrq, hf, h2, -⟩ := h.waiting hs
  have hj := h.justRecv
  rw [clock, decode_of_avgData hr]
  simp [fsm, send, hstate, hj, hrq, hf, h2, hc]

theorem Handshake.clock_answer_s1 (hs : s.hasSendAvgDataRq = true) (hr : isAvgData recv.data = true)
    (hstate : s.state = .S1) : s.clock recv = { s with
      calculate := if recv.data.getLsbD 16 then true else s.calculate
      avgData := recv.data.slice 0 16
      hasSendAvgDataRq := false
      correlationPairProduct := s.multiplicandTemp.setWidth 32 * (recv.data.slice 0 16).setWidth 32
      correlationRdy := false
      state := .S2
      sendSignal := .idle } := by
  obtain ⟨hrq, hf, h2, -⟩ := h.waiting hs
  have hj := h.justRecv
  rw [clock, decode_of_avgData hr]
  simp [fsm, send, hstate, hj, hrq, hf, h2]

/-- The answer after the last product. -/
theorem Handshake.clock_answer_finish (hs : s.hasSendAvgDataRq = true) (hr : isAvgData recv.data = true)
    (hstate : s.state = .S3) (hn : s.correlationWindowSize / 2 ≤ s.counter.toNat) : s.clock recv = { s with
      calculate := if recv.data.getLsbD 16 then true else s.calculate
      avgData := recv.data.slice 0 16
      hasSendAvgDataRq := false
      correlation := s.correlation + s.correlationPairProduct.setWidth 36
      correlationPairProduct := 0
      counter := 0
      correlationRdy := true
      state := .S0
      correlationFirstHalf := true
      correlationSecondHalf := true
      sendSignal := .idle } := by
  obtain ⟨hrq, hf, h2, -⟩ := h.waiting hs
  have hj := h.justRecv
  rw [clock, decode_of_avgData hr]
  simp [fsm, send, hstate, hj, hrq, hf, h2, hn]

/-- The answer after any earlier product is the first operand of the next. -/
theorem Handshake.clock_answer_s3 (hs : s.hasSendAvgDataRq = true) (hr : isAvgData recv.data = true)
    (hstate : s.state = .S3) (hn : s.counter.toNat < s.correlationWindowSize / 2) : s.clock recv = { s with
      calculate := if recv.data.getLsbD 16 then true else s.calculate
      avgData := recv.data.slice 0 16
      hasSendAvgDataRq := false
      correlation := s.correlation + s.correlationPairProduct.setWidth 36
      correlationPairProduct := 0
      multiplicandTemp := recv.data.slice 0 16
      correlationRdy := false
      state := .S1
      sendSignal := .idle } := by
  obtain ⟨hrq, hf, h2, -⟩ := h.waiting hs
  have hj := h.justRecv
  rw [clock, decode_of_avgData hr]
  simp [fsm, send, hstate, hj, hrq, hf, h2, Nat.not_le.2 hn]

/-- Sending a half; the request for the next origin is computed and kept back. -/
theorem Handshake.clock_half (hs : s.hasSendAvgDataRq = false) (hr : isAvgData recv.data = false)
    (h2 : s.correlationSecondHalf = true) : s.clock recv = { s with
      correlationWindowSize := (s.decode recv).correlationWindowSize
      newestAvgDataAddr := (s.decode recv).newestAvgDataAddr
      avgDataMemAddr := s.nextAddr (s.decode recv).newestAvgDataAddr
      sendAvgDataRq := true
      correlationFirstHalf := false
      correlationSecondHalf := s.correlationFirstHalf
      sendSignal := if s.correlationFirstHalf then halfPacket false (s.correlation.slice 18 18)
        else halfPacket true (s.correlation.slice 0 18) } := by
  have hj := h.justRecv
  have hstate := h.second h2
  rw [clock, decode_of_not_avgData hr]
  cases hf : s.correlationFirstHalf <;> simp [fsm, send, nextAddr, hstate, hj, hs, hf, h2]

theorem Handshake.clock_s2 (hr : isAvgData recv.data = false) (hstate : s.state = .S2) : s.clock recv = { s with
    correlationWindowSize := (s.decode recv).correlationWindowSize
    newestAvgDataAddr := (s.decode recv).newestAvgDataAddr
    counter := s.counter + 1
    state := .S3
    sendSignal := .idle } := by
  have hrq : s.sendAvgDataRq = false := by
    by_contra hrq; exact absurd (h.rq (by simpa using hrq)) (by simp [hstate])
  have h2 : s.correlationSecondHalf = false := by
    by_contra h2; exact absurd (h.second (by simpa using h2)) (by simp [hstate])
  have hf : s.correlationFirstHalf = false := by
    by_contra hf; rw [h.first (by simpa using hf)] at h2; cases h2
  rw [clock, decode_of_not_avgData hr]
  simp [fsm, send, hstate, hf, h2, hrq]

theorem Handshake.clock_request (hs : s.hasSendAvgDataRq = false) (hr : isAvgData recv.data = false)
    (h2 : s.correlationSecondHalf = false) (hstate : s.state ≠ .S2) : s.clock recv = { s with
      correlationWindowSize := (s.decode recv).correlationWindowSize
      newestAvgDataAddr := (s.decode recv).newestAvgDataAddr
      avgDataMemAddr := s.nextAddr (s.decode recv).newestAvgDataAddr
      sendAvgDataRq := false
      hasSendAvgDataRq := true
      sendSignal := requestPacket (s.nextAddr (s.decode recv).newestAvgDataAddr) } := by
  have hj := h.justRecv
  have hf : s.correlationFirstHalf = false := by
    by_contra hf; rw [h.first (by simpa using hf)] at h2; cases h2
  rw [clock, decode_of_not_avgData hr]
  cases hst : s.state
  case S2 => exact absurd hst hstate
  all_goals simp [fsm, send, nextAddr, hst, hj, hs, hf, h2]

end Clock

/-- The kinds of clock there are when averages only come while one has been asked for. -/
inductive Kind (s : CorAsp) (recv : TdmaMinPort) : Prop
  | wait (hs : s.hasSendAvgDataRq = true) (hr : isAvgData recv.data = false)
  | dropped (hs : s.hasSendAvgDataRq = true) (hr : isAvgData recv.data = true) (hstate : s.state = .S0)
    (hc : s.calculate = false)
  | start (hs : s.hasSendAvgDataRq = true) (hr : isAvgData recv.data = true) (hstate : s.state = .S0)
    (hc : s.calculate = true)
  | product (hs : s.hasSendAvgDataRq = true) (hr : isAvgData recv.data = true) (hstate : s.state = .S1)
  | finish (hs : s.hasSendAvgDataRq = true) (hr : isAvgData recv.data = true) (hstate : s.state = .S3)
    (hn : s.correlationWindowSize / 2 ≤ s.counter.toNat)
  | next (hs : s.hasSendAvgDataRq = true) (hr : isAvgData recv.data = true) (hstate : s.state = .S3)
    (hn : s.counter.toNat < s.correlationWindowSize / 2)
  | half (hs : s.hasSendAvgDataRq = false) (hr : isAvgData recv.data = false)
    (h2 : s.correlationSecondHalf = true)
  | s2 (hs : s.hasSendAvgDataRq = false) (hr : isAvgData recv.data = false) (hstate : s.state = .S2)
  | request (hs : s.hasSendAvgDataRq = false) (hr : isAvgData recv.data = false)
    (h2 : s.correlationSecondHalf = false) (hstate : s.state ≠ .S2)

theorem Handshake.kind (h : s.Handshake) (hr : isAvgData recv.data = true → s.hasSendAvgDataRq = true) :
    Kind s recv := by
  cases hd : isAvgData recv.data with
  | true =>
    have hs := hr hd
    cases hstate : s.state with
    | S0 =>
      cases hc : s.calculate with
      | true => exact .start hs hd hstate hc
      | false => exact .dropped hs hd hstate hc
    | S1 => exact .product hs hd hstate
    | S2 => exact absurd hstate (h.waiting hs).2.2.2
    | S3 =>
      rcases Nat.lt_or_ge s.counter.toNat (s.correlationWindowSize / 2) with hn | hn
      · exact .next hs hd hstate hn
      · exact .finish hs hd hstate hn
  | false =>
    cases hs : s.hasSendAvgDataRq with
    | true => exact .wait hs hd
    | false =>
      cases h2 : s.correlationSecondHalf with
      | true => exact .half hs hd h2
      | false =>
        by_cases hstate : s.state = .S2
        · exact .s2 hs hd hstate
        · exact .request hs hd h2 hstate

theorem Handshake.clock (h : s.Handshake) (hr : isAvgData recv.data = true → s.hasSendAvgDataRq = true) :
    (s.clock recv).Handshake := by
  have h' := h
  obtain ⟨hj, hw, hf, h2', hrq⟩ := h
  cases h'.kind hr with
  | wait hs hd => rw [h'.clock_wait hs hd]; exact ⟨hj, hw, hf, h2', hrq⟩
  | dropped hs hd hstate hc =>
    rw [h'.clock_answer_s0 hs hd hstate hc]
    exact ⟨hj, by simp, hf, h2', hrq⟩
  | start hs hd hstate hc =>
    obtain ⟨h1, h3, h4, -⟩ := hw hs
    rw [h'.clock_answer_start hs hd hstate hc]
    exact ⟨hj, by simp, by simp [h3], by simp [h4], by simp [h1]⟩
  | product hs hd hstate =>
    obtain ⟨h1, h3, h4, -⟩ := hw hs
    rw [h'.clock_answer_s1 hs hd hstate]
    exact ⟨hj, by simp, by simp [h3], by simp [h4], by simp [h1]⟩
  | finish hs hd hstate hn =>
    rw [h'.clock_answer_finish hs hd hstate hn]
    exact ⟨hj, by simp, by simp, by simp, by simp⟩
  | next hs hd hstate hn =>
    obtain ⟨h1, h3, h4, -⟩ := hw hs
    rw [h'.clock_answer_s3 hs hd hstate hn]
    exact ⟨hj, by simp, by simp [h3], by simp [h4], by simp [h1]⟩
  | half hs hd h2 =>
    have hstate := h2' h2
    rw [h'.clock_half hs hd h2]
    exact ⟨hj, by simp [hs], by simp, fun _ => hstate, fun _ => hstate⟩
  | s2 hs hd hstate =>
    rw [h'.clock_s2 hd hstate]
    refine ⟨hj, by simp [hs], hf, fun h2 => ?_, fun h1 => ?_⟩
    · exact absurd (h2' h2) (by simp [hstate])
    · exact absurd (hrq h1) (by simp [hstate])
  | request hs hd h2 hstate =>
    have hff : s.correlationFirstHalf = false := by
      by_contra hff; rw [hf (by simpa using hff)] at h2; cases h2
    rw [h'.clock_request hs hd h2 hstate]
    exact ⟨hj, fun _ => ⟨rfl, hff, h2, hstate⟩, hf, h2', by simp⟩

end CorAsp
end TdmaSoc
