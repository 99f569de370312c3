import TdmaSoc.Asp.ReadLoop

/-!
# Halves of correlation values

A value leaves CorAsp as two packets, the high half first, and PdAsp puts it together again from a
register that keeps the high half. `InFlight` says what is left to come of a value, and the two ends
keep it: CorAsp by sending its halves in order (`CorAsp.Handshake.halves_clock`), PdAsp by taking them
(`InFlight.take`).
-/

namespace TdmaSoc
open TdmaMin

namespace CorAsp
variable {s : CorAsp} {recv : TdmaMinPort}

def halves (s : CorAsp) : List TdmaMinData :=
  (if s.correlationFirstHalf then [(halfPacket false (s.correlation.slice 18 18)).data] else []) ++
    if s.correlationSecondHalf then [(halfPacket true (s.correlation.slice 0 18)).data] else []

def completed (s : CorAsp) (recv : TdmaMinPort) : List (BitVec 36) :=
  if s.state = .S3 ∧ (s.clock recv).state = .S0 then [(s.clock recv).correlation] else []

@[simp] theorem packets_halfPacket (b : Bool) (v : BitVec 18) : (halfPacket b v).packets = [halfPacket b v] :=
  if_pos (msb_of_isData (show isData 0b0101#4 _ = true by simp))

@[simp] theorem packets_requestPacket (a : BitVec 10) : (requestPacket a).packets = [requestPacket a] :=
  if_pos (msb_of_isData (show isData 0b0010#4 _ = true by simp))

theorem words_halfPacket (b : Bool) (v : BitVec 18) :
    wordsFor (4 : Fin 8) [halfPacket b v] = [(halfPacket b v).data] ∧ wordsFor (2 : Fin 8) [halfPacket b v] = [] :=
  ⟨rfl, rfl⟩

theorem words_requestPacket (a : BitVec 10) :
    wordsFor (4 : Fin 8) [requestPacket a] = [] ∧ wordsFor (2 : Fin 8) [requestPacket a] = [(requestPacket a).data] :=
  ⟨rfl, rfl⟩

theorem Handshake.idle_of_hasSend (h : s.Handshake) (hr : isAvgData recv.data = true → s.hasSendAvgDataRq = true)
    (hs : s.hasSendAvgDataRq = true) : (s.clock recv).sendSignal = .idle := by
  cases h.kind hr with
  | wait hs hd => rw [h.clock_wait hs hd]
  | dropped hs hd hstate hc => rw [h.clock_answer_s0 hs hd hstate hc]
  | start hs hd hstate hc => rw [h.clock_answer_start hs hd hstate hc]
  | product hs hd hstate => rw [h.clock_answer_s1 hs hd hstate]
  | finish hs hd hstate hn => rw [h.clock_answer_finish hs hd hstate hn]
  | next hs hd hstate hn => rw [h.clock_answer_s3 hs hd hstate hn]
  | half hs' | s2 hs' | request hs' => rw [hs] at hs'; cases hs'

theorem Handshake.halves_of_hasSend (h : s.Handshake) (hs : s.hasSendAvgDataRq = true) : s.halves = [] := by
  obtain ⟨-, hf, h2, -⟩ := h.waiting hs
  simp [halves, hf, h2]

theorem Handshake.halves_of_second (h : s.Handshake) (h2 : s.correlationSecondHalf = false) : s.halves = [] := by
  have hf : s.correlationFirstHalf = false := by
    by_contra hf; rw [h.first (by simpa using hf)] at h2; cases h2
  simp [halves, hf, h2]

/-- A clock that completes no value sends the next of the halves there are. -/
theorem Handshake.halves_clock (h : s.Handshake) (hr : isAvgData recv.data = true → s.hasSendAvgDataRq = true) :
    s.completed recv = [] ∧ wordsFor (4 : Fin 8) (s.clock recv).sendSignal.packets ++ (s.clock recv).halves = s.halves ∨
    isAvgData recv.data = true ∧ s.halves = [] ∧ (s.clock recv).sendSignal = .idle ∧
      (s.clock recv).hasSendAvgDataRq = false ∧ s.completed recv = [(s.clock recv).correlation] ∧
      (s.clock recv).halves = [(halfPacket false ((s.clock recv).correlation.slice 18 18)).data,
        (halfPacket true ((s.clock recv).correlation.slice 0 18)).data] := by
  cases h.kind hr with
  | wait hs hd =>
    obtain ⟨-, hf, h2, -⟩ := h.waiting hs
    left; simp [completed, halves, h.clock_wait hs hd, hf, h2, wordsFor]
    intro h3; simp [h3]
  | dropped hs hd hstate hc =>
    obtain ⟨-, hf, h2, -⟩ := h.waiting hs
    left; simp [completed, halves, h.clock_answer_s0 hs hd hstate hc, hf, h2, hstate, wordsFor]
  | start hs hd hstate hc =>
    obtain ⟨-, hf, h2, -⟩ := h.waiting hs
    left; simp [completed, halves, h.clock_answer_start hs hd hstate hc, hf, h2, hstate, wordsFor]
  | product hs hd hstate =>
    obtain ⟨-, hf, h2, -⟩ := h.waiting hs
    left; simp [completed, halves, h.clock_answer_s1 hs hd hstate, hf, h2, hstate, wordsFor]
  | finish hs hd hstate hn =>
    right
    refine ⟨hd, h.halves_of_hasSend hs, ?_⟩
    simp [completed, halves, h.clock_answer_finish hs hd hstate hn, hstate]
  | next hs hd hstate hn =>
    obtain ⟨-, hf, h2, -⟩ := h.waiting hs
    left; simp [completed, halves, h.clock_answer_s3 hs hd hstate hn, hf, h2, wordsFor]
  | half hs hd h2 =>
    have hstate := h.second h2
    left
    cases hf : s.correlationFirstHalf <;>
      simp [completed, halves, h.clock_half hs hd h2, hf, h2, hstate, words_halfPacket]
  | s2 hs hd hstate =>
    have h2 : s.correlationSecondHalf = false := by
      by_contra h2; exact absurd (h.second (by simpa using h2)) (by simp [hstate])
    left; rw [h.halves_of_second h2]
    have := (h.clock hr).halves_of_second (by rw [h.clock_s2 hd hstate]; exact h2)
    rw [this]; simp [completed, h.clock_s2 hd hstate, wordsFor]
  | request hs hd h2 hstate =>
    left; rw [h.halves_of_second h2]
    have := (h.clock hr).halves_of_second (by rw [h.clock_request hs hd h2 hstate]; exact h2)
    rw [this]; simp [completed, h.clock_request hs hd h2 hstate, words_requestPacket]
    intro h3; simp [h3]

theorem Handshake.sends_half (h : s.Handshake) (hr : isAvgData recv.data = true → s.hasSendAvgDataRq = true)
    (hh : s.halves ≠ []) : 0 < (wordsFor (4 : Fin 8) (s.clock recv).sendSignal.packets).length := by
  have h2 : s.correlationSecondHalf = true := by
    by_contra h2; exact hh (h.halves_of_second (by simpa using h2))
  have hs : s.hasSendAvgDataRq = false := by
    by_contra hs; exact hh (h.halves_of_hasSend (by simpa using hs))
  have hd : isAvgData recv.data = false := by
    by_contra hd; rw [hr (by simpa using hd)] at hs; cases hs
  rw [h.clock_half hs hd h2]
  cases s.correlationFirstHalf <;> simp [words_halfPacket]

end CorAsp

namespace PdAsp
variable {s : PdAsp} {recv : TdmaMinPort}

/-- The slope and the send section leave the received values alone. -/
theorem clock_values (s : PdAsp) (recv : TdmaMinPort) :
    (s.clock recv).incompleteCorrelationValue = (s.decode recv).incompleteCorrelationValue ∧
    (s.clock recv).currentCorrelationValue = (s.decode recv).currentCorrelationValue ∧
    (s.clock recv).lastCorrelationValue = (s.decode recv).lastCorrelationValue := by
  have hslope : ∀ v : PdAsp, (s.slope v).incompleteCorrelationValue = v.incompleteCorrelationValue ∧
      (s.slope v).currentCorrelationValue = v.currentCorrelationValue ∧
      (s.slope v).lastCorrelationValue = v.lastCorrelationValue := fun v => by
    unfold slope
    split
    · dsimp only; repeat' split
      all_goals exact ⟨rfl, rfl, rfl⟩
    · exact ⟨rfl, rfl, rfl⟩
  unfold clock send
  split <;> exact hslope _

/-- The value that this clock assigns to `current_correlation_value`. -/
def assigned (s : PdAsp) (recv : TdmaMinPort) : List (BitVec 36) :=
  if isCorrelation recv.data && recv.data.getLsbD 18 then [(s.clock recv).currentCorrelationValue] else []

theorem decode_of_not_correlation (h : isCorrelation recv.data = false) :
    (s.decode recv).incompleteCorrelationValue = s.incompleteCorrelationValue ∧
    (s.decode recv).currentCorrelationValue = s.currentCorrelationValue ∧
    (s.decode recv).lastCorrelationValue = s.lastCorrelationValue := by
  have h' : packetType recv.data = 0b1000#4 → packetMode recv.data ≠ 0b0101#4 := fun ht hm =>
    absurd (isData_iff.2 ⟨ht, hm⟩) (by simp [h])
  unfold decode
  split
  · exact ⟨rfl, rfl, rfl⟩
  · split
    case isTrue ht => rw [if_neg (h' ht)]; split <;> exact ⟨rfl, rfl, rfl⟩
    case isFalse => exact ⟨rfl, rfl, rfl⟩

theorem decode_of_first (h : isCorrelation recv.data = true) (h18 : recv.data.getLsbD 18 = false) :
    s.decode recv =
      { s with incompleteCorrelationValue := s.incompleteCorrelationValue.setSlice 18 (recv.data.slice 0 18) } := by
  rw [isData_iff] at h
  rw [decode, h.1, h.2, h18]; rfl

theorem decode_of_second (h : isCorrelation recv.data = true) (h18 : recv.data.getLsbD 18 = true) :
    s.decode recv = { s with
      incompleteCorrelationValue := s.incompleteCorrelationValue.setSlice 0 (recv.data.slice 0 18)
      correlationRdy := true
      lastCorrelationValue := s.currentCorrelationValue
      currentCorrelationValue := s.incompleteCorrelationValue.setSlice 0 (recv.data.slice 0 18) } := by
  rw [isData_iff] at h
  rw [decode, h.1, h.2, h18]; rfl

theorem assigned_of_first (h18 : recv.data.getLsbD 18 = false) : s.assigned recv = [] := by
  rw [assigned, h18, Bool.and_false]; rfl

theorem assigned_of_second (h : isCorrelation recv.data = true) (h18 : recv.data.getLsbD 18 = true) :
    s.assigned recv = [s.incompleteCorrelationValue.setSlice 0 (recv.data.slice 0 18)] := by
  rw [assigned, h, h18, (s.clock_values recv).2.1, decode_of_second h h18]; rfl

end PdAsp

def halfWords (v : BitVec 36) : List TdmaMinData :=
  [(CorAsp.halfPacket false (v.slice 18 18)).data, (CorAsp.halfPacket true (v.slice 0 18)).data]

/-- The words `stream` are what is left to come of the values `vs` when PdAsp's register holds `inc`. -/
inductive InFlight (inc : BitVec 36) : List TdmaMinData → List (BitVec 36) → Prop
  | none : InFlight inc [] []
  | both (v : BitVec 36) : InFlight inc (halfWords v) [v]
  | second (v : BitVec 36) (high : inc.slice 18 18 = v.slice 18 18) :
    InFlight inc [(CorAsp.halfPacket true (v.slice 0 18)).data] [v]

theorem InFlight.length_le {inc : BitVec 36} {stream : List TdmaMinData} {vs : List (BitVec 36)}
    (h : InFlight inc stream vs) : stream.length ≤ 2 ∧ vs.length ≤ 1 := by
  cases h <;> exact ⟨by simp [halfWords], by simp⟩

theorem InFlight.eq_nil {inc : BitVec 36} {vs : List (BitVec 36)} (h : InFlight inc [] vs) : vs = [] := by
  cases h; rfl

theorem InFlight.take {s : PdAsp} {recv : TdmaMinPort} {w : TdmaMinData} {ws : List TdmaMinData}
    {vs : List (BitVec 36)} (h : InFlight s.incompleteCorrelationValue (w :: ws) vs) (hw : recv.data = w) :
    ∃ vs', InFlight (s.clock recv).incompleteCorrelationValue ws vs' ∧ vs = s.assigned recv ++ vs' := by
  have hinc := (s.clock_values recv).1
  generalize hstream : w :: ws = stream at h
  cases h with
  | none => cases hstream
  | both v =>
    obtain ⟨rfl, rfl⟩ := List.cons.inj hstream
    have hd : isCorrelation recv.data = true := by rw [hw]; simp [isCorrelation]
    have h18 : recv.data.getLsbD 18 = false := by rw [hw, CorAsp.getLsbD_halfPacket]
    refine ⟨[v], ?_, by rw [PdAsp.assigned_of_first h18]; rfl⟩
    rw [hinc, PdAsp.decode_of_first hd h18, hw, CorAsp.slice_halfPacket]
    exact .second v (BitVec.slice_setSlice_same _ _ _ (by decide))
  | second v high =>
    obtain ⟨rfl, rfl⟩ := List.cons.inj hstream
    have hd : isCorrelation recv.data = true := by rw [hw]; simp [isCorrelation]
    have h18 : recv.data.getLsbD 18 = true := by rw [hw, CorAsp.getLsbD_halfPacket]
    refine ⟨[], .none, ?_⟩
    rw [PdAsp.assigned_of_second hd h18, hw, CorAsp.slice_halfPacket,
      BitVec.setSlice_slice_eq (show 18 + 18 = 36 by decide) high]
    rfl

/-- PdAsp does not move while no half comes. -/
theorem InFlight.keep {s : PdAsp} {recv : TdmaMinPort} {ws : List TdmaMinData} {vs : List (BitVec 36)}
    (h : InFlight s.incompleteCorrelationValue ws vs) (hd : isCorrelation recv.data = false) :
    InFlight (s.clock recv).incompleteCorrelationValue ws vs ∧ s.assigned recv = [] := by
  rw [(s.clock_values recv).1, (PdAsp.decode_of_not_correlation hd).1]
  exact ⟨h, by simp [PdAsp.assigned, hd]⟩

/-- PdAsp shifts the current value to the last one when it assigns a new one. -/
theorem PdAsp.last_two (s : PdAsp) (recv : TdmaMinPort) :
    [s.lastCorrelationValue, s.currentCorrelationValue] ++ s.assigned recv =
      (if (s.assigned recv).isEmpty then [] else [s.lastCorrelationValue]) ++
        [(s.clock recv).lastCorrelationValue, (s.clock recv).currentCorrelationValue] := by
  obtain ⟨-, hcur, hlast⟩ := s.clock_values recv
  cases hd : isCorrelation recv.data with
  | false =>
    obtain ⟨-, hcur', hlast'⟩ := PdAsp.decode_of_not_correlation (s := s) hd
    simp [assigned, hd, hcur, hlast, hcur', hlast']
  | true =>
    rw [hcur, hlast]
    rcases Bool.eq_false_or_eq_true (recv.data.getLsbD 18) with h18 | h18
    · rw [assigned_of_second hd h18, decode_of_second hd h18]; rfl
    · rw [assigned_of_first h18, decode_of_first hd h18]; rfl

end TdmaSoc
