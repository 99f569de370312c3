import TdmaSoc.Asp.Chip

/-!
# The read loop between CorAsp and AvgAsp_RAM

A request for an average and its answer are one token that goes round seven places: CorAsp's send
register, its queue, the receive register of port 2, the flag `read_request`, the send register of
`AvgAsp_RAM`, its queue and the receive register of port 3. `tokens` counts the token wherever it is;
there is one while CorAsp waits for an answer, and none otherwise (`Loop.clock`).
-/

namespace TdmaSoc
namespace Chip

/-- Requests and answers in the seven places of the loop. -/
def tokens (x : Chip) : Nat :=
  (isAvgRequest x.cor.sendSignal.data).toNat + (x.net.queue 3).countP (isAvgRequest ·.data) +
    (isAvgRequest (x.net.recvs 2).data).toNat + x.avg.readRequest.toNat +
    (isAvgData x.avg.sendSignal.data).toNat + (x.net.queue 2).countP (isAvgData ·.data) +
    (isAvgData (x.net.recvs 3).data).toNat

/-- No other port sends a request to port 2 or an answer to port 3, and no packet of CorAsp or AvgAsp_RAM
finds its FIFO full. -/
def LoopClosed (on : Fin 8 → Bool) (x : Chip) (i : ChipInput) : Prop :=
  (∀ p, p ≠ 2 → p ≠ 3 →
    ((x.sends on i p).addr = TdmaMin.portAddr (2 : Fin 8) → isAvgRequest (x.sends on i p).data = false) ∧
    ((x.sends on i p).addr = TdmaMin.portAddr (3 : Fin 8) → isAvgData (x.sends on i p).data = false)) ∧
  ∀ p, p = 2 ∨ p = 3 → (x.sends on i p).valid = true → (x.net.queue p).length < 256

instance (on : Fin 8 → Bool) (x : Chip) (i : ChipInput) : Decidable (LoopClosed on x i) :=
  inferInstanceAs (Decidable (_ ∧ _))

/-- Port 2 gets requests from port 3 only, and port 3 sends them nowhere else; likewise for the answers. -/
structure LoopPacket (p : Fin 8) (packet : TdmaMinPort) : Prop where
  requestFrom : isAvgRequest packet.data = true → packet.addr = TdmaMin.portAddr (2 : Fin 8) → p = 3
  requestTo : p = 3 → isAvgRequest packet.data = true → packet.addr = TdmaMin.portAddr (2 : Fin 8)
  answerFrom : isAvgData packet.data = true → packet.addr = TdmaMin.portAddr (3 : Fin 8) → p = 2
  answerTo : p = 2 → isAvgData packet.data = true → packet.addr = TdmaMin.portAddr (3 : Fin 8)

end Chip

theorem CorAsp.Sent.loopPacket {packet : TdmaMinPort} (h : CorAsp.Sent packet) : Chip.LoopPacket 3 packet := by
  have ha : isAvgData packet.data = false := by cases h <;> simp [isAvgData, TdmaMinPort.idle]
  refine ⟨fun _ _ => rfl, fun _ hr => ?_, fun hd => ?_, fun hp => absurd hp (by decide)⟩
  · cases h with
    | idle => simp [isAvgRequest, TdmaMinPort.idle] at hr
    | half => simp [isAvgRequest] at hr
    | request => rfl
  · rw [ha] at hd; cases hd

theorem AvgAspRAM.Sent.loopPacket {packet : TdmaMinPort} (h : AvgAspRAM.Sent packet) : Chip.LoopPacket 2 packet := by
  have hr : isAvgRequest packet.data = false := by cases h <;> simp [isAvgRequest, TdmaMinPort.idle]
  refine ⟨fun hd => ?_, fun hp => absurd hp (by decide), fun _ _ => rfl, fun _ hd => ?_⟩
  · rw [hr] at hd; cases hd
  · cases h with
    | idle => simp [isAvgData, TdmaMinPort.idle] at hd
    | addr => simp [isAvgData] at hd
    | data => rfl

/-- A clock of CorAsp that follows the handshake takes the answer it has waited for, or sends a request, or
neither. -/
theorem CorAsp.Handshake.token {s : CorAsp} {recv : TdmaMinPort} (h : s.Handshake)
    (hr : isAvgData recv.data = true → s.hasSendAvgDataRq = true) :
    (s.clock recv).hasSendAvgDataRq.toNat + (isAvgData recv.data).toNat =
      s.hasSendAvgDataRq.toNat + (isAvgRequest (s.clock recv).sendSignal.data).toNat := by
  cases h.kind hr with
  | wait hs hd => simp [h.clock_wait hs hd, hs, hd, TdmaMinPort.idle]
  | dropped hs hd hstate hc => simp [h.clock_answer_s0 hs hd hstate hc, hs, hd, TdmaMinPort.idle]
  | start hs hd hstate hc => simp [h.clock_answer_start hs hd hstate hc, hs, hd, TdmaMinPort.idle]
  | product hs hd hstate => simp [h.clock_answer_s1 hs hd hstate, hs, hd, TdmaMinPort.idle]
  | finish hs hd hstate hn => simp [h.clock_answer_finish hs hd hstate hn, hs, hd, TdmaMinPort.idle]
  | next hs hd hstate hn => simp [h.clock_answer_s3 hs hd hstate hn, hs, hd, TdmaMinPort.idle]
  | half hs hd h2 =>
    rw [h.clock_half hs hd h2]
    cases s.correlationFirstHalf <;> simp [hs, hd]
  | s2 hs hd hstate => simp [h.clock_s2 hd hstate, hs, hd, TdmaMinPort.idle]
  | request hs hd h2 hstate => simp [h.clock_request hs hd h2 hstate, hs, hd]

/-- A clock of AvgAsp_RAM keeps a request that comes, or turns it into its answer. -/
theorem AvgAspRAM.token {s : AvgAspRAM} {recv : TdmaMinPort}
    (h : isAvgRequest recv.data = true → s.readRequest = false) :
    (s.clock recv).readRequest.toNat + (isAvgData (s.clock recv).sendSignal.data).toNat =
      s.readRequest.toNat + (isAvgRequest recv.data).toNat := by
  by_cases ha : s.ldr.avgReady = true
  · have hn : s.answers = false := by simp [AvgAspRAM.answers, ha]
    by_cases hd : isAvgRequest recv.data = true
    · simp [AvgAspRAM.clock, hn, ha, hd, h hd]
    · simp [AvgAspRAM.clock, hn, ha, hd]
  · by_cases hq : s.readRequest = true
    · have hn : s.answers = true := by simp [AvgAspRAM.answers, ha, hq]
      have hd : isAvgRequest recv.data = false := by
        by_contra hd; rw [h (by simpa using hd)] at hq; cases hq
      simp [AvgAspRAM.clock, hn, ha, hq, hd]
    · have hn : s.answers = false := by simp [AvgAspRAM.answers, hq]
      by_cases hd : isAvgRequest recv.data = true <;> simp [AvgAspRAM.clock, hn, ha, hq, hd, TdmaMinPort.idle]

namespace Chip
variable {on : Fin 8 → Bool} {x : Chip} {i : ChipInput}

structure Loop (x : Chip) : Prop where
  sound : x.Sound
  hand : x.cor.Handshake
  carries : x.net.Carries LoopPacket
  tokens : x.tokens = x.cor.hasSendAvgDataRq.toNat

theorem Loop.init : Chip.init.Loop := ⟨.init, .init, .init, rfl⟩

theorem Loop.answer_hasSend (h : x.Loop) (hd : isAvgData (x.net.recvs 3).data = true) :
    x.cor.hasSendAvgDataRq = true := by
  have ht := h.tokens
  simp only [Chip.tokens, hd, Bool.toNat_true] at ht
  by_contra hs
  simp only [Bool.not_eq_true] at hs
  rw [hs, Bool.toNat_false] at ht
  omega

/-- A request reaches AvgAsp_RAM only when it has answered the one before. -/
theorem Loop.request_free (h : x.Loop) (hd : isAvgRequest (x.net.recvs 2).data = true) :
    x.avg.readRequest = false := by
  have ht := h.tokens
  simp only [Chip.tokens, hd, Bool.toNat_true] at ht
  have hs := Bool.toNat_le x.cor.hasSendAvgDataRq
  by_contra hq
  simp only [Bool.not_eq_false] at hq
  rw [hq, Bool.toNat_true] at ht
  omega

theorem Loop.clock (h2 : on 2 = true) (h3 : on 3 = true) (h : x.Loop) (hc : LoopClosed on x i) :
    (x.clock on i).Loop := by
  have hsent : ∀ p, (x.sends on i p).valid = true → LoopPacket p (x.sends on i p) := by
    intro p _
    by_cases hp2 : p = 2
    · subst hp2; rw [sends_avg x i h2]; exact h.sound.avg.loopPacket
    by_cases hp3 : p = 3
    · subst hp3; rw [sends_cor x i h3]; exact h.sound.cor.loopPacket
    obtain ⟨hreq, hans⟩ := hc.1 p hp2 hp3
    refine ⟨fun hd ha => ?_, fun hp => absurd hp hp3, fun hd ha => ?_, fun hp => absurd hp hp2⟩
    · rw [hreq ha] at hd; cases hd
    · rw [hans ha] at hd; cases hd
  -- each of the two queues passes on what it takes in
  have hreq := TdmaMin.count_clock (x.sends on i) (p := 3) (d := 2) (by decide) (by decide) isAvgRequest
    (isData_zero 0b0010#4) (fun q packet hm => (h.carries.1 q packet hm).requestFrom)
    (fun packet hm => (h.carries.1 3 packet hm).requestTo rfl) (hc.2 3 (.inr rfl)) msb_of_isData
  have hans := TdmaMin.count_clock (x.sends on i) (p := 2) (d := 3) (by decide) (by decide) isAvgData
    (isData_zero 0b0011#4) (fun q packet hm => (h.carries.1 q packet hm).answerFrom)
    (fun packet hm => (h.carries.1 2 packet hm).answerTo rfl) (hc.2 2 (.inl rfl)) msb_of_isData
  rw [sends_cor x i h3] at hreq
  rw [sends_avg x i h2] at hans
  have hcor := h.hand.token h.answer_hasSend
  have havg := AvgAspRAM.token h.request_free
  refine ⟨h.sound.clock i, h.hand.clock h.answer_hasSend, h.carries.clock (by omega) (by omega) hsent, ?_⟩
  have ht := h.tokens
  show (isAvgRequest (x.cor.clock (x.net.recvs 3)).sendSignal.data).toNat +
      ((x.net.clock (x.sends on i)).queue 3).countP (isAvgRequest ·.data) +
      (isAvgRequest ((x.net.clock (x.sends on i)).recvs 2).data).toNat +
      (x.avg.clock (x.net.recvs 2)).readRequest.toNat +
      (isAvgData (x.avg.clock (x.net.recvs 2)).sendSignal.data).toNat +
      ((x.net.clock (x.sends on i)).queue 2).countP (isAvgData ·.data) +
      (isAvgData ((x.net.clock (x.sends on i)).recvs 3).data).toNat =
    (x.cor.clock (x.net.recvs 3)).hasSendAvgDataRq.toNat
  simp only [Chip.tokens] at ht
  omega

def requests (on : Fin 8 → Bool) (x : Chip) (i : ChipInput) : List TdmaMinData :=
  [(x.clock on i).cor.sendSignal.data].filter isAvgRequest

def answers (x : Chip) (_ : ChipInput) : List TdmaMinData := [(x.net.recvs 3).data].filter isAvgData

theorem requests_length (x : Chip) (i : ChipInput) : (requests on x i).length =
    (isAvgRequest (x.cor.clock (x.net.recvs 3)).sendSignal.data).toNat := by
  rw [requests, List.filter_singleton]
  show (bif isAvgRequest (x.cor.clock (x.net.recvs 3)).sendSignal.data then [_] else []).length = _
  cases isAvgRequest (x.cor.clock (x.net.recvs 3)).sendSignal.data <;> rfl

theorem answers_length (x : Chip) (i : ChipInput) :
    (answers x i).length = (isAvgData (x.net.recvs 3).data).toNat := by
  rw [answers, List.filter_singleton]
  cases isAvgData (x.net.recvs 3).data <;> rfl

/-- The read loop neither loses nor duplicates its request. CorAsp waits exactly while there is one token in
the loop, and there is none exactly while it does not wait; and every request that has been made is answered
once, but for the one under way. -/
theorem one_token {on : Fin 8 → Bool} (h2 : on 2 = true) (h3 : on 3 = true) {is : List ChipInput}
    (h : (machine on).Along (LoopClosed on) is) :
    let x := (machine on).run is
    (x.cor.hasSendAvgDataRq = true ↔ x.tokens = 1) ∧ (x.cor.hasSendAvgDataRq = false ↔ x.tokens = 0) ∧
    ((machine on).log (requests on) is).length = ((machine on).log answers is).length + x.tokens := by
  have hloop : ∀ is, (machine on).Along (LoopClosed on) is → ((machine on).run is).Loop := fun is h =>
    Machine.invariant .init (fun _ _ h hc => h.clock h2 h3 hc) h
  have ht := (hloop is h).tokens
  refine ⟨?_, ?_, ?_⟩
  · rw [ht]; cases ((machine on).run is).cor.hasSendAvgDataRq <;> decide
  · rw [ht]; cases ((machine on).run is).cor.hasSendAvgDataRq <;> decide
  · rw [ht]
    clear ht
    induction is using List.reverseRecOn with
    | nil => rfl
    | append_singleton is i ih =>
      rw [Machine.along_concat] at h
      have hl := hloop is h.1
      have hcor : ((machine on).step ((machine on).run is) i).cor.hasSendAvgDataRq.toNat + _ = _ :=
        hl.hand.token hl.answer_hasSend
      rw [Machine.log_concat, Machine.log_concat, Machine.run_concat, List.length_append, List.length_append,
        ih h.1, requests_length, answers_length]
      omega

theorem one_token_idle :
    let is := List.replicate 30 ChipInput.quiet
    ((machine (onPorts [2, 3])).run is).tokens = 1 ∧
      ((machine (onPorts [2, 3])).log (requests (onPorts [2, 3])) is).length =
        ((machine (onPorts [2, 3])).log answers is).length + 1 := by
  have h := @one_token (onPorts [2, 3]) (by decide) (by decide) (List.replicate 30 .quiet) (by decide +kernel)
  have h1 := h.1.1 (by decide +kernel)
  exact ⟨h1, h1 ▸ h.2.2⟩

end Chip
end TdmaSoc
