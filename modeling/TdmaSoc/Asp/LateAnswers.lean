import TdmaSoc.Asp.ReadDelay

/-!
# What a request asks for and an answer brings

A request under way is for an address (`Asks`), an answer under way brings a word (`Brings`). Until its request has
come to port 2 the memory shows the word at the address latched before, and that is what the answer will bring.
-/

namespace TdmaSoc
open TdmaMin

/-- CorAsp sends a request and waits for the answer, or it waits for the one before or for none. -/
theorem CorAsp.Handshake.request_cases {s : CorAsp} {recv : TdmaMinPort} (h : s.Handshake)
    (hr : isAvgData recv.data = true → s.hasSendAvgDataRq = true) :
    isAvgRequest (s.clock recv).sendSignal.data = true ∧ s.hasSendAvgDataRq = false ∧
        (s.clock recv).hasSendAvgDataRq = true ∧ isAvgData recv.data = false ∧
        (s.clock recv).avgDataMemAddr = (s.clock recv).sendSignal.data.slice 0 10 ∨
      isAvgRequest (s.clock recv).sendSignal.data = false ∧ ((s.clock recv).hasSendAvgDataRq = true →
        s.hasSendAvgDataRq = true ∧ (s.clock recv).avgDataMemAddr = s.avgDataMemAddr) := by
  cases h.kind hr with
  | wait hs hd =>
    rw [h.clock_wait hs hd]
    exact .inr ⟨isData_zero _, fun _ => ⟨hs, rfl⟩⟩
  | dropped hs hd hstate hc =>
    rw [h.clock_answer_s0 hs hd hstate hc]
    exact .inr ⟨isData_zero _, by simp⟩
  | start hs hd hstate hc =>
    rw [h.clock_answer_start hs hd hstate hc]
    exact .inr ⟨isData_zero _, by simp⟩
  | product hs hd hstate =>
    rw [h.clock_answer_s1 hs hd hstate]
    exact .inr ⟨isData_zero _, by simp⟩
  | finish hs hd hstate hn =>
    rw [h.clock_answer_finish hs hd hstate hn]
    exact .inr ⟨isData_zero _, by simp⟩
  | next hs hd hstate hn =>
    rw [h.clock_answer_s3 hs hd hstate hn]
    exact .inr ⟨isData_zero _, by simp⟩
  | half hs hd h2 =>
    rw [h.clock_half hs hd h2]
    refine .inr ⟨?_, by simp [hs]⟩
    dsimp only
    split <;> simp [isAvgRequest]
  | s2 hs hd hstate =>
    rw [h.clock_s2 hd hstate]
    exact .inr ⟨isData_zero _, by simp [hs]⟩
  | request hs hd h2 hstate =>
    rw [h.clock_request hs hd h2 hstate]
    exact .inl ⟨by simp [isAvgRequest], hs, rfl, hd, (CorAsp.slice_requestPacket _).symm⟩

namespace Chip
variable {on : Fin 8 → Bool} {x : Chip} {i : ChipInput} {a : BitVec 10} {w : BitVec 16}

/-- The request, as long as it is on its way. -/
def upstream (x : Chip) : Nat :=
  (isAvgRequest x.cor.sendSignal.data).toNat + (x.net.queue 3).countP (isAvgRequest ·.data) +
    (isAvgRequest (x.net.recvs 2).data).toNat

/-- The answer, from when the request has been latched. -/
def downstream (x : Chip) : Nat :=
  x.avg.readRequest.toNat + (isAvgData x.avg.sendSignal.data).toNat + (x.net.queue 2).countP (isAvgData ·.data) +
    (isAvgData (x.net.recvs 3).data).toNat

theorem Loop.upstream_add (h : x.Loop) : x.upstream + x.downstream = x.cor.hasSendAvgDataRq.toNat := by
  have ht := h.tokens
  unfold Chip.tokens at ht
  unfold upstream downstream
  omega

structure Asks (a : BitVec 10) (x : Chip) : Prop where
  sent : isAvgRequest x.cor.sendSignal.data = true → x.cor.sendSignal.data.slice 0 10 = a
  carried : x.net.Carries fun _ packet => isAvgRequest packet.data = true →
    packet.addr = portAddr (2 : Fin 8) → packet.data.slice 0 10 = a

structure Brings (w : BitVec 16) (x : Chip) : Prop where
  read : x.avg.readRequest = true → x.avg.ram.qReg = w
  sent : isAvgData x.avg.sendSignal.data = true → x.avg.sendSignal.data.slice 0 16 = w
  carried : x.net.Carries fun _ packet => isAvgData packet.data = true →
    packet.addr = portAddr (3 : Fin 8) → packet.data.slice 0 16 = w

/-- A kind of packet to `d` that comes from `p` alone, is not in its queue and not on show, is not carried at all. -/
theorem carries_of_none {n : TdmaMin 8} {p d : Fin 8} {kind : TdmaMinData → Bool} {P : TdmaMinPort → Prop}
    {Q : Fin 8 → TdmaMinPort → Prop} (hn : n.Carries Q)
    (hfrom : ∀ q y, Q q y → kind y.data = true → y.addr = portAddr d → q = p)
    (hqueue : (n.queue p).countP (kind ·.data) = 0) (hrecv : kind (n.recvs d).data = false) :
    n.Carries fun _ packet => kind packet.data = true → packet.addr = portAddr d → P packet := by
  refine ⟨fun q y hy hkind haddr => ?_, fun e => ?_⟩
  · rw [hfrom q y (hn.1 q y hy) hkind haddr] at hy
    exact absurd hkind (List.countP_eq_zero.1 hqueue y hy)
  · refine (hn.2 e).imp id fun ⟨q, hq, _⟩ => ⟨q, hq, fun hkind haddr => ?_⟩
    have haddr : portAddr e = portAddr d := haddr
    rw [portAddr_inj (by omega) (by omega)] at haddr
    rw [Fin.ext haddr, hrecv] at hkind
    cases hkind

theorem Asks.of_none (h : x.Loop) (hu : x.upstream = 0) (a : BitVec 10) : x.Asks a := by
  unfold upstream at hu
  refine ⟨fun hd => ?_, ?_⟩
  · rw [hd, Bool.toNat_true] at hu
    omega
  · refine carries_of_none h.carries (fun q y hy => hy.requestFrom) (by omega) ?_
    by_contra hd
    rw [Bool.eq_true_of_not_eq_false hd, Bool.toNat_true] at hu
    omega

theorem Brings.of_none (h : x.Loop) (hd : x.downstream = 0) (w : BitVec 16) : x.Brings w := by
  unfold downstream at hd
  refine ⟨fun hr => ?_, fun hs => ?_, ?_⟩
  · rw [hr, Bool.toNat_true] at hd
    omega
  · rw [hs, Bool.toNat_true] at hd
    omega
  · refine carries_of_none h.carries (fun q y hy => hy.answerFrom) (by omega) ?_
    by_contra hs
    rw [Bool.eq_true_of_not_eq_false hs, Bool.toNat_true] at hd
    omega

theorem upstream_clock (h3 : on 3 = true) (h : x.Chain) (hc : LoopClosed on x i) :
    (x.clock on i).upstream + (isAvgRequest (x.net.recvs 2).data).toNat =
      x.upstream + (isAvgRequest (x.clock on i).cor.sendSignal.data).toNat := by
  have := h.requests_clock h3 hc
  unfold upstream
  omega

theorem Asks.clock (h3 : on 3 = true) (h : x.Loop) (hc : LoopClosed on x i) (h2 : on 2 = true) (ha : x.Asks a)
    (hsend : isAvgRequest (x.clock on i).cor.sendSignal.data = true →
      (x.clock on i).cor.sendSignal.data.slice 0 10 = a) : (x.clock on i).Asks a := by
  refine ⟨hsend, ha.carried.clock (by omega) (by omega) fun p hv hd haddr => ?_⟩
  by_cases hp3 : p = 3
  · subst hp3
    rw [sends_cor x i h3] at hd ⊢
    exact ha.sent hd
  by_cases hp2 : p = 2
  · subst hp2
    rw [sends_avg x i h2] at hd haddr
    exact absurd (h.sound.avg.loopPacket.requestFrom hd haddr) (by decide)
  · rw [(hc.1 p hp2 hp3).1 haddr] at hd
    cases hd

/-- What port 3 is going to be shown is what port 2 has sent. -/
theorem Brings.carried_clock (h2 : on 2 = true) (h3 : on 3 = true) (h : x.Loop) (hc : LoopClosed on x i)
    (hb : x.Brings w) : (x.clock on i).net.Carries fun _ packet => isAvgData packet.data = true →
      packet.addr = portAddr (3 : Fin 8) → packet.data.slice 0 16 = w := by
  refine hb.carried.clock (by omega) (by omega) fun p hv hd haddr => ?_
  by_cases hp2 : p = 2
  · subst hp2
    rw [sends_avg x i h2] at hd ⊢
    exact hb.sent hd
  by_cases hp3 : p = 3
  · subst hp3
    rw [sends_cor x i h3] at hd haddr
    exact absurd (h.sound.cor.loopPacket.answerFrom hd haddr) (by decide)
  · rw [(hc.1 p hp2 hp3).2 haddr] at hd
    cases hd

/-- The answer that is sent has the word that was read. -/
theorem Brings.sent_clock (hb : x.Brings w) (hd : isAvgData (x.clock on i).avg.sendSignal.data = true) :
    x.avg.readRequest = true ∧ (x.clock on i).avg.sendSignal.data.slice 0 16 = w := by
  have hsend : (x.clock on i).avg.sendSignal = if x.avg.ldr.avgReady then AvgAspRAM.addrPacket x.avg.ramWaddr
      else if x.avg.readRequest then AvgAspRAM.dataPacket x.avg.prevCorrCalculate x.avg.ram.qReg else .idle := rfl
  rw [hsend] at hd ⊢
  split_ifs at hd ⊢ with hready hread
  · rw [isAvgData, AvgAspRAM.isData_addrPacket] at hd
    cases hd
  · exact ⟨hread, (AvgAspRAM.slice_dataPacket ..).trans (hb.read hread)⟩
  · exact absurd hd (by decide)

theorem Brings.clock (h2 : on 2 = true) (h3 : on 3 = true) (h : x.Loop) (hc : LoopClosed on x i) (hp : x.avg.Prompt)
    (hb : x.Brings w) (hnone : isAvgRequest (x.net.recvs 2).data = false) : (x.clock on i).Brings w := by
  refine ⟨fun hread => ?_, fun hd => (hb.sent_clock hd).2, hb.carried_clock h2 h3 h hc⟩
  have hread : (if x.avg.answers then false else if isAvgRequest (x.net.recvs 2).data then true
      else x.avg.readRequest) = true := hread
  rw [hnone, if_neg Bool.false_ne_true] at hread
  cases ha : x.avg.answers
  · rw [ha, if_neg Bool.false_ne_true] at hread
    rw [AvgAspRAM.answers, hp hread, hread] at ha
    cases ha
  · rw [ha, if_pos rfl] at hread
    cases hread

/-- When a request is latched the memory still shows the word at the address before. -/
theorem Brings.latch (h2 : on 2 = true) (h3 : on 3 = true) (h : x.Loop) (hc : LoopClosed on x i)
    (hreq : isAvgRequest (x.net.recvs 2).data = true) : (x.clock on i).Brings (x.avg.ram.ram x.avg.ramRaddr) := by
  have hdown : x.downstream = 0 := by
    have hle := Bool.toNat_le x.cor.hasSendAvgDataRq
    have hadd := h.upstream_add
    unfold upstream at hadd
    rw [hreq, Bool.toNat_true] at hadd
    omega
  have hb := Brings.of_none h hdown (x.avg.ram.ram x.avg.ramRaddr)
  exact ⟨fun _ => rfl, fun hd => (hb.sent_clock hd).2, hb.carried_clock h2 h3 h hc⟩

end Chip
end TdmaSoc
