import TdmaSoc.Asp.ReadBack
import TdmaSoc.Asp.SamplingChain
import TdmaSoc.Tdma.Turns

/-!
# How long an average takes

`Due x k` says where in the read loop the request or its answer is, and that CorAsp is shown the answer within `k`
clocks: a request is read out as soon as it has come, and in the two queues there are at most two packets before it
and one packet before the answer. `Awaits` counts the clocks before the request as well.
-/

namespace TdmaSoc
open TdmaMin

namespace AvgAspRAM

/-- The request that came last has cleared `avgReady`. -/
def Prompt (s : AvgAspRAM) : Prop := s.readRequest = true → s.ldr.avgReady = false

theorem Prompt.init : AvgAspRAM.init.Prompt := fun h => by cases h

theorem Prompt.clock {s : AvgAspRAM} (h : s.Prompt) (recv : TdmaMinPort) : (s.clock recv).Prompt := by
  intro hread
  by_cases hr : isAvgRequest recv.data = true
  · exact avgReady_clock_request hr
  · have hread : (if s.answers then false else if isAvgRequest recv.data then true else s.readRequest) = true := hread
    rw [if_neg hr] at hread
    cases ha : s.answers
    · rw [ha, if_neg Bool.false_ne_true] at hread
      rw [answers, h hread, hread] at ha
      cases ha
    · rw [ha, if_pos rfl] at hread
      cases hread

end AvgAspRAM

namespace Chip
variable {on : Fin 8 → Bool} {x : Chip} {i : ChipInput}

inductive Due (x : Chip) : Nat → Prop
  | sent (h : isAvgRequest x.cor.sendSignal.data = true) : Due x 44
  | queued (h : ∃ y ∈ x.net.queue 3, isAvgRequest y.data = true) : Due x (20 + turn isAvgRequest 3 x.net)
  | shown (h : isAvgRequest (x.net.recvs 2).data = true) : Due x 19
  | read (h : x.avg.readRequest = true) : Due x 18
  | answered (h : isAvgData x.avg.sendSignal.data = true) : Due x 17
  | returning (h : ∃ y ∈ x.net.queue 2, isAvgData y.data = true) : Due x (1 + turn isAvgData 2 x.net)
  | back (h : isAvgData (x.net.recvs 3).data = true) : Due x 0

theorem Chain.due_queued (h : x.Chain) (hreq : ∃ y ∈ x.net.queue 3, isAvgRequest y.data = true) :
    ∃ k < 44, x.Due k := by
  have hturn := turn_lt hreq
  have hlen := h.queue3
  exact ⟨_, by omega, .queued hreq⟩

theorem Chain.due_returning (h : x.Chain) (hans : ∃ y ∈ x.net.queue 2, isAvgData y.data = true) :
    ∃ k < 17, x.Due k := by
  have hturn := turn_lt hans
  have hlen := h.queue2_le
  exact ⟨_, by omega, .returning hans⟩

/-- While CorAsp waits, its answer is due within 44 clocks. -/
theorem Chain.due (h : x.Chain) (hs : x.cor.hasSendAvgDataRq = true) : ∃ k ≤ 44, x.Due k := by
  have htokens := h.loop.tokens
  rw [hs, Bool.toNat_true] at htokens
  by_contra hnone
  have hno : ∀ k ≤ 44, ¬ x.Due k := fun k hk hdue => hnone ⟨k, hk, hdue⟩
  have h1 : isAvgRequest x.cor.sendSignal.data = false := by
    by_contra hd
    exact hno _ (Nat.le_refl 44) (.sent (by simpa using hd))
  have h2 : (x.net.queue 3).countP (isAvgRequest ·.data) = 0 := by
    rw [List.countP_eq_zero]
    intro y hy hd
    obtain ⟨k, hk, hdue⟩ := h.due_queued ⟨y, hy, hd⟩
    exact hno k (by omega) hdue
  have h3 : isAvgRequest (x.net.recvs 2).data = false := by
    by_contra hd
    exact hno 19 (by omega) (.shown (by simpa using hd))
  have h4 : x.avg.readRequest = false := by
    by_contra hd
    exact hno 18 (by omega) (.read (by simpa using hd))
  have h5 : isAvgData x.avg.sendSignal.data = false := by
    by_contra hd
    exact hno 17 (by omega) (.answered (by simpa using hd))
  have h6 : (x.net.queue 2).countP (isAvgData ·.data) = 0 := by
    rw [List.countP_eq_zero]
    intro y hy hd
    obtain ⟨k, hk, hdue⟩ := h.due_returning ⟨y, hy, hd⟩
    exact hno k (by omega) hdue
  have h7 : isAvgData (x.net.recvs 3).data = false := by
    by_contra hd
    exact hno 0 (by omega) (.back (by simpa using hd))
  simp only [tokens, h1, h2, h3, h4, h5, h6, h7, Bool.toNat_false] at htokens
  omega

/-- A request that leaves the queue of port 3 is on show at port 2. -/
theorem Chain.requests_clock (h3 : on 3 = true) (h : x.Chain) (hc : LoopClosed on x i) :
    (isAvgRequest ((x.clock on i).net.recvs 2).data).toNat +
        ((x.clock on i).net.queue 3).countP (isAvgRequest ·.data) =
      (x.net.queue 3).countP (isAvgRequest ·.data) + (isAvgRequest x.cor.sendSignal.data).toNat := by
  have hreq := count_clock (x.sends on i) (p := 3) (d := 2) (by decide) (by decide) isAvgRequest
    (isData_zero 0b0010#4) (fun q packet hm => (h.loop.carries.1 q packet hm).requestFrom)
    (fun packet hm => (h.loop.carries.1 3 packet hm).requestTo rfl) (hc.2 3 (.inr rfl)) msb_of_isData
  rw [sends_cor x i h3] at hreq
  exact hreq

theorem Chain.answers_clock (h2 : on 2 = true) (h : x.Chain) (hc : LoopClosed on x i) :
    (isAvgData ((x.clock on i).net.recvs 3).data).toNat + ((x.clock on i).net.queue 2).countP (isAvgData ·.data) =
      (x.net.queue 2).countP (isAvgData ·.data) + (isAvgData x.avg.sendSignal.data).toNat := by
  have hans := count_clock (x.sends on i) (p := 2) (d := 3) (by decide) (by decide) isAvgData
    (isData_zero 0b0011#4) (fun q packet hm => (h.loop.carries.1 q packet hm).answerFrom)
    (fun packet hm => (h.loop.carries.1 2 packet hm).answerTo rfl) (hc.2 2 (.inl rfl)) msb_of_isData
  rw [sends_avg x i h2] at hans
  exact hans

/-- A request that has been sent is on show, or it is in the queue. -/
theorem Chain.request_moves (h3 : on 3 = true) (h : x.Chain) (hc : LoopClosed on x i)
    (hpos : 0 < (x.net.queue 3).countP (isAvgRequest ·.data) + (isAvgRequest x.cor.sendSignal.data).toNat) :
    isAvgRequest ((x.clock on i).net.recvs 2).data = true ∨
      ∃ y ∈ (x.clock on i).net.queue 3, isAvgRequest y.data = true := by
  rw [← h.requests_clock h3 hc] at hpos
  cases hshown : isAvgRequest ((x.clock on i).net.recvs 2).data
  · rw [hshown, Bool.toNat_false, Nat.zero_add] at hpos
    exact .inr (List.countP_pos_iff.1 hpos)
  · exact .inl rfl

theorem Chain.answer_moves (h2 : on 2 = true) (h : x.Chain) (hc : LoopClosed on x i)
    (hpos : 0 < (x.net.queue 2).countP (isAvgData ·.data) + (isAvgData x.avg.sendSignal.data).toNat) :
    isAvgData ((x.clock on i).net.recvs 3).data = true ∨
      ∃ y ∈ (x.clock on i).net.queue 2, isAvgData y.data = true := by
  rw [← h.answers_clock h2 hc] at hpos
  cases hshown : isAvgData ((x.clock on i).net.recvs 3).data
  · rw [hshown, Bool.toNat_false, Nat.zero_add] at hpos
    exact .inr (List.countP_pos_iff.1 hpos)
  · exact .inl rfl

/-- The request or its answer comes nearer in every clock. -/
theorem Due.clock (h2 : on 2 = true) (h3 : on 3 = true) (h : x.Chain) (hc : LoopClosed on x i)
    (h' : (x.clock on i).Chain) (hp : x.avg.Prompt) {k : Nat} (hdue : x.Due k)
    (hback : isAvgData (x.net.recvs 3).data = false) : ∃ k' < k, (x.clock on i).Due k' := by
  cases hdue with
  | sent hd =>
    rcases h.request_moves h3 hc (by rw [hd, Bool.toNat_true]; omega) with hshown | hqueued
    · exact ⟨19, by omega, .shown hshown⟩
    · exact h'.due_queued hqueued
  | queued hd =>
    have htargets : ∀ y ∈ x.net.queue 3, ∃ d : Fin 8, y.addr = portAddr d := fun y hy => by
      have hsent := h.carries.1 3 y hy
      rcases CorLink.sent_addr (hsent.cor rfl) hsent.valid with ⟨haddr, -⟩ | ⟨haddr, -⟩
      · exact ⟨2, haddr⟩
      · exact ⟨4, haddr⟩
    have hpos := List.countP_pos_iff.2 hd
    rcases turn_clock (x.sends on i) hd htargets (fun _ => Nat.lt_of_le_of_lt h.queue3 (by omega)) with
      ⟨y, ys, hq, hkind, hack⟩ | hnear
    · have haddr := (h.loop.carries.1 3 y (by rw [hq]; exact List.mem_cons_self)).requestTo rfl hkind
      have hrecv : (x.clock on i).net.recvs 2 = _ :=
        recvs_clock_of_ack (by omega) (by omega) (x.sends on i) hq haddr hack
      exact ⟨19, by omega, .shown (by rw [hrecv]; exact hkind)⟩
    · have hnear : turn isAvgRequest 3 (x.clock on i).net < turn isAvgRequest 3 x.net := hnear
      rcases h.request_moves h3 hc (by omega) with hshown | hqueued
      · exact ⟨19, by omega, .shown hshown⟩
      · exact ⟨_, by omega, .queued hqueued⟩
  | shown hd =>
    refine ⟨18, by omega, .read ?_⟩
    show (if x.avg.answers then false else if isAvgRequest (x.net.recvs 2).data then true else x.avg.readRequest) = true
    rw [AvgAspRAM.answers, h.loop.request_free hd, Bool.and_false, if_neg Bool.false_ne_true, hd, if_pos rfl]
  | read hd =>
    refine ⟨17, by omega, .answered ?_⟩
    show isAvgData (if x.avg.ldr.avgReady then AvgAspRAM.addrPacket x.avg.ramWaddr
      else if x.avg.readRequest then AvgAspRAM.dataPacket x.avg.prevCorrCalculate x.avg.ram.qReg else .idle).data = true
    rw [hp hd, if_neg Bool.false_ne_true, hd, if_pos rfl]
    exact AvgAspRAM.isData_dataPacket 0b0011#4 ..
  | answered hd =>
    rcases h.answer_moves h2 hc (by rw [hd, Bool.toNat_true]; omega) with hshown | hqueued
    · exact ⟨0, by omega, .back hshown⟩
    · exact h'.due_returning hqueued
  | returning hd =>
    have htargets : ∀ y ∈ x.net.queue 2, ∃ d : Fin 8, y.addr = portAddr d := fun y hy =>
      ⟨3, (((h.carries.1 2 y hy).avg rfl).kind_of_valid (h.carries.1 2 y hy).valid).1⟩
    have hpos := List.countP_pos_iff.2 hd
    rcases turn_clock (x.sends on i) hd htargets (fun _ => Nat.lt_of_le_of_lt h.queue2_le (by omega)) with
      ⟨y, ys, hq, hkind, hack⟩ | hnear
    · have haddr := (h.loop.carries.1 2 y (by rw [hq]; exact List.mem_cons_self)).answerTo rfl hkind
      have hrecv : (x.clock on i).net.recvs 3 = _ :=
        recvs_clock_of_ack (by omega) (by omega) (x.sends on i) hq haddr hack
      exact ⟨0, by omega, .back (by rw [hrecv]; exact hkind)⟩
    · have hnear : turn isAvgData 2 (x.clock on i).net < turn isAvgData 2 x.net := hnear
      rcases h.answer_moves h2 hc (by omega) with hshown | hqueued
      · exact ⟨0, by omega, .back hshown⟩
      · exact ⟨_, by omega, .returning hqueued⟩
  | back hd =>
    rw [hback] at hd
    cases hd

/-- CorAsp is shown its next answer within `k` clocks, counting those until it asks for it. -/
inductive Awaits (x : Chip) : Nat → Prop
  | due (hs : x.cor.hasSendAvgDataRq = true) {k : Nat} (hdue : x.Due k) : Awaits x k
  | request (hs : x.cor.hasSendAvgDataRq = false) (h2 : x.cor.correlationSecondHalf = false)
    (hstate : x.cor.state ≠ .S2) : Awaits x 45
  | s2 (hs : x.cor.hasSendAvgDataRq = false) (hstate : x.cor.state = .S2) : Awaits x 46
  | second (hs : x.cor.hasSendAvgDataRq = false) (h1 : x.cor.correlationFirstHalf = false)
    (h2 : x.cor.correlationSecondHalf = true) : Awaits x 46
  | first (hs : x.cor.hasSendAvgDataRq = false) (h1 : x.cor.correlationFirstHalf = true) : Awaits x 47

theorem Chain.awaits (h : x.Chain) : ∃ k ≤ 47, x.Awaits k := by
  cases hs : x.cor.hasSendAvgDataRq with
  | true =>
    obtain ⟨k, hk, hdue⟩ := h.due hs
    exact ⟨k, by omega, .due hs hdue⟩
  | false =>
    cases h1 : x.cor.correlationFirstHalf with
    | true => exact ⟨47, Nat.le_refl 47, .first hs h1⟩
    | false =>
      cases h2 : x.cor.correlationSecondHalf with
      | true => exact ⟨46, by omega, .second hs h1 h2⟩
      | false =>
        by_cases hstate : x.cor.state = .S2
        · exact ⟨46, by omega, .s2 hs hstate⟩
        · exact ⟨45, by omega, .request hs h2 hstate⟩

theorem Awaits.clock (h2 : on 2 = true) (h3 : on 3 = true) (h : x.Chain) (hc : LoopClosed on x i)
    (h' : (x.clock on i).Chain) (hp : x.avg.Prompt) {k : Nat} (hk : x.Awaits k)
    (hback : isAvgData (x.net.recvs 3).data = false) : ∃ k' < k, (x.clock on i).Awaits k' := by
  have hhand := h.loop.hand
  cases hk with
  | due hs hdue =>
    obtain ⟨k', hlt, hdue'⟩ := hdue.clock h2 h3 h hc h' hp hback
    refine ⟨k', hlt, .due ?_ hdue'⟩
    show (x.cor.clock (x.net.recvs 3)).hasSendAvgDataRq = true
    rw [hhand.clock_wait hs hback]
    exact hs
  | request hs hsecond hstate =>
    have hs' : (x.clock on i).cor.hasSendAvgDataRq = true := by
      show (x.cor.clock (x.net.recvs 3)).hasSendAvgDataRq = true
      rw [hhand.clock_request hs hback hsecond hstate]
    obtain ⟨k', hle, hdue⟩ := h'.due hs'
    exact ⟨k', by omega, .due hs' hdue⟩
  | s2 hs hstate =>
    have hcor : (x.clock on i).cor = x.cor.clock (x.net.recvs 3) := rfl
    have hsecond : x.cor.correlationSecondHalf = false := by
      by_contra hsecond
      have := hhand.second (by simpa using hsecond)
      rw [hstate] at this
      cases this
    rw [hhand.clock_s2 hback hstate] at hcor
    exact ⟨45, by omega, .request (by rw [hcor]; exact hs) (by rw [hcor]; exact hsecond) (by rw [hcor]; simp)⟩
  | second hs h1 hsecond =>
    have hcor : (x.clock on i).cor = x.cor.clock (x.net.recvs 3) := rfl
    rw [hhand.clock_half hs hback hsecond] at hcor
    have hstate := hhand.second hsecond
    exact ⟨45, by omega, .request (by rw [hcor]; exact hs) (by rw [hcor]; exact h1) (by rw [hcor]; simp [hstate])⟩
  | first hs h1 =>
    have hcor : (x.clock on i).cor = x.cor.clock (x.net.recvs 3) := rfl
    rw [hhand.clock_half hs hback (hhand.first h1)] at hcor
    exact ⟨46, by omega, .second (by rw [hcor]; exact hs) (by rw [hcor]) (by rw [hcor]; exact h1)⟩

end Chip
end TdmaSoc
