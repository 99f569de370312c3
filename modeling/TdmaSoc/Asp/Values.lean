import TdmaSoc.Asp.Halves

/-!
# Correlation values reach PdAsp complete and in order

`CorLink` watches the chip and counts the requests that have reached port 2 and are yet to be answered.
`line` is the traffic of port 3 that the network has not carried yet, `stream` the halves of values on
their way to PdAsp, from the word on show at port 4 back to those still to be sent. A value is only
completed on an answer, the answer only comes after the request has left the queue, and the halves of
the value before are ahead of it there (`Link.delivered`): so there is never more than one value in the
stream.
-/

namespace TdmaSoc
open TdmaMin

structure CorLink where
  chip : Chip
  /-- Requests that port 2 has been shown and whose answers port 3 has not been shown. -/
  due : Nat

namespace CorLink

def init : CorLink := ⟨.init, 0⟩

def clock (on : Fin 8 → Bool) (x : CorLink) (i : ChipInput) : CorLink where
  chip := x.chip.clock on i
  due := x.due + (shown 3 2 x.chip.net).countP isAvgRequest - (isAvgData (x.chip.net.recvs 3).data).toNat

def machine (on : Fin 8 → Bool) : Machine CorLink ChipInput := ⟨init, clock on⟩

/-- An average comes only as the answer to a request that has been delivered. -/
def AnswersDue (x : CorLink) : Prop := isAvgData (x.chip.net.recvs 3).data = true → 0 < x.due

def ValuesFromCor (on : Fin 8 → Bool) (x : CorLink) (i : ChipInput) : Prop :=
  ∀ p, p ≠ 3 → (x.chip.sends on i p).addr = portAddr (4 : Fin 8) → isCorrelation (x.chip.sends on i p).data = false

def Paired (on : Fin 8 → Bool) (x : CorLink) (i : ChipInput) : Prop := x.AnswersDue ∧ x.ValuesFromCor on i

instance (on : Fin 8 → Bool) (x : CorLink) (i : ChipInput) : Decidable (Paired on x i) :=
  inferInstanceAs (Decidable ((_ → _) ∧ ∀ _, _ → _ → _))

/-- What CorAsp has sent and the network has not carried yet. -/
def line (x : CorLink) : List TdmaMinPort := x.chip.net.queue 3 ++ x.chip.cor.sendSignal.packets

def stream (x : CorLink) : List TdmaMinData :=
  shown 3 4 x.chip.net ++ wordsFor (4 : Fin 8) x.line ++ x.chip.cor.halves

structure Link (x : CorLink) : Prop where
  sound : x.chip.Sound
  hand : x.chip.cor.Handshake
  sent : x.chip.net.Carries fun p packet => p = 3 → CorAsp.Sent packet ∧ packet.valid = true
  /-- CorAsp waits for the request that is in the line, on show or due. -/
  pending : (wordsFor (2 : Fin 8) x.line).length + (shown 3 2 x.chip.net).length + x.due =
    x.chip.cor.hasSendAvgDataRq.toNat
  /-- Nothing but requests behind a request. -/
  order : x.line.Pairwise fun a b => a.addr = portAddr (2 : Fin 8) → b.addr = portAddr (2 : Fin 8)
  /-- Behind a delivered request there are no halves. -/
  delivered : 0 < (shown 3 2 x.chip.net).length + x.due → x.stream = []
  two : x.stream.length ≤ 2

variable {on : Fin 8 → Bool} {x : CorLink} {i : ChipInput}

theorem Link.init : CorLink.init.Link :=
  ⟨.init, .init, .init, rfl, List.Pairwise.nil, fun h => absurd h (by decide), by decide⟩

theorem sent_addr {packet : TdmaMinPort} (h : CorAsp.Sent packet) (hv : packet.valid = true) :
    (packet.addr = portAddr (2 : Fin 8) ∧ isAvgRequest packet.data = true ∧ isCorrelation packet.data = false) ∨
    (packet.addr = portAddr (4 : Fin 8) ∧ isCorrelation packet.data = true ∧ isAvgRequest packet.data = false) := by
  cases h with
  | idle => cases hv
  | half b v => right; exact ⟨rfl, by simp [isCorrelation], by simp [isAvgRequest]⟩
  | request a => left; exact ⟨rfl, by simp [isAvgRequest], by simp [isCorrelation]⟩

theorem Link.mem_line (h : x.Link) {packet : TdmaMinPort} (hm : packet ∈ x.line) :
    CorAsp.Sent packet ∧ packet.valid = true := by
  rcases List.mem_append.1 hm with hm | hm
  · exact h.sent.1 3 packet hm rfl
  · unfold TdmaMinPort.packets at hm
    split at hm
    case isTrue hv => rw [List.mem_singleton] at hm; subst hm; exact ⟨h.sound.cor, hv⟩
    case isFalse => cases hm

theorem length_eq_words {l : List TdmaMinPort} (h : ∀ packet ∈ l, CorAsp.Sent packet ∧ packet.valid = true) :
    l.length = (wordsFor (2 : Fin 8) l).length + (wordsFor (4 : Fin 8) l).length := by
  induction l with
  | nil => rfl
  | cons a l ih =>
    have ha := h a (List.mem_cons_self ..)
    have := ih fun packet hm => h packet (List.mem_cons_of_mem _ hm)
    have h24 : portAddr (2 : Fin 8) ≠ portAddr (4 : Fin 8) := by decide
    rw [List.length_cons, show a :: l = [a] ++ l from rfl, wordsFor_append, wordsFor_append, wordsFor_singleton,
      wordsFor_singleton, List.length_append, List.length_append]
    rcases sent_addr ha.1 ha.2 with ⟨haddr, -⟩ | ⟨haddr, -⟩
    · rw [if_pos haddr, if_neg (by rw [haddr]; exact h24)]; simp; omega
    · rw [if_pos haddr, if_neg (by rw [haddr]; exact h24.symm)]; simp; omega

/-- CorAsp's FIFO never holds more than the halves of one value and one request. -/
theorem Link.queue_le (h : x.Link) : (x.chip.net.queue 3).length ≤ 3 := by
  have hl := length_eq_words fun packet hm => h.mem_line hm
  have hq : (x.chip.net.queue 3).length ≤ x.line.length := by rw [line, List.length_append]; omega
  have h2 := h.two
  have hp := h.pending
  have := Bool.toNat_le x.chip.cor.hasSendAvgDataRq
  simp only [stream, List.length_append] at h2
  omega

theorem shown_eq {p d : Fin 8} {n : TdmaMin 8} {w : TdmaMinData} (h : w ∈ shown p d n) :
    shown p d n = [w] ∧ (n.recvs d).data = w ∧ (n.recvs d).addr = portAddr p ∧ w.msb = true := by
  unfold shown at h ⊢
  split at h
  case isTrue hc =>
    rw [List.mem_singleton] at h
    subst h
    exact ⟨if_pos hc, rfl, hc.2, hc.1⟩
  case isFalse => cases h

theorem Link.shown_sent (h : x.Link) {d : Fin 8} {w : TdmaMinData} (hw : w ∈ shown 3 d x.chip.net) :
    CorAsp.Sent ⟨portAddr d, w⟩ := by
  obtain ⟨-, hdata, haddr, hmsb⟩ := shown_eq hw
  rcases h.sent.2 d with h0 | ⟨p, hp, hs⟩
  · rw [hdata] at h0; rw [h0] at hmsb; cases hmsb
  · have hp3 : p = 3 := by
      rw [haddr, portAddr_inj (by omega) (by omega)] at hp
      exact Fin.ext hp.symm
    rw [← hdata]
    exact (hs hp3).1

theorem Link.shown_requests (h : x.Link) :
    (shown 3 2 x.chip.net).countP isAvgRequest = (shown 3 2 x.chip.net).length := by
  rw [List.countP_eq_length]
  intro w hw
  obtain ⟨-, -, -, hmsb⟩ := shown_eq hw
  rcases sent_addr (h.shown_sent hw) hmsb with ⟨-, hr, -⟩ | ⟨haddr, -⟩
  · exact hr
  · exact absurd (show portAddr (2 : Fin 8) = portAddr (4 : Fin 8) from haddr) (by decide)

theorem Link.answer_hasSend (h : x.Link) (hd : x.AnswersDue) (ha : isAvgData (x.chip.net.recvs 3).data = true) :
    x.chip.cor.hasSendAvgDataRq = true := by
  have hp := h.pending
  have hdue := hd ha
  by_contra hs
  rw [Bool.not_eq_true] at hs
  rw [hs, Bool.toNat_false] at hp
  omega

theorem words_of_sent {packet : TdmaMinPort} (h : CorAsp.Sent packet) :
    (wordsFor (2 : Fin 8) packet.packets).length = (isAvgRequest packet.data).toNat := by
  cases h with
  | idle => rfl
  | half b v => simp [CorAsp.words_halfPacket, isAvgRequest]
  | request a => simp [CorAsp.words_requestPacket, isAvgRequest]

section Clock
variable (h3 : on 3 = true) (h : x.Link)
include h3 h

theorem Link.ledger (i : ChipInput) (d : Fin 8) :
    shown 3 d (x.clock on i).chip.net ++ wordsFor d ((x.clock on i).chip.net.queue 3) = wordsFor d x.line := by
  have := shown_ledger (x.chip.sends on i) (p := 3) (by omega) (by omega) h.sound.queues
    (fun _ => Nat.lt_of_le_of_lt h.queue_le (by omega)) d
  rw [Chip.sends_cor _ _ h3] at this
  exact this

theorem Link.stream_clock_eq : (x.clock on i).stream = wordsFor (4 : Fin 8) x.line ++
    (wordsFor (4 : Fin 8) (x.clock on i).chip.cor.sendSignal.packets ++ (x.clock on i).chip.cor.halves) := by
  rw [stream, line, wordsFor_append, ← h.ledger h3 i 4]
  simp only [List.append_assoc]

variable (hd : x.AnswersDue)
include hd

/-- The stream moves on; a value that is completed finds it empty. -/
theorem Link.stream_clock :
    (x.chip.cor.completed (x.chip.net.recvs 3) = [] ∧ shown 3 4 x.chip.net ++ (x.clock on i).stream = x.stream) ∨
    (x.stream = [] ∧ (x.clock on i).chip.cor.hasSendAvgDataRq = false ∧
      ∃ v, x.chip.cor.completed (x.chip.net.recvs 3) = [v] ∧ (x.clock on i).stream = halfWords v) := by
  rw [h.stream_clock_eq h3]
  rcases h.hand.halves_clock (h.answer_hasSend hd) with ⟨hc, hh⟩ | ⟨ha, -, hidle, hs, hc, hh⟩
  · left
    refine ⟨hc, ?_⟩
    rw [show wordsFor (4 : Fin 8) (x.clock on i).chip.cor.sendSignal.packets ++ (x.clock on i).chip.cor.halves = _
      from hh, stream, List.append_assoc]
  · right
    have hnil : x.stream = [] := h.delivered (Nat.lt_of_lt_of_le (hd ha) (Nat.le_add_left ..))
    have hline : wordsFor (4 : Fin 8) x.line = [] := by simp [stream] at hnil; exact hnil.2.1
    refine ⟨hnil, hs, _, hc, ?_⟩
    rw [hline, show (x.clock on i).chip.cor.sendSignal = .idle from hidle,
      show (x.clock on i).chip.cor.halves = _ from hh]
    rfl

theorem Link.pending_clock : (wordsFor (2 : Fin 8) (x.clock on i).line).length +
    (shown 3 2 (x.clock on i).chip.net).length + (x.clock on i).due =
      (x.clock on i).chip.cor.hasSendAvgDataRq.toNat := by
  have hl := congrArg List.length (h.ledger h3 i 2)
  have ht := h.hand.token (h.answer_hasSend hd)
  have hp := h.pending
  have hsent : (wordsFor (2 : Fin 8) (x.chip.cor.clock (x.chip.net.recvs 3)).sendSignal.packets).length =
      (isAvgRequest (x.chip.cor.clock (x.chip.net.recvs 3)).sendSignal.data).toNat :=
    words_of_sent (x.chip.cor.sent_clock _)
  have hdue : (isAvgData (x.chip.net.recvs 3).data).toNat ≤ x.due := by
    cases ha : isAvgData (x.chip.net.recvs 3).data
    · exact Nat.zero_le _
    · exact hd ha
  show (wordsFor (2 : Fin 8) ((x.clock on i).chip.net.queue 3 ++
      (x.chip.cor.clock (x.chip.net.recvs 3)).sendSignal.packets)).length +
    (shown 3 2 (x.clock on i).chip.net).length + (x.due + (shown 3 2 x.chip.net).countP isAvgRequest -
      (isAvgData (x.chip.net.recvs 3).data).toNat) = (x.chip.cor.clock (x.chip.net.recvs 3)).hasSendAvgDataRq.toNat
  rw [wordsFor_append, List.length_append, hsent, h.shown_requests]
  rw [List.length_append] at hl
  omega

/-- A request that gets on show has left everything else behind. -/
theorem Link.delivered_clock (hpos : 0 < (shown 3 2 (x.clock on i).chip.net).length + (x.clock on i).due) :
    (x.clock on i).stream = [] := by
  by_cases hold : 0 < (shown 3 2 x.chip.net).length + x.due
  · have hnil := h.delivered hold
    rcases h.stream_clock (i := i) h3 hd with ⟨-, hs⟩ | ⟨-, hs, -⟩
    · rw [hnil] at hs; exact (List.append_eq_nil_iff.1 hs).2
    · have := h.pending_clock (i := i) h3 hd
      rw [hs, Bool.toNat_false] at this
      omega
  · -- the request leaves the queue in this clock: it was its head
    have hdue : (x.clock on i).due = 0 := by
      show x.due + (shown 3 2 x.chip.net).countP isAvgRequest - _ = 0
      rw [h.shown_requests]; omega
    obtain ⟨w, hw⟩ := List.exists_mem_of_length_pos (l := shown 3 2 (x.clock on i).chip.net) (by omega)
    obtain ⟨-, hdata, haddr, hmsb⟩ := shown_eq hw
    rcases recvs_clock_cases (by omega) (by omega) (x.chip.sends on i) 2 with h0 | ⟨p, a, as, hq, ha, -, hr⟩
    · have : ((x.clock on i).chip.net.recvs 2).data = 0 := h0
      rw [hdata] at this; rw [this] at hmsb; cases hmsb
    · have hp : p = 3 := by
        have : ((x.clock on i).chip.net.recvs 2).addr = portAddr p := congrArg TdmaMinPort.addr hr
        rw [haddr, portAddr_inj (by omega) (by omega)] at this
        exact Fin.ext this.symm
      subst hp
      have hline : x.line = a :: (as ++ x.chip.cor.sendSignal.packets) := by rw [line, hq]; rfl
      have hall : ∀ b ∈ x.line, b.addr = portAddr (2 : Fin 8) := by
        have ho := h.order
        rw [hline, List.pairwise_cons] at ho
        rw [hline]
        intro b hb
        rcases List.mem_cons.1 hb with rfl | hb
        · exact ha
        · exact ho.1 b hb ha
      have h4 : wordsFor (4 : Fin 8) x.line = [] := by
        rw [wordsFor, List.map_eq_nil_iff, List.filter_eq_nil_iff]
        intro b hb
        rw [hall b hb]; decide
      have h2 : 0 < (wordsFor (2 : Fin 8) x.line).length := by
        rw [hline, show a :: (as ++ x.chip.cor.sendSignal.packets) = [a] ++ (as ++ _) from rfl, wordsFor_append,
          wordsFor_singleton, if_pos ha]
        simp
      have hs : x.chip.cor.hasSendAvgDataRq = true := by
        have hp := h.pending
        by_contra hs
        rw [Bool.not_eq_true] at hs
        rw [hs, Bool.toNat_false] at hp
        omega
      rw [h.stream_clock_eq h3, h4]
      rcases h.hand.halves_clock (h.answer_hasSend hd) with ⟨-, hh⟩ | ⟨ha, -⟩
      · rw [show wordsFor (4 : Fin 8) (x.clock on i).chip.cor.sendSignal.packets ++ (x.clock on i).chip.cor.halves = _
          from hh, h.hand.halves_of_hasSend hs]
        rfl
      · have := hd ha; omega

theorem Link.order_clock :
    (x.clock on i).line.Pairwise fun a b => a.addr = portAddr (2 : Fin 8) → b.addr = portAddr (2 : Fin 8) := by
  have hq : (x.clock on i).chip.net.queue 3 = _ :=
    queue_clock_of_lt (x.chip.sends on i) fun _ => Nat.lt_of_le_of_lt h.queue_le (by omega)
  rw [Chip.sends_cor _ _ h3] at hq
  have hsub : ((x.clock on i).chip.net.queue 3).Sublist x.line := by
    rw [hq, line]
    refine List.Sublist.append ?_ (List.Sublist.refl _)
    split
    · exact List.tail_sublist _
    · exact List.Sublist.refl _
  rw [line, List.pairwise_append]
  refine ⟨h.order.sublist hsub, ?_, fun a ha b hb h2 => ?_⟩
  · unfold TdmaMinPort.packets; split <;> simp
  · -- nothing is sent behind a request
    have hpos : 0 < (wordsFor (2 : Fin 8) x.line).length := by
      rw [wordsFor, List.length_map, ← List.countP_eq_length_filter, List.countP_pos_iff]
      exact ⟨a, hsub.subset ha, by rw [h2]; exact beq_self_eq_true _⟩
    have hs : x.chip.cor.hasSendAvgDataRq = true := by
      have hp := h.pending
      by_contra hs
      rw [Bool.not_eq_true] at hs
      rw [hs, Bool.toNat_false] at hp
      omega
    have hidle : (x.clock on i).chip.cor.sendSignal = .idle := h.hand.idle_of_hasSend (h.answer_hasSend hd) hs
    rw [hidle] at hb; cases hb

theorem Link.clock : (x.clock on i).Link := by
  refine ⟨h.sound.clock i, h.hand.clock (h.answer_hasSend hd), ?_, h.pending_clock h3 hd, h.order_clock h3 hd,
    h.delivered_clock h3 hd, ?_⟩
  · refine h.sent.clock (by omega) (by omega) fun p hv hp => ?_
    subst hp
    rw [Chip.sends_cor _ _ h3] at hv ⊢
    exact ⟨h.sound.cor, hv⟩
  · rcases h.stream_clock (i := i) h3 hd with ⟨-, hs⟩ | ⟨-, -, v, -, hs⟩
    · have h2 := h.two
      rw [← hs, List.length_append] at h2
      omega
    · rw [hs]; exact Nat.le_refl 2

end Clock

def completed (x : CorLink) (_ : ChipInput) : List (BitVec 36) := x.chip.cor.completed (x.chip.net.recvs 3)

/-- The values that PdAsp assigns to `current_correlation_value`. -/
def assigned (x : CorLink) (_ : ChipInput) : List (BitVec 36) := x.chip.pd.assigned (x.chip.net.recvs 4)

/-- The link, when all correlation values that reach PdAsp come from CorAsp. -/
structure Values (x : CorLink) : Prop where
  link : x.Link
  fromCor : x.chip.net.Carries fun p packet =>
    packet.addr = portAddr (4 : Fin 8) → isCorrelation packet.data = true → p = 3

theorem Values.init : CorLink.init.Values := ⟨.init, .init⟩

theorem Values.clock (h3 : on 3 = true) (h : x.Values) (hp : x.Paired on i) : (x.clock on i).Values := by
  refine ⟨h.link.clock h3 hp.1, h.fromCor.clock (by omega) (by omega) fun p _ haddr hc => ?_⟩
  by_contra hne
  rw [hp.2 p hne haddr] at hc; cases hc

theorem Values.not_correlation (h : x.Values) (hs : shown 3 4 x.chip.net = []) :
    isCorrelation (x.chip.net.recvs 4).data = false := by
  by_contra hc
  rw [Bool.not_eq_false] at hc
  rcases h.fromCor.2 4 with h0 | ⟨p, hp, h4⟩
  · rw [h0] at hc; simp [isCorrelation] at hc
  · have hp3 := h4 rfl hc
    subst hp3
    rw [shown, if_pos ⟨msb_of_isData hc, hp⟩] at hs
    cases hs

/-- In every clock the values in flight change by those completed and those assigned. -/
theorem Values.inFlight_clock (h3 : on 3 = true) (h : x.Values) (hd : x.AnswersDue) {vs : List (BitVec 36)}
    (hf : InFlight x.chip.pd.incompleteCorrelationValue x.stream vs) :
    ∃ vs', InFlight (x.clock on i).chip.pd.incompleteCorrelationValue (x.clock on i).stream vs' ∧
      vs ++ x.completed i = x.assigned i ++ vs' := by
  cases hs : shown 3 4 x.chip.net with
  | nil =>
    obtain ⟨hkeep, ha⟩ := hf.keep (h.not_correlation hs)
    rw [show x.assigned i = [] from ha]
    rcases h.link.stream_clock (i := i) h3 hd with ⟨hc, hst⟩ | ⟨hnil, -, v, hc, hst⟩
    · rw [hs, List.nil_append] at hst
      rw [hst, show x.completed i = [] from hc]
      exact ⟨vs, hkeep, by simp⟩
    · rw [hnil] at hf
      rw [hst, show x.completed i = [v] from hc, hf.eq_nil]
      exact ⟨[v], .both v, rfl⟩
  | cons w ws =>
    obtain ⟨hw, hdata, -⟩ := shown_eq (show w ∈ shown 3 4 x.chip.net by rw [hs]; exact List.mem_cons_self ..)
    rcases h.link.stream_clock (i := i) h3 hd with ⟨hc, hst⟩ | ⟨hnil, -⟩
    · rw [hw] at hst
      rw [← hst] at hf
      obtain ⟨vs', hf', hvs⟩ := hf.take hdata
      rw [show x.completed i = [] from hc, List.append_nil]
      exact ⟨vs', hf', hvs⟩
    · simp [stream, hw] at hnil

/-- A bound on the clocks until the stream is empty: the slot to port 4 comes every eighth clock, and a half
has at most two stations before the queue. -/
def delay (x : CorLink) : Nat :=
  if x.stream = [] then 0 else
    (shown 3 4 x.chip.net).length + (7 - x.chip.net.slot) + 9 * (wordsFor (4 : Fin 8) (x.chip.net.queue 3)).length +
      17 * (wordsFor (4 : Fin 8) x.chip.cor.sendSignal.packets).length + 25 * x.chip.cor.halves.length

theorem Link.stream_length (x : CorLink) : x.stream.length =
    (shown 3 4 x.chip.net).length + (wordsFor (4 : Fin 8) (x.chip.net.queue 3)).length +
      (wordsFor (4 : Fin 8) x.chip.cor.sendSignal.packets).length + x.chip.cor.halves.length := by
  rw [stream, line, wordsFor_append]; simp only [List.length_append]; omega

theorem Link.delay_le (h : x.Link) : x.delay ≤ 57 := by
  have h2 := h.two
  rw [stream_length] at h2
  unfold delay
  split <;> omega

theorem Link.half_leaves (h : x.Link) (on : Fin 8 → Bool) (i : ChipInput) (hs : x.chip.net.slot = 7)
    (hq : 0 < (wordsFor (4 : Fin 8) (x.chip.net.queue 3)).length) : 0 < (shown 3 4 (x.clock on i).chip.net).length := by
  cases hqueue : x.chip.net.queue 3 with
  | nil => rw [hqueue] at hq; simp [wordsFor] at hq
  | cons a as =>
    have hline : x.line = a :: (as ++ x.chip.cor.sendSignal.packets) := by rw [line, hqueue]; rfl
    have ha := h.mem_line (show a ∈ x.line by rw [hline]; exact List.mem_cons_self ..)
    rcases sent_addr ha.1 ha.2 with ⟨haddr, -⟩ | ⟨haddr, -⟩
    · -- behind a request there are no halves
      exfalso
      have ho := h.order
      rw [hline, List.pairwise_cons] at ho
      have hnil : wordsFor (4 : Fin 8) (x.chip.net.queue 3) = [] := by
        rw [hqueue, wordsFor, List.map_eq_nil_iff, List.filter_eq_nil_iff]
        intro b hb
        have hb2 : b.addr = portAddr (2 : Fin 8) := by
          rcases List.mem_cons.1 hb with rfl | hb
          · exact haddr
          · exact ho.1 b (List.mem_append_left _ hb) haddr
        rw [hb2]; decide
      rw [hnil] at hq; exact Nat.lt_irrefl _ hq
    · have hack := (ack_iff (by omega) hqueue haddr).2 hs
      have hr : (x.clock on i).chip.net.recvs 4 = _ :=
        recvs_clock_of_ack (by omega) (by omega) (x.chip.sends on i) hqueue haddr hack
      rw [shown, hr, if_pos ⟨ha.2, rfl⟩]
      exact Nat.one_pos

theorem Link.delay_clock (h3 : on 3 = true) (h : x.Link) (hd : x.AnswersDue) (hne : x.stream ≠ []) :
    (x.clock on i).delay < x.delay := by
  rcases h.stream_clock (i := i) h3 hd with ⟨-, hst⟩ | ⟨hnil, -⟩
  · have hlen := congrArg List.length hst
    have hledger := congrArg List.length (h.ledger h3 i 4)
    rw [List.length_append, Link.stream_length x, Link.stream_length (x.clock on i)] at hlen
    rw [line, wordsFor_append, List.length_append, List.length_append] at hledger
    have hpos : 0 < x.stream.length := List.length_pos_iff.2 hne
    rw [Link.stream_length x] at hpos
    have hleave := h.half_leaves on i
    have hsend : x.chip.cor.halves.length ≠ 0 →
        0 < (wordsFor (4 : Fin 8) (x.clock on i).chip.cor.sendSignal.packets).length := fun hn =>
      h.hand.sends_half (h.answer_hasSend hd) (by simpa using hn)
    have hslot : (x.clock on i).chip.net.slot = (x.chip.net.slot + 1) % 8 := rfl
    have hslot8 : x.chip.net.slot < 8 := x.chip.net.slot_lt
    have hx : x.delay = _ := if_neg hne
    rw [hx]
    by_cases hne' : (x.clock on i).stream = []
    · rw [delay, if_pos hne']; omega
    · have hpos' : 0 < (x.clock on i).stream.length := List.length_pos_iff.2 hne'
      rw [Link.stream_length (x.clock on i)] at hpos'
      rw [delay, if_neg hne', hslot]
      rcases Nat.lt_or_ge x.chip.net.slot 7 with h7 | h7
      · rw [Nat.mod_eq_of_lt (by omega)]; omega
      · have h7 : x.chip.net.slot = 7 := by omega
        have hleave := hleave h7
        rw [h7]
        omega
  · exact absurd hnil hne

/-- Along a run the values in flight are those completed and not yet assigned. -/
theorem run_inFlight (h3 : on 3 = true) {is : List ChipInput} (h : (machine on).Along (Paired on) is) :
    ((machine on).run is).Values ∧ ∃ vs,
      InFlight ((machine on).run is).chip.pd.incompleteCorrelationValue ((machine on).run is).stream vs ∧
        (machine on).log completed is = (machine on).log assigned is ++ vs := by
  induction is using List.reverseRecOn with
  | nil =>
    have hs : CorLink.init.stream = [] := by decide
    show CorLink.init.Values ∧ ∃ vs, InFlight _ CorLink.init.stream vs ∧ _
    rw [hs]
    exact ⟨.init, [], .none, rfl⟩
  | append_singleton is i ih =>
    rw [Machine.along_concat] at h
    obtain ⟨hv, vs, hf, hlog⟩ := ih h.1
    obtain ⟨vs', hf', hvs⟩ := hv.inFlight_clock (i := i) h3 h.2.1 hf
    rw [Machine.run_concat, Machine.log_concat, Machine.log_concat, hlog, List.append_assoc, hvs, ← List.append_assoc]
    exact ⟨hv.clock h3 h.2, vs', hf', rfl⟩

/-- PdAsp's last two values are the last two it has been assigned, after two zeros. -/
theorem run_last_two (is : List ChipInput) : ∃ before, 0 :: 0 :: (machine on).log assigned is =
    before ++ [((machine on).run is).chip.pd.lastCorrelationValue,
      ((machine on).run is).chip.pd.currentCorrelationValue] := by
  induction is using List.reverseRecOn with
  | nil => exact ⟨[], rfl⟩
  | append_singleton is i ih =>
    obtain ⟨before, hb⟩ := ih
    have hstep := PdAsp.last_two ((machine on).run is).chip.pd (((machine on).run is).chip.net.recvs 4)
    rw [Machine.log_concat, Machine.run_concat, ← List.cons_append, ← List.cons_append, hb, List.append_assoc]
    exact ⟨_, (congrArg (before ++ ·) hstep).trans (List.append_assoc ..).symm⟩

theorem assigned_within (h3 : on 3 = true) {is js : List ChipInput} (h : (machine on).Along (Paired on) (is ++ js))
    (hlen : 58 ≤ js.length) : (machine on).log completed is <+: (machine on).log assigned (is ++ js) := by
  -- while the stream is not empty nothing new is completed; when it is, everything has been assigned
  have hempty : ∀ ks, (machine on).Along (Paired on) ks → ((machine on).run ks).stream = [] →
      (machine on).log completed ks = (machine on).log assigned ks := fun ks hk hs => by
    obtain ⟨-, vs, hf, hlog⟩ := run_inFlight h3 hk
    rw [hs] at hf
    rw [hlog, hf.eq_nil, List.append_nil]
  have his := ((Machine.along_append ..).1 h).1
  refine Machine.reaches_within (fun js => (machine on).log completed is <+: (machine on).log assigned (is ++ js))
    (fun js => ((machine on).run (is ++ js)).stream ≠ [] ∧
      (machine on).log completed (is ++ js) = (machine on).log completed is)
    delay ?_ (fun js i hg => ?_) (fun js i hj hp hw => ?_) h
    (Nat.lt_of_le_of_lt (run_inFlight h3 his).1.link.delay_le hlen)
  · rw [List.append_nil]
    by_cases hs : ((machine on).run is).stream = []
    · left; exact ⟨[], by rw [List.append_nil, hempty is his hs]⟩
    · exact .inr ⟨hs, rfl⟩
  · rw [← List.append_assoc, Machine.log_concat]
    exact hg.trans (List.prefix_append ..)
  · obtain ⟨hs, hc⟩ := hw
    have hlink := (run_inFlight h3 hj).1.link
    have hj' : (machine on).Along (Paired on) (is ++ js ++ [i]) := (Machine.along_concat ..).2 ⟨hj, hp⟩
    have hnone : completed ((machine on).run (is ++ js)) i = [] := by
      rcases hlink.stream_clock (i := i) h3 hp.1 with ⟨hc, -⟩ | ⟨hnil, -⟩
      · exact hc
      · exact absurd hnil hs
    have hc' : (machine on).log completed (is ++ js ++ [i]) = (machine on).log completed is := by
      rw [Machine.log_concat, hnone, List.append_nil, hc]
    rw [← List.append_assoc]
    by_cases hs' : ((machine on).run (is ++ js ++ [i])).stream = []
    · left; exact ⟨[], by rw [List.append_nil, ← hempty _ hj' hs', hc']⟩
    · exact .inr ⟨⟨hs', hc'⟩, hlink.delay_clock h3 hp.1 hs⟩

/-- Correlation values reach PdAsp complete, in order, without loss or duplication. CorAsp's FIFO never holds
more than three packets; the values assigned are the values completed, but for at most one on its way, and that
one is assigned within 58 clocks; and the last value is always the one assigned before the current. -/
theorem values_in_order {on : Fin 8 → Bool} (h3 : on 3 = true) {is : List ChipInput}
    (h : (machine on).Along (Paired on) is) :
    let x := (machine on).run is
    (x.chip.net.queue 3).length ≤ 3 ∧
    (∃ vs, vs.length ≤ 1 ∧ (machine on).log completed is = (machine on).log assigned is ++ vs) ∧
    (∀ js, (machine on).Along (Paired on) (is ++ js) → 58 ≤ js.length →
      (machine on).log completed is <+: (machine on).log assigned (is ++ js)) ∧
    ∃ before, 0 :: 0 :: (machine on).log assigned is =
      before ++ [x.chip.pd.lastCorrelationValue, x.chip.pd.currentCorrelationValue] := by
  obtain ⟨hv, vs, hf, hlog⟩ := run_inFlight h3 h
  exact ⟨hv.link.queue_le, ⟨vs, hf.length_le.2, hlog⟩, fun js hj hlen => assigned_within h3 hj hlen, run_last_two is⟩

/-- Port 2 answers six requests; the first asks for a correlation. -/
def exampleInput (t : Nat) : ChipInput :=
  let answer : TdmaMinPort := ⟨3, ((dataWord 0b0011#4).setSlice 16 1#1).setSlice 0 (BitVec.ofNat 16 t)⟩
  ⟨0, false, fun p => if p = 2 ∧ t ∈ [11, 27, 43, 59, 75, 91] then answer else .idle⟩

theorem values_in_order_one : [27 * 43 + 59 * 75] <+:
    (machine (onPorts [3, 4])).log assigned ((List.range 99).map exampleInput ++ List.replicate 58 .quiet) := by
  have hc : (machine (onPorts [3, 4])).log completed ((List.range 99).map exampleInput) = [27 * 43 + 59 * 75] := by
    decide +kernel
  have hall : (machine (onPorts [3, 4])).Along (Paired (onPorts [3, 4]))
      ((List.range 99).map exampleInput ++ List.replicate 58 .quiet) := by decide +kernel
  have h := @values_in_order (onPorts [3, 4]) (by decide) _ ((Machine.along_append ..).1 hall).1
  exact hc ▸ h.2.2.1 (List.replicate 58 .quiet) hall (by decide)

end CorLink
end TdmaSoc
