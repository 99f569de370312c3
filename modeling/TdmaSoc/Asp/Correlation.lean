import TdmaSoc.Asp.CorAspStep
import TdmaSoc.Asp.Window
import TdmaSoc.Lib.Machine

/-!
# CorAsp computes the windowed correlation

A `Scoreboard` watches the two ports of the component and remembers the request that is out, and since
the last request made in `S0`: the newest address and the window size that request was computed from,
the requests that were answered with their answers, and whether the window size has stayed the same.
`Inv` says how the registers follow the scoreboard; the clause about a correlation in progress
(`Summing`) is what the sum is made of after `k` products.
-/

namespace TdmaSoc
open Window

structure Scoreboard where
  /-- The request that has been sent and not been answered. -/
  pending : Option Address
  announced : Address
  newest : Address
  window : Nat
  steady : Bool
  answered : List (Address × BitVec 16)

structure CorBench where
  cor : CorAsp
  board : Scoreboard

namespace Scoreboard

def init : Scoreboard := ⟨none, 0, 0, 0, false, []⟩

def hear (recv : TdmaMinPort) (b : Scoreboard) : Scoreboard :=
  { b with announced := if isAvgAddr recv.data then recv.data.slice 0 10 else b.announced }

def answer (recv : TdmaMinPort) (b : Scoreboard) : Scoreboard :=
  match b.pending with
  | some a =>
    if isAvgData recv.data then { b with pending := none, answered := b.answered ++ [(a, recv.data.slice 0 16)] }
    else b
  | none => b

/-- A request at the send port; in `S0` it is the first of what may become a correlation. -/
def request (s s' : CorAsp) (b : Scoreboard) : Scoreboard :=
  if isAvgRequest s'.sendSignal.data then
    if s.state = .S0 then
      { pending := some (s'.sendSignal.data.slice 0 10), announced := b.announced, newest := b.announced,
        window := s.correlationWindowSize, steady := true, answered := [] }
    else { b with pending := some (s'.sendSignal.data.slice 0 10) }
  else b

/-- What is seen of a clock that takes `s` to `s'`. -/
def observe (s : CorAsp) (recv : TdmaMinPort) (s' : CorAsp) (b : Scoreboard) : Scoreboard :=
  request s s' (answer recv (hear recv { b with steady := b.steady && s.correlationWindowSize == b.window }))

def pairs (b : Scoreboard) : Nat := b.window / 2

/-- The address the correlation is to be taken at. -/
def origin (b : Scoreboard) : Address := b.newest - BitVec.ofNat 10 (b.pairs - 1)

end Scoreboard

namespace CorBench

def init : CorBench := ⟨.init, .init⟩

def clock (x : CorBench) (recv : TdmaMinPort) : CorBench :=
  ⟨x.cor.clock recv, x.board.observe x.cor recv (x.cor.clock recv)⟩

def machine : Machine CorBench TdmaMinPort := ⟨init, clock⟩

/-- Averages arrive only as the answer to the request that is out. -/
def OneAnswer (x : CorBench) (recv : TdmaMinPort) : Prop :=
  isAvgData recv.data = true → x.board.pending.isSome = true

instance (x : CorBench) (recv : TdmaMinPort) : Decidable (OneAnswer x recv) :=
  inferInstanceAs (Decidable (_ → _))

/-- A correlation of `n` pairs at origin `o` in progress, `k` products summed: the next address below the
origin is asked for in `S1`, its product waits in `S2` and `S3`, and the next address above is asked for
in `S3`. -/
def Summing (o : Address) (n : Nat) (c : CorAsp) (answered : List (Address × BitVec 16))
    (v : Address → BitVec 16) (k : Nat) : Prop :=
  k < n ∧ c.currentCorrOrigin = o ∧ c.correlation.toNat = correlation v o k ∧
  match c.state with
  | .S0 => False
  | .S1 =>
    c.counter.toNat = k ∧ answered = answers v (schedule o k) ∧ c.multiplicandTemp = v (o + BitVec.ofNat 10 k) ∧
    (c.hasSendAvgDataRq = true → c.avgDataMemAddr = o - 1 - BitVec.ofNat 10 k)
  | .S2 =>
    c.counter.toNat = k ∧ answered = answers v (schedule o k ++ [o - 1 - BitVec.ofNat 10 k]) ∧
    c.correlationPairProduct.toNat =
      (v (o + BitVec.ofNat 10 k)).toNat * (v (o - 1 - BitVec.ofNat 10 k)).toNat
  | .S3 =>
    c.counter.toNat = k + 1 ∧ answered = answers v (schedule o k ++ [o - 1 - BitVec.ofNat 10 k]) ∧
    c.correlationPairProduct.toNat =
      (v (o + BitVec.ofNat 10 k)).toNat * (v (o - 1 - BitVec.ofNat 10 k)).toNat ∧
    (c.hasSendAvgDataRq = true → c.avgDataMemAddr = o + 1 + BitVec.ofNat 10 k)

structure Inv (x : CorBench) : Prop where
  hand : x.cor.Handshake
  pending : x.board.pending = if x.cor.hasSendAvgDataRq then some x.cor.avgDataMemAddr else none
  announced : x.board.announced = x.cor.newestAvgDataAddr
  /-- A request made in `S0` is for the origin. -/
  first : x.cor.state = .S0 → x.cor.hasSendAvgDataRq = true → x.board.answered = [] ∧
    x.cor.avgDataMemAddr = x.board.newest - BitVec.ofInt 10 (CorAsp.originOffset x.board.window)
  summing : x.cor.state ≠ .S0 → x.board.steady = true → 1 ≤ x.board.pairs → x.board.pairs ≤ 7 →
    ∃ v k, Summing x.board.origin x.board.pairs x.cor x.board.answered v k

variable {x : CorBench} {recv : TdmaMinPort}

theorem Inv.init : CorBench.init.Inv := ⟨.init, rfl, rfl, by decide, fun h => absurd rfl h⟩

theorem Inv.answer_hasSend (h : x.Inv) (hr : x.OneAnswer recv) (hd : isAvgData recv.data = true) :
    x.cor.hasSendAvgDataRq = true := by
  have := hr hd
  rw [h.pending] at this
  split at this
  · assumption
  · simp at this

/-- The origin the request is computed from is the one to be taken. -/
theorem origin_eq_of_window (b : Scoreboard) (h : 1 ≤ b.pairs) :
    b.newest - BitVec.ofInt 10 (CorAsp.originOffset b.window) = b.origin := by
  rw [CorAsp.originOffset_eq h]
  rfl

theorem Inv.hear_announced (h : x.Inv) :
    (x.board.hear recv).announced = (x.cor.clock recv).newestAvgDataAddr := by
  rw [CorAsp.clock_newestAvgDataAddr, ← h.announced]; rfl

/-- A clock without an answer and without a request changes nothing on the scoreboard but `steady` and the
announced address. -/
theorem board_quiet (hd : isAvgData recv.data = false)
    (hq : isAvgRequest (x.cor.clock recv).sendSignal.data = false) : (x.clock recv).board =
      { x.board with
        announced := (x.board.hear recv).announced
        steady := x.board.steady && x.cor.correlationWindowSize == x.board.window } := by
  simp only [clock, Scoreboard.observe, Scoreboard.request, Scoreboard.answer, Scoreboard.hear, hd, hq]
  cases x.board.pending <;> rfl

theorem board_answer {a : Address} (hp : x.board.pending = some a) (hd : isAvgData recv.data = true)
    (hq : isAvgRequest (x.cor.clock recv).sendSignal.data = false) : (x.clock recv).board =
      { x.board with
        announced := (x.board.hear recv).announced
        steady := x.board.steady && x.cor.correlationWindowSize == x.board.window
        pending := none
        answered := x.board.answered ++ [(a, recv.data.slice 0 16)] } := by
  simp [clock, Scoreboard.observe, Scoreboard.request, Scoreboard.answer, Scoreboard.hear, hd, hq, hp]

theorem board_request {a : Address} (hd : isAvgData recv.data = false)
    (hq : (x.cor.clock recv).sendSignal = CorAsp.requestPacket a) : (x.clock recv).board =
      if x.cor.state = .S0 then
        { pending := some a, announced := (x.board.hear recv).announced, newest := (x.board.hear recv).announced,
          window := x.cor.correlationWindowSize, steady := true, answered := [] }
      else { x.board with
        announced := (x.board.hear recv).announced
        steady := x.board.steady && x.cor.correlationWindowSize == x.board.window
        pending := some a } := by
  simp only [clock, Scoreboard.observe, Scoreboard.request, Scoreboard.answer, Scoreboard.hear, hd, hq,
    CorAsp.isData_requestPacket, CorAsp.slice_requestPacket]
  cases x.board.pending <;> simp

/-- The scoreboard hears every address packet, whatever else the clock does. -/
theorem Inv.announced_clock (h : x.Inv) :
    (x.clock recv).board.announced = (x.clock recv).cor.newestAvgDataAddr := by
  show _ = (x.cor.clock recv).newestAvgDataAddr
  rw [← h.hear_announced]
  have hans : ∀ b : Scoreboard, (b.answer recv).announced = b.announced := fun b => by
    unfold Scoreboard.answer
    cases b.pending <;> [rfl; skip]
    show (if isAvgData recv.data = true then _ else b : Scoreboard).announced = _
    split <;> rfl
  simp only [clock, Scoreboard.observe, Scoreboard.request]
  split <;> [split; skip]
  all_goals rw [hans]; rfl

section Step
variable {c : CorAsp} {o : Address} {n k : Nat} {answered : List (Address × BitVec 16)} {v : Address → BitVec 16}

/-- The second operand has come: the product is formed, the sum waits. -/
theorem Summing.product (hstate : c.state = .S1) (hs : c.hasSendAvgDataRq = true) (h7 : n ≤ 7)
    (hk : Summing o n c answered v k) (y : BitVec 16) :
    c.avgDataMemAddr = o - 1 - BitVec.ofNat 10 k ∧
    c.correlation.toNat = correlation (Function.update v c.avgDataMemAddr y) o k ∧
    answered ++ [(c.avgDataMemAddr, y)] =
      answers (Function.update v c.avgDataMemAddr y) (schedule o k ++ [c.avgDataMemAddr]) ∧
    (c.multiplicandTemp.setWidth 32 * y.setWidth 32).toNat =
      (Function.update v c.avgDataMemAddr y (o + BitVec.ofNat 10 k)).toNat *
        (Function.update v c.avgDataMemAddr y c.avgDataMemAddr).toNat := by
  simp only [Summing, hstate] at hk
  obtain ⟨hlt, -, hsum, -, hans, hmul, haddr⟩ := hk
  have haddr := haddr hs
  have hfresh : c.avgDataMemAddr ∉ schedule o k := haddr ▸ below_not_mem_schedule o (by omega)
  have hov : o + BitVec.ofNat 10 k ≠ c.avgDataMemAddr := fun he =>
    hfresh (he ▸ above_mem_schedule o (Nat.le_refl k))
  refine ⟨haddr, hsum.trans (correlation_update hfresh).symm, ?_, ?_⟩
  · rw [answers_concat, answers_update hfresh, Function.update_self, hans]
  · have h1 := (v (o + BitVec.ofNat 10 k)).isLt
    have h2 := y.isLt
    have := Nat.mul_le_mul (Nat.le_sub_one_of_lt h1) (Nat.le_sub_one_of_lt h2)
    rw [Function.update_of_ne hov, Function.update_self, hmul, BitVec.toNat_mul,
      BitVec.toNat_setWidth, BitVec.toNat_setWidth,
      Nat.mod_eq_of_lt (show (v (o + BitVec.ofNat 10 k)).toNat < 2 ^ 32 by omega),
      Nat.mod_eq_of_lt (show y.toNat < 2 ^ 32 by omega), Nat.mod_eq_of_lt (by omega)]

/-- The answer after a product: the product is added, and the sum does not wrap. -/
theorem Summing.add (hstate : c.state = .S3) (hs : c.hasSendAvgDataRq = true) (h7 : n ≤ 7)
    (hk : Summing o n c answered v k) (y : BitVec 16) :
    c.avgDataMemAddr = o + BitVec.ofNat 10 (k + 1) ∧ c.counter.toNat = k + 1 ∧
    (c.correlation + c.correlationPairProduct.setWidth 36).toNat =
      correlation (Function.update v c.avgDataMemAddr y) o (k + 1) ∧
    answered ++ [(c.avgDataMemAddr, y)] =
      answers (Function.update v c.avgDataMemAddr y) (schedule o (k + 1)) := by
  simp only [Summing, hstate] at hk
  obtain ⟨hlt, -, hsum, hcnt, hans, hprod, haddr⟩ := hk
  have haddr := haddr hs
  have hfresh : c.avgDataMemAddr ∉ schedule o k ++ [o - 1 - BitVec.ofNat 10 k] :=
    haddr ▸ above_not_mem_schedule o (by omega)
  have hold : c.avgDataMemAddr ∉ schedule o k := fun hm => hfresh (List.mem_append_left _ hm)
  have hov : o + BitVec.ofNat 10 k ≠ c.avgDataMemAddr := fun he =>
    hold (he ▸ above_mem_schedule o (Nat.le_refl k))
  have hbel : o - 1 - BitVec.ofNat 10 k ≠ c.avgDataMemAddr := fun he =>
    hfresh (List.mem_append_right _ (he ▸ List.mem_singleton_self _))
  refine ⟨?_, hcnt, ?_, ?_⟩
  · rw [haddr, BitVec.ofNat_add, BitVec.add_assoc, BitVec.add_comm 1]; rfl
  · have hle := correlation_le v o k
    have h32 := c.correlationPairProduct.isLt
    rw [correlation_succ, correlation_update hold, Function.update_of_ne hov, Function.update_of_ne hbel,
      ← hprod, ← hsum, BitVec.toNat_add, BitVec.toNat_setWidth,
      Nat.mod_eq_of_lt (show c.correlationPairProduct.toNat < 2 ^ 36 by omega), Nat.mod_eq_of_lt (by omega)]
  · have hsched : schedule o (k + 1) = (schedule o k ++ [o - 1 - BitVec.ofNat 10 k]) ++ [c.avgDataMemAddr] := by
      rw [schedule_succ, haddr]; simp
    rw [hsched, answers_concat, answers_update hfresh, Function.update_self, hans]

/-- Nothing but the registers named in `Summing` matters. -/
theorem Summing.congr {c' : CorAsp} (hk : Summing o n c answered v k) (hstate : c'.state = c.state)
    (hor : c'.currentCorrOrigin = c.currentCorrOrigin) (hsum : c'.correlation = c.correlation)
    (hcnt : c'.counter = c.counter) (hmul : c'.multiplicandTemp = c.multiplicandTemp)
    (hprod : c'.correlationPairProduct = c.correlationPairProduct)
    (hhas : c'.hasSendAvgDataRq = c.hasSendAvgDataRq) (haddr : c'.avgDataMemAddr = c.avgDataMemAddr) :
    Summing o n c' answered v k := by
  simpa only [Summing, hstate, hor, hsum, hcnt, hmul, hprod, hhas, haddr] using hk

end Step

/-- An answer that finds the component outside `S1` to `S3` afterwards leaves no clause to prove. -/
theorem Inv.of_answer_s0 (h : x.Inv) (hr : x.OneAnswer recv) {a : Address} (hp : x.board.pending = some a)
    (hd : isAvgData recv.data = true) (hidle : (x.cor.clock recv).sendSignal = .idle)
    (hhas : (x.cor.clock recv).hasSendAvgDataRq = false) (hstate : (x.cor.clock recv).state = .S0) :
    (x.clock recv).Inv := by
  have hb := board_answer hp hd (by rw [hidle]; exact isData_zero _)
  refine ⟨h.hand.clock (fun hd => h.answer_hasSend hr hd), ?_, h.announced_clock, ?_, ?_⟩
  · show (x.clock recv).board.pending = if (x.cor.clock recv).hasSendAvgDataRq then _ else none
    rw [hb, hhas]; rfl
  · intro _ (hf : (x.cor.clock recv).hasSendAvgDataRq = true)
    rw [hhas] at hf; cases hf
  · intro hst; exact absurd hstate hst

theorem Inv.of_answer (h : x.Inv) (hr : x.OneAnswer recv) {a : Address} (hp : x.board.pending = some a)
    (hd : isAvgData recv.data = true) (hidle : (x.cor.clock recv).sendSignal = .idle)
    (hhas : (x.cor.clock recv).hasSendAvgDataRq = false)
    (hsum : x.board.steady = true → x.cor.correlationWindowSize = x.board.window → 1 ≤ x.board.pairs →
      x.board.pairs ≤ 7 → ∃ v k, Summing x.board.origin x.board.pairs (x.cor.clock recv)
        (x.board.answered ++ [(a, recv.data.slice 0 16)]) v k) :
    (x.clock recv).Inv := by
  have hb := board_answer hp hd (by rw [hidle]; exact isData_zero _)
  refine ⟨h.hand.clock (fun hd => h.answer_hasSend hr hd), ?_, h.announced_clock, ?_, ?_⟩
  · show (x.clock recv).board.pending = if (x.cor.clock recv).hasSendAvgDataRq then _ else none
    rw [hb, hhas]; rfl
  · intro _ (hf : (x.cor.clock recv).hasSendAvgDataRq = true)
    rw [hhas] at hf; cases hf
  · intro _ hsteady h1 h7
    rw [hb] at hsteady h1 h7 ⊢
    obtain ⟨hs1, hs2⟩ := Bool.and_eq_true_iff.1 hsteady
    exact hsum hs1 (beq_iff_eq.1 hs2) h1 h7

theorem Inv.of_quiet (h : x.Inv) (hr : x.OneAnswer recv) (hd : isAvgData recv.data = false)
    (hq : isAvgRequest (x.cor.clock recv).sendSignal.data = false)
    (hhas : (x.cor.clock recv).hasSendAvgDataRq = x.cor.hasSendAvgDataRq)
    (haddr : x.cor.hasSendAvgDataRq = true → (x.cor.clock recv).avgDataMemAddr = x.cor.avgDataMemAddr)
    (hstate : x.cor.hasSendAvgDataRq = true → (x.cor.clock recv).state = x.cor.state)
    (hsum : (x.cor.clock recv).state ≠ .S0 → x.board.steady = true → 1 ≤ x.board.pairs → x.board.pairs ≤ 7 →
      ∃ v k, Summing x.board.origin x.board.pairs (x.cor.clock recv) x.board.answered v k) :
    (x.clock recv).Inv := by
  have hb := board_quiet hd hq
  refine ⟨h.hand.clock (fun hd => h.answer_hasSend hr hd), ?_, h.announced_clock, ?_, ?_⟩
  · show (x.clock recv).board.pending =
      if (x.cor.clock recv).hasSendAvgDataRq then some (x.cor.clock recv).avgDataMemAddr else none
    rw [hb, hhas, h.pending]
    split
    case isTrue hs => rw [haddr hs]
    case isFalse => rfl
  · intro (h0 : (x.cor.clock recv).state = .S0) (hs : (x.cor.clock recv).hasSendAvgDataRq = true)
    rw [hhas] at hs
    rw [hstate hs] at h0
    rw [hb]
    obtain ⟨hnil, heq⟩ := h.first h0 hs
    exact ⟨hnil, (haddr hs).trans heq⟩
  · intro hst hsteady h1 h7
    rw [hb] at hsteady h1 h7 ⊢
    exact hsum hst (Bool.and_eq_true_iff.1 hsteady).1 h1 h7

/-- A request made in the middle of a correlation is for the next address. -/
theorem Summing.request {c : CorAsp} {o : Address} {n k : Nat} {answered : List (Address × BitVec 16)}
    {v : Address → BitVec 16} {newest : Address} (hk : Summing o n c answered v k) (h0 : c.state ≠ .S0)
    (h2 : c.state ≠ .S2) {c' : CorAsp} (hstate : c'.state = c.state)
    (hor : c'.currentCorrOrigin = c.currentCorrOrigin) (hsum : c'.correlation = c.correlation)
    (hcnt : c'.counter = c.counter) (hmul : c'.multiplicandTemp = c.multiplicandTemp)
    (hprod : c'.correlationPairProduct = c.correlationPairProduct) (haddr : c'.avgDataMemAddr = c.nextAddr newest) :
    Summing o n c' answered v k := by
  cases hst : c.state with
  | S0 => exact absurd hst h0
  | S2 => exact absurd hst h2
  | S1 =>
    simp only [Summing, hst] at hk
    obtain ⟨hlt, ho, hs, hc, hans, hm, -⟩ := hk
    rw [CorAsp.nextAddr, hst] at haddr
    simp only [Summing, hstate, hst, hor, hsum, hcnt, hmul]
    refine ⟨hlt, ho, hs, hc, hans, hm, fun _ => ?_⟩
    rw [haddr, ho, hc]; exact sub_right_comm ..
  | S3 =>
    simp only [Summing, hst] at hk
    obtain ⟨hlt, ho, hs, hc, hans, hp, -⟩ := hk
    rw [CorAsp.nextAddr, hst] at haddr
    simp only [Summing, hstate, hst, hor, hsum, hcnt, hprod]
    refine ⟨hlt, ho, hs, hc, hans, hp, fun _ => ?_⟩
    rw [haddr, ho, hc, BitVec.ofNat_add, BitVec.add_assoc, BitVec.add_comm 1]; rfl

section Clock
variable {c : CorAsp} {o : Address} {n k : Nat} {answered : List (Address × BitVec 16)} {v : Address → BitVec 16}

theorem Summing.clock_wait (hand : c.Handshake) (hs : c.hasSendAvgDataRq = true) (hd : isAvgData recv.data = false)
    (hk : Summing o n c answered v k) : Summing o n (c.clock recv) answered v k := by
  rw [hand.clock_wait hs hd]
  exact hk.congr rfl rfl rfl rfl rfl rfl rfl rfl

/-- A correlation starts with the answer to the request for the origin. -/
theorem Summing.clock_start (hand : c.Handshake) (hs : c.hasSendAvgDataRq = true) (hd : isAvgData recv.data = true)
    (hstate : c.state = .S0) (hc : c.calculate = true) (h1 : 1 ≤ n) (haddr : c.avgDataMemAddr = o) :
    Summing o n (c.clock recv) [(o, recv.data.slice 0 16)] (fun _ => recv.data.slice 0 16) 0 := by
  rw [hand.clock_answer_start hs hd hstate hc]
  exact ⟨h1, haddr, rfl, rfl, rfl, rfl, fun hf => by cases hf⟩

theorem Summing.clock_product (hand : c.Handshake) (hs : c.hasSendAvgDataRq = true) (hd : isAvgData recv.data = true)
    (hstate : c.state = .S1) (h7 : n ≤ 7) (hk : Summing o n c answered v k) :
    Summing o n (c.clock recv) (answered ++ [(c.avgDataMemAddr, recv.data.slice 0 16)])
      (Function.update v c.avgDataMemAddr (recv.data.slice 0 16)) k := by
  obtain ⟨haddr, hsum, hans, hmul⟩ := hk.product hstate hs h7 (recv.data.slice 0 16)
  have hcnt : c.counter.toNat = k := by simp only [Summing, hstate] at hk; exact hk.2.2.2.1
  rw [hand.clock_answer_s1 hs hd hstate]
  refine ⟨hk.1, hk.2.1, hsum, hcnt, ?_, ?_⟩
  · rw [← haddr]; exact hans
  · rw [← haddr]; exact hmul

theorem Summing.clock_next (hand : c.Handshake) (hs : c.hasSendAvgDataRq = true) (hd : isAvgData recv.data = true)
    (hstate : c.state = .S3) (hn : c.counter.toNat < c.correlationWindowSize / 2) (h7 : n ≤ 7) (hlt : k + 1 < n)
    (hk : Summing o n c answered v k) :
    Summing o n (c.clock recv) (answered ++ [(c.avgDataMemAddr, recv.data.slice 0 16)])
      (Function.update v c.avgDataMemAddr (recv.data.slice 0 16)) (k + 1) := by
  obtain ⟨haddr, hcnt, hsum, hans⟩ := hk.add hstate hs h7 (recv.data.slice 0 16)
  rw [hand.clock_answer_s3 hs hd hstate hn]
  refine ⟨hlt, hk.2.1, hsum, hcnt, hans, ?_, fun hf => by cases hf⟩
  rw [haddr, Function.update_self]

theorem Summing.clock_s2 (hand : c.Handshake) (hs : c.hasSendAvgDataRq = false) (hd : isAvgData recv.data = false)
    (hstate : c.state = .S2) (h7 : n ≤ 7) (hk : Summing o n c answered v k) :
    Summing o n (c.clock recv) answered v k := by
  simp only [Summing, hstate] at hk
  obtain ⟨hlt, hor, hsum, hcnt, hans, hprod⟩ := hk
  rw [hand.clock_s2 hd hstate]
  refine ⟨hlt, hor, hsum, ?_, hans, hprod, fun hf => by rw [hs] at hf; cases hf⟩
  rw [BitVec.toNat_add, hcnt]; simp; omega

theorem Summing.clock_request (hand : c.Handshake) (hs : c.hasSendAvgDataRq = false)
    (hd : isAvgData recv.data = false) (h2 : c.correlationSecondHalf = false) (h0 : c.state ≠ .S0)
    (hstate : c.state ≠ .S2) (hk : Summing o n c answered v k) : Summing o n (c.clock recv) answered v k := by
  rw [hand.clock_request hs hd h2 hstate]
  exact hk.request h0 hstate rfl rfl rfl rfl rfl rfl rfl

end Clock

/-- A clock that sends a request: the first one, in `S0`, opens the board for a new correlation. -/
theorem Inv.of_request (h : x.Inv) (hr : x.OneAnswer recv) (hs : x.cor.hasSendAvgDataRq = false)
    (hd : isAvgData recv.data = false) (h2 : x.cor.correlationSecondHalf = false) (hstate : x.cor.state ≠ .S2) :
    (x.clock recv).Inv := by
  have hc := h.hand.clock_request hs hd h2 hstate
  have hb := board_request hd (show (x.cor.clock recv).sendSignal = _ by rw [hc])
  refine ⟨h.hand.clock (fun hd => h.answer_hasSend hr hd), ?_, h.announced_clock, ?_, ?_⟩
  · show (x.clock recv).board.pending =
      if (x.cor.clock recv).hasSendAvgDataRq then some (x.cor.clock recv).avgDataMemAddr else none
    rw [hb, hc]; split <;> rfl
  · intro (h0 : (x.cor.clock recv).state = .S0) _
    have h0' : x.cor.state = .S0 := by rw [hc] at h0; exact h0
    rw [hb, if_pos h0']
    refine ⟨rfl, ?_⟩
    show (x.cor.clock recv).avgDataMemAddr = _
    rw [h.hear_announced, hc]; simp [CorAsp.nextAddr, h0']
  · intro (hst : (x.cor.clock recv).state ≠ .S0)
    have h0 : x.cor.state ≠ .S0 := by rw [hc] at hst; exact hst
    rw [hb, if_neg h0]
    intro hsteady h1 h7
    obtain ⟨v, k, hk⟩ := h.summing h0 (Bool.and_eq_true_iff.1 hsteady).1 h1 h7
    refine ⟨v, k, ?_⟩
    exact hk.clock_request h.hand hs hd h2 h0 hstate

theorem Inv.clock (h : x.Inv) (hr : x.OneAnswer recv) : (x.clock recv).Inv := by
  have hp := h.pending
  cases h.hand.kind (fun hd => h.answer_hasSend hr hd) with
  | wait hs hd =>
    have hc := h.hand.clock_wait hs hd
    refine h.of_quiet hr hd (by rw [hc]; exact isData_zero _) (by rw [hc]) (by rw [hc]; simp) (by rw [hc]; simp) ?_
    intro hst hsteady h1 h7
    rw [hc] at hst
    obtain ⟨v, k, hk⟩ := h.summing hst hsteady h1 h7
    exact ⟨v, k, hk.clock_wait h.hand hs hd⟩
  | dropped hs hd hstate hcalc =>
    have hc := h.hand.clock_answer_s0 hs hd hstate hcalc
    rw [hs, if_pos rfl] at hp
    exact h.of_answer_s0 hr hp hd (by rw [hc]) (by rw [hc]) (by rw [hc]; exact hstate)
  | finish hs hd hstate hn =>
    have hc := h.hand.clock_answer_finish hs hd hstate hn
    rw [hs, if_pos rfl] at hp
    exact h.of_answer_s0 hr hp hd (by rw [hc]) (by rw [hc]) (by rw [hc])
  | start hs hd hstate hcalc =>
    have hc := h.hand.clock_answer_start hs hd hstate hcalc
    rw [hs, if_pos rfl] at hp
    refine h.of_answer hr hp hd (by rw [hc]) (by rw [hc]) fun _ _ h1 _ => ?_
    obtain ⟨hnil, haddr⟩ := h.first hstate hs
    rw [origin_eq_of_window x.board h1] at haddr
    rw [hnil, haddr]
    exact ⟨_, 0, Summing.clock_start h.hand hs hd hstate hcalc h1 haddr⟩
  | product hs hd hstate =>
    have hc := h.hand.clock_answer_s1 hs hd hstate
    rw [hs, if_pos rfl] at hp
    refine h.of_answer hr hp hd (by rw [hc]) (by rw [hc]) fun hsteady _ h1 h7 => ?_
    obtain ⟨v, k, hk⟩ := h.summing (by simp [hstate]) hsteady h1 h7
    exact ⟨_, k, hk.clock_product h.hand hs hd hstate h7⟩
  | next hs hd hstate hn =>
    have hc := h.hand.clock_answer_s3 hs hd hstate hn
    rw [hs, if_pos rfl] at hp
    refine h.of_answer hr hp hd (by rw [hc]) (by rw [hc]) fun hsteady hw h1 h7 => ?_
    obtain ⟨v, k, hk⟩ := h.summing (by simp [hstate]) hsteady h1 h7
    obtain ⟨-, hcnt, -⟩ := hk.add hstate hs h7 (recv.data.slice 0 16)
    have hlt : k + 1 < x.board.pairs := by rw [Scoreboard.pairs, ← hw, ← hcnt]; exact hn
    exact ⟨_, k + 1, hk.clock_next h.hand hs hd hstate hn h7 hlt⟩
  | half hs hd h2 =>
    have hc := h.hand.clock_half hs hd h2
    refine h.of_quiet hr hd (by rw [hc]; simp only; split <;> simp) (by rw [hc]) (by simp [hs]) (by simp [hs]) ?_
    intro hst
    rw [hc] at hst
    exact absurd (h.hand.second h2) hst
  | s2 hs hd hstate =>
    have hc := h.hand.clock_s2 hd hstate
    refine h.of_quiet hr hd (by rw [hc]; exact isData_zero _) (by rw [hc]) (by simp [hs]) (by simp [hs]) ?_
    intro _ hsteady h1 h7
    obtain ⟨v, k, hk⟩ := h.summing (by simp [hstate]) hsteady h1 h7
    exact ⟨v, k, hk.clock_s2 h.hand hs hd hstate h7⟩
  | request hs hd h2 hstate => exact h.of_request hr hs hd h2 hstate

theorem inv_run {recvs : List TdmaMinPort} (h : machine.Along OneAnswer recvs) : (machine.run recvs).Inv :=
  Machine.invariant Inv.init (fun _ _ h hr => h.clock hr) h

/-- A correlation in progress has asked for a beginning of the schedule, and its last answer is still to
come. -/
theorem Summing.schedule_prefix {c : CorAsp} {o : Address} {n k : Nat} {answered : List (Address × BitVec 16)}
    {v : Address → BitVec 16} (hk : Summing o n c answered v k)
    (h2 : c.state = .S2 → c.hasSendAvgDataRq = false) :
    answered.map Prod.fst ++ (if c.hasSendAvgDataRq then [c.avgDataMemAddr] else []) <+: schedule o n ∧
      answered.length < 2 * n + 1 := by
  have hfst : ∀ l, (answers v l).map Prod.fst = l := fun l => by
    simp only [answers, List.map_map, Function.comp_def, List.map_id']
  have hlen : ∀ l, (answers v l).length = l.length := fun l => by simp [answers]
  have hpre : schedule o k ++ [o - 1 - BitVec.ofNat 10 k, o + 1 + BitVec.ofNat 10 k] <+: schedule o n := by
    rw [← schedule_succ]; exact Window.schedule_prefix o hk.1
  have hlt := hk.1
  have hsched := schedule_length o k
  obtain ⟨-, -, -, hk⟩ := hk
  cases hst : c.state with
  | S0 => simp only [hst] at hk
  | S1 =>
    simp only [hst] at hk
    obtain ⟨-, hans, -, haddr⟩ := hk
    rw [hans, hfst, hlen]
    refine ⟨List.IsPrefix.trans ?_ hpre, by omega⟩
    split
    case isTrue hs => rw [haddr hs]; exact ⟨[o + 1 + BitVec.ofNat 10 k], by simp⟩
    case isFalse => rw [List.append_nil]; exact List.prefix_append ..
  | S2 =>
    simp only [hst] at hk
    obtain ⟨-, hans, -⟩ := hk
    rw [hans, hfst, hlen, h2 hst, List.length_append]
    refine ⟨List.IsPrefix.trans ?_ hpre, by simp; omega⟩
    exact ⟨[o + 1 + BitVec.ofNat 10 k], by simp⟩
  | S3 =>
    simp only [hst] at hk
    obtain ⟨-, hans, -, haddr⟩ := hk
    rw [hans, hfst, hlen, List.length_append]
    refine ⟨List.IsPrefix.trans ?_ hpre, by simp; omega⟩
    split
    case isTrue hs => rw [haddr hs]; simp
    case isFalse => exact ⟨[o + 1 + BitVec.ofNat 10 k], by simp⟩

end CorBench

/-- The window size was one of 2, 4, 8, 15 when the first request was computed, and has stayed that. -/
def Scoreboard.InWindow (b : Scoreboard) : Prop := b.steady = true ∧ b.window ∈ [2, 4, 8, 15]

instance (b : Scoreboard) : Decidable b.InWindow := inferInstanceAs (Decidable (_ ∧ _))

theorem Scoreboard.InWindow.pairs {b : Scoreboard} (h : b.InWindow) : 1 ≤ b.pairs ∧ b.pairs ≤ 7 := by
  obtain ⟨-, hw⟩ := h
  simp only [List.mem_cons, List.not_mem_nil, or_false] at hw
  unfold Scoreboard.pairs
  omega

namespace CorBench
variable {x : CorBench} {recv : TdmaMinPort}

def Completes (x : CorBench) (recv : TdmaMinPort) : Prop :=
  x.cor.state = .S3 ∧ (x.cor.clock recv).state = .S0

instance (x : CorBench) (recv : TdmaMinPort) : Decidable (x.Completes recv) := inferInstanceAs (Decidable (_ ∧ _))

/-- A correlation completes with an answer that finds the counter at the number of pairs. -/
theorem Inv.finish (h : x.Inv) (hr : x.OneAnswer recv) (hdone : x.Completes recv) :
    x.cor.hasSendAvgDataRq = true ∧ isAvgData recv.data = true ∧
      x.cor.correlationWindowSize / 2 ≤ x.cor.counter.toNat := by
  obtain ⟨hst, hst'⟩ := hdone
  cases h.hand.kind (fun hd => h.answer_hasSend hr hd) with
  | wait hs hd => rw [h.hand.clock_wait hs hd, hst] at hst'; cases hst'
  | dropped hs hd hstate hcalc => rw [hst] at hstate; cases hstate
  | start hs hd hstate hcalc => rw [hst] at hstate; cases hstate
  | product hs hd hstate => rw [hst] at hstate; cases hstate
  | next hs hd hstate hn => rw [h.hand.clock_answer_s3 hs hd hstate hn] at hst'; cases hst'
  | half hs hd h2 => rw [h.hand.second h2] at hst; cases hst
  | s2 hs hd hstate => rw [hst] at hstate; cases hstate
  | request hs hd h2 hstate => rw [h.hand.clock_request hs hd h2 hstate, hst] at hst'; cases hst'
  | finish hs hd hstate hn => exact ⟨hs, hd, hn⟩

/-- At completion every request of the schedule has been answered and the sum is the correlation. -/
theorem Inv.completes (h : x.Inv) (hr : x.OneAnswer recv) (hdone : x.Completes recv)
    (hw : (x.clock recv).board.InWindow) : ∃ v, (x.clock recv).board.answered =
      answers v (schedule (x.clock recv).board.origin (x.clock recv).board.pairs) ∧
    (x.cor.clock recv).correlation.toNat =
      correlation v (x.clock recv).board.origin (x.clock recv).board.pairs := by
  obtain ⟨hs, hd, hn⟩ := h.finish hr hdone
  have hp := h.pending
  rw [hs, if_pos rfl] at hp
  have hc := h.hand.clock_answer_finish hs hd hdone.1 hn
  have hb := board_answer hp hd (by rw [hc]; exact isData_zero _)
  rw [hb] at hw ⊢
  obtain ⟨h1, h7⟩ := hw.pairs
  obtain ⟨hsteady, hwin⟩ := Bool.and_eq_true_iff.1 hw.1
  obtain ⟨v, k, hk⟩ := h.summing (by simp [hdone.1]) hsteady h1 h7
  obtain ⟨-, hcnt, hsum, hans⟩ := hk.add hdone.1 hs h7 (recv.data.slice 0 16)
  -- the counter has reached the number of pairs and not passed it
  have hkn : k + 1 = x.board.pairs := by
    have hlt := hk.1
    have : x.board.pairs ≤ k + 1 := by rw [Scoreboard.pairs, ← beq_iff_eq.1 hwin, ← hcnt]; exact hn
    omega
  rw [hkn] at hsum hans
  refine ⟨_, hans, ?_⟩
  rw [hc]; exact hsum

theorem Inv.halves (h : x.Inv) (hr : x.OneAnswer recv) (hdone : x.Completes recv) {r1 r2 : TdmaMinPort}
    (hr1 : (x.clock recv).OneAnswer r1) (hr2 : ((x.clock recv).clock r1).OneAnswer r2) :
    ((x.clock recv).clock r1).cor.sendSignal = CorAsp.halfPacket false ((x.cor.clock recv).correlation.slice 18 18) ∧
    (((x.clock recv).clock r1).clock r2).cor.sendSignal =
      CorAsp.halfPacket true ((x.cor.clock recv).correlation.slice 0 18) := by
  have h1 := h.clock hr
  have h2 := h1.clock hr1
  have hflags : (x.cor.clock recv).correlationFirstHalf = true ∧ (x.cor.clock recv).correlationSecondHalf = true ∧
      (x.cor.clock recv).hasSendAvgDataRq = false := by
    obtain ⟨hs, hd, hn⟩ := h.finish hr hdone
    rw [h.hand.clock_answer_finish hs hd hdone.1 hn]
    exact ⟨rfl, rfl, rfl⟩
  obtain ⟨hf, h2f, hhas⟩ := hflags
  have hd1 : isAvgData r1.data = false := by
    by_contra hd
    have : (x.cor.clock recv).hasSendAvgDataRq = true := h1.answer_hasSend hr1 (by simpa using hd)
    rw [hhas] at this; cases this
  have hc1 := h1.hand.clock_half hhas hd1 h2f
  have hhas1 : ((x.clock recv).clock r1).cor.hasSendAvgDataRq = false := by
    show ((x.clock recv).cor.clock r1).hasSendAvgDataRq = false
    rw [hc1]; exact hhas
  have hd2 : isAvgData r2.data = false := by
    by_contra hd
    rw [h2.answer_hasSend hr2 (by simpa using hd)] at hhas1; cases hhas1
  have h2f1 : ((x.clock recv).clock r1).cor.correlationSecondHalf = true := by
    show ((x.clock recv).cor.clock r1).correlationSecondHalf = true
    rw [hc1]; exact hf
  have hc2 := h2.hand.clock_half hhas1 hd2 h2f1
  have hf' : (x.clock recv).cor.correlationFirstHalf = true := hf
  constructor
  · show ((x.clock recv).cor.clock r1).sendSignal = _
    rw [hc1, hf']; rfl
  · show (((x.clock recv).clock r1).cor.clock r2).sendSignal = _
    rw [hc2]
    show (if ((x.clock recv).cor.clock r1).correlationFirstHalf = true then _
      else CorAsp.halfPacket true (((x.clock recv).cor.clock r1).correlation.slice 0 18)) = _
    rw [hc1]; rfl

theorem toNat_halves (c : BitVec 36) : (c.slice 18 18).toNat * 2 ^ 18 + (c.slice 0 18).toNat = c.toNat := by
  simp only [BitVec.slice, BitVec.extractLsb'_toNat, Nat.shiftRight_eq_div_pow]
  have := c.isLt
  omega

/-- CorAsp computes the windowed correlation whatever the response delays. While a correlation is in
progress, the requests made for it are a beginning of `o, o-1, o+1, …, o-n, o+n` with its last answer still
to come; when it completes, all of them have been made and answered, and the two halves sent in the next
two clocks, the high one first, are those of the correlation of the answers. -/
theorem correlation_window {recvs : List TdmaMinPort} {recv r1 r2 : TdmaMinPort}
    (h : machine.Along OneAnswer (recvs ++ [recv, r1, r2])) :
    let x := machine.run recvs
    let b := x.board
    let b' := (x.clock recv).board
    (x.cor.state ≠ .S0 → b.InWindow →
      b.answered.map Prod.fst ++ b.pending.toList <+: schedule b.origin b.pairs ∧
      b.answered.length < 2 * b.pairs + 1) ∧
    (x.Completes recv → b'.InWindow → ∃ v hi lo,
      b'.answered = answers v (schedule b'.origin b'.pairs) ∧
      (machine.run (recvs ++ [recv, r1])).cor.sendSignal = CorAsp.halfPacket false hi ∧
      (machine.run (recvs ++ [recv, r1, r2])).cor.sendSignal = CorAsp.halfPacket true lo ∧
      hi.toNat * 2 ^ 18 + lo.toNat = correlation v b'.origin b'.pairs) := by
  obtain ⟨hpre, hr, hr1, hr2, -⟩ := (Machine.along_append ..).1 h
  have hinv := inv_run hpre
  refine ⟨fun hst hw => ?_, fun hdone hw => ?_⟩
  · obtain ⟨h1, h7⟩ := hw.pairs
    obtain ⟨v, k, hk⟩ := hinv.summing hst hw.1 h1 h7
    have h2 : (machine.run recvs).cor.state = .S2 → (machine.run recvs).cor.hasSendAvgDataRq = false := fun h2 => by
      by_contra hs
      exact (hinv.hand.waiting (by simpa using hs)).2.2.2 h2
    have hp := hk.schedule_prefix h2
    rw [hinv.pending]
    refine ⟨?_, hp.2⟩
    convert hp.1 using 2
    split <;> rfl
  · obtain ⟨v, hans, hsum⟩ := hinv.completes hr hdone hw
    obtain ⟨hfirst, hsecond⟩ := hinv.halves hr hdone hr1 hr2
    refine ⟨v, ((machine.run recvs).cor.clock recv).correlation.slice 18 18,
      ((machine.run recvs).cor.clock recv).correlation.slice 0 18, hans, ?_, ?_, ?_⟩
    · rw [Machine.run_append]; exact hfirst
    · rw [Machine.run_append]; exact hsecond
    · rw [← hsum]
      exact toNat_halves _

/-- Averages `d` with the trigger bit `t`. -/
def averagePacket (t : Bool) (d : BitVec 16) : TdmaMinPort :=
  ⟨3, ((dataWord 0b0011#4).setSlice 16 (BitVec.ofBool t)).setSlice 0 d⟩

/-- The power-on window of two pairs, triggered at once; the answers take up to three clocks. -/
def exampleRecvs : List TdmaMinPort :=
  [.idle, averagePacket true 1, .idle, averagePacket false 3, .idle, .idle, averagePacket false 5, .idle, .idle,
    averagePacket false 7, .idle, .idle, .idle, averagePacket false 11, .idle, .idle]

theorem correlation_window_two : ∃ v hi lo,
    (machine.run (exampleRecvs ++ [averagePacket false 13])).board.answered = answers v (schedule 1023 2) ∧
    (machine.run (exampleRecvs ++ [averagePacket false 13, .idle])).cor.sendSignal = CorAsp.halfPacket false hi ∧
    (machine.run (exampleRecvs ++ [averagePacket false 13, .idle, .idle])).cor.sendSignal = CorAsp.halfPacket true lo ∧
    hi.toNat * 2 ^ 18 + lo.toNat = correlation v 1023 2 :=
  (@correlation_window exampleRecvs (averagePacket false 13) .idle .idle (by decide +kernel)).2 (by decide +kernel)
    (by decide +kernel)

end CorBench
end TdmaSoc
