import TdmaSoc.Asp.Reconfigure

/-!
# The addresses of CorAsp

Every conversion of an integer to an address, and the addresses whose data enter a product, for any words received.
`Move` is what the state machine can do on any words; an answer is taken to be for the address of the last request,
whether one is out or not.
-/

namespace TdmaSoc
open Window

namespace CorAsp

/-- What the state machine makes of the signals `s` and the variables `v`. -/
inductive Move (s v : CorAsp) : CorAsp → Prop
  | wait (hstate : s.state ≠ .S2) (hj : v.justRecvAvgData = false) (hs : v.hasSendAvgDataRq = true) : Move s v v
  | request (hstate : s.state ≠ .S2) (hj : v.justRecvAvgData = false) (hs : v.hasSendAvgDataRq = false) :
    Move s v { v with avgDataMemAddr := s.nextAddr v.newestAvgDataAddr, sendAvgDataRq := true }
  | dropped (hstate : s.state = .S0) (hj : v.justRecvAvgData = true) (hc : s.calculate = false) :
    Move s v { v with
      justRecvAvgData := false
      hasSendAvgDataRq := false
      correlationRdy := false
      correlationPairProduct := 0
      counter := 0
      multiplicandTemp := 0 }
  | start (hstate : s.state = .S0) (hj : v.justRecvAvgData = true) (hc : s.calculate = true) :
    Move s v { v with
      justRecvAvgData := false
      hasSendAvgDataRq := false
      correlationRdy := false
      correlationPairProduct := 0
      counter := 0
      calculate := false
      correlation := 0
      multiplicandTemp := v.avgData
      currentCorrOrigin := v.avgDataMemAddr
      state := .S1 }
  | product (hstate : s.state = .S1) (hj : v.justRecvAvgData = true) :
    Move s v { v with
      justRecvAvgData := false
      hasSendAvgDataRq := false
      correlationPairProduct := s.multiplicandTemp.setWidth 32 * v.avgData.setWidth 32
      correlationRdy := false
      state := .S2 }
  | s2 (hstate : s.state = .S2) : Move s v { v with counter := s.counter + 1, state := .S3 }
  | finish (hstate : s.state = .S3) (hj : v.justRecvAvgData = true)
    (hn : s.counter.toNat ≥ s.correlationWindowSize / 2) :
    Move s v { v with
      justRecvAvgData := false
      hasSendAvgDataRq := false
      correlation := s.correlation + s.correlationPairProduct.setWidth 36
      correlationPairProduct := 0
      counter := 0
      correlationRdy := true
      state := .S0
      correlationFirstHalf := true
      correlationSecondHalf := true }
  | next (hstate : s.state = .S3) (hj : v.justRecvAvgData = true)
    (hn : ¬s.counter.toNat ≥ s.correlationWindowSize / 2) :
    Move s v { v with
      justRecvAvgData := false
      hasSendAvgDataRq := false
      correlation := s.correlation + s.correlationPairProduct.setWidth 36
      correlationPairProduct := 0
      multiplicandTemp := v.avgData
      correlationRdy := false
      state := .S1 }

theorem move_waiting {s v : CorAsp} (hstate : s.state ≠ .S2) (hj : v.justRecvAvgData = false) :
    Move s v (s.fsm v) := by
  cases hs : v.hasSendAvgDataRq with
  | true =>
    have heq : s.fsm v = v := by
      cases hst : s.state
      case S2 => exact absurd hst hstate
      all_goals simp [fsm, hst, hj, hs]
    rw [heq]
    exact .wait hstate hj hs
  | false =>
    have heq : s.fsm v = { v with avgDataMemAddr := s.nextAddr v.newestAvgDataAddr, sendAvgDataRq := true } := by
      cases hst : s.state
      case S2 => exact absurd hst hstate
      all_goals simp [fsm, nextAddr, hst, hj, hs]
    rw [heq]
    exact .request hstate hj hs

theorem move (s v : CorAsp) : Move s v (s.fsm v) := by
  cases hst : s.state with
  | S2 =>
    rw [fsm, hst]
    exact .s2 hst
  | S0 =>
    cases hj : v.justRecvAvgData with
    | false => exact move_waiting (by simp [hst]) hj
    | true =>
      cases hc : s.calculate with
      | false =>
        simp only [fsm, hst, hj, hc]
        exact .dropped hst hj hc
      | true =>
        simp only [fsm, hst, hj, hc]
        exact .start hst hj hc
  | S1 =>
    cases hj : v.justRecvAvgData with
    | false => exact move_waiting (by simp [hst]) hj
    | true =>
      simp only [fsm, hst, hj]
      exact .product hst hj
  | S3 =>
    cases hj : v.justRecvAvgData with
    | false => exact move_waiting (by simp [hst]) hj
    | true =>
      by_cases hn : s.counter.toNat ≥ s.correlationWindowSize / 2
      · simp only [fsm, hst, hj, if_pos hn]
        exact .finish hst hj hn
      · simp only [fsm, hst, hj, if_neg hn]
        exact .next hst hj hn

section Flags
variable {s : CorAsp} {recv : TdmaMinPort}

/-- The answer that is taken in this clock, if there is one: `S2` leaves the one it receives to `S3`. -/
def takes (s : CorAsp) (recv : TdmaMinPort) : Bool := (s.decode recv).justRecvAvgData

def computesOrigin (s : CorAsp) (recv : TdmaMinPort) : Bool :=
  decide (s.state = .S0) && !s.takes recv && !s.hasSendAvgDataRq

def starts (s : CorAsp) (recv : TdmaMinPort) : Bool := decide (s.state = .S0) && s.takes recv && s.calculate

/-- The flags between two clocks, whatever is received. -/
structure Flags (s : CorAsp) : Prop where
  first : s.correlationFirstHalf = true →
    s.correlationSecondHalf = true ∧ s.sendAvgDataRq = false ∧ s.hasSendAvgDataRq = false
  second : s.correlationSecondHalf = true → s.state = .S0
  rq : s.sendAvgDataRq = true → s.state = .S0 ∨ s.state = .S1

theorem Flags.init : CorAsp.init.Flags := ⟨by decide, by decide, by decide⟩

theorem Flags.quiet (h : s.Flags) (h0 : s.state ≠ .S0) :
    s.correlationFirstHalf = false ∧ s.correlationSecondHalf = false := by
  have h2 : s.correlationSecondHalf = false := by
    by_contra h2
    exact h0 (h.second (by simpa using h2))
  refine ⟨?_, h2⟩
  by_contra hf
  rw [(h.first (by simpa using hf)).1] at h2
  cases h2

theorem Flags.no_rq (h : s.Flags) (h0 : s.state ≠ .S0) (h1 : s.state ≠ .S1) : s.sendAvgDataRq = false := by
  by_contra hrq
  exact (h.rq (by simpa using hrq)).elim h0 h1

theorem Flags.clock (h : s.Flags)
    (hstart : s.starts recv = true → s.sendAvgDataRq = true ∨ s.hasSendAvgDataRq = true) :
    (s.clock recv).Flags := by
  have hm := move s (s.decode recv)
  rw [CorAsp.clock]
  generalize s.fsm (s.decode recv) = v at hm ⊢
  rw [send_kept]
  cases hm with
  | wait hstate hj hs =>
    rw [decode_kept]
    refine ⟨by simp, ?_, ?_⟩
    · exact fun h2 => h.second (Bool.and_eq_true_iff.1 h2).1
    · exact fun hrq => h.rq (Bool.and_eq_true_iff.1 hrq).1
  | request hstate hj hs =>
    rw [decode_kept] at hs ⊢
    refine ⟨by simp, ?_, ?_⟩
    · exact fun h2 => h.second (Bool.and_eq_true_iff.1 h2).1
    · intro hrq
      by_cases h0 : s.state = .S0
      · exact .inl h0
      · simp [h.quiet h0, show s.hasSendAvgDataRq = false from hs] at hrq
  | dropped hstate hj hc =>
    rw [decode_kept]
    exact ⟨by simp, fun _ => hstate, fun _ => .inl hstate⟩
  | start hstate hj hc =>
    have hb := hstart (by simp [starts, takes, hstate, hj, hc])
    have hf : s.correlationFirstHalf = false := by
      by_contra hf
      obtain ⟨-, h1, h2⟩ := h.first (by simpa using hf)
      simp [h1, h2] at hb
    rw [decode_kept]
    exact ⟨by simp, by simp [hf], fun _ => .inr rfl⟩
  | product hstate hj =>
    obtain ⟨hf, h2⟩ := h.quiet (by simp [hstate])
    rw [decode_kept]
    exact ⟨by simp, by simp [hf, h2], by simp [hf, h2]⟩
  | s2 hstate =>
    obtain ⟨hf, h2⟩ := h.quiet (by simp [hstate])
    have hrq := h.no_rq (by simp [hstate]) (by simp [hstate])
    rw [decode_kept]
    exact ⟨by simp, by simp [hf, h2], by simp [hrq]⟩
  | finish hstate hj hn =>
    obtain ⟨hf, h2⟩ := h.quiet (by simp [hstate])
    have hrq := h.no_rq (by simp [hstate]) (by simp [hstate])
    rw [decode_kept]
    exact ⟨by simp [hf, h2, hrq], by simp, by simp⟩
  | next hstate hj hn =>
    obtain ⟨hf, h2⟩ := h.quiet (by simp [hstate])
    have hrq := h.no_rq (by simp [hstate]) (by simp [hstate])
    rw [decode_kept]
    exact ⟨by simp, by simp [hf, h2], by simp [hrq]⟩

/-- The argument of the `to_unsigned` conversion that is made in this clock. -/
def conversion (s : CorAsp) (recv : TdmaMinPort) : Option Int :=
  if s.takes recv || s.hasSendAvgDataRq then none
  else
    match s.state with
    | .S0 => some (originOffset s.correlationWindowSize)
    | .S2 => none
    | _ => some s.counter.toNat

def compares (s : CorAsp) (recv : TdmaMinPort) : Bool := decide (s.state = .S3) && s.takes recv

end Flags
end CorAsp

/-- An average with the address it is for. -/
abbrev Fetched := Address × BitVec 16

/-- CorAsp with the newest address and the window size at the last time the origin was computed, the average held in
`multiplicand_temp`, and the operands of the products of the correlation. -/
structure OperandBench where
  cor : CorAsp
  newest : Address
  window : Nat
  multiplicand : Fetched
  products : List (Fetched × Fetched)

namespace OperandBench

def init : OperandBench := ⟨.init, 0, 0, (0, 0), []⟩

/-- An answer is for the address of the last request. -/
def operand (x : OperandBench) (recv : TdmaMinPort) : Fetched := (x.cor.avgDataMemAddr, (x.cor.decode recv).avgData)

def clock (x : OperandBench) (recv : TdmaMinPort) : OperandBench where
  cor := x.cor.clock recv
  newest := if x.cor.computesOrigin recv then (x.cor.decode recv).newestAvgDataAddr else x.newest
  window := if x.cor.computesOrigin recv then x.cor.correlationWindowSize else x.window
  multiplicand :=
    if x.cor.starts recv || x.cor.compares recv && decide (x.cor.counter.toNat < x.cor.correlationWindowSize / 2) then
      x.operand recv
    else x.multiplicand
  products :=
    if x.cor.starts recv then []
    else if x.cor.state = .S1 ∧ x.cor.takes recv = true then x.products ++ [(x.multiplicand, x.operand recv)]
    else x.products

def machine : Machine OperandBench TdmaMinPort := ⟨init, clock⟩

/-- The origin is not computed for the window of one, a correlation starts with one of the two flags of a request up,
and the counter is compared with the window size as it would be with the size that the origin was computed for. -/
def Steady (x : OperandBench) (recv : TdmaMinPort) : Prop :=
  (x.cor.computesOrigin recv = true → x.cor.correlationWindowSize ≠ 1) ∧
  (x.cor.starts recv = true → x.cor.sendAvgDataRq = true ∨ x.cor.hasSendAvgDataRq = true) ∧
  (x.cor.compares recv = true →
    (x.cor.counter.toNat ≥ x.cor.correlationWindowSize / 2 ↔ x.cor.counter.toNat ≥ x.window / 2))

instance (x : OperandBench) (recv : TdmaMinPort) : Decidable (x.Steady recv) :=
  inferInstanceAs (Decidable ((_ → _) ∧ (_ → _) ∧ (_ → _)))

def pairs (x : OperandBench) : Nat := x.window / 2

def origin (x : OperandBench) : Address := x.newest - BitVec.ofNat 10 (x.pairs - 1)

def total (l : List (Fetched × Fetched)) : Nat := (l.map fun p => p.1.2.toNat * p.2.2.toNat).sum

/-- A correlation in progress: what the registers hold after the products so far, and what lies behind the newest
address. -/
def Running (x : OperandBench) : Prop :=
  x.cor.currentCorrOrigin = x.origin ∧
  (∀ p ∈ x.products, Behind x.newest x.pairs p.1.1 ∧ Behind x.newest x.pairs p.2.1) ∧
  match x.cor.state with
  | .S0 => False
  | .S1 =>
    x.cor.counter.toNat = x.products.length ∧ x.cor.counter.toNat < x.pairs ∧
    x.cor.correlation.toNat = total x.products ∧ x.cor.multiplicandTemp = x.multiplicand.2 ∧
    Behind x.newest x.pairs x.multiplicand.1 ∧ Behind x.newest x.pairs x.cor.avgDataMemAddr
  | .S2 =>
    x.cor.counter.toNat + 1 = x.products.length ∧ x.cor.counter.toNat < x.pairs ∧
    x.cor.correlation.toNat + x.cor.correlationPairProduct.toNat = total x.products ∧
    Behind x.newest x.pairs x.cor.avgDataMemAddr
  | .S3 =>
    x.cor.counter.toNat = x.products.length ∧ x.cor.counter.toNat ≤ x.pairs ∧
    x.cor.correlation.toNat + x.cor.correlationPairProduct.toNat = total x.products ∧
    (x.cor.counter.toNat < x.pairs → Behind x.newest x.pairs x.cor.avgDataMemAddr)

structure Inv (x : OperandBench) : Prop where
  flags : x.cor.Flags
  size : 1 ≤ x.cor.correlationWindowSize ∧ x.cor.correlationWindowSize ≤ 15
  placed : x.cor.state ≠ .S0 ∨ x.cor.sendAvgDataRq = true ∨ x.cor.hasSendAvgDataRq = true →
    1 ≤ x.pairs ∧ x.pairs ≤ 7
  computed : x.cor.state = .S0 → x.cor.sendAvgDataRq = true ∨ x.cor.hasSendAvgDataRq = true →
    x.cor.avgDataMemAddr = x.origin
  running : x.cor.state ≠ .S0 → x.Running

variable {x : OperandBench} {recv : TdmaMinPort}

theorem Inv.init : OperandBench.init.Inv := by
  refine ⟨.init, by decide, ?_, ?_, ?_⟩
  · rintro (h | h | h)
    · exact absurd rfl h
    · cases h
    · cases h
  · rintro _ (h | h) <;> cases h
  · intro h
    exact absurd rfl h

theorem Inv.size_clock (h : x.Inv) : 1 ≤ (x.cor.clock recv).correlationWindowSize ∧
    (x.cor.clock recv).correlationWindowSize ≤ 15 := by
  rw [CorAsp.clock_correlationWindowSize, CorAsp.decode_correlationWindowSize]
  split
  case isTrue => exact ⟨CorAsp.one_le_windowSize _, CorAsp.windowSize_le _⟩
  case isFalse => exact h.size

/-- The window of an origin that is computed has a pair. -/
theorem Inv.pairs_of_computes (h : x.Inv) (hr : x.Steady recv) (hc : x.cor.computesOrigin recv = true) :
    1 ≤ x.cor.correlationWindowSize / 2 ∧ x.cor.correlationWindowSize / 2 ≤ 7 := by
  have h1 := hr.1 hc
  obtain ⟨hlo, hhi⟩ := h.size
  omega

/-- A clock in which no operand is taken and no origin computed. -/
theorem clock_kept (hco : x.cor.computesOrigin recv = false) (hst : x.cor.starts recv = false)
    (h1 : x.cor.state = .S1 → x.cor.takes recv = false)
    (h3 : x.cor.compares recv = true → x.cor.correlationWindowSize / 2 ≤ x.cor.counter.toNat) :
    x.clock recv = { x with cor := x.cor.clock recv } := by
  have hp : ¬(x.cor.state = .S1 ∧ x.cor.takes recv = true) := by
    rintro ⟨hs, ht⟩
    rw [h1 hs] at ht
    cases ht
  have hn : (x.cor.compares recv && decide (x.cor.counter.toNat < x.cor.correlationWindowSize / 2)) = false := by
    rw [Bool.and_eq_false_imp]
    intro hcmp
    exact decide_eq_false (Nat.not_lt.2 (h3 hcmp))
  simp only [OperandBench.clock, hco, hst, hn, if_neg hp]
  rfl

/-- Nothing but the registers named in `Running` matters. -/
theorem Running.congr {c : CorAsp} (hk : x.Running) (hstate : c.state = x.cor.state)
    (hor : c.currentCorrOrigin = x.cor.currentCorrOrigin) (hsum : c.correlation = x.cor.correlation)
    (hcnt : c.counter = x.cor.counter) (hmul : c.multiplicandTemp = x.cor.multiplicandTemp)
    (hprod : c.correlationPairProduct = x.cor.correlationPairProduct)
    (haddr : c.avgDataMemAddr = x.cor.avgDataMemAddr) : Running { x with cor := c } := by
  simpa only [Running, origin, pairs, hstate, hor, hsum, hcnt, hmul, hprod, haddr] using hk

theorem total_concat (l : List (Fetched × Fetched)) (p : Fetched × Fetched) :
    total (l ++ [p]) = total l + p.1.2.toNat * p.2.2.toNat := by
  simp [total]

theorem total_le (l : List (Fetched × Fetched)) : total l ≤ l.length * 4294836225 := by
  induction l using List.reverseRecOn with
  | nil => exact Nat.le_refl _
  | append_singleton l p ih =>
    have := Nat.mul_le_mul (Nat.le_sub_one_of_lt p.1.2.isLt) (Nat.le_sub_one_of_lt p.2.2.isLt)
    rw [total_concat, List.length_append, List.length_singleton]
    omega

/-- The sum does not wrap. -/
theorem toNat_add_product {l : List (Fetched × Fetched)} {c : BitVec 36} {p : BitVec 32} (hl : l.length ≤ 7)
    (h : c.toNat + p.toNat = total l) : (c + p.setWidth 36).toNat = total l := by
  have hle := total_le l
  have h32 := p.isLt
  rw [BitVec.toNat_add, BitVec.toNat_setWidth, Nat.mod_eq_of_lt (show p.toNat < 2 ^ 36 by omega),
    Nat.mod_eq_of_lt (by omega), h]

theorem toNat_product (a b : BitVec 16) : (a.setWidth 32 * b.setWidth 32).toNat = a.toNat * b.toNat := by
  have h1 := a.isLt
  have h2 := b.isLt
  have := Nat.mul_le_mul (Nat.le_sub_one_of_lt h1) (Nat.le_sub_one_of_lt h2)
  rw [BitVec.toNat_mul, BitVec.toNat_setWidth, BitVec.toNat_setWidth,
    Nat.mod_eq_of_lt (show a.toNat < 2 ^ 32 by omega), Nat.mod_eq_of_lt (show b.toNat < 2 ^ 32 by omega),
    Nat.mod_eq_of_lt (by omega)]

/-- The next address of a running correlation lies behind the newest, the last one of its schedule apart. -/
theorem Running.request {c : CorAsp} {newest : Address} (hk : x.Running) (h2 : x.cor.state ≠ .S2)
    (hstate : c.state = x.cor.state) (hor : c.currentCorrOrigin = x.cor.currentCorrOrigin)
    (hsum : c.correlation = x.cor.correlation) (hcnt : c.counter = x.cor.counter)
    (hmul : c.multiplicandTemp = x.cor.multiplicandTemp)
    (hprod : c.correlationPairProduct = x.cor.correlationPairProduct)
    (haddr : c.avgDataMemAddr = x.cor.nextAddr newest) : Running { x with cor := c } := by
  cases hst : x.cor.state with
  | S0 => simp only [Running, hst, and_false] at hk
  | S2 => exact absurd hst h2
  | S1 =>
    simp only [Running, hst] at hk
    obtain ⟨ho, hp, hlen, hlt, htot, hm, hbm, -⟩ := hk
    rw [CorAsp.nextAddr, hst] at haddr
    simp only [Running, hstate, hst, hor, hsum, hcnt, hmul]
    refine ⟨ho, hp, hlen, hlt, htot, hm, hbm, ?_⟩
    rw [haddr, ho]
    exact behind_below x.newest hlt
  | S3 =>
    simp only [Running, hst] at hk
    obtain ⟨ho, hp, hlen, hle, htot, -⟩ := hk
    rw [CorAsp.nextAddr, hst] at haddr
    simp only [Running, hstate, hst, hor, hsum, hcnt, hprod]
    refine ⟨ho, hp, hlen, hle, htot, fun hlt => ?_⟩
    rw [haddr, ho]
    exact behind_above x.newest hlt

theorem Inv.of_running (hflags : x.cor.Flags)
    (hsize : 1 ≤ x.cor.correlationWindowSize ∧ x.cor.correlationWindowSize ≤ 15) (hst : x.cor.state ≠ .S0)
    (hpairs : 1 ≤ x.pairs ∧ x.pairs ≤ 7) (hk : x.Running) : x.Inv :=
  ⟨hflags, hsize, fun _ => hpairs, fun h0 => absurd h0 hst, fun _ => hk⟩

theorem Inv.of_idle (hflags : x.cor.Flags)
    (hsize : 1 ≤ x.cor.correlationWindowSize ∧ x.cor.correlationWindowSize ≤ 15) (hst : x.cor.state = .S0)
    (h : x.cor.sendAvgDataRq = true ∨ x.cor.hasSendAvgDataRq = true →
      (1 ≤ x.pairs ∧ x.pairs ≤ 7) ∧ x.cor.avgDataMemAddr = x.origin) : x.Inv := by
  refine ⟨hflags, hsize, ?_, fun _ hf => (h hf).2, fun h0 => absurd hst h0⟩
  rintro (h0 | hf)
  · exact absurd hst h0
  · exact (h hf).1

/-- A request computed in `S0` is for the origin of the window then configured. -/
theorem Inv.of_origin (h : x.Inv) (hr : x.Steady recv) (h0 : x.cor.state = .S0) (ht : x.cor.takes recv = false)
    (hs : x.cor.hasSendAvgDataRq = false) (hstate : (x.cor.clock recv).state = .S0)
    (haddr : (x.cor.clock recv).avgDataMemAddr = x.cor.nextAddr (x.cor.decode recv).newestAvgDataAddr) :
    (x.clock recv).Inv := by
  have hco : x.cor.computesOrigin recv = true := by simp [CorAsp.computesOrigin, h0, ht, hs]
  have hpairs := h.pairs_of_computes hr hco
  have hx : x.clock recv = { x with
      cor := x.cor.clock recv
      newest := (x.cor.decode recv).newestAvgDataAddr
      window := x.cor.correlationWindowSize } := by
    simp [OperandBench.clock, hco, CorAsp.starts, CorAsp.compares, ht]
  have hflags := h.flags.clock hr.2.1
  rw [hx]
  refine .of_idle hflags h.size_clock hstate fun _ => ⟨hpairs, ?_⟩
  show (x.cor.clock recv).avgDataMemAddr = _
  rw [haddr, CorAsp.nextAddr, h0]
  show _ - BitVec.ofInt 10 _ = _ - BitVec.ofNat 10 _
  rw [CorAsp.originOffset_eq hpairs.1]
  rfl

/-- The answer that starts a correlation is for the origin. -/
theorem Inv.of_start (h : x.Inv) (hr : x.Steady recv) (hst : x.cor.starts recv = true)
    (hstate : (x.cor.clock recv).state = .S1)
    (hor : (x.cor.clock recv).currentCorrOrigin = x.cor.avgDataMemAddr)
    (haddr : (x.cor.clock recv).avgDataMemAddr = x.cor.avgDataMemAddr) (hcnt : (x.cor.clock recv).counter = 0)
    (hsum : (x.cor.clock recv).correlation = 0)
    (hmul : (x.cor.clock recv).multiplicandTemp = (x.cor.decode recv).avgData) : (x.clock recv).Inv := by
  have hst' := hst
  simp only [CorAsp.starts, Bool.and_eq_true, decide_eq_true_eq] at hst'
  obtain ⟨⟨h0, ht⟩, -⟩ := hst'
  have hrq := hr.2.1 hst
  have hpairs := h.placed (.inr hrq)
  have horigin := h.computed h0 hrq
  have hbehind : Behind x.newest x.pairs x.cor.avgDataMemAddr := by
    rw [horigin]
    exact behind_origin x.newest hpairs.1
  have hx : x.clock recv = { x with cor := x.cor.clock recv, multiplicand := x.operand recv, products := [] } := by
    simp [OperandBench.clock, hst, CorAsp.computesOrigin, ht]
  have hflags := h.flags.clock hr.2.1
  rw [hx]
  refine .of_running hflags h.size_clock (by simp [hstate]) hpairs ?_
  simp only [Running, hstate, hor, haddr, hcnt, hsum, hmul]
  exact ⟨horigin, fun p hp => (List.not_mem_nil hp).elim, rfl, hpairs.1, rfl, rfl, hbehind, hbehind⟩

/-- The answer taken in `S1` is the second operand of a product. -/
theorem Inv.of_product (h : x.Inv) (hr : x.Steady recv) (h1 : x.cor.state = .S1) (ht : x.cor.takes recv = true)
    (hstate : (x.cor.clock recv).state = .S2)
    (hor : (x.cor.clock recv).currentCorrOrigin = x.cor.currentCorrOrigin)
    (haddr : (x.cor.clock recv).avgDataMemAddr = x.cor.avgDataMemAddr)
    (hcnt : (x.cor.clock recv).counter = x.cor.counter) (hsum : (x.cor.clock recv).correlation = x.cor.correlation)
    (hprod : (x.cor.clock recv).correlationPairProduct =
      x.cor.multiplicandTemp.setWidth 32 * (x.cor.decode recv).avgData.setWidth 32) : (x.clock recv).Inv := by
  have hx : x.clock recv = { x with
      cor := x.cor.clock recv
      products := x.products ++ [(x.multiplicand, x.operand recv)] } := by
    simp [OperandBench.clock, CorAsp.starts, CorAsp.compares, CorAsp.computesOrigin, h1, ht]
  have hk := h.running (by simp [h1])
  have hpairs := h.placed (.inl (by simp [h1]))
  have hflags := h.flags.clock hr.2.1
  simp only [Running, h1] at hk
  obtain ⟨ho, hp, hlen, hlt, htot, hm, hbm, hba⟩ := hk
  rw [hx]
  refine .of_running hflags h.size_clock (by simp [hstate]) hpairs ?_
  simp only [Running, hstate, hor, haddr, hcnt, hsum, hprod]
  refine ⟨ho, ?_, ?_, hlt, ?_, hba⟩
  · intro p hp'
    rcases List.mem_append.1 hp' with hp' | hp'
    · exact hp p hp'
    · rw [List.mem_singleton.1 hp']
      exact ⟨hbm, hba⟩
  · rw [List.length_append, ← hlen]
    rfl
  · rw [total_concat, ← htot, hm, toNat_product]
    rfl

/-- The answer taken in `S3` before the last is the first operand of the next product. -/
theorem Inv.of_next (h : x.Inv) (hr : x.Steady recv) (h3 : x.cor.state = .S3) (ht : x.cor.takes recv = true)
    (hn : ¬x.cor.counter.toNat ≥ x.cor.correlationWindowSize / 2) (hstate : (x.cor.clock recv).state = .S1)
    (hor : (x.cor.clock recv).currentCorrOrigin = x.cor.currentCorrOrigin)
    (haddr : (x.cor.clock recv).avgDataMemAddr = x.cor.avgDataMemAddr)
    (hcnt : (x.cor.clock recv).counter = x.cor.counter)
    (hsum : (x.cor.clock recv).correlation = x.cor.correlation + x.cor.correlationPairProduct.setWidth 36)
    (hmul : (x.cor.clock recv).multiplicandTemp = (x.cor.decode recv).avgData) : (x.clock recv).Inv := by
  have hcmp : x.cor.compares recv = true := by simp [CorAsp.compares, h3, ht]
  have hx : x.clock recv = { x with cor := x.cor.clock recv, multiplicand := x.operand recv } := by
    simp [OperandBench.clock, CorAsp.starts, hcmp, CorAsp.computesOrigin, h3, Nat.not_le.1 hn]
  have hlt : x.cor.counter.toNat < x.pairs := by
    rw [hr.2.2 hcmp] at hn
    exact Nat.not_le.1 hn
  have hk := h.running (by simp [h3])
  have hpairs := h.placed (.inl (by simp [h3]))
  have hflags := h.flags.clock hr.2.1
  simp only [Running, h3] at hk
  obtain ⟨ho, hp, hlen, -, htot, hba⟩ := hk
  rw [hx]
  refine .of_running hflags h.size_clock (by simp [hstate]) hpairs ?_
  simp only [Running, hstate, hor, haddr, hcnt, hsum, hmul]
  exact ⟨ho, hp, hlen, hlt, toNat_add_product (by omega) htot, rfl, hba hlt, hba hlt⟩

/-- The product is formed, and an answer that comes meanwhile is left to `S3`. -/
theorem Inv.of_s2 (h : x.Inv) (hr : x.Steady recv) (h2 : x.cor.state = .S2)
    (hstate : (x.cor.clock recv).state = .S3)
    (hor : (x.cor.clock recv).currentCorrOrigin = x.cor.currentCorrOrigin)
    (haddr : (x.cor.clock recv).avgDataMemAddr = x.cor.avgDataMemAddr)
    (hcnt : (x.cor.clock recv).counter = x.cor.counter + 1) (hsum : (x.cor.clock recv).correlation = x.cor.correlation)
    (hprod : (x.cor.clock recv).correlationPairProduct = x.cor.correlationPairProduct) : (x.clock recv).Inv := by
  have hx : x.clock recv = { x with cor := x.cor.clock recv } := by
    refine clock_kept ?_ ?_ ?_ ?_
    · simp [CorAsp.computesOrigin, h2]
    · simp [CorAsp.starts, h2]
    · simp [h2]
    · simp [CorAsp.compares, h2]
  have hk := h.running (by simp [h2])
  have hpairs := h.placed (.inl (by simp [h2]))
  have hflags := h.flags.clock hr.2.1
  simp only [Running, h2] at hk
  obtain ⟨ho, hp, hlen, hlt, htot, hba⟩ := hk
  have hsucc : (x.cor.counter + 1).toNat = x.cor.counter.toNat + 1 := by
    rw [BitVec.toNat_add, show (1 : BitVec 16).toNat = 1 from rfl]
    omega
  rw [hx]
  refine .of_running hflags h.size_clock (by simp [hstate]) hpairs ?_
  simp only [Running, hstate, hor, haddr, hcnt, hsum, hprod, hsucc]
  exact ⟨ho, hp, hlen, hlt, htot, fun _ => hba⟩

/-- A clock in which nothing is taken and no origin computed goes on with the correlation, or waits in `S0`. -/
theorem Inv.of_waiting (h : x.Inv) (hr : x.Steady recv) (ht : x.cor.takes recv = false)
    (hs : x.cor.state ≠ .S0 ∨ x.cor.hasSendAvgDataRq = true) (hstate : (x.cor.clock recv).state = x.cor.state)
    (hidle : x.cor.state = .S0 → (x.cor.clock recv).avgDataMemAddr = x.cor.avgDataMemAddr)
    (hk : x.cor.state ≠ .S0 → Running { x with cor := x.cor.clock recv }) : (x.clock recv).Inv := by
  have hx : x.clock recv = { x with cor := x.cor.clock recv } := by
    refine clock_kept ?_ ?_ (fun _ => ht) ?_
    · rcases hs with hs | hs
      · simp [CorAsp.computesOrigin, hs]
      · simp [CorAsp.computesOrigin, hs]
    · simp [CorAsp.starts, ht]
    · simp [CorAsp.compares, ht]
  have hpairs := h.placed (hs.imp id .inr)
  have hflags := h.flags.clock hr.2.1
  rw [hx]
  by_cases h0 : x.cor.state = .S0
  · refine .of_idle hflags h.size_clock (hstate.trans h0) fun _ => ⟨hpairs, ?_⟩
    exact (hidle h0).trans (h.computed h0 (.inr (hs.resolve_left (not_not.2 h0))))
  · exact .of_running hflags h.size_clock (by rw [hstate]; exact h0) hpairs (hk h0)

theorem Inv.clock (h : x.Inv) (hr : x.Steady recv) : (x.clock recv).Inv := by
  have hflags := h.flags.clock hr.2.1
  have hm := CorAsp.move x.cor (x.cor.decode recv)
  have hc : x.cor.clock recv = x.cor.send (x.cor.fsm (x.cor.decode recv)) := rfl
  rw [CorAsp.send_kept] at hc
  generalize x.cor.fsm (x.cor.decode recv) = v at hm hc
  cases hm with
  | wait hstate hj hs =>
    rw [CorAsp.decode_kept] at hs hc
    refine h.of_waiting hr hj (.inr hs) (by rw [hc]) (fun _ => by rw [hc]) fun h0 => ?_
    rw [hc]
    exact (h.running h0).congr rfl rfl rfl rfl rfl rfl rfl
  | request hstate hj hs =>
    rw [CorAsp.decode_kept] at hs
    by_cases h0 : x.cor.state = .S0
    · refine h.of_origin hr h0 hj hs ?_ (by rw [hc])
      rw [hc, CorAsp.decode_kept]
      exact h0
    · rw [CorAsp.decode_kept] at hc
      refine h.of_waiting hr hj (.inl h0) (by rw [hc]) (fun h0' => absurd h0' h0) fun _ => ?_
      rw [hc]
      exact (h.running h0).request hstate rfl rfl rfl rfl rfl rfl rfl
  | dropped hstate hj hcalc =>
    rw [CorAsp.decode_kept] at hc
    have hx : x.clock recv = { x with cor := x.cor.clock recv } := by
      refine clock_kept ?_ ?_ ?_ ?_
      · simp [CorAsp.computesOrigin, CorAsp.takes, hj]
      · simp [CorAsp.starts, hcalc]
      · simp [hstate]
      · simp [CorAsp.compares, hstate]
    rw [hx]
    refine .of_idle hflags h.size_clock (by rw [hc]; exact hstate) ?_
    rw [hc]
    intro hf
    -- a request that is out now was computed before and has been kept back
    have hrq : x.cor.sendAvgDataRq = true := by
      rcases hf with hf | hf
      · exact (Bool.and_eq_true_iff.1 hf).1
      · exact (Bool.and_eq_true_iff.1 hf).1
    exact ⟨h.placed (.inr (.inl hrq)), h.computed hstate (.inl hrq)⟩
  | start hstate hj hcalc =>
    rw [CorAsp.decode_kept] at hc
    refine h.of_start hr ?_ (by rw [hc]) (by rw [hc]) (by rw [hc]) (by rw [hc]) (by rw [hc]) (by rw [hc])
    simp [CorAsp.starts, CorAsp.takes, hstate, hj, hcalc]
  | product hstate hj =>
    rw [CorAsp.decode_kept] at hc
    exact h.of_product hr hstate hj (by rw [hc]) (by rw [hc]) (by rw [hc]) (by rw [hc]) (by rw [hc]) (by rw [hc])
  | s2 hstate =>
    rw [CorAsp.decode_kept] at hc
    exact h.of_s2 hr hstate (by rw [hc]) (by rw [hc]) (by rw [hc]) (by rw [hc]) (by rw [hc]) (by rw [hc])
  | finish hstate hj hn =>
    rw [CorAsp.decode_kept] at hc
    have hx : x.clock recv = { x with cor := x.cor.clock recv } := by
      refine clock_kept ?_ ?_ ?_ (fun _ => hn)
      · simp [CorAsp.computesOrigin, hstate]
      · simp [CorAsp.starts, hstate]
      · simp [hstate]
    have hrq := h.flags.no_rq (by simp [hstate]) (by simp [hstate])
    rw [hx]
    refine .of_idle hflags h.size_clock (by rw [hc]) ?_
    rw [hc]
    simp [hrq]
  | next hstate hj hn =>
    rw [CorAsp.decode_kept] at hc
    exact h.of_next hr hstate hj hn (by rw [hc]) (by rw [hc]) (by rw [hc]) (by rw [hc]) (by rw [hc]) (by rw [hc])

theorem inv_run {recvs : List TdmaMinPort} (h : machine.Along Steady recvs) : (machine.run recvs).Inv :=
  Machine.invariant Inv.init (fun _ _ h hr => h.clock hr) h

/-- An answer taken in `S3` that finds the counter at the number of pairs. -/
def Completes (x : OperandBench) (recv : TdmaMinPort) : Prop :=
  x.cor.compares recv = true ∧ x.cor.counter.toNat ≥ x.cor.correlationWindowSize / 2

instance (x : OperandBench) (recv : TdmaMinPort) : Decidable (x.Completes recv) := inferInstanceAs (Decidable (_ ∧ _))

theorem Inv.conversion (h : x.Inv) (hr : x.Steady recv) {i : Int} (hi : x.cor.conversion recv = some i) :
    0 ≤ i ∧ i < 1024 := by
  unfold CorAsp.conversion at hi
  split at hi
  case isTrue => cases hi
  case isFalse hquiet =>
    obtain ⟨ht, hs⟩ : x.cor.takes recv = false ∧ x.cor.hasSendAvgDataRq = false := by simpa using hquiet
    cases hst : x.cor.state with
    | S0 =>
      obtain ⟨h1, h7⟩ := h.pairs_of_computes hr (by simp [CorAsp.computesOrigin, hst, ht, hs])
      simp only [hst, Option.some.injEq] at hi
      rw [← hi, CorAsp.originOffset]
      omega
    | S2 => simp [hst] at hi
    | S1 =>
      have h7 := h.placed (.inl (by simp [hst]))
      have hk := h.running (by simp [hst])
      simp only [Running, hst] at hk
      simp only [hst, Option.some.injEq] at hi
      omega
    | S3 =>
      have h7 := h.placed (.inl (by simp [hst]))
      have hk := h.running (by simp [hst])
      simp only [Running, hst] at hk
      simp only [hst, Option.some.injEq] at hi
      omega

theorem Inv.completes (h : x.Inv) (hr : x.Steady recv) (hdone : x.Completes recv) :
    x.products.length = x.pairs ∧ (x.cor.clock recv).correlation.toNat = total x.products := by
  obtain ⟨hcmp, hn⟩ := hdone
  have hle := (hr.2.2 hcmp).1 hn
  simp only [CorAsp.compares, Bool.and_eq_true, decide_eq_true_eq] at hcmp
  obtain ⟨hst, ht⟩ := hcmp
  have h7 := h.placed (.inl (by simp [hst]))
  have hk := h.running (by simp [hst])
  simp only [Running, hst] at hk
  obtain ⟨-, -, hlen, hle', htot, -⟩ := hk
  have hpairs : x.cor.counter.toNat = x.pairs := Nat.le_antisymm hle' hle
  refine ⟨hlen.symm.trans hpairs, ?_⟩
  have hsum : (x.cor.clock recv).correlation = x.cor.correlation + x.cor.correlationPairProduct.setWidth 36 := by
    rw [CorAsp.clock, CorAsp.send_kept]
    simp [CorAsp.fsm, hst, show (x.cor.decode recv).justRecvAvgData = true from ht, hn]
  rw [hsum]
  exact toNat_add_product (by omega) htot

/-- As long as no origin is computed for the window of one, every conversion is of a natural number below 1024. When a
correlation completes it is the sum of its products, and their operands are from the last `2 * n` addresses up to the
newest at the time of its origin, for `n` products. -/
theorem operands_behind {recvs : List TdmaMinPort} {recv : TdmaMinPort} (h : machine.Along Steady (recvs ++ [recv])) :
    let x := machine.run recvs
    (∀ i ∈ x.cor.conversion recv, 0 ≤ i ∧ i < 1024) ∧
    (x.Completes recv →
      (x.cor.clock recv).correlation.toNat = total x.products ∧
      ∀ p ∈ x.products, Behind x.newest x.products.length p.1.1 ∧ Behind x.newest x.products.length p.2.1) := by
  obtain ⟨hpre, hr⟩ := (Machine.along_concat ..).1 h
  have hinv := inv_run hpre
  refine ⟨fun i hi => hinv.conversion hr (Option.mem_def.1 hi), fun hdone => ?_⟩
  obtain ⟨hlen, hsum⟩ := hinv.completes hr hdone
  have hst : (machine.run recvs).cor.state ≠ .S0 := by
    have hcmp := hdone.1
    simp only [CorAsp.compares, Bool.and_eq_true, decide_eq_true_eq] at hcmp
    simp [hcmp.1]
  rw [hlen]
  exact ⟨hsum, (hinv.running hst).2.1⟩

/-- A window of two pairs, and an answer in `S2` that no request was made for. -/
def unaskedRecvs : List TdmaMinPort :=
  [.idle, CorBench.averagePacket true 1, .idle, CorBench.averagePacket false 3, .idle, CorBench.averagePacket false 5,
    CorBench.averagePacket false 6, .idle, .idle, CorBench.averagePacket false 7, .idle, .idle]

theorem operands_behind_unasked :
    ((machine.run unaskedRecvs).cor.clock (CorBench.averagePacket false 9)).correlation.toNat =
      total (machine.run unaskedRecvs).products ∧
    ∀ p ∈ (machine.run unaskedRecvs).products,
      Behind (machine.run unaskedRecvs).newest (machine.run unaskedRecvs).products.length p.1.1 ∧
      Behind (machine.run unaskedRecvs).newest (machine.run unaskedRecvs).products.length p.2.1 :=
  (@operands_behind unaskedRecvs (CorBench.averagePacket false 9) (by decide +kernel)).2 (by decide +kernel)

/-- The window of one, and a correlation that the next answer completes. -/
def oneRecvs : List TdmaMinPort :=
  [ConfigBench.windowPacket 0b000#3, CorBench.averagePacket true 1, .idle, CorBench.averagePacket false 5, .idle,
    CorBench.averagePacket false 7, .idle, .idle]

/-- Its origin is computed with `to_unsigned (-1)` and lies one beyond the newest address. -/
theorem operand_ahead :
    (machine.run [ConfigBench.windowPacket 0b000#3, CorBench.averagePacket true 1]).cor.conversion .idle = some (-1) ∧
    (machine.run oneRecvs).Completes (CorBench.averagePacket false 9) ∧ (machine.run oneRecvs).newest = 0 ∧
    (machine.run oneRecvs).products = [((1, 5), (0, 7))] ∧ ¬Behind 0 1 1 := by
  refine ⟨?_, ?_, ?_, ?_, ?_⟩ <;> decide +kernel

end OperandBench
end TdmaSoc
