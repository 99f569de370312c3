import TdmaSoc.Asp.Correlation

/-!
# A window that changes during a correlation

The origin of a correlation is latched when it starts, the window size is not: every answer taken in `S3` compares the
counter with the size configured then. The correlation is that of one window exactly if all these comparisons come out
as they do with the size that the origin was computed from.
-/

namespace TdmaSoc
open Window

/-- The bench of the correlation, with the window sizes in force since the last request made in `S0`, and whether the
answers taken in `S3` since then have been compared alike. -/
structure ConfigBench where
  bench : CorBench
  windows : List Nat
  agreed : Bool

namespace ConfigBench

def init : ConfigBench := ⟨.init, [], true⟩

/-- A request leaves in `S0`. -/
def opens (x : ConfigBench) (recv : TdmaMinPort) : Bool :=
  isAvgRequest (x.bench.cor.clock recv).sendSignal.data && decide (x.bench.cor.state = .S0)

/-- The counter is compared with the window size as it is with the size at the first request. -/
def alike (x : ConfigBench) : Bool :=
  decide (x.bench.cor.counter.toNat ≥ x.bench.cor.correlationWindowSize / 2) ==
    decide (x.bench.cor.counter.toNat ≥ x.bench.board.pairs)

def clock (x : ConfigBench) (recv : TdmaMinPort) : ConfigBench where
  bench := x.bench.clock recv
  windows := if x.opens recv then [x.bench.cor.correlationWindowSize]
    else x.windows ++ [x.bench.cor.correlationWindowSize]
  agreed := x.opens recv || x.agreed && (!(isAvgData recv.data && decide (x.bench.cor.state = .S3)) || x.alike)

def machine : Machine ConfigBench TdmaMinPort := ⟨init, clock⟩

/-- Averages arrive as the answer to the request that is out, and configurations with the codes 001 to 111. -/
def Allowed (x : ConfigBench) (recv : TdmaMinPort) : Prop :=
  x.bench.OneAnswer recv ∧ (packetType recv.data = 0b1010#4 → recv.data.slice 0 3 ≠ 0b000#3)

instance (x : ConfigBench) (recv : TdmaMinPort) : Decidable (x.Allowed recv) :=
  inferInstanceAs (Decidable (_ ∧ (_ → _)))

/-- How the registers follow the windows: `k` products have been summed at the origin of the first request, and the
comparisons agree as long as that request's window has room for more. -/
structure Follows (x : ConfigBench) : Prop where
  inv : x.bench.Inv
  size : 2 ≤ x.bench.cor.correlationWindowSize ∧ x.bench.cor.correlationWindowSize ≤ 15
  asked : x.bench.cor.state ≠ .S0 ∨ x.bench.cor.hasSendAvgDataRq = true →
    x.bench.board.window ∈ x.windows ∧ 2 ≤ x.bench.board.window ∧ x.bench.board.window ≤ 15
  fresh : x.bench.cor.state = .S0 → x.bench.cor.hasSendAvgDataRq = true → x.agreed = true
  summing : x.bench.cor.state ≠ .S0 → ∃ v k,
    CorBench.Summing x.bench.board.origin 7 x.bench.cor x.bench.board.answered v k ∧
      x.agreed = decide (k < x.bench.board.pairs)

variable {x : ConfigBench} {recv : TdmaMinPort}

theorem Follows.init : ConfigBench.init.Follows := by
  refine ⟨.init, by decide, ?_, ?_, ?_⟩
  · rintro (h | h)
    · exact absurd rfl h
    · cases h
  · intro _ h
    cases h
  · intro h
    exact absurd rfl h

theorem size_clock (h : x.Follows) (hr : x.Allowed recv) : 2 ≤ (x.bench.cor.clock recv).correlationWindowSize ∧
    (x.bench.cor.clock recv).correlationWindowSize ≤ 15 := by
  rw [CorAsp.clock_correlationWindowSize, CorAsp.decode_correlationWindowSize]
  split
  case isTrue ht => exact ⟨CorAsp.two_le_windowSize (hr.2 ht), CorAsp.windowSize_le _⟩
  case isFalse => exact h.size

/-- A clock without a request in `S0` adds to the windows. -/
theorem mem_windows_clock {w : Nat} (hw : w ∈ x.windows) (ho : x.opens recv = false) : w ∈ (x.clock recv).windows := by
  show w ∈ if x.opens recv then _ else _
  rw [ho]
  exact List.mem_append_left _ hw

theorem opens_of_idle (hidle : (x.bench.cor.clock recv).sendSignal = .idle) : x.opens recv = false := by
  rw [opens, hidle]
  rfl

/-- Only a request in `S0` opens a correlation. -/
theorem board_kept (ho : x.opens recv = false) : (x.clock recv).bench.board.window = x.bench.board.window ∧
    (x.clock recv).bench.board.newest = x.bench.board.newest := by
  have hans : ∀ b : Scoreboard, (b.answer recv).window = b.window ∧ (b.answer recv).newest = b.newest := by
    intro b
    unfold Scoreboard.answer
    cases b.pending with
    | none => exact ⟨rfl, rfl⟩
    | some a => dsimp only; split <;> exact ⟨rfl, rfl⟩
  show (Scoreboard.request _ _ _).window = _ ∧ (Scoreboard.request _ _ _).newest = _
  unfold Scoreboard.request
  split
  case isFalse => exact hans _
  case isTrue hq =>
    rw [opens, hq, Bool.true_and, decide_eq_false_iff_not] at ho
    rw [if_neg ho]
    exact hans _

theorem pairs_clock (ho : x.opens recv = false) : (x.clock recv).bench.board.pairs = x.bench.board.pairs := by
  rw [Scoreboard.pairs, (board_kept ho).1, Scoreboard.pairs]

theorem origin_clock (ho : x.opens recv = false) : (x.clock recv).bench.board.origin = x.bench.board.origin := by
  rw [Scoreboard.origin, (board_kept ho).2, pairs_clock ho, Scoreboard.origin]

/-- Only an answer in `S3` is compared. -/
theorem agreed_kept (ho : x.opens recv = false) (h : isAvgData recv.data = true → x.bench.cor.state ≠ .S3) :
    (x.clock recv).agreed = x.agreed := by
  have hnot : (isAvgData recv.data && decide (x.bench.cor.state = .S3)) = false := by
    rw [Bool.and_eq_false_iff, decide_eq_false_iff_not]
    cases hd : isAvgData recv.data with
    | true => exact .inr (h hd)
    | false => exact .inl rfl
  show (x.opens recv || x.agreed && _) = _
  rw [ho, hnot]
  simp

theorem not_compared (hd : isAvgData recv.data = false) : isAvgData recv.data = true → x.bench.cor.state ≠ .S3 := by
  intro hd'
  rw [hd] at hd'
  cases hd'

/-- What is compared in `S3` when `k` products have been summed and the next is added. -/
theorem agreed_compare {k : Nat} (ho : x.opens recv = false) (hd : isAvgData recv.data = true)
    (hst : x.bench.cor.state = .S3) (hcnt : x.bench.cor.counter.toNat = k + 1)
    (ha : x.agreed = decide (k < x.bench.board.pairs)) : (x.clock recv).agreed =
      (decide (k < x.bench.board.pairs) &&
        (decide (x.bench.cor.correlationWindowSize / 2 ≤ k + 1) == decide (x.bench.board.pairs ≤ k + 1))) := by
  show (x.opens recv || x.agreed && (!(isAvgData recv.data && decide (x.bench.cor.state = .S3)) || x.alike)) = _
  rw [ho, hd, hst, ha, alike, hcnt]
  simp

theorem Follows.of_kept (h : x.Follows) (hr : x.Allowed recv) (ho : x.opens recv = false)
    (hasked : (x.bench.cor.clock recv).state ≠ .S0 ∨ (x.bench.cor.clock recv).hasSendAvgDataRq = true →
      x.bench.cor.state ≠ .S0 ∨ x.bench.cor.hasSendAvgDataRq = true)
    (hfresh : (x.bench.cor.clock recv).state = .S0 → (x.bench.cor.clock recv).hasSendAvgDataRq = true →
      (x.clock recv).agreed = true)
    (hsum : (x.bench.cor.clock recv).state ≠ .S0 → ∃ v k,
      CorBench.Summing x.bench.board.origin 7 (x.bench.cor.clock recv) (x.clock recv).bench.board.answered v k ∧
        (x.clock recv).agreed = decide (k < x.bench.board.pairs)) : (x.clock recv).Follows := by
  refine ⟨h.inv.clock hr.1, size_clock h hr, ?_, hfresh, ?_⟩
  · intro ha
    obtain ⟨hmem, hw⟩ := h.asked (hasked ha)
    rw [(board_kept ho).1]
    exact ⟨mem_windows_clock hmem ho, hw⟩
  · rw [origin_clock ho, pairs_clock ho]
    exact hsum

/-- An answer taken into `S1` to `S3`. -/
theorem Follows.of_answer (h : x.Follows) (hr : x.Allowed recv) (hs : x.bench.cor.hasSendAvgDataRq = true)
    (hd : isAvgData recv.data = true) (hidle : (x.bench.cor.clock recv).sendSignal = .idle)
    (hhas : (x.bench.cor.clock recv).hasSendAvgDataRq = false)
    (hsum : (x.bench.cor.clock recv).state ≠ .S0 → ∃ v k, CorBench.Summing x.bench.board.origin 7
      (x.bench.cor.clock recv)
        (x.bench.board.answered ++ [(x.bench.cor.avgDataMemAddr, recv.data.slice 0 16)]) v k ∧
      (x.clock recv).agreed = decide (k < x.bench.board.pairs)) : (x.clock recv).Follows := by
  have hp := h.inv.pending
  rw [hs, if_pos rfl] at hp
  have hb := CorBench.board_answer hp hd (by rw [hidle]; exact isData_zero _)
  refine h.of_kept hr (opens_of_idle hidle) (fun _ => .inr hs) ?_ ?_
  · intro _ hf
    rw [hhas] at hf
    cases hf
  · show _ → ∃ v k, CorBench.Summing _ 7 _ (x.bench.clock recv).board.answered v k ∧ _
    rw [hb]
    exact hsum

/-- A clock without an answer and without a request. -/
theorem Follows.of_quiet (h : x.Follows) (hr : x.Allowed recv) (hd : isAvgData recv.data = false)
    (hq : isAvgRequest (x.bench.cor.clock recv).sendSignal.data = false)
    (hhas : (x.bench.cor.clock recv).hasSendAvgDataRq = x.bench.cor.hasSendAvgDataRq)
    (hidle : x.bench.cor.state = .S0 → (x.bench.cor.clock recv).state = .S0)
    (hwait : x.bench.cor.hasSendAvgDataRq = true → (x.bench.cor.clock recv).state = x.bench.cor.state)
    (hsum : (x.bench.cor.clock recv).state ≠ .S0 → ∃ v k,
      CorBench.Summing x.bench.board.origin 7 (x.bench.cor.clock recv) x.bench.board.answered v k ∧
        x.agreed = decide (k < x.bench.board.pairs)) : (x.clock recv).Follows := by
  have ho : x.opens recv = false := by rw [opens, hq, Bool.false_and]
  have ha : (x.clock recv).agreed = x.agreed := agreed_kept ho (not_compared hd)
  refine h.of_kept hr ho ?_ ?_ ?_
  · rintro (hst | hs)
    · exact .inl fun h0 => hst (hidle h0)
    · exact .inr (hhas ▸ hs)
  · intro hst hs
    rw [hhas] at hs
    rw [hwait hs] at hst
    rw [ha]
    exact h.fresh hst hs
  · rw [ha]
    show _ → ∃ v k, CorBench.Summing _ 7 _ (x.bench.clock recv).board.answered v k ∧ _
    rw [CorBench.board_quiet hd hq]
    exact hsum

/-- The request made in `S0` opens a correlation, and its window is the one configured. -/
theorem Follows.of_opening (h : x.Follows) (hr : x.Allowed recv) (hs : x.bench.cor.hasSendAvgDataRq = false)
    (hd : isAvgData recv.data = false) (h2 : x.bench.cor.correlationSecondHalf = false)
    (h0 : x.bench.cor.state = .S0) : (x.clock recv).Follows := by
  have hc := h.inv.hand.clock_request hs hd h2 (by simp [h0])
  have hb := CorBench.board_request hd (show (x.bench.cor.clock recv).sendSignal = _ by rw [hc])
  rw [if_pos h0] at hb
  have ho : x.opens recv = true := by
    rw [opens, hc, h0]
    simp
  have hst : (x.bench.cor.clock recv).state = .S0 := by
    rw [hc]
    exact h0
  refine ⟨h.inv.clock hr.1, size_clock h hr, ?_, ?_, ?_⟩
  · intro _
    show (x.bench.clock recv).board.window ∈ (if x.opens recv then _ else _) ∧
      2 ≤ (x.bench.clock recv).board.window ∧ (x.bench.clock recv).board.window ≤ 15
    rw [hb, ho]
    exact ⟨List.mem_singleton_self _, h.size⟩
  · intro _ _
    show (x.opens recv || _) = true
    rw [ho, Bool.true_or]
  · intro hst'
    exact absurd hst hst'

/-- A request made later goes on with the correlation that is open. -/
theorem Follows.of_request (h : x.Follows) (hr : x.Allowed recv) (hs : x.bench.cor.hasSendAvgDataRq = false)
    (hd : isAvgData recv.data = false) (h2 : x.bench.cor.correlationSecondHalf = false)
    (h0 : x.bench.cor.state ≠ .S0) (hstate : x.bench.cor.state ≠ .S2) : (x.clock recv).Follows := by
  have hc := h.inv.hand.clock_request hs hd h2 hstate
  have hb := CorBench.board_request hd (show (x.bench.cor.clock recv).sendSignal = _ by rw [hc])
  rw [if_neg h0] at hb
  have ho : x.opens recv = false := by rw [opens, decide_eq_false h0, Bool.and_false]
  refine h.of_kept hr ho (fun _ => .inl h0) ?_ ?_
  · intro hst
    rw [hc] at hst
    exact absurd hst h0
  · intro _
    obtain ⟨v, k, hk, ha⟩ := h.summing h0
    refine ⟨v, k, ?_, (agreed_kept ho (not_compared hd)).trans ha⟩
    show CorBench.Summing _ 7 _ (x.bench.clock recv).board.answered v k
    rw [hb]
    exact hk.clock_request h.inv.hand hs hd h2 h0 hstate

theorem Follows.clock (h : x.Follows) (hr : x.Allowed recv) : (x.clock recv).Follows := by
  have hand := h.inv.hand
  cases hand.kind (fun hd => h.inv.answer_hasSend hr.1 hd) with
  | wait hs hd =>
    have hc := hand.clock_wait hs hd
    refine h.of_quiet hr hd (by rw [hc]; exact isData_zero _) (by rw [hc]) (by rw [hc]; exact id)
      (by rw [hc]; exact fun _ => rfl) ?_
    intro hst
    rw [hc] at hst
    obtain ⟨v, k, hk, ha⟩ := h.summing hst
    exact ⟨v, k, hk.clock_wait hand hs hd, ha⟩
  | dropped hs hd hstate hcalc =>
    have hc := hand.clock_answer_s0 hs hd hstate hcalc
    refine h.of_answer hr hs hd (by rw [hc]) (by rw [hc]) ?_
    intro hst
    rw [hc] at hst
    exact absurd hstate hst
  | finish hs hd hstate hn =>
    have hc := hand.clock_answer_finish hs hd hstate hn
    refine h.of_answer hr hs hd (by rw [hc]) (by rw [hc]) ?_
    intro hst
    rw [hc] at hst
    exact absurd rfl hst
  | start hs hd hstate hcalc =>
    have hc := hand.clock_answer_start hs hd hstate hcalc
    refine h.of_answer hr hs hd (by rw [hc]) (by rw [hc]) fun _ => ?_
    obtain ⟨-, h2, -⟩ := h.asked (.inr hs)
    have h1 : 1 ≤ x.bench.board.pairs := by
      unfold Scoreboard.pairs
      omega
    obtain ⟨hnil, haddr⟩ := h.inv.first hstate hs
    rw [CorBench.origin_eq_of_window _ h1] at haddr
    refine ⟨fun _ => recv.data.slice 0 16, 0, ?_, ?_⟩
    · rw [hnil, haddr]
      exact CorBench.Summing.clock_start hand hs hd hstate hcalc (by decide) haddr
    · rw [agreed_kept (opens_of_idle (by rw [hc])) (fun _ => by rw [hstate]; simp), h.fresh hstate hs]
      exact (decide_eq_true h1).symm
  | product hs hd hstate =>
    have hc := hand.clock_answer_s1 hs hd hstate
    refine h.of_answer hr hs hd (by rw [hc]) (by rw [hc]) fun _ => ?_
    obtain ⟨v, k, hk, ha⟩ := h.summing (by simp [hstate])
    refine ⟨_, k, hk.clock_product hand hs hd hstate (by decide), ?_⟩
    exact (agreed_kept (opens_of_idle (by rw [hc])) (fun _ => by rw [hstate]; simp)).trans ha
  | next hs hd hstate hn =>
    have hc := hand.clock_answer_s3 hs hd hstate hn
    refine h.of_answer hr hs hd (by rw [hc]) (by rw [hc]) fun _ => ?_
    obtain ⟨v, k, hk, ha⟩ := h.summing (by simp [hstate])
    obtain ⟨-, hcnt, -⟩ := hk.add hstate hs (by decide) (recv.data.slice 0 16)
    have h15 := h.size.2
    refine ⟨_, k + 1, hk.clock_next hand hs hd hstate hn (by decide) (by omega), ?_⟩
    -- the counter is below the size then configured, so it has to be below the first one
    rw [agreed_compare (opens_of_idle (by rw [hc])) hd hstate hcnt ha,
      decide_eq_false (show ¬x.bench.cor.correlationWindowSize / 2 ≤ k + 1 by omega)]
    by_cases hp : k + 1 < x.bench.board.pairs
    · rw [decide_eq_true (show k < x.bench.board.pairs by omega), decide_eq_false (Nat.not_le.2 hp), decide_eq_true hp]
      rfl
    · rw [decide_eq_true (Nat.not_lt.1 hp), decide_eq_false hp]
      exact Bool.and_false _
  | half hs hd h2 =>
    have hc := hand.clock_half hs hd h2
    have h0 := hand.second h2
    refine h.of_quiet hr hd ?_ (by rw [hc]) (by rw [hc]; exact id) (by rw [hc]; exact fun _ => rfl) ?_
    · rw [hc]
      cases x.bench.cor.correlationFirstHalf <;> simp
    · intro hst
      rw [hc] at hst
      exact absurd h0 hst
  | s2 hs hd hstate =>
    have hc := hand.clock_s2 hd hstate
    refine h.of_quiet hr hd (by rw [hc]; exact isData_zero _) (by rw [hc]) (by simp [hstate]) (by simp [hs]) ?_
    intro _
    obtain ⟨v, k, hk, ha⟩ := h.summing (by simp [hstate])
    exact ⟨v, k, hk.clock_s2 hand hs hd hstate (by decide), ha⟩
  | request hs hd h2 hstate =>
    by_cases h0 : x.bench.cor.state = .S0
    · exact h.of_opening hr hs hd h2 h0
    · exact h.of_request hr hs hd h2 h0 hstate

theorem follows_run {recvs : List TdmaMinPort} (h : machine.Along Allowed recvs) : (machine.run recvs).Follows :=
  Machine.invariant Follows.init (fun _ _ h hr => h.clock hr) h

/-- The value is the correlation, at the address next to the newest, of one of the windows that were in force. -/
def IsOfWindow (x : ConfigBench) (value : Nat) : Prop :=
  ∃ w ∈ x.windows, ∃ v,
    x.bench.board.answered = answers v (schedule (x.bench.board.newest - BitVec.ofNat 10 (w / 2 - 1)) (w / 2)) ∧
    value = correlation v (x.bench.board.newest - BitVec.ofNat 10 (w / 2 - 1)) (w / 2)

theorem answers_fst (v : Address → BitVec 16) (l : List Address) : (answers v l).map Prod.fst = l := by
  simp only [answers, List.map_map, Function.comp_def, List.map_id']

/-- A schedule tells its origin and its length. -/
theorem eq_of_answers {v v' : Address → BitVec 16} {o o' : Address} {n n' : Nat}
    (h : answers v (schedule o n) = answers v' (schedule o' n')) : o = o' ∧ n = n' := by
  have hl : schedule o n = schedule o' n' := by
    rw [← answers_fst v (schedule o n), h, answers_fst]
  constructor
  · exact List.head_eq_of_cons_eq hl
  · have hlen := congrArg List.length hl
    rw [schedule_length, schedule_length] at hlen
    omega

/-- At completion the sum is that of one window exactly if the counter was compared with the size at the first request
each time. -/
theorem Follows.completes (h : x.Follows) (hr : x.Allowed recv) (hdone : x.bench.Completes recv) :
    (x.clock recv).IsOfWindow (x.bench.cor.clock recv).correlation.toNat ↔ (x.clock recv).agreed = true := by
  obtain ⟨hs, hd, hn⟩ := h.inv.finish hr.1 hdone
  have hst : x.bench.cor.state ≠ .S0 := by simp [hdone.1]
  have hp := h.inv.pending
  rw [hs, if_pos rfl] at hp
  have hc := h.inv.hand.clock_answer_finish hs hd hdone.1 hn
  have ho := opens_of_idle (by rw [hc])
  have hb : (x.clock recv).bench.board.answered =
      x.bench.board.answered ++ [(x.bench.cor.avgDataMemAddr, recv.data.slice 0 16)] := by
    show (x.bench.clock recv).board.answered = _
    rw [CorBench.board_answer hp hd (by rw [hc]; exact isData_zero _)]
  obtain ⟨hmem, h2, h15⟩ := h.asked (.inl hst)
  have hpairs : x.bench.board.pairs = x.bench.board.window / 2 := rfl
  obtain ⟨v, k, hk, ha⟩ := h.summing hst
  obtain ⟨-, hcnt, hsum, hans⟩ := hk.add hdone.1 hs (by decide) (recv.data.slice 0 16)
  obtain ⟨v', hv'⟩ : ∃ v', v' = Function.update v x.bench.cor.avgDataMemAddr (recv.data.slice 0 16) := ⟨_, rfl⟩
  rw [← hv'] at hsum hans
  have hvalue : (x.bench.cor.clock recv).correlation.toNat = correlation v' x.bench.board.origin (k + 1) := by
    rw [hc, ← hsum]
  have hagreed : (x.clock recv).agreed = true ↔ k + 1 = x.bench.board.pairs := by
    rw [agreed_compare ho hd hdone.1 hcnt ha, decide_eq_true (show _ ≤ k + 1 from hcnt ▸ hn), Bool.and_eq_true,
      beq_iff_eq, decide_eq_true_eq, eq_comm, decide_eq_true_eq]
    omega
  rw [hagreed, IsOfWindow, hb, hans, hvalue, (board_kept ho).2]
  constructor
  · rintro ⟨w, -, u, hans', -⟩
    obtain ⟨horigin, hlen⟩ := eq_of_answers hans'
    have h7 := hk.1
    rw [Scoreboard.origin, ← hlen] at horigin
    have := congrArg BitVec.toNat horigin
    simp only [BitVec.toNat_sub, BitVec.toNat_ofNat] at this
    omega
  · intro hkp
    have horigin : x.bench.board.newest - BitVec.ofNat 10 (x.bench.board.window / 2 - 1) = x.bench.board.origin := rfl
    refine ⟨x.bench.board.window, mem_windows_clock hmem ho, v', ?_, ?_⟩
    · rw [horigin, ← hpairs, hkp]
    · rw [horigin, ← hpairs, hkp]

/-- Reconfiguring is harmless exactly as long as every answer taken in `S3` finds the counter on the same side of the
size then configured as of the size at the first request. The two halves sent after a completed correlation are then
those of the correlation of that window, and otherwise of none that was in force. -/
theorem reconfigured_iff {recvs : List TdmaMinPort} {recv r1 r2 : TdmaMinPort}
    (h : machine.Along Allowed (recvs ++ [recv, r1, r2])) (hdone : (machine.run recvs).bench.Completes recv) :
    ∃ hi lo,
      (machine.run (recvs ++ [recv, r1])).bench.cor.sendSignal = CorAsp.halfPacket false hi ∧
      (machine.run (recvs ++ [recv, r1, r2])).bench.cor.sendSignal = CorAsp.halfPacket true lo ∧
      ((machine.run (recvs ++ [recv])).IsOfWindow (hi.toNat * 2 ^ 18 + lo.toNat) ↔
        (machine.run (recvs ++ [recv])).agreed = true) := by
  obtain ⟨hpre, hr, hr1, hr2, -⟩ := (Machine.along_append ..).1 h
  have hfol := follows_run hpre
  obtain ⟨hfirst, hsecond⟩ := hfol.inv.halves hr.1 hdone hr1.1 hr2.1
  refine ⟨((machine.run recvs).bench.cor.clock recv).correlation.slice 18 18,
    ((machine.run recvs).bench.cor.clock recv).correlation.slice 0 18, ?_, ?_, ?_⟩
  · rw [Machine.run_append]
    exact hfirst
  · rw [Machine.run_append]
    exact hsecond
  · rw [CorBench.toNat_halves, Machine.run_concat]
    exact hfol.completes hr hdone

def windowPacket (code : BitVec 3) : TdmaMinPort := ⟨3, ((0#32).setSlice 28 0b1010#4).setSlice 0 code⟩

/-- A correlation of two pairs, with eight configured before its first comparison and four again before its second. -/
def backRecvs : List TdmaMinPort :=
  [.idle, CorBench.averagePacket true 1, .idle, CorBench.averagePacket false 3, windowPacket 0b011#3,
    CorBench.averagePacket false 5, .idle, .idle, CorBench.averagePacket false 7, windowPacket 0b010#3,
    CorBench.averagePacket false 11, .idle, .idle]

theorem reconfigured_iff_back : ∃ hi lo,
    (machine.run (backRecvs ++ [CorBench.averagePacket false 13, .idle])).bench.cor.sendSignal =
      CorAsp.halfPacket false hi ∧
    (machine.run (backRecvs ++ [CorBench.averagePacket false 13, .idle, .idle])).bench.cor.sendSignal =
      CorAsp.halfPacket true lo ∧
    (machine.run (backRecvs ++ [CorBench.averagePacket false 13])).IsOfWindow (hi.toNat * 2 ^ 18 + lo.toNat) := by
  obtain ⟨hi, lo, h1, h2, hiff⟩ := @reconfigured_iff backRecvs (CorBench.averagePacket false 13) .idle .idle
    (by decide +kernel) (by decide +kernel)
  exact ⟨hi, lo, h1, h2, hiff.2 (by decide +kernel)⟩

/-- A correlation of one pair at the newest address `0`, with two pairs configured after its first request. -/
def splitRecvs : List TdmaMinPort :=
  [windowPacket 0b001#3, CorBench.averagePacket true 1, .idle, CorBench.averagePacket false 5, windowPacket 0b010#3,
    CorBench.averagePacket false 1, .idle, .idle, CorBench.averagePacket false 2, .idle,
    CorBench.averagePacket false 1, .idle, .idle, CorBench.averagePacket false 9]

/-- The value sent is `5 * 1 + 2 * 1`, with the `2` from beyond the newest address: no average at the addresses that
were not asked for makes it the correlation of one pair or that of two. -/
theorem reconfigured_between : machine.Along Allowed (splitRecvs ++ [.idle, .idle]) ∧
    (machine.run (splitRecvs ++ [.idle])).bench.cor.sendSignal = CorAsp.halfPacket false 0 ∧
    (machine.run (splitRecvs ++ [.idle, .idle])).bench.cor.sendSignal = CorAsp.halfPacket true 7 ∧
    ∀ w ∈ (machine.run splitRecvs).windows, ∀ v : Address → BitVec 16,
      (∀ p ∈ (machine.run splitRecvs).bench.board.answered, v p.1 = p.2) →
        correlation v ((machine.run splitRecvs).bench.board.newest - BitVec.ofNat 10 (w / 2 - 1)) (w / 2) ≠ 7 := by
  refine ⟨by decide +kernel, by decide +kernel, by decide +kernel, ?_⟩
  have hwindows : ∀ w ∈ (machine.run splitRecvs).windows, w = 2 ∨ w = 4 := by decide +kernel
  have hnewest : (machine.run splitRecvs).bench.board.newest = 0 := by decide +kernel
  have hans : (machine.run splitRecvs).bench.board.answered = [(0, 5), (1023, 1), (1, 2), (1022, 1), (2, 9)] := by
    decide +kernel
  intro w hw v hv
  rw [hans] at hv
  have h0 : v 0 = 5 := hv (0, 5) (by simp)
  have h1 : v 1023 = 1 := hv (1023, 1) (by simp)
  have h2 : v 1022 = 1 := hv (1022, 1) (by simp)
  rw [hnewest]
  rcases hwindows w hw with rfl | rfl
  · have hone : correlation v 0 1 = (v 0).toNat * (v 1023).toNat := by simp [correlation]
    show correlation v 0 1 ≠ 7
    rw [hone, h0, h1]
    decide
  · have htwo : correlation v 1023 2 = (v 1023).toNat * (v 1022).toNat + (v 0).toNat * (v 1021).toNat := by
      rw [correlation_succ]
      simp [correlation]
    show correlation v 1023 2 ≠ 7
    rw [htwo, h0, h1, h2]
    show 1 * 1 + 5 * (v 1021).toNat ≠ 7
    omega

end ConfigBench
end TdmaSoc
