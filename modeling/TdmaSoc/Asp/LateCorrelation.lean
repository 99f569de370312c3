import TdmaSoc.Asp.MemoryBench
import TdmaSoc.Lib.Component

/-!
# What CorAsp correlates

Every answer brings the word at the address that was asked for before it. From the first request of a correlation on
the record is a little behind at most (`Recent`), so that the addresses still stand for the same words; and each
answer of the correlation but the first is the word at the address of the answer before (`Operands`). What comes
out is the correlation about the origin itself.
-/

namespace TdmaSoc
open Window

/-- The window is one that a correlation can be taken over, and has stayed the same. -/
def Scoreboard.Sized (b : Scoreboard) : Prop := b.steady = true ∧ 1 ≤ b.pairs ∧ b.pairs ≤ 7

namespace MemoryBench
variable {on : Fin 8 → Bool} {x : MemoryBench} {i : ChipInput}

/-- A request is out that may be the first of a correlation, or a correlation is under way. -/
def Begun (x : MemoryBench) : Prop := x.chip.cor.hasSendAvgDataRq = true ∨ x.chip.cor.state ≠ .S0

structure Recent (x : MemoryBench) : Prop where
  newest : x.board.newest = BitVec.ofNat 10 x.newest
  known : x.newest < x.words.length ∨ x.newest = 0
  late : ∃ k, x.chip.Awaits k ∧ x.words.length + k ≤ x.newest + 1 + 48 * (x.board.answered.length + 1)

/-- The word `q.2` that was answered is that at the address `p.1`, asked for before. -/
def Late (x : MemoryBench) (p q : Address × BitVec 16) : Prop :=
  Behind (BitVec.ofNat 10 x.newest) 7 p.1 ∧ q.2 = AvgAspRAM.back x.newest x.words p.1

structure Operands (x : MemoryBench) : Prop where
  last : ∀ p ∈ x.board.answered.getLast?, p.1 = if x.chip.cor.hasSendAvgDataRq then x.before else x.asked
  first : ∀ p ∈ x.board.answered.head?, p.2 ∈ 0 :: x.words
  chain : x.board.Sized → x.board.answered.IsChain x.Late
  /-- An answer on its way is as late. -/
  due : x.board.Sized → 0 < x.chip.downstream → x.board.answered ≠ [] →
    Behind (BitVec.ofNat 10 x.newest) 7 x.before ∧ x.word = AvgAspRAM.back x.newest x.words x.before

structure Inv (x : MemoryBench) : Prop where
  chain : x.chip.Chain
  prompt : x.chip.avg.Prompt
  bench : x.bench.Inv
  keeps : x.chip.avg.Keeps x.words
  reads : x.Reads
  hears : x.Hears
  content : x.word ∈ 0 :: x.words
  recent : x.Begun → x.Recent
  operands : x.Begun → x.Operands

theorem not_begun_init : ¬ init.Begun := by
  rintro (h | h)
  · cases h
  · exact h rfl

theorem Inv.init : init.Inv :=
  ⟨.init, .init, .init, .init, .init, .init, List.mem_singleton_self _, fun h => absurd h not_begun_init,
    fun h => absurd h not_begun_init⟩

/-- What a clock that leaves something begun has done. -/
inductive Goes (x x' : MemoryBench) : Prop
  | first (hreq : x.requests = true) (hstate : x.chip.cor.state = .S0) (hs' : x'.chip.cor.hasSendAvgDataRq = true)
    (hans : x'.board.answered = []) (hnew : x'.board.newest = x'.chip.cor.newestAvgDataAddr)
  | answer (hbegun : x.Begun) (hreq : x.requests = false) (hd : isAvgData x.recv.data = true)
    (hs : x.chip.cor.hasSendAvgDataRq = true) (hs' : x'.chip.cor.hasSendAvgDataRq = false)
    (hans : x'.board.answered = x.board.answered ++ [(x.asked, x.recv.data.slice 0 16)])
    (hnew : x'.board.newest = x.board.newest) (hsized : x'.board.Sized → x.board.Sized)
  | wait (hbegun : x.Begun) (hreq : x.requests = false) (hd : isAvgData x.recv.data = false)
    (hs : x'.chip.cor.hasSendAvgDataRq = x.chip.cor.hasSendAvgDataRq)
    (hans : x'.board.answered = x.board.answered) (hnew : x'.board.newest = x.board.newest)
    (hsized : x'.board.Sized → x.board.Sized)
  | request (hbegun : x.Begun) (hreq : x.requests = true) (hstate : x.chip.cor.state ≠ .S0)
    (hd : isAvgData x.recv.data = false) (hs : x.chip.cor.hasSendAvgDataRq = false)
    (hs' : x'.chip.cor.hasSendAvgDataRq = true) (hans : x'.board.answered = x.board.answered)
    (hnew : x'.board.newest = x.board.newest) (hsized : x'.board.Sized → x.board.Sized)

theorem sized_of_steady {b b' : Scoreboard} {c : Bool} (hw : b'.window = b.window) (hst : b'.steady = (b.steady && c))
    (h : b'.Sized) : b.Sized := by
  obtain ⟨hs, h1, h7⟩ := h
  unfold Scoreboard.pairs at h1 h7
  rw [hw] at h1 h7
  rw [hst] at hs
  exact ⟨(Bool.and_eq_true_iff.1 hs).1, h1, h7⟩

theorem Inv.pending (h : x.Inv) (hs : x.chip.cor.hasSendAvgDataRq = true) : x.bench.board.pending = some x.asked := by
  rw [h.bench.pending, if_pos (show x.bench.cor.hasSendAvgDataRq = true from hs), ← h.reads.asked hs]
  rfl

theorem Inv.oneAnswer (h : x.Inv) : x.bench.OneAnswer x.recv := fun hd => by
  rw [h.pending (h.chain.loop.answer_hasSend hd)]
  rfl

theorem goes_quiet (hbegun : x.Begun) (hd : isAvgData x.recv.data = false) (hreq : x.requests = false)
    (hs : (x.clock on i).chip.cor.hasSendAvgDataRq = x.chip.cor.hasSendAvgDataRq) : x.Goes (x.clock on i) := by
  have hb : (x.clock on i).board = _ := CorBench.board_quiet (x := x.bench) hd hreq
  exact .wait hbegun hreq hd hs (by rw [hb]; rfl) (by rw [hb]; rfl)
    (sized_of_steady (by rw [hb]; rfl) (by rw [hb]; rfl))

theorem Inv.goes_answer (h : x.Inv) (hs : x.chip.cor.hasSendAvgDataRq = true) (hd : isAvgData x.recv.data = true)
    (hidle : x.cor.sendSignal = .idle) (hs' : x.cor.hasSendAvgDataRq = false) : x.Goes (x.clock on i) := by
  have hreq : x.requests = false := by
    unfold requests
    rw [hidle]
    exact isData_zero _
  have hb : (x.clock on i).board = _ := CorBench.board_answer (x := x.bench) (h.pending hs) hd hreq
  exact .answer (.inl hs) hreq hd hs hs' (by rw [hb]; rfl) (by rw [hb]; rfl)
    (sized_of_steady (by rw [hb]; rfl) (by rw [hb]; rfl))

/-- What a clock does to the correlation that is under way after it. -/
theorem Inv.goes (h : x.Inv) (hbegun' : (x.clock on i).Begun) : x.Goes (x.clock on i) := by
  have hhand := h.chain.loop.hand
  have hcor : (x.clock on i).chip.cor = x.cor := rfl
  have hnot (hs : x.cor.hasSendAvgDataRq = false) (hstate : x.cor.state = .S0) : x.Goes (x.clock on i) := by
    rcases hbegun' with hb | hb
    · rw [hcor, hs] at hb
      cases hb
    · exact absurd hstate hb
  cases hhand.kind h.chain.loop.answer_hasSend with
  | wait hs hd =>
    have hclock : x.cor = _ := hhand.clock_wait hs hd
    refine goes_quiet (.inl hs) hd ?_ (by rw [hcor, hclock])
    unfold requests
    rw [hclock]
    exact isData_zero _
  | dropped hs hd hstate hc =>
    have hclock : x.cor = _ := hhand.clock_answer_s0 hs hd hstate hc
    exact hnot (by rw [hclock]) (by rw [hclock]; exact hstate)
  | start hs hd hstate hc =>
    have hclock : x.cor = _ := hhand.clock_answer_start hs hd hstate hc
    exact h.goes_answer hs hd (by rw [hclock]) (by rw [hclock])
  | product hs hd hstate =>
    have hclock : x.cor = _ := hhand.clock_answer_s1 hs hd hstate
    exact h.goes_answer hs hd (by rw [hclock]) (by rw [hclock])
  | finish hs hd hstate hn =>
    have hclock : x.cor = _ := hhand.clock_answer_finish hs hd hstate hn
    exact hnot (by rw [hclock]) (by rw [hclock])
  | next hs hd hstate hn =>
    have hclock : x.cor = _ := hhand.clock_answer_s3 hs hd hstate hn
    exact h.goes_answer hs hd (by rw [hclock]) (by rw [hclock])
  | half hs hd h2 =>
    have hclock : x.cor = _ := hhand.clock_half hs hd h2
    exact hnot (by rw [hclock]; exact hs) (by rw [hclock]; exact hhand.second h2)
  | s2 hs hd hstate =>
    have hclock : x.cor = _ := hhand.clock_s2 hd hstate
    refine goes_quiet (.inr (by rw [hstate]; decide)) hd ?_ (by rw [hcor, hclock])
    unfold requests
    rw [hclock]
    exact isData_zero _
  | request hs hd h2 hstate =>
    have hclock : x.cor = _ := hhand.clock_request hs hd h2 hstate
    have hsend := congrArg CorAsp.sendSignal hclock
    have hreq : x.requests = true := by
      unfold requests
      rw [hsend]
      simp [isAvgRequest]
    have hb : (x.clock on i).board = _ := CorBench.board_request (x := x.bench) hd hsend
    have hs' : x.cor.hasSendAvgDataRq = true := by rw [hclock]
    by_cases h0 : x.chip.cor.state = .S0
    · rw [if_pos (show x.bench.cor.state = .S0 from h0), h.bench.hear_announced] at hb
      exact .first hreq h0 hs' (by rw [hb]) (by rw [hb]; rfl)
    · rw [if_neg (show x.bench.cor.state ≠ .S0 from h0)] at hb
      exact .request (.inr h0) hreq h0 hd hs hs' (by rw [hb]; rfl) (by rw [hb]; rfl)
        (sized_of_steady (by rw [hb]; rfl) (by rw [hb]; rfl))

/-! ### The record stays near -/

theorem length_words_clock (on : Fin 8 → Bool) (x : MemoryBench) (i : ChipInput) :
    (x.clock on i).words.length ≤ x.words.length + 1 := by
  show (x.words ++ _).length ≤ _
  rw [List.length_append, List.length_map, AvgAspRAM.writes]
  split <;> simp

theorem newest_clock (on : Fin 8 → Bool) (i : ChipInput) (h : x.requests = false ∨ x.chip.cor.state ≠ .S0) :
    (x.clock on i).newest = x.newest := by
  refine if_neg fun ⟨hreq, hstate⟩ => ?_
  rcases h with h | h
  · rw [h] at hreq
    cases hreq
  · exact h hstate

theorem Recent.known_clock (h : x.Recent) (hnew : (x.clock on i).newest = x.newest) :
    (x.clock on i).newest < (x.clock on i).words.length ∨ (x.clock on i).newest = 0 := by
  have hgrown : x.words.length ≤ (x.clock on i).words.length := by
    show _ ≤ (x.words ++ _).length
    rw [List.length_append]
    omega
  rw [hnew]
  exact h.known.imp (fun h => by omega) id

/-- A clock without an answer brings the next one nearer. -/
theorem Recent.quiet (h2 : on 2 = true) (h3 : on 3 = true) (hchain : x.chip.Chain) (hp : x.chip.avg.Prompt)
    (hc : Chip.LoopClosed on x.chip i) (hchain' : (x.clock on i).chip.Chain) (h : x.Recent)
    (hd : isAvgData x.recv.data = false) (hreq : x.requests = false ∨ x.chip.cor.state ≠ .S0)
    (hans : (x.clock on i).board.answered = x.board.answered) (hnew : (x.clock on i).board.newest = x.board.newest) :
    (x.clock on i).Recent := by
  have hnewest := newest_clock on i hreq
  obtain ⟨k, hawaits, hle⟩ := h.late
  obtain ⟨k', hlt, hawaits'⟩ := hawaits.clock h2 h3 hchain hc hchain' hp hd
  have hlen := length_words_clock on x i
  refine ⟨by rw [hnew, hnewest]; exact h.newest, h.known_clock hnewest, k', hawaits', ?_⟩
  rw [hans, hnewest]
  omega

theorem Recent.clock (h2 : on 2 = true) (h3 : on 3 = true) (h : x.Inv) (hc : Chip.LoopClosed on x.chip i)
    (hchain' : (x.clock on i).chip.Chain) (hears' : (x.clock on i).Hears) (hgoes : x.Goes (x.clock on i)) :
    (x.clock on i).Recent := by
  cases hgoes with
  | first hreq hstate hs' hans hnew =>
    obtain ⟨k, hk, hdue⟩ := hchain'.due hs'
    have hlen := hears'.length
    have hannounced := Chip.length_announcing_le hchain'
    have hnewest : (x.clock on i).newest = (x.clock on i).heard - 1 := if_pos ⟨hreq, hstate⟩
    refine ⟨hnew.trans (by rw [hnewest]; exact hears'.newest), by omega, k, .due hs' hdue, ?_⟩
    rw [hans, List.length_nil]
    omega
  | answer hbegun hreq hd hs hs' hans hnew hsized =>
    have hnewest := newest_clock on i (.inl hreq)
    obtain ⟨k, -, hle⟩ := (h.recent hbegun).late
    obtain ⟨k', hk', hawaits'⟩ := hchain'.awaits
    have hlen := length_words_clock on x i
    refine ⟨by rw [hnew, hnewest]; exact (h.recent hbegun).newest, (h.recent hbegun).known_clock hnewest, k',
      hawaits', ?_⟩
    rw [hans, hnewest, List.length_append, List.length_singleton]
    omega
  | wait hbegun hreq hd hs hans hnew hsized =>
    exact (h.recent hbegun).quiet h2 h3 h.chain h.prompt hc hchain' hd (.inl hreq) hans hnew
  | request hbegun hreq hstate hd hs hs' hans hnew hsized =>
    exact (h.recent hbegun).quiet h2 h3 h.chain h.prompt hc hchain' hd (.inr hstate) hans hnew

/-- In a correlation that can be taken, fewer than a thousand words come after the newest. -/
theorem Inv.answered_lt (h : x.Inv) (hsized : x.board.Sized) (hne : x.board.answered ≠ [])
    (hs : x.chip.cor.hasSendAvgDataRq = true) :
    x.board.answered.length ≤ 14 ∧ x.board.answered.map Prod.fst ++ [x.asked] <+:
      schedule (x.board.newest - BitVec.ofNat 10 (x.board.pairs - 1)) x.board.pairs := by
  obtain ⟨hsteady, h1, h7⟩ := hsized
  have hstate : x.bench.cor.state ≠ .S0 := fun h0 => hne (h.bench.first h0 hs).1
  obtain ⟨v, k, hk⟩ := h.bench.summing hstate hsteady h1 h7
  obtain ⟨hpre, hlen⟩ := hk.schedule_prefix fun h2 => absurd h2 (h.bench.hand.waiting hs).2.2.2
  rw [if_pos (show x.bench.cor.hasSendAvgDataRq = true from hs), show x.bench.cor.avgDataMemAddr = x.asked from
    h.reads.asked hs] at hpre
  refine ⟨?_, hpre⟩
  have hlen : x.board.answered.length < 2 * x.board.pairs + 1 := hlen
  omega

/-! ### The words that come -/

section Operands
variable (hkeeps' : (x.clock on i).chip.avg.Keeps (x.clock on i).words) (hrecent : x.Recent)
  (hnew : (x.clock on i).newest = x.newest)
include hkeeps' hrecent hnew

theorem back_clock {a : Address} (ha : Behind (BitVec.ofNat 10 x.newest) 7 a) :
    AvgAspRAM.back (x.clock on i).newest (x.clock on i).words a = AvgAspRAM.back x.newest x.words a := by
  rw [hnew]
  exact AvgAspRAM.back_append hrecent.known hkeeps'.first ha

theorem Late.clock {p q : Address × BitVec 16} (h : x.Late p q) : (x.clock on i).Late p q := by
  refine ⟨by rw [hnew]; exact h.1, ?_⟩
  rw [back_clock hkeeps' hrecent hnew h.1]
  exact h.2

end Operands

/-- The word that is latched for the answer is the one at the address of the answer before. -/
theorem Inv.latch (h : x.Inv) (hsized : x.board.Sized) (hne : x.board.answered ≠ [])
    (hs : x.chip.cor.hasSendAvgDataRq = true) (hshown : isAvgRequest (x.chip.net.recvs 2).data = true) :
    Behind (BitVec.ofNat 10 x.newest) 7 x.before ∧
      x.chip.avg.ram.ram x.chip.avg.ramRaddr = AvgAspRAM.back x.newest x.words x.before := by
  have hbegun : x.Begun := .inl hs
  have hrecent := h.recent hbegun
  obtain ⟨hlen, hpre⟩ := h.answered_lt hsized hne hs
  have hbehind : Behind (BitVec.ofNat 10 x.newest) 7 x.before := by
    have hlast := (h.operands hbegun).last
    rw [if_pos hs, List.getLast?_eq_some_getLast hne] at hlast
    have hsplit := List.dropLast_append_getLast hne
    rw [← hsplit, List.map_append, List.map_singleton, List.append_assoc, hlast _ rfl, hrecent.newest] at hpre
    exact (behind_of_schedule hsized.2.1 hpre).mono hsized.2.2
  have hup : 0 < x.chip.upstream := by
    unfold Chip.upstream
    rw [hshown, Bool.toNat_true]
    omega
  obtain ⟨k, -, hlate⟩ := hrecent.late
  rw [h.reads.latched, if_pos hup]
  exact ⟨hbehind, h.keeps.read hrecent.known (by omega) hbehind⟩

theorem mem_words_clock {w : BitVec 16} (hw : w ∈ 0 :: x.words) : w ∈ 0 :: (x.clock on i).words := by
  show w ∈ 0 :: (x.words ++ _)
  rw [← List.cons_append]
  exact List.mem_append_left _ hw

/-- Without a request on show, what is on its way back stays so. -/
theorem downstream_clock (h3 : on 3 = true) (hchain : x.chip.Chain) (hc : Chip.LoopClosed on x.chip i)
    (hchain' : (x.clock on i).chip.Chain) (hreq : x.requests = false)
    (hs : (x.clock on i).chip.cor.hasSendAvgDataRq = x.chip.cor.hasSendAvgDataRq)
    (hshown : isAvgRequest (x.chip.net.recvs 2).data = false) :
    (x.clock on i).chip.downstream = x.chip.downstream := by
  have hup : (x.clock on i).chip.upstream + (isAvgRequest (x.chip.net.recvs 2).data).toNat =
      x.chip.upstream + x.requests.toNat := Chip.upstream_clock h3 hchain hc
  have hadd := hchain.loop.upstream_add
  have hadd' := hchain'.loop.upstream_add
  rw [hreq, hshown] at hup
  rw [hs] at hadd'
  omega

/-- An answer is the word at the address of the answer before. -/
theorem Inv.chain_answer (h : x.Inv) (hsized : x.board.Sized) (hs : x.chip.cor.hasSendAvgDataRq = true)
    (hd : isAvgData x.recv.data = true) :
    (x.board.answered ++ [(x.asked, x.recv.data.slice 0 16)]).IsChain x.Late := by
  have hold := h.operands (.inl hs)
  refine List.isChain_append.2 ⟨hold.chain hsized, List.isChain_singleton _, fun p hp q hq => ?_⟩
  have hdown : 0 < x.chip.downstream := by
    have hd : isAvgData (x.chip.net.recvs 3).data = true := hd
    unfold Chip.downstream
    rw [hd, Bool.toNat_true]
    omega
  have hne : x.board.answered ≠ [] := fun hnil => by
    rw [hnil] at hp
    cases hp
  obtain ⟨hbehind, hword⟩ := hold.due hsized hdown hne
  have hlast := hold.last p hp
  rw [if_pos hs] at hlast
  rw [← Option.some.inj hq, Late, hlast, h.reads.answer hd]
  exact ⟨hbehind, hword⟩

/-- The first answer is some word of the memory. -/
theorem Inv.first_answer (h : x.Inv) (hs : x.chip.cor.hasSendAvgDataRq = true) (hd : isAvgData x.recv.data = true) :
    ∀ p ∈ (x.board.answered ++ [(x.asked, x.recv.data.slice 0 16)]).head?, p.2 ∈ 0 :: x.words := by
  intro p hp
  rw [List.head?_append] at hp
  cases hhead : x.board.answered.head? with
  | some p' =>
    rw [hhead] at hp
    exact (h.operands (.inl hs)).first p (hhead ▸ hp)
  | none =>
    rw [hhead] at hp
    rw [← Option.some.inj hp, h.reads.answer hd]
    exact h.content

theorem Operands.clock (h3 : on 3 = true) (h : x.Inv) (hc : Chip.LoopClosed on x.chip i)
    (hchain' : (x.clock on i).chip.Chain) (hkeeps' : (x.clock on i).chip.avg.Keeps (x.clock on i).words)
    (hgoes : x.Goes (x.clock on i)) : (x.clock on i).Operands := by
  have hadd' := hchain'.loop.upstream_add
  have hasked : (x.clock on i).asked = if x.requests then x.cor.sendSignal.data.slice 0 10 else x.asked := rfl
  have hbefore : (x.clock on i).before = if x.requests then x.asked else x.before := rfl
  cases hgoes with
  | first hreq hstate hs' hans hnew =>
    exact ⟨by simp [hans], by simp [hans], fun _ => by rw [hans]; exact .nil, fun _ _ hne => absurd hans hne⟩
  | answer hbegun hreq hd hs hs' hans hnew hsized =>
    have hold := h.operands hbegun
    have hrecent := h.recent hbegun
    have hnewest := newest_clock on i (.inl hreq)
    rw [hreq, if_neg Bool.false_ne_true] at hasked
    refine ⟨fun p hp => ?_, fun p hp => mem_words_clock (h.first_answer hs hd p (hans ▸ hp)), fun hsz => ?_,
      fun _ hdown => ?_⟩
    · rw [hans, List.getLast?_concat] at hp
      rw [hs', if_neg Bool.false_ne_true, hasked, ← Option.some.inj hp]
    · rw [hans]
      exact (h.chain_answer (hsized hsz) hs hd).imp fun _ _ hl => hl.clock hkeeps' hrecent hnewest
    · rw [hs', Bool.toNat_false] at hadd'
      omega
  | wait hbegun hreq hd hs hans hnew hsized =>
    have hold := h.operands hbegun
    have hrecent := h.recent hbegun
    have hnewest := newest_clock on i (.inl hreq)
    rw [hreq, if_neg Bool.false_ne_true] at hasked hbefore
    refine ⟨fun p hp => ?_, fun p hp => mem_words_clock (hold.first p (hans ▸ hp)), fun hsz => ?_,
      fun hsz hdown hne => ?_⟩
    · rw [hs, hasked, hbefore]
      exact hold.last p (hans ▸ hp)
    · rw [hans]
      exact (hold.chain (hsized hsz)).imp fun _ _ hl => hl.clock hkeeps' hrecent hnewest
    · have hs1 : x.chip.cor.hasSendAvgDataRq = true := by
        by_contra hno
        rw [hs, Bool.eq_false_of_not_eq_true hno, Bool.toNat_false] at hadd'
        omega
      rw [hans] at hne
      have hnow : Behind (BitVec.ofNat 10 x.newest) 7 x.before ∧
          (x.clock on i).word = AvgAspRAM.back x.newest x.words x.before := by
        show _ ∧ (if isAvgRequest (x.chip.net.recvs 2).data then _ else x.word) = _
        split
        · rename_i hshown
          exact h.latch (hsized hsz) hne hs1 hshown
        · rename_i hshown
          rw [downstream_clock h3 h.chain hc hchain' hreq hs (Bool.eq_false_of_not_eq_true hshown)] at hdown
          exact hold.due (hsized hsz) hdown hne
      rw [hbefore, back_clock hkeeps' hrecent hnewest hnow.1, hnewest]
      exact hnow
  | request hbegun hreq hstate hd hs hs' hans hnew hsized =>
    have hold := h.operands hbegun
    have hrecent := h.recent hbegun
    have hnewest := newest_clock on i (.inr hstate)
    rw [hreq, if_pos rfl] at hbefore
    refine ⟨fun p hp => ?_, fun p hp => mem_words_clock (hold.first p (hans ▸ hp)), fun hsz => ?_,
      fun _ hdown => ?_⟩
    · have hlast := hold.last p (hans ▸ hp)
      rw [hs, if_neg Bool.false_ne_true] at hlast
      rw [hs', if_pos rfl, hbefore]
      exact hlast
    · rw [hans]
      exact (hold.chain (hsized hsz)).imp fun _ _ hl => hl.clock hkeeps' hrecent hnewest
    · have hsent : isAvgRequest (x.clock on i).chip.cor.sendSignal.data = true := hreq
      have hle := Bool.toNat_le (x.clock on i).chip.cor.hasSendAvgDataRq
      unfold Chip.upstream at hadd'
      rw [hsent, Bool.toNat_true] at hadd'
      omega

theorem Inv.clock (h2 : on 2 = true) (h3 : on 3 = true) (h : x.Inv) (hc : Chip.LoopClosed on x.chip i)
    (hchain' : (x.clock on i).chip.Chain) : (x.clock on i).Inv := by
  have hkeeps' : (x.clock on i).chip.avg.Keeps (x.clock on i).words := h.keeps.clock (x.chip.net.recvs 2)
  have hhears' : (x.clock on i).Hears := h.hears.clock h2 h.chain h.keeps
  refine ⟨hchain', h.prompt.clock _, h.bench.clock h.oneAnswer, hkeeps', h.reads.clock h2 h3 h.chain hc h.prompt,
    hhears', mem_words_clock ?_, fun hbegun => .clock h2 h3 h hc hchain' hhears' (h.goes hbegun),
    fun hbegun => .clock h3 h hc hchain' hkeeps' (h.goes hbegun)⟩
  show (if isAvgRequest (x.chip.net.recvs 2).data then _ else x.word) ∈ _
  split
  · exact h.keeps.content _
  · exact h.content

/-- What is summed when the words that come are one request late. -/
theorem centred_back {n : Nat} (hn : 1 ≤ n) (hn7 : n ≤ 7) {newest : Nat} {words : List (BitVec 16)}
    (hfirst : ∀ w ∈ words.head?, w = 0) (p : BitVec 16) :
    let o := BitVec.ofNat 10 newest - BitVec.ofNat 10 (n - 1)
    p.toNat * (AvgAspRAM.back newest words o).toNat + centred (AvgAspRAM.back newest words) o (n - 1) =
      lateCorrelation (fun m => (words.getD m 0).toNat) newest n p.toNat := by
  intro o
  obtain ⟨m, rfl⟩ : ∃ m, n = m + 1 := ⟨n - 1, by omega⟩
  have hnumber {j : Nat} (hj : j < 1024) :
      AvgAspRAM.back newest words (BitVec.ofNat 10 newest - BitVec.ofNat 10 j) = words.getD (newest - j) 0 :=
    AvgAspRAM.back_sub_of_first hj hfirst
  unfold lateCorrelation centred
  congr 1
  · rw [hnumber (by omega)]
    congr 3
    omega
  · refine Finset.sum_congr rfl fun i hi => ?_
    have hi : i < m := Finset.mem_range.1 hi
    have hbelow : o - 1 - BitVec.ofNat 10 i = BitVec.ofNat 10 newest - BitVec.ofNat 10 (m + 1 + i) := by
      rw [BitVec.ofNat_add, BitVec.ofNat_add, sub_add_eq_sub_sub, sub_add_eq_sub_sub]
      rfl
    have habove : o + 1 + BitVec.ofNat 10 i = BitVec.ofNat 10 newest - BitVec.ofNat 10 (m + 1 - 2 - i) := by
      obtain ⟨k, hk⟩ : ∃ k, m = k + (i + 1) := ⟨m - (i + 1), by omega⟩
      have ho : o = BitVec.ofNat 10 newest - BitVec.ofNat 10 k - BitVec.ofNat 10 i - 1 := by
        show BitVec.ofNat 10 newest - BitVec.ofNat 10 m = _
        rw [hk, BitVec.ofNat_add, BitVec.ofNat_add, sub_add_eq_sub_sub, sub_add_eq_sub_sub]
        rfl
      rw [ho, show m + 1 - 2 - i = k by omega, BitVec.sub_add_cancel, BitVec.sub_add_cancel]
    rw [hbelow, habove, hnumber (by omega), hnumber (by omega)]

/-- A correlation that completes is about the origin, whose word has been left behind for another. -/
theorem Inv.correlates (h : x.Inv) (hdone : x.bench.Completes x.recv) (hw : (x.clock on i).board.InWindow) :
    x.words.length ≤ x.newest + 721 ∧ ∃ p ∈ 0 :: x.words, x.cor.correlation.toNat =
      lateCorrelation (fun m => (x.words.getD m 0).toNat) x.newest (x.clock on i).board.pairs p.toNat := by
  obtain ⟨hs, hd, hn⟩ := h.bench.finish h.oneAnswer hdone
  obtain ⟨v, hans, hsum⟩ := h.bench.completes h.oneAnswer hdone hw
  have hclock : x.cor = _ := h.bench.hand.clock_answer_finish hs hd hdone.1 hn
  have hreq : x.requests = false := by
    unfold requests
    rw [hclock]
    exact isData_zero _
  have hb : (x.clock on i).board = _ := CorBench.board_answer (x := x.bench) (h.pending hs) hd hreq
  have hsized : x.board.Sized :=
    sized_of_steady (c := x.bench.cor.correlationWindowSize == x.bench.board.window) (by rw [hb]; rfl) (by rw [hb]; rfl)
      ⟨hw.1, hw.pairs⟩
  have hpairs : (x.clock on i).board.pairs = x.board.pairs := by
    rw [hb]
    rfl
  have hrecent := h.recent (.inl hs)
  have horigin : (x.clock on i).board.origin =
      BitVec.ofNat 10 x.newest - BitVec.ofNat 10 (x.board.pairs - 1) := by
    rw [← hrecent.newest, ← hpairs, Scoreboard.origin, hb]
    rfl
  have hall : (x.clock on i).board.answered = x.board.answered ++ [(x.asked, x.recv.data.slice 0 16)] := by
    rw [hb]
    rfl
  change (x.clock on i).board.answered =
    answers v (schedule (x.clock on i).board.origin (x.clock on i).board.pairs) at hans
  change x.cor.correlation.toNat = correlation v (x.clock on i).board.origin (x.clock on i).board.pairs at hsum
  rw [hall, horigin, hpairs] at hans
  rw [horigin, hpairs] at hsum
  have hchain := h.chain_answer hsized hs hd
  have hfirst := h.first_answer hs hd
  rw [hans] at hchain hfirst
  obtain ⟨-, h1, h7⟩ := hsized
  refine ⟨?_, _, hfirst _ rfl, ?_⟩
  · have hlen := congrArg List.length hans
    obtain ⟨k, -, hlate⟩ := hrecent.late
    rw [List.length_append, List.length_singleton, answers, List.length_map, schedule_length] at hlen
    omega
  · rw [hpairs, ← centred_back h1 h7 h.keeps.first, hsum]
    obtain ⟨m, hm⟩ : ∃ m, x.board.pairs = m + 1 := ⟨x.board.pairs - 1, by omega⟩
    rw [hm] at hchain ⊢
    exact correlation_late (hchain.imp fun _ _ hl => hl.2)

/-! ### Runs -/

theorem hosts_chip : (machine on).Hosts (Chip.machine on) chip fun _ i => i := ⟨rfl, fun _ _ => rfl⟩

theorem run_chip (is : List ChipInput) : ((machine on).run is).chip = (Chip.machine on).run is := by
  rw [← hosts_chip.run, Machine.inputs_self]

theorem run_inv (h1 : on 1 = true) (h2 : on 2 = true) (h3 : on 3 = true) {is : List ChipInput}
    (h : (Chip.machine on).Along (Chip.ConfigOnly on) is) : ((machine on).run is).Inv := by
  induction is using List.reverseRecOn with
  | nil => exact .init
  | append_singleton is i ih =>
    have hnext := Chip.run_chain h1 h2 h3 h
    rw [← run_chip, Machine.run_concat] at hnext
    rw [Machine.along_concat, ← run_chip] at h
    rw [Machine.run_concat]
    exact (ih h.1).clock h2 h3 ((ih h.1).chain.loopClosed h1 h.2) hnext

/-- What CorAsp makes of the memory, in the sampling chain on the network. When it completes a correlation of `n` pairs
and the number `m` was the newest it had heard of when it began, then the sum of the products is one about the word
`m + 1 - n`: of the `n - 1` pairs of words on both sides of it, and of the word itself with `p`, a word that it asked
for before. In the meantime 720 words have been written at most. -/
theorem correlates_late {on : Fin 8 → Bool} (h1 : on 1 = true) (h2 : on 2 = true) (h3 : on 3 = true)
    {is : List ChipInput} (i : ChipInput) (h : (Chip.machine on).Along (Chip.ConfigOnly on) is) :
    let x := (machine on).run is
    let x' := (machine on).run (is ++ [i])
    x.bench.Completes x.recv → x'.board.InWindow →
      x.words.length ≤ x.newest + 721 ∧ ∃ p ∈ 0 :: x.words, x'.chip.cor.correlation.toNat =
        lateCorrelation (fun m => (x.words.getD m 0).toNat) x.newest x'.board.pairs p.toNat := by
  intro x x' hdone hw
  have hx' : x' = x.clock on i := (machine on).run_concat is i
  rw [hx'] at hw ⊢
  exact (run_inv h1 h2 h3 h).correlates hdone hw

/-- The ADC counts clocks, and nothing is configured. -/
def rampInput (t : Nat) : ChipInput := ⟨BitVec.ofNat 10 t, false, fun _ => .idle⟩

theorem correlates_late_ramp :
    let M := machine (onPorts [1, 2, 3])
    let is := (List.range 162).map rampInput
    ∃ p ∈ 0 :: (M.run is).words, (M.run (is ++ [rampInput 162])).chip.cor.correlation.toNat =
      p.toNat * ((M.run is).words.getD 2 0).toNat +
        ((M.run is).words.getD 1 0).toNat * ((M.run is).words.getD 3 0).toNat := by
  intro M is
  have hall : ∀ i ∈ is, ∀ x, Chip.ConfigOnly (onPorts [1, 2, 3]) x i := by
    intro i hi x p hp1 hp2 hp3 hv
    obtain ⟨t, -, rfl⟩ := List.mem_map.1 hi
    have hon : ∀ p : Fin 8, p ≠ 1 → p ≠ 2 → p ≠ 3 → onPorts [1, 2, 3] p = false := by decide
    rw [Chip.sends, hon p hp1 hp2 hp3, if_neg Bool.false_ne_true] at hv
    exact absurd (show TdmaMinPort.idle.valid = true from hv) (by decide)
  obtain ⟨hdone, hw, hnewest, hpairs⟩ : (M.run is).bench.Completes (M.run is).recv ∧
      (M.run (is ++ [rampInput 162])).board.InWindow ∧ (M.run is).newest = 3 ∧
      (M.run (is ++ [rampInput 162])).board.pairs = 2 := by decide +kernel
  have h := @correlates_late (onPorts [1, 2, 3]) (by decide) (by decide) (by decide) is (rampInput 162)
    ((Machine.along_of_forall hall).mono fun x _ hi => hi x) hdone hw
  obtain ⟨-, p, hp, hsum⟩ := h
  refine ⟨p, hp, hsum.trans ?_⟩
  rw [hnewest, hpairs, lateCorrelation, Finset.sum_range_one]

end MemoryBench
end TdmaSoc
