import TdmaSoc.Asp.Announcements
import TdmaSoc.Asp.Correlation
import TdmaSoc.Asp.LateAnswers

/-!
# The read loop with a record

`MemoryBench` watches the chip. It keeps the scoreboard of CorAsp, the words that have been written to the memory
and how many of them CorAsp has heard of, the address of the last request and of the one before it, and the word
that the memory showed when the last request was latched. `Reads` says where these are in the loop, `Hears` what CorAsp
knows of the newest word.
-/

namespace TdmaSoc
open Window

structure MemoryBench where
  chip : Chip
  board : Scoreboard
  words : List (BitVec 16)
  /-- The announcements that CorAsp has been shown. -/
  heard : Nat
  /-- The number of the newest word that CorAsp had heard of when it began. -/
  newest : Nat
  asked : Address
  before : Address
  word : BitVec 16

namespace MemoryBench

def init : MemoryBench := ⟨.init, .init, [], 0, 0, 0, 0, 0⟩

def recv (x : MemoryBench) : TdmaMinPort := x.chip.net.recvs 3

/-- The state of CorAsp after this clock. -/
def cor (x : MemoryBench) : CorAsp := x.chip.cor.clock x.recv

def nowHeard (x : MemoryBench) : Nat := if isAvgAddr x.recv.data then x.heard + 1 else x.heard

def requests (x : MemoryBench) : Bool := isAvgRequest x.cor.sendSignal.data

def clock (on : Fin 8 → Bool) (x : MemoryBench) (i : ChipInput) : MemoryBench where
  chip := x.chip.clock on i
  board := x.board.observe x.chip.cor x.recv x.cor
  words := x.words ++ (AvgAspRAM.writes x.chip.avg (x.chip.net.recvs 2)).map (·.2)
  heard := x.nowHeard
  newest := if x.requests = true ∧ x.chip.cor.state = .S0 then x.nowHeard - 1 else x.newest
  asked := if x.requests then x.cor.sendSignal.data.slice 0 10 else x.asked
  before := if x.requests then x.asked else x.before
  word := if isAvgRequest (x.chip.net.recvs 2).data then x.chip.avg.ram.ram x.chip.avg.ramRaddr else x.word

def machine (on : Fin 8 → Bool) : Machine MemoryBench ChipInput := ⟨init, clock on⟩

/-- CorAsp and its scoreboard. -/
def bench (x : MemoryBench) : CorBench := ⟨x.chip.cor, x.board⟩

variable {on : Fin 8 → Bool} {x : MemoryBench} {i : ChipInput}

structure Reads (x : MemoryBench) : Prop where
  asked : x.chip.cor.hasSendAvgDataRq = true → x.chip.cor.avgDataMemAddr = x.asked
  asks : x.chip.Asks x.asked
  /-- The memory has the last address, but for a request that is yet to come to it. -/
  latched : x.chip.avg.ramRaddr = if 0 < x.chip.upstream then x.before else x.asked
  brings : x.chip.Brings x.word

theorem Reads.init : init.Reads :=
  ⟨fun h => Bool.noConfusion h, .of_none .init rfl 0, rfl, .of_none .init rfl 0⟩

/-- A request on show is for the last address. -/
theorem Reads.shown (h : x.Reads) (hr : isAvgRequest (x.chip.net.recvs 2).data = true) :
    (x.chip.net.recvs 2).data.slice 0 10 = x.asked := by
  rcases h.asks.carried.2 2 with h0 | ⟨p, -, hp⟩
  · rw [h0] at hr
    exact absurd hr (by decide)
  · exact hp hr rfl

/-- An answer on show brings the word that was read. -/
theorem Reads.answer (h : x.Reads) (hd : isAvgData x.recv.data = true) : x.recv.data.slice 0 16 = x.word := by
  rcases h.brings.carried.2 3 with h0 | ⟨p, -, hp⟩
  · rw [recv, h0] at hd
    exact absurd hd (by decide)
  · exact hp hd rfl

theorem Reads.clock (h2 : on 2 = true) (h3 : on 3 = true) (h : x.Reads) (hchain : x.chip.Chain)
    (hc : Chip.LoopClosed on x.chip i) (hp : x.chip.avg.Prompt) : (x.clock on i).Reads := by
  have hloop := hchain.loop
  have hup := Chip.upstream_clock h3 hchain hc
  have hadd := hloop.upstream_add
  have hsent : isAvgRequest (x.chip.clock on i).cor.sendSignal.data = x.requests := rfl
  have hasked : (x.clock on i).asked = if x.requests then x.cor.sendSignal.data.slice 0 10 else x.asked := rfl
  have hbefore : (x.clock on i).before = if x.requests then x.asked else x.before := rfl
  have hraddr : (x.chip.clock on i).avg.ramRaddr = if isAvgRequest (x.chip.net.recvs 2).data
      then (x.chip.net.recvs 2).data.slice 0 10 else x.chip.avg.ramRaddr := rfl
  have hbrings : (x.clock on i).chip.Brings (x.clock on i).word := by
    show (x.chip.clock on i).Brings (if isAvgRequest (x.chip.net.recvs 2).data then _ else x.word)
    split
    · rename_i hshown
      exact .latch h2 h3 hloop hc hshown
    · rename_i hshown
      exact h.brings.clock h2 h3 hloop hc hp (by simpa using hshown)
  have hlatched := h.latched
  rw [hsent] at hup
  rcases hloop.hand.request_cases hloop.answer_hasSend with ⟨hreq, hs, hs', -, haddr⟩ | ⟨hreq, hkeep⟩
  · -- a request finds no other in the loop
    have hreq : x.requests = true := hreq
    rw [hs, Bool.toNat_false] at hadd
    have hzero : x.chip.upstream = 0 := by omega
    have hnot : isAvgRequest (x.chip.net.recvs 2).data = false := by
      by_contra hshown
      rw [hreq, Bool.eq_true_of_not_eq_false hshown, Bool.toNat_true] at hup
      unfold Chip.upstream at hzero
      rw [Bool.eq_true_of_not_eq_false hshown, Bool.toNat_true] at hzero
      omega
    rw [hreq, if_pos rfl] at hasked hbefore
    rw [hzero, if_neg (Nat.lt_irrefl 0)] at hlatched
    refine ⟨fun _ => ?_, ?_, ?_, hbrings⟩
    · rw [hasked]
      exact haddr
    · rw [hasked]
      exact (Chip.Asks.of_none hloop hzero _).clock h3 hloop hc h2 fun _ => rfl
    · show (x.chip.clock on i).avg.ramRaddr = if 0 < (x.chip.clock on i).upstream then _ else _
      rw [hreq, hnot, hzero, Bool.toNat_true, Bool.toNat_false] at hup
      rw [hraddr, hnot, if_neg Bool.false_ne_true, hbefore, if_pos (by omega)]
      exact hlatched
  · have hreq : x.requests = false := hreq
    rw [hreq, if_neg Bool.false_ne_true] at hasked hbefore
    rw [hreq, Bool.toNat_false] at hup
    have hle := Bool.toNat_le x.chip.cor.hasSendAvgDataRq
    refine ⟨fun hs' => ?_, ?_, ?_, hbrings⟩
    · obtain ⟨hs, haddr⟩ := hkeep hs'
      rw [hasked]
      exact haddr.trans (h.asked hs)
    · rw [hasked]
      exact h.asks.clock h3 hloop hc h2 fun hreq' => by
        rw [hsent, hreq] at hreq'
        cases hreq'
    · show (x.chip.clock on i).avg.ramRaddr = if 0 < (x.chip.clock on i).upstream then _ else _
      rw [hraddr, hbefore, hasked]
      cases hshown : isAvgRequest (x.chip.net.recvs 2).data
      · rw [hshown, Bool.toNat_false] at hup
        rw [if_neg Bool.false_ne_true, hlatched, show (x.chip.clock on i).upstream = x.chip.upstream by omega]
      · rw [hshown, Bool.toNat_true] at hup
        rw [if_pos rfl, h.shown hshown, if_neg (by omega)]

/-! ### The newest word -/

structure Hears (x : MemoryBench) : Prop where
  order : (List.range x.heard).map (BitVec.ofNat 10) ++ x.chip.announcing.map (·.slice 0 10) =
    (List.range x.words.length).map (BitVec.ofNat 10)
  newest : x.chip.cor.newestAvgDataAddr = BitVec.ofNat 10 (x.heard - 1)

theorem Hears.init : init.Hears := ⟨rfl, rfl⟩

theorem Hears.length (h : x.Hears) : x.heard + x.chip.announcing.length = x.words.length := by
  have := congrArg List.length h.order
  rwa [List.length_append, List.length_map, List.length_map, List.length_map, List.length_range,
    List.length_range] at this

/-- The announcement on show is the next one. -/
theorem Hears.shown (h : x.Hears) (hchain : x.chip.Chain) (ha : isAvgAddr x.recv.data = true) :
    x.recv.data.slice 0 10 = BitVec.ofNat 10 x.heard := by
  have hshown : (TdmaMin.shown 2 3 x.chip.net).filter isAvgAddr = [x.recv.data] := by
    rw [Chip.filter_shown hchain, List.filter_singleton, show isAvgAddr (x.chip.net.recvs 3).data = true from ha]
    rfl
  have horder := h.order
  have hlen := h.length
  rw [Chip.announcing, List.filter_append, hshown] at horder hlen
  rw [List.length_append, List.length_singleton] at hlen
  have hget := congrArg (·[x.heard]?) horder
  rw [List.getElem?_append_right (by simp), List.length_map, List.length_range, Nat.sub_self, List.getElem?_map,
    List.getElem?_map, List.getElem?_range (by omega)] at hget
  exact Option.some.inj hget

theorem Hears.clock (h2 : on 2 = true) (h : x.Hears) (hchain : x.chip.Chain) (hk : x.chip.avg.Keeps x.words) :
    (x.clock on i).Hears := by
  have hheard : (x.clock on i).heard = if isAvgAddr x.recv.data then x.heard + 1 else x.heard := rfl
  have hmoves := congrArg (List.map (·.slice 0 10)) (Chip.announcing_clock h2 hchain i)
  have hsent := Chip.sent_announcement on x.chip i
  rw [List.map_append, List.map_append, hsent] at hmoves
  constructor
  · have hnow : (List.range (x.clock on i).heard).map (BitVec.ofNat 10) = (List.range x.heard).map (BitVec.ofNat 10) ++
        ([(x.chip.net.recvs 3).data].filter isAvgAddr).map (·.slice 0 10) := by
      rw [hheard, List.filter_singleton]
      cases ha : isAvgAddr x.recv.data
      · rw [show isAvgAddr (x.chip.net.recvs 3).data = false from ha]
        exact (List.append_nil _).symm
      · rw [show isAvgAddr (x.chip.net.recvs 3).data = true from ha, if_pos rfl, List.range_succ, List.map_append]
        exact congrArg (fun a => _ ++ [a]) (h.shown hchain ha).symm
    have hwritten : (List.range (x.clock on i).words.length).map (BitVec.ofNat 10) =
        (List.range x.words.length).map (BitVec.ofNat 10) ++
          (AvgAspRAM.writes x.chip.avg (x.chip.net.recvs 2)).map (·.1) := by
      show (List.range (x.words ++ _).length).map _ = _
      rw [AvgAspRAM.writes]
      cases x.chip.avg.ldr.avgReady
      · rw [if_neg Bool.false_ne_true, List.map_nil, List.append_nil]
        exact (List.append_nil _).symm
      · rw [if_pos rfl, List.map_singleton, List.length_append, List.length_singleton, List.range_succ, List.map_append,
          List.map_singleton, List.map_singleton, hk.waddr]
    rw [hnow, hwritten, ← h.order, List.append_assoc, List.append_assoc]
    exact congrArg (_ ++ ·) hmoves
  · show (x.chip.cor.clock x.recv).newestAvgDataAddr = _
    rw [CorAsp.clock_newestAvgDataAddr, hheard]
    cases ha : isAvgAddr x.recv.data
    · exact h.newest
    · exact h.shown hchain ha

end MemoryBench
end TdmaSoc
