import TdmaSoc.Asp.Memory
import TdmaSoc.Asp.SamplingChain

/-!
# CorAsp hears of every average

The announcements under way are for the words that have been written and that CorAsp has not heard of, in order
(`Heard`): so the newest address that it knows is that of the word it has heard of last.
-/

namespace TdmaSoc
open TdmaMin

namespace Chip
variable {on : Fin 8 → Bool} {x : Chip} {i : ChipInput}

/-- The announcements from the one on show at port 3 back to the one on AvgAsp's port. -/
def announcing (x : Chip) : List TdmaMinData :=
  (shown 2 3 x.net ++ wordsFor (3 : Fin 8) (x.net.queue 2 ++ x.avg.sendSignal.packets)).filter isAvgAddr

theorem length_announcing_le (h : x.Chain) : x.announcing.length ≤ 4 := by
  have hshown : (shown 2 3 x.net).length ≤ 1 := by
    unfold shown
    split <;> simp
  have hsent : x.avg.sendSignal.packets.length ≤ 1 := by
    rcases x.avg.sendSignal.packets_cases with hp | ⟨-, hp⟩ <;> rw [hp] <;> simp
  have hwords : (wordsFor (3 : Fin 8) (x.net.queue 2 ++ x.avg.sendSignal.packets)).length ≤
      (x.net.queue 2 ++ x.avg.sendSignal.packets).length := by
    rw [wordsFor, List.length_map]
    exact List.length_filter_le ..
  have hqueue := h.queue2_le
  have hall : x.announcing.length ≤ _ := List.length_filter_le ..
  rw [List.length_append] at hall hwords
  omega

/-- Announcements to port 3 come from port 2. -/
theorem ChainPacket.port_of_avgAddr {p : Fin 8} {packet : TdmaMinPort} (h : ChainPacket p packet)
    (haddr : packet.addr = portAddr (3 : Fin 8)) (ha : isAvgAddr packet.data = true) : p = 2 := by
  by_contra hp2
  by_cases hp1 : p = 1
  · rw [isAvgAddr, (h.adc hp1).isData_false (by decide)] at ha
    cases ha
  by_cases hp3 : p = 3
  · have hcor := h.cor hp3
    cases hcor <;> simp [isAvgAddr, TdmaMinPort.idle] at ha
  · have hconfig := (h.config hp1 hp2 hp3 (by rw [haddr]; decide)).2.1
    rw [isAvgAddr, isData_of_isConfig hconfig] at ha
    cases ha

theorem filter_shown (h : x.Chain) : (shown 2 3 x.net).filter isAvgAddr = [(x.net.recvs 3).data].filter isAvgAddr := by
  cases ha : isAvgAddr (x.net.recvs 3).data
  · unfold shown
    split <;> simp [ha]
  · have hlabel : (x.net.recvs 3).addr = portAddr (2 : Fin 8) := by
      rcases h.carries.2 3 with h0 | ⟨p, hp, hpacket⟩
      · rw [h0] at ha
        exact absurd ha (by decide)
      · rw [hp, hpacket.port_of_avgAddr rfl ha]
    rw [shown, if_pos ⟨msb_of_isData ha, hlabel⟩]

/-- The announcement that is sent for the word that is written. -/
theorem sent_announcement (on : Fin 8 → Bool) (x : Chip) (i : ChipInput) :
    ((wordsFor (3 : Fin 8) (x.clock on i).avg.sendSignal.packets).filter isAvgAddr).map (·.slice 0 10) =
      (AvgAspRAM.writes x.avg (x.net.recvs 2)).map (·.1) := by
  have hsend : (x.clock on i).avg.sendSignal = if x.avg.ldr.avgReady then AvgAspRAM.addrPacket x.avg.ramWaddr
      else if x.avg.readRequest then AvgAspRAM.dataPacket x.avg.prevCorrCalculate x.avg.ram.qReg else .idle := rfl
  rw [hsend, AvgAspRAM.writes]
  have hkind (packet : TdmaMinPort) (hp : packet.addr = portAddr (3 : Fin 8)) (hv : packet.valid = true) :
      wordsFor (3 : Fin 8) packet.packets = [packet.data] := by
    rw [TdmaMinPort.packets, if_pos hv, wordsFor_singleton, if_pos hp]
  split_ifs with hready hread
  · have haddr : isAvgAddr (AvgAspRAM.addrPacket x.avg.ramWaddr).data = true := by simp [isAvgAddr]
    rw [hkind _ rfl (msb_of_isData haddr), List.filter_singleton, haddr]
    exact congrArg (fun a => [a]) (AvgAspRAM.slice_addrPacket _)
  · have hdata : isAvgData (AvgAspRAM.dataPacket x.avg.prevCorrCalculate x.avg.ram.qReg).data = true := by
      simp [isAvgData]
    rw [hkind _ rfl (msb_of_isData hdata), List.filter_singleton, isAvgAddr, AvgAspRAM.isData_dataPacket]
    rfl
  · rfl

theorem announcing_clock (h2 : on 2 = true) (h : x.Chain) (i : ChipInput) :
    [(x.net.recvs 3).data].filter isAvgAddr ++ (x.clock on i).announcing =
      x.announcing ++ (wordsFor (3 : Fin 8) (x.clock on i).avg.sendSignal.packets).filter isAvgAddr := by
  have hledger := shown_ledger (x.sends on i) (p := 2) (by omega) (by omega) h.loop.sound.queues
    (fun _ => Nat.lt_of_le_of_lt h.queue2_le (by omega)) 3
  rw [sends_avg x i h2] at hledger
  have hledger : shown 2 3 (x.clock on i).net ++ wordsFor (3 : Fin 8) ((x.clock on i).net.queue 2) = _ := hledger
  rw [← filter_shown h, announcing, announcing, wordsFor_append, ← List.append_assoc (shown 2 3 (x.clock on i).net),
    hledger, List.filter_append, List.filter_append, List.append_assoc]

end Chip
end TdmaSoc
