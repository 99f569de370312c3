import TdmaSoc.Asm.Preservation
import TdmaSoc.ReCOP.Port
import TdmaSoc.Tdma.Latency

/-!
# The packets of a program

From the text of a program to the ports of the network. While the processor does a line, port 5 offers the packet
for the word that DPCR held before the line (`sendSignal_line`); in the 12 or 14 clocks of the line the FIFO takes
it at least once, and the network shows it to its target. So what the ports have seen is read off the run of the
text (`program_seen`).
-/

namespace TdmaSoc
open Recop

namespace Recop

/-- The clocks in which the instructions start. -/
def starts (rom : ProgMem) (s₀ : Recop) (i : Nat) : Nat := (finish rom s₀)^[i] 0

variable {rom : ProgMem} {s₀ : Recop}

theorem starts_succ (i : Nat) : starts rom s₀ (i + 1) = finish rom s₀ (starts rom s₀ i) :=
  Function.iterate_succ_apply' ..

theorem cycles_bounds (w : Word) : 12 ≤ w.cycles ∧ w.cycles ≤ 14 := by
  unfold Word.cycles
  split <;> omega

theorem starts_bounds (rom : ProgMem) (s₀ : Recop) (n : Nat) : 12 * n ≤ starts rom s₀ n ∧ starts rom s₀ n ≤ 14 * n := by
  induction n with
  | zero => exact ⟨Nat.le_refl 0, Nat.le_refl 0⟩
  | succ n ih =>
    have := cycles_bounds (rom (s₀.sample rom (starts rom s₀ n)).pc)
    rw [starts_succ, finish]
    omega

/-- The instructions are the lines of the text. -/
theorem sample_starts {py : Python} {asmLines : List Str} {words : List Word} {mem : BitVec 12 → Word}
    (hall : ∀ line ∈ Asm.instrs py asmLines, Asm.Sound py asmLines line) (h : Asm.assemble py asmLines = .ok words)
    (hrom : rom.Loaded 0 words) {i : Nat} {a : Arch} (hrun : Asm.Source.run py asmLines i (.boot mem) = some a) :
    (blank mem).FirstT0 rom (starts rom (blank mem) i) ∧
      (blank mem).sample rom (starts rom (blank mem) i) = a := by
  induction i generalizing a with
  | zero =>
    cases hrun
    exact ⟨firstT0_zero, sample_zero rom mem⟩
  | succ i ih =>
    rw [Asm.Source.run_succ] at hrun
    obtain ⟨b, hb, hstep⟩ := Option.bind_eq_some_iff.1 hrun
    obtain ⟨hfirst, rfl⟩ := ih hb
    rw [starts_succ]
    exact Asm.step_preserved hall h hrom hfirst hstep

end Recop

namespace RecopNet
variable {rom : ProgMem} {mem : BitVec 12 → Word} {env : Nat → RecopNetInput}

/-- The packet for a word of DPCR, if no key is pressed. -/
def offer (v : BitVec 32) : TdmaMinPort := if v.slice 28 4 = 0 then .idle else RecopPort.dpcrPacket v

theorem packet_of_keys (v : BitVec 32) (sw : BitVec 10) : RecopPort.packet v 0b1111 sw = offer v := by
  unfold RecopPort.packet offer
  rfl

/-- A word of DPCR that the network takes as a packet, one of type 8 or more, is for one of its ports. -/
def Addressed (v : BitVec 32) : Prop := 8 ≤ (v.slice 28 4).toNat → (v.slice 24 4).toNat < 8

instance (v : BitVec 32) : Decidable (Addressed v) := inferInstanceAs (Decidable (_ → _))

theorem offer_of_type {v : BitVec 32} (hv : 8 ≤ (v.slice 28 4).toNat) : offer v = RecopPort.dpcrPacket v := by
  refine if_neg fun h0 => ?_
  rw [h0] at hv
  exact absurd hv (by decide)

theorem valid_offer (v : BitVec 32) : (offer v).valid = decide (8 ≤ (v.slice 28 4).toNat) := by
  by_cases h0 : v.slice 28 4 = 0
  · rw [offer, if_pos h0, h0]
    rfl
  · rw [offer, if_neg h0]
    refine (msb_eq_packetType_msb _).trans ?_
    rw [packetType, (conveys_dpcrPacket v).type, BitVec.msb_eq_decide]

theorem offer_target {v : BitVec 32} (h : Addressed v) (hv : (offer v).valid = true) :
    ∃ d : Fin 8, (offer v).addr = TdmaMin.portAddr d := by
  rw [valid_offer, decide_eq_true_eq] at hv
  rw [← packet_of_keys v 0]
  exact packet_addr (.inr ⟨hv, h hv⟩) ..

/-- The network and what is offered to it, clock by clock. -/
def nets (rom : ProgMem) (mem : BitVec 12 → Word) (env : Nat → RecopNetInput) (g : Nat) : TdmaMin 8 :=
  (after rom mem env g).net

def offers (rom : ProgMem) (mem : BitVec 12 → Word) (env : Nat → RecopNetInput) (g : Nat) : Fin 8 → TdmaMinPort :=
  (after rom mem env g).sends (env g)

theorem offers_port (g : Nat) : offers rom mem env g 5 = (after rom mem env g).port.sendSignal := by
  rw [offers, sends, if_pos rfl]

theorem nets_succ (rom : ProgMem) (mem : BitVec 12 → Word) (env : Nat → RecopNetInput) (g : Nat) :
    nets rom mem env (g + 1) = (nets rom mem env g).clock (offers rom mem env g) :=
  net_succ rom mem env g

/-- The ports that the packets in the queue of port 5 go to are all there. -/
def Targeted (rom : ProgMem) (mem : BitVec 12 → Word) (env : Nat → RecopNetInput) (g : Nat) : Prop :=
  ∀ y ∈ (nets rom mem env g).queue 5, ∃ d : Fin 8, y.addr = TdmaMin.portAddr d

section
variable (hkey : ∀ g, 100 ≤ g → (env g).key = 0b1111)
include hkey

theorem key_released {g : Nat} (hg : 100 ≤ g) : (env g).key.getLsbD 0 = true := by
  rw [hkey g hg]
  rfl

theorem offers_early (rom : ProgMem) (mem : BitVec 12 → Word) {g : Nat} (hg : g < 102) :
    offers rom mem env g 5 = .idle := by
  rw [offers_port]
  by_cases h100 : g ≤ 100
  · rw [port_of_le h100]
  · rw [show g = 101 by omega, port_released fun g hg => key_released hkey hg, hkey 100 (Nat.le_refl _),
      packet_of_keys]
    rfl

/-- While an instruction is done, the packet for the word that it finds in DPCR is offered. -/
theorem offers_line {t k : Nat} (ht : (blank mem).FirstT0 rom t)
    (hk : k < (rom ((blank mem).sample rom t).pc).cycles) :
    offers rom mem env (102 + t + k) 5 = offer ((blank mem).sample rom t).dpcr := by
  rw [offers_port, show 102 + t + k = 101 + (t + k) + 1 by omega, sendSignal_succ fun g hg => key_released hkey hg,
    hkey _ (by omega), packet_of_keys, ht.dpcr hk]

theorem taken_early (rom : ProgMem) (mem : BitVec 12 → Word) :
    TdmaMin.taken (nets rom mem env) (offers rom mem env) 5 0 102 = [] ∧ Targeted rom mem env 102 := by
  have hidle : ∀ j < 102, offers rom mem env (0 + j) 5 = .idle := fun j hj => by
    rw [Nat.zero_add]
    exact offers_early hkey rom mem hj
  constructor
  · obtain ⟨k, -, htaken, hnone, -⟩ := TdmaMin.taken_constant (x := nets rom mem env) hidle
    rw [htaken, hnone rfl]
    rfl
  · have hempty : ∀ y ∈ (nets rom mem env 0).queue 5, ∃ d : Fin 8, y.addr = TdmaMin.portAddr d :=
      fun y hy => absurd hy List.not_mem_nil
    have hqueue := TdmaMin.queue_targets (nets_succ rom mem env) hempty fun j hj _ =>
      ⟨0, congrArg TdmaMinPort.addr (hidle j hj)⟩
    rwa [Nat.zero_add] at hqueue

/-- What the FIFO takes during an instruction. -/
theorem taken_line {t : Nat} (ht : (blank mem).FirstT0 rom t) (hq : Targeted rom mem env (102 + t))
    (haddressed : Addressed ((blank mem).sample rom t).dpcr) :
    ∃ k ≤ 14, TdmaMin.taken (nets rom mem env) (offers rom mem env) 5 (102 + t)
        (rom ((blank mem).sample rom t).pc).cycles =
          List.replicate k (RecopPort.dpcrPacket ((blank mem).sample rom t).dpcr) ∧
      (k = 0 ↔ (((blank mem).sample rom t).dpcr.slice 28 4).toNat < 8) ∧
      Targeted rom mem env (102 + finish rom (blank mem) t) := by
  obtain ⟨hmin, hmax⟩ := cycles_bounds (rom ((blank mem).sample rom t).pc)
  obtain ⟨k, hk, htaken, hnone, hsome⟩ := TdmaMin.taken_constant (x := nets rom mem env) (g := 102 + t)
    (m := (rom ((blank mem).sample rom t).pc).cycles) fun j hj => offers_line hkey ht hj
  have htargets : Targeted rom mem env (102 + finish rom (blank mem) t) := by
    have hoffer := offer_target haddressed
    rw [finish, ← Nat.add_assoc]
    refine TdmaMin.queue_targets (nets_succ rom mem env) hq fun j hj => ?_
    rw [offers_line hkey ht hj]
    exact hoffer
  have hvalid := valid_offer ((blank mem).sample rom t).dpcr
  by_cases hv : 8 ≤ (((blank mem).sample rom t).dpcr.slice 28 4).toNat
  · obtain ⟨j, hj, hroom⟩ := TdmaMin.exists_not_full_at (nets_succ rom mem env) hq
    have hpos := hsome (hvalid.trans (decide_eq_true hv)) ⟨j, by omega, hroom⟩
    exact ⟨k, by omega, by rw [htaken, offer_of_type hv], iff_of_false (by omega) (by omega), htargets⟩
  · have hk0 : k = 0 := hnone (hvalid.trans (decide_eq_false hv))
    exact ⟨0, Nat.zero_le _, by rw [htaken, hk0]; rfl, iff_of_true rfl (by omega), htargets⟩

section
variable {py : Python} {asmLines : List Str} {words : List Word} {n : Nat} {a : Nat → Arch}
  (hall : ∀ line ∈ Asm.instrs py asmLines, Asm.Sound py asmLines line) (h : Asm.assemble py asmLines = .ok words)
  (hrom : rom.Loaded 0 words) (hrun : ∀ i ≤ n, Asm.Source.run py asmLines i (.boot mem) = some (a i))
  (haddressed : ∀ i < n, Addressed (a i).dpcr)
include hall h hrom hrun haddressed

theorem targeted_starts {i : Nat} (hi : i ≤ n) : Targeted rom mem env (102 + starts rom (blank mem) i) := by
  induction i with
  | zero => exact (taken_early hkey rom mem).2
  | succ i ih =>
    obtain ⟨hfirst, hsample⟩ := sample_starts hall h hrom (hrun i (by omega))
    obtain ⟨-, -, -, -, htargets⟩ := taken_line hkey hfirst (ih (by omega)) (hsample ▸ haddressed i (by omega))
    rw [starts_succ]
    exact htargets

/-- What the FIFO takes in the first `n` lines. -/
theorem taken_program : ∃ copies : Nat → Nat,
    (∀ i < n, copies i ≤ 14 ∧ (copies i = 0 ↔ ((a i).dpcr.slice 28 4).toNat < 8)) ∧
    TdmaMin.taken (nets rom mem env) (offers rom mem env) 5 0 (102 + starts rom (blank mem) n) =
      (List.range n).flatMap fun i => List.replicate (copies i) (RecopPort.dpcrPacket (a i).dpcr) := by
  have hline (i : Nat) : ∃ k, i < n → k ≤ 14 ∧ (k = 0 ↔ ((a i).dpcr.slice 28 4).toNat < 8) ∧
      TdmaMin.taken (nets rom mem env) (offers rom mem env) 5 (102 + starts rom (blank mem) i)
          (rom ((blank mem).sample rom (starts rom (blank mem) i)).pc).cycles =
        List.replicate k (RecopPort.dpcrPacket (a i).dpcr) := by
    by_cases hi : i < n
    · obtain ⟨hfirst, hsample⟩ := sample_starts hall h hrom (hrun i (by omega))
      have htargeted := targeted_starts hkey hall h hrom hrun haddressed (Nat.le_of_lt hi)
      obtain ⟨k, hk, htaken, hnull, -⟩ := taken_line hkey hfirst htargeted (hsample ▸ haddressed i hi)
      rw [hsample] at htaken hnull
      rw [hsample]
      exact ⟨k, fun _ => ⟨hk, hnull, htaken⟩⟩
    · exact ⟨0, fun h => absurd h hi⟩
  choose copies hcopies using hline
  refine ⟨copies, fun i hi => ⟨(hcopies i hi).1, (hcopies i hi).2.1⟩, ?_⟩
  have hfirst (m : Nat) (hm : m ≤ n) :
      TdmaMin.taken (nets rom mem env) (offers rom mem env) 5 0 (102 + starts rom (blank mem) m) =
        (List.range m).flatMap fun i => List.replicate (copies i) (RecopPort.dpcrPacket (a i).dpcr) := by
    induction m with
    | zero => exact (taken_early hkey rom mem).1
    | succ m ih =>
      rw [starts_succ, finish, ← Nat.add_assoc, TdmaMin.taken_add, ih (by omega), Nat.zero_add,
        (hcopies m hm).2.2, List.range_succ, List.flatMap_append, List.flatMap_singleton]
  exact hfirst n (Nat.le_refl n)

end
end

/-- From the text of a program to the ports. With the keys released and the words of a program of sound lines at
address 0, let the text run `n` lines from reset, and before each of them let DPCR hold a word of a type below 8 or
one for a port of the network. The processor does these lines in `t` of its clocks, and within 2048 clocks every port
has been shown under the label 5 its share of the packets for these words of DPCR, in their order: each packet one to
fourteen times, none for a word of a type below 8, and nothing else. -/
theorem program_seen (py : Python) (asmLines : List Str) (words : List Word)
    (hall : ∀ line ∈ Asm.instrs py asmLines, Asm.Sound py asmLines line) (h : Asm.assemble py asmLines = .ok words)
    (rom : ProgMem) (mem : BitVec 12 → Word) (env : Nat → RecopNetInput) (hrom : rom.Loaded 0 words)
    (hkey : ∀ g, 100 ≤ g → (env g).key = 0b1111) (n : Nat) (a : Nat → Arch)
    (hrun : ∀ i ≤ n, Asm.Source.run py asmLines i (.boot mem) = some (a i))
    (haddressed : ∀ i < n, Addressed (a i).dpcr) :
    ∃ (t : Nat) (copies : Nat → Nat) (g : Nat),
      (blank mem).FirstT0 rom t ∧ (blank mem).sample rom t = a n ∧ 12 * n ≤ t ∧ t ≤ 14 * n ∧
      (∀ i < n, copies i ≤ 14 ∧ (copies i = 0 ↔ ((a i).dpcr.slice 28 4).toNat < 8)) ∧
      102 + t ≤ g ∧ g ≤ 102 + t + 2048 ∧
      ∀ d : Fin 8, TdmaMin.seen (fun g => (after rom mem env g).net) 5 d g = TdmaMin.wordsFor d
        ((List.range n).flatMap fun i => List.replicate (copies i) (RecopPort.dpcrPacket (a i).dpcr)) := by
  obtain ⟨copies, hcopies, htaken⟩ := taken_program hkey hall h hrom hrun haddressed
  have htargeted := targeted_starts hkey hall h hrom hrun haddressed (Nat.le_refl n)
  have hall' : (nets rom mem env (102 + starts rom (blank mem) n)).queue 5 = _ ++ [] := (List.append_nil _).symm
  obtain ⟨k, -, hk, hqueue⟩ := TdmaMin.drains (nets_succ rom mem env) (by decide) (by decide) htargeted hall'
  obtain ⟨hfirst, hsample⟩ := sample_starts hall h hrom (hrun n (Nat.le_refl n))
  obtain ⟨hmin, hmax⟩ := starts_bounds rom (blank mem) n
  have hlength : ((nets rom mem env (102 + starts rom (blank mem) n)).queue 5).length ≤ 256 :=
    ((nets rom mem env (102 + starts rom (blank mem) n)).interfaces 5).fifo.fits
  have hrounds : 2 ^ stages 8 = 8 := by decide
  rw [hrounds] at hk
  refine ⟨starts rom (blank mem) n, copies, 102 + starts rom (blank mem) n + k, hfirst, hsample, hmin, hmax, hcopies,
    by omega, by omega, fun d => ?_⟩
  have hledger := TdmaMin.seen_append_waiting (nets_succ rom mem env) (by decide) (by decide) rfl 5 d
    (102 + starts rom (blank mem) n + k)
  rw [hqueue, List.nil_append, TdmaMin.taken_add, Nat.zero_add, TdmaMin.wordsFor_append, htaken] at hledger
  exact List.append_cancel_right hledger

theorem program_seen_resend : ∃ k g, 0 < k ∧ k ≤ 14 ∧ g ≤ 2192 ∧ TdmaMin.seen
    (fun g => (after (.holding 0 Asm.resendWords) (fun _ => 0) (fun _ => ⟨0b1111, 0, fun _ => .idle⟩) g).net) 5 3 g =
      List.replicate k 0x80000005 := by
  obtain ⟨t, copies, g, -, -, -, ht, hcopies, -, hle, hseen⟩ := program_seen .ascii Asm.resend Asm.resendWords
    (by decide +kernel) (by decide +kernel) (.holding 0 Asm.resendWords) (fun _ => 0)
    (fun _ => ⟨0b1111, 0, fun _ => .idle⟩) (ProgMem.loaded_of_length (by decide)) (fun _ _ => rfl) 3 Asm.resendState
    (fun i hi => Asm.run_resend hi) (by decide)
  have h0 : copies 0 = 0 := (hcopies 0 (by omega)).2.2 (by decide)
  have h1 : copies 1 = 0 := (hcopies 1 (by omega)).2.2 (by decide)
  have h2 : ¬copies 2 = 0 := fun h => absurd ((hcopies 2 (by omega)).2.1 h) (by decide)
  refine ⟨copies 2, g, by omega, (hcopies 2 (by omega)).1, by omega, (hseen 3).trans ?_⟩
  show TdmaMin.wordsFor 3 (List.replicate (copies 0) _ ++ (List.replicate (copies 1) _ ++
    (List.replicate (copies 2) ⟨3, 0x80000005⟩ ++ []))) = _
  rw [h0, h1, List.append_nil]
  exact TdmaMin.wordsFor_replicate (copies 2) rfl

end RecopNet
end TdmaSoc
