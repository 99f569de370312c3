import TdmaSoc.Asp.ReadDelay
import TdmaSoc.Lib.Component
import TdmaSoc.Lib.Progress

/-!
# The correlation component goes on

An average comes within 48 clocks of the one before, and a correlation takes fourteen at most after its first, since
the counter stays below eight (`CorAsp.Counts`): so a correlation that has begun is completed.
-/

namespace TdmaSoc

namespace CorAsp
variable {s : CorAsp} {recv : TdmaMinPort}

/-- The counter stays within the largest window. -/
structure Counts (s : CorAsp) : Prop where
  size : s.correlationWindowSize ≤ 15
  below : s.state = .S1 ∨ s.state = .S2 → s.counter.toNat ≤ 6
  above : s.state = .S3 → 1 ≤ s.counter.toNat ∧ s.counter.toNat ≤ 7

theorem Counts.init : CorAsp.init.Counts := ⟨by decide, by decide, by decide⟩

/-- The averages that a correlation under way still takes, at most. -/
def toTake (s : CorAsp) : Nat :=
  match s.state with
  | .S0 => 0
  | .S1 => 2 * (7 - s.counter.toNat)
  | .S2 => 2 * (7 - s.counter.toNat) - 1
  | .S3 => 2 * (8 - s.counter.toNat) - 1

theorem Counts.toTake_le (h : s.Counts) (h0 : s.state ≠ .S0) : 1 ≤ s.toTake ∧ s.toTake ≤ 14 := by
  unfold toTake
  cases hstate : s.state with
  | S0 => exact absurd hstate h0
  | S1 =>
    have := h.below (.inl hstate)
    dsimp only
    omega
  | S2 =>
    have := h.below (.inr hstate)
    dsimp only
    omega
  | S3 =>
    have := h.above hstate
    dsimp only
    omega

theorem Counts.size_clock (h : s.Counts) (recv : TdmaMinPort) : (s.clock recv).correlationWindowSize ≤ 15 := by
  rw [clock_correlationWindowSize, decode_correlationWindowSize]
  split
  · exact windowSize_le _
  · exact h.size

theorem Counts.toNat_succ (h : s.Counts) (hstate : s.state = .S2) : (s.counter + 1).toNat = s.counter.toNat + 1 := by
  have := h.below (.inr hstate)
  bv_omega

theorem Counts.clock (h : s.Counts) (hand : s.Handshake) (hr : isAvgData recv.data = true → s.hasSendAvgDataRq = true) :
    (s.clock recv).Counts := by
  have hsize := h.size_clock recv
  cases hand.kind hr with
  | wait hs hd =>
    rw [hand.clock_wait hs hd] at hsize ⊢
    exact ⟨hsize, h.below, h.above⟩
  | dropped hs hd hstate hc =>
    rw [hand.clock_answer_s0 hs hd hstate hc] at hsize ⊢
    exact ⟨hsize, by simp [hstate], by simp [hstate]⟩
  | start hs hd hstate hc =>
    rw [hand.clock_answer_start hs hd hstate hc] at hsize ⊢
    exact ⟨hsize, by simp, by simp⟩
  | product hs hd hstate =>
    rw [hand.clock_answer_s1 hs hd hstate] at hsize ⊢
    exact ⟨hsize, fun _ => h.below (.inl hstate), by simp⟩
  | finish hs hd hstate hn =>
    rw [hand.clock_answer_finish hs hd hstate hn] at hsize ⊢
    exact ⟨hsize, by simp, by simp⟩
  | next hs hd hstate hn =>
    have hlt : s.counter.toNat ≤ 6 := by
      have := h.size
      omega
    rw [hand.clock_answer_s3 hs hd hstate hn] at hsize ⊢
    exact ⟨hsize, fun _ => hlt, by simp⟩
  | half hs hd h2 =>
    have hstate := hand.second h2
    rw [hand.clock_half hs hd h2] at hsize ⊢
    exact ⟨hsize, by simp [hstate], by simp [hstate]⟩
  | s2 hs hd hstate =>
    have hbelow := h.below (.inr hstate)
    have hsucc := h.toNat_succ hstate
    rw [hand.clock_s2 hd hstate] at hsize ⊢
    refine ⟨hsize, by simp, fun _ => ?_⟩
    show 1 ≤ (s.counter + 1).toNat ∧ (s.counter + 1).toNat ≤ 7
    omega
  | request hs hd h2 hstate =>
    rw [hand.clock_request hs hd h2 hstate] at hsize ⊢
    exact ⟨hsize, h.below, h.above⟩

/-- In a correlation a clock without an answer changes nothing about the averages to come. -/
theorem Counts.toTake_quiet (h : s.Counts) (hand : s.Handshake) (hd : isAvgData recv.data = false)
    (h0 : s.state ≠ .S0) :
    (s.clock recv).state ≠ .S0 ∧ (s.clock recv).toTake = s.toTake := by
  have hr : isAvgData recv.data = true → s.hasSendAvgDataRq = true := fun hd' => by
    rw [hd] at hd'
    cases hd'
  cases hand.kind hr with
  | wait hs =>
    rw [hand.clock_wait hs hd]
    exact ⟨h0, rfl⟩
  | dropped _ hd' | start _ hd' | product _ hd' | finish _ hd' | next _ hd' =>
    rw [hd] at hd'
    cases hd'
  | half hs _ h2 => exact absurd (hand.second h2) h0
  | s2 hs _ hstate =>
    have hbelow := h.below (.inr hstate)
    have hsucc := h.toNat_succ hstate
    rw [hand.clock_s2 hd hstate]
    refine ⟨by simp, ?_⟩
    simp only [toTake, hstate]
    omega
  | request hs _ h2 hstate =>
    rw [hand.clock_request hs hd h2 hstate]
    exact ⟨h0, rfl⟩

/-- An answer is one of the averages to come, or it completes the correlation. -/
theorem Counts.toTake_answer (h : s.Counts) (hand : s.Handshake) (hs : s.hasSendAvgDataRq = true)
    (hd : isAvgData recv.data = true) (h0 : s.state ≠ .S0) : s.completed recv ≠ [] ∨
      (s.clock recv).state ≠ .S0 ∧ (s.clock recv).toTake + 1 = s.toTake := by
  cases hand.kind fun _ => hs with
  | wait _ hd' =>
    rw [hd] at hd'
    cases hd'
  | dropped _ _ hstate | start _ _ hstate => exact absurd hstate h0
  | product _ _ hstate =>
    have hbelow := h.below (.inl hstate)
    right
    rw [hand.clock_answer_s1 hs hd hstate]
    refine ⟨by simp, ?_⟩
    simp only [toTake, hstate]
    omega
  | finish _ _ hstate hn =>
    left
    rw [completed, if_pos ⟨hstate, by rw [hand.clock_answer_finish hs hd hstate hn]⟩]
    exact List.cons_ne_nil _ _
  | next _ _ hstate hn =>
    have hsize := h.size
    right
    rw [hand.clock_answer_s3 hs hd hstate hn]
    refine ⟨by simp, ?_⟩
    simp only [toTake, hstate]
    omega
  | half hs' | s2 hs' | request hs' =>
    rw [hs] at hs'
    cases hs'

end CorAsp

namespace Chip
variable {on : Fin 8 → Bool} {x : Chip} {i : ChipInput}

/-! ### Runs -/

def completed (x : Chip) (_ : ChipInput) : List (BitVec 36) := x.cor.completed (x.net.recvs 3)

theorem answers_ne_nil (h : isAvgData (x.net.recvs 3).data = true) : answers x i ≠ [] := by
  rw [answers, List.filter_singleton, h]
  exact List.cons_ne_nil _ _

theorem run_prompt (is : List ChipInput) : ((machine on).run is).avg.Prompt :=
  Machine.always (M := machine on) (I := fun x => x.avg.Prompt) .init (fun x _ hx => hx.clock (x.net.recvs 2)) is

section Run
variable (h1 : on 1 = true) (h2 : on 2 = true) (h3 : on 3 = true)
include h1 h2 h3

theorem run_counts {is : List ChipInput} (h : (machine on).Along (ConfigOnly on) is) :
    ((machine on).run is).cor.Counts := by
  induction is using List.reverseRecOn with
  | nil => exact .init
  | append_singleton is i ih =>
    rw [Machine.along_concat] at h
    rw [Machine.run_concat]
    have hloop := (run_chain h1 h2 h3 h.1).loop
    exact (ih h.1).clock hloop.hand hloop.answer_hasSend

theorem run_awaits {is : List ChipInput} {i : ChipInput} {k : Nat} (h : (machine on).Along (ConfigOnly on) is)
    (hc : ConfigOnly on ((machine on).run is) i) (hk : ((machine on).run is).Awaits k)
    (hback : isAvgData (((machine on).run is).net.recvs 3).data = false) :
    ∃ k' < k, ((machine on).step ((machine on).run is) i).Awaits k' := by
  have hchain := run_chain h1 h2 h3 h
  have hnext := run_chain h1 h2 h3 ((Machine.along_concat ..).2 ⟨h, hc⟩)
  rw [Machine.run_concat] at hnext
  exact hk.clock h2 h3 hchain (hchain.loopClosed h1 hc) hnext (run_prompt is) hback

end Run

/-- A bound on the clocks until the correlation under way is completed. -/
def CompletesIn (x : Chip) (k : Nat) : Prop :=
  x.cor.state ≠ .S0 ∧ ∃ a ≤ 47, x.Awaits a ∧ k + 48 = 48 * x.cor.toTake + a

/-- The read loop and the correlation component go on, whatever is configured meanwhile: in each 48 clocks CorAsp
is given an average, and a correlation that is under way is completed within 672. -/
theorem reads_progress {on : Fin 8 → Bool} (h1 : on 1 = true) (h2 : on 2 = true) (h3 : on 3 = true)
    {is js : List ChipInput} (h : (machine on).Along (ConfigOnly on) (is ++ js)) :
    (∀ m, 48 * m ≤ js.length →
      ((machine on).log answers is).length + m ≤ ((machine on).log answers (is ++ js)).length) ∧
    (((machine on).run is).cor.state ≠ .S0 → 672 ≤ js.length →
      ((machine on).log completed is).length < ((machine on).log completed (is ++ js)).length) := by
  constructor
  · intro m hlen
    refine Machine.log_grows_by Awaits (fun is h => ?_) (fun is i k h hc hk => ?_) h hlen
    · obtain ⟨k, hk, hawaits⟩ := (run_chain h1 h2 h3 h).awaits
      exact ⟨k, by omega, hawaits⟩
    · cases hback : isAvgData (((machine on).run is).net.recvs 3).data
      · exact .inr (run_awaits h1 h2 h3 h hc hk hback)
      · exact .inl (answers_ne_nil hback)
  · intro hstate hlen
    have hpre := ((Machine.along_append ..).1 h).1
    obtain ⟨a, ha, hawaits⟩ := (run_chain h1 h2 h3 hpre).awaits
    have hcounts := run_counts h1 h2 h3 hpre
    have htake := hcounts.toTake_le hstate
    refine Machine.log_grows CompletesIn (fun is i k h hc hk => ?_) h
      (k := 48 * ((machine on).run is).cor.toTake + a - 48) ⟨hstate, a, ha, hawaits, by omega⟩ (by omega)
    obtain ⟨h0, a, ha, hawaits, hk⟩ := hk
    have hloop := (run_chain h1 h2 h3 h).loop
    have hcounts := run_counts h1 h2 h3 h
    cases hback : isAvgData (((machine on).run is).net.recvs 3).data
    · obtain ⟨a', hlt, hawaits'⟩ := run_awaits h1 h2 h3 h hc hawaits hback
      have hquiet := hcounts.toTake_quiet hloop.hand hback h0
      have hpos := (hcounts.toTake_le h0).1
      refine .inr ⟨k - (a - a'), by omega, hquiet.1, a', by omega, hawaits', ?_⟩
      show _ = 48 * (((machine on).run is).cor.clock _).toTake + a'
      rw [hquiet.2]
      omega
    · rcases hcounts.toTake_answer hloop.hand (hloop.answer_hasSend hback) hback h0 with hdone | ⟨h0', htaken⟩
      · exact .inl hdone
      · have hnext := run_chain h1 h2 h3 ((Machine.along_concat ..).2 ⟨h, hc⟩)
        rw [Machine.run_concat] at hnext
        obtain ⟨a', ha', hawaits'⟩ := hnext.awaits
        have htake' : ((machine on).step ((machine on).run is) i).cor.toTake + 1 = _ := htaken
        have hpos := (hcounts.toTake_le h0).1
        have hle : 1 ≤ ((machine on).step ((machine on).run is) i).cor.toTake :=
          (CorAsp.Counts.toTake_le (hcounts.clock hloop.hand hloop.answer_hasSend) h0').1
        refine .inr ⟨48 * ((machine on).step ((machine on).run is) i).cor.toTake + a' - 48, by omega, h0', a', ha',
          hawaits', by omega⟩

theorem configOnly_chainInput (t : Nat) (x : Chip) : ConfigOnly (onPorts [1, 2, 3]) x (chainInput t) := by
  have hon : ∀ p : Fin 8, p ≠ 1 → p ≠ 2 → p ≠ 3 → onPorts [1, 2, 3] p = false := by decide
  have hconfig : ∀ packet ∈ [(⟨1, 0x90000004⟩ : TdmaMinPort), ⟨2, 0x90800009⟩, ⟨3, 0xA0000001⟩],
      isConfig packet.data = true ∧ (packet.addr = TdmaMin.portAddr (1 : Fin 8) → ADCAsp.isConfig packet.data = true →
        4 ≤ (packet.data.slice 0 3).toNat) := by decide
  intro p hp1 hp2 hp3 hv haddr
  have hsend : x.sends (onPorts [1, 2, 3]) (chainInput t) p = (chainInput t).sends p := by
    rw [sends, hon p hp1 hp2 hp3]
    rfl
  rw [hsend] at hv ⊢
  by_cases hp5 : p = 5
  · subst hp5
    refine ⟨rfl, hconfig _ ?_⟩
    by_cases h3 : t = 3
    · simp [chainInput, h3]
    by_cases h4 : t = 4
    · simp [chainInput, h4]
    by_cases h5 : t = 5
    · simp [chainInput, h5]
    have hidle : (chainInput t).sends 5 = .idle := by simp [chainInput, h3, h4, h5]
    rw [hidle] at hv
    cases hv
  · have hidle : (chainInput t).sends p = .idle := if_neg hp5
    rw [hidle] at hv
    cases hv

/-- The chain is under way for eighty clocks, and goes on for 672. -/
theorem reads_progress_eighty :
    let M := machine (onPorts [1, 2, 3])
    let is := (List.range 80).map chainInput
    let js := (List.range 672).map fun t => chainInput (80 + t)
    (M.log answers is).length + 14 ≤ (M.log answers (is ++ js)).length ∧
      (M.log completed is).length < (M.log completed (is ++ js)).length := by
  have hall : ∀ i ∈ (List.range 80).map chainInput ++ (List.range 672).map fun t => chainInput (80 + t),
      ∀ x, ConfigOnly (onPorts [1, 2, 3]) x i := by
    intro i hi
    rw [List.mem_append, List.mem_map, List.mem_map] at hi
    rcases hi with ⟨t, -, rfl⟩ | ⟨t, -, rfl⟩ <;> exact configOnly_chainInput _
  have h := @reads_progress (onPorts [1, 2, 3]) (by decide) (by decide) (by decide) _ _
    ((Machine.along_of_forall hall).mono fun x _ hi => hi x)
  exact ⟨h.1 14 (by simp), h.2 (by decide +kernel) (by simp)⟩

end Chip
end TdmaSoc
