import TdmaSoc.Asp.AspAvg
import TdmaSoc.Lib.Blocks
import TdmaSoc.Lib.Machine

/-!
# Averages of blocks

`Taking` says which samples `AspAvg` averages: all but those that come in the two clocks in which it sends a block's
average and address. Of the samples taken, each block is averaged, in order (`Follows`). The average is the sum over
four, so it is the mean where `WINDOW` is four.
-/

namespace TdmaSoc
namespace AspAvg

variable {WINDOW : Nat} {s : AspAvg} {recv : TdmaMinPort}

def machine (WINDOW : Nat) (buf : Nat → BitVec 8) : Machine AspAvg TdmaMinPort := ⟨init buf, clock WINDOW⟩

/-- The samples taken, and for how many clocks no other is taken. -/
structure Taking where
  taken : List (BitVec 8)
  busy : Nat

namespace Taking

def clock (WINDOW : Nat) (t : Taking) (recv : TdmaMinPort) : Taking :=
  if t.busy = 0 then
    if isReady recv.data then
      ⟨t.taken ++ [recv.data.slice 0 8], if (t.taken.length + 1) % WINDOW = 0 then 2 else 0⟩
    else t
  else { t with busy := t.busy - 1 }

def machine (WINDOW : Nat) : Machine Taking TdmaMinPort := ⟨⟨[], 0⟩, clock WINDOW⟩

end Taking

/-- Of the samples that come in the words `is`, those taken. -/
def taken (WINDOW : Nat) (is : List TdmaMinPort) : List (BitVec 8) := ((Taking.machine WINDOW).run is).taken

/-- The average packets sent. -/
def averages (WINDOW : Nat) (s : AspAvg) (recv : TdmaMinPort) : List TdmaMinData :=
  [(s.clock WINDOW recv).send.data].filter fun d => packetType d == 0b0011#4

def blockSum (block : List (BitVec 8)) : Int := block.foldr (fun x sum => x.toInt + sum) 0

/-- The average packet of a block. -/
def blockWord (block : List (BitVec 8)) : TdmaMinData := averageWord (avg (BitVec.ofInt 16 (blockSum block)))

/-! ### Packets -/

theorem packetType_averageWord (a : BitVec 16) : packetType (averageWord a) = 0b0011#4 := by
  refine BitVec.eq_of_getLsbD_eq fun i hi => ?_
  rw [packetType, BitVec.getLsbD_slice, averageWord, BitVec.getLsbD_append, BitVec.getLsbD_append,
    BitVec.getLsbD_append, BitVec.getLsbD_append]
  simp [hi, show ¬ 28 + i < 16 by omega, show ¬ 28 + i - 16 < 1 by omega, show ¬ 28 + i - 16 - 1 < 7 by omega,
    show ¬ 28 + i - 16 - 1 - 7 < 4 by omega, show 28 + i - 16 - 1 - 7 - 4 = i by omega]

theorem slice_averageWord (a : BitVec 16) : (averageWord a).slice 0 16 = a := by
  refine BitVec.eq_of_getLsbD_eq fun i hi => ?_
  rw [BitVec.getLsbD_slice, averageWord, BitVec.getLsbD_append]
  simp [hi]

theorem packetType_addressWord (a : BitVec 10) : packetType (addressWord a) = 0b0100#4 := by
  refine BitVec.eq_of_getLsbD_eq fun i hi => ?_
  rw [packetType, BitVec.getLsbD_slice, addressWord, BitVec.getLsbD_append, BitVec.getLsbD_append,
    BitVec.getLsbD_append]
  simp [hi, show ¬ 28 + i < 10 by omega, show ¬ 28 + i - 10 < 14 by omega, show ¬ 28 + i - 10 - 14 < 4 by omega,
    show 28 + i - 10 - 14 - 4 = i by omega]

theorem slice_addressWord (a : BitVec 10) : (addressWord a).slice 0 10 = a := by
  refine BitVec.eq_of_getLsbD_eq fun i hi => ?_
  rw [BitVec.getLsbD_slice, addressWord, BitVec.getLsbD_append]
  simp [hi]

/-! ### The average of a block -/

theorem blockSum_concat (block : List (BitVec 8)) (x : BitVec 8) :
    blockSum (block ++ [x]) = blockSum block + x.toInt := by
  induction block with
  | nil => exact Int.add_comm ..
  | cons y block ih => exact (congrArg (y.toInt + ·) ih).trans (Int.add_assoc ..).symm

theorem sum_eq (WINDOW : Nat) (buf : Nat → BitVec 8) :
    sum WINDOW buf = BitVec.ofInt 16 (blockSum ((List.range WINDOW).map buf)) := by
  induction WINDOW with
  | zero => rfl
  | succ n ih =>
    have hsucc : sum (n + 1) buf = sum n buf + (buf n).signExtend 16 := by
      rw [sum, List.range_succ, List.foldl_append]
      rfl
    rw [hsucc, ih, List.range_succ, List.map_append, List.map_singleton, blockSum_concat, BitVec.ofInt_add,
      BitVec.signExtend]

/-- The upper 14 bits of the sum, as a signed number, are a quarter of it. -/
theorem toInt_avg (x : BitVec 16) : (avg x).toInt = x.toInt / 4 := by
  have hslice : (x.slice 2 14).toNat = x.toNat / 4 := by
    rw [BitVec.slice, BitVec.extractLsb'_toNat, Nat.shiftRight_eq_div_pow]
    omega
  rw [avg, BitVec.toInt_signExtend_of_le (by decide), BitVec.toInt_eq_toNat_cond, BitVec.toInt_eq_toNat_cond, hslice]
  split <;> split <;> omega

theorem blockSum_bounds (block : List (BitVec 8)) :
    -(128 * block.length : Int) ≤ blockSum block ∧ blockSum block ≤ 127 * block.length := by
  induction block with
  | nil => exact ⟨Int.le_refl 0, Int.le_refl 0⟩
  | cons x block ih =>
    obtain ⟨hlow, hhigh⟩ := ih
    have hx := x.le_toInt
    have hx' := x.toInt_lt
    have hsum : blockSum (x :: block) = x.toInt + blockSum block := rfl
    rw [hsum, List.length_cons]
    omega

/-- Four samples are averaged without an overflow. -/
theorem toInt_blockWord {block : List (BitVec 8)} (h : block.length = 4) :
    ((blockWord block).slice 0 16).toInt = blockSum block / 4 := by
  obtain ⟨hlow, hhigh⟩ := blockSum_bounds block
  rw [h] at hlow hhigh
  rw [blockWord, slice_averageWord, toInt_avg, BitVec.toInt_ofInt, Int.bmod_eq_of_le (by omega) (by omega)]

/-! ### One clock -/

/-- The component has taken the samples `t.taken` and sent the average packets `sent`. -/
structure Follows (WINDOW : Nat) (s : AspAvg) (t : Taking) (sent : List TdmaMinData) : Prop where
  stage : s.sendStage ≤ 2
  busy : t.busy = s.sendStage
  index : s.index = t.taken.length % WINDOW
  buf : (List.range s.index).map s.buf = leftover WINDOW t.taken
  outAddr : s.outAddr = BitVec.ofNat 10 (t.taken.length / WINDOW)
  sent : sent ++ (if s.sendStage = 2 then [s.sendBuffer] else []) = (blocks WINDOW t.taken).map blockWord

variable {t : Taking} {sent : List TdmaMinData}

theorem Follows.init (WINDOW : Nat) (buf : Nat → BitVec 8) : Follows WINDOW (init buf) ⟨[], 0⟩ [] where
  stage := Nat.zero_le 2
  busy := rfl
  index := (Nat.zero_mod WINDOW).symm
  buf := by rw [leftover, List.drop_nil]; rfl
  outAddr := by rw [List.length_nil, Nat.zero_div]; rfl
  sent := by rw [blocks, List.length_nil, Nat.zero_div]; rfl

/-- The buffered word is an average packet. -/
theorem Follows.packetType_sendBuffer (h : Follows WINDOW s t sent) (hstage : s.sendStage = 2) :
    packetType s.sendBuffer = 0b0011#4 := by
  have hsent := h.sent
  rw [if_pos hstage] at hsent
  have hmem : s.sendBuffer ∈ (blocks WINDOW t.taken).map blockWord := by
    rw [← hsent]
    exact List.mem_append_right _ (List.mem_singleton_self _)
  obtain ⟨block, -, hword⟩ := List.mem_map.1 hmem
  rw [← hword]
  exact packetType_averageWord _

/-- In stage 2 the buffered word is sent, and otherwise no average packet. -/
theorem Follows.averages_eq (h : Follows WINDOW s t sent) (recv : TdmaMinPort) :
    averages WINDOW s recv = if s.sendStage = 2 then [s.sendBuffer] else [] := by
  unfold averages clock
  by_cases h1 : s.sendStage = 1
  · rw [if_pos h1, if_neg (by rw [h1]; decide)]
    simp [packetType_addressWord]
  · rw [if_neg h1]
    by_cases h2 : s.sendStage = 2
    · rw [if_pos h2, if_pos h2]
      simp [h.packetType_sendBuffer h2]
    · have hidle : [TdmaMinPort.idle.data].filter (fun d => packetType d == 0b0011#4) = [] := by decide
      rw [if_neg h2, if_neg h2]
      split
      · dsimp only
        split
        · exact hidle
        · exact hidle
      · exact hidle

/-- The sample put at `index` comes after those before it. -/
theorem map_update (buf : Nat → BitVec 8) (index : Nat) (x : BitVec 8) :
    (List.range (index + 1)).map (Function.update buf index x) = (List.range index).map buf ++ [x] := by
  rw [List.range_succ, List.map_append, List.map_singleton, Function.update_self]
  congr 1
  refine List.map_congr_left fun i hi => ?_
  exact Function.update_of_ne (Nat.ne_of_lt (List.mem_range.1 hi)) ..

/-- The sum is that of the block that the sample fills. -/
theorem sum_update {index : Nat} (hindex : index + 1 = WINDOW) (buf : Nat → BitVec 8) (x : BitVec 8) :
    sum WINDOW (Function.update buf index x) = BitVec.ofInt 16 (blockSum ((List.range index).map buf ++ [x])) := by
  rw [sum_eq, ← hindex, map_update]

theorem Follows.sent_of_stage (h : Follows WINDOW s t sent) (hstage : s.sendStage ≠ 2) :
    sent = (blocks WINDOW t.taken).map blockWord := by
  have hsent := h.sent
  rwa [if_neg hstage, List.append_nil] at hsent

/-- A sample that does not fill its block. -/
theorem Follows.take (h : Follows WINDOW s t sent) (hstage : s.sendStage = 0) (hroom : s.index + 1 < WINDOW)
    (x : BitVec 8) :
    Follows WINDOW { s with send := .idle, buf := Function.update s.buf s.index x, index := s.index + 1 }
      ⟨t.taken ++ [x], 0⟩ sent := by
  have hne : s.sendStage ≠ 2 := by omega
  rw [h.index] at hroom
  obtain ⟨hblocks, hleft⟩ := blocks_concat_of_lt hroom x
  have hcount : (t.taken ++ [x]).length / WINDOW = t.taken.length / WINDOW := by
    rw [← length_blocks, hblocks, length_blocks]
  refine ⟨h.stage, hstage.symm, ?_, ?_, ?_, ?_⟩
  · show s.index + 1 = _
    rw [← length_leftover, hleft, List.length_append, length_leftover, h.index]
    rfl
  · rw [hleft, ← h.buf]
    exact map_update ..
  · rw [hcount]
    exact h.outAddr
  · rw [if_neg hne, List.append_nil, hblocks]
    exact h.sent_of_stage hne

/-- A sample that fills it. -/
theorem Follows.fill (h : Follows WINDOW s t sent) (hstage : s.sendStage = 0) (hfull : s.index + 1 = WINDOW)
    (x : BitVec 8) :
    Follows WINDOW
      { s with
        send := .idle
        buf := Function.update s.buf s.index x
        index := 0
        sendStage := 2
        sendBuffer := averageWord (avg (sum WINDOW (Function.update s.buf s.index x)))
        outAddr := s.outAddr + 1 }
      ⟨t.taken ++ [x], 2⟩ sent := by
  have hne : s.sendStage ≠ 2 := by omega
  have hrest : t.taken.length % WINDOW + 1 = WINDOW := by rw [← h.index, hfull]
  obtain ⟨hblocks, hleft⟩ := blocks_concat_of_eq hrest x
  have hcount : (t.taken ++ [x]).length / WINDOW = t.taken.length / WINDOW + 1 := by
    rw [← length_blocks, hblocks, List.length_append, length_blocks]
    rfl
  refine ⟨Nat.le_refl 2, rfl, ?_, hleft.symm, ?_, ?_⟩
  · show 0 = _
    rw [← length_leftover, hleft]
    rfl
  · show s.outAddr + 1 = _
    rw [hcount, h.outAddr, BitVec.ofNat_add]
    rfl
  · rw [hblocks, List.map_append, h.sent_of_stage hne, sum_update hfull, h.buf]
    rfl

theorem Follows.clock (hW : 0 < WINDOW) (h : Follows WINDOW s t sent) (recv : TdmaMinPort) :
    Follows WINDOW (s.clock WINDOW recv) (t.clock WINDOW recv) (sent ++ averages WINDOW s recv) := by
  rw [h.averages_eq]
  have hcases : s.sendStage = 0 ∨ s.sendStage = 1 ∨ s.sendStage = 2 := by
    have hle := h.stage
    omega
  rcases hcases with hstage | hstage | hstage
  · have hbusy : t.busy = 0 := h.busy.trans hstage
    rw [if_neg (by rw [hstage]; decide), List.append_nil, AspAvg.clock, Taking.clock, if_neg (by rw [hstage]; decide),
      if_neg (by rw [hstage]; decide), if_pos hbusy]
    split
    case isTrue =>
      have hmod : (t.taken.length + 1) % WINDOW = (s.index + 1) % WINDOW := by rw [h.index, Nat.mod_add_mod]
      have hlt : s.index < WINDOW := by
        rw [h.index]
        exact Nat.mod_lt _ hW
      rw [hmod]
      dsimp only
      by_cases hfull : s.index + 1 = WINDOW
      · have hzero : (s.index + 1) % WINDOW = 0 := by rw [hfull, Nat.mod_self]
        rw [hzero, if_pos rfl, if_pos rfl]
        exact h.fill hstage hfull _
      · have hroom : s.index + 1 < WINDOW := by omega
        rw [Nat.mod_eq_of_lt hroom, if_neg (Nat.succ_ne_zero _), if_neg (Nat.succ_ne_zero _)]
        exact h.take hstage hroom _
    case isFalse => exact ⟨h.stage, h.busy, h.index, h.buf, h.outAddr, h.sent⟩
  · have hbusy : t.busy = 1 := h.busy.trans hstage
    rw [if_neg (by rw [hstage]; decide), List.append_nil, AspAvg.clock, Taking.clock, if_pos hstage, hbusy]
    refine ⟨Nat.zero_le 2, rfl, h.index, h.buf, h.outAddr, ?_⟩
    exact (List.append_nil _).trans (h.sent_of_stage (by rw [hstage]; decide))
  · have hsent := h.sent
    have hbusy : t.busy = 2 := h.busy.trans hstage
    rw [if_pos hstage] at hsent
    rw [if_pos hstage, AspAvg.clock, Taking.clock, if_neg (by rw [hstage]; decide), if_pos hstage, hbusy]
    exact ⟨Nat.le_succ 1, rfl, h.index, h.buf, h.outAddr, (List.append_nil _).trans hsent⟩

/-! ### A run -/

variable {buf : Nat → BitVec 8}

theorem follows_run (hW : 0 < WINDOW) (buf : Nat → BitVec 8) (is : List TdmaMinPort) :
    Follows WINDOW ((machine WINDOW buf).run is) ((Taking.machine WINDOW).run is)
      ((machine WINDOW buf).log (averages WINDOW) is) := by
  induction is using List.reverseRecOn with
  | nil => exact .init WINDOW buf
  | append_singleton is r ih =>
    rw [Machine.run_concat, Machine.run_concat, Machine.log_concat]
    exact ih.clock hW r

/-- One clock after a block is full its average has been sent. -/
theorem log_averages_concat (hW : 0 < WINDOW) (buf : Nat → BitVec 8) (is : List TdmaMinPort) (recv : TdmaMinPort) :
    (machine WINDOW buf).log (averages WINDOW) (is ++ [recv]) = (blocks WINDOW (taken WINDOW is)).map blockWord := by
  have h := follows_run hW buf is
  rw [Machine.log_concat, h.averages_eq]
  exact h.sent

/-- In the clock after an average packet the address packet is sent. -/
theorem address_after_average (hW : 0 < WINDOW) (buf : Nat → BitVec 8) (is : List TdmaMinPort) (recv next : TdmaMinPort)
    (h : packetType ((machine WINDOW buf).run (is ++ [recv])).send.data = 0b0011#4) :
    ((machine WINDOW buf).run (is ++ [recv] ++ [next])).send.data =
      addressWord (BitVec.ofNat 10 (blocks WINDOW (taken WINDOW is)).length - 1) := by
  have hf := follows_run hW buf is
  have hstage : ((machine WINDOW buf).run is).sendStage = 2 := by
    by_contra hne
    have hnone := hf.averages_eq recv
    rw [if_neg hne, averages, List.filter_cons_of_pos] at hnone
    · cases hnone
    · rw [Machine.run_concat] at h
      exact beq_iff_eq.2 h
  have hclock : ((machine WINDOW buf).run (is ++ [recv])).sendStage = 1 ∧
      ((machine WINDOW buf).run (is ++ [recv])).outAddr = ((machine WINDOW buf).run is).outAddr := by
    rw [Machine.run_concat]
    show (AspAvg.clock ..).sendStage = 1 ∧ (AspAvg.clock ..).outAddr = _
    rw [AspAvg.clock, if_neg (by rw [hstage]; decide), if_pos hstage]
    exact ⟨rfl, rfl⟩
  rw [Machine.run_concat]
  show (AspAvg.clock ..).send.data = _
  rw [AspAvg.clock, if_pos hclock.1, hclock.2, hf.outAddr, length_blocks]
  rfl

/-- Every sample taken belongs to one block; in the clock after a block is full its average packet is sent, and in the
next one its number, from 0 on. For a window of four samples the average is the floor of their mean. -/
theorem averages_of_blocks (hW : 1 ≤ WINDOW) (buf : Nat → BitVec 8) (is : List TdmaMinPort) (recv : TdmaMinPort) :
    let samples := taken WINDOW is
    let sent := (machine WINDOW buf).log (averages WINDOW) (is ++ [recv])
    (blocks WINDOW samples).flatten ++ leftover WINDOW samples = samples ∧
      (∀ block ∈ blocks WINDOW samples, block.length = WINDOW) ∧
      sent.length = (blocks WINDOW samples).length ∧
      (WINDOW = 4 → List.Forall₂ (fun w block => (w.slice 0 16).toInt = blockSum block / WINDOW) sent
        (blocks WINDOW samples)) ∧
      (packetType ((machine WINDOW buf).run (is ++ [recv])).send.data = 0b0011#4 → ∀ next,
        packetType ((machine WINDOW buf).run (is ++ [recv] ++ [next])).send.data = 0b0100#4 ∧
          (((machine WINDOW buf).run (is ++ [recv] ++ [next])).send.data.slice 0 10).toNat =
            (sent.length - 1) % 1024) := by
  dsimp only
  rw [log_averages_concat hW, List.length_map]
  refine ⟨flatten_blocks hW _, fun _ hblock => length_of_mem_blocks hblock, rfl, ?_, ?_⟩
  · rintro rfl
    rw [List.forall₂_map_left_iff, List.forall₂_same]
    intro block hblock
    exact toInt_blockWord (length_of_mem_blocks hblock)
  · intro haverage next
    have hpos : 1 ≤ (blocks WINDOW (taken WINDOW is)).length := by
      rw [← List.length_map blockWord, ← log_averages_concat hW buf is recv, Machine.log_concat, List.length_append,
        averages, List.filter_cons_of_pos]
      · exact Nat.le_add_left ..
      · rw [Machine.run_concat] at haverage
        exact beq_iff_eq.2 haverage
    rw [address_after_average hW buf is recv next haverage, packetType_addressWord, slice_addressWord]
    refine ⟨rfl, ?_⟩
    generalize (blocks WINDOW (taken WINDOW is)).length = k at hpos ⊢
    bv_omega

/-- A sample `x` from the ADC. -/
def samplePort (x : BitVec 8) : TdmaMinPort := ⟨1, 0x00000100#32 ||| x.setWidth 32⟩

/-- The samples of the words `is`. -/
def received (is : List TdmaMinPort) : List (BitVec 8) :=
  is.flatMap fun recv => if isReady recv.data then [recv.data.slice 0 8] else []

theorem averages_of_blocks_four :
    ((machine 4 fun _ => 0).log (averages 4) ([1, 2, 3, 252].map samplePort ++ [.idle])).length = 1 :=
  (averages_of_blocks (by decide) (fun _ => 0) ([1, 2, 3, 252].map samplePort) .idle).2.2.1.trans (by decide +kernel)

/-- The `k`-th average packet has the mean of the `k`-th block of the samples received. -/
def MeansOfReceived (WINDOW : Nat) (buf : Nat → BitVec 8) (is : List TdmaMinPort) : Prop :=
  ∀ k w, ((machine WINDOW buf).log (averages WINDOW) is)[k]? = some w →
    (w.slice 0 16).toInt = blockSum (((received is).drop (k * WINDOW)).take WINDOW) / WINDOW

/-- Ten samples without a pause: the two that come while a block is sent are missing in the next. And eight samples of
8 with a window of eight: their average is sent as 16. -/
theorem means_not_of_received :
    (¬ ∀ buf is, MeansOfReceived 4 buf is) ∧
      ¬ ∀ buf is, taken 8 is = received is → MeansOfReceived 8 buf is := by
  constructor
  · intro h
    have hsecond := h (fun _ => 0) ([0, 0, 0, 0, 100, 100, 0, 0, 0, 0].map samplePort ++ [.idle]) 1 0x35010000#32
      (by decide +kernel)
    exact absurd hsecond (by decide +kernel)
  · intro h
    have hfirst := h (fun _ => 0) ((List.replicate 8 8).map samplePort ++ [.idle]) (by decide +kernel) 0 0x35010010#32
      (by decide +kernel)
    exact absurd hfirst (by decide +kernel)

end AspAvg
end TdmaSoc
