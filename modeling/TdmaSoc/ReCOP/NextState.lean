import TdmaSoc.ReCOP.Leftovers

/-!
# The next state depends on the state

Two runs of one program that agree on the architectural state at the start of an instruction agree on it at
the start of the next one, whatever instructions came before: this holds of every instruction that sets the
multiplexers it uses (`Word.Complete`), and of no other. For each of the others a program comes to the same
state twice, from different predecessors, and goes on in two ways.
-/

namespace TdmaSoc
open Instruction

/-- The instruction sets every multiplexer that it uses. -/
def Word.Complete (w : Word) : Prop :=
  ¬ (w.opcode = Opcode.jmp ∧ (w.am = amInherent ∨ w.am = amDirect)) ∧
    ¬ (w.opcode = Opcode.ldr ∧ w.am = amInherent) ∧ ¬ (w.opcode = Opcode.str ∧ w.am = amInherent)

namespace Recop
open ControlUnit

/-- The start of the instruction after the one that starts in clock `t`. -/
def Next (rom : ProgMem) (s₀ : Recop) (t u : Nat) : Prop :=
  s₀.FirstT0 rom u ∧ t < u ∧ ∀ k, t < k → k < u → ¬ s₀.FirstT0 rom k

/-- Any two runs of one program that agree at the start of the instruction `w` with second word `v` agree at
the start of the instruction after it. -/
def Determined (w v : Word) : Prop :=
  ∀ (rom : ProgMem) (s₀ s₀' : Recop) (t t' u u' : Nat), s₀.FirstT0 rom t → s₀'.FirstT0 rom t' →
    s₀.sample rom t = s₀'.sample rom t' → rom (s₀.sample rom t).pc = w →
    (w.Long → rom ((s₀.sample rom t).pc + 1) = v) → Next rom s₀ t u → Next rom s₀' t' u' →
    s₀.sample rom u = s₀'.sample rom u'

variable {rom : ProgMem} {s₀ : Recop} {t u : Nat} {w v : Word}

theorem FirstT0.next (ht : s₀.FirstT0 rom t) : Next rom s₀ t (t + (rom (s₀.sample rom t).pc).cycles) := by
  obtain ⟨hfirst, hgap, -⟩ := next_sample ht ht.sampled
  refine ⟨hfirst, ?_, hgap⟩
  have := (rom (s₀.sample rom t).pc).cycles_pos
  omega

theorem Next.unique {u' : Nat} (h : Next rom s₀ t u) (h' : Next rom s₀ t u') : u = u' := by
  rcases Nat.lt_trichotomy u u' with hlt | heq | hlt
  · exact absurd h.1 (h'.2.2 u h.2.1 hlt)
  · exact heq
  · exact absurd h'.1 (h.2.2 u' h'.2.1 hlt)

/-! ### Instructions that set what they use -/

theorem decode_of_complete (hw : w.Complete) (v : Word) : ∃ i, decode w.am w.opcode w.rz w.rx v = some i := by
  obtain ⟨hjmp, hldr, hstr⟩ := hw
  revert hjmp hldr hstr
  generalize w.am = am
  generalize w.opcode = o
  intro hjmp hldr hstr
  rcases Opcode.cases o with (rfl | rfl | rfl | rfl | rfl | rfl | rfl | rfl | rfl | rfl) |
    (rfl | rfl | rfl | rfl | rfl | rfl) | h
  case inr.inr => exact ⟨_, Arch.decode_unknown h⟩
  all_goals
    rcases am_cases am with rfl | rfl | rfl | rfl <;>
      first
        | exact ⟨_, rfl⟩
        | exact absurd ⟨rfl, rfl⟩ hldr
        | exact absurd ⟨rfl, rfl⟩ hstr
        | exact absurd ⟨rfl, .inl rfl⟩ hjmp
        | exact absurd ⟨rfl, .inr rfl⟩ hjmp

theorem determined_of_complete (hw : w.Complete) (v : Word) : Determined w v := by
  intro rom s₀ s₀' t t' u u' ht ht' hsame hpc _ hu hu'
  obtain ⟨i, hi⟩ := decode_of_complete hw (rom.operand (s₀.sample rom t).pc)
  have hfetch : rom.fetch (s₀.sample rom t).pc = some i := by rw [ProgMem.fetch, hpc, hi]
  obtain ⟨-, hnext⟩ := ht.executes i hfetch
  obtain ⟨-, hnext'⟩ := ht'.executes i (hsame ▸ hfetch)
  rw [hu.unique ht.next, hu'.unique ht'.next, hnext, hnext', hsame]

/-! ### Instructions that act on what they find -/

theorem FirstT0.leftovers (ht : s₀.FirstT0 rom t) :
    let w := rom (s₀.sample rom t).pc
    ∃ c held, s₀.sample rom (t + w.cycles) =
        (s₀.sample rom t).execute c w.am w.opcode w.rz w.rx (rom.operand (s₀.sample rom t).pc) held ∧
      c.Quiet ∧ Leftovers w (s₀.after rom (t + 1)) c (s₀.after rom (t + w.cycles + 1)) := by
  intro w
  obtain ⟨c, held, hs, hq, hleft⟩ := ht.sampled.leftovers rom
  have hafter : s₀.after rom (t + w.cycles + 1) = (Recop.clock rom)^[w.cycles] (s₀.after rom (t + 1)) := by
    rw [Nat.add_right_comm, after_add]
  rw [← hafter] at hs hleft
  exact ⟨c, held, hs.arch, hq, hleft⟩

end Recop

namespace Arch
open ControlUnit
variable {c : ControlUnit} {am : BitVec 2} {z x : BitVec 4} {v held : Word}

/-- `JMP` in the inherent and direct modes goes where the mode of the program counter points. -/
theorem execute_jmp (hq : c.Quiet) (ham : am = amInherent ∨ am = amDirect) {n : BitVec 15}
    (hm : c.pcMode = pcModeIncr1 ∧ n = 1 ∨ c.pcMode = pcModeIncr2 ∧ n = 2) (a : Arch) :
    a.execute c am Opcode.jmp z x v held = { a with pc := a.pc + n } := by
  obtain ⟨st, ns, pw, pm, da, di, dw, ifs, rs, rw, ao, o1, o2, ds, dp, iq, so, cz⟩ := c
  obtain ⟨rfl, rfl, rfl, rfl, rfl, rfl, rfl⟩ := hq
  change pm = _ ∧ _ ∨ pm = _ ∧ _ at hm
  rcases hm with ⟨rfl, rfl⟩ | ⟨rfl, rfl⟩ <;> rcases ham with rfl | rfl <;> rw [execute_idle rfl] <;> rfl

/-- `LDR` in the inherent mode loads what the multiplexer of the register file shows. -/
theorem execute_ldr (hq : c.Quiet) (hm : c.pcMode = pcModeIncr1) (hda : c.dmSelAddr = dmSelAddrValue) {r : Word}
    (a : Arch) (hr : c.rfSelIn = rfSelInValue ∧ r = v ∨ c.rfSelIn = rfSelInDm ∧ r = a.mem (v.slice 0 12)) :
    a.execute c amInherent Opcode.ldr z x v held =
      { a with pc := a.pc + 1, regs := Function.update a.regs z r } := by
  obtain ⟨st, ns, pw, pm, da, di, dw, ifs, rs, rw, ao, o1, o2, ds, dp, iq, so, cz⟩ := c
  obtain ⟨rfl, rfl, rfl, rfl, rfl, rfl, rfl⟩ := hq
  change pm = _ at hm
  change da = _ at hda
  change rs = _ ∧ _ ∨ rs = _ ∧ _ at hr
  subst hm hda
  rcases hr with ⟨rfl, rfl⟩ | ⟨rfl, rfl⟩ <;> rw [execute_idle rfl] <;>
    exact Arch.ext rfl (Function.update_idem ..) rfl rfl rfl rfl

/-- `STR` in the inherent mode stores what the multiplexer of the memory's input shows. -/
theorem execute_str (hq : c.Quiet) (hm : c.pcMode = pcModeIncr1) (hda : c.dmSelAddr = dmSelAddrValue) {r : Word}
    (a : Arch) (hr : c.dmSelIn = dmSelInValue ∧ r = v ∨ c.dmSelIn = dmSelInPc ∧ r = (0 : BitVec 1) ++ (a.pc + 1)) :
    a.execute c amInherent Opcode.str z x v held =
      { a with pc := a.pc + 1, mem := Function.update a.mem (v.slice 0 12) r } := by
  obtain ⟨st, ns, pw, pm, da, di, dw, ifs, rs, rw, ao, o1, o2, ds, dp, iq, so, cz⟩ := c
  obtain ⟨rfl, rfl, rfl, rfl, rfl, rfl, rfl⟩ := hq
  change pm = _ at hm
  change da = _ at hda
  change di = _ ∧ _ ∨ di = _ ∧ _ at hr
  subst hm hda
  rcases hr with ⟨rfl, rfl⟩ | ⟨rfl, rfl⟩ <;> rw [execute_idle rfl] <;>
    exact Arch.ext rfl rfl rfl (Function.update_idem ..) rfl rfl

end Arch

namespace Recop
open ControlUnit
variable {rom : ProgMem} {s₀ : Recop} {t : Nat} {a : Arch} {w v : Word} {m : BitVec 2}

/-- At the start of an instruction in the state `a`, after an instruction with first word `i` which has left the
mode `m`. -/
structure Arrives (rom : ProgMem) (s₀ : Recop) (t : Nat) (a : Arch) (i : Word) (m : BitVec 2) : Prop where
  first : s₀.FirstT0 rom t
  sample : s₀.sample rom t = a
  fetchInst1 : (s₀.after rom (t + 1)).fetch.fetchInst1 = i
  pcMode : (s₀.after rom (t + 1)).cu.pcMode = m

theorem operand_eq {pc : BitVec 15} (hw : rom pc = w) (hv : rom (pc + 1) = v) :
    rom.operand pc = if w.Long then v else 0 := by
  rw [ProgMem.operand, hw, hv]

/-- After the instruction `k`, which sets the mode `m` and keeps it. -/
theorem FirstT0.arrives (ht : s₀.FirstT0 rom t) (ha : s₀.sample rom t = a) {k : Instruction} (hw : rom a.pc = w)
    (hv : rom (a.pc + 1) = v) (hk : decode w.am w.opcode w.rz w.rx (if w.Long then v else 0) = some k) {b : Arch}
    (hb : k.exec (words w.am) a = b) (hset : ∀ m', pcModeT1 w.am w.opcode m' = m) (hm : Steady w m) :
    Arrives rom s₀ (t + w.cycles) b w m := by
  have hfetch : rom.fetch a.pc = some k := by rw [ProgMem.fetch, operand_eq hw hv, hw, hk]
  obtain ⟨c, held, -, -, hleft⟩ := ht.leftovers
  obtain ⟨hfirst, hsample⟩ := ht.executes k (ha ▸ hfetch)
  rw [ha, hw] at hleft hfirst hsample
  obtain ⟨m', hmode⟩ := hleft.mode
  exact ⟨hfirst, hsample.trans hb, hleft.fetchInst1, hleft.leftMode m hm (hmode.trans (hset m'))⟩

/-- The control unit in which the next instruction decodes. -/
theorem Arrives.found {i : Word} (h : Arrives rom s₀ t a i m) (hw : rom a.pc = w) :
    ∃ c held, s₀.sample rom (t + w.cycles) = a.execute c w.am w.opcode w.rz w.rx (rom.operand a.pc) held ∧
      c.Quiet ∧ Leftovers w (s₀.after rom (t + 1)) c (s₀.after rom (t + w.cycles + 1)) ∧
      Next rom s₀ t (t + w.cycles) := by
  obtain ⟨c, held, hsample, hq, hleft⟩ := h.first.leftovers
  have hnext := h.first.next
  rw [h.sample, hw] at hsample hleft hnext
  exact ⟨c, held, hsample, hq, hleft, hnext⟩

/-- Two runs that arrive in the same state and leave the next instruction in different ones. -/
theorem not_determined {s₀' : Recop} {t' : Nat} {i i' : Word} {m' : BitVec 2} {b b' : Arch}
    (h : Arrives rom s₀ t a i m) (h' : Arrives rom s₀' t' a i' m') (hw : rom a.pc = w)
    (hv : w.Long → rom (a.pc + 1) = v) (hb : s₀.sample rom (t + w.cycles) = b)
    (hb' : s₀'.sample rom (t' + w.cycles) = b') (hne : b ≠ b') : ¬ Determined w v := by
  intro hdet
  obtain ⟨-, -, -, -, -, hnext⟩ := h.found hw
  obtain ⟨-, -, -, -, -, hnext'⟩ := h'.found hw
  refine hne ?_
  rw [← hb, ← hb']
  refine hdet rom s₀ s₀' t t' _ _ h.first h'.first (h.sample.trans h'.sample.symm) ?_ (fun hl => ?_) hnext hnext'
  · rw [h.sample, hw]
  · rw [h.sample, hv hl]

/-- The processor from power-on arrives at its first instruction. -/
theorem arrives_powerOn (rom : ProgMem) (mem : BitVec 12 → Word) :
    Arrives rom (blank mem) 0 ⟨0, fun _ => 0, false, mem, 0, 0⟩ 0 pcModeIncr1 :=
  ⟨⟨rfl, fun u hu => absurd hu (Nat.succ_ne_zero u)⟩, arch_clock_idle rom ⟨rfl, rfl, rfl, rfl, rfl, rfl, rfl⟩ rfl,
    rfl, rfl⟩

/-- The words 0 and 1 are `NOOP #`; the word 1 on its own is `NOOP`. -/
def jumpProgram (w v : Word) : ProgMem := fun pc =>
  if pc = 0 then 0x7400 else if pc = 1 then 0x3400 else if pc = 2 then w else if pc = 3 then v
  else if pc = 4 then 0x5800 else if pc = 5 then 1 else 0

theorem steady_noop : Steady 0x3400 pcModeIncr1 := ⟨rfl, fun _ h => h, fun _ _ _ h => h⟩

theorem steady_noop2 : Steady 0x7400 pcModeIncr2 := ⟨rfl, fun _ h => h, fun _ _ _ h => h⟩

theorem steady_jmp : Steady 0x5800 pcModeValue := ⟨rfl, fun _ _ => rfl, fun _ _ _ h => h⟩

theorem steady_jump (ho : w.opcode = Opcode.jmp) (ham : w.am = amInherent ∨ w.am = amDirect) (m : BitVec 2) :
    Steady w m := by
  refine ⟨?_, fun c hc => ?_, fun c e z hc => ?_⟩
  · rw [ho]
    rcases ham with ham | ham <;> rw [ham] <;> rfl
  · rw [ho]
    rcases ham with ham | ham <;> rw [ham] <;> exact hc
  · rw [ho]
    exact hc

/-- `JMP` at 2 goes on at 4 when it comes after the `NOOP #` at 0, and at 3 after the `NOOP` at 1. -/
theorem jump_undetermined (ho : w.opcode = Opcode.jmp) (ham : w.am = amInherent ∨ w.am = amDirect) (v : Word) :
    ¬ Determined w v := by
  let rom := jumpProgram w v
  let s₀ := blank fun _ => 0
  have goes (n : BitVec 15) {a : Arch} {t : Nat} {i : Word} {m : BitVec 2} (h : Arrives rom s₀ t a i m)
      (hpc : a.pc = 2) (hi : Steady i m) (hm : m = pcModeIncr1 ∧ n = 1 ∨ m = pcModeIncr2 ∧ n = 2) :
      s₀.sample rom (t + w.cycles) = { a with pc := a.pc + n } ∧ s₀.FirstT0 rom (t + w.cycles) := by
    obtain ⟨c, held, hsample, hq, hleft, hnext⟩ := h.found (w := w) (by rw [hpc]; rfl)
    have hc := hleft.foundMode m (h.fetchInst1 ▸ hi) (steady_jump ho ham m) h.pcMode
    refine ⟨?_, hnext.1⟩
    rw [hsample, ho]
    exact Arch.execute_jmp hq ham (by rw [hc]; exact hm) a
  have h0 := arrives_powerOn rom fun _ => 0
  -- `NOOP #`, then `w` for the first time
  have hlong := h0.first.arrives (k := noop) (w := 0x7400) (v := 0x3400) h0.sample rfl rfl rfl rfl (fun _ => rfl)
    steady_noop2
  obtain ⟨hfirst, hfour⟩ := goes 2 hlong rfl steady_noop2 (.inr ⟨rfl, rfl⟩)
  -- `JMP #1`, `NOOP`, then `w` again
  have hjump := hfour.arrives (k := jmp (.value 1)) (w := 0x5800) (v := 1) hfirst rfl rfl rfl rfl (fun _ => rfl)
    steady_jmp
  have hshort := hjump.first.arrives (k := noop) (w := 0x3400) (v := w) hjump.sample rfl rfl rfl rfl (fun _ => rfl)
    steady_noop
  obtain ⟨hsecond, -⟩ := goes 1 hshort rfl steady_noop (.inl ⟨rfl, rfl⟩)
  refine not_determined hlong hshort rfl (fun _ => rfl) hfirst hsecond fun heq => ?_
  have hpc : (4 : BitVec 15) = 3 := congrArg Arch.pc heq
  exact absurd hpc (by decide)

/-- After the first instruction, `second` and a jump back to it. -/
def loopProgram (w second operand : Word) : ProgMem := fun pc =>
  if pc = 0 then w else if pc = 1 then second else if pc = 2 then operand else if pc = 3 then 0x5800 else 0

/-- If neither `w` nor the second instruction `k` changes more of the state `a` than the program counter, the
processor comes back to `w` with the settings that `k` leaves. -/
theorem loop_arrives (second operand : Word) {mem : BitVec 12 → Word} {k : Instruction}
    (hfirst : (blank mem).FirstT0 (loopProgram w second operand) (0 + w.cycles) ∧
      (blank mem).sample (loopProgram w second operand) (0 + w.cycles) = ⟨1, fun _ => 0, false, mem, 0, 0⟩)
    (hk : decode second.am second.opcode second.rz second.rx (if second.Long then operand else 0) = some k)
    (hexec : k.exec (words second.am) ⟨1, fun _ => 0, false, mem, 0, 0⟩ = ⟨3, fun _ => 0, false, mem, 0, 0⟩)
    (hset : ∀ m', pcModeT1 second.am second.opcode m' = m) (hm : Steady second m) :
    ∃ (t : Nat) (c : ControlUnit) (e z : Bool),
      Arrives (loopProgram w second operand) (blank mem) t ⟨0, fun _ => 0, false, mem, 0, 0⟩ 0x5800 pcModeValue ∧
      SameSelects ((c.tickT2 second.am second.opcode).tickT3 second.opcode e z)
        ((blank mem).after (loopProgram w second operand) (t + 1)).cu := by
  have hsecond := hfirst.1.arrives hfirst.2 (w := second) (v := operand) rfl rfl hk hexec hset hm
  have hback := hsecond.first.arrives hsecond.sample (k := jmp (.value 0)) (w := 0x5800) (v := 0)
    (b := ⟨0, fun _ => 0, false, mem, 0, 0⟩) rfl rfl rfl rfl (fun _ => rfl) steady_jmp
  obtain ⟨c, held, -, -, hleft⟩ := hfirst.1.leftovers
  rw [hfirst.2] at hleft
  obtain ⟨e, z, hleft⟩ := hleft.left
  obtain ⟨c', held', -, -, hleft', -⟩ := hsecond.found (w := 0x5800) rfl
  obtain ⟨e', z', hjmp⟩ := hleft'.left
  refine ⟨_, c, e, z, hback, hleft.trans (hleft'.found.trans (SameSelects.trans ?_ hjmp))⟩
  exact ⟨rfl, rfl, rfl⟩

theorem not_long (ham : w.am = amInherent) : ¬ w.Long := by
  rw [Word.Long, ham]
  decide

theorem operand_of_inherent {pc : BitVec 15} (hw : rom pc = w) (ham : w.am = amInherent) : rom.operand pc = 0 := by
  rw [ProgMem.operand, hw, if_neg (not_long ham)]

/-- `LDR` at 0 loads 0 at first, and the word at address 0 when it comes after `LDR R0 $1`. -/
theorem ldr_undetermined (ho : w.opcode = Opcode.ldr) (ham : w.am = amInherent) (v : Word) : ¬ Determined w v := by
  let mem : BitVec 12 → Word := fun a => if a = 0 then 1 else 0
  let rom := loopProgram w 0x8000 1
  have loads {t : Nat} {i : Word} {m : BitVec 2} {r : Word}
      (h : Arrives rom (blank mem) t ⟨0, fun _ => 0, false, mem, 0, 0⟩ i m)
      (hda : ((blank mem).after rom (t + 1)).cu.dmSelAddr = dmSelAddrValue)
      (hr : ((blank mem).after rom (t + 1)).cu.rfSelIn = rfSelInValue ∧ r = 0 ∨
        ((blank mem).after rom (t + 1)).cu.rfSelIn = rfSelInDm ∧ r = 1) :
      (blank mem).sample rom (t + w.cycles) = ⟨1, Function.update (fun _ => 0) w.rz r, false, mem, 0, 0⟩ ∧
        (blank mem).FirstT0 rom (t + w.cycles) := by
    obtain ⟨c, held, hsample, hq, hleft, hnext⟩ := h.found (w := w) rfl
    obtain ⟨m', hmode⟩ := hleft.mode
    have hop : rom.operand 0 = 0 := operand_of_inherent rfl ham
    refine ⟨?_, hnext.1⟩
    rw [hsample, ho, ham, hop]
    refine Arch.execute_ldr hq (by rw [hmode, ho, ham]; rfl) (hleft.found.dmSelAddr.trans hda) _ ?_
    rw [hleft.found.rfSelIn]
    exact hr
  have h0 := arrives_powerOn rom mem
  obtain ⟨hfirst, hnext⟩ := loads h0 rfl (.inl ⟨rfl, rfl⟩)
  have hregs : Function.update (fun _ => 0 : RegFile) w.rz 0 = fun _ => 0 := Function.update_eq_self w.rz fun _ => 0
  obtain ⟨t, c, e, z, hback, hsel⟩ := loop_arrives 0x8000 1 (k := load 0 (.value 1))
    ⟨hnext, hregs ▸ hfirst⟩ rfl (Arch.ext rfl (Function.update_eq_self 0 fun _ => 0) rfl rfl rfl rfl) (fun _ => rfl)
    (m := pcModeIncr2) ⟨rfl, fun _ h => h, fun _ _ _ h => h⟩
  obtain ⟨hsecond, -⟩ := loads hback (hsel.dmSelAddr.trans rfl) (.inr ⟨hsel.rfSelIn.trans rfl, rfl⟩)
  refine not_determined h0 hback rfl (fun hl => absurd hl (not_long ham)) hfirst hsecond fun heq => ?_
  have hr : (0 : Word) = 1 := Function.update_injective _ w.rz (congrArg Arch.regs heq)
  exact absurd hr (by decide)

/-- `STR` at 0 stores 0 at first, and the address of the next instruction when it comes after `STRPC $5`. -/
theorem str_undetermined (ho : w.opcode = Opcode.str) (ham : w.am = amInherent) (v : Word) : ¬ Determined w v := by
  let mem : BitVec 12 → Word := fun a => if a = 5 then 3 else 0
  let rom := loopProgram w 0x9D00 5
  have stores {t : Nat} {i : Word} {m : BitVec 2} {r : Word}
      (h : Arrives rom (blank mem) t ⟨0, fun _ => 0, false, mem, 0, 0⟩ i m)
      (hda : ((blank mem).after rom (t + 1)).cu.dmSelAddr = dmSelAddrValue)
      (hr : ((blank mem).after rom (t + 1)).cu.dmSelIn = dmSelInValue ∧ r = 0 ∨
        ((blank mem).after rom (t + 1)).cu.dmSelIn = dmSelInPc ∧ r = 1) :
      (blank mem).sample rom (t + w.cycles) = ⟨1, fun _ => 0, false, Function.update mem 0 r, 0, 0⟩ ∧
        (blank mem).FirstT0 rom (t + w.cycles) := by
    obtain ⟨c, held, hsample, hq, hleft, hnext⟩ := h.found (w := w) rfl
    obtain ⟨m', hmode⟩ := hleft.mode
    have hop : rom.operand 0 = 0 := operand_of_inherent rfl ham
    refine ⟨?_, hnext.1⟩
    rw [hsample, ho, ham, hop]
    refine Arch.execute_str hq (by rw [hmode, ho, ham]; rfl) (hleft.found.dmSelAddr.trans hda) _ ?_
    have hpc : (1 : Word) = (0 : BitVec 1) ++ ((0 : BitVec 15) + 1) := by decide
    rw [hleft.found.dmSelIn]
    exact hr.imp id fun ⟨hpcSel, hr⟩ => ⟨hpcSel, hr.trans hpc⟩
  have h0 := arrives_powerOn rom mem
  obtain ⟨hfirst, hnext⟩ := stores h0 rfl (.inl ⟨rfl, rfl⟩)
  have hmem : Function.update mem 0 0 = mem := Function.update_eq_self 0 mem
  have hstrpc : Function.update mem ((5 : Word).slice 0 12) ((0 : BitVec 1) ++ ((1 : BitVec 15) + 2)) = mem := by
    rw [show (5 : Word).slice 0 12 = 5 by decide, show (0 : BitVec 1) ++ ((1 : BitVec 15) + 2) = mem 5 by decide]
    exact Function.update_eq_self 5 mem
  obtain ⟨t, c, e, z, hback, hsel⟩ := loop_arrives 0x9D00 5 (k := strpc 5)
    ⟨hnext, hfirst.trans (congrArg (Arch.mk 1 (fun _ => 0) false · 0 0) hmem)⟩ rfl
    (Arch.ext rfl rfl rfl hstrpc rfl rfl) (fun _ => rfl) (m := pcModeIncr2) ⟨rfl, fun _ h => h, fun _ _ _ h => h⟩
  obtain ⟨hsecond, -⟩ := stores hback (hsel.dmSelAddr.trans rfl) (.inr ⟨hsel.dmSelIn.trans rfl, rfl⟩)
  refine not_determined h0 hback rfl (fun hl => absurd hl (not_long ham)) hfirst hsecond fun heq => ?_
  have hr : (0 : Word) = 1 := Function.update_injective mem 0 (congrArg Arch.mem heq)
  exact absurd hr (by decide)

/-- In any two runs of a program the state at the start of an instruction determines the state at the start of
the next, exactly if the instruction sets all the multiplexers that it uses. -/
theorem determined_iff (w v : Word) : Determined w v ↔ w.Complete := by
  refine ⟨fun h => ⟨fun ⟨ho, ham⟩ => ?_, fun ⟨ho, ham⟩ => ?_, fun ⟨ho, ham⟩ => ?_⟩, fun h =>
    determined_of_complete h v⟩
  · exact jump_undetermined ho ham v h
  · exact ldr_undetermined ho ham v h
  · exact str_undetermined ho ham v h

/-- `JMP $7`, as in the word 7 of `simple_test.mif`. -/
theorem jump_direct_undetermined : ¬ Determined 0x9800 7 := jump_undetermined rfl (.inr rfl) 7

end Recop
end TdmaSoc
