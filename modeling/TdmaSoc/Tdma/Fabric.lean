import Mathlib.Logic.Function.Basic
import TdmaSoc.Lib.Shuffle
import TdmaSoc.Tdma.Types

/-!
# The switching fabric

`TdmaMinSwitch`, `TdmaMinStage` and `TdmaMinFabric`. The terminals of a stage are numbered from 0;
terminals from `ports` up exist inside the fabric only and carry zero.
-/

namespace TdmaSoc
open Shuffle

def tdmaMinSwitch (s : Bool) (a b : TdmaMinData) : TdmaMinData × TdmaMinData :=
  (if s = false then a else b, if s = false then b else a)

/-- Switch `index` takes inputs `index` and `index + terminals / 2` to outputs `2 * index` and
`2 * index + 1`. -/
def tdmaMinStage (terminals : Nat) (s : Bool) (i : Nat → TdmaMinData) : Nat → TdmaMinData := fun o =>
  let switch := tdmaMinSwitch s (i (o / 2)) (i (o / 2 + terminals / 2))
  if o % 2 = 0 then switch.1 else switch.2

/-- `links(0)` from `links(index)`: stage `index - 1` comes first. -/
def staging (terminals slot : Nat) : Nat → (Nat → TdmaMinData) → Nat → TdmaMinData
  | 0, links => links
  | index + 1, links => staging terminals slot index (tdmaMinStage terminals (slot.testBit index) links)

def tdmaMinFabric (stages ports slot : Nat) (push : Fin ports → TdmaMinData) : Fin ports → TdmaMinData :=
  let links := fun t => if h : t < ports then push ⟨t, h⟩ else 0
  fun q => staging (2 ^ stages) slot stages links q

theorem tdmaMinStage_eq {n : Nat} (hn : 0 < n) (s : Bool) (i : Nat → TdmaMinData) (o : Nat) :
    tdmaMinStage (2 ^ n) s i o = i (rotateRight n (exchange s o)) := by
  obtain ⟨m, rfl⟩ : ∃ m, n = m + 1 := ⟨n - 1, by omega⟩
  have hhalf : 2 ^ (m + 1) / 2 = 2 ^ m := by rw [Nat.pow_succ]; omega
  simp only [tdmaMinStage, tdmaMinSwitch, rotateRight, exchange_div_two, exchange_mod_two, hhalf,
    Nat.add_sub_cancel]
  rcases Nat.mod_two_eq_zero_or_one o with ho | ho <;> cases s <;> simp [ho]

theorem staging_eq {n : Nat} (hn : 0 < n) (slot k : Nat) (links : Nat → TdmaMinData) :
    staging (2 ^ n) slot k links = cascade n slot k links := by
  induction k generalizing links with
  | zero => rfl
  | succ k ih =>
    rw [staging, ih, cascade]
    congr 1; funext o
    exact tdmaMinStage_eq hn _ links o

/-- In slot `s` the fabric connects terminal `q` to terminal `q ^^^ s`. -/
theorem tdmaMinFabric_apply {stages ports slot : Nat} (hn : 0 < stages) (hports : ports ≤ 2 ^ stages)
    (hslot : slot < 2 ^ stages) (push : Fin ports → TdmaMinData) (q : Fin ports) :
    tdmaMinFabric stages ports slot push q =
      if h : q.val ^^^ slot < ports then push ⟨q.val ^^^ slot, h⟩ else 0 := by
  simp only [tdmaMinFabric, staging_eq hn, cascade_eq, route_full (Nat.lt_of_lt_of_le q.isLt hports) hslot]

/-- Terminal `q` pulls what terminal `p` pushes, whatever that is. -/
def connects (stages ports slot : Nat) (q p : Fin ports) : Prop :=
  ∀ push, tdmaMinFabric stages ports slot push q = push p

theorem connects_iff {stages ports slot : Nat} (hn : 0 < stages) (hports : ports ≤ 2 ^ stages)
    (hslot : slot < 2 ^ stages) (q p : Fin ports) : connects stages ports slot q p ↔ p.val = q.val ^^^ slot := by
  constructor
  · intro h
    -- only `p` pushes a one, so `q` pulls from no other terminal
    have hone := h fun r => if r = p then 1 else 0
    rw [tdmaMinFabric_apply hn hports hslot, if_pos rfl] at hone
    split at hone
    case isTrue =>
      split at hone
      case isTrue heq => exact (congrArg Fin.val heq).symm
      case isFalse => cases hone
    case isFalse => cases hone
  · intro h push
    rw [tdmaMinFabric_apply hn hports hslot, dif_pos (h ▸ p.isLt)]
    exact congrArg push (Fin.ext h.symm)

/-- In every slot the fabric pulls from the terminal whose number is xored with the slot, and zero where there is no
such port; so the terminals are connected in pairs, one to one. -/
theorem tdmaMinFabric_pairs {stages ports : Nat} (hn : 0 < stages) (hports : ports ≤ 2 ^ stages)
    (slot : BitVec stages) :
    (∀ (push : Fin ports → TdmaMinData) (q : Fin ports), tdmaMinFabric stages ports slot.toNat push q =
        if h : q.val ^^^ slot.toNat < ports then push ⟨q.val ^^^ slot.toNat, h⟩ else 0) ∧
      (∀ q p : Fin ports, connects stages ports slot.toNat q p → connects stages ports slot.toNat p q) ∧
      (∀ q p p' : Fin ports, connects stages ports slot.toNat q p → connects stages ports slot.toNat q p' → p = p') ∧
      (∀ q q' p : Fin ports, connects stages ports slot.toNat q p → connects stages ports slot.toNat q' p → q = q') ∧
      ∃ partner : Fin (2 ^ stages) → Fin (2 ^ stages), Function.Involutive partner ∧
        ∀ q p, connects stages (2 ^ stages) slot.toNat q p ↔ p = partner q := by
  have hsymm (q p : Fin ports) (h : connects stages ports slot.toNat q p) : connects stages ports slot.toNat p q := by
    rw [connects_iff hn hports slot.isLt] at h ⊢
    rw [h, Nat.xor_xor_cancel_right]
  have hunique (q p p' : Fin ports) (h : connects stages ports slot.toNat q p)
      (h' : connects stages ports slot.toNat q p') : p = p' := by
    rw [connects_iff hn hports slot.isLt] at h h'
    exact Fin.ext (h.trans h'.symm)
  refine ⟨fun push q => tdmaMinFabric_apply hn hports slot.isLt push q, hsymm, hunique, ?_, ?_⟩
  · intro q q' p h h'
    exact hunique p q q' (hsymm q p h) (hsymm q' p h')
  · refine ⟨fun q => ⟨q.val ^^^ slot.toNat, Nat.xor_lt_two_pow q.isLt slot.isLt⟩, ?_, ?_⟩
    · intro q
      exact Fin.ext (Nat.xor_xor_cancel_right ..)
    · intro q p
      rw [connects_iff hn (Nat.le_refl _) slot.isLt, Fin.ext_iff]

/-- Three ports on a fabric of two stages: in slot 3 port 1 pulls from port 2, and port 0 pulls zero. -/
theorem tdmaMinFabric_pairs_three :
    tdmaMinFabric 2 3 3 (fun p => BitVec.ofNat 32 (p.val + 5)) 1 = 7 ∧
      tdmaMinFabric 2 3 3 (fun p => BitVec.ofNat 32 (p.val + 5)) 0 = 0 :=
  ⟨(tdmaMinFabric_pairs (by decide) (by decide) 3#2).1 _ 1, (tdmaMinFabric_pairs (by decide) (by decide) 3#2).1 _ 0⟩

end TdmaSoc
