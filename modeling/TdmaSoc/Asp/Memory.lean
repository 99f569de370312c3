import TdmaSoc.Asp.Averages
import TdmaSoc.Asp.Window
import TdmaSoc.Lib.RingBuffer

/-!
# The memory as a history

The memory has the last 1024 words that were written, with zeros before the first. An address a little behind
that of the word with number `newest` stands for a number (`back`), until a thousand words more have been written.
The first word that is written is zero too: it is the sum before the first sample.
-/

namespace TdmaSoc
open Window

namespace AvgAspRAM
variable {s : AvgAspRAM} {words : List (BitVec 16)} {newest : Nat} {a : Address}

def history (words : List (BitVec 16)) : List (BitVec 16) := List.replicate 1024 0 ++ words

/-- The word at `a` when the word number `newest` was the last. -/
def back (newest : Nat) (words : List (BitVec 16)) (a : Address) : BitVec 16 :=
  (history words).getD (1024 + newest - (BitVec.ofNat 10 newest - a).toNat) 0

structure Keeps (words : List (BitVec 16)) (s : AvgAspRAM) : Prop where
  memory : RingBuffer.Holds (BitVec.ofNat 10) 1024 (history words) s.ram.ram
  waddr : s.ramWaddr = BitVec.ofNat 10 words.length
  content : ∀ a, s.ram.ram a ∈ 0 :: words
  first : ∀ w ∈ words.head?, w = 0
  ready : words = [] → s.ldr.avgReady = true → s.ldr.avgData = 0
  sum : words = [] → s.ldr.avgReady = false → s.ldr.sumAcc = 0

theorem Keeps.init : init.Keeps [] := by
  refine ⟨fun m w hm _ => ?_, rfl, fun _ => List.mem_singleton_self _, ?_, fun _ h => Bool.noConfusion h,
    fun _ _ => rfl⟩
  · rw [history, List.append_nil] at hm
    exact (List.eq_of_mem_replicate (List.mem_of_getElem? hm)).symm
  · rintro w ⟨⟩

theorem ofNat_ne {m n : Nat} (h : m < n) (hn : n < m + 1024) : BitVec.ofNat 10 m ≠ BitVec.ofNat 10 n := fun he => by
  have := congrArg BitVec.toNat he
  rw [BitVec.toNat_ofNat, BitVec.toNat_ofNat] at this
  omega

theorem length_history (words : List (BitVec 16)) : (history words).length = 1024 + words.length := by
  rw [history, List.length_append, List.length_replicate]

theorem getD_history (words : List (BitVec 16)) (m : Nat) : (history words).getD (1024 + m) 0 = words.getD m 0 := by
  rw [history, List.getD_append_right _ _ _ _ (by rw [List.length_replicate]; omega), List.length_replicate,
    Nat.add_sub_cancel_left]

theorem Keeps.clock (h : s.Keeps words) (recv : TdmaMinPort) :
    (s.clock recv).Keeps (words ++ (writes s recv).map (·.2)) := by
  have hldr : (s.clock recv).ldr = s.ldr.clock recv := rfl
  have hram : (s.clock recv).ram.ram =
      if s.ldr.avgReady then Function.update s.ram.ram s.ramWaddr s.ldr.avgData else s.ram.ram := rfl
  have hwaddr : (s.clock recv).ramWaddr = if s.ldr.avgReady then s.ramWaddr + 1 else s.ramWaddr := rfl
  cases hready : s.ldr.avgReady
  · rw [writes, hready, if_neg Bool.false_ne_true, List.map_nil, List.append_nil]
    rw [hready, if_neg Bool.false_ne_true] at hram hwaddr
    refine ⟨by rw [hram]; exact h.memory, hwaddr.trans h.waddr, by rw [hram]; exact h.content, h.first,
      fun hnil hr => ?_, fun hnil hr => ?_⟩
    · have haccepts : AvgAsp.accepts recv.data = true := by
        rw [hldr, AvgAsp.avgReady_clock, hready] at hr
        split at hr
        · cases hr
        · exact hr
      rw [hldr, AvgAsp.avgData_clock haccepts]
      exact h.sum hnil hready
    · have hkept : AvgAsp.accepts recv.data = false := by
        rw [hldr, AvgAsp.avgReady_clock, hready] at hr
        split at hr
        · rename_i hconfig
          exact AvgAsp.accepts_of_isConfig hconfig
        · exact hr
      have hsum : (s.ldr.clock recv).sumAcc = s.ldr.sumAcc := by
        unfold AvgAsp.clock
        rw [hkept]
        split <;> rfl
      rw [hldr, hsum]
      exact h.sum hnil hready
  · rw [writes, hready, if_pos rfl, List.map_singleton]
    rw [hready, if_pos rfl] at hram hwaddr
    have hne : words ++ [s.ldr.avgData] ≠ [] := List.append_ne_nil_of_right_ne_nil _ (List.cons_ne_nil _ _)
    refine ⟨?_, ?_, fun a => ?_, ?_, fun hnil => absurd hnil hne, fun hnil => absurd hnil hne⟩
    · have hplace : BitVec.ofNat 10 (history words).length = s.ramWaddr := by
        rw [length_history, BitVec.ofNat_add, h.waddr]
        exact BitVec.zero_add _
      have hnew := h.memory.write (fun m n => ofNat_ne) s.ldr.avgData
      rw [hplace, ← hram] at hnew
      rw [history, ← List.append_assoc]
      exact hnew
    · rw [hwaddr, h.waddr, List.length_append, List.length_singleton, BitVec.ofNat_add]
      rfl
    · rw [hram, Function.update_apply, ← List.cons_append]
      split
      · exact List.mem_append_right _ (List.mem_singleton_self _)
      · exact List.mem_append_left _ (h.content a)
    · cases words with
      | nil =>
        rintro w ⟨⟩
        exact h.ready rfl hready
      | cons w ws => exact h.first

theorem back_sub {j : Nat} (hj : j < 1024) (words : List (BitVec 16)) :
    back newest words (BitVec.ofNat 10 newest - BitVec.ofNat 10 j) = (history words).getD (1024 + newest - j) 0 := by
  rw [back, sub_sub_cancel, BitVec.toNat_ofNat, Nat.mod_eq_of_lt hj]

/-- The first word is zero like those before it. -/
theorem back_sub_of_first {j : Nat} (hj : j < 1024) (hfirst : ∀ w ∈ words.head?, w = 0) :
    back newest words (BitVec.ofNat 10 newest - BitVec.ofNat 10 j) = words.getD (newest - j) 0 := by
  rw [back_sub hj]
  rcases Nat.le_or_ge j newest with hle | hge
  · rw [Nat.add_sub_assoc hle, getD_history]
  · have hzero : words.getD (newest - j) 0 = 0 := by
      rw [Nat.sub_eq_zero_of_le hge]
      cases words with
      | nil => rfl
      | cons w ws => exact hfirst w rfl
    rw [hzero]
    rcases Nat.lt_or_ge (1024 + newest - j) 1024 with hlt | hge
    · rw [history, List.getD_append _ _ _ _ (by rwa [List.length_replicate]), List.getD_replicate _ hlt]
    · rw [show 1024 + newest - j = 1024 + (newest - j) by omega, getD_history, hzero]

/-- The last words before and including number `newest`, or those of the empty memory. -/
theorem number_lt (hn : newest < words.length ∨ newest = 0) (j : Nat) :
    1024 + newest - j < (history words).length ∨ words = [] ∧ newest = 0 ∧ j = 0 := by
  rw [length_history]
  rcases Nat.eq_zero_or_pos words.length with hlen | hpos
  · have := List.eq_nil_of_length_eq_zero hlen
    rcases Nat.eq_zero_or_pos j with hj | hj
    · exact .inr ⟨this, by omega, hj⟩
    · left
      omega
  · left
    omega

/-- The words already written are read back as they were when others follow. -/
theorem back_append (hn : newest < words.length ∨ newest = 0) {ws : List (BitVec 16)}
    (hfirst : ∀ w ∈ (words ++ ws).head?, w = 0) (ha : Behind (BitVec.ofNat 10 newest) 7 a) :
    back newest (words ++ ws) a = back newest words a := by
  obtain ⟨j, hj, rfl⟩ := ha
  rw [back_sub (by omega), back_sub (by omega)]
  rcases number_lt hn j with hlt | ⟨rfl, rfl, rfl⟩
  · rw [history, ← List.append_assoc, ← history, List.getD_append _ _ _ _ hlt]
  · rw [Nat.sub_zero, getD_history, getD_history]
    cases ws with
    | nil => rfl
    | cons w ws => exact hfirst w rfl

theorem Keeps.read (h : s.Keeps words) (hn : newest < words.length ∨ newest = 0)
    (hlate : words.length ≤ newest + 1000) (ha : Behind (BitVec.ofNat 10 newest) 7 a) :
    s.ram.ram a = back newest words a := by
  obtain ⟨j, hj, rfl⟩ := ha
  have hplace : BitVec.ofNat 10 (1024 + newest - j) = BitVec.ofNat 10 newest - BitVec.ofNat 10 j := by
    apply BitVec.eq_of_toNat_eq
    rw [BitVec.toNat_sub, BitVec.toNat_ofNat, BitVec.toNat_ofNat, BitVec.toNat_ofNat]
    omega
  rw [back_sub (by omega), ← hplace]
  rcases number_lt hn j with hlt | ⟨rfl, rfl, rfl⟩
  · refine h.memory _ _ ?_ (by rw [length_history]; omega)
    rw [List.getD_eq_getElem?_getD, List.getElem?_eq_getElem hlt]
    rfl
  · have hzero : (history [])[0]? = some 0 := by
      rw [history, List.append_nil, List.getElem?_replicate]
      rfl
    rw [hplace, Nat.sub_zero, getD_history]
    exact h.memory 0 0 hzero (by rw [length_history]; exact Nat.le_refl 1024)

end AvgAspRAM
end TdmaSoc
