import Mathlib.Data.List.Induction
import Mathlib.Tactic.TypeStar

/-!
# Blocks of a sequence

`blocks n xs` are the groups of `n` consecutive values that `xs` starts with, as many as are full, and `leftover n xs`
is what is left over. Together they are `xs`; a value that is appended joins the leftover, which is a block once it is
full.
-/

namespace TdmaSoc
variable {α : Type*} {n : Nat} {xs : List α}

def blocks (n : Nat) (xs : List α) : List (List α) :=
  (List.range (xs.length / n)).map fun k => (xs.drop (k * n)).take n

def leftover (n : Nat) (xs : List α) : List α := xs.drop (xs.length / n * n)

theorem length_blocks (n : Nat) (xs : List α) : (blocks n xs).length = xs.length / n := by
  rw [blocks, List.length_map, List.length_range]

theorem length_leftover (n : Nat) (xs : List α) : (leftover n xs).length = xs.length % n := by
  have hdiv := Nat.div_add_mod' xs.length n
  rw [leftover, List.length_drop]
  omega

theorem length_of_mem_blocks {block : List α} (h : block ∈ blocks n xs) : block.length = n := by
  obtain ⟨k, hk, rfl⟩ := List.mem_map.1 h
  have hle : (k + 1) * n ≤ xs.length :=
    Nat.le_trans (Nat.mul_le_mul_right n (List.mem_range.1 hk)) (Nat.div_mul_le_self ..)
  rw [Nat.succ_mul] at hle
  rw [List.length_take, List.length_drop]
  omega

/-- Full blocks are not changed by what is appended. -/
theorem take_drop_append {k : Nat} (hk : k < xs.length / n) (ys : List α) :
    ((xs ++ ys).drop (k * n)).take n = (xs.drop (k * n)).take n := by
  have hle : (k + 1) * n ≤ xs.length := Nat.le_trans (Nat.mul_le_mul_right n hk) (Nat.div_mul_le_self ..)
  rw [Nat.succ_mul] at hle
  rw [List.drop_append_of_le_length (by omega), List.take_append_of_le_length]
  rw [List.length_drop]
  omega

theorem leftover_append (hdiv : (xs ++ ys).length / n = xs.length / n) :
    leftover n (xs ++ ys) = leftover n xs ++ ys := by
  rw [leftover, hdiv, List.drop_append_of_le_length (Nat.div_mul_le_self ..)]
  rfl

/-- A value that does not fill the leftover. -/
theorem blocks_concat_of_lt (h : xs.length % n + 1 < n) (x : α) :
    blocks n (xs ++ [x]) = blocks n xs ∧ leftover n (xs ++ [x]) = leftover n xs ++ [x] := by
  have hdiv : (xs ++ [x]).length / n = xs.length / n := by
    rw [List.length_append, List.length_singleton, Nat.succ_div_of_not_dvd]
    rw [Nat.dvd_iff_mod_eq_zero, Nat.add_mod, Nat.mod_eq_of_lt (show 1 < n by omega), Nat.mod_eq_of_lt h]
    omega
  refine ⟨?_, leftover_append hdiv⟩
  rw [blocks, blocks, hdiv]
  refine List.map_congr_left fun k hk => ?_
  exact take_drop_append (List.mem_range.1 hk) [x]

/-- A value that fills it. -/
theorem blocks_concat_of_eq (h : xs.length % n + 1 = n) (x : α) :
    blocks n (xs ++ [x]) = blocks n xs ++ [leftover n xs ++ [x]] ∧ leftover n (xs ++ [x]) = [] := by
  have hlen : (xs ++ [x]).length = (xs.length / n + 1) * n := by
    have hdiv := Nat.div_add_mod' xs.length n
    rw [List.length_append, List.length_singleton, Nat.succ_mul]
    omega
  have hdiv : (xs ++ [x]).length / n = xs.length / n + 1 := by
    rw [hlen, Nat.mul_div_cancel _ (by omega)]
  have hlast : ((xs ++ [x]).drop (xs.length / n * n)).take n = leftover n xs ++ [x] := by
    rw [List.drop_append_of_le_length (Nat.div_mul_le_self ..)]
    refine List.take_of_length_le ?_
    rw [List.length_append, List.length_singleton]
    have hrest := length_leftover n xs
    rw [leftover] at hrest
    omega
  refine ⟨?_, ?_⟩
  · rw [blocks, hdiv, List.range_succ, List.map_append, List.map_singleton, hlast, blocks]
    congr 1
    refine List.map_congr_left fun k hk => ?_
    exact take_drop_append (List.mem_range.1 hk) [x]
  · rw [leftover, hdiv, ← hlen, List.drop_length]

/-- Every value of `xs` belongs to one block, or to the leftover. -/
theorem flatten_blocks (hn : 0 < n) (xs : List α) : (blocks n xs).flatten ++ leftover n xs = xs := by
  induction xs using List.reverseRecOn with
  | nil =>
    rw [blocks, leftover, List.length_nil, Nat.zero_div]
    exact List.drop_nil
  | append_singleton xs x ih =>
    have hmod := Nat.mod_lt xs.length hn
    by_cases hfull : xs.length % n + 1 = n
    · obtain ⟨hblocks, hrest⟩ := blocks_concat_of_eq hfull x
      rw [hblocks, hrest, List.flatten_append, List.append_nil, List.flatten_singleton, ← List.append_assoc, ih]
    · obtain ⟨hblocks, hrest⟩ := blocks_concat_of_lt (show xs.length % n + 1 < n by omega) x
      rw [hblocks, hrest, ← List.append_assoc, ih]

end TdmaSoc
