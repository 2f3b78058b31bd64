import Mathlib.Data.List.Basic
import Mathlib.Data.Nat.Notation
import Mathlib.Logic.Function.Basic

/-!
# Blocks one after the other

`blocks f n` lays the first `n` blocks of a sequence end to end. If they all have one length, the
place of each is known; what lies before and behind a block does not depend on it.
-/

namespace Nachos

namespace Program

variable {α : Type} {f g : ℕ → List α} {b k n : ℕ}

/-- The first `n` blocks of `f`. -/
def blocks (f : ℕ → List α) (n : ℕ) : List α := (List.range n).flatMap f

theorem blocks_succ (f : ℕ → List α) (n : ℕ) : blocks f (n + 1) = blocks f n ++ f n := by
  rw [blocks, List.range_succ, List.flatMap_append, List.flatMap_singleton, blocks]

theorem length_blocks (hb : ∀ k, (f k).length = b) (n : ℕ) :
    (blocks f n).length = n * b := by
  induction n with
  | zero => rw [Nat.zero_mul]; rfl
  | succ n ih => rw [blocks_succ, List.length_append, ih, hb, Nat.succ_mul]

theorem blocks_congr (h : ∀ k < n, f k = g k) : blocks f n = blocks g n := by
  induction n with
  | zero => rfl
  | succ n ih =>
    rw [blocks_succ, blocks_succ, ih fun k hk ↦ h k (Nat.lt_succ_of_lt hk),
      h n (Nat.lt_succ_self n)]

/-- What comes before a block, the block, and what comes behind it. -/
theorem blocks_split (f : ℕ → List α) (hk : k < n) :
    blocks f n = blocks f k ++ f k ++ blocks (fun i ↦ f (k + 1 + i)) (n - (k + 1)) := by
  induction n with
  | zero => exact absurd hk (Nat.not_lt_zero k)
  | succ n ih =>
    rcases Nat.lt_succ_iff_lt_or_eq.mp hk with hlt | rfl
    · have hsub : n + 1 - (k + 1) = n - (k + 1) + 1 := by omega
      have hlast : k + 1 + (n - (k + 1)) = n := by omega
      rw [blocks_succ, ih hlt, hsub, blocks_succ, hlast, List.append_assoc]
    · rw [blocks_succ, Nat.sub_self]
      exact (List.append_nil _).symm

/-- One block replaced. -/
theorem blocks_update (f : ℕ → List α) (hk : k < n) (block : List α) :
    blocks (Function.update f k block) n =
      blocks f k ++ block ++ blocks (fun i ↦ f (k + 1 + i)) (n - (k + 1)) := by
  have hbefore : blocks (Function.update f k block) k = blocks f k :=
    blocks_congr fun i hi ↦ Function.update_of_ne (Nat.ne_of_lt hi) ..
  have hbehind : (fun i ↦ Function.update f k block (k + 1 + i)) = fun i ↦ f (k + 1 + i) := by
    funext i
    exact Function.update_of_ne (by omega) ..
  rw [blocks_split _ hk, hbefore, Function.update_self, hbehind]

theorem blocks_replicate (a : α) (b n : ℕ) :
    blocks (fun _ ↦ List.replicate b a) n = List.replicate (n * b) a := by
  induction n with
  | zero => rw [Nat.zero_mul]; rfl
  | succ n ih => rw [blocks_succ, ih, List.replicate_append_replicate, Nat.succ_mul]

/-- A block is found at its place. -/
theorem take_drop_blocks (hb : ∀ k, (f k).length = b) (hk : k < n) :
    ((blocks f n).drop (k * b)).take b = f k := by
  rw [blocks_split f hk, ← length_blocks hb k, List.append_assoc, List.drop_left, ← hb k,
    List.take_left]

end Program

end Nachos
