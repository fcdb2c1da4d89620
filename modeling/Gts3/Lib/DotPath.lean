import Mathlib.Data.List.Infix

/-!
# Paths with dots

A path is a list of steps: a component that changes nothing, one that goes up, one that goes down.  `walk` resolves a
path from a directory lexically; at the top, going up changes nothing.  `climb` is what a path comes to without its
start: how many directories it leaves, and the names it goes down afterwards.  A path stays in the directory it starts
from if and only if it re-enters the directories it leaves (`prefix_walk_iff`).
-/

namespace Lib.DotPath

variable {α : Type*}

/-- A component of a path. -/
inductive Step (α : Type*)
  | stay
  | up
  | down (a : α)
  deriving DecidableEq

/-- The directory a path leads to from a directory. -/
def walk : List α → List (Step α) → List α
  | s, [] => s
  | s, .stay :: p => walk s p
  | s, .up :: p => walk s.dropLast p
  | s, .down a :: p => walk (s ++ [a]) p

/-- The directories left and the names gone down, from what they are so far. -/
def climbFrom : ℕ × List α → List (Step α) → ℕ × List α
  | c, [] => c
  | c, .stay :: p => climbFrom c p
  | (k, []), .up :: p => climbFrom (k + 1, []) p
  | (k, n :: names), .up :: p => climbFrom (k, (n :: names).dropLast) p
  | (k, names), .down a :: p => climbFrom (k, names ++ [a]) p

/-- The directories a path leaves, and the names it goes down behind them. -/
def climb (p : List (Step α)) : ℕ × List α := climbFrom (0, []) p

theorem walk_append (s : List α) (p q : List (Step α)) : walk s (p ++ q) = walk (walk s p) q := by
  induction p generalizing s with
  | nil => rfl
  | cons x p ih => cases x <;> exact ih _

/-- What is left of the start stays in front of the names. -/
theorem walk_climbFrom (s : List α) (p : List (Step α)) (k : ℕ) (names : List α) :
    walk (s.take (s.length - k) ++ names) p =
      s.take (s.length - (climbFrom (k, names) p).1) ++ (climbFrom (k, names) p).2 := by
  induction p generalizing k names with
  | nil => rfl
  | cons x p ih =>
    cases x with
    | stay => exact ih k names
    | up =>
      cases names with
      | nil =>
        have hup : (s.take (s.length - k)).dropLast = s.take (s.length - (k + 1)) := by
          rw [List.dropLast_eq_take, List.take_take, List.length_take]
          congr 1
          omega
        have := ih (k + 1) []
        rw [List.append_nil] at this
        rw [List.append_nil, walk, hup, this, climbFrom]
      | cons n names =>
        rw [walk, List.dropLast_append_of_ne_nil (List.cons_ne_nil n names), ih, climbFrom]
    | down a => rw [walk, List.append_assoc, ih, climbFrom]

/-- **Resolution**: the last directories of the start are left, and the names are gone down. -/
theorem walk_eq (s : List α) (p : List (Step α)) : walk s p = s.take (s.length - (climb p).1) ++ (climb p).2 := by
  have := walk_climbFrom s p 0 []
  rwa [Nat.sub_zero, List.take_length, List.append_nil] at this

/-- **A path stays in its start** if and only if it goes down again into the directories it leaves. -/
theorem prefix_walk_iff (s : List α) (p : List (Step α)) :
    s <+: walk s p ↔ s.drop (s.length - (climb p).1) <+: (climb p).2 := by
  calc s <+: walk s p
      ↔ s.take (s.length - (climb p).1) ++ s.drop (s.length - (climb p).1) <+:
          s.take (s.length - (climb p).1) ++ (climb p).2 := by rw [walk_eq, List.take_append_drop]
    _ ↔ s.drop (s.length - (climb p).1) <+: (climb p).2 := List.prefix_append_right_inj _

end Lib.DotPath
