/-
  Sizes that are not zero, and the positions below them.

  The instances for the sizes that are given by a number are constants, and come
  before the ones of the library, so that a position such as `(0 : Fin 2)` is the
  same term in every module.
-/
import Mathlib.Algebra.GroupWithZero.Nat

namespace Sizes

instance (priority := 1100) succ (n : ℕ) : NeZero (n + 1) := ⟨n.succ_ne_zero⟩

instance (priority := high) one : NeZero 1 := succ 0

instance (priority := high) two : NeZero 2 := succ 1

instance (priority := high) three : NeZero 3 := succ 2

instance (priority := high) four : NeZero 4 := succ 3

instance (priority := high) five : NeZero 5 := succ 4

instance (priority := high) seven : NeZero 7 := succ 6

instance (priority := high) eight : NeZero 8 := succ 7

instance (priority := high) twelve : NeZero 12 := succ 11

instance (priority := high) sixteen : NeZero 16 := succ 15

instance (priority := high) thirtyTwo : NeZero 32 := succ 31

/-- Positions are in a list if they are equal to one of its members. -/
instance (priority := high) lawfulBEq (n : ℕ) : LawfulBEq (Fin n) := instLawfulBEq

end Sizes
