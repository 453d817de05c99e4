import Mathlib.Data.List.TakeDrop

/-! A channel whose reader hears of new items only once: when they arrive. -/

namespace EdgeTriggered

variable {α : Type}

/-- The items that wait in a channel, those that have been read, and whether an
event is due. -/
structure Channel (α : Type) where
  unread : List α := []
  read : List α := []
  isReady : Bool := false
deriving DecidableEq

namespace Channel

def arrive (c : Channel α) (items : List α) : Channel α :=
  { c with unread := c.unread ++ items, isReady := true }

/-- Answers the event by reading the next items, at most `n`. -/
def readUpTo (n : Nat) (c : Channel α) : Channel α :=
  { unread := c.unread.drop n, read := c.read ++ c.unread.take n, isReady := false }

theorem read_readUpTo_eq_iff {n : Nat} (c : Channel α) :
    (c.readUpTo n).read = c.read ++ c.unread ↔ c.unread.length ≤ n := by
  rw [readUpTo, List.append_cancel_left_eq, List.take_eq_self_iff]

end Channel

end EdgeTriggered
