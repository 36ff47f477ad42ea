/-!
# Word -- numbers of a fixed width

Numbers that are kept or exchanged in a fixed number of bits.
-/

namespace EventSourcing.Word

set_option autoImplicit false

/-- How many values a number of so many bits can have. -/
def size (bits : Nat) : Nat :=
  Nat.pow 2 bits

theorem size_pos (bits : Nat) : 0 < size bits :=
  Nat.pow_pos (by decide)

/-- One more bit has twice as many values. -/
theorem size_succ (bits : Nat) : size (bits + 1) = size bits * 2 :=
  rfl

end EventSourcing.Word
