import Mathlib.Algebra.GroupWithZero.Nat

/-!
# Widths of machine integers
-/

namespace Orchid.Lib

instance neZero_two_pow_8 : NeZero (2 ^ 8) := ⟨by decide⟩

instance neZero_two_pow_16 : NeZero (2 ^ 16) := ⟨by decide⟩

instance neZero_two_pow_32 : NeZero (2 ^ 32) := ⟨by decide⟩

instance neZero_two_pow_64 : NeZero (2 ^ 64) := ⟨by decide⟩

instance neZero_two_pow_128 : NeZero (2 ^ 128) := ⟨by decide⟩

end Orchid.Lib
