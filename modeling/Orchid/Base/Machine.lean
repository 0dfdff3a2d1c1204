import Mathlib.Data.Fin.Basic
import Mathlib.Data.List.Basic
import Orchid.Lib.Width

/-!
# Machine integers and texts

The fixed-width integers of the source are `Fin` types; an addition that leaves the range is a
panic of the program and has no result here. A text is the list of its characters, and its size
is the number of its UTF-8 bytes.
-/

namespace Orchid

/-- `u64` -/
abbrev U64 := Fin (2 ^ 64)

/-- `u32` -/
abbrev U32 := Fin (2 ^ 32)

/-- `u16` -/
abbrev U16 := Fin (2 ^ 16)

/-- `u8` -/
abbrev U8 := Fin (2 ^ 8)

/-- `Uuid` -/
abbrev Uuid := Fin (2 ^ 128)

/-- `f32`, by its bits. -/
abbrev F32 := BitVec 32

/-- `Vec<u8>` -/
abbrev Bytes := List U8

/-- Checked `x + 1` on `u64`. -/
def U64.succ? (x : U64) : Option U64 :=
  if h : x.val + 1 < 2 ^ 64 then some ⟨x.val + 1, h⟩ else none

lemma U64.val_of_succ? {x y : U64} (h : U64.succ? x = some y) : y.val = x.val + 1 := by
  unfold U64.succ? at h
  split_ifs at h
  cases h
  rfl

lemma U64.lt_of_succ? {x y : U64} (h : U64.succ? x = some y) : x < y := by
  have := U64.val_of_succ? h
  exact Fin.lt_def.mpr (by omega)

/-- `u16::saturating_add` -/
def U16.saturatingAdd (a b : U16) : U16 := ⟨min (a.val + b.val) (2 ^ 16 - 1), by omega⟩

/-- `u16::saturating_sub` -/
def U16.saturatingSub (a b : U16) : U16 := ⟨a.val - b.val, by omega⟩

@[simp] lemma U16.val_saturatingAdd (a b : U16) :
    (U16.saturatingAdd a b).val = min (a.val + b.val) (2 ^ 16 - 1) := rfl

@[simp] lemma U16.val_saturatingSub (a b : U16) :
    (U16.saturatingSub a b).val = a.val - b.val := rfl

/-- A `String` of the source, as the sequence of its characters. -/
abbrev Text := List Char

end Orchid
