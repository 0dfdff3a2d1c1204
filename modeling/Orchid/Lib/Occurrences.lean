import Orchid.Lib.ByteText

/-!
# Occurrences without overlap

The places of a list at which a pattern occurs, from the left and without overlap, and the same
search on the codes of the elements, where the first element of a code is told from the others.
-/

namespace Orchid.Lib

variable {α β : Type*}

/-- The places at which the pattern occurs, one behind the other, after the first `skip`. -/
def occurrences [DecidableEq α] (pat : List α) : ℕ → List α → List ℕ
  | _, [] => []
  | skip + 1, _ :: text => (occurrences pat skip text).map (· + 1)
  | 0, a :: text =>
    if pat <+: a :: text then 0 :: (occurrences pat (pat.length - 1) text).map (· + 1)
    else (occurrences pat 0 text).map (· + 1)

section Occurrences

variable [DecidableEq α] {pat : List α}

end Occurrences

/-! ### Codes -/

/-- The first element of a code is told from the others, and a code from what follows. -/
structure SelfSync (enc : α → List β) (lead : β → Prop) : Prop where
  first : ∀ a, ∃ b rest, enc a = b :: rest ∧ lead b ∧ ∀ x ∈ rest, ¬ lead x
  inj : ∀ a b u v, enc a ++ u = enc b ++ v → a = b

namespace SelfSync

variable {enc : α → List β} {lead : β → Prop}

variable [DecidableEq β]

variable [DecidableEq α]

end SelfSync

/-! ### UTF-8 -/

/-- The bytes of a character. -/
def utf8Char (c : Char) : List (Fin (2 ^ 8)) := (String.utf8EncodeChar c).map UInt8.toFin

lemma utf8Bytes_eq_flatMap (t : List Char) : utf8Bytes t = t.flatMap utf8Char := by
  unfold utf8Bytes utf8Char
  rw [List.map_flatMap]

/-- A character has one first byte, and its bytes tell it. -/
lemma selfSync_utf8Char :
    SelfSync utf8Char fun b => (UInt8.ofFin b).IsUTF8FirstByte where
  first c := by
    obtain ⟨b, rest, hb⟩ := List.exists_cons_of_ne_nil (@String.utf8EncodeChar_ne_nil c)
    have hfirst (i : ℕ) (hi : i < (b :: rest).length) :
        ((b :: rest)[i]).IsUTF8FirstByte ↔ i = 0 := by
      have := @UInt8.isUTF8FirstByte_getElem_utf8EncodeChar c i (by rw [hb]; exact hi)
      simpa only [hb] using this
    refine ⟨b.toFin, rest.map UInt8.toFin, by rw [utf8Char, hb, List.map_cons], ?_, ?_⟩
    · exact (hfirst 0 (by simp)).mpr rfl
    · intro x hx
      obtain ⟨y, hy, rfl⟩ := List.mem_map.mp hx
      obtain ⟨i, hi, rfl⟩ := List.getElem_of_mem hy
      exact fun hlead => absurd ((hfirst (i + 1) (by simpa using hi)).mp hlead) (by simp)
  inj a b u v huv := by
    have hbytes (c : Char) (w : List (Fin (2 ^ 8))) : (utf8Char c ++ w).map UInt8.ofFin =
        String.utf8EncodeChar c ++ w.map UInt8.ofFin := by
      rw [List.map_append, utf8Char, List.map_map]
      congr 1
      exact List.map_id _
    have hdecode (c : Char) (w : List (Fin (2 ^ 8))) :
        (((utf8Char c ++ w).map UInt8.ofFin).toByteArray).utf8DecodeChar? 0 = some c := by
      rw [hbytes, List.toByteArray_append]
      exact ByteArray.utf8DecodeChar?_utf8EncodeChar_append
    have := hdecode a u
    rw [huv, hdecode b v] at this
    exact (Option.some.inj this).symm

end Orchid.Lib
