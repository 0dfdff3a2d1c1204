import Mathlib.Tactic.NormNum
import Orchid.Lib.Wire

/-!
# Numbers of varying width

A small number is one byte. Larger ones stand behind a byte that tells their width, in little-endian
order; a reader takes them also where fewer bytes would do.
-/

namespace Orchid.Lib

/-- The bytes of a number below `2 ^ 64`. -/
def varint (n : ℕ) : List (Fin (2 ^ 8)) :=
  if n < 251 then [Fin.ofNat (2 ^ 8) n]
  else if n < 2 ^ 16 then 251 :: le 2 n
  else if n < 2 ^ 32 then 252 :: le 4 n
  else 253 :: le 8 n

/-- The next number, of at most `w` bytes: 2, 4 or 8. -/
def readVarint {ε : Type} (w : ℕ) (eof invalid : ε) : Parser (Fin (2 ^ 8)) ε ℕ := do
  let b ← Parser.next eof
  if b.val < 251 then return b.val
  else if b.val = 251 then return ofLe (← Parser.take 2 eof)
  else if b.val = 252 ∧ 4 ≤ w then return ofLe (← Parser.take 4 eof)
  else if b.val = 253 ∧ 8 ≤ w then return ofLe (← Parser.take 8 eof)
  else throw invalid

variable {ε : Type} {eof invalid : ε} {w n : ℕ} {s s' : List (Fin (2 ^ 8))}

lemma length_varint_pos (n : ℕ) : 0 < (varint n).length := by
  unfold varint
  split_ifs <;> simp

/-- A number that fits is read back. -/
lemma reads_varint (hw : w = 2 ∨ w = 4 ∨ w = 8) (hn : n < (2 ^ 8) ^ w) :
    Parser.Reads (readVarint w eof invalid) n (varint n) := by
  intro rest
  have htake : ∀ k, n < (2 ^ 8) ^ k →
      (do return ofLe (← Parser.take k eof) : Parser (Fin (2 ^ 8)) ε ℕ) (le k n ++ rest) =
        .ok (n, rest) := by
    intro k hk
    have h := (Parser.reads_take (e := eof) (length_le k n)).bind_pure ofLe rest
    rwa [ofLe_le_of_lt hk] at h
  unfold varint
  split_ifs with hsmall htwo hfour
  · have hval : (Fin.ofNat (2 ^ 8) n).val = n := Nat.mod_eq_of_lt (by omega)
    rw [readVarint, (Parser.reads_next _ eof).bind_append, hval, if_pos hsmall]
    rfl
  · rw [readVarint, List.cons_append, ← List.singleton_append,
      (Parser.reads_next _ eof).bind_append, if_neg (by decide), if_pos (by decide)]
    exact htake 2 (by omega)
  · have hfits : 4 ≤ w := by
      rcases hw with rfl | rfl | rfl
      · omega
      · exact le_rfl
      · decide
    rw [readVarint, List.cons_append, ← List.singleton_append,
      (Parser.reads_next _ eof).bind_append,
      if_neg (by decide), if_neg (by decide), if_pos ⟨by decide, hfits⟩]
    exact htake 4 (by omega)
  · have hfits : w = 8 := by
      rcases hw with rfl | rfl | rfl
      · omega
      · omega
      · rfl
    subst hfits
    rw [readVarint, List.cons_append, ← List.singleton_append,
      (Parser.reads_next _ eof).bind_append,
      if_neg (by decide), if_neg (by decide), if_neg (by decide), if_pos ⟨by decide, le_rfl⟩]
    exact htake 8 hn

/-- What was taken for a number: at most nine bytes, and one where it is a small number. -/
lemma readVarint_eq_ok (h : readVarint w eof invalid s = .ok (n, s')) :
    ∃ b code, s = b :: code ++ s' ∧ code.length ≤ 8 ∧ (b.val < 251 → code = [] ∧ n = b.val) := by
  unfold readVarint at h
  obtain ⟨b, rest, hb, h⟩ := Parser.bind_eq_ok h
  have hs : s = b :: rest := by
    cases s with
    | nil => cases hb
    | cons x s =>
      obtain ⟨rfl, rfl⟩ := Prod.mk.inj (Except.ok.inj hb)
      rfl
  have htake : ∀ k, k ≤ 8 → ¬ b.val < 251 →
      (do return ofLe (← Parser.take k eof) : Parser (Fin (2 ^ 8)) ε ℕ) rest = .ok (n, s') →
      ∃ b code, s = b :: code ++ s' ∧ code.length ≤ 8 ∧ (b.val < 251 → code = [] ∧ n = b.val) := by
    intro k hk hlarge h
    obtain ⟨code, r, hcode, h⟩ := Parser.bind_eq_ok h
    obtain ⟨-, rfl⟩ := Prod.mk.inj (Except.ok.inj h)
    obtain ⟨rfl, rfl⟩ := Parser.take_eq_ok hcode
    exact ⟨b, code, hs, hk, fun hlt => absurd hlt hlarge⟩
  split_ifs at h with hsmall htwo hfour height
  · obtain ⟨rfl, rfl⟩ := Prod.mk.inj (Except.ok.inj h)
    exact ⟨b, [], hs, Nat.zero_le 8, fun _ => ⟨rfl, rfl⟩⟩
  · exact htake 2 (by decide) hsmall h
  · exact htake 4 (by decide) hsmall h
  · exact htake 8 le_rfl hsmall h
  · cases h

end Orchid.Lib
