import Mathlib.Data.String.Basic
import Orchid.Lib.Width

/-!
# Byte positions in a text

A text is a list of characters, a position in it counts UTF-8 bytes. Not every number up to the
length is a position: `splitAtByte` cuts a text at a position that lies between two characters and
has no result elsewhere.
-/

namespace Orchid.Lib

open String (utf8Len)

/-- The two parts of `t` before and after byte `n`, if `n` is a character boundary. -/
def splitAtByte : List Char → ℕ → Option (List Char × List Char)
  | t, 0 => some ([], t)
  | [], _ + 1 => none
  | c :: t, n + 1 =>
    if c.utf8Size ≤ n + 1 then
      (splitAtByte t (n + 1 - c.utf8Size)).map fun (u, v) => (c :: u, v)
    else none

/-- `n` lies between two characters of `t`, or at one of its ends. -/
def IsCharBoundary (t : List Char) (n : ℕ) : Prop := ∃ u v, t = u ++ v ∧ utf8Len u = n

lemma splitAtByte_eq_some {t : List Char} {n : ℕ} {u v : List Char}
    (h : splitAtByte t n = some (u, v)) : t = u ++ v ∧ utf8Len u = n := by
  fun_induction splitAtByte t n generalizing u v with
  | case1 t =>
    obtain ⟨rfl, rfl⟩ : [] = u ∧ t = v := by simpa using h
    exact ⟨rfl, rfl⟩
  | case2 => simp at h
  | case3 c t n hle ih =>
    obtain ⟨⟨u', v'⟩, hs, heq⟩ := Option.map_eq_some_iff.mp h
    obtain ⟨rfl, rfl⟩ : c :: u' = u ∧ v' = v := by simpa using heq
    obtain ⟨rfl, hlen⟩ := ih hs
    refine ⟨rfl, ?_⟩
    rw [String.utf8Len_cons, hlen]
    exact Nat.sub_add_cancel hle
  | case4 => simp at h

lemma splitAtByte_append (u v : List Char) : splitAtByte (u ++ v) (utf8Len u) = some (u, v) := by
  induction u with
  | nil => cases v <;> simp [splitAtByte]
  | cons c u ih =>
    obtain ⟨n, hn⟩ := Nat.exists_eq_succ_of_ne_zero (Char.utf8Size_pos c).ne'
    have hlen : utf8Len (c :: u) = utf8Len u + n + 1 := by
      rw [String.utf8Len_cons, hn]
      rfl
    have hsub : utf8Len u + n + 1 - c.utf8Size = utf8Len u := by
      rw [hn]
      exact Nat.add_sub_cancel (utf8Len u) (n + 1)
    rw [hlen, List.cons_append, splitAtByte, if_pos, hsub, ih]
    · rfl
    · rw [hn]
      exact Nat.succ_le_succ (Nat.le_add_left _ _)

lemma splitAtByte_eq_some_iff {t : List Char} {n : ℕ} {u v : List Char} :
    splitAtByte t n = some (u, v) ↔ t = u ++ v ∧ utf8Len u = n := by
  constructor
  · exact splitAtByte_eq_some
  · rintro ⟨rfl, rfl⟩
    exact splitAtByte_append u v

lemma IsCharBoundary.le {t : List Char} {n : ℕ} (h : IsCharBoundary t n) : n ≤ utf8Len t := by
  obtain ⟨u, v, rfl, rfl⟩ := h
  rw [String.utf8Len_append]
  exact Nat.le_add_right _ _

/-- A boundary behind a text is one of the rest. -/
lemma isCharBoundary_append_iff {u v : List Char} {n : ℕ} :
    IsCharBoundary (u ++ v) (utf8Len u + n) ↔ IsCharBoundary v n := by
  constructor
  · rintro ⟨a, b, hab, ha⟩
    rcases List.append_eq_append_iff.mp hab with ⟨c, rfl, rfl⟩ | ⟨c, rfl, rfl⟩
    · rw [String.utf8Len_append] at ha
      exact ⟨c, b, rfl, by omega⟩
    · rw [String.utf8Len_append] at ha
      obtain rfl : c = [] := String.utf8Len_eq_zero.mp (by omega)
      exact ⟨[], v, rfl, by rw [String.utf8Len_nil] at ha ⊢; omega⟩
  · rintro ⟨a, b, rfl, rfl⟩
    exact ⟨u ++ a, b, (List.append_assoc u a b).symm, String.utf8Len_append u a⟩

/-- The parts of `t` before byte `n`, from there to byte `m`, and after it. -/
def cutBytes (t : List Char) (n m : ℕ) : Option (List Char × List Char × List Char) :=
  if n ≤ m then
    (splitAtByte t n).bind fun (u, v) => (splitAtByte v (m - n)).map fun (s, w) => (u, s, w)
  else none

lemma cutBytes_eq_some_iff {t u s w : List Char} {n m : ℕ} :
    cutBytes t n m = some (u, s, w) ↔ t = u ++ s ++ w ∧ utf8Len u = n ∧ n + utf8Len s = m := by
  constructor
  · unfold cutBytes
    split_ifs with hnm
    · simp only [Option.bind_eq_some_iff, Option.map_eq_some_iff, Prod.exists,
        splitAtByte_eq_some_iff, Prod.mk.injEq]
      rintro ⟨u, v, ⟨rfl, rfl⟩, s, w, ⟨rfl, hs⟩, rfl, rfl, rfl⟩
      refine ⟨by simp, rfl, ?_⟩
      rw [hs]
      exact Nat.add_sub_cancel' hnm
    · simp
  · rintro ⟨rfl, rfl, rfl⟩
    rw [cutBytes, if_pos (Nat.le_add_right _ _), List.append_assoc, splitAtByte_append]
    simp [splitAtByte_append]

/-- `t` with `s` put at byte `n`. -/
def insertAtByte (t : List Char) (n : ℕ) (s : List Char) : Option (List Char) :=
  (splitAtByte t n).map fun (u, v) => u ++ s ++ v

/-- The bytes `n` to `m` of `t`. -/
def sliceBytes (t : List Char) (n m : ℕ) : Option (List Char) :=
  (cutBytes t n m).map fun (_, s, _) => s

/-- `t` without its bytes `n` to `m`. -/
def drainBytes (t : List Char) (n m : ℕ) : Option (List Char) :=
  (cutBytes t n m).map fun (u, _, w) => u ++ w

lemma insertAtByte_eq_some_iff {t s t' : List Char} {n : ℕ} :
    insertAtByte t n s = some t' ↔ ∃ u v, t = u ++ v ∧ utf8Len u = n ∧ t' = u ++ s ++ v := by
  simp only [insertAtByte, Option.map_eq_some_iff, Prod.exists, splitAtByte_eq_some_iff]
  constructor
  · rintro ⟨u, v, ⟨h, hn⟩, rfl⟩
    exact ⟨u, v, h, hn, rfl⟩
  · rintro ⟨u, v, h, hn, rfl⟩
    exact ⟨u, v, ⟨h, hn⟩, rfl⟩

lemma sliceBytes_eq_some_iff {t s : List Char} {n m : ℕ} :
    sliceBytes t n m = some s ↔
      ∃ u w, t = u ++ s ++ w ∧ utf8Len u = n ∧ n + utf8Len s = m := by
  simp [sliceBytes, cutBytes_eq_some_iff]

lemma drainBytes_eq_some_iff {t t' : List Char} {n m : ℕ} :
    drainBytes t n m = some t' ↔
      ∃ u s w, t = u ++ s ++ w ∧ utf8Len u = n ∧ n + utf8Len s = m ∧ t' = u ++ w := by
  simp only [drainBytes, Option.map_eq_some_iff, Prod.exists, cutBytes_eq_some_iff]
  constructor
  · rintro ⟨u, s, w, ⟨h, hn, hm⟩, rfl⟩
    exact ⟨u, s, w, h, hn, hm, rfl⟩
  · rintro ⟨u, s, w, h, hn, hm, rfl⟩
    exact ⟨u, s, w, ⟨h, hn, hm⟩, rfl⟩

/-- What is in front of a slice counts only by its length. -/
lemma sliceBytes_append_congr {u u' v : List Char} {n m : ℕ} (hlen : utf8Len u = utf8Len u')
    (hn : utf8Len u ≤ n) : sliceBytes (u ++ v) n m = sliceBytes (u' ++ v) n m := by
  have key : ∀ {u u' s : List Char}, utf8Len u = utf8Len u' → utf8Len u ≤ n →
      sliceBytes (u ++ v) n m = some s → sliceBytes (u' ++ v) n m = some s := by
    intro u u' s hlen hn h
    obtain ⟨a, w, happ, ha, hs⟩ := sliceBytes_eq_some_iff.mp h
    rw [List.append_assoc] at happ
    obtain ⟨b, rfl, hv⟩ : ∃ b, a = u ++ b ∧ v = b ++ (s ++ w) := by
      rcases List.append_eq_append_iff.mp happ with ⟨b, hb, hv⟩ | ⟨b, hb, hv⟩
      · exact ⟨b, hb, hv⟩
      · have hb0 : utf8Len b = 0 := by
          rw [hb, String.utf8Len_append] at hn
          omega
        obtain rfl := String.utf8Len_eq_zero.mp hb0
        exact ⟨[], by simpa using hb.symm, by simpa using hv.symm⟩
    refine sliceBytes_eq_some_iff.mpr ⟨u' ++ b, w, by simp [hv], ?_, hs⟩
    rw [String.utf8Len_append] at ha ⊢
    omega
  refine Option.ext fun s => ⟨key hlen hn, key hlen.symm ?_⟩
  omega

/-! ### The bytes of a text -/

/-- The UTF-8 bytes of a text. -/
def utf8Bytes (t : List Char) : List (Fin (2 ^ 8)) :=
  (t.flatMap String.utf8EncodeChar).map UInt8.toFin

/-- The text with the given UTF-8 bytes, if they are well formed. -/
def utf8Text (bytes : List (Fin (2 ^ 8))) : Option (List Char) :=
  (ByteArray.utf8Decode? (bytes.map UInt8.ofFin).toByteArray).map Array.toList

@[simp] lemma utf8Text_utf8Bytes (t : List Char) : utf8Text (utf8Bytes t) = some t := by
  have hbytes : (utf8Bytes t).map UInt8.ofFin = t.flatMap String.utf8EncodeChar := by
    rw [utf8Bytes, List.map_map]
    exact List.map_id _
  have h := List.utf8Decode?_utf8Encode (l := t)
  rw [List.utf8Encode] at h
  rw [utf8Text, hbytes, h]
  simp

lemma length_utf8Bytes (t : List Char) : (utf8Bytes t).length = utf8Len t := by
  rw [utf8Bytes, List.length_map]
  induction t with
  | nil => rfl
  | cons c t ih =>
    rw [List.flatMap_cons, List.length_append, ih, String.length_utf8EncodeChar,
      String.utf8Len_cons, Nat.add_comm]

lemma utf8Bytes_of_utf8Text {bytes : List (Fin (2 ^ 8))} {t : List Char}
    (h : utf8Text bytes = some t) : utf8Bytes t = bytes := by
  obtain ⟨chars, hchars, rfl⟩ := Option.map_eq_some_iff.mp h
  have hsome : (ByteArray.utf8Decode? (bytes.map UInt8.ofFin).toByteArray).isSome := by
    rw [hchars]
    rfl
  have hcode := ByteArray.utf8Encode_get_utf8Decode? (h := hsome)
  simp only [hchars, Option.get_some, List.utf8Encode] at hcode
  have hdata := congrArg (fun b : ByteArray => b.data.toList) hcode
  simp only [List.data_toByteArray] at hdata
  rw [utf8Bytes, hdata, List.map_map]
  exact List.map_id _

end Orchid.Lib
