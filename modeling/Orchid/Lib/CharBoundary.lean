import Mathlib.Algebra.Order.Group.Nat
import Mathlib.Data.List.Basic
import Orchid.Lib.ByteText

/-!
# Character boundaries from the bytes

The bytes of a text tell where its characters begin: no byte but the first one of a character is a
continuation byte. So texts can be compared byte by byte, if the place that is found is moved to a
boundary afterwards.
-/

namespace Orchid.Lib

open String (utf8Len)

/-- A byte. -/
abbrev Octet := Fin (2 ^ 8)

/-- The top bits are `10`. -/
def isContinuation (b : Octet) : Bool := b.val &&& 0b11000000 == 0b10000000

/-- Whether `i` is an end of the bytes or a character begins there. -/
def isBoundaryByte (bytes : List Octet) (i : ℕ) : Bool :=
  i == 0 || i == bytes.length || bytes[i]?.any fun b => !isContinuation b

variable {t u v w : List Char} {c d : Char} {n m : ℕ}

@[simp] lemma utf8Bytes_nil : utf8Bytes [] = [] := rfl

@[simp] lemma utf8Bytes_append : utf8Bytes (u ++ v) = utf8Bytes u ++ utf8Bytes v := by
  simp [utf8Bytes]

lemma utf8Bytes_cons : utf8Bytes (c :: t) = utf8Bytes [c] ++ utf8Bytes t :=
  utf8Bytes_append (u := [c])

lemma utf8Bytes_injective (h : utf8Bytes u = utf8Bytes v) : u = v := by
  have htext := congrArg utf8Text h
  simpa using htext

/-! ### The bytes of a character -/

lemma isContinuation_ofNat (n : ℕ) :
    isContinuation (UInt8.ofNat (n % 64 + 128)).toFin = true := by
  have hall : ∀ k < 64, isContinuation (UInt8.ofNat (k + 128)).toFin = true := by decide
  exact hall _ (Nat.mod_lt _ (by simp))

lemma not_isContinuation_ofNat (h : n < 128 ∨ 192 ≤ n ∧ n < 256) :
    isContinuation (UInt8.ofNat n).toFin = false := by
  have hlow : ∀ k < 128, isContinuation (UInt8.ofNat k).toFin = false := by decide
  have hhigh : ∀ k < 64, isContinuation (UInt8.ofNat (k + 192)).toFin = false := by decide
  rcases h with h | ⟨hle, hlt⟩
  · exact hlow n h
  · obtain ⟨k, rfl⟩ := Nat.exists_eq_add_of_le' hle
    exact hhigh k (Nat.lt_of_add_lt_add_right (n := 192) hlt)

/-- A character has one byte that begins it, and continuation bytes behind that. -/
lemma utf8Bytes_singleton (c : Char) : ∃ b rest, utf8Bytes [c] = b :: rest ∧
    isContinuation b = false ∧ ∀ b' ∈ rest, isContinuation b' = true := by
  have hbytes : utf8Bytes [c] = (String.utf8EncodeChar c).map UInt8.toFin := by simp [utf8Bytes]
  rw [hbytes, String.utf8EncodeChar]
  split_ifs with h1 h2 h3
  · exact ⟨_, [], rfl, not_isContinuation_ofNat (.inl (Nat.lt_succ_of_le h1)), by simp⟩
  · refine ⟨_, _, rfl, not_isContinuation_ofNat (.inr ?_), ?_⟩
    · omega
    · exact List.forall_mem_singleton.mpr (isContinuation_ofNat _)
  · refine ⟨_, _, rfl, not_isContinuation_ofNat (.inr ?_), ?_⟩
    · omega
    · exact List.forall_mem_cons.mpr ⟨isContinuation_ofNat _,
        List.forall_mem_singleton.mpr (isContinuation_ofNat _)⟩
  · refine ⟨_, _, rfl, not_isContinuation_ofNat (.inr ?_), ?_⟩
    · omega
    · exact List.forall_mem_cons.mpr ⟨isContinuation_ofNat _, List.forall_mem_cons.mpr
        ⟨isContinuation_ofNat _, List.forall_mem_singleton.mpr (isContinuation_ofNat _)⟩⟩

/-- The bytes of a character are not the start of the bytes of another one. -/
lemma eq_of_utf8Bytes_append {x y : List Octet}
    (h : utf8Bytes [c] ++ x = utf8Bytes [d] ++ y) : c = d := by
  have hcode (e : Char) (z : List Octet) :
      (((utf8Bytes [e] ++ z).map UInt8.ofFin).toByteArray).utf8DecodeChar? 0 = some e := by
    have heq : (utf8Bytes [e]).map UInt8.ofFin = String.utf8EncodeChar e := by
      rw [utf8Bytes, List.map_map]
      simp only [List.flatMap_cons, List.flatMap_nil, List.append_nil]
      exact List.map_id _
    rw [List.map_append, heq, List.toByteArray_append]
    exact ByteArray.utf8DecodeChar?_utf8EncodeChar_append
  have hc := hcode c x
  rw [h, hcode d y] at hc
  exact (Option.some.inj hc).symm

/-- What is a start of the bytes is a start of the text. -/
lemma prefix_of_utf8Bytes (h : utf8Bytes u <+: utf8Bytes v) : u <+: v := by
  induction u generalizing v with
  | nil => exact List.nil_prefix
  | cons c u ih =>
    cases v with
    | nil =>
      obtain ⟨b, rest, hb, -⟩ := utf8Bytes_singleton c
      rw [utf8Bytes_cons, hb] at h
      simp at h
    | cons d v =>
      obtain ⟨z, hz⟩ := h
      rw [utf8Bytes_cons, utf8Bytes_cons (c := d), List.append_assoc] at hz
      obtain rfl := eq_of_utf8Bytes_append hz
      exact List.cons_prefix_cons.mpr ⟨rfl, ih ⟨z, List.append_cancel_left hz⟩⟩

/-! ### Boundaries -/

lemma IsCharBoundary.zero (t : List Char) : IsCharBoundary t 0 := ⟨[], t, rfl, rfl⟩

lemma IsCharBoundary.length (t : List Char) : IsCharBoundary t (utf8Bytes t).length :=
  ⟨t, [], t.append_nil.symm, (length_utf8Bytes t).symm⟩

lemma IsCharBoundary.cons (h : IsCharBoundary t n) : IsCharBoundary (c :: t) (c.utf8Size + n) := by
  obtain ⟨u, v, rfl, rfl⟩ := h
  exact ⟨c :: u, v, rfl, by rw [String.utf8Len_cons, Nat.add_comm]⟩

lemma length_singleton (c : Char) : (utf8Bytes [c]).length = c.utf8Size := by
  rw [length_utf8Bytes, String.utf8Len_cons]
  exact Nat.zero_add _

/-- A byte that is no continuation begins a character. -/
lemma isCharBoundary_of_getElem? {b : Octet} (hb : (utf8Bytes t)[n]? = some b)
    (hfirst : isContinuation b = false) : IsCharBoundary t n := by
  induction t generalizing n with
  | nil => simp at hb
  | cons c t ih =>
    obtain ⟨first, rest, hc, -, hrest⟩ := utf8Bytes_singleton c
    rw [utf8Bytes_cons] at hb
    by_cases hlt : n < (utf8Bytes [c]).length
    · rw [List.getElem?_append_left hlt, hc] at hb
      cases n with
      | zero => exact .zero _
      | succ n =>
        rw [List.getElem?_cons_succ] at hb
        rw [hrest b (List.mem_of_getElem? hb)] at hfirst
        cases hfirst
    · rw [List.getElem?_append_right (Nat.le_of_not_lt hlt)] at hb
      have hn := (ih hb).cons (c := c)
      rwa [length_singleton, Nat.add_sub_cancel'] at hn
      rw [← length_singleton]
      exact Nat.le_of_not_lt hlt

/-- The test of the bytes finds the boundaries of the text. -/
lemma isBoundaryByte_iff : isBoundaryByte (utf8Bytes t) n = true ↔ IsCharBoundary t n := by
  constructor
  · intro h
    rw [isBoundaryByte, Bool.or_eq_true, Bool.or_eq_true, beq_iff_eq, beq_iff_eq,
      Option.any_eq_true] at h
    rcases h with (rfl | rfl) | ⟨b, hb, hfirst⟩
    · exact .zero t
    · exact .length t
    · exact isCharBoundary_of_getElem? hb (by simpa using hfirst)
  · rintro ⟨u, v, rfl, rfl⟩
    cases v with
    | nil => simp [isBoundaryByte, length_utf8Bytes]
    | cons c v =>
      obtain ⟨b, rest, hc, hfirst, -⟩ := utf8Bytes_singleton c
      have hb : (utf8Bytes (u ++ c :: v))[utf8Len u]? = some b := by
        rw [utf8Bytes_append, utf8Bytes_cons, hc, ← length_utf8Bytes]
        simp
      rw [isBoundaryByte, hb]
      simp [hfirst]

/-- A text is cut at a boundary where its bytes are. -/
lemma IsCharBoundary.exists_take (h : IsCharBoundary t n) : ∃ u v, t = u ++ v ∧ utf8Len u = n ∧
    utf8Bytes u = (utf8Bytes t).take n ∧ utf8Bytes v = (utf8Bytes t).drop n := by
  obtain ⟨u, v, rfl, rfl⟩ := h
  refine ⟨u, v, rfl, rfl, ?_, ?_⟩ <;> simp [← length_utf8Bytes]

end Orchid.Lib
