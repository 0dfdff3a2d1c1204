import Mathlib.Data.Nat.Find
import Orchid.Lib.CharBoundary
import Orchid.Viewer.ReplaceRuns

/-!
# The difference of two texts, byte by byte

The buffer is compared with a new text byte by byte, from the front and from the back, and both
places are then moved to where characters begin. That this is the difference of the texts as lists
of characters is proved here.
-/

namespace Orchid.Viewer

open Lib

open String (utf8Len)

namespace TextBuffer

/-- The walk of `single_span_diff` from the front: how many bytes are the same. -/
def sameFront : List Octet → List Octet → ℕ
  | b :: old, c :: new => if c = b then sameFront old new + 1 else 0
  | _, _ => 0

/-- `align_byte_to_char_boundary` -/
def alignByteToCharBoundary (bytes : List Octet) (i : ℕ) : ℕ :=
  Nat.findGreatest (fun i => isBoundaryByte bytes i = true) (min i bytes.length)

/-- The walk of `single_span_diff` from the back, for at most so many more bytes. -/
def walkBack (old new : List Octet) : ℕ → ℕ → Option ℕ
  | 0, same => some same
  | more + 1, same => do
    let oldByte ← old[old.length - 1 - same]?
    if new[new.length - 1 - same]? = some oldByte then walkBack old new more (same + 1)
    else some same

/-- The end that both have, made shorter until it begins at characters of both. -/
def sameBack (old new : List Octet) (front : ℕ) (same : ℕ) : ℕ :=
  Nat.findGreatest (fun same => ¬ (old.length - same < front ∨ new.length - same < front) ∧
    isBoundaryByte new (new.length - same) = true ∧
    isBoundaryByte old (old.length - same) = true) same

/-- `single_span_diff`: where the difference begins, and where it ends in the old and in the new
text. -/
def singleSpanDiff (rope newText : Text) : Option (ℕ × ℕ × ℕ) := do
  let old := utf8Bytes rope
  let new := utf8Bytes newText
  let front := alignByteToCharBoundary old (alignByteToCharBoundary new (sameFront old new))
  let same ← walkBack old new (min (old.length - front) (new.length - front)) 0
  let back := sameBack old new front same
  if front = old.length - back ∧ front = new.length - back then none
  else some (front, old.length - back, new.length - back)

/-! ### Walking from both sides -/

variable {old new : List Octet} {t t' u x y w : Text} {n m : ℕ}

/-- The walk from the front is over every start that both lists have. -/
lemma le_sameFront_iff : n ≤ sameFront old new ↔
    n ≤ old.length ∧ n ≤ new.length ∧ old.take n = new.take n := by
  fun_induction sameFront old new generalizing n with
  | case1 b old new ih =>
    cases n with
    | zero => simp
    | succ n => simp [ih]
  | case2 b old c new hne =>
    cases n with
    | zero => simp
    | succ n => simp [Ne.symm hne]
  | case3 old new hnot =>
    cases n with
    | zero => simp
    | succ n =>
      cases old with
      | nil => simp
      | cons b old =>
        cases new with
        | nil => simp
        | cons c new => exact (hnot b old c new rfl rfl).elim

/-- The walk from the back is one from the front of the reversed bytes, as far as it may go. -/
lemma walkBack_eq (more same : ℕ) (hold : same + more ≤ old.length)
    (hnew : same + more ≤ new.length) : walkBack old new more same =
      some (same + min more (sameFront (old.reverse.drop same) (new.reverse.drop same))) := by
  induction more generalizing same with
  | zero => simp [walkBack]
  | succ more ih =>
    have hlt : same < old.reverse.length := by
      rw [List.length_reverse]
      omega
    have hlt' : same < new.reverse.length := by
      rw [List.length_reverse]
      omega
    have hbyte : old[old.length - 1 - same]? = some old.reverse[same] := by
      rw [← List.getElem?_reverse (by simpa using hlt), List.getElem?_eq_getElem hlt]
    have hbyte' : new[new.length - 1 - same]? = some new.reverse[same] := by
      rw [← List.getElem?_reverse (by simpa using hlt'), List.getElem?_eq_getElem hlt']
    rw [walkBack, hbyte, hbyte', List.drop_eq_getElem_cons hlt, List.drop_eq_getElem_cons hlt',
      sameFront, Option.bind_eq_bind, Option.bind_some]
    simp only [Option.some.injEq]
    split_ifs with heq
    · rw [ih (same + 1) (by omega) (by omega)]
      congr 1
      omega
    · simp

/-- Behind the front of both, the walk from the back is over every end that both have. -/
lemma exists_walkBack (old new : List Octet) (more : ℕ) (hold : more ≤ old.length)
    (hnew : more ≤ new.length) : ∃ same, walkBack old new more 0 = some same ∧
      ∀ n, n ≤ same ↔ n ≤ more ∧ old.drop (old.length - n) = new.drop (new.length - n) := by
  refine ⟨_, walkBack_eq more 0 (by simpa using hold) (by simpa using hnew), fun n => ?_⟩
  rw [Nat.zero_add, List.drop_zero, List.drop_zero, le_min_iff, le_sameFront_iff,
    List.take_reverse, List.take_reverse, List.reverse_inj, List.length_reverse,
    List.length_reverse]
  constructor
  · rintro ⟨hmore, -, -, heq⟩
    exact ⟨hmore, heq⟩
  · rintro ⟨hmore, heq⟩
    exact ⟨hmore, hmore.trans hold, hmore.trans hnew, heq⟩

/-! ### The difference as lists of characters -/

/-- A start that both texts have is one of the longest such start. -/
lemma prefix_splitCommon (h : x <+: t) (h' : x <+: t') :
    x <+: (TextViewer.splitCommon t t').1 := by
  fun_induction TextViewer.splitCommon t t' generalizing x with
  | case1 t c t' u v w heq ih =>
    rw [heq] at ih
    cases x with
    | nil => exact List.nil_prefix
    | cons d x =>
      obtain ⟨rfl, hx⟩ := List.cons_prefix_cons.mp h
      exact List.cons_prefix_cons.mpr ⟨rfl, ih hx (List.cons_prefix_cons.mp h').2⟩
  | case2 c t d t' hne =>
    cases x with
    | nil => exact List.nil_prefix
    | cons e x =>
      obtain ⟨rfl, -⟩ := List.cons_prefix_cons.mp h
      exact absurd (List.cons_prefix_cons.mp h').1 hne
  | case3 t t' hnot =>
    cases x with
    | nil => exact List.nil_prefix
    | cons d x =>
      obtain ⟨v, rfl⟩ := h
      obtain ⟨v', rfl⟩ := h'
      exact (hnot _ _ _ _ rfl rfl).elim

/-- The place found from the front is where the texts as lists of characters begin to differ. -/
lemma align_sameFront (t t' : Text) : alignByteToCharBoundary (utf8Bytes t)
    (alignByteToCharBoundary (utf8Bytes t') (sameFront (utf8Bytes t) (utf8Bytes t'))) =
      utf8Len (TextViewer.splitCommon t t').1 := by
  obtain ⟨ht, ht'⟩ := splitCommon_spec t t'
  generalize hu : (TextViewer.splitCommon t t').1 = u at ht ht'
  have hfront : utf8Len u ≤ sameFront (utf8Bytes t) (utf8Bytes t') := by
    rw [le_sameFront_iff, ht, ht']
    simp [← length_utf8Bytes]
  have hlen : sameFront (utf8Bytes t) (utf8Bytes t') ≤ (utf8Bytes t').length :=
    (le_sameFront_iff.mp le_rfl).2.1
  have hnew : alignByteToCharBoundary (utf8Bytes t') (sameFront (utf8Bytes t) (utf8Bytes t')) =
      utf8Len u := by
    rw [alignByteToCharBoundary, min_eq_left hlen, Nat.findGreatest_eq_iff]
    refine ⟨hfront, fun _ => isBoundaryByte_iff.mpr ⟨u, _, ht', rfl⟩, fun n hlt hn hb => ?_⟩
    obtain ⟨v, z, rfl, rfl, hv, -⟩ := (isBoundaryByte_iff.mp hb).exists_take
    have htake := (le_sameFront_iff.mp hn).2.2
    have hpre : v <+: t := by
      refine prefix_of_utf8Bytes ?_
      rw [hv, ← htake]
      exact List.take_prefix _ _
    have hle := String.utf8Len_le_of_prefix (prefix_splitCommon hpre (List.prefix_append v z))
    rw [hu] at hle
    exact absurd hlt hle.not_gt
  rw [hnew, alignByteToCharBoundary, min_eq_left, Nat.findGreatest_eq]
  · exact isBoundaryByte_iff.mpr ⟨u, _, ht, rfl⟩
  · rw [length_utf8Bytes]
    exact String.utf8Len_le_of_prefix ⟨_, ht.symm⟩

/-- A boundary behind the front cuts what is behind the front. -/
lemma exists_of_boundary {same : ℕ} (h : IsCharBoundary (u ++ x) (utf8Len (u ++ x) - same))
    (hle : same ≤ utf8Len x) : ∃ a b, x = a ++ b ∧ utf8Len b = same ∧
      utf8Bytes b = (utf8Bytes (u ++ x)).drop ((utf8Bytes (u ++ x)).length - same) := by
  obtain ⟨v, b, hsplit, hlen, -, hb⟩ := h.exists_take
  have hsum := congrArg utf8Len hsplit
  simp only [String.utf8Len_append] at hsum hlen
  obtain ⟨a, rfl, ha⟩ := exists_of_append_eq hsplit (by omega)
  refine ⟨a, b, ha, by omega, ?_⟩
  rw [hb, length_utf8Bytes]

lemma length_sub_utf8Len (u z w : Text) :
    (utf8Bytes (u ++ (z ++ w))).length - utf8Len w = utf8Len (u ++ z) := by
  rw [length_utf8Bytes, ← List.append_assoc, String.utf8Len_append (u ++ z), Nat.add_sub_cancel]

/-- The end found from the back is the longest one that both texts have behind their front. -/
lemma sameBack_eq {same : ℕ} (hmax : ∀ b, b <:+ x ++ w → b <:+ y ++ w → utf8Len b ≤ utf8Len w)
    (hsame : ∀ n, n ≤ same ↔ n ≤ min (utf8Len (x ++ w)) (utf8Len (y ++ w)) ∧
      (utf8Bytes (u ++ (x ++ w))).drop ((utf8Bytes (u ++ (x ++ w))).length - n) =
        (utf8Bytes (u ++ (y ++ w))).drop ((utf8Bytes (u ++ (y ++ w))).length - n)) :
    sameBack (utf8Bytes (u ++ (x ++ w))) (utf8Bytes (u ++ (y ++ w))) (utf8Len u) same =
      utf8Len w := by
  have hbound (z : Text) : isBoundaryByte (utf8Bytes (u ++ (z ++ w)))
      ((utf8Bytes (u ++ (z ++ w))).length - utf8Len w) = true := by
    rw [length_sub_utf8Len]
    exact isBoundaryByte_iff.mpr ⟨u ++ z, w, by simp, rfl⟩
  have hdrop (z : Text) : (utf8Bytes (u ++ (z ++ w))).drop
      ((utf8Bytes (u ++ (z ++ w))).length - utf8Len w) = utf8Bytes w := by
    rw [length_sub_utf8Len, ← List.append_assoc, utf8Bytes_append (u := u ++ z), ← length_utf8Bytes]
    exact List.drop_left
  rw [sameBack, Nat.findGreatest_eq_iff]
  refine ⟨?_, fun _ => ⟨?_, hbound y, hbound x⟩, ?_⟩
  · rw [hsame, hdrop, hdrop]
    simp
  · rw [length_sub_utf8Len, length_sub_utf8Len]
    simp
  · rintro n hlt hn ⟨-, hy, hx⟩
    obtain ⟨hle, heq⟩ := (hsame n).mp hn
    rw [isBoundaryByte_iff, length_utf8Bytes] at hx hy
    obtain ⟨a, b, hab, hlen, hb⟩ := exists_of_boundary hx (hle.trans (min_le_left ..))
    obtain ⟨a', b', hab', -, hb'⟩ := exists_of_boundary hy (hle.trans (min_le_right ..))
    obtain rfl : b = b' := utf8Bytes_injective (by rw [hb, hb', heq])
    have hw := hmax b ⟨a, hab.symm⟩ ⟨a', hab'.symm⟩
    rw [hlen] at hw
    exact absurd hlt hw.not_gt

/-- The difference with its front and its end, which are the longest ones. -/
lemma exists_singleSpanDiff (t t' : Text) : ∃ w,
    t = (TextViewer.singleSpanDiff t t').1 ++ ((TextViewer.singleSpanDiff t t').2.1 ++ w) ∧
    t' = (TextViewer.singleSpanDiff t t').1 ++ ((TextViewer.singleSpanDiff t t').2.2 ++ w) ∧
    ∀ b, b <:+ (TextViewer.singleSpanDiff t t').2.1 ++ w →
      b <:+ (TextViewer.singleSpanDiff t t').2.2 ++ w → utf8Len b ≤ utf8Len w := by
  obtain ⟨w, ht, ht'⟩ := singleSpanDiff_spec t t'
  obtain ⟨hX, hY⟩ := splitCommon_spec t t'
  have hx : (TextViewer.splitCommon t t').2.1 = (TextViewer.singleSpanDiff t t').2.1 ++ w :=
    List.append_cancel_left (hX.symm.trans ht)
  have hy : (TextViewer.splitCommon t t').2.2 = (TextViewer.singleSpanDiff t t').2.2 ++ w :=
    List.append_cancel_left (hY.symm.trans ht')
  refine ⟨w, ht, ht', fun b hb hb' => ?_⟩
  rw [← hx] at hb
  rw [← hy] at hb'
  have hpre := prefix_splitCommon (List.reverse_prefix.mpr hb) (List.reverse_prefix.mpr hb')
  have hw : w.reverse = (TextViewer.splitCommon (TextViewer.splitCommon t t').2.1.reverse
      (TextViewer.splitCommon t t').2.2.reverse).1 := by
    have hspec := (splitCommon_spec (TextViewer.splitCommon t t').2.1.reverse
      (TextViewer.splitCommon t t').2.2.reverse).1
    nth_rewrite 1 [hx] at hspec
    rw [List.reverse_append, TextViewer.singleSpanDiff, List.reverse_reverse] at hspec
    exact List.append_cancel_right hspec
  rw [← hw] at hpre
  simpa using String.utf8Len_le_of_prefix hpre

/-- The comparison of the bytes finds the difference of the texts, and none if they are equal. -/
lemma singleSpanDiff_eq (t t' : Text) : singleSpanDiff t t' = if t = t' then none else
    some (utf8Len (TextViewer.singleSpanDiff t t').1,
      utf8Len ((TextViewer.singleSpanDiff t t').1 ++ (TextViewer.singleSpanDiff t t').2.1),
      utf8Len ((TextViewer.singleSpanDiff t t').1 ++ (TextViewer.singleSpanDiff t t').2.2)) := by
  obtain ⟨w, ht, ht', hmax⟩ := exists_singleSpanDiff t t'
  have hfront := align_sameFront t t'
  change _ = utf8Len (TextViewer.singleSpanDiff t t').1 at hfront
  rw [singleSpanDiff, hfront]
  generalize TextViewer.singleSpanDiff t t' = diff at *
  obtain ⟨u, x, y⟩ := diff
  simp only at ht ht' hmax ⊢
  subst ht ht'
  have hsub (z : Text) : (utf8Bytes (u ++ z)).length - utf8Len u = utf8Len z := by
    rw [length_utf8Bytes, String.utf8Len_append, Nat.add_sub_cancel_left]
  have hle (z : Text) : utf8Len z ≤ (utf8Bytes (u ++ z)).length := by
    rw [length_utf8Bytes, String.utf8Len_append]
    exact Nat.le_add_left _ _
  obtain ⟨same, hwalk, hsame⟩ := exists_walkBack (utf8Bytes (u ++ (x ++ w)))
    (utf8Bytes (u ++ (y ++ w))) (min (utf8Len (x ++ w)) (utf8Len (y ++ w)))
    ((min_le_left ..).trans (hle _)) ((min_le_right ..).trans (hle _))
  rw [hsub, hsub, hwalk, Option.bind_eq_bind, Option.bind_some, sameBack_eq hmax hsame,
    length_sub_utf8Len, length_sub_utf8Len]
  refine if_congr ?_ rfl rfl
  constructor
  · rintro ⟨hx, hy⟩
    obtain rfl : x = [] := by simpa using hx
    obtain rfl : y = [] := by simpa using hy
    rfl
  · intro heq
    have hsuffix := List.append_cancel_left heq
    have hlen := hmax (x ++ w) List.suffix_rfl (hsuffix ▸ List.suffix_rfl)
    obtain rfl : x = [] := by simpa using hlen
    obtain rfl : y = [] := (List.append_cancel_right hsuffix).symm
    exact ⟨by simp, by simp⟩

/-- The comparison of the bytes finds no difference just if there is none, and otherwise cuts both
texts between characters, behind the longest start that they have in common and before the longest
end that is left. -/
theorem singleSpanDiff_longest (t t' : Text) : (singleSpanDiff t t' = none ↔ t = t') ∧
    ∀ a b c, singleSpanDiff t t' = some (a, b, c) → ∃ u d i w,
      t = u ++ (d ++ w) ∧ t' = u ++ (i ++ w) ∧
      a = utf8Len u ∧ b = utf8Len (u ++ d) ∧ c = utf8Len (u ++ i) ∧
      (∀ x, x <+: t → x <+: t' → x <+: u) ∧
      ∀ x, x <:+ d ++ w → x <:+ i ++ w → utf8Len x ≤ utf8Len w := by
  rw [singleSpanDiff_eq]
  constructor
  · split_ifs with h <;> simp [h]
  · intro a b c h
    split_ifs at h
    obtain ⟨rfl, rfl, rfl⟩ : _ ∧ _ ∧ _ := by simpa only [Option.some.injEq, Prod.mk.injEq] using h
    obtain ⟨w, ht, ht', hmax⟩ := exists_singleSpanDiff t t'
    exact ⟨_, _, _, w, ht, ht', rfl, rfl, rfl, fun x => prefix_splitCommon, hmax⟩

end TextBuffer

end Orchid.Viewer
