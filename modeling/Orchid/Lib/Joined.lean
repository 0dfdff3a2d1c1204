import Mathlib.Data.String.Basic
import Mathlib.Data.List.ModifyLast

/-!
# Texts joined with a separator

Two ways to join a list of texts with a one-character separator. `spread` puts the separator
between any two of them. `joined` puts it in front of a text only if something has been written
before, so it leaves out the empty texts at the front together with their separators.
-/

namespace Orchid.Lib

open String (utf8Len)

variable (sep : Char)

/-- Append `t`, after a separator unless nothing has been written yet. -/
def pushSeparated (out t : List Char) : List Char :=
  (if out.isEmpty then out else out ++ [sep]) ++ t

/-- The texts with a separator in front of each but the first that shows. -/
def joined (ts : List (List Char)) : List Char := ts.foldl (pushSeparated sep) []

/-- The texts with a separator between any two. -/
def spread (ts : List (List Char)) : List Char := [sep].intercalate ts

variable {sep}

@[simp] lemma spread_nil : spread sep [] = [] := rfl

@[simp] lemma spread_singleton (t : List Char) : spread sep [t] = t := List.intercalate_singleton

lemma spread_cons (t : List Char) (ts : List (List Char)) :
    spread sep (t :: ts) = t ++ ts.flatMap (sep :: ·) := by
  induction ts generalizing t with
  | nil => simp
  | cons s ts ih =>
    rw [spread, List.intercalate_cons_cons, ← spread, ih, List.flatMap_cons]
    simp

lemma spread_append_singleton {pre : List (List Char)} (h : pre ≠ []) (t : List Char) :
    spread sep (pre ++ [t]) = spread sep pre ++ sep :: t := by
  cases pre with
  | nil => exact absurd rfl h
  | cons s pre => simp [spread_cons]

/-- Two lists of texts with a separator between them. -/
lemma spread_append {ts ts' : List (List Char)} (h : ts ≠ []) (h' : ts' ≠ []) :
    spread sep (ts ++ ts') = spread sep ts ++ sep :: spread sep ts' := by
  obtain ⟨t, ts, rfl⟩ := List.exists_cons_of_ne_nil h
  obtain ⟨t', ts', rfl⟩ := List.exists_cons_of_ne_nil h'
  rw [List.cons_append, spread_cons, spread_cons, spread_cons, List.flatMap_append,
    List.flatMap_cons]
  simp only [List.append_assoc, List.cons_append]

lemma isPrefix_spread (ts ts' : List (List Char)) : spread sep ts <+: spread sep (ts ++ ts') := by
  cases ts with
  | nil => exact List.nil_prefix
  | cons t ts =>
    rw [List.cons_append, spread_cons, spread_cons, List.flatMap_append, ← List.append_assoc]
    exact List.prefix_append _ _

lemma foldl_pushSeparated {out : List Char} (h : out ≠ []) (ts : List (List Char)) :
    ts.foldl (pushSeparated sep) out = out ++ ts.flatMap (sep :: ·) := by
  induction ts generalizing out with
  | nil => simp
  | cons t ts ih =>
    have hpush : pushSeparated sep out t = out ++ (sep :: t) := by simp [pushSeparated, h]
    rw [List.foldl_cons, hpush, ih (by simp), List.flatMap_cons, List.append_assoc]

@[simp] lemma joined_nil : joined sep [] = [] := rfl

@[simp] lemma joined_nil_cons (ts : List (List Char)) : joined sep ([] :: ts) = joined sep ts := rfl

/-- Behind a text that shows nothing is left out. -/
lemma joined_cons {t : List Char} (h : t ≠ []) (ts : List (List Char)) :
    joined sep (t :: ts) = spread sep (t :: ts) := by
  rw [spread_cons, ← foldl_pushSeparated h]
  rfl

/-- What has been joined stays in front. -/
lemma isPrefix_joined (ts ts' : List (List Char)) : joined sep ts <+: joined sep (ts ++ ts') := by
  have key : ∀ (us : List (List Char)) (out : List Char),
      out <+: us.foldl (pushSeparated sep) out := by
    intro us
    induction us with
    | nil => exact fun out => List.prefix_refl out
    | cons u us ih =>
      intro out
      refine List.IsPrefix.trans ?_ (ih (pushSeparated sep out u))
      unfold pushSeparated
      split_ifs
      · exact List.prefix_append _ _
      · rw [List.append_assoc]
        exact List.prefix_append _ _
  rw [joined, joined, List.foldl_append]
  exact key ts' _

/-! ### Empty texts at the front -/

/-- How many texts show nothing before the first that does. -/
def leadingEmpty (ts : List (List Char)) : ℕ := (ts.takeWhile List.isEmpty).length

lemma leadingEmpty_nil_cons (ts : List (List Char)) :
    leadingEmpty ([] :: ts) = leadingEmpty ts + 1 := rfl

lemma leadingEmpty_cons {t : List Char} (h : t ≠ []) (ts : List (List Char)) :
    leadingEmpty (t :: ts) = 0 := by
  rw [leadingEmpty, List.takeWhile_cons_of_neg (by simpa using h)]
  rfl

/-- Where nothing shows, all texts are empty. -/
lemma joined_eq_nil_iff {ts : List (List Char)} : joined sep ts = [] ↔ ∀ t ∈ ts, t = [] := by
  induction ts with
  | nil => simp
  | cons t ts ih =>
    by_cases h : t = []
    · subst h
      simpa using ih
    · rw [joined_cons h, spread_cons]
      simp [h]

/-- Where something shows, the separators of the empty texts at the front are all that `joined`
leaves out. -/
lemma spread_eq_replicate_append {ts : List (List Char)} (h : joined sep ts ≠ []) :
    spread sep ts = List.replicate (leadingEmpty ts) sep ++ joined sep ts := by
  induction ts with
  | nil => exact absurd rfl h
  | cons t ts ih =>
    by_cases ht : t = []
    · subst ht
      rw [joined_nil_cons] at h ⊢
      cases ts with
      | nil => exact absurd rfl h
      | cons s ts =>
        rw [leadingEmpty_nil_cons, List.replicate_succ, List.cons_append, ← ih h, spread_cons,
          spread_cons]
        rfl
    · rw [leadingEmpty_cons ht, joined_cons ht]
      rfl

lemma leadingEmpty_of_empty {ts : List (List Char)} (h : ∀ t ∈ ts, t = []) :
    leadingEmpty ts = ts.length := by
  induction ts with
  | nil => rfl
  | cons t ts ih =>
    obtain rfl : t = [] := h t List.mem_cons_self
    rw [leadingEmpty_nil_cons, ih fun t ht => h t (List.mem_cons_of_mem _ ht)]
    rfl

/-! ### Lengths -/

lemma utf8Len_spread_of_empty {ts : List (List Char)} (h : ∀ t ∈ ts, t = []) :
    utf8Len (spread sep ts) = (ts.length - 1) * sep.utf8Size := by
  cases ts with
  | nil => simp
  | cons t ts =>
    obtain rfl : t = [] := h t List.mem_cons_self
    have hrest : ∀ t ∈ ts, t = [] := fun t ht => h t (List.mem_cons_of_mem _ ht)
    clear h
    rw [spread_cons, List.nil_append, List.length_cons, Nat.add_sub_cancel]
    induction ts with
    | nil => simp
    | cons t ts ih =>
      obtain rfl : t = [] := hrest t List.mem_cons_self
      have hlen := ih fun t ht => hrest t (List.mem_cons_of_mem _ ht)
      rw [List.flatMap_cons, List.singleton_append, String.utf8Len_cons, hlen, List.length_cons,
        Nat.add_mul, Nat.one_mul]

lemma utf8Len_joined_le_spread (ts : List (List Char)) :
    utf8Len (joined sep ts) ≤ utf8Len (spread sep ts) := by
  induction ts with
  | nil => exact le_rfl
  | cons t ts ih =>
    by_cases h : t = []
    · subst h
      refine ih.trans ?_
      cases ts with
      | nil => exact le_rfl
      | cons s ts =>
        simp only [spread_cons, List.flatMap_cons, List.nil_append, List.cons_append,
          String.utf8Len_cons]
        exact Nat.le_add_right _ _
    · rw [joined_cons h]

/-- The two ways to join agree in length exactly if the first text shows, or is the only one. -/
lemma utf8Len_spread_eq_joined_iff (t : List Char) (ts : List (List Char)) :
    utf8Len (spread sep (t :: ts)) = utf8Len (joined sep (t :: ts)) ↔ t ≠ [] ∨ ts = [] := by
  by_cases h : t = []
  · subst h
    cases ts with
    | nil => simp
    | cons s ts =>
      have hle : utf8Len (joined sep (s :: ts)) ≤ utf8Len (spread sep (s :: ts)) :=
        utf8Len_joined_le_spread (s :: ts)
      have hlen : utf8Len (spread sep ([] :: s :: ts)) =
          utf8Len (spread sep (s :: ts)) + sep.utf8Size := by
        simp [spread_cons]
      have hpos := Char.utf8Size_pos sep
      rw [joined_nil_cons, hlen]
      simp only [ne_eq, not_true_eq_false, reduceCtorEq, or_self, iff_false]
      omega
  · simp [joined_cons h, h]

/-- A separator in front of every text makes the whole longer. -/
lemma utf8Len_joined_le_flatMap (ts : List (List Char)) :
    utf8Len (joined sep ts) ≤ utf8Len (ts.flatMap (sep :: ·)) := by
  refine (utf8Len_joined_le_spread ts).trans ?_
  cases ts with
  | nil => exact le_rfl
  | cons t ts =>
    simp only [spread_cons, List.flatMap_cons, List.cons_append, String.utf8Len_cons]
    exact Nat.le_add_right _ _

/-! ### Changes at the front -/

lemma joined_append (ts us : List (List Char)) :
    joined sep (ts ++ us) =
      if joined sep ts = [] then joined sep us else joined sep ts ++ us.flatMap (sep :: ·) := by
  rw [joined, List.foldl_append]
  split_ifs with h
  · exact congrArg (us.foldl (pushSeparated sep)) h
  · exact foldl_pushSeparated h us

/-- The last text goes on. -/
lemma joined_modifyLast {ts : List (List Char)} {rest : List Char} (h : rest = [] ∨ ts ≠ []) :
    joined sep (ts.modifyLast (· ++ rest)) = joined sep ts ++ rest := by
  rcases List.eq_nil_or_concat ts with rfl | ⟨us, t, rfl⟩
  · obtain rfl := h.resolve_right fun h => h rfl
    rfl
  · rw [List.concat_eq_append, List.modifyLast_concat, joined_append, joined_append]
    split_ifs with hus
    · rfl
    · simp

/-- If a change of the texts in front keeps the length, it changes nothing but the texts it is
about. -/
lemma joined_same_behind {ts ts' us : List (List Char)}
    (h : utf8Len (joined sep (ts ++ us)) = utf8Len (joined sep (ts' ++ us))) :
    ∃ v, joined sep (ts ++ us) = joined sep ts ++ v ∧ joined sep (ts' ++ us) = joined sep ts' ++ v ∧
      utf8Len (joined sep ts) = utf8Len (joined sep ts') := by
  have hle : utf8Len (joined sep us) ≤ utf8Len (us.flatMap (sep :: ·)) :=
    utf8Len_joined_le_flatMap us
  have hpos : ∀ {t : List Char}, t ≠ [] → 0 < utf8Len t := fun h =>
    Nat.pos_of_ne_zero (mt String.utf8Len_eq_zero.mp h)
  rw [joined_append, joined_append] at h ⊢
  by_cases hts : joined sep ts = [] <;> by_cases hts' : joined sep ts' = []
  · simp [hts, hts']
  · have := hpos hts'
    simp only [hts, hts', if_true, if_false, String.utf8Len_append] at h
    omega
  · have := hpos hts
    simp only [hts, hts', if_true, if_false, String.utf8Len_append] at h
    omega
  · simp only [hts, hts', if_false, String.utf8Len_append] at h ⊢
    exact ⟨_, rfl, rfl, by omega⟩

/-! ### Removing a span -/

lemma joined_concat_append (ts : List (List Char)) (t rest : List Char) :
    joined sep (ts ++ [t ++ rest]) = joined sep (ts ++ [t]) ++ rest := by
  rw [← List.modifyLast_concat (· ++ rest)]
  exact joined_modifyLast (.inr (by simp))

lemma utf8Len_joined_lt_flatMap {ts : List (List Char)} (h : ts ≠ []) :
    utf8Len (joined sep ts) < utf8Len (ts.flatMap (sep :: ·)) := by
  refine (utf8Len_joined_le_spread ts).trans_lt ?_
  cases ts with
  | nil => exact absurd rfl h
  | cons t ts =>
    have hpos := Char.utf8Size_pos sep
    simp only [spread_cons, List.flatMap_cons, List.cons_append, String.utf8Len_cons]
    omega

/-- Taking out what stands between `a`, the text up to the end of `u`, and `b`, the text up to the
end of `v'`, is joining `u` with `v`, unless the text then begins with texts that were not at the
front before. -/
lemma joined_remove_iff (front mid back : List (List Char)) (u u' v v' : List Char) :
    (∃ removed rest,
        joined sep (front ++ (u ++ u') :: (mid ++ (v' ++ v) :: back)) =
          joined sep (front ++ [u]) ++ removed ++ rest ∧
        joined sep (front ++ (u ++ u') :: (mid ++ [v'])) = joined sep (front ++ [u]) ++ removed ∧
        joined sep (front ++ (u ++ v) :: back) = joined sep (front ++ [u]) ++ rest) ↔
      ¬ (joined sep (front ++ [u]) = [] ∧ v = [] ∧
        joined sep (front ++ (u ++ u') :: (mid ++ [v'])) ≠ [] ∧ back ≠ []) := by
  have hold : joined sep (front ++ (u ++ u') :: (mid ++ (v' ++ v) :: back)) =
      if joined sep (front ++ (u ++ u') :: (mid ++ [v'])) ++ v = [] then joined sep back
      else joined sep (front ++ (u ++ u') :: (mid ++ [v'])) ++ v ++ back.flatMap (sep :: ·) := by
    have hsplit : front ++ (u ++ u') :: (mid ++ (v' ++ v) :: back) =
        ((front ++ (u ++ u') :: mid) ++ [v' ++ v]) ++ back := by simp
    have hshape : front ++ (u ++ u') :: (mid ++ [v']) = (front ++ (u ++ u') :: mid) ++ [v'] := by
      simp
    rw [hsplit, joined_append, joined_concat_append, hshape]
  have hnew : joined sep (front ++ (u ++ v) :: back) =
      if joined sep (front ++ [u]) ++ v = [] then joined sep back
      else joined sep (front ++ [u]) ++ v ++ back.flatMap (sep :: ·) := by
    rw [List.append_cons, joined_append, joined_concat_append]
  obtain ⟨s, hs⟩ :
      joined sep (front ++ [u]) <+: joined sep (front ++ (u ++ u') :: (mid ++ [v'])) := by
    have hshape : front ++ (u ++ u') :: (mid ++ [v']) =
        front ++ [u ++ u'] ++ (mid ++ [v']) := List.append_cons _ _ _
    rw [hshape]
    refine .trans ?_ (isPrefix_joined (front ++ [u ++ u']) (mid ++ [v']))
    rw [joined_concat_append]
    exact List.prefix_append _ _
  rw [hold, hnew, ← hs]
  generalize joined sep (front ++ [u]) = a
  constructor
  · rintro ⟨removed, rest, hold', hremoved, hnew'⟩ ⟨rfl, rfl, hb, hback⟩
    obtain rfl := List.append_cancel_left hremoved
    simp only [List.nil_append, List.append_nil, if_true] at hold' hnew' hb
    rw [if_neg hb] at hold'
    have hrest := List.append_cancel_left hold'
    have hlt := @utf8Len_joined_lt_flatMap sep _ hback
    rw [hrest, hnew'] at hlt
    exact lt_irrefl _ hlt
  · intro h
    by_cases hb : a ++ s ++ v = []
    · obtain ⟨rfl, rfl, rfl⟩ : a = [] ∧ s = [] ∧ v = [] := by simpa using hb
      exact ⟨[], joined sep back, by simp, rfl, by simp⟩
    · refine ⟨s, v ++ back.flatMap (sep :: ·), by rw [if_neg hb]; simp, rfl, ?_⟩
      by_cases ha : a ++ v = []
      · obtain ⟨rfl, rfl⟩ : a = [] ∧ v = [] := by simpa using ha
        have hback : back = [] := by
          by_contra hne
          exact h ⟨rfl, rfl, by simpa using hb, hne⟩
        simp [hback]
      · rw [if_neg ha, List.append_assoc]

end Orchid.Lib
