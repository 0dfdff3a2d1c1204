import Mathlib.Data.List.Infix

/-!
# Searching for patterns one after the other

The leftmost occurrence of a pattern in a list, and those of a list of patterns that are found one
after the other, each one behind the one found before it.
-/

namespace Orchid.Lib

variable {α ι : Type*}

/-! ### Occurrences -/

/-- `back` is what stands behind the leftmost occurrence of the pattern. -/
def BehindLeftmost (pat text back : List α) : Prop :=
  (∃ front, text = front ++ pat ++ back) ∧
    ∀ front' back', text = front' ++ pat ++ back' → back' <:+ back

/-- The patterns occur one after the other, without overlap. -/
inductive InOrder : List (List α) → List α → Prop where
  | nil (text : List α) : InOrder [] text
  | cons {pat back : List α} {pats : List (List α)} (front : List α) (h : InOrder pats back) :
    InOrder (pat :: pats) (front ++ pat ++ back)

/-- `rest` is what stands behind the patterns, each one taken at its leftmost occurrence behind the
one in front of it, and left out if it has none. -/
inductive Passed : List (List α) → List α → List α → Prop where
  | nil (text : List α) : Passed [] text text
  | found {pat text back rest : List α} {pats : List (List α)} (h : BehindLeftmost pat text back)
    (hrest : Passed pats back rest) : Passed (pat :: pats) text rest
  | missing {pat text rest : List α} {pats : List (List α)} (h : ¬ pat <:+: text)
    (hrest : Passed pats text rest) : Passed (pat :: pats) text rest

lemma InOrder.mono {pats : List (List α)} {text text' : List α} (h : InOrder pats text)
    (hsuffix : text <:+ text') : InOrder pats text' := by
  obtain ⟨more, rfl⟩ := hsuffix
  cases h with
  | nil => exact .nil _
  | @cons pat back pats front hback =>
    have hcons := @InOrder.cons _ pat _ _ (more ++ front) hback
    simpa only [List.append_assoc] using hcons

lemma inOrder_cons_iff {pat text back : List α} {pats : List (List α)}
    (h : BehindLeftmost pat text back) : InOrder (pat :: pats) text ↔ InOrder pats back := by
  obtain ⟨⟨front, htext⟩, hleast⟩ := h
  constructor
  · intro horder
    cases horder with
    | cons front' hback => exact hback.mono (hleast front' _ rfl)
  · intro hback
    rw [htext]
    exact .cons front hback

lemma not_inOrder_cons {pat text : List α} {pats : List (List α)} (h : ¬ pat <:+: text) :
    ¬ InOrder (pat :: pats) text := by
  rintro (_ | ⟨front, hback⟩)
  exact h ⟨front, _, rfl⟩

lemma BehindLeftmost.nil (text : List α) : BehindLeftmost [] text text :=
  ⟨⟨[], rfl⟩, fun front' back' h => ⟨front', by simpa using h.symm⟩⟩

/-- Patterns that stand next to each other, with other things between them, occur in order. -/
lemma inOrder_flatMap (f : ι → List α) (p : ι → Bool) (xs : List ι) (behind : List α) :
    InOrder ((xs.filter p).map f) (xs.flatMap f ++ behind) := by
  induction xs with
  | nil => exact .nil _
  | cons x xs ih =>
    rw [List.flatMap_cons, List.append_assoc]
    by_cases hx : p x
    · rw [List.filter_cons_of_pos hx, List.map_cons]
      simpa using @InOrder.cons _ (f x) _ _ [] ih
    · rw [List.filter_cons_of_neg hx]
      exact ih.mono (List.suffix_append _ _)

lemma BehindLeftmost.unique {p text back back' : List α} (h : BehindLeftmost p text back)
    (h' : BehindLeftmost p text back') : back = back' := by
  obtain ⟨⟨front, htext⟩, hleast⟩ := h
  obtain ⟨⟨front', htext'⟩, hleast'⟩ := h'
  have hle := hleast front' back' htext'
  exact (hle.eq_of_length_le (hleast' front back htext).length_le).symm

lemma Passed.unique {pats : List (List α)} {text rest rest' : List α} (h : Passed pats text rest)
    (h' : Passed pats text rest') : rest = rest' := by
  induction h with
  | nil text =>
    cases h'
    rfl
  | found hleft _ ih =>
    cases h' with
    | found hleft' h' =>
      obtain rfl := hleft.unique hleft'
      exact ih h'
    | missing hinfix =>
      obtain ⟨front, rfl⟩ := hleft.1
      exact absurd ⟨front, _, rfl⟩ hinfix
  | missing hinfix _ ih =>
    cases h' with
    | found hleft' =>
      obtain ⟨front, rfl⟩ := hleft'.1
      exact absurd ⟨front, _, rfl⟩ hinfix
    | missing _ h' => exact ih h'

/-! ### The search -/

variable [DecidableEq α]

/-- The parts of the text in front of the leftmost occurrence of the pattern and behind it. -/
def splitAtFirst (pat : List α) : List α → Option (List α × List α)
  | [] => if pat = [] then some ([], []) else none
  | a :: text =>
    if pat <+: a :: text then some ([], (a :: text).drop pat.length)
    else (splitAtFirst pat text).map fun (front, back) => (a :: front, back)

/-- Search for the patterns one after the other and leave out those without an occurrence; returns
those found, each with the text in front of it, and the text behind the last one. -/
def searchAll (pat : ι → List α) : List α → List ι → List (List α × ι) × List α
  | text, [] => ([], text)
  | text, x :: xs =>
    if pat x = [] then searchAll pat text xs
    else
      match splitAtFirst (pat x) text with
      | none => searchAll pat text xs
      | some (front, back) =>
        let (found, rest) := searchAll pat back xs
        ((front, x) :: found, rest)

lemma splitAtFirst_spec (pat text : List α) :
    (∃ front back, splitAtFirst pat text = some (front, back) ∧ text = front ++ pat ++ back ∧
        BehindLeftmost pat text back) ∨
      splitAtFirst pat text = none ∧ ¬ pat <:+: text := by
  induction text with
  | nil =>
    by_cases hpat : pat = []
    · subst hpat
      exact .inl ⟨[], [], rfl, rfl, BehindLeftmost.nil []⟩
    · exact .inr ⟨by simp [splitAtFirst, hpat], by simpa using hpat⟩
  | cons a text ih =>
    by_cases hpre : pat <+: a :: text
    · refine .inl ⟨[], (a :: text).drop pat.length, by simp [splitAtFirst, hpre], ?_, ?_, ?_⟩
      · obtain ⟨back, hback⟩ := hpre
        simp [← hback]
      · obtain ⟨back, hback⟩ := hpre
        exact ⟨[], by simp [← hback]⟩
      · intro front' back' htext
        have hsuffix : back' <:+ a :: text := ⟨front' ++ pat, htext.symm⟩
        refine List.suffix_of_suffix_length_le hsuffix (List.drop_suffix _ _) ?_
        rw [htext]
        simp
        omega
    · rcases ih with ⟨front, back, hsplit, htext, -, hleast⟩ | ⟨hnone, hinfix⟩
      · have hcons : a :: text = (a :: front) ++ pat ++ back := by rw [htext]; rfl
        refine .inl ⟨a :: front, back, by simp [splitAtFirst, hpre, hsplit], hcons,
          ⟨a :: front, hcons⟩, fun front' back' h => ?_⟩
        cases front' with
        | nil => exact absurd ⟨back', by simpa using h.symm⟩ hpre
        | cons b front' => exact hleast front' back' (List.cons.inj h).2
      · refine .inr ⟨by simp [splitAtFirst, hpre, hnone], ?_⟩
        rw [List.infix_cons_iff]
        rintro (h | h)
        · exact hpre h
        · exact hinfix h

variable {pat : ι → List α}

/-- Everything of the text is found or left. -/
lemma searchAll_text (xs : List ι) (text : List α) :
    (searchAll pat text xs).1.flatMap (fun m => m.1 ++ pat m.2) ++ (searchAll pat text xs).2 =
      text := by
  induction xs generalizing text with
  | nil => rfl
  | cons x xs ih =>
    rw [searchAll]
    split_ifs with hx
    · exact ih text
    · rcases splitAtFirst_spec (pat x) text with ⟨front, back, hsplit, htext, -⟩ | ⟨hnone, -⟩
      · have hih := ih back
        simp only [hsplit, List.flatMap_cons, List.append_assoc, hih]
        rw [htext, List.append_assoc]
      · simp only [hnone]
        exact ih text

lemma searchAll_sublist (xs : List ι) (text : List α) :
    ((searchAll pat text xs).1.map Prod.snd).Sublist xs := by
  induction xs generalizing text with
  | nil => exact List.Sublist.slnil
  | cons x xs ih =>
    rw [searchAll]
    split_ifs with hx
    · exact (ih text).cons x
    · rcases splitAtFirst_spec (pat x) text with ⟨front, back, hsplit, -⟩ | ⟨hnone, -⟩
      · simp only [hsplit, List.map_cons]
        exact (ih back).cons_cons x
      · simp only [hnone]
        exact (ih text).cons x

lemma ne_nil_of_mem_searchAll {xs : List ι} {text : List α} {m : List α × ι}
    (h : m ∈ (searchAll pat text xs).1) : pat m.2 ≠ [] := by
  induction xs generalizing text with
  | nil => simp [searchAll] at h
  | cons x xs ih =>
    rw [searchAll] at h
    split_ifs at h with hx
    · exact ih h
    · rcases splitAtFirst_spec (pat x) text with ⟨front, back, hsplit, -⟩ | ⟨hnone, -⟩
      · simp only [hsplit, List.mem_cons] at h
        rcases h with rfl | h
        · exact hx
        · exact ih h
      · simp only [hnone] at h
        exact ih h

lemma passed_searchAll (xs : List ι) (text : List α) :
    Passed (xs.map pat) text (searchAll pat text xs).2 := by
  induction xs generalizing text with
  | nil => exact .nil text
  | cons x xs ih =>
    rw [searchAll]
    split_ifs with hx
    · rw [List.map_cons, hx]
      exact .found (BehindLeftmost.nil text) (ih text)
    · rcases splitAtFirst_spec (pat x) text with
        ⟨front, back, hsplit, -, hleft⟩ | ⟨hnone, hinfix⟩
      · simp only [hsplit]
        exact .found hleft (ih back)
      · simp only [hnone]
        exact .missing hinfix (ih text)

lemma searchAll_append (xs ys : List ι) (text : List α) :
    (searchAll pat text (xs ++ ys)).1 =
        (searchAll pat text xs).1 ++ (searchAll pat (searchAll pat text xs).2 ys).1 ∧
      (searchAll pat text (xs ++ ys)).2 = (searchAll pat (searchAll pat text xs).2 ys).2 := by
  induction xs generalizing text with
  | nil => exact ⟨rfl, rfl⟩
  | cons x xs ih =>
    rw [List.cons_append, searchAll, searchAll]
    split_ifs with hx
    · exact ih text
    · rcases splitAtFirst_spec (pat x) text with ⟨front, back, hsplit, -⟩ | ⟨hnone, -⟩
      · simp only [hsplit]
        exact ⟨congrArg _ (ih back).1, (ih back).2⟩
      · simp only [hnone]
        exact ih text

/-- All patterns are found exactly if none is empty and they occur one after the other. -/
lemma searchAll_eq_self_iff {xs : List ι} {text : List α} :
    (searchAll pat text xs).1.map Prod.snd = xs ↔
      (∀ x ∈ xs, pat x ≠ []) ∧ InOrder (xs.map pat) text := by
  induction xs generalizing text with
  | nil => exact ⟨fun _ => ⟨by simp, .nil text⟩, fun _ => rfl⟩
  | cons x xs ih =>
    have hshort (text' : List α) : (searchAll pat text' xs).1.map Prod.snd ≠ x :: xs := by
      intro heq
      have hle := (@searchAll_sublist _ _ _ pat xs text').length_le
      rw [heq] at hle
      simp only [List.length_cons] at hle
      omega
    rw [searchAll, List.forall_mem_cons, List.map_cons]
    split_ifs with hx
    · exact ⟨fun h => absurd h (hshort text), fun h => absurd hx h.1.1⟩
    · rcases splitAtFirst_spec (pat x) text with
        ⟨front, back, hsplit, -, hleft⟩ | ⟨hnone, hinfix⟩
      · simp only [hsplit, List.map_cons, List.cons.injEq, true_and, ih, inOrder_cons_iff hleft]
        exact ⟨fun h => ⟨⟨hx, h.1⟩, h.2⟩, fun h => ⟨h.1.2, h.2⟩⟩
      · simp only [hnone]
        exact ⟨fun h => absurd h (hshort text), fun h => absurd h.2 (not_inOrder_cons hinfix)⟩

end Orchid.Lib
