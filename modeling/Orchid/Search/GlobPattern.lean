import Mathlib.Data.List.Infix
import Orchid.Base.Text
import Orchid.Lib.Glob

/-!
# Exclusion patterns

`glob_match` in `orchid-search/src/indexer/watcher.rs` works on the UTF-8 bytes of the pattern and
of the target.
-/

namespace Orchid.Search

open Lib (GlobItem GlobMatches utf8Bytes utf8Char utf8Bytes_eq_flatMap selfSync_utf8Char)

def starByte : U8 := Fin.ofNat (2 ^ 8) 42

def questionByte : U8 := Fin.ofNat (2 ^ 8) 63

def slashByte : U8 := Fin.ofNat (2 ^ 8) 47

/-- What is left of a text behind a run without a slash. -/
def spans : List U8 → List (List U8)
  | [] => [[]]
  | b :: t => (b :: t) :: if b = slashByte then [] else spans t

/-- One byte of a pattern that does not begin with `**`; `next` matches what is behind it. -/
def globByte (a : U8) (next : List U8 → Bool) (t : List U8) : Bool :=
  if a = starByte then (spans t).any next
  else
    match t with
    | [] => false
    | b :: t => if a = questionByte ∨ a = b then next t else false

/-- `glob_match_inner` -/
def globMatchInner : List U8 → List U8 → Bool
  | [], t => t.isEmpty
  | [a], t => globByte a (globMatchInner []) t
  | a :: b :: p, t =>
    if a = starByte ∧ b = starByte then t.tails.any (globMatchInner p)
    else globByte a (globMatchInner (b :: p)) t

/-- `glob_match` -/
def globMatch (pattern target : Text) : Bool :=
  globMatchInner (utf8Bytes pattern) (utf8Bytes target)

/-- The items of a pattern, as the documentation reads it. -/
def globItems : Text → List (GlobItem Char)
  | [] => []
  | '*' :: '*' :: p => .anything :: globItems p
  | '*' :: p => .run :: globItems p
  | '?' :: p => .joker :: globItems p
  | c :: p => .one c :: globItems p

/-- `*` is any run without a slash, `**` any run, and `?` one character other than a slash. -/
def GlobMeans (pattern target : Text) : Prop :=
  GlobMatches (fun c => [c]) (fun u => ∃ c ≠ '/', u = [c]) '/' (globItems pattern) target

/-- What the bytes of a pattern match: `?` stands for one byte. -/
def ByteMatches (items : List (GlobItem Char)) (t : List U8) : Prop :=
  GlobMatches utf8Char (fun u => ∃ b, u = [b]) slashByte items t

lemma mem_spans {t v : List U8} : v ∈ spans t ↔ ∃ u, t = u ++ v ∧ slashByte ∉ u := by
  induction t with
  | nil =>
    rw [spans, List.mem_singleton]
    constructor
    · rintro rfl
      exact ⟨[], rfl, List.not_mem_nil⟩
    · rintro ⟨u, heq, -⟩
      exact (List.append_eq_nil_iff.mp heq.symm).2
  | cons b t ih =>
    rw [spans, List.mem_cons]
    constructor
    · rintro (rfl | h)
      · exact ⟨[], rfl, List.not_mem_nil⟩
      · split_ifs at h with hb
        · cases h
        · obtain ⟨u, rfl, hu⟩ := ih.mp h
          exact ⟨b :: u, rfl, fun hmem => (List.mem_cons.mp hmem).elim (fun heq => hb heq.symm) hu⟩
    · rintro ⟨u, heq, hu⟩
      cases u with
      | nil => exact .inl heq.symm
      | cons c u =>
        obtain ⟨rfl, rfl⟩ := List.cons.inj heq
        obtain ⟨hne, hu⟩ := not_or.mp (mt List.mem_cons.mpr hu)
        rw [if_neg fun h => hne h.symm]
        exact .inr (ih.mpr ⟨u, rfl, hu⟩)

/-! ### Bytes of ASCII characters -/

lemma utf8Char_ascii (n : Fin 128) : utf8Char (Char.ofNat n) = [Fin.ofNat (2 ^ 8) n] := by
  revert n
  decide

/-- The byte of an ASCII character is in no other character. -/
lemma eq_of_mem_utf8Char {n : Fin 128} {c : Char} (h : Fin.ofNat (2 ^ 8) n ∈ utf8Char c) :
    c = Char.ofNat n := by
  obtain ⟨b, rest, hb, -, hrest⟩ := selfSync_utf8Char.first c
  obtain ⟨b', rest', hb', hlead, -⟩ := selfSync_utf8Char.first (Char.ofNat n)
  rw [utf8Char_ascii] at hb'
  obtain ⟨rfl, rfl⟩ := List.cons.inj hb'
  rw [hb, List.mem_cons] at h
  rcases h with rfl | h
  · refine selfSync_utf8Char.inj c (Char.ofNat n) [] rest ?_
    rw [hb, utf8Char_ascii, List.append_nil]
    rfl
  · exact absurd hlead (hrest _ h)

lemma utf8Char_star : utf8Char '*' = [starByte] := by decide

lemma utf8Char_question : utf8Char '?' = [questionByte] := by decide

lemma utf8Char_slash : utf8Char '/' = [slashByte] := by decide

lemma star_of_mem {c : Char} (h : starByte ∈ utf8Char c) : c = '*' := eq_of_mem_utf8Char (n := 42) h

lemma question_of_mem {c : Char} (h : questionByte ∈ utf8Char c) : c = '?' :=
  eq_of_mem_utf8Char (n := 63) h

lemma slash_of_mem {c : Char} (h : slashByte ∈ utf8Char c) : c = '/' :=
  eq_of_mem_utf8Char (n := 47) h

/-! ### Patterns -/

lemma globByte_star (next : List U8 → Bool) (t : List U8) :
    globByte starByte next t = (spans t).any next := by
  rw [globByte.eq_def, if_pos rfl]

lemma globByte_nil {a : U8} (ha : a ≠ starByte) (next : List U8 → Bool) :
    globByte a next [] = false := by
  rw [globByte.eq_def, if_neg ha]

lemma globByte_cons {a : U8} (ha : a ≠ starByte) (next : List U8 → Bool) (b : U8) (t : List U8) :
    globByte a next (b :: t) = if a = questionByte ∨ a = b then next t else false := by
  rw [globByte.eq_def, if_neg ha]

lemma globMatchInner_cons {a : U8} {p : List U8} (h : ¬(a = starByte ∧ p.head? = some starByte))
    (t : List U8) : globMatchInner (a :: p) t = globByte a (globMatchInner p) t := by
  cases p with
  | nil => rw [globMatchInner]
  | cons b p =>
    rw [globMatchInner, if_neg]
    rintro ⟨ha, rfl⟩
    exact h ⟨ha, rfl⟩

/-- Plain bytes are matched one by one. -/
lemma globMatchInner_append {front : List U8} (hstar : starByte ∉ front)
    (hquestion : questionByte ∉ front) (p t : List U8) :
    globMatchInner (front ++ p) t = true ↔ ∃ v, t = front ++ v ∧ globMatchInner p v = true := by
  induction front generalizing t with
  | nil => simp
  | cons a front ih =>
    obtain ⟨ha, hstar⟩ := not_or.mp (mt List.mem_cons.mpr hstar)
    obtain ⟨ha', hquestion⟩ := not_or.mp (mt List.mem_cons.mpr hquestion)
    rw [List.cons_append, globMatchInner_cons fun h => ha h.1.symm]
    cases t with
    | nil => simp [globByte_nil (Ne.symm ha)]
    | cons b t =>
      simp only [globByte_cons (Ne.symm ha), Ne.symm ha', false_or]
      split_ifs with hb
      · subst hb
        rw [ih hstar hquestion]
        simp
      · simp [Ne.symm hb]

lemma head?_utf8Bytes (p : Text) : (utf8Bytes p).head? = some starByte ↔ p.head? = some '*' := by
  cases p with
  | nil => decide
  | cons c p =>
    obtain ⟨b, rest, hb, -⟩ := selfSync_utf8Char.first c
    rw [utf8Bytes_eq_flatMap, List.flatMap_cons, hb]
    simp only [List.cons_append, List.head?_cons, Option.some.injEq]
    constructor
    · rintro rfl
      exact star_of_mem (by rw [hb]; exact List.mem_cons_self)
    · rintro rfl
      rw [utf8Char_star] at hb
      exact (List.cons.inj hb).1.symm

/-- The matcher finds what the items match, where `?` stands for one byte. -/
lemma globMatchInner_iff (p : Text) (t : List U8) :
    globMatchInner (utf8Bytes p) t = true ↔ ByteMatches (globItems p) t := by
  have hcons (c : Char) (p : Text) : utf8Bytes (c :: p) = utf8Char c ++ utf8Bytes p := by
    rw [utf8Bytes_eq_flatMap, utf8Bytes_eq_flatMap, List.flatMap_cons]
  fun_induction globItems p generalizing t with
  | case1 =>
    have hnil : utf8Bytes [] = [] := rfl
    rw [hnil, globMatchInner, List.isEmpty_iff]
    rfl
  | case2 p ih =>
    rw [hcons, hcons, utf8Char_star, List.singleton_append, List.singleton_append, globMatchInner,
      if_pos ⟨rfl, rfl⟩, List.any_eq_true]
    constructor
    · rintro ⟨v, hv, hmatch⟩
      obtain ⟨u, rfl⟩ := (List.mem_tails _ _).mp hv
      exact ⟨u, v, rfl, (ih v).mp hmatch⟩
    · rintro ⟨u, v, rfl, hmatch⟩
      exact ⟨v, (List.mem_tails _ _).mpr ⟨u, rfl⟩, (ih v).mpr hmatch⟩
  | case3 p hp ih =>
    have hhead : ¬(starByte = starByte ∧ (utf8Bytes p).head? = some starByte) := by
      rintro ⟨-, h⟩
      obtain ⟨p, rfl⟩ := List.head?_eq_some_iff.mp ((head?_utf8Bytes p).mp h)
      exact hp p rfl
    rw [hcons, utf8Char_star, List.singleton_append, globMatchInner_cons hhead, globByte_star,
      List.any_eq_true]
    constructor
    · rintro ⟨v, hv, hmatch⟩
      obtain ⟨u, rfl, hu⟩ := mem_spans.mp hv
      exact ⟨u, v, rfl, hu, (ih v).mp hmatch⟩
    · rintro ⟨u, v, rfl, hu, hmatch⟩
      exact ⟨v, mem_spans.mpr ⟨u, rfl, hu⟩, (ih v).mpr hmatch⟩
  | case4 p ih =>
    have hne : questionByte ≠ starByte := by decide
    rw [hcons, utf8Char_question, List.singleton_append, globMatchInner_cons fun h => hne h.1]
    constructor
    · intro h
      cases t with
      | nil =>
        rw [globByte_nil hne] at h
        cases h
      | cons b t =>
        rw [globByte_cons hne, if_pos (.inl rfl)] at h
        exact ⟨[b], t, rfl, ⟨b, rfl⟩, (ih t).mp h⟩
    · rintro ⟨_, v, rfl, ⟨b, rfl⟩, hmatch⟩
      rw [List.singleton_append, globByte_cons hne, if_pos (.inl rfl)]
      exact (ih v).mpr hmatch
  | case5 c p _ hstar hquestion ih =>
    rw [hcons, globMatchInner_append (fun h => hstar (star_of_mem h))
      fun h => hquestion (question_of_mem h)]
    constructor
    · rintro ⟨v, rfl, hmatch⟩
      exact ⟨v, rfl, (ih v).mp hmatch⟩
    · rintro ⟨v, rfl, hmatch⟩
      exact ⟨v, rfl, (ih v).mpr hmatch⟩

lemma joker_mem_globItems (p : Text) : .joker ∈ globItems p ↔ '?' ∈ p := by
  fun_induction globItems p with
  | case1 => simp
  | case2 p ih => simp [ih]
  | case3 p _ ih => simp [ih]
  | case4 p ih => simp
  | case5 c p _ _ hquestion ih => simp [ih, Ne.symm hquestion]

/-- A pattern means what it is said to mean for every target if and only if it has no `?`. -/
lemma globMatch_iff (pattern : Text) :
    (∀ target, globMatch pattern target = true ↔ GlobMeans pattern target) ↔ '?' ∉ pattern := by
  rw [← joker_mem_globItems, ← Lib.globMatches_flatMap_iff (fun u => ∃ b, u = [b])
    selfSync_utf8Char utf8Char_slash (fun c => slash_of_mem) (fun u h => h) ⟨slashByte, rfl⟩]
  refine forall_congr' fun target => ?_
  rw [globMatch, globMatchInner_iff, utf8Bytes_eq_flatMap]
  rfl

end Orchid.Search
