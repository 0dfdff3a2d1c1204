import Mathlib.Data.List.Basic
import Mathlib.Data.List.TakeWhile
import Orchid.Fs.Path

/-!
# Normal bodies

Normalising a body again changes nothing, except where three slashes lead to nothing.
-/

namespace Orchid.Fs

open scoped List

/-! ### Cutting texts -/

lemma splitOnce_append {c : Char} {a : Text} (ha : c ∉ a) (b : Text) :
    splitOnce c (a ++ c :: b) = some (a, b) := by
  have hall : ∀ d ∈ a, (decide (d ≠ c)) = true := fun d hd => by
    simpa using ne_of_mem_of_not_mem hd ha
  unfold splitOnce
  rw [List.dropWhile_append_of_pos hall, List.takeWhile_append_of_pos hall]
  simp

lemma splitOnce_of_notMem {c : Char} {s : Text} (h : c ∉ s) : splitOnce c s = none := by
  have hnil : (s.dropWhile fun d => decide (d ≠ c)) = [] := by
    refine List.dropWhile_eq_nil_iff.mpr fun d hd => ?_
    simpa using ne_of_mem_of_not_mem hd h
  unfold splitOnce
  rw [hnil]

lemma splitOnce_eq_some {c : Char} {s a b : Text} (h : splitOnce c s = some (a, b)) :
    s = a ++ c :: b ∧ c ∉ a := by
  by_cases hc : c ∈ s
  · obtain ⟨a', b', rfl, ha'⟩ := List.eq_append_cons_of_mem hc
    rw [splitOnce_append ha'] at h
    obtain ⟨rfl, rfl⟩ := Prod.mk.inj (Option.some.inj h)
    exact ⟨rfl, ha'⟩
  · rw [splitOnce_of_notMem hc] at h
    cases h

lemma notMem_of_splitOnce {c : Char} {s : Text} (h : splitOnce c s = none) : c ∉ s := by
  intro hc
  obtain ⟨a, b, rfl, ha⟩ := List.eq_append_cons_of_mem hc
  rw [splitOnce_append ha] at h
  cases h

lemma rsplitOnce_append {c : Char} {b : Text} (hb : c ∉ b) (a : Text) :
    rsplitOnce c (a ++ c :: b) = some (a, b) := by
  have hrev : (a ++ c :: b).reverse = b.reverse ++ c :: a.reverse := by simp
  unfold rsplitOnce
  rw [hrev, splitOnce_append (by simpa using hb)]
  simp

lemma rsplitOnce_eq_some {c : Char} {s a b : Text} (h : rsplitOnce c s = some (a, b)) :
    s = a ++ c :: b ∧ c ∉ b := by
  unfold rsplitOnce at h
  obtain ⟨⟨b', a'⟩, hsplit, hpair⟩ := Option.map_eq_some_iff.mp h
  obtain ⟨rfl, rfl⟩ := Prod.mk.inj hpair
  obtain ⟨hs, hb⟩ := splitOnce_eq_some hsplit
  refine ⟨?_, by simpa using hb⟩
  rw [← List.reverse_reverse s, hs]
  simp

lemma before_append {c : Char} {a : Text} (ha : c ∉ a) (b : Text) : before c (a ++ c :: b) = a := by
  unfold before
  rw [List.takeWhile_append_of_pos fun d hd => by simpa using ne_of_mem_of_not_mem hd ha]
  simp

lemma before_of_notMem {c : Char} {s : Text} (h : c ∉ s) : before c s = s :=
  List.takeWhile_eq_self_iff.mpr fun d hd => by simpa using ne_of_mem_of_not_mem hd h

lemma notMem_before (c : Char) (s : Text) : c ∉ before c s := by
  intro h
  simpa using List.mem_takeWhile_imp h

/-! ### Segments -/

/-- A segment that stays. -/
structure Seg (s : Text) : Prop where
  nonempty : s ≠ []
  not_dot : s ≠ ['.']
  no_slash : '/' ∉ s

/-- Segments that stay, the last one first: nothing to leave stands in front of a `..`. -/
def Resolved : List Text → Prop
  | [] => True
  | s :: out => Seg s ∧ (s = dotdot → ∀ t ∈ out.head?, t = dotdot) ∧ Resolved out

lemma Resolved.seg {out : List Text} (h : Resolved out) {s : Text} (hs : s ∈ out) : Seg s := by
  induction out with
  | nil => cases hs
  | cons t out ih =>
    rcases List.mem_cons.mp hs with rfl | hs
    · exact h.1
    · exact ih h.2.2 hs

lemma Resolved.of_append {out rest : List Text} (h : Resolved (out ++ rest)) : Resolved out := by
  induction out with
  | nil => trivial
  | cons t out ih =>
    refine ⟨h.1, fun ht u hu => h.2.1 ht u ?_, ih h.2.2⟩
    cases out with
    | nil => cases hu
    | cons v out => exact hu

lemma seg_dotdot : Seg dotdot := ⟨by decide, by decide, by decide⟩

lemma Resolved.flattenSegment {out : List Text} (h : Resolved out) {s : Text} (hs : '/' ∉ s) :
    Resolved (flattenSegment out s) := by
  unfold Fs.flattenSegment
  split_ifs with hskip hdots
  · exact h
  · cases out with
    | nil => exact ⟨seg_dotdot, fun _ => nofun, trivial⟩
    | cons last rest =>
      dsimp only
      split_ifs with hlast
      · exact h.2.2
      · refine ⟨seg_dotdot, fun _ t ht => ?_, h⟩
        obtain rfl := Option.some.inj ht
        exact not_not.mp hlast
  · rw [not_or] at hskip
    exact ⟨⟨hskip.1, hskip.2, hs⟩, fun hdot => absurd hdot hdots, h⟩

lemma Resolved.foldl {out segments : List Text} (h : Resolved out)
    (hs : ∀ s ∈ segments, '/' ∉ s) : Resolved (segments.foldl Fs.flattenSegment out) := by
  induction segments generalizing out with
  | nil => exact h
  | cons s segments ih =>
    exact ih (h.flattenSegment (hs s List.mem_cons_self)) fun t ht =>
      hs t (List.mem_cons_of_mem _ ht)

/-- Segments that stay are not changed. -/
lemma Resolved.foldl_reverse {out : List Text} (h : Resolved out) :
    out.reverse.foldl Fs.flattenSegment [] = out := by
  induction out with
  | nil => rfl
  | cons s out ih =>
    obtain ⟨hseg, hdots, hout⟩ := h
    rw [List.reverse_cons, List.foldl_append, ih hout, List.foldl_cons, List.foldl_nil]
    unfold Fs.flattenSegment
    rw [if_neg (not_or.mpr ⟨hseg.nonempty, hseg.not_dot⟩)]
    split_ifs with hs
    · cases out with
      | nil => rw [hs]
      | cons last rest =>
        dsimp only
        rw [if_neg (not_not.mpr (hdots hs last rfl)), hs]
    · rfl

lemma notMem_of_mem_splitOn {s rest : Text} (h : s ∈ rest.splitOn '/') : '/' ∉ s := by
  induction rest generalizing s with
  | nil =>
    rw [List.splitOn_nil] at h
    obtain rfl := List.mem_singleton.mp h
    exact nofun
  | cons c rest ih =>
    rw [List.splitOn_cons_eq_if_modifyHead] at h
    split_ifs at h with hc
    · rcases List.mem_cons.mp h with rfl | h
      · exact nofun
      · exact ih h
    · cases hsplit : rest.splitOn '/' with
      | nil => exact absurd hsplit (List.splitOn_ne_nil _ _)
      | cons t segments =>
        rw [hsplit, List.modifyHead_cons] at h
        rcases List.mem_cons.mp h with rfl | h
        · intro hmem
          rcases List.mem_cons.mp hmem with heq | hmem
          · exact hc (beq_iff_eq.mpr heq.symm)
          · exact ih (by rw [hsplit]; exact List.mem_cons_self) hmem
        · exact ih (by rw [hsplit]; exact List.mem_cons_of_mem _ h)

lemma resolved_foldl (rest : Text) : Resolved ((rest.splitOn '/').foldl flattenSegment []) :=
  Resolved.foldl trivial fun _ hs => notMem_of_mem_splitOn hs

/-! ### Segments joined -/

/-- Segments joined, the last one first. -/
def joined (out : List Text) : Text := ['/'].intercalate out.reverse

lemma splitOn_joined {out : List Text} (h : Resolved out) (hne : out ≠ []) :
    (joined out).splitOn '/' = out.reverse :=
  List.splitOn_intercalate '/' (fun _ hs => (h.seg (List.mem_reverse.mp hs)).no_slash)
    (by simpa using hne)

lemma flatten_joined {out : List Text} (h : Resolved out) : flatten (joined out) = out.reverse := by
  unfold flatten
  by_cases hne : out = []
  · rw [hne]
    rfl
  · rw [splitOn_joined h hne, h.foldl_reverse]

lemma intercalate_flatten (rest : Text) : ∃ out, Resolved out ∧
    ['/'].intercalate (flatten rest) = joined out :=
  ⟨_, resolved_foldl rest, rfl⟩

/-- The first character of joined segments. -/
lemma head_joined {out : List Text} (h : Resolved out) : ∀ c ∈ (joined out).head?, c ≠ '/' := by
  intro c hc
  unfold joined at hc
  have hall : ∀ s ∈ out.reverse, Seg s := fun s hs => h.seg (List.mem_reverse.mp hs)
  cases hrev : out.reverse with
  | nil =>
    rw [hrev] at hc
    cases hc
  | cons s segments =>
    have hs := hall s (by rw [hrev]; exact List.mem_cons_self)
    obtain ⟨d, s', rfl⟩ := List.exists_cons_of_ne_nil hs.nonempty
    have hcd : d = c := by
      rw [hrev] at hc
      cases segments with
      | nil => exact Option.some.inj hc
      | cons t segments => exact Option.some.inj hc
    intro hslash
    exact hs.no_slash (by rw [hcd, hslash]; exact List.mem_cons_self)

lemma joined_eq_nil {out : List Text} (h : Resolved out) : joined out = [] ↔ out = [] := by
  constructor
  · intro hnil
    by_contra hne
    have hsplit := splitOn_joined h hne
    rw [hnil, List.splitOn_nil] at hsplit
    have hmem : ([] : Text) ∈ out := List.mem_reverse.mp (by rw [← hsplit]; exact List.mem_cons_self)
    exact (h.seg hmem).nonempty rfl
  · rintro rfl
    rfl

/-- The last character of joined segments. -/
lemma getLast_joined {out : List Text} (h : Resolved out) (hne : out ≠ []) :
    ∃ c, (joined out).getLast? = some c ∧ c ≠ '/' := by
  obtain ⟨s, rest, rfl⟩ := List.exists_cons_of_ne_nil hne
  have hs := h.1
  obtain ⟨c, hc⟩ : ∃ c, s.getLast? = some c := by
    cases hlast : s.getLast? with
    | none => exact absurd (List.getLast?_eq_none_iff.mp hlast) hs.nonempty
    | some c => exact ⟨c, rfl⟩
  refine ⟨c, ?_, fun hslash => hs.no_slash ?_⟩
  · obtain ⟨t, ht⟩ : ∃ t, joined (s :: rest) = t ++ s := by
      unfold joined
      rw [List.reverse_cons]
      generalize rest.reverse = segments
      induction segments with
      | nil => exact ⟨[], List.intercalate_singleton⟩
      | cons u segments ih =>
        obtain ⟨t, ht⟩ := ih
        refine ⟨u ++ ['/'] ++ t, ?_⟩
        rw [List.cons_append, List.intercalate_cons_of_ne_nil (by simp), ht]
        simp
    rw [ht, List.getLast?_append, hc]
    rfl
  · rw [← hslash]
    exact List.mem_of_getLast? hc

/-! ### Collapsed slashes -/

lemma collapse_cons {c : Char} (hc : c ≠ '/') (b : Bool) (s : Text) :
    collapse b (c :: s) = c :: collapse false s := by
  rw [collapse, if_neg hc]

lemma collapse_append {s : Text} (hs : '/' ∉ s) (hne : s ≠ []) (b : Bool) (t : Text) :
    collapse b (s ++ t) = s ++ collapse false t := by
  induction s generalizing b with
  | nil => exact absurd rfl hne
  | cons c s ih =>
    rw [List.mem_cons, not_or] at hs
    rw [List.cons_append, collapse_cons (Ne.symm hs.1)]
    by_cases hnil : s = []
    · rw [hnil]
      rfl
    · rw [ih hs.2 hnil]
      rfl

lemma collapse_slash (s : Text) : collapse false ('/' :: s) = '/' :: collapse true s := rfl

lemma collapse_of_notMem {s : Text} (hs : '/' ∉ s) (b : Bool) : collapse b s = s := by
  by_cases hnil : s = []
  · rw [hnil]
    rfl
  · have happend := collapse_append hs hnil b []
    rw [List.append_nil] at happend
    exact happend.trans (List.append_nil s)

lemma collapse_joined {out : List Text} (h : Resolved out) (b : Bool) :
    collapse b (joined out) = joined out := by
  unfold joined
  have hall : ∀ s ∈ out.reverse, Seg s := fun s hs => h.seg (List.mem_reverse.mp hs)
  generalize out.reverse = segments at hall
  induction segments generalizing b with
  | nil => rfl
  | cons s segments ih =>
    have hs := hall s List.mem_cons_self
    cases segments with
    | nil =>
      rw [List.intercalate_singleton]
      exact collapse_of_notMem hs.no_slash b
    | cons t segments =>
      rw [List.intercalate_cons_cons, List.append_assoc,
        collapse_append hs.no_slash hs.nonempty, List.singleton_append, collapse_slash,
        ih true fun u hu => hall u (List.mem_cons_of_mem _ hu)]

lemma slashed_eq_self {s : Text} (h : '\\' ∉ s) : slashed s = s := by
  unfold slashed
  conv_rhs => rw [← List.map_id s]
  refine List.map_congr_left fun c hc => ?_
  rw [if_neg (ne_of_mem_of_not_mem hc h)]
  rfl

lemma notMem_slashed (s : Text) : '\\' ∉ slashed s := by
  intro h
  obtain ⟨c, -, hc⟩ := List.mem_map.mp h
  split_ifs at hc with hbs
  · cases hc
  · exact hbs hc

lemma mem_slashed {s : Text} {c : Char} (h : c ∈ slashed s) : c = '/' ∨ c ∈ s := by
  obtain ⟨d, hd, hc⟩ := List.mem_map.mp h
  split_ifs at hc
  · exact Or.inl hc.symm
  · rw [← hc]
    exact Or.inr hd

lemma collapsed_double {b rest : Text} (h : slashed b = '/' :: '/' :: rest) :
    collapsed b = '/' :: '/' :: collapse false rest := by
  unfold collapsed
  rw [h]
  rfl

lemma collapsed_single {b : Text} (h : ∀ rest, slashed b ≠ '/' :: '/' :: rest) :
    collapsed b = collapse false (slashed b) := by
  unfold collapsed
  split
  · rename_i rest heq
    exact absurd heq (h rest)
  · rfl

/-! ### Shapes of bodies -/

/-- What a body is before a trailing slash is taken off. -/
inductive Shape : Text → Prop
  | relative {out : List Text} : Resolved out → Shape (joined out)
  | root {out : List Text} : Resolved out → Shape ('/' :: joined out)
  | drive {c : Char} {out : List Text} :
      c.isAlpha = true → Resolved out → Shape (c :: ':' :: '/' :: joined out)
  | share {server : Text} {out : List Text} :
      '/' ∉ server → Resolved out → Shape ('/' :: '/' :: (server ++ '/' :: joined out))
  | server {server : Text} : '/' ∉ server → Shape ('/' :: '/' :: server)

/-- A body before a trailing slash is taken off. -/
def untidied (body : Text) : Text :=
  (splitAnchor (collapsed body)).1 ++ ['/'].intercalate (flatten (splitAnchor (collapsed body)).2)

lemma normaliseBody_eq (body : Text) : normaliseBody body = tidy (untidied body) := rfl

lemma shape_untidied (body : Text) : Shape (untidied body) := by
  unfold untidied
  generalize collapsed body = s
  unfold splitAnchor
  split
  · rename_i rest
    cases hsplit : splitOnce '/' rest with
    | some r =>
      obtain ⟨-, hserver⟩ := splitOnce_eq_some hsplit
      obtain ⟨out, hout, hjoin⟩ := intercalate_flatten r.2
      dsimp only
      rw [hjoin]
      have hshape := Shape.share hserver hout
      simpa using hshape
    | none =>
      have hshape := Shape.server (notMem_of_splitOnce hsplit)
      dsimp only
      rw [show flatten [] = [] from rfl, List.intercalate_nil, List.append_nil]
      exact hshape
  · rename_i rest _
    obtain ⟨out, hout, hjoin⟩ := intercalate_flatten rest
    dsimp only
    rw [hjoin]
    exact .root hout
  · rename_i c rest _
    split_ifs with hc
    · obtain ⟨out, hout, hjoin⟩ := intercalate_flatten rest
      dsimp only
      rw [hjoin]
      exact .drive hc hout
    · obtain ⟨out, hout, hjoin⟩ := intercalate_flatten (c :: ':' :: '/' :: rest)
      dsimp only
      rw [hjoin]
      exact .relative hout
  · obtain ⟨out, hout, hjoin⟩ := intercalate_flatten s
    dsimp only
    rw [hjoin]
    exact .relative hout

/-! ### What normalising leaves of a body -/

lemma flattenSegment_sublist (out : List Text) (s : Text) :
    (flattenSegment out s).reverse <+ out.reverse ++ [s] := by
  unfold flattenSegment
  split_ifs with hskip hdots
  · exact List.sublist_append_left _ _
  · rw [hdots]
    cases out with
    | nil => exact List.Sublist.refl _
    | cons last rest =>
      dsimp only
      split_ifs
      · rw [List.reverse_cons, List.append_assoc]
        exact List.sublist_append_left _ _
      · rw [List.reverse_cons]
  · rw [List.reverse_cons]

lemma foldl_flattenSegment_sublist (out segments : List Text) :
    (segments.foldl flattenSegment out).reverse <+ out.reverse ++ segments := by
  induction segments generalizing out with
  | nil =>
    rw [List.append_nil]
    exact List.Sublist.refl _
  | cons s segments ih =>
    refine (ih _).trans ?_
    rw [List.append_cons]
    exact (flattenSegment_sublist out s).append_right segments

lemma intercalate_sublist {segments segments' : List Text} (h : segments <+ segments') :
    ['/'].intercalate segments <+ ['/'].intercalate segments' := by
  induction h with
  | slnil => exact List.Sublist.refl _
  | @cons segments segments' t h ih =>
    by_cases hnil : segments' = []
    · rw [hnil] at h
      rw [List.sublist_nil.mp h]
      exact List.nil_sublist _
    · rw [List.intercalate_cons_of_ne_nil hnil]
      exact ih.trans (List.sublist_append_right _ _)
  | @cons_cons segments segments' t h ih =>
    by_cases hnil : segments = []
    · rw [hnil, List.intercalate_singleton]
      by_cases hnil' : segments' = []
      · rw [hnil', List.intercalate_singleton]
      · rw [List.intercalate_cons_of_ne_nil hnil', List.append_assoc]
        exact List.sublist_append_left _ _
    · have hnil' : segments' ≠ [] := by
        rintro rfl
        exact hnil (List.sublist_nil.mp h)
      rw [List.intercalate_cons_of_ne_nil hnil, List.intercalate_cons_of_ne_nil hnil']
      exact ih.append_left _

lemma flatten_sublist (rest : Text) : ['/'].intercalate (flatten rest) <+ rest := by
  have hsub := intercalate_sublist (foldl_flattenSegment_sublist [] (rest.splitOn '/'))
  rw [List.reverse_nil, List.nil_append, List.intercalate_splitOn] at hsub
  exact hsub

lemma collapse_sublist (b : Bool) (s : Text) : collapse b s <+ s := by
  induction s generalizing b with
  | nil => exact List.Sublist.refl _
  | cons c s ih =>
    unfold collapse
    split_ifs with hc
    · exact (ih true).cons c
    · rw [hc]
      exact (ih true).cons_cons '/'
    · exact (ih false).cons_cons c

lemma collapsed_sublist (body : Text) : collapsed body <+ slashed body := by
  unfold collapsed
  split
  · rename_i rest heq
    rw [heq]
    exact ((collapse_sublist false rest).cons_cons '/').cons_cons '/'
  · exact collapse_sublist _ _

lemma splitAnchor_append (s : Text) : (splitAnchor s).1 ++ (splitAnchor s).2 = s := by
  unfold splitAnchor
  split
  · rename_i rest
    cases hsplit : splitOnce '/' rest with
    | some r =>
      obtain ⟨hr, -⟩ := splitOnce_eq_some hsplit
      rw [hr]
      simp
    | none => exact List.append_nil _
  · rfl
  · split_ifs <;> rfl
  · rfl

lemma untidied_sublist (body : Text) : untidied body <+ slashed body := by
  have happend := splitAnchor_append (collapsed body)
  have hsub := (flatten_sublist (splitAnchor (collapsed body)).2).append_left
    (splitAnchor (collapsed body)).1
  rw [happend] at hsub
  exact hsub.trans (collapsed_sublist body)

lemma tidy_sublist (s : Text) : tidy s <+ s := by
  unfold tidy
  split_ifs
  · exact List.dropLast_sublist s
  · exact List.Sublist.refl s

/-- Normalising only leaves characters out, but for the slashes. -/
lemma normaliseBody_sublist (body : Text) : normaliseBody body <+ slashed body :=
  (tidy_sublist _).trans (untidied_sublist body)

lemma length_normaliseBody_le (body : Text) : (normaliseBody body).length ≤ body.length :=
  (normaliseBody_sublist body).length_le.trans_eq (List.length_map _)

lemma mem_normaliseBody {body : Text} {c : Char} (h : c ∈ normaliseBody body) :
    c = '/' ∨ c ∈ body :=
  mem_slashed ((normaliseBody_sublist body).subset h)

lemma notMem_untidied (body : Text) : '\\' ∉ untidied body := fun h =>
  notMem_slashed body ((untidied_sublist body).subset h)

lemma notMem_normaliseBody (body : Text) : '\\' ∉ normaliseBody body := fun h =>
  notMem_slashed body ((normaliseBody_sublist body).subset h)

/-! ### What is normalised again -/

lemma isAlpha_ne {c : Char} (h : c.isAlpha = true) : c ≠ '/' ∧ c ≠ '\\' ∧ c ≠ ':' := by
  refine ⟨?_, ?_, ?_⟩ <;>
  · rintro rfl
    exact absurd h (by decide)

/-- A text whose anchor and segments stand as they are. -/
lemma untidied_of_anchor {s a : Text} {out : List Text}
    (hcollapsed : collapsed s = a ++ joined out)
    (hsplit : splitAnchor (a ++ joined out) = (a, joined out)) (hout : Resolved out) :
    untidied s = a ++ joined out := by
  unfold untidied
  rw [hcollapsed, hsplit, flatten_joined hout]
  rfl

lemma joined_ne_slash {out : List Text} (hout : Resolved out) (rest : Text) :
    joined out ≠ '/' :: rest := by
  intro h
  exact head_joined hout '/' (by rw [h]; rfl) rfl

lemma splitAnchor_root {out : List Text} (hout : Resolved out) :
    splitAnchor (['/'] ++ joined out) = (['/'], joined out) := by
  rw [List.singleton_append]
  unfold splitAnchor
  split
  · rename_i rest heq
    exact absurd (List.cons.inj heq).2 (joined_ne_slash hout rest)
  · rename_i rest _ heq
    rw [(List.cons.inj heq).2]
  · rename_i c rest hne heq
    exact absurd (List.cons.inj heq).1.symm hne
  · rename_i hroot _
    exact absurd rfl (hroot _)

lemma splitAnchor_drive {c : Char} (hc : c.isAlpha = true) (s : Text) :
    splitAnchor ([c, ':', '/'] ++ s) = ([c, ':', '/'], s) := by
  have hne := (isAlpha_ne hc).1
  show splitAnchor (c :: ':' :: '/' :: s) = _
  unfold splitAnchor
  split
  · rename_i heq
    exact absurd (List.cons.inj heq).1 hne
  · rename_i heq
    exact absurd (List.cons.inj heq).1 hne
  · rename_i heq
    obtain ⟨rfl, htail⟩ := List.cons.inj heq
    rw [if_pos hc, (List.cons.inj (List.cons.inj htail).2).2]
  · rename_i hdrive
    exact absurd rfl (hdrive _ _)

lemma splitAnchor_share {server : Text} (hserver : '/' ∉ server) (s : Text) :
    splitAnchor ('/' :: '/' :: (server ++ '/' :: s)) = ('/' :: '/' :: (server ++ ['/']), s) := by
  unfold splitAnchor
  simp [splitOnce_append hserver]

lemma splitAnchor_server {server : Text} (hserver : '/' ∉ server) :
    splitAnchor ('/' :: '/' :: server) = ('/' :: '/' :: server, []) := by
  unfold splitAnchor
  simp [splitOnce_of_notMem hserver]

/-- Segments without an anchor, unless the first is a drive. -/
lemma splitAnchor_relative {out : List Text} (hout : Resolved out)
    (h : ∀ c rest, joined out = c :: ':' :: '/' :: rest → c.isAlpha = false) :
    splitAnchor (joined out) = ([], joined out) := by
  unfold splitAnchor
  split
  · rename_i rest heq
    exact absurd heq (joined_ne_slash hout _)
  · rename_i rest _ heq
    exact absurd heq (joined_ne_slash hout _)
  · rename_i c rest _ heq
    rw [if_neg (by rw [h c rest heq]; exact Bool.false_ne_true)]
  · rfl

/-- A drive in front of other segments. -/
lemma joined_drive {out : List Text} (hout : Resolved out) {c : Char} {rest : Text}
    (hc : c ≠ '/') (h : joined out = c :: ':' :: '/' :: rest) :
    ∃ out', Resolved out' ∧ joined out' = rest := by
  have hne : out ≠ [] := by
    rintro rfl
    cases h
  have hsplit := splitOn_joined hout hne
  have hdrive : (c :: ':' :: '/' :: rest).splitOn '/' = [c, ':'] :: rest.splitOn '/' := by
    simp [List.splitOn_cons_eq_if_modifyHead, hc]
  rw [h, hdrive] at hsplit
  have hrev : out = (rest.splitOn '/').reverse ++ [[c, ':']] := by
    rw [← List.reverse_reverse out, ← hsplit, List.reverse_cons]
  rw [hrev] at hout
  refine ⟨_, hout.of_append, ?_⟩
  unfold joined
  rw [List.reverse_reverse, List.intercalate_splitOn]

/-- A body of one of the shapes has it again. -/
lemma untidied_of_shape {s : Text} (h : Shape s) (hs : '\\' ∉ s) : untidied s = s := by
  have hslashed := slashed_eq_self hs
  cases h with
  | @relative out hout =>
    have hcollapsed : collapsed (joined out) = joined out := by
      rw [collapsed_single, hslashed, collapse_joined hout]
      rw [hslashed]
      exact fun rest => joined_ne_slash hout _
    by_cases hdrive : ∃ c rest, joined out = c :: ':' :: '/' :: rest ∧ c.isAlpha = true
    · obtain ⟨c, rest, heq, hc⟩ := hdrive
      obtain ⟨out', hout', hrest⟩ := joined_drive hout (isAlpha_ne hc).1 heq
      have hanchor : joined out = [c, ':', '/'] ++ joined out' := by
        rw [heq, hrest]
        rfl
      rw [hanchor] at hcollapsed ⊢
      exact untidied_of_anchor hcollapsed (splitAnchor_drive hc _) hout'
    · refine untidied_of_anchor (a := []) hcollapsed ?_ hout
      refine splitAnchor_relative hout fun c rest heq => ?_
      by_contra hc
      exact hdrive ⟨c, rest, heq, Bool.eq_true_of_not_eq_false hc⟩
  | @root out hout =>
    refine untidied_of_anchor (a := ['/']) ?_ (splitAnchor_root hout) hout
    rw [collapsed_single, hslashed, collapse_slash, collapse_joined hout]
    · rfl
    · rw [hslashed]
      exact fun rest heq => joined_ne_slash hout _ (List.cons.inj heq).2
  | @drive c out hc hout =>
    refine untidied_of_anchor (a := [c, ':', '/']) ?_ (splitAnchor_drive hc _) hout
    rw [collapsed_single, hslashed, collapse_cons (isAlpha_ne hc).1, collapse_cons (by decide),
      collapse_slash, collapse_joined hout]
    · rfl
    · rw [hslashed]
      exact fun rest heq => (isAlpha_ne hc).1 (List.cons.inj heq).1
  | @share server out hserver hout =>
    have hcollapse : collapse false (server ++ '/' :: joined out) = server ++ '/' :: joined out := by
      by_cases hne : server = []
      · rw [hne, List.nil_append, collapse_slash, collapse_joined hout]
      · rw [collapse_append hserver hne, collapse_slash, collapse_joined hout]
    have hsplit := splitAnchor_share hserver (joined out)
    have hanchor : '/' :: '/' :: (server ++ '/' :: joined out) =
        ('/' :: '/' :: (server ++ ['/'])) ++ joined out := by
      simp
    rw [hanchor] at hsplit ⊢
    refine untidied_of_anchor ?_ hsplit hout
    rw [← hanchor, collapsed_double hslashed, hcollapse]
  | @server server hserver =>
    have hcollapsed : collapsed ('/' :: '/' :: server) = '/' :: '/' :: server := by
      rw [collapsed_double hslashed, collapse_of_notMem hserver]
    unfold untidied
    rw [hcollapsed, splitAnchor_server hserver]
    exact List.append_nil _

/-! ### Trailing slashes -/

lemma tidy_of_getLast {s : Text} {c : Char} (h : s.getLast? = some c) (hc : c ≠ '/') :
    tidy s = s := by
  unfold tidy
  rw [if_neg]
  rintro ⟨hslash, -⟩
  exact hc (Option.some.inj (h.symm.trans hslash))

lemma getLast_append_joined {out : List Text} (h : Resolved out) (hne : out ≠ []) (a : Text) :
    tidy (a ++ joined out) = a ++ joined out := by
  obtain ⟨c, hlast, hc⟩ := getLast_joined h hne
  refine tidy_of_getLast (c := c) ?_ hc
  rw [List.getLast?_append, hlast]
  rfl

/-- What taking off a trailing slash does. -/
lemma tidy_of_shape {s : Text} (h : Shape s) : tidy s = s ∨
    (∃ server, '/' ∉ server ∧ s = '/' :: '/' :: (server ++ ['/']) ∧
      tidy s = '/' :: '/' :: server) ∨
    (s = ['/', '/'] ∧ tidy s = ['/']) := by
  cases h with
  | @relative out hout =>
    left
    by_cases hne : out = []
    · rw [hne]
      rfl
    · exact getLast_append_joined hout hne []
  | @root out hout =>
    left
    by_cases hne : out = []
    · rw [hne]
      rfl
    · exact getLast_append_joined hout hne ['/']
  | @drive c out hc hout =>
    left
    by_cases hne : out = []
    · rw [hne]
      rfl
    · exact getLast_append_joined hout hne [c, ':', '/']
  | @share server out hserver hout =>
    by_cases hne : out = []
    · have hs : '/' :: '/' :: (server ++ '/' :: joined []) = '/' :: '/' :: (server ++ ['/']) := rfl
      rw [hne, hs]
      have hdrop : ('/' :: '/' :: (server ++ ['/'])).dropLast = '/' :: '/' :: server := by
        rw [← List.cons_append, ← List.cons_append, List.dropLast_concat]
      unfold tidy
      split_ifs with hcond
      · exact Or.inr (Or.inl ⟨server, hserver, rfl, hdrop⟩)
      · exact Or.inl rfl
    · left
      have happend := getLast_append_joined hout hne ('/' :: '/' :: (server ++ ['/']))
      simpa using happend
  | @server server hserver =>
    by_cases hne : server = []
    · rw [hne]
      exact Or.inr (Or.inr ⟨rfl, rfl⟩)
    · left
      refine tidy_of_getLast (c := server.getLast hne) ?_ fun heq => hserver ?_
      · rw [List.getLast?_cons_cons, List.getLast?_cons_of_ne_nil hne]
        exact List.getLast?_eq_getLast_of_ne_nil hne
      · rw [← heq]
        exact List.getLast_mem hne

/-- Normalising again changes nothing but a body of two slashes. -/
theorem normaliseBody_idempotent (body : Text) :
    normaliseBody (normaliseBody body) = normaliseBody body ↔
      untidied body ≠ ['/', '/', '/'] := by
  have hshape := shape_untidied body
  have hbs := notMem_untidied body
  have hagain {s : Text} (hs : Shape s) (hbs : '\\' ∉ s) : normaliseBody s = tidy s := by
    rw [normaliseBody_eq, untidied_of_shape hs hbs]
  rw [normaliseBody_eq body]
  rcases tidy_of_shape hshape with htidy | ⟨server, hserver, hs, htidy⟩ | ⟨hs, htidy⟩
  · rw [htidy, hagain hshape hbs, htidy]
    refine iff_of_true rfl fun htriple => ?_
    rw [htriple] at htidy
    exact absurd htidy (by decide)
  · rw [htidy]
    by_cases hne : server = []
    · rw [hs, hne]
      refine iff_of_false ?_ fun h => h rfl
      decide
    · have hbs' : '\\' ∉ '/' :: '/' :: server := fun hmem => hbs (by
        rw [hs, ← List.cons_append, ← List.cons_append]
        exact List.mem_append_left _ hmem)
      rw [hagain (.server hserver) hbs']
      refine iff_of_true ?_ fun htriple => ?_
      · rcases tidy_of_shape (.server hserver) with h | ⟨server', hserver', h, -⟩ | ⟨h, -⟩
        · exact h
        · rw [(List.cons.inj (List.cons.inj h).2).2] at hserver
          exact absurd (by simp) hserver
        · exact absurd (List.cons.inj (List.cons.inj h).2).2 hne
      · rw [hs] at htriple
        have hlen := congrArg List.length htriple
        rw [List.length_cons, List.length_cons, List.length_append] at hlen
        exact hne (List.length_eq_zero_iff.mp (by simpa using hlen))
  · rw [htidy, hs]
    exact iff_of_true (by decide) (by decide)

/-! ### Three slashes -/

/-- Three slashes with nothing behind them that stays. -/
def TripleRoot (body : Text) : Prop :=
  ∃ rest, slashed body = '/' :: '/' :: '/' :: rest ∧ flatten (collapse true rest) = []

lemma collapse_true_ne (s rest : Text) : collapse true s ≠ '/' :: rest := by
  induction s with
  | nil => exact nofun
  | cons c s ih =>
    by_cases hc : c = '/'
    · rw [collapse, if_pos hc, if_pos rfl]
      exact ih
    · rw [collapse_cons hc]
      exact fun h => hc (List.cons.inj h).1

lemma collapse_false_slash {s rest : Text} (h : collapse false s = '/' :: rest) :
    ∃ s', s = '/' :: s' ∧ collapse true s' = rest := by
  cases s with
  | nil => cases h
  | cons c s =>
    by_cases hc : c = '/'
    · rw [hc, collapse_slash] at h
      exact ⟨s, by rw [hc], (List.cons.inj h).2⟩
    · rw [collapse_cons hc] at h
      exact absurd (List.cons.inj h).1 hc

lemma untidied_eq_triple (body : Text) : untidied body = ['/', '/', '/'] ↔ TripleRoot body := by
  constructor
  · intro h
    by_cases hdouble : ∃ rest, slashed body = '/' :: '/' :: rest
    · obtain ⟨rest, hrest⟩ := hdouble
      unfold untidied at h
      rw [collapsed_double hrest] at h
      cases hsplit : splitOnce '/' (collapse false rest) with
      | none =>
        have hno := notMem_of_splitOnce hsplit
        rw [splitAnchor_server hno] at h
        have heq : collapse false rest = ['/'] :=
          (List.cons.inj (List.cons.inj ((List.append_nil _).symm.trans h)).2).2
        exact absurd (by rw [heq]; exact List.mem_cons_self) hno
      | some r =>
        obtain ⟨hcol, hserver⟩ := splitOnce_eq_some hsplit
        rw [hcol, splitAnchor_share hserver] at h
        dsimp only at h
        obtain ⟨out, hout, hjoin⟩ := intercalate_flatten r.2
        have hlen := congrArg List.length h
        simp only [List.length_append, List.length_cons, List.length_nil] at hlen
        have hserver0 : r.1 = [] := List.length_eq_zero_iff.mp (by omega)
        have hjoin0 : ['/'].intercalate (flatten r.2) = [] := List.length_eq_zero_iff.mp (by omega)
        rw [hserver0, List.nil_append] at hcol
        obtain ⟨s', rfl, hs'⟩ := collapse_false_slash hcol
        refine ⟨s', hrest, ?_⟩
        rw [hs']
        have hnil := (joined_eq_nil (resolved_foldl r.2)).mp hjoin0
        unfold flatten
        rw [hnil]
        rfl
    · have hsingle := collapsed_single (b := body) fun rest heq => hdouble ⟨rest, heq⟩
      have hno (rest : Text) : collapsed body ≠ '/' :: '/' :: rest := by
        intro heq
        rw [hsingle] at heq
        obtain ⟨s', -, hs'⟩ := collapse_false_slash heq
        exact collapse_true_ne _ _ hs'
      unfold untidied at h
      revert h hno
      generalize collapsed body = s
      intro h hno
      exfalso
      unfold splitAnchor at h
      split at h
      · rename_i rest
        exact hno rest rfl
      · rename_i rest _
        obtain ⟨out, hout, hjoin⟩ := intercalate_flatten rest
        rw [hjoin] at h
        exact joined_ne_slash hout _ (List.cons.inj h).2
      · rename_i c rest hc
        split_ifs at h
        · exact hc (List.cons.inj h).1
        · obtain ⟨out, hout, hjoin⟩ := intercalate_flatten (c :: ':' :: '/' :: rest)
          rw [hjoin] at h
          exact joined_ne_slash hout _ h
      · obtain ⟨out, hout, hjoin⟩ := intercalate_flatten s
        rw [hjoin] at h
        exact joined_ne_slash hout _ h
  · rintro ⟨rest, hrest, hflat⟩
    have hsplit := splitAnchor_share (List.not_mem_nil (a := '/')) (collapse true rest)
    unfold untidied
    rw [collapsed_double hrest, collapse_slash]
    rw [List.nil_append] at hsplit
    rw [hsplit, hflat]
    rfl

end Orchid.Fs
