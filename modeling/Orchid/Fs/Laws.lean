import Mathlib.Logic.Relation
import Orchid.Fs.Normal

/-!
# Laws of paths

Rendering and parsing, parents and names, and native paths; for every path.
-/

namespace Orchid.Fs

namespace FsPath

/-! ### The parts of a path -/

lemma scheme_of {scheme : Text} (h : ':' ∉ scheme) (body : Text) :
    (of scheme body).scheme = scheme :=
  before_append h body

lemma withoutScheme_of {scheme : Text} (h : ':' ∉ scheme) (body : Text) :
    (of scheme body).withoutScheme = body := by
  unfold withoutScheme of
  rw [splitOnce_append h]

lemma notMem_schemeLocal : ':' ∉ schemeLocal := by decide

lemma notMem_of_all {scheme : Text} (h : scheme.all schemeChar = true) : ':' ∉ scheme := by
  intro hmem
  exact absurd (List.all_eq_true.mp h ':' hmem) (by decide)

/-- The body that is normalised, and what stands from the first `#` on. -/
lemma new_of {scheme : Text} (hne : scheme ≠ []) (hall : scheme.all schemeChar = true)
    (body : Text) :
    new (of scheme body).text =
      .ok (of scheme (normaliseBody (before '#' body) ++ body.drop (before '#' body).length)) := by
  have htext : (of scheme body).text = scheme ++ ':' :: body := rfl
  unfold new
  rw [htext, splitOnce_append (notMem_of_all hall)]
  dsimp only
  rw [if_neg (by rw [hall]; exact not_or.mpr ⟨hne, Bool.noConfusion⟩)]
  by_cases hhash : '#' ∈ body
  · obtain ⟨main, tail, rfl, hmain⟩ := List.eq_append_cons_of_mem hhash
    rw [splitOnce_append hmain, before_append hmain]
    simp
  · rw [splitOnce_of_notMem hhash, before_of_notMem hhash]
    simp

lemma tail_cases (body : Text) : body.drop (before '#' body).length = [] ∨
    ∃ t, body.drop (before '#' body).length = '#' :: t := by
  by_cases hhash : '#' ∈ body
  · obtain ⟨main, tail, rfl, hmain⟩ := List.eq_append_cons_of_mem hhash
    rw [before_append hmain]
    exact Or.inr ⟨tail, by simp⟩
  · rw [before_of_notMem hhash]
    exact Or.inl (by simp)

lemma before_append_tail {main : Text} (hmain : '#' ∉ main) (body : Text) :
    before '#' (main ++ body.drop (before '#' body).length) = main := by
  rcases tail_cases body with htail | ⟨t, htail⟩
  · rw [htail, List.append_nil, before_of_notMem hmain]
  · rw [htail, before_append hmain]

lemma append_tail (body : Text) :
    before '#' body ++ body.drop (before '#' body).length = body := by
  conv_rhs => rw [← List.take_append_drop (before '#' body).length body]
  congr 1
  exact (List.prefix_iff_eq_take.mp (List.takeWhile_prefix _))

lemma notMem_normaliseBody_before (body : Text) : '#' ∉ normaliseBody (before '#' body) := by
  intro h
  rcases mem_normaliseBody h with h | h
  · cases h
  · exact notMem_before '#' body h

/-- What is accepted. -/
lemma exists_of_new {s : Text} {p : FsPath} (h : new s = .ok p) :
    ∃ scheme body, s = (of scheme body).text ∧ scheme ≠ [] ∧ scheme.all schemeChar = true ∧
      p = of scheme (normaliseBody (before '#' body) ++ body.drop (before '#' body).length) := by
  cases hsplit : splitOnce ':' s with
  | none =>
    unfold new at h
    rw [hsplit] at h
    cases h
  | some r =>
    obtain ⟨hs, -⟩ := splitOnce_eq_some hsplit
    have hcond : r.1 ≠ [] ∧ r.1.all schemeChar = true := by
      unfold new at h
      rw [hsplit] at h
      dsimp only at h
      split_ifs at h with hbad
      rw [not_or] at hbad
      exact ⟨hbad.1, Bool.eq_true_of_not_eq_false hbad.2⟩
    have hnew := new_of hcond.1 hcond.2 r.2
    refine ⟨r.1, r.2, hs, hcond.1, hcond.2, ?_⟩
    have hs' : s = (of r.1 r.2).text := hs
    rw [hs', hnew] at h
    exact (Except.ok.inj h).symm

/-! ### Rendering and parsing -/

/-- The body of a text up to the first `#`. -/
def mainOf (s : Text) : Text := before '#' ((splitOnce ':' s).elim [] Prod.snd)

lemma mainOf_of {scheme : Text} (h : ':' ∉ scheme) (body : Text) :
    mainOf (of scheme body).text = before '#' body := by
  unfold mainOf of
  rw [splitOnce_append h]
  rfl

lemma of_inj {scheme body body' : Text} (h : of scheme body = of scheme body') : body = body' :=
  (List.cons.inj (List.append_cancel_left (congrArg FsPath.text h))).2

/-- A path is parsed to itself exactly if its body is normal. -/
lemma new_text_iff {scheme : Text} (hne : scheme ≠ []) (hall : scheme.all schemeChar = true)
    (body : Text) : new (of scheme body).text = .ok (of scheme body) ↔
      normaliseBody (before '#' body) = before '#' body := by
  rw [new_of hne hall]
  constructor
  · intro h
    have hbody := of_inj (Except.ok.inj h)
    conv_rhs at hbody => rw [← append_tail body]
    exact List.append_cancel_right hbody
  · intro h
    rw [h, append_tail]

lemma new_text {s : Text} {p : FsPath} (h : new s = .ok p) :
    new p.text = .ok p ↔ ¬ TripleRoot (mainOf s) := by
  obtain ⟨scheme, body, rfl, hne, hall, rfl⟩ := exists_of_new h
  rw [new_text_iff hne hall, before_append_tail (notMem_normaliseBody_before body),
    normaliseBody_idempotent, Ne, untidied_eq_triple, mainOf_of (notMem_of_all hall)]

/-! ### Parents -/

lemma trimEndSlashes_append_cons {a b : Text} (hne : b ≠ []) (hb : '/' ∉ b) :
    trimEndSlashes (a ++ '/' :: b) = a ++ '/' :: b := by
  unfold trimEndSlashes
  refine List.rdropWhile_eq_self_iff.mpr fun hnil hlast => ?_
  have hmem : (a ++ '/' :: b).getLast hnil ∈ b := by
    rw [List.getLast_append_of_ne_nil _ (List.cons_ne_nil _ _), List.getLast_cons hne]
    exact List.getLast_mem hne
  exact hb ((of_decide_eq_true hlast) ▸ hmem)

/-- The last segment of what is trimmed. -/
lemma rsplitOnce_trimEnd {s a n : Text} (h : rsplitOnce '/' (trimEndSlashes s) = some (a, n)) :
    trimEndSlashes s = a ++ '/' :: n ∧ '/' ∉ n ∧ n ≠ [] := by
  obtain ⟨hs, hn⟩ := rsplitOnce_eq_some h
  refine ⟨hs, hn, ?_⟩
  rintro rfl
  have hnil : trimEndSlashes s ≠ [] := by
    rw [hs]
    simp
  have hlast := List.rdropWhile_last_not (fun c => decide (c = '/')) s hnil
  refine hlast (decide_eq_true ?_)
  have heq : (trimEndSlashes s).getLast hnil = (a ++ ['/']).getLast (by simp) := by
    congr 1
  exact heq.trans (by simp)

lemma length_trimEnd_le (s : Text) : (trimEndSlashes s).length ≤ s.length :=
  (List.rdropWhile_prefix (fun c => decide (c = '/')) s).length_le

lemma length_before_le (c : Char) (s : Text) : (before c s).length ≤ s.length :=
  (List.takeWhile_prefix _).length_le

/-- The body of a parent. -/
def parentBody (a : Text) : Text :=
  if a = [] then ['/'] else if a.getLast? = some ':' then a ++ ['/'] else a

lemma length_parentBody_le (a : Text) : (parentBody a).length ≤ a.length + 1 := by
  unfold parentBody
  split_ifs
  · exact Nat.succ_le_succ (Nat.zero_le _)
  · rw [List.length_append]
    exact le_refl _
  · exact Nat.le_succ _

lemma plainParent_of {scheme : Text} (h : ':' ∉ scheme) (body : Text) :
    (of scheme body).plainParent =
      (rsplitOnce '/' (trimEndSlashes (before '#' body))).map fun r =>
        of scheme (parentBody r.1) := by
  unfold plainParent
  rw [withoutScheme_of h, scheme_of h]
  rfl

/-- A path with a scheme. -/
def HasScheme (p : FsPath) : Prop := ':' ∈ p.text

lemma exists_of {p : FsPath} (h : p.HasScheme) :
    ∃ scheme body, ':' ∉ scheme ∧ p = of scheme body := by
  obtain ⟨scheme, body, htext, hscheme⟩ := List.eq_append_cons_of_mem h
  exact ⟨scheme, body, hscheme, FsPath.ext htext⟩

lemma hasScheme_of (scheme body : Text) : (of scheme body).HasScheme := by
  unfold HasScheme of
  simp

/-- The parent is shorter. -/
def Shorter (q p : FsPath) : Prop := q.HasScheme ∧ q.text.length < p.text.length

lemma plainParent_shorter {p q : FsPath} (hp : p.HasScheme) (h : p.plainParent = some q) :
    q.Shorter p := by
  obtain ⟨scheme, body, hscheme, rfl⟩ := exists_of hp
  rw [plainParent_of hscheme] at h
  obtain ⟨⟨a, n⟩, hsplit, rfl⟩ := Option.map_eq_some_iff.mp h
  obtain ⟨htrim, -, hne⟩ := rsplitOnce_trimEnd hsplit
  refine ⟨hasScheme_of _ _, ?_⟩
  have hlen := (length_trimEnd_le (before '#' body)).trans (length_before_le '#' body)
  have hparent := length_parentBody_le a
  have hn := List.length_pos_of_ne_nil hne
  rw [htrim] at hlen
  simp only [of, List.length_append, List.length_cons] at hlen ⊢
  omega

lemma new_length {s : Text} {p : FsPath} (h : new s = .ok p) :
    p.HasScheme ∧ p.text.length ≤ s.length := by
  obtain ⟨scheme, body, rfl, -, -, rfl⟩ := exists_of_new h
  refine ⟨hasScheme_of _ _, ?_⟩
  have hle := length_normaliseBody_le (before '#' body)
  have hbody := congrArg List.length (append_tail body)
  rw [List.length_append] at hbody
  simp only [of, List.length_append, List.length_cons]
  omega

lemma archiveParent_shorter {p q : FsPath} (h : p.archiveParent = some q) : q.Shorter p := by
  unfold archiveParent at h
  obtain ⟨⟨outer, inner⟩, hparts, h⟩ := Option.bind_eq_some_iff.mp h
  obtain ⟨outerBody, hdrop, h⟩ := Option.bind_eq_some_iff.mp h
  have houter := dropStart?_eq_some hdrop
  have hlen : outer.length + inner.length ≤ p.text.length ∧
      (inner ≠ [] → outer.length + inner.length + 1 = p.text.length) := by
    unfold archiveParts at hparts
    split_ifs at hparts
    cases hsplit : splitOnce '#' p.text with
    | none =>
      rw [hsplit] at hparts
      obtain ⟨rfl, rfl⟩ := Prod.mk.inj (Option.some.inj hparts)
      exact ⟨le_refl _, fun hne => absurd rfl hne⟩
    | some r =>
      rw [hsplit] at hparts
      obtain rfl := Option.some.inj hparts
      obtain ⟨htext, -⟩ := splitOnce_eq_some hsplit
      rw [htext, List.length_append, List.length_cons]
      exact ⟨by omega, fun _ => by omega⟩
  have htrim := length_trimEnd_le inner
  have hscheme : schemeArchive.length = 7 ∧ schemeLocal.length = 5 := ⟨rfl, rfl⟩
  rw [houter] at hlen
  simp only [List.length_append, List.length_singleton] at hlen
  dsimp only at h
  split_ifs at h with hnil
  · obtain ⟨q₀, hq₀, h⟩ := Option.bind_eq_some_iff.mp h
    cases hnew : new (schemeLocal ++ ':' :: outerBody) with
    | error e =>
      rw [hnew] at hq₀
      cases hq₀
    | ok q₁ =>
      rw [hnew] at hq₀
      obtain rfl := Option.some.inj hq₀
      obtain ⟨hhas, hle⟩ := new_length hnew
      obtain ⟨hhas', hlt⟩ := plainParent_shorter hhas h
      rw [List.length_append, List.length_cons] at hle
      exact ⟨hhas', by omega⟩
  · have hinner : inner ≠ [] := by
      rintro rfl
      exact hnil rfl
    have heq := hlen.2 hinner
    have hpos := List.length_pos_of_ne_nil hinner
    cases hsplit : rsplitOnce '/' (trimEndSlashes inner) with
    | some r =>
      rw [hsplit] at h
      dsimp only at h
      cases hnew : new (schemeArchive ++ ':' :: (outerBody ++ '#' :: r.1)) with
      | error e =>
        rw [hnew] at h
        cases h
      | ok q₁ =>
        rw [hnew] at h
        obtain rfl := Option.some.inj h
        obtain ⟨hhas, hle⟩ := new_length hnew
        obtain ⟨htext, -, -⟩ := rsplitOnce_trimEnd hsplit
        have hr := congrArg List.length htext
        simp only [List.length_append, List.length_cons] at hle hr
        exact ⟨hhas, by omega⟩
    | none =>
      rw [hsplit] at h
      dsimp only at h
      cases hnew : new (schemeArchive ++ ':' :: (outerBody ++ ['#'])) with
      | error e =>
        rw [hnew] at h
        cases h
      | ok q₁ =>
        rw [hnew] at h
        obtain rfl := Option.some.inj h
        obtain ⟨hhas, hle⟩ := new_length hnew
        simp only [List.length_append, List.length_cons, List.length_nil] at hle
        exact ⟨hhas, by omega⟩

lemma parent_shorter {p q : FsPath} (hp : p.HasScheme) (h : p.parent = some q) : q.Shorter p := by
  unfold parent at h
  split_ifs at h
  · exact archiveParent_shorter h
  · exact plainParent_shorter hp h

/-- One step to the parent. -/
def Up (p q : FsPath) : Prop := p.parent = some q

/-- Going up ends. -/
lemma exists_root {p : FsPath} (hp : p.HasScheme) :
    ∃ root, Relation.ReflTransGen Up p root ∧ root.parent = none := by
  induction hlen : p.text.length using Nat.strong_induction_on generalizing p with
  | _ n ih =>
    cases hparent : p.parent with
    | none => exact ⟨p, .refl, hparent⟩
    | some q =>
      obtain ⟨hq, hlt⟩ := parent_shorter hp hparent
      obtain ⟨root, hup, hroot⟩ := ih _ (hlen ▸ hlt) hq rfl
      exact ⟨root, .head hparent hup, hroot⟩

/-! ### Parents and names -/

/-- The last slash of a body is single and a name follows. -/
def Below (body : Text) : Prop :=
  ∃ a n, body = a ++ '/' :: n ∧ '/' ∉ n ∧ n ≠ [] ∧ a.getLast? ≠ some '/'

lemma new_local (body : Text) :
    new (schemeLocal ++ ':' :: body) =
      .ok (of schemeLocal (normaliseBody (before '#' body) ++ body.drop (before '#' body).length)) :=
  new_of (List.cons_ne_nil _ _) (by decide) body

lemma scheme_local (body : Text) : (of schemeLocal body).scheme = schemeLocal :=
  scheme_of notMem_schemeLocal body

lemma body_local (body : Text) : (of schemeLocal body).withoutScheme = body :=
  withoutScheme_of notMem_schemeLocal body

lemma parent_local (body : Text) :
    (of schemeLocal body).parent = (of schemeLocal body).plainParent := by
  unfold parent
  rw [scheme_local, if_neg (by decide)]

lemma fileName_local {body a n : Text}
    (h : rsplitOnce '/' (trimEndSlashes (before '#' body)) = some (a, n)) :
    (of schemeLocal body).fileName = some n := by
  obtain ⟨htrim, -, hne⟩ := rsplitOnce_trimEnd h
  unfold fileName
  rw [scheme_local, if_neg (by decide), body_local]
  dsimp only
  rw [if_neg (by rw [htrim]; simp), h]
  dsimp only
  rw [if_neg hne]

/-- A name behind a body without `#`. -/
lemma join_local {body segment : Text} (h : '#' ∉ joinBody body segment) :
    (of schemeLocal body).join segment = of schemeLocal (normaliseBody (joinBody body segment)) := by
  unfold join archiveParts
  rw [scheme_local, if_neg (by decide)]
  dsimp only
  unfold plainJoin
  rw [scheme_local, body_local, new_local, before_of_notMem h, List.drop_length, List.append_nil]

lemma trimStartSlashes_name {n : Text} (hn : '/' ∉ n) : trimStartSlashes n = n := by
  cases n with
  | nil => rfl
  | cons c n =>
    unfold trimStartSlashes
    rw [List.dropWhile_cons_of_neg]
    intro hc
    exact hn ((of_decide_eq_true hc) ▸ List.mem_cons_self)

/-- A name behind the body of its parent. -/
lemma joinBody_parentBody {a n : Text} (hn : '/' ∉ n) :
    joinBody (parentBody a) n = if a.getLast? = some '/' then a ++ n else a ++ '/' :: n := by
  unfold joinBody
  rw [trimStartSlashes_name hn]
  unfold parentBody
  by_cases hnil : a = []
  · subst hnil
    rfl
  · rw [if_neg hnil]
    by_cases hcolon : a.getLast? = some ':'
    · have hne : a ++ ['/'] ≠ [] := List.append_ne_nil_of_right_ne_nil _ (List.cons_ne_nil _ _)
      rw [if_pos hcolon, if_neg hne, if_pos List.getLast?_concat, hcolon, if_neg (by decide)]
      exact (List.append_cons _ _ _).symm
    · rw [if_neg hcolon, if_neg hnil]
      split_ifs
      · rfl
      · exact (List.append_cons _ _ _).symm

/-- The name of a path behind its parent is the path, exactly if the path is normal, has no `#` and
its last slash is single and followed by a name. -/
lemma join_fileName {body : Text} {q : FsPath} (hq : (of schemeLocal body).parent = some q) :
    (∃ n, (of schemeLocal body).fileName = some n ∧ '/' ∉ n ∧ q.join n = of schemeLocal body) ↔
      normaliseBody (before '#' body) = before '#' body ∧ '#' ∉ body ∧ Below body := by
  rw [parent_local, plainParent_of notMem_schemeLocal] at hq
  obtain ⟨⟨a, n⟩, hsplit, rfl⟩ := Option.map_eq_some_iff.mp hq
  obtain ⟨htrim, hn, hne⟩ := rsplitOnce_trimEnd hsplit
  have hmem {c : Char} (hc : c ∈ a ++ '/' :: n) : c ∈ before '#' body := by
    rw [← htrim] at hc
    exact (List.rdropWhile_prefix (fun c => decide (c = '/')) _).subset hc
  have hhash : '#' ∉ joinBody (parentBody a) n := by
    rw [joinBody_parentBody hn]
    intro h
    refine notMem_before '#' body (hmem ?_)
    split_ifs at h
    · rcases List.mem_append.mp h with h | h
      · exact List.mem_append_left _ h
      · exact List.mem_append_right _ (List.mem_cons_of_mem _ h)
    · exact h
  have hjoin := join_local hhash
  have hlenTrim := length_trimEnd_le (before '#' body)
  rw [htrim] at hlenTrim
  constructor
  · rintro ⟨n', hname, -, heq⟩
    rw [fileName_local hsplit] at hname
    obtain rfl := Option.some.inj hname
    rw [hjoin] at heq
    have hbody := of_inj heq
    have hno : '#' ∉ body := by
      rw [← hbody]
      intro h
      rcases mem_normaliseBody h with h | h
      · cases h
      · exact hhash h
    rw [before_of_notMem hno] at hlenTrim ⊢
    have hle := length_normaliseBody_le (joinBody (parentBody a) n)
    rw [hbody, joinBody_parentBody hn] at hle
    have hlast : a.getLast? ≠ some '/' := by
      intro hlast
      rw [if_pos hlast, List.length_append] at hle
      rw [List.length_append, List.length_cons] at hlenTrim
      omega
    rw [if_neg hlast] at hle
    have hprefix : a ++ '/' :: n <+: body := by
      rw [← htrim, before_of_notMem hno]
      exact List.rdropWhile_prefix _ _
    have hsame : a ++ '/' :: n = body :=
      hprefix.eq_of_length (le_antisymm hlenTrim hle)
    rw [joinBody_parentBody hn, if_neg hlast, hsame] at hbody
    exact ⟨hbody, hno, a, n, hsame.symm, hn, hne, hlast⟩
  · rintro ⟨hnormal, hno, a', n', rfl, hn', hne', hlast⟩
    rw [before_of_notMem hno] at hnormal hsplit
    rw [trimEndSlashes_append_cons hne' hn', rsplitOnce_append hn'] at hsplit
    obtain ⟨rfl, rfl⟩ := Prod.mk.inj (Option.some.inj hsplit)
    refine ⟨n', fileName_local (a := a') ?_, hn, ?_⟩
    · rw [before_of_notMem hno, trimEndSlashes_append_cons hne hn, rsplitOnce_append hn]
    · rw [hjoin, joinBody_parentBody hn, if_neg hlast, hnormal]

/-! ### Native paths -/

lemma toLocal_local (body : Text) : (of schemeLocal body).toLocal = .ok body := by
  unfold toLocal
  rw [scheme_local, if_pos rfl, body_local]

/-- What is parsed of a native path. -/
def lowered (native : Text) : Text :=
  match slashed native with
  | first :: rest => (if first.isAlpha then first.toLower else first) :: rest
  | [] => []

lemma fromLocal_eq (native : Text) : fromLocal native = new (schemeLocal ++ ':' :: lowered native) := by
  unfold fromLocal lowered
  cases slashed native with
  | nil => rfl
  | cons first rest =>
    dsimp only
    split_ifs <;> rfl

lemma toNat_toLower {c : Char} (h : c.isUpper = true) :
    65 ≤ c.toNat ∧ c.toNat ≤ 90 ∧ c.toLower.toNat = c.toNat + 32 := by
  have hrange : c.val ≥ 'A'.val ∧ c.val ≤ 'Z'.val := of_decide_eq_true h
  have hlow : 65 ≤ c.toNat := hrange.1
  have hhigh : c.toNat ≤ 90 := hrange.2
  refine ⟨hlow, hhigh, ?_⟩
  unfold Char.toLower
  rw [dif_pos hrange]
  show (c.val + 32).toNat = c.toNat + 32
  rw [UInt32.toNat_add]
  exact Nat.mod_eq_of_lt (by
    show c.toNat + 32 < 2 ^ 32
    omega)

lemma toLower_eq {c : Char} (h : c.isUpper = false) : c.toLower = c := by
  unfold Char.toLower
  rw [dif_neg (of_decide_eq_false h)]

/-- A small letter is not one of the characters before the letters. -/
lemma toLower_ne {c d : Char} (h : c.isUpper = true) (hd : d.toNat < 97) : c.toLower ≠ d := by
  rintro rfl
  obtain ⟨hlow, -, heq⟩ := toNat_toLower h
  omega

lemma before_cons {c d : Char} (h : d ≠ c) (s : Text) : before c (d :: s) = d :: before c s :=
  List.takeWhile_cons_of_pos (decide_eq_true h)

lemma isAlpha_of_isUpper {c : Char} (h : c.isUpper = true) : c.isAlpha = true := by
  unfold Char.isAlpha
  rw [h]
  rfl

lemma lowered_eq_self {native : Text} (hbs : '\\' ∉ native)
    (hupper : ∀ c ∈ native.head?, c.isUpper = false) : lowered native = native := by
  unfold lowered
  rw [slashed_eq_self hbs]
  cases native with
  | nil => rfl
  | cons c rest =>
    dsimp only
    rw [toLower_eq (hupper c rfl), ite_self]

lemma notMem_lowered (native : Text) : '\\' ∉ lowered native := by
  have hno := notMem_slashed native
  unfold lowered
  cases hslashed : slashed native with
  | nil => exact List.not_mem_nil
  | cons c rest =>
    rw [hslashed, List.mem_cons, not_or] at hno
    rw [List.mem_cons, not_or]
    refine ⟨?_, hno.2⟩
    split_ifs with hc
    · cases hup : c.isUpper with
      | true => exact (toLower_ne hup (by decide)).symm
      | false =>
        rw [toLower_eq hup]
        exact hno.1
    · exact hno.1

/-- A native path and its path stand for each other, exactly if the path is normal, has no
backslash and does not begin with a capital. -/
lemma fromLocal_iff (body : Text) :
    fromLocal body = .ok (of schemeLocal body) ↔
      normaliseBody (before '#' body) = before '#' body ∧ '\\' ∉ body ∧
        ∀ c ∈ body.head?, c.isUpper = false := by
  constructor
  · intro h
    rw [fromLocal_eq, new_local] at h
    have hbody := of_inj (Except.ok.inj h)
    have hbs : '\\' ∉ body := by
      intro hmem
      rw [← hbody] at hmem
      rcases List.mem_append.mp hmem with hmem | hmem
      · exact notMem_normaliseBody _ hmem
      · exact notMem_lowered body (List.drop_subset _ _ hmem)
    have hupper : ∀ c ∈ body.head?, c.isUpper = false := by
      intro c hc
      by_contra hup
      rw [Bool.not_eq_false] at hup
      obtain ⟨rest, rfl⟩ : ∃ rest, body = c :: rest := by
        cases body with
        | nil => cases hc
        | cons d rest => exact ⟨rest, by rw [Option.some.inj hc]⟩
      have halpha := isAlpha_of_isUpper hup
      have hlow : lowered (c :: rest) = c.toLower :: rest := by
        unfold lowered
        rw [slashed_eq_self hbs]
        dsimp only
        rw [if_pos halpha]
      have hc : c ≠ '#' := by
        rintro rfl
        exact absurd hup (by decide)
      rw [hlow, before_cons (toLower_ne hup (by decide))] at hbody
      have hsplit := append_tail (c :: rest)
      rw [before_cons hc] at hsplit
      have hmain : normaliseBody (c.toLower :: before '#' rest) = c :: before '#' rest :=
        List.append_cancel_right (hbody.trans hsplit.symm)
      have hno := notMem_lowered (c :: rest)
      rw [hlow] at hno
      have hsub := normaliseBody_sublist (c.toLower :: before '#' rest)
      rw [hmain, slashed_eq_self fun hmem => hno ?_] at hsub
      · have heq := (List.cons.inj (hsub.eq_of_length rfl)).1
        exact toLower_ne hup (by have := (toNat_toLower hup).2.1; omega) heq.symm
      · rcases List.mem_cons.mp hmem with heq | hmem
        · rw [heq]
          exact List.mem_cons_self
        · exact List.mem_cons_of_mem _ ((List.takeWhile_prefix _).subset hmem)
    rw [lowered_eq_self hbs hupper] at hbody
    refine ⟨?_, hbs, hupper⟩
    exact List.append_cancel_right (hbody.trans (append_tail body).symm)
  · rintro ⟨hnormal, hbs, hupper⟩
    rw [fromLocal_eq, lowered_eq_self hbs hupper]
    exact (new_text_iff (List.cons_ne_nil _ _) (by decide) body).mpr hnormal

lemma toLocal_fromLocal {body : Text} (h : fromLocal body = .ok (of schemeLocal body)) :
    (of schemeLocal body).toLocal.bind fromLocal = .ok (of schemeLocal body) ∧
      (fromLocal body).bind toLocal = .ok body := by
  rw [toLocal_local, h]
  exact ⟨h, toLocal_local body⟩

/-! ### The laws -/

/-- When a path is parsed to itself, when its name behind its parent is the path, that going up
ends, and when it stands for its native path. -/
theorem laws (s body : Text) (p : FsPath) :
    (∀ q, new s = .ok q → (new q.text = .ok q ↔ ¬ TripleRoot (mainOf s))) ∧
    (∀ q, (of schemeLocal body).parent = some q →
      ((∃ n, (of schemeLocal body).fileName = some n ∧ '/' ∉ n ∧
          q.join n = of schemeLocal body) ↔
        normaliseBody (before '#' body) = before '#' body ∧ '#' ∉ body ∧ Below body)) ∧
    (p.HasScheme →
      (∀ q, p.parent = some q → q.HasScheme ∧ q.text.length < p.text.length) ∧
        ∃ root, Relation.ReflTransGen Up p root ∧ root.parent = none) ∧
    (((of schemeLocal body).toLocal.bind fromLocal = .ok (of schemeLocal body) ∧
        (fromLocal body).bind toLocal = .ok body) ↔
      normaliseBody (before '#' body) = before '#' body ∧ '\\' ∉ body ∧
        ∀ c ∈ body.head?, c.isUpper = false) := by
  refine ⟨fun q h => new_text h, fun q h => join_fileName h, fun hp => ?_, ?_⟩
  · exact ⟨fun q hq => parent_shorter hp hq, exists_root hp⟩
  · rw [← fromLocal_iff]
    constructor
    · rintro ⟨h, -⟩
      rwa [toLocal_local] at h
    · exact toLocal_fromLocal

/-- `/src/a.rs` -/
def sourceBody : Text := "/src/a.rs".toList

theorem laws_source :
    new (of schemeLocal sourceBody).text = .ok (of schemeLocal sourceBody) ∧
    (∃ n, (of schemeLocal sourceBody).fileName = some n ∧ '/' ∉ n ∧
      (of schemeLocal "/src".toList).join n = of schemeLocal sourceBody) ∧
    (∃ root, Relation.ReflTransGen Up (of schemeLocal sourceBody) root ∧ root.parent = none) ∧
    (fromLocal sourceBody).bind toLocal = .ok sourceBody := by
  have hnormal : normaliseBody (before '#' sourceBody) = before '#' sourceBody := by decide
  have hlaws := laws (of schemeLocal sourceBody).text sourceBody (of schemeLocal sourceBody)
  refine ⟨(hlaws.1 _ (by rfl)).mpr ?_, (hlaws.2.1 _ (by rfl)).mpr ⟨hnormal, by decide, ?_⟩,
    (hlaws.2.2.1 (hasScheme_of _ _)).2, (hlaws.2.2.2.mpr ⟨hnormal, by decide, ?_⟩).2⟩
  · rintro ⟨rest, hrest, -⟩
    have hsecond : (slashed (mainOf (of schemeLocal sourceBody).text)).tail.head? = some '/' :=
      congrArg (fun t => t.tail.head?) hrest
    exact absurd hsecond (by decide)
  · exact ⟨"/src".toList, "a.rs".toList, by decide, by decide, by decide, by decide⟩
  · intro c hc
    obtain rfl : '/' = c := Option.some.inj hc
    rfl

/-- A file with a `#` in its name: what stands behind it is lost. -/
theorem not_laws :
    ¬ ∀ s p, new s = .ok p → new p.text = .ok p ∧
      (p.scheme = schemeLocal →
        (∀ q, p.parent = some q → ∃ n, p.fileName = some n ∧ '/' ∉ n ∧ q.join n = p) ∧
        p.toLocal.bind fromLocal = .ok p) := by
  intro h
  have hnotes := h "local:/src/notes#1.txt".toList (of schemeLocal "/src/notes#1.txt".toList) (by rfl)
  obtain ⟨n, hname, -, hjoin⟩ := (hnotes.2 (by rfl)).1 (of schemeLocal "/src".toList) (by decide)
  obtain rfl : n = "notes".toList := by
    have hn : (of schemeLocal "/src/notes#1.txt".toList).fileName = some "notes".toList := by decide
    exact Option.some.inj (hname.symm.trans hn)
  exact absurd hjoin (by decide)

end FsPath

end Orchid.Fs
