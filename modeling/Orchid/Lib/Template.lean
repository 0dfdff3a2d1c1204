import Mathlib.Algebra.GroupWithZero.Nat
import Mathlib.Data.List.Infix

/-!
# Templates

A template is a list with holes, each of which is written in the list as a text of its own. The
holes are filled all at once, or one kind after the other by replacing its text wherever it stands.
The two agree unless what is filled in helps to spell the text of a hole.
-/

namespace Orchid.Lib

variable {α ι : Type*}

/-! ### Replacing -/

/-- The list with the pattern replaced where it occurs after the first `skip`, from the left and
without overlap. -/
def replaceFrom [DecidableEq α] (pat new : List α) : ℕ → List α → List α
  | _, [] => []
  | skip + 1, _ :: t => replaceFrom pat new skip t
  | 0, a :: t =>
    if pat <+: a :: t then new ++ replaceFrom pat new (pat.length - 1) t
    else a :: replaceFrom pat new 0 t

def replaceAll [DecidableEq α] (pat new t : List α) : List α := replaceFrom pat new 0 t

/-- What a list weighs if each element has its weight. -/
def weight (m : α → ℕ) (t : List α) : ℕ := (t.map m).sum

@[simp] lemma weight_nil (m : α → ℕ) : weight m [] = 0 := rfl

@[simp] lemma weight_cons (m : α → ℕ) (a : α) (t : List α) :
    weight m (a :: t) = m a + weight m t := rfl

@[simp] lemma weight_append (m : α → ℕ) (s t : List α) :
    weight m (s ++ t) = weight m s + weight m t := by
  simp [weight]

lemma weight_flatMap {β : Type*} (m : α → ℕ) (f : β → List α) (t : List β) :
    weight m (t.flatMap f) = weight (fun b => weight m (f b)) t := by
  induction t with
  | nil => rfl
  | cons b t ih => rw [List.flatMap_cons, weight_append, ih, weight_cons]

section Replace

variable [DecidableEq α] {pat new : List α}

lemma replaceFrom_eq (k : ℕ) (t : List α) :
    replaceFrom pat new k t = replaceAll pat new (t.drop k) := by
  induction t generalizing k with
  | nil => cases k <;> simp [replaceFrom, replaceAll]
  | cons a t ih =>
    cases k with
    | zero => rfl
    | succ k => exact ih k

@[simp] lemma replaceAll_nil : replaceAll pat new [] = [] := rfl

lemma replaceAll_cons {a : α} {t : List α} (h : ¬ pat <+: a :: t) :
    replaceAll pat new (a :: t) = a :: replaceAll pat new t := by
  rw [replaceAll, replaceFrom, if_neg h]
  rfl

lemma replaceAll_append (hpat : pat ≠ []) (t : List α) :
    replaceAll pat new (pat ++ t) = new ++ replaceAll pat new t := by
  obtain ⟨a, body, rfl⟩ := List.exists_cons_of_ne_nil hpat
  have hp : a :: body <+: a :: (body ++ t) := List.prefix_append (a :: body) t
  rw [List.cons_append, replaceAll, replaceFrom, if_pos hp, replaceFrom_eq]
  simp

/-- A list is gone through as the replacement does it. -/
lemma replace_induction (hpat : pat ≠ []) {motive : List α → Prop} (nil : motive [])
    (found : ∀ t, motive t → motive (pat ++ t))
    (other : ∀ a t, ¬ pat <+: a :: t → motive t → motive (a :: t)) (t : List α) : motive t := by
  induction hn : t.length using Nat.strong_induction_on generalizing t with
  | _ n ih =>
    cases t with
    | nil => exact nil
    | cons a t =>
      by_cases hp : pat <+: a :: t
      · obtain ⟨rest, hrest⟩ := hp
        have hpos := List.length_pos_of_ne_nil hpat
        have hlen := congrArg List.length hrest
        rw [List.length_append, hn] at hlen
        rw [← hrest]
        exact found rest (ih rest.length (by omega) rest rfl)
      · refine other a t hp (ih t.length ?_ t rfl)
        rw [← hn]
        exact Nat.lt_succ_self _

/-- Each occurrence takes the weight of the pattern away and adds that of its replacement. -/
lemma exists_occurrences (hpat : pat ≠ []) (t : List α) :
    ∃ n, (n = 0 ↔ ¬ pat <:+: t) ∧ ∀ m : α → ℕ,
      weight m (replaceAll pat new t) + n * weight m pat = weight m t + n * weight m new := by
  induction t using replace_induction hpat with
  | nil => exact ⟨0, by simpa using hpat, fun m => by simp⟩
  | found t ih =>
    obtain ⟨n, -, hn⟩ := ih
    refine ⟨n + 1, by simpa using ⟨[], t, by simp⟩, fun m => ?_⟩
    have := hn m
    rw [replaceAll_append hpat, weight_append, weight_append, Nat.succ_mul, Nat.succ_mul]
    omega
  | other a t hp ih =>
    obtain ⟨n, hzero, hn⟩ := ih
    refine ⟨n, ?_, fun m => ?_⟩
    · rw [hzero, List.infix_cons_iff]
      exact ⟨fun h hor => hor.elim hp h, fun h ht => h (.inr ht)⟩
    · have := hn m
      rw [replaceAll_cons hp, weight_cons, weight_cons]
      omega

lemma replaceAll_eq_self {t : List α} (h : ¬ pat <:+: t) : replaceAll pat new t = t := by
  induction t with
  | nil => rfl
  | cons a t ih =>
    rw [List.infix_cons_iff, not_or] at h
    rw [replaceAll_cons h.1, ih h.2]

/-- A pattern does not begin where its first element does not stand. -/
lemma replaceAll_append_of_notMem {o : α} {body s : List α} (h : o ∉ s) (t : List α) :
    replaceAll (o :: body) new (s ++ t) = s ++ replaceAll (o :: body) new t := by
  induction s with
  | nil => rfl
  | cons a s ih =>
    obtain ⟨ha, hs⟩ := not_or.mp (mt List.mem_cons.mpr h)
    have hp : ¬ o :: body <+: a :: (s ++ t) := fun hp => ha ((List.cons_prefix_cons).mp hp).1
    rw [List.cons_append, replaceAll_cons hp, ih hs]
    rfl

end Replace

/-! ### Pieces -/

/-- An element of a template or a hole in it. -/
inductive Piece (α ι : Type*)
  | lit (a : α)
  | hole (k : ι)
  deriving DecidableEq

namespace Piece

/-- What stands at the place of a piece if the holes are filled. -/
def fill (σ : ι → List α) : Piece α ι → List α
  | .lit a => [a]
  | .hole k => σ k

/-- The pieces that stand at the place of one if the holes `k` are filled. -/
def fillOne [DecidableEq ι] (k : ι) (w : List α) : Piece α ι → List (Piece α ι)
  | .lit a => [.lit a]
  | .hole j => if j = k then w.map .lit else [.hole j]

end Piece

/-- All holes are filled at once. -/
def fillAll (σ : ι → List α) (A : List (Piece α ι)) : List α := A.flatMap (Piece.fill σ)

/-- Only the holes `k` are filled. -/
def fillHoles [DecidableEq ι] (k : ι) (w : List α) (A : List (Piece α ι)) : List (Piece α ι) :=
  A.flatMap (Piece.fillOne k w)

/-- The text of a hole is spelled by elements of the template. -/
def Spelled (text : ι → List α) (k : ι) (A : List (Piece α ι)) : Prop :=
  (text k).map Piece.lit <:+: A

/-- The pieces of a list after the first `skip`. -/
def parseFrom [DecidableEq α] (text : ι → List α) (ks : List ι) :
    ℕ → List α → List (Piece α ι)
  | _, [] => []
  | skip + 1, _ :: t => parseFrom text ks skip t
  | 0, a :: t =>
    match ks.find? fun k => text k <+: a :: t with
    | some k => .hole k :: parseFrom text ks ((text k).length - 1) t
    | none => .lit a :: parseFrom text ks 0 t

/-- The holes are the texts of the `ks` in the list, from the left and without overlap. -/
def parse [DecidableEq α] (text : ι → List α) (ks : List ι) (t : List α) : List (Piece α ι) :=
  parseFrom text ks 0 t

/-- The holes are filled one kind after the other. -/
def replaceEach [DecidableEq α] (text σ : ι → List α) (ks : List ι) (t : List α) : List α :=
  ks.foldl (fun t k => replaceAll (text k) (σ k) t) t

/-- At its turn, no hole is spelled by the template and what is filled in already. -/
def Unspelled [DecidableEq ι] (text σ : ι → List α) : List ι → List (Piece α ι) → Prop
  | [], _ => True
  | k :: ks, A => ¬ Spelled text k A ∧ Unspelled text σ ks (fillHoles k (σ k) A)

/-- The texts begin with an element that they have only there, and none begins another. -/
structure Bracketed (text : ι → List α) (o : α) : Prop where
  starts : ∀ k, ∃ body, text k = o :: body ∧ o ∉ body
  inj : ∀ j k u, text j <+: text k ++ u → j = k

section Filling

variable {text σ : ι → List α} {o : α}

@[simp] lemma fillAll_nil (σ : ι → List α) : fillAll σ [] = [] := rfl

@[simp] lemma fillAll_lit (σ : ι → List α) (a : α) (A : List (Piece α ι)) :
    fillAll σ (.lit a :: A) = a :: fillAll σ A := rfl

@[simp] lemma fillAll_hole (σ : ι → List α) (k : ι) (A : List (Piece α ι)) :
    fillAll σ (.hole k :: A) = σ k ++ fillAll σ A := rfl

@[simp] lemma fillAll_append (σ : ι → List α) (A B : List (Piece α ι)) :
    fillAll σ (A ++ B) = fillAll σ A ++ fillAll σ B := List.flatMap_append

@[simp] lemma fillAll_map_lit (σ : ι → List α) (w : List α) :
    fillAll σ (w.map (Piece.lit (ι := ι))) = w := by
  induction w with
  | nil => rfl
  | cons a w ih => rw [List.map_cons, fillAll_lit, ih]

lemma Bracketed.ne_nil (h : Bracketed text o) (k : ι) : text k ≠ [] := by
  obtain ⟨body, hk, -⟩ := h.starts k
  rw [hk]
  exact List.cons_ne_nil o body

/-- A list without the first element of the texts stands in no hole. -/
lemma map_lit_prefix (hb : Bracketed text o) {w : List α} (hw : o ∉ w) {A : List (Piece α ι)}
    (h : w <+: fillAll text A) : w.map Piece.lit <+: A := by
  induction w generalizing A with
  | nil => exact List.nil_prefix
  | cons b w ih =>
    obtain ⟨hob, how⟩ := not_or.mp (mt List.mem_cons.mpr hw)
    cases A with
    | nil => exact absurd h.length_le (by simp)
    | cons x A =>
      cases x with
      | lit a =>
        obtain ⟨rfl, hp⟩ := (List.cons_prefix_cons).mp h
        exact (List.cons_prefix_cons).mpr ⟨rfl, ih how hp⟩
      | hole k =>
        obtain ⟨body, hk, -⟩ := hb.starts k
        rw [fillAll_hole, hk] at h
        exact absurd ((List.cons_prefix_cons).mp h).1.symm hob

/-- What is spelled by elements of the template stands there however the holes are filled. -/
lemma Spelled.occurs {k : ι} {A : List (Piece α ι)} (h : Spelled text k A) (σ : ι → List α) :
    text k <:+: fillAll σ A := by
  obtain ⟨front, back, rfl⟩ := h
  refine ⟨fillAll σ front, fillAll σ back, ?_⟩
  rw [fillAll_append, fillAll_append, fillAll_map_lit]

lemma spelled_map_lit {k : ι} {t : List α} :
    Spelled text k (t.map Piece.lit) ↔ text k <:+: t := by
  constructor
  · intro h
    simpa using h.occurs fun _ => []
  · rintro ⟨front, back, rfl⟩
    exact ⟨front.map Piece.lit, back.map Piece.lit, by simp⟩

lemma fillHoles_map_lit [DecidableEq ι] (k : ι) (w t : List α) :
    fillHoles k w (t.map Piece.lit) = t.map Piece.lit := by
  induction t with
  | nil => rfl
  | cons a t ih =>
    rw [List.map_cons, fillHoles, List.flatMap_cons, ← fillHoles, ih]
    rfl

/-- Filling the holes `k` first does not change what filling all holes gives. -/
lemma fillAll_fillHoles [DecidableEq ι] {τ : ι → List α} {k : ι} {w : List α} (hσ : σ k = w)
    (h : ∀ j, j ≠ k → τ j = σ j) (A : List (Piece α ι)) :
    fillAll τ (fillHoles k w A) = fillAll σ A := by
  induction A with
  | nil => rfl
  | cons x A ih =>
    rw [fillHoles, List.flatMap_cons, fillAll_append, ← fillHoles, ih]
    cases x with
    | lit a => rfl
    | hole j =>
      by_cases hj : j = k
      · subst hj
        rw [Piece.fillOne, if_pos rfl, fillAll_map_lit, fillAll_hole, hσ]
      · rw [Piece.fillOne, if_neg hj, fillAll_hole, fillAll_hole, h j hj]
        simp

end Filling

/-! ### Parsing -/

section Parsing

variable [DecidableEq α] {text : ι → List α} {o : α} {ks : List ι}

lemma parseFrom_eq (n : ℕ) (t : List α) : parseFrom text ks n t = parse text ks (t.drop n) := by
  induction t generalizing n with
  | nil => cases n <;> simp [parseFrom, parse]
  | cons a t ih =>
    cases n with
    | zero => rfl
    | succ n => exact ih n

lemma parse_cons (hb : Bracketed text o) (a : α) (t : List α) :
    (∃ k rest, a :: t = text k ++ rest ∧ parse text ks (a :: t) = .hole k :: parse text ks rest) ∨
      (∀ k ∈ ks, ¬ text k <+: a :: t) ∧ parse text ks (a :: t) = .lit a :: parse text ks t := by
  unfold parse
  rw [parseFrom]
  cases hfind : ks.find? fun k => text k <+: a :: t with
  | none =>
    refine .inr ⟨fun k hk hp => ?_, rfl⟩
    exact absurd (decide_eq_true hp) (List.find?_eq_none.mp hfind k hk)
  | some k =>
    have hfound := List.find?_some hfind
    obtain ⟨rest, hrest⟩ := of_decide_eq_true hfound
    obtain ⟨body, hk, -⟩ := hb.starts k
    refine .inl ⟨k, rest, hrest.symm, ?_⟩
    dsimp only
    rw [parseFrom_eq, parse]
    congr 2
    rw [hk] at hrest ⊢
    rw [← (List.cons.inj hrest).2]
    simp

/-- The texts of the holes give back the list. -/
lemma fillAll_parse (hb : Bracketed text o) (t : List α) : fillAll text (parse text ks t) = t := by
  induction hn : t.length using Nat.strong_induction_on generalizing t with
  | _ n ih =>
    cases t with
    | nil => rfl
    | cons a t =>
      rcases @parse_cons _ _ _ text o ks hb a t with ⟨k, rest, hrest, hparse⟩ | ⟨-, hparse⟩
      · have hpos := List.length_pos_of_ne_nil (hb.ne_nil k)
        have hlen := congrArg List.length hrest
        rw [List.length_append, hn] at hlen
        rw [hparse, fillAll_hole, ih rest.length (by omega) rest rfl, hrest]
      · rw [hparse, fillAll_lit, ih t.length (by rw [← hn]; exact Nat.lt_succ_self _) t rfl]

/-- No hole is spelled by the elements that the parser leaves. -/
lemma not_spelled_parse (hb : Bracketed text o) {k : ι} (hk : k ∈ ks) (t : List α) :
    ¬ Spelled text k (parse text ks t) := by
  induction hn : t.length using Nat.strong_induction_on generalizing t with
  | _ n ih =>
    cases t with
    | nil => simpa [Spelled, parse, parseFrom] using hb.ne_nil k
    | cons a t =>
      obtain ⟨body, hbody, -⟩ := hb.starts k
      rw [Spelled]
      rcases @parse_cons _ _ _ text o ks hb a t with ⟨j, rest, hrest, hparse⟩ | ⟨hnone, hparse⟩
      · have hpos := List.length_pos_of_ne_nil (hb.ne_nil j)
        have hlen := congrArg List.length hrest
        rw [List.length_append, hn] at hlen
        rw [hparse, List.infix_cons_iff]
        rintro (hp | hin)
        · rw [hbody, List.map_cons, List.cons_prefix_cons] at hp
          simp at hp
        · exact ih rest.length (by omega) rest rfl hin
      · have hback := @fillAll_parse _ _ _ text o ks hb (a :: t)
        rw [hparse, List.infix_cons_iff]
        rintro (⟨more, hmore⟩ | hin)
        · refine hnone k hk ⟨fillAll text more, ?_⟩
          rw [← hback, hparse, ← hmore, fillAll_append, fillAll_map_lit]
        · exact ih t.length (by rw [← hn]; exact Nat.lt_succ_self _) t rfl hin

end Parsing

/-! ### One kind after the other -/

section Pieces

variable [DecidableEq α] [DecidableEq ι] {text σ : ι → List α} {o : α} {ks : List ι}

/-- Replacing the text of a hole fills the holes of its kind, with those that are spelled. -/
lemma replaceAll_fillAll (hb : Bracketed text o) (k : ι) (A : List (Piece α ι)) :
    replaceAll (text k) (σ k) (fillAll text A) =
      fillAll text
        (fillHoles k (σ k) (replaceAll ((text k).map Piece.lit) [Piece.hole k] A)) := by
  have hne := hb.ne_nil k
  obtain ⟨body, hk, hbody⟩ := hb.starts k
  have hlits : (text k).map (Piece.lit (ι := ι)) ≠ [] := by simpa using hne
  induction A using replace_induction hlits with
  | nil => rfl
  | found A ih =>
    rw [fillAll_append, fillAll_map_lit, replaceAll_append hne, ih, replaceAll_append hlits]
    simp [fillHoles, Piece.fillOne]
  | other x A hp ih =>
    rw [replaceAll_cons hp, fillHoles, List.flatMap_cons, ← fillHoles, fillAll_append, ← ih]
    cases x with
    | lit a =>
      rw [fillAll_lit, replaceAll_cons]
      · rfl
      · intro htext
        rw [hk] at htext hp
        obtain ⟨rfl, hrest⟩ := (List.cons_prefix_cons).mp htext
        exact hp ((List.cons_prefix_cons).mpr ⟨rfl, map_lit_prefix hb hbody hrest⟩)
    | hole j =>
      rw [fillAll_hole, Piece.fillOne]
      by_cases hj : j = k
      · rw [if_pos hj, hj, replaceAll_append hne, fillAll_map_lit]
      · obtain ⟨body', hj', hbody'⟩ := hb.starts j
        have hnot : ¬ text k <+: text j ++ fillAll text A := fun h => hj (hb.inj k j _ h).symm
        rw [if_neg hj, fillAll_hole, fillAll_nil, List.append_nil]
        rw [hj', List.cons_append] at hnot ⊢
        rw [replaceAll_cons hnot, hk, replaceAll_append_of_notMem hbody']
        rfl

/-- What is written for the holes while those of the `ks` are filled. -/
def fillIn (text σ : ι → List α) (ks : List ι) (k : ι) : List α := if k ∈ ks then σ k else text k

omit [DecidableEq α] in
lemma fillAll_fillIn_cons (k : ι) (A : List (Piece α ι)) :
    fillAll (fillIn text σ ks) (fillHoles k (σ k) A) = fillAll (fillIn text σ (k :: ks)) A := by
  refine fillAll_fillHoles (by simp [fillIn]) (fun j hj => ?_) A
  simp [fillIn, hj]

/-- Each kind of holes is filled as often as it is spelled besides, and where none is spelled the
result is that of filling all at once. -/
lemma exists_spellings (hb : Bracketed text o) (ks : List ι) (A : List (Piece α ι)) :
    ∃ ns : List ℕ, ns.length = ks.length ∧
      ((∀ n ∈ ns, n = 0) ↔ Unspelled text σ ks A) ∧ ∀ m : α → ℕ,
        weight m (replaceEach text σ ks (fillAll text A)) +
            (List.zipWith (fun n k => n * weight m (text k)) ns ks).sum =
          weight m (fillAll (fillIn text σ ks) A) +
            (List.zipWith (fun n k => n * weight m (σ k)) ns ks).sum := by
  induction ks generalizing A with
  | nil =>
    refine ⟨[], rfl, by simp [Unspelled], fun m => ?_⟩
    rfl
  | cons k ks ih =>
    have hne : (text k).map (Piece.lit (ι := ι)) ≠ [] := by simpa using hb.ne_nil k
    obtain ⟨n, hzero, hn⟩ := @exists_occurrences _ _ _ [Piece.hole k] hne A
    obtain ⟨ns, hlen, hzeros, hns⟩ := ih
      (fillHoles k (σ k) (replaceAll ((text k).map Piece.lit) [Piece.hole k] A))
    refine ⟨n :: ns, congrArg (· + 1) hlen, ?_, fun m => ?_⟩
    · rw [List.forall_mem_cons, hzero, Unspelled]
      refine and_congr_right fun hnot => ?_
      rw [hzeros, replaceAll_eq_self hnot]
    · have hpieces := hn fun x => weight m (Piece.fill (fillIn text σ (k :: ks)) x)
      have hrest := hns m
      have hlit := fillAll_map_lit (fillIn text σ (k :: ks)) (text k)
      rw [← weight_flatMap, ← weight_flatMap, ← weight_flatMap, ← weight_flatMap, ← fillAll,
        ← fillAll, ← fillAll, hlit] at hpieces
      rw [← replaceAll_fillAll hb, fillAll_fillIn_cons] at hrest
      have hhole : fillAll (fillIn text σ (k :: ks)) [Piece.hole k] = σ k := by simp [fillIn]
      rw [← fillAll, hhole] at hpieces
      rw [List.zipWith_cons_cons, List.zipWith_cons_cons, List.sum_cons, List.sum_cons,
        replaceEach, List.foldl_cons, ← replaceEach]
      omega

/-- Where no hole is spelled, filling one kind after the other fills all. -/
lemma replaceEach_of_unspelled (hb : Bracketed text o) {ks : List ι} {A : List (Piece α ι)}
    (h : Unspelled text σ ks A) :
    replaceEach text σ ks (fillAll text A) = fillAll (fillIn text σ ks) A := by
  induction ks generalizing A with
  | nil => rfl
  | cons k ks ih =>
    rw [replaceEach, List.foldl_cons, ← replaceEach, replaceAll_fillAll hb,
      replaceAll_eq_self h.1, ih h.2, fillAll_fillIn_cons]

end Pieces

end Orchid.Lib
