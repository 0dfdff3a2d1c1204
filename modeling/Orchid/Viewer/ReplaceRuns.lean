import Orchid.Viewer.Replacing

/-!
# Replacing every match

The text with all matches replaced, as `replace_all` makes it and as repeating `replace_current`
does.
-/

namespace Orchid.Viewer

open Lib

open String (utf8Len)

/-! ### All matches replaced -/

/-- A text behind a byte and the same with the matches there replaced. -/
inductive AllReplaced (r : Text) : ℕ → List (ℕ × ℕ) → Text → Text → Prop
  | nil (n : ℕ) (t : Text) : AllReplaced r n [] t t
  | cons {n : ℕ} {m : ℕ × ℕ} {ms : List (ℕ × ℕ)} {u s w t' : Text} (hu : n + utf8Len u = m.1)
    (hs : m.1 + utf8Len s = m.2) (h : AllReplaced r m.2 ms w t') :
    AllReplaced r n (m :: ms) (u ++ (s ++ w)) (u ++ (r ++ t'))

variable {r t t' t'' u s w : Text} {n : ℕ} {m : ℕ × ℕ} {ms : List (ℕ × ℕ)}

lemma eq_nil_of_utf8Len (h : utf8Len u = 0) : u = [] := by
  cases u with
  | nil => rfl
  | cons c u =>
    rw [String.utf8Len_cons] at h
    have := Char.utf8Size_pos c
    omega

/-- A text cut in two ways, the first one not behind the second. -/
lemma exists_of_append_eq {a b c d : Text} (h : a ++ b = c ++ d) (hle : utf8Len a ≤ utf8Len c) :
    ∃ x, c = a ++ x ∧ b = x ++ d := by
  rcases List.append_eq_append_iff.mp h with ⟨x, hc, hb⟩ | ⟨x, ha, hd⟩
  · exact ⟨x, hc, hb⟩
  · have hnil : x = [] := by
      refine eq_nil_of_utf8Len ?_
      rw [ha, String.utf8Len_append] at hle
      omega
    subst hnil
    exact ⟨[], by simpa using ha.symm, by simpa using hd.symm⟩

lemma AllReplaced.unique (h : AllReplaced r n ms t t')
    (h' : AllReplaced r n ms t t'') : t' = t'' := by
  induction h generalizing t'' with
  | nil =>
    cases h'
    rfl
  | @cons n m ms u s w t' hu hs h ih =>
    generalize ht : u ++ (s ++ w) = t at h'
    cases h' with
    | @cons _ _ _ u' s' w' t₁ hu' hs' h' =>
      have hlen : utf8Len u = utf8Len u' := by omega
      obtain ⟨x, rfl, hx⟩ := exists_of_append_eq ht hlen.le
      rw [String.utf8Len_append] at hlen
      obtain rfl := eq_nil_of_utf8Len (show utf8Len x = 0 by omega)
      rw [List.nil_append] at hx
      obtain ⟨y, rfl, hy⟩ := exists_of_append_eq hx (by omega)
      rw [String.utf8Len_append] at hs'
      obtain rfl := eq_nil_of_utf8Len (show utf8Len y = 0 by omega)
      rw [List.nil_append] at hy
      subst hy
      rw [ih h', List.append_nil]

/-- What the loop of `replace_all` puts together. -/
lemma allReplaced_replacedFrom {a : Text} (hlen : utf8Len a = n)
    (hrange : ∀ m ∈ ms, ∃ u s w, a ++ t = u ++ s ++ w ∧ utf8Len u = m.1 ∧
      m.1 + utf8Len s = m.2)
    (hle : ∀ m ∈ ms, n ≤ m.1) (hord : Ordered ms) :
    AllReplaced r n ms t (TextViewer.replacedFrom (a ++ t) r n ms) := by
  induction ms generalizing a t n with
  | nil =>
    have hslice : sliceBytes (a ++ t) n (utf8Len (a ++ t)) = some t :=
      sliceBytes_eq_some_iff.mpr ⟨a, [], by simp, hlen, by rw [String.utf8Len_append, hlen]⟩
    rw [TextViewer.replacedFrom, hslice]
    exact .nil n t
  | cons m ms ih =>
    obtain ⟨hhead, htail⟩ := List.pairwise_cons.mp hord
    obtain ⟨u₀, s, w, heq, hu, hs⟩ := hrange m (List.mem_cons_self ..)
    rw [List.append_assoc] at heq
    obtain ⟨u, rfl, rfl⟩ := exists_of_append_eq heq (by
      rw [hlen, hu]
      exact hle m (List.mem_cons_self ..))
    rw [String.utf8Len_append, hlen] at hu
    have hslice : sliceBytes (a ++ (u ++ (s ++ w))) n m.1 = some u :=
      sliceBytes_eq_some_iff.mpr ⟨a, s ++ w, by simp, hlen, hu⟩
    have hrest := ih (a := a ++ (u ++ s)) (t := w) (n := m.2)
      (by simp only [String.utf8Len_append]; omega)
      (fun m' hm' => by simpa using hrange m' (List.mem_cons_of_mem _ hm'))
      (fun m' hm' => (hhead m' hm').2) htail
    rw [TextViewer.replacedFrom, hslice]
    have hassoc : a ++ (u ++ s) ++ w = a ++ (u ++ (s ++ w)) := by simp
    rw [hassoc] at hrest
    simpa using AllReplaced.cons (r := r) hu hs hrest

/-! ### One match after the other -/

/-- A position behind a match once the match is replaced. -/
def shift (m : ℕ × ℕ) (r : Text) (m' : ℕ × ℕ) : ℕ × ℕ :=
  (m'.1 - m.2 + (m.1 + utf8Len r), m'.2 - m.2 + (m.1 + utf8Len r))

lemma AllReplaced.of_map {f : ℕ × ℕ → ℕ × ℕ} {a b : ℕ}
    (h : AllReplaced r a (ms.map f) t t')
    (hf : ∀ m ∈ ms, (f m).1 + b = m.1 + a ∧ (f m).2 + b = m.2 + a) :
    AllReplaced r b ms t t' := by
  induction ms generalizing a b t t' with
  | nil =>
    cases h
    exact .nil b t
  | cons m ms ih =>
    obtain ⟨hfst, hsnd⟩ := hf m (List.mem_cons_self ..)
    cases h with
    | cons hu hs h =>
      refine .cons (by omega) (by omega) (ih h fun m' hm' => ?_)
      have := hf m' (List.mem_cons_of_mem _ hm')
      omega

/-- What is in front of all matches stays. -/
lemma AllReplaced.of_append {p : Text} (h : AllReplaced r n ms (p ++ w) t')
    (hle : ∀ m ∈ ms, n + utf8Len p ≤ m.1) :
    ∃ t'', t' = p ++ t'' ∧ AllReplaced r (n + utf8Len p) ms w t'' := by
  generalize ht : p ++ w = t at h
  cases h with
  | nil =>
    subst ht
    exact ⟨w, rfl, .nil _ w⟩
  | @cons _ m ms u s w' t₁ hu hs h =>
    have hpm := hle m (List.mem_cons_self ..)
    obtain ⟨a, rfl, rfl⟩ := exists_of_append_eq ht (by omega)
    rw [String.utf8Len_append] at hu
    exact ⟨a ++ (r ++ t₁), by simp, .cons (by omega) hs h⟩

/-- The other matches replaced in a text in which one has been replaced. -/
lemma AllReplaced.of_replaced {pre post : List (ℕ × ℕ)}
    (h : AllReplaced r n (pre ++ post.map (shift m r))
      (u ++ (r ++ w)) t')
    (hu : n + utf8Len u = m.1) (hs : m.1 + utf8Len s = m.2) (hpre : ∀ q ∈ pre, q.2 ≤ m.1)
    (hpost : ∀ q ∈ post, m.2 ≤ q.1 ∧ q.1 ≤ q.2) :
    AllReplaced r n (pre ++ m :: post) (u ++ (s ++ w)) t' := by
  induction pre generalizing n u t' with
  | nil =>
    rw [List.nil_append, ← List.append_assoc] at h
    obtain ⟨t'', rfl, hrest⟩ := h.of_append fun q hq => by
      obtain ⟨q', hq', rfl⟩ := List.mem_map.mp hq
      have := hpost q' hq'
      simp only [shift, String.utf8Len_append]
      omega
    rw [List.append_assoc]
    refine .cons hu hs (hrest.of_map fun q hq => ?_)
    have := hpost q hq
    simp only [shift, String.utf8Len_append]
    omega
  | cons q pre ih =>
    have hq := hpre q (List.mem_cons_self ..)
    generalize ht : u ++ (r ++ w) = t at h
    cases h with
    | @cons _ _ _ u₁ s₁ w₁ t₁ hu₁ hs₁ h =>
      rw [← List.append_assoc u₁] at ht
      obtain ⟨a, rfl, rfl⟩ := exists_of_append_eq ht.symm (by
        rw [String.utf8Len_append]
        omega)
      simp only [String.utf8Len_append] at hu
      have hrest := ih h (by omega) (fun q' hq' => hpre q' (List.mem_cons_of_mem _ hq'))
      simpa using AllReplaced.cons (r := r) hu₁ hs₁ hrest

namespace TextViewer

variable {v v' : TextViewer} {rs : RegexCrate} {re : Regex} {query : Text} {opts : FindOptions}

/-- So many calls, each of which reports a replacement. -/
def replaceTimes (rs : RegexCrate) (query r : Text) (opts : FindOptions) :
    ℕ → TextViewer → Option TextViewer
  | 0, v => some v
  | n + 1, v =>
    match v.replaceCurrent rs query r opts with
    | .ok (true, v') => replaceTimes rs query r opts n v'
    | _ => none

/-- Replacing the match at hand leaves the others matches, shifted if they are behind it, and makes
no new ones. -/
def LeavesOthers (re : Regex) (r : Text) (v : TextViewer) : Prop :=
  ∀ m pre post u s w, v.Target re m → re.findIter v.buffer = pre ++ m :: post →
    v.buffer = u ++ (s ++ w) → utf8Len u = m.1 → m.1 + utf8Len s = m.2 →
    re.findIter (u ++ (r ++ w)) = pre ++ post.map (shift m r)

/-- In every state that repeated calls come to, a call replaces the right match and leaves the
others. -/
def Repeatable (rs : RegexCrate) (re : Regex) (query r : Text) (opts : FindOptions)
    (v : TextViewer) : Prop :=
  ∀ n v', replaceTimes rs query r opts n v = some v' →
    v'.Sound re r ∧ v'.LeavesOthers re r

/-- Repeated calls replace every match once before one reports that there is none. -/
def ReplacesEach (rs : RegexCrate) (re : Regex) (query r : Text) (opts : FindOptions)
    (v : TextViewer) : Prop :=
  ∃ v' v'', replaceTimes rs query r opts (re.findIter v.buffer).length v = some v' ∧
    v'.replaceCurrent rs query r opts = .ok (false, v'') ∧
    AllReplaced r 0 (re.findIter v.buffer) v.buffer v'.buffer

/-- What is needed of a state with one match to be replaced. -/
lemma sound_of_target {pre post : List (ℕ × ℕ)} (hrec : v.Recognised re) (hm : v.Target re m)
    (hb : v.buffer = u ++ (s ++ w)) (hu : utf8Len u = m.1) (hs : m.1 + utf8Len s = m.2)
    (hsplit : re.findIter v.buffer = pre ++ m :: post) (hadvances : Advances re r u s w)
    (hothers : re.findIter (u ++ (r ++ w)) = pre ++ post.map (shift m r)) :
    v.Sound re r ∧ v.LeavesOthers re r := by
  refine ⟨⟨hrec, fun m' u' s' w' hm' hb' hu' hs' => ?_⟩,
    fun m' pre' post' u' s' w' hm' hsplit' hb' hu' hs' => ?_⟩
  · obtain rfl := target_unique hm hm'
    obtain ⟨rfl, rfl, rfl⟩ := range_unique hb hu hs hb' hu' hs'
    exact hadvances
  · obtain rfl := target_unique hm hm'
    obtain ⟨rfl, rfl, rfl⟩ := range_unique hb hu hs hb' hu' hs'
    have hord := re.ordered v.buffer
    rw [hsplit] at hord
    obtain ⟨-, hpost, hpre⟩ := List.pairwise_append.mp hord
    have hnotpre : m ∉ pre := fun hin =>
      absurd (hpre m hin m List.mem_cons_self).1 (lt_irrefl _)
    have hnotpost : m ∉ post := fun hin =>
      absurd ((List.pairwise_cons.mp hpost).1 m hin).1 (lt_irrefl _)
    obtain ⟨rfl, -, rfl⟩ := (List.append_cons_inj_of_notMem hnotpre hnotpost).mp
      (hsplit.symm.trans hsplit')
    exact hothers

lemma sound_of_nil (hal : v.already re = false) (hnil : re.findIter v.buffer = []) :
    v.Sound re r ∧ v.LeavesOthers re r := by
  have hnone (m : ℕ × ℕ) : ¬ v.Target re m := fun hm => by
    have hmem := mem_of_target hm
    rw [hnil] at hmem
    cases hmem
  refine ⟨⟨⟨fun h => ?_, fun h => ?_⟩, fun m _ _ _ hm => absurd hm (hnone m)⟩,
    fun m _ _ _ _ _ hm => absurd hm (hnone m)⟩
  · rw [hal] at h
    cases h
  · rw [hnil] at h
    cases h

lemma replacesEach_of_repeatable (hd : v.display = .text) (hq : query ≠ [])
    (hre : compileQuery rs query opts = .ok re)
    (h : Repeatable rs re query r opts v) :
    ReplacesEach rs re query r opts v := by
  generalize hms : re.findIter v.buffer = ms
  induction hlen : ms.length generalizing v ms with
  | zero =>
    obtain rfl := List.length_eq_zero_iff.mp hlen
    have hal : v.already re = false := by
      by_contra hal
      rw [Bool.not_eq_false] at hal
      have hmem := (h 0 v rfl).1.recognised.sound hal
      rw [hms] at hmem
      cases hmem
    obtain ⟨v', hrun, -⟩ := replaceCurrent_of_nil (r := r) hd hq hre hal hms
    rw [ReplacesEach, hms]
    exact ⟨v, v', rfl, hrun, .nil 0 _⟩
  | succ k ih =>
    obtain ⟨hsound, hothers⟩ := h 0 v rfl
    have hne : re.findIter v.buffer ≠ [] := by
      rw [hms]
      exact List.ne_nil_of_length_eq_add_one hlen
    obtain ⟨m, hm⟩ := exists_chosen (.inr hne)
    have htarget := target_of_chosen hsound.recognised hm
    obtain ⟨v₁, hrun, hd₁, u, s, w, hb, hu, hs, hb₁, -⟩ :=
      replacesTarget_of_sound hd hq hre hsound hm
    obtain ⟨pre, post, hsplit⟩ := List.append_of_mem (mem_of_target htarget)
    have hleft := hothers m pre post u s w htarget hsplit hb hu hs
    rw [← hb₁] at hleft
    have hnext (n : ℕ) : replaceTimes rs query r opts (n + 1) v =
        replaceTimes rs query r opts n v₁ := by
      rw [replaceTimes, hrun]
    have hrep₁ : Repeatable rs re query r opts v₁ :=
      fun n v' hn => h (n + 1) v' ((hnext n).trans hn)
    have hk : (re.findIter v₁.buffer).length = k := by
      have hcount := congrArg List.length hsplit
      rw [hms, hlen, List.length_append, List.length_cons] at hcount
      rw [hleft, List.length_append, List.length_map]
      omega
    obtain ⟨v', v'', htimes, hlast, hall⟩ := ih hd₁ hrep₁ _ rfl hk
    refine ⟨v', v'', ?_, hlast, ?_⟩
    · rw [hms, hlen, hnext, ← hk]
      exact htimes
    · have hord := re.ordered v.buffer
      rw [hsplit] at hord ⊢
      rw [hleft, hb₁] at hall
      rw [hb]
      obtain ⟨-, hmpost, hpre⟩ := List.pairwise_append.mp hord
      refine hall.of_replaced (by omega) hs (fun q hq => (hpre q hq m (List.mem_cons_self ..)).2)
        fun q hq => ⟨((List.pairwise_cons.mp hmpost).1 q hq).2, ?_⟩
      have hmem : q ∈ re.findIter v.buffer := by
        rw [hsplit]
        exact List.mem_append_right _ (List.mem_cons_of_mem _ hq)
      exact le_of_mem_findIter hmem

end TextViewer

/-! ### All at once -/

/-- A pair of CR and LF is made shorter, and nothing else is changed. -/
lemma normalizeLines_cases (t : Text) :
    (TextViewer.normalizeLines t = t ∧ ¬ ['\r', '\n'] <:+: t) ∨
      (TextViewer.normalizeLines t).length < t.length := by
  fun_induction TextViewer.normalizeLines t with
  | case1 t ih =>
    right
    rcases ih with ⟨heq, -⟩ | hlt
    · simp [heq]
    · simp only [List.length_cons]
      omega
  | case2 c t hnot ih =>
    rcases ih with ⟨heq, hinfix⟩ | hlt
    · refine .inl ⟨by rw [heq], fun h => ?_⟩
      rcases List.infix_cons_iff.mp h with hfront | h
      · obtain ⟨rest, hrest⟩ := hfront
        cases hrest
        exact hnot rest rfl rfl
      · exact hinfix h
    · right
      simpa using hlt
  | case3 =>
    left
    simp

lemma splitCommon_spec (t t' : Text) : t = (TextViewer.splitCommon t t').1 ++
    (TextViewer.splitCommon t t').2.1 ∧ t' = (TextViewer.splitCommon t t').1 ++
    (TextViewer.splitCommon t t').2.2 := by
  fun_induction TextViewer.splitCommon t t' with
  | case1 t c t' u x y heq ih =>
    rw [heq] at ih
    exact ⟨congrArg (c :: ·) ih.1, congrArg (c :: ·) ih.2⟩
  | case2 => exact ⟨rfl, rfl⟩
  | case3 => exact ⟨rfl, rfl⟩

/-- The two texts differ only between the common start and the common end. -/
lemma singleSpanDiff_spec (t t' : Text) : ∃ w,
    t = (TextViewer.singleSpanDiff t t').1 ++ ((TextViewer.singleSpanDiff t t').2.1 ++ w) ∧
    t' = (TextViewer.singleSpanDiff t t').1 ++ ((TextViewer.singleSpanDiff t t').2.2 ++ w) := by
  obtain ⟨ht, ht'⟩ := splitCommon_spec t t'
  obtain ⟨hx, hy⟩ := splitCommon_spec (TextViewer.splitCommon t t').2.1.reverse
    (TextViewer.splitCommon t t').2.2.reverse
  refine ⟨(TextViewer.splitCommon (TextViewer.splitCommon t t').2.1.reverse
    (TextViewer.splitCommon t t').2.2.reverse).1.reverse, ?_, ?_⟩
  · have hx' := congrArg List.reverse hx
    rw [List.reverse_reverse, List.reverse_append] at hx'
    exact ht.trans (congrArg (_ ++ ·) hx')
  · have hy' := congrArg List.reverse hy
    rw [List.reverse_reverse, List.reverse_append] at hy'
    exact ht'.trans (congrArg (_ ++ ·) hy')

/-- The difference of the texts is both a deletion and an insertion, and what is deleted keeps a
carriage return and a line feed apart. -/
def Displaced (t t' : Text) : Prop :=
  t ≠ t' ∧ (TextViewer.singleSpanDiff t t').2.2 ≠ [] ∧ ∃ w,
    t = (TextViewer.singleSpanDiff t t').1 ++ ((TextViewer.singleSpanDiff t t').2.1 ++ w) ∧
      Joined (TextViewer.singleSpanDiff t t').1 (TextViewer.singleSpanDiff t t').2.1 w

namespace TextViewer

variable {v v' : TextViewer} {rs : RegexCrate} {re : Regex} {query : Text} {opts : FindOptions}

/-- The difference is cut out and put in. -/
lemma replaceContent_cut (hedit : v.editing = true) {text u d i w : Text}
    (hne : v.buffer ≠ normalizeLines text) (hb : v.buffer = u ++ (d ++ w))
    (hdiff : singleSpanDiff v.buffer (normalizeLines text) = (u, d, i)) :
    v.replaceContent text = .ok { v with
      buffer := if i = [] then u ++ w
        else (u ++ w).take (landing u d w) ++ i ++ (u ++ w).drop (landing u d w)
      cursor := cursorAfterInsert (lineColAtChar v.buffer u.length) i } := by
  have hstart : lineColToChar v.buffer (lineColAtChar v.buffer u.length) = some u.length := by
    rw [hb]
    exact lineColToChar_self u (d ++ w)
  have hstop : lineColToChar v.buffer (lineColAtChar v.buffer (u.length + d.length)) =
      some (u.length + d.length) := by
    rw [hb, ← List.append_assoc, ← List.length_append]
    exact lineColToChar_self (u ++ d) w
  have hshorter : (if d = [] then v.buffer else
      v.buffer.take u.length ++ v.buffer.drop (u.length + d.length)) = u ++ w := by
    split
    · rw [hb, ‹d = []›, List.nil_append]
    · have hdrop : v.buffer.drop (u.length + d.length) = w := by
        rw [hb, ← List.append_assoc, ← List.length_append]
        exact List.drop_left
      rw [hdrop, hb, List.take_left]
  have hland : lineColToChar (u ++ w) (lineColAtChar v.buffer u.length) =
      some (landing u d w) := by
    rw [hb]
    exact lineColToChar_landing u d w
  rw [replaceContent, if_neg (by simp [hedit])]
  simp only [if_neg hne, hdiff, hstart, hstop, hshorter, hland]

/-- The new text is written, but for an insertion that lands behind the line feed. -/
lemma replaceContent_spec (hedit : v.editing = true) (text : Text) :
    ∃ v', v.replaceContent text = .ok v' ∧
      (¬ Displaced v.buffer (normalizeLines text) → v'.buffer = normalizeLines text) ∧
      (Displaced v.buffer (normalizeLines text) → ∃ u i w, u.getLast? = some '\r' ∧ i ≠ [] ∧
        normalizeLines text = u ++ (i ++ '\n' :: w) ∧ v'.buffer = u ++ ('\n' :: (i ++ w))) := by
  by_cases hsame : v.buffer = normalizeLines text
  · refine ⟨v, ?_, fun _ => hsame, fun h => absurd hsame h.1⟩
    rw [replaceContent, if_neg (by simp [hedit])]
    simp only [hsame, if_true]
  · obtain ⟨w, hb, hn⟩ := singleSpanDiff_spec v.buffer (normalizeLines text)
    have hdisplaced : Displaced v.buffer (normalizeLines text) ↔
        (singleSpanDiff v.buffer (normalizeLines text)).2.2 ≠ [] ∧
          Joined (singleSpanDiff v.buffer (normalizeLines text)).1
            (singleSpanDiff v.buffer (normalizeLines text)).2.1 w := by
      refine ⟨fun ⟨_, hne, w', hb', hj⟩ => ⟨hne, ?_⟩, fun ⟨hne, hj⟩ => ⟨hsame, hne, w, hb, hj⟩⟩
      have hw := List.append_cancel_left (List.append_cancel_left (hb.symm.trans hb'))
      rwa [hw]
    obtain ⟨u, d, i, hdiff⟩ :
        ∃ u d i, singleSpanDiff v.buffer (normalizeLines text) = (u, d, i) := ⟨_, _, _, rfl⟩
    rw [hdisplaced]
    rw [hdiff] at hb hn ⊢
    rw [replaceContent_cut hedit hsame hb hdiff]
    refine ⟨_, rfl, fun hnot => ?_, fun ⟨hi, hj⟩ => ?_⟩
    · by_cases hi : i = []
      · simp [hi, hn]
      · have hplace : landing u d w = u.length := if_neg fun hj => hnot ⟨hi, hj⟩
        simp [hi, hplace, hn]
    · obtain ⟨w, rfl⟩ := List.head?_eq_some_iff.mp hj.2.2
      have hplace : landing u d ('\n' :: w) = u.length + 1 := if_pos hj
      refine ⟨u, i, w, hj.1, hi, hn, ?_⟩
      have htake : u.take (u.length + 1) = u := List.take_of_length_le (Nat.le_succ _)
      have hdrop : u.drop (u.length + 1) = [] := List.drop_of_length_le (Nat.le_succ _)
      simp [hi, hplace, List.take_append, List.drop_append, htake, hdrop]

/-- A call of `replace_all` leaves the text with all matches replaced. -/
def ReplacesAll (rs : RegexCrate) (re : Regex) (v : TextViewer) (query r : Text)
    (opts : FindOptions) : Prop :=
  ∀ count v', v.replaceAll rs query r opts = .ok (count, v') →
    count = (re.findIter v.buffer).length ∧
      AllReplaced r 0 (re.findIter v.buffer) v.buffer v'.buffer

/-- The text with all matches replaced has no pair of CR and LF, and what changes is not put between
the two. -/
def Writable (re : Regex) (v : TextViewer) (r : Text) : Prop :=
  re.findIter v.buffer ≠ [] → ∀ out,
    AllReplaced r 0 (re.findIter v.buffer) v.buffer out →
    normalizeLines out = out ∧ ¬ Displaced v.buffer out

lemma allReplaced_out (re : Regex) (v : TextViewer) (r : Text) :
    AllReplaced r 0 (re.findIter v.buffer) v.buffer
      (replacedFrom v.buffer r 0 (re.findIter v.buffer)) :=
  allReplaced_replacedFrom (a := []) rfl (fun m hm => re.range _ m hm)
    (fun _ _ => Nat.zero_le _) (re.ordered _)

/-- What a call of `replace_all` does. -/
lemma replaceAll_spec (hd : v.display = .text) (hq : query ≠ [])
    (hre : compileQuery rs query opts = .ok re) :
    (re.findIter v.buffer = [] ∧ ∃ v', v.replaceAll rs query r opts = .ok (0, v') ∧
      v'.buffer = v.buffer) ∨
    (re.findIter v.buffer ≠ [] ∧ ∃ v' v'', ({ v with editing := true } : TextViewer).replaceContent
        (replacedFrom v.buffer r 0 (re.findIter v.buffer)) = .ok v' ∧
      v.replaceAll rs query r opts = .ok ((re.findIter v.buffer).length, v'') ∧
      v''.buffer = v'.buffer) := by
  have hshown : ({ v with editing := true } : TextViewer).displayedText = v.buffer := by
    simp only [displayedText, hd]
  have hcollect : collectMatches rs v.buffer query opts = .ok (re.findIter v.buffer) := by
    rw [collectMatches, if_neg hq, hre]
  rw [replaceAll, if_neg (by simp [hd]), if_neg hq]
  simp only [hshown, hcollect]
  cases hms : re.findIter v.buffer with
  | nil => exact .inl ⟨rfl, _, rfl, rfl⟩
  | cons m ms =>
    obtain ⟨v', hcontent, -⟩ := replaceContent_spec (v := { v with editing := true }) rfl
      (replacedFrom v.buffer r 0 (m :: ms))
    exact .inr ⟨by simp, v', v'.clearFind, hcontent, by simp only [hcontent], rfl⟩

lemma replacesAll_iff (hd : v.display = .text) (hq : query ≠ [])
    (hre : compileQuery rs query opts = .ok re) :
    ReplacesAll rs re v query r opts ↔ v.Writable re r := by
  have hout := allReplaced_out re v r
  rcases replaceAll_spec (r := r) hd hq hre with
    ⟨hnil, v', hrun, hbuffer⟩ | ⟨hne, v', v'', hcontent, hrun, hbuffer⟩
  · refine ⟨fun _ hne => absurd hnil hne, fun _ count w hw => ?_⟩
    rw [hrun] at hw
    obtain ⟨rfl, rfl⟩ := Prod.mk.inj (Except.ok.inj hw)
    rw [hnil, hbuffer]
    exact ⟨rfl, .nil 0 _⟩
  · obtain ⟨v₁, hcontent', hkept, hmoved⟩ := replaceContent_spec
      (v := { v with editing := true }) rfl
      (replacedFrom v.buffer r 0 (re.findIter v.buffer))
    obtain rfl : v' = v₁ := Except.ok.inj (hcontent.symm.trans hcontent')
    generalize hgen : replacedFrom v.buffer r 0 (re.findIter v.buffer) = out at *
    constructor
    · intro h _ out' hout'
      obtain rfl := hout.unique hout'
      have hall := (h _ _ hrun).2
      have hbuf : v'.buffer = out := hbuffer ▸ hall.unique hout
      by_cases hdis : Displaced v.buffer (normalizeLines out)
      · exfalso
        obtain ⟨u, i, w, hu, hi, hnorm, hmoved⟩ := hmoved hdis
        have hlen : (normalizeLines out).length = out.length := by
          rw [hnorm, ← hbuf, hmoved]
          simp only [List.length_append, List.length_cons]
          omega
        rcases normalizeLines_cases out with ⟨heq, hinfix⟩ | hlt
        · have hmove : u ++ (i ++ '\n' :: w) = u ++ ('\n' :: (i ++ w)) := by
            rw [← hnorm, heq, ← hbuf, hmoved]
          obtain ⟨c, i, rfl⟩ := List.exists_cons_of_ne_nil hi
          have hhead := List.append_cancel_left hmove
          rw [List.cons_append] at hhead
          obtain ⟨rfl, -⟩ := List.cons.inj hhead
          obtain ⟨u, rfl⟩ := List.getLast?_eq_some_iff.mp hu
          refine hinfix ⟨u, i ++ '\n' :: w, ?_⟩
          rw [← heq, hnorm]
          simp
        · omega
      · have hnorm := (hkept hdis).symm.trans hbuf
        exact ⟨hnorm, hnorm ▸ hdis⟩
    · intro h count w hw
      obtain ⟨hnorm, hdis⟩ := h hne out hout
      rw [hrun] at hw
      obtain ⟨rfl, rfl⟩ := Prod.mk.inj (Except.ok.inj hw)
      refine ⟨rfl, ?_⟩
      rw [hbuffer, hkept (by rw [hnorm]; exact hdis), hnorm]
      exact hout

/-- Replacing one match and going on is right exactly where the selection is recognised, the
replacement is not put between a carriage return and a line feed, and the next match is the same
from the old end of the match and from the end of the replacement. Repeating it is right where this
holds all along and the other matches are left, and replacing all exactly where the text has no
pair of CR and LF. -/
theorem replaces_iff (hd : v.display = .text) (hq : query ≠ [])
    (hre : compileQuery rs query opts = .ok re) (r : Text) :
    (ReplacesTarget rs re v query r opts ↔ v.Sound re r) ∧
      (Repeatable rs re query r opts v →
        ReplacesEach rs re query r opts v) ∧
      (ReplacesAll rs re v query r opts ↔ v.Writable re r) :=
  ⟨replacesTarget_iff hd hq hre, replacesEach_of_repeatable hd hq hre, replacesAll_iff hd hq hre⟩

end TextViewer

/-! ### A single character -/

/-- Where a character stands behind a byte. -/
def charMatches (c : Char) : ℕ → Text → List (ℕ × ℕ)
  | _, [] => []
  | n, d :: t =>
    if d = c then (n, n + d.utf8Size) :: charMatches c (n + d.utf8Size) t
    else charMatches c (n + d.utf8Size) t

lemma range_charMatches {c : Char} {a : Text} (hlen : utf8Len a = n)
    (hm : m ∈ charMatches c n t) :
    ∃ u s w, a ++ t = u ++ s ++ w ∧ utf8Len u = m.1 ∧ m.1 + utf8Len s = m.2 := by
  induction t generalizing n a with
  | nil => cases hm
  | cons d t ih =>
    have hlen' : utf8Len (a ++ [d]) = n + d.utf8Size := by
      rw [String.utf8Len_append, hlen]
      simp [String.utf8Len]
    have hassoc : a ++ d :: t = a ++ [d] ++ t := by simp
    have hrest (hin : m ∈ charMatches c (n + d.utf8Size) t) :=
      hassoc ▸ ih hlen' hin
    rw [charMatches] at hm
    split at hm
    · rcases List.mem_cons.mp hm with rfl | hin
      · exact ⟨a, [d], t, hassoc, hlen, by simp [String.utf8Len]⟩
      · exact hrest hin
    · exact hrest hm

lemma le_of_mem_charMatches {c : Char} (hm : m ∈ charMatches c n t) : n ≤ m.1 := by
  induction t generalizing n with
  | nil => cases hm
  | cons d t ih =>
    rw [charMatches] at hm
    split at hm
    · rcases List.mem_cons.mp hm with rfl | hin
      · exact le_rfl
      · exact (Nat.le_add_right ..).trans (ih hin)
    · exact (Nat.le_add_right ..).trans (ih hm)

lemma ordered_charMatches (c : Char) (n : ℕ) (t : Text) : Ordered (charMatches c n t) := by
  induction t generalizing n with
  | nil => exact .nil
  | cons d t ih =>
    rw [charMatches]
    split
    · refine List.pairwise_cons.mpr ⟨fun m hm => ?_, ih _⟩
      have hle := le_of_mem_charMatches hm
      have hpos := Char.utf8Size_pos d
      simp only
      omega
    · exact ih _

/-- The expression that is one character without cases. -/
def charRegex (c : Char) : Regex where
  findIter := charMatches c 0
  isMatch t := !(charMatches c 0 t).isEmpty
  range _ _ hm := range_charMatches (a := []) rfl hm
  ordered := ordered_charMatches c 0
  isMatch_iff t := by simp

/-- The crate, for the queries of one digit. -/
def digitCrate : RegexCrate where
  build query _ :=
    match query with
    | [c] => .ok (charRegex c)
    | _ => .error .invalidRegex
  escape query := query

/-- A viewer with a text and nothing selected. -/
def opened (buffer : Text) : TextViewer where
  buffer := buffer
  display := .text
  dump := []
  editing := false
  cursor := (0, 0)
  findAnchor := 0
  findCursor := 0
  findMatchIndex := 0
  findMatchCount := 0
  findGen := 0
  edits := []

namespace TextViewer

lemma target_first : (opened ['1', '1', '1']).Target (charRegex '1') (0, 1) := by
  refine .inr ⟨by decide, by decide, .inl ⟨le_rfl, fun m _ _ => Nat.zero_le _⟩⟩

/-- Of three ones the first is deleted, and then the third is selected. -/
theorem not_replaces : ¬ ∀ (rs : RegexCrate) (re : Regex) (v : TextViewer)
    (query r : Text) (opts : FindOptions), v.display = .text → query ≠ [] →
    compileQuery rs query opts = .ok re → ReplacesTarget rs re v query r opts := by
  intro h
  have hreplaces := h digitCrate (charRegex '1') (opened ['1', '1', '1']) ['1'] [] ⟨false, false⟩
    rfl (by simp) rfl
  have hadvances := ((replacesTarget_iff rfl (by simp) rfl).mp hreplaces).advances (0, 1) [] ['1']
    ['1', '1'] target_first rfl rfl rfl
  rcases hadvances.between with hnone | hall
  · exact hnone (0, 1) (by decide) (by decide)
  · exact absurd (hall (1, 2) (by decide)) (by decide)

/-- Of two ones each is replaced. -/
theorem replaces_iff_two :
    ReplacesTarget digitCrate (charRegex '1') (opened ['1', '0', '1']) ['1'] ['2'] ⟨false, false⟩ ∧
      ReplacesEach digitCrate (charRegex '1') ['1'] ['2'] ⟨false, false⟩
        (opened ['1', '0', '1']) ∧
      ReplacesAll digitCrate (charRegex '1') (opened ['1', '0', '1']) ['1'] ['2']
        ⟨false, false⟩ := by
  obtain ⟨htarget, heach, hall⟩ :=
    @replaces_iff (opened ['1', '0', '1']) digitCrate (charRegex '1') ['1'] ⟨false, false⟩ rfl
      (by simp) rfl ['2']
  have hrep : Repeatable digitCrate (charRegex '1') ['1'] ['2'] ⟨false, false⟩
      (opened ['1', '0', '1']) := by
    intro n v' hn
    rcases n with _ | _ | _ | n
    · cases hn
      have hsplit : (charRegex '1').findIter ['1', '0', '1'] = [] ++ (0, 1) :: [(2, 3)] := rfl
      refine sound_of_target (u := []) (s := ['1']) (w := ['0', '1']) ⟨by decide, by decide⟩ ?_ rfl
        rfl rfl hsplit ⟨.inr (by decide), .inl ?_⟩ rfl
      · exact .inr ⟨by decide, by decide, .inl ⟨le_rfl, fun m _ _ => Nat.zero_le _⟩⟩
      · decide
    · cases hn
      have hsplit : (charRegex '1').findIter ['2', '0', '1'] = [] ++ (2, 3) :: [] := rfl
      refine sound_of_target (u := ['2', '0']) (s := ['1']) (w := []) ⟨by decide, by decide⟩ ?_ rfl
        rfl rfl hsplit ⟨.inr (by decide), .inl ?_⟩ rfl
      · exact .inl ⟨by decide, rfl⟩
      · decide
    · cases hn
      exact sound_of_nil rfl rfl
    · cases hn
  refine ⟨htarget.mpr (hrep 0 _ rfl).1, heach hrep, hall.mpr fun _ out hout => ?_⟩
  obtain rfl := hout.unique (allReplaced_out _ _ _)
  exact ⟨rfl, fun ⟨_, _, _, _, hcr, _⟩ => absurd hcr (by decide)⟩

end TextViewer

end Orchid.Viewer
