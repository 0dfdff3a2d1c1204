import Mathlib.Data.List.Nodup
import Orchid.Viewer.FindReplace

/-!
# Replacing matches

When replacing the current match replaces just that and goes on behind what was put in its place,
and when replacing all of them gives the text with all of them replaced.
-/

namespace Orchid.Viewer

open Lib

open String (utf8Len)

/-! ### Positions -/

lemma byteToChar_append (u w : Text) : byteToChar (u ++ w) (utf8Len u) = u.length := by
  induction u with
  | nil =>
    cases w with
    | nil => rfl
    | cons c w => simp [byteToChar, Nat.not_le.mpr (Char.utf8Size_pos c)]
  | cons c u ih =>
    rw [List.cons_append, byteToChar, String.utf8Len_cons, if_pos (Nat.le_add_left ..),
      Nat.add_sub_cancel, ih, List.length_cons]

/-- What is cut out lies between a carriage return and a line feed, which it kept apart. -/
def Joined (u s w : Text) : Prop :=
  u.getLast? = some '\r' ∧ (s ++ w).head? ≠ some '\n' ∧ w.head? = some '\n'

instance (u s w : Text) : Decidable (Joined u s w) := inferInstanceAs (Decidable (_ ∧ _ ∧ _))

lemma lineColAtChar_append (u w : Text) :
    lineColAtChar (u ++ w) u.length = lineCol endsLine (u ++ w) u.length := by
  rw [lineColAtChar, min_eq_left]
  rw [List.length_append]
  exact Nat.le_add_right ..

lemma endsLine_of_ne {c : Char} (h : c ≠ '\r') (x y : Option Char) :
    endsLine c x = endsLine c y := by
  simp only [endsLine, beq_eq_false_iff_ne.mpr h, Bool.false_and]

lemma endsLine_cr (x : Option Char) : endsLine '\r' x = (x != some '\n') := by
  simp [endsLine]

lemma lineColToChar_cut {u s w : Text} (h : ¬ Joined u s w) :
    lineColToChar (u ++ w) (lineColAtChar (u ++ (s ++ w)) u.length) = some u.length := by
  rw [lineColAtChar_append]
  refine indexAt_lineCol (fun c hc hends => ?_) fun c _ hstrip => ?_
  · by_cases hcr : c = '\r'
    · subst hcr
      by_contra hw
      refine h ⟨hc, fun hnl => ?_, ?_⟩
      · rw [hnl] at hends
        exact absurd hends (by decide)
      · by_contra hne
        exact hw (by simp [endsLine, hne])
    · rw [endsLine_of_ne hcr _ (s ++ w).head?]
      exact hends
  · rw [beq_iff_eq] at hstrip
    subst hstrip
    rfl

lemma lineColToChar_self (u w : Text) :
    lineColToChar (u ++ w) (lineColAtChar (u ++ w) u.length) = some u.length :=
  lineColToChar_cut (s := []) fun h => h.2.1 h.2.2

/-- The line of the carriage return goes on, and the position moves behind the line feed. -/
lemma lineColToChar_joined {u s w : Text} (h : Joined u s w) :
    lineColToChar (u ++ w) (lineColAtChar (u ++ (s ++ w)) u.length) = some (u.length + 1) := by
  obtain ⟨hu, hs, hw⟩ := h
  obtain ⟨u, rfl⟩ := List.getLast?_eq_some_iff.mp hu
  obtain ⟨w, rfl⟩ := List.head?_eq_some_iff.mp hw
  rw [lineColAtChar_append]
  have hends : endsLine '\r' (s ++ '\n' :: w).head? = true := by
    rw [endsLine_cr]
    exact bne_iff_ne.mpr hs
  have hindex : lineColToChar (u ++ '\r' :: '\n' :: w)
      (lineCol endsLine (u ++ '\r' :: (s ++ '\n' :: w)) (u.length + 1)) = some (u.length + 2) :=
    indexAt_lineCol_of_joined hends (by decide) rfl
  simpa using hindex

/-! ### Picking a match -/

/-- The first match from a position on, or the first one at all if there is none. -/
def NextAfter (ms : List (ℕ × ℕ)) (p : ℕ) (m : ℕ × ℕ) : Prop :=
  m ∈ ms ∧ ((p ≤ m.1 ∧ ∀ m' ∈ ms, p ≤ m'.1 → m.1 ≤ m'.1) ∨
    ∀ m' ∈ ms, m'.1 < p ∧ m.1 ≤ m'.1)

/-- The order of matches. -/
abbrev Ordered (ms : List (ℕ × ℕ)) : Prop := ms.Pairwise fun m m' => m.1 < m'.1 ∧ m.2 ≤ m'.1

lemma eq_of_start_eq {ms : List (ℕ × ℕ)} (h : Ordered ms) {m m' : ℕ × ℕ} (hm : m ∈ ms)
    (hm' : m' ∈ ms) (heq : m.1 = m'.1) : m = m' := by
  have hnodup : (ms.map Prod.fst).Nodup := List.pairwise_map.mpr (h.imp fun h => h.1.ne)
  exact List.inj_on_of_nodup_map hnodup hm hm' heq

lemma le_of_start_lt {ms : List (ℕ × ℕ)} (h : Ordered ms) {m m' : ℕ × ℕ} (hm : m ∈ ms)
    (hm' : m' ∈ ms) (hlt : m.1 < m'.1) : m.2 ≤ m'.1 := by
  induction ms with
  | nil => cases hm
  | cons a ms ih =>
    obtain ⟨hhead, htail⟩ := List.pairwise_cons.mp h
    rcases List.mem_cons.mp hm with ha | hin <;> rcases List.mem_cons.mp hm' with ha' | hin'
    · rw [ha, ha'] at hlt
      exact absurd hlt (lt_irrefl _)
    · exact ha ▸ (hhead m' hin').2
    · exact absurd hlt (ha' ▸ (hhead m hin).1).not_gt
    · exact ih htail hin hin'

lemma eq_singleton_of_forall {ms : List (ℕ × ℕ)} (h : Ordered ms) {m : ℕ × ℕ} (hm : m ∈ ms)
    (hall : ∀ m' ∈ ms, m' = m) : ms = [m] := by
  cases ms with
  | nil => cases hm
  | cons a ms =>
    cases ms with
    | nil => rw [hall a (List.mem_cons_self ..)]
    | cons b ms =>
      have hlt := ((List.pairwise_cons.mp h).1 b (List.mem_cons_self ..)).1
      rw [hall a (by simp), hall b (by simp)] at hlt
      exact absurd hlt (lt_irrefl _)

lemma nextAfter_unique {ms : List (ℕ × ℕ)} (h : Ordered ms) {p : ℕ} {m m' : ℕ × ℕ}
    (hm : NextAfter ms p m) (hm' : NextAfter ms p m') : m = m' := by
  refine eq_of_start_eq h hm.1 hm'.1 ?_
  rcases hm.2 with ⟨hp, hle⟩ | hall <;> rcases hm'.2 with ⟨hp', hle'⟩ | hall'
  · exact le_antisymm (hle m' hm'.1 hp') (hle' m hm.1 hp)
  · exact absurd hp (Nat.not_le.mpr (hall' m hm.1).1)
  · exact absurd hp' (Nat.not_le.mpr (hall m' hm'.1).1)
  · exact le_antisymm (hall m' hm'.1).2 (hall' m hm.1).2

lemma nextAfter_of_pickMatch {ms : List (ℕ × ℕ)} (h : Ordered ms) {lo hi : ℕ} {m : ℕ × ℕ}
    (hm : pickMatch ms lo hi true = some m) : NextAfter ms hi m := by
  rw [pickMatch, if_pos rfl, Option.or_eq_some_iff] at hm
  rcases hm with hfind | ⟨hnone, hhead⟩
  · obtain ⟨hp, as, bs, rfl, hbefore⟩ := List.find?_eq_some_iff_append.mp hfind
    refine ⟨by simp, .inl ⟨of_decide_eq_true hp, fun m' hm' hp' => ?_⟩⟩
    rcases List.mem_append.mp hm' with hm' | hm'
    · have := hbefore m' hm'
      simp at this
      omega
    · rcases List.mem_cons.mp hm' with rfl | hm'
      · exact le_rfl
      · have := (List.pairwise_cons.mp (List.pairwise_append.mp h).2.1).1 m' hm'
        omega
  · obtain ⟨ms, rfl⟩ := List.head?_eq_some_iff.mp hhead
    rw [List.find?_eq_none] at hnone
    refine ⟨by simp, .inr fun m' hm' => ⟨by simpa using hnone m' hm', ?_⟩⟩
    rcases List.mem_cons.mp hm' with rfl | hm'
    · exact le_rfl
    · exact ((List.pairwise_cons.mp h).1 m' hm').1.le

lemma exists_pickMatch {ms : List (ℕ × ℕ)} (h : ms ≠ []) (lo hi : ℕ) :
    ∃ m, pickMatch ms lo hi true = some m := by
  obtain ⟨m, ms, rfl⟩ := List.exists_cons_of_ne_nil h
  rw [pickMatch, if_pos rfl]
  cases (m :: ms).find? fun m => decide (hi ≤ m.1) with
  | none => exact ⟨m, rfl⟩
  | some m' => exact ⟨m', rfl⟩

lemma between_of_nextAfter {ms : List (ℕ × ℕ)} {p q : ℕ} {m : ℕ × ℕ}
    (hp : NextAfter ms p m) (hq : NextAfter ms q m) :
    (∀ m' ∈ ms, ¬ (p ≤ m'.1 ∧ m'.1 < q)) ∨ ∀ m' ∈ ms, p ≤ m'.1 ∧ m'.1 < q := by
  by_contra hmixed
  rw [not_or] at hmixed
  obtain ⟨hsome, hnotall⟩ := hmixed
  push Not at hsome hnotall
  obtain ⟨m₁, hm₁, hle₁, hlt₁⟩ := hsome
  obtain ⟨m₂, hm₂, hout⟩ := hnotall
  rcases hp.2 with ⟨hpm, hmin⟩ | hall
  · have hmq := (hmin m₁ hm₁ hle₁).trans_lt hlt₁
    rcases hq.2 with ⟨hqm, -⟩ | hall
    · exact absurd hqm (Nat.not_le.mpr hmq)
    · have := hall m₂ hm₂
      have := hout
      omega
  · exact absurd hle₁ (Nat.not_le.mpr (hall m₁ hm₁).1)

/-- Two positions have the same next match exactly if none or all of the matches start between
them. -/
lemma nextAfter_iff {ms : List (ℕ × ℕ)} {p q : ℕ} {m : ℕ × ℕ} (hm : NextAfter ms p m) :
    NextAfter ms q m ↔ (∀ m' ∈ ms, ¬ (min p q ≤ m'.1 ∧ m'.1 < max p q)) ∨
      ∀ m' ∈ ms, min p q ≤ m'.1 ∧ m'.1 < max p q := by
  constructor
  · intro hq
    rcases le_total p q with hpq | hqp
    · rw [min_eq_left hpq, max_eq_right hpq]
      exact between_of_nextAfter hm hq
    · rw [min_eq_right hqp, max_eq_left hqp]
      exact between_of_nextAfter hq hm
  · rintro (hnone | hall)
    · refine ⟨hm.1, ?_⟩
      have hself := hnone m hm.1
      rcases hm.2 with ⟨hp, hmin⟩ | hbefore
      · refine .inl ⟨by omega, fun m' hm' hq => hmin m' hm' ?_⟩
        have := hnone m' hm'
        omega
      · refine .inr fun m' hm' => ⟨?_, (hbefore m' hm').2⟩
        have := hnone m' hm'
        have := hbefore m' hm'
        omega
    · refine ⟨hm.1, ?_⟩
      have hself := hall m hm.1
      rcases hm.2 with ⟨hp, hmin⟩ | hbefore
      · refine .inr fun m' hm' => ?_
        have := hall m' hm'
        have := hmin m' hm'
        omega
      · refine .inl ⟨?_, fun m' hm' _ => (hbefore m' hm').2⟩
        have := hbefore m hm.1
        omega

/-! ### The steps of a replacement -/

/-- The changes that replace a part behind another when the insertion lands at a place. -/
def changes (u s r : Text) (place : ℕ) : List Edit :=
  (if s = [] then [] else [.delete u.length (u.length + s.length)]) ++
    if r = [] then [] else [.insert place r]

/-- Where the insertion lands once the part is cut out. -/
def landing (u s w : Text) : ℕ := if Joined u s w then u.length + 1 else u.length

lemma lineColToChar_landing (u s w : Text) :
    lineColToChar (u ++ w) (lineColAtChar (u ++ (s ++ w)) u.length) = some (landing u s w) := by
  unfold landing
  split
  · exact lineColToChar_joined ‹_›
  · exact lineColToChar_cut ‹_›

/-! ### Edits where positions were -/

namespace TextBuffer

variable {t t' u s w : Text} {c : Char} {p : ℕ × ℕ}

lemma treeSitterPoint_isSome : (treeSitterPoint t p).isSome ↔
    ∃ l, line t p.1 = some l ∧ p.2 ≤ l.length := by
  rw [treeSitterPoint]
  cases line t p.1 with
  | none => simp
  | some l =>
    by_cases hlt : l.length < p.2
    · simp [hlt]
    · simp [hlt, Nat.le_of_not_lt hlt]

lemma exists_line_zero (t : Text) : ∃ l, line t 0 = some l := by
  induction t with
  | nil => exact ⟨[], rfl⟩
  | cons c t ih =>
    obtain ⟨l, hl⟩ := ih
    by_cases hends : endsLine c t.head? = true
    · exact ⟨_, by rw [line, if_pos hends]⟩
    · exact ⟨c :: l, by rw [line, if_neg hends, hl, Option.map_some]⟩

lemma treeSitterPoint_zero (t : Text) : (treeSitterPoint t (0, 0)).isSome := by
  obtain ⟨l, hl⟩ := exists_line_zero t
  exact treeSitterPoint_isSome.mpr ⟨l, hl, Nat.zero_le _⟩

/-- A character in front of two texts that it ends a line before, or before neither. -/
lemma treeSitterPoint_cons {i : ℕ} (h : (treeSitterPoint t' (lineCol endsLine t i)).isSome)
    (hends : endsLine c t.head? = endsLine c t'.head?) :
    (treeSitterPoint (c :: t') (lineCol endsLine (c :: t) (i + 1))).isSome := by
  obtain ⟨l, hl, hle⟩ := treeSitterPoint_isSome.mp h
  rw [treeSitterPoint_isSome]
  by_cases hc : endsLine c t.head? = true
  · rw [lineCol_cons i hc]
    rw [hc] at hends
    exact ⟨l, by rw [line, if_pos hends.symm, hl], hle⟩
  · rw [Bool.not_eq_true] at hc
    rw [hc] at hends
    by_cases hline : (lineCol endsLine t i).1 = 0
    · rw [lineCol_cons_of_first i hc hline]
      rw [hline] at hl
      refine ⟨c :: l, ?_, Nat.succ_le_succ hle⟩
      rw [line, if_neg (by simp [← hends]), hl, Option.map_some]
    · rw [lineCol_cons_of_later i hc hline]
      obtain ⟨n, hn⟩ := Nat.exists_eq_succ_of_ne_zero hline
      rw [hn] at hl ⊢
      exact ⟨l, by rw [line, if_neg (by simp [← hends]), hl], hle⟩

/-- The parser has a point where a part is cut out, also if the lines around it were joined. -/
lemma treeSitterPoint_cut (u s w : Text) :
    (treeSitterPoint (u ++ w) (lineColAtChar (u ++ (s ++ w)) u.length)).isSome := by
  rw [lineColAtChar_append]
  induction u with
  | nil => simpa only [List.nil_append, List.length_nil, lineCol] using treeSitterPoint_zero w
  | cons c u ih =>
    cases u with
    | cons d u => exact treeSitterPoint_cons ih rfl
    | nil =>
      by_cases heq : endsLine c (s ++ w).head? = endsLine c w.head?
      · exact treeSitterPoint_cons ih heq
      -- only a carriage return looks at what is behind it
      obtain rfl : c = '\r' := not_not.mp fun hne => heq (endsLine_of_ne hne _ _)
      rw [treeSitterPoint_isSome]
      rw [endsLine_cr, endsLine_cr] at heq
      simp only [List.cons_append, List.nil_append, List.length_singleton]
      by_cases hw : w.head? = some '\n'
      · obtain ⟨w, rfl⟩ := List.head?_eq_some_iff.mp hw
        have hs : endsLine '\r' (s ++ '\n' :: w).head? = true := by
          rw [endsLine_cr]
          by_contra hs
          exact heq (by simp_all)
        obtain ⟨l, hl⟩ := exists_line_zero w
        rw [lineCol_cons 0 hs, lineCol]
        exact ⟨l, by simpa [line, endsLine] using hl, Nat.zero_le _⟩
      · have hs : endsLine '\r' (s ++ w).head? = false := by
          rw [endsLine_cr]
          by_contra hs
          rw [Bool.not_eq_false] at hs
          exact heq (hs.trans (bne_iff_ne.mpr hw).symm)
        have hends : endsLine '\r' w.head? = true := by
          rw [endsLine_cr]
          simpa using hw
        rw [lineCol_cons_of_first 0 hs (by simp [lineCol])]
        exact ⟨['\r'], by rw [line, if_pos hends]; rfl, by simp [lineCol]⟩

end TextBuffer

/-- An insertion is possible where a part is cut out. -/
lemma exists_insertEdit (u s w text : Text) : ∃ edit,
    insertEdit (u ++ w) (lineColAtChar (u ++ (s ++ w)) u.length) text = .ok edit := by
  obtain ⟨point, hpoint⟩ := Option.isSome_iff_exists.mp (TextBuffer.treeSitterPoint_cut u s w)
  rw [insertEdit, TextBuffer.byteIndex, lineColToChar_landing, hpoint]
  exact ⟨_, rfl⟩

/-- A part can be cut out. -/
lemma exists_deleteEdit (u s w : Text) : ∃ edit, deleteEdit (u ++ (s ++ w))
    (lineColAtChar (u ++ (s ++ w)) u.length) (lineColAtChar (u ++ (s ++ w)) (u ++ s).length) =
      .ok edit := by
  obtain ⟨start, hstart⟩ :=
    Option.isSome_iff_exists.mp (TextBuffer.treeSitterPoint_cut u [] (s ++ w))
  obtain ⟨stop, hstop⟩ := Option.isSome_iff_exists.mp (TextBuffer.treeSitterPoint_cut (u ++ s) [] w)
  have hend := lineColToChar_self (u ++ s) w
  rw [List.nil_append] at hstart hstop
  rw [List.append_assoc] at hstop hend
  rw [deleteEdit, TextBuffer.byteIndex, TextBuffer.byteIndex, lineColToChar_self, hend, hstart,
    hstop]
  exact ⟨_, rfl⟩

namespace TextBuffer

/-- The part that is cut out. -/
lemma textRange_cut (u s w : Text) : textRange (u ++ (s ++ w))
    (lineColAtChar (u ++ (s ++ w)) u.length) (lineColAtChar (u ++ (s ++ w)) (u ++ s).length) =
      .ok s := by
  have hend := lineColToChar_self (u ++ s) w
  rw [List.append_assoc] at hend
  rw [textRange, lineColToChar_self, hend]
  simp only [List.length_append, Nat.not_lt.mpr (Nat.le_add_right _ _), if_false]
  rw [← List.length_append, ← List.append_assoc, List.take_left, List.drop_left]

end TextBuffer

namespace TextViewer

variable {v v' : TextViewer} {u s w r : Text}

lemma delete_spec (hb : v.buffer = u ++ (s ++ w)) (hedit : v.editing = true) :
    v.delete (lineColAtChar v.buffer u.length) (lineColAtChar v.buffer (u ++ s).length) =
      .ok { v with
        buffer := u ++ w
        cursor := lineColAtChar v.buffer u.length
        edits := v.edits ++ [.delete u.length (u.length + s.length)] } := by
  have hi : lineColToChar v.buffer (lineColAtChar v.buffer u.length) = some u.length := by
    rw [hb]
    exact lineColToChar_self u (s ++ w)
  have hj : lineColToChar v.buffer (lineColAtChar v.buffer (u ++ s).length) =
      some (u ++ s).length := by
    rw [hb, ← List.append_assoc]
    exact lineColToChar_self (u ++ s) w
  obtain ⟨edit, hcheck⟩ := exists_deleteEdit u s w
  rw [← hb] at hcheck
  have hrange := TextBuffer.textRange_cut u s w
  rw [← hb] at hrange
  rw [delete, if_neg (by simp [hedit]), hcheck, hrange]
  simp only [hi, hj, bind, Except.bind]
  rw [if_neg (by simp)]
  have htake : v.buffer.take u.length = u := by simp [hb]
  have hdrop : v.buffer.drop (u ++ s).length = w := by
    rw [hb, ← List.append_assoc]
    exact List.drop_left
  rw [htake, hdrop, List.length_append]

lemma exists_insert {i : ℕ} (hb : v.buffer = u ++ w)
    (hcursor : v.cursor = lineColAtChar (u ++ (s ++ w)) u.length)
    (hi : lineColToChar v.buffer v.cursor = some i) (hedit : v.editing = true) (text : Text) :
    ∃ v', v.insert text = .ok v' ∧ v'.buffer = v.buffer.take i ++ text ++ v.buffer.drop i ∧
      v'.edits = v.edits ++ [.insert i text] ∧ v'.findAnchor = v.findAnchor ∧
      v'.findCursor = v.findCursor ∧ v'.display = v.display := by
  obtain ⟨edit, hcheck⟩ := exists_insertEdit u s w text
  rw [← hb, ← hcursor] at hcheck
  rw [insert, if_neg (by simp [hedit]), hcheck]
  simp only [hi, bind, Except.bind]
  exact ⟨_, rfl, rfl, rfl, rfl, rfl, rfl⟩

lemma lineColAtChar_ne (hs : s ≠ []) : lineColAtChar (u ++ (s ++ w)) u.length ≠
    lineColAtChar (u ++ (s ++ w)) (u ++ s).length := by
  intro heq
  have hi := lineColToChar_self u (s ++ w)
  rw [heq, ← List.append_assoc, lineColToChar_self (u ++ s) w, Option.some.injEq,
    List.length_append] at hi
  have := List.length_pos_iff.mpr hs
  omega

/-- What replacing the selection does. -/
lemma replaceSelection_spec (hb : v.buffer = u ++ (s ++ w)) (hlo : v.findAnchor = utf8Len u)
    (hhi : v.findCursor = utf8Len u + utf8Len s) (hedit : v.editing = true) :
    ∃ v', v.replaceSelection r = .ok v' ∧
      v'.edits = v.edits ++ changes u s r (landing u s w) ∧
      v'.findAnchor = v.findAnchor ∧ v'.findCursor = v.findCursor ∧ v'.display = v.display ∧
      (r = [] ∨ ¬ Joined u s w → v'.buffer = u ++ (r ++ w)) := by
  have hstart : v.cursorAtByte v.findAnchor = lineColAtChar v.buffer u.length := by
    rw [cursorAtByte, hlo, hb, byteToChar_append]
  have hstop : v.cursorAtByte v.findCursor = lineColAtChar v.buffer (u ++ s).length := by
    rw [cursorAtByte, hhi, ← String.utf8Len_append, hb, ← List.append_assoc, byteToChar_append]
  have hland : lineColToChar (u ++ w) (lineColAtChar v.buffer u.length) = some (landing u s w) := by
    rw [hb]
    exact lineColToChar_landing u s w
  have hplace (h : ¬ Joined u s w) : landing u s w = u.length := if_neg h
  rw [replaceSelection, hstart, hstop]
  by_cases hs : s = []
  · subst hs
    rw [List.append_nil, if_neg (not_not.mpr rfl)]
    rw [List.nil_append] at hb
    rw [← hb] at hland
    have hnot : ¬ Joined u [] w := fun h => h.2.1 h.2.2
    by_cases hr : r = []
    · subst hr
      exact ⟨v, by simp, by simp [changes], rfl, rfl, rfl, fun _ => hb⟩
    · obtain ⟨v', hv', hbuffer, hedits, hkept⟩ :=
        exists_insert (v := { v with cursor := lineColAtChar v.buffer u.length }) (s := []) hb
          (by rw [hb, List.nil_append]) hland hedit r
      refine ⟨v', by simp [hr, hv'], by simp [hedits, changes, hr], hkept.1, hkept.2.1, hkept.2.2,
        fun _ => ?_⟩
      rw [hbuffer, hplace hnot]
      simp [hb]
  · rw [if_pos (hb ▸ lineColAtChar_ne hs), delete_spec hb hedit]
    by_cases hr : r = []
    · subst hr
      exact ⟨_, rfl, by simp [changes, hs], rfl, rfl, rfl, fun _ => rfl⟩
    · obtain ⟨v', hv', hbuffer, hedits, hkept⟩ := exists_insert
        (v := { v with
          buffer := u ++ w
          cursor := lineColAtChar v.buffer u.length
          edits := v.edits ++ [.delete u.length (u.length + s.length)] }) rfl (by rw [hb])
        hland hedit r
      refine ⟨v', by simp [hr, hv'], by simp [hedits, changes, hr, hs], hkept.1, hkept.2.1,
        hkept.2.2, fun h => ?_⟩
      rw [hbuffer, hplace (h.resolve_left hr)]
      simp

variable {rs : RegexCrate} {re : Regex} {query : Text} {opts : FindOptions}

/-- What finding does in a text. -/
lemma find_spec (hd : v.display = .text) (hq : query ≠ [])
    (hre : compileQuery rs query opts = .ok re) :
    (re.findIter v.buffer = [] ∧ v.find rs query true opts = .ok (false, v.clearFind)) ∨
      ∃ m v', pickMatch (re.findIter v.buffer) v.findAnchor v.findCursor true = some m ∧
        v.find rs query true opts = .ok (true, v') ∧ v'.buffer = v.buffer ∧ v'.edits = v.edits ∧
        v'.findAnchor = m.1 ∧ v'.findCursor = m.2 ∧ v'.display = v.display ∧
        v'.editing = v.editing := by
  have hshown : v.displayedText = v.buffer := by rw [displayedText, hd]
  have hcollect : collectMatches rs v.displayedText query opts = .ok (re.findIter v.buffer) := by
    rw [hshown, collectMatches, if_neg hq, hre]
  rw [find, if_neg hq, hcollect]
  by_cases hms : re.findIter v.buffer = []
  · left
    rw [hms]
    exact ⟨rfl, rfl⟩
  · right
    obtain ⟨m, hm⟩ := exists_pickMatch hms v.findAnchor v.findCursor
    simp only [hm]
    exact ⟨m, _, rfl, rfl, rfl, rfl, rfl, rfl, rfl, rfl⟩

/-- The range that is replaced: the selection if it counts as a match, or else the next match. -/
def Chosen (re : Regex) (v : TextViewer) (m : ℕ × ℕ) : Prop :=
  (v.already re = true ∧ m = (v.findAnchor, v.findCursor)) ∨
    (v.already re = false ∧
      pickMatch (re.findIter v.buffer) v.findAnchor v.findCursor true = some m)

lemma already_iff (hd : v.display = .text) : v.already re = true ↔
    ∃ u s w, v.buffer = u ++ (s ++ w) ∧ utf8Len u = v.findAnchor ∧
      v.findAnchor + utf8Len s = v.findCursor ∧ s ≠ [] ∧ re.isMatch s = true := by
  have hshown : v.displayedText = v.buffer := by rw [displayedText, hd]
  constructor
  · intro h
    simp only [already, Bool.and_eq_true, Bool.not_eq_true', List.isEmpty_eq_false_iff,
      decide_eq_true_eq] at h
    obtain ⟨⟨hne, hmatch⟩, -⟩ := h
    cases hslice : sliceBytes v.displayedText v.findAnchor v.findCursor with
    | none => simp [selected, hslice] at hne
    | some s =>
      have hsel : v.selected = s := by simp [selected, hslice]
      rw [hsel] at hne hmatch
      obtain ⟨u, w, hb, hu, hs⟩ := sliceBytes_eq_some_iff.mp hslice
      exact ⟨u, s, w, by rw [← hshown, hb, List.append_assoc], hu, hs, hne, hmatch⟩
  · rintro ⟨u, s, w, hb, hu, hs, hne, hmatch⟩
    have hslice : sliceBytes v.displayedText v.findAnchor v.findCursor = some s :=
      sliceBytes_eq_some_iff.mpr ⟨u, w, by rw [hshown, hb, List.append_assoc], hu, hs⟩
    have hsel : v.selected = s := by simp [selected, hslice]
    have hlen : utf8Len s = v.findCursor - v.findAnchor := by omega
    simp [already, hsel, hne, hmatch, hlen]

lemma range_of_chosen (hd : v.display = .text) {m : ℕ × ℕ} (h : v.Chosen re m) :
    ∃ u s w, v.buffer = u ++ (s ++ w) ∧ utf8Len u = m.1 ∧ m.1 + utf8Len s = m.2 := by
  rcases h with ⟨hal, rfl⟩ | ⟨-, hpick⟩
  · obtain ⟨u, s, w, hb, hu, hs, -⟩ := (already_iff hd).mp hal
    exact ⟨u, s, w, hb, hu, hs⟩
  · have hmem := (nextAfter_of_pickMatch (re.ordered _) hpick).1
    obtain ⟨u, s, w, hb, hu, hs⟩ := re.range _ m hmem
    exact ⟨u, s, w, by rw [hb, List.append_assoc], hu, hs⟩

/-- What replacing the current match does to the part that is chosen. -/
lemma replaceCurrent_spec (hd : v.display = .text) (hq : query ≠ [])
    (hre : compileQuery rs query opts = .ok re) {m : ℕ × ℕ} (hm : v.Chosen re m)
    (hb : v.buffer = u ++ (s ++ w)) (hu : utf8Len u = m.1) (hs : m.1 + utf8Len s = m.2) :
    ∃ v', v.replaceCurrent rs query r opts = .ok (true, v') ∧
      v'.edits = v.edits ++ changes u s r (landing u s w) ∧ v'.display = .text ∧
      (r = [] ∨ ¬ Joined u s w → v'.buffer = u ++ (r ++ w)) ∧
      (re.findIter v'.buffer ≠ [] →
        NextAfter (re.findIter v'.buffer) m.2 (v'.findAnchor, v'.findCursor)) := by
  have hselect : ∃ v₁, (if ({ v with editing := true } : TextViewer).already re then
      Except.ok (true, { v with editing := true }) else
        ({ v with editing := true } : TextViewer).find rs query true opts) = .ok (true, v₁) ∧
      v₁.buffer = v.buffer ∧ v₁.edits = v.edits ∧ v₁.findAnchor = m.1 ∧ v₁.findCursor = m.2 ∧
      v₁.display = .text ∧ v₁.editing = true := by
    have hsame : ({ v with editing := true } : TextViewer).already re = v.already re := rfl
    rw [hsame]
    rcases hm with ⟨hal, rfl⟩ | ⟨hal, hpick⟩
    · exact ⟨{ v with editing := true }, by rw [if_pos hal], rfl, rfl, rfl, rfl, hd, rfl⟩
    · rw [if_neg (by simp [hal])]
      rcases find_spec (v := { v with editing := true }) hd hq hre with ⟨hnil, -⟩ | hfound
      · rw [show re.findIter v.buffer = [] from hnil] at hpick
        cases hpick
      · obtain ⟨m', v₁, hpick', hfind, hb₁, he₁, ha₁, hc₁, hd₁, hed₁⟩ := hfound
        obtain rfl : m' = m := Option.some.inj (hpick'.symm.trans hpick)
        exact ⟨v₁, hfind, hb₁, he₁, ha₁, hc₁, hd₁.trans hd, hed₁⟩
  obtain ⟨v₁, hsel, hb₁, he₁, ha₁, hc₁, hd₁, hed₁⟩ := hselect
  obtain ⟨v₂, hrep, he₂, ha₂, hc₂, hd₂, hbuf₂⟩ := replaceSelection_spec
    (r := r) (hb₁.trans hb) (ha₁.trans hu.symm)
    (by rw [hc₁, hu]; exact hs.symm) hed₁
  have hmain (found : Bool) (v₃ : TextViewer)
      (hfind : v₂.find rs query true opts = .ok (found, v₃)) :
      v.replaceCurrent rs query r opts = .ok (true, v₃) := by
    rw [replaceCurrent, if_neg (by simp [hd]), if_neg hq, hre]
    simp only [hsel, hrep, hfind]
  have hd₂' := hd₂.trans hd₁
  rcases find_spec hd₂' hq hre with ⟨hnil, hfind⟩ | hfound
  · refine ⟨v₂.clearFind, hmain _ _ hfind, he₂.trans (by rw [he₁]), hd₂', hbuf₂,
      fun hne => absurd hnil hne⟩
  · obtain ⟨m', v₃, hpick, hfind, hb₃, he₃, ha₃, hc₃, hd₃, -⟩ := hfound
    refine ⟨v₃, hmain _ _ hfind, by rw [he₃, he₂, he₁], hd₃.trans hd₂',
      fun h => hb₃.trans (hbuf₂ h), fun _ => ?_⟩
    rw [hb₃, ha₃, hc₃]
    rw [hc₂, hc₁] at hpick
    exact nextAfter_of_pickMatch (re.ordered _) hpick

/-- Without a match and a selection that counts as one, nothing is replaced. -/
lemma replaceCurrent_of_nil (hd : v.display = .text) (hq : query ≠ [])
    (hre : compileQuery rs query opts = .ok re) (hal : v.already re = false)
    (hnil : re.findIter v.buffer = []) : ∃ v', v.replaceCurrent rs query r opts =
      .ok (false, v') ∧ v'.buffer = v.buffer := by
  have hsame : ({ v with editing := true } : TextViewer).already re = v.already re := rfl
  rcases find_spec (v := { v with editing := true }) hd hq hre with ⟨-, hfind⟩ | ⟨m, -, hpick, -⟩
  · refine ⟨({ v with editing := true } : TextViewer).clearFind, ?_, rfl⟩
    rw [replaceCurrent, if_neg (by simp [hd]), if_neg hq, hre]
    simp only [hsame, hal, hfind]
    simp
  · rw [show re.findIter ({ v with editing := true } : TextViewer).buffer = [] from hnil] at hpick
    cases hpick

/-! ### Exactly one match -/

/-- The match to be replaced: the selection if it is one, or else the next one. -/
def Target (re : Regex) (v : TextViewer) (m : ℕ × ℕ) : Prop :=
  ((v.findAnchor, v.findCursor) ∈ re.findIter v.buffer ∧ m = (v.findAnchor, v.findCursor)) ∨
    ((v.findAnchor, v.findCursor) ∉ re.findIter v.buffer ∧
      NextAfter (re.findIter v.buffer) v.findCursor m)

/-- The match was replaced, and the next match behind what was put in its place is selected. -/
def ReplacedAt (re : Regex) (r : Text) (v v' : TextViewer) (m : ℕ × ℕ) : Prop :=
  ∃ u s w, v.buffer = u ++ (s ++ w) ∧ utf8Len u = m.1 ∧ m.1 + utf8Len s = m.2 ∧
    v'.buffer = u ++ (r ++ w) ∧
    v'.edits = v.edits ++ changes u s r u.length ∧
    (re.findIter v'.buffer ≠ [] → NextAfter (re.findIter v'.buffer) (m.1 + utf8Len r)
      (v'.findAnchor, v'.findCursor))

/-- A call that reports a replacement has made the one it should. -/
def ReplacesTarget (rs : RegexCrate) (re : Regex) (v : TextViewer) (query r : Text)
    (opts : FindOptions) : Prop :=
  ∀ v', v.replaceCurrent rs query r opts = .ok (true, v') →
    ∃ m, v.Target re m ∧ ReplacedAt re r v v' m

/-- The selection counts as a match, by itself, exactly if it is one; one that is not seen as a
match may still be the only one. -/
structure Recognised (re : Regex) (v : TextViewer) : Prop where
  sound : v.already re = true → (v.findAnchor, v.findCursor) ∈ re.findIter v.buffer
  complete : (v.findAnchor, v.findCursor) ∈ re.findIter v.buffer → v.findAnchor < v.findCursor →
    v.already re = true ∨ re.findIter v.buffer = [(v.findAnchor, v.findCursor)]

/-- What replacing a match needs: a replacement is not put between a carriage return and a line
feed, and none or all of the new matches start between the old end of the match and the end of the
replacement. -/
structure Advances (re : Regex) (r u s w : Text) : Prop where
  apart : r = [] ∨ ¬ Joined u s w
  between : let ms := re.findIter (u ++ (r ++ w))
    let old := utf8Len u + utf8Len s
    let new := utf8Len u + utf8Len r
    (∀ m ∈ ms, ¬ (min old new ≤ m.1 ∧ m.1 < max old new)) ∨
      ∀ m ∈ ms, min old new ≤ m.1 ∧ m.1 < max old new

/-- The condition for replacing one match. -/
structure Sound (re : Regex) (v : TextViewer) (r : Text) : Prop where
  recognised : v.Recognised re
  advances : ∀ m u s w, v.Target re m → v.buffer = u ++ (s ++ w) → utf8Len u = m.1 →
    m.1 + utf8Len s = m.2 → Advances re r u s w

lemma le_of_mem_findIter {t : Text} {m : ℕ × ℕ} (h : m ∈ re.findIter t) : m.1 ≤ m.2 := by
  obtain ⟨-, s, -, -, -, hs⟩ := re.range t m h
  omega

/-- A selection that is recognised leads to the right match. -/
lemma target_of_chosen (hr : v.Recognised re) {m : ℕ × ℕ} (hm : v.Chosen re m) :
    v.Target re m := by
  rcases hm with ⟨hal, rfl⟩ | ⟨hal, hpick⟩
  · exact .inl ⟨hr.sound hal, rfl⟩
  · have hnext := nextAfter_of_pickMatch (re.ordered _) hpick
    by_cases hmem : (v.findAnchor, v.findCursor) ∈ re.findIter v.buffer
    · refine .inl ⟨hmem, ?_⟩
      rcases (le_of_mem_findIter hmem).lt_or_eq with hlt | heq
      · rcases hr.complete hmem hlt with h | h
        · rw [hal] at h
          cases h
        · rw [h] at hnext
          exact List.mem_singleton.mp hnext.1
      · refine nextAfter_unique (re.ordered _) hnext ⟨hmem, .inl ⟨heq.ge, fun m' _ hle => ?_⟩⟩
        exact heq.le.trans hle
    · exact .inr ⟨hmem, hnext⟩

lemma target_unique {m m' : ℕ × ℕ} (hm : v.Target re m) (hm' : v.Target re m') : m = m' := by
  rcases hm with ⟨hin, rfl⟩ | ⟨hout, hnext⟩ <;> rcases hm' with ⟨hin', rfl⟩ | ⟨hout', hnext'⟩
  · rfl
  · exact absurd hin hout'
  · exact absurd hin' hout
  · exact nextAfter_unique (re.ordered _) hnext hnext'

lemma range_unique {t u s w u' s' w' : Text} {m : ℕ × ℕ} (h : t = u ++ (s ++ w))
    (hu : utf8Len u = m.1) (hs : m.1 + utf8Len s = m.2) (h' : t = u' ++ (s' ++ w'))
    (hu' : utf8Len u' = m.1) (hs' : m.1 + utf8Len s' = m.2) : u = u' ∧ s = s' ∧ w = w' := by
  have hcut := cutBytes_eq_some_iff.mpr ⟨h.trans (List.append_assoc ..).symm, hu, hs⟩
  have hcut' := cutBytes_eq_some_iff.mpr ⟨h'.trans (List.append_assoc ..).symm, hu', hs'⟩
  simpa using hcut.symm.trans hcut'

/-- Under the condition a call replaces the right match and goes on behind it. -/
lemma replacesTarget_of_sound (hd : v.display = .text) (hq : query ≠ [])
    (hre : compileQuery rs query opts = .ok re) (h : v.Sound re r) {m : ℕ × ℕ}
    (hm : v.Chosen re m) : ∃ v', v.replaceCurrent rs query r opts = .ok (true, v') ∧
      v'.display = .text ∧ ReplacedAt re r v v' m := by
  have htarget := target_of_chosen h.recognised hm
  obtain ⟨u, s, w, hb, hu, hs⟩ := range_of_chosen hd hm
  obtain ⟨hapart, hbetween⟩ := h.advances m u s w htarget hb hu hs
  obtain ⟨v', hrun, hedits, hd', hbuffer, hnext⟩ :=
    replaceCurrent_spec (r := r) hd hq hre hm hb hu hs
  have hbuffer := hbuffer hapart
  refine ⟨v', hrun, hd', u, s, w, hb, hu, hs, hbuffer, ?_, fun hne => ?_⟩
  · rcases hapart with rfl | hnot
    · rw [hedits]
      simp [changes]
    · rw [hedits, landing, if_neg hnot]
  · refine (nextAfter_iff (hnext hne)).mpr ?_
    rw [hbuffer, ← hs, ← hu]
    exact hbetween

lemma mem_of_target {m : ℕ × ℕ} (hm : v.Target re m) : m ∈ re.findIter v.buffer := by
  rcases hm with ⟨hin, rfl⟩ | ⟨-, hnext⟩
  · exact hin
  · exact hnext.1

lemma exists_chosen (h : v.already re = true ∨ re.findIter v.buffer ≠ []) :
    ∃ m, v.Chosen re m := by
  cases hal : v.already re
  · obtain ⟨m, hm⟩ := exists_pickMatch (h.resolve_left (by simp [hal])) v.findAnchor v.findCursor
    exact ⟨m, .inr ⟨hal, hm⟩⟩
  · exact ⟨_, .inl ⟨hal, rfl⟩⟩

lemma of_changes_eq {u' s' : Text} {p p' : ℕ}
    (h : changes u s r p = changes u' s' r p') :
    (s = [] ↔ s' = []) ∧ (s ≠ [] → u.length = u'.length ∧ s.length = s'.length) ∧
      (r ≠ [] → p = p') := by
  by_cases hs : s = [] <;> by_cases hs' : s' = [] <;> by_cases hr : r = [] <;>
    simp_all [changes] <;> omega

/-- The changes show which part was replaced, unless it is empty. -/
lemma eq_of_changes {u' s' w' : Text} {m m' : ℕ × ℕ} {p p' : ℕ} (hb : v.buffer = u ++ (s ++ w))
    (hu : utf8Len u = m.1) (hs : m.1 + utf8Len s = m.2) (hb' : v.buffer = u' ++ (s' ++ w'))
    (hu' : utf8Len u' = m'.1) (hs' : m'.1 + utf8Len s' = m'.2)
    (h : changes u s r p = changes u' s' r p') (hne : s ≠ []) : m = m' := by
  obtain ⟨hul, hsl⟩ := (of_changes_eq h).2.1 hne
  obtain ⟨rfl, hrest⟩ := List.append_inj (hb.symm.trans hb') hul
  obtain ⟨rfl, -⟩ := List.append_inj hrest hsl
  have hfst : m.1 = m'.1 := hu.symm.trans hu'
  exact Prod.ext hfst (by omega)

lemma recognised_of_replacesTarget (hd : v.display = .text) (hq : query ≠ [])
    (hre : compileQuery rs query opts = .ok re)
    (h : ReplacesTarget rs re v query r opts) : v.Recognised re where
  sound := by
    intro hal
    obtain ⟨u, s, w, hb, hu, hs, hne, -⟩ := (already_iff hd).mp hal
    obtain ⟨v', hrun, hedits, -⟩ := replaceCurrent_spec (r := r) hd hq hre
      (.inl ⟨hal, rfl⟩) hb hu hs
    obtain ⟨m, hm, u', s', w', hb', hu', hs', -, hedits', -⟩ := h v' hrun
    have hchanges := List.append_cancel_left (hedits.symm.trans hedits')
    have heq : (v.findAnchor, v.findCursor) = m :=
      eq_of_changes hb hu hs hb' hu' hs' hchanges hne
    exact heq ▸ mem_of_target hm
  complete := by
    intro hmem hlt
    by_contra hnot
    obtain ⟨hal, hsingle⟩ := not_or.mp hnot
    rw [Bool.not_eq_true] at hal
    obtain ⟨m, hm⟩ := exists_chosen (.inr (List.ne_nil_of_mem hmem))
    obtain ⟨u, s, w, hb, hu, hs⟩ := range_of_chosen hd hm
    obtain ⟨v', hrun, hedits, -⟩ := replaceCurrent_spec (r := r) hd hq hre
      hm hb hu hs
    obtain ⟨m', hm', u', s', w', hb', hu', hs', -, hedits', -⟩ := h v' hrun
    obtain rfl : m' = (v.findAnchor, v.findCursor) := target_unique hm' (.inl ⟨hmem, rfl⟩)
    have hchanges := List.append_cancel_left (hedits.symm.trans hedits')
    have hne' : s' ≠ [] := by
      rintro rfl
      simp at hs'
      omega
    have hne : s ≠ [] := fun hnil => hne' ((of_changes_eq hchanges).1.mp hnil)
    have heq := eq_of_changes hb hu hs hb' hu' hs' hchanges hne
    subst heq
    rcases hm with ⟨hal', -⟩ | ⟨-, hpick⟩
    · rw [hal] at hal'
      cases hal'
    · have hnext := nextAfter_of_pickMatch (re.ordered _) hpick
      refine hsingle (eq_singleton_of_forall (re.ordered _) hmem fun m' hm' => ?_)
      rcases hnext.2 with ⟨hle, -⟩ | hall
      · exact absurd hle (Nat.not_le.mpr hlt)
      · obtain ⟨hbefore, hle⟩ := hall m' hm'
        refine eq_of_start_eq (re.ordered _) hm' hmem ?_
        by_contra hstart
        have := le_of_start_lt (re.ordered _) hmem hm' (lt_of_le_of_ne hle (Ne.symm hstart))
        simp only at this
        omega

/-- A call replaces the right match and goes on behind it exactly under the condition. -/
lemma replacesTarget_iff (hd : v.display = .text) (hq : query ≠ [])
    (hre : compileQuery rs query opts = .ok re) :
    ReplacesTarget rs re v query r opts ↔ v.Sound re r := by
  constructor
  · intro h
    have hrec := recognised_of_replacesTarget hd hq hre h
    refine ⟨hrec, fun m u s w hm hb hu hs => ?_⟩
    obtain ⟨m₀, hm₀⟩ := exists_chosen (.inr (List.ne_nil_of_mem (mem_of_target hm)))
    obtain rfl := target_unique hm (target_of_chosen hrec hm₀)
    obtain ⟨v', hrun, hedits, -, hbuffer, hnext⟩ := replaceCurrent_spec (r := r)
      hd hq hre hm₀ hb hu hs
    obtain ⟨m', hm', u', s', w', hb', hu', hs', hbuffer', hedits', hnext'⟩ := h v' hrun
    obtain rfl := target_unique hm hm'
    obtain ⟨rfl, rfl, rfl⟩ := range_unique hb hu hs hb' hu' hs'
    have hchanges := List.append_cancel_left (hedits.symm.trans hedits')
    refine ⟨?_, ?_⟩
    · by_contra hjoined
      obtain ⟨hr, hj⟩ := not_or.mp hjoined
      have hplace := (of_changes_eq hchanges).2.2 hr
      rw [landing, if_pos (not_not.mp hj)] at hplace
      omega
    · rw [hbuffer'] at hnext hnext'
      intro ms old new
      by_cases hnil : ms = []
      · left
        rw [hnil]
        simp
      · have hiff := (nextAfter_iff (hnext hnil)).mp (hnext' hnil)
        rw [← hs, ← hu] at hiff
        exact hiff
  · intro h v' hrun
    by_cases hany : v.already re = true ∨ re.findIter v.buffer ≠ []
    · obtain ⟨m, hm⟩ := exists_chosen hany
      obtain ⟨v'', hrun', -, hreplaced⟩ := replacesTarget_of_sound hd hq hre h hm
      obtain rfl : v'' = v' := by
        rw [hrun] at hrun'
        exact (Prod.mk.inj (Except.ok.inj hrun')).2.symm
      exact ⟨m, target_of_chosen h.recognised hm, hreplaced⟩
    · obtain ⟨hal, hnil⟩ := not_or.mp hany
      obtain ⟨v'', hrun', -⟩ := replaceCurrent_of_nil (r := r) hd hq hre
        (Bool.eq_false_iff.mpr hal) (not_not.mp hnil)
      rw [hrun] at hrun'
      cases hrun'

end TextViewer

end Orchid.Viewer
