import Orchid.Base.Machine
import Mathlib.Data.List.TakeDrop

/-!
# Comparing two files

Two files are read in lock step, each in reads of its own lengths. The comparison ends at the first
read whose length is not that of the other one, whether or not the bytes differ there.
-/

namespace Orchid.Fs

/-! ### The first difference -/

section Difference

variable {α : Type*} [DecidableEq α]

/-- The first offset at which two lists differ; one that ends differs from one that goes on. -/
def firstDifference : List α → List α → Option ℕ
  | [], [] => none
  | [], _ :: _ | _ :: _, [] => some 0
  | a :: l, b :: r => if a = b then (firstDifference l r).map (· + 1) else some 0

lemma firstDifference_self (l : List α) : firstDifference l l = none := by
  induction l with
  | nil => rfl
  | cons a l ih => rw [firstDifference, if_pos rfl, ih, Option.map_none]

lemma firstDifference_comm (l r : List α) : firstDifference l r = firstDifference r l := by
  induction l generalizing r with
  | nil => cases r <;> rfl
  | cons a l ih =>
    cases r with
    | nil => rfl
    | cons b r =>
      rw [firstDifference, firstDifference, ih r]
      by_cases h : a = b
      · rw [if_pos h, if_pos h.symm]
      · rw [if_neg h, if_neg (Ne.symm h)]

lemma firstDifference_append (s l r : List α) :
    firstDifference (s ++ l) (s ++ r) = (firstDifference l r).map (· + s.length) := by
  induction s with
  | nil => simp
  | cons a s ih =>
    rw [List.cons_append, List.cons_append, firstDifference, if_pos rfl, ih, Option.map_map]
    rfl

lemma firstDifference_eq_none {l r : List α} : firstDifference l r = none ↔ l = r := by
  constructor
  · intro h
    induction l generalizing r with
    | nil =>
      cases r with
      | nil => rfl
      | cons b r => cases h
    | cons a l ih =>
      cases r with
      | nil => cases h
      | cons b r =>
        rw [firstDifference] at h
        split_ifs at h with hab
        rw [hab, ih (Option.map_eq_none_iff.mp h)]
  · rintro rfl
    exact firstDifference_self l

/-- In front of the offset the lists agree, and at the offset they do not. -/
lemma firstDifference_eq_some {l r : List α} {d : ℕ} :
    firstDifference l r = some d ↔ l.take d = r.take d ∧ l[d]? ≠ r[d]? := by
  induction l generalizing r d with
  | nil =>
    cases r with
    | nil => simp [firstDifference]
    | cons b r => cases d <;> simp [firstDifference]
  | cons a l ih =>
    cases r with
    | nil => cases d <;> simp [firstDifference]
    | cons b r =>
      rw [firstDifference]
      split_ifs with hab
      · cases d with
        | zero => simp [hab]
        | succ d => simp [hab, ih]
      · cases d with
        | zero => simpa using hab
        | succ d => simp [hab]

/-- A difference in front parts of one length is one of the lists. -/
lemma firstDifference_append_of_ne {s t : List α} (hlen : s.length = t.length) (hne : s ≠ t)
    (l r : List α) : ∃ d < s.length, firstDifference s t = some d ∧
      firstDifference (s ++ l) (t ++ r) = some d := by
  induction s generalizing t with
  | nil => exact absurd (List.length_eq_zero_iff.mp hlen.symm).symm hne
  | cons a s ih =>
    obtain ⟨b, t, rfl⟩ := List.exists_cons_of_length_eq_add_one hlen.symm
    by_cases hab : a = b
    · obtain ⟨d, hd, hst, hlong⟩ := ih (Nat.succ.inj hlen) fun h => hne (by rw [hab, h])
      refine ⟨d + 1, Nat.succ_lt_succ hd, ?_, ?_⟩
      · rw [firstDifference, if_pos hab, hst, Option.map_some]
      · rw [List.cons_append, List.cons_append, firstDifference, if_pos hab, hlong,
          Option.map_some]
    · exact ⟨0, Nat.succ_pos _, by rw [firstDifference, if_neg hab], by
        rw [List.cons_append, List.cons_append, firstDifference, if_neg hab]⟩

/-- The difference that `position` finds. -/
lemma findIdx?_zip_ne {s t : List α} (hlen : s.length = t.length) :
    ((s.zip t).findIdx? fun p => p.1 ≠ p.2) = firstDifference s t := by
  induction s generalizing t with
  | nil =>
    obtain rfl := List.length_eq_zero_iff.mp hlen.symm
    rfl
  | cons a s ih =>
    obtain ⟨b, t, rfl⟩ := List.exists_cons_of_length_eq_add_one hlen.symm
    rw [List.zip_cons_cons, List.findIdx?_cons, firstDifference, ih (Nat.succ.inj hlen)]
    by_cases hab : a = b <;> simp [hab]

end Difference

/-! ### Reading -/

/-- The reads of a file: each takes some of what is left, at most a buffer. -/
structure Reads (content : Bytes) where
  chunks : List Bytes
  nonempty : ∀ b ∈ chunks, b ≠ []
  fits : ∀ b ∈ chunks, b.length ≤ 64 * 1024
  flatten : chunks.flatten = content

structure FileCompare where
  equal : Bool
  leftSize : ℕ
  rightSize : ℕ
  mismatchAt : Option ℕ
  deriving DecidableEq

/-- The loop of `compare_files`; a read of a file that has no more is empty. -/
def compareLoop (leftSize rightSize : ℕ) : ℕ → List Bytes → List Bytes → FileCompare
  | offset, [], rs =>
    let equal := decide ((rs.headD []).length = 0)
    ⟨equal, leftSize, rightSize, if equal then none else some offset⟩
  | offset, lb :: ls, rs =>
    let rb := rs.headD []
    let n := min lb.length rb.length
    if n = 0 then
      let equal := decide (lb.length = rb.length)
      ⟨equal, leftSize, rightSize, if equal then none else some offset⟩
    else if lb.take n ≠ rb.take n then
      let at' := (((lb.take n).zip (rb.take n)).findIdx? fun p => p.1 ≠ p.2).getD 0
      ⟨false, leftSize, rightSize, some (offset + at')⟩
    else if lb.length ≠ rb.length then ⟨false, leftSize, rightSize, some (offset + n)⟩
    else compareLoop leftSize rightSize (offset + n) ls rs.tail

def compareFiles {left right : Bytes} (lr : Reads left) (rr : Reads right) : FileCompare :=
  if left.length ≠ right.length then
    ⟨false, left.length, right.length, some (min left.length right.length)⟩
  else compareLoop left.length right.length 0 lr.chunks rr.chunks

/-- The offsets at which the reads end. -/
def readEnds : ℕ → List Bytes → List ℕ
  | _, [] => []
  | offset, b :: bs => (offset + b.length) :: readEnds (offset + b.length) bs

/-- In front of the first difference, the reads of both files end at the same offsets. -/
def Aligned (offset : ℕ) (ls rs : List Bytes) : Prop :=
  ∀ e, (∀ d, firstDifference ls.flatten rs.flatten = some d → e < offset + d) →
    (e ∈ readEnds offset ls ↔ e ∈ readEnds offset rs)

section Loop

variable {leftSize rightSize offset : ℕ} {ls rs : List Bytes}

/-- The report that the contents call for. -/
def report (leftSize rightSize offset : ℕ) (l r : Bytes) : FileCompare :=
  ⟨decide (l = r), leftSize, rightSize, (firstDifference l r).map (offset + ·)⟩

lemma Aligned.symm (h : Aligned offset ls rs) : Aligned offset rs ls := by
  intro e he
  refine (h e fun d hd => he d ?_).symm
  rw [firstDifference_comm]
  exact hd

lemma aligned_comm : Aligned offset ls rs ↔ Aligned offset rs ls := ⟨.symm, .symm⟩

lemma le_of_mem_readEnds {e : ℕ} (h : e ∈ readEnds offset ls) : offset ≤ e := by
  induction ls generalizing offset with
  | nil => exact absurd h List.not_mem_nil
  | cons b ls ih =>
    obtain rfl | h := List.mem_cons.mp h
    · exact Nat.le_add_right _ _
    · exact (Nat.le_add_right _ _).trans (ih h)

lemma le_of_mem_readEnds_cons {e : ℕ} {b : Bytes} (h : e ∈ readEnds offset (b :: ls)) :
    offset + b.length ≤ e := by
  obtain rfl | h := List.mem_cons.mp h
  · exact le_rfl
  · exact le_of_mem_readEnds h

lemma lt_of_mem_readEnds (hls : ∀ b ∈ ls, b ≠ []) {e : ℕ} (h : e ∈ readEnds offset ls) :
    offset < e := by
  cases ls with
  | nil => exact absurd h List.not_mem_nil
  | cons b ls =>
    have hpos := List.length_pos_of_ne_nil (hls b List.mem_cons_self)
    have := le_of_mem_readEnds_cons h
    omega

/-- A read that is shorter than the other one is right exactly if the files differ at its end. -/
lemma aligned_of_shorter {s more : Bytes} (hmore : more ≠ []) :
    Aligned offset (s :: ls) ((s ++ more) :: rs) ↔
      firstDifference (s :: ls).flatten ((s ++ more) :: rs).flatten = some s.length := by
  have hflat : firstDifference (s :: ls).flatten ((s ++ more) :: rs).flatten =
      (firstDifference ls.flatten (more ++ rs.flatten)).map (· + s.length) := by
    rw [List.flatten_cons, List.flatten_cons, List.append_assoc, firstDifference_append]
  have hlong : (s ++ more).length = s.length + more.length := List.length_append
  have hpos := List.length_pos_of_ne_nil hmore
  constructor
  · intro h
    by_contra hne
    have hends := h (offset + s.length) ?_
    · have := le_of_mem_readEnds_cons (hends.mp List.mem_cons_self)
      omega
    · intro d hd
      rw [hd, Option.some.injEq] at hne
      obtain ⟨k, -, hk⟩ := Option.map_eq_some_iff.mp (hflat.symm.trans hd)
      omega
  · intro h e he
    have hlt := he _ h
    refine iff_of_false (fun hmem => ?_) fun hmem => ?_
    · have := le_of_mem_readEnds_cons hmem
      omega
    · have := le_of_mem_readEnds_cons hmem
      omega

/-- Reads of the same bytes leave the rest to be compared. -/
lemma aligned_cons (s : Bytes) (hls : ∀ b ∈ ls, b ≠ []) (hrs : ∀ b ∈ rs, b ≠ []) :
    Aligned offset (s :: ls) (s :: rs) ↔ Aligned (offset + s.length) ls rs := by
  have hflat : firstDifference (s :: ls).flatten (s :: rs).flatten =
      (firstDifference ls.flatten rs.flatten).map (· + s.length) := by
    rw [List.flatten_cons, List.flatten_cons, firstDifference_append]
  have hbefore (e : ℕ) :
      (∀ d, firstDifference (s :: ls).flatten (s :: rs).flatten = some d → e < offset + d) ↔
        ∀ d, firstDifference ls.flatten rs.flatten = some d → e < offset + s.length + d := by
    rw [hflat]
    constructor
    · intro h d hd
      have := h (d + s.length) (by rw [hd, Option.map_some])
      omega
    · intro h d hd
      obtain ⟨k, hk, rfl⟩ := Option.map_eq_some_iff.mp hd
      have := h k hk
      omega
  constructor
  · intro h e he
    have hends := h e ((hbefore e).mpr he)
    rw [readEnds, readEnds, List.mem_cons, List.mem_cons] at hends
    constructor
    · intro hmem
      have := lt_of_mem_readEnds hls hmem
      exact (hends.mp (.inr hmem)).resolve_left (by omega)
    · intro hmem
      have := lt_of_mem_readEnds hrs hmem
      exact (hends.mpr (.inr hmem)).resolve_left (by omega)
  · intro h e he
    rw [readEnds, readEnds, List.mem_cons, List.mem_cons]
    exact or_congr_right (h e ((hbefore e).mp he))

lemma report_eq_of_some {l r : Bytes} {d : ℕ} (h : firstDifference l r = some d) :
    report leftSize rightSize offset l r = ⟨false, leftSize, rightSize, some (offset + d)⟩ := by
  have hne : l ≠ r := fun heq => by
    rw [firstDifference_eq_none.mpr heq] at h
    cases h
  rw [report, h, decide_eq_false hne, Option.map_some]

lemma eq_report_iff {l r : Bytes} {d : ℕ} :
    (⟨false, leftSize, rightSize, some (offset + d)⟩ : FileCompare) =
      report leftSize rightSize offset l r ↔ firstDifference l r = some d := by
  constructor
  · intro h
    obtain ⟨d', hd', hsum⟩ := Option.map_eq_some_iff.mp (FileCompare.mk.inj h).2.2.2.symm
    rw [hd', Nat.add_left_cancel hsum]
  · exact fun h => (report_eq_of_some h).symm

lemma compareLoop_cons {lb rb : Bytes} (h : min lb.length rb.length ≠ 0) :
    compareLoop leftSize rightSize offset (lb :: ls) (rb :: rs) =
      let n := min lb.length rb.length
      if lb.take n ≠ rb.take n then
        ⟨false, leftSize, rightSize, some (offset +
          (((lb.take n).zip (rb.take n)).findIdx? fun p => p.1 ≠ p.2).getD 0)⟩
      else if lb.length ≠ rb.length then ⟨false, leftSize, rightSize, some (offset + n)⟩
      else compareLoop leftSize rightSize (offset + n) ls rs := if_neg h

/-- The loop reports what the contents call for exactly if the reads are aligned. -/
lemma compareLoop_iff (hls : ∀ b ∈ ls, b ≠ []) (hrs : ∀ b ∈ rs, b ≠ [])
    (hlen : ls.flatten.length = rs.flatten.length) :
    compareLoop leftSize rightSize offset ls rs =
        report leftSize rightSize offset ls.flatten rs.flatten ↔ Aligned offset ls rs := by
  induction ls generalizing offset rs with
  | nil =>
    have hrs' : rs = [] := by
      cases rs with
      | nil => rfl
      | cons b rs =>
        have hpos := List.length_pos_of_ne_nil (hrs b List.mem_cons_self)
        rw [List.flatten_nil, List.flatten_cons, List.length_append, List.length_nil] at hlen
        omega
    rw [hrs']
    exact iff_of_true (by simp [compareLoop, report, firstDifference]) fun e _ => Iff.rfl
  | cons lb ls ih =>
    have hlpos := List.length_pos_of_ne_nil (hls lb List.mem_cons_self)
    obtain ⟨rb, rs, rfl⟩ : ∃ rb rs', rs = rb :: rs' := by
      refine List.exists_cons_of_ne_nil fun h => ?_
      rw [h, List.flatten_nil, List.flatten_cons, List.length_append, List.length_nil] at hlen
      omega
    have hrpos := List.length_pos_of_ne_nil (hrs rb List.mem_cons_self)
    rw [compareLoop_cons (by omega)]
    dsimp only
    obtain ⟨n, hn⟩ : ∃ n, n = min lb.length rb.length := ⟨_, rfl⟩
    rw [← hn]
    have htakes : (lb.take n).length = (rb.take n).length := by
      rw [List.length_take, List.length_take]
      omega
    split_ifs with hbytes hlens
    · -- The bytes differ within the reads, before either of them ends.
      obtain ⟨d, hd, hposition, hfirst⟩ := firstDifference_append_of_ne htakes hbytes
        (lb.drop n ++ ls.flatten) (rb.drop n ++ rs.flatten)
      rw [← List.append_assoc, ← List.append_assoc, List.take_append_drop,
        List.take_append_drop, ← List.flatten_cons, ← List.flatten_cons] at hfirst
      rw [findIdx?_zip_ne htakes, hposition, Option.getD_some]
      refine iff_of_true (report_eq_of_some hfirst).symm fun e he => ?_
      have hlt := he d hfirst
      rw [List.length_take] at hd
      refine iff_of_false (fun hmem => ?_) fun hmem => ?_
      · have := le_of_mem_readEnds_cons hmem
        omega
      · have := le_of_mem_readEnds_cons hmem
        omega
    · rw [eq_report_iff]
      have hsame := not_not.mp hbytes
      rcases Nat.lt_or_gt_of_ne hlens with hlt | hgt
      · have hnl : n = lb.length := by omega
        rw [hnl, List.take_length] at hsame
        have hrb : rb = lb ++ rb.drop lb.length := by
          conv_lhs => rw [← List.take_append_drop lb.length rb, ← hsame]
        have hmore : rb.drop lb.length ≠ [] := by
          rw [Ne, List.drop_eq_nil_iff]
          omega
        rw [hnl, hrb, aligned_of_shorter hmore]
      · have hnr : n = rb.length := by omega
        rw [hnr, List.take_length] at hsame
        have hlb : lb = rb ++ lb.drop rb.length := by
          conv_lhs => rw [← List.take_append_drop rb.length lb, hsame]
        have hmore : lb.drop rb.length ≠ [] := by
          rw [Ne, List.drop_eq_nil_iff]
          omega
        rw [hnr, hlb, aligned_comm, aligned_of_shorter hmore, firstDifference_comm]
    · have hlens' := not_not.mp hlens
      have hnl : n = lb.length := by omega
      have hsame := not_not.mp hbytes
      rw [hnl, List.take_length, hlens', List.take_length] at hsame
      subst hsame
      rw [List.flatten_cons, List.flatten_cons, List.length_append, List.length_append] at hlen
      have htail := @ih (offset + lb.length) rs (fun b hb => hls b (List.mem_cons_of_mem _ hb))
        (fun b hb => hrs b (List.mem_cons_of_mem _ hb)) (Nat.add_left_cancel hlen)
      have hreport : report leftSize rightSize offset (lb :: ls).flatten (lb :: rs).flatten =
          report leftSize rightSize (offset + lb.length) ls.flatten rs.flatten := by
        rw [report, report, List.flatten_cons, List.flatten_cons, firstDifference_append,
          Option.map_map]
        congr 1
        · simp
        · congr 1
          funext d
          simp only [Function.comp_apply]
          omega
      rw [hnl, hreport, htail, aligned_cons lb
        (fun b hb => hls b (List.mem_cons_of_mem _ hb))
        fun b hb => hrs b (List.mem_cons_of_mem _ hb)]

end Loop

/-! ### The comparison -/

namespace FileCompare

/-- Files are reported equal exactly if they are, and otherwise at their first difference. -/
def Right (c : FileCompare) (left right : Bytes) : Prop :=
  (c.equal = true ↔ left = right) ∧ c.mismatchAt = firstDifference left right

/-- The same, but files of different sizes may be reported at the end of the shorter one. -/
def RightOrShorter (c : FileCompare) (left right : Bytes) : Prop :=
  (c.equal = true ↔ left = right) ∧ (c.mismatchAt = firstDifference left right ∨
    left.length ≠ right.length ∧ c.mismatchAt = some (min left.length right.length))

end FileCompare

section Files

variable {left right : Bytes}

lemma compareLoop_sizes (leftSize rightSize offset : ℕ) (ls rs : List Bytes) :
    (compareLoop leftSize rightSize offset ls rs).leftSize = leftSize ∧
      (compareLoop leftSize rightSize offset ls rs).rightSize = rightSize := by
  induction ls generalizing offset rs with
  | nil => exact ⟨rfl, rfl⟩
  | cons lb ls ih =>
    rw [compareLoop]
    dsimp only
    split_ifs
    · exact ⟨rfl, rfl⟩
    · exact ⟨rfl, rfl⟩
    · exact ⟨rfl, rfl⟩
    · exact ⟨rfl, rfl⟩
    · exact ih _ _

lemma right_iff_eq_report {c : FileCompare} (hl : c.leftSize = left.length)
    (hr : c.rightSize = right.length) :
    c.Right left right ↔ c = report left.length right.length 0 left right := by
  have hmap : (firstDifference left right).map (0 + ·) = firstDifference left right := by
    simp
  constructor
  · rintro ⟨hequal, hat⟩
    obtain ⟨equal, leftSize, rightSize, mismatchAt⟩ := c
    dsimp only at hl hr hequal hat
    rw [report, hmap, hl, hr, hat]
    congr 1
    exact Bool.eq_iff_iff.mpr (hequal.trans decide_eq_true_iff.symm)
  · intro h
    rw [h]
    exact ⟨decide_eq_true_iff, hmap⟩

/-- Files of different sizes first differ at the end of the shorter one exactly if it begins the
longer one. -/
lemma firstDifference_eq_min_iff (hne : left.length ≠ right.length) :
    firstDifference left right = some (min left.length right.length) ↔
      left <+: right ∨ right <+: left := by
  have hprefix {l r : Bytes} (h : l.length < r.length) :
      firstDifference l r = some l.length ↔ l <+: r := by
    rw [firstDifference_eq_some, List.take_length, List.prefix_iff_eq_take]
    refine and_iff_left ?_
    rw [List.getElem?_eq_none le_rfl, List.getElem?_eq_getElem h]
    exact Option.some_ne_none _ ∘ Eq.symm
  rcases Nat.lt_or_gt_of_ne hne with hlt | hgt
  · rw [Nat.min_eq_left hlt.le, hprefix hlt]
    exact ⟨.inl, fun h => h.resolve_right fun hp => absurd hp.length_le (not_le.mpr hlt)⟩
  · rw [Nat.min_eq_right hgt.le, firstDifference_comm, hprefix hgt]
    exact ⟨.inr, fun h => h.resolve_left fun hp => absurd hp.length_le (not_le.mpr hgt)⟩

lemma compareFiles_of_length_eq (lr : Reads left) (rr : Reads right)
    (h : left.length = right.length) :
    (compareFiles lr rr).Right left right ↔ Aligned 0 lr.chunks rr.chunks := by
  have hiff := @compareLoop_iff left.length right.length 0 lr.chunks rr.chunks lr.nonempty
    rr.nonempty (by rw [lr.flatten, rr.flatten, h])
  have hsizes := compareLoop_sizes left.length right.length 0 lr.chunks rr.chunks
  rw [lr.flatten, rr.flatten] at hiff
  rw [compareFiles, if_neg (not_not.mpr h), right_iff_eq_report hsizes.1 hsizes.2, hiff]

/-- What is reported of two files is right exactly if, for files of one size, the reads of both end
at the same offsets up to the first difference, and, for others, one file begins the other. -/
theorem compareFiles_right_iff (left right : Bytes) (lr : Reads left) (rr : Reads right) :
    ((compareFiles lr rr).Right left right ↔
      (left.length = right.length → Aligned 0 lr.chunks rr.chunks) ∧
        (left.length ≠ right.length → left <+: right ∨ right <+: left)) ∧
    ((compareFiles lr rr).RightOrShorter left right ↔
      (left.length = right.length → Aligned 0 lr.chunks rr.chunks)) := by
  by_cases h : left.length = right.length
  · have hright := compareFiles_of_length_eq lr rr h
    have hshorter : (compareFiles lr rr).RightOrShorter left right ↔
        (compareFiles lr rr).Right left right :=
      and_congr_right fun _ => or_iff_left fun hor => hor.1 h
    rw [hshorter, hright]
    exact ⟨⟨fun ha => ⟨fun _ => ha, fun hne => absurd h hne⟩, fun ha => ha.1 h⟩,
      ⟨fun ha _ => ha, fun ha => ha h⟩⟩
  · have hcompare : compareFiles lr rr =
        ⟨false, left.length, right.length, some (min left.length right.length)⟩ := if_pos h
    have hequal : (false = true ↔ left = right) :=
      iff_of_false Bool.false_ne_true fun heq => h (congrArg List.length heq)
    rw [hcompare]
    constructor
    · rw [← firstDifference_eq_min_iff h]
      exact ⟨fun hr => ⟨fun heq => absurd heq h, fun _ => hr.2.symm⟩,
        fun hr => ⟨hequal, (hr.2 h).symm⟩⟩
    · exact ⟨fun _ heq => absurd heq h, fun _ => ⟨hequal, .inr ⟨h, rfl⟩⟩⟩

/-- Two bytes that are read at once and one by one. -/
theorem not_compareFiles_right :
    ¬ ∀ (left right : Bytes) (lr : Reads left) (rr : Reads right),
      (compareFiles lr rr).RightOrShorter left right := by
  intro h
  have hequal := (h [0, 0] [0, 0] ⟨[[0, 0]], by decide, by decide, rfl⟩
    ⟨[[0], [0]], by decide, by decide, rfl⟩).1
  exact absurd (hequal.mpr rfl) (by decide)

end Files

end Orchid.Fs
