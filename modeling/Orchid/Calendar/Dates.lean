import Orchid.Calendar.Reading

/-!
# Dates and times as texts

The digits that are written for a date and a time are read back as they were, and what is read of
other digits is a date of four-digit years and a time of a day.
-/

namespace Orchid.Calendar

open Lib String

/-! ### Texts of digits -/

lemma utf8Size_of_isDigit {c : Char} (h : c.isDigit = true) : c.utf8Size = 1 := by
  refine Char.utf8Size_eq_one_iff.mpr ?_
  simp only [Char.isDigit, Bool.and_eq_true, decide_eq_true_eq] at h
  exact UInt32.le_trans h.2 (by decide)

lemma utf8Len_of_isDigit {t : Text} (h : ∀ c ∈ t, c.isDigit = true) : utf8Len t = t.length := by
  induction t with
  | nil => rfl
  | cons c t ih =>
    obtain ⟨hc, ht⟩ := List.forall_mem_cons.mp h
    rw [utf8Len_cons, ih ht, utf8Size_of_isDigit hc, List.length_cons]

lemma parseI32_pad {width n : ℕ} (hn : n < 2 ^ 31) : parseI32 (pad width n) = some (n : ℤ) := by
  rw [parseI32, startsWith_of_isDigit isDigit_pad rfl, if_neg Bool.false_ne_true,
    startsWith_of_isDigit isDigit_pad rfl, if_neg Bool.false_ne_true, parseDigits_pad]
  have hn' : n < 2147483648 := hn
  simp [Option.filter, hn']

/-- Slices of a text that is given in pieces. -/
lemma sliceBytes_append {t u v : Text} {n m : ℕ} (hn : utf8Len t = n) (hm : n + utf8Len u = m) :
    sliceBytes (t ++ (u ++ v)) n m = some u :=
  sliceBytes_eq_some_iff.mpr ⟨t, v, (List.append_assoc t u v).symm, hn, hm⟩

lemma ymd_append {y m d : Text} (hy : utf8Len y = 4) (hm : utf8Len m = 2) (hd : utf8Len d = 2) :
    ymd (y ++ (m ++ d)) =
      some ((parseI32 y).bind fun y => (parseU32 m).bind fun m => (parseU32 d).bind fun d =>
        fromYmdOpt y m d) := by
  have h₁ : sliceBytes (y ++ (m ++ d)) 0 4 = some y :=
    sliceBytes_append (t := []) rfl (by rw [hy])
  have h₂ : sliceBytes (y ++ (m ++ d)) 4 6 = some m := sliceBytes_append hy (by rw [hm])
  have h₃ : sliceBytes (y ++ (m ++ d)) 6 8 = some d := by
    have := sliceBytes_append (t := y ++ m) (u := d) (v := []) (n := 6) (m := 8)
      (by rw [utf8Len_append, hy, hm]) (by rw [hd])
    simpa using this
  have hlen : ¬ utf8Len (y ++ (m ++ d)) < 8 := by
    rw [utf8Len_append, utf8Len_append, hy, hm, hd]
    omega
  unfold ymd
  rw [if_neg hlen]
  simp only [h₁, h₂, h₃, Option.bind_eq_bind, Option.bind_some]
  cases parseI32 y with
  | none => rfl
  | some y =>
    cases parseU32 m with
    | none => rfl
    | some m =>
      cases parseU32 d with
      | none => rfl
      | some d => rfl

/-- Eight digits never cut short. -/
lemma ymd_digits {t : Text} (hlen : t.length = 8) (hd : ∀ c ∈ t, c.isDigit = true) :
    ∃ r, ymd t = some r := by
  have hsplit : t = t.take 4 ++ ((t.drop 4).take 2 ++ (t.drop 4).drop 2) := by
    rw [List.take_append_drop, List.take_append_drop]
  have hsize : ∀ u : Text, (∀ c ∈ u, c ∈ t) → utf8Len u = u.length := fun u hu =>
    utf8Len_of_isDigit fun c hc => hd c (hu c hc)
  have h₁ : utf8Len (t.take 4) = 4 := by
    rw [hsize _ fun c hc => List.mem_of_mem_take hc, List.length_take, hlen]
    rfl
  have h₂ : utf8Len ((t.drop 4).take 2) = 2 := by
    rw [hsize _ fun c hc => List.mem_of_mem_drop (List.mem_of_mem_take hc), List.length_take,
      List.length_drop, hlen]
    rfl
  have h₃ : utf8Len ((t.drop 4).drop 2) = 2 := by
    rw [hsize _ fun c hc => List.mem_of_mem_drop (List.mem_of_mem_drop hc), List.length_drop,
      List.length_drop, hlen]
  rw [hsplit]
  exact ⟨_, ymd_append h₁ h₂ h₃⟩

/-! ### Dates -/

/-- The date is written with four digits for its year. -/
def NaiveDate.FourDigits (d : NaiveDate) : Prop := 0 ≤ d.year ∧ d.year ≤ 9999

variable {d : NaiveDate}

lemma NaiveDate.month_lt (d : NaiveDate) : d.month < 10 ^ 2 := by
  have := d.valid.2.1.2
  omega

lemma NaiveDate.day_lt (d : NaiveDate) : d.day < 10 ^ 2 := by
  have hle : daysInMonth d.year d.month ≤ 31 := by
    unfold daysInMonth
    split_ifs <;> omega
  have := d.valid.2.2.2
  omega

lemma fromYmdOpt_self (d : NaiveDate) : fromYmdOpt d.year d.month d.day = some d := dif_pos d.valid

lemma filter_dashes {t : Text} (h : ∀ c ∈ t, c.isDigit = true) :
    t.filter (fun c => c ≠ '-') = t := by
  refine List.filter_eq_self.mpr fun c hc => decide_eq_true ?_
  rintro rfl
  exact Bool.false_ne_true (h '-' hc)

/-- The digits of a date. -/
lemma withoutDashes_formatDate (h : 0 ≤ d.year) :
    withoutDashes (formatDate d) = pad 4 d.year.toNat ++ (pad 2 d.month ++ pad 2 d.day) := by
  rw [withoutDashes, formatDate, padYear, if_pos h, List.filter_append, List.filter_cons_of_neg
    (by decide), List.filter_append, List.filter_cons_of_neg (by decide), filter_dashes isDigit_pad,
    filter_dashes isDigit_pad, filter_dashes isDigit_pad, List.append_assoc]

lemma isDigit_date (h : 0 ≤ d.year) : ∀ c ∈ withoutDashes (formatDate d), c.isDigit = true := by
  rw [withoutDashes_formatDate h]
  intro c hc
  rcases List.mem_append.mp hc with hc | hc
  · exact isDigit_pad c hc
  · exact (List.mem_append.mp hc).elim (isDigit_pad c) (isDigit_pad c)

lemma length_date (h : d.FourDigits) : (withoutDashes (formatDate d)).length = 8 := by
  have hy : d.year.toNat < 10 ^ 4 := by
    have := h.2
    omega
  rw [withoutDashes_formatDate h.1, List.length_append, List.length_append,
    length_pad hy (by decide), length_pad d.month_lt (by decide), length_pad d.day_lt (by decide)]

/-- The digits of a date are read back. -/
lemma ymd_date (h : d.FourDigits) : ymd (withoutDashes (formatDate d)) = some (some d) := by
  have hy : d.year.toNat < 10 ^ 4 := by
    have := h.2
    omega
  have hsize : ∀ {w n : ℕ}, n < 10 ^ w → 0 < w → utf8Len (pad w n) = w := fun hn hw => by
    rw [utf8Len_of_isDigit isDigit_pad, length_pad hn hw]
  have hm := d.month_lt
  have hd := d.day_lt
  rw [withoutDashes_formatDate h.1, ymd_append (hsize hy (by decide)) (hsize hm (by decide))
    (hsize hd (by decide)), parseI32_pad (by omega), parseU32_pad (by omega),
    parseU32_pad (by omega)]
  simp only [Option.bind_some, Int.toNat_of_nonneg h.1, fromYmdOpt_self]

lemma splitOn_append {sep : Char} {t : Text} (h : sep ∉ t) (u : Text) :
    splitOn sep (t ++ sep :: u) = t :: splitOn sep u := by
  induction t with
  | nil => simp [splitOn]
  | cons c t ih =>
    obtain ⟨hc, ht⟩ := not_or.mp (mt List.mem_cons.mpr h)
    rw [List.cons_append, splitOn, if_neg (Ne.symm hc), ih ht]

lemma splitOn_self {sep : Char} {t : Text} (h : sep ∉ t) : splitOn sep t = [t] := by
  induction t with
  | nil => rfl
  | cons c t ih =>
    obtain ⟨hc, ht⟩ := not_or.mp (mt List.mem_cons.mpr h)
    rw [splitOn, if_neg (Ne.symm hc), ih ht]

lemma dash_notMem {t : Text} (h : ∀ c ∈ t, c.isDigit = true) : '-' ∉ t := fun hmem =>
  Bool.false_ne_true (h '-' hmem)

lemma parseDate_formatDate (h : d.FourDigits) : parseDate (formatDate d) = some d := by
  have hm := d.month_lt
  have hd := d.day_lt
  have hy := h.2
  rw [parseDate, formatDate, padYear, if_pos h.1, List.append_assoc, List.cons_append,
    splitOn_append (dash_notMem isDigit_pad), splitOn_append (dash_notMem isDigit_pad),
    splitOn_self (dash_notMem isDigit_pad)]
  simp only [parseI32_pad (show d.year.toNat < 2 ^ 31 by omega),
    parseU32_pad (show d.month < 2 ^ 32 by omega), parseU32_pad (show d.day < 2 ^ 32 by omega),
    Option.bind_eq_bind, Option.bind_some, Int.toNat_of_nonneg h.1, fromYmdOpt_self]

/-! ### Starts and ends -/

variable {toLocal : NaiveDate → ℕ → ℕ → Option (NaiveDate × ℕ)}

lemma isWhitespace_of_isDigit {c : Char} (h : c.isDigit = true) : isWhitespace c = false := by
  simp only [Char.isDigit, Bool.and_eq_true, decide_eq_true_eq] at h
  have h₁ : 48 ≤ c.toNat := h.1
  have h₂ : c.toNat ≤ 57 := h.2
  unfold isWhitespace
  simp only [Bool.or_eq_false_iff, Bool.and_eq_false_iff, decide_eq_false_iff_not, beq_eq_false_iff_ne]
  omega

lemma trim_digits {t : Text} (h : ∀ c ∈ t, c.isDigit = true) : trim t = t :=
  trim_eq_self (fun c hc => isWhitespace_of_isDigit (h c (List.mem_of_head? hc)))
    fun c hc => isWhitespace_of_isDigit (h c (List.mem_of_getLast? hc))

/-- The parameter of a date without a time. -/
def dateOnly : List (Text × Text) := [("VALUE".toList, "DATE".toList)]

lemma parseWhen_dateOnly {t : Text} (h : ∀ c ∈ t, c.isDigit = true) (hlen : 8 ≤ t.length) :
    parseWhen toLocal dateOnly t = (ymd (t.take 8)).map (Option.map When.date) := by
  have hslice : sliceBytes t 0 8 = some (t.take 8) := by
    refine sliceBytes_eq_some_iff.mpr ⟨[], t.drop 8, by simp, rfl, ?_⟩
    rw [utf8Len_of_isDigit fun c hc => h c (List.mem_of_mem_take hc), List.length_take]
    omega
  unfold parseWhen
  rw [trim_digits h]
  dsimp only
  rw [if_pos (Bool.or_eq_true_iff.mpr (.inl (by decide))), hslice, Option.bind_eq_bind,
    Option.bind_some]
  cases ymd (t.take 8) <;> rfl

/-- The digits of a date and a time. -/
lemma parseWhen_dateTime {minutes : U16} (h : d.FourDigits) (hm : minutes.val < 1440) :
    parseWhen toLocal [] (withoutDashes (formatDate d) ++ 'T' :: hhmmss minutes) =
      some (some (.dateTime d minutes.val)) := by
  have hday : utf8Len (withoutDashes (formatDate d)) = 8 := by
    rw [utf8Len_of_isDigit (isDigit_date h.1), length_date h]
  have hpad : ∀ n, n < 10 ^ 2 → utf8Len (pad 2 n) = 2 := fun n hn => by
    rw [utf8Len_of_isDigit isDigit_pad, length_pad hn (by decide)]
  have hhour := hpad (minutes.val / 60) (by omega)
  have hminute := hpad (minutes.val % 60) (by omega)
  set day := withoutDashes (formatDate d) with hdef
  have htext : day ++ 'T' :: hhmmss minutes =
      day ++ (['T'] ++ (pad 2 (minutes.val / 60) ++ (pad 2 (minutes.val % 60) ++ ['0', '0']))) := by
    simp [hhmmss]
  have hsize : utf8Len (day ++ 'T' :: hhmmss minutes) = 15 := by
    rw [htext, utf8Len_append, utf8Len_append, utf8Len_append, utf8Len_append, hday, hhour, hminute]
    rfl
  have hT : sliceBytes (day ++ 'T' :: hhmmss minutes) 8 9 = some ['T'] := by
    rw [htext]
    exact sliceBytes_append hday rfl
  have h₁ : sliceBytes (day ++ 'T' :: hhmmss minutes) 0 8 = some day :=
    sliceBytes_append (t := []) rfl (by rw [hday])
  have h₂ : sliceBytes (day ++ 'T' :: hhmmss minutes) 9 11 = some (pad 2 (minutes.val / 60)) := by
    rw [htext, ← List.append_assoc]
    exact sliceBytes_append (by rw [utf8Len_append, hday]; rfl) (by rw [hhour])
  have h₃ : sliceBytes (day ++ 'T' :: hhmmss minutes) 11 13 = some (pad 2 (minutes.val % 60)) := by
    rw [htext, ← List.append_assoc, ← List.append_assoc]
    refine sliceBytes_append ?_ (by rw [hminute])
    rw [utf8Len_append, utf8Len_append, hday, hhour]
    rfl
  have hlast : (day ++ 'T' :: hhmmss minutes).getLast? = some '0' := by
    rw [htext, List.getLast?_append, List.getLast?_append, List.getLast?_append,
      List.getLast?_append]
    rfl
  have htrim : trim (day ++ 'T' :: hhmmss minutes) = day ++ 'T' :: hhmmss minutes := by
    refine trim_eq_self (fun c hc => ?_) fun c hc => ?_
    · cases hd : day with
      | nil =>
        rw [hd] at hday
        cases hday
      | cons e rest =>
        rw [hd] at hc
        obtain rfl := Option.some.inj hc
        refine isWhitespace_of_isDigit (isDigit_date h.1 e ?_)
        rw [← hdef, hd]
        exact List.mem_cons_self
    · rw [hlast] at hc
      obtain rfl := Option.some.inj hc
      rfl
  have hymd : ymd day = some (some d) := ymd_date h
  unfold parseWhen
  rw [htrim]
  dsimp only
  rw [if_neg (by simp [hsize]), hsize, if_neg (by simp [hT]), h₁]
  simp only [Option.bind_eq_bind, Option.bind_some, hymd, h₂, h₃]
  rw [parseU32_pad (by omega), parseU32_pad (by omega)]
  dsimp only
  rw [if_neg (by omega), hlast, if_neg (by simp)]
  have : minutes.val / 60 * 60 + minutes.val % 60 = minutes.val := Nat.div_add_mod' _ _
  rw [this]
  rfl

lemma length_le_utf8Len (t : Text) : t.length ≤ utf8Len t := by
  induction t with
  | nil => exact le_rfl
  | cons c t ih =>
    have := c.utf8Size_pos
    rw [utf8Len_cons, List.length_cons]
    omega

lemma ofDigitChars_lt {t : Text} (h : ∀ c ∈ t, c.isDigit = true) (n : ℕ) :
    Nat.ofDigitChars 10 t n < (n + 1) * 10 ^ t.length := by
  induction t generalizing n with
  | nil => simp
  | cons c t ih =>
    obtain ⟨hc, ht⟩ := List.forall_mem_cons.mp h
    simp only [Char.isDigit, Bool.and_eq_true, decide_eq_true_eq] at hc
    have hle : c.toNat ≤ 57 := hc.2
    have hvalue : 10 * n + (c.toNat - '0'.toNat) + 1 ≤ (n + 1) * 10 := by
      have : '0'.toNat = 48 := rfl
      omega
    rw [Nat.ofDigitChars_cons, List.length_cons, Nat.pow_succ, Nat.mul_comm (10 ^ t.length),
      ← Nat.mul_assoc]
    exact (ih ht _).trans_le (Nat.mul_le_mul_right _ hvalue)

/-- Four characters without a dash are a year of four digits. -/
lemma parseI32_bound {t : Text} {y : ℤ} (hlen : t.length ≤ 4) (hdash : '-' ∉ t)
    (h : parseI32 t = some y) : 0 ≤ y ∧ y ≤ 9999 := by
  have hstart : ¬ startsWith t '-' = true := by
    cases t with
    | nil => simp
    | cons c t =>
      rw [startsWith_cons, beq_iff_eq]
      rintro rfl
      exact hdash List.mem_cons_self
  rw [parseI32, if_neg hstart, Option.map_eq_some_iff] at h
  obtain ⟨n, hn, rfl⟩ := h
  have hdigits := (Option.filter_eq_some_iff.mp hn).1
  set u := if startsWith t '+' = true then t.tail else t with hu
  have hulen : u.length ≤ 4 := by
    rw [hu]
    split_ifs
    · rw [List.length_tail]
      omega
    · exact hlen
  unfold parseDigits at hdigits
  split_ifs at hdigits with hd
  obtain rfl := Option.some.inj hdigits
  have hlt := ofDigitChars_lt (List.all_eq_true.mp hd.2) 0
  have hpow : 10 ^ u.length ≤ 10 ^ 4 := Nat.pow_le_pow_right (by decide) hulen
  omega

lemma ymd_bound {t : Text} (hdash : '-' ∉ t) (h : ymd t = some (some d)) : d.FourDigits := by
  unfold ymd at h
  split_ifs at h with hlen
  · cases h
  obtain ⟨year, hyear, h⟩ := Option.bind_eq_some_iff.mp h
  obtain ⟨u, w, htext, -, hsize⟩ := sliceBytes_eq_some_iff.mp hyear
  have hbound : ∀ y, parseI32 year = some y → 0 ≤ y ∧ y ≤ 9999 := fun y hy => by
    refine parseI32_bound ?_ (fun hmem => hdash ?_) hy
    · have := length_le_utf8Len year
      omega
    · rw [htext]
      exact List.mem_append_left _ (List.mem_append_right _ hmem)
  cases hy : parseI32 year with
  | none =>
    rw [hy] at h
    cases h
  | some y =>
    rw [hy] at h
    obtain ⟨month, -, h⟩ := Option.bind_eq_some_iff.mp h
    cases hm : parseU32 month with
    | none =>
      rw [hm] at h
      cases h
    | some m =>
      rw [hm] at h
      obtain ⟨day, -, h⟩ := Option.bind_eq_some_iff.mp h
      cases hd : parseU32 day with
      | none =>
        rw [hd] at h
        cases h
      | some n =>
        rw [hd] at h
        have hdate : fromYmdOpt y m n = some d := Option.some.inj h
        unfold fromYmdOpt at hdate
        split_ifs at hdate
        obtain rfl := Option.some.inj hdate
        exact hbound y hy

/-- What is read of a text without dashes that does not end in `Z`. -/
lemma parseWhen_bound {params : List (Text × Text)} {t : Text} {w : When} (hdash : '-' ∉ t)
    (hz : (trim t).getLast? ≠ some 'Z') (h : parseWhen toLocal params t = some (some w)) :
    (∃ d', w = .date d' ∧ d'.FourDigits) ∨
      ∃ d' m, w = .dateTime d' m ∧ d'.FourDigits ∧ m < 1440 := by
  have hslice : ∀ {n m u}, sliceBytes (trim t) n m = some u → '-' ∉ u := by
    intro n m u hu hmem
    obtain ⟨ws, ws', ht, -, -⟩ := exists_trim t
    obtain ⟨v, w, htext, -, -⟩ := sliceBytes_eq_some_iff.mp hu
    refine hdash ?_
    rw [ht, htext]
    simp [hmem]
  unfold parseWhen at h
  dsimp only at h
  split_ifs at h with hdate hshort
  · obtain ⟨day, hday, h⟩ := Option.bind_eq_some_iff.mp h
    obtain ⟨r, hr, h⟩ := Option.bind_eq_some_iff.mp h
    cases r with
    | none => cases h
    | some d' =>
      cases h
      exact .inl ⟨d', rfl, ymd_bound (hslice hday) hr⟩
  · cases h
  · obtain ⟨day, hday, h⟩ := Option.bind_eq_some_iff.mp h
    obtain ⟨r, hr, h⟩ := Option.bind_eq_some_iff.mp h
    cases r with
    | none => cases h
    | some d' =>
      obtain ⟨hour, -, h⟩ := Option.bind_eq_some_iff.mp h
      cases hh : parseU32 hour with
      | none =>
        rw [hh] at h
        cases h
      | some hours =>
        rw [hh] at h
        obtain ⟨minute, -, h⟩ := Option.bind_eq_some_iff.mp h
        cases hm : parseU32 minute with
        | none =>
          rw [hm] at h
          cases h
        | some minutes =>
          rw [hm] at h
          dsimp only at h
          split_ifs at h with hrange
          · cases h
          · cases h
            exact .inr ⟨d', _, rfl, ymd_bound (hslice hday) hr, by omega⟩

end Orchid.Calendar
