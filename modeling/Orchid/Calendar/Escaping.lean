import Mathlib.Tactic.Tauto
import Orchid.Calendar.Ics

/-!
# Escaped texts

What trimming and unescaping leave of a text that was escaped, and of one that was not.
-/

namespace Orchid.Calendar

/-! ### Escaping -/

/-- What `escape_text` writes for a character. -/
def escapeChar (c : Char) : Text :=
  if c = '\\' then ['\\', '\\']
  else if c = ';' then ['\\', ';']
  else if c = ',' then ['\\', ',']
  else if c = '\n' then ['\\', 'n']
  else if c = '\r' then []
  else [c]

lemma escapeText_cons (c : Char) (t : Text) : escapeText (c :: t) = escapeChar c ++ escapeText t :=
  rfl

lemma escapeText_append (t u : Text) : escapeText (t ++ u) = escapeText t ++ escapeText u :=
  List.flatMap_append

lemma unescapeText_cons {c : Char} (hc : c ≠ '\\') (t : Text) :
    unescapeText (c :: t) = c :: unescapeText t := by
  cases t with
  | nil => rfl
  | cons d t => rw [unescapeText, if_neg hc]

/-- An escaped character is read back, unless it is a carriage return. -/
lemma unescapeText_escapeChar {c : Char} (hc : c ≠ '\r') (t : Text) :
    unescapeText (escapeChar c ++ t) = c :: unescapeText t := by
  unfold escapeChar
  split_ifs with h₁ h₂ h₃ h₄
  · rw [h₁]
    rfl
  · rw [h₂]
    rfl
  · rw [h₃]
    rfl
  · rw [h₄]
    rfl
  · exact unescapeText_cons h₁ t

lemma unescapeText_escapeText {t : Text} (ht : '\r' ∉ t) : unescapeText (escapeText t) = t := by
  induction t with
  | nil => rfl
  | cons c t ih =>
    obtain ⟨hc, ht⟩ := not_or.mp (mt List.mem_cons.mpr ht)
    rw [escapeText_cons, unescapeText_escapeChar (Ne.symm hc), ih ht]

lemma mem_escapeChar {c d : Char} (h : d ∈ escapeChar c) :
    d = '\\' ∨ d = ';' ∨ d = ',' ∨ d = 'n' ∨ d = c ∧ c ≠ '\n' ∧ c ≠ '\r' := by
  unfold escapeChar at h
  split_ifs at h with h₁ h₂ h₃ h₄ h₅
  all_goals simp only [List.mem_cons, List.not_mem_nil, or_false] at h
  all_goals tauto

/-- An escaped text has no line breaks. -/
lemma notMem_escapeText {d : Char} (hd : d = '\n' ∨ d = '\r') (t : Text) : d ∉ escapeText t := by
  intro hmem
  obtain ⟨c, -, hc⟩ := List.mem_flatMap.mp hmem
  obtain rfl | rfl | rfl | rfl | ⟨rfl, hn, hr⟩ := mem_escapeChar hc
  · simp at hd
  · simp at hd
  · simp at hd
  · simp at hd
  · tauto

/-- A character that stands for itself is as frequent in the escaped text. -/
lemma count_escapeText {c : Char} (hplain : ∀ d, (escapeChar d).count c = if d = c then 1 else 0)
    (t : Text) : (escapeText t).count c = t.count c := by
  induction t with
  | nil => rfl
  | cons d t ih =>
    rw [escapeText_cons, List.count_append, ih, hplain, List.count_cons]
    simp [Nat.add_comm]

/-- White space other than line breaks stands for itself. -/
lemma escapeChar_of_white {c : Char} (hws : isWhitespace c = true) (hn : c ≠ '\n')
    (hr : c ≠ '\r') : escapeChar c = [c] := by
  have h₁ : c ≠ '\\' := by rintro rfl; cases hws
  have h₂ : c ≠ ';' := by rintro rfl; cases hws
  have h₃ : c ≠ ',' := by rintro rfl; cases hws
  unfold escapeChar
  rw [if_neg h₁, if_neg h₂, if_neg h₃, if_neg hn, if_neg hr]

lemma count_escapeChar {c : Char} (hws : isWhitespace c = true) (hn : c ≠ '\n') (hr : c ≠ '\r')
    (d : Char) : (escapeChar d).count c = if d = c then 1 else 0 := by
  split_ifs with hd
  · rw [hd, escapeChar_of_white hws hn hr, List.count_singleton_self]
  · refine List.count_eq_zero.mpr fun hmem => ?_
    obtain rfl | rfl | rfl | rfl | ⟨rfl, -, -⟩ := mem_escapeChar hmem
    · cases hws
    · cases hws
    · cases hws
    · cases hws
    · exact hd rfl

/-- Unescaping adds no character but line breaks. -/
lemma count_unescapeText_le {c : Char} (hc : c ≠ '\n') (t : Text) :
    (unescapeText t).count c ≤ t.count c := by
  fun_induction unescapeText t with
  | case1 => exact le_rfl
  | case2 d => exact le_rfl
  | case3 d t ih =>
    have hle : t.count c + (if d = c then 1 else 0) ≤ ('\\' :: d :: t).count c := by
      simp only [List.count_cons, beq_iff_eq]
      omega
    by_cases hd : d = 'n' ∨ d = 'N'
    · rw [if_pos hd, List.count_cons_of_ne hc.symm]
      omega
    · rw [if_neg hd, List.count_cons]
      simp only [beq_iff_eq]
      omega
  | case4 d d' t h ih =>
    rw [List.count_cons, List.count_cons (b := d)]
    omega

lemma length_unescapeText_le (t : Text) : (unescapeText t).length ≤ t.length := by
  fun_induction unescapeText t with
  | case1 => exact le_rfl
  | case2 d => exact le_rfl
  | case3 d t ih =>
    simp only [List.length_cons]
    omega
  | case4 d d' t h ih =>
    rw [List.length_cons, List.length_cons]
    omega

/-! ### Texts that survive -/

/-- A text that is read back as it was after it is escaped and trimmed: there is no carriage return
in it, and no white space but line breaks at its end. -/
def Survives (t : Text) : Prop := '\r' ∉ t ∧ ∀ c ∈ t.getLast?, isWhitespace c = true → c = '\n'

lemma escapeText_last {c : Char} (hr : c ≠ '\r') (hc : isWhitespace c = true → c = '\n')
    (t : Text) : ∀ d ∈ (escapeText (t ++ [c])).getLast?, isWhitespace d = false := by
  have hlast : ∃ u d, escapeChar c = u ++ [d] ∧ isWhitespace d = false := by
    unfold escapeChar
    split_ifs with h₁ h₂ h₃ h₄
    · exact ⟨['\\'], '\\', rfl, rfl⟩
    · exact ⟨['\\'], ';', rfl, rfl⟩
    · exact ⟨['\\'], ',', rfl, rfl⟩
    · exact ⟨['\\'], 'n', rfl, rfl⟩
    · exact ⟨[], c, rfl, Bool.eq_false_iff.mpr fun h => h₄ (hc h)⟩
  obtain ⟨u, d, hchar, hd⟩ := hlast
  intro e he
  rw [escapeText_append, escapeText_cons, hchar, show escapeText [] = [] from rfl,
    List.append_nil, ← List.append_assoc, List.getLast?_concat] at he
  exact Option.some.inj he ▸ hd

lemma count_trimEnd_le (c : Char) (t : Text) : (trimEnd t).count c ≤ t.count c :=
  (List.rdropWhile_prefix isWhitespace t).sublist.count_le c

/-- Escaped, trimmed and unescaped, a text comes back exactly if it survives. -/
lemma survives_iff (t : Text) : unescapeText (trimEnd (escapeText t)) = t ↔ Survives t := by
  constructor
  · intro h
    have hle : ∀ c, c ≠ '\n' → t.count c ≤ (trimEnd (escapeText t)).count c := by
      intro c hc
      have := count_unescapeText_le hc (trimEnd (escapeText t))
      rwa [h] at this
    have hr : '\r' ∉ t := by
      intro hmem
      have hpos := List.count_pos_iff.mpr hmem
      have hzero := List.count_eq_zero.mpr (notMem_escapeText (.inr rfl) t)
      have := hle '\r' (by decide)
      have := count_trimEnd_le '\r' (escapeText t)
      omega
    refine ⟨hr, fun c hc hws => ?_⟩
    by_contra hn
    obtain ⟨u, rfl⟩ := List.getLast?_eq_some_iff.mp hc
    have hcr : c ≠ '\r' := by
      rintro rfl
      exact hr (by simp)
    have hchar := escapeChar_of_white hws hn hcr
    have htrim : trimEnd (escapeText (u ++ [c])) = trimEnd (escapeText u) := by
      rw [escapeText_append, escapeText_cons, hchar]
      exact trimEnd_append_of_all (fun d hd => List.mem_singleton.mp hd ▸ hws) _
    have h₁ := hle c hn
    have h₂ := count_trimEnd_le c (escapeText u)
    rw [htrim, List.count_append, List.count_singleton_self] at h₁
    rw [count_escapeText (count_escapeChar hws hn hcr)] at h₂
    omega
  · rintro ⟨hr, hlast⟩
    have htrim : trimEnd (escapeText t) = escapeText t := by
      refine trimEnd_eq_self ?_
      cases hl : t.getLast? with
      | none =>
        rw [List.getLast?_eq_none_iff.mp hl]
        intro c hc
        cases hc
      | some c =>
        obtain ⟨u, rfl⟩ := List.getLast?_eq_some_iff.mp hl
        refine escapeText_last ?_ (hlast c hl) u
        rintro rfl
        exact hr (by simp)
    rw [htrim, unescapeText_escapeText hr]

/-- An unescaped text is read back as it is: no white space at its end, and no backslash but the
last character. -/
def Verbatim (t : Text) : Prop :=
  (∀ c ∈ t.getLast?, isWhitespace c = false) ∧ '\\' ∉ t.dropLast

lemma unescapeText_eq_self_iff (t : Text) : unescapeText t = t ↔ '\\' ∉ t.dropLast := by
  fun_induction unescapeText t with
  | case1 => simp
  | case2 c => simp
  | case3 d t ih =>
    refine iff_of_false (fun h => ?_) (by simp)
    have := congrArg List.length h
    have := length_unescapeText_le t
    simp only [List.length_cons] at *
    omega
  | case4 c d t h ih =>
    rw [List.cons.injEq, List.dropLast_cons_cons, List.mem_cons, ih]
    simp [Ne.symm h]

/-- Trimmed and unescaped, a text comes back exactly if it can be written as it is. -/
lemma verbatim_iff (t : Text) : unescapeText (trimEnd t) = t ↔ Verbatim t := by
  constructor
  · intro h
    have hpre : trimEnd t <+: t := List.rdropWhile_prefix isWhitespace t
    have hlen : t.length ≤ (trimEnd t).length := by
      have := length_unescapeText_le (trimEnd t)
      rwa [h] at this
    have htrim : trimEnd t = t := hpre.eq_of_length_le hlen
    refine ⟨fun c hc => ?_, (unescapeText_eq_self_iff t).mp (by rwa [htrim] at h)⟩
    obtain ⟨u, rfl⟩ := List.getLast?_eq_some_iff.mp hc
    have hlast := List.rdropWhile_eq_self_iff.mp htrim (by simp)
    simpa using hlast
  · rintro ⟨hlast, hmem⟩
    rw [trimEnd_eq_self hlast]
    exact (unescapeText_eq_self_iff t).mpr hmem

end Orchid.Calendar
