import Mathlib.Data.List.TakeWhile
import Orchid.Calc.Engine

/-!
# Typing a number

The keys of a number leave its text as the entry, whatever was shown before.
-/

namespace Orchid.Calc

variable {α : Type} (A : Arithmetic α)

/-! ### Digits -/

/-- A text without an exponent. -/
def Plain (s : Text) : Prop := ∀ c ∈ s, c ≠ 'e' ∧ c ≠ 'E'

lemma digitChar_spec (d : Fin 10) :
    (digitChar d).isDigit = true ∧ digitChar d ≠ 'e' ∧ digitChar d ≠ 'E' ∧ digitChar d ≠ '-' ∧
      digitChar d ≠ '.' ∧ digitChar d ≠ '+' := by
  revert d
  decide

lemma digitChar_eq_zero {d : Fin 10} (h : digitChar d = '0') : d = 0 := by
  revert d
  decide

lemma plain_digits (ds : List (Fin 10)) : Plain (ds.map digitChar) := by
  intro c hc
  obtain ⟨d, -, rfl⟩ := List.mem_map.mp hc
  exact ⟨(digitChar_spec d).2.1, (digitChar_spec d).2.2.1⟩

lemma Plain.append {s t : Text} (hs : Plain s) (ht : Plain t) : Plain (s ++ t) := by
  intro c hc
  rcases List.mem_append.mp hc with hc | hc
  · exact hs c hc
  · exact ht c hc

namespace Calculator

lemma significantDigitCount_of_plain {s : Text} (h : Plain s) :
    significantDigitCount s = (s.filter fun c => c.isDigit).length := by
  unfold significantDigitCount
  rw [List.takeWhile_eq_self_iff.mpr fun c hc => by simp [h c hc]]

lemma significantDigitCount_append {s : Text} (h : Plain s) (ds : List (Fin 10)) :
    significantDigitCount (s ++ ds.map digitChar) = significantDigitCount s + ds.length := by
  have hdigits : ((ds.map digitChar).filter fun c => c.isDigit) = ds.map digitChar := by
    refine List.filter_eq_self.mpr fun c hc => ?_
    obtain ⟨d, -, rfl⟩ := List.mem_map.mp hc
    exact (digitChar_spec d).1
  rw [significantDigitCount_of_plain h,
    significantDigitCount_of_plain (h.append (plain_digits ds)), List.filter_append, hdigits,
    List.length_append, List.length_map]

/-! ### The entry -/

/-- A number is being typed; the rest is as before. -/
structure Typing (c₀ c : Calculator α) (entry : Text) : Prop where
  error : c.error = none
  entry_eq : c.entry = entry
  entering : c.entering = true
  overwrite : c.overwrite = false
  lastOp : c.lastOp = none
  mode : c.mode = c₀.mode
  stack : c.stack = c₀.stack
  pending : c.pending = c₀.pending

/-- A new operand can be typed. -/
structure Fresh (c : Calculator α) : Prop where
  error : c.error = none
  begin : (c.overwrite || !c.entering) = true

variable {A}

lemma pressAll_cons (c : Calculator α) (key : CalcKey) (keys : List CalcKey) :
    c.pressAll A (key :: keys) = (c.press A key).pressAll A keys := rfl

lemma pressAll_append (c : Calculator α) (keys keys' : List CalcKey) :
    c.pressAll A (keys ++ keys') = (c.pressAll A keys).pressAll A keys' :=
  List.foldl_append

lemma press_digit {c : Calculator α} (h : c.error = none) (d : Fin 10) :
    c.press A (.digit d) = c.inputDigit A d := by
  unfold press
  rw [h]

/-- One more digit. -/
lemma Typing.digit {c₀ c : Calculator α} {e : Text} (h : Typing c₀ c e) (d : Fin 10)
    (hzero : e ≠ ['0']) (hcount : significantDigitCount e < maxDigits) :
    Typing c₀ (c.press A (.digit d)) (e ++ [digitChar d]) := by
  have hbegin : { c with lastOp := none }.beginEntry [] = { c with lastOp := none } := by
    unfold beginEntry
    rw [if_neg (by simp [h.overwrite, h.entering])]
  rw [press_digit h.error]
  unfold inputDigit
  rw [hbegin]
  dsimp only
  rw [h.entry_eq, if_neg hzero]
  dsimp only
  rw [if_neg (not_le.mpr hcount)]
  exact ⟨h.error, rfl, h.entering, h.overwrite, rfl, h.mode, h.stack, h.pending⟩

/-- The first digit. -/
lemma Fresh.digit {c : Calculator α} (h : Fresh c) (d : Fin 10) :
    Typing c (c.press A (.digit d)) [digitChar d] := by
  have hbegin : { c with lastOp := none }.beginEntry [] =
      { c with lastOp := none, entry := [], entering := true, overwrite := false } := by
    unfold beginEntry
    rw [if_pos h.begin]
  rw [press_digit h.error]
  unfold inputDigit
  rw [hbegin]
  exact ⟨h.error, rfl, rfl, rfl, rfl, rfl, rfl, rfl⟩

lemma Typing.digits {c₀ c : Calculator α} {e : Text} (h : Typing c₀ c e) (ds : List (Fin 10))
    (hplain : Plain e) (hne : e ≠ []) (hzero : ds ≠ [] → e ≠ ['0'])
    (hcount : significantDigitCount e + ds.length ≤ maxDigits) :
    Typing c₀ (c.pressAll A (ds.map .digit)) (e ++ ds.map digitChar) := by
  induction ds generalizing c e with
  | nil =>
    rw [List.map_nil, List.map_nil, List.append_nil]
    exact h
  | cons d ds ih =>
    have hone := h.digit (A := A) d (hzero (List.cons_ne_nil _ _)) (by
      rw [List.length_cons] at hcount
      omega)
    have hcount' : significantDigitCount (e ++ [digitChar d]) = significantDigitCount e + 1 :=
      significantDigitCount_append hplain [d]
    have hrest := ih hone (hplain.append (plain_digits [d])) (by simp) (fun _ => by
      intro heq
      have hlen := congrArg List.length heq
      rw [List.length_append, List.length_singleton, List.length_singleton] at hlen
      exact hne (List.length_eq_zero_iff.mp (by omega))) (by
      rw [hcount']
      rw [List.length_cons] at hcount
      omega)
    rw [List.map_cons, pressAll_cons, List.map_cons]
    rwa [List.append_assoc] at hrest

/-- The point. -/
lemma Typing.decimal {c₀ c : Calculator α} {e : Text} (h : Typing c₀ c e) (hplain : Plain e)
    (hne : e ≠ []) (hpoint : '.' ∉ e) : Typing c₀ (c.press A .decimal) (e ++ ['.']) := by
  have hbegin : { c with lastOp := none }.beginEntry ['0'] = { c with lastOp := none } := by
    unfold beginEntry
    rw [if_neg (by simp [h.overwrite, h.entering])]
  have hno : ¬ ('.' ∈ e ∨ 'e' ∈ e ∨ 'E' ∈ e) := by
    rintro (hin | hin | hin)
    · exact hpoint hin
    · exact (hplain _ hin).1 rfl
    · exact (hplain _ hin).2 rfl
  unfold press
  rw [h.error]
  dsimp only
  unfold inputDecimal
  rw [hbegin]
  dsimp only
  rw [h.entry_eq, if_neg hno, if_neg hne]
  exact ⟨h.error, rfl, h.entering, h.overwrite, rfl, h.mode, h.stack, h.pending⟩

/-- The keys of a number leave its text. -/
lemma Fresh.number {c : Calculator α} (h : Fresh c) (n : Number) :
    Typing c (c.pressAll A n.keys) n.text := by
  obtain ⟨d, ds, hwhole⟩ := List.exists_cons_of_ne_nil n.nonempty
  have hshort := n.short
  have hlead := n.noLeadingZero
  have hfirst := h.digit (A := A) d
  rw [hwhole] at hshort hlead
  have hcount : significantDigitCount [digitChar d] = 1 :=
    significantDigitCount_append (s := []) nofun [d]
  have hdigits := hfirst.digits (A := A) ds (plain_digits [d]) (List.cons_ne_nil _ _) (by
    intro hds heq
    have hd : d = 0 := digitChar_eq_zero (List.cons.inj heq).1
    exact hds (List.cons.inj (hlead (by rw [hd]; rfl))).2) (by
      rw [hcount]
      rw [List.length_cons] at hshort
      omega)
  unfold Number.keys Number.text
  rw [hwhole, pressAll_append, List.map_cons, pressAll_cons]
  cases hfrac : n.frac with
  | none =>
    rw [List.append_nil]
    exact hdigits
  | some fs =>
    have hwhole' : [digitChar d] ++ ds.map digitChar = (d :: ds).map digitChar := rfl
    rw [hwhole'] at hdigits
    have hpoint : '.' ∉ (d :: ds).map digitChar := by
      intro hin
      obtain ⟨d', -, hd'⟩ := List.mem_map.mp hin
      exact (digitChar_spec d').2.2.2.2.1 hd'
    have hdecimal := hdigits.decimal (A := A) (plain_digits _) (List.cons_ne_nil _ _) hpoint
    have hplain : Plain ((d :: ds).map digitChar ++ ['.']) := by
      refine (plain_digits _).append fun c hc => ?_
      obtain rfl := List.mem_singleton.mp hc
      decide
    have hcount' : significantDigitCount ((d :: ds).map digitChar ++ ['.']) = ds.length + 1 := by
      have hdot : List.filter (fun c => c.isDigit) ['.'] = [] := rfl
      rw [significantDigitCount_of_plain hplain, List.filter_append, hdot, List.append_nil,
        ← significantDigitCount_of_plain (plain_digits _)]
      exact (significantDigitCount_append (s := []) nofun (d :: ds)).trans (Nat.zero_add _)
    rw [hfrac] at hshort
    have hall := hdecimal.digits (A := A) fs hplain (by simp) (fun _ => by simp) (by
      rw [hcount']
      exact hshort)
    dsimp only
    rw [pressAll_cons]
    rwa [List.append_assoc] at hall

end Calculator

/-! ### Its value -/

/-- The value of a number. -/
def Arithmetic.num (n : Number) : α := (A.parse n.text).getD A.zero

variable {A}

lemma Number.parse_text (n : Number) : A.parse n.text = some (A.num n) := by
  obtain ⟨v, hv, -⟩ := A.parses n
  unfold Arithmetic.num
  rw [hv]
  rfl

lemma Number.finite_num (n : Number) : A.fault (A.num n) = none := by
  obtain ⟨v, hv, hfault⟩ := A.parses n
  unfold Arithmetic.num
  rw [hv]
  exact hfault

lemma Number.mem_text {n : Number} {c : Char} (h : c ∈ n.text) :
    c.isDigit = true ∨ c = '.' := by
  have hdigit {ds : List (Fin 10)} (h : c ∈ ds.map digitChar) : c.isDigit = true := by
    obtain ⟨d, -, rfl⟩ := List.mem_map.mp h
    exact (digitChar_spec d).1
  unfold Number.text at h
  rcases List.mem_append.mp h with h | h
  · exact Or.inl (hdigit h)
  · cases hfrac : n.frac with
    | none =>
      rw [hfrac] at h
      cases h
    | some fs =>
      rw [hfrac] at h
      rcases List.mem_cons.mp h with h | h
      · exact Or.inr h
      · exact Or.inl (hdigit h)

lemma Number.text_ne_nil (n : Number) : n.text ≠ [] := by
  unfold Number.text
  intro h
  exact n.nonempty (List.map_eq_nil_iff.mp (List.append_eq_nil_iff.mp h).1)

/-- The entry of a number has the value of its text. -/
lemma Number.parseEntry_text (n : Number) : A.parseEntry n.text = some (A.num n) := by
  have hlast (s : Text) (c : Char) (hs : ∀ c ∈ s, c ∈ n.text) (hc : c.isDigit = false)
      (hdot : c ≠ '.') : s.getLast? ≠ some c := by
    intro h
    rcases n.mem_text (hs c (List.mem_of_getLast? h)) with hd | hd
    · rw [hc] at hd
      cases hd
    · exact hdot hd
  have hminus : '-' ∉ n.text := by
    intro h
    rcases n.mem_text h with hd | hd
    · exact absurd hd (by decide)
    · exact absurd hd (by decide)
  have hdot : n.text ≠ ['.'] := by
    obtain ⟨d, ds, hwhole⟩ := List.exists_cons_of_ne_nil n.nonempty
    unfold Number.text
    rw [hwhole]
    intro h
    exact (digitChar_spec d).2.2.2.2.1 (List.cons.inj h).1
  unfold Arithmetic.parseEntry
  rw [if_neg, if_neg, if_neg]
  · exact n.parse_text
  · rintro (h | h)
    · exact hlast _ 'e' (fun _ hc => List.dropLast_subset _ hc) rfl (by decide) h
    · exact hlast _ 'E' (fun _ hc => List.dropLast_subset _ hc) rfl (by decide) h
  · rintro (h | h)
    · exact hlast _ 'e' (fun _ hc => hc) rfl (by decide) h
    · exact hlast _ 'E' (fun _ hc => hc) rfl (by decide) h
  · rintro (h | h | h | h)
    · exact n.text_ne_nil h
    · exact hminus (h ▸ List.mem_singleton_self _)
    · exact hdot h
    · exact hminus (h ▸ List.mem_cons_self)

end Orchid.Calc
