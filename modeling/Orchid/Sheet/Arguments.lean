import Mathlib.Algebra.Group.Nat.Even
import Orchid.Base.Machine
import Orchid.Lib.ByteText

/-!
# Arguments of a call

`split_top_args` in `orchid-viewers/src/office/calc.rs` finds where the arguments of a call begin
and end. It knows double quotes and parentheses, and counts bytes.
-/

namespace Orchid.Sheet

/-! ### The scanner -/

def quoteByte : U8 := Fin.ofNat (2 ^ 8) 34

def openByte : U8 := Fin.ofNat (2 ^ 8) 40

def closeByte : U8 := Fin.ofNat (2 ^ 8) 41

def commaByte : U8 := Fin.ofNat (2 ^ 8) 44

/-- Whether the scanner is in a string; of a doubled quote it takes the second byte with the
first. -/
inductive InString
  | outside
  | inside
  | doubled
  deriving DecidableEq

/-- The loop of `split_top_args`, over the bytes from `index` on. -/
def splitFrom : List U8 → (index depth : ℕ) → InString → (argStart : ℕ) → List (ℕ × ℕ) →
    Option (List (ℕ × ℕ) × ℕ)
  | [], _, _, _, _, _ => none
  | b :: bytes, index, depth, .inside, argStart, args =>
    if b = quoteByte then
      if bytes.head? = some quoteByte then splitFrom bytes (index + 1) depth .doubled argStart args
      else splitFrom bytes (index + 1) depth .outside argStart args
    else splitFrom bytes (index + 1) depth .inside argStart args
  | _ :: bytes, index, depth, .doubled, argStart, args =>
    splitFrom bytes (index + 1) depth .inside argStart args
  | b :: bytes, index, depth, .outside, argStart, args =>
    if b = quoteByte then splitFrom bytes (index + 1) depth .inside argStart args
    else if b = openByte then splitFrom bytes (index + 1) (depth + 1) .outside argStart args
    else if b = closeByte then
      if depth = 0 then some (args ++ [(argStart, index)], index + 1)
      else splitFrom bytes (index + 1) (depth - 1) .outside argStart args
    else if b = commaByte ∧ depth = 0 then
      splitFrom bytes (index + 1) 0 .outside (index + 1) (args ++ [(argStart, index)])
    else splitFrom bytes (index + 1) depth .outside argStart args

/-- `split_top_args` -/
def splitTopArgs (bytes : List U8) (start : ℕ) : Option (List (ℕ × ℕ) × ℕ) :=
  splitFrom (bytes.drop start) start 0 .outside start []

/-! ### Arguments one by one -/

/-- Arguments with commas between them. -/
def joinArgs : List (List U8) → List U8
  | [] => []
  | [arg] => arg
  | arg :: next :: rest => arg ++ commaByte :: joinArgs (next :: rest)

/-- The ranges of arguments that stand one behind the other. -/
def argRanges : ℕ → List (List U8) → List (ℕ × ℕ)
  | _, [] => []
  | start, arg :: rest => (start, start + arg.length) :: argRanges (start + arg.length + 1) rest

/-- What stands outside double quotes; the quotes take turns. -/
def unquoted : Bool → List U8 → List U8
  | _, [] => []
  | quoted, b :: bytes =>
    if b = quoteByte then unquoted (!quoted) bytes
    else if quoted then unquoted quoted bytes
    else b :: unquoted quoted bytes

/-- In a text at some depth each closing parenthesis has its partner before it, all have theirs in
the end, and each comma stands within a pair. -/
structure BalancedFrom (depth : ℕ) (text : List U8) : Prop where
  closed : ∀ front, front <+: text → front.count closeByte ≤ depth + front.count openByte
  all : text.count closeByte = depth + text.count openByte
  commas : ∀ front, front ++ [commaByte] <+: text →
    front.count closeByte < depth + front.count openByte

/-- Each double quote has its partner, and what stands outside of them is balanced. -/
structure Balanced (arg : List U8) : Prop where
  quotes : Even (arg.count quoteByte)
  outside : BalancedFrom 0 (unquoted false arg)

lemma balancedFrom_cons {depth : ℕ} {b : U8} {text : List U8} :
    BalancedFrom depth (b :: text) ↔
      (if b == closeByte then 1 else 0) ≤ depth + (if b == openByte then 1 else 0) ∧
      (b = commaByte → 0 < depth) ∧
      BalancedFrom (depth + (if b == openByte then 1 else 0) - if b == closeByte then 1 else 0)
        text := by
  generalize hopen : (if b == openByte then 1 else 0) = o
  generalize hclose : (if b == closeByte then 1 else 0) = c
  have hcount (front : List U8) : (b :: front).count openByte = front.count openByte + o ∧
      (b :: front).count closeByte = front.count closeByte + c := by
    rw [List.count_cons, List.count_cons, hopen, hclose]
    exact ⟨rfl, rfl⟩
  constructor
  · rintro ⟨hclosed, hall, hcommas⟩
    have hfirst := hclosed [b] ⟨text, rfl⟩
    rw [(hcount []).1, (hcount []).2, List.count_nil, List.count_nil] at hfirst
    have hroom : c ≤ depth + o := by omega
    refine ⟨hroom, ?_, fun front hfront => ?_, ?_, fun front hfront => ?_⟩
    · rintro rfl
      have hcomma := hcommas [] ⟨text, rfl⟩
      rw [List.count_nil, List.count_nil] at hcomma
      omega
    · have h := hclosed (b :: front) (List.cons_prefix_cons.mpr ⟨rfl, hfront⟩)
      rw [(hcount front).1, (hcount front).2] at h
      omega
    · rw [(hcount text).1, (hcount text).2] at hall
      omega
    · have h := hcommas (b :: front) (List.cons_prefix_cons.mpr ⟨rfl, hfront⟩)
      rw [(hcount front).1, (hcount front).2] at h
      omega
  · rintro ⟨hroom, hcomma, hclosed, hall, hcommas⟩
    refine ⟨fun front hfront => ?_, ?_, fun front hfront => ?_⟩
    · cases front with
      | nil => simp
      | cons a front =>
        obtain ⟨rfl, hrest⟩ := List.cons_prefix_cons.mp hfront
        have h := hclosed front hrest
        rw [(hcount front).1, (hcount front).2]
        omega
    · rw [(hcount text).1, (hcount text).2]
      omega
    · cases front with
      | nil =>
        have h := hcomma (List.cons_prefix_cons.mp hfront).1.symm
        rw [List.count_nil, List.count_nil]
        omega
      | cons a front =>
        obtain ⟨rfl, hrest⟩ := List.cons_prefix_cons.mp hfront
        have h := hcommas front hrest
        rw [(hcount front).1, (hcount front).2]
        omega

lemma balancedFrom_nil {depth : ℕ} : BalancedFrom depth [] ↔ depth = 0 :=
  ⟨fun h => by simpa using h.all.symm, fun h => ⟨by simp, by simp [h], by simp⟩⟩

/-! ### What ends an argument -/

/-- The scanner comes through a text, at some depth, without an end of an argument, and is then
outside of everything. -/
def comesThrough : List U8 → ℕ → Bool → Bool
  | [], depth, quoted => depth == 0 && !quoted
  | b :: bytes, depth, quoted =>
    if b = quoteByte then comesThrough bytes depth (!quoted)
    else if quoted then comesThrough bytes depth quoted
    else if b = openByte then comesThrough bytes (depth + 1) quoted
    else if b = closeByte then depth != 0 && comesThrough bytes (depth - 1) quoted
    else if b = commaByte then depth != 0 && comesThrough bytes depth quoted
    else comesThrough bytes depth quoted

lemma comesThrough_iff {arg : List U8} {depth : ℕ} {quoted : Bool} :
    comesThrough arg depth quoted = true ↔
      (Even (arg.count quoteByte) ↔ quoted = false) ∧ BalancedFrom depth (unquoted quoted arg) := by
  induction arg generalizing depth quoted with
  | nil =>
    rw [comesThrough, unquoted, balancedFrom_nil]
    simp [and_comm]
  | cons b arg ih =>
    rw [comesThrough, unquoted]
    by_cases hquote : b = quoteByte
    · subst hquote
      rw [if_pos rfl, if_pos rfl, ih, List.count_cons_self, Nat.even_add_one]
      cases quoted <;> simp
    · rw [if_neg hquote, if_neg hquote, List.count_cons_of_ne hquote]
      cases quoted with
      | true => exact ih
      | false =>
        simp only [Bool.false_eq_true, if_false, balancedFrom_cons]
        by_cases hopen : b = openByte
        · subst hopen
          have hclose : (openByte == closeByte) = false := by decide
          have hcomma : openByte ≠ commaByte := by decide
          simp [hclose, hcomma, ih]
        · have hopen' : (b == openByte) = false := beq_false_of_ne hopen
          rw [if_neg hopen]
          by_cases hclose : b = closeByte
          · subst hclose
            have hcomma : closeByte ≠ commaByte := by decide
            simp only [hopen', hcomma, if_true, beq_self_eq_true, Bool.and_eq_true, bne_iff_ne, ih,
              Bool.false_eq_true, if_false, Nat.add_zero, Nat.one_le_iff_ne_zero]
            tauto
          · have hclose' : (b == closeByte) = false := beq_false_of_ne hclose
            rw [if_neg hclose]
            by_cases hcomma : b = commaByte
            · subst hcomma
              simp only [hopen', hclose', if_true, Bool.and_eq_true, bne_iff_ne, ih,
                Bool.false_eq_true, if_false, Nat.add_zero, Nat.sub_zero, Nat.pos_iff_ne_zero,
                Nat.zero_le, true_and, forall_const]
              tauto
            · simp [hopen', hclose', hcomma, ih]

/-- A text is an argument by itself if and only if the scanner comes through it. -/
lemma comesThrough_iff_balanced {arg : List U8} :
    comesThrough arg 0 false = true ↔ Balanced arg := by
  rw [comesThrough_iff]
  exact ⟨fun h => ⟨h.1.mpr rfl, h.2⟩, fun h => ⟨iff_of_true h.quotes rfl, h.outside⟩⟩

/-! ### What the scanner finds -/

/-- The range that is open is closed first, and not before the place where the scanner is. -/
lemma exists_end {bytes : List U8} {index depth argStart : ℕ} {state : InString}
    {args ranges : List (ℕ × ℕ)} {finish : ℕ}
    (h : splitFrom bytes index depth state argStart args = some (ranges, finish)) :
    ∃ k more, ranges = args ++ (argStart, k) :: more ∧ index ≤ k := by
  induction bytes generalizing index depth argStart state args with
  | nil =>
    cases state <;> cases h
  | cons b bytes ih =>
    have hlater {depth : ℕ} {state : InString}
        (h : splitFrom bytes (index + 1) depth state argStart args = some (ranges, finish)) :
        ∃ k more, ranges = args ++ (argStart, k) :: more ∧ index ≤ k := by
      obtain ⟨k, more, hranges, hk⟩ := ih h
      exact ⟨k, more, hranges, by omega⟩
    cases state with
    | inside =>
      rw [splitFrom] at h
      split_ifs at h
      all_goals exact hlater h
    | doubled => exact hlater h
    | outside =>
      rw [splitFrom] at h
      split_ifs at h with hquote hopen hclose hdepth hcomma
      · exact hlater h
      · exact hlater h
      · obtain ⟨rfl, -⟩ := Prod.mk.inj (Option.some.inj h)
        exact ⟨index, [], rfl, le_rfl⟩
      · exact hlater h
      · obtain ⟨k, more, rfl, -⟩ := ih h
        exact ⟨index, (index + 1, k) :: more, by simp, le_rfl⟩
      · exact hlater h

/-- The two ways to keep track of quotes. -/
def Follows (bytes : List U8) : InString → Bool → Prop
  | .outside, quoted => quoted = false
  | .inside, quoted => quoted = true
  | .doubled, quoted => quoted = false ∧ bytes.head? = some quoteByte

/-- One byte before the end of an argument: the scanner goes on, or the range ends here and the
text is no argument. -/
lemma splitFrom_step {b sep : U8} {arg rest : List U8} (hsep : sep ≠ quoteByte)
    {index depth argStart : ℕ} {state : InString} {quoted : Bool} {args : List (ℕ × ℕ)}
    (hstate : Follows (b :: arg) state quoted) :
    (∃ depth' state' quoted', Follows arg state' quoted' ∧
      comesThrough (b :: arg) depth quoted = comesThrough arg depth' quoted' ∧
      splitFrom (b :: (arg ++ sep :: rest)) index depth state argStart args =
        splitFrom (arg ++ sep :: rest) (index + 1) depth' state' argStart args) ∨
    comesThrough (b :: arg) depth quoted = false ∧
      ∀ ranges finish, splitFrom (b :: (arg ++ sep :: rest)) index depth state argStart args =
        some (ranges, finish) → ∃ more, ranges = args ++ (argStart, index) :: more := by
  cases state with
  | inside =>
    obtain rfl : quoted = true := hstate
    rw [splitFrom, comesThrough]
    by_cases hquote : b = quoteByte
    · rw [if_pos hquote, if_pos hquote]
      by_cases hhead : (arg ++ sep :: rest).head? = some quoteByte
      · rw [if_pos hhead]
        refine .inl ⟨depth, .doubled, false, ⟨rfl, ?_⟩, rfl, rfl⟩
        cases arg with
        | nil => exact absurd (Option.some.inj hhead) hsep
        | cons c arg => exact hhead
      · rw [if_neg hhead]
        exact .inl ⟨depth, .outside, false, rfl, rfl, rfl⟩
    · rw [if_neg hquote, if_neg hquote]
      exact .inl ⟨depth, .inside, true, rfl, rfl, rfl⟩
  | doubled =>
    obtain ⟨rfl, hhead⟩ := hstate
    obtain rfl : b = quoteByte := Option.some.inj hhead
    rw [splitFrom, comesThrough, if_pos rfl]
    exact .inl ⟨depth, .inside, true, rfl, rfl, rfl⟩
  | outside =>
    obtain rfl : quoted = false := hstate
    rw [splitFrom, comesThrough]
    by_cases hquote : b = quoteByte
    · rw [if_pos hquote, if_pos hquote]
      exact .inl ⟨depth, .inside, true, rfl, rfl, rfl⟩
    rw [if_neg hquote, if_neg hquote, if_neg Bool.false_ne_true]
    by_cases hopen : b = openByte
    · rw [if_pos hopen, if_pos hopen]
      exact .inl ⟨depth + 1, .outside, false, rfl, rfl, rfl⟩
    rw [if_neg hopen, if_neg hopen]
    by_cases hclose : b = closeByte
    · rw [if_pos hclose, if_pos hclose]
      by_cases hdepth : depth = 0
      · subst hdepth
        rw [if_pos rfl]
        refine .inr ⟨rfl, fun ranges finish h => ⟨[], ?_⟩⟩
        exact (Prod.mk.inj (Option.some.inj h)).1.symm
      · rw [if_neg hdepth]
        exact .inl ⟨depth - 1, .outside, false, rfl, by simp [hdepth], rfl⟩
    rw [if_neg hclose, if_neg hclose]
    by_cases hcomma : b = commaByte
    · rw [if_pos hcomma]
      by_cases hdepth : depth = 0
      · subst hdepth
        rw [if_pos ⟨hcomma, rfl⟩]
        refine .inr ⟨rfl, fun ranges finish h => ?_⟩
        obtain ⟨k, more, rfl, -⟩ := exists_end h
        exact ⟨_, by rw [List.append_assoc]; rfl⟩
      · rw [if_neg fun h => hdepth h.2]
        exact .inl ⟨depth, .outside, false, rfl, by simp [hdepth], rfl⟩
    · rw [if_neg hcomma, if_neg fun h => hcomma h.1]
      exact .inl ⟨depth, .outside, false, rfl, rfl, rfl⟩

/-- A text through which the scanner comes is passed over. -/
lemma splitFrom_of_comesThrough {arg rest : List U8} {sep : U8} (hsep : sep ≠ quoteByte)
    {index depth argStart : ℕ} {state : InString} {quoted : Bool} {args : List (ℕ × ℕ)}
    (hstate : Follows arg state quoted) (h : comesThrough arg depth quoted = true) :
    splitFrom (arg ++ sep :: rest) index depth state argStart args =
      splitFrom (sep :: rest) (index + arg.length) 0 .outside argStart args := by
  induction arg generalizing index depth state quoted with
  | nil =>
    obtain ⟨rfl, rfl⟩ : depth = 0 ∧ quoted = false := by simpa [comesThrough] using h
    cases state with
    | outside => rfl
    | inside => cases hstate
    | doubled => cases hstate.2
  | cons b arg ih =>
    rcases splitFrom_step hsep hstate with ⟨depth', state', quoted', hstate', hthrough, hsplit⟩ |
      ⟨hthrough, -⟩
    · rw [List.cons_append, hsplit, ih hstate' (hthrough ▸ h), List.length_cons]
      congr 1
      omega
    · rw [h] at hthrough
      cases hthrough

/-- At another text the range ends elsewhere. -/
lemma end_ne_of_not_comesThrough {arg rest : List U8} {sep : U8} (hsep : sep ≠ quoteByte)
    {index depth argStart : ℕ} {state : InString} {quoted : Bool} {args ranges : List (ℕ × ℕ)}
    {finish : ℕ} (hstate : Follows arg state quoted) (h : comesThrough arg depth quoted = false)
    (hsplit : splitFrom (arg ++ sep :: rest) index depth state argStart args =
      some (ranges, finish)) :
    ∃ k more, ranges = args ++ (argStart, k) :: more ∧ k ≠ index + arg.length := by
  induction arg generalizing index depth state quoted with
  | nil =>
    have hlater {depth : ℕ} {state : InString}
        (h : splitFrom rest (index + 1) depth state argStart args = some (ranges, finish)) :
        ∃ k more, ranges = args ++ (argStart, k) :: more ∧ k ≠ index + 0 := by
      obtain ⟨k, more, hranges, hk⟩ := exists_end h
      exact ⟨k, more, hranges, by omega⟩
    rw [List.nil_append] at hsplit
    cases state with
    | inside =>
      rw [splitFrom, if_neg hsep] at hsplit
      exact hlater hsplit
    | doubled => cases hstate.2
    | outside =>
      obtain rfl : quoted = false := hstate
      have hdepth : depth ≠ 0 := by simpa [comesThrough] using h
      rw [splitFrom, if_neg hsep] at hsplit
      split_ifs at hsplit with hopen hclose hcomma
      · exact hlater hsplit
      · exact hlater hsplit
      · exact absurd hcomma.2 hdepth
      · exact hlater hsplit
  | cons b arg ih =>
    rcases splitFrom_step hsep hstate with ⟨depth', state', quoted', hstate', hthrough, hstep⟩ |
      ⟨-, hend⟩
    · rw [List.cons_append, hstep] at hsplit
      obtain ⟨k, more, hranges, hk⟩ := ih hstate' (hthrough ▸ h) hsplit
      refine ⟨k, more, hranges, ?_⟩
      rw [List.length_cons]
      omega
    · obtain ⟨more, hranges⟩ := hend ranges finish hsplit
      refine ⟨index, more, hranges, ?_⟩
      rw [List.length_cons]
      omega

lemma joinArgs_cons {arg : List U8} {args : List (List U8)} (h : args ≠ []) :
    joinArgs (arg :: args) = arg ++ commaByte :: joinArgs args := by
  obtain ⟨next, args, rfl⟩ := List.exists_cons_of_ne_nil h
  rfl

/-- All ranges are right if and only if the scanner comes through each argument. -/
lemma splitFrom_iff {args : List (List U8)} (hargs : args ≠ []) {rest : List U8} {index : ℕ}
    {found : List (ℕ × ℕ)} :
    splitFrom (joinArgs args ++ closeByte :: rest) index 0 .outside index found =
        some (found ++ argRanges index args, index + (joinArgs args).length + 1) ↔
      ∀ arg ∈ args, comesThrough arg 0 false = true := by
  induction args generalizing index found with
  | nil => exact absurd rfl hargs
  | cons arg args ih =>
    have hclose : closeByte ≠ quoteByte := by decide
    have hcomma : commaByte ≠ quoteByte := by decide
    have hstart : Follows arg .outside false := rfl
    -- an argument that ends elsewhere has another range
    have hwrong {sep : U8} {more : List U8} (hsep : sep ≠ quoteByte)
        (h : comesThrough arg 0 false = false) (finish : ℕ) :
        splitFrom (arg ++ sep :: more) index 0 .outside index found ≠
          some (found ++ argRanges index (arg :: args), finish) := by
      intro hsplit
      obtain ⟨k, tail, hranges, hk⟩ := end_ne_of_not_comesThrough hsep hstart h hsplit
      rw [argRanges] at hranges
      exact hk (Prod.mk.inj (List.cons.inj (List.append_cancel_left hranges)).1).2.symm
    rw [List.forall_mem_cons]
    by_cases hnil : args = []
    · subst hnil
      rw [joinArgs]
      by_cases h : comesThrough arg 0 false = true
      · rw [splitFrom_of_comesThrough hclose hstart h]
        simp [splitFrom, argRanges, h, hclose, show closeByte ≠ openByte by decide]
      · exact iff_of_false (hwrong hclose (Bool.eq_false_of_not_eq_true h) _) fun hall => h hall.1
    · rw [joinArgs_cons hnil, List.append_assoc, List.cons_append]
      by_cases h : comesThrough arg 0 false = true
      · have hopen : commaByte ≠ openByte := by decide
        have hshut : commaByte ≠ closeByte := by decide
        have hlength : index + (arg ++ commaByte :: joinArgs args).length + 1 =
            index + arg.length + 1 + (joinArgs args).length + 1 := by
          rw [List.length_append, List.length_cons]
          omega
        rw [splitFrom_of_comesThrough hcomma hstart h, splitFrom, if_neg hcomma, if_neg hopen,
          if_neg hshut, if_pos ⟨rfl, rfl⟩, hlength, argRanges,
          List.append_cons found _ (argRanges (index + arg.length + 1) args),
          ih hnil]
        exact (and_iff_right h).symm
      · exact iff_of_false (hwrong hcomma (Bool.eq_false_of_not_eq_true h) _) fun hall => h hall.1

/-- The arguments of a call are found where they stand if and only if there is one and each of them
is balanced. -/
theorem splitTopArgs_iff (front : List U8) (args : List (List U8)) (rest : List U8) :
    splitTopArgs (front ++ (joinArgs args ++ closeByte :: rest)) front.length =
        some (argRanges front.length args, front.length + (joinArgs args).length + 1) ↔
      args ≠ [] ∧ ∀ arg ∈ args, Balanced arg := by
  rw [splitTopArgs, List.drop_left]
  by_cases hargs : args = []
  · subst hargs
    refine iff_of_false ?_ fun h => h.1 rfl
    simp [joinArgs, argRanges, splitFrom, show closeByte ≠ quoteByte by decide,
      show closeByte ≠ openByte by decide]
  · simp only [← comesThrough_iff_balanced, ne_eq, hargs, not_false_eq_true, true_and]
    exact splitFrom_iff hargs

end Orchid.Sheet
