import Orchid.Lib.ByteText
import Orchid.Sheet.Expression

/-!
# What formulas mean

The trees of formulas, with a level for each operator, and the value of a tree by recursion. The
parser, which computes while it reads, comes to the value of the tree that a text is written from:
an operator that binds tighter goes first, equal ones go from the left, a sign belongs to what
follows it, and a comparison joins no further one.
-/

namespace Orchid.Sheet

open Lib (utf8Bytes utf8Text)

/-- The operators of formulas. -/
inductive Op where
  | mul | div | add | sub | join | eq | ne | le | lt | ge | gt
  deriving DecidableEq

namespace Op

/-- How tight an operator binds. -/
def level : Op → ℕ
  | .mul | .div => 3
  | .add | .sub => 2
  | .join => 1
  | _ => 0

/-- The bytes of an operator. -/
def text : Op → List U8
  | .mul => [ascii '*']
  | .div => [ascii '/']
  | .add => [ascii '+']
  | .sub => [ascii '-']
  | .join => [ascii '&']
  | .eq => [ascii '=']
  | .ne => [ascii '<', ascii '>']
  | .le => [ascii '<', ascii '=']
  | .lt => [ascii '<']
  | .ge => [ascii '>', ascii '=']
  | .gt => [ascii '>']

variable {N : Type} (env : CalcEnv N)

/-- The comparison of an operator that compares. -/
def compares : Op → N → N → Bool
  | .eq, l, r => env.same l r
  | .ne, l, r => !env.same l r
  | .le, l, r => env.less l r || env.same l r
  | .lt, l, r => env.less l r && !env.same l r
  | .ge, l, r => env.less r l || env.same l r
  | _, l, r => env.less r l && !env.same l r

/-- The value of an operator. -/
def combine : Op → CalcValue N → CalcValue N → Option (CalcValue N)
  | .mul => onNumbers fun l r => some (env.mul l r)
  | .div => onNumbers fun l r => if env.isZero r then none else some (env.div l r)
  | .add => onNumbers fun l r => some (env.add l r)
  | .sub => onNumbers fun l r => some (env.sub l r)
  | .join => fun l r => some (.text (calcText env l ++ calcText env r))
  | o => onNumbers fun l r => some (env.flag (o.compares env l r))

end Op

/-- The trees of formulas. A word is a call, a cell or a name, with its value. -/
inductive Expr (N : Type) where
  | number (digits : List U8)
  | text (t : Text)
  | word (bytes : List U8) (value : CalcValue N)
  | plus (e : Expr N)
  | minus (e : Expr N)
  | paren (e : Expr N)
  | op (o : Op) (l r : Expr N)

/-- Can a byte stand in a number? -/
def isNumberByte (b : U8) : Bool := isDigitByte b || b = ascii '.'

/-- Can a word begin with a byte? -/
def beginsWord (b : U8) : Bool := isLetterByte b || b = ascii '$' || b = ascii '_'

/-- The bytes of a text with its quotes written twice. -/
def doubleQuotes (bytes : List U8) : List U8 :=
  bytes.flatMap fun b => if b = quoteByte then [b, b] else [b]

/-- The bytes that can stand behind an operand of a level: of operators that bind less tight, and
the closing parenthesis. -/
def followBytes (n : ℕ) : List U8 :=
  closeByte :: ([Op.mul, .div, .add, .sub, .join, .eq, .ne, .le, .lt, .ge, .gt].filter
    fun o => o.level < n).filterMap fun o => o.text.head?

/-- What can stand behind an operand of a level. -/
def Behind (n : ℕ) (rest : List U8) : Prop := ∀ b ∈ rest.head?, b ∈ followBytes n

namespace Expr

variable {N : Type} (env : CalcEnv N)

/-- How tight the outermost operator binds. -/
def level : Expr N → ℕ
  | .op o _ _ => o.level
  | _ => 4

/-- The text of a tree. -/
def print : Expr N → List U8
  | .number digits => digits
  | .text t => quoteByte :: (doubleQuotes (utf8Bytes t) ++ [quoteByte])
  | .word bytes _ => bytes
  | .plus e => ascii '+' :: e.print
  | .minus e => ascii '-' :: e.print
  | .paren e => openByte :: (e.print ++ [closeByte])
  | .op o l r => l.print ++ (o.text ++ r.print)

/-- The value of a tree. -/
def meaning : Expr N → Option (CalcValue N)
  | .number digits => (env.parse digits).map .num
  | .text t => some (.text t)
  | .word _ value => some value
  | .plus e => e.meaning
  | .minus e => do
    let value ← e.meaning
    let number ← calcNum value
    some (.num (env.neg number))
  | .paren e => e.meaning
  | .op o l r => do
    let left ← l.meaning
    let right ← r.meaning
    o.combine env left right

/-- A tree that is written with the parentheses it needs. -/
def Proper : Expr N → Prop
  | .number digits => digits ≠ [] ∧ ∀ b ∈ digits, isNumberByte b = true
  | .text _ => True
  | .word bytes value => (∃ b ∈ bytes.head?, beginsWord b = true) ∧
      ∀ rest, Behind 4 rest → env.words (bytes ++ rest) = some (value, rest)
  | .plus e => e.level = 4 ∧ e.Proper
  | .minus e => e.level = 4 ∧ e.Proper
  | .paren e => e.Proper
  | .op o l r => o.level ≤ l.level ∧ o.level < r.level ∧ (o.level = 0 → l.level ≠ 0) ∧
      l.Proper ∧ r.Proper

end Expr

/-! ### Bytes -/

lemma mem_followBytes {n : ℕ} {b : U8} :
    b ∈ followBytes n ↔ b = closeByte ∨ ∃ o : Op, o.level < n ∧ o.text.head? = some b := by
  simp only [followBytes, List.mem_cons, List.mem_filterMap, List.mem_filter, decide_eq_true_eq]
  refine or_congr_right (exists_congr fun o => ?_)
  cases o <;> simp

lemma followBytes_mono {n m : ℕ} (hnm : n ≤ m) {b : U8} (h : b ∈ followBytes n) :
    b ∈ followBytes m := by
  obtain hb | ⟨o, ho, hb⟩ := mem_followBytes.mp h
  · exact mem_followBytes.mpr (.inl hb)
  · exact mem_followBytes.mpr (.inr ⟨o, ho.trans_le hnm, hb⟩)

/-- Nothing that can follow an operand belongs to it. -/
lemma followBytes_spec {n : ℕ} {b : U8} (h : b ∈ followBytes n) :
    isSpace b = false ∧ isNumberByte b = false ∧ b ≠ quoteByte := by
  obtain rfl | ⟨o, -, ho⟩ := mem_followBytes.mp h
  · decide
  · cases o <;> cases ho <;> decide

lemma isSpace_eq_false {p : U8 → Bool} {b : U8} (hb : p b = true)
    (hp : [ascii ' ', ascii '\t', ascii '\n', ascii '\r', Fin.ofNat (2 ^ 8) 12].any p = false) :
    isSpace b = false := by
  by_contra hspace
  have hmem : b ∈ [ascii ' ', ascii '\t', ascii '\n', ascii '\r', Fin.ofNat (2 ^ 8) 12] := by
    simpa only [isSpace, Bool.not_eq_false, decide_eq_true_eq, List.mem_cons, List.not_mem_nil,
      or_false] using hspace
  exact List.any_eq_false.mp hp b hmem hb

lemma ne_of_class {p : U8 → Bool} {b c : U8} (hb : p b = true) (hc : p c = false) : b ≠ c :=
  ne_of_apply_ne p (by simp [hb, hc])

/-- A word begins with no byte of a number. -/
lemma isNumberByte_of_beginsWord {b : U8} (hb : beginsWord b = true) : isNumberByte b = false := by
  by_contra hnumber
  have hle : ascii 'A' ≤ ascii 'a' := by decide
  have hword : ascii 'A' ≤ b ∨ b = ascii '$' := by
    have h_ : ascii 'A' ≤ ascii '_' := by decide
    simp only [beginsWord, isLetterByte, Bool.or_eq_true, decide_eq_true_eq] at hb
    obtain ((⟨h, -⟩ | ⟨h, -⟩) | h) | h := hb
    · exact .inl (Fin.le_trans hle h)
    · exact .inl h
    · exact .inr h
    · exact .inl (h ▸ h_)
  have hdigit : b ≤ ascii '9' := by
    have hdot : ascii '.' ≤ ascii '9' := by decide
    simp only [isNumberByte, isDigitByte, Bool.not_eq_false, Bool.or_eq_true,
      decide_eq_true_eq] at hnumber
    obtain ⟨-, h⟩ | h := hnumber
    · exact h
    · exact h ▸ hdot
  obtain h | rfl := hword
  · have hlt : ¬ascii 'A' ≤ ascii '9' := by decide
    exact hlt (Fin.le_trans h hdigit)
  · exact hnumber (by decide)

lemma Behind.skip_eq {n : ℕ} {rest : List U8} (h : Behind n rest) : skip rest = rest := by
  cases rest with
  | nil => rfl
  | cons b rest =>
    simp [skip, (followBytes_spec (h b rfl)).1]

lemma Behind.of_le {n m : ℕ} (hnm : n ≤ m) {rest : List U8} (h : Behind n rest) :
    Behind m rest := fun b hb => followBytes_mono hnm (h b hb)

/-- An operator can stand behind what binds tighter. -/
lemma behind_op {o : Op} {n : ℕ} (h : o.level < n) (rest : List U8) :
    Behind n (o.text ++ rest) := by
  refine fun b hb => mem_followBytes.mpr (.inr ⟨o, h, ?_⟩)
  cases o <;> exact hb

lemma behind_close (n : ℕ) (rest : List U8) : Behind n (closeByte :: rest) := by
  intro b hb
  rw [List.head?_cons, Option.mem_some_iff] at hb
  exact hb ▸ List.mem_cons_self

lemma behind_nil (n : ℕ) : Behind n [] := fun _ h => by cases h

/-! ### Pieces -/

lemma quotedFrom_doubled (bytes raw rest : List U8) (h : rest.head? ≠ some quoteByte) :
    quotedFrom (doubleQuotes bytes ++ quoteByte :: rest) raw = some (raw ++ bytes, rest) := by
  induction bytes generalizing raw with
  | nil =>
    cases rest with
    | nil => simp [doubleQuotes, quotedFrom]
    | cons c rest =>
      have hc : c ≠ quoteByte := fun heq => h (by simp [heq])
      simp [doubleQuotes, quotedFrom, hc]
  | cons b bytes ih =>
    have hcons : doubleQuotes (b :: bytes) =
        (if b = quoteByte then [b, b] else [b]) ++ doubleQuotes bytes := rfl
    rw [hcons]
    split_ifs with hb
    · rw [List.append_assoc, List.cons_append, List.singleton_append, quotedFrom, if_pos hb,
        if_pos hb, ih, hb]
      simp
    · obtain ⟨c, tail, htail⟩ : ∃ c tail, doubleQuotes bytes ++ quoteByte :: rest = c :: tail :=
        List.exists_cons_of_ne_nil (by simp)
      rw [List.append_assoc, List.singleton_append, htail, quotedFrom, if_neg hb, ← htail, ih]
      simp

section Values

variable {N : Type} {env : CalcEnv N}

/-- The byte that a tree begins with is no part of a comparison. -/
lemma head?_print {e : Expr N} (he : e.Proper env) :
    ∃ b ∈ e.print.head?, b ≠ ascii '=' ∧ b ≠ ascii '>' := by
  induction e with
  | number digits =>
    obtain ⟨b, digits, rfl⟩ := List.exists_cons_of_ne_nil he.1
    have hb := he.2 b List.mem_cons_self
    exact ⟨b, rfl, ne_of_class hb (by decide), ne_of_class hb (by decide)⟩
  | text t => exact ⟨quoteByte, rfl, by decide⟩
  | word bytes value =>
    obtain ⟨b, hb, hstart⟩ := he.1
    exact ⟨b, hb, ne_of_class hstart (by decide), ne_of_class hstart (by decide)⟩
  | plus e => exact ⟨ascii '+', rfl, by decide⟩
  | minus e => exact ⟨ascii '-', rfl, by decide⟩
  | paren e => exact ⟨openByte, rfl, by decide⟩
  | op o l r ihl _ =>
    obtain ⟨b, hb, hne⟩ := ihl he.2.2.2.1
    exact ⟨b, by simp [Expr.print, List.head?_append, Option.mem_def.mp hb], hne⟩

lemma cmpOp_text {o : Op} (ho : o.level = 0) {b : U8} (hb : b ≠ ascii '=' ∧ b ≠ ascii '>')
    (rest : List U8) :
    cmpOp env (o.text ++ b :: rest) = some (o.compares env, b :: rest) := by
  have h₁ : ascii '<' ≠ ascii '=' := by decide
  have h₂ : ascii '>' ≠ ascii '=' := by decide
  have h₃ : ascii '>' ≠ ascii '<' := by decide
  cases o <;> simp [Op.level] at ho
  all_goals simp [Op.text, cmpOp, h₁, h₂, h₃, hb.1, hb.2]
  all_goals rfl

/-! ### The layers -/

/-- A parser of a layer comes to the value of every proper tree of its level that is short enough,
and stops behind it. -/
def Computes (env : CalcEnv N) (n fuel : ℕ)
    (parser : List U8 → Option (CalcValue N × List U8)) : Prop :=
  ∀ e : Expr N, e.Proper env → n ≤ e.level → e.print.length < fuel → ∀ rest, Behind n rest →
    parser (e.print ++ rest) = (e.meaning env).map (·, rest)

/-- The operators of a level that stand outermost on the left, one below the other. -/
def Expr.steps (n : ℕ) : Expr N → ℕ
  | .op o l _ => if o.level = n then l.steps n + 1 else 0
  | _ => 0

lemma Expr.steps_le (n : ℕ) (e : Expr N) : e.steps n ≤ e.print.length := by
  induction e with
  | op o l r ihl _ =>
    have ho : 0 < o.text.length := by cases o <;> decide
    simp only [Expr.steps, Expr.print, List.length_append]
    split_ifs <;> omega
  | _ => exact Nat.zero_le _

section Layer

variable {n fuel : ℕ} {next : List U8 → Option (CalcValue N × List U8)}
  {operator : U8 → Option (CalcValue N → CalcValue N → Option (CalcValue N))}

/-- One operator of a chain. -/
lemma chain_cons {b : U8} (hspace : isSpace b = false)
    {combine : CalcValue N → CalcValue N → Option (CalcValue N)}
    (hcombine : operator b = some combine) (k : ℕ) (left : CalcValue N) (bytes : List U8) :
    chain next operator (k + 1) left (b :: bytes) =
      (next bytes).bind fun x => (combine left x.1).bind fun value =>
        chain next operator k value x.2 := by
  simp [chain, skip, hspace, hcombine]

/-- The end of a chain. -/
lemma chain_end {m : ℕ} {rest : List U8} (hrest : Behind m rest)
    (hstop : ∀ b ∈ followBytes m, operator b = none) (k : ℕ) (value : CalcValue N) :
    chain next operator (k + 1) value rest = some (value, rest) := by
  rw [chain, hrest.skip_eq]
  cases rest with
  | nil => rfl
  | cons b rest => simp [hstop b (hrest b rfl)]

/-- A tree of a tighter level is one operand. -/
lemma layer_eq_of_lt (hnext : Computes env (n + 1) fuel next) {e : Expr N} (he : e.Proper env)
    (hlevel : n + 1 ≤ e.level) (hsteps : e.steps n = 0) (hlen : e.print.length < fuel)
    {rest : List U8} (hrest : Behind (n + 1) rest) :
    layer next operator fuel (e.print ++ rest) =
      (e.meaning env).bind fun value => chain next operator (fuel - e.steps n) value rest := by
  rw [layer, hnext e he hlevel hlen rest hrest, hsteps, Nat.sub_zero]
  cases e.meaning env <;> rfl

/-- A layer reads a tree and goes on behind it as if it had read its value at once. -/
lemma layer_eq_chain (hn : n < 4) (hnext : Computes env (n + 1) fuel next)
    (hop : ∀ o : Op, o.level = n → ∃ b, o.text = [b] ∧ isSpace b = false ∧
      operator b = some (o.combine env)) (e : Expr N) :
    e.Proper env → n ≤ e.level → e.print.length < fuel → ∀ rest, Behind (n + 1) rest →
      layer next operator fuel (e.print ++ rest) =
        (e.meaning env).bind fun value => chain next operator (fuel - e.steps n) value rest := by
  induction e with
  | op o l r ihl _ =>
    intro he hlevel hlen rest hrest
    by_cases ho : o.level = n
    · obtain ⟨b, htext, hspace, hcombine⟩ := hop o ho
      obtain ⟨hl, hr, -, hpl, hpr⟩ := he
      simp only [Expr.print, List.length_append] at hlen
      have hsteps := l.steps_le n
      have hmore : fuel - l.steps n = (fuel - (l.steps n + 1)) + 1 := by omega
      have hbehind : Behind (n + 1) (b :: (r.print ++ rest)) := by
        have := behind_op (o := o) (n := n + 1) (by omega) (r.print ++ rest)
        rwa [htext] at this
      have hread := ihl hpl (ho ▸ hl) (by omega) _ hbehind
      have hright := hnext r hpr (by omega) (by omega) rest hrest
      have hprint : (Expr.op o l r).print ++ rest = l.print ++ b :: (r.print ++ rest) := by
        simp [Expr.print, htext]
      rw [hprint, hread, Expr.meaning, Expr.steps, if_pos ho, hmore]
      cases l.meaning env with
      | none => rfl
      | some left =>
        rw [Option.bind_some, chain_cons hspace hcombine, hright]
        cases r.meaning env <;> rfl
    · exact layer_eq_of_lt hnext he (Nat.lt_of_le_of_ne hlevel (Ne.symm ho)) (if_neg ho) hlen hrest
  | _ =>
    intro he _ hlen rest hrest
    exact layer_eq_of_lt hnext he hn rfl hlen hrest

/-- A layer computes the trees of its level if the one below computes the tighter ones. -/
lemma computes_layer (hn : n < 4) (hnext : Computes env (n + 1) fuel next)
    (hop : ∀ o : Op, o.level = n → ∃ b, o.text = [b] ∧ isSpace b = false ∧
      operator b = some (o.combine env))
    (hstop : ∀ b ∈ followBytes n, operator b = none) :
    Computes env n fuel (layer next operator fuel) := by
  intro e he hlevel hlen rest hrest
  rw [layer_eq_chain hn hnext hop e he hlevel hlen rest (hrest.of_le (Nat.le_succ n))]
  have hsteps := e.steps_le n
  obtain ⟨k, hk⟩ := Nat.exists_eq_succ_of_ne_zero (show fuel - e.steps n ≠ 0 by omega)
  cases e.meaning env with
  | none => rfl
  | some value =>
    rw [Option.bind_some, hk, chain_end hrest hstop]
    rfl

end Layer

/-! ### The grammar -/

lemma termOperator_op {o : Op} (ho : o.level = 3) : ∃ b, o.text = [b] ∧ isSpace b = false ∧
    termOperator env b = some (o.combine env) := by
  cases o <;> simp [Op.level] at ho
  · exact ⟨_, rfl, by decide, rfl⟩
  · exact ⟨_, rfl, by decide, rfl⟩

lemma exprOperator_op {o : Op} (ho : o.level = 2) : ∃ b, o.text = [b] ∧ isSpace b = false ∧
    exprOperator env b = some (o.combine env) := by
  cases o <;> simp [Op.level] at ho
  · exact ⟨_, rfl, by decide, rfl⟩
  · exact ⟨_, rfl, by decide, rfl⟩

lemma joinOperator_op {o : Op} (ho : o.level = 1) : ∃ b, o.text = [b] ∧ isSpace b = false ∧
    joinOperator env b = some (o.combine env) := by
  cases o <;> simp [Op.level] at ho
  exact ⟨_, rfl, by decide, rfl⟩

lemma termOperator_stop : ∀ b ∈ followBytes 3, termOperator env b = none := by
  intro b hb
  obtain rfl | ⟨o, ho, hb⟩ := mem_followBytes.mp hb
  · rfl
  · cases o <;> simp [Op.level] at ho <;> cases hb <;> rfl

lemma exprOperator_stop : ∀ b ∈ followBytes 2, exprOperator env b = none := by
  intro b hb
  obtain rfl | ⟨o, ho, hb⟩ := mem_followBytes.mp hb
  · rfl
  · cases o <;> simp [Op.level] at ho <;> cases hb <;> rfl

lemma joinOperator_stop : ∀ b ∈ followBytes 1, joinOperator env b = none := by
  intro b hb
  obtain rfl | ⟨o, ho, hb⟩ := mem_followBytes.mp hb
  · rfl
  · cases o <;> simp [Op.level] at ho <;> cases hb <;> rfl

lemma cmpOp_stop {rest : List U8} (h : Behind 0 rest) : cmpOp env rest = none := by
  cases rest with
  | nil => rfl
  | cons b rest =>
    obtain rfl | ⟨o, ho, -⟩ := mem_followBytes.mp (h b rfl)
    · rfl
    · exact absurd ho (Nat.not_lt_zero _)

/-- The layers over a parser of factors. -/
lemma computes_compareWith {fuel : ℕ} {factor : List U8 → Option (CalcValue N × List U8)}
    (hfactor : Computes env 4 fuel factor) :
    Computes env 0 fuel (compareWith env factor fuel) := by
  have hjoin := computes_layer (by omega)
    (computes_layer (by omega)
      (computes_layer (by omega) hfactor (fun _ => termOperator_op) termOperator_stop)
      (fun _ => exprOperator_op) exprOperator_stop)
    (fun _ => joinOperator_op) joinOperator_stop
  intro e he _ hlen rest hrest
  by_cases hlevel : e.level = 0
  · cases e with
    | op o l r =>
      obtain ⟨-, hr, hl, hpl, hpr⟩ := he
      obtain ⟨b, hb, hne⟩ := head?_print hpr
      obtain ⟨tail, htail⟩ := List.head?_eq_some_iff.mp hb
      have ho : o.level = 0 := hlevel
      simp only [Expr.print, List.length_append] at hlen
      have hbehind := behind_op (o := o) (n := 1) (by omega) (r.print ++ rest)
      have hleft := hjoin l hpl (Nat.pos_of_ne_zero (hl ho)) (by omega) _ hbehind
      have hright := hjoin r hpr (by omega) (by omega) rest (hrest.of_le (Nat.zero_le 1))
      have hcmp : cmpOp env (o.text ++ (r.print ++ rest)) =
          some (o.compares env, r.print ++ rest) := by
        rw [htail, List.cons_append]
        exact cmpOp_text ho hne _
      have hcombine : o.combine env =
          onNumbers fun x y => some (env.flag (o.compares env x y)) := by
        cases o <;> first | rfl | cases ho
      rw [Expr.print, List.append_assoc, List.append_assoc]
      simp only [compareWith, hleft, Expr.meaning, hcombine, onNumbers]
      cases l.meaning env with
      | none => rfl
      | some left =>
        simp only [Option.map_some, Option.bind_eq_bind, Option.bind_some, hbehind.skip_eq, hcmp,
          hright]
        cases r.meaning env with
        | none => rfl
        | some right =>
          simp only [Option.map_some, Option.bind_some]
          cases calcNum left with
          | none => rfl
          | some x => cases calcNum right <;> rfl
    | _ => cases hlevel
  · have hleft := hjoin e he (Nat.pos_of_ne_zero hlevel) hlen rest (hrest.of_le (Nat.zero_le 1))
    simp only [compareWith, hleft]
    cases e.meaning env with
    | none => rfl
    | some left => simp [hrest.skip_eq, cmpOp_stop hrest]

/-! ### Factors -/

lemma factor_number {digits : List U8} (he : (Expr.number digits : Expr N).Proper env) (fuel : ℕ)
    {rest : List U8} (hrest : Behind 4 rest) :
    factor env (fuel + 1) ((Expr.number digits : Expr N).print ++ rest) =
      ((Expr.number digits).meaning env).map (·, rest) := by
  obtain ⟨hne, hall⟩ := he
  have htake : (digits ++ rest).takeWhile isNumberByte = digits := by
    rw [List.takeWhile_append_of_pos hall]
    cases rest with
    | nil => simp
    | cons c rest =>
      simp [(followBytes_spec (hrest c rfl)).2.1]
  have hdrop : (digits ++ rest).dropWhile isNumberByte = rest := by
    rw [List.dropWhile_append_of_pos hall]
    cases rest with
    | nil => rfl
    | cons c rest =>
      simp [(followBytes_spec (hrest c rfl)).2.1]
  obtain ⟨b, digits, rfl⟩ := List.exists_cons_of_ne_nil hne
  have hb := hall b List.mem_cons_self
  have hspace := isSpace_eq_false hb (by decide)
  have hplus : b ≠ ascii '+' := ne_of_class hb (by decide)
  have hminus : b ≠ ascii '-' := ne_of_class hb (by decide)
  have hopen : b ≠ openByte := ne_of_class hb (by decide)
  have hquote : b ≠ quoteByte := ne_of_class hb (by decide)
  have hskip : skip (b :: (digits ++ rest)) = b :: (digits ++ rest) := by simp [skip, hspace]
  have hnumber : (isDigitByte b || decide (b = ascii '.')) = true := hb
  rw [Expr.print, List.cons_append, factor, hskip]
  simp only [hplus, hminus, hopen, hquote, ↓reduceIte, hnumber]
  rw [List.cons_append] at htake hdrop
  rw [show (fun c => isDigitByte c || decide (c = ascii '.')) = isNumberByte from rfl, htake, hdrop,
    Expr.meaning, Option.map_map]
  rfl

lemma factor_text (t : Text) (fuel : ℕ) {rest : List U8} (hrest : Behind 4 rest) :
    factor env (fuel + 1) ((Expr.text t : Expr N).print ++ rest) =
      ((Expr.text t).meaning env).map (·, rest) := by
  have hne : quoteByte ≠ ascii '+' ∧ quoteByte ≠ ascii '-' ∧ quoteByte ≠ openByte := by decide
  have hhead : rest.head? ≠ some quoteByte := fun h =>
    (followBytes_spec (hrest quoteByte h)).2.2 rfl
  have hprint : (Expr.text t : Expr N).print ++ rest =
      quoteByte :: (doubleQuotes (utf8Bytes t) ++ quoteByte :: rest) := by simp [Expr.print]
  have hskip : skip (quoteByte :: (doubleQuotes (utf8Bytes t) ++ quoteByte :: rest)) =
      quoteByte :: (doubleQuotes (utf8Bytes t) ++ quoteByte :: rest) := rfl
  rw [hprint, factor, hskip]
  simp [hne, quotedFrom_doubled _ _ _ hhead, Expr.meaning]

lemma factor_word {bytes : List U8} {value : CalcValue N}
    (he : (Expr.word bytes value : Expr N).Proper env) (fuel : ℕ) {rest : List U8}
    (hrest : Behind 4 rest) :
    factor env (fuel + 1) ((Expr.word bytes value : Expr N).print ++ rest) =
      ((Expr.word bytes value).meaning env).map (·, rest) := by
  obtain ⟨⟨b, hb, hstart⟩, hword⟩ := he
  obtain ⟨tail, rfl⟩ := List.head?_eq_some_iff.mp hb
  have hspace := isSpace_eq_false hstart (by decide)
  have hplus : b ≠ ascii '+' := ne_of_class hstart (by decide)
  have hminus : b ≠ ascii '-' := ne_of_class hstart (by decide)
  have hopen : b ≠ openByte := ne_of_class hstart (by decide)
  have hquote : b ≠ quoteByte := ne_of_class hstart (by decide)
  have hsheet : b ≠ ascii '\'' := ne_of_class hstart (by decide)
  have hnumber : (isDigitByte b || decide (b = ascii '.')) = false :=
    isNumberByte_of_beginsWord hstart
  have hskip : skip (b :: (tail ++ rest)) = b :: (tail ++ rest) := by simp [skip, hspace]
  rw [Expr.print, List.cons_append, factor, hskip]
  simp only [hplus, hminus, hopen, hquote, ↓reduceIte, hnumber, hsheet, Bool.false_eq_true]
  exact hword rest hrest

/-- Factors, by recursion on the fuel, which is more than the length of the text. -/
lemma computes_factor (fuel : ℕ) : Computes env 4 fuel (factor env fuel) := by
  induction fuel with
  | zero => exact fun e _ _ hlen => absurd hlen (Nat.not_lt_zero _)
  | succ fuel ih =>
    intro e he hlevel hlen rest hrest
    cases e with
    | number digits => exact factor_number he fuel hrest
    | text t => exact factor_text t fuel hrest
    | word bytes value => exact factor_word he fuel hrest
    | plus e =>
      have hread := ih e he.2 he.1.ge (Nat.lt_of_succ_lt_succ hlen) rest hrest
      have hskip : skip (ascii '+' :: (e.print ++ rest)) = ascii '+' :: (e.print ++ rest) := rfl
      rw [Expr.print, List.cons_append, factor, hskip]
      simpa [Expr.meaning] using hread
    | minus e =>
      have hread := ih e he.2 he.1.ge (Nat.lt_of_succ_lt_succ hlen) rest hrest
      have hskip : skip (ascii '-' :: (e.print ++ rest)) = ascii '-' :: (e.print ++ rest) := rfl
      have hne : ascii '-' ≠ ascii '+' := by decide
      rw [Expr.print, List.cons_append, factor, hskip]
      simp only [hne, ↓reduceIte, hread, Expr.meaning]
      cases e.meaning env with
      | none => rfl
      | some value => cases h : calcNum value <;> simp [h]
    | paren e =>
      simp only [Expr.print, List.length_cons, List.length_append, List.length_nil] at hlen
      have hread := computes_compareWith ih e he (Nat.zero_le _) (by omega) (closeByte :: rest)
        (behind_close 0 rest)
      have hskip : skip (openByte :: (e.print ++ closeByte :: rest)) =
          openByte :: (e.print ++ closeByte :: rest) := rfl
      have hclose : skip (closeByte :: rest) = closeByte :: rest := rfl
      have hne : openByte ≠ ascii '+' ∧ openByte ≠ ascii '-' := by decide
      have hprint : (Expr.paren e).print ++ rest = openByte :: (e.print ++ closeByte :: rest) := by
        simp [Expr.print]
      rw [hprint, factor, hskip]
      simp only [hne.1, hne.2, ↓reduceIte, hread, Expr.meaning]
      cases e.meaning env with
      | none => rfl
      | some value => simp [hclose]
    | op o l r =>
      have : o.level < 4 := by cases o <;> decide
      exact absurd hlevel (Nat.not_le.mpr this)

/-- The value of a formula: a number that is not finite is none. -/
def finite (env : CalcEnv N) (value : CalcValue N) : Option (CalcValue N) :=
  match value with
  | .num number => if env.isFinite number then some (.num number) else none
  | .text part => some (.text part)

/-- A formula that is written from a tree comes to the value of the tree. -/
theorem evalSlice_print {e : Expr N} (he : e.Proper env) {fuel : ℕ}
    (hfuel : e.print.length < fuel) :
    evalSlice env fuel e.print = (e.meaning env).bind (finite env) := by
  have hread := computes_compareWith (computes_factor fuel) e he (Nat.zero_le _) hfuel []
    (behind_nil 0)
  rw [List.append_nil] at hread
  have hskip : skip [] = [] := rfl
  simp only [evalSlice, compare, hread]
  cases e.meaning env with
  | none => rfl
  | some value => cases value <;> simp [hskip, finite]

/-- `8-2-3*-(1&"a")=A1`, where the word `A1` has a value and the book knows no sheet. -/
theorem evalSlice_print_mixed :
    let env : CalcEnv ℕ := { commaBook with words := fun bytes =>
      if [ascii 'A', ascii '1'] <+: bytes then some (.num 5, bytes.drop 2) else none }
    let digit (c : Char) : Expr ℕ := .number [ascii c]
    let e : Expr ℕ := .op .eq
      (.op .sub (.op .sub (digit '8') (digit '2'))
        (.op .mul (digit '3') (.minus (.paren (.op .join (digit '1') (.text ['a']))))))
      (.word [ascii 'A', ascii '1'] (.num 5))
    evalSlice env (e.print.length + 1) e.print = (e.meaning env).bind (finite env) := by
  intro env digit e
  refine evalSlice_print ?_ (Nat.lt_succ_self _)
  simp only [e, digit, Expr.Proper, Expr.level, Op.level]
  refine ⟨by decide, by decide, by decide, ?_, ⟨_, rfl, by decide⟩, fun rest _ => ?_⟩
  · simp only [List.mem_singleton, forall_eq]
    decide
  · simp [env]

end Values

end Orchid.Sheet
