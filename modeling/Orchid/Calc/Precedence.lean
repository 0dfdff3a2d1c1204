import Mathlib.Algebra.Order.Field.Rat
import Orchid.Calc.Expression

/-!
# Precedence

What the calculator shows when an expression was typed and `=` pressed. An operator carries out
the one before it when that binds as closely, but none of those further down: the values agree
where no two operators wait when a third one comes that binds less closely.
-/

namespace Orchid.Calc

variable {α : Type} (A : Arithmetic α)

namespace Expr

/-- The value of a tree, or the error that its evaluation meets first. -/
def eval : Expr → Except CalcError α
  | num n => .ok (A.num n)
  | paren e => e.eval
  | bin op l r => do
    let a ← l.eval
    let b ← r.eval
    A.apply op a b

/-- The operators that still wait for their right-hand side when an expression was typed. -/
def waiting : Expr → ℕ
  | num _ | paren _ => 0
  | bin _ _ r => r.waiting + 1

/-- At most one operator waits in what is left of an operator. -/
def Settled : Expr → Prop
  | num _ => True
  | paren e => e.Settled
  | bin _ l r => l.waiting ≤ 1 ∧ l.Settled ∧ r.Settled

/-- The number an expression begins with. -/
def first : Expr → Number
  | num n => n
  | paren e => e.first
  | bin _ l _ => l.first

/-- The operators of an expression, each with the number behind it. -/
def rest : Expr → List (BinOp × Number)
  | num _ => []
  | paren e => e.rest
  | bin op l r => l.rest ++ (op, r.first) :: r.rest

/-- One operator of a fold. -/
def foldStep (a : α) (p : BinOp × Number) : Except CalcError α := A.apply p.1 a (A.num p.2)

/-- The fold of an expression from the left; parentheses do not matter. -/
def leftFold (e : Expr) : Except CalcError α := e.rest.foldlM (foldStep A) (A.num e.first)

end Expr

/-! ### Chains of operators -/

/-- The operators of a chain are carried out, the innermost first. -/
def collapse : List (α × BinOp) → α → Except CalcError α
  | [], x => .ok x
  | p :: chain, x => do
    let v ← A.apply p.2 p.1 x
    collapse chain v

/-- A waiting operator as a frame. -/
def Frame.ofOp (p : α × BinOp) : Frame α := .pending p.1 p.2

/-- A stack with the pending operator on it. -/
def frames (pending : Option (α × BinOp)) (stack : List (Frame α)) : List (Frame α) :=
  (pending.map Frame.ofOp).toList ++ stack

/-- The pending operator under a chain. -/
def pendingOver (pending : Option (α × BinOp)) : List (α × BinOp) → Option (α × BinOp)
  | [] => pending
  | p :: _ => some p

/-- The stack under a chain. -/
def stackOver (pending : Option (α × BinOp)) (stack : List (Frame α)) :
    List (α × BinOp) → List (Frame α)
  | [] => stack
  | _ :: chain => chain.map Frame.ofOp ++ frames pending stack

variable {A}

lemma apply_finite {op : BinOp} {a b v : α} (h : A.apply op a b = .ok v) : A.fault v = none := by
  unfold Arithmetic.apply at h
  split_ifs at h
  unfold Arithmetic.finite at h
  cases hfault : A.fault (A.raw op a b) with
  | none =>
    rw [hfault] at h
    rwa [← Except.ok.inj h]
  | some er =>
    rw [hfault] at h
    cases h

lemma collapse_finite {chain : List (α × BinOp)} {x v : α} (hx : A.fault x = none)
    (h : collapse A chain x = .ok v) : A.fault v = none := by
  induction chain generalizing x with
  | nil => rwa [← Except.ok.inj h]
  | cons p chain ih =>
    unfold collapse at h
    cases hone : A.apply p.2 p.1 x with
    | error er =>
      rw [hone] at h
      cases h
    | ok w =>
      rw [hone] at h
      exact ih (apply_finite hone) h

lemma collapse_append (chain chain' : List (α × BinOp)) (x : α) :
    collapse A (chain ++ chain') x = (collapse A chain x).bind (collapse A chain') := by
  induction chain generalizing x with
  | nil => rfl
  | cons p chain ih =>
    rw [List.cons_append, collapse, collapse]
    cases A.apply p.2 p.1 x with
    | error er => rfl
    | ok v => exact ih v

lemma collapse_singleton (p : α × BinOp) (x : α) : collapse A [p] x = A.apply p.2 p.1 x := by
  unfold collapse
  cases A.apply p.2 p.1 x <;> rfl

/-- The operators down to a parenthesis are those of the chain. -/
lemma reduceToParen_chain (chain : List (α × BinOp)) (p : Option (α × BinOp))
    (stack : List (Frame α)) (x : α) :
    Calculator.reduceToParen A (chain.map Frame.ofOp ++ .paren p :: stack) x =
      (collapse A chain x).map fun v => (v, .paren p :: stack) := by
  induction chain generalizing x with
  | nil => rfl
  | cons q chain ih =>
    rw [List.map_cons, List.cons_append, Frame.ofOp, Calculator.reduceToParen, collapse]
    cases A.apply q.2 q.1 x with
    | error er => rfl
    | ok v => exact ih v

/-- The frames of a chain are carried out like the chain. -/
lemma reduceStack_chain (chain : List (α × BinOp)) (r : Calculator.Reduced α) :
    (Calculator.reduceStack A (chain.map Frame.ofOp) r).map Prod.fst = collapse A chain r.1 := by
  induction chain generalizing r with
  | nil => rfl
  | cons q chain ih =>
    rw [List.map_cons, Frame.ofOp, Calculator.reduceStack, Calculator.reduceLast, collapse]
    cases A.apply q.2 q.1 r.1 with
    | error er => rfl
    | ok v => exact ih (v, some (q.2, r.1))

/-! ### Errors -/

namespace Calculator

variable (A)

/-- An error shows up while the keys are pressed. -/
def Fails (c : Calculator α) (keys : List CalcKey) (er : CalcError) : Prop :=
  ∃ before after, keys = before ++ after ∧ (c.pressAll A before).error = some er

variable {A}

lemma Fails.of_error {c : Calculator α} {keys : List CalcKey} {er : CalcError}
    (h : (c.pressAll A keys).error = some er) : Fails A c keys er :=
  ⟨keys, [], (List.append_nil _).symm, h⟩

lemma Fails.append {c : Calculator α} {keys : List CalcKey} {er : CalcError}
    (h : Fails A c keys er) (more : List CalcKey) : Fails A c (keys ++ more) er := by
  obtain ⟨before, after, rfl, herror⟩ := h
  exact ⟨before, after ++ more, List.append_assoc _ _ _, herror⟩

lemma Fails.after {c : Calculator α} {keys : List CalcKey} {er : CalcError}
    (first : List CalcKey) (h : Fails A (c.pressAll A first) keys er) :
    Fails A c (first ++ keys) er := by
  obtain ⟨before, after, rfl, herror⟩ := h
  refine ⟨first ++ before, after, (List.append_assoc _ _ _).symm, ?_⟩
  rwa [pressAll_append]

/-- An error stays until a digit is typed. -/
lemma pressAll_of_error {c : Calculator α} {er : CalcError} (h : c.error = some er)
    {keys : List CalcKey} (hkeys : ∀ d, .digit d ∉ keys) : c.pressAll A keys = c := by
  induction keys with
  | nil => rfl
  | cons key keys ih =>
    have hkey : c.press A key = c := by
      unfold press
      rw [h]
      cases key with
      | digit d => exact absurd List.mem_cons_self (hkeys d)
      | decimal => rfl
      | binary op => rfl
      | equals => rfl
      | openParen => rfl
      | closeParen => rfl
    rw [pressAll_cons, hkey]
    exact ih fun d hd => hkeys d (List.mem_cons_of_mem _ hd)

lemma shown_of_error {c : Calculator α} {er : CalcError} (h : c.error = some er) :
    c.shown A = .error er := by
  unfold shown
  rw [h]

/-! ### Typed expressions -/

variable (A)

/-- An operand was typed and a chain waits for it; below it all is as it was. -/
structure Entered (c₀ c : Calculator α) (chain : List (α × BinOp)) (x : α) : Prop where
  error : c.error = none
  mode : c.mode = c₀.mode
  lastOp : c.lastOp = none
  pending : c.pending = pendingOver c₀.pending chain
  stack : c.stack = stackOver c₀.pending c₀.stack chain
  current : c.currentValue A = .ok x
  shown : c.shown A = .ok x
  finite : A.fault x = none

/-- An operator was typed behind `a`; below it all is as it was. -/
structure Operator (c₀ c : Calculator α) (op : BinOp) (a : α) : Prop where
  fresh : Fresh c
  mode : c.mode = c₀.mode
  lastOp : c.lastOp = none
  pending : c.pending = some (a, op)
  stack : c.stack = frames c₀.pending c₀.stack

variable {A}

lemma Entered.of_typing {c₀ c : Calculator α} {n : Number} (h : Typing c₀ c n.text) :
    Entered A c₀ c [] (A.num n) where
  error := h.error
  mode := h.mode
  lastOp := h.lastOp
  pending := h.pending
  stack := h.stack
  current := by
    unfold currentValue
    rw [h.error, h.entry_eq]
    dsimp only
    rw [if_pos ⟨h.entering, n.text_ne_nil⟩, n.parseEntry_text]
  shown := by
    unfold Calculator.shown
    rw [h.error, h.entry_eq]
    dsimp only
    rw [if_pos ⟨h.entering, n.text_ne_nil⟩, n.parseEntry_text]
    rfl
  finite := n.finite_num

lemma press_binary {c : Calculator α} (h : c.error = none) (op : BinOp) :
    c.press A (.binary op) = c.binary A op := by
  unfold press
  rw [h]

/-- An operator that binds more closely than the one before it. -/
lemma Entered.push {c₀ c : Calculator α} {x : α} (h : Entered A c₀ c [] x) {op : BinOp}
    (hkeep : ∀ p ∈ c₀.pending, shouldReduce c₀.mode p.2 op = false) :
    Operator c₀ (c.press A (.binary op)) op x := by
  have hpending : c.pending = c₀.pending := h.pending
  have hstack : c.stack = c₀.stack := h.stack
  rw [press_binary h.error]
  unfold binary
  rw [h.current]
  dsimp only
  cases hp : c₀.pending with
  | none =>
    rw [hpending, hp]
    refine ⟨⟨h.error, rfl⟩, h.mode, rfl, rfl, ?_⟩
    rw [hp]
    exact hstack
  | some p =>
    rw [hpending, hp]
    dsimp only
    rw [if_neg (by rw [h.mode, hkeep p hp]; exact Bool.false_ne_true)]
    refine ⟨⟨h.error, rfl⟩, h.mode, rfl, rfl, ?_⟩
    rw [hp]
    exact congrArg _ hstack

/-- An operator carries out the one before it. -/
lemma Entered.reduce {c₀ c : Calculator α} {x : α} {p : α × BinOp} (h : Entered A c₀ c [p] x)
    {op : BinOp} (hred : shouldReduce c₀.mode p.2 op = true) :
    match A.apply p.2 p.1 x with
    | .ok v => Operator c₀ (c.press A (.binary op)) op v
    | .error er => (c.press A (.binary op)).error = some er := by
  have hpending : c.pending = some p := h.pending
  rw [press_binary h.error]
  unfold binary
  rw [h.current]
  dsimp only
  rw [hpending]
  dsimp only
  rw [h.mode, if_pos hred]
  cases A.apply p.2 p.1 x with
  | ok v => exact ⟨⟨h.error, rfl⟩, rfl, rfl, rfl, h.stack⟩
  | error er => rfl

/-- An operand behind an operator. -/
lemma Entered.after {c₀ c₁ c : Calculator α} {op : BinOp} {a x : α} {chain : List (α × BinOp)}
    (h : Entered A c₁ c chain x) (hop : Operator c₀ c₁ op a) :
    Entered A c₀ c (chain ++ [(a, op)]) x where
  error := h.error
  mode := h.mode.trans hop.mode
  lastOp := h.lastOp
  pending := by
    rw [h.pending, hop.pending]
    cases chain <;> rfl
  stack := by
    rw [h.stack, hop.pending, hop.stack]
    cases chain with
    | nil => rfl
    | cons p chain =>
      show chain.map Frame.ofOp ++ Frame.ofOp (a, op) :: frames c₀.pending c₀.stack =
        (chain ++ [(a, op)]).map Frame.ofOp ++ frames c₀.pending c₀.stack
      rw [List.map_append, List.append_assoc]
      rfl
  current := h.current
  shown := h.shown
  finite := h.finite

/-! ### Parentheses -/

lemma openParen_fresh {c : Calculator α} (h : c.error = none) (hmode : c.mode = .scientific) :
    Fresh (c.press A .openParen) ∧ (c.press A .openParen).mode = .scientific ∧
      (c.press A .openParen).pending = none ∧
      (c.press A .openParen).stack = .paren c.pending :: c.stack := by
  unfold press
  rw [h]
  dsimp only
  unfold openParen
  rw [if_neg (by rw [hmode]; exact nofun)]
  exact ⟨⟨h, rfl⟩, hmode, rfl, rfl⟩

/-- The value inside of a parenthesis, when it is closed. -/
lemma Entered.close (c₀ : Calculator α) {c₁ c : Calculator α} {x : α} {chain : List (α × BinOp)}
    (h : Entered A c₁ c chain x) (hmode : c₁.mode = .scientific) (hmode₀ : c₁.mode = c₀.mode)
    (hpending : c₁.pending = none) (hstack : c₁.stack = .paren c₀.pending :: c₀.stack) :
    match collapse A chain x with
    | .ok v => Entered A c₀ (c.press A .closeParen) [] v
    | .error er => (c.press A .closeParen).error = some er := by
  have hinner : closeParenInner A c x =
      (collapse A chain x).map fun v => ({ c with pending := c₀.pending, stack := c₀.stack }, v) := by
    have hstack' := h.stack
    have hpending' := h.pending
    rw [hpending, hstack] at hstack'
    rw [hpending] at hpending'
    unfold closeParenInner
    cases chain with
    | nil =>
      rw [hpending', hstack']
      rfl
    | cons p chain =>
      have hto := reduceToParen_chain (A := A) chain c₀.pending c₀.stack
      rw [hpending', hstack', collapse]
      show (A.apply p.2 p.1 x).bind _ = _
      cases A.apply p.2 p.1 x with
      | error er => rfl
      | ok w =>
        show (reduceToParen A (chain.map Frame.ofOp ++ .paren c₀.pending :: c₀.stack) w).bind _ = _
        rw [hto w]
        show _ = (collapse A chain w).map _
        cases collapse A chain w with
        | error er => rfl
        | ok v => rfl
  have hpress : c.press A .closeParen = c.closeParen A := by
    unfold press
    rw [h.error]
  rw [hpress]
  unfold closeParen
  rw [if_neg (by rw [h.mode, hmode]; exact nofun), h.current]
  dsimp only
  rw [hinner]
  cases hval : collapse A chain x with
  | error er => rfl
  | ok v =>
    have hfin := collapse_finite h.finite hval
    have hfinite : A.finite v = .ok v := by
      unfold Arithmetic.finite
      rw [hfin]
    dsimp only [Except.map]
    unfold setValue
    rw [hfinite]
    refine ⟨rfl, h.mode.trans hmode₀, rfl, rfl, rfl, ?_, ?_, hfin⟩
    · unfold currentValue
      exact hfinite
    · rfl

/-! ### The chain of an expression -/

variable (A)

/-- What the keys of an expression lead to: an error of its evaluation, or a chain of operators
that give its value. -/
def Enters (c : Calculator α) (e : Expr) : Prop :=
  (∃ er, e.eval A = .error er ∧ Fails A c e.keys er) ∨
  ∃ chain x, Entered A c (c.pressAll A e.keys) chain x ∧ collapse A chain x = e.eval A ∧
    chain.length = e.waiting ∧ ∀ p ∈ chain, e.level ≤ p.2.precedence

/-- The operators of an expression leave the pending operator alone. -/
def Lets (c : Calculator α) (e : Expr) : Prop :=
  ∀ p ∈ c.pending, p.2.precedence < e.level ∨
    (p.2.precedence = e.level ∧ p.2.rightAssoc = true)

variable {A}

lemma shouldReduce_eq_false {prev op : BinOp} (h : prev.precedence < op.precedence ∨
    (prev.precedence = op.precedence ∧ prev.rightAssoc = true)) :
    shouldReduce .scientific prev op = false := by
  unfold shouldReduce
  rcases h with h | ⟨heq, hright⟩
  · simp [not_lt.mpr h.le, h.ne]
  · rw [Expr.rightAssoc_eq heq] at hright
    simp [heq, hright]

lemma shouldReduce_eq_true {prev op : BinOp} (h : op.precedence ≤ prev.precedence)
    (hleft : op.rightAssoc = false) : shouldReduce .scientific prev op = true := by
  unfold shouldReduce
  rcases h.lt_or_eq with h | h
  · simp [h]
  · simp [h, hleft]

/-- An operator of an expression carries out those of its left-hand side. -/
lemma shouldReduce_of_level {prev op : BinOp} {left right : ℕ}
    (h : if op.rightAssoc then op.precedence < left ∧ op.precedence ≤ right
      else op.precedence ≤ left ∧ op.precedence < right)
    (hprev : left ≤ prev.precedence) : shouldReduce .scientific prev op = true := by
  cases hright : op.rightAssoc with
  | false =>
    rw [hright, if_neg Bool.false_ne_true] at h
    exact shouldReduce_eq_true (h.1.trans hprev) hright
  | true =>
    rw [hright, if_pos rfl] at h
    have htop : op.precedence = 3 := by
      revert hright
      cases op <;> decide
    have hlt := Expr.precedence_lt prev
    omega

/-- An operator behind the expression on its left. -/
lemma Entered.operator {c₀ c : Calculator α} {chain : List (α × BinOp)} {x : α}
    (h : Entered A c₀ c chain x) (hlen : chain.length ≤ 1) (op : BinOp)
    (hkeep : ∀ p ∈ c₀.pending, shouldReduce c₀.mode p.2 op = false)
    (hred : ∀ p ∈ chain, shouldReduce c₀.mode p.2 op = true) :
    match collapse A chain x with
    | .ok a => Operator c₀ (c.press A (.binary op)) op a
    | .error er => (c.press A (.binary op)).error = some er := by
  match chain, hlen with
  | [], _ => exact h.push hkeep
  | [p], _ =>
    have hone := h.reduce (hred p List.mem_cons_self)
    rw [collapse_singleton]
    exact hone

/-- The keys of an expression. -/
lemma enters {e : Expr} (hproper : e.Proper) (hsettled : e.Settled) {c : Calculator α}
    (hfresh : Fresh c) (hmode : c.mode = .scientific) (hlets : Lets c e) : Enters A c e := by
  induction e generalizing c with
  | num n =>
    exact Or.inr ⟨[], A.num n, .of_typing (hfresh.number n), rfl, rfl, nofun⟩
  | paren e ih =>
    obtain ⟨hopen, hmode₁, hpending₁, hstack₁⟩ := openParen_fresh (A := A) hfresh.error hmode
    have hin := ih hproper hsettled hopen hmode₁ (by
      unfold Lets
      rw [hpending₁]
      exact nofun)
    have hkeys : (Expr.paren e).keys = [.openParen] ++ (e.keys ++ [.closeParen]) := rfl
    rcases hin with ⟨er, heval, hfails⟩ | ⟨chain, x, hent, hcol, -, -⟩
    · refine Or.inl ⟨er, heval, ?_⟩
      rw [hkeys]
      exact Fails.after [.openParen] (hfails.append [.closeParen])
    · have hclose := hent.close c hmode₁ (hmode₁.trans hmode.symm) hpending₁ hstack₁
      have hpress : c.pressAll A (Expr.paren e).keys =
          ((c.press A .openParen).pressAll A e.keys).press A .closeParen := by
        rw [hkeys, pressAll_append, pressAll_append]
        rfl
      rw [hcol] at hclose
      cases hval : e.eval A with
      | error er =>
        rw [hval] at hclose
        refine Or.inl ⟨er, hval, .of_error ?_⟩
        rw [hpress]
        exact hclose
      | ok v =>
        rw [hval] at hclose
        refine Or.inr ⟨[], v, ?_, hval.symm, rfl, nofun⟩
        rw [hpress]
        exact hclose
  | bin op l r ihl ihr =>
    obtain ⟨hl, hr, hsides⟩ := hproper
    obtain ⟨hwaiting, hsl, hsr⟩ := hsettled
    have hletsl : Lets c l := by
      intro p hp
      have hkeep := hlets p hp
      change p.2.precedence < op.precedence ∨ _ at hkeep
      rcases hkeep with hlt | ⟨heq, hright⟩
      · left
        split_ifs at hsides
        · exact hlt.trans hsides.1
        · exact lt_of_lt_of_le hlt hsides.1
      · left
        rw [← Expr.rightAssoc_eq heq.symm] at hright
        rw [if_pos hright] at hsides
        exact heq ▸ hsides.1
    have hletsr {c₁ : Calculator α} {a : α} (hop : Operator c c₁ op a) : Lets c₁ r := by
      intro p hp
      rw [hop.pending] at hp
      obtain rfl := Option.some.inj hp
      split_ifs at hsides with hright
      · exact hsides.2.lt_or_eq.imp_right fun heq => ⟨heq, hright⟩
      · exact Or.inl hsides.2
    have hkeys : (Expr.bin op l r).keys = (l.keys ++ [.binary op]) ++ r.keys :=
      (List.append_assoc _ [_] _).symm
    have hpress : c.pressAll A (l.keys ++ [.binary op]) =
        (c.pressAll A l.keys).press A (.binary op) := pressAll_append _ _ _
    rcases ihl hl hsl hfresh hmode hletsl with
      ⟨er, heval, hfails⟩ | ⟨chain, x, hent, hcol, hlen, hprec⟩
    · refine Or.inl ⟨er, ?_, ?_⟩
      · rw [Expr.eval, heval]
        rfl
      · rw [hkeys]
        exact (hfails.append _).append _
    · have hop := hent.operator (hlen ▸ hwaiting) op (fun p hp => by
        rw [hmode]
        exact shouldReduce_eq_false (hlets p hp)) (fun p hp => by
        rw [hmode]
        exact shouldReduce_of_level hsides (hprec p hp))
      rw [hcol, ← hpress] at hop
      cases hval : l.eval A with
      | error er =>
        rw [hval] at hop
        refine Or.inl ⟨er, ?_, ?_⟩
        · rw [Expr.eval, hval]
          rfl
        · rw [hkeys]
          exact (Fails.of_error hop).append _
      | ok a =>
        rw [hval] at hop
        have heval : (Expr.bin op l r).eval A = (r.eval A).bind (A.apply op a) := by
          rw [Expr.eval, hval]
          rfl
        rcases ihr hr hsr hop.fresh (hop.mode.trans hmode) (hletsr hop) with
          ⟨er, hevalr, hfails⟩ | ⟨chain', y, hent', hcol', hlen', hprec'⟩
        · refine Or.inl ⟨er, ?_, ?_⟩
          · rw [heval, hevalr]
            rfl
          · rw [hkeys]
            exact hfails.after _
        · refine Or.inr ⟨chain' ++ [(a, op)], y, ?_, ?_, ?_, ?_⟩
          · rw [hkeys, pressAll_append]
            exact hent'.after hop
          · rw [collapse_append, hcol', heval]
            exact congrArg _ (funext (collapse_singleton (a, op)))
          · rw [List.length_append, hlen']
            rfl
          · intro p hp
            rcases List.mem_append.mp hp with hp | hp
            · refine le_trans ?_ (hprec' p hp)
              show op.precedence ≤ r.level
              split_ifs at hsides
              · exact hsides.2
              · exact hsides.2.le
            · obtain rfl := List.mem_singleton.mp hp
              exact le_refl _

/-! ### Equals -/

/-- The chain is carried out. -/
lemma Entered.equals {mode : CalcMode} {c : Calculator α} {chain : List (α × BinOp)} {x : α}
    (h : Entered A (.new A mode) c chain x) :
    match collapse A chain x with
    | .ok v => (c.press A .equals).shown A = .ok v
    | .error er => (c.press A .equals).error = some er := by
  have hpress : c.press A .equals = c.equals A := by
    unfold press
    rw [h.error]
  rw [hpress]
  unfold Calculator.equals
  cases chain with
  | nil =>
    have hpending : c.pending = none := h.pending
    have hstack : c.stack = [] := h.stack
    rw [if_pos ⟨by rw [hpending]; rfl, hstack⟩, h.lastOp]
    exact h.shown
  | cons p chain =>
    have hpending : c.pending = some p := h.pending
    have hstack : c.stack = chain.map Frame.ofOp := h.stack.trans (List.append_nil _)
    have hparens : closeParens A c.stack.length c x = .ok (c, x) := by
      have hany : c.stack.any Frame.isParen = false := by
        rw [hstack, List.any_map]
        exact List.any_eq_false.mpr fun _ _ => Bool.false_ne_true
      cases c.stack.length with
      | zero => rfl
      | succ n =>
        rw [closeParens, if_neg (by rw [hany]; exact Bool.false_ne_true)]
    rw [if_neg (by rw [hpending]; exact fun hc => Bool.false_ne_true hc.1), h.current]
    dsimp only
    rw [hparens]
    dsimp only
    have hlast : ((reduceLast A c.pending (x, none)).bind (reduceStack A c.stack)).map Prod.fst =
        collapse A (p :: chain) x := by
      rw [hpending, hstack, reduceLast, collapse]
      cases A.apply p.2 p.1 x with
      | error er => rfl
      | ok v => exact reduceStack_chain chain (v, some (p.2, x))
    cases hres : (reduceLast A c.pending (x, none)).bind (reduceStack A c.stack) with
    | error er =>
      rw [hres] at hlast
      rw [← hlast]
      rfl
    | ok r =>
      rw [hres] at hlast
      have hfin := collapse_finite h.finite hlast.symm
      rw [← hlast]
      have hfinite : A.finite r.1 = .ok r.1 := by
        unfold Arithmetic.finite
        rw [hfin]
      dsimp only [Except.map]
      unfold setValue
      rw [hfinite]
      rfl

/-! ### Standard mode -/

variable (A)

/-- The fold of an expression behind a pending operator. -/
def foldFrom (pending : Option (α × BinOp)) (e : Expr) : Except CalcError α :=
  (collapse A pending.toList (A.num e.first)).bind (e.rest.foldlM (Expr.foldStep A))

/-- What the keys of an expression lead to in standard mode. -/
def Folds (c : Calculator α) (e : Expr) : Prop :=
  (∃ er, foldFrom A c.pending e = .error er ∧ Fails A c e.keys er) ∨
  ∃ chain x, Entered A (.new A .standard) (c.pressAll A e.keys) chain x ∧ chain.length ≤ 1 ∧
    collapse A chain x = foldFrom A c.pending e

variable {A}

lemma foldFrom_bin (pending : Option (α × BinOp)) (op : BinOp) (l r : Expr) :
    foldFrom A pending (.bin op l r) =
      (foldFrom A pending l).bind fun a => foldFrom A (some (a, op)) r := by
  unfold foldFrom
  rw [Expr.first, Expr.rest]
  cases collapse A pending.toList (A.num l.first) with
  | error er => rfl
  | ok v =>
    show List.foldlM (Expr.foldStep A) v (l.rest ++ (op, r.first) :: r.rest) =
      (l.rest.foldlM (Expr.foldStep A) v).bind _
    rw [List.foldlM_append]
    show Except.bind _ _ = _
    refine congrArg _ (funext fun a => ?_)
    rw [List.foldlM_cons]
    show (Expr.foldStep A a (op, r.first)).bind _ = _
    rw [Option.toList_some, collapse_singleton]
    rfl

/-- Parentheses do nothing. -/
lemma press_paren_standard {c : Calculator α} (h : c.error = none) (hmode : c.mode = .standard) :
    c.press A .openParen = c ∧ c.press A .closeParen = c := by
  unfold press
  rw [h]
  dsimp only
  unfold openParen closeParen
  rw [if_pos hmode, if_pos hmode]
  exact ⟨rfl, rfl⟩

/-- The keys of an expression, in standard mode. -/
lemma folds (e : Expr) {c : Calculator α} (hfresh : Fresh c) (hmode : c.mode = .standard)
    (hstack : c.stack = []) : Folds A c e := by
  induction e generalizing c with
  | num n =>
    have htyping := hfresh.number (A := A) n
    have hent := Entered.of_typing (A := A) htyping
    refine Or.inr ⟨c.pending.toList, A.num n, ?_, ?_, ?_⟩
    · refine ⟨hent.error, hent.mode.trans hmode, hent.lastOp, ?_, ?_, hent.current, hent.shown,
        hent.finite⟩
      · refine htyping.pending.trans ?_
        cases c.pending <;> rfl
      · refine (htyping.stack.trans hstack).trans ?_
        cases c.pending <;> rfl
    · cases c.pending with
      | none => exact Nat.zero_le _
      | some p => exact le_refl _
    · unfold foldFrom
      rw [Expr.first, Expr.rest]
      cases collapse A c.pending.toList (A.num n) <;> rfl
  | paren e ih =>
    have hopen := (press_paren_standard (A := A) hfresh.error hmode).1
    have hkeys : (Expr.paren e).keys = [.openParen] ++ (e.keys ++ [.closeParen]) := rfl
    have hpress : c.pressAll A (Expr.paren e).keys =
        (c.pressAll A e.keys).press A .closeParen := by
      rw [hkeys, pressAll_append, pressAll_append]
      show ((c.press A .openParen).pressAll A e.keys).press A .closeParen = _
      rw [hopen]
    rcases ih hfresh hmode hstack with ⟨er, hfold, hfails⟩ | ⟨chain, x, hent, hlen, hcol⟩
    · refine Or.inl ⟨er, hfold, ?_⟩
      rw [hkeys]
      refine Fails.after [.openParen] ?_
      show Fails A (c.press A .openParen) _ er
      rw [hopen]
      exact hfails.append _
    · refine Or.inr ⟨chain, x, ?_, hlen, hcol⟩
      rw [hpress, (press_paren_standard hent.error hent.mode).2]
      exact hent
  | bin op l r ihl ihr =>
    have hkeys : (Expr.bin op l r).keys = (l.keys ++ [.binary op]) ++ r.keys :=
      (List.append_assoc _ [_] _).symm
    have hpress : c.pressAll A (l.keys ++ [.binary op]) =
        (c.pressAll A l.keys).press A (.binary op) := pressAll_append _ _ _
    rcases ihl hfresh hmode hstack with ⟨er, hfold, hfails⟩ | ⟨chain, x, hent, hlen, hcol⟩
    · refine Or.inl ⟨er, ?_, ?_⟩
      · rw [foldFrom_bin, hfold]
        rfl
      · rw [hkeys]
        exact (hfails.append _).append _
    · have hop := hent.operator hlen op nofun fun _ _ => rfl
      rw [hcol, ← hpress] at hop
      cases hval : foldFrom A c.pending l with
      | error er =>
        rw [hval] at hop
        refine Or.inl ⟨er, ?_, ?_⟩
        · rw [foldFrom_bin, hval]
          rfl
        · rw [hkeys]
          exact (Fails.of_error hop).append _
      | ok a =>
        rw [hval] at hop
        have hfold : foldFrom A c.pending (.bin op l r) = foldFrom A (some (a, op)) r := by
          rw [foldFrom_bin, hval]
          rfl
        have hr := ihr hop.fresh hop.mode hop.stack
        unfold Folds at hr ⊢
        rw [hop.pending] at hr
        rw [hfold, hkeys, pressAll_append]
        refine hr.imp_left ?_
        rintro ⟨er, herror, hfails⟩
        exact ⟨er, herror, hfails.after _⟩

/-! ### What is shown -/

variable (A)

/-- The keys show a value at their end; an error is shown when it is met, and stays until a digit
begins a new number. -/
def Answers (mode : CalcMode) (keys : List CalcKey) : Except CalcError α → Prop
  | .ok v => ((new A mode).pressAll A keys).shown A = .ok v
  | .error er => ∃ before after, keys = before ++ after ∧
      ∀ more, more <+: after → (∀ d, .digit d ∉ more) →
        ((new A mode).pressAll A (before ++ more)).shown A = .error er

variable {A}

lemma Fails.answers {mode : CalcMode} {keys : List CalcKey} {er : CalcError}
    (h : Fails A (new A mode) keys er) : Answers A mode keys (.error er) := by
  obtain ⟨before, after, hkeys, herror⟩ := h
  refine ⟨before, after, hkeys, fun more _ hmore => ?_⟩
  rw [pressAll_append, pressAll_of_error herror hmore]
  exact shown_of_error herror

/-- A chain and `=`. -/
lemma Entered.answers {mode : CalcMode} {keys : List CalcKey} {chain : List (α × BinOp)} {x : α}
    (h : Entered A (new A mode) ((new A mode).pressAll A keys) chain x) :
    Answers A mode (keys ++ [.equals]) (collapse A chain x) := by
  have hequals := h.equals
  have hpress : (new A mode).pressAll A (keys ++ [.equals]) =
      ((new A mode).pressAll A keys).press A .equals := pressAll_append _ _ _
  cases hcol : collapse A chain x with
  | ok v =>
    rw [hcol, ← hpress] at hequals
    exact hequals
  | error er =>
    rw [hcol, ← hpress] at hequals
    exact (Fails.of_error hequals).answers

lemma new_fresh (mode : CalcMode) : Fresh (new A mode) := ⟨rfl, rfl⟩

end Calculator

/-! ### Exact arithmetic -/

/-- The whole number that digits stand for. -/
def natOf (s : Text) : ℕ := s.foldl (fun n c => 10 * n + (c.toNat - 48)) 0

/-- The value of a number with a point. -/
def ratOf (s : Text) : ℚ :=
  let frac := (s.dropWhile fun c => c.isDigit).drop 1
  natOf (s.takeWhile (fun c => c.isDigit) ++ frac) / 10 ^ frac.length

/-- The arithmetic of fractions; exponents are taken as whole numbers, and there are no roots. -/
def exact : Arithmetic ℚ where
  zero := 0
  isZero v := v == 0
  raw op a b :=
    match op with
    | .add => a + b
    | .sub => a - b
    | .mul => a * b
    | .div => a / b
    | .pow => a ^ b.num
    | .yRoot => a
    | .mod => a - b * (a / b).num.tdiv (a / b).den
  fault _ := none
  parse s := some (ratOf s)
  parses _ := ⟨_, rfl, rfl⟩

/-- A number of one digit. -/
def Number.ofDigit (d : Fin 10) : Number where
  whole := [d]
  frac := none
  nonempty := List.cons_ne_nil _ _
  noLeadingZero h := congrArg (fun d => [d]) (Option.some.inj h)
  short := by
    show 1 ≤ maxDigits
    decide

/-- `2 + 3 × 4` -/
def sumOfProduct : Expr :=
  .bin .add (.num (.ofDigit 2)) (.bin .mul (.num (.ofDigit 3)) (.num (.ofDigit 4)))

/-- `2 − 3 × 4 + 1` -/
def differenceAndMore : Expr :=
  .bin .add (.bin .sub (.num (.ofDigit 2)) (.bin .mul (.num (.ofDigit 3)) (.num (.ofDigit 4))))
    (.num (.ofDigit 1))

/-- `1 ÷ 0 + 2` -/
def quotientAndMore : Expr :=
  .bin .add (.bin .div (.num (.ofDigit 1)) (.num (.ofDigit 0))) (.num (.ofDigit 2))

namespace Calculator

/-! ### What is proved of it -/

/-- The calculator gives an expression its value where no more than one operator waits at a time;
in standard mode every expression is folded from the left. -/
theorem answers_of_settled (A : Arithmetic α) {e : Expr} (hproper : e.Proper) :
    (e.Settled → Answers A .scientific (e.keys ++ [.equals]) (e.eval A)) ∧
      Answers A .standard (e.keys ++ [.equals]) (e.leftFold A) := by
  constructor
  · intro hsettled
    rcases enters hproper hsettled (new_fresh (A := A) .scientific) rfl nofun with
      ⟨er, heval, hfails⟩ | ⟨chain, x, hent, hcol, -, -⟩
    · rw [heval]
      exact (hfails.append _).answers
    · rw [← hcol]
      exact hent.answers
  · have hfold : foldFrom A none e = e.leftFold A := rfl
    rcases folds e (new_fresh (A := A) .standard) rfl rfl with
      ⟨er, herror, hfails⟩ | ⟨chain, x, hent, -, hcol⟩
    · rw [← hfold]
      rw [show (new A .standard).pending = none from rfl] at herror
      rw [herror]
      exact (hfails.append _).answers
    · rw [← hfold]
      rw [show (new A .standard).pending = none from rfl] at hcol
      rw [← hcol]
      exact hent.answers

theorem answers_of_settled_sum :
    ((new exact .scientific).pressAll exact (sumOfProduct.keys ++ [.equals])).shown exact = .ok 14 ∧
      ((new exact .standard).pressAll exact (sumOfProduct.keys ++ [.equals])).shown exact =
        .ok 20 := by
  have hproper : sumOfProduct.Proper := by
    refine ⟨trivial, ⟨trivial, trivial, ?_⟩, ?_⟩
    · decide
    · decide
  have hsettled : sumOfProduct.Settled := ⟨Nat.zero_le _, trivial, Nat.zero_le _, trivial, trivial⟩
  have hall := answers_of_settled exact hproper
  have hvalue : sumOfProduct.eval exact = .ok 14 := by decide +kernel
  have hfold : sumOfProduct.leftFold exact = .ok 20 := by decide +kernel
  rw [hvalue, hfold] at hall
  exact ⟨hall.1 hsettled, hall.2⟩

/-- The difference is taken last, and a digit takes an error away. -/
theorem not_answers :
    (¬ ∀ e : Expr, e.Proper →
      (∀ v, e.eval exact = .ok v →
        ((new exact .scientific).pressAll exact (e.keys ++ [.equals])).shown exact = .ok v) ∧
      (∀ er, e.eval exact = .error er →
        ∃ er', ((new exact .scientific).pressAll exact (e.keys ++ [.equals])).shown exact =
          .error er')) ∧
    quotientAndMore.Proper ∧ quotientAndMore.eval exact = .error .divideByZero ∧
      ((new exact .scientific).pressAll exact (quotientAndMore.keys ++ [.equals])).shown exact =
        .ok 2 := by
  refine ⟨?_, ⟨⟨trivial, trivial, by decide⟩, trivial, by decide⟩, by decide +kernel,
    by decide +kernel⟩
  intro h
  have hproper : differenceAndMore.Proper := by
    refine ⟨⟨trivial, ⟨trivial, trivial, ?_⟩, ?_⟩, trivial, ?_⟩
    · decide
    · decide
    · decide
  have hvalue : differenceAndMore.eval exact = .ok (-9) := by decide +kernel
  have hshown : ((new exact .scientific).pressAll exact
      (differenceAndMore.keys ++ [.equals])).shown exact = .ok (-11) := by decide +kernel
  have heq := (h differenceAndMore hproper).1 (-9) hvalue
  rw [hshown] at heq
  exact absurd heq (by decide +kernel)

end Calculator

end Orchid.Calc
