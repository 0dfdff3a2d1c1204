import Mathlib.Data.Option.Basic
import Orchid.Calc.Typing

/-!
# Expressions

An expression as it is typed is a tree in which every operator stands where the usual precedence
puts it: powers before products before sums, powers to the right and the others to the left.
-/

namespace Orchid.Calc

/-- The tree of an expression. -/
inductive Expr
  | num (n : Number)
  | paren (e : Expr)
  | bin (op : BinOp) (l r : Expr)

namespace Expr

/-- How closely a tree holds together. -/
def level : Expr → ℕ
  | num _ | paren _ => 4
  | bin op _ _ => op.precedence

/-- The trees that the usual precedence and associativity give. -/
def Proper : Expr → Prop
  | num _ => True
  | paren e => e.Proper
  | bin op l r => l.Proper ∧ r.Proper ∧
    if op.rightAssoc then op.precedence < l.level ∧ op.precedence ≤ r.level
    else op.precedence ≤ l.level ∧ op.precedence < r.level

/-- The keys that type an expression. -/
def keys : Expr → List CalcKey
  | num n => n.keys
  | paren e => .openParen :: (e.keys ++ [.closeParen])
  | bin op l r => l.keys ++ .binary op :: r.keys

/-! ### Every expression has a tree -/

/-- An operator and an operand behind an expression. -/
def snoc (op : BinOp) (a : Expr) (e : Expr) : Expr :=
  match e with
  | bin o l r =>
    if op.precedence < o.precedence ∨ (op.precedence = o.precedence ∧ op.rightAssoc = false) then
      bin op (bin o l r) a
    else bin o l (snoc op a r)
  | num _ | paren _ => bin op e a

lemma keys_snoc (op : BinOp) (a e : Expr) :
    (snoc op a e).keys = e.keys ++ .binary op :: a.keys := by
  induction e with
  | num n => rfl
  | paren e _ => rfl
  | bin o l r _ ihr =>
    unfold snoc
    split_ifs
    · rfl
    · rw [keys, ihr, keys, List.append_assoc, List.cons_append]

lemma precedence_lt (op : BinOp) : op.precedence < 4 := by
  cases op <;> decide

/-- Operators of one precedence associate to one side. -/
lemma rightAssoc_eq {op o : BinOp} (h : op.precedence = o.precedence) :
    op.rightAssoc = o.rightAssoc := by
  revert h
  cases op <;> cases o <;> decide

lemma level_snoc (op : BinOp) (a e : Expr) :
    (snoc op a e).level = min op.precedence e.level := by
  have hop := precedence_lt op
  cases e with
  | num n => exact (min_eq_left hop.le).symm
  | paren e => exact (min_eq_left hop.le).symm
  | bin o l r =>
    unfold snoc
    split_ifs with h
    · show op.precedence = min op.precedence o.precedence
      omega
    · show o.precedence = min op.precedence o.precedence
      rw [not_or, not_lt] at h
      exact (min_eq_right h.1).symm

lemma Proper.snoc {op : BinOp} {a e : Expr} (he : e.Proper) (ha : a.Proper) (hlevel : a.level = 4) :
    (snoc op a e).Proper := by
  have hop := precedence_lt op
  induction e with
  | num n =>
    refine ⟨he, ha, ?_⟩
    rw [hlevel]
    split_ifs
    · exact ⟨hop, hop.le⟩
    · exact ⟨hop.le, hop⟩
  | paren e _ =>
    refine ⟨he, ha, ?_⟩
    rw [hlevel]
    split_ifs
    · exact ⟨hop, hop.le⟩
    · exact ⟨hop.le, hop⟩
  | bin o l r _ ihr =>
    obtain ⟨hl, hr, hsides⟩ := he
    unfold Expr.snoc
    split_ifs with h
    · refine ⟨⟨hl, hr, hsides⟩, ha, ?_⟩
      rw [hlevel]
      show if op.rightAssoc then op.precedence < o.precedence ∧ op.precedence ≤ 4
        else op.precedence ≤ o.precedence ∧ op.precedence < 4
      split_ifs with hright
      · rcases h with h | h
        · exact ⟨h, hop.le⟩
        · rw [hright] at h
          cases h.2
      · rcases h with h | h
        · exact ⟨h.le, hop⟩
        · exact ⟨h.1.le, hop⟩
    · refine ⟨hl, ihr hr, ?_⟩
      rw [level_snoc]
      rw [not_or, not_lt, not_and] at h
      by_cases heq : op.precedence = o.precedence
      · have hassoc := rightAssoc_eq heq
        have hright : o.rightAssoc = true := by
          rw [← hassoc]
          exact Bool.eq_true_of_not_eq_false (h.2 heq)
        rw [if_pos hright] at hsides ⊢
        exact ⟨hsides.1, le_min h.1 hsides.2⟩
      · have hlt : o.precedence < op.precedence := lt_of_le_of_ne h.1 (Ne.symm heq)
        split_ifs at hsides ⊢
        · exact ⟨hsides.1, le_min hlt.le hsides.2⟩
        · exact ⟨hsides.1, lt_min hlt hsides.2⟩

/-- An operator and an expression behind an expression. -/
def join (e : Expr) (op : BinOp) : Expr → Expr
  | num n => snoc op (num n) e
  | paren f => snoc op (paren f) e
  | bin o l r => (e.join op l).join o r

lemma keys_join (e : Expr) (op : BinOp) (f : Expr) :
    (e.join op f).keys = e.keys ++ .binary op :: f.keys := by
  induction f generalizing e op with
  | num n => exact keys_snoc op _ e
  | paren f _ => exact keys_snoc op _ e
  | bin o l r ihl ihr =>
    rw [join, ihr, ihl, keys, List.append_assoc, List.cons_append]

lemma Proper.join {e f : Expr} (he : e.Proper) (hf : f.Proper) (op : BinOp) :
    (e.join op f).Proper := by
  induction f generalizing e op with
  | num n => exact he.snoc hf rfl
  | paren f _ => exact he.snoc hf rfl
  | bin o l r ihl ihr => exact ihr (ihl he hf.1 op) hf.2.1 o

/-- Whatever is typed has a tree that the usual precedence gives. -/
theorem exists_proper (e : Expr) : ∃ t : Expr, t.Proper ∧ t.keys = e.keys := by
  induction e with
  | num n => exact ⟨num n, trivial, rfl⟩
  | paren e ih =>
    obtain ⟨t, ht, hkeys⟩ := ih
    refine ⟨paren t, ht, ?_⟩
    rw [keys, keys, hkeys]
  | bin op l r ihl ihr =>
    obtain ⟨tl, htl, hkeysl⟩ := ihl
    obtain ⟨tr, htr, hkeysr⟩ := ihr
    refine ⟨tl.join op tr, htl.join htr op, ?_⟩
    rw [keys_join, keys, hkeysl, hkeysr]

end Expr

end Orchid.Calc
