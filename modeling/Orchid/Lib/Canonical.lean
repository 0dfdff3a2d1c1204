import Orchid.Lib.Wire

/-!
# Reading nothing but what is written

A parser consumes an encoding if whatever it accepts begins with the encoding of what it returns.
-/

namespace Orchid.Lib

/-- Little-endian bytes are those of the number they stand for. -/
lemma le_ofLe {w : ℕ} {bytes : List (Fin (2 ^ 8))} (h : bytes.length = w) :
    le w (ofLe bytes) = bytes := by
  induction bytes generalizing w with
  | nil =>
    subst h
    rfl
  | cons b bytes ih =>
    subst h
    rw [List.length_cons, le, ofLe]
    have hlow : Fin.ofNat (2 ^ 8) (b.val + 2 ^ 8 * ofLe bytes) = b :=
      Fin.ext ((Nat.add_mul_mod_self_left _ _ _).trans (Nat.mod_eq_of_lt b.isLt))
    have hhigh : (b.val + 2 ^ 8 * ofLe bytes) / 2 ^ 8 = ofLe bytes := by
      rw [Nat.add_mul_div_left _ _ (by decide), Nat.div_eq_of_lt b.isLt, Nat.zero_add]
    rw [hlow, hhigh, ih rfl]

lemma ofLe_lt (bytes : List (Fin (2 ^ 8))) : ofLe bytes < (2 ^ 8) ^ bytes.length := by
  have h := ofLe_le bytes.length (ofLe bytes)
  rw [le_ofLe rfl] at h
  rw [h]
  exact Nat.mod_lt _ (Nat.pow_pos (by decide))

namespace Parser

variable {α ε β : Type} {p : Parser α ε β} {s s' : List α}

/-- Whatever the parser accepts begins with the encoding of the value it returns, which is good. -/
def Consumes (p : Parser α ε β) (code : β → List α) (good : β → Prop) : Prop :=
  ∀ s x s', p s = .ok (x, s') → s = code x ++ s' ∧ good x

lemma pure_eq_ok {x y : β} (h : (pure x : Parser α ε β) s = .ok (y, s')) : x = y ∧ s = s' :=
  Prod.mk.inj (Except.ok.inj h)

lemma ensure_eq_ok {c : Prop} [Decidable c] {e : ε} {u : Unit}
    (h : (ensure c e : Parser α ε Unit) s = .ok (u, s')) : c ∧ s = s' := by
  by_cases hc : c
  · rw [ensure, if_pos hc] at h
    exact ⟨hc, (pure_eq_ok h).2⟩
  · rw [ensure, if_neg hc] at h
    cases h

lemma expect_eq_ok {x : Option β} {e : ε} {y : β}
    (h : (expect x e : Parser α ε β) s = .ok (y, s')) : x = some y ∧ s = s' := by
  cases x with
  | none => cases h
  | some x =>
    obtain ⟨rfl, rfl⟩ := pure_eq_ok h
    exact ⟨rfl, rfl⟩

lemma lift_eq_ok {x : Except ε β} {y : β}
    (h : (liftM x : Parser α ε β) s = .ok (y, s')) : x = .ok y ∧ s = s' := by
  cases x with
  | error e => cases h
  | ok x =>
    obtain ⟨rfl, rfl⟩ := Prod.mk.inj (Except.ok.inj h)
    exact ⟨rfl, rfl⟩

/-- The values of a repeated parser come from their encodings one after the other. -/
lemma Consumes.many {code : β → List α} {good : β → Prop} (hp : Consumes p code good) (n : ℕ) :
    Consumes (many p n) (List.flatMap code) fun xs => xs.length = n ∧ ∀ x ∈ xs, good x := by
  induction n with
  | zero =>
    intro s xs s' h
    obtain ⟨rfl, rfl⟩ := pure_eq_ok h
    exact ⟨rfl, rfl, fun _ hx => absurd hx List.not_mem_nil⟩
  | succ n ih =>
    intro s xs s' h
    obtain ⟨x, s₁, hx, h⟩ := bind_eq_ok h
    obtain ⟨ys, s₂, hys, h⟩ := bind_eq_ok h
    obtain ⟨rfl, rfl⟩ := pure_eq_ok h
    obtain ⟨rfl, hgood⟩ := hp _ _ _ hx
    obtain ⟨rfl, rfl, hall⟩ := ih _ _ _ hys
    refine ⟨by simp, rfl, ?_⟩
    intro y hy
    rcases List.mem_cons.mp hy with rfl | hy
    · exact hgood
    · exact hall y hy

end Parser

end Orchid.Lib
