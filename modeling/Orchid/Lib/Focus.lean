import Mathlib.Logic.Function.Basic
import Mathlib.Data.List.Basic
import Orchid.Lib.Enumerate

/-!
# Borrowed parts of a state

A program that may fail keeps its state as it is at the failure. `Focus` is a part of a state that
may be absent, with the laws of reading and writing it; a program on the part becomes a program on
the whole, and undoing it on the part undoes it on the whole.
-/

namespace Orchid.Lib

variable {ε σ α β γ : Type}

/-! ### Programs with a state that survives a failure -/

namespace Run

@[simp] lemma run_throw (e : ε) (s : σ) : (throw e : EStateM ε σ α).run s = .error e s := rfl

@[simp] lemma run_map (f : α → β) (x : EStateM ε σ α) (s : σ) :
    (f <$> x).run s = match x.run s with
      | .ok a t => .ok (f a) t
      | .error e t => .error e t := rfl

lemma bind_eq_ok {x : EStateM ε σ α} {f : α → EStateM ε σ β} {s t : σ} {b : β} :
    (x >>= f).run s = .ok b t ↔ ∃ a u, x.run s = .ok a u ∧ (f a).run u = .ok b t := by
  rw [EStateM.run_bind]
  cases x.run s with
  | ok a u => simp
  | error e u => simp

end Run

/-! ### What every successful run does -/

/-- Whenever `x` succeeds, the states before and after are related by `r`. -/
def Relates (r : σ → σ → Prop) (x : EStateM ε σ α) : Prop :=
  ∀ ⦃s a t⦄, x.run s = .ok a t → r s t

namespace Relates

variable {r : σ → σ → Prop} {x y : EStateM ε σ α}

lemma pure (refl : ∀ s, r s s) (a : α) : Relates r (pure a : EStateM ε σ α) := by
  rintro s _ _ ⟨⟩
  exact refl s

lemma throw (e : ε) : Relates r (throw e : EStateM ε σ α) := fun _ _ _ h => by cases h

lemma read (refl : ∀ s, r s s) : Relates r (get : EStateM ε σ σ) := by
  rintro s _ _ ⟨⟩
  exact refl s

lemma modify {f : σ → σ} (h : ∀ s, r s (f s)) : Relates r (modify f : EStateM ε σ PUnit) := by
  rintro s _ _ ⟨⟩
  exact h s

lemma bind (trans : ∀ s t u, r s t → r t u → r s u) {f : α → EStateM ε σ β} (hx : Relates r x)
    (hf : ∀ a, Relates r (f a)) : Relates r (x >>= f) := by
  intro s b t h
  obtain ⟨a, u, hu, ht⟩ := Run.bind_eq_ok.mp h
  exact trans s u t (hx hu) (hf a ht)

lemma get_bind {f : σ → EStateM ε σ α} (h : ∀ s a t, (f s).run s = .ok a t → r s t) :
    Relates r (get >>= f) := fun s a t => h s a t

lemma ite {c : Prop} [Decidable c] (hx : c → Relates r x) (hy : ¬ c → Relates r y) :
    Relates r (if c then x else y) := by
  by_cases h : c
  · rw [if_pos h]
    exact hx h
  · rw [if_neg h]
    exact hy h

lemma forM (refl : ∀ s, r s s) (trans : ∀ s t u, r s t → r t u → r s u) (l : List β)
    {f : β → EStateM ε σ PUnit} (hf : ∀ b ∈ l, Relates r (f b)) : Relates r (l.forM f) := by
  induction l with
  | nil => exact pure refl _
  | cons b l ih =>
    exact bind trans (hf b (by simp)) fun _ => ih fun c hc => hf c (by simp [hc])

end Relates

/-! ### Parts -/

/-- A part of `σ` that may be absent. -/
@[ext]
structure Focus (σ α : Type) where
  get? : σ → Option α
  set : α → σ → σ
  get?_set : ∀ {s a} b, get? s = some a → get? (set b s) = some b
  set_get : ∀ {s a}, get? s = some a → set a s = s
  set_set : ∀ {s a} b c, get? s = some a → set c (set b s) = set c s

namespace Focus

/-- A component that is always there. -/
def field (get : σ → α) (set : α → σ → σ) (h₁ : ∀ s b, get (set b s) = b)
    (h₂ : ∀ s, set (get s) s = s) (h₃ : ∀ s b c, set c (set b s) = set c s) : Focus σ α where
  get? s := some (get s)
  set := set
  get?_set b _ := congrArg some (h₁ _ b)
  set_get h := by
    cases h
    exact h₂ _
  set_set b c _ := h₃ _ b c

/-- The content of one case of a type. -/
def case (proj : σ → Option α) (mk : α → σ) (h₁ : ∀ a, proj (mk a) = some a)
    (h₂ : ∀ s a, proj s = some a → mk a = s) : Focus σ α where
  get? := proj
  set a _ := mk a
  get?_set b _ := h₁ b
  set_get h := h₂ _ _ h
  set_set _ _ _ := rfl

/-- The element at an index. -/
def index (α : Type) (i : ℕ) : Focus (List α) α where
  get? l := l[i]?
  set a l := l.set i a
  get?_set b h := by
    obtain ⟨hi, -⟩ := List.getElem?_eq_some_iff.mp h
    exact List.getElem?_set_self hi
  set_get h := by
    obtain ⟨hi, rfl⟩ := List.getElem?_eq_some_iff.mp h
    exact List.set_getElem_self hi
  set_set b c _ := List.set_set b

/-- A part of a part. -/
def comp (f : Focus σ α) (g : Focus α β) : Focus σ β where
  get? s := (f.get? s).bind g.get?
  set b s := match f.get? s with
    | none => s
    | some a => f.set (g.set b a) s
  get?_set b h := by
    obtain ⟨a, ha, hb⟩ := Option.bind_eq_some_iff.mp h
    simp only [ha, f.get?_set _ ha, Option.bind_some]
    exact g.get?_set b hb
  set_get h := by
    obtain ⟨a, ha, hb⟩ := Option.bind_eq_some_iff.mp h
    simp only [ha, g.set_get hb]
    exact f.set_get ha
  set_set b c h := by
    obtain ⟨a, ha, hb⟩ := Option.bind_eq_some_iff.mp h
    simp only [ha, f.get?_set _ ha, g.set_set b c hb]
    exact f.set_set _ _ ha

@[simp] lemma get?_comp (f : Focus σ α) (g : Focus α β) (s : σ) :
    (f.comp g).get? s = (f.get? s).bind g.get? := rfl

@[simp] lemma get?_index (i : ℕ) (l : List α) : (index α i).get? l = l[i]? := rfl

lemma set_comp {f : Focus σ α} {g : Focus α β} {s : σ} {a : α} (h : f.get? s = some a) (b : β) :
    (f.comp g).set b s = f.set (g.set b a) s := by
  simp [comp, h]

lemma comp_assoc {δ : Type} (f : Focus σ α) (g : Focus α β) (h : Focus β δ) :
    (f.comp g).comp h = f.comp (g.comp h) := by
  refine Focus.ext ?_ ?_
  · funext s
    simp [comp, Option.bind_assoc]
  · funext c s
    cases ha : f.get? s with
    | none => simp [comp, ha]
    | some a =>
      cases hb : g.get? a with
      | none => simp [comp, ha, hb, f.set_get ha]
      | some b => simp [comp, ha, hb]

/-- The list `Q a` that the part `a` stands for is a window in the list `P s` of the whole; writing
the part changes the window only. -/
def Window {γ : Type*} (f : Focus σ α) (P : σ → List γ) (Q : α → List γ) : Prop :=
  ∀ ⦃s a⦄, f.get? s = some a →
    ∃ pre post, P s = pre ++ Q a ++ post ∧ ∀ a', P (f.set a' s) = pre ++ Q a' ++ post

namespace Window

variable {γ : Type*} {P : σ → List γ} {Q : α → List γ} {R : β → List γ}

lemma comp {f : Focus σ α} {g : Focus α β} (hf : f.Window P Q) (hg : g.Window Q R) :
    (f.comp g).Window P R := by
  intro s b h
  obtain ⟨a, ha, hb⟩ := Option.bind_eq_some_iff.mp h
  obtain ⟨pre, post, hs, hset⟩ := hf ha
  obtain ⟨pre', post', hs', hset'⟩ := hg hb
  refine ⟨pre ++ pre', post' ++ post, by simp [hs, hs'], fun b' => ?_⟩
  rw [set_comp ha, hset, hset']
  simp

/-- The part stands for the whole list. -/
lemma of_eq {f : Focus σ α} (h : ∀ s a, f.get? s = some a → P s = Q a) : f.Window P Q := by
  intro s a ha
  refine ⟨[], [], by simpa using h s a ha, fun a' => ?_⟩
  simpa using h _ a' (f.get?_set a' ha)

lemma index (g : α → ℕ → List γ) (i : ℕ) :
    (index α i).Window (enumFlatMap g) (g · i) := fun _ _ h => enumFlatMap_set g h

end Window

variable (f : Focus σ α)

/-- Writing the part is undone only by writing back what was there. -/
lemma set_set_eq_iff {s : σ} {a : α} (h : f.get? s = some a) (b c : α) :
    f.set c (f.set b s) = s ↔ c = a := by
  rw [f.set_set b c h]
  constructor
  · intro heq
    have := f.get?_set c h
    rw [heq, h] at this
    exact (Option.some.inj this).symm
  · rintro rfl
    exact f.set_get h

/-- Run a program on the part; `e` if the part is absent. -/
def borrow (e : ε) (x : EStateM ε α β) : EStateM ε σ β := fun s =>
  match f.get? s with
  | none => .error e s
  | some a => match x.run a with
    | .ok b a' => .ok b (f.set a' s)
    | .error e' a' => .error e' (f.set a' s)

lemma run_borrow (e : ε) (x : EStateM ε α β) (s : σ) :
    (f.borrow e x).run s = match f.get? s with
      | none => .error e s
      | some a => match x.run a with
        | .ok b a' => .ok b (f.set a' s)
        | .error e' a' => .error e' (f.set a' s) := rfl

lemma borrow_eq_ok {e : ε} {x : EStateM ε α β} {s t : σ} {b : β} :
    (f.borrow e x).run s = .ok b t ↔
      ∃ a a', f.get? s = some a ∧ x.run a = .ok b a' ∧ f.set a' s = t := by
  rw [run_borrow]
  cases f.get? s with
  | none => simp
  | some a =>
    cases hx : x.run a with
    | ok c a' => simp [hx]
    | error e' a' => simp [hx]

/-- What a program does to the part, it does to the whole through the part. -/
lemma relates_borrow {r : σ → σ → Prop} {q : α → α → Prop} {e : ε} {x : EStateM ε α β}
    (hx : Relates q x) (h : ∀ {s a a'}, f.get? s = some a → q a a' → r s (f.set a' s)) :
    Relates r (f.borrow e x) := by
  intro s b t hok
  obtain ⟨a, a', hget, hrun, rfl⟩ := f.borrow_eq_ok.mp hok
  exact h hget (hx hrun)

/-- A program on the part that was written undoes the write exactly if it does so on the part. -/
lemma borrow_set_eq_ok_iff {e : ε} {x : EStateM ε α β} {s : σ} {a : α} (h : f.get? s = some a)
    (a' : α) (b : β) : (f.borrow e x).run (f.set a' s) = .ok b s ↔ x.run a' = .ok b a := by
  rw [borrow_eq_ok, f.get?_set a' h]
  constructor
  · rintro ⟨_, c, ⟨rfl⟩, hx, hset⟩
    rwa [(f.set_set_eq_iff h a' c).mp hset] at hx
  · intro hx
    exact ⟨a', a, rfl, hx, (f.set_set_eq_iff h a' a).mpr rfl⟩

end Focus

end Orchid.Lib
