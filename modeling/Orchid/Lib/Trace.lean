import Mathlib.Data.List.GetD
import Mathlib.Order.Nat

/-!
# Endless runs

A machine takes a step on every event; a run goes on for ever and may pass the time with events that
change nothing. What every step keeps holds at every time, and what stays true until an event comes
is true when it comes.
-/

namespace Orchid.Lib

variable {σ ε : Type}

/-- An endless run of a machine. -/
structure Trace (next : σ → ε → Option σ) (init : σ) where
  state : ℕ → σ
  event : ℕ → ε
  start : state 0 = init
  step : ∀ n, next (state n) (event n) = some (state (n + 1))

namespace Trace

variable {next : σ → ε → Option σ} {init : σ} (r : Trace next init)

/-- What the machine has at the start and keeps in every safe step it has at every time. -/
lemma invariant {p : σ → Prop} {safe : σ → ε → Prop} (hinit : p init)
    (hstep : ∀ s e s', p s → safe s e → next s e = some s' → p s')
    (hsafe : ∀ n, safe (r.state n) (r.event n)) (n : ℕ) : p (r.state n) := by
  induction n with
  | zero =>
    rw [r.start]
    exact hinit
  | succ n ih => exact hstep _ _ _ ih (hsafe n) (r.step n)

/-- What only one kind of event ends is true when the next event of that kind comes. -/
lemma exists_until {p : σ → Prop} {e : ε → Prop} {n m : ℕ} (hn : p (r.state n)) (hm : n ≤ m)
    (he : e (r.event m))
    (hkeep : ∀ i, n ≤ i → p (r.state i) → ¬ e (r.event i) → p (r.state (i + 1))) :
    ∃ i, n ≤ i ∧ p (r.state i) ∧ e (r.event i) := by
  obtain ⟨d, rfl⟩ := Nat.exists_eq_add_of_le hm
  clear hm
  induction d generalizing n with
  | zero => exact ⟨n, le_rfl, hn, he⟩
  | succ d ih =>
    by_cases hnow : e (r.event n)
    · exact ⟨n, le_rfl, hn, hnow⟩
    · have hnext := hkeep n le_rfl hn hnow
      rw [Nat.add_comm d 1, ← Nat.add_assoc] at he
      obtain ⟨i, hi, hp, hei⟩ := ih hnext (fun j hj => hkeep j (by omega)) he
      exact ⟨i, by omega, hp, hei⟩

end Trace

/-! ### Runs that come to rest -/

section Finite

variable {next : σ → ε → Option σ} {init : σ}

lemma foldlM_take_succ {es : List ε} {n : ℕ} (hn : n < es.length) :
    (es.take (n + 1)).foldlM next init = (es.take n).foldlM next init >>= fun s => next s es[n] := by
  rw [List.take_succ_eq_append_getElem hn, List.foldlM_append]
  simp

lemma isSome_foldlM_take {es : List ε} (h : (es.foldlM next init).isSome) (n : ℕ) :
    ((es.take n).foldlM next init).isSome := by
  rw [← List.take_append_drop n es, List.foldlM_append] at h
  cases htake : (es.take n).foldlM next init with
  | none => simp [htake] at h
  | some s => rfl

/-- Steps that are always possible and keep a property can be taken one after the other. -/
lemma exists_foldlM_of_step {p : σ → Prop} {s : σ} (h : p s)
    (hstep : ∀ s e, p s → ∃ s', next s e = some s' ∧ p s') (es : List ε) :
    ∃ s', es.foldlM next s = some s' ∧ p s' := by
  induction es generalizing s with
  | nil => exact ⟨s, rfl, h⟩
  | cons e es ih =>
    obtain ⟨s₁, hs₁, hp⟩ := hstep s e h
    obtain ⟨s', hs', hp'⟩ := ih hp
    refine ⟨s', ?_, hp'⟩
    rw [List.foldlM_cons, hs₁]
    exact hs'

/-- What relates the states around every step relates those around a run. -/
lemma rel_of_foldlM {r : σ → σ → Prop} (hrefl : ∀ s, r s s)
    (htrans : ∀ s s' s'', r s s' → r s' s'' → r s s'')
    (hstep : ∀ s e s', next s e = some s' → r s s') {es : List ε} {s s' : σ}
    (h : es.foldlM next s = some s') : r s s' := by
  induction es generalizing s with
  | nil =>
    cases h
    exact hrefl _
  | cons e es ih =>
    rw [List.foldlM_cons] at h
    obtain ⟨s₁, hs₁, hrest⟩ := Option.bind_eq_some_iff.mp h
    exact htrans s s₁ s' (hstep s e s₁ hs₁) (ih hrest)

/-- Every step that is taken has the property, which looks at the state before it. -/
def AlongM (next : σ → ε → Option σ) (p : σ → ε → Prop) : σ → List ε → Prop
  | _, [] => True
  | s, e :: es => p s e ∧ ∀ s', next s e = some s' → AlongM next p s' es

/-- What every step with a property keeps, a run of such steps keeps. -/
lemma invariant_of_alongM {r : σ → Prop} {p : σ → ε → Prop}
    (hstep : ∀ s e s', r s → p s e → next s e = some s' → r s') {es : List ε} {s s' : σ}
    (hs : r s) (hp : AlongM next p s es) (h : es.foldlM next s = some s') : r s' := by
  induction es generalizing s with
  | nil =>
    cases h
    exact hs
  | cons e es ih =>
    rw [List.foldlM_cons] at h
    obtain ⟨s₁, hs₁, hrest⟩ := Option.bind_eq_some_iff.mp h
    exact ih (hstep s e s₁ hs hp.1 hs₁) (hp.2 s₁ hs₁) hrest

lemma alongM_and {p q : σ → ε → Prop} {es : List ε} {s : σ} (hp : AlongM next p s es)
    (hq : AlongM next q s es) : AlongM next (fun s e => p s e ∧ q s e) s es := by
  induction es generalizing s with
  | nil => trivial
  | cons e es ih => exact ⟨⟨hp.1, hq.1⟩, fun s' hs' => ih (hp.2 s' hs') (hq.2 s' hs')⟩

/-- What commutes with every step commutes with a run. -/
lemma foldlM_map {f : σ → σ} (hf : ∀ s e, next (f s) e = (next s e).map f) (es : List ε) (s : σ) :
    es.foldlM next (f s) = (es.foldlM next s).map f := by
  induction es generalizing s with
  | nil => rfl
  | cons e es ih =>
    rw [List.foldlM_cons, List.foldlM_cons, hf]
    cases next s e with
    | none => rfl
    | some s₁ => exact ih s₁

/-- The run of some events, followed by one that changes nothing. -/
def Trace.ofEvents (es : List ε) (idle : ε) (hidle : ∀ s, next s idle = some s)
    (h : (es.foldlM next init).isSome) : Trace next init where
  state := fun n => ((es.take n).foldlM next init).getD init
  event := fun n => es.getD n idle
  start := rfl
  step := by
    intro n
    obtain ⟨s, hs⟩ := Option.isSome_iff_exists.mp (isSome_foldlM_take h n)
    by_cases hn : n < es.length
    · obtain ⟨s', hs'⟩ := Option.isSome_iff_exists.mp (isSome_foldlM_take h (n + 1))
      have hstep := hs'
      rw [foldlM_take_succ hn, hs] at hstep
      rw [hs, hs', List.getD_eq_getElem es idle hn]
      exact hstep
    · rw [List.take_of_length_le (by omega)] at hs ⊢
      rw [List.take_of_length_le (by omega), List.getD_eq_default es idle (by omega)]
      exact (hidle _).trans (by rw [hs])

end Finite

end Orchid.Lib
