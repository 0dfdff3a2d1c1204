import Mathlib.Data.List.Perm.Basic

/-!
# Tasks over a shared state

Calls that run at the same time are tasks in a pool. A step of the pool starts a call or lets one
task take its next atomic step on the shared state; a choice stands for all the step depends on
besides. A task alone can also be followed step by step, to its end or to the point where it is cut
off.
-/

namespace Orchid.Lib

variable {σ τ ω ι ℓ : Type}

/-- What a step of a task leads to. -/
inductive Progress (τ ω : Type) where
  | running (t : τ)
  | finished (o : ω)

/-- A shared state, the tasks on it and the outcomes of the finished ones, last first. -/
structure Pool (σ τ ω : Type) where
  shared : σ
  tasks : List τ
  log : List ω

/-- A step of the pool: a call starts, or the task at an index takes a step. -/
inductive Event (ι ℓ : Type) where
  | start (call : ι)
  | step (k : ℕ) (choice : ℓ)

namespace Pool

variable (enter : ι → τ) (step : ℓ → σ → τ → σ × Progress τ ω)

/-- The pool after a step; no result if there is no task at the index. -/
def next (p : Pool σ τ ω) : Event ι ℓ → Option (Pool σ τ ω)
  | .start call => some { p with tasks := enter call :: p.tasks }
  | .step k choice =>
    match p.tasks[k]? with
    | none => none
    | some t =>
      match step choice p.shared t with
      | (s, .running u) => some { p with shared := s, tasks := p.tasks.set k u }
      | (s, .finished o) => some ⟨s, p.tasks.eraseIdx k, o :: p.log⟩

/-- The pool after some steps. -/
def run (p : Pool σ τ ω) (es : List (Event ι ℓ)) : Option (Pool σ τ ω) :=
  es.foldlM (next enter step) p

/-- Every step of a run satisfies `safe` in the pool it is taken in. -/
def EachStep (safe : Pool σ τ ω → Event ι ℓ → Prop) : Pool σ τ ω → List (Event ι ℓ) → Prop
  | _, [] => True
  | p, e :: es => safe p e ∧ ∀ q, next enter step p e = some q → EachStep safe q es

variable {enter step}

/-- What a task's step does to the pool, up to the order of the tasks. -/
lemma next_step_cases {p q : Pool σ τ ω} {k : ℕ} {choice : ℓ}
    (h : next enter step p (.step k choice) = some q) :
    ∃ t rest, p.tasks[k]? = some t ∧ p.tasks.Perm (t :: rest) ∧
      ((∃ u, step choice p.shared t = (q.shared, .running u) ∧ q.tasks.Perm (u :: rest) ∧
          q.log = p.log) ∨
        ∃ o, step choice p.shared t = (q.shared, .finished o) ∧ q.tasks.Perm rest ∧
          q.log = o :: p.log) := by
  cases ht : p.tasks[k]? with
  | none => simp [next, ht] at h
  | some t =>
    obtain ⟨hk, rfl⟩ := List.getElem?_eq_some_iff.mp ht
    refine ⟨p.tasks[k], p.tasks.eraseIdx k, rfl, (List.getElem_cons_eraseIdx_perm hk).symm, ?_⟩
    cases hs : step choice p.shared p.tasks[k] with
    | mk s r =>
      cases r with
      | running u =>
        obtain rfl : _ = q := by simpa [next, ht, hs] using h
        exact .inl ⟨u, rfl, List.set_perm_cons_eraseIdx hk u, rfl⟩
      | finished o =>
        obtain rfl : _ = q := by simpa [next, ht, hs] using h
        exact .inr ⟨o, rfl, .refl _, rfl⟩

/-- What every safe step preserves holds after a run of safe steps. -/
lemma run_invariant {safe : Pool σ τ ω → Event ι ℓ → Prop} {inv : Pool σ τ ω → Prop}
    (hstep : ∀ p e q, inv p → safe p e → next enter step p e = some q → inv q)
    {p q : Pool σ τ ω} {es : List (Event ι ℓ)} (hp : inv p) (hsafe : EachStep enter step safe p es)
    (h : run enter step p es = some q) : inv q := by
  induction es generalizing p with
  | nil =>
    obtain rfl := Option.some.inj h
    exact hp
  | cons e es ih =>
    obtain ⟨r, hr, hrest⟩ := Option.bind_eq_some_iff.mp h
    exact ih (hstep p e r hp hsafe.1 hr) (hsafe.2 r hr) hrest

end Pool

/-! ### One task alone -/

section Alone

variable (step : ℓ → σ → τ → σ × Progress τ ω) (good : ℓ → Prop)

/-- Steps of a task alone, under choices that satisfy `good`. -/
inductive Reaches (s : σ) (t : τ) : σ → τ → Prop
  | refl : Reaches s t s t
  | tail {s₁ s₂ u v c} : Reaches s t s₁ u → good c → step c s₁ u = (s₂, .running v) →
      Reaches s t s₂ v

/-- A task alone runs to its end. -/
def Completes (s : σ) (t : τ) (s' : σ) (o : ω) : Prop :=
  ∃ s₁ u c, Reaches step good s t s₁ u ∧ good c ∧ step c s₁ u = (s', .finished o)

variable {step good} {s s₁ s' : σ} {t u : τ} {o : ω}

lemma Reaches.invariant (inv : σ → τ → Prop)
    (hstep : ∀ c s₁ u s₂ v, inv s₁ u → good c → step c s₁ u = (s₂, .running v) → inv s₂ v)
    (h : Reaches step good s t s' u) (hs : inv s t) : inv s' u := by
  induction h with
  | refl => exact hs
  | tail _ hc hrun ih => exact hstep _ _ _ _ _ ih hc hrun

lemma Reaches.head {v : τ} (c : ℓ) (hc : good c) (hstep : step c s t = (s₁, .running u))
    (h : Reaches step good s₁ u s' v) : Reaches step good s t s' v := by
  induction h with
  | refl => exact .tail .refl hc hstep
  | tail _ hd hrun ih => exact .tail ih hd hrun

lemma Completes.last (c : ℓ) (hc : good c) (hstep : step c s t = (s', .finished o)) :
    Completes step good s t s' o := ⟨s, t, c, .refl, hc, hstep⟩

lemma Completes.head (c : ℓ) (hc : good c) (hstep : step c s t = (s₁, .running u))
    (h : Completes step good s₁ u s' o) : Completes step good s t s' o := by
  obtain ⟨s₂, v, d, hreach, hd, hend⟩ := h
  exact ⟨s₂, v, d, hreach.head c hc hstep, hd, hend⟩

/-- What a task's steps keep, and what its last step makes of it. -/
lemma Completes.elim (inv : σ → τ → Prop) (post : σ → ω → Prop)
    (hstep : ∀ c s₁ u s₂ v, inv s₁ u → good c → step c s₁ u = (s₂, .running v) → inv s₂ v)
    (hlast : ∀ c s₁ u s₂ o, inv s₁ u → good c → step c s₁ u = (s₂, .finished o) → post s₂ o)
    (h : Completes step good s t s' o) (hs : inv s t) : post s' o := by
  obtain ⟨s₁, u, c, hreach, hc, hend⟩ := h
  exact hlast c s₁ u s' o (hreach.invariant inv hstep hs) hc hend

end Alone

end Orchid.Lib
