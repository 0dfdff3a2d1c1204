import Mathlib.Data.List.Basic

/-!
# Properties of every step of a run

A system that takes one step for each event of a list. `Along next p s events` says that `p` holds
of every step of the run from `s`: of the state before it and its event. Two such properties agree
on a run as soon as they agree wherever an invariant holds that one of them preserves.
-/

namespace Orchid.Lib

variable {σ ε : Type*} {next : σ → ε → σ} {p q : σ → ε → Prop} {inv : σ → Prop}

/-- Every step of the run has the property. -/
def Along (next : σ → ε → σ) (p : σ → ε → Prop) : σ → List ε → Prop
  | _, [] => True
  | s, e :: events => p s e ∧ Along next p (next s e) events

lemma along_cons {s : σ} {e : ε} {events : List ε} :
    Along next p s (e :: events) ↔ p s e ∧ Along next p (next s e) events := Iff.rfl

/-- Properties that agree under an invariant agree on the runs from where it holds. -/
lemma along_iff_along (hstep : ∀ s e, inv s → q s e → inv (next s e))
    (hiff : ∀ s e, inv s → (p s e ↔ q s e)) {s : σ} (hs : inv s) (events : List ε) :
    Along next p s events ↔ Along next q s events := by
  induction events generalizing s with
  | nil => exact Iff.rfl
  | cons e events ih =>
    rw [along_cons, along_cons, hiff s e hs]
    exact and_congr_right fun hq => ih (hstep s e hs hq)

/-- The same where every step of the run has a third property besides. -/
lemma along_iff_along_of {r : σ → ε → Prop} (hstep : ∀ s e, inv s → r s e → q s e → inv (next s e))
    (hiff : ∀ s e, inv s → r s e → (p s e ↔ q s e)) {s : σ} (hs : inv s) {events : List ε}
    (hr : Along next r s events) : Along next p s events ↔ Along next q s events := by
  induction events generalizing s with
  | nil => exact Iff.rfl
  | cons e events ih =>
    rw [along_cons, along_cons, hiff s e hs hr.1]
    exact and_congr_right fun hq => ih (hstep s e hs hr.1 hq) hr.2

end Orchid.Lib
