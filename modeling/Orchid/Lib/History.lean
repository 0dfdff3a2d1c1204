import Mathlib.Data.List.Basic

/-!
# Undo histories

A command that is applied to a state leaves another state and a command meant to undo it. A history
remembers the applied commands with their inverses and the undone commands. As long as every
remembered inverse leads back exactly, undoing and redoing walk along one line of states.
-/

namespace Orchid.Lib

variable {δ κ : Type*}

/-- The inverse `i` leads from `t` back to `s`; `R c s i t` says that `c` leads from `s` to `t` with
inverse `i`. -/
def LeadsBack (R : κ → δ → κ → δ → Prop) (i : κ) (t s : δ) : Prop := ∃ j, R i t j s

/-- Commands that were applied from `s` on, the last one first. -/
inductive Past (R : κ → δ → κ → δ → Prop) (s : δ) : List (κ × κ) → δ → Prop where
  | nil : Past R s [] s
  | cons {past : List (κ × κ)} {t u : δ} {c i : κ} (h : Past R s past t) (hc : R c t i u)
      (hi : LeadsBack R i u t) : Past R s ((c, i) :: past) u

/-- Undone commands that lead on to `u`, the next one first. -/
inductive Future (R : κ → δ → κ → δ → Prop) (u : δ) : List κ → δ → Prop where
  | nil : Future R u [] u
  | cons {future : List κ} {s t : δ} {c i : κ} (hc : R c s i t) (hi : LeadsBack R i t s)
      (h : Future R u future t) : Future R u (c :: future) s

variable {R : κ → δ → κ → δ → Prop} {s t u : δ} {past : List (κ × κ)} {future : List κ} {c i : κ}

/-- Undoing the last command moves it to the front of the future. -/
lemma Past.undo (hp : Past R s ((c, i) :: past) t) (hf : Future R u future t) :
    ∃ t', LeadsBack R i t t' ∧ Past R s past t' ∧ Future R u (c :: future) t' := by
  cases hp with
  | cons h hc hi => exact ⟨_, hi, h, .cons hc hi hf⟩

/-- Redoing the next command moves it, with its inverse, to the front of the past. -/
lemma Future.redo (hf : Future R u (c :: future) t) (hp : Past R s past t) :
    ∃ i t', R c t i t' ∧ Future R u future t' ∧ Past R s ((c, i) :: past) t' := by
  cases hf with
  | cons hc hi h => exact ⟨_, _, hc, h, .cons hp hc hi⟩

lemma Past.eq_of_nil (hp : Past R s [] t) : t = s := by
  cases hp
  rfl

lemma Future.eq_of_nil (hf : Future R u [] t) : t = u := by
  cases hf
  rfl

end Orchid.Lib
