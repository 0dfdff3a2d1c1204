import Mathlib.Data.Fin.Basic
import Mathlib.Data.List.Basic
import Mathlib.Data.Nat.ModEq
import Orchid.Lib.Width

/-!
# Reading what was written

Fixed-width little-endian numbers, slices, and parsers that take their input from the front of a list. A
parser reads an encoding of a value if it returns the value and leaves behind whatever follows the
encoding. The rules below put parsers and encodings together part by part.
-/

namespace Orchid.Lib

/-! ### Little-endian numbers -/

/-- The `w` little-endian bytes of `n`; what does not fit is dropped. -/
def le : ℕ → ℕ → List (Fin (2 ^ 8))
  | 0, _ => []
  | w + 1, n => Fin.ofNat (2 ^ 8) n :: le w (n / 2 ^ 8)

/-- The number with the given little-endian bytes. -/
def ofLe : List (Fin (2 ^ 8)) → ℕ
  | [] => 0
  | b :: bs => b.val + 2 ^ 8 * ofLe bs

@[simp] lemma length_le (w n : ℕ) : (le w n).length = w := by
  induction w generalizing n with
  | zero => rfl
  | succ w ih => rw [le, List.length_cons, ih]

lemma ofLe_le (w n : ℕ) : ofLe (le w n) = n % (2 ^ 8) ^ w := by
  induction w generalizing n with
  | zero => rw [le, ofLe, pow_zero, Nat.mod_one]
  | succ w ih =>
    rw [le, ofLe, ih]
    show n % 2 ^ 8 + 2 ^ 8 * (n / 2 ^ 8 % (2 ^ 8) ^ w) = _
    rw [pow_succ' (2 ^ 8) w, Nat.mod_mul]

lemma ofLe_le_of_lt {w n : ℕ} (h : n < (2 ^ 8) ^ w) : ofLe (le w n) = n := by
  rw [ofLe_le, Nat.mod_eq_of_lt h]

/-! ### Slices -/

/-- The elements `i` to `j` of a list. -/
def slice {α : Type} (xs : List α) (i j : ℕ) : List α := (xs.take j).drop i

/-- The `k`-th of the parts that a list was put together from. -/
lemma slice_flatten {α : Type} {parts : List (List α)} {part : List α} (rest : List α) (k : ℕ)
    {i j : ℕ} (hpart : parts[k]? = some part) (hi : (parts.take k).flatten.length = i)
    (hj : i + part.length = j) : slice (parts.flatten ++ rest) i j = part := by
  obtain ⟨hk, rfl⟩ := List.getElem?_eq_some_iff.mp hpart
  have hsplit : parts.flatten = (parts.take k).flatten ++ (parts[k] ++ (parts.drop (k + 1)).flatten) := by
    rw [← List.flatten_cons, ← List.flatten_append, List.getElem_cons_drop, List.take_append_drop]
  rw [slice, hsplit, ← hj, ← hi, List.append_assoc, List.append_assoc,
    List.take_length_add_append, List.drop_left, List.take_left]

/-! ### Parsers -/

/-- A parser takes its input from the front of a list. -/
abbrev Parser (α ε β : Type) := StateT (List α) (Except ε) β

namespace Parser

variable {α ε β γ : Type}

/-- The next `n` elements; the error `e` if there are fewer. -/
def take (n : ℕ) (e : ε) : Parser α ε (List α) := fun s =>
  if n ≤ s.length then .ok (s.take n, s.drop n) else .error e

/-- The next element; the error `e` if there is none. -/
def next (e : ε) : Parser α ε α
  | [] => .error e
  | x :: s => .ok (x, s)

/-- Go on if the condition holds. -/
def ensure (c : Prop) [Decidable c] (e : ε) : Parser α ε Unit := if c then pure () else throw e

/-- Go on with the value that there should be. -/
def expect (x : Option β) (e : ε) : Parser α ε β :=
  match x with
  | some x => pure x
  | none => throw e

/-- Run a parser `n` times. -/
def many (p : Parser α ε β) : ℕ → Parser α ε (List β)
  | 0 => pure []
  | n + 1 => do
    let x ← p
    let xs ← many p n
    return x :: xs

/-- The parser reads `x` from its encoding, whatever follows. -/
def Reads (p : Parser α ε β) (x : β) (code : List α) : Prop :=
  ∀ rest, p (code ++ rest) = .ok (x, rest)

variable {p : Parser α ε β} {q : β → Parser α ε γ} {x : β} {y : γ} {a b : List α}

lemma reads_pure (x : β) : Reads (pure x : Parser α ε β) x [] := fun _ => rfl

lemma reads_take {n : ℕ} {e : ε} (h : a.length = n) : Reads (take n e) a a := by
  subst h
  intro rest
  rw [take, if_pos]
  · rw [List.take_left, List.drop_left]
  · rw [List.length_append]
    exact Nat.le_add_right _ _

lemma reads_lift (x : β) : Reads (liftM (.ok x : Except ε β) : Parser α ε β) x [] := fun _ => rfl

lemma reads_ensure {c : Prop} [Decidable c] (h : c) (e : ε) :
    Reads (ensure c e : Parser α ε Unit) () [] := by
  rw [ensure, if_pos h]
  exact reads_pure ()

lemma reads_expect (x : β) (e : ε) : Reads (expect (some x) e : Parser α ε β) x [] := reads_pure x

lemma reads_next (x : α) (e : ε) : Reads (next e) x [x] := fun _ => rfl

/-- What follows an encoding is left to the rest of the parser. -/
lemma Reads.bind_append (hp : Reads p x a) (q : β → Parser α ε γ) (rest : List α) :
    (p >>= q) (a ++ rest) = q x rest := by
  show (p (a ++ rest) >>= fun r => q r.1 r.2) = _
  rw [hp]
  rfl

lemma Reads.bind (hp : Reads p x a) (hq : Reads (q x) y b) : Reads (p >>= q) y (a ++ b) := by
  intro rest
  rw [List.append_assoc, hp.bind_append]
  exact hq rest

lemma take_eq_ok {n : ℕ} {e : ε} {s s' : List α} (h : take n e s = .ok (a, s')) :
    s = a ++ s' ∧ a.length = n := by
  rw [take] at h
  split_ifs at h with hlen
  obtain ⟨rfl, rfl⟩ := Prod.mk.inj (Except.ok.inj h)
  exact ⟨(List.take_append_drop n s).symm, List.length_take_of_le hlen⟩

lemma bind_eq_ok {s s' : List α} (h : (p >>= q) s = .ok (y, s')) :
    ∃ x r, p s = .ok (x, r) ∧ q x r = .ok (y, s') := by
  have h : (p s >>= fun r => q r.1 r.2) = .ok (y, s') := h
  cases hp : p s with
  | error e => simp [hp, bind, Except.bind] at h
  | ok r =>
    rw [hp] at h
    exact ⟨r.1, r.2, rfl, h⟩

/-- A parser whose last part consumes nothing. -/
lemma Reads.bind_pure (hp : Reads p x a) (f : β → γ) : Reads (p >>= fun x => pure (f x)) (f x) a := by
  have h := hp.bind (q := fun x => pure (f x)) (reads_pure (f x))
  rwa [List.append_nil] at h

lemma Reads.many {xs : List β} {code : β → List α} (h : ∀ x ∈ xs, Reads p x (code x)) :
    Reads (many p xs.length) xs (xs.flatMap code) := by
  induction xs with
  | nil => exact reads_pure []
  | cons x xs ih =>
    obtain ⟨hx, hxs⟩ := List.forall_mem_cons.mp h
    rw [List.flatMap_cons]
    exact hx.bind ((ih hxs).bind_pure (x :: ·))

end Parser

end Orchid.Lib
