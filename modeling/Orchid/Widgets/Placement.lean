import Mathlib.Tactic.Ring
import Orchid.Lib.Spiral
import Orchid.Widgets.Layout

/-!
# Which slots automatic placement finds

The grid search tries every position. The spiral starts in the middle and moves by two cells, so
it only comes to positions an even number of columns and rows away from the middle, and it makes
as many rounds as the grid has cells, a number that does not fit `i32` for the largest grids.
-/

namespace Orchid.Widgets

open Lib

/-! ### Positions -/

/-- The rectangle of a widget at the position is inside the grid. -/
def Inside (opts : LayoutOptions) (size : WidgetSize) (p : GridPosition) : Prop :=
  p.col.val + (sizeInCells size).1.val ≤ opts.gridColumns.val ∧
    p.row.val + (sizeInCells size).2.val ≤ opts.gridRows.val

/-- The rectangle of a widget at the position overlaps no occupied one. -/
def Free (size : WidgetSize) (occupied : List CellRect) (p : GridPosition) : Prop :=
  ∀ r ∈ occupied, overlaps (CellRect.fromWidget p size) r = false

/-- A position is found that is inside and free, and there is an error only if there is none. -/
structure FindsSlot (opts : LayoutOptions) (size : WidgetSize) (occupied : List CellRect)
    (result : Except WidgetError GridPosition) : Prop where
  ok : ∀ p, result = .ok p → Inside opts size p ∧ Free size occupied p
  error : ∀ e, result = .error e → ∀ p, Inside opts size p → ¬ Free size occupied p

lemma findsSlot_ok_iff {opts : LayoutOptions} {size : WidgetSize} {occupied : List CellRect}
    {p : GridPosition} :
    FindsSlot opts size occupied (.ok p) ↔ Inside opts size p ∧ Free size occupied p := by
  constructor
  · exact fun h => h.ok p rfl
  · exact fun h => ⟨fun q hq => Except.ok.inj hq ▸ h, fun e he => by simp at he⟩

lemma findsSlot_error_iff {opts : LayoutOptions} {size : WidgetSize} {occupied : List CellRect}
    {e : WidgetError} :
    FindsSlot opts size occupied (.error e) ↔
      ∀ p, Inside opts size p → ¬ Free size occupied p := by
  constructor
  · exact fun h => h.error e rfl
  · exact fun h => ⟨fun q hq => by simp at hq, fun _ _ => h⟩

lemma collides_eq_false_iff (p : GridPosition) (size : WidgetSize) (occupied : List CellRect) :
    collides p size occupied = false ↔ Free size occupied p := by
  simp [collides, Free]

lemma asU16_val (n : U16) : asU16 n.val = n := Fin.ext (Nat.mod_eq_of_lt n.isLt)

lemma val_asU16 {n : ℕ} (h : n < 2 ^ 16) : (asU16 n).val = n := Nat.mod_eq_of_lt h

/-- The largest column and row a widget can take. -/
def maxCol (opts : LayoutOptions) (size : WidgetSize) : U16 :=
  U16.saturatingSub opts.gridColumns (sizeInCells size).1

def maxRow (opts : LayoutOptions) (size : WidgetSize) : U16 :=
  U16.saturatingSub opts.gridRows (sizeInCells size).2

/-- The widget fits the grid at all. -/
def Fits (opts : LayoutOptions) (size : WidgetSize) : Prop :=
  (sizeInCells size).1.val ≤ opts.gridColumns.val ∧ (sizeInCells size).2.val ≤ opts.gridRows.val

lemma fitsInGrid_iff (opts : LayoutOptions) (size : WidgetSize) :
    fitsInGrid ⟨0, 0⟩ size opts.gridColumns opts.gridRows = true ↔ Fits opts size := by
  have h1 := (sizeInCells size).1.isLt
  have h2 := (sizeInCells size).2.isLt
  simp only [fitsInGrid, U16.saturatingAdd, Fits, Bool.and_eq_true, decide_eq_true_eq, Fin.le_def]
  simp only [Fin.val_zero]
  omega

lemma inside_iff {opts : LayoutOptions} {size : WidgetSize} (hfits : Fits opts size)
    (p : GridPosition) :
    Inside opts size p ↔ p.col ≤ maxCol opts size ∧ p.row ≤ maxRow opts size := by
  obtain ⟨h1, h2⟩ := hfits
  simp only [Inside, maxCol, maxRow, U16.saturatingSub, Fin.le_def]
  omega

lemma not_inside {opts : LayoutOptions} {size : WidgetSize} (h : ¬ Fits opts size)
    (p : GridPosition) : ¬ Inside opts size p := by
  intro hp
  exact h ⟨by unfold Inside at hp; omega, by unfold Inside at hp; omega⟩

/-! ### The grid search -/

lemma gridFirstFit_finds {opts : LayoutOptions} {size : WidgetSize} (hfits : Fits opts size)
    (occupied : List CellRect) :
    (∀ p ∈ gridFirstFit size opts occupied, Inside opts size p ∧ Free size occupied p) ∧
    (gridFirstFit size opts occupied = none →
      ∀ p, Inside opts size p → ¬ Free size occupied p) := by
  have hmem : ∀ {p : GridPosition} {row col : ℕ},
      (if collides ⟨asU16 col, asU16 row⟩ size occupied then none
        else some (⟨asU16 col, asU16 row⟩ : GridPosition)) = some p →
      p = ⟨asU16 col, asU16 row⟩ ∧ Free size occupied p := by
    intro p row col h
    split_ifs at h with hc
    obtain rfl := Option.some.inj h
    exact ⟨rfl, (collides_eq_false_iff _ _ _).mp (by simpa using hc)⟩
  constructor
  · intro p hp
    obtain ⟨row, hrow, hp⟩ := List.exists_of_findSome?_eq_some hp
    obtain ⟨col, hcol, hp⟩ := List.exists_of_findSome?_eq_some hp
    obtain ⟨rfl, hfree⟩ := hmem hp
    refine ⟨(inside_iff hfits _).mpr ?_, hfree⟩
    rw [List.mem_range] at hrow hcol
    have hc := (maxCol opts size).isLt
    have hr := (maxRow opts size).isLt
    unfold maxCol at hc
    unfold maxRow at hr
    constructor
    · rw [Fin.le_def, val_asU16 (by omega)]
      exact Nat.le_of_lt_succ hcol
    · rw [Fin.le_def, val_asU16 (by omega)]
      exact Nat.le_of_lt_succ hrow
  · intro hnone p hp hfree
    obtain ⟨hcol, hrow⟩ := (inside_iff hfits p).mp hp
    have hrows := List.findSome?_eq_none_iff.mp hnone p.row.val
      (List.mem_range.mpr (Nat.lt_succ_of_le hrow))
    have hcols := List.findSome?_eq_none_iff.mp hrows p.col.val
      (List.mem_range.mpr (Nat.lt_succ_of_le hcol))
    rw [asU16_val, asU16_val, if_neg] at hcols
    · exact absurd hcols (by simp)
    · simpa using (collides_eq_false_iff p size occupied).mpr hfree

/-! ### The spiral -/

lemma i32_emod_two (x : ℤ) : i32 x % 2 = x % 2 := by
  simp only [i32, Int.bmod]
  split_ifs <;> omega

lemma i32_eq {x : ℤ} (h : -2 ^ 31 ≤ x ∧ x < 2 ^ 31) : i32 x = x := by
  simp only [i32, Int.bmod]
  split_ifs <;> omega

section Spiral

variable {candidate : ℤ × ℤ → Option GridPosition} {α β : Type}

/-- Two places an even number of columns and rows apart. -/
def SameParity (p q : ℤ × ℤ) : Prop := p.1 % 2 = q.1 % 2 ∧ p.2 % 2 = q.2 % 2

lemma SameParity.trans {p q r : ℤ × ℤ} (h : SameParity p q) (h' : SameParity q r) :
    SameParity p r := ⟨h.1.trans h'.1, h.2.trans h'.2⟩

/-- A walk from a place keeps its parity, to its end or to the candidate that stops it. -/
def Walks (candidate : ℤ × ℤ → Option GridPosition) (start : ℤ × ℤ) (last : α → ℤ × ℤ) :
    Except GridPosition α → Prop
  | .ok a => SameParity (last a) start
  | .error found => ∃ place, SameParity place start ∧ candidate place = some found

lemma Walks.trans {start place : ℤ × ℤ} {last : α → ℤ × ℤ} {r : Except GridPosition α}
    (h : SameParity place start) (hr : Walks candidate place last r) :
    Walks candidate start last r := by
  cases r with
  | ok a => exact SameParity.trans hr h
  | error found =>
    obtain ⟨q, hq, hf⟩ := hr
    exact ⟨q, hq.trans h, hf⟩

lemma Walks.bind {start : ℤ × ℤ} {last : α → ℤ × ℤ} {last' : β → ℤ × ℤ}
    {r : Except GridPosition α} (hr : Walks candidate start last r)
    {f : α → Except GridPosition β} (hf : ∀ a, Walks candidate (last a) last' (f a)) :
    Walks candidate start last' (r >>= f) := by
  cases r with
  | ok a => exact Walks.trans hr (hf a)
  | error found => exact hr

lemma walks_spiralLeg (dir : ℤ × ℤ) (n : ℕ) (place : ℤ × ℤ) :
    Walks candidate place id (spiralLeg candidate dir n place) := by
  induction n generalizing place with
  | zero => exact ⟨rfl, rfl⟩
  | succ n ih =>
    have hstep : SameParity (i32 (place.1 + dir.1 * stride), i32 (place.2 + dir.2 * stride))
        place := by
      simp only [SameParity, stride, i32_emod_two]
      omega
    rw [spiralLeg]
    cases hc : candidate (i32 (place.1 + dir.1 * stride), i32 (place.2 + dir.2 * stride)) with
    | some found => exact ⟨_, hstep, hc⟩
    | none => exact Walks.trans hstep (ih _)

lemma walks_spiralRound (leg : ℤ) (place : ℤ × ℤ) :
    Walks candidate place Prod.snd (spiralRound candidate leg place) := by
  unfold spiralRound
  apply Walks.bind (walks_spiralLeg _ _ _)
  intro right
  apply Walks.bind (walks_spiralLeg _ _ _)
  intro down
  apply Walks.bind (walks_spiralLeg _ _ _)
  intro left
  apply Walks.bind (walks_spiralLeg _ _ _)
  intro up
  exact ⟨rfl, rfl⟩

lemma walks_spiralRounds (n : ℕ) (leg : ℤ) (place : ℤ × ℤ) :
    Walks candidate place Prod.snd (spiralRounds candidate n leg place) := by
  induction n generalizing leg place with
  | zero => exact ⟨rfl, rfl⟩
  | succ n ih =>
    apply Walks.bind (walks_spiralRound leg place)
    rintro ⟨leg, place⟩
    exact ih leg place

/-- A leg without a candidate has looked at each of its places. -/
lemma spiralLeg_ok {dx dy : ℤ} {n : ℕ} {x y : ℤ} {place : ℤ × ℤ}
    (h : spiralLeg candidate (dx, dy) n (x, y) = .ok place)
    (hx : ∀ j : ℤ, 1 ≤ j → j ≤ n → i32 (x + j * (dx * stride)) = x + j * (dx * stride))
    (hy : ∀ j : ℤ, 1 ≤ j → j ≤ n → i32 (y + j * (dy * stride)) = y + j * (dy * stride)) :
    place = (x + n * (dx * stride), y + n * (dy * stride)) ∧
      ∀ j : ℤ, 1 ≤ j → j ≤ n →
        candidate (x + j * (dx * stride), y + j * (dy * stride)) = none := by
  induction n generalizing x y with
  | zero =>
    obtain rfl := Except.ok.inj h
    exact ⟨by simp, fun j hj hj' => absurd hj' (by simp; omega)⟩
  | succ n ih =>
    have hx1 := hx 1 le_rfl (by simp)
    have hy1 := hy 1 le_rfl (by simp)
    rw [one_mul] at hx1 hy1
    rw [spiralLeg, hx1, hy1] at h
    cases hc : candidate (x + dx * stride, y + dy * stride) with
    | some found => simp [hc] at h
    | none =>
      rw [hc] at h
      have hmove (z d j : ℤ) : z + d * stride + j * (d * stride) = z + (j + 1) * (d * stride) := by
        ring
      obtain ⟨hend, hall⟩ := ih h
        (fun j hj hjn => by
          rw [hmove]
          exact hx (j + 1) (by omega) (by push_cast; omega))
        (fun j hj hjn => by
          rw [hmove]
          exact hy (j + 1) (by omega) (by push_cast; omega))
      refine ⟨by rw [hend, hmove, hmove]; push_cast; rfl, fun j hj hjn => ?_⟩
      rcases eq_or_lt_of_le hj with rfl | hlt
      · rw [one_mul, one_mul]
        exact hc
      · have := hall (j - 1) (by omega) (by push_cast at hjn; omega)
        rwa [hmove, hmove, sub_add_cancel] at this

lemma bind_eq_ok {x : Except GridPosition α} {f : α → Except GridPosition β} {b : β}
    (h : (x >>= f) = .ok b) : ∃ a, x = .ok a ∧ f a = .ok b := by
  cases x with
  | error found => simp [bind, Except.bind] at h
  | ok a => exact ⟨a, rfl, h⟩

/-- Where round `k` starts, around the middle `(x, y)`. -/
def roundStart (x y k : ℤ) : ℤ × ℤ := (x - 2 * k, y - 2 * k)

/-- A round without a candidate ends where the next one starts and has looked at all its places,
as long as nothing leaves the range of `i32`. -/
lemma spiralRound_ok {x y k : ℤ} (hx : 0 ≤ x ∧ x < 2 ^ 16) (hy : 0 ≤ y ∧ y < 2 ^ 16)
    (hk : 0 ≤ k ∧ k < 2 ^ 20) {r : ℤ × (ℤ × ℤ)}
    (h : spiralRound candidate (2 * k + 1) (roundStart x y k) = .ok r) :
    r = (2 * (k + 1) + 1, roundStart x y (k + 1)) ∧
      ∀ a b, SpiralRound k a b → candidate (x + 2 * a, y + 2 * b) = none := by
  unfold spiralRound roundStart at h
  have hlen : ((2 * k + 1).toNat : ℤ) = 2 * k + 1 := by omega
  have hlen' : ((2 * k + 2).toNat : ℤ) = 2 * k + 2 := by omega
  have hleg : i32 (2 * k + 1 + 1) = 2 * k + 2 := by
    rw [i32_eq (by omega)]
    omega
  have hleg' : i32 (2 * k + 2 + 1) = 2 * (k + 1) + 1 := by
    rw [i32_eq (by omega)]
    omega
  rw [hleg] at h
  obtain ⟨p1, h1, h⟩ := bind_eq_ok h
  obtain ⟨rfl, hright⟩ := spiralLeg_ok h1
    (fun j hj hjn => i32_eq (by unfold stride; omega))
    (fun j hj hjn => i32_eq (by unfold stride; omega))
  obtain ⟨p2, h2, h⟩ := bind_eq_ok h
  obtain ⟨rfl, hdown⟩ := spiralLeg_ok h2
    (fun j hj hjn => i32_eq (by unfold stride; omega))
    (fun j hj hjn => i32_eq (by unfold stride; omega))
  obtain ⟨p3, h3, h⟩ := bind_eq_ok h
  obtain ⟨rfl, hleft⟩ := spiralLeg_ok h3
    (fun j hj hjn => i32_eq (by unfold stride; omega))
    (fun j hj hjn => i32_eq (by unfold stride; omega))
  obtain ⟨p4, h4, h⟩ := bind_eq_ok h
  obtain ⟨rfl, hup⟩ := spiralLeg_ok h4
    (fun j hj hjn => i32_eq (by unfold stride; omega))
    (fun j hj hjn => i32_eq (by unfold stride; omega))
  rw [hlen] at hright hdown
  rw [hlen'] at hleft hup
  obtain rfl := Except.ok.inj h
  refine ⟨?_, fun a b hab => ?_⟩
  · rw [hleg']
    simp only [hlen, hlen', roundStart, stride, Prod.mk.injEq]
    exact ⟨trivial, by omega, by omega⟩
  · cases hab with
    | right j hj hjn ha hb =>
      convert hright j hj hjn using 3 <;> unfold stride <;> omega
    | down j hj hjn ha hb =>
      convert hdown j hj hjn using 3 <;> unfold stride <;> omega
    | left j hj hjn ha hb =>
      convert hleft j hj hjn using 3 <;> unfold stride <;> omega
    | up j hj hjn ha hb =>
      convert hup j hj hjn using 3 <;> unfold stride <;> omega

/-- Rounds without a candidate have looked at all their places. -/
lemma spiralRounds_ok {x y : ℤ} (hx : 0 ≤ x ∧ x < 2 ^ 16) (hy : 0 ≤ y ∧ y < 2 ^ 16) {n : ℕ}
    {k : ℤ} (hk : 0 ≤ k) {r : ℤ × (ℤ × ℤ)}
    (h : spiralRounds candidate n (2 * k + 1) (roundStart x y k) = .ok r) {m : ℤ} (hkm : k ≤ m)
    (hmn : m < k + n) (hm : m < 2 ^ 20) {a b : ℤ} (hab : SpiralRound m a b) :
    candidate (x + 2 * a, y + 2 * b) = none := by
  induction n generalizing k with
  | zero => exact absurd hmn (by simp; omega)
  | succ n ih =>
    obtain ⟨s, hs, h⟩ := bind_eq_ok h
    obtain ⟨rfl, hround⟩ := spiralRound_ok hx hy ⟨hk, by omega⟩ hs
    rcases eq_or_lt_of_le hkm with rfl | hlt
    · exact hround a b hab
    · exact ih (by omega) h (by omega) (by push_cast at hmn; omega)

end Spiral

/-! ### The spiral search -/

section Search

variable {opts : LayoutOptions} {size : WidgetSize} {occupied : List CellRect}

/-- A position as a place of the walk. -/
def place (p : GridPosition) : ℤ × ℤ := (p.col.val, p.row.val)

lemma candidateAt_eq_some {mc mr : U16} {q : ℤ × ℤ} {p : GridPosition}
    (h : candidateAt size mc mr occupied q = some p) :
    q = place p ∧ p.col ≤ mc ∧ p.row ≤ mr ∧ Free size occupied p := by
  simp only [candidateAt] at h
  have hmc := mc.isLt
  have hmr := mr.isLt
  split_ifs at h with hrange hc
  obtain rfl := Option.some.inj h
  obtain ⟨h1, h2, h3, h4⟩ : 0 ≤ q.1 ∧ 0 ≤ q.2 ∧ q.1 ≤ mc.val ∧ q.2 ≤ mr.val := by omega
  have hcol : (asU16 q.1.toNat).val = q.1.toNat := val_asU16 (by omega)
  have hrow : (asU16 q.2.toNat).val = q.2.toNat := val_asU16 (by omega)
  refine ⟨?_, ?_, ?_, (collides_eq_false_iff _ _ _).mp (by simpa using hc)⟩
  · refine Prod.ext ?_ ?_
    · simp only [place, hcol]
      omega
    · simp only [place, hrow]
      omega
  · rw [Fin.le_def, hcol]
    omega
  · rw [Fin.le_def, hrow]
    omega

lemma not_free_of_candidateAt {mc mr : U16} {p : GridPosition}
    (h : candidateAt size mc mr occupied (place p) = none) (hc : p.col ≤ mc) (hr : p.row ≤ mr) :
    ¬ Free size occupied p := by
  intro hfree
  have hin : ¬ ((place p).1 < 0 ∨ (place p).2 < 0 ∨ (mc.val : ℤ) < (place p).1 ∨
      (mr.val : ℤ) < (place p).2) := by
    rw [Fin.le_def] at hc hr
    simp only [place]
    omega
  rw [candidateAt, if_neg hin] at h
  simp only [place, Int.toNat_natCast, asU16_val] at h
  rw [if_neg] at h
  · simp at h
  · simpa using (collides_eq_false_iff p size occupied).mpr hfree

/-- A widget takes at least one cell. -/
lemma max_lt (hfits : Fits opts size) : (maxCol opts size).val < opts.gridColumns.val ∧
    (maxRow opts size).val < opts.gridRows.val := by
  have hpos : 0 < (sizeInCells size).1.val ∧ 0 < (sizeInCells size).2.val := by
    cases size with
    | free w h =>
      have hw : (1 : U16) ≤ max w 1 := le_max_right w 1
      have hh : (1 : U16) ≤ max h 1 := le_max_right h 1
      exact ⟨hw, hh⟩
    | _ => decide
  obtain ⟨h1, h2⟩ := hfits
  simp only [maxCol, maxRow, U16.saturatingSub]
  omega

/-- The middle of the grid for a widget. -/
def middle (opts : LayoutOptions) (size : WidgetSize) : GridPosition :=
  center size opts.gridColumns opts.gridRows

lemma middle_val (opts : LayoutOptions) (size : WidgetSize) :
    (middle opts size).col.val = (maxCol opts size).val / 2 ∧
      (middle opts size).row.val = (maxRow opts size).val / 2 := by
  have hc := (maxCol opts size).isLt
  have hr := (maxRow opts size).isLt
  exact ⟨val_asU16 (by unfold maxCol at hc; omega), val_asU16 (by unfold maxRow at hr; omega)⟩

lemma inside_middle (hfits : Fits opts size) : Inside opts size (middle opts size) := by
  obtain ⟨hc, hr⟩ := middle_val opts size
  refine (inside_iff hfits _).mpr ⟨?_, ?_⟩
  · rw [Fin.le_def, hc]
    exact Nat.div_le_self _ _
  · rw [Fin.le_def, hr]
    exact Nat.div_le_self _ _

/-- The spiral can come to the position: it is an even number of columns and rows from the
middle. -/
def OnSpiral (opts : LayoutOptions) (size : WidgetSize) (p : GridPosition) : Prop :=
  p.col.val % 2 = (middle opts size).col.val % 2 ∧ p.row.val % 2 = (middle opts size).row.val % 2

/-- When the search in free mode finds a slot or there is none: the middle is free, or the grid has
fewer than `2 ^ 31` cells and a free slot lies on the spiral, or no slot is free. -/
def SpiralFinds (opts : LayoutOptions) (size : WidgetSize) (occupied : List CellRect) : Prop :=
  Free size occupied (middle opts size) ∨
  (opts.gridColumns.val * opts.gridRows.val < 2 ^ 31 ∧
    ∃ p, Inside opts size p ∧ Free size occupied p ∧ OnSpiral opts size p) ∨
  ∀ p, Inside opts size p → ¬ Free size occupied p

/-- The walk of `spiral_place` from the middle. -/
def walk (opts : LayoutOptions) (size : WidgetSize) (occupied : List CellRect) :
    Except GridPosition (ℤ × (ℤ × ℤ)) :=
  spiralRounds (candidateAt size (maxCol opts size) (maxRow opts size) occupied)
    (i32 (opts.gridColumns.val * opts.gridRows.val)).toNat 1 (place (middle opts size))

/-- What the walk finds lies on the spiral. -/
lemma walk_error {p : GridPosition} (h : walk opts size occupied = .error p)
    (hfits : Fits opts size) :
    Inside opts size p ∧ Free size occupied p ∧ OnSpiral opts size p := by
  have hwalks : Walks (candidateAt size (maxCol opts size) (maxRow opts size) occupied)
      (place (middle opts size)) Prod.snd (walk opts size occupied) := by
    unfold walk
    exact walks_spiralRounds _ _ _
  rw [h] at hwalks
  obtain ⟨q, ⟨hcol, hrow⟩, hq⟩ := hwalks
  obtain ⟨rfl, hc, hr, hfree⟩ := candidateAt_eq_some hq
  refine ⟨(inside_iff hfits p).mpr ⟨hc, hr⟩, hfree, ?_, ?_⟩
  · simp only [place] at hcol
    omega
  · simp only [place] at hrow
    omega

lemma area_lt (opts : LayoutOptions) :
    opts.gridColumns.val * opts.gridRows.val < 2 ^ 32 := by
  have hc := opts.gridColumns.isLt
  have hr := opts.gridRows.isLt
  have hmul : opts.gridColumns.val * opts.gridRows.val ≤ (2 ^ 16 - 1) * (2 ^ 16 - 1) :=
    Nat.mul_le_mul (by omega) (by omega)
  omega

/-- The number of rounds is the number of cells, or none if that leaves the range of `i32`. -/
lemma toNat_i32_area (opts : LayoutOptions) :
    (i32 (opts.gridColumns.val * opts.gridRows.val)).toNat =
      if opts.gridColumns.val * opts.gridRows.val < 2 ^ 31
      then opts.gridColumns.val * opts.gridRows.val else 0 := by
  have hlt := area_lt opts
  rw [← Nat.cast_mul]
  simp only [i32, Int.bmod]
  split_ifs <;> omega

/-- Without a candidate the walk has come to every position of the spiral, unless the number of
rounds has left the range of `i32`. -/
lemma walk_ok {r : ℤ × (ℤ × ℤ)} (h : walk opts size occupied = .ok r) (hfits : Fits opts size)
    (hmiddle : ¬ Free size occupied (middle opts size))
    (harea : opts.gridColumns.val * opts.gridRows.val < 2 ^ 31) {p : GridPosition}
    (hp : Inside opts size p) (hon : OnSpiral opts size p) : ¬ Free size occupied p := by
  obtain ⟨hpc, hpr⟩ := (inside_iff hfits p).mp hp
  have hc := (middle opts size).col.isLt
  have hr := (middle opts size).row.isLt
  obtain ⟨hmc, hmr⟩ := middle_val opts size
  obtain ⟨hcols, hrows⟩ := max_lt hfits
  obtain ⟨a, ha⟩ : ∃ a : ℤ, (p.col.val : ℤ) = (middle opts size).col.val + 2 * a :=
    ⟨((p.col.val : ℤ) - (middle opts size).col.val) / 2, by have := hon.1; omega⟩
  obtain ⟨b, hb⟩ : ∃ b : ℤ, (p.row.val : ℤ) = (middle opts size).row.val + 2 * b :=
    ⟨((p.row.val : ℤ) - (middle opts size).row.val) / 2, by have := hon.2; omega⟩
  by_cases hzero : a = 0 ∧ b = 0
  · obtain rfl : p = middle opts size := by
      have h1 : p.col = (middle opts size).col := Fin.ext (by omega)
      have h2 : p.row = (middle opts size).row := Fin.ext (by omega)
      cases p
      simp_all
    exact hmiddle
  · rw [Fin.le_def] at hpc hpr
    obtain ⟨n, hn⟩ : ∃ n : ℤ, n = max (maxCol opts size).val (maxRow opts size).val := ⟨_, rfl⟩
    obtain ⟨k, hk0, hkn, hab⟩ : ∃ k, 0 ≤ k ∧ k ≤ n ∧ SpiralRound k a b :=
      exists_spiralRound (by omega) (by omega) (by omega)
    have hk : k < 0 + (opts.gridColumns.val * opts.gridRows.val : ℕ) := by
      have h1 : opts.gridColumns.val ≤ opts.gridColumns.val * opts.gridRows.val :=
        Nat.le_mul_of_pos_right _ (by omega)
      have h2 : opts.gridRows.val ≤ opts.gridColumns.val * opts.gridRows.val :=
        Nat.le_mul_of_pos_left _ (by omega)
      omega
    have hplace : place p = (((middle opts size).col.val : ℤ) + 2 * a,
        ((middle opts size).row.val : ℤ) + 2 * b) := Prod.ext ha hb
    have hstart : place (middle opts size) =
        roundStart (middle opts size).col.val (middle opts size).row.val 0 := by
      simp [place, roundStart]
    rw [walk, toNat_i32_area, if_pos harea, hstart] at h
    have hnone := spiralRounds_ok (by omega) (by omega) le_rfl h hk0 hk (by omega) hab
    rw [← hplace] at hnone
    exact not_free_of_candidateAt hnone hpc hpr

/-- The largest grids have no rounds. -/
lemma walk_of_large (harea : ¬ opts.gridColumns.val * opts.gridRows.val < 2 ^ 31) :
    walk opts size occupied = .ok (1, place (middle opts size)) := by
  rw [walk, toNat_i32_area, if_neg harea, spiralRounds]

lemma spiralPlace_eq (hfits : Fits opts size) :
    spiralPlace size opts.gridColumns opts.gridRows occupied =
      if collides (middle opts size) size occupied = false then some (middle opts size)
      else stoppedAt (walk opts size occupied) := by
  have hfit : ¬ fitsInGrid ⟨0, 0⟩ size opts.gridColumns opts.gridRows = false := by
    simpa using (fitsInGrid_iff opts size).mpr hfits
  unfold spiralPlace walk middle maxCol maxRow place
  rw [if_neg hfit]

/-- The spiral search finds a slot, or there is none, exactly as `SpiralFinds` says. -/
lemma spiralPlace_finds_iff (hfits : Fits opts size) :
    (match spiralPlace size opts.gridColumns opts.gridRows occupied with
      | some p => Inside opts size p ∧ Free size occupied p
      | none => ∀ p, Inside opts size p → ¬ Free size occupied p) ↔
      SpiralFinds opts size occupied := by
  rw [spiralPlace_eq hfits, SpiralFinds]
  by_cases hmiddle : Free size occupied (middle opts size)
  · rw [if_pos ((collides_eq_false_iff _ _ _).mpr hmiddle)]
    exact ⟨fun h => Or.inl h.2, fun _ => ⟨inside_middle hfits, hmiddle⟩⟩
  · rw [if_neg fun h => hmiddle ((collides_eq_false_iff _ _ _).mp h)]
    cases hw : walk opts size occupied with
    | error p =>
      have hp := walk_error hw hfits
      refine ⟨fun _ => Or.inr (Or.inl ⟨?_, p, hp⟩), fun _ => ⟨hp.1, hp.2.1⟩⟩
      by_contra harea
      rw [walk_of_large harea] at hw
      simp at hw
    | ok r =>
      constructor
      · exact fun h => Or.inr (Or.inr h)
      · rintro (h | ⟨harea, p, hin, hfree, hon⟩ | h)
        · exact absurd h hmiddle
        · exact absurd hfree (walk_ok hw hfits hmiddle harea hin hon)
        · exact h

lemma placeAround_finds_iff (ws : Uuid) :
    FindsSlot opts size occupied (placeAround opts ws size occupied) ↔
      opts.mode = .grid ∨ SpiralFinds opts size occupied := by
  by_cases hfits : Fits opts size
  · rw [placeAround, if_neg (by simpa using (fitsInGrid_iff opts size).mpr hfits)]
    cases hmode : opts.mode with
    | grid =>
      obtain ⟨hsome, hnone⟩ := gridFirstFit_finds hfits occupied
      dsimp only
      cases hg : gridFirstFit size opts occupied with
      | some p => exact ⟨fun _ => Or.inl rfl, fun _ => findsSlot_ok_iff.mpr (hsome p hg)⟩
      | none => exact ⟨fun _ => Or.inl rfl, fun _ => findsSlot_error_iff.mpr (hnone hg)⟩
    | free =>
      have hspiral : _ ↔ SpiralFinds opts size occupied := spiralPlace_finds_iff hfits
      dsimp only
      rw [or_iff_right (by simp), ← hspiral]
      cases hs : spiralPlace size opts.gridColumns opts.gridRows occupied with
      | some p => exact findsSlot_ok_iff
      | none => exact findsSlot_error_iff
  · have hno : ∀ p, Inside opts size p → ¬ Free size occupied p :=
      fun p hp => absurd hp (not_inside hfits p)
    have hfalse : fitsInGrid ⟨0, 0⟩ size opts.gridColumns opts.gridRows = false :=
      Bool.eq_false_iff.mpr fun h => hfits ((fitsInGrid_iff opts size).mp h)
    rw [placeAround, if_pos hfalse]
    exact ⟨fun _ => Or.inr (Or.inr (Or.inr hno)), fun _ => findsSlot_error_iff.mpr hno⟩

end Search

/-- Automatic placement finds a slot or there is none: always in grid mode, and in free mode exactly
as `SpiralFinds` says. -/
theorem auto_place_finds_iff (opts : LayoutOptions) (ws : Uuid) (size : WidgetSize)
    (existing : List PlacedInstance) (ignore : Uuid) :
    (FindsSlot opts size (rectsFor existing ws) (autoPlace opts ws size existing) ↔
      opts.mode = .grid ∨ SpiralFinds opts size (rectsFor existing ws)) ∧
    (FindsSlot opts size (rectsForExcluding existing ws (some ignore))
        (autoPlaceExcluding opts ws size existing ignore) ↔
      opts.mode = .grid ∨ SpiralFinds opts size (rectsForExcluding existing ws (some ignore))) :=
  ⟨placeAround_finds_iff ws, placeAround_finds_iff ws⟩

/-- A free grid of one row and two columns. -/
def twoCells : LayoutOptions := ⟨.free, 2, 1⟩

/-- A widget in its first cell. -/
def firstCell : PlacedInstance := ⟨1, 0, ⟨0, 0⟩, .free 1 1⟩

/-- A widget in the first of two cells hides the second from the spiral. -/
theorem not_auto_place_finds :
    ¬ ∀ (opts : LayoutOptions) (ws : Uuid) (size : WidgetSize) (existing : List PlacedInstance),
      Fits opts size →
        FindsSlot opts size (rectsFor existing ws) (autoPlace opts ws size existing) := by
  intro h
  have hfits : Fits twoCells (.free 1 1) := (fitsInGrid_iff _ _).mp (by decide)
  have hresult : autoPlace twoCells 0 (.free 1 1) [firstCell] =
      .error (.layout ("free-layout spiral placement failed for size ".toList ++
        (WidgetSize.free 1 1).debug)) := by
    decide +kernel
  have hno := (h twoCells 0 (.free 1 1) [firstCell] hfits).error _ hresult
  have hsecond : collides ⟨1, 0⟩ (.free 1 1) (rectsFor [firstCell] 0) = false := by decide +kernel
  exact hno ⟨1, 0⟩ ((inside_iff hfits _).mpr (by decide)) ((collides_eq_false_iff _ _ _).mp hsecond)

end Orchid.Widgets
