import Orchid.Widgets.Placement

/-!
# Placing with growth

When automatic placement fails the grid is widened for a widget that is too wide, and lengthened
until a slot appears or the limits are reached. The options keep what has grown.
-/

namespace Orchid.Widgets

def maxGridRows : U16 := 512

def maxGridCols : U16 := 128

def maxIters : ℕ := 1024

/-- The options after a failed placement, if the grid grew. -/
def grow (size : WidgetSize) (opts : LayoutOptions) : Option LayoutOptions :=
  let (wc, hc) := sizeInCells size
  let wider := wc > opts.gridColumns ∧ opts.gridColumns < maxGridCols
  let gridColumns := if wider then min wc maxGridCols else opts.gridColumns
  let taller := hc > opts.gridRows ∧ opts.gridRows < maxGridRows
  let gridRows := if taller then min hc maxGridRows else opts.gridRows
  let another := ¬ (wider ∨ taller) ∧ gridRows < maxGridRows
  let gridRows := if another then U16.saturatingAdd gridRows 1 else gridRows
  if wider ∨ taller ∨ another then
    some { opts with
      gridColumns := min gridColumns maxGridCols
      gridRows := min gridRows maxGridRows }
  else none

/-- The loop of `auto_place_excluding_with_growth`, with the options it leaves. -/
def growthLoop (workspaceId : Uuid) (size : WidgetSize) (existing : List PlacedInstance)
    (ignoreInstance : Uuid) : ℕ → LayoutOptions → Except WidgetError GridPosition × LayoutOptions
  | 0, opts => (.error (.layout "auto_place: exceeded growth iteration cap".toList), opts)
  | iters + 1, opts =>
    match autoPlaceExcluding opts workspaceId size existing ignoreInstance with
    | .ok position => (.ok position, opts)
    | .error e =>
      match grow size opts with
      | none => (.error e, opts)
      | some opts => growthLoop workspaceId size existing ignoreInstance iters opts

/-- `auto_place_excluding_with_growth` -/
def autoPlaceExcludingWithGrowth (opts : LayoutOptions) (workspaceId : Uuid) (size : WidgetSize)
    (existing : List PlacedInstance) (ignoreInstance : Uuid) :
    Except WidgetError GridPosition × LayoutOptions :=
  growthLoop workspaceId size existing ignoreInstance maxIters opts

/-! ### What is asked of it -/

/-- A free slot in a grid of so many columns and rows. -/
def HasSlot (columns rows : ℕ) (size : WidgetSize) (occupied : List CellRect) : Prop :=
  ∃ p : GridPosition, p.col.val + (sizeInCells size).1.val ≤ columns ∧
    p.row.val + (sizeInCells size).2.val ≤ rows ∧ Free size occupied p

/-- A slot is found exactly if the widest and longest grid has one, it is free, and a failure leaves
the options alone. -/
structure GrowsRight (opts : LayoutOptions) (size : WidgetSize) (occupied : List CellRect)
    (result : Except WidgetError GridPosition × LayoutOptions) : Prop where
  ok_iff : (∃ p, result.1 = .ok p) ↔
    HasSlot (max opts.gridColumns (sizeInCells size).1).val maxGridRows.val size occupied
  free : ∀ p, result.1 = .ok p → Free size occupied p
  error : ∀ e, result.1 = .error e → result.2 = opts

/-! ### The grids that are tried -/

/-- The grid can grow for the widget. -/
def Growable (opts : LayoutOptions) (size : WidgetSize) : Prop :=
  opts.gridRows.val < 512 ∨
    opts.gridColumns.val < (sizeInCells size).1.val ∧ opts.gridColumns.val < 128

/-- Columns of every grown grid. -/
def grownColumns (opts : LayoutOptions) (size : WidgetSize) : ℕ :=
  min (max opts.gridColumns.val (sizeInCells size).1.val) 128

/-- Rows of the first grown grid: no more than before if it grew wider only. -/
def grownRows (opts : LayoutOptions) (size : WidgetSize) : ℕ :=
  if opts.gridColumns.val < (sizeInCells size).1.val ∧ opts.gridColumns.val < 128 then
    min (max opts.gridRows.val (sizeInCells size).2.val) 512
  else max (opts.gridRows.val + 1) (min (sizeInCells size).2.val 512)

/-- The grid of the options, or one that it grows to. -/
def Tried (opts : LayoutOptions) (size : WidgetSize) (grid : LayoutOptions) : Prop :=
  grid = opts ∨ Growable opts size ∧ grid.mode = opts.mode ∧
    grid.gridColumns.val = grownColumns opts size ∧ grownRows opts size ≤ grid.gridRows.val ∧
    grid.gridRows.val ≤ 512

/-- The search of the mode comes to a free slot of the grid. -/
def Searched (grid : LayoutOptions) (size : WidgetSize) (occupied : List CellRect) : Prop :=
  match grid.mode with
  | .grid => ∃ p, Inside grid size p ∧ Free size occupied p
  | .free => Fits grid size ∧ (Free size occupied (middle grid size) ∨
      grid.gridColumns.val * grid.gridRows.val < 2 ^ 31 ∧
        ∃ p, Inside grid size p ∧ Free size occupied p ∧ OnSpiral grid size p)

variable {opts grid : LayoutOptions} {size : WidgetSize} {occupied : List CellRect} {ws : Uuid}

/-! ### One search -/

lemma placeAround_of_not_fits (h : ¬ Fits grid size) :
    ∃ e, placeAround grid ws size occupied = .error e := by
  have hfalse : fitsInGrid ⟨0, 0⟩ size grid.gridColumns grid.gridRows = false :=
    Bool.eq_false_iff.mpr fun hfit => h ((fitsInGrid_iff grid size).mp hfit)
  rw [placeAround, if_pos hfalse]
  exact ⟨_, rfl⟩

/-- What is found is inside the grid and free. -/
lemma placeAround_sound {p : GridPosition} (h : placeAround grid ws size occupied = .ok p) :
    Inside grid size p ∧ Free size occupied p := by
  by_cases hfits : Fits grid size
  · rw [placeAround, if_neg (by simpa using (fitsInGrid_iff grid size).mpr hfits)] at h
    cases hmode : grid.mode with
    | grid =>
      rw [hmode] at h
      dsimp only at h
      split at h
      · next q hq =>
        obtain rfl := Except.ok.inj h
        exact (gridFirstFit_finds hfits occupied).1 q hq
      · cases h
    | free =>
      rw [hmode] at h
      dsimp only at h
      split at h
      · next q hq =>
        obtain rfl := Except.ok.inj h
        rw [spiralPlace_eq hfits] at hq
        split_ifs at hq with hmiddle
        · obtain rfl := Option.some.inj hq
          exact ⟨inside_middle hfits, (collides_eq_false_iff _ _ _).mp hmiddle⟩
        · cases hw : walk grid size occupied with
          | error r =>
            rw [hw] at hq
            obtain rfl := Option.some.inj hq
            exact ⟨(walk_error hw hfits).1, (walk_error hw hfits).2.1⟩
          | ok r =>
            rw [hw] at hq
            cases hq
      · cases h
  · obtain ⟨e, he⟩ := @placeAround_of_not_fits _ _ occupied ws hfits
    rw [he] at h
    cases h

/-- What the search comes to is there. -/
lemma Searched.exists_free (h : Searched grid size occupied) :
    ∃ p, Inside grid size p ∧ Free size occupied p := by
  unfold Searched at h
  cases hmode : grid.mode with
  | grid =>
    rw [hmode] at h
    exact h
  | free =>
    rw [hmode] at h
    obtain ⟨hfits, hmiddle | ⟨-, p, hp, hfree, -⟩⟩ := h
    · exact ⟨_, inside_middle hfits, hmiddle⟩
    · exact ⟨p, hp, hfree⟩

lemma exists_placeAround_iff :
    (∃ p, placeAround grid ws size occupied = .ok p) ↔ Searched grid size occupied := by
  by_cases hfits : Fits grid size
  · rw [placeAround, if_neg (by simpa using (fitsInGrid_iff grid size).mpr hfits), Searched]
    cases hmode : grid.mode with
    | grid =>
      obtain ⟨hsome, hnone⟩ := gridFirstFit_finds hfits occupied
      dsimp only
      cases hg : gridFirstFit size grid occupied with
      | some p => exact iff_of_true ⟨p, rfl⟩ ⟨p, hsome p hg⟩
      | none =>
        refine iff_of_false (by simp) ?_
        rintro ⟨p, hp, hfree⟩
        exact hnone hg p hp hfree
    | free =>
      dsimp only
      rw [spiralPlace_eq hfits]
      by_cases hmiddle : Free size occupied (middle grid size)
      · rw [if_pos ((collides_eq_false_iff _ _ _).mpr hmiddle)]
        exact iff_of_true ⟨_, rfl⟩ ⟨hfits, .inl hmiddle⟩
      · rw [if_neg fun h => hmiddle ((collides_eq_false_iff _ _ _).mp h)]
        cases hw : walk grid size occupied with
        | error p =>
          refine iff_of_true ⟨p, rfl⟩ ⟨hfits, .inr ⟨?_, p, walk_error hw hfits⟩⟩
          by_contra harea
          rw [walk_of_large harea] at hw
          cases hw
        | ok r =>
          refine iff_of_false (by simp [stoppedAt]) ?_
          rintro ⟨-, h | ⟨harea, p, hin, hfree, hon⟩⟩
          · exact hmiddle h
          · exact walk_ok hw hfits hmiddle harea hin hon hfree
  · obtain ⟨e, he⟩ := @placeAround_of_not_fits _ _ occupied ws hfits
    refine iff_of_false (by simp [he]) fun h => ?_
    obtain ⟨p, hp, -⟩ := h.exists_free
    exact not_inside hfits p hp

/-! ### One growth -/

/-- The widget is wider than the grid, and the grid can be widened. -/
def Wider (opts : LayoutOptions) (size : WidgetSize) : Prop :=
  (sizeInCells size).1 > opts.gridColumns ∧ opts.gridColumns < maxGridCols

/-- The widget is taller than the grid, and the grid can be lengthened. -/
def Taller (opts : LayoutOptions) (size : WidgetSize) : Prop :=
  (sizeInCells size).2 > opts.gridRows ∧ opts.gridRows < maxGridRows

lemma wider_iff : Wider opts size ↔
    opts.gridColumns.val < (sizeInCells size).1.val ∧ opts.gridColumns.val < 128 := Iff.rfl

lemma taller_iff : Taller opts size ↔
    opts.gridRows.val < (sizeInCells size).2.val ∧ opts.gridRows.val < 512 := Iff.rfl

lemma val_min (a b : U16) : (min a b).val = min a.val b.val := by
  rcases le_total a b with h | h
  · rw [min_eq_left h, Nat.min_eq_left (Fin.le_def.mp h)]
  · rw [min_eq_right h, Nat.min_eq_right (Fin.le_def.mp h)]

instance : Decidable (Wider opts size) := inferInstanceAs (Decidable (_ ∧ _))

instance : Decidable (Taller opts size) := inferInstanceAs (Decidable (_ ∧ _))

/-- Rows after the second of the three steps. -/
def tallerRows (opts : LayoutOptions) (size : WidgetSize) : U16 :=
  if Taller opts size then min (sizeInCells size).2 maxGridRows else opts.gridRows

lemma grow_eq : grow size opts =
    if Wider opts size ∨ Taller opts size ∨
        ¬ (Wider opts size ∨ Taller opts size) ∧ tallerRows opts size < maxGridRows then
      some { opts with
        gridColumns := min (if Wider opts size then min (sizeInCells size).1 maxGridCols
          else opts.gridColumns) maxGridCols
        gridRows := min (if ¬ (Wider opts size ∨ Taller opts size) ∧
            tallerRows opts size < maxGridRows then U16.saturatingAdd (tallerRows opts size) 1
          else tallerRows opts size) maxGridRows }
    else none := rfl

lemma val_tallerRows : (tallerRows opts size).val =
    if Taller opts size then min (sizeInCells size).2.val 512 else opts.gridRows.val := by
  rw [tallerRows]
  split_ifs
  · exact val_min _ _
  · rfl

lemma grow_of_not_growable (h : ¬ Growable opts size) : grow size opts = none := by
  have hwider : ¬ Wider opts size := fun hw => h (.inr (wider_iff.mp hw))
  have htaller : ¬ Taller opts size := fun ht => h (.inl (taller_iff.mp ht).2)
  rw [grow_eq, if_neg]
  rintro (hw | ht | ⟨-, hrows⟩)
  · exact hwider hw
  · exact htaller ht
  · rw [tallerRows, if_neg htaller] at hrows
    exact h (.inl hrows)

lemma grow_of_growable (h : Growable opts size) : ∃ grid, grow size opts = some grid ∧
    grid.mode = opts.mode ∧ grid.gridColumns.val = grownColumns opts size ∧
    grid.gridRows.val = grownRows opts size := by
  have hrows := @val_tallerRows opts size
  have hmore : tallerRows opts size < maxGridRows ↔ (tallerRows opts size).val < 512 := Iff.rfl
  have hgrows : Wider opts size ∨ Taller opts size ∨
      ¬ (Wider opts size ∨ Taller opts size) ∧ tallerRows opts size < maxGridRows := by
    by_cases hwider : Wider opts size
    · exact .inl hwider
    · by_cases htaller : Taller opts size
      · exact .inr (.inl htaller)
      · rw [if_neg htaller] at hrows
        refine .inr (.inr ⟨not_or.mpr ⟨hwider, htaller⟩, hmore.mpr ?_⟩)
        rw [hrows]
        exact h.resolve_right fun hw => hwider (wider_iff.mpr hw)
  rw [grow_eq, if_pos hgrows]
  refine ⟨_, rfl, rfl, ?_, ?_⟩
  · show (min (if _ then _ else _) maxGridCols).val = _
    rw [val_min, grownColumns]
    by_cases hwider : Wider opts size
    · have hw := wider_iff.mp hwider
      rw [if_pos hwider, val_min]
      show min (min (sizeInCells size).1.val 128) 128 = _
      omega
    · have hw := mt wider_iff.mpr hwider
      rw [if_neg hwider]
      show min opts.gridColumns.val 128 = _
      omega
  · show (min (if _ then _ else _) maxGridRows).val = _
    rw [val_min, grownRows]
    by_cases hwider : Wider opts size
    · have hw := wider_iff.mp hwider
      rw [if_neg fun hno => hno.1 (.inl hwider), if_pos hw, hrows]
      show min _ 512 = _
      by_cases htaller : Taller opts size
      · have ht := taller_iff.mp htaller
        rw [if_pos htaller]
        omega
      · have ht := mt taller_iff.mpr htaller
        rw [if_neg htaller]
        omega
    · have hw := mt wider_iff.mpr hwider
      rw [if_neg hw]
      by_cases htaller : Taller opts size
      · have ht := taller_iff.mp htaller
        rw [if_neg fun hno => hno.1 (.inr htaller), hrows, if_pos htaller]
        show min _ 512 = _
        omega
      · have ht := mt taller_iff.mpr htaller
        have hshort : opts.gridRows.val < 512 := h.resolve_right hw
        rw [if_neg htaller] at hrows
        rw [if_pos ⟨not_or.mpr ⟨hwider, htaller⟩, hmore.mpr (hrows ▸ hshort)⟩,
          U16.val_saturatingAdd, hrows]
        show min (min (_ + 1) (2 ^ 16 - 1)) 512 = _
        omega

/-! ### The loop -/

/-- A grid that only grows longer. -/
structure Settled (grid : LayoutOptions) (size : WidgetSize) : Prop where
  columns_le : grid.gridColumns.val ≤ 128
  wide : (sizeInCells size).1.val ≤ grid.gridColumns.val ∨ grid.gridColumns.val = 128
  rows_le : grid.gridRows.val ≤ 512
  tall : (sizeInCells size).2.val ≤ grid.gridRows.val ∨ grid.gridRows.val = 512

/-- A grid as wide as `opts` and at least as long. -/
structure Longer (opts grid : LayoutOptions) : Prop where
  mode : grid.mode = opts.mode
  columns : grid.gridColumns.val = opts.gridColumns.val
  rows_ge : opts.gridRows.val ≤ grid.gridRows.val
  rows_le : grid.gridRows.val ≤ 512

lemma settled_of_grow (h : Growable opts size)
    (hcolumns : grid.gridColumns.val = grownColumns opts size)
    (hrows : grid.gridRows.val = grownRows opts size) : Settled grid size := by
  rw [grownColumns] at hcolumns
  rw [grownRows] at hrows
  rw [Growable] at h
  refine ⟨by omega, by omega, ?_, ?_⟩
  all_goals split_ifs at hrows <;> omega

/-- A settled grid grows by one row. -/
lemma Settled.grow (hs : Settled opts size) (hrows : opts.gridRows.val < 512) :
    ∃ grid, grow size opts = some grid ∧ grid.mode = opts.mode ∧
      grid.gridColumns.val = opts.gridColumns.val ∧ grid.gridRows.val = opts.gridRows.val + 1 := by
  obtain ⟨grid, hgrow, hmode, hcolumns, hrows'⟩ := grow_of_growable (.inl hrows)
  have hwide := hs.wide
  have htall := hs.tall
  have hle := hs.columns_le
  refine ⟨grid, hgrow, hmode, ?_, ?_⟩
  · rw [hcolumns, grownColumns]
    omega
  · rw [hrows', grownRows, if_neg (by omega)]
    omega

lemma Settled.not_growable (hs : Settled opts size) (hrows : opts.gridRows.val = 512) :
    ¬ Growable opts size := by
  have hwide := hs.wide
  rw [Growable]
  omega

/-- What the loop returns, with the grids it tried. -/
structure Outcome (ws : Uuid) (size : WidgetSize) (occupied : List CellRect)
    (tried : LayoutOptions → Prop) (result : Except WidgetError GridPosition × LayoutOptions) :
    Prop where
  ok : ∀ p, result.1 = .ok p → ∃ grid, tried grid ∧ placeAround grid ws size occupied = .ok p
  error : ∀ e, result.1 = .error e →
    tried result.2 ∧ ∀ grid, tried grid → ∀ p, placeAround grid ws size occupied ≠ .ok p

section Loop

variable {existing : List PlacedInstance} {ignore : Uuid}

/-- There are fewer rows to add than iterations, so that the cap on them is never met. -/
lemma outcome_settled {n : ℕ} (hs : Settled opts size) (hn : 512 < n + opts.gridRows.val) :
    Outcome ws size (rectsForExcluding existing ws (some ignore)) (Longer opts)
      (growthLoop ws size existing ignore n opts) := by
  have hself : Longer opts opts := ⟨rfl, rfl, le_rfl, hs.rows_le⟩
  induction n generalizing opts with
  | zero =>
    have := hs.rows_le
    omega
  | succ n ih =>
    rw [growthLoop]
    cases hplace : autoPlaceExcluding opts ws size existing ignore with
    | ok p =>
      refine ⟨fun q hq => ⟨opts, hself, ?_⟩, fun e he => by cases he⟩
      rw [← Except.ok.inj hq]
      exact hplace
    | error e =>
      have hhere : ∀ p, placeAround opts ws size
          (rectsForExcluding existing ws (some ignore)) ≠ .ok p := by
        intro p hp
        cases hplace.symm.trans hp
      have hsame : ∀ grid, Longer opts grid → grid.gridRows.val = opts.gridRows.val →
          grid = opts := by
        rintro ⟨mode, columns, rows⟩ hgrid hrows
        obtain rfl : mode = opts.mode := hgrid.mode
        obtain rfl : columns = opts.gridColumns := Fin.ext hgrid.columns
        obtain rfl : rows = opts.gridRows := Fin.ext hrows
        rfl
      dsimp only
      by_cases hrows : opts.gridRows.val < 512
      · obtain ⟨grid, hgrow, hmode, hcolumns, hnext⟩ := hs.grow hrows
        have hsettled : Settled grid size := by
          have hwide := hs.wide
          have htall := hs.tall
          have hle := hs.columns_le
          exact ⟨by omega, by omega, by omega, by omega⟩
        have hlonger : ∀ {g}, Longer grid g → Longer opts g := fun {g} hg =>
          ⟨hg.mode.trans hmode, hg.columns.trans hcolumns, by have := hg.rows_ge; omega, hg.rows_le⟩
        have hrest := ih hsettled (by omega) ⟨rfl, rfl, le_rfl, hsettled.rows_le⟩
        rw [hgrow]
        refine ⟨fun p hp => ?_, fun e' he' => ?_⟩
        · obtain ⟨g, hg, hgp⟩ := hrest.ok p hp
          exact ⟨g, hlonger hg, hgp⟩
        · obtain ⟨hlast, hnone⟩ := hrest.error e' he'
          refine ⟨hlonger hlast, fun g hg => ?_⟩
          by_cases hsamerows : g.gridRows.val = opts.gridRows.val
          · exact hsame g hg hsamerows ▸ hhere
          · have := hg.rows_ge
            exact hnone g ⟨hg.mode.trans hmode.symm, hg.columns.trans hcolumns.symm, by omega,
              hg.rows_le⟩
      · have hmax : opts.gridRows.val = 512 := by
          have := hs.rows_le
          omega
        rw [grow_of_not_growable (hs.not_growable hmax)]
        refine ⟨fun p hp => absurd hp (by simp), fun e' _ => ⟨hself, fun g hg => ?_⟩⟩
        have hge := hg.rows_ge
        have hle := hg.rows_le
        exact hsame g hg (by omega) ▸ hhere

/-- Every grid that is tried is searched before the loop gives up. -/
lemma outcome_growth (opts : LayoutOptions) :
    Outcome ws size (rectsForExcluding existing ws (some ignore)) (Tried opts size)
      (autoPlaceExcludingWithGrowth opts ws size existing ignore) ∧
    ∀ e, (autoPlaceExcludingWithGrowth opts ws size existing ignore).1 = .error e →
      ((autoPlaceExcludingWithGrowth opts ws size existing ignore).2 = opts ↔
        ¬ Growable opts size) := by
  have hloop : autoPlaceExcludingWithGrowth opts ws size existing ignore =
      growthLoop ws size existing ignore (1023 + 1) opts := rfl
  rw [hloop, growthLoop]
  cases hplace : autoPlaceExcluding opts ws size existing ignore with
  | ok p =>
    refine ⟨⟨fun q hq => ⟨opts, .inl rfl, ?_⟩, fun e he => absurd he (by simp)⟩,
      fun e he => absurd he (by simp)⟩
    rw [← Except.ok.inj hq]
    exact hplace
  | error e =>
    have hhere : ∀ p, placeAround opts ws size
        (rectsForExcluding existing ws (some ignore)) ≠ .ok p := by
      intro p hp
      cases hplace.symm.trans hp
    dsimp only
    by_cases hgrowable : Growable opts size
    · obtain ⟨grid, hgrow, hmode, hcolumns, hrows⟩ := grow_of_growable hgrowable
      have hs := settled_of_grow hgrowable hcolumns hrows
      have hrest := @outcome_settled grid size ws existing ignore 1023 hs (by omega)
      have htried : ∀ g, Longer grid g → Tried opts size g := fun g hg =>
        .inr ⟨hgrowable, hg.mode.trans hmode, hg.columns.trans hcolumns, hrows ▸ hg.rows_ge,
          hg.rows_le⟩
      rw [hgrow]
      refine ⟨⟨fun p hp => ?_, fun e' he' => ?_⟩, fun e' he' => ?_⟩
      · obtain ⟨g, hg, hgp⟩ := hrest.ok p hp
        exact ⟨g, htried g hg, hgp⟩
      · obtain ⟨hlast, hnone⟩ := hrest.error e' he'
        refine ⟨htried _ hlast, fun g hg => ?_⟩
        rcases hg with rfl | ⟨-, hgm, hgc, hgr, hgle⟩
        · exact hhere
        · exact hnone g ⟨hgm.trans hmode.symm, hgc.trans hcolumns.symm, hrows ▸ hgr, hgle⟩
      · refine iff_of_false (fun hsame => ?_) (not_not.mpr hgrowable)
        have hlast := (hrest.error e' he').1
        have hlastcolumns := hlast.columns
        have hlastrows := hlast.rows_ge
        dsimp only at hsame
        rw [hsame, hcolumns, grownColumns] at hlastcolumns
        rw [hsame, hrows, grownRows] at hlastrows
        rw [Growable] at hgrowable
        split_ifs at hlastrows <;> omega
    · rw [grow_of_not_growable hgrowable]
      refine ⟨⟨fun p hp => absurd hp (by simp), fun e' _ => ⟨.inl rfl, fun g hg => ?_⟩⟩,
        fun e' _ => iff_of_true rfl hgrowable⟩
      rcases hg with rfl | ⟨hgrown, -⟩
      · exact hhere
      · exact absurd hgrown hgrowable

end Loop

/-! ### When it does what is asked -/

/-- Some grid that is tried has a slot that its search comes to. -/
def Reached (opts : LayoutOptions) (size : WidgetSize) (occupied : List CellRect) : Prop :=
  ∃ grid, Tried opts size grid ∧ Searched grid size occupied

/-- A slot is reached and there is one within the limits, or the grid cannot grow and there is
neither. -/
def GrowthFinds (opts : LayoutOptions) (size : WidgetSize) (occupied : List CellRect) : Prop :=
  (Reached opts size occupied ∧
    HasSlot (max opts.gridColumns (sizeInCells size).1).val maxGridRows.val size occupied) ∨
  (¬ Growable opts size ∧ ¬ Reached opts size occupied ∧
    ¬ HasSlot (max opts.gridColumns (sizeInCells size).1).val maxGridRows.val size occupied)

lemma growsRight_iff {result : Except WidgetError GridPosition × LayoutOptions}
    (hresult : Outcome ws size occupied (Tried opts size) result)
    (hoptions : ∀ e, result.1 = .error e → (result.2 = opts ↔ ¬ Growable opts size)) :
    GrowsRight opts size occupied result ↔ GrowthFinds opts size occupied := by
  obtain ⟨res, last⟩ := result
  cases res with
  | ok p =>
    obtain ⟨grid, htried, hp⟩ := hresult.ok p rfl
    have hreached : Reached opts size occupied :=
      ⟨grid, htried, (exists_placeAround_iff).mp ⟨p, hp⟩⟩
    constructor
    · exact fun h => .inl ⟨hreached, h.ok_iff.mp ⟨p, rfl⟩⟩
    · rintro (⟨-, hslot⟩ | ⟨-, hno, -⟩)
      · refine ⟨iff_of_true ⟨p, rfl⟩ hslot, fun q hq => ?_, fun e he => absurd he (by simp)⟩
        rw [← Except.ok.inj hq]
        exact (placeAround_sound hp).2
      · exact absurd hreached hno
  | error e =>
    have hnone : ¬ Reached opts size occupied := by
      rintro ⟨grid, htried, hsearched⟩
      obtain ⟨p, hp⟩ := (@exists_placeAround_iff grid size occupied ws).mpr hsearched
      exact (hresult.error e rfl).2 grid htried p hp
    have hno : ¬ ∃ p, (Except.error e : Except WidgetError GridPosition) = .ok p := by simp
    constructor
    · exact fun h => .inr ⟨(hoptions e rfl).mp (h.error e rfl), hnone, mt h.ok_iff.mpr hno⟩
    · rintro (⟨hreached, -⟩ | ⟨hgrowable, -, hslot⟩)
      · exact absurd hreached hnone
      · exact ⟨iff_of_false hno hslot, fun q hq => absurd hq (by simp),
          fun _ _ => (hoptions e rfl).mpr hgrowable⟩

/-- In grid mode a slot is reached exactly if the grid has one, or can grow and has one when it has
grown to the limits. -/
lemma reached_grid_iff (hmode : opts.mode = .grid) :
    Reached opts size occupied ↔
      HasSlot opts.gridColumns.val opts.gridRows.val size occupied ∨
        Growable opts size ∧ HasSlot (grownColumns opts size) 512 size occupied := by
  have hsearched : ∀ grid : LayoutOptions, grid.mode = .grid →
      (Searched grid size occupied ↔
        HasSlot grid.gridColumns.val grid.gridRows.val size occupied) := by
    intro grid hgrid
    rw [Searched, hgrid]
    simp only [Inside, HasSlot, and_assoc]
  constructor
  · rintro ⟨grid, rfl | ⟨hgrowable, hgm, hgc, -, hgle⟩, hs⟩
    · exact .inl ((hsearched grid hmode).mp hs)
    · obtain ⟨p, hcol, hrow, hfree⟩ := (hsearched grid (hgm.trans hmode)).mp hs
      exact .inr ⟨hgrowable, p, hgc ▸ hcol, hrow.trans hgle, hfree⟩
  · rintro (hslot | ⟨hgrowable, hslot⟩)
    · exact ⟨opts, .inl rfl, (hsearched opts hmode).mpr hslot⟩
    · have hcolumns : grownColumns opts size < 2 ^ 16 := by
        rw [grownColumns]
        omega
      have hrows : grownRows opts size ≤ 512 := by
        rw [Growable] at hgrowable
        rw [grownRows]
        split_ifs <;> omega
      exact ⟨⟨opts.mode, ⟨_, hcolumns⟩, 512⟩, .inr ⟨hgrowable, rfl, rfl, hrows, le_rfl⟩,
        (hsearched ⟨opts.mode, ⟨_, hcolumns⟩, 512⟩ hmode).mpr hslot⟩

/-- Placing with growth does what is asked of it exactly under `GrowthFinds`. -/
theorem place_with_growth_iff (opts : LayoutOptions) (ws : Uuid) (size : WidgetSize)
    (existing : List PlacedInstance) (ignore : Uuid) :
    GrowsRight opts size (rectsForExcluding existing ws (some ignore))
        (autoPlaceExcludingWithGrowth opts ws size existing ignore) ↔
      GrowthFinds opts size (rectsForExcluding existing ws (some ignore)) := by
  obtain ⟨hresult, hoptions⟩ := @outcome_growth size ws existing ignore opts
  exact growsRight_iff hresult hoptions

/-- A widget over all rows that the grid can have. -/
def fullHeight : PlacedInstance := ⟨1, 0, ⟨0, 0⟩, .free 16 512⟩

/-- A full workspace keeps the rows that were added in vain. -/
theorem not_place_with_growth : ¬ ∀ (opts : LayoutOptions) (ws : Uuid) (size : WidgetSize)
    (existing : List PlacedInstance) (ignore : Uuid),
    GrowsRight opts size (rectsForExcluding existing ws (some ignore))
      (autoPlaceExcludingWithGrowth opts ws size existing ignore) := by
  intro h
  obtain ⟨hresult, hoptions⟩ := @outcome_growth .small 0 [fullHeight] 2 ⟨.grid, 16, 10⟩
  have hgrowable : Growable ⟨.grid, 16, 10⟩ .small := .inl (by decide)
  rcases (growsRight_iff hresult hoptions).mp (h ⟨.grid, 16, 10⟩ 0 .small [fullHeight] 2) with
    ⟨-, p, hcol, hrow, hfree⟩ | ⟨hno, -⟩
  · have hmiss := hfree ⟨0, 0, 16, 512⟩ List.mem_cons_self
    have hw : p.col.val + 2 ≤ 16 := hcol
    have hh : p.row.val + 2 ≤ 512 := hrow
    simp only [overlaps, CellRect.fromWidget, sizeInCells, Bool.and_eq_false_iff,
      decide_eq_false_iff_not, Fin.lt_def, U16.val_saturatingAdd] at hmiss
    have hmiss : ((¬ p.col.val < 16 ∨ ¬ 0 < min (p.col.val + 2) (2 ^ 16 - 1)) ∨
        ¬ p.row.val < 512) ∨ ¬ 0 < min (p.row.val + 2) (2 ^ 16 - 1) := hmiss
    omega
  · exact hno hgrowable

end Orchid.Widgets
