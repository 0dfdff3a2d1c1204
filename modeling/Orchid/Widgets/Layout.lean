import Mathlib.Data.Int.Order.Basic
import Mathlib.Order.Fin.Basic
import Orchid.Widgets.Types

/-!
# Placing widgets on the grid

Automatic placement, `layout/mod.rs` with its helpers `layout/grid.rs`, `layout/collision.rs` and
`layout/free.rs`. The `i32` arithmetic of the spiral wraps around.
-/

namespace Orchid.Widgets

/-- `LayoutMode` -/
inductive LayoutMode
  | grid
  | free
  deriving DecidableEq

/-- `LayoutOptions`, as far as placement reads them. -/
structure LayoutOptions where
  mode : LayoutMode
  gridColumns : U16
  gridRows : U16

/-- What placement reads of a widget instance. -/
structure PlacedInstance where
  id : Uuid
  workspaceId : Uuid
  position : GridPosition
  size : WidgetSize

/-! ### Cells -/

/-- `size_in_cells` -/
def sizeInCells : WidgetSize → U16 × U16
  | .small => (2, 2)
  | .medium => (4, 2)
  | .large => (4, 4)
  | .extraLarge => (8, 4)
  | .free w h => (max w 1, max h 1)

/-- `fits_in_grid` -/
def fitsInGrid (position : GridPosition) (size : WidgetSize) (cols rows : U16) : Bool :=
  let (w, h) := sizeInCells size
  let lastCol := U16.saturatingAdd position.col w
  let lastRow := U16.saturatingAdd position.row h
  decide (lastCol ≤ cols) && decide (lastRow ≤ rows)

/-- `CellRect` -/
structure CellRect where
  left : U16
  top : U16
  right : U16
  bottom : U16

/-- `CellRect::from_widget` -/
def CellRect.fromWidget (position : GridPosition) (size : WidgetSize) : CellRect :=
  let (w, h) := sizeInCells size
  ⟨position.col, position.row, U16.saturatingAdd position.col w, U16.saturatingAdd position.row h⟩

/-- `overlaps` -/
def overlaps (a b : CellRect) : Bool :=
  decide (a.left < b.right) && decide (b.left < a.right) && decide (a.top < b.bottom) &&
    decide (b.top < a.bottom)

/-- `collides` -/
def collides (position : GridPosition) (size : WidgetSize) (occupied : List CellRect) : Bool :=
  occupied.any fun r => overlaps (CellRect.fromWidget position size) r

/-! ### The two searches -/

/-- `grid_first_fit` -/
def gridFirstFit (size : WidgetSize) (opts : LayoutOptions) (occupied : List CellRect) :
    Option GridPosition :=
  let (w, h) := sizeInCells size
  (List.range ((U16.saturatingSub opts.gridRows h).val + 1)).findSome? fun row =>
    (List.range ((U16.saturatingSub opts.gridColumns w).val + 1)).findSome? fun col =>
      let pos : GridPosition := ⟨asU16 col, asU16 row⟩
      if collides pos size occupied then none else some pos

/-- Arithmetic on `i32`. -/
@[irreducible] def i32 (x : ℤ) : ℤ := x.bmod (2 ^ 32)

/-- The candidate at a place of the spiral, if it is in range and does not collide. -/
def candidateAt (size : WidgetSize) (maxCol maxRow : U16) (occupied : List CellRect)
    (place : ℤ × ℤ) : Option GridPosition :=
  if place.1 < 0 ∨ place.2 < 0 ∨ (maxCol.val : ℤ) < place.1 ∨ (maxRow.val : ℤ) < place.2 then none
  else
    let candidate : GridPosition := ⟨asU16 place.1.toNat, asU16 place.2.toNat⟩
    if collides candidate size occupied then none else some candidate

/-- The stride of the spiral. -/
def stride : ℤ := 2

/-- A leg of the spiral: so many steps in one direction, up to the first candidate. -/
def spiralLeg (candidate : ℤ × ℤ → Option GridPosition) (dir : ℤ × ℤ) :
    ℕ → ℤ × ℤ → Except GridPosition (ℤ × ℤ)
  | 0, place => .ok place
  | n + 1, place =>
    let place := (i32 (place.1 + dir.1 * stride), i32 (place.2 + dir.2 * stride))
    match candidate place with
    | some found => .error found
    | none => spiralLeg candidate dir n place

/-- The four legs of a round, with the length of the legs. -/
def spiralRound (candidate : ℤ × ℤ → Option GridPosition) (leg : ℤ) (place : ℤ × ℤ) :
    Except GridPosition (ℤ × (ℤ × ℤ)) := do
  let place ← spiralLeg candidate (1, 0) leg.toNat place
  let place ← spiralLeg candidate (0, 1) leg.toNat place
  let leg := i32 (leg + 1)
  let place ← spiralLeg candidate (-1, 0) leg.toNat place
  let place ← spiralLeg candidate (0, -1) leg.toNat place
  return (i32 (leg + 1), place)

/-- The rounds of the spiral. -/
def spiralRounds (candidate : ℤ × ℤ → Option GridPosition) :
    ℕ → ℤ → ℤ × ℤ → Except GridPosition (ℤ × (ℤ × ℤ))
  | 0, leg, place => .ok (leg, place)
  | n + 1, leg, place => do
    let (leg, place) ← spiralRound candidate leg place
    spiralRounds candidate n leg place

/-- The position a search stopped at, if it did. -/
def stoppedAt {α : Type} : Except GridPosition α → Option GridPosition
  | .error found => some found
  | .ok _ => none

/-- The middle of the positions the widget can take. -/
def center (size : WidgetSize) (cols rows : U16) : GridPosition :=
  let (w, h) := sizeInCells size
  ⟨asU16 ((U16.saturatingSub cols w).val / 2), asU16 ((U16.saturatingSub rows h).val / 2)⟩

/-- `spiral_place` -/
def spiralPlace (size : WidgetSize) (cols rows : U16) (occupied : List CellRect) :
    Option GridPosition :=
  if fitsInGrid ⟨0, 0⟩ size cols rows = false then none
  else
    let (w, h) := sizeInCells size
    let maxCol := U16.saturatingSub cols w
    let maxRow := U16.saturatingSub rows h
    let start := center size cols rows
    if collides start size occupied = false then some start
    else
      stoppedAt (spiralRounds (candidateAt size maxCol maxRow occupied)
        (i32 (cols.val * rows.val)).toNat 1 (start.col.val, start.row.val))

/-! ### Automatic placement -/

/-- `{:?}` of a size. -/
def WidgetSize.debug : WidgetSize → Text
  | .small => "Small".toList
  | .medium => "Medium".toList
  | .large => "Large".toList
  | .extraLarge => "ExtraLarge".toList
  | .free w h => "Free \x7b w: ".toList ++ (toString w.val).toList ++ ", h: ".toList ++
      (toString h.val).toList ++ " \x7d".toList

/-- The lower-case hexadecimal digits of an identifier, with its four hyphens. -/
def Uuid.display (id : Uuid) : Text :=
  (List.range 32).flatMap fun i =>
    let digit := Nat.digitChar (id.val / 16 ^ (31 - i) % 16)
    if i = 8 ∨ i = 12 ∨ i = 16 ∨ i = 20 then ['-', digit] else [digit]

/-- `rects_for_excluding` -/
def rectsForExcluding (instances : List PlacedInstance) (workspaceId : Uuid)
    (ignore : Option Uuid) : List CellRect :=
  (instances.filter fun i =>
      decide (i.workspaceId = workspaceId) && ignore.all fun e => decide (i.id ≠ e)).map
    fun i => CellRect.fromWidget i.position i.size

/-- `rects_for` -/
def rectsFor (instances : List PlacedInstance) (workspaceId : Uuid) : List CellRect :=
  rectsForExcluding instances workspaceId none

/-- The part `auto_place` and `auto_place_excluding` share, after the occupied rectangles. -/
def placeAround (opts : LayoutOptions) (workspaceId : Uuid) (size : WidgetSize)
    (occupied : List CellRect) : Except WidgetError GridPosition :=
  if fitsInGrid ⟨0, 0⟩ size opts.gridColumns opts.gridRows = false then
    .error (.layout ("widget of size ".toList ++ size.debug ++ " does not fit in ".toList ++
      (toString opts.gridColumns.val).toList ++ "x".toList ++
      (toString opts.gridRows.val).toList ++ " grid".toList))
  else
    match opts.mode with
    | .grid =>
      match gridFirstFit size opts occupied with
      | some position => .ok position
      | none =>
        .error (.layout ("no free slot on workspace ".toList ++ Uuid.display workspaceId ++
          " for size ".toList ++ size.debug))
    | .free =>
      match spiralPlace size opts.gridColumns opts.gridRows occupied with
      | some position => .ok position
      | none =>
        .error (.layout ("free-layout spiral placement failed for size ".toList ++ size.debug))

/-- `auto_place` -/
def autoPlace (opts : LayoutOptions) (workspaceId : Uuid) (size : WidgetSize)
    (existing : List PlacedInstance) : Except WidgetError GridPosition :=
  placeAround opts workspaceId size (rectsFor existing workspaceId)

/-- `auto_place_excluding` -/
def autoPlaceExcluding (opts : LayoutOptions) (workspaceId : Uuid) (size : WidgetSize)
    (existing : List PlacedInstance) (ignoreInstance : Uuid) : Except WidgetError GridPosition :=
  placeAround opts workspaceId size
    (rectsForExcluding existing workspaceId (some ignoreInstance))

end Orchid.Widgets
