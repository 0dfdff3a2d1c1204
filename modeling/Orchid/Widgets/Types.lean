import Orchid.Base.Machine

/-!
# Data shared by the widget subsystem

Identifiers, cells of the grid and the errors of the widget crate.
-/

namespace Orchid.Widgets

/-- `as u16` -/
def asU16 (n : ℕ) : U16 := ⟨n % 2 ^ 16, Nat.mod_lt n (by decide)⟩

/-- `GridPosition` -/
structure GridPosition where
  col : U16
  row : U16
  deriving DecidableEq

/-- `WidgetSize` -/
inductive WidgetSize
  | small
  | medium
  | large
  | extraLarge
  | free (w h : U16)
  deriving DecidableEq

/-- `LifecycleState` -/
inductive LifecycleState
  | active
  | sleeping
  | unloaded
  deriving DecidableEq

/-- `StorageError`, by its text. -/
structure StorageError where
  text : Text
  deriving DecidableEq

/-- `WidgetError`, as far as groups, the layout and the manager raise it. -/
inductive WidgetError
  | instanceNotFound (id : Uuid)
  | groupNotFound (id : Uuid)
  | widgetNotInGroup
  | groupMoveError (text : Text)
  | unknownWidgetType (typeId : Text)
  | invalidSize (reason : Text)
  | creationFailed (text : Text)
  | invalidStateForOperation (text : Text)
  | layout (text : Text)
  | storage (e : StorageError)
  deriving DecidableEq

/-- How a storage transaction ended. -/
abbrev Transaction := Except StorageError Unit

end Orchid.Widgets
