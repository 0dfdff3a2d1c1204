import Orchid.Widgets.Manager

/-!
# Floating windows

The operations on the placement of a floating widget. Its remembered bounds are those that it goes
back to: bounds that are set while it is minimized are not remembered, and bounds that are set
while it is maximized end that state.
-/

namespace Orchid.Widgets

deriving instance DecidableEq for PixelRect, WindowState, WindowPlacement

/-! ### Operations -/

namespace WindowPlacement

/-- `WindowPlacement::floating_normal`, the placement of `undock_to_floating` -/
def floatingNormal (bounds : PixelRect) : WindowPlacement := .floating bounds bounds .normal

/-- `set_floating_bounds` -/
def setFloatingBounds (rect : PixelRect) : WindowPlacement → Except WidgetError WindowPlacement
  | .floating _ restoredBounds state =>
    match state with
    | .normal => .ok (.floating rect rect .normal)
    -- leaving maximized by a resize or a drag
    | .maximized => .ok (.floating rect rect .normal)
    | .minimized => .ok (.floating rect restoredBounds .minimized)
  | .grid => .error (.invalidStateForOperation "widget is not floating".toList)

/-- `minimize_window` -/
def minimizeWindow : WindowPlacement → Except WidgetError WindowPlacement
  | .floating bounds restoredBounds _ => .ok (.floating bounds restoredBounds .minimized)
  | .grid => .error (.invalidStateForOperation "cannot minimize a grid widget".toList)

/-- `maximize_window` -/
def maximizeWindow (maxRect : PixelRect) : WindowPlacement → Except WidgetError WindowPlacement
  | .floating bounds restoredBounds state =>
    .ok (.floating maxRect (if state = .normal then bounds else restoredBounds) .maximized)
  | .grid => .error (.invalidStateForOperation "cannot maximize a grid widget".toList)

/-- `restore_window` -/
def restoreWindow : WindowPlacement → Except WidgetError WindowPlacement
  | .floating _ restoredBounds _ => .ok (.floating restoredBounds restoredBounds .normal)
  | .grid => .error (.invalidStateForOperation "cannot restore a grid widget".toList)

/-- `window_state` -/
def windowState : WindowPlacement → Option WindowState
  | .floating _ _ state => some state
  | .grid => none

/-- `toggle_maximize_window` -/
def toggleMaximizeWindow (maxRect : PixelRect) (placement : WindowPlacement) :
    Except WidgetError WindowPlacement :=
  match placement.windowState with
  | some .maximized => placement.restoreWindow
  | some .normal | some .minimized => placement.maximizeWindow maxRect
  | none =>
    .error (.invalidStateForOperation "cannot toggle maximize on a grid widget".toList)

end WindowPlacement

/-- An operation on a floating widget. -/
inductive WindowOp
  | setFloatingBounds (rect : PixelRect)
  | minimizeWindow
  | maximizeWindow (maxRect : PixelRect)
  | restoreWindow
  | toggleMaximizeWindow (maxRect : PixelRect)

namespace WindowOp

def run (placement : WindowPlacement) : WindowOp → Except WidgetError WindowPlacement
  | setFloatingBounds rect => placement.setFloatingBounds rect
  | minimizeWindow => placement.minimizeWindow
  | maximizeWindow maxRect => placement.maximizeWindow maxRect
  | restoreWindow => placement.restoreWindow
  | toggleMaximizeWindow maxRect => placement.toggleMaximizeWindow maxRect

/-- The placement after the operation; a failed one leaves it. -/
def next (placement : WindowPlacement) (op : WindowOp) : WindowPlacement :=
  match op.run placement with
  | .ok placement => placement
  | .error _ => placement

/-! ### Bounds that count -/

/-- The bounds that the operation sets, if it sets any in one of the states. -/
def boundsSetIn (states : List WindowState) (placement : WindowPlacement) :
    WindowOp → Option PixelRect
  | setFloatingBounds rect =>
    match placement.windowState with
    | some state => if state ∈ states then some rect else none
    | none => none
  | _ => none

/-- The last bounds that were set in one of the states, or the first bounds. -/
def lastBounds (states : List WindowState) :
    PixelRect → WindowPlacement → List WindowOp → PixelRect
  | last, _, [] => last
  | last, placement, op :: ops =>
    lastBounds states ((op.boundsSetIn states placement).getD last) (op.next placement) ops

end WindowOp

/-! ### The remembered bounds -/

/-- A floating placement that goes back to `last`, and is there while it is normal. -/
def GoesBackTo (last : PixelRect) (placement : WindowPlacement) : Prop :=
  ∃ bounds state, placement = .floating bounds last state ∧ (state = .normal → bounds = last)

lemma goesBackTo_floatingNormal (bounds : PixelRect) :
    GoesBackTo bounds (.floatingNormal bounds) := ⟨bounds, .normal, rfl, fun _ => rfl⟩

lemma GoesBackTo.restoreWindow {last : PixelRect} {placement : WindowPlacement}
    (h : GoesBackTo last placement) : placement.restoreWindow = .ok (.floatingNormal last) := by
  obtain ⟨bounds, state, rfl, -⟩ := h
  rfl

/-- The remembered bounds change when a window that is not minimized is moved. -/
lemma GoesBackTo.next {last : PixelRect} {placement : WindowPlacement}
    (h : GoesBackTo last placement) (op : WindowOp) :
    GoesBackTo ((op.boundsSetIn [.normal, .maximized] placement).getD last)
      (op.next placement) := by
  obtain ⟨bounds, state, rfl, hnormal⟩ := h
  have hmaximize : ∀ maxRect, (if state = .normal then bounds else last) = last ∧
      GoesBackTo last (.floating maxRect last .maximized) := fun maxRect =>
    ⟨ite_eq_right_iff.mpr hnormal, maxRect, .maximized, rfl, fun h => by cases h⟩
  cases op with
  | setFloatingBounds rect =>
    cases state with
    | normal => exact goesBackTo_floatingNormal rect
    | maximized => exact goesBackTo_floatingNormal rect
    | minimized => exact ⟨rect, .minimized, rfl, fun h => by cases h⟩
  | minimizeWindow => exact ⟨bounds, .minimized, rfl, fun h => by cases h⟩
  | maximizeWindow maxRect =>
    show GoesBackTo last (.floating maxRect (if state = .normal then bounds else last) .maximized)
    rw [(hmaximize maxRect).1]
    exact (hmaximize maxRect).2
  | restoreWindow => exact goesBackTo_floatingNormal last
  | toggleMaximizeWindow maxRect =>
    cases state with
    | maximized => exact goesBackTo_floatingNormal last
    | normal =>
      obtain rfl := hnormal rfl
      exact (hmaximize maxRect).2
    | minimized => exact (hmaximize maxRect).2

lemma goesBackTo_lastBounds {last : PixelRect} {placement : WindowPlacement}
    (h : GoesBackTo last placement) (ops : List WindowOp) :
    GoesBackTo (WindowOp.lastBounds [.normal, .maximized] last placement ops)
      (ops.foldl WindowOp.next placement) := by
  induction ops generalizing last placement with
  | nil => exact h
  | cons op ops ih => exact ih (h.next op)

/-- After any operations on a widget undocked at `first`, `restore_window` puts it back to the last
bounds that were set while it was normal or maximized. -/
theorem restore_puts_back (first : PixelRect) (ops : List WindowOp) :
    (ops.foldl WindowOp.next (.floatingNormal first)).restoreWindow =
      .ok (.floatingNormal
        (WindowOp.lastBounds [.normal, .maximized] first (.floatingNormal first) ops)) :=
  (goesBackTo_lastBounds (goesBackTo_floatingNormal first) ops).restoreWindow

/-- A maximized window that is moved goes back to where it was moved. -/
theorem not_restore_puts_back : ¬ ∀ (first : PixelRect) (ops : List WindowOp),
    (ops.foldl WindowOp.next (.floatingNormal first)).restoreWindow =
      .ok (.floatingNormal (WindowOp.lastBounds [.normal] first (.floatingNormal first) ops)) := by
  intro h
  have hmoved := h ⟨0, 0, 1, 1⟩ [.maximizeWindow ⟨0, 0, 9, 9⟩, .setFloatingBounds ⟨2, 2, 1, 1⟩]
  revert hmoved
  decide

end Orchid.Widgets
