import Orchid.Base.Machine

/-!
# Gestures

`GestureRecognizer` of `orchid-core/src/input/gesture.rs`. An instant is a number of nanoseconds.
The pointers stand in the order in which they came down, where the program leaves their order open.
-/

namespace Orchid.Input

/-- Identifiers of pointers are compared as they are. -/
scoped instance lawfulBEqU32 : LawfulBEq U32 := inferInstance

/-! ### Events -/

structure Point where
  x : Float32
  y : Float32

def Point.distanceTo (p q : Point) : Float32 :=
  let dx := p.x - q.x
  let dy := p.y - q.y
  (dx * dx + dy * dy).sqrt

inductive TouchPhase
  | began
  | moved
  | ended
  | cancelled
  deriving DecidableEq

structure TouchEvent where
  pointerId : U32
  phase : TouchPhase
  position : Point
  timestamp : ℕ

/-- `InputEvent`; the mouse and the keyboard are handled elsewhere. -/
inductive InputEvent
  | touch (t : TouchEvent)
  | pen (phase : TouchPhase) (position : Point) (timestamp : ℕ)
  | other

/-- The touch that an event is; a pen is a pointer with an identifier of its own. -/
def InputEvent.asTouch : InputEvent → Option TouchEvent
  | .touch t => some t
  | .pen phase position timestamp =>
    some { pointerId := ⟨2 ^ 32 - 1, by decide⟩, phase, position, timestamp }
  | .other => none

/-! ### Gestures -/

inductive SwipeDirection
  | up
  | down
  | left
  | right

inductive Edge
  | top
  | bottom
  | left
  | right

inductive RecognizedGesture
  | tap (position : Point) (pointerCount : U8)
  | doubleTap (position : Point)
  | longPress (position : Point) (durationMs : U32)
  | swipe (src dst : Point) (direction : SwipeDirection) (velocity : Float32) (pointerCount : U8)
  | edgeSwipe (edge : Edge) (distance : Float32) (pointerCount : U8)
  | pinch (center : Point) (scale : Float32)
  | rotate (center : Point) (radians : Float32)
  | pan (src dst : Point) (pointerCount : U8)

/-! ### The state -/

structure GestureConfig where
  longPressMs : U32 := 500
  doubleTapWindowMs : U32 := 300
  swipeMinDistancePx : Float32 := 40.0
  swipeMinVelocity : Float32 := 0.5
  edgeThresholdPx : Float32 := 24.0
  pinchMinScaleDelta : Float32 := 0.05
  rotateMinRadians : Float32 := 0.1

structure ScreenBounds where
  width : Float32
  height : Float32

def tapMaxMovementPx : Float32 := 8.0

def tapMaxDurationMs : ℕ := 250

structure PointerState where
  beganAt : ℕ
  beganPosition : Point
  lastPosition : Point
  longPressEmitted : Bool
  /-- the number of the event that it began with, which the program does not keep -/
  contact : ℕ

structure PairBaseline where
  initialDistance : Float32
  initialAngle : Float32
  /-- the contacts it was taken from and the number of the event, which the program does not keep -/
  contacts : List ℕ
  captured : ℕ

structure GestureRecognizer where
  config : GestureConfig
  bounds : ScreenBounds
  pointers : List (U32 × PointerState) := []
  lastTap : Option (ℕ × Point) := none
  pairBaseline : Option PairBaseline := none
  /-- how many events there were, which the program does not count -/
  events : ℕ := 0

/-- A gesture, and the contact that made it, which the program does not return. -/
abbrev Made := ℕ × RecognizedGesture

/-- `Duration::from_millis` -/
def fromMillis (ms : U32) : ℕ := ms.val * 10 ^ 6

/-- `duration.as_millis() as u32` -/
def asMillis (duration : ℕ) : ℕ := duration / 10 ^ 6 % 2 ^ 32

/-- `HashMap::insert` -/
def insertPointer {β : Type} (id : U32) (state : β) (pointers : List (U32 × β)) :
    List (U32 × β) :=
  if id ∈ pointers.map Prod.fst then pointers.map fun p => if p.1 = id then (id, state) else p
  else pointers ++ [(id, state)]

/-! ### Helpers -/

def edgeNear (p : Point) (bounds : ScreenBounds) (threshold : Float32) : Option Edge :=
  if p.x ≤ threshold then some .left
  else if bounds.width - threshold ≤ p.x then some .right
  else if p.y ≤ threshold then some .top
  else if bounds.height - threshold ≤ p.y then some .bottom
  else none

/-- `f32::max` with zero -/
def nonNegative (x : Float32) : Float32 := if 0.0 < x then x else 0.0

def inwardDistance (src dst : Point) : Edge → Float32
  | .left => nonNegative (dst.x - src.x)
  | .right => nonNegative (src.x - dst.x)
  | .top => nonNegative (dst.y - src.y)
  | .bottom => nonNegative (src.y - dst.y)

def primaryDirection (src dst : Point) : SwipeDirection :=
  let dx := dst.x - src.x
  let dy := dst.y - src.y
  if dy.abs ≤ dx.abs then (if 0.0 ≤ dx then .right else .left)
  else if 0.0 ≤ dy then .down
  else .up

/-- The centre of two points. -/
def center (p q : Point) : Point := ⟨(p.x + q.x) * 0.5, (p.y + q.y) * 0.5⟩

namespace GestureRecognizer

/-- `current_pair_baseline`, of two pointers. -/
def currentPairBaseline (g : GestureRecognizer) : Option PairBaseline :=
  match g.pointers.map Prod.snd with
  | p :: q :: _ =>
    some {
      initialDistance := p.lastPosition.distanceTo q.lastPosition
      initialAngle := (q.lastPosition.y - p.lastPosition.y).atan2
        (q.lastPosition.x - p.lastPosition.x)
      contacts := g.pointers.map fun p => p.2.contact
      captured := g.events }
  | _ => none

/-- `detect_pinch_rotate` -/
def detectPinchRotate (g : GestureRecognizer) (baseline : PairBaseline) :
    Option RecognizedGesture :=
  match g.pointers.map fun p => p.2.lastPosition with
  | [p, q] =>
    let distance := p.distanceTo q
    let scale :=
      if baseline.initialDistance ≤ 1.1920929e-7 then 1.0 else distance / baseline.initialDistance
    if g.config.pinchMinScaleDelta ≤ (scale - 1.0).abs then some (.pinch (center p q) scale)
    else
      let delta := (q.y - p.y).atan2 (q.x - p.x) - baseline.initialAngle
      if g.config.rotateMinRadians ≤ delta.abs then some (.rotate (center p q) delta)
      else none
  | _ => none

/-- `finish_pointer`: the last tap there was and the gesture that was made. -/
def finishPointer (g : GestureRecognizer) (state : PointerState) (ended : TouchEvent) :
    Option (ℕ × Point) × List RecognizedGesture :=
  let durationMs := asMillis (ended.timestamp - state.beganAt)
  let distance := state.beganPosition.distanceTo ended.position
  let pointerCount : U8 := Fin.ofNat (2 ^ 8) (g.pointers.length + 1)
  if distance ≤ tapMaxMovementPx ∧ durationMs ≤ tapMaxDurationMs ∧ !state.longPressEmitted then
    let isDouble := g.lastTap.any fun last =>
      ended.timestamp - last.1 ≤ fromMillis g.config.doubleTapWindowMs ∧
        last.2.distanceTo ended.position ≤ tapMaxMovementPx * 2.0
    if isDouble then (none, [.doubleTap ended.position])
    else (some (ended.timestamp, ended.position), [.tap ended.position pointerCount])
  else
    let velocity := if durationMs = 0 then 0.0 else distance / Float32.ofNat durationMs
    let edgeSwipe := (edgeNear state.beganPosition g.bounds g.config.edgeThresholdPx).filter
      fun edge =>
        g.config.edgeThresholdPx ≤ inwardDistance state.beganPosition ended.position edge ∧
          g.config.swipeMinDistancePx ≤ distance
    match edgeSwipe with
    | some edge => (g.lastTap, [.edgeSwipe edge distance pointerCount])
    | none =>
      if g.config.swipeMinDistancePx ≤ distance ∧ g.config.swipeMinVelocity ≤ velocity then
        (g.lastTap, [.swipe state.beganPosition ended.position
          (primaryDirection state.beganPosition ended.position) velocity pointerCount])
      else if tapMaxMovementPx < distance then
        (g.lastTap, [.pan state.beganPosition ended.position pointerCount])
      else (g.lastTap, [])

/-- A pointer comes down. -/
def feedBegan (g : GestureRecognizer) (t : TouchEvent) : GestureRecognizer :=
  let g := { g with
    pointers := insertPointer t.pointerId
      { beganAt := t.timestamp, beganPosition := t.position, lastPosition := t.position
        longPressEmitted := false, contact := g.events } g.pointers }
  if g.pointers.length = 2 then { g with pairBaseline := g.currentPairBaseline } else g

/-- A pointer moves. -/
def feedMoved (g : GestureRecognizer) (t : TouchEvent) : GestureRecognizer × List Made :=
  let g := { g with
    pointers := g.pointers.map fun p =>
      if p.1 = t.pointerId then (p.1, { p.2 with lastPosition := t.position }) else p }
  if g.pointers.length = 2 then
    (g, ((g.pairBaseline.bind g.detectPinchRotate).map fun gesture => (g.events, gesture)).toList)
  else (g, [])

/-- A pointer is taken away, which may finish a gesture. -/
def feedLifted (g : GestureRecognizer) (t : TouchEvent) : GestureRecognizer × List Made :=
  let (g, out) :=
    match g.pointers.find? fun p => p.1 = t.pointerId with
    | none => (g, [])
    | some (_, state) =>
      let g := { g with pointers := g.pointers.filter fun p => p.1 ≠ t.pointerId }
      if t.phase = TouchPhase.ended then
        let (lastTap, gestures) := g.finishPointer state t
        ({ g with lastTap }, gestures.map fun gesture => (state.contact, gesture))
      else (g, [])
  (if g.pointers.length ≠ 2 then { g with pairBaseline := none } else g, out)

/-- `feed_touch` -/
def feedTouch (g : GestureRecognizer) (t : TouchEvent) : GestureRecognizer × List Made :=
  match t.phase with
  | .began => (g.feedBegan t, [])
  | .moved => g.feedMoved t
  | .ended | .cancelled => g.feedLifted t

/-- `feed`, with `feed_pen` -/
def feed (g : GestureRecognizer) (event : InputEvent) : GestureRecognizer × List Made :=
  match event.asTouch with
  | some t => g.feedTouch t
  | none => (g, [])

/-- A pointer that was held long enough. -/
def held (g : GestureRecognizer) (now : ℕ) (state : PointerState) : Bool :=
  !state.longPressEmitted ∧ fromMillis g.config.longPressMs ≤ now - state.beganAt ∧
    state.beganPosition.distanceTo state.lastPosition ≤ tapMaxMovementPx

/-- `tick` -/
def tick (g : GestureRecognizer) (now : ℕ) : GestureRecognizer × List Made :=
  ({ g with
      pointers := g.pointers.map fun p =>
        if g.held now p.2 then (p.1, { p.2 with longPressEmitted := true }) else p },
    (g.pointers.filter fun p => g.held now p.2).map fun p =>
      (p.2.contact, .longPress p.2.beganPosition g.config.longPressMs))

/-- `reset` -/
def reset (g : GestureRecognizer) : GestureRecognizer :=
  { g with pointers := [], lastTap := none, pairBaseline := none }

end GestureRecognizer

end Orchid.Input
