import Mathlib.Data.Finset.Basic
import Orchid.Widgets.Layout

/-!
# The widget manager

Calls on the manager that run at the same time; `manager/mod.rs`, `manager/operations.rs` and
`manager/persistence.rs`. A call runs from one await to the next in one step. It awaits the lock of
a widget and the hooks of a widget that it calls under the lock; what a hook, the factory of a
widget type and a transaction of the store answer is given with the step.
-/

namespace Orchid.Widgets

/-! ### Instances -/

/-- `PixelRect` -/
structure PixelRect where
  x : F32
  y : F32
  width : F32
  height : F32

/-- `WindowState` -/
inductive WindowState
  | normal
  | maximized
  | minimized

/-- `WindowPlacement` -/
inductive WindowPlacement
  | grid
  | floating (bounds restoredBounds : PixelRect) (state : WindowState)

/-- The fields of an instance that change, with the lock of its widget. -/
structure InstanceCell where
  position : GridPosition := ⟨0, 0⟩
  size : WidgetSize := .small
  lifecycle : LifecycleState := .active
  placement : WindowPlacement := .grid
  groupId : Option Uuid := none
  updatedAt : ℕ := 0
  lastConfig : Bytes := []
  locked : Bool := false

/-- `Arc<WidgetInstanceRuntime>`: the fields that stay and the address of the others. -/
structure SharedInstance where
  id : Uuid
  workspaceId : Uuid
  typeId : Text
  createdAt : ℕ
  cell : ℕ

/-- `WidgetInstance`, the row of an instance in the store. -/
structure WidgetInstance where
  id : Uuid
  widgetType : Text
  workspaceId : Uuid
  position : GridPosition
  size : WidgetSize
  lifecycle : LifecycleState
  placement : WindowPlacement
  config : Bytes
  createdAt : ℕ
  updatedAt : ℕ

/-- The sizes that a widget type allows. -/
structure WidgetDescriptor where
  minSize : Option WidgetSize
  maxSize : Option WidgetSize

/-! ### The shared state -/

/-- What the calls share; `registry` are the descriptors of the registered widget types. -/
structure Manager where
  registry : Text → Option WidgetDescriptor
  instances : Uuid → Option SharedInstance := fun _ => none
  byWorkspace : Uuid → Finset Uuid := fun _ => ∅
  layoutDirty : Finset Uuid := ∅
  rows : Uuid → Option WidgetInstance := fun _ => none
  cells : ℕ → InstanceCell := fun _ => {}
  allocated : ℕ := 0

/-- What the code outside answers during a step. -/
structure Answers where
  now : ℕ
  /-- the hook that was awaited -/
  hook : Except WidgetError Unit
  /-- `Widget::save_state` -/
  saved : Except WidgetError Bytes
  /-- the factory of the widget type -/
  made : Except Text Unit
  stored : Transaction

namespace Manager

/-- `index_workspace` -/
def indexWorkspace (m : Manager) (workspaceId instanceId : Uuid) : Manager :=
  { m with
    byWorkspace := Function.update m.byWorkspace workspaceId
      (insert instanceId (m.byWorkspace workspaceId)) }

/-- `unindex_workspace` -/
def unindexWorkspace (m : Manager) (workspaceId instanceId : Uuid) : Manager :=
  { m with
    byWorkspace := Function.update m.byWorkspace workspaceId
      ((m.byWorkspace workspaceId).erase instanceId) }

/-- A field of an instance is written. -/
def modify (m : Manager) (inst : SharedInstance) (f : InstanceCell → InstanceCell) : Manager :=
  { m with cells := Function.update m.cells inst.cell (f (m.cells inst.cell)) }

/-- An entry of the instance map is written. -/
def setInstance (m : Manager) (id : Uuid) (inst : Option SharedInstance) : Manager :=
  { m with instances := Function.update m.instances id inst }

/-- A row of the store is written. -/
def setRow (m : Manager) (id : Uuid) (row : Option WidgetInstance) : Manager :=
  { m with rows := Function.update m.rows id row }

/-- `to_storage` -/
def toStorage (m : Manager) (inst : SharedInstance) (config : Bytes) : WidgetInstance where
  id := inst.id
  widgetType := inst.typeId
  workspaceId := inst.workspaceId
  position := (m.cells inst.cell).position
  size := (m.cells inst.cell).size
  lifecycle := (m.cells inst.cell).lifecycle
  placement := (m.cells inst.cell).placement
  config
  createdAt := inst.createdAt
  updatedAt := (m.cells inst.cell).updatedAt

/-- `save_instance` with the bytes that the widget saved. -/
def saveInstance (m : Manager) (inst : SharedInstance) (bytes : Bytes) (stored : Transaction) :
    Manager × Except WidgetError Unit :=
  let m := m.modify inst fun c => { c with lastConfig := bytes }
  match stored with
  | .ok _ => (m.setRow inst.id (some (m.toStorage inst bytes)), .ok ())
  | .error e => (m, .error (.storage e))

/-- `flush_layout_saves`: the rows of the dirty instances that are still there. -/
def flushLayoutSaves (m : Manager) (stored : Transaction) : Manager :=
  let row id := (m.instances id).map fun inst =>
    m.toStorage inst (m.cells inst.cell).lastConfig
  match stored with
  | .ok _ =>
    { m with
      layoutDirty := ∅
      rows := fun id => if id ∈ m.layoutDirty then (row id).or (m.rows id) else m.rows id }
  | .error _ => { m with layoutDirty := m.layoutDirty.filter fun id => (m.instances id).isSome }

end Manager

/-- `is_allowed` -/
def isAllowed (src dst : LifecycleState) : Bool :=
  match src, dst with
  | .active, .sleeping | .sleeping, .active | .sleeping, .unloaded | .unloaded, .active => true
  | _, _ => false

/-- `{:?}` -/
def LifecycleState.debug : LifecycleState → Text
  | .active => "Active".toList
  | .sleeping => "Sleeping".toList
  | .unloaded => "Unloaded".toList

/-- `validate_size` -/
def validateSize (descriptor : WidgetDescriptor) (size : WidgetSize) : Except WidgetError Unit := do
  let (w, h) := sizeInCells size
  if let some min := descriptor.minSize then
    let (mw, mh) := sizeInCells min
    if w < mw ∨ h < mh then
      throw (.invalidSize ("below descriptor min ".toList ++ min.debug))
  if let some max := descriptor.maxSize then
    let (mw, mh) := sizeInCells max
    if w > mw ∨ h > mh then
      throw (.invalidSize ("above descriptor max ".toList ++ max.debug))

/-! ### Calls -/

/-- A call on an instance. -/
inductive Operation
  | close
  | changeLifecycle (target : LifecycleState)
  | saveWidgetState
  | assignToWorkspace (workspaceId : Uuid)
  | moveAndResize (position : GridPosition) (size : WidgetSize)

/-- Where a call stands; `posChanged` is what `move_and_resize` found at its start. -/
inductive Phase
  | begun
  | awaitHook (inst : SharedInstance) (posChanged : Bool)
  | inHook (inst : SharedInstance) (posChanged : Bool)
  | awaitSave (inst : SharedInstance)
  | returned (result : Except WidgetError Unit)

namespace Manager

/-- The end of `move_and_resize`. -/
def applyLayout (m : Manager) (inst : SharedInstance) (position : GridPosition) (size : WidgetSize)
    (now : ℕ) : Manager :=
  let m := m.modify inst fun c => { c with position, size, updatedAt := now }
  { m with layoutDirty := insert inst.id m.layoutDirty }

/-- The step of a call up to its first await. -/
def begin (m : Manager) (now : ℕ) (id : Uuid) (op : Operation) : Manager × Phase :=
  match m.instances id with
  | none => (m, .returned (.error (.instanceNotFound id)))
  | some inst =>
    let c := m.cells inst.cell
    match op with
    | .close =>
      ((m.setInstance id none).unindexWorkspace inst.workspaceId id, .awaitHook inst false)
    | .changeLifecycle target =>
      if c.lifecycle = target then (m, .awaitSave inst)
      else if isAllowed c.lifecycle target then (m, .awaitHook inst false)
      else
        (m, .returned (.error (.invalidStateForOperation
          (c.lifecycle.debug ++ " -> ".toList ++ target.debug))))
    | .saveWidgetState => (m, .awaitSave inst)
    | .assignToWorkspace workspaceId =>
      if inst.workspaceId = workspaceId then (m, .returned (.ok ())) else (m, .awaitSave inst)
    | .moveAndResize position size =>
      match m.registry inst.typeId with
      | none => (m, .returned (.error (.unknownWidgetType inst.typeId)))
      | some descriptor =>
        match validateSize descriptor size with
        | .error e => (m, .returned (.error e))
        | .ok _ =>
          if c.position = position ∧ c.size = size then (m, .returned (.ok ()))
          else if c.size = size then
            (m.applyLayout inst position size now, .returned (.ok ()))
          else (m, .awaitHook inst (c.position ≠ position))

/-- The step of a call behind its hook; `none` if the call has no hook. -/
def afterHook (m : Manager) (a : Answers) (inst : SharedInstance) (posChanged : Bool) :
    Operation → Option (Manager × Phase)
  | .close =>
    match a.hook with
    | .error e => some (m, .returned (.error e))
    | .ok _ =>
      let m := { m with layoutDirty := m.layoutDirty.erase inst.id }
      match a.stored with
      | .ok _ => some (m.setRow inst.id none, .returned (.ok ()))
      | .error e => some (m, .returned (.error (.storage e)))
  | .changeLifecycle target =>
    match a.hook with
    | .error e => some (m, .returned (.error e))
    | .ok _ =>
      some (m.modify inst fun c => { c with lifecycle := target, updatedAt := a.now },
        .awaitSave inst)
  | .moveAndResize position size =>
    match a.hook with
    | .error e => some (m, .returned (.error e))
    | .ok _ =>
      let position := if posChanged then position else (m.cells inst.cell).position
      some (m.applyLayout inst position size a.now, .returned (.ok ()))
  | .saveWidgetState | .assignToWorkspace _ => none

/-- The instance that `assign_to_workspace` builds. -/
def rebuilt (m : Manager) (inst : SharedInstance) (workspaceId : Uuid) : SharedInstance :=
  { inst with workspaceId, cell := m.allocated }

/-- The cell of that instance. -/
def allocate (m : Manager) (inst : SharedInstance) (now : ℕ) (bytes : Bytes) : Manager :=
  { m with
    cells := Function.update m.cells m.allocated
      { m.cells inst.cell with updatedAt := now, lastConfig := bytes, locked := false }
    allocated := m.allocated + 1 }

/-- The last step of a call, which saves the state of the widget; `none` if the call has none. -/
def afterSave (m : Manager) (a : Answers) (inst : SharedInstance) :
    Operation → Option (Manager × Except WidgetError Unit)
  | .changeLifecycle _ => some (m.saveInstance inst (a.saved.toOption.getD []) a.stored)
  | .saveWidgetState =>
    match a.saved with
    | .error e => some (m, .error e)
    | .ok bytes => some (m.saveInstance inst bytes a.stored)
  | .assignToWorkspace workspaceId =>
    let bytes := a.saved.toOption.getD []
    match m.registry inst.typeId, a.made with
    | none, _ => some (m, .error (.unknownWidgetType inst.typeId))
    | some _, .error text => some (m, .error (.creationFailed text))
    | some _, .ok _ =>
      let new := m.rebuilt inst workspaceId
      match (m.allocate inst a.now bytes).saveInstance new bytes a.stored with
      | (m, .error e) => some (m, .error e)
      | (m, .ok _) =>
        some (((m.setInstance inst.id (some new)).unindexWorkspace inst.workspaceId
          inst.id).indexWorkspace workspaceId inst.id, .ok ())
  | .close | .moveAndResize _ _ => none

/-- The next step of a call; `none` if it has returned or waits for a lock that is held. -/
def advance (m : Manager) (a : Answers) (id : Uuid) (op : Operation) :
    Phase → Option (Manager × Phase)
  | .begun => some (m.begin a.now id op)
  | .awaitHook inst posChanged =>
    if (m.cells inst.cell).locked then none
    else some (m.modify inst fun c => { c with locked := true }, .inHook inst posChanged)
  | .inHook inst posChanged =>
    (m.modify inst fun c => { c with locked := false }).afterHook a inst posChanged op
  | .awaitSave inst =>
    if (m.cells inst.cell).locked then none
    else (m.afterSave a inst op).map fun (m, result) => (m, .returned result)
  | .returned _ => none

end Manager

/-! ### The system -/

/-- A call with its phase. -/
structure Task where
  id : Uuid
  op : Operation
  phase : Phase

/-- The manager with the calls on it. -/
structure System where
  manager : Manager
  tasks : ℕ → Option Task := fun _ => none

/-- What happens next. -/
inductive Happening
  /-- the last step of `create` or, with the row already stored, of a restore -/
  | enter (inst : SharedInstance) (cell : InstanceCell) (created : Bool)
  | call (t : ℕ) (id : Uuid) (op : Operation)
  | step (t : ℕ) (a : Answers)
  | flush (stored : Transaction)

namespace System

/-- The manager is replaced and a call comes to a phase. -/
def reach (s : System) (t : ℕ) (task : Task) (p : Manager × Phase) : System where
  manager := p.1
  tasks := Function.update s.tasks t (some { task with phase := p.2 })

/-- An instance comes in under an id that no call has named. -/
def Fresh (s : System) (inst : SharedInstance) : Prop :=
  s.manager.instances inst.id = none ∧ inst.cell = s.manager.allocated ∧
    ∀ t task, s.tasks t = some task → task.id ≠ inst.id

/-- The manager with an instance that comes in. -/
def enter (m : Manager) (inst : SharedInstance) (cell : InstanceCell) (created : Bool) : Manager :=
  let m := { m with
    cells := Function.update m.cells inst.cell cell, allocated := m.allocated + 1 }
  let m := if created then m.setRow inst.id (some (m.toStorage inst cell.lastConfig)) else m
  (m.setInstance inst.id (some inst)).indexWorkspace inst.workspaceId inst.id

/-- One step of the system. -/
inductive Next (s : System) : Happening → System → Prop
  | enter {inst cell created} (hfresh : s.Fresh inst) :
    Next s (.enter inst cell created) { s with manager := enter s.manager inst cell created }
  | call {t id op} (ht : s.tasks t = none) :
    Next s (.call t id op)
      { s with tasks := Function.update s.tasks t (some ⟨id, op, .begun⟩) }
  | step {t a task p} (ht : s.tasks t = some task)
    (hp : s.manager.advance a task.id task.op task.phase = some p) :
    Next s (.step t a) (s.reach t task p)
  | flush {stored} :
    Next s (.flush stored) { s with manager := s.manager.flushLayoutSaves stored }

end System

end Orchid.Widgets
