import Orchid.Command.Profile

/-!
# The command registry

Commands by id with an index by verb, and the keyboard shortcut each command has at the moment,
`command/registry.rs` and `command/descriptor.rs`.
-/

namespace Orchid.Command

/-- `CommandCategory` -/
inductive CommandCategory
  | system
  | file
  | widget
  | terminal
  | view
  | navigation
  | search
  | settings
  | developer
  | custom
  deriving DecidableEq

/-- `TerminalInvocation`, without the arguments shown as help. -/
structure TerminalInvocation where
  verb : Text
  deriving DecidableEq

/-- `CommandDescriptor` -/
structure CommandDescriptor where
  id : Text
  displayNameKey : Text
  descriptionKey : Option Text
  category : CommandCategory
  defaultShortcut : Option Shortcut
  terminalInvocation : Option TerminalInvocation
  iconName : Option Text
  deriving DecidableEq

/-- `CommandEntry`, without the action factory. -/
structure CommandEntry where
  descriptor : CommandDescriptor
  effectiveShortcut : Option Shortcut

/-- The key an entry is stored under. -/
def CommandEntry.id (e : CommandEntry) : Text := e.descriptor.id

/-- The shortcut is no part of the key. -/
lemma CommandEntry.id_withShortcut (e : CommandEntry) (sc : Option Shortcut) :
    ({ e with effectiveShortcut := sc } : CommandEntry).id = e.id := rfl

/-- `CommandRegistry`: the entries in the order in which the map is iterated, and the ids by verb. -/
structure CommandRegistry where
  inner : List CommandEntry
  byVerb : AList fun _ : Text => Text
  nodup : (inner.map CommandEntry.id).Nodup

/-- `ShortcutOverrideResult` -/
structure ShortcutOverrideResult where
  commandId : Text
  outcome : Except Text Shortcut

/-- `CoreError::to_string` -/
def CoreError.text : CoreError → Text
  | .commandNotFound verb => "command not found: ".toList ++ verb
  | .duplicateCommand id => "duplicate command id: ".toList ++ id
  | .invalidCommandSyntax reason => "invalid command syntax: ".toList ++ reason
  | .invalidShortcut input => "invalid shortcut: ".toList ++ input

namespace CommandRegistry

/-- `CommandRegistry::new` -/
def new : CommandRegistry := ⟨[], ∅, List.nodup_nil⟩

/-- The entry of an id. -/
def getEntry (reg : CommandRegistry) (id : Text) : Option CommandEntry :=
  reg.inner.find? fun e => e.id = id

/-- Change every entry, under the id it has. -/
def mapEntries (reg : CommandRegistry) (f : CommandEntry → CommandEntry)
    (hf : ∀ e, (f e).id = e.id) : CommandRegistry where
  inner := reg.inner.map f
  byVerb := reg.byVerb
  nodup := by
    have hids : CommandEntry.id ∘ f = CommandEntry.id := funext hf
    rw [List.map_map, hids]
    exact reg.nodup

/-- `register` -/
def register (reg : CommandRegistry) (descriptor : CommandDescriptor) :
    Except CoreError CommandRegistry :=
  if h : ∃ e ∈ reg.inner, e.id = descriptor.id then .error (.duplicateCommand descriptor.id)
  else
    .ok {
      inner := reg.inner ++ [⟨descriptor, descriptor.defaultShortcut⟩]
      byVerb := match descriptor.terminalInvocation with
        | some t => reg.byVerb.insert t.verb descriptor.id
        | none => reg.byVerb
      nodup := by
        rw [List.map_append]
        refine List.nodup_append.mpr ⟨reg.nodup, List.nodup_singleton _, ?_⟩
        intro a ha b hb hab
        obtain ⟨e, he, rfl⟩ := List.mem_map.mp ha
        rw [List.mem_singleton.mp hb] at hab
        exact h ⟨e, he, hab⟩ }

/-- `unregister` -/
def unregister (reg : CommandRegistry) (id : Text) : CommandRegistry × Bool :=
  match reg.getEntry id with
  | none => (reg, false)
  | some e =>
    ({ inner := reg.inner.filter fun e => e.id ≠ id
       byVerb := match e.descriptor.terminalInvocation with
        | some t => reg.byVerb.erase t.verb
        | none => reg.byVerb
       nodup := reg.nodup.sublist (List.filter_sublist.map CommandEntry.id) }, true)

/-- `get` -/
def get (reg : CommandRegistry) (id : Text) : Option CommandDescriptor :=
  (reg.getEntry id).map CommandEntry.descriptor

/-- `has_verb` -/
def hasVerb (reg : CommandRegistry) (verb : Text) : Bool := (reg.byVerb.lookup verb).isSome

/-- `get_by_verb` -/
def getByVerb (reg : CommandRegistry) (verb : Text) : Option CommandDescriptor :=
  (reg.byVerb.lookup verb).bind reg.get

/-- `effective_shortcut` -/
def effectiveShortcut (reg : CommandRegistry) (id : Text) : Option Shortcut :=
  (reg.getEntry id).bind CommandEntry.effectiveShortcut

/-- `reset_effective_shortcuts` -/
def resetEffectiveShortcuts (reg : CommandRegistry) : CommandRegistry :=
  reg.mapEntries (fun e => { e with effectiveShortcut := e.descriptor.defaultShortcut })
    fun e => e.id_withShortcut _

/-- The shortcut of an entry once a profile is laid over it. -/
def profileShortcut (profile : ShortcutProfile) (e : CommandEntry) : Option Shortcut :=
  match profileDefaultStr profile e.descriptor.id with
  | none => e.effectiveShortcut
  | some raw =>
    if raw = [] then none
    else
      match Shortcut.parse raw with
      | .ok sc => if isReserved sc = none then some sc else e.effectiveShortcut
      | .error _ => e.effectiveShortcut

/-- `apply_shortcut_profile` -/
def applyShortcutProfile (reg : CommandRegistry) (profile : ShortcutProfile) : CommandRegistry :=
  reg.mapEntries (fun e => { e with effectiveShortcut := profileShortcut profile e })
    fun e => e.id_withShortcut _

/-- Give the command of an id a shortcut. -/
def bind (reg : CommandRegistry) (id : Text) (sc : Shortcut) : CommandRegistry :=
  reg.mapEntries (fun e => if e.id = id then { e with effectiveShortcut := some sc } else e)
    fun e => by
      split_ifs
      · exact e.id_withShortcut _
      · rfl

/-- One override of `apply_shortcut_overrides`. -/
def applyShortcutOverride (reg : CommandRegistry) (id s : Text) :
    CommandRegistry × ShortcutOverrideResult :=
  match Shortcut.parse s with
  | .ok sc =>
    match isReserved sc with
    | some reason => (reg, ⟨id, .error reason⟩)
    | none =>
      if (reg.getEntry id).isSome then (reg.bind id sc, ⟨id, .ok sc⟩)
      else (reg, ⟨id, .error ("unknown command `".toList ++ id ++ "`".toList)⟩)
  | .error e => (reg, ⟨id, .error (CoreError.text e)⟩)

/-- The loop of `apply_shortcut_overrides`. -/
def applyOverrideEntries (reg : CommandRegistry) :
    List (Sigma fun _ : Text => Text) → CommandRegistry × List ShortcutOverrideResult
  | [] => (reg, [])
  | ⟨id, s⟩ :: entries =>
    let (reg, result) := reg.applyShortcutOverride id s
    let (reg, out) := applyOverrideEntries reg entries
    (reg, result :: out)

/-- `apply_shortcut_overrides` -/
def applyShortcutOverrides (reg : CommandRegistry) (overrides : Overrides) :
    CommandRegistry × List ShortcutOverrideResult :=
  reg.applyOverrideEntries overrides.entries

/-- `rebind_shortcuts` -/
def rebindShortcuts (reg : CommandRegistry) (profile : ShortcutProfile) (overrides : Overrides) :
    CommandRegistry × List ShortcutOverrideResult :=
  (reg.resetEffectiveShortcuts.applyShortcutProfile profile).applyShortcutOverrides overrides

end CommandRegistry

end Orchid.Command
