import Mathlib.Data.List.AList
import Orchid.Command.Shortcut

/-!
# Shortcut profiles

The built-in keyboard conventions and the resolution that is shown to the user,
`command/profile.rs`.
-/

namespace Orchid.Command

/-- `ShortcutProfile` -/
inductive ShortcutProfile
  | orchid
  | windows
  | macos
  | linux
  deriving DecidableEq

/-- `ProfileBinding`, without its label. -/
structure ProfileBinding where
  id : Text
  orchid : Text
  windows : Text
  macos : Text
  linux : Text

/-- `ProfileBinding::for_profile` -/
def ProfileBinding.forProfile (b : ProfileBinding) : ShortcutProfile → Text
  | .orchid => b.orchid
  | .windows => b.windows
  | .macos => b.macos
  | .linux => b.linux

/-- `PROFILE_BINDINGS`, each with its keys under Orchid, Windows, macOS and Linux. -/
def profileBindings : List ProfileBinding := [
  ⟨"command-palette".toList, "Ctrl+Shift+P".toList, "Ctrl+Shift+P".toList,
    "Win+Shift+P".toList, "Ctrl+Shift+P".toList⟩,
  ⟨"settings.open".toList, "Ctrl+,".toList, "Ctrl+,".toList,
    "Win+,".toList, "Ctrl+,".toList⟩,
  ⟨"onboarding.toggle_hint_mode".toList, "Win+?".toList, "Win+?".toList,
    "Win+Shift+/".toList, "Win+?".toList⟩,
  ⟨"widget.close".toList, "Ctrl+W".toList, "Ctrl+W".toList,
    "Win+W".toList, "Ctrl+W".toList⟩,
  ⟨"workspace.switch_next".toList, "Ctrl+Alt+ArrowRight".toList, "Ctrl+Alt+ArrowRight".toList,
    "Alt+Win+ArrowRight".toList, "Ctrl+Alt+ArrowRight".toList⟩,
  ⟨"workspace.switch_previous".toList, "Ctrl+Alt+ArrowLeft".toList, "Ctrl+Alt+ArrowLeft".toList,
    "Alt+Win+ArrowLeft".toList, "Ctrl+Alt+ArrowLeft".toList⟩,
  ⟨"terminal.split_horizontal".toList, "Ctrl+Shift+H".toList, "Ctrl+Shift+H".toList,
    "Win+Shift+H".toList, "Ctrl+Shift+H".toList⟩,
  ⟨"terminal.split_vertical".toList, "Ctrl+Shift+J".toList, "Ctrl+Shift+J".toList,
    "Win+Shift+J".toList, "Ctrl+Shift+J".toList⟩,
  ⟨"terminal.tab_new".toList, "Ctrl+Shift+T".toList, "Ctrl+Shift+T".toList,
    "Win+Shift+T".toList, "Ctrl+Shift+T".toList⟩,
  ⟨"terminal.close".toList, "Ctrl+Shift+W".toList, "Ctrl+Shift+W".toList,
    "Win+Shift+W".toList, "Ctrl+Shift+W".toList⟩,
  ⟨"terminal.focus_next_pane".toList, "Ctrl+Shift+ArrowRight".toList,
    "Ctrl+Shift+ArrowRight".toList,
    "Win+Shift+ArrowRight".toList, "Ctrl+Shift+ArrowRight".toList⟩,
  ⟨"terminal.focus_previous_pane".toList, "Ctrl+Shift+ArrowLeft".toList,
    "Ctrl+Shift+ArrowLeft".toList,
    "Win+Shift+ArrowLeft".toList, "Ctrl+Shift+ArrowLeft".toList⟩,
  ⟨"terminal.tab_next".toList, "Ctrl+PageDown".toList, "Ctrl+PageDown".toList,
    "Win+Shift+]".toList, "Ctrl+PageDown".toList⟩,
  ⟨"terminal.tab_previous".toList, "Ctrl+PageUp".toList, "Ctrl+PageUp".toList,
    "Win+Shift+[".toList, "Ctrl+PageUp".toList⟩,
  ⟨"fs.select-all".toList, "Ctrl+A".toList, "Ctrl+A".toList,
    "Win+A".toList, "Ctrl+A".toList⟩,
  ⟨"fs.deselect-all".toList, "Escape".toList, "Escape".toList,
    "Escape".toList, "Escape".toList⟩,
  ⟨"fs.invert-selection".toList, "*".toList, "*".toList,
    "*".toList, "*".toList⟩,
  ⟨"fs.select-mask-add".toList, "+".toList, "+".toList,
    "+".toList, "+".toList⟩,
  ⟨"fs.select-mask-sub".toList, "-".toList, "-".toList,
    "-".toList, "-".toList⟩,
  ⟨"fs.copy".toList, "Ctrl+C".toList, "Ctrl+C".toList,
    "Win+C".toList, "Ctrl+C".toList⟩,
  ⟨"fs.cut".toList, "Ctrl+X".toList, "Ctrl+X".toList,
    "Win+X".toList, "Ctrl+X".toList⟩,
  ⟨"fs.paste".toList, "Ctrl+V".toList, "Ctrl+V".toList,
    "Win+V".toList, "Ctrl+V".toList⟩,
  ⟨"fs.undo".toList, "Ctrl+Z".toList, "Ctrl+Z".toList,
    "Win+Z".toList, "Ctrl+Z".toList⟩,
  ⟨"fs.redo".toList, "Ctrl+Y".toList, "Ctrl+Y".toList,
    "Win+Shift+Z".toList, "Ctrl+Shift+Z".toList⟩,
  ⟨"fs.rename".toList, "F2".toList, "F2".toList,
    "F2".toList, "F2".toList⟩,
  ⟨"fs.delete".toList, "F8".toList, "Delete".toList,
    "Win+Backspace".toList, "Delete".toList⟩,
  ⟨"fs.delete-permanent".toList, "Shift+Delete".toList, "Shift+Delete".toList,
    "Win+Shift+Backspace".toList, "Shift+Delete".toList⟩,
  ⟨"fs.new-folder".toList, "F7".toList, "Ctrl+Shift+N".toList,
    "Win+Shift+N".toList, "Ctrl+Shift+N".toList⟩,
  ⟨"fs.new-file".toList, "Shift+F4".toList, "".toList,
    "".toList, "".toList⟩,
  ⟨"viewer.open".toList, "F3".toList, "".toList,
    "Space".toList, "".toList⟩,
  ⟨"viewer.edit".toList, "F4".toList, "".toList,
    "".toList, "".toList⟩,
  ⟨"fs.copy-to-other".toList, "F5".toList, "".toList,
    "".toList, "".toList⟩,
  ⟨"fs.move-to-other".toList, "F6".toList, "".toList,
    "".toList, "".toList⟩,
  ⟨"fs.open-tab".toList, "Ctrl+Shift+T".toList, "Ctrl+Shift+T".toList,
    "Win+Shift+T".toList, "Ctrl+Shift+T".toList⟩,
  ⟨"fs.open-other-pane".toList, "Ctrl+Shift+Enter".toList, "Ctrl+Shift+Enter".toList,
    "Win+Shift+Enter".toList, "Ctrl+Shift+Enter".toList⟩,
  ⟨"fs.branch-view".toList, "Ctrl+B".toList, "Ctrl+B".toList,
    "Win+B".toList, "Ctrl+B".toList⟩,
  ⟨"fs.find".toList, "Alt+F7".toList, "Ctrl+F".toList,
    "Win+F".toList, "Ctrl+F".toList⟩,
  ⟨"fs.properties".toList, "Alt+Enter".toList, "Alt+Enter".toList,
    "Win+I".toList, "Alt+Enter".toList⟩,
  ⟨"fs.address-bar".toList, "Ctrl+L".toList, "Ctrl+L".toList,
    "Win+Shift+G".toList, "Ctrl+L".toList⟩,
  ⟨"fs.tab-new".toList, "Ctrl+T".toList, "Ctrl+T".toList,
    "Win+T".toList, "Ctrl+T".toList⟩,
  ⟨"fs.drive-root".toList, "Ctrl+\\".toList, "Ctrl+\\".toList,
    "Win+Shift+Up".toList, "Ctrl+\\".toList⟩,
  ⟨"fs.drives-menu".toList, "Alt+F1".toList, "Alt+F1".toList,
    "".toList, "Alt+F1".toList⟩]

/-- The ids a profile has a default for. -/
def Remappable (id : Text) : Prop := ∃ b ∈ profileBindings, b.id = id

/-- `profile_default_str`; the empty text leaves the action unbound. -/
def profileDefaultStr (profile : ShortcutProfile) (id : Text) : Option Text :=
  (profileBindings.find? fun b => b.id = id).map fun b => b.forProfile profile

/-- User overrides, command id to shortcut text; the order of the entries is the one in which
the hash map is iterated. -/
abbrev Overrides := AList fun _ : Text => Text

/-- `resolve_profile_shortcut` -/
def resolveProfileShortcut (profile : ShortcutProfile) (overrides : Overrides) (id : Text) :
    Option Shortcut :=
  match overrides.lookup id with
  | some raw =>
    let trimmed := trim raw
    if trimmed = [] then none else (Shortcut.parse trimmed).toOption
  | none =>
    match profileDefaultStr profile id with
    | none => none
    | some default => if default = [] then none else (Shortcut.parse default).toOption

end Orchid.Command
