import Orchid.Command.Registry

/-!
# The two resolutions of a shortcut

After `rebind_shortcuts` the registry answers with the shortcut a command has, and
`resolve_profile_shortcut` computes the one that is shown. They part where an override or a
profile default is not a shortcut: the registry keeps what was bound before, the resolver takes
the command to be unbound. `Agrees` says when they answer the same.
-/

namespace Orchid.Command

namespace CommandRegistry

/-! ### What each pass does to one entry -/

lemma id_of_getEntry {reg : CommandRegistry} {id : Text} {e : CommandEntry}
    (h : reg.getEntry id = some e) : e.id = id := by
  simpa using List.find?_some h

lemma getEntry_mapEntries (reg : CommandRegistry) (f : CommandEntry → CommandEntry)
    (hf : ∀ e, (f e).id = e.id) (id : Text) :
    (reg.mapEntries f hf).getEntry id = (reg.getEntry id).map f := by
  have hids : ((fun e : CommandEntry => decide (e.id = id)) ∘ f) = fun e => decide (e.id = id) :=
    funext fun e => by simp [hf]
  rw [getEntry, mapEntries, List.find?_map, hids, getEntry]

lemma getEntry_bind_self (reg : CommandRegistry) (id : Text) (sc : Shortcut) :
    (reg.bind id sc).getEntry id =
      (reg.getEntry id).map fun e => { e with effectiveShortcut := some sc } := by
  rw [bind, getEntry_mapEntries]
  cases h : reg.getEntry id with
  | none => rfl
  | some e => simp [id_of_getEntry h]

lemma getEntry_bind_of_ne (reg : CommandRegistry) {id id' : Text} (hne : id ≠ id')
    (sc : Shortcut) : (reg.bind id' sc).getEntry id = reg.getEntry id := by
  rw [bind, getEntry_mapEntries]
  cases h : reg.getEntry id with
  | none => rfl
  | some e => simp [id_of_getEntry h, hne]

/-- What is bound after an override, given what was bound before. -/
def overridden (s : Text) (bound : Option Shortcut) : Option Shortcut :=
  match Shortcut.parse s with
  | .ok sc => if isReserved sc = none then some sc else bound
  | .error _ => bound

/-- An override binds its command, or it leaves the registry as it is. -/
lemma applyShortcutOverride_cases (reg : CommandRegistry) (id s : Text) :
    (∃ sc, Shortcut.parse s = .ok sc ∧ isReserved sc = none ∧
      (reg.applyShortcutOverride id s).1 = reg.bind id sc) ∨
    ((∀ sc, Shortcut.parse s = .ok sc → isReserved sc = none → reg.getEntry id = none) ∧
      (reg.applyShortcutOverride id s).1 = reg) := by
  unfold applyShortcutOverride
  cases hp : Shortcut.parse s with
  | error err => exact Or.inr ⟨fun sc h => by simp at h, rfl⟩
  | ok sc =>
    dsimp only
    cases hr : isReserved sc with
    | some reason =>
      refine Or.inr ⟨fun sc' h hr' => ?_, rfl⟩
      rw [Except.ok.inj h, hr'] at hr
      simp at hr
    | none =>
      dsimp only
      split_ifs with he
      · exact Or.inl ⟨sc, rfl, hr, rfl⟩
      · exact Or.inr ⟨fun _ _ _ => Option.not_isSome_iff_eq_none.mp he, rfl⟩

lemma getEntry_override_self (reg : CommandRegistry) (id s : Text) :
    (reg.applyShortcutOverride id s).1.getEntry id =
      (reg.getEntry id).map fun e =>
        { e with effectiveShortcut := overridden s e.effectiveShortcut } := by
  rcases applyShortcutOverride_cases reg id s with ⟨sc, hp, hr, heq⟩ | ⟨hnot, heq⟩
  · rw [heq, getEntry_bind_self]
    simp [overridden, hp, hr]
  · rw [heq]
    cases he : reg.getEntry id with
    | none => rfl
    | some e =>
      have hkeep : overridden s e.effectiveShortcut = e.effectiveShortcut := by
        unfold overridden
        cases hp : Shortcut.parse s with
        | error err => rfl
        | ok sc =>
          have hr : isReserved sc ≠ none := fun hr => by simpa [he] using hnot sc hp hr
          simp [hr]
      rw [Option.map_some, hkeep]

lemma getEntry_override_of_ne (reg : CommandRegistry) {id id' : Text} (hne : id ≠ id') (s : Text) :
    (reg.applyShortcutOverride id' s).1.getEntry id = reg.getEntry id := by
  rcases applyShortcutOverride_cases reg id' s with ⟨sc, -, -, heq⟩ | ⟨-, heq⟩
  · rw [heq, getEntry_bind_of_ne reg hne]
  · rw [heq]

/-- The overrides of other commands do not matter, in whatever order they come. -/
lemma getEntry_applyOverrideEntries (entries : List (Sigma fun _ : Text => Text))
    (hnd : entries.NodupKeys) (reg : CommandRegistry) (id : Text) :
    (reg.applyOverrideEntries entries).1.getEntry id =
      match entries.dlookup id with
      | some s => (reg.getEntry id).map fun e =>
          { e with effectiveShortcut := overridden s e.effectiveShortcut }
      | none => reg.getEntry id := by
  induction entries generalizing reg with
  | nil => rfl
  | cons entry entries ih =>
    obtain ⟨id', s⟩ := entry
    obtain ⟨hnotin, hnd⟩ := List.nodupKeys_cons.mp hnd
    show ((reg.applyShortcutOverride id' s).1.applyOverrideEntries entries).1.getEntry id = _
    rw [ih hnd]
    by_cases h : id = id'
    · subst h
      rw [List.dlookup_eq_none.mpr hnotin, List.dlookup_cons_eq]
      exact getEntry_override_self reg id s
    · rw [List.dlookup_cons_ne _ _ h, getEntry_override_of_ne reg h]

/-- The shortcut a command has after `rebind_shortcuts`, from its descriptor alone. -/
lemma effectiveShortcut_rebindShortcuts (reg : CommandRegistry) (profile : ShortcutProfile)
    (overrides : Overrides) {id : Text} {e : CommandEntry} (he : reg.getEntry id = some e) :
    (reg.rebindShortcuts profile overrides).1.effectiveShortcut id =
      let base := profileShortcut profile ⟨e.descriptor, e.descriptor.defaultShortcut⟩
      match overrides.lookup id with
      | some s => overridden s base
      | none => base := by
  have hbase : (reg.resetEffectiveShortcuts.applyShortcutProfile profile).getEntry id =
      some ⟨e.descriptor, profileShortcut profile ⟨e.descriptor, e.descriptor.defaultShortcut⟩⟩ := by
    rw [applyShortcutProfile, getEntry_mapEntries, resetEffectiveShortcuts, getEntry_mapEntries, he]
    rfl
  rw [effectiveShortcut, rebindShortcuts, applyShortcutOverrides,
    getEntry_applyOverrideEntries _ overrides.nodupKeys, hbase]
  show _ = match overrides.entries.dlookup id with
    | some s => overridden s _
    | none => _
  cases overrides.entries.dlookup id <;> rfl

end CommandRegistry

open CommandRegistry

/-! ### Where they agree -/

/-- The profile has a default for the command that is not a shortcut, so that the registry keeps
the one compiled in. -/
def KeepsDefault (profile : ShortcutProfile) (id : Text) : Prop :=
  ∃ raw ∈ profileDefaultStr profile id, raw ≠ [] ∧ (Shortcut.parse raw).toOption = none

/-- When the registry and the resolver answer the same for a command with a given compiled
default, without and with an override. -/
def Agrees (profile : ShortcutProfile) (overrides : Overrides) (desc : CommandDescriptor) : Prop :=
  match overrides.lookup desc.id with
  | none => KeepsDefault profile desc.id → desc.defaultShortcut = none
  | some s =>
    match Shortcut.parse s with
    | .ok sc => isReserved sc = none ∨
        (KeepsDefault profile desc.id ∧ desc.defaultShortcut = some sc)
    | .error _ => profileDefaultStr profile desc.id = some [] ∨
        (KeepsDefault profile desc.id ∧ desc.defaultShortcut = none)

/-- No profile default is a reserved combination. -/
lemma isReserved_profile_default (profile : ShortcutProfile) : ∀ b ∈ profileBindings,
    ∀ sc ∈ (Shortcut.parse (b.forProfile profile)).toOption, isReserved sc = none := by
  have hall : ∀ b ∈ profileBindings, ∀ raw ∈ [b.orchid, b.windows, b.macos, b.linux],
      ((Shortcut.parse raw).toOption.all fun sc => isReserved sc = none) = true := by
    decide +kernel
  intro b hb sc hsc
  have hmem : b.forProfile profile ∈ [b.orchid, b.windows, b.macos, b.linux] := by
    cases profile <;> simp [ProfileBinding.forProfile]
  have := hall b hb _ hmem
  rw [Option.mem_def.mp hsc] at this
  simpa using this

/-- A profile unbinds a remappable command, binds it to a free shortcut, or has a text for it that
is no shortcut. -/
lemma profileDefaultStr_cases (profile : ShortcutProfile) {id : Text} (hid : Remappable id) :
    profileDefaultStr profile id = some [] ∨
    (∃ raw sc, profileDefaultStr profile id = some raw ∧ raw ≠ [] ∧
      Shortcut.parse raw = .ok sc ∧ isReserved sc = none) ∨
    (∃ raw err, profileDefaultStr profile id = some raw ∧ raw ≠ [] ∧
      Shortcut.parse raw = .error err) := by
  obtain ⟨b, hb, rfl⟩ := hid
  obtain ⟨b', hfind⟩ : ∃ b', profileBindings.find? (fun b' => b'.id = b.id) = some b' :=
    Option.isSome_iff_exists.mp (List.find?_isSome.mpr ⟨b, hb, by simp⟩)
  have hstr : profileDefaultStr profile b.id = some (b'.forProfile profile) := by
    rw [profileDefaultStr, hfind]
    rfl
  rw [hstr]
  by_cases hraw : b'.forProfile profile = []
  · exact Or.inl (by rw [hraw])
  · cases hp : Shortcut.parse (b'.forProfile profile) with
    | ok sc =>
      have hfree := isReserved_profile_default profile b' (List.mem_of_find?_eq_some hfind) sc
        (by rw [hp]; rfl)
      exact Or.inr (Or.inl ⟨_, sc, rfl, hraw, hp, hfree⟩)
    | error err => exact Or.inr (Or.inr ⟨_, err, rfl, hraw, hp⟩)

/-- An override is read by the resolver as `Shortcut::parse` reads it. -/
lemma resolve_override (s : Text) :
    (if trim s = [] then none else (Shortcut.parse (trim s)).toOption) =
      (Shortcut.parse s).toOption := by
  split_ifs with h
  · rw [Shortcut.parse, if_pos h]
    rfl
  · exact parse_trim s

/-- The binding of a profile and what the resolver shows without an override, in the three cases. -/
lemma profileShortcut_cases (profile : ShortcutProfile) (desc : CommandDescriptor)
    (hid : Remappable desc.id) :
    let base := profileShortcut profile ⟨desc, desc.defaultShortcut⟩
    let shown := resolveProfileShortcut profile ∅ desc.id
    (profileDefaultStr profile desc.id = some [] ∧ ¬ KeepsDefault profile desc.id ∧
      base = none ∧ shown = none) ∨
    (profileDefaultStr profile desc.id ≠ some [] ∧ ¬ KeepsDefault profile desc.id ∧
      ∃ sc, isReserved sc = none ∧ base = some sc ∧ shown = some sc) ∨
    (profileDefaultStr profile desc.id ≠ some [] ∧ KeepsDefault profile desc.id ∧
      base = desc.defaultShortcut ∧ shown = none) := by
  rcases profileDefaultStr_cases profile hid with
    hstr | ⟨raw, sc, hstr, hne, hp, hr⟩ | ⟨raw, err, hstr, hne, hp⟩
  · exact Or.inl ⟨hstr, by simp [KeepsDefault, hstr], by simp [profileShortcut, hstr],
      by simp [resolveProfileShortcut, hstr]⟩
  · have hok : (Shortcut.parse raw).toOption = some sc := by rw [hp]; rfl
    refine Or.inr (Or.inl ⟨by simpa [hstr] using hne, ?_, sc, hr, ?_, ?_⟩)
    · simp [KeepsDefault, hstr, hok]
    · simp [profileShortcut, hstr, hne, hp, hr]
    · simp [resolveProfileShortcut, hstr, hne, hok]
  · have hnone : (Shortcut.parse raw).toOption = none := by rw [hp]; rfl
    refine Or.inr (Or.inr ⟨by simpa [hstr] using hne, ?_, ?_, ?_⟩)
    · exact ⟨raw, hstr, hne, hnone⟩
    · simp [profileShortcut, hstr, hne, hp]
    · simp [resolveProfileShortcut, hstr, hne, hnone]

/-- One command: the registry and the resolver answer the same exactly if `Agrees`. -/
lemma effectiveShortcut_eq_resolve_iff (reg : CommandRegistry) (profile : ShortcutProfile)
    (overrides : Overrides) {id : Text} {desc : CommandDescriptor} (hid : Remappable id)
    (hdesc : reg.get id = some desc) :
    (reg.rebindShortcuts profile overrides).1.effectiveShortcut id =
      resolveProfileShortcut profile overrides id ↔ Agrees profile overrides desc := by
  obtain ⟨e, he, rfl⟩ := Option.map_eq_some_iff.mp hdesc
  obtain rfl : e.descriptor.id = id := id_of_getEntry he
  have hcases := profileShortcut_cases profile e.descriptor hid
  rw [effectiveShortcut_rebindShortcuts reg profile overrides he, Agrees]
  cases ho : overrides.lookup e.descriptor.id with
  | none =>
    have hshown : resolveProfileShortcut profile overrides e.descriptor.id =
        resolveProfileShortcut profile ∅ e.descriptor.id := by
      simp [resolveProfileShortcut, ho]
    rw [hshown]
    rcases hcases with ⟨-, hk, hb, hs⟩ | ⟨-, hk, sc, -, hb, hs⟩ | ⟨-, hk, hb, hs⟩
    · simp [hb, hs, hk]
    · simp [hb, hs, hk]
    · simp [hb, hs, hk]
  | some s =>
    have hshown : resolveProfileShortcut profile overrides e.descriptor.id =
        (Shortcut.parse s).toOption := by
      simp only [resolveProfileShortcut, ho]
      exact resolve_override s
    rw [hshown]
    dsimp only [overridden]
    cases hp : Shortcut.parse s with
    | ok sc =>
      show (if isReserved sc = none then some sc else _) = some sc ↔ _
      by_cases hr : isReserved sc = none
      · simp [hr]
      · rw [if_neg hr]
        -- only a compiled default survives a reserved override, and it may be the same
        rcases hcases with ⟨-, hk, hb, -⟩ | ⟨-, hk, sc', hr', hb, -⟩ | ⟨-, hk, hb, -⟩
        · simp [hb, hk, hr]
        · have hne : sc' ≠ sc := fun heq => hr (heq ▸ hr')
          simp [hb, hk, hr, hne]
        · simp [hb, hk, hr]
    | error err =>
      show _ = none ↔ _
      rcases hcases with ⟨hstr, hk, hb, -⟩ | ⟨hstr, hk, sc, -, hb, -⟩ | ⟨hstr, hk, hb, -⟩
      · simp [hb, hstr]
      · simp [hb, hk, hstr]
      · simp [hb, hk, hstr]

/-- After rebinding, every registered remappable command has the shortcut the resolver shows,
exactly if for each of them the overrides and the compiled default agree. -/
theorem effective_shortcut_resolves_iff (reg : CommandRegistry) (profile : ShortcutProfile)
    (overrides : Overrides) :
    (∀ id, Remappable id → (reg.get id).isSome →
      (reg.rebindShortcuts profile overrides).1.effectiveShortcut id =
        resolveProfileShortcut profile overrides id) ↔
    ∀ id desc, Remappable id → reg.get id = some desc → Agrees profile overrides desc := by
  constructor
  · intro h id desc hid hdesc
    exact (effectiveShortcut_eq_resolve_iff reg profile overrides hid hdesc).mp
      (h id hid (by rw [hdesc]; rfl))
  · intro h id hid hsome
    obtain ⟨desc, hdesc⟩ := Option.isSome_iff_exists.mp hsome
    exact (effectiveShortcut_eq_resolve_iff reg profile overrides hid hdesc).mpr
      (h id desc hid hdesc)

/-- The registry with one command, without a compiled shortcut. -/
def copyOnly : CommandRegistry where
  inner := [⟨⟨"fs.copy".toList, [], none, .file, none, none, none⟩, none⟩]
  byVerb := ∅
  nodup := List.nodup_singleton _

/-- An empty override unbinds the command for the resolver, the registry keeps the profile's
shortcut. -/
theorem not_effective_shortcut_resolves :
    ¬ ∀ (reg : CommandRegistry) (profile : ShortcutProfile) (overrides : Overrides) (id : Text),
      Remappable id → (reg.get id).isSome →
        (reg.rebindShortcuts profile overrides).1.effectiveShortcut id =
          resolveProfileShortcut profile overrides id := by
  intro h
  have hid : Remappable "fs.copy".toList := by
    unfold Remappable
    decide +kernel
  have heq := h copyOnly .orchid (AList.singleton "fs.copy".toList []) _ hid (by decide +kernel)
  revert heq
  decide +kernel

end Orchid.Command
