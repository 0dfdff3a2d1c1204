import Orchid.Command.Registry
import Orchid.Lib.Along

/-!
# The index by verb

What registering and unregistering commands does to the index. Several commands may declare one
verb; the index holds the one that was registered last, and unregistering any of them takes the
verb out.
-/

namespace Orchid.Command

open Lib

/-- The command can be called by the verb. -/
def CommandDescriptor.Declares (d : CommandDescriptor) (verb : Text) : Prop :=
  ∃ t ∈ d.terminalInvocation, t.verb = verb

namespace CommandRegistry

variable {reg : CommandRegistry}

/-! ### Entries -/

lemma getEntry_eq_some_iff {id : Text} {e : CommandEntry} :
    reg.getEntry id = some e ↔ e ∈ reg.inner ∧ e.id = id := by
  rw [getEntry]
  constructor
  · intro h
    exact ⟨List.mem_of_find?_eq_some h, by simpa using List.find?_some h⟩
  · rintro ⟨hmem, rfl⟩
    cases hfind : reg.inner.find? fun e' => e'.id = e.id with
    | none => simpa using List.find?_eq_none.mp hfind e hmem
    | some e' =>
      have hid : e'.id = e.id := by simpa using List.find?_some hfind
      exact congrArg some
        (List.inj_on_of_nodup_map reg.nodup (List.mem_of_find?_eq_some hfind) hmem hid)

lemma getEntry_eq_none_iff {id : Text} : reg.getEntry id = none ↔ ∀ e ∈ reg.inner, e.id ≠ id := by
  simp [getEntry]

lemma get_eq_some_iff {id : Text} {d : CommandDescriptor} :
    reg.get id = some d ↔ ∃ e ∈ reg.inner, e.id = id ∧ e.descriptor = d := by
  rw [get, Option.map_eq_some_iff]
  constructor
  · rintro ⟨e, he, rfl⟩
    obtain ⟨hmem, hid⟩ := getEntry_eq_some_iff.mp he
    exact ⟨e, hmem, hid, rfl⟩
  · rintro ⟨e, hmem, hid, rfl⟩
    exact ⟨e, getEntry_eq_some_iff.mpr ⟨hmem, hid⟩, rfl⟩

/-! ### The index -/

/-- Every verb of the index leads to a registered command that declares it, and every verb that a
registered command declares leads to a registered command that declares it. -/
structure Indexed (reg : CommandRegistry) : Prop where
  sound : ∀ verb id, reg.byVerb.lookup verb = some id →
    ∃ d, reg.get id = some d ∧ d.Declares verb
  found : ∀ id d, reg.get id = some d → ∀ verb, d.Declares verb →
    ∃ d', reg.getByVerb verb = some d' ∧ d'.Declares verb

/-- A call that changes the set of commands. -/
inductive Call
  | register (descriptor : CommandDescriptor)
  | unregister (id : Text)

/-- The registry after a call; an id that is taken is refused. -/
def next (reg : CommandRegistry) : Call → CommandRegistry
  | .register descriptor =>
    match reg.register descriptor with
    | .ok reg => reg
    | .error _ => reg
  | .unregister id => (reg.unregister id).1

/-- No other command declares the verb of the one that is unregistered. -/
def Unshared (reg : CommandRegistry) : Call → Prop
  | .register _ => True
  | .unregister id => ∀ d, reg.get id = some d → ∀ verb, d.Declares verb →
      ∀ id' d', reg.get id' = some d' → d'.Declares verb → id' = id

lemma indexed_new : Indexed new := ⟨by simp [new], by simp [new, get, getEntry]⟩

lemma getByVerb_eq_some {verb id : Text} {d : CommandDescriptor}
    (hverb : reg.byVerb.lookup verb = some id) (hget : reg.get id = some d) :
    reg.getByVerb verb = some d := by
  rw [getByVerb, hverb]
  exact hget

/-! ### What the calls do -/

/-- A command that is accepted is stored, and its verb leads to it. -/
structure Registers (reg : CommandRegistry) (d : CommandDescriptor) (reg' : CommandRegistry) :
    Prop where
  isNew : reg.get d.id = none
  get_self : reg'.get d.id = some d
  get_other : ∀ id, id ≠ d.id → reg'.get id = reg.get id
  verb : ∀ verb, d.Declares verb → reg'.byVerb.lookup verb = some d.id
  verb_other : ∀ verb, ¬ d.Declares verb → reg'.byVerb.lookup verb = reg.byVerb.lookup verb

/-- A command that is taken out takes its verb with it. -/
structure Unregisters (reg : CommandRegistry) (id : Text) (d : CommandDescriptor)
    (reg' : CommandRegistry) : Prop where
  wasThere : reg.get id = some d
  get_self : reg'.get id = none
  get_other : ∀ id', id' ≠ id → reg'.get id' = reg.get id'
  verb : ∀ verb, d.Declares verb → reg'.byVerb.lookup verb = none
  verb_other : ∀ verb, ¬ d.Declares verb → reg'.byVerb.lookup verb = reg.byVerb.lookup verb

lemma not_declares_of_none {d : CommandDescriptor} {verb : Text}
    (h : d.terminalInvocation = none) : ¬ d.Declares verb := by
  simp [CommandDescriptor.Declares, h]

lemma declares_iff {d : CommandDescriptor} {t : TerminalInvocation} {verb : Text}
    (h : d.terminalInvocation = some t) : d.Declares verb ↔ verb = t.verb := by
  simp [CommandDescriptor.Declares, h, eq_comm]

lemma next_register (reg : CommandRegistry) (d : CommandDescriptor) :
    reg.next (.register d) = reg ∨ reg.Registers d (reg.next (.register d)) := by
  rw [next]
  by_cases htaken : ∃ e ∈ reg.inner, e.id = d.id
  · left
    rw [register, dif_pos htaken]
  · right
    have hnone : reg.getEntry d.id = none := getEntry_eq_none_iff.mpr fun e he hid =>
      htaken ⟨e, he, hid⟩
    rw [register, dif_neg htaken]
    refine ⟨by simp [get, hnone], ?_, ?_, ?_, ?_⟩
    · exact get_eq_some_iff.mpr ⟨⟨d, d.defaultShortcut⟩, by simp, rfl, rfl⟩
    · intro id hid
      rw [get, getEntry, List.find?_append]
      have hskip : [(⟨d, d.defaultShortcut⟩ : CommandEntry)].find? (fun e => e.id = id) = none :=
        List.find?_eq_none.mpr fun e he => by
          rw [List.mem_singleton.mp he, decide_eq_true_iff]
          exact hid.symm
      rw [hskip, Option.or_none]
      rfl
    · intro verb hverb
      cases hinv : d.terminalInvocation with
      | none => exact absurd hverb (not_declares_of_none hinv)
      | some t =>
        rw [(declares_iff hinv).mp hverb]
        exact AList.lookup_insert _
    · intro verb hverb
      cases hinv : d.terminalInvocation with
      | none => rfl
      | some t =>
        exact AList.lookup_insert_ne fun heq => hverb ((declares_iff hinv).mpr heq)

lemma next_unregister (reg : CommandRegistry) (id : Text) :
    (reg.get id = none ∧ reg.next (.unregister id) = reg) ∨
      ∃ d, reg.Unregisters id d (reg.next (.unregister id)) := by
  rw [next]
  cases hentry : reg.getEntry id with
  | none =>
    left
    rw [unregister, hentry]
    exact ⟨by simp [get, hentry], rfl⟩
  | some e =>
    right
    rw [unregister, hentry]
    dsimp only
    refine ⟨e.descriptor, by simp [get, hentry], ?_, ?_, ?_, ?_⟩
    · rw [get, Option.map_eq_none_iff]
      exact getEntry_eq_none_iff.mpr fun e' he' => by simpa using (List.mem_filter.mp he').2
    · intro id' hid
      rw [get, get, getEntry, getEntry, List.find?_filter]
      congr 2
      funext e'
      by_cases heq : e'.id = id'
      · simp [heq, hid]
      · simp [heq]
    · intro verb hverb
      cases hinv : e.descriptor.terminalInvocation with
      | none => exact absurd hverb (not_declares_of_none hinv)
      | some t =>
        rw [(declares_iff hinv).mp hverb]
        simp
    · intro verb hverb
      cases hinv : e.descriptor.terminalInvocation with
      | none => simp
      | some t =>
        simp only
        exact AList.lookup_erase_ne fun heq => hverb ((declares_iff hinv).mpr heq)

/-! ### One call -/

lemma Indexed.register {d : CommandDescriptor} {reg' : CommandRegistry} (h : reg.Indexed)
    (hreg : reg.Registers d reg') : reg'.Indexed := by
  have hkeep {id : Text} {d' : CommandDescriptor} (hget : reg.get id = some d') :
      reg'.get id = some d' := by
    rw [hreg.get_other id, hget]
    rintro rfl
    rw [hreg.isNew] at hget
    cases hget
  constructor
  · intro verb id hlookup
    by_cases hverb : d.Declares verb
    · rw [hreg.verb verb hverb] at hlookup
      cases hlookup
      exact ⟨d, hreg.get_self, hverb⟩
    · rw [hreg.verb_other verb hverb] at hlookup
      obtain ⟨d', hget, hd'⟩ := h.sound verb id hlookup
      exact ⟨d', hkeep hget, hd'⟩
  · intro id d₁ hget verb hd₁
    by_cases hverb : d.Declares verb
    · exact ⟨d, getByVerb_eq_some (hreg.verb verb hverb) hreg.get_self, hverb⟩
    · have hid : id ≠ d.id := by
        rintro rfl
        rw [hreg.get_self] at hget
        cases hget
        exact hverb hd₁
      rw [hreg.get_other id hid] at hget
      obtain ⟨d', hfound, hd'⟩ := h.found id d₁ hget verb hd₁
      obtain ⟨id', hlookup, hget'⟩ := Option.bind_eq_some_iff.mp hfound
      refine ⟨d', getByVerb_eq_some ?_ (hkeep hget'), hd'⟩
      rw [hreg.verb_other verb hverb, hlookup]

/-- Unregistering keeps the index right exactly if the verb is not shared. -/
lemma Indexed.unregister_iff {id : Text} {d : CommandDescriptor} {reg' : CommandRegistry}
    (h : reg.Indexed) (hreg : reg.Unregisters id d reg') :
    reg'.Indexed ↔ reg.Unshared (.unregister id) := by
  constructor
  · intro h' d₁ hd₁ verb hverb id' d' hget hd'
    cases hreg.wasThere.symm.trans hd₁
    by_contra hid
    rw [← hreg.get_other id' hid] at hget
    obtain ⟨d'', hfound, -⟩ := h'.found id' d' hget verb hd'
    rw [getByVerb, hreg.verb verb hverb] at hfound
    cases hfound
  · intro hown
    have hother {id' verb : Text} {d' : CommandDescriptor} (hget : reg'.get id' = some d')
        (hd' : d'.Declares verb) : id' ≠ id ∧ reg.get id' = some d' ∧ ¬ d.Declares verb := by
      have hid : id' ≠ id := by
        rintro rfl
        rw [hreg.get_self] at hget
        cases hget
      rw [hreg.get_other id' hid] at hget
      exact ⟨hid, hget, fun hverb => hid (hown d hreg.wasThere verb hverb id' d' hget hd')⟩
    constructor
    · intro verb id' hlookup
      by_cases hverb : d.Declares verb
      · rw [hreg.verb verb hverb] at hlookup
        cases hlookup
      · rw [hreg.verb_other verb hverb] at hlookup
        obtain ⟨d', hget, hd'⟩ := h.sound verb id' hlookup
        refine ⟨d', ?_, hd'⟩
        rw [hreg.get_other id', hget]
        rintro rfl
        cases hreg.wasThere.symm.trans hget
        exact hverb hd'
    · intro id' d' hget verb hd'
      obtain ⟨-, hget₀, hverb⟩ := hother hget hd'
      obtain ⟨d'', hfound, hd''⟩ := h.found id' d' hget₀ verb hd'
      obtain ⟨id'', hlookup, hget''⟩ := Option.bind_eq_some_iff.mp hfound
      refine ⟨d'', getByVerb_eq_some (by rw [hreg.verb_other verb hverb, hlookup]) ?_, hd''⟩
      rw [hreg.get_other id'', hget'']
      rintro rfl
      cases hreg.wasThere.symm.trans hget''
      exact hverb hd''

lemma Indexed.next_iff (h : reg.Indexed) (call : Call) :
    (reg.next call).Indexed ↔ reg.Unshared call := by
  cases call with
  | register d =>
    refine iff_of_true ?_ trivial
    rcases next_register reg d with hsame | hreg
    · rwa [hsame]
    · exact h.register hreg
  | unregister id =>
    rcases next_unregister reg id with ⟨hnone, hsame⟩ | ⟨d, hreg⟩
    · rw [hsame]
      refine iff_of_true h fun d hget => ?_
      rw [hnone] at hget
      cases hget
    · exact h.unregister_iff hreg

/-! ### All calls -/

/-- The index is right after every call exactly if no call unregisters a command with a shared
verb. -/
theorem verb_index_right_iff (calls : List Call) :
    Along next (fun reg call => (reg.next call).Indexed) new calls ↔
      Along next Unshared new calls :=
  along_iff_along (fun _ call h hown => (h.next_iff call).mpr hown)
    (fun _ call h => h.next_iff call) indexed_new calls

/-- A command with an id and a verb. -/
def plainCommand (id verb : Text) : CommandDescriptor :=
  ⟨id, [], none, .custom, none, some ⟨verb⟩, none⟩

/-- Of two commands with one verb, one is taken out; the other cannot be called any more. -/
theorem not_verb_index_right :
    ¬ ∀ calls : List Call, (calls.foldl next new).Indexed := by
  intro h
  have hfound := (h [.register (plainCommand ['a'] ['v']), .register (plainCommand ['b'] ['v']),
    .unregister ['a']]).found ['b'] (plainCommand ['b'] ['v']) (by decide) ['v']
    ⟨⟨['v']⟩, rfl, rfl⟩
  obtain ⟨d, hd, -⟩ := hfound
  have hnone : getByVerb ([Call.register (plainCommand ['a'] ['v']),
    .register (plainCommand ['b'] ['v']), .unregister ['a']].foldl next new) ['v'] = none := by
    decide
  rw [hnone] at hd
  cases hd

end CommandRegistry

end Orchid.Command
