import Orchid.Job.Queue
import Orchid.Lib.Trace

/-!
# Single flight

All calls for a key that hold a state hold the same one, and a state that is marked as running has
exactly one call that leads it. A call that is dropped while it waits leaves the mark behind, and a
state that is dropped from the queue while it is held no longer keeps the next call out; an event is
safe if it does neither (`Safe`).
-/

namespace Orchid.Job

open Lib

variable {K : Type}

namespace Stage

/-- The state a call holds. -/
def slot : Stage → Option ℕ
  | .holding s | .starting s | .flying s | .landed s => some s
  | .called | .checked | .done => none

/-- The call leads the state it holds. -/
def Leads : Stage → Prop
  | .starting _ | .flying _ | .landed _ => True
  | .called | .checked | .holding _ | .done => False

end Stage

namespace JobQueue

/-- The factory of a call is running. -/
def Flies (q : JobQueue K) (t : ℕ) (k : K) : Prop := ∃ s, q.calls t = some ⟨k, .flying s⟩

/-- A call leads the state at an address. -/
def LeadsAt (q : JobQueue K) (t : ℕ) (k : K) (s : ℕ) : Prop :=
  ∃ stage, q.calls t = some ⟨k, stage⟩ ∧ stage.slot = some s ∧ stage.Leads

/-- A call holds the state at an address. -/
def HoldsAt (q : JobQueue K) (t : ℕ) (k : K) (s : ℕ) : Prop :=
  ∃ stage, q.calls t = some ⟨k, stage⟩ ∧ stage.slot = some s

/-- A call for a key is about to look up its state. -/
def LooksUp (q : JobQueue K) (t : ℕ) (k : K) : Prop := q.calls t = some ⟨k, .checked⟩

/-- The calls and the states fit; `owner` is the key of a state. -/
structure Inv (owner : ℕ → K) (q : JobQueue K) : Prop where
  ownerMap : ∀ k s, q.flights k = some s → owner s = k ∧ s < q.allocated
  ownerHeld : ∀ t k s, q.HoldsAt t k s → owner s = k ∧ s < q.allocated
  attached : ∀ t k s, q.HoldsAt t k s → q.flights k = some s ∨
    (q.shutDown = true ∧ q.flights k = none ∧ ∀ t, ¬ q.LooksUp t k)
  same : ∀ t t' k s s', q.HoldsAt t k s → q.HoldsAt t' k s' → s = s'
  marked : ∀ t k s, q.LeadsAt t k s → (q.slots s).running = true
  alone : ∀ t t' k s, q.LeadsAt t k s → q.LeadsAt t' k s → t = t'
  ledMap : ∀ k s, q.flights k = some s → (q.slots s).running = true → ∃ t, q.LeadsAt t k s
  ledHeld : ∀ t k s, q.HoldsAt t k s → (q.slots s).running = true → ∃ t, q.LeadsAt t k s

@[grind →] lemma LeadsAt.holdsAt {q : JobQueue K} {t : ℕ} {k : K} {s : ℕ} (h : q.LeadsAt t k s) :
    q.HoldsAt t k s := by
  obtain ⟨stage, ht, hs, -⟩ := h
  exact ⟨stage, ht, hs⟩

/-- An event that leaves no mark behind and takes no state away from a call that holds it. -/
def Safe (q : JobQueue K) : Event K → Prop
  | .abort t => ∀ k s, q.HoldsAt t k s →
      q.flights k ≠ some s ∧ ∀ t', q.HoldsAt t' k s → t' = t
  | .cancel k => ∀ t s, q.HoldsAt t k s → q.flights k = some s → (q.slots s).running = true
  | .clear => ∀ t t' k s, q.HoldsAt t k s → ¬ q.LooksUp t' k
  | _ => True

lemma HoldsAt.unique {q : JobQueue K} {t : ℕ} {k k' : K} {s s' : ℕ} (h : q.HoldsAt t k s)
    (h' : q.HoldsAt t k' s') : k' = k ∧ s' = s := by
  obtain ⟨stage, hstage, hslot⟩ := h
  obtain ⟨stage', hstage', hslot'⟩ := h'
  rw [hstage] at hstage'
  cases hstage'
  exact ⟨rfl, Option.some.inj (hslot'.symm.trans hslot)⟩

/-! ### Calls after a step -/

section After

variable (q : JobQueue K) (t t' : ℕ) (k k' : K) (stage : Stage) (s s' : ℕ) (state : FlightState)

@[simp, grind =] lemma reach_calls : (q.reach t k stage).calls t' =
    if t' = t then some ⟨k, stage⟩ else q.calls t' := by
  simp [reach, Function.update_apply]

@[simp, grind =] lemma reach_flights : (q.reach t k stage).flights k' = q.flights k' := rfl

@[simp, grind =] lemma reach_slots : (q.reach t k stage).slots s = q.slots s := rfl

@[simp, grind =] lemma reach_allocated : (q.reach t k stage).allocated = q.allocated := rfl

@[simp, grind =] lemma reach_shutDown : (q.reach t k stage).shutDown = q.shutDown := rfl

@[simp, grind =] lemma write_calls : (q.write s state).calls t = q.calls t := rfl

@[simp, grind =] lemma write_flights : (q.write s state).flights k = q.flights k := rfl

@[simp, grind =] lemma write_slots : (q.write s state).slots s' =
    if s' = s then state else q.slots s' := by
  simp [write, Function.update_apply]

@[simp, grind =] lemma write_allocated : (q.write s state).allocated = q.allocated := rfl

@[simp, grind =] lemma write_shutDown : (q.write s state).shutDown = q.shutDown := rfl

@[grind =] lemma holdsAt_reach : (q.reach t k stage).HoldsAt t' k' s ↔
    if t' = t then k = k' ∧ stage.slot = some s else q.HoldsAt t' k' s := by
  unfold HoldsAt
  split_ifs with ht
  · rw [ht]
    grind
  · simp [ht]

@[grind =] lemma leadsAt_reach : (q.reach t k stage).LeadsAt t' k' s ↔
    if t' = t then k = k' ∧ stage.slot = some s ∧ stage.Leads else q.LeadsAt t' k' s := by
  unfold LeadsAt
  split_ifs with ht
  · rw [ht]
    grind
  · simp [ht]

@[grind =] lemma looksUp_reach : (q.reach t k stage).LooksUp t' k' ↔
    if t' = t then k = k' ∧ stage = .checked else q.LooksUp t' k' := by
  unfold LooksUp
  split_ifs with ht
  · simp [ht]
  · simp [ht]

@[simp, grind =] lemma holdsAt_write : (q.write s state).HoldsAt t k s' ↔ q.HoldsAt t k s' :=
  Iff.rfl

@[simp, grind =] lemma leadsAt_write : (q.write s state).LeadsAt t k s' ↔ q.LeadsAt t k s' :=
  Iff.rfl

@[simp, grind =] lemma looksUp_write : (q.write s state).LooksUp t k ↔ q.LooksUp t k := Iff.rfl

variable [DecidableEq K]

@[simp, grind =] lemma allocate_calls : (q.allocate k).calls t = q.calls t := rfl

@[simp, grind =] lemma allocate_flights : (q.allocate k).flights k' =
    if k' = k then some q.allocated else q.flights k' := by
  simp [allocate, Function.update_apply]

@[simp, grind =] lemma allocate_slots : (q.allocate k).slots s =
    if s = q.allocated then {} else q.slots s := by
  simp [allocate, write, Function.update_apply]

@[simp, grind =] lemma allocate_allocated : (q.allocate k).allocated = q.allocated + 1 := rfl

@[simp, grind =] lemma allocate_shutDown : (q.allocate k).shutDown = q.shutDown := rfl

@[simp, grind =] lemma holdsAt_allocate : (q.allocate k).HoldsAt t k' s ↔ q.HoldsAt t k' s :=
  Iff.rfl

@[simp, grind =] lemma leadsAt_allocate : (q.allocate k).LeadsAt t k' s ↔ q.LeadsAt t k' s :=
  Iff.rfl

@[simp, grind =] lemma looksUp_allocate : (q.allocate k).LooksUp t k' ↔ q.LooksUp t k' := Iff.rfl

end After

/-! ### What a safe step keeps -/

variable {owner : ℕ → K} {q : JobQueue K} {t : ℕ} {k : K} {s : ℕ} {stage : Stage}

namespace Inv

/-- A call that holds nothing moves on and holds nothing. -/
lemma pass (h : Inv owner q) (hfree : ∀ s k', ¬ q.HoldsAt t k' s) (hs : stage.slot = none)
    (hlook : stage = .checked → q.shutDown = false) : Inv owner (q.reach t k stage) where
  ownerMap := h.ownerMap
  ownerHeld := by grind [h.ownerHeld]
  attached := by grind [h.attached]
  same := by grind [h.same]
  marked := by grind [h.marked]
  alone := by grind [h.alone]
  ledMap := by
    intro k' s hk hrun
    obtain ⟨t', ht'⟩ := h.ledMap k' s hk hrun
    exact ⟨t', by grind⟩
  ledHeld := by
    intro t₁ k' s ht hrun
    obtain ⟨t', ht'⟩ := h.ledHeld t₁ k' s (by grind) hrun
    exact ⟨t', by grind⟩

/-- A call finds the state of its key. -/
lemma find (h : Inv owner q) (ht : q.LooksUp t k) (hs : q.flights k = some s) :
    Inv owner (q.reach t k (.holding s)) := by
  have hfree : ∀ k' s', ¬ q.HoldsAt t k' s' := by
    rintro k' s' ⟨stage, hstage, hslot⟩
    rw [ht] at hstage
    cases hstage
    cases hslot
  have hsame : ∀ t' s', q.HoldsAt t' k s' → s' = s := by
    intro t' s' ht'
    rcases h.attached t' k s' ht' with hs' | ⟨-, hs', -⟩
    · exact Option.some.inj (hs'.symm.trans hs)
    · rw [hs] at hs'
      cases hs'
  exact {
    ownerMap := h.ownerMap
    ownerHeld := by grind [h.ownerHeld, h.ownerMap, Stage.slot]
    attached := by grind [h.attached, Stage.slot]
    same := by grind [h.same, Stage.slot]
    marked := by grind [h.marked, Stage.Leads]
    alone := by grind [h.alone, Stage.Leads]
    ledMap := by
      intro k' s' hk hrun
      obtain ⟨t', ht'⟩ := h.ledMap k' s' hk hrun
      exact ⟨t', by grind⟩
    ledHeld := by
      intro t₁ k' s' ht₁ hrun
      by_cases heq : t₁ = t
      · obtain ⟨rfl, hslot⟩ : k = k' ∧ Stage.slot (.holding s) = some s' := by grind
        obtain rfl := Option.some.inj hslot
        obtain ⟨t', ht'⟩ := h.ledMap k s hs hrun
        exact ⟨t', by grind⟩
      · obtain ⟨t', ht'⟩ := h.ledHeld t₁ k' s' (by grind) hrun
        exact ⟨t', by grind⟩ }

/-- A call makes the state of its key. -/
lemma make [DecidableEq K] (h : Inv owner q) (ht : q.LooksUp t k) (hs : q.flights k = none) :
    Inv (Function.update owner q.allocated k)
      ((q.allocate k).reach t k (.holding q.allocated)) := by
  have hfree : ∀ k' s', ¬ q.HoldsAt t k' s' := by
    rintro k' s' ⟨stage, hstage, hslot⟩
    rw [ht] at hstage
    cases hstage
    cases hslot
  have hnone : ∀ t' s', ¬ q.HoldsAt t' k s' := by
    intro t' s' ht'
    rcases h.attached t' k s' ht' with hs' | ⟨-, -, hlook⟩
    · rw [hs] at hs'
      cases hs'
    · exact hlook t ht
  have hmap : ∀ k' s', q.flights k' = some s' → s' ≠ q.allocated := fun k' s' hs' =>
    (h.ownerMap k' s' hs').2.ne
  have hheld : ∀ t' k' s', q.HoldsAt t' k' s' → s' ≠ q.allocated := fun t' k' s' ht' =>
    (h.ownerHeld t' k' s' ht').2.ne
  have howner : ∀ s', Function.update owner q.allocated k s' =
      if s' = q.allocated then k else owner s' := fun s' => Function.update_apply ..
  exact {
    ownerMap := by grind [h.ownerMap]
    ownerHeld := by grind [h.ownerHeld, Stage.slot]
    attached := by grind [h.attached, Stage.slot]
    same := by grind [h.same, Stage.slot]
    marked := by grind [h.marked, Stage.Leads]
    alone := by grind [h.alone, Stage.Leads]
    ledMap := by
      intro k' s' hk hrun
      obtain ⟨t', ht'⟩ := h.ledMap k' s' (by grind) (by grind)
      exact ⟨t', by grind⟩
    ledHeld := by
      intro t₁ k' s' ht₁ hrun
      obtain ⟨t', ht'⟩ := h.ledHeld t₁ k' s' (by grind [Stage.slot]) (by grind [Stage.slot])
      exact ⟨t', by grind⟩ }

/-- A call finds its state led by another one and leaves. -/
lemma join (h : Inv owner q) (ht : q.HoldsAt t k s) (hlead : ¬ q.LeadsAt t k s)
    (hrun : (q.slots s).running = true) (b : Bool) :
    Inv owner ((q.write s ⟨true, b⟩).reach t k .done) := by
  have howner := h.ownerHeld t k s ht
  have hother : ∀ k' s', q.HoldsAt t k' s' → k' = k ∧ s' = s := fun k' s' => ht.unique
  have hnot : ∀ k' s', ¬ q.LeadsAt t k' s' := by
    intro k' s' hl
    obtain ⟨rfl, rfl⟩ := hother k' s' hl.holdsAt
    exact hlead hl
  exact {
    ownerMap := h.ownerMap
    ownerHeld := by grind [h.ownerHeld, Stage.slot]
    attached := by grind [h.attached, Stage.slot]
    same := by grind [h.same, Stage.slot]
    marked := by grind [h.marked, Stage.Leads]
    alone := by grind [h.alone, Stage.Leads]
    ledMap := by
      intro k' s' hk hrun'
      obtain ⟨t', ht'⟩ := h.ledMap k' s' hk (by grind)
      exact ⟨t', by grind⟩
    ledHeld := by
      intro t₁ k' s' ht₁ hrun'
      obtain ⟨t', ht'⟩ := h.ledHeld t₁ k' s' (by grind [Stage.slot]) (by grind)
      exact ⟨t', by grind⟩ }

/-- A call finds its state unmarked and leads from now on. -/
lemma lead (h : Inv owner q) (ht : q.HoldsAt t k s) (hrun : (q.slots s).running = false)
    (b : Bool) : Inv owner ((q.write s ⟨true, b⟩).reach t k (.starting s)) := by
  have howner := h.ownerHeld t k s ht
  have hnone : ∀ t' k', ¬ q.LeadsAt t' k' s := by
    intro t' k' hl
    have := h.marked t' k' s hl
    rw [hrun] at this
    cases this
  have hother : ∀ k' s', q.HoldsAt t k' s' → k' = k ∧ s' = s := fun k' s' => ht.unique
  have hself : ((q.write s ⟨true, b⟩).reach t k (.starting s)).LeadsAt t k s := by
    grind [Stage.slot, Stage.Leads]
  exact {
    ownerMap := h.ownerMap
    ownerHeld := by grind [h.ownerHeld, Stage.slot]
    attached := by grind [h.attached, Stage.slot]
    same := by grind [h.same, Stage.slot]
    marked := by grind [h.marked, Stage.slot]
    alone := by grind [h.alone, Stage.slot]
    ledMap := by
      intro k' s' hk hrun'
      by_cases heq : s' = s
      · subst heq
        obtain rfl : k' = k := (h.ownerMap k' s' hk).1.symm.trans howner.1
        exact ⟨t, hself⟩
      · obtain ⟨t', ht'⟩ := h.ledMap k' s' hk (by grind)
        exact ⟨t', by grind⟩
    ledHeld := by
      intro t₁ k' s' ht₁ hrun'
      by_cases heq : s' = s
      · subst heq
        obtain rfl : k' = k := by grind [h.ownerHeld, Stage.slot]
        exact ⟨t, hself⟩
      · obtain ⟨t', ht'⟩ := h.ledHeld t₁ k' s' (by grind [Stage.slot]) (by grind)
        exact ⟨t', by grind⟩ }

/-- Nothing depends on whether a marked state is asked for again. -/
lemma write_pending (h : Inv owner q) (hrun : (q.slots s).running = true) (b : Bool) :
    Inv owner (q.write s ⟨true, b⟩) := by
  have hsame : ∀ s', ((q.write s ⟨true, b⟩).slots s').running = (q.slots s').running := by
    grind
  exact {
    ownerMap := h.ownerMap
    ownerHeld := h.ownerHeld
    attached := h.attached
    same := h.same
    marked := fun t' k' s' ht' => (hsame s').trans (h.marked t' k' s' ht')
    alone := h.alone
    ledMap := fun k' s' hk hrun' => h.ledMap k' s' hk ((hsame s').symm.trans hrun')
    ledHeld := fun t' k' s' ht' hrun' => h.ledHeld t' k' s' ht' ((hsame s').symm.trans hrun') }

/-- A leading call goes on leading. -/
lemma goOn (h : Inv owner q) (ht : q.LeadsAt t k s) (hslot : stage.slot = some s)
    (hleads : stage.Leads) : Inv owner (q.reach t k stage) := by
  have hview : ∀ t' k' s', (q.reach t k stage).LeadsAt t' k' s' ↔ q.LeadsAt t' k' s' := by
    intro t' k' s'
    obtain ⟨stage', hstage, hslot', hleads'⟩ := ht
    rw [leadsAt_reach]
    unfold LeadsAt
    grind
  have hheld : ∀ t' k' s', (q.reach t k stage).HoldsAt t' k' s' ↔ q.HoldsAt t' k' s' := by
    intro t' k' s'
    obtain ⟨stage', hstage, hslot', hleads'⟩ := ht
    rw [holdsAt_reach]
    unfold HoldsAt
    grind
  exact {
    ownerMap := h.ownerMap
    ownerHeld := by grind [h.ownerHeld]
    attached := by
      intro t' k' s' ht'
      have hlook : ∀ t', (q.reach t k stage).LooksUp t' k' → q.LooksUp t' k' := by
        intro t' hl
        rw [looksUp_reach] at hl
        split_ifs at hl with heq
        · rw [hl.2] at hslot
          cases hslot
        · exact hl
      rcases h.attached t' k' s' ((hheld t' k' s').mp ht') with hs | ⟨hdown, hs, hnone⟩
      · exact Or.inl hs
      · exact Or.inr ⟨hdown, hs, fun t' hl => hnone t' (hlook t' hl)⟩
    same := fun t₁ t₂ k' s₁ s₂ h₁ h₂ =>
      h.same t₁ t₂ k' s₁ s₂ ((hheld _ _ _).mp h₁) ((hheld _ _ _).mp h₂)
    marked := fun t' k' s' ht' => h.marked t' k' s' ((hview _ _ _).mp ht')
    alone := fun t₁ t₂ k' s' h₁ h₂ =>
      h.alone t₁ t₂ k' s' ((hview _ _ _).mp h₁) ((hview _ _ _).mp h₂)
    ledMap := by
      intro k' s' hk hrun
      obtain ⟨t', ht'⟩ := h.ledMap k' s' hk hrun
      exact ⟨t', (hview _ _ _).mpr ht'⟩
    ledHeld := by
      intro t₁ k' s' ht₁ hrun
      obtain ⟨t', ht'⟩ := h.ledHeld t₁ k' s' ((hheld _ _ _).mp ht₁) hrun
      exact ⟨t', (hview _ _ _).mpr ht'⟩ }

/-- A leading call takes its mark away and leaves. -/
lemma finish (h : Inv owner q) (ht : q.LeadsAt t k s) (b : Bool) :
    Inv owner ((q.write s ⟨false, b⟩).reach t k .done) := by
  have howner := h.ownerHeld t k s ht.holdsAt
  have halone : ∀ t' k', q.LeadsAt t' k' s → t' = t := by
    intro t' k' hl
    obtain rfl : k' = k := (h.ownerHeld t' k' s hl.holdsAt).1.symm.trans howner.1
    exact h.alone t' t k' s hl ht
  have hother : ∀ k' s', q.HoldsAt t k' s' → k' = k ∧ s' = s := fun k' s' => ht.holdsAt.unique
  exact {
    ownerMap := h.ownerMap
    ownerHeld := by grind [h.ownerHeld, Stage.slot]
    attached := by grind [h.attached, Stage.slot]
    same := by grind [h.same, Stage.slot]
    marked := by grind [h.marked, Stage.Leads]
    alone := by grind [h.alone, Stage.Leads]
    ledMap := by
      intro k' s' hk hrun
      have hne : s' ≠ s := by grind
      obtain ⟨t', ht'⟩ := h.ledMap k' s' hk (by grind)
      exact ⟨t', by grind⟩
    ledHeld := by
      intro t₁ k' s' ht₁ hrun
      have hne : s' ≠ s := by grind
      obtain ⟨t', ht'⟩ := h.ledHeld t₁ k' s' (by grind [Stage.slot]) (by grind)
      exact ⟨t', by grind⟩ }

/-- A call is dropped whose state nobody can find any more. -/
lemma drop (h : Inv owner q) (ht : q.LeadsAt t k s) (hmap : q.flights k ≠ some s)
    (honly : ∀ t', q.HoldsAt t' k s → t' = t) : Inv owner (q.reach t k .done) := by
  have howner := h.ownerHeld t k s ht.holdsAt
  have hother : ∀ k' s', q.HoldsAt t k' s' → k' = k ∧ s' = s := fun k' s' => ht.holdsAt.unique
  have hmap' : ∀ k' s', q.flights k' = some s' → s' ≠ s := by
    rintro k' s' hk rfl
    obtain rfl : k' = k := (h.ownerMap k' s' hk).1.symm.trans howner.1
    exact hmap hk
  have honly' : ∀ t' k', q.HoldsAt t' k' s → t' = t := by
    intro t' k' ht'
    obtain rfl : k' = k := (h.ownerHeld t' k' s ht').1.symm.trans howner.1
    exact honly t' ht'
  exact {
    ownerMap := h.ownerMap
    ownerHeld := by grind [h.ownerHeld, Stage.slot]
    attached := by grind [h.attached, Stage.slot]
    same := by grind [h.same, Stage.slot]
    marked := by grind [h.marked, Stage.Leads]
    alone := by grind [h.alone, Stage.Leads]
    ledMap := by
      intro k' s' hk hrun
      obtain ⟨t', ht'⟩ := h.ledMap k' s' hk hrun
      have hne : t' ≠ t := by grind
      exact ⟨t', by grind⟩
    ledHeld := by
      intro t₁ k' s' ht₁ hrun
      have ht₁' : q.HoldsAt t₁ k' s' := by grind [Stage.slot]
      obtain ⟨t', ht'⟩ := h.ledHeld t₁ k' s' ht₁' hrun
      have hne : t' ≠ t := by grind [Stage.slot]
      exact ⟨t', by grind⟩ }

/-- The state of a key that no call holds is taken out of the queue. -/
lemma forget [DecidableEq K] (h : Inv owner q) (hfree : ∀ t s, q.HoldsAt t k s →
    q.flights k ≠ some s) : Inv owner { q with flights := Function.update q.flights k none } := by
  have hmap : ∀ k' s', Function.update q.flights k none k' = some s' →
      q.flights k' = some s' := by
    intro k' s' hs'
    rw [Function.update_apply] at hs'
    split_ifs at hs'
    exact hs'
  exact {
    ownerMap := fun k' s' hk => h.ownerMap k' s' (hmap k' s' hk)
    ownerHeld := h.ownerHeld
    attached := by
      intro t' k' s' ht'
      have hheld : q.HoldsAt t' k' s' := ht'
      dsimp only
      rw [Function.update_apply]
      split_ifs with heq
      · subst heq
        rcases h.attached t' k' s' hheld with hs | ⟨hdown, -, hnone⟩
        · exact absurd hs (hfree t' s' hheld)
        · exact Or.inr ⟨hdown, rfl, hnone⟩
      · exact h.attached t' k' s' hheld
    same := h.same
    marked := h.marked
    alone := h.alone
    ledMap := fun k' s' hk => h.ledMap k' s' (hmap k' s' hk)
    ledHeld := h.ledHeld }

/-- All states are taken out of the queue after the shutdown. -/
lemma clear (h : Inv owner q) (hdown : q.shutDown = true)
    (hfree : ∀ t t' k s, q.HoldsAt t k s → ¬ q.LooksUp t' k) :
    Inv owner { q with flights := fun _ => none } where
  ownerMap := fun k' s' hk => by cases hk
  ownerHeld := h.ownerHeld
  attached := fun t' k' s' ht' => Or.inr ⟨hdown, rfl, fun t => hfree t' t k' s' ht'⟩
  same := h.same
  marked := h.marked
  alone := h.alone
  ledMap := fun k' s' hk => by cases hk
  ledHeld := h.ledHeld

lemma shutDown (h : Inv owner q) : Inv owner { q with shutDown := true } where
  ownerMap := h.ownerMap
  ownerHeld := h.ownerHeld
  attached := fun t k s ht => (h.attached t k s ht).imp_right fun ⟨_, hs⟩ => ⟨rfl, hs⟩
  same := h.same
  marked := h.marked
  alone := h.alone
  ledMap := h.ledMap
  ledHeld := h.ledHeld

end Inv

/-! ### Steps -/

lemma inv_init (owner : ℕ → K) : Inv owner ({} : JobQueue K) where
  ownerMap := fun k s hk => by cases hk
  ownerHeld := fun t k s ⟨_, ht, _⟩ => by cases ht
  attached := fun t k s ⟨_, ht, _⟩ => by cases ht
  same := fun t t' k s s' ⟨_, ht, _⟩ => by cases ht
  marked := fun t k s ⟨_, ht, _⟩ => by cases ht
  alone := fun t t' k s ⟨_, ht, _⟩ => by cases ht
  ledMap := fun k s hk => by cases hk
  ledHeld := fun t k s ⟨_, ht, _⟩ => by cases ht

lemma not_holdsAt (ht : q.calls t = some ⟨k, stage⟩) (hs : stage.slot = none) :
    ∀ s k', ¬ q.HoldsAt t k' s := by
  rintro s k' ⟨stage', hstage', hslot⟩
  rw [ht] at hstage'
  cases hstage'
  rw [hs] at hslot
  cases hslot

variable [DecidableEq K]

/-- Every step of a call keeps the invariant. -/
lemma inv_advance {q' : JobQueue K} (h : Inv owner q) (ht : q.calls t = some ⟨k, stage⟩)
    (hstep : q.advance t k stage = some q') : ∃ owner', Inv owner' q' := by
  cases stage with
  | called =>
    obtain rfl := Option.some.inj hstep
    refine ⟨owner, h.pass (not_holdsAt ht rfl) ?_ ?_⟩
    · split_ifs <;> rfl
    · intro hlook
      split_ifs at hlook with hdown
      exact Bool.eq_false_iff.mpr hdown
  | checked =>
    simp only [advance] at hstep
    cases hs : q.flights k with
    | none =>
      rw [hs] at hstep
      obtain rfl := Option.some.inj hstep
      exact ⟨_, h.make ht hs⟩
    | some s =>
      rw [hs] at hstep
      obtain rfl := Option.some.inj hstep
      exact ⟨owner, h.find ht hs⟩
  | holding s =>
    have hheld : q.HoldsAt t k s := ⟨_, ht, rfl⟩
    simp only [advance] at hstep
    split_ifs at hstep with hrun
    · obtain rfl := Option.some.inj hstep
      have hlead : ¬ q.LeadsAt t k s := by
        rintro ⟨stage', hstage', -, hleads⟩
        rw [ht] at hstage'
        cases hstage'
        exact hleads
      rw [hrun]
      exact ⟨owner, h.join hheld hlead hrun true⟩
    · obtain rfl := Option.some.inj hstep
      exact ⟨owner, h.lead hheld (Bool.eq_false_iff.mpr hrun) false⟩
  | starting s =>
    obtain rfl := Option.some.inj hstep
    exact ⟨owner, h.goOn ⟨_, ht, rfl, trivial⟩ rfl trivial⟩
  | flying s =>
    obtain rfl := Option.some.inj hstep
    exact ⟨owner, h.goOn ⟨_, ht, rfl, trivial⟩ rfl trivial⟩
  | landed s =>
    have hlead : q.LeadsAt t k s := ⟨_, ht, rfl, trivial⟩
    simp only [advance] at hstep
    split_ifs at hstep with hpend
    · obtain rfl := Option.some.inj hstep
      have hrun := h.marked t k s hlead
      rw [hrun]
      exact ⟨owner, (h.write_pending hrun false).goOn hlead rfl trivial⟩
    · obtain rfl := Option.some.inj hstep
      exact ⟨owner, h.finish hlead _⟩
  | done => cases hstep

/-- Every safe event keeps the invariant. -/
lemma inv_next {q' : JobQueue K} {e : Event K} (h : ∃ owner, Inv owner q) (hsafe : q.Safe e)
    (hnext : q.next e = some q') : ∃ owner, Inv owner q' := by
  obtain ⟨owner, h⟩ := h
  cases e with
  | idle =>
    obtain rfl := Option.some.inj hnext
    exact ⟨owner, h⟩
  | call t k =>
    simp only [next] at hnext
    cases ht : q.calls t with
    | some c => simp [ht] at hnext
    | none =>
      simp only [ht] at hnext
      obtain rfl := Option.some.inj hnext
      refine ⟨owner, h.pass ?_ rfl (by simp)⟩
      rintro s k' ⟨stage, hstage, -⟩
      rw [ht] at hstage
      cases hstage
  | step t =>
    simp only [next] at hnext
    cases ht : q.calls t with
    | none => simp [ht] at hnext
    | some c =>
      simp only [ht] at hnext
      exact inv_advance h ht hnext
  | abort t =>
    simp only [next] at hnext
    split at hnext
    next k s ht =>
      obtain rfl := Option.some.inj hnext
      have hlead : q.LeadsAt t k s := ⟨_, ht, rfl, trivial⟩
      obtain ⟨hmap, honly⟩ := hsafe k s hlead.holdsAt
      exact ⟨owner, h.drop hlead hmap honly⟩
    next => cases hnext
  | cancel k =>
    obtain rfl := Option.some.inj hnext
    unfold cancel
    cases hs : q.flights k with
    | none => exact ⟨owner, h⟩
    | some s =>
      dsimp only
      split_ifs with hrun
      · exact ⟨owner, h⟩
      · refine ⟨owner, h.forget fun t s' ht hs' => ?_⟩
        obtain rfl := Option.some.inj (hs'.symm.trans hs)
        exact hrun (hsafe t s' ht hs')
  | shutDown =>
    obtain rfl := Option.some.inj hnext
    exact ⟨owner, h.shutDown⟩
  | clear =>
    simp only [next] at hnext
    split_ifs at hnext with hdown
    obtain rfl := Option.some.inj hnext
    exact ⟨owner, h.clear hdown hsafe⟩

end JobQueue

end Orchid.Job
