import Orchid.Calendar.Sync

/-!
# Runs of the sync

When no two local events are linked to one uid and no saved event gets lost, in every interleaving
of saves, deletions and pulls.
-/

namespace Orchid.Calendar

/-! ### Who has a uid -/

/-- A local event has a uid by a link, by a save on its way, or as its own id. -/
def Owns (c : LocalCalendar) (saves : List (Text × Text)) (uid id : Text) : Prop :=
  uid ≠ [] ∧ ((∃ l ∈ c.links, l.uid = uid ∧ l.eventId = id) ∨ (id, uid) ∈ saves ∨
    (uid = id ∧ ∃ e ∈ c.events, e.id = id))

/-- The saves on their way, by event and uid. -/
def SyncState.saves (s : SyncState) : List (Text × Text) :=
  s.sending.map (fun t => (t.eventId, t.uid)) ++ s.answered.map fun l => (l.eventId, l.uid)

/-- Every event of the server whose uid a local event has finds the link of that event when its
turn comes, and new ids are new. -/
def CleanRounds (saves : List (Text × Text)) : LocalCalendar → List (PulledEvent × Text) → Prop
  | _, [] => True
  | c, (r, id) :: rest =>
    (∀ id', Owns c saves r.uid id' → ∃ l, c.links.find? (·.isFor r) = some l ∧ l.eventId = id') ∧
      (∀ id', Owns c saves id id' → id' = id) ∧ CleanRounds saves (c.mergeOne r id) rest

/-- Whenever an event that is saved, or on its way, is linked and lies in the window of the merge,
its resource was there and in the window of the pull when this was answered. -/
def CleanDrops (s : SyncState) (c : LocalCalendar) (w : Window) (answer : Answer) : Prop :=
  ∀ p ∈ s.kept, ∀ l ∈ c.links, l.eventId = p.1 → ∀ e, c.events.find? (·.id = l.eventId) = some e →
    w.contains e.details.date = true → l.uid ≠ [] →
      ∃ details, answer.server l.uid = some details ∧
        answer.window.contains details.date = true

/-- The steps that keep the calendar in order. -/
def CleanSync (s : SyncState) : SyncStep → Prop
  | .save id _ _ _ => ∀ id', Owns s.here s.saves id id' → id' = id
  | .merge i ids window _ => ∀ answer ∈ s.pulls[i]?,
      CleanRounds s.saves s.here (answer.pull.events.zip ids) ∧
        CleanDrops s (s.here.mergeAll (answer.pull.events.zip ids)) window answer
  | _ => True

/-- No two events are linked to one uid, and every event whose PUT succeeded and that nobody has
deleted is there. -/
structure InOrder (s : SyncState) : Prop where
  links : ∀ l ∈ s.here.links, ∀ k ∈ s.here.links, l.uid = k.uid → l.uid ≠ [] →
    l.eventId = k.eventId
  saved : ∀ p ∈ s.saved, ∃ e ∈ s.here.events, e.id = p.1

/-! ### Lists -/

lemma mem_updateFirst {α : Type} {p : α → Bool} {f : α → α} {xs : List α} {y : α}
    (h : y ∈ updateFirst p f xs) : y ∈ xs ∨ ∃ x, xs.find? p = some x ∧ y = f x := by
  induction xs with
  | nil => cases h
  | cons x xs ih =>
    rw [updateFirst] at h
    by_cases hx : p x = true
    · rw [if_pos hx] at h
      rcases List.mem_cons.mp h with rfl | h
      · exact .inr ⟨x, List.find?_cons_of_pos hx, rfl⟩
      · exact .inl (List.mem_cons_of_mem x h)
    · rw [if_neg hx] at h
      rcases List.mem_cons.mp h with rfl | h
      · exact .inl List.mem_cons_self
      · rw [List.find?_cons_of_neg hx]
        exact (ih h).imp_left (List.mem_cons_of_mem x)

/-- A change that keeps ids leaves every event there. -/
lemma exists_mem_updateFirst {p : LocalEvent → Bool} {f : LocalEvent → LocalEvent}
    (hf : ∀ e, (f e).id = e.id) {xs : List LocalEvent} {id : Text} :
    (∃ e ∈ updateFirst p f xs, e.id = id) ↔ ∃ e ∈ xs, e.id = id := by
  induction xs with
  | nil => exact Iff.rfl
  | cons x xs ih =>
    rw [updateFirst]
    split_ifs with hx
    · rw [List.exists_mem_cons_iff, List.exists_mem_cons_iff, hf]
    · rw [List.exists_mem_cons_iff, List.exists_mem_cons_iff, ih]

/-! ### Owners -/

variable {c c' : LocalCalendar} {saves saves' : List (Text × Text)} {uid id id' : Text}

/-- At most one event has a uid. -/
def OneOwner (c : LocalCalendar) (saves : List (Text × Text)) : Prop :=
  ∀ uid id id', Owns c saves uid id → Owns c saves uid id' → id = id'

lemma Owns.mono (h : Owns c' saves' uid id)
    (hlinks : ∀ l ∈ c'.links, l.uid ≠ [] → Owns c saves l.uid l.eventId)
    (hsaves : ∀ p ∈ saves', p.2 ≠ [] → Owns c saves p.2 p.1)
    (hevents : ∀ e ∈ c'.events, ∃ f ∈ c.events, f.id = e.id) : Owns c saves uid id := by
  obtain ⟨hne, ⟨l, hl, rfl, rfl⟩ | hp | ⟨rfl, e, he, hid⟩⟩ := h
  · exact hlinks l hl hne
  · exact hsaves _ hp hne
  · obtain ⟨f, hf, hfe⟩ := hevents e he
    exact ⟨hne, .inr (.inr ⟨rfl, f, hf, hfe.trans hid⟩)⟩

lemma owns_link {l : CalDavLink} (h : l ∈ c.links) (hne : l.uid ≠ []) :
    Owns c saves l.uid l.eventId := ⟨hne, .inl ⟨l, h, rfl, rfl⟩⟩

lemma owns_save {p : Text × Text} (h : p ∈ saves) (hne : p.2 ≠ []) : Owns c saves p.2 p.1 :=
  ⟨hne, .inr (.inl h)⟩

lemma OneOwner.mono (h : OneOwner c saves)
    (hlinks : ∀ l ∈ c'.links, l.uid ≠ [] → Owns c saves l.uid l.eventId)
    (hsaves : ∀ p ∈ saves', p.2 ≠ [] → Owns c saves p.2 p.1)
    (hevents : ∀ e ∈ c'.events, ∃ f ∈ c.events, f.id = e.id) : OneOwner c' saves' :=
  fun uid id id' h₁ h₂ =>
    h uid id id' (h₁.mono hlinks hsaves hevents) (h₂.mono hlinks hsaves hevents)

/-- Fewer links and events have no more owners. -/
lemma OneOwner.of_subset (h : OneOwner c saves) (hlinks : c'.links ⊆ c.links)
    (hevents : ∀ e ∈ c'.events, ∃ f ∈ c.events, f.id = e.id) : OneOwner c' saves :=
  h.mono (fun _ hl hne => owns_link (hlinks hl) hne) (fun _ hp hne => owns_save hp hne) hevents

/-- One more owner of a uid, if whoever has it is the same. -/
lemma OneOwner.insert (h : OneOwner c saves) (newUid newId : Text)
    (hnew : ∀ id, Owns c saves newUid id → id = newId)
    (howns : ∀ uid id, Owns c' saves' uid id → Owns c saves uid id ∨ (uid = newUid ∧ id = newId)) :
    OneOwner c' saves' := by
  intro uid id id' h₁ h₂
  rcases howns uid id h₁ with h₁ | ⟨rfl, rfl⟩
  · rcases howns uid id' h₂ with h₂ | ⟨rfl, rfl⟩
    · exact h uid id id' h₁ h₂
    · exact hnew id h₁
  · rcases howns uid id' h₂ with h₂ | ⟨-, rfl⟩
    · exact (hnew id' h₂).symm
    · rfl

/-! ### Merging -/

lemma exists_event_mergeOne (r : PulledEvent) (newId : Text) (h : ∃ e ∈ c.events, e.id = id) :
    ∃ e ∈ (c.mergeOne r newId).events, e.id = id := by
  unfold LocalCalendar.mergeOne
  cases c.links.find? (·.isFor r) with
  | some link =>
    exact (exists_mem_updateFirst (by intro; rfl)).mpr h
  | none =>
    obtain ⟨e, he, hid⟩ := h
    exact ⟨e, List.mem_append_left _ he, hid⟩

lemma exists_event_mergeAll {rounds : List (PulledEvent × Text)}
    (h : ∃ e ∈ c.events, e.id = id) : ∃ e ∈ (c.mergeAll rounds).events, e.id = id := by
  induction rounds generalizing c with
  | nil => exact h
  | cons round rounds ih => exact ih (exists_event_mergeOne round.1 round.2 h)

/-- A clean round keeps one owner for each uid. -/
lemma OneOwner.mergeOne (h : OneOwner c saves) {r : PulledEvent} {newId : Text}
    (hfinds : ∀ id', Owns c saves r.uid id' →
      ∃ l, c.links.find? (·.isFor r) = some l ∧ l.eventId = id')
    (hnew : ∀ id', Owns c saves newId id' → id' = newId) :
    OneOwner (c.mergeOne r newId) saves := by
  unfold LocalCalendar.mergeOne
  cases hfind : c.links.find? (·.isFor r) with
  | some link =>
    refine h.insert r.uid link.eventId (fun id hid => ?_)
      (fun uid id hid => ?_)
    · obtain ⟨l, hl, rfl⟩ := hfinds id hid
      rw [Option.some.inj (hfind.symm.trans hl)]
    · obtain ⟨hne, ⟨l, hl, rfl, rfl⟩ | hp | ⟨rfl, he⟩⟩ := hid
      · rcases mem_updateFirst hl with hl | ⟨k, hk, rfl⟩
        · exact .inl (owns_link hl hne)
        · obtain rfl := Option.some.inj (hfind.symm.trans hk)
          exact .inr ⟨rfl, rfl⟩
      · exact .inl (owns_save hp hne)
      · exact .inl ⟨hne, .inr (.inr ⟨rfl, (exists_mem_updateFirst (by intro; rfl)).mp he⟩)⟩
  | none =>
    have hnobody : ∀ id', ¬ Owns c saves r.uid id' := fun id' hid => by
      obtain ⟨l, hl, -⟩ := hfinds id' hid
      rw [hfind] at hl
      cases hl
    have hadded : OneOwner ⟨c.events, c.links ++ [⟨newId, r.href, r.etag, r.uid⟩]⟩ saves := by
      refine h.insert r.uid newId (fun id hid => absurd hid (hnobody id))
        (fun uid id hid => ?_)
      obtain ⟨hne, ⟨l, hl, rfl, rfl⟩ | hp | he⟩ := hid
      · rcases List.mem_append.mp hl with hl | hl
        · exact .inl (owns_link hl hne)
        · obtain rfl := List.mem_singleton.mp hl
          exact .inr ⟨rfl, rfl⟩
      · exact .inl (owns_save hp hne)
      · exact .inl ⟨hne, .inr (.inr he)⟩
    refine hadded.insert newId newId (fun id hid => ?_)
      (fun uid id hid => ?_)
    · obtain ⟨hne, ⟨l, hl, huid, rfl⟩ | hp | he⟩ := hid
      · rcases List.mem_append.mp hl with hl | hl
        · exact hnew _ (huid ▸ owns_link hl (huid ▸ hne))
        · rw [List.mem_singleton.mp hl]
      · exact hnew id (owns_save hp hne)
      · exact hnew id ⟨hne, .inr (.inr he)⟩
    · obtain ⟨hne, hl | hp | ⟨rfl, e, he, hid⟩⟩ := hid
      · exact .inl ⟨hne, .inl hl⟩
      · exact .inl (owns_save hp hne)
      · rcases List.mem_append.mp he with he | he
        · exact .inl ⟨hne, .inr (.inr ⟨rfl, e, he, hid⟩)⟩
        · rw [List.mem_singleton.mp he] at hid
          exact .inr ⟨hid.symm, hid.symm⟩

lemma OneOwner.mergeAll {rounds : List (PulledEvent × Text)} (h : OneOwner c saves)
    (hclean : CleanRounds saves c rounds) : OneOwner (c.mergeAll rounds) saves := by
  induction rounds generalizing c with
  | nil => exact h
  | cons round rounds ih => exact ih (h.mergeOne hclean.1 hclean.2.1) hclean.2.2

lemma exists_event_normalize {date : Text} :
    (∃ e ∈ (c.normalize date).events, e.id = id) ↔ ∃ e ∈ c.events, e.id = id := by
  constructor
  · rintro ⟨e, he, rfl⟩
    obtain ⟨f, hf, rfl⟩ := List.mem_map.mp he
    exact ⟨f, hf, rfl⟩
  · rintro ⟨e, he, rfl⟩
    exact ⟨e.normalize date, List.mem_map_of_mem he, rfl⟩

lemma OneOwner.normalize (h : OneOwner c saves) (date : Text) :
    OneOwner (c.normalize date) saves :=
  h.of_subset (fun _ hl => List.mem_of_mem_filter hl)
    fun e he => exists_event_normalize.mp ⟨e, he, rfl⟩

lemma OneOwner.retain (h : OneOwner c saves) (w : Window) (p : Pull) :
    OneOwner (c.retain w p) saves :=
  h.of_subset (fun _ hl => List.mem_of_mem_filter hl)
    fun e he => ⟨e, List.mem_of_mem_filter he, rfl⟩

/-- A clean merge leaves every event there that is saved or on its way. -/
lemma exists_event_retain {s : SyncState} {c : LocalCalendar} {w : Window} {answer : Answer}
    (hclean : CleanDrops s c w answer)
    (hknows : ∀ uid details, answer.server uid = some details →
      answer.window.contains details.date = true → uid ∈ answer.pull.uids)
    {p : Text × Text} (hp : p ∈ s.kept) (h : ∃ e ∈ c.events, e.id = p.1) :
    ∃ e ∈ (c.retain w answer.pull).events, e.id = p.1 := by
  obtain ⟨e, he, hid⟩ := h
  refine ⟨e, List.mem_filter.mpr ⟨he, ?_⟩, hid⟩
  rw [Bool.not_eq_true', Bool.eq_false_iff]
  intro hdrop
  obtain ⟨dropId, hdropId, heq⟩ := List.any_eq_true.mp hdrop
  obtain ⟨l, hl, rfl⟩ := List.mem_map.mp hdropId
  have hle : l.eventId = e.id := of_decide_eq_true heq
  obtain ⟨hl, hdrops⟩ := List.mem_filter.mp hl
  unfold LocalCalendar.drops at hdrops
  cases hfind : c.events.find? (·.id = l.eventId) with
  | none =>
    rw [hfind] at hdrops
    cases hdrops
  | some event =>
    rw [hfind] at hdrops
    obtain ⟨hdrops, hne⟩ := Bool.and_eq_true_iff.mp hdrops
    obtain ⟨hwindow, hunknown⟩ := Bool.and_eq_true_iff.mp hdrops
    obtain ⟨details, hserver, hthen⟩ :=
      hclean p hp l hl (hle.trans hid) event hfind hwindow (of_decide_eq_true hne)
    have hseen : answer.pull.uids.any (fun uid => uid = l.uid) = true :=
      List.any_eq_true.mpr ⟨l.uid, hknows l.uid details hserver hthen, decide_eq_true rfl⟩
    rw [hseen] at hunknown
    exact Bool.false_ne_true hunknown

/-! ### The invariant -/

/-- Every uid has one owner, the events that are saved or on their way are there, and the pulls
know the resources of their windows. -/
structure SyncInv (s : SyncState) : Prop where
  owner : OneOwner s.here s.saves
  present : ∀ p ∈ s.kept, ∃ e ∈ s.here.events, e.id = p.1
  saved : s.saved ⊆ s.kept
  knows : ∀ answer ∈ s.pulls, ∀ uid details, answer.server uid = some details →
    answer.window.contains details.date = true → uid ∈ answer.pull.uids

variable {s s' : SyncState}

lemma SyncInv.inOrder (h : SyncInv s) : InOrder s where
  links l hl k hk huid hne :=
    h.owner l.uid l.eventId k.eventId (owns_link hl hne) (huid ▸ owns_link hk (huid ▸ hne))
  saved p hp := h.present p (h.saved hp)

lemma syncInv_new (server : Server) : SyncInv (.new server) where
  owner := by
    rintro uid id id' ⟨-, ⟨l, hl, -⟩ | hp | ⟨-, e, he, -⟩⟩ -
    · cases hl
    · cases hp
    · cases he
  present p hp := by cases hp
  saved := List.nil_subset _
  knows answer ha := by cases ha

/-- The deletions on their way are no matter of the invariant. -/
lemma SyncInv.deletions (h : SyncInv s) (deleting : List CalDavLink) (deleted : List Text) :
    SyncInv { s with deleting, deleted } := ⟨h.owner, h.present, h.saved, h.knows⟩

/-- A change of the server concerns only what counts as deleted. -/
lemma SyncInv.setServer (h : SyncInv s) (server : Server) : SyncInv (s.setServer server) where
  owner := h.owner
  present p hp := h.present p (List.mem_of_mem_filter hp)
  saved p hp := by
    obtain ⟨hp, hkeep⟩ := List.mem_filter.mp hp
    exact List.mem_filter.mpr ⟨h.saved hp, hkeep⟩
  knows := h.knows

lemma SyncInv.removeLocal (h : SyncInv s) (id : Text) : SyncInv (s.removeLocal id) where
  owner := h.owner.of_subset (fun _ hl => List.mem_of_mem_filter hl)
    fun e he => ⟨e, List.mem_of_mem_filter he, rfl⟩
  present p hp := by
    obtain ⟨hp, hne⟩ := List.mem_filter.mp hp
    obtain ⟨e, he, hid⟩ := h.present p hp
    exact ⟨e, List.mem_filter.mpr ⟨he, hid ▸ hne⟩, hid⟩
  saved p hp := by
    obtain ⟨hp, hne⟩ := List.mem_filter.mp hp
    exact List.mem_filter.mpr ⟨h.saved hp, hne⟩
  knows := h.knows

/-- A saved event is there, besides those that were. -/
lemma exists_event_saved {events : List LocalEvent} {id id' : Text} (color : U8)
    (details : CalendarEvent) :
    (∃ e ∈ (if events.any (·.id = id) then
        updateFirst (·.id = id) (fun e => { e with color, details }) events
      else events ++ [⟨id, color, details⟩]), e.id = id') ↔
      (∃ e ∈ events, e.id = id') ∨ id' = id := by
  split_ifs with hany
  · rw [exists_mem_updateFirst (by intro; rfl)]
    refine (or_iff_left_of_imp fun heq => ?_).symm
    obtain ⟨e, he, hid⟩ := List.any_eq_true.mp hany
    exact ⟨e, he, heq ▸ of_decide_eq_true hid⟩
  · constructor
    · rintro ⟨e, he, rfl⟩
      rcases List.mem_append.mp he with he | he
      · exact .inl ⟨e, he, rfl⟩
      · exact .inr (congrArg LocalEvent.id (List.mem_singleton.mp he))
    · rintro (⟨e, he, rfl⟩ | rfl)
      · exact ⟨e, List.mem_append_left _ he, rfl⟩
      · exact ⟨⟨id', color, details⟩, List.mem_append_right _ List.mem_cons_self, rfl⟩

/-- A save makes its event the owner of its id. -/
lemma SyncInv.save (h : SyncInv s) {id : Text} (color : U8) (details : CalendarEvent) (date : Text)
    (hfree : ∀ id', Owns s.here s.saves id id' → id' = id)
    (hstep : syncStep s (.save id color details date) = some s') : SyncInv s' := by
  obtain rfl := Option.some.inj hstep
  refine ⟨OneOwner.normalize ?_ date, fun p hp => ?_, h.saved, h.knows⟩
  · refine h.owner.insert id id hfree fun uid id' hid => ?_
    obtain ⟨hne, hl | hp | ⟨rfl, he⟩⟩ := hid
    · exact .inl ⟨hne, .inl hl⟩
    · exact .inl (owns_save hp hne)
    · rcases (exists_event_saved color details).mp he with he | rfl
      · exact .inl ⟨hne, .inr (.inr ⟨rfl, he⟩)⟩
      · exact .inr ⟨rfl, rfl⟩
  · exact exists_event_normalize.mpr
      ((exists_event_saved color details).mpr (.inl (h.present p hp)))

lemma mem_saves_link {s : SyncState} {l : CalDavLink} (h : l ∈ s.answered) :
    (l.eventId, l.uid) ∈ s.saves := List.mem_append_right _ (List.mem_map_of_mem h)

/-- A save uses the uid of its event's link, or the event's id, so it is no new owner. -/
lemma SyncInv.pushRead (h : SyncInv s) {id : Text}
    (hstep : syncStep s (.pushRead id) = some s') : SyncInv s' := by
  obtain ⟨event, hevent, rfl⟩ := Option.map_eq_some_iff.mp hstep
  dsimp only
  split_ifs with hday
  · exact h
  · have hid : event.id = id := by simpa using List.find?_some hevent
    have hthere : ∃ e ∈ s.here.events, e.id = id := ⟨event, List.mem_of_find?_eq_some hevent, hid⟩
    set uid := (((s.here.links.find? (·.eventId = id)).map CalDavLink.uid).filter
      (· ≠ [])).getD event.id with huid
    have howns : uid ≠ [] → Owns s.here s.saves uid id := by
      intro hne
      cases hlink : ((s.here.links.find? (·.eventId = id)).map CalDavLink.uid).filter (· ≠ []) with
      | none =>
        rw [hlink, Option.getD_none, hid] at huid
        exact ⟨hne, .inr (.inr ⟨huid, hthere⟩)⟩
      | some u =>
        rw [hlink, Option.getD_some] at huid
        obtain ⟨l, hl, rfl⟩ := Option.map_eq_some_iff.mp (Option.filter_eq_some_iff.mp hlink).1
        have hle : l.eventId = id := by simpa using List.find?_some hl
        exact ⟨hne, .inl ⟨l, List.mem_of_find?_eq_some hl, huid.symm, hle⟩⟩
    refine ⟨h.owner.mono (fun l hl hne => owns_link hl hne) (fun p hp hne => ?_)
      (fun e he => ⟨e, he, rfl⟩), fun p hp => ?_, fun p hp => List.mem_append_left _ (h.saved hp),
      h.knows⟩
    · have hp' : p ∈ s.saves ∨ p = (id, uid) := by
        simp only [SyncState.saves, List.map_append, List.map_cons, List.map_nil, List.mem_append,
          List.mem_singleton] at hp ⊢
        tauto
      rcases hp' with hp | rfl
      · exact owns_save hp hne
      · exact howns hne
    · rcases List.mem_append.mp hp with hp | hp
      · exact h.present p hp
      · rw [List.mem_singleton.mp hp]
        exact hthere

/-- The answer of a PUT changes no owner. -/
lemma SyncInv.put (h : SyncInv s) {i : ℕ} {accepted : Bool} {href etag : Text}
    (hstep : syncStep s (.put i accepted href etag) = some s') : SyncInv s' := by
  obtain ⟨task, htask, rfl⟩ := Option.map_eq_some_iff.mp hstep
  have hsending : (task.eventId, task.uid) ∈ s.saves :=
    List.mem_append_left _ (List.mem_map_of_mem (f := fun t : Sending => (t.eventId, t.uid))
      (List.mem_of_getElem? htask))
  have hrest : ∀ p ∈ (s.sending.eraseIdx i).map (fun t => (t.eventId, t.uid)), p ∈ s.saves := by
    intro p hp
    obtain ⟨t, ht, rfl⟩ := List.mem_map.mp hp
    exact List.mem_append_left _ (List.mem_map_of_mem (f := fun t : Sending => (t.eventId, t.uid))
      (List.mem_of_mem_eraseIdx ht))
  dsimp only
  split_ifs with haccepted
  · refine ⟨h.owner.mono (fun l hl hne => owns_link hl hne) (fun p hp hne => owns_save ?_ hne)
      (fun e he => ⟨e, he, rfl⟩), h.present, fun p hp => ?_, h.knows⟩
    · rcases List.mem_append.mp hp with hp | hp
      · exact hrest p hp
      · obtain ⟨l, hl, rfl⟩ := List.mem_map.mp hp
        rcases List.mem_append.mp hl with hl | hl
        · exact mem_saves_link hl
        · rw [List.mem_singleton.mp hl]
          exact hsending
    · exact (List.mem_append.mp hp).elim (fun hp => h.saved hp) List.mem_of_mem_filter
  · refine ⟨h.owner.mono (fun l hl hne => owns_link hl hne) (fun p hp hne => owns_save ?_ hne)
      (fun e he => ⟨e, he, rfl⟩), h.present, h.saved, h.knows⟩
    rcases List.mem_append.mp hp with hp | hp
    · exact hrest p hp
    · exact List.mem_append_right _ hp

/-- Recording a link turns an owner by a save into one by a link. -/
lemma SyncInv.link (h : SyncInv s) {i : ℕ} (hstep : syncStep s (.link i) = some s') :
    SyncInv s' := by
  obtain ⟨link, hlink, rfl⟩ := Option.map_eq_some_iff.mp hstep
  have hmem := List.mem_of_getElem? hlink
  have howns : link.uid ≠ [] → Owns s.here s.saves link.uid link.eventId := fun hne =>
    owns_save (mem_saves_link hmem) hne
  refine ⟨h.owner.mono (fun l hl hne => ?_) (fun p hp hne => owns_save ?_ hne)
    (fun e he => ⟨e, he, rfl⟩), h.present, h.saved, h.knows⟩
  · dsimp only at hl
    split_ifs at hl
    · rcases mem_updateFirst hl with hl | ⟨k, hk, rfl⟩
      · exact owns_link hl hne
      · have hid : k.eventId = link.eventId := by simpa using List.find?_some hk
        dsimp only at hne ⊢
        rw [hid]
        exact howns hne
    · rcases List.mem_append.mp hl with hl | hl
      · exact owns_link hl hne
      · rw [List.mem_singleton.mp hl] at hne ⊢
        exact howns hne
  · rcases List.mem_append.mp hp with hp | hp
    · exact List.mem_append_left _ hp
    · obtain ⟨l, hl, rfl⟩ := List.mem_map.mp hp
      exact mem_saves_link (List.mem_of_mem_eraseIdx hl)

/-- A clean merge keeps the calendar in order. -/
lemma SyncInv.merge (h : SyncInv s) {i : ℕ} {ids : List Text} {window : Window} {date : Text}
    (hclean : CleanSync s (.merge i ids window date))
    (hstep : syncStep s (.merge i ids window date) = some s') : SyncInv s' := by
  obtain ⟨answer, hanswer, rfl⟩ := Option.map_eq_some_iff.mp hstep
  obtain ⟨hrounds, hdrops⟩ := hclean answer hanswer
  have hknows := h.knows answer (List.mem_of_getElem? hanswer)
  refine ⟨((h.owner.mergeAll hrounds).retain window answer.pull).normalize date, fun p hp => ?_,
    h.saved, fun a ha => h.knows a (List.mem_of_mem_eraseIdx ha)⟩
  exact exists_event_normalize.mpr
    (exists_event_retain hdrops hknows hp (exists_event_mergeAll (h.present p hp)))

/-- A clean step keeps the invariant. -/
lemma SyncInv.step (h : SyncInv s) {a : SyncStep} (hpossible : a.Possible s)
    (hclean : CleanSync s a) (hstep : syncStep s a = some s') : SyncInv s' := by
  cases a with
  | save id color details date => exact h.save color details date hclean hstep
  | pushRead id => exact h.pushRead hstep
  | put i accepted href etag => exact h.put hstep
  | link i => exact h.link hstep
  | pull p window =>
    obtain rfl := Option.some.inj hstep
    refine ⟨h.owner, h.present, h.saved, fun answer ha => ?_⟩
    rcases List.mem_append.mp ha with ha | ha
    · exact h.knows answer ha
    · rw [List.mem_singleton.mp ha]
      exact hpossible
  | merge i ids window date => exact h.merge hclean hstep
  | deleteRead id =>
    simp only [syncStep] at hstep
    cases hlink : s.here.links.find? (·.eventId = id) with
    | none =>
      rw [hlink] at hstep
      obtain rfl := Option.some.inj hstep
      exact h.removeLocal id
    | some link =>
      rw [hlink] at hstep
      dsimp only at hstep
      split_ifs at hstep
      · obtain rfl := Option.some.inj hstep
        exact h.deletions _ _
      · obtain rfl := Option.some.inj hstep
        exact h.deletions _ _
  | deleteRemote i accepted =>
    obtain ⟨link, -, rfl⟩ := Option.map_eq_some_iff.mp hstep
    dsimp only
    split_ifs
    · exact (h.deletions _ _).setServer _
    · exact h.deletions _ _
  | deleteLocal i =>
    obtain ⟨id, -, rfl⟩ := Option.map_eq_some_iff.mp hstep
    exact (h.deletions _ _).removeLocal id
  | others server =>
    obtain rfl := Option.some.inj hstep
    exact h.setServer server

/-- In every run of clean steps no two events are linked to one uid, and every saved event that
nobody has deleted is there. -/
theorem inOrder_of_clean (h : SyncReached CleanSync s) : InOrder s := by
  have hinv : SyncInv s := by
    induction h with
    | new server => exact syncInv_new server
    | step _ hpossible hclean hstep ih => exact ih.step hpossible hclean hstep
  exact hinv.inOrder

/-- A meeting on a day of October. -/
def meeting : CalendarEvent where
  title := "Meeting".toList
  date := "2026-10-03".toList
  allDay := false
  startMinutes := 540
  endMinutes := 600
  notes := []

/-- The year of the meeting. -/
def meetingYear : Window := ⟨⟨2026, 1, 1, by decide⟩, ⟨2027, 1, 1, by decide⟩⟩

/-- A new event is saved, linked, pulled and merged. -/
theorem inOrder_of_clean_meeting :
    ∃ s : SyncState, s.saved = [("m".toList, "m".toList)] ∧ s.here.links.length = 1 ∧
      InOrder s := by
  have hfree : CleanSync (.new fun _ => none) (.save "m".toList 0 meeting []) := by
    rintro id' ⟨-, ⟨l, hl, -⟩ | hp | ⟨-, e, he, -⟩⟩
    · cases hl
    · cases hp
    · cases he
  have h₁ := SyncReached.step (a := .save "m".toList 0 meeting []) (.new fun _ => none) trivial
    hfree rfl
  have h₂ := h₁.step (a := .pushRead "m".toList) trivial trivial rfl
  have h₃ := h₂.step (a := .put 0 true "h".toList []) trivial trivial rfl
  have h₄ := h₃.step (a := .link 0) trivial trivial rfl
  have h₅ := h₄.step (a := .pull ⟨[], ["m".toList]⟩ meetingYear) (by
    intro uid details hserver _
    by_contra hne
    have hother : uid ≠ "m".toList := fun heq => hne (heq ▸ List.mem_singleton_self _)
    exact Option.some_ne_none _ (hserver.symm.trans (Function.update_of_ne hother _ _))) trivial rfl
  have h₆ := h₅.step (a := .merge 0 [] meetingYear []) (by
    intro answer hanswer
    obtain rfl := Option.some.inj hanswer
    exact Nat.le_refl 0) (by
    intro answer hanswer
    obtain rfl := Option.some.inj hanswer
    refine ⟨trivial, fun p _ l hl _ _ _ _ _ => ?_⟩
    obtain rfl := List.mem_singleton.mp hl
    exact ⟨meeting, rfl, rfl⟩) rfl
  exact ⟨_, rfl, rfl, inOrder_of_clean h₆⟩

/-- A merge whose pull was answered before the PUT takes the saved event away. -/
theorem not_inOrder : ¬ ∀ s : SyncState, SyncReached (fun _ _ => True) s → InOrder s := by
  intro h
  have h₁ : SyncReached (fun _ _ => True) _ :=
    .step (a := .save "m".toList 0 meeting []) (.new fun _ => none) trivial trivial rfl
  have h₂ := h₁.step (a := .pushRead "m".toList) trivial trivial rfl
  have h₃ := h₂.step (a := .pull ⟨[], []⟩ meetingYear)
    (fun _ _ hserver => absurd hserver (Option.some_ne_none _).symm) trivial rfl
  have h₄ := h₃.step (a := .put 0 true "h".toList []) trivial trivial rfl
  have h₅ := h₄.step (a := .link 0) trivial trivial rfl
  have h₆ := h₅.step (a := .merge 0 [] meetingYear []) (by
    intro answer hanswer
    obtain rfl := Option.some.inj hanswer
    exact Nat.le_refl 0) trivial rfl
  obtain ⟨e, he, -⟩ := (h _ h₆).saved ("m".toList, "m".toList) (List.mem_singleton_self _)
  exact List.not_mem_nil he

end Orchid.Calendar
