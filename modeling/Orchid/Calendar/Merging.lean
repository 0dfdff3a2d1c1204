import Mathlib.Data.Fintype.EquivFin
import Mathlib.Data.List.Nodup
import Orchid.Calendar.SyncRuns

/-!
# Merging a pull

What a calendar looks like after `merge`: where the events of the pull stand, which local events
are left alone, and that the same pull changes nothing when it is merged again. As long as no event
takes over the link of another one, every round leaves the others' links and events as they are.
-/

namespace Orchid.Calendar

/-! ### Merging and what it should give -/

/-- `merge`; `ids` are the new ids, in the order in which they are needed. -/
def LocalCalendar.merge (c : LocalCalendar) (p : Pull) (ids : List Text) (w : Window) :
    LocalCalendar :=
  (c.mergeAll (p.events.zip ids)).retain w p

/-- The link of a pulled event to a local one. -/
def PulledEvent.link (r : PulledEvent) (id : Text) : CalDavLink := ⟨id, r.href, r.etag, r.uid⟩

/-- The link is the event's: it has its uid, and where this is empty its resource. -/
def PulledEvent.Names (r : PulledEvent) (l : CalDavLink) : Prop :=
  l.uid = r.uid ∧ (r.uid = [] → l.href = r.href)

/-- Ids are distinct, no event has two links and every link has its event. -/
structure LocalCalendar.Tidy (c : LocalCalendar) : Prop where
  ids : (c.events.map LocalEvent.id).Nodup
  eventIds : (c.links.map CalDavLink.eventId).Nodup
  linked : ∀ l ∈ c.links, ∃ e ∈ c.events, e.id = l.eventId

/-- What `merge` should give. -/
structure Merged (c c' : LocalCalendar) (p : Pull) (w : Window) : Prop where
  /-- every event of the pull has one link, with its data, and so has the one event of this -/
  represented : ∀ r ∈ p.events, ∃ e ∈ c'.events, e.details = r.details ∧
    r.link e.id ∈ c'.links ∧ ∀ l ∈ c'.links, r.Names l → l = r.link e.id
  /-- events without a link are untouched -/
  untouched : ∀ e ∈ c.events, (∀ l ∈ c.links, l.eventId ≠ e.id) → e ∈ c'.events
  tidy : c'.Tidy
  /-- the same pull changes nothing -/
  again : ∀ ids, ids.length = p.events.length → c'.merge p ids w = c'

instance (r : PulledEvent) (l : CalDavLink) : Decidable (r.Names l) :=
  inferInstanceAs (Decidable (_ ∧ _))

/-! ### When it does -/

/-- The events of a pull can be told apart: each has a uid or a resource, and no link is that of
two of them. -/
structure Pull.Distinct (p : Pull) : Prop where
  named : ∀ r ∈ p.events, r.uid ≠ [] ∨ r.href ≠ []
  alone : ∀ r ∈ p.events, ∀ r' ∈ p.events, r.Names (r'.link []) → r = r'

/-- The round of an event takes no other one's link, now or when the pull is merged again: the link
that is found is the event's or that of no event of the pull, and no event of the pull is going to
have a link in front of it that is found for this one. -/
structure Leaves (p : Pull) (c : LocalCalendar) (r : PulledEvent) : Prop where
  found : ∀ l, c.links.find? (·.isFor r) = some l → r.Names l ∨ ∀ r' ∈ p.events, ¬ r'.Names l
  front : ∀ l ∈ c.links.takeWhile (fun l => !l.isFor r), ∀ r' ∈ p.events, r'.Names l →
    (r'.link []).isFor r = false

/-- The first link that is found for an event is the one that it has, if it has any. -/
def LocalCalendar.First (c : LocalCalendar) (r : PulledEvent) : Prop :=
  ∀ l ∈ c.links, r.Names l → c.links.find? (·.isFor r) = some l

/-- Every round of the loop has a property of the calendar before it and its event. -/
def EachRound (P : LocalCalendar → PulledEvent → Prop) :
    LocalCalendar → List (PulledEvent × Text) → Prop
  | _, [] => True
  | c, round :: rounds => P c round.1 ∧ EachRound P (c.mergeOne round.1 round.2) rounds

/-! ### Lists -/

section UpdateFirst

variable {α β : Type} {q p : α → Bool} {f : α → α} {xs as bs : List α} {x y : α}

lemma updateFirst_append_cons (has : ∀ a ∈ as, q a = false) (hx : q x = true) :
    updateFirst q f (as ++ x :: bs) = as ++ f x :: bs := by
  induction as with
  | nil => rw [List.nil_append, updateFirst, if_pos hx, List.nil_append]
  | cons a as ih =>
    obtain ⟨ha, has⟩ := List.forall_mem_cons.mp has
    rw [List.cons_append, updateFirst, if_neg (by simp [ha]), ih has, List.cons_append]

/-- The first element with a property, and what stands around it. -/
lemma exists_of_find? (hx : xs.find? q = some x) :
    ∃ as bs, xs = as ++ x :: bs ∧ (∀ a ∈ as, q a = false) ∧ q x = true := by
  obtain ⟨hq, as, bs, rfl, has⟩ := List.find?_eq_some_iff_append.mp hx
  exact ⟨as, bs, rfl, fun a ha => by simpa using has a ha, hq⟩

lemma find?_append_cons (has : ∀ a ∈ as, q a = false) (hx : q x = true) :
    (as ++ x :: bs).find? q = some x :=
  List.find?_eq_some_iff_append.mpr ⟨hx, as, bs, rfl, fun a ha => by simp [has a ha]⟩

lemma takeWhile_append_cons (has : ∀ a ∈ as, q a = false) (hx : q x = true) :
    (as ++ x :: bs).takeWhile (fun a => !q a) = as := by
  rw [List.takeWhile_append_of_pos (by simpa using has), List.takeWhile_cons_of_neg (by simp [hx]),
    List.append_nil]

/-- Two places in a list. -/
lemma append_cons_cases {as' bs' : List α} (h : as ++ x :: bs = as' ++ y :: bs') :
    (∃ m, as' = as ++ x :: m ∧ bs = m ++ y :: bs') ∨ (as = as' ∧ x = y ∧ bs = bs') ∨
      ∃ m, as = as' ++ y :: m ∧ bs' = m ++ x :: bs := by
  rcases List.append_eq_append_iff.mp h with ⟨m, rfl, hm⟩ | ⟨m, rfl, hm⟩
  · rcases m with - | ⟨z, m⟩
    · obtain ⟨rfl, rfl⟩ := List.cons.inj hm
      exact .inr (.inl ⟨(List.append_nil _).symm, rfl, rfl⟩)
    · obtain ⟨rfl, rfl⟩ := List.cons.inj hm
      exact .inl ⟨m, rfl, rfl⟩
  · rcases m with - | ⟨z, m⟩
    · obtain ⟨rfl, rfl⟩ := List.cons.inj hm
      exact .inr (.inl ⟨List.append_nil _, rfl, rfl⟩)
    · obtain ⟨rfl, rfl⟩ := List.cons.inj hm
      exact .inr (.inr ⟨m, rfl, rfl⟩)

lemma updateFirst_eq_self (hx : xs.find? q = some x) (hf : f x = x) : updateFirst q f xs = xs := by
  obtain ⟨as, bs, rfl, has, hq⟩ := exists_of_find? hx
  rw [updateFirst_append_cons has hq, hf]

lemma map_updateFirst {g : α → β} (hg : ∀ x, g (f x) = g x) :
    (updateFirst q f xs).map g = xs.map g := by
  induction xs with
  | nil => rfl
  | cons a xs ih =>
    rw [updateFirst]
    split_ifs
    · rw [List.map_cons, List.map_cons, hg]
    · rw [List.map_cons, List.map_cons, ih]

lemma mem_updateFirst_of_not (hy : y ∈ xs) (hq : q y = false) : y ∈ updateFirst q f xs := by
  induction xs with
  | nil => cases hy
  | cons a xs ih =>
    rw [updateFirst]
    rcases List.mem_cons.mp hy with rfl | hy
    · rw [if_neg (by simp [hq])]
      exact List.mem_cons_self
    · split_ifs
      · exact List.mem_cons_of_mem _ hy
      · exact List.mem_cons_of_mem a (ih hy)

end UpdateFirst

/-- An event is found by its id. -/
lemma find?_id {events : List LocalEvent} (hids : (events.map LocalEvent.id).Nodup) {e : LocalEvent}
    (he : e ∈ events) {id : Text} (hid : e.id = id) : events.find? (·.id = id) = some e := by
  obtain ⟨f, hf⟩ : ∃ f, events.find? (·.id = id) = some f :=
    Option.isSome_iff_exists.mp (List.find?_isSome.mpr ⟨e, he, by simpa using hid⟩)
  have hfid : f.id = id := by simpa using List.find?_some hf
  rw [hf, List.inj_on_of_nodup_map hids (List.mem_of_find?_eq_some hf) he (hfid.trans hid.symm)]

/-- Links in two places have different events. -/
lemma eventId_ne {as m bs : List CalDavLink} {x y : CalDavLink}
    (h : ((as ++ x :: (m ++ y :: bs)).map CalDavLink.eventId).Nodup) : x.eventId ≠ y.eventId :=
  (List.pairwise_cons.mp (List.pairwise_append.mp (List.pairwise_map.mp h)).2.1).1 y
    (List.mem_append_right _ List.mem_cons_self)

/-! ### Links of events -/

section Links

variable {p : Pull} {r r' : PulledEvent} {l : CalDavLink}

lemma isFor_link (r r' : PulledEvent) (id : Text) :
    (r.link id).isFor r' = (r.link []).isFor r' := rfl

lemma PulledEvent.Names.isFor (h : r.Names l) (hne : r.uid ≠ [] ∨ r.href ≠ []) :
    l.isFor r = true := by
  unfold CalDavLink.isFor
  by_cases huid : r.uid = []
  · have hhref := hne.resolve_left (not_not_intro huid)
    simp [huid, hhref, h.2 huid]
  · simp [huid, h.1]

lemma PulledEvent.names_link (r : PulledEvent) (id : Text) : r.Names (r.link id) :=
  ⟨rfl, fun _ => rfl⟩

/-- A link that is not found for an event is not the event's. -/
lemma not_names (hfor : l.isFor r = false) (hne : r.uid ≠ [] ∨ r.href ≠ []) : ¬ r.Names l := by
  intro h
  rw [h.isFor hne] at hfor
  cases hfor

/-- A link is found for an event by its uid or its resource. -/
lemma isFor_cases (h : l.isFor r = true) :
    l.uid = r.uid ∧ r.uid ≠ [] ∨ l.href = r.href ∧ r.href ≠ [] ∧ '#' ∉ r.uid := by
  unfold CalDavLink.isFor at h
  split_ifs at h with hhash
  · simp only [Bool.and_eq_true, decide_eq_true_eq] at h
    exact .inl ⟨h.2, h.1⟩
  · simp only [Bool.or_eq_true, Bool.and_eq_true, decide_eq_true_eq] at h
    exact h.imp And.symm fun h => ⟨h.2, h.1, hhash⟩

lemma isFor_of_href (h : l.href = r.href) (hne : r.href ≠ []) (hhash : '#' ∉ r.uid) :
    l.isFor r = true := by
  unfold CalDavLink.isFor
  rw [if_neg hhash]
  simp [h, hne]

end Links

/-! ### One round -/

section Round

variable {p : Pull} {c : LocalCalendar} {r r' : PulledEvent} {id : Text}

/-- What a round does: the link that is found is taken, or there is a new one. -/
lemma mergeOne_cases (c : LocalCalendar) (r : PulledEvent) (id : Text) :
    (∃ as x bs, c.links = as ++ x :: bs ∧ (∀ l ∈ as, l.isFor r = false) ∧ x.isFor r = true ∧
      c.mergeOne r id =
        ⟨updateFirst (·.id = x.eventId) (fun e => { e with details := r.details }) c.events,
          as ++ r.link x.eventId :: bs⟩) ∨
    (∀ l ∈ c.links, l.isFor r = false) ∧
      c.mergeOne r id = ⟨c.events ++ [⟨id, 0, r.details⟩], c.links ++ [r.link id]⟩ := by
  unfold LocalCalendar.mergeOne
  cases hx : c.links.find? (·.isFor r) with
  | some x =>
    obtain ⟨as, bs, hlinks, has, hfor⟩ := exists_of_find? hx
    refine .inl ⟨as, x, bs, hlinks, has, hfor, ?_⟩
    rw [hlinks, updateFirst_append_cons has hfor]
    rfl
  | none =>
    refine .inr ⟨fun l hl => ?_, rfl⟩
    simpa using List.find?_eq_none.mp hx l hl

/-- The link that is found makes way for the event's, and the others stay. -/
lemma mem_mergeOne {l : CalDavLink} (hl : l ∈ c.links) : l ∈ (c.mergeOne r id).links ∨
    c.links.find? (·.isFor r) = some l ∧ r.link l.eventId ∈ (c.mergeOne r id).links := by
  obtain ⟨as, x, bs, hlinks, has, hx, hone⟩ | ⟨-, hone⟩ := mergeOne_cases c r id
  · rw [hone, hlinks, find?_append_cons has hx]
    rw [hlinks] at hl
    rcases List.mem_append.mp hl with hl | hl
    · exact .inl (List.mem_append_left _ hl)
    · rcases List.mem_cons.mp hl with rfl | hl
      · exact .inr ⟨rfl, List.mem_append_right _ List.mem_cons_self⟩
      · exact .inl (List.mem_append_right _ (List.mem_cons_of_mem _ hl))
  · rw [hone]
    exact .inl (List.mem_append_left _ hl)

/-- A link after a round was there before, or is that of its event to a linked or new one. -/
lemma of_mem_mergeOne {l : CalDavLink} (hl : l ∈ (c.mergeOne r id).links) : l ∈ c.links ∨
    ∃ id', l = r.link id' ∧ (id' = id ∨ ∃ k ∈ c.links, k.eventId = id') := by
  obtain ⟨as, x, bs, hlinks, -, -, hone⟩ | ⟨-, hone⟩ := mergeOne_cases c r id
  · rw [hone] at hl
    rw [hlinks]
    rcases List.mem_append.mp hl with hl | hl
    · exact .inl (List.mem_append_left _ hl)
    · rcases List.mem_cons.mp hl with rfl | hl
      · exact .inr ⟨_, rfl, .inr ⟨x, List.mem_append_right _ List.mem_cons_self, rfl⟩⟩
      · exact .inl (List.mem_append_right _ (List.mem_cons_of_mem x hl))
  · rw [hone] at hl
    rcases List.mem_append.mp hl with hl | hl
    · exact .inl hl
    · exact .inr ⟨id, List.mem_singleton.mp hl, .inl rfl⟩

/-- New ids are not those of events. -/
def Fresh (c : LocalCalendar) (id : Text) : Prop := ∀ e ∈ c.events, e.id ≠ id

lemma LocalCalendar.Tidy.eventId_ne (h : c.Tidy) (hid : Fresh c id) {l : CalDavLink}
    (hl : l ∈ c.links) : l.eventId ≠ id := by
  obtain ⟨e, he, heq⟩ := h.linked l hl
  exact heq ▸ hid e he

lemma LocalCalendar.Tidy.mergeOne (h : c.Tidy) (hid : Fresh c id) : (c.mergeOne r id).Tidy := by
  obtain ⟨as, x, bs, hlinks, -, -, hone⟩ | ⟨-, hone⟩ := mergeOne_cases c r id
  · have heventIds := h.eventIds
    have hlinked := h.linked
    rw [hone]
    rw [hlinks] at heventIds hlinked
    refine ⟨?_, ?_, fun l hl => ?_⟩
    · exact (congrArg List.Nodup (map_updateFirst fun _ => by rfl)).mpr h.ids
    · rw [List.map_append, List.map_cons] at heventIds ⊢
      exact heventIds
    · refine (exists_mem_updateFirst fun _ => by rfl).mpr ?_
      rcases List.mem_append.mp hl with hl | hl
      · exact hlinked l (List.mem_append_left _ hl)
      · rcases List.mem_cons.mp hl with rfl | hl
        · exact hlinked x (List.mem_append_right _ List.mem_cons_self)
        · exact hlinked l (List.mem_append_right _ (List.mem_cons_of_mem x hl))
  · rw [hone]
    refine ⟨?_, ?_, fun l hl => ?_⟩
    · rw [List.map_append]
      refine List.Nodup.append h.ids (List.nodup_singleton _) ?_
      simpa [Fresh] using hid
    · rw [List.map_append]
      refine List.Nodup.append h.eventIds (List.nodup_singleton _) ?_
      simpa [PulledEvent.link] using fun l hl => h.eventId_ne hid hl
    · rcases List.mem_append.mp hl with hl | hl
      · obtain ⟨e, he, heq⟩ := h.linked l hl
        exact ⟨e, List.mem_append_left _ he, heq⟩
      · rw [List.mem_singleton] at hl
        exact ⟨_, List.mem_append_right _ List.mem_cons_self, hl ▸ rfl⟩

/-- An event without a link is left alone. -/
def Unlinked (c : LocalCalendar) (e : LocalEvent) : Prop :=
  e ∈ c.events ∧ ∀ l ∈ c.links, l.eventId ≠ e.id

lemma Unlinked.mergeOne {e : LocalEvent} (he : Unlinked c e) (hid : Fresh c id) :
    Unlinked (c.mergeOne r id) e := by
  obtain ⟨hmem, hlink⟩ := he
  refine ⟨?_, fun l hl => ?_⟩
  · obtain ⟨as, x, bs, hlinks, -, -, hone⟩ | ⟨-, hone⟩ := mergeOne_cases c r id
    · have hx := hlink x (hlinks ▸ List.mem_append_right _ List.mem_cons_self)
      rw [hone]
      exact mem_updateFirst_of_not hmem (by simpa using hx.symm)
    · rw [hone]
      exact List.mem_append_left _ hmem
  · obtain hl | ⟨id', rfl, rfl | ⟨k, hk, rfl⟩⟩ := of_mem_mergeOne hl
    · exact hlink l hl
    · exact (hid e hmem).symm
    · exact hlink k hk

/-- Other ids than the one of a round stay new. -/
lemma Fresh.mergeOne {id' : Text} (hid' : Fresh c id') (hne : id ≠ id') :
    Fresh (c.mergeOne r id) id' := by
  intro e he
  obtain ⟨as, x, bs, -, -, -, hone⟩ | ⟨-, hone⟩ := mergeOne_cases c r id
  · rw [hone] at he
    rcases mem_updateFirst he with he | ⟨y, hy, rfl⟩
    · exact hid' e he
    · exact hid' y (List.mem_of_find?_eq_some hy)
  · rw [hone] at he
    rcases List.mem_append.mp he with he | he
    · exact hid' e he
    · rw [List.mem_singleton.mp he]
      exact hne

/-! ### Events that stay where they are -/

/-- A link that stands in front of the one of an event without being found for it, now or once the
event of the pull that it names is merged. -/
def Calm (p : Pull) (r : PulledEvent) (l : CalDavLink) : Prop :=
  l.isFor r = false ∧ ∀ r' ∈ p.events, r'.Names l → (r'.link []).isFor r = false

/-- A calm link that is found for another event is calm as this one's, if it is this one's or that
of no event of the pull. -/
lemma Calm.link {l : CalDavLink} (hp : p.Distinct) (hr : r ∈ p.events) (hr' : r' ∈ p.events)
    (h : Calm p r' l) (hfor : l.isFor r = true) (hfound : r.Names l ∨ ∀ x ∈ p.events, ¬ x.Names l)
    (id : Text) : Calm p r' (r.link id) := by
  have hnew : (r.link []).isFor r' = false := by
    rcases hfound with hown | hnobody
    · exact h.2 r hr hown
    by_contra hfor'
    rw [Bool.not_eq_false] at hfor'
    rcases isFor_cases hfor' with ⟨huid, hne⟩ | ⟨hhref, hne, hhash⟩
    · obtain rfl := hp.alone r' hr' r hr ⟨huid, fun h => absurd h hne⟩
      rw [h.1] at hfor
      cases hfor
    · rcases isFor_cases hfor with ⟨huid, hne'⟩ | ⟨hhref', -, -⟩
      · exact hnobody r hr ⟨huid, fun h => absurd h hne'⟩
      · have hfor'' := isFor_of_href (hhref'.trans hhref) hne hhash
        rw [h.1] at hfor''
        cases hfor''
  refine ⟨hnew, fun x hx hown => ?_⟩
  obtain rfl := hp.alone x hx r hr hown
  exact hnew

/-- An event of the pull has its data and one link, which is found for it and will be. -/
def Placed (p : Pull) (c : LocalCalendar) (r : PulledEvent) : Prop :=
  ∃ e ∈ c.events, e.details = r.details ∧ ∃ front back, c.links = front ++ r.link e.id :: back ∧
    (∀ l ∈ front, Calm p r l) ∧ ∀ l ∈ back, ¬ r.Names l

/-- The event of a round is placed after it. -/
lemma placed_mergeOne (h : c.Tidy) (hleaves : Leaves p c r) (hfirst : c.First r) :
    Placed p (c.mergeOne r id) r := by
  have hfront := hleaves.front
  have heventIds := h.eventIds
  obtain ⟨as, x, bs, hlinks, has, hx, hone⟩ | ⟨hnone, hone⟩ := mergeOne_cases c r id
  · obtain ⟨e, he, heq⟩ := h.linked x (hlinks ▸ List.mem_append_right _ List.mem_cons_self)
    have hfind := find?_id h.ids he heq
    unfold LocalCalendar.First at hfirst
    rw [hlinks] at hfront hfirst heventIds
    rw [takeWhile_append_cons has hx] at hfront
    rw [find?_append_cons has hx] at hfirst
    rw [hone]
    refine ⟨{ e with details := r.details }, ?_, rfl, as, bs, by rw [heq],
      fun l hl => ⟨has l hl, hfront l hl⟩, fun l hl hown => ?_⟩
    · obtain ⟨es, fs, hevents, hes, hq⟩ := exists_of_find? hfind
      rw [hevents, updateFirst_append_cons hes hq]
      exact List.mem_append_right _ List.mem_cons_self
    · have hxl := hfirst l (List.mem_append_right _ (List.mem_cons_of_mem x hl)) hown
      obtain rfl := Option.some.inj hxl
      rw [List.map_append, List.map_cons] at heventIds
      exact (List.nodup_cons.mp (List.nodup_append.mp heventIds).2.1).1 (List.mem_map_of_mem hl)
  · have htake : c.links.takeWhile (fun l => !l.isFor r) = c.links :=
      List.takeWhile_eq_self_iff.mpr fun l hl => by simp [hnone l hl]
    rw [htake] at hfront
    rw [hone]
    exact ⟨_, List.mem_append_right _ List.mem_cons_self, rfl, c.links, [], rfl,
      fun l hl => ⟨hnone l hl, hfront l hl⟩, fun l hl => absurd hl List.not_mem_nil⟩

/-- Another round leaves a placed event so. -/
lemma Placed.mergeOne (hp : p.Distinct) (h : c.Tidy) (hr : r ∈ p.events) (hr' : r' ∈ p.events)
    (hleaves : Leaves p c r) (hplaced : Placed p c r') : Placed p (c.mergeOne r id) r' := by
  obtain ⟨e, he, hdetails, front, back, hfb, hfront, hback⟩ := hplaced
  have heventIds := h.eventIds
  obtain ⟨as, x, bs, hlinks, has, hx, hone⟩ | ⟨hnone, hone⟩ := mergeOne_cases c r id
  · have hfound := hleaves.found x (hlinks ▸ find?_append_cons has hx)
    rw [hone]
    rw [hlinks] at hfb heventIds
    have hkept (hne : x.eventId ≠ e.id) : e ∈ updateFirst (·.id = x.eventId)
        (fun e => { e with details := r.details }) c.events :=
      mem_updateFirst_of_not he (by simpa using hne.symm)
    obtain ⟨m, rfl, rfl⟩ | ⟨rfl, hself, rfl⟩ | ⟨m, rfl, rfl⟩ := append_cons_cases hfb
    · -- the link stands in front of the one of the event
      have hcalm := hfront x (List.mem_append_right _ List.mem_cons_self)
      refine ⟨e, hkept fun heq => ?_, hdetails, as ++ r.link x.eventId :: m, back, by simp,
        fun l hl => ?_, hback⟩
      · exact eventId_ne heventIds heq
      · rcases List.mem_append.mp hl with hl | hl
        · exact hfront l (List.mem_append_left _ hl)
        · rcases List.mem_cons.mp hl with rfl | hl
          · exact hcalm.link hp hr hr' hx hfound _
          · exact hfront l (List.mem_append_right _ (List.mem_cons_of_mem x hl))
    · -- it is the link of the event
      have hown := hfound.resolve_right fun hnobody =>
        hnobody r' hr' (hself ▸ r'.names_link _)
      rw [hself] at hown
      obtain rfl := hp.alone r hr r' hr' hown
      have hid : e.id = x.eventId := hself ▸ rfl
      refine ⟨e, ?_, hdetails, as, bs, by rw [hid], hfront, hback⟩
      rw [updateFirst_eq_self (find?_id h.ids he hid) (by rw [← hdetails])]
      exact he
    · -- the link stands behind it
      refine ⟨e, hkept fun heq => ?_, hdetails, front, m ++ r.link x.eventId :: bs, by simp,
        hfront, fun l hl hown => ?_⟩
      · rw [List.append_assoc, List.cons_append] at heventIds
        exact eventId_ne heventIds heq.symm
      · rcases List.mem_append.mp hl with hl | hl
        · exact hback l (List.mem_append_left _ hl) hown
        · rcases List.mem_cons.mp hl with rfl | hl
          · obtain rfl := hp.alone r' hr' r hr hown
            exact not_names (has _ (List.mem_append_right _ List.mem_cons_self))
              (hp.named r' hr') (r'.names_link e.id)
          · exact hback l (List.mem_append_right _ (List.mem_cons_of_mem x hl)) hown
  · rw [hone]
    refine ⟨e, List.mem_append_left _ he, hdetails, front, back ++ [r.link id], ?_, hfront,
      fun l hl hown => ?_⟩
    · rw [hfb]
      simp
    · rcases List.mem_append.mp hl with hl | hl
      · exact hback l hl hown
      · rw [List.mem_singleton.mp hl] at hown
        obtain rfl := hp.alone r' hr' r hr hown
        exact not_names (hnone _ (hfb ▸ List.mem_append_right _ List.mem_cons_self))
          (hp.named r' hr') (r'.names_link e.id)

/-- A placed event changes nothing. -/
lemma Placed.mergeOne_eq (h : c.Tidy) (hne : r.uid ≠ [] ∨ r.href ≠ []) (hplaced : Placed p c r) :
    c.mergeOne r id = c := by
  obtain ⟨e, he, hdetails, front, back, hfb, hfront, -⟩ := hplaced
  obtain ⟨as, x, bs, hlinks, has, hx, hone⟩ | ⟨hnone, -⟩ := mergeOne_cases c r id
  · obtain ⟨m, rfl, -⟩ | ⟨rfl, rfl, rfl⟩ | ⟨m, rfl, -⟩ := append_cons_cases (hlinks.symm.trans hfb)
    · rw [(hfront x (List.mem_append_right _ List.mem_cons_self)).1] at hx
      exact absurd hx Bool.false_ne_true
    · have hevents := updateFirst_eq_self (f := fun e => { e with details := r.details })
        (find?_id h.ids he rfl) (by rw [← hdetails])
      rw [hone]
      exact (congrArg₂ LocalCalendar.mk hevents hlinks.symm)
    · exact absurd (r.names_link e.id)
        (not_names (has _ (List.mem_append_right _ List.mem_cons_self)) hne)
  · exact absurd (r.names_link e.id)
      (not_names (hnone _ (hfb ▸ List.mem_append_right _ List.mem_cons_self)) hne)

end Round

/-! ### The loop -/

section Loop

variable {p : Pull} {c : LocalCalendar} {r : PulledEvent} {rounds : List (PulledEvent × Text)}

/-- The new ids of the rounds are new. -/
structure FreshIds (c : LocalCalendar) (rounds : List (PulledEvent × Text)) : Prop where
  nodup : (rounds.map Prod.snd).Nodup
  fresh : ∀ id ∈ rounds.map Prod.snd, Fresh c id

lemma FreshIds.mergeOne {round : PulledEvent × Text} (h : FreshIds c (round :: rounds)) :
    FreshIds (c.mergeOne round.1 round.2) rounds := by
  have hnodup := h.nodup
  rw [List.map_cons, List.nodup_cons] at hnodup
  refine ⟨hnodup.2, fun id hid => ?_⟩
  exact (h.fresh id (List.mem_cons_of_mem _ hid)).mergeOne fun heq => hnodup.1 (heq ▸ hid)

lemma tidy_mergeAll (h : c.Tidy) (hids : FreshIds c rounds) : (c.mergeAll rounds).Tidy := by
  induction rounds generalizing c with
  | nil => exact h
  | cons round rounds ih =>
    exact ih (h.mergeOne (hids.fresh _ List.mem_cons_self)) hids.mergeOne

lemma unlinked_mergeAll {e : LocalEvent} (he : Unlinked c e) (hids : FreshIds c rounds) :
    Unlinked (c.mergeAll rounds) e := by
  induction rounds generalizing c with
  | nil => exact he
  | cons round rounds ih =>
    exact ih (he.mergeOne (hids.fresh _ List.mem_cons_self)) hids.mergeOne

/-- What is placed stays so. -/
lemma Placed.mergeAll (hp : p.Distinct) (h : c.Tidy) (hids : FreshIds c rounds)
    (hmem : ∀ round ∈ rounds, round.1 ∈ p.events) (hleaves : EachRound (Leaves p) c rounds)
    (hr : r ∈ p.events) (hplaced : Placed p c r) : Placed p (c.mergeAll rounds) r := by
  induction rounds generalizing c with
  | nil => exact hplaced
  | cons round rounds ih =>
    obtain ⟨hround, hmem⟩ := List.forall_mem_cons.mp hmem
    exact ih (h.mergeOne (hids.fresh _ List.mem_cons_self)) hids.mergeOne hmem hleaves.2
      (hplaced.mergeOne hp h hround hr hleaves.1)

/-- After the loop every event of it is placed. -/
lemma placed_mergeAll (hp : p.Distinct) (h : c.Tidy) (hids : FreshIds c rounds)
    (hmem : ∀ round ∈ rounds, round.1 ∈ p.events) (hleaves : EachRound (Leaves p) c rounds)
    (hfirst : EachRound LocalCalendar.First c rounds) :
    ∀ round ∈ rounds, Placed p (c.mergeAll rounds) round.1 := by
  induction rounds generalizing c with
  | nil => exact fun _ h => absurd h List.not_mem_nil
  | cons round rounds ih =>
    obtain ⟨hround, hmem⟩ := List.forall_mem_cons.mp hmem
    have htidy := h.mergeOne (r := round.1) (hids.fresh _ List.mem_cons_self)
    refine List.forall_mem_cons.mpr ⟨?_, ih htidy hids.mergeOne hmem hleaves.2 hfirst.2⟩
    show Placed p ((c.mergeOne round.1 round.2).mergeAll rounds) round.1
    exact (placed_mergeOne h hleaves.1 hfirst.1).mergeAll hp htidy hids.mergeOne hmem hleaves.2
      hround

/-- A loop over placed events changes nothing. -/
lemma mergeAll_eq_self (h : c.Tidy)
    (hplaced : ∀ round ∈ rounds, (round.1.uid ≠ [] ∨ round.1.href ≠ []) ∧ Placed p c round.1) :
    c.mergeAll rounds = c := by
  induction rounds with
  | nil => rfl
  | cons round rounds ih =>
    obtain ⟨⟨hne, hround⟩, hplaced⟩ := List.forall_mem_cons.mp hplaced
    rw [LocalCalendar.mergeAll, hround.mergeOne_eq h hne]
    exact ih hplaced

end Loop

/-! ### The end of the merge -/

section Retain

variable {c : LocalCalendar} {p : Pull} {w : Window}

lemma retain_links (c : LocalCalendar) (w : Window) (p : Pull) : (c.retain w p).links =
    c.links.filter fun l =>
      (c.events.find? (·.id = l.eventId)).isSome && !c.drops w p l := rfl

lemma mem_retain_links (h : c.Tidy) {l : CalDavLink} :
    l ∈ (c.retain w p).links ↔ l ∈ c.links ∧ c.drops w p l = false := by
  rw [retain_links, List.mem_filter]
  refine and_congr_right fun hl => ?_
  obtain ⟨e, he, hid⟩ := h.linked l hl
  rw [find?_id h.ids he hid]
  simp

/-- An event goes with a link that is dropped. -/
lemma mem_retain_events {e : LocalEvent} : e ∈ (c.retain w p).events ↔
    e ∈ c.events ∧ ∀ l ∈ c.links, c.drops w p l = true → l.eventId ≠ e.id := by
  unfold LocalCalendar.retain
  rw [List.mem_filter]
  simp

/-- The event of a link that is kept is kept. -/
lemma mem_retain_of_link (h : c.Tidy) {l : CalDavLink} (hl : l ∈ (c.retain w p).links)
    {e : LocalEvent} (he : e ∈ c.events) (hid : e.id = l.eventId) : e ∈ (c.retain w p).events := by
  obtain ⟨hl, hkeep⟩ := (mem_retain_links h).mp hl
  refine mem_retain_events.mpr ⟨he, fun k hk hdrop heq => ?_⟩
  obtain rfl := List.inj_on_of_nodup_map h.eventIds hk hl (heq.trans hid)
  rw [hkeep] at hdrop
  cases hdrop

lemma tidy_retain (h : c.Tidy) : (c.retain w p).Tidy where
  ids := h.ids.sublist (List.filter_sublist.map _)
  eventIds := h.eventIds.sublist (List.filter_sublist.map _)
  linked l hl := by
    obtain ⟨e, he, hid⟩ := h.linked l ((mem_retain_links h).mp hl).1
    exact ⟨e, mem_retain_of_link h hl he hid, hid⟩

/-- A link with a uid of the pull is kept. -/
lemma drops_eq_false {l : CalDavLink} (h : l.uid ∈ p.uids) : c.drops w p l = false := by
  have hany : (p.uids.any fun uid => uid = l.uid) = true :=
    List.any_eq_true.mpr ⟨l.uid, h, by simp⟩
  unfold LocalCalendar.drops
  rw [hany]
  cases c.events.find? (·.id = l.eventId) <;> simp

lemma mem_uids {r : PulledEvent} (hr : r ∈ p.events) : r.uid ∈ p.uids :=
  List.mem_append_left _ (List.mem_map_of_mem hr)

lemma Placed.retain (h : c.Tidy) {r : PulledEvent} (hr : r ∈ p.events) (hplaced : Placed p c r) :
    Placed p (c.retain w p) r := by
  obtain ⟨e, he, hdetails, front, back, hfb, hfront, hback⟩ := hplaced
  have hl : r.link e.id ∈ (c.retain w p).links := (mem_retain_links h).mpr
    ⟨hfb ▸ List.mem_append_right _ List.mem_cons_self, drops_eq_false (mem_uids hr)⟩
  refine ⟨e, mem_retain_of_link h hl he rfl, hdetails, ?_⟩
  rw [retain_links] at hl ⊢
  rw [hfb, List.filter_append, List.filter_cons, if_pos (List.mem_filter.mp hl).2]
  exact ⟨_, _, rfl, fun l hl => hfront l (List.mem_of_mem_filter hl),
    fun l hl => hback l (List.mem_of_mem_filter hl)⟩

/-- The end of the merge changes nothing the second time. -/
lemma retain_retain (h : c.Tidy) : (c.retain w p).retain w p = c.retain w p := by
  have htidy := tidy_retain (w := w) (p := p) h
  have hkeep : ∀ l ∈ (c.retain w p).links, (c.retain w p).drops w p l = false := by
    intro l hl
    obtain ⟨hmem, hdrop⟩ := (mem_retain_links h).mp hl
    obtain ⟨e, he, hid⟩ := h.linked l hmem
    unfold LocalCalendar.drops at hdrop ⊢
    rw [find?_id htidy.ids (mem_retain_of_link h hl he hid) hid]
    rwa [find?_id h.ids he hid] at hdrop
  have hevents : ((c.retain w p).retain w p).events = (c.retain w p).events := by
    refine List.filter_eq_self.mpr fun e he => ?_
    have hnone : ((c.retain w p).links.filter fun l => (c.retain w p).drops w p l) = [] :=
      List.filter_eq_nil_iff.mpr fun l hl => by simp [hkeep l hl]
    simp [hnone]
  have hlinks : ((c.retain w p).retain w p).links = (c.retain w p).links := by
    rw [retain_links (c.retain w p)]
    refine List.filter_eq_self.mpr fun l hl => ?_
    obtain ⟨e, he, hid⟩ := htidy.linked l hl
    rw [find?_id htidy.ids he hid, hkeep l hl]
    rfl
  generalize (c.retain w p).retain w p = c₂ at hevents hlinks ⊢
  cases c₂
  rw [LocalCalendar.mk.injEq]
  exact ⟨hevents, hlinks⟩

end Retain

/-! ### A whole merge -/

section Merge

variable {c : LocalCalendar} {p : Pull} {ids : List Text}

/-- New ids for the events of a pull, one for each. -/
structure NewIds (c : LocalCalendar) (p : Pull) (ids : List Text) : Prop where
  nodup : ids.Nodup
  fresh : ∀ id ∈ ids, Fresh c id
  length : ids.length = p.events.length

lemma NewIds.freshIds (h : NewIds c p ids) : FreshIds c (p.events.zip ids) := by
  have hsnd : (p.events.zip ids).map Prod.snd = ids := List.map_snd_zip h.length.le
  exact ⟨hsnd.symm ▸ h.nodup, fun id hid => h.fresh id (hsnd ▸ hid)⟩

lemma NewIds.map_fst (h : NewIds c p ids) : (p.events.zip ids).map Prod.fst = p.events :=
  List.map_fst_zip h.length.ge

/-- Where all events are placed after the loop, the merge gives what it should. -/
lemma merged_of_placed (w : Window) (hp : p.Distinct) (htidy : c.Tidy) (hids : NewIds c p ids)
    (hplaced : ∀ r ∈ p.events, Placed p (c.mergeAll (p.events.zip ids)) r) :
    Merged c (c.merge p ids w) p w := by
  have htidy' := tidy_mergeAll htidy hids.freshIds
  have hfinal : ∀ r ∈ p.events, Placed p (c.merge p ids w) r := fun r hr =>
    (hplaced r hr).retain htidy' hr
  have htidy'' : (c.merge p ids w).Tidy := tidy_retain htidy'
  refine ⟨fun r hr => ?_, fun e he hunlinked => ?_, htidy'', fun ids' _ => ?_⟩
  · obtain ⟨e, he, hdetails, front, back, hfb, hfront, hback⟩ := hfinal r hr
    refine ⟨e, he, hdetails, hfb ▸ List.mem_append_right _ List.mem_cons_self, fun l hl hown => ?_⟩
    rw [hfb] at hl
    rcases List.mem_append.mp hl with hl | hl
    · exact absurd hown (not_names (hfront l hl).1 (hp.named r hr))
    · exact (List.mem_cons.mp hl).resolve_right fun hl => hback l hl hown
  · obtain ⟨hmem', hlinks⟩ := unlinked_mergeAll ⟨he, hunlinked⟩ hids.freshIds
    exact mem_retain_events.mpr ⟨hmem', fun l hl _ => hlinks l hl⟩
  · have hagain : (c.merge p ids w).mergeAll (p.events.zip ids') = c.merge p ids w :=
      mergeAll_eq_self htidy'' fun round hround =>
        have hr := (List.of_mem_zip hround).1
        ⟨hp.named _ hr, hfinal _ hr⟩
    rw [LocalCalendar.merge, hagain]
    exact retain_retain htidy'

end Merge

/-! ### Only then -/

section Only

variable {p : Pull} {c c' : LocalCalendar} {w : Window} {r r' : PulledEvent} {id : Text}
  {rounds : List (PulledEvent × Text)}

/-- An id has a link with a uid of the pull, and an event. -/
def HasLink (p : Pull) (c : LocalCalendar) (id : Text) : Prop :=
  (∃ l ∈ c.links, l.eventId = id ∧ l.uid ∈ p.uids) ∧ ∃ e ∈ c.events, e.id = id

lemma HasLink.mergeOne {id' : Text} (hr : r ∈ p.events) (h : HasLink p c id') :
    HasLink p (c.mergeOne r id) id' := by
  obtain ⟨⟨l, hl, heq, huid⟩, hevent⟩ := h
  refine ⟨?_, @exists_event_mergeAll c id' [(r, id)] hevent⟩
  obtain hl | ⟨-, hl⟩ := mem_mergeOne hl
  · exact ⟨l, hl, heq, huid⟩
  · exact ⟨_, hl, heq, mem_uids hr⟩

/-- An event for which no link is ever found is linked to the new id. -/
lemma hasLink_mergeAll (hmem : ∀ round ∈ rounds, round.1 ∈ p.events)
    (hids : ∀ round ∈ rounds, round.2 = id) (h : HasLink p c id ∨ ∃ round ∈ rounds,
      ∀ l : CalDavLink, l.isFor round.1 = false) : HasLink p (c.mergeAll rounds) id := by
  induction rounds generalizing c with
  | nil => exact h.resolve_right (by simp)
  | cons round rounds ih =>
    obtain ⟨hround, hmem⟩ := List.forall_mem_cons.mp hmem
    obtain ⟨hid, hids⟩ := List.forall_mem_cons.mp hids
    refine ih hmem hids ?_
    rcases h with h | ⟨x, hx, hnone⟩
    · exact .inl (h.mergeOne hround)
    rcases List.mem_cons.mp hx with rfl | hx
    · obtain ⟨as, y, bs, -, -, hy, -⟩ | ⟨-, hone⟩ := mergeOne_cases c x.1 x.2
      · rw [hnone y] at hy
        exact absurd hy Bool.false_ne_true
      · rw [hone]
        exact .inl ⟨⟨_, List.mem_append_right _ List.mem_cons_self, hid, mem_uids hround⟩,
          _, List.mem_append_right _ List.mem_cons_self, hid⟩
    · exact .inr ⟨x, hx, hnone⟩

/-- The events of a pull whose merge gives what it should can be told apart. -/
lemma Merged.distinct (h : Merged c c' p w) : p.Distinct where
  named r hr := by
    by_contra hnot
    rw [not_or, not_not, not_not] at hnot
    obtain ⟨id, hid⟩ := Infinite.exists_notMem_finset (c'.events.map LocalEvent.id).toFinset
    have hzip : p.events.zip (p.events.map fun _ => id) = p.events.map fun r => (r, id) :=
      List.map_prod_left_eq_zip.symm
    have hagain := h.again (p.events.map fun _ => id) (List.length_map _)
    have hunnamed : ∀ l : CalDavLink, l.isFor r = false := fun l => by
      simp [CalDavLink.isFor, hnot.1, hnot.2]
    obtain ⟨⟨l, hl, heq, huid⟩, e, he, hid'⟩ : HasLink p
        (c'.mergeAll (p.events.map fun r => (r, id))) id :=
      hasLink_mergeAll (by simp) (by simp) (.inr ⟨_, List.mem_map_of_mem hr, hunnamed⟩)
    rw [LocalCalendar.merge, hzip] at hagain
    have hkept : l ∈ c'.links := by
      rw [← hagain, retain_links, List.mem_filter, drops_eq_false huid]
      refine ⟨hl, ?_⟩
      rw [Bool.not_false, Bool.and_true, List.find?_isSome]
      exact ⟨e, he, by simp [hid', heq]⟩
    obtain ⟨f, hf, hfid⟩ := h.tidy.linked l hkept
    exact hid (List.mem_toFinset.mpr (List.mem_map.mpr ⟨f, hf, hfid.trans heq⟩))
  alone r hr r' hr' hown := by
    obtain ⟨e, he, hdetails, -, hall⟩ := h.represented r hr
    obtain ⟨e', he', hdetails', hmem', -⟩ := h.represented r' hr'
    have hlink : r'.link e'.id = r.link e.id := hall _ hmem' hown
    have heid : e'.id = e.id := congrArg CalDavLink.eventId hlink
    obtain rfl := List.inj_on_of_nodup_map h.tidy.ids he' he heid
    cases r
    cases r'
    simp only [PulledEvent.link, CalDavLink.mk.injEq, true_and] at hlink
    rw [PulledEvent.mk.injEq]
    exact ⟨hlink.2.2.symm, hlink.1.symm, hlink.2.1.symm, hdetails.symm.trans hdetails'⟩

/-- No event loses a link in another round. -/
lemma names_mergeOne (id : Text) (hp : p.Distinct) (hr : r ∈ p.events) (hr' : r' ∈ p.events)
    (hleaves : Leaves p c r) {l : CalDavLink} (hl : l ∈ c.links) (hown : r'.Names l) :
    ∃ l' ∈ (c.mergeOne r id).links, r'.Names l' ∧ l'.eventId = l.eventId := by
  obtain hl | ⟨hfind, hl⟩ := mem_mergeOne hl
  · exact ⟨l, hl, hown, rfl⟩
  · obtain ⟨huid, hhref⟩ := (hleaves.found l hfind).resolve_right fun hnobody =>
      hnobody r' hr' hown
    have huid' := hown.1.symm.trans huid
    obtain rfl := hp.alone r' hr' r hr
      ⟨huid'.symm, fun h => (hhref (huid'.symm.trans h)).symm.trans (hown.2 h)⟩
    exact ⟨_, hl, r'.names_link _, rfl⟩

lemma names_mergeAll (hp : p.Distinct) (hmem : ∀ round ∈ rounds, round.1 ∈ p.events)
    (hleaves : EachRound (Leaves p) c rounds) (hr : r ∈ p.events) {l : CalDavLink}
    (hl : l ∈ c.links) (hown : r.Names l) :
    ∃ l' ∈ (c.mergeAll rounds).links, r.Names l' ∧ l'.eventId = l.eventId := by
  induction rounds generalizing c l with
  | nil => exact ⟨l, hl, hown, rfl⟩
  | cons round rounds ih =>
    obtain ⟨hround, hmem⟩ := List.forall_mem_cons.mp hmem
    obtain ⟨k, hk, hown', heq⟩ := names_mergeOne round.2 hp hround hr hleaves.1 hl hown
    obtain ⟨l', hl', hown'', heq'⟩ := ih hmem hleaves.2 hk hown'
    exact ⟨l', hl', hown'', heq'.trans heq⟩

/-- An event that has one link at the end had no second one in its round. -/
lemma first_of_unique (hp : p.Distinct) (h : c.Tidy) (hids : FreshIds c rounds)
    (hmem : ∀ round ∈ rounds, round.1 ∈ p.events) (hleaves : EachRound (Leaves p) c rounds)
    (hunique : ∀ r ∈ p.events, ∀ l ∈ (c.mergeAll rounds).links, ∀ k ∈ (c.mergeAll rounds).links,
      r.Names l → r.Names k → l.eventId = k.eventId) :
    EachRound LocalCalendar.First c rounds := by
  induction rounds generalizing c with
  | nil => trivial
  | cons round rounds ih =>
    obtain ⟨hround, hmem⟩ := List.forall_mem_cons.mp hmem
    have htidy := h.mergeOne (r := round.1) (hids.fresh _ List.mem_cons_self)
    refine ⟨fun l hl hown => ?_, ih htidy hids.mergeOne hmem hleaves.2 hunique⟩
    have hnamed := hp.named _ hround
    have heventIds := h.eventIds
    obtain ⟨as, x, bs, hlinks, has, hx, hone⟩ | ⟨hnone, -⟩ :=
      mergeOne_cases c round.1 round.2
    · rw [hlinks] at hl heventIds ⊢
      rw [find?_append_cons has hx]
      rcases List.mem_append.mp hl with hl | hl
      · exact absurd hown (not_names (has l hl) hnamed)
      · rcases List.mem_cons.mp hl with rfl | hl
        · rfl
        · have hlinks' : (c.mergeOne round.1 round.2).links =
              as ++ round.1.link x.eventId :: bs := by rw [hone]
          have hl' : l ∈ (c.mergeOne round.1 round.2).links := by
            rw [hlinks']
            exact List.mem_append_right _ (List.mem_cons_of_mem _ hl)
          have hx' : round.1.link x.eventId ∈ (c.mergeOne round.1 round.2).links := by
            rw [hlinks']
            exact List.mem_append_right _ List.mem_cons_self
          obtain ⟨k, hk, hkown, hkid⟩ := names_mergeAll hp hmem hleaves.2 hround hl' hown
          obtain ⟨k', hk', hkown', hkid'⟩ := names_mergeAll hp hmem hleaves.2 hround hx'
            (round.1.names_link _)
          have hids : x.eventId = l.eventId :=
            (hkid'.symm.trans (hunique _ hround k' hk' k hk hkown' hkown)).trans hkid
          obtain ⟨m, bs', rfl⟩ := List.append_of_mem hl
          exact absurd hids (eventId_ne heventIds)
    · exact absurd hown (not_names (hnone l hl) hnamed)

/-! ### A first pull -/

/-- The link belongs to an event of the pull. -/
def Pull.Knows (p : Pull) (l : CalDavLink) : Prop := ∃ r ∈ p.events, r.Names l

instance (p : Pull) (l : CalDavLink) : Decidable (p.Knows l) :=
  inferInstanceAs (Decidable (∃ _ ∈ _, _))

/-- A round adds at most one link of the pull, and none if it takes one over. -/
lemma countP_mergeOne (hr : r ∈ p.events) :
    (c.mergeOne r id).links.countP (p.Knows ·) ≤ c.links.countP (p.Knows ·) + 1 ∧
      ((c.mergeOne r id).links.countP (p.Knows ·) = c.links.countP (p.Knows ·) + 1 →
        ∀ l, c.links.find? (·.isFor r) = some l → ¬ p.Knows l) := by
  have hknows (id : Text) : p.Knows (r.link id) := ⟨r, hr, r.names_link id⟩
  obtain ⟨as, x, bs, hlinks, has, hx, hone⟩ | ⟨hnone, hone⟩ := mergeOne_cases c r id
  · rw [hone, hlinks, find?_append_cons has hx]
    simp only [List.countP_append, List.countP_cons, hknows, decide_true, if_true]
    refine ⟨by split_ifs <;> omega, fun heq l hl hl' => ?_⟩
    obtain rfl := Option.some.inj hl
    rw [if_pos (decide_eq_true hl')] at heq
    omega
  · rw [hone]
    simp only [List.countP_append, List.countP_singleton, hknows, decide_true, if_true]
    refine ⟨le_rfl, fun _ l hl => ?_⟩
    have hfor := List.find?_some hl
    rw [hnone l (List.mem_of_find?_eq_some hl)] at hfor
    exact absurd hfor Bool.false_ne_true

/-- As many new links as events come only where no round takes one over. -/
lemma leaves_of_countP (hp : p.Distinct) (hmem : ∀ round ∈ rounds, round.1 ∈ p.events)
    (hlinks : ∀ l ∈ c.links, ∀ r ∈ p.events, r.Names l → ∃ id, l = r.link id) :
    (c.mergeAll rounds).links.countP (p.Knows ·) ≤ c.links.countP (p.Knows ·) + rounds.length ∧
      ((c.mergeAll rounds).links.countP (p.Knows ·) = c.links.countP (p.Knows ·) + rounds.length →
        EachRound (Leaves p) c rounds) := by
  induction rounds generalizing c with
  | nil => exact ⟨le_rfl, fun _ => trivial⟩
  | cons round rounds ih =>
    obtain ⟨hround, hmem⟩ := List.forall_mem_cons.mp hmem
    obtain ⟨hle, hfound⟩ := @countP_mergeOne p c round.1 round.2 hround
    have hlinks' : ∀ l ∈ (c.mergeOne round.1 round.2).links, ∀ r ∈ p.events, r.Names l →
        ∃ id, l = r.link id := by
      intro l hl r hr hown
      obtain hl | ⟨id', rfl, -⟩ := of_mem_mergeOne hl
      · exact hlinks l hl r hr hown
      · exact ⟨id', by rw [hp.alone r hr _ hround hown]⟩
    obtain ⟨hle', hrest⟩ := ih hmem hlinks'
    rw [List.length_cons]
    refine ⟨hle'.trans (by omega), fun heq => ?_⟩
    rw [LocalCalendar.mergeAll] at heq
    refine ⟨⟨fun l hl => ?_, fun l hl r hr hown => ?_⟩, hrest (by omega)⟩
    · exact .inr fun r hr hown => hfound (by omega) l hl ⟨r, hr, hown⟩
    · have hfor := List.mem_takeWhile_imp hl
      obtain ⟨id, rfl⟩ := hlinks l ((List.takeWhile_sublist _).subset hl) r hr hown
      rw [isFor_link] at hfor
      simpa using hfor

/-- Events of which none has a link before its round are the first to have theirs. -/
lemma first_of_unnamed (hp : p.Distinct) (hmem : ∀ round ∈ rounds, round.1 ∈ p.events)
    (hnodup : (rounds.map Prod.fst).Nodup)
    (hnone : ∀ l ∈ c.links, ∀ round ∈ rounds, ¬ round.1.Names l) :
    EachRound LocalCalendar.First c rounds := by
  induction rounds generalizing c with
  | nil => trivial
  | cons round rounds ih =>
    obtain ⟨hround, hmem⟩ := List.forall_mem_cons.mp hmem
    rw [List.map_cons, List.nodup_cons] at hnodup
    refine ⟨fun l hl hown => absurd hown (hnone l hl _ List.mem_cons_self),
      ih hmem hnodup.2 fun l hl x hx hown => ?_⟩
    obtain hl | ⟨id', rfl, -⟩ := of_mem_mergeOne hl
    · exact hnone l hl x (List.mem_cons_of_mem _ hx) hown
    · have heq := hp.alone _ (hmem x hx) _ hround hown
      exact hnodup.1 (heq ▸ List.mem_map_of_mem hx)

end Only

/-- Where no round takes another event's link, a merge into a tidy calendar gives what it should
exactly for a pull whose events can be told apart, none of which has a link behind the one that is
found in its round. Where no event of the pull, which are distinct, has a link in the calendar, it
does so exactly if they can be told apart and no round takes another one's link. -/
theorem merged_iff {c : LocalCalendar} {p : Pull} {ids : List Text} (w : Window) (htidy : c.Tidy)
    (hids : NewIds c p ids) :
    (EachRound (Leaves p) c (p.events.zip ids) → (Merged c (c.merge p ids w) p w ↔
      p.Distinct ∧ EachRound LocalCalendar.First c (p.events.zip ids))) ∧
    (p.events.Nodup → (∀ l ∈ c.links, ∀ r ∈ p.events, ¬ r.Names l) →
      (Merged c (c.merge p ids w) p w ↔
        p.Distinct ∧ EachRound (Leaves p) c (p.events.zip ids))) := by
  have hmem : ∀ round ∈ p.events.zip ids, round.1 ∈ p.events := fun round hround =>
    (List.of_mem_zip hround).1
  have hfresh := hids.freshIds
  have hright (hp : p.Distinct) (hleaves : EachRound (Leaves p) c (p.events.zip ids))
      (hfirst : EachRound LocalCalendar.First c (p.events.zip ids)) :
      Merged c (c.merge p ids w) p w := by
    refine merged_of_placed w hp htidy hids fun r hr => ?_
    rw [← hids.map_fst] at hr
    obtain ⟨round, hround, rfl⟩ := List.mem_map.mp hr
    exact placed_mergeAll hp htidy hfresh hmem hleaves hfirst round hround
  have htidy' := tidy_mergeAll htidy hfresh
  refine ⟨fun hleaves => ⟨fun h => ⟨h.distinct, ?_⟩, fun ⟨hp, hfirst⟩ => hright hp hleaves hfirst⟩,
    fun hnodup hnone => ⟨fun h => ⟨h.distinct, ?_⟩, fun ⟨hp, hleaves⟩ => hright hp hleaves ?_⟩⟩
  · refine first_of_unique h.distinct htidy hfresh hmem hleaves fun r hr l hl k hk hown hown' => ?_
    obtain ⟨e, -, -, -, hall⟩ := h.represented r hr
    have hkept {l : CalDavLink} (hl : l ∈ (c.mergeAll (p.events.zip ids)).links)
        (hown : r.Names l) : l ∈ (c.merge p ids w).links :=
      (mem_retain_links htidy').mpr ⟨hl, drops_eq_false (hown.1 ▸ mem_uids hr)⟩
    rw [hall l (hkept hl hown) hown, hall k (hkept hk hown') hown']
  · have hzero : c.links.countP (p.Knows ·) = 0 := by
      rw [List.countP_eq_zero]
      exact fun l hl hknows => by
        obtain ⟨r, hr, hown⟩ := of_decide_eq_true hknows
        exact hnone l hl r hr hown
    obtain ⟨hle, hleaves⟩ := @leaves_of_countP p c (p.events.zip ids) h.distinct hmem
      fun l hl r hr hown => absurd hown (hnone l hl r hr)
    refine hleaves (le_antisymm hle ?_)
    have hkeys : (p.events.map fun r => (r.uid, r.href)).Nodup := by
      refine List.Nodup.map_on (fun r hr r' hr' heq => ?_) hnodup
      obtain ⟨huid, hhref⟩ := Prod.mk.inj heq
      exact h.distinct.alone r hr r' hr' ⟨huid.symm, fun _ => hhref.symm⟩
    have hsub : (p.events.map fun r => (r.uid, r.href)) ⊆
        ((c.mergeAll (p.events.zip ids)).links.filter (p.Knows ·)).map
          fun l => (l.uid, l.href) := by
      intro key hkey
      obtain ⟨r, hr, rfl⟩ := List.mem_map.mp hkey
      obtain ⟨e, -, -, hlink, -⟩ := h.represented r hr
      refine List.mem_map.mpr ⟨r.link e.id, List.mem_filter.mpr ⟨?_, ?_⟩, rfl⟩
      · exact ((mem_retain_links htidy').mp hlink).1
      · exact decide_eq_true ⟨r, hr, r.names_link _⟩
    have hlen := hkeys.length_le_of_subset hsub
    rw [List.length_map, List.length_map, ← List.countP_eq_length_filter] at hlen
    rw [hzero, Nat.zero_add, List.length_zip, hids.length, min_self]
    exact hlen
  · exact first_of_unnamed hp hmem (hids.map_fst.symm ▸ hnodup) fun l hl round hround =>
      hnone l hl _ (hmem round hround)

/-- An event of one's own and a linked one. -/
def chores : LocalCalendar :=
  ⟨[⟨"m".toList, 0, meeting⟩, ⟨"n".toList, 0, meeting⟩], [⟨"n".toList, "h".toList, [], "a".toList⟩]⟩

/-- The linked event has moved to another resource, and one without a uid is new. -/
def moved : Pull :=
  ⟨[⟨"a".toList, "k".toList, [], meeting⟩, ⟨[], "h".toList, [], meeting⟩], []⟩

/-- Two events of one resource. -/
def pair : Pull :=
  ⟨[⟨"b".toList, "k".toList, [], meeting⟩, ⟨"c".toList, "k".toList, [], meeting⟩], []⟩

lemma tidy_chores : chores.Tidy where
  ids := by decide
  eventIds := List.nodup_singleton _
  linked l hl := by
    obtain rfl := List.mem_singleton.mp hl
    exact ⟨_, List.mem_cons_of_mem _ List.mem_cons_self, rfl⟩

lemma newIds_chores {p : Pull} (h : p.events.length = 2) :
    NewIds chores p ["x".toList, "y".toList] where
  nodup := by decide
  fresh := by
    have hids : ∀ id ∈ ["x".toList, "y".toList], ∀ id' ∈ ["m".toList, "n".toList], id' ≠ id := by
      decide
    exact fun id hid e he => hids id hid e.id (List.mem_map_of_mem (f := LocalEvent.id) he)
  length := h.symm

/-- The link of the moved event is followed, and the new one finds none. -/
theorem merged_iff_moved :
    Merged chores (chores.merge moved ["x".toList, "y".toList] meetingYear) moved meetingYear := by
  refine ((merged_iff meetingYear tidy_chores (newIds_chores rfl)).1 ?_).mpr ⟨⟨?_, ?_⟩, ?_⟩
  · refine ⟨⟨fun l hl => ?_, by decide⟩, ⟨fun l hl => ?_, by decide⟩, trivial⟩
    · obtain rfl := Option.some.inj hl
      exact .inl ⟨rfl, fun h => absurd h (by decide)⟩
    · cases hl
  · decide
  · intro r hr r' hr' hown
    rcases List.mem_pair.mp hr with rfl | rfl <;> rcases List.mem_pair.mp hr' with rfl | rfl
    · rfl
    · exact absurd hown.1 (by decide)
    · exact absurd hown.1 (by decide)
    · rfl
  · refine ⟨fun l hl hown => ?_, fun l hl hown => ?_, trivial⟩
    · obtain rfl := List.mem_singleton.mp hl
      rfl
    · obtain rfl := List.mem_singleton.mp hl
      exact absurd hown.1 (by decide)

/-- Of two events of one resource the first is not represented after the merge. -/
theorem not_merged : ¬ ∀ (c : LocalCalendar) (p : Pull) (ids : List Text) (w : Window),
    c.Tidy → NewIds c p ids → Merged c (c.merge p ids w) p w := by
  intro h
  have hmerged := h chores pair ["x".toList, "y".toList] meetingYear tidy_chores
    (newIds_chores rfl)
  obtain ⟨e, -, -, hlink, -⟩ := hmerged.represented ⟨"b".toList, "k".toList, [], meeting⟩
    List.mem_cons_self
  have hall : PulledEvent.link ⟨"b".toList, "k".toList, [], meeting⟩ e.id ∈
      (chores.mergeAll (pair.events.zip ["x".toList, "y".toList])).links :=
    ((mem_retain_links (tidy_mergeAll tidy_chores (newIds_chores rfl).freshIds)).mp hlink).1
  have huid : "b".toList ∈
      (chores.mergeAll (pair.events.zip ["x".toList, "y".toList])).links.map CalDavLink.uid :=
    List.mem_map.mpr ⟨_, hall, rfl⟩
  exact absurd huid (by decide)

end Orchid.Calendar
