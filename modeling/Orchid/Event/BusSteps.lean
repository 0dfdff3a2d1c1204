import Mathlib.Data.List.Nodup
import Orchid.Event.Bus
import Orchid.Lib.Trace

/-!
# The steps of the event bus

What a step of a call can do to the bus, and what every run keeps as long as no handler panics and
no subscribe writes to a map that a shutdown has cleared.
-/

namespace Orchid.Event

variable {P : Type} {sh : Shards} {b b' : EventBus P} {m : Move P}

/-! ### Points of the calls -/

/-- The number that a subscribe has taken from `next_seq`. -/
def Call.seq? : Call P → Option ℕ
  | .numbered _ seq => some seq
  | .indexing seq _ _ => some seq
  | .subscribed seq => some seq
  | _ => none

/-- A dispatch that has not come to its end. -/
def Call.UnderWay : Call P → Prop
  | .collecting _ _ _ _ => True
  | .dispatching _ _ _ => True
  | _ => False

/-- A shutdown has cleared `subs`. -/
def Call.SubsCleared (call : Call P) : Prop :=
  call = .clearWildcard ∨ call = .clearByType ∨ call = .shutDown

/-- A shutdown has cleared the wildcards. -/
def Call.WildcardCleared (call : Call P) : Prop := call = .clearByType ∨ call = .shutDown

/-- A subscribe has put its entry into `subs`. -/
def Call.HasEntered : Call P → Prop
  | .indexing _ _ _ => True
  | .subscribed _ => True
  | _ => False

/-- A target of another subscription, of a later priority or registered later. -/
def Target.Before (s t : Target) : Prop :=
  s.id ≠ t.id ∧
    (s.priority.rank < t.priority.rank ∨ s.priority.rank = t.priority.rank ∧ s.seq < t.seq)

namespace EventBus

/-! ### What a step can do -/

@[simp, grind =] lemma reach_subs (c : ℕ) (call : Call P) :
    (b.reach c call).subs = b.subs := rfl

@[simp, grind =] lemma reach_wildcard (c : ℕ) (call : Call P) :
    (b.reach c call).wildcard = b.wildcard := rfl

@[simp, grind =] lemma reach_byType (c : ℕ) (call : Call P) :
    (b.reach c call).byType = b.byType := rfl

@[simp, grind =] lemma reach_nextSeq (c : ℕ) (call : Call P) :
    (b.reach c call).nextSeq = b.nextSeq := rfl

@[simp, grind =] lemma reach_inFlight (c : ℕ) (call : Call P) :
    (b.reach c call).inFlight = b.inFlight := rfl

@[simp, grind =] lemma reach_tasks (c : ℕ) (call : Call P) :
    (b.reach c call).tasks = b.tasks := rfl


@[grind =] lemma reach_calls (c d : ℕ) (call : Call P) :
    (b.reach c call).calls d = if d = c then call else b.calls d := Function.update_apply ..

@[simp] lemma reach_self (c : ℕ) (call : Call P) : (b.reach c call).calls c = call :=
  Function.update_self ..

lemma reach_of_ne {c d : ℕ} (h : d ≠ c) (call : Call P) : (b.reach c call).calls d = b.calls d :=
  Function.update_of_ne h ..

@[grind =] lemma insert_calls (id d : ℕ) (e : SubscriptionEntry P) :
    (b.insert id e).calls d = b.calls d := rfl

@[grind =] lemma addType_calls (ty : Text) (id d : ℕ) : (b.addType ty id).calls d = b.calls d := rfl

@[grind =] lemma dropType_calls (ty : Text) (id d : ℕ) : (b.dropType ty id).calls d = b.calls d :=
  rfl

/-- The moves that are possible, with what they do. -/
inductive Step (sh : Shards) (b : EventBus P) : Move P → EventBus P → Prop
  | refuse {c m} (h : b.calls c = .idle) (hm : ∀ t, m ≠ .die t) : Step sh b m (b.reach c .rejected)
  | check {c r} (h : b.calls c = .idle) (hflag : b.shutdown = false) :
    Step sh b (.subscribe c r) (b.reach c (.checked r))
  | number {c r} (h : b.calls c = .checked r) :
    Step sh b (.step c) ({ b with nextSeq := b.nextSeq + 1 }.reach c (.numbered r b.nextSeq))
  | enter {c r seq} (h : b.calls c = .numbered r seq) :
    Step sh b (.step c) ((b.insert c ⟨r, seq⟩).reach c (.indexing seq r.filter r.filter.types))
  | indexWildcard {c seq f types} (h : b.calls c = .indexing seq f types) (hf : f.types = []) :
    Step sh b (.step c) ({ b with wildcard := c :: b.wildcard }.reach c (.subscribed seq))
  | indexType {c seq f ty types} (h : b.calls c = .indexing seq f (ty :: types))
    (hf : f.types ≠ []) : Step sh b (.step c) ((b.addType ty c).reach c (.indexing seq f types))
  | indexed {c seq f} (h : b.calls c = .indexing seq f []) (hf : f.types ≠ []) :
    Step sh b (.step c) (b.reach c (.subscribed seq))
  | unsubscribe {c id} (h : b.calls c = .idle) :
    Step sh b (.unsubscribe c id) (b.reach c (.removing id))
  | missing {c id} (h : b.calls c = .removing id) (hid : b.subs id = none) :
    Step sh b (.step c) (b.reach c .unsubscribed)
  | remove {c id e} (h : b.calls c = .removing id) (hid : b.subs id = some e) :
    Step sh b (.step c) ({ b with subs := Function.update b.subs id none }.reach c
      (.unindexing id e.filter e.filter.types))
  | unindexWildcard {c id f types} (h : b.calls c = .unindexing id f types) (hf : f.types = []) :
    Step sh b (.step c)
      ({ b with wildcard := b.wildcard.filter fun x => decide (x ≠ id) }.reach c .unsubscribed)
  | unindexType {c id f ty types} (h : b.calls c = .unindexing id f (ty :: types))
    (hf : f.types ≠ []) : Step sh b (.step c) ((b.dropType ty id).reach c (.unindexing id f types))
  | unindexed {c id f} (h : b.calls c = .unindexing id f []) (hf : f.types ≠ []) :
    Step sh b (.step c) (b.reach c .unsubscribed)
  | publish {c envelope} (h : b.calls c = .idle) :
    Step sh b (.publish c envelope) (b.reach c (.collecting envelope 0 [] []))
  | visit {c id envelope k seen found} (h : b.calls c = .collecting envelope k seen found)
    (hid : id ∈ b.keys sh envelope k) (hseen : id ∉ seen) :
    Step sh b (.visit c id)
      (b.reach c (.collecting envelope k (id :: seen) (b.collectIfMatch id envelope found)))
  | turn {c envelope k seen found} (h : b.calls c = .collecting envelope k seen found)
    (hall : ∀ id ∈ b.keys sh envelope k, id ∈ seen) (hk : k < sh.count) :
    Step sh b (.step c) (b.reach c (.collecting envelope (k + 1) seen found))
  | sort {c envelope k seen found} (h : b.calls c = .collecting envelope k seen found)
    (hall : ∀ id ∈ b.keys sh envelope k, id ∈ seen) (hk : ¬ k < sh.count) :
    Step sh b (.step c) (b.reach c (.dispatching envelope (found.mergeSort Target.le) []))
  | skip {c envelope t left invoked o} (h : b.calls c = .dispatching envelope (t :: left) invoked)
    (hid : b.subs t.id = none) :
    Step sh b (.deliver c o) (b.reach c (.dispatching envelope left invoked))
  | invoke {c envelope t left invoked o}
    (h : b.calls c = .dispatching envelope (t :: left) invoked) :
    Step sh b (.deliver c o) (b.reach c (.dispatching envelope left (invoked ++ [t])))
  | spawn {c envelope t left invoked o}
    (h : b.calls c = .dispatching envelope (t :: left) invoked) :
    Step sh b (.deliver c o)
      { b.reach c (.dispatching envelope left (invoked ++ [t])) with
        inFlight := b.inFlight + 1, tasks := b.tasks ++ [.running] }
  | unwind {c envelope t left invoked o} (h : b.calls c = .dispatching envelope (t :: left) invoked)
    (ho : o ≠ .returned) :
    Step sh b (.deliver c o) (b.reach c (.published envelope (invoked ++ [t])))
  | unspawned {c envelope t left invoked o}
    (h : b.calls c = .dispatching envelope (t :: left) invoked) (ho : o ≠ .returned) :
    Step sh b (.deliver c o)
      { b.reach c (.published envelope (invoked ++ [t])) with inFlight := b.inFlight + 1 }
  | complete {c envelope invoked} (h : b.calls c = .dispatching envelope [] invoked) :
    Step sh b (.step c) (b.reach c (.published envelope invoked))
  | shutdown {c} (h : b.calls c = .idle) :
    Step sh b (.shutdown c) ({ b with shutdown := true }.reach c .waiting)
  | wait {c} : Step sh b (.step c) b
  | drained {c} (h : b.calls c = .waiting) (hzero : b.inFlight = 0) :
    Step sh b (.step c) (b.reach c .clearSubs)
  | clearSubs {c} (h : b.calls c = .clearSubs) :
    Step sh b (.step c) ({ b with subs := fun _ => none }.reach c .clearWildcard)
  | clearWildcard {c} (h : b.calls c = .clearWildcard) :
    Step sh b (.step c) ({ b with wildcard := [] }.reach c .clearByType)
  | clearByType {c} (h : b.calls c = .clearByType) :
    Step sh b (.step c) ({ b with byType := fun _ => [] }.reach c .shutDown)
  | finish {t} (h : b.tasks[t]? = some .running) :
    Step sh b (.finish t) { b with tasks := b.tasks.set t .ended, inFlight := b.inFlight - 1 }
  | die {t} (h : b.tasks[t]? = some .running) :
    Step sh b (.die t) { b with tasks := b.tasks.set t .ended }

lemma step_of_advance {c : ℕ} (h : b.advance sh c (b.calls c) = some b') :
    Step sh b (.step c) b' := by
  cases hc : b.calls c <;> rw [hc] at h <;> simp only [advance, reduceCtorEq] at h
  case checked r => cases h; exact .number hc
  case numbered r seq => cases h; exact .enter hc
  case indexing seq f types =>
    split at h
    · cases h; exact .indexWildcard hc ‹_›
    · cases types with
      | nil => cases h; exact .indexed hc ‹_›
      | cons ty types => cases h; exact .indexType hc ‹_›
  case removing id =>
    cases hid : b.subs id with
    | none => rw [hid] at h; cases h; exact .missing hc hid
    | some e => rw [hid] at h; cases h; exact .remove hc hid
  case unindexing id f types =>
    split at h
    · cases h; exact .unindexWildcard hc ‹_›
    · cases types with
      | nil => cases h; exact .unindexed hc ‹_›
      | cons ty types => cases h; exact .unindexType hc ‹_›
  case collecting envelope k seen found =>
    split at h
    · have hall : ∀ id ∈ b.keys sh envelope k, id ∈ seen :=
        fun id hid => of_decide_eq_true (List.all_eq_true.mp ‹_› id hid)
      split at h
      · cases h; exact .turn hc hall ‹_›
      · cases h; exact .sort hc hall ‹_›
    · cases h
  case dispatching envelope left invoked =>
    cases left with
    | nil => cases h; exact .complete hc
    | cons t left => cases h
  case waiting =>
    cases h
    split
    · exact .drained hc ‹_›
    · exact .wait
  case clearSubs => cases h; exact .clearSubs hc
  case clearWildcard => cases h; exact .clearWildcard hc
  case clearByType => cases h; exact .clearByType hc

lemma step_of_deliver {c : ℕ} {envelope : EventEnvelope P} {t : Target} {left invoked : List Target}
    {o : Outcome} (hc : b.calls c = .dispatching envelope (t :: left) invoked)
    (h : b.deliver c envelope t left invoked o = some b') : Step sh b (.deliver c o) b' := by
  unfold deliver at h
  cases hid : b.subs t.id with
  | none =>
    cases o <;> simp only [hid, reduceCtorEq] at h
    cases h
    exact .skip hc hid
  | some e =>
    cases hh : e.handler <;> cases o <;> simp only [hid, hh, reduceCtorEq] at h <;> cases h
    · exact .invoke hc
    · exact .spawn hc
    · exact .unwind hc (by simp)
    · exact .unspawned hc (by simp)
    · exact .invoke hc
    · exact .unwind hc (by simp)

lemma step_of_next (h : b.next sh m = some b') : Step sh b m b' := by
  cases m with
  | subscribe c r =>
    cases hc : b.calls c <;> simp only [next, hc, reduceCtorEq] at h
    cases h
    cases hflag : b.shutdown
    · exact .check hc hflag
    · exact .refuse hc (by simp)
  | unsubscribe c id =>
    cases hc : b.calls c <;> simp only [next, hc, reduceCtorEq] at h
    cases h
    exact .unsubscribe hc
  | publish c envelope =>
    cases hc : b.calls c <;> simp only [next, hc, reduceCtorEq] at h
    cases h
    cases hflag : b.shutdown
    · exact .publish hc
    · exact .refuse hc (by simp)
  | shutdown c =>
    cases hc : b.calls c <;> simp only [next, hc, reduceCtorEq] at h
    cases h
    exact .shutdown hc
  | step c => exact step_of_advance h
  | visit c id =>
    cases hc : b.calls c <;> simp only [next, hc, reduceCtorEq] at h
    split at h
    · cases h
      exact .visit hc (And.left ‹_›) (And.right ‹_›)
    · cases h
  | deliver c o =>
    cases hc : b.calls c <;> simp only [next, hc, reduceCtorEq] at h
    case dispatching envelope left invoked =>
      cases left with
      | nil => cases h
      | cons t left => exact step_of_deliver hc h
  | finish t =>
    simp only [next] at h
    split at h
    · cases h; exact .finish ‹_›
    · cases h
  | die t =>
    simp only [next] at h
    split at h
    · cases h; exact .die ‹_›
    · cases h

/-! ### The invariant -/

/-- The entry can be found from its index. -/
def Indexed (b : EventBus P) (id : ℕ) (f : EventFilter P) : Prop :=
  (f.types = [] → id ∈ b.wildcard) ∧ ∀ ty ∈ f.types, id ∈ b.byType ty

/-- How far the subscribe that has put an entry into `subs` has come. -/
def Entered (b : EventBus P) (id : ℕ) (e : SubscriptionEntry P) : Call P → Prop
  | .indexing seq f types =>
    e.seq = seq ∧ e.filter = f ∧ ∀ ty ∈ f.types, ty ∈ types ∨ id ∈ b.byType ty
  | .subscribed seq => e.seq = seq ∧ b.Indexed id e.filter
  | _ => False

/-- A call has found its targets, or brings them into order. -/
def Tidy (b : EventBus P) : Call P → Prop
  | .collecting _ _ seen found => (found.map Target.id).Nodup ∧
    ∀ t ∈ found, t.id ∈ seen ∧ (b.calls t.id).seq? = some t.seq
  | .dispatching _ left invoked => (invoked ++ left).Pairwise Target.Before
  | .published _ invoked => invoked.Pairwise Target.Before
  | _ => True

lemma reach_elim {p : Call P → Prop} {c d : ℕ} {call : Call P} (hself : d = c → p call)
    (hne : d ≠ c → p (b.calls d)) : p ((b.reach c call).calls d) := by
  by_cases hd : d = c
  · subst hd
    rw [reach_self]
    exact hself rfl
  · rw [reach_of_ne hd]
    exact hne hd

lemma seq?_of_step (h : Step sh b m b') {d q : ℕ} (hd : (b.calls d).seq? = some q) :
    (b'.calls d).seq? = some q := by
  cases h <;> first
    | exact hd
    | refine reach_elim (p := fun call => call.seq? = some q) ?_ fun _ => hd
      rintro rfl
      simp_all [Call.seq?]

/-- The moves that reach none of the defects: no handler panics, and no subscribe writes to a map
that a shutdown has cleared. -/
def Orderly (b : EventBus P) : Move P → Prop
  | .step c =>
    match b.calls c with
    | .numbered _ _ => ∀ d, ¬ (b.calls d).SubsCleared
    | .indexing _ f types =>
      if f.types = [] then ∀ d, ¬ (b.calls d).WildcardCleared
      else types ≠ [] → ∀ d, b.calls d ≠ .shutDown
    | _ => True
  | .deliver _ outcome => outcome = .returned
  | .die _ => False
  | _ => True

/-- What holds in every state of an orderly run. -/
structure Invariant (b : EventBus P) : Prop where
  counted : b.inFlight = b.tasks.count .running
  seq_lt : ∀ c q, (b.calls c).seq? = some q → q < b.nextSeq
  seq_inj : ∀ c d q, (b.calls c).seq? = some q → (b.calls d).seq? = some q → c = d
  entered : ∀ id e, b.subs id = some e → b.Entered id e (b.calls id)
  detached : ∀ c id f types, b.calls c = .unindexing id f types → b.subs id = none ∧
    (b.calls id).HasEntered
  subsCleared : ∀ d, (b.calls d).SubsCleared → b.subs = fun _ => none
  wildcardCleared : ∀ d, (b.calls d).WildcardCleared → b.wildcard = []
  byTypeCleared : ∀ d, b.calls d = .shutDown → b.byType = fun _ => []
  tidy : ∀ c, b.Tidy (b.calls c)

lemma Orderly.of_numbered {c seq : ℕ} {r : Request P} (ho : b.Orderly (.step c))
    (h : b.calls c = .numbered r seq) (d : ℕ) : ¬ (b.calls d).SubsCleared := by
  simp only [Orderly, h] at ho
  exact ho d

lemma Orderly.of_wildcard {c seq : ℕ} {f : EventFilter P} {types : List Text}
    (ho : b.Orderly (.step c)) (h : b.calls c = .indexing seq f types) (hf : f.types = []) (d : ℕ) :
    ¬ (b.calls d).WildcardCleared := by
  simp only [Orderly, h, if_pos hf] at ho
  exact ho d

lemma Orderly.of_type {c seq : ℕ} {f : EventFilter P} {ty : Text} {types : List Text}
    (ho : b.Orderly (.step c)) (h : b.calls c = .indexing seq f (ty :: types)) (hf : f.types ≠ [])
    (d : ℕ) : b.calls d ≠ .shutDown := by
  rw [Orderly, h] at ho
  simp only [if_neg hf] at ho
  exact ho (List.cons_ne_nil ty types) d

/-! ### One step -/

lemma subsCleared_step (hi : b.Invariant) (ho : b.Orderly m) (h : Step sh b m b') (d : ℕ)
    (hd : (b'.calls d).SubsCleared) : b'.subs = fun _ => none := by
  have := hi.subsCleared
  have hupdate (id : ℕ) : Function.update (fun _ => none) id none =
      fun _ : ℕ => (none : Option (SubscriptionEntry P)) := Function.update_eq_self ..
  cases h
  case enter hc =>
    have hnot := ho.of_numbered hc d
    grind [insert, Call.SubsCleared]
  all_goals grind [addType, dropType, Call.SubsCleared]

lemma wildcardCleared_step (hi : b.Invariant) (ho : b.Orderly m) (h : Step sh b m b') (d : ℕ)
    (hd : (b'.calls d).WildcardCleared) : b'.wildcard = [] := by
  have := hi.wildcardCleared
  cases h
  case indexWildcard hc hf =>
    have hnot := ho.of_wildcard hc hf d
    grind [Call.WildcardCleared]
  all_goals grind [insert, addType, dropType, Call.WildcardCleared]

lemma byTypeCleared_step (hi : b.Invariant) (ho : b.Orderly m) (h : Step sh b m b') (d : ℕ)
    (hd : b'.calls d = .shutDown) : b'.byType = fun _ => [] := by
  have := hi.byTypeCleared
  have hupdate (ty : Text) : Function.update (fun _ => []) ty [] = fun _ : Text => ([] : List ℕ) :=
    Function.update_eq_self ..
  cases h
  case indexType hc hf =>
    have hnot := ho.of_type hc hf d
    grind [addType]
  all_goals grind [insert, dropType]

lemma count_set_running {tasks : List Task} {t : ℕ} (ht : tasks[t]? = some .running) :
    (tasks.set t .ended).count .running + 1 = tasks.count .running := by
  obtain ⟨hlt, hget⟩ := List.getElem?_eq_some_iff.mp ht
  have hset := List.count_set (a := Task.ended) (b := Task.running) hlt
  have hpos : 0 < tasks.count .running := List.count_pos_iff.mpr (List.mem_of_getElem? ht)
  rw [hget] at hset
  simp only [beq_self_eq_true, if_true] at hset
  simp only [hset, reduceCtorEq, beq_iff_eq, if_false]
  omega

lemma counted_step (hi : b.Invariant) (ho : b.Orderly m) (h : Step sh b m b') :
    b'.inFlight = b'.tasks.count .running := by
  have := hi.counted
  cases h
  case spawn => grind
  case unspawned ho' => exact absurd ho ho'
  case finish t ht =>
    have hset := count_set_running ht
    simp only
    omega
  case die => exact ho.elim
  all_goals exact this

lemma seq_lt_step (hi : b.Invariant) (h : Step sh b m b') (c q : ℕ)
    (hq : (b'.calls c).seq? = some q) : q < b'.nextSeq := by
  have := hi.seq_lt c
  cases h <;> grind [insert, addType, dropType, Call.seq?]

lemma seq_inj_step (hi : b.Invariant) (h : Step sh b m b') (c d q : ℕ)
    (hc : (b'.calls c).seq? = some q) (hd : (b'.calls d).seq? = some q) : c = d := by
  have := hi.seq_inj
  have := hi.seq_lt
  cases h <;> grind [insert, addType, dropType, Call.seq?]

lemma hasEntered_of_entered {id : ℕ} {e : SubscriptionEntry P} {call : Call P}
    (h : b.Entered id e call) : call.HasEntered := by
  cases call <;> first | exact h | trivial

lemma hasEntered_of_step (h : Step sh b m b') {id : ℕ} (hid : (b.calls id).HasEntered) :
    (b'.calls id).HasEntered := by
  cases h <;> first
    | exact hid
    | refine reach_elim (fun hd => ?_) fun _ => hid
      subst hd
      simp_all [Call.HasEntered]

lemma detached_step (hi : b.Invariant) (h : Step sh b m b') (c id : ℕ) (f : EventFilter P)
    (types : List Text) (hc : b'.calls c = .unindexing id f types) :
    b'.subs id = none ∧ (b'.calls id).HasEntered := by
  have hold := hi.detached c id
  suffices hnew : b'.subs id = none ∧ (b.calls id).HasEntered from
    ⟨hnew.1, hasEntered_of_step h hnew.2⟩
  cases h
  case enter d r seq hr =>
    rw [reach_of_ne (by rintro rfl; simp at hc)] at hc
    have := hold _ _ hc
    have hne : id ≠ d := by
      rintro rfl
      rw [hr] at this
      exact this.2
    simpa [insert, hne] using this
  case remove d x e hx he =>
    have hentered := hasEntered_of_entered (hi.entered x e he)
    by_cases hcd : c = d
    · subst hcd
      rw [reach_self] at hc
      cases hc
      exact ⟨Function.update_self .., hentered⟩
    · rw [reach_of_ne hcd] at hc
      have := hold _ _ hc
      simp [Function.update_apply, this]
  all_goals grind [addType, dropType]

lemma Entered.mono {id : ℕ} {e : SubscriptionEntry P} {call : Call P} (h : b.Entered id e call)
    (hw : id ∈ b.wildcard → id ∈ b'.wildcard)
    (ht : ∀ ty, id ∈ b.byType ty → id ∈ b'.byType ty) : b'.Entered id e call := by
  cases call <;> try exact h
  · exact ⟨h.1, h.2.1, fun ty hty => (h.2.2 ty hty).imp_right (ht ty)⟩
  · exact ⟨h.1, fun hf => hw (h.2.1 hf), fun ty hty => ht ty (h.2.2 ty hty)⟩

lemma mem_addType {ty ty' : Text} {id id' : ℕ} (h : id ∈ b.byType ty') :
    id ∈ (b.addType ty id').byType ty' := by
  unfold addType
  by_cases hty : ty' = ty
  · subst hty
    simp [h]
  · simpa [hty] using h

lemma mem_dropType {ty ty' : Text} {id id' : ℕ} (hid : id ≠ id') (h : id ∈ b.byType ty') :
    id ∈ (b.dropType ty id').byType ty' := by
  unfold dropType
  by_cases hty : ty' = ty
  · subst hty
    simp [h, hid]
  · simpa [hty] using h

lemma entered_step (hi : b.Invariant) (h : Step sh b m b') (id : ℕ) (e : SubscriptionEntry P)
    (he : b'.subs id = some e) : b'.Entered id e (b'.calls id) := by
  have hold := hi.entered id e
  cases h
  case enter c r seq hc =>
    by_cases hid : id = c
    · subst hid
      simp only [reach_subs, insert, Function.update_self, Option.some.injEq] at he
      subst he
      rw [reach_self]
      exact ⟨rfl, rfl, fun ty hty => .inl hty⟩
    · rw [reach_of_ne hid]
      simp only [reach_subs, insert, Function.update_of_ne hid] at he
      exact (hold he).mono (fun h => h) fun _ h => h
  case indexWildcard c seq f types hc hf =>
    refine reach_elim (fun hid => ?_) fun _ => (hold he).mono (List.mem_cons_of_mem _) fun _ h => h
    subst hid
    have := hold he
    rw [hc] at this
    obtain ⟨hseq, rfl, -⟩ := this
    refine ⟨hseq, fun _ => List.mem_cons_self .., fun ty hty => ?_⟩
    simp [hf] at hty
  case indexType c seq f ty types hc hf =>
    refine reach_elim (fun hid => ?_) fun _ => (hold he).mono (fun h => h) fun _ => mem_addType
    subst hid
    have := hold he
    rw [hc] at this
    refine ⟨this.1, this.2.1, fun ty' hty' => ?_⟩
    rcases this.2.2 ty' hty' with h | h
    · rcases List.mem_cons.mp h with rfl | h
      · right
        simp [addType]
      · exact .inl h
    · exact .inr (mem_addType h)
  case indexed c seq f hc hf =>
    refine reach_elim (fun hid => ?_) fun _ => hold he
    subst hid
    have := hold he
    rw [hc] at this
    obtain ⟨hseq, rfl, hall⟩ := this
    refine ⟨hseq, fun h => absurd h hf, fun ty hty => ?_⟩
    simpa using hall ty hty
  case remove c x e' hc hx =>
    have hid : id ≠ x := by
      rintro rfl
      simp at he
    simp only [reach_subs, Function.update_of_ne hid] at he
    refine reach_elim (fun h => ?_) fun _ => (hold he).mono (fun h => h) fun _ h => h
    subst h
    have := hold he
    rw [hc] at this
    exact this.elim
  case unindexWildcard c x f types hc hf =>
    have hid : id ≠ x := by
      rintro rfl
      have := (hi.detached _ _ _ _ hc).1
      simp [this] at he
    refine reach_elim (fun h => ?_) fun _ => (hold he).mono ?_ fun _ h => h
    · subst h
      have := hold he
      rw [hc] at this
      exact this.elim
    · intro h
      simp [h, hid]
  case unindexType c x f ty types hc hf =>
    have hid : id ≠ x := by
      rintro rfl
      have := (hi.detached _ _ _ _ hc).1
      simp [dropType, this] at he
    refine reach_elim (fun h => ?_) fun _ => (hold he).mono (fun h => h) fun _ => mem_dropType hid
    subst h
    have := hold he
    rw [hc] at this
    exact this.elim
  case clearSubs => simp at he
  case clearWildcard hc =>
    have := hi.subsCleared _ (.inl hc)
    simp [this] at he
  case clearByType hc =>
    have := hi.subsCleared _ (.inr (.inl hc))
    simp [this] at he
  all_goals first
    | exact hold he
    | refine reach_elim (fun h => ?_) fun _ => hold he
      subst h
      have := hold he
      simp_all [Entered]

/-! ### Order -/

lemma before_of_le {s t : Target} (hle : Target.le s t = true) (hid : s.id ≠ t.id)
    (hseq : s.seq ≠ t.seq) : s.Before t := by
  simp only [Target.le, Bool.or_eq_true, Bool.and_eq_true, decide_eq_true_eq] at hle
  exact ⟨hid, hle.imp_right fun h => ⟨h.1, lt_of_le_of_ne h.2 hseq⟩⟩

lemma nodup_of_before {l : List Target} (h : l.Pairwise Target.Before) :
    (l.map Target.id).Nodup :=
  List.pairwise_map.mpr (h.imp And.left)

lemma pairwise_sorted (found : List Target) :
    (found.mergeSort Target.le).Pairwise fun s t => Target.le s t = true := by
  refine List.pairwise_mergeSort ?_ ?_ found
  · intro s t u hst htu
    simp only [Target.le, Bool.or_eq_true, Bool.and_eq_true, decide_eq_true_eq] at hst htu ⊢
    omega
  · intro s t
    simp only [Target.le, Bool.or_eq_true, Bool.and_eq_true, decide_eq_true_eq]
    omega

/-- Sorting brings targets of different subscriptions into strict order. -/
lemma pairwise_before_sorted {found : List Target} (hnodup : (found.map Target.id).Nodup)
    (hseq : ∀ s ∈ found, ∀ t ∈ found, s.seq = t.seq → s.id = t.id) :
    (found.mergeSort Target.le).Pairwise Target.Before := by
  have hperm := List.mergeSort_perm found Target.le
  have hne : (found.mergeSort Target.le).Pairwise fun s t => s.id ≠ t.id :=
    List.pairwise_map.mp ((hperm.map Target.id).nodup_iff.mpr hnodup)
  refine ((pairwise_sorted found).and hne).imp_of_mem fun {s t} hs ht hst => ?_
  exact before_of_le hst.1 hst.2 fun h =>
    hst.2 (hseq s (List.mem_mergeSort.mp hs) t (List.mem_mergeSort.mp ht) h)

lemma tidy_of_step (h : Step sh b m b') {call : Call P} (ht : b.Tidy call) : b'.Tidy call := by
  cases call <;> try exact ht
  exact ⟨ht.1, fun t hmem => (ht.2 t hmem).imp_right (seq?_of_step h)⟩

lemma seq?_of_entered {id : ℕ} {e : SubscriptionEntry P} {call : Call P} (h : b.Entered id e call) :
    call.seq? = some e.seq := by
  cases call <;> first
    | exact congrArg some h.1.symm
    | exact h.elim

lemma tidy_visit (hi : b.Invariant) {envelope : EventEnvelope P} {k id : ℕ} {seen : List ℕ}
    {found : List Target} (ht : b.Tidy (.collecting envelope k seen found)) (hid : id ∉ seen) :
    b.Tidy (.collecting envelope k (id :: seen) (b.collectIfMatch id envelope found)) := by
  have hold : ∀ t ∈ found, t.id ∈ id :: seen ∧ (b.calls t.id).seq? = some t.seq :=
    fun t hmem => (ht.2 t hmem).imp_left (List.mem_cons_of_mem _)
  unfold collectIfMatch
  cases he : b.subs id with
  | none => exact ⟨ht.1, hold⟩
  | some e =>
    simp only
    split
    · refine ⟨?_, fun t hmem => ?_⟩
      · rw [List.map_append, List.nodup_append]
        refine ⟨ht.1, by simp, fun x hx y hy => ?_⟩
        obtain ⟨t, hmem, rfl⟩ := List.mem_map.mp hx
        simp only [SubscriptionEntry.target, List.map_cons, List.map_nil, List.mem_singleton] at hy
        rintro rfl
        exact hid (hy ▸ (ht.2 t hmem).1)
      · rcases List.mem_append.mp hmem with hmem | hmem
        · exact hold t hmem
        · obtain rfl := List.mem_singleton.mp hmem
          exact ⟨List.mem_cons_self .., seq?_of_entered (hi.entered id e he)⟩
    · exact ⟨ht.1, hold⟩

lemma tidy_step (hi : b.Invariant) (h : Step sh b m b') (c : ℕ) : b'.Tidy (b'.calls c) := by
  have hold := hi.tidy c
  refine tidy_of_step h ?_
  cases h
  case visit d id envelope k seen found hc hid hseen =>
    refine reach_elim (fun hcd => ?_) fun _ => hold
    subst hcd
    rw [hc] at hold
    exact tidy_visit hi hold hseen
  case sort d envelope k seen found hc hall hk =>
    refine reach_elim (fun hcd => ?_) fun _ => hold
    subst hcd
    rw [hc] at hold
    refine pairwise_before_sorted hold.1 fun s hs t ht hst => ?_
    refine hi.seq_inj _ _ s.seq (hold.2 s hs).2 ?_
    rw [hst]
    exact (hold.2 t ht).2
  case skip d envelope t left invoked o hc hid =>
    refine reach_elim (fun hcd => ?_) fun _ => hold
    subst hcd
    rw [hc] at hold
    exact hold.sublist (List.Sublist.append_left (List.sublist_cons_self ..) _)
  case unwind d envelope t left invoked o hc ho =>
    refine reach_elim (fun hcd => ?_) fun _ => hold
    subst hcd
    rw [hc] at hold
    exact hold.sublist (List.Sublist.append_left ((List.nil_sublist _).cons_cons t) _)
  case unspawned d envelope t left invoked o hc ho =>
    refine reach_elim (fun hcd => ?_) fun _ => hold
    subst hcd
    rw [hc] at hold
    exact hold.sublist (List.Sublist.append_left ((List.nil_sublist _).cons_cons t) _)
  all_goals first
    | exact hold
    | refine reach_elim (fun hcd => ?_) fun _ => hold
      subst hcd
      simp_all [Tidy]

/-- Every orderly step keeps the invariant. -/
lemma invariant_step (hi : b.Invariant) (ho : b.Orderly m) (h : Step sh b m b') : b'.Invariant where
  counted := counted_step hi ho h
  seq_lt := seq_lt_step hi h
  seq_inj := seq_inj_step hi h
  entered := entered_step hi h
  detached := detached_step hi h
  subsCleared := subsCleared_step hi ho h
  wildcardCleared := wildcardCleared_step hi ho h
  byTypeCleared := byTypeCleared_step hi ho h
  tidy := tidy_step hi h

lemma invariant_new : ({} : EventBus P).Invariant where
  counted := rfl
  seq_lt _ _ h := by cases h
  seq_inj _ _ _ h := by cases h
  entered _ _ h := by cases h
  detached _ _ _ _ h := by cases h
  subsCleared _ h := by rcases h with h | h | h <;> cases h
  wildcardCleared _ h := by rcases h with h | h <;> cases h
  byTypeCleared _ h := by cases h
  tidy _ := trivial

/-- Every orderly run keeps the invariant. -/
lemma invariant_of_run {moves : List (Move P)} (ho : Lib.AlongM (next sh) Orderly {} moves)
    (h : run sh moves = some b) : b.Invariant :=
  Lib.invariant_of_alongM (fun _ _ _ hi ho hnext => invariant_step hi ho (step_of_next hnext))
    invariant_new ho h

end EventBus

end Orchid.Event
