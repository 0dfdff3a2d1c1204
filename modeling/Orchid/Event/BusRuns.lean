import Orchid.Event.BusSteps

/-!
# Runs of the event bus

An orderly run keeps the counter of the spawned handlers right, lets every shutdown end with nothing
left, and serves each event to the subscriptions that stay. A handler that panics breaks this.
-/

namespace Orchid.Event

variable {P : Type} {sh : Shards} {b b' : EventBus P} {m : Move P}

namespace EventBus

/-! ### A subscription during a dispatch -/

/-- The part of the maps in which a subscription is found. -/
def home (sh : Shards) (f : EventFilter P) (id : ℕ) : ℕ :=
  if f.types = [] then sh.shard id else sh.count

/-- The subscribe has returned, and the entry is in `subs`. -/
def Present (b : EventBus P) (id : ℕ) (e : SubscriptionEntry P) : Prop :=
  b.calls id = .subscribed e.seq ∧ b.subs id = some e

/-- A dispatch has not lost a matching subscription: it is seen once its part of the maps is
passed, and found once it is seen. -/
def Owed (sh : Shards) (id : ℕ) (e : SubscriptionEntry P) : Call P → Prop
  | .collecting envelope k seen found => e.filter.matches envelope = true →
    (home sh e.filter id < k → id ∈ seen) ∧ (id ∈ seen → e.target id ∈ found)
  | .dispatching envelope left invoked =>
    e.filter.matches envelope = true → e.target id ∈ invoked ++ left
  | .published envelope invoked => e.filter.matches envelope = true → e.target id ∈ invoked
  | _ => True

lemma eventType_mem_of_matches {f : EventFilter P} {envelope : EventEnvelope P}
    (h : f.matches envelope = true) (hf : f.types ≠ []) : envelope.eventType ∈ f.types := by
  by_contra hmem
  have hnone : f.types.any (fun ty => decide (ty = envelope.eventType)) = false := by
    rw [List.any_eq_false]
    intro ty hty heq
    exact hmem (of_decide_eq_true heq ▸ hty)
  have hempty : f.types.isEmpty = false := by simpa using hf
  simp [EventFilter.matches, hnone, hempty] at h

lemma home_le (f : EventFilter P) (id : ℕ) : home sh f id ≤ sh.count := by
  unfold home
  split
  · exact (sh.shard_lt id).le
  · exact le_rfl

/-- A subscription that is present is among the ids that a dispatch looks at. -/
lemma mem_keys (hi : b.Invariant) {id : ℕ} {e : SubscriptionEntry P} (hp : b.Present id e)
    {envelope : EventEnvelope P} (hm : e.filter.matches envelope = true) :
    id ∈ b.keys sh envelope (home sh e.filter id) := by
  have hentered := hi.entered id e hp.2
  rw [hp.1] at hentered
  obtain ⟨-, hwild, htypes⟩ := hentered
  unfold keys home
  by_cases hf : e.filter.types = []
  · rw [if_pos hf, if_pos (sh.shard_lt id)]
    simpa using hwild hf
  · rw [if_neg hf, if_neg (lt_irrefl _)]
    exact htypes _ (eventType_mem_of_matches hm hf)

lemma mem_collectIfMatch {id : ℕ} {envelope : EventEnvelope P} {found : List Target} {t : Target}
    (h : t ∈ found) : t ∈ b.collectIfMatch id envelope found := by
  unfold collectIfMatch
  split
  · exact h
  · split
    · exact List.mem_append_left _ h
    · exact h

lemma target_mem_collectIfMatch {id : ℕ} {e : SubscriptionEntry P} {envelope : EventEnvelope P}
    (he : b.subs id = some e) (hm : e.filter.matches envelope = true) (found : List Target) :
    e.target id ∈ b.collectIfMatch id envelope found := by
  simp [collectIfMatch, he, hm]

lemma owed_step (hi : b.Invariant) (ho : b.Orderly m) (h : Step sh b m b') {c id : ℕ}
    {e : SubscriptionEntry P} (hp : (b.calls c).UnderWay → b.Present id e)
    (howed : Owed sh id e (b.calls c)) : Owed sh id e (b'.calls c) := by
  cases h
  case visit d x envelope k seen found hc hx hseen =>
    refine reach_elim (fun hcd => ?_) fun _ => howed
    subst hcd
    rw [hc] at howed hp
    intro hm
    obtain ⟨hpassed, hfound⟩ := howed hm
    refine ⟨fun hk => List.mem_cons_of_mem _ (hpassed hk), fun hmem => ?_⟩
    rcases List.mem_cons.mp hmem with rfl | hmem
    · exact target_mem_collectIfMatch (hp trivial).2 hm found
    · exact mem_collectIfMatch (hfound hmem)
  case turn d envelope k seen found hc hall hk =>
    refine reach_elim (fun hcd => ?_) fun _ => howed
    subst hcd
    rw [hc] at howed hp
    intro hm
    obtain ⟨hpassed, hfound⟩ := howed hm
    refine ⟨fun hlt => ?_, hfound⟩
    rcases Nat.lt_succ_iff_lt_or_eq.mp hlt with hlt | heq
    · exact hpassed hlt
    · exact hall id (heq ▸ mem_keys hi (hp trivial) hm)
  case sort d envelope k seen found hc hall hk =>
    refine reach_elim (fun hcd => ?_) fun _ => howed
    subst hcd
    rw [hc] at howed hp
    intro hm
    obtain ⟨hpassed, hfound⟩ := howed hm
    rw [List.nil_append, List.mem_mergeSort]
    refine hfound ?_
    rcases Nat.lt_or_eq_of_le ((home_le e.filter id).trans (not_lt.mp hk)) with hlt | heq
    · exact hpassed hlt
    · exact hall id (heq ▸ mem_keys hi (hp trivial) hm)
  case skip d envelope t left invoked o hc hnone =>
    refine reach_elim (fun hcd => ?_) fun _ => howed
    subst hcd
    rw [hc] at howed hp
    intro hm
    have hne : e.target id ≠ t := by
      rintro rfl
      rw [show (e.target id).id = id from rfl, (hp trivial).2] at hnone
      cases hnone
    simpa [hne] using howed hm
  case unwind ho' => exact absurd ho ho'
  case unspawned ho' => exact absurd ho ho'
  all_goals first
    | exact howed
    | refine reach_elim (fun hcd => ?_) fun _ => howed
      subst hcd
      simp_all [Owed]

/-! ### Whole runs -/

/-- The state that a run has come to. -/
structure Reliable (sh : Shards) (moves : List (Move P)) (b : EventBus P) : Prop where
  /-- The counter is the number of the handlers that have not finished. -/
  counted : b.inFlight = b.tasks.count .running
  /-- A shutdown goes on once all of them have ended. -/
  drains : ∀ d, b.calls d = .waiting → (∀ t ∈ b.tasks, t = .ended) →
    ∃ b', b.next sh (.step d) = some b' ∧ b'.calls d = .clearSubs
  /-- A shutdown that has returned has left no subscription. -/
  cleared : ∀ d, b.calls d = .shutDown →
    (∀ id, b.subs id = none) ∧ b.wildcard = [] ∧ ∀ ty, b.byType ty = []
  /-- Handlers are invoked in the order of their priorities and registrations. -/
  ordered : ∀ c envelope invoked, b.calls c = .published envelope invoked →
    invoked.Pairwise Target.Before
  /-- What matches and is present throughout the dispatch is invoked once. -/
  served : ∀ c envelope invoked, b.calls c = .published envelope invoked →
    ∀ id e, e.filter.matches envelope = true →
    Lib.AlongM (next sh) (fun b _ => (b.calls c).UnderWay → b.Present id e) {} moves →
    e.target id ∈ invoked ∧ (invoked.map Target.id).count id = 1

lemma drains_of_invariant (hi : b.Invariant) {d : ℕ} (hd : b.calls d = .waiting)
    (hended : ∀ t ∈ b.tasks, t = .ended) :
    ∃ b', b.next sh (.step d) = some b' ∧ b'.calls d = .clearSubs := by
  have hzero : b.inFlight = 0 := by
    rw [hi.counted, List.count_eq_zero]
    intro hmem
    cases hended _ hmem
  refine ⟨b.reach d .clearSubs, ?_, reach_self ..⟩
  simp [next, advance, hd, hzero]

/-- The invariant and what a dispatch owes to a subscription that stays. -/
lemma owed_of_run {moves : List (Move P)} (ho : Lib.AlongM (next sh) Orderly {} moves)
    (h : run sh moves = some b) {c id : ℕ} {e : SubscriptionEntry P}
    (hp : Lib.AlongM (next sh) (fun b _ => (b.calls c).UnderWay → b.Present id e) {} moves) :
    Owed sh id e (b.calls c) := by
  have hnew : Owed sh id e (({} : EventBus P).calls c) := trivial
  have hboth : b.Invariant ∧ Owed sh id e (b.calls c) :=
    Lib.invariant_of_alongM (r := fun b => b.Invariant ∧ Owed sh id e (b.calls c))
      (fun _ _ _ hi ho hnext => ⟨invariant_step hi.1 ho.1 (step_of_next hnext),
        owed_step hi.1 ho.1 (step_of_next hnext) ho.2 hi.2⟩)
      ⟨invariant_new, hnew⟩ (Lib.alongM_and ho hp) h
  exact hboth.2

/-- In every orderly run the counter is right, a shutdown can end and leaves nothing, and each
dispatch serves the subscriptions that stay, in order. -/
theorem reliable_of_orderly {moves : List (Move P)}
    (ho : Lib.AlongM (next sh) Orderly {} moves) (h : run sh moves = some b) :
    Reliable sh moves b := by
  have hi := invariant_of_run ho h
  have hordered (c envelope invoked) (hc : b.calls c = .published envelope invoked) :
      invoked.Pairwise Target.Before := by
    have htidy := hi.tidy c
    rwa [hc] at htidy
  refine ⟨hi.counted, fun d => drains_of_invariant hi,
    fun d hd => ⟨fun id => ?_, ?_, fun ty => ?_⟩, hordered,
    fun c envelope invoked hc id e hm hp => ?_⟩
  · rw [hi.subsCleared d (.inr (.inr hd))]
  · exact hi.wildcardCleared d (.inr hd)
  · rw [hi.byTypeCleared d hd]
  · have howed := owed_of_run ho h hp
    rw [hc] at howed
    have hnodup := nodup_of_before (hordered c envelope invoked hc)
    refine ⟨howed hm, List.count_eq_one_of_mem hnodup ?_⟩
    exact List.mem_map_of_mem (f := Target.id) (howed hm)

/-! ### Where a run is not orderly -/

/-- The counter never falls below the number of the running tasks, orderly or not. -/
lemma running_le_step (h : Step sh b m b') {k : ℕ} (hk : b.tasks.count .running + k ≤ b.inFlight) :
    b'.tasks.count .running + k ≤ b'.inFlight := by
  cases h
  case spawn =>
    simp only [List.count_append, List.count_singleton_self]
    omega
  case unspawned =>
    simp only [reach_tasks]
    omega
  case finish ht =>
    have := count_set_running ht
    simp only
    omega
  case die ht =>
    have := count_set_running ht
    simp only
    omega
  all_goals exact hk

lemma running_le_of_foldlM {moves : List (Move P)} {k : ℕ}
    (hk : b.tasks.count .running + k ≤ b.inFlight) (h : moves.foldlM (next sh) b = some b') :
    b'.tasks.count .running + k ≤ b'.inFlight :=
  Lib.rel_of_foldlM
    (r := fun b b' => b.tasks.count .running + k ≤ b.inFlight →
      b'.tasks.count .running + k ≤ b'.inFlight)
    (fun _ h => h) (fun _ _ _ h₁ h₂ h => h₂ (h₁ h))
    (fun _ _ _ hnext h => running_le_step (step_of_next hnext) h) h hk

/-- After a handler has panicked in its task, no shutdown gets past its wait any more. -/
lemma waits_after_die {before after : List (Move P)} {t : ℕ}
    (h : run sh (before ++ .die t :: after) = some b) {d : ℕ} (hd : b.calls d = .waiting) :
    b.next sh (.step d) = some b := by
  rw [run, List.foldlM_append] at h
  obtain ⟨b₁, hbefore, hrest⟩ := Option.bind_eq_some_iff.mp h
  rw [List.foldlM_cons] at hrest
  obtain ⟨b₂, hdie, hafter⟩ := Option.bind_eq_some_iff.mp hrest
  have hle : b₁.tasks.count .running + 0 ≤ b₁.inFlight :=
    running_le_of_foldlM (b := {}) le_rfl hbefore
  have hleak : b₂.tasks.count .running + 1 ≤ b₂.inFlight := by
    simp only [next] at hdie
    split at hdie
    · rename_i ht
      cases hdie
      have := count_set_running ht
      simp only
      omega
    · cases hdie
  have hpos := running_le_of_foldlM hleak hafter
  have hne : b.inFlight ≠ 0 := by omega
  simp [next, advance, hd, hne]

/-- A map of one shard. -/
def oneShard : Shards := ⟨1, fun _ => 0, fun _ => Nat.one_pos⟩

/-- A shutdown runs through behind the check of a subscribe, which then enters its entry. -/
def lateSubscribe : List (Move Unit) :=
  [.subscribe 0 ⟨.normal, {}, .sync⟩, .shutdown 1, .step 1, .step 1, .step 1, .step 1, .step 0,
    .step 0, .step 0]

/-- The shutdown has returned, and the subscription is there. -/
theorem not_reliable : ¬ ∀ (moves : List (Move Unit)) (b : EventBus Unit),
    run oneShard moves = some b → Reliable oneShard moves b := by
  intro h
  have hleft := ((h lateSubscribe _ rfl).cleared 1 rfl).2.1
  cases hleft

/-- The subscribe returns before the shutdown begins. -/
def earlySubscribe : List (Move Unit) :=
  [.subscribe 0 ⟨.normal, {}, .sync⟩, .step 0, .step 0, .step 0, .shutdown 1, .step 1, .step 1,
    .step 1, .step 1]

lemma orderly_earlySubscribe : Lib.AlongM (next oneShard) Orderly {} earlySubscribe := by
  refine ⟨trivial, ?_⟩
  rintro _ ⟨⟩
  refine ⟨trivial, ?_⟩
  rintro _ ⟨⟩
  refine ⟨fun d => ?_, ?_⟩
  · rcases d with _ | d <;> rintro (h | h | h) <;> cases h
  rintro _ ⟨⟩
  refine ⟨fun d => ?_, ?_⟩
  · rcases d with _ | d <;> rintro (h | h) <;> cases h
  rintro _ ⟨⟩
  refine ⟨trivial, ?_⟩
  rintro _ ⟨⟩
  refine ⟨trivial, ?_⟩
  rintro _ ⟨⟩
  refine ⟨trivial, ?_⟩
  rintro _ ⟨⟩
  refine ⟨trivial, ?_⟩
  rintro _ ⟨⟩
  refine ⟨trivial, ?_⟩
  rintro _ ⟨⟩
  trivial

theorem reliable_earlySubscribe : ∃ b, run oneShard earlySubscribe = some b ∧
    Reliable oneShard earlySubscribe b :=
  ⟨_, rfl, reliable_of_orderly orderly_earlySubscribe rfl⟩

end EventBus

end Orchid.Event
