import Mathlib.Data.List.Nodup
import Mathlib.Tactic.Tauto
import Orchid.Event.Channel

/-!
# What reaches the receiver

The ledger of a channel accounts for every pushed event, and a receiver that waits is woken: by a
stored permit, by a push that is about to notify, or by the drop of the sender unless that falls
between the look at the queue and the start of the wait.
-/

namespace Orchid.Event

namespace Channel

variable {E : Type} [DecidableEq E] {policy : SlowConsumerPolicy} {c c' : Channel E}

/-! ### The ledger -/

/-- Every pushed event is accounted for. -/
structure Logged (policy : SlowConsumerPolicy) (c : Channel E) : Prop where
  numbered : c.log.map Prod.fst = List.range c.log.length
  evicted_mem : ∀ x ∈ c.evicted, x ∈ c.log
  refused_mem : ∀ x ∈ c.refused, x ∈ c.log
  delivers : c.Delivers
  capacity_pos : 0 < c.capacity
  length_le : c.queue.length ≤ c.capacity
  evicted_nil : policy ≠ .dropOldest → c.evicted = []
  refused_nil : policy = .dropOldest → c.refused = []

lemma Logged.of_eq (h : Logged policy c) (hq : c'.queue = c.queue) (hcap : c'.capacity = c.capacity)
    (hlog : c'.log = c.log) (he : c'.evicted = c.evicted) (hr : c'.refused = c.refused)
    (hrec : c'.received = c.received) : Logged policy c' := by
  obtain ⟨h₁, h₂, h₃, h₄, h₅, h₆, h₇, h₈⟩ := h
  unfold Delivers at h₄
  constructor <;> simp only [Delivers, hq, hcap, hlog, he, hr, hrec] <;> assumption

lemma Logged.notMem_log (h : Logged policy c) (envelope : E) :
    (c.log.length, envelope) ∉ c.log := by
  intro hmem
  have := List.mem_map_of_mem (f := Prod.fst) hmem
  rw [h.numbered, List.mem_range] at this
  exact lt_irrefl _ this

lemma Logged.nodup_log (h : Logged policy c) : c.log.Nodup := by
  refine List.Nodup.of_map Prod.fst ?_
  rw [h.numbered]
  exact List.nodup_range

lemma Logged.nodup_kept (h : Logged policy c) : (c.received ++ c.queue).Nodup :=
  h.delivers ▸ h.nodup_log.filter _

lemma Logged.numbered_append (h : Logged policy c) (envelope : E) :
    (c.log ++ [(c.log.length, envelope)]).map Prod.fst =
      List.range (c.log ++ [(c.log.length, envelope)]).length := by
  rw [List.map_append, h.numbered, List.length_append, List.length_singleton, List.range_succ]
  rfl

/-- An event is queued behind the others. -/
lemma Logged.accept (h : Logged policy c) (hroom : c.queue.length < c.capacity) (envelope : E) :
    Logged policy { c with
      queue := c.queue ++ [(c.log.length, envelope)]
      log := c.log ++ [(c.log.length, envelope)] } where
  numbered := h.numbered_append envelope
  evicted_mem x hx := List.mem_append_left _ (h.evicted_mem x hx)
  refused_mem x hx := List.mem_append_left _ (h.refused_mem x hx)
  delivers := by
    have hnew := h.notMem_log envelope
    have hkept : (c.log.length, envelope) ∉ c.evicted ∧ (c.log.length, envelope) ∉ c.refused :=
      ⟨fun hx => hnew (h.evicted_mem _ hx), fun hx => hnew (h.refused_mem _ hx)⟩
    have hd := h.delivers
    unfold Delivers at hd ⊢
    rw [List.filter_append, hd, List.filter_singleton, decide_eq_true hkept, List.append_assoc]
    rfl
  capacity_pos := h.capacity_pos
  length_le := by
    rw [List.length_append, List.length_singleton]
    exact hroom
  evicted_nil := h.evicted_nil
  refused_nil := h.refused_nil

/-- An event is refused. -/
lemma Logged.refuse (h : Logged policy c) (hpolicy : policy ≠ .dropOldest) (envelope : E) :
    Logged policy { c with
      log := c.log ++ [(c.log.length, envelope)]
      refused := c.refused ++ [(c.log.length, envelope)] } where
  numbered := h.numbered_append envelope
  evicted_mem x hx := List.mem_append_left _ (h.evicted_mem x hx)
  refused_mem x hx := by
    rcases List.mem_append.mp hx with hx | hx
    · exact List.mem_append_left _ (h.refused_mem x hx)
    · exact List.mem_append_right _ hx
  delivers := by
    have hnew := h.notMem_log envelope
    have hd := h.delivers
    unfold Delivers at hd ⊢
    have hnil : [(c.log.length, envelope)].filter (fun x =>
        x ∉ c.evicted ∧ x ∉ c.refused ++ [(c.log.length, envelope)]) = [] := by simp
    dsimp only
    rw [List.filter_append, hnil, List.append_nil, ← hd]
    refine List.filter_congr fun x hx => decide_eq_decide.mpr (and_congr_right fun _ => ?_)
    rw [List.mem_append, List.mem_singleton, not_or, and_iff_left]
    rintro rfl
    exact hnew hx
  capacity_pos := h.capacity_pos
  length_le := h.length_le
  evicted_nil := h.evicted_nil
  refused_nil hp := absurd hp hpolicy

/-- The oldest event makes room for a new one. -/
lemma Logged.evict (h : Logged .dropOldest c) {x : Numbered E} {queue : List (Numbered E)}
    (hq : c.queue = x :: queue) (envelope : E) :
    Logged .dropOldest { c with
      queue := queue ++ [(c.log.length, envelope)]
      log := c.log ++ [(c.log.length, envelope)]
      evicted := c.evicted ++ [x] } where
  numbered := h.numbered_append envelope
  evicted_mem y hy := by
    rcases List.mem_append.mp hy with hy | hy
    · exact List.mem_append_left _ (h.evicted_mem y hy)
    · obtain rfl := List.mem_singleton.mp hy
      have hkept : y ∈ c.received ++ c.queue := by simp [hq]
      rw [← h.delivers] at hkept
      exact List.mem_append_left _ (List.mem_of_mem_filter hkept)
  refused_mem y hy := List.mem_append_left _ (h.refused_mem y hy)
  delivers := by
    have hnew := h.notMem_log envelope
    have hnodup := h.nodup_kept
    have hd := h.delivers
    unfold Delivers at hd ⊢
    rw [hq] at hd hnodup
    have hx : x ∈ c.log := by
      have hmem : x ∈ c.received ++ x :: queue := by simp
      rw [← hd] at hmem
      exact List.mem_of_mem_filter hmem
    have hkept : (c.log.length, envelope) ∉ c.evicted ++ [x] ∧
        (c.log.length, envelope) ∉ c.refused := by
      refine ⟨fun hmem => ?_, fun hmem => hnew (h.refused_mem _ hmem)⟩
      rcases List.mem_append.mp hmem with hmem | hmem
      · exact hnew (h.evicted_mem _ hmem)
      · exact hnew (List.mem_singleton.mp hmem ▸ hx)
    have hold : c.log.filter (fun y => y ∉ c.evicted ++ [x] ∧ y ∉ c.refused) =
        (c.received ++ x :: queue).filter fun y => y ≠ x := by
      rw [← hd, List.filter_filter]
      refine List.filter_congr fun y _ => ?_
      rw [← Bool.decide_and]
      refine decide_eq_decide.mpr ?_
      rw [List.mem_append, List.mem_singleton]
      tauto
    obtain ⟨hreceived, hcross, hne⟩ := List.nodup_append'.mp hnodup
    have hxq := (List.nodup_cons.mp hcross).1
    rw [List.filter_append, hold, List.filter_singleton, decide_eq_true hkept, List.filter_append,
      List.filter_cons_of_neg (by simp), List.filter_eq_self.mpr, List.filter_eq_self.mpr,
      List.append_assoc]
    · rfl
    · intro y hy
      exact decide_eq_true fun heq => hxq (heq ▸ hy)
    · intro y hy
      exact decide_eq_true fun heq => hne hy (heq ▸ List.mem_cons_self)
  capacity_pos := h.capacity_pos
  length_le := by
    have := h.length_le
    rw [hq, List.length_cons] at this
    rw [List.length_append, List.length_singleton]
    exact this
  evicted_nil hp := absurd rfl hp
  refused_nil := h.refused_nil

lemma Logged.enqueue (h : Logged policy c) (timeout : Bool) (envelope : E) :
    Logged policy (c.enqueue policy timeout envelope).1 := by
  unfold Channel.enqueue
  dsimp only
  by_cases hfull : c.queue.length ≥ c.capacity
  · rw [if_pos hfull]
    cases policy with
    | dropOldest =>
      cases hq : c.queue with
      | nil =>
        have := h.capacity_pos
        rw [hq, List.length_nil] at hfull
        omega
      | cons x queue => exact h.evict hq envelope
    | dropNewest => exact h.refuse (by decide) envelope
    | block =>
      cases timeout with
      | true => exact h.refuse (by decide) envelope
      | false => exact h
  · rw [if_neg hfull]
    exact h.accept (not_le.mp hfull) envelope

omit [DecidableEq E] in
lemma notifyOne_eq (c : Channel E) : ∃ permit receiver,
    c.notifyOne = { c with permit := permit, receiver := receiver } := by
  unfold notifyOne
  split
  · exact ⟨_, _, rfl⟩
  · exact ⟨_, _, rfl⟩

lemma Logged.pushStep (h : Logged policy c) (timeout : Bool) (push : Push E) :
    Logged policy (c.pushStep policy timeout push).1 := by
  cases push with
  | load envelope => exact h
  | lock envelope => exact h.enqueue timeout envelope
  | notify =>
    obtain ⟨permit, receiver, heq⟩ := notifyOne_eq c
    rw [Channel.pushStep, heq]
    exact h.of_eq rfl rfl rfl rfl rfl rfl

lemma Logged.receiveStep (h : Logged policy c) (hstep : c.receiveStep = some c') :
    Logged policy c' := by
  unfold Channel.receiveStep at hstep
  cases hr : c.receiver with
  | idle => simp [hr] at hstep
  | check =>
    cases hq : c.queue with
    | nil =>
      simp only [hr, hq, Option.some.injEq] at hstep
      exact hstep ▸ h.of_eq hq.symm rfl rfl rfl rfl rfl
    | cons x queue =>
      simp only [hr, hq, Option.some.injEq] at hstep
      subst hstep
      refine { h with delivers := ?_, length_le := ?_ }
      · have hd := h.delivers
        unfold Delivers at hd ⊢
        rw [hd, hq, List.append_assoc]
        rfl
      · have := h.length_le
        rw [hq, List.length_cons] at this
        exact (Nat.le_succ _).trans this
  | gap =>
    simp only [hr, Option.some.injEq] at hstep
    exact hstep ▸ h.of_eq rfl rfl rfl rfl rfl rfl
  | created woken =>
    simp only [hr] at hstep
    split_ifs at hstep <;> cases hstep <;> exact h.of_eq rfl rfl rfl rfl rfl rfl
  | registered woken =>
    simp only [hr] at hstep
    split_ifs at hstep
    cases hstep
    exact h.of_eq rfl rfl rfl rfl rfl rfl

omit [DecidableEq E] in
/-- The pushes under way after one of them has taken a step. -/
lemma push_cases {i : ℕ} {timeout : Bool} (hstep : c.step policy (.push i timeout) = some c') :
    ∃ push, c.pushes[i]? = some push ∧
      ((∃ next, (c.pushStep policy timeout push).2 = some next ∧
        c' = { (c.pushStep policy timeout push).1 with pushes := c.pushes.set i next }) ∨
      ((c.pushStep policy timeout push).2 = none ∧
        c' = { (c.pushStep policy timeout push).1 with pushes := c.pushes.eraseIdx i })) := by
  unfold step at hstep
  dsimp only at hstep
  split at hstep
  · cases hstep
  · next push hpush =>
    refine ⟨push, hpush, ?_⟩
    split at hstep
    · next c₁ next heq =>
      cases hstep
      exact .inl ⟨next, by rw [heq], by rw [heq]⟩
    · next c₁ heq =>
      cases hstep
      exact .inr ⟨by rw [heq], by rw [heq]⟩

lemma Logged.step (h : Logged policy c) {e : Step E} (hstep : c.step policy e = some c') :
    Logged policy c' := by
  cases e with
  | publish envelope =>
    simp only [Channel.step] at hstep
    split_ifs at hstep
    cases hstep
    exact h.of_eq rfl rfl rfl rfl rfl rfl
  | push i timeout =>
    obtain ⟨push, -, ⟨next, -, rfl⟩ | ⟨-, rfl⟩⟩ := push_cases hstep
    · exact (h.pushStep timeout push).of_eq rfl rfl rfl rfl rfl rfl
    · exact (h.pushStep timeout push).of_eq rfl rfl rfl rfl rfl rfl
  | close =>
    simp only [Channel.step] at hstep
    split_ifs at hstep
    cases hstep
    exact h.of_eq rfl rfl rfl rfl rfl rfl
  | notifyWaiters =>
    simp only [Channel.step] at hstep
    split_ifs at hstep
    cases hstep
    unfold Channel.notifyWaiters
    split <;> exact h.of_eq rfl rfl rfl rfl rfl rfl
  | recv =>
    simp only [Channel.step] at hstep
    split_ifs at hstep
    cases hstep
    exact h.of_eq rfl rfl rfl rfl rfl rfl
  | receive => exact h.receiveStep hstep

/-! ### Waking the receiver -/

omit [DecidableEq E]

/-- The receiver is about to wait or waits, and no wait of it is over. -/
def Receiver.Unwoken : Receiver → Prop
  | .gap | .created false | .registered false => True
  | _ => False

/-- A receiver that waits will be woken when there is something for it. -/
structure Awake (c : Channel E) : Prop where
  borrowed : c.sender ≠ .alive → c.pushes = []
  closed_iff : c.closed = true ↔ c.sender ≠ .alive
  registered : c.receiver = .registered false → c.permit = false
  queued : Receiver.Unwoken c.receiver → c.queue ≠ [] → c.permit = true ∨ .notify ∈ c.pushes
  gone : Receiver.Unwoken c.receiver → c.sender = .gone → c.permit = true

lemma Awake.not_stuck (h : c.Awake) : ¬ c.Stuck := by
  rintro ⟨⟨hwaits, hnotify, hclosing⟩, hsomething⟩
  have hunwoken : Receiver.Unwoken c.receiver := by
    rcases hwaits with ⟨hr, -⟩ | hr <;> rw [hr] <;> trivial
  have hpermit : c.permit = false := by
    rcases hwaits with ⟨-, hp⟩ | hr
    · exact hp
    · exact h.registered hr
  rcases hsomething with hqueue | hclosed
  · rcases h.queued hunwoken hqueue with hp | hn
    · exact Bool.false_ne_true (hpermit.symm.trans hp)
    · exact hnotify hn
  · have halive := h.closed_iff.mp hclosed
    have hgone : c.sender = .gone := by
      cases hs : c.sender with
      | alive => exact absurd hs halive
      | closing => exact absurd hs hclosing
      | gone => rfl
    exact Bool.false_ne_true (hpermit.symm.trans (h.gone hunwoken hgone))

lemma mem_of_other {β : Type} {l : List β} {i : ℕ} {x y z : β} (hx : x ∈ l) (hi : l[i]? = some y)
    (hxy : x ≠ y) : x ∈ l.set i z ∧ x ∈ l.eraseIdx i := by
  obtain ⟨j, hj⟩ := List.getElem?_of_mem hx
  have hne : i ≠ j := by
    rintro rfl
    exact hxy (Option.some.inj (hj.symm.trans hi))
  refine ⟨List.mem_of_getElem? (i := j) ?_, ?_⟩
  · rw [List.getElem?_set_ne hne]
    exact hj
  · exact List.mem_eraseIdx_iff_getElem?.mpr ⟨j, hne.symm, hj⟩

/-- What a section under the queue's lock leaves of the rest. -/
lemma enqueue_spec (policy : SlowConsumerPolicy) (timeout : Bool) (c : Channel E) (envelope : E) :
    ∃ queue log evicted refused,
      (c.enqueue policy timeout envelope).1 =
        { c with queue := queue, log := log, evicted := evicted, refused := refused } ∧
      ((c.enqueue policy timeout envelope).2 = some .notify ∨
        (c.enqueue policy timeout envelope).2 ≠ some .notify ∧ queue = c.queue) := by
  unfold enqueue
  dsimp only
  by_cases hfull : c.queue.length ≥ c.capacity
  · rw [if_pos hfull]
    cases policy with
    | dropOldest => exact ⟨_, _, _, _, rfl, .inl rfl⟩
    | dropNewest => exact ⟨_, _, _, _, rfl, .inr ⟨by simp, rfl⟩⟩
    | block =>
      cases timeout with
      | true => exact ⟨_, _, _, _, rfl, .inr ⟨by simp, rfl⟩⟩
      | false => exact ⟨_, _, _, _, rfl, .inr ⟨by simp, rfl⟩⟩
  · rw [if_neg hfull]
    exact ⟨_, _, _, _, rfl, .inl rfl⟩

/-- A receiver that is not about to wait needs nobody. -/
lemma Awake.of_woken (hborrowed : c.sender ≠ .alive → c.pushes = [])
    (hclosed : c.closed = true ↔ c.sender ≠ .alive) (hu : ¬ Receiver.Unwoken c.receiver) :
    c.Awake where
  borrowed := hborrowed
  closed_iff := hclosed
  registered hr := by
    rw [hr] at hu
    exact absurd trivial hu
  queued hu' := absurd hu' hu
  gone hu' := absurd hu' hu

/-- While a push is under way the sender is alive. -/
lemma Awake.alive (h : c.Awake) {i : ℕ} {push : Push E} (hi : c.pushes[i]? = some push) :
    c.sender = .alive := by
  by_contra hs
  rw [h.borrowed hs] at hi
  cases hi

/-- A push that is not about to notify keeps the receiver awake, if it goes on to notify after it
has queued its event. -/
lemma Awake.push (h : c.Awake) {i : ℕ} {push : Push E} (hi : c.pushes[i]? = some push)
    (hpush : push ≠ .notify) {c' : Channel E} (hclosed : c'.closed = c.closed)
    (hpermit : c'.permit = c.permit) (hsender : c'.sender = c.sender)
    (hreceiver : c'.receiver = c.receiver)
    (hpushes : c'.pushes = c.pushes.eraseIdx i ∨ ∃ next, c'.pushes = c.pushes.set i next)
    (hqueue : c'.queue = c.queue ∨ .notify ∈ c'.pushes) : c'.Awake where
  borrowed hs := absurd (h.alive hi) (hsender ▸ hs)
  closed_iff := by
    rw [hclosed, hsender]
    exact h.closed_iff
  registered hr := by
    rw [hpermit]
    exact h.registered (hreceiver ▸ hr)
  queued hu hq := by
    rw [hreceiver] at hu
    rcases hqueue with hsame | hn
    · rw [hsame] at hq
      rw [hpermit]
      refine (h.queued hu hq).imp_right fun hn => ?_
      rcases hpushes with hp | ⟨next, hp⟩
      · exact hp ▸ (mem_of_other (z := push) hn hi hpush.symm).2
      · exact hp ▸ (mem_of_other hn hi hpush.symm).1
    · exact .inr hn
  gone _ hs := by
    rw [hsender, h.alive hi] at hs
    cases hs

/-- A push that notifies leaves a permit or wakes the receiver. -/
lemma Awake.notifyOne (h : c.Awake) {i : ℕ} (hi : c.pushes[i]? = some .notify)
    (pushes : List (Push E)) : Awake { c.notifyOne with pushes := pushes } := by
  have halive := h.alive hi
  have hopen := h.closed_iff
  rw [halive] at hopen
  unfold Channel.notifyOne
  split
  · next hr =>
    refine .of_woken (fun hs => absurd halive hs) ?_ id
    dsimp only
    rw [halive]
    exact hopen
  · next hr =>
    exact
      { borrowed := fun hs => absurd halive hs
        closed_iff := by
          dsimp only
          rw [halive]
          exact hopen
        registered := fun hr' => absurd hr' hr
        queued := fun _ _ => .inl rfl
        gone := fun _ _ => rfl }

lemma Awake.receiveStep (h : c.Awake) (hstep : c.receiveStep = some c') : c'.Awake := by
  obtain ⟨hborrowed, hclosed, hregistered, hqueued, hgone⟩ := h
  unfold Channel.receiveStep at hstep
  cases hr : c.receiver with
  | idle => simp [hr] at hstep
  | check =>
    cases hq : c.queue with
    | cons x queue =>
      simp only [hr, hq, Option.some.injEq] at hstep
      subst hstep
      exact .of_woken hborrowed hclosed id
    | nil =>
      simp only [hr, hq, Option.some.injEq] at hstep
      subst hstep
      by_cases hopen : c.closed = true
      · refine .of_woken hborrowed hclosed ?_
        rw [if_pos hopen]
        exact id
      · have halive : c.sender = .alive := by
          by_contra hs
          exact hopen (hclosed.mpr hs)
        rw [if_neg hopen]
        exact
          { borrowed := hborrowed
            closed_iff := hclosed
            registered := fun hr' => by cases hr'
            queued := fun _ hne => absurd rfl hne
            gone := fun _ hs => by cases halive.symm.trans hs }
  | gap =>
    simp only [hr, Option.some.injEq] at hstep
    subst hstep
    rw [hr] at hqueued hgone
    exact
      { borrowed := hborrowed
        closed_iff := hclosed
        registered := fun hr' => by cases hr'
        queued := hqueued
        gone := hgone }
  | created woken =>
    simp only [hr] at hstep
    split_ifs at hstep with hp hw
    · cases hstep
      exact .of_woken hborrowed hclosed id
    · cases hstep
      exact .of_woken hborrowed hclosed id
    · cases hstep
      obtain rfl := Bool.eq_false_iff.mpr hw
      rw [hr] at hqueued hgone
      exact
        { borrowed := hborrowed
          closed_iff := hclosed
          registered := fun _ => Bool.eq_false_iff.mpr hp
          queued := hqueued
          gone := hgone }
  | registered woken =>
    simp only [hr] at hstep
    split_ifs at hstep
    cases hstep
    exact .of_woken hborrowed hclosed id

lemma Awake.step (h : c.Awake) {e : Step E} (hclean : c.Clean e)
    (hstep : c.step policy e = some c') : c'.Awake := by
  cases e with
  | publish envelope =>
    simp only [Channel.step] at hstep
    split_ifs at hstep with halive
    cases hstep
    refine ⟨fun hs => absurd halive hs, h.closed_iff, h.registered, fun hu hq => ?_, h.gone⟩
    exact (h.queued hu hq).imp_right (List.mem_append_left _)
  | push i timeout =>
    obtain ⟨push, hi, hcases⟩ := push_cases hstep
    cases push with
    | load envelope =>
      obtain ⟨next, -, rfl⟩ | ⟨-, rfl⟩ := hcases
      · exact h.push hi (by simp) rfl rfl rfl rfl (.inr ⟨next, rfl⟩) (.inl rfl)
      · exact h.push hi (by simp) rfl rfl rfl rfl (.inl rfl) (.inl rfl)
    | lock envelope =>
      obtain ⟨queue, log, evicted, refused, heq, hnext⟩ := enqueue_spec policy timeout c envelope
      simp only [Channel.pushStep] at hcases
      rw [heq] at hcases
      obtain ⟨next, hn, rfl⟩ | ⟨hn, rfl⟩ := hcases
      · refine h.push hi (by simp) rfl rfl rfl rfl (.inr ⟨next, rfl⟩) ?_
        rcases hnext with hnext | ⟨-, hsame⟩
        · obtain rfl := Option.some.inj (hn.symm.trans hnext)
          exact .inr (List.mem_set (List.getElem?_eq_some_iff.mp hi).1 _)
        · exact .inl hsame
      · refine h.push hi (by simp) rfl rfl rfl rfl (.inl rfl) (.inl ?_)
        rcases hnext with hnext | ⟨-, hsame⟩
        · cases hn.symm.trans hnext
        · exact hsame
    | notify =>
      obtain ⟨next, hn, -⟩ | ⟨-, rfl⟩ := hcases
      · cases hn
      · exact h.notifyOne hi _
  | close =>
    simp only [Channel.step] at hstep
    split_ifs at hstep with hs
    cases hstep
    exact ⟨fun _ => hs.2, by simp, h.registered, h.queued, fun _ hgone => by cases hgone⟩
  | notifyWaiters =>
    simp only [Channel.step] at hstep
    split_ifs at hstep with hs
    cases hstep
    have hclosed : c.closed = true := h.closed_iff.mpr (by rw [hs]; decide)
    have hpushes : c.pushes = [] := h.borrowed (by rw [hs]; decide)
    unfold Channel.notifyWaiters
    split
    · exact .of_woken (fun _ => hpushes) (by simp [hclosed]) id
    · exact .of_woken (fun _ => hpushes) (by simp [hclosed]) id
    · next hcreated hregistered =>
      refine ⟨fun _ => hpushes, by simp [hclosed], h.registered, h.queued, fun hu _ => ?_⟩
      cases hr : c.receiver with
      | gap =>
        by_contra hp
        exact hclean ⟨hr, Bool.eq_false_iff.mpr hp⟩
      | created woken => exact absurd hr (hcreated woken)
      | registered woken => exact absurd hr (hregistered woken)
      | idle =>
        rw [hr] at hu
        exact hu.elim
      | check =>
        rw [hr] at hu
        exact hu.elim
  | recv =>
    simp only [Channel.step] at hstep
    split_ifs at hstep
    cases hstep
    exact .of_woken h.borrowed h.closed_iff id
  | receive => exact h.receiveStep hstep

/-! ### Runs -/

lemma Logged.new [DecidableEq E] (policy : SlowConsumerPolicy) (capacity : ℕ) :
    Logged policy (Channel.new capacity : Channel E) where
  numbered := rfl
  evicted_mem _ hx := absurd hx List.not_mem_nil
  refused_mem _ hx := absurd hx List.not_mem_nil
  delivers := rfl
  capacity_pos := Nat.one_pos.trans_le (le_max_right _ _)
  length_le := Nat.zero_le _
  evicted_nil _ := rfl
  refused_nil _ := rfl

lemma Awake.new (capacity : ℕ) : Awake (Channel.new capacity : Channel E) :=
  .of_woken (fun _ => rfl) (by simp [Channel.new]) id

lemma Reached.logged [DecidableEq E] {safe : Channel E → Step E → Prop}
    (h : Reached policy safe c) : Logged policy c := by
  induction h with
  | new capacity => exact Logged.new policy capacity
  | step _ _ hstep ih => exact ih.step hstep

lemma Reached.mono {safe safe' : Channel E → Step E → Prop} (h : Reached policy safe c)
    (hsafe : ∀ c e, safe c e → safe' c e) : Reached policy safe' c := by
  induction h with
  | new capacity => exact .new capacity
  | step _ he hstep ih => exact ih.step (hsafe _ _ he) hstep

lemma Reached.awake (h : Reached policy Clean c) : c.Awake := by
  induction h with
  | new capacity => exact Awake.new capacity
  | step _ he hstep ih => exact ih.step he hstep

lemma notifyWaiters_gap (hgap : c.receiver = .gap) : c.notifyWaiters = c := by
  unfold Channel.notifyWaiters
  rw [hgap]

/-- If the waiters are woken while the receiver is about to wait, it waits for a sender that is
gone. -/
lemma Awake.stuck_of_not_clean (h : c.Awake) {e : Step E} (hclean : ¬ c.Clean e)
    (hstep : c.step policy e = some c') : ∃ c'', c'.receiveStep = some c'' ∧ c''.Stuck ∧
      c''.sender = .gone ∧ c''.pushes = [] := by
  cases e with
  | notifyWaiters =>
    obtain ⟨hgap, hpermit⟩ := not_not.mp hclean
    simp only [Channel.step] at hstep
    split_ifs at hstep with hs
    cases hstep
    have halive : c.sender ≠ .alive := by
      rw [hs]
      decide
    refine ⟨{ c with sender := .gone, receiver := .created false }, ?_, ⟨⟨.inl ⟨rfl, hpermit⟩, ?_,
      by simp⟩, .inr (h.closed_iff.mpr halive)⟩, rfl, h.borrowed halive⟩
    · rw [notifyWaiters_gap hgap, Channel.receiveStep]
      simp only [hgap]
    · rw [h.borrowed halive]
      exact List.not_mem_nil
  | publish envelope => exact absurd trivial hclean
  | push i timeout => exact absurd trivial hclean
  | close => exact absurd trivial hclean
  | recv => exact absurd trivial hclean
  | receive => exact absurd trivial hclean

/-- Once the sender is gone, a receiver that nobody wakes is never woken. -/
lemma Stuck.step (h : c.Stuck) (hgone : c.sender = .gone) (hpushes : c.pushes = []) {e : Step E}
    (hstep : c.step policy e = some c') : c'.Stuck ∧ c'.sender = .gone ∧ c'.pushes = [] := by
  obtain ⟨⟨hwaits, hnotify, hclosing⟩, hsomething⟩ := h
  cases e with
  | publish envelope => simp [Channel.step, hgone] at hstep
  | push i timeout => simp [Channel.step, hpushes] at hstep
  | close => simp [Channel.step, hgone] at hstep
  | notifyWaiters => simp [Channel.step, hgone] at hstep
  | recv => rcases hwaits with ⟨hr, -⟩ | hr <;> simp [Channel.step, hr] at hstep
  | receive =>
    rcases hwaits with ⟨hr, hp⟩ | hr
    · simp only [Channel.step, Channel.receiveStep, hr, hp, Bool.false_eq_true, if_false,
        Option.some.injEq] at hstep
      subst hstep
      exact ⟨⟨⟨.inr rfl, hnotify, hclosing⟩, hsomething⟩, hgone, hpushes⟩
    · simp [Channel.step, Channel.receiveStep, hr] at hstep

/-- A channel whose receiver waits for ever although there is something for it: nothing that can
happen ends the wait. -/
def Lost (policy : SlowConsumerPolicy) (c : Channel E) : Prop :=
  ∀ (es : List (Step E)) (c' : Channel E), es.foldlM (step policy) c = some c' → c'.Stuck

lemma Stuck.lost (h : c.Stuck) (hgone : c.sender = .gone) (hpushes : c.pushes = []) :
    c.Lost policy := by
  intro es
  induction es generalizing c with
  | nil =>
    intro c' hrun
    cases hrun
    exact h
  | cons e es ih =>
    intro c' hrun
    rw [List.foldlM_cons] at hrun
    obtain ⟨c₁, hstep, hrest⟩ := Option.bind_eq_some_iff.mp hrun
    obtain ⟨hstuck, hgone₁, hpushes₁⟩ := h.step hgone hpushes hstep
    exact ih hstuck hgone₁ hpushes₁ c' hrest

/-- Whatever the interleaving, the receiver gets the events that were neither evicted nor refused
in the order of the pushes, and the queue keeps its bound; and as long as the waiters are never
woken while the receiver is about to wait without a permit, it never waits in vain. When they are,
its next step is to wait for ever. -/
theorem delivers_of_clean [DecidableEq E] :
    (Reached policy (fun _ _ => True) c →
      c.Delivers ∧ c.queue.length ≤ c.capacity ∧ (policy ≠ .dropOldest → c.evicted = []) ∧
        (policy = .dropOldest → c.refused = [])) ∧
    (Reached policy Clean c → ¬ c.Stuck ∧
      ∀ e c', c.step policy e = some c' → ¬ c.Clean e →
        ∃ c'', c'.step policy .receive = some c'' ∧ c''.Lost policy) := by
  refine ⟨fun h => ?_, fun h => ⟨h.awake.not_stuck, fun e c' hstep hclean => ?_⟩⟩
  · exact ⟨h.logged.delivers, h.logged.length_le, h.logged.evicted_nil, h.logged.refused_nil⟩
  · obtain ⟨c'', hstep', hstuck, hgone, hpushes⟩ := h.awake.stuck_of_not_clean hclean hstep
    exact ⟨c'', hstep', hstuck.lost hgone hpushes⟩

/-- The receiver has found the queue empty and open, and the drop of the sender has closed it. -/
def closing : Channel ℕ :=
  { new 1 with closed := true, sender := .closing, receiver := .gap }

lemma reached_closing : Reached .dropOldest Clean closing :=
  (((Reached.new 1).step (e := .recv) trivial rfl).step (e := .receive) trivial rfl).step
    (e := .close) trivial rfl

theorem delivers_of_clean_closing :
    closing.Delivers ∧ ¬ closing.Stuck ∧
      ∃ c'', step .dropOldest { closing with sender := .gone } .receive = some c'' ∧
        c''.Lost .dropOldest :=
  ⟨(delivers_of_clean.1 (reached_closing.mono fun _ _ _ => trivial)).1,
    (delivers_of_clean.2 reached_closing).1,
    (delivers_of_clean.2 reached_closing).2 .notifyWaiters _ rfl fun h => h ⟨rfl, rfl⟩⟩

/-- The waiters are woken before the receiver waits, and then it waits. -/
theorem not_delivers : ¬ ∀ c : Channel ℕ, Reached .dropOldest (fun _ _ => True) c → ¬ c.Stuck := by
  intro h
  refine h { closing with sender := .gone, receiver := .created false } ?_ ?_
  · exact ((reached_closing.mono fun _ _ _ => trivial).step (e := .notifyWaiters) trivial rfl).step
      (e := .receive) trivial rfl
  · exact ⟨⟨.inl ⟨rfl, rfl⟩, List.not_mem_nil, by decide⟩, .inr rfl⟩

end Channel

end Orchid.Event
