import Orchid.Base.Machine
import Orchid.Job.SingleFlight

/-!
# Requests are followed up

A request either leads, or marks the state of its key while another call leads. A leading call looks
at the mark before it leaves, so in a fair run the factory is called after every request that the
shutdown does not turn away.
-/

namespace Orchid.Job

open Lib

variable {K : Type} [DecidableEq K]

namespace JobQueue

/-! ### What the others leave alone -/

variable {owner : ℕ → K} {q q' : JobQueue K} {t t' : ℕ} {k : K} {s : ℕ} {stage : Stage}

/-- A step of another call does not move a call. -/
lemma calls_advance (hne : t' ≠ t) (h : q.advance t k stage = some q') :
    q'.calls t' = q.calls t' := by
  cases stage with
  | called =>
    obtain rfl := Option.some.inj h
    simp [hne]
  | checked =>
    simp only [advance] at h
    cases hs : q.flights k with
    | none =>
      rw [hs] at h
      obtain rfl := Option.some.inj h
      simp [hne]
    | some s =>
      rw [hs] at h
      obtain rfl := Option.some.inj h
      simp [hne]
  | holding s =>
    simp only [advance] at h
    split_ifs at h with hrun
    · obtain rfl := Option.some.inj h
      simp [hne]
    · obtain rfl := Option.some.inj h
      simp [hne]
  | starting s =>
    obtain rfl := Option.some.inj h
    simp [hne]
  | flying s =>
    obtain rfl := Option.some.inj h
    simp [hne]
  | landed s =>
    simp only [advance] at h
    split_ifs at h with hpend
    · obtain rfl := Option.some.inj h
      simp [hne]
    · obtain rfl := Option.some.inj h
      simp [hne]
  | done => cases h

/-- Only its own steps and an abort move a call. -/
lemma calls_next {e : Event K} {c : Call K} (ht : q.calls t = some c) (hstep : e ≠ .step t)
    (habort : e ≠ .abort t) (h : q.next e = some q') : q'.calls t = some c := by
  cases e with
  | idle =>
    obtain rfl := Option.some.inj h
    exact ht
  | call t' k' =>
    simp only [next] at h
    cases ht' : q.calls t' with
    | some c' => simp [ht'] at h
    | none =>
      simp only [ht'] at h
      obtain rfl := Option.some.inj h
      have hne : t ≠ t' := by
        rintro rfl
        rw [ht] at ht'
        cases ht'
      rw [reach_calls, if_neg hne, ht]
  | step t' =>
    simp only [next] at h
    cases ht' : q.calls t' with
    | none => simp [ht'] at h
    | some c' =>
      simp only [ht'] at h
      have hne : t ≠ t' := fun heq => hstep (congrArg Event.step heq.symm)
      rw [calls_advance hne h, ht]
  | abort t' =>
    simp only [next] at h
    split at h
    next k' s' ht' =>
      obtain rfl := Option.some.inj h
      have hne : t ≠ t' := fun heq => habort (congrArg Event.abort heq.symm)
      rw [reach_calls, if_neg hne, ht]
    next => cases h
  | cancel k' =>
    obtain rfl := Option.some.inj h
    unfold cancel
    split
    · exact ht
    · split_ifs
      · exact ht
      · exact ht
  | shutDown =>
    obtain rfl := Option.some.inj h
    exact ht
  | clear =>
    simp only [next] at h
    split_ifs at h
    obtain rfl := Option.some.inj h
    exact ht

/-- Only the leading call takes the mark of a state away. -/
lemma pending_next (hinv : Inv owner q) {e : Event K} (ht : q.LeadsAt t k s)
    (hpend : (q.slots s).pending = true) (hstep : e ≠ .step t) (h : q.next e = some q') :
    (q'.slots s).pending = true := by
  cases e with
  | idle =>
    obtain rfl := Option.some.inj h
    exact hpend
  | call t' k' =>
    simp only [next] at h
    split at h
    · obtain rfl := Option.some.inj h
      exact hpend
    · cases h
  | step t' =>
    have howner := hinv.ownerHeld t k s ht.holdsAt
    simp only [next] at h
    cases ht' : q.calls t' with
    | none => simp [ht'] at h
    | some c' =>
      simp only [ht'] at h
      obtain ⟨k', stage'⟩ := c'
      cases stage' with
      | called =>
        obtain rfl := Option.some.inj h
        exact hpend
      | checked =>
        simp only [advance] at h
        cases hs : q.flights k' with
        | none =>
          rw [hs] at h
          obtain rfl := Option.some.inj h
          rw [reach_slots, allocate_slots, if_neg howner.2.ne]
          exact hpend
        | some s' =>
          rw [hs] at h
          obtain rfl := Option.some.inj h
          exact hpend
      | holding s' =>
        simp only [advance] at h
        split_ifs at h with hrun
        · obtain rfl := Option.some.inj h
          rw [reach_slots, write_slots]
          split_ifs
          · rfl
          · exact hpend
        · obtain rfl := Option.some.inj h
          have hne : s ≠ s' := by
            rintro rfl
            exact hrun (hinv.marked t k s ht)
          rw [reach_slots, write_slots, if_neg hne]
          exact hpend
      | starting s' =>
        obtain rfl := Option.some.inj h
        exact hpend
      | flying s' =>
        obtain rfl := Option.some.inj h
        exact hpend
      | landed s' =>
        have hlead : q.LeadsAt t' k' s' := ⟨_, ht', rfl, trivial⟩
        have hne : s ≠ s' := by
          rintro rfl
          obtain rfl : k' = k :=
            (hinv.ownerHeld t' k' s hlead.holdsAt).1.symm.trans howner.1
          exact hstep (congrArg Event.step (hinv.alone t' t k' s hlead ht))
        simp only [advance] at h
        split_ifs at h with hpend'
        · obtain rfl := Option.some.inj h
          rw [reach_slots, write_slots, if_neg hne]
          exact hpend
        · obtain rfl := Option.some.inj h
          rw [reach_slots, write_slots, if_neg hne]
          exact hpend
      | done => cases h
  | abort t' =>
    simp only [next] at h
    split at h
    · obtain rfl := Option.some.inj h
      exact hpend
    · cases h
  | cancel k' =>
    obtain rfl := Option.some.inj h
    unfold cancel
    split
    · exact hpend
    · split_ifs
      · exact hpend
      · exact hpend
  | shutDown =>
    obtain rfl := Option.some.inj h
    exact hpend
  | clear =>
    simp only [next] at h
    split_ifs at h
    obtain rfl := Option.some.inj h
    exact hpend

/-! ### What holds in every state of a safe run -/

/-- Two factories never run for one key. -/
def Exclusive (q : JobQueue K) : Prop := ∀ t t' k, q.Flies t k → q.Flies t' k → t = t'

/-- A key that no call leads is not marked as running, neither in the queue nor where a call is
about to look at the mark. -/
def Unmarked (q : JobQueue K) : Prop :=
  ∀ k, (∀ t s, ¬ q.LeadsAt t k s) →
    ∀ s, (q.flights k = some s ∨ ∃ t, q.HoldsAt t k s) → (q.slots s).running = false

omit [DecidableEq K] in
lemma Inv.exclusive (h : Inv owner q) : q.Exclusive := by
  rintro t t' k ⟨s, ht⟩ ⟨s', ht'⟩
  have hlead : q.LeadsAt t k s := ⟨_, ht, rfl, trivial⟩
  have hlead' : q.LeadsAt t' k s' := ⟨_, ht', rfl, trivial⟩
  obtain rfl := h.same t t' k s s' hlead.holdsAt hlead'.holdsAt
  exact h.alone t t' k s hlead hlead'

omit [DecidableEq K] in
lemma Inv.unmarked (h : Inv owner q) : q.Unmarked := by
  intro k hnone s hs
  by_contra hrun
  rw [Bool.not_eq_false] at hrun
  obtain ⟨t, ht⟩ : ∃ t, q.LeadsAt t k s := by
    rcases hs with hs | ⟨t, ht⟩
    · exact h.ledMap k s hs hrun
    · exact h.ledHeld t k s ht hrun
  exact hnone t s ht

/-! ### Runs -/

/-- An endless run of a queue that begins empty. -/
abbrev Run (K : Type) [DecidableEq K] : Type :=
  Trace (next : JobQueue K → Event K → Option (JobQueue K)) {}

namespace Run

variable (r : Run K)

/-- No call waits for ever: its next step comes, or it is aborted. -/
def Fair : Prop :=
  ∀ n t k stage, (r.state n).calls t = some ⟨k, stage⟩ → stage ≠ .done →
    ∃ m, n ≤ m ∧ (r.event m = .step t ∨ r.event m = .abort t)

/-- The factory for a key is called. -/
def Starts (m : ℕ) (k : K) : Prop :=
  ∃ t s, r.event m = .step t ∧ (r.state m).calls t = some ⟨k, .starting s⟩

/-- Every event of the run is safe. -/
def Safe : Prop := ∀ n, (r.state n).Safe (r.event n)

variable {r}

lemma Safe.inv [Inhabited K] (h : r.Safe) (n : ℕ) : ∃ owner, Inv owner (r.state n) :=
  r.invariant (p := fun q => ∃ owner, Inv owner q) ⟨fun _ => default, inv_init _⟩
    (fun _ _ _ hq hsafe hnext => inv_next hq hsafe hnext) h n

/-- A call that waits takes its next step while `p` still holds, if the others keep `p`. -/
lemma exists_step [Inhabited K] (h : r.Safe) (hfair : r.Fair) {p : JobQueue K → Prop} {n t : ℕ}
    {k : K} {stage : Stage} (ht : (r.state n).calls t = some ⟨k, stage⟩) (hstage : stage ≠ .done)
    (hup : ∀ i, n ≤ i → (r.state i).shutDown = false) (hp : p (r.state n))
    (hkeep : ∀ i, n ≤ i → (r.state i).calls t = some ⟨k, stage⟩ → p (r.state i) →
      r.event i ≠ .step t → p (r.state (i + 1))) :
    ∃ m, n ≤ m ∧ r.event m = .step t ∧ (r.state m).calls t = some ⟨k, stage⟩ ∧
      p (r.state m) := by
  obtain ⟨m, hm, he⟩ := hfair n t k stage ht hstage
  obtain ⟨i, hi, ⟨hti, hpi⟩, hei⟩ := r.exists_until
    (p := fun q => q.calls t = some ⟨k, stage⟩ ∧ p q)
    (e := fun e => e = .step t ∨ e = .abort t) ⟨ht, hp⟩ hm he fun j hj ⟨htj, hpj⟩ hej => by
      obtain ⟨hstep, habort⟩ := not_or.mp hej
      exact ⟨calls_next htj hstep habort (r.step j), hkeep j hj htj hpj hstep⟩
  rcases hei with hei | hei
  · exact ⟨i, hi, hei, hti, hpi⟩
  · exfalso
    have hnext := r.step i
    rw [hei] at hnext
    simp only [next, hti] at hnext
    cases stage with
    | flying s =>
      obtain ⟨owner, hinv⟩ := h.inv i
      have hheld : (r.state i).HoldsAt t k s := ⟨_, hti, rfl⟩
      have hsafe := h i
      rw [hei] at hsafe
      rcases hinv.attached t k s hheld with hs | ⟨hdown, -, -⟩
      · exact (hsafe k s hheld).1 hs
      · rw [hup i hi] at hdown
        cases hdown
    | _ => simp at hnext

/-- What a step of a call does to it in the run. -/
lemma advance_of_step {m : ℕ} {stage : Stage} (he : r.event m = .step t)
    (htm : (r.state m).calls t = some ⟨k, stage⟩) :
    (r.state m).advance t k stage = some (r.state (m + 1)) := by
  have hnext := r.step m
  rw [he] at hnext
  simpa only [next, htm] using hnext

section Followed

variable [Inhabited K] (h : r.Safe) (hfair : r.Fair) {n t : ℕ} {k : K} {s : ℕ}
  (hup : ∀ i, n ≤ i → (r.state i).shutDown = false)

include h hfair hup

lemma starts_of_starting (ht : (r.state n).calls t = some ⟨k, .starting s⟩) :
    ∃ m, n ≤ m ∧ r.Starts m k := by
  obtain ⟨m, hm, he, htm, -⟩ := exists_step h hfair (p := fun _ => True) ht (by simp) hup trivial
    fun _ _ _ _ _ => trivial
  exact ⟨m, hm, t, s, he, htm⟩

/-- A leading call starts again as long as its state is marked. -/
lemma starts_of_landed (ht : (r.state n).calls t = some ⟨k, .landed s⟩)
    (hpend : ((r.state n).slots s).pending = true) : ∃ m, n ≤ m ∧ r.Starts m k := by
  obtain ⟨m, hm, he, htm, hpendm⟩ := exists_step h hfair
    (p := fun q => (q.slots s).pending = true) ht (by simp) hup hpend fun i _ hti hpi hei => by
      obtain ⟨owner, hinv⟩ := h.inv i
      exact pending_next hinv ⟨_, hti, rfl, trivial⟩ hpi hei (r.step i)
  have hstep := advance_of_step he htm
  simp only [advance, hpendm, if_true] at hstep
  have hnext : (r.state (m + 1)).calls t = some ⟨k, .starting s⟩ := by
    rw [← Option.some.inj hstep]
    simp
  obtain ⟨m', hm', hstart⟩ := starts_of_starting h hfair
    (fun i hi => hup i (by omega)) hnext
  exact ⟨m', by omega, hstart⟩

lemma starts_of_flying (ht : (r.state n).calls t = some ⟨k, .flying s⟩)
    (hpend : ((r.state n).slots s).pending = true) : ∃ m, n ≤ m ∧ r.Starts m k := by
  obtain ⟨m, hm, he, htm, hpendm⟩ := exists_step h hfair
    (p := fun q => (q.slots s).pending = true) ht (by simp) hup hpend fun i _ hti hpi hei => by
      obtain ⟨owner, hinv⟩ := h.inv i
      exact pending_next hinv ⟨_, hti, rfl, trivial⟩ hpi hei (r.step i)
  have hstep := Option.some.inj (advance_of_step he htm)
  have hnext : (r.state (m + 1)).calls t = some ⟨k, .landed s⟩ := by
    rw [← hstep]
    simp
  have hpend' : ((r.state (m + 1)).slots s).pending = true := by
    rw [← hstep]
    exact hpendm
  obtain ⟨m', hm', hstart⟩ := starts_of_landed h hfair (fun i hi => hup i (by omega)) hnext hpend'
  exact ⟨m', by omega, hstart⟩

lemma starts_of_leads (ht : (r.state n).LeadsAt t k s)
    (hpend : ((r.state n).slots s).pending = true) : ∃ m, n ≤ m ∧ r.Starts m k := by
  obtain ⟨stage, ht, hslot, hleads⟩ := ht
  cases stage with
  | starting s' => exact starts_of_starting h hfair hup ht
  | flying s' =>
    obtain rfl := Option.some.inj hslot
    exact starts_of_flying h hfair hup ht hpend
  | landed s' =>
    obtain rfl := Option.some.inj hslot
    exact starts_of_landed h hfair hup ht hpend
  | called => cases hslot
  | checked => cases hslot
  | holding s' => exact absurd hleads not_false
  | done => cases hslot

/-- A call leads or leaves its mark with the one that does. -/
lemma starts_of_holding (ht : (r.state n).calls t = some ⟨k, .holding s⟩) :
    ∃ m, n ≤ m ∧ r.Starts m k := by
  obtain ⟨m, hm, he, htm, -⟩ := exists_step h hfair (p := fun _ => True) ht (by simp) hup trivial
    fun _ _ _ _ _ => trivial
  have hstep := advance_of_step he htm
  have hup' : ∀ i, m + 1 ≤ i → (r.state i).shutDown = false := fun i hi => hup i (by omega)
  simp only [advance] at hstep
  split_ifs at hstep with hrun
  · obtain ⟨owner, hinv⟩ := h.inv m
    obtain ⟨t', stage, ht', hslot, hleads⟩ := hinv.ledHeld t k s ⟨_, htm, rfl⟩ hrun
    have hne : t' ≠ t := by
      rintro rfl
      rw [htm] at ht'
      cases ht'
      exact hleads
    have hcall : (r.state (m + 1)).calls t' = some ⟨k, stage⟩ := by
      rw [← Option.some.inj hstep, reach_calls, if_neg hne]
      exact ht'
    have hpend : ((r.state (m + 1)).slots s).pending = true := by
      rw [← Option.some.inj hstep]
      simp
    obtain ⟨m', hm', hstart⟩ := starts_of_leads h hfair hup' ⟨stage, hcall, hslot, hleads⟩ hpend
    exact ⟨m', by omega, hstart⟩
  · have hnext : (r.state (m + 1)).calls t = some ⟨k, .starting s⟩ := by
      rw [← Option.some.inj hstep]
      simp
    obtain ⟨m', hm', hstart⟩ := starts_of_starting h hfair hup' hnext
    exact ⟨m', by omega, hstart⟩

lemma starts_of_checked (ht : (r.state n).calls t = some ⟨k, .checked⟩) :
    ∃ m, n ≤ m ∧ r.Starts m k := by
  obtain ⟨m, hm, he, htm, -⟩ := exists_step h hfair (p := fun _ => True) ht (by simp) hup trivial
    fun _ _ _ _ _ => trivial
  have hstep := advance_of_step he htm
  obtain ⟨s, hnext⟩ : ∃ s, (r.state (m + 1)).calls t = some ⟨k, .holding s⟩ := by
    simp only [advance] at hstep
    split at hstep
    next s hs =>
      rw [← Option.some.inj hstep]
      exact ⟨s, by simp⟩
    next hs =>
      rw [← Option.some.inj hstep]
      exact ⟨(r.state m).allocated, by simp⟩
  obtain ⟨m', hm', hstart⟩ := starts_of_holding h hfair (fun i hi => hup i (by omega)) hnext
  exact ⟨m', by omega, hstart⟩

lemma starts_of_called (ht : (r.state n).calls t = some ⟨k, .called⟩) :
    ∃ m, n ≤ m ∧ r.Starts m k := by
  obtain ⟨m, hm, he, htm, -⟩ := exists_step h hfair (p := fun _ => True) ht (by simp) hup trivial
    fun _ _ _ _ _ => trivial
  have hstep := advance_of_step he htm
  have hnext : (r.state (m + 1)).calls t = some ⟨k, .checked⟩ := by
    rw [← Option.some.inj hstep, hup m hm]
    simp
  obtain ⟨m', hm', hstart⟩ := starts_of_checked h hfair (fun i hi => hup i (by omega)) hnext
  exact ⟨m', by omega, hstart⟩

end Followed

/-- In every safe run two factories never run for one key, the mark of a key is taken away when no
call leads it any more, and, if no call waits for ever, the factory of a key is called after every
request for it, unless the queue is shut down. -/
theorem run_coalesced_single_flight (r : Run Text) (h : r.Safe) :
    (∀ n, (r.state n).Exclusive) ∧ (∀ n, (r.state n).Unmarked) ∧
    (r.Fair → ∀ n t k, r.event n = .call t k →
      (∃ m, n < m ∧ r.Starts m k) ∨ ∃ m, n < m ∧ (r.state m).shutDown = true) := by
  refine ⟨fun n => ?_, fun n => ?_, fun hfair n t k he => ?_⟩
  · obtain ⟨owner, hinv⟩ := h.inv n
    exact hinv.exclusive
  · obtain ⟨owner, hinv⟩ := h.inv n
    exact hinv.unmarked
  · by_cases hdown : ∃ m, n < m ∧ (r.state m).shutDown = true
    · exact Or.inr hdown
    · push Not at hdown
      have hup : ∀ i, n + 1 ≤ i → (r.state i).shutDown = false := fun i hi =>
        Bool.eq_false_iff.mpr (hdown i hi)
      have hcalled : (r.state (n + 1)).calls t = some ⟨k, .called⟩ := by
        have hnext := r.step n
        rw [he] at hnext
        simp only [next] at hnext
        split at hnext
        · rw [← Option.some.inj hnext]
          simp
        · cases hnext
      obtain ⟨m, hm, hstart⟩ := starts_of_called h hfair hup hcalled
      exact Or.inl ⟨m, hm, hstart⟩

/-- A second call for the key comes while the factory of the first runs, and leaves its mark. -/
def twoCalls : Run Text :=
  Trace.ofEvents [.call 0 [], .step 0, .step 0, .step 0, .step 0, .call 1 [], .step 1, .step 1,
    .step 1, .step 0, .step 0, .step 0, .step 0, .step 0] .idle (fun _ => rfl) rfl

/-- Nothing is aborted or dropped, and the factory is called again after the second request. -/
theorem run_coalesced_single_flight_twoCalls :
    ((∀ n, (twoCalls.state n).Exclusive) ∧ (∀ n, (twoCalls.state n).Unmarked) ∧
      (twoCalls.Fair → ∀ n t k, twoCalls.event n = .call t k →
        (∃ m, n < m ∧ twoCalls.Starts m k) ∨
          ∃ m, n < m ∧ (twoCalls.state m).shutDown = true)) ∧
    twoCalls.event 5 = .call 1 [] ∧ twoCalls.Starts 11 [] := by
  refine ⟨run_coalesced_single_flight twoCalls fun n => ?_, rfl, ?_⟩
  · rcases n with _ | _ | _ | _ | _ | _ | _ | _ | _ | _ | _ | _ | _ | _ | n
    all_goals exact trivial
  · exact ⟨0, 0, rfl, rfl⟩

/-- A call that is aborted while it waits for its factory. -/
def aborted : Run Text :=
  Trace.ofEvents [.call 0 [], .step 0, .step 0, .step 0, .step 0, .abort 0] .idle
    (fun _ => rfl) rfl

/-- The mark of an aborted call stays. -/
theorem not_run_coalesced_single_flight :
    ¬ ∀ r : Run Text, (∀ n, (r.state n).Exclusive) ∧ (∀ n, (r.state n).Unmarked) ∧
      (r.Fair → ∀ n t k, r.event n = .call t k →
        (∃ m, n < m ∧ r.Starts m k) ∨ ∃ m, n < m ∧ (r.state m).shutDown = true) := by
  intro h
  have hcall : (aborted.state 6).calls 0 = some ⟨[], .done⟩ := rfl
  have hnone : ∀ t, t ≠ 0 → (aborted.state 6).calls t = none := by
    intro t ht
    have hstate : aborted.state 6 =
        (((((((({} : JobQueue Text).reach 0 [] .called).reach 0 [] .checked).allocate []).reach 0 []
          (.holding 0)).write 0 ⟨true, false⟩).reach 0 [] (.starting 0)).reach 0 []
            (.flying 0)).reach 0 [] .done := rfl
    rw [hstate]
    simp [ht]
  have hleads : ∀ t s, ¬ (aborted.state 6).LeadsAt t [] s := by
    rintro t s ⟨stage, hstage, -, hleads⟩
    by_cases ht : t = 0
    · subst ht
      rw [hcall] at hstage
      cases hstage
      exact hleads
    · rw [hnone t ht] at hstage
      cases hstage
  have hrun := (h aborted).2.1 6 [] hleads 0 (Or.inl rfl)
  exact absurd hrun (by decide)

end Run

end JobQueue

end Orchid.Job
