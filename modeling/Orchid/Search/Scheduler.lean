import Orchid.Search.Lockstep

/-!
# The index scheduler

The worker that drains the queue of index tasks into the engine, in batches, with tasks arriving
between any two of its steps. Its calls do to the index what the tasks do one by one, and the
worker does not wait before they are committed, unless the engine fails where the worker ignores it.
-/

namespace Orchid.Search

/-! ### Tasks and calls -/

/-- `IndexTask` -/
inductive IndexTask
  | upsert (doc : IndexDocument)
  | remove (path : Text)
  | flush
deriving DecidableEq

/-- A task that was sent to the queue. -/
structure Sent where
  task : IndexTask
  /-- Whether the engine fails at it: when adding the document, or when removing the path. -/
  fails : Bool
deriving DecidableEq

/-- A batch of documents, with whether adding one fails. -/
abbrev Batch := List (IndexDocument × Bool)

/-- The calls that the worker makes to the engine. -/
inductive Call
  | upsertBatch (batch : Batch)
  | remove (path : Text) (fails : Bool)
  | commit (fails : Bool)
deriving DecidableEq

/-- What the calls change: the live documents and the vectors. -/
@[ext]
structure Contents where
  live : Docs
  vectors : Vectors

variable (m : Embedder)

/-- The effect of a call: `upsert_batch_sync`, which ends at the first document that cannot be added
and then leaves the vectors as they are, `remove_sync` and `commit`. -/
def Contents.call (s : Contents) : Call → Contents
  | .upsertBatch batch =>
    let docs := batch.map Prod.fst
    let fails := batch.findIdx? Prod.snd
    if addFails docs fails then { s with live := addDocuments s.live docs fails }
    else ⟨addDocuments s.live docs fails, upsertAnn m s.vectors docs⟩
  | .remove path fails => if fails then s else ⟨s.live.delete path, s.vectors.remove path⟩
  | .commit _ => s

/-- A task by itself, as its own call. -/
def Contents.apply (s : Contents) (t : Sent) : Contents :=
  match t.task with
  | .upsert doc => s.call m (.upsertBatch [(doc, t.fails)])
  | .remove path => s.call m (.remove path t.fails)
  | .flush => s

/-- Whether a call changes the index. -/
def Call.Changes : Call → Prop
  | .commit _ => False
  | _ => True

/-- Every call that changes the index is followed by a commit. -/
def Committed (calls : List Call) : Prop :=
  ∀ (i : ℕ) (c : Call), calls[i]? = some c → c.Changes →
    ∃ j > i, calls[j]? = some (.commit false)

/-! ### The worker -/

/-- `BATCH_MAX` -/
def batchMax : ℕ := 64

/-- Where `worker_loop` is. -/
inductive Stage
  /-- At `recv`. -/
  | waiting
  /-- At the head of the inner loop. -/
  | draining (batch : Batch) (forceCommit : Bool)
  /-- Behind the inner loop. -/
  | applying (batch : Batch) (forceCommit : Bool)
  /-- About to look whether to commit. -/
  | checking (forceCommit : Bool)
  | finished
deriving DecidableEq

/-- The worker and its queue. The last two fields are for the statements only: the calls that were
made and the tasks that were sent, both from the oldest. -/
structure Worker where
  queue : List Sent
  closed : Bool
  stage : Stage
  dirty : Bool
  calls : List Call
  sent : List Sent

/-- The state in which `IndexScheduler::new` spawns the worker. -/
def Worker.new : Worker := ⟨[], false, .waiting, false, [], []⟩

inductive Move
  /-- A sender puts a task into the queue. -/
  | send (t : Sent)
  /-- The last sender is dropped. -/
  | close
  /-- `recv` returns, and its task is looked at. -/
  | recv
  /-- A round of the inner loop, or its end. -/
  | tryRecv
  /-- The batch that is left is applied. -/
  | apply
  /-- The end of a round: whether the last commit is long ago, and whether a commit fails. -/
  | check (due fails : Bool)

/-- The moves of the worker itself. -/
def Move.OfWorker : Move → Prop
  | .send _ | .close => False
  | _ => True

/-- The calls for a batch that is not empty. -/
def flushing (batch : Batch) : List Call := if batch = [] then [] else [.upsertBatch batch]

/-- `worker_loop` from `recv` to the inner loop -/
def Worker.received (w : Worker) (t : Sent) : Worker :=
  match t.task with
  | .upsert doc => { w with stage := .draining [(doc, t.fails)] false }
  | .remove path =>
    { w with
      calls := w.calls ++ [.remove path t.fails], dirty := true, stage := .draining [] false }
  | .flush => { w with stage := .draining [] true }

/-- The inner loop of `worker_loop` with a task that was there. -/
def Worker.drained (w : Worker) (batch : Batch) (forceCommit : Bool) (t : Sent) : Worker :=
  match t.task with
  | .upsert doc => { w with stage := .draining (batch ++ [(doc, t.fails)]) forceCommit }
  | .remove path =>
    { w with
      calls := w.calls ++ flushing batch ++ [.remove path t.fails]
      dirty := true
      stage := .applying [] forceCommit }
  | .flush => { w with stage := .applying batch true }

/-- One move; there is none where it is not its turn, where `recv` has to wait, or where the queue
is closed. -/
def Worker.step (w : Worker) : Move → Option Worker
  | .send t =>
    if w.closed then none else some { w with queue := w.queue ++ [t], sent := w.sent ++ [t] }
  | .close => some { w with closed := true }
  | .recv =>
    match w.stage, w.queue with
    | .waiting, [] => if w.closed then some { w with stage := .finished } else none
    | .waiting, t :: queue => some ({ w with queue }.received t)
    | _, _ => none
  | .tryRecv =>
    match w.stage with
    | .draining batch forceCommit =>
      if batch.length < batchMax then
        match w.queue with
        | [] => some { w with stage := .applying batch forceCommit }
        | t :: queue => some ({ w with queue }.drained batch forceCommit t)
      else some { w with stage := .applying batch forceCommit }
    | _ => none
  | .apply =>
    match w.stage with
    | .applying batch forceCommit =>
      some { w with
        calls := w.calls ++ flushing batch
        dirty := w.dirty || batch ≠ []
        stage := .checking forceCommit }
    | _ => none
  | .check due fails =>
    match w.stage with
    | .checking forceCommit =>
      if (w.dirty || forceCommit) && (forceCommit || due || w.queue = []) then
        some { w with calls := w.calls ++ [.commit fails], dirty := false, stage := .waiting }
      else some { w with stage := .waiting }
    | _ => none

/-- The workers that are reached by moves of which each is allowed where it is made. -/
inductive Worker.Reached (allowed : Worker → Move → Prop) : Worker → Prop
  | new : Worker.Reached allowed .new
  | step {w w' : Worker} {a : Move} : Worker.Reached allowed w → allowed w a →
      w.step a = some w' → Worker.Reached allowed w'

/-- The batch that is taken out of the queue and not yet applied. -/
def Stage.batch : Stage → Batch
  | .draining batch _ => batch
  | .applying batch _ => batch
  | _ => []

/-- The tasks of a batch. -/
def Batch.tasks (batch : Batch) : List Sent := batch.map fun d => ⟨.upsert d.1, d.2⟩

/-- The calls, and the tasks of the batch that is not yet applied, do what the tasks that were taken
out of the queue do one by one. -/
def Worker.Serial (w : Worker) : Prop :=
  ∃ taken, w.sent = taken ++ w.queue ∧
    ∀ s : Contents, w.stage.batch.tasks.foldl (Contents.apply m)
      (w.calls.foldl (Contents.call m) s) = taken.foldl (Contents.apply m) s

/-- The moves that the worker has still to make for the tasks in the queue. -/
def Worker.work (w : Worker) : ℕ :=
  4 * w.queue.length + match w.stage with
    | .waiting => 1
    | .draining _ _ => 4
    | .applying _ _ => 3
    | .checking _ => 2
    | .finished => 0

/-- What the scheduler promises in a state: order, commits before it waits, and that closing the
queue loses no task. -/
structure Worker.Faithful (w : Worker) : Prop where
  serial : w.Serial m
  committed : w.stage = .waiting → w.queue = [] → Committed w.calls
  closed : w.closed = true → w.stage ≠ .finished →
    (∃ a, a.OfWorker ∧ (w.step a).isSome) ∧
      ∀ a, a.OfWorker → ∀ w', w.step a = some w' → w'.work < w.work
  finished : w.stage = .finished → w.queue = [] ∧ Committed w.calls

/-- A batch of which no document fails among others. -/
def Batch.Whole (batch : Batch) : Prop := batch.length ≤ 1 ∨ ∀ d ∈ batch, d.2 = false

/-- The moves where the engine does not fail in a way that the worker ignores: a document that
cannot be added is alone in its batch, and no commit of a change fails. -/
def Worker.Smooth (w : Worker) : Move → Prop
  | .tryRecv => (∃ t path, w.queue.head? = some t ∧ t.task = .remove path) → w.stage.batch.Whole
  | .apply => w.stage.batch.Whole
  | .check _ fails => fails = true → w.dirty = false
  | _ => True

/-! ### Calls and commits -/

variable {m} {w w' : Worker} {batch : Batch} {calls : List Call}

lemma committed_append_commit (calls : List Call) : Committed (calls ++ [.commit false]) := by
  intro i c hc hchanges
  refine ⟨calls.length, ?_, List.getElem?_concat_length⟩
  by_contra hi
  have hlen : i < (calls ++ [Call.commit false]).length := (List.getElem?_eq_some_iff.mp hc).1
  have heq : i = calls.length := by
    simp only [List.length_append, List.length_singleton] at hlen
    omega
  subst heq
  obtain rfl := Option.some.inj (List.getElem?_concat_length.symm.trans hc)
  exact hchanges

lemma Committed.append_commit (h : Committed calls) (fails : Bool) :
    Committed (calls ++ [.commit fails]) := by
  intro i c hc hchanges
  by_cases hi : i < calls.length
  · rw [List.getElem?_append_left hi] at hc
    obtain ⟨j, hj, hcommit⟩ := h i c hc hchanges
    refine ⟨j, hj, ?_⟩
    rw [List.getElem?_append_left (List.getElem?_eq_some_iff.mp hcommit).1]
    exact hcommit
  · rw [List.getElem?_append_right (not_lt.mp hi), List.getElem?_singleton] at hc
    split_ifs at hc
    obtain rfl := Option.some.inj hc
    exact hchanges.elim

/-- A batch of which no document fails is its documents, one by one. -/
lemma call_upsertBatch_of_not_fails (h : ∀ d ∈ batch, d.2 = false) (s : Contents) :
    s.call m (.upsertBatch batch) =
      ⟨(batch.map Prod.fst).foldl Docs.put s.live, upsertAnn m s.vectors (batch.map Prod.fst)⟩ := by
  have hfails : batch.findIdx? Prod.snd = none :=
    List.findIdx?_eq_none_iff.mpr h
  simp only [Contents.call, hfails]
  rfl

/-- A whole batch does what its documents do one by one. -/
lemma call_flushing (h : batch.Whole) (s : Contents) :
    (flushing batch).foldl (Contents.call m) s = batch.tasks.foldl (Contents.apply m) s := by
  rcases h with hlen | hgood
  · rcases batch with _ | ⟨d, _ | ⟨e, rest⟩⟩
    · rfl
    · rfl
    · simp only [List.length_cons] at hlen
      omega
  · induction batch using List.reverseRecOn generalizing s with
    | nil => rfl
    | append_singleton batch d ih =>
      have hbatch : ∀ e ∈ batch, e.2 = false := fun e he => hgood e (List.mem_append_left _ he)
      have hd : ∀ e ∈ [d], e.2 = false :=
        fun e he => hgood e (List.mem_append_right _ he)
      have hone : flushing (batch ++ [d]) = [.upsertBatch (batch ++ [d])] :=
        if_neg (List.append_ne_nil_of_right_ne_nil _ (List.cons_ne_nil _ _))
      have happly : ∀ s : Contents, s.apply m ⟨.upsert d.1, d.2⟩ = s.call m (.upsertBatch [d]) :=
        fun _ => rfl
      have hprefix : (flushing batch).foldl (Contents.call m) s =
          ⟨(batch.map Prod.fst).foldl Docs.put s.live,
            upsertAnn m s.vectors (batch.map Prod.fst)⟩ := by
        rw [flushing]
        split_ifs with hempty
        · subst hempty
          rfl
        · exact call_upsertBatch_of_not_fails hbatch s
      rw [Batch.tasks, List.map_append, List.foldl_append, ← Batch.tasks, ← ih s hbatch, hprefix,
        hone, List.foldl_cons, List.foldl_nil, call_upsertBatch_of_not_fails hgood, List.map_cons,
        List.map_nil, List.foldl_cons, List.foldl_nil, happly, call_upsertBatch_of_not_fails hd]
      simp only [List.map_append, List.foldl_append, upsertAnn]

/-! ### What a move keeps -/

/-- The calls do what the tasks do, an index that is not dirty is committed, and the worker does not
wait for a task that is there. -/
structure Worker.Inv (m : Embedder) (w : Worker) : Prop where
  serial : w.Serial m
  clean : w.dirty = false → Committed w.calls
  waiting : w.stage = .waiting → w.dirty = true → w.queue ≠ []
  finished : w.stage = .finished → w.closed = true ∧ w.queue = [] ∧ w.dirty = false

lemma Worker.inv_new : Worker.new.Inv m where
  serial := ⟨[], rfl, fun _ => rfl⟩
  clean _ i c hc := by simp [Worker.new] at hc
  waiting _ h := Bool.noConfusion h
  finished h := Stage.noConfusion h

/-- A task that was taken out of the queue is done, where it does what the calls and the batch do
more than before. -/
lemma Worker.Serial.take (h : w.Serial m) {t : Sent} {queue : List Sent}
    (hqueue : w.queue = t :: queue) (hsent : w'.sent = w.sent) (hrest : w'.queue = queue)
    (hcalls : ∀ s : Contents, w'.stage.batch.tasks.foldl (Contents.apply m)
        (w'.calls.foldl (Contents.call m) s) =
      (w.stage.batch.tasks.foldl (Contents.apply m)
        (w.calls.foldl (Contents.call m) s)).apply m t) : w'.Serial m := by
  obtain ⟨taken, htaken, hserial⟩ := h
  refine ⟨taken ++ [t], ?_, fun s => ?_⟩
  · rw [hsent, htaken, hqueue, hrest, List.append_assoc]
    rfl
  · rw [hcalls, hserial, List.foldl_append]
    rfl

/-- One more task, which is looked at when no batch is pending. -/
lemma Worker.Inv.received (h : w.Inv m) (hstage : w.stage = .waiting) {t : Sent} {queue : List Sent}
    (hqueue : w.queue = t :: queue) : ({ w with queue }.received t).Inv m := by
  obtain ⟨task, fails⟩ := t
  cases task with
  | upsert doc =>
    refine ⟨h.serial.take hqueue rfl rfl fun s => ?_, h.clean, fun h => Stage.noConfusion h,
      fun h => Stage.noConfusion h⟩
    rw [hstage]
    rfl
  | remove path =>
    refine ⟨h.serial.take hqueue rfl rfl fun s => ?_, fun h => Bool.noConfusion h,
      fun h => Stage.noConfusion h, fun h => Stage.noConfusion h⟩
    rw [hstage]
    simp only [Worker.received, List.foldl_append]
    rfl
  | flush =>
    refine ⟨h.serial.take hqueue rfl rfl fun s => ?_, h.clean, fun h => Stage.noConfusion h,
      fun h => Stage.noConfusion h⟩
    rw [hstage]
    rfl

/-- One more task in the inner loop; before a path is removed the batch is applied. -/
lemma Worker.Inv.drained (h : w.Inv m) {forceCommit : Bool}
    (hstage : w.stage = .draining batch forceCommit) {t : Sent} {queue : List Sent}
    (hqueue : w.queue = t :: queue) (hwhole : ∀ path, t.task = .remove path → batch.Whole) :
    ({ w with queue }.drained batch forceCommit t).Inv m := by
  obtain ⟨task, fails⟩ := t
  cases task with
  | upsert doc =>
    refine ⟨h.serial.take hqueue rfl rfl fun s => ?_, h.clean, fun h => Stage.noConfusion h,
      fun h => Stage.noConfusion h⟩
    rw [hstage]
    simp only [Worker.drained, Stage.batch, Batch.tasks, List.map_append, List.foldl_append]
    rfl
  | remove path =>
    refine ⟨h.serial.take hqueue rfl rfl fun s => ?_, fun h => Bool.noConfusion h,
      fun h => Stage.noConfusion h, fun h => Stage.noConfusion h⟩
    rw [hstage]
    simp only [Worker.drained, List.foldl_append, call_flushing (hwhole path rfl)]
    rfl
  | flush =>
    refine ⟨h.serial.take hqueue rfl rfl fun s => ?_, h.clean, fun h => Stage.noConfusion h,
      fun h => Stage.noConfusion h⟩
    rw [hstage]
    rfl

/-- The batch is left to be applied. -/
lemma Worker.Inv.leave (h : w.Inv m) {forceCommit : Bool}
    (hstage : w.stage = .draining batch forceCommit) :
    { w with stage := .applying batch forceCommit }.Inv m := by
  obtain ⟨taken, hsent, hserial⟩ := h.serial
  rw [hstage] at hserial
  exact ⟨⟨taken, hsent, hserial⟩, h.clean, fun h => Stage.noConfusion h,
    fun h => Stage.noConfusion h⟩

/-- The batch that is left is applied. -/
lemma Worker.Inv.apply (h : w.Inv m) {forceCommit : Bool}
    (hstage : w.stage = .applying batch forceCommit) (hwhole : batch.Whole) :
    { w with
      calls := w.calls ++ flushing batch
      dirty := w.dirty || batch ≠ []
      stage := .checking forceCommit }.Inv m := by
  obtain ⟨taken, hsent, hserial⟩ := h.serial
  rw [hstage] at hserial
  refine ⟨⟨taken, hsent, fun s => ?_⟩, fun hdirty => ?_, fun h => Stage.noConfusion h,
    fun h => Stage.noConfusion h⟩
  · rw [← hserial s, List.foldl_append, call_flushing hwhole]
    rfl
  · obtain ⟨hclean, hbatch⟩ := Bool.or_eq_false_iff.mp hdirty
    have hempty : batch = [] := not_not.mp (of_decide_eq_false hbatch)
    subst hempty
    rw [flushing, if_pos rfl, List.append_nil]
    exact h.clean hclean

/-- The end of a round. -/
lemma Worker.Inv.check (h : w.Inv m) {forceCommit due fails : Bool}
    (hstage : w.stage = .checking forceCommit) (hfails : fails = true → w.dirty = false)
    (hstep : w.step (.check due fails) = some w') : w'.Inv m := by
  obtain ⟨taken, hsent, hserial⟩ := h.serial
  rw [hstage] at hserial
  simp only [Worker.step, hstage] at hstep
  split_ifs at hstep with hcommit <;> obtain rfl := Option.some.inj hstep
  · refine ⟨⟨taken, hsent, fun s => ?_⟩, fun _ => ?_, fun _ h => Bool.noConfusion h,
      fun h => Stage.noConfusion h⟩
    · rw [← hserial s, List.foldl_append]
      rfl
    · cases fails with
      | true => exact (h.clean (hfails rfl)).append_commit true
      | false => exact committed_append_commit w.calls
  · refine ⟨⟨taken, hsent, hserial⟩, h.clean, fun _ hdirty hempty => hcommit ?_,
      fun h => Stage.noConfusion h⟩
    simp only [show w.dirty = true from hdirty, show w.queue = [] from hempty, Bool.true_or,
      decide_true, Bool.or_true, Bool.true_and]

/-- A move without a failure that the worker ignores keeps the invariant. -/
lemma Worker.Inv.step (h : w.Inv m) {a : Move} (hsmooth : w.Smooth a) (hstep : w.step a = some w') :
    w'.Inv m := by
  cases a with
  | send t =>
    simp only [Worker.step] at hstep
    split_ifs at hstep with hclosed
    obtain rfl := Option.some.inj hstep
    obtain ⟨taken, hsent, hserial⟩ := h.serial
    refine ⟨⟨taken, ?_, hserial⟩, h.clean, fun _ _ =>
      List.append_ne_nil_of_right_ne_nil _ (List.cons_ne_nil _ _), fun hfinished =>
      absurd (h.finished hfinished).1 hclosed⟩
    simp only [hsent, List.append_assoc]
  | close =>
    obtain rfl := Option.some.inj hstep
    exact ⟨h.serial, h.clean, h.waiting, fun hfinished => ⟨rfl, (h.finished hfinished).2⟩⟩
  | recv =>
    unfold Worker.step at hstep
    dsimp only at hstep
    split at hstep
    · rename_i hstage hqueue
      split_ifs at hstep with hclosed
      obtain rfl := Option.some.inj hstep
      obtain ⟨taken, hsent, hserial⟩ := h.serial
      rw [hstage] at hserial
      refine ⟨⟨taken, hsent, hserial⟩, h.clean, fun h => Stage.noConfusion h, fun _ =>
        ⟨hclosed, hqueue, ?_⟩⟩
      by_contra hdirty
      exact h.waiting hstage (Bool.eq_true_of_not_eq_false hdirty) hqueue
    · rename_i hstage hqueue
      obtain rfl := Option.some.inj hstep
      exact h.received hstage hqueue
    · cases hstep
  | tryRecv =>
    unfold Worker.step at hstep
    dsimp only at hstep
    split at hstep
    · rename_i batch forceCommit hstage
      split_ifs at hstep with hroom
      · split at hstep
        · obtain rfl := Option.some.inj hstep
          exact h.leave hstage
        · rename_i t queue hqueue
          obtain rfl := Option.some.inj hstep
          refine h.drained hstage hqueue fun path htask => ?_
          have hwhole := hsmooth ⟨t, path, by rw [hqueue, List.head?_cons], htask⟩
          rwa [hstage] at hwhole
      · obtain rfl := Option.some.inj hstep
        exact h.leave hstage
    · cases hstep
  | apply =>
    unfold Worker.step at hstep
    dsimp only at hstep
    split at hstep
    · rename_i batch forceCommit hstage
      obtain rfl := Option.some.inj hstep
      refine h.apply hstage ?_
      have hwhole : w.stage.batch.Whole := hsmooth
      rwa [hstage] at hwhole
    · cases hstep
  | check due fails =>
    have hstage : ∃ forceCommit, w.stage = .checking forceCommit := by
      unfold Worker.step at hstep
      dsimp only at hstep
      split at hstep
      · exact ⟨_, ‹_›⟩
      · cases hstep
    obtain ⟨forceCommit, hstage⟩ := hstage
    exact h.check hstage hsmooth hstep

lemma Worker.inv_of_smooth (h : Worker.Reached Worker.Smooth w) : w.Inv m := by
  induction h with
  | new => exact Worker.inv_new
  | step _ hsmooth hstep ih => exact ih.step hsmooth hstep

/-! ### The rest of the queue -/

/-- The worker has a move where it does not wait and has not finished. -/
lemma Worker.exists_move (hclosed : w.closed = true) (h : w.stage ≠ .finished) :
    ∃ a, a.OfWorker ∧ (w.step a).isSome := by
  cases hstage : w.stage with
  | waiting =>
    refine ⟨.recv, trivial, ?_⟩
    cases hqueue : w.queue with
    | nil => simp [Worker.step, hstage, hqueue, hclosed]
    | cons t queue => simp [Worker.step, hstage, hqueue]
  | draining batch forceCommit =>
    refine ⟨.tryRecv, trivial, ?_⟩
    by_cases hroom : batch.length < batchMax
    · cases hqueue : w.queue with
      | nil => simp [Worker.step, hstage, hqueue, hroom]
      | cons t queue => simp [Worker.step, hstage, hqueue, hroom]
    · simp [Worker.step, hstage, hroom]
  | applying batch forceCommit => exact ⟨.apply, trivial, by simp [Worker.step, hstage]⟩
  | checking forceCommit =>
    refine ⟨.check false false, trivial, ?_⟩
    simp only [Worker.step, hstage]
    split_ifs <;> rfl
  | finished => exact absurd hstage h

lemma Worker.work_received (w : Worker) (t : Sent) :
    (w.received t).work = 4 * w.queue.length + 4 := by
  obtain ⟨task, fails⟩ := t
  cases task <;> rfl

lemma Worker.work_drained (w : Worker) (batch : Batch) (forceCommit : Bool) (t : Sent) :
    (w.drained batch forceCommit t).work ≤ 4 * w.queue.length + 4 := by
  obtain ⟨task, fails⟩ := t
  cases task with
  | upsert doc => exact le_rfl
  | remove path => exact Nat.add_le_add_left (Nat.le_succ 3) _
  | flush => exact Nat.add_le_add_left (Nat.le_succ 3) _

/-- Each move of the worker leaves it with less to do. -/
lemma Worker.work_lt {a : Move} (ha : a.OfWorker) (hstep : w.step a = some w') :
    w'.work < w.work := by
  cases a with
  | send t => exact ha.elim
  | close => exact ha.elim
  | recv =>
    unfold Worker.step at hstep
    dsimp only at hstep
    split at hstep
    · rename_i hstage hqueue
      split_ifs at hstep
      obtain rfl := Option.some.inj hstep
      simp [Worker.work, hstage]
    · rename_i t queue hstage hqueue
      obtain rfl := Option.some.inj hstep
      rw [Worker.work_received]
      simp only [Worker.work, hstage, hqueue, List.length_cons]
      omega
    · cases hstep
  | tryRecv =>
    unfold Worker.step at hstep
    dsimp only at hstep
    split at hstep
    · rename_i batch forceCommit hstage
      split_ifs at hstep
      · split at hstep
        · obtain rfl := Option.some.inj hstep
          simp [Worker.work, hstage]
        · rename_i t queue hqueue
          obtain rfl := Option.some.inj hstep
          refine (Worker.work_drained _ _ _ _).trans_lt ?_
          simp only [Worker.work, hstage, hqueue, List.length_cons]
          omega
      · obtain rfl := Option.some.inj hstep
        simp [Worker.work, hstage]
    · cases hstep
  | apply =>
    unfold Worker.step at hstep
    dsimp only at hstep
    split at hstep
    · rename_i batch forceCommit hstage
      obtain rfl := Option.some.inj hstep
      simp [Worker.work, hstage]
    · cases hstep
  | check due fails =>
    unfold Worker.step at hstep
    dsimp only at hstep
    split at hstep
    · rename_i forceCommit hstage
      split_ifs at hstep <;> obtain rfl := Option.some.inj hstep <;> simp [Worker.work, hstage]
    · cases hstep

/-! ### Runs -/

/-- In every run without a failure that the worker ignores, the calls do what the tasks do one by
one, what they changed is committed before the worker waits for a task, and a closed queue is worked
off. -/
theorem faithful_of_smooth (m : Embedder) {w : Worker} (h : Worker.Reached Worker.Smooth w) :
    w.Faithful m := by
  have hinv := Worker.inv_of_smooth (m := m) h
  refine ⟨hinv.serial, fun hstage hqueue => hinv.clean ?_, fun hclosed hstage =>
    ⟨Worker.exists_move hclosed hstage, fun a ha w' => Worker.work_lt ha⟩, fun hstage => ?_⟩
  · by_contra hdirty
    exact hinv.waiting hstage (Bool.eq_true_of_not_eq_false hdirty) hqueue
  · obtain ⟨-, hqueue, hdirty⟩ := hinv.finished hstage
    exact ⟨hqueue, hinv.clean hdirty⟩

/-- A task that the engine does not fail at. -/
def Sent.good (task : IndexTask) : Sent := ⟨task, false⟩

theorem faithful_of_smooth_note : ∃ w : Worker, w.calls =
    [.upsertBatch [(note, false)], .remove note.path false, .commit false] ∧
      w.Faithful constantEmbedder := by
  have h₀ : Worker.Reached Worker.Smooth .new := .new
  have h₁ := h₀.step (a := .send (.good (.upsert note))) trivial rfl
  have h₂ := h₁.step (a := .send (.good (.remove note.path))) trivial rfl
  have h₃ := h₂.step (a := .recv) trivial rfl
  have h₄ := h₃.step (a := .tryRecv) (fun _ => Or.inl le_rfl) rfl
  have h₅ := h₄.step (a := .apply) (Or.inl (Nat.zero_le 1)) rfl
  have h₆ := h₅.step (a := .check false false) (fun h => Bool.noConfusion h) rfl
  exact ⟨_, rfl, faithful_of_smooth constantEmbedder h₆⟩

/-- After a commit that failed the worker waits all the same. And a document that cannot be added
keeps the vector of another one in its batch from being stored. -/
theorem not_faithful :
    (¬ ∀ (m : Embedder) (w : Worker), Worker.Reached (fun _ _ => True) w → w.Faithful m) ∧
      ∃ w : Worker, Worker.Reached (fun _ _ => True) w ∧ ¬ w.Serial constantEmbedder := by
  have h₀ : Worker.Reached (fun _ _ => True) .new := .new
  have h₁ := h₀.step (a := .send (.good (.upsert note))) trivial rfl
  constructor
  · intro h
    have h₂ := h₁.step (a := .recv) trivial rfl
    have h₃ := h₂.step (a := .tryRecv) trivial rfl
    have h₄ := h₃.step (a := .apply) trivial rfl
    have h₅ := h₄.step (a := .check false true) trivial rfl
    obtain ⟨j, hj, hcommit⟩ := (h constantEmbedder _ h₅).committed rfl rfl 0 _ rfl trivial
    rcases j with _ | _ | j
    · exact absurd hj (lt_irrefl 0)
    · cases hcommit
    · cases hcommit
  · have h₂ := h₁.step (a := .send ⟨.upsert { note with path := [] }, true⟩) trivial rfl
    have h₃ := h₂.step (a := .recv) trivial rfl
    have h₄ := h₃.step (a := .tryRecv) trivial rfl
    have h₅ := h₄.step (a := .tryRecv) trivial rfl
    have h₆ := h₅.step (a := .apply) trivial rfl
    refine ⟨_, h₆, ?_⟩
    rintro ⟨taken, hsent, hserial⟩
    obtain rfl := hsent.trans (List.append_nil taken)
    have hvector : none = some [0#32] :=
      congrArg (fun s => s.vectors note.path) (hserial ⟨fun _ => none, fun _ => none⟩)
    cases hvector

/-! ### The engine -/

end Orchid.Search
