import Mathlib.Data.List.Perm.Basic
import Orchid.Base.Text
import Orchid.Storage.History

/-!
# Dispatching and recording actions

`action/dispatcher.rs`: an action is executed between the hooks of the middlewares. The source
counts how many `before` hooks have run and goes back over that many middlewares; that is the same
as wrapping the middlewares around the action, one inside the other. The hooks work on the state of
the program; an action may panic, a hook does not.

`action/history.rs`: a middleware that buffers an entry for every dispatched action and writes the
buffer in one transaction, when it is long or old enough. Many dispatches run at the same time. An
`after` hook pushes its entry in one step and takes the buffer in another one, and a taken buffer is
written by a task of its own, which may fail.
-/

namespace Orchid.Action

open Lib Storage

/-! ### Dispatching -/

variable {σ ε ω : Type}

/-- `CoreError`; the dispatcher makes the first one itself and passes on what it is given. -/
inductive CoreError (ε : Type) where
  | actionFailed (message : Text)
  | other (e : ε)

/-- `Result<ActionOutcome>` -/
abbrev Outcome (ε ω : Type) := Except (CoreError ε) ω

/-- What a panic carries. -/
inductive PanicPayload where
  | text (s : Text)
  | other

/-- `panic_payload_to_string` -/
def panicPayloadToString : PanicPayload → Text
  | .text s => s
  | .other => "<non-stringifiable panic>".toList

/-- How an execution ends. -/
inductive Ended (ε ω : Type) where
  | returned (result : Outcome ε ω)
  | panicked (payload : PanicPayload)

/-- `ActionMiddleware`, by what its hooks do to the state. -/
structure ActionMiddleware (σ ε ω : Type) where
  before : σ → σ × Except (CoreError ε) Unit
  after : Outcome ε ω → σ → σ

/-- `run_with_panic_catch` -/
def runWithPanicCatch (execute : σ → σ × Ended ε ω) (s : σ) : σ × Outcome ε ω :=
  match execute s with
  | (s, .returned result) => (s, result)
  | (s, .panicked payload) =>
    (s, .error (.actionFailed ("panic: ".toList ++ panicPayloadToString payload)))

/-- The loop over the `before` hooks, with the number of hooks that have run. -/
def beforeFrom (reached : ℕ) :
    List (ActionMiddleware σ ε ω) → σ → σ × Option (CoreError ε × ℕ)
  | [], s => (s, none)
  | mw :: rest, s =>
    match mw.before s with
    | (s, .error e) => (s, some (e, reached))
    | (s, .ok ()) => beforeFrom (reached + 1) rest s

/-- The loop over the `after` hooks, the last middleware first. -/
def afterAll (middlewares : List (ActionMiddleware σ ε ω)) (outcome : Outcome ε ω) (s : σ) : σ :=
  middlewares.reverse.foldl (fun s mw => mw.after outcome s) s

/-- What `dispatch` does behind its loop over the `before` hooks. -/
def settle (middlewares : List (ActionMiddleware σ ε ω)) (execute : σ → σ × Ended ε ω) :
    σ × Option (CoreError ε × ℕ) → σ × Outcome ε ω
  | (s, some (e, reached)) => (afterAll (middlewares.take reached) (.error e) s, .error e)
  | (s, none) =>
    let (s, outcome) := runWithPanicCatch execute s
    (afterAll middlewares outcome s, outcome)

/-- `dispatch` -/
def dispatch (middlewares : List (ActionMiddleware σ ε ω)) (execute : σ → σ × Ended ε ω) (s : σ) :
    σ × Outcome ε ω :=
  settle middlewares execute (beforeFrom 0 middlewares s)

/-- Middlewares that are wrapped around a computation, the first one outermost. -/
def wrapped (run : σ → σ × Outcome ε ω) : List (ActionMiddleware σ ε ω) → σ → σ × Outcome ε ω
  | [], s => run s
  | mw :: rest, s =>
    match mw.before s with
    | (s, .error e) => (s, .error e)
    | (s, .ok ()) =>
      let (s, outcome) := wrapped run rest s
      (mw.after outcome s, outcome)

lemma afterAll_concat (ms : List (ActionMiddleware σ ε ω)) (mw : ActionMiddleware σ ε ω)
    (outcome : Outcome ε ω) (s : σ) :
    afterAll (ms ++ [mw]) outcome s = afterAll ms outcome (mw.after outcome s) := by
  simp [afterAll]

/-- A dispatch whose first middlewares have run their `before` hooks: what they have still to do is
done to the result of wrapping the others. -/
lemma settle_from (execute : σ → σ × Ended ε ω) (rest : List (ActionMiddleware σ ε ω)) :
    ∀ (done : List (ActionMiddleware σ ε ω)) (s : σ),
      settle (done ++ rest) execute (beforeFrom done.length rest s) =
        (afterAll done (wrapped (runWithPanicCatch execute) rest s).2
          (wrapped (runWithPanicCatch execute) rest s).1,
          (wrapped (runWithPanicCatch execute) rest s).2) := by
  induction rest with
  | nil => simp [beforeFrom, wrapped, settle]
  | cons mw rest ih =>
    intro done s
    rcases hb : mw.before s with ⟨s', e | _⟩
    · simp [beforeFrom, wrapped, settle, hb]
    · have := ih (done ++ [mw]) s'
      simp only [List.length_append, List.length_singleton, List.append_assoc,
        List.singleton_append, afterAll_concat] at this
      simp only [beforeFrom, wrapped, hb, this]

/-- Dispatching an action is running it inside the middlewares, the first one outermost: whoever
was asked before is told the outcome afterwards, and nobody else. -/
theorem dispatch_eq_wrapped (middlewares : List (ActionMiddleware σ ε ω))
    (execute : σ → σ × Ended ε ω) (s : σ) :
    dispatch middlewares execute s = wrapped (runWithPanicCatch execute) middlewares s :=
  settle_from execute middlewares [] s

lemma wrapped_append (run : σ → σ × Outcome ε ω) (ms ms' : List (ActionMiddleware σ ε ω)) (s : σ) :
    wrapped run (ms ++ ms') s = wrapped (wrapped run ms') ms s := by
  induction ms generalizing s with
  | nil => rfl
  | cons mw ms ih =>
    simp only [List.cons_append, wrapped, ih]

/-- A dispatcher with more middlewares dispatches inside the ones it had. -/
lemma dispatch_append (ms ms' : List (ActionMiddleware σ ε ω)) (execute : σ → σ × Ended ε ω)
    (s : σ) : dispatch (ms ++ ms') execute s = wrapped (dispatch ms' execute) ms s := by
  have hall := settle_from execute (ms ++ ms') [] s
  have hinner : dispatch ms' execute = wrapped (runWithPanicCatch execute) ms' :=
    funext fun s => settle_from execute ms' [] s
  rw [hinner, ← wrapped_append]
  exact hall

/-- A middleware that never refuses is told the outcome of every dispatch that reaches it, the one
that the caller gets: of actions that succeed, fail, panic or are refused further inside. -/
lemma dispatch_cons {mw : ActionMiddleware σ ε ω} {s : σ}
    (hmw : (mw.before s).2 = .ok ()) (ms : List (ActionMiddleware σ ε ω))
    (execute : σ → σ × Ended ε ω) :
    dispatch (mw :: ms) execute s =
      (mw.after (dispatch ms execute (mw.before s).1).2 (dispatch ms execute (mw.before s).1).1,
        (dispatch ms execute (mw.before s).1).2) := by
  rw [← List.singleton_append, dispatch_append]
  rcases hb : mw.before s with ⟨s', e | u⟩
  · simp [hb] at hmw
  · simp [wrapped, hb]

/-! ### Recording -/

/-- `FLUSH_MAX_ENTRIES` -/
def flushMaxEntries : ℕ := 32

/-- `FLUSH_MAX_AGE`, in nanoseconds. -/
def flushMaxAge : ℕ := 2 * 1000000000

/-- `REVERSIBLE_WINDOW_SECONDS`, in nanoseconds. -/
def reversibleWindow : ℤ := 15 * 1000000000

/-! ### The entry of an action -/

/-- `ActionOutcome`; message and data are not recorded. -/
structure ActionOutcome where
  success : Bool
  reverseCommandText : Option Text

/-- What an `Action` tells of itself. -/
structure ActionInfo where
  id : Text
  commandText : Text
  isReversible : Bool
  target : Option Text

/-- What is recorded of an `ActionContext`. -/
structure ActionContext where
  correlationId : Option Uuid
  sourceLabel : Text

/-- `HistoryMetadata` -/
structure HistoryMetadata where
  success : Bool
  errorMessage : Option Text
  correlationId : Option Uuid
  sourceLabel : Text

/-- The fields of a `HistoryEntry` behind id and time; the metadata before it is encoded. -/
structure ActionRecord where
  actionId : Text
  commandText : Text
  target : Option Text
  reversibleUntil : Option ℤ
  reverseCommand : Option Text
  metadata : HistoryMetadata

/-- The entry that `after` makes of an action and its outcome; `describe` is how an error shows. -/
def historyEntry {ε : Type} (describe : CoreError ε → Text) (id : Uuid) (now : ℤ)
    (action : ActionInfo) (ctx : ActionContext) (outcome : Outcome ε ActionOutcome) :
    HistoryEntry Uuid ActionRecord where
  id := id
  timestamp := now
  payload :=
    { actionId := action.id
      commandText := action.commandText
      target := action.target
      reversibleUntil := if action.isReversible then some (now + reversibleWindow) else none
      reverseCommand := outcome.toOption.bind ActionOutcome.reverseCommandText
      metadata :=
        { success := (outcome.toOption.map ActionOutcome.success).getD false
          errorMessage := match outcome with
            | .ok _ => none
            | .error e => some (describe e)
          correlationId := ctx.correlationId
          sourceLabel := ctx.sourceLabel } }

/-! ### The recorder and the tasks around it -/

variable {U α : Type} [LinearOrder U]

/-- `HistoryRecorder` with its storage, the tasks that are in it, and an account of the entries. -/
structure Recorder (U α : Type) [LinearOrder U] where
  enabled : Bool
  pending : List (HistoryEntry U α)
  oldestAt : Option ℕ
  tables : HistoryTables U α
  /-- Hooks that have pushed their entry, found the batch due and not taken it yet. -/
  due : ℕ
  /-- Batches that are being written. -/
  writing : List (List (HistoryEntry U α))
  /-- Entries of the batches that were committed, and of those whose writing failed. -/
  written : List (HistoryEntry U α)
  lost : List (HistoryEntry U α)

/-- What happens in a program that records its actions. -/
inductive RecorderMove (U α : Type) where
  | setEnabled (enabled : Bool)
  /-- An `after` hook makes its entry, at a time of the monotonic clock. -/
  | record (entry : HistoryEntry U α) (now : ℕ)
  /-- A hook that found the batch due takes it. -/
  | takeDue
  /-- Somebody else calls `flush`. -/
  | flush
  /-- The writing of a batch ends. -/
  | wrote (i : ℕ) (committed : Bool)

namespace Recorder

variable (r : Recorder U α)

/-- `new` -/
def new (tables : HistoryTables U α) (enabled : Bool) : Recorder U α :=
  ⟨enabled, [], none, tables, 0, [], [], []⟩

/-- `push_pending` -/
def pushPending (entry : HistoryEntry U α) (now : ℕ) : Recorder U α × Bool :=
  let pending := r.pending ++ [entry]
  let oldest := r.oldestAt.getD now
  ({ r with pending, oldestAt := some oldest },
    decide (flushMaxEntries ≤ pending.length) || decide (flushMaxAge ≤ now - oldest))

/-- `after`, up to where it flushes if the batch is due. -/
def push (entry : HistoryEntry U α) (now : ℕ) : Recorder U α :=
  let (r, batchDue) := r.pushPending entry now
  if batchDue then { r with due := r.due + 1 } else r

/-- `flush`, up to where the batch is handed to its task. -/
def takePending : Recorder U α :=
  if r.pending = [] then { r with oldestAt := none }
  else { r with pending := [], oldestAt := none, writing := r.writing ++ [r.pending] }

/-- `write_batch`, at the end of its task. -/
def writeBatch (batch : List (HistoryEntry U α)) (committed : Bool) : Recorder U α :=
  let tables := r.tables.transact (batch.map .put, committed)
  if committed then { r with tables, written := r.written ++ batch }
  else { r with tables, lost := r.lost ++ batch }

/-- The recorder after a move; a move that is not possible leads nowhere. -/
def next : RecorderMove U α → Option (Recorder U α)
  | .setEnabled enabled => some { r with enabled }
  | .record entry now =>
    if r.enabled then some (r.push entry now) else some r
  | .takeDue => if r.due = 0 then none else some { r.takePending with due := r.due - 1 }
  | .flush => some r.takePending
  | .wrote i committed =>
    r.writing[i]?.map fun batch =>
      { r with writing := r.writing.eraseIdx i }.writeBatch batch committed

/-- The entries that a move adds to what is to be recorded. -/
def made (enabled : Bool) : RecorderMove U α → List (HistoryEntry U α)
  | .record entry _ => if enabled then [entry] else []
  | _ => []

/-- Is recording on after a move? -/
def enabledAfter (enabled : Bool) : RecorderMove U α → Bool
  | .setEnabled enabled => enabled
  | _ => enabled

/-- The entries that hooks make while recording is on. -/
def recorded (enabled : Bool) : List (RecorderMove U α) → List (HistoryEntry U α)
  | [] => []
  | m :: moves => made enabled m ++ recorded (enabledAfter enabled m) moves

/-! ### What every move keeps -/

/-- The entries so far are written, lost, being written or buffered; the buffer is short; and the
table has what is written. -/
structure Accounts (t : HistoryTables U α) (entries : List (HistoryEntry U α))
    (r : Recorder U α) : Prop where
  perm : entries.Perm (r.written ++ r.lost ++ r.writing.flatten ++ r.pending)
  short : r.pending.length < flushMaxEntries + r.due
  tables : r.tables = r.written.foldl .put t

variable {t : HistoryTables U α} {entries : List (HistoryEntry U α)} {r r' : Recorder U α}

lemma accounts_new (t : HistoryTables U α) (enabled : Bool) : Accounts t [] (new t enabled) :=
  ⟨.refl _, by simp [new, flushMaxEntries], rfl⟩

/-- A pushed entry is buffered, and a hook that leaves a long buffer is due. -/
lemma Accounts.push (h : Accounts t entries r) (entry : HistoryEntry U α) (now : ℕ) :
    Accounts t (entries ++ [entry]) (r.push entry now) := by
  have hperm : (entries ++ [entry]).Perm
      (r.written ++ r.lost ++ r.writing.flatten ++ (r.pending ++ [entry])) := by
    rw [← List.append_assoc]
    exact h.perm.append_right _
  have hshort := h.short
  simp only [Recorder.push]
  split_ifs with hdue
  · refine ⟨hperm, ?_, h.tables⟩
    simp only [pushPending, List.length_append, List.length_singleton]
    omega
  · refine ⟨hperm, ?_, h.tables⟩
    simp only [pushPending, Bool.or_eq_true, decide_eq_true_eq, not_or, not_le] at hdue ⊢
    omega

/-- Taking the buffer leaves it empty. -/
lemma Accounts.take (h : Accounts t entries r) (due : ℕ) :
    Accounts t entries { r.takePending with due := due } := by
  unfold takePending
  split_ifs with hnil
  · exact ⟨h.perm, by simp [hnil, flushMaxEntries], h.tables⟩
  · refine ⟨?_, by simp [flushMaxEntries], h.tables⟩
    simpa [List.append_assoc] using h.perm

lemma foldl_write_put (batch : List (HistoryEntry U α)) (t : HistoryTables U α) :
    (batch.map HistoryTables.Write.put).foldl HistoryTables.write t = batch.foldl .put t := by
  rw [List.foldl_map]
  rfl

lemma flatten_eraseIdx {α : Type} {ls : List (List α)} {i : ℕ} {l : List α} (h : ls[i]? = some l) :
    ls.flatten.Perm (l ++ (ls.eraseIdx i).flatten) := by
  obtain ⟨hlt, rfl⟩ := List.getElem?_eq_some_iff.mp h
  exact ((List.getElem_cons_eraseIdx_perm hlt).symm.flatten).trans (by simp)

/-- A batch is written as a whole, or lost. -/
lemma Accounts.wrote (h : Accounts t entries r) {i : ℕ} {batch : List (HistoryEntry U α)}
    (hi : r.writing[i]? = some batch) (committed : Bool) :
    Accounts t entries
      (writeBatch { r with writing := r.writing.eraseIdx i } batch committed) := by
  have hperm := h.perm.trans
    (((flatten_eraseIdx hi).append_left (r.written ++ r.lost)).append_right r.pending)
  cases committed
  · refine ⟨hperm.trans ?_, h.short, h.tables⟩
    simp only [writeBatch, List.append_assoc, Bool.false_eq_true, ↓reduceIte]
    exact .refl _
  · refine ⟨hperm.trans ?_, h.short, ?_⟩
    · simp only [writeBatch, List.append_assoc, ↓reduceIte]
      refine .append_left _ ?_
      rw [← List.append_assoc, ← List.append_assoc batch]
      exact List.perm_append_comm.append_right _
    · simp only [writeBatch, HistoryTables.transact, ↓reduceIte, List.foldl_append]
      rw [foldl_write_put, h.tables]

lemma Accounts.next (h : Accounts t entries r) {m : RecorderMove U α} (hm : r.next m = some r') :
    Accounts t (entries ++ made r.enabled m) r' ∧ r'.enabled = enabledAfter r.enabled m := by
  cases m with
  | setEnabled enabled =>
    cases hm
    exact ⟨⟨by simpa [made] using h.perm, h.short, h.tables⟩, rfl⟩
  | record entry now =>
    simp only [Recorder.next] at hm
    split_ifs at hm with hen
    · cases hm
      refine ⟨by simpa [made, hen] using h.push entry now, ?_⟩
      simp only [enabledAfter, Recorder.push]
      split_ifs <;> rfl
    · cases hm
      exact ⟨by simpa [made, hen] using h, rfl⟩
  | takeDue =>
    simp only [Recorder.next] at hm
    split_ifs at hm with hdue
    cases hm
    refine ⟨by simpa [made] using h.take (r.due - 1), ?_⟩
    simp only [enabledAfter, takePending]
    split_ifs <;> rfl
  | flush =>
    cases hm
    have hsame : { r.takePending with due := r.due } = r.takePending := by
      simp only [takePending]
      split_ifs <;> rfl
    refine ⟨by simpa [made, hsame] using h.take r.due, ?_⟩
    simp only [enabledAfter, takePending]
    split_ifs <;> rfl
  | wrote i committed =>
    obtain ⟨batch, hi, rfl⟩ := Option.map_eq_some_iff.mp hm
    refine ⟨by simpa [made] using h.wrote hi committed, ?_⟩
    cases committed <;> rfl

lemma Accounts.run {moves : List (RecorderMove U α)} (h : Accounts t entries r)
    (hrun : moves.foldlM Recorder.next r = some r') :
    Accounts t (entries ++ recorded r.enabled moves) r' := by
  induction moves generalizing r entries with
  | nil =>
    cases hrun
    simpa [recorded] using h
  | cons m moves ih =>
    rw [List.foldlM_cons] at hrun
    obtain ⟨r₁, hm, hrest⟩ := Option.bind_eq_some_iff.mp hrun
    obtain ⟨h₁, hen⟩ := h.next hm
    have := ih h₁ hrest
    rwa [hen, List.append_assoc] at this

/-- As long as every batch is committed, nothing is lost. -/
lemma lost_eq_nil {moves : List (RecorderMove U α)} (hlost : r.lost = [])
    (hrun : moves.foldlM Recorder.next r = some r')
    (hmoves : ∀ i, .wrote i false ∉ moves) : r'.lost = [] := by
  induction moves generalizing r with
  | nil =>
    cases hrun
    exact hlost
  | cons m moves ih =>
    rw [List.foldlM_cons] at hrun
    obtain ⟨r₁, hm, hrest⟩ := Option.bind_eq_some_iff.mp hrun
    refine ih ?_ hrest fun i hi => hmoves i (List.mem_cons_of_mem m hi)
    cases m with
    | setEnabled enabled =>
      cases hm
      exact hlost
    | record entry now =>
      simp only [Recorder.next] at hm
      split_ifs at hm
      · cases hm
        simp only [push]
        split_ifs <;> exact hlost
      · cases hm
        exact hlost
    | takeDue =>
      simp only [Recorder.next, takePending] at hm
      split_ifs at hm <;> (cases hm; exact hlost)
    | flush =>
      cases hm
      simp only [takePending]
      split_ifs <;> exact hlost
    | wrote i committed =>
      obtain ⟨batch, -, rfl⟩ := Option.map_eq_some_iff.mp hm
      cases committed
      · exact absurd List.mem_cons_self (hmoves i)
      · exact hlost

/-! ### The table -/

/-- Entries with ids of their own are all in the table after they are written. -/
lemma mem_foldl_put {batch : List (HistoryEntry U α)} (hids : (batch.map HistoryEntry.id).Nodup)
    (hnew : ∀ e ∈ batch, ∀ e' ∈ t.primary, e'.id ≠ e.id) {e : HistoryEntry U α} :
    e ∈ (batch.foldl .put t).primary ↔ e ∈ t.primary ∨ e ∈ batch := by
  induction batch generalizing t with
  | nil => simp
  | cons b batch ih =>
    obtain ⟨hb, hids⟩ := List.nodup_cons.mp hids
    have hlater : ∀ e ∈ batch, ∀ e' ∈ (t.put b).primary, e'.id ≠ e.id := by
      intro e he e' he'
      rcases HistoryTables.mem_primary_put.mp he' with rfl | ⟨he', -⟩
      · exact fun heq => hb (heq ▸ List.mem_map_of_mem he)
      · exact hnew e (List.mem_cons_of_mem b he) e' he'
    rw [List.foldl_cons, ih hids hlater, HistoryTables.mem_primary_put, List.mem_cons]
    constructor
    · rintro ((rfl | ⟨he, -⟩) | he)
      · exact .inr (.inl rfl)
      · exact .inl he
      · exact .inr (.inr he)
    · rintro (he | rfl | he)
      · exact .inl (.inr ⟨he, hnew b List.mem_cons_self e he⟩)
      · exact .inl (.inl rfl)
      · exact .inr he

/-- However dispatches, flushes and writes interleave: every recorded entry is exactly once among
the written, the lost, the ones being written and the buffered ones, and none is lost unless the
writing of a batch fails; the table has gained the written ones; and less than a batch is buffered,
but for what hooks that are about to flush leave there. -/
theorem recorder_accounts {enabled : Bool} {moves : List (RecorderMove U α)}
    (hrun : moves.foldlM Recorder.next (new t enabled) = some r)
    (hids : ((recorded enabled moves).map HistoryEntry.id).Nodup)
    (hnew : ∀ e ∈ recorded enabled moves, ∀ e' ∈ t.primary, e'.id ≠ e.id) :
    (recorded enabled moves).Perm (r.written ++ r.lost ++ r.writing.flatten ++ r.pending) ∧
      ((∀ i, .wrote i false ∉ moves) → r.lost = []) ∧
      (∀ e, e ∈ r.tables.primary ↔ e ∈ t.primary ∨ e ∈ r.written) ∧
      r.pending.length < flushMaxEntries + r.due := by
  have h := (accounts_new t enabled).run hrun
  rw [List.nil_append] at h
  have hperm : (recorded enabled moves).Perm
      (r.written ++ r.lost ++ r.writing.flatten ++ r.pending) := h.perm
  refine ⟨hperm, lost_eq_nil rfl hrun, fun e => ?_, h.short⟩
  have hsub : r.written.Subperm (recorded enabled moves) := by
    refine hperm.symm.subperm_left.mp ?_
    simp only [List.append_assoc]
    exact (List.sublist_append_left _ _).subperm
  rw [h.tables]
  refine mem_foldl_put ?_ fun e he => hnew e (hsub.subset he)
  obtain ⟨l, hl, hsubl⟩ := hsub
  exact (hl.map _).nodup_iff.mp ((hsubl.map _).nodup hids)

/-- One entry is written and the next one buffered while recording is on. -/
theorem recorder_accounts_two :
    let a : HistoryEntry ℕ Unit := ⟨1, 5, ()⟩
    let b : HistoryEntry ℕ Unit := ⟨2, 6, ()⟩
    let moves : List (RecorderMove ℕ Unit) :=
      [.record a 0, .flush, .record b 1, .wrote 0 true, .setEnabled false, .record a 2]
    (recorded true moves).Perm ([a] ++ [] ++ [].flatten ++ [b]) ∧
      ((∀ i, .wrote i false ∉ moves) → ([] : List (HistoryEntry ℕ Unit)) = []) ∧
      (∀ e, e ∈ (HistoryTables.empty.put a).primary ↔
        e ∈ (HistoryTables.empty : HistoryTables ℕ Unit).primary ∨ e ∈ [a]) ∧
      [b].length < flushMaxEntries + 0 := by
  intro a b moves
  have hrun : moves.foldlM Recorder.next (new .empty true) =
      some ⟨false, [b], some 1, HistoryTables.empty.put a, 0, [], [a], []⟩ := rfl
  exact recorder_accounts hrun (by decide) fun _ _ _ he' => absurd he' (KeyedMap.mem_empty _)

/-! ### The hook among the others -/

section Hook

variable {τ ε : Type} (describe : CoreError ε → Text) (id : Uuid) (now : ℤ) (clock : ℕ)
  (action : ActionInfo) (ctx : ActionContext)

/-- The recorder as a middleware, in a program that has it in its state. -/
def middleware : ActionMiddleware (τ × Recorder Uuid ActionRecord) ε ActionOutcome where
  before s := (s, .ok ())
  after outcome s :=
    if s.2.enabled then (s.1, s.2.push (historyEntry describe id now action ctx outcome) clock)
    else s

/-- A dispatch through the recorder makes one entry, of the outcome that the caller gets, after all
that happens further inside; also if the action panics or a middleware further inside refuses it. -/
theorem dispatch_middleware
    (ms : List (ActionMiddleware (τ × Recorder Uuid ActionRecord) ε ActionOutcome))
    (execute : τ × Recorder Uuid ActionRecord →
      (τ × Recorder Uuid ActionRecord) × Ended ε ActionOutcome)
    (s : τ × Recorder Uuid ActionRecord) :
    dispatch (middleware describe id now clock action ctx :: ms) execute s =
      ((middleware describe id now clock action ctx).after (dispatch ms execute s).2
        (dispatch ms execute s).1, (dispatch ms execute s).2) :=
  dispatch_cons rfl ms execute

end Hook

end Recorder

end Orchid.Action
