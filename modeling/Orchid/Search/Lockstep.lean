import Orchid.Search.Engine

/-!
# Documents and vectors in lockstep

The vectors of an engine are the ones of its live documents in every run without a failure that
the engine ignores, and with crashes only when the snapshot is the one of the committed documents.
-/

namespace Orchid.Search

variable (m : Embedder)

/-! ### What belongs to a document -/

/-- The vector that belongs to a document, if one can be computed: its own, or that of its
content. -/
def vectorOf (d : IndexDocument) : Option Vector :=
  match ownEmbedding m d with
  | some v => some v
  | none => ((embeddable d).bind m.embed).filter fun v => v.length = m.dimensions

/-- The vectors that belong to documents. -/
def vectorsOf (docs : Docs) : Vectors := fun p => (docs p).bind (vectorOf m)

/-- While no call is between its two changes, every path with a vector is that of a live document
to which the vector belongs, and every live document to which one belongs has it. -/
def Lockstep (s : Engine) : Prop :=
  s.holder = none →
    (∀ p v, s.vectors p = some v → ∃ d, s.live p = some d ∧ vectorOf m d = some v) ∧
    ∀ p d v, s.live p = some d → vectorOf m d = some v → s.vectors p = some v

/-- Where the embedder is asked about a document, its answer is of its width. -/
def EmbedFits (d : IndexDocument) : Prop :=
  ownEmbedding m d = none → ∀ c v, embeddable d = some c → m.embed c = some v →
    v.length = m.dimensions

/-- The steps that keep documents and vectors together. -/
def Clean (s : Engine) : Step → Prop
  | .beginUpsert docs fails =>
    s.writer = true → addFails docs fails = false ∧ ∀ d ∈ docs, EmbedFits m d
  | .closingCommit ok => ok = false → vectorsOf m s.live = vectorsOf m s.committed
  | .crash => ∃ docs, s.saved = some docs ∧ vectorsOf m docs = vectorsOf m s.committed
  | _ => True

variable {m} {s s' : Engine}

lemma lockstep_iff :
    Lockstep m s ↔ (s.holder = none → s.vectors = vectorsOf m s.live) := by
  refine forall_congr' fun _ => ⟨fun h => funext fun p => Option.ext fun v => ⟨fun hv => ?_,
    fun hv => ?_⟩, fun h => ⟨fun p v hv => ?_, fun p d v hd hv => ?_⟩⟩
  · obtain ⟨d, hd, hv⟩ := h.1 p v hv
    exact Option.bind_eq_some_iff.mpr ⟨d, hd, hv⟩
  · obtain ⟨d, hd, hv⟩ := Option.bind_eq_some_iff.mp hv
    exact h.2 p d v hd hv
  · rw [h] at hv
    exact Option.bind_eq_some_iff.mp hv
  · rw [h]
    exact Option.bind_eq_some_iff.mpr ⟨d, hd, hv⟩

lemma length_ownEmbedding {d : IndexDocument} {v : Vector} (h : ownEmbedding m d = some v) :
    v.length = m.dimensions := by
  obtain ⟨-, hv⟩ := Option.filter_eq_some_iff.mp h
  exact of_decide_eq_true (Bool.and_eq_true_iff.mp hv).2

lemma length_vectorOf {d : IndexDocument} {v : Vector} (h : vectorOf m d = some v) :
    v.length = m.dimensions := by
  unfold vectorOf at h
  cases hown : ownEmbedding m d with
  | some w =>
    rw [hown] at h
    obtain rfl := Option.some.inj h
    exact length_ownEmbedding hown
  | none =>
    rw [hown] at h
    exact of_decide_eq_true (Option.filter_eq_some_iff.mp h).2

/-! ### Changes -/

lemma vectorsOf_put (docs : Docs) (d : IndexDocument) :
    vectorsOf m (docs.put d) = Function.update (vectorsOf m docs) d.path (vectorOf m d) := by
  funext p
  by_cases hp : p = d.path
  · subst hp
    rw [vectorsOf, Docs.put, Function.update_self, Function.update_self]
    rfl
  · rw [vectorsOf, Docs.put, Function.update_of_ne hp, Function.update_of_ne hp]
    rfl

lemma vectorsOf_delete (docs : Docs) (path : Text) :
    vectorsOf m (docs.delete path) = (vectorsOf m docs).remove path := by
  funext p
  by_cases hp : p = path
  · subst hp
    rw [vectorsOf, Docs.delete, Vectors.remove, Function.update_self, Function.update_self]
    rfl
  · rw [vectorsOf, Docs.delete, Vectors.remove, Function.update_of_ne hp,
      Function.update_of_ne hp]
    rfl

/-- A document whose vector can be stored gets the one that belongs to it. -/
lemma upsertAnnDoc_eq {d : IndexDocument} (h : EmbedFits m d) (vs : Vectors) :
    upsertAnnDoc m vs d = Function.update vs d.path (vectorOf m d) := by
  have hstore : ∀ v : Vector, v.length = m.dimensions →
      vs.upsert m.dimensions d.path v = .ok (Function.update vs d.path (some v)) :=
    fun v hv => if_neg (not_not.mpr hv)
  unfold upsertAnnDoc vectorOf
  cases hown : ownEmbedding m d with
  | some v =>
    dsimp only
    rw [hstore v (length_ownEmbedding hown)]
  | none =>
    dsimp only
    cases hcontent : embeddable d with
    | none => rfl
    | some c =>
      dsimp only
      rw [Option.bind_some]
      cases hembed : m.embed c with
      | none => rfl
      | some v =>
        have hv := h hown c v hcontent hembed
        dsimp only
        rw [hstore v hv, Option.filter_some, if_pos (decide_eq_true hv)]

lemma upsertAnn_vectorsOf {batch : List IndexDocument} (h : ∀ d ∈ batch, EmbedFits m d)
    (docs : Docs) :
    upsertAnn m (vectorsOf m docs) batch = vectorsOf m (batch.foldl Docs.put docs) := by
  induction batch generalizing docs with
  | nil => rfl
  | cons d batch ih =>
    rw [upsertAnn, List.foldl_cons, upsertAnnDoc_eq (h d List.mem_cons_self), ← vectorsOf_put]
    exact ih (fun d hd => h d (List.mem_cons_of_mem _ hd)) _

lemma addDocuments_of_not_fails {batch : List IndexDocument} {fails : Option ℕ}
    (h : addFails batch fails = false) (docs : Docs) :
    addDocuments docs batch fails = batch.foldl Docs.put docs := by
  cases fails with
  | none => rfl
  | some i =>
    have hi : ¬ i < batch.length := of_decide_eq_false h
    rw [addDocuments, List.getElem?_eq_none (not_lt.mp hi)]

/-! ### The invariant -/

/-- The vectors belong to the documents they were last brought in line with; these are the live
ones, or become so by what the holder of the lock has still to do. The snapshot, where it is
complete, gives the vectors of its documents. -/
structure Inv (m : Embedder) (s : Engine) : Prop where
  vectors : s.vectors = vectorsOf m s.indexed
  idle : s.holder = none → vectorsOf m s.indexed = vectorsOf m s.live
  busy : ∀ c, s.holder = some c → c.apply m (vectorsOf m s.indexed) = vectorsOf m s.live
  saved : ∀ docs, s.saved = some docs → loadAnnSnapshot m s.file = vectorsOf m docs
  closing : s.closing = true → s.writer = false ∧ s.holder = none

lemma Inv.lockstep (h : Inv m s) : Lockstep m s :=
  lockstep_iff.mpr fun hidle => h.vectors.trans (h.idle hidle)

lemma inv_new : Inv m (Engine.new m) where
  vectors := rfl
  idle _ := rfl
  busy c hc := absurd hc (Option.some_ne_none c).symm
  saved docs h := by
    obtain rfl := Option.some.inj h
    rfl
  closing h := absurd h Bool.false_ne_true

lemma holder_eq_none {s : Engine} (h : ¬ s.holder.isSome = true) : s.holder = none :=
  Option.not_isSome_iff_eq_none.mp h

/-- A snapshot that was written completely gives the vectors back. -/
lemma Inv.persist (h : Inv m s) {rows : List (Text × Vector)} (hrows : Enumerates rows s.vectors)
    {n : ℕ} {docs : Docs}
    (hsaved : (if (persistBytes m.dimensions rows).length ≤ n ∧ RowsFit m.dimensions rows then
      some s.indexed else none) = some docs) :
    loadAnnSnapshot m (some ((persistBytes m.dimensions rows).take n)) = vectorsOf m docs := by
  split_ifs at hsaved with hfit
  obtain rfl := Option.some.inj hsaved
  have hwidth : ∀ p v, s.vectors p = some v → v.length = m.dimensions := by
    intro p v hv
    rw [h.vectors] at hv
    obtain ⟨d, -, hd⟩ := Option.bind_eq_some_iff.mp hv
    exact length_vectorOf hd
  rw [List.take_of_length_le hfit.1, loadAnnSnapshot, load_persistBytes hrows hfit.2 hwidth]
  exact h.vectors

/-- A clean step keeps the invariant. -/
lemma Inv.step (h : Inv m s) {a : Step} (hpossible : a.Possible s) (hclean : Clean m s a)
    (hstep : step m s a = some s') : Inv m s' := by
  cases a with
  | beginUpsert docs fails =>
    simp only [Search.step] at hstep
    split_ifs at hstep with hholder hwriter hfails
    · obtain rfl := Option.some.inj hstep
      exact h
    · exact absurd ((hclean (Bool.eq_true_of_not_eq_false hwriter)).1.symm.trans hfails)
        Bool.false_ne_true
    · obtain rfl := Option.some.inj hstep
      obtain ⟨hadd, hfit⟩ := hclean (Bool.eq_true_of_not_eq_false hwriter)
      refine ⟨h.vectors, fun hc => absurd hc (Option.some_ne_none _), fun c hc => ?_, h.saved,
        fun hc => absurd (h.closing hc).1 hwriter⟩
      obtain rfl := Option.some.inj hc
      rw [Change.apply, h.idle (holder_eq_none hholder), addDocuments_of_not_fails hadd]
      exact upsertAnn_vectorsOf hfit s.live
  | beginRemove path =>
    simp only [Search.step] at hstep
    split_ifs at hstep with hholder hwriter
    · obtain rfl := Option.some.inj hstep
      exact h
    · obtain rfl := Option.some.inj hstep
      refine ⟨h.vectors, fun hc => absurd hc (Option.some_ne_none _), fun c hc => ?_, h.saved,
        fun hc => absurd (h.closing hc).1 hwriter⟩
      obtain rfl := Option.some.inj hc
      rw [Change.apply, h.idle (holder_eq_none hholder)]
      exact (vectorsOf_delete s.live path).symm
  | finish =>
    obtain ⟨c, hc, rfl⟩ := Option.map_eq_some_iff.mp hstep
    refine ⟨?_, fun _ => rfl, fun c hc => absurd hc (Option.some_ne_none c).symm, h.saved,
      fun hclosing => ⟨(h.closing hclosing).1, rfl⟩⟩
    exact (congrArg (c.apply m) h.vectors).trans (h.busy c hc)
  | commit ok =>
    simp only [Search.step] at hstep
    split_ifs at hstep with hholder hwriter hok
    · obtain rfl := Option.some.inj hstep
      exact ⟨h.vectors, h.idle, h.busy, h.saved, h.closing⟩
    · obtain rfl := Option.some.inj hstep
      exact ⟨h.vectors, h.idle, h.busy, h.saved, h.closing⟩
    · obtain rfl := Option.some.inj hstep
      exact h
  | reloadFails =>
    simp only [Search.step] at hstep
    split_ifs at hstep with hdue
    obtain rfl := Option.some.inj hstep
    exact ⟨h.vectors, h.idle, h.busy, h.saved, h.closing⟩
  | persist rows written =>
    simp only [Search.step] at hstep
    split_ifs at hstep with hdue
    cases written with
    | none =>
      obtain rfl := Option.some.inj hstep
      exact ⟨h.vectors, h.idle, h.busy, h.saved, h.closing⟩
    | some n =>
      obtain rfl := Option.some.inj hstep
      exact ⟨h.vectors, h.idle, h.busy, fun docs => h.persist hpossible, h.closing⟩
  | takeWriter =>
    simp only [Search.step] at hstep
    split_ifs at hstep with hholder hwriter
    · obtain rfl := Option.some.inj hstep
      exact ⟨h.vectors, h.idle, h.busy, h.saved, h.closing⟩
    · obtain rfl := Option.some.inj hstep
      exact ⟨h.vectors, h.idle, h.busy, h.saved, fun _ => ⟨rfl, holder_eq_none hholder⟩⟩
  | closingCommit ok =>
    simp only [Search.step] at hstep
    split_ifs at hstep with hclosing hok
    · obtain rfl := Option.some.inj hstep
      exact ⟨h.vectors, h.idle, h.busy, h.saved, fun hc => absurd hc Bool.false_ne_true⟩
    · obtain rfl := Option.some.inj hstep
      obtain ⟨-, hidle⟩ := h.closing (Bool.eq_true_of_not_eq_false hclosing)
      have hlost := hclean (Bool.eq_false_of_not_eq_true hok)
      exact ⟨h.vectors, fun _ => (h.idle hidle).trans hlost,
        fun c hc => absurd (hidle.symm.trans hc) (Option.some_ne_none c).symm, h.saved,
        fun hc => absurd hc Bool.false_ne_true⟩
  | crash =>
    obtain rfl := Option.some.inj hstep
    obtain ⟨docs, hdocs, hsame⟩ := hclean
    have hindexed : s.saved.getD (fun _ => none) = docs := by rw [hdocs, Option.getD_some]
    refine ⟨?_, fun _ => ?_, fun c hc => absurd hc (Option.some_ne_none c).symm, h.saved,
      fun hc => absurd hc Bool.false_ne_true⟩
    · exact (h.saved docs hdocs).trans (congrArg (vectorsOf m) hindexed.symm)
    · exact (congrArg (vectorsOf m) hindexed).trans hsame

lemma inv_of_clean (h : Reached m (Clean m) s) : Inv m s := by
  induction h with
  | new => exact inv_new
  | step _ hpossible hclean hstep ih => exact ih.step hpossible hclean hstep

/-- In every run of clean steps documents and vectors stay in lockstep. A crash with a complete
snapshot is clean exactly if they are so after it. -/
theorem lockstep_of_clean (h : Reached m (Clean m) s) :
    Lockstep m s ∧ ∀ docs s', s.saved = some docs → step m s .crash = some s' →
      (Lockstep m s' ↔ Clean m s .crash) := by
  have hinv := inv_of_clean h
  refine ⟨hinv.lockstep, fun docs s' hdocs hstep => ?_⟩
  obtain rfl := Option.some.inj hstep
  have hvectors : loadAnnSnapshot m s.file = vectorsOf m docs := hinv.saved docs hdocs
  rw [lockstep_iff]
  constructor
  · intro hlock
    exact ⟨docs, hdocs, hvectors.symm.trans (hlock rfl)⟩
  · rintro ⟨docs', hdocs', hsame⟩ -
    obtain rfl := Option.some.inj (hdocs.symm.trans hdocs')
    exact hvectors.trans hsame

/-- An embedder that knows one vector. -/
def constantEmbedder : Embedder := ⟨"constant".toList, 1, fun _ => some [0#32]⟩

/-- A document with a text. -/
def note : IndexDocument := ⟨"note".toList, some "text".toList, none, none⟩

theorem lockstep_of_clean_note :
    ∃ s s', step constantEmbedder s .crash = some s' ∧ Lockstep constantEmbedder s ∧
      (Lockstep constantEmbedder s' ↔ Clean constantEmbedder s .crash) := by
  have hfit : EmbedFits constantEmbedder note := fun _ _ _ _ hv => Option.some.inj hv ▸ rfl
  have hbegin : Clean constantEmbedder (Engine.new constantEmbedder) (.beginUpsert [note] none) :=
    fun _ => ⟨rfl, fun d hd => List.mem_singleton.mp hd ▸ hfit⟩
  have h₁ := Reached.step (a := .beginUpsert [note] none) .new trivial hbegin rfl
  have h₂ := h₁.step (a := .finish) trivial trivial rfl
  have h₃ := h₂.step (a := .commit true) trivial trivial rfl
  exact ⟨_, _, rfl, (lockstep_of_clean h₃).1, (lockstep_of_clean h₃).2 _ _ rfl rfl⟩

/-- A crash between the commit and the snapshot: the document is there and its vector is not. -/
theorem not_lockstep : ¬ ∀ (m : Embedder) (s : Engine), Reached m (fun _ _ => True) s →
    Lockstep m s := by
  intro h
  have h₁ : Reached constantEmbedder (fun _ _ => True) _ :=
    .step (a := .beginUpsert [note] none) .new trivial trivial rfl
  have h₂ := h₁.step (a := .finish) trivial trivial rfl
  have h₃ := h₂.step (a := .commit true) trivial trivial rfl
  have h₄ := h₃.step (a := .crash) trivial trivial rfl
  have hnone := (h _ _ h₄ rfl).2 note.path note [0#32] rfl rfl
  cases hnone

end Orchid.Search
