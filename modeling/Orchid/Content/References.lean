import Orchid.Content.Ingest

/-!
# The counts of managed files

An ingest raises the count of every chunk whose row it writes and lowers none. The counts stay right
as long as no manifest is replaced and no ingest fails after it has written a row.
-/

namespace Orchid.Content

open Lib

variable {H P : Type} [DecidableEq H] {hashOf : Bytes → H} {s s' : Store H} {t t' : Task H}
  {o : Outcome H} {key : H} {written : Bool} {cs : List (Choice H)}

/-! ### One `put` -/

/-- The count of a chunk has gone up by one, where it can. -/
def Raised (s s' : Store H) (key : H) : Prop :=
  ∀ h, s'.count h = if h = key then min (s.count h + 1) (2 ^ 64 - 1) else s.count h

lemma val_saturatingSucc_eq (n : U64) : (saturatingSucc n).val = min (n.val + 1) (2 ^ 64 - 1) := by
  by_cases h : n.val + 1 < 2 ^ 64
  · rw [val_saturatingSucc h]
    omega
  · rw [saturatingSucc, U64.succ?, dif_neg h]
    have := n.isLt
    simp only [Option.getD_none]
    omega

lemma raised_bump {info : ChunkRefInfo} (hrow : s.rows key = some info) (now : Instant) :
    Raised s (s.setRow key (some (info.bump now))) key := by
  intro h
  rw [count_setRow]
  split_ifs with hk
  · subst hk
    simp [Store.count, hrow, ChunkRefInfo.bump, val_saturatingSucc_eq]
  · rfl

lemma raised_new (hrow : s.rows key = none) (size : ℕ) (now now' : Instant) :
    Raised s (s.setRow key (some ⟨size, 1, now, now'⟩)) key := by
  intro h
  rw [count_setRow]
  split_ifs with hk
  · subst hk
    simp [Store.count, hrow]
  · rfl

lemma rows_createTmp (s : Store H) (key : H) : (s.createTmp key).1.rows = s.rows := by
  unfold Store.createTmp
  split <;> rfl

/-- What a `put` does to the counts: it raises the one of its chunk if it writes the row. -/
structure PutEnds (key : H) (s s' : Store H) (o : Outcome H) (written : Bool) : Prop where
  outcome : ∃ r hindered, o = .put key r hindered ∧ (r = .ok () → written = true)
  raised : written = true → Raised s s' key
  same : written = false → s'.count = s.count

lemma PutEnds.of_count {s₁ : Store H} (h : PutEnds key s₁ s' o written)
    (hcount : s₁.count = s.count) : PutEnds key s s' o written where
  outcome := h.outcome
  raised hw := by
    unfold Raised
    rw [← hcount]
    exact h.raised hw
  same hw := (h.same hw).trans hcount

lemma runTask_cons {c : Choice H} {r : Store H × Outcome H × Bool}
    (h : runTask hashOf s t (c :: cs) = some r) :
    (∃ s' o, t.step hashOf c s = (s', .finished o) ∧ r = (s', o, writesRow c s t)) ∨
    ∃ s' t' r', t.step hashOf c s = (s', .running t') ∧ runTask hashOf s' t' cs = some r' ∧
      r = (r'.1, r'.2.1, writesRow c s t || r'.2.2) := by
  rw [runTask] at h
  split at h
  · next s' o hstep =>
    cases h
    exact .inl ⟨s', o, hstep, rfl⟩
  · next s' t' hstep =>
    obtain ⟨r', hrun, rfl⟩ := Option.map_eq_some_iff.mp h
    exact .inr ⟨s', t', r', hstep, hrun, rfl⟩

/-- The `put` of the chunk has yet to write its row. -/
def Task.Unwritten (key : H) : Task H → Prop
  | .probe k _ _ | .clone k _ _ | .makeDir k _ _ | .create k _ _ | .write k _ _ _ _ | .commit k _ _ => k = key
  | _ => False

/-- What a step of a `put` that has yet to write its row has done. -/
def PutAfter (key : H) (s : Store H) (written : Bool) :
    Store H × Progress (Task H) (Outcome H) → Prop
  | (s', .finished o) => PutEnds key s s' o written
  | (s', .running t') =>
    t'.Unwritten key ∧ s'.count = s.count ∧ written = false ∨
    t' = .rename key ∧ Raised s s' key ∧ written = true ∨
    t' = .discard key ∧ s'.count = s.count ∧ written = false

lemma putEnds_fail (hcount : s'.count = s.count) {e : CryptoError H} {hindered : Bool} :
    PutEnds key s s' (.put key (.error e) hindered) false where
  outcome := ⟨.error e, hindered, rfl, fun h => by cases h⟩
  raised h := by cases h
  same _ := hcount

/-- A cloner writes no row. -/
lemma putAfter_clone (c : Choice H) (bytes : Bytes) (now : Instant) :
    PutAfter key s false ((Task.clone key bytes now).step hashOf c s) := by
  have hcount := funext (count_of_rows (rows_createTmp s key))
  rcases hc : c.cloned with _ | _ | _
  · simp only [Task.step, hc]
    exact .inl ⟨rfl, rfl, rfl⟩
  · simp only [Task.step, hc]
    refine .inl ⟨rfl, ?_, rfl⟩
    split_ifs
    · exact hcount
    · rfl
  · simp only [Task.step, hc]
    split_ifs
    · exact .inl ⟨rfl, rfl, rfl⟩
    · exact .inl ⟨rfl, hcount, rfl⟩

lemma putAfter_step {c : Choice H} (ht : t.Unwritten key) :
    PutAfter key s (writesRow c s t) (t.step hashOf c s) := by
  by_cases hf : c.fault = true
  · cases t with
    | probe k bytes now =>
      obtain rfl : k = key := ht
      have hw : writesRow c s (.probe k bytes now) = false := by simp [writesRow, hf]
      rw [hw]
      cases hrow : s.rows k with
      | none =>
        simp only [Task.step, hf, hrow, if_true]
        exact putEnds_fail rfl
      | some info =>
        simp only [Task.step, hf, hrow, if_true]
        refine putEnds_fail ?_
        split_ifs <;> rfl
    | clone k bytes now =>
      obtain rfl : k = key := ht
      exact putAfter_clone c bytes now
    | makeDir k bytes now =>
      obtain rfl : k = key := ht
      simp only [Task.step, hf, if_true]
      exact putEnds_fail rfl
    | create k bytes now =>
      obtain rfl : k = key := ht
      simp only [Task.step, hf, if_true]
      exact putEnds_fail rfl
    | write k bytes now file off =>
      obtain rfl : k = key := ht
      simp only [Task.step, hf, if_true]
      exact putEnds_fail rfl
    | commit k bytes now =>
      obtain rfl : k = key := ht
      simp only [Task.step, hf, if_true]
      exact .inr (.inr ⟨rfl, rfl, by simp [writesRow, hf]⟩)
    | _ => exact ht.elim
  · cases t with
    | probe k bytes now =>
      obtain rfl : k = key := ht
      cases hrow : s.rows k with
      | none =>
        have hw : writesRow c s (.probe k bytes now) = false := by simp [writesRow, hrow]
        simp only [Task.step, hrow, if_neg hf, hw]
        exact .inl ⟨rfl, rfl, rfl⟩
      | some info =>
        have hw : writesRow c s (.probe k bytes now) = true := by simp [writesRow, hrow, hf]
        simp only [Task.step, hrow, if_neg hf, hw]
        exact ⟨⟨_, _, rfl, fun _ => rfl⟩, fun _ => raised_bump hrow now, fun h => by cases h⟩
    | clone k bytes now =>
      obtain rfl : k = key := ht
      exact putAfter_clone c bytes now
    | makeDir k bytes now =>
      obtain rfl : k = key := ht
      simp only [Task.step, if_neg hf]
      exact .inl ⟨rfl, rfl, rfl⟩
    | create k bytes now =>
      obtain rfl : k = key := ht
      simp only [Task.step, if_neg hf]
      exact .inl ⟨rfl, funext (count_of_rows (rows_createTmp s k)), rfl⟩
    | write k bytes now file off =>
      obtain rfl : k = key := ht
      simp only [Task.step, if_neg hf]
      split_ifs
      · exact .inl ⟨rfl, rfl, rfl⟩
      · exact .inl ⟨rfl, rfl, rfl⟩
    | commit k bytes now =>
      obtain rfl : k = key := ht
      have hw : writesRow c s (.commit k bytes now) = true := by simp [writesRow, hf]
      cases hrow : s.rows k with
      | none =>
        simp only [Task.step, if_neg hf, hrow, hw]
        exact .inr (.inl ⟨rfl, raised_new hrow _ _ _, rfl⟩)
      | some info =>
        simp only [Task.step, if_neg hf, hrow, hw]
        exact .inr (.inl ⟨rfl, raised_bump hrow now, rfl⟩)
    | _ => exact ht.elim

/-- The rename after the row is written changes no row. -/
lemma runTask_rename (h : runTask hashOf s (.rename key) cs = some (s', o, written)) :
    s'.count = s.count ∧ written = false ∧ ∃ r hindered, o = .put key r hindered := by
  cases cs with
  | nil => cases h
  | cons c cs =>
    simp only [runTask, Task.step] at h
    by_cases hf : c.fault = true
    · simp only [hf, if_true] at h
      cases h
      exact ⟨rfl, rfl, _, _, rfl⟩
    · cases htmp : s.tmp key with
      | none =>
        simp only [hf, htmp] at h
        cases h
        exact ⟨rfl, rfl, _, _, rfl⟩
      | some file =>
        simp only [hf, htmp] at h
        cases h
        exact ⟨rfl, rfl, _, _, rfl⟩

lemma runTask_discard (h : runTask hashOf s (.discard key) cs = some (s', o, written)) :
    PutEnds key s s' o written := by
  cases cs with
  | nil => cases h
  | cons c cs =>
    simp only [runTask, Task.step] at h
    cases h
    refine putEnds_fail ?_
    split_ifs <;> rfl

omit [DecidableEq H] in
lemma unwritten_enter (bytes : Bytes) (now : Instant) :
    (Call.enter hashOf (.put bytes now)).Unwritten (hashOf bytes) := rfl

lemma runTask_put (ht : t.Unwritten key)
    (h : runTask hashOf s t cs = some (s', o, written)) : PutEnds key s s' o written := by
  induction cs generalizing s t written with
  | nil => cases h
  | cons c cs ih =>
    have hafter : PutAfter key s (writesRow c s t) (t.step hashOf c s) := putAfter_step ht
    rcases runTask_cons h with ⟨s₁, o₁, hstep, heq⟩ | ⟨s₁, t₁, r, hstep, hrun, heq⟩
    · cases heq
      rw [hstep] at hafter
      exact hafter
    · cases heq
      rw [hstep] at hafter
      rcases hafter with ⟨ht₁, hcount, hw⟩ | ⟨rfl, hraised, hw⟩ | ⟨rfl, hcount, hw⟩
      · rw [hw, Bool.false_or]
        exact (ih ht₁ hrun).of_count hcount
      · obtain ⟨hcount, -, result, hindered, hout⟩ := runTask_rename hrun
        rw [hw, Bool.true_or]
        refine ⟨⟨result, hindered, hout, fun _ => rfl⟩, fun _ h => ?_, fun h => by cases h⟩
        rw [hcount]
        exact hraised h
      · rw [hw, Bool.false_or]
        exact (runTask_discard hrun).of_count hcount

/-! ### The pieces of a file -/

lemma count_raised {hs : List H} (hraised : Raised s s' key)
    (hlt : ∀ k, s.count k + (key :: hs).count k < 2 ^ 64) (k : H) :
    s'.count k + hs.count k = s.count k + (key :: hs).count k := by
  have := hlt k
  rw [hraised k, List.count_cons] at *
  by_cases hk : k = key
  · subst hk
    simp only [beq_self_eq_true, if_true] at *
    omega
  · have hne : (key == k) = false := by simp [Ne.symm hk]
    simp [hk, hne]

/-- What storing the pieces of a file does to the counts. -/
lemma storePieces_spec {pieces : List (Piece H)} {r : Except (CryptoError H) (List Bytes)}
    {hs : List H} (h : storePieces hashOf s pieces = some (s', r, hs))
    (hlt : ∀ k, s.count k + hs.count k < 2 ^ 64) :
    (∀ k, s'.count k = s.count k + hs.count k) ∧
      ∀ chunks, r = .ok chunks → hs = chunks.map hashOf := by
  induction pieces generalizing s r hs with
  | nil =>
    cases h
    refine ⟨fun _ => rfl, fun chunks hr => ?_⟩
    cases hr
    rfl
  | cons piece pieces ih =>
    cases piece with
    | readError =>
      cases h
      exact ⟨fun _ => rfl, fun chunks hr => by cases hr⟩
    | chunk bytes now choices =>
      rw [storePieces] at h
      cases hrun : runTask hashOf s (Call.enter hashOf (.put bytes now)) choices with
      | none => simp [hrun] at h
      | some p =>
        obtain ⟨s₁, o, written⟩ := p
        have hput := runTask_put (unwritten_enter bytes now) hrun
        obtain ⟨result, hindered, rfl, hok⟩ := hput.outcome
        cases result with
        | error e =>
          simp only [hrun] at h
          cases h
          refine ⟨fun k => ?_, fun chunks hr => by cases hr⟩
          cases written with
          | true =>
            have hcount : s'.count k + ([] : List H).count k = s.count k + [hashOf bytes].count k :=
              count_raised (hput.raised rfl) hlt k
            simpa using hcount
          | false =>
            rw [hput.same rfl]
            rfl
        | ok u =>
          obtain rfl := hok rfl
          simp only [hrun, if_true] at h
          obtain ⟨r', hrest, heq⟩ := Option.map_eq_some_iff.mp h
          obtain ⟨s₂, r₂, hs₂⟩ := r'
          cases heq
          have hcount : ∀ k, s₁.count k + hs₂.count k = s.count k + (hashOf bytes :: hs₂).count k :=
            count_raised (hput.raised rfl) hlt
          obtain ⟨ih₁, ih₂⟩ := ih hrest fun k => by
            rw [hcount k]
            exact hlt k
          refine ⟨fun k => (ih₁ k).trans (hcount k), fun chunks hr => ?_⟩
          cases r₂ with
          | error e => cases hr
          | ok chunks' =>
            cases hr
            rw [ih₂ chunks' rfl]
            rfl

omit [DecidableEq H] in
lemma map_hash_chunkRefs (offset : ℕ) (chunks : List Bytes) :
    (chunkRefs hashOf offset chunks).map ChunkRef.hash = chunks.map hashOf := by
  induction chunks generalizing offset with
  | nil => rfl
  | cons bytes chunks ih => rw [chunkRefs, List.map_cons, ih, List.map_cons]

/-! ### Ingests -/

namespace Managed

variable [LinearOrder P] {m m' : Managed P H} {call : Ingest P H}

/-- What an ingest does to the counts and the manifests. -/
lemma ingest_spec {r : Except (FsError H) (FileManifest H)}
    (h : m.ingest hashOf call = some (m', r)) (hcountable : m.Countable hashOf call) :
    (∀ k, m'.store.count k = m.store.count k + (m.written hashOf call).count k) ∧
      match r with
      | .error _ => m'.manifests = m.manifests
      | .ok manifest => m'.manifests = m.manifests.insert (call.path, manifest) ∧
          ∀ k, (m.written hashOf call).count k = occurrences k manifest := by
  unfold ingest at h
  unfold Countable at hcountable
  unfold written at hcountable ⊢
  cases hrefused : call.refused with
  | some e =>
    simp only [hrefused] at h hcountable ⊢
    cases h
    exact ⟨fun _ => rfl, rfl⟩
  | none =>
    simp only [hrefused] at h hcountable ⊢
    obtain ⟨⟨store, result, hs⟩, hstored, heq⟩ := Option.map_eq_some_iff.mp h
    rw [hstored] at hcountable ⊢
    obtain ⟨hcount, hhs⟩ := storePieces_spec hstored hcountable
    cases result with
    | error e =>
      cases heq
      exact ⟨hcount, rfl⟩
    | ok chunks =>
      dsimp only at heq
      split_ifs at heq
      · cases heq
        exact ⟨hcount, rfl⟩
      · cases heq
        refine ⟨hcount, rfl, fun k => ?_⟩
        rw [occurrences, map_hash_chunkRefs, ← hhs chunks rfl]
        rfl

lemma references_insert (m : Managed P H) (path : P) (manifest : FileManifest H) (h : H) :
    (references ⟨m.store, m.manifests.insert (path, manifest)⟩ h) +
      ((m.manifests.toList.filter fun row => row.1 = path).map fun row => occurrences h row.2).sum =
    m.references h + occurrences h manifest :=
  KeyedMap.sum_insert m.manifests (path, manifest) fun row => occurrences h row.2

lemma chunks_eq_nil_iff (manifest : FileManifest H) :
    manifest.chunks = [] ↔ ∀ h, occurrences h manifest = 0 := by
  constructor
  · intro hnil h
    rw [occurrences, hnil]
    rfl
  · intro hzero
    have hnil : manifest.chunks.map ChunkRef.hash = [] :=
      List.eq_nil_iff_forall_not_mem.mpr fun h => List.count_eq_zero.mp (hzero h)
    exact List.map_eq_nil_iff.mp hnil

/-- From a balanced state, the counts are right after an ingest exactly if it is clean. -/
lemma Balanced.iff_clean {r : Except (FsError H) (FileManifest H)} (hm : m.Balanced)
    (h : m.ingest hashOf call = some (m', r)) (hcountable : m.Countable hashOf call) :
    m'.Balanced ↔ m.Clean hashOf call r := by
  obtain ⟨hcount, hresult⟩ := ingest_spec h hcountable
  cases r with
  | error e =>
    have hreferences : ∀ k, m'.references k = m.references k := fun k => by
      rw [references, references, hresult]
    unfold Balanced Clean
    constructor
    · intro hbalanced
      refine List.eq_nil_iff_forall_not_mem.mpr fun k hk => ?_
      have := List.count_pos_iff.mpr hk
      have := hbalanced k
      have := hm k
      rw [hcount k, hreferences k] at *
      omega
    · intro hnil k
      rw [hcount k, hreferences k, hnil, hm k]
      rfl
  | ok manifest =>
    obtain ⟨hmanifests, hwritten⟩ := hresult
    have hreferences : ∀ k, m'.references k +
        ((m.manifests.toList.filter fun row => row.1 = call.path).map
          fun row => occurrences k row.2).sum =
          m.references k + occurrences k manifest := fun k => by
      have := references_insert m call.path manifest k
      rw [← this, references, hmanifests]
      rfl
    have hiff : m'.Balanced ↔ ∀ k, ((m.manifests.toList.filter fun row => row.1 = call.path).map
        fun row => occurrences k row.2).sum = 0 := by
      refine forall_congr' fun k => ?_
      have := hreferences k
      rw [hcount k, hwritten k, hm k]
      omega
    rw [hiff]
    unfold Clean
    constructor
    · intro hzero old hold hpath
      refine (chunks_eq_nil_iff _).mpr fun k => ?_
      refine List.sum_eq_zero_iff_forall_eq_nat.mp (hzero k) _ (List.mem_map.mpr ⟨old, ?_, rfl⟩)
      exact List.mem_filter.mpr ⟨hold, decide_eq_true hpath⟩
    · intro hold k
      refine List.sum_eq_zero_iff_forall_eq_nat.mpr fun x hx => ?_
      obtain ⟨row, hrow, rfl⟩ := List.mem_map.mp hx
      obtain ⟨hmem, hpath⟩ := List.mem_filter.mp hrow
      exact (chunks_eq_nil_iff _).mp (hold row hmem (of_decide_eq_true hpath)) k

lemma Reached.balanced (h : Reached hashOf
    (fun m call r => m.Countable hashOf call ∧ m.Clean hashOf call r) m) : m.Balanced := by
  induction h with
  | empty => exact fun k => rfl
  | ingest _ hsafe hingest ih => exact (ih.iff_clean hingest hsafe.1).mpr hsafe.2

/-- A chunk of a stored manifest has a row, so that no collection removes its blob. -/
lemma Balanced.isSome_rows (hm : m.Balanced) {row : P × FileManifest H} (hrow : row ∈ m.manifests)
    {ref : ChunkRef H} (href : ref ∈ row.2.chunks) : (m.store.rows ref.hash).isSome := by
  have hpos : 0 < m.references ref.hash := by
    refine Nat.pos_of_ne_zero fun hzero => ?_
    have hnone := List.sum_eq_zero_iff_forall_eq_nat.mp hzero _ (List.mem_map_of_mem hrow)
    exact List.count_eq_zero.mp hnone (List.mem_map_of_mem href)
  rw [← hm ref.hash] at hpos
  cases hr : m.store.rows ref.hash with
  | none => simp [Store.count, hr] at hpos
  | some info => rfl

/-- In every run of clean ingests the count of every chunk is the number of its occurrences in the
stored manifests, so that their chunks keep their rows; and the first ingest that is not clean
leaves a count wrong. -/
theorem balanced_iff_clean (h : Reached hashOf
    (fun m call r => m.Countable hashOf call ∧ m.Clean hashOf call r) m) :
    m.Balanced ∧
      (∀ row ∈ m.manifests, ∀ ref ∈ row.2.chunks, (m.store.rows ref.hash).isSome) ∧
      ∀ call m' r, m.ingest hashOf call = some (m', r) → m.Countable hashOf call →
        (m'.Balanced ↔ m.Clean hashOf call r) :=
  ⟨h.balanced, fun _ hrow _ href => h.balanced.isSome_rows hrow href,
    fun _ _ _ hingest hcountable => h.balanced.iff_clean hingest hcountable⟩

/-- A file of one chunk. -/
def oneChunk : Ingest ℕ Bytes :=
  ⟨0, none, 1, [.chunk [7] 0 (List.replicate 8 {})], false⟩

/-- The same file ingested again, when its chunk has a row. -/
def again : Ingest ℕ Bytes := ⟨0, none, 1, [.chunk [7] 1 [{}]], false⟩

/-- A file in which the chunk comes twice, with another one between, which a cloner shares. -/
def repeating : Ingest ℕ Bytes :=
  ⟨1, none, 3, [.chunk [7] 2 [{}], .chunk [8] 2 [{}, { cloned := some true }, {}, {}],
    .chunk [7] 2 [{}]], false⟩

theorem balanced_iff_clean_repeating : ∃ (m₁ m₂ : Managed ℕ Bytes) (r₁ r₂ : _),
    ingest id ⟨.empty, .empty⟩ oneChunk = some (m₁, r₁) ∧
      ingest id m₁ repeating = some (m₂, r₂) ∧ m₂.Balanced ∧ m₂.store.count [7] = 3 := by
  have hempty : Reached id (fun m call r => Countable id m call ∧ Clean id m call r)
    (⟨.empty, .empty⟩ : Managed ℕ Bytes) := .empty
  obtain ⟨⟨m₁, r₁⟩, hone⟩ : ∃ x, ingest id ⟨.empty, .empty⟩ oneChunk = some x := ⟨_, rfl⟩
  have hcountable : Countable id ⟨.empty, .empty⟩ oneChunk := by
    intro k
    refine lt_of_le_of_lt (b := 0 + 1) ?_ (by decide)
    exact Nat.add_le_add le_rfl List.countP_le_length
  have hclean : Clean id ⟨.empty, .empty⟩ oneChunk r₁ := by
    cases hone
    intro old hold
    cases hold
  have hreached := hempty.ingest ⟨hcountable, hclean⟩ hone
  obtain ⟨hbalanced, -, hiff⟩ := balanced_iff_clean hreached
  obtain ⟨⟨m₂, r₂⟩, htwo⟩ : ∃ x, ingest id m₁ repeating = some x := by
    cases hone
    exact ⟨_, rfl⟩
  refine ⟨m₁, m₂, r₁, r₂, hone, htwo, (hiff _ _ _ htwo ?_).mpr ?_, ?_⟩
  · intro k
    rw [hbalanced k]
    cases hone
    refine lt_of_le_of_lt (b := 1 + 3) ?_ (by decide)
    exact Nat.add_le_add List.countP_le_length List.countP_le_length
  · cases hone
    cases htwo
    intro old hold hpath
    cases List.mem_singleton.mp hold
    cases hpath
  · cases hone
    cases htwo
    rfl

/-- Ingested twice, the chunk has two references and occurs once. -/
theorem not_balanced : ¬ ∀ m : Managed ℕ Bytes, Reached id (fun _ _ _ => True) m → m.Balanced := by
  intro h
  have hone : Reached id (fun _ _ _ => True) _ :=
    .ingest .empty trivial (show ingest id ⟨.empty, .empty⟩ oneChunk = some (_, _) from rfl)
  have hreached : Reached id (fun _ _ _ => True) _ :=
    .ingest hone trivial (show ingest id _ again = some (_, _) from rfl)
  have hcount : 2 = 1 := h _ hreached [7]
  omega

end Managed

end Orchid.Content
