import Orchid.Document.Atomic

/-!
# Failing style commands

When styling a range fails before it has cut a run or patched a block.
-/

namespace Orchid.Document

open Lib
open String (utf8Len)

/-! ### Styling one paragraph -/

/-- The runs with one of them cut at a byte; nothing if the byte lies inside a character. -/
def cutRuns (runs : List Run) (i byte : ℕ) : Option (List Run) :=
  match runs[i]? with
  | none => some runs
  | some r =>
    if byte = 0 ∨ utf8Len r.text ≤ byte then some runs
    else (splitAtByte r.text byte).map fun (u, v) =>
      (runs.set i (r.withText u)).insertIdx (i + 1) (r.part v)

/-- A range of one paragraph that styling accepts, or refuses before it has changed anything. If
both runs are there, then cutting the last one does nothing or the first one can be cut after that
(or the last one cannot be cut); otherwise the paragraph has runs. -/
def StyleSafe (p : Paragraph) (start stop : Cursor) : Prop :=
  (start.runIdx = stop.runIdx ∧ start.byteOffset = stop.byteOffset) ∨
    if start.runIdx < p.ensured.runs.length ∧ stop.runIdx < p.ensured.runs.length then
      ∀ runs, cutRuns p.ensured.runs stop.runIdx stop.byteOffset = some runs →
        runs = p.runs ∨ (cutRuns runs start.runIdx start.byteOffset).isSome
    else p.runs ≠ []

section Styling

variable {p : Paragraph} {start stop : Cursor} {patch : RunStylePatch}

lemma run_splitRunAt_cut {i byte : ℕ} {r : Run} (hr : p.runs[i]? = some r)
    (hin : ¬ (byte = 0 ∨ utf8Len r.text ≤ byte)) :
    (splitRunAt i byte).run p = match cutRuns p.runs i byte with
      | none => .error .editOutOfBounds p
      | some runs => .ok (i + 1) (p.withRuns runs) := by
  obtain ⟨h0, hge⟩ := not_or.1 hin
  have hcut : cutRuns p.runs i byte = (splitAtByte r.text byte).map fun (u, v) =>
      (p.runs.set i (r.withText u)).insertIdx (i + 1) (r.part v) := by
    rw [cutRuns, hr]
    exact if_neg hin
  rw [hcut, splitRunAt, EStateM.run_bind, EStateM.run_get]
  simp only [hr, h0, hge, if_false]
  cases splitAtByte r.text byte <;> rfl

lemma cutRuns_eq_self {runs : List Run} {i byte : ℕ} {r : Run} (hr : runs[i]? = some r)
    (hin : byte = 0 ∨ utf8Len r.text ≤ byte) : cutRuns runs i byte = some runs := by
  rw [cutRuns, hr]
  exact if_pos hin

lemma runLen_eq {i : ℕ} {r : Run} (hr : p.runs[i]? = some r) : p.runLen i = utf8Len r.text := by
  simp [Paragraph.runLen, hr]

lemma run_splitRangeEnd_cut {i j byte : ℕ} (hj : j < p.runs.length) :
    match cutRuns p.runs j byte with
      | none => (splitRangeEnd i j byte).run p = .error .editOutOfBounds p
      | some runs => ∃ k, (splitRangeEnd i j byte).run p = .ok k (p.withRuns runs) := by
  have hr : p.runs[j]? = some p.runs[j] := List.getElem?_eq_getElem hj
  by_cases hin : byte = 0 ∨ utf8Len p.runs[j].text ≤ byte
  · rw [cutRuns_eq_self hr hin]
    have hnot : ¬ (0 < byte ∧ byte < p.runLen j) := by
      rw [runLen_eq hr]
      omega
    rw [splitRangeEnd, EStateM.run_bind, EStateM.run_get]
    dsimp only
    rw [if_neg hnot]
    split_ifs
    · exact ⟨_, rfl⟩
    · exact ⟨_, rfl⟩
  · have hsplit := run_splitRunAt_cut hr hin
    have hpos : 0 < byte ∧ byte < p.runLen j := by
      rw [runLen_eq hr]
      omega
    have hrun : (splitRangeEnd i j byte).run p =
        (do
          let _ ← splitRunAt j byte
          return j : Edit Paragraph ℕ).run p := by
      rw [splitRangeEnd, EStateM.run_bind, EStateM.run_get]
      dsimp only
      rw [if_pos hpos]
    rw [hrun, EStateM.run_bind, hsplit]
    cases cutRuns p.runs j byte with
    | none => rfl
    | some runs => exact ⟨_, rfl⟩

lemma run_splitRangeStart_cut {i byte k : ℕ} (hi : i < p.runs.length) :
    match cutRuns p.runs i byte with
      | none => (splitRangeStart i byte k).run p = .error .editOutOfBounds p
      | some runs => ∃ x, (splitRangeStart i byte k).run p = .ok x (p.withRuns runs) := by
  have hr : p.runs[i]? = some p.runs[i] := List.getElem?_eq_getElem hi
  by_cases hin : byte = 0 ∨ utf8Len p.runs[i].text ≤ byte
  · rw [cutRuns_eq_self hr hin]
    have hnot : ¬ (0 < byte ∧ byte < p.runLen i) := by
      rw [runLen_eq hr]
      omega
    rw [splitRangeStart, EStateM.run_bind, EStateM.run_get]
    dsimp only
    rw [if_neg hnot]
    split_ifs
    · exact ⟨_, rfl⟩
    · exact ⟨_, rfl⟩
  · have hsplit := run_splitRunAt_cut hr hin
    have hpos : 0 < byte ∧ byte < p.runLen i := by
      rw [runLen_eq hr]
      omega
    have hrun : (splitRangeStart i byte k).run p =
        (do
          let startRun ← splitRunAt i byte
          return (startRun, if k ≥ i then k + 1 else k) : Edit Paragraph (ℕ × ℕ)).run p := by
      rw [splitRangeStart, EStateM.run_bind, EStateM.run_get]
      dsimp only
      rw [if_pos hpos]
    rw [hrun, EStateM.run_bind, hsplit]
    cases cutRuns p.runs i byte with
    | none => rfl
    | some runs => exact ⟨_, rfl⟩

/-- A range whose runs are there is styled by cutting its end, then its start. -/
lemma run_applyStyle_inside {i b j e : ℕ} (hi : i < p.runs.length) (hj : j < p.runs.length) :
    (applyStyleToParagraphRange i b j e patch).run p =
      (do
        let endRun ← splitRangeEnd i j e
        let (startRun, endRun) ← splitRangeStart i b endRun
        patchRuns patch startRun endRun : Edit Paragraph Unit).run p := by
  rw [applyStyleToParagraphRange, EStateM.run_bind, EStateM.run_get]
  dsimp only
  rw [if_neg (by omega)]

lemma run_applyStyle_outside {i b j e : ℕ} (h : i ≥ p.runs.length ∨ j ≥ p.runs.length) :
    (applyStyleToParagraphRange i b j e patch).run p = .error .editOutOfBounds p := by
  rw [applyStyleToParagraphRange, EStateM.run_bind, EStateM.run_get]
  dsimp only
  rw [if_pos h]
  rfl

lemma withRuns_eq_self_iff {runs : List Run} : p.withRuns runs = p ↔ runs = p.runs := by
  refine ⟨fun h => congrArg Paragraph.runs h, ?_⟩
  rintro rfl
  rfl

lemma ensured_eq_iff : p.ensured = p ↔ p.runs ≠ [] := by
  constructor
  · intro h
    rw [← h]
    exact ensured_runs_ne_nil p
  · intro h
    simp [Paragraph.ensured, h]

lemma cutRuns_empty (i byte : ℕ) : cutRuns [{}] i byte = some [{}] := by
  cases i with
  | zero => exact cutRuns_eq_self rfl (.inr (Nat.zero_le _))
  | succ i => rfl

lemma length_le_cutRuns {runs runs' : List Run} {i byte : ℕ}
    (h : cutRuns runs i byte = some runs') : runs.length ≤ runs'.length := by
  rw [cutRuns] at h
  split at h
  · cases h
    rfl
  · split_ifs at h
    · cases h
      rfl
    · obtain ⟨x, -, rfl⟩ := Option.map_eq_some_iff.1 h
      refine le_trans ?_ (List.length_le_length_insertIdx)
      simp

/-- Styling one paragraph fails half done exactly if the range is not safe. -/
lemma atomic_onePara_iff :
    Atomic (applySetRunStyleOnePara start stop patch) p ↔ StyleSafe p start stop := by
  have hens : ∀ t, (applySetRunStyleOnePara start stop patch).run p = t ↔
      (if start.runIdx = stop.runIdx ∧ start.byteOffset = stop.byteOffset then
        patchCollapsed patch start.runIdx
      else applyStyleToParagraphRange start.runIdx start.byteOffset stop.runIdx stop.byteOffset
        patch).run p.ensured = t := by
    intro t
    rw [applySetRunStyleOnePara, EStateM.run_bind, run_ensureRun]
  rw [StyleSafe]
  by_cases hcollapsed : start.runIdx = stop.runIdx ∧ start.byteOffset = stop.byteOffset
  · refine iff_of_true ?_ (.inl hcollapsed)
    exact Atomic.of_ok ((hens _).2 (by rw [if_pos hcollapsed]; rfl))
  rw [or_iff_right hcollapsed]
  simp only [if_neg hcollapsed] at hens
  split_ifs with hin
  · have hrange (t : EStateM.Result Fault Paragraph Unit) := (hens t).trans
      (Eq.congr_left (run_applyStyle_inside hin.1 hin.2))
    have hend := @run_splitRangeEnd_cut _ start.runIdx _ stop.byteOffset hin.2
    cases hcut : cutRuns p.ensured.runs stop.runIdx stop.byteOffset with
    | none =>
      rw [hcut] at hend
      refine iff_of_true ?_ (by simp)
      have hsame : p.ensured = p := ensured_eq_iff.2 fun hnil => by
        have hempty : p.ensured.runs = [{}] := by simp [Paragraph.ensured, hnil, Paragraph.withRuns]
        rw [hempty, cutRuns_empty] at hcut
        cases hcut
      have hrun : (applySetRunStyleOnePara start stop patch).run p =
          .error .editOutOfBounds p.ensured := by
        rw [hrange, EStateM.run_bind, hend]
      intro e t herr
      rw [hrun] at herr
      cases herr
      exact ⟨hsame, Fault.noConfusion⟩
    | some runs =>
      rw [hcut] at hend
      obtain ⟨k, hend⟩ := hend
      have hlen : start.runIdx < (p.ensured.withRuns runs).runs.length :=
        hin.1.trans_le (length_le_cutRuns hcut)
      have hstart := @run_splitRangeStart_cut _ _ start.byteOffset k hlen
      have hruns : (p.ensured.withRuns runs).runs = runs := rfl
      rw [hruns] at hstart
      cases hcut' : cutRuns runs start.runIdx start.byteOffset with
      | none =>
        rw [hcut'] at hstart
        have hrun : (applySetRunStyleOnePara start stop patch).run p =
            .error .editOutOfBounds (p.ensured.withRuns runs) := by
          rw [hrange, EStateM.run_bind, hend]
          dsimp only
          rw [EStateM.run_bind, hstart]
        have hsame : p.ensured.withRuns runs = p ↔ runs = p.runs := by
          refine ⟨fun h => congrArg Paragraph.runs h, ?_⟩
          rintro rfl
          rw [Paragraph.ensured]
          split_ifs <;> rfl
        simp [Atomic, hrun, hsame, hcut']
      | some runs' =>
        rw [hcut'] at hstart
        obtain ⟨⟨i, j⟩, hstart⟩ := hstart
        obtain ⟨p', hpatch⟩ : ∃ p', (patchRuns patch i j).run
          ((p.ensured.withRuns runs).withRuns runs') = .ok () p' := ⟨_, rfl⟩
        have hrun : (applySetRunStyleOnePara start stop patch).run p = .ok () p' := by
          rw [hrange, EStateM.run_bind, hend]
          dsimp only
          rw [EStateM.run_bind, hstart]
          exact hpatch
        exact iff_of_true (Atomic.of_ok hrun) (by simp [hcut'])
  · have hrun : (applySetRunStyleOnePara start stop patch).run p =
        .error .editOutOfBounds p.ensured := by
      rw [hens]
      exact run_applyStyle_outside (by omega)
    simp [Atomic, hrun, ensured_eq_iff]

end Styling

/-! ### Styling a paragraph through its end -/

/-- The runs can be cut at a byte of one of them. -/
def CutsAt (p : Paragraph) (i byte : ℕ) : Prop :=
  i < p.ensured.runs.length ∧ (cutRuns p.ensured.runs i byte).isSome

/-- The first run that styling from a byte of a run on patches, if it cuts none. -/
def Paragraph.firstStyled (p : Paragraph) (i byte : ℕ) : ℕ :=
  if byte ≥ p.runLen i ∧ byte > 0 then i + 1 else i

/-- The last run that styling through the end of the paragraph patches: an empty one only if the
range starts there. -/
def Paragraph.lastStyled (p : Paragraph) (i : ℕ) : ℕ :=
  if p.runLen (p.runs.length - 1) = 0 ∧ p.runs.length - 1 > i then p.runs.length - 1 - 1
  else p.runs.length - 1

/-- Styling from a byte of a run through the end of the paragraph changes nothing: there are runs,
none is cut, and the patch leaves those it is applied to as they are. -/
structure LeftAlone (patch : RunStylePatch) (p : Paragraph) (i byte : ℕ) : Prop where
  runs_ne : p.runs ≠ []
  uncut : cutRuns p.runs i byte = some p.runs
  fixed : ∀ idx r, p.runs[idx]? = some r → p.firstStyled i byte ≤ idx → idx ≤ p.lastStyled i →
    patch.applyToRun r = r

section Through

variable {p q : Paragraph} {i j byte k : ℕ} {patch : RunStylePatch}

lemma mapIdx_eq_self_iff {α : Type} {f : ℕ → α → α} {l : List α} :
    l.mapIdx f = l ↔ ∀ i a, l[i]? = some a → f i a = a := by
  rw [List.ext_getElem?_iff]
  simp only [List.getElem?_mapIdx]
  constructor
  · intro h i a ha
    have hi := h i
    rw [ha] at hi
    exact Option.some.inj hi
  · intro h i
    cases ha : l[i]? with
    | none => rfl
    | some a => exact congrArg some (h i a ha)

lemma run_splitRangeEnd_uncut (h : ¬ (0 < byte ∧ byte < p.runLen j)) :
    (splitRangeEnd i j byte).run p = .ok (if byte = 0 ∧ j > i then j - 1 else j) p := by
  rw [splitRangeEnd, EStateM.run_bind, EStateM.run_get]
  dsimp only
  rw [if_neg h]
  split_ifs <;> rfl

lemma run_splitRangeStart_uncut (h : ¬ (0 < byte ∧ byte < p.runLen i)) :
    (splitRangeStart i byte k).run p = .ok (p.firstStyled i byte, k) p := by
  rw [splitRangeStart, EStateM.run_bind, EStateM.run_get, Paragraph.firstStyled]
  dsimp only
  rw [if_neg h]
  split_ifs <;> rfl

lemma length_cutRuns {runs : List Run} (hin : 0 < byte ∧ byte < p.runLen i)
    (h : cutRuns p.runs i byte = some runs) : runs.length = p.runs.length + 1 := by
  rw [cutRuns] at h
  cases hr : p.runs[i]? with
  | none => simp [Paragraph.runLen, hr] at hin
  | some r =>
    rw [runLen_eq hr] at hin
    simp only [hr] at h
    rw [if_neg (by omega)] at h
    obtain ⟨x, -, rfl⟩ := Option.map_eq_some_iff.1 h
    have hi : i < p.runs.length := (List.getElem?_eq_some_iff.1 hr).1
    rw [List.length_insertIdx, List.length_set, if_pos (by omega)]

lemma run_applyThrough (hi : i < q.runs.length) :
    match cutRuns q.runs i byte with
      | none => (applyStyleToParagraphRange i byte (q.runs.length - 1)
          (q.runLen (q.runs.length - 1)) patch).run q = .error .editOutOfBounds q
      | some runs => ∃ q', (applyStyleToParagraphRange i byte (q.runs.length - 1)
          (q.runLen (q.runs.length - 1)) patch).run q = .ok () q' ∧
        q'.runs.length = runs.length ∧ (q' = q ↔ runs = q.runs ∧ ∀ idx r, q.runs[idx]? = some r →
          q.firstStyled i byte ≤ idx → idx ≤ q.lastStyled i → patch.applyToRun r = r) := by
  have hend : (splitRangeEnd i (q.runs.length - 1) (q.runLen (q.runs.length - 1))).run q =
      .ok (q.lastStyled i) q := run_splitRangeEnd_uncut (by omega)
  rw [run_applyStyle_inside hi (by omega), EStateM.run_bind, hend]
  dsimp only
  rw [EStateM.run_bind]
  by_cases hin : 0 < byte ∧ byte < q.runLen i
  · have hstart := @run_splitRangeStart_cut q i byte (q.lastStyled i) hi
    cases hcut : cutRuns q.runs i byte with
    | none =>
      rw [hcut] at hstart
      dsimp only
      rw [hstart]
    | some runs =>
      rw [hcut] at hstart
      obtain ⟨⟨first, last⟩, hstart⟩ := hstart
      have hlen := length_cutRuns hin hcut
      dsimp only
      rw [hstart]
      refine ⟨_, rfl, List.length_mapIdx, iff_of_false (fun h => ?_) fun h => ?_⟩
      · have hback := congrArg (fun p : Paragraph => p.runs.length) h
        have hmap : ((q.withRuns runs).runs.mapIdx fun idx run =>
          if first ≤ idx ∧ idx ≤ last then patch.applyToRun run else run).length =
            runs.length := List.length_mapIdx
        have hback' : _ = q.runs.length := hmap.symm.trans hback
        omega
      · have hback := congrArg List.length h.1
        omega
  · obtain ⟨r, hr⟩ : ∃ r, q.runs[i]? = some r := ⟨_, List.getElem?_eq_getElem hi⟩
    have hin' : byte = 0 ∨ utf8Len r.text ≤ byte := by
      rw [runLen_eq hr] at hin
      omega
    rw [cutRuns_eq_self hr hin', run_splitRangeStart_uncut hin]
    refine ⟨_, rfl, List.length_mapIdx, ?_⟩
    have heq : (q.withRuns (q.runs.mapIdx fun idx run =>
        if q.firstStyled i byte ≤ idx ∧ idx ≤ q.lastStyled i then patch.applyToRun run
        else run)) = q ↔ ∀ idx r, q.runs[idx]? = some r →
          q.firstStyled i byte ≤ idx → idx ≤ q.lastStyled i → patch.applyToRun r = r := by
      rw [withRuns_eq_self_iff, mapIdx_eq_self_iff]
      refine forall_congr' fun idx => forall_congr' fun r => imp_congr_right fun _ => ?_
      by_cases hspan : q.firstStyled i byte ≤ idx ∧ idx ≤ q.lastStyled i
      · simp [hspan]
      · rw [if_neg hspan]
        exact iff_of_true rfl fun h h' => absurd ⟨h, h'⟩ hspan
    exact heq.trans (by simp)

lemma run_applyThrough_refused (h : ¬ CutsAt p i byte) :
    (applyStyleToParagraphRange i byte (p.ensured.runs.length - 1)
      (p.ensured.runLen (p.ensured.runs.length - 1)) patch).run p.ensured =
        .error .editOutOfBounds p.ensured := by
  by_cases hi : i < p.ensured.runs.length
  · have hrun := @run_applyThrough p.ensured i byte patch hi
    cases hcut : cutRuns p.ensured.runs i byte with
    | none =>
      rw [hcut] at hrun
      exact hrun
    | some runs => exact absurd ⟨hi, by simp [hcut]⟩ h
  · exact run_applyStyle_outside (.inl (by omega))

lemma run_applyThrough_ok (h : CutsAt p i byte) :
    ∃ p', (applyStyleToParagraphRange i byte (p.ensured.runs.length - 1)
      (p.ensured.runLen (p.ensured.runs.length - 1)) patch).run p.ensured = .ok () p' ∧
        (p' = p ↔ LeftAlone patch p i byte) := by
  obtain ⟨hi, hcut⟩ := h
  obtain ⟨runs, hcut⟩ := Option.isSome_iff_exists.1 hcut
  have hrun := @run_applyThrough p.ensured i byte patch hi
  rw [hcut] at hrun
  obtain ⟨p', hrun, hlen, hsame⟩ := hrun
  refine ⟨p', hrun, ?_⟩
  by_cases hne : p.runs = []
  · refine iff_of_false (fun h => ?_) fun h => h.runs_ne hne
    have hle := length_le_cutRuns hcut
    rw [h, hne, List.length_nil] at hlen
    omega
  · have hens : p.ensured = p := ensured_eq_iff.2 hne
    rw [hens] at hsame hcut
    rw [hsame]
    refine ⟨fun ⟨hruns, hfixed⟩ => ⟨hne, hruns ▸ hcut, hfixed⟩, fun h => ⟨?_, h.fixed⟩⟩
    exact Option.some.inj (hcut.symm.trans h.uncut)

end Through

/-! ### Styling over several blocks -/

/-- An edit of one block after another, where each block's edit depends on its index. -/
def runBlocks (x : ℕ → Edit Block Unit) : ℕ → List Block → EStateM.Result Fault (List Block) Unit
  | _, [] => .ok () []
  | k, block :: blocks =>
    match (x k).run block with
    | .error e block' => .error e (block' :: blocks)
    | .ok _ block' =>
      match runBlocks x (k + 1) blocks with
      | .error e blocks' => .error e (block' :: blocks')
      | .ok _ blocks' => .ok () (block' :: blocks')

section Blocks

variable {d : Document} {x : ℕ → Edit Block Unit} {start stop : Cursor} {patch : RunStylePatch}
  {bi : ℕ} {p : Paragraph}

lemma run_blockAt {pre post : List Block} {block : Block} (y : Edit Block Unit) :
    ((blockAt pre.length).borrow .editOutOfBounds y).run
        { d with blocks := pre ++ block :: post } =
      match y.run block with
      | .error e block' => .error e { d with blocks := pre ++ block' :: post }
      | .ok a block' => .ok a { d with blocks := pre ++ block' :: post } := by
  have hget : (blockAt pre.length).get? { d with blocks := pre ++ block :: post } = some block := by
    simp [blockAt, Focus.comp, blocksOf, Focus.field, Focus.index]
  have hset (block' : Block) :
      (blockAt pre.length).set block' { d with blocks := pre ++ block :: post } =
        { d with blocks := pre ++ block' :: post } := by
    simp [blockAt, Focus.comp, blocksOf, Focus.field, Focus.index]
  rw [Focus.run_borrow, hget]
  dsimp only
  cases y.run block <;> simp only [hset]

lemma run_forM_blocks (blocks pre post : List Block) :
    ((List.range' pre.length blocks.length).forM fun bi =>
        (blockAt bi).borrow .editOutOfBounds (x bi)).run
        { d with blocks := pre ++ (blocks ++ post) } =
      match runBlocks x pre.length blocks with
      | .error e blocks' => .error e { d with blocks := pre ++ (blocks' ++ post) }
      | .ok _ blocks' => .ok () { d with blocks := pre ++ (blocks' ++ post) } := by
  induction blocks generalizing pre with
  | nil => rfl
  | cons block blocks ih =>
    have hfirst := @run_blockAt d pre (blocks ++ post) block (x pre.length)
    rw [List.length_cons, List.range'_succ, List.cons_append, runBlocks]
    cases hx : (x pre.length).run block with
    | error e block' =>
      rw [hx] at hfirst
      have hcons : ((pre.length :: List.range' (pre.length + 1) blocks.length).forM fun bi =>
          (blockAt bi).borrow Fault.editOutOfBounds (x bi)) =
        ((blockAt pre.length).borrow .editOutOfBounds (x pre.length) >>= fun _ =>
          (List.range' (pre.length + 1) blocks.length).forM fun bi =>
            (blockAt bi).borrow .editOutOfBounds (x bi)) := rfl
      rw [hcons, EStateM.run_bind, hfirst]
      rfl
    | ok a block' =>
      rw [hx] at hfirst
      have hrest := ih (pre ++ [block'])
      rw [List.length_append, List.length_singleton, List.append_assoc,
        List.singleton_append] at hrest
      have hcons := @run_forM_cons ℕ (fun bi => (blockAt bi).borrow .editOutOfBounds (x bi))
        pre.length (List.range' (pre.length + 1) blocks.length) _ _ hfirst
      rw [hcons, hrest]
      cases runBlocks x (pre.length + 1) blocks <;> simp

/-- A loop over blocks is atomic if those it leaves when it fails are the ones it found. -/
lemma atomic_forM_blocks_iff (blocks pre post : List Block) :
    Atomic ((List.range' pre.length blocks.length).forM fun bi =>
        (blockAt bi).borrow .editOutOfBounds (x bi))
        { d with blocks := pre ++ (blocks ++ post) } ↔
      ∀ e blocks', runBlocks x pre.length blocks = .error e blocks' →
        blocks' = blocks ∧ e ≠ .panic := by
  rw [Atomic, run_forM_blocks]
  cases runBlocks x pre.length blocks with
  | ok a blocks' => simp
  | error e blocks' => simp

lemma run_inBlock_through (hbi : bi ≠ stop.blockIdx) :
    (applySetRunStyleInBlock start stop patch bi).run p =
      (applyStyleToParagraphRange (if bi = start.blockIdx then start.runIdx else 0)
        (if bi = start.blockIdx then start.byteOffset else 0) (p.ensured.runs.length - 1)
        (p.ensured.runLen (p.ensured.runs.length - 1)) patch).run p.ensured := by
  rw [applySetRunStyleInBlock, EStateM.run_bind, run_ensureRun]
  simp only [EStateM.run_bind, EStateM.run_get, hbi, if_false, false_and, and_false]
  split_ifs <;> rfl

lemma run_inBlock_end (hlt : start.blockIdx < stop.blockIdx) :
    (applySetRunStyleInBlock start stop patch stop.blockIdx).run p =
      (applyStyleToParagraphRange 0 0 stop.runIdx stop.byteOffset patch).run p.ensured := by
  rw [applySetRunStyleInBlock, EStateM.run_bind, run_ensureRun]
  simp only [EStateM.run_bind, EStateM.run_get, hlt.ne', if_true, if_false, false_and]

lemma run_styleBlock (bi : ℕ) :
    (styleBlock start stop patch bi).run (.paragraph p) =
      match (applySetRunStyleInBlock start stop patch bi).run p with
      | .error e p' => .error e (.paragraph p')
      | .ok _ p' => .ok () (.paragraph p') := by
  have hget : asParagraph.get? (.paragraph p) = some p := rfl
  rw [styleBlock]
  simp only [EStateM.run_bind, EStateM.run_get, Focus.run_borrow, hget]
  cases (applySetRunStyleInBlock start stop patch bi).run p <;> rfl

/-- What styling a block in front of the last one does: the range's start is refused, or all goes
through. -/
lemma styleBlock_through (block : Block) (hbi : bi ≠ stop.blockIdx) {i byte : ℕ}
    (hi : (if bi = start.blockIdx then start.runIdx else 0) = i)
    (hbyte : (if bi = start.blockIdx then start.byteOffset else 0) = byte) :
    (∃ p, block = .paragraph p ∧ ¬ CutsAt p i byte ∧
      (styleBlock start stop patch bi).run block =
        .error .editOutOfBounds (.paragraph p.ensured)) ∨
    ((∀ p, block = .paragraph p → CutsAt p i byte) ∧ ∃ block',
      (styleBlock start stop patch bi).run block = .ok () block' ∧
        (block' = block ↔ ∀ p, block = .paragraph p → LeftAlone patch p i byte)) := by
  subst hi hbyte
  cases block with
  | paragraph p =>
    by_cases hcuts : CutsAt p (if bi = start.blockIdx then start.runIdx else 0)
        (if bi = start.blockIdx then start.byteOffset else 0)
    · obtain ⟨p', hrun, hsame⟩ := @run_applyThrough_ok p _ _ patch hcuts
      refine .inr ⟨by simpa using hcuts, .paragraph p', ?_, by simpa using hsame⟩
      rw [run_styleBlock, run_inBlock_through hbi, hrun]
    · refine .inl ⟨p, rfl, hcuts, ?_⟩
      rw [run_styleBlock, run_inBlock_through hbi, run_applyThrough_refused hcuts]
  | table t => exact .inr ⟨by simp, .table t, rfl, by simp⟩
  | image i => exact .inr ⟨by simp, .image i, rfl, by simp⟩

/-- What styling the last block does. -/
lemma styleBlock_end (block : Block) (hlt : start.blockIdx < stop.blockIdx) :
    (∃ p, block = .paragraph p ∧ ¬ CutsAt p stop.runIdx stop.byteOffset ∧
      (styleBlock start stop patch stop.blockIdx).run block =
        .error .editOutOfBounds (.paragraph p.ensured)) ∨
    ((∀ p, block = .paragraph p → CutsAt p stop.runIdx stop.byteOffset) ∧
      ∃ block', (styleBlock start stop patch stop.blockIdx).run block = .ok () block') := by
  cases block with
  | paragraph p =>
    have hpos : 0 < p.ensured.runs.length := List.length_pos_of_ne_nil (ensured_runs_ne_nil p)
    rw [run_styleBlock, run_inBlock_end hlt]
    by_cases hj : stop.runIdx < p.ensured.runs.length
    · rw [run_applyStyle_inside hpos hj, EStateM.run_bind]
      have hend := @run_splitRangeEnd_cut p.ensured 0 stop.runIdx stop.byteOffset hj
      cases hcut : cutRuns p.ensured.runs stop.runIdx stop.byteOffset with
      | none =>
        rw [hcut] at hend
        rw [hend]
        exact .inl ⟨p, rfl, fun h => by simp [CutsAt, hcut] at h, rfl⟩
      | some runs =>
        rw [hcut] at hend
        obtain ⟨k, hend⟩ := hend
        have hcuts : CutsAt p stop.runIdx stop.byteOffset := ⟨hj, by simp [hcut]⟩
        refine .inr ⟨by simpa using hcuts, ?_⟩
        rw [hend]
        dsimp only
        rw [EStateM.run_bind, run_splitRangeStart_uncut (by omega)]
        exact ⟨_, rfl⟩
    · refine .inl ⟨p, rfl, fun h => hj h.1, ?_⟩
      rw [run_applyStyle_outside (.inr (by omega))]
  | table t => exact .inr ⟨by simp, .table t, rfl⟩
  | image i => exact .inr ⟨by simp, .image i, rfl⟩

/-- The blocks between the ends are never refused. -/
lemma runBlocks_mids {last : Block} (mids : List Block) {k : ℕ} (hlt : start.blockIdx < k)
    (hlen : k + mids.length = stop.blockIdx) :
    ∃ mids' : List Block, mids'.length = mids.length ∧
      (mids' = mids ↔ ∀ p, Block.paragraph p ∈ mids → LeftAlone patch p 0 0) ∧
      runBlocks (styleBlock start stop patch) k (mids ++ [last]) =
        match (styleBlock start stop patch stop.blockIdx).run last with
        | .error e last' => .error e (mids' ++ [last'])
        | .ok _ last' => .ok () (mids' ++ [last']) := by
  induction mids generalizing k with
  | nil =>
    rw [List.length_nil, Nat.add_zero] at hlen
    refine ⟨[], rfl, by simp, ?_⟩
    rw [List.nil_append, runBlocks, hlen]
    cases (styleBlock start stop patch stop.blockIdx).run last <;> rfl
  | cons block mids ih =>
    rw [List.length_cons] at hlen
    obtain ⟨mids', hlen', hsame', hrun'⟩ := @ih (k + 1) (by omega) (by omega)
    have hk : k ≠ stop.blockIdx := by omega
    have hk' : k ≠ start.blockIdx := by omega
    rcases @styleBlock_through start stop patch k block hk 0 0 (if_neg hk') (if_neg hk') with
      ⟨p, -, hrefused, -⟩ | ⟨-, block', hrun, hsame⟩
    · have hpos : 0 < p.ensured.runs.length := List.length_pos_of_ne_nil (ensured_runs_ne_nil p)
      refine absurd ⟨hpos, ?_⟩ hrefused
      rw [cutRuns_eq_self (List.getElem?_eq_getElem hpos) (.inl rfl)]
      rfl
    · refine ⟨block' :: mids', by simp [hlen'], ?_, ?_⟩
      · rw [List.cons.injEq, hsame, hsame']
        simp only [List.mem_cons]
        constructor
        · rintro ⟨h, h'⟩ p (hp | hp)
          · exact h p hp.symm
          · exact h' p hp
        · exact fun h => ⟨fun p hp => h p (.inl hp.symm), fun p hp => h p (.inr hp)⟩
      · rw [List.cons_append, runBlocks, hrun]
        dsimp only
        rw [hrun']
        cases (styleBlock start stop patch stop.blockIdx).run last <;> rfl

end Blocks

/-- The selection over several paragraphs is refused at once: an end is in a table cell, or the
blocks are not there. -/
def RefusedAtOnce (d : Document) (start stop : Cursor) : Prop :=
  start.cell.isSome ∨ stop.cell.isSome ∨ start.blockIdx > stop.blockIdx ∨
    stop.blockIdx ≥ d.blocks.length

/-- Styling over several blocks fails before anything is changed, if it fails. -/
structure SafeAcross (d : Document) (start stop : Cursor) (patch : RunStylePatch) : Prop where
  /-- A first paragraph that refuses the range's start has runs. -/
  first : ∀ p, d.blocks[start.blockIdx]? = some (.paragraph p) →
    ¬ CutsAt p start.runIdx start.byteOffset → p.runs ≠ []
  /-- If only the last paragraph refuses the range, it has runs and the others are left alone. -/
  last : (∀ p, d.blocks[start.blockIdx]? = some (.paragraph p) →
      CutsAt p start.runIdx start.byteOffset) →
    ∀ q, d.blocks[stop.blockIdx]? = some (.paragraph q) →
      ¬ CutsAt q stop.runIdx stop.byteOffset → q.runs ≠ [] ∧
        (∀ p, d.blocks[start.blockIdx]? = some (.paragraph p) →
          LeftAlone patch p start.runIdx start.byteOffset) ∧
        ∀ k p, start.blockIdx < k → k < stop.blockIdx → d.blocks[k]? = some (.paragraph p) →
          LeftAlone patch p 0 0

section Across

variable {d : Document} {start stop : Cursor} {patch : RunStylePatch}

lemma atomic_of_refused {range : Selection} {patch : RunStylePatch} {start stop : Cursor}
    (hnorm : range.normalized = (start, stop)) (hdiff : ¬ start.sameParagraph stop)
    (h : RefusedAtOnce d start stop) : Atomic (applySetRunStyle range patch) d := by
  rw [applySetRunStyle, hnorm]
  dsimp only
  rw [if_neg hdiff]
  refine .ite (fun _ => .throw) fun hcells => .read (.ite (fun _ => .throw) fun hbounds => ?_)
  rcases h with h | h | h
  · exact absurd (.inl h) hcells
  · exact absurd (.inr h) hcells
  · exact absurd h hbounds

lemma exists_between {α : Type} {l : List α} {i j : ℕ} (hij : i < j) (hj : j < l.length) :
    ∃ before a mids b behind, l = before ++ a :: (mids ++ b :: behind) ∧ before.length = i ∧
      before.length + 1 + mids.length = j := by
  have hi : i < l.length := hij.trans hj
  refine ⟨l.take i, l[i], (l.drop (i + 1)).take (j - i - 1), l[j], l.drop (j + 1), ?_, ?_, ?_⟩
  · have hdrop : (l.drop (i + 1)).drop (j - i - 1) = l[j] :: l.drop (j + 1) := by
      rw [List.drop_drop, show i + 1 + (j - i - 1) = j by omega, List.drop_eq_getElem_cons hj]
    rw [← hdrop, List.take_append_drop, ← List.drop_eq_getElem_cons hi, List.take_append_drop]
  · simp
    omega
  · simp
    omega

lemma atomic_across_iff {range : Selection} (hnorm : range.normalized = (start, stop))
    (hdiff : ¬ start.sameParagraph stop) :
    Atomic (applySetRunStyle range patch) d ↔
      RefusedAtOnce d start stop ∨ SafeAcross d start stop patch := by
  by_cases hrefused : RefusedAtOnce d start stop
  · exact iff_of_true (atomic_of_refused hnorm hdiff hrefused) (.inl hrefused)
  rw [or_iff_right hrefused]
  simp only [RefusedAtOnce, not_or, Option.not_isSome_iff_eq_none] at hrefused
  obtain ⟨hstart, hstop, hle, hbound⟩ := hrefused
  have hne : start.blockIdx ≠ stop.blockIdx := fun h =>
    hdiff (by simp [Cursor.sameParagraph, h, hstart, hstop])
  have hlt : start.blockIdx < stop.blockIdx := by omega
  obtain ⟨before, a, mids, b, behind, hblocks, hfirst, hlast⟩ :=
    @exists_between _ d.blocks _ _ hlt (by omega)
  have ha : d.blocks[start.blockIdx]? = some a := by
    rw [hblocks, ← hfirst]
    simp
  have hb : d.blocks[stop.blockIdx]? = some b := by
    rw [hblocks, ← hlast, List.getElem?_append_right (by omega),
      show before.length + 1 + mids.length - before.length = mids.length + 1 by omega,
      List.getElem?_cons_succ]
    simp
  have hmids : (∀ p, Block.paragraph p ∈ mids → LeftAlone patch p 0 0) ↔
      ∀ k p, start.blockIdx < k → k < stop.blockIdx → d.blocks[k]? = some (.paragraph p) →
        LeftAlone patch p 0 0 := by
    have hget (k : ℕ) (hk : k < mids.length) : d.blocks[before.length + 1 + k]? = mids[k]? := by
      rw [hblocks, List.getElem?_append_right (by omega),
        show before.length + 1 + k - before.length = k + 1 by omega, List.getElem?_cons_succ,
        List.getElem?_append_left hk]
    constructor
    · intro h k p hk hk' hp
      obtain ⟨n, rfl⟩ : ∃ n, k = before.length + 1 + n := ⟨k - (before.length + 1), by omega⟩
      rw [hget n (by omega)] at hp
      exact h p (List.mem_of_getElem? hp)
    · intro h p hp
      obtain ⟨n, hn⟩ := List.mem_iff_getElem?.1 hp
      have hlen := (List.getElem?_eq_some_iff.1 hn).1
      exact h (before.length + 1 + n) p (by omega) (by omega) ((hget n hlen).trans hn)
  have hloop : Atomic (applySetRunStyle range patch) d ↔ ∀ e blocks',
      runBlocks (styleBlock start stop patch) start.blockIdx (a :: (mids ++ [b])) =
        .error e blocks' → blocks' = a :: (mids ++ [b]) ∧ e ≠ .panic := by
    have hd : d = { d with blocks := before ++ ((a :: (mids ++ [b])) ++ behind) } := by
      have hassoc : before ++ ((a :: (mids ++ [b])) ++ behind) = d.blocks := by
        rw [hblocks]
        simp
      rw [hassoc]
    have hcount : stop.blockIdx + 1 - start.blockIdx = (a :: (mids ++ [b])).length := by
      simp
      omega
    rw [← hfirst, ← @atomic_forM_blocks_iff d _ _ before behind, ← hd]
    rw [applySetRunStyle, hnorm]
    dsimp only
    rw [if_neg hdiff, if_neg (by simp [hstart, hstop])]
    have hread {f : Document → Edit Document Unit} :
        Atomic (get >>= f) d ↔ Atomic (f d) d := Iff.rfl
    rw [hread, if_neg (by omega), hcount, ← hfirst]
    exact Iff.rfl
  rw [hloop]
  obtain ⟨mids', -, hsameMids, hrunMids⟩ := @runBlocks_mids start stop patch b mids
    (start.blockIdx + 1) (by omega) (by omega)
  rw [runBlocks]
  rcases @styleBlock_through start stop patch start.blockIdx a hne _ _ (if_pos rfl) (if_pos rfl)
    with ⟨p, rfl, hcuts, hrun⟩ | ⟨hcuts, a', hrun, hsame⟩
  · have hsafe : SafeAcross d start stop patch ↔ p.runs ≠ [] := by
      refine ⟨fun h => h.first p ha hcuts, fun h => ⟨fun p' hp' _ => ?_, fun hall => ?_⟩⟩
      · cases ha.symm.trans hp'
        exact h
      · exact absurd (hall p ha) hcuts
    rw [hrun, hsafe, ← ensured_eq_iff]
    simp
  · have hall : ∀ p, d.blocks[start.blockIdx]? = some (.paragraph p) →
        CutsAt p start.runIdx start.byteOffset := fun p hp =>
      hcuts p (Option.some.inj (ha.symm.trans hp))
    rw [hrun]
    dsimp only
    rw [hrunMids]
    rcases @styleBlock_end start stop patch b hlt with ⟨q, rfl, hcuts', hrun'⟩ | ⟨hcuts', b', hrun'⟩
    · have hsafe : SafeAcross d start stop patch ↔
          a' = a ∧ mids' = mids ∧ q.ensured = q := by
        rw [hsame, hsameMids, hmids, ensured_eq_iff]
        constructor
        · intro h
          obtain ⟨hq, hp, hk⟩ := h.last hall q hb hcuts'
          exact ⟨fun p hpa => hp p (ha.trans (congrArg some hpa)), hk, hq⟩
        · rintro ⟨hp, hk, hq⟩
          refine ⟨fun p hp' hno => absurd (hall p hp') hno, fun _ q' hq' _ => ?_⟩
          cases hb.symm.trans hq'
          exact ⟨hq, fun p hp' => hp p (Option.some.inj (ha.symm.trans hp')), hk⟩
      rw [hrun', hsafe]
      simp
    · rw [hrun']
      refine iff_of_true (by simp) ⟨fun p hp hno => absurd (hall p hp) hno, fun _ q hq hno => ?_⟩
      exact absurd (hcuts' q (Option.some.inj (hb.symm.trans hq))) hno

end Across

end Orchid.Document
