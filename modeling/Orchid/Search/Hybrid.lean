import Mathlib.Algebra.BigOperators.Group.List.Basic
import Mathlib.Data.List.Dedup
import Orchid.Lib.Ranking
import Orchid.Search.Query

/-!
# Hybrid search

Text hits and vector hits fused by the sums of their reciprocal ranks. The sums are kept in a hash
map, so paths of one sum come in the order of its iteration.
-/

namespace Orchid.Search

open Lib

/-! ### Fusion -/

/-- `RRF_K` -/
def rrfK : ℚ := 60

/-- What a path gets for its rank in a list. -/
def rankShare (rank : ℕ) : ℚ := 1 / (rrfK + rank + 1)

/-- The paths of a list with what they get for their ranks. -/
def shares (paths : List Text) : List (Text × ℚ) := paths.zipIdx.map fun x => (x.1, rankShare x.2)

/-- A share added to the entry of its path. -/
def addShare (scores : Text → Option ℚ) (s : Text × ℚ) : Text → Option ℚ :=
  Function.update scores s.1 (some ((scores s.1).getD 0 + s.2))

/-- The map `scores` of `fuse_rrf` -/
def fusedScores (bm25 : List SearchHit) (annHits : List (Text × ℚ)) : Text → Option ℚ :=
  (shares (annHits.map Prod.fst)).foldl addShare
    ((shares (bm25.map SearchHit.path)).foldl addShare fun _ => none)

/-- The entries of a map, in some order. -/
structure Iterates (rows : List (Text × ℚ)) (scores : Text → Option ℚ) : Prop where
  nodup : (rows.map Prod.fst).Nodup
  mem_iff : ∀ p x, (p, x) ∈ rows ↔ scores p = some x

/-- The map `bm25_by_path`, in which the last hit of a path stays. -/
def bm25ByPath (bm25 : List SearchHit) (path : Text) : Option SearchHit :=
  bm25.reverse.find? fun h => h.path = path

/-- The last component of a path. -/
def lastComponent (path : Text) : Text := path.rtakeWhile fun ch => ch ≠ '/' && ch ≠ '\\'

/-- `orchid_format::MIME_TYPE` -/
def orchidMime : Text := "application/vnd.orchid".toList

/-- The hit for a path among the best. -/
def fusedHit (bm25 : List SearchHit) (path : Text) (score : ℚ) : SearchHit :=
  match bm25ByPath bm25 path with
  | some h => { h with score }
  | none =>
    { path
      name := lastComponent path
      extension := some "orchid".toList
      size := 0
      modified := 0
      mime := some orchidMime
      kind := .file
      score
      snippet := none }

/-- `fuse_rrf`, where `iterate` gives the entries of `scores` in the order of its iteration. -/
def fuseRrf (bm25 : List SearchHit) (annHits : List (Text × ℚ)) (limit : ℕ)
    (iterate : (Text → Option ℚ) → List (Text × ℚ)) : SearchResults where
  hits := ((ranking Prod.snd (iterate (fusedScores bm25 annHits))).take limit).map fun r =>
    fusedHit bm25 r.1 r.2
  totalEstimated := 0

/-! ### What it should find -/

variable (bm25 : List SearchHit) (annHits : List (Text × ℚ)) (limit : ℕ)

/-- All paths that were found, once each. -/
def foundPaths : List Text := (bm25.map SearchHit.path ++ annHits.map Prod.fst).dedup

/-- The sum of the reciprocal ranks of a path. -/
def rrfSum (path : Text) : ℚ :=
  (((shares (bm25.map SearchHit.path) ++ shares (annHits.map Prod.fst)).filter
    fun s => s.1 = path).map Prod.snd).sum

/-- The paths with the highest sums, in non-increasing order, each once. -/
structure Best (hits : List SearchHit) : Prop where
  length : hits.length = min limit (foundPaths bm25 annHits).length
  scores : ∀ h ∈ hits, h.path ∈ foundPaths bm25 annHits ∧ h.score = rrfSum bm25 annHits h.path
  falling : hits.Pairwise fun h h' => h'.score ≤ h.score
  highest : ∀ p ∈ foundPaths bm25 annHits, p ∉ hits.map SearchHit.path →
    ∀ h ∈ hits, rrfSum bm25 annHits p ≤ h.score
  nodup : (hits.map SearchHit.path).Nodup

/-- In every order of the map's iteration the best paths are returned, in the same list, with the
data of the committed documents. -/
def Fused (c : CommittedDocs) : Prop :=
  ∀ iterate, Iterates (iterate (fusedScores bm25 annHits)) (fusedScores bm25 annHits) →
    Best bm25 annHits limit (fuseRrf bm25 annHits limit iterate).hits ∧
      (∀ iterate', Iterates (iterate' (fusedScores bm25 annHits)) (fusedScores bm25 annHits) →
        fuseRrf bm25 annHits limit iterate' = fuseRrf bm25 annHits limit iterate) ∧
      ∀ h ∈ (fuseRrf bm25 annHits limit iterate).hits, ∃ d ∈ c.docs, h.Describes d

/-- The data that a hit of the path gets are those of a document: the ones of the text hit, or the
ones that are made up where there is none. -/
def Known (c : CommittedDocs) (path : Text) : Prop :=
  match bm25ByPath bm25 path with
  | some h => ∃ d ∈ c.docs, h.Describes d
  | none => ∃ d ∈ c.docs, d.path = path ∧ d.name = lastComponent path ∧
      d.extension = some "orchid".toList ∧ d.size = 0 ∧ d.modified = 0 ∧ d.mime = some orchidMime ∧
      d.kind = .file

/-! ### The scores -/

variable {bm25} {annHits} {limit} {c : CommittedDocs} {path : Text} {rows : List (Text × ℚ)}

/-- The entry of a path is the sum of its shares. -/
lemma foldl_addShare (l : List (Text × ℚ)) (scores : Text → Option ℚ) (path : Text) :
    l.foldl addShare scores path =
      if path ∈ l.map Prod.fst then
        some ((scores path).getD 0 + ((l.filter fun s => s.1 = path).map Prod.snd).sum)
      else scores path := by
  induction l generalizing scores with
  | nil => simp
  | cons s l ih =>
    rw [List.foldl_cons, ih]
    by_cases hs : s.1 = path
    · subst hs
      simp only [addShare, Function.update_self, List.map_cons, List.mem_cons, true_or, if_true,
        Option.getD_some, List.filter_cons, decide_true, List.sum_cons, add_assoc]
      split_ifs with hmem
      · rfl
      · have hempty : (l.filter fun t => t.1 = s.1) = [] := by
          rw [List.filter_eq_nil_iff]
          intro t ht heq
          exact hmem (List.mem_map.mpr ⟨t, ht, of_decide_eq_true heq⟩)
        rw [hempty, List.map_nil, List.sum_nil, add_zero]
    · have hne : path ≠ s.1 := fun h => hs h.symm
      simp only [addShare, Function.update_of_ne hne, List.map_cons, List.mem_cons, hne, false_or,
        List.filter_cons, hs, decide_false, Bool.false_eq_true, if_false]

lemma map_fst_shares (paths : List Text) : (shares paths).map Prod.fst = paths := by
  rw [shares, List.map_map]
  exact List.zipIdx_map_fst 0 paths

lemma fusedScores_eq (path : Text) : fusedScores bm25 annHits path =
    if path ∈ foundPaths bm25 annHits then some (rrfSum bm25 annHits path) else none := by
  have hfold : fusedScores bm25 annHits =
      (shares (bm25.map SearchHit.path) ++ shares (annHits.map Prod.fst)).foldl addShare
        fun _ => none := (List.foldl_append).symm
  rw [hfold, foldl_addShare, List.map_append, map_fst_shares, map_fst_shares]
  simp only [foundPaths, List.mem_dedup, Option.getD_none, zero_add, rrfSum]

/-- The found paths with their sums. -/
def foundRows (bm25 : List SearchHit) (annHits : List (Text × ℚ)) : List (Text × ℚ) :=
  (foundPaths bm25 annHits).map fun p => (p, rrfSum bm25 annHits p)

lemma mem_foundRows {p : Text} {x : ℚ} : (p, x) ∈ foundRows bm25 annHits ↔
    p ∈ foundPaths bm25 annHits ∧ x = rrfSum bm25 annHits p := by
  simp only [foundRows, List.mem_map, Prod.mk.injEq]
  constructor
  · rintro ⟨q, hq, rfl, rfl⟩
    exact ⟨hq, rfl⟩
  · rintro ⟨hp, rfl⟩
    exact ⟨p, hp, rfl, rfl⟩

lemma map_fst_foundRows : (foundRows bm25 annHits).map Prod.fst = foundPaths bm25 annHits := by
  rw [foundRows, List.map_map]
  exact List.map_id _

lemma nodup_foundRows : (foundRows bm25 annHits).Nodup := by
  refine List.Nodup.of_map Prod.fst ?_
  rw [map_fst_foundRows]
  exact List.nodup_dedup _

/-- The orders of the map's iteration are those of the found paths with their sums. -/
lemma iterates_iff : Iterates rows (fusedScores bm25 annHits) ↔
    rows.Perm (foundRows bm25 annHits) := by
  have hentry : ∀ p x, fusedScores bm25 annHits p = some x ↔ (p, x) ∈ foundRows bm25 annHits := by
    intro p x
    rw [fusedScores_eq, mem_foundRows]
    split_ifs with hp
    · simp [hp, eq_comm]
    · simp [hp]
  constructor
  · intro h
    refine (List.perm_ext_iff_of_nodup (List.Nodup.of_map _ h.nodup) nodup_foundRows).mpr ?_
    rintro ⟨p, x⟩
    rw [h.mem_iff, hentry]
  · intro h
    refine ⟨?_, fun p x => ?_⟩
    · rw [(h.map Prod.fst).nodup_iff, map_fst_foundRows]
      exact List.nodup_dedup _
    · rw [h.mem_iff, hentry]

/-! ### The hits -/

lemma fusedHit_path (bm25 : List SearchHit) (path : Text) (score : ℚ) :
    (fusedHit bm25 path score).path = path := by
  unfold fusedHit
  cases hfind : bm25ByPath bm25 path with
  | none => rfl
  | some h =>
    have hpath := List.find?_some hfind
    exact of_decide_eq_true hpath

lemma fusedHit_score (bm25 : List SearchHit) (path : Text) (score : ℚ) :
    (fusedHit bm25 path score).score = score := by
  unfold fusedHit
  cases bm25ByPath bm25 path with
  | none => rfl
  | some h => rfl

/-- A hit carries the data of a document exactly if that of its path does. -/
lemma known_iff (score : ℚ) :
    Known bm25 c path ↔ ∃ d ∈ c.docs, (fusedHit bm25 path score).Describes d := by
  unfold Known fusedHit
  cases bm25ByPath bm25 path with
  | some h => exact Iff.rfl
  | none => simp only [SearchHit.Describes, eq_comm]

lemma countAbove_foundRows (r : Text × ℚ) (hr : r ∈ foundRows bm25 annHits) :
    countAbove Prod.snd (foundRows bm25 annHits) r =
      countAbove (rrfSum bm25 annHits) (foundPaths bm25 annHits) r.1 := by
  obtain ⟨p, x⟩ := r
  obtain ⟨-, rfl⟩ := mem_foundRows.mp hr
  rw [countAbove, countAbove, foundRows, List.countP_map]
  rfl

lemma noTies_foundRows : NoTies Prod.snd (foundRows bm25 annHits) limit ↔
    NoTies (rrfSum bm25 annHits) (foundPaths bm25 annHits) limit := by
  constructor
  · intro h p hp q hq hne heq
    have hp' := mem_foundRows.mpr ⟨hp, rfl⟩
    have hq' := mem_foundRows.mpr ⟨hq, rfl⟩
    have hcount := h _ hp' _ hq' (fun hpair => hne (congrArg Prod.fst hpair)) heq
    rwa [countAbove_foundRows _ hp'] at hcount
  · rintro h ⟨p, x⟩ hp ⟨q, y⟩ hq hne heq
    rw [countAbove_foundRows _ hp]
    obtain ⟨hp', rfl⟩ := mem_foundRows.mp hp
    obtain ⟨hq', rfl⟩ := mem_foundRows.mp hq
    refine h p hp' q hq' (fun hpq => hne ?_) heq
    rw [hpq]

/-- In every order of the map's iteration the hits are the best paths. -/
lemma best_fuseRrf {iterate : (Text → Option ℚ) → List (Text × ℚ)}
    (h : Iterates (iterate (fusedScores bm25 annHits)) (fusedScores bm25 annHits)) :
    Best bm25 annHits limit (fuseRrf bm25 annHits limit iterate).hits := by
  have hperm : (ranking Prod.snd (iterate (fusedScores bm25 annHits))).Perm
      (foundRows bm25 annHits) := (ranking_perm _).trans (iterates_iff.mp h)
  have hfalling := pairwise_ranking (f := Prod.snd) (iterate (fusedScores bm25 annHits))
  have hpaths : ((ranking Prod.snd (iterate (fusedScores bm25 annHits))).map Prod.fst).Nodup := by
    rw [(hperm.map Prod.fst).nodup_iff, map_fst_foundRows]
    exact List.nodup_dedup _
  simp only [fuseRrf]
  generalize ranking Prod.snd (iterate (fusedScores bm25 annHits)) = ranked at hperm hfalling hpaths
  refine ⟨?_, fun hit hhit => ?_, ?_, fun p hp hnot hit hhit => ?_, ?_⟩
  · rw [List.length_map, List.length_take, hperm.length_eq, foundRows, List.length_map]
  · obtain ⟨⟨p, x⟩, hr, rfl⟩ := List.mem_map.mp hhit
    obtain ⟨hp, rfl⟩ := mem_foundRows.mp (hperm.mem_iff.mp (List.mem_of_mem_take hr))
    rw [fusedHit_path, fusedHit_score]
    exact ⟨hp, rfl⟩
  · rw [List.pairwise_map]
    simp only [fusedHit_score]
    exact hfalling.sublist (List.take_sublist _ _)
  · obtain ⟨r, hr, rfl⟩ := List.mem_map.mp hhit
    rw [fusedHit_score]
    have hmem : (p, rrfSum bm25 annHits p) ∈ ranked :=
      hperm.mem_iff.mpr (mem_foundRows.mpr ⟨hp, rfl⟩)
    rw [← List.take_append_drop limit ranked, List.mem_append] at hmem
    rcases hmem with hmem | hmem
    · refine absurd (List.mem_map.mpr ⟨_, List.mem_map_of_mem hmem, ?_⟩) hnot
      exact fusedHit_path _ _ _
    · rw [← List.take_append_drop limit ranked, List.pairwise_append] at hfalling
      exact hfalling.2.2 r hr _ hmem
  · have hmap : ((ranked.take limit).map fun r => fusedHit bm25 r.1 r.2).map SearchHit.path =
        (ranked.map Prod.fst).take limit := by
      rw [List.map_map, List.map_take]
      exact congrArg _ (List.map_congr_left fun r _ => fusedHit_path _ _ _)
    rw [hmap]
    exact hpaths.sublist (List.take_sublist _ _)

/-- Two hits lists are one exactly if their paths and scores are. -/
lemma map_fusedHit_injective :
    Function.Injective fun rows : List (Text × ℚ) => rows.map fun r => fusedHit bm25 r.1 r.2 := by
  refine List.map_injective_iff.mpr fun r r' h => Prod.ext ?_ ?_
  · have hpath := congrArg SearchHit.path h
    rwa [fusedHit_path, fusedHit_path] at hpath
  · have hscore := congrArg SearchHit.score h
    rwa [fusedHit_score, fusedHit_score] at hscore

lemma iterates_foundRows : Iterates (foundRows bm25 annHits) (fusedScores bm25 annHits) :=
  iterates_iff.mpr (List.Perm.refl _)

/-- Where the order of the iteration makes no difference, no two paths of one sum are among the
best or at the cut. -/
lemma noTies_of_fused (h : Fused bm25 annHits limit c) :
    NoTies (rrfSum bm25 annHits) (foundPaths bm25 annHits) limit := by
  rw [← noTies_foundRows, ← take_ranking_eq_iff nodup_foundRows]
  intro l₁ l₂ h₁ h₂
  obtain ⟨-, hsame, -⟩ := h (fun _ => l₂) (iterates_iff.mpr h₂)
  exact map_fusedHit_injective
    (congrArg SearchResults.hits (hsame (fun _ => l₁) (iterates_iff.mpr h₁)))

/-- Where the hits carry the data of the documents, those of the best paths are known. -/
lemma known_of_fused (h : Fused bm25 annHits limit c) (hp : path ∈ foundPaths bm25 annHits)
    (hlt : countAbove (rrfSum bm25 annHits) (foundPaths bm25 annHits) path < limit) :
    Known bm25 c path := by
  have hrow := mem_foundRows.mpr ⟨hp, rfl⟩
  have hmem := (mem_take_ranking nodup_foundRows (noTies_foundRows.mpr (noTies_of_fused h))).mpr
    ⟨hrow, (countAbove_foundRows _ hrow).trans_lt hlt⟩
  exact (known_iff _).mpr
    ((h (fun _ => foundRows bm25 annHits) iterates_foundRows).2.2 _ (List.mem_map_of_mem hmem))

/-- The fused hits are determined and carry the data of the documents exactly if no two paths of one
sum are among the best or at the cut, and each of the best is known. -/
theorem fused_iff (bm25 : List SearchHit) (annHits : List (Text × ℚ)) (limit : ℕ)
    (c : CommittedDocs) :
    Fused bm25 annHits limit c ↔
      NoTies (rrfSum bm25 annHits) (foundPaths bm25 annHits) limit ∧
        ∀ p ∈ foundPaths bm25 annHits,
          countAbove (rrfSum bm25 annHits) (foundPaths bm25 annHits) p < limit →
            Known bm25 c p := by
  constructor
  · intro h
    exact ⟨noTies_of_fused h, fun p hp hlt => known_of_fused h hp hlt⟩
  · rintro ⟨hties, hknown⟩ iterate hiterate
    have hties' := noTies_foundRows.mpr hties
    have hsame := (take_ranking_eq_iff (n := limit) nodup_foundRows).mpr hties'
    refine ⟨best_fuseRrf hiterate, fun iterate' hiterate' => ?_, fun hit hhit => ?_⟩
    · rw [fuseRrf, fuseRrf, hsame _ _ (iterates_iff.mp hiterate') (iterates_iff.mp hiterate)]
    · obtain ⟨⟨p, x⟩, hr, rfl⟩ := List.mem_map.mp hhit
      rw [hsame _ _ (iterates_iff.mp hiterate) (List.Perm.refl _),
        mem_take_ranking nodup_foundRows hties'] at hr
      rw [countAbove_foundRows _ hr.1] at hr
      exact (known_iff x).mp (hknown p (mem_foundRows.mp hr.1).1 hr.2)

/-- What the text search found is known: only paths that nothing but their vectors found may not
be. -/
lemma known_of_text {e : Searcher} {q : Query} {ranked : List Stored} {results : SearchResults}
    (hranked : ranked.Perm c.docs) (h : runQuery e q ranked = .ok results)
    (hp : path ∈ results.hits.map SearchHit.path) : Known results.hits c path := by
  obtain ⟨hit, hhit, rfl⟩ := List.mem_map.mp hp
  have hfind : (bm25ByPath results.hits hit.path).isSome := by
    rw [bm25ByPath, List.find?_isSome]
    exact ⟨hit, List.mem_reverse.mpr hhit, decide_eq_true rfl⟩
  obtain ⟨last, hlast⟩ := Option.isSome_iff_exists.mp hfind
  rw [Known, hlast]
  exact describes_of_mem_hits hranked h (List.mem_reverse.mp (List.mem_of_find?_eq_some hlast))

/-- A hit for a file. -/
def textHit (path : Text) : SearchHit := ⟨path, path, some "txt".toList, 1, 1, none, .file, 1, none⟩

/-- Two paths that are each first in one list come in either order; and a document that only its
vector found is described as another kind of file. -/
theorem not_fused :
    (∀ c, ¬ Fused [textHit "a".toList] [("b".toList, 1)] 1 c) ∧
      ¬ Fused [] [("a.pdf".toList, 1)] 1 oneFile := by
  constructor
  · intro c h
    have hcut := noTies_of_fused h "a".toList (by decide) "b".toList (by decide) (by decide)
      (by decide +kernel)
    revert hcut
    decide +kernel
  · intro h
    obtain ⟨d, hd, -, -, hextension, -⟩ : Known [] oneFile "a.pdf".toList :=
      known_of_fused h (by decide) (by decide +kernel)
    obtain rfl := List.mem_singleton.mp hd
    revert hextension
    decide

end Orchid.Search
