import Mathlib.Algebra.Order.Field.Rat
import Mathlib.Data.List.Nodup
import Orchid.Base.Text

/-!
# Queries

The filters of a query as they are documented, the clauses that a query is turned into, and when the
documents found by the clauses are the ones that the filters ask for.
-/

namespace Orchid.Search

/-! ### Documents and hits -/

inductive DocumentKind
  | file
  | directory
deriving DecidableEq

/-- `DocumentKind::as_str` -/
def DocumentKind.asStr : DocumentKind → Text
  | .file => "file".toList
  | .directory => "directory".toList

/-- The fields of an `IndexDocument` that the text index keeps. -/
structure Stored where
  path : Text
  name : Text
  extension : Option Text
  content : Option Text
  tags : List Text
  colorLabel : Option Text
  size : ℕ
  modified : ℤ
  mime : Option Text
  kind : DocumentKind
  inArchive : Option Text
deriving DecidableEq

structure Snippet where
  text : Text
  highlights : List (ℕ × ℕ)
deriving DecidableEq

structure SearchHit where
  path : Text
  name : Text
  extension : Option Text
  size : ℕ
  modified : ℤ
  mime : Option Text
  kind : DocumentKind
  score : ℚ
  snippet : Option Snippet
deriving DecidableEq

/-- `SearchResults`, without the time the query took. -/
structure SearchResults where
  hits : List SearchHit
  totalEstimated : ℕ

/-- A hit carries the data of a document. -/
def SearchHit.Describes (h : SearchHit) (d : Stored) : Prop :=
  h.path = d.path ∧ h.name = d.name ∧ h.extension = d.extension ∧ h.size = d.size ∧
    h.modified = d.modified ∧ h.mime = d.mime ∧ h.kind = d.kind

/-! ### Queries and what they ask for -/

structure Query where
  text : Option Text
  extensions : List Text
  mimes : List Text
  tags : List Text
  colorLabel : Option Text
  pathPrefix : Option Text
  minSize : Option ℕ
  maxSize : Option ℕ
  modifiedAfter : Option ℤ
  modifiedBefore : Option ℤ
  onlyFiles : Bool
  onlyDirectories : Bool
  limit : ℕ
  offset : ℕ

/-- `Query::empty` -/
def Query.empty : Query where
  text := none
  extensions := []
  mimes := []
  tags := []
  colorLabel := none
  pathPrefix := none
  minSize := none
  maxSize := none
  modifiedAfter := none
  modifiedBefore := none
  onlyFiles := false
  onlyDirectories := false
  limit := 50
  offset := 0

/-- What a search uses of the libraries: lowercasing, the two query parsers with the documents that
a parsed query matches, and the score and the snippet of a document. -/
structure Searcher where
  toLowercase : Text → Text
  parseText : Text → Except Text (Stored → Bool)
  parsePath : Text → Option (Stored → Bool)
  score : Stored → ℚ
  snippet : Stored → Option Snippet

/-- The committed documents, of which no two have one path. -/
structure CommittedDocs where
  docs : List Stored
  nodup : (docs.map Stored.path).Nodup

variable (e : Searcher) (q : Query)

/-- The text of a query, if it is not blank. -/
def Query.needle : Option Text := q.text.filter fun s => trim s ≠ []

/-- The filters that are no lists and no path prefix, and the text. -/
structure Query.Rest (d : Stored) : Prop where
  text : ∀ t p, q.needle = some t → e.parseText t = .ok p → p d = true
  colorLabel : ∀ c, q.colorLabel = some c → d.colorLabel = some c
  minSize : ∀ n, q.minSize = some n → n ≤ d.size
  maxSize : ∀ n, q.maxSize = some n → d.size ≤ n
  modifiedAfter : ∀ n, q.modifiedAfter = some n → n ≤ d.modified
  modifiedBefore : ∀ n, q.modifiedBefore = some n → d.modified ≤ n
  onlyFiles : q.onlyFiles = true → d.kind = .file
  onlyDirectories : q.onlyDirectories = true → d.kind = .directory

/-- What the fields of `Query` say: one of the extensions (which documents have in lowercase), one
of the MIME types, every tag in lowercase, and a path with the prefix. -/
structure Query.Asks (d : Stored) : Prop where
  rest : q.Rest e d
  extensions : q.extensions ≠ [] → ∃ x ∈ q.extensions, d.extension = some (e.toLowercase x)
  mimes : q.mimes ≠ [] → ∃ x ∈ q.mimes, d.mime = some x
  tags : ∀ t ∈ q.tags, e.toLowercase t ∈ d.tags
  pathPrefix : ∀ p, q.pathPrefix = some p → p <+: d.path

/-! ### Clauses -/

/-- The text fields that are searched for whole terms. -/
inductive Field
  | extension
  | mime
  | tags
  | colorLabel
  | kind
deriving DecidableEq

/-- The terms of a field of a document. -/
def Stored.terms (d : Stored) : Field → List Text
  | .extension => d.extension.toList
  | .mime => d.mime.toList
  | .tags => d.tags
  | .colorLabel => d.colorLabel.toList
  | .kind => [d.kind.asStr]

/-- The queries of which all have to match. -/
inductive Clause
  | parsed (p : Stored → Bool)
  | term (field : Field) (value : Text)
  | sizes (lo hi : Option ℕ)
  | times (lo hi : Option ℤ)

/-- Whether a clause matches a document. -/
def Clause.holds (d : Stored) : Clause → Bool
  | .parsed p => p d
  | .term field value => (d.terms field).any fun t => t = value
  | .sizes lo hi => (lo.all fun n => n ≤ d.size) && hi.all fun n => d.size ≤ n
  | .times lo hi => (lo.all fun n => n ≤ d.modified) && hi.all fun n => d.modified ≤ n

/-- The clause of the text, or the parser's error. -/
def textClauses : Except Text (List Clause) :=
  match q.needle with
  | none => .ok []
  | some text => (e.parseText text).map fun p => [.parsed p]

/-- The query that the parser makes of the prefix and a wildcard, if it accepts it. -/
def parsedPrefix : Option (Stored → Bool) :=
  (q.pathPrefix.filter fun s => s ≠ []).bind fun path => e.parsePath (path ++ ['*'])

/-- The clauses of the filters. -/
def filterClauses : List Clause :=
  (q.extensions.map fun x => Clause.term .extension (e.toLowercase x)) ++
  (q.mimes.map fun x => Clause.term .mime x) ++
  (q.tags.map fun x => Clause.term .tags x) ++
  (q.colorLabel.toList.map fun c => Clause.term .colorLabel c) ++
  ((parsedPrefix e q).toList.map fun p => Clause.parsed p) ++
  (if q.minSize.isSome || q.maxSize.isSome then [Clause.sizes q.minSize q.maxSize] else []) ++
  (if q.modifiedAfter.isSome || q.modifiedBefore.isSome then
    [Clause.times q.modifiedAfter q.modifiedBefore] else []) ++
  (if q.onlyFiles then [Clause.term .kind "file".toList] else []) ++
  (if q.onlyDirectories then [Clause.term .kind "directory".toList] else [])

/-- A page of ranked documents. -/
def page {α : Type*} (offset limit : ℕ) (l : List α) : List α := (l.drop offset).take limit

/-- The hit for a document that was found. -/
def hitOf (d : Stored) : SearchHit where
  path := d.path
  name := d.name
  extension := d.extension
  size := d.size
  modified := d.modified
  mime := d.mime
  kind := if d.kind.asStr = "directory".toList then .directory else .file
  score := e.score d
  snippet := if q.needle.isSome then e.snippet d else none

/-- `run_query`, on the committed documents in the order of their scores for it. -/
def runQuery (ranked : List Stored) : Except Text SearchResults :=
  (textClauses e q).map fun text =>
    let clauses := text ++ filterClauses e q
    let top := page q.offset (max q.limit 1) (ranked.filter fun d => clauses.all (Clause.holds d))
    let hits := top.map (hitOf e q)
    { hits, totalEstimated := hits.length }

/-! ### What the clauses match -/

/-- What the clauses ask of a document: all extensions, all MIME types, the tags as they are given,
and what the parser made of the prefix. -/
structure Query.Meets (d : Stored) : Prop where
  extensions : ∀ x ∈ q.extensions, d.extension = some (e.toLowercase x)
  mimes : ∀ x ∈ q.mimes, d.mime = some x
  tags : ∀ t ∈ q.tags, t ∈ d.tags
  pathPrefix : ∀ p, parsedPrefix e q = some p → p d = true

variable {e q} {d : Stored}

lemma hitOf_describes (d : Stored) : (hitOf e q d).Describes d := by
  refine ⟨rfl, rfl, rfl, rfl, rfl, rfl, ?_⟩
  obtain ⟨kind, hkind⟩ : ∃ kind, d.kind = kind := ⟨_, rfl⟩
  simp only [hitOf, hkind]
  cases kind with
  | file => rfl
  | directory => rfl

lemma holds_term {field : Field} {value : Text} :
    (Clause.term field value).holds d = true ↔ value ∈ d.terms field := by
  simp [Clause.holds]

lemma asStr_inj {k k' : DocumentKind} : k.asStr = k'.asStr ↔ k = k' := by
  cases k <;> cases k' <;> decide

lemma holds_sizes (lo hi : Option ℕ) :
    (∀ c ∈ if lo.isSome || hi.isSome then [Clause.sizes lo hi] else [], c.holds d = true) ↔
      (∀ n, lo = some n → n ≤ d.size) ∧ ∀ n, hi = some n → d.size ≤ n := by
  cases lo <;> cases hi <;> simp [Clause.holds]

lemma holds_times (lo hi : Option ℤ) :
    (∀ c ∈ if lo.isSome || hi.isSome then [Clause.times lo hi] else [], c.holds d = true) ↔
      (∀ n, lo = some n → n ≤ d.modified) ∧ ∀ n, hi = some n → d.modified ≤ n := by
  cases lo <;> cases hi <;> simp [Clause.holds]

lemma holds_kind (only : Bool) (kind : DocumentKind) :
    (∀ c ∈ if only then [Clause.term .kind kind.asStr] else [], c.holds d = true) ↔
      (only = true → d.kind = kind) := by
  cases only with
  | false => simp
  | true =>
    simp only [if_true, List.mem_singleton, forall_eq, holds_term, Stored.terms, asStr_inj,
      true_imp_iff]
    exact eq_comm

/-- The clauses of the filters match the documents that meet the lists and satisfy the rest. -/
lemma holds_filterClauses : (∀ c ∈ filterClauses e q, c.holds d = true) ↔
    (((((((q.Meets e d ∧ ∀ c, q.colorLabel = some c → d.colorLabel = some c) ∧
      (∀ n, q.minSize = some n → n ≤ d.size) ∧ ∀ n, q.maxSize = some n → d.size ≤ n) ∧
      (∀ n, q.modifiedAfter = some n → n ≤ d.modified) ∧
      ∀ n, q.modifiedBefore = some n → d.modified ≤ n) ∧
      (q.onlyFiles = true → d.kind = .file)) ∧
      (q.onlyDirectories = true → d.kind = .directory)))) := by
  have hfile : (∀ c ∈ if q.onlyFiles then [Clause.term .kind "file".toList] else [],
      c.holds d = true) ↔ (q.onlyFiles = true → d.kind = .file) := holds_kind _ .file
  have hdirectory : (∀ c ∈ if q.onlyDirectories then [Clause.term .kind "directory".toList] else [],
      c.holds d = true) ↔ (q.onlyDirectories = true → d.kind = .directory) :=
    holds_kind _ .directory
  simp only [filterClauses, List.forall_mem_append, holds_sizes, holds_times, hfile, hdirectory]
  refine and_congr_left fun _ => and_congr_left fun _ => and_congr_left fun _ =>
    and_congr_left fun _ => ?_
  constructor
  · rintro ⟨⟨⟨⟨hext, hmime⟩, htags⟩, hcolor⟩, hprefix⟩
    refine ⟨⟨fun x hx => ?_, fun x hx => ?_, fun t ht => ?_, fun p hp => ?_⟩, fun c hc => ?_⟩
    · exact Option.mem_toList.mp (holds_term.mp (hext _ (List.mem_map_of_mem hx)))
    · exact Option.mem_toList.mp (holds_term.mp (hmime _ (List.mem_map_of_mem hx)))
    · exact holds_term.mp (htags _ (List.mem_map_of_mem ht))
    · exact hprefix _ (List.mem_map_of_mem (Option.mem_toList.mpr hp))
    · exact Option.mem_toList.mp
        (holds_term.mp (hcolor _ (List.mem_map_of_mem (Option.mem_toList.mpr hc))))
  · rintro ⟨hmeets, hcolor⟩
    refine ⟨⟨⟨⟨fun c hc => ?_, fun c hc => ?_⟩, fun c hc => ?_⟩, fun c hc => ?_⟩,
      fun c hc => ?_⟩ <;>
      obtain ⟨x, hx, rfl⟩ := List.mem_map.mp hc
    · exact holds_term.mpr (Option.mem_toList.mpr (hmeets.extensions x hx))
    · exact holds_term.mpr (Option.mem_toList.mpr (hmeets.mimes x hx))
    · exact holds_term.mpr (hmeets.tags x hx)
    · exact holds_term.mpr (Option.mem_toList.mpr (hcolor x (Option.mem_toList.mp hx)))
    · exact hmeets.pathPrefix x (Option.mem_toList.mp hx)

/-- The clauses of a query match the documents that meet the lists and satisfy the rest. -/
lemma holds_clauses {text : List Clause} (htext : textClauses e q = .ok text) :
    ((text ++ filterClauses e q).all (Clause.holds d)) = true ↔ q.Meets e d ∧ q.Rest e d := by
  have hneedle : (∀ c ∈ text, c.holds d = true) ↔
      ∀ t p, q.needle = some t → e.parseText t = .ok p → p d = true := by
    unfold textClauses at htext
    cases hq : q.needle with
    | none =>
      rw [hq] at htext
      obtain rfl := Except.ok.inj htext
      simp
    | some t =>
      rw [hq] at htext
      cases hp : e.parseText t with
      | error err =>
        simp only [hp] at htext
        cases htext
      | ok p =>
        simp only [hp] at htext
        obtain rfl := Except.ok.inj htext
        simp only [List.mem_singleton, forall_eq, Clause.holds]
        constructor
        · intro h t' p' ht' hp'
          obtain rfl := Option.some.inj ht'
          obtain rfl := Except.ok.inj (hp.symm.trans hp')
          exact h
        · intro h
          exact h t p rfl hp
  rw [List.all_eq_true, List.forall_mem_append, hneedle, holds_filterClauses]
  constructor
  · rintro ⟨ht, ⟨⟨⟨⟨⟨hmeets, hcolor⟩, hmin, hmax⟩, hafter, hbefore⟩, hfiles⟩, hdirs⟩⟩
    exact ⟨hmeets, ht, hcolor, hmin, hmax, hafter, hbefore, hfiles, hdirs⟩
  · rintro ⟨hmeets, h⟩
    exact ⟨h.text, ⟨⟨⟨⟨hmeets, h.colorLabel⟩, h.minSize, h.maxSize⟩, h.modifiedAfter,
      h.modifiedBefore⟩, h.onlyFiles⟩, h.onlyDirectories⟩

/-! ### Documents and their paths -/

lemma CommittedDocs.eq_of_path (c : CommittedDocs) {d d' : Stored} (hd : d ∈ c.docs)
    (hd' : d' ∈ c.docs) (h : d.path = d'.path) : d = d' :=
  List.inj_on_of_nodup_map c.nodup hd hd' h

/-- Any document may be the best one. -/
lemma exists_ranked (c : CommittedDocs) (hd : d ∈ c.docs) :
    ∃ ranked, (d :: ranked).Perm c.docs := by
  obtain ⟨front, back, hdocs⟩ := List.append_of_mem hd
  exact ⟨front ++ back, hdocs ▸ List.perm_middle.symm⟩

/-! ### What a query finds -/

/-- The limit of a query; zero becomes 50. -/
def Query.effectiveLimit (q : Query) : ℕ := if q.limit = 0 then 50 else q.limit

open Classical in
/-- Whatever the order of the scores and the offset: every hit is a document that the query asks
for, and the documents it asks for that come on this page are hits. -/
def Answered (e : Searcher) (c : CommittedDocs) (q : Query) : Prop :=
  ∀ ranked : List Stored, ranked.Perm c.docs → ∀ offset results,
    runQuery e { q with offset } ranked = .ok results →
      (∀ hit ∈ results.hits, ∃ d ∈ c.docs, hit.Describes d ∧ q.Asks e d) ∧
        ∀ d ∈ page offset q.effectiveLimit (ranked.filter fun d => q.Asks e d),
          ∃ hit ∈ results.hits, hit.Describes d

/-- Every committed document that the query asks for has all of the extensions and MIME types and
the tags as they are given, and is matched by what the parser made of the prefix; each one of which
that and the rest hold has the prefix, and the tags in lowercase; and where the limit is zero the
query asks for at most one document. -/
structure Plain (e : Searcher) (c : CommittedDocs) (q : Query) : Prop where
  meets : ∀ d ∈ c.docs, q.Asks e d → q.Meets e d
  asks : ∀ d ∈ c.docs, q.Rest e d → q.Meets e d →
    (∀ t ∈ q.tags, e.toLowercase t ∈ d.tags) ∧ ∀ p, q.pathPrefix = some p → p <+: d.path
  limit : q.limit = 0 → ∀ d ∈ c.docs, ∀ d' ∈ c.docs, q.Asks e d → q.Asks e d' → d = d'

variable {c : CommittedDocs} {ranked : List Stored} {results : SearchResults}

lemma asks_iff (h : Plain e c q) (hd : d ∈ c.docs) : q.Asks e d ↔ q.Meets e d ∧ q.Rest e d := by
  constructor
  · intro hasks
    exact ⟨h.meets d hd hasks, hasks.rest⟩
  · rintro ⟨hmeets, hrest⟩
    obtain ⟨htags, hprefix⟩ := h.asks d hd hrest hmeets
    refine ⟨hrest, fun hne => ?_, fun hne => ?_, htags, hprefix⟩
    · obtain ⟨x, hx⟩ := List.exists_mem_of_ne_nil _ hne
      exact ⟨x, hx, hmeets.extensions x hx⟩
    · obtain ⟨x, hx⟩ := List.exists_mem_of_ne_nil _ hne
      exact ⟨x, hx, hmeets.mimes x hx⟩

/-- The hits are those of a page of the documents that meet the query. -/
lemma hits_eq {text : List Clause} (htext : textClauses e q = .ok text) (offset : ℕ) :
    runQuery e { q with offset } ranked = .ok
      ⟨(page offset (max q.limit 1) (ranked.filter fun d =>
          (text ++ filterClauses e q).all (Clause.holds d))).map (hitOf e q),
        ((page offset (max q.limit 1) (ranked.filter fun d =>
          (text ++ filterClauses e q).all (Clause.holds d))).map (hitOf e q)).length⟩ := by
  have htext' : textClauses e { q with offset } = .ok text := htext
  rw [runQuery, htext']
  rfl

lemma mem_of_mem_page {α : Type*} {offset limit : ℕ} {l : List α} {a : α}
    (h : a ∈ page offset limit l) : a ∈ l := List.mem_of_mem_drop (List.mem_of_mem_take h)

/-- A list without two elements has the same first page, whatever its size. -/
lemma page_of_length_le_one {α : Type*} {offset limit limit' : ℕ} {l : List α} (h : l.length ≤ 1)
    (hlimit : 1 ≤ limit) (hlimit' : 1 ≤ limit') : page offset limit l = page offset limit' l := by
  have hdrop : (l.drop offset).length ≤ 1 := by
    rw [List.length_drop]
    omega
  rw [page, page, List.take_of_length_le (hdrop.trans hlimit),
    List.take_of_length_le (hdrop.trans hlimit')]

lemma length_le_one_of_forall_eq {α : Type*} {l : List α} (hnodup : l.Nodup)
    (h : ∀ a ∈ l, ∀ b ∈ l, a = b) : l.length ≤ 1 := by
  rcases l with _ | ⟨a, _ | ⟨b, l⟩⟩
  · exact Nat.zero_le 1
  · exact le_rfl
  · have hab : a = b := h a List.mem_cons_self b (List.mem_cons_of_mem _ List.mem_cons_self)
    exact absurd (hab ▸ List.mem_cons_self) (List.nodup_cons.mp hnodup).1

lemma CommittedDocs.nodup_docs (c : CommittedDocs) : c.docs.Nodup := List.Nodup.of_map _ c.nodup

/-- Every hit carries the data of a committed document. -/
lemma describes_of_mem_hits (hranked : ranked.Perm c.docs) (h : runQuery e q ranked = .ok results)
    {hit : SearchHit} (hhit : hit ∈ results.hits) : ∃ d ∈ c.docs, hit.Describes d := by
  obtain ⟨text, -, rfl⟩ : ∃ text, textClauses e q = .ok text ∧ _ := by
    rw [runQuery] at h
    cases htext : textClauses e q with
    | error err => simp [htext, Except.map] at h
    | ok text =>
      rw [htext] at h
      exact ⟨text, rfl, (Except.ok.inj h).symm⟩
  obtain ⟨d, hd, rfl⟩ := List.mem_map.mp hhit
  exact ⟨d, hranked.mem_iff.mp (List.mem_filter.mp (mem_of_mem_page hd)).1, hitOf_describes d⟩

open Classical in
/-- A plain query finds what it asks for. -/
lemma answered_of_plain (h : Plain e c q) : Answered e c q := by
  intro ranked hranked offset results hresults
  obtain ⟨text, htext⟩ : ∃ text, textClauses e q = .ok text := by
    cases htext : textClauses e q with
    | ok text => exact ⟨text, rfl⟩
    | error err =>
      have htext' : textClauses e { q with offset } = .error err := htext
      rw [runQuery, htext'] at hresults
      cases hresults
  obtain rfl := Except.ok.inj ((hits_eq htext offset).symm.trans hresults)
  have hfilter : (ranked.filter fun d => (text ++ filterClauses e q).all (Clause.holds d)) =
      ranked.filter fun d => q.Asks e d := by
    refine List.filter_congr fun d hd => ?_
    rw [Bool.eq_iff_iff, holds_clauses htext, decide_eq_true_iff]
    exact (asks_iff h (hranked.mem_iff.mp hd)).symm
  have hpage : page offset (max q.limit 1) (ranked.filter fun d => q.Asks e d) =
      page offset q.effectiveLimit (ranked.filter fun d => q.Asks e d) := by
    by_cases hzero : q.limit = 0
    · refine page_of_length_le_one (length_le_one_of_forall_eq
        ((hranked.nodup_iff.mpr c.nodup_docs).filter _) fun d hd d' hd' => ?_)
        (le_max_right _ _) (by rw [Query.effectiveLimit, if_pos hzero]; decide)
      rw [List.mem_filter, decide_eq_true_iff] at hd hd'
      exact h.limit hzero d (hranked.mem_iff.mp hd.1) d' (hranked.mem_iff.mp hd'.1) hd.2 hd'.2
    · rw [Query.effectiveLimit, if_neg hzero, max_eq_left (Nat.one_le_iff_ne_zero.mpr hzero)]
  simp only [hfilter, hpage]
  refine ⟨fun hit hhit => ?_, fun d hd => ⟨_, List.mem_map_of_mem hd, hitOf_describes d⟩⟩
  obtain ⟨d, hd, rfl⟩ := List.mem_map.mp hhit
  have hmem := List.mem_filter.mp (mem_of_mem_page hd)
  exact ⟨d, hranked.mem_iff.mp hmem.1, hitOf_describes d, of_decide_eq_true hmem.2⟩

lemma CommittedDocs.eq_of_describes (c : CommittedDocs) {hit : SearchHit} {d d' : Stored}
    (hd : d ∈ c.docs) (hd' : d' ∈ c.docs) (h : hit.Describes d) (h' : hit.Describes d') : d = d' :=
  c.eq_of_path hd hd' (h.1.symm.trans h'.1)

/-- The first document on the first page. -/
lemma mem_page_cons {α : Type*} (a : α) (l : List α) {limit : ℕ} (h : 1 ≤ limit) :
    a ∈ page 0 limit (a :: l) := by
  obtain ⟨n, rfl⟩ := Nat.exists_eq_add_of_le' h
  exact List.mem_cons_self

open Classical in
/-- A query that always finds what it asks for is plain, unless its text is no query. -/
lemma plain_of_answered (h : Answered e c q) {text : List Clause}
    (htext : textClauses e q = .ok text) : Plain e c q := by
  have heffective : 1 ≤ q.effectiveLimit := by
    rw [Query.effectiveLimit]
    split_ifs with hzero
    · decide
    · exact Nat.one_le_iff_ne_zero.mpr hzero
  refine ⟨fun d hd hasks => ?_, fun d hd hrest hmeets => ?_,
    fun hzero d hd d' hd' hasks hasks' => ?_⟩
  · obtain ⟨rest, hranked⟩ := exists_ranked c hd
    obtain ⟨hit, hhit, hdescribes⟩ := (h _ hranked 0 _ (hits_eq htext 0)).2 d (by
      rw [List.filter_cons_of_pos (p := fun d => decide (q.Asks e d)) (decide_eq_true hasks)]
      exact mem_page_cons _ _ heffective)
    obtain ⟨d', hd', rfl⟩ := List.mem_map.mp hhit
    have hmem := List.mem_filter.mp (mem_of_mem_page hd')
    obtain rfl := c.eq_of_describes hd (hranked.mem_iff.mp hmem.1) hdescribes (hitOf_describes d')
    exact ((holds_clauses htext).mp hmem.2).1
  · obtain ⟨rest, hranked⟩ := exists_ranked c hd
    have hmem : hitOf e q d ∈ ((page 0 (max q.limit 1) ((d :: rest).filter fun d =>
        (text ++ filterClauses e q).all (Clause.holds d))).map (hitOf e q)) := by
      refine List.mem_map_of_mem ?_
      rw [List.filter_cons_of_pos (p := fun d => (text ++ filterClauses e q).all (Clause.holds d))
        ((holds_clauses htext).mpr ⟨hmeets, hrest⟩)]
      exact mem_page_cons _ _ (le_max_right _ _)
    obtain ⟨d', hd', hdescribes, hasks⟩ := (h _ hranked 0 _ (hits_eq htext 0)).1 _ hmem
    obtain rfl := c.eq_of_describes hd hd' (hitOf_describes d) hdescribes
    exact ⟨hasks.tags, hasks.pathPrefix⟩
  · by_contra hne
    obtain ⟨rest, hrest⟩ := exists_ranked c hd
    have hmem : d' ∈ rest :=
      (List.mem_cons.mp (hrest.mem_iff.mpr hd')).resolve_left fun h => hne h.symm
    obtain ⟨front, back, rfl⟩ := List.append_of_mem hmem
    have hranked : (d :: d' :: (front ++ back)).Perm c.docs :=
      (List.perm_middle.symm.cons d).trans hrest
    obtain ⟨hsound, hcomplete⟩ := h _ hranked 0 _ (hits_eq htext 0)
    have hpage : ∀ x ∈ [d, d'], x ∈ page 0 q.effectiveLimit
        ((d :: d' :: (front ++ back)).filter fun d => q.Asks e d) := by
      intro x hx
      rw [List.filter_cons_of_pos (p := fun d => decide (q.Asks e d)) (decide_eq_true hasks),
        List.filter_cons_of_pos (p := fun d => decide (q.Asks e d)) (decide_eq_true hasks'),
        Query.effectiveLimit, if_pos hzero]
      rcases List.mem_cons.mp hx with rfl | hx
      · exact List.mem_cons_self
      · obtain rfl := List.mem_singleton.mp hx
        exact List.mem_cons_of_mem _ List.mem_cons_self
    obtain ⟨hit, hhit, hdescribes⟩ := hcomplete d (hpage d List.mem_cons_self)
    obtain ⟨hit', hhit', hdescribes'⟩ :=
      hcomplete d' (hpage d' (List.mem_cons_of_mem _ List.mem_cons_self))
    -- there is only one hit
    rw [show max q.limit 1 = 1 by rw [hzero]; rfl] at hhit hhit'
    have hone : ∀ {l : List Stored} {x y : SearchHit}, x ∈ (page 0 1 l).map (hitOf e q) →
        y ∈ (page 0 1 l).map (hitOf e q) → x = y := by
      intro l x y hx hy
      rcases l with _ | ⟨a, l⟩
      · cases hx
      · exact (List.mem_singleton.mp hx).trans (List.mem_singleton.mp hy).symm
    obtain rfl := hone hhit hhit'
    exact hne (c.eq_of_describes hd hd' hdescribes hdescribes')

/-- A query finds the committed documents it asks for, whatever their scores and the offset, exactly
if it is plain or its text is no query. -/
theorem answered_iff (e : Searcher) (c : CommittedDocs) (q : Query) :
    Answered e c q ↔
      (∀ t err, q.needle = some t → e.parseText t ≠ .error err) → Plain e c q := by
  constructor
  · intro h hparses
    cases htext : textClauses e q with
    | ok text => exact plain_of_answered h htext
    | error err =>
      unfold textClauses at htext
      cases hq : q.needle with
      | none =>
        rw [hq] at htext
        cases htext
      | some t =>
        rw [hq] at htext
        cases hp : e.parseText t with
        | ok p =>
          simp only [hp] at htext
          cases htext
        | error err => exact absurd hp (hparses t err hq)
  · intro h
    by_cases hparses : ∀ t err, q.needle = some t → e.parseText t ≠ .error err
    · exact answered_of_plain (h hparses)
    · push Not at hparses
      obtain ⟨t, err, hq, hp⟩ := hparses
      intro ranked _ offset results hresults
      have htext : textClauses e { q with offset } = .error err := by
        rw [textClauses, show Query.needle { q with offset } = some t from hq]
        simp only [hp]
        rfl
      rw [runQuery, htext] at hresults
      cases hresults

/-- A parser that takes every text and rejects every path. -/
def simpleSearcher : Searcher where
  toLowercase := toAsciiLowercase
  parseText _ := .ok fun _ => true
  parsePath _ := none
  score _ := 1
  snippet _ := none

/-- A document with a path and an extension. -/
def plainFile (path extension : Text) : Stored :=
  ⟨path, path, some extension, none, [], none, 0, 0, none, .file, none⟩

/-- One document. -/
def oneFile : CommittedDocs := ⟨[plainFile "a.pdf".toList "pdf".toList], List.nodup_singleton _⟩

/-- A query for one of two extensions finds no document; and a prefix that the parser rejects finds
documents without it. -/
theorem not_answered :
    ¬ Answered simpleSearcher oneFile
        { Query.empty with extensions := ["pdf".toList, "txt".toList] } ∧
      ¬ Answered simpleSearcher oneFile { Query.empty with pathPrefix := some "/b".toList } := by
  have hmem : plainFile "a.pdf".toList "pdf".toList ∈ oneFile.docs := List.mem_singleton_self _
  constructor
  · intro h
    have hasks : Query.Asks simpleSearcher
        { Query.empty with extensions := ["pdf".toList, "txt".toList] }
        (plainFile "a.pdf".toList "pdf".toList) := by
      refine ⟨⟨fun _ _ h => ?_, fun _ h => ?_, fun _ h => ?_, fun _ h => ?_, fun _ h => ?_,
        fun _ h => ?_, fun h => ?_, fun h => ?_⟩, fun _ => ⟨_, List.mem_cons_self, by decide⟩,
        fun h => ?_, fun _ h => ?_, fun _ h => ?_⟩
      all_goals first | cases h | exact absurd rfl h
    have hext := ((plain_of_answered h rfl).meets _ hmem hasks).extensions "txt".toList
      (List.mem_cons_of_mem _ List.mem_cons_self)
    revert hext
    decide
  · intro h
    have hrest : Query.Rest simpleSearcher { Query.empty with pathPrefix := some "/b".toList }
        (plainFile "a.pdf".toList "pdf".toList) := by
      refine ⟨fun _ _ h => ?_, fun _ h => ?_, fun _ h => ?_, fun _ h => ?_, fun _ h => ?_,
        fun _ h => ?_, fun h => ?_, fun h => ?_⟩
      all_goals cases h
    have hmeets : Query.Meets simpleSearcher { Query.empty with pathPrefix := some "/b".toList }
        (plainFile "a.pdf".toList "pdf".toList) := by
      refine ⟨fun _ h => ?_, fun _ h => ?_, fun _ h => ?_, fun _ h => ?_⟩
      all_goals cases h
    have hprefix := ((plain_of_answered h rfl).asks _ hmem hrest hmeets).2 _ rfl
    revert hprefix
    decide

end Orchid.Search
