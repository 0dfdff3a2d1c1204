import Mathlib.Data.List.FinRange
import Orchid.Base.Text

/-!
# Threads of messages, and quoted search texts

`orchid-mail/src/thread.rs`. The messages of a folder are sorted and then collected into threads by
the subject without its reply marks; a search text goes to the server as one quoted string.
-/

namespace Orchid.Mail

/-! ### Subjects -/

/-- The marks that `thread_key` removes. -/
def replyMarks : List Text :=
  ["re:".toList, "fwd:".toList, "fw:".toList, "aw:".toList, "sv:".toList, "vs:".toList,
    "ref:".toList]

/-- One round of the loop of `thread_key`. -/
def stripMark (text : Text) : Option Text :=
  replyMarks.findSome? fun mark =>
    ((dropStart? text mark).map trim).filter fun rest => rest ≠ [] ∧ rest.length < text.length

/-- The loop of `thread_key`; every round leaves a shorter text. -/
def stripMarks : ℕ → Text → Text
  | 0, text => text
  | rounds + 1, text =>
    match stripMark text with
    | some rest => stripMarks rounds rest
    | none => text

/-- `str::split_whitespace` -/
def splitWhitespace (text : Text) : List Text := (text.splitOnP isWhitespace).filter (· ≠ [])

/-- `thread_key`; `toLowercase` is that of `str`, with its Unicode tables. -/
def threadKey (toLowercase : Text → Text) (subject : Text) : Text :=
  let text := toLowercase (trim subject)
  [' '].intercalate (splitWhitespace (stripMarks text.length text))

/-! ### Threads -/

/-- `MessageHeader`, as far as `arrange` reads it. -/
structure MessageHeader where
  uid : U32
  subject : Text
  dateUnix : ℤ

/-- `ThreadRow` -/
structure ThreadRow (n : ℕ) where
  index : Fin n
  indent : ℕ
  deriving DecidableEq

/-- A thread while it is collected, which is never empty. -/
structure Thread (n : ℕ) where
  first : Fin n
  rest : List (Fin n)

namespace Thread

variable {n : ℕ} (g : Thread n)

/-- The messages of a thread. -/
def all : List (Fin n) := g.first :: g.rest

/-- The rows of a thread. -/
def rows : List (ThreadRow n) := ⟨g.first, 0⟩ :: g.rest.map (⟨·, 1⟩)

end Thread

section Arrange

variable (toLowercase : Text → Text) (headers : List MessageHeader)

/-- The subject that groups a message. -/
def key (i : Fin headers.length) : Text := threadKey toLowercase (headers.get i).subject

/-- A message joins the first thread with its subject, or starts one. -/
def join : List (Thread headers.length) → Fin headers.length → List (Thread headers.length)
  | [], i => [⟨i, []⟩]
  | g :: groups, i =>
    if key toLowercase headers g.first = key toLowercase headers i then
      { g with rest := g.rest ++ [i] } :: groups
    else g :: join groups i

end Arrange

/-! ### What collecting keeps -/

section Collecting

variable {toLowercase : Text → Text} {headers : List MessageHeader}

/-- Threads that were collected from messages in an order: of one subject each and of different
ones, each in the order and opened in the order. -/
structure Collected (toLowercase : Text → Text) (headers : List MessageHeader)
    (order : List (Fin headers.length)) (groups : List (Thread headers.length)) : Prop where
  perm : (groups.flatMap Thread.all).Perm order
  same : ∀ g ∈ groups, ∀ i ∈ g.all, key toLowercase headers i = key toLowercase headers g.first
  different : (groups.map fun g => key toLowercase headers g.first).Nodup
  inOrder : ∀ g ∈ groups, g.all.Sublist order
  opened : (groups.map Thread.first).Sublist order

variable {order : List (Fin headers.length)} {groups : List (Thread headers.length)}
  {i : Fin headers.length}

lemma join_of_notMem
    (h : ∀ g ∈ groups, key toLowercase headers g.first ≠ key toLowercase headers i) :
    join toLowercase headers groups i = groups ++ [⟨i, []⟩] := by
  induction groups with
  | nil => rfl
  | cons g groups ih =>
    rw [join, if_neg (h g List.mem_cons_self), ih fun g' hg' => h g' (List.mem_cons_of_mem g hg')]
    rfl

lemma join_of_mem {pre post : List (Thread headers.length)} {g : Thread headers.length}
    (hpre : ∀ g' ∈ pre, key toLowercase headers g'.first ≠ key toLowercase headers i)
    (hg : key toLowercase headers g.first = key toLowercase headers i) :
    join toLowercase headers (pre ++ g :: post) i =
      pre ++ { g with rest := g.rest ++ [i] } :: post := by
  induction pre with
  | nil => rw [List.nil_append, join, if_pos hg, List.nil_append]
  | cons g' pre ih =>
    rw [List.cons_append, join, if_neg (hpre g' List.mem_cons_self),
      ih fun g'' hg'' => hpre g'' (List.mem_cons_of_mem g' hg''), List.cons_append]

lemma Collected.join_new (h : Collected toLowercase headers order groups)
    (hi : ∀ g ∈ groups, key toLowercase headers g.first ≠ key toLowercase headers i) :
    Collected toLowercase headers (order ++ [i]) (join toLowercase headers groups i) := by
  rw [join_of_notMem hi]
  have hkeep : order.Sublist (order ++ [i]) := List.sublist_append_left order [i]
  constructor
  · simpa [Thread.all] using h.perm.append_right [i]
  · intro g hg j hj
    rcases List.mem_append.mp hg with hg | hg
    · exact h.same g hg j hj
    · cases List.mem_singleton.mp hg
      cases List.mem_singleton.mp hj
      rfl
  · rw [List.map_append]
    refine List.nodup_append.mpr ⟨h.different, by simp, ?_⟩
    intro k hk k' hk' heq
    obtain ⟨g, hg, rfl⟩ := List.mem_map.mp hk
    cases List.mem_singleton.mp hk'
    exact hi g hg heq
  · intro g hg
    rcases List.mem_append.mp hg with hg | hg
    · exact (h.inOrder g hg).trans hkeep
    · cases List.mem_singleton.mp hg
      exact List.sublist_append_right order [i]
  · rw [List.map_append]
    exact h.opened.append (.refl _)

lemma Collected.join_old {pre post : List (Thread headers.length)} {g : Thread headers.length}
    (h : Collected toLowercase headers order (pre ++ g :: post))
    (hpre : ∀ g' ∈ pre, key toLowercase headers g'.first ≠ key toLowercase headers i)
    (hg : key toLowercase headers g.first = key toLowercase headers i) :
    Collected toLowercase headers (order ++ [i])
      (join toLowercase headers (pre ++ g :: post) i) := by
  rw [join_of_mem hpre hg]
  have hkeep : order.Sublist (order ++ [i]) := List.sublist_append_left order [i]
  have hmem : ∀ g' ∈ pre ++ { g with rest := g.rest ++ [i] } :: post,
      g' ∈ pre ++ g :: post ∨ g' = { g with rest := g.rest ++ [i] } := by
    intro g' hg'
    simp only [List.mem_append, List.mem_cons] at hg' ⊢
    rcases hg' with hg' | hg' | hg'
    · exact .inl (.inl hg')
    · exact .inr hg'
    · exact .inl (.inr (.inr hg'))
  have hin : g ∈ pre ++ g :: post := by simp
  constructor
  · have hperm := h.perm.append_right [i]
    refine .trans ?_ hperm
    simp only [List.flatMap_append, List.flatMap_cons, Thread.all, List.append_assoc,
      List.cons_append]
    refine .append_left _ (.cons _ (.append_left _ ?_))
    exact (List.perm_append_singleton i _).symm
  · intro g' hg' j hj
    rcases hmem g' hg' with hg' | rfl
    · exact h.same g' hg' j hj
    · simp only [Thread.all, ← List.cons_append] at hj
      rcases List.mem_append.mp hj with hj | hj
      · exact h.same g hin j hj
      · cases List.mem_singleton.mp hj
        exact hg.symm
  · simpa using h.different
  · intro g' hg'
    rcases hmem g' hg' with hg' | rfl
    · exact (h.inOrder g' hg').trans hkeep
    · exact (h.inOrder g hin).append (.refl [i])
  · simpa using h.opened.trans hkeep

lemma Collected.join (h : Collected toLowercase headers order groups) :
    Collected toLowercase headers (order ++ [i]) (join toLowercase headers groups i) := by
  cases hfind : groups.find? fun g =>
      decide (key toLowercase headers g.first = key toLowercase headers i) with
  | none =>
    refine h.join_new fun g hg => ?_
    simpa using List.find?_eq_none.mp hfind g hg
  | some g =>
    obtain ⟨hg, pre, post, rfl, hpre⟩ := List.find?_eq_some_iff_append.mp hfind
    exact h.join_old (fun g' hg' => by simpa using hpre g' hg') (by simpa using hg)

end Collecting

/-! ### The list of a folder -/

section List

variable (toLowercase : Text → Text) (headers : List MessageHeader)

end List

/-! ### Search texts -/

/-- `char::is_control` -/
def isControl (c : Char) : Bool := c.toNat < 0x20 || (0x7F ≤ c.toNat && c.toNat ≤ 0x9F)

/-- A character inside quotes. -/
def escape (c : Char) : Text := if c = '\\' ∨ c = '"' then ['\\', c] else [c]

/-- `quote_imap` -/
def quoteImap (text : Text) : Option Text :=
  if text.any isControl then none
  else
    let text := trim text
    if text = [] then none else some ('"' :: (text.flatMap escape ++ ['"']))

/-- What a server reads behind the opening quote of a quoted string: a backslash stands before a
backslash or a quote, and a line does not end inside. -/
def readQuoted : Text → Option (Text × Text)
  | [] => none
  | [c] => if c = '"' then some ([], []) else none
  | c :: d :: text =>
    if c = '"' then some ([], d :: text)
    else if c = '\\' then
      if d = '\\' ∨ d = '"' then (readQuoted text).map fun r => (d :: r.1, r.2) else none
    else if c = '\r' ∨ c = '\n' then none
    else (readQuoted (d :: text)).map fun r => (c :: r.1, r.2)

lemma readQuoted_flatMap {text : Text} (h : ∀ c ∈ text, isControl c = false) (rest : Text) :
    readQuoted (text.flatMap escape ++ '"' :: rest) = some (text, rest) := by
  induction text with
  | nil => cases rest <;> simp [readQuoted]
  | cons c text ih =>
    have ih := ih fun d hd => h d (List.mem_cons_of_mem c hd)
    obtain ⟨d, tail, htail⟩ : ∃ d tail, text.flatMap escape ++ '"' :: rest = d :: tail :=
      List.exists_cons_of_ne_nil (by simp)
    rw [List.flatMap_cons, List.append_assoc]
    by_cases hc : c = '\\' ∨ c = '"'
    · rw [escape, if_pos hc, List.cons_append, List.singleton_append, readQuoted,
        if_neg (by decide), if_pos rfl, if_pos hc, ih]
      rfl
    · obtain ⟨hback, hquote⟩ := not_or.mp hc
      have hline : ¬(c = '\r' ∨ c = '\n') := by
        rintro (rfl | rfl)
        · exact absurd (h _ List.mem_cons_self) (by decide)
        · exact absurd (h _ List.mem_cons_self) (by decide)
      rw [escape, if_neg hc, List.singleton_append, htail, readQuoted, if_neg hquote,
        if_neg hback, if_neg hline, ← htail, ih]
      rfl

lemma mem_of_mem_trim {t : Text} {c : Char} (h : c ∈ trim t) : c ∈ t := by
  obtain ⟨ws, ws', ht, -⟩ := exists_trim t
  rw [ht]
  simp [h]

/-- A search text that is sent is one quoted string, and the server reads from it the text that was
typed, without white space at its ends; whatever stands in the text, nothing of it is left over as
another search key. What is not sent has a control character or shows nothing. -/
theorem quoteImap_spec (text rest : Text) :
    (∀ quoted, quoteImap text = some quoted → ∃ body, quoted = '"' :: body ∧
      readQuoted (body ++ rest) = some (trim text, rest) ∧ ∀ c ∈ quoted, isControl c = false) ∧
      (quoteImap text = none ↔ (∃ c ∈ text, isControl c = true) ∨ trim text = []) := by
  by_cases hany : text.any isControl
  · have hcontrol := List.any_eq_true.mp hany
    simp [quoteImap, hany, hcontrol]
  · have hno : ∀ c ∈ text, isControl c = false := by simpa using hany
    have htrim : ∀ c ∈ trim text, isControl c = false := fun c hc => hno c (mem_of_mem_trim hc)
    constructor
    · intro quoted hquoted
      simp only [quoteImap, hany, Bool.false_eq_true, ↓reduceIte] at hquoted
      split_ifs at hquoted with hnil
      cases hquoted
      refine ⟨_, rfl, ?_, fun c hc => ?_⟩
      · rw [List.append_assoc, List.singleton_append]
        exact readQuoted_flatMap htrim rest
      · simp only [List.mem_cons, List.mem_append, List.mem_flatMap, List.not_mem_nil,
          or_false] at hc
        rcases hc with rfl | ⟨d, hd, hc⟩ | rfl
        · decide
        · simp only [escape] at hc
          split_ifs at hc with hd'
          · rcases List.mem_pair.mp hc with rfl | rfl
            · decide
            · exact htrim c hd
          · exact List.mem_singleton.mp hc ▸ htrim d hd
        · decide
    · have hnone : ¬∃ c ∈ text, isControl c = true := by simpa using hno
      simp [quoteImap, hany, hnone]

end Orchid.Mail
