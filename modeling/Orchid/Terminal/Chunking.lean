import Mathlib.Data.List.Dedup
import Mathlib.Data.List.Infix
import Mathlib.Data.List.Perm.Subperm
import Orchid.Lib.Trace
import Orchid.Terminal.Emulator

/-!
# Feeding in pieces

However a stream of bytes is cut into calls of `feed`, the emulator ends in the same state with the
same responses. The splitter hands bytes to the VT parser at the end of every call, so two ways of
cutting give different slices; they run the same because the parser does not see where its bytes are
cut.
-/

namespace Orchid.Terminal

/-- A parser that does not see where its bytes are cut. -/
def Parser.ChunkInvariant {P : Type} (vt : Parser P) : Prop :=
  ∀ p x y, vt.advance p (x ++ y) =
    ((vt.advance (vt.advance p x).1 y).1, (vt.advance p x).2 ++ (vt.advance (vt.advance p x).1 y).2)

namespace TerminalEmulator

open EmulatorState

variable {P : Type} (d : Decoders) (vt : Parser P)

/-! ### Slices -/

/-- Some slices, one after the other. -/
def runEvents (events : List StreamEvent) (p : TerminalEmulator P × Text) :
    Option (TerminalEmulator P × Text) :=
  events.foldlM (feedEvent d vt) p

/-- Slices that run the same. -/
def RunsAs (events events' : List StreamEvent) : Prop :=
  ∀ p, runEvents d vt events p = runEvents d vt events' p

variable {d vt}

lemma runEvents_append (events events' : List StreamEvent) (p : TerminalEmulator P × Text) :
    runEvents d vt (events ++ events') p =
      (runEvents d vt events p).bind (runEvents d vt events') :=
  List.foldlM_append

lemma RunsAs.append {events events' : List StreamEvent} (h : RunsAs d vt events events')
    (more : List StreamEvent) : RunsAs d vt (events ++ more) (events' ++ more) := by
  intro p
  rw [runEvents_append, runEvents_append, h p]

/-- Two slices for the parser run as one. -/
lemma runsAs_vt_append (hvt : vt.ChunkInvariant) (x y : Bytes) :
    RunsAs d vt [.vt (x ++ y)] [.vt x, .vt y] := by
  intro p
  simp only [runEvents, List.foldlM_cons, List.foldlM_nil, feedEvent, hvt p.1.parser x y,
    List.foldlM_append]
  cases (vt.advance p.1.parser x).2.foldlM (handle d) (p.1.inner, p.2) with
  | none => rfl
  | some q => rfl

/-! ### The splitter -/

/-- Two states of the splitter, of which the second has handed some bytes to the parser before. -/
structure Ahead (d : Decoders) (vt : Parser P) (s t : Splitting) (v : Bytes) : Prop where
  splitter : s.splitter = t.splitter
  events : RunsAs d vt (ApcSplitter.flushVt v s.events) t.events
  bytes : s.vt = v ++ t.vt
  quiet : s.splitter.inApc = true → s.vt = []

lemma flushVt_append (v : Bytes) (events : List StreamEvent) :
    ApcSplitter.flushVt v events = events ++ ApcSplitter.flushVt v [] := by
  unfold ApcSplitter.flushVt
  split_ifs
  · exact (List.append_nil events).symm
  · rfl

lemma flushVt_append_events (v : Bytes) (events events' : List StreamEvent) :
    ApcSplitter.flushVt v (events ++ events') = events ++ ApcSplitter.flushVt v events' := by
  rw [flushVt_append, flushVt_append v events', List.append_assoc]

/-- All bytes that wait go to the parser. -/
lemma Ahead.flush (hvt : vt.ChunkInvariant) {s t : Splitting} {v : Bytes} (h : Ahead d vt s t v) :
    RunsAs d vt (ApcSplitter.flushVt s.vt s.events) (ApcSplitter.flushVt t.vt t.events) := by
  have hmore := h.events.append (ApcSplitter.flushVt t.vt [])
  rw [← flushVt_append t.vt t.events] at hmore
  refine fun p => Eq.trans ?_ (hmore p)
  rw [h.bytes, flushVt_append (v ++ t.vt), flushVt_append v, List.append_assoc, runEvents_append,
    runEvents_append s.events]
  congr 1
  funext q
  unfold ApcSplitter.flushVt
  by_cases hv : v = []
  · rw [hv]
    simp
  · by_cases ht : t.vt = []
    · simp [ht, hv]
    · simp only [List.append_eq_nil_iff, hv, ht, and_self, if_false, List.nil_append]
      exact runsAs_vt_append hvt v t.vt q

/-- What a byte in a payload adds to the slices does not depend on them. -/
lemma pushApc_events (a : ApcSplitter) (b : U8) (events : List StreamEvent) :
    a.pushApc b events = ((a.pushApc b []).1, events ++ (a.pushApc b []).2) := by
  unfold ApcSplitter.pushApc ApcSplitter.finish
  dsimp only
  split_ifs <;> simp

/-- A byte leaves the second state ahead. -/
lemma Ahead.pushOne (hvt : vt.ChunkInvariant) {s t : Splitting} {v : Bytes} (h : Ahead d vt s t v)
    (b : U8) : ∃ v', Ahead d vt (ApcSplitter.pushOne s b) (ApcSplitter.pushOne t b) v' := by
  unfold ApcSplitter.pushOne
  rw [← h.splitter]
  dsimp only
  split_ifs with hin hheld hopen hesc
  · have hnil : v = [] ∧ t.vt = [] := List.append_eq_nil_iff.mp (h.bytes.symm.trans (h.quiet hin))
    refine ⟨[], ?_⟩
    rw [pushApc_events _ _ s.events, pushApc_events _ _ t.events]
    have hmore := h.events.append (s.splitter.pushApc b []).2
    rw [hnil.1] at hmore
    exact ⟨rfl, hmore, (h.quiet hin).trans hnil.2.symm, fun _ => h.quiet hin⟩
  · exact ⟨[], rfl, h.flush hvt, rfl, fun _ => rfl⟩
  · refine ⟨v, rfl, h.events, ?_, fun hap => absurd hap hin⟩
    rw [h.bytes, List.append_assoc]
  · exact ⟨v, rfl, h.events, h.bytes, fun hap => absurd hap hin⟩
  · refine ⟨v, rfl, h.events, ?_, fun hap => absurd hap hin⟩
    rw [h.bytes, List.append_assoc]

lemma Ahead.foldl (hvt : vt.ChunkInvariant) (input : Bytes) {s t : Splitting} {v : Bytes}
    (h : Ahead d vt s t v) :
    ∃ v', Ahead d vt (input.foldl ApcSplitter.pushOne s) (input.foldl ApcSplitter.pushOne t) v' := by
  induction input generalizing s t v with
  | nil => exact ⟨v, h⟩
  | cons b input ih =>
    obtain ⟨v₁, h₁⟩ := h.pushOne hvt b
    exact ih h₁

/-- The slices are only ever added to. -/
lemma foldl_pushOne_events (input : Bytes) (s : Splitting) (events : List StreamEvent) :
    input.foldl ApcSplitter.pushOne { s with events := events ++ s.events } =
      { input.foldl ApcSplitter.pushOne s with
        events := events ++ (input.foldl ApcSplitter.pushOne s).events } := by
  induction input generalizing s with
  | nil => rfl
  | cons b input ih =>
    have hone : ApcSplitter.pushOne { s with events := events ++ s.events } b =
        { ApcSplitter.pushOne s b with events := events ++ (ApcSplitter.pushOne s b).events } := by
      unfold ApcSplitter.pushOne
      dsimp only
      split_ifs
      · rw [pushApc_events, pushApc_events s.splitter b s.events, List.append_assoc]
      · rw [flushVt_append, flushVt_append s.vt s.events, List.append_assoc]
      · rfl
      · rfl
      · rfl
    rw [List.foldl_cons, hone, ih]
    rfl

/-- Within a payload nothing waits for the parser. -/
lemma quiet_foldl (input : Bytes) {s : Splitting} (h : s.splitter.inApc = true → s.vt = []) :
    (input.foldl ApcSplitter.pushOne s).splitter.inApc = true →
      (input.foldl ApcSplitter.pushOne s).vt = [] := by
  induction input generalizing s with
  | nil => exact h
  | cons b input ih =>
    refine ih ?_
    unfold ApcSplitter.pushOne
    dsimp only
    split_ifs with hin
    · exact fun _ => h hin
    · exact fun _ => rfl
    · exact fun hap => absurd hap hin
    · exact fun hap => absurd hap hin
    · exact fun hap => absurd hap hin

/-- A stream cut in two runs as the whole. -/
lemma push_append (hvt : vt.ChunkInvariant) (a : ApcSplitter) (x y : Bytes) :
    (a.push (x ++ y)).1 = ((a.push x).1.push y).1 ∧
      RunsAs d vt (a.push (x ++ y)).2 ((a.push x).2 ++ ((a.push x).1.push y).2) := by
  unfold ApcSplitter.push
  dsimp only
  rw [List.foldl_append]
  have hquiet := quiet_foldl x (s := { splitter := a }) fun _ => rfl
  generalize x.foldl ApcSplitter.pushOne { splitter := a } = s at hquiet
  have hstart : Ahead d vt s
      { splitter := s.splitter, events := ApcSplitter.flushVt s.vt s.events, vt := [] } s.vt :=
    ⟨rfl, fun _ => rfl, (List.append_nil _).symm, hquiet⟩
  obtain ⟨v, h⟩ := hstart.foldl hvt y
  have hevents := foldl_pushOne_events y { splitter := s.splitter }
    (ApcSplitter.flushVt s.vt s.events)
  rw [List.append_nil] at hevents
  rw [hevents] at h
  refine ⟨h.splitter, ?_⟩
  have hrun := h.flush hvt
  dsimp only at hrun
  rwa [flushVt_append_events] at hrun

/-! ### Calls of `feed` -/

/-- Another splitter, and responses from before. -/
def continued (apc : ApcSplitter) (out : Text) (p : TerminalEmulator P × Text) :
    TerminalEmulator P × Text :=
  ({ p.1 with apc }, out ++ p.2)

lemma handle_append (out : Text) (q : EmulatorState × Text) (callback : Callback) :
    handle d (q.1, out ++ q.2) callback =
      (handle d q callback).map fun q => (q.1, out ++ q.2) := by
  unfold handle
  dsimp only
  cases q.1.perform d callback with
  | none => rfl
  | some r => simp only [Option.map_some, List.append_assoc]

/-- The slices see neither the splitter nor the responses. -/
lemma feedEvent_continued (apc : ApcSplitter) (out : Text) (p : TerminalEmulator P × Text)
    (event : StreamEvent) :
    feedEvent d vt (continued apc out p) event = (feedEvent d vt p event).map (continued apc out) := by
  cases event with
  | vt clean =>
    have hrun := @Lib.foldlM_map _ _ (handle d) (fun q => (q.1, out ++ q.2))
      (handle_append out) (vt.advance p.1.parser clean).2 (p.1.inner, p.2)
    simp only [feedEvent, continued]
    rw [hrun, Option.map_map, Option.map_map]
    rfl
  | apc payload =>
    simp only [feedEvent, continued, Option.map_map]
    rfl

lemma runEvents_continued (apc : ApcSplitter) (out : Text) (events : List StreamEvent)
    (p : TerminalEmulator P × Text) :
    runEvents d vt events (continued apc out p) =
      (runEvents d vt events p).map (continued apc out) :=
  Lib.foldlM_map (feedEvent_continued apc out) events p

/-- A call of `feed` with a stream is two calls with its parts. -/
lemma feed_append (hvt : vt.ChunkInvariant) (e : TerminalEmulator P) (x y : Bytes) :
    e.feed d vt (x ++ y) =
      (e.feed d vt x).bind fun r => (r.1.feed d vt y).map fun r' => (r'.1, r.2 ++ r'.2) := by
  obtain ⟨hsplit, hruns⟩ := push_append (d := d) hvt e.apc x y
  have hwhole : e.feed d vt (x ++ y) =
      (runEvents d vt ((e.apc.push x).2 ++ ((e.apc.push x).1.push y).2) (e, [])).map
        (continued ((e.apc.push x).1.push y).1 []) := by
    rw [← hruns, ← runEvents_continued, ← hsplit]
    rfl
  have hfirst : e.feed d vt x =
      (runEvents d vt (e.apc.push x).2 (e, [])).map (continued (e.apc.push x).1 []) := by
    rw [← runEvents_continued]
    rfl
  rw [hwhole, hfirst, runEvents_append]
  cases runEvents d vt (e.apc.push x).2 (e, []) with
  | none => rfl
  | some q =>
    have hsecond : (continued (e.apc.push x).1 [] q).1.feed d vt y =
        (runEvents d vt ((e.apc.push x).1.push y).2 (q.1, [])).map
          (continued ((e.apc.push x).1.push y).1 []) := by
      rw [← runEvents_continued]
      rfl
    have hrest : runEvents d vt ((e.apc.push x).1.push y).2 (continued q.1.apc q.2 (q.1, [])) = _ :=
      runEvents_continued q.1.apc q.2 _ (q.1, [])
    have hq : continued q.1.apc q.2 (q.1, []) = q := by
      unfold continued
      rw [List.append_nil]
    rw [hq] at hrest
    dsimp only [Option.map_some, Option.bind_some]
    rw [hsecond, hrest, Option.map_map, Option.map_map]
    rfl

/-- The emulator after some calls of `feed`, with all responses. -/
def feedAll (d : Decoders) (vt : Parser P) (e : TerminalEmulator P) :
    List Bytes → Option (TerminalEmulator P × Text)
  | [] => some (e, [])
  | bytes :: chunks =>
    (e.feed d vt bytes).bind fun r =>
      (feedAll d vt r.1 chunks).map fun r' => (r'.1, r.2 ++ r'.2)

/-- Calls of `feed` do as much as one call with the whole stream. -/
lemma feedAll_eq_feed (hvt : vt.ChunkInvariant) (e : TerminalEmulator P) (chunks : List Bytes) :
    e.feedAll d vt chunks = e.feed d vt chunks.flatten := by
  induction chunks generalizing e with
  | nil => rfl
  | cons bytes chunks ih =>
    rw [List.flatten_cons, feed_append hvt, feedAll]
    congr 1
    funext r
    rw [ih]

end TerminalEmulator

/-! ### The library of images -/

/-- The decoders with another order of the hash map. -/
def Decoders.withOrder (d : Decoders) (firstOther : ℕ → List U32 → U32 → Option U32) : Decoders :=
  { d with firstOther }

/-- The image that a payload is about. -/
def Decoders.kittyId (d : Decoders) (payload : Bytes) : U32 :=
  (d.kittyCommand ((payload.drop 1).takeWhile fun b => b ≠ 0x3b)).id

/-- The images that a stream is about. -/
def Decoders.streamIds (d : Decoders) (apc : ApcSplitter) (stream : Bytes) : List U32 :=
  (apc.push stream).2.filterMap fun event =>
    match event with
    | .vt _ => none
    | .apc payload => some (d.kittyId payload)

namespace EmulatorState

variable {d : Decoders} {s s' : EmulatorState}

@[simp] lemma bumpGeneration_kittyLib (s : EmulatorState) :
    s.bumpGeneration.kittyLib = s.kittyLib := rfl

@[simp] lemma markDirtyRow_kittyLib (s : EmulatorState) (row : U16) :
    (s.markDirtyRow row).kittyLib = s.kittyLib := rfl

@[simp] lemma markDirtyRange_kittyLib (s : EmulatorState) (src stop : U16) :
    (s.markDirtyRange src stop).kittyLib = s.kittyLib := rfl

@[simp] lemma markFullRedraw_kittyLib (s : EmulatorState) :
    s.markFullRedraw.kittyLib = s.kittyLib := rfl

@[simp] lemma withRowMut_kittyLib (s : EmulatorState) (row : ℕ) (f : Line → Line) :
    (s.withRowMut row f).kittyLib = s.kittyLib := by
  unfold withRowMut
  split_ifs <;> rfl

@[simp] lemma pushScrollback_kittyLib (s : EmulatorState) (line : Line) :
    (s.pushScrollback line).kittyLib = s.kittyLib := by
  unfold pushScrollback shiftImageAnchors
  split_ifs <;> rfl

@[simp] lemma scrollUp_kittyLib (s : EmulatorState) : s.scrollUp.kittyLib = s.kittyLib := by
  unfold scrollUp
  dsimp only
  split_ifs <;> rfl

@[simp] lemma scrollDown_kittyLib (s : EmulatorState) : s.scrollDown.kittyLib = s.kittyLib := by
  unfold scrollDown
  dsimp only
  split_ifs <;> rfl

lemma lineFeed_kittyLib (h : s.lineFeed = some s') : s'.kittyLib = s.kittyLib := by
  unfold lineFeed at h
  split_ifs at h
  · obtain ⟨saved, hsaved, rfl⟩ := Option.map_eq_some_iff.mp h
    unfold saveTopRow at hsaved
    split_ifs at hsaved
    · obtain ⟨line, -, rfl⟩ := Option.map_eq_some_iff.mp hsaved
      simp
    · obtain rfl := Option.some.inj hsaved
      simp
  · obtain rfl := Option.some.inj h
    rfl

@[simp] lemma reverseLineFeed_kittyLib (s : EmulatorState) :
    s.reverseLineFeed.kittyLib = s.kittyLib := by
  unfold reverseLineFeed
  split_ifs
  · simp
  · rfl

@[simp] lemma moveCursor_kittyLib (s : EmulatorState) (row col : U16) :
    (s.moveCursor row col).kittyLib = s.kittyLib := by
  unfold moveCursor
  split_ifs <;> rfl

@[simp] lemma setScrollRegion_kittyLib (s : EmulatorState) (top bottom : U16) :
    (s.setScrollRegion top bottom).kittyLib = s.kittyLib := by
  unfold setScrollRegion
  dsimp only
  split_ifs
  · exact moveCursor_kittyLib ..
  · rfl

lemma writeChar_kittyLib {ch : Char} (h : s.writeChar ch = some s') : s'.kittyLib = s.kittyLib := by
  obtain ⟨wrapped, hwrapped, rfl⟩ := Option.map_eq_some_iff.mp h
  have hput : (wrapped.putChar ch).kittyLib = wrapped.kittyLib := withRowMut_kittyLib ..
  rw [hput]
  unfold wrapLine at hwrapped
  split_ifs at hwrapped
  · exact (lineFeed_kittyLib hwrapped).trans (moveCursor_kittyLib ..)
  · rw [Option.some.inj hwrapped]

@[simp] lemma clearRowRange_kittyLib (s : EmulatorState) (row src dst : ℕ) :
    (s.clearRowRange row src dst).kittyLib = s.kittyLib := by
  unfold clearRowRange
  dsimp only
  split_ifs
  · rfl
  · simp

@[simp] lemma clearRows_kittyLib (s : EmulatorState) (row n : ℕ) :
    (s.clearRows row n).kittyLib = s.kittyLib := by
  unfold clearRows
  induction List.range' row n generalizing s with
  | nil => rfl
  | cons r rows ih => rw [List.foldl_cons, ih, clearRowRange_kittyLib]

@[simp] lemma eraseInLine_kittyLib (s : EmulatorState) (mode : U16) :
    (s.eraseInLine mode).kittyLib = s.kittyLib := by
  unfold eraseInLine
  dsimp only
  split_ifs <;> simp

@[simp] lemma eraseInDisplay_kittyLib (s : EmulatorState) (mode : U16) :
    (s.eraseInDisplay mode).kittyLib = s.kittyLib := by
  unfold eraseInDisplay
  dsimp only
  split_ifs <;> simp

lemma placeRgba_kittyLib {id : U32} {blob : StoredBlob} {moveCursor : Bool}
    (h : s.placeRgba id blob moveCursor = some s') : s'.kittyLib = s.kittyLib := by
  unfold placeRgba at h
  dsimp only at h
  split_ifs at h
  · rw [Option.some.inj h]
  · obtain ⟨moved, hmoved, rfl⟩ := Option.map_eq_some_iff.mp h
    have hfeeds : moved.kittyLib = (s.addImage id blob).kittyLib :=
      Lib.rel_of_foldlM (r := fun s s' => s'.kittyLib = s.kittyLib) (fun _ => rfl)
        (fun s₁ s₂ s₃ (h : s₂.kittyLib = s₁.kittyLib) (h' : s₃.kittyLib = s₂.kittyLib) =>
          h'.trans h) (fun _ _ _ h => lineFeed_kittyLib h) hmoved
    exact hfeeds
  · obtain ⟨moved, hmoved, rfl⟩ := Option.map_eq_some_iff.mp h
    obtain rfl := Option.some.inj hmoved
    rfl

lemma unhook_kittyLib (h : s.unhook d = some s') : s'.kittyLib = s.kittyLib := by
  obtain ⟨placed, hplaced, rfl⟩ := Option.map_eq_some_iff.mp h
  split_ifs at hplaced
  · unfold placeSixel at hplaced
    split at hplaced
    · rw [← Option.some.inj hplaced]
    · have hkept := placeRgba_kittyLib hplaced
      exact hkept
  · rw [Option.some.inj hplaced]

lemma csiDispatch_kittyLib (s : EmulatorState) (params : Params) (action : Char) :
    (s.csiDispatch params action).1.kittyLib = s.kittyLib := by
  unfold csiDispatch
  split
  · exact moveCursor_kittyLib ..
  · exact moveCursor_kittyLib ..
  · exact moveCursor_kittyLib ..
  · exact moveCursor_kittyLib ..
  · exact moveCursor_kittyLib ..
  · exact moveCursor_kittyLib ..
  · exact eraseInDisplay_kittyLib ..
  · exact eraseInLine_kittyLib ..
  · rfl
  · exact setScrollRegion_kittyLib ..
  · dsimp only
    split_ifs <;> rfl
  · rfl

/-- The parser's calls leave the library as it is. -/
lemma perform_kittyLib {callback : Callback} {out : Text}
    (h : s.perform d callback = some (s', out)) : s'.kittyLib = s.kittyLib := by
  cases callback with
  | print c =>
    obtain ⟨s', hs', heq⟩ := Option.map_eq_some_iff.mp h
    cases heq
    exact writeChar_kittyLib hs'
  | execute byte =>
    obtain ⟨s', hs', heq⟩ := Option.map_eq_some_iff.mp h
    cases heq
    unfold execute at hs'
    split at hs'
    · rw [← Option.some.inj hs', backspace, moveCursor_kittyLib]
    · rw [← Option.some.inj hs', tab, moveCursor_kittyLib]
    · exact lineFeed_kittyLib hs'
    · exact lineFeed_kittyLib hs'
    · exact lineFeed_kittyLib hs'
    · rw [← Option.some.inj hs', carriageReturn, moveCursor_kittyLib]
    · rw [Option.some.inj hs']
  | csiDispatch params action =>
    have hkept := csiDispatch_kittyLib s params action
    rwa [Option.some.inj h] at hkept
  | escDispatch byte =>
    cases h
    unfold escDispatch
    split_ifs
    · rfl
    · exact reverseLineFeed_kittyLib s
    · rfl
  | oscDispatch params =>
    cases h
    unfold oscDispatch
    split
    · split_ifs
      · rfl
      · split <;> rfl
      · rfl
    · rfl
  | hook ignore action =>
    cases h
    rfl
  | put byte =>
    cases h
    unfold EmulatorState.put
    split_ifs <;> rfl
  | unhook =>
    obtain ⟨s', hs', heq⟩ := Option.map_eq_some_iff.mp h
    cases heq
    exact unhook_kittyLib hs'

/-- The library has each image once, and only those of a list. -/
structure Roomy (ids : List U32) (s : EmulatorState) : Prop where
  nodup : (s.kittyLib.map Prod.fst).Nodup
  subset : s.kittyLib.map Prod.fst ⊆ ids

variable {ids : List U32}

lemma Roomy.of_eq (h : s.Roomy ids) (heq : s'.kittyLib = s.kittyLib) : s'.Roomy ids := by
  constructor
  · rw [heq]
    exact h.nodup
  · rw [heq]
    exact h.subset

lemma Roomy.filter (h : s.Roomy ids) (p : U32 × StoredBlob → Bool)
    (heq : s'.kittyLib = s.kittyLib.filter p) : s'.Roomy ids := by
  have hsub : ((s.kittyLib.filter p).map Prod.fst).Sublist (s.kittyLib.map Prod.fst) :=
    List.filter_sublist.map _
  constructor
  · rw [heq]
    exact h.nodup.sublist hsub
  · rw [heq]
    exact fun id hid => h.subset (hsub.subset hid)

/-- Where there is room for all images of the list, none is dropped. -/
lemma Roomy.storeImage (h : s.Roomy ids) (hroom : ids.dedup.length ≤ 16) {id : U32}
    (hid : id ∈ ids) (blob : StoredBlob) : s.storeImage d id blob = { s with
        kittyLib := (id, blob) :: s.kittyLib.filter fun e => e.1 ≠ id
        stored := s.stored + 1 } ∧
      (s.storeImage d id blob).Roomy ids := by
  have hrest : EmulatorState.Roomy ids
      { s with kittyLib := s.kittyLib.filter fun e => e.1 ≠ id } :=
    h.filter _ rfl
  have hnodup : (((id, blob) :: s.kittyLib.filter fun e => e.1 ≠ id).map Prod.fst).Nodup := by
    refine List.nodup_cons.mpr ⟨fun hmem => ?_, hrest.nodup⟩
    obtain ⟨e, he, heq⟩ := List.mem_map.mp hmem
    exact of_decide_eq_true (List.mem_filter.mp he).2 heq
  have hsubset : ((id, blob) :: s.kittyLib.filter fun e => e.1 ≠ id).map Prod.fst ⊆ ids :=
    List.cons_subset.mpr ⟨hid, hrest.subset⟩
  have hlength : ((id, blob) :: s.kittyLib.filter fun e => e.1 ≠ id).length ≤ 16 := by
    have hle := (List.subperm_of_subset hnodup
      (List.Subset.trans hsubset (List.subset_dedup ids))).length_le
    rw [List.length_map] at hle
    exact hle.trans hroom
  have heq : s.storeImage d id blob = { s with
      kittyLib := (id, blob) :: s.kittyLib.filter fun e => e.1 ≠ id
      stored := s.stored + 1 } := by
    unfold EmulatorState.storeImage
    dsimp only
    rw [if_neg hlength.not_gt]
  refine ⟨heq, ?_⟩
  rw [heq]
  exact ⟨hnodup, hsubset⟩

lemma Roomy.dropChunks (h : s.Roomy ids) (id : U32) : (s.dropChunks id).Roomy ids := h.of_eq rfl

/-- Where there is room the order of the library does not matter to a transmission. -/
lemma Roomy.transmit (h : s.Roomy ids) (hroom : ids.dedup.length ≤ 16) {cmd : KittyCommand}
    (hid : cmd.id ∈ ids) (o o' : ℕ → List U32 → U32 → Option U32) (data : Bytes) :
    s.transmit (d.withOrder o) cmd data = s.transmit (d.withOrder o') cmd data ∧
      ∀ s', s.transmit (d.withOrder o) cmd data = some s' → s'.Roomy ids := by
  unfold EmulatorState.transmit
  dsimp only [Decoders.withOrder]
  split_ifs
  · exact ⟨rfl, fun s' hs' => Option.some.inj hs' ▸ h.dropChunks cmd.id⟩
  · exact ⟨rfl, fun s' hs' => Option.some.inj hs' ▸ h.of_eq rfl⟩
  all_goals
    split
    · exact ⟨rfl, fun s' hs' => Option.some.inj hs' ▸ h.dropChunks cmd.id⟩
    · rename_i blob _
      obtain ⟨heq, hroomy⟩ :=
        (h.dropChunks cmd.id).storeImage (d := d.withOrder o) hroom hid blob
      obtain ⟨heq', -⟩ := (h.dropChunks cmd.id).storeImage (d := d.withOrder o') hroom hid blob
      have hsame := heq.trans heq'.symm
      dsimp only [Decoders.withOrder] at hsame hroomy
      refine ⟨by rw [hsame], fun s' hs' => ?_⟩
      first
        | exact hroomy.of_eq (placeRgba_kittyLib hs')
        | exact Option.some.inj hs' ▸ hroomy

/-- Nor does it to any payload about an image of the list. -/
lemma Roomy.handleApc (h : s.Roomy ids) (hroom : ids.dedup.length ≤ 16) {payload : Bytes}
    (hid : d.kittyId payload ∈ ids) (o o' : ℕ → List U32 → U32 → Option U32) :
    s.handleApc (d.withOrder o) payload = s.handleApc (d.withOrder o') payload ∧
      ∀ s', s.handleApc (d.withOrder o) payload = some s' → s'.Roomy ids := by
  unfold EmulatorState.handleApc
  dsimp only [Decoders.withOrder]
  split_ifs
  · exact ⟨rfl, fun s' hs' => Option.some.inj hs' ▸ h⟩
  · exact ⟨rfl, fun s' hs' => Option.some.inj hs' ▸ h.dropChunks _⟩
  · exact ⟨rfl, fun s' hs' => Option.some.inj hs' ▸ h.filter _ rfl⟩
  · split
    · exact ⟨rfl, fun s' hs' => Option.some.inj hs' ▸ h⟩
    · exact ⟨rfl, fun s' hs' => h.of_eq (placeRgba_kittyLib hs')⟩
  · exact h.transmit hroom hid o o' _
  · exact ⟨rfl, fun s' hs' => Option.some.inj hs' ▸ h⟩

end EmulatorState

namespace TerminalEmulator

open EmulatorState

variable {P : Type} {d : Decoders} {vt : Parser P} {ids : List U32}

/-- What the parser calls for does not depend on the order, and leaves the library as it is. -/
lemma roomy_foldlM_handle {callbacks : List Callback} {q q' : EmulatorState × Text}
    (h : q.1.Roomy ids) (hrun : callbacks.foldlM (handle d) q = some q') : q'.1.Roomy ids := by
  refine h.of_eq ?_
  exact Lib.rel_of_foldlM (r := fun q q' => q'.1.kittyLib = q.1.kittyLib) (fun _ => rfl)
    (fun q₁ q₂ q₃ (h : q₂.1.kittyLib = q₁.1.kittyLib) (h' : q₃.1.kittyLib = q₂.1.kittyLib) =>
      h'.trans h)
    (fun q₁ c q₂ hstep => by
      obtain ⟨r, hr, rfl⟩ := Option.map_eq_some_iff.mp hstep
      exact perform_kittyLib hr) hrun

/-- One slice, with two orders. -/
lemma feedEvent_withOrder {p : TerminalEmulator P × Text} {event : StreamEvent}
    (h : p.1.inner.Roomy ids) (hroom : ids.dedup.length ≤ 16)
    (hid : ∀ payload, event = .apc payload → d.kittyId payload ∈ ids)
    (o o' : ℕ → List U32 → U32 → Option U32) :
    feedEvent (d.withOrder o) vt p event = feedEvent (d.withOrder o') vt p event ∧
      ∀ p', feedEvent (d.withOrder o) vt p event = some p' → p'.1.inner.Roomy ids := by
  cases event with
  | vt clean =>
    refine ⟨rfl, fun p' hp' => ?_⟩
    obtain ⟨q, hq, rfl⟩ := Option.map_eq_some_iff.mp hp'
    exact roomy_foldlM_handle (q := (p.1.inner, p.2)) h hq
  | apc payload =>
    obtain ⟨heq, hroomy⟩ := h.handleApc hroom (hid payload rfl) o o'
    refine ⟨by simp only [feedEvent, heq], fun p' hp' => ?_⟩
    obtain ⟨s, hs, rfl⟩ := Option.map_eq_some_iff.mp hp'
    exact hroomy s hs

/-- Slices about no other images than those of a list for which there is room. -/
lemma runEvents_withOrder {events : List StreamEvent} {p : TerminalEmulator P × Text}
    (h : p.1.inner.Roomy ids) (hroom : ids.dedup.length ≤ 16)
    (hids : ∀ payload, .apc payload ∈ events → d.kittyId payload ∈ ids)
    (o o' : ℕ → List U32 → U32 → Option U32) :
    runEvents (d.withOrder o) vt events p = runEvents (d.withOrder o') vt events p := by
  induction events generalizing p with
  | nil => rfl
  | cons event events ih =>
    obtain ⟨heq, hroomy⟩ := @feedEvent_withOrder P d vt ids p event h hroom
      (fun payload hpayload => hids payload (hpayload ▸ List.mem_cons_self)) o o'
    simp only [runEvents, List.foldlM_cons] at ih ⊢
    rw [← heq]
    cases hp' : feedEvent (d.withOrder o) vt p event with
    | none => rfl
    | some p' =>
      exact ih (hroomy p' hp') fun payload hmem => hids payload (List.mem_cons_of_mem _ hmem)

/-- A stream with no more images than there is room for, with two orders of the library. -/
lemma feed_withOrder (e : TerminalEmulator P) (stream : Bytes)
    (hnodup : (e.inner.kittyLib.map Prod.fst).Nodup)
    (hroom : (e.inner.kittyLib.map Prod.fst ++ d.streamIds e.apc stream).dedup.length ≤ 16)
    (o o' : ℕ → List U32 → U32 → Option U32) :
    e.feed (d.withOrder o) vt stream = e.feed (d.withOrder o') vt stream := by
  refine runEvents_withOrder (p := ({ e with apc := (e.apc.push stream).1 }, []))
    ⟨hnodup, List.subset_append_left _ _⟩ hroom (fun payload hmem => ?_) o o'
  refine List.mem_append_right _ (List.mem_filterMap.mpr ⟨.apc payload, hmem, rfl⟩)

end TerminalEmulator

/-! ### Streams without a payload -/

namespace ApcSplitter

/-- The escape byte that is held back. -/
def held (a : ApcSplitter) : Bytes := if a.heldEsc then [0x1b] else []

/-- Outside of payloads every byte waits for the parser, but for an escape byte at the end. -/
lemma foldl_pushOne_of_noIntroducer {input : Bytes} {s : Splitting}
    (hin : s.splitter.inApc = false)
    (hno : ¬ [0x1b, 0x5f] <:+: s.splitter.held ++ input) :
    (input.foldl pushOne s).events = s.events ∧
      (input.foldl pushOne s).vt ++ (input.foldl pushOne s).splitter.held =
        s.vt ++ (s.splitter.held ++ input) := by
  induction input generalizing s with
  | nil => simp
  | cons b input ih =>
    rw [List.foldl_cons]
    have htail : [0x1b, 0x5f] <:+: input → [0x1b, 0x5f] <:+: s.splitter.held ++ b :: input :=
      fun h => h.trans ((List.suffix_cons b input).isInfix.trans
        (List.suffix_append _ _).isInfix)
    by_cases hheld : s.splitter.heldEsc = true
    · have hne : b ≠ 0x5f := by
        rintro rfl
        refine hno ⟨[], input, ?_⟩
        rw [held, if_pos hheld]
        rfl
      have hone : pushOne s b =
          { s with splitter := { s.splitter with heldEsc := false }, vt := s.vt ++ [0x1b, b] } := by
        rw [pushOne, if_neg (by simp [hin]), if_pos hheld, if_neg hne]
      rw [hone]
      obtain ⟨hevents, hbytes⟩ := ih (s := { s with
        splitter := { s.splitter with heldEsc := false }, vt := s.vt ++ [0x1b, b] }) hin
        fun h => hno (htail h)
      refine ⟨hevents, hbytes.trans ?_⟩
      rw [held, if_neg Bool.false_ne_true, held, if_pos hheld, List.append_assoc]
      rfl
    · by_cases hesc : b = 0x1b
      · have hone : pushOne s b = { s with splitter := { s.splitter with heldEsc := true } } := by
          rw [pushOne, if_neg (by simp [hin]), if_neg hheld, if_pos hesc]
        rw [held, if_neg hheld, hesc] at hno
        rw [hone]
        obtain ⟨hevents, hbytes⟩ := ih (s := { s with
          splitter := { s.splitter with heldEsc := true } }) hin hno
        refine ⟨hevents, hbytes.trans ?_⟩
        rw [held, if_pos rfl, held, if_neg hheld, hesc]
        rfl
      · have hone : pushOne s b = { s with vt := s.vt ++ [b] } := by
          rw [pushOne, if_neg (by simp [hin]), if_neg hheld, if_neg hesc]
        have hno' : ¬ [0x1b, 0x5f] <:+: s.splitter.held ++ input := by
          rw [held, if_neg hheld]
          exact fun h => hno (htail h)
        rw [hone]
        obtain ⟨hevents, hbytes⟩ := ih (s := { s with vt := s.vt ++ [b] }) hin hno'
        refine ⟨hevents, hbytes.trans ?_⟩
        rw [held, if_neg hheld, List.append_assoc]
        rfl

/-- Bytes without an introducer come in one slice, but for an escape byte at the end. -/
lemma push_of_noIntroducer {input : Bytes} (hno : ¬ [0x1b, 0x5f] <:+: input) :
    ∃ bytes, (push {} input).2 = flushVt bytes [] ∧ bytes ++ (push {} input).1.held = input := by
  obtain ⟨hevents, hbytes⟩ := foldl_pushOne_of_noIntroducer (s := { splitter := {} }) rfl hno
  refine ⟨(input.foldl pushOne { splitter := {} }).vt, ?_, hbytes⟩
  unfold push
  dsimp only
  rw [hevents]

end ApcSplitter

namespace TerminalEmulator

variable {P : Type}

/-- However a stream is cut into calls of `feed`, the emulator ends in the same state with the same
responses, if the library of images yields its keys in the same order, or in any two orders if there
is room for all images. Bytes without the introducer of a payload reach the parser as they are, but
for an escape byte at their end, which is held back. -/
theorem feed_chunking (d : Decoders) (vt : Parser P) (hvt : vt.ChunkInvariant) :
    (∀ (e : TerminalEmulator P) (chunks chunks' : List Bytes), chunks.flatten = chunks'.flatten →
      e.feedAll d vt chunks = e.feedAll d vt chunks' ∧
      ((e.inner.kittyLib.map Prod.fst).Nodup →
        (e.inner.kittyLib.map Prod.fst ++
          d.streamIds e.apc chunks.flatten).dedup.length ≤ 16 →
        ∀ o o', e.feedAll (d.withOrder o) vt chunks = e.feedAll (d.withOrder o') vt chunks')) ∧
    ∀ input : Bytes, ¬ [0x1b, 0x5f] <:+: input →
      ∃ bytes, (ApcSplitter.push {} input).2 = ApcSplitter.flushVt bytes [] ∧
        bytes ++ (ApcSplitter.push {} input).1.held = input := by
  refine ⟨fun e chunks chunks' hsame => ⟨?_, fun hnodup hroom o o' => ?_⟩,
    fun input hno => ApcSplitter.push_of_noIntroducer hno⟩
  · rw [feedAll_eq_feed hvt, feedAll_eq_feed hvt, hsame]
  · rw [feedAll_eq_feed hvt, feedAll_eq_feed hvt, ← hsame]
    exact feed_withOrder e _ hnodup hroom o o'

/-- A VT parser on texts without escape sequences. -/
def plainParser : Parser Unit where
  initial := ()
  advance := fun _ bytes =>
    ((), bytes.map fun b => if b < 0x20 then .execute b else .print (Char.ofNat b.val))

/-- A payload with one transparent pixel for the image 7. -/
def pixelPayload : Bytes :=
  [0x47, 0x73, 0x3d, 0x31, 0x2c, 0x76, 0x3d, 0x31, 0x2c, 0x69, 0x3d, 0x37, 0x3b, 0x41, 0x41, 0x41,
    0x41, 0x41, 0x41, 0x3d, 0x3d]

/-- Decoders for such pixels. -/
def pixelDecoders : Decoders where
  kittyCommand := fun header =>
    ⟨0x74, 32, if header = [] then 0 else 1, if header = [] then 0 else 1, false,
      if header = [] then 0 else 7, false, false⟩
  base64 := fun data => if data = [] then [] else [0, 0, 0, 0]
  kittyBytes := fun _ width height data =>
    if width = 1 ∧ height = 1 ∧ data.length = 4 then some ⟨1, 1, data⟩ else none
  sixel := fun _ => none
  firstOther := fun _ keys id => keys.find? fun key => key ≠ id
  fromUtf8Lossy := fun bytes => bytes.map fun b => Char.ofNat b.val

/-- An order the other way round. -/
def lastOther (_ : ℕ) (keys : List U32) (id : U32) : Option U32 :=
  keys.reverse.find? fun key => key ≠ id

/-- Decoders that find nothing. -/
def noDecoders : Decoders where
  kittyCommand := fun _ => ⟨0x74, 32, 0, 0, false, 0, false, false⟩
  base64 := fun _ => []
  kittyBytes := fun _ _ _ _ => none
  sixel := fun _ => none
  firstOther := fun _ _ _ => none
  fromUtf8Lossy := fun bytes => bytes.map fun b => Char.ofNat b.val

/-- A text with a pixel, cut behind the escape byte of the introducer. -/
def pixelChunks : List Bytes := [[0x61, 0x1b], 0x5f :: pixelPayload ++ [0x1b, 0x5c, 0x62]]

/-- The same text, cut in front of it. -/
def pixelChunks' : List Bytes := [[0x61], 0x1b :: 0x5f :: pixelPayload ++ [0x1b, 0x5c, 0x62]]

/-- A text with a pixel, cut in two ways, and an escape byte that is held back. -/
theorem feed_chunking_pixel :
    (new plainParser 4 2 0).feedAll pixelDecoders plainParser pixelChunks =
      (new plainParser 4 2 0).feedAll (pixelDecoders.withOrder lastOther) plainParser
        pixelChunks' ∧
    ∃ bytes, (ApcSplitter.push {} [0x61, 0x1b]).2 = ApcSplitter.flushVt bytes [] ∧
      bytes ++ (ApcSplitter.push {} [0x61, 0x1b]).1.held = [0x61, 0x1b] := by
  have hchunking := feed_chunking pixelDecoders plainParser fun _ _ _ =>
    congrArg (Prod.mk ()) (List.map_append ..)
  have hroom : ((new plainParser 4 2 0).inner.kittyLib.map Prod.fst ++
      pixelDecoders.streamIds (new plainParser 4 2 0).apc pixelChunks.flatten).dedup.length ≤
        16 := by
    decide
  exact ⟨(hchunking.1 (new plainParser 4 2 0) pixelChunks pixelChunks' rfl).2 List.nodup_nil hroom
    pixelDecoders.firstOther lastOther, hchunking.2 [0x61, 0x1b] (by decide)⟩

/-- An emulator with a full library. -/
def fullLibrary : TerminalEmulator Unit :=
  let e := new plainParser 4 2 0
  { e with inner := { e.inner with
    kittyLib := (List.range 16).map fun i => (Fin.ofNat _ (10 + i), ⟨1, 1, [0, 0, 0, 0]⟩) } }

/-- An escape byte alone does not reach the parser, and with a full library it depends on its order
which image is lost. -/
theorem not_feed_chunking :
    (¬ ∀ input : Bytes, ¬ [0x1b, 0x5f] <:+: input →
      (ApcSplitter.push {} input).2 = ApcSplitter.flushVt input []) ∧
    ¬ ∀ (e : TerminalEmulator Unit) (chunks : List Bytes) (o : ℕ → List U32 → U32 → Option U32),
      e.feedAll pixelDecoders plainParser chunks =
        e.feedAll (pixelDecoders.withOrder o) plainParser chunks := by
  constructor
  · intro h
    have hesc := h [0x1b] (by decide)
    cases hesc
  · intro h
    have hlost := congrArg (Option.map fun r => r.1.inner.kittyLib.map Prod.fst)
      (h fullLibrary [0x1b :: 0x5f :: pixelPayload ++ [0x1b, 0x5c]] lastOther)
    revert hlost
    decide

end TerminalEmulator

end Orchid.Terminal
