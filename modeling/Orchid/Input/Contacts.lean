import Mathlib.Data.List.Nodup
import Orchid.Lib.Along
import Orchid.Input.Gesture

/-!
# Contacts and gestures

A contact is one pointer from its coming down to its going up. A run of the recognizer is watched
with the contacts that are down, the event at which they last changed and the gestures that were
made, so that the baseline of a pair can be compared with the pair that is down.
-/

namespace Orchid.Input

open Lib (Along along_iff_along)

/-! ### Runs -/

/-- What happens to the recognizer. -/
inductive Call
  | feed (event : InputEvent)
  | tick (now : ℕ)
  | reset

namespace Call

/-- The state after a call and the gestures that it returns. -/
def effect (g : GestureRecognizer) : Call → GestureRecognizer × List Made
  | feed event => g.feed event
  | tick now => g.tick now
  | reset => (g.reset, [])

/-- The pointers that are down after a call, the `n`-th event. -/
def downAfter (down : List (U32 × ℕ)) (n : ℕ) : Call → List (U32 × ℕ)
  | feed event =>
    match event.asTouch with
    | some t =>
      match t.phase with
      | .began => insertPointer t.pointerId n down
      | .moved => down
      | .ended | .cancelled => down.filter fun p => p.1 ≠ t.pointerId
    | none => down
  | tick _ => down
  | reset => []

/-- The pointer that a call takes away. -/
def lifted : Call → Option U32
  | feed event =>
    event.asTouch.bind fun t =>
      if t.phase = TouchPhase.ended ∨ t.phase = TouchPhase.cancelled then some t.pointerId else none
  | tick _ => none
  | reset => none

end Call

/-- The recognizer, watched. -/
structure Watched where
  recognizer : GestureRecognizer
  /-- the pointers that are down, with their contacts -/
  down : List (U32 × ℕ) := []
  /-- the event at which the contacts that are down last changed -/
  formed : ℕ := 0
  made : List Made := []

namespace Watched

/-- The recognizer at its start. -/
def start (config : GestureConfig) (bounds : ScreenBounds) : Watched :=
  { recognizer := { config, bounds } }

def next (w : Watched) (call : Call) : Watched :=
  let n := w.recognizer.events
  let down := call.downAfter w.down n
  { recognizer := { (call.effect w.recognizer).1 with events := n + 1 }
    down
    formed := if down = w.down then w.formed else n
    made := w.made ++ (call.effect w.recognizer).2 }

def run (w : Watched) (calls : List Call) : Watched := calls.foldl next w

/-! ### What the baseline and the gestures should be -/

/-- The baseline of two pointers was taken from them, when they became the ones that are down. -/
def Fresh (w : Watched) : Prop :=
  w.down.length = 2 → ∃ b, w.recognizer.pairBaseline = some b ∧
    b.contacts = w.down.map Prod.snd ∧ b.captured = w.formed

/-- The baseline of two pointers was taken from them, when the later one came down. -/
def Kept (w : Watched) : Prop :=
  w.down.length = 2 → ∃ b, w.recognizer.pairBaseline = some b ∧
    b.contacts = w.down.map Prod.snd ∧ b.captured ∈ b.contacts ∧ ∀ c ∈ b.contacts, c ≤ b.captured

end Watched

/-- The gestures of one pointer that did not move. -/
def RecognizedGesture.tapLike : RecognizedGesture → Bool
  | tap _ _ | doubleTap _ | longPress _ _ => true
  | _ => false

/-- How many gestures of a contact are taps or long presses. -/
def tally (made : List Made) (c : ℕ) : ℕ := made.countP fun m => m.1 = c ∧ m.2.tapLike

namespace Watched

/-- Every contact makes at most one tap or long press. -/
def SingleTaps (w : Watched) : Prop := ∀ c, tally w.made c ≤ 1

/-- No pointer is taken away while three are down. -/
def NoLiftOfThree (w : Watched) (call : Call) : Prop :=
  ∀ id ∈ call.lifted, id ∈ w.down.map Prod.fst → w.down.length ≠ 3

/-- A pointer that is taken away while three are down leaves the two of the last baseline. -/
def LeavesPair (w : Watched) (call : Call) : Prop :=
  ∀ id ∈ call.lifted, id ∈ w.down.map Prod.fst → w.down.length = 3 →
    w.recognizer.pairBaseline.map PairBaseline.contacts =
      some ((w.down.filter fun p => p.1 ≠ id).map Prod.snd)

end Watched

/-! ### Coming down -/

section Insert

variable {β γ : Type} {id : U32} {x : β} {l : List (U32 × β)}

lemma map_insertPointer (f : β → γ) :
    (insertPointer id x l).map (fun p => (p.1, f p.2)) =
      insertPointer id (f x) (l.map fun p => (p.1, f p.2)) := by
  have hids : (l.map fun p => (p.1, f p.2)).map Prod.fst = l.map Prod.fst := by simp
  unfold insertPointer
  rw [hids]
  split_ifs with h
  · rw [List.map_map, List.map_map]
    refine List.map_congr_left fun p _ => ?_
    by_cases hp : p.1 = id <;> simp [hp]
  · simp

lemma mem_insertPointer_self : (id, x) ∈ insertPointer id x l := by
  unfold insertPointer
  split_ifs with h
  · obtain ⟨p, hp, hid⟩ := List.mem_map.mp h
    exact List.mem_map.mpr ⟨p, hp, if_pos hid⟩
  · simp

lemma mem_insertPointer {p : U32 × β} (h : p ∈ insertPointer id x l) : p = (id, x) ∨ p ∈ l := by
  unfold insertPointer at h
  split_ifs at h
  · obtain ⟨q, hq, rfl⟩ := List.mem_map.mp h
    split_ifs with hid
    · exact .inl rfl
    · exact .inr hq
  · simpa [or_comm] using h

lemma map_fst_insertPointer :
    (insertPointer id x l).map Prod.fst =
      if id ∈ l.map Prod.fst then l.map Prod.fst else l.map Prod.fst ++ [id] := by
  unfold insertPointer
  split_ifs with h
  · rw [List.map_map]
    refine List.map_congr_left fun p _ => ?_
    by_cases hp : p.1 = id <;> simp [hp]
  · simp

lemma nodup_insertPointer (h : (l.map Prod.fst).Nodup) :
    ((insertPointer id x l).map Prod.fst).Nodup := by
  rw [map_fst_insertPointer]
  split_ifs with hid
  · exact h
  · exact List.Nodup.append h (by simp) (by simpa using hid)

/-- A new value leaves the values distinct. -/
lemma nodup_snd_insertPointer [DecidableEq β] (hids : (l.map Prod.fst).Nodup)
    (h : (l.map Prod.snd).Nodup) (hx : x ∉ l.map Prod.snd) :
    ((insertPointer id x l).map Prod.snd).Nodup := by
  have hpairs : (insertPointer id x l).Nodup := (nodup_insertPointer hids).of_map
  refine hpairs.map_on ?_
  intro p hp q hq hpq
  obtain rfl | hp := mem_insertPointer hp
  · obtain rfl | hq := mem_insertPointer hq
    · rfl
    · exact absurd (List.mem_map.mpr ⟨q, hq, hpq.symm⟩) hx
  · obtain rfl | hq := mem_insertPointer hq
    · exact absurd (List.mem_map.mpr ⟨p, hp, hpq⟩) hx
    · exact List.inj_on_of_nodup_map h hp hq hpq

end Insert

/-! ### The recognizer and the pointers that are down -/

namespace GestureRecognizer

variable {g : GestureRecognizer}

/-- The pointers with their contacts. -/
def keys (g : GestureRecognizer) : List (U32 × ℕ) := g.pointers.map fun p => (p.1, p.2.contact)

@[simp] lemma length_keys : g.keys.length = g.pointers.length := by simp [keys]

/-- The baseline of two pointers is one of their contacts. -/
lemma currentPairBaseline_spec (h : g.keys.length = 2) : ∃ b, g.currentPairBaseline = some b ∧
    b.contacts = g.keys.map Prod.snd ∧ b.captured = g.events := by
  obtain ⟨p, q, hpq⟩ := List.length_eq_two.mp (length_keys ▸ h)
  refine ⟨_, by rw [currentPairBaseline, hpq]; rfl, ?_, rfl⟩
  simp [keys, hpq]

lemma keys_feedBegan (t : TouchEvent) :
    (g.feedBegan t).keys = insertPointer t.pointerId g.events g.keys := by
  have hkeys : (insertPointer t.pointerId ({
      beganAt := t.timestamp, beganPosition := t.position, lastPosition := t.position
      longPressEmitted := false, contact := g.events } : PointerState) g.pointers).map
      (fun p => (p.1, p.2.contact)) = insertPointer t.pointerId g.events g.keys :=
    map_insertPointer PointerState.contact
  unfold feedBegan
  dsimp only
  split_ifs <;> exact hkeys

/-- A second pointer takes the baseline anew. -/
lemma pairBaseline_feedBegan (t : TouchEvent) :
    ((g.feedBegan t).keys.length = 2 → ∃ b, (g.feedBegan t).pairBaseline = some b ∧
      b.contacts = (g.feedBegan t).keys.map Prod.snd ∧ b.captured = g.events) ∧
    ((g.feedBegan t).keys.length ≠ 2 → (g.feedBegan t).pairBaseline = g.pairBaseline) := by
  unfold feedBegan
  dsimp only
  split_ifs with hlen
  · refine ⟨fun _ => currentPairBaseline_spec (by simpa using hlen), fun h => ?_⟩
    exact absurd (by simpa using hlen) h
  · refine ⟨fun h => absurd (by simpa using h) hlen, fun _ => rfl⟩

lemma keys_feedMoved (t : TouchEvent) : (g.feedMoved t).1.keys = g.keys := by
  have hkeys : (g.pointers.map fun p =>
      if p.1 = t.pointerId then (p.1, { p.2 with lastPosition := t.position }) else p).map
      (fun p => (p.1, p.2.contact)) = g.keys := by
    rw [List.map_map]
    refine List.map_congr_left fun p _ => ?_
    by_cases hp : p.1 = t.pointerId <;> simp [hp]
  unfold feedMoved
  dsimp only
  split_ifs <;> exact hkeys

lemma pairBaseline_feedMoved (t : TouchEvent) :
    (g.feedMoved t).1.pairBaseline = g.pairBaseline := by
  unfold feedMoved
  dsimp only
  split_ifs <;> rfl

lemma keys_feedLifted (t : TouchEvent) :
    (g.feedLifted t).1.keys = g.keys.filter fun p => p.1 ≠ t.pointerId := by
  have hfilter : (g.pointers.filter fun p => p.1 ≠ t.pointerId).map
      (fun p => (p.1, p.2.contact)) = g.keys.filter fun p => p.1 ≠ t.pointerId := by
    rw [keys, List.filter_map]
    rfl
  unfold feedLifted
  cases hfind : g.pointers.find? fun p => p.1 = t.pointerId with
  | none =>
    have hall : g.keys.filter (fun p => p.1 ≠ t.pointerId) = g.keys := by
      refine List.filter_eq_self.mpr fun p hp => ?_
      obtain ⟨q, hq, rfl⟩ := List.mem_map.mp hp
      simpa using List.find?_eq_none.mp hfind q hq
    rw [hall]
    dsimp only
    split_ifs <;> rfl
  | some found =>
    dsimp only
    split_ifs <;> exact hfilter

lemma pairBaseline_feedLifted (t : TouchEvent) : (g.feedLifted t).1.pairBaseline =
    if (g.feedLifted t).1.keys.length ≠ 2 then none else g.pairBaseline := by
  rw [length_keys]
  unfold feedLifted
  cases g.pointers.find? fun p => p.1 = t.pointerId with
  | none =>
    dsimp only
    split_ifs <;> rfl
  | some found =>
    dsimp only
    split_ifs <;> rfl

lemma keys_tick (now : ℕ) : (g.tick now).1.keys = g.keys := by
  unfold keys tick
  dsimp only
  rw [List.map_map]
  refine List.map_congr_left fun p _ => ?_
  by_cases hp : g.held now p.2 = true <;> simp [hp]

end GestureRecognizer

/-! ### One call -/

namespace Call

variable {g : GestureRecognizer}

lemma keys_effect (call : Call) :
    (call.effect g).1.keys = call.downAfter g.keys g.events := by
  cases call with
  | feed event =>
    unfold effect downAfter GestureRecognizer.feed
    dsimp only
    cases event.asTouch with
    | none => rfl
    | some t =>
      dsimp only
      unfold GestureRecognizer.feedTouch
      cases t.phase with
      | began => exact GestureRecognizer.keys_feedBegan t
      | moved => exact GestureRecognizer.keys_feedMoved t
      | ended => exact GestureRecognizer.keys_feedLifted t
      | cancelled => exact GestureRecognizer.keys_feedLifted t
  | tick now => exact GestureRecognizer.keys_tick now
  | reset => rfl

/-- What a call does to the pointers that are down and to the baseline. -/
lemma cases_effect (call : Call) :
    (call.lifted = none ∧ call.downAfter g.keys g.events = g.keys ∧
      (call.effect g).1.pairBaseline = g.pairBaseline) ∨
    (call.lifted = none ∧ ∃ id, call.downAfter g.keys g.events = insertPointer id g.events g.keys ∧
      ((call.downAfter g.keys g.events).length = 2 → ∃ b, (call.effect g).1.pairBaseline = some b ∧
        b.contacts = (call.downAfter g.keys g.events).map Prod.snd ∧ b.captured = g.events) ∧
      ((call.downAfter g.keys g.events).length ≠ 2 →
        (call.effect g).1.pairBaseline = g.pairBaseline)) ∨
    (∃ id, call.lifted = some id ∧
      call.downAfter g.keys g.events = g.keys.filter (fun p => p.1 ≠ id) ∧
      (call.effect g).1.pairBaseline =
        if (call.downAfter g.keys g.events).length ≠ 2 then none else g.pairBaseline) ∨
    (call.lifted = none ∧ call.downAfter g.keys g.events = [] ∧
      (call.effect g).1.pairBaseline = none) := by
  cases call with
  | feed event =>
    cases htouch : event.asTouch with
    | none =>
      refine .inl ⟨?_, ?_, ?_⟩ <;>
        simp only [lifted, effect, downAfter, GestureRecognizer.feed, htouch, Option.bind_none]
    | some t =>
      cases hphase : t.phase with
      | began =>
        refine .inr (.inl ⟨by simp [lifted, htouch, hphase], t.pointerId, ?_⟩)
        have h := @GestureRecognizer.pairBaseline_feedBegan g t
        rw [GestureRecognizer.keys_feedBegan] at h
        simpa only [effect, downAfter, GestureRecognizer.feed, GestureRecognizer.feedTouch, htouch,
          hphase, true_and] using h
      | moved =>
        refine .inl ⟨by simp [lifted, htouch, hphase], ?_, ?_⟩ <;>
          simp only [effect, downAfter, GestureRecognizer.feed, GestureRecognizer.feedTouch, htouch,
            hphase, GestureRecognizer.pairBaseline_feedMoved]
      | ended =>
        refine .inr (.inr (.inl ⟨t.pointerId, by simp [lifted, htouch, hphase], ?_⟩))
        have h := @GestureRecognizer.pairBaseline_feedLifted g t
        rw [GestureRecognizer.keys_feedLifted] at h
        simpa only [effect, downAfter, GestureRecognizer.feed, GestureRecognizer.feedTouch, htouch,
          hphase, true_and] using h
      | cancelled =>
        refine .inr (.inr (.inl ⟨t.pointerId, by simp [lifted, htouch, hphase], ?_⟩))
        have h := @GestureRecognizer.pairBaseline_feedLifted g t
        rw [GestureRecognizer.keys_feedLifted] at h
        simpa only [effect, downAfter, GestureRecognizer.feed, GestureRecognizer.feedTouch, htouch,
          hphase, true_and] using h
  | tick now => exact .inl ⟨rfl, rfl, rfl⟩
  | reset => exact .inr (.inr (.inr ⟨rfl, rfl, rfl⟩))

end Call

namespace Watched

variable {w : Watched}

/-- The contacts that are down are those of the recognizer, and the baseline is an earlier one. -/
structure Ok (w : Watched) : Prop where
  keys : w.recognizer.keys = w.down
  ids : (w.down.map Prod.fst).Nodup
  contacts : (w.down.map Prod.snd).Nodup
  lt : ∀ c ∈ w.down.map Prod.snd, c < w.recognizer.events
  captured : ∀ b ∈ w.recognizer.pairBaseline, b.captured < w.recognizer.events ∧
    b.captured ∈ b.contacts ∧ ∀ c ∈ b.contacts, c ≤ b.captured

lemma ok_start (config : GestureConfig) (bounds : ScreenBounds) : (start config bounds).Ok where
  keys := rfl
  ids := List.nodup_nil
  contacts := List.nodup_nil
  lt := fun _ h => absurd h List.not_mem_nil
  captured := fun _ h => by cases h

lemma Ok.notMem (h : w.Ok) : w.recognizer.events ∉ w.down.map Prod.snd :=
  fun hmem => absurd (h.lt _ hmem) (lt_irrefl _)

/-- A pointer that comes down changes the contacts. -/
lemma Ok.insertPointer_ne (h : w.Ok) (id : U32) :
    insertPointer id w.recognizer.events w.down ≠ w.down := fun heq =>
  h.notMem (List.mem_map.mpr ⟨_, heq ▸ mem_insertPointer_self, rfl⟩)

/-- What a call does to what is watched of the pair. -/
lemma Ok.cases_next (h : w.Ok) (call : Call) :
    (call.lifted = none ∧ (w.next call).down = w.down ∧ (w.next call).formed = w.formed ∧
      (w.next call).recognizer.pairBaseline = w.recognizer.pairBaseline) ∨
    (call.lifted = none ∧ ∃ id, (w.next call).down = insertPointer id w.recognizer.events w.down ∧
      (w.next call).formed = w.recognizer.events ∧
      ((w.next call).down.length = 2 → ∃ b, (w.next call).recognizer.pairBaseline = some b ∧
        b.contacts = (w.next call).down.map Prod.snd ∧ b.captured = w.recognizer.events) ∧
      ((w.next call).down.length ≠ 2 →
        (w.next call).recognizer.pairBaseline = w.recognizer.pairBaseline)) ∨
    (∃ id, call.lifted = some id ∧ (w.next call).down = w.down.filter (fun p => p.1 ≠ id) ∧
      (w.next call).formed =
        (if (w.next call).down = w.down then w.formed else w.recognizer.events) ∧
      (w.next call).recognizer.pairBaseline =
        if (w.next call).down.length ≠ 2 then none else w.recognizer.pairBaseline) ∨
    (call.lifted = none ∧ (w.next call).down = [] ∧
      (w.next call).recognizer.pairBaseline = none) := by
  have hcases := @Call.cases_effect w.recognizer call
  rw [h.keys] at hcases
  obtain ⟨hl, hd, hb⟩ | ⟨hl, id, hd, hb⟩ | ⟨id, hl, hd, hb⟩ | ⟨hl, hd, hb⟩ := hcases
  · exact .inl ⟨hl, hd, if_pos hd, hb⟩
  · refine .inr (.inl ⟨hl, id, hd, if_neg ?_, hb⟩)
    rw [hd]
    exact h.insertPointer_ne id
  · exact .inr (.inr (.inl ⟨id, hl, hd, rfl, hb⟩))
  · exact .inr (.inr (.inr ⟨hl, hd, hb⟩))

lemma filter_eq_self_of_notMem {l : List (U32 × ℕ)} {id : U32} (hid : id ∉ l.map Prod.fst) :
    (l.filter fun p => p.1 ≠ id) = l := by
  refine List.filter_eq_self.mpr fun q hq => ?_
  have : q.1 ≠ id := fun h => hid (by rw [← h]; exact List.mem_map_of_mem hq)
  simpa using this

/-- What is taken away from `l` leaves the others. -/
lemma length_filter_ne {l : List (U32 × ℕ)} {id : U32} (hids : (l.map Prod.fst).Nodup)
    (hid : id ∈ l.map Prod.fst) : (l.filter fun p => p.1 ≠ id).length + 1 = l.length := by
  induction l with
  | nil => exact absurd hid List.not_mem_nil
  | cons p l ih =>
    rw [List.map_cons, List.nodup_cons] at hids
    by_cases hp : p.1 = id
    · rw [List.filter_cons_of_neg (by simpa using hp), filter_eq_self_of_notMem (hp ▸ hids.1),
        List.length_cons]
    · have hmem : id ∈ l.map Prod.fst := by
        rw [List.map_cons] at hid
        exact (List.mem_cons.mp hid).resolve_left fun h => hp h.symm
      simpa [hp] using ih hids.2 hmem

lemma Ok.next (h : w.Ok) (call : Call) : (w.next call).Ok := by
  have hkeys : (w.next call).recognizer.keys = (w.next call).down := by
    show (call.effect w.recognizer).1.keys = call.downAfter w.down w.recognizer.events
    rw [Call.keys_effect, h.keys]
  have hevents : (w.next call).recognizer.events = w.recognizer.events + 1 := rfl
  have hold : ∀ b ∈ w.recognizer.pairBaseline, b.captured < (w.next call).recognizer.events ∧
      b.captured ∈ b.contacts ∧ ∀ c ∈ b.contacts, c ≤ b.captured := fun b hb =>
    ⟨(h.captured b hb).1.trans (Nat.lt_succ_self _), (h.captured b hb).2⟩
  have hlt : ∀ c ∈ w.down.map Prod.snd, c < (w.next call).recognizer.events := fun c hc =>
    (h.lt c hc).trans (Nat.lt_succ_self _)
  obtain ⟨-, hd, -, hb⟩ | ⟨-, id, hd, -, hb, hb'⟩ | ⟨id, -, hd, -, hb⟩ | ⟨-, hd, hb⟩ :=
    h.cases_next call
  · exact ⟨hkeys, hd ▸ h.ids, hd ▸ h.contacts, hd ▸ hlt, hb ▸ hold⟩
  · have hle : ∀ c ∈ (w.next call).down.map Prod.snd, c ≤ w.recognizer.events := by
      intro c hc
      rw [hd] at hc
      obtain ⟨p, hp, rfl⟩ := List.mem_map.mp hc
      obtain rfl | hp := mem_insertPointer hp
      · exact le_refl _
      · exact (h.lt _ (List.mem_map_of_mem hp)).le
    refine ⟨hkeys, hd ▸ nodup_insertPointer h.ids,
      hd ▸ nodup_snd_insertPointer h.ids h.contacts h.notMem,
      fun c hc => Nat.lt_succ_of_le (hle c hc), ?_⟩
    by_cases hlen : (w.next call).down.length = 2
    · obtain ⟨b, hsome, hcontacts, hcaptured⟩ := hb hlen
      rw [hsome]
      intro b' hb'
      obtain rfl : b = b' := Option.some.inj hb'
      rw [hcaptured, hcontacts]
      refine ⟨Nat.lt_succ_self _, ?_, hle⟩
      rw [hd]
      exact List.mem_map.mpr ⟨_, mem_insertPointer_self, rfl⟩
    · exact hb' hlen ▸ hold
  · refine ⟨hkeys, ?_, ?_, fun c hc => hlt c ?_, ?_⟩
    · rw [hd]
      exact h.ids.sublist (List.filter_sublist.map _)
    · rw [hd]
      exact h.contacts.sublist (List.filter_sublist.map _)
    · rw [hd] at hc
      exact (List.filter_sublist.map _).subset hc
    · rw [hb]
      split_ifs
      · exact fun _ h => by cases h
      · exact hold
  · refine ⟨hkeys, by simp [hd], by simp [hd], by simp [hd], by simp [hb]⟩

/-! ### The baseline of a pair -/

/-- A fresh baseline stays so, except where one pointer of three is taken away. -/
lemma Ok.fresh_next_iff (h : w.Ok) (hw : w.Fresh) (call : Call) :
    (w.next call).Fresh ↔ w.NoLiftOfThree call := by
  obtain ⟨hl, hd, hf, hb⟩ | ⟨hl, id, -, hf, hb, -⟩ | ⟨id, hl, hd, hf, hb⟩ | ⟨hl, hd, -⟩ :=
    h.cases_next call
  · refine iff_of_true ?_ (by simp [NoLiftOfThree, hl])
    unfold Fresh
    rwa [hd, hf, hb]
  · refine iff_of_true (fun hlen => ?_) (by simp [NoLiftOfThree, hl])
    rw [hf]
    exact hb hlen
  · by_cases hid : id ∈ w.down.map Prod.fst
    · have hlength := length_filter_ne h.ids hid
      rw [← hd] at hlength
      have hne : (w.next call).down ≠ w.down := fun heq => by simp [heq] at hlength
      rw [if_neg hne] at hf
      constructor
      · -- the baseline is older than the lift that left the pair
        rintro hfresh id' hid' - hthree
        obtain ⟨b, hsome, -, hcaptured⟩ := hfresh (by omega)
        rw [hb, if_neg (by omega)] at hsome
        have := (h.captured b hsome).1
        omega
      · intro hnot hlen
        exact absurd (by omega) (hnot id (by simp [hl]) hid)
    · rw [filter_eq_self_of_notMem hid] at hd
      refine iff_of_true ?_ fun id' hid' hmem => ?_
      · unfold Fresh
        rw [if_pos hd] at hf
        rw [hb, hd, hf]
        intro hlen
        rw [if_neg (by simpa using hlen)]
        exact hw hlen
      · rw [hl] at hid'
        obtain rfl : id = id' := Option.some.inj hid'
        exact absurd hmem hid
  · exact iff_of_true (fun hlen => by simp [hd] at hlen) (by simp [NoLiftOfThree, hl])

/-- A kept baseline stays so where a pointer of three leaves the two that it was taken from. -/
lemma Ok.kept_next_iff (h : w.Ok) (hw : w.Kept) (call : Call) :
    (w.next call).Kept ↔ w.LeavesPair call := by
  have hok := h.next call
  obtain ⟨hl, hd, -, hb⟩ | ⟨hl, id, -, -, hb, -⟩ | ⟨id, hl, hd, -, hb⟩ | ⟨hl, hd, -⟩ :=
    h.cases_next call
  · refine iff_of_true ?_ (by simp [LeavesPair, hl])
    unfold Kept
    rwa [hd, hb]
  · refine iff_of_true (fun hlen => ?_) (by simp [LeavesPair, hl])
    obtain ⟨b, hsome, hcontacts, -⟩ := hb hlen
    exact ⟨b, hsome, hcontacts, (hok.captured b hsome).2⟩
  · by_cases hid : id ∈ w.down.map Prod.fst
    · have hlength := length_filter_ne h.ids hid
      constructor
      · rintro hkept id' hid' - hthree
        rw [hl] at hid'
        obtain rfl : id = id' := Option.some.inj hid'
        have hlen : (w.next call).down.length = 2 := by rw [hd]; omega
        obtain ⟨b, hsome, hcontacts, -⟩ := hkept hlen
        rw [hb, if_neg (by simpa using hlen)] at hsome
        rw [hsome, Option.map_some, hcontacts, hd]
      · intro hleaves hlen
        have hthree : w.down.length = 3 := by rw [hd] at hlen; omega
        obtain ⟨b, hsome, hcontacts⟩ :=
          Option.map_eq_some_iff.mp (hleaves id (by simp [hl]) hid hthree)
        refine ⟨b, ?_, by rw [hcontacts, hd], (h.captured b hsome).2⟩
        rw [hb, if_neg (by simpa using hlen), hsome]
    · rw [filter_eq_self_of_notMem hid] at hd
      refine iff_of_true ?_ fun id' hid' hmem => ?_
      · unfold Kept
        rw [hb, hd]
        intro hlen
        rw [if_neg (by simpa using hlen)]
        exact hw hlen
      · rw [hl] at hid'
        obtain rfl : id = id' := Option.some.inj hid'
        exact absurd hmem hid
  · exact iff_of_true (fun hlen => by simp [hd] at hlen) (by simp [LeavesPair, hl])

end Watched

/-! ### Taps -/

section Tally

variable {made : List Made} {c : ℕ}

@[simp] lemma tally_nil : tally [] c = 0 := rfl

@[simp] lemma tally_append (made' : List Made) :
    tally (made ++ made') c = tally made c + tally made' c := List.countP_append

/-- Gestures of one contact. -/
lemma tally_map (contact : ℕ) (gestures : List RecognizedGesture) :
    tally (gestures.map fun gesture => (contact, gesture)) c =
      if contact = c then gestures.countP RecognizedGesture.tapLike else 0 := by
  unfold tally
  rw [List.countP_map]
  split_ifs with h
  · exact List.countP_congr fun g _ => by simp [h]
  · exact List.countP_eq_zero.mpr fun g _ => by simp [h]

/-- Of elements with distinct keys those of one key are counted once. -/
lemma countP_filter_key {β : Type} {l : List β} {f : β → ℕ} (hl : (l.map f).Nodup) (keep : β → Bool)
    {p : β} (hp : p ∈ l) :
    (l.filter keep).countP (fun q => f q = f p) = if keep p then 1 else 0 := by
  induction l with
  | nil => exact absurd hp List.not_mem_nil
  | cons q l ih =>
    rw [List.map_cons, List.nodup_cons] at hl
    obtain rfl | hmem := List.mem_cons.mp hp
    · have hzero : (l.filter keep).countP (fun q => f q = f p) = 0 := by
        refine List.countP_eq_zero.mpr fun q hq => ?_
        have : f q ≠ f p := fun h =>
          hl.1 (h ▸ List.mem_map_of_mem (List.mem_of_mem_filter hq))
        simpa using this
      by_cases hkeep : keep p = true <;> simp [hkeep, hzero]
    · have hne : f q ≠ f p := fun h => hl.1 (h ▸ List.mem_map_of_mem hmem)
      by_cases hkeep : keep q = true <;> simpa [hkeep, hne] using ih hl.2 hmem

end Tally

namespace GestureRecognizer

variable {g : GestureRecognizer}

/-- A pointer that goes up makes one tap at most, and none after a long press. -/
lemma countP_finishPointer (state : PointerState) (t : TouchEvent) :
    (g.finishPointer state t).2.countP RecognizedGesture.tapLike ≤
      if state.longPressEmitted then 0 else 1 := by
  unfold finishPointer
  dsimp only
  split_ifs <;> (try split) <;> simp_all [RecognizedGesture.tapLike]

end GestureRecognizer

namespace Watched

variable {w : Watched}

/-- A contact that is down has made a long press or nothing. -/
structure TapsOk (w : Watched) : Prop where
  held : ∀ p ∈ w.recognizer.pointers,
    tally w.made p.2.contact = if p.2.longPressEmitted then 1 else 0
  single : w.SingleTaps
  later : ∀ c, w.recognizer.events ≤ c → tally w.made c = 0

lemma tapsOk_start (config : GestureConfig) (bounds : ScreenBounds) :
    (start config bounds).TapsOk where
  held := fun _ h => absurd h List.not_mem_nil
  single := fun _ => Nat.zero_le 1
  later := fun _ _ => rfl

lemma Ok.contact_lt (h : w.Ok) {p : U32 × PointerState} (hp : p ∈ w.recognizer.pointers) :
    p.2.contact < w.recognizer.events := by
  refine h.lt _ ?_
  rw [← h.keys]
  exact List.mem_map.mpr ⟨_, List.mem_map_of_mem hp, rfl⟩

lemma Ok.nodup_contacts (h : w.Ok) : (w.recognizer.pointers.map fun p => p.2.contact).Nodup := by
  have := h.contacts
  rwa [← h.keys, GestureRecognizer.keys, List.map_map] at this

/-- A call that counts a tap with every long press that it notes, and one of a contact that it
takes away. -/
lemma TapsOk.next_of (ht : w.TapsOk) (h : w.Ok) {call : Call}
    (hpointers : ∀ p' ∈ (call.effect w.recognizer).1.pointers,
      (p'.2.contact = w.recognizer.events ∧ p'.2.longPressEmitted = false) ∨
      ∃ p ∈ w.recognizer.pointers, p.2.contact = p'.2.contact ∧
        (if p'.2.longPressEmitted then 1 else 0) =
          (if p.2.longPressEmitted then 1 else 0) + tally (call.effect w.recognizer).2 p.2.contact)
    (hout : ∀ c, tally (call.effect w.recognizer).2 c ≠ 0 → ∃ p ∈ w.recognizer.pointers,
      p.2.contact = c ∧ p.2.longPressEmitted = false ∧
        tally (call.effect w.recognizer).2 c ≤ 1) : (w.next call).TapsOk := by
  have hmade : ∀ c, tally (w.next call).made c =
      tally w.made c + tally (call.effect w.recognizer).2 c := fun c => tally_append _
  have hlater : ∀ c, w.recognizer.events ≤ c → tally (w.next call).made c = 0 := by
    intro c hc
    have hzero : tally (call.effect w.recognizer).2 c = 0 := by
      by_contra hne
      obtain ⟨p, hp, rfl, -⟩ := hout c hne
      have := h.contact_lt hp
      omega
    rw [hmade, ht.later c hc, hzero]
  refine ⟨fun p' hp' => ?_, fun c => ?_, fun c hc => hlater c (Nat.le_of_succ_le hc)⟩
  · obtain ⟨hfresh, hflag⟩ | ⟨p, hp, hcontact, hcount⟩ := hpointers p' hp'
    · rw [hflag, hlater _ hfresh.ge]
      rfl
    · rw [hmade, ← hcontact, ht.held p hp, hcount]
  · rw [hmade]
    by_cases hzero : tally (call.effect w.recognizer).2 c = 0
    · rw [hzero]
      exact ht.single c
    · obtain ⟨p, hp, rfl, hflag, hle⟩ := hout c hzero
      have := ht.held p hp
      rw [hflag] at this
      simp only [Bool.false_eq_true, if_false] at this
      omega

lemma TapsOk.tick (ht : w.TapsOk) (h : w.Ok) (now : ℕ) : (w.next (.tick now)).TapsOk := by
  have hcount : ∀ p ∈ w.recognizer.pointers,
      tally (w.recognizer.tick now).2 p.2.contact =
        if w.recognizer.held now p.2 then 1 else 0 := by
    intro p hp
    rw [← countP_filter_key h.nodup_contacts (fun q => w.recognizer.held now q.2) hp]
    unfold tally GestureRecognizer.tick
    rw [List.countP_map]
    exact List.countP_congr fun q _ => by simp [RecognizedGesture.tapLike]
  refine ht.next_of h (fun p' hp' => ?_) (fun c hc => ?_)
  · obtain ⟨p, hp, rfl⟩ := List.mem_map.mp hp'
    refine .inr ⟨p, hp, by split_ifs <;> rfl, ?_⟩
    show _ = _ + tally (w.recognizer.tick now).2 p.2.contact
    rw [hcount p hp]
    by_cases hheld : w.recognizer.held now p.2 = true
    · have hflag : p.2.longPressEmitted = false := by
        have := of_decide_eq_true hheld
        simpa using this.1
      simp [hheld, hflag]
    · simp [hheld]
  · obtain ⟨m, hm, hmc⟩ := List.countP_pos_iff.mp (Nat.pos_of_ne_zero hc)
    obtain ⟨p, hp, rfl⟩ := List.mem_map.mp hm
    obtain ⟨hp, hheld⟩ := List.mem_filter.mp hp
    obtain ⟨rfl, -⟩ : p.2.contact = c ∧ _ := by simpa using hmc
    refine ⟨p, hp, rfl, ?_, ?_⟩
    · have := of_decide_eq_true hheld
      simpa using this.1
    · show tally (w.recognizer.tick now).2 p.2.contact ≤ 1
      rw [hcount p hp, if_pos hheld]

/-- A call that makes no tap and keeps, adds or drops pointers. -/
lemma TapsOk.next_quiet (ht : w.TapsOk) (h : w.Ok) {call : Call}
    (hpointers : ∀ p' ∈ (call.effect w.recognizer).1.pointers,
      (p'.2.contact = w.recognizer.events ∧ p'.2.longPressEmitted = false) ∨
      ∃ p ∈ w.recognizer.pointers, p.2.contact = p'.2.contact ∧
        p.2.longPressEmitted = p'.2.longPressEmitted)
    (hout : ∀ c, tally (call.effect w.recognizer).2 c = 0) : (w.next call).TapsOk := by
  refine ht.next_of h (fun p' hp' => ?_) (fun c hc => absurd (hout c) hc)
  obtain hfresh | ⟨p, hp, hcontact, hflag⟩ := hpointers p' hp'
  · exact .inl hfresh
  · exact .inr ⟨p, hp, hcontact, by rw [hout, hflag, Nat.add_zero]⟩

lemma pointers_feedBegan {g : GestureRecognizer} {t : TouchEvent} {p' : U32 × PointerState}
    (hp' : p' ∈ (g.feedBegan t).pointers) :
    (p'.2.contact = g.events ∧ p'.2.longPressEmitted = false) ∨ p' ∈ g.pointers := by
  unfold GestureRecognizer.feedBegan at hp'
  dsimp only at hp'
  split_ifs at hp' <;>
  · obtain rfl | hp := mem_insertPointer hp'
    · exact .inl ⟨rfl, rfl⟩
    · exact .inr hp

lemma pointers_feedMoved {g : GestureRecognizer} {t : TouchEvent} {p' : U32 × PointerState}
    (hp' : p' ∈ (g.feedMoved t).1.pointers) : ∃ p ∈ g.pointers, p.2.contact = p'.2.contact ∧
      p.2.longPressEmitted = p'.2.longPressEmitted := by
  unfold GestureRecognizer.feedMoved at hp'
  dsimp only at hp'
  split_ifs at hp' <;>
  · obtain ⟨p, hp, rfl⟩ := List.mem_map.mp hp'
    exact ⟨p, hp, by split_ifs <;> rfl, by split_ifs <;> rfl⟩

/-- Two fingers make no tap. -/
lemma tally_feedMoved {g : GestureRecognizer} {t : TouchEvent} (c : ℕ) :
    tally (g.feedMoved t).2 c = 0 := by
  refine List.countP_eq_zero.mpr fun m hm => ?_
  unfold GestureRecognizer.feedMoved at hm
  dsimp only at hm
  split_ifs at hm
  · obtain ⟨gesture, hgesture, rfl⟩ : ∃ gesture, (g.pairBaseline.bind fun b =>
        GestureRecognizer.detectPinchRotate _ b) = some gesture ∧ _ := by
      simpa only [Option.mem_toList, Option.mem_def, Option.map_eq_some_iff] using hm
    obtain ⟨b, -, hb⟩ := Option.bind_eq_some_iff.mp hgesture
    unfold GestureRecognizer.detectPinchRotate at hb
    split at hb
    · dsimp only at hb
      split_ifs at hb <;> cases hb <;> simp [RecognizedGesture.tapLike]
    · cases hb
  · exact absurd hm List.not_mem_nil

/-- A pointer that was not down is taken away. -/
lemma feedLifted_none {g : GestureRecognizer} {t : TouchEvent}
    (hfind : (g.pointers.find? fun p => p.1 = t.pointerId) = none) :
    (g.feedLifted t).1.pointers = g.pointers ∧ (g.feedLifted t).2 = [] := by
  unfold GestureRecognizer.feedLifted
  rw [hfind]
  dsimp only
  split_ifs <;> exact ⟨rfl, rfl⟩

/-- A pointer that was down is taken away. -/
lemma feedLifted_some {g : GestureRecognizer} {t : TouchEvent} {found : U32 × PointerState}
    (hfind : (g.pointers.find? fun p => p.1 = t.pointerId) = some found) :
    (g.feedLifted t).1.pointers = g.pointers.filter (fun p => p.1 ≠ t.pointerId) ∧
      (∀ c, tally (g.feedLifted t).2 c ≤
        if found.2.contact = c ∧ found.2.longPressEmitted = false then 1 else 0) := by
  have htally (g' : GestureRecognizer) (c : ℕ) :
      tally ((g'.finishPointer found.2 t).2.map fun gesture => (found.2.contact, gesture)) c ≤
        if found.2.contact = c ∧ found.2.longPressEmitted = false then 1 else 0 := by
    rw [tally_map]
    have := @GestureRecognizer.countP_finishPointer g' found.2 t
    by_cases hc : found.2.contact = c
    · cases hflag : found.2.longPressEmitted <;> simp_all
    · simp [hc]
  unfold GestureRecognizer.feedLifted
  rw [hfind]
  dsimp only
  split_ifs
  · exact ⟨rfl, fun c => htally _ c⟩
  · exact ⟨rfl, fun c => htally _ c⟩
  · exact ⟨rfl, fun c => Nat.zero_le _⟩
  · exact ⟨rfl, fun c => Nat.zero_le _⟩

lemma TapsOk.lifted (ht : w.TapsOk) (h : w.Ok) {call : Call} {t : TouchEvent}
    (hcall : call.effect w.recognizer = w.recognizer.feedLifted t) : (w.next call).TapsOk := by
  cases hfind : w.recognizer.pointers.find? fun p => p.1 = t.pointerId with
  | none =>
    obtain ⟨hpointers, hout⟩ := feedLifted_none hfind
    refine ht.next_quiet h (fun p' hp' => .inr ⟨p', ?_, rfl, rfl⟩) fun c => ?_
    · rwa [hcall, hpointers] at hp'
    · rw [hcall, hout, tally_nil]
  | some found =>
    obtain ⟨hpointers, hout⟩ := feedLifted_some hfind
    have hfound : found ∈ w.recognizer.pointers := List.mem_of_find?_eq_some hfind
    have hid : found.1 = t.pointerId := by simpa using List.find?_some hfind
    rw [← hcall] at hpointers hout
    refine ht.next_of h (fun p' hp' => ?_) (fun c hc => ?_)
    · rw [hpointers] at hp'
      obtain ⟨hp', hne⟩ := List.mem_filter.mp hp'
      have hother : found.2.contact ≠ p'.2.contact := by
        intro heq
        have : found = p' := List.inj_on_of_nodup_map h.nodup_contacts hfound hp' heq
        simp [← this, hid] at hne
      have hzero := hout p'.2.contact
      rw [if_neg fun h => hother h.1] at hzero
      exact .inr ⟨p', hp', rfl, by omega⟩
    · have hle := hout c
      split_ifs at hle with hcase
      · exact ⟨found, hfound, hcase.1, hcase.2, hle⟩
      · omega

lemma TapsOk.next (ht : w.TapsOk) (h : w.Ok) (call : Call) : (w.next call).TapsOk := by
  cases call with
  | tick now => exact ht.tick h now
  | reset => exact ht.next_quiet h (fun _ hp => absurd hp List.not_mem_nil) fun _ => rfl
  | feed event =>
    cases htouch : event.asTouch with
    | none =>
      have heffect : Call.effect w.recognizer (.feed event) = (w.recognizer, []) := by
        simp only [Call.effect, GestureRecognizer.feed, htouch]
      refine ht.next_quiet h (fun p' hp' => .inr ⟨p', ?_, rfl, rfl⟩) fun c => ?_
      · rwa [heffect] at hp'
      · rw [heffect, tally_nil]
    | some t =>
      have heffect : Call.effect w.recognizer (.feed event) = w.recognizer.feedTouch t := by
        simp only [Call.effect, GestureRecognizer.feed, htouch]
      cases hphase : t.phase with
      | began =>
        simp only [GestureRecognizer.feedTouch, hphase] at heffect
        refine ht.next_quiet h (fun p' hp' => ?_) fun c => ?_
        · rw [heffect] at hp'
          exact (pointers_feedBegan hp').imp_right fun hp => ⟨p', hp, rfl, rfl⟩
        · rw [heffect, tally_nil]
      | moved =>
        simp only [GestureRecognizer.feedTouch, hphase] at heffect
        refine ht.next_quiet h (fun p' hp' => ?_) fun c => ?_
        · rw [heffect] at hp'
          exact .inr (pointers_feedMoved hp')
        · rw [heffect, tally_feedMoved]
      | ended =>
        simp only [GestureRecognizer.feedTouch, hphase] at heffect
        exact ht.lifted h heffect
      | cancelled =>
        simp only [GestureRecognizer.feedTouch, hphase] at heffect
        exact ht.lifted h heffect

lemma run_invariant (hok : w.Ok) (ht : w.TapsOk) (calls : List Call) :
    (w.run calls).Ok ∧ (w.run calls).TapsOk := by
  induction calls generalizing w with
  | nil => exact ⟨hok, ht⟩
  | cons call calls ih => exact ih (hok.next call) (ht.next hok call)

/-- In every run a contact makes at most one tap or long press; a pair always has the baseline that
was taken when it became the one that is down, exactly where no pointer is taken away while three
are down; and it has the one that was taken from its two pointers when the later one came down,
exactly where a pointer that is taken away while three are down leaves the two of the last
baseline. -/
theorem run_gestures_iff (config : GestureConfig) (bounds : ScreenBounds) (calls : List Call) :
    ((start config bounds).run calls).SingleTaps ∧
    (Along next (fun w call => (w.next call).Fresh) (start config bounds) calls ↔
      Along next NoLiftOfThree (start config bounds) calls) ∧
    (Along next (fun w call => (w.next call).Kept) (start config bounds) calls ↔
      Along next LeavesPair (start config bounds) calls) := by
  have hok := ok_start config bounds
  have hnone : (start config bounds).down.length ≠ 2 := by simp [start]
  refine ⟨(run_invariant hok (tapsOk_start config bounds) calls).2.single, ?_, ?_⟩
  · refine @along_iff_along _ _ next _ _ (fun w => w.Ok ∧ w.Fresh)
      (fun w call h hq => ⟨h.1.next call, (h.1.fresh_next_iff h.2 call).mpr hq⟩)
      (fun w call h => h.1.fresh_next_iff h.2 call) _ ⟨hok, fun h => absurd h hnone⟩ calls
  · refine @along_iff_along _ _ next _ _ (fun w => w.Ok ∧ w.Kept)
      (fun w call h hq => ⟨h.1.next call, (h.1.kept_next_iff h.2 call).mpr hq⟩)
      (fun w call h => h.1.kept_next_iff h.2 call) _ ⟨hok, fun h => absurd h hnone⟩ calls

/-- A touch that begins or ends at `x`. -/
def touchAt (id : U32) (phase : TouchPhase) (x : Float32) (timestamp : ℕ) : Call :=
  .feed (.touch { pointerId := id, phase, position := ⟨x, 0.0⟩, timestamp })

/-- Three fingers come down and the second goes up: the baseline is the one of the first two. -/
theorem not_kept : ¬ ∀ calls : List Call,
    ((start {} ⟨1920.0, 1080.0⟩).run calls).Kept := by
  intro h
  obtain ⟨b, hb, hcontacts, -⟩ := h [touchAt 1 .began 100.0 0, touchAt 2 .began 200.0 1,
    touchAt 3 .began 300.0 2, touchAt 2 .ended 200.0 3000] rfl
  obtain rfl : _ = b := Option.some.inj hb
  exact absurd hcontacts (by decide)

end Watched

end Orchid.Input
