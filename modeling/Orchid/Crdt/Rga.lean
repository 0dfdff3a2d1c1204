import Orchid.Base.Machine
import Orchid.Lib.KeyedMap
import Mathlib.Data.Prod.Lex

/-!
# The text CRDT

The operation log, the local edits, the delivery of remote operations and the materialized text.
`BTreeMap<OpId, Op>` is a `KeyedMap`: the only insertion puts an operation under its own id. A
`CrdtDocument` carries two facts that hold of every document the code can build: no operation of
an actor is numbered above that actor's counter, and none is stamped above the Lamport clock.
-/

namespace Orchid.Crdt

open Orchid.Lib

/-! ### Operations -/

/-- Logical writer identity. -/
abbrev ActorId := U64

/-- Operation id: actor and per-actor counter. -/
structure OpId where
  actor : ActorId
  counter : U64
deriving DecidableEq, Repr

/-- The derived `Ord`: by actor, then by counter. -/
instance : LinearOrder OpId :=
  LinearOrder.lift' (fun id => toLex (id.actor, id.counter)) fun a b h => by
    obtain ⟨_, _⟩ := a
    obtain ⟨_, _⟩ := b
    simpa using h

/-- One CRDT operation. -/
inductive Op where
  | insert (id : OpId) (lamport : U64) (after : Option OpId) (text : Text)
  | delete (id : OpId) (lamport : U64) (target : OpId)
deriving DecidableEq, Repr

namespace Op

/-- Operation id. -/
def id : Op → OpId
  | .insert id _ _ _ => id
  | .delete id _ _ => id

/-- Lamport timestamp. -/
def lamport : Op → U64
  | .insert _ lamport _ _ => lamport
  | .delete _ lamport _ => lamport

@[simp] lemma id_insert (i : OpId) (l : U64) (a : Option OpId) (t : Text) :
    (insert i l a t).id = i := rfl

@[simp] lemma id_delete (i : OpId) (l : U64) (t : OpId) : (delete i l t).id = i := rfl

@[simp] lemma lamport_insert (i : OpId) (l : U64) (a : Option OpId) (t : Text) :
    (insert i l a t).lamport = l := rfl

@[simp] lemma lamport_delete (i : OpId) (l : U64) (t : OpId) : (delete i l t).lamport = l := rfl

end Op

/-! ### Documents -/

/-- Operation log with per-actor counters and the highest Lamport stamp seen. An actor without
an entry in the counter map reads as `0`. -/
structure CrdtDocument where
  ops : KeyedMap Op.id
  nextCounter : ActorId → U64
  lamport : U64
  counter_le : ∀ op ∈ ops, op.id.counter ≤ nextCounter op.id.actor
  lamport_le : ∀ op ∈ ops, op.lamport ≤ lamport

namespace CrdtDocument

/-- Empty document. -/
def new : CrdtDocument where
  ops := .empty
  nextCounter _ := 0
  lamport := 0
  counter_le := by simp
  lamport_le := by simp

/-- Raise the counter of one actor. -/
def setCounter (d : CrdtDocument) (actor : ActorId) (c : U64) (h : d.nextCounter actor ≤ c) :
    CrdtDocument where
  ops := d.ops
  nextCounter := Function.update d.nextCounter actor c
  lamport := d.lamport
  counter_le op hop := by
    rcases eq_or_ne op.id.actor actor with rfl | hne
    · rw [Function.update_self]
      exact (d.counter_le op hop).trans h
    · rw [Function.update_of_ne hne]
      exact d.counter_le op hop
  lamport_le := d.lamport_le

/-- Raise the Lamport clock. -/
def setLamport (d : CrdtDocument) (l : U64) (h : d.lamport ≤ l) : CrdtDocument where
  ops := d.ops
  nextCounter := d.nextCounter
  lamport := l
  counter_le := d.counter_le
  lamport_le op hop := (d.lamport_le op hop).trans h

/-- Allocate the next id of `actor`; no result when the counter overflows. -/
def nextId (d : CrdtDocument) (actor : ActorId) : Option (OpId × CrdtDocument) :=
  match h : U64.succ? (d.nextCounter actor) with
  | none => none
  | some c => some (⟨actor, c⟩, d.setCounter actor c (U64.lt_of_succ? h).le)

/-- Advance the Lamport clock past `observed`; no result when it overflows. -/
def bumpLamport (d : CrdtDocument) (observed : U64) : Option (U64 × CrdtDocument) :=
  match h : U64.succ? (max d.lamport observed) with
  | none => none
  | some l => some (l, d.setLamport l ((le_max_left _ _).trans (U64.lt_of_succ? h).le))

/-- Integrate an operation; one whose id is known is ignored. -/
def applyOp (d : CrdtDocument) (op : Op) : CrdtDocument :=
  if h : d.ops.contains op.id = true then d
  else
    { ops := d.ops.insert op
      nextCounter := Function.update d.nextCounter op.id.actor
        (max (d.nextCounter op.id.actor) op.id.counter)
      lamport := max d.lamport op.lamport
      counter_le := by
        intro o ho
        rcases (KeyedMap.mem_insert d.ops op o (by simpa using h)).mp ho with rfl | ho
        · simp
        · rcases eq_or_ne o.id.actor op.id.actor with heq | hne
          · rw [heq, Function.update_self]
            exact (heq ▸ d.counter_le o ho).trans (le_max_left _ _)
          · rw [Function.update_of_ne hne]
            exact d.counter_le o ho
      lamport_le := by
        intro o ho
        rcases (KeyedMap.mem_insert d.ops op o (by simpa using h)).mp ho with rfl | ho
        · exact le_max_right _ _
        · exact (d.lamport_le o ho).trans (le_max_left _ _) }

/-- Insert `text` after `after` (`none` = beginning) as `actor`. -/
def localInsert (d : CrdtDocument) (actor : ActorId) (after : Option OpId) (text : Text) :
    Option (OpId × CrdtDocument) := do
  let (id, d) ← d.nextId actor
  let (lamport, d) ← d.bumpLamport 0
  return (id, d.applyOp (.insert id lamport after text))

/-- Delete the insert `target` as `actor`. -/
def localDelete (d : CrdtDocument) (actor : ActorId) (target : OpId) :
    Option (OpId × CrdtDocument) := do
  let (id, d) ← d.nextId actor
  let (lamport, d) ← d.bumpLamport 0
  return (id, d.applyOp (.delete id lamport target))

/-- Integrate every operation of another document, in id order. -/
def merge (d other : CrdtDocument) : CrdtDocument := other.ops.toList.foldl applyOp d

/-! ### Materialization -/

/-- Targets of the delete operations. -/
def deleted (ops : KeyedMap Op.id) : List OpId :=
  ops.toList.filterMap fun
    | .delete _ _ target => some target
    | .insert .. => none

/-- The insert that an operation puts under `parent`. -/
def childUnder (parent : Option OpId) : Op → Option OpId
  | .insert id _ after _ => if after = parent then some id else none
  | .delete .. => none

/-- Inserts hanging under `parent`. The log is in id order, so this is the sorted set that the
code groups under `parent`. -/
def children (ops : KeyedMap Op.id) (parent : Option OpId) : List OpId :=
  ops.toList.filterMap (childUnder parent)

/-- The recursive walk, to a nesting depth of `fuel`. -/
def walk (ops : KeyedMap Op.id) : ℕ → Option OpId → Text
  | 0, _ => []
  | fuel + 1, id =>
    (children ops id).flatMap fun child =>
      match ops.find? child with
      | some (.insert _ _ _ text) =>
        -- a deleted insert is descended into, so that what hangs under it stays reachable
        (if child ∈ deleted ops then [] else text) ++ walk ops fuel (some child)
      | _ => []

/-- Visible text. No path of the walk is longer than the log (`walk_stable`). -/
def materialize (d : CrdtDocument) : Text := walk d.ops d.ops.toList.length none

end CrdtDocument

end Orchid.Crdt
