import Mathlib.Logic.Function.Basic
import Orchid.Format.Framing
import Orchid.Lib.ByteText

/-!
# The vector index and its snapshot

The vectors of documents by their paths, and the file that they are written to and read from.
-/

namespace Orchid.Search

open Lib Format

/-- The errors of an `AnnIndex`. -/
inductive AnnError
  | width (found expected : ℕ)
  | io
  | magic
  | dims (found expected : ℕ)
  | truncated
  | utf8
deriving DecidableEq

/-- `Vec<f32>` -/
abbrev Vector := List F32

/-- The map of an `AnnIndex`, from paths to vectors. -/
abbrev Vectors := Text → Option Vector

/-- `AnnIndex::new` -/
def Vectors.empty : Vectors := fun _ => none

/-- A row stored in the map. -/
def Vectors.store (vs : Vectors) (row : Text × Vector) : Vectors :=
  Function.update vs row.1 (some row.2)

/-- `AnnIndex::upsert` of an index for vectors of width `dims` -/
def Vectors.upsert (dims : ℕ) (vs : Vectors) (path : Text) (v : Vector) : Except AnnError Vectors :=
  if v.length ≠ dims then .error (.width v.length dims)
  else .ok (vs.store (path, v))

/-- `AnnIndex::remove` -/
def Vectors.remove (vs : Vectors) (path : Text) : Vectors := Function.update vs path none

/-! ### The snapshot -/

/-- `ORANN001` -/
def annMagic : Bytes := [0x4f, 0x52, 0x41, 0x4e, 0x4e, 0x30, 0x30, 0x31]

/-- `f32::to_le_bytes` -/
def f32Bytes (f : F32) : Bytes := le 4 f.toNat

/-- One path with its vector. -/
def entryBytes (row : Text × Vector) : Bytes :=
  le 4 (utf8Bytes row.1).length ++ (utf8Bytes row.1 ++ row.2.flatMap f32Bytes)

/-- What `AnnIndex::persist` writes, for the rows of the map in the order of an iteration. -/
def persistBytes (dims : ℕ) (rows : List (Text × Vector)) : Bytes :=
  annMagic ++ (le 4 dims ++ (le 4 rows.length ++ rows.flatMap entryBytes))

/-- The next floats of a snapshot. -/
def readFloats : ℕ → Bytes → Vector
  | 0, _ => []
  | n + 1, data => BitVec.ofNat 32 (ofLe (data.take 4)) :: readFloats n (data.drop 4)

/-- The loop of `AnnIndex::load` -/
def loadEntries (dims : ℕ) : ℕ → Bytes → Vectors → Except AnnError Vectors
  | 0, _, vs => .ok vs
  | n + 1, data, vs =>
    if data.length < 4 then .error .truncated
    else
      let klen := ofLe (data.take 4)
      let data := data.drop 4
      if data.length < klen + dims * 4 then .error .truncated
      else
        match utf8Text (data.take klen) with
        | none => .error .utf8
        | some key => do
          let vs ← vs.upsert dims key (readFloats dims (data.drop klen))
          loadEntries dims n (data.drop (klen + dims * 4)) vs

/-- `AnnIndex::load` -/
def load (file : Option Bytes) (expectedDims : ℕ) : Except AnnError Vectors :=
  match file with
  | none => .error .io
  | some data =>
    if data.length < 16 ∨ data.take 8 ≠ annMagic then .error .magic
    else
      let dims := ofLe ((data.drop 8).take 4)
      if dims ≠ expectedDims then .error (.dims dims expectedDims)
      else loadEntries dims (ofLe ((data.drop 12).take 4)) (data.drop 16) .empty

/-- The rows of a map, in some order. -/
structure Enumerates (rows : List (Text × Vector)) (vs : Vectors) : Prop where
  nodup : (rows.map Prod.fst).Nodup
  mem_iff : ∀ p v, (p, v) ∈ rows ↔ vs p = some v

/-- The numbers of the rows fit into the fields of a snapshot. -/
def RowsFit (dims : ℕ) (rows : List (Text × Vector)) : Prop :=
  dims < 2 ^ 32 ∧ rows.length < 2 ^ 32 ∧ ∀ row ∈ rows, (utf8Bytes row.1).length < 2 ^ 32

instance (dims : ℕ) (rows : List (Text × Vector)) : Decidable (RowsFit dims rows) :=
  inferInstanceAs (Decidable (_ ∧ _ ∧ _))

/-! ### A snapshot is read back -/

lemma length_f32Bytes (f : F32) : (f32Bytes f).length = 4 := length_le 4 f.toNat

lemma length_flatMap_f32Bytes (v : Vector) : (v.flatMap f32Bytes).length = v.length * 4 := by
  induction v with
  | nil => rfl
  | cons f v ih =>
    rw [List.flatMap_cons, List.length_append, ih, length_f32Bytes, List.length_cons]
    omega

lemma readFloats_flatMap (v : Vector) (rest : Bytes) :
    readFloats v.length (v.flatMap f32Bytes ++ rest) = v := by
  induction v with
  | nil => rfl
  | cons f v ih =>
    rw [List.flatMap_cons, List.append_assoc, List.length_cons, readFloats,
      List.take_left' (length_f32Bytes f), List.drop_left' (length_f32Bytes f), ih, f32Bytes,
      ofLe_le_of_lt f.isLt, BitVec.ofNat_toNat, BitVec.setWidth_eq]

lemma loadEntries_flatMap {dims : ℕ} {rows : List (Text × Vector)}
    (hpaths : ∀ row ∈ rows, (utf8Bytes row.1).length < 2 ^ 32)
    (hdims : ∀ row ∈ rows, row.2.length = dims) (rest : Bytes) (vs : Vectors) :
    loadEntries dims rows.length (rows.flatMap entryBytes ++ rest) vs =
      .ok (rows.foldl Vectors.store vs) := by
  induction rows generalizing vs with
  | nil => rfl
  | cons row rows ih =>
    have hkey := hpaths row List.mem_cons_self
    have hwidth := hdims row List.mem_cons_self
    have hfloats : (row.2.flatMap f32Bytes).length = dims * 4 := by
      rw [length_flatMap_f32Bytes, hwidth]
    have hdata : (row :: rows).flatMap entryBytes ++ rest = le 4 (utf8Bytes row.1).length ++
        (utf8Bytes row.1 ++ (row.2.flatMap f32Bytes ++ (rows.flatMap entryBytes ++ rest))) := by
      simp only [List.flatMap_cons, entryBytes, List.append_assoc]
    have hklen : ofLe (le 4 (utf8Bytes row.1).length) = (utf8Bytes row.1).length :=
      ofLe_le_of_lt hkey
    have hlong : ¬ (le 4 (utf8Bytes row.1).length ++ (utf8Bytes row.1 ++
        (row.2.flatMap f32Bytes ++ (rows.flatMap entryBytes ++ rest)))).length < 4 := by
      rw [List.length_append, length_le]
      omega
    have hshort : ¬ (utf8Bytes row.1 ++ (row.2.flatMap f32Bytes ++
        (rows.flatMap entryBytes ++ rest))).length < (utf8Bytes row.1).length + dims * 4 := by
      rw [List.length_append, List.length_append, hfloats]
      omega
    rw [hdata, List.length_cons, loadEntries, if_neg hlong]
    dsimp only
    rw [List.take_left' (length_le 4 _), List.drop_left' (length_le 4 _), hklen, if_neg hshort,
      List.take_left, utf8Text_utf8Bytes]
    dsimp only
    rw [List.drop_left, ← List.append_assoc (utf8Bytes row.1) (row.2.flatMap f32Bytes),
      List.drop_left' (by rw [List.length_append, hfloats])]
    have hread : readFloats dims (row.2.flatMap f32Bytes ++ (rows.flatMap entryBytes ++ rest)) =
        row.2 := by
      rw [← hwidth]
      exact readFloats_flatMap row.2 _
    rw [hread, Vectors.upsert, if_neg (not_not.mpr hwidth)]
    exact ih (fun row h => hpaths row (List.mem_cons_of_mem _ h))
      (fun row h => hdims row (List.mem_cons_of_mem _ h)) _

lemma foldl_store_of_notMem {rows : List (Text × Vector)} {p : Text}
    (h : p ∉ rows.map Prod.fst) (vs : Vectors) :
    rows.foldl Vectors.store vs p = vs p := by
  induction rows generalizing vs with
  | nil => rfl
  | cons row rows ih =>
    obtain ⟨hne, hrest⟩ := not_or.mp (List.mem_cons.not.mp h)
    rw [List.foldl_cons, ih hrest, Vectors.store, Function.update_of_ne hne]

/-- Storing the rows of a map gives the map back. -/
lemma Enumerates.foldl {rows : List (Text × Vector)} {vs : Vectors} (h : Enumerates rows vs) :
    rows.foldl Vectors.store .empty = vs := by
  have key : ∀ (rows : List (Text × Vector)) (start : Vectors), (rows.map Prod.fst).Nodup →
      ∀ p v, (p, v) ∈ rows →
        rows.foldl Vectors.store start p = some v := by
    intro rows
    induction rows with
    | nil => intro _ _ _ _ hmem; cases hmem
    | cons row rows ih =>
      intro start hnodup p v hmem
      obtain ⟨hnew, hnodup⟩ := List.nodup_cons.mp hnodup
      rcases List.mem_cons.mp hmem with rfl | hmem
      · rw [List.foldl_cons, foldl_store_of_notMem hnew, Vectors.store,
          Function.update_self]
      · exact ih _ hnodup p v hmem
  funext p
  cases hp : vs p with
  | some v => exact key rows _ h.nodup p v ((h.mem_iff p v).mpr hp)
  | none =>
    refine foldl_store_of_notMem (fun hmem => ?_) _
    obtain ⟨row, hrow, rfl⟩ := List.mem_map.mp hmem
    rw [(h.mem_iff row.1 row.2).mp hrow] at hp
    cases hp

/-- A snapshot that was written completely is read back. -/
lemma load_persistBytes {dims : ℕ} {rows : List (Text × Vector)} {vs : Vectors}
    (h : Enumerates rows vs) (hfit : RowsFit dims rows)
    (hdims : ∀ p v, vs p = some v → v.length = dims) :
    load (some (persistBytes dims rows)) dims = .ok vs := by
  have hmagic : annMagic.length = 8 := rfl
  have hlen : ¬ ((persistBytes dims rows).length < 16 ∨
      (persistBytes dims rows).take 8 ≠ annMagic) := by
    rw [persistBytes, List.take_left' hmagic, List.length_append, List.length_append,
      List.length_append, length_le, length_le, hmagic]
    exact not_or.mpr ⟨by omega, not_not.mpr rfl⟩
  have hwidth : ofLe (((persistBytes dims rows).drop 8).take 4) = dims := by
    rw [persistBytes, List.drop_left' hmagic, List.take_left' (length_le 4 dims)]
    exact ofLe_le_of_lt hfit.1
  have hcount : ofLe (((persistBytes dims rows).drop 12).take 4) = rows.length := by
    rw [persistBytes, ← List.append_assoc, List.drop_left' (by
      rw [List.length_append, length_le, hmagic]), List.take_left' (length_le 4 rows.length)]
    exact ofLe_le_of_lt hfit.2.1
  have hrest : (persistBytes dims rows).drop 16 = rows.flatMap entryBytes := by
    rw [persistBytes, ← List.append_assoc, ← List.append_assoc, List.drop_left' (by
      rw [List.length_append, List.length_append, length_le, length_le, hmagic])]
  have hentries := loadEntries_flatMap hfit.2.2
    (fun row hrow => hdims row.1 row.2 ((h.mem_iff row.1 row.2).mp hrow)) [] .empty
  rw [List.append_nil, h.foldl] at hentries
  rw [load]
  dsimp only
  rw [if_neg hlen, hwidth, if_neg (not_not.mpr rfl), hcount, hrest, hentries]

end Orchid.Search
