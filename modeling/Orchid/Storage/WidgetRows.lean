import Mathlib.Data.List.Nodup
import Orchid.Base.Text
import Orchid.Lib.ByteText
import Orchid.Lib.Varint

/-!
# Widget rows

The bytes of a widget instance in the state database, before and after the placement was added to
it, and the readers of both.
-/

namespace Orchid.Storage

open Lib

/-! ### Instances -/

/-- The bytes of a `Uuid`. -/
abbrev UuidBytes := {bytes : Bytes // bytes.length = 16}

structure PixelRect where
  x : F32
  y : F32
  width : F32
  height : F32
deriving DecidableEq

inductive WindowState
  | normal
  | maximized
  | minimized
deriving DecidableEq

inductive WindowPlacement
  | grid
  | floating (bounds restoredBounds : PixelRect) (state : WindowState)
deriving DecidableEq

structure GridPosition where
  col : U16
  row : U16
deriving DecidableEq

inductive WidgetSize
  | small
  | medium
  | large
  | extraLarge
  | free (w h : U16)
deriving DecidableEq

inductive LifecycleState
  | active
  | sleeping
  | unloaded
deriving DecidableEq

/-- The fields that stand in front of the placement. -/
structure Front where
  id : UuidBytes
  widgetType : Text
  workspaceId : UuidBytes
  position : GridPosition
  size : WidgetSize
  lifecycle : LifecycleState
deriving DecidableEq

/-- The fields that stand behind it; `T` are the points in time. -/
structure Back (T : Type) where
  config : Bytes
  createdAt : T
  updatedAt : T
deriving DecidableEq

/-- `WidgetInstanceV1` -/
structure WidgetInstanceV1 (T : Type) where
  front : Front
  back : Back T
deriving DecidableEq

structure WidgetInstance (T : Type) where
  front : Front
  placement : WindowPlacement
  back : Back T
deriving DecidableEq

/-- The string form of points in time: it is read back, ends with `Z`, and has at least the digits
of a date and a time. No string that is read has one of the first three control characters, and
only white space stands behind a `Z` in one. -/
structure Chrono (T : Type) where
  written : T → Bytes
  parse : Bytes → Option T
  parse_written : ∀ t, parse (written t) = some t
  length_written : ∀ t, 20 ≤ (written t).length ∧ (written t).length < 2 ^ 64
  getLast?_written : ∀ t, (written t).getLast? = some 0x5a
  le_of_parse : ∀ {s t}, parse s = some t → ∀ b ∈ s, 3 ≤ b.val
  space_of_parse : ∀ {front back t}, parse (front ++ 0x5a :: back) = some t →
    ∃ ws, back = utf8Bytes ws ∧ ∀ c ∈ ws, isWhitespace c = true

/-! ### Encoding -/

/-- A slice behind its length. -/
def encodeSlice (bytes : Bytes) : Bytes := varint bytes.length ++ bytes

def encodeF32 (f : F32) : Bytes := le 4 f.toNat

def encodeRect (r : PixelRect) : Bytes :=
  encodeF32 r.x ++ (encodeF32 r.y ++ (encodeF32 r.width ++ encodeF32 r.height))

def encodeWindowState : WindowState → Bytes
  | .normal => varint 0
  | .maximized => varint 1
  | .minimized => varint 2

def encodePlacement : WindowPlacement → Bytes
  | .grid => varint 0
  | .floating bounds restoredBounds state =>
    varint 1 ++ (encodeRect bounds ++ (encodeRect restoredBounds ++ encodeWindowState state))

def encodePosition (p : GridPosition) : Bytes := varint p.col ++ varint p.row

def encodeSize : WidgetSize → Bytes
  | .small => varint 0
  | .medium => varint 1
  | .large => varint 2
  | .extraLarge => varint 3
  | .free w h => varint 4 ++ (varint w ++ varint h)

def encodeLifecycle : LifecycleState → Bytes
  | .active => varint 0
  | .sleeping => varint 1
  | .unloaded => varint 2

def encodeFront (f : Front) : Bytes :=
  encodeSlice f.id ++ (encodeSlice (utf8Bytes f.widgetType) ++ (encodeSlice f.workspaceId ++
    (encodePosition f.position ++ (encodeSize f.size ++ encodeLifecycle f.lifecycle))))

section Clock

variable {T : Type} (k : Chrono T)

def encodeBack (b : Back T) : Bytes :=
  encodeSlice b.config ++
    (encodeSlice (k.written b.createdAt) ++ encodeSlice (k.written b.updatedAt))

def encodeV1 (x : WidgetInstanceV1 T) : Bytes := encodeFront x.front ++ encodeBack k x.back

/-- `bincode_encode` of a widget instance -/
def encodeV2 (x : WidgetInstance T) : Bytes :=
  encodeFront x.front ++ (encodePlacement x.placement ++ encodeBack k x.back)

end Clock

/-! ### Decoding -/

inductive DecodeError
  | unexpectedEnd
  | invalidIntegerType
  | unexpectedVariant (found : ℕ)
  | utf8
  | custom
deriving DecidableEq

abbrev Reader := Parser U8 DecodeError

/-- A number of at most `w` bytes. -/
def decodeNumber (w : ℕ) : Reader ℕ := readVarint w .unexpectedEnd .invalidIntegerType

def decodeSlice : Reader Bytes := do
  let len ← decodeNumber 8
  Parser.take len .unexpectedEnd

def decodeString : Reader Text := do
  let bytes ← decodeSlice
  Parser.expect (utf8Text bytes) .utf8

def decodeUuid : Reader UuidBytes := do
  let bytes ← decodeSlice
  if h : bytes.length = 16 then return ⟨bytes, h⟩ else throw .custom

def decodeU16 : Reader U16 := do
  let n ← decodeNumber 2
  return Fin.ofNat (2 ^ 16) n

def decodeF32 : Reader F32 := do
  let bytes ← Parser.take 4 .unexpectedEnd
  return BitVec.ofNat 32 (ofLe bytes)

def decodeRect : Reader PixelRect := do
  let x ← decodeF32
  let y ← decodeF32
  let width ← decodeF32
  let height ← decodeF32
  return ⟨x, y, width, height⟩

def decodeWindowState : Reader WindowState := do
  match ← decodeNumber 4 with
  | 0 => return .normal
  | 1 => return .maximized
  | 2 => return .minimized
  | n => throw (.unexpectedVariant n)

def decodePlacement : Reader WindowPlacement := do
  match ← decodeNumber 4 with
  | 0 => return .grid
  | 1 => do
    let bounds ← decodeRect
    let restoredBounds ← decodeRect
    let state ← decodeWindowState
    return .floating bounds restoredBounds state
  | n => throw (.unexpectedVariant n)

def decodePosition : Reader GridPosition := do
  let col ← decodeU16
  let row ← decodeU16
  return ⟨col, row⟩

def decodeSize : Reader WidgetSize := do
  match ← decodeNumber 4 with
  | 0 => return .small
  | 1 => return .medium
  | 2 => return .large
  | 3 => return .extraLarge
  | 4 => do
    let w ← decodeU16
    let h ← decodeU16
    return .free w h
  | n => throw (.unexpectedVariant n)

def decodeLifecycle : Reader LifecycleState := do
  match ← decodeNumber 4 with
  | 0 => return .active
  | 1 => return .sleeping
  | 2 => return .unloaded
  | n => throw (.unexpectedVariant n)

def decodeFront : Reader Front := do
  let id ← decodeUuid
  let widgetType ← decodeString
  let workspaceId ← decodeUuid
  let position ← decodePosition
  let size ← decodeSize
  let lifecycle ← decodeLifecycle
  return ⟨id, widgetType, workspaceId, position, size, lifecycle⟩

section Clock

variable {T : Type} (k : Chrono T)

def decodeTime : Reader T := do
  let bytes ← decodeSlice
  Parser.expect (k.parse bytes) .custom

def decodeBack : Reader (Back T) := do
  let config ← decodeSlice
  let createdAt ← decodeTime k
  let updatedAt ← decodeTime k
  return ⟨config, createdAt, updatedAt⟩

/-- `decode_from_slice::<WidgetInstanceV1>`, with the bytes that are left -/
def decodeV1 : Reader (WidgetInstanceV1 T) := do
  let front ← decodeFront
  let back ← decodeBack k
  return ⟨front, back⟩

/-- `decode_from_slice::<WidgetInstance>` -/
def decodeV2 : Reader (WidgetInstance T) := do
  let front ← decodeFront
  let placement ← decodePlacement
  let back ← decodeBack k
  return ⟨front, placement, back⟩

end Clock

/-! ### What was encoded is decoded -/

/-- The lengths of the slices of an instance fit into 64 bits. -/
structure Fits {T : Type} (f : Front) (b : Back T) : Prop where
  widgetType : (utf8Bytes f.widgetType).length < 2 ^ 64
  config : b.config.length < 2 ^ 64

open Parser

lemma reads_number {w n : ℕ} (hw : w = 2 ∨ w = 4 ∨ w = 8) (hn : n < (2 ^ 8) ^ w) :
    Reads (decodeNumber w) n (varint n) := reads_varint hw hn

lemma reads_slice (bytes : Bytes) (h : bytes.length < 2 ^ 64) :
    Reads decodeSlice bytes (encodeSlice bytes) :=
  (reads_number (.inr (.inr rfl)) h).bind (reads_take rfl)

lemma reads_string {t : Text} (h : (utf8Bytes t).length < 2 ^ 64) :
    Reads decodeString t (encodeSlice (utf8Bytes t)) := by
  have hbind := (reads_slice _ h).bind (q := fun bytes => expect (utf8Text bytes) DecodeError.utf8)
    (y := t) (b := []) (by rw [utf8Text_utf8Bytes]; exact reads_expect t _)
  rwa [List.append_nil] at hbind

lemma reads_uuid (u : UuidBytes) : Reads decodeUuid u (encodeSlice u) := by
  have hbind := (reads_slice u.1 (by rw [u.property]; decide)).bind
    (q := fun bytes => if h : bytes.length = 16 then (pure ⟨bytes, h⟩ : Reader UuidBytes)
      else throw .custom) (y := u) (b := [])
    (by rw [dif_pos u.property]; exact reads_pure u)
  rwa [List.append_nil] at hbind

lemma reads_u16 (n : U16) : Reads decodeU16 n (varint n) := by
  have hread := (reads_number (w := 2) (n := n) (.inl rfl) n.isLt).bind_pure (Fin.ofNat (2 ^ 16))
  rwa [Fin.ofNat_val_eq_self] at hread

lemma reads_f32 (f : F32) : Reads decodeF32 f (encodeF32 f) := by
  have hread := (reads_take (e := DecodeError.unexpectedEnd) (length_le 4 f.toNat)).bind_pure
    fun bytes => BitVec.ofNat 32 (ofLe bytes)
  rwa [ofLe_le_of_lt f.isLt, BitVec.ofNat_toNat, BitVec.setWidth_eq] at hread

lemma reads_rect (r : PixelRect) : Reads decodeRect r (encodeRect r) :=
  (reads_f32 r.x).bind <| (reads_f32 r.y).bind <| (reads_f32 r.width).bind <|
    (reads_f32 r.height).bind_pure fun height => PixelRect.mk r.x r.y r.width height

/-- The number of a variant, which decides what follows. -/
lemma reads_variant {α : Type} {n : ℕ} (hn : n < 2 ^ 32) {q : ℕ → Reader α} {y : α} {c : Bytes}
    (h : Reads (q n) y c) : Reads (decodeNumber 4 >>= q) y (varint n ++ c) :=
  (reads_number (.inr (.inl rfl)) hn).bind h

lemma reads_variant_pure {α : Type} {n : ℕ} (hn : n < 2 ^ 32) {q : ℕ → Reader α} {y : α}
    (h : q n = pure y) : Reads (decodeNumber 4 >>= q) y (varint n) := by
  have hread := reads_variant hn (q := q) (y := y) (c := []) (by rw [h]; exact reads_pure y)
  rwa [List.append_nil] at hread

lemma reads_windowState (s : WindowState) : Reads decodeWindowState s (encodeWindowState s) := by
  cases s <;> exact reads_variant_pure (by decide) rfl

lemma reads_placement (p : WindowPlacement) : Reads decodePlacement p (encodePlacement p) := by
  cases p with
  | grid => exact reads_variant_pure (by decide) rfl
  | floating bounds restoredBounds state =>
    refine reads_variant (by decide) ?_
    exact (reads_rect bounds).bind <| (reads_rect restoredBounds).bind <|
      (reads_windowState state).bind_pure fun state =>
        WindowPlacement.floating bounds restoredBounds state

lemma reads_position (p : GridPosition) : Reads decodePosition p (encodePosition p) :=
  (reads_u16 p.col).bind <| (reads_u16 p.row).bind_pure fun row => GridPosition.mk p.col row

lemma reads_size (s : WidgetSize) : Reads decodeSize s (encodeSize s) := by
  cases s with
  | free w h =>
    refine reads_variant (by decide) ?_
    exact (reads_u16 w).bind <| (reads_u16 h).bind_pure fun h => WidgetSize.free w h
  | _ => exact reads_variant_pure (by decide) rfl

lemma reads_lifecycle (l : LifecycleState) : Reads decodeLifecycle l (encodeLifecycle l) := by
  cases l <;> exact reads_variant_pure (by decide) rfl

lemma reads_front {f : Front} (h : (utf8Bytes f.widgetType).length < 2 ^ 64) :
    Reads decodeFront f (encodeFront f) :=
  (reads_uuid f.id).bind <| (reads_string h).bind <| (reads_uuid f.workspaceId).bind <|
    (reads_position f.position).bind <| (reads_size f.size).bind <|
      (reads_lifecycle f.lifecycle).bind_pure fun lifecycle =>
        Front.mk f.id f.widgetType f.workspaceId f.position f.size lifecycle

section Clock

variable {T : Type} {k : Chrono T} {f : Front} {b : Back T}

lemma reads_time (t : T) : Reads (decodeTime k) t (encodeSlice (k.written t)) := by
  have hbind := (reads_slice _ (k.length_written t).2).bind
    (q := fun bytes => expect (k.parse bytes) DecodeError.custom) (y := t) (b := [])
    (by rw [k.parse_written]; exact reads_expect t _)
  rwa [List.append_nil] at hbind

lemma reads_back (h : b.config.length < 2 ^ 64) : Reads (decodeBack k) b (encodeBack k b) :=
  (reads_slice _ h).bind <| (reads_time b.createdAt).bind <|
    (reads_time b.updatedAt).bind_pure fun updatedAt => Back.mk b.config b.createdAt updatedAt

lemma decodeV1_encodeV1 (h : Fits f b) (rest : Bytes) :
    decodeV1 k (encodeV1 k ⟨f, b⟩ ++ rest) = .ok (⟨f, b⟩, rest) :=
  ((reads_front h.widgetType).bind <| (reads_back h.config).bind_pure (WidgetInstanceV1.mk f)) rest

lemma decodeV2_encodeV2 (h : Fits f b) (p : WindowPlacement) (rest : Bytes) :
    decodeV2 k (encodeV2 k ⟨f, p, b⟩ ++ rest) = .ok (⟨f, p, b⟩, rest) :=
  ((reads_front h.widgetType).bind <| (reads_placement p).bind <|
    (reads_back h.config).bind_pure (WidgetInstance.mk f p)) rest

end Clock

end Orchid.Storage
