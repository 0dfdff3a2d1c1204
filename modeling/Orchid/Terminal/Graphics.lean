import Mathlib.Data.List.Basic
import Orchid.Base.Machine

/-!
# Inline images in the byte stream

Kitty graphics come in as APC strings, which are cut out of the bytes before the VT parser sees
them; `emulator/graphics.rs`. How a header is read and how pixels are decoded does not matter to the
grid: the decoders are given as functions.
-/

namespace Orchid.Terminal

/-- Maximum sixel body retained for one DCS. -/
def sixelCap : ℕ := 1000000

/-- Maximum accumulated Kitty payload for one image id. -/
def kittyCap : ℕ := 4000000

/-- Maximum APC payload. -/
def apcCap : ℕ := 4 * 1024 * 1024

/-- One slice of a read, in the order it arrived. -/
inductive StreamEvent
  /-- bytes for the VT parser -/
  | vt (bytes : Bytes)
  /-- a completed APC payload -/
  | apc (payload : Bytes)

/-! ### Cutting out the payloads -/

/-- Where the splitter stands between two bytes. -/
structure ApcSplitter where
  inApc : Bool := false
  heldEsc : Bool := false
  buf : Bytes := []
  overflow : Bool := false

/-- The splitter with the events and the VT bytes of the current read. -/
structure Splitting where
  splitter : ApcSplitter
  events : List StreamEvent := []
  vt : Bytes := []

namespace ApcSplitter

/-- `push_byte` -/
def pushByte (a : ApcSplitter) (b : U8) : ApcSplitter :=
  if apcCap ≤ a.buf.length then { a with overflow := true } else { a with buf := a.buf ++ [b] }

/-- `finish` -/
def finish (a : ApcSplitter) (events : List StreamEvent) : ApcSplitter × List StreamEvent :=
  ({}, if a.overflow then events else events ++ [.apc a.buf])

/-- `push_apc` -/
def pushApc (a : ApcSplitter) (b : U8) (events : List StreamEvent) :
    ApcSplitter × List StreamEvent :=
  if a.heldEsc then
    let a := { a with heldEsc := false }
    if b = 0x5c then a.finish events else ((a.pushByte 0x1b).pushByte b, events)
  else if b = 0x07 then a.finish events
  else if b = 0x1b then ({ a with heldEsc := true }, events)
  else (a.pushByte b, events)

/-- `flush_vt` -/
def flushVt (vt : Bytes) (events : List StreamEvent) : List StreamEvent :=
  if vt = [] then events else events ++ [.vt vt]

/-- One byte of `push`. -/
def pushOne (s : Splitting) (b : U8) : Splitting :=
  if s.splitter.inApc then
    let (splitter, events) := s.splitter.pushApc b s.events
    { s with splitter, events }
  else if s.splitter.heldEsc then
    if b = 0x5f then
      { splitter := ⟨true, false, [], false⟩, events := flushVt s.vt s.events, vt := [] }
    else { s with splitter := { s.splitter with heldEsc := false }, vt := s.vt ++ [0x1b, b] }
  else if b = 0x1b then { s with splitter := { s.splitter with heldEsc := true } }
  else { s with vt := s.vt ++ [b] }

/-- `push` -/
def push (a : ApcSplitter) (input : Bytes) : ApcSplitter × List StreamEvent :=
  let s := input.foldl pushOne { splitter := a }
  (s.splitter, flushVt s.vt s.events)

end ApcSplitter

/-! ### Decoders -/

/-- The control fields of a Kitty command. -/
structure KittyCommand where
  action : U8
  format : U32
  width : U32
  height : U32
  more : Bool
  id : U32
  moveCursor : Bool
  skip : Bool

/-- A decoded picture. -/
structure StoredBlob where
  width : U32
  height : U32
  rgba : Bytes

/-- The decoders, and which other image makes room in the full library. The order of a hash map is
another one in every map and after every change of it. -/
structure Decoders where
  /-- `parse_kitty_command` of a header -/
  kittyCommand : Bytes → KittyCommand
  /-- `decode_base64` -/
  base64 : Bytes → Bytes
  /-- `decode_kitty_bytes` -/
  kittyBytes : U32 → U32 → U32 → Bytes → Option StoredBlob
  /-- `decode_sixel` -/
  sixel : Bytes → Option StoredBlob
  /-- the key that the hash map yields first, other than the given one, after so many images -/
  firstOther : ℕ → List U32 → U32 → Option U32
  /-- `String::from_utf8_lossy` -/
  fromUtf8Lossy : Bytes → Text

end Orchid.Terminal
