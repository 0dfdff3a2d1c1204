import Orchid.Base.Text
import Orchid.Lib.ByteText
import Orchid.Terminal.Grid

/-!
# The emulator

The escape sequences on the grid, and the calls on the emulator; `emulator/mod.rs`. The VT parser is
given as the function that turns bytes into the calls it makes on the handler. What goes to the event
bus is left out.
-/

namespace Orchid.Terminal

/-! ### Select graphic rendition -/

/-- The parameters of a sequence, in groups of sub-parameters. -/
abbrev Params := List (List U16)

/-- The first sub-parameter of a group. -/
def firstOf (group : List U16) : U16 := group.headD 0

/-- `as u8` -/
def asU8 (n : U16) : U8 := ⟨n.val % 2 ^ 8, Nat.mod_lt _ (by decide)⟩

/-- `parse_extended_color`, with the parameters that are left. -/
def parseExtendedColor (mode : U16) (params : Params) : Option CellColor × Params :=
  if mode = 2 then
    match params with
    | r :: g :: b :: rest =>
      (some (.rgb (asU8 (firstOf r)) (asU8 (firstOf g)) (asU8 (firstOf b))), rest)
    | _ => (none, [])
  else if mode = 5 then
    match params with
    | i :: rest => (some (.indexed (asU8 (firstOf i))), rest)
    | [] => (none, [])
  else (none, params)

lemma length_parseExtendedColor (mode : U16) (params : Params) :
    (parseExtendedColor mode params).2.length ≤ params.length := by
  unfold parseExtendedColor
  split_ifs
  · split <;> grind
  · split <;> grind
  · exact le_rfl

namespace Rendition

def setFlags (r : Rendition) (mask : CellFlags) : Rendition :=
  { r with currentFlags := r.currentFlags ||| mask }

def removeFlags (r : Rendition) (mask : CellFlags) : Rendition :=
  { r with currentFlags := r.currentFlags &&& ~~~mask }

/-- A parameter that stands alone. -/
def applyOne (r : Rendition) (n : U16) : Rendition :=
  match n.val with
  | 0 => {}
  | 1 => r.setFlags 0x001#16
  | 2 => r.setFlags 0x040#16
  | 3 => r.setFlags 0x002#16
  | 4 => r.setFlags 0x004#16
  | 5 => r.setFlags 0x080#16
  | 7 => r.setFlags 0x010#16
  | 8 => r.setFlags 0x020#16
  | 9 => r.setFlags 0x008#16
  | 22 => r.removeFlags 0x041#16
  | 23 => r.removeFlags 0x002#16
  | 24 => r.removeFlags 0x004#16
  | 25 => r.removeFlags 0x080#16
  | 27 => r.removeFlags 0x010#16
  | 28 => r.removeFlags 0x020#16
  | 29 => r.removeFlags 0x008#16
  | 39 => { r with currentFg := .default }
  | 49 => { r with currentBg := .default }
  | m =>
    if 30 ≤ m ∧ m ≤ 37 then { r with currentFg := .indexed (asU8 (n - 30)) }
    else if 40 ≤ m ∧ m ≤ 47 then { r with currentBg := .indexed (asU8 (n - 40)) }
    else if 90 ≤ m ∧ m ≤ 97 then { r with currentFg := .indexed (asU8 (n - 90 + 8)) }
    else if 100 ≤ m ∧ m ≤ 107 then { r with currentBg := .indexed (asU8 (n - 100 + 8)) }
    else r

/-- `apply_sgr` -/
def applySgr (r : Rendition) (params : Params) : Rendition :=
  match params with
  | [] => r
  | group :: rest =>
    if firstOf group = 38 ∨ firstOf group = 48 then
      match rest with
      | [] => r
      | mode :: rest =>
        let color := parseExtendedColor (firstOf mode) rest
        let r :=
          if firstOf group = 38 then { r with currentFg := color.1.getD r.currentFg }
          else { r with currentBg := color.1.getD r.currentBg }
        applySgr r color.2
    else applySgr (r.applyOne (firstOf group)) rest
termination_by params.length
decreasing_by
  · have := length_parseExtendedColor (firstOf mode) rest
    simp only [List.length_cons]
    exact Nat.lt_succ_of_lt (Nat.lt_succ_of_le this)
  · exact Nat.lt_succ_self _

end Rendition

/-! ### Images -/

namespace EmulatorState

variable (d : Decoders)

/-- An image comes in at the cursor; the oldest of more than 32 is dropped. -/
def addImage (s : EmulatorState) (id : U32) (blob : StoredBlob) : EmulatorState :=
  let img : StoredImage := ⟨id, s.scrollback.length + s.cursor.row.val,
    min s.cursor.col (U16.saturatingSub s.cols 1), blob.width, blob.height, blob.rgba⟩
  let images := s.images ++ [img]
  { s with images := if 32 < images.length then images.drop 1 else images }

/-- The cursor goes past an image. -/
def movePast (s : EmulatorState) (height : U32) : Option EmulatorState :=
  let ch := (max s.cellH 1).val
  let span := max ((height.val + ch - 1) / ch) 1
  (List.range span).foldlM (fun s _ => s.lineFeed) { s with cursor := { s.cursor with col := 0 } }

/-- `place_rgba` -/
def placeRgba (s : EmulatorState) (id : U32) (blob : StoredBlob) (moveCursor : Bool) :
    Option EmulatorState :=
  if blob.width = 0 ∨ blob.height = 0 then some s
  else
    let s := s.addImage id blob
    (if moveCursor then s.movePast blob.height else some s).map fun s =>
      s.markFullRedraw.bumpGeneration

/-- `place_sixel` -/
def placeSixel (s : EmulatorState) (body : Bytes) : Option EmulatorState :=
  match d.sixel body with
  | none => some s
  | some blob => s.placeRgba 0xffffffff blob true

/-- The chunks of an image are forgotten. -/
def dropChunks (s : EmulatorState) (id : U32) : EmulatorState :=
  { s with kittyAcc := Function.update s.kittyAcc id none }

/-- A finished image comes into the library, which makes room for it. -/
def storeImage (s : EmulatorState) (id : U32) (blob : StoredBlob) : EmulatorState :=
  let kittyLib := (id, blob) :: s.kittyLib.filter fun e => e.1 ≠ id
  { s with
    kittyLib :=
      if 16 < kittyLib.length then
        match d.firstOther s.stored (kittyLib.map Prod.fst) id with
        | some drop => kittyLib.filter fun e => e.1 ≠ drop
        | none => kittyLib
      else kittyLib
    stored := s.stored + 1 }

/-- The actions `t` and `T`. -/
def transmit (s : EmulatorState) (cmd : KittyCommand) (data : Bytes) : Option EmulatorState :=
  let chunk := d.base64 data
  let acc := (s.kittyAcc cmd.id).getD []
  if kittyCap < acc.length + chunk.length then some (s.dropChunks cmd.id)
  else if cmd.more then
    some { s with kittyAcc := Function.update s.kittyAcc cmd.id (some (acc ++ chunk)) }
  else
    let s := s.dropChunks cmd.id
    match d.kittyBytes cmd.format cmd.width cmd.height (acc ++ chunk) with
    | none => some s
    | some blob =>
      let s := s.storeImage d cmd.id blob
      if cmd.action = 0x54 then s.placeRgba cmd.id blob cmd.moveCursor else some s

/-- `handle_apc` -/
def handleApc (s : EmulatorState) (payload : Bytes) : Option EmulatorState :=
  if payload.head? ≠ some 0x47 then some s
  else
    let body := payload.drop 1
    let header := body.takeWhile fun b => b ≠ 0x3b
    let data := (body.dropWhile fun b => b ≠ 0x3b).drop 1
    let cmd := d.kittyCommand header
    if cmd.skip then some (s.dropChunks cmd.id)
    else if cmd.action = 0x64 then
      some ({ s.dropChunks cmd.id with
        images := s.images.filter fun img => img.id ≠ cmd.id
        kittyLib := s.kittyLib.filter fun e => e.1 ≠ cmd.id }.markFullRedraw.bumpGeneration)
    else if cmd.action = 0x70 then
      match s.kittyLib.lookup cmd.id with
      | none => some s
      | some blob => s.placeRgba cmd.id blob cmd.moveCursor
    else if cmd.action = 0x74 ∨ cmd.action = 0x54 then s.transmit d cmd data
    else some s

/-! ### The handler -/

/-- What the VT parser calls. -/
inductive Callback
  | print (c : Char)
  | execute (byte : U8)
  | csiDispatch (params : Params) (action : Char)
  | escDispatch (byte : U8)
  | oscDispatch (params : List Bytes)
  | hook (ignore : Bool) (action : Char)
  | put (byte : U8)
  | unhook

def execute (s : EmulatorState) (byte : U8) : Option EmulatorState :=
  match byte.val with
  | 0x08 => some s.backspace
  | 0x09 => some s.tab
  | 0x0a | 0x0b | 0x0c => s.lineFeed
  | 0x0d => some s.carriageReturn
  | _ => some s

/-- A parameter, by default one. -/
def orOne (p : U16) : U16 := if p = 0 then 1 else p

/-- `csi_dispatch`, with what is written back. -/
def csiDispatch (s : EmulatorState) (params : Params) (action : Char) : EmulatorState × Text :=
  let p1 := firstOf (params.headD [])
  let p2 := firstOf ((params.drop 1).headD [])
  match action with
  | 'A' => (s.cursorUp (max p1 1), [])
  | 'B' => (s.cursorDown (max p1 1), [])
  | 'C' => (s.cursorRight (max p1 1), [])
  | 'D' => (s.cursorLeft (max p1 1), [])
  | 'H' | 'f' => (s.cursorPosition (orOne p1) (orOne p2), [])
  | 'J' => (s.eraseInDisplay p1, [])
  | 'K' => (s.eraseInLine p1, [])
  | 'm' => ({ s with current := s.current.applySgr params }, [])
  | 'r' => (s.setScrollRegion (orOne p1) (if p2 = 0 then s.rows else p2), [])
  | 'n' =>
    if p1 = 6 then
      (s, '\x1b' :: '[' :: ((toString (s.cursor.row + 1).val).toList ++ ';' ::
        ((toString (s.cursor.col + 1).val).toList ++ ['R'])))
    else (s, [])
  | _ => (s, [])

def escDispatch (s : EmulatorState) (byte : U8) : EmulatorState :=
  if byte = 0x63 then
    { s with current := {}, cursor := {} }.markFullRedraw.bumpGeneration
  else if byte = 0x4d then s.reverseLineFeed
  else s

/-- `hex_digit` -/
def hexDigit (b : U8) : Option U8 :=
  if 0x30 ≤ b ∧ b ≤ 0x39 then some (b - 0x30)
  else if 0x61 ≤ b ∧ b ≤ 0x66 then some (b - 0x61 + 10)
  else if 0x41 ≤ b ∧ b ≤ 0x46 then some (b - 0x41 + 10)
  else none

/-- The loop of `percent_decode_lossy`. -/
def percentDecode : Bytes → Bytes
  | 0x25 :: a :: b :: rest =>
    match hexDigit a, hexDigit b with
    | some hi, some lo => (hi * 16 + lo) :: percentDecode rest
    | _, _ => 0x25 :: percentDecode (a :: b :: rest)
  | b :: rest => b :: percentDecode rest
  | [] => []

/-- The directory in a `file://host/path/` address. -/
def cwdOf (uri : Text) : Option Text :=
  match (dropStart? uri "file://".toList).map fun rest => rest.dropWhile fun c => c ≠ '/' with
  | some (_ :: path) => some (d.fromUtf8Lossy (percentDecode (Lib.utf8Bytes path)))
  | _ => none

/-- `osc_dispatch`: the title and the directory. -/
def oscDispatch (s : EmulatorState) : List Bytes → EmulatorState
  | code :: arg :: _ =>
    if code = [0x30] ∨ code = [0x31] ∨ code = [0x32] then { s with title := d.fromUtf8Lossy arg }
    else if code = [0x37] then
      match cwdOf d (d.fromUtf8Lossy arg) with
      | some path => { s with cwd := some path }
      | none => s
    else s
  | _ => s

def hook (s : EmulatorState) (ignore : Bool) (action : Char) : EmulatorState :=
  { s with dcsBuf := [], dcsOverflow := false, dcsSixel := !ignore && action = 'q' }

def put (s : EmulatorState) (byte : U8) : EmulatorState :=
  if !s.dcsSixel then s
  else if sixelCap ≤ s.dcsBuf.length then { s with dcsOverflow := true }
  else { s with dcsBuf := s.dcsBuf ++ [byte] }

def unhook (s : EmulatorState) : Option EmulatorState :=
  (if s.dcsSixel && !s.dcsOverflow then placeSixel d { s with dcsBuf := [] } s.dcsBuf
    else some s).map fun s => { s with dcsBuf := [], dcsSixel := false, dcsOverflow := false }

/-- One call on the handler, with what is written back. -/
def perform (s : EmulatorState) : Callback → Option (EmulatorState × Text)
  | .print c => (s.writeChar c).map (·, [])
  | .execute byte => (s.execute byte).map (·, [])
  | .csiDispatch params action => some (s.csiDispatch params action)
  | .escDispatch byte => some (s.escDispatch byte, [])
  | .oscDispatch params => some (s.oscDispatch d params, [])
  | .hook ignore action => some (s.hook ignore action, [])
  | .put byte => some (s.put byte, [])
  | .unhook => (s.unhook d).map (·, [])

end EmulatorState

open EmulatorState

/-! ### Calls on the emulator -/

/-- A VT parser: its state at the start, and what it makes of some bytes. -/
structure Parser (P : Type) where
  initial : P
  advance : P → Bytes → P × List Callback

/-- The emulator with its parsers. -/
structure TerminalEmulator (P : Type) where
  inner : EmulatorState
  parser : P
  apc : ApcSplitter := {}

namespace TerminalEmulator

variable {P : Type} (d : Decoders) (vt : Parser P)

/-- `TerminalEmulator::new` -/
def new (cols rows : U16) (scrollback : ℕ) : TerminalEmulator P :=
  { inner := .new (max cols 1) (max rows 1) scrollback, parser := vt.initial }

/-- A call of the parser on the handler, with the responses so far. -/
def handle (p : EmulatorState × Text) (callback : Callback) : Option (EmulatorState × Text) :=
  (p.1.perform d callback).map fun r => (r.1, p.2 ++ r.2)

/-- One slice of the stream, with the responses so far. -/
def feedEvent (p : TerminalEmulator P × Text) :
    StreamEvent → Option (TerminalEmulator P × Text)
  | .vt clean =>
    let r := vt.advance p.1.parser clean
    (r.2.foldlM (handle d) (p.1.inner, p.2)).map fun q =>
      ({ p.1 with inner := q.1, parser := r.1 }, q.2)
  | .apc payload =>
    (p.1.inner.handleApc d payload).map fun inner => ({ p.1 with inner }, p.2)

/-- `feed` -/
def feed (e : TerminalEmulator P) (bytes : Bytes) : Option (TerminalEmulator P × Text) :=
  let r := e.apc.push bytes
  r.2.foldlM (feedEvent d vt) ({ e with apc := r.1 }, [])

/-- How `resize` fails. -/
inductive TerminalError
  | invalidResize (cols rows : U16)

/-- `resize` -/
def resize (e : TerminalEmulator P) (cols rows : U16) :
    Except TerminalError (TerminalEmulator P) :=
  if cols = 0 ∨ rows = 0 then .error (.invalidResize cols rows)
  else .ok { e with inner := e.inner.resize cols rows }

/-- `set_cell_px` -/
def setCellPx (e : TerminalEmulator P) (width height : U16) : TerminalEmulator P :=
  let s := if 0 < width then { e.inner with cellW := width } else e.inner
  { e with inner := if 0 < height then { s with cellH := height } else s }

/-- A call on the emulator. -/
inductive Call
  | feed (bytes : Bytes)
  | resize (cols rows : U16)
  | setCellPx (width height : U16)
  | scrollTo (pos : ScrollPosition)
  | scrollBy (lines : BitVec 32)
  | snapshot

/-- The emulator after a call; no result if a row is read that is not there. -/
def after (e : TerminalEmulator P) : Call → Option (TerminalEmulator P)
  | .feed bytes => (e.feed d vt bytes).map Prod.fst
  | .resize cols rows => some ((e.resize cols rows).toOption.getD e)
  | .setCellPx width height => some (e.setCellPx width height)
  | .scrollTo pos => some { e with inner := e.inner.scrollTo pos }
  | .scrollBy lines => some { e with inner := e.inner.scrollBy lines }
  | .snapshot => e.inner.snapshot.map fun p => { e with inner := p.2 }

/-- The emulator after some calls. -/
def run (e : TerminalEmulator P) (calls : List Call) : Option (TerminalEmulator P) :=
  calls.foldlM (after d vt) e

end TerminalEmulator

end Orchid.Terminal
