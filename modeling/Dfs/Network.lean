import Dfs.Lib.FragmentStream
import Dfs.Lib.LittleEndian
import Dfs.Types

/-!
# Messages on a connection

A message is its length in four bytes and its bytes; a large payload a split frame, envelope and raw data. Of bincode:
it reads back what it wrote.
-/

namespace Dfs

open FragmentStream

inductive Request (F : Type) where
  | writeFileLocalOnly (data : Bytes) (fields : F)
  | multiPatch (patches : Extents) (fields : F)
  | other (fields : F)
  deriving DecidableEq

inductive Response (F : Type) where
  | chunkData (data : Bytes) (fields : F) (arcData : Option Bytes) (arcRange : Option (Nat × Nat))
  | other (fields : F)
  deriving DecidableEq

inductive Message (F : Type) where
  | request (r : Request F)
  | response (r : Response F)
  | cluster (fields : F)
  deriving DecidableEq

structure MessageEnvelope (F : Type) where
  requestId : Nat
  message : Message F
  deriving DecidableEq

variable {F : Type}

def Message.serialized : Message F → Message F
  | .response (.chunkData data fields _ _) => .response (.chunkData data fields none none)
  | m => m

structure EnvelopeCodec (F : Type) where
  toBytes : MessageEnvelope F → Bytes
  fromBytes : Bytes → Option (MessageEnvelope F)
  fromBytes_toBytes : ∀ e, fromBytes (toBytes e) = some { e with message := e.message.serialized }

def toBeBytes (n : Nat) : Bytes := (LittleEndian.encode 4 n).reverse

def fromBeBytes (bytes : Bytes) : Nat := LittleEndian.decode bytes.reverse

/-! ## Writing -/

/-- The shared chunk or a range of it, else the data. -/
def chunkPayload (data : Bytes) : Option Bytes → Option (Nat × Nat) → Bytes
  | some arc, some (start, stop) => (arc.take stop).drop start
  | some arc, none => arc
  | none, _ => data

def frame (bytes : Bytes) : Bytes := toBeBytes bytes.length ++ bytes

variable (codec : EnvelopeCodec F)

def writeMessage (e : MessageEnvelope F) : Bytes :=
  match e.message with
  | .response (.chunkData data fields arcData arcRange) =>
    -- `write_chunk_response` with the stub
    frame (codec.toBytes ⟨e.requestId, .response (.chunkData [] fields none none)⟩) ++ frame (chunkPayload data arcData arcRange)
  | _ => frame (codec.toBytes e)

def patchPayload (patches : Extents) : Bytes := patches.flatMap fun p => frame p.2

def splitFrameThreshold : Nat := 32 * 1024

/-- By `write_message`, as an ordinary request, or as a split frame. -/
inductive Sent (F : Type) where
  | written (e : MessageEnvelope F)
  | framed (requestId : Nat) (r : Request F)
  | splitWrite (requestId : Nat) (data : Bytes) (fields : F)
  | splitPatch (requestId : Nat) (patches : Extents) (fields : F)

def patchStub (requestId : Nat) (patches : Extents) (fields : F) : MessageEnvelope F :=
  ⟨requestId, .request (.multiPatch (patches.map fun p => (p.1, [])) fields)⟩

def Sent.bytes : Sent F → Bytes
  | .written e => writeMessage codec e
  | .framed requestId r => frame (codec.toBytes ⟨requestId, .request r⟩)
  -- `write_split_frame_request`
  | .splitWrite requestId data fields => frame (codec.toBytes ⟨requestId, .request (.writeFileLocalOnly [] fields)⟩) ++ frame data
  | .splitPatch requestId patches fields => frame (codec.toBytes (patchStub requestId patches fields)) ++ frame
    (patchPayload patches)

def sendMultiPatch (requestId : Nat) (patches : Extents) (fields : F) : Sent F :=
  if splitFrameThreshold ≤ (patches.map fun p => p.2.length).sum then .splitPatch requestId patches fields
  else .framed requestId (.multiPatch patches fields)

def Sent.envelope : Sent F → MessageEnvelope F
  | .written e =>
    match e.message with
    | .response (.chunkData data fields arcData arcRange) =>
      ⟨e.requestId, .response (.chunkData (chunkPayload data arcData arcRange) fields none none)⟩
    | _ => e
  | .framed requestId r => ⟨requestId, .request r⟩
  | .splitWrite requestId data fields => ⟨requestId, .request (.writeFileLocalOnly data fields)⟩
  | .splitPatch requestId patches fields => ⟨requestId, .request (.multiPatch patches fields)⟩

/-! ## Reading -/

def takeLength (buffer : Bytes) : Option (Nat × Bytes) := (takeCount 4 buffer).map fun found => (fromBeBytes found.1, found.2)

def takeFrame : Bytes → Option (Bytes × Bytes) := FragmentStream.andThen takeLength takeCount

def drainPayload (what : String) (s : FragmentStream UInt8) : Except String (Bytes × FragmentStream UInt8) :=
  match s.await takeLength with
  | .error _ => .error ("Connection closed reading " ++ what ++ " length")
  | .ok (plen, s) =>
    match s.await (takeCount plen) with
    | .error _ => .error ("Connection closed reading " ++ what)
    | .ok found => .ok found

def fillPatches : Extents → Bytes → Except String Extents
  | [], _ => .ok []
  | (offset, _) :: patches, raw =>
    match takeLength raw with
    | none => .error "MultiPatch split-frame: truncated length header"
    | some (dlen, raw) =>
      match takeCount dlen raw with
      | none => .error "MultiPatch split-frame: truncated patch data"
      | some (data, raw) => (fillPatches patches raw).map fun patches => (offset, data) :: patches

def readPayload (e : MessageEnvelope F) (s : FragmentStream UInt8) : Except String (MessageEnvelope F × FragmentStream UInt8) :=
  match e.message with
  | .response (.chunkData data fields arcData arcRange) =>
    if data.isEmpty then
      (drainPayload "chunk payload" s).map fun found =>
        (⟨e.requestId, .response (.chunkData found.1 fields arcData arcRange)⟩, found.2)
    else .ok (e, s)
  | .request (.writeFileLocalOnly data fields) =>
    if data.isEmpty then
      (drainPayload "write payload" s).map fun found => (⟨e.requestId, .request (.writeFileLocalOnly found.1 fields)⟩, found.2)
    else .ok (e, s)
  | .request (.multiPatch patches fields) =>
    if !patches.isEmpty && patches.all fun p => p.2.isEmpty then
      match drainPayload "MultiPatch payload" s with
      | .error msg => .error msg
      | .ok (raw, s) => (fillPatches patches raw).map fun patches => (⟨e.requestId, .request (.multiPatch patches fields)⟩, s)
    else .ok (e, s)
  | _ => .ok (e, s)

def readMessage (s : FragmentStream UInt8) : Except String (Option (MessageEnvelope F × FragmentStream UInt8)) :=
  match s.await takeFrame with
  | .error buffer => if buffer.isEmpty then .ok none else .error "Connection closed with incomplete message"
  | .ok (messageBytes, s) =>
    match codec.fromBytes messageBytes with
    | none => .error "Failed to deserialize message"
    | some e => (readPayload e s).map some

/-- Calls of `read_message` return these, then the end of the stream. -/
def Reads (codec : EnvelopeCodec F) : FragmentStream UInt8 → List (MessageEnvelope F) → Prop
  | s, [] => readMessage codec s = .ok none
  | s, e :: es => ∃ s', readMessage codec s = .ok (some (e, s')) ∧ Reads codec s' es

end Dfs
