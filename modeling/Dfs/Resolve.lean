import Dfs.ApplyPatch

/-!
# Reading a chunk's content

`resolve_chunk_content`: a file; a token's base with its delta while `Pending`, then the folded chunk; a retired chunk under the
identity that took over.
-/

namespace Dfs

open Overlay Node

variable {Id : Type}

/-- Each record extends the buffer as far as it reaches, then is copied in. -/
def applyDeltaRecords (buf : Bytes) (records : Extents) : Bytes :=
  records.foldl (fun b r => copyAt (resize b (max (r.1 + r.2.length) b.length)) r.1 r.2) buf

/-- The base with the delta's records on top, each from its ring before disk. -/
def Node.composeOnePatch (s : Node Id) (base delta : Id) : Option Bytes :=
  match (s.chunkRing base).or (s.readChunkArc base), (s.deltaRing delta).or (s.readChunkArc delta) with
  | some b, some d =>
    match parseDeltaRecords d with
    | .ok records => some (applyDeltaRecords b records)
    | .error _ => none
  | _, _ => none

def Node.resolveViaDurablePatchState (s : Node Id) (id : Id) : Option Bytes :=
  match s.patchState id with
  | some (.folded real) => s.readChunkArc real
  | some (.pending base delta ..) => s.composeOnePatch base delta
  | none => none

def maxHops : Nat := 4

def maxResolveDepth : Nat := 4

variable [DecidableEq Id]

/-- The end of the chain, if reached within the hops left without an identity twice. -/
def aliasWalk (alias_ : Id → Option Id) : Nat → List Id → Id → Bool → Option Id
  | hops, visited, current, moved =>
    match alias_ current with
    | none => if moved then some current else none
    | some next =>
      if next ∈ visited then none
      else match hops with
        | 0 => none
        | hops + 1 => aliasWalk alias_ hops (next :: visited) next true

def Node.resolveAlias (s : Node Id) (id : Id) : Option Id := aliasWalk s.retiredChunkAliases maxHops [id] id false

/-- A chunk in `pending_patch_ids` is read through its patch state, another from disk, else under the identity that took over. -/
def Node.resolveHere (s : Node Id) (id : Id) (forwarded : Option Bytes) : Option Bytes :=
  match s.pendingPatchIds id with
  | none => ((s.readChunkArc id).or (s.resolveViaDurablePatchState id)).or forwarded
  | some _ =>
    match s.patchState id with
    | some (.folded real) => s.readChunkArc real
    | some (.pending base delta ..) => s.composeOnePatch base delta
    | none => (s.readChunkArc id).or forwarded

/-- The depth is what is left, and each call finds the node in a state of its own. -/
def resolveAtDepth (at_ : Nat → Node Id) : Nat → Id → Option Bytes
  | 0, id => (at_ 0).resolveHere id none
  | depth + 1, id =>
    (at_ (depth + 1)).resolveHere id (((at_ (depth + 1)).resolveAlias id).bind (resolveAtDepth at_ depth))

def Node.resolveChunkContent (s : Node Id) (id : Id) : Option Bytes := resolveAtDepth (fun _ => s) maxResolveDepth id

def Node.slotContent (s : Node Id) (slot : Slot) : Option Bytes :=
  (s.occupant slot).bind (fun loc => s.resolveChunkContent loc.chunkId)

/-! ## What a read returns -/

omit [DecidableEq Id] in
lemma applyDeltaRecords_eq_overlay (buf : Bytes) (records : Extents) :
    applyDeltaRecords buf records = overlay buf records := by
  simp only [applyDeltaRecords, copyAt_resize]
  rfl

variable {s : Node Id} {id : Id} {b : Bytes}

lemma resolveChunkContent_of_file (hrow : s.patchState id = none) (hread : s.readChunkArc id = some b) :
    s.resolveChunkContent id = some b := by
  unfold resolveChunkContent maxResolveDepth resolveAtDepth resolveHere
  rw [hread, hrow]
  cases s.pendingPatchIds id <;> rfl

lemma resolveChunkContent_of_pending {base delta : Id} {size at_ : Nat} {seq : Option Nat}
    (hrow : s.patchState id = some (.pending base delta size at_ seq)) (hread : s.readChunkArc id = none)
    (hcompose : s.composeOnePatch base delta = some b) : s.resolveChunkContent id = some b := by
  unfold resolveChunkContent maxResolveDepth resolveAtDepth resolveHere
  cases s.pendingPatchIds id with
  | none => simp [hread, resolveViaDurablePatchState, hrow, hcompose]
  | some slot => simp [hrow, hcompose]

end Dfs
