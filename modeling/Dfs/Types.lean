import Mathlib.Algebra.Group.Nat.Defs
import Mathlib.Algebra.GroupWithZero.Nat
import Mathlib.Logic.Function.Basic

/-!
# Identities and records

A chunk identity is a hash, the parameter `ChunkHash`, of which theorems assume what they name
(`ChunkHash.CollisionFree`).
-/

namespace Dfs

abbrev Bytes := List UInt8
abbrev FileId := Nat
abbrev NodeId := Nat

/-- Bytes with their offsets: the extents of a buffer, the patches of a request. -/
abbrev Extents := List (Nat × Bytes)

/-- The key `(file_id, chunk_idx)` of the slot tables. -/
abbrev Slot := FileId × Nat

def chunkSize : Nat := 4 * 1024 * 1024

lemma chunkSize_pos : 0 < chunkSize := Nat.zero_lt_succ _

lemma mul_chunkSize_div (n : Nat) : n * chunkSize / chunkSize = n := Nat.mul_div_cancel n chunkSize_pos

/-- The hash functions chunk identities come from. -/
structure ChunkHash (Id : Type) where
  /-- The identity of a chunk's bytes at an offset of a file. -/
  computeChunkHashAt : Bytes → Nat → FileId → Id
  /-- The public token of an accumulator with a delta identity. -/
  patchTokenIdentity : Id → Id
  /-- `ChunkId::looks_like_patch_token`: the two marker bytes. -/
  looksLikePatchToken : Id → Bool
  /-- `ChunkId::to_hex`: the identity in a message. -/
  toHex : Id → String

/-- No two chunks share an identity, no two deltas a token, and a token is no content identity. -/
structure ChunkHash.CollisionFree {Id : Type} (H : ChunkHash Id) : Prop where
  content : ∀ {b b' : Bytes} {o o' : Nat} {f f' : FileId},
    H.computeChunkHashAt b o f = H.computeChunkHashAt b' o' f' → b = b' ∧ o = o' ∧ f = f'
  token : ∀ {d d' : Id}, H.patchTokenIdentity d = H.patchTokenIdentity d' → d = d'
  separate : ∀ (d : Id) (b : Bytes) (o : Nat) (f : FileId), H.patchTokenIdentity d ≠ H.computeChunkHashAt b o f
  marked : ∀ d : Id, H.looksLikePatchToken (H.patchTokenIdentity d) = true

/-- An identity as the term it was computed from: a hash without collisions. -/
inductive FreeId where
  | content (bytes : Bytes) (offset : Nat) (file : FileId)
  | token (delta : FreeId)
  deriving DecidableEq, Repr

def freeHash : ChunkHash FreeId where
  computeChunkHashAt := .content
  patchTokenIdentity := .token
  looksLikePatchToken
    | .token _ => true
    | .content .. => false
  toHex _ := ""

lemma freeHash_collisionFree : freeHash.CollisionFree where
  content h := by
    cases h
    exact ⟨rfl, rfl, rfl⟩
  token h := by
    cases h
    rfl
  separate _ _ _ _ h := by cases h
  marked _ := rfl

/-- Where a chunk is and which write it came from, without the checksum. -/
structure ChunkLocation (Id : Type) where
  chunkId : Id
  nodes : List NodeId
  size : Nat
  fileOffset : Option Nat
  writtenAt : Option Nat
  clientWriteSeq : Option Nat
  fileId : Option FileId
  deriving DecidableEq, Repr

abbrev Locations (Id : Type) := List (ChunkLocation Id)

/-- The index of the chunk at the location's offset. -/
def slotOf {Id : Type} (l : ChunkLocation Id) : Option Nat := l.fileOffset.map (· / chunkSize)

abbrev sameChunk {Id : Type} [DecidableEq Id] (loc l : ChunkLocation Id) : Bool := decide (l.chunkId = loc.chunkId)

inductive FileType where
  | regularFile | directory | symlink
  deriving DecidableEq, Repr

abbrev Path := List Char

/-- Times, mode, owner and symlink target are read by no modelled function and left out. -/
structure FileMetadata (Id : Type) where
  id : FileId
  path : Path
  size : Nat
  fileType : FileType
  chunkLocations : Locations Id
  writeSeq : Nat
  deriving DecidableEq, Repr

inductive PatchState (Id : Type) where
  | pending (baseChunkId deltaChunkId : Id) (size writtenAt : Nat) (clientWriteSeq : Option Nat)
  | folded (realChunkId : Id)
  deriving DecidableEq, Repr

inductive ErrorCode where
  | notFound | internalError | checksumMismatch | offsetMismatch | ioError
  deriving DecidableEq, Repr

/-- `u64::MAX`, the chunk index a location without a file offset is ordered at. -/
def u64Max : Nat := 2 ^ 64 - 1

def writeQuorum (rf : Nat) : Nat := if 2 ≤ rf then 2 else max rf 1

/-- Change the first element that passes a test (`iter_mut().find(..)`). -/
def updateFirst {α : Type} (p : α → Bool) (f : α → α) : List α → List α
  | [] => []
  | a :: l => if p a then f a :: l else a :: updateFirst p f l

variable {α : Type} {p : α → Bool} {f : α → α} {l : List α}

lemma updateFirst_append_cons {pre : List α} {a : α} {post : List α} (hpre : ∀ x ∈ pre, p x = false) (ha : p a = true) :
    updateFirst p f (pre ++ a :: post) = pre ++ f a :: post := by
  induction pre with
  | nil => simp [updateFirst, ha]
  | cons x pre ih =>
    simp only [List.cons_append, updateFirst, hpre x (by simp), Bool.false_eq_true, if_false]
    rw [ih (fun y hy => hpre y (by simp [hy]))]

lemma mem_updateFirst {x : α} (h : x ∈ updateFirst p f l) : x ∈ l ∨ ∃ a ∈ l, x = f a := by
  induction l with
  | nil => cases h
  | cons a l ih =>
    rw [updateFirst] at h
    split at h
    · rcases List.mem_cons.mp h with rfl | h
      · exact .inr ⟨a, by simp, rfl⟩
      · exact .inl (List.mem_cons_of_mem a h)
    rcases List.mem_cons.mp h with rfl | h
    · exact .inl (by simp)
    rcases ih h with h | ⟨b, hb, rfl⟩
    · exact .inl (List.mem_cons_of_mem a h)
    · exact .inr ⟨b, List.mem_cons_of_mem a hb, rfl⟩

lemma updateFirst_of_none (h : ∀ x ∈ l, p x = false) : updateFirst p f l = l := by
  induction l with
  | nil => rfl
  | cons a l ih => rw [updateFirst, h a (by simp), if_neg (by simp), ih (fun x hx => h x (List.mem_cons_of_mem _ hx))]

end Dfs
