import Dfs.Lib.Codec
import Dfs.Types

/-!
# The two layouts of a stored record

A `FileMetadata` as bincode stores it, with every field, and the layout from before `symlink_target`. The layouts have
no tag; a record of the old one is told by the failure of the reader of the new one.
-/

namespace Dfs.RecordFormat

open Codec

abbrev U64 := Fin (256 ^ 8)
abbrev U32 := Fin (256 ^ 4)
abbrev Uuid := {l : List UInt8 // l.length = 16}
abbrev Hash := {l : List UInt8 // l.length = 32}
abbrev Vec (α : Type) := {l : List α // l.length < 256 ^ 8}
abbrev Text := {s : String // s.toByteArray.data.toList.length < 256 ^ 8}

structure ChunkLocation where
  chunkId : Hash
  nodes : Vec Uuid
  size : U64
  checksum : Hash
  fileOffset : Option U64
  writtenAt : Option U64
  clientWriteSeq : Option U64
  fileId : Option Uuid

structure FileMetadataLegacyV0 where
  id : Uuid
  path : Text
  size : U64
  createdAt : U64
  modifiedAt : U64
  mode : U32
  uid : U32
  gid : U32
  fileType : FileType
  chunkLocations : Vec ChunkLocation
  writeSeq : U64

structure FileMetadata extends FileMetadataLegacyV0 where
  symlinkTarget : Option Text

/-- `From<FileMetadataLegacyV0>`. -/
def FileMetadataLegacyV0.into (v : FileMetadataLegacyV0) : FileMetadata := ⟨v, none⟩

def u64 : Codec U64 := word 8
def u32 : Codec U32 := word 4

/-- An identity is written as bytes with their number, which the reader checks. -/
def uuid : Codec Uuid :=
  byte.vec.refine (fun l => if h : l.1.length = 16 then some ⟨l.1, h⟩ else none) (fun u => ⟨u.1, by simp [u.2]⟩)
    (fun u => dif_pos u.2)

/-- A variant is written as its number. -/
def fileType : Codec FileType :=
  u32.refine (fun n => [FileType.regularFile, .directory, .symlink][n.1]?)
    (fun | .regularFile => 0 | .directory => 1 | .symlink => 2)
    (fun t => by cases t <;> rfl)

def chunkLocation : Codec ChunkLocation :=
  ((byte.array 32).pair (uuid.vec.pair (u64.pair ((byte.array 32).pair (u64.option.pair (u64.option.pair
      (u64.option.pair uuid.option))))))).refine
    (fun (a, b, c, d, e, f, g, h) => some ⟨a, b, c, d, e, f, g, h⟩)
    (fun l => (l.chunkId, l.nodes, l.size, l.checksum, l.fileOffset, l.writtenAt, l.clientWriteSeq, l.fileId))
    (fun _ => rfl)

def fileMetadataLegacyV0 : Codec FileMetadataLegacyV0 :=
  (uuid.pair (string.pair (u64.pair (u64.pair (u64.pair (u32.pair (u32.pair (u32.pair (fileType.pair
      (chunkLocation.vec.pair u64)))))))))).refine
    (fun (a, b, c, d, e, f, g, h, i, j, k) => some ⟨a, b, c, d, e, f, g, h, i, j, k⟩)
    (fun m => (m.id, m.path, m.size, m.createdAt, m.modifiedAt, m.mode, m.uid, m.gid, m.fileType, m.chunkLocations, m.writeSeq))
    (fun _ => rfl)

/-- The fields are those of the old layout, then the target. -/
def fileMetadata : Codec FileMetadata :=
  (fileMetadataLegacyV0.pair string.option).refine (fun (a, b) => some ⟨a, b⟩)
    (fun m => (m.toFileMetadataLegacyV0, m.symlinkTarget))
    (fun _ => rfl)

def deserializeFileMetadata (bytes : Bytes) : Option FileMetadata :=
  match fileMetadata.read bytes with
  | some m => some m
  | none => (fileMetadataLegacyV0.read bytes).map FileMetadataLegacyV0.into

/-- The reader of the new layout finds no byte for the target. -/
theorem read_legacy (w : FileMetadataLegacyV0) : fileMetadata.read (fileMetadataLegacyV0.enc w) = none := by
  have h := fileMetadataLegacyV0.dec_enc w []
  rw [List.append_nil] at h
  simp [Codec.read, fileMetadata, refine, pair, h, option]

/-- A record of either layout is read back, and no old one is taken for a new one. -/
theorem both_layouts_decode : (∀ v : FileMetadata, deserializeFileMetadata (fileMetadata.enc v) = some v) ∧
      ∀ w : FileMetadataLegacyV0, deserializeFileMetadata (fileMetadataLegacyV0.enc w) = some w.into ∧
        fileMetadata.read (fileMetadataLegacyV0.enc w) = none := by
  refine ⟨fun v => ?_, fun w => ⟨?_, read_legacy w⟩⟩
  · rw [deserializeFileMetadata, read_enc]
  · rw [deserializeFileMetadata, read_legacy, read_enc, Option.map_some]

end Dfs.RecordFormat
