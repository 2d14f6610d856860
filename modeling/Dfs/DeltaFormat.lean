import Dfs.Types
import Dfs.Lib.LittleEndian
import Dfs.Lib.Stamped

/-!
# The delta accumulator's file format

A magic number and records of write sequence, offset, length and bytes; the format before has neither magic nor sequence.
-/

namespace Dfs

open LittleEndian Stamped List

def deltaAccumulatorV2Magic : Nat := 0xD15AFEEDC0FFEE02

abbrev DeltaRecord := Nat × Nat × Bytes

def patchRecords (seq : Nat) (patches : Extents) : List DeltaRecord := patches.map (fun p => (seq, p))

/-- With the eight bytes of the write sequence, or (legacy) without. -/
structure RecordShape where
  seqBytes : Nat
  label : String

def currentShape : RecordShape := ⟨8, ""⟩
def legacyShape : RecordShape := ⟨0, "legacy "⟩

/-- The length is cut to 32 bits. -/
def encodeRecord (sh : RecordShape) (r : DeltaRecord) : Bytes :=
  encode sh.seqBytes r.1 ++ encode 8 r.2.1 ++ encode 4 r.2.2.length ++ r.2.2

def encodeDeltaRecord (seq offset : Nat) (data : Bytes) : Bytes := encodeRecord currentShape (seq, offset, data)

def encodeDeltaRecordLegacy (offset : Nat) (data : Bytes) : Bytes := encodeRecord legacyShape (0, offset, data)

def isLegacyDeltaFormat (bytes : Bytes) : Bool :=
  bytes.length < 8 || decode (bytes.take 8) != deltaAccumulatorV2Magic

/-- `fuel` bounds the iterations; the number of bytes is enough. -/
def readRecords (sh : RecordShape) : Nat → Nat → Bytes → Except String (List DeltaRecord)
  | 0, _, _ => .ok []
  | fuel + 1, pos, rest =>
    if rest.isEmpty then .ok []
    else if rest.length < sh.seqBytes + 12 then
      .error s!"truncated {sh.label}delta record header at offset {pos}"
    else
      let seq := decode (rest.take sh.seqBytes)
      let offset := decode ((rest.drop sh.seqBytes).take 8)
      let len := decode ((rest.drop (sh.seqBytes + 8)).take 4)
      let body := rest.drop (sh.seqBytes + 12)
      if body.length < len then
        .error s!"truncated {sh.label}delta record data at offset {pos + sh.seqBytes + 12} (need {len} bytes)"
      else
        match readRecords sh fuel (pos + sh.seqBytes + 12 + len) (body.drop len) with
        | .ok records => .ok ((seq, offset, body.take len) :: records)
        | .error e => .error e

def parseDeltaRecordsLegacy (bytes : Bytes) : Except String Extents :=
  (readRecords legacyShape bytes.length 0 bytes).map (·.map Prod.snd)

/-- Ordered by write sequence, those of one sequence in file order. -/
def parseDeltaRecords (bytes : Bytes) : Except String Extents :=
  if isLegacyDeltaFormat bytes then parseDeltaRecordsLegacy bytes
  else (readRecords currentShape (bytes.drop 8).length 0 (bytes.drop 8)).map ranges

/-- None for a legacy, an empty or a truncated file. -/
def maxSeqInDeltaRecords (bytes : Bytes) : Option Nat :=
  if isLegacyDeltaFormat bytes then none
  else match readRecords currentShape (bytes.drop 8).length 0 (bytes.drop 8) with
    | .ok records => (records.map Prod.fst).max?
    | .error _ => none

/-! ## Round trip -/

/-- The fields of a record fit their widths: `u64`, `u64`, and a length of `u32`. -/
structure DeltaRecord.Fits (r : DeltaRecord) : Prop where
  seq : r.1 < 2 ^ 64
  offset : r.2.1 < 2 ^ 64
  len : r.2.2.length < 2 ^ 32

/-- The records in the order they were appended. -/
def encodeAccumulator (records : List DeltaRecord) : Bytes :=
  encode 8 deltaAccumulatorV2Magic ++ records.flatMap (encodeRecord currentShape)

lemma encodeAccumulator_append (records more : List DeltaRecord) :
    encodeAccumulator (records ++ more) = encodeAccumulator records ++ more.flatMap (encodeRecord currentShape) := by
  simp [encodeAccumulator, append_assoc]

lemma readRecords_encode_append {sh : RecordShape} {r : DeltaRecord} (hs : r.1 < 256 ^ sh.seqBytes)
    (ho : r.2.1 < 2 ^ 64) (hl : r.2.2.length < 2 ^ 32) (fuel pos : Nat) (rest : Bytes) :
    readRecords sh (fuel + 1) pos (encodeRecord sh r ++ rest) =
      match readRecords sh fuel (pos + sh.seqBytes + 12 + r.2.2.length) rest with
      | .ok records => .ok (r :: records)
      | .error e => .error e := by
  obtain ⟨seq, offset, data⟩ := r
  have e : encodeRecord sh (seq, offset, data) ++ rest
      = encode sh.seqBytes seq ++ (encode 8 offset ++ (encode 4 data.length ++ (data ++ rest))) := by
    simp [encodeRecord, append_assoc]
  have hlen : (encode sh.seqBytes seq ++ (encode 8 offset ++ (encode 4 data.length ++ (data ++ rest)))).length
      = sh.seqBytes + 12 + (data.length + rest.length) := by
    simp only [length_append, length_encode]
    omega
  rw [e, readRecords]
  have h0 : (encode sh.seqBytes seq ++ (encode 8 offset ++ (encode 4 data.length ++ (data ++ rest)))).isEmpty = false := by
    rw [isEmpty_eq_false_iff, ← length_pos_iff, hlen]
    omega
  have h8 : (encode sh.seqBytes seq ++ (encode 8 offset ++ (encode 4 data.length ++ (data ++ rest)))).drop sh.seqBytes
      = encode 8 offset ++ (encode 4 data.length ++ (data ++ rest)) := drop_left' (length_encode _ _)
  have h16 : (encode sh.seqBytes seq ++ (encode 8 offset ++ (encode 4 data.length ++ (data ++ rest)))).drop
      (sh.seqBytes + 8) = encode 4 data.length ++ (data ++ rest) := by
    rw [← drop_drop, h8, drop_left' (length_encode _ _)]
  have h20 : (encode sh.seqBytes seq ++ (encode 8 offset ++ (encode 4 data.length ++ (data ++ rest)))).drop
      (sh.seqBytes + 12) = data ++ rest := by
    rw [show sh.seqBytes + 12 = sh.seqBytes + 8 + 4 by omega, ← drop_drop, h16, drop_left' (length_encode _ _)]
  have hseq : decode ((encode sh.seqBytes seq ++ (encode 8 offset ++ (encode 4 data.length ++ (data ++ rest)))).take
      sh.seqBytes) = seq := by
    rw [take_left' (length_encode _ _), decode_encode hs]
  have hoff : decode ((encode 8 offset ++ (encode 4 data.length ++ (data ++ rest))).take 8) = offset := by
    rw [take_left' (length_encode _ _), decode_encode (by simpa using ho)]
  have hdl : decode ((encode 4 data.length ++ (data ++ rest)).take 4) = data.length := by
    rw [take_left' (length_encode _ _), decode_encode (by simpa using hl)]
  simp only [h0, hlen, h8, h16, h20, hseq, hoff, hdl, length_append, drop_left, take_left]
  rw [if_neg (by simp), if_neg (by omega), if_neg (by omega)]

variable {records : List DeltaRecord}

lemma readRecords_flatMap {sh : RecordShape}
    (h : ∀ r ∈ records, r.1 < 256 ^ sh.seqBytes ∧ r.2.1 < 2 ^ 64 ∧ r.2.2.length < 2 ^ 32) {fuel : Nat}
    (hf : records.length ≤ fuel) (pos : Nat) : readRecords sh fuel pos (records.flatMap (encodeRecord sh)) = .ok records := by
  induction records generalizing fuel pos with
  | nil => cases fuel <;> rfl
  | cons r records ih =>
    obtain ⟨fuel, rfl⟩ : ∃ n, fuel = n + 1 := ⟨fuel - 1, by simp at hf; omega⟩
    obtain ⟨hs, ho, hl⟩ := h r (by simp)
    rw [flatMap_cons, readRecords_encode_append hs ho hl, ih (fun x hx => h x (by simp [hx])) (by simpa using hf)]

lemma length_le_length_flatMap_encodeRecord (sh : RecordShape) (records : List DeltaRecord) :
    records.length ≤ (records.flatMap (encodeRecord sh)).length := by
  induction records with
  | nil => simp
  | cons r records ih =>
    simp only [flatMap_cons, length_append, length_cons, encodeRecord, length_encode]
    omega

lemma encodeAccumulator_drop (records : List DeltaRecord) :
    (encodeAccumulator records).drop 8 = records.flatMap (encodeRecord currentShape) :=
  drop_left' (length_encode _ _)

lemma isLegacyDeltaFormat_magic_append (rest : Bytes) :
    isLegacyDeltaFormat (encode 8 deltaAccumulatorV2Magic ++ rest) = false := by
  have htake : (encode 8 deltaAccumulatorV2Magic ++ rest).take 8 = encode 8 deltaAccumulatorV2Magic :=
    take_left' (length_encode _ _)
  rw [isLegacyDeltaFormat, htake, decode_encode (by decide)]
  simp

@[simp] lemma isLegacyDeltaFormat_encodeAccumulator (records : List DeltaRecord) :
    isLegacyDeltaFormat (encodeAccumulator records) = false := isLegacyDeltaFormat_magic_append _

lemma readRecords_encodeAccumulator (h : ∀ r ∈ records, r.Fits) :
    readRecords currentShape ((encodeAccumulator records).drop 8).length 0 ((encodeAccumulator records).drop 8) =
      .ok records := by
  rw [encodeAccumulator_drop]
  refine readRecords_flatMap (fun r hr => ?_) (length_le_length_flatMap_encodeRecord _ _) 0
  exact ⟨by simpa [currentShape] using (h r hr).seq, (h r hr).offset, (h r hr).len⟩

lemma parseDeltaRecords_encodeAccumulator (h : ∀ r ∈ records, r.Fits) :
    parseDeltaRecords (encodeAccumulator records) = .ok (ranges records) := by
  rw [parseDeltaRecords, isLegacyDeltaFormat_encodeAccumulator, readRecords_encodeAccumulator h]
  rfl

lemma maxSeqInDeltaRecords_encodeAccumulator (h : ∀ r ∈ records, r.Fits) :
    maxSeqInDeltaRecords (encodeAccumulator records) = (records.map Prod.fst).max? := by
  rw [maxSeqInDeltaRecords, isLegacyDeltaFormat_encodeAccumulator, readRecords_encodeAccumulator h]
  rfl

end Dfs
