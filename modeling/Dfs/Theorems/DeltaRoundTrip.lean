import Dfs.DeltaFormat

/-!
# Round trip and exactness of the delta format

What the parser accepts behind the magic is a concatenation of encoded records (`flatMap_of_readRecords`), and any is
read back, stably by write sequence.
-/

namespace Dfs

open LittleEndian Stamped List

/-- By write sequence, those of one sequence in the order they had. -/
structure StablySorted (records sorted : List DeltaRecord) : Prop where
  perm : sorted.Perm records
  ordered : sorted.Pairwise (fun r r' => r.1 ≤ r'.1)
  stable : ∀ seq, sorted.filter (fun r => decide (r.1 = seq)) = records.filter (fun r => decide (r.1 = seq))

lemma stablySorted_sortBy (records : List DeltaRecord) : StablySorted records (sortBy Prod.fst records) :=
  ⟨sortBy_perm _ _, sortBy_pairwise _ _, fun seq => filter_sortBy _ seq _⟩

variable {sh : RecordShape} {rest : Bytes}

lemma eq_encodeRecord_append (hheader : sh.seqBytes + 12 ≤ rest.length)
    (hdata : decode ((rest.drop (sh.seqBytes + 8)).take 4) ≤ (rest.drop (sh.seqBytes + 12)).length) :
    rest = encodeRecord sh (decode (rest.take sh.seqBytes), decode ((rest.drop sh.seqBytes).take 8),
        (rest.drop (sh.seqBytes + 12)).take (decode ((rest.drop (sh.seqBytes + 8)).take 4))) ++
      (rest.drop (sh.seqBytes + 12)).drop (decode ((rest.drop (sh.seqBytes + 8)).take 4)) := by
  have hseq : (rest.take sh.seqBytes).length = sh.seqBytes := by
    rw [length_take]
    omega
  have hoffset : ((rest.drop sh.seqBytes).take 8).length = 8 := by
    rw [length_take, length_drop]
    omega
  have hlen : ((rest.drop (sh.seqBytes + 8)).take 4).length = 4 := by
    rw [length_take, length_drop]
    omega
  -- each field is what its number is written as
  have eseq := encode_decode (rest.take sh.seqBytes)
  have eoffset := encode_decode ((rest.drop sh.seqBytes).take 8)
  have elen := encode_decode ((rest.drop (sh.seqBytes + 8)).take 4)
  rw [hseq] at eseq
  rw [hoffset] at eoffset
  rw [hlen] at elen
  rw [encodeRecord, length_take_of_le hdata, eseq, eoffset, elen]
  have htail : (rest.drop (sh.seqBytes + 8)).take 4 ++ rest.drop (sh.seqBytes + 12) = rest.drop (sh.seqBytes + 8) := by
    have h := take_append_drop 4 (rest.drop (sh.seqBytes + 8))
    rwa [drop_drop] at h
  have hfields : (rest.drop sh.seqBytes).take 8 ++ rest.drop (sh.seqBytes + 8) = rest.drop sh.seqBytes := by
    rw [← drop_drop, take_append_drop]
  simp only [append_assoc, take_append_drop, htail, hfields]

lemma flatMap_of_readRecords {fuel pos : Nat} {records : List DeltaRecord} (hfuel : rest.length ≤ fuel)
    (h : readRecords sh fuel pos rest = .ok records) : rest = records.flatMap (encodeRecord sh) ∧
      ∀ r ∈ records, r.1 < 256 ^ sh.seqBytes ∧ r.2.1 < 2 ^ 64 ∧ r.2.2.length < 2 ^ 32 := by
  induction fuel generalizing pos rest records with
  | zero =>
    cases h
    simpa using hfuel
  | succ fuel ih =>
    rw [readRecords] at h
    split at h
    · next hempty =>
      cases h
      simpa using hempty
    split at h
    · cases h
    next hheader =>
    simp only at h
    split at h
    · cases h
    next hdata =>
    split at h
    · next more hmore =>
      cases h
      have hlt : ((rest.drop (sh.seqBytes + 12)).drop (decode ((rest.drop (sh.seqBytes + 8)).take 4))).length ≤ fuel := by
        rw [length_drop, length_drop]
        omega
      obtain ⟨hrest, hfits⟩ := ih hlt hmore
      refine ⟨?_, ?_⟩
      · rw [flatMap_cons, ← hrest]
        exact eq_encodeRecord_append (by omega) (by omega)
      · intro r hr
        rcases mem_cons.1 hr with rfl | hr
        · have hlen : decode ((rest.drop (sh.seqBytes + 8)).take 4) < 256 ^ 4 := decode_take_lt 4 _
          exact ⟨decode_take_lt _ _, decode_take_lt 8 _, (length_take_le _ _).trans_lt hlen⟩
        · exact hfits r hr
    · cases h

lemma parseDeltaRecords_ok_iff (rest : Bytes) : (∃ out, parseDeltaRecords (encode 8 deltaAccumulatorV2Magic ++ rest) = .ok out) ↔
      ∃ records : List DeltaRecord, (∀ r ∈ records, r.Fits) ∧ rest = records.flatMap (encodeRecord currentShape) := by
  have hdrop : (encode 8 deltaAccumulatorV2Magic ++ rest).drop 8 = rest := drop_left' (length_encode _ _)
  constructor
  · rintro ⟨out, h⟩
    rw [parseDeltaRecords, isLegacyDeltaFormat_magic_append, hdrop] at h
    cases hread : readRecords currentShape rest.length 0 rest with
    | error e =>
      rw [hread] at h
      cases h
    | ok records =>
      obtain ⟨hrest, hfits⟩ := flatMap_of_readRecords le_rfl hread
      exact ⟨records, fun r hr => ⟨(hfits r hr).1, (hfits r hr).2.1, (hfits r hr).2.2⟩, hrest⟩
  · rintro ⟨records, hfits, hrest⟩
    exact ⟨ranges records, hrest ▸ parseDeltaRecords_encodeAccumulator hfits⟩

/-- Encoded records are parsed to their ranges in the stable order of write sequences, with the greatest; nothing else
is parsed. -/
theorem delta_round_trip (records : List DeltaRecord) (hfits : ∀ r ∈ records, r.Fits) (rest : Bytes) :
    (∃ sorted, StablySorted records sorted ∧
      parseDeltaRecords (encode 8 deltaAccumulatorV2Magic ++ records.flatMap (fun r => encodeDeltaRecord r.1 r.2.1 r.2.2)) =
        .ok (sorted.map Prod.snd)) ∧
      (∀ seq, maxSeqInDeltaRecords
          (encode 8 deltaAccumulatorV2Magic ++ records.flatMap (fun r => encodeDeltaRecord r.1 r.2.1 r.2.2)) = some seq ↔
        seq ∈ records.map Prod.fst ∧ ∀ s ∈ records.map Prod.fst, s ≤ seq) ∧
      ((∃ out, parseDeltaRecords (encode 8 deltaAccumulatorV2Magic ++ rest) = .ok out) ↔
        ∃ written : List DeltaRecord, (∀ r ∈ written, r.Fits) ∧
          rest = written.flatMap (fun r => encodeDeltaRecord r.1 r.2.1 r.2.2)) := by
  refine ⟨⟨sortBy Prod.fst records, stablySorted_sortBy records, ?_⟩, fun seq => ?_, parseDeltaRecords_ok_iff rest⟩
  · exact parseDeltaRecords_encodeAccumulator hfits
  · have hmax := maxSeqInDeltaRecords_encodeAccumulator hfits
    rw [encodeAccumulator] at hmax
    exact (iff_of_eq (congrArg (· = some seq) hmax)).trans max?_eq_some_iff

/-- Two records that were appended against the order of their write sequences. -/
theorem delta_round_trip_swapped : ∃ sorted, StablySorted [(2, 0, [7]), (1, 4, [8, 9])] sorted ∧
      parseDeltaRecords (encode 8 deltaAccumulatorV2Magic ++
        [(2, 0, [7]), (1, 4, [8, 9])].flatMap (fun r => encodeDeltaRecord r.1 r.2.1 r.2.2)) = .ok (sorted.map Prod.snd) :=
  (delta_round_trip [(2, 0, [7]), (1, 4, [8, 9])]
    (by
      intro r hr
      simp only [mem_cons, not_mem_nil, or_false] at hr
      rcases hr with rfl | rfl <;> exact ⟨by decide, by decide, by decide⟩)
    [0]).1

end Dfs
