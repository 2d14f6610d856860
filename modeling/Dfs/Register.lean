import Dfs.ChunkMap

/-!
# Registering locations

A record is merged with `CHUNK_TABLE`'s row of its identity, which may drop it; what is left is stored and competes
for its slot. Reads and failures are `RegisterEnv`.
-/

namespace Dfs

variable {Id : Type}

/-- Settings, the clock, which accesses succeed, and the orders in which maps are walked. -/
structure RegisterEnv (Id : Type) where
  replicationFactor : Nat
  nowMs : Nat
  rowReadable : Bool
  rowWrite : Except String Unit
  seqReadable : Slot → Bool
  seqWritable : Bool
  patchSlotReadable : Bool
  filesReadable : Bool
  liveReadable : Bool
  walk : List FileId
  arrange : Locations Id → Locations Id
  arrange_perm : ∀ l, (arrange l).Perm l

def calmRegister : RegisterEnv FreeId where
  replicationFactor := 3
  nowMs := 100
  rowReadable := true
  rowWrite := .ok ()
  seqReadable _ := true
  seqWritable := true
  patchSlotReadable := true
  filesReadable := true
  liveReadable := true
  walk := []
  arrange l := l
  arrange_perm := List.Perm.refl

def RegisterEnv.durabilityFloor (env : RegisterEnv Id) : Nat := writeQuorum env.replicationFactor

structure ChunkLocationReceipt (Id : Type) where
  fileId : Option FileId
  chunkIdx : Option Nat
  applied : Bool
  currentChunkId : Option Id
  deriving DecidableEq, Repr

inductive RegisterResponse (Id : Type) where
  | ok
  | receipts (receipts : List (ChunkLocationReceipt Id))
  | error (message : String) (code : ErrorCode)
  deriving DecidableEq, Repr

variable [DecidableEq Id]

/-! ## One location -/

variable (s : Node Id) (env : RegisterEnv Id) (loc : ChunkLocation Id) (fileId : Option FileId)

/-- The generation of a location is recorded first, for the identity and the slot. -/
def Node.recordGeneration : Option Nat → Node Id
  | none => s
  | some g =>
    let s := s.bumpChunkGeneration loc.chunkId g
    match fileId, loc.fileOffset with
    | some file, some o =>
      if env.seqWritable then
        let (s, effective) := s.putChunkSeq (file, o / chunkSize) g
        if g < effective then s.bumpChunkGeneration loc.chunkId effective else s
      else s
    | _, _ => s

lemma recordGeneration_eq (generation : Option Nat) :
    ∃ seqs gens, s.recordGeneration env loc fileId generation = s.setSequences seqs gens := by
  cases generation with
  | none => exact ⟨s.chunkSeq, s.chunkGenerations, rfl⟩
  | some g =>
    unfold Node.recordGeneration
    dsimp only
    split
    · split
      · unfold Node.putChunkSeq
        dsimp only
        split <;> split <;> exact ⟨_, _, rfl⟩
      · exact ⟨_, _, rfl⟩
    · exact ⟨_, _, rfl⟩

/-- The slot is on another token with a later sequence. -/
def Node.isSupersededTokenLocation (H : ChunkHash Id) (s : Node Id) (env : RegisterEnv Id) (loc : ChunkLocation Id) : Bool :=
  if !H.looksLikePatchToken loc.chunkId then false
  else match loc.fileId, loc.fileOffset, loc.clientWriteSeq with
    | some file, some o, some incomingSeq =>
      if !env.patchSlotReadable then false
      else match s.patchStateSlot (file, o / chunkSize) with
        | none => false
        | some currentToken => match s.patchState currentToken with
          | some (.pending _ _ _ _ (some currentSeq)) =>
            if currentToken = loc.chunkId then false else decide (incomingSeq < currentSeq)
          | _ => false
    | _, _, _ => false

def unionNodes (existing incoming : List NodeId) : List NodeId :=
  incoming.foldl (fun merged n => if merged.contains n then merged else merged ++ [n]) existing

lemma unionNodes_spec (existing incoming : List NodeId) :
    existing <+: unionNodes existing incoming ∧ incoming ⊆ unionNodes existing incoming := by
  unfold unionNodes
  induction incoming generalizing existing with
  | nil => simp
  | cons n incoming ih =>
    rw [List.foldl_cons]
    obtain ⟨hpre, hsub⟩ := ih (if existing.contains n then existing else existing ++ [n])
    have hfirst : existing <+: (if existing.contains n then existing else existing ++ [n]) ∧
        n ∈ if existing.contains n then existing else existing ++ [n] := by
      split <;> simp_all
    exact ⟨hfirst.1.trans hpre, List.cons_subset.mpr ⟨hpre.subset hfirst.2, hsub⟩⟩

omit [DecidableEq Id] in
/-- The record to store, or nothing for a stale broadcast. -/
def mergeReplicatedChunkLocation (location : ChunkLocation Id) (existing : Option (ChunkLocation Id)) (rf nowMs : Nat) :
    Option (ChunkLocation Id) :=
  match existing with
  | none => some location
  | some existing =>
    let location := { location with writtenAt := location.writtenAt.or (some nowMs) }
    let incomingCount := location.nodes.length
    let existingCount := existing.nodes.length
    let tsOk := decide (existing.writtenAt.getD 0 ≤ location.writtenAt.getD 0)
    let nodes :=
      if incomingCount < rf ∧ existingCount < rf then some (unionNodes existing.nodes location.nodes)
      else if existingCount < incomingCount then some (if tsOk then location.nodes else existing.nodes)
      else if incomingCount < rf ∧ rf ≤ existingCount then none
      else some (if tsOk then location.nodes else existing.nodes)
    nodes.map (fun nodes =>
      { location with
        nodes := nodes
        fileOffset := location.fileOffset.or existing.fileOffset
        writtenAt := existing.writtenAt.or location.writtenAt
        clientWriteSeq := location.clientWriteSeq.or existing.clientWriteSeq
        fileId := location.fileId.or existing.fileId })

omit [DecidableEq Id] in
/-- Too few nodes are added to too few and ignored by enough; enough replace the row's unless older than its stamp. -/
theorem mergeReplicatedChunkLocation_row (loc row : ChunkLocation Id) (rf nowMs : Nat) :
    mergeReplicatedChunkLocation loc (some row) rf nowMs =
      if loc.nodes.length < rf ∧ rf ≤ row.nodes.length then none
      else some { loc with
        nodes :=
          if loc.nodes.length < rf then unionNodes row.nodes loc.nodes
          else if row.writtenAt.getD 0 ≤ loc.writtenAt.getD nowMs then loc.nodes else row.nodes
        fileOffset := loc.fileOffset.or row.fileOffset
        writtenAt := row.writtenAt.or (some (loc.writtenAt.getD nowMs))
        clientWriteSeq := loc.clientWriteSeq.or row.clientWriteSeq
        fileId := loc.fileId.or row.fileId } := by
  have hstamp : loc.writtenAt.or (some nowMs) = some (loc.writtenAt.getD nowMs) := by
    cases loc.writtenAt <;> rfl
  simp only [mergeReplicatedChunkLocation, hstamp, Option.getD_some, decide_eq_true_eq]
  by_cases hfew : loc.nodes.length < rf
  · by_cases henough : rf ≤ row.nodes.length
    · have hnotUnion : ¬row.nodes.length < rf := by omega
      have hnotMore : ¬row.nodes.length < loc.nodes.length := by omega
      simp [hfew, henough, hnotUnion, hnotMore]
    have hunion : row.nodes.length < rf := by omega
    simp [hfew, henough, hunion]
  · simp [hfew]

omit [DecidableEq Id] in
lemma mergeReplicatedChunkLocation_some {loc m : ChunkLocation Id} {existing : Option (ChunkLocation Id)} {rf nowMs : Nat}
    (h : mergeReplicatedChunkLocation loc existing rf nowMs = some m) :
    m.chunkId = loc.chunkId ∧ (loc.fileOffset.isSome = true → m.fileOffset = loc.fileOffset) := by
  cases existing with
  | none =>
    cases h
    exact ⟨rfl, fun _ => rfl⟩
  | some row =>
    rw [mergeReplicatedChunkLocation_row] at h
    split at h
    · cases h
    cases h
    refine ⟨rfl, fun hsome => ?_⟩
    obtain ⟨o, ho⟩ := Option.isSome_iff_exists.mp hsome
    simp [ho]

def Node.readRow (id : Id) : Option (ChunkLocation Id) := if env.rowReadable then s.chunkTable id else none

def Node.commitLocation (loc : ChunkLocation Id) : Node Id × (Bool × Option Id) :=
  match fileId with
  | some file =>
    let (s, outcome) := s.chunkMapUpdateLocationForFile env.durabilityFloor env.seqReadable file loc
    (s, outcome.isApplied, outcome.currentChunkId)
  | none => (s.chunkMapUpdateLocation env.walk loc, true, some loc.chunkId)

def Node.handleReplicateChunkLocation (H : ChunkHash Id) (s : Node Id) (env : RegisterEnv Id) (location : ChunkLocation Id)
    (fileId : Option FileId) (generation : Option Nat) : Node Id × RegisterResponse Id :=
  let s := s.recordGeneration env location fileId generation
  if s.isSupersededTokenLocation H env location then (s, .ok)
  else match mergeReplicatedChunkLocation location (s.readRow env location.chunkId) env.replicationFactor env.nowMs with
    | none => (s, .ok)
    | some merged => match env.rowWrite with
      | .ok _ => (((s.putChunkLocation merged).commitLocation env fileId merged).1, .ok)
      | .error e => (s, .error ("Failed to replicate chunk location: " ++ e) .internalError)

/-! ## A batch -/

/-- Of an existing file; without a file, its chunk has a row of one (yes, if the rows cannot be read). -/
def Node.isLiveLocation : Bool :=
  match loc.fileId with
  | some file => env.filesReadable && s.fileExists file
  | none => !env.liveReadable || (s.chunkTable loc.chunkId).any (fun row => row.fileId.any s.fileExists)

omit [DecidableEq Id] in
/-- An identity whose row has enough nodes is left as it is. -/
def mergeBatchLocation (location : ChunkLocation Id) (existing : Option (ChunkLocation Id)) (rf : Nat) :
    Option (ChunkLocation Id) :=
  let incomingCount := location.nodes.length
  let existingCount := (existing.map (·.nodes.length)).getD 0
  let nodes :=
    if incomingCount < rf ∧ existingCount < rf then some (unionNodes ((existing.map (·.nodes)).getD []) location.nodes)
    else if rf ≤ existingCount then none
    else if incomingCount < rf then none
    else some location.nodes
  nodes.map (fun nodes =>
    { location with
      nodes := nodes
      fileOffset := location.fileOffset.or (existing.bind (·.fileOffset))
      writtenAt := (existing.bind (·.writtenAt)).or location.writtenAt
      clientWriteSeq := location.clientWriteSeq.or (existing.bind (·.clientWriteSeq))
      fileId := location.fileId.or (existing.bind (·.fileId)) })

def pendingInsert (pending : Locations Id) (loc : ChunkLocation Id) : Locations Id :=
  if pending.any (fun p => decide (p.chunkId = loc.chunkId)) then
    updateFirst (fun p => decide (p.chunkId = loc.chunkId)) (fun _ => loc) pending
  else pending ++ [loc]

/-- Merged with what the batch has for its identity, or with the row. -/
def Node.pendingStep (pending : Locations Id) (loc : ChunkLocation Id) : Locations Id :=
  if s.isLiveLocation env loc then
    match mergeBatchLocation loc
        ((pending.find? (fun p => decide (p.chunkId = loc.chunkId))).or (s.readRow env loc.chunkId)) env.replicationFactor with
    | some merged => pendingInsert pending merged
    | none => pending
  else pending

variable (locations : Locations Id)

/-- In the order the map is walked. -/
def Node.toCommit : Locations Id := env.arrange (locations.foldl (s.pendingStep env) [])

def Node.commitAll (locs : Locations Id) : Node Id × (Id → Option (Bool × Option Id)) :=
  locs.foldl (fun (s, results) loc =>
    let (s, result) := s.commitLocation env loc.fileId loc
    (s, Function.update results loc.chunkId (some result))) (s, fun _ => none)

def Node.handleReplicateChunkLocations (wantReceipts : Bool) : Node Id × RegisterResponse Id :=
  let toCommit := s.toCommit env locations
  match env.rowWrite with
  | .error _ =>
    (s, .error ("Failed to replicate " ++ toString toCommit.length ++ "/" ++ toString locations.length ++ " chunk locations")
      .internalError)
  | .ok _ =>
    let (s, results) := (toCommit.foldl Node.putChunkLocation s).commitAll env toCommit
    if wantReceipts then
      (s, .receipts (locations.map (fun l =>
        let (applied, current) := (results l.chunkId).getD (false, none)
        ⟨l.fileId, slotOf l, applied, current⟩)))
    else (s, .ok)

end Dfs
