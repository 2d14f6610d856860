import Dfs.FileTables
import Dfs.Lib.SharedTransaction

/-!
# Group commit

`apply_ops_group`: the queued writes of the metadata store share one transaction, which is committed when all have
been applied, and nothing undoes the writes of one that fails. What isolates them is the database: it commits nothing
after an access that failed.
-/

namespace Dfs

open SharedTransaction Program Function

variable {Id : Type}

/-- The tables that queued writes change. -/
structure StoreTables (Id : Type) where
  chunkTable : Id → Option (ChunkLocation Id)
  chunkSeq : Slot → Option Nat
  patchState : Id → Option (PatchState Id)
  patchStateSlot : Slot → Option Id
  foldTimestamp : Id → Option Nat
  pendingHealing : Id → Option Nat
  durabilityHeartbeatMs : Option Nat
  files : FileTables Id

inductive MetaWriteOp (Id : Type) where
  | putChunkLocation (location : ChunkLocation Id)
  | deleteChunkLocation (chunkId : Id)
  | putChunkSeq (slot : Slot) (seq : Nat)
  | putPatchStatePending (slot : Slot) (publicToken baseChunkId deltaChunkId : Id) (size writtenAt : Nat)
    (clientWriteSeq : Option Nat)
  /-- `now` is the time the fold is stamped with. -/
  | updatePatchStateFolded (publicToken newChunkId : Id) (fileId : Option FileId) (now : Nat)
  | deletePatchStateAbandoned (publicToken : Id) (slot : Slot)
  | putPendingHealing (chunkId : Id) (detectedAtSecs : Nat)
  | deletePendingHealing (chunkId : Id)
  | flushDurability (nowMs : Nat)
  | updateChunkLocationsBatch (puts : Locations Id) (deletes pendingHealingDeletes : List Id)
  | putPendingHealingBatch (entries : List (Id × Nat))
  | putFilesBatch (items : List (FileMetadata Id))

inductive MetaError where
  | fileDeletedDuringFold (file : FileId)
  | database (message : String)

inductive MetaReply (Id : Type) where
  | unit
  | chunkSeq (effective : Nat)
  | retiredToken (token : Option Id)
  | filesBatch (results : List (PutFileResult Id))

/-- What an operation does in the transaction. -/
abbrev OpBody (Id : Type) := Program (StoreTables Id) MetaError (MetaReply Id)

namespace OpBody

def ok (reply : MetaReply Id) : OpBody Id := .done (.ok reply)

def openTable (next : OpBody Id) : OpBody Id := .read fun _ => next

def writeAll : List (StoreTables Id → StoreTables Id) → OpBody Id → OpBody Id
  | [], next => next
  | f :: fs, next => .write f (writeAll fs next)

end OpBody

open OpBody

def StoreTables.setFile (m : Option (FileMetadata Id)) (id : FileId) (s : StoreTables Id) : StoreTables Id :=
  { s with files.fileTable := update s.files.fileTable id m }

def StoreTables.seqOf (s : StoreTables Id) (slot : Slot) : Nat := (s.chunkSeq slot).getD 0

def StoreTables.setSeq (slot : Slot) (seq : Nat) (s : StoreTables Id) : StoreTables Id :=
  { s with chunkSeq := update s.chunkSeq slot (some seq) }

open StoreTables

/-- `put_file_in_txn`. A record that the path named before is removed, and that this fails is passed over. -/
def putFileInTxn (tombstoned : FileId → Bool) (metadata : FileMetadata Id) (next : PutFileResult Id → OpBody Id) : OpBody Id :=
  .read fun _ => if tombstoned metadata.id then next .deleted else
  .read fun s =>
    let r := mergeFileMetadata (s.files.fileTable metadata.id) metadata
    .read fun s =>
      let insert : OpBody Id := .write (setFile (some { r.1 with chunkLocations := [] }) metadata.id)
        (.write (fun s => { s with files.pathTable := update s.files.pathTable r.1.path (some metadata.id) })
          (next (if r.2 then .stale r.1 else .stored)))
      match s.files.pathTable r.1.path with
      | some old => if old ≠ metadata.id then .attempt (setFile none old) insert else insert
      | none => insert

def putFiles (tombstoned : FileId → Bool) : List (FileMetadata Id) → List (PutFileResult Id) → OpBody Id
  | [], results => ok (.filesBatch results)
  | metadata :: items, results => putFileInTxn tombstoned metadata fun r => putFiles tombstoned items (results ++ [r])

variable {tombstoned : FileId → Bool} {s : StoreTables Id}

/-- The sequences stay, and of its own accord the operation fails only if `c`. -/
def LeavesSeq (c : Prop) : OpBody Id → Prop := All (fun r => r.isOk = true ∨ c) fun f => ∀ s, (f s).chunkSeq = s.chunkSeq

section LeavesSeq

variable {c : Prop} {next : OpBody Id}

lemma leavesSeq_ok (reply : MetaReply Id) : LeavesSeq c (ok reply) := .inl rfl

lemma leavesSeq_writeAll (h : LeavesSeq c next) {fs : List (StoreTables Id → StoreTables Id)}
    (hfs : ∀ f ∈ fs, ∀ s, (f s).chunkSeq = s.chunkSeq) : LeavesSeq c (writeAll fs next) := by
  induction fs with
  | nil => exact h
  | cons f fs ih => exact ⟨hfs f (by simp), ih fun g hg => hfs g (by simp [hg])⟩

lemma leavesSeq_putFiles (items : List (FileMetadata Id)) (results : List (PutFileResult Id)) :
    LeavesSeq c (putFiles tombstoned items results) := by
  induction items generalizing results with
  | nil => exact leavesSeq_ok _
  | cons m items ih =>
    intro s
    dsimp only
    split
    · exact ih _
    intro s s'
    dsimp only
    split
    · split
      · exact ⟨fun _ => rfl, fun _ => rfl, fun _ => rfl, ih _⟩
      · exact ⟨fun _ => rfl, fun _ => rfl, ih _⟩
    · exact ⟨fun _ => rfl, fun _ => rfl, ih _⟩

end LeavesSeq

variable [DecidableEq Id]

namespace StoreTables

def putRow (location : ChunkLocation Id) (s : StoreTables Id) : StoreTables Id :=
  { s with chunkTable := update s.chunkTable location.chunkId (some location) }

def dropRow (chunkId : Id) (s : StoreTables Id) : StoreTables Id := { s with chunkTable := update s.chunkTable chunkId none }

def setHealing (time : Option Nat) (chunkId : Id) (s : StoreTables Id) : StoreTables Id :=
  { s with pendingHealing := update s.pendingHealing chunkId time }

def setState (state : Option (PatchState Id)) (token : Id) (s : StoreTables Id) : StoreTables Id :=
  { s with patchState := update s.patchState token state }

def setSlot (slot : Slot) (token : Option Id) (s : StoreTables Id) : StoreTables Id :=
  { s with patchStateSlot := update s.patchStateSlot slot token }

end StoreTables

def deleteHealing (chunkIds : List Id) : OpBody Id :=
  if chunkIds = [] then ok .unit else openTable (writeAll (chunkIds.map (setHealing none)) (ok .unit))

/-- The arm of `apply_ops_group`. No operation writes a tombstone, so the table of them is a parameter. -/
def MetaWriteOp.body (tombstoned : FileId → Bool) : MetaWriteOp Id → OpBody Id
  | .putChunkLocation location => openTable (.write (putRow location) (ok .unit))
  | .deleteChunkLocation chunkId => openTable (.write (dropRow chunkId) (ok .unit))
  | .putChunkSeq slot seq => openTable (.read fun s =>
      if s.seqOf slot < seq then openTable (.read fun _ =>
        if tombstoned slot.1 then ok (.chunkSeq (max seq (s.seqOf slot)))
        else .write (setSeq slot seq) (ok (.chunkSeq (max seq (s.seqOf slot)))))
      else ok (.chunkSeq (max seq (s.seqOf slot))))
  | .putPatchStatePending slot token base delta size writtenAt seq => openTable (.read fun s =>
      let retired := s.patchStateSlot slot
      let insert : OpBody Id :=
        .write (setState (some (.pending base delta size writtenAt seq)) token) (ok (.retiredToken retired))
      .write (setSlot slot (some token)) (openTable (match retired with
        | some old => .write (setState none old) insert
        | none => insert)))
  | .updatePatchStateFolded token new file now =>
      let flip : OpBody Id := openTable (.write (setState (some (.folded new)) token)
        (openTable (.write (fun s => { s with foldTimestamp := update s.foldTimestamp token (some now) }) (ok .unit))))
      match file with
      | some file => openTable (.read fun _ => if tombstoned file then .done (.error (.fileDeletedDuringFold file)) else flip)
      | none => flip
  | .deletePatchStateAbandoned token slot => openTable (.write (setState none token) (openTable (.read fun s =>
      if s.patchStateSlot slot = some token then .write (setSlot slot none) (ok .unit) else ok .unit)))
  | .putPendingHealing chunkId time => openTable (.write (setHealing (some time) chunkId) (ok .unit))
  | .deletePendingHealing chunkId => openTable (.write (setHealing none chunkId) (ok .unit))
  | .flushDurability nowMs => openTable (.write (fun s => { s with durabilityHeartbeatMs := some nowMs }) (ok .unit))
  | .updateChunkLocationsBatch puts deletes healed =>
      if puts = [] ∧ deletes = [] then deleteHealing healed
      else openTable (writeAll (puts.map putRow ++ deletes.map dropRow) (deleteHealing healed))
  | .putPendingHealingBatch entries => openTable (writeAll (entries.map fun e => setHealing (some e.2) e.1) (ok .unit))
  | .putFilesBatch items => openTable (openTable (openTable (putFiles tombstoned items [])))

/-- What the database answers to a group: the error of `begin_write`, of the accesses of each operation in turn, and
of the commit. -/
structure GroupAnswers where
  beginError : Option MetaError
  accesses : Nat → List (Option MetaError)
  commitError : Option MetaError

variable (env : GroupAnswers)

/-- The operations of a group with what the database answers to each. -/
def GroupAnswers.calls (tombstoned : FileId → Bool) (ops : List (MetaWriteOp Id)) :
    List (OpBody Id × List (Option MetaError)) :=
  ops.mapIdx fun i op => (op.body tombstoned, env.accesses i)

def applyOpsGroup (tombstoned : FileId → Bool) (s : StoreTables Id) (ops : List (MetaWriteOp Id)) :
    StoreTables Id × List (Except MetaError (MetaReply Id)) :=
  match env.beginError with
  | some e => (s, ops.map fun _ => .error e)
  | none =>
    let replies := results s (env.calls tombstoned ops)
    match env.commitError with
    | some e => (s, replies.map fun r => r.bind fun _ => .error e)
    | none => (after s (env.calls tombstoned ops), replies)

/-- The operation refuses what it is asked: a fold of a deleted file. -/
def MetaWriteOp.Refused (tombstoned : FileId → Bool) : MetaWriteOp Id → Prop
  | .updatePatchStateFolded _ _ file _ => file.any tombstoned = true
  | _ => False

lemma leavesSeq_body (op : MetaWriteOp Id) (hop : ∀ slot seq, op ≠ .putChunkSeq slot seq) :
    LeavesSeq (op.Refused tombstoned) (op.body tombstoned) := by
  cases op with
  | putChunkSeq slot seq => exact absurd rfl (hop slot seq)
  | putPatchStatePending slot token base delta size writtenAt seq =>
    intro _ s
    dsimp only
    cases s.patchStateSlot slot
    · exact ⟨fun _ => rfl, fun _ => ⟨fun _ => rfl, leavesSeq_ok _⟩⟩
    · exact ⟨fun _ => rfl, fun _ => ⟨fun _ => rfl, fun _ => rfl, leavesSeq_ok _⟩⟩
  | updatePatchStateFolded token new file now =>
    cases file with
    | none => exact fun _ => ⟨fun _ => rfl, fun _ => ⟨fun _ => rfl, leavesSeq_ok _⟩⟩
    | some file =>
      intro _ _
      split
      · exact .inr (by simpa [MetaWriteOp.Refused])
      · exact fun _ => ⟨fun _ => rfl, fun _ => ⟨fun _ => rfl, leavesSeq_ok _⟩⟩
  | deletePatchStateAbandoned token slot =>
    refine fun _ => ⟨fun _ => rfl, fun _ s => ?_⟩
    dsimp only
    split
    · exact ⟨fun _ => rfl, leavesSeq_ok _⟩
    · exact leavesSeq_ok _
  | updateChunkLocationsBatch puts deletes healed =>
    have hhealing {c : Prop} : LeavesSeq c (deleteHealing healed) := by
      unfold deleteHealing
      split
      · exact leavesSeq_ok _
      · exact fun _ => leavesSeq_writeAll (leavesSeq_ok _) (List.forall_mem_map.mpr fun _ _ _ => rfl)
    simp only [MetaWriteOp.body]
    split
    · exact hhealing
    refine fun _ => leavesSeq_writeAll hhealing (List.forall_mem_append.mpr ⟨?_, ?_⟩)
    · exact List.forall_mem_map.mpr fun _ _ _ => rfl
    · exact List.forall_mem_map.mpr fun _ _ _ => rfl
  | putPendingHealingBatch entries =>
    exact fun _ => leavesSeq_writeAll (leavesSeq_ok _) (List.forall_mem_map.mpr fun _ _ _ => rfl)
  | putFilesBatch items => exact fun _ _ _ => leavesSeq_putFiles items []
  | _ => exact fun _ => ⟨fun _ => rfl, leavesSeq_ok _⟩

/-- A submission fails and leaves the tables, or raises what is stored to the greater of the two values, which it returns. -/
theorem cleanOr_putChunkSeq (tombstoned : FileId → Bool) (s : StoreTables Id) (slot : Slot) (seq : Nat) :
    ((MetaWriteOp.putChunkSeq slot seq).body tombstoned).CleanOr (fun o => o = ⟨.ok (.chunkSeq (max seq (s.seqOf slot))),
      if s.seqOf slot < seq ∧ tombstoned slot.1 = false then s.setSeq slot seq else s⟩) s := by
  refine cleanOr_read (cleanOr_read ?_)
  by_cases hlt : s.seqOf slot < seq
  · rw [if_pos hlt]
    refine cleanOr_read (cleanOr_read ?_)
    cases hdead : tombstoned slot.1 with
    | true => exact fun _ => .inr (by simp [ok, exec])
    | false => exact cleanOr_write fun _ => by simp [ok, exec, hlt]
  · rw [if_neg hlt]
    exact fun _ => .inr (by simp [ok, exec, hlt])

/-- Where no access fails, an operation that is answered with an error leaves the tables. -/
theorem state_of_failed {op : MetaWriteOp Id} {e : MetaError} (h : ((op.body tombstoned).exec [] s).result = .error e) :
    ((op.body tombstoned).exec [] s).state = s := by
  by_cases hop : ∃ slot seq, op = .putChunkSeq slot seq
  · obtain ⟨slot, seq, rfl⟩ := hop
    rcases cleanOr_putChunkSeq tombstoned s slot seq [] with ⟨e, hfailed⟩ | hok
    · rw [hfailed]
    · rw [hok] at h
      cases h
  rcases All.result (s := s) (leavesSeq_body op fun slot seq h => hop ⟨slot, seq, h⟩) with hok | hrefused
  · rw [h] at hok
    cases hok
  cases op with
  | updatePatchStateFolded token new file now =>
    cases file with
    | none => cases hrefused
    | some file => simp_all [MetaWriteOp.body, MetaWriteOp.Refused, openTable, exec]
  | _ => cases hrefused

/-! ## Isolation -/

/-- After one failed I/O the database refuses every write until it is reopened, so it commits no transaction with a
failed access. -/
def GroupAnswers.CommitsClean : Prop := env.commitError = none → ∀ i, ∀ a ∈ env.accesses i, a = none

/-- The operation alone in a transaction, with no failure of the database. -/
def MetaWriteOp.alone (tombstoned : FileId → Bool) (op : MetaWriteOp Id) (s : StoreTables Id) :
    StoreTables Id × List (Except MetaError (MetaReply Id)) :=
  applyOpsGroup ⟨none, fun _ => [], none⟩ tombstoned s [op]

/-- The tables that the operations answered with success leave, each alone after the ones before it. -/
def succeeded (tombstoned : FileId → Bool) (s : StoreTables Id)
    (answered : List (MetaWriteOp Id × Except MetaError (MetaReply Id))) :
    StoreTables Id :=
  answered.foldl (fun s x => if x.2.isOk then (x.1.alone tombstoned s).1 else s) s

/-- The tables in the transaction before the operation at a place. -/
def GroupAnswers.tablesAt (tombstoned : FileId → Bool) (s : StoreTables Id) (ops : List (MetaWriteOp Id)) (i : Nat) :
    StoreTables Id :=
  after s ((env.calls tombstoned ops).take i)

variable {env} {ops : List (MetaWriteOp Id)} {i : Nat} {op : MetaWriteOp Id} {reply : Except MetaError (MetaReply Id)}

lemma GroupAnswers.CommitsClean.step (henv : env.CommitsClean) (hc : env.commitError = none)
    (h : (ops.zip (results s (env.calls tombstoned ops)))[i]? = some (op, reply)) :
    ((op.body tombstoned).exec [] (env.tablesAt tombstoned s ops i)) = ⟨reply, env.tablesAt tombstoned s ops (i + 1)⟩ := by
  obtain ⟨hop, hreply⟩ := List.getElem?_zip_eq_some.mp h
  have hcall : (env.calls tombstoned ops)[i]? = some (op.body tombstoned, env.accesses i) := by simp [GroupAnswers.calls, hop]
  rw [results_getElem? hcall] at hreply
  cases hreply
  rw [tablesAt, tablesAt, after_take_succ hcall, exec_eq_of_clean (henv hc i)]

/-- An operation that is answered with an error leaves the tables of the transaction, and one answered with success
does what it does alone. -/
theorem GroupAnswers.CommitsClean.tablesAt_succ (henv : env.CommitsClean) (hc : env.commitError = none)
    (h : (ops.zip (results s (env.calls tombstoned ops)))[i]? = some (op, reply)) :
    (reply.isOk = false → env.tablesAt tombstoned s ops (i + 1) = env.tablesAt tombstoned s ops i) ∧
      (reply.isOk = true → op.alone tombstoned (env.tablesAt tombstoned s ops i) =
        (env.tablesAt tombstoned s ops (i + 1), [reply])) := by
  have hstep := henv.step hc h
  cases reply with
  | error e =>
    have hleft := state_of_failed (congrArg Execution.result hstep)
    rw [hstep] at hleft
    exact ⟨fun _ => hleft, nofun⟩
  | ok x => exact ⟨nofun, fun _ => by simp [MetaWriteOp.alone, applyOpsGroup, GroupAnswers.calls, results, after, hstep]⟩

lemma GroupAnswers.CommitsClean.tablesAt_eq (henv : env.CommitsClean) (hc : env.commitError = none) (i : Nat) :
    env.tablesAt tombstoned s ops i = succeeded tombstoned s ((ops.zip (results s (env.calls tombstoned ops))).take i) := by
  induction i with
  | zero => rfl
  | succ i ih =>
    rw [List.take_add_one]
    cases h : (ops.zip (results s (env.calls tombstoned ops)))[i]? with
    | none =>
      have hlen : (env.calls tombstoned ops).length ≤ i := by
        simpa [length_results, GroupAnswers.calls] using List.getElem?_eq_none_iff.mp h
      rw [Option.toList_none, List.append_nil, ← ih, tablesAt, tablesAt, List.take_of_length_le hlen,
        List.take_of_length_le (by omega)]
    | some x =>
      obtain ⟨herror, hok⟩ := henv.tablesAt_succ hc h
      simp only [succeeded, Option.toList_some, List.foldl_append, List.foldl_cons, List.foldl_nil] at ih ⊢
      rw [← ih]
      split
      · rename_i hreply
        rw [hok hreply]
      · rename_i hreply
        exact herror (by simpa using hreply)

/-- A group that is not committed leaves the tables and is answered with errors. In one that is, each operation
answered with an error has written nothing, and each answered with success has the effect and the answer it has alone,
after those before it that succeeded. -/
theorem group_isolates (henv : env.CommitsClean) (tombstoned : FileId → Bool) (s : StoreTables Id) (ops : List (MetaWriteOp Id)) :
    let r := applyOpsGroup env tombstoned s ops
    r.2.length = ops.length ∧
      (env.beginError.isSome ∨ env.commitError.isSome → r.1 = s ∧ ∀ reply ∈ r.2, reply.isOk = false) ∧
      (env.beginError = none → env.commitError = none → r.1 = succeeded tombstoned s (ops.zip r.2) ∧
        ∀ i op reply, (ops.zip r.2)[i]? = some (op, reply) →
          let before := succeeded tombstoned s ((ops.zip r.2).take i)
          env.tablesAt tombstoned s ops i = before ∧
            (reply.isOk = false → env.tablesAt tombstoned s ops (i + 1) = before) ∧
            (reply.isOk = true → op.alone tombstoned before = (env.tablesAt tombstoned s ops (i + 1), [reply]))) := by
  have hlen : (results s (env.calls tombstoned ops)).length = ops.length := by
    rw [length_results, GroupAnswers.calls, List.length_mapIdx]
  cases hb : env.beginError with
  | some e => simp [applyOpsGroup, hb, Except.isOk, Except.toBool]
  | none =>
    cases hc : env.commitError with
    | some e =>
      simp only [applyOpsGroup, hb, hc]
      refine ⟨by simpa using hlen, fun _ => ⟨trivial, List.forall_mem_map.mpr fun reply _ => ?_⟩, nofun⟩
      cases reply <;> rfl
    | none =>
      simp only [applyOpsGroup, hb, hc]
      refine ⟨hlen, by simp, fun _ _ => ⟨?_, fun i op reply h => ?_⟩⟩
      · have hall : env.tablesAt tombstoned s ops ops.length = _ := henv.tablesAt_eq hc _
        rwa [GroupAnswers.tablesAt, List.take_of_length_le (by simp [GroupAnswers.calls]),
          List.take_of_length_le (by simp [hlen])] at hall
      · rw [← henv.tablesAt_eq hc i]
        exact ⟨rfl, henv.tablesAt_succ hc h⟩

def emptyTables : StoreTables Nat :=
  ⟨fun _ => none, fun _ => none, fun _ => none, fun _ => none, fun _ => none, fun _ => none, none, .empty⟩

/-- A fold of a deleted file is refused, and the put and the submission in the same group do what they do without it. -/
theorem refused_fold_isolated :
    let env : GroupAnswers := ⟨none, fun _ => [none, none], none⟩
    let ops : List (MetaWriteOp Nat) :=
      [.putFilesBatch [⟨7, ['/', 'a'], 0, .regularFile, [], 1⟩], .updatePatchStateFolded 1 2 (some 9) 0, .putChunkSeq (7, 0) 5]
    let r := applyOpsGroup env (· == 9) emptyTables ops
    r.2.map (·.isOk) = [true, false, true] ∧ r.1.seqOf (7, 0) = 5 ∧ r.1 = succeeded (· == 9) emptyTables (ops.zip r.2) :=
  ⟨rfl, rfl, ((group_isolates (fun _ => by simp) _ _ _).2.2 rfl rfl).1⟩

end Dfs
