import Dfs.GroupCommit

/-!
# The sequence of a slot

`put_chunk_seq` alone and in a group: what is stored for a slot is the greatest value submitted, and a caller is
answered with what is stored after its own write.
-/

namespace Dfs

open SharedTransaction Program Function StoreTables OpBody

variable {Id : Type} [DecidableEq Id] {tombstoned : FileId → Bool} {s : StoreTables Id} {slot : Slot} {seq v : Nat}

/-- `put_chunk_seq`: a transaction of its own, dropped where an access fails. -/
def putChunkSeq (env : GroupAnswers) (tombstoned : FileId → Bool) (s : StoreTables Id) (slot : Slot) (seq : Nat) :
    StoreTables Id × Except MetaError (MetaReply Id) :=
  match env.beginError with
  | some e => (s, .error e)
  | none =>
    let o := ((MetaWriteOp.putChunkSeq slot seq).body tombstoned).exec (env.accesses 0) s
    match o.result, env.commitError with
    | .error e, _ => (s, .error e)
    | .ok _, some e => (s, .error e)
    | .ok reply, none => (o.state, .ok reply)

inductive SeqCall (Id : Type) where
  | direct (slot : Slot) (seq : Nat)
  | group (ops : List (MetaWriteOp Id))

def SeqCall.ops : SeqCall Id → List (MetaWriteOp Id)
  | .direct slot seq => [.putChunkSeq slot seq]
  | .group ops => ops

/-- The tables after the call, and what the callers of its operations are answered. -/
def SeqCall.apply (env : GroupAnswers) (tombstoned : FileId → Bool) (s : StoreTables Id) :
    SeqCall Id → StoreTables Id × List (Except MetaError (MetaReply Id))
  | .direct slot seq =>
    let r := putChunkSeq env tombstoned s slot seq
    (r.1, [r.2])
  | .group ops => applyOpsGroup env tombstoned s ops

/-- A value submitted for the slot, the answer to its caller, and what is stored after the write. -/
structure SeqAnswer where
  submitted : Nat
  returned : Nat
  stored : Nat

/-- A submission for the slot that is not answered with an error. -/
def seqAnswer (slot : Slot) : MetaWriteOp Id → Except MetaError (MetaReply Id) → StoreTables Id → List SeqAnswer
  | .putChunkSeq slot' seq, .ok (.chunkSeq r), s => if slot' = slot then [⟨seq, r, s.seqOf slot⟩] else []
  | _, _, _ => []

/-- The submissions for the slot among operations with the replies to them. What is stored after one is read in the
transaction. -/
def seqLog (tombstoned : FileId → Bool) (slot : Slot) : (Nat → List (Option MetaError)) → StoreTables Id →
    List (MetaWriteOp Id × Except MetaError (MetaReply Id)) → List SeqAnswer
  | _, _, [] => []
  | accesses, s, (op, reply) :: rest =>
    let s' := ((op.body tombstoned).exec (accesses 0) s).state
    seqAnswer slot op reply s' ++ seqLog tombstoned slot (fun i => accesses (i + 1)) s' rest

/-- The tables after a run of calls, and the submissions for the slot that were not answered with an error. -/
def runCalls (tombstoned : FileId → Bool) (slot : Slot) : StoreTables Id → List (GroupAnswers × SeqCall Id) →
    StoreTables Id × List SeqAnswer
  | s, [] => (s, [])
  | s, (env, c) :: calls =>
    let r := c.apply env tombstoned s
    let rest := runCalls tombstoned slot r.1 calls
    (rest.1, seqLog tombstoned slot env.accesses s (c.ops.zip r.2) ++ rest.2)

def greatest (v : Nat) (log : List SeqAnswer) : Nat := log.foldl (fun v e => max v e.submitted) v

/-- Each answer is the greatest value submitted so far, which is stored after the write. -/
def Answered : Nat → List SeqAnswer → Prop
  | _, [] => True
  | v, e :: log => e.returned = max v e.submitted ∧ e.stored = e.returned ∧ Answered (max v e.submitted) log

lemma answered_append {l l' : List SeqAnswer} : Answered v (l ++ l') ↔ Answered v l ∧ Answered (greatest v l) l' := by
  induction l generalizing v with
  | nil => simp [Answered, greatest]
  | cons e l ih => simp [Answered, greatest, ih, and_assoc]

lemma Answered.ordered {log : List SeqAnswer} (h : Answered v log) :
    log.Pairwise (fun e e' => e.returned ≤ e'.returned) ∧ ∀ e ∈ log, v ≤ e.returned := by
  induction log generalizing v with
  | nil => simp
  | cons e log ih =>
    obtain ⟨hreturned, -, hrest⟩ := h
    obtain ⟨hpair, hle⟩ := ih hrest
    refine ⟨List.pairwise_cons.mpr ⟨fun e' he' => hreturned ▸ hle e' he', hpair⟩, List.forall_mem_cons.mpr ⟨by omega, ?_⟩⟩
    exact fun e' he' => Nat.le_trans (Nat.le_max_left ..) (hle e' he')

/-- What an operation submits for the slot of a file that was not deleted, and what it leaves there. -/
theorem answered_seqAnswer (hlive : tombstoned slot.1 = false) (op : MetaWriteOp Id) (answers : List (Option MetaError)) :
    let o := (op.body tombstoned).exec answers s
    Answered (s.seqOf slot) (seqAnswer slot op o.result o.state) ∧
      o.state.seqOf slot = greatest (s.seqOf slot) (seqAnswer slot op o.result o.state) := by
  by_cases hop : ∃ slot' seq, op = .putChunkSeq slot' seq
  · obtain ⟨slot', seq, rfl⟩ := hop
    rcases cleanOr_putChunkSeq tombstoned s slot' seq answers with ⟨e, ho⟩ | ho
    · rw [ho]
      exact ⟨trivial, rfl⟩
    rw [ho]
    by_cases hslot : slot' = slot
    · subst hslot
      have hstored : (if s.seqOf slot' < seq ∧ tombstoned slot'.1 = false then s.setSeq slot' seq else s).seqOf slot' =
          max (s.seqOf slot') seq := by
        by_cases hlt : s.seqOf slot' < seq
        · rw [if_pos ⟨hlt, hlive⟩, Nat.max_eq_right (Nat.le_of_lt hlt)]
          simp [setSeq, seqOf]
        · rw [if_neg (fun h => hlt h.1), Nat.max_eq_left (Nat.not_lt.mp hlt)]
      simp [seqAnswer, Answered, greatest, hstored, Nat.max_comm]
    · have hstored : (if s.seqOf slot' < seq ∧ tombstoned slot'.1 = false then s.setSeq slot' seq else s).seqOf slot =
        s.seqOf slot := by
        split
        · simp [setSeq, seqOf, update_of_ne (Ne.symm hslot)]
        · rfl
      simp [seqAnswer, hslot, Answered, greatest, hstored]
  · have hnone {reply} {s : StoreTables Id} : seqAnswer slot op reply s = [] := by
      unfold seqAnswer
      split
      · exact absurd ⟨_, _, rfl⟩ hop
      · rfl
    have hleaves : LeavesSeq (op.Refused tombstoned) (op.body tombstoned) :=
      leavesSeq_body op fun slot' seq h => hop ⟨slot', seq, h⟩
    have hstate : ((op.body tombstoned).exec answers s).state.chunkSeq = s.chunkSeq := All.state hleaves fun _ h => h
    simp [hnone, Answered, greatest, seqOf, hstate]

/-- The answers of a group that is committed. -/
theorem answered_seqLog (hlive : tombstoned slot.1 = false) (env : GroupAnswers) (ops : List (MetaWriteOp Id)) :
    let log := seqLog tombstoned slot env.accesses s (ops.zip (results s (env.calls tombstoned ops)))
    Answered (s.seqOf slot) log ∧ (after s (env.calls tombstoned ops)).seqOf slot = greatest (s.seqOf slot) log := by
  induction ops generalizing s env with
  | nil => exact ⟨trivial, rfl⟩
  | cons op ops ih =>
    obtain ⟨hone, hstored⟩ := answered_seqAnswer (s := s) hlive op (env.accesses 0)
    obtain ⟨hrest, hlast⟩ := ih (s := ((op.body tombstoned).exec (env.accesses 0) s).state)
      { env with accesses := fun i => env.accesses (i + 1) }
    rw [hstored] at hrest hlast
    simp only [GroupAnswers.calls, List.mapIdx_cons, results, List.zip_cons_cons, seqLog] at hrest hlast ⊢
    refine ⟨answered_append.mpr ⟨hone, hrest⟩, ?_⟩
    simp only [greatest, List.foldl_append] at hlast ⊢
    exact hlast

/-- Nobody is answered with a value where every reply is an error. -/
theorem seqLog_of_errors {answered : List (MetaWriteOp Id × Except MetaError (MetaReply Id))}
    (h : ∀ x ∈ answered, ∃ e, x.2 = .error e)
    (accesses : Nat → List (Option MetaError)) (s : StoreTables Id) : seqLog tombstoned slot accesses s answered = [] := by
  induction answered generalizing accesses s with
  | nil => rfl
  | cons x answered ih =>
    obtain ⟨op, reply⟩ := x
    obtain ⟨e, rfl⟩ : ∃ e, reply = .error e := h _ List.mem_cons_self
    simp only [seqLog, ih fun x hx => h x (List.mem_cons_of_mem _ hx), List.append_nil]
    cases op <;> rfl

/-- A call of its own leaves and answers what it does as a group. -/
theorem SeqCall.apply_eq (env : GroupAnswers) (s : StoreTables Id) (c : SeqCall Id) :
    c.apply env tombstoned s = applyOpsGroup env tombstoned s c.ops := by
  cases c with
  | group ops => rfl
  | direct slot seq =>
    have hcases := cleanOr_putChunkSeq tombstoned s slot seq (env.accesses 0)
    unfold SeqCall.apply SeqCall.ops applyOpsGroup putChunkSeq
    cases hb : env.beginError with
    | some e => rfl
    | none =>
      simp only [GroupAnswers.calls, List.mapIdx_cons, List.mapIdx_nil, results, after, List.foldl_cons, List.foldl_nil]
      rcases hcases with ⟨e, ho⟩ | ho
      · rw [ho]
        cases hc : env.commitError <;> rfl
      · rw [ho]
        cases hc : env.commitError <;> rfl

/-- What one call answers for the slot and leaves there. -/
theorem SeqCall.answered (hlive : tombstoned slot.1 = false) (env : GroupAnswers) (s : StoreTables Id) (c : SeqCall Id) :
    let r := c.apply env tombstoned s
    let log := seqLog tombstoned slot env.accesses s (c.ops.zip r.2)
    Answered (s.seqOf slot) log ∧ r.1.seqOf slot = greatest (s.seqOf slot) log := by
  have hlost {replies : List (Except MetaError (MetaReply Id))} (h : ∀ reply ∈ replies, ∃ e, reply = .error e) :
      seqLog tombstoned slot env.accesses s (c.ops.zip replies) = [] :=
    seqLog_of_errors (fun x hx => h _ (List.of_mem_zip hx).2) _ _
  rw [c.apply_eq, applyOpsGroup]
  cases env.beginError with
  | some e =>
    simp only [hlost (List.forall_mem_map.mpr fun _ _ => ⟨e, rfl⟩)]
    exact ⟨trivial, rfl⟩
  | none =>
    cases env.commitError with
    | some e =>
      have herrors : ∀ r ∈ results s (env.calls tombstoned c.ops), ∃ e',
        (r.bind fun _ => .error e : Except _ (MetaReply Id)) = .error e' := by
        intro r _
        cases r <;> exact ⟨_, rfl⟩
      simp only [hlost (List.forall_mem_map.mpr herrors)]
      exact ⟨trivial, rfl⟩
    | none => exact answered_seqLog hlive env c.ops

/-- For a slot of a file that was not deleted, what is stored after a run of calls, alone and in groups, is the
greatest of what was there and what was submitted; each caller is answered with what is stored after its own write,
and no answer is below one before. -/
theorem slot_sequence_monotone (hlive : tombstoned slot.1 = false) (s : StoreTables Id)
    (calls : List (GroupAnswers × SeqCall Id)) :
    let r := runCalls tombstoned slot s calls
    r.1.seqOf slot = greatest (s.seqOf slot) r.2 ∧ Answered (s.seqOf slot) r.2 ∧
      r.2.Pairwise fun e e' => e.returned ≤ e'.returned := by
  intro r
  suffices h : r.1.seqOf slot = greatest (s.seqOf slot) r.2 ∧ Answered (s.seqOf slot) r.2 from ⟨h.1, h.2, h.2.ordered.1⟩
  subst r
  induction calls generalizing s with
  | nil => exact ⟨rfl, trivial⟩
  | cons call calls ih =>
    obtain ⟨env, c⟩ := call
    obtain ⟨hgroup, hlast⟩ := c.answered hlive env s
    obtain ⟨hstored, hanswered⟩ := ih (c.apply env tombstoned s).1
    rw [hlast] at hstored hanswered
    refine ⟨?_, answered_append.mpr ⟨hgroup, hanswered⟩⟩
    simp only [runCalls, hstored, greatest, List.foldl_append]

/-- A call, and a group of a late one and a new one. -/
theorem late_submission_answered :
    let quiet : GroupAnswers := ⟨none, fun _ => [], none⟩
    let r := runCalls (fun _ => false) (7, 0) emptyTables
      [(quiet, .direct (7, 0) 5), (quiet, .group [.putChunkSeq (7, 0) 3, .putChunkSeq (7, 0) 9])]
    r.2.map SeqAnswer.returned = [5, 5, 9] ∧ r.1.seqOf (7, 0) = greatest 0 r.2 :=
  ⟨rfl, (slot_sequence_monotone rfl _ _).1⟩

end Dfs
