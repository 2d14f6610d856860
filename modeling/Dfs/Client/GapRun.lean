import Dfs.Client.MetadataQueue
import Dfs.PutMetadata

/-!
# A client's metadata queue and the leader that it delivers to

A leader may apply an entry and its answer be lost. Kept beside: the records pushed, and what leaders applied.
-/

namespace Dfs

variable {Id : Type} [DecidableEq Id]

/-- With the records pushed and the locations applied. -/
structure GapRun (Id : Type) where
  queue : MetadataQueue Id
  leader : LeaderServer Id
  pushed : List (FileMetadata Id)
  delivered : Locations Id

def GapRun.start (leader : LeaderServer Id) : GapRun Id := ⟨.new, leader, [], []⟩

def PutResponse.success : PutResponse → Bool
  | .ok | .resyncMetadataRequested _ => true
  | _ => false

def GapRun.receive (s : GapRun Id) (e : MetadataEntry Id) (env : PutEnv) : GapRun Id × PutResponse :=
  let r := s.leader.handlePutFileMetadata env e.metadata e.coversFromWriteSeq
  ({ s with leader := r.1, delivered := if r.2.success then s.delivered ++ e.metadata.chunkLocations else s.delivered }, r.2)

def GapRun.Unflagged (s : GapRun Id) (e : MetadataEntry Id) : Prop :=
  detectMetadataWriteSeqGap ((s.leader.fileWriteSeqs e.metadata.id).getD 0) e.coversFromWriteSeq e.metadata.writeSeq = none

/-- An answer that does not come back is one not counted. -/
inductive GapStep (Id : Type) where
  | push (m : FileMetadata Id) (tx : Option Completion) (full : Bool) (now : Nat)
  | pop
  | checkDeleted
  | attempt (env : PutEnv) (replied : Bool)
  | popStalled (now : Nat)
  | rescueTry (i : Nat) (env : PutEnv)
  | rescue (i : Nat) (env : PutEnv) (replied : Bool)

def GapStep.sends (s : GapRun Id) : GapStep Id → Option (MetadataEntry Id × PutEnv)
  | .attempt env _ => match s.queue.worker with
    | some (e, true) => some (e, env)
    | _ => none
  | .rescueTry i env | .rescue i env _ => (s.queue.rescues[i]?).map fun e => (e, env)
  | _ => none

def GapRun.step (s : GapRun Id) (a : GapStep Id) : GapRun Id :=
  match a with
  | .push m tx full now => { s with queue := s.queue.pushInner m tx full now, pushed := m :: s.pushed }
  | .pop => { s with queue := s.queue.step .pop }
  | .checkDeleted => { s with queue := s.queue.step .checkDeleted }
  | .popStalled now => { s with queue := s.queue.step (.popStalled now) }
  | .attempt _ replied => match a.sends s with
    | some (e, env) =>
      let r := s.receive e env
      { r.1 with queue := s.queue.step (.attempt (replied && r.2.success)) }
    | none => s
  | .rescueTry _ _ => match a.sends s with
    | some (e, env) => (s.receive e env).1
    | none => s
  | .rescue i _ replied => match a.sends s with
    | some (e, env) =>
      let r := s.receive e env
      { r.1 with queue := s.queue.step (.rescue i (replied && r.2.success)) }
    | none => s

/-- Not confirmed: in the queue, with the worker or with a rescuing task. -/
def MetadataQueue.out (q : MetadataQueue Id) : List (MetadataEntry Id) :=
  q.inner ++ (q.worker.map Prod.fst).toList ++ q.rescues

end Dfs
