import Dfs.Lib.Transition

/-!
# Coalesced syncs

`DurabilityCoalescer`: a worker gathers requests into batches, syncs once for each and answers all. A request is told
by its number, a sync by how many had come at its start; the worker reads neither.
-/

namespace Dfs

open List Transition

inductive DurabilityClass where
  | foreground | background
  deriving DecidableEq

structure FlushReq where
  id : Nat
  cls : DurabilityClass

/-- It waits, lingers, sweeps, has found the queue empty, or is in `syncfs` over the requests before. -/
inductive WorkerPhase where
  | idle
  | lingering (batch : List FlushReq)
  | sweeping (batch : List FlushReq)
  | swept (batch : List FlushReq)
  | syncing (batch : List FlushReq) (started : Nat)

def WorkerPhase.batch : WorkerPhase → List FlushReq
  | .idle => []
  | .lingering batch | .sweeping batch | .swept batch | .syncing batch _ => batch

/-- With the requests, their answers, and the syncs that ended. -/
structure Coalescer where
  submitted : Nat
  queue : List FlushReq
  phase : WorkerPhase
  answers : List (Nat × Except String Unit)
  syncs : List (Nat × Except String Unit)

def Coalescer.new : Coalescer := ⟨0, [], .idle, [], []⟩

def Coalescer.syncDurable (cls : DurabilityClass) (s : Coalescer) : Coalescer :=
  { s with submitted := s.submitted + 1, queue := s.queue ++ [⟨s.submitted, cls⟩] }

/-- With whether `linger` is over, and the result if a sync ends. -/
def Coalescer.work (timeUp : Bool) (result : Except String Unit) (s : Coalescer) : Coalescer :=
  match s.phase, s.queue with
  | .idle, [] => s
  | .idle, r :: rest => { s with queue := rest, phase := if r.cls = .foreground then .sweeping [r] else .lingering [r] }
  | .lingering batch, [] => if timeUp then { s with phase := .sweeping batch } else s
  | .lingering batch, r :: rest =>
    if timeUp then { s with phase := .sweeping batch }
    else { s with queue := rest, phase := if r.cls = .foreground then .sweeping (batch ++ [r]) else .lingering (batch ++ [r]) }
  | .sweeping batch, r :: rest => { s with queue := rest, phase := .sweeping (batch ++ [r]) }
  | .sweeping batch, [] => { s with phase := .swept batch }
  | .swept batch, _ => { s with phase := .syncing batch s.submitted }
  | .syncing batch started, _ =>
    { s with phase := .idle, answers := s.answers ++ batch.map (·.id, result), syncs := s.syncs ++ [(started, result)] }

inductive CoalescerStep where
  | syncDurable (cls : DurabilityClass)
  | work (timeUp : Bool) (result : Except String Unit)

def Coalescer.step (s : Coalescer) : CoalescerStep → Coalescer
  | .syncDurable cls => s.syncDurable cls
  | .work timeUp result => s.work timeUp result

namespace Coalescer

/-- Each request is answered, in the batch or queued, in order; the batch came before its sync; success is covered by one. -/
structure Sound (s : Coalescer) : Prop where
  inOrder : s.answers.map Prod.fst ++ s.phase.batch.map FlushReq.id ++ s.queue.map FlushReq.id = List.range s.submitted
  started : ∀ batch n, s.phase = .syncing batch n → ∀ r ∈ batch, r.id < n
  honest : ∀ id, (id, .ok ()) ∈ s.answers → ∃ n, id < n ∧ (n, .ok ()) ∈ s.syncs

variable {s : Coalescer}

lemma sound_syncDurable (cls : DurabilityClass) (h : s.Sound) : (s.syncDurable cls).Sound where
  inOrder := by simp [syncDurable, range_succ, ← h.inOrder]
  started := h.started
  honest := h.honest

lemma Sound.gather (h : s.Sound) {queue : List FlushReq} {phase : WorkerPhase}
    (hsame : phase.batch ++ queue = s.phase.batch ++ s.queue)
    (hstart : ∀ batch n, phase ≠ .syncing batch n) : Sound { s with queue := queue, phase := phase } where
  inOrder := by
    have hids := congrArg (List.map FlushReq.id) hsame
    simp only [map_append] at hids
    simp [hids, ← h.inOrder]
  started batch n hphase := absurd hphase (hstart batch n)
  honest := h.honest

lemma Sound.id_lt (h : s.Sound) {r : FlushReq} (hr : r ∈ s.phase.batch) : r.id < s.submitted := by
  rw [← mem_range, ← h.inOrder]
  simp only [mem_append, mem_map]
  exact .inl (.inr ⟨r, hr, rfl⟩)

lemma sound_work (timeUp : Bool) (result : Except String Unit) (h : s.Sound) : (s.work timeUp result).Sound := by
  unfold work
  split
  case h_1 => exact h
  case h_2 hphase hqueue =>
    exact h.gather (by split <;> simp [hphase, hqueue, WorkerPhase.batch]) (by split <;> simp)
  case h_3 hphase hqueue =>
    split
    · exact h.gather (by simp [hphase, WorkerPhase.batch]) (by simp)
    · exact h
  case h_4 hphase hqueue =>
    split
    · exact h.gather (by simp [hphase, WorkerPhase.batch]) (by simp)
    · exact h.gather (by split <;> simp [hphase, hqueue, WorkerPhase.batch]) (by split <;> simp)
  case h_5 hphase hqueue => exact h.gather (by simp [hphase, hqueue, WorkerPhase.batch]) (by simp)
  case h_6 hphase hqueue => exact h.gather (by simp [hphase, hqueue, WorkerPhase.batch]) (by simp)
  case h_7 batch hphase =>
    refine ⟨?_, ?_, h.honest⟩
    · simpa [hphase, WorkerPhase.batch] using h.inOrder
    · rintro _ _ ⟨⟩ r hr
      exact h.id_lt (by simpa [hphase, WorkerPhase.batch] using hr)
  case h_8 batch started hphase =>
    refine ⟨?_, by simp, fun id hid => ?_⟩
    · simpa [hphase, WorkerPhase.batch, Function.comp_def] using h.inOrder
    · rcases mem_append.mp hid with hid | hid
      · obtain ⟨n, hn, hok⟩ := h.honest id hid
        exact ⟨n, hn, by simp [hok]⟩
      obtain ⟨r, hr, heq⟩ := mem_map.mp hid
      cases heq
      exact ⟨started, h.started batch started hphase r hr, by simp⟩

lemma sound_step (s : Coalescer) (a : CoalescerStep) (h : s.Sound) : (s.step a).Sound := by
  cases a with
  | syncDurable cls => exact sound_syncDurable cls h
  | work timeUp result => exact sound_work timeUp result h

def left (s : Coalescer) : Nat :=
  5 * s.queue.length + match s.phase with
    | .idle => 0
    | .syncing .. => 1
    | .swept _ => 2
    | .sweeping _ => 3
    | .lingering _ => 4

lemma left_work (result : Except String Unit) (s : Coalescer) :
    (s.work true result).left ≤ s.left - 1 ∧ (s.work true result).submitted = s.submitted := by
  rcases s with ⟨submitted, queue, phase, answers, syncs⟩
  cases phase <;> cases queue <;> (simp [work, left]; try split) <;> omega

def workAll (s : Coalescer) (results : List (Except String Unit)) : Coalescer :=
  results.foldl (fun s result => s.work true result) s

lemma workAll_spec (h : s.Sound) {results : List (Except String Unit)} (hlong : s.left ≤ results.length) :
    (s.workAll results).answers.map Prod.fst = range s.submitted := by
  induction results generalizing s with
  | nil =>
    rcases s with ⟨submitted, queue, phase, answers, syncs⟩
    have hin := h.inOrder
    cases phase <;> cases queue <;> simp_all [left, workAll, WorkerPhase.batch]
  | cons result rest ih =>
    obtain ⟨hleft, hsub⟩ := left_work result s
    rw [← hsub]
    refine ih (sound_work true result h) ?_
    rw [length_cons] at hlong
    exact Nat.le_trans hleft (by omega)

end Coalescer

open Coalescer

/-- Whatever the syncs return, no request gets two answers; a success was preceded by a sync started after the request; and after
`linger`, five steps of the worker per waiting request answer all. -/
theorem coalesced_sync_honest (l : List CoalescerStep) :
    let s := Transition.run Coalescer.step .new l
    (s.answers.map Prod.fst).Nodup ∧
    (∀ id, (id, .ok ()) ∈ s.answers → ∃ started, id < started ∧ (started, .ok ()) ∈ s.syncs) ∧
    ∀ results : List (Except String Unit), 5 * s.queue.length + 4 ≤ results.length →
      (s.workAll results).answers.map Prod.fst = List.range s.submitted := by
  intro s
  have hs : s.Sound := by
    have hall : Meets step (fun _ _ => True) .new l := meets_of_forall fun _ _ _ => trivial
    exact invariant_run (fun s a h _ => s.sound_step a h) ⟨rfl, by simp [new], by simp [new]⟩ hall
  refine ⟨?_, hs.honest, fun results hlong => ?_⟩
  · have hnodup := nodup_range (n := s.submitted)
    rw [← hs.inOrder, append_assoc] at hnodup
    exact (nodup_append.mp hnodup).1
  · refine workAll_spec hs (Nat.le_trans ?_ hlong)
    unfold left
    split <;> omega

end Dfs
