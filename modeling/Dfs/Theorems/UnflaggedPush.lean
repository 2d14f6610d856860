import Mathlib.Data.List.Perm.Basic
import Dfs.Client.GapRun
import Dfs.Theorems.MetadataConfirmed

/-! # Does an unflagged push leave no gap? -/

namespace Dfs

open List Option MetadataQueue GapRun GapStep Transition

variable {Id : Type}

/-! ## What is to hold -/

def clientSeqLe : Option Nat → Option Nat → Prop
  | none, _ => True
  | some _, none => False
  | some a, some b => a ≤ b

lemma clientSeqLe_refl (a : Option Nat) : clientSeqLe a a := by
  cases a with
  | none => trivial
  | some a => exact Nat.le_refl a

/-- In the list, or one of its offset with at least its sequence number. -/
def Represented (locs : Locations Id) (l : ChunkLocation Id) : Prop :=
  ∃ l' ∈ locs, l'.fileOffset = l.fileOffset ∧ clientSeqLe l.clientWriteSeq l'.clientWriteSeq

variable {l : ChunkLocation Id}
  {e : MetadataEntry Id} {env env' : PutEnv} {m : FileMetadata Id} {locs : Locations Id} {i : Nat}

lemma represented_of_mem (h : l ∈ locs) : Represented locs l :=
  ⟨l, h, rfl, clientSeqLe_refl _⟩

lemma Represented.mono {locs' : Locations Id} (h : Represented locs l) (hsub : ∀ x ∈ locs, x ∈ locs') :
    Represented locs' l := by
  obtain ⟨l', hl', hoff, hseq⟩ := h
  exact ⟨l', hsub l' hl', hoff, hseq⟩

/-- Of one file, each with a greater write sequence than before. -/
def GapStep.Increasing (file : FileId) (s : GapRun Id) : GapStep Id → Prop
  | .push m _ _ _ => m.id = file ∧ ∀ p ∈ s.pushed, p.writeSeq < m.writeSeq
  | _ => True

/-- Merged only into the newest entry out, with no sequence number below one pushed for its offset. -/
def GapStep.MergesNewest (s : GapRun Id) : GapStep Id → Prop
  | .push m _ _ _ =>
    (∀ pos e, s.queue.find m.id = some (pos, e) → ∀ x ∈ s.queue.out, x.metadata.writeSeq ≤ e.metadata.writeSeq) ∧
      ∀ p ∈ s.pushed, ∀ l ∈ p.chunkLocations, ∀ l' ∈ m.chunkLocations, l'.fileOffset = l.fileOffset →
        clientSeqLe l.clientWriteSeq l'.clientWriteSeq
  | _ => True

/-! ## The entries that are out -/

/-- Each entry out stands for an interval of pushes; the intervals do not overlap. -/
structure Tracking (out : List (MetadataEntry Id)) (pushed : List (FileMetadata Id)) (delivered : Locations Id) : Prop where
  single : (out.map (·.metadata.writeSeq)).Nodup
  bound : ∀ x ∈ out, ∃ p ∈ pushed, x.metadata.writeSeq ≤ p.writeSeq
  covered : ∀ p ∈ pushed, ∀ l ∈ p.chunkLocations, Represented delivered l ∨
    ∃ x ∈ out, p.writeSeq ≤ x.metadata.writeSeq ∧ Represented x.metadata.chunkLocations l ∧
      ∀ y ∈ out, y.metadata.writeSeq < x.metadata.writeSeq → y.metadata.writeSeq < p.writeSeq

section Tracking

variable {out out' : List (MetadataEntry Id)} {pushed : List (FileMetadata Id)} {delivered : Locations Id}

lemma Tracking.perm (h : Tracking out pushed delivered) (hp : out'.Perm out) : Tracking out' pushed delivered := by
  refine ⟨(hp.map _).nodup_iff.mpr h.single, fun x hx => h.bound x (hp.mem_iff.mp hx), fun p hpm l hl => ?_⟩
  rcases h.covered p hpm l hl with hd | ⟨x, hx, hle, hrep, holder⟩
  · exact .inl hd
  · exact .inr ⟨x, hp.mem_iff.mpr hx, hle, hrep, fun y hy => holder y (hp.mem_iff.mp hy)⟩

lemma Tracking.deliver (h : Tracking out pushed delivered) (locs : Locations Id) :
    Tracking out pushed (delivered ++ locs) := by
  refine ⟨h.single, h.bound, fun p hp l hl => ?_⟩
  rcases h.covered p hp l hl with hd | hout
  · exact .inl (hd.mono fun x hx => mem_append_left _ hx)
  · exact .inr hout

lemma Tracking.confirm (h : Tracking (e :: out) pushed delivered) (hd : ∀ l ∈ e.metadata.chunkLocations, l ∈ delivered) :
    Tracking out pushed delivered := by
  refine ⟨(nodup_cons.mp h.single).2, fun x hx => h.bound x (mem_cons_of_mem _ hx), fun p hp l hl => ?_⟩
  rcases h.covered p hp l hl with hdone | ⟨x, hx, hle, hrep, holder⟩
  · exact .inl hdone
  rcases mem_cons.mp hx with rfl | hx
  · exact .inl (hrep.mono hd)
  · exact .inr ⟨x, hx, hle, hrep, fun y hy => holder y (mem_cons_of_mem _ hy)⟩

lemma Tracking.older (h : Tracking out pushed delivered) (hm : ∀ p ∈ pushed, p.writeSeq < m.writeSeq) {x : MetadataEntry Id}
    (hx : x ∈ out) : x.metadata.writeSeq < m.writeSeq := by
  obtain ⟨p, hp, hle⟩ := h.bound x hx
  exact Nat.lt_of_le_of_lt hle (hm p hp)

lemma Tracking.append (h : Tracking out pushed delivered) (hm : ∀ p ∈ pushed, p.writeSeq < e.metadata.writeSeq) :
    Tracking (e :: out) (e.metadata :: pushed) delivered := by
  refine ⟨?_, ?_, ?_⟩
  · refine nodup_cons.mpr ⟨fun hmem => ?_, h.single⟩
    obtain ⟨x, hx, heq⟩ := mem_map.mp hmem
    exact absurd heq (Nat.ne_of_lt (h.older hm hx))
  · intro x hx
    rcases mem_cons.mp hx with rfl | hx
    · exact ⟨x.metadata, mem_cons_self, Nat.le_refl _⟩
    obtain ⟨p, hp, hle⟩ := h.bound x hx
    exact ⟨p, mem_cons_of_mem _ hp, hle⟩
  · intro p hp l hl
    rcases mem_cons.mp hp with rfl | hp
    · exact .inr ⟨e, mem_cons_self, Nat.le_refl _, represented_of_mem hl, fun y _ hlt => hlt⟩
    rcases h.covered p hp l hl with hd | ⟨x, hx, hle, hrep, holder⟩
    · exact .inl hd
    refine .inr ⟨x, mem_cons_of_mem _ hx, hle, hrep, fun y hy hlt => ?_⟩
    rcases mem_cons.mp hy with rfl | hy
    · exact absurd hlt (Nat.not_lt.mpr (h.older hm hx).le)
    · exact holder y hy hlt

variable {base other : Locations Id}

lemma represented_mergeLocations (h : Represented other l)
    (hbase : ∀ l' ∈ base, l'.fileOffset = l.fileOffset → clientSeqLe l.clientWriteSeq l'.clientWriteSeq) :
    Represented (mergeLocations base other) l := by
  obtain ⟨x, hx, hoff, hseq⟩ := h
  unfold mergeLocations
  split
  · rename_i hempty
    rw [isEmpty_iff.mp hempty] at hx
    cases hx
  by_cases hin : ∃ l' ∈ base, l'.fileOffset = l.fileOffset
  · obtain ⟨l', hl', hoff'⟩ := hin
    exact ⟨l', mem_append_left _ hl', hoff', hbase l' hl' hoff'⟩
  refine ⟨x, mem_append_right _ (List.mem_filter.mpr ⟨hx, ?_⟩), hoff, hseq⟩
  have hnot : x.fileOffset ∉ base.map (·.fileOffset) := by
    intro hmem
    obtain ⟨l', hl', hoff'⟩ := mem_map.mp hmem
    exact hin ⟨l', hl', hoff'.trans hoff⟩
  simp [hnot]

lemma mem_mergeLocations_left (h : l ∈ base) : l ∈ mergeLocations base other := by
  unfold mergeLocations
  split
  · exact h
  · exact mem_append_left _ h

lemma Tracking.merge {merged : MetadataEntry Id} (h : Tracking (e :: out) pushed delivered)
    (hm : ∀ p ∈ pushed, p.writeSeq < m.writeSeq) (hnewest : ∀ x ∈ out, x.metadata.writeSeq ≤ e.metadata.writeSeq)
    (hlocs : ∀ p ∈ pushed, ∀ l ∈ p.chunkLocations, ∀ l' ∈ m.chunkLocations, l'.fileOffset = l.fileOffset →
    clientSeqLe l.clientWriteSeq l'.clientWriteSeq)
    (hmerged : merged.metadata = { m with chunkLocations := mergeLocations m.chunkLocations e.metadata.chunkLocations }) :
    Tracking (merged :: out) (m :: pushed) delivered := by
  have hseq : merged.metadata.writeSeq = m.writeSeq := by rw [hmerged]
  have hmlocs : merged.metadata.chunkLocations = mergeLocations m.chunkLocations e.metadata.chunkLocations := by rw [hmerged]
  obtain ⟨hnew, hsingle⟩ := nodup_cons.mp h.single
  -- the newest entry is newer than the others
  have hlt : ∀ x ∈ out, x.metadata.writeSeq < e.metadata.writeSeq := by
    intro x hx
    refine Nat.lt_of_le_of_ne (hnewest x hx) fun heq => hnew ?_
    exact mem_map.mpr ⟨x, hx, heq⟩
  refine ⟨?_, ?_, ?_⟩
  · refine nodup_cons.mpr ⟨fun hmem => ?_, hsingle⟩
    obtain ⟨x, hx, heq⟩ := mem_map.mp hmem
    exact absurd (heq.trans hseq) (Nat.ne_of_lt (h.older hm (mem_cons_of_mem _ hx)))
  · intro x hx
    rcases mem_cons.mp hx with rfl | hx
    · exact ⟨m, mem_cons_self, hseq.le⟩
    obtain ⟨p, hp, hle⟩ := h.bound x (mem_cons_of_mem _ hx)
    exact ⟨p, mem_cons_of_mem _ hp, hle⟩
  · intro p hp l hl
    rcases mem_cons.mp hp with rfl | hp
    · refine .inr ⟨merged, mem_cons_self, hseq.ge, ?_, fun y _ hy => hseq ▸ hy⟩
      rw [hmlocs]
      exact represented_of_mem (mem_mergeLocations_left hl)
    rcases h.covered p hp l hl with hd | ⟨x, hx, hle, hrep, holder⟩
    · exact .inl hd
    rcases mem_cons.mp hx with rfl | hx
    · refine .inr ⟨merged, mem_cons_self, by rw [hseq]; exact (hm p hp).le, ?_, fun y hy hylt => ?_⟩
      · rw [hmlocs]
        exact represented_mergeLocations hrep (hlocs p hp l hl)
      · rcases mem_cons.mp hy with rfl | hy
        · exact absurd hylt (Nat.lt_irrefl _)
        · exact holder y (mem_cons_of_mem _ hy) (hlt y hy)
    · refine .inr ⟨x, mem_cons_of_mem _ hx, hle, hrep, fun y hy hylt => ?_⟩
      rcases mem_cons.mp hy with rfl | hy
      · have := h.older hm (mem_cons_of_mem _ hx)
        omega
      · exact holder y (mem_cons_of_mem _ hy) hylt

end Tracking

/-! ## The steps of the queue -/

variable (q : MetadataQueue Id)

lemma out_pop : (q.step .pop).out.Perm q.out := by
  unfold MetadataQueue.step
  dsimp only
  split
  · rename_i e q' hworker hpop
    obtain ⟨l, hinner, rfl⟩ := popFront_eq_some hpop
    simp only [out, hinner, hworker, map_some, map_none, toList_some, toList_none, append_nil, append_assoc,
      cons_append, nil_append]
    exact perm_middle
  · exact List.Perm.refl _

lemma out_popStalled (now : Nat) : (q.step (.popStalled now)).out.Perm q.out := by
  unfold MetadataQueue.step
  dsimp only
  split
  · rename_i e q' hpop
    obtain ⟨l, hinner, rfl⟩ := popFront_eq_some (popStalled_popFront hpop)
    simp only [out, hinner, ← append_assoc, cons_append]
    exact perm_append_singleton _ _
  · exact List.Perm.refl _

lemma out_checkDeleted {q : MetadataQueue Id} (h : ∀ file, q.deletedIds file = false) : (q.step .checkDeleted).out = q.out := by
  unfold MetadataQueue.step
  dsimp only
  split
  · rename_i e hworker
    rw [h, if_neg Bool.false_ne_true]
    simp [out, hworker]
  · rfl

lemma out_attempt {q : MetadataQueue Id} (hworker : q.worker = some (e, true)) (confirmed : Bool) :
    q.out.Perm (if confirmed then e :: (q.step (.attempt confirmed)).out else (q.step (.attempt confirmed)).out) := by
  cases confirmed with
  | false => simp [MetadataQueue.step, hworker]
  | true =>
    simp only [MetadataQueue.step, hworker, out, if_true, map_some, map_none, toList_some,
      toList_none, append_nil, append_assoc, cons_append, nil_append]
    exact perm_middle

lemma out_rescue {q : MetadataQueue Id} (hget : q.rescues[i]? = some e) (confirmed : Bool) :
    q.out.Perm (if confirmed then e :: (q.step (.rescue i confirmed)).out else (q.step (.rescue i confirmed)).out) := by
  obtain ⟨hi, rfl⟩ := List.getElem?_eq_some_iff.mp hget
  have hrest : q.rescues.Perm (q.rescues[i] :: q.rescues.eraseIdx i) := (getElem_cons_eraseIdx_perm hi).symm
  have hout : q.out.Perm (q.rescues[i] :: (q.inner ++ (q.worker.map Prod.fst).toList ++ q.rescues.eraseIdx i)) :=
    (hrest.append_left _).trans perm_middle
  cases confirmed with
  | false => simpa [MetadataQueue.step, hget, out, pushInnerFront] using hout
  | true =>
    simpa [MetadataQueue.step, hget, out, signal, MetadataQueue.ack] using hout

lemma deletedIds_pushInner (m : FileMetadata Id) (tx : Option Completion) (full : Bool) (now : Nat) :
    (q.pushInner m tx full now).deletedIds = q.deletedIds := by
  rcases pushInner_cases q m tx full now with ⟨-, heq⟩ | ⟨-, pos, e, -, heq⟩ | ⟨-, -, heq⟩
  all_goals simp [heq, signal]

lemma deletedIds_step {a : QueueStep Id} (ha : ∀ file, a ≠ .cancel file) : (q.step a).deletedIds = q.deletedIds := by
  have hpopped : ∀ {e q'}, q.popFront = some (e, q') → q'.deletedIds = q.deletedIds := by
    intro e q' hpop
    obtain ⟨l, -, rfl⟩ := popFront_eq_some hpop
    rfl
  cases a with
  | push m full now => exact deletedIds_pushInner q m none full now
  | pushAndWait m serial now => exact deletedIds_pushInner q m _ false now
  | cancel file => exact absurd rfl (ha file)
  | pop =>
    unfold MetadataQueue.step
    dsimp only
    split
    · have hdel := hpopped ‹_›
      exact hdel
    · rfl
  | checkDeleted =>
    unfold MetadataQueue.step
    dsimp only
    split
    · split <;> rfl
    · rfl
  | attempt confirmed =>
    unfold MetadataQueue.step
    dsimp only
    split
    · split <;> rfl
    · rfl
  | popStalled now =>
    unfold MetadataQueue.step
    dsimp only
    split
    · have hdel := hpopped (popStalled_popFront ‹_›)
      exact hdel
    · rfl
  | rescue i confirmed =>
    unfold MetadataQueue.step
    dsimp only
    split
    · split <;> rfl
    · rfl

lemma tracking_pushInner {q : MetadataQueue Id} {pushed : List (FileMetadata Id)} {delivered : Locations Id}
    (hlive : ∀ file, q.deletedIds file = false) (h : Tracking q.out pushed delivered) (hm : ∀ p ∈ pushed, p.writeSeq < m.writeSeq)
    (hnewest : ∀ pos e, q.find m.id = some (pos, e) → ∀ x ∈ q.out, x.metadata.writeSeq ≤ e.metadata.writeSeq)
    (hlocs : ∀ p ∈ pushed, ∀ l ∈ p.chunkLocations, ∀ l' ∈ m.chunkLocations, l'.fileOffset = l.fileOffset →
    clientSeqLe l.clientWriteSeq l'.clientWriteSeq)
    (tx : Option Completion) (full : Bool) (now : Nat) : Tracking (q.pushInner m tx full now).out (m :: pushed) delivered := by
  rcases pushInner_cases q m tx full now with ⟨hdel, -⟩ | ⟨-, pos, e, hfind, heq⟩ | ⟨-, -, heq⟩
  · rw [hlive] at hdel
    cases hdel
  · rw [heq]
    obtain ⟨hpos, rfl⟩ := List.getElem?_eq_some_iff.mp (find_eq_some.mp hfind).2
    -- the entry first, then what else is out
    have hold : q.out.Perm (q.inner[pos] :: (q.inner.eraseIdx pos ++ (q.worker.map Prod.fst).toList ++ q.rescues)) :=
      ((getElem_cons_eraseIdx_perm hpos).symm.append_right _).append_right _
    have hnew : ∀ merged : MetadataEntry Id, (q.inner.set pos merged ++ (q.worker.map Prod.fst).toList ++ q.rescues).Perm
        (merged :: (q.inner.eraseIdx pos ++ (q.worker.map Prod.fst).toList ++ q.rescues)) := fun merged =>
      ((set_perm_cons_eraseIdx hpos merged).append_right _).append_right _
    refine Tracking.perm (Tracking.merge (h.perm hold.symm) hm ?_ hlocs ?_) (hnew _)
    · intro x hx
      exact hnewest pos _ hfind x (hold.mem_iff.mpr (mem_cons_of_mem _ hx))
    · have hle : q.inner[pos].metadata.writeSeq ≤ m.writeSeq := (h.older hm (hold.mem_iff.mpr mem_cons_self)).le
      simp [coalesce, hle]
  · rw [heq]
    refine Tracking.perm (h.append (e := ⟨m, now, tx, q.coversFrom m m.writeSeq full⟩) hm) ?_
    simp only [MetadataQueue.out, append_assoc, cons_append, nil_append]
    exact perm_middle

/-! ## Runs -/

variable [DecidableEq Id]

/-- An older entry that is out when one is sent is newer than what the leader has stored, and is not in the range that
the one sent claims to cover. -/
def GapStep.Honest (s : GapRun Id) (a : GapStep Id) : Prop :=
  ∀ e env, a.sends s = some (e, env) → ∀ x ∈ s.queue.out, x.metadata.writeSeq < e.metadata.writeSeq →
    (s.leader.fileWriteSeqs e.metadata.id).getD 0 < x.metadata.writeSeq ∧ x.metadata.writeSeq < e.coversFromWriteSeq

/-- After an unflagged delivery, every location pushed up to it has been delivered. -/
def GapStep.GapFree (s : GapRun Id) (a : GapStep Id) : Prop :=
  ∀ e env, a.sends s = some (e, env) → (s.receive e env).2.success = true → s.Unflagged e →
    ∀ p ∈ s.pushed, p.writeSeq ≤ e.metadata.writeSeq → ∀ l ∈ p.chunkLocations, Represented (s.step a).delivered l

structure GapRun.Tracked (s : GapRun Id) : Prop where
  live : ∀ file, s.queue.deletedIds file = false
  tracking : Tracking s.queue.out s.pushed s.delivered

variable {s : GapRun Id}

omit [DecidableEq Id] in
lemma sends_attempt {replied : Bool} (h : (attempt env replied).sends s = some (e, env')) : s.queue.worker = some (e, true) := by
  unfold sends at h
  dsimp only at h
  split at h
  · rename_i x hworker
    obtain ⟨rfl, -⟩ := Prod.mk.inj (some.inj h)
    exact hworker
  · cases h

omit [DecidableEq Id] in
lemma sends_rescue (h : (rescueTry i env).sends s = some (e, env')) : s.queue.rescues[i]? = some e := by
  obtain ⟨x, hx, heq⟩ := map_eq_some_iff.mp h
  obtain ⟨rfl, -⟩ := Prod.mk.inj heq
  exact hx

variable {a : GapStep Id}

omit [DecidableEq Id] in
lemma sends_mem (h : a.sends s = some (e, env)) : e ∈ s.queue.out := by
  cases a with
  | attempt env' replied => simp [out, sends_attempt h]
  | rescueTry i env' => exact mem_append_right _ (mem_of_getElem? (sends_rescue h))
  | rescue i env' replied => exact mem_append_right _ (mem_of_getElem? (sends_rescue h))
  | push m tx full now => cases h
  | pop => cases h
  | checkDeleted => cases h
  | popStalled now => cases h

lemma tracked_receive (h : s.Tracked) {q' : MetadataQueue Id} {confirmed : Bool}
    (hout : s.queue.out.Perm (if confirmed then e :: q'.out else q'.out)) (hlive : q'.deletedIds = s.queue.deletedIds)
    (hconf : confirmed = true → (s.receive e env).2.success = true) :
    ({ (s.receive e env).1 with queue := q' } : GapRun Id).Tracked := by
  have hkept := h.tracking.perm hout.symm
  refine ⟨fun file => (congrFun hlive file).trans (h.live file), ?_⟩
  unfold receive at hconf ⊢
  dsimp only at hconf ⊢
  cases confirmed with
  | false =>
    split
    · exact hkept.deliver _
    · exact hkept
  | true =>
    rw [if_pos (hconf rfl)]
    exact (hkept.deliver _).confirm fun l hl => mem_append_right _ hl

lemma tracked_step {file : FileId} (h : s.Tracked) (a : GapStep Id) (hinc : a.Increasing file s)
    (hnewest : a.MergesNewest s) : (s.step a).Tracked := by
  have hcases : ∀ a : QueueStep Id, (∀ file, a ≠ .cancel file) → (s.queue.step a).out.Perm s.queue.out →
      ({ s with queue := s.queue.step a } : GapRun Id).Tracked := by
    intro a ha hperm
    exact ⟨fun file => (congrFun (deletedIds_step s.queue ha) file).trans (h.live file), h.tracking.perm hperm⟩
  cases a with
  | push m tx full now =>
    refine ⟨fun file => ?_, tracking_pushInner h.live h.tracking hinc.2 hnewest.1 hnewest.2 tx full now⟩
    exact (congrFun (deletedIds_pushInner s.queue m tx full now) file).trans (h.live file)
  | pop => exact hcases .pop nofun (out_pop s.queue)
  | checkDeleted => exact hcases .checkDeleted nofun (out_checkDeleted h.live ▸ List.Perm.refl _)
  | popStalled now => exact hcases (.popStalled now) nofun (out_popStalled s.queue now)
  | attempt env replied =>
    unfold GapRun.step
    dsimp only
    split
    · rename_i e env' hsends
      exact tracked_receive h (out_attempt (sends_attempt hsends) _) (deletedIds_step _ nofun) fun hc =>
        (Bool.and_eq_true_iff.mp hc).2
    · exact h
  | rescueTry i env =>
    unfold GapRun.step
    dsimp only
    split
    · rename_i e env' hsends
      have hout : s.queue.out.Perm (if false = true then e :: s.queue.out else s.queue.out) := List.Perm.refl _
      exact tracked_receive h hout rfl nofun
    · exact h
  | rescue i env replied =>
    unfold GapRun.step
    dsimp only
    split
    · rename_i e env' hsends
      exact tracked_receive h (out_rescue (sends_rescue hsends) _) (deletedIds_step _ nofun) fun hc =>
        (Bool.and_eq_true_iff.mp hc).2
    · exact h

lemma delivered_step (h : a.sends s = some (e, env)) (hsuccess : (s.receive e env).2.success = true) :
    (s.step a).delivered = s.delivered ++ e.metadata.chunkLocations := by
  have hreceive : (s.receive e env).1.delivered = s.delivered ++ e.metadata.chunkLocations := if_pos hsuccess
  unfold GapRun.step
  cases a with
  | attempt env' replied => simpa [h] using hreceive
  | rescueTry i env' => simpa [h] using hreceive
  | rescue i env' replied => simpa [h] using hreceive
  | push m tx full now => cases h
  | pop => cases h
  | checkDeleted => cases h
  | popStalled now => cases h

omit [DecidableEq Id] in
/-- An entry that leaves out what is missing is flagged. -/
theorem unflagged_oldest (hhonest : a.Honest s) (hsends : a.sends s = some (e, env)) (hflag : s.Unflagged e)
    {x : MetadataEntry Id}
    (hx : x ∈ s.queue.out) : e.metadata.writeSeq ≤ x.metadata.writeSeq := by
  by_contra hlt
  obtain ⟨hstored, hcovers⟩ := hhonest e env hsends x hx (by omega)
  unfold GapRun.Unflagged detectMetadataWriteSeqGap at hflag
  rw [if_pos ⟨by omega, by omega⟩] at hflag
  cases hflag

lemma gapFree_of_honest (h : s.Tracked) (hhonest : a.Honest s) : a.GapFree s := by
  intro e env hsends hsuccess hflag p hp hle l hl
  rw [delivered_step hsends hsuccess]
  rcases h.tracking.covered p hp l hl with hd | ⟨x, hx, _, hrep, holder⟩
  · exact hd.mono fun y hy => mem_append_left _ hy
  have hmem := sends_mem hsends
  rcases Nat.lt_or_eq_of_le (unflagged_oldest hhonest hsends hflag hx) with hlt | heq
  · exact absurd (holder e hmem hlt) (Nat.not_lt.mpr hle)
  obtain rfl := inj_on_of_nodup_map h.tracking.single hmem hx heq
  exact hrep.mono fun y hy => mem_append_right _ hy

def slotPush (n : Nat) : FileMetadata Nat :=
  ⟨1, [], (n + 1) * chunkSize, .regularFile, [⟨n, [1], 1, some (n * chunkSize), none, some n, some 1⟩], n⟩

def freshLeader : LeaderServer Nat := ⟨Node.empty, FileTables.empty, fun _ => none⟩

def commits : PutEnv := ⟨true, none, true, none⟩

/-- The first push is confirmed, the second stalled and taken out, the third with the worker. -/
def overtakenRun : List (GapStep Nat) :=
  [.push (slotPush 1) none false 0, .pop, .checkDeleted, .attempt commits true, .push (slotPush 2) none false 0, .popStalled 30,
    .push (slotPush 3) none false 30, .pop, .checkDeleted]

/-- The first push is stalled and taken out, the second delivered and flagged, the third with the worker. -/
def flaggedRun : List (GapStep Nat) :=
  [.push (slotPush 1) none false 0, .popStalled 30, .push (slotPush 2) none false 30, .pop, .checkDeleted, .attempt commits true,
    .push (slotPush 3) none false 30, .pop, .checkDeleted]

end Dfs
