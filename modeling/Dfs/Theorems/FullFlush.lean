import Dfs.Client.Flush
import Dfs.Lib.Transition

/-! # Does a full flush flush everything? -/

namespace Dfs

open Transition List Function ChunkShardState ChunkSlot Client

variable {Id : Type}

def CoversByte (ranges : List (Nat × Nat)) (i : Nat) : Prop := Runs.Covers Prod.fst Prod.snd ranges i

def ChunkSlot.HasDirty (slot : ChunkSlot Id) (i : Nat) : Prop := slot.isEmpty = false ∧ CoversByte slot.dirtyRanges i

/-- One of the call's own or of the ticker's, with the snapshot it took. -/
structure FlushTask where
  idx : Nat
  snap : FlushSnapshot
  own : Bool

/-- The chunks, the active ones, the flushes under way and those that succeeded, did an own one fail, and what was returned. -/
structure Pipeline (Id : Type) where
  chunks : Nat → Client Id
  activeChunks : List Nat
  tasks : List FlushTask
  flushed : List (Nat × FlushSnapshot)
  firstErr : Bool
  returned : Option Bool

/-- Shards with `busy` are locked elsewhere. Which slot a task picks, and how many are spawned, is open. -/
inductive PipelineAction (Id : Type) where
  | write (idx : Nat) (w : SlotWrite)
  | mark (busy : Nat → Bool)
  | claim (idx : Nat) (own : Bool)
  | fifoTimeout (idx : Nat) (own : Bool)
  | snapshotAgain (k : Nat)
  | complete (k : Nat) (env : FlushEnv Id)
  | check (busy : Nat → Bool)

namespace Pipeline

def slot (s : Pipeline Id) (idx : Nat) : ChunkSlot Id := (s.chunks idx).shard.slot

def pending (s : Pipeline Id) (idx : Nat) : Bool := !(s.slot idx).isEmpty && !(s.slot idx).flushing

/-- A task waits while its chunk's flush is waited for, 30 seconds at most, and may take the snapshot again. A dropped
slot is no longer active. The call looks for slots left when its tasks are done. -/
def step [DecidableEq Id] (s : Pipeline Id) : PipelineAction Id → Pipeline Id
  | .write idx w =>
    { s with
      chunks := update s.chunks idx ((s.chunks idx).writeAll [w])
      activeChunks := s.activeChunks.insert idx }
  | .mark busy =>
    { s with
      chunks := fun idx =>
        if idx ∈ s.activeChunks ∧ busy idx = false ∧ s.pending idx then (s.chunks idx).onSlot ({ · with lastModified := 0 })
        else s.chunks idx }
  | .claim idx own =>
    if (s.chunks idx).shard.flushWaiter then s
    else match (s.chunks idx).shard.claim with
      | none => s
      | some cs =>
        { s with
          chunks := update s.chunks idx { s.chunks idx with shard := cs }
          tasks := s.tasks ++ [⟨idx, cs.slot.snapshot, own⟩] }
  | .fifoTimeout idx own =>
    if (s.chunks idx).shard.flushWaiter then
      { s with
        chunks := update s.chunks idx (s.chunks idx).release.notify
        firstErr := s.firstErr || own }
    else s
  | .snapshotAgain k =>
    match s.tasks[k]? with
    | none => s
    | some t =>
      if (s.slot t.idx).isEmpty then s else { s with tasks := s.tasks.set k { t with snap := (s.slot t.idx).snapshot } }
  | .complete k env =>
    match s.tasks[k]? with
    | none => s
    | some t =>
      let (c, r) := (s.chunks t.idx).flushBufferAsyncOne env t.snap
      { s with
        chunks := update s.chunks t.idx c
        activeChunks := if c.shard.slot.isEmpty then s.activeChunks.filter (· ≠ t.idx) else s.activeChunks
        tasks := s.tasks.eraseIdx k
        flushed := if r.toBool then (t.idx, t.snap) :: s.flushed else s.flushed
        firstErr := s.firstErr || (t.own && !r.toBool) }
  | .check busy =>
    if s.returned.isSome || s.tasks.any (·.own) then s
    else if s.firstErr then { s with returned := some false }
    else if s.activeChunks.any (fun idx => busy idx || s.pending idx) then s
    else { s with returned := some true }

/-- No task is its own, every slot not empty is active, every claimed one is being flushed. -/
structure Starts (s : Pipeline Id) : Prop where
  others : ∀ t ∈ s.tasks, t.own = false
  active : ∀ idx, (s.slot idx).isEmpty = false → idx ∈ s.activeChunks
  claimed : ∀ idx, (s.slot idx).flushing = true → ∃ t ∈ s.tasks, t.idx = idx
  returned : s.returned = none

/-- The call looks for slots left only while no other task flushes one, whose flush sends each dirty byte or leaves it
unclaimed. -/
def OthersSpare [DecidableEq Id] (s : Pipeline Id) : PipelineAction Id → Prop
  | .check _ => ∀ t ∈ s.tasks, t.own = true
  | .complete k env => ∀ t, s.tasks[k]? = some t → t.own = false → ∀ i, (s.slot t.idx).HasDirty i →
    let (c, r) := (s.chunks t.idx).flushBufferAsyncOne env t.snap
    (r.toBool = true ∧ CoversByte t.snap.dirtyRanges i) ∨ (c.shard.slot.HasDirty i ∧ c.shard.slot.flushing = false)
  | _ => True

def Flushed (s : Pipeline Id) (idx i : Nat) : Prop := ∃ x ∈ s.flushed, x.1 = idx ∧ CoversByte x.2.dirtyRanges i

/-- Dirty in an active slot, a claim of which is a task's, and the call's own tasks on it send it. -/
structure Held (s : Pipeline Id) (idx i : Nat) : Prop where
  dirty : (s.slot idx).HasDirty i
  active : idx ∈ s.activeChunks
  claimed : (s.slot idx).flushing = true → ∃ t ∈ s.tasks, t.idx = idx
  sent : ∀ t ∈ s.tasks, t.own = true → t.idx = idx → CoversByte t.snap.dirtyRanges i

/-- Flushed, or the call has not succeeded and has met an error or holds it. -/
def Keeps (idx i : Nat) (s : Pipeline Id) : Prop :=
  s.Flushed idx i ∨ s.returned ≠ some true ∧ (s.firstErr = true ∨ s.Held idx i)

end Pipeline

/-! ## Writes -/

lemma CoversByte.markDirty {ranges : List (Nat × Nat)} {i : Nat} (h : CoversByte ranges i) (start stop : Nat) :
    CoversByte (markDirty ranges start stop) i := by
  unfold Dfs.markDirty
  split
  · exact h
  obtain ⟨r, hr, hri⟩ := h
  unfold CoversByte Runs.Covers
  simp only [mem_insertionSort, mem_append, List.mem_singleton]
  rcases Runs.mem_absorb.1 hr with hk | ht
  · exact ⟨r, .inl hk, hri⟩
  have hwithin := Runs.absorb_taken_within r ht
  exact ⟨_, .inr rfl, by dsimp only; omega⟩

lemma ChunkSlot.HasDirty.write {cs : ChunkShardState Id} {i : Nat} (h : cs.slot.HasDirty i) (w : SlotWrite) :
    (cs.writeAll [w]).slot.HasDirty i ∧ (cs.writeAll [w]).slot.flushing = cs.slot.flushing := by
  have hspan := writeAt_spanEnd cs h.1 w.intra w.data w.now
  have hseeded : cs.seeded = cs.slot := by simp [seeded, h.1]
  have hne : cs.slot.spanEnd ≠ 0 := by simpa [ChunkSlot.isEmpty] using h.1
  have hextend := cs.slot.extendTo_eq w.intra
  refine ⟨⟨?_, ?_⟩, ?_⟩
  · exact decide_eq_false (by rw [ChunkShardState.writeAll, foldl_cons, foldl_nil, hspan]; omega)
  · have hdirty : (cs.writeAll [w]).slot.dirtyRanges = Dfs.markDirty cs.slot.dirtyRanges w.intra (w.intra + w.data.length) := by
      simp [ChunkShardState.writeAll, writeAt, put, hseeded, hextend.2.1]
    rw [hdirty]
    exact h.2.markDirty ..
  · simp only [ChunkShardState.writeAll, foldl_cons, foldl_nil, writeAt, put, hseeded, extendTo]
    split <;> rfl

namespace Pipeline

variable {s s' : Pipeline Id} {idx i : Nat}

/-! ## One action -/

lemma Held.of (h : s.Held idx i) (hdirty : (s'.slot idx).HasDirty i) (hactive : idx ∈ s'.activeChunks)
    (hclaimed : (s'.slot idx).flushing = true → (s.slot idx).flushing = true ∨ ∃ t ∈ s'.tasks, t.idx = idx)
    (htasks : ∀ t ∈ s.tasks, t.idx = idx → ∃ t' ∈ s'.tasks, t'.idx = idx)
    (hsent : ∀ t ∈ s'.tasks, t ∈ s.tasks ∨ (t.idx = idx → CoversByte t.snap.dirtyRanges i)) : s'.Held idx i := by
  refine ⟨hdirty, hactive, fun hf => ?_, fun t ht hown hidx => ?_⟩
  · rcases hclaimed hf with hf | hnew
    · obtain ⟨t, ht, htidx⟩ := h.claimed hf
      exact htasks t ht htidx
    · exact hnew
  · rcases hsent t ht with hold | hsend
    · exact h.sent t hold hown hidx
    · exact hsend hidx

lemma Held.update (h : s.Held idx i) {a : Nat} {c : Client Id} (hchunks : s'.chunks = update s.chunks a c)
    (hslot : a = idx → c.shard.slot.HasDirty i ∧
      (c.shard.slot.flushing = true → (s.slot idx).flushing = true ∨ ∃ t ∈ s'.tasks, t.idx = idx))
    (hactive : idx ∈ s'.activeChunks) (htasks : ∀ t ∈ s.tasks, t ∈ s'.tasks)
    (hsent : ∀ t ∈ s'.tasks, t ∈ s.tasks ∨ (t.idx = idx → CoversByte t.snap.dirtyRanges i)) : s'.Held idx i := by
  have hchunk : (s'.slot idx).HasDirty i ∧
      ((s'.slot idx).flushing = true → (s.slot idx).flushing = true ∨ ∃ t ∈ s'.tasks, t.idx = idx) := by
    rw [slot, hchunks]
    by_cases ha : a = idx
    · rw [ha, update_self]
      exact hslot ha
    rw [update_of_ne (Ne.symm ha)]
    exact ⟨h.dirty, Or.inl⟩
  exact h.of hchunk.1 hactive hchunk.2 (fun t ht hidx => ⟨t, htasks t ht, hidx⟩) hsent

variable [DecidableEq Id]

lemma held_write (h : s.Held idx i) (a : Nat) (w : SlotWrite) : (s.step (.write a w)).Held idx i := by
  refine h.update rfl (fun ha => ?_) (mem_insert_of_mem h.active) (fun t ht => ht) (fun t ht => .inl ht)
  subst ha
  have hwrite := HasDirty.write h.dirty w
  exact ⟨hwrite.1, fun hf => .inl (hwrite.2 ▸ hf)⟩

lemma held_mark (h : s.Held idx i) (busy : Nat → Bool) : (s.step (.mark busy)).Held idx i := by
  have hslot : ((s.step (.mark busy)).slot idx).HasDirty i ∧ ((s.step (.mark busy)).slot idx).flushing =
    (s.slot idx).flushing := by
    simp only [step, slot]
    split
    · exact ⟨h.dirty, rfl⟩
    · exact ⟨h.dirty, rfl⟩
  exact h.of hslot.1 h.active (fun hf => .inl (hslot.2 ▸ hf)) (fun t ht hidx => ⟨t, ht, hidx⟩) (fun t ht => .inl ht)

lemma held_claim (h : s.Held idx i) (a : Nat) (own : Bool) : (s.step (.claim a own)).Held idx i := by
  simp only [step]
  split
  · exact h
  cases hclaim : (s.chunks a).shard.claim with
  | none => exact h
  | some cs =>
    have hcs : a = idx → cs.slot.HasDirty i := by
      rintro rfl
      unfold claim at hclaim
      split at hclaim
      · cases hclaim
      rw [← Option.some.inj hclaim]
      exact h.dirty
    refine h.update rfl (fun ha => ⟨hcs ha, fun _ => .inr ⟨_, mem_append_right _ (mem_singleton_self _), ha⟩⟩) h.active
      (fun t ht => mem_append_left _ ht) (fun t ht => ?_)
    rcases mem_append.1 ht with ht | ht
    · exact .inl ht
    rw [List.mem_singleton.1 ht]
    exact .inr fun ha => (hcs ha).2

lemma held_fifoTimeout (h : s.Held idx i) (a : Nat) (own : Bool) : (s.step (.fifoTimeout a own)).Held idx i := by
  simp only [step]
  split
  · refine h.update rfl (fun ha => ?_) h.active (fun t ht => ht) (fun t ht => .inl ht)
    subst ha
    exact ⟨h.dirty, by simp [notify, release, Client.onSlot]⟩
  · exact h

lemma held_snapshotAgain (h : s.Held idx i) (k : Nat) : (s.step (.snapshotAgain k)).Held idx i := by
  simp only [step]
  cases hk : s.tasks[k]? with
  | none => exact h
  | some t =>
    dsimp only
    split
    · exact h
    refine h.of h.dirty h.active Or.inl (fun u hu hidx => ?_) (fun u hu => ?_)
    · obtain ⟨j, hj⟩ := mem_iff_getElem?.1 hu
      by_cases hjk : j = k
      · subst hjk
        obtain rfl : t = u := Option.some.inj (hk.symm.trans hj)
        exact ⟨_, mem_set (List.getElem?_eq_some_iff.1 hk).1 _, hidx⟩
      · exact ⟨u, mem_iff_getElem?.2 ⟨j, by rw [getElem?_set_ne (Ne.symm hjk)]; exact hj⟩, hidx⟩
    · rcases mem_or_eq_of_mem_set hu with hu | rfl
      · exact .inl hu
      refine .inr fun hidx => ?_
      subst hidx
      exact h.dirty.2

lemma keeps_complete {k : Nat} {env : FlushEnv Id} (h : s.Held idx i) (hret : s.returned ≠ some true)
    (hok : s.OthersSpare (.complete k env)) : Keeps idx i (s.step (.complete k env)) := by
  simp only [step, OthersSpare] at hok ⊢
  cases hk : s.tasks[k]? with
  | none => exact .inr ⟨hret, .inr h⟩
  | some t =>
    have hspare := hok t hk
    dsimp only at hspare ⊢
    generalize (s.chunks t.idx).flushBufferAsyncOne env t.snap = q at hspare ⊢
    obtain ⟨c, r⟩ := q
    dsimp only at hspare ⊢
    have hleft : ∀ u ∈ s.tasks.eraseIdx k, u ∈ s.tasks := fun u hu => mem_of_mem_eraseIdx hu
    by_cases hidx : t.idx = idx
    · subst hidx
      cases hown : t.own with
      | true =>
        cases hr : r.toBool with
        | true => exact .inl ⟨(t.idx, t.snap), mem_cons_self, rfl, h.sent t (mem_of_getElem? hk) hown rfl⟩
        | false => exact .inr ⟨hret, .inl (by simp)⟩
      | false =>
        rcases hspare hown i h.dirty with ⟨hr, hcov⟩ | ⟨hdirty, hfree⟩
        · exact .inl ⟨(t.idx, t.snap), by simp [hr], rfl, hcov⟩
        have hslot : update s.chunks t.idx c t.idx = c := update_self ..
        refine .inr ⟨hret, .inr ⟨?_, ?_, ?_, fun u hu => h.sent u (hleft u hu)⟩⟩
        · simpa [slot, hslot] using hdirty
        · simp [hdirty.1, h.active]
        · simp [slot, hfree]
    · have hslot : update s.chunks t.idx c idx = s.chunks idx := update_of_ne (Ne.symm hidx) _ _
      have hactive : idx ∈ if c.shard.slot.isEmpty then s.activeChunks.filter (· ≠ t.idx) else s.activeChunks := by
        split
        · exact List.mem_filter.2 ⟨h.active, by simpa using Ne.symm hidx⟩
        · exact h.active
      refine .inr ⟨hret, .inr (h.of (by simpa [slot, hslot] using h.dirty) hactive (by simpa [slot, hslot] using Or.inl)
        (fun u hu huidx => ⟨u, ?_, huidx⟩) (fun u hu => .inl (hleft u hu)))⟩
      obtain ⟨j, hj⟩ := mem_iff_getElem?.1 hu
      refine mem_eraseIdx_iff_getElem?.2 ⟨j, fun hjk => hidx ?_, hj⟩
      rw [hjk, hk] at hj
      rw [Option.some.inj hj, huidx]

lemma keeps_check {busy : Nat → Bool} (h : s.Held idx i) (hret : s.returned ≠ some true)
    (hok : s.OthersSpare (.check busy)) : Keeps idx i (s.step (.check busy)) := by
  simp only [step]
  split
  · exact .inr ⟨hret, .inr h⟩
  rename_i hown
  split
  · rename_i herr
    exact .inr ⟨by simp, .inl herr⟩
  have hnotask : ∀ t ∈ s.tasks, False := by
    intro t ht
    simp only [Bool.or_eq_true, not_or, any_eq_true, not_exists, not_and] at hown
    exact hown.2 t ht (hok t ht)
  have hfree : (s.slot idx).flushing = false := by
    rw [← Bool.not_eq_true]
    intro hf
    obtain ⟨t, ht, -⟩ := h.claimed hf
    exact hnotask t ht
  have hpending : s.activeChunks.any (fun idx => busy idx || s.pending idx) = true :=
    any_eq_true.2 ⟨idx, h.active, by simp [pending, h.dirty.1, hfree]⟩
  rw [if_pos hpending]
  exact .inr ⟨hret, .inr h⟩

lemma step_mono (a : PipelineAction Id) : (s.Flushed idx i → (s.step a).Flushed idx i) ∧
    (s.firstErr = true → (s.step a).firstErr = true ∧ (s.returned ≠ some true → (s.step a).returned ≠ some true)) := by
  cases a <;> simp only [step] <;> repeat' split
  all_goals simp_all [Flushed]

lemma returned_step (a : PipelineAction Id) : (s.step a).returned = s.returned ∨ ∃ busy, a = .check busy := by
  cases a <;> simp only [step] <;> repeat' split
  all_goals simp

lemma keeps_step (a : PipelineAction Id) (h : Keeps idx i s) (hok : s.OthersSpare a) : Keeps idx i (s.step a) := by
  obtain ⟨hflushed, herr⟩ := step_mono (s := s) (i := i) a
  rcases h with h | ⟨hret, h | h⟩
  · exact .inl (hflushed h)
  · exact .inr ⟨(herr h).2 hret, .inl (herr h).1⟩
  have hsame : (s.step a).Held idx i → (¬ ∃ busy, a = .check busy) → Keeps idx i (s.step a) := fun hh hne => by
    have hreturned := (returned_step (s := s) a).resolve_right hne
    exact .inr ⟨by rwa [hreturned], .inr hh⟩
  cases a with
  | write a w => exact hsame (held_write h a w) (by simp)
  | mark busy => exact hsame (held_mark h busy) (by simp)
  | claim a own => exact hsame (held_claim h a own) (by simp)
  | fifoTimeout a own => exact hsame (held_fifoTimeout h a own) (by simp)
  | snapshotAgain k => exact hsame (held_snapshotAgain h k) (by simp)
  | complete k env => exact keeps_complete h hret hok
  | check busy => exact keeps_check h hret hok

/-! ## Whole runs -/

/-- A call that succeeds has flushed every byte dirty at its start, in every run in which other tasks give no bytes up
and are not flushing when the call looks for slots left. -/
theorem full_flush_flushes_all (hstart : s.Starts) {l : List (PipelineAction Id)} (hl : Meets step OthersSpare s l)
    (hret : (run step s l).returned = some true) (hdirty : (s.slot idx).HasDirty i) : (run step s l).Flushed idx i := by
  have hheld : s.Held idx i :=
    ⟨hdirty, hstart.active idx hdirty.1, hstart.claimed idx, fun t ht hown => by simp [hstart.others t ht] at hown⟩
  have hkeeps : Keeps idx i s := .inr ⟨by simp [hstart.returned], .inr hheld⟩
  have hstep : ∀ (s : Pipeline Id) a, Keeps idx i s → s.OthersSpare a → Keeps idx i (s.step a) :=
    fun s a h hok => keeps_step a h hok
  rcases invariant_run hstep hkeeps hl with hflushed | ⟨hne, -⟩
  · exact hflushed
  · exact absurd hret hne

def oneByte : Pipeline Nat where
  chunks idx := if idx = 0 then (Client.opened false).writeAll [⟨0, [7], 1⟩] else .opened false
  activeChunks := [0]
  tasks := []
  flushed := []
  firstErr := false
  returned := none

lemma starts_oneByte : oneByte.Starts := by
  have hslot : ∀ idx, idx ≠ 0 → oneByte.slot idx = new 0 := fun idx h => by simp [slot, oneByte, h, opened]
  refine ⟨by simp [oneByte], fun idx hne => ?_, fun idx hf => ?_, rfl⟩
  · by_cases h : idx = 0
    · simp [oneByte, h]
    · simp [hslot idx h, ChunkSlot.isEmpty, new] at hne
  · by_cases h : idx = 0
    · subst h
      exact absurd hf (by decide)
    · simp [hslot idx h, new] at hf

lemma dirty_oneByte : (oneByte.slot 0).HasDirty 0 := ⟨by decide, (0, 1), by decide, by decide, by decide⟩

theorem own_flush_is_kept : (run step oneByte
    [.claim 0 true, .complete 0 (.onlyWrites ⟨5, 1⟩), .check fun _ => false]).Flushed 0 0 := by
  refine full_flush_flushes_all starts_oneByte ⟨trivial, fun t ht hown => ?_, ?_, trivial⟩ (by decide +kernel) dirty_oneByte
  · cases ht
    cases hown
  · intro t ht
    cases ht

lemma not_flushed {s : Pipeline Nat} (h : s.flushed = []) : ¬s.Flushed 0 0 := by
  rintro ⟨x, hx, -⟩
  rw [h] at hx
  cases hx

/-- The ticker claims the slot, the call finds no other and succeeds; then that flush fails. -/
theorem slot_claimed_elsewhere_is_missed :
    let called := run step oneByte [.mark fun _ => false, .claim 0 false, .check fun _ => false]
    let failed := called.step (.complete 0 { FlushEnv.onlyWrites ⟨5, 1⟩ with write := none })
    oneByte.Starts ∧ (oneByte.slot 0).HasDirty 0 ∧ called.returned = some true ∧ ¬ called.Flushed 0 0 ∧ ¬ failed.Flushed 0 0 := by
  exact ⟨starts_oneByte, dirty_oneByte, by decide +kernel, not_flushed (by decide +kernel), not_flushed (by decide +kernel)⟩

end Pipeline

end Dfs
