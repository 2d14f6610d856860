import Dfs.Client.QueueRace
import Dfs.Theorems.MetadataConfirmed

/-! # Does a cancelled file come back into the queue? -/

namespace Dfs

open List Option MetadataQueue TaskStep Transition

variable {Id : Type}

/-- The entries of the queue and in the hands of those that took stalled ones. -/
def MetadataQueue.held (q : MetadataQueue Id) : List (MetadataEntry Id) := q.inner ++ q.rescues

/-- The files of these entries and of the pushes that found no deleted mark and wait for the lock. -/
def QueueTasks.files (s : QueueTasks Id) : List FileId := s.queue.held.map (·.metadata.id) ++ s.pushes.map (·.metadata.id)

/-- Where a cancellation takes the lock: no push of the file is past its look for the mark, no stalled entry of it is
with a rescuer, and the index has the position of every entry of it. -/
structure QueueTasks.Settled (s : QueueTasks Id) (file : FileId) : Prop where
  pushes : ∀ p ∈ s.pushes, p.metadata.id ≠ file
  rescues : ∀ e ∈ s.queue.rescues, e.metadata.id ≠ file
  indexed : ∀ (pos : Nat) (e : MetadataEntry Id), s.queue.inner[pos]? = some e → e.metadata.id = file →
    s.queue.index file = some pos

/-! ## What a step does to the entries -/

variable {q : MetadataQueue Id}

lemma pushLocked_spec (h : IndexSound q.inner q.index) (m : FileMetadata Id) (tx : Option Completion) (full : Bool) (now : Nat) :
    IndexSound (q.pushLocked m tx full now).inner (q.pushLocked m tx full now).index ∧
      (q.pushLocked m tx full now).deletedIds = q.deletedIds ∧ (q.pushLocked m tx full now).rescues = q.rescues ∧
      ∀ file, (∃ e ∈ (q.pushLocked m tx full now).inner, e.metadata.id = file) ↔ m.id = file ∨ ∃ e ∈ q.inner,
        e.metadata.id = file := by
  unfold MetadataQueue.pushLocked
  cases hfind : q.find m.id with
  | none =>
    refine ⟨indexSound_append h _, rfl, rfl, fun file => ?_⟩
    simp [or_and_right, exists_or, or_comm]
  | some r =>
    obtain ⟨pos, entry⟩ := r
    obtain ⟨hget, hid⟩ := h.find hfind
    have hmerged : (q.coalesce entry m tx full).1.metadata.id = m.id := by
      unfold coalesce
      dsimp only
      split
      · rfl
      · exact hid
    refine ⟨indexSound_set h hget (hmerged.trans hid.symm), rfl, rfl, fun file => ?_⟩
    constructor
    · rintro ⟨e, he, hfile⟩
      rcases mem_or_eq_of_mem_set he with he | rfl
      · exact .inr ⟨e, he, hfile⟩
      · exact .inl (hmerged.symm.trans hfile)
    · have hpos := (List.getElem?_eq_some_iff.mp hget).1
      rintro (hfile | ⟨e, he, hfile⟩)
      · exact ⟨_, mem_set hpos _, hmerged.trans hfile⟩
      obtain ⟨i, hi⟩ := mem_iff_getElem?.mp he
      by_cases hip : pos = i
      · rw [hip, hi] at hget
        cases hget
        exact ⟨_, mem_set hpos _, hmerged.trans (hid.symm.trans hfile)⟩
      · exact ⟨e, mem_of_getElem? (i := i) (by rw [getElem?_set_ne hip]; exact hi), hfile⟩

lemma cancelLocked_spec (h : IndexSound q.inner q.index) (file : FileId) :
    IndexSound (q.cancelLocked file).inner (q.cancelLocked file).index ∧ (q.cancelLocked file).deletedIds = q.deletedIds ∧
      (q.cancelLocked file).rescues = q.rescues := by
  unfold MetadataQueue.cancelLocked
  cases hindex : q.index file with
  | none => exact ⟨h, rfl, rfl⟩
  | some pos => exact ⟨indexSound_eraseIdx h hindex, rfl, rfl⟩

variable {e : MetadataEntry Id} {s : QueueTasks Id}

lemma mem_cancelLocked {file : FileId} :
    e ∈ (q.cancelLocked file).inner ↔ ∃ pos : Nat, q.inner[pos]? = some e ∧ q.index file ≠ some pos := by
  unfold MetadataQueue.cancelLocked
  cases hindex : q.index file with
  | none =>
    constructor
    · intro he
      obtain ⟨pos, hpos⟩ := mem_iff_getElem?.mp he
      exact ⟨pos, hpos, nofun⟩
    · rintro ⟨pos, hpos, -⟩
      exact mem_of_getElem? hpos
  | some pos₀ =>
    dsimp only
    rw [mem_eraseIdx_iff_getElem?]
    constructor
    · rintro ⟨pos, hne, hpos⟩
      exact ⟨pos, hpos, fun heq => hne (some.inj heq).symm⟩
    · rintro ⟨pos, hpos, hne⟩
      exact ⟨pos, fun heq => hne (congrArg some heq.symm), hpos⟩

/-- Neither a push nor a cancellation. -/
def QueueStep.Moves : QueueStep Id → Prop
  | .push .. | .pushAndWait .. | .cancel _ => False
  | _ => True

lemma moves_spec (h : IndexSound q.inner q.index) {a : QueueStep Id} (ha : a.Moves) :
    IndexSound (q.step a).inner (q.step a).index ∧ (q.step a).deletedIds = q.deletedIds ∧ ∀ e ∈ (q.step a).held, e ∈ q.held := by
  have hsame : IndexSound q.inner q.index ∧ q.deletedIds = q.deletedIds ∧ ∀ e ∈ q.held, e ∈ q.held := ⟨h, rfl, fun e he => he⟩
  have hpopped : ∀ {e q'}, q.popFront = some (e, q') → IndexSound q'.inner q'.index ∧ q'.deletedIds = q.deletedIds ∧
      ∀ x ∈ q'.inner ++ (q'.rescues ++ [e]), x ∈ q.held := by
    intro e q' hpop
    refine ⟨indexSound_popFront h hpop, ?_⟩
    obtain ⟨l, hinner, rfl⟩ := popFront_eq_some hpop
    refine ⟨rfl, fun x hx => ?_⟩
    simp only [held, hinner, mem_append, mem_cons, not_mem_nil, or_false] at hx ⊢
    rcases hx with hx | hx | hx
    · exact .inl (.inr hx)
    · exact .inr hx
    · exact .inl (.inl hx)
  cases a with
  | push m full now => cases ha
  | pushAndWait m serial now => cases ha
  | cancel file => cases ha
  | pop =>
    unfold step
    dsimp only
    split
    · rename_i e q' _ hpop
      obtain ⟨hindex, hdeleted, hmem⟩ := hpopped hpop
      refine ⟨hindex, hdeleted, fun x hx => hmem x ?_⟩
      rw [← append_assoc]
      exact mem_append_left _ hx
    · exact hsame
  | checkDeleted =>
    unfold step
    dsimp only
    split
    · split <;> exact hsame
    · exact hsame
  | attempt confirmed =>
    unfold step
    dsimp only
    split
    · split <;> exact hsame
    · exact hsame
  | popStalled now =>
    unfold step
    dsimp only
    split
    · rename_i e q' hpop
      exact hpopped (popStalled_popFront hpop)
    · exact hsame
  | rescue i confirmed =>
    unfold step
    dsimp only
    split
    · rename_i e he
      have herase : ∀ x ∈ q.rescues.eraseIdx i, x ∈ q.rescues := fun x hx => mem_of_mem_eraseIdx hx
      split
      · refine ⟨h, rfl, fun x hx => ?_⟩
        exact (mem_append.mp hx).elim (mem_append_left _) fun hx => mem_append_right _ (herase x hx)
      · refine ⟨indexSound_pushInnerFront h e, rfl, fun x hx => ?_⟩
        rcases mem_append.mp hx with hx | hx
        · rcases mem_cons.mp hx with rfl | hx
          · exact mem_append_right _ (mem_of_getElem? he)
          · exact mem_append_left _ hx
        · exact mem_append_right _ (herase x hx)
    · exact hsame

/-! ## Runs -/

lemma taken_mem {a : TaskStep Id} (h : a.taken s = some e) : e ∈ s.queue.inner := by
  have hfront : ∀ {r : MetadataEntry Id × MetadataQueue Id}, s.queue.popFront = some r → r.1 ∈ s.queue.inner := by
    intro r hpop
    obtain ⟨l, hinner, -⟩ := popFront_eq_some hpop
    rw [hinner]
    exact mem_cons_self
  cases a with
  | pop =>
    unfold taken at h
    dsimp only at h
    split at h
    · obtain ⟨r, hpop, rfl⟩ := map_eq_some_iff.mp h
      exact hfront hpop
    · cases h
  | popStalled now =>
    obtain ⟨r, hpop, rfl⟩ := map_eq_some_iff.mp h
    exact hfront (popStalled_popFront hpop)
  | pushCheck m tx full => cases h
  | pushLocked i now => cases h
  | cancelMark file => cases h
  | cancelLocked i => cases h
  | checkDeleted => cases h
  | attempt confirmed => cases h
  | rescue i confirmed => cases h

lemma mem_files {file : FileId} : file ∈ s.files ↔ (∃ e ∈ s.queue.inner, e.metadata.id = file) ∨
    (∃ e ∈ s.queue.rescues, e.metadata.id = file) ∨ ∃ p ∈ s.pushes, p.metadata.id = file := by
  simp [QueueTasks.files, held]

/-- What holds in every run: the index is sound, and a cancellation that waits for the lock has set its mark. -/
structure QueueTasks.Sound (s : QueueTasks Id) : Prop where
  index : IndexSound s.queue.inner s.queue.index
  marked : ∀ file ∈ s.cancels, s.queue.deletedIds file = true

/-- A step keeps the marks, and only a push of a file without one brings the file in. -/
theorem step_spec (h : s.Sound) (a : TaskStep Id) : (s.step a).Sound ∧
    ∀ file, s.queue.deletedIds file = true → (s.step a).queue.deletedIds file = true ∧
      (file ∈ (s.step a).files → file ∈ s.files) := by
  have hmoves : ∀ {a : QueueStep Id}, a.Moves → ({ s with queue := s.queue.step a } : QueueTasks Id).Sound ∧
      ∀ file, s.queue.deletedIds file = true → (s.queue.step a).deletedIds file = true ∧
        (file ∈ ({ s with queue := s.queue.step a } : QueueTasks Id).files → file ∈ s.files) := by
    intro a ha
    obtain ⟨hindex, hdeleted, hheld⟩ := moves_spec h.index ha
    refine ⟨⟨hindex, hdeleted ▸ h.marked⟩, fun file hfile => ⟨hdeleted ▸ hfile, fun hmem => ?_⟩⟩
    rcases mem_append.mp hmem with hmem | hmem
    · obtain ⟨e, he, rfl⟩ := mem_map.mp hmem
      exact mem_append_left _ (mem_map_of_mem (hheld e he))
    · exact mem_append_right _ hmem
  cases a with
  | pushCheck m tx full =>
    unfold QueueTasks.step
    dsimp only
    split
    · exact ⟨⟨h.index, h.marked⟩, fun file hfile => ⟨hfile, id⟩⟩
    · rename_i hfree
      refine ⟨⟨h.index, h.marked⟩, fun file hfile => ⟨hfile, fun hmem => ?_⟩⟩
      have hne : file ≠ m.id := by
        rintro rfl
        exact hfree hfile
      simpa [QueueTasks.files, hne] using hmem
  | pushLocked i now =>
    unfold QueueTasks.step
    dsimp only
    split
    · rename_i p hp
      obtain ⟨hindex, hdeleted, hrescues, hfiles⟩ := pushLocked_spec h.index p.metadata p.tx p.full now
      refine ⟨⟨hindex, hdeleted ▸ h.marked⟩, fun file hfile => ⟨hdeleted ▸ hfile, fun hmem => ?_⟩⟩
      rw [mem_files] at hmem ⊢
      rcases hmem with hmem | ⟨e, he, hid⟩ | ⟨x, hx, hid⟩
      · rcases (hfiles file).mp hmem with hid | hmem
        · exact .inr (.inr ⟨p, mem_of_getElem? hp, hid⟩)
        · exact .inl hmem
      · exact .inr (.inl ⟨e, hrescues ▸ he, hid⟩)
      · exact .inr (.inr ⟨x, mem_of_mem_eraseIdx hx, hid⟩)
    · exact ⟨h, fun file hfile => ⟨hfile, id⟩⟩
  | cancelMark file =>
    have hmark : ∀ f, s.queue.deletedIds f = true → (s.queue.cancelMark file).deletedIds f = true := by
      intro f hf
      by_cases hff : f = file
      · exact hff ▸ Function.update_self ..
      · exact (Function.update_of_ne hff ..).trans hf
    refine ⟨⟨h.index, fun f hf => ?_⟩, fun f hf => ⟨hmark f hf, id⟩⟩
    rcases mem_append.mp hf with hf | hf
    · exact hmark f (h.marked f hf)
    · exact mem_singleton.mp hf ▸ Function.update_self ..
  | cancelLocked i =>
    unfold QueueTasks.step
    dsimp only
    split
    · rename_i file hfile
      obtain ⟨hindex, hdeleted, hrescues⟩ := cancelLocked_spec h.index file
      refine ⟨⟨hindex, fun f hf => hdeleted ▸ h.marked f (mem_of_mem_eraseIdx hf)⟩, fun f hf => ⟨hdeleted ▸ hf, fun hmem => ?_⟩⟩
      rw [mem_files] at hmem ⊢
      refine hmem.imp ?_ (Or.imp_left ?_)
      · rintro ⟨e, he, hid⟩
        obtain ⟨pos, hpos, -⟩ := mem_cancelLocked.mp he
        exact ⟨e, mem_of_getElem? hpos, hid⟩
      · rintro ⟨e, he, hid⟩
        exact ⟨e, hrescues ▸ he, hid⟩
    · exact ⟨h, fun file hfile => ⟨hfile, id⟩⟩
  | pop => exact hmoves (a := .pop) trivial
  | checkDeleted => exact hmoves (a := .checkDeleted) trivial
  | attempt confirmed => exact hmoves (a := .attempt confirmed) trivial
  | popStalled now => exact hmoves (a := .popStalled now) trivial
  | rescue i confirmed => exact hmoves (a := .rescue i confirmed) trivial

lemma sound_run (l : List (TaskStep Id)) : (run QueueTasks.step QueueTasks.new l).Sound := by
  have hstep : ∀ (s : QueueTasks Id) (a : TaskStep Id), s.Sound → True → (s.step a).Sound := fun s a h _ => (step_spec h a).1
  exact invariant_run hstep ⟨nofun, nofun⟩ (meets_of_forall fun _ _ _ => trivial)

/-- The mark keeps a file out that is nowhere. -/
theorem stays_out {file : FileId} (hsound : s.Sound) (hmark : s.queue.deletedIds file = true) (hout : file ∉ s.files)
    (l : List (TaskStep Id)) : file ∉ (run QueueTasks.step s l).files := by
  have hstep : ∀ (s : QueueTasks Id) (a : TaskStep Id), (s.Sound ∧ s.queue.deletedIds file = true ∧ file ∉ s.files) → True →
      (s.step a).Sound ∧ (s.step a).queue.deletedIds file = true ∧ file ∉ (s.step a).files := by
    rintro s a ⟨hsound, hmark, hout⟩ -
    obtain ⟨hsound', hspec⟩ := step_spec hsound a
    exact ⟨hsound', (hspec file hmark).1, fun hmem => hout ((hspec file hmark).2 hmem)⟩
  exact (invariant_run hstep ⟨hsound, hmark, hout⟩ (meets_of_forall fun _ _ _ => trivial)).2.2

/-- In any run, the file of a cancellation that takes the lock is not in the queue and not taken from it afterwards,
whatever follows: exactly if the cancellation finds it settled. -/
theorem cancelled_stays_out_iff (l : List (TaskStep Id)) (i : Nat) (file : FileId)
    (hcancel : (run QueueTasks.step QueueTasks.new l).cancels[i]? = some file) :
    (∀ more (a : TaskStep Id), let s := run QueueTasks.step QueueTasks.new (l ++ .cancelLocked i :: more)
      (∀ e ∈ s.queue.inner, e.metadata.id ≠ file) ∧ ∀ e, a.taken s = some e → e.metadata.id ≠ file) ↔
    (run QueueTasks.step QueueTasks.new l).Settled file := by
  have hsound := sound_run l
  simp only [run_append]
  generalize run QueueTasks.step QueueTasks.new l = s at hsound hcancel ⊢
  have hstep : s.step (.cancelLocked i) = ⟨s.queue.cancelLocked file, s.pushes, s.cancels.eraseIdx i, file :: s.cancelled⟩ := by
    simp only [QueueTasks.step, hcancel]
  obtain ⟨hindex, hdeleted, hrescues⟩ := cancelLocked_spec hsound.index file
  constructor
  · intro h
    refine ⟨fun p hp hid => ?_, fun e he hid => ?_, fun pos e he hid => ?_⟩
    · -- the push gets the lock next
      obtain ⟨j, hj⟩ := mem_iff_getElem?.mp hp
      obtain ⟨-, -, -, hfiles⟩ := pushLocked_spec hindex p.metadata p.tx p.full 0
      obtain ⟨e, he, hid'⟩ := (hfiles file).mpr (.inl hid)
      refine (h [.pushLocked j 0] .pop).1 e ?_ hid'
      simpa [run, QueueTasks.step, hcancel, hj] using he
    · -- the rescuer puts the entry back next
      obtain ⟨j, hj⟩ := mem_iff_getElem?.mp he
      refine (h [.rescue j false] .pop).1 e ?_ hid
      simp [run, QueueTasks.step, hcancel, step, hrescues, hj, pushInnerFront]
    · by_contra hne
      refine (h [] .pop).1 e ?_ hid
      simpa [run, hstep] using mem_cancelLocked.mpr ⟨pos, he, hne⟩
  · intro h more a
    have hout : file ∉ (s.step (.cancelLocked i)).files := by
      rw [hstep, mem_files]
      rintro (⟨e, he, hid⟩ | ⟨e, he, hid⟩ | ⟨p, hp, hid⟩)
      · obtain ⟨pos, hpos, hne⟩ := mem_cancelLocked.mp he
        exact hne (h.indexed pos e hpos hid)
      · exact h.rescues e (hrescues ▸ he) hid
      · exact h.pushes p hp hid
    obtain ⟨hsound', hspec⟩ := step_spec hsound (.cancelLocked i)
    have hmark := (hspec file (hsound.marked file (mem_of_getElem? hcancel))).1
    have hin := stays_out hsound' hmark hout more
    have hquiet : ∀ e ∈ (run QueueTasks.step (s.step (.cancelLocked i)) more).queue.inner, e.metadata.id ≠ file :=
      fun e he hid => hin (mem_files.mpr (.inl ⟨e, he, hid⟩))
    exact ⟨hquiet, fun e he => hquiet e (taken_mem he)⟩

theorem pushed_before_stays_out :
    (TaskStep.pop.taken (run QueueTasks.step QueueTasks.new
      [.pushCheck (queuedFile 1) none false, .pushLocked 0 0, .cancelMark 1, .cancelLocked 0,
        .pushCheck (queuedFile 1) none false,
        .pushLocked 0 1])).map (·.metadata.id) ≠ some 1 := by
  have hsettled : (run QueueTasks.step QueueTasks.new
      [.pushCheck (queuedFile 1) none false, .pushLocked 0 0, .cancelMark 1]).Settled 1 := by
    refine ⟨by simp [run, QueueTasks.step, QueueTasks.new, new], nofun, ?_⟩
    rintro (_ | pos) e he -
    · rfl
    · cases he
  intro h
  obtain ⟨e, he, hid⟩ := Option.map_eq_some_iff.mp h
  exact ((cancelled_stays_out_iff [.pushCheck (queuedFile 1) none false, .pushLocked 0 0, .cancelMark 1] 0 1 rfl).mpr hsettled
    [.pushCheck (queuedFile 1) none false, .pushLocked 0 1] .pop).2 e he hid

theorem cancelled_file_popped :
    let s := run QueueTasks.step QueueTasks.new
      [.pushCheck (queuedFile 1) none false, .cancelMark 1, .cancelLocked 0, .pushLocked 0 0]
    s.cancelled = [1] ∧ (TaskStep.pop.taken s).map (·.metadata.id) = some 1 := by
  decide

end Dfs
