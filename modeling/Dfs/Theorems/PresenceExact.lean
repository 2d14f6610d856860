import Mathlib.Data.List.Perm.Basic
import Dfs.ChunkStorage

/-! # The presence index and the disk -/

namespace Dfs

open Function StorageTask

variable {Id : Type}

/-- It has changed the disk, or found no file, and is to update the index. -/
def StorageTask.Recording (t : StorageTask Id) : Prop := t.phase = .renamed ∨ t.phase = .forgetting

def Unrecorded (id : Id) (tasks : List (StorageTask Id)) : Prop := ∀ t ∈ tasks, t.id = id → ¬ t.Recording

/-- Of every chunk no operation is about to record, what the disk has. -/
def ChunkStorage.Tracks (s : ChunkStorage Id) : Prop :=
  ∀ index ∈ s.listChunksCache, ∀ id, Unrecorded id s.tasks → index id = s.disk id

/-- What it records is so, unless another is about to record the chunk. -/
def StorageStep.Faithful (s : ChunkStorage Id) : StorageStep Id → Prop
  | .advance i => ∀ t, s.tasks[i]? = some t → s.listChunksCache ≠ none → Unrecorded t.id (s.tasks.eraseIdx i) →
      (t.phase = .renamed → s.disk t.id = true) ∧ (t.phase = .forgetting → s.disk t.id = false)
  | .fail i => ∀ t, s.tasks[i]? = some t → t.phase = .renamed → s.coalescer = true → ∀ index ∈ s.listChunksCache,
      Unrecorded t.id (s.tasks.eraseIdx i) → index t.id = s.disk t.id
  | .install => ∀ collected ∈ s.walk, ∀ id, Unrecorded id s.tasks → collected id = s.disk id
  | _ => True

/-! ## The operations in progress -/

section Tasks

variable {tasks : List (StorageTask Id)} {i : Nat} {t t' : StorageTask Id} {id : Id}

lemma unrecorded_cons : Unrecorded id (t :: tasks) ↔ (t.id = id → ¬ t.Recording) ∧ Unrecorded id tasks := List.forall_mem_cons

lemma unrecorded_perm {tasks' : List (StorageTask Id)} (h : tasks.Perm tasks') : Unrecorded id tasks ↔ Unrecorded id tasks' :=
  forall_congr' fun _ => by rw [h.mem_iff]

lemma unrecorded_split (ht : tasks[i]? = some t) :
    Unrecorded id tasks ↔ (t.id = id → ¬ t.Recording) ∧ Unrecorded id (tasks.eraseIdx i) := by
  obtain ⟨hi, rfl⟩ := List.getElem?_eq_some_iff.mp ht
  rw [← unrecorded_cons]
  exact (unrecorded_perm (List.getElem_cons_eraseIdx_perm hi)).symm

lemma unrecorded_set (ht : tasks[i]? = some t) :
    Unrecorded id (tasks.set i t') ↔ (t'.id = id → ¬ t'.Recording) ∧ Unrecorded id (tasks.eraseIdx i) := by
  obtain ⟨hi, rfl⟩ := List.getElem?_eq_some_iff.mp ht
  rw [← unrecorded_cons]
  exact unrecorded_perm (List.set_perm_cons_eraseIdx hi _)

end Tasks

namespace ChunkStorage

variable {s : ChunkStorage Id} {i : Nat} {t : StorageTask Id}

lemma tracks_finish (h : s.Tracks) (ht : s.tasks[i]? = some t) (hphase : ¬ t.Recording) : (s.finish i).Tracks := by
  intro index hindex id hfree
  exact h index hindex id ((unrecorded_split ht).mpr ⟨fun _ => hphase, hfree⟩)

lemma tracks_setPhase (h : s.Tracks) (ht : s.tasks[i]? = some t) (hphase : ¬ t.Recording) (phase : StoragePhase) :
    (s.setPhase i t phase).Tracks := by
  intro index hindex id hfree
  exact h index hindex id ((unrecorded_split ht).mpr ⟨fun _ => hphase, ((unrecorded_set ht).mp hfree).2⟩)

variable [DecidableEq Id]

lemma tracks_setFile (h : s.Tracks) (ht : s.tasks[i]? = some t) {phase : StoragePhase}
    (hphase : phase = .renamed ∨ phase = .forgetting) (there : Bool) : ((s.setFile t.id there).setPhase i t phase).Tracks := by
  intro index hindex id hfree
  obtain ⟨hself, hothers⟩ := (unrecorded_set ht).mp hfree
  have hne : id ≠ t.id := fun heq => hself heq.symm hphase
  show index id = update s.disk t.id there id
  rw [update_of_ne hne]
  exact h index hindex id ((unrecorded_split ht).mpr ⟨fun heq => absurd heq.symm hne, hothers⟩)

lemma tracks_setIndex_iff (h : s.Tracks) (ht : s.tasks[i]? = some t) (there : Bool) : ((s.setIndex t.id there).finish i).Tracks ↔
      (s.listChunksCache ≠ none → Unrecorded t.id (s.tasks.eraseIdx i) → s.disk t.id = there) := by
  constructor
  · intro hafter hbuilt hfree
    obtain ⟨index, hindex⟩ := Option.ne_none_iff_exists'.mp hbuilt
    have hmem : update index t.id there ∈ (s.setIndex t.id there).listChunksCache := by
      rw [setIndex, hindex]
      rfl
    have hself := hafter _ hmem t.id hfree
    rw [update_self] at hself
    exact hself.symm
  · intro hrecorded index' hindex' id hfree
    obtain ⟨index, hindex, rfl⟩ := Option.map_eq_some_iff.mp hindex'
    show update index t.id there id = s.disk id
    by_cases hid : id = t.id
    · rw [hid, update_self]
      have hbuilt : s.listChunksCache ≠ none := by
        rw [hindex]
        nofun
      exact (hrecorded hbuilt (hid ▸ hfree)).symm
    rw [update_of_ne hid]
    exact h index hindex id ((unrecorded_split ht).mpr ⟨fun heq => absurd heq.symm hid, hfree⟩)

lemma tracks_advance_iff (h : s.Tracks) (ht : s.tasks[i]? = some t) :
    (s.advance i t).Tracks ↔ (s.listChunksCache ≠ none → Unrecorded t.id (s.tasks.eraseIdx i) →
      (t.phase = .renamed → s.disk t.id = true) ∧ (t.phase = .forgetting → s.disk t.id = false)) := by
  unfold advance
  cases hphase : t.phase with
  | write => exact iff_of_true (tracks_setFile h ht (Or.inl rfl) true) fun _ _ => ⟨nofun, nofun⟩
  | renamed =>
    rw [tracks_setIndex_iff h ht true]
    exact forall₂_congr fun _ _ => ⟨fun hdisk => ⟨fun _ => hdisk, nofun⟩, fun hdisk => hdisk.1 rfl⟩
  | delete =>
    refine iff_of_true ?_ fun _ _ => ⟨nofun, nofun⟩
    have hquiet : ¬ t.Recording := by simp [Recording, hphase]
    dsimp only
    split
    · exact tracks_setPhase h ht hquiet .found
    · exact tracks_setPhase h ht hquiet .forgetting
  | found =>
    refine iff_of_true ?_ fun _ _ => ⟨nofun, nofun⟩
    dsimp only
    split
    · exact tracks_setFile h ht (Or.inr rfl) false
    · exact tracks_finish h ht (by simp [Recording, hphase])
  | quarantine =>
    refine iff_of_true ?_ fun _ _ => ⟨nofun, nofun⟩
    dsimp only
    split
    · exact tracks_setFile h ht (Or.inr rfl) false
    · exact tracks_finish h ht (by simp [Recording, hphase])
  | forgetting =>
    rw [tracks_setIndex_iff h ht false]
    exact forall₂_congr fun _ _ => ⟨fun hdisk => ⟨nofun, fun _ => hdisk⟩, fun hdisk => hdisk.2 rfl⟩

lemma tracks_fail_iff (h : s.Tracks) (ht : s.tasks[i]? = some t) :
    (s.fail i t).Tracks ↔ (t.phase = .renamed → s.coalescer = true → ∀ index ∈ s.listChunksCache,
      Unrecorded t.id (s.tasks.eraseIdx i) → index t.id = s.disk t.id) := by
  unfold fail
  cases hphase : t.phase with
  | write => exact iff_of_true (tracks_finish h ht (by simp [Recording, hphase])) nofun
  | renamed =>
    dsimp only
    split
    · rename_i hcoalescer
      constructor
      · intro hafter _ _ index hindex hfree
        exact hafter index hindex t.id hfree
      · intro hrecorded index hindex id hfree
        by_cases hid : id = t.id
        · rw [hid]
          exact hrecorded rfl hcoalescer index hindex (hid ▸ hfree)
        · exact h index hindex id ((unrecorded_split ht).mpr ⟨fun heq => absurd heq.symm hid, hfree⟩)
    · rename_i hcoalescer
      exact iff_of_true h fun _ htrue => absurd htrue hcoalescer
  | delete => exact iff_of_true h nofun
  | found => exact iff_of_true (tracks_finish h ht (by simp [Recording, hphase])) nofun
  | quarantine => exact iff_of_true (tracks_finish h ht (by simp [Recording, hphase])) nofun
  | forgetting => exact iff_of_true h nofun

omit [DecidableEq Id] in
lemma tracks_elim_iff {α : Type} {found : Option α} {next : α → ChunkStorage Id} {right : α → Prop} (h : s.Tracks)
    (hnext : ∀ x, found = some x → ((next x).Tracks ↔ right x)) : (found.elim s next).Tracks ↔ ∀ x, found = some x → right x := by
  cases found with
  | none => exact iff_of_true h (by simp)
  | some x =>
    rw [Option.elim_some, hnext x rfl]
    simp

lemma tracks_step_iff (h : s.Tracks) (a : StorageStep Id) : (s.step a).Tracks ↔ a.Faithful s := by
  cases a with
  | start id op =>
    refine iff_of_true (fun index hindex id' hfree => ?_) trivial
    exact h index hindex id' fun t ht => hfree t (List.mem_append_left _ ht)
  | advance i =>
    have hstep : s.step (.advance i) = (s.tasks[i]?).elim s (s.advance i) := by
      simp only [step]
      cases s.tasks[i]? <;> rfl
    rw [hstep]
    exact tracks_elim_iff h fun t ht => tracks_advance_iff h ht
  | fail i =>
    have hstep : s.step (.fail i) = (s.tasks[i]?).elim s (s.fail i) := by
      simp only [step]
      cases s.tasks[i]? <;> rfl
    rw [hstep]
    exact tracks_elim_iff h fun t ht => tracks_fail_iff h ht
  | beginWalk =>
    refine iff_of_true ?_ trivial
    simp only [step]
    split <;> exact h
  | observe id => exact iff_of_true h trivial
  | install =>
    have hstep : s.step .install = s.walk.elim s fun collected => { s with listChunksCache := some collected, walk := none } := by
      simp only [step]
      cases s.walk <;> rfl
    rw [hstep]
    refine tracks_elim_iff h fun collected _ => ⟨fun hafter => hafter collected rfl, fun hfaithful index hindex => ?_⟩
    rw [← Option.some.inj hindex]
    exact hfaithful
  | walkFails => exact iff_of_true h trivial

omit [DecidableEq Id] in
lemma Tracks.present_eq (h : s.Tracks) (hquiet : s.tasks = []) (id : Id) : s.present id = s.disk id := by
  unfold present
  cases hindex : s.listChunksCache with
  | none => rfl
  | some index =>
    refine h index hindex id ?_
    rw [hquiet]
    exact nofun

end ChunkStorage

/-- The index is exact for every chunk no operation is about to record, exactly if every step is faithful; at rest,
answers are what is on disk. -/
theorem presence_exact [DecidableEq Id] (coalescer : Bool) (disk : Id → Bool) (steps : List (StorageStep Id)) :
    (Transition.Meets ChunkStorage.step (fun s a => (s.step a).Tracks) (.opened coalescer disk) steps ↔
      Transition.Meets ChunkStorage.step (fun s a => a.Faithful s) (.opened coalescer disk) steps) ∧
      (Transition.Meets ChunkStorage.step (fun s a => a.Faithful s) (.opened coalescer disk) steps →
        (Transition.run ChunkStorage.step (.opened coalescer disk) steps).tasks = [] →
          ∀ id, (Transition.run ChunkStorage.step (.opened coalescer disk) steps).present id =
            (Transition.run ChunkStorage.step (.opened coalescer disk) steps).disk id) := by
  have hopened : (ChunkStorage.opened coalescer disk).Tracks := nofun
  have hstep : ∀ (s : ChunkStorage Id) a, s.Tracks → ((s.step a).Tracks ↔ a.Faithful s) :=
    fun s a h => ChunkStorage.tracks_step_iff h a
  refine ⟨Transition.meets_invariant_iff hstep hopened, fun hfaithful hquiet id => ?_⟩
  have hkeeps : ∀ (s : ChunkStorage Id) a, s.Tracks → a.Faithful s → (s.step a).Tracks := fun s a h => (hstep s a h).mpr
  exact (Transition.invariant_run hkeeps hopened hfaithful).present_eq hquiet id

def storageAfter (coalescer : Bool) (steps : List (StorageStep Nat)) : ChunkStorage Nat :=
  Transition.run ChunkStorage.step (.opened coalescer fun _ => false) steps

def writtenBehindWalk : ChunkStorage Nat := storageAfter false [.beginWalk, .start 1 .write, .advance 0, .advance 0, .install]

def unsyncedWrite : ChunkStorage Nat := storageAfter true [.beginWalk, .install, .start 1 .write, .advance 0, .fail 0]

def deletedBeforeRecorded : ChunkStorage Nat :=
  storageAfter false [.beginWalk, .install, .start 1 .write, .advance 0, .start 1 .delete, .advance 1, .advance 1,
    .advance 1, .advance 0]

theorem index_misses_write :
    (writtenBehindWalk.tasks = [] ∧ writtenBehindWalk.disk 1 = true ∧ writtenBehindWalk.present 1 = false) ∧
      (unsyncedWrite.tasks = [] ∧ unsyncedWrite.disk 1 = true ∧ unsyncedWrite.present 1 = false) ∧
      (deletedBeforeRecorded.tasks = [] ∧ deletedBeforeRecorded.disk 1 = false ∧ deletedBeforeRecorded.present 1 = true) := by
  decide

end Dfs
