import Dfs.Lib.Transition
import Dfs.StoreRun

/-! # One outstanding patch for each slot -/

namespace Dfs

open Function Transition Node

variable {Id : Type} [DecidableEq Id]

def Node.getPatchStateForSlot (s : Node Id) (slot : Slot) : Option (Id × PatchState Id) :=
  (s.patchStateSlot slot).bind fun token => (s.patchState token).map fun state => (token, state)

/-! ## Runs -/

structure PatchRun (Id : Type) where
  store : MetadataStore Id
  /-- The keys of `PATCH_STATE_SLOT_TABLE`. -/
  slotKeys : List Slot
  /-- The slot a token was last put for; not data of the source. -/
  placed : Id → Option Slot

inductive PatchOp (Id : Type) where
  | putPatchStatePending (slot : Slot) (token base delta : Id) (size writtenAt : Nat) (seq : Option Nat)
  /-- And, with a file, `update_patch_state_folded_for_file_async`. -/
  | updatePatchStateFolded (token real : Id) (file : Option FileId)
  | deletePatchStateAbandoned (token : Id) (slot : Slot)
  | deleteFileForGood (file : FileId)

def PatchRun.step (s : PatchRun Id) : PatchOp Id → PatchRun Id
  | .putPatchStatePending slot token base delta size writtenAt seq =>
    { store := { s.store with node := (s.store.node.putPatchStatePending slot token base delta size writtenAt seq).1 }
      slotKeys := slot :: s.slotKeys
      placed := update s.placed token (some slot) }
  | .updatePatchStateFolded token real file =>
    { s with store := { s.store with node := s.store.node.updatePatchStateFoldedOf token real file } }
  | .deletePatchStateAbandoned token slot =>
    { s with
      store := { s.store with node := s.store.node.deletePatchStateAbandoned token slot }
      slotKeys := if s.store.node.patchStateSlot slot = some token then s.slotKeys.filter (· ≠ slot) else s.slotKeys }
  | .deleteFileForGood file =>
    -- the range from `file:` to `file;` has the keys of the file's slots
    let scan := (s.slotKeys.filter (·.1 = file)).map Prod.snd
    { s with
      store := { node := s.store.node.deleteFileRows file [] scan, tables := s.store.tables.deleteFile file none }
      slotKeys := s.slotKeys.filter (·.1 ≠ file) }

def PatchRun.start : PatchRun Id := ⟨MetadataStore.empty, [], fun _ => none⟩

/-- A slot's entry names a row, and a pending row is named by its slot's. -/
structure PatchRun.InStep (s : PatchRun Id) : Prop where
  named : ∀ slot token, s.store.node.patchStateSlot slot = some token →
    ∃ state, s.store.node.getPatchStateForSlot slot = some (token, state)
  pending : ∀ token base delta size writtenAt seq, s.store.node.patchState token = some (.pending base delta size writtenAt seq) →
    ∃ slot, s.placed token = some slot ∧ s.store.node.patchStateSlot slot = some token

/-- It removes no row named for a slot whose entry it leaves. -/
def PatchOp.Exclusive (s : PatchRun Id) : PatchOp Id → Prop
  | .putPatchStatePending slot token .. => ∀ retired, s.store.node.patchStateSlot slot = some retired → retired ≠ token →
    ∀ other, other ≠ slot → s.store.node.patchStateSlot other ≠ some retired
  | .updatePatchStateFolded .. => True
  | .deletePatchStateAbandoned token slot => ∀ other, other ≠ slot → s.store.node.patchStateSlot other ≠ some token
  | .deleteFileForGood file => ∀ slot token, slot.1 = file → s.store.node.patchStateSlot slot = some token →
    ∀ other, other.1 ≠ file → s.store.node.patchStateSlot other ≠ some token

/-- A transaction that puts or abandons a token does so for the token's slot. -/
def PatchOp.AtPlace (place : Id → Slot) : PatchOp Id → Prop
  | .putPatchStatePending slot token .. => place token = slot
  | .deletePatchStateAbandoned token slot => place token = slot
  | .updatePatchStateFolded .. | .deleteFileForGood _ => True

/-! ## What the transactions leave in the two tables -/

open PatchRun PatchOp

section Tables

variable {s : PatchRun Id}

omit [DecidableEq Id] in
lemma getPatchStateForSlot_iff {n : Node Id} {slot : Slot} {token : Id} (h : n.patchStateSlot slot = some token) :
    (∃ state, n.getPatchStateForSlot slot = some (token, state)) ↔ n.patchState token ≠ none := by
  simp only [getPatchStateForSlot, h, Option.bind_some]
  cases n.patchState token <;> simp

lemma PatchRun.row_put (slot : Slot) (token base delta : Id) (size writtenAt : Nat) (seq : Option Nat) (id : Id) :
    (s.step (.putPatchStatePending slot token base delta size writtenAt seq)).store.node.patchState id
      = if id = token then some (.pending base delta size writtenAt seq)
        else if s.store.node.patchStateSlot slot = some id then none else s.store.node.patchState id := by
  show update (s.store.node.retireRow slot) token _ id = _
  rw [update_apply, retireRow_apply]

lemma PatchRun.entry_put (slot : Slot) (token base delta : Id) (size writtenAt : Nat) (seq : Option Nat) (other : Slot) :
    (s.step (.putPatchStatePending slot token base delta size writtenAt seq)).store.node.patchStateSlot other
      = if other = slot then some token else s.store.node.patchStateSlot other :=
  update_apply _ _ _ _

lemma PatchRun.row_folded (token real : Id) (file : Option FileId) (id : Id) :
    (s.step (.updatePatchStateFolded token real file)).store.node.patchState id = s.store.node.patchState id ∨
      id = token ∧ (s.step (.updatePatchStateFolded token real file)).store.node.patchState id = some (.folded real) := by
  show (s.store.node.updatePatchStateFoldedOf token real file).patchState id = _ ∨ _ ∧
    (s.store.node.updatePatchStateFoldedOf token real file).patchState id = _
  unfold updatePatchStateFoldedOf
  split
  · exact .inl rfl
  by_cases hid : id = token
  · subst hid
    exact .inr ⟨rfl, update_self ..⟩
  · exact .inl (update_of_ne hid ..)

lemma PatchRun.entry_folded (token real : Id) (file : Option FileId) :
    (s.step (.updatePatchStateFolded token real file)).store.node.patchStateSlot = s.store.node.patchStateSlot := by
  show (s.store.node.updatePatchStateFoldedOf token real file).patchStateSlot = _
  unfold updatePatchStateFoldedOf
  split <;> rfl

lemma PatchRun.row_abandoned (token : Id) (slot : Slot) (id : Id) :
    (s.step (.deletePatchStateAbandoned token slot)).store.node.patchState id
      = if id = token then none else s.store.node.patchState id :=
  update_apply _ _ _ _

lemma PatchRun.entry_abandoned (token : Id) (slot other : Slot) :
    (s.step (.deletePatchStateAbandoned token slot)).store.node.patchStateSlot other
      = if other = slot ∧ s.store.node.patchStateSlot slot = some token then none else s.store.node.patchStateSlot other := by
  show (if s.store.node.patchStateSlot slot = some token then update s.store.node.patchStateSlot slot none
    else s.store.node.patchStateSlot) other = _
  by_cases hcur : s.store.node.patchStateSlot slot = some token
  · rw [if_pos hcur, update_apply]
    simp [hcur]
  · simp [hcur]

lemma PatchRun.entry_deleted (file : FileId) (other : Slot) : (s.step (.deleteFileForGood file)).store.node.patchStateSlot other
    = if other.1 = file then none else s.store.node.patchStateSlot other := rfl

/-- The keys cover the entries, so that a scan meets each of them. -/
def PatchRun.Keyed (s : PatchRun Id) : Prop := ∀ slot, s.store.node.patchStateSlot slot ≠ none → slot ∈ s.slotKeys

lemma PatchRun.row_deleted (hkeys : s.Keyed) (file : FileId) (id : Id) :
    (s.step (.deleteFileForGood file)).store.node.patchState id = none ∧
        (∃ slot, slot.1 = file ∧ s.store.node.patchStateSlot slot = some id) ∨
      (s.step (.deleteFileForGood file)).store.node.patchState id = s.store.node.patchState id ∧
        ∀ slot, slot.1 = file → s.store.node.patchStateSlot slot ≠ some id := by
  have hmem : id ∈ ((s.slotKeys.filter (·.1 = file)).map Prod.snd).filterMap
      (fun cidx => s.store.node.patchStateSlot (file, cidx)) ↔
      ∃ slot, slot.1 = file ∧ s.store.node.patchStateSlot slot = some id := by
    rw [List.mem_filterMap]
    constructor
    · rintro ⟨cidx, -, hentry⟩
      exact ⟨(file, cidx), rfl, hentry⟩
    · rintro ⟨⟨f, cidx⟩, rfl, hentry⟩
      have hkey : (f, cidx) ∈ s.slotKeys := hkeys (f, cidx) (by simp [hentry])
      exact ⟨cidx, List.mem_map.mpr ⟨(f, cidx), List.mem_filter.mpr ⟨hkey, by simp⟩, rfl⟩, hentry⟩
  have hrow : (s.step (.deleteFileForGood file)).store.node.patchState id
      = if id ∈ ((s.slotKeys.filter (·.1 = file)).map Prod.snd).filterMap (fun cidx => s.store.node.patchStateSlot (file, cidx))
        then none else s.store.node.patchState id := rfl
  by_cases hnamed : ∃ slot, slot.1 = file ∧ s.store.node.patchStateSlot slot = some id
  · exact .inl ⟨hrow.trans (if_pos (hmem.mpr hnamed)), hnamed⟩
  refine .inr ⟨hrow.trans (if_neg (fun h => hnamed (hmem.mp h))), ?_⟩
  intro slot hfile hentry
  exact hnamed ⟨slot, hfile, hentry⟩

/-! ## What the transactions keep -/

lemma PatchRun.keyed_step (hkeys : s.Keyed) (a : PatchOp Id) : (s.step a).Keyed := by
  intro other hentry
  cases a with
  | putPatchStatePending slot token base delta size writtenAt seq =>
    rw [PatchRun.entry_put] at hentry
    by_cases hslot : other = slot
    · exact List.mem_cons.mpr (Or.inl hslot)
    rw [if_neg hslot] at hentry
    exact List.mem_cons_of_mem _ (hkeys other hentry)
  | updatePatchStateFolded token real file =>
    rw [entry_folded] at hentry
    exact hkeys other hentry
  | deletePatchStateAbandoned token slot =>
    rw [entry_abandoned] at hentry
    by_cases hcur : s.store.node.patchStateSlot slot = some token
    · by_cases hslot : other = slot
      · simp [hslot, hcur] at hentry
      rw [if_neg (fun h => hslot h.1)] at hentry
      simp only [step, if_pos hcur]
      exact List.mem_filter.mpr ⟨hkeys other hentry, by simpa using hslot⟩
    rw [if_neg (fun h => hcur h.2)] at hentry
    simp only [step, if_neg hcur]
    exact hkeys other hentry
  | deleteFileForGood file =>
    rw [entry_deleted] at hentry
    by_cases hfile : other.1 = file
    · exact absurd (if_pos hfile) hentry
    rw [if_neg hfile] at hentry
    exact List.mem_filter.mpr ⟨hkeys other hentry, by simpa using hfile⟩

lemma PatchRun.pending_step (h : s.InStep) (hkeys : s.Keyed) (a : PatchOp Id) (token base delta : Id) (size writtenAt : Nat)
    (seq : Option Nat) (hrow : (s.step a).store.node.patchState token = some (.pending base delta size writtenAt seq)) :
    ∃ slot, (s.step a).placed token = some slot ∧ (s.step a).store.node.patchStateSlot slot = some token := by
  cases a with
  | putPatchStatePending slot new base' delta' size' writtenAt' seq' =>
    rw [row_put] at hrow
    by_cases hnew : token = new
    · subst hnew
      exact ⟨slot, update_self .., by rw [PatchRun.entry_put, if_pos rfl]⟩
    rw [if_neg hnew] at hrow
    by_cases hretired : s.store.node.patchStateSlot slot = some token
    · rw [if_pos hretired] at hrow
      cases hrow
    rw [if_neg hretired] at hrow
    obtain ⟨own, hplaced, hentry⟩ := h.pending token base delta size writtenAt seq hrow
    have hown : own ≠ slot := fun heq => hretired (heq ▸ hentry)
    exact ⟨own, (update_of_ne hnew ..).trans hplaced, by rw [PatchRun.entry_put, if_neg hown, hentry]⟩
  | updatePatchStateFolded folded real file =>
    rw [entry_folded]
    rcases row_folded (s := s) folded real file token with hsame | ⟨-, hfolded⟩
    · exact h.pending token base delta size writtenAt seq (hsame ▸ hrow)
    rw [hfolded] at hrow
    cases hrow
  | deletePatchStateAbandoned gone slot =>
    rw [row_abandoned] at hrow
    by_cases hgone : token = gone
    · rw [if_pos hgone] at hrow
      cases hrow
    rw [if_neg hgone] at hrow
    obtain ⟨own, hplaced, hentry⟩ := h.pending token base delta size writtenAt seq hrow
    refine ⟨own, hplaced, ?_⟩
    rw [entry_abandoned, if_neg, hentry]
    rintro ⟨rfl, hcur⟩
    exact hgone (Option.some.inj (hentry.symm.trans hcur))
  | deleteFileForGood file =>
    rcases row_deleted hkeys file token with ⟨hnone, -⟩ | ⟨hsame, hnot⟩
    · rw [hnone] at hrow
      cases hrow
    obtain ⟨own, hplaced, hentry⟩ := h.pending token base delta size writtenAt seq (hsame ▸ hrow)
    have hown : own.1 ≠ file := fun hfile => hnot own hfile hentry
    exact ⟨own, hplaced, by rw [entry_deleted, if_neg hown, hentry]⟩

lemma PatchRun.named_step_iff (h : s.InStep) (hkeys : s.Keyed) (a : PatchOp Id) :
    (∀ slot token, (s.step a).store.node.patchStateSlot slot = some token → (s.step a).store.node.patchState token ≠ none) ↔
      a.Exclusive s := by
  have hrow : ∀ slot token, s.store.node.patchStateSlot slot = some token → s.store.node.patchState token ≠ none :=
    fun slot token hentry => (getPatchStateForSlot_iff hentry).mp (h.named slot token hentry)
  cases a with
  | putPatchStatePending slot new base delta size writtenAt seq =>
    simp only [row_put, PatchRun.entry_put, Exclusive]
    constructor
    · intro hafter retired hretired hne other hother hentry
      exact hafter other retired (by rw [if_neg hother, hentry]) (by rw [if_neg hne, if_pos hretired])
    · intro hexcl other token hentry
      by_cases hnew : token = new
      · simp [hnew]
      rw [if_neg hnew]
      by_cases hother : other = slot
      · rw [if_pos hother] at hentry
        exact absurd (Option.some.inj hentry).symm hnew
      rw [if_neg hother] at hentry
      rw [if_neg (fun hretired => hexcl token hretired hnew other hother hentry)]
      exact hrow other token hentry
  | updatePatchStateFolded folded real file =>
    refine ⟨fun _ => trivial, fun _ other token hentry => ?_⟩
    rw [entry_folded] at hentry
    rcases row_folded (s := s) folded real file token with hsame | ⟨-, hfolded⟩
    · rw [hsame]
      exact hrow other token hentry
    · simp [hfolded]
  | deletePatchStateAbandoned gone slot =>
    simp only [row_abandoned, entry_abandoned, Exclusive]
    constructor
    · intro hafter other hother hentry
      exact hafter other gone (by rw [if_neg (fun hboth => hother hboth.1), hentry]) (if_pos rfl)
    · intro hexcl other token hentry
      by_cases hcleared : other = slot ∧ s.store.node.patchStateSlot slot = some gone
      · rw [if_pos hcleared] at hentry
        cases hentry
      rw [if_neg hcleared] at hentry
      have hne : token ≠ gone := by
        rintro rfl
        by_cases hother : other = slot
        · exact hcleared ⟨hother, hother ▸ hentry⟩
        · exact hexcl other hother hentry
      rw [if_neg hne]
      exact hrow other token hentry
  | deleteFileForGood file =>
    simp only [entry_deleted, Exclusive]
    constructor
    · intro hafter slot token hfile hentry other hother hshared
      rcases row_deleted hkeys file token with ⟨hnone, -⟩ | ⟨-, hnot⟩
      · exact hafter other token (by rw [if_neg hother, hshared]) hnone
      · exact hnot slot hfile hentry
    · intro hexcl other token hentry
      by_cases hother : other.1 = file
      · rw [if_pos hother] at hentry
        cases hentry
      rw [if_neg hother] at hentry
      rcases row_deleted hkeys file token with ⟨-, slot, hfile, hnamed⟩ | ⟨hsame, -⟩
      · exact absurd hentry (hexcl slot token hfile hnamed other hother)
      rw [hsame]
      exact hrow other token hentry

lemma PatchRun.inStep_step_iff (h : s.InStep) (hkeys : s.Keyed) (a : PatchOp Id) : (s.step a).InStep ↔ a.Exclusive s := by
  rw [← named_step_iff h hkeys a]
  constructor
  · intro hafter slot token hentry
    exact (getPatchStateForSlot_iff hentry).mp (hafter.named slot token hentry)
  · intro hnamed
    refine ⟨fun slot token hentry => ?_, pending_step h hkeys a⟩
    exact (getPatchStateForSlot_iff hentry).mpr (hnamed slot token hentry)

def PatchRun.Placed (place : Id → Slot) (s : PatchRun Id) : Prop :=
  ∀ slot token, s.store.node.patchStateSlot slot = some token → place token = slot

variable {place : Id → Slot} {a : PatchOp Id}

lemma PatchRun.placed_step (h : s.Placed place) (ha : a.AtPlace place) : (s.step a).Placed place := by
  intro other named hentry
  cases a with
  | putPatchStatePending slot token base delta size writtenAt seq =>
    rw [PatchRun.entry_put] at hentry
    by_cases hother : other = slot
    · rw [if_pos hother] at hentry
      rw [← Option.some.inj hentry, hother]
      exact ha
    rw [if_neg hother] at hentry
    exact h other named hentry
  | updatePatchStateFolded token real file =>
    rw [entry_folded] at hentry
    exact h other named hentry
  | deletePatchStateAbandoned token slot =>
    rw [entry_abandoned] at hentry
    split at hentry
    · cases hentry
    · exact h other named hentry
  | deleteFileForGood file =>
    rw [entry_deleted] at hentry
    split at hentry
    · cases hentry
    · exact h other named hentry

omit [DecidableEq Id] in
lemma PatchRun.exclusive_of_placed (h : s.Placed place) (ha : a.AtPlace place) : a.Exclusive s := by
  cases a with
  | putPatchStatePending slot token base delta size writtenAt seq =>
    intro retired hretired _ other hother hentry
    exact hother ((h other retired hentry).symm.trans (h slot retired hretired))
  | updatePatchStateFolded token real file => trivial
  | deletePatchStateAbandoned token slot =>
    intro other hother hentry
    exact hother ((h other token hentry).symm.trans ha)
  | deleteFileForGood file =>
    intro slot token hfile hnamed other hother hentry
    have hslot : other = slot := (h other token hentry).symm.trans (h slot token hnamed)
    exact hother (hslot ▸ hfile)

end Tables

omit [DecidableEq Id] in
lemma PatchRun.inStep_start : (start : PatchRun Id).InStep := by
  constructor <;> simp [start, MetadataStore.empty, empty]

/-- There is one patch per slot after every transaction exactly if none removes a row named for a slot whose entry it
leaves; so where each token is used for its slot only. -/
theorem one_patch_per_slot_iff (l : List (PatchOp Id)) :
    (Transition.Meets PatchRun.step (fun s a => (s.step a).InStep) PatchRun.start l ↔
      Transition.Meets PatchRun.step (fun s a => a.Exclusive s) PatchRun.start l) ∧
    ∀ place : Id → Slot, (∀ a ∈ l, a.AtPlace place) →
      Transition.Meets PatchRun.step (fun s a => (s.step a).InStep) PatchRun.start l := by
  have hstart : (start : PatchRun Id).InStep ∧ (start : PatchRun Id).Keyed := ⟨inStep_start, fun slot hentry => absurd rfl hentry⟩
  have hkeep : ∀ (s : PatchRun Id) (a : PatchOp Id), s.InStep ∧ s.Keyed → a.Exclusive s → (s.step a).InStep ∧ (s.step a).Keyed :=
    fun s a hs ha => ⟨(inStep_step_iff hs.1 hs.2 a).mpr ha, keyed_step hs.2 a⟩
  have hiff : Meets step (fun s a => (s.step a).InStep) start l ↔ Meets step (fun s a => a.Exclusive s) start l :=
    meets_iff (fun s a hs => inStep_step_iff hs.1 hs.2 a) hkeep hstart
  refine ⟨hiff, fun place hplace => hiff.mpr ?_⟩
  have hplaced : Meets step (fun _ a => a.AtPlace place) start l := meets_of_forall fun a ha _ => hplace a ha
  have hempty : (start : PatchRun Id).Placed place := fun slot token hentry => nomatch hentry
  exact meets_of_invariant (fun _ _ hs ha => exclusive_of_placed hs ha) (fun _ _ hs ha => placed_step hs ha) hempty hplaced

theorem late_fold_in_step : Transition.Meets PatchRun.step (fun s a => (s.step a).InStep) (PatchRun.start : PatchRun Nat)
      [.putPatchStatePending (1, 0) 10 5 6 4 0 none, .putPatchStatePending (1, 0) 20 10 7 4 0 none,
        .updatePatchStateFolded 10 8 none,
        .putPatchStatePending (2, 0) 30 5 9 4 0 none, .deletePatchStateAbandoned 10 (1, 0), .deleteFileForGood 2] :=
  (one_patch_per_slot_iff _).2 (fun token => if token = 30 then (2, 0) else (1, 0)) (by simp [PatchOp.AtPlace])

/-- Token 10 is put for two slots; the next patch of the first removes its row. -/
theorem shared_token_dangles :
    let s := Transition.run PatchRun.step (PatchRun.start : PatchRun Nat)
      [.putPatchStatePending (1, 0) 10 5 6 4 0 none, .putPatchStatePending (2, 0) 10 5 6 4 0 none,
        .putPatchStatePending (1, 0) 20 10 7 4 0 none]
    s.store.node.patchStateSlot (2, 0) = some 10 ∧ s.store.node.patchState 10 = none ∧ ¬s.InStep := by
  refine ⟨by decide, by decide, ?_⟩
  intro h
  have hnamed := (getPatchStateForSlot_iff (by decide)).mp (h.named (2, 0) 10 (by decide))
  exact hnamed (by decide)

end Dfs
