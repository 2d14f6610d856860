import Dfs.Lemmas.PatchFailure

/-! # A patch that fails and the content of its slot -/

namespace Dfs

open Node PatchEnv Function

variable {Id : Type} {prior : Id}

section Calls

variable [DecidableEq Id] {H : ChunkHash Id} {env : PatchEnv Id} {s : Node Id} {slot : Slot} {call : PatchCall Id}
    {e : PatchError}

/-- Its token is `Pending` over it, the patch is not elided, and the accumulator gets another name. -/
def Node.AppendsTo (H : ChunkHash Id) (s : Node Id) (slot : Slot) (call : PatchCall Id) (prior : Id) : Prop :=
  call.chunkIdx = some slot.2 ∧ s.fileRecentlyDeleted slot.1 = false ∧ ∃ base size at_ seq delta,
    s.patchState call.chunkId = some (.pending base prior size at_ seq) ∧ s.renamesTo H (.quiet 0) slot call base prior =
      some delta ∧
      delta ≠ prior

lemma leftBy_applyPatch (hH : H.CollisionFree) (haddr : Addressed H s) (hcurrent : s.HasherCurrent slot call.chunkId)
    (hfile : call.fileId = slot.1) (hidx : call.chunkIdx = some slot.2 ∨ call.chunkIdx = none)
    (herr : (s.applyPatch H env call).2 = .error e) : ∃ appended, LeftBy H appended s (s.applyPatch H env call).1 ∧
      ∀ prior, appended = some prior → env.failsLate = true ∧ s.AppendsTo H slot call prior := by
  by_cases hlive : s.fileRecentlyDeleted slot.1 = true
  · unfold applyPatch
    rw [hfile, if_pos hlive]
    exact ⟨none, LeftBy.refl H none s, nofun⟩
  rcases hidx with hidx | hidx
  · rw [applyPatch_slot hfile hidx, if_neg hlive] at herr ⊢
    cases hst : s.patchState call.chunkId with
    | none => exact ⟨none, leftBy_patchSlot_fresh (by rw [hst]; trivial) herr, nofun⟩
    | some st =>
      cases st with
      | folded real => exact ⟨none, leftBy_patchSlot_fresh (by rw [hst]; trivial) herr, nofun⟩
      | pending base prior size at_ seq =>
        rcases leftBy_patchSlot_merge hH haddr hcurrent hst herr with hnone | ⟨hsome, hlate, delta, hren, hne⟩
        · exact ⟨none, hnone, nofun⟩
        refine ⟨some prior, hsome, fun x hx => ?_⟩
        cases hx
        exact ⟨hlate, hidx, by simpa using hlive, base, size, at_, seq, delta, hst, hren, hne⟩
  · unfold applyPatch at herr ⊢
    rw [hfile, if_neg hlive, hidx] at herr ⊢
    dsimp only at herr ⊢
    rcases hrw : s.fullRewriteChunk H env slot.1 call.chunkFileOffset call.chunkId call.patches call.prefetched with ⟨s₁, r⟩
    rw [hrw] at herr
    cases r with
    | error e' =>
      have hleft : LeftBy H none s
          (s.fullRewriteChunk H env slot.1 call.chunkFileOffset call.chunkId call.patches call.prefetched).1 :=
        leftBy_fullRewriteChunk (e := e') (by rw [hrw])
      rw [hrw] at hleft
      exact ⟨none, hleft, nofun⟩
    | ok result => cases herr

/-! ## The commit that fails -/

def PatchEnv.commitFails : PatchEnv Id where
  __ := PatchEnv.quiet 0
  fails
    | .commitPatchState => true
    | _ => false

lemma applyPatch_commitFails (hfile : call.fileId = slot.1) (h : s.AppendsTo H slot call prior) :
    (∃ e, (s.applyPatch H .commitFails call).2 = .error e) ∧ (s.applyPatch H .commitFails call).1.files prior = none := by
  obtain ⟨hidx, hlive, base, size, at_, seq, delta, hrow, hren, hne⟩ := h
  rw [applyPatch_slot hfile hidx, hlive, if_neg (by simp)]
  unfold patchSlot patchBase
  rw [hrow]
  unfold renamesTo at hren
  rw [if_neg (by simp [quiet])] at hren
  rcases hprior : s.priorHasher (.quiet 0) slot call.chunkFileOffset (some prior) with ⟨s₁, r⟩
  have hprior' : s.priorHasher .commitFails slot call.chunkFileOffset (some prior) = (s₁, r) := hprior
  have hfiles := (kept_priorHasher (.quiet 0) s slot call.chunkFileOffset (some prior)).2
  rw [hprior] at hren hfiles
  cases r with
  | error e => cases hren
  | ok h =>
    obtain ⟨hasher, legacy⟩ := h
    dsimp only at hren
    rcases hnoop : s₁.noopCheck slot call.chunkId hasher legacy base prior call.patches call.seq with ⟨s₂, o⟩
    have hfiles₂ := (kept_noopCheck s₁ slot call.chunkId hasher legacy base prior call.patches call.seq).2
    rw [hnoop] at hren hfiles₂
    cases o with
    | none => cases hren
    | some carried =>
      dsimp only at hren
      split at hren
      · cases hren
      rename_i hgo
      cases hren
      obtain ⟨old, hold⟩ : ∃ old, s₂.files prior = some old := by
        rw [hfiles₂, hfiles]
        exact Option.ne_none_iff_exists'.1 (by simpa [stopsAppend, quiet, hasChunk] using hgo)
      have hread : (commitFails : PatchEnv Id).fails .readPatchState = false := rfl
      have hcommit : (commitFails : PatchEnv Id).fails .commitPatchState = true := rfl
      have hpersist : ∀ (new : Id) (bytes : Bytes), s₂.persistDelta .commitFails (some prior) new bytes =
          (s₂.setFiles (update (update s₂.files prior none) new (some (old ++ bytes))), .ok ()) := by
        intro new bytes
        unfold persistDelta
        simp only [commitFails, hold, Bool.false_eq_true, if_false]
      simp only [hread, Bool.false_eq_true, if_false, andThen, hprior', hnoop, appendPatch, Option.isNone_some, hpersist,
        commitToken, commitPatchState, hcommit, if_true, setFiles_files]
      exact ⟨⟨_, rfl⟩, (update_of_ne (Ne.symm hne) ..).trans (update_self ..)⟩

lemma resolveChunkContent_eq_none {id : Id} (hread : s.readChunkArc id = none) (halias : s.retiredChunkAliases id = none)
    (hrow : ∀ st, s.patchState id = some st → ∃ base delta size at_ seq, st = .pending base delta size at_ seq ∧
      s.composeOnePatch base delta = none) : s.resolveChunkContent id = none := by
  have hforward : s.resolveAlias id = none := by
    unfold resolveAlias aliasWalk
    rw [halias]
    rfl
  unfold resolveChunkContent maxResolveDepth resolveAtDepth resolveHere resolveViaDurablePatchState
  rw [hread, hforward]
  cases hst : s.patchState id with
  | none => cases s.pendingPatchIds id <;> rfl
  | some st =>
    obtain ⟨base, delta, size, at_, seq, rfl, hcompose⟩ := hrow st hst
    simp only [hcompose]
    cases s.pendingPatchIds id <;> rfl

omit [DecidableEq Id] in
lemma composeOnePatch_eq_none {base delta source : Id} (hsource : source = base ∨ source = delta)
    (hnone : (s.chunkRing source).or (s.readChunkArc source) = none)
    (hnone' : (s.deltaRing source).or (s.readChunkArc source) = none) :
    s.composeOnePatch base delta = none := by
  unfold composeOnePatch
  rcases hsource with rfl | rfl
  · rw [hnone]
  rw [hnone']
  cases (s.chunkRing base).or (s.readChunkArc base) <;> rfl

def CacheChange.evictAll : CacheChange Id :=
  ⟨fun _ => true, fun _ => false, fun _ => true, fun _ => false, fun _ => true, fun _ => true, fun _ => false⟩

lemma LeftBy.slotContent_lost {s' : Node Id} {appended : Option Id} (h : LeftBy H appended s s') (hH : H.CollisionFree)
    (haddr : Addressed H s) (hrows : RowsAtTokens H s) {loc : ChunkLocation Id} (hocc : s.occupant slot = some loc)
    (halias : s.retiredChunkAliases loc.chunkId = none) (hreads : s.ReadsFrom loc.chunkId prior) (hdisk : s.files prior ≠ none)
    (hgone : s'.files prior = none) (happended : ∀ id, appended = some id → id = prior) :
    (s'.recache .evictAll).slotContent slot = none := by
  have hocc' : (s'.recache .evictAll).occupant slot = some loc := by
    rw [← hocc, occupant, occupant, show (s'.recache .evictAll).chunkMap = s.chunkMap from h.map]
  have hrow : (s'.recache .evictAll).patchState = s.patchState := h.rows
  have hread : ∀ id, (s'.recache .evictAll).readChunkArc id = s'.files id := fun _ => rfl
  have hlookup : ((s'.recache .evictAll).chunkRing prior).or ((s'.recache .evictAll).readChunkArc prior) = none := hgone
  have hlookup' : ((s'.recache .evictAll).deltaRing prior).or ((s'.recache .evictAll).readChunkArc prior) = none := hgone
  have hself : s'.files loc.chunkId = none := by
    by_cases hprior : prior = loc.chunkId
    · rw [← hprior]
      exact hgone
    rcases hreads with hreads | ⟨_, _, _, _, _, hst, -⟩
    · exact absurd hreads hprior
    have hnone := hrows.files_eq_none hH haddr (by rw [hst]; simp)
    obtain ⟨delta, hdelta⟩ := hrows _ _ hst
    rw [hdelta] at hnone ⊢
    exact h.file_none hH hnone (fun heq => hprior ((happended _ heq).symm.trans hdelta.symm))
  rw [Node.slotContent, hocc', Option.bind_some]
  refine resolveChunkContent_eq_none ((hread _).trans hself) ((congrFun h.aliases _).trans halias) (fun st hst => ?_)
  rw [hrow] at hst
  rcases hreads with rfl | ⟨base, delta, size, at_, seq, hst', hsource⟩
  · exact absurd (hrows.files_eq_none hH haddr (by rw [hst]; simp)) hdisk
  rw [hst] at hst'
  cases hst'
  exact ⟨base, delta, size, at_, seq, rfl, composeOnePatch_eq_none hsource hlookup hlookup'⟩

end Calls

section Atomicity

variable [DecidableEq Id] {H : ChunkHash Id} {s : Node Id} {slot : Slot} {call : PatchCall Id} {loc : ChunkLocation Id}

lemma Node.AppendsTo.onDisk (h : s.AppendsTo H slot call prior) : s.files prior ≠ none := by
  obtain ⟨-, -, base, size, at_, seq, delta, hrow, hren, -⟩ := h
  unfold renamesTo at hren
  split at hren
  · cases hren
  split at hren
  · cases hren
  split at hren
  · cases hren
  split at hren
  · cases hren
  rename_i hgo
  simpa [stopsAppend, quiet, hasChunk] using hgo

lemma Node.AppendsTo.unique {prior' : Id} (h : s.AppendsTo H slot call prior) (h' : s.AppendsTo H slot call prior') :
    prior = prior' := by
  obtain ⟨-, -, _, _, _, _, _, hrow, -⟩ := h
  obtain ⟨-, -, _, _, _, _, _, hrow', -⟩ := h'
  rw [hrow] at hrow'
  cases hrow'
  rfl

/-- Whatever the caches do, a failed patch keeps the content if no step from the append on failed or the call does not
go into an accumulator the occupant is read from; one that does loses the content on some failure. -/
theorem failed_patch_keeps_content (hH : H.CollisionFree) (haddr : Addressed H s) (hrows : RowsAtTokens H s)
    (hcurrent : s.HasherCurrent slot call.chunkId) (hocc : s.occupant slot = some loc) {content : Bytes}
    (hcontent : s.HasContent loc.chunkId content) (hfile : call.fileId = slot.1)
    (hidx : call.chunkIdx = some slot.2 ∨ call.chunkIdx = none) : s.slotContent slot = some content ∧
      (∀ env e, (s.applyPatch H env call).2 = .error e →
        env.failsLate = false ∨ (∀ prior, s.AppendsTo H slot call prior → ¬s.ReadsFrom loc.chunkId prior) →
          ∀ c, ((s.applyPatch H env call).1.recache c).slotContent slot = some content) ∧
      (s.retiredChunkAliases loc.chunkId = none →
        (∀ env e, (s.applyPatch H env call).2 = .error e →
          ∀ c, ((s.applyPatch H env call).1.recache c).slotContent slot = some content) →
          ∀ prior, s.AppendsTo H slot call prior → ¬s.ReadsFrom loc.chunkId prior) := by
  refine ⟨(LeftBy.refl H none s).slotContent hH haddr hrows hocc hcontent nofun .none, ?_, ?_⟩
  · intro env e herr hsafe c
    obtain ⟨appended, hleft, happended⟩ := leftBy_applyPatch hH haddr hcurrent hfile hidx herr
    refine hleft.slotContent hH haddr hrows hocc hcontent (fun prior hprior => ?_) c
    obtain ⟨hlate, happends⟩ := happended prior hprior
    rcases hsafe with hearly | hother
    · rw [hearly] at hlate
      cases hlate
    · exact hother prior happends
  · intro halias hkept prior happends hreads
    obtain ⟨⟨e, herr⟩, hgone⟩ := applyPatch_commitFails hfile happends
    obtain ⟨appended, hleft, happended⟩ := leftBy_applyPatch hH haddr hcurrent hfile hidx herr
    have hlost := hleft.slotContent_lost hH haddr hrows hocc halias hreads happends.onDisk hgone
      (fun id hid => (happended id hid).2.unique happends)
    rw [hkept .commitFails e herr .evictAll] at hlost
    cases hlost

end Atomicity

/-- Of a chunk of two bytes, and the node with it as file 7's first chunk. -/
def pairChunk : FreeId := freeHash.computeChunkHashAt [1, 2] 0 7

@[inherit_doc pairChunk]
abbrev pairNode : Node FreeId := Node.holding freeHash (7, 0) [1, 2] 0 none

def oneByteCall (chunkId : FreeId) (offset : Nat) (v : UInt8) (seq : Nat) : PatchCall FreeId :=
  ⟨chunkId, 7, some 0, 0, [(offset, [v])], some seq, none, false⟩

def onlyFails (fault : Fault) : PatchEnv FreeId := { PatchEnv.quiet 0 with fails := fun f => decide (f = fault) }

theorem failed_patch_keeps_content_unwritten :
    ((pairNode.applyPatch freeHash (onlyFails .writeDelta) (oneByteCall pairChunk 0 5 1)).1.recache .evictAll).slotContent (7,
      0) =
      some [1, 2] := by
  have hcontent : pairNode.HasContent (holdingLocation freeHash (7, 0) [1, 2] 0 none).chunkId [1, 2] := .inl (by decide)
  have hcurrent : pairNode.HasherCurrent (7, 0) (oneByteCall pairChunk 0 5 1).chunkId := nofun
  have hkept := (failed_patch_keeps_content freeHash_collisionFree
    (addressed_holding freeHash (7, 0) [1, 2] 0 none) nofun hcurrent
    (occupant_holding freeHash (7, 0) [1, 2] 0 none) hcontent rfl (.inl rfl)).2.1
  exact hkept (onlyFails .writeDelta) _ rfl (.inl rfl) .evictAll

def accumulatedNode : Node FreeId := (pairNode.applyPatch freeHash (.quiet 0) (oneByteCall pairChunk 0 5 1)).1

def accumulatedToken : FreeId := ((accumulatedNode.occupant (7, 0)).map (·.chunkId)).getD pairChunk

/-- Once the caches have dropped what they had, a failed rename shows in the slot, and a failed commit has made it unreadable. -/
theorem failed_patch_changes_content :
    let failing fault := accumulatedNode.applyPatch freeHash (onlyFails fault) (oneByteCall accumulatedToken 1 6 2)
    accumulatedNode.slotContent (7, 0) = some [5, 2] ∧ accumulatedNode.Resolvable accumulatedToken ∧
      (failing .renameDelta).2.isOk = false ∧ ((failing .renameDelta).1.recache .evictAll).slotContent (7, 0) = some [5, 6] ∧
      (failing .commitPatchState).2.isOk = false ∧ ((failing .commitPatchState).1.recache .evictAll).slotContent (7, 0) =
        none := by
  decide +kernel

end Dfs
