import Dfs.Lemmas.PatchEffect
import Dfs.Resolve

/-!
# What a failed patch leaves

What a failed `apply_patch` may have changed. A chunk not read from the accumulator it names reads as before
(`LeftBy.slotContent`).
-/

namespace Dfs

open Overlay Function Option Node PatchEnv

variable {Id : Type}

/-! ## What a read takes its bytes from -/

/-- From itself, or from the base or the delta of its `Pending` row. -/
def Node.ReadsFrom (s : Node Id) (id source : Id) : Prop :=
  source = id ∨ ∃ base delta size at_ seq, s.patchState id = some (.pending base delta size at_ seq) ∧
    (source = base ∨ source = delta)

/-- As its file, or as a `Pending` row's base with the delta's records on top. -/
def Node.HasContent (s : Node Id) (id : Id) (content : Bytes) : Prop :=
  s.files id = some content ∨ ∃ base delta size at_ seq b d records, s.patchState id = some (.pending base delta size at_ seq) ∧
    s.files base = some b ∧ s.files delta = some d ∧ parseDeltaRecords d = .ok records ∧ content = overlay b records

def RowsAtTokens (H : ChunkHash Id) (s : Node Id) : Prop :=
  ∀ id st, s.patchState id = some st → ∃ delta, id = H.patchTokenIdentity delta

def Node.AgreesAt (s : Node Id) (id : Id) : Prop :=
  ∀ b, s.chunkRing id = some b ∨ s.deltaRing id = some b ∨ s.cache id = some b → s.files id = some b

section Agrees

variable {s : Node Id} {id : Id}

lemma or_files_eq {found : Option Bytes} (h : ∀ b, found = some b → s.files id = some b) {rest : Option Bytes}
    (hrest : rest = s.files id) : found.or rest = s.files id := by
  cases found with
  | none => exact hrest
  | some b => exact (h b rfl).symm

lemma Node.AgreesAt.readChunkArc (h : s.AgreesAt id) : s.readChunkArc id = s.files id :=
  or_files_eq (fun b hb => h b (.inr (.inr hb))) rfl

lemma Node.AgreesAt.chunkRing (h : s.AgreesAt id) : (s.chunkRing id).or (s.readChunkArc id) = s.files id :=
  or_files_eq (fun b hb => h b (.inl hb)) h.readChunkArc

lemma Node.AgreesAt.deltaRing (h : s.AgreesAt id) : (s.deltaRing id).or (s.readChunkArc id) = s.files id :=
  or_files_eq (fun b hb => h b (.inr (.inl hb))) h.readChunkArc

lemma Node.AgreesAt.recache (h : s.AgreesAt id) (c : CacheChange Id) : (s.recache c).AgreesAt id := by
  have hchanged : ∀ {load evict : Bool} {fresh old : Option Bytes} {b : Bytes}, (fresh = some b → s.files id = some b) →
      (old = some b → s.files id = some b) → changed load evict fresh old = some b → s.files id = some b := by
    intro load evict fresh old b hfresh hold hb
    unfold changed at hb
    split at hb
    · exact hfresh hb
    split at hb
    · cases hb
    · exact hold hb
  have hread : ∀ b, s.readChunkArc id = some b → s.files id = some b := fun b hb => h.readChunkArc ▸ hb
  intro b hb
  rcases hb with hb | hb | hb
  · exact hchanged (hread b) (fun ho => h b (.inl ho)) hb
  · exact hchanged (hread b) (fun ho => h b (.inr (.inl ho))) hb
  · exact hchanged (fun hf => hf) (fun ho => h b (.inr (.inr ho))) hb

lemma Node.HasContent.resolve [DecidableEq Id] {content : Bytes} (h : s.HasContent id content)
    (hagree : ∀ source, s.ReadsFrom id source → s.AgreesAt source) (hsep : s.patchState id ≠ none → s.files id = none) :
    s.resolveChunkContent id = some content := by
  have hread : s.readChunkArc id = s.files id := (hagree id (.inl rfl)).readChunkArc
  rcases h with hfile | ⟨base, delta, size, at_, seq, b, d, records, hrow, hb, hd, hparse, rfl⟩
  · have hnone : s.patchState id = none := by
      by_contra hne
      rw [hsep hne] at hfile
      cases hfile
    exact resolveChunkContent_of_file hnone (hread.trans hfile)
  have hbase := (hagree base (.inr ⟨_, _, _, _, _, hrow, .inl rfl⟩)).chunkRing
  have hdelta := (hagree delta (.inr ⟨_, _, _, _, _, hrow, .inr rfl⟩)).deltaRing
  refine resolveChunkContent_of_pending hrow (hread.trans (hsep (by rw [hrow]; simp))) ?_
  simp only [composeOnePatch, hbase, hdelta, hb, hd, hparse, applyDeltaRecords_eq_overlay]

end Agrees

/-! ## What a failed call leaves -/

/-- The accumulator's file, files that hold the bytes of their identity, and what was read into the delta ring. -/
structure LeftBy (H : ChunkHash Id) (appended : Option Id) (s s' : Node Id) : Prop where
  rows : s'.patchState = s.patchState
  map : s'.chunkMap = s.chunkMap
  pending : s'.pendingPatchIds = s.pendingPatchIds
  aliases : s'.retiredChunkAliases = s.retiredChunkAliases
  chunkRing : s'.chunkRing = s.chunkRing
  cache : s'.cache = s.cache
  deltaRing : ∀ id b, s'.deltaRing id = some b → s.deltaRing id = some b ∨ s.readChunkArc id = some b
  files : ∀ id, appended = some id ∨ s'.files id = s.files id ∨
    ∃ b o f, id = H.computeChunkHashAt b o f ∧ s'.files id = some b

variable {delta : Id} {o : Nat} {f : FileId}

section LeftBy

variable {H : ChunkHash Id} {appended : Option Id} {s s' : Node Id}

lemma LeftBy.refl (H : ChunkHash Id) (appended : Option Id) (s : Node Id) : LeftBy H appended s s :=
  ⟨rfl, rfl, rfl, rfl, rfl, rfl, fun _ _ => Or.inl, fun _ => .inr (.inl rfl)⟩

section

variable (h : LeftBy H appended s s')

include h

lemma LeftBy.setFiles {files : Id → Option Bytes}
    (hfiles : ∀ id, appended = some id ∨ files id = s'.files id ∨ ∃ b o f, id = H.computeChunkHashAt b o f ∧ files id = some b) :
    LeftBy H appended s (s'.setFiles files) := by
  refine ⟨h.rows, h.map, h.pending, h.aliases, h.chunkRing, h.cache, h.deltaRing, fun id => ?_⟩
  rcases hfiles id with happ | hsame | hown
  · exact .inl happ
  · rcases h.files id with happ | hsame' | ⟨b, o, f, hid, hb⟩
    · exact .inl happ
    · exact .inr (.inl (hsame.trans hsame'))
    · exact .inr (.inr ⟨b, o, f, hid, hsame.trans hb⟩)
  · exact .inr (.inr hown)

lemma LeftBy.writeChunk [DecidableEq Id] {id : Id} {data : Bytes} (hid : id = H.computeChunkHashAt data o f) :
    LeftBy H appended s (s'.writeChunk id data) := by
  refine h.setFiles (fun x => ?_)
  by_cases hx : x = id
  · subst hx
    exact .inr (.inr ⟨data, o, f, hid, update_self ..⟩)
  · exact .inr (.inl (update_of_ne hx ..))

lemma LeftBy.rematerialized {s'' : Node Id} (hr : Rematerialized s' s'') : LeftBy H appended s s'' := by
  obtain ⟨ring, dirty, rfl⟩ := hr
  exact ⟨h.rows, h.map, h.pending, h.aliases, h.chunkRing, h.cache, h.deltaRing, h.files⟩

lemma LeftBy.file_eq (hH : H.CollisionFree) (haddr : Addressed H s) {id : Id} {b : Bytes}
    (hb : s.files id = some b) (hid : appended ≠ some id) : s'.files id = some b := by
  rcases h.files id with happ | hsame | ⟨b', o', f', hid', hb'⟩
  · exact absurd happ hid
  · exact hsame.trans hb
  obtain ⟨o, f, heq⟩ := haddr id b (.inl hb)
  rw [hb', (hH.content (heq.symm.trans hid')).1]

lemma LeftBy.file_none (hH : H.CollisionFree) (hnone : s.files (H.patchTokenIdentity delta) = none)
    (hid : appended ≠ some (H.patchTokenIdentity delta)) : s'.files (H.patchTokenIdentity delta) = none := by
  rcases h.files (H.patchTokenIdentity delta) with happ | hsame | ⟨b, o, f, heq, -⟩
  · exact absurd happ hid
  · exact hsame.trans hnone
  · exact absurd heq (hH.separate delta b o f)

end

end LeftBy

section Content

variable {H : ChunkHash Id} {s s' : Node Id} {id source : Id} {content : Bytes}

lemma RowsAtTokens.files_eq_none (hrows : RowsAtTokens H s) (hH : H.CollisionFree) (haddr : Addressed H s)
    (hrow : s.patchState id ≠ none) : s.files id = none := by
  obtain ⟨st, hst⟩ := ne_none_iff_exists'.1 hrow
  obtain ⟨delta, rfl⟩ := hrows id st hst
  cases hfile : s.files (H.patchTokenIdentity delta) with
  | none => rfl
  | some b =>
    obtain ⟨o, f, heq⟩ := haddr _ b (.inl hfile)
    exact absurd heq (hH.separate delta b o f)

lemma Node.HasContent.source_known (h : s.HasContent id content) (hH : H.CollisionFree) (haddr : Addressed H s)
    (hrows : RowsAtTokens H s)
    (hsource : s.ReadsFrom id source) : (∃ b, s.files source = some b) ∨ ∃ delta, source = H.patchTokenIdentity delta := by
  rcases h with hfile | ⟨base, delta, size, at_, seq, b, d, records, hrow, hb, hd, -, -⟩
  · rcases hsource with rfl | ⟨_, _, _, _, _, hrow, -⟩
    · exact .inl ⟨content, hfile⟩
    rw [hrows.files_eq_none hH haddr (by rw [hrow]; simp)] at hfile
    cases hfile
  rcases hsource with rfl | ⟨_, _, _, _, _, hrow', hsource⟩
  · exact .inr (hrows _ _ hrow)
  rw [hrow] at hrow'
  cases hrow'
  rcases hsource with rfl | rfl
  · exact .inl ⟨b, hb⟩
  · exact .inl ⟨d, hd⟩

variable {appended : Option Id}

lemma LeftBy.agreesAt (h : LeftBy H appended s s') (hH : H.CollisionFree) (haddr : Addressed H s)
    (hsource : (∃ b, s.files source = some b) ∨ ∃ delta, source = H.patchTokenIdentity delta) (hid : appended ≠ some source) :
    s'.AgreesAt source := by
  -- every entry was one of the addressed node, so it has the bytes its identity is the hash of
  intro b hb
  have hentry : ∃ o f, source = H.computeChunkHashAt b o f := by
    rcases hb with hb | hb | hb
    · exact haddr source b (.inr (.inl (h.chunkRing ▸ hb)))
    · rcases h.deltaRing source b hb with hring | hread
      · exact haddr source b (.inr (.inr (.inl hring)))
      · exact haddr.of_readChunkArc hread
    · exact haddr source b (.inr (.inr (.inr (h.cache ▸ hb))))
  obtain ⟨o, f, heq⟩ := hentry
  rcases hsource with ⟨b', hb'⟩ | ⟨delta, htoken⟩
  · obtain ⟨o', f', heq'⟩ := haddr source b' (.inl hb')
    rw [(hH.content (heq.symm.trans heq')).1]
    exact h.file_eq hH haddr hb' hid
  · exact absurd (htoken.symm.trans heq) (hH.separate delta b o f)

lemma LeftBy.slotContent [DecidableEq Id] (h : LeftBy H appended s s') (hH : H.CollisionFree) (haddr : Addressed H s)
    (hrows : RowsAtTokens H s) {slot : Slot} {loc : ChunkLocation Id} (hocc : s.occupant slot = some loc)
    (hcontent : s.HasContent loc.chunkId content) (hid : ∀ source, appended = some source → ¬s.ReadsFrom loc.chunkId source)
    (c : CacheChange Id) : (s'.recache c).slotContent slot = some content := by
  have hkept : ∀ {x : Id} {b : Bytes}, s.ReadsFrom loc.chunkId x → s.files x = some b → (s'.recache c).files x = some b := by
    intro x b hx hb
    exact h.file_eq hH haddr hb (fun heq => hid x heq hx)
  have hrow : (s'.recache c).patchState = s.patchState := h.rows
  have hagree : ∀ source, (s'.recache c).ReadsFrom loc.chunkId source → (s'.recache c).AgreesAt source := by
    intro source hsource
    have hsource' : s.ReadsFrom loc.chunkId source := by
      rwa [ReadsFrom, hrow] at hsource
    exact (h.agreesAt hH haddr (hcontent.source_known hH haddr hrows hsource') (fun heq => hid source heq hsource')).recache c
  have hsep : (s'.recache c).patchState loc.chunkId ≠ none → (s'.recache c).files loc.chunkId = none := by
    intro hne
    rw [hrow] at hne
    have hnone := hrows.files_eq_none hH haddr hne
    obtain ⟨st, hst⟩ := ne_none_iff_exists'.1 hne
    obtain ⟨delta, hdelta⟩ := hrows _ _ hst
    rw [hdelta] at hnone ⊢
    exact h.file_none hH hnone (fun heq => hid _ heq (.inl hdelta.symm))
  have hcontent' : (s'.recache c).HasContent loc.chunkId content := by
    rcases hcontent with hfile | ⟨base, delta, size, at_, seq, b, d, records, hst, hb, hd, hparse, rfl⟩
    · exact .inl (hkept (.inl rfl) hfile)
    exact .inr ⟨base, delta, size, at_, seq, b, d, records, by rw [hrow, hst], hkept (.inr ⟨_, _, _, _, _, hst, .inl rfl⟩) hb,
      hkept (.inr ⟨_, _, _, _, _, hst, .inr rfl⟩) hd, hparse, rfl⟩
  have hocc' : (s'.recache c).occupant slot = some loc := by
    rw [← hocc, occupant, occupant, show (s'.recache c).chunkMap = s.chunkMap from h.map]
  rw [Node.slotContent, hocc', bind_some]
  exact hcontent'.resolve hagree hsep

end Content

/-! ## The stages of a call that fails -/

def PatchEnv.failsLate (env : PatchEnv Id) : Bool :=
  env.fails .appendDelta || env.fails .syncDelta || env.fails .createDir || env.fails .renameDelta || env.fails .syncDurable ||
    env.fails .commitPatchState

/-- A verified hasher of the slot has absorbed the accumulator's file. -/
def Node.HasherCurrent (s : Node Id) (slot : Slot) (token : Id) : Prop :=
  ∀ dirty base prior size at_ seq old, s.dirtyPatchSlots slot = some dirty → dirty.verified = true →
    s.patchState token = some (.pending base prior size at_ seq) → s.files prior = some old → dirty.deltaHasher.2.2 = old

section Stages

variable [DecidableEq Id] {H : ChunkHash Id} {env : PatchEnv Id} {s : Node Id} {slot : Slot} {call : PatchCall Id}
    {e : PatchError}

lemma leftBy_pullChunkFromPeers (s : Node Id) (id : Id) (nodes : List NodeId) (file : FileId) (offset : Nat) :
    LeftBy H none s (s.pullChunkFromPeers H env id nodes file offset).1 := by
  unfold pullChunkFromPeers
  dsimp only
  split
  · rename_i b hserved
    obtain ⟨n, -, hn⟩ := List.exists_of_findSome?_eq_some hserved
    split at hn
    · cases hn
    have hhash := (filter_eq_some_iff.1 hn).2
    exact (LeftBy.refl H none s).writeChunk (of_decide_eq_true hhash).symm
  · exact LeftBy.refl H none s

lemma leftBy_freshBase (s : Node Id) (slot : Slot) (offset : Nat) (base : Id) (viaLocalFold trust : Bool) :
    LeftBy H none s (s.freshBase H env slot offset base viaLocalFold trust).1 := by
  unfold freshBase
  split
  · exact LeftBy.refl H none s
  split
  · exact LeftBy.refl H none s
  split
  · exact LeftBy.refl H none s
  split
  · exact LeftBy.refl H none s
  rename_i loc _ _ _ _
  have hpull := @leftBy_pullChunkFromPeers _ _ H env s base loc.nodes slot.1 offset
  split
  · rename_i heq
    rwa [heq] at hpull
  rename_i heq
  rwa [heq] at hpull

variable {bytes : Bytes} {prior base : Id} {hasher : Hasher} {legacy : Bool} {size offset at_ : Nat}
  {carried : Option Bytes} {seq : Option Nat}

lemma commitToken_error {p : PatchBase Id} (h : (s.commitToken H env slot call p hasher legacy carried).2 = .error e) :
    env.fails .commitPatchState = true ∧ (s.commitToken H env slot call p hasher legacy carried).1 = s := by
  by_cases hfail : env.fails .commitPatchState = true
  · refine ⟨hfail, ?_⟩
    rw [commitToken, commitPatchState, if_pos hfail]
    rfl
  obtain ⟨pending, prior, hcommit⟩ := commitToken_eq H (by simpa using hfail) s slot call p hasher legacy carried rfl rfl rfl
  rw [hcommit] at h
  cases h

variable {s' : Node Id}

lemma LeftBy.persistDelta_fresh (h : LeftBy H none s s') (hdelta : delta = H.computeChunkHashAt bytes o f) :
    LeftBy H none s (s'.persistDelta env none delta bytes).1 := by
  unfold persistDelta
  dsimp only
  split
  · exact h
  split
  · exact h.writeChunk hdelta
  · exact h.writeChunk hdelta

lemma leftBy_patchSlot_fresh (hrow : NotPending (s.patchState call.chunkId)) (herr : (s.patchSlot H env slot call).2 = .error e) :
    LeftBy H none s (s.patchSlot H env slot call).1 := by
  have hbase : LeftBy H none s (s.patchBase H env slot call).1 := by
    unfold patchBase
    split
    · exact LeftBy.refl H none s
    cases hst : s.patchState call.chunkId with
    | none => exact leftBy_freshBase ..
    | some st =>
      cases st with
      | pending => simp [hst, NotPending] at hrow
      | folded real => exact leftBy_freshBase ..
  obtain ⟨-, hfresh⟩ := @patchBase_fresh_effect _ _ H env call s hrow slot
  unfold patchSlot at herr ⊢
  rcases hb : s.patchBase H env slot call with ⟨s₁, r⟩
  rw [hb] at hbase hfresh herr
  cases r with
  | error e => exact hbase
  | ok p =>
    obtain ⟨-, hprior, -⟩ := hfresh p rfl
    obtain ⟨base, prior, size⟩ := p
    dsimp only at hprior
    subst hprior
    simp only [andThen, priorHasher, appendPatch, Hasher.update, Hasher.finalize, isNone_none, List.nil_append] at herr ⊢
    generalize newRecordBytes true false call.seq call.patches = bytes at herr ⊢
    have hpersist : LeftBy H none s (s₁.persistDelta env none (H.computeChunkHashAt bytes call.chunkFileOffset slot.1) bytes).1 :=
      hbase.persistDelta_fresh rfl
    rcases hper : s₁.persistDelta env none (H.computeChunkHashAt bytes call.chunkFileOffset slot.1) bytes with ⟨s₂, r⟩
    rw [hper] at hpersist herr
    cases r with
    | error e => exact hpersist
    | ok u =>
      dsimp only at herr ⊢
      rw [(commitToken_error herr).2]
      exact hpersist

lemma leftBy_fullRewriteChunk {file : FileId} {old : Id} {patches : Extents} {prefetched : Option Bytes}
    (herr : (s.fullRewriteChunk H env file offset old patches prefetched).2 = .error e) :
    LeftBy H none s (s.fullRewriteChunk H env file offset old patches prefetched).1 := by
  unfold fullRewriteChunk at herr ⊢
  split
  · exact LeftBy.refl H none s
  rename_i base hbase
  rw [hbase] at herr
  dsimp only at herr ⊢
  split
  · exact LeftBy.refl H none s
  rename_i hwrite
  rw [if_neg hwrite] at herr
  split
  · exact (LeftBy.refl H none s).writeChunk rfl
  rename_i hsync
  rw [if_neg hsync] at herr
  cases herr

/-! ## A merge that fails -/

lemma persistDelta_merge_cases {r : Except PatchError Unit} (h : s.persistDelta env (some prior) delta bytes = (s', r)) :
    (s' = s ∧ ∃ e, r = .error e) ∨ ∃ old, s.files prior = some old ∧
      ((env.failsLate = true ∧ (∃ e, r = .error e) ∧ ∃ n, s' = s.setFiles (update s.files prior (some (old ++ bytes.take n)))) ∨
        ((r = .ok () ∨ env.failsLate = true) ∧
          s' = s.setFiles (update (update s.files prior none) delta (some (old ++ bytes))))) := by
  unfold persistDelta at h
  dsimp only at h
  split at h
  · cases h
    exact .inl ⟨rfl, _, rfl⟩
  rename_i old hopen
  have hold : s.files prior = some old := by
    split at hopen
    · cases hopen
    · exact hopen
  refine .inr ⟨old, hold, ?_⟩
  have hwhole : s.writeChunk prior (old ++ bytes) = s.setFiles
    (update s.files prior (some (old ++ bytes.take bytes.length))) := by
    rw [List.take_length]
    rfl
  split at h
  · rename_i hfail
    cases h
    exact .inl ⟨by simp [failsLate, hfail], ⟨_, rfl⟩, env.appended, rfl⟩
  split at h
  · rename_i hfail
    cases h
    exact .inl ⟨by simp [failsLate, hfail], ⟨_, rfl⟩, _, hwhole⟩
  split at h
  · rename_i hfail
    cases h
    exact .inl ⟨by simp [failsLate, hfail], ⟨_, rfl⟩, _, hwhole⟩
  split at h
  · rename_i hfail
    cases h
    exact .inl ⟨by simp [failsLate, hfail], ⟨_, rfl⟩, _, hwhole⟩
  split at h
  · rename_i hfail
    cases h
    exact .inr ⟨.inr (by simp [failsLate, hfail]), rfl⟩
  cases h
  exact .inr ⟨.inl rfl, rfl⟩

lemma appendPatch_merge_error (hbytes : newRecordBytes false legacy call.seq call.patches = bytes)
    (hdelta : (hasher.update bytes).finalize H = delta)
    (herr : (s.appendPatch H env slot call ⟨base, some prior, size⟩ hasher legacy carried).2 = .error e) :
    (s.appendPatch H env slot call ⟨base, some prior, size⟩ hasher legacy carried).1 = s ∨
      env.failsLate = true ∧ ∃ old files, s.files prior = some old ∧
        (s.appendPatch H env slot call ⟨base, some prior, size⟩ hasher legacy carried).1 = s.setFiles files ∧
        ((∃ n, files = update s.files prior (some (old ++ bytes.take n))) ∨
          files = update (update s.files prior none) delta (some (old ++ bytes))) := by
  subst hbytes hdelta
  unfold appendPatch at herr ⊢
  simp only [isNone_some] at herr ⊢
  generalize newRecordBytes false legacy call.seq call.patches = bytes at herr ⊢
  rcases hper : s.persistDelta env (some prior) ((hasher.update bytes).finalize H) bytes
    with ⟨s₁, r⟩
  rw [hper] at herr
  cases r with
  | error e' =>
    dsimp only [andThen]
    rcases persistDelta_merge_cases hper with ⟨rfl, -⟩ | ⟨old, hold, ⟨hlate, -, n, rfl⟩ | ⟨hok | hlate, rfl⟩⟩
    · exact .inl rfl
    · exact .inr ⟨hlate, old, _, hold, rfl, .inl ⟨n, rfl⟩⟩
    · cases hok
    · exact .inr ⟨hlate, old, _, hold, rfl, .inr rfl⟩
  | ok u =>
    dsimp only [andThen] at herr ⊢
    obtain ⟨hfail, hsame⟩ := commitToken_error herr
    rw [hsame]
    rcases persistDelta_merge_cases hper with ⟨-, e', hr⟩ | ⟨old, hold, ⟨-, ⟨e', hr⟩, -⟩ | ⟨-, rfl⟩⟩
    · cases hr
    · cases hr
    · exact .inr ⟨by simp [failsLate, hfail], old, _, hold, rfl, .inr rfl⟩

lemma LeftBy.appendPatch_merge (h : LeftBy H none s s') (hfiles : s'.files = s.files) (hH : H.CollisionFree)
    (haddr : Addressed H s) (hhash : ∀ old, s.files prior = some old → hasher.2.2 = old)
    (hbytes : newRecordBytes false legacy call.seq call.patches = bytes)
    (herr : (s'.appendPatch H env slot call ⟨base, some prior, size⟩ hasher legacy carried).2 = .error e) :
    LeftBy H none s (s'.appendPatch H env slot call ⟨base, some prior, size⟩ hasher legacy carried).1 ∨
      LeftBy H (some prior) s (s'.appendPatch H env slot call ⟨base, some prior, size⟩ hasher legacy carried).1 ∧
        env.failsLate = true ∧ s.hasChunk prior = true ∧
          (hasher.update bytes).finalize H ≠ prior := by
  rcases appendPatch_merge_error hbytes rfl herr with hsame | ⟨hlate, old, files, hold, hstate, hcases⟩
  · rw [hsame]
    exact .inl h
  rw [hstate]
  rw [hfiles] at hold hcases
  obtain rfl : hasher.2.2 = old := hhash old hold
  by_cases hdelta : (hasher.update bytes).finalize H = prior
  · -- the accumulator keeps its name only if nothing is appended
    obtain ⟨o, f, heq⟩ := haddr prior _ (.inl hold)
    have hnil : bytes = [] := by simpa using (hH.content (hdelta.trans heq)).1
    have hsame : files = s.files := by
      rcases hcases with ⟨n, rfl⟩ | rfl
      · simp [hnil, ← hold]
      · rw [hdelta, update_idem, hnil, List.append_nil, ← hold, update_eq_self]
    left
    refine h.setFiles (fun id => .inr (.inl ?_))
    rw [hsame, hfiles]
  · refine .inr ⟨?_, hlate, by rw [hasChunk, hold]; rfl, hdelta⟩
    have h' : LeftBy H (some prior) s s' :=
      ⟨h.rows, h.map, h.pending, h.aliases, h.chunkRing, h.cache, h.deltaRing, fun id => (h.files id).imp_left (by simp)⟩
    refine h'.setFiles (fun id => ?_)
    rw [hfiles]
    by_cases hid : id = prior
    · exact .inl (by rw [hid])
    right
    rcases hcases with ⟨n, rfl⟩ | rfl
    · exact .inl (update_of_ne hid ..)
    by_cases hid' : id = (hasher.update bytes).finalize H
    · exact .inr ⟨_, _, _, hid', by rw [hid', update_self]⟩
    left
    rw [update_of_ne hid', update_of_ne hid]

lemma or_of_readable {cached stored : Option Bytes} {fails : Bool}
    (h : cached.or (if fails then none else stored) = some bytes) : cached.or stored = some bytes := by
  cases fails with
  | true =>
    rw [if_pos rfl, or_none] at h
    rw [h, some_or]
  | false => exact h

lemma priorHasher_ok (hH : H.CollisionFree) (haddr : Addressed H s) {token : Id} (hcurrent : s.HasherCurrent slot token)
    (hrow : s.patchState token = some (.pending base prior size at_ seq)) {s₁ : Node Id}
    (h : s.priorHasher env slot offset (some prior) = (s₁, .ok (hasher, legacy))) :
    LeftBy H none s s₁ ∧ s₁.files = s.files ∧ s.priorHasher (.quiet 0) slot offset (some prior) = (s₁, .ok (hasher, legacy)) ∧
      ∀ old, s.files prior = some old → hasher.2.2 = old := by
  cases hdirty : (s.dirtyPatchSlots slot).filter (·.verified) with
  | some dirty =>
    simp only [priorHasher, hdirty, Prod.mk.injEq, Except.ok.injEq] at h ⊢
    obtain ⟨rfl, rfl, rfl⟩ := h
    obtain ⟨hslot, hverified⟩ := filter_eq_some_iff.1 hdirty
    exact ⟨LeftBy.refl H none s, rfl, ⟨rfl, rfl, rfl⟩, fun old hold => hcurrent _ _ _ _ _ _ old hslot hverified hrow hold⟩
  | none =>
    simp only [priorHasher, hdirty] at h ⊢
    cases hread : (s.deltaRing prior).or (if env.fails .readPriorDelta then none else s.readChunkArc prior) with
    | none =>
      rw [hread] at h
      cases h
    | some bytes =>
      have hall : (s.deltaRing prior).or (s.readChunkArc prior) = some bytes := or_of_readable hread
      have hbytes : s.deltaRing prior = some bytes ∨ s.readChunkArc prior = some bytes :=
        (or_eq_some_iff.1 hall).imp_right And.right
      have hquiet : (s.deltaRing prior).or (if (quiet 0 : PatchEnv Id).fails .readPriorDelta then none else s.readChunkArc prior)
          = some bytes := hall
      rw [hread] at h
      rw [hquiet]
      simp only [Prod.mk.injEq, Except.ok.injEq] at h ⊢
      obtain ⟨rfl, rfl, rfl⟩ := h
      refine ⟨⟨rfl, rfl, rfl, rfl, rfl, rfl, fun id b hb => ?_, fun _ => .inr (.inl rfl)⟩, rfl, ⟨rfl, rfl, rfl⟩,
        fun old hold => ?_⟩
      · dsimp only at hb
        rw [update_apply] at hb
        split at hb
        · rename_i hid
          subst hid
          cases hb
          exact hbytes
        · exact .inl hb
      · have hagree := (LeftBy.refl H none s).agreesAt hH haddr (.inl ⟨old, hold⟩) (by simp)
        have hfile : s.files prior = some bytes := by
          rcases hbytes with hring | hdisk
          · exact hagree bytes (.inr (.inl hring))
          · rwa [hagree.readChunkArc] at hdisk
        exact some.inj (hfile.symm.trans hold)

lemma leftBy_patchSlot_merge (hH : H.CollisionFree) (haddr : Addressed H s) (hcurrent : s.HasherCurrent slot call.chunkId)
    (hrow : s.patchState call.chunkId = some (.pending base prior size at_ seq))
    (herr : (s.patchSlot H env slot call).2 = .error e) :
    LeftBy H none s (s.patchSlot H env slot call).1 ∨ LeftBy H (some prior) s (s.patchSlot H env slot call).1 ∧
      env.failsLate = true ∧
      ∃ delta, s.renamesTo H (.quiet 0) slot call base prior = some delta ∧ delta ≠ prior := by
  unfold patchSlot patchBase at herr ⊢
  rw [hrow] at herr ⊢
  by_cases hread : env.fails .readPatchState = true
  · simp only [hread, if_true, andThen]
    exact .inl (LeftBy.refl H none s)
  simp only [hread, Bool.false_eq_true, if_false, andThen] at herr ⊢
  rcases hprior : s.priorHasher env slot call.chunkFileOffset (some prior) with ⟨s₁, r⟩
  rw [hprior] at herr
  cases r with
  | error e' =>
    have hsame : s₁ = s := by
      unfold priorHasher at hprior
      dsimp only at hprior
      split at hprior
      · cases hprior
      split at hprior <;> cases hprior
      rfl
    exact .inl (hsame ▸ LeftBy.refl H none s)
  | ok h =>
    obtain ⟨hasher, legacy⟩ := h
    obtain ⟨hleft, hfiles, hquiet, hold⟩ := priorHasher_ok hH haddr hcurrent hrow hprior
    dsimp only at herr ⊢
    have hmat := rematerialized_noopCheck s₁ slot call.chunkId hasher legacy base prior call.patches call.seq
    rcases hnoop : s₁.noopCheck slot call.chunkId hasher legacy base prior call.patches call.seq with ⟨s₂, o⟩
    rw [hnoop] at herr hmat
    have hfiles₂ : s₂.files = s.files := by
      obtain ⟨ring, dirty, rfl⟩ := hmat
      exact hfiles
    cases o with
    | none => cases herr
    | some carried =>
      rcases (hleft.rematerialized hmat).appendPatch_merge hfiles₂ hH haddr hold rfl herr with hnone | ⟨hsome, hlate, hdisk, hne⟩
      · exact .inl hnone
      refine .inr ⟨hsome, hlate, _, ?_, hne⟩
      unfold renamesTo
      rw [hquiet]
      simp only [hnoop, hdisk]
      rfl

end Stages

end Dfs
