import Dfs.PatchHandlers
import Dfs.Lemmas.Accumulator

/-!
# What a patch does to the slot's rows and files

The durable effect of each stage of `apply_patch`, on every exit. Before the accumulator is renamed or written, rows,
map and files stay (`Kept`).
-/

namespace Dfs

open Overlay List Function Option Node PatchEnv

variable {Id : Type}

/-- Its file is on disk, or its `Pending` row's base and delta are. -/
def Node.Resolvable (s : Node Id) (id : Id) : Prop :=
  s.hasChunk id = true ∨ ∃ base delta size at_ seq,
    s.patchState id = some (.pending base delta size at_ seq) ∧ s.hasChunk base = true ∧ s.hasChunk delta = true

lemma resolvable_iff (s : Node Id) (id : Id) : (s.hasChunk id || match s.patchState id with
      | some (.pending base delta _ _ _) => s.hasChunk base && s.hasChunk delta
      | _ => false) = true ↔ s.Resolvable id := by
  unfold Resolvable
  rw [Bool.or_eq_true]
  refine or_congr_right ?_
  cases s.patchState id with
  | none => simp
  | some st => cases st <;> simp

instance (s : Node Id) (id : Id) : Decidable (s.Resolvable id) := decidable_of_iff _ (resolvable_iff s id)

variable {id delta : Id} {size at_ : Nat}

lemma Node.Resolvable.known {s : Node Id} (h : s.Resolvable id) : s.hasChunk id = true ∨ (s.patchState id).isSome = true := by
  rcases h with h | ⟨_, _, _, _, _, hrow, -⟩
  · exact .inl h
  · exact .inr (by rw [hrow]; rfl)

def FilesTyped (H : ChunkHash Id) (s : Node Id) : Prop :=
  ∀ id, s.hasChunk id = true → ∃ b o f, id = H.computeChunkHashAt b o f

def RowsTyped (H : ChunkHash Id) (s : Node Id) : Prop :=
  ∀ id base delta size at_ seq, s.patchState id = some (.pending base delta size at_ seq) → id = H.patchTokenIdentity delta

structure Kept (s s' : Node Id) : Prop where
  files : ∀ id, s.hasChunk id = true → s'.hasChunk id = true
  rows : s'.patchState = s.patchState
  slots : s'.patchStateSlot = s.patchStateSlot
  map : s'.chunkMap = s.chunkMap

section Kept

variable {s s' s'' : Node Id}

lemma Kept.refl (s : Node Id) : Kept s s := ⟨fun _ h => h, rfl, rfl, rfl⟩

lemma Kept.trans (h : Kept s s') (h' : Kept s' s'') : Kept s s'' :=
  ⟨fun id hid => h'.files id (h.files id hid), h'.rows.trans h.rows, h'.slots.trans h.slots, h'.map.trans h.map⟩

lemma Kept.of_eq (hf : s'.files = s.files) (hr : s'.patchState = s.patchState) (hs : s'.patchStateSlot = s.patchStateSlot)
    (hm : s'.chunkMap = s.chunkMap) : Kept s s' :=
  ⟨fun id hid => by rw [hasChunk, hf]; exact hid, hr, hs, hm⟩

lemma Kept.occupant (h : Kept s s') (slot : Slot) : s'.occupant slot = s.occupant slot := by
  rw [Node.occupant, Node.occupant, h.map]

lemma Kept.resolvable (h : Kept s s') (hr : s.Resolvable id) : s'.Resolvable id := by
  rcases hr with hr | ⟨base, delta, size, at_, seq, hrow, hb, hd⟩
  · exact .inl (h.files id hr)
  · exact .inr ⟨base, delta, size, at_, seq, by rw [h.rows, hrow], h.files _ hb, h.files _ hd⟩

end Kept

lemma hasChunk_eq_false_of_pending {H : ChunkHash Id} (hH : H.CollisionFree) {s : Node Id} (hf : FilesTyped H s)
    (hr : RowsTyped H s) {base : Id} {seq : Option Nat} (hrow : s.patchState id = some (.pending base delta size at_ seq)) :
    s.hasChunk id = false := by
  by_contra hc
  obtain ⟨b, o, f, he⟩ := hf id (by simpa using hc)
  exact hH.separate delta b o f ((hr _ _ _ _ _ _ hrow).symm.trans he)

variable [DecidableEq Id] {H : ChunkHash Id} {env : PatchEnv Id}

lemma kept_writeChunk (s : Node Id) (id : Id) (data : Bytes) : Kept s (s.writeChunk id data) := by
  refine ⟨fun id hid => ?_, rfl, rfl, rfl⟩
  rw [hasChunk, writeChunk_files, update_apply]
  split
  · rfl
  · exact hid

/-! ## The stages before the accumulator is touched -/

lemma kept_pullChunkFromPeers (s : Node Id) (id : Id) (nodes : List NodeId) (file : FileId) (offset : Nat) :
    Kept s (s.pullChunkFromPeers H env id nodes file offset).1 := by
  unfold pullChunkFromPeers
  dsimp only
  split
  · exact kept_writeChunk ..
  · exact Kept.refl s

lemma hasChunk_of_pull {s s' : Node Id} {nodes : List NodeId} {file : FileId} {offset : Nat} {b : Bytes}
    (h : s.pullChunkFromPeers H env id nodes file offset = (s', some b)) : s'.hasChunk id = true := by
  unfold pullChunkFromPeers at h
  dsimp only at h
  split at h
  · obtain ⟨rfl, -⟩ := Prod.mk.inj h
    rw [hasChunk, writeChunk_files, update_self]
    rfl
  · cases (Prod.mk.inj h).2

lemma freshBase_effect (s : Node Id) (slot : Slot) (offset : Nat) (base : Id) (viaLocalFold trust : Bool) :
    Kept s (s.freshBase H env slot offset base viaLocalFold trust).1 ∧
    ∀ p, (s.freshBase H env slot offset base viaLocalFold trust).2 = .ok p → p.base = base ∧ p.priorDelta = none ∧
        (s.freshBase H env slot offset base viaLocalFold trust).1.hasChunk base = true := by
  unfold freshBase
  split
  · exact ⟨Kept.refl s, nofun⟩
  split
  · exact ⟨Kept.refl s, nofun⟩
  split
  · exact ⟨Kept.refl s, nofun⟩
  split
  · rename_i hdisk
    refine ⟨Kept.refl s, fun p hp => ?_⟩
    cases hp
    exact ⟨rfl, rfl, hdisk⟩
  rename_i loc _ _ _ _
  have hkept := @kept_pullChunkFromPeers _ _ H env s base loc.nodes slot.1 offset
  split
  · rename_i s' b hpull
    rw [hpull] at hkept
    refine ⟨hkept, fun p hp => ?_⟩
    cases hp
    exact ⟨rfl, rfl, hasChunk_of_pull hpull⟩
  rename_i s' hpull
  rw [hpull] at hkept
  exact ⟨hkept, nofun⟩

lemma kept_priorHasher (env : PatchEnv Id) (s : Node Id) (slot : Slot) (offset : Nat) (prior : Option Id) :
    Kept s (s.priorHasher env slot offset prior).1 ∧ (s.priorHasher env slot offset prior).1.files = s.files := by
  unfold priorHasher
  split
  · exact ⟨Kept.refl s, rfl⟩
  split
  · exact ⟨Kept.refl s, rfl⟩
  split
  · exact ⟨Kept.refl s, rfl⟩
  · exact ⟨Kept.of_eq rfl rfl rfl rfl, rfl⟩

section

variable (s : Node Id) (slot : Slot) (token : Id) (hasher : Hasher) (legacy : Bool) (base prior : Id) (patches : Extents)
    (seq : Nat)

lemma rematerialized_noopCheck : Rematerialized s (s.noopCheck slot token hasher legacy base prior patches seq).1 := by
  have hmat : Rematerialized s (s.materialize slot token hasher legacy base prior).1 := by
    unfold materialize
    split
    · exact ⟨_, _, rfl⟩
    split
    · split <;> exact ⟨_, _, rfl⟩
    · exact ⟨_, _, rfl⟩
  unfold noopCheck
  rcases hm : s.materialize slot token hasher legacy base prior with ⟨s₁, o⟩
  rw [hm] at hmat
  cases o with
  | none => exact hmat
  | some known =>
    dsimp only
    split
    · split
      · exact hmat.trans ⟨_, _, rfl⟩
      · exact hmat
    · exact hmat

lemma kept_noopCheck : Kept s (s.noopCheck slot token hasher legacy base prior patches seq).1 ∧
      (s.noopCheck slot token hasher legacy base prior patches seq).1.files = s.files := by
  obtain ⟨ring, dirty, heq⟩ := rematerialized_noopCheck s slot token hasher legacy base prior patches seq
  rw [heq]
  exact ⟨Kept.of_eq rfl rfl rfl rfl, rfl⟩

end

/-! ## The chunk map -/

variable {loc : ChunkLocation Id}

omit [DecidableEq Id] in
lemma occupant_eq_some {s : Node Id} {slot : Slot} (h : s.occupant slot = some loc) :
    ∃ pre post w, s.chunkMap slot.1 = some (pre ++ loc :: post, w) ∧ (∀ l ∈ pre, cidxOf l < slot.2) ∧ cidxOf loc = slot.2 := by
  unfold occupant at h
  split at h
  · rename_i locs w hmap
    obtain ⟨i, hfind, hi⟩ := bind_eq_some_iff.1 h
    have hsplit : locs.takeWhile (fun l => cidxOf l < slot.2) ++ locs.dropWhile (fun l => cidxOf l < slot.2) = locs :=
      takeWhile_append_dropWhile
    have hpos : locs[(locs.takeWhile (fun l => cidxOf l < slot.2)).length]? =
        (locs.dropWhile (fun l => cidxOf l < slot.2))[0]? := by
      conv_lhs => rw [← hsplit]
      rw [getElem?_append_right (by simp [hsplit]), hsplit, Nat.sub_self]
    unfold slotPosition at hfind
    dsimp only at hfind
    rw [hpos] at hfind
    cases hdrop : locs.dropWhile (fun l => cidxOf l < slot.2) with
    | nil => simp [hdrop] at hfind
    | cons x post =>
      rw [hdrop, getElem?_cons_zero] at hfind
      dsimp only at hfind
      split at hfind
      · rename_i hx
        cases hfind
        rw [hpos, hdrop, getElem?_cons_zero] at hi
        cases hi
        refine ⟨_, post, w, by rw [hmap, ← hdrop, hsplit], fun l hl => ?_, hx⟩
        simpa using mem_takeWhile_imp hl
      · cases hfind
  · cases h

omit [DecidableEq Id] in
lemma occupant_of_split {s : Node Id} {slot : Slot} {pre post : Locations Id} {w : Nat}
    (hmap : s.chunkMap slot.1 = some (pre ++ loc :: post, w)) (hpre : ∀ l ∈ pre, cidxOf l < slot.2)
    (hloc : cidxOf loc = slot.2) : s.occupant slot = some loc := by
  have htake : (pre ++ loc :: post).takeWhile (fun l => cidxOf l < slot.2) = pre := by
    rw [takeWhile_append_of_pos (fun l hl => by simpa using hpre l hl), takeWhile_cons_of_neg (by simp [hloc]), append_nil]
  have hat : (pre ++ loc :: post)[pre.length]? = some loc := by simp
  have hfind : slotPosition (pre ++ loc :: post) slot.2 = some pre.length := by
    unfold slotPosition
    dsimp only
    rw [htake, hat]
    exact if_pos hloc
  rw [occupant, hmap]
  dsimp only
  rw [hfind]
  exact hat

lemma occupant_updateChunkMapAfterPatch {s : Node Id} {slot : Slot}
    (hocc : s.occupant slot = some loc) (hidx : slot.2 ≠ u64Max) (old new : Id) (size at_ : Nat) (seq : Option Nat) :
    (s.updateChunkMapAfterPatch slot.1 (some slot.2) old new size at_ seq).1.occupant slot
      = some (if new = old ∨ staleUpdate seq loc.clientWriteSeq = true then loc
        else { loc with chunkId := new, size := size, writtenAt := some at_, clientWriteSeq := seq }) ∧
    (s.updateChunkMapAfterPatch slot.1 (some slot.2) old new size at_ seq).2
      = if new ≠ old ∧ staleUpdate seq loc.clientWriteSeq = true then some loc else none := by
  obtain ⟨pre, post, w, hmap, hpre, hloc⟩ := occupant_eq_some hocc
  -- the position test of the update agrees with the index the map is searched by
  have hat : ∀ l : ChunkLocation Id, (slotOf l == some slot.2) = true ↔ cidxOf l = slot.2 := by
    intro l
    rw [beq_iff_eq, cidxOf]
    cases slotOf l with
    | none =>
      simp only [getD_none, reduceCtorEq, false_iff]
      exact fun h => hidx h.symm
    | some o => simp
  have hpre' : ∀ l ∈ pre, (slotOf l == some slot.2) = false := by
    intro l hl
    rw [Bool.eq_false_iff]
    intro h
    have := (hat l).1 h
    have := hpre l hl
    omega
  have hfind : (pre ++ loc :: post).find? (fun l => slotOf l == some slot.2) = some loc := by
    rw [find?_append, find?_eq_none.2 (fun l hl => by simp [hpre' l hl]), find?_cons, (hat loc).2 hloc]
    rfl
  unfold updateChunkMapAfterPatch
  by_cases hnew : new = old
  · rw [if_pos hnew, if_pos (.inl hnew), if_neg (by simp [hnew])]
    exact ⟨hocc, rfl⟩
  rw [if_neg hnew, hmap]
  dsimp only
  rw [hfind]
  dsimp only
  by_cases hstale : staleUpdate seq loc.clientWriteSeq = true
  · rw [if_pos hstale, if_pos (.inr hstale), if_pos ⟨hnew, hstale⟩]
    exact ⟨hocc, rfl⟩
  rw [if_neg hstale, if_neg (by simp [hnew, hstale]), if_neg (by simp [hstale]), updateFirst_append_cons hpre' ((hat loc).2 hloc)]
  exact ⟨occupant_of_split (update_self ..) hpre hloc, rfl⟩

/-! ## The commit -/

/-- The token's row takes the place of the slot's previous one, and the chunk map follows unless it refuses. `loc` was
the occupant, `old` the chunk before. -/
structure Committed (s : Node Id) (slot : Slot) (loc : ChunkLocation Id) (base delta token old : Id) (seq : Option Nat)
    (s' : Node Id) : Prop where
  files : s'.files = s.files
  row : ∃ size at_, s'.patchState token = some (.pending base delta size at_ seq)
  others : ∀ id, id ≠ token → s'.patchState id = s.retireRow slot id
  occupant : (s'.occupant slot).map (·.chunkId)
    = some (if token = old ∨ staleUpdate seq loc.clientWriteSeq = true then loc.chunkId else token)

lemma commitToken_effect (H : ChunkHash Id) (env : PatchEnv Id) {s : Node Id} {slot : Slot}
    (hocc : s.occupant slot = some loc) (hidx : slot.2 ≠ u64Max) (call : PatchCall Id) (p : PatchBase Id)
    (hasher : Hasher) (legacy : Bool)
    (carried : Option Bytes) : if env.fails .commitPatchState then (s.commitToken H env slot call p hasher legacy carried).1 = s
    else Committed s slot loc p.base (hasher.finalize H)
      (H.patchTokenIdentity (hasher.finalize H))
      (if p.priorDelta.isSome then call.chunkId else p.base) call.clientWriteSeq
      (s.commitToken H env slot call p hasher legacy carried).1 := by
  split
  · rename_i hfail
    rw [commitToken, commitPatchState, if_pos hfail]
    rfl
  rename_i hfail
  obtain ⟨pending, prior, hcommit⟩ := commitToken_eq H (by simpa using hfail) s slot call p hasher legacy carried rfl rfl rfl
  rw [hcommit]
  refine ⟨rfl, ⟨_, _, update_self ..⟩, fun id hid => update_of_ne hid .., ?_⟩
  have hmap := (occupant_updateChunkMapAfterPatch hocc hidx (if p.priorDelta.isSome then call.chunkId else p.base)
    (H.patchTokenIdentity (hasher.finalize H)) (max (extent call.patches) p.size) env.nowMs
    call.clientWriteSeq).1
  refine (congrArg (Option.map (·.chunkId)) hmap).trans ?_
  rw [map_some, apply_ite ChunkLocation.chunkId]

/-! ## A patch that starts an accumulator -/

/-- What a fold left of the token, else the chunk itself. -/
def Node.freshBaseId (s : Node Id) (id : Id) : Id :=
  match s.patchState id with
  | some (.folded real) => real
  | _ => id

def freshDelta (H : ChunkHash Id) (slot : Slot) (call : PatchCall Id) : Id :=
  H.computeChunkHashAt (newRecordBytes true false call.seq call.patches) call.chunkFileOffset slot.1

def NotPending : Option (PatchState Id) → Prop
  | some (.pending ..) => False
  | _ => True

variable {call : PatchCall Id}

lemma patchBase_fresh_effect {s : Node Id} (hrow : NotPending (s.patchState call.chunkId)) (slot : Slot) :
    Kept s (s.patchBase H env slot call).1 ∧ ∀ p, (s.patchBase H env slot call).2 = .ok p →
      p.base = s.freshBaseId call.chunkId ∧ p.priorDelta = none ∧
        (s.patchBase H env slot call).1.hasChunk (s.freshBaseId call.chunkId) = true := by
  unfold patchBase freshBaseId
  split
  · exact ⟨Kept.refl s, nofun⟩
  cases h : s.patchState call.chunkId with
  | none => exact freshBase_effect ..
  | some st =>
    cases st with
    | pending => simp [h, NotPending] at hrow
    | folded real => exact freshBase_effect ..

lemma persistDelta_fresh_effect {s s' : Node Id} {bytes : Bytes} {r : Except PatchError Unit}
    (h : s.persistDelta env none delta bytes = (s', r)) : Kept s s' ∧ (r = .ok () → s' = s.writeChunk delta bytes) := by
  unfold persistDelta at h
  dsimp only at h
  split at h
  · cases h
    exact ⟨Kept.refl s, nofun⟩
  split at h
  · cases h
    exact ⟨kept_writeChunk .., nofun⟩
  cases h
  exact ⟨kept_writeChunk .., fun _ => rfl⟩

lemma patchSlot_fresh_effect (H : ChunkHash Id) (env : PatchEnv Id) {s : Node Id} {slot : Slot}
    (hocc : s.occupant slot = some loc) (hidx : slot.2 ≠ u64Max) (hrow : NotPending (s.patchState call.chunkId)) :
    Kept s (s.patchSlot H env slot call).1 ∨ ∃ s₁, Kept s s₁ ∧ s₁.hasChunk (s.freshBaseId call.chunkId) = true ∧
      s₁.hasChunk (freshDelta H slot call) = true ∧ Committed s₁ slot loc (s.freshBaseId call.chunkId) (freshDelta H slot call)
        (H.patchTokenIdentity (freshDelta H slot call)) (s.freshBaseId call.chunkId) call.clientWriteSeq
        (s.patchSlot H env slot call).1 := by
  obtain ⟨hkept, hok⟩ := patchBase_fresh_effect (H := H) hrow slot
  unfold patchSlot
  rcases hb : s.patchBase H env slot call with ⟨s₁, r⟩
  rw [hb] at hkept hok
  cases r with
  | error e => exact .inl hkept
  | ok p =>
    obtain ⟨hbase, hprior, hdisk⟩ := hok p rfl
    obtain ⟨base, prior, size⟩ := p
    dsimp only at hbase hprior hdisk
    subst hbase hprior
    simp only [andThen, priorHasher, appendPatch, Hasher.update, Hasher.finalize, isNone_none, nil_append]
    rcases hper : s₁.persistDelta env none (H.computeChunkHashAt (newRecordBytes true false call.seq
      call.patches) call.chunkFileOffset slot.1) (newRecordBytes true false call.seq call.patches)
      with ⟨s₂, r⟩
    obtain ⟨hkept₂, hwrite⟩ := persistDelta_fresh_effect hper
    cases r with
    | error e => exact .inl (hkept.trans hkept₂)
    | ok u =>
      have hcommit := commitToken_effect H env (((hkept.trans hkept₂).occupant slot).trans hocc) hidx call
        ⟨s.freshBaseId call.chunkId, none, size⟩ (slot.1, call.chunkFileOffset,
          newRecordBytes true false call.seq call.patches) false none
      split at hcommit
      · left
        rw [hcommit]
        exact hkept.trans hkept₂
      right
      refine ⟨s₂, hkept.trans hkept₂, hkept₂.files _ hdisk, ?_, hcommit⟩
      rw [hwrite rfl, hasChunk, writeChunk_files, freshDelta, update_self]
      rfl

/-! ## A patch that is merged -/

def PatchEnv.stopsAppend (env : PatchEnv Id) : Bool :=
  env.fails .openPriorDelta || env.fails .appendDelta || env.fails .syncDelta || env.fails .createDir ||
    env.fails .renameDelta

/-- None where the merge stops before: elided, the prior accumulator unreadable, or a failed step. -/
def Node.renamesTo (H : ChunkHash Id) (env : PatchEnv Id) (s : Node Id) (slot : Slot) (call : PatchCall Id)
    (base prior : Id) : Option Id :=
  if env.fails .readPatchState then none
  else match s.priorHasher env slot call.chunkFileOffset (some prior) with
    | (_, .error _) => none
    | (s₁, .ok (hasher, legacy)) =>
      match s₁.noopCheck slot call.chunkId hasher legacy base prior call.patches call.seq with
      | (_, none) => none
      | (_, some _) =>
        if env.stopsAppend || !s.hasChunk prior then none
        else some ((hasher.update (newRecordBytes false legacy call.seq call.patches)).finalize H)

lemma renamesTo_content {s : Node Id} {slot : Slot} {base prior : Id}
    (h : s.renamesTo H env slot call base prior = some delta) : ∃ b o f, delta = H.computeChunkHashAt b o f := by
  unfold renamesTo at h
  split at h
  · cases h
  split at h
  · cases h
  split at h
  · cases h
  split at h
  · cases h
  · exact ⟨_, _, _, (some.inj h).symm⟩

structure Renamed (s : Node Id) (prior delta : Id) (s' : Node Id) : Prop where
  files : ∃ content, s'.files = update (update s.files prior none) delta (some content)
  rows : s'.patchState = s.patchState
  slots : s'.patchStateSlot = s.patchStateSlot
  map : s'.chunkMap = s.chunkMap

lemma persistDelta_renames {s : Node Id} {prior : Id} (hgo : env.stopsAppend = false) (hdisk : s.hasChunk prior = true)
    (delta : Id) (bytes : Bytes) : Renamed s prior delta (s.persistDelta env (some prior) delta bytes).1 ∧
      ((s.persistDelta env (some prior) delta bytes).2 = .ok () ↔ env.fails .syncDurable = false) := by
  simp only [stopsAppend, Bool.or_eq_false_iff] at hgo
  obtain ⟨⟨⟨⟨hopen, happend⟩, hsync⟩, hdir⟩, hrename⟩ := hgo
  obtain ⟨old, hold⟩ := isSome_iff_exists.1 hdisk
  unfold persistDelta
  simp only [hopen, happend, hsync, hdir, hrename, hold, Bool.false_eq_true, if_false]
  split
  · rename_i hfail
    exact ⟨⟨⟨_, rfl⟩, rfl, rfl, rfl⟩, by simp [hfail]⟩
  rename_i hfail
  exact ⟨⟨⟨_, rfl⟩, rfl, rfl, rfl⟩, by simpa using hfail⟩

lemma persistDelta_stops {s : Node Id} {prior : Id} (hstop : (env.stopsAppend || !s.hasChunk prior) = true) (delta : Id)
    (bytes : Bytes) : Kept s (s.persistDelta env (some prior) delta bytes).1 ∧
      ∃ e, (s.persistDelta env (some prior) delta bytes).2 = .error e := by
  unfold persistDelta
  dsimp only
  split
  · exact ⟨Kept.refl s, _, rfl⟩
  rename_i old hold
  split
  · exact ⟨kept_writeChunk .., _, rfl⟩
  split
  · exact ⟨kept_writeChunk .., _, rfl⟩
  split
  · exact ⟨kept_writeChunk .., _, rfl⟩
  split
  · exact ⟨kept_writeChunk .., _, rfl⟩
  exfalso
  split at hold
  · cases hold
  · simp_all [stopsAppend, hasChunk]

def PatchEnv.stopsCommit (env : PatchEnv Id) : Bool := env.fails .syncDurable || env.fails .commitPatchState

lemma appendPatch_merge_effect {s s' : Node Id} {slot : Slot} (hocc : s.occupant slot = some loc)
    (hidx : slot.2 ≠ u64Max) (hkept : Kept s s') (hfiles : s'.files = s.files) (call : PatchCall Id) (base prior : Id)
    (size : Nat) (hasher : Hasher) (legacy : Bool) (carried : Option Bytes) :
    match (if env.stopsAppend || !s.hasChunk prior then none
      else some ((hasher.update (newRecordBytes false legacy call.seq call.patches)).finalize H)) with
    | none => Kept s (s'.appendPatch H env slot call ⟨base, some prior, size⟩ hasher legacy carried).1
    | some delta =>
      if env.stopsCommit then
        Renamed s prior delta (s'.appendPatch H env slot call ⟨base, some prior, size⟩ hasher legacy carried).1
      else ∃ s₁, Renamed s prior delta s₁ ∧
        Committed s₁ slot loc base delta (H.patchTokenIdentity delta) call.chunkId call.clientWriteSeq
          (s'.appendPatch H env slot call ⟨base, some prior, size⟩ hasher legacy carried).1 := by
  have hdisk : s'.hasChunk prior = s.hasChunk prior := by rw [hasChunk, hasChunk, hfiles]
  unfold appendPatch
  simp only [isNone_some]
  generalize newRecordBytes false legacy call.seq call.patches = bytes
  by_cases hstop : (env.stopsAppend || !s.hasChunk prior) = true
  · rw [if_pos hstop]
    obtain ⟨hk, e, he⟩ := persistDelta_stops (hdisk ▸ hstop) ((hasher.update bytes).finalize H)
      bytes
    rcases hper : s'.persistDelta env (some prior) ((hasher.update bytes).finalize H) bytes
      with ⟨s₂, r⟩
    rw [hper] at hk he
    subst he
    exact hkept.trans hk
  rw [if_neg hstop]
  simp only [Bool.or_eq_true, Bool.not_eq_true', not_or, Bool.not_eq_true, Bool.not_eq_false] at hstop
  obtain ⟨hren, hok⟩ := persistDelta_renames hstop.1 (hdisk.trans hstop.2)
    ((hasher.update bytes).finalize H) bytes
  rcases hper : s'.persistDelta env (some prior) ((hasher.update bytes).finalize H) bytes
    with ⟨s₂, r⟩
  rw [hper] at hren hok
  have hren' : Renamed s prior ((hasher.update bytes).finalize H) s₂ :=
    ⟨hfiles ▸ hren.files, hren.rows.trans hkept.rows, hren.slots.trans hkept.slots, hren.map.trans hkept.map⟩
  cases r with
  | error e =>
    have hsync : env.fails .syncDurable = true := by simpa using hok
    have hfail : env.stopsCommit = true := by simp [stopsCommit, hsync]
    simp only [hfail, if_true]
    exact hren'
  | ok u =>
    have hsync : env.fails .syncDurable = false := hok.1 rfl
    have hocc₂ : s₂.occupant slot = some loc := by rw [← hocc, occupant, occupant, hren'.map]
    have hcommit := commitToken_effect H env hocc₂ hidx call ⟨base, some prior, size⟩
      (hasher.update bytes) legacy carried
    have hlate : env.stopsCommit = env.fails .commitPatchState := by simp [stopsCommit, hsync]
    dsimp only
    rw [hlate]
    split at hcommit
    · rename_i hfail
      rw [if_pos hfail]
      exact (congrArg (Renamed s prior _) hcommit).mpr hren'
    rename_i hfail
    rw [if_neg hfail]
    exact ⟨s₂, hren', hcommit⟩

/-- A patch on a chunk with a `Pending` row stops with nothing lost, or renames the accumulator and then commits its token,
unless a step in between fails. -/
theorem patchSlot_merge_effect (H : ChunkHash Id) (env : PatchEnv Id) {s : Node Id} {slot : Slot}
    (hocc : s.occupant slot = some loc) (hidx : slot.2 ≠ u64Max) {base prior : Id} {seq : Option Nat}
    (hrow : s.patchState call.chunkId = some (.pending base prior size at_ seq)) :
    match s.renamesTo H env slot call base prior with
    | none => Kept s (s.patchSlot H env slot call).1
    | some delta => if env.stopsCommit then Renamed s prior delta (s.patchSlot H env slot call).1
        else ∃ s₁, Renamed s prior delta s₁ ∧
          Committed s₁ slot loc base delta (H.patchTokenIdentity delta) call.chunkId call.clientWriteSeq
            (s.patchSlot H env slot call).1 := by
  unfold renamesTo patchSlot patchBase
  rw [hrow]
  by_cases hread : env.fails .readPatchState = true
  · simp only [hread, if_true, andThen]
    exact Kept.refl s
  simp only [hread, Bool.false_eq_true, if_false, andThen]
  rcases hprior : s.priorHasher env slot call.chunkFileOffset (some prior) with ⟨s₁, r₁⟩
  obtain ⟨hkept₁, hfiles₁⟩ := kept_priorHasher env s slot call.chunkFileOffset (some prior)
  rw [hprior] at hkept₁ hfiles₁
  cases r₁ with
  | error e => exact hkept₁
  | ok h =>
    obtain ⟨hasher, legacy⟩ := h
    dsimp only
    rcases hnoop : s₁.noopCheck slot call.chunkId hasher legacy base prior call.patches call.seq with ⟨s₂, o⟩
    obtain ⟨hkept₂, hfiles₂⟩ := kept_noopCheck s₁ slot call.chunkId hasher legacy base prior call.patches
      call.seq
    rw [hnoop] at hkept₂ hfiles₂
    have hkept := hkept₁.trans hkept₂
    have hfiles : s₂.files = s.files := hfiles₂.trans hfiles₁
    cases o with
    | none => exact hkept
    | some carried => exact appendPatch_merge_effect hocc hidx hkept hfiles ..

/-! ## The handlers -/

section Handlers

variable {env : HandlerEnv Id} {s : Node Id} {slot : Slot}

lemma applyPatch_slot {env : PatchEnv Id} (hfile : call.fileId = slot.1) (hslot : call.chunkIdx = some slot.2) :
    s.applyPatch H env call = if s.fileRecentlyDeleted slot.1 then (s, .error (s!"File {slot.1} was deleted", .notFound))
      else s.patchSlot H env slot call := by
  unfold applyPatch
  rw [hslot, hfile]

lemma staleCandidate_none (hocc : s.occupant slot = some loc) {claimed : Id}
    (h : s.staleCandidate env slot.1 (some slot.2) claimed = none) :
    claimed = loc.chunkId ∨ s.patchState claimed = some (.folded loc.chunkId) := by
  unfold staleCandidate at h
  rw [bind_some, hocc, filter_some] at h
  split at h
  · cases h
  rename_i hcond
  simp only [Bool.and_eq_true, decide_eq_true_eq, Bool.not_eq_true', not_and, Bool.not_eq_false] at hcond
  by_cases heq : loc.chunkId = claimed
  · exact .inl heq.symm
  have := hcond heq
  unfold patchTokenResolvesTo at this
  simp only [Bool.and_eq_true, decide_eq_true_eq] at this
  exact .inr this.2

lemma multiPatchTarget_on (hocc : s.occupant slot = some loc)
    (hknown : s.hasChunk loc.chunkId = true ∨ (s.patchState loc.chunkId).isSome = true)
    (hread : env.fails .readOccupant = false) {req : MultiPatch Id} (hfile : req.fileId = slot.1)
    (hslot : req.chunkIdx = some slot.2) : s.multiPatchTarget env req = loc.chunkId ∨
      s.patchState (s.multiPatchTarget env req) = some (.folded loc.chunkId) := by
  unfold multiPatchTarget rebaseOntoOccupant
  rw [hfile, hslot]
  generalize s.refreshAfterGap env req = claimed
  cases hst : s.staleCandidate env slot.1 (some slot.2) claimed with
  | none => exact staleCandidate_none hocc hst
  | some loc' =>
    have hloc : loc' = loc := by
      unfold staleCandidate at hst
      rw [bind_some, hocc] at hst
      exact (some.inj (filter_eq_some_iff.1 hst).1).symm
    subst hloc
    have hreach : (s.hasChunk loc'.chunkId || (!env.fails .readOccupant && (s.patchState loc'.chunkId).isSome)) = true := by
      rcases hknown with hknown | hknown <;> simp [hread, hknown]
    dsimp only
    rw [if_pos hreach]
    exact .inl rfl

lemma recordChunkSeq_eq (s : Node Id) (env : HandlerEnv Id) (file : FileId) (idx newSeq : Option Nat) (new : Id) :
    ∃ seqs gens, (s.recordChunkSeq env file idx newSeq new).1 = s.setSequences seqs gens := by
  unfold recordChunkSeq
  split
  · split
    · exact ⟨_, _, rfl⟩
    unfold putChunkSeq
    dsimp only
    split <;> exact ⟨_, _, rfl⟩
  · exact ⟨_, _, rfl⟩

end Handlers

end Dfs
