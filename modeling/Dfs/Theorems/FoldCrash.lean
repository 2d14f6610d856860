import Dfs.FoldCrash

/-! # A crash in the middle of a fold -/

namespace Dfs

open Overlay KeyedList Option FoldEffect Node FoldPlan
open List hiding lookup

variable {Id : Type} [DecidableEq Id] {H : ChunkHash Id} {env : FoldEnv Id} {s : Node Id} {slot : Slot}
  {token base delta : Id} {b : Bytes} {records : Extents} {seq : Option Nat} {row : ChunkLocation Id}

/-- The row that is scanned later has to supersede the other. -/
def FoldRowWins (key : Id → Nat) (isFold : Id → Bool) (floor : Nat) (token result : ChunkLocation Id) : Prop :=
  if key token.chunkId < key result.chunkId then
    locationSupersedes result token (isFold result.chunkId) (isFold token.chunkId) none none floor = true
  else locationSupersedes token result (isFold token.chunkId) (isFold result.chunkId) none none floor = false

/-- Every other row of the slot loses to the token's, which is the latest write, and to the folded chunk's if that
wins over the token's. -/
def Node.OthersLose (s : Node Id) (slot : Slot) (key : Id → Nat) (isFold : Id → Bool) (floor : Nat)
    (token result : ChunkLocation Id) :
    Prop :=
  ∀ loc, s.chunkTable loc.chunkId = some loc → onSlot slot loc = true → loc.chunkId ≠ token.chunkId →
    Ahead isFold floor token loc ∧ (loc.chunkId ≠ result.chunkId → FoldRowWins key isFold floor token result →
      Ahead isFold floor result loc)

def FoldPlan.rowAt (p : FoldPlan Id) (done : List FoldEffect) : ChunkLocation Id :=
  if FoldEffect.correctSeq ∈ done then p.corrected else p.location

variable {key : Id → Nat} {result : ChunkLocation Id} {rows : Locations Id}

/-! ## Reading after a restart -/

/-- The files and patch-state rows that survived, and nothing cached. -/
structure Restarted (c t : Node Id) : Prop where
  files : t.files = c.files
  patchState : t.patchState = c.patchState
  cache : ∀ id, t.cache id = none
  chunkRing : ∀ id, t.chunkRing id = none
  deltaRing : ∀ id, t.deltaRing id = none
  aliases : ∀ id, t.retiredChunkAliases id = none

lemma restarted_startUp (c : Node Id) (replicationFactor : Nat) (scan : TableScan Id) (pending : List (Slot × Id × Nat)) :
    Restarted c (c.startUp replicationFactor scan pending) := by
  have hresume : ∀ t : Node Id, Restarted c t → Restarted c (pending.foldl (fun s r => s.resume r.1 r.2.1 r.2.2) t) := by
    induction pending with
    | nil =>
      intro t ht
      exact ht
    | cons r pending ih =>
      intro t ht
      exact ih _ ⟨ht.files, ht.patchState, ht.cache, ht.chunkRing, ht.deltaRing, ht.aliases⟩
  obtain ⟨generations, hrestart⟩ := restart_eq c replicationFactor scan
  refine hresume _ ?_
  rw [hrestart]
  exact ⟨rfl, rfl, fun _ => rfl, fun _ => rfl, fun _ => rfl, fun _ => rfl⟩

lemma occupant_startUp (c : Node Id) (replicationFactor : Nat) (scan : TableScan Id) (pending : List (Slot × Id × Nat))
    (slot : Slot) :
    (c.startUp replicationFactor scan pending).occupant slot = (c.restart replicationFactor scan).occupant slot := by
  unfold startUp
  generalize c.restart replicationFactor scan = t
  induction pending generalizing t with
  | nil => rfl
  | cons r pending ih =>
    rw [foldl_cons, ih]
    rfl

namespace Restarted

variable {c t : Node Id} (h : Restarted c t)

include h

omit [DecidableEq Id] in
lemma readChunkArc (id : Id) : t.readChunkArc id = c.files id := by
  rw [Node.readChunkArc, h.cache, h.files]
  rfl

lemma resolveAlias (id : Id) : t.resolveAlias id = none := by
  unfold Node.resolveAlias maxHops aliasWalk
  rw [h.aliases]
  rfl

omit [DecidableEq Id] in
lemma composeOnePatch_some {d : Bytes} (hb : c.files base = some b) (hd : c.files delta = some d)
    (hparse : parseDeltaRecords d = .ok records) : t.composeOnePatch base delta = some (overlay b records) := by
  unfold composeOnePatch
  rw [h.chunkRing, h.deltaRing, h.readChunkArc, h.readChunkArc, hb, hd]
  simp only [none_or]
  rw [hparse]
  simp only [applyDeltaRecords_eq_overlay]

omit [DecidableEq Id] in
lemma composeOnePatch_none (hb : c.files base = none) (delta : Id) : t.composeOnePatch base delta = none := by
  unfold composeOnePatch
  rw [h.chunkRing, h.readChunkArc, hb]
  rfl

lemma resolve_chunk {id : Id} (hrow : c.patchState id = none) : t.resolveChunkContent id = c.files id := by
  unfold resolveChunkContent maxResolveDepth resolveAtDepth resolveHere
  rw [h.resolveAlias, h.readChunkArc, resolveViaDurablePatchState, h.patchState, hrow]
  cases t.pendingPatchIds id <;> simp

lemma resolve_folded {id real : Id} (hrow : c.patchState id = some (.folded real)) (hfile : c.files id = none) :
    t.resolveChunkContent id = c.files real := by
  unfold resolveChunkContent maxResolveDepth resolveAtDepth resolveHere
  rw [h.resolveAlias, h.readChunkArc, hfile, resolveViaDurablePatchState, h.patchState, hrow]
  cases t.pendingPatchIds id <;> simp [h.readChunkArc]

lemma resolve_pending {id : Id} {size at_ : Nat} (hrow : c.patchState id = some (.pending base delta size at_ seq))
    (hfile : c.files id = none) : t.resolveChunkContent id = t.composeOnePatch base delta := by
  unfold resolveChunkContent maxResolveDepth resolveAtDepth resolveHere
  rw [h.resolveAlias, h.readChunkArc, hfile, resolveViaDurablePatchState, h.patchState, hrow]
  cases t.pendingPatchIds id <;> simp

end Restarted

/-! ## What is left of the slot at a crash -/

lemma mem_of_flipped {done : List FoldEffect} (h : done <+: foldEffects) : (deleteDelta ∈ done → unregisterDelta ∈ done) ∧
      (unregisterDelta ∈ done → flipFolded ∈ done) ∧ (flipFolded ∈ done → registerNew ∈ done) ∧
      (unlinkBase ∈ done → registerNew ∈ done) ∧ (registerNew ∈ done → FoldEffect.writeChunk ∈ done) := by
  obtain ⟨k, hk, rfl⟩ := prefix_foldEffects h
  interval_cases k <;> simp [foldEffects]

namespace PendingSlot

variable (h : PendingSlot H s slot token base delta b records seq row)

include h

section

omit [DecidableEq Id]

lemma token_ne (hH : H.CollisionFree) (content : Bytes) (offset : Nat) (file : FileId) :
    token ≠ H.computeChunkHashAt content offset file := by
  obtain ⟨size, at_, hrow⟩ := h.pending
  obtain ⟨delta₀, htoken⟩ := h.grounded.rows _ _ hrow
  exact fun heq => hH.separate delta₀ content offset file (htoken ▸ heq)

lemma token_ne_base (hH : H.CollisionFree) : token ≠ base := by
  rw [h.baseAt]
  exact h.token_ne hH _ _ _

lemma token_ne_delta (hH : H.CollisionFree) : token ≠ delta := by
  obtain ⟨d, hd, -⟩ := h.deltaFile
  obtain ⟨o, f, hid⟩ := h.grounded.addressed _ _ (.inl hd)
  rw [hid]
  exact h.token_ne hH _ _ _

end

section Crash

variable {p : FoldPlan Id} (hp : s.foldPlan H env slot token base delta seq (overlay b records) = p) (hH : H.CollisionFree)
  {done : List FoldEffect} (hdone : done <+: foldEffects)

include hp hH hdone

omit [DecidableEq Id] hdone in
lemma overlay_eq_base (hnew : p.new = base) : overlay b records = b := by
  subst hp
  exact (hH.content (hnew.trans h.baseAt)).1

omit hH in
lemma files_crashAt (id : Id) : (s.crashAt p done).files id = if deleteDelta ∈ done ∧ id = delta then none
        else if unlinkBase ∈ done ∧ p.new ≠ base ∧ id = base then none
        else if FoldEffect.writeChunk ∈ done ∧ p.new ≠ base ∧ id = p.new then some (overlay b records) else s.files id := by
  have hdisk : s.hasChunk base = true := by rw [hasChunk, h.baseFile]; rfl
  subst hp
  exact crashAt_files s _ hdisk hdone id

lemma files_new (hwrite : FoldEffect.writeChunk ∈ done) (hkeep : deleteDelta ∈ done → p.new ≠ delta) :
    (s.crashAt p done).files p.new = some (overlay b records) := by
  rw [h.files_crashAt hp hdone, if_neg (fun hdel => hkeep hdel.1 hdel.2), if_neg (fun hbase => hbase.2.1 hbase.2.2)]
  by_cases hnew : p.new = base
  · rw [if_neg (fun hw => hw.2.1 hnew), hnew, h.baseFile, h.overlay_eq_base hp hH hnew]
  · rw [if_pos ⟨hwrite, hnew, rfl⟩]

lemma files_token : (s.crashAt p done).files token = none := by
  have hnew : token ≠ p.new := by
    subst hp
    exact h.token_ne hH _ _ _
  rw [h.files_crashAt hp hdone, if_neg (fun hdel => h.token_ne_delta hH hdel.2),
    if_neg (fun hbase => h.token_ne_base hH hbase.2.2), if_neg (fun hw => hnew hw.2.2)]
  cases hfile : s.files token with
  | none => rfl
  | some d =>
    obtain ⟨o, f, hid⟩ := h.grounded.addressed _ _ (.inl hfile)
    exact absurd hid (h.token_ne hH _ _ _)

lemma files_parts (hbase : unlinkBase ∈ done → p.new = base) (hdelta : deleteDelta ∉ done) :
    (s.crashAt p done).files base = some b ∧ (s.crashAt p done).files delta = s.files delta := by
  constructor
  · rw [h.files_crashAt hp hdone, if_neg (fun hdel => hdelta hdel.1), if_neg (fun hb => hb.2.1 (hbase hb.1)),
      if_neg (fun hw => hw.2.1 hw.2.2.symm), h.baseFile]
  · rw [h.files_crashAt hp hdone, if_neg (fun hdel => hdelta hdel.1), if_neg (fun hb => hb.2.1 (hbase hb.1))]
    split
    · rename_i hw
      obtain ⟨d, hd, -⟩ := h.deltaFile
      obtain ⟨-, -, hid⟩ := hw
      subst hp
      rw [hid] at hd
      rw [hid, hd, h.grounded.addressed.eq_of_entry hH (.inl hd)]
    · rfl

omit h hH in
lemma patchState_crashAt (id : Id) :
    (s.crashAt p done).patchState id = if flipFolded ∈ done ∧ id = token then some (.folded p.new) else s.patchState id := by
  subst hp
  exact crashAt_patchState s _ hdone id

variable {t : Node Id} (ht : Restarted (s.crashAt p done) t)

include ht

lemma resolve_token : t.resolveChunkContent token = some (overlay b records) ↔
    (unlinkBase ∈ done → flipFolded ∈ done ∨ p.new = base) ∧ (deleteDelta ∈ done → p.new ≠ delta) := by
  obtain ⟨hdel, hunreg, hflip, -, hreg⟩ := mem_of_flipped hdone
  have hfile := h.files_token hp hH hdone
  by_cases hfolded : flipFolded ∈ done
  · have hrow : (s.crashAt p done).patchState token = some (.folded p.new) := by
      rw [patchState_crashAt hp hdone, if_pos ⟨hfolded, rfl⟩]
    rw [ht.resolve_folded hrow hfile]
    constructor
    · intro hread
      refine ⟨fun _ => .inl hfolded, fun hdel hnew => ?_⟩
      rw [h.files_crashAt hp hdone, if_pos ⟨hdel, hnew⟩] at hread
      exact absurd hread (by simp)
    · rintro ⟨-, hkeep⟩
      exact h.files_new hp hH hdone (hreg (hflip hfolded)) hkeep
  · obtain ⟨size, at_, hpending⟩ := h.pending
    have hrow : (s.crashAt p done).patchState token = some (.pending base delta size at_ seq) := by
      rw [patchState_crashAt hp hdone, if_neg (fun hf => hfolded hf.1), hpending]
    have hdelta : deleteDelta ∉ done := fun hd => hfolded (hunreg (hdel hd))
    rw [ht.resolve_pending hrow hfile]
    constructor
    · intro hread
      refine ⟨fun hunlink => .inr ?_, fun hd => absurd hd hdelta⟩
      by_contra hnew
      have hgone : (s.crashAt p done).files base = none := by
        rw [h.files_crashAt hp hdone, if_neg (fun hd => hdelta hd.1), if_pos ⟨hunlink, hnew, rfl⟩]
      rw [ht.composeOnePatch_none hgone] at hread
      exact absurd hread (by simp)
    · rintro ⟨hbase, -⟩
      obtain ⟨d, hd, hparse⟩ := h.deltaFile
      obtain ⟨hb, hd'⟩ := h.files_parts hp hH hdone (fun hu => (hbase hu).resolve_left hfolded) hdelta
      exact ht.composeOnePatch_some hb (hd'.trans hd) hparse

lemma resolve_new (hreg : registerNew ∈ done) (hkeep : unregisterDelta ∈ done → p.new ≠ delta) :
    t.resolveChunkContent p.new = some (overlay b records) := by
  obtain ⟨hdel, -, -, -, hwrite⟩ := mem_of_flipped hdone
  have hnew : p.new ≠ token := by
    subst hp
    exact (h.token_ne hH _ _ _).symm
  have hrow : (s.crashAt p done).patchState p.new = none := by
    rw [patchState_crashAt hp hdone, if_neg (fun hf => hnew hf.2)]
    subst hp
    exact h.grounded.row_none hH
  rw [ht.resolve_chunk hrow]
  exact h.files_new hp hH hdone (hwrite hreg) (fun hd => hkeep (hdel hd))

omit ht

/-- The rows at a crash: the token's, the folded chunk's while it is registered, and others that were there before. -/
theorem mem_slot_rows {scan : TableScan Id} (hscan : scan.Reads key (s.crashAt p done)) :
    row ∈ scan.rows.filter (onSlot slot) ∧
    (registerNew ∈ done ∧ (unregisterDelta ∈ done → p.new ≠ delta) → p.rowAt done ∈ scan.rows.filter (onSlot slot)) ∧
    ∀ loc ∈ scan.rows.filter (onSlot slot), loc = row ∨
      (registerNew ∈ done ∧ (unregisterDelta ∈ done → p.new ≠ delta)) ∧ loc = p.rowAt done ∨
      s.chunkTable loc.chunkId = some loc ∧ onSlot slot loc = true ∧ loc.chunkId ≠ token ∧
        (registerNew ∈ done → loc.chunkId ≠ p.new) := by
  have hnew : token ≠ p.new := by
    subst hp
    exact h.token_ne hH _ _ _
  have hdelta : p.delta = delta := by subst hp; rfl
  have hbase : p.base = base := by subst hp; rfl
  have hrow : (s.crashAt p done).chunkTable p.new = if unregisterDelta ∈ done ∧ p.new = delta then none
        else if registerNew ∈ done then some (p.rowAt done) else s.chunkTable p.new := by
    rw [crashAt_chunkTable_new s p (by subst hp; rfl) hdone, hdelta]
    rfl
  simp only [List.mem_filter, hscan.rows]
  refine ⟨⟨?_, h.row_on⟩, ?_, ?_⟩
  · rw [h.row_token, crashAt_chunkTable_of_ne p hnew done s, if_neg, h.registered]
    rintro (⟨-, hb⟩ | ⟨-, hd⟩)
    · exact h.token_ne_base hH (hb.trans hbase)
    · exact h.token_ne_delta hH (hd.trans hdelta)
  · rintro ⟨hreg, hkeep⟩
    have hid : (p.rowAt done).chunkId = p.new := by
      unfold rowAt
      split <;> rfl
    refine ⟨?_, ?_⟩
    · rw [hid, hrow, if_neg (fun hgone => hkeep hgone.1 hgone.2), if_pos hreg]
    · subst hp
      unfold rowAt
      split <;> simp [onSlot, slotOf, corrected, foldPlan, mul_chunkSize_div]
  · rintro loc ⟨htable, hon⟩
    by_cases hid : loc.chunkId = p.new
    · rw [hid, hrow] at htable
      split_ifs at htable with hgone hreg
      · exact .inr (.inl ⟨⟨hreg, fun hun heq => hgone ⟨hun, heq⟩⟩, (some.inj htable).symm⟩)
      · exact .inr (.inr ⟨hid ▸ htable, hon, hid ▸ hnew.symm, fun hreg' => absurd hreg' hreg⟩)
    rw [crashAt_chunkTable_of_ne p hid done s] at htable
    split_ifs at htable
    by_cases htoken : loc.chunkId = token
    · rw [htoken, h.registered] at htable
      exact .inl (some.inj htable).symm
    · exact .inr (.inr ⟨htable, hon, htoken, fun _ => hid⟩)

end Crash

end PendingSlot

/-! ## The slot after a crash -/

section Winner

variable {isFold : Id → Bool} {floor : Nat} (hsorted : rows.Pairwise (fun a b => key a.chunkId < key b.chunkId))

include hsorted

lemma foldl_rows_eq {w : ChunkLocation Id} (hw : w ∈ rows)
    (hwin : ∀ x ∈ rows, (key x.chunkId < key w.chunkId →
        locationSupersedes w x (isFold w.chunkId) (isFold x.chunkId) none none floor = true) ∧
      (key w.chunkId < key x.chunkId → locationSupersedes x w (isFold x.chunkId) (isFold w.chunkId) none none floor = false)) :
    rows.foldl (merged (arbitrate isFold floor)) none = some w := by
  obtain ⟨pre, post, rfl⟩ := append_of_mem hw
  obtain ⟨-, hpost, hpre⟩ := pairwise_append.mp hsorted
  refine foldl_merged_champion (arbitrate_cases isFold floor) (fun x hx => ?_) fun x hx => ?_
  · exact if_pos (.inr ((hwin x (by simp [hx])).1 (hpre x hx w mem_cons_self)))
  · have hlt := (pairwise_cons.mp hpost).1 x hx
    have hlose := (hwin x (by simp [hx])).2 hlt
    refine if_neg ?_
    rintro (hid | hsuper)
    · exact hlt.ne (congrArg key hid)
    · rw [hlose] at hsuper
      cases hsuper

/-- Among rows that lose to both, the fold's and the token's decide between themselves. -/
theorem foldl_rows {token : ChunkLocation Id} (htoken : token ∈ rows) (hresult : result ∈ rows)
    (hne : token.chunkId ≠ result.chunkId)
    (hothers : ∀ x ∈ rows, x = token ∨ x = result ∨ Ahead isFold floor token x ∧
      (FoldRowWins key isFold floor token result → Ahead isFold floor result x)) :
    (FoldRowWins key isFold floor token result ∧ rows.foldl (merged (arbitrate isFold floor)) none = some result) ∨
      (¬FoldRowWins key isFold floor token result ∧ rows.foldl (merged (arbitrate isFold floor)) none = some token) := by
  by_cases hwins : FoldRowWins key isFold floor token result
  · refine .inl ⟨hwins, foldl_rows_eq hsorted hresult fun x hx => ?_⟩
    rcases hothers x hx with rfl | rfl | ⟨-, hlose⟩
    · unfold FoldRowWins at hwins
      refine ⟨fun hlt => by rwa [if_pos hlt] at hwins, fun hlt => ?_⟩
      rwa [if_neg hlt.not_gt] at hwins
    · exact ⟨fun hlt => absurd hlt (lt_irrefl _), fun hlt => absurd hlt (lt_irrefl _)⟩
    · exact ⟨fun _ => (hlose hwins).1, fun _ => (hlose hwins).2⟩
  · refine .inr ⟨hwins, foldl_rows_eq hsorted htoken fun x hx => ?_⟩
    rcases hothers x hx with rfl | rfl | ⟨hlose, -⟩
    · exact ⟨fun hlt => absurd hlt (lt_irrefl _), fun hlt => absurd hlt (lt_irrefl _)⟩
    · unfold FoldRowWins at hwins
      refine ⟨fun hlt => ?_, fun hlt => ?_⟩
      · simpa [hlt.not_gt] using hwins
      · simpa [hlt] using hwins
    · exact ⟨fun _ => hlose.1, fun _ => hlose.2⟩

end Winner

/-- **Crash consistency of a fold.** After a stop between any two effects the slot reads as base plus delta iff an
unlinked base comes with a flipped token, is itself the folded chunk, or start-up prefers the folded chunk's row; and
a deleted delta is not the folded chunk. -/
theorem fold_crash_resolves_iff (hH : H.CollisionFree) (hf : env.NoFault)
    (h : PendingSlot H s slot token base delta b records seq row) (at_ : Nat) :
    let p := s.foldPlan H env slot token base delta seq (overlay b records)
    (s.runSingleFold H env slot token base delta seq at_).1.durable = (s.crashAt p foldEffects).durable ∧
      ∀ (done : List FoldEffect) (key : Id → Nat) (replicationFactor : Nat) (scan : TableScan Id)
        (pending : List (Slot × Id × Nat)), done <+: foldEffects → scan.Reads key (s.crashAt p done) →
        s.OthersLose slot key scan.isFold (writeQuorum replicationFactor) row (p.rowAt done) →
        (((s.crashAt p done).startUp replicationFactor scan pending).slotContent slot = some (overlay b records) ↔
          (FoldEffect.unlinkBase ∈ done → FoldEffect.flipFolded ∈ done ∨ p.new = base ∨
            FoldRowWins key scan.isFold (writeQuorum replicationFactor) row (p.rowAt done)) ∧
          (FoldEffect.deleteDelta ∈ done → p.new ≠ delta)) := by
  intro p
  refine ⟨(runSingleFold_durable hH hf h at_).2, ?_⟩
  intro done key replicationFactor scan pending hdone hscan hothers
  have hp : s.foldPlan H env slot token base delta seq (overlay b records) = p := rfl
  clear_value p
  have ht := restarted_startUp (s.crashAt p done) replicationFactor scan pending
  have hnodup : scan.rows.Pairwise (fun a b => a.chunkId ≠ b.chunkId) :=
    hscan.sorted.imp (fun hlt heq => hlt.ne (congrArg key heq))
  obtain ⟨hrow, hresult, hrows⟩ := h.mem_slot_rows hp hH hdone hscan
  have hsorted := hscan.sorted.filter (onSlot slot)
  have hid : (p.rowAt done).chunkId = p.new := by
    unfold rowAt
    split <;> rfl
  have hne : row.chunkId ≠ (p.rowAt done).chunkId := by
    rw [h.row_token, hid]
    subst hp
    exact h.token_ne hH _ _ _
  obtain ⟨hdel, hunreg, hflip, hunlink, -⟩ := mem_of_flipped hdone
  have htoken := h.resolve_token hp hH hdone ht
  unfold slotContent
  rw [occupant_startUp, occupant_restart _ _ hnodup]
  by_cases hreg : registerNew ∈ done ∧ (unregisterDelta ∈ done → p.new ≠ delta)
  · have hnew := h.resolve_new hp hH hdone ht hreg.1 hreg.2
    have hkeep : deleteDelta ∈ done → p.new ≠ delta := fun hd => hreg.2 (hdel hd)
    have hrest : ∀ x ∈ scan.rows.filter (onSlot slot), x = row ∨ x = p.rowAt done ∨
        Ahead scan.isFold (writeQuorum replicationFactor) row x ∧
          (FoldRowWins key scan.isFold (writeQuorum replicationFactor) row (p.rowAt done) →
            Ahead scan.isFold (writeQuorum replicationFactor) (p.rowAt done) x) := by
      intro x hx
      refine (hrows x hx).imp_right (Or.imp And.right ?_)
      rintro ⟨htable, hon, hxtoken, hxnew⟩
      obtain ⟨hlose, hlose'⟩ := hothers x htable hon (h.row_token.symm ▸ hxtoken)
      exact ⟨hlose, hlose' (hid.symm ▸ hxnew hreg.1)⟩
    rcases foldl_rows hsorted hrow (hresult hreg) hne hrest with ⟨hwins, hocc⟩ | ⟨hloses, hocc⟩
    · rw [hocc, bind_some, hid]
      exact iff_of_true hnew ⟨fun _ => .inr (.inr hwins), hkeep⟩
    · rw [hocc, bind_some, h.row_token, htoken]
      simp only [hloses, or_false]
  have hocc : (scan.rows.filter (onSlot slot)).foldl (merged (arbitrate scan.isFold (writeQuorum replicationFactor))) none =
    some row := by
    refine foldl_rows_eq hsorted hrow fun x hx => ?_
    rcases hrows x hx with rfl | ⟨hreg', -⟩ | ⟨htable, hon, hxtoken, -⟩
    · exact ⟨fun hlt => absurd hlt (lt_irrefl _), fun hlt => absurd hlt (lt_irrefl _)⟩
    · exact absurd hreg' hreg
    · obtain ⟨hlose, -⟩ := hothers x htable hon (h.row_token.symm ▸ hxtoken)
      exact ⟨fun _ => hlose.1, fun _ => hlose.2⟩
  have hsafe : unlinkBase ∈ done → flipFolded ∈ done := by
    intro hu
    by_contra hnot
    exact hreg ⟨hunlink hu, fun hun => absurd (hunreg hun) hnot⟩
  rw [hocc, bind_some, h.row_token, htoken]
  exact and_congr_left' ⟨fun hsurvive hu => .inl (hsafe hu), fun hsurvive hu => .inl (hsafe hu)⟩

/-! ## One patch -/

def onePatchDelta : Bytes := encodeAccumulator [(1, 0, [9])]

def onePatchToken : FreeId := .token (.content onePatchDelta 0 7)

def onePatchRow : ChunkLocation FreeId := ⟨onePatchToken, [1], 1, some 0, some 0, some 1, some 7⟩

/-- Of an earlier write of the slot. -/
def olderRow : ChunkLocation FreeId := ⟨.content [3] 0 7, [1], 1, some 0, some 0, some 0, some 7⟩

/-- Chunk and delta on disk, the token registered beside an earlier write, and the slot's occupant. -/
def onePatchNode : Node FreeId :=
  { Node.empty with
    files := fun id => if id = .content [0] 0 7 then some [0] else if id = .content onePatchDelta 0 7 then some onePatchDelta
      else none
    chunkTable := fun id => if id = onePatchToken then some onePatchRow else if id = olderRow.chunkId then some olderRow else none
    patchState := fun id => if id = onePatchToken then
      some (.pending (.content [0] 0 7) (.content onePatchDelta 0 7) 1 0 (some 1)) else none
    patchStateSlot := fun slot => if slot = (7, 0) then some onePatchToken else none
    fileExists := fun f => decide (f = 7)
    chunkMap := fun f => if f = 7 then some ([onePatchRow], 1) else none }

lemma onePatchNode_pendingSlot : PendingSlot freeHash onePatchNode (7, 0) onePatchToken (.content [0] 0 7)
    (.content onePatchDelta 0 7) [0] [(0, [9])] (some 1) onePatchRow where
  grounded := by
    refine ⟨?_, ?_, ?_, rfl, rfl⟩
    · intro id c hc
      simp only [onePatchNode, empty, reduceCtorEq, or_false] at hc
      split_ifs at hc with hbase hdelta
      · exact ⟨0, 7, by rw [hbase, ← some.inj hc]; rfl⟩
      · exact ⟨0, 7, by rw [hdelta, ← some.inj hc]; rfl⟩
    · intro id st hst
      simp only [onePatchNode] at hst
      split_ifs at hst with hid
      exact ⟨_, hid⟩
    · intro id real hst
      simp only [onePatchNode] at hst
      split_ifs at hst
      cases hst
  occupant := ⟨onePatchRow, by decide +kernel, rfl⟩
  pending := ⟨1, 0, rfl⟩
  baseFile := rfl
  baseAt := rfl
  deltaFile := ⟨onePatchDelta, by decide +kernel, by decide +kernel⟩
  registered := rfl
  row_token := rfl
  row_on := by decide +kernel

def onePatchPlan : FoldPlan FreeId :=
  onePatchNode.foldPlan freeHash (.quiet 1) (7, 0) onePatchToken (.content [0] 0 7) (.content onePatchDelta 0 7) (some 1) [9]

def onePatchScan (done : List FoldEffect) : TableScan FreeId :=
  (onePatchNode.crashAt onePatchPlan done).scan [onePatchToken, .content [9] 0 7, olderRow.chunkId] [] (fun _ => 1)

def onePatchKey (id : FreeId) : Nat := if id = onePatchToken then 0 else if id = .content [9] 0 7 then 1 else 2

lemma onePatchScan_reads {done : List FoldEffect} (h : done <+: foldEffects) :
    (onePatchScan done).Reads onePatchKey (onePatchNode.crashAt onePatchPlan done) := by
  have hnew : onePatchPlan.new = .content [9] 0 7 := by decide +kernel
  refine reads_scan (by decide +kernel) ?_ ?_ _ _
  · intro id loc hloc
    by_cases hid : id = onePatchPlan.new
    · rw [hid, crashAt_chunkTable_new _ _ rfl h] at hloc
      split_ifs at hloc
      · exact ⟨by rw [← some.inj hloc, hid]; rfl, by simp [hid, hnew]⟩
      · exact ⟨by rw [← some.inj hloc, hid]; rfl, by simp [hid, hnew]⟩
      rw [hnew] at hloc
      cases hloc
    · rw [crashAt_chunkTable_of_ne _ hid] at hloc
      split_ifs at hloc
      simp only [onePatchNode] at hloc
      split_ifs at hloc with htoken holder
      · exact ⟨by rw [← some.inj hloc, htoken]; rfl, by simp [htoken]⟩
      · exact ⟨by rw [← some.inj hloc, holder], by simp [holder]⟩
  · intro id st hst
    rw [crashAt_patchState _ _ h] at hst
    split_ifs at hst with hflip
    · exact mem_cons.2 (.inl hflip.2)
    simp only [onePatchNode] at hst
    split_ifs at hst with htoken
    simp [htoken]

theorem one_patch_survives_a_crash_after_the_flip :
    ((onePatchNode.crashAt onePatchPlan (foldEffects.take 7)).startUp 1 (onePatchScan (foldEffects.take 7)) []).slotContent (7, 0)
      = some [9] := by
  have hfault : (FoldEnv.quiet 1 : FoldEnv FreeId).NoFault := ⟨fun _ => rfl, fun _ => rfl⟩
  have hlose : onePatchNode.OthersLose (7, 0) onePatchKey (onePatchScan (foldEffects.take 7)).isFold (writeQuorum 1) onePatchRow
      (onePatchPlan.rowAt (foldEffects.take 7)) := by
    intro loc hloc _ hne
    simp only [onePatchNode] at hloc
    split_ifs at hloc with htoken
    · exact absurd htoken hne
    obtain rfl := some.inj hloc
    exact ⟨⟨by decide +kernel, by decide +kernel⟩, fun _ _ => ⟨by decide +kernel, by decide +kernel⟩⟩
  have hcrash := (fold_crash_resolves_iff freeHash_collisionFree hfault onePatchNode_pendingSlot 0).2 (foldEffects.take 7)
    onePatchKey 1
    (onePatchScan (foldEffects.take 7)) [] (List.take_prefix _ _) (onePatchScan_reads (List.take_prefix _ _)) hlose
  exact hcrash.2 ⟨fun _ => .inl (by decide), fun hdel => absurd hdel (by decide)⟩

/-- Right after the unlink the token wins over the folded chunk's row; before the fold and after it the slot reads as patched. -/
theorem crash_after_unlink_loses_the_patch :
    PendingSlot freeHash onePatchNode (7, 0) onePatchToken (.content [0] 0 7) (.content onePatchDelta 0 7) [0] [(0, [9])] (some 1)
        onePatchRow ∧
      (onePatchScan (foldEffects.take 3)).Reads onePatchKey (onePatchNode.crashAt onePatchPlan (foldEffects.take 3)) ∧
      onePatchNode.slotContent (7, 0) = some [9] ∧
      ((onePatchNode.crashAt onePatchPlan (foldEffects.take 3)).startUp 1 (onePatchScan (foldEffects.take 3)) []).slotContent
        (7, 0)
        = none ∧
      ((onePatchNode.crashAt onePatchPlan foldEffects).startUp 1 (onePatchScan foldEffects) []).slotContent (7, 0) = some [9] :=
  ⟨onePatchNode_pendingSlot, onePatchScan_reads (List.take_prefix _ _), by decide +kernel, by decide +kernel, by decide +kernel⟩

end Dfs
