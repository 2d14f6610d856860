import Dfs.Lemmas.FlushEffect

/-!
# What a flush leaves of the slot

A flush has dropped the slot, released it, or left it claimed, by what it is given (`SlotDropped`, `LeftClaimed`);
hence the fate of later writes and of the claim.
-/

namespace Dfs

open Overlay Runs Client ChunkSlot SlotWrite FlushEnv

variable {Id : Type}

/-! ## When the slot is dropped, and when it stays claimed -/

def Client.Replaced (c : Client Id) (env : FlushEnv Id) : Prop :=
  ∃ m m', c.cached = some m ∧ env.replaced = some m' ∧ m.id ≠ m'.id

def Client.OtherFile (c : Client Id) : Prop := ∃ m id, c.cached = some m ∧ c.expectedFileId = some id ∧ m.id ≠ id

def Client.CachedAtEnd (c : Client Id) (env : FlushEnv Id) : Prop :=
  env.replaced.isSome = true ∨ c.cached.isSome = true ∨ (env.pathKnown = true ∧ env.fetched.isSome = true)

/-- They reach beyond what was sent, or have a later stamp than the snapshot. -/
def Client.WritesShow (c : Client Id) (env : FlushEnv Id) (sentLen : Nat) : Prop :=
  sentLen < max c.shard.slot.spanEnd (extent (env.during.map SlotWrite.range)) ∨
    c.shard.slot.lastModified < (env.during.getLast?.map (·.now)).getD c.shard.slot.lastModified

def Client.GivesUp (c : Client Id) (env : FlushEnv Id) : Prop :=
  (c.shard.slot.recordTerminalFailure env.now).giveUpAfterTerminalFailures env.now = true

def FlushEnv.Writes (env : FlushEnv Id) : Prop := ∃ loc, env.write = some (some loc)

variable [DecidableEq Id] (c : Client Id) (env : FlushEnv Id) (v : FlushView)

/-- The file was replaced, the writes do not show, or the flush failed once too often. -/
def Client.SlotDropped : Prop :=
  (c.PatchSent env v ∧ (c.Replaced env ∨ (¬c.OtherFile ∧ ¬c.WritesShow env v.slotLen))) ∨
  (∃ base, c.FreshFrom env v base ∧ v.realDataFound env = none ∧
    ((env.Writes ∧ (c.Replaced env ∨
      (¬(c.CachedAtEnd env ∧ env.truncatedInode = true) ∧ ¬c.OtherFile ∧ ¬c.WritesShow env (v.freshData base).length))) ∨
     (env.write = none ∧ c.GivesUp env))) ∨
  (c.BaseLost env v ∧ c.GivesUp env)

/-- Another file's buffer, a truncated inode, or a taken lock when the check found data. -/
def Client.LeftClaimed : Prop :=
  (c.PatchSent env v ∧ ¬c.Replaced env ∧ c.OtherFile) ∨
  (∃ base, c.FreshFrom env v base ∧
    (((v.realDataFound env).isSome = true ∧ env.lockBusy .release = true) ∨
     (v.realDataFound env = none ∧ env.Writes ∧ ¬c.Replaced env ∧
      ((c.CachedAtEnd env ∧ env.truncatedInode = true) ∨ c.OtherFile))))

structure ChunkSlot.SameBytes (slot slot' : ChunkSlot Id) : Prop where
  extents : slot'.extents = slot.extents
  dirtyRanges : slot'.dirtyRanges = slot.dirtyRanges
  spanEnd : slot'.spanEnd = slot.spanEnd

/-- Dropped, or kept with its bytes, claimed or not. -/
inductive SlotFate (env : FlushEnv Id) (dropped claimed : Prop) (slot : ChunkSlot Id) : ChunkSlot Id → Prop
  | dropped (h : dropped) (h' : ¬claimed) : SlotFate env dropped claimed slot (.new env.wallNow)
  | claimed {slot' : ChunkSlot Id} (h : ¬dropped) (h' : claimed) (bytes : slot.SameBytes slot')
    (flushing : slot'.flushing = slot.flushing) : SlotFate env dropped claimed slot slot'
  | released {slot' : ChunkSlot Id} (h : ¬dropped) (h' : ¬claimed) (bytes : slot.SameBytes slot')
    (flushing : slot'.flushing = false) : SlotFate env dropped claimed slot slot'

def Client.Fate (slot' : ChunkSlot Id) : Prop :=
  SlotFate env (c.SlotDropped env (c.slotView env)) (c.LeftClaimed env (c.slotView env))
    (c.writeAll env.during).shard.slot slot'

/-! ## The completions -/

omit [DecidableEq Id] in
lemma completePatch_slot (start : Option FileId) (loc : SlotLocation Id) : (c.completePatch env v start loc).1.shard.slot =
      if c.fileReplaced start then new env.wallNow
      else if c.idOk start then
        if c.shard.slot.newDataArrived v.slotLen v.lastModifiedSnap then
          { c.shard.slot with
            serverChunkId := some loc.chunkId, serverChunkIdSetAt := some env.now, consecutivePatchFailures := 0
            flushing := false }
        else new env.wallNow
      else c.shard.slot := by
  unfold completePatch
  split
  · rfl
  dsimp only
  change (if c.idOk start then _ else _ : Client Id × Except FlushError Unit).1.shard.slot = _
  split
  · change (if c.shard.slot.newDataArrived v.slotLen v.lastModifiedSnap then _
      else _ : Client Id × Except FlushError Unit).1.shard.slot = _
    split <;> rfl
  · rfl

omit [DecidableEq Id] in
lemma completeWrite_slot (start : Option FileId) (len : Nat) (loc : SlotLocation Id) :
    (c.completeWrite env v start len loc).1.shard.slot =
      if c.fileReplaced start then new env.wallNow
      else if c.cached.isSome && env.truncatedInode then c.shard.slot
      else if c.idOk start then
        if c.shard.slot.newDataArrived len v.lastModifiedSnap then { c.shard.slot with flushing := false }
        else new env.wallNow
      else c.shard.slot := by
  unfold completeWrite
  split
  · rfl
  split
  · rfl
  dsimp only
  change (if c.idOk start then _ else _ : Client Id × Except FlushError Unit).1.shard.slot = _
  split
  · split <;> rfl
  · rfl

/-! ## The conditions, seen from the completion -/

section Completion

variable {c d : Client Id} {env : FlushEnv Id} {v : FlushView} {x : Option (CachedFile Id)} {slot : ChunkSlot Id}

section

omit [DecidableEq Id]

lemma fileReplaced_iff (hx : c.cached.isSome = true → x.map (·.id) = c.cached.map (·.id))
    (hd : d.cached = if env.replaced.isSome then env.replaced else x) :
    d.fileReplaced (c.cached.map (·.id)) = true ↔ c.Replaced env := by
  unfold fileReplaced Replaced
  rw [hd]
  cases hc : c.cached with
  | none => simp
  | some m =>
    cases hr : env.replaced with
    | some m' => simp
    | none =>
      rw [hc] at hx
      cases x with
      | none => simp
      | some m' =>
        have hid : m'.id = m.id := by simpa using hx
        simp [hid]

lemma idOk_iff (hd : d.expectedFileId = c.expectedFileId) : d.idOk (c.cached.map (·.id)) = true ↔ ¬c.OtherFile := by
  unfold idOk OtherFile
  rw [hd]
  cases c.cached with
  | none => simp
  | some m =>
    cases c.expectedFileId with
    | none => simp
    | some id => simp

lemma newDataArrived_iff (hslot : c.shard.slot.isEmpty = false)
    (hspan : slot.spanEnd = (c.writeAll env.during).shard.slot.spanEnd)
    (hstamp : slot.lastModified = (c.writeAll env.during).shard.slot.lastModified) (len : Nat) :
    slot.newDataArrived len c.shard.slot.lastModified = true ↔ c.WritesShow env len := by
  have hspan' : slot.spanEnd = max c.shard.slot.spanEnd (extent (env.during.map range)) :=
    hspan.trans (writeAll_spanEnd c.shard hslot env.during)
  have hstamp' : slot.lastModified = (env.during.getLast?.map (·.now)).getD c.shard.slot.lastModified :=
    hstamp.trans (writeAll_lastModified c.shard env.during)
  rw [newDataArrived, hspan', hstamp', Bool.or_eq_true, decide_eq_true_eq, decide_eq_true_eq, WritesShow]

end

variable (env) in
omit [DecidableEq Id] in
lemma failTerminally_cases
    (hstate : slot.terminalFailureCount = c.shard.slot.terminalFailureCount ∧ slot.firstTerminalFailureAt =
    c.shard.slot.firstTerminalFailureAt) :
    (c.GivesUp env ∧ slot.failTerminally env = new env.wallNow) ∨
    (¬c.GivesUp env ∧ (slot.failTerminally env).extents = slot.extents ∧
      (slot.failTerminally env).dirtyRanges = slot.dirtyRanges ∧ (slot.failTerminally env).spanEnd = slot.spanEnd ∧
      (slot.failTerminally env).flushing = false) := by
  have hgive : (({ slot with flushing := false } : ChunkSlot Id).recordTerminalFailure env.now).giveUpAfterTerminalFailures
    env.now
      = (c.shard.slot.recordTerminalFailure env.now).giveUpAfterTerminalFailures env.now := by
    simp only [recordTerminalFailure, giveUpAfterTerminalFailures, hstate.1, hstate.2]
    rfl
  unfold failTerminally
  dsimp only
  rw [hgive]
  by_cases h : c.GivesUp env
  · exact .inl ⟨h, if_pos h⟩
  right
  have hkeep : ¬(c.shard.slot.recordTerminalFailure env.now).giveUpAfterTerminalFailures env.now = true := h
  rw [if_neg hkeep]
  exact ⟨h, rfl, rfl, rfl, rfl⟩

lemma slotDropped_of_patchSent (h : c.PatchSent env v) :
    (c.SlotDropped env v ↔ c.Replaced env ∨ (¬c.OtherFile ∧ ¬c.WritesShow env v.slotLen)) ∧
      (c.LeftClaimed env v ↔ ¬c.Replaced env ∧ c.OtherFile) := by
  have hfresh := h.not_freshFrom
  have hlost : ¬c.BaseLost env v := by
    rintro ⟨⟨old, loc, hgives, -⟩, -⟩
    exact h.not_givesUp hgives
  simp [SlotDropped, LeftClaimed, h, hfresh, hlost]

variable {base : Option Bytes}

lemma slotDropped_of_freshFrom (h : c.FreshFrom env v base) : (c.SlotDropped env v ↔ v.realDataFound env = none ∧
      ((env.Writes ∧ (c.Replaced env ∨
        (¬(c.CachedAtEnd env ∧ env.truncatedInode = true) ∧ ¬c.OtherFile ∧ ¬c.WritesShow env (v.freshData base).length))) ∨
       (env.write = none ∧ c.GivesUp env))) ∧
    (c.LeftClaimed env v ↔ ((v.realDataFound env).isSome = true ∧ env.lockBusy .release = true) ∨
      (v.realDataFound env = none ∧ env.Writes ∧ ¬c.Replaced env ∧
        ((c.CachedAtEnd env ∧ env.truncatedInode = true) ∨ c.OtherFile))) := by
  have hsent : ¬c.PatchSent env v := fun hsent => hsent.not_freshFrom base h
  have hlost : ¬c.BaseLost env v := fun hlost => hlost.not_freshFrom base h
  have hunique : ∀ P : Option Bytes → Prop, (∃ base', c.FreshFrom env v base' ∧ P base') ↔ P base := by
    intro P
    constructor
    · rintro ⟨base', hfresh, hP⟩
      rwa [h.unique hfresh] at hP
    · exact fun hP => ⟨base, h, hP⟩
  simp only [SlotDropped, LeftClaimed, hsent, hlost, hunique, false_and, false_or, or_false, and_self]

/-- The slot with the writes that landed meanwhile, and the completion's checks. -/
structure Client.AtCompletion (c : Client Id) (env : FlushEnv Id) (d : Client Id) : Prop where
  bytes : (c.writeAll env.during).shard.slot.SameBytes d.shard.slot
  flushing : d.shard.slot.flushing = (c.writeAll env.during).shard.slot.flushing
  replaced : d.fileReplaced (c.cached.map (·.id)) = true ↔ c.Replaced env
  idOk : d.idOk (c.cached.map (·.id)) = true ↔ ¬c.OtherFile
  arrived : ∀ len, d.shard.slot.newDataArrived len c.shard.slot.lastModified = true ↔ c.WritesShow env len

/-- The slot after a completion. It is dropped if the file was replaced, and else left if the inode was truncated or
the buffer is that of another file; after that the writes that landed meanwhile decide. -/
theorem Client.AtCompletion.fate (h : c.AtCompletion env d) (truncated : Bool) {len : Nat} {kept : ChunkSlot Id}
    (hkept : d.shard.slot.SameBytes kept ∧ kept.flushing = false) (hdropped : c.SlotDropped env (c.slotView env) ↔
      c.Replaced env ∨ (¬truncated = true ∧ ¬c.OtherFile ∧ ¬c.WritesShow env len))
    (hclaimed : c.LeftClaimed env (c.slotView env) ↔ ¬c.Replaced env ∧ (truncated = true ∨ c.OtherFile)) :
    c.Fate env (if d.fileReplaced (c.cached.map (·.id)) then new env.wallNow
      else if truncated then d.shard.slot
      else if d.idOk (c.cached.map (·.id)) then
        if d.shard.slot.newDataArrived len c.shard.slot.lastModified then kept else new env.wallNow
      else d.shard.slot) := by
  have hok := h.idOk
  have harrived := h.arrived len
  unfold Fate
  split
  · rename_i hrep
    have hrep := h.replaced.1 hrep
    exact .dropped (hdropped.2 (.inl hrep)) (fun hc => (hclaimed.1 hc).1 hrep)
  rename_i hrep
  rw [h.replaced] at hrep
  simp only [hrep, false_or, not_false_eq_true, true_and] at hdropped hclaimed
  split
  · exact .claimed (by simp_all) (by simp_all) h.bytes h.flushing
  split
  · split
    · refine .released (by simp_all) (by simp_all) ⟨?_, ?_, ?_⟩ hkept.2
      · exact hkept.1.extents.trans h.bytes.extents
      · exact hkept.1.dirtyRanges.trans h.bytes.dirtyRanges
      · exact hkept.1.spanEnd.trans h.bytes.spanEnd
    · exact .dropped (by simp_all) (by simp_all)
  · exact .claimed (by simp_all) (by simp_all) h.bytes h.flushing

lemma fate_done (hsent : c.PatchSent env (c.slotView env)) (h : c.AtCompletion env d) (loc : SlotLocation Id) :
    c.Fate env (d.completePatch env (c.slotView env) (c.cached.map (·.id)) loc).1.shard.slot := by
  obtain ⟨hdropped, hclaimed⟩ := slotDropped_of_patchSent hsent
  rw [completePatch_slot]
  exact h.fate false ⟨⟨rfl, rfl, rfl⟩, rfl⟩ (by simpa using hdropped) (by simpa using hclaimed)

lemma fate_written (hfresh : c.FreshFrom env (c.slotView env) base)
    (hfound : (c.slotView env).realDataFound env = none) (hwrites : env.Writes) (h : c.AtCompletion env d)
    (hcached : d.cached.isSome = true ↔ c.CachedAtEnd env) (loc : SlotLocation Id) :
    c.Fate env (d.completeWrite env (c.slotView env) (c.cached.map (·.id))
      ((c.slotView env).freshData base).length loc).1.shard.slot := by
  have hwrite : env.write ≠ none := by
    obtain ⟨loc', hloc'⟩ := hwrites
    rw [hloc']
    exact Option.some_ne_none _
  obtain ⟨hdropped, hclaimed⟩ := slotDropped_of_freshFrom hfresh
  have htrunc : (d.cached.isSome && env.truncatedInode) = true ↔ c.CachedAtEnd env ∧ env.truncatedInode = true := by
    rw [Bool.and_eq_true, hcached]
  rw [completeWrite_slot]
  refine h.fate _ ⟨⟨rfl, rfl, rfl⟩, rfl⟩ ?_ ?_
  · rw [hdropped, htrunc]
    simp [hfound, hwrites, hwrite]
  · rw [hclaimed, htrunc]
    simp [hfound, hwrites]

omit [DecidableEq Id] in
lemma atCompletion_of_alike (hslot : c.shard.slot.isEmpty = false) {c' : Client Id} (halike : (c.writeAll env.during).Alike c')
    (hshard : ∃ n id at', d.shard.slot =
      { c'.shard.slot with consecutivePatchFailures := n, serverChunkId := id, serverChunkIdSetAt := at' })
    (hx : c.cached.isSome = true → x.map (·.id) = c.cached.map (·.id))
    (hcached : d.cached = if env.replaced.isSome then env.replaced else x) (hexpected : d.expectedFileId = c'.expectedFileId) :
    c.AtCompletion env d := by
  obtain ⟨n, hn⟩ := halike.slot
  obtain ⟨m, id, at', hm⟩ := hshard
  rw [hn] at hm
  refine ⟨⟨?_, ?_, ?_⟩, ?_, fileReplaced_iff hx hcached, idOk_iff (hexpected.trans halike.expected), fun len => ?_⟩
  · rw [hm]
  · rw [hm]
  · rw [hm]
  · rw [hm]
  · exact newDataArrived_iff hslot (by rw [hm]) (by rw [hm]) len

omit [DecidableEq Id] in
lemma Client.Alike.sameBytes (h : c.Alike d) : c.shard.slot.SameBytes d.shard.slot := by
  obtain ⟨n, hn⟩ := h.slot
  rw [hn]
  exact ⟨rfl, rfl, rfl⟩

lemma fate_failed (hfresh : c.FreshFrom env (c.slotView env) base)
    (hfound : (c.slotView env).realDataFound env = none) (hwrite : env.write = none)
    (halike : (c.writeAll env.during).Alike d) : c.Fate env (d.shard.slot.failTerminally env) := by
  obtain ⟨hdropped, hclaimed⟩ := slotDropped_of_freshFrom hfresh
  have hno : ¬env.Writes := by
    rintro ⟨loc, hloc⟩
    cases hwrite.symm.trans hloc
  have hnot : ¬c.LeftClaimed env (c.slotView env) := by
    rw [hclaimed, hfound]
    simp [hno]
  have hgives : c.SlotDropped env (c.slotView env) ↔ c.GivesUp env := by
    rw [hdropped, hfound, hwrite]
    simp [hno]
  have hstate : d.shard.slot.terminalFailureCount = c.shard.slot.terminalFailureCount ∧
      d.shard.slot.firstTerminalFailureAt = c.shard.slot.firstTerminalFailureAt := by
    obtain ⟨n, hn⟩ := halike.slot
    have hsame := (sameForPatch_writeAll c env.during).slot
    rw [hn]
    exact ⟨(congrArg terminalFailureCount hsame :), (congrArg firstTerminalFailureAt hsame :)⟩
  have hbytes := halike.sameBytes
  rcases failTerminally_cases env hstate with ⟨hgive, heq⟩ | ⟨hgive, hext, hdir, hspan, hfl⟩
  · rw [heq]
    exact .dropped (hgives.2 hgive) hnot
  exact .released (fun hd => hgive (hgives.1 hd)) hnot
    ⟨hext.trans hbytes.extents, hdir.trans hbytes.dirtyRanges, hspan.trans hbytes.spanEnd⟩ hfl

lemma fate_fresh (hslot : c.shard.slot.isEmpty = false)
    (hfresh : c.FreshFrom env (c.slotView env) base) (halike : (c.writeAll env.during).Alike d) :
    c.Fate env (d.freshWrite env (c.slotView env) (c.cached.map (·.id))
      ((c.slotView env).freshData base)).1.shard.slot := by
  obtain ⟨hdropped, hclaimed⟩ := slotDropped_of_freshFrom hfresh
  obtain ⟨n, hn⟩ := halike.slot
  have hbytes := halike.sameBytes
  have hflushing : d.shard.slot.flushing = (c.writeAll env.during).shard.slot.flushing := by rw [hn]
  unfold freshWrite
  cases hfound : (c.slotView env).realDataFound env with
  | some fresh =>
    rw [hfound] at hdropped hclaimed
    have hnot : ¬c.SlotDropped env (c.slotView env) := fun hd => nomatch (hdropped.1 hd).1
    dsimp only
    split
    · rename_i hbusy
      exact .claimed hnot (hclaimed.2 (Or.inl ⟨rfl, hbusy⟩)) hbytes hflushing
    rename_i hbusy
    refine .released hnot (fun hc => ?_) ⟨hbytes.extents, hbytes.dirtyRanges, hbytes.spanEnd⟩ rfl
    rcases hclaimed.1 hc with hb | hw
    · exact hbusy hb.2
    · exact nomatch hw.1
  | none =>
    rcases hwrite : env.write with _ | _ | loc
    · exact fate_failed hfresh hfound hwrite halike
    · -- accepted, with no location
      have hno : ¬env.Writes := by
        rintro ⟨loc, hloc⟩
        cases hwrite.symm.trans hloc
      refine .released (fun hd => ?_) (fun hc => ?_) ⟨hbytes.extents, hbytes.dirtyRanges, hbytes.spanEnd⟩ rfl
      · rcases (hdropped.1 hd).2 with hw | hw
        · exact hno hw.1
        rw [hwrite] at hw
        exact nomatch hw.1
      · rcases hclaimed.1 hc with hb | hw
        · rw [hfound] at hb
          exact nomatch hb.1
        · exact hno hw.2.1
    · have hcached : d.cached.map (·.id) = c.cached.map (·.id) := halike.cached
      have hsome : d.cached.isSome = c.cached.isSome := by
        have := congrArg Option.isSome hcached
        rwa [Option.isSome_map, Option.isSome_map] at this
      refine fate_written hfresh hfound ⟨loc, hwrite⟩ ?_ ?_ loc
      · refine atCompletion_of_alike hslot halike ⟨_, _, _, rfl⟩ (fun h => ?_) rfl rfl
        cases hd : d.cached with
        | none =>
          rw [hd, h] at hsome
          cases hsome
        | some m =>
          rw [← hcached, hd]
          split <;> rfl
      · simp only [refetch, CachedAtEnd]
        cases env.replaced with
        | some m => simp
        | none =>
          rw [← hsome]
          cases env.pathKnown <;> simp

end Completion

lemma flush_fate (hslot : c.shard.slot.isEmpty = false) :
    c.Fate env (c.flushSlot env).1.shard.slot := by
  have hsame := (sameForPatch_writeAll c env.during).symm
  have hattempt := tryPatch_attempted (c.writeAll env.during) env (c.slotView env)
  unfold flushSlot flushBufferAsyncOne
  dsimp only
  generalize (c.writeAll env.during).tryPatch env (c.slotView env) = r at hattempt
  cases hattempt with
  | done sent alike server =>
    refine fate_done (sent.congr hsame) ?_ _
    exact atCompletion_of_alike hslot alike ⟨_, _, _, rfl⟩ (fun _ => alike.cached) rfl rfl
  | fresh fresh alike server => exact fate_fresh hslot (fresh.congr hsame) alike
  | lost lost server slot =>
    have hlost := lost.congr hsame
    obtain ⟨n, hn⟩ := slot
    have hstate := (sameForPatch_writeAll c env.during).slot
    have hnot : ¬c.LeftClaimed env (c.slotView env) := by
      rintro (⟨hsent, -⟩ | ⟨base, hfresh, -⟩)
      · obtain ⟨old, loc, hgives, -⟩ := hlost.lost
        exact hsent.not_givesUp hgives
      · exact hlost.not_freshFrom base hfresh
    have hdropped : c.SlotDropped env (c.slotView env) ↔ c.GivesUp env := by
      constructor
      · rintro (⟨hsent, -⟩ | ⟨base, hfresh, -⟩ | ⟨-, hgive⟩)
        · obtain ⟨old, loc, hgives, -⟩ := hlost.lost
          exact absurd hgives hsent.not_givesUp
        · exact absurd hfresh (hlost.not_freshFrom base)
        · exact hgive
      · exact fun hgive => .inr (Or.inr ⟨hlost, hgive⟩)
    have hcount : ({ (c.writeAll env.during).shard.slot with consecutivePatchFailures := n } : ChunkSlot Id).terminalFailureCount
        = c.shard.slot.terminalFailureCount := (congrArg terminalFailureCount hstate :)
    rw [afterTryPatch, hn]
    rcases failTerminally_cases env ⟨hcount, (congrArg firstTerminalFailureAt hstate :)⟩ with
      ⟨hgive, heq⟩ | ⟨hgive, hext, hdir, hspan, hfl⟩
    · rw [heq]
      exact .dropped (hdropped.2 hgive) hnot
    · exact .released (fun hd => hgive (hdropped.1 hd)) hnot ⟨hext, hdir, hspan⟩ hfl
  | refused sent fresh lost server slot =>
    obtain ⟨n, hn⟩ := slot
    rw [afterTryPatch, hn]
    refine .released ?_ ?_ ⟨rfl, rfl, rfl⟩ rfl
    · rintro (⟨hsent, -⟩ | ⟨base, hfresh, -⟩ | ⟨hlost, -⟩)
      · exact sent (hsent.congr hsame.symm)
      · exact fresh base (hfresh.congr hsame.symm)
      · exact lost (hlost.congr hsame.symm)
    · rintro (⟨hsent, -⟩ | ⟨base, hfresh, -⟩)
      · exact sent (hsent.congr hsame.symm)
      · exact fresh base (hfresh.congr hsame.symm)

/-! ## The writes that land meanwhile -/

lemma flush_holds (hslot : c.shard.slot.isEmpty = false) {ws : Extents} (hholds : c.shard.slot.Holds ws) :
    (c.SlotDropped env (c.slotView env) ∧
      (c.flushSlot env).1.shard.slot = new env.wallNow) ∨
    (¬c.SlotDropped env (c.slotView env) ∧
      (c.flushSlot env).1.shard.slot.Holds (ws ++ env.during.map range)) := by
  have hwritten : (c.writeAll env.during).shard.slot.Holds (ws ++ env.during.map range) := hholds.writeAll env.during
  have hfate := flush_fate c env hslot
  generalize (c.flushSlot env).1.shard.slot = slot' at hfate
  cases hfate with
  | dropped h h' => exact .inl ⟨h, rfl⟩
  | claimed h h' bytes flushing =>
    exact .inr ⟨h, hwritten.congr bytes.extents bytes.dirtyRanges (le_of_eq bytes.spanEnd.symm)⟩
  | released h h' bytes flushing =>
    exact .inr ⟨h, hwritten.congr bytes.extents bytes.dirtyRanges (le_of_eq bytes.spanEnd.symm)⟩

/-- What is written meanwhile is in the slot, and dirty, just when it is nothing or the slot was not dropped. -/
theorem flush_keeps_writes_iff (c : Client Id) (env : FlushEnv Id) (hslot : c.shard.slot.isEmpty = false)
    {ws : Extents} (hholds : c.shard.slot.Holds ws) : (∀ i b, lastAt (env.during.map SlotWrite.range) i = some b →
      lastAt (c.flushSlot env).1.shard.slot.extents i = some b ∧
        Covers Prod.fst Prod.snd (c.flushSlot env).1.shard.slot.dirtyRanges i) ↔
      (∀ w ∈ env.during, w.data = []) ∨ ¬c.SlotDropped env (c.slotView env) := by
  rcases flush_holds c env hslot hholds with ⟨hdropped, hnew⟩ | ⟨hkept, hafter⟩
  · rw [hnew]
    constructor
    · intro hall
      refine .inl (fun w hw => ?_)
      by_contra hne
      have hcover : Covers Prod.fst stop (env.during.map range) w.intra :=
        ⟨w.range, List.mem_map_of_mem hw, le_rfl, Nat.lt_add_of_pos_right (List.length_pos_iff.2 hne)⟩
      obtain ⟨b, hb⟩ := Option.isSome_iff_exists.1 (lastAt_isSome_iff.2 hcover)
      exact nomatch (hall w.intra b hb).1
    · rintro (hempty | hkept) i b hb
      · obtain ⟨r, hr, hlo, hhi⟩ := lastAt_isSome_iff.1 (Option.isSome_iff_exists.2 ⟨b, hb⟩)
        obtain ⟨w, hw, rfl⟩ := List.mem_map.1 hr
        rw [stop, range, hempty w hw] at hhi
        exact absurd hlo (by rw [range]; simpa using hhi)
      · exact absurd hdropped hkept
  · refine ⟨fun _ => .inr hkept, fun _ i b hb => ?_⟩
    have hlast : lastAt (ws ++ env.during.map range) i = some b := by
      rw [lastAt_append, hb]
      rfl
    exact ⟨(hafter.elems i).trans hlast, (hafter.dirty i).2 (by rw [hlast]; rfl)⟩

def Client.claimedWrite : Client Nat :=
  ((Client.opened false).writeAll [⟨0, [1, 2], 1⟩]).onSlot (fun slot => { slot with flushing := true })

lemma holds_claimedWrite : claimedWrite.shard.slot.Holds [(0, [1, 2])] := by
  have hnew : (opened false : Client Nat).shard.slot.Holds [] := holds_new 0
  exact (hnew.writeAll [⟨0, [1, 2], 1⟩]).congr rfl rfl le_rfl

lemma needsPatch_claimedWrite (env : FlushEnv Nat) (hlock : env.lockBusy = fun _ => false) :
    (claimedWrite.slotView env).needsPatch = false := by
  simp only [view, existingChunkSize, hlock]
  decide +kernel

/-- A byte is written at the given time while the slot is flushed. -/
def lateWrite (time : Nat) : FlushEnv Nat := { FlushEnv.onlyWrites ⟨5, 2⟩ with during := [⟨0, [9], time⟩] }

theorem later_write_is_kept :
    let slot := (Client.claimedWrite.flushSlot (lateWrite 2)).1.shard.slot
    lastAt slot.extents 0 = some 9 ∧ Covers Prod.fst Prod.snd slot.dirtyRanges 0 := by
  refine (flush_keeps_writes_iff claimedWrite (lateWrite 2) (by decide +kernel)
    holds_claimedWrite).2 (Or.inr ?_) 0 9 rfl
  have hneeds := needsPatch_claimedWrite (lateWrite 2) rfl
  have hshow : ∀ len, claimedWrite.WritesShow (lateWrite 2) len := fun len =>
    Or.inr (by decide +kernel)
  rintro (⟨hsent, -⟩ | ⟨base, -, -, ⟨-, hrep | ⟨-, -, hnot⟩⟩ | ⟨hwrite, -⟩⟩ | ⟨hlost, -⟩)
  · exact absurd (hsent.needs.symm.trans hneeds) (by decide)
  · obtain ⟨m, m', -, hm', -⟩ := hrep
    cases hm'
  · exact hnot (hshow _)
  · cases hwrite
  obtain ⟨old, loc, hgives, -⟩ := hlost.lost
  exact absurd (hgives.needs.symm.trans hneeds) (by decide)

/-- By a clock that stands still, the byte written meanwhile is gone. -/
theorem same_clock_write_is_lost : Client.claimedWrite.shard.slot.Holds [(0, [1, 2])] ∧
      (Client.claimedWrite.flushSlot (lateWrite 1)).1.server = some [1, 2] ∧
      (claimedWrite.flushSlot (lateWrite 1)).1.shard.slot = new 0 :=
  ⟨holds_claimedWrite, by decide +kernel, by decide +kernel⟩

/-! ## The claim -/

/-- After every end of a flush the slot is empty or released, just when it is none of those that leave it claimed. -/
theorem flush_releases_claim_iff (c : Client Id) (env : FlushEnv Id) (hslot : c.shard.slot.isEmpty = false)
    (hclaimed : c.shard.slot.flushing = true) : ((c.flushSlot env).1.shard.slot.isEmpty = true ∨
      (c.flushSlot env).1.shard.slot.flushing = false) ↔
      ¬c.LeftClaimed env (c.slotView env) := by
  have hflushing : (c.writeAll env.during).shard.slot.flushing = true :=
    (congrArg ChunkSlot.flushing (sameForPatch_writeAll c env.during).slot :).trans hclaimed
  have hspan := writeAll_spanEnd c.shard hslot env.during
  have hpos : c.shard.slot.spanEnd ≠ 0 := by simpa [isEmpty] using hslot
  have hfate := flush_fate c env hslot
  generalize (c.flushSlot env).1.shard.slot = slot' at hfate
  cases hfate with
  | dropped h h' => exact ⟨fun _ => h', fun _ => .inl rfl⟩
  | claimed h h' bytes flushing =>
    refine ⟨fun hor => ?_, fun hnot => absurd h' hnot⟩
    rcases hor with hempty | hfalse
    · have hzero : slot'.spanEnd = 0 := by simpa [isEmpty] using hempty
      have : (c.writeAll env.during).shard.slot.spanEnd ≠ 0 := by
        change (c.shard.writeAll env.during).slot.spanEnd ≠ 0
        omega
      exact absurd (bytes.spanEnd.symm.trans hzero) this
    rw [flushing, hflushing] at hfalse
    cases hfalse
  | released h h' bytes flushing => exact ⟨fun _ => h', fun _ => .inr flushing⟩

theorem quiet_flush_releases_claim :
    (Client.claimedWrite.flushSlot (.onlyWrites ⟨5, 2⟩)).1.shard.slot.isEmpty = true ∨
      (Client.claimedWrite.flushSlot (.onlyWrites ⟨5, 2⟩)).1.shard.slot.flushing
        = false := by
  refine (flush_releases_claim_iff claimedWrite (.onlyWrites ⟨5, 2⟩) (by decide +kernel) rfl).2 ?_
  have hneeds := needsPatch_claimedWrite (.onlyWrites ⟨5, 2⟩) rfl
  rintro (⟨hsent, -⟩ | ⟨base, -, ⟨-, hbusy⟩ | ⟨-, -, -, ⟨-, htrunc⟩ | ⟨m, id, -, hid, -⟩⟩⟩)
  · exact absurd (hsent.needs.symm.trans hneeds) (by decide)
  · cases hbusy
  · cases htrunc
  · cases hid

/-- Truncated while a fresh write is under way, the slot stays claimed with its dirty bytes, and no later flush takes it up. -/
theorem truncated_inode_leaves_claim :
    let r := Client.claimedWrite.flushSlot { FlushEnv.onlyWrites ⟨5, 2⟩ with truncatedInode := true }
    r.2.toBool = true ∧ r.1.shard.slot.dirtyRanges = [(0, 2)] ∧ r.1.shard.slot.isEmpty = false ∧
      r.1.shard.slot.flushing = true ∧ r.1.shard.flushWaiter = false := by
  decide +kernel

end Dfs
