import Dfs.Lib.Transition
import Dfs.Theorems.AppendExact

/-! # Is an append a compare-and-swap? -/

namespace Dfs

open Function Server AppendState

variable {Id : Type}

def AppendPhase.InFlight : AppendPhase Id → Prop
  | .checked .. | .writing _ => True
  | _ => False

def AppendPhase.Succeeded : AppendPhase Id → Prop
  | .answered (.appendFileResult ..) => True
  | _ => False

instance (p : AppendPhase Id) : Decidable p.InFlight := match p with
  | .checked .. | .writing _ => .isTrue trivial
  | .received .. | .answered _ => .isFalse id

instance (p : AppendPhase Id) : Decidable p.Succeeded := match p with
  | .answered (.appendFileResult ..) => .isTrue trivial
  | .answered (.error ..) | .received .. | .checked .. | .writing _ => .isFalse id

/-- It expects offset `e` and has data; in flight it carries the file's record, of that size. -/
def AppendPhase.Fits (srv : Server Id) (file : FileId) (e : Nat) : AppendPhase Id → Prop
  | .received newData expectedOffset => expectedOffset = e ∧ newData ≠ []
  | .checked m newData expectedOffset =>
    srv.tables.fileTable file = some m ∧ m.id = file ∧ m.size = e ∧ expectedOffset = e ∧ newData ≠ []
  | .writing job => srv.tables.fileTable file = some job.metadata ∧ job.metadata.id = file ∧ job.metadata.size = e ∧
    job.expectedOffset = e ∧ job.actualPartialBytes < job.writeLength
  | .answered _ => True

/-- A request passes the guard only while no other one is in flight. -/
def AppendState.Alone (s : AppendState Id) (a : Nat × AppendEnv Id) : Prop :=
  (∃ newData expectedOffset, s.request a.1 = .received newData expectedOffset) → ∀ j, ¬(s.request j).InFlight

variable [DecidableEq Id]

/-! ## What the stages leave -/

variable {p p' : AppendPhase Id} {m : FileMetadata Id}

section Stages

variable {H : ChunkHash Id} {srv srv' : Server Id} {env : AppendEnv Id} {job : AppendJob Id}

lemma tombstoned_chunkMapUpdateLocationForFile (s : Node Id) (floor : Nat) (readable : Slot → Bool) (file : FileId)
    (loc : ChunkLocation Id) : (s.chunkMapUpdateLocationForFile floor readable file loc).1.tombstoned = s.tombstoned := by
  unfold Node.chunkMapUpdateLocationForFile
  split
  · rfl
  cases loc.fileOffset with
  | none => rfl
  | some o =>
    dsimp only
    rw [backfillOccupant_eq]
    rfl

lemma appendChunk_frame {chunk : Id × Bytes} {rest : List (Id × Bytes)} {result : Except (AppendResponse Id) (AppendJob Id)}
    (h : srv.appendChunk H env job chunk rest = (srv', result)) :
    srv'.tables = srv.tables ∧ srv'.node.tombstoned = srv.node.tombstoned ∧ ((∃ r, result = .error r ∧ r.isError = true) ∨
        ∃ job', result = .ok job' ∧ job'.metadata = job.metadata ∧ job'.expectedOffset = job.expectedOffset ∧
          job'.writeLength = job.writeLength ∧ job'.actualPartialBytes = job.actualPartialBytes) := by
  have hwrite : (if (env.successfulNodes chunk.1).isEmpty then srv
      else { srv with content := update srv.content chunk.1 (some chunk.2) }).tables = srv.tables ∧
      (if (env.successfulNodes chunk.1).isEmpty then srv
      else { srv with content := update srv.content chunk.1 (some chunk.2) }).node = srv.node := by
    split <;> exact ⟨rfl, rfl⟩
  unfold appendChunk at h
  dsimp only at h
  generalize (if (env.successfulNodes chunk.1).isEmpty then srv
      else { srv with content := update srv.content chunk.1 (some chunk.2) }) = written at h hwrite
  split at h
  · cases h
    exact ⟨hwrite.1, by rw [hwrite.2], .inl ⟨_, rfl, rfl⟩⟩
  split at h
  · cases h
    exact ⟨hwrite.1, by rw [hwrite.2], .inl ⟨_, rfl, rfl⟩⟩
  cases h
  refine ⟨hwrite.1, ?_, .inr ⟨_, rfl, rfl, rfl, rfl, rfl⟩⟩
  rw [tombstoned_chunkMapUpdateLocationForFile, hwrite.2]
  split <;> rfl

section

omit [DecidableEq Id]

lemma appendCheck_cases (srv : Server Id) (env : AppendEnv Id) (file : FileId) (e : Nat) :
    (∃ r, srv.appendCheck env file e = .error r ∧ r.isError = true) ∨
      ∃ m, srv.appendCheck env file e = .ok m ∧ srv.tables.fileTable file = some m ∧ m.size = e := by
  unfold appendCheck
  split
  · exact .inl ⟨_, rfl, rfl⟩
  split
  · exact .inl ⟨_, rfl, rfl⟩
  rename_i m hm
  split
  · exact .inl ⟨_, rfl, rfl⟩
  rename_i hsize
  exact .inr ⟨m, rfl, hm, by simpa using hsize⟩

lemma appendFinish_cases (env : AppendEnv Id) {file : FileId} {e : Nat} (hfits : (AppendPhase.writing job).Fits srv file e)
    (hlive : srv.node.tombstoned file = false) :
    ((srv.appendFinish env job).1 = srv ∧ (srv.appendFinish env job).2.isError = true) ∨
      ((srv.appendFinish env job).1.node = srv.node ∧
        ∃ m, (srv.appendFinish env job).1.tables.fileTable file = some m ∧ m.id = file ∧ m.size ≠ e) := by
  obtain ⟨hrecord, rfl, -, hoff, hlen⟩ := hfits
  obtain ⟨m, hm⟩ : ∃ m : FileMetadata Id,
    m = { job.metadata with size := job.expectedOffset + (job.writeLength - job.actualPartialBytes) } := ⟨_, rfl⟩
  have hid : m.id = job.metadata.id := by rw [hm]
  have hfresh : ∀ r, srv.tables.fileTable m.id = some r → isStale r m = false := by
    intro r hr
    rw [hid] at hr
    obtain rfl := Option.some.inj (hrecord.symm.trans hr)
    rw [hm]
    simp [isStale]
  have hnew := fileTable_putFile_self (hid ▸ hlive) hfresh
  have hsize : m.size ≠ e := by
    rw [hm]
    show job.expectedOffset + (job.writeLength - job.actualPartialBytes) ≠ e
    omega
  unfold appendFinish
  dsimp only
  rw [← hm]
  split
  · exact .inl ⟨rfl, rfl⟩
  refine .inr ⟨rfl, { m with chunkLocations := [] }, ?_, hid, hsize⟩
  rw [← hid]
  exact hnew

lemma writing_fits {file : FileId} {d : Bytes} (hprep : srv.appendPrepare H env m d m.size = .ok job)
    (hrecord : srv.tables.fileTable file = some m) (hid : m.id = file) (hd : d ≠ []) :
    (AppendPhase.writing job).Fits srv file m.size := by
  obtain ⟨tail, -, -, hjob⟩ := appendPrepare_ok hprep
  have hmeta : job.metadata = m := by rw [hjob]; rfl
  have hoff : job.expectedOffset = m.size := by rw [hjob]; rfl
  have hlen : job.actualPartialBytes < job.writeLength := by
    rw [hjob]
    show tail.length < (tail ++ d).length
    have := List.length_pos_iff.mpr hd
    rw [List.length_append]
    omega
  exact ⟨by rw [hmeta]; exact hrecord, by rw [hmeta]; exact hid, by rw [hmeta], hoff, hlen⟩

end

end Stages

variable {srv : Server Id} {H : ChunkHash Id} {env : AppendEnv Id}

/-- What a request does when it runs on: it comes to a phase that fits, with the tables as they were and no answer of
success that was not there, in flight only if it was or has just passed the guard; or it succeeds, and leaves a record
of another size. -/
theorem advance_cases {srv' : Server Id} {file : FileId} {e : Nat} (h : srv.advance H file env p = (srv', p'))
    (hfits : p.Fits srv file e) (hlive : ∀ m, srv.tables.fileTable file = some m → m.id = file ∧
    srv.node.tombstoned file = false) :
    srv'.node.tombstoned = srv.node.tombstoned ∧ ((srv'.tables = srv.tables ∧ p'.Fits srv file e ∧ (p'.Succeeded → p' = p) ∧
          (p'.InFlight → p.InFlight ∨ (∃ d x, p = .received d x) ∧ ∃ m, srv.tables.fileTable file = some m ∧ m.size = e)) ∨
        (p.InFlight ∧ (∃ r, p' = .answered r) ∧ ∃ m, srv'.tables.fileTable file = some m ∧ m.id = file ∧ m.size ≠ e)) := by
  have hfail {r : AppendResponse Id} (hr : r.isError = true) : ¬(AppendPhase.answered r).Succeeded := by
    cases r with
    | error => exact id
    | appendFileResult => cases hr
  cases p with
  | received d x =>
    obtain ⟨rfl, hd⟩ := hfits
    rcases appendCheck_cases srv env file x with ⟨r, hr, herr⟩ | ⟨m, hm, hrecord, hsize⟩
    · simp only [advance, hr] at h
      cases h
      exact ⟨rfl, .inl ⟨rfl, trivial, fun h => absurd h (hfail herr), False.elim⟩⟩
    simp only [advance, hm] at h
    cases h
    exact ⟨rfl, .inl ⟨rfl, ⟨hrecord, (hlive m hrecord).1, hsize, rfl, hd⟩, False.elim,
      fun _ => .inr ⟨⟨d, x, rfl⟩, m, hrecord, hsize⟩⟩⟩
  | checked m d x =>
    obtain ⟨hrecord, hid, rfl, rfl, hd⟩ := hfits
    cases hprep : srv.appendPrepare H env m d m.size with
    | error r =>
      simp only [advance, hprep] at h
      cases h
      rcases appendPrepare_error hprep with herr | ⟨rem, -, -, hnil⟩
      · exact ⟨rfl, .inl ⟨rfl, trivial, fun h => absurd h (hfail herr), False.elim⟩⟩
      · exact absurd hnil hd
    | ok job =>
      simp only [advance, hprep] at h
      cases h
      exact ⟨rfl, .inl ⟨rfl, writing_fits hprep hrecord hid hd, False.elim, fun _ => .inl trivial⟩⟩
  | writing job =>
    cases hchunks : job.chunks with
    | nil =>
      simp only [advance, hchunks] at h
      cases h
      rcases appendFinish_cases env hfits (hlive _ hfits.1).2 with ⟨hsame, herr⟩ | ⟨hnode, hnew⟩
      · rw [hsame]
        exact ⟨rfl, .inl ⟨rfl, trivial, fun h => absurd h (hfail herr), False.elim⟩⟩
      · exact ⟨by rw [hnode], .inr ⟨trivial, ⟨_, rfl⟩, hnew⟩⟩
    | cons chunk rest =>
      cases hone : srv.appendChunk H env job chunk rest with
      | mk srv1 result =>
        obtain ⟨htables, htomb, hresult⟩ := appendChunk_frame hone
        rcases hresult with ⟨r, rfl, herr⟩ | ⟨job', rfl, hmeta, hoff, hwl, hact⟩
        · simp only [advance, hchunks, hone] at h
          cases h
          exact ⟨htomb, .inl ⟨htables, trivial, fun h => absurd h (hfail herr), False.elim⟩⟩
        simp only [advance, hchunks, hone] at h
        cases h
        refine ⟨htomb, .inl ⟨htables, ?_, False.elim, fun _ => .inl trivial⟩⟩
        obtain ⟨h1, h2, h3, h4, h5⟩ := hfits
        exact ⟨by rw [hmeta]; exact h1, by rw [hmeta]; exact h2, by rw [hmeta]; exact h3, by rw [hoff]; exact h4,
          by rw [hact, hwl]; exact h5⟩
  | answered r =>
    simp only [advance] at h
    cases h
    exact ⟨rfl, .inl ⟨rfl, trivial, fun _ => rfl, False.elim⟩⟩

/-! ## A run -/

/-- A request in flight is the only one and fits the record; after a success none is, and the size differs. -/
structure AppendState.Serial (s : AppendState Id) (file : FileId) (e : Nat) : Prop where
  live : ∀ m, s.server.tables.fileTable file = some m → m.id = file ∧ s.server.node.tombstoned file = false
  fits : ∀ i, (s.request i).Fits s.server file e
  unique : ∀ i j, (s.request i).InFlight → (s.request j).InFlight → i = j
  done : ∀ i, (s.request i).Succeeded → (∀ j, ¬(s.request j).InFlight) ∧
    ∀ m, s.server.tables.fileTable file = some m → m.size ≠ e
  once : ∀ i j, (s.request i).Succeeded → (s.request j).Succeeded → i = j

section

omit [DecidableEq Id]

lemma AppendPhase.Fits.congr {srv' : Server Id} {file : FileId} {e : Nat} (h : p.Fits srv file e)
    (htables : srv'.tables = srv.tables) : p.Fits srv' file e := by
  cases p with
  | checked => exact ⟨by rw [htables]; exact h.1, h.2⟩
  | writing => exact ⟨by rw [htables]; exact h.1, h.2⟩
  | _ => exact h

lemma AppendPhase.Fits.of_not_inFlight {srv' : Server Id} {file : FileId} {e : Nat} (h : p.Fits srv file e) (hp : ¬p.InFlight) :
    p.Fits srv' file e := by
  cases p with
  | checked => exact absurd trivial hp
  | writing => exact absurd trivial hp
  | _ => exact h

lemma AppendPhase.Fits.record {file : FileId} {e : Nat} (h : p.Fits srv file e) (hp : p.InFlight) :
    ∃ m, srv.tables.fileTable file = some m := by
  cases p with
  | checked m => exact ⟨m, h.1⟩
  | writing job => exact ⟨job.metadata, h.1⟩
  | _ => exact absurd hp id

end

section Step

variable {file : FileId} {e : Nat} {s : AppendState Id} {srv' : Server Id} {i : Nat}

omit [DecidableEq Id] in
lemma AppendState.Serial.step_same (hs : s.Serial file e) (halone : s.Alone (i, env))
    (htables : srv'.tables = s.server.tables) (htomb : srv'.node.tombstoned = s.server.node.tombstoned)
    (hfits : p'.Fits s.server file e) (hsucc : p'.Succeeded → p' = s.request i)
    (hflight : p'.InFlight → (s.request i).InFlight ∨ (∃ d x, s.request i = .received d x) ∧ ∃ m,
    s.server.tables.fileTable file = some m ∧ m.size = e) :
    Serial ⟨srv', update s.request i p'⟩ file e := by
  -- a request in flight was so before, or has just passed the guard
  have hback : ∀ j, (update s.request i p' j).InFlight → (s.request j).InFlight ∨
      j = i ∧ (∀ k, ¬(s.request k).InFlight) ∧ ∃ m, s.server.tables.fileTable file = some m ∧ m.size = e := by
    intro j hj
    rcases eq_or_ne j i with rfl | hji
    · rw [update_self] at hj
      rcases hflight hj with h | ⟨hreceived, hrecord⟩
      · exact .inl h
      · exact .inr ⟨rfl, halone hreceived, hrecord⟩
    rw [update_of_ne hji] at hj
    exact .inl hj
  have hold : ∀ j, (update s.request i p' j).Succeeded → (s.request j).Succeeded := by
    intro j hj
    rcases eq_or_ne j i with rfl | hji
    · rw [update_self] at hj
      rw [← hsucc hj]
      exact hj
    · rwa [update_of_ne hji] at hj
  refine ⟨?_, ?_, ?_, ?_, fun j k hj hk => hs.once j k (hold j hj) (hold k hk)⟩
  · intro m hm
    rw [htomb]
    exact hs.live m (htables ▸ hm)
  · intro j
    rcases eq_or_ne j i with rfl | hji
    · simpa only [update_self] using hfits.congr htables
    · simpa only [update_of_ne hji] using (hs.fits j).congr htables
  · intro j k hj hk
    rcases hback j hj with hj' | ⟨hji, hnone, -⟩
    · rcases hback k hk with hk' | ⟨-, hnone, -⟩
      · exact hs.unique j k hj' hk'
      · exact absurd hj' (hnone j)
    rcases hback k hk with hk' | ⟨hki, -, -⟩
    · exact absurd hk' (hnone k)
    · exact hji.trans hki.symm
  · intro j hj
    obtain ⟨hnone, hsize⟩ := hs.done j (hold j hj)
    refine ⟨fun k hk => ?_, fun m hm => hsize m (htables ▸ hm)⟩
    rcases hback k hk with hk | ⟨-, -, m, hm, he⟩
    · exact hnone k hk
    · exact hsize m hm he

omit [DecidableEq Id] in
lemma AppendState.Serial.step_done {r : AppendResponse Id} (hs : s.Serial file e)
    (htomb : srv'.node.tombstoned = s.server.node.tombstoned) (hflight : (s.request i).InFlight)
    (hm : srv'.tables.fileTable file = some m) (hid : m.id = file) (hsize : m.size ≠ e) :
    Serial ⟨srv', update s.request i (.answered r)⟩ file e := by
  have hnone : ∀ j, ¬(update s.request i (.answered r) j).InFlight := by
    intro j hj
    rcases eq_or_ne j i with rfl | hji
    · rw [update_self] at hj
      exact hj
    rw [update_of_ne hji] at hj
    exact hji (hs.unique j i hj hflight)
  have honly : ∀ j, (update s.request i (.answered r) j).Succeeded → j = i := by
    intro j hj
    by_contra hji
    rw [update_of_ne hji] at hj
    exact (hs.done j hj).1 i hflight
  have hsome : ∀ m', srv'.tables.fileTable file = some m' → m' = m := fun m' hm' => by
    rw [hm] at hm'
    exact (Option.some.inj hm').symm
  refine ⟨?_, ?_, fun j k hj => absurd hj (hnone j), ?_, fun j k hj hk => (honly j hj).trans (honly k hk).symm⟩
  · intro m' hm'
    obtain ⟨m0, hm0⟩ := (hs.fits i).record hflight
    rw [hsome m' hm', htomb]
    exact ⟨hid, (hs.live m0 hm0).2⟩
  · intro j
    rcases eq_or_ne j i with rfl | hji
    · simp only [update_self]
      trivial
    have hj := hnone j
    simp only [update_of_ne hji] at hj ⊢
    exact (hs.fits j).of_not_inFlight hj
  · intro j hj
    refine ⟨hnone, fun m' hm' => ?_⟩
    rw [hsome m' hm']
    exact hsize

end Step

lemma AppendState.Serial.step {file : FileId} {e : Nat} {s : AppendState Id} (hs : s.Serial file e) {a : Nat × AppendEnv Id}
    (halone : s.Alone a) : (s.step H file a).Serial file e := by
  obtain ⟨i, env⟩ := a
  cases hadv : s.server.advance H file env (s.request i) with
  | mk srv' p' =>
    have hstep : s.step H file (i, env) = ⟨srv', update s.request i p'⟩ := by
      unfold AppendState.step
      rw [hadv]
    rw [hstep]
    obtain ⟨htomb, ⟨htables, hfits, hsucc, hflight⟩ | ⟨hflight, ⟨r, rfl⟩, m, hm, hid, hsize⟩⟩ :=
      advance_cases hadv (hs.fits i) hs.live
    · exact hs.step_same halone htables htomb hfits hsucc hflight
    · exact hs.step_done htomb hflight hm hid hsize

/-- Of any number of requests with one expected offset at most one succeeds, in every orderly run. -/
theorem at_most_one_append (H : ChunkHash Id) (file : FileId) (e : Nat) (srv : Server Id) (data : Nat → Bytes)
    (hdata : ∀ i, data i ≠ []) (hlive : ∀ m, srv.tables.fileTable file = some m → m.id = file ∧ srv.node.tombstoned file = false)
    (actions : List (Nat × AppendEnv Id))
    (halone : Transition.Meets (AppendState.step H file) AppendState.Alone ⟨srv, fun i => .received (data i) e⟩ actions)
    (i j : Nat)
    (hi : ((Transition.run (AppendState.step H file) ⟨srv, fun i => .received (data i) e⟩ actions).request i).Succeeded)
    (hj : ((Transition.run (AppendState.step H file) ⟨srv, fun i => .received (data i) e⟩ actions).request j).Succeeded) :
    i = j := by
  have hstart : Serial ⟨srv, fun i => .received (data i) e⟩ file e :=
    ⟨hlive, fun i => ⟨rfl, hdata i⟩, fun _ _ h => absurd h id, fun _ h => absurd h id, fun _ _ h => absurd h id⟩
  have hstep : ∀ (s : AppendState Id) a, s.Serial file e → s.Alone a → (s.step H file a).Serial file e :=
    fun s a hs ha => hs.step ha
  exact (Transition.invariant_run hstep hstart halone).once i j hi hj

def rivals : AppendState FreeId := ⟨heldServer [1, 2] none 2, fun i => .received [if i = 0 then 3 else 4] 2⟩

theorem second_append_refused :
    ¬((Transition.run (AppendState.step freeHash 7) rivals ([0, 0, 0, 0, 1].map (·, calmAppend))).request 1).Succeeded := by
  intro hsecond
  refine absurd (at_most_one_append freeHash 7 2 (heldServer [1, 2] none 2) (fun i => [if i = 0 then 3 else 4]) (fun i => ?_) ?_
    ([0, 0, 0, 0, 1].map (·, calmAppend)) ?_ 0 1 (by decide +kernel) hsecond) (by decide)
  · exact List.cons_ne_nil _ _
  · intro m hm
    cases hm
    exact ⟨rfl, rfl⟩
  · have hrun {s : AppendState FreeId} {i : Nat} (h : (s.request i).InFlight) : s.Alone (i, calmAppend) := by
      rintro ⟨d, x, hd⟩
      rw [hd] at h
      exact absurd h id
    refine ⟨fun _ j h => h, hrun (by decide +kernel), hrun (by decide +kernel), hrun (by decide +kernel), ?_, trivial⟩
    rintro - (_ | j) hj
    · exact absurd hj (by decide +kernel)
    · exact hj

/-- Both pass the guard before either stores its record, and the byte of the second is gone. -/
theorem two_appends_succeed :
    let after := Transition.run (AppendState.step freeHash 7) rivals ([0, 1, 0, 0, 0, 1, 1, 1].map (·, calmAppend))
    (after.request 0).Succeeded ∧ (after.request 1).Succeeded ∧ after.server.readFile 7 3 = [1, 2, 3] := by
  decide +kernel

end Dfs
