import Dfs.Client.PendingLocations

/-! # Is the newest location of a slot sent last? -/

namespace Dfs

open List Option

variable {Id : Type}

/-- With the newest location enqueued for a slot, the largest write sequence, and was the newest acknowledged. -/
structure TrackedSlot (Id : Type) where
  queue : LocationQueue Id
  newest : Option (QueuedLocation Id)
  topSeq : Nat
  acknowledged : Bool

namespace TrackedSlot

variable (k : ChunkLocationSlotKey)

def new : TrackedSlot Id := ⟨.new, none, 0, false⟩

def flying (t : TrackedSlot Id) : List (QueuedLocation Id) := t.queue.inFlight.filterMap (·.locations.get k)

def sent (t : TrackedSlot Id) (i : Nat) : Option (QueuedLocation Id) := t.queue.inFlight[i]?.bind (·.locations.get k)

def arriving (t : TrackedSlot Id) : LocationAction Id → Option (QueuedLocation Id)
  | .enqueue location => Option.guard (fun q => q.slotKey = k) ⟨location, t.queue.enqueued⟩
  | .sendWrite locations => (numbered t.queue.enqueued locations).get k
  | _ => none

def topWith (t : TrackedSlot Id) (q : QueuedLocation Id) : Nat := max t.topSeq (q.location.clientWriteSeq.getD 0)

def step [DecidableEq Id] (t : TrackedSlot Id) (a : LocationAction Id) : TrackedSlot Id :=
  match t.arriving k a, a with
  | some q, _ => ⟨t.queue.step a, some q, t.topWith q, false⟩
  | none, .finish i true => { t with
      queue := t.queue.step a
      acknowledged := t.acknowledged || decide ((t.sent k i).isSome ∧ t.sent k i = t.newest) }
  | none, _ => { t with queue := t.queue.step a }

def InSeqOrder (t : TrackedSlot Id) (a : LocationAction Id) : Prop :=
  ∀ q, t.arriving k a = some q → ∀ seq, q.location.clientWriteSeq = some seq → t.topSeq ≤ seq

def HasNewest (t : TrackedSlot Id) : Prop :=
  ∀ q, t.newest = some q → t.acknowledged = true ∨ t.queue.pending.get k = some q ∨ q ∈ t.flying k

/-- What is acknowledged after the newest location is not another one. -/
def AcksInOrder (t : TrackedSlot Id) : LocationAction Id → Prop
  | .finish i true => t.acknowledged = true → ∀ q, t.sent k i = some q → t.newest = some q
  | _ => True

/-- A location that is put back is not put over a newer one. -/
def Yields (old : QueuedLocation Id) (waiting : Option (QueuedLocation Id)) : Prop :=
  ∀ q, waiting = some q → ∃ m n, old.location.clientWriteSeq = some m ∧ q.location.clientWriteSeq = some n ∧ m < n

/-- The location is taken only while no other is sent, and a write sends one only while none waits. What is put back
yields to what waits. -/
def OneAtATime (t : TrackedSlot Id) : LocationAction Id → Prop
  | .enqueue _ | .finish _ true => True
  | .sendWrite locations =>
    ((numbered t.queue.enqueued locations).get k).isSome → t.queue.pending.get k = none ∧ t.flying k = []
  | .drain sender => sender.takes k = true → (t.queue.pending.get k).isSome → t.flying k = []
  | .finish i false => ∀ b, t.queue.inFlight[i]? = some b → b.sender ≠ .worker →
    ∀ q, b.locations.get k = some q → Yields q (t.queue.pending.get k)

/-! ## The states of a slot -/

/-- Nothing, once all is acknowledged; the newest, waiting or being sent; or the newest waits while an older one is sent. -/
inductive Slotted (newest : Option (QueuedLocation Id)) (acknowledged : Bool) (topSeq : Nat) :
    Option (QueuedLocation Id) → List (QueuedLocation Id) → Prop
  | idle (h : newest = none ∨ acknowledged = true) : Slotted newest acknowledged topSeq none []
  | waits {q : QueuedLocation Id} (h : newest = some q) (hack : acknowledged = false) :
    Slotted newest acknowledged topSeq (some q) []
  | sent {q : QueuedLocation Id} (h : newest = some q) (hack : acknowledged = false) : Slotted newest acknowledged topSeq none [q]
  | behind {q old : QueuedLocation Id} (h : newest = some q) (hack : acknowledged = false) (hold : old.serial < q.serial)
      (hseq : old.location.clientWriteSeq.getD 0 ≤ topSeq) : Slotted newest acknowledged topSeq (some q) [old]

/-- The newest location has the largest sequence and a number that was given. -/
structure Sound (t : TrackedSlot Id) : Prop where
  slotted : Slotted t.newest t.acknowledged t.topSeq (t.queue.pending.get k) (t.flying k)
  serial : ∀ q, t.newest = some q → q.serial < t.queue.enqueued
  low : ∀ q, t.newest = some q → q.location.clientWriteSeq.getD 0 ≤ t.topSeq
  high : ∀ q, t.newest = some q → ∀ seq, q.location.clientWriteSeq = some seq → t.topSeq ≤ seq

section Slotted

variable {newest p : Option (QueuedLocation Id)} {acknowledged : Bool} {topSeq : Nat} {f : List (QueuedLocation Id)}
  {q old : QueuedLocation Id}

lemma upserted_of_le (h : ∀ seq, q.location.clientWriteSeq = some seq → old.location.clientWriteSeq.getD 0 ≤ seq) :
    upserted (some old) q = some q := by
  have hkeep : keepNew (some old) q = true := by
    unfold keepNew
    dsimp only
    split
    · rename_i hold hq
      simpa [hold] using h _ hq
    · rfl
  rw [upserted, if_pos hkeep]

lemma upserted_of_yields (h : Yields old (some q)) : upserted (some q) old = some q := by
  obtain ⟨m, n, hm, hn, hlt⟩ := h q rfl
  have hkeep : ¬keepNew (some q) old = true := by simpa [keepNew, hm, hn] using hlt
  rw [upserted, if_neg hkeep]

lemma Slotted.has (h : Slotted newest acknowledged topSeq p f) (hq : newest = some q) :
    acknowledged = true ∨ p = some q ∨ q ∈ f := by
  cases h with
  | idle h => exact .inl (h.resolve_left (by simp [hq]))
  | waits h => simp_all
  | sent h => simp_all
  | behind h => simp_all

lemma Slotted.arrive (h : Slotted newest acknowledged topSeq p f) (hserial : ∀ x, newest = some x → x.serial < q.serial)
    (hlow : ∀ x, newest = some x → x.location.clientWriteSeq.getD 0 ≤ topSeq)
    (hq : ∀ seq, q.location.clientWriteSeq = some seq → topSeq ≤ seq) {topSeq' : Nat} (htop : topSeq ≤ topSeq') :
    Slotted (some q) false topSeq' (upserted p q) f := by
  cases h with
  | idle h => exact .waits rfl rfl
  | waits h =>
    rw [upserted_of_le fun seq hseq => Nat.le_trans (hlow _ h) (hq seq hseq)]
    exact .waits rfl rfl
  | sent h => exact .behind rfl rfl (hserial _ h) (Nat.le_trans (hlow _ h) htop)
  | behind h _ hold hseq =>
    rw [upserted_of_le fun seq hseq => Nat.le_trans (hlow _ h) (hq seq hseq)]
    exact .behind rfl rfl (Nat.lt_trans hold (hserial _ h)) (Nat.le_trans hseq htop)

lemma Slotted.drain (h : Slotted newest acknowledged topSeq p f) (hone : p.isSome → f = []) :
    Slotted newest acknowledged topSeq none (f ++ p.toList) := by
  cases h with
  | idle h => exact .idle h
  | waits h hack => exact .sent h hack
  | sent h hack => exact .sent h hack
  | behind h => exact absurd (hone rfl) (by simp)

lemma Slotted.of_sent {pre post : List (QueuedLocation Id)} (h : Slotted newest acknowledged topSeq p (pre ++ old :: post)) :
    acknowledged = false ∧ pre = [] ∧ post = [] ∧ (newest = some old ∧ p = none ∨
      ∃ q, newest = some q ∧ p = some q ∧ old.serial < q.serial ∧ old.location.clientWriteSeq.getD 0 ≤ topSeq) := by
  generalize hf : pre ++ old :: post = f at h
  cases h with
  | idle h => simp at hf
  | waits h => simp at hf
  | sent h hack =>
    obtain ⟨rfl, rfl, rfl⟩ : pre = [] ∧ old = _ ∧ post = [] := by simpa [append_eq_singleton_iff] using hf
    exact ⟨hack, rfl, rfl, .inl ⟨h, rfl⟩⟩
  | behind h hack hold hseq =>
    obtain ⟨rfl, rfl, rfl⟩ : pre = [] ∧ old = _ ∧ post = [] := by simpa [append_eq_singleton_iff] using hf
    exact ⟨hack, rfl, rfl, .inr ⟨_, h, rfl, hold, hseq⟩⟩

end Slotted

variable {k} {t : TrackedSlot Id} {a : LocationAction Id} {α β : Type} {i : Nat}

lemma filterMap_eraseIdx {l : List α} {b : α} (g : α → Option β) (h : l[i]? = some b) :
    ∃ pre post, l.filterMap g = pre ++ ((g b).toList ++ post) ∧ (l.eraseIdx i).filterMap g = pre ++ post := by
  obtain ⟨hi, rfl⟩ := List.getElem?_eq_some_iff.mp h
  refine ⟨(l.take i).filterMap g, (l.drop (i + 1)).filterMap g, ?_, ?_⟩
  · conv_lhs => rw [← take_append_drop i l, drop_eq_getElem_cons hi]
    rw [filterMap_append, filterMap_cons]
    cases g l[i] <;> rfl
  · rw [eraseIdx_eq_take_drop_succ, filterMap_append]

lemma filterMap_concat (g : α → Option β) (l : List α) (b : α) : (l ++ [b]).filterMap g = l.filterMap g ++ (g b).toList := by
  rw [filterMap_append, filterMap_cons]
  cases g b <;> rfl

variable {q : QueuedLocation Id}

lemma serial_of_numbered {serial : Nat} {locations : Locations Id} (h : (numbered serial locations).get k = some q) :
    q.serial = serial := by
  have hall : ∀ x ∈ numbered serial locations, x.serial = serial := by
    unfold numbered
    refine foldlRecOn locations _ (motive := fun batch : PendingLocations Id => ∀ x ∈ batch, x.serial = serial)
      (fun x hx => ?_) ?_
    · cases hx
    · intro batch hbatch location _ x hx
      rcases Registry.mem_insert.mp hx with rfl | hx
      · rfl
      · exact hbatch x hx.1
  exact hall q (Registry.get_eq_some_iff.mp h).1

lemma Sound.of_queue (h : t.Sound k) {queue : LocationQueue Id} (henq : t.queue.enqueued ≤ queue.enqueued)
    (hslotted : Slotted t.newest t.acknowledged t.topSeq (queue.pending.get k) (queue.inFlight.filterMap (·.locations.get k))) :
    ({ t with queue := queue } : TrackedSlot Id).Sound k :=
  ⟨hslotted, fun q hq => Nat.lt_of_lt_of_le (h.serial q hq) henq, h.low, h.high⟩

lemma Sound.acksInOrder (t : TrackedSlot Id) (a : LocationAction Id) (h : t.Sound k) : t.AcksInOrder k a := by
  unfold AcksInOrder
  split
  · rename_i i
    intro hack q hq
    obtain ⟨b, hb, hget⟩ := bind_eq_some_iff.mp hq
    obtain ⟨pre, post, hflying, -⟩ := filterMap_eraseIdx (·.locations.get k) hb
    have hslotted := h.slotted
    rw [flying, hflying, hget] at hslotted
    exact absurd hack (by simp [hslotted.of_sent.1])
  · trivial

variable [DecidableEq Id]

lemma sound_of_arrival (hq : t.arriving k a = some q) (horder : t.InSeqOrder k a) (hserial : q.serial < (t.queue.step a).enqueued)
    (hslotted : Slotted (some q) false (t.topWith q) ((t.queue.step a).pending.get k)
    ((t.queue.step a).inFlight.filterMap (·.locations.get k))) :
    (t.step k a).Sound k := by
  have hstep : t.step k a = ⟨t.queue.step a, some q, t.topWith q, false⟩ := by
    unfold step
    rw [hq]
  rw [hstep]
  refine ⟨hslotted, ?_, ?_, ?_⟩
  · rintro x ⟨⟩
    exact hserial
  · rintro x ⟨⟩
    exact Nat.le_max_right ..
  rintro x ⟨⟩ seq hseq
  have := horder q hq seq hseq
  simp [topWith, hseq, this]

lemma Sound.finish (h : t.Sound k) {answered : Bool} {b : SentBatch Id} (hb : t.queue.inFlight[i]? = some b)
    {old : QueuedLocation Id} (hold : b.locations.get k = some old) (hone : t.OneAtATime k (.finish i answered)) :
    (t.step k (.finish i answered)).Sound k := by
  obtain ⟨pre, post, hflying, hleft⟩ := filterMap_eraseIdx (·.locations.get k) hb
  rw [hold] at hflying
  have hslotted := h.slotted
  rw [flying, hflying] at hslotted
  obtain ⟨hack, rfl, rfl, hcases⟩ := hslotted.of_sent
  have hsent : t.sent k i = some old := by simp [sent, hb, hold]
  have hqueue : t.queue.step (.finish i answered) = { t.queue with
      pending := if answered then t.queue.pending else requeue t.queue.pending b.locations b.sender
      inFlight := t.queue.inFlight.eraseIdx i } := by
    rw [LocationQueue.step, hb]
  cases answered with
  | true =>
    have hstep : t.step k (.finish i true) = { t with
        queue := t.queue.step (.finish i true), acknowledged := decide (some old = t.newest) } := by
      simp [step, arriving, hack, hsent]
    rw [hstep, hqueue]
    refine ⟨?_, h.serial, h.low, h.high⟩
    show Slotted t.newest (decide (some old = t.newest)) t.topSeq (t.queue.pending.get k)
      ((t.queue.inFlight.eraseIdx i).filterMap (·.locations.get k))
    rw [hleft]
    rcases hcases with ⟨hnew, hp⟩ | ⟨q, hnew, hp, hlt, -⟩
    · rw [hp]
      exact .idle (.inr (by simp [hnew]))
    rw [hp]
    refine .waits hnew (decide_eq_false fun heq => ?_)
    rw [hnew, some.injEq] at heq
    exact absurd hlt (heq ▸ Nat.lt_irrefl _)
  | false =>
    have hstep : t.step k (.finish i false) = { t with queue := t.queue.step (.finish i false) } := rfl
    rw [hstep, hqueue]
    refine h.of_queue (Nat.le_refl _) ?_
    show Slotted t.newest t.acknowledged t.topSeq ((requeue t.queue.pending b.locations b.sender).get k) _
    rw [hleft, get_requeue, hold]
    rcases hcases with ⟨hnew, hp⟩ | ⟨q, hnew, hp, -, hle⟩
    · rw [hp]
      cases b.sender <;> exact .waits hnew hack
    have hwins : upserted (some old) q = some q := upserted_of_le fun seq hseq => Nat.le_trans hle (h.high q hnew seq hseq)
    have hyields : b.sender ≠ .worker → upserted (some q) old = some q := fun hne =>
      upserted_of_yields (hp ▸ hone b hb hne old hold)
    rw [hp]
    cases hsender : b.sender with
    | worker => simpa [hwins] using Slotted.waits hnew hack
    | flush file => simpa [hyields (by simp [hsender])] using Slotted.waits hnew hack
    | write => simpa [hyields (by simp [hsender])] using Slotted.waits hnew hack

lemma Sound.step (t : TrackedSlot Id) (a : LocationAction Id) (h : t.Sound k) (hok : t.InSeqOrder k a ∧ t.OneAtATime k a) :
    (t.step k a).Sound k := by
  obtain ⟨horder, hone⟩ := hok
  cases a with
  | enqueue location =>
    have hp := get_upsertChunkLocation t.queue.pending ⟨location, t.queue.enqueued⟩ k
    by_cases hk : QueuedLocation.slotKey ⟨location, t.queue.enqueued⟩ = k
    · rw [if_pos hk] at hp
      have hq : t.arriving k (.enqueue location) = some ⟨location, t.queue.enqueued⟩ := by simp [arriving, hk]
      refine sound_of_arrival hq horder (Nat.lt_succ_self _) ?_
      exact hp ▸ h.slotted.arrive h.serial h.low (horder _ hq) (Nat.le_max_left ..)
    rw [if_neg hk] at hp
    have hstep : t.step k (.enqueue location) = { t with queue := t.queue.step (.enqueue location) } := by
      simp [TrackedSlot.step, arriving, Option.guard, hk]
    rw [hstep]
    exact h.of_queue (Nat.le_succ _) (hp ▸ h.slotted)
  | sendWrite locations =>
    have hflying : (t.queue.step (.sendWrite locations)).inFlight.filterMap (·.locations.get k)
        = t.flying k ++ ((numbered t.queue.enqueued locations).get k).toList := filterMap_concat ..
    cases hget : (numbered t.queue.enqueued locations).get k with
    | none =>
      have hstep : t.step k (.sendWrite locations) = { t with queue := t.queue.step (.sendWrite locations) } := by
        simp [TrackedSlot.step, arriving, hget]
      rw [hget, toList_none, append_nil] at hflying
      rw [hstep]
      exact h.of_queue (Nat.le_succ _) (hflying ▸ h.slotted)
    | some q =>
      obtain ⟨hp, hf⟩ := hone (by rw [hget]; rfl)
      rw [hget, hf] at hflying
      refine sound_of_arrival hget horder (serial_of_numbered hget ▸ Nat.lt_succ_self _) ?_
      rw [hflying]
      exact hp.symm ▸ .sent rfl rfl
  | drain sender =>
    have hstep : t.step k (.drain sender) = { t with queue := t.queue.step (.drain sender) } := rfl
    rw [hstep]
    unfold LocationQueue.step
    dsimp only
    split
    · exact h
    refine h.of_queue (Nat.le_refl _) ?_
    have hget := fun p : ChunkLocationSlotKey → Bool => Registry.get_filter t.queue.pending (fun q => p q.slotKey) p
      (fun _ => rfl) k
    rw [filterMap_concat, hget sender.takes, hget fun k => !sender.takes k]
    by_cases hk : sender.takes k = true
    · simpa [hk, flying] using h.slotted.drain (hone hk)
    · simpa [hk, flying] using h.slotted
  | finish i answered =>
    cases hb : t.queue.inFlight[i]? with
    | none =>
      have hstep : t.step k (.finish i answered) = t := by
        cases answered <;> simp [TrackedSlot.step, arriving, LocationQueue.step, sent, hb]
      rw [hstep]
      exact h
    | some b =>
      cases hold : b.locations.get k with
      | some old => exact h.finish hb hold hone
      | none =>
        -- the batch does not have the slot
        have hsent : t.sent k i = none := by simp [sent, hb, hold]
        have hstep : t.step k (.finish i answered) = { t with queue := t.queue.step (.finish i answered) } := by
          cases answered <;> simp [TrackedSlot.step, arriving, hsent]
        have hp : (t.queue.step (.finish i answered)).pending.get k = t.queue.pending.get k := by
          simp only [LocationQueue.step, hb]
          cases answered
          · rw [if_neg Bool.false_ne_true, get_requeue, hold]
            cases b.sender <;> cases t.queue.pending.get k <;> rfl
          · rfl
        obtain ⟨pre, post, hflying, hleft⟩ := filterMap_eraseIdx (·.locations.get k) hb
        rw [hold, toList_none, nil_append, ← hleft] at hflying
        rw [hstep]
        refine h.of_queue (by simp [LocationQueue.step, hb]) ?_
        rw [hp]
        have := h.slotted
        rw [flying, hflying] at this
        simpa [LocationQueue.step, hb] using this

end TrackedSlot

variable [DecidableEq Id]

open TrackedSlot

/-- The newest location is kept where write sequences do not go down and one batch of the slot is sent at a time; and
nothing else is acknowledged after it. -/
theorem newest_location_kept (k : ChunkLocationSlotKey) (l : List (LocationAction Id))
    (hl : Transition.Meets (step k) (fun t a => t.InSeqOrder k a ∧ t.OneAtATime k a) (.new : TrackedSlot Id) l) :
    (Transition.run (step k) (.new : TrackedSlot Id) l).HasNewest k ∧
      Transition.Meets (step k) (AcksInOrder k) (.new : TrackedSlot Id) l := by
  have hnew : (.new : TrackedSlot Id).Sound k := ⟨.idle (.inl rfl), by simp [new], by simp [new], by simp [new]⟩
  have hright : ∀ (t : TrackedSlot Id) a, t.Sound k → t.InSeqOrder k a ∧ t.OneAtATime k a → t.AcksInOrder k a := fun t a h _ =>
    h.acksInOrder t a
  refine ⟨fun q hq => ?_, Transition.meets_of_invariant hright Sound.step hnew hl⟩
  exact (Transition.invariant_run Sound.step hnew hl).slotted.has hq

def firstSlotLocation (id : Nat) : ChunkLocation Nat := ⟨id, [1, 2], 4, some 0, none, none, some 7⟩

lemma firstSlot_inSeqOrder (t : TrackedSlot Nat) (id : Nat) :
    t.InSeqOrder (some 7, some 0) (.enqueue (firstSlotLocation id)) := by
  intro q hq seq hseq
  rw [arriving, guard_eq_some_iff] at hq
  obtain ⟨rfl, -⟩ := hq
  cases hseq

/-- A second location comes while `flush_metadata_sync` sends the first. -/
def flushThenEnqueue (answered : Bool) : List (LocationAction Nat) :=
  [.enqueue (firstSlotLocation 10), .drain (.flush 7), .enqueue (firstSlotLocation 11), .finish 0 answered]

theorem second_location_kept :
    (Transition.run (step (some 7, some 0)) (.new : TrackedSlot Nat) (flushThenEnqueue true)).HasNewest (some 7, some 0) := by
  have hnothing : ∀ (t : TrackedSlot Nat) a, t.arriving (some 7, some 0) a = none → t.InSeqOrder (some 7, some 0) a :=
    fun t a h q hq => by
    cases h.symm.trans hq
  exact (newest_location_kept (some 7, some 0) (flushThenEnqueue true) ⟨⟨firstSlot_inSeqOrder _ _, trivial⟩,
    ⟨hnothing _ _ rfl, fun _ _ => rfl⟩, ⟨firstSlot_inSeqOrder _ _, trivial⟩, ⟨hnothing _ _ rfl, trivial⟩, trivial⟩).1

theorem failed_flush_replaces_newest :
    ¬(Transition.run (step (some 7, some 0)) (.new : TrackedSlot Nat) (flushThenEnqueue false)).HasNewest (some 7, some 0) := by
  intro h
  have hlost := h ⟨firstSlotLocation 11, 1⟩ (by decide +kernel)
  revert hlost
  decide +kernel

end Dfs
