import Dfs.Network

/-! # What is read is what was sent -/

namespace Dfs

open FragmentStream List Option

variable {F : Type} {codec : EnvelopeCodec F}

/-- A request that is taken for the envelope of a split frame. -/
def Request.LooksSplit : Request F → Prop
  | .writeFileLocalOnly data _ => data = []
  | .multiPatch patches _ => patches ≠ [] ∧ ∀ p ∈ patches, p.2 = []
  | .other _ => False

/-- An ordinary frame does not look like a split one, and a split one does. -/
def Sent.Clear : Sent F → Prop
  | .written ⟨_, .request r⟩ => ¬ r.LooksSplit
  | .written _ => True
  | .framed _ r => ¬ r.LooksSplit
  | .splitWrite .. => True
  | .splitPatch _ patches _ => patches ≠ []

def Sent.parts (codec : EnvelopeCodec F) : Sent F → List Bytes
  | .written ⟨requestId, .response (.chunkData data fields arcData arcRange)⟩ =>
    [codec.toBytes ⟨requestId, .response (.chunkData [] fields none none)⟩, chunkPayload data arcData arcRange]
  | .written e => [codec.toBytes e]
  | .framed requestId r => [codec.toBytes ⟨requestId, .request r⟩]
  | .splitWrite requestId data fields => [codec.toBytes ⟨requestId, .request (.writeFileLocalOnly [] fields)⟩, data]
  | .splitPatch requestId patches fields => [codec.toBytes (patchStub requestId patches fields), patchPayload patches]

def Sent.Fits (codec : EnvelopeCodec F) (m : Sent F) : Prop := ∀ part ∈ m.parts codec, part.length < 2 ^ 32

instance (m : Sent F) : Decidable (m.Fits codec) := inferInstanceAs (Decidable (∀ part ∈ m.parts codec, part.length < 2 ^ 32))

/-! ## Frames -/

lemma length_toBeBytes (n : Nat) : (toBeBytes n).length = 4 := by
  rw [toBeBytes, length_reverse, LittleEndian.length_encode]

variable {rest bytes : Bytes} {e : MessageEnvelope F} {r : Request F} {n : Nat} {m : Sent F} {sent : List (Sent F)}

lemma fromBeBytes_toBeBytes (h : n < 2 ^ 32) : fromBeBytes (toBeBytes n) = n := by
  rw [fromBeBytes, toBeBytes, reverse_reverse, LittleEndian.decode_encode h]

lemma takeLength_append (h : n < 2 ^ 32) (rest : Bytes) : takeLength (toBeBytes n ++ rest) = some (n, rest) := by
  rw [takeLength, takeCount_append (length_toBeBytes n), map_some, fromBeBytes_toBeBytes h]

lemma incremental_takeLength : Incremental takeLength := (incremental_takeCount 4).map fromBeBytes

lemma incremental_takeFrame : Incremental takeFrame := incremental_takeLength.andThen incremental_takeCount

lemma takeFrame_append (h : bytes.length < 2 ^ 32) (rest : Bytes) : takeFrame (frame bytes ++ rest) = some (bytes, rest) := by
  rw [takeFrame, FragmentStream.andThen, frame, append_assoc, takeLength_append h, bind_some]
  exact takeCount_append rfl rest

variable {s : FragmentStream UInt8}

lemma drainPayload_ok (what : String) (hs : s.Proper) (h : bytes.length < 2 ^ 32) (hcontent : s.content = frame bytes ++ rest) :
    ∃ s', drainPayload what s = .ok (bytes, s') ∧ s'.content = rest ∧ s'.Proper := by
  rw [frame, append_assoc] at hcontent
  obtain ⟨t, ht, htcontent, htproper⟩ := await_ok incremental_takeLength hs (hcontent ▸ takeLength_append h (bytes ++ rest))
  obtain ⟨u, hu, hucontent, huproper⟩ :=
    await_ok (incremental_takeCount bytes.length) htproper (htcontent ▸ takeCount_append rfl rest)
  refine ⟨u, ?_, hucontent, huproper⟩
  rw [drainPayload, ht]
  dsimp only
  rw [hu]

lemma drainPayload_of_empty (what : String) (hs : s.Proper) (hcontent : s.content = []) :
    drainPayload what s = .error ("Connection closed reading " ++ what ++ " length") := by
  have hnone : takeLength s.content = none := by rw [hcontent]; rfl
  rw [drainPayload, await_error incremental_takeLength hs hnone]

lemma fillPatches_patchPayload (patches : Extents) (h : ∀ p ∈ patches, p.2.length < 2 ^ 32) :
    fillPatches (patches.map fun p => (p.1, [])) (patchPayload patches) = .ok patches := by
  induction patches with
  | nil => rfl
  | cons p patches ih =>
    obtain ⟨hp, hpatches⟩ := forall_mem_cons.mp h
    have hpayload : patchPayload (p :: patches) = toBeBytes p.2.length ++ (p.2 ++ patchPayload patches) := by
      rw [patchPayload, flatMap_cons, frame, append_assoc]
      rfl
    rw [map_cons, hpayload, fillPatches, takeLength_append hp]
    dsimp only
    rw [takeCount_append rfl]
    dsimp only
    rw [ih hpatches]
    rfl

lemma length_le_patchPayload {patches : Extents} {p : Nat × Bytes} (hp : p ∈ patches) :
    p.2.length ≤ (patchPayload patches).length := by
  have hmem : (frame p.2).length ≤ (patchPayload patches).length := by
    rw [patchPayload, flatMap_def]
    exact (sublist_flatten_of_mem (mem_map_of_mem (f := fun p : Nat × Bytes => frame p.2) hp)).length_le
  rw [frame, length_append] at hmem
  omega

/-! ## One message -/

lemma readMessage_frame (hs : s.Proper) (h : (codec.toBytes e).length < 2 ^ 32)
    (hcontent : s.content = frame (codec.toBytes e) ++ rest) :
    ∃ s', readMessage codec s = (readPayload { e with message := e.message.serialized } s').map some ∧
      s'.content = rest ∧ s'.Proper := by
  obtain ⟨t, ht, htcontent, htproper⟩ := await_ok incremental_takeFrame hs (hcontent ▸ takeFrame_append h rest)
  refine ⟨t, ?_, htcontent, htproper⟩
  rw [readMessage, ht]
  dsimp only
  rw [codec.fromBytes_toBytes]

lemma readMessage_of_empty (hs : s.Proper) (hcontent : s.content = []) : readMessage codec s = .ok none := by
  have hnone : takeFrame s.content = none := by rw [hcontent]; rfl
  rw [readMessage, await_error incremental_takeFrame hs hnone, hcontent]
  rfl

variable (requestId : Nat) (patches : Extents)

lemma readPayload_request (h : ¬ r.LooksSplit) (s : FragmentStream UInt8) :
    readPayload ⟨requestId, .request r⟩ s = .ok (⟨requestId, .request r⟩, s) := by
  cases r with
  | writeFileLocalOnly data fields => exact if_neg (by simpa [Request.LooksSplit] using h)
  | multiPatch patches fields =>
    apply if_neg
    rw [Bool.and_eq_true, not_and]
    intro hsome hall
    refine h ⟨by simpa using hsome, fun p hp => ?_⟩
    exact isEmpty_iff.mp (all_eq_true.mp hall p hp)
  | other fields => rfl

lemma readPayload_looksSplit (h : r.LooksSplit) (hs : s.Proper) (hcontent : s.content = []) :
    ∃ msg, readPayload ⟨requestId, .request r⟩ s = .error msg := by
  cases r with
  | writeFileLocalOnly data fields =>
    refine ⟨"Connection closed reading write payload length", ?_⟩
    rw [readPayload]
    dsimp only
    rw [if_pos (isEmpty_iff.mpr h), drainPayload_of_empty _ hs hcontent]
    rfl
  | multiPatch patches fields =>
    refine ⟨"Connection closed reading MultiPatch payload length", ?_⟩
    have hsplit : (!patches.isEmpty && patches.all fun p => p.2.isEmpty) = true := by
      rw [Bool.and_eq_true]
      refine ⟨by simpa using h.1, all_eq_true.mpr fun p hp => isEmpty_iff.mpr (h.2 p hp)⟩
    rw [readPayload]
    dsimp only
    rw [if_pos hsplit, drainPayload_of_empty _ hs hcontent]
    rfl
  | other fields => exact h.elim

lemma readMessage_ordinary (hs : s.Proper)
    (hread : ∀ t : FragmentStream UInt8, readPayload { e with message := e.message.serialized } t = .ok (e, t))
    (h : (codec.toBytes e).length < 2 ^ 32) (hcontent : s.content = frame (codec.toBytes e) ++ rest) :
    ∃ s', readMessage codec s = .ok (some (e, s')) ∧ s'.content = rest ∧ s'.Proper := by
  obtain ⟨t, ht, htcontent, htproper⟩ := readMessage_frame hs h hcontent
  refine ⟨t, ?_, htcontent, htproper⟩
  rw [ht, hread]
  rfl

lemma readMessage_split (hs : s.Proper) {stub : MessageEnvelope F} {payload : Bytes} (what : String)
    (hread : ∀ t u : FragmentStream UInt8, drainPayload what t = .ok (payload, u) →
    readPayload { stub with message := stub.message.serialized } t = .ok (e, u))
    (h : (codec.toBytes stub).length < 2 ^ 32) (hpayload : payload.length < 2 ^ 32)
    (hcontent : s.content = frame (codec.toBytes stub) ++ frame payload ++ rest) :
    ∃ s', readMessage codec s = .ok (some (e, s')) ∧ s'.content = rest ∧ s'.Proper := by
  rw [append_assoc] at hcontent
  obtain ⟨t, ht, htcontent, htproper⟩ := readMessage_frame hs h hcontent
  obtain ⟨u, hu, hucontent, huproper⟩ := drainPayload_ok what htproper hpayload htcontent
  refine ⟨u, ?_, hucontent, huproper⟩
  rw [ht, hread t u hu]
  rfl

lemma readMessage_sent (hclear : m.Clear) (hfits : m.Fits codec) (hs : s.Proper) (hcontent : s.content = m.bytes codec ++ rest) :
    ∃ s', readMessage codec s = .ok (some (m.envelope, s')) ∧ s'.content = rest ∧ s'.Proper := by
  cases m with
  | written e =>
    obtain ⟨requestId, message⟩ := e
    cases message with
    | request r => exact readMessage_ordinary hs (readPayload_request requestId hclear) (hfits _ mem_cons_self) hcontent
    | response r =>
      cases r with
      | chunkData data fields arcData arcRange =>
        refine readMessage_split hs "chunk payload" (fun t u hdrain => ?_) (hfits _ mem_cons_self)
          (hfits _ (mem_cons_of_mem _ mem_cons_self)) hcontent
        simp only [readPayload, Message.serialized, isEmpty_nil, if_true, hdrain]
        rfl
      | other fields => exact readMessage_ordinary hs (fun _ => rfl) (hfits _ mem_cons_self) hcontent
    | cluster fields => exact readMessage_ordinary hs (fun _ => rfl) (hfits _ mem_cons_self) hcontent
  | framed requestId r =>
    exact readMessage_ordinary hs (readPayload_request requestId hclear) (hfits _ mem_cons_self) hcontent
  | splitWrite requestId data fields =>
    refine readMessage_split hs "write payload" (fun t u hdrain => ?_) (hfits _ mem_cons_self)
      (hfits _ (mem_cons_of_mem _ mem_cons_self)) hcontent
    simp only [readPayload, Message.serialized, isEmpty_nil, if_true, hdrain]
    rfl
  | splitPatch requestId patches fields =>
    have hpayload : (patchPayload patches).length < 2 ^ 32 := hfits _ (mem_cons_of_mem _ mem_cons_self)
    refine readMessage_split hs "MultiPatch payload" (fun t u hdrain => ?_) (hfits _ mem_cons_self) hpayload hcontent
    have hsplit : (!(patches.map fun p => (p.1, ([] : Bytes))).isEmpty &&
        (patches.map fun p => (p.1, ([] : Bytes))).all fun p => p.2.isEmpty) = true := by
      have hsome : patches ≠ [] := hclear
      simp [hsome]
    have hfill := fillPatches_patchPayload patches fun p hp => Nat.lt_of_le_of_lt (length_le_patchPayload hp) hpayload
    simp only [readPayload, patchStub, Message.serialized, hdrain, hfill]
    rw [if_pos hsplit]
    rfl

/-! ## The connection -/

/-- What is clear is read, and leaves the reader at what follows. -/
theorem reads_clear (hclear : ∀ m ∈ sent, m.Clear) (hfits : ∀ m ∈ sent, m.Fits codec) (hs : s.Proper)
    (hcontent : s.content = sent.flatMap (Sent.bytes codec) ++ rest) :
    ∃ s' : FragmentStream UInt8, s'.Proper ∧ s'.content = rest ∧
      ∀ es, Reads codec s (sent.map Sent.envelope ++ es) ↔ Reads codec s' es := by
  induction sent generalizing s with
  | nil => exact ⟨s, hs, hcontent, fun es => Iff.rfl⟩
  | cons m sent ih =>
    obtain ⟨hm, hsent⟩ := forall_mem_cons.mp hclear
    obtain ⟨hmfits, hsentfits⟩ := forall_mem_cons.mp hfits
    rw [flatMap_cons, append_assoc] at hcontent
    obtain ⟨t, ht, htcontent, htproper⟩ := readMessage_sent hm hmfits hs hcontent
    obtain ⟨s', hs', hcontent', hiff⟩ := ih hsent hsentfits htproper htcontent
    refine ⟨s', hs', hcontent', fun es => Iff.trans ⟨?_, fun hreads => ⟨t, ht, hreads⟩⟩ (hiff es)⟩
    rintro ⟨t', ht', hreads⟩
    obtain ⟨-, rfl⟩ := Prod.mk.inj (some.inj (Except.ok.inj (ht.symm.trans ht')))
    exact hreads

lemma not_looksSplit_of_reads {requestId : Nat} (hs : s.Proper) (h : (codec.toBytes ⟨requestId, .request r⟩).length < 2 ^ 32)
    (hcontent : s.content = frame (codec.toBytes ⟨requestId, .request r⟩)) (hreads : Reads codec s [e]) : ¬ r.LooksSplit := by
  intro hsplit
  have hlast : s.content = frame (codec.toBytes ⟨requestId, .request r⟩) ++ [] := by rw [hcontent, append_nil]
  obtain ⟨t, ht, htcontent, htproper⟩ := readMessage_frame hs h hlast
  obtain ⟨msg, hmsg⟩ := readPayload_looksSplit requestId hsplit htproper htcontent
  obtain ⟨u, hu, -⟩ := hreads
  have herror : readMessage codec s = .error msg := by
    rw [ht]
    show (readPayload ⟨requestId, .request r⟩ t).map some = _
    rw [hmsg]
    rfl
  exact absurd (herror.symm.trans hu) nofun

lemma readMessage_ne_none (hs : s.Proper) (h : bytes.length < 2 ^ 32) (hcontent : s.content = frame bytes) :
    readMessage codec s ≠ .ok none := by
  have hframe : takeFrame s.content = some (bytes, []) := by rw [hcontent, ← takeFrame_append h [], append_nil]
  obtain ⟨t, ht, -, -⟩ := await_ok incremental_takeFrame hs hframe
  rw [readMessage, ht]
  dsimp only
  cases codec.fromBytes bytes with
  | none => nofun
  | some e =>
    dsimp only
    cases readPayload e t with
    | error msg => nofun
    | ok found => nofun

lemma clear_of_reads (hfits : m.Fits codec) (hs : s.Proper) (hcontent : s.content = m.bytes codec)
    (hreads : Reads codec s [m.envelope]) : m.Clear := by
  cases m with
  | written e =>
    obtain ⟨requestId, message⟩ := e
    cases message with
    | request r => exact not_looksSplit_of_reads hs (hfits _ mem_cons_self) hcontent hreads
    | response r => trivial
    | cluster fields => trivial
  | framed requestId r => exact not_looksSplit_of_reads hs (hfits _ mem_cons_self) hcontent hreads
  | splitWrite requestId data fields => trivial
  | splitPatch requestId patches fields =>
    -- without patches the envelope does not announce a payload, and the empty payload is read as a message
    rintro rfl
    obtain ⟨t, ht, htcontent, htproper⟩ := readMessage_frame hs (hfits _ mem_cons_self) hcontent
    obtain ⟨u, hu, hend⟩ := hreads
    obtain ⟨-, rfl⟩ := Prod.mk.inj (some.inj (Except.ok.inj (ht.symm.trans hu)))
    exact readMessage_ne_none htproper (by decide) htcontent hend

lemma exists_fragments (bytes : Bytes) : ∃ fragments : List Bytes, (∀ fragment ∈ fragments, fragment ≠ []) ∧
    fragments.flatten = bytes := by
  by_cases h : bytes = []
  · exact ⟨[], nofun, by rw [h, flatten_nil]⟩
  refine ⟨[bytes], ?_, by rw [flatten_singleton]⟩
  intro fragment hfragment
  rw [List.mem_singleton.mp hfragment]
  exact h

/-- However the bytes are cut and whenever the connection ends, the messages are read back exactly if no request in an
ordinary frame looks split and no split `MultiPatch` is empty. -/
theorem framing_exact (codec : EnvelopeCodec F) (sent : List (Sent F)) (hfits : ∀ m ∈ sent, m.Fits codec) :
    (∀ (k : Nat) (fragments : List Bytes), (∀ fragment ∈ fragments, fragment ≠ []) →
        fragments.flatten = (sent.take k).flatMap (Sent.bytes codec) →
        Reads codec ⟨[], fragments⟩ ((sent.take k).map Sent.envelope)) ↔
      ∀ m ∈ sent, m.Clear := by
  constructor
  · intro hreads
    -- each message is told apart if those before it are, by the connection that ends after it
    have hprefixes : ∀ k, ∀ m ∈ sent.take k, m.Clear := by
      intro k
      induction k with
      | zero => simp
      | succ k ih =>
        intro m hm
        rw [take_add_one] at hm
        rcases mem_append.mp hm with hm | hm
        · exact ih m hm
        have hk : sent[k]? = some m := mem_toList.mp hm
        have htake : sent.take (k + 1) = sent.take k ++ [m] := by rw [take_add_one, hk, toList_some]
        have hmfits : m.Fits codec := hfits m (mem_of_getElem? hk)
        have hbefore : ∀ m ∈ sent.take k, m.Fits codec := fun m hm => hfits m (mem_of_mem_take hm)
        obtain ⟨fragments, hproper, hflatten⟩ := exists_fragments ((sent.take (k + 1)).flatMap (Sent.bytes codec))
        have hread := hreads (k + 1) fragments hproper hflatten
        rw [htake, map_append] at hread
        rw [htake, flatMap_append] at hflatten
        obtain ⟨t, htproper, htcontent, hiff⟩ := reads_clear ih hbefore (s := ⟨[], fragments⟩) hproper hflatten
        rw [flatMap_singleton] at htcontent
        exact clear_of_reads hmfits htproper htcontent ((hiff _).mp hread)
    intro m hm
    have hall := hprefixes sent.length m
    rw [take_length] at hall
    exact hall hm
  · intro hclear k fragments hproper hflatten
    obtain ⟨t, htproper, htcontent, hiff⟩ := reads_clear (fun m hm => hclear m (mem_of_mem_take hm))
      (fun m hm => hfits m (mem_of_mem_take hm)) (s := ⟨[], fragments⟩) hproper (hflatten.trans (append_nil _).symm)
    exact append_nil (map _ _) ▸ (hiff []).mpr (readMessage_of_empty htproper htcontent)

/-! ## A codec -/

def unary (n : Nat) : Bytes := List.replicate n 1 ++ [0]

def readUnary : Bytes → Option (Nat × Bytes)
  | [] => none
  | b :: rest => if b = 0 then some (0, rest) else (readUnary rest).map fun found => (found.1 + 1, found.2)

lemma readUnary_append (n : Nat) (rest : Bytes) : readUnary (unary n ++ rest) = some (n, rest) := by
  induction n with
  | zero => rfl
  | succ n ih =>
    rw [unary, replicate_succ, cons_append, cons_append, readUnary, if_neg (by decide)]
    rw [unary] at ih
    rw [ih]
    rfl

def patchBytes (p : Nat × Bytes) : Bytes := unary p.1 ++ (unary p.2.length ++ p.2)

def readPatches : Nat → Bytes → Option Extents
  | 0, _ => some []
  | n + 1, bytes =>
    (readUnary bytes).bind fun offset => (readUnary offset.2).bind fun len =>
      (readPatches n (len.2.drop len.1)).map fun patches => (offset.1, len.2.take len.1) :: patches

lemma readPatches_flatMap : readPatches patches.length (patches.flatMap patchBytes) = some patches := by
  induction patches with
  | nil => rfl
  | cons p patches ih =>
    rw [length_cons, readPatches, flatMap_cons, patchBytes, append_assoc, readUnary_append, bind_some,
      append_assoc, readUnary_append, bind_some, drop_left, take_left, ih]
    rfl

/-- Its number, its kind and its data; the other fields are empty. -/
def plainBytes (e : MessageEnvelope Unit) : Bytes :=
  unary e.requestId ++
    match e.message with
    | .request (.writeFileLocalOnly data _) => unary 0 ++ data
    | .request (.multiPatch patches _) => unary 1 ++ (unary patches.length ++ patches.flatMap patchBytes)
    | .request (.other _) => unary 2
    | .response (.chunkData data _ _ _) => unary 3 ++ data
    | .response (.other _) => unary 4
    | .cluster _ => unary 5

def plainMessage (kind : Nat) (body : Bytes) : Option (Message Unit) :=
  match kind with
  | 0 => some (.request (.writeFileLocalOnly body ()))
  | 1 => (readUnary body).bind fun n => (readPatches n.1 n.2).map fun patches => .request (.multiPatch patches ())
  | 2 => some (.request (.other ()))
  | 3 => some (.response (.chunkData body () none none))
  | 4 => some (.response (.other ()))
  | 5 => some (.cluster ())
  | _ => none

def readPlain (bytes : Bytes) : Option (MessageEnvelope Unit) :=
  (readUnary bytes).bind fun id => (readUnary id.2).bind fun kind => (plainMessage kind.1 kind.2).map fun m => ⟨id.1, m⟩

lemma readPlain_plainBytes (e : MessageEnvelope Unit) :
    readPlain (plainBytes e) = some { e with message := e.message.serialized } := by
  obtain ⟨requestId, message⟩ := e
  rw [readPlain, plainBytes, readUnary_append, bind_some]
  have hkind : ∀ n, readUnary (unary n) = some (n, []) := fun n => by rw [← readUnary_append n [], append_nil]
  rcases message with (⟨data, fields⟩ | ⟨patches, fields⟩ | fields) | (⟨data, fields, arcData, arcRange⟩ | fields) | fields
  · simp only [readUnary_append, bind_some]
    rfl
  · simp only [readUnary_append, bind_some, plainMessage, readPatches_flatMap]
    rfl
  · simp only [hkind, bind_some]
    rfl
  · simp only [readUnary_append, bind_some]
    rfl
  · simp only [hkind, bind_some]
    rfl
  simp only [hkind, bind_some]
  rfl

def plainCodec : EnvelopeCodec Unit := ⟨plainBytes, readPlain, readPlain_plainBytes⟩

def plainSession : List (Sent Unit) :=
  [.written ⟨1, .response (.chunkData [] () (some [7, 8, 9]) (some (1, 3)))⟩, .splitWrite 2 [] (), .framed 3 (.other ())]

theorem framing_exact_bytewise : Reads plainCodec ⟨[], (plainSession.flatMap (Sent.bytes plainCodec)).map fun b => [b]⟩
      [⟨1, .response (.chunkData [8, 9] () none none)⟩, ⟨2, .request (.writeFileLocalOnly [] ())⟩,
        ⟨3, .request (.other ())⟩] := by
  have hfits : ∀ m ∈ plainSession, m.Fits plainCodec := by decide
  have hclear : ∀ m ∈ plainSession, m.Clear :=
    forall_mem_cons.mpr ⟨trivial, forall_mem_cons.mpr ⟨trivial, forall_mem_singleton.mpr id⟩⟩
  exact (framing_exact plainCodec plainSession hfits).mpr hclear 3 _ (by decide) (by decide)

def emptyWrite : List (Sent Unit) := [.framed 1 (.writeFileLocalOnly [] ()), .framed 2 (.other ())]

theorem empty_write_misread : readMessage plainCodec ⟨[], [emptyWrite.flatMap (Sent.bytes plainCodec)]⟩ =
        .ok (some (⟨1, .request (.writeFileLocalOnly (plainBytes ⟨2, .request (.other ())⟩) ())⟩, ⟨[], []⟩)) ∧
      ¬ Reads plainCodec ⟨[], [emptyWrite.flatMap (Sent.bytes plainCodec)]⟩ (emptyWrite.map Sent.envelope) := by
  have hread : readMessage plainCodec ⟨[], [emptyWrite.flatMap (Sent.bytes plainCodec)]⟩ =
      .ok (some (⟨1, .request (.writeFileLocalOnly (plainBytes ⟨2, .request (.other ())⟩) ())⟩, ⟨[], []⟩)) := rfl
  refine ⟨hread, ?_⟩
  rintro ⟨s, hs, -⟩
  have hsame := Prod.mk.inj (some.inj (Except.ok.inj (hread.symm.trans hs)))
  exact absurd hsame.1 (by decide)

end Dfs
