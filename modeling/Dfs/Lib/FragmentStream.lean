import Mathlib.Data.List.Basic

/-!
# Streams that come in fragments

A buffer, and the fragments still to come. A reader waits until a parser finds something (`await`); for an
`Incremental` parser that is what it finds in the whole content, however cut.
-/

structure FragmentStream (α : Type*) where
  buffer : List α
  incoming : List (List α)

namespace FragmentStream

open List

variable {α β : Type*}

def content (s : FragmentStream α) : List α := s.buffer ++ s.incoming.flatten

/-- No fragment is empty: an empty one would be the end of the stream. -/
def Proper (s : FragmentStream α) : Prop := ∀ fragment ∈ s.incoming, fragment ≠ []

/-- Read until a parser finds something in the buffer, or give the buffer at the end of the stream. -/
def awaitFrom (p : List α → Option (β × List α)) : List α → List (List α) → Except (List α) (β × FragmentStream α)
  | buffer, [] =>
    match p buffer with
    | some (b, rest) => .ok (b, ⟨rest, []⟩)
    | none => .error buffer
  | buffer, fragment :: incoming =>
    match p buffer with
    | some (b, rest) => .ok (b, ⟨rest, fragment :: incoming⟩)
    | none => if fragment.isEmpty then .error buffer else awaitFrom p (buffer ++ fragment) incoming

def await (p : List α → Option (β × List α)) (s : FragmentStream α) : Except (List α) (β × FragmentStream α) :=
  awaitFrom p s.buffer s.incoming

/-- What a parser finds it finds also if more follows. -/
def Incremental (p : List α → Option (β × List α)) : Prop :=
  ∀ buffer b rest more, p buffer = some (b, rest) → p (buffer ++ more) = some (b, rest ++ more)

variable {p : List α → Option (β × List α)}
  {buffer rest : List α} {incoming : List (List α)} {b : β} {s : FragmentStream α} {γ : Type*}

lemma awaitFrom_ok (hp : Incremental p) (hproper : ∀ fragment ∈ incoming, fragment ≠ [])
    (h : p (buffer ++ incoming.flatten) = some (b, rest)) :
    ∃ s, awaitFrom p buffer incoming = .ok (b, s) ∧ s.content = rest ∧ s.Proper := by
  induction incoming generalizing buffer with
  | nil =>
    rw [flatten_nil, append_nil] at h
    refine ⟨⟨rest, []⟩, ?_, append_nil rest, nofun⟩
    rw [awaitFrom, h]
  | cons fragment incoming ih =>
    obtain ⟨hfragment, hincoming⟩ := forall_mem_cons.mp hproper
    rw [awaitFrom]
    cases hbuffer : p buffer with
    | none =>
      rw [flatten_cons, ← append_assoc] at h
      dsimp only
      rw [if_neg (by simp [hfragment])]
      exact ih hincoming h
    | some found =>
      obtain ⟨b', rest'⟩ := found
      have hwhole := (hp _ _ _ _ hbuffer).symm.trans h
      obtain ⟨rfl, rfl⟩ := Prod.mk.inj (Option.some.inj hwhole)
      exact ⟨⟨rest', fragment :: incoming⟩, rfl, rfl, hproper⟩

lemma awaitFrom_error (hp : Incremental p) (hproper : ∀ fragment ∈ incoming, fragment ≠ [])
    (h : p (buffer ++ incoming.flatten) = none) : awaitFrom p buffer incoming = .error (buffer ++ incoming.flatten) := by
  induction incoming generalizing buffer with
  | nil =>
    rw [flatten_nil, append_nil] at h ⊢
    rw [awaitFrom, h]
  | cons fragment incoming ih =>
    obtain ⟨hfragment, hincoming⟩ := forall_mem_cons.mp hproper
    have hbuffer : p buffer = none := by
      cases hfound : p buffer with
      | none => rfl
      | some found => exact absurd ((hp _ found.1 found.2 _ hfound).symm.trans h) nofun
    rw [awaitFrom, hbuffer]
    dsimp only
    rw [if_neg (by simp [hfragment]), flatten_cons, ← append_assoc]
    rw [flatten_cons, ← append_assoc] at h
    exact ih hincoming h

lemma await_ok (hp : Incremental p) (hs : s.Proper) (h : p s.content = some (b, rest)) :
    ∃ s', s.await p = .ok (b, s') ∧ s'.content = rest ∧ s'.Proper :=
  awaitFrom_ok hp hs h

lemma await_error (hp : Incremental p) (hs : s.Proper) (h : p s.content = none) : s.await p = .error s.content :=
  awaitFrom_error hp hs h

/-! ## Parsers -/

def takeCount (n : Nat) (buffer : List α) : Option (List α × List α) :=
  if n ≤ buffer.length then some (buffer.take n, buffer.drop n) else none

lemma takeCount_append {n : Nat} {l : List α} (h : l.length = n) (rest : List α) : takeCount n (l ++ rest) = some (l, rest) := by
  subst h
  simp [takeCount]

lemma incremental_takeCount (n : Nat) : Incremental (takeCount n : List α → Option (List α × List α)) := by
  intro buffer b rest more h
  unfold takeCount at h
  split at h
  · rename_i hlen
    obtain ⟨rfl, rfl⟩ := Prod.mk.inj (Option.some.inj h)
    have hsplit : buffer ++ more = buffer.take n ++ (buffer.drop n ++ more) := by
      rw [← append_assoc, take_append_drop]
    rw [hsplit]
    exact takeCount_append (length_take_of_le hlen) _
  · cases h

lemma Incremental.map (hp : Incremental p) (f : β → γ) :
    Incremental fun buffer => (p buffer).map fun found => (f found.1, found.2) := by
  intro buffer c rest more h
  obtain ⟨found, hfound, heq⟩ := Option.map_eq_some_iff.mp h
  cases heq
  show (p (buffer ++ more)).map _ = _
  rw [hp buffer found.1 found.2 more hfound]
  rfl

def andThen {γ : Type*} (p : List α → Option (β × List α)) (q : β → List α → Option (γ × List α)) (buffer : List α) :
    Option (γ × List α) :=
  (p buffer).bind fun found => q found.1 found.2

lemma Incremental.andThen {q : β → List α → Option (γ × List α)} (hp : Incremental p) (hq : ∀ b, Incremental (q b)) :
    Incremental (andThen p q) := by
  intro buffer c rest more h
  obtain ⟨found, hfound, hrest⟩ := Option.bind_eq_some_iff.mp h
  rw [FragmentStream.andThen, hp buffer found.1 found.2 more hfound]
  exact hq found.1 found.2 c rest more hrest

end FragmentStream
