import Dfs.Lib.LittleEndian

/-!
# Positional codecs

A codec writes a value as bytes and reads it back from the front of a list of bytes. Codecs are put together from codecs, and each
carries the proof that it reads what it wrote.
-/

structure Codec (α : Type*) where
  enc : α → List UInt8
  dec : List UInt8 → Option (α × List UInt8)
  dec_enc (a : α) (rest : List UInt8) : dec (enc a ++ rest) = some (a, rest)

namespace Codec

variable {α β : Type*} (c : Codec α)

attribute [simp] dec_enc

/-- Bytes after the value are ignored. -/
def read (bs : List UInt8) : Option α := (c.dec bs).map Prod.fst

@[simp] lemma read_enc (a : α) : c.read (c.enc a) = some a := by
  have h := c.dec_enc a []
  rw [List.append_nil] at h
  rw [read, h, Option.map_some]

def byte : Codec UInt8 where
  enc b := [b]
  dec
    | [] => none
    | b :: bs => some (b, bs)
  dec_enc _ _ := rfl

/-- An integer of a fixed width, least significant byte first. -/
def word (w : Nat) : Codec (Fin (256 ^ w)) where
  enc n := LittleEndian.encode w n
  dec bs := if w ≤ bs.length then some (⟨LittleEndian.decode (bs.take w), LittleEndian.decode_take_lt w bs⟩, bs.drop w) else none
  dec_enc n rest := by simp [LittleEndian.decode_encode n.isLt]

def pair (d : Codec β) : Codec (α × β) where
  enc p := c.enc p.1 ++ d.enc p.2
  dec bs := (c.dec bs).bind fun p => (d.dec p.2).map fun q => ((p.1, q.1), q.2)
  dec_enc p rest := by simp

/-- The values of another type, of which a reader may refuse some. -/
def refine (f : α → Option β) (g : β → α) (h : ∀ b, f (g b) = some b) : Codec β where
  enc b := c.enc (g b)
  dec bs := (c.dec bs).bind fun p => (f p.1).map fun b => (b, p.2)
  dec_enc b rest := by simp [h]

/-- A byte says whether there is a value. -/
def option : Codec (Option α) where
  enc
    | none => [0]
    | some a => 1 :: c.enc a
  dec
    | 0 :: bs => some (none, bs)
    | 1 :: bs => (c.dec bs).map fun p => (some p.1, p.2)
    | _ => none
  dec_enc a rest := by cases a <;> simp

def decMany : Nat → List UInt8 → Option (List α × List UInt8)
  | 0, bs => some ([], bs)
  | n + 1, bs => (c.dec bs).bind fun p => (decMany n p.2).map fun q => (p.1 :: q.1, q.2)

@[simp] lemma decMany_flatMap (l : List α) (rest : List UInt8) :
    c.decMany l.length (l.flatMap c.enc ++ rest) = some (l, rest) := by
  induction l with
  | nil => rfl
  | cons a l ih => simp [decMany, ih]

/-- A fixed number of values. -/
def array (n : Nat) : Codec {l : List α // l.length = n} where
  enc l := l.1.flatMap c.enc
  dec bs := (c.decMany n bs).bind fun p => if h : p.1.length = n then some (⟨p.1, h⟩, p.2) else none
  dec_enc l rest := by
    obtain ⟨l, rfl⟩ := l
    simp

/-- The number of values, then the values. -/
def vec : Codec {l : List α // l.length < 256 ^ 8} where
  enc l := (word 8).enc ⟨l.1.length, l.2⟩ ++ l.1.flatMap c.enc
  dec bs := ((word 8).dec bs).bind fun n => (c.decMany n.1 n.2).bind fun p =>
    if h : p.1.length < 256 ^ 8 then some (⟨p.1, h⟩, p.2) else none
  dec_enc l rest := by simpa using l.2

/-- The length of the UTF-8 bytes, then the bytes. -/
def string : Codec {s : String // s.toByteArray.data.toList.length < 256 ^ 8} :=
  byte.vec.refine
    (fun l => (String.fromUTF8? ⟨l.1.toArray⟩).bind fun s => if h : _ then some ⟨s, h⟩ else none)
    (fun s => ⟨s.1.toByteArray.data.toList, s.2⟩)
    (fun s => by
      have hvalid : String.fromUTF8? ⟨s.1.toByteArray.data.toList.toArray⟩ = some s.1 := dif_pos s.1.isValidUTF8
      rw [hvalid, Option.bind_some, dif_pos s.2])

end Codec
