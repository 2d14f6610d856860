import Mathlib.Data.List.Nodup
import Mathlib.Logic.Function.Basic

/-!
# Moving the entries of a map

An entry moved to another key replaces the one there. Moves, none to a key another moves from, take every entry to its
own new key.
-/

namespace Relocate

open List

variable {K V : Type*} [DecidableEq K] (f : K → Option V)

def moveEntry (old new : K) : K → Option V := fun p => if p = new then f old else if p = old then none else f p

def moveEntries (l : List (K × K)) : K → Option V := l.foldl (fun f x => moveEntry f x.1 x.2) f

variable {f}

lemma moveEntry_new (old new : K) : moveEntry f old new new = f old := if_pos rfl

variable {x : K × K} {old new p : K}

lemma moveEntry_old (h : old ≠ new) : moveEntry f old new old = none := by
  simp [moveEntry, h]

lemma moveEntry_of_ne (hnew : p ≠ new) (hold : p ≠ old) : moveEntry f old new p = f p := by
  simp [moveEntry, hnew, hold]

/-- No new key is an old one, and no key occurs twice. -/
structure Apart (l : List (K × K)) : Prop where
  disjoint : ∀ x ∈ l, ∀ y ∈ l, y.2 ≠ x.1
  old : (l.map Prod.fst).Nodup
  new : (l.map Prod.snd).Nodup

variable {l : List (K × K)}

omit [DecidableEq K] in
lemma Apart.tail (h : Apart (x :: l)) : Apart l :=
  ⟨fun y hy z hz => h.disjoint y (.tail _ hy) z (.tail _ hz), (nodup_cons.mp h.old).2, (nodup_cons.mp h.new).2⟩

lemma moveEntries_of_ne (hp : ∀ x ∈ l, p ≠ x.1 ∧ p ≠ x.2) : moveEntries f l p = f p := by
  induction l generalizing f with
  | nil => rfl
  | cons x l ih =>
    have hx := hp x (.head _)
    exact (ih fun y hy => hp y (.tail _ hy)).trans (moveEntry_of_ne hx.2 hx.1)

lemma moveEntries_new (hl : Apart l) (hx : x ∈ l) : moveEntries f l x.2 = f x.1 := by
  induction l generalizing f with
  | nil => cases hx
  | cons y l ih =>
    rcases mem_cons.mp hx with rfl | hxl
    · have hrest : ∀ z ∈ l, x.2 ≠ z.1 ∧ x.2 ≠ z.2 := fun z hz =>
        ⟨hl.disjoint z (.tail _ hz) x (.head _), fun h => (nodup_cons.mp hl.new).1 (h ▸ mem_map_of_mem hz)⟩
      exact (moveEntries_of_ne hrest).trans (moveEntry_new x.1 x.2)
    have hold : x.1 ≠ y.1 := fun h => (nodup_cons.mp hl.old).1 (h ▸ mem_map_of_mem hxl)
    exact (ih hl.tail hxl).trans (moveEntry_of_ne (hl.disjoint x hx y (.head _)).symm hold)

lemma moveEntries_old (hl : Apart l) (hx : x ∈ l) : moveEntries f l x.1 = none := by
  induction l generalizing f with
  | nil => cases hx
  | cons y l ih =>
    rcases mem_cons.mp hx with rfl | hxl
    · have hrest : ∀ z ∈ l, x.1 ≠ z.1 ∧ x.1 ≠ z.2 := fun z hz =>
        ⟨fun h => (nodup_cons.mp hl.old).1 (h ▸ mem_map_of_mem hz), (hl.disjoint x (.head _) z (.tail _ hz)).symm⟩
      exact (moveEntries_of_ne hrest).trans (moveEntry_old (hl.disjoint x (.head _) x (.head _)).symm)
    · exact ih hl.tail hxl

end Relocate
