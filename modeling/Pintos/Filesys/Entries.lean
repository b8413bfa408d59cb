import Pintos.Filesys.Opening

/-! Directory entries: what the searches of the root directory find and what filling a slot leaves. -/

namespace Pintos.Filesys

open Pintos.Foundation Pintos.Kernel

variable {e : List Byte} {name : Name}

lemma length_fill (he : e.length = entrySize)
    (hn : name.val.length ≤ nameMax) (sector : Nat) : (Entry.fill e name sector).length = entrySize := by
  rw [nameMax] at hn
  rw [entrySize] at he ⊢
  simp only [Entry.fill, List.length_append, length_word, List.length_cons, List.length_drop,
    List.length_take, List.length_nil, he]
  omega

lemma entrySector_fill (e : List Byte) (name : Name) {sector : Nat} (h : sector < 4294967296) :
    entrySector (Entry.fill e name sector) = sector := by
  rw [entrySector, Entry.fill, List.append_assoc]
  exact wordOf_word_append h _

lemma entryName_fill (e : List Byte) (name : Name) (sector : Nat) :
    entryName (Entry.fill e name sector) = name.val := by
  rw [entryName, Entry.fill, List.append_assoc, List.drop_left' (length_word _), List.append_assoc,
    List.takeWhile_append_of_pos]
  · simp
  · intro c hc
    have hne : c ≠ 0 := fun h0 => name.property (h0 ▸ hc)
    simpa using hne

lemma entryInUse_fill (he : e.length = entrySize) (hn : name.val.length ≤ nameMax) (sector : Nat) :
    entryInUse (Entry.fill e name sector) = true := by
  have hl := length_fill he hn sector
  rw [Entry.fill, List.length_append] at hl
  have h19 : (word sector ++ (name.val ++ 0 :: (e.take 19).drop (5 + name.val.length))).length = 19 := by
    rw [entrySize] at hl
    simpa using hl
  rw [entryInUse, Entry.fill, List.getD_append_right _ _ _ _ (by omega), h19]
  rfl

lemma length_erase : (Entry.erase e).length = e.length := List.length_set

lemma entryInUse_erase (he : e.length = entrySize) :
    entryInUse (Entry.erase e) = false := by
  rw [entryInUse, Entry.erase, List.getD_eq_getElem _ _ (by rw [List.length_set, he, entrySize]; omega),
    List.getElem_set_self]
  rfl

def Found (e : List Byte) (name : Name) : Prop := entryInUse e = true ∧ name.val = entryName e

instance (e : List Byte) (name : Name) : Decidable (Found e name) := inferInstanceAs (Decidable (_ ∧ _))

@[simp] lemma length_slot (s : Fs) (d : Obj) (k : Nat) : (s.slot d k).length = entrySize :=
  Memory.length_read _ _ _

lemma nameValid_iff : nameValid name = true ↔ name.val ≠ [] ∧ name.val.length ≤ nameMax := by
  simp [nameValid]

def Fs.withSlot (s : Fs) (d : Obj) (k : Nat) (e : List Byte) (ms : List Bool) : Fs :=
  { s with disk := s.disk.write (d.base + entrySize * k) e, mallocs := ms }

lemma slot_withSlot_self (s : Fs) (d : Obj) (k : Nat) {e : List Byte} (he : e.length = entrySize)
    (ms : List Bool) : (s.withSlot d k e ms).slot d k = e :=
  Memory.read_write_of_length _ he

lemma slot_withSlot_of_ne (s : Fs) (d : Obj) {k l : Nat} (hl : l ≠ k) {e : List Byte}
    (he : e.length = entrySize) (ms : List Bool) : (s.withSlot d k e ms).slot d l = s.slot d l := by
  apply Memory.read_write_of_apart
  rw [he, entrySize]
  omega

section Replace

variable {s t : Fs} {d : Obj} {n k : Nat} (hother : ∀ l < n, l ≠ k → t.slot d l = s.slot d l)

include hother

lemma slots_forall {P : List Byte → Prop} (h : ∀ l < n, entryInUse (s.slot d l) = true → P (s.slot d l))
    (hself : entryInUse (t.slot d k) = true → P (t.slot d k)) :
    ∀ l < n, entryInUse (t.slot d l) = true → P (t.slot d l) := by
  intro l hl hu
  by_cases hlk : l = k
  · rw [hlk] at hu ⊢
    exact hself hu
  · rw [hother l hl hlk] at hu ⊢
    exact h l hl hu

lemma slots_exists {P : List Byte → Prop} (hs : ¬ P (s.slot d k)) (ht : ¬ P (t.slot d k)) :
    (∃ l < n, P (t.slot d l)) ↔ ∃ l < n, P (s.slot d l) := by
  constructor
  · rintro ⟨l, hl, hp⟩
    have hlk : l ≠ k := by
      rintro rfl
      exact ht hp
    exact ⟨l, hl, hother l hl hlk ▸ hp⟩
  · rintro ⟨l, hl, hp⟩
    have hlk : l ≠ k := by
      rintro rfl
      exact hs hp
    exact ⟨l, hl, (hother l hl hlk).symm ▸ hp⟩

lemma slots_distinct {α : Type} (f : List Byte → α)
    (h : ∀ l < n, ∀ m < n, entryInUse (s.slot d l) = true → entryInUse (s.slot d m) = true →
      f (s.slot d l) = f (s.slot d m) → l = m)
    (hself : entryInUse (t.slot d k) = true → ∀ l < n, l ≠ k → entryInUse (s.slot d l) = true →
      f (s.slot d l) ≠ f (t.slot d k)) :
    ∀ l < n, ∀ m < n, entryInUse (t.slot d l) = true → entryInUse (t.slot d m) = true →
      f (t.slot d l) = f (t.slot d m) → l = m := by
  intro l hl m hm hul hum he
  by_cases hlk : l = k <;> by_cases hmk : m = k
  · rw [hlk, hmk]
  · rw [hlk] at hul he
    rw [hother m hm hmk] at hum he
    exact (hself hul m hm hmk hum he.symm).elim
  · rw [hmk] at hum he
    rw [hother l hl hlk] at hul he
    exact (hself hum l hl hlk hul he).elim
  · rw [hother l hl hlk] at hul he
    rw [hother m hm hmk] at hum he
    exact h l hl m hm hul hum he

end Replace

end Pintos.Filesys
