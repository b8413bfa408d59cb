import Mathlib.Algebra.Order.Ring.Int
import Mathlib.Logic.Function.Basic
import Pintos.Kernel.Machine

/-! File descriptors of a process. -/

namespace Pintos.Userprog

open Pintos.Kernel Function

def fdSlots : Nat := 2 * 4096 / 4

inductive Outside
  | outside
  deriving DecidableEq

/-- The table's pointer is biased, so that slot `0` is that of descriptor 2. -/
structure Descriptors (F : Type) where
  nextFd : Int
  table : Fin fdSlots → Option F

variable {F : Type}

def Descriptors.initial : Descriptors F where
  nextFd := 2
  table _ := none

def slotOf (fd : Int) : Except Outside (Fin fdSlots) :=
  if h : 2 ≤ fd ∧ fd < 2 + fdSlots then .ok ⟨(fd - 2).toNat, by omega⟩ else .error .outside

def processAddFile (d : Descriptors F) (f : Option F) : Except Outside (Int × Descriptors F) := do
  match f with
  | none => return (-1, d)
  | some f =>
    let slot ← slotOf d.nextFd
    return (d.nextFd, { nextFd := d.nextFd + 1, table := update d.table slot (some f) })

def processGetFile (d : Descriptors F) (fd : Int) : Except Outside (Option F) := do
  if fd ≤ 1 ∨ d.nextFd ≤ fd then return none
  else return d.table (← slotOf fd)

def processCloseFile (d : Descriptors F) (fd : Int) : Except Outside (Option F × Descriptors F) := do
  if fd ≤ 1 ∨ d.nextFd ≤ fd then return (none, d)
  else
    let slot ← slotOf fd
    return (d.table slot, { d with table := update d.table slot none })

inductive FdCall (F : Type)
  /-- `file` is what `filesys_open` returns. -/
  | open (file : Option F)
  | close (fd : Int)

def runFd (d : Descriptors F) : List (FdCall F) → Except Outside (Descriptors F × List Int)
  | [] => return (d, [])
  | .open none :: calls => do
    let (_, d) ← processAddFile d none
    runFd d calls
  | .open (some f) :: calls => do
    let (fd, d) ← processAddFile d (some f)
    let (d, fds) ← runFd d calls
    return (d, fd :: fds)
  | .close fd :: calls => do
    let (_, d) ← processCloseFile d fd
    runFd d calls

def heldAfter (held : Int → Option F) : List (FdCall F) → List Int → Int → Option F
  | [], _ => held
  | .open none :: calls, fds => heldAfter held calls fds
  | .open (some _) :: _, [] => held
  | .open (some f) :: calls, fd :: fds => heldAfter (update held fd (some f)) calls fds
  | .close fd :: calls, fds => heldAfter (update held fd none) calls fds

def FdCall.opens : FdCall F → Bool
  | .open file => file.isSome
  | .close _ => false

structure Tracks (d : Descriptors F) (held : Int → Option F) : Prop where
  low : 2 ≤ d.nextFd
  high : d.nextFd ≤ 2 + fdSlots
  outside : ∀ fd, fd < 2 ∨ d.nextFd ≤ fd → held fd = none
  inside : ∀ i : Fin fdSlots, 2 + i < d.nextFd → held (2 + i) = d.table i

section Steps

variable {d : Descriptors F} {held : Int → Option F} {fd : Int}

lemma slotOf_add (i : Fin fdSlots) : slotOf (2 + i) = .ok i := by
  rw [slotOf, dif_pos (by omega)]
  congr
  omega

lemma exists_slot (h : 2 ≤ fd) (h' : fd < 2 + fdSlots) : ∃ i : Fin fdSlots, fd = 2 + i :=
  ⟨⟨(fd - 2).toNat, by omega⟩, by simp only; omega⟩

lemma slotOf_eq_error (h : 2 + fdSlots ≤ fd) : slotOf fd = .error .outside := dif_neg (by omega)

lemma tracks_initial : Tracks (.initial : Descriptors F) fun _ => none where
  low := by simp [Descriptors.initial]
  high := by simp only [Descriptors.initial]; omega
  outside _ _ := rfl
  inside _ _ := rfl

lemma Tracks.processGetFile_eq (h : Tracks d held) (fd : Int) : processGetFile d fd = .ok (held fd) := by
  have hhigh := h.high
  rw [processGetFile]
  split
  · next hout => rw [h.outside fd (by omega)]; rfl
  · next hin =>
    obtain ⟨i, rfl⟩ := exists_slot (show 2 ≤ fd by omega) (by omega)
    rw [slotOf_add, bind_ok, h.inside i (by omega)]
    rfl

lemma Tracks.processAddFile_eq (h : Tracks d held) (f : F) (hroom : d.nextFd < 2 + fdSlots) :
    ∃ d', processAddFile d (some f) = .ok (d.nextFd, d') ∧ d'.nextFd = d.nextFd + 1 ∧
      Tracks d' (update held d.nextFd (some f)) := by
  obtain ⟨i, hi⟩ := exists_slot h.low hroom
  refine ⟨⟨d.nextFd + 1, update d.table i (some f)⟩, ?_, rfl, ?_⟩
  · have hslot : slotOf d.nextFd = .ok i := by rw [hi, slotOf_add]
    rw [processAddFile, hslot]
    rfl
  · have hlow := h.low
    refine ⟨by simp only; omega, by simp only; omega, fun fd hfd => ?_, fun j hj => ?_⟩
    · simp only at hfd
      rw [update_of_ne (by omega)]
      exact h.outside fd (by omega)
    · simp only at hj ⊢
      rcases eq_or_ne j i with rfl | hne
      · rw [← hi, update_self, update_self]
      · have hval : (j : Nat) ≠ i := fun heq => hne (Fin.ext heq)
        rw [update_of_ne (by omega), update_of_ne hne]
        exact h.inside j (by omega)

lemma Tracks.processCloseFile_eq (h : Tracks d held) (fd : Int) :
    ∃ d', processCloseFile d fd = .ok (held fd, d') ∧ d'.nextFd = d.nextFd ∧ Tracks d' (update held fd none) := by
  have hhigh := h.high
  rw [processCloseFile]
  split
  · next hout =>
    have hnone := h.outside fd (by omega)
    refine ⟨d, by rw [hnone]; rfl, rfl, ?_⟩
    rwa [← hnone, update_eq_self]
  · next hin =>
    obtain ⟨i, rfl⟩ := exists_slot (show 2 ≤ fd by omega) (by omega)
    refine ⟨{ d with table := update d.table i none }, ?_, rfl, h.low, h.high, fun fd hfd => ?_, fun j hj => ?_⟩
    · rw [slotOf_add, bind_ok, h.inside i (by omega)]
      rfl
    · simp only at hfd
      rw [update_of_ne (by omega)]
      exact h.outside fd hfd
    · simp only at hj ⊢
      rcases eq_or_ne j i with rfl | hne
      · rw [update_self, update_self]
      · have hval : (j : Nat) ≠ i := fun heq => hne (Fin.ext heq)
        rw [update_of_ne (by omega), update_of_ne hne]
        exact h.inside j hj

end Steps

section Runs

variable {d : Descriptors F} {held : Int → Option F}

def fdsFrom (fd : Int) : Nat → List Int
  | 0 => []
  | n + 1 => fd :: fdsFrom (fd + 1) n

lemma mem_fdsFrom {fd x : Int} {n : Nat} : x ∈ fdsFrom fd n ↔ fd ≤ x ∧ x < fd + n := by
  induction n generalizing fd with
  | zero => simp [fdsFrom]
  | succ n ih =>
    rw [fdsFrom, List.mem_cons, ih]
    omega

lemma nodup_fdsFrom (fd : Int) (n : Nat) : (fdsFrom fd n).Nodup := by
  induction n generalizing fd with
  | zero => exact List.nodup_nil
  | succ n ih =>
    rw [fdsFrom, List.nodup_cons, mem_fdsFrom]
    exact ⟨by omega, ih (fd + 1)⟩

lemma Tracks.runFd_eq (h : Tracks d held) (calls : List (FdCall F)) :
    (d.nextFd + (calls.filter FdCall.opens).length ≤ 2 + fdSlots ∧
      ∃ d', runFd d calls = .ok (d', fdsFrom d.nextFd (calls.filter FdCall.opens).length) ∧
        Tracks d' (heldAfter held calls (fdsFrom d.nextFd (calls.filter FdCall.opens).length))) ∨
      2 + fdSlots < d.nextFd + (calls.filter FdCall.opens).length ∧ runFd d calls = .error .outside := by
  induction calls generalizing d held with
  | nil => exact .inl ⟨by simpa using h.high, d, rfl, h⟩
  | cons call calls ih =>
    match call with
    | .open none => exact ih h
    | .open (some f) =>
      rw [List.filter_cons_of_pos rfl, List.length_cons]
      rcases lt_or_ge d.nextFd (2 + fdSlots) with hlt | hge
      · obtain ⟨d₁, hadd, hnext, h₁⟩ := h.processAddFile_eq f hlt
        rw [runFd, hadd, bind_ok]
        rcases ih h₁ with ⟨hroom, d', hrun, h'⟩ | ⟨hroom, hrun⟩
        · rw [hnext] at hrun h'
          refine .inl ⟨by omega, d', ?_, h'⟩
          simp only [hrun, bind_ok]
          rfl
        · refine .inr ⟨by omega, ?_⟩
          simp only [hrun, bind_error]
      · refine .inr ⟨by omega, ?_⟩
        rw [runFd, processAddFile]
        simp only [slotOf_eq_error hge, bind_error]
    | .close fd =>
      rw [List.filter_cons_of_neg Bool.false_ne_true]
      obtain ⟨d₁, hclose, hnext, h₁⟩ := h.processCloseFile_eq fd
      rw [runFd, hclose, bind_ok, ← hnext]
      exact ih h₁

end Runs

theorem descriptors_iff (calls : List (FdCall F)) :
    (∃ d fds, runFd .initial calls = .ok (d, fds) ∧ fds.Nodup ∧ (∀ fd ∈ fds, 2 ≤ fd) ∧
      ∀ fd, processGetFile d fd = .ok (heldAfter (fun _ => none) calls fds fd)) ↔
      (calls.filter FdCall.opens).length ≤ fdSlots := by
  have hfd : (Descriptors.initial : Descriptors F).nextFd = 2 := rfl
  rcases tracks_initial.runFd_eq calls with ⟨hroom, d, hrun, h⟩ | ⟨hroom, herr⟩
  · refine iff_of_true ⟨d, _, hrun, nodup_fdsFrom _ _, fun fd hfd => (mem_fdsFrom.mp hfd).1, h.processGetFile_eq⟩ ?_
    omega
  · refine iff_of_false (fun hrun => ?_) (by omega)
    obtain ⟨d, fds, hrun, -⟩ := hrun
    cases herr.symm.trans hrun

theorem open_overruns_table :
    runFd (.initial : Descriptors Unit) (List.replicate 2049 (.open (some ()))) = .error .outside := by
  refine ((tracks_initial.runFd_eq _).resolve_left fun h => absurd h.1 ?_).2
  rw [List.filter_replicate_of_pos rfl, List.length_replicate]
  decide

end Pintos.Userprog
