import Pintos.Devices.Partitions
import Pintos.Foundation.Folds

/-! The walk through the partition tables, apart from what is done with the partitions found. -/

namespace Pintos.Devices

open Pintos.Foundation Pintos.Kernel Pintos.Filesys Pintos.Host

structure Found where
  partType : Nat
  start : Nat
  size : Nat
  deriving DecidableEq, Repr

def entryType (e : List Byte) : Nat := (e.getD 4 0).toNat

def entryOffset (e : List Byte) : Nat := wordOf (e.drop 8)

def entrySize (e : List Byte) : Nat := wordOf (e.drop 12)

def Unused (e : List Byte) : Prop := entrySize e = 0 ∨ entryType e = 0

instance (e : List Byte) : Decidable (Unused e) := inferInstanceAs (Decidable (_ ∨ _))

def Extended (e : List Byte) : Prop :=
  entryType e = 0x05 ∨ entryType e = 0x0f ∨ entryType e = 0x85 ∨ entryType e = 0xc5

instance (e : List Byte) : Decidable (Extended e) := inferInstanceAs (Decidable (_ ∨ _))

def entryFound (sector : Nat) (e : List Byte) : Found := ⟨entryType e, wrap (entryOffset e + sector), entrySize e⟩

def nextTable (sector primaryExtendedSector : Nat) (e : List Byte) : Nat × Nat :=
  if sector = 0 then (entryOffset e, entryOffset e)
  else (wrap (entryOffset e + primaryExtendedSector), primaryExtendedSector)

structure Client (σ : Type) where
  table : σ → Except (Option Panic) σ
  found : Found → σ → Except (Option Panic) σ

section Walk

variable {σ : Type} (c : Client σ) (disk : Memory) (blockSize : Nat)

def walkEntry (sector primaryExtendedSector : Nat) (readTable : Nat → Nat → σ → Except (Option Panic) σ) (s : σ)
    (e : List Byte) : Except (Option Panic) σ :=
  if Unused e then .ok s
  else if Extended e then
    readTable (nextTable sector primaryExtendedSector e).1 (nextTable sector primaryExtendedSector e).2 s
  else c.found (entryFound sector e) s

def walkTable : Nat → Nat → Nat → σ → Except (Option Panic) σ
  | 0, _, _, _ => .error none
  | fuel + 1, sector, primaryExtendedSector, s =>
    if blockSize ≤ sector then .ok s
    else do
      let s ← c.table s
      let pt ← (blockRead disk blockSize 0).mapError some
      if field pt 510 2 ≠ [0x55, 0xaa] then return s
      else (tableEntries pt).foldlM (walkEntry c sector primaryExtendedSector (walkTable fuel)) s

end Walk

def scanClient (blockSize : Nat) : Client Scan where
  table s :=
    let (ok, mallocs) := malloc s.mallocs
    if ok then .ok { s with mallocs } else .error (some .noMemoryForPartitionTable)
  found f s := foundPartition blockSize f.partType f.start f.size { s with partNr := s.partNr + 1 }

lemma scanEntry_eq_walkEntry (blockSize sector primaryExtendedSector : Nat)
    (readTable : Nat → Nat → Scan → Except (Option Panic) Scan) (s : Scan) (e : List Byte) :
    scanEntry blockSize sector primaryExtendedSector readTable s e =
      walkEntry (scanClient blockSize) sector primaryExtendedSector readTable s e := by
  rw [scanEntry, walkEntry]
  refine if_congr Iff.rfl rfl (if_congr Iff.rfl ?_ rfl)
  rw [nextTable]
  split <;> rfl

lemma readPartitionTable_eq_walkTable (disk : Memory) (blockSize fuel sector primaryExtendedSector : Nat) (s : Scan) :
    readPartitionTable disk blockSize fuel sector primaryExtendedSector s =
      walkTable (scanClient blockSize) disk blockSize fuel sector primaryExtendedSector s := by
  induction fuel generalizing sector primaryExtendedSector s with
  | zero => rfl
  | succ fuel ih =>
    have hrec : readPartitionTable disk blockSize fuel = walkTable (scanClient blockSize) disk blockSize fuel := by
      funext sector primary s
      exact ih sector primary s
    have hentry : scanEntry blockSize sector primaryExtendedSector (readPartitionTable disk blockSize fuel) =
        walkEntry (scanClient blockSize) sector primaryExtendedSector
          (walkTable (scanClient blockSize) disk blockSize fuel) := by
      funext s e
      rw [hrec, scanEntry_eq_walkEntry]
    rw [readPartitionTable, walkTable, hentry]
    refine if_congr Iff.rfl rfl ?_
    simp only [scanClient]
    split
    · rw [bind_ok]
      rfl
    · rfl

def sectorAt (disk : Memory) (sector : Nat) : List Byte := disk.read (blockSectorSize * sector) blockSectorSize

def Signed (pt : List Byte) : Prop := field pt 510 2 = [0x55, 0xaa]

instance (pt : List Byte) : Decidable (Signed pt) := inferInstanceAs (Decidable (_ = _))

inductive Event
  | table
  | found (f : Found)

def Client.step {σ : Type} (c : Client σ) (s : σ) : Event → Except (Option Panic) σ
  | .table => c.table s
  | .found f => c.found f s

structure Client.Total {σ : Type} (c : Client σ) (I : σ → Prop) : Prop where
  table : ∀ s, I s → ∃ t, c.table s = .ok t ∧ I t
  found : ∀ f s, I s → ∃ t, c.found f s = .ok t ∧ I t

lemma Client.Total.run {σ : Type} {c : Client σ} {I : σ → Prop} (hc : c.Total I) (evs : List Event) {s : σ}
    (hs : I s) :
    ∃ t, evs.foldlM c.step s = .ok t ∧ I t := by
  refine exists_foldlM (I := fun _ => I) (fun _ ev _ s _ hs => ?_) hs
  cases ev with
  | table => exact hc.table s hs
  | found f => exact hc.found f s hs

def traceEntry (sector primaryExtendedSector : Nat) (readTable : Nat → Nat → Option (List Event)) (e : List Byte) :
    Option (List Event) :=
  if Unused e then some []
  else if Extended e then
    readTable (nextTable sector primaryExtendedSector e).1 (nextTable sector primaryExtendedSector e).2
  else some [.found (entryFound sector e)]

def traceTable (disk : Memory) (blockSize : Nat) : Nat → Nat → Nat → Option (List Event)
  | 0, _, _ => none
  | fuel + 1, sector, primaryExtendedSector =>
    if blockSize ≤ sector then some []
    else if ¬ Signed (sectorAt disk 0) then some [.table]
    else ((tableEntries (sectorAt disk 0)).mapM
      (traceEntry sector primaryExtendedSector (traceTable disk blockSize fuel))).map fun ess => .table :: ess.flatten

section Traces

variable {σ : Type} {c : Client σ} {disk : Memory} {blockSize sector primary fuel : Nat} {s : σ}

lemma walkTable_succ (h : sector < blockSize) :
    walkTable c disk blockSize (fuel + 1) sector primary s = (do
      let s ← c.table s
      if ¬ Signed (sectorAt disk 0) then return s
      else
        (tableEntries (sectorAt disk 0)).foldlM (walkEntry c sector primary (walkTable c disk blockSize fuel)) s) := by
  have hread : blockRead disk blockSize 0 = .ok (sectorAt disk 0) := if_pos (by omega)
  rw [walkTable, if_neg (by omega), hread]
  simp only [Except.mapError, bind_ok]
  exact bind_congr fun t => if_congr Iff.rfl rfl rfl

section Entries

variable {readTable : Nat → Nat → σ → Except (Option Panic) σ} {traceOf : Nat → Nat → Option (List Event)}
  {es : List (List Byte)}

lemma walkEntry_of_trace (h : ∀ sector primary evs s, traceOf sector primary = some evs →
      readTable sector primary s = evs.foldlM c.step s) {e : List Byte} {evs : List Event}
    (he : traceEntry sector primary traceOf e = some evs) :
    walkEntry c sector primary readTable s e = evs.foldlM c.step s := by
  rw [traceEntry] at he
  split at he
  · next hunused =>
    cases he
    exact if_pos hunused
  · next hunused =>
    rw [walkEntry, if_neg hunused]
    split at he
    · next hext =>
      rw [if_pos hext]
      exact h _ _ _ _ he
    · next hext =>
      cases he
      rw [if_neg hext]
      exact (bind_pure (c.found (entryFound sector e) s)).symm

lemma walkEntries_of_trace (h : ∀ sector primary evs s, traceOf sector primary = some evs →
      readTable sector primary s = evs.foldlM c.step s) {ess : List (List Event)}
    (hes : es.mapM (traceEntry sector primary traceOf) = some ess) :
    es.foldlM (walkEntry c sector primary readTable) s = ess.flatten.foldlM c.step s := by
  induction es generalizing s ess with
  | nil =>
    cases hes
    rfl
  | cons e es ih =>
    simp only [List.mapM_cons, Option.bind_eq_bind, Option.bind_eq_some_iff, Option.pure_def, Option.some.injEq] at hes
    obtain ⟨evs, hevs, rest, hrest, rfl⟩ := hes
    rw [List.foldlM_cons, List.flatten_cons, List.foldlM_append, walkEntry_of_trace h hevs]
    exact bind_congr fun t => ih hrest

lemma walkEntries_of_no_trace {I : σ → Prop} (hc : c.Total I)
    (h : ∀ sector primary evs s, traceOf sector primary = some evs →
      readTable sector primary s = evs.foldlM c.step s)
    (hnone : ∀ sector primary s, I s → traceOf sector primary = none → readTable sector primary s = .error none)
    (hes : es.mapM (traceEntry sector primary traceOf) = none) (hs : I s) :
    es.foldlM (walkEntry c sector primary readTable) s = .error none := by
  induction es generalizing s with
  | nil => cases hes
  | cons e es ih =>
    rw [List.foldlM_cons]
    cases he : traceEntry sector primary traceOf e with
    | none =>
      have hstuck : walkEntry c sector primary readTable s e = .error none := by
        rw [traceEntry] at he
        split at he
        · cases he
        next hunused =>
        split at he
        · next hext =>
          rw [walkEntry, if_neg hunused, if_pos hext]
          exact hnone _ _ _ hs he
        · cases he
      rw [hstuck]
      rfl
    | some evs =>
      obtain ⟨t, ht, hI⟩ := hc.run evs hs
      rw [walkEntry_of_trace h he, ht, bind_ok]
      apply ih _ hI
      rw [List.mapM_cons, he] at hes
      cases hrest : es.mapM (traceEntry sector primary traceOf) with
      | none => rfl
      | some ess =>
        rw [hrest] at hes
        cases hes

end Entries

/-- Where the walk ends, it has asked for what its trace lists, in this order. -/
lemma walkTable_of_trace {evs : List Event} (h : traceTable disk blockSize fuel sector primary = some evs) :
    walkTable c disk blockSize fuel sector primary s = evs.foldlM c.step s := by
  induction fuel generalizing sector primary s evs with
  | zero => cases h
  | succ fuel ih =>
    rw [traceTable] at h
    split at h
    · next hend =>
      cases h
      rw [walkTable, if_pos hend]
      rfl
    · rw [walkTable_succ (by omega)]
      split at h
      · next hsig =>
        cases h
        simp only [if_pos hsig, List.foldlM_cons, List.foldlM_nil, Client.step]
      · next hsig =>
        obtain ⟨ess, hess, rfl⟩ := Option.map_eq_some_iff.mp h
        simp only [if_neg hsig, List.foldlM_cons, Client.step]
        exact bind_congr fun t => walkEntries_of_trace (fun _ _ _ _ => ih) hess

lemma walkTable_of_no_trace {I : σ → Prop} (hc : c.Total I)
    (h : traceTable disk blockSize fuel sector primary = none) (hs : I s) :
    walkTable c disk blockSize fuel sector primary s = .error none := by
  induction fuel generalizing sector primary s with
  | zero => rfl
  | succ fuel ih =>
    rw [traceTable] at h
    split at h
    · cases h
    split at h
    · cases h
    next hend hsig =>
    obtain ⟨t, ht, hI⟩ := hc.table s hs
    rw [walkTable_succ (by omega), ht, bind_ok, if_neg hsig]
    exact walkEntries_of_no_trace hc (fun _ _ _ _ => walkTable_of_trace) (fun _ _ _ hs h => ih h hs)
      (Option.map_eq_none_iff.mp h) hI

lemma walkTable_invariant {I : σ → Prop} (htable : ∀ s t, I s → c.table s = .ok t → I t)
    (hfound : ∀ sector e s t, I s → c.found (entryFound sector e) s = .ok t → I t) {t : σ} (hs : I s)
    (h : walkTable c disk blockSize fuel sector primary s = .ok t) : I t := by
  induction fuel generalizing sector primary s t with
  | zero => cases h
  | succ fuel ih =>
    by_cases hend : blockSize ≤ sector
    · rw [walkTable, if_pos hend] at h
      cases h
      exact hs
    · rw [walkTable_succ (by omega)] at h
      obtain ⟨u, hu, hrest⟩ := bind_eq_ok.mp h
      have hI := htable s u hs hu
      split at hrest
      · cases hrest
        exact hI
      · refine foldlM_invariant (fun s e _ t hs ht => ?_) hI hrest
        rw [walkEntry] at ht
        split at ht
        · cases ht
          exact hs
        split at ht
        · exact ih hs ht
        · exact hfound sector e s t hs ht

end Traces

end Pintos.Devices
