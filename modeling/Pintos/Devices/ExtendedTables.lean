import Pintos.Devices.PartitionWalks

/-! Nested partition tables: the scan reads the master boot record in place of each of them. -/

namespace Pintos.Devices

open Pintos.Foundation Pintos.Kernel Pintos.Filesys Pintos.Host

def masterEntries (disk : Memory) : List (List Byte) := tableEntries (sectorAt disk 0)

def extendedOffsets (disk : Memory) : List Nat :=
  ((masterEntries disk).filter fun e => ¬ Unused e ∧ Extended e).map entryOffset

lemma mem_extendedOffsets {disk : Memory} {o : Nat} :
    o ∈ extendedOffsets disk ↔ ∃ e ∈ masterEntries disk, ¬ Unused e ∧ Extended e ∧ entryOffset e = o := by
  simp only [extendedOffsets, List.mem_map, List.mem_filter, decide_eq_true_eq, and_assoc]

section Options

variable {α β : Type} {f g : α → Option β} {xs : List α}

lemma mapM_eq_none_of_mem {x : α} (hx : x ∈ xs) (h : f x = none) : xs.mapM f = none := by
  induction xs with
  | nil => cases hx
  | cons y xs ih =>
    rw [List.mapM_cons]
    rcases List.mem_cons.mp hx with rfl | hx
    · rw [h]
      rfl
    · rw [ih hx]
      cases f y <;> rfl

lemma mapM_eq_some_map {k : α → β} (h : ∀ x ∈ xs, f x = some (k x)) : xs.mapM f = some (xs.map k) := by
  induction xs with
  | nil => rfl
  | cons x xs ih =>
    rw [List.mapM_cons, h x List.mem_cons_self, ih fun y hy => h y (List.mem_cons_of_mem _ hy)]
    rfl

lemma mapM_eq_some_of_le {ys : List β} (h : ∀ x y, f x = some y → g x = some y) (hf : xs.mapM f = some ys) :
    xs.mapM g = some ys := by
  induction xs generalizing ys with
  | nil => exact hf
  | cons x xs ih =>
    simp only [List.mapM_cons, Option.bind_eq_bind, Option.bind_eq_some_iff, Option.pure_def, Option.some.injEq] at hf ⊢
    obtain ⟨y, hy, zs, hzs, rfl⟩ := hf
    exact ⟨y, h x y hy, zs, ih hzs, rfl⟩

end Options

section Depth

variable {disk : Memory} {blockSize fuel primary sector : Nat}

lemma traceTable_past_end (primary : Nat) (h : blockSize ≤ sector) :
    traceTable disk blockSize (fuel + 1) sector primary = some [] := by
  rw [traceTable, if_pos h]

lemma traceTable_succ (primary : Nat) (h : sector < blockSize) (hsig : Signed (sectorAt disk 0)) :
    traceTable disk blockSize (fuel + 1) sector primary = ((masterEntries disk).mapM
      (traceEntry sector primary (traceTable disk blockSize fuel))).map fun ess => .table :: ess.flatten := by
  rw [traceTable, if_neg (by omega), if_neg (not_not.mpr hsig)]
  rfl

lemma traceTable_mono {evs : List Event}
    (h : traceTable disk blockSize fuel sector primary = some evs) :
    traceTable disk blockSize (fuel + 1) sector primary = some evs := by
  induction fuel generalizing sector primary evs with
  | zero => cases h
  | succ fuel ih =>
    rw [traceTable] at h ⊢
    split
    · next hend => rwa [if_pos hend] at h
    · next hend =>
      rw [if_neg hend] at h
      split
      · next hsig => rwa [if_pos hsig] at h
      · next hsig =>
        rw [if_neg hsig] at h
        obtain ⟨ess, hess, rfl⟩ := Option.map_eq_some_iff.mp h
        rw [mapM_eq_some_of_le (fun e evs he => ?_) hess]
        · rfl
        · rw [traceEntry] at he ⊢
          split
          · next hunused => rwa [if_pos hunused] at he
          · next hunused =>
            rw [if_neg hunused] at he
            split
            · next hext =>
              rw [if_pos hext] at he
              exact ih he
            · next hext => rwa [if_neg hext] at he

lemma traceTable_mono_add {evs : List Event} (k : Nat)
    (h : traceTable disk blockSize fuel sector primary = some evs) :
    traceTable disk blockSize (fuel + k) sector primary = some evs := by
  induction k with
  | zero => exact h
  | succ k ih => exact traceTable_mono ih

lemma traceTable_stuck (hsig : Signed (sectorAt disk 0)) {P : Nat → Nat → Prop}
    (hP : ∀ sector primary, P sector primary → sector < blockSize ∧ ∃ e ∈ masterEntries disk, ¬ Unused e ∧ Extended e ∧
      P (nextTable sector primary e).1 (nextTable sector primary e).2)
    (fuel : Nat) (h : P sector primary) :
    traceTable disk blockSize fuel sector primary = none := by
  induction fuel generalizing sector primary with
  | zero => rfl
  | succ fuel ih =>
    obtain ⟨hin, e, he, hused, hext, hnext⟩ := hP sector primary h
    have hnone : traceEntry sector primary (traceTable disk blockSize fuel) e = none := by
      rw [traceEntry, if_neg hused, if_pos hext]
      exact ih hnext
    rw [traceTable_succ primary hin hsig, mapM_eq_none_of_mem he hnone]
    rfl

lemma traceTable_eq_none {o o' : Nat} (hsig : Signed (sectorAt disk 0)) (ho : o ∈ extendedOffsets disk)
    (ho' : o' ∈ extendedOffsets disk) (hin : o < blockSize) (hin' : wrap (o' + o) < blockSize) (fuel : Nat) :
    traceTable disk blockSize fuel 0 0 = none := by
  obtain ⟨e, he, hused, hext, rfl⟩ := mem_extendedOffsets.mp ho
  obtain ⟨e', he', hused', hext', rfl⟩ := mem_extendedOffsets.mp ho'
  refine traceTable_stuck hsig (P := fun sector primary => sector = 0 ∨
    sector = entryOffset e ∧ primary = entryOffset e ∨
    sector = wrap (entryOffset e' + entryOffset e) ∧ primary = entryOffset e) ?_ fuel (.inl rfl)
  intro sector primary hP
  by_cases hzero : sector = 0
  · refine ⟨by omega, e, he, hused, hext, .inr (.inl ?_)⟩
    simp only [nextTable, if_pos hzero, and_self]
  · have hprimary : primary = entryOffset e := by omega
    refine ⟨by omega, e', he', hused', hext', .inr (.inr ?_)⟩
    simp only [nextTable, if_neg hzero, hprimary, and_self]

def ownFounds (disk : Memory) (sector : Nat) : List Found :=
  (masterEntries disk).flatMap fun e => if Unused e ∨ Extended e then [] else [entryFound sector e]

def reread (disk : Memory) (blockSize : Nat) : List Found :=
  (masterEntries disk).flatMap fun e =>
    if Unused e then []
    else if Extended e then if blockSize ≤ entryOffset e then [] else ownFounds disk (entryOffset e)
    else [entryFound 0 e]

def founds (evs : List Event) : List Found :=
  evs.filterMap fun
    | .table => none
    | .found f => some f

lemma founds_append (evs evs' : List Event) : founds (evs ++ evs') = founds evs ++ founds evs' :=
  List.filterMap_append

lemma founds_flatMap (es : List (List Byte)) (k : List Byte → List Event) :
    founds (es.map k).flatten = es.flatMap fun e => founds (k e) := by
  induction es with
  | nil => rfl
  | cons e es ih => rw [List.map_cons, List.flatten_cons, founds_append, ih, List.flatMap_cons]

lemma exists_traceTable (hsig : Signed (sectorAt disk 0)) (hin : sector < blockSize) {r : List Byte → List Found}
    (h : ∀ e ∈ masterEntries disk, ¬ Unused e → Extended e → ∃ evs, traceTable disk blockSize fuel
      (nextTable sector primary e).1 (nextTable sector primary e).2 = some evs ∧ founds evs = r e) :
    ∃ evs, traceTable disk blockSize (fuel + 1) sector primary = some evs ∧ founds evs =
      (masterEntries disk).flatMap fun e =>
        if Unused e then [] else if Extended e then r e else [entryFound sector e] := by
  have hentry : ∀ e ∈ masterEntries disk,
      ∃ evs, traceEntry sector primary (traceTable disk blockSize fuel) e = some evs ∧
        founds evs = if Unused e then [] else if Extended e then r e else [entryFound sector e] := by
    intro e he
    rw [traceEntry]
    by_cases hunused : Unused e
    · exact ⟨[], if_pos hunused, (if_pos hunused).symm⟩
    rw [if_neg hunused, if_neg hunused]
    by_cases hext : Extended e
    · rw [if_pos hext, if_pos hext]
      exact h e he hunused hext
    · rw [if_neg hext, if_neg hext]
      exact ⟨[.found (entryFound sector e)], rfl, rfl⟩
  choose! k hk using hentry
  refine ⟨.table :: ((masterEntries disk).map k).flatten, ?_, ?_⟩
  · rw [traceTable_succ primary hin hsig, mapM_eq_some_map fun e he => (hk e he).1]
    rfl
  · exact (founds_flatMap _ k).trans (List.flatMap_congr fun e he => (hk e he).2)

lemma exists_traceTable_nested (fuel : Nat) {o : Nat} (hsig : Signed (sectorAt disk 0)) (hin : o < blockSize)
    (h : ∀ o' ∈ extendedOffsets disk, blockSize ≤ wrap (o' + o)) (hpos : o ≠ 0) :
    ∃ evs, traceTable disk blockSize (fuel + 2) o o = some evs ∧ founds evs = ownFounds disk o := by
  simp only [ownFounds, ite_or]
  refine exists_traceTable hsig hin fun e he hunused hext => ⟨[], ?_, rfl⟩
  rw [nextTable, if_neg hpos]
  exact traceTable_past_end o (h _ (mem_extendedOffsets.mpr ⟨e, he, hunused, hext, rfl⟩))

lemma exists_traceTable_master (fuel : Nat) (hsig : Signed (sectorAt disk 0)) (hsome : 0 < blockSize)
    (h : ∀ o ∈ extendedOffsets disk, ∀ o' ∈ extendedOffsets disk, o < blockSize → blockSize ≤ wrap (o' + o)) :
    ∃ evs, traceTable disk blockSize (fuel + 3) 0 0 = some evs ∧ founds evs = reread disk blockSize := by
  refine exists_traceTable hsig hsome fun e he hunused hext => ?_
  have ho := mem_extendedOffsets.mpr ⟨e, he, hunused, hext, rfl⟩
  rw [nextTable, if_pos rfl]
  by_cases hend : blockSize ≤ entryOffset e
  · exact ⟨[], traceTable_past_end _ hend, by rw [if_pos hend]; rfl⟩
  · have hall := fun o' ho' => h _ ho o' ho' (by omega)
    have hpos : entryOffset e ≠ 0 := by
      intro hzero
      have hpast := hall _ ho
      rw [hzero] at hpast
      exact absurd hpast (by simp only [wrap]; omega)
    rw [if_neg hend]
    exact exists_traceTable_nested fuel hsig (by omega) hall hpos

end Depth

lemma foundPartition_total (blockSize partType start size : Nat) {s : Scan} (hs : false ∉ s.mallocs) :
    ∃ t, foundPartition blockSize partType start size s = .ok t ∧ false ∉ t.mallocs ∧ t.partNr = s.partNr := by
  obtain ⟨rest, hm, hrest⟩ := malloc_succeeds hs
  obtain ⟨rest', hm', hrest'⟩ := malloc_succeeds hrest
  rw [foundPartition]
  split
  · exact ⟨s, rfl, hs, rfl⟩
  split
  · exact ⟨s, rfl, hs, rfl⟩
  simp only [hm, hm', if_true]
  exact ⟨_, rfl, hrest', rfl⟩

lemma scanClient_total (blockSize : Nat) : (scanClient blockSize).Total fun s => false ∉ s.mallocs where
  table s hs := by
    obtain ⟨rest, hm, hrest⟩ := malloc_succeeds hs
    exact ⟨{ s with mallocs := rest }, by simp only [scanClient, hm, if_true], hrest⟩
  found f s hs := by
    obtain ⟨t, ht, hm, _⟩ :=
      foundPartition_total (s := { s with partNr := s.partNr + 1 }) blockSize f.partType f.start f.size hs
    exact ⟨t, ht, hm⟩

lemma scanClient_step_ne (blockSize : Nat) (s : Scan) (ev : Event) :
    (scanClient blockSize).step s ev ≠ .error none := by
  cases ev with
  | table =>
    simp only [Client.step, scanClient]
    split <;> simp
  | found f =>
    simp only [Client.step, scanClient, foundPartition]
    repeat' split
    all_goals simp

lemma foldlM_ne_error {σ ε α : Type} {f : σ → α → Except ε σ} {e : ε} (h : ∀ s x, f s x ≠ .error e)
    (xs : List α) (s : σ) :
    xs.foldlM f s ≠ .error e := by
  induction xs generalizing s with
  | nil => nofun
  | cons x xs ih =>
    rw [List.foldlM_cons]
    cases hx : f s x with
    | error e' =>
      intro he
      exact h s x (hx.trans he)
    | ok t => exact ih t

theorem partition_scan_ends_iff (disk : Memory) (blockSize : Nat) :
    (∀ mallocs, ∃ fuel, partitionScan disk blockSize fuel mallocs ≠ .error none) ↔
      ¬ Signed (sectorAt disk 0) ∨ ∀ o ∈ extendedOffsets disk, ∀ o' ∈ extendedOffsets disk,
        o < blockSize → blockSize ≤ wrap (o' + o) := by
  simp only [partitionScan, readPartitionTable_eq_walkTable]
  constructor
  · intro hends
    by_contra hbad
    simp only [not_or, not_not, not_forall, not_le] at hbad
    obtain ⟨hsig, o, ho, o', ho', hin, hin'⟩ := hbad
    obtain ⟨fuel, hne⟩ := hends []
    exact hne (walkTable_of_no_trace (scanClient_total blockSize) (traceTable_eq_none hsig ho ho' hin hin' fuel)
      List.not_mem_nil)
  · intro hc mallocs
    have htrace : ∃ fuel evs, traceTable disk blockSize fuel 0 0 = some evs := by
      by_cases hsome : 0 < blockSize
      · by_cases hsig : Signed (sectorAt disk 0)
        · obtain ⟨evs, hevs, _⟩ := exists_traceTable_master 0 hsig hsome (hc.resolve_left (not_not.mpr hsig))
          exact ⟨3, evs, hevs⟩
        · exact ⟨1, [.table], by rw [traceTable, if_neg (by omega), if_pos hsig]⟩
      · exact ⟨1, [], traceTable_past_end 0 (by omega)⟩
    obtain ⟨fuel, evs, hevs⟩ := htrace
    refine ⟨fuel, ?_⟩
    rw [walkTable_of_trace hevs]
    exact foldlM_ne_error (scanClient_step_ne blockSize) _ _

def nestedDisk : Memory := fun a =>
  if a = 450 then 0x05
  else if a = 454 ∨ a = 458 then 1
  else if a = 510 then 0x55
  else if a = 511 then 0xaa
  else 0

theorem partition_scan_of_nested_disk_never_ends :
    ¬ ∃ fuel, partitionScan nestedDisk 4 fuel [] ≠ .error none := by
  rintro ⟨fuel, hends⟩
  apply hends
  have hsig : Signed (sectorAt nestedDisk 0) := by decide +kernel
  have ho : 1 ∈ extendedOffsets nestedDisk := by decide +kernel
  rw [partitionScan, readPartitionTable_eq_walkTable]
  exact walkTable_of_no_trace (scanClient_total 4) (traceTable_eq_none hsig ho ho (by decide) (by decide) fuel)
    List.not_mem_nil

end Pintos.Devices
