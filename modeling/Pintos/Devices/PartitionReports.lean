import Pintos.Devices.ExtendedTables

/-! The calls of `found_partition` that a scan makes, against the partitions that the tables list. -/

namespace Pintos.Devices

open Pintos.Foundation Pintos.Kernel Pintos.Filesys Pintos.Host

structure Logged where
  scan : Scan
  reports : List (Found × Nat)

def loggedClient (blockSize : Nat) : Client Logged where
  table l := do return { l with scan := ← (scanClient blockSize).table l.scan }
  found f l := do
    return ⟨← (scanClient blockSize).found f l.scan, l.reports ++ [(f, l.scan.partNr + 1)]⟩

def loggedScan (disk : Memory) (blockSize fuel : Nat) (mallocs : List Bool) : Except (Option Panic) Logged :=
  walkTable (loggedClient blockSize) disk blockSize fuel 0 0 ⟨⟨mallocs, 0, []⟩, []⟩

/-- The partitions that entries of the table in `sector` list, with those of the tables they lead to:
these are signed and within the device. The derivation is finite, so there is no cycle. -/
inductive Listing (disk : Memory) (blockSize : Nat) : Nat → Nat → List (List Byte) → List Found → Prop
  | nil {sector primary : Nat} : Listing disk blockSize sector primary [] []
  | unused {sector primary : Nat} {e : List Byte} {es : List (List Byte)} {fs : List Found} (he : Unused e)
    (hes : Listing disk blockSize sector primary es fs) : Listing disk blockSize sector primary (e :: es) fs
  | extended {sector primary : Nat} {e : List Byte} {es : List (List Byte)} {fs gs : List Found} (he : ¬ Unused e)
    (hext : Extended e) (hin : (nextTable sector primary e).1 < blockSize)
    (hsig : Signed (sectorAt disk (nextTable sector primary e).1))
    (hnext : Listing disk blockSize (nextTable sector primary e).1 (nextTable sector primary e).2
      (tableEntries (sectorAt disk (nextTable sector primary e).1)) gs)
    (hes : Listing disk blockSize sector primary es fs) : Listing disk blockSize sector primary (e :: es) (gs ++ fs)
  | plain {sector primary : Nat} {e : List Byte} {es : List (List Byte)} {fs : List Found} (he : ¬ Unused e)
    (hext : ¬ Extended e) (hes : Listing disk blockSize sector primary es fs) :
    Listing disk blockSize sector primary (e :: es) (entryFound sector e :: fs)

structure Lists (disk : Memory) (blockSize : Nat) (parts : List Found) : Prop where
  some : 0 < blockSize
  signed : Signed (sectorAt disk 0)
  listing : Listing disk blockSize 0 0 (masterEntries disk) parts

section Reports

variable {disk : Memory} {blockSize : Nat} {parts : List Found}

lemma Lists.offset_lt (h : Lists disk blockSize parts) {o : Nat} (ho : o ∈ extendedOffsets disk) : o < blockSize := by
  obtain ⟨e, he, hused, hext, rfl⟩ := mem_extendedOffsets.mp ho
  have hall : ∀ sector primary es fs, Listing disk blockSize sector primary es fs → sector = 0 → e ∈ es →
      entryOffset e < blockSize := by
    intro sector primary es fs hl hzero hmem
    induction hl with
    | nil => cases hmem
    | unused hun _ ih =>
      rcases List.mem_cons.mp hmem with rfl | hmem
      · exact absurd hun hused
      · exact ih hzero hmem
    | extended _ _ hin _ _ _ _ ih =>
      rcases List.mem_cons.mp hmem with rfl | hmem
      · rwa [nextTable, if_pos hzero] at hin
      · exact ih hzero hmem
    | plain _ hplain _ ih =>
      rcases List.mem_cons.mp hmem with rfl | hmem
      · exact absurd hext hplain
      · exact ih hzero hmem
  exact hall _ _ _ _ h.listing rfl he

def mastersOnly (disk : Memory) : List Found :=
  (masterEntries disk).flatMap fun e =>
    if Unused e then [] else if Extended e then ownFounds disk (entryOffset e) else [entryFound 0 e]

lemma Lists.reread_eq (h : Lists disk blockSize parts) : reread disk blockSize = mastersOnly disk := by
  refine List.flatMap_congr fun e he => ?_
  by_cases hunused : Unused e
  · rw [if_pos hunused, if_pos hunused]
  by_cases hext : Extended e
  · have hin := h.offset_lt (mem_extendedOffsets.mpr ⟨e, he, hunused, hext, rfl⟩)
    rw [if_neg hunused, if_neg hunused, if_pos hext, if_pos hext, if_neg (by omega)]
  · rw [if_neg hunused, if_neg hunused, if_neg hext, if_neg hext]

lemma loggedClient_total (blockSize : Nat) : (loggedClient blockSize).Total fun l => false ∉ l.scan.mallocs where
  table l hl := by
    obtain ⟨t, ht, hm⟩ := (scanClient_total blockSize).table l.scan hl
    exact ⟨{ l with scan := t }, by simp only [loggedClient, ht, bind_ok, pure_eq_ok], hm⟩
  found f l hl := by
    obtain ⟨t, ht, hm⟩ := (scanClient_total blockSize).found f l.scan hl
    exact ⟨⟨t, l.reports ++ [(f, l.scan.partNr + 1)]⟩, by simp only [loggedClient, ht, bind_ok, pure_eq_ok], hm⟩

lemma loggedClient_run (blockSize : Nat) (evs : List Event) {l : Logged} (hl : false ∉ l.scan.mallocs) :
    ∃ t, evs.foldlM (loggedClient blockSize).step l = .ok t ∧
      evs.foldlM (scanClient blockSize).step l.scan = .ok t.scan ∧
      t.reports = l.reports ++ (founds evs).zipIdx (l.scan.partNr + 1) := by
  induction evs generalizing l with
  | nil => exact ⟨l, rfl, rfl, by simp [founds]⟩
  | cons ev evs ih =>
    cases ev with
    | table =>
      obtain ⟨s, hs, hm⟩ := (scanClient_total blockSize).table l.scan hl
      have hnr : s.partNr = l.scan.partNr := by
        obtain ⟨rest, hrest, _⟩ := malloc_succeeds hl
        simp only [scanClient, hrest, if_true, Except.ok.injEq] at hs
        rw [← hs]
      obtain ⟨t, ht, hscan, hrep⟩ := ih (l := { l with scan := s }) hm
      refine ⟨t, ?_, ?_, ?_⟩
      · simpa only [List.foldlM_cons, Client.step, loggedClient, hs, bind_ok, pure_eq_ok] using ht
      · simpa only [List.foldlM_cons, Client.step, hs, bind_ok] using hscan
      · rw [hrep, hnr]
        rfl
    | found f =>
      obtain ⟨s, hs, hm, hnr⟩ := foundPartition_total
        (s := { l.scan with partNr := l.scan.partNr + 1 }) blockSize f.partType f.start f.size hl
      replace hs : (scanClient blockSize).found f l.scan = .ok s := hs
      obtain ⟨t, ht, hscan, hrep⟩ := ih (l := ⟨s, l.reports ++ [(f, l.scan.partNr + 1)]⟩) hm
      refine ⟨t, ?_, ?_, ?_⟩
      · simpa only [List.foldlM_cons, Client.step, loggedClient, hs, bind_ok, pure_eq_ok] using ht
      · simpa only [List.foldlM_cons, Client.step, hs, bind_ok] using hscan
      · rw [hrep, hnr, List.append_assoc]
        rfl

variable {fuel : Nat}

lemma loggedScan_of_trace {mallocs : List Bool} {evs : List Event} (hm : false ∉ mallocs)
    (hevs : traceTable disk blockSize fuel 0 0 = some evs) :
    ∃ t, loggedScan disk blockSize fuel mallocs = .ok t ∧ partitionScan disk blockSize fuel mallocs = .ok t.scan ∧
      t.reports = (founds evs).zipIdx 1 := by
  obtain ⟨t, ht, hscan, hrep⟩ := loggedClient_run blockSize evs (l := ⟨⟨mallocs, 0, []⟩, []⟩) hm
  refine ⟨t, ?_, ?_, hrep⟩
  · rw [loggedScan, walkTable_of_trace hevs, ht]
  · rw [partitionScan, readPartitionTable_eq_walkTable, walkTable_of_trace hevs, hscan]

lemma exists_trace_of_loggedScan {t : Logged} (h : loggedScan disk blockSize fuel [] = .ok t) :
    ∃ evs, traceTable disk blockSize fuel 0 0 = some evs ∧ t.reports = (founds evs).zipIdx 1 := by
  cases htrace : traceTable disk blockSize fuel 0 0 with
  | none =>
    rw [loggedScan, walkTable_of_no_trace (loggedClient_total blockSize) htrace List.not_mem_nil] at h
    cases h
  | some evs =>
    obtain ⟨t', ht', _, hrep⟩ := loggedScan_of_trace List.not_mem_nil htrace
    cases h.symm.trans ht'
    exact ⟨evs, rfl, hrep⟩

lemma reports_of_loggedScan (hsig : Signed (sectorAt disk 0)) (hsome : 0 < blockSize)
    (hpairs : ∀ o ∈ extendedOffsets disk, ∀ o' ∈ extendedOffsets disk, o < blockSize → blockSize ≤ wrap (o' + o))
    {t : Logged} (h : loggedScan disk blockSize fuel [] = .ok t) :
    t.reports = (reread disk blockSize).zipIdx 1 := by
  obtain ⟨evs, hevs, hrep⟩ := exists_trace_of_loggedScan h
  obtain ⟨evs', hevs', hfounds⟩ := exists_traceTable_master fuel hsig hsome hpairs
  cases (traceTable_mono_add 3 hevs).symm.trans hevs'
  rw [hrep, hfounds]

end Reports

def Reports (disk : Memory) (blockSize : Nat) (parts : List Found) : Prop :=
  ∀ mallocs, false ∉ mallocs → ∃ fuel t, loggedScan disk blockSize fuel mallocs = .ok t ∧
    partitionScan disk blockSize fuel mallocs = .ok t.scan ∧ t.reports = parts.zipIdx 1

theorem partition_scan_reports_iff {disk : Memory} {blockSize : Nat} {parts : List Found}
    (h : Lists disk blockSize parts) :
    Reports disk blockSize parts ↔
      (∀ o ∈ extendedOffsets disk, ∀ o' ∈ extendedOffsets disk, blockSize ≤ wrap (o' + o)) ∧
        parts = mastersOnly disk := by
  rw [← h.reread_eq]
  constructor
  · intro hall
    obtain ⟨fuel, t, ht, _, hrep⟩ := hall [] List.not_mem_nil
    have hpairs : ∀ o ∈ extendedOffsets disk, ∀ o' ∈ extendedOffsets disk, blockSize ≤ wrap (o' + o) := by
      intro o ho o' ho'
      by_contra hlt
      obtain ⟨evs, hevs, _⟩ := exists_trace_of_loggedScan ht
      rw [traceTable_eq_none h.signed ho ho' (h.offset_lt ho) (by omega)] at hevs
      cases hevs
    rw [reports_of_loggedScan h.signed h.some (fun o ho o' ho' _ => hpairs o ho o' ho') ht] at hrep
    have hfst := congrArg (List.map Prod.fst) hrep
    rw [List.zipIdx_map_fst, List.zipIdx_map_fst] at hfst
    exact ⟨hpairs, hfst.symm⟩
  · rintro ⟨hpairs, rfl⟩ mallocs hm
    obtain ⟨evs, hevs, hfounds⟩ :=
      exists_traceTable_master 0 h.signed h.some fun o ho o' ho' _ => hpairs o ho o' ho'
    obtain ⟨t, ht, hscan, hrep⟩ := loggedScan_of_trace hm hevs
    exact ⟨3, t, ht, hscan, by rw [hrep, hfounds]⟩

def shortEntry (type offset size : Byte) : List Byte := [0, 0, 0, 0, type, 0, 0, 0, offset, 0, 0, 0, size, 0, 0, 0]

def plainDisk : Memory := fun a =>
  if a = 450 then 0x21
  else if a = 454 then 1
  else if a = 458 then 2
  else if a = 482 then 0x22
  else if a = 486 then 3
  else if a = 490 then 1
  else if a = 510 then 0x55
  else if a = 511 then 0xaa
  else 0

theorem partition_scan_reports_iff_plain : Lists plainDisk 4 [⟨0x21, 1, 2⟩, ⟨0x22, 3, 1⟩] ∧
    Reports plainDisk 4 [⟨0x21, 1, 2⟩, ⟨0x22, 3, 1⟩] := by
  have hentries : masterEntries plainDisk =
      [shortEntry 0x21 1 2, shortEntry 0 0 0, shortEntry 0x22 3 1, shortEntry 0 0 0] := by decide +kernel
  have hlists : Lists plainDisk 4 [⟨0x21, 1, 2⟩, ⟨0x22, 3, 1⟩] := by
    refine ⟨by decide, by decide +kernel, ?_⟩
    rw [hentries]
    refine .plain (by decide) (by decide) (.unused (by decide) ?_)
    exact .plain (by decide) (by decide) (.unused (by decide) .nil)
  have hnone : extendedOffsets plainDisk = [] := by
    rw [extendedOffsets, hentries]
    decide
  have hsame : [⟨0x21, 1, 2⟩, ⟨0x22, 3, 1⟩] = mastersOnly plainDisk := by
    rw [mastersOnly, hentries]
    decide
  refine ⟨hlists, (partition_scan_reports_iff hlists).mpr ⟨?_, hsame⟩⟩
  rw [hnone]
  simp

def logicalDisk : Memory := fun a =>
  if a = 450 then 0x05
  else if a = 454 then 5
  else if a = 458 then 1
  else if a = 3010 then 0x21
  else if a = 3014 ∨ a = 3018 then 1
  else if a = 510 ∨ a = 3070 then 0x55
  else if a = 511 ∨ a = 3071 then 0xaa
  else 0

theorem logical_partition_not_reported : Lists logicalDisk 8 [⟨0x21, 6, 1⟩] ∧
    (∃ t, loggedScan logicalDisk 8 3 [] = .ok t) ∧
    ∀ fuel t, loggedScan logicalDisk 8 fuel [] = .ok t → t.reports = [] := by
  have hentries : masterEntries logicalDisk =
      [shortEntry 0x05 5 1, shortEntry 0 0 0, shortEntry 0 0 0, shortEntry 0 0 0] := by decide +kernel
  have hnested : tableEntries (sectorAt logicalDisk 5) =
      [shortEntry 0x21 1 1, shortEntry 0 0 0, shortEntry 0 0 0, shortEntry 0 0 0] := by decide +kernel
  have hsig : Signed (sectorAt logicalDisk 0) := by decide +kernel
  have hsig' : Signed (sectorAt logicalDisk 5) := by decide +kernel
  have hnext : nextTable 0 0 (shortEntry 0x05 5 1) = (5, 5) := by decide
  have hoffsets : extendedOffsets logicalDisk = [5] := by
    rw [extendedOffsets, hentries]
    decide
  have hpairs : ∀ o ∈ extendedOffsets logicalDisk, ∀ o' ∈ extendedOffsets logicalDisk, o < 8 → 8 ≤ wrap (o' + o) := by
    rw [hoffsets]
    decide
  have hrest : ∀ sector primary,
      Listing logicalDisk 8 sector primary [shortEntry 0 0 0, shortEntry 0 0 0, shortEntry 0 0 0] [] := fun _ _ =>
    .unused (by decide) (.unused (by decide) (.unused (by decide) .nil))
  have hlogical : Listing logicalDisk 8 5 5 (tableEntries (sectorAt logicalDisk 5)) [⟨0x21, 6, 1⟩] := by
    rw [hnested]
    exact .plain (by decide) (by decide) (hrest 5 5)
  have hlists : Lists logicalDisk 8 [⟨0x21, 6, 1⟩] := by
    refine ⟨by decide, hsig, ?_⟩
    rw [hentries, ← List.append_nil [(⟨0x21, 6, 1⟩ : Found)]]
    refine .extended (e := shortEntry 0x05 5 1) (by decide) (by decide) ?_ ?_ ?_ (hrest 0 0)
    · rw [hnext]
      decide
    · rw [hnext]
      exact hsig'
    · rw [hnext]
      exact hlogical
  have hnone : reread logicalDisk 8 = [] := by
    simp only [reread, ownFounds, hentries]
    decide
  have hm : false ∉ ([] : List Bool) := List.not_mem_nil
  obtain ⟨evs, hevs, _⟩ := exists_traceTable_master 0 hsig (by decide) hpairs
  obtain ⟨t, ht, _⟩ := loggedScan_of_trace hm hevs
  refine ⟨hlists, ⟨t, ht⟩, fun fuel t ht => ?_⟩
  rw [reports_of_loggedScan hsig (by decide) hpairs ht, hnone]
  rfl

end Pintos.Devices
