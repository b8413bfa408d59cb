import Pintos.Syscall.FileCalls

/-! When a call on files returns, and what keeps it from returning. -/

namespace Pintos.Syscall

open Pintos.Foundation Pintos.Kernel Pintos.Filesys Pintos.Userprog Function

structure Untouched (k t : Kernel) : Prop where
  fs : t.fs = k.fs
  held : t.held = k.held
  files : t.files = k.files
  page : t.space.page = k.space.page

section Loops

variable {k t : Kernel} {g : Int → Option Nat} {E : Stop → Kernel → Prop}

lemma Untouched.refl (k : Kernel) : Untouched k k := ⟨rfl, rfl, rfl, rfl⟩

lemma Untouched.trans {u : Kernel} (h : Untouched k t) (h' : Untouched t u) : Untouched k u :=
  ⟨h'.fs.trans h.fs, h'.held.trans h.held, h'.files.trans h.files, h'.page.trans h.page⟩

lemma Untouched.sound (h : Untouched k t) (hs : Sound k g) : Sound t g := hs.congr h.fs h.held h.files

lemma Untouched.readable (h : Untouched k t) (r : Range) : t.Readable r ↔ k.Readable r := by
  rw [Kernel.Readable, Kernel.Readable, h.page]

lemma Untouched.writable (h : Untouched k t) (r : Range) : t.Writable r ↔ k.Writable r := by
  simp only [Kernel.Writable, Space.Writable, h.page]

variable {a n : Nat} {Q : Unit → Kernel → Prop}

lemma Kernel.readable_mono {m : Nat} (h : k.Readable ⟨a, m⟩) (hn : n ≤ m) : k.Readable ⟨a, n⟩ :=
  fun i hi => h i (lt_of_lt_of_le hi hn)

lemma Kernel.writable_mono {m : Nat} (h : k.Writable ⟨a, m⟩) (hn : n ≤ m) : k.Writable ⟨a, n⟩ :=
  fun i hi => h i (lt_of_lt_of_le hi hn)

lemma readable_succ : k.Readable ⟨a, n + 1⟩ ↔ k.Readable ⟨a, 1⟩ ∧ k.Readable ⟨a + 1, n⟩ := by
  simp only [Kernel.Readable, forall_offset_succ fun x => k.space.page (pgNo x) ≠ none, Nat.lt_one_iff, forall_eq,
    Nat.add_zero]

lemma writable_succ : k.Writable ⟨a, n + 1⟩ ↔ k.Writable ⟨a, 1⟩ ∧ k.Writable ⟨a + 1, n⟩ := by
  simp only [Kernel.Writable, forall_offset_succ k.space.Writable, Nat.lt_one_iff, forall_eq, Nat.add_zero]

lemma ends_store {va : Nat} {bs : List Byte}
    (hok : k.Writable ⟨va, bs.length⟩ → ∀ t, Untouched k t → Q () t)
    (hfault : ¬ k.Writable ⟨va, bs.length⟩ → ∀ t, E (.panicked .kernelBug) t) : Ends (store va bs) k Q E := by
  simp only [store, ends_bind, ends_modify, ends_get]
  exact Ends.ite (fun h => hok h _ ⟨rfl, rfl, rfl, rfl⟩) fun h => hfault h _

lemma ends_readKeys {buffer count : Nat}
    (hok : k.Writable ⟨buffer, count⟩ → ∀ t, Untouched k t → Q () t)
    (hfault : ¬ k.Writable ⟨buffer, count⟩ → ∀ t, E (.panicked .kernelBug) t) :
    Ends (readKeys buffer count) k Q E := by
  induction count generalizing k buffer with
  | zero => exact hok (fun i hi => absurd hi (Nat.not_lt_zero i)) k (.refl k)
  | succ count ih =>
    rw [writable_succ] at hok hfault
    have hkey : Untouched k { k with keys := fun i => k.keys (i + 1) } := ⟨rfl, rfl, rfl, rfl⟩
    simp only [readKeys, inputGetc, ends_bind, ends_get, ends_set, ends_pure]
    refine ends_store (fun hw t ht => ?_) fun hw => hfault fun hall => hw ((hkey.writable _).mpr hall.1)
    have hkt := hkey.trans ht
    have hw' : k.Writable ⟨buffer, 1⟩ := (hkey.writable _).mp hw
    refine ih (fun hrest u hu => ?_) fun hrest => hfault fun hall => hrest ((hkt.writable _).mpr hall.2)
    exact hok ⟨hw', (hkt.writable _).mp hrest⟩ u (hkt.trans hu)

lemma ends_loadStray {r : Range} {Q : List Byte → Kernel → Prop}
    (hok : k.Readable r → ∀ bs t, Untouched k t → Q bs t)
    (hfault : ¬ k.Readable r → ∀ t, E (.panicked .kernelBug) t) : Ends (loadStray r) k Q E := by
  simp only [loadStray, ends_bind, ends_modify, ends_get]
  exact Ends.ite (fun h => hok h _ _ ⟨rfl, rfl, rfl, rfl⟩) fun h => hfault h _

lemma ends_putbuf_none {i : Nat}
    (hok : k.Readable ⟨i, n⟩ → ∀ t, Untouched k t → Q () t)
    (hfault : ¬ k.Readable ⟨i, n⟩ → ∀ t, E (.panicked .kernelBug) t) : Ends (putbuf none i n) k Q E := by
  induction n generalizing k i with
  | zero => exact hok (fun j hj => absurd hj (Nat.not_lt_zero j)) k (.refl k)
  | succ n ih =>
    rw [readable_succ] at hok hfault
    simp only [putbuf, byteOf, ends_bind, ends_pure, ends_modify]
    refine ends_loadStray (fun hr bs t ht => ?_) fun hr => hfault fun hall => hr hall.1
    have hput : Untouched k { t with console := t.console ++ [bs.getD 0 0] } := ⟨ht.fs, ht.held, ht.files, ht.page⟩
    refine ih (fun hrest u hu => ?_) fun hrest => hfault fun hall => hrest ((hput.readable _).mpr hall.2)
    exact hok ⟨hr, (hput.readable _).mp hrest⟩ u (hput.trans hu)

lemma ends_putbuf_copy {bytes : List Byte} {i : Nat}
    (hok : ∀ t, Untouched k t → Q () t) : Ends (putbuf (some bytes) i n) k Q E := by
  induction n generalizing k i with
  | zero => exact hok k (.refl k)
  | succ n ih =>
    simp only [putbuf, byteOf, ends_bind, ends_pure, ends_modify]
    refine ih fun t ht => hok t ?_
    exact ⟨ht.fs, ht.held, ht.files, ht.page⟩

end Loops

section Transfers

variable {k t : Kernel} {g : Int → Option Nat} {fd : Word}

lemma supply_console (k : Kernel) (hfd : fd.toInt = 0) (size : Word) :
    k.supply fd size = size.toNat := by
  rw [Kernel.supply, if_pos hfd]

lemma Sound.supply_file (h : Sound k g) (hfd : fd.toInt ≠ 0) {f : Nat} (hf : g fd.toInt = some f)
    (size : Word) : k.supply fd size = min size.toInt.toNat (left k.fs f) := by
  rw [Kernel.supply, if_neg hfd, h.tracks.processGetFile_eq, hf]

lemma Sound.runs_read (h : Sound k g) (fd : Word) (buffer : Nat) (size : Word) :
    (FileCall.read fd buffer size).Runs k := by
  simp only [FileCall.Runs, FileCall.run, Syscall.read, ends_bind, ends_pure]
  by_cases hfd : fd.toInt = 0
  · simp only [if_pos hfd, ends_bind, ends_pure]
    refine ends_readKeys (fun _ t ht => ⟨g, ht.sound h⟩) fun hw _ => ⟨?_, rfl⟩
    rwa [supply_console k hfd]
  · simp only [if_neg hfd, ends_bind]
    rw [ends_getFile h]
    cases hf : g fd.toInt with
    | none => exact ⟨g, h⟩
    | some f =>
      obtain ⟨bs, s, hrun, hgood, hle, _⟩ := good_read h.good (h.held _ f hf) size.toInt
      simp only [ends_bind, ends_pure]
      rw [ends_onFs hrun]
      refine ends_store (fun _ t ht => ⟨g, ht.sound ⟨hgood, h.tracks, h.held, h.inj⟩⟩) fun hw _ => ⟨fun hall => ?_, rfl⟩
      rw [h.supply_file hfd hf] at hall
      exact hw (k.writable_mono hall hle)

lemma demand_console (k : Kernel) (hfd : fd.toInt = 1) (size : Word) :
    k.demand fd size = size.toNat := by
  rw [Kernel.demand, if_pos hfd]

lemma Sound.demand_file (h : Sound k g) (hfd : fd.toInt ≠ 1) {f : Nat} (hf : g fd.toInt = some f)
    (size : Word) : k.demand fd size = min size.toInt.toNat (room k.fs f) := by
  rw [Kernel.demand, if_neg hfd, h.tracks.processGetFile_eq, hf]

lemma copies_console (k : Kernel) (hfd : fd.toInt = 1) (size : Word) : k.copies fd size = false := by
  rw [Kernel.copies, if_pos hfd]

lemma Sound.copies_file (h : Sound k g) (hfd : fd.toInt ≠ 1) {f : Nat} (hf : g fd.toInt = some f) (size : Word) :
    k.copies fd size = !startsWhole k.fs f size.toInt.toNat := by
  rw [Kernel.copies, if_neg hfd, h.tracks.processGetFile_eq, hf]

lemma toInt_le_toNat (w : Word) : w.toInt ≤ (w.toNat : Int) := by
  rw [BitVec.toInt_eq_toNat_cond]
  split <;> omega

lemma Sound.runs_write (h : Sound k g) (fd : Word) (buffer : Option (List Byte)) (size : Word) :
    (FileCall.write fd buffer size).Runs k := by
  simp only [FileCall.Runs, FileCall.run, Syscall.write, ends_bind, ends_pure]
  by_cases hfd : fd.toInt = 1
  · simp only [if_pos hfd, ends_bind, ends_pure]
    cases buffer with
    | none =>
      refine ends_putbuf_none (fun _ t ht => ⟨g, ht.sound h⟩) fun hr _ => ⟨rfl, ?_⟩
      rw [copies_console k hfd, demand_console k hfd]
      exact ⟨hr, rfl⟩
    | some bytes => exact ends_putbuf_copy fun t ht => ⟨g, ht.sound h⟩
  · simp only [if_neg hfd, ends_bind]
    rw [ends_getFile h]
    cases hf : g fd.toInt with
    | none => exact ⟨g, h⟩
    | some f =>
      simp only [ends_bind, ends_pure]
      cases buffer with
      | some bytes =>
        obtain ⟨n, s, hrun, hgood, _⟩ := good_write h.good (h.held _ f hf) bytes size.toInt
        rw [writeFile, ends_onFs hrun]
        exact ⟨g, hgood, h.tracks, h.held, h.inj⟩
      | none =>
        obtain ⟨n, s, hrun, hgood, hle⟩ :=
          good_write h.good (h.held _ f hf) (k.space.bytes.read 0 size.toNat) size.toInt
        rw [Memory.length_read] at hle
        have hn := (hle (toInt_le_toNat size)).1
        rw [← h.demand_file hfd hf] at hn
        simp only [writeFile, assertSys, ends_bind, ends_get, hrun, ends_modify, ends_pure]
        refine Ends.ite (fun hsrc => ?_) fun hsrc => ?_
        · refine ends_loadStray (fun _ _ t ht => ⟨g, ?_⟩) fun hr _ => ⟨rfl, ?_⟩
          · exact Sound.congr (k := { k with fs := s }) ⟨hgood, h.tracks, h.held, h.inj⟩ rfl ht.held ht.files
          · have hwhole := hsrc.resolve_left fun hz => hr fun i hi => absurd (hi.trans_eq hz) (Nat.not_lt_zero i)
            rw [h.copies_file hfd hf, hwhole]
            exact ⟨fun hall => hr (k.readable_mono hall hn), rfl⟩
        · obtain ⟨hpos, hpart⟩ := not_or.mp hsrc
          refine ⟨rfl, ?_⟩
          rw [h.copies_file hfd hf, Bool.eq_false_iff.mpr hpart]
          exact ⟨lt_of_lt_of_le (Nat.pos_of_ne_zero hpos) hn, rfl⟩

lemma Sound.runs (h : Sound k g) (c : FileCall) : c.Runs k := by
  cases c with
  | create file size => exact h.runs_create file size
  | remove file => exact h.runs_remove file
  | «open» file => exact h.runs_open file
  | filesize fd => exact h.runs_filesize fd
  | read fd buffer size => exact h.runs_read fd buffer size
  | write fd buffer size => exact h.runs_write fd buffer size
  | seek fd position => exact h.runs_seek fd position
  | tell fd => exact h.runs_tell fd
  | close fd => exact h.runs_close fd

end Transfers

section Converse

variable {k : Kernel} {g : Int → Option Nat} {fd size : Word} (h : Sound k g) (hq : k.fs.mallocs = [])

include h hq

lemma Sound.stops_create (file : Name)
    (hsize : 2 ^ 31 ≤ size.toNat) (hfree : ∃ x < k.fs.freeMap.bitCnt, k.fs.freeMap.bit x = false) :
    Ends (FileCall.create file size).run k (fun _ _ => False)
      fun e _ => e = .panicked (.assertion .inodeCreateLength) := by
  have hrun := (create_negative h.good ((toInt_neg_iff size).mpr hsize) file).2 (fits_one_iff.mpr hfree) hq
  simp only [FileCall.run, Syscall.create, ends_bind, ends_pure]
  rw [ends_onFs_error hrun]

lemma Sound.stops_open {file : Name}
    (hfull : 2 + fdSlots ≤ k.files.nextFd) (hfound : ∃ e ∈ k.fs.entries, Found e file) :
    Ends (FileCall.open file).run k (fun _ _ => False) fun e _ => e = .tableOverrun := by
  obtain ⟨r, s, hrun, _, _, hsome⟩ := good_open h.good file
  obtain ⟨f, rfl⟩ := Option.ne_none_iff_exists'.mp (hsome hq hfound)
  have herr : processAddFile k.files (some f) = .error .outside := by
    simp only [processAddFile, slotOf_eq_error hfull, bind_error]
  simp only [FileCall.run, Syscall.open, ends_bind, ends_modify, ends_pure]
  rw [ends_onFs hrun]
  simp only [onFiles, ends_bind, ends_get, herr, ends_throw]

lemma Sound.stops_read {buffer : Nat} (hw : ¬ k.Writable ⟨buffer, k.supply fd size⟩) :
    Ends (FileCall.read fd buffer size).run k (fun _ _ => False) fun e _ => e = .panicked .kernelBug := by
  simp only [FileCall.run, Syscall.read, ends_bind, ends_pure]
  by_cases hfd : fd.toInt = 0
  · rw [supply_console k hfd] at hw
    simp only [if_pos hfd, ends_bind, ends_pure]
    exact ends_readKeys (fun hall => absurd hall hw) fun _ _ => rfl
  · simp only [if_neg hfd, ends_bind]
    rw [ends_getFile h]
    cases hf : g fd.toInt with
    | none =>
      rw [Kernel.supply, if_neg hfd, h.tracks.processGetFile_eq, hf] at hw
      exact absurd (fun i hi => absurd hi (Nat.not_lt_zero i)) hw
    | some f =>
      obtain ⟨bs, s, hrun, _, _, hlen⟩ := good_read h.good (h.held _ f hf) size.toInt
      rw [h.supply_file hfd hf, ← hlen hq] at hw
      simp only [ends_bind, ends_pure]
      rw [ends_onFs hrun]
      exact ends_store (fun hall => absurd hall hw) fun _ _ => rfl

lemma Sound.stops_write {e : Stop} (hs : (FileCall.write fd none size).Stops k e) :
    Ends (FileCall.write fd none size).run k (fun _ _ => False) fun e' _ => e' = e := by
  obtain ⟨-, hs⟩ := hs
  simp only [FileCall.run, Syscall.write, ends_bind, ends_pure]
  by_cases hfd : fd.toInt = 1
  · rw [copies_console k hfd, demand_console k hfd] at hs
    obtain ⟨hr, rfl⟩ := hs
    simp only [if_pos hfd, ends_bind, ends_pure]
    exact ends_putbuf_none (fun hall => absurd hall hr) fun _ _ => rfl
  · simp only [if_neg hfd, ends_bind]
    rw [ends_getFile h]
    cases hf : g fd.toInt with
    | none =>
      rw [Kernel.copies, Kernel.demand, if_neg hfd, if_neg hfd, h.tracks.processGetFile_eq, hf] at hs
      exact absurd (fun i hi => absurd hi (Nat.not_lt_zero i)) hs.1
    | some f =>
      obtain ⟨n, s, hrun, _, hle⟩ :=
        good_write h.good (h.held _ f hf) (k.space.bytes.read 0 size.toNat) size.toInt
      rw [Memory.length_read] at hle
      rw [h.copies_file hfd hf, h.demand_file hfd hf, ← (hle (toInt_le_toNat size)).2 hq] at hs
      simp only [writeFile, assertSys, ends_bind, ends_get, hrun, ends_modify, ends_pure]
      cases hwhole : startsWhole k.fs f size.toInt.toNat with
      | true =>
        rw [hwhole] at hs
        obtain ⟨hr, rfl⟩ := hs
        rw [if_pos (.inr rfl)]
        exact ends_loadStray (fun hall => absurd hall hr) fun _ _ => rfl
      | false =>
        rw [hwhole] at hs
        obtain ⟨hpos, rfl⟩ := hs
        rw [if_neg (by simpa using Nat.ne_of_gt hpos)]
        rfl

omit h hq in
lemma Sound.stops_seek (h : Sound k g) {position : Word} (hpos : 2 ^ 31 ≤ position.toNat)
    (hopen : processGetFile k.files fd.toInt ≠ .ok none) :
    Ends (FileCall.seek fd position).run k (fun _ _ => False)
      fun e _ => e = .panicked (.assertion .fileSeekPos) := by
  rw [Ne, h.getFile_eq_none] at hopen
  obtain ⟨f, hf⟩ := Option.ne_none_iff_exists'.mp hopen
  simp only [FileCall.run, Syscall.seek, ends_bind, ends_pure]
  rw [ends_getFile h, hf]
  rcases good_seek h.good (h.held _ f hf) position with ⟨hlt, _⟩ | ⟨_, hrun⟩
  · exact absurd hpos (by omega)
  · rw [ends_onFs_error (by rw [hrun, bind_error])]

omit h hq in
lemma Sound.stops_tell (h : Sound k g) (hclosed : processGetFile k.files fd.toInt = .ok none) :
    Ends (FileCall.tell fd).run k (fun _ _ => False) fun e _ => e = .exited (-1) := by
  rw [h.getFile_eq_none] at hclosed
  simp only [FileCall.run, Syscall.tell, ends_bind]
  rw [ends_getFile h, hclosed]
  rfl

lemma Sound.stops {c : FileCall} {e : Stop} (hc : c.Stops k e) :
    Ends c.run k (fun _ _ => False) fun e' _ => e' = e := by
  cases c with
  | create file size =>
    obtain ⟨hsize, hfree, rfl⟩ := hc
    exact h.stops_create hq file hsize hfree
  | remove file => exact hc.elim
  | «open» file =>
    obtain ⟨hfull, hfound, rfl⟩ := hc
    exact h.stops_open hq hfull hfound
  | filesize fd => exact hc.elim
  | read fd buffer size =>
    obtain ⟨hw, rfl⟩ := hc
    exact h.stops_read hq hw
  | write fd buffer size =>
    obtain rfl := hc.1
    exact h.stops_write hq hc
  | seek fd position =>
    obtain ⟨hpos, hopen, rfl⟩ := hc
    exact h.stops_seek hpos hopen
  | tell fd =>
    obtain ⟨hclosed, rfl⟩ := hc
    exact h.stops_tell hclosed
  | close fd => exact hc.elim

end Converse

end Pintos.Syscall
