import Pintos.Syscall.Stops

/-! Runs of one process that makes system calls, beside whatever else uses the file system. -/

namespace Pintos.Syscall

open Pintos.Foundation Pintos.Kernel Pintos.Filesys Pintos.Userprog Function

def Kernel.owns (k : Kernel) (f : Nat) : Bool := decide (∃ i : Fin fdSlots, k.files.table i = some f)

/-- Between its traps the process, or whoever types, changes what it likes; `other` is an operation of
another process, which has its own files. -/
inductive Event
  | trap (esp : Nat) (mallocs : List Bool)
  | resume (space : Space) (keys : Nat → Byte)
  | other (c : Filesys.Call)

def next (k : Kernel) : Event → Option Kernel
  | .trap esp mallocs =>
    match syscallHandler esp (k.withMallocs mallocs) with
    | .ok _ t => some t
    | .error _ _ => none
  | .resume space keys => some { k with space, keys }
  | .other c =>
    if c.op.file.all fun f => !k.owns f then
      (Filesys.next ⟨k.fs, k.held⟩ c).map fun m => { k with fs := m.fs, held := m.held }
    else none

def system : System Kernel Event where
  init k := k.files = .initial ∧ Filesys.system.Reachable ⟨k.fs, k.held⟩
  next := next

section Invariant

variable {k t : Kernel} {g : Int → Option Nat}

section

variable (h : Sound k g)

include h

lemma Sound.ends_run (c : FileCall) : Ends c.run k (fun _ t => ∃ g', Sound t g') fun _ _ => True :=
  (h.runs c).mono (fun _ _ ht => ht) fun _ _ _ => trivial

lemma Sound.asked : Sound k.asked g := h.with_mallocs _

lemma Sound.ends_named {args : List Word} {x : List (List Byte) → SysM Served}
    (hx : ∀ strings t, Sound t g → Ends (x strings) t (fun _ u => ∃ g', Sound u g') fun _ _ => True) :
    Ends (getUserStrings args 8 >>= x) k (fun _ t => ∃ g', Sound t g') fun _ _ => True := by
  rw [ends_bind]
  exact ends_getUserStrings rfl (fun _ _ _ t ht => hx _ t (ht.sound h.asked)) (fun _ _ _ _ _ => trivial)
    (fun _ _ _ _ _ => trivial) fun _ _ _ _ _ _ => trivial

lemma Sound.ends_readCall (fd : Word) (buffer : Nat) (size : Word) :
    Ends (do return Served.eax (← readCall fd buffer size)) k (fun _ t => ∃ g', Sound t g') fun _ _ => True := by
  simp only [readCall, bind_assoc]
  rw [ends_bind]
  exact ends_checkUserStringL (fun _ => h.ends_run (.read fd buffer size)) fun _ => trivial

lemma Sound.ends_writeCall (fd : Word) (buffer : Nat) (size : Word) :
    Ends (do return Served.eax (← writeCall fd buffer size)) k (fun _ t => ∃ g', Sound t g') fun _ _ => True := by
  simp only [writeCall, bind_assoc]
  rw [ends_bind]
  refine ends_checkUserStringL (fun hu => ?_) fun _ => trivial
  rw [ends_bind]
  exact ends_getUserStringL hu (fun _ => h.ends_run (.write fd none size))
    (fun _ _ => h.asked.ends_run (.write fd none size))
    (fun _ _ _ t ht => (ht.sound h.asked).ends_run (.write fd _ size)) fun _ _ _ _ _ => trivial

lemma Sound.ends_serve {esp : Nat} (hesp : userRange.Mem esp) (nr : Option SyscallNr) :
    Ends (serve esp nr) k (fun _ t => ∃ g', Sound t g') fun _ _ => True := by
  have hargs : ∀ {count : Nat} {x : List Word → SysM Served}, 1 ≤ count ∧ count ≤ 4 →
      (∀ args t, Sound t g → Ends (x args) t (fun _ u => ∃ g', Sound u g') fun _ _ => True) →
      Ends (getArguments esp count >>= x) k (fun _ t => ∃ g', Sound t g') fun _ _ => True := by
    intro count x hcount hx
    rw [ends_bind]
    rw [getArguments_eq hcount]
    exact ends_argumentLoop hesp (fun _ t ht => hx _ t (ht.sound h)) (fun _ _ _ _ _ _ => trivial)
      fun _ _ _ _ _ _ => trivial
  match nr with
  | some .halt => exact trivial
  | some .exit => exact hargs (by omega) fun _ _ _ => trivial
  | some .create =>
    exact hargs (by omega) fun args t ht => ht.ends_named fun _ _ hu => hu.ends_run (.create _ _)
  | some .remove => exact hargs (by omega) fun args t ht => ht.ends_named fun _ _ hu => hu.ends_run (.remove _)
  | some .write => exact hargs (by omega) fun args t ht => ht.ends_writeCall _ _ _
  | some .exec => exact hargs (by omega) fun args t ht => ht.ends_named fun _ _ hu => ⟨g, hu⟩
  | some .wait => exact hargs (by omega) fun args t ht => ⟨g, ht⟩
  | some .open => exact hargs (by omega) fun args t ht => ht.ends_named fun _ _ hu => hu.ends_run (.open _)
  | some .filesize => exact hargs (by omega) fun args t ht => ht.ends_run (.filesize _)
  | some .read => exact hargs (by omega) fun args t ht => ht.ends_readCall _ _ _
  | some .seek => exact hargs (by omega) fun args t ht => ht.ends_run (.seek _ _)
  | some .tell => exact hargs (by omega) fun args t ht => ht.ends_run (.tell _)
  | some .close => exact hargs (by omega) fun args t ht => ht.ends_run (.close _)
  | none | some .mmap | some .munmap | some .chdir | some .mkdir | some .readdir | some .isdir | some .inumber =>
    exact trivial

lemma Sound.ends_handler (esp : Nat) :
    Ends (syscallHandler esp) k (fun _ t => ∃ g', Sound t g') fun _ _ => True := by
  rw [syscallHandler, ends_bind]
  refine ends_checkAddress4 (fun hu => ?_) fun _ => trivial
  rw [ends_bind]
  refine ends_loadWord hu (fun _ t ht => ?_) fun _ _ _ => trivial
  exact (ht.sound h).ends_serve (inUser_word.mp hu).1 _

omit h in
lemma mem_held {op : Op} {held : List Nat} {f : Nat} (hf : f ∈ held) (hne : op.file ≠ some f) (r : Answer) :
    f ∈ op.held held r := by
  cases op with
  | close f' =>
    have hff : f ≠ f' := fun he => hne (congrArg some he.symm)
    exact (List.mem_erase_of_ne hff).mpr hf
  | openNamed name =>
    cases r with
    | handle file =>
      cases file with
      | none => exact hf
      | some f' => exact List.mem_cons_of_mem _ hf
    | _ => exact hf
  | reopen f' =>
    cases r with
    | handle file =>
      cases file with
      | none => exact hf
      | some f' => exact List.mem_cons_of_mem _ hf
    | _ => exact hf
  | _ => exact hf

lemma Sound.owns {fd : Int} {f : Nat} (hf : g fd = some f) : k.owns f = true := by
  have hlow : ¬ (fd < 2 ∨ k.files.nextFd ≤ fd) := fun hout => by
    rw [h.tracks.outside fd hout] at hf
    cases hf
  have hhigh := h.tracks.high
  obtain ⟨i, rfl⟩ := exists_slot (show 2 ≤ fd by omega) (by omega)
  exact decide_eq_true ⟨i, (h.tracks.inside i (by omega)).symm.trans hf⟩

lemma sound_of_next {e : Event} (hn : next k e = some t) : ∃ g', Sound t g' := by
  cases e with
  | trap esp mallocs =>
    have hend := (h.with_mallocs mallocs).ends_handler esp
    rw [next] at hn
    split at hn
    · next hrun =>
      cases hn
      exact hend.of_ok hrun
    · cases hn
  | resume space keys =>
    cases hn
    exact ⟨g, h.congr rfl rfl rfl⟩
  | other c =>
    rw [next] at hn
    split at hn
    · next hown =>
      obtain ⟨m, hm, rfl⟩ := Option.map_eq_some_iff.mp hn
      have hgood := good_of_next h.good hm
      obtain ⟨_, r, s, _, rfl⟩ := next_eq_some hm
      refine ⟨g, hgood, h.tracks, fun fd f hf => mem_held (h.held fd f hf) ?_ r, h.inj⟩
      intro hfile
      rw [hfile, Option.all_some, h.owns hf] at hown
      cases hown
    · cases hn

end

lemma sound_of_reachable (h : system.Reachable k) : ∃ g, Sound k g := by
  refine h.invariant (I := fun k => ∃ g, Sound k g) ?_ fun _ _ _ ⟨g, hs⟩ hn => sound_of_next hs hn
  rintro k ⟨hfiles, hr⟩
  exact ⟨fun _ => none, reachable_good hr, hfiles ▸ tracks_initial, nofun, nofun⟩

end Invariant

/-- The assertions of `file.c`, `inode.c`, `directory.c`, `free-map.c` and `bitmap.c`. -/
def ofFileLayers : Assertion → Bool
  | .bitmapSetIdx | .bitmapTestIdx | .bitmapSetMultipleStart | .bitmapSetMultipleEnd | .bitmapContainsStart
  | .bitmapContainsEnd | .bitmapCountStart | .bitmapCountEnd | .bitmapScanStart | .bitmapCreateInBufSize
  | .freeMapReleaseAll | .inodeCreateLength | .inodeDenyWriteCnt | .inodeAllowWritePos | .inodeAllowWriteCnt
  | .fileSeekPos => true
  | _ => false

def FileCall.Harmless (k : Kernel) : FileCall → Prop
  | .create _ initialSize => initialSize.toNat < 2 ^ 31 ∨ ∀ x < k.fs.freeMap.bitCnt, k.fs.freeMap.bit x = true
  | .seek fd position => position.toNat < 2 ^ 31 ∨ processGetFile k.files fd.toInt = .ok none
  | _ => True

lemma FileCall.stops_assertion {k : Kernel} {c : FileCall} {a : Assertion}
    (h : c.Stops k (.panicked (.assertion a))) :
    ofFileLayers a = true ∨ a = .memcpySrc ∧ ∃ fd size, c = .write fd none size := by
  cases c with
  | create file size =>
    cases h.2.2
    exact .inl rfl
  | seek fd position =>
    cases h.2.2
    exact .inl rfl
  | write fd buffer size =>
    obtain ⟨rfl, h⟩ := h
    split at h
    · cases h.2
      exact .inr ⟨rfl, fd, size, rfl⟩
    · cases h.2
  | «open» file => cases h.2.2
  | read fd buffer size => cases h.2
  | tell fd => cases h.2
  | remove file => exact h.elim
  | filesize fd => exact h.elim
  | close fd => exact h.elim

lemma FileCall.asserts_iff {k : Kernel} {c : FileCall} :
    (∀ a, ofFileLayers a = true → ¬ c.Stops k (.panicked (.assertion a))) ↔ c.Harmless k := by
  cases c with
  | create file size =>
    simp only [Stops, Harmless]
    constructor
    · intro hno
      by_contra hbad
      simp only [not_or, not_lt, not_forall, Bool.not_eq_true] at hbad
      obtain ⟨hsize, x, hx, hbit⟩ := hbad
      exact hno _ rfl ⟨hsize, ⟨x, hx, hbit⟩, rfl⟩
    · rintro hc a - ⟨hsize, ⟨x, hx, hbit⟩, _⟩
      rcases hc with hlt | hfull
      · omega
      · rw [hfull x hx] at hbit
        cases hbit
  | seek fd position =>
    simp only [Stops, Harmless]
    constructor
    · intro hno
      by_contra hbad
      obtain ⟨hpos, hopen⟩ := not_or.mp hbad
      exact hno _ rfl ⟨not_lt.mp hpos, hopen, rfl⟩
    · rintro hc a - ⟨hpos, hopen, _⟩
      exact hc.elim (fun hlt => absurd hpos (by omega)) hopen
  | write fd buffer size =>
    refine iff_of_true (fun a ha hs => ?_) trivial
    obtain ⟨-, hs⟩ := hs
    split at hs
    · cases hs.2
      cases ha
    · cases hs.2
  | _ => simp [Stops, Harmless]

lemma FileCall.stops_with_mallocs {k : Kernel} {mallocs : List Bool} {c : FileCall} {e : Stop} :
    c.Stops (k.withMallocs mallocs) e ↔ c.Stops k e := by
  cases c <;> exact Iff.rfl

/-- The one other assertion is that of `memcpy`, in a `write` whose copy could not be allocated. -/
theorem file_call_asserts_iff {k : Kernel} (h : system.Reachable k) (c : FileCall) :
    ((∀ mallocs a t, ofFileLayers a = true → c.run (k.withMallocs mallocs) ≠ .error (.panicked (.assertion a)) t) ↔
      c.Harmless k) ∧
    ∀ mallocs a t, c.run (k.withMallocs mallocs) = .error (.panicked (.assertion a)) t →
      ofFileLayers a = true ∨ a = .memcpySrc ∧ ∃ fd size, c = .write fd none size := by
  obtain ⟨g, hs⟩ := sound_of_reachable h
  have hstops : ∀ mallocs a t, c.run (k.withMallocs mallocs) = .error (.panicked (.assertion a)) t →
      c.Stops k (.panicked (.assertion a)) := fun mallocs a t hrun =>
    FileCall.stops_with_mallocs.mp (((hs.with_mallocs mallocs).runs c).of_error hrun)
  refine ⟨?_, fun mallocs a t hrun => FileCall.stops_assertion (hstops mallocs a t hrun)⟩
  rw [← FileCall.asserts_iff]
  constructor
  · intro hno a ha hstop
    obtain ⟨e, t, hrun, rfl⟩ :=
      ((hs.with_mallocs []).stops rfl (FileCall.stops_with_mallocs.mpr hstop)).exists_error
    exact hno [] a t ha hrun
  · intro hno mallocs a t ha hrun
    exact hno a ha (hstops mallocs a t hrun)

def starting (m : Machine) : Kernel where
  space := ⟨fun _ => false, fun _ => none, fun _ => 0⟩
  fs := m.fs
  held := m.held
  files := .initial
  console := []
  keys _ := 0
  accesses := []
  strays := []

lemma starting_reachable {m : Machine} (h : Filesys.system.Reachable m) : system.Reachable (starting m) :=
  .init ⟨rfl, h⟩

theorem file_call_asserts_iff_closed_seek : ∃ k, system.Reachable k ∧
    ∀ mallocs a t, ofFileLayers a = true →
      (FileCall.seek 2 0x80000000).run (k.withMallocs mallocs) ≠ .error (.panicked (.assertion a)) t := by
  have hrun : ((smallRun []).map fun m => m.fs.freeMap.bitCnt) = some 12 := by decide +kernel
  obtain ⟨m, hm, _⟩ := Option.map_eq_some_iff.mp hrun
  have hr := starting_reachable (smallRun_reachable hm).reachable
  exact ⟨_, hr, (file_call_asserts_iff hr (.seek 2 0x80000000)).1.mpr (.inr rfl)⟩

theorem create_of_negative_size_asserts : ∃ k, system.Reachable k ∧ ∃ t,
    (FileCall.create nameA 0x80000000).run (k.withMallocs []) =
      .error (.panicked (.assertion .inodeCreateLength)) t := by
  have hrun : ((smallRun []).map fun m => (m.fs.freeMap.bitCnt, m.fs.freeMap.bit 8)) = some (12, false) := by
    decide +kernel
  obtain ⟨m, hm, he⟩ := Option.map_eq_some_iff.mp hrun
  obtain ⟨hcnt, hbit⟩ := Prod.mk.inj he
  have hr := starting_reachable (smallRun_reachable hm).reachable
  obtain ⟨g, hs⟩ := sound_of_reachable hr
  have hfree : ∃ x < m.fs.freeMap.bitCnt, m.fs.freeMap.bit x = false := ⟨8, by omega, hbit⟩
  have hsize : 2 ^ 31 ≤ (0x80000000 : Word).toNat := by decide
  obtain ⟨e, t, he, rfl⟩ := ((hs.with_mallocs []).stops_create rfl nameA hsize hfree).exists_error
  exact ⟨_, hr, t, he⟩

/-- A descriptor leads to an open file of its own, never to the free map or the root directory. -/
theorem descriptors_regular {k : Kernel} (h : system.Reachable k) {fd : Int} {f : Nat}
    (hf : processGetFile k.files fd = .ok (some f)) :
    (∃ x i, k.fs.file f = some x ∧ k.fs.inode x.inode = some i ∧
      i.sector ≠ freeMapSector ∧ i.sector ≠ rootDirSector) ∧
      ∀ fd', processGetFile k.files fd' = .ok (some f) → fd' = fd := by
  obtain ⟨g, hs⟩ := sound_of_reachable h
  obtain ⟨b, held, hlive, heq : held.map Prod.fst = k.held⟩ := hs.good
  simp only [hs.tracks.processGetFile_eq, Except.ok.injEq] at hf ⊢
  obtain ⟨⟨f, p⟩, hmem, rfl⟩ := List.mem_map.mp (heq ▸ hs.held fd f hf)
  obtain ⟨o, x, i, -, hopen⟩ := hlive.openOn hmem
  refine ⟨⟨x, i, hopen.file, hopen.ptr ▸ hopen.inode, ?_⟩, fun fd' hf' => hs.inj _ _ _ hf' hf⟩
  exact hlive.regular f p hmem i hopen.inode

theorem descriptors_regular_after_open : ∃ k, system.Reachable k ∧ processGetFile k.files 2 = .ok (some 7) ∧
    ∀ fd, processGetFile k.files fd = .ok (some 7) → fd = 2 := by
  have hrun : ((smallRun [.create nameA ⟨5, by decide⟩]).bind fun m => (system.exec (starting m) [
      .resume ⟨fun _ => true, fun _ => some true, Memory.write (fun _ => 0) 0x08048000 [6, 0, 0, 0, 8, 0x80, 4, 8, 97]⟩
        fun _ => 0, .trap 0x08048000 []]).map fun k => (processGetFile k.files 2).toOption) = some (some (some 7)) := by
    decide +kernel
  obtain ⟨m, hm, hk⟩ := Option.bind_eq_some_iff.mp hrun
  obtain ⟨k, hk, h2⟩ := Option.map_eq_some_iff.mp hk
  have hr := System.exec_reachable (starting_reachable (smallRun_reachable hm).reachable) hk
  have h2 := toOption_eq_some h2
  exact ⟨k, hr, h2, (descriptors_regular hr h2).2⟩

end Pintos.Syscall
