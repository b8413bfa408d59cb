import Pintos.Syscall.Accesses

/-! The handler keeps to the addresses of the user. -/

namespace Pintos.Syscall

open Pintos.Foundation Pintos.Kernel Pintos.Filesys Pintos.Userprog

variable {bs : List Byte}

structure Confined (k t : Kernel) : Prop where
  accesses : ∀ r ∈ t.accesses, r ∈ k.accesses ∨ InUser r
  strays : ∀ r ∈ t.strays, r ∈ k.strays ∨ ∀ x, r.Mem x → x < physBase

instance : IsPreorder Kernel Confined where
  refl _ := ⟨fun _ hr => .inl hr, fun _ hr => .inl hr⟩
  trans _ _ _ h h' := ⟨fun r hr => (h'.accesses r hr).elim (h.accesses r) .inr,
    fun r hr => (h'.strays r hr).elim (h.strays r) .inr⟩

section Transfers

lemma readLoop_length_le {disk : Memory} {sectors : Nat} {d : InodeDisk} {fuel : Nat} {bounce : Bool}
    {ms ms' : List Bool} {size offset : Nat}
    (h : readLoop disk sectors d fuel bounce ms size offset = .ok (bs, ms')) : bs.length ≤ size := by
  induction fuel generalizing bounce ms size offset bs with
  | zero =>
    cases h
    exact Nat.zero_le _
  | succ fuel ih =>
    have hchunk : chunkSize d size offset ≤ size := Nat.min_le_left _ _
    rw [readLoop] at h
    split at h
    · cases h
      exact Nat.zero_le _
    · split at h
      · next hfull =>
        obtain ⟨block, hblock, h⟩ := bind_eq_ok.mp h
        obtain ⟨⟨rest, ms₁⟩, hrest, h⟩ := bind_eq_ok.mp h
        cases h
        have hlen : block.length = blockSectorSize := by
          rw [blockRead] at hblock
          split at hblock
          · cases hblock
            exact Memory.length_read _ _ _
          · cases hblock
        have hle := ih hrest
        rw [List.length_append]
        omega
      · rcases hm : (if bounce then (true, ms) else malloc ms) with ⟨ok, ms₁⟩
        simp only [hm] at h
        cases ok with
        | false =>
          cases h
          exact Nat.zero_le _
        | true =>
          obtain ⟨block, _, h⟩ := bind_eq_ok.mp h
          obtain ⟨⟨rest, ms₂⟩, hrest, h⟩ := bind_eq_ok.mp h
          cases h
          have hle := ih hrest
          have htake := List.length_take_le (chunkSize d size offset) (block.drop (offset % blockSectorSize))
          simp only [List.length_append]
          omega

lemma fileRead_length_le {s s' : Fs} {f : Nat} {size : Int}
    (h : fileRead s f size = .ok (bs, s')) : bs.length ≤ size.toNat := by
  obtain ⟨x, _, h⟩ := bind_eq_ok.mp h
  obtain ⟨⟨bs', s₁⟩, hread, h⟩ := bind_eq_ok.mp h
  cases h
  obtain ⟨i, _, h⟩ := bind_eq_ok.mp hread
  obtain ⟨⟨bs', ms⟩, hloop, h⟩ := bind_eq_ok.mp h
  cases h
  exact readLoop_length_le hloop

variable {buffer : List Byte}

lemma writeLoop_le {sectors : Nat} {d : InodeDisk} {fuel : Nat} {bounce : Bool} {ms ms' : List Bool}
    {disk disk' : Memory} {offset n : Nat}
    (h : writeLoop sectors d fuel bounce ms disk buffer offset = .ok (n, disk', ms')) : n ≤ buffer.length := by
  induction fuel generalizing bounce ms disk buffer offset n with
  | zero =>
    cases h
    exact Nat.zero_le _
  | succ fuel ih =>
    have hchunk : chunkSize d buffer.length offset ≤ buffer.length := Nat.min_le_left _ _
    rw [writeLoop] at h
    split at h
    · cases h
      exact Nat.zero_le _
    · split at h
      · obtain ⟨disk₁, _, h⟩ := bind_eq_ok.mp h
        obtain ⟨⟨m, disk₂, ms₁⟩, hrest, h⟩ := bind_eq_ok.mp h
        cases h
        have hle := ih hrest
        rw [List.length_drop] at hle
        omega
      · rcases hm : (if bounce then (true, ms) else malloc ms) with ⟨ok, ms₁⟩
        simp only [hm] at h
        cases ok with
        | false =>
          cases h
          exact Nat.zero_le _
        | true =>
          rw [if_pos rfl] at h
          split at h <;>
          · obtain ⟨block, _, h⟩ := bind_eq_ok.mp h
            obtain ⟨disk₁, _, h⟩ := bind_eq_ok.mp h
            obtain ⟨⟨m, disk₂, ms₂⟩, hrest, h⟩ := bind_eq_ok.mp h
            cases h
            have hle := ih hrest
            rw [List.length_drop] at hle
            omega

lemma fileWrite_le {s s' : Fs} {f n : Nat} {size : Int}
    (h : fileWrite s f buffer size = .ok (n, s')) : n ≤ buffer.length := by
  obtain ⟨x, _, h⟩ := bind_eq_ok.mp h
  obtain ⟨⟨m, s₁⟩, hwrite, h⟩ := bind_eq_ok.mp h
  cases h
  obtain ⟨i, _, h⟩ := bind_eq_ok.mp hwrite
  split at h
  · cases h
    exact Nat.zero_le _
  · obtain ⟨⟨m, disk, ms⟩, hloop, h⟩ := bind_eq_ok.mp h
    cases h
    exact (writeLoop_le hloop).trans (List.length_take_le' _ _)

end Transfers

section Calls

variable {k t : Kernel}

lemma Looked.confined (h : Looked k t) : Confined k t := by
  have hs : t.strays = k.strays := (congrArg Kernel.strays h.rest :)
  exact ⟨h.inUser, fun r hr => .inl (hs ▸ hr)⟩

lemma Confined.of_asked (h : Confined k.asked t) : Confined k t := ⟨h.accesses, h.strays⟩

lemma Confined.of_eq (ha : t.accesses = k.accesses) (hs : t.strays = k.strays) : Confined k t :=
  ⟨fun _ hr => .inl (ha ▸ hr), fun _ hr => .inl (hs ▸ hr)⟩

lemma preserves_onFs {α : Type} (x : Fs → Except Panic (α × Fs)) : Preserves Confined (onFs x) := by
  intro k
  simp only [onFs, ends_bind, ends_get]
  cases x k.fs with
  | error e => exact refl_of Confined k
  | ok a => exact .of_eq rfl rfl

lemma preserves_onFiles {α : Type} (x : Descriptors Nat → Except Outside (α × Descriptors Nat)) :
    Preserves Confined (onFiles x) := by
  intro k
  simp only [onFiles, ends_bind, ends_get]
  cases x k.files with
  | error e => exact refl_of Confined k
  | ok a => exact .of_eq rfl rfl

lemma preserves_getFile (fd : Int) : Preserves Confined (getFile fd) := preserves_onFiles _

lemma preserves_getUserStrings (args : List Word) : Preserves Confined (getUserStrings args 8) := fun _ =>
  ends_getUserStrings rfl (fun _ _ _ _ h => h.confined.of_asked) (fun _ _ _ _ h => h.confined.of_asked)
    (fun _ _ _ _ h => h.confined) fun _ _ _ _ _ h => h.confined

variable {va : Nat} {size : Word}

lemma preserves_store (h : InUser ⟨va, bs.length⟩) : Preserves Confined (store va bs) := by
  intro k
  have hc : Confined k { k with accesses := ⟨va, bs.length⟩ :: k.accesses } :=
    ⟨fun r hr => (List.mem_cons.mp hr).elim (fun he => .inr (he ▸ h)) .inl, fun r hr => .inl hr⟩
  simp only [store, ends_bind, ends_modify, ends_get]
  exact Ends.ite (fun _ => ⟨hc.accesses, hc.strays⟩) fun _ => hc

lemma preserves_loadStray {r : Range} (h : ∀ x, r.Mem x → x < physBase) : Preserves Confined (loadStray r) := by
  intro k
  have hc : Confined k { k with strays := r :: k.strays } :=
    ⟨fun r hr => .inl hr, fun q hq => (List.mem_cons.mp hq).elim (fun he => .inr (he ▸ h)) .inl⟩
  simp only [loadStray, ends_bind, ends_modify, ends_get]
  exact Ends.ite (fun _ => hc) fun _ => hc

lemma preserves_readKeys {buffer count : Nat} (h : InUser ⟨buffer, count⟩) : Preserves Confined
    (readKeys buffer count) := by
  rw [inUser_iff] at h
  induction count generalizing buffer with
  | zero => exact preserves_pure _
  | succ count ih =>
    refine .bind (fun k => .of_eq rfl rfl) fun key => .bind (preserves_store ?_) fun _ => ih fun i hi => ?_
    · exact inUser_byte (h 0 (by omega))
    · rw [show buffer + 1 + i = buffer + (i + 1) by omega]
      exact h (i + 1) (by omega)

lemma toInt_toNat_le (w : Word) : w.toInt.toNat ≤ w.toNat := by
  rw [BitVec.toInt_eq_toNat_cond]
  split <;> omega

lemma InUser.mono {n m : Nat} (h : InUser ⟨va, m⟩) (hn : n ≤ m) : InUser ⟨va, n⟩ :=
  inUser_iff.mpr fun i hi => inUser_iff.mp h i (by omega)

lemma preserves_read (fd : Int) {buffer : Nat} (h : InUser ⟨buffer, size.toNat⟩) :
    Preserves Confined (read fd buffer size) := by
  rw [read]
  refine .ite (.bind_pure (preserves_readKeys h) _) (.bind (preserves_getFile fd) fun f => ?_)
  cases f with
  | none => exact preserves_pure _
  | some f =>
    intro k
    simp only [onFs, ends_bind, ends_get]
    cases hread : fileRead k.fs f size.toInt with
    | error e => exact refl_of Confined k
    | ok x =>
      have hle := (fileRead_length_le hread).trans (toInt_toNat_le size)
      simp only [ends_bind, ends_set, ends_pure]
      have hk : Confined k { k with fs := x.2 } := .of_eq rfl rfl
      exact Ends.preserves (preserves_store (h.mono hle)) hk

lemma preserves_byteOf (buffer : Option (List Byte)) {i : Nat} (h : buffer = none → i < physBase) :
    Preserves Confined (byteOf buffer i) := by
  cases buffer with
  | some bytes => exact preserves_pure _
  | none =>
    refine .bind_pure (preserves_loadStray ?_) _
    rintro x ⟨hx, hx'⟩
    have hi := h rfl
    simp only at hx hx'
    omega

lemma preserves_putbuf (buffer : Option (List Byte)) {i n : Nat} (h : buffer = none → i + n ≤ physBase) :
    Preserves Confined (putbuf buffer i n) := by
  induction n generalizing i with
  | zero => exact preserves_pure _
  | succ n ih =>
    refine .bind (preserves_byteOf buffer fun hb => ?_) fun c => .bind (fun k => .of_eq rfl rfl)
      fun _ => ih fun hb => ?_
    · have hle := h hb
      omega
    · have hle := h hb
      omega

lemma preserves_writeFile (f : Nat) (buffer : Option (List Byte))
    (h : buffer = none → size.toNat ≤ physBase) : Preserves Confined (writeFile f buffer size) := by
  cases buffer with
  | some bytes => exact preserves_onFs (fileWrite · f bytes size.toInt)
  | none =>
    intro k
    rw [writeFile, ends_bind, ends_get]
    cases hwrite : fileWrite k.fs f (k.space.bytes.read 0 size.toNat) size.toInt with
    | error e => exact refl_of Confined k
    | ok x =>
      obtain ⟨n, fs⟩ := x
      have hle := fileWrite_le hwrite
      rw [Memory.length_read] at hle
      have hsize := h rfl
      have hstray : Preserves Confined (loadStray ⟨0, n⟩) := by
        apply preserves_loadStray
        rintro a ⟨_, ha⟩
        simp only at ha
        omega
      have hset : Preserves Confined (do modify fun k : Kernel => { k with fs }; return n : SysM Nat) :=
        .bind_pure (preserves_modify fun _ => .of_eq rfl rfl) _
      exact (Preserves.bind (.ite (preserves_pure _) (preserves_throw _)) fun _ => .bind hstray fun _ => hset) k

lemma preserves_write (fd : Int) (buffer : Option (List Byte))
    (h : buffer = none → size.toNat ≤ physBase) : Preserves Confined (write fd buffer size) := by
  rw [write]
  refine .ite (.bind_pure (preserves_putbuf buffer fun hb => ?_) _) (.bind (preserves_getFile fd) fun f => ?_)
  · rw [Nat.zero_add]
    exact h hb
  · cases f with
    | none => exact preserves_pure _
    | some f => exact .bind_pure (preserves_writeFile f buffer h) _

lemma InUser.size_le {size : Nat} (h : InUser ⟨va, size⟩) : size ≤ physBase := by
  cases size with
  | zero => exact Nat.zero_le _
  | succ n =>
    have hlast := (mem_userRange.mp (inUser_iff.mp h n (by omega))).2
    omega

lemma preserves_open (file : Name) : Preserves Confined («open» file) :=
  .bind (preserves_onFs _) fun _ => .bind (preserves_modify fun _ => .of_eq rfl rfl) fun _ =>
    .bind_pure (preserves_onFiles _) _

lemma preserves_filesize (fd : Int) : Preserves Confined (filesize fd) := by
  refine .bind (preserves_getFile fd) fun f => ?_
  cases f with
  | none => exact preserves_pure _
  | some f => exact .bind_pure (preserves_onFs _) _

lemma preserves_seek (fd : Int) (position : Word) : Preserves Confined (seek fd position) := by
  refine .bind (preserves_getFile fd) fun f => ?_
  cases f with
  | none => exact preserves_pure _
  | some f => exact preserves_onFs _

lemma preserves_tell (fd : Int) : Preserves Confined (tell fd) := by
  refine .bind (preserves_getFile fd) fun f => ?_
  cases f with
  | none => exact preserves_throw _
  | some f => exact .bind_pure (preserves_onFs _) _

lemma preserves_close (fd : Int) : Preserves Confined (close fd) :=
  .bind (preserves_onFiles _) fun _ => .bind (preserves_onFs _) fun _ => preserves_modify fun _ => .of_eq rfl rfl

lemma preserves_readCall (fd : Word) (buffer : Nat) (size : Word) : Preserves Confined (readCall fd buffer size) := by
  intro k
  rw [readCall, ends_bind]
  exact ends_checkUserStringL (fun h => preserves_read _ h k) fun _ => refl_of Confined k

lemma preserves_writeCall (fd : Word) (buffer : Nat) (size : Word) :
    Preserves Confined (writeCall fd buffer size) := by
  intro k
  have hwrite : ∀ copy, InUser ⟨buffer, size.toNat⟩ → Preserves Confined (write fd.toInt copy size) :=
    fun copy h => preserves_write _ copy fun _ => h.size_le
  rw [writeCall, ends_bind]
  refine ends_checkUserStringL (fun h => ?_) fun _ => refl_of Confined k
  rw [ends_bind]
  refine ends_getUserStringL h (fun _ => hwrite _ h k) (fun _ _ => ?_) (fun _ _ _ t ht => ?_) fun _ _ _ t ht => ?_
  · exact Ends.preserves (hwrite _ h) (Confined.of_asked (refl_of Confined _))
  · exact Ends.preserves (hwrite _ h) ht.confined.of_asked
  · exact ht.confined.of_asked

end Calls

lemma preserves_serve {esp : Nat} (hesp : userRange.Mem esp) (nr : Option SyscallNr) : Preserves Confined
    (serve esp nr) := by
  have hargs : ∀ {count : Nat} {x : List Word → SysM Served}, 1 ≤ count ∧ count ≤ 4 →
      (∀ args, Preserves Confined (x args)) → Preserves Confined (getArguments esp count >>= x) := by
    intro count x hcount
    rw [getArguments_eq hcount]
    exact .bind fun _ => ends_argumentLoop hesp (fun _ _ h => h.confined) (fun _ _ _ _ _ h => h.confined)
      fun _ _ _ _ _ h => h.confined
  match nr with
  | some .halt => exact preserves_throw _
  | some .exit => exact hargs (by omega) fun _ => preserves_throw _
  | some .create =>
    exact hargs (by omega) fun args => .bind (preserves_getUserStrings args) fun _ =>
      .bind_pure (.bind_pure (preserves_onFs _) _) _
  | some .remove =>
    exact hargs (by omega) fun args => .bind (preserves_getUserStrings args) fun _ =>
      .bind_pure (.bind_pure (preserves_onFs _) _) _
  | some .write => exact hargs (by omega) fun args => .bind_pure (preserves_writeCall _ _ _) _
  | some .exec => exact hargs (by omega) fun args => .bind_pure (preserves_getUserStrings args) _
  | some .wait => exact hargs (by omega) fun args => preserves_pure _
  | some .open =>
    exact hargs (by omega) fun args => .bind (preserves_getUserStrings args) fun _ =>
      .bind_pure (preserves_open _) _
  | some .filesize => exact hargs (by omega) fun args => .bind_pure (preserves_filesize _) _
  | some .read => exact hargs (by omega) fun args => .bind_pure (preserves_readCall _ _ _) _
  | some .seek => exact hargs (by omega) fun args => .bind_pure (preserves_seek _ _) _
  | some .tell => exact hargs (by omega) fun args => .bind_pure (preserves_tell _) _
  | some .close => exact hargs (by omega) fun args => .bind_pure (preserves_close _) _
  | none | some .mmap | some .munmap | some .chdir | some .mkdir | some .readdir | some .isdir | some .inumber =>
    exact preserves_throw _

theorem handler_accesses_confined (esp : Nat) (k : Kernel) :
    Ends (syscallHandler esp) k (fun _ t => Confined k t) fun _ t => Confined k t := by
  rw [syscallHandler, ends_bind]
  refine ends_checkAddress4 (fun hu => ?_) fun _ => refl_of Confined k
  rw [ends_bind]
  refine ends_loadWord hu (fun _ t ht => ?_) fun _ t ht => ht.confined
  exact Ends.preserves (preserves_serve (inUser_word.mp hu).1 _) ht.confined

end Pintos.Syscall
