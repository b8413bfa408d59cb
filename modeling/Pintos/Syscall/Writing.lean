import Pintos.Filesys.Windows
import Pintos.Syscall.Processes

/-! Where the bytes come from that the `write` system call writes. -/

namespace Pintos.Syscall

open Pintos.Foundation Pintos.Kernel Pintos.Filesys Pintos.Userprog Function

def Wrote (s t : Fs) (f : Nat) (bytes : List Byte) (n : Nat) : Prop :=
  ∃ x i disk, s.file f = some x ∧ s.inode x.inode = some i ∧ n ≤ bytes.length ∧
    t = { s with disk, mallocs := t.mallocs }.setFile f (some { x with pos := x.pos + n }) ∧
    ReadsBack { s with mallocs := [] } { s with disk, mallocs := [] } x.inode bytes n x.pos ∧
    WritesWithin s { s with disk } i.data.start n x.pos

lemma wrote_of_good {s : Fs} {held : List Nat} {f : Nat} (h : Good ⟨s, held⟩) (hf : f ∈ held) (bytes : List Byte)
    (size : Int) (hsize : size ≤ bytes.length) :
    ∃ n t, fileWrite s f bytes size = .ok (n, t) ∧ Wrote s t f bytes n ∧ n ≤ min size.toNat (room s f) ∧
      (s.mallocs = [] → n = min size.toNat (room s f)) := by
  obtain ⟨b, handles, p, hlive, hk, hm⟩ := good_handle h hf
  obtain ⟨o, x, i, ho, hon⟩ := hlive.openOn hm
  have hp := hlive.inv.sound.placed o (Books.file_mem ho)
  obtain ⟨n, ms, hrun, hle, hquiet⟩ := fileWrite_eq hp hon bytes hsize
  obtain rfl := hon.ptr
  have hn : n ≤ bytes.length := by omega
  refine ⟨n, _, hrun, ⟨x, i, _, hon.file, hon.inode, hn, rfl, ?_, ?_⟩, hle, hquiet⟩
  · exact readsBack_of_write (s := { s with mallocs := [] }) hp hon.inode hon.data rfl rfl hn
  · have hstart : i.data.start = o.start := by rw [hon.data, Obj.data]
    rw [hstart]
    exact writesWithin_of_write (by rw [List.length_take]; omega)

def Kernel.strayBytes (k : Kernel) : Nat := (k.strays.map Range.size).sum

structure WroteFrom (bytes : List Byte) (fd : Int) (k t : Kernel) (n : Nat) : Prop where
  strays : t.strayBytes = k.strayBytes
  files : t.files = k.files
  wrote : (n = 0 ∧ t.console = k.console ∧ t.fs = { k.fs with mallocs := t.fs.mallocs }) ∨
    (fd = 1 ∧ t.console = k.console ++ bytes.take n ∧ t.fs = { k.fs with mallocs := t.fs.mallocs }) ∨
    ∃ f, processGetFile k.files fd = .ok (some f) ∧ t.console = k.console ∧ Wrote k.fs t.fs f bytes n

def Honest (k : Kernel) (fd : Word) (buffer : Nat) (size : Word) : Prop :=
  ∃ n t, writeCall fd buffer size k = .ok n t ∧
    WroteFrom (k.space.bytes.read buffer size.toNat) fd.toInt k t n.toNat

section Outcomes

variable {k t u : Kernel} {g : Int → Option Nat} {E : Stop → Kernel → Prop} {bytes : List Byte}
  {fd size : Word} {n : Nat}

lemma ends_putbuf_some {i : Nat} (h : i + n ≤ bytes.length) {Q : Unit → Kernel → Prop} :
    Ends (putbuf (some bytes) i n) k Q E ↔ Q () { k with console := k.console ++ (bytes.drop i).take n } := by
  induction n generalizing i k with
  | zero => simp [putbuf]
  | succ n ih =>
    have hi : i < bytes.length := by omega
    simp only [putbuf, byteOf, ends_bind, ends_pure, ends_modify]
    rw [ih (by omega)]
    simp only [List.append_assoc, List.drop_eq_getElem_cons hi, List.take_succ_cons, List.getD_eq_getElem _ _ hi,
      List.singleton_append]

lemma WroteFrom.congr (h : WroteFrom bytes fd.toInt u t n) (hstrays : u.strays = k.strays)
    (hfiles : u.files = k.files) (hconsole : u.console = k.console)
    (hfs : u.fs = { k.fs with mallocs := u.fs.mallocs }) : WroteFrom bytes fd.toInt k t n := by
  obtain ⟨hs, hf, hw⟩ := h
  refine ⟨hs.trans (by rw [Kernel.strayBytes, Kernel.strayBytes, hstrays]), hf.trans hfiles, ?_⟩
  rw [hfs, hconsole, hfiles] at hw
  exact hw

lemma Wrote.of_zero {s s' : Fs} {f : Nat} {bytes' : List Byte} (h : Wrote s s' f bytes' 0) :
    Wrote s s' f bytes 0 := by
  obtain ⟨x, i, disk, hx, hi, _, hs, hback, hwithin⟩ := h
  refine ⟨x, i, disk, hx, hi, Nat.zero_le _, hs, fun size ofs => ?_, hwithin⟩
  obtain ⟨old, new, hold, hnew, hlen, hall⟩ := hback size ofs
  refine ⟨old, new, hold, hnew, hlen, fun j hj => ?_⟩
  rw [hall j hj, if_neg (by omega), if_neg (by omega)]

lemma toNat_ofNat_of_le (h : n ≤ size.toNat) : (BitVec.ofNat 32 n).toNat = n := by
  have hlt := size.isLt
  rw [BitVec.toNat_ofNat]
  omega

lemma Sound.writes_copy (h : Sound k g) (hlen : bytes.length = size.toNat) :
    Ends (write fd.toInt (some bytes) size) k (fun n t => WroteFrom bytes fd.toInt k t n.toNat) fun _ _ => False := by
  rw [write]
  refine Ends.ite (fun hfd => ?_) fun _ => ?_
  · rw [ends_bind, ends_putbuf_some (by omega), ends_pure]
    exact ⟨rfl, rfl, .inr (.inl ⟨hfd, rfl, rfl⟩)⟩
  · rw [ends_bind, ends_getFile h]
    cases hf : g fd.toInt with
    | none => exact ⟨rfl, rfl, .inl ⟨rfl, rfl, rfl⟩⟩
    | some f =>
      have hint := toInt_toNat_le size
      obtain ⟨n, s, hrun, hw, hle, _⟩ := wrote_of_good h.good (h.held _ f hf) bytes size.toInt (by omega)
      simp only [writeFile, ends_bind, ends_pure]
      rw [ends_onFs hrun, toNat_ofNat_of_le (show n ≤ size.toNat by omega)]
      exact ⟨rfl, rfl, .inr (.inr ⟨f, by rw [h.tracks.processGetFile_eq, hf], rfl, hw⟩)⟩

lemma demand_le (k : Kernel) (fd size : Word) : k.demand fd size ≤ size.toNat := by
  have hint := toInt_toNat_le size
  rw [Kernel.demand]
  split
  · exact le_rfl
  · split
    · omega
    · exact Nat.zero_le _

lemma Sound.writes_nothing (h : Sound k g) (hd : k.demand fd size = 0) :
    Ends (write fd.toInt none size) k (fun n t => WroteFrom bytes fd.toInt k t n.toNat) fun _ _ => False := by
  rw [write]
  refine Ends.ite (fun hfd => ?_) fun hfd => ?_
  · rw [Kernel.demand, if_pos hfd] at hd
    rw [ends_bind, hd, putbuf, ends_pure, ends_pure, hd]
    exact ⟨rfl, rfl, .inl ⟨rfl, rfl, rfl⟩⟩
  · rw [ends_bind, ends_getFile h]
    cases hf : g fd.toInt with
    | none => exact ⟨rfl, rfl, .inl ⟨rfl, rfl, rfl⟩⟩
    | some f =>
      have hint := toInt_toNat_le size
      obtain ⟨n, s, hrun, hw, hle, _⟩ := wrote_of_good h.good (h.held _ f hf) (k.space.bytes.read 0 size.toNat)
        size.toInt (by rw [Memory.length_read]; omega)
      rw [← h.demand_file hfd hf, hd] at hle
      obtain rfl := Nat.le_zero.mp hle
      simp only [writeFile, assertSys, loadStray, ends_bind, ends_get, ends_modify, ends_pure, hrun, true_or, if_true]
      refine Ends.ite (fun _ => ?_) fun hr => absurd (fun i hi => absurd hi (Nat.not_lt_zero i)) hr
      exact ⟨by simp [Kernel.strayBytes], rfl, .inr (.inr ⟨f, by rw [h.tracks.processGetFile_eq, hf], rfl, hw.of_zero⟩)⟩

lemma strayBytes_loadStray {α : Type} {r : Range} {f : List Byte → SysM α} {Q : α → Kernel → Prop}
    (h : ∀ bs t, t.strayBytes = r.size + k.strayBytes → Ends (f bs) t Q fun _ _ => True) :
    Ends (loadStray r >>= f) k Q fun _ _ => True := by
  simp only [loadStray, ends_bind, ends_modify, ends_get]
  exact Ends.ite (fun _ => h _ _ (by simp [Kernel.strayBytes])) fun _ => trivial

lemma strayBytes_putbuf {m i : Nat} (h : m ≤ k.strayBytes) :
    Ends (putbuf none i n) k (fun _ t => m ≤ t.strayBytes) fun _ _ => True := by
  induction n generalizing k i with
  | zero => exact h
  | succ n ih =>
    simp only [putbuf, byteOf, bind_assoc, pure_bind]
    refine strayBytes_loadStray fun bs t ht => ?_
    rw [ends_bind, ends_modify]
    apply ih
    change m ≤ t.strayBytes
    omega

lemma Sound.writes_strays (h : Sound k g) (hq : k.fs.mallocs = []) (hd : 0 < k.demand fd size) :
    Ends (write fd.toInt none size) k (fun _ t => k.strayBytes < t.strayBytes) fun _ _ => True := by
  rw [write]
  refine Ends.ite (fun hfd => ?_) fun hfd => ?_
  · rw [Kernel.demand, if_pos hfd] at hd
    obtain ⟨n, hn⟩ := Nat.exists_eq_add_one_of_ne_zero (Nat.ne_of_gt hd)
    simp only [hn, putbuf, byteOf, bind_assoc, pure_bind]
    refine strayBytes_loadStray fun bs t ht => ?_
    rw [ends_bind, ends_modify, ends_bind]
    apply strayBytes_putbuf (m := k.strayBytes + 1)
    change k.strayBytes + 1 ≤ t.strayBytes
    simp only at ht
    omega
  · rw [ends_bind, ends_getFile h]
    cases hf : g fd.toInt with
    | none =>
      rw [Kernel.demand, if_neg hfd, h.tracks.processGetFile_eq, hf] at hd
      exact absurd hd (Nat.lt_irrefl 0)
    | some f =>
      have hint := toInt_toNat_le size
      obtain ⟨n, s, hrun, _, _, hn⟩ := wrote_of_good h.good (h.held _ f hf) (k.space.bytes.read 0 size.toNat)
        size.toInt (by rw [Memory.length_read]; omega)
      rw [h.demand_file hfd hf, ← hn hq] at hd
      simp only [writeFile, bind_assoc]
      rw [ends_bind, ends_get]
      simp only [hrun, bind_assoc]
      rw [ends_bind, assertSys]
      refine Ends.ite (fun _ => strayBytes_loadStray fun bs t ht => ?_) fun _ => trivial
      change k.strayBytes < t.strayBytes
      simp only at ht
      omega

end Outcomes

theorem write_honest_iff {k : Kernel} (h : system.Reachable k) (fd : Word) {buffer : Nat} {size : Word}
    (hu : InUser ⟨buffer, size.toNat⟩) (hr : k.Readable ⟨buffer, size.toNat⟩) (granted : Bool) :
    (∀ mallocs, Honest (k.withMallocs (granted :: mallocs)) fd buffer size) ↔
      granted = true ∨ k.demand fd size = 0 := by
  obtain ⟨g, hs⟩ := sound_of_reachable h
  constructor
  · intro hall
    by_contra hbad
    obtain ⟨hgranted, hd⟩ := not_or.mp hbad
    obtain ⟨n, t, hrun, hw⟩ := hall []
    have hend : Ends (writeCall fd buffer size) (k.withMallocs (granted :: []))
        (fun _ t => k.strayBytes < t.strayBytes) fun _ _ => True := by
      rw [Bool.eq_false_iff.mpr hgranted, writeCall, ends_bind]
      refine ends_checkUserStringL (fun _ => ?_) fun hout => absurd hu hout
      rw [ends_bind]
      refine ends_getUserStringL hu (fun hz => ?_) (fun _ _ => ?_) (fun _ hm => by cases hm) fun _ hm => by cases hm
      · have hle := demand_le k fd size
        exact absurd (by omega) hd
      · exact (hs.with_mallocs []).writes_strays rfl (Nat.pos_of_ne_zero hd)
    exact absurd hw.strays (Nat.ne_of_gt (hend.of_ok hrun))
  · intro hc mallocs
    have hk := hs.with_mallocs (granted :: mallocs)
    apply Ends.exists_ok
    rw [writeCall, ends_bind]
    refine ends_checkUserStringL (fun _ => ?_) fun hout => hout hu
    rw [ends_bind]
    refine ends_getUserStringL hu (fun hz => ?_) (fun _ hm => ?_) (fun _ _ _ t ht => ?_)
      fun _ _ hfault => absurd hr hfault
    · have hle := demand_le k fd size
      exact hk.writes_nothing (show k.demand fd size = 0 by omega)
    · have hd : k.demand fd size = 0 := hc.resolve_left (Bool.eq_false_iff.mp hm)
      exact (hk.asked.writes_nothing hd).imp fun _ _ hw => hw.congr rfl rfl rfl rfl
    · refine ((ht.sound hk.asked).writes_copy (Memory.length_read _ _ _)).imp fun _ _ hw => ?_
      have hfs : t.fs = (k.withMallocs mallocs).fs := (congrArg Kernel.fs ht.rest :)
      refine hw.congr (congrArg Kernel.strays ht.rest :) (congrArg Kernel.files ht.rest :)
        (congrArg Kernel.console ht.rest :) ?_
      rw [hfs]
      rfl

def onePage : Space where
  table _ := true
  page p := if p = 0x8048 then some true else none
  bytes _ := 65

lemma onePage_readable (m : Machine) {n : Nat} (hn : n ≤ 4096) :
    Kernel.Readable { starting m with space := onePage } ⟨0x08048000, n⟩ := by
  intro i hi
  have hpage : pgNo (0x08048000 + i) = 0x8048 := by
    simp only at hi
    rw [pgNo, pgSize]
    omega
  simp only [onePage, hpage, if_true]
  exact Option.some_ne_none true

lemma inUser_onePage {n : Nat} (hn : n ≤ 4096) : InUser ⟨0x08048000, n⟩ :=
  inUser_iff.mpr fun i hi => by rw [mem_userRange, physBase]; omega

lemma onePage_reachable {m : Machine} (h : Filesys.system.Reachable m) :
    system.Reachable { starting m with space := onePage } :=
  (starting_reachable h).step (a := .resume onePage fun _ => 0) rfl

theorem write_honest_iff_console : ∃ k, system.Reachable k ∧ InUser ⟨0x08048000, 2⟩ ∧ k.Readable ⟨0x08048000, 2⟩ ∧
    ∀ mallocs, Honest (k.withMallocs (true :: mallocs)) 1 0x08048000 2 := by
  have hrun : ((smallRun []).map fun m => m.held) = some [] := by decide +kernel
  obtain ⟨m, hm, _⟩ := Option.map_eq_some_iff.mp hrun
  have hr := onePage_reachable (smallRun_reachable hm).reachable
  have hu : InUser ⟨0x08048000, 2⟩ := inUser_onePage (by omega)
  have hread := onePage_readable m (show 2 ≤ 4096 by omega)
  exact ⟨_, hr, hu, hread, (write_honest_iff hr 1 hu hread true).mpr (.inl rfl)⟩

theorem write_reads_through_null : ∃ k t, system.Reachable k ∧ InUser ⟨0x08048000, 1⟩ ∧
    k.Readable ⟨0x08048000, 1⟩ ∧ writeCall 1 0x08048000 1 (k.withMallocs [false]) = .error (.panicked .kernelBug) t ∧
    t.strays = [⟨0, 1⟩] := by
  have hrun : ((smallRun []).map fun m => m.held) = some [] := by decide +kernel
  obtain ⟨m, hm, _⟩ := Option.map_eq_some_iff.mp hrun
  have hr := onePage_reachable (smallRun_reachable hm).reachable
  exact ⟨_, _, hr, inUser_onePage (by omega), onePage_readable m (by omega), rfl, rfl⟩

end Pintos.Syscall
