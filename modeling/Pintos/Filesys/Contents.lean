import Pintos.Filesys.Creation
import Pintos.Filesys.Reboot

/-! Open files as lists of bytes with a position, and a file system with one file of known contents. -/

namespace Pintos.Filesys

open Pintos.Foundation Pintos.Kernel

structure OpenAt (s : Fs) (b : Books) (held : List (Nat × Nat)) (f p : Nat) (o : Obj) (pos : Nat) : Prop where
  live : Live s b held
  mem : (f, p) ∈ held
  file : o ∈ b.files
  on : ∃ x i, OpenOn s f p o x i ∧ x.pos = pos

variable {s t : Fs} {b b' : Books} {held : List (Nat × Nat)} {f p pos : Nat} {o : Obj} {name : Name}

lemma SameDisk.refl (s : Fs) : SameDisk s s := ⟨rfl, rfl, rfl, rfl, id⟩

lemma length_content (s : Fs) (o : Obj) : (s.content o).length = o.length := Memory.length_read _ _ _

namespace OpenAt

lemma setFile_on {x : File} {i : Inode} (h : OpenOn s f p o x i) (ms : List Bool) (pos : Nat) :
    OpenOn (Fs.setFile { s with mallocs := ms } f (some { x with pos })) f p o { x with pos } i :=
  ⟨by rw [Fs.setFile_file, if_pos rfl], h.ptr, h.inode, h.sector, h.data⟩

lemma read (h : OpenAt s b held f p o pos) (size : Int) :
    ∃ n t, fileRead s f size = .ok (((s.content o).drop pos).take n, t) ∧
      OpenAt t b held f p o (pos + n) ∧ SameDisk s t ∧ n ≤ min size.toNat (o.length - pos) ∧
      (s.mallocs = [] → n = min size.toNat (o.length - pos)) := by
  obtain ⟨x, i, hon, rfl⟩ := h.on
  obtain ⟨n, ms, hrun, hlive, ht⟩ := h.live.reads h.mem h.file hon size
  refine ⟨n, _, hrun, ⟨hlive, h.mem, h.file, _, i, setFile_on hon ms _, rfl⟩, ?_, ht.le,
    fun hq => (ht.quiet hq).1⟩
  exact ⟨rfl, rfl, rfl, rfl, fun hq => (ht.quiet hq).2⟩

lemma seek (h : OpenAt s b held f p o pos) {newPos : Int} (hpos : 0 ≤ newPos) :
    ∃ t, fileSeek s f newPos = .ok t ∧ OpenAt t b held f p o newPos.toNat ∧ SameDisk s t := by
  obtain ⟨x, i, hon, rfl⟩ := h.on
  obtain ⟨hrun, hlive⟩ := h.live.seeks h.mem hon.file hpos
  exact ⟨_, hrun, ⟨hlive, h.mem, h.file, _, i, setFile_on hon s.mallocs _, rfl⟩, rfl, rfl, rfl, rfl, id⟩

lemma length (h : OpenAt s b held f p o pos) : fileLength s f = .ok (o.length : Int) := by
  obtain ⟨x, i, hon, -⟩ := h.on
  exact hon.fileLength_eq

end OpenAt

lemma Live.opensAt (h : Live s b held) (hrun : filesysOpen s name = .ok (some f, t)) :
    ∃ p k o, OpenAt t b ((f, p) :: held) f p o 0 ∧ SameDisk s t ∧ Inv.FirstFound s b name k ∧
      NamedBy s b name k o ∧ t.denies f = false := by
  obtain ⟨p, k, o, i, hlive, hd, hk, hof, hos, hon⟩ := h.opens_first hrun
  refine ⟨p, k, o, ⟨hlive, List.mem_cons_self, hof, _, i, hon, rfl⟩, hd, hk, ⟨hk.lt, hk.found, hof, hos⟩, ?_⟩
  rw [Fs.denies, hon.file, Option.any_some]

lemma NamedBy.unique (h : Live s b held) {k : Nat} {o o' : Obj} (ho : NamedBy s b name k o)
    (ho' : NamedBy s b name k o') : o = o' :=
  eq_of_sector h.inv.sound.exclusive (Books.file_mem ho.file) (Books.file_mem ho'.file)
    (ho.sector.trans ho'.sector.symm)

lemma Live.content_of_resolve (h : Live s b held) {length : Int} {content : List Byte}
    (hr : resolve { s with mallocs := [] } name = .ok (some (length, content))) {k : Nat}
    (hk : Inv.FirstFound s b name k) (ho : NamedBy s b name k o) : s.content o = content := by
  rcases (h.with_mallocs []).resolves rfl name with ⟨-, hr'⟩ | ⟨l, o', hl, ho', hr'⟩
  · cases hr.symm.trans hr'
  · obtain rfl : k = l := hk.unique hl fun _ => rfl
    obtain rfl : o = o' := ho.unique h ⟨ho'.lt, ho'.found, ho'.file, ho'.sector⟩
    cases hr.symm.trans hr'
    rfl

lemma Live.opens_of_resolve (h : Live s b held) {r : Int × List Byte} (hr : resolve s name = .ok (some r)) :
    ∃ f t, filesysOpen s name = .ok (some f, t) := by
  obtain ⟨file, t, hrun, -⟩ := h.opensNamed name
  cases file with
  | some f => exact ⟨f, t, hrun⟩
  | none =>
    simp only [resolve, hrun, bind_ok] at hr
    cases hr

def Allows (s : Fs) (p : Nat) : Prop := ∀ i, s.inode p = some i → i.denyWriteCnt = 0

lemma OpenAt.allows (h : OpenAt s b [(f, p)] f p o pos) (hd : s.denies f = false) : Allows s p := by
  intro i hi
  rw [h.live.denied p i hi, Fs.deniers]
  simp [hd]

structure Patched (s t : Fs) (b : Books) (o : Obj) (pos : Nat) (bs : List Byte) : Prop where
  freeMap : t.freeMap = s.freeMap
  sectors : t.sectors = s.sectors
  quiet : s.mallocs = [] → t.mallocs = []
  own : t.content o = overlay (s.content o) pos bs
  others : ∀ o' ∈ b.objs, o' ≠ o → t.content o' = s.content o'

lemma OpenAt.write (h : OpenAt s b held f p o pos) (ha : Allows s p) (buffer : List Byte) (size : Int) :
    ∃ n t, fileWrite s f buffer size = .ok (n, t) ∧ OpenAt t b held f p o (pos + n) ∧ Allows t p ∧
      Patched s t b o pos (buffer.take n) ∧ n ≤ min (min size.toNat buffer.length) (o.length - pos) ∧
      (s.mallocs = [] → n = min (min size.toNat buffer.length) (o.length - pos)) := by
  obtain ⟨x, i, hon, rfl⟩ := h.on
  obtain rfl := hon.ptr
  have hinv := h.live.inv
  obtain ⟨n, ms, hrun, ht⟩ := inodeWriteAt_eq (hinv.sound.placed _ (Books.file_mem h.file)) hon.inode
    hon.data (ha i hon.inode) buffer size x.pos
  have hle := ht.le
  have hl : buffer.take n = [] ∨ x.pos + (buffer.take n).length ≤ o.length := by
    rw [List.length_take]
    by_cases hn : n = 0
    · exact .inl (by rw [hn, List.take_zero])
    · exact .inr (by omega)
  obtain ⟨hlive, hown, hothers⟩ := h.live.written h.file hl ms
  refine ⟨n, _, ?_, ⟨hlive.moved h.mem hon.file (x.pos + n), h.mem, h.file, { x with pos := x.pos + n }, i,
    ?_, rfl⟩, ha, ⟨rfl, rfl, fun hq => (ht.quiet hq).2, hown, hothers⟩, hle, fun hq => (ht.quiet hq).1⟩
  · simp only [fileWrite, fileAt_eq hon.file, bind_ok, hrun, pure_eq_ok]
  · exact ⟨by rw [Fs.setFile_file, if_pos rfl], rfl, hon.inode, hon.sector, hon.data⟩

lemma NamedBy.of_slot {l : Nat} (h : NamedBy s b name l o)
    (hslot : t.slot b.root l = s.slot b.root l) : NamedBy t b name l o :=
  ⟨h.lt, hslot ▸ h.found, h.file, hslot ▸ h.sector⟩

lemma SameDisk.slot (hd : SameDisk s t) (l : Nat) : t.slot b.root l = s.slot b.root l := by
  rw [Fs.slot, Fs.slot, hd.disk]

lemma Patched.slot {bs : List Byte} (hp : Patched s t b o pos bs) (hlive : Live s b held) (ho : o ∈ b.files)
    {l : Nat} (hl : l < rootEntries) : t.slot b.root l = s.slot b.root l :=
  slot_congr (hp.others b.root b.root_mem (Ne.symm (Books.file_ne hlive.inv.sound.exclusive ho).2)) hl

/-- `name` is the only name in the root directory, and `o` is its file. -/
structure Alone (s : Fs) (b : Books) (held : List (Nat × Nat)) (name : Name) (k : Nat) (o : Obj) : Prop where
  live : Live s b held
  quiet : s.mallocs = []
  named : NamedBy s b name k o
  others : ∀ l < rootEntries, l ≠ k → entryInUse (s.slot b.root l) = false

namespace Alone

variable {k : Nat}

section

variable (h : Alone s b held name k o)

include h

lemma of_slots {held' : List (Nat × Nat)} (hlive : Live t b held')
    (hq : t.mallocs = []) (hslot : ∀ l < rootEntries, t.slot b.root l = s.slot b.root l) :
    Alone t b held' name k o := by
  refine ⟨hlive, hq, h.named.of_slot (hslot k h.named.lt), fun l hl hlk => ?_⟩
  rw [hslot l hl]
  exact h.others l hl hlk

lemma of_sameDisk {held' : List (Nat × Nat)} (hd : SameDisk s t)
    (hlive : Live t b held') : Alone t b held' name k o :=
  h.of_slots hlive (hd.quiet h.quiet) fun l _ => hd.slot l

lemma eq_of_named {l : Nat} {o' : Obj} (ho : NamedBy s b name l o') : l = k ∧ o' = o := by
  obtain rfl : l = k := by
    by_contra hlk
    cases (h.others l ho.lt hlk).symm.trans ho.found.1
  exact ⟨rfl, ho.unique h.live h.named⟩

lemma resolve_eq : resolve s name = .ok (some (o.length, s.content o)) := by
  rcases h.live.resolves h.quiet name with ⟨hno, -⟩ | ⟨l, o', -, ho, hr⟩
  · exact (hno k h.named.lt h.named.found).elim
  · obtain ⟨-, rfl⟩ := h.eq_of_named ho
    exact hr

end

lemma opens (h : Alone s b [] name k o) :
    ∃ f t p, filesysOpen s name = .ok (some f, t) ∧ Alone t b [(f, p)] name k o ∧
      OpenAt t b [(f, p)] f p o 0 ∧ Allows t p := by
  obtain ⟨f, t, hrun⟩ := h.live.opens_of_resolve h.resolve_eq
  obtain ⟨p, l, o', hat, hd, -, ho, hdeny⟩ := h.live.opensAt hrun
  obtain ⟨-, rfl⟩ := h.eq_of_named ho
  exact ⟨f, t, p, hrun, h.of_sameDisk hd hat.live, hat, hat.allows hdeny⟩

lemma close (h : Alone s b [(f, p)] name k o) (hat : OpenAt s b [(f, p)] f p o pos) :
    ∃ t, fileClose s (some f) = .ok t ∧ SameDisk s t ∧ Alone t b [] name k o := by
  obtain ⟨x, i, hon, -⟩ := hat.on
  obtain ⟨t, hrun, hlive, hd⟩ := h.live.closes_named hat.mem h.named.lt h.named.found.1 fun j hj => by
    cases hon.inode.symm.trans hj
    rw [hon.sector, h.named.sector]
  rw [List.erase_cons_head] at hlive
  exact ⟨t, hrun, hd, h.of_sameDisk hd hlive⟩

end Alone

lemma room_of_clear {c : Bitmap} {k cnt : Nat} (h : c.ClearFrom k) (hk : k + 1 + cnt ≤ c.bitCnt) :
    Room c cnt := by
  have hfit : c.Fits false 1 k := h.fits le_rfl (by omega)
  obtain ⟨x, hx, hfirst⟩ : ∃ x, c.Fits false 1 x ∧ ∀ y < x, ¬ c.Fits false 1 y := by
    classical exact ⟨Nat.find ⟨k, hfit⟩, Nat.find_spec ⟨k, hfit⟩, fun y hy => Nat.find_min ⟨k, hfit⟩ hy⟩
  have hxk : x ≤ k := by
    by_contra hn
    exact hfirst k (by omega) hfit
  exact ⟨x, hx, hfirst, k + 1, h.fits (by omega) (by omega), by omega⟩

lemma Fresh.create (h : Fresh s b) (hq : s.mallocs = []) {c length : Nat} (hc : s.freeMap.ClearFrom c)
    (hvalid : nameValid name = true) (hl : length < 2147483648)
    (hk : c + 1 + bytesToSectors length ≤ s.sectors) :
    ∃ t b' k o, filesysCreate s name length = .ok (true, t) ∧ Alone t b' [] name k o ∧ o.length = length := by
  have hfree : ∀ l < rootEntries, entryInUse (s.slot b.root l) ≠ true := fun l hl =>
    not_inUse_of_empty h.empty hl
  have hbits : s.freeMap.bitCnt = s.sectors := h.live.inv.bitCnt
  have haccept : ¬ Declines s b name := by
    rintro (hv | ⟨l, hl, hf⟩ | hall)
    · cases hvalid.symm.trans hv
    · exact hfree l hl hf.1
    · exact hfree 0 (by decide) (hall 0 (by decide))
  obtain ⟨t, b', hrun, hlive, hmade⟩ :=
    h.live.create_true hq name hl (room_of_clear hc (hbits ▸ hk)) haccept
  obtain ⟨-, o, k, rfl, hlength, -, -, henter, -⟩ := hmade.made rfl
  refine ⟨t, _, k, o, hrun, ⟨hlive, hmade.carries.quiet hq,
    ⟨henter.lt, henter.found, List.mem_cons_self, henter.sector.symm⟩, fun l hl hlk => ?_⟩, Int.natCast_inj.mp hlength⟩
  have hslot : t.slot b.root l = s.slot b.root l := henter.others l hl hlk
  exact (congrArg entryInUse hslot).trans (eq_false_of_ne_true (hfree l hl))

section Reach

variable {m : Machine}

lemma Machine.step (h : system.Reachable m) (hq : m.fs.mallocs = []) (op : Op) (r : Answer) {t : Fs}
    (hrun : op.run m.fs = .ok (r, t)) (hl : ∀ f, op.file = some f → f ∈ m.held) :
    system.Reachable ⟨t, op.held m.held r⟩ := by
  have hfs : { m.fs with mallocs := [] } = m.fs := by rw [← hq]
  refine h.step (a := ⟨op, []⟩) ?_
  have hlegal : m.legal ⟨op, []⟩ = true := by
    rw [Machine.legal]
    cases hf : op.file with
    | none => rfl
    | some f => simpa using hl f hf
  change next m ⟨op, []⟩ = _
  rw [next, if_pos hlegal, Machine.call]
  simp only [hfs, hrun, bind_ok]
  rfl

lemma bytesToSectors_eq {n : Nat} (h : n + 511 < 2147483648) : bytesToSectors n = (n + 511) / 512 := by
  have he : ofInt32 ((n : Int) + 511) = n + 511 := by
    rw [ofInt32]
    omega
  have hd : ((n + 511 : Nat) : Int).tdiv 512 = ((n + 511) / 512 : Nat) := by
    rw [Int.tdiv_eq_ediv_of_nonneg (by omega)]
    omega
  rw [bytesToSectors, he, toInt32_of_lt h, hd, ofInt32_natCast (by omega)]

lemma exists_formatted : ∃ fs, filesysInit (boot (fun _ => 0) 100 (by decide) []) (fun _ => 0) true = .ok fs := by
  have hinit : (filesysInit (boot (fun _ => 0) 100 (by decide) []) (fun _ => 0) true).toOption.isSome = true := by
    decide +kernel
  generalize filesysInit (boot (fun _ => 0) 100 (by decide) []) (fun _ => 0) true = r at *
  cases r with
  | error e => cases hinit
  | ok fs => exact ⟨fs, rfl⟩

lemma exists_file (hvalid : nameValid name = true) {content : List Byte} (hlen : content.length ≤ 40000) :
    ∃ m, system.Reachable m ∧
      resolve { m.fs with mallocs := [] } name = .ok (some (content.length, content)) := by
  obtain ⟨fs, hformat⟩ := exists_formatted
  have hr₀ : system.Reachable ⟨fs, []⟩ := .init ⟨rfl, _, _, _, _, _, hformat⟩
  obtain ⟨b, hfresh, hsectors, hq, hclear⟩ := filesysInit_format hformat
  have hmap : bytesToSectors (byteCnt 100) = 1 := by decide
  have hcnt := bytesToSectors_eq (n := content.length) (by omega)
  have hoff : -2147483648 ≤ (content.length : Int) ∧ (content.length : Int) < 2147483648 := by omega
  rw [hmap] at hclear
  obtain ⟨t₁, b₁, k, o, hrun₁, h₁, hlength⟩ := hfresh.create (hq rfl) hclear hvalid
    (show content.length < 2147483648 by omega) (by rw [hcnt, hsectors]; omega)
  have hr₁ : system.Reachable ⟨t₁, []⟩ := Machine.step hr₀ (hq rfl) (.create name ⟨content.length, hoff⟩)
    (.flag true) (bind_of_ok hrun₁ _) nofun
  obtain ⟨f, t₂, p, hrun₂, h₂, hat₂, hallow⟩ := h₁.opens
  have hr₂ : system.Reachable ⟨t₂, [f]⟩ := Machine.step hr₁ h₁.quiet (.openNamed name)
    (.handle (some f)) (bind_of_ok hrun₂ _) nofun
  obtain ⟨n, t₃, hrun₃, hat₃, -, hpatch, -, hn⟩ := hat₂.write hallow content content.length
  have hr₃ : system.Reachable ⟨t₃, [f]⟩ := Machine.step hr₂ h₂.quiet (.write f content ⟨content.length, hoff⟩)
    (.count n) (bind_of_ok hrun₃ _) (by rintro g ⟨⟩; exact List.mem_cons_self)
  have h₃ := h₂.of_slots hat₃.live (hpatch.quiet h₂.quiet) fun l hl => hpatch.slot h₂.live h₂.named.file hl
  obtain ⟨t₄, hrun₄, hd, h₄⟩ := h₃.close hat₃
  have hr₄ := Machine.step hr₃ h₃.quiet (.close f) .done (bind_of_ok hrun₄ _)
    (by rintro g ⟨⟩; exact List.mem_cons_self)
  have hcontent : t₄.content o = content := by
    have hlen := length_content t₂ o
    rw [hd.content, hpatch.own, hn h₂.quiet, hlength, List.take_of_length_le (by omega), overlay, List.take_zero,
      List.nil_append, List.drop_eq_nil_of_le (by omega), List.append_nil]
  refine ⟨_, hr₄, ?_⟩
  have hfs : { t₄ with mallocs := [] } = t₄ := by rw [← h₄.quiet]
  change resolve { t₄ with mallocs := [] } name = _
  rw [hfs, h₄.resolve_eq, hlength, hcontent]

end Reach

end Pintos.Filesys
