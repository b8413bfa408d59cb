import Pintos.Filesys.Runs

/-! What the completed calls say each file holds, and that reads return just that. -/

namespace Pintos.Filesys

open Pintos.Foundation Pintos.Kernel

/-- The files in the order of their creation: their bytes, which names they have, and for each open
file the one it is on and its position. -/
structure Ledger where
  count : Nat
  bytes : Nat → List Byte
  named : Name → Option Nat
  handle : Nat → Option (Nat × Nat)

namespace Ledger

def empty : Ledger where
  count := 0
  bytes _ := []
  named _ := none
  handle _ := none

def setHandle (σ : Ledger) (f : Nat) (x : Option (Nat × Nat)) : Ledger :=
  { σ with handle := Function.update σ.handle f x }

def overwrite (σ : Ledger) (k ofs : Nat) (bs : List Byte) : Ledger :=
  { σ with bytes := Function.update σ.bytes k (overlay (σ.bytes k) ofs bs) }

def record (σ : Ledger) : Op → Answer → Ledger
  | .create name initialSize, .flag true =>
    { σ with
      count := σ.count + 1
      bytes := Function.update σ.bytes σ.count (List.replicate initialSize.val.toNat 0)
      named := Function.update σ.named name (some σ.count) }
  | .openNamed name, .handle (some f) => σ.setHandle f ((σ.named name).map fun k => (k, 0))
  | .remove name, .flag true => { σ with named := Function.update σ.named name none }
  | .reopen f, .handle (some g) => σ.setHandle g ((σ.handle f).map fun x => (x.1, 0))
  | .read f _, .bytes bs => σ.setHandle f ((σ.handle f).map fun x => (x.1, x.2 + bs.length))
  | .write f buffer _, .count n =>
    match σ.handle f with
    | some (k, pos) => (σ.overwrite k pos (buffer.take n)).setHandle f (some (k, pos + n))
    | none => σ
  | .writeAt f buffer _ ofs, .count n =>
    match σ.handle f with
    | some (k, _) => σ.overwrite k ofs (buffer.take n)
    | none => σ
  | .seek f newPos, .done => σ.setHandle f ((σ.handle f).map fun x => (x.1, newPos.val.toNat))
  | .close f, .done => σ.setHandle f none
  | _, _ => σ

end Ledger

structure Recorded where
  machine : Machine
  ledger : Ledger

def recordedNext (x : Recorded) (c : Call) : Option Recorded :=
  if x.machine.legal c then
    match x.machine.call c with
    | .ok (r, machine) => some { machine, ledger := x.ledger.record c.op r }
    | .error _ => none
  else none

def recordedSystem : System Recorded Call where
  init x := system.init x.machine ∧ x.ledger = .empty
  next := recordedNext

structure Reflects (s : Fs) (b : Books) (held : List (Nat × Nat)) (σ : Ledger) (id : Nat → Nat) : Prop where
  bytes : ∀ o ∈ b.files, σ.bytes (id o.sector) = s.content o
  inj : ∀ o ∈ b.files, ∀ o' ∈ b.files, id o.sector = id o'.sector → o = o'
  lt : ∀ o ∈ b.files, id o.sector < σ.count
  named : ∀ k < rootEntries, ∀ name, Found (s.slot b.root k) name →
    σ.named name = some (id (entrySector (s.slot b.root k)))
  distinct : ∀ k < rootEntries, ∀ l < rootEntries, ∀ name, Found (s.slot b.root k) name →
    Found (s.slot b.root l) name → k = l
  handle : ∀ f p, (f, p) ∈ held → ∀ x i, s.file f = some x → s.inode p = some i →
    σ.handle f = some (id i.sector, x.pos)

variable {s t : Fs} {b b' : Books} {held held' : List (Nat × Nat)} {σ : Ledger} {id : Nat → Nat} {f p : Nat}

namespace Reflects

variable (h : Reflects s b held σ id) (hl : Live s b held)

include h hl

lemma frame (hb : b'.files ⊆ b.files) (hroot : b'.root = b.root) (hc : ∀ o ∈ b.files, t.content o = s.content o)
    (hr : t.content b.root = s.content b.root) (hheld : held' ⊆ held)
    (hfile : ∀ f p, (f, p) ∈ held' → ∀ x, t.file f = some x → ∃ y, s.file f = some y ∧ y.pos = x.pos)
    (htr : Tracks s t) : Reflects t b' held' σ id where
  bytes o ho := (h.bytes o (hb ho)).trans (hc o (hb ho)).symm
  inj o ho o' ho' := h.inj o (hb ho) o' (hb ho')
  lt o ho := h.lt o (hb ho)
  named k hk := by
    rw [hroot, slot_congr hr hk]
    exact h.named k hk
  distinct k hk l hl := by
    rw [hroot, slot_congr hr hk, slot_congr hr hl]
    exact h.distinct k hk l hl
  handle f p hm x i hx hi := by
    obtain ⟨y, hy, hpos⟩ := hfile f p hm x hx
    obtain ⟨j, hj, hs⟩ := htr.2 p (hl.lt_next (hheld hm)).2 i hi
    rw [h.handle f p (hheld hm) y j hy hj, hs, hpos]

variable {k : Nat}

lemma opened (hd : SameDisk s t) (hh : Handle s t f p)
    (htr : Tracks s t) (hk : ∀ i, t.inode p = some i → id i.sector = k) :
    Reflects t b ((f, p) :: held) (σ.setHandle f (some (k, 0))) id := by
  have hold : ∀ g q, (g, q) ∈ held → g ≠ f := by
    intro g q hm
    have hlt := (hl.lt_next hm).1
    have hge := hh.fresh
    omega
  have hf : Reflects t b held σ id := h.frame hl (List.Subset.refl _) rfl (fun o _ => hd.content o)
    (hd.content _) (List.Subset.refl _) (fun g q hm x hx => ⟨x, hh.others g (hold g q hm) ▸ hx, rfl⟩) htr
  refine ⟨hf.bytes, hf.inj, hf.lt, hf.named, hf.distinct, fun g q hm x i hx hi => ?_⟩
  rcases List.mem_cons.mp hm with he | hm
  · cases he
    cases hh.file.symm.trans hx
    rw [hk i hi]
    exact Function.update_self ..
  · exact (Function.update_of_ne (hold g q hm) _ _).trans (hf.handle g q hm x i hx hi)

lemma moved (hm : (f, p) ∈ held) {x : File}
    (hx : s.file f = some x) {i : Inode} (hi : s.inode p = some i) (pos : Nat) :
    Reflects (s.setFile f (some { x with pos })) b held (σ.setHandle f (some (id i.sector, pos))) id := by
  refine ⟨h.bytes, h.inj, h.lt, h.named, h.distinct, fun g q hg y j hy hj => ?_⟩
  rw [Fs.setFile_file] at hy
  by_cases hgf : g = f
  · subst hgf
    rw [if_pos rfl] at hy
    cases hy
    rw [hl.counted.eq_of_key hm hg] at hj
    cases hi.symm.trans hj
    exact Function.update_self ..
  · rw [if_neg hgf] at hy
    exact (Function.update_of_ne hgf _ _).trans (h.handle g q hg y j hy hj)

omit h hl in
lemma written (h : Reflects s b held σ id) (hx : Exclusive Obj.sectors b.objs) {o : Obj} (ho : o ∈ b.files)
    {ofs n : Nat} {buffer : List Byte} (hw : Writes s t b o ofs buffer n) :
    Reflects t b held (σ.overwrite (id o.sector) ofs (buffer.take n)) id where
  bytes o' ho' := by
    by_cases he : o' = o
    · subst he
      rw [hw.own, ← h.bytes o' ho']
      exact Function.update_self ..
    · rw [hw.others o' (Books.file_mem ho') he, ← h.bytes o' ho']
      exact Function.update_of_ne (fun hid => he (h.inj o' ho' o ho hid)) _ _
  inj := h.inj
  lt := h.lt
  named k hk := by
    rw [slot_congr (hw.others b.root b.root_mem (Ne.symm (Books.file_ne hx ho).2)) hk]
    exact h.named k hk
  distinct k hk l hl := by
    have hr := hw.others b.root b.root_mem (Ne.symm (Books.file_ne hx ho).2)
    rw [slot_congr hr hk, slot_congr hr hl]
    exact h.distinct k hk l hl
  handle g q hg := by
    rw [hw.table.file, hw.table.inode]
    exact h.handle g q hg

lemma created {name : Name} {size : Off} {o : Obj}
    (hc : ∀ o ∈ b.files, t.content o = s.content o) (hnew : o.sector ∉ owned b.objs)
    (hlen : (o.length : Int) = size) (hz : t.content o = List.replicate o.length 0)
    (hent : Enters s t b.root name o.sector k) (hno : ∀ l < rootEntries, ¬ Found (s.slot b.root l) name)
    (hf : t.file = s.file) (htr : Tracks s t) :
    Reflects t (b.add o) held (σ.record (.create name size) (.flag true))
      (Function.update id o.sector σ.count) := by
  have hid : ∀ x, x ∈ owned b.objs → Function.update id o.sector σ.count x = id x := by
    rintro x hx
    exact Function.update_of_ne (by rintro rfl; exact hnew hx) _ _
  have hself : Function.update id o.sector σ.count o.sector = σ.count := Function.update_self ..
  have hfile : ∀ o' ∈ b.files, o'.sector ∈ owned b.objs := fun o' ho' => sector_mem_owned (Books.file_mem ho')
  refine ⟨fun o' ho' => ?_, fun o' ho' o'' ho'' he => ?_, fun o' ho' => ?_, fun l hlt name' hfound => ?_,
    hent.once hno h.distinct, fun g q hg x i hx hi => ?_⟩
  · rcases List.mem_cons.mp ho' with rfl | ho'
    · rw [hself, hz]
      exact (Function.update_self ..).trans (by rw [← hlen, Int.toNat_natCast])
    · rw [hid _ (hfile o' ho'), hc o' ho', ← h.bytes o' ho']
      exact Function.update_of_ne (Nat.ne_of_lt (h.lt o' ho')) _ _
  · rcases List.mem_cons.mp ho' with rfl | hm' <;> rcases List.mem_cons.mp ho'' with rfl | hm''
    · rfl
    · rw [hself, hid _ (hfile o'' hm'')] at he
      exact absurd (h.lt o'' hm'') (by omega)
    · rw [hself, hid _ (hfile o' hm')] at he
      exact absurd (h.lt o' hm') (by omega)
    · rw [hid _ (hfile o' hm'), hid _ (hfile o'' hm'')] at he
      exact h.inj o' hm' o'' hm'' he
  · rcases List.mem_cons.mp ho' with rfl | ho'
    · rw [hself]
      exact Nat.lt_succ_self _
    · rw [hid _ (hfile o' ho')]
      exact Nat.lt_succ_of_lt (h.lt o' ho')
  · change Function.update σ.named name (some σ.count) name' = _
    by_cases hlk : l = k
    · subst hlk
      rw [hent.name_eq hfound, Function.update_self]
      exact congrArg some ((congrArg _ hent.sector).trans hself).symm
    · rw [Function.update_of_ne (hent.name_ne hno hlt hlk hfound)]
      have hslot : t.slot (b.add o).root l = s.slot b.root l := hent.others l hlt hlk
      rw [hslot] at hfound ⊢
      obtain ⟨o', ho', hs⟩ := hl.inv.names.named l hlt hfound.1
      rw [h.named l hlt name' hfound, hid _ (hs ▸ hfile o' ho')]
  · obtain ⟨j, hj, hs⟩ := htr.2 q (hl.lt_next hg).2 i hi
    obtain ⟨o', ho', hos, _⟩ := hl.inv.table.backed q j hj
    have hown : i.sector ∈ owned b.objs := hs ▸ hos ▸ sector_mem_owned ho'
    rw [hid _ hown, ← hs]
    exact h.handle g q hg x j (hf ▸ hx) hj

lemma removed {name : Name}
    (hb : b'.files ⊆ b.files) (hroot : b'.root = b.root) (hc : ∀ o ∈ b.files, t.content o = s.content o)
    (hk : Leaves s t b.root name k) (hf : t.file = s.file) (htr : Tracks s t) :
    Reflects t b' held (σ.record (.remove name) (.flag true)) id := by
  have hold : ∀ l < rootEntries, ∀ name', Found (t.slot b.root l) name' →
      t.slot b.root l = s.slot b.root l ∧ name' ≠ name := by
    intro l hlt name' hfound
    have hlk : l ≠ k := by
      rintro rfl
      exact Bool.false_ne_true (hk.freed.symm.trans hfound.1)
    have hslot := hk.others l hlt hlk
    refine ⟨hslot, ?_⟩
    rintro rfl
    rw [hslot] at hfound
    exact hlk (h.distinct l hlt k hk.lt name' hfound hk.found)
  refine ⟨fun o ho => (h.bytes o (hb ho)).trans (hc o (hb ho)).symm,
    fun o ho o' ho' => h.inj o (hb ho) o' (hb ho'), fun o ho => h.lt o (hb ho), fun l hlt name' hfound => ?_,
    fun l hlt l' hlt' name' hfound hfound' => ?_, fun g q hg x i hx hi => ?_⟩
  · rw [hroot] at hfound ⊢
    obtain ⟨hslot, hne⟩ := hold l hlt name' hfound
    rw [hslot] at hfound ⊢
    exact (Function.update_of_ne hne _ _).trans (h.named l hlt name' hfound)
  · rw [hroot] at hfound hfound'
    rw [(hold l hlt name' hfound).1] at hfound
    rw [(hold l' hlt' name' hfound').1] at hfound'
    exact h.distinct l hlt l' hlt' name' hfound hfound'
  · obtain ⟨j, hj, hs⟩ := htr.2 q (hl.lt_next hg).2 i hi
    rw [← hs]
    exact h.handle g q hg x j (hf ▸ hx) hj

lemma marked {x : File} (hx : s.file f = some x) {deny : Bool}
    (hmark : Marks s t f { x with denyWrite := deny }) : Reflects t b held σ id := by
  apply h.frame hl (List.Subset.refl _) rfl (fun o _ => hmark.disk.content o) (hmark.disk.content _)
    (List.Subset.refl _) _ hmark.sectors
  intro g q _ y hy
  rw [hmark.file, Fs.setFile_file] at hy
  split at hy
  · next hgf =>
    cases hy
    exact ⟨x, hgf ▸ hx, rfl⟩
  · exact ⟨y, hy, rfl⟩

end Reflects

def Told (s : Fs) (held : List Nat) (σ : Ledger) : Prop :=
  ∃ b held' id, Live s b held' ∧ held'.map Prod.fst = held ∧ Reflects s b held' σ id

section

variable (h : Reflects s b held σ id) (hl : Live s b held)

include h hl

lemma Reflects.create (hq : s.mallocs = []) (name : Name)
    (size : Off) {ok : Bool} (hrun : filesysCreate s name size = .ok (ok, t)) :
    Told t (held.map Prod.fst) (σ.record (.create name size) (.flag ok)) := by
  rcases hl.creates name size.property.2 with ⟨ok', u, b', hrun', hlive, hc⟩ | ⟨-, hrun'⟩
  swap
  · cases hrun.symm.trans hrun'
  cases hrun.symm.trans hrun'
  cases ok with
  | false =>
    obtain ⟨rfl, hr⟩ := hc.refused rfl
    refine ⟨b', held, id, hlive, rfl, ?_⟩
    exact h.frame hl (List.Subset.refl _) rfl hc.carries.files hr (List.Subset.refl _)
      (fun g q _ x hx => ⟨x, hc.file ▸ hx, rfl⟩) (.of_follows hc.follows)
  | true =>
    obtain ⟨_, o, k, rfl, hlen, hnew, hz, hent, hno⟩ := hc.made rfl
    exact ⟨b.add o, held, _, hlive, rfl, h.created hl hc.carries.files hnew hlen hz hent (hno hq).2
      hc.file (.of_follows hc.follows)⟩

lemma Reflects.remove (name : Name) {ok : Bool} (hrun : filesysRemove s name = .ok (ok, t)) :
    Told t (held.map Prod.fst) (σ.record (.remove name) (.flag ok)) := by
  obtain ⟨ok', u, b', hrun', hlive, hr⟩ := hl.unlinks name
  cases hrun.symm.trans hrun'
  have htr : Tracks s t := .of_follows hr.follows
  cases ok with
  | false =>
    obtain ⟨hroot, rfl⟩ := hr.refused rfl
    refine ⟨b', held, id, hlive, rfl, ?_⟩
    exact h.frame hl (List.Subset.refl _) rfl hr.carries.files hroot (List.Subset.refl _)
      (fun g q _ x hx => ⟨x, hr.file ▸ hx, rfl⟩) htr
  | true =>
    obtain ⟨k, hk, hb⟩ := hr.left rfl
    refine ⟨b', held, id, hlive, rfl, h.removed hl ?_ ?_ hr.carries.files hk hr.file htr⟩
    · rcases hb with rfl | ⟨o, _, rfl, _⟩
      · exact List.Subset.refl _
      · exact List.erase_subset
    · rcases hb with rfl | ⟨o, _, rfl, _⟩
      · rfl
      · rfl

lemma Reflects.openNamed (name : Name) {r : Option Nat} (hrun : filesysOpen s name = .ok (r, t)) :
    Told t (r.toList ++ held.map Prod.fst) (σ.record (.openNamed name) (.handle r)) := by
  obtain ⟨r', u, hrun', ho, hnone, hsome⟩ := hl.opensNamed name
  cases hrun.symm.trans hrun'
  have htr : Tracks s t := .of_follows ho.follows
  cases r with
  | none =>
    refine ⟨b, held, id, hnone rfl, rfl, ?_⟩
    exact h.frame hl (List.Subset.refl _) rfl (fun o _ => ho.disk.content o) (ho.disk.content _)
      (List.Subset.refl _) (fun g q _ x hx => ⟨x, (ho.missed rfl).1 ▸ hx, rfl⟩) htr
  | some f =>
    obtain ⟨p, k, o, i, hlive, hh, hk, hfound, _, hos, hi, hs⟩ := hsome f rfl
    refine ⟨b, (f, p) :: held, id, hlive, rfl, ?_⟩
    have hrec : σ.record (.openNamed name) (.handle (some f)) =
        σ.setHandle f (some (id (entrySector (s.slot b.root k)), 0)) := by
      rw [Ledger.record, h.named k hk name hfound, Option.map_some]
    rw [hrec]
    apply h.opened hl ho.disk hh htr
    intro j hj
    cases hi.symm.trans hj
    rw [hs, hos]

end

section Handles

variable (h : Reflects s b held σ id) (hl : Live s b held) (hm : (f, p) ∈ held)

include h hl hm

lemma Reflects.reopen {r : Option Nat} (hrun : fileReopen s f = .ok (r, t)) :
    Told t (r.toList ++ held.map Prod.fst) (σ.record (.reopen f) (.handle r)) := by
  obtain ⟨r', u, hrun', hd, hfol, hnone, hsome⟩ := hl.reopens hm
  cases hrun.symm.trans hrun'
  have htr : Tracks s t := .of_follows hfol
  cases r with
  | none =>
    obtain ⟨_, hf, hlive⟩ := hnone rfl
    refine ⟨b, held, id, hlive, rfl, ?_⟩
    exact h.frame hl (List.Subset.refl _) rfl (fun o _ => hd.content o) (hd.content _) (List.Subset.refl _)
      (fun g q _ x hx => ⟨x, hf ▸ hx, rfl⟩) htr
  | some g =>
    obtain ⟨hlive, hh, i, j, hi, hj, hs⟩ := hsome g rfl
    refine ⟨b, (g, p) :: held, id, hlive, rfl, ?_⟩
    obtain ⟨x, hx, _⟩ := hl.file f p hm
    have hrec : σ.record (.reopen f) (.handle (some g)) = σ.setHandle g (some (id i.sector, 0)) := by
      rw [Ledger.record, h.handle f p hm x i hx hi, Option.map_some]
    rw [hrec]
    apply h.opened hl hd hh htr
    intro k hk
    cases hj.symm.trans hk
    rw [hs]

lemma Reflects.read (size : Int) {bs : List Byte} (hrun : fileRead s f size = .ok (bs, t)) (size' : Off) :
    Told t (held.map Prod.fst) (σ.record (.read f size') (.bytes bs)) := by
  obtain ⟨o, x, i, ho, hon⟩ := hl.openOn hm
  obtain ⟨n, ms, hrun', hlive, ht⟩ := hl.reads hm ho hon size
  cases hrun.symm.trans hrun'
  refine ⟨b, held, id, hlive, rfl, ?_⟩
  have hrec : σ.record (.read f size') (.bytes (((s.content o).drop x.pos).take n)) =
      σ.setHandle f (some (id i.sector, x.pos + n)) := by
    rw [Ledger.record, h.handle f p hm x i hon.file hon.inode, Option.map_some, Live.length_slice s ht.le]
  rw [hrec]
  have hsame : Reflects { s with mallocs := ms } b held σ id :=
    ⟨h.bytes, h.inj, h.lt, h.named, h.distinct, h.handle⟩
  exact hsame.moved (hl.with_mallocs ms) hm hon.file hon.inode _

lemma Reflects.readAt (size : Int) (ofs : Nat) {bs : List Byte} (hrun : fileReadAt s f size ofs = .ok (bs, t)) :
    Told t (held.map Prod.fst) σ := by
  obtain ⟨o, x, i, ho, hon⟩ := hl.openOn hm
  obtain ⟨n, ms, hrun', ht⟩ := hl.readsAt ho hon size ofs
  rw [fileReadAt, fileAt_eq hon.file, bind_ok, hon.ptr, hrun'] at hrun
  cases hrun
  exact ⟨b, held, id, hl.with_mallocs ms, rfl, h.bytes, h.inj, h.lt, h.named, h.distinct, h.handle⟩

lemma Reflects.write (buffer : List Byte) (size : Off) {n : Nat}
    (hrun : fileWrite s f buffer size = .ok (n, t)) :
    Told t (held.map Prod.fst) (σ.record (.write f buffer size) (.count n)) := by
  obtain ⟨o, x, i, ho, hon⟩ := hl.openOn hm
  obtain ⟨n', u, hrun', hlu, hlive, hw, _⟩ := hl.writes hm ho hon buffer size
  cases hrun.symm.trans hrun'
  refine ⟨b, held, id, hlive, rfl, ?_⟩
  have hrec : σ.record (.write f buffer size) (.count n) =
      (σ.overwrite (id o.sector) x.pos (buffer.take n)).setHandle f (some (id i.sector, x.pos + n)) := by
    rw [Ledger.record, h.handle f p hm x i hon.file hon.inode, hon.sector]
  rw [hrec]
  exact (h.written hl.inv.sound.exclusive ho hw).moved hlu hm (hw.table.file ▸ hon.file)
    (hw.table.inode ▸ hon.inode) _

lemma Reflects.writeAt (buffer : List Byte) (size : Off) (ofs : Nat) {n : Nat}
    (hrun : fileWriteAt s f buffer size ofs = .ok (n, t)) :
    Told t (held.map Prod.fst) (σ.record (.writeAt f buffer size ofs) (.count n)) := by
  obtain ⟨o, x, i, ho, hon⟩ := hl.openOn hm
  obtain ⟨n', u, hrun', hlive, hw, _⟩ := hl.writesAt ho hon buffer size ofs
  rw [fileWriteAt, fileAt_eq hon.file, bind_ok, hon.ptr, hrun'] at hrun
  cases hrun
  refine ⟨b, held, id, hlive, rfl, ?_⟩
  have hrec : σ.record (.writeAt f buffer size ofs) (.count n) =
      σ.overwrite (id o.sector) ofs (buffer.take n) := by
    rw [Ledger.record, h.handle f p hm x i hon.file hon.inode, hon.sector]
  rw [hrec]
  exact h.written hl.inv.sound.exclusive ho hw

lemma Reflects.seek (newPos : Off) (hrun : fileSeek s f newPos = .ok t) :
    Told t (held.map Prod.fst) (σ.record (.seek f newPos) .done) := by
  obtain ⟨o, x, i, ho, hon⟩ := hl.openOn hm
  rcases Int.lt_or_le newPos.val 0 with hneg | hpos
  · simp only [fileSeek, fileAt_eq hon.file, bind_ok, assertThat_neg (show ¬ 0 ≤ newPos.val by omega),
      bind_error] at hrun
    cases hrun
  · obtain ⟨hrun', hlive⟩ := hl.seeks hm hon.file hpos
    cases hrun.symm.trans hrun'
    refine ⟨b, held, id, hlive, rfl, ?_⟩
    have hrec : σ.record (.seek f newPos) .done = σ.setHandle f (some (id i.sector, newPos.val.toNat)) := by
      rw [Ledger.record, h.handle f p hm x i hon.file hon.inode, Option.map_some]
    rw [hrec]
    exact h.moved hl hm hon.file hon.inode _

lemma Reflects.denyWrite (hrun : fileDenyWrite s f = .ok t) : Told t (held.map Prod.fst) σ := by
  obtain ⟨x, hx, _⟩ := hl.file f p hm
  obtain ⟨u, hrun', hlive, hmark⟩ := hl.deniesWrite hm hx
  cases hrun.symm.trans hrun'
  exact ⟨b, held, id, hlive, rfl, h.marked hl hx hmark⟩

lemma Reflects.allowWrite (hrun : fileAllowWrite s f = .ok t) : Told t (held.map Prod.fst) σ := by
  obtain ⟨x, hx, _⟩ := hl.file f p hm
  obtain ⟨u, hrun', hlive, hmark⟩ := hl.allowsWrite hm hx
  cases hrun.symm.trans hrun'
  exact ⟨b, held, id, hlive, rfl, h.marked hl hx hmark⟩

lemma Reflects.close (hrun : fileClose s (some f) = .ok t) :
    Told t ((held.map Prod.fst).erase f) (σ.record (.close f) .done) := by
  obtain ⟨u, b', hrun', hlive, hst, htr, hf, hroot, _, hb⟩ := hl.closes hm
  cases hrun.symm.trans hrun'
  have hne : ∀ g q, (g, q) ∈ held.erase (f, p) → g ≠ f := by
    rintro g q hg rfl
    exact hl.notMem_erase hm (List.mem_map.mpr ⟨_, hg, rfl⟩)
  have hframe : Reflects t b' (held.erase (f, p)) σ id := by
    apply h.frame hl _ hroot hst.files hst.root List.erase_subset _ htr
    · rcases hb with rfl | ⟨o, _, rfl⟩
      · exact List.Subset.refl _
      · exact List.erase_subset
    · intro g q hg x hx
      exact ⟨x, hf g (hne g q hg) ▸ hx, rfl⟩
  refine ⟨b', held.erase (f, p), id, hlive, map_erase_fst hl.keys hm, hframe.bytes, hframe.inj, hframe.lt,
    hframe.named, hframe.distinct, fun g q hg x i hx hi => ?_⟩
  exact (Function.update_of_ne (hne g q hg) _ _).trans (hframe.handle g q hg x i hx hi)

end Handles

variable {keys : List Nat} {x : Recorded}

lemma Told.run (h : Told s keys σ) (hq : s.mallocs = []) (op : Op)
    (hlegal : ∀ f, op.file = some f → f ∈ keys) {r : Answer} (hrun : op.run s = .ok (r, t)) :
    Told t (op.held keys r) (σ.record op r) := by
  obtain ⟨b, held, id, hl, rfl, h⟩ := h
  have hheld : ∀ f, op.file = some f → ∃ p, (f, p) ∈ held := fun f hf => by simpa using hlegal f hf
  cases op with
  | create name initialSize =>
    obtain ⟨⟨ok, u⟩, hc, hr⟩ := bind_eq_ok.mp hrun
    cases hr
    exact h.create hl hq name initialSize hc
  | openNamed name =>
    obtain ⟨⟨g, u⟩, hc, hr⟩ := bind_eq_ok.mp hrun
    cases hr
    have ht := h.openNamed hl name hc
    cases g with
    | none => exact ht
    | some g => exact ht
  | remove name =>
    obtain ⟨⟨ok, u⟩, hc, hr⟩ := bind_eq_ok.mp hrun
    cases hr
    exact h.remove hl name hc
  | reopen f =>
    obtain ⟨p, hm⟩ := hheld f rfl
    obtain ⟨⟨g, u⟩, hc, hr⟩ := bind_eq_ok.mp hrun
    cases hr
    have ht := h.reopen hl hm hc
    cases g with
    | none => exact ht
    | some g => exact ht
  | read f size =>
    obtain ⟨p, hm⟩ := hheld f rfl
    obtain ⟨⟨bs, u⟩, hc, hr⟩ := bind_eq_ok.mp hrun
    cases hr
    exact h.read hl hm size hc size
  | readAt f size ofs =>
    obtain ⟨p, hm⟩ := hheld f rfl
    obtain ⟨⟨bs, u⟩, hc, hr⟩ := bind_eq_ok.mp hrun
    cases hr
    exact h.readAt hl hm size ofs hc
  | write f buffer size =>
    obtain ⟨p, hm⟩ := hheld f rfl
    obtain ⟨⟨n, u⟩, hc, hr⟩ := bind_eq_ok.mp hrun
    cases hr
    exact h.write hl hm buffer size hc
  | writeAt f buffer size ofs =>
    obtain ⟨p, hm⟩ := hheld f rfl
    obtain ⟨⟨n, u⟩, hc, hr⟩ := bind_eq_ok.mp hrun
    cases hr
    exact h.writeAt hl hm buffer size ofs hc
  | seek f newPos =>
    obtain ⟨p, hm⟩ := hheld f rfl
    obtain ⟨u, hc, hr⟩ := bind_eq_ok.mp hrun
    cases hr
    exact h.seek hl hm newPos hc
  | denyWrite f =>
    obtain ⟨p, hm⟩ := hheld f rfl
    obtain ⟨u, hc, hr⟩ := bind_eq_ok.mp hrun
    cases hr
    exact h.denyWrite hl hm hc
  | allowWrite f =>
    obtain ⟨p, hm⟩ := hheld f rfl
    obtain ⟨u, hc, hr⟩ := bind_eq_ok.mp hrun
    cases hr
    exact h.allowWrite hl hm hc
  | close f =>
    obtain ⟨p, hm⟩ := hheld f rfl
    obtain ⟨u, hc, hr⟩ := bind_eq_ok.mp hrun
    cases hr
    exact h.close hl hm hc

lemma Told.with_mallocs (h : Told s keys σ) (ms : List Bool) :
    Told { s with mallocs := ms } keys σ := by
  obtain ⟨b, held, id, hl, hk, hr⟩ := h
  exact ⟨b, held, id, hl.with_mallocs ms, hk, hr.bytes, hr.inj, hr.lt, hr.named, hr.distinct, hr.handle⟩

lemma Told.reads (h : Told s keys σ) (hq : s.mallocs = []) (hf : f ∈ keys) :
    ∃ k pos, σ.handle f = some (k, pos) ∧
      (∀ size : Int, ∃ t, fileRead s f size = .ok (((σ.bytes k).drop pos).take size.toNat, t)) ∧
      ∀ (size : Int) (ofs : Nat), ∃ t,
        fileReadAt s f size ofs = .ok (((σ.bytes k).drop ofs).take size.toNat, t) := by
  obtain ⟨b, held, id, hl, rfl, hr⟩ := h
  obtain ⟨⟨g, p⟩, hm, rfl⟩ := List.mem_map.mp hf
  obtain ⟨o, x, i, ho, hon⟩ := hl.openOn hm
  have hall : ∀ ofs n : Nat, ((s.content o).drop ofs).take (min n (o.length - ofs)) =
      ((σ.bytes (id i.sector)).drop ofs).take n := by
    intro ofs n
    rw [hon.sector, hr.bytes o ho, List.take_eq_take_iff, List.length_drop, Fs.content, Memory.length_read]
    omega
  refine ⟨id i.sector, x.pos, hr.handle g p hm x i hon.file hon.inode, fun size => ?_, fun size ofs => ?_⟩
  · obtain ⟨n, ms, hrun, _, ht⟩ := hl.reads hm ho hon size
    rw [(ht.quiet hq).1, hall] at hrun
    exact ⟨_, hrun⟩
  · obtain ⟨n, ms, hrun, ht⟩ := hl.readsAt ho hon size ofs
    rw [(ht.quiet hq).1, hall] at hrun
    refine ⟨{ s with mallocs := ms }, ?_⟩
    rw [fileReadAt, fileAt_eq hon.file, bind_ok, hon.ptr]
    exact hrun

lemma told_of_init (h : recordedSystem.init x) :
    Told x.machine.fs x.machine.held x.ledger := by
  obtain ⟨⟨hheld, disk, sectors, hs, mallocs, junk, hinit⟩, hσ⟩ := h
  obtain ⟨b, hfresh, _⟩ := filesysInit_format hinit
  rw [hheld, hσ]
  have hfree : ∀ k < rootEntries, ∀ name, ¬ Found (x.machine.fs.slot b.root k) name :=
    fun k hk name hf => not_inUse_of_empty hfresh.empty hk hf.1
  refine ⟨b, [], fun _ => 0, hfresh.live, rfl, ?_, ?_, ?_, fun k hk name hf => (hfree k hk name hf).elim,
    fun k hk _ _ name hf => (hfree k hk name hf).elim, fun f p hm => by cases hm⟩
  · rw [hfresh.files]
    nofun
  · rw [hfresh.files]
    nofun
  · rw [hfresh.files]
    nofun

lemma recordedNext_eq_some {y : Recorded} {c : Call} (h : recordedNext x c = some y) :
    x.machine.legal c = true ∧ ∃ r s, c.op.run { x.machine.fs with mallocs := c.mallocs } = .ok (r, s) ∧
      y = ⟨⟨s, c.op.held x.machine.held r⟩, x.ledger.record c.op r⟩ := by
  rw [recordedNext] at h
  split at h
  · next hl =>
    refine ⟨hl, ?_⟩
    cases hc : x.machine.call c with
    | error e =>
      rw [hc] at h
      cases h
    | ok z =>
      obtain ⟨⟨r, s⟩, hr, hz⟩ := bind_eq_ok.mp hc
      cases hz
      rw [hc] at h
      cases h
      exact ⟨r, s, hr, rfl⟩
  · cases h

lemma reachable_told (h : recordedSystem.ReachableWhere (fun _ c => c.mallocs = []) x) :
    Told x.machine.fs x.machine.held x.ledger := by
  refine h.invariant (I := fun x => Told x.machine.fs x.machine.held x.ledger) (fun _ => told_of_init) ?_
  intro x c y hx hc hn
  obtain ⟨hl, r, s, hrun, rfl⟩ := recordedNext_eq_some hn
  refine (hx.with_mallocs c.mallocs).run hc c.op (fun f hf => ?_) hrun
  simpa [Machine.legal, hf] using hl

/-- What is read through an open file is what the ledger has for it, zeros overlaid by the writes made
through the handles of that same file. -/
theorem read_returns_recorded_bytes {x : Recorded}
    (h : recordedSystem.ReachableWhere (fun _ c => c.mallocs = []) x) {f : Nat} (hf : f ∈ x.machine.held) :
    ∃ k pos, x.ledger.handle f = some (k, pos) ∧
      (∀ size : Int, ∃ t, fileRead { x.machine.fs with mallocs := [] } f size =
        .ok (((x.ledger.bytes k).drop pos).take size.toNat, t)) ∧
      ∀ (size : Int) (ofs : Nat), ∃ t, fileReadAt { x.machine.fs with mallocs := [] } f size ofs =
        .ok (((x.ledger.bytes k).drop ofs).take size.toNat, t) :=
  ((reachable_told h).with_mallocs []).reads rfl hf

def smallRecordedRun (ops : List Op) : Option Recorded :=
  (smallRun []).bind fun m => recordedSystem.exec ⟨m, .empty⟩ (ops.map fun op => { op, mallocs := [] })

lemma smallRecordedRun_reachable {ops : List Op} (h : smallRecordedRun ops = some x) :
    recordedSystem.ReachableWhere (fun _ c => c.mallocs = []) x := by
  obtain ⟨m, hm, h⟩ := Option.bind_eq_some_iff.mp h
  obtain ⟨_, hinit, hrun⟩ := smallRun_init hm
  cases hrun
  refine System.exec_reachableWhere (.init ⟨hinit, rfl⟩) (fun c hc _ => ?_) h
  obtain ⟨op, _, rfl⟩ := List.mem_map.mp hc
  rfl

theorem read_returns_recorded_bytes_after_removal :
    ∃ x, recordedSystem.ReachableWhere (fun _ c => c.mallocs = []) x ∧ 7 ∈ x.machine.held ∧
      x.ledger.handle 7 = some (0, 0) ∧ x.ledger.named nameA = some 1 ∧
      ∃ t, fileRead { x.machine.fs with mallocs := [] } 7 4 = .ok ([1, 2, 0, 0], t) := by
  have hrun : ((smallRecordedRun [.create nameA ⟨4, by decide⟩, .openNamed nameA, .write 7 [1, 2] ⟨2, by decide⟩,
      .remove nameA, .create nameA ⟨4, by decide⟩, .openNamed nameA, .seek 7 ⟨0, by decide⟩]).map fun x =>
        (x.machine.held, x.ledger.handle 7, x.ledger.named nameA, x.ledger.bytes 0)) =
      some ([12, 7], some (0, 0), some 1, [1, 2, 0, 0]) := by
    decide +kernel
  obtain ⟨x, hx, he⟩ := Option.map_eq_some_iff.mp hrun
  simp only [Prod.mk.injEq] at he
  obtain ⟨hheld, hhandle, hnamed, hbytes⟩ := he
  have hx := smallRecordedRun_reachable hx
  have hf : 7 ∈ x.machine.held := by
    rw [hheld]
    decide
  obtain ⟨k, pos, hk, hread, _⟩ := read_returns_recorded_bytes hx hf
  cases hhandle.symm.trans hk
  obtain ⟨t, ht⟩ := hread 4
  rw [hbytes] at ht
  exact ⟨x, hx, hf, hhandle, hnamed, t, ht⟩

end Pintos.Filesys
