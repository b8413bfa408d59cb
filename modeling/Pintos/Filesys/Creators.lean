import Pintos.Filesys.Reboot

/-! Two processes inside `filesys_create` at once. -/

namespace Pintos.Filesys

open Pintos.Foundation Pintos.Kernel

inductive Proc
  | one
  | two
  deriving DecidableEq, Repr

def Proc.other : Proc → Proc
  | .one => .two
  | .two => .one

structure Request where
  name : Name
  initialSize : Off
  deriving DecidableEq

/-- Where a process is inside `filesys_create` and the `dir_add` it calls. -/
inductive Phase
  | idle
  | called (r : Request)
  | opened (r : Request) (dir : Dir)
  | allocated (r : Request) (dir : Dir) (sector : Nat)
  | made (r : Request) (dir : Dir) (sector : Nat)
  | looked (r : Request) (dir : Dir) (sector : Nat)
  | chosen (r : Request) (dir : Dir) (sector : Nat) (e : List Byte) (ofs : Nat)
  | failed (r : Request) (dir : Dir) (sector : Nat)
  | closing (r : Request) (dir : Option Dir) (ok : Bool)
  | done (r : Request) (ok : Bool)
  deriving DecidableEq

def advance (s : Fs) : Phase → Except Panic (Phase × Fs)
  | .idle => return (.idle, s)
  | .called r => do
    match ← dirOpenRoot s with
    | (none, s) => return (.closing r none false, s)
    | (some dir, s) => return (.opened r dir, s)
  | .opened r dir => do
    match ← freeMapAllocate s 1 with
    | (none, s) => return (.closing r (some dir) false, s)
    | (some sector, s) => return (.allocated r dir sector, s)
  | .allocated r dir sector => do
    let (ok, s) ← inodeCreate s sector r.initialSize
    return (if ok then .made r dir sector else .failed r dir sector, s)
  | .made r dir sector => do
    if nameValid r.name then
      match ← lookup s dir r.name with
      | (some _, s) => return (.failed r dir sector, s)
      | (none, s) => return (.looked r dir sector, s)
    else return (.failed r dir sector, s)
  | .looked r dir sector => do
    let (e, ofs, s) ← dirSlot s dir
    return (.chosen r dir sector e ofs, s)
  | .chosen r dir sector e ofs => do
    let (ok, s) ← dirWrite s dir (Entry.fill e r.name sector) ofs
    return (if ok then .closing r (some dir) true else .failed r dir sector, s)
  | .failed r dir sector => do
    let s ← if sector ≠ 0 then freeMapRelease s sector 1 else pure s
    return (.closing r (some dir) false, s)
  | .closing r dir ok => do return (.done r ok, ← dirClose s dir)
  | .done r ok => return (.done r ok, s)

def advances : Nat → Fs → Phase → Except Panic (Phase × Fs)
  | 0, s, ph => return (ph, s)
  | n + 1, s, ph => do
    let (ph, s) ← advance s ph
    advances n s ph

lemma advances_succ (n : Nat) (s : Fs) (ph : Phase) :
    advances (n + 1) s ph = advance s ph >>= fun x => advances n x.2 x.1 := rfl

lemma advances_called (s : Fs) (r : Request) :
    advances 8 s (.called r) = do
      let (ok, t) ← filesysCreate s r.name r.initialSize
      return (.done r ok, t) := by
  rw [advances_succ, advance, filesysCreate, bind_assoc, bind_assoc]
  apply bind_congr
  rintro ⟨_ | dir, t⟩
  · simp [advances, advance, dirClose]
  change advances 7 t (.opened r dir) = _
  rw [advances_succ, advance, bind_assoc, bind_assoc]
  apply bind_congr
  rintro ⟨_ | sector, t⟩
  · simp [advances, advance]
  change advances 6 t (.allocated r dir sector) = _
  rw [advances_succ, advance, bind_assoc, bind_assoc]
  apply bind_congr
  rintro ⟨_ | _, t⟩
  · by_cases h : sector = 0 <;> simp [advances, advance, h]
  change advances 5 t (.made r dir sector) = _
  rw [advances_succ, advance]
  simp only [if_true, dirAdd]
  by_cases hv : nameValid r.name = true
  · simp only [if_pos hv, bind_assoc]
    apply bind_congr
    rintro ⟨_ | _, t⟩
    · change advances 4 t (.looked r dir sector) = _
      rw [advances_succ, advance]
      simp only [bind_assoc]
      apply bind_congr
      rintro ⟨e, ofs, t⟩
      change advances 3 t (.chosen r dir sector e ofs) = _
      rw [advances_succ, advance, bind_assoc]
      apply bind_congr
      rintro ⟨_ | _, t⟩
      · by_cases h : sector = 0 <;> simp [advances, advance, h]
      · simp [advances, advance]
    · by_cases h : sector = 0 <;> simp [advances, advance, h]
  · by_cases h : sector = 0 <;> simp [advances, advance, h, hv]

structure Written where
  ofs : Nat
  name : Name
  sector : Nat
  deriving DecidableEq

namespace Phase

def wrote : Phase → Phase → Option Written
  | .chosen r _ sector _ ofs, .closing _ _ true => some { ofs, name := r.name, sector }
  | _, _ => none

def answer : Phase → Option (Request × Bool)
  | .done r ok => some (r, ok)
  | _ => none

def succeeds : Phase → Option Request
  | .closing r _ true => some r
  | _ => none

def renews : Phase → Bool
  | .looked .. => true
  | _ => false

def resting : Phase → Bool
  | .idle | .done .. => true
  | _ => false

end Phase

/-- `stale p` says that the other process wrote an entry after `p` last looked its name up. -/
structure Creators where
  fs : Fs
  phase : Proc → Phase
  stale : Proc → Bool
  entered : List Written
  answers : List (Request × Bool)

inductive Act
  | call (p : Proc) (r : Request)
  | step (p : Proc) (mallocs : List Bool)

namespace Creators

def moved (x : Creators) (p : Proc) (ph : Phase) (fs : Fs) : Creators where
  fs
  phase := Function.update x.phase p ph
  stale q :=
    if q = p then x.stale p && !ph.renews else x.stale q || ((x.phase p).wrote ph).isSome
  entered := ((x.phase p).wrote ph).toList ++ x.entered
  answers := ph.answer.toList ++ x.answers

def next (x : Creators) : Act → Option Creators
  | .call p r =>
    if (x.phase p).resting then some { x with phase := Function.update x.phase p (.called r) } else none
  | .step p mallocs =>
    if (x.phase p).resting then none
    else
      match advance { x.fs with mallocs } (x.phase p) with
      | .ok (ph, fs) => some (x.moved p ph fs)
      | .error _ => none

end Creators

def creators : System Creators Act where
  init x := (∃ m, system.Reachable m ∧ (m.fs.entries.map entryName).Nodup ∧ x.fs = m.fs) ∧
    x.phase = (fun _ => .idle) ∧ x.stale = (fun _ => false) ∧ x.entered = [] ∧ x.answers = []
  next := Creators.next

namespace Phase

def dir : Phase → Option Dir
  | .opened _ dir | .allocated _ dir _ | .made _ dir _ | .looked _ dir _ | .chosen _ dir .. | .failed _ dir _ =>
    some dir
  | .closing _ dir _ => dir
  | _ => none

def refs (ph : Phase) : List Nat := (ph.dir.map Dir.inode).toList

def reserved : Phase → Option Nat
  | .allocated _ _ sector | .failed _ _ sector => some sector
  | _ => none

def pending : Phase → Option Nat
  | .made _ _ sector | .looked _ _ sector | .chosen _ _ sector .. => some sector
  | _ => none

def sector (ph : Phase) : Option Nat := ph.reserved.or ph.pending

end Phase

variable {s t u : Fs} {b b' b'' : Books} {refs refs' held : List Nat} {mine theirs ph : Phase} {x : Nat}

structure Pending (s : Fs) (b : Books) (x : Nat) : Prop where
  file : ∃ o ∈ b.files, o.sector = x
  unnamed : Unnamed s b x
  closed : ∀ p j, s.inode p = some j → x ≠ j.sector

structure Stands (s : Fs) (b : Books) (ph : Phase) : Prop where
  dir : ∀ dir, ph.dir = some dir → OnRoot s dir
  reserved : ∀ x, ph.reserved = some x → Reserved s b x 1
  pending : ∀ x, ph.pending = some x → Pending s b x

structure Keeps (s t : Fs) (b b' : Books) (mine : Option Nat) : Prop where
  reserved : ∀ x, mine ≠ some x → Reserved s b x 1 → Reserved t b' x 1
  pending : ∀ x, mine ≠ some x → Pending s b x → Pending t b' x

structure Shares (s : Fs) (b : Books) (held : List Nat) (mine theirs : Phase) : Prop where
  inv : Inv s b (mine.refs ++ (theirs.refs ++ held))
  own : Stands s b mine
  others : Stands s b theirs
  apart : ∀ x, mine.sector = some x → theirs.sector ≠ some x

lemma Shares.symm (h : Shares s b held mine theirs) : Shares s b held theirs mine where
  inv := h.inv.perm (List.perm_append_comm_assoc ..)
  own := h.others
  others := h.own
  apart x hx hx' := h.apart x hx' hx

lemma Pending.ne_root (h : Pending s b x) (hx : Exclusive Obj.sectors b.objs) : x ≠ rootDirSector := by
  obtain ⟨o, ho, rfl⟩ := h.file
  exact (Books.sector_ne hx ho).2

lemma Stands.used (h : Stands s b ph) (hinv : Inv s b refs) (hx : ph.sector = some x) :
    x < s.sectors ∧ s.freeMap.bit x = true := by
  rcases Option.or_eq_some_iff.mp hx with hr | ⟨_, hp⟩
  · obtain ⟨hlt, hu⟩ := h.reserved x hr
    exact ⟨by omega, (hu x le_rfl (by omega)).2⟩
  · obtain ⟨o, ho, rfl⟩ := (h.pending x hp).file
    exact hinv.sound.used _ (sector_mem_owned (Books.file_mem ho))

lemma Stands.renamed (h : Stands s b ph) (ph' : Phase) (hd : ph'.dir = ph.dir) (hr : ph'.reserved = ph.reserved)
    (hp : ph'.pending = ph.pending) (ms : List Bool) : Stands { s with mallocs := ms } b ph' where
  dir dir he := h.dir dir (hd ▸ he)
  reserved x he := h.reserved x (hr ▸ he)
  pending x he := ⟨(h.pending x (hp ▸ he)).file, (h.pending x (hp ▸ he)).unnamed, (h.pending x (hp ▸ he)).closed⟩

lemma Shares.with_mallocs (h : Shares s b held mine theirs) (ms : List Bool) :
    Shares { s with mallocs := ms } b held mine theirs :=
  ⟨h.inv.with_mallocs ms, h.own.renamed _ rfl rfl rfl ms, h.others.renamed _ rfl rfl rfl ms, h.apart⟩

lemma OnRoot.follows {dir : Dir} (hr : OnRoot s dir) (h : Inv s b refs) (h' : Inv t b' refs') (hf : Follows s t)
    (hm : dir.inode ∈ refs') : OnRoot t dir := by
  obtain ⟨i, hi, hs⟩ := hr
  obtain ⟨j, hj⟩ := Option.ne_none_iff_exists'.mp (h'.table.live dir.inode (List.mem_cons_of_mem _ hm))
  obtain ⟨k, hk, hks, _⟩ := hf.old (h.table.lt_next hi) hj
  cases hi.symm.trans hk
  exact ⟨j, hj, hks.symm.trans hs⟩

lemma Inv.closed_of_follows (h : Inv s b refs) (h' : Inv t b' refs') (hfm : b'.fmInode = b.fmInode)
    (hf : Follows s t) (hsub : ∀ q ∈ refs', q ∈ refs ∨ ∃ i, t.inode q = some i ∧ i.sector = rootDirSector)
    (hx : x ≠ rootDirSector) (hc : ∀ p j, s.inode p = some j → x ≠ j.sector) :
    ∀ p j, t.inode p = some j → x ≠ j.sector := by
  intro p j hj
  have hold : p ∈ b.fmInode :: refs → x ≠ j.sector := by
    intro hm
    obtain ⟨i, hi⟩ := Option.ne_none_iff_exists'.mp (h.table.live p hm)
    obtain ⟨k, hk, hks, _⟩ := hf.old (h.table.lt_next hi) hj
    exact hks ▸ hc p k hk
  rcases List.mem_cons.mp (h'.table.mem_refs hj) with rfl | hm
  · exact hold (hfm ▸ List.mem_cons_self)
  · rcases hsub p hm with hm | ⟨i, hi, hs⟩
    · exact hold (List.mem_cons_of_mem _ hm)
    · cases hj.symm.trans hi
      exact hs ▸ hx

namespace Keeps

lemma trans {mine : Option Nat} (h : Keeps s t b b' mine) (h' : Keeps t u b' b'' mine) : Keeps s u b b'' mine where
  reserved x hx hr := h'.reserved x hx (h.reserved x hx hr)
  pending x hx hp := h'.pending x hx (h.pending x hx hp)

lemma of_sameDisk (h : Inv s b refs) (h' : Inv t b refs') (hd : SameDisk s t) (hf : Follows s t)
    (hsub : ∀ q ∈ refs', q ∈ refs ∨ ∃ i, t.inode q = some i ∧ i.sector = rootDirSector) (mine : Option Nat) :
    Keeps s t b b mine where
  reserved x _ hr := hr.mono hd.sectors fun y _ hy => by rw [hd.freeMap, hy]
  pending x _ hp :=
    ⟨hp.file, hp.unnamed.congr (hd.content _),
      h.closed_of_follows h' rfl hf hsub (hp.ne_root h.sound.exclusive) hp.closed⟩

lemma of_steady (ht : SameTable s t) (hst : Steady s t b) {mine : Option Nat}
    (hb : ∀ x < s.sectors, mine ≠ some x → s.freeMap.bit x = true → t.freeMap.bit x = true) :
    Keeps s t b b mine where
  reserved x hx hr := by
    refine ⟨ht.sectors ▸ hr.1, fun y hy hy' => ?_⟩
    obtain rfl : y = x := by omega
    have hlt := hr.1
    obtain ⟨hn, hu⟩ := hr.2 y hy hy'
    exact ⟨hn, hb y (by omega) hx hu⟩
  pending x _ hp := ⟨hp.file, hp.unnamed.congr hst.root, fun p j hj => hp.closed p j (ht.inode ▸ hj)⟩

lemma with_mallocs (s : Fs) (b : Books) (ms : List Bool) (mine : Option Nat) :
    Keeps s { s with mallocs := ms } b b mine :=
  ⟨fun _ _ => id, fun _ _ hp => ⟨hp.file, hp.unnamed, hp.closed⟩⟩

lemma add (ht : SameTable s t) (hst : Steady s t b)
    (hb : ∀ x < s.sectors, s.freeMap.bit x = true → t.freeMap.bit x = true) {o : Obj}
    (ho : ∀ y ∈ o.extent, s.freeMap.bit y = false) : Keeps s t b (b.add o) (some o.sector) where
  reserved x hx hr := by
    have hk := (of_steady ht hst fun x hx _ => hb x hx).reserved x hx hr
    refine ⟨hk.1, fun y hy hy' => ⟨fun hm => ?_, (hk.2 y hy hy').2⟩⟩
    obtain rfl : y = x := by omega
    obtain ⟨hn, hu⟩ := hr.2 y hy hy'
    obtain ⟨o', ho', hyo⟩ := mem_owned.mp hm
    rcases Books.mem_objs.mp ho' with rfl | rfl | ho'
    · exact hn (mem_owned.mpr ⟨_, b.fm_mem, hyo⟩)
    · exact hn (mem_owned.mpr ⟨_, b.root_mem, hyo⟩)
    · rcases List.mem_cons.mp ho' with rfl | ho'
      · rcases Obj.mem_sectors.mp hyo with rfl | hye
        · exact hx rfl
        · simp [ho y hye] at hu
      · exact hn (mem_owned.mpr ⟨_, Books.file_mem ho', hyo⟩)
  pending x hx hp := by
    obtain ⟨⟨o', ho', hs⟩, hun, hc⟩ := (of_steady ht hst fun x hx _ => hb x hx).pending x hx hp
    exact ⟨⟨o', List.mem_cons_of_mem _ ho', hs⟩, hun, hc⟩

lemma drop (hx : Exclusive Obj.sectors b.objs) {o : Obj} (ho : o ∈ b.files) :
    Keeps s s b (b.erase o) (some o.sector) where
  reserved x _ hr := by
    refine ⟨hr.1, fun y hy hy' => ?_⟩
    obtain ⟨hn, hu⟩ := hr.2 y hy hy'
    refine ⟨fun hm => hn ?_, hu⟩
    obtain ⟨o', ho', hyo⟩ := mem_owned.mp hm
    rw [Books.objs_erase hx ho] at ho'
    exact mem_owned.mpr ⟨o', List.mem_of_mem_erase ho', hyo⟩
  pending x hne hp := by
    obtain ⟨o', ho', rfl⟩ := hp.file
    have hoo : o' ≠ o := by
      rintro rfl
      exact hne rfl
    exact ⟨⟨o', (List.mem_erase_of_ne hoo).mpr ho', rfl⟩, hp.unnamed, hp.closed⟩

lemma enters {name : Name} {k : Nat} (he : Enters s t b.root name x k) (hi : t.inode = s.inode)
    (hf : t.freeMap = s.freeMap) (hs : t.sectors = s.sectors) : Keeps s t b b (some x) where
  reserved y _ hr := hr.mono hs fun z _ hz => by rw [hf, hz]
  pending y hy hp := by
    refine ⟨hp.file, fun l hl hu => ?_, fun p j hj => hp.closed p j (hi ▸ hj)⟩
    by_cases hlk : l = k
    · rw [hlk, he.sector]
      exact fun hxy => hy (congrArg some hxy)
    · rw [he.others l hl hlk] at hu ⊢
      exact hp.unnamed l hl hu

end Keeps

lemma Phase.sector_of_pending (h : ph.pending = some x) : ph.sector = some x := by
  cases ph <;> first | exact h | cases h

lemma Shares.move (h : Shares s b held mine theirs) (hinv : Inv t b' (ph.refs ++ (theirs.refs ++ held)))
    (hf : Follows s t) (hk : Keeps s t b b' mine.sector) (hown : Stands t b' ph)
    (hap : ∀ x, ph.sector = some x → theirs.sector ≠ some x) : Shares t b' held ph theirs := by
  refine ⟨hinv, hown, ⟨fun dir hd => ?_, fun x hx => ?_, fun x hx => ?_⟩, hap⟩
  · refine (h.others.dir dir hd).follows h.inv hinv hf ?_
    simp [Phase.refs, hd]
  · have hsec : theirs.sector = some x := by rw [Phase.sector, hx, Option.some_or]
    exact hk.reserved x (fun hm => h.apart x hm hsec) (h.others.reserved x hx)
  · have hsec := Phase.sector_of_pending hx
    exact hk.pending x (fun hm => h.apart x hm hsec) (h.others.pending x hx)

def Knows (s : Fs) (b : Books) (stale : Bool) : Phase → Prop
  | .looked r _ _ =>
    nameValid r.name = true ∧ (stale = false → ∀ l < rootEntries, ¬ Found (s.slot b.root l) r.name)
  | .chosen r _ _ e ofs =>
    nameValid r.name = true ∧ e.length = entrySize ∧ ∃ k ≤ rootEntries, ofs = entrySize * k ∧
      (stale = false → (∀ l < rootEntries, ¬ Found (s.slot b.root l) r.name) ∧
        (k < rootEntries → entryInUse (s.slot b.root k) = false))
  | _ => True

structure Outcome (s t : Fs) (b : Books) (held : List Nat) (mine theirs ph : Phase) (stale : Bool) : Prop where
  shares : ∃ b', Shares t b' held ph theirs ∧ b'.root = b.root
  same : mine.wrote ph = none → t.content b.root = s.content b.root
  wrote : ∀ w, mine.wrote ph = some w → ∃ k, w.ofs = entrySize * k ∧
    Enters s t b.root w.name w.sector k ∧ entryInUse (s.slot b.root k) = false ∧
    ∀ l < rootEntries, ¬ Found (s.slot b.root l) w.name
  knows : Knows t b (stale && !ph.renews) ph
  succeeds : ∀ r, ph.succeeds = some r → ∃ w, mine.wrote ph = some w ∧ w.name = r.name
  answered : ∀ r, ph.answer = some (r, true) → mine.succeeds = some r

lemma Outcome.of_unwritten {stale : Bool} (hw : mine.wrote ph = none) (hs : ph.succeeds = none)
    (ha : ∀ r, ph.answer = some (r, true) → mine.succeeds = some r)
    (hc : t.content b.root = s.content b.root) (hk : Knows t b (stale && !ph.renews) ph) (b' : Books)
    (h : Shares t b' held ph theirs) (hroot : b'.root = b.root) : Outcome s t b held mine theirs ph stale where
  shares := ⟨b', h, hroot⟩
  same _ := hc
  wrote w he := by
    rw [hw] at he
    cases he
  knows := hk
  succeeds r he := by
    rw [hs] at he
    cases he
  answered := ha

section Steps

variable {r : Request} {dir : Dir} {stale : Bool}

lemma Shares.step_called (h : Shares s b held (.called r) theirs) (hrun : advance s (.called r) = .ok (ph, t)) :
    Outcome s t b held (.called r) theirs ph stale := by
  obtain ⟨res, u, hopen, hd, _, hfol, hnone, hsome⟩ := h.inv.opensRoot
  rw [advance, hopen, bind_ok] at hrun
  cases res with
  | none =>
    cases hrun
    have hinv := (hnone rfl).2
    refine .of_unwritten rfl rfl (fun _ => nofun) (hd.content _) trivial b ?_ rfl
    exact h.move hinv hfol (.of_sameDisk h.inv hinv hd hfol (fun q hq => .inl hq) _)
      ⟨nofun, nofun, nofun⟩ nofun
  | some dir =>
    cases hrun
    obtain ⟨hinv, hroot, _⟩ := hsome dir rfl
    refine .of_unwritten rfl rfl (fun _ => nofun) (hd.content _) trivial b ?_ rfl
    refine h.move hinv hfol (.of_sameDisk h.inv hinv hd hfol (fun q hq => ?_) _)
      ⟨fun _ hdir => Option.some.inj hdir ▸ hroot, nofun, nofun⟩ nofun
    rcases List.mem_cons.mp hq with rfl | hq
    · exact .inr hroot
    · exact .inl hq

lemma Shares.step_opened (h : Shares s b held (.opened r dir) theirs)
    (hrun : advance s (.opened r dir) = .ok (ph, t)) : Outcome s t b held (.opened r dir) theirs ph stale := by
  have hroot := h.own.dir dir rfl
  obtain ⟨res, u, halloc, hinv, hst, htab, hbits, hfree, hres⟩ := h.inv.allocate 1
  have hkeep : Keeps s u b b none := .of_steady htab hst fun y hy _ => hbits y hy
  rw [advance, halloc, bind_ok] at hrun
  cases res with
  | none =>
    cases hrun
    refine .of_unwritten rfl rfl (fun _ => nofun) hst.root trivial b ?_ rfl
    exact h.move hinv (.of_sameTable htab) hkeep
      ⟨fun _ hdir => Option.some.inj hdir ▸ hroot.congr htab.inode, nofun, nofun⟩ nofun
  | some x =>
    cases hrun
    refine .of_unwritten rfl rfl (fun _ => nofun) hst.root trivial b ?_ rfl
    refine h.move hinv (.of_sameTable htab) hkeep
      ⟨fun _ hdir => Option.some.inj hdir ▸ hroot.congr htab.inode,
        fun y hy => Option.some.inj hy ▸ hres x rfl, nofun⟩ fun y hy ht => ?_
    cases hy
    have hu := (h.others.used h.inv ht).2
    rw [hfree x rfl x le_rfl (by omega)] at hu
    cases hu

lemma Shares.step_allocated (h : Shares s b held (.allocated r dir x) theirs)
    (hrun : advance s (.allocated r dir x) = .ok (ph, t)) :
    Outcome s t b held (.allocated r dir x) theirs ph stale := by
  have hroot := h.own.dir dir rfl
  obtain ⟨name, size, hmin, hmax⟩ := r
  rcases Int.lt_or_le size 0 with hneg | hpos
  · rw [advance, inodeCreate_negative s x hneg, bind_error] at hrun
    cases hrun
  obtain ⟨n, rfl⟩ := Int.eq_ofNat_of_zero_le hpos
  obtain ⟨ok, u, hcreate, htab, hst, hbits, hbad, hgood⟩ := h.inv.create (h.own.reserved x rfl)
    (show n < 2147483648 by omega)
  rw [advance] at hrun
  simp only [hcreate, bind_ok] at hrun
  cases ok with
  | false =>
    cases hrun
    obtain ⟨hinv, hres⟩ := hbad rfl
    refine .of_unwritten rfl rfl (fun _ => nofun) hst.root trivial b ?_ rfl
    exact h.move hinv (.of_sameTable htab) (.of_steady htab hst fun y hy _ => hbits y hy)
      ⟨fun _ hdir => Option.some.inj hdir ▸ hroot.congr htab.inode,
        fun y hy => Option.some.inj hy ▸ hres, nofun⟩ h.apart
  | true =>
    cases hrun
    obtain ⟨o, rfl, _, hnew, hinv, _, hfree⟩ := hgood rfl
    refine .of_unwritten rfl rfl (fun _ => nofun) hst.root trivial (b.add o) ?_ rfl
    refine h.move hinv (.of_sameTable htab) (.add htab hst hbits hfree)
      ⟨fun _ hdir => Option.some.inj hdir ▸ hroot.congr htab.inode, nofun, fun y hy => ?_⟩ h.apart
    cases hy
    exact ⟨⟨o, List.mem_cons_self, rfl⟩, (h.inv.unnamed_of_notMem hnew).congr hst.root,
      fun p j hj => h.inv.closed_of_notMem hnew p j (htab.inode ▸ hj)⟩

lemma Shares.fails (h : Shares s b held mine theirs) (hp : mine.pending = some x) (hd : mine.dir = some dir)
    (ms : List Bool) :
    ∃ b', Shares { s with mallocs := ms } b' held (.failed r dir x) theirs ∧ b'.root = b.root := by
  obtain ⟨⟨o, ho, rfl⟩, hun, hc⟩ := h.own.pending x hp
  have hinv := (h.inv.with_mallocs ms).drop ho hc hun
  have hsec := Phase.sector_of_pending hp
  rw [Phase.refs, hd] at hinv
  refine ⟨b.erase o, h.move hinv (.of_sameTable (.with_map s s.freeMap s.disk ms)) ?_
    ⟨fun _ hdir => Option.some.inj hdir ▸ h.own.dir dir hd, fun y hy => ?_, nofun⟩ ?_, rfl⟩
  · rw [hsec]
    exact (Keeps.with_mallocs s b ms _).trans (.drop h.inv.sound.exclusive ho)
  · cases hy
    exact h.inv.reserved_of_drop ho
  · intro y hy
    cases hy
    exact h.apart _ hsec

lemma Shares.step_made (h : Shares s b held (.made r dir x) theirs) (hq : s.mallocs = [])
    (hrun : advance s (.made r dir x) = .ok (ph, t)) : Outcome s t b held (.made r dir x) theirs ph stale := by
  obtain ⟨i, hi, hs⟩ := h.own.dir dir rfl
  rw [advance] at hrun
  by_cases hv : nameValid r.name = true
  · obtain ⟨res, ms, hlook, _, _, hnone⟩ := h.inv.lookup_spec hi hs r.name
    rw [if_pos hv, hlook, bind_ok] at hrun
    cases res with
    | some y =>
      cases hrun
      obtain ⟨b', hsh, hroot⟩ := h.fails rfl rfl ms
      exact .of_unwritten rfl rfl (fun _ => nofun) rfl trivial b' hsh hroot
    | none =>
      cases hrun
      refine .of_unwritten rfl rfl (fun _ => nofun) rfl ⟨hv, fun _ => hnone rfl hq⟩ b ?_ rfl
      exact h.move (h.inv.with_mallocs ms) (.of_sameTable (.with_map s s.freeMap s.disk ms))
        (.with_mallocs s b ms _) (h.own.renamed (.looked r dir x) rfl rfl rfl ms) h.apart
  · rw [if_neg hv] at hrun
    cases hrun
    obtain ⟨b', hsh, hroot⟩ := h.fails rfl rfl s.mallocs
    exact .of_unwritten rfl rfl (fun _ => nofun) rfl trivial b' hsh hroot

lemma Shares.step_looked (h : Shares s b held (.looked r dir x) theirs) (hq : s.mallocs = [])
    (hk : Knows s b stale (.looked r dir x)) (hrun : advance s (.looked r dir x) = .ok (ph, t)) :
    Outcome s t b held (.looked r dir x) theirs ph stale := by
  obtain ⟨i, hi, hs⟩ := h.own.dir dir rfl
  obtain ⟨e, k, ms, hslot, hlen, hle, hfree⟩ := h.inv.dirSlot_spec hi hs
  rw [advance, hslot, bind_ok] at hrun
  cases hrun
  refine .of_unwritten rfl rfl (fun _ => nofun) rfl ⟨hk.1, hlen, k, hle, rfl, fun hst => ⟨hk.2 ?_, hfree hq⟩⟩ b ?_ rfl
  · simpa [Phase.renews] using hst
  · exact h.move (h.inv.with_mallocs ms) (.of_sameTable (.with_map s s.freeMap s.disk ms))
      (.with_mallocs s b ms _) (h.own.renamed (.chosen r dir x e (entrySize * k)) rfl rfl rfl ms) h.apart

lemma Shares.step_chosen {e : List Byte} {ofs : Nat} (h : Shares s b held (.chosen r dir x e ofs) theirs)
    (hst : stale = false) (hk : Knows s b stale (.chosen r dir x e ofs))
    (hrun : advance s (.chosen r dir x e ofs) = .ok (ph, t)) :
    Outcome s t b held (.chosen r dir x e ofs) theirs ph stale := by
  obtain ⟨i, hi, hs⟩ := h.own.dir dir rfl
  obtain ⟨hv, hlen, k, hle, rfl, hfacts⟩ := hk
  obtain ⟨hno, hfree⟩ := hfacts hst
  rw [advance] at hrun
  by_cases hlt : k < rootEntries
  · obtain ⟨⟨o, ho, rfl⟩, hun, hc⟩ := h.own.pending x rfl
    obtain ⟨ok, ms, hw, hq⟩ := h.inv.dirWrite_spec hi hs (length_fill hlen (nameValid_iff.mp hv).2 o.sector) hlt
    obtain ⟨hinv, hcar, hent⟩ := h.inv.filled ho hun hc hv hlen hlt fun hm => (hq hm).2
    rw [hw, bind_ok] at hrun
    cases ok with
    | false =>
      cases hrun
      obtain ⟨b', hsh, hroot⟩ := h.fails rfl rfl ms
      exact .of_unwritten rfl rfl (fun _ => nofun) rfl trivial b' hsh hroot
    | true =>
      cases hrun
      refine ⟨⟨b, ?_, rfl⟩, nofun, ?_, trivial, ?_, fun _ => nofun⟩
      · exact h.move hinv (.of_sameTable (.with_map s s.freeMap _ ms)) (.enters hent rfl rfl rfl)
          ⟨fun _ hdir => Option.some.inj hdir ▸ ⟨i, hi, hs⟩, nofun, nofun⟩ nofun
      · intro w hw
        cases hw
        exact ⟨k, rfl, hent, hfree hlt, hno⟩
      · intro r' hr
        cases hr
        exact ⟨_, rfl, rfl⟩
  · rw [h.inv.dirWrite_end hi hs (by omega), bind_ok] at hrun
    cases hrun
    obtain ⟨b', hsh, hroot⟩ := h.fails rfl rfl s.mallocs
    exact .of_unwritten rfl rfl (fun _ => nofun) rfl trivial b' hsh hroot

lemma Shares.step_failed (h : Shares s b held (.failed r dir x) theirs)
    (hrun : advance s (.failed r dir x) = .ok (ph, t)) : Outcome s t b held (.failed r dir x) theirs ph stale := by
  have hroot := h.own.dir dir rfl
  have hres := h.own.reserved x rfl
  obtain ⟨u, hrel, hinv, hst, htab, hset⟩ := h.inv.release hres
  have hx0 : x ≠ 0 := Inv.ne_zero_of_notMem (hres.2 x le_rfl (by omega)).1
  rw [advance, if_pos hx0, hrel, bind_ok] at hrun
  cases hrun
  refine .of_unwritten rfl rfl (fun _ => nofun) hst.root trivial b ?_ rfl
  refine h.move hinv (.of_sameTable htab) (.of_steady htab hst fun y hy hne hu => ?_)
    ⟨fun _ hdir => Option.some.inj hdir ▸ hroot.congr htab.inode, nofun, nofun⟩ nofun
  rw [hset.2 y (h.inv.bitCnt ▸ hy), if_neg, hu]
  rintro ⟨hy, hy'⟩
  exact hne (congrArg some (show x = y by omega))

lemma Shares.step_closing {d : Option Dir} {ok : Bool} (h : Shares s b held (.closing r d ok) theirs)
    (hrun : advance s (.closing r d ok) = .ok (ph, t)) :
    Outcome s t b held (.closing r d ok) theirs ph stale := by
  have hans : ∀ r', (Phase.done r ok).answer = some (r', true) → (Phase.closing r d ok).succeeds = some r' := by
    rintro r' ⟨⟩
    rfl
  cases d with
  | none =>
    cases hrun
    refine .of_unwritten rfl rfl hans rfl trivial b ?_ rfl
    exact h.move h.inv (.of_sameTable (.refl s)) ⟨fun _ _ => id, fun _ _ => id⟩ ⟨nofun, nofun, nofun⟩ nofun
  | some dir =>
    obtain ⟨u, hclose, hd, _, hfol, hinv, _⟩ := Inv.closesRoot h.inv (h.own.dir dir rfl)
    rw [advance, hclose, bind_ok] at hrun
    cases hrun
    refine .of_unwritten rfl rfl hans (hd.content _) trivial b ?_ rfl
    exact h.move hinv hfol
      (.of_sameDisk h.inv hinv hd hfol (fun q hq => .inl (List.mem_cons_of_mem _ hq)) _) ⟨nofun, nofun, nofun⟩ nofun

def Phase.careful (mallocs : List Bool) (stale : Bool) : Phase → Bool
  | .made .. | .looked .. => mallocs == []
  | .chosen .. => !stale
  | _ => true

lemma Shares.step (h : Shares s b held mine theirs) (hk : Knows s b stale mine)
    (hc : mine.careful s.mallocs stale = true) (hrest : mine.resting = false) (hrun : advance s mine = .ok (ph, t)) :
    Outcome s t b held mine theirs ph stale := by
  cases mine with
  | idle => cases hrest
  | called r => exact h.step_called hrun
  | opened r dir => exact h.step_opened hrun
  | allocated r dir x => exact h.step_allocated hrun
  | made r dir x => exact h.step_made (eq_of_beq hc) hrun
  | looked r dir x => exact h.step_looked (eq_of_beq hc) hk hrun
  | chosen r dir x e ofs => exact h.step_chosen (by simpa [Phase.careful] using hc) hk hrun
  | failed r dir x => exact h.step_failed hrun
  | closing r dir ok => exact h.step_closing hrun
  | done r ok => cases hrest

end Steps

end Pintos.Filesys
