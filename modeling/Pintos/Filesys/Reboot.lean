import Pintos.Filesys.Histories

/-! What a restart finds on the device: the same files under the same names, and the same free map. -/

namespace Pintos.Filesys

open Pintos.Foundation Pintos.Kernel

def resolve (s : Fs) (name : Name) : Except Panic (Option (Int × List Byte)) := do
  match ← filesysOpen s name with
  | (none, _) => return none
  | (some f, s) =>
    let length ← fileLength s f
    let (bytes, _) ← fileReadAt s f length 0
    return some (length, bytes)

variable {s t : Fs} {b b' : Books} {held held' : List (Nat × Nat)}

structure NamedBy (s : Fs) (b : Books) (name : Name) (k : Nat) (o : Obj) : Prop where
  lt : k < rootEntries
  found : Found (s.slot b.root k) name
  file : o ∈ b.files
  sector : o.sector = entrySector (s.slot b.root k)

lemma Inv.FirstFound.unique {name : Name} {k l : Nat} (h : Inv.FirstFound s b name k)
    (h' : Inv.FirstFound t b' name l) (hs : ∀ j, t.slot b'.root j = s.slot b.root j) : k = l := by
  rcases Nat.lt_trichotomy k l with hlt | heq | hgt
  · exact (h'.first k hlt (hs k ▸ h.found)).elim
  · exact heq
  · exact (h.first l hgt (hs l ▸ h'.found)).elim

lemma OpenOn.fileLength_eq {f p : Nat} {o : Obj} {x : File} {i : Inode} (hon : OpenOn s f p o x i) :
    fileLength s f = .ok (o.length : Int) := by
  obtain rfl := hon.ptr
  rw [fileLength, fileAt_eq hon.file, bind_ok, inodeAt_eq hon.inode, bind_ok, hon.data]
  rfl

lemma Live.resolves (h : Live s b held) (hq : s.mallocs = []) (name : Name) :
    ((∀ k < rootEntries, ¬ Found (s.slot b.root k) name) ∧ resolve s name = .ok none) ∨
      ∃ k o, Inv.FirstFound s b name k ∧ NamedBy s b name k o ∧
        resolve s name = .ok (some (o.length, s.content o)) := by
  obtain ⟨r, t, hrun, ho, _⟩ := h.opensNamed name
  cases r with
  | none =>
    refine .inl ⟨(ho.missed rfl).2.2 hq, ?_⟩
    simp only [resolve, hrun, bind_ok]
    rfl
  | some f =>
    obtain ⟨p, k, o, i, hlive, hd, hk, hof, hos, hon⟩ := h.opens_first hrun
    refine .inr ⟨k, o, hk, ⟨hk.lt, hk.found, hof, hos⟩, ?_⟩
    obtain ⟨n, ms, hread, ht⟩ := hlive.readsAt hof hon o.length 0
    have hn := (ht.quiet (hd.quiet hq)).1
    have hall : ((t.content o).drop 0).take n = s.content o := by
      rw [List.drop_zero, hd.content, List.take_of_length_le]
      rw [Fs.content, Memory.length_read, hn]
      simp
    rw [hall] at hread
    simp only [resolve, hrun, bind_ok, hon.fileLength_eq, fileReadAt, fileAt_eq hon.file, hread]
    rfl

def Kept (m : Machine) : Prop :=
  ∃ b held, Live m.fs b held ∧ held.map Prod.fst = m.held ∧ m.fs.Synced b.fm

variable {m : Machine}

lemma kept_of_init (h : system.init m) : Kept m := by
  obtain ⟨hheld, b, hfresh⟩ := fresh_of_init h
  exact ⟨b, [], hfresh.live, hheld.symm, hfresh.synced⟩

lemma Kept.next {m' : Machine} {c : Call} (h : Kept m) (hq : c.mallocs = [])
    (hn : next m c = some m') : Kept m' := by
  obtain ⟨b, held, hlive, hk, hsync⟩ := h
  obtain ⟨held', ht, hk'⟩ := hlive.next hk hn
  obtain ⟨b', hlive', hfm, _⟩ := ht.live
  exact ⟨b', held', hlive', hk', hfm ▸ ht.synced hq hsync⟩

lemma reachable_kept (h : system.ReachableWhere (fun _ c => c.mallocs = []) m) : Kept m :=
  h.invariant (fun _ => kept_of_init) fun _ _ _ hk hc hn => hk.next hc hn

lemma Live.resolves_same (h : Live s b held) (h' : Live t b' held') (hq : s.mallocs = [])
    (hq' : t.mallocs = []) (hd : t.disk = s.disk) (hroot : b'.root = b.root) (hfiles : b'.files = b.files)
    (name : Name) : ∃ r, resolve s name = .ok r ∧ resolve t name = .ok r := by
  have hslot : ∀ k, t.slot b'.root k = s.slot b.root k := fun k => by rw [Fs.slot, Fs.slot, hd, hroot]
  rcases h.resolves hq name with ⟨hno, hr⟩ | ⟨k, o, hk, ho, hr⟩
  · rcases h'.resolves hq' name with ⟨_, hr'⟩ | ⟨l, o', _, ho', _⟩
    · exact ⟨none, hr, hr'⟩
    · exact (hno l ho'.lt (hslot l ▸ ho'.found)).elim
  · rcases h'.resolves hq' name with ⟨hno, _⟩ | ⟨l, o', hl, ho', hr'⟩
    · exact (hno k ho.lt (hslot k ▸ ho.found)).elim
    · obtain rfl := hk.unique hl hslot
      have hs : o.sector = o'.sector := by rw [ho.sector, ho'.sector, hslot]
      obtain rfl := eq_of_sector h.inv.sound.exclusive (Books.file_mem ho.file)
        (Books.file_mem (hfiles ▸ ho'.file)) hs
      refine ⟨_, hr, ?_⟩
      rw [hr', Fs.content, hd]
      rfl

theorem restart_resolves_same {m : Machine} (h : system.ReachableWhere (fun _ c => c.mallocs = []) m)
    (junk : Nat → BitVec 32) :
    ∃ t, filesysInit (boot m.fs.disk m.fs.sectors m.fs.sectors_lt []) junk false = .ok t ∧
      (∀ name, ∃ r, resolve { m.fs with mallocs := [] } name = .ok r ∧ resolve t name = .ok r) ∧
      t.freeMap.bitCnt = m.fs.sectors ∧ m.fs.freeMap.bitCnt = m.fs.sectors ∧
      ∀ k < m.fs.sectors, t.freeMap.bit k = m.fs.freeMap.bit k := by
  obtain ⟨b, held, hlive, _, hsync⟩ := reachable_kept h
  obtain ⟨t, hrun, hlive', hd, hbits, hq⟩ := hlive.remounts hsync junk
  have hcnt := hlive.inv.bitCnt
  refine ⟨t, hrun, fun name => ?_, hbits.1.trans hcnt, hcnt, fun k hk => hbits.2 k (hcnt ▸ hk)⟩
  exact (hlive.with_mallocs []).resolves_same hlive' rfl hq hd rfl rfl name

theorem restart_resolves_written_file :
    ∃ m, system.ReachableWhere (fun _ c => c.mallocs = []) m ∧
      ∃ t, filesysInit (boot m.fs.disk m.fs.sectors m.fs.sectors_lt []) (fun _ => 5) false = .ok t ∧
        resolve t nameA = .ok (some (4, [1, 2, 0, 0])) ∧ resolve t nameB = .ok none := by
  have hrun : ((smallRun [.create nameA ⟨4, by decide⟩, .create nameB ⟨600, by decide⟩, .openNamed nameA,
      .write 8 [1, 2] ⟨2, by decide⟩, .remove nameB]).map fun m =>
        [nameA, nameB].map fun name => (resolve { m.fs with mallocs := [] } name).toOption) =
      some [some (some (4, [1, 2, 0, 0])), some none] := by
    decide +kernel
  obtain ⟨m, hm, he⟩ := Option.map_eq_some_iff.mp hrun
  have hr := smallRun_reachable hm
  obtain ⟨t, ht, hname, _⟩ := restart_resolves_same hr (fun _ => 5)
  obtain ⟨x, hx, htx⟩ := hname nameA
  obtain ⟨y, hy, hty⟩ := hname nameB
  simp only [List.map_cons, hx, hy, List.map_nil, Except.toOption, List.cons.injEq, Option.some.injEq] at he
  refine ⟨m, hr, t, ht, ?_, ?_⟩
  · rw [htx, he.1]
  · rw [hty, he.2.1]

end Pintos.Filesys
