import Pintos.Userprog.Arguments
import Pintos.Userprog.Loading

/-! When `load` gives a process the segments of its executable. -/

namespace Pintos.Userprog

open Pintos.Foundation Pintos.Kernel Pintos.Filesys Function

structure SegmentAt (content : List Byte) (phdr : Phdr) (u : Space) : Prop where
  mapped : ∀ a, phdr.vaddr ≤ a → a < phdr.vaddr + phdr.memsz → u.page (pgNo a) = some phdr.writable
  file : u.bytes.read phdr.vaddr phdr.filesz = field content phdr.offset phdr.filesz
  zero : ∀ a, phdr.vaddr + phdr.filesz ≤ a → a < phdr.vaddr + phdr.memsz → u.bytes a = 0

def fileHeader (content : List Byte) : Ehdr := .ofBytes (content.take ehdrSize)

def headersOf (content : List Byte) : List Phdr :=
  programHeaders content (fileHeader content).phnum (fileHeader content).phoff

def segmentsOf (content : List Byte) : List Phdr := (headersOf content).filter Phdr.isLoad

structure Loaded (content : List Byte) (u : Space) : Prop where
  segment : ∀ h ∈ segmentsOf content, SegmentAt content h u
  apart : (segmentsOf content).Pairwise Phdr.Apart
  only : ∀ k, u.page k ≠ none → k = pgNo stackPage.start ∨ ∃ h ∈ segmentsOf content, h.HasPage k

def Unloadable (content : List Byte) : Prop :=
  (∃ h ∈ headersOf content, h.refused = true) ∨
    (∃ h ∈ segmentsOf content, validateSegment h content.length = false) ∨
    ¬ (segmentsOf content).Pairwise Phdr.Apart

section Segments

variable {content : List Byte} {phdr : Phdr} {u v : Space}

lemma Phdr.Accepted.region (h : phdr.Accepted content.length) {a : Nat} (hlow : phdr.vaddr ≤ a)
    (htop : a < phdr.vaddr + phdr.memsz) :
    phdr.memPage ≤ a ∧ a < phdr.memPage + pgSize * phdr.pageCnt := by
  have hbytes := h.whole.bytes
  have hsum : phdr.firstPage.readBytes + phdr.firstPage.zeroBytes = _ := h.bytes_eq
  have hround := h.roundUp_eq
  have hpage := Phdr.Accepted.memPage_add phdr
  rw [← hbytes, hsum, hround]
  omega

lemma Phdr.Accepted.filePage_add (h : phdr.Accepted content.length) :
    phdr.filePage + phdr.pageOffset = phdr.offset := by
  have hofs := h.sameOfs
  simp only [Phdr.filePage, Phdr.pageOffset, pgRoundDown, pgOfs, pgSize] at *
  omega

lemma Holds.segmentAt (h : Holds content phdr u) : SegmentAt content phdr u := by
  have hpage := Phdr.Accepted.memPage_add phdr
  have hfile := h.accepted.filePage_add
  have hread := h.accepted.readBytes_eq
  have hle := h.accepted.filesz_le
  have hin := h.inFile
  refine ⟨fun a hlow htop => ?_, ?_, fun a hlow htop => ?_⟩
  · obtain ⟨hl, ht⟩ := h.accepted.region hlow htop
    exact h.page _ (Phdr.hasPage_of_mem hl ht)
  · by_cases hz : phdr.filesz = 0
    · rw [hz, Memory.read_zero, field, List.take_zero]
    · rw [if_pos (by omega)] at hread
      have hlen : (field content phdr.offset phdr.filesz).length = phdr.filesz := by
        rw [field, List.length_take, List.length_drop]
        omega
      apply List.ext_getElem (by rw [Memory.length_read, hlen])
      intro i hi hi'
      rw [Memory.length_read] at hi
      obtain ⟨hl, ht⟩ := h.accepted.region (a := phdr.vaddr + i) (by omega) (by omega)
      have hofs : phdr.vaddr + i - phdr.memPage = phdr.pageOffset + i := by omega
      have hpos : phdr.filePage + (phdr.pageOffset + i) = phdr.offset + i := by omega
      simp only [Memory.getElem_read, field, List.getElem_take, List.getElem_drop]
      rw [h.bytes _ hl ht, hofs, segmentImage, if_pos (by omega), hpos, List.getD_eq_getElem]
  · obtain ⟨hl, ht⟩ := h.accepted.region (a := a) (by omega) htop
    rw [h.bytes _ hl ht, segmentImage, if_neg]
    rw [hread]
    split <;> omega

lemma SegmentAt.frame (h : SegmentAt content phdr u) (hle : phdr.filesz ≤ phdr.memsz)
    (hpage : ∀ a, phdr.vaddr ≤ a → a < phdr.vaddr + phdr.memsz → v.page (pgNo a) = u.page (pgNo a))
    (hbytes : ∀ a, phdr.vaddr ≤ a → a < phdr.vaddr + phdr.memsz → v.bytes a = u.bytes a) :
    SegmentAt content phdr v where
  mapped a hlow htop := (hpage a hlow htop).trans (h.mapped a hlow htop)
  file := by
    rw [← h.file]
    exact Memory.read_congr fun a hlow htop => hbytes a hlow (by omega)
  zero a hlow htop := (hbytes a (by omega) htop).trans (h.zero a hlow htop)

lemma Segments.loaded {params : Params} (h : Segments content (segmentsOf content) u)
    (hnone : u.page (pgNo (physBase - pgSize)) = none) (hfits : stackPage.start ≤ params.finalEsp) :
    Loaded content (params.stacked u) := by
  have hpages : (params.stacked u).page = update u.page (pgNo (physBase - pgSize)) (some true) := rfl
  refine ⟨fun g hg => ?_, h.apart, fun k hk => ?_⟩
  · have hholds := h.holds g hg
    have hother : ∀ a, g.vaddr ≤ a → a < g.vaddr + g.memsz → pgNo a ≠ pgNo (physBase - pgSize) := by
      intro a hlow ha he
      have hmap := hholds.segmentAt.mapped a hlow ha
      rw [he, hnone] at hmap
      cases hmap
    refine hholds.segmentAt.frame hholds.accepted.filesz_le (fun a hlow ha => ?_) fun a hlow ha => ?_
    · rw [hpages, update_of_ne (hother a hlow ha)]
    · have hne := hother a hlow ha
      have hin := hholds.accepted.top
      have hout : a < physBase - pgSize := by
        simp only [pgNo, physBase, pgSize] at hne hin ⊢
        omega
      change ((u.bytes.write (physBase - pgSize) (List.replicate pgSize 0)).write params.finalEsp
        params.image) a = _
      rw [Memory.write_of_notMem _ (.inl (by simp only [stackPage] at hfits; omega)),
        Memory.write_of_notMem _ (.inl hout)]
  · by_cases he : k = pgNo (physBase - pgSize)
    · exact .inl he
    · rw [hpages, update_of_ne he] at hk
      exact .inr (h.only k hk)

end Segments

section Runs

variable {b : Books} {held : List (Nat × Nat)} {f p pos : Nat} {o : Obj} {s t : Loading}
  {content : List Byte} {params : Params} {Q : Option (Nat × Nat) → Loading → Prop}
  {E : Panic → Loading → Prop}

def Fails (content : List Byte) : Prop :=
  content.length < ehdrSize ∨ (fileHeader content).bad = true ∨
    content.length < (fileHeader content).phoff + phdrSize * (fileHeader content).phnum ∨
    ∃ front phdr back, headersOf content = front ++ phdr :: back ∧ (phdr.refused = true ∨
      phdr.isLoad = true ∧ ∃ u, Segments content (front.filter Phdr.isLoad) u ∧ Hindered content phdr u)

lemma ends_loadFile (hopen : OpenAt s.fs b held f p o 0) (hcontent : s.fs.content o = content)
    (hempty : ∀ k, s.user.space.page k = none)
    (hnone : ∀ t, StillOpen b held f p o s t → Starved s ∨ Fails content → Q none t)
    (hstack : ∀ t, StillOpen b held f p o s t → (∀ h ∈ headersOf content, h.refused = false) →
      Segments content (segmentsOf content) t.user.space →
      Ends (onUser (setupStack params)) t
        (fun r v => Q (r.map fun esp => ((fileHeader content).entry, esp)) v) E) :
    Ends (loadFile params f) s Q E := by
  obtain ⟨k, fs', hread, hopen', hdisk, hle, hquiet⟩ := hopen.read ehdrSize
  have hlen := Live.length_slice s.fs hle
  have hstill : StillOpen b held f p o s { s with fs := fs' } := ⟨⟨_, hopen'⟩, hdisk, .refl _⟩
  rw [loadFile, ends_bind, ends_onFs hread, hlen, List.drop_zero, hcontent]
  refine Ends.ite (fun hbad => hnone _ hstill ?_) fun hgood => ?_
  · by_cases hk : k = ehdrSize
    · subst hk
      exact .inr (.inr (.inl (hbad.resolve_left fun hne => hne rfl)))
    · by_cases hm : s.fs.mallocs = []
      · refine .inr (.inl ?_)
        have hk' := hquiet hm
        rw [← hcontent, length_content]
        simp only [ehdrSize] at *
        omega
      · exact .inl (.inr hm)
  · rw [not_or, not_not] at hgood
    obtain ⟨rfl, hgood⟩ := hgood
    have hcontent' : fs'.content o = content := (hdisk.content o).trans hcontent
    have hseg : Segments (fs'.content o) [] s.user.space :=
      ⟨by simp, .nil, fun k hk => (hk (hempty k)).elim⟩
    change Ends (loadHeaders f (fileHeader content).phnum (fileHeader content).phoff >>= _) _ _ _
    refine Ends.bind ((ends_loadHeaders hopen' hseg (wordOf_lt _)).mono (fun _ _ h => h) fun _ _ he => he.elim)
      fun ok t hok => ?_
    obtain ⟨hstill', hyes, hno⟩ := hok
    have hstill₂ := hstill.trans hstill'
    simp only [hcontent', List.nil_append] at hyes hno
    cases ok with
    | false =>
      refine hnone _ hstill₂ ?_
      rcases hno rfl with h | h | h
      · exact .inl (hstill.starved h)
      · refine .inr (.inr (.inr (.inl ?_)))
        rwa [← hcontent, length_content, hcontent]
      · exact .inr (.inr (.inr (.inr h)))
    | true =>
      obtain ⟨hheaders, hsegs⟩ := hyes rfl
      rw [if_pos rfl]
      refine (hstack t hstill₂ hheaders hsegs).bind fun r v hv => ?_
      cases r <;> exact hv

lemma ends_pagedirCreate {u : User} {R : Bool → User → Prop} {F : Panic → User → Prop}
    (hno : ∀ v, u.pallocs ≠ [] → R false v)
    (hyes : ∀ v, (∀ k, v.space.page k = none) → Asked u v → R true v) : Ends pagedirCreate u R F := by
  rw [pagedirCreate, ends_bind]
  refine ends_pallocGetPage fun granted v hv ha hg => ?_
  cases granted with
  | false =>
    refine hno v fun hnil => ?_
    exact Bool.false_ne_true (hg hnil)
  | true =>
    rw [if_pos rfl, ends_bind, ends_modify]
    exact hyes _ (fun _ => rfl) ⟨ha.writes, ha.pallocs⟩

lemma ends_load (hlive : Live s.fs b held) {length : Int}
    (hres : resolve { s.fs with mallocs := [] } params.fileName = .ok (some (length, content)))
    (hnone : ∀ t, Starved s → Q none t)
    (hfile : ∀ f p o t, OpenAt t.fs b ((f, p) :: held) f p o 0 → t.fs.content o = content →
      SameDisk s.fs t.fs → Asked s.user t.user → (∀ k, t.user.space.page k = none) →
      Ends (loadFile params f) t
        (fun r v => (∃ pos, OpenAt v.fs b ((f, p) :: held) f p o pos) ∧ ∀ fs, Q r { v with fs }) E) :
    Ends (load params) s Q E := by
  rw [load, ends_bind, ends_onUser]
  refine ends_pagedirCreate (fun v hne => hnone _ (.inl hne)) fun v hempty ha => ?_
  obtain ⟨file, fs₁, hopen, -⟩ := hlive.opensNamed params.fileName
  rw [if_pos rfl, ends_bind, ends_onFs hopen]
  cases file with
  | none =>
    refine hnone _ (.inr fun hnil => ?_)
    have hsame : { s.fs with mallocs := [] } = s.fs := by rw [← hnil]
    obtain ⟨f, fs₂, hopen'⟩ := hlive.opens_of_resolve (hsame ▸ hres)
    cases hopen.symm.trans hopen'
  | some f =>
    obtain ⟨p, k, o, hat, hdisk, hk, ho, -⟩ := hlive.opensAt hopen
    have hcontent := (hdisk.content o).trans (hlive.content_of_resolve hres hk ho)
    refine (hfile f p o ⟨v, fs₁⟩ hat hcontent hdisk ha hempty).bind fun r w ⟨⟨pos, hw⟩, hq⟩ => ?_
    obtain ⟨fs₂, b', hclose, -⟩ := hw.live.closes hw.mem
    rw [ends_bind, ends_onFs_unit (fileClose · (some f)) hclose, ends_pure]
    exact hq fs₂

end Runs

def LoadsRight (line : List UInt8) (s : Loading) : Prop :=
  ∀ length content,
    resolve { s.fs with mallocs := [] } (prepare line).fileName = .ok (some (length, content)) →
    Ends (load (prepare line)) s
      (fun r t => (∀ x, r = some x → Loaded content t.user.space) ∧ (Unloadable content → r = none))
      (fun _ _ => ¬ Unloadable content)

lemma loadsRight_of_fits {line : List UInt8} (hline : 0 ∉ line) (hfits : stackUse line ≤ pgSize)
    {s : Loading} {b : Books} {held : List (Nat × Nat)} (hlive : Live s.fs b held)
    (hw : s.user.writes = []) : LoadsRight line s := by
  intro length content hres
  have hle := stackUse_lt hline
  have hlow : stackPage.start ≤ (prepare line).finalEsp := by
    rw [finalEsp_eq hline]
    simp only [stackPage, physBase, pgSize] at *
    omega
  refine ends_load hlive hres (fun t _ => ⟨by simp, fun _ => rfl⟩) fun f p o t hopen hcontent hdisk ha hempty => ?_
  refine ends_loadFile hopen hcontent hempty (fun v hstill _ => ⟨hstill.opened, fun _ => ⟨by simp, fun _ => rfl⟩⟩)
    fun v hstill hheaders hsegs => ?_
  have hwrites : v.user.writes = [] := hstill.asked.writes.trans (ha.writes.trans hw)
  have hgood : ¬ Unloadable content := by
    rintro (⟨h, hmem, hbad⟩ | ⟨h, hmem, hbad⟩ | hno)
    · rw [hheaders h hmem] at hbad
      cases hbad
    · rw [validateSegment_iff.mpr (hsegs.holds h hmem).accepted] at hbad
      cases hbad
    · exact hno hsegs.apart
  rw [ends_onUser]
  refine (ends_prepared hline hwrites).mono (fun r u hu => ⟨hstill.opened, fun fs => ⟨fun x hx => ?_,
    fun hun => (hgood hun).elim⟩⟩) fun _ u hu => hgood
  rcases hu with ⟨rfl, -⟩ | ⟨rfl, hu⟩
  · cases hx
  · rw [hu.space]
    exact hsegs.loaded hu.unmapped hlow

section High

def highHeaders : List Byte :=
  [0x7f, 0x45, 0x4c, 0x46, 1, 1, 1, 0, 0, 0, 0, 0, 0, 0, 0, 0, 2, 0, 3, 0] ++ word 1 ++ word 0x8048000 ++
    word 52 ++ word 0 ++ word 0 ++ [52, 0, 32, 0, 1, 0, 40, 0, 0, 0, 0, 0] ++
    (word 1 ++ word 0 ++ word 0xbfff8000 ++ word 0xbfff8000 ++ word 28672 ++ word 28672 ++ word 6 ++ word 4096)

def highProgram : List Byte := highHeaders ++ List.replicate 28588 1

def highPhdr : Phdr := .ofBytes (highHeaders.drop 52)

lemma length_highHeaders : highHeaders.length = 84 := by decide

lemma length_highProgram : highProgram.length = 28672 := by
  rw [highProgram, List.length_append, length_highHeaders, List.length_replicate]

lemma fileHeader_highProgram : fileHeader highProgram = .ofBytes (highHeaders.take 52) := by
  rw [fileHeader, highProgram, List.take_append_of_le_length (by rw [length_highHeaders]; decide)]
  rfl

lemma headersOf_highProgram : headersOf highProgram = [highPhdr] := by
  have hfield : field highProgram 52 phdrSize = highHeaders.drop 52 := by
    rw [field, highProgram, List.drop_append_of_le_length (by rw [length_highHeaders]; decide)]
    exact List.take_left' (by rw [List.length_drop, length_highHeaders, phdrSize])
  rw [headersOf, fileHeader_highProgram]
  change [Phdr.ofBytes (field highProgram 52 phdrSize)] = _
  rw [hfield, highPhdr]

lemma segmentsOf_highProgram : segmentsOf highProgram = [highPhdr] := by
  rw [segmentsOf, headersOf_highProgram]
  decide

lemma not_fails_highProgram : ¬ Fails highProgram := by
  rintro (h | h | h | ⟨front, phdr, back, heq, h⟩)
  · rw [length_highProgram] at h
    simp only [ehdrSize] at h
    omega
  · rw [fileHeader_highProgram] at h
    revert h
    decide
  · rw [length_highProgram, fileHeader_highProgram] at h
    revert h
    decide
  · rw [headersOf_highProgram] at heq
    have hfront : front = [] := by
      cases front with
      | nil => rfl
      | cons g front => simp at heq
    subst hfront
    obtain ⟨rfl, -⟩ := List.cons.inj heq
    rcases h with h | ⟨-, u, hu, h⟩
    · revert h
      decide
    · have hacc : highPhdr.Accepted highProgram.length := by
        rw [length_highProgram, ← validateSegment_iff]
        decide
      rcases h with h | h | ⟨k, -, hk⟩
      · exact h hacc
      · rw [length_highProgram] at h
        revert h
        decide
      · obtain ⟨g, hg, -⟩ := hu.only k hk
        cases hg

variable {line : List UInt8}

lemma ends_highProgram (hline : 0 ∉ line) (hlong : pgSize < stackUse line)
    {s : Loading} {b : Books} {held : List (Nat × Nat)} (hlive : Live s.fs b held)
    (hw : s.user.writes = []) (hquiet : ¬ Starved s)
    (hres : resolve { s.fs with mallocs := [] } (prepare line).fileName =
      .ok (some (highProgram.length, highProgram))) :
    Ends (load (prepare line)) s
      (fun r t => (∃ x, r = some x) ∧ t.user.space.bytes (prepare line).finalEsp = 0)
      (fun _ _ => False) := by
  have hle := stackUse_lt hline
  refine ends_load hlive hres (fun t hs => (hquiet hs).elim) fun f p o t hopen hcontent hdisk ha hempty => ?_
  have hquiet' : ¬ Starved t := by
    rw [Starved, not_or, not_not, not_not] at hquiet ⊢
    exact ⟨List.suffix_nil.mp (hquiet.1 ▸ ha.pallocs), hdisk.quiet hquiet.2⟩
  refine ends_loadFile hopen hcontent hempty
    (fun v _ hno => (hno.elim hquiet' not_fails_highProgram).elim) fun v hstill _ hsegs => ?_
  have hwrites : v.user.writes = [] := hstill.asked.writes.trans (ha.writes.trans hw)
  rw [segmentsOf_highProgram] at hsegs
  have hpage : ∀ k, v.user.space.page k ≠ none → highPhdr.HasPage k := by
    intro k hk
    obtain ⟨g, hg, hin⟩ := hsegs.only k hk
    rwa [List.mem_singleton.mp hg] at hin
  have hfirst : pgNo highPhdr.memPage = 786424 := by decide
  have hcnt : highPhdr.pageCnt = 7 := by decide
  have hfree : v.user.space.page (pgNo (physBase - pgSize)) = none := by
    by_contra hne
    obtain ⟨-, htop⟩ := hpage _ hne
    rw [hfirst, hcnt] at htop
    simp [pgNo, physBase, pgSize] at htop
  rw [ends_onUser]
  refine (ends_prepared hline hwrites).mono (fun r u hu => ⟨hstill.opened, fun fs => ?_⟩) fun _ u hu => ?_
  · rcases hu with ⟨-, -, -, hno⟩ | ⟨rfl, hu⟩
    · exact (hquiet' (hstill.starved (.inl (hno.resolve_left fun h => h hfree)))).elim
    · refine ⟨⟨_, rfl⟩, ?_⟩
      have htop := hu.top
      have hpos : 0 < (prepare line).image.length := by
        simp only [finalEsp_eq hline, physBase] at htop
        simp only [pgSize] at hlong
        omega
      rw [hu.space]
      exact Memory.write_of_mem _ hpos
  · obtain ⟨va, hlow, hva, hno⟩ := hu.2.fault
    have hin : highPhdr.HasPage (pgNo va) := by
      rw [Phdr.HasPage, hfirst, hcnt]
      simp only [stackPage, pgNo, physBase, pgSize] at *
      omega
    have hmap := (hsegs.holds highPhdr List.mem_cons_self).page _ hin
    exact hno (hmap.trans (by decide))

lemma not_loaded_highProgram (hline : 0 ∉ line) (hlong : pgSize < stackUse line)
    {u : Space} (hzero : u.bytes (prepare line).finalEsp = 0) : ¬ Loaded highProgram u := by
  intro h
  have hle := stackUse_lt hline
  have hfile := (h.segment highPhdr (by rw [segmentsOf_highProgram]; exact List.mem_cons_self)).file
  have hvaddr : highPhdr.vaddr = 3221192704 := by decide
  have hfilesz : highPhdr.filesz = 28672 := by decide
  have hoffset : highPhdr.offset = 0 := by decide
  obtain ⟨i, hi⟩ : ∃ i, (prepare line).finalEsp = 3221192704 + i := by
    refine ⟨(prepare line).finalEsp - 3221192704, ?_⟩
    rw [finalEsp_eq hline]
    simp only [physBase]
    omega
  have hbounds : 84 ≤ i ∧ i < 28672 := by
    rw [finalEsp_eq hline] at hi
    simp only [physBase, pgSize] at *
    omega
  rw [hvaddr, hfilesz, hoffset, field, List.drop_zero,
    List.take_of_length_le (by rw [length_highProgram])] at hfile
  have hbyte := congrArg (fun bs => bs[i]?) hfile
  simp only [Memory.getElem?_read u.bytes hbounds.2, ← hi, hzero, highProgram] at hbyte
  rw [List.getElem?_append_right (by rw [length_highHeaders]; exact hbounds.1), length_highHeaders,
    List.getElem?_replicate, if_pos (by omega)] at hbyte
  revert hbyte
  decide

lemma exists_not_loadsRight (hline : 0 ∉ line)
    (hvalid : nameValid (prepare line).fileName = true) (hlong : pgSize < stackUse line) :
    ∃ m, Filesys.system.Reachable m ∧
      resolve { m.fs with mallocs := [] } (prepare line).fileName =
        .ok (some (highProgram.length, highProgram)) ∧
      ¬ LoadsRight line ⟨⟨blankUser.space, [], []⟩, { m.fs with mallocs := [] }⟩ := by
  obtain ⟨m, hm, hres⟩ := exists_file hvalid (show highProgram.length ≤ 40000 by rw [length_highProgram]; decide)
  obtain ⟨b, held, hlive, -⟩ := reachable_good hm
  refine ⟨m, hm, hres, fun hright => ?_⟩
  have hends := ends_highProgram hline hlong (s := ⟨⟨blankUser.space, [], []⟩, { m.fs with mallocs := [] }⟩)
    (hlive.with_mallocs []) rfl (by simp [Starved]) hres
  obtain ⟨r, t, hrun, ⟨x, hx⟩, hzero⟩ := hends.exists_ok
  have hload := hright _ _ hres
  rw [Ends, hrun] at hload
  exact not_loaded_highProgram hline hlong hzero (hload.1 x hx)

end High

theorem loads_right_iff {line : List UInt8} (hline : 0 ∉ line) :
    (∀ m, Filesys.system.Reachable m → ∀ space pallocs mallocs,
      LoadsRight line ⟨⟨space, pallocs, []⟩, { m.fs with mallocs }⟩) ↔
    (nameValid (prepare line).fileName = true → stackUse line ≤ pgSize) := by
  refine ⟨fun hall hvalid => ?_, fun hfits m hm space pallocs mallocs => ?_⟩
  · by_contra hlong
    obtain ⟨m, hm, -, hno⟩ := exists_not_loadsRight hline hvalid (Nat.lt_of_not_le hlong)
    exact hno (hall m hm _ _ _)
  · obtain ⟨b, held, hlive, -, hlabels⟩ := reachable_labelled hm
    intro length content hres
    refine loadsRight_of_fits hline (hfits ?_) (hlive.with_mallocs mallocs) rfl length content hres
    rcases (hlive.with_mallocs []).resolves rfl (prepare line).fileName with ⟨-, hr⟩ | ⟨k, o, -, ho, -⟩
    · cases hres.symm.trans hr
    · exact hlabels k ho.lt _ ho.found

theorem loads_right_of_echo :
    nameValid (prepare [101, 32, 120]).fileName = true ∧
      ∀ m, Filesys.system.Reachable m → ∀ space pallocs mallocs,
        LoadsRight [101, 32, 120] ⟨⟨space, pallocs, []⟩, { m.fs with mallocs }⟩ :=
  ⟨by decide, (loads_right_iff (by decide)).mpr fun _ => by decide⟩

theorem many_tokens_overwrite_segment :
    (0 : UInt8) ∉ manyTokens ∧ (prepare manyTokens).fileName.val = [97] ∧
      ∃ m, Filesys.system.Reachable m ∧
        resolve { m.fs with mallocs := [] } (prepare manyTokens).fileName =
          .ok (some (highProgram.length, highProgram)) ∧
        ¬ LoadsRight manyTokens ⟨⟨blankUser.space, [], []⟩, { m.fs with mallocs := [] }⟩ := by
  have hline : (0 : UInt8) ∉ manyTokens := by decide +kernel
  have hname : (prepare manyTokens).fileName.val = [97] := by decide +kernel
  have hvalid : nameValid (prepare manyTokens).fileName = true := by
    rw [nameValid_iff, hname]
    decide
  exact ⟨hline, hname, exists_not_loadsRight hline hvalid (by decide +kernel)⟩

end Pintos.Userprog
