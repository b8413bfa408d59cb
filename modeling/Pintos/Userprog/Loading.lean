import Pintos.Filesys.Contents
import Pintos.Userprog.Loader

/-! What `load` leaves in the address space. -/

namespace Pintos.Userprog

open Pintos.Foundation Pintos.Kernel Pintos.Filesys Function

structure Covers (u v : Space) (start n : Nat) (img : Nat → Byte) (w : Bool) : Prop where
  fresh : ∀ k, pgNo start ≤ k → k < pgNo start + n → u.page k = none
  page : ∀ k, v.page k = if pgNo start ≤ k ∧ k < pgNo start + n then some w else u.page k
  bytes : ∀ a, v.bytes a = if start ≤ a ∧ a < start + pgSize * n then img (a - start) else u.bytes a

lemma Covers.none (u : Space) (start : Nat) (img : Nat → Byte) (w : Bool) : Covers u u start 0 img w where
  fresh k hk hk' := by omega
  page k := by rw [if_neg (by omega)]
  bytes a := by rw [if_neg (by omega)]

lemma Covers.cons {u v : Space} {start n : Nat} {img : Nat → Byte} {w : Bool} {kpage : List Byte}
    (hnone : u.page (pgNo start) = .none) (hlen : kpage.length = pgSize)
    (hpage : ∀ i (hi : i < kpage.length), kpage[i] = img i)
    (h : Covers (u.install start kpage w) v (start + pgSize) n (fun i => img (pgSize + i)) w) :
    Covers u v start (n + 1) img w := by
  have hno : pgNo (start + pgSize) = pgNo start + 1 := Nat.add_div_right _ (by decide)
  have hfirst : (u.install start kpage w).page = update u.page (pgNo start) (some w) := rfl
  obtain ⟨hfresh, hpages, hbytes⟩ := h
  rw [hno] at hfresh hpages
  rw [hfirst] at hfresh hpages
  refine ⟨fun k hk hk' => ?_, fun k => ?_, fun a => ?_⟩
  · by_cases he : k = pgNo start
    · rw [he, hnone]
    · have := hfresh k (by omega) (by omega)
      rwa [update_of_ne he] at this
  · rw [hpages]
    by_cases he : k = pgNo start
    · subst he
      rw [if_neg (by omega), update_self, if_pos (by omega)]
    · rw [update_of_ne he]
      by_cases hin : pgNo start + 1 ≤ k ∧ k < pgNo start + 1 + n
      · rw [if_pos hin, if_pos (by omega)]
      · rw [if_neg hin, if_neg (by omega)]
  · rw [hbytes, Nat.mul_succ]
    by_cases hin : start + pgSize ≤ a ∧ a < start + pgSize + pgSize * n
    · have hofs : pgSize + (a - (start + pgSize)) = a - start := by omega
      rw [if_pos hin, if_pos (by omega), hofs]
    · rw [if_neg hin]
      change (u.bytes.write start kpage) a = _
      by_cases ha : start ≤ a ∧ a < start + pgSize
      · obtain ⟨i, rfl⟩ := Nat.exists_eq_add_of_le ha.1
        rw [if_pos (by omega), Memory.write_of_mem _ (by omega), hpage, Nat.add_sub_cancel_left]
      · rw [if_neg (by omega), Memory.write_of_notMem _ (by omega)]

def segmentImage (content : List Byte) (pos n : Nat) : Nat → Byte := fun i =>
  if i < n then content.getD (pos + i) 0 else 0

section Segment

variable {b : Books} {held : List (Nat × Nat)} {f p pos : Nat} {o : Obj} {s t : Loading}

structure StillOpen (b : Books) (held : List (Nat × Nat)) (f p : Nat) (o : Obj) (s t : Loading) : Prop where
  opened : ∃ pos, OpenAt t.fs b held f p o pos
  disk : SameDisk s.fs t.fs
  asked : Asked s.user t.user

lemma StillOpen.trans {r : Loading} (h : StillOpen b held f p o r s) (h' : StillOpen b held f p o s t) :
    StillOpen b held f p o r t :=
  ⟨h'.opened, h.disk.trans h'.disk, h.asked.trans h'.asked⟩

def Starved (s : Loading) : Prop := s.user.pallocs ≠ [] ∨ s.fs.mallocs ≠ []

lemma StillOpen.starved (h : StillOpen b held f p o s t) (ht : Starved t) : Starved s := by
  by_contra hs
  rw [Starved, not_or, not_not, not_not] at hs
  refine ht.elim (fun hne => hne ?_) fun hne => hne (h.disk.quiet hs.2)
  exact List.suffix_nil.mp (hs.1 ▸ h.asked.pallocs)

variable {q : PageLoad}

lemma page_bytes (content : List Byte) (pos : Nat)
    (hread : ((content.drop pos).take q.pageReadBytes).length = q.pageReadBytes) {i : Nat}
    (hi : i < ((content.drop pos).take q.pageReadBytes ++ List.replicate q.pageZeroBytes 0).length) :
    ((content.drop pos).take q.pageReadBytes ++ List.replicate q.pageZeroBytes 0)[i] =
      segmentImage content pos q.readBytes i := by
  have hcases := q.pageReadBytes_eq
  rw [segmentImage]
  by_cases hlt : i < q.pageReadBytes
  · rw [List.getElem_append_left (by omega), if_pos (by omega), List.getElem_take, List.getElem_drop,
      List.getD_eq_getElem]
  · rw [List.getElem_append_right (by omega), List.getElem_replicate, if_neg]
    rw [List.length_append, hread, List.length_replicate, PageLoad.pageZeroBytes] at hi
    omega

lemma ends_loadPage {n : Nat} (hq : q.Whole (n + 1))
    (hopen : OpenAt s.fs b held f p o pos) (w : Bool) :
    Ends (loadPage f w q) s
      (fun ok t => StillOpen b held f p o s t ∧
        (ok = true → q.pageReadBytes ≤ o.length - pos ∧
          OpenAt t.fs b held f p o (pos + q.pageReadBytes) ∧ s.user.space.page (pgNo q.upage) = none ∧
          t.user.space = s.user.space.install q.upage (((s.fs.content o).drop pos).take q.pageReadBytes ++
            List.replicate q.pageZeroBytes 0) w) ∧
        (ok = false → Starved s ∨ o.length - pos < q.pageReadBytes ∨
          s.user.space.page (pgNo q.upage) ≠ none))
      (fun _ _ => False) := by
  rw [loadPage, ends_bind, ends_onUser]
  refine ends_pallocGetPage fun granted u hu ha hg => ?_
  cases granted with
  | false =>
    refine ⟨⟨⟨pos, hopen⟩, .refl _, ha⟩, by simp, fun _ => .inl (.inl fun hnil => ?_)⟩
    exact Bool.false_ne_true (hg hnil)
  | true =>
    obtain ⟨k, fs', hread, hopen', hdisk, hle, hquiet⟩ := hopen.read q.pageReadBytes
    have hlen := Live.length_slice s.fs hle
    rw [if_pos rfl, ends_bind, ends_onFs hread, hlen]
    refine Ends.ite (fun hk => ?_) fun hk => ?_
    · have hin : q.upage < physBase := by
        have htop := hq.top
        rw [Nat.mul_succ] at htop
        simp only [pgSize] at htop
        omega
      obtain rfl : k = q.pageReadBytes := hk
      rw [ends_onUser]
      refine ends_installPage hq.start hin (fun v hv ha' hno => ?_) fun hnone v hv ha' => ?_
      · refine ⟨⟨⟨_, hopen'⟩, hdisk, ha.trans ha'⟩, by simp, fun _ => ?_⟩
        rcases hno with hno | hno
        · exact .inr (.inr (hu ▸ hno))
        · exact .inl (.inl fun hnil => hno (List.suffix_nil.mp (hnil ▸ ha.pallocs)))
      · refine ⟨⟨⟨_, hopen'⟩, hdisk, ha.trans ha'⟩, fun _ => ⟨by omega, hopen', hu ▸ hnone, ?_⟩, by simp⟩
        rw [hv, hu]
    · refine ⟨⟨⟨_, hopen'⟩, hdisk, ha⟩, by simp, fun _ => ?_⟩
      by_cases hm : s.fs.mallocs = []
      · exact .inr (.inl (by have := hquiet hm; omega))
      · exact .inl (.inr hm)

lemma segmentImage_advance (content : List Byte) (pos : Nat) (q : PageLoad) :
    (fun i => segmentImage content pos q.readBytes (pgSize + i)) =
      segmentImage content (pos + q.pageReadBytes) q.advance.readBytes := by
  have hcases := q.pageReadBytes_eq
  have hrest : q.advance.readBytes = q.readBytes - q.pageReadBytes := rfl
  funext i
  rw [segmentImage, segmentImage, hrest]
  by_cases hi : pgSize + i < q.readBytes
  · have hpos : pos + (pgSize + i) = pos + q.pageReadBytes + i := by omega
    rw [if_pos hi, if_pos (by omega), hpos]
  · rw [if_neg hi, if_neg (by omega)]

lemma ends_loadPages {n fuel : Nat} (hq : q.Whole n) (hfuel : n < fuel)
    (hopen : OpenAt s.fs b held f p o pos) (w : Bool) :
    Ends (loadPages f w fuel q) s
      (fun ok t => StillOpen b held f p o s t ∧
        (ok = true → q.readBytes ≤ o.length - pos ∧ Covers s.user.space t.user.space q.upage n
          (segmentImage (s.fs.content o) pos q.readBytes) w) ∧
        (ok = false → Starved s ∨ o.length - pos < q.readBytes ∨
          ∃ k, pgNo q.upage ≤ k ∧ k < pgNo q.upage + n ∧ s.user.space.page k ≠ none))
      (fun _ _ => False) := by
  induction n generalizing q fuel s pos with
  | zero =>
    obtain ⟨fuel, rfl⟩ := Nat.exists_eq_add_of_lt hfuel
    have hbytes := hq.bytes
    rw [Nat.zero_add, loadPages, if_pos (hq.finished_iff.mpr rfl), ends_pure]
    exact ⟨⟨⟨pos, hopen⟩, .refl _, .refl _⟩, fun _ => ⟨by omega, .none _ _ _ _⟩, nofun⟩
  | succ n ih =>
    cases fuel with
    | zero => omega
    | succ fuel =>
      have hcases := q.pageReadBytes_eq
      have hrest : q.advance.readBytes = q.readBytes - q.pageReadBytes := rfl
      have hup : q.advance.upage = q.upage + pgSize := by rw [hq.advance_eq]
      have hno : pgNo (q.upage + pgSize) = pgNo q.upage + 1 := Nat.add_div_right _ (by decide)
      rw [loadPages, if_neg (by rw [hq.finished_iff]; omega)]
      refine (ends_loadPage hq hopen w).bind fun ok t ⟨hstill, hok, hno'⟩ => ?_
      cases ok with
      | false =>
        refine ⟨hstill, nofun, fun _ => ?_⟩
        rcases hno' rfl with h | h | h
        · exact .inl h
        · exact .inr (.inl (by omega))
        · exact .inr (.inr ⟨_, le_rfl, by omega, h⟩)
      | true =>
        obtain ⟨hle, hopen', hnone, hspace⟩ := hok rfl
        rw [if_pos rfl]
        refine (ih hq.advance (by omega) hopen').imp fun ok v ⟨hstill', hyes, hfail⟩ => ?_
        refine ⟨hstill.trans hstill', fun he => ?_, fun he => ?_⟩
        · obtain ⟨hle', hcov⟩ := hyes he
          rw [hup, hspace, hstill.disk.content, ← segmentImage_advance] at hcov
          have hread := Live.length_slice s.fs (le_min le_rfl hle)
          refine ⟨by omega, hcov.cons hnone ?_ fun i hi => page_bytes _ _ hread hi⟩
          rw [List.length_append, hread, List.length_replicate, PageLoad.pageZeroBytes]
          omega
        · rcases hfail he with h | h | ⟨k, hk, hk', hmap⟩
          · exact .inl (hstill.starved h)
          · exact .inr (.inl (by omega))
          · rw [hup, hno] at hk hk'
            rw [hspace, Space.page_install, update_of_ne (by omega)] at hmap
            exact .inr (.inr ⟨k, by omega, by omega, hmap⟩)

def Phdr.HasPage (phdr : Phdr) (k : Nat) : Prop :=
  pgNo phdr.memPage ≤ k ∧ k < pgNo phdr.memPage + phdr.pageCnt

structure Added (content : List Byte) (phdr : Phdr) (u v : Space) : Prop where
  accepted : phdr.Accepted content.length
  inFile : phdr.readBytes ≤ content.length - phdr.filePage
  covers : Covers u v phdr.memPage phdr.pageCnt (segmentImage content phdr.filePage phdr.readBytes)
    phdr.writable

def Hindered (content : List Byte) (phdr : Phdr) (u : Space) : Prop :=
  ¬ phdr.Accepted content.length ∨ content.length - phdr.filePage < phdr.readBytes ∨
    ∃ k, phdr.HasPage k ∧ u.page k ≠ none

lemma ends_loadSegment {phdr : Phdr} (hacc : phdr.Accepted o.length)
    (hopen : OpenAt s.fs b held f p o pos) :
    Ends (loadSegment f phdr.filePage phdr.memPage phdr.readBytes phdr.zeroBytes phdr.writable) s
      (fun ok t => StillOpen b held f p o s t ∧
        (ok = true → Added (s.fs.content o) phdr s.user.space t.user.space) ∧
        (ok = false → Starved s ∨ Hindered (s.fs.content o) phdr s.user.space))
      (fun _ _ => False) := by
  have hfits := accepted_fits hacc
  have hlen := length_content s.fs o
  have hlt := o.length_lt
  have hofs : phdr.filePage < 2147483648 := by
    have hin := hacc.inFile
    rw [ofInt32_natCast (by omega)] at hin
    exact Nat.lt_of_le_of_lt (Nat.div_mul_le_self _ _) (by omega)
  have hint := toInt32_of_lt hofs
  obtain ⟨fs', hseek, hopen', hdisk⟩ := hopen.seek (show 0 ≤ toInt32 phdr.filePage by omega)
  have hcnt : phdr.pageCnt < 1048577 := by
    have htop := hacc.whole.top
    simp only [pgSize, physBase] at htop
    omega
  rw [hint, Int.toNat_natCast] at hopen'
  simp only [loadSegment, assertUser, if_pos hfits.bytes, if_pos hfits.upage, if_pos hfits.ofs, ends_bind,
    ends_onUser, ends_pure]
  rw [ends_onFs_unit (fileSeek · f _) hseek]
  refine (ends_loadPages hacc.whole hcnt hopen' phdr.writable).imp fun ok t hok => ?_
  obtain ⟨hstill, hyes, hno⟩ := hok
  refine ⟨⟨hstill.opened, hdisk.trans hstill.disk, hstill.asked⟩, fun he => ?_, fun he => ?_⟩
  · obtain ⟨hle, hcov⟩ := hyes he
    rw [hdisk.content] at hcov
    exact ⟨hlen ▸ hacc, hlen ▸ hle, hcov⟩
  · rcases hno he with h | h | ⟨k, hk, hk', hmap⟩
    · exact .inl (h.imp id fun hne hnil => hne (hdisk.quiet hnil))
    · exact .inr (.inr (.inl (hlen ▸ h)))
    · exact .inr (.inr (.inr ⟨k, ⟨hk, hk'⟩, hmap⟩))

lemma fileLength_run (hopen : OpenAt s.fs b held f p o pos) :
    (do return (← fileLength s.fs f, s.fs)) = (.ok ((o.length : Int), s.fs) : Except Panic (Int × Fs)) := by
  rw [hopen.length]
  rfl

lemma ends_loadHeader (hopen : OpenAt s.fs b held f p o pos) (phdr : Phdr) :
    Ends (loadHeader f phdr) s
      (fun ok t => StillOpen b held f p o s t ∧
        (ok = true → phdr.refused = false ∧
          (phdr.type = ptLoad → Added (s.fs.content o) phdr s.user.space t.user.space) ∧
          (phdr.type ≠ ptLoad → t.user.space = s.user.space)) ∧
        (ok = false → Starved s ∨ phdr.refused = true ∨
          phdr.type = ptLoad ∧ Hindered (s.fs.content o) phdr s.user.space))
      (fun _ _ => False) := by
  have hlen := length_content s.fs o
  have hstill : StillOpen b held f p o s s := ⟨⟨pos, hopen⟩, .refl _, .refl _⟩
  rw [loadHeader]
  refine Ends.ite (fun hbad => ⟨hstill, nofun, fun _ => .inr (.inl hbad)⟩) fun hgood => ?_
  have hgood' := eq_false_of_ne_true hgood
  refine Ends.ite (fun htype => ?_) fun htype => ?_
  · rw [ends_bind, ends_onFs (fileLength_run hopen)]
    refine Ends.ite (fun hval => ?_) fun hval => ?_
    · have hacc := validateSegment_iff.mp hval
      refine (ends_loadSegment hacc hopen).imp fun ok t ⟨hstill', hyes, hno⟩ => ?_
      exact ⟨hstill', fun he => ⟨hgood', fun _ => hyes he, fun hne => (hne htype).elim⟩,
        fun he => (hno he).imp id fun h => .inr ⟨htype, h⟩⟩
    · refine ⟨hstill, nofun, fun _ => .inr (.inr ⟨htype, .inl fun hacc => hval ?_⟩)⟩
      rw [hlen] at hacc
      exact validateSegment_iff.mpr hacc
  · exact ⟨hstill, fun _ => ⟨hgood', fun h => (htype h).elim, fun _ => rfl⟩, nofun⟩

end Segment

section Headers

def programHeaders (content : List Byte) : Nat → Nat → List Phdr
  | 0, _ => []
  | n + 1, ofs => .ofBytes (field content ofs phdrSize) :: programHeaders content n (ofs + phdrSize)

def Phdr.isLoad (phdr : Phdr) : Bool := decide (phdr.type = ptLoad)

def Phdr.Apart (phdr phdr' : Phdr) : Prop := ∀ k, phdr.HasPage k → ¬ phdr'.HasPage k

structure Holds (content : List Byte) (phdr : Phdr) (u : Space) : Prop where
  accepted : phdr.Accepted content.length
  inFile : phdr.readBytes ≤ content.length - phdr.filePage
  page : ∀ k, phdr.HasPage k → u.page k = some phdr.writable
  bytes : ∀ a, phdr.memPage ≤ a → a < phdr.memPage + pgSize * phdr.pageCnt →
    u.bytes a = segmentImage content phdr.filePage phdr.readBytes (a - phdr.memPage)

structure Segments (content : List Byte) (hs : List Phdr) (u : Space) : Prop where
  holds : ∀ h ∈ hs, Holds content h u
  apart : hs.Pairwise Phdr.Apart
  only : ∀ k, u.page k ≠ none → ∃ h ∈ hs, h.HasPage k

variable {content : List Byte} {phdr : Phdr} {u v : Space} {hs : List Phdr}

lemma Phdr.hasPage_of_mem {a : Nat} (hlow : phdr.memPage ≤ a)
    (htop : a < phdr.memPage + pgSize * phdr.pageCnt) : phdr.HasPage (pgNo a) := by
  have hmem : phdr.memPage = phdr.vaddr / 4096 * 4096 := rfl
  simp only [Phdr.HasPage, pgNo, pgSize] at *
  omega

variable {k : Nat}

section

variable (h : Added content phdr u v)

include h

lemma Added.page_of_hasPage (hk : phdr.HasPage k) : v.page k = some phdr.writable :=
  (h.covers.page k).trans (if_pos hk)

lemma Added.page_of_not (hk : ¬ phdr.HasPage k) : v.page k = u.page k :=
  (h.covers.page k).trans (if_neg hk)

lemma Added.holds : Holds content phdr v where
  accepted := h.accepted
  inFile := h.inFile
  page k hk := h.page_of_hasPage hk
  bytes a hlow htop := by rw [h.covers.bytes, if_pos ⟨hlow, htop⟩]

lemma Added.fresh (hk : phdr.HasPage k) : u.page k = none :=
  h.covers.fresh k hk.1 hk.2

end

lemma Holds.frame {phdr' : Phdr} (h : Holds content phdr u) (ha : Added content phdr' u v) :
    Holds content phdr v := by
  have hapart : ∀ k, phdr.HasPage k → ¬ phdr'.HasPage k := by
    intro k hk hk'
    have hnone := ha.fresh hk'
    rw [h.page k hk] at hnone
    cases hnone
  refine ⟨h.accepted, h.inFile, fun k hk => ?_, fun a hlow htop => ?_⟩
  · rw [ha.page_of_not (hapart k hk), h.page k hk]
  · rw [ha.covers.bytes, if_neg, h.bytes a hlow htop]
    rintro ⟨hlow', htop'⟩
    exact hapart _ (Phdr.hasPage_of_mem hlow htop) (Phdr.hasPage_of_mem hlow' htop')

lemma Segments.add (h : Segments content hs u) (ha : Added content phdr u v) :
    Segments content (hs ++ [phdr]) v where
  holds g hg := by
    rcases List.mem_append.mp hg with hg | hg
    · exact (h.holds g hg).frame ha
    · rw [List.mem_singleton.mp hg]
      exact ha.holds
  apart := by
    refine List.pairwise_append.mpr ⟨h.apart, List.pairwise_singleton _ _, fun g hg g' hg' k hk hk' => ?_⟩
    rw [List.mem_singleton.mp hg'] at hk'
    have hnone := ha.fresh hk'
    rw [(h.holds g hg).page k hk] at hnone
    cases hnone
  only k hk := by
    by_cases hin : phdr.HasPage k
    · exact ⟨phdr, by simp, hin⟩
    · rw [ha.page_of_not hin] at hk
      obtain ⟨g, hg, hpage⟩ := h.only k hk
      exact ⟨g, List.mem_append_left _ hg, hpage⟩

lemma Segments.header (h : Segments content hs u) (hadd : phdr.type = ptLoad → Added content phdr u v)
    (hsame : phdr.type ≠ ptLoad → v = u) : Segments content (hs ++ [phdr].filter Phdr.isLoad) v := by
  by_cases htype : phdr.type = ptLoad
  · rw [List.filter_cons_of_pos (by simpa [Phdr.isLoad] using htype), List.filter_nil]
    exact h.add (hadd htype)
  · rw [List.filter_cons_of_neg (by simpa [Phdr.isLoad] using htype), List.filter_nil, List.append_nil,
      hsame htype]
    exact h

lemma filter_front (hs : List Phdr) (phdr : Phdr) (front rest : List Phdr) :
    hs ++ (phdr :: front ++ rest).filter Phdr.isLoad =
      hs ++ [phdr].filter Phdr.isLoad ++ (front ++ rest).filter Phdr.isLoad := by
  rw [List.append_assoc, ← List.filter_append]
  rfl

variable {b : Books} {held : List (Nat × Nat)} {f p pos : Nat} {o : Obj} {s t : Loading}

lemma ends_loadHeaders {n ofs : Nat} (hopen : OpenAt s.fs b held f p o pos)
    (hseg : Segments (s.fs.content o) hs s.user.space) (hofs : ofs < 4294967296) :
    Ends (loadHeaders f n ofs) s
      (fun ok t => StillOpen b held f p o s t ∧
        (ok = true → (∀ h ∈ programHeaders (s.fs.content o) n ofs, h.refused = false) ∧
          Segments (s.fs.content o) (hs ++ (programHeaders (s.fs.content o) n ofs).filter Phdr.isLoad)
            t.user.space) ∧
        (ok = false → Starved s ∨ o.length < ofs + phdrSize * n ∨ ∃ front phdr back,
          programHeaders (s.fs.content o) n ofs = front ++ phdr :: back ∧ (phdr.refused = true ∨
            phdr.isLoad = true ∧ ∃ u, Segments (s.fs.content o) (hs ++ front.filter Phdr.isLoad) u ∧
              Hindered (s.fs.content o) phdr u)))
      (fun _ _ => False) := by
  induction n generalizing ofs s pos hs with
  | zero =>
    refine ⟨⟨⟨pos, hopen⟩, .refl _, .refl _⟩, fun _ => ⟨by simp [programHeaders], ?_⟩, by simp⟩
    rwa [programHeaders, List.filter_nil, List.append_nil]
  | succ n ih =>
    have hlt := o.length_lt
    have hstill : StillOpen b held f p o s s := ⟨⟨pos, hopen⟩, .refl _, .refl _⟩
    rw [loadHeaders, ends_bind, ends_onFs (fileLength_run hopen)]
    refine Ends.ite (fun hout => ⟨hstill, by simp, fun _ => .inr (.inl ?_)⟩) fun hin => ?_
    · rw [toInt32] at hout
      simp only [phdrSize]
      split at hout <;> omega
    · have hsmall : ofs < 2147483648 := by
        rw [toInt32] at hin
        split at hin <;> omega
      rw [toInt32_of_lt hsmall] at hin ⊢
      obtain ⟨fs₁, hseek, hopen₁, hdisk₁⟩ := hopen.seek (show 0 ≤ (ofs : Int) by omega)
      rw [Int.toNat_natCast] at hopen₁
      obtain ⟨k, fs₂, hread, hopen₂, hdisk₂, hle, hquiet⟩ := hopen₁.read phdrSize
      have hdisk := hdisk₁.trans hdisk₂
      rw [hdisk₁.content] at hread
      have hlen := Live.length_slice s.fs hle
      rw [ends_bind, ends_onFs_unit (fileSeek · f _) hseek, ends_bind, ends_onFs hread, hlen]
      refine Ends.ite (fun hk => ⟨⟨⟨_, hopen₂⟩, hdisk, .refl _⟩, by simp, fun _ => ?_⟩) fun hk => ?_
      · by_cases hm : s.fs.mallocs = []
        · refine .inr (.inl ?_)
          have hk' := hquiet (hdisk₁.quiet hm)
          simp only [phdrSize] at *
          omega
        · exact .inl (.inr hm)
      · obtain rfl : k = phdrSize := not_not.mp hk
        have hwrap : wrap (ofs + phdrSize) = ofs + phdrSize := by
          apply wrap_of_lt
          simp only [phdrSize]
          omega
        have hcontent : fs₂.content o = s.fs.content o := hdisk.content o
        change Ends (do
          if ← loadHeader f (.ofBytes (field (s.fs.content o) ofs phdrSize)) then
            loadHeaders f n (wrap (ofs + phdrSize)) else return false) _ _ _
        rw [hwrap, programHeaders]
        generalize hphdr : Phdr.ofBytes (field (s.fs.content o) ofs phdrSize) = phdr
        refine (ends_loadHeader (s := { s with fs := fs₂ }) hopen₂ phdr).bind fun ok t hok => ?_
        obtain ⟨hstill₁, hyes, hno⟩ := hok
        have hstill₂ : StillOpen b held f p o s t := ⟨hstill₁.opened, hdisk.trans hstill₁.disk, hstill₁.asked⟩
        cases ok with
        | false =>
          refine ⟨hstill₂, by simp, fun _ => ?_⟩
          rcases hno rfl with h | h | ⟨htype, h⟩
          · exact .inl (h.imp id fun hne hnil => hne (hdisk.quiet hnil))
          · exact .inr (.inr ⟨[], phdr, _, rfl, .inl h⟩)
          · refine .inr (.inr ⟨[], phdr, _, rfl, .inr ⟨decide_eq_true htype, s.user.space, ?_, ?_⟩⟩)
            · rwa [List.filter_nil, List.append_nil]
            · rwa [← hcontent]
        | true =>
          obtain ⟨hgood, hadd, hsame⟩ := hyes rfl
          obtain ⟨pos', hopen'⟩ := hstill₁.opened
          have hcontent' : t.fs.content o = s.fs.content o := hstill₂.disk.content o
          rw [hcontent] at hadd
          have hseg' := hseg.header hadd hsame
          rw [← hcontent'] at hseg'
          rw [if_pos rfl]
          refine (ih hopen' hseg' (by simp only [phdrSize]; omega)).imp fun ok v hok => ?_
          obtain ⟨hstill₃, hyes', hno'⟩ := hok
          rw [hcontent'] at hyes' hno'
          refine ⟨hstill₂.trans hstill₃, fun he => ?_, fun he => ?_⟩
          · obtain ⟨hrest, hfinal⟩ := hyes' he
            refine ⟨?_, ?_⟩
            · intro h hmem
              rcases List.mem_cons.mp hmem with rfl | hmem
              · exact hgood
              · exact hrest h hmem
            · have hfront := filter_front hs phdr [] (programHeaders (s.fs.content o) n
                (ofs + phdrSize))
              rw [List.nil_append] at hfront
              exact hfront ▸ hfinal
          · rcases hno' he with h | h | ⟨front, g, back, heq, h⟩
            · exact .inl (hstill₂.starved h)
            · exact .inr (.inl (by rw [Nat.mul_succ]; omega))
            · refine .inr (.inr ⟨phdr :: front, g, back, by rw [heq]; rfl, h.imp id fun hbad => ?_⟩)
              obtain ⟨hl, w, hw, hh⟩ := hbad
              have hfront := filter_front hs phdr front []
              rw [List.append_nil, List.append_nil] at hfront
              exact ⟨hl, w, hfront ▸ hw, hh⟩

end Headers

end Pintos.Userprog
