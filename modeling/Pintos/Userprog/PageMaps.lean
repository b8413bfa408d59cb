import Pintos.Foundation.Folds
import Pintos.Userprog.PageTables

/-! Runs of the operations on one page directory. -/

namespace Pintos.Userprog.Pagedir

open Pintos.Foundation Pintos.Kernel Function

variable {u : Paging}

structure Booted (s : Paging) : Prop where
  ram : s.initRamPages ≤ 262144
  dir : s.initPageDir ∈ s.allocated
  page : ∀ p ∈ s.allocated, IsPage p
  nodup : s.allocated.Nodup
  user : ∀ i, i < 768 → s.entries s.initPageDir i = 0
  kernel : ∀ i, 768 ≤ i → i < 1024 → s.entries s.initPageDir i = 0 ∨
    ∃ p ∈ s.allocated, p ≠ s.initPageDir ∧ s.entries s.initPageDir i = pdeOf p

inductive Op
  | setPage (page upage kpage : Nat) (writable : Bool)
  | clearPage (upage : Nat)
  | setDirty (vpage : Nat) (dirty : Bool)
  | setAccessed (vpage : Nat) (accessed : Bool)
  deriving DecidableEq, Repr

def Fresh (s : Paging) (page : Nat) : Prop := page = 0 ∨ IsPage page ∧ page ∉ s.allocated

instance (s : Paging) (page : Nat) : Decidable (Fresh s page) := inferInstanceAs (Decidable (_ ∨ _))

def Mapped.run (s : Mapped) (cell : Nat → Cell) : Except Panic Paging → Option Mapped
  | .ok t => some { s with paging := t, cell := cell }
  | .error _ => none

def Mapped.next (s : Mapped) : Op → Option Mapped
  | .setPage page upage kpage writable =>
    if Fresh s.paging page then
      match pagedirSetPage s.paging page s.pd upage kpage writable with
      | .ok (true, t) => some { s with paging := t, cell := update s.cell (pgNo upage) (.mapped kpage writable) }
      | .ok (false, t) => some { s with paging := t }
      | .error _ => none
    else none
  | .clearPage upage =>
    s.run (update s.cell (pgNo upage) (s.cell (pgNo upage)).clear) (pagedirClearPage s.paging s.pd upage)
  | .setDirty vpage dirty =>
    if vpage < 4294967296 then s.run s.cell (pagedirSetDirty s.paging s.pd vpage dirty) else none
  | .setAccessed vpage accessed =>
    if vpage < 4294967296 then s.run s.cell (pagedirSetAccessed s.paging s.pd vpage accessed) else none

def Mapped.ofCreate (s : Paging) (page : Nat) : Mapped where
  paging := (pagedirCreate s page).2
  pd := (pagedirCreate s page).1
  boot := s.allocated
  copied := s.entries s.initPageDir
  cell _ := .never

def system : System Mapped Op where
  init s := ∃ p page, Booted p ∧ Fresh p page ∧ page ≠ 0 ∧ s = .ofCreate p page
  next := Mapped.next

section Steps

variable {s t : Mapped} {table : Nat → Option Nat}

lemma radix_ofCreate {s : Paging} {page : Nat} (hb : Booted s) (hf : Fresh s page) (hne : page ≠ 0) :
    Radix (.ofCreate s page) fun _ => none := by
  have hpage := hf.resolve_left hne
  have hresult : pagedirCreate s page = (page, (s.grant page).fill page (s.entries s.initPageDir)) := if_pos hne
  have hpd : (Mapped.ofCreate s page).pd = page := congrArg Prod.fst hresult
  have hpaging : (Mapped.ofCreate s page).paging = (s.grant page).fill page (s.entries s.initPageDir) :=
    congrArg Prod.snd hresult
  have hallocated : (Mapped.ofCreate s page).paging.allocated = [] ++ (Mapped.ofCreate s page).pd :: s.allocated := by
    rw [hpaging, hpd]
    rfl
  have hcreated : (Mapped.ofCreate s page).created = [] := Mapped.created_eq hallocated
  have hdir : (Mapped.ofCreate s page).paging.entries (Mapped.ofCreate s page).pd = s.entries s.initPageDir := by
    rw [hpaging, hpd]
    exact update_self _ _ _
  refine { pd := hpd.symm ▸ hpage.1, entry := fun i hi => ?_, kernel := fun i _ _ => congrFun hdir i,
           shared := fun i hlow hi => ?_,
           bound := fun i hi => absurd rfl hi, page := fun i p hp => absurd hp (Option.not_mem_none p),
           inj := fun i j p hp => absurd hp (Option.not_mem_none p), allocated := ?_, nodup := ?_,
           mem_created := fun p => ?_, never := fun _ _ _ _ => rfl, agrees := fun i hi j hj => agrees_zero }
  · exact (congrFun hdir i).trans (hb.user i hi)
  · rcases hb.kernel i hlow hi with hzero | ⟨p, hp, -, hpde⟩
    · exact .inl hzero
    · exact .inr ⟨p, hp, hb.page p hp, hpde⟩
  · rw [hcreated]
    exact hallocated
  · rw [hcreated, hpd]
    exact List.nodup_cons.mpr ⟨hpage.2, hb.nodup⟩
  · rw [hcreated]
    simp

structure Extends (s u : Paging) (page : Nat) : Prop where
  ram : u.initRamPages = s.initRamPages
  dir : u.initPageDir = s.initPageDir
  allocated : ∀ p ∈ u.allocated, p = page ∨ p ∈ s.allocated

lemma Extends.store (s : Paging) (e : Entry) (w : Word) (page : Nat) : Extends s (s.store e w) page :=
  ⟨rfl, rfl, fun _ => .inr⟩

lemma Extends.refl (s : Paging) (page : Nat) : Extends s s page := ⟨rfl, rfl, fun _ => .inr⟩

lemma Radix.lookup_create {page va : Nat} (h : Radix s table) (hva : va < physBase) (hf : Fresh s.paging page) :
    (page = 0 ∧ table (pdNo va) = none ∧ lookupPage s.paging page s.pd va true = .ok (none, s.paging)) ∨
      ∃ (u : Paging) (table' : Nat → Option Nat) (p : Nat), Extends s.paging u page ∧
        Radix { s with paging := u } table' ∧ p ∈ table' (pdNo va) ∧
        lookupPage s.paging page s.pd va true = .ok (some ⟨p, ptNo va⟩, u) := by
  have huser : isUserVaddr va = true := decide_eq_true hva
  have hentry := h.entry _ (pdNo_lt hva)
  cases ht : table (pdNo va) with
  | some p =>
    rw [ht] at hentry
    exact .inr ⟨s.paging, table, p, .refl _ _, h, ht,
      lookupPage_of_pdeOf h.pd.ne_zero (.inr huser) (h.page _ p ht) hentry⟩
  | none =>
    rw [ht] at hentry
    have hzero : s.paging.load ⟨s.pd, pdNo va⟩ = 0 := hentry
    rcases hf with rfl | ⟨hpage, hfresh⟩
    · refine .inl ⟨rfl, rfl, ?_⟩
      rw [lookupPage, assertThat_pos h.pd.ne_zero, assertThat_pos (.inr huser)]
      simp only [bind_ok, hzero, if_true]
      rfl
    · refine .inr ⟨(s.withTable (pdNo va) page).paging, _, page, ⟨rfl, rfl, fun _ => List.mem_cons.mp⟩,
        h.withTable (pdNo_lt hva) ht hpage hfresh, ?_, ?_⟩
      · rw [update_self]
        rfl
      · have hload : (s.withTable (pdNo va) page).paging.load ⟨s.pd, pdNo va⟩ = pdeOf page := by
          change update (update s.paging.entries page _) s.pd (update _ _ _) s.pd (pdNo va) = _
          rw [update_self, update_self]
        rw [lookupPage, assertThat_pos h.pd.ne_zero, assertThat_pos (.inr huser)]
        simp only [bind_ok, hzero, if_true, if_neg hpage.ne_zero, hpage.pdeCreate_eq]
        rw [Mapped.withTable] at hload
        simp only [hload, hpage.pdeGetPt_eq, bind_ok]
        rfl

lemma isPage_of_frame {ram k : Nat} (hram : ram ≤ 262144) (hofs : pgOfs k = 0) (hbase : physBase ≤ k)
    (hframe : (k - physBase) / pgSize < ram) : IsPage k := by
  have hlt : k - physBase < ram * pgSize := (Nat.div_lt_iff_lt_mul (by decide)).mp hframe
  have htop : ram * pgSize ≤ 262144 * pgSize := Nat.mul_le_mul_right _ hram
  have hsum : physBase + 262144 * pgSize = 4294967296 := rfl
  exact ⟨hofs, hbase, by omega⟩

lemma vtop_eq_ok {k x : Nat} : vtop k = .ok x ↔ physBase ≤ k ∧ k - physBase = x := by
  rw [vtop, assertThat_bind_eq_ok, pure_eq_ok, Except.ok.injEq]

lemma Radix.setPage {page upage kpage : Nat} {writable r : Bool} (h : Radix s table)
    (hram : s.paging.initRamPages ≤ 262144) (hf : Fresh s.paging page)
    (hrun : pagedirSetPage s.paging page s.pd upage kpage writable = .ok (r, u)) :
    upage < physBase ∧ IsPage kpage ∧
      (r = false ∧ u = s.paging ∨
       r = true ∧ Extends s.paging u page ∧ ∃ table', Radix
        { s with paging := u, cell := update s.cell (pgNo upage) (.mapped kpage writable) } table') := by
  rw [pagedirSetPage, assertThat_bind_eq_ok, assertThat_bind_eq_ok, assertThat_bind_eq_ok, bind_eq_ok] at hrun
  obtain ⟨-, hofs, huser, frame, hvtop, hrun⟩ := hrun
  rw [assertThat_bind_eq_ok, assertThat_bind_eq_ok] at hrun
  obtain ⟨hframe, -, hrun⟩ := hrun
  obtain ⟨hbase, rfl⟩ := vtop_eq_ok.mp hvtop
  have hva : upage < physBase := of_decide_eq_true huser
  have hk := isPage_of_frame hram hofs hbase hframe
  refine ⟨hva, hk, ?_⟩
  rcases h.lookup_create hva hf with ⟨-, -, hlookup⟩ | ⟨t, table', p, hext, ht, hp, hlookup⟩
  · rw [hlookup] at hrun
    obtain ⟨rfl, rfl⟩ := Prod.mk.inj (Except.ok.inj hrun)
    exact .inl ⟨rfl, rfl⟩
  · rw [hlookup] at hrun
    simp only [bind_ok, assertThat_bind_eq_ok, pteCreateUser_eq hofs hbase] at hrun
    obtain ⟨rfl, rfl⟩ := Prod.mk.inj (Except.ok.inj hrun.2)
    refine .inr ⟨rfl, ⟨hext.ram, hext.dir, hext.allocated⟩, table', ?_⟩
    have hstored := ht.storeUser hp (ptNo_lt upage) (agrees_pteOf hk writable)
    rwa [← pgNo_eq] at hstored

lemma Radix.clearPage {upage : Nat} (h : Radix s table)
    (hrun : pagedirClearPage s.paging s.pd upage = .ok u) : upage < physBase ∧ Extends s.paging u 0 ∧
      Radix { s with paging := u, cell := update s.cell (pgNo upage) (s.cell (pgNo upage)).clear } table := by
  simp only [pagedirClearPage, assertThat_bind_eq_ok] at hrun
  obtain ⟨-, huser, hrun⟩ := hrun
  have hva : upage < physBase := of_decide_eq_true huser
  have hagrees := h.agrees _ (pdNo_lt hva) _ (ptNo_lt upage)
  rw [← pgNo_eq] at hagrees
  have hkeep : (s.cell (pgNo upage)).clear = s.cell (pgNo upage) → Radix
      { s with cell := update s.cell (pgNo upage) (s.cell (pgNo upage)).clear } table := fun heq => by
    rwa [heq, update_eq_self]
  refine ⟨hva, ?_⟩
  rw [h.lookup_user hva, bind_ok] at hrun
  cases ht : table (pdNo upage) with
  | none =>
    rw [ht] at hrun hagrees
    obtain rfl := Except.ok.inj hrun
    exact ⟨.refl _ _, hkeep (hagrees.clear_eq BitVec.zero_and)⟩
  | some p =>
    rw [ht] at hrun hagrees
    have hresult := Except.ok.inj hrun
    split at hresult
    · subst hresult
      have hstored := h.storeUser ht (ptNo_lt upage) hagrees.clear
      rw [← pgNo_eq] at hstored
      exact ⟨.store _ _ _ _, hstored⟩
    · next habsent =>
      subst hresult
      exact ⟨.refl _ _, hkeep (hagrees.clear_eq (not_not.mp habsent))⟩

lemma Radix.setFlag {flag : Word} {vpage : Nat} {value : Bool} (h : Radix s table)
    (hP : flag &&& pteP = 0#32) (hW : flag &&& pteW = 0#32) (hA : flag &&& pteAddr = 0#32)
    (hva : vpage < 4294967296) (hrun : Pagedir.setFlag flag s.paging s.pd vpage value = .ok u) :
    Extends s.paging u 0 ∧ Radix { s with paging := u } table := by
  rw [Pagedir.setFlag] at hrun
  rcases Nat.lt_or_ge vpage physBase with huser | hkernel
  · have hagrees := h.agrees _ (pdNo_lt huser) _ (ptNo_lt vpage)
    rw [h.lookup_user huser, bind_ok] at hrun
    cases ht : table (pdNo vpage) with
    | none =>
      rw [ht] at hrun
      obtain rfl := Except.ok.inj hrun
      exact ⟨.refl _ _, h⟩
    | some p =>
      rw [ht] at hrun hagrees
      obtain rfl := Except.ok.inj hrun
      have hstored := h.storeUser ht (ptNo_lt vpage) (hagrees.setFlag hP hW hA value)
      rw [update_eq_self] at hstored
      exact ⟨.store _ _ _ _, hstored⟩
  · have hlow : 768 ≤ pdNo vpage := (Nat.le_div_iff_mul_le (by decide)).mpr hkernel
    rcases h.lookup_kernel hlow hva with hlookup | ⟨p, hp, hlookup⟩
    · rw [hlookup, bind_ok] at hrun
      obtain rfl := Except.ok.inj hrun
      exact ⟨.refl _ _, h⟩
    · rw [hlookup, bind_ok] at hrun
      obtain rfl := Except.ok.inj hrun
      exact ⟨.store _ _ _ _, h.storeShared hp⟩

structure Inv (s : Mapped) : Prop where
  ram : s.paging.initRamPages ≤ 262144
  dir : s.paging.initPageDir ∈ s.boot
  radix : ∃ table, Radix s table

lemma Mapped.run_eq_some {cell : Nat → Cell} {r : Except Panic Paging} (h : s.run cell r = some t) :
    ∃ u, r = .ok u ∧ t = { s with paging := u, cell := cell } := by
  cases r with
  | error e => exact nomatch h
  | ok u => exact ⟨u, rfl, (Option.some.inj h).symm⟩

def Op.page : Op → Nat
  | .setPage page _ _ _ => page
  | _ => 0

inductive CellStep (cell : Nat → Cell) : Op → (Nat → Cell) → Prop
  | keep (op : Op) : CellStep cell op cell
  | set (page upage kpage : Nat) (writable : Bool) : upage < physBase → IsPage kpage →
    CellStep cell (.setPage page upage kpage writable) (update cell (pgNo upage) (.mapped kpage writable))
  | clear (upage : Nat) : upage < physBase →
    CellStep cell (.clearPage upage) (update cell (pgNo upage) (cell (pgNo upage)).clear)

lemma Inv.extend {page : Nat} {cell : Nat → Cell} (h : Inv s) (hext : Extends s.paging u page)
    (hr : Radix { s with paging := u, cell := cell } table) : Inv { s with paging := u, cell := cell } :=
  ⟨hext.ram.le.trans h.ram, hext.dir.symm ▸ h.dir, table, hr⟩

lemma Inv.step {op : Op} (h : Inv s) (hs : s.next op = some t) :
    Inv t ∧ Extends s.paging t.paging op.page ∧ CellStep s.cell op t.cell := by
  obtain ⟨table, hr⟩ := h.radix
  cases op with
  | setPage page upage kpage writable =>
    rw [Mapped.next, Option.ite_none_right_eq_some] at hs
    obtain ⟨hf, hs⟩ := hs
    split at hs
    · next u hrun =>
      obtain rfl := Option.some.inj hs
      obtain ⟨hva, hk, ⟨hfalse, -⟩ | ⟨-, hext, table', hr'⟩⟩ := hr.setPage h.ram hf hrun
      · exact absurd hfalse (by decide)
      · exact ⟨h.extend hext hr', hext, .set page upage kpage writable hva hk⟩
    · next u hrun =>
      obtain rfl := Option.some.inj hs
      obtain ⟨-, -, ⟨-, rfl⟩ | ⟨htrue, -⟩⟩ := hr.setPage h.ram hf hrun
      · exact ⟨h, .refl _ _, .keep _⟩
      · exact absurd htrue (by decide)
    · exact nomatch hs
  | clearPage upage =>
    obtain ⟨u, hrun, rfl⟩ := Mapped.run_eq_some hs
    obtain ⟨hva, hext, hr'⟩ := hr.clearPage hrun
    exact ⟨h.extend hext hr', hext, .clear upage hva⟩
  | setDirty vpage dirty =>
    rw [Mapped.next, Option.ite_none_right_eq_some] at hs
    obtain ⟨u, hrun, rfl⟩ := Mapped.run_eq_some hs.2
    obtain ⟨hext, hr'⟩ := hr.setFlag (by decide) (by decide) (by decide) hs.1 hrun
    exact ⟨h.extend hext hr', hext, .keep _⟩
  | setAccessed vpage accessed =>
    rw [Mapped.next, Option.ite_none_right_eq_some] at hs
    obtain ⟨u, hrun, rfl⟩ := Mapped.run_eq_some hs.2
    obtain ⟨hext, hr'⟩ := hr.setFlag (by decide) (by decide) (by decide) hs.1 hrun
    exact ⟨h.extend hext hr', hext, .keep _⟩

lemma reachable_inv (h : system.Reachable s) : Inv s := by
  refine h.invariant (I := fun s => Inv s) ?_ fun s op t hi hs => (hi.step hs).1
  rintro _ ⟨p, page, hb, hf, hne, rfl⟩
  have hresult : pagedirCreate p page = (page, (p.grant page).fill page (p.entries p.initPageDir)) := if_pos hne
  have hpaging : (Mapped.ofCreate p page).paging = (p.grant page).fill page (p.entries p.initPageDir) :=
    congrArg Prod.snd hresult
  exact ⟨hpaging.symm ▸ hb.ram, hpaging.symm ▸ hb.dir, _, radix_ofCreate hb hf hne⟩

lemma Radix.getPage {a : Nat} (h : Radix s table) (ha : a < physBase) :
    pagedirGetPage s.paging s.pd a = .ok ((s.cell (pgNo a)).frame.elim 0 (· + pgOfs a)) := by
  have hagrees := h.agrees _ (pdNo_lt ha) _ (ptNo_lt a)
  rw [← pgNo_eq] at hagrees
  have huser : isUserVaddr a = true := decide_eq_true ha
  rw [pagedirGetPage, assertThat_pos huser, bind_ok, h.lookup_user ha, bind_ok]
  cases ht : table (pdNo a) with
  | none =>
    have hnever := h.never _ ht _ (ptNo_lt a)
    rw [pgNo_eq, hnever]
    rfl
  | some p =>
    rw [ht, Option.elim_some] at hagrees
    have hload : s.paging.load ⟨p, ptNo a⟩ = s.paging.entries p (ptNo a) := rfl
    simp only [Option.map_some, hload]
    cases hframe : (s.cell (pgNo a)).frame with
    | none =>
      rw [if_neg fun hP => hagrees.present.mp hP hframe]
      rfl
    | some k =>
      obtain ⟨hk, haddr⟩ := hagrees.frame k hframe
      rw [if_pos (hagrees.present.mpr (by rw [hframe]; exact Option.some_ne_none k)), pteGetPage]
      rw [haddr, hk.ptov_eq]
      rfl

end Steps

/-- A page directory is the map of the user pages set and not cleared, with the kernel's entries. -/
theorem pagedir_refines_map (s : Mapped) (h : system.Reachable s) :
    (∀ a, a < physBase → pagedirGetPage s.paging s.pd a = .ok ((s.cell (pgNo a)).frame.elim 0 (· + pgOfs a))) ∧
    (∀ page upage kpage writable u, Fresh s.paging page →
      pagedirSetPage s.paging page s.pd upage kpage writable = .ok (false, u) → u = s.paging) ∧
    (∀ a, a < physBase → ∀ b ∈ (s.cell (pgNo a)).writable, ∃ pte,
      lookupPage s.paging 0 s.pd a false = .ok (some pte, s.paging) ∧ (s.paging.load pte &&& pteW ≠ 0 ↔ b = true)) ∧
    ∀ i, pdNo physBase ≤ i → i < 1024 → s.paging.entries s.pd i = s.copied i := by
  obtain ⟨hram, -, table, hr⟩ := reachable_inv h
  refine ⟨fun a ha => hr.getPage ha, fun page upage kpage writable u hf hrun => ?_, fun a ha b hb => ?_, hr.kernel⟩
  · obtain ⟨-, -, ⟨-, hsame⟩ | ⟨htrue, -⟩⟩ := hr.setPage hram hf hrun
    · exact hsame
    · exact absurd htrue (by decide)
  · have hagrees := hr.agrees _ (pdNo_lt ha) _ (ptNo_lt a)
    rw [← pgNo_eq] at hagrees
    rw [hr.lookup_user ha]
    cases ht : table (pdNo a) with
    | none =>
      rw [pgNo_eq, hr.never _ ht _ (ptNo_lt a)] at hb
      exact absurd hb (Option.not_mem_none b)
    | some p =>
      rw [ht] at hagrees
      exact ⟨⟨p, ptNo a⟩, rfl, hagrees.writable b hb⟩

section Booting

lemma Paging.entries_store_apply (s : Paging) (p j : Nat) (w : Word) (q i : Nat) :
    (s.store ⟨p, j⟩ w).entries q i = if q = p ∧ i = j then w else s.entries q i := by
  simp only [store, update_apply]
  grind

lemma Paging.entries_fill_apply (s : Paging) (p : Nat) (w : Nat → Word) (q i : Nat) :
    (s.fill p w).entries q i = if q = p then w i else s.entries q i := by
  simp only [fill, update_apply]
  split <;> rfl

def kernelPage (n : Nat) : Nat := n * pgSize + physBase

lemma kernelPage_no (n : Nat) :
    pgOfs (kernelPage n) = 0 ∧ pdNo (kernelPage n) = 768 + n / 1024 ∧ ptNo (kernelPage n) = n % 1024 := by
  simp only [pgOfs, pdNo, ptNo, kernelPage, pgSize, physBase]
  omega

/-- The memory, the kernel's text and the pages that `palloc_get_page` has for `paging_init`. -/
structure Boot where
  ram : Palloc.RamPages
  start : Nat
  endKernelText : Nat
  pd : Nat
  cnt : Nat
  table : Nat → Nat
  enough : (ram.pages + 1023) / 1024 ≤ cnt
  isPage : IsPage pd ∧ ∀ i, i < cnt → IsPage (table i)
  ne : ∀ i, i < cnt → table i ≠ pd
  inj : ∀ i, i < cnt → ∀ j, j < cnt → table i = table j → i = j

instance : Inhabited Boot :=
  ⟨⟨256, by decide, by decide⟩, 0xc0020000, 0xc0030000, 0xc0101000, 1, fun _ => 0xc0102000, by decide, by decide,
    by decide, by decide⟩

variable (B : Boot) {k n : Nat} {b : Booting}

def Boot.entry (n : Nat) : Except Panic Word :=
  pteCreateKernel (kernelPage n) !decide (B.start ≤ kernelPage n ∧ kernelPage n < B.endKernelText)

lemma Boot.exists_entry (hn : n < 262144) : ∃ w, B.entry n = .ok w ∧ w &&& pteU = 0 := by
  have hpage : IsPage (kernelPage n) := ⟨(kernelPage_no n).1, Nat.le_add_left _ _, by
    simp only [kernelPage, pgSize, physBase]
    omega⟩
  rw [entry, pteCreateKernel, assertThat_pos hpage.ofs, vtop_eq hpage.base]
  refine ⟨_, rfl, ?_⟩
  rw [or_and_of_disjoint _ (by split <;> decide), or_and_of_disjoint _ (by decide)]
  exact hpage.and_flag (by decide)

structure Boot.Maps (k n : Nat) (b : Booting) : Prop where
  ram : b.paging.initRamPages = B.ram.pages
  rest : b.pages = (List.range' k (B.cnt - k)).map B.table
  initial : b.paging.initPageDir = B.pd
  allocated : b.paging.allocated = (B.pd :: (List.range k).map B.table).reverse
  dir : ∀ i, b.paging.entries B.pd i = if 768 ≤ i ∧ i < 768 + k then pdeOf (B.table (i - 768)) else 0
  pt : 0 < k → b.pt = B.table (k - 1)
  entry : ∀ m, m / 1024 < k →
    .ok (b.paging.entries (B.table (m / 1024)) (m % 1024)) = if m < n then B.entry m else .ok 0

variable {B}

lemma Boot.Maps.newTable (hk : k < B.cnt) (h : B.Maps k (k * 1024) b) :
    ∃ c, b.newTable ⟨B.pd, 768 + k⟩ = .ok c ∧ B.Maps (k + 1) (k * 1024) c := by
  obtain ⟨s, pt, rest⟩ := b
  obtain rfl : rest = B.table k :: (List.range' (k + 1) (B.cnt - (k + 1))).map B.table := by
    rw [← List.map_cons, ← List.range'_succ, show B.cnt - (k + 1) + 1 = B.cnt - k by omega]
    exact h.rest
  refine ⟨_, bind_of_ok (B.isPage.2 k hk).pdeCreate_eq _, h.ram, rfl, h.initial, ?_, fun i => ?_, fun _ => rfl,
    fun m hm => ?_⟩
  · exact (congrArg (B.table k :: ·) h.allocated).trans (by simp [List.range_succ])
  · rw [Paging.entries_store_apply, Paging.entries_fill_apply, if_neg (B.ne k hk).symm]
    by_cases hi : i = 768 + k
    · rw [if_pos ⟨rfl, hi⟩, if_pos (by omega), hi, Nat.add_sub_cancel_left]
    · rw [if_neg (hi ·.2)]
      exact (h.dir i).trans (if_congr (by omega) rfl rfl)
  · rw [Paging.entries_store_apply, if_neg (B.ne _ (by omega) ·.1), Paging.entries_fill_apply]
    by_cases hkm : m / 1024 = k
    · rw [if_pos (congrArg _ hkm), if_neg (by omega)]
    · rw [if_neg fun he => hkm (B.inj _ (by omega) k hk he)]
      exact h.entry m (by omega)

lemma Boot.Maps.tableFor (hlt : n / 1024 < B.cnt) (h : B.Maps ((n + 1023) / 1024) n b) :
    ∃ c, b.tableFor ⟨B.pd, 768 + n / 1024⟩ = .ok c ∧ B.Maps (n / 1024 + 1) n c := by
  have hdir := h.dir (768 + n / 1024)
  rcases eq_or_ne (n % 1024) 0 with hn | hn
  · rw [if_neg (by omega)] at hdir
    obtain ⟨k, rfl⟩ := Nat.dvd_of_mod_eq_zero hn
    rw [show (1024 * k + 1023) / 1024 = k by omega, Nat.mul_comm] at h
    rw [Booting.tableFor, Paging.load, if_pos hdir, Nat.mul_div_cancel_left k (by decide), Nat.mul_comm]
    exact h.newTable (by omega)
  · rw [if_pos (by omega)] at hdir
    rw [show (n + 1023) / 1024 = n / 1024 + 1 by omega] at h
    exact ⟨b, if_neg (hdir.trans_ne (pdeOf_ne_zero _)), h⟩

lemma Boot.Maps.mapKernelPage (hn : n < B.ram.pages) (h : B.Maps ((n + 1023) / 1024) n b) :
    ∃ c, mapKernelPage B.start B.endKernelText b n = .ok c ∧ B.Maps ((n + 1 + 1023) / 1024) (n + 1) c := by
  have hhigh := B.ram.high
  have hlt : n / 1024 < B.cnt := Nat.lt_of_lt_of_le (by omega) B.enough
  have hv : ptov (n * pgSize) = .ok (kernelPage n) := by
    rw [ptov, assertThat_pos (by simp only [pgSize, physBase]; omega), bind_ok, wrap_of_lt]
    · rfl
    · simp only [pgSize, physBase]
      omega
  obtain ⟨-, hpdNo, hptNo⟩ := kernelPage_no n
  obtain ⟨w, hw, -⟩ := B.exists_entry (hn.trans hhigh)
  obtain ⟨c, hc, hmap⟩ := h.tableFor hlt
  have hpt := hmap.pt (Nat.succ_pos _)
  rw [Pagedir.mapKernelPage, hv, bind_ok, h.initial, hpdNo, hptNo, show (n + 1 + 1023) / 1024 = n / 1024 + 1 by omega]
  refine ⟨_, (bind_of_ok hc _).trans (bind_of_ok hw _), hmap.ram, hmap.rest, hmap.initial, hmap.allocated,
    fun i => ?_, hmap.pt, fun m hm => ?_⟩
  · rw [Paging.entries_store_apply, hpt, if_neg (B.ne _ hlt ·.1.symm)]
    exact hmap.dir i
  · rw [Paging.entries_store_apply, hpt]
    by_cases hmn : m = n
    · rw [hmn, if_pos ⟨rfl, rfl⟩, if_pos (Nat.lt_succ_self n), hw]
    · rw [if_neg fun he => hmn (by have := B.inj _ (by omega) _ hlt he.1; omega)]
      exact (hmap.entry m hm).trans (if_congr (by omega) rfl rfl)

lemma Boot.exists_maps (B : Boot) (entries : Nat → Nat → Word) (hn : n ≤ B.ram.pages) :
    ∃ b, (List.range n).foldlM (mapKernelPage B.start B.endKernelText)
      ⟨(Paging.grant ⟨entries, [], B.pd, B.ram.pages⟩ B.pd).fill B.pd fun _ => 0, 0, (List.range B.cnt).map B.table⟩ =
        .ok b ∧ B.Maps ((n + 1023) / 1024) n b := by
  induction n with
  | zero =>
    refine ⟨_, rfl, rfl, congrArg _ List.range_eq_range', rfl, rfl, fun i => ?_, by omega, by omega⟩
    rw [Paging.entries_fill_apply, if_pos rfl, if_neg (by omega)]
  | succ n ih =>
    obtain ⟨b, hb, hmap⟩ := ih (by omega)
    obtain ⟨c, hc, hmap'⟩ := hmap.mapKernelPage hn
    refine ⟨c, ?_, hmap'⟩
    rw [List.range_succ, List.foldlM_append, hb, bind_ok, List.foldlM_cons, hc]
    rfl

lemma Boot.Maps.booted (hk : k ≤ B.cnt) (h : B.Maps k n b) : Booted b.paging where
  ram := h.ram.trans_le B.ram.high.le
  dir := by simp [h.allocated, h.initial]
  page := by
    rw [h.allocated]
    grind [B.isPage]
  nodup := by
    rw [h.allocated, List.nodup_reverse]
    refine List.nodup_cons.mpr ⟨?_, List.nodup_range.map_on ?_⟩
    all_goals grind [B.ne, B.inj]
  user i hi := by rw [h.initial, h.dir, if_neg (by omega)]
  kernel i hlow hi := by
    rw [h.initial, h.dir, h.allocated]
    grind [B.ne]

lemma booted_pagingInit (B : Boot) (entries : Nat → Nat → Word) :
    ∃ b, pagingInit entries B.ram B.start B.endKernelText (B.pd :: (List.range B.cnt).map B.table) = .ok b.paging ∧
      Booted b.paging ∧ B.Maps ((B.ram.pages + 1023) / 1024) B.ram.pages b := by
  obtain ⟨b, hb, hmap⟩ := B.exists_maps entries (Nat.le_refl _)
  exact ⟨b, bind_of_ok hb _, hmap.booted B.enough, hmap⟩

/-- `paging_init` maps every page of memory from `PHYS_BASE` on, and nothing else, for the kernel alone. -/
theorem pagingInit_maps_ram (B : Boot) (entries : Nat → Nat → Word) :
    ∃ s, pagingInit entries B.ram B.start B.endKernelText (B.pd :: (List.range B.cnt).map B.table) = .ok s ∧
      Booted s ∧ ∀ m, m < 262144 → if m < B.ram.pages then
        ∃ pte, lookupPage s 0 s.initPageDir (kernelPage m) false = .ok (some pte, s) ∧
          B.entry m = .ok (s.load pte) ∧ s.load pte &&& pteU = 0
      else ∀ pte t, lookupPage s 0 s.initPageDir (kernelPage m) false = .ok (some pte, t) → s.load pte = 0 := by
  obtain ⟨b, hb, hbooted, hmap⟩ := booted_pagingInit B entries
  refine ⟨b.paging, hb, hbooted, fun m hm => ?_⟩
  obtain ⟨-, hpdNo, hptNo⟩ := kernelPage_no m
  have hdir := hmap.dir (pdNo (kernelPage m))
  rw [hpdNo, Nat.add_sub_cancel_left] at hdir
  rw [hmap.initial]
  by_cases hk : m / 1024 < (B.ram.pages + 1023) / 1024
  · have hlook : lookupPage b.paging 0 B.pd (kernelPage m) false = .ok (some ⟨_, m % 1024⟩, b.paging) :=
      hptNo ▸ lookupPage_of_pdeOf B.isPage.1.ne_zero (.inl rfl) (B.isPage.2 _ (hk.trans_le B.enough))
        (hpdNo ▸ hdir.trans (if_pos (by omega)))
    split
    next hram =>
      obtain ⟨w, hw, hu⟩ := B.exists_entry hm
      have hentry := ((hmap.entry m hk).trans (if_pos hram)).symm
      obtain rfl := Except.ok.inj (hw.symm.trans hentry)
      exact ⟨_, hlook, hentry, hu⟩
    next hm =>
      intro pte t ht
      cases hlook.symm.trans ht
      exact Except.ok.inj ((hmap.entry m hk).trans (if_neg hm))
  · rw [if_neg (by omega), lookupPage_of_zero B.isPage.1.ne_zero (hpdNo ▸ hdir.trans (if_neg (by omega)))]
    exact fun _ _ h => nomatch h

theorem pagingInit_maps_one_megabyte : ∃ s, pagingInit (fun _ _ => 0xcccccccc) ⟨256, by decide, by decide⟩ 0xc0020000
      0xc0030000 [0xc0101000, 0xc0102000] = .ok s ∧
    (∃ pte, lookupPage s 0 s.initPageDir 0xc0021000 false = .ok (some pte, s) ∧ s.load pte = 0x21001) ∧
      ∀ pte t, lookupPage s 0 s.initPageDir 0xc0200000 false = .ok (some pte, t) → s.load pte = 0 := by
  obtain ⟨s, hs, -, hmap⟩ := pagingInit_maps_ram default fun _ _ => 0xcccccccc
  obtain ⟨pte, hpte, hentry, -⟩ := (if_pos (by decide)).mp (hmap 33 (by decide))
  exact ⟨s, hs, ⟨pte, hpte, Except.ok.inj (hentry.symm.trans rfl)⟩, (if_neg (by decide)).mp (hmap 512 (by decide))⟩

end Booting

def smallPaging : Paging where
  entries p i := if p = 0xc0101000 ∧ i = 768 then pdeOf 0xc0102000 else 0
  allocated := [0xc0102000, 0xc0101000]
  initPageDir := 0xc0101000
  initRamPages := 1024

lemma booted_smallPaging : Booted smallPaging where
  ram := by decide
  dir := by decide
  page := by decide
  nodup := by decide
  user i hi := if_neg fun h => by omega
  kernel i _ _ := by
    by_cases h : i = 768
    · exact .inr ⟨0xc0102000, by decide, by decide, if_pos ⟨rfl, h⟩⟩
    · exact .inl (if_neg fun hi => h hi.2)

def smallOps : List Op :=
  [.setPage 0xc0104000 0x8048000 0xc0200000 true, .setPage 0 0x8049000 0xc0201000 false,
   .setDirty 0x8048000 true, .clearPage 0x8049000, .setPage 0 0xbffff000 0xc0202000 true]

def smallMapped : Option Mapped := system.exec (.ofCreate smallPaging 0xc0103000) smallOps

lemma reachable_smallMapped {s : Mapped} (h : smallMapped = some s) : system.Reachable s :=
  System.exec_reachable (.init ⟨smallPaging, 0xc0103000, booted_smallPaging, by decide, by decide, rfl⟩) h

theorem pagedir_refines_map_small :
    ∃ s, smallMapped = some s ∧ pagedirGetPage s.paging s.pd 0x8048123 = .ok 0xc0200123 ∧
      pagedirGetPage s.paging s.pd 0x8049000 = .ok 0 := by
  have hsome : smallMapped.isSome = true := by decide +kernel
  obtain ⟨s, hs⟩ := Option.isSome_iff_exists.mp hsome
  have hframes : (smallMapped.map fun s => (s.cell (pgNo 0x8048123)).frame) = some (some 0xc0200000) ∧
      (smallMapped.map fun s => (s.cell (pgNo 0x8049000)).frame) = some none := by decide +kernel
  rw [hs] at hframes
  have hmapped : (s.cell (pgNo 0x8048123)).frame = some 0xc0200000 := Option.some.inj hframes.1
  have hcleared : (s.cell (pgNo 0x8049000)).frame = none := Option.some.inj hframes.2
  have hget := (pagedir_refines_map s (reachable_smallMapped hs)).1
  refine ⟨s, hs, ?_, ?_⟩
  · rw [hget _ (by decide), hmapped]
    rfl
  · rw [hget _ (by decide), hcleared]
    rfl

end Pintos.Userprog.Pagedir
