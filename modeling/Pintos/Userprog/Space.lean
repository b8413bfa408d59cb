import Pintos.Foundation.Bytes
import Pintos.Foundation.Programs
import Pintos.Foundation.Ranges
import Pintos.Kernel.Machine

/-! User address spaces and the kernel's accesses to them. -/

namespace Pintos.Userprog

open Pintos.Foundation Pintos.Kernel Function

/-- For each entry of the page directory whether it points to a page table, and for each user page
whether it is mapped and writable. -/
structure Space where
  table : Nat → Bool
  page : Nat → Option Bool
  bytes : Memory

/-- `pallocs` holds the answers of `palloc_get_page`, which succeeds when it is used up; `writes` holds
the ranges of user addresses to which the kernel has stored, in order. -/
structure User where
  space : Space
  pallocs : List Bool
  writes : List Range

abbrev UserM := EStateM Panic User

def isUserVaddr (va : Nat) : Bool := decide (va < physBase)

def pdNo (va : Nat) : Nat := va / 4194304

def Space.written (u : Space) (va : Nat) (bs : List Byte) : Space :=
  { u with bytes := u.bytes.write va bs }

def Space.Writable (u : Space) (va : Nat) : Prop := u.page (pgNo va) = some true

instance (u : Space) (va : Nat) : Decidable (u.Writable va) := inferInstanceAs (Decidable (_ = _))

def assertUser (p : Prop) [Decidable p] (a : Assertion) : UserM Unit :=
  if p then pure () else throw (.assertion a)

/-- A store to an address that is not mapped or not writable is a page fault in the kernel. -/
def storeBytes (va : Nat) (bs : List Byte) : UserM Unit := do
  let u ← get
  let u : User := { u with writes := u.writes ++ [⟨va, bs.length⟩] }
  set u
  if ∀ i < bs.length, u.space.Writable (va + i) then
    set { u with space := u.space.written va bs }
  else throw .kernelBug

def loadByte (va : Nat) : UserM Byte := do
  let u ← get
  if u.space.page (pgNo va) ≠ none then return u.space.bytes va else throw .kernelBug

def pallocGetPage : UserM Bool := do
  let u ← get
  match u.pallocs with
  | [] => return true
  | granted :: rest =>
    set { u with pallocs := rest }
    return granted

def lookupPage (upage : Nat) : UserM Bool := do
  let u ← get
  if u.space.table (pdNo upage) then return true
  else
    let granted ← pallocGetPage
    if granted then
      modify fun u => { u with space := { u.space with table := update u.space.table (pdNo upage) true } }
    return granted

def pagedirSetPage (upage : Nat) (kpage : List Byte) (writable : Bool) : UserM Bool := do
  assertUser (pgOfs upage = 0) .pagedirSetPageUpage
  assertUser (isUserVaddr upage = true) .pagedirSetPageVaddr
  let found ← lookupPage upage
  if found then
    let u ← get
    assertUser (u.space.page (pgNo upage) = none) .pagedirSetPagePresent
    set { u with space := { u.space with
      page := update u.space.page (pgNo upage) (some writable)
      bytes := u.space.bytes.write upage kpage } }
  return found

def installPage (upage : Nat) (kpage : List Byte) (writable : Bool) : UserM Bool := do
  let u ← get
  if u.space.page (pgNo upage) = none then pagedirSetPage upage kpage writable else return false

@[simp] lemma Space.bytes_written (u : Space) (va : Nat) (bs : List Byte) :
    (u.written va bs).bytes = u.bytes.write va bs := rfl

@[simp] lemma Space.writable_written (u : Space) (va : Nat) (bs : List Byte) (x : Nat) :
    (u.written va bs).Writable x ↔ u.Writable x := Iff.rfl

lemma Space.written_append (u : Space) (va : Nat) (bs cs : List Byte) :
    u.written va (bs ++ cs) = (u.written va bs).written (va + bs.length) cs := by
  simp only [written, Memory.write_append]

lemma Space.written_below (u : Space) (va : Nat) (bs cs : List Byte) :
    (u.written (va + bs.length) cs).written va bs = u.written va (bs ++ cs) := by
  simp only [written, Memory.write_below]

section Specs

variable {u : User} {E : Panic → User → Prop}

def User.logged (u : User) (va n : Nat) : User := { u with writes := u.writes ++ [⟨va, n⟩] }

def User.stored (u : User) (va : Nat) (bs : List Byte) : User :=
  { u.logged va bs.length with space := u.space.written va bs }

@[simp] lemma User.pallocs_stored (u : User) (va : Nat) (bs : List Byte) :
    (u.stored va bs).pallocs = u.pallocs := rfl

@[simp] lemma User.space_stored (u : User) (va : Nat) (bs : List Byte) :
    (u.stored va bs).space = u.space.written va bs := rfl

lemma ends_storeBytes {va : Nat} {bs : List Byte} {Q : Unit → User → Prop}
    (hok : (∀ i < bs.length, u.space.Writable (va + i)) → Q () (u.stored va bs))
    (hfault : (∃ i < bs.length, ¬ u.space.Writable (va + i)) → E .kernelBug (u.logged va bs.length)) :
    Ends (storeBytes va bs) u Q E := by
  simp only [storeBytes, ends_bind, ends_get, ends_set]
  refine Ends.ite (fun h => hok h) fun h => hfault ?_
  push Not at h
  exact h

lemma ends_loadByte {va : Nat} {Q : Byte → User → Prop} (hmap : u.space.page (pgNo va) ≠ none)
    (hok : Q (u.space.bytes va) u) : Ends (loadByte va) u Q E := by
  simp only [loadByte, ends_bind, ends_get]
  rw [if_pos hmap]
  exact hok

def Space.install (u : Space) (upage : Nat) (kpage : List Byte) (writable : Bool) : Space where
  table := update u.table (pdNo upage) true
  page := update u.page (pgNo upage) (some writable)
  bytes := u.bytes.write upage kpage

lemma Space.page_install (u : Space) (upage : Nat) (kpage : List Byte) (writable : Bool) :
    (u.install upage kpage writable).page = update u.page (pgNo upage) (some writable) := rfl

structure Asked (u v : User) : Prop where
  writes : v.writes = u.writes
  pallocs : v.pallocs <:+ u.pallocs

lemma Asked.refl (u : User) : Asked u u := ⟨rfl, List.suffix_refl _⟩

lemma Asked.trans {u v w : User} (h : Asked u v) (h' : Asked v w) : Asked u w :=
  ⟨h'.writes.trans h.writes, h'.pallocs.trans h.pallocs⟩

variable {Q : Bool → User → Prop}

lemma ends_pallocGetPage
    (h : ∀ granted v, v.space = u.space → Asked u v → (u.pallocs = [] → granted = true) →
      Q granted v) : Ends pallocGetPage u Q E := by
  simp only [pallocGetPage, ends_bind, ends_get]
  cases hp : u.pallocs with
  | nil => exact h true u rfl (.refl u) fun _ => rfl
  | cons granted rest =>
    simp only [ends_bind, ends_set, ends_pure]
    exact h granted { u with pallocs := rest } rfl ⟨rfl, hp ▸ List.suffix_cons _ _⟩ (by simp [hp])

lemma ends_lookupPage {upage : Nat}
    (hfail : ∀ v, v.space = u.space → Asked u v → u.pallocs ≠ [] → Q false v)
    (hok : ∀ v, v.space = { u.space with table := update u.space.table (pdNo upage) true } →
      Asked u v → Q true v) : Ends (lookupPage upage) u Q E := by
  simp only [lookupPage, ends_bind, ends_get]
  refine Ends.ite (fun ht => hok u ?_ (.refl u)) fun _ => ?_
  · rw [← ht, update_eq_self]
  · rw [ends_bind]
    refine ends_pallocGetPage fun granted v hs ha hg => ?_
    cases granted with
    | false =>
      refine hfail v hs ha fun hnil => ?_
      simpa using hg hnil
    | true =>
      simp only [if_true, ends_bind, ends_modify, ends_pure]
      exact hok _ (by rw [hs]) ⟨ha.writes, ha.pallocs⟩

lemma ends_installPage {upage : Nat} {kpage : List Byte} {writable : Bool} (hofs : pgOfs upage = 0)
    (huser : upage < physBase)
    (hfail : ∀ v, v.space = u.space → Asked u v →
      u.space.page (pgNo upage) ≠ none ∨ u.pallocs ≠ [] → Q false v)
    (hok : u.space.page (pgNo upage) = none → ∀ v,
      v.space = u.space.install upage kpage writable → Asked u v → Q true v) :
    Ends (installPage upage kpage writable) u Q E := by
  simp only [installPage, ends_bind, ends_get]
  refine Ends.ite (fun hnone => ?_) fun hmap => hfail u rfl (.refl u) (.inl hmap)
  have hvaddr : isUserVaddr upage = true := decide_eq_true huser
  simp only [pagedirSetPage, assertUser, if_pos hofs, if_pos hvaddr, ends_bind, ends_pure]
  refine ends_lookupPage (fun v hs ha hne => ?_) fun v hs ha => ?_
  · exact hfail v hs ha (.inr hne)
  · have hpage : v.space.page (pgNo upage) = none := by
      rw [hs]
      exact hnone
    simp only [if_true, ends_bind, ends_get, if_pos hpage, ends_pure, ends_set]
    exact hok hnone _ (by rw [hs]; rfl) ⟨ha.writes, ha.pallocs⟩

end Specs

end Pintos.Userprog
