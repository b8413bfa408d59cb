import Mathlib.Data.List.Chain
import Pintos.Lib.Lists

/-! Well-formed lists, and what the list operations do to the sequences they hold. -/

namespace Pintos.Lib

open Pintos.Foundation Function

variable {P : Type} {m m' m'' : Links P}

def Linked (m : Links P) (a b : P) : Prop := m.next a = some b ∧ m.prev b = some a

def Path (m : Links P) (xs : List P) : Prop := xs.IsChain (Linked m)

def Header.nodes (l : Header P) (xs : List P) : List P := l.head :: (xs ++ [l.tail])

/-- List `l` is well formed and holds the nodes `xs`. -/
structure ListAt (m : Links P) (l : Header P) (xs : List P) : Prop where
  path : Path m (l.nodes xs)
  front : m.prev l.head = none
  back : m.next l.tail = none
  nodup : (l.nodes xs).Nodup

def SameOff (S : List P) (m m' : Links P) : Prop :=
  ∀ x, x ∉ S → m'.prev x = m.prev x ∧ m'.next x = m.next x

lemma SameOff.refl (S : List P) (m : Links P) : SameOff S m m := fun _ _ => ⟨rfl, rfl⟩

lemma SameOff.trans {S : List P} (h : SameOff S m m') (h' : SameOff S m' m'') : SameOff S m m'' :=
  fun x hx => ⟨(h' x hx).1.trans (h x hx).1, (h' x hx).2.trans (h x hx).2⟩

lemma SameOff.mono {S T : List P} (h : SameOff S m m') (hst : S ⊆ T) : SameOff T m m' :=
  fun x hx => h x fun hs => hx (hst hs)

def Header.lastOf (l : Header P) (ys : List P) : P := ys.getLastD l.head

def Header.firstOf (l : Header P) (zs : List P) : P := zs.headD l.tail

section Paths

variable {xs ys zs : List P} {a b : P}

lemma Path.frame (h : Path m xs) (hn : ∀ x ∈ xs.dropLast, m'.next x = m.next x)
    (hp : ∀ x ∈ xs.tail, m'.prev x = m.prev x) : Path m' xs := by
  induction xs with
  | nil => exact .nil
  | cons x xs ih =>
    cases xs with
    | nil => exact .singleton x
    | cons y xs =>
      obtain ⟨⟨hnext, hprev⟩, hrest⟩ := List.isChain_cons_cons.mp h
      refine .cons_cons ⟨?_, ?_⟩ (ih hrest (fun z hz => hn z ?_) fun z hz => hp z ?_)
      · rw [hn x (by simp), hnext]
      · rw [hp y (by simp), hprev]
      · rw [List.dropLast_cons_of_ne_nil (List.cons_ne_nil _ _)]
        exact List.mem_cons_of_mem _ hz
      · exact List.mem_cons_of_mem _ hz

lemma Path.of_sameOff {S : List P} (h : Path m xs) (hs : SameOff S m m') (hd : ∀ x ∈ xs, x ∉ S) : Path m' xs :=
  h.frame (fun x hx => (hs x (hd x (List.dropLast_subset _ hx))).2)
    fun x hx => (hs x (hd x (List.mem_of_mem_tail hx))).1

lemma Path.append_iff : Path m (xs ++ [a] ++ b :: ys) ↔ Path m (xs ++ [a]) ∧ Path m (b :: ys) ∧ Linked m a b := by
  rw [Path, List.isChain_append]
  simp [Path]

lemma cons_eq_lastOf (l : Header P) (ys : List P) :
    l.head :: ys = (l.head :: ys).dropLast ++ [l.lastOf ys] := by
  have hlast : l.lastOf ys = (l.head :: ys).getLast (List.cons_ne_nil _ _) := by
    cases ys <;> rfl
  rw [hlast, List.dropLast_append_getLast]

lemma append_eq_firstOf (l : Header P) (zs : List P) :
    zs ++ [l.tail] = l.firstOf zs :: (zs ++ [l.tail]).tail := by
  cases zs <;> rfl

end Paths

section Lookups

variable {l : Header P} {xs ys zs : List P} {z : P}

lemma Header.nodes_append (l : Header P) (ys zs : List P) :
    l.nodes (ys ++ zs) = (l.head :: ys).dropLast ++ [l.lastOf ys] ++ l.firstOf zs :: (zs ++ [l.tail]).tail := by
  rw [← cons_eq_lastOf, ← append_eq_firstOf, Header.nodes, List.append_assoc]
  rfl

variable {x : P}

lemma Header.mem_nodes : x ∈ l.nodes xs ↔ x = l.head ∨ x ∈ xs ∨ x = l.tail := by
  rw [Header.nodes, List.mem_cons, List.mem_append, List.mem_singleton]

lemma Header.nodes_perm (l : Header P) (ys xs zs : List P) :
    (l.nodes (ys ++ xs ++ zs)).Perm (xs ++ l.nodes (ys ++ zs)) := by
  have hmove : (ys ++ xs ++ zs).Perm (xs ++ (ys ++ zs)) := by
    rw [← List.append_assoc]
    exact List.perm_append_comm.append_right zs
  refine ((hmove.append_right _).cons _).trans ?_
  rw [List.append_assoc]
  exact List.perm_middle.symm

lemma Header.nodes_subset (l : Header P) (ys xs zs : List P) : l.nodes (ys ++ zs) ⊆ l.nodes (ys ++ xs ++ zs) :=
  fun _ hx => (l.nodes_perm ys xs zs).symm.subset (List.mem_append_right _ hx)

lemma Header.subset_nodes (l : Header P) (ys xs zs : List P) : xs ⊆ l.nodes (ys ++ xs ++ zs) :=
  fun _ hx => (l.nodes_perm ys xs zs).symm.subset (List.mem_append_left _ hx)

lemma Header.notMem_nodes (h : (l.nodes (ys ++ x :: zs)).Nodup) : x ∉ l.nodes (ys ++ zs) := by
  have hsplit : ys ++ x :: zs = ys ++ [x] ++ zs := by simp
  rw [hsplit, (l.nodes_perm ys [x] zs).nodup_iff] at h
  exact (List.nodup_cons.mp h).1

lemma ListAt.linked (h : ListAt m l (ys ++ zs)) : Linked m (l.lastOf ys) (l.firstOf zs) := by
  have hpath := h.path
  rw [Header.nodes_append, Path.append_iff] at hpath
  exact hpath.2.2

lemma ListAt.before (h : ListAt m l (ys ++ zs)) : Path m (l.head :: ys) := by
  have hpath := h.path
  rw [Header.nodes_append, Path.append_iff, ← cons_eq_lastOf] at hpath
  exact hpath.1

lemma ListAt.after (h : ListAt m l (ys ++ zs)) : Path m (zs ++ [l.tail]) := by
  have hpath := h.path
  rw [Header.nodes_append, Path.append_iff, ← append_eq_firstOf] at hpath
  exact hpath.2.1

lemma Header.lastOf_mem (l : Header P) (ys : List P) : l.lastOf ys ∈ l.head :: ys := by
  rw [cons_eq_lastOf]
  simp

lemma Header.firstOf_mem (l : Header P) (zs : List P) : l.firstOf zs ∈ zs ++ [l.tail] := by
  rw [append_eq_firstOf]
  exact List.mem_cons_self

lemma Header.lastOf_mem_nodes (l : Header P) (ys zs : List P) : l.lastOf ys ∈ l.nodes (ys ++ zs) := by
  rw [Header.nodes_append]
  simp

lemma Header.firstOf_mem_nodes (l : Header P) (ys zs : List P) : l.firstOf zs ∈ l.nodes (ys ++ zs) := by
  rw [Header.nodes_append]
  simp

lemma ListAt.apart (h : ListAt m l (ys ++ zs)) {y : P} (hx : x ∈ l.head :: ys) (hy : y ∈ zs ++ [l.tail]) :
    x ≠ y := by
  have hnodup := h.nodup
  rw [Header.nodes, List.append_assoc, ← List.cons_append] at hnodup
  exact (List.nodup_append.mp hnodup).2.2 x hx y hy

lemma ListAt.firstOf_eq_tail (h : ListAt m l (ys ++ zs)) : l.firstOf zs = l.tail ↔ zs = [] := by
  constructor
  · intro he
    cases zs with
    | nil => rfl
    | cons z zs =>
      have hnodup := h.nodup
      simp only [Header.nodes, List.append_assoc, List.nodup_cons, List.nodup_append] at hnodup
      exact (hnodup.2.2.1.2.2 z List.mem_cons_self l.tail (by simp) he).elim
  · rintro rfl
    rfl

lemma ListAt.headers (h : ListAt m l xs) : l.head ∉ xs ∧ l.tail ∉ xs ∧ l.head ≠ l.tail := by
  have hnodup := h.nodup
  simp only [Header.nodes, List.nodup_cons, List.mem_append, List.mem_singleton, not_or,
    List.nodup_append] at hnodup
  exact ⟨hnodup.1.1, fun hin => hnodup.2.2.2 _ hin _ rfl rfl, hnodup.1.2⟩

@[simp] lemma Header.lastOf_concat (l : Header P) (ys : List P) (x : P) : l.lastOf (ys ++ [x]) = x := by
  rw [Header.lastOf, List.getLastD_concat]

@[simp] lemma Header.firstOf_cons (l : Header P) (x : P) (zs : List P) : l.firstOf (x :: zs) = x := rfl

lemma ListAt.firstOf_eq (h : ListAt m l (ys ++ xs ++ zs)) : l.firstOf (xs ++ zs) = l.firstOf zs ↔ xs = [] := by
  constructor
  · intro he
    cases xs with
    | nil => rfl
    | cons x xs =>
      have hx : x ∈ l.head :: (ys ++ x :: xs) := by simp
      exact (h.apart hx (l.firstOf_mem zs) he).elim
  · rintro rfl
    rfl

lemma ListAt.next_eq (h : ListAt m l (ys ++ z :: zs)) : m.next z = some (l.firstOf zs) := by
  have hsplit : ys ++ z :: zs = (ys ++ [z]) ++ zs := by simp
  rw [hsplit] at h
  exact l.lastOf_concat ys z ▸ h.linked.1

lemma ListAt.prev_eq (h : ListAt m l (ys ++ zs)) : m.prev (l.firstOf zs) = some (l.lastOf ys) := h.linked.2

lemma ListAt.begin_eq (h : ListAt m l xs) : m.next l.head = some (l.firstOf xs) :=
  (show ListAt m l ([] ++ xs) from h).linked.1

lemma ListAt.isInterior (h : ListAt m l (ys ++ z :: zs)) : m.isInterior z = true := by
  have hprev : m.prev z = _ := ListAt.prev_eq h
  rw [Links.isInterior, hprev, h.next_eq]
  rfl

lemma ListAt.interior_or_tail (h : ListAt m l (ys ++ zs)) :
    (m.isInterior (l.firstOf zs) || m.isTail (l.firstOf zs)) = true := by
  rw [Links.isInterior, Links.isTail, h.prev_eq]
  cases m.next (l.firstOf zs) <;> rfl

lemma ListAt.linkedFrom (h : ListAt m l xs) (hz : z ∈ xs ++ [l.tail]) : (m.isInterior z || m.isTail z) = true := by
  rcases List.mem_append.mp hz with hz | hz
  · obtain ⟨ys, zs, rfl⟩ := List.append_of_mem hz
    exact h.interior_or_tail
  · rw [List.mem_singleton] at hz
    rw [← List.append_nil xs] at h
    exact hz ▸ h.interior_or_tail

variable {Q : P → Links P → Prop} {E : Fault → Links P → Prop}

lemma ends_check {c : Check} {b : Bool} {Q : Unit → Links P → Prop} (hb : b = true) (hq : Q () m) :
    Ends (check c b) m Q E := by
  rw [check, if_pos hb]
  exact hq

lemma ListAt.ends_begin (h : ListAt m l xs) (hq : Q (l.firstOf xs) m) : Ends (listBegin l) m Q E := by
  simp only [listBegin, getNext, ends_bind, ends_get, ends_pure]
  rw [h.begin_eq]
  exact hq

lemma ListAt.ends_next (h : ListAt m l (ys ++ z :: zs)) (hq : Q (l.firstOf zs) m) : Ends (listNext z) m Q E := by
  simp only [listNext, ends_bind, ends_get]
  refine ends_check (by rw [h.isInterior, Bool.or_true]) ?_
  rw [h.next_eq]
  exact hq

lemma ListAt.ends_next_head (h : ListAt m l xs) (hq : Q (l.firstOf xs) m) : Ends (listNext l.head) m Q E := by
  have hhead : m.isHead l.head = true := by rw [Links.isHead, h.front, h.begin_eq]; rfl
  simp only [listNext, ends_bind, ends_get]
  refine ends_check (by rw [hhead, Bool.true_or]) ?_
  rw [h.begin_eq]
  exact hq

lemma ListAt.ends_prev (h : ListAt m l (ys ++ zs)) (hq : Q (l.lastOf ys) m) :
    Ends (listPrev (l.firstOf zs)) m Q E := by
  simp only [listPrev, ends_bind, ends_get]
  refine ends_check h.interior_or_tail ?_
  rw [h.prev_eq]
  exact hq

lemma ends_deref {o : Option P} (ho : o = some z) (hq : Q z m) : Ends (deref o) m Q E := by
  rw [ho]
  exact hq

lemma ListAt.eq_of_sameOff (h : ListAt m l xs) (h' : ListAt m' l xs) (hs : SameOff (l.nodes xs) m m') : m' = m := by
  have hnode : ∀ x, m'.prev x = m.prev x ∧ m'.next x = m.next x := by
    intro x
    by_cases hx : x ∈ l.nodes xs
    · rcases Header.mem_nodes.mp hx with rfl | hx | rfl
      · exact ⟨h'.front.trans h.front.symm, h'.begin_eq.trans h.begin_eq.symm⟩
      · obtain ⟨ys, zs, rfl⟩ := List.append_of_mem hx
        exact ⟨(ListAt.prev_eq h').trans (ListAt.prev_eq h).symm, h'.next_eq.trans h.next_eq.symm⟩
      · refine ⟨?_, h'.back.trans h.back.symm⟩
        rw [← List.append_nil xs] at h h'
        exact h'.prev_eq.trans h.prev_eq.symm
    · exact hs x hx
  cases m
  cases m'
  exact congrArg₂ Links.mk (funext fun x => (hnode x).1) (funext fun x => (hnode x).2)

lemma SameOff.listAt {S : List P} (hs : SameOff S m m') (h : ListAt m l xs) (hd : ∀ x ∈ l.nodes xs, x ∉ S) :
    ListAt m' l xs where
  path := h.path.of_sameOff hs hd
  front := (hs _ (hd _ List.mem_cons_self)).1.trans h.front
  back := (hs _ (hd _ (by simp [Header.nodes]))).2.trans h.back
  nodup := h.nodup

end Lookups

section Joints

variable [DecidableEq P] {l : Header P} {xs ys zs us vs mid : List P} {a b x : P}

def Links.joined (m : Links P) (a b : P) : Links P := (m.setNext a (some b)).setPrev b (some a)

@[simp] lemma Links.next_joined (m : Links P) (a b : P) : (m.joined a b).next = update m.next a (some b) := rfl

@[simp] lemma Links.prev_joined (m : Links P) (a b : P) : (m.joined a b).prev = update m.prev b (some a) := rfl

lemma sameOff_joined (m : Links P) (a b : P) : SameOff [a, b] m (m.joined a b) := by
  intro x hx
  rw [List.mem_cons, List.mem_singleton, not_or] at hx
  rw [Links.prev_joined, Links.next_joined, update_of_ne hx.1, update_of_ne hx.2]
  exact ⟨rfl, rfl⟩

lemma Path.frame_joined (h : Path m xs) (ha : a ∉ xs.dropLast) (hb : b ∉ xs.tail) : Path (m.joined a b) xs := by
  refine h.frame (fun x hx => ?_) fun x hx => ?_
  · exact update_of_ne (ne_of_mem_of_not_mem hx ha) _ _
  · exact update_of_ne (ne_of_mem_of_not_mem hx hb) _ _

lemma Path.joined (hx : Path m (xs ++ [a])) (hy : Path m (b :: ys)) (hnodup : (xs ++ [a] ++ b :: ys).Nodup) :
    Path (m.joined a b) (xs ++ [a] ++ b :: ys) := by
  obtain ⟨hxs, hys, hapart⟩ := List.nodup_append.mp hnodup
  rw [Path.append_iff]
  refine ⟨hx.frame_joined ?_ fun hb => ?_, hy.frame_joined (fun ha => ?_) ?_, update_self _ _ _, update_self _ _ _⟩
  · rw [List.dropLast_concat]
    exact fun ha => (List.nodup_append.mp hxs).2.2 a ha a List.mem_cons_self rfl
  · exact hapart b (List.mem_of_mem_tail hb) b List.mem_cons_self rfl
  · exact hapart a (by simp) a (List.dropLast_subset _ ha) rfl
  · exact (List.nodup_cons.mp hys).1

lemma ListAt.unlink (h : ListAt m l (ys ++ mid ++ zs)) :
    ListAt (m.joined (l.lastOf ys) (l.firstOf zs)) l (ys ++ zs) := by
  have hsub : (l.nodes (ys ++ zs)).Sublist (l.nodes (ys ++ mid ++ zs)) := by
    refine .cons_cons _ (.append_right (.append_right (List.sublist_append_left _ _) _) _)
  have hnodup := h.nodup.sublist hsub
  have hbefore : Path m (l.head :: ys) := by
    rw [List.append_assoc] at h
    exact h.before
  have hafter : Path m (zs ++ [l.tail]) := h.after
  refine ⟨?_, ?_, ?_, hnodup⟩
  · rw [cons_eq_lastOf] at hbefore
    rw [append_eq_firstOf] at hafter
    rw [Header.nodes_append] at hnodup ⊢
    exact hbefore.joined hafter hnodup
  · rw [Links.prev_joined, update_of_ne, h.front]
    exact h.apart List.mem_cons_self (l.firstOf_mem zs)
  · rw [Links.next_joined, update_of_ne, h.back]
    have hin : l.lastOf ys ∈ l.head :: (ys ++ mid) := by
      rw [← List.cons_append]
      exact List.mem_append_left _ (l.lastOf_mem ys)
    exact (h.apart hin (by simp)).symm

lemma ListAt.link (h : ListAt m l (us ++ vs)) (hmid : Path m (a :: xs)) (hlast : xs.getLastD a = b)
    (hnodup : (l.nodes (us ++ a :: xs ++ vs)).Nodup) :
    ListAt ((m.joined (l.lastOf us) a).joined b (l.firstOf vs)) l (us ++ a :: xs ++ vs) := by
  have hbefore := h.before
  have hafter := h.after
  have hsplit : l.nodes (us ++ a :: xs ++ vs) = (l.head :: us) ++ (a :: xs) ++ (vs ++ [l.tail]) := by
    simp [Header.nodes]
  have hb : a :: xs = (a :: xs).dropLast ++ [b] := by
    have hend : b = (a :: xs).getLast (List.cons_ne_nil _ _) := by
      rw [← hlast]
      cases xs <;> rfl
    rw [hend, List.dropLast_append_getLast]
  have hmem : b ∈ a :: xs := by
    rw [hb]
    simp
  rw [hsplit] at hnodup
  obtain ⟨hfront, hvs, hapart⟩ := List.nodup_append.mp hnodup
  have hout : l.lastOf us ∉ vs ++ [l.tail] := fun hin =>
    hapart _ (List.mem_append_left _ (l.lastOf_mem us)) _ hin rfl
  have hnew : ∀ x ∈ a :: xs, x ∉ vs ++ [l.tail] := fun x hx hin => hapart x (List.mem_append_right _ hx) x hin rfl
  have hbase : ∀ x ∈ a :: xs, x ∉ l.head :: us := fun x hx hin => (List.nodup_append.mp hfront).2.2 x hin x hx rfl
  have h₁ : Path (m.joined (l.lastOf us) a) ((l.head :: us) ++ (a :: xs)) := by
    rw [cons_eq_lastOf] at hbefore hfront ⊢
    exact hbefore.joined hmid hfront
  have h₂ : Path (m.joined (l.lastOf us) a) (vs ++ [l.tail]) :=
    hafter.frame_joined (fun hin => hout (List.dropLast_subset _ hin)) fun hin =>
      hnew a List.mem_cons_self (List.mem_of_mem_tail hin)
  refine ⟨?_, ?_, ?_, hsplit ▸ hnodup⟩
  · have hjoint : (l.head :: us) ++ (a :: xs) ++ (vs ++ [l.tail]) =
        (l.head :: us) ++ (a :: xs).dropLast ++ [b] ++ l.firstOf vs :: (vs ++ [l.tail]).tail := by
      rw [← append_eq_firstOf, List.append_assoc (l.head :: us) _ [b], ← hb]
    rw [hsplit, hjoint]
    rw [hjoint] at hnodup
    rw [append_eq_firstOf] at h₂
    rw [hb, ← List.append_assoc] at h₁
    exact h₁.joined h₂ hnodup
  · rw [Links.prev_joined, Links.prev_joined, update_of_ne, update_of_ne, h.front]
    · exact fun he => hbase a List.mem_cons_self (he ▸ List.mem_cons_self)
    · exact fun he => hapart l.head (by simp) _ (l.firstOf_mem vs) he
  · rw [Links.next_joined, Links.next_joined, update_of_ne, update_of_ne, h.back]
    · exact fun he => hout (he ▸ by simp)
    · exact fun he => hnew b hmem (he ▸ by simp)

end Joints

section Operations

variable [DecidableEq P] {l k : Header P} {xs ys zs us vs mid : List P} {a b c e p q : P}
  {Q : Unit → Links P → Prop} {E : Fault → Links P → Prop}

lemma ends_listInsert (hc : (m.isInterior c || m.isTail c) = true) (hprev : m.prev c = some q) (hce : c ≠ e)
    (hqe : q ≠ e) (hq : Q () ((m.joined q e).joined e c)) : Ends (listInsert c e) m Q E := by
  have hlast : ((m.setPrev e (some q)).setNext e (some c)).prev c = some q := by
    change update m.prev e (some q) c = some q
    rw [update_of_ne hce, hprev]
  simp only [listInsert, putPrev, putNext, getPrev, ends_bind, ends_get, ends_pure, ends_modify]
  refine ends_check hc (ends_deref (by rw [hprev, hlast]) ?_)
  convert hq using 1
  simp only [Links.joined, Links.setNext, Links.setPrev, hprev, Links.mk.injEq, true_and]
  exact update_comm hqe.symm _ _ _

lemma ends_listRemove {R : P → Links P → Prop} (hprev : m.prev e = some p) (hnext : m.next e = some a) (hpe : p ≠ e)
    (hq : R a (m.joined p a)) : Ends (listRemove e) m R E := by
  have hkeep : (m.setNext p (some a)).next e = some a := by
    change update m.next p (some a) e = some a
    rw [update_of_ne hpe.symm, hnext]
  simp only [listRemove, putPrev, putNext, getPrev, getNext, ends_bind, ends_get, ends_pure, ends_modify]
  refine ends_check (by rw [Links.isInterior, hprev, hnext]; rfl) (ends_deref hprev ?_)
  refine ends_deref (by rw [hnext, hkeep]) (ends_deref (z := a) ?_ ?_)
  · rw [hnext]
    exact hkeep
  · convert hq using 1
    simp only [Links.joined, Links.setNext, Links.setPrev, hprev, hnext]

lemma ListAt.ends_insert (h : ListAt m l (ys ++ zs)) (he : e ∉ l.nodes (ys ++ zs)) :
    Ends (listInsert (l.firstOf zs) e) m
      (fun _ m' => ListAt m' l (ys ++ e :: zs) ∧ SameOff (e :: l.nodes (ys ++ zs)) m m') E := by
  have hfirst := l.firstOf_mem_nodes ys zs
  have hlast := l.lastOf_mem_nodes ys zs
  refine ends_listInsert h.interior_or_tail h.prev_eq (ne_of_mem_of_not_mem hfirst he)
    (ne_of_mem_of_not_mem hlast he) ⟨?_, ?_⟩
  · have hnodup := (l.nodes_perm ys [e] zs).nodup_iff.mpr (List.nodup_cons.mpr ⟨he, h.nodup⟩)
    have hlink := h.link (show Path m (e :: []) from .singleton e) rfl hnodup
    rwa [List.append_assoc] at hlink
  · refine .trans ((sameOff_joined m _ _).mono ?_) ((sameOff_joined _ _ _).mono ?_)
    · simp [hlast]
    · simp [hfirst]

lemma ListAt.ends_remove (h : ListAt m l (ys ++ e :: zs)) :
    Ends (listRemove e) m
      (fun r m' => r = l.firstOf zs ∧ ListAt m' l (ys ++ zs) ∧ SameOff (l.nodes (ys ++ zs)) m m' ∧
        m'.prev e = m.prev e ∧ m'.next e = m.next e) E := by
  have hapart := h.apart (l.lastOf_mem ys) (l.firstOf_mem (e :: zs))
  have hsub : [l.lastOf ys, l.firstOf zs] ⊆ l.nodes (ys ++ zs) := by
    simp [l.lastOf_mem_nodes, l.firstOf_mem_nodes]
  have he : ListAt m l (ys ++ [e] ++ zs) := by rwa [List.append_assoc]
  have hnot : e ∉ [l.lastOf ys, l.firstOf zs] := by
    rw [List.mem_cons, List.mem_singleton, not_or]
    exact ⟨hapart.symm, he.apart (by simp) (l.firstOf_mem zs)⟩
  have hsame := sameOff_joined m (l.lastOf ys) (l.firstOf zs)
  refine ends_listRemove (ListAt.prev_eq h) h.next_eq hapart ⟨rfl, he.unlink, hsame.mono hsub, ?_⟩
  exact hsame e hnot

lemma ends_listSplice_ne {n : P} (hc : (m.isInterior c || m.isTail c) = true) (hne : a ≠ e)
    (hend : (m.isInterior e || m.isTail e) = true) (he : m.prev e = some b) (ha : m.isInterior a = true)
    (hb : m.isInterior b = true) (hprev : m.prev a = some p) (hnext : m.next b = some n) (hbp : b ≠ p)
    (hca : c ≠ a) (hqb : q ≠ b) (hq : (m.joined p n).prev c = some q)
    (hQ : Q () (((m.joined p n).joined q a).joined b c)) : Ends (listSplice c a e) m Q E := by
  have hn : (m.setNext p (some n)).next b = some n := by
    change update m.next p (some n) b = some n
    rw [update_of_ne hbp, hnext]
  have hq' : ((m.joined p n).setPrev a (some q)).prev c = some q := by
    change update (m.joined p n).prev a (some q) c = some q
    rw [update_of_ne hca, hq]
  simp only [listSplice, listPrev, putPrev, putNext, getPrev, getNext, ends_bind, ends_get]
  refine ends_check hc ?_
  rw [if_neg hne]
  simp only [ends_bind, ends_get, ends_pure, ends_modify]
  refine ends_check hend (ends_deref he (ends_check ha (ends_check hb (ends_deref hprev ?_))))
  refine ends_deref (z := n) (by rw [hnext, hn]) ?_
  have hjoined : (m.setNext p (m.next b)).setPrev n ((m.setNext p (m.next b)).prev a) = m.joined p n := by
    rw [hnext]
    change (m.setNext p (some n)).setPrev n (m.prev a) = _
    rw [hprev]
    rfl
  rw [hjoined, hq]
  refine ends_deref hq' ?_
  convert hQ using 1
  simp only [Links.setNext, Links.setPrev, Links.joined, Links.mk.injEq, true_and]
  exact update_comm hqb.symm _ _ _

lemma ListAt.path_mid (h : ListAt m l (ys ++ mid ++ zs)) :
    Path (m.joined (l.lastOf ys) (l.firstOf zs)) mid := by
  have hmid : Path m mid := by
    have hbefore := h.before
    rw [← List.cons_append] at hbefore
    exact (List.isChain_append.mp hbefore).2.1
  refine hmid.frame_joined (fun hin => ?_) fun hin => ?_
  · rw [List.append_assoc] at h
    exact h.apart (l.lastOf_mem ys) (by simp [List.dropLast_subset _ hin]) rfl
  · exact h.apart (by simp [List.mem_of_mem_tail hin]) (l.firstOf_mem zs) rfl

lemma ends_listSplice (hc : (m.isInterior (k.firstOf vs) || m.isTail (k.firstOf vs)) = true)
    (h : ListAt m l (ys ++ mid ++ zs)) (hmid : mid ≠ [])
    (hk : ListAt (m.joined (l.lastOf ys) (l.firstOf zs)) k (us ++ vs))
    (hnodup : (k.nodes (us ++ mid ++ vs)).Nodup)
    (hQ : ∀ m', ListAt m' k (us ++ mid ++ vs) →
      SameOff (k.nodes (us ++ mid ++ vs)) (m.joined (l.lastOf ys) (l.firstOf zs)) m' → Q () m') :
    Ends (listSplice (k.firstOf vs) (l.firstOf (mid ++ zs)) (l.firstOf zs)) m Q E := by
  have hpath := h.path_mid
  obtain ⟨a, xs, rfl⟩ := List.exists_cons_of_ne_nil hmid
  have hb : l.lastOf (ys ++ a :: xs) = xs.getLastD a := by
    simp [Header.lastOf, List.getLast?_cons]
  have hlast : xs.getLastD a ∈ a :: xs := by
    cases xs with
    | nil => simp
    | cons x xs => simp [List.getLastD]
  obtain ⟨ws, vs', hsplit⟩ := List.append_of_mem hlast
  have hfull : ListAt m l (ys ++ a :: (xs ++ zs)) := by
    have := h
    rwa [List.append_assoc] at this
  have hend : ListAt m l (ys ++ ws ++ xs.getLastD a :: (vs' ++ zs)) := by
    have := h
    rw [hsplit] at this
    simpa using this
  have hnext : m.next (xs.getLastD a) = some (l.firstOf zs) := hb ▸ h.linked.1
  have hnodes : k.nodes (us ++ a :: xs ++ vs) = (k.head :: us) ++ ((a :: xs) ++ (vs ++ [k.tail])) := by
    simp [Header.nodes]
  have hsub : [k.lastOf us, a, xs.getLastD a, k.firstOf vs] ⊆ k.nodes (us ++ a :: xs ++ vs) := by
    intro x hx
    rw [hnodes]
    simp only [List.mem_cons, List.not_mem_nil, or_false] at hx
    rcases hx with rfl | rfl | rfl | rfl
    · exact List.mem_append_left _ (k.lastOf_mem us)
    · exact List.mem_append_right _ (List.mem_append_left _ List.mem_cons_self)
    · exact List.mem_append_right _ (List.mem_append_left _ hlast)
    · exact List.mem_append_right _ (List.mem_append_right _ (k.firstOf_mem vs))
  have hnew := hnodup
  rw [hnodes] at hnew
  obtain ⟨-, hrest, hapart⟩ := List.nodup_append.mp hnew
  have hapart' := (List.nodup_append.mp hrest).2.2
  refine ends_listSplice_ne hc ?_ h.interior_or_tail ?_ hfull.isInterior hend.isInterior
    (ListAt.prev_eq hfull) hnext ?_ ?_ ?_ hk.prev_eq (hQ _ (hk.link hpath rfl hnodup) ?_)
  · exact fun he => hmid (h.firstOf_eq.mp he)
  · rw [← hb]
    exact h.prev_eq
  · exact (hfull.apart (l.lastOf_mem ys) (by
      rw [← List.cons_append, List.append_assoc]
      exact List.mem_append_left _ hlast)).symm
  · exact (hapart' a List.mem_cons_self _ (k.firstOf_mem vs)).symm
  · exact hapart _ (k.lastOf_mem us) _ (List.mem_append_left _ hlast)
  · refine .trans ((sameOff_joined _ _ _).mono ?_) ((sameOff_joined _ _ _).mono ?_)
    · exact fun x hx => hsub (by simp at hx; rcases hx with rfl | rfl <;> simp)
    · exact fun x hx => hsub (by simp at hx; rcases hx with rfl | rfl <;> simp)

end Operations

end Pintos.Lib
