import Mathlib.Data.List.Nodup
import Pintos.Lib.Chains

/-! Disjoint lists in one memory of list nodes under the list operations. -/

namespace Pintos.Lib

open Pintos.Foundation Function

variable {P : Type} [DecidableEq P] {m : Links P} {l : Header P} {xs ys zs : List P} {e : P}

section Ends

variable {E : Fault → Links P → Prop}

lemma ListAt.ends_empty {Q : Bool → Links P → Prop} (h : ListAt m l xs) (hq : Q (decide (xs = [])) m) :
    Ends (listEmpty l) m Q E := by
  rw [listEmpty, ends_bind]
  refine h.ends_begin ?_
  rw [ends_pure]
  have hiff : (l.firstOf xs = l.tail) = (xs = []) := propext (show ListAt m l ([] ++ xs) from h).firstOf_eq_tail
  convert hq using 2

lemma ListAt.ends_pushFront (h : ListAt m l xs) (he : e ∉ l.nodes xs) :
    Ends (listPushFront l e) m
      (fun _ m' => ListAt m' l (e :: xs) ∧ SameOff (e :: l.nodes xs) m m') E := by
  rw [listPushFront, ends_bind]
  exact h.ends_begin ((show ListAt m l ([] ++ xs) from h).ends_insert he)

lemma ListAt.ends_pushBack (h : ListAt m l xs) (he : e ∉ l.nodes xs) :
    Ends (listPushBack l e) m
      (fun _ m' => ListAt m' l (xs ++ [e]) ∧ SameOff (e :: l.nodes xs) m m') E := by
  rw [← List.append_nil xs] at h he
  have hins : Ends (listPushBack l e) m _ E := h.ends_insert he
  rwa [List.append_nil] at hins

lemma ListAt.ends_popFront (h : ListAt m l (e :: xs)) :
    Ends (listPopFront l) m (fun r m' => r = e ∧ ListAt m' l xs ∧ SameOff (l.nodes xs) m m') E := by
  simp only [listPopFront, listFront, getNext, ends_bind, ends_get, ends_pure]
  refine h.ends_empty (ends_check rfl (ends_deref h.begin_eq ?_))
  refine (show ListAt m l ([] ++ e :: xs) from h).ends_remove.imp fun _ m' hm => ?_
  exact ⟨rfl, hm.2.1, hm.2.2.1⟩

lemma ListAt.ends_popBack (h : ListAt m l (xs ++ [e])) :
    Ends (listPopBack l) m (fun r m' => r = e ∧ ListAt m' l xs ∧ SameOff (l.nodes xs) m m') E := by
  have hlast : m.prev l.tail = some e := by
    rw [← List.append_nil (xs ++ [e])] at h
    have hprev := h.prev_eq
    simpa [Header.lastOf, Header.firstOf] using hprev
  simp only [listPopBack, listBack, getPrev, ends_bind, ends_get, ends_pure]
  refine h.ends_empty (ends_check (by simp) (ends_deref hlast ?_))
  refine (ListAt.ends_remove h).imp fun _ m' hm => ?_
  rw [List.append_nil] at hm
  exact ⟨rfl, hm.2.1, hm.2.2.1⟩

end Ends

section Reversal

variable {E : Fault → Links P → Prop}

def Links.swapped (m : Links P) (xs : List P) : Links P where
  prev x := if x ∈ xs then m.next x else m.prev x
  next x := if x ∈ xs then m.prev x else m.next x

lemma Links.swapped_nil (m : Links P) : m.swapped [] = m := by
  simp [Links.swapped]

lemma Links.swapped_concat {x : P} (m : Links P) (hx : x ∉ xs) :
    ((m.swapped xs).setPrev x ((m.swapped xs).next x)).setNext x ((m.swapped xs).prev x) =
      m.swapped (xs ++ [x]) := by
  have hprev : (m.swapped xs).prev x = m.prev x := if_neg hx
  have hnext : (m.swapped xs).next x = m.next x := if_neg hx
  rw [hprev, hnext, Links.setPrev, Links.setNext, Links.swapped, Links.swapped, Links.mk.injEq]
  constructor
  all_goals
    funext y
    rcases eq_or_ne y x with rfl | hy
    · simp
    · simp [hy]

lemma sameOff_swapped (m : Links P) (xs : List P) : SameOff xs m (m.swapped xs) :=
  fun _ hx => ⟨if_neg hx, if_neg hx⟩

lemma Path.swapped (h : Path m xs) : Path (m.swapped xs) xs.reverse := by
  rw [Path, List.isChain_reverse]
  refine h.imp_of_mem_imp fun a b ha hb hab => ?_
  exact ⟨(if_pos hb).trans hab.2, (if_pos ha).trans hab.1⟩

lemma ends_reverseLoop (fuel : Nat) (hfuel : zs.length < fuel) (h : ListAt m l (ys ++ zs)) :
    Ends (reverseLoop l fuel (l.firstOf zs)) (m.swapped ys) (fun _ m' => m' = m.swapped (ys ++ zs)) E := by
  induction fuel generalizing ys zs with
  | zero => omega
  | succ fuel ih =>
    rw [reverseLoop]
    cases zs with
    | nil =>
      rw [List.append_nil]
      exact Ends.ite (fun _ => rfl) fun hne => absurd rfl hne
    | cons z zs =>
      have hz : z ∉ ys := fun hin => h.apart (List.mem_cons_of_mem _ hin) List.mem_cons_self rfl
      have hsplit : ys ++ z :: zs = (ys ++ [z]) ++ zs := by simp
      refine Ends.ite (fun he => ?_) fun _ => ?_
      · exact absurd (h.firstOf_eq_tail.mp he) (List.cons_ne_nil _ _)
      · simp only [getPrev, getNext, putPrev, putNext, ends_bind, ends_get, ends_pure, ends_modify]
        have hnext : (m.swapped (ys ++ [z])).prev z = some (l.firstOf zs) :=
          (if_pos (by simp)).trans h.next_eq
        rw [show l.firstOf (z :: zs) = z from rfl, Links.swapped_concat m hz, hsplit]
        refine ends_deref hnext (ih (Nat.lt_of_succ_lt_succ hfuel) ?_)
        rwa [← hsplit]

lemma ListAt.swapped_empty (h : ListAt m l xs) : ListAt ((m.swapped xs).joined l.head l.tail) l [] := by
  obtain ⟨hhead, htail, hne⟩ := h.headers
  refine ⟨.cons_cons ⟨update_self _ _ _, update_self _ _ _⟩ (.singleton _), ?_, ?_, ?_⟩
  · rw [Links.prev_joined, update_of_ne hne]
    exact (if_neg hhead).trans h.front
  · rw [Links.next_joined, update_of_ne hne.symm]
    exact (if_neg htail).trans h.back
  · simpa [Header.nodes] using hne

lemma ListAt.reversed {a z : P} (h : ListAt m l xs) (hfirst : xs.head? = some a) (hlast : xs.getLast? = some z) :
    ListAt (((m.swapped xs).joined l.head z).joined a l.tail) l xs.reverse := by
  have hpath : Path m xs := by
    have hbefore := (show ListAt m l (xs ++ []) by rwa [List.append_nil]).before
    exact hbefore.tail
  have hrev : xs.reverse = z :: xs.reverse.tail := by
    rw [← List.head?_reverse] at hlast
    exact (List.cons_head?_tail hlast).symm
  have hend : xs.reverse.tail.getLastD z = a := by
    have hget : xs.reverse.getLast? = some a := by rw [List.getLast?_reverse, hfirst]
    rw [hrev, List.getLast?_cons] at hget
    simpa [List.getLastD_eq_getLast?] using hget
  have hmid : Path ((m.swapped xs).joined l.head l.tail) (z :: xs.reverse.tail) := by
    rw [← hrev]
    refine hpath.swapped.frame_joined (fun hin => ?_) fun hin => ?_
    · exact h.headers.1 (List.mem_reverse.mp (List.dropLast_subset _ hin))
    · exact h.headers.2.1 (List.mem_reverse.mp (List.mem_of_mem_tail hin))
  have hnodup : (l.nodes ([] ++ z :: xs.reverse.tail ++ [])).Nodup := by
    rw [← hrev, List.nil_append, List.append_nil]
    have hperm : (l.nodes xs.reverse).Perm (l.nodes xs) := ((List.reverse_perm xs).append_right _).cons _
    exact hperm.nodup_iff.mpr h.nodup
  have hlink := (show ListAt _ l ([] ++ []) from h.swapped_empty).link hmid hend hnodup
  rw [← hrev, List.nil_append, List.append_nil] at hlink
  have hne : z ≠ l.tail := fun he => h.headers.2.1 (he ▸ List.mem_of_getLast? hlast)
  have hstate : (((m.swapped xs).joined l.head l.tail).joined l.head z).joined a l.tail =
      ((m.swapped xs).joined l.head z).joined a l.tail := by
    simp only [Links.joined, Links.setNext, Links.setPrev, Links.mk.injEq]
    exact ⟨by rw [update_comm hne.symm, update_idem], by rw [update_idem]⟩
  exact hstate ▸ hlink

lemma ListAt.ends_reverse {fuel : Nat} (hfuel : xs.length < fuel) (h : ListAt m l xs) :
    Ends (listReverse fuel l) m (fun _ m' => ListAt m' l xs.reverse ∧ SameOff (l.nodes xs) m m') E := by
  simp only [listReverse, ends_bind]
  refine h.ends_empty ?_
  cases xs with
  | nil => exact ⟨h, .refl _ _⟩
  | cons a xs =>
    rw [decide_eq_false (List.cons_ne_nil _ _)]
    simp only [ends_bind, Bool.false_eq_true, if_false]
    refine h.ends_begin ?_
    have hloop := ends_reverseLoop (E := E) fuel hfuel (show ListAt m l ([] ++ a :: xs) from h)
    rw [Links.swapped_nil, List.nil_append] at hloop
    refine hloop.imp ?_
    rintro _ _ rfl
    obtain ⟨hhead, htail, hne⟩ := h.headers
    obtain ⟨z, hlast⟩ : ∃ z, (a :: xs).getLast? = some z := ⟨_, List.getLast?_cons⟩
    have hmem : z ∈ a :: xs := List.mem_of_getLast? hlast
    have hall : ListAt m l (a :: xs ++ []) := by rwa [List.append_nil]
    have hz : l.lastOf (a :: xs) = z := by simp [Header.lastOf, hlast]
    have hfirst : (m.swapped (a :: xs)).next l.head = some a := (if_neg hhead).trans h.begin_eq
    have hprev : (m.swapped (a :: xs)).prev l.tail = some z := (if_neg htail).trans (hz ▸ hall.prev_eq)
    have hlink : (m.swapped (a :: xs)).prev z = some l.tail := (if_pos hmem).trans (hz ▸ hall.linked.1)
    have hback : (m.swapped (a :: xs)).next a = some l.head :=
      (if_pos List.mem_cons_self).trans (show ListAt m l ([] ++ a :: xs) from h).prev_eq
    have hztail : z ≠ l.tail := ne_of_mem_of_not_mem hmem htail
    have hahead : a ≠ l.head := ne_of_mem_of_not_mem List.mem_cons_self hhead
    have hdone := h.reversed rfl hlast
    simp only [getPrev, getNext, putPrev, putNext, ends_bind, ends_get, ends_pure, ends_modify]
    refine ends_deref (z := z) ?_ (ends_deref (z := a) ?_ ?_)
    · exact (update_self _ _ _).trans hprev
    · exact (update_self _ _ _).trans hfirst
    · have hstate : (((((m.swapped (a :: xs)).setNext l.head (some z)).setPrev l.tail (some a)).setPrev z
          (some l.head)).setNext a (some l.tail)) = ((m.swapped (a :: xs)).joined l.head z).joined a l.tail := by
        simp only [Links.joined, Links.setNext, Links.setPrev, Links.mk.injEq, and_true]
        exact update_comm hztail.symm _ _ _
      simp only [Links.setNext, Links.setPrev, hprev, hfirst, update_of_ne hztail, hlink, update_of_ne hahead,
        hback] at hstate ⊢
      rw [hstate]
      refine ⟨hdone, ((sameOff_swapped m _).mono fun x hx => ?_).trans (((sameOff_joined _ _ _).mono ?_).trans
        ((sameOff_joined _ _ _).mono ?_))⟩
      · exact Header.mem_nodes.mpr (.inr (.inl hx))
      · exact List.cons_subset.mpr ⟨Header.mem_nodes.mpr (.inl rfl),
          List.cons_subset.mpr ⟨Header.mem_nodes.mpr (.inr (.inl hmem)), List.nil_subset _⟩⟩
      · exact List.cons_subset.mpr ⟨Header.mem_nodes.mpr (.inr (.inl List.mem_cons_self)),
          List.cons_subset.mpr ⟨Header.mem_nodes.mpr (.inr (.inr rfl)), List.nil_subset _⟩⟩

end Reversal

section Splicing

variable {E : Fault → Links P → Prop} {k : Header P} {us vs mid : List P}

lemma ends_spliceNothing (h : ListAt m k (us ++ vs)) (a : P) {Q : Unit → Links P → Prop} (hq : Q () m) :
    Ends (listSplice (k.firstOf vs) a a) m Q E := by
  simp only [listSplice, ends_bind, ends_get]
  exact ends_check h.interior_or_tail (Ends.ite (fun _ => hq) fun hne => absurd trivial hne)

lemma ListAt.ends_spliceWithin (h : ListAt m l (ys ++ mid ++ zs)) (hsplit : ys ++ zs = us ++ vs) :
    Ends (listSplice (l.firstOf vs) (l.firstOf (mid ++ zs)) (l.firstOf zs)) m
      (fun _ m' => ListAt m' l (us ++ mid ++ vs) ∧ SameOff (l.nodes (ys ++ mid ++ zs)) m m') E := by
  have hnodes : (l.nodes (us ++ mid ++ vs)).Perm (l.nodes (ys ++ mid ++ zs)) :=
    (l.nodes_perm us mid vs).trans (hsplit ▸ l.nodes_perm ys mid zs).symm
  rcases eq_or_ne mid [] with rfl | hmid
  · rw [List.append_nil, List.append_nil] at *
    rw [hsplit] at h
    exact ends_spliceNothing h _ ⟨h, .refl _ _⟩
  · have hchecked : (m.isInterior (l.firstOf vs) || m.isTail (l.firstOf vs)) = true := by
      refine h.linkedFrom (List.append_subset.mpr ⟨fun x hx => ?_, ?_⟩ (l.firstOf_mem vs))
      · have hin : x ∈ ys ++ zs := hsplit ▸ List.mem_append_right _ hx
        simp only [List.mem_append] at hin ⊢
        tauto
      · exact List.subset_append_right _ _
    refine ends_listSplice hchecked h hmid (hsplit ▸ h.unlink) (hnodes.nodup_iff.mpr h.nodup) fun m' hm' hs => ?_
    refine ⟨hm', .trans ((sameOff_joined _ _ _).mono ?_) (hs.mono hnodes.subset)⟩
    refine List.cons_subset.mpr ⟨?_, List.cons_subset.mpr ⟨l.firstOf_mem_nodes _ _, List.nil_subset _⟩⟩
    rw [List.append_assoc]
    exact l.lastOf_mem_nodes _ _

omit [DecidableEq P] in
lemma ListAt.disjoint_moved (h : ListAt m l (ys ++ mid ++ zs))
    (hd : (l.nodes (ys ++ mid ++ zs)).Disjoint (k.nodes (us ++ vs))) :
    (l.nodes (ys ++ zs)).Disjoint (k.nodes (us ++ mid ++ vs)) := by
  have hnodup := (l.nodes_perm ys mid zs).nodup_iff.mp h.nodup
  intro x hx hx'
  rcases List.mem_append.mp ((k.nodes_perm us mid vs).subset hx') with hin | hin
  · exact (List.nodup_append'.mp hnodup).2.2 hin hx
  · exact hd (l.nodes_subset ys mid zs hx) hin

omit [DecidableEq P] in
lemma nodes_moved_subset (l k : Header P) (ys mid zs us vs : List P) :
    k.nodes (us ++ mid ++ vs) ⊆ l.nodes (ys ++ mid ++ zs) ++ k.nodes (us ++ vs) := fun x hx => by
  rcases List.mem_append.mp ((k.nodes_perm us mid vs).subset hx) with hin | hin
  · exact List.mem_append_left _ (l.subset_nodes ys mid zs hin)
  · exact List.mem_append_right _ hin

lemma ListAt.ends_spliceInto (h : ListAt m l (ys ++ mid ++ zs)) (hk : ListAt m k (us ++ vs))
    (hd : (l.nodes (ys ++ mid ++ zs)).Disjoint (k.nodes (us ++ vs))) :
    Ends (listSplice (k.firstOf vs) (l.firstOf (mid ++ zs)) (l.firstOf zs)) m
      (fun _ m' => ListAt m' l (ys ++ zs) ∧ ListAt m' k (us ++ mid ++ vs) ∧
        SameOff (l.nodes (ys ++ mid ++ zs) ++ k.nodes (us ++ vs)) m m') E := by
  rcases eq_or_ne mid [] with rfl | hmid
  · rw [List.append_nil, List.append_nil] at *
    exact ends_spliceNothing hk _ ⟨h, hk, .refl _ _⟩
  · have hsub : [l.lastOf ys, l.firstOf zs] ⊆ l.nodes (ys ++ zs) := by
      simp [l.lastOf_mem_nodes, l.firstOf_mem_nodes]
    have hleft := l.nodes_subset ys mid zs
    have hunlink := sameOff_joined m (l.lastOf ys) (l.firstOf zs)
    have hk' := hunlink.listAt hk fun x hx hs => hd (hleft (hsub hs)) hx
    have hnodup := (l.nodes_perm ys mid zs).nodup_iff.mp h.nodup
    refine ends_listSplice hk.interior_or_tail h hmid hk' ?_ fun m' hm' hs => ⟨?_, hm', ?_⟩
    · rw [(k.nodes_perm us mid vs).nodup_iff, List.nodup_append']
      exact ⟨(List.nodup_append'.mp hnodup).1, hk.nodup, fun x hx => hd (l.subset_nodes ys mid zs hx)⟩
    · exact hs.listAt h.unlink fun x hx => h.disjoint_moved hd hx
    · exact .trans (hunlink.mono fun x hx => List.mem_append_left _ (hleft (hsub hx)))
        (hs.mono (nodes_moved_subset l k ys mid zs us vs))

end Splicing

section Families

variable {ι : Type} {m' : Links P} {l : ι → Header P} {σ σ' : ι → List P}

structure Queues (m : Links P) (l : ι → Header P) (σ : ι → List P) : Prop where
  wellFormed : ∀ i, ListAt m (l i) (σ i)
  disjoint : ∀ i j, i ≠ j → ((l i).nodes (σ i)).Disjoint ((l j).nodes (σ j))

inductive Op (ι P : Type)
  | insert (before elem : P)
  | pushFront (i : ι) (elem : P)
  | pushBack (i : ι) (elem : P)
  | remove (elem : P)
  | popFront (i : ι)
  | popBack (i : ι)
  | reverse (i : ι)
  | splice (before first last : P)

def Op.run (l : ι → Header P) (fuel : Nat) : Op ι P → ListM P (Option P)
  | .insert before elem => do listInsert before elem; return none
  | .pushFront i elem => do listPushFront (l i) elem; return none
  | .pushBack i elem => do listPushBack (l i) elem; return none
  | .remove elem => return some (← listRemove elem)
  | .popFront i => return some (← listPopFront (l i))
  | .popBack i => return some (← listPopBack (l i))
  | .reverse i => do listReverse fuel (l i); return none
  | .splice before first last => do listSplice before first last; return none

variable [DecidableEq ι]

inductive Op.Gives (l : ι → Header P) (σ : ι → List P) : Op ι P → Option P → List ι → (ι → List P) → Prop
  | insert (i : ι) (us vs : List P) (elem : P) (hi : σ i = us ++ vs) (hnew : ∀ j, elem ∉ (l j).nodes (σ j)) :
    Gives l σ (.insert ((l i).firstOf vs) elem) none [i] (update σ i (us ++ elem :: vs))
  | pushFront (i : ι) (elem : P) (hnew : ∀ j, elem ∉ (l j).nodes (σ j)) :
    Gives l σ (.pushFront i elem) none [i] (update σ i (elem :: σ i))
  | pushBack (i : ι) (elem : P) (hnew : ∀ j, elem ∉ (l j).nodes (σ j)) :
    Gives l σ (.pushBack i elem) none [i] (update σ i (σ i ++ [elem]))
  | remove (i : ι) (us vs : List P) (elem : P) (hi : σ i = us ++ elem :: vs) :
    Gives l σ (.remove elem) (some ((l i).firstOf vs)) [i] (update σ i (us ++ vs))
  | popFront (i : ι) (elem : P) (xs : List P) (hi : σ i = elem :: xs) :
    Gives l σ (.popFront i) (some elem) [i] (update σ i xs)
  | popBack (i : ι) (elem : P) (xs : List P) (hi : σ i = xs ++ [elem]) :
    Gives l σ (.popBack i) (some elem) [i] (update σ i xs)
  | reverse (i : ι) : Gives l σ (.reverse i) none [i] (update σ i (σ i).reverse)
  | spliceWithin (i : ι) (ys mid zs us vs : List P) (hi : σ i = ys ++ mid ++ zs) (hbefore : ys ++ zs = us ++ vs) :
    Gives l σ (.splice ((l i).firstOf vs) ((l i).firstOf (mid ++ zs)) ((l i).firstOf zs)) none [i]
      (update σ i (us ++ mid ++ vs))
  | spliceInto (i j : ι) (ys mid zs us vs : List P) (hij : i ≠ j) (hi : σ i = ys ++ mid ++ zs) (hj : σ j = us ++ vs) :
    Gives l σ (.splice ((l j).firstOf vs) ((l i).firstOf (mid ++ zs)) ((l i).firstOf zs)) none [i, j]
      (update (update σ i (ys ++ zs)) j (us ++ mid ++ vs))

def Unchanged (m m' : Links P) (xs : List P) : Prop := ∀ x ∈ xs, m'.prev x = m.prev x ∧ m'.next x = m.next x

omit [DecidableEq ι] [DecidableEq P] in
lemma Queues.of_touched {S : List P} {t : List ι} (h : Queues m l σ) (hs : SameOff S m m')
    (hfree : ∀ j, j ∉ t → S.Disjoint ((l j).nodes (σ j))) (hsame : ∀ j, j ∉ t → σ' j = σ j)
    (hat : ∀ i ∈ t, ListAt m' (l i) (σ' i)) (hsub : ∀ i ∈ t, (l i).nodes (σ' i) ⊆ S)
    (hpair : ∀ i ∈ t, ∀ j ∈ t, i ≠ j → ((l i).nodes (σ' i)).Disjoint ((l j).nodes (σ' j))) :
    Queues m' l σ' ∧ ∀ j, j ∉ t → Unchanged m m' ((l j).nodes (σ j)) := by
  refine ⟨⟨fun i => ?_, fun i j hij => ?_⟩, fun j hj x hx => hs x fun hin => hfree j hj hin hx⟩
  · by_cases hi : i ∈ t
    · exact hat i hi
    · rw [hsame i hi]
      exact hs.listAt (h.wellFormed i) fun x hx hin => hfree i hi hin hx
  · by_cases hi : i ∈ t <;> by_cases hj : j ∈ t
    · exact hpair i hi j hj hij
    · rw [hsame j hj]
      exact fun x hx => hfree j hj (hsub i hi hx)
    · rw [hsame i hi]
      exact fun x hx hy => hfree i hi (hsub j hj hy) hx
    · rw [hsame i hi, hsame j hj]
      exact h.disjoint i j hij

omit [DecidableEq P] in
lemma Queues.of_update {S : List P} {i : ι} (h : Queues m l σ) (hs : SameOff S m m')
    (hfree : ∀ j, j ≠ i → S.Disjoint ((l j).nodes (σ j))) (hat : ListAt m' (l i) xs) (hsub : (l i).nodes xs ⊆ S) :
    Queues m' l (update σ i xs) ∧ ∀ j, j ∉ [i] → Unchanged m m' ((l j).nodes (σ j)) := by
  refine h.of_touched hs (fun j hj => hfree j ?_) (fun j hj => update_of_ne ?_ _ _) ?_ ?_ ?_
  · exact fun he => hj (he ▸ List.mem_cons_self)
  · exact fun he => hj (he ▸ List.mem_cons_self)
  · simpa using hat
  · simpa using hsub
  · simp

omit [DecidableEq P] in
lemma Queues.of_inserted {i : ι} (h : Queues m l σ) (hnew : ∀ j, e ∉ (l j).nodes (σ j))
    (hs : SameOff (e :: (l i).nodes (σ i)) m m') (hat : ListAt m' (l i) xs) (hxs : xs.Perm (e :: σ i)) :
    Queues m' l (update σ i xs) ∧ ∀ j, j ∉ [i] → Unchanged m m' ((l j).nodes (σ j)) := by
  refine h.of_update hs (fun j hj x hx hx' => ?_) hat fun x hx => ?_
  · rcases List.mem_cons.mp hx with rfl | hx
    · exact hnew j hx'
    · exact h.disjoint i j hj.symm hx hx'
  · rw [Header.mem_nodes, hxs.mem_iff, List.mem_cons] at hx
    rw [List.mem_cons, Header.mem_nodes]
    tauto

omit [DecidableEq P] in
lemma Queues.of_rearranged {i : ι} (h : Queues m l σ) (hs : SameOff ((l i).nodes (σ i)) m m')
    (hat : ListAt m' (l i) xs) (hxs : xs ⊆ σ i) :
    Queues m' l (update σ i xs) ∧ ∀ j, j ∉ [i] → Unchanged m m' ((l j).nodes (σ j)) := by
  refine h.of_update hs (fun j hj => h.disjoint i j hj.symm) hat fun x hx => ?_
  rw [Header.mem_nodes] at hx ⊢
  exact hx.imp_right (.imp_left (@hxs x))

omit [DecidableEq P] in
lemma Queues.of_removed {i : ι} (h : Queues m l σ) (hs : SameOff ((l i).nodes xs) m m')
    (hat : ListAt m' (l i) xs) (hxs : xs ⊆ σ i) :
    Queues m' l (update σ i xs) ∧ ∀ j, j ∉ [i] → Unchanged m m' ((l j).nodes (σ j)) := by
  refine h.of_rearranged (hs.mono fun x hx => ?_) hat hxs
  rw [Header.mem_nodes] at hx ⊢
  exact hx.imp_right (.imp_left (@hxs x))

section Steps

variable {E : Fault → Links P → Prop} {us vs : List P} {i : ι}

lemma Queues.ends_pushFront (h : Queues m l σ) (i : ι) (hnew : ∀ j, e ∉ (l j).nodes (σ j)) :
    Ends (listPushFront (l i) e) m (fun _ m' => Queues m' l (update σ i (e :: σ i)) ∧
      ∀ j, j ∉ [i] → Unchanged m m' ((l j).nodes (σ j))) E :=
  ((h.wellFormed i).ends_pushFront (hnew i)).imp
    fun _ _ hm => h.of_inserted hnew hm.2 hm.1 (.refl _)

lemma Queues.ends_remove (h : Queues m l σ) (hi : σ i = us ++ e :: vs) :
    Ends (listRemove e) m (fun r m' => r = (l i).firstOf vs ∧ Queues m' l (update σ i (us ++ vs)) ∧
      ∀ j, j ∉ [i] → Unchanged m m' ((l j).nodes (σ j))) E := by
  have hat := h.wellFormed i
  rw [hi] at hat
  have hsub : us ++ vs ⊆ σ i := by
    rw [hi]
    exact (List.sublist_cons_self e vs).append_left us |>.subset
  refine hat.ends_remove.imp fun r m' hm => ?_
  obtain ⟨rfl, hm', hs, -⟩ := hm
  exact ⟨rfl, h.of_removed hs hm' hsub⟩

omit [DecidableEq P] in
lemma Queues.removed_notMem (h : Queues m l σ) (hi : σ i = us ++ e :: vs) (j : ι) :
    e ∉ (l j).nodes (update σ i (us ++ vs) j) := by
  have hat := h.wellFormed i
  rw [hi] at hat
  rcases eq_or_ne j i with rfl | hj
  · rw [update_self]
    exact Header.notMem_nodes hat.nodup
  · rw [update_of_ne hj]
    refine fun hin => h.disjoint i j hj.symm ?_ hin
    rw [hi]
    exact Header.mem_nodes.mpr (.inr (.inl (by simp)))

lemma Queues.ends_popFront (h : Queues m l σ) (hi : σ i = e :: xs) :
    Ends (listPopFront (l i)) m (fun r m' => r = e ∧ Queues m' l (update σ i xs) ∧
      ∀ j, j ∉ [i] → Unchanged m m' ((l j).nodes (σ j))) E := by
  refine (hi ▸ h.wellFormed i).ends_popFront.imp fun r m' hm => ?_
  obtain ⟨rfl, hm', hs⟩ := hm
  exact ⟨rfl, h.of_removed hs hm' (hi ▸ List.subset_cons_self _ _)⟩

omit [DecidableEq ι] in
lemma ends_listInit (k : Header P) (hk : k.head ≠ k.tail) :
    Ends (listInit k) m (fun _ m' => ListAt m' k [] ∧ SameOff [k.head, k.tail] m m') E := by
  simp only [listInit, putPrev, putNext, ends_bind, ends_modify]
  refine ⟨⟨.cons_cons ⟨?_, ?_⟩ (.singleton _), ?_, ?_, ?_⟩, fun x hx => ?_⟩
  · simp [Links.setNext, Links.setPrev, hk]
  · simp [Links.setNext, Links.setPrev]
  · simp [Links.setNext, Links.setPrev, hk]
  · simp [Links.setNext, Links.setPrev]
  · simpa [Header.nodes] using hk
  · rw [List.mem_cons, List.mem_singleton, not_or] at hx
    simp [Links.setNext, Links.setPrev, hx.1, hx.2]

lemma Queues.ends_init (h : Queues m l σ) (i : ι) :
    Ends (listInit (l i)) m (fun _ m' => Queues m' l (update σ i [])) E := by
  refine (ends_listInit (l i) (h.wellFormed i).headers.2.2).imp fun _ m' hm => ?_
  have hs : SameOff ((l i).nodes []) m m' := hm.2
  exact (h.of_removed hs hm.1 (List.nil_subset _)).1

end Steps

lemma Op.Gives.ends {op : Op ι P} {r : Option P} {t : List ι} (hop : op.Gives l σ r t σ') (h : Queues m l σ)
    {fuel : Nat} (hfuel : ∀ i ∈ t, (σ i).length < fuel) :
    Ends (op.run l fuel) m (fun r' m' => r' = r ∧ Queues m' l σ' ∧
      ∀ j, j ∉ t → Unchanged m m' ((l j).nodes (σ j))) fun _ _ => False := by
  cases hop with
  | insert i us vs elem hi hnew =>
    have hat := h.wellFormed i
    have hnot := hnew i
    rw [hi] at hat hnot
    simp only [Op.run, ends_bind, ends_pure, true_and]
    refine (hat.ends_insert hnot).imp fun _ m' hm => h.of_inserted hnew (hi ▸ hm.2) hm.1 ?_
    rw [hi]
    exact List.perm_middle
  | pushFront i elem hnew =>
    simp only [Op.run, ends_bind, ends_pure, true_and]
    exact h.ends_pushFront i hnew
  | pushBack i elem hnew =>
    simp only [Op.run, ends_bind, ends_pure, true_and]
    exact ((h.wellFormed i).ends_pushBack (hnew i)).imp
      fun _ m' hm => h.of_inserted hnew hm.2 hm.1 (List.perm_append_singleton _ _)
  | remove i us vs elem hi =>
    simp only [Op.run, ends_bind, ends_pure]
    refine (h.ends_remove hi).imp fun r m' hm => ?_
    exact ⟨congrArg some hm.1, hm.2⟩
  | popFront i elem xs hi =>
    simp only [Op.run, ends_bind, ends_pure]
    refine (h.ends_popFront hi).imp fun r m' hm => ?_
    exact ⟨congrArg some hm.1, hm.2⟩
  | popBack i elem xs hi =>
    simp only [Op.run, ends_bind, ends_pure]
    refine (hi ▸ h.wellFormed i).ends_popBack.imp fun r m' hm => ?_
    obtain ⟨rfl, hm', hs⟩ := hm
    exact ⟨rfl, h.of_removed hs hm' (hi ▸ List.subset_append_left _ _)⟩
  | reverse i =>
    simp only [Op.run, ends_bind, ends_pure, true_and]
    exact ((h.wellFormed i).ends_reverse (hfuel i (by simp))).imp
      fun _ m' hm => h.of_rearranged hm.2 hm.1 (List.reverse_subset.mpr (List.Subset.refl _))
  | spliceWithin i ys mid zs us vs hi hbefore =>
    have hsub : us ++ mid ++ vs ⊆ σ i := by
      rw [hi]
      intro x hx
      have hin : x ∈ us ++ vs ↔ x ∈ ys ++ zs := by rw [hbefore]
      simp only [List.mem_append] at hx hin ⊢
      tauto
    simp only [Op.run, ends_bind, ends_pure, true_and]
    refine ((hi ▸ h.wellFormed i).ends_spliceWithin hbefore).imp fun _ m' hm => ?_
    exact h.of_rearranged (hi ▸ hm.2) hm.1 hsub
  | spliceInto i j ys mid zs us vs hij hi hj =>
    have hd := h.disjoint i j hij
    rw [hi, hj] at hd
    simp only [Op.run, ends_bind, ends_pure, true_and]
    refine ((hi ▸ h.wellFormed i).ends_spliceInto (hj ▸ h.wellFormed j) hd).imp fun _ m' hm => ?_
    have hi' : update (update σ i (ys ++ zs)) j (us ++ mid ++ vs) i = ys ++ zs := by
      rw [update_of_ne hij, update_self]
    have hmoved := (hi ▸ h.wellFormed i).disjoint_moved hd
    refine h.of_touched hm.2.2 (fun n hn x hx hx' => ?_) (fun n hn => ?_) (fun n hn => ?_) (fun n hn => ?_) ?_
    · rw [List.mem_cons, List.mem_singleton, not_or] at hn
      rcases List.mem_append.mp hx with hx | hx
      · exact h.disjoint i n (Ne.symm hn.1) (hi ▸ hx) hx'
      · exact h.disjoint j n (Ne.symm hn.2) (hj ▸ hx) hx'
    · rw [List.mem_cons, List.mem_singleton, not_or] at hn
      rw [update_of_ne hn.2, update_of_ne hn.1]
    · rw [List.mem_cons, List.mem_singleton] at hn
      rcases hn with rfl | rfl
      · exact hi'.symm ▸ hm.1
      · rw [update_self]
        exact hm.2.1
    · rw [List.mem_cons, List.mem_singleton] at hn
      rcases hn with rfl | rfl
      · rw [hi']
        exact fun x hx => List.mem_append_left _ ((l n).nodes_subset ys mid zs hx)
      · rw [update_self]
        exact nodes_moved_subset (l i) (l n) ys mid zs us vs
    · intro a ha b hb hab
      rw [List.mem_cons, List.mem_singleton] at ha hb
      rcases ha with rfl | rfl <;> rcases hb with rfl | rfl
      · exact absurd rfl hab
      · rw [hi', update_self]
        exact hmoved
      · rw [hi', update_self]
        exact fun x hx hx' => hmoved hx' hx
      · exact absurd rfl hab

/-- Every list operation leaves the lists it is given as well-formed lists of the expected
sequences and the links of all other lists as they are. -/
theorem operations_keep_lists (m : Links P) (l : ι → Header P) (σ σ' : ι → List P) (op : Op ι P) (r : Option P)
    (t : List ι) (h : Queues m l σ) (hop : op.Gives l σ r t σ') :
    ∃ n, ∀ fuel, n ≤ fuel → ∃ m', op.run l fuel m = .ok r m' ∧ Queues m' l σ' ∧
      ∀ j, j ∉ t → Unchanged m m' ((l j).nodes (σ j)) := by
  refine ⟨(t.map σ).flatten.length + 1, fun fuel hfuel => ?_⟩
  have hlen : ∀ i ∈ t, (σ i).length < fuel := fun i hi =>
    Nat.lt_of_lt_of_le (Nat.lt_succ_of_le (List.sublist_flatten_of_mem (List.mem_map_of_mem hi)).length_le) hfuel
  obtain ⟨r', m', hrun, rfl, hm'⟩ := (hop.ends h hlen).exists_ok
  exact ⟨m', hrun, hm'⟩

end Families

def twoLists : Links Nat where
  prev x := if x = 0 ∨ x = 6 then none else some (x - 1)
  next x := if x = 5 ∨ x = 9 then none else some (x + 1)

def twoHeaders (i : Fin 2) : Header Nat := if i = 0 then ⟨0, 5⟩ else ⟨6, 9⟩

def twoSequences (i : Fin 2) : List Nat := if i = 0 then [1, 2, 3, 4] else [7, 8]

lemma queues_twoLists : Queues twoLists twoHeaders twoSequences where
  wellFormed
    | 0 => ⟨by simp [Path, Linked, Header.nodes, twoLists, twoHeaders, twoSequences], rfl, rfl, by decide⟩
    | 1 => ⟨by simp [Path, Linked, Header.nodes, twoLists, twoHeaders, twoSequences], rfl, rfl, by decide⟩
  disjoint i j hij a ha := by
    have hapart : ∀ i j : Fin 2, i ≠ j → ∀ a ∈ (twoHeaders i).nodes (twoSequences i),
        a ∉ (twoHeaders j).nodes (twoSequences j) := by decide
    exact hapart i j hij a ha

theorem operations_keep_lists_spliced :
    ∃ n, ∀ fuel, n ≤ fuel → ∃ m', (Op.splice 8 2 4).run twoHeaders fuel twoLists = .ok none m' ∧
      Queues m' twoHeaders (update (update twoSequences 0 [1, 4]) 1 [7, 2, 3, 8]) ∧
      ∀ j, j ∉ [0, 1] → Unchanged twoLists m' ((twoHeaders j).nodes (twoSequences j)) :=
  operations_keep_lists _ _ _ _ _ _ _ queues_twoLists
    (.spliceInto 0 1 [1] [2, 3] [4] [7] [8] (by decide) rfl rfl)

end Pintos.Lib
