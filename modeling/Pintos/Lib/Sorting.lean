import Pintos.Foundation.StableSorts
import Pintos.Lib.Queues

/-! Sorting of lists in place. -/

namespace Pintos.Lib

open Pintos.Foundation Function

variable {P : Type} [DecidableEq P] {less : P → P → Bool} {m : Links P} {l : Header P} {xs ys zs : List P} {x : P}
  {E : Fault → Links P → Prop} {fuel : Nat}

section Walks

lemma ends_sortedLoop (hfuel : xs.length < fuel) (h : ListAt m l (ys ++ x :: xs ++ zs))
    (hsorted : (x :: xs).IsChain fun a b => before less a b = true) :
    Ends (sortedLoop less fuel x (l.firstOf zs)) m (fun r m' => r = true ∧ m' = m) E := by
  induction fuel generalizing ys x xs with
  | zero => omega
  | succ fuel ih =>
    have hx : ListAt m l (ys ++ x :: (xs ++ zs)) := by rwa [List.append_assoc] at h
    rw [sortedLoop, ends_bind]
    refine hx.ends_next ?_
    cases xs with
    | nil => exact Ends.ite (fun _ => ⟨rfl, rfl⟩) fun hne => absurd rfl hne
    | cons y xs =>
      have hy : ListAt m l (ys ++ [x] ++ (y :: xs ++ zs)) := by simpa using h
      obtain ⟨hxy, hrest⟩ := List.isChain_cons_cons.mp hsorted
      refine Ends.ite (fun _ => ⟨rfl, rfl⟩) fun _ => ?_
      rw [ends_bind]
      refine hy.ends_prev ?_
      rw [Header.lastOf_concat]
      refine Ends.ite (fun hless => absurd hless (before_iff.mp hxy)) fun _ => ?_
      exact ih (Nat.lt_of_succ_lt_succ hfuel) (by rwa [List.append_assoc]) hrest

lemma ends_isSorted (hfuel : xs.length ≤ fuel) (h : ListAt m l (ys ++ xs ++ zs))
    (hsorted : xs.IsChain fun a b => before less a b = true) :
    Ends (isSorted less fuel (l.firstOf (xs ++ zs)) (l.firstOf zs)) m (fun r m' => r = true ∧ m' = m) E := by
  rw [isSorted]
  refine Ends.ite (fun _ => ⟨rfl, rfl⟩) fun hne => ?_
  cases xs with
  | nil => exact absurd rfl hne
  | cons x xs => exact ends_sortedLoop hfuel h hsorted

variable {Q : P → Links P → Prop}

lemma ends_runLoop (hfuel : xs.length < fuel) (h : ListAt m l (ys ++ x :: xs))
    (hq : Q (l.firstOf (splitRun less x xs).2) m) : Ends (runLoop less fuel x l.tail) m Q E := by
  induction fuel generalizing ys x xs with
  | zero => omega
  | succ fuel ih =>
    rw [runLoop, ends_bind]
    refine h.ends_next ?_
    cases xs with
    | nil => exact Ends.ite (fun _ => hq) fun hne => absurd rfl hne
    | cons y xs =>
      have hy : ListAt m l (ys ++ [x] ++ y :: xs) := by rwa [List.append_assoc]
      refine Ends.ite (fun he => ?_) fun _ => ?_
      · exact absurd (hy.firstOf_eq_tail.mp he) (List.cons_ne_nil _ _)
      · rw [ends_bind]
        refine hy.ends_prev ?_
        rw [Header.lastOf_concat, Header.firstOf_cons]
        rw [splitRun] at hq
        refine Ends.ite (fun hless => ?_) fun hless => ?_
        · rwa [if_pos hless] at hq
        · rw [if_neg hless] at hq
          exact ih (Nat.lt_of_succ_lt_succ hfuel) hy hq

lemma ends_findEndOfRun (hfuel : zs.length ≤ fuel) (hzs : zs ≠ []) (h : ListAt m l (ys ++ zs))
    (hq : ∀ as rest, StartsWithRun less zs as rest → Q (l.firstOf rest) m) :
    Ends (findEndOfRun less fuel (l.firstOf zs) l.tail) m Q E := by
  obtain ⟨x, xs, rfl⟩ := List.exists_cons_of_ne_nil hzs
  rw [findEndOfRun, ends_bind]
  refine ends_check (decide_eq_true fun he => hzs (h.firstOf_eq_tail.mp he)) (ends_runLoop hfuel h ?_)
  exact hq _ _ (startsWithRun_splitRun less x xs)

end Walks

section Merging

variable {as bs S : List P}

lemma ends_mergeLoop (hfuel : as.length + bs.length < fuel) (h : ListAt m l (ys ++ as ++ bs ++ zs))
    (hS : l.nodes (ys ++ as ++ bs ++ zs) ⊆ S) :
    Ends (mergeLoop less fuel (l.firstOf (as ++ bs ++ zs)) (l.firstOf (bs ++ zs)) (l.firstOf zs)) m
      (fun _ m' => ListAt m' l (ys ++ as.merge bs (before less) ++ zs) ∧ SameOff S m m') E := by
  induction fuel generalizing m ys as bs with
  | zero => omega
  | succ fuel ih =>
    rw [mergeLoop]
    cases as with
    | nil =>
      rw [List.append_nil] at h
      refine Ends.ite (fun hc => absurd rfl hc.1) fun _ => ?_
      rw [List.nil_merge]
      exact ⟨h, .refl _ _⟩
    | cons a as =>
      cases bs with
      | nil =>
        rw [List.append_nil] at h
        refine Ends.ite (fun hc => absurd rfl hc.2) fun _ => ?_
        rw [List.merge_right]
        exact ⟨h, .refl _ _⟩
      | cons b bs =>
        have ha : ListAt m l (ys ++ a :: (as ++ b :: bs ++ zs)) := by simpa using h
        have hab : ListAt m l (ys ++ a :: as ++ b :: (bs ++ zs)) := by simpa using h
        have hne : l.firstOf (a :: as ++ b :: bs ++ zs) ≠ l.firstOf (b :: bs ++ zs) ∧
            l.firstOf (b :: bs ++ zs) ≠ l.firstOf zs :=
          ⟨fun he => List.cons_ne_nil a as (hab.firstOf_eq.mp he), fun he => List.cons_ne_nil b bs (h.firstOf_eq.mp he)⟩
        rw [if_pos hne, List.cons_merge_cons]
        refine Ends.ite (fun hless => ?_) fun hless => ?_
        · rw [if_pos (show before less a b = true from hless), ends_bind]
          refine ha.ends_next ?_
          have hstep : ListAt m l (ys ++ [a] ++ as ++ b :: bs ++ zs) := by simpa using h
          have hrest := ih (by simp only [List.length_cons] at hfuel ⊢; omega) hstep (by simpa using hS)
          rwa [List.append_assoc ys [a]] at hrest
        · have hb : ListAt m l (ys ++ a :: as ++ [b] ++ (bs ++ zs)) := by simpa using h
          have hsplit : ys ++ a :: as ++ (bs ++ zs) = ys ++ (a :: as ++ (bs ++ zs)) := List.append_assoc _ _ _
          rw [if_neg (show ¬ before less a b = true from hless), ends_bind]
          refine hab.ends_next ?_
          rw [ends_bind]
          refine hb.ends_prev ?_
          rw [Header.lastOf_concat, ends_bind]
          have hspliced := hb.ends_spliceWithin (E := E) hsplit
          rw [← List.append_assoc] at hspliced
          refine hspliced.imp fun _ m₁ hm => ?_
          have hstep : ListAt m₁ l (ys ++ [b] ++ a :: as ++ bs ++ zs) := by simpa using hm.1
          have hsub : l.nodes (ys ++ [b] ++ a :: as ++ bs ++ zs) ⊆ S := fun x hx => hS (by
            simp only [Header.mem_nodes, List.mem_append, List.mem_cons, List.not_mem_nil, or_false] at hx ⊢
            tauto)
          have hrest := ih (by simp only [List.length_cons] at hfuel ⊢; omega) hstep hsub
          rw [List.append_assoc ys [b]] at hrest
          refine hrest.imp fun _ m' hm' => ⟨hm'.1, .trans (hm.2.mono ?_) hm'.2⟩
          simpa using hS

lemma ends_inplaceMerge (hfuel : as.length + bs.length < fuel) (h : ListAt m l (ys ++ as ++ bs ++ zs))
    (has : as.IsChain fun a b => before less a b = true) (hbs : bs.IsChain fun a b => before less a b = true) :
    Ends (inplaceMerge less fuel (l.firstOf (as ++ bs ++ zs)) (l.firstOf (bs ++ zs)) (l.firstOf zs)) m
      (fun _ m' => ListAt m' l (ys ++ as.merge bs (before less) ++ zs) ∧
        SameOff (l.nodes (ys ++ as ++ bs ++ zs)) m m') E := by
  simp only [inplaceMerge, ends_bind]
  have hfirst : ListAt m l (ys ++ as ++ (bs ++ zs)) := by rwa [← List.append_assoc]
  have hsorted := ends_isSorted (E := E) (by omega : as.length ≤ fuel) hfirst has
  rw [← List.append_assoc] at hsorted
  refine hsorted.imp ?_
  rintro _ _ ⟨rfl, rfl⟩
  refine ends_check rfl ((ends_isSorted (by omega : bs.length ≤ fuel) h hbs).imp ?_)
  rintro _ _ ⟨rfl, rfl⟩
  exact ends_check rfl (ends_mergeLoop hfuel h (List.Subset.refl _))

end Merging

section Passes

variable {S : List P} {work cnt : Nat}

structure Pass (less : P → P → Bool) (zs out : List P) (k : Nat) : Prop where
  stable : Stable less zs out
  runs : runCnt less out ≤ k
  halved : 2 * k ≤ runCnt less zs + 1

omit [DecidableEq P] in
lemma Pass.nil : Pass less [] [] 0 := ⟨.refl _ _, Nat.le_refl _, Nat.zero_le _⟩

omit [DecidableEq P] in
lemma Pass.single {as : List P} (h : StartsWithRun less zs as []) : Pass less zs zs 1 := by
  have hcnt : runCnt less zs = 1 := h.cnt
  exact ⟨.refl _ _, hcnt.le, by rw [hcnt]⟩

variable [IsStrictWeakOrder P (less · · = true)]

omit [DecidableEq P] in
lemma Pass.cons {as bs rest zs' out : List P} {k : Nat} (has : StartsWithRun less zs as rest)
    (hbs : StartsWithRun less rest bs zs') (h : Pass less zs' out k) :
    Pass less zs (as.merge bs (before less) ++ out) (k + 1) := by
  have hfirst := ordered_iff_isChain.mpr has.isChain
  have hsecond := ordered_iff_isChain.mpr hbs.isChain
  have hstable := (Stable.merge hfirst hsecond).append h.stable
  rw [List.append_assoc, hbs.append, has.append] at hstable
  refine ⟨hstable, ?_, ?_⟩
  · exact (runCnt_append_le (ordered_iff_isChain.mp (hfirst.merge hsecond)) out).trans (Nat.succ_le_succ h.runs)
  · have hhalf := h.halved
    rw [has.cnt, hbs.cnt]
    omega

lemma ends_sortPass (hwork : zs.length < work) (hfuel : zs.length < fuel) (h : ListAt m l (ys ++ zs))
    (hS : l.nodes (ys ++ zs) ⊆ S) :
    Ends (sortPass less l work fuel (l.firstOf zs) cnt) m
      (fun r m' => ∃ out k, r = cnt + k ∧ Pass less zs out k ∧ ListAt m' l (ys ++ out) ∧ SameOff S m m') E := by
  induction fuel generalizing m ys zs cnt with
  | zero => omega
  | succ fuel ih =>
    rw [sortPass]
    refine Ends.ite (fun he => ?_) fun hne => ?_
    · obtain rfl := h.firstOf_eq_tail.mp he
      exact ⟨[], 0, rfl, .nil, h, .refl _ _⟩
    rw [ends_bind]
    refine ends_findEndOfRun hwork.le (fun he => hne (h.firstOf_eq_tail.mpr he)) h fun as rest has => ?_
    have hrest : ListAt m l (ys ++ as ++ rest) := by rwa [List.append_assoc, has.append]
    have hlen := has.length_eq
    refine Ends.ite (fun he => ?_) fun hne => ?_
    · obtain rfl := hrest.firstOf_eq_tail.mp he
      exact ⟨zs, 1, rfl, .single has, h, .refl _ _⟩
    rw [ends_bind]
    refine ends_findEndOfRun (by omega) (fun he => hne (hrest.firstOf_eq_tail.mpr he)) hrest fun bs zs' hbs => ?_
    have hruns : ListAt m l (ys ++ as ++ bs ++ zs') := by rwa [List.append_assoc, hbs.append]
    have hsub : l.nodes (ys ++ as ++ bs ++ zs') ⊆ S := by
      rwa [List.append_assoc (ys ++ as), hbs.append, List.append_assoc, has.append]
    have hsub' : l.nodes (ys ++ as.merge bs (before less) ++ zs') ⊆ S := fun x hx => hsub (by
      simp only [Header.mem_nodes, List.mem_append, List.mem_merge] at hx ⊢
      tauto)
    have hlen' := hbs.length_eq
    have hmerge := ends_inplaceMerge (E := E) (by omega : as.length + bs.length < work) hruns has.isChain hbs.isChain
    rw [List.append_assoc as, hbs.append, has.append] at hmerge
    rw [ends_bind]
    refine hmerge.imp fun _ m₁ hm => ?_
    refine (ih (by omega) (by omega) hm.1 hsub').imp fun r m' hm' => ?_
    obtain ⟨out, k, rfl, hpass, hat, hsame⟩ := hm'
    refine ⟨_, k + 1, by omega, hpass.cons has hbs, ?_, .trans (hm.2.mono hsub) hsame⟩
    rwa [← List.append_assoc]

lemma ends_sortLoop (hwork : xs.length < work) (hfuel : runCnt less xs < fuel) (h : ListAt m l xs)
    (hS : l.nodes xs ⊆ S) :
    Ends (sortLoop less l work fuel) m
      (fun _ m' => ∃ out, StableSort less xs out ∧ ListAt m' l out ∧ SameOff S m m') E := by
  induction fuel generalizing m xs with
  | zero => omega
  | succ fuel ih =>
    rw [sortLoop, ends_bind]
    refine h.ends_begin ?_
    rw [ends_bind]
    refine (ends_sortPass hwork hwork (show ListAt m l ([] ++ xs) from h) hS).imp
      fun r m₁ hm => ?_
    obtain ⟨out, k, rfl, hpass, hat, hsame⟩ := hm
    rw [List.nil_append] at hat
    have hruns := hpass.runs
    have hhalf := hpass.halved
    refine Ends.ite (fun hk => ?_) fun hk => ?_
    · have hsub : l.nodes out ⊆ S := fun x hx => hS (by
        rw [Header.mem_nodes] at hx ⊢
        rwa [← hpass.stable.perm.mem_iff])
      refine (ih (hpass.stable.perm.length_eq ▸ hwork) (by omega) hat hsub).imp fun _ m' hm' => ?_
      obtain ⟨res, hsort, hat', hsame'⟩ := hm'
      exact ⟨res, ⟨hpass.stable.trans hsort.toStable, hsort.ordered⟩, hat', hsame.trans hsame'⟩
    · refine ⟨out, ⟨hpass.stable, ordered_iff_isChain.mpr (isChain_of_runCnt_le_one (by omega))⟩, hat, hsame⟩

lemma ends_listSort (hfuel : xs.length < fuel) (h : ListAt m l xs) :
    Ends (listSort less fuel l) m
      (fun _ m' => ∃ out, StableSort less xs out ∧ ListAt m' l out ∧ SameOff (l.nodes xs) m m') E := by
  rw [listSort, ends_bind]
  have hcnt := runCnt_le_length less xs
  refine (ends_sortLoop hfuel (by omega) h (List.Subset.refl _)).imp fun _ m' hm => ?_
  obtain ⟨out, hsort, hat, hsame⟩ := hm
  rw [ends_bind]
  refine hat.ends_begin ?_
  have hlen := hsort.perm.length_eq
  have hfull : ListAt m' l ([] ++ out ++ []) := by rwa [List.nil_append, List.append_nil]
  have hchecked := ends_isSorted (E := E) (by omega : out.length ≤ fuel) hfull (ordered_iff_isChain.mp hsort.ordered)
  rw [List.append_nil] at hchecked
  rw [ends_bind]
  refine hchecked.imp ?_
  rintro _ _ ⟨rfl, rfl⟩
  exact ends_check rfl ⟨out, hsort, hat, hsame⟩

end Passes

theorem list_sort_sorts (less : P → P → Bool) [IsStrictWeakOrder P (less · · = true)] (m : Links P) (l : Header P)
    (xs : List P) (h : ListAt m l xs) :
    ∃ n, ∀ fuel, n ≤ fuel → ∃ m' out, listSort less fuel l m = .ok () m' ∧ ListAt m' l out ∧
      StableSort less xs out ∧ SameOff (l.nodes xs) m m' := by
  refine ⟨xs.length + 1, fun fuel hfuel => ?_⟩
  have hends : Ends (listSort less fuel l) m _ fun _ _ => False := ends_listSort hfuel h
  obtain ⟨_, m', hrun, out, hsort, hat, hsame⟩ := hends.exists_ok
  exact ⟨m', out, hrun, hat, hsort, hsame⟩

def byKey (f : Nat → Nat) (a b : Nat) : Bool := decide (f a < f b)

instance (f : Nat → Nat) : IsStrictWeakOrder Nat (byKey f · · = true) where
  irrefl a h := Nat.lt_irrefl _ (of_decide_eq_true h)
  trans a b c h h' := decide_eq_true (Nat.lt_trans (of_decide_eq_true h) (of_decide_eq_true h'))
  incomp_trans a b c h h' := by
    simp only [byKey, decide_eq_true_eq] at *
    omega

theorem list_sort_sorts_by_parity :
    ∃ n, ∀ fuel, n ≤ fuel → ∃ m' out, listSort (byKey (· % 2)) fuel ⟨0, 5⟩ twoLists = .ok () m' ∧ ListAt m' ⟨0, 5⟩ out ∧
      StableSort (byKey (· % 2)) [1, 2, 3, 4] out ∧ SameOff [0, 1, 2, 3, 4, 5] twoLists m' :=
  list_sort_sorts (byKey (· % 2)) twoLists ⟨0, 5⟩ [1, 2, 3, 4] (queues_twoLists.wellFormed 0)

section Insertion

variable {e : P} {S : List P}

lemma ends_insertLoop {Q : P → Links P → Prop} (hfuel : zs.length < fuel) (h : ListAt m l (ys ++ zs))
    (hq : ∀ us vs, zs = us ++ vs → zs.orderedInsert (less · · = true) e = us ++ e :: vs → Q (l.firstOf vs) m) :
    Ends (insertLoop less l e fuel (l.firstOf zs)) m Q E := by
  induction fuel generalizing ys zs with
  | zero => omega
  | succ fuel ih =>
    rw [insertLoop]
    cases zs with
    | nil => exact Ends.ite (fun _ => hq [] [] rfl rfl) fun hne => absurd rfl hne
    | cons z zs =>
      refine Ends.ite (fun he => absurd (h.firstOf_eq_tail.mp he) (List.cons_ne_nil _ _)) fun _ => ?_
      rw [List.orderedInsert_cons] at hq
      refine Ends.ite (fun hless => ?_) fun hless => ?_
      · exact hq [] (z :: zs) rfl (if_pos hless)
      · rw [ends_bind]
        refine h.ends_next (ih (Nat.lt_of_succ_lt_succ hfuel) (show ListAt m l (ys ++ [z] ++ zs) by simpa using h) ?_)
        intro us vs hsplit hins
        exact hq (z :: us) vs (congrArg (z :: ·) hsplit) ((if_neg hless).trans (congrArg (z :: ·) hins))

lemma ListAt.ends_insertOrdered (hfuel : xs.length < fuel) (h : ListAt m l xs) (he : e ∉ l.nodes xs) :
    Ends (listInsertOrdered less fuel l e) m
      (fun _ m' => ListAt m' l (xs.orderedInsert (less · · = true) e) ∧ SameOff (e :: l.nodes xs) m m') E := by
  rw [listInsertOrdered, ends_bind]
  refine h.ends_begin ?_
  rw [ends_bind]
  refine ends_insertLoop hfuel (show ListAt m l ([] ++ xs) from h) fun us vs hsplit hins => ?_
  rw [hins, hsplit]
  rw [hsplit] at h he
  exact h.ends_insert he

omit [DecidableEq P] in
-- `R ys zs`: once `ys` have been added, the list holds `zs`
lemma ends_addAll {R : List P → List P → Prop} {f : P → ListM P Unit} (hperm : ∀ {ys zs}, R ys zs → zs.Perm ys)
    (hstep : ∀ {m ys zs x}, ListAt m l zs → R ys zs → ys.length < fuel → x ∉ l.nodes zs → Ends (f x) m
      (fun _ m' => ∃ out, R (ys ++ [x]) out ∧ ListAt m' l out ∧ SameOff (x :: l.nodes zs) m m') E)
    (hfuel : (ys ++ xs).length < fuel) (h : ListAt m l zs) (hR : R ys zs) (hnodup : (l.nodes (ys ++ xs)).Nodup)
    (hS : l.nodes (ys ++ xs) ⊆ S) :
    Ends (forM xs f) m (fun _ m' => ∃ out, R (ys ++ xs) out ∧ ListAt m' l out ∧ SameOff S m m') E := by
  induction xs generalizing m ys zs with
  | nil =>
    rw [List.append_nil]
    exact ⟨zs, hR, h, .refl _ _⟩
  | cons x xs ih =>
    have hnodes : l.nodes zs ⊆ l.nodes (ys ++ xs) := fun y hy => by
      simp only [Header.mem_nodes, (hperm hR).mem_iff, List.mem_append] at hy ⊢
      tauto
    have hx : x ∉ l.nodes zs := fun hin => Header.notMem_nodes hnodup (hnodes hin)
    have hlen := hfuel
    rw [List.length_append] at hlen
    rw [List.forM_cons, ends_bind]
    refine (hstep h hR (by omega) hx).imp fun _ m₁ hm => ?_
    obtain ⟨out, hout, hat, hsame⟩ := hm
    rw [List.append_cons] at hfuel hnodup hS ⊢
    have hsub : x :: l.nodes zs ⊆ S :=
      List.cons_subset.mpr ⟨hS (l.subset_nodes ys [x] xs List.mem_cons_self),
        fun y hy => hS (l.nodes_subset ys [x] xs (hnodes hy))⟩
    refine (ih hfuel hat hout hnodup hS).imp fun _ m' hm => ?_
    obtain ⟨out', hout', hat', hsame'⟩ := hm
    exact ⟨out', hout', hat', (hsame.mono hsub).trans hsame'⟩

theorem insert_ordered_eq_sort (less : P → P → Bool) [IsStrictWeakOrder P (less · · = true)] (m : Links P)
    (l : Header P) (xs : List P) (h : ListAt m l []) (hnodup : (l.nodes xs).Nodup) :
    ∃ n, ∀ fuel, n ≤ fuel → ∃ m' out, forM xs (listInsertOrdered less fuel l) m = .ok () m' ∧
      (do forM xs (listPushBack l); listSort less fuel l) m = .ok () m' ∧ ListAt m' l out ∧ StableSort less xs out := by
  refine ⟨xs.length + 1, fun fuel hfuel => ?_⟩
  have hempty : StableSort less ([] : List P) [] := ⟨.refl _ _, .nil⟩
  have hinsert : Ends (forM xs (listInsertOrdered less fuel l)) m (fun _ m' => ∃ out, StableSort less xs out ∧
      ListAt m' l out ∧ SameOff (l.nodes xs) m m') fun _ _ => False :=
    ends_addAll (fun hR => hR.perm) (fun h hR hlt hx => (h.ends_insertOrdered (hR.perm.length_eq ▸ hlt) hx).imp
      fun _ _ hm => ⟨_, hR.insert _, hm⟩)
      (show ([] ++ xs).length < fuel from hfuel) h hempty hnodup (List.Subset.refl _)
  have hsort : Ends (do forM xs (listPushBack l); listSort less fuel l) m (fun _ m' => ∃ out, StableSort less xs out ∧
      ListAt m' l out ∧ SameOff (l.nodes xs) m m') fun _ _ => False := by
    rw [ends_bind]
    refine (ends_addAll (R := fun ys zs => zs = ys) (fun he => he ▸ .refl _) (fun h he _ hx => ?_)
      (show ([] ++ xs).length < fuel from hfuel) h rfl hnodup (List.Subset.refl _)).imp fun _ m₁ hm => ?_
    · subst he
      exact (h.ends_pushBack hx).imp fun _ _ hm => ⟨_, rfl, hm⟩
    obtain ⟨_, rfl, hat₁, hsame₁⟩ := hm
    refine (ends_listSort hfuel hat₁).imp fun _ m' hm' => ?_
    obtain ⟨out, hout, hat, hsame⟩ := hm'
    exact ⟨out, hout, hat, hsame₁.trans hsame⟩
  obtain ⟨_, m₁, hrun₁, out₁, hsort₁, hat₁, hsame₁⟩ := hinsert.exists_ok
  obtain ⟨_, m₂, hrun₂, out₂, hsort₂, hat₂, hsame₂⟩ := hsort.exists_ok
  obtain rfl := hsort₁.unique hsort₂
  have hsame : SameOff (l.nodes out₁) m₁ m₂ := fun x hx => by
    have hx' : x ∉ l.nodes xs := by simpa only [Header.mem_nodes, hsort₁.perm.mem_iff] using hx
    exact ⟨(hsame₂ x hx').1.trans (hsame₁ x hx').1.symm, (hsame₂ x hx').2.trans (hsame₁ x hx').2.symm⟩
  obtain rfl := hat₁.eq_of_sameOff hat₂ hsame
  exact ⟨m₂, out₁, hrun₁, hrun₂, hat₁, hsort₁⟩

theorem insert_ordered_eq_sort_by_parity :
    ∃ n, ∀ fuel, n ≤ fuel → ∃ m' out, forM [1, 2, 3, 4] (listInsertOrdered (byKey (· % 2)) fuel ⟨6, 9⟩)
        ⟨update (fun _ => none) 9 (some 6), update (fun _ => none) 6 (some 9)⟩ = .ok () m' ∧
      (do forM [1, 2, 3, 4] (listPushBack ⟨6, 9⟩); listSort (byKey (· % 2)) fuel ⟨6, 9⟩)
        ⟨update (fun _ => none) 9 (some 6), update (fun _ => none) 6 (some 9)⟩ = .ok () m' ∧
      ListAt m' ⟨6, 9⟩ out ∧ StableSort (byKey (· % 2)) [1, 2, 3, 4] out :=
  insert_ordered_eq_sort (byKey (· % 2)) _ ⟨6, 9⟩ [1, 2, 3, 4]
    ⟨by simp [Path, Linked, Header.nodes], rfl, rfl, by decide⟩ (by decide)

end Insertion

section Extremes

variable {a : P} [IsStrictWeakOrder P (less · · = true)]

/-- `a` is the earliest of the largest elements of `xs`. -/
def FirstMax (less : P → P → Bool) (xs : List P) (a : P) : Prop :=
  ∃ us vs, xs = us ++ a :: vs ∧ (∀ u ∈ us, less u a = true) ∧ ∀ v ∈ vs, ¬ less a v = true

omit [DecidableEq P] in
lemma FirstMax.append (h : FirstMax less xs a) (z : P) : FirstMax less (xs ++ [z]) (if less a z then z else a) := by
  obtain ⟨us, vs, rfl, hus, hvs⟩ := h
  split
  · next hz =>
    refine ⟨us ++ a :: vs, [], rfl, fun u hu => ?_, nofun⟩
    rcases List.mem_append.mp hu with hu | hu
    · exact less_trans (hus u hu) hz
    · by_contra hno
      have hau : ¬ less a u = true := (List.mem_cons.mp hu).elim (· ▸ not_less_self _) (hvs u)
      exact before_iff.mp (before_trans (before_iff.mpr hno) (before_iff.mpr hau)) hz
  · next hz => exact ⟨us, vs ++ [z], by simp, hus, by simpa [or_imp, forall_and, hz] using hvs⟩

lemma ends_maxLoop (hfuel : zs.length < fuel) (h : ListAt m l (ys ++ zs)) (ha : FirstMax less ys a) :
    Ends (maxLoop less l fuel a (l.firstOf zs)) m (fun b m' => m' = m ∧ FirstMax less (ys ++ zs) b) E := by
  induction fuel generalizing a ys zs with
  | zero => omega
  | succ fuel ih =>
    rw [maxLoop]
    cases zs with
    | nil => exact Ends.ite (fun _ => ⟨rfl, (List.append_nil ys).symm ▸ ha⟩) fun hne => absurd rfl hne
    | cons z zs =>
      refine Ends.ite (fun he => absurd (h.firstOf_eq_tail.mp he) (List.cons_ne_nil _ _)) fun _ => ?_
      rw [ends_bind]
      refine h.ends_next ?_
      rw [List.append_cons] at h ⊢
      exact ih (Nat.lt_of_succ_lt_succ hfuel) h (ha.append z)

lemma exists_listMax (h : ListAt m l xs) (hfuel : xs.length ≤ fuel) : ∃ a, listMax less fuel l m = .ok a m ∧
    if xs = [] then a = l.tail else FirstMax less xs a := by
  let Q a m' := m' = m ∧ if xs = [] then a = l.tail else FirstMax less xs a
  have hends : Ends (listMax less fuel l) m Q fun _ _ => False := by
    rw [listMax, ends_bind]
    refine h.ends_begin ?_
    cases xs with
    | nil => exact Ends.ite (fun _ => ⟨rfl, rfl⟩) fun hne => absurd rfl hne
    | cons x xs =>
      have h : ListAt m l ([] ++ x :: xs) := h
      refine Ends.ite (fun he => absurd (h.firstOf_eq_tail.mp he) (List.cons_ne_nil _ _)) fun _ => ?_
      rw [ends_bind]
      exact h.ends_next (ends_maxLoop hfuel (List.append_cons [] x xs ▸ h) ⟨[], [], rfl, nofun, nofun⟩)
  obtain ⟨a, _, hrun, rfl, ha⟩ := hends.exists_ok
  exact ⟨a, hrun, ha⟩

lemma exists_listMin (h : ListAt m l xs) (hfuel : xs.length ≤ fuel) : ∃ a, listMin less fuel l m = .ok a m ∧
    if xs = [] then a = l.tail else FirstMax (fun b c => less c b) xs a := by
  have hswap : IsStrictWeakOrder P fun b c => less c b = true :=
    { irrefl := fun _ => not_less_self _
      trans := fun _ _ _ hab hbc => less_trans hbc hab
      incomp_trans := fun a b c hab hbc =>
        (‹IsStrictWeakOrder P (less · · = true)›.incomp_trans a b c hab.symm hbc.symm).symm }
  exact exists_listMax h hfuel

theorem list_max_first (less : P → P → Bool) [IsStrictWeakOrder P (less · · = true)] (m : Links P) (l : Header P)
    (xs : List P) (h : ListAt m l xs) : ∃ n, ∀ fuel, n ≤ fuel → ∃ a, listMax less fuel l m = .ok a m ∧
      if xs = [] then a = l.tail else FirstMax less xs a :=
  ⟨xs.length, fun _ => exists_listMax h⟩

theorem list_max_first_by_parity : ∃ n, ∀ fuel, n ≤ fuel → ∃ a,
    listMax (byKey (· % 2)) fuel ⟨0, 5⟩ twoLists = .ok a twoLists ∧
      if [1, 2, 3, 4] = [] then a = 5 else FirstMax (byKey (· % 2)) [1, 2, 3, 4] a :=
  list_max_first (byKey (· % 2)) twoLists ⟨0, 5⟩ [1, 2, 3, 4] (queues_twoLists.wellFormed 0)

end Extremes

end Pintos.Lib
