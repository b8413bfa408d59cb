import Pintos.Lib.Sorting

/-! Removal of adjacent duplicates from a list. -/

namespace Pintos.Lib

open Pintos.Foundation

variable {P : Type} [DecidableEq P] {less : P → P → Bool} {m : Links P} {l : Header P}
  {duplicates : Option (Header P)} {ds xs ys zs S : List P} {a b : P} {E : Fault → Links P → Prop} {fuel : Nat}

def Beside (m : Links P) (l : Header P) (xs : List P) (duplicates : Option (Header P)) (ds : List P) : Prop :=
  ∀ k ∈ duplicates, ListAt m k ds ∧ (l.nodes xs).Disjoint (k.nodes ds)

def Covered (S : List P) (l : Header P) (xs : List P) (duplicates : Option (Header P)) (ds : List P) : Prop :=
  l.nodes xs ⊆ S ∧ ∀ k ∈ duplicates, k.nodes ds ⊆ S

def setAside (duplicates : Option (Header P)) (b : P) : ListM P Unit :=
  match duplicates with
  | some d => listPushBack d b
  | none => pure ()

lemma uniqueLoop_succ (fuel : Nat) (elem : P) : uniqueLoop less l duplicates (fuel + 1) elem = (do
    let next ← listNext elem
    if next = l.tail then return
    else if equivalent less elem next then
      let _ ← listRemove next
      setAside duplicates next
      uniqueLoop less l duplicates fuel elem
    else uniqueLoop less l duplicates fuel next) := by
  cases duplicates <;> rfl

omit [DecidableEq P] in
lemma mem_nodes_concat {k : Header P} {x : P} : x ∈ k.nodes (ds ++ [b]) ↔ x = b ∨ x ∈ k.nodes ds := by
  simp only [Header.mem_nodes, List.mem_append, List.mem_singleton]
  tauto

lemma ends_setAside (h : ListAt m l (ys ++ b :: zs)) (hd : Beside m l (ys ++ b :: zs) duplicates ds)
    (hS : Covered S l (ys ++ b :: zs) duplicates ds) :
    Ends (do let _ ← listRemove b; setAside duplicates b) m
      (fun _ m' => ListAt m' l (ys ++ zs) ∧ Beside m' l (ys ++ zs) duplicates (ds ++ [b]) ∧ SameOff S m m') E := by
  have hb : b ∉ l.nodes (ys ++ zs) := Header.notMem_nodes h.nodup
  have hsplit : ys ++ b :: zs = ys ++ [b] ++ zs := by simp
  have hsub : l.nodes (ys ++ zs) ⊆ l.nodes (ys ++ b :: zs) := hsplit ▸ l.nodes_subset ys [b] zs
  rw [ends_bind]
  refine h.ends_remove.imp fun _ m₁ hm => ?_
  obtain ⟨-, hat, hsame, -⟩ := hm
  cases duplicates with
  | none => exact ⟨hat, fun k hk => absurd hk (Option.not_mem_none k), hsame.mono fun x hx => hS.1 (hsub hx)⟩
  | some k =>
    obtain ⟨hk, hapart⟩ := hd k rfl
    have hin : b ∈ l.nodes (ys ++ b :: zs) := hsplit ▸ l.subset_nodes ys [b] zs List.mem_cons_self
    have hk₁ : ListAt m₁ k ds := hsame.listAt hk fun x hx hs => hapart (hsub hs) hx
    refine (hk₁.ends_pushBack fun hbk => hapart hin hbk).imp fun _ m' hm' => ⟨?_, ?_, ?_⟩
    · refine hm'.2.listAt hat fun x hx hs => ?_
      rcases List.mem_cons.mp hs with rfl | hs
      · exact hb hx
      · exact hapart (hsub hx) hs
    · rintro _ ⟨rfl⟩
      refine ⟨hm'.1, fun x hx hx' => ?_⟩
      rcases mem_nodes_concat.mp hx' with rfl | hx'
      · exact hb hx
      · exact hapart (hsub hx) hx'
    · refine .trans (hsame.mono fun x hx => hS.1 (hsub hx)) (hm'.2.mono ?_)
      exact List.cons_subset.mpr ⟨hS.1 hin, hS.2 k rfl⟩

omit [DecidableEq P] in
lemma Covered.setAside (h : Covered S l (ys ++ b :: zs) duplicates ds) :
    Covered S l (ys ++ zs) duplicates (ds ++ [b]) := by
  have hsplit : ys ++ b :: zs = ys ++ [b] ++ zs := by simp
  rw [hsplit] at h
  refine ⟨fun x hx => h.1 (l.nodes_subset ys [b] zs hx), fun k hk x hx => ?_⟩
  rcases mem_nodes_concat.mp hx with rfl | hx
  · exact h.1 (l.subset_nodes ys [x] zs List.mem_cons_self)
  · exact h.2 k hk hx

lemma ends_uniqueLoop [IsStrictWeakOrder P (less · · = true)] (hfuel : zs.length < fuel)
    (h : ListAt m l (ys ++ a :: zs)) (hd : Beside m l (ys ++ a :: zs) duplicates ds)
    (hS : Covered S l (ys ++ a :: zs) duplicates ds) :
    Ends (uniqueLoop less l duplicates fuel a) m (fun _ m' => ListAt m' l (ys ++ firsts less (a :: zs)) ∧
      Beside m' l (ys ++ firsts less (a :: zs)) duplicates (ds ++ others less (a :: zs)) ∧ SameOff S m m') E := by
  induction fuel generalizing m ys a zs ds with
  | zero => omega
  | succ fuel ih =>
    rw [uniqueLoop_succ, ends_bind]
    refine h.ends_next ?_
    cases zs with
    | nil =>
      refine Ends.ite (fun _ => ⟨h, ?_, .refl _ _⟩) fun hne => absurd rfl hne
      have hnone : ds ++ others less [a] = ds := List.append_nil ds
      rw [hnone]
      exact hd
    | cons b zs =>
      rw [List.append_cons] at h hd hS
      refine Ends.ite (fun he => absurd (h.firstOf_eq_tail.mp he) (List.cons_ne_nil _ _)) fun _ => ?_
      rw [firsts_cons_cons, others_cons_cons]
      refine Ends.ite (fun heq => ?_) fun heq => ?_
      · rw [Header.firstOf_cons] at heq ⊢
        rw [if_pos heq, if_pos heq, List.append_cons]
        have hset := ends_setAside (E := E) h hd hS
        rw [ends_bind] at hset ⊢
        refine hset.imp fun _ _ hm => ?_
        rw [ends_bind]
        refine hm.imp fun _ m₁ hm₁ => ?_
        have hS₁ := hS.setAside
        rw [List.append_assoc] at hm₁ hS₁
        refine (ih (Nat.lt_of_succ_lt_succ hfuel) hm₁.1 hm₁.2.1 hS₁).imp fun _ m' hm' => ?_
        exact ⟨hm'.1, hm'.2.1, hm₁.2.2.trans hm'.2.2⟩
      · rw [Header.firstOf_cons] at heq ⊢
        rw [if_neg heq, if_neg heq]
        have hrest := ih (Nat.lt_of_succ_lt_succ hfuel) h hd hS
        rwa [List.append_assoc] at hrest

lemma ends_listUnique [IsStrictWeakOrder P (less · · = true)] (hfuel : xs.length ≤ fuel) (h : ListAt m l xs)
    (hd : Beside m l xs duplicates ds) (hS : Covered S l xs duplicates ds) :
    Ends (listUnique less fuel l duplicates) m (fun _ m' => ListAt m' l (firsts less xs) ∧
      Beside m' l (firsts less xs) duplicates (ds ++ others less xs) ∧ SameOff S m m') E := by
  rw [listUnique, ends_bind]
  refine h.ends_empty ?_
  cases xs with
  | nil =>
    have hnone : ds ++ others less ([] : List P) = ds := List.append_nil ds
    rw [hnone]
    exact ⟨h, hd, .refl _ _⟩
  | cons a xs =>
    rw [decide_eq_false (List.cons_ne_nil _ _)]
    rw [if_neg Bool.false_ne_true, ends_bind]
    exact h.ends_begin (ends_uniqueLoop hfuel (show ListAt m l ([] ++ a :: xs) from h) hd hS)

theorem list_unique_keeps_firsts (less : P → P → Bool) [IsStrictWeakOrder P (less · · = true)] (m : Links P)
    (l : Header P) (xs : List P) (duplicates : Option (Header P)) (ds : List P) (h : ListAt m l xs)
    (hd : ∀ k ∈ duplicates, ListAt m k ds ∧ (l.nodes xs).Disjoint (k.nodes ds)) :
    (∃ n, ∀ fuel, n ≤ fuel → ∃ m', listUnique less fuel l duplicates m = .ok () m' ∧
      ListAt m' l (firsts less xs) ∧
      (∀ k ∈ duplicates, ListAt m' k (ds ++ others less xs) ∧
        (l.nodes (firsts less xs)).Disjoint (k.nodes (ds ++ others less xs))) ∧
      ∀ x, x ∉ l.nodes xs → (∀ k ∈ duplicates, x ∉ k.nodes ds) → m'.prev x = m.prev x ∧ m'.next x = m.next x) ∧
    (firsts less xs ++ others less xs).Perm xs ∧
    (Ordered less xs → (firsts less xs).Pairwise fun a b => less a b = true) := by
  refine ⟨⟨xs.length, fun fuel hfuel => ?_⟩, firsts_append_others less xs, Ordered.firsts⟩
  have hS : Covered (l.nodes xs ++ duplicates.elim [] fun k => k.nodes ds) l xs duplicates ds := by
    refine ⟨List.subset_append_left _ _, fun k hk => ?_⟩
    obtain rfl := Option.mem_def.mp hk
    exact List.subset_append_right _ _
  have hends : Ends (listUnique less fuel l duplicates) m _ fun _ _ => False := ends_listUnique hfuel h hd hS
  obtain ⟨_, m', hrun, hat, hdup, hsame⟩ := hends.exists_ok
  refine ⟨m', hrun, hat, hdup, fun x hx hx' => hsame x fun hin => ?_⟩
  rcases List.mem_append.mp hin with hin | hin
  · exact hx hin
  · cases duplicates with
    | none => exact List.not_mem_nil hin
    | some k => exact hx' k rfl hin

theorem list_unique_keeps_firsts_by_halves :
    (∃ n, ∀ fuel, n ≤ fuel → ∃ m', listUnique (byKey (· / 2)) fuel ⟨0, 5⟩ (some ⟨6, 9⟩) twoLists = .ok () m' ∧
      ListAt m' ⟨0, 5⟩ (firsts (byKey (· / 2)) [1, 2, 3, 4]) ∧
      (∀ k ∈ some ⟨6, 9⟩, ListAt m' k ([7, 8] ++ others (byKey (· / 2)) [1, 2, 3, 4]) ∧
        ((Header.mk 0 5).nodes (firsts (byKey (· / 2)) [1, 2, 3, 4])).Disjoint
          (k.nodes ([7, 8] ++ others (byKey (· / 2)) [1, 2, 3, 4]))) ∧
      ∀ x, x ∉ (Header.mk 0 5).nodes [1, 2, 3, 4] → (∀ k ∈ some (Header.mk 6 9), x ∉ k.nodes [7, 8]) →
        m'.prev x = twoLists.prev x ∧ m'.next x = twoLists.next x) ∧
    (firsts (byKey (· / 2)) [1, 2, 3, 4] ++ others (byKey (· / 2)) [1, 2, 3, 4]).Perm [1, 2, 3, 4] ∧
    (Ordered (byKey (· / 2)) [1, 2, 3, 4] →
      (firsts (byKey (· / 2)) [1, 2, 3, 4]).Pairwise fun a b => (byKey (· / 2)) a b = true) :=
  list_unique_keeps_firsts (byKey (· / 2)) twoLists ⟨0, 5⟩ [1, 2, 3, 4] (some ⟨6, 9⟩) [7, 8]
    (queues_twoLists.wellFormed 0)
    fun _ hk => Option.mem_some_iff.mp hk ▸ ⟨queues_twoLists.wellFormed 1, queues_twoLists.disjoint 0 1 (by decide)⟩

end Pintos.Lib
