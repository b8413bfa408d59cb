import Pintos.Lib.HashTables

/-! Fresh buckets, and the moves of all elements from the old buckets to new ones. -/

namespace Pintos.Lib

open Pintos.Foundation Function

variable {P : Type} {m : Links P} {E : Fault → Links P → Prop}

structure FreshBuckets (buckets : Nat → Header P) (n : Nat) (used : P → Prop) : Prop where
  nodup : (headerNodes buckets n).Nodup
  unused : ∀ x ∈ headerNodes buckets n, ¬ used x

section Fresh

variable {buckets : Nat → Header P} {n i j : Nat} {used : P → Prop}

lemma FreshBuckets.head_ne_tail (hf : FreshBuckets buckets n used) (hi : i < n) :
    (buckets i).head ≠ (buckets i).tail := by
  have hnodup := (List.nodup_flatMap.mp hf.nodup).1 i (List.mem_range.mpr hi)
  simpa using hnodup

lemma FreshBuckets.disjoint (hf : FreshBuckets buckets n used) (hi : i < n) (hj : j < n) (hij : i ≠ j) :
    ((buckets i).nodes []).Disjoint ((buckets j).nodes []) := by
  have hsymm : Std.Symm (List.Disjoint on fun i => [(buckets i).head, (buckets i).tail]) := ⟨fun _ _ h => h.symm⟩
  exact (List.nodup_flatMap.mp hf.nodup).2.forall (List.mem_range.mpr hi) (List.mem_range.mpr hj) hij

variable [DecidableEq P]

lemma FreshBuckets.ends_initLoop (hf : FreshBuckets buckets n used) (k i : Nat) (hk : i + k = n)
    (hdone : ∀ j < i, ListAt m (buckets j) []) :
    Ends (initLoop buckets k i) m (fun _ m' =>
      (∀ j < n, ListAt m' (buckets j) []) ∧ SameOff (headerNodes buckets n) m m') E := by
  induction k generalizing m i with
  | zero => exact ⟨fun j hj => hdone j (by omega), .refl _ _⟩
  | succ k ih =>
    have hi : i < n := by omega
    rw [initLoop, ends_bind]
    refine (ends_listInit _ (hf.head_ne_tail hi)).imp fun _ m' hm => ?_
    have hs : SameOff ((buckets i).nodes []) m m' := hm.2
    refine (ih (i + 1) (by omega) fun j hj => ?_).imp fun _ m'' hm' => ⟨hm'.1, ?_⟩
    · rcases eq_or_ne j i with rfl | hne
      · exact hm.1
      · exact hs.listAt (hdone j (by omega)) fun x hx => hf.disjoint (by omega) hi hne hx
    · refine (hs.mono fun x hx => ?_).trans hm'.2
      exact mem_headerNodes.mpr ⟨i, hi, by simpa [Header.nodes] using hx⟩

end Fresh

section Moves

variable [DecidableEq P] {h : Hash P} {k : Nat} {lo : Fin k → Header P} {σ : Fin k → List P}
  {τ : Fin h.bucketCnt → List P}

def Hash.beside (h : Hash P) (lo : Fin k → Header P) : Fin k ⊕ Fin h.bucketCnt → Header P :=
  Sum.elim lo fun j => h.buckets j

lemma ends_moveLoop (hidx : ∀ e, h.idx e < h.bucketCnt) (i : Fin k) (fuel : Nat) (hfuel : (σ i).length < fuel)
    (hq : Queues m (h.beside lo) (Sum.elim σ τ)) :
    Ends (moveLoop h (lo i) fuel ((lo i).firstOf (σ i))) m (fun _ m' => ∃ τ',
      Queues m' (h.beside lo) (Sum.elim (update σ i []) τ') ∧
      ∀ j e, e ∈ τ' j ↔ e ∈ τ j ∨ e ∈ σ i ∧ h.idx e = j) E := by
  induction fuel generalizing m σ τ with
  | zero => omega
  | succ fuel ih =>
    have hat : ListAt m (lo i) ([] ++ σ i) := hq.wellFormed (.inl i)
    rw [moveLoop]
    cases hσ : σ i with
    | nil =>
      rw [hσ] at hat
      refine Ends.ite (fun _ => ⟨τ, ?_, ?_⟩) fun hne => absurd rfl hne
      · rwa [← hσ, update_eq_self]
      · simp
    | cons z zs =>
      rw [hσ] at hat
      refine Ends.ite (fun heq => absurd (hat.firstOf_eq_tail.mp heq) (List.cons_ne_nil _ _)) fun _ => ?_
      have hfront : Sum.elim σ τ (.inl i) = [] ++ z :: zs := hσ
      have hfree := hq.removed_notMem hfront
      simp only [ends_bind]
      refine hat.ends_next ((hq.ends_remove hfront).imp fun _ m₁ h₁ => ?_)
      refine (h₁.2.1.ends_pushFront (.inr ⟨h.idx z, hidx z⟩) hfree).imp fun _ m₂ h₂ => ?_
      have hq₂ := h₂.1
      rw [Sum.update_elim_inl, Sum.update_elim_inr, List.nil_append, Sum.elim_inr] at hq₂
      have hzs : update σ i zs i = zs := update_self _ _ _
      have hshort : (update σ i zs i).length < fuel := by
        rw [hσ, List.length_cons] at hfuel
        rw [hzs]
        exact Nat.lt_of_succ_lt_succ hfuel
      have hrest := ih hshort hq₂
      rw [hzs, update_idem] at hrest
      refine hrest.imp fun _ m' hm => ?_
      obtain ⟨τ', hq', hmem⟩ := hm
      refine ⟨τ', hq', fun j e => ?_⟩
      rw [hmem, List.mem_cons, or_and_right, ← or_assoc]
      apply or_congr_left
      rcases eq_or_ne j ⟨h.idx z, hidx z⟩ with rfl | hj
      · rw [update_self, List.mem_cons, or_comm, and_iff_left_of_imp]
        rintro rfl
        rfl
      · rw [update_of_ne hj, iff_self_or]
        rintro ⟨rfl, he⟩
        exact absurd (Fin.ext he.symm) hj

lemma ends_moveAll (hidx : ∀ e, h.idx e < h.bucketCnt) {old : Nat → Header P} (n i : Nat) (hn : i + n = k)
    (hlen : ∀ j, (σ j).length ≤ h.elemCnt) (hq : Queues m (h.beside fun j : Fin k => old j) (Sum.elim σ τ)) :
    Ends (moveAll h old n i) m (fun _ m' => ∃ σ' τ',
      Queues m' (h.beside fun j : Fin k => old j) (Sum.elim σ' τ') ∧
      ∀ j e, e ∈ τ' j ↔ e ∈ τ j ∨ (∃ a : Fin k, i ≤ a ∧ e ∈ σ a) ∧ h.idx e = j) E := by
  induction n generalizing m σ τ i with
  | zero =>
    refine ⟨σ, τ, hq, fun j e => (or_iff_left ?_).symm⟩
    rintro ⟨⟨a, ha, -⟩, -⟩
    exact absurd a.isLt (by omega)
  | succ n ih =>
    rw [moveAll, ends_bind]
    have hi : i < k := by omega
    refine ListAt.ends_begin (hq.wellFormed (.inl ⟨i, hi⟩)) ?_
    rw [ends_bind]
    have hmove := ends_moveLoop (E := E) hidx ⟨i, hi⟩ (h.elemCnt + 1) (Nat.lt_succ_of_le (hlen _)) hq
    refine hmove.imp fun _ m₁ h₁ => ?_
    obtain ⟨τ₁, hq₁, hmem₁⟩ := h₁
    have hlen₁ : ∀ j, (update σ ⟨i, hi⟩ [] j).length ≤ h.elemCnt := by
      intro j
      rcases eq_or_ne j ⟨i, hi⟩ with rfl | hj
      · simp
      · rw [update_of_ne hj]
        exact hlen j
    refine (ih (i + 1) (by omega) hlen₁ hq₁).imp fun _ m' hm => ?_
    obtain ⟨σ', τ', hq', hmem'⟩ := hm
    refine ⟨σ', τ', hq', fun j e => ?_⟩
    rw [hmem', hmem₁, or_assoc, ← or_and_right]
    refine or_congr_right (and_congr_left' ⟨?_, ?_⟩)
    · rintro (he | ⟨a, ha, he⟩)
      · exact ⟨⟨i, hi⟩, le_rfl, he⟩
      · have hne : a ≠ ⟨i, hi⟩ := fun heq => Nat.ne_of_gt ha (Fin.ext_iff.mp heq)
        exact ⟨a, by omega, by rwa [update_of_ne hne] at he⟩
    · rintro ⟨a, ha, he⟩
      rcases eq_or_ne a ⟨i, hi⟩ with rfl | hne
      · exact .inl he
      · have hval : (a : Nat) ≠ i := fun heq => hne (Fin.ext heq)
        exact .inr ⟨a, by omega, by rwa [update_of_ne hne]⟩

end Moves

section Rehash

variable {h : Hash P} {X : Finset P} {answer : Option (Nat → Header P)}

def Hash.uses (h : Hash P) (X : Finset P) (x : P) : Prop := x ∈ X ∨ x ∈ headerNodes h.buckets h.bucketCnt

lemma Chained.beside {σ : Fin h.bucketCnt → List P} {m' : Links P} {buckets : Nat → Header P} {n : Nat}
    (hc : Chained m h X σ) (hf : FreshBuckets buckets n (h.uses X))
    (hinit : ∀ j < n, ListAt m' (buckets j) []) (hs : SameOff (headerNodes buckets n) m m') :
    Queues m' (Sum.elim (fun i : Fin h.bucketCnt => h.buckets i) fun j : Fin n => buckets j)
      (Sum.elim σ fun _ => []) := by
  have hold : ∀ i : Fin h.bucketCnt, ∀ x ∈ (h.buckets i).nodes (σ i), x ∉ headerNodes buckets n := by
    intro i x hx hin
    have hused := hf.unused x hin
    rw [Hash.uses, not_or] at hused
    exact hc.notMem_nodes hused.1 hused.2 i hx
  have hnew : ∀ j : Fin n, (buckets j).nodes [] ⊆ headerNodes buckets n := fun j x hx =>
    mem_headerNodes.mpr ⟨j, j.isLt, by simpa [Header.nodes] using hx⟩
  constructor
  · rintro (i | j)
    · exact hs.listAt (hc.queues.wellFormed i) (hold i)
    · exact hinit j j.isLt
  · rintro (i | i) (j | j) hij
    · exact hc.queues.disjoint i j fun heq => hij (congrArg _ heq)
    · exact fun x hx hx' => hold i x hx (hnew j hx')
    · exact fun x hx hx' => hold j x hx' (hnew i hx)
    · exact hf.disjoint i.isLt j.isLt fun heq => hij (congrArg _ (Fin.ext heq))

variable [DecidableEq P]

lemma Table.ends_rehash (ht : Table m h X)
    (hf : ∀ buckets, answer = some buckets → FreshBuckets buckets (newBucketCnt X.card) (h.uses X)) :
    Ends (rehash h answer) m (fun h' m' => h'.hash = h.hash ∧ h'.less = h.less ∧ Table m' h' X) E := by
  unfold rehash
  refine Ends.ite (fun _ => ⟨rfl, rfl, ht⟩) fun _ => ?_
  cases answer with
  | none => exact ⟨rfl, rfl, ht⟩
  | some buckets =>
    obtain ⟨σ, hc⟩ := ht.chains
    obtain ⟨k, hk, hpow⟩ := newBucketCnt_spec X.card
    have hfresh := hf buckets rfl
    rw [← ht.cnt] at hpow hfresh
    simp only [ends_bind, ends_pure]
    refine (hfresh.ends_initLoop _ 0 (Nat.zero_add _) (by simp)).imp fun _ m₁ h₁ => ?_
    have hlen : ∀ j, (σ j).length ≤ h.elemCnt := fun j => ht.cnt ▸ hc.length_le j
    let h' : Hash P := { h with buckets, bucketCnt := newBucketCnt h.elemCnt }
    have hmove := ends_moveAll (E := E) (h := h') (idx_lt hpow) h.bucketCnt 0 (Nat.zero_add _) hlen
      (hc.beside hfresh h₁.1 h₁.2)
    refine hmove.imp fun _ m' hm => ?_
    obtain ⟨σ', τ', hq, hmem⟩ := hm
    refine ⟨trivial, trivial, ht.lawful, ⟨k, hk, hpow⟩, ht.cnt, ht.single, τ', ?_, fun j e => ?_⟩
    · refine ⟨fun i => hq.wellFormed (.inr i), fun i j hij => ?_⟩
      exact hq.disjoint (.inr i) (.inr j) fun heq => hij (Sum.inr.inj heq)
    · rw [hmem, ← ht.mem_order hc, mem_chainFrom_zero]
      simp only [Nat.zero_le, true_and]
      exact or_iff_right List.not_mem_nil

end Rehash

end Pintos.Lib
