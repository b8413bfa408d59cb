import Pintos.Lib.HashRuns

/-! Iteration over a hash table. -/

namespace Pintos.Lib

open Pintos.Foundation Function

variable {P : Type} [DecidableEq P]

def visitLoop (h : Hash P) : Nat → HashIterator P → ListM P (List P)
  | 0, _ => throw .unfinished
  | fuel + 1, i => do
    let i ← hashNext h i
    match hashCur i with
    | none => return []
    | some e => return e :: (← visitLoop h fuel i)

def visitAll (h : Hash P) : ListM P (List P) := visitLoop h (h.elemCnt + 1) (hashFirst h)

variable {m : Links P} {h : Hash P} {X : Finset P} {σ : Fin h.bucketCnt → List P} {E : Fault → Links P → Prop}
  {i : HashIterator P} {rest : List P}

structure Before (h : Hash P) (σ : Fin h.bucketCnt → List P) (i : HashIterator P) (rest : List P) : Prop where
  exists_node : ∃ (b : Fin h.bucketCnt) (z : P) (zs : List P), i = ⟨b, some z⟩ ∧ rest = zs ++ chainFrom σ (b + 1) ∧
    (z = (h.buckets b).head ∧ zs = σ b ∨ ∃ ys, σ b = ys ++ z :: zs)

omit [DecidableEq P] in
lemma before_hashFirst (hpos : 0 < h.bucketCnt) : Before h σ (hashFirst h) (chainFrom σ 0) :=
  ⟨⟨0, hpos⟩, _, _, rfl, chainFrom_of_lt σ hpos, .inl ⟨rfl, rfl⟩⟩

lemma Chained.ends_nextLoop (hc : Chained m h X σ) {ys zs : List P} (b : Fin h.bucketCnt) (fuel : Nat)
    (hfuel : h.bucketCnt - b ≤ fuel) (hσ : σ b = ys ++ zs) :
    Ends (nextLoop h fuel b ((h.buckets b).firstOf zs)) m (fun i m' => m' = m ∧
      (zs ++ chainFrom σ (b + 1) = [] → i.elem = none) ∧
      ∀ e rest, zs ++ chainFrom σ (b + 1) = e :: rest → i.elem = some e ∧ Before h σ i rest) E := by
  induction fuel generalizing b ys zs with
  | zero => exact absurd b.isLt (by omega)
  | succ fuel ih =>
    have hat : ListAt m (h.buckets b) (ys ++ zs) := hσ ▸ hc.queues.wellFormed b
    rw [nextLoop]
    refine Ends.ite (fun heq => Ends.ite (fun hlast => ?_) fun hmore => ?_) fun hne => ?_
    · obtain rfl := hat.firstOf_eq_tail.mp heq
      rw [chainFrom_of_le σ hlast]
      exact ⟨rfl, fun _ => rfl, nofun⟩
    · obtain rfl := hat.firstOf_eq_tail.mp heq
      rw [Nat.not_le] at hmore
      rw [List.nil_append, chainFrom_of_lt σ hmore, ends_bind]
      refine (hc.queues.wellFormed ⟨b + 1, hmore⟩).ends_begin ?_
      exact ih ⟨b + 1, hmore⟩ (by simp only; omega) (List.nil_append _).symm
    · obtain ⟨z, zs, rfl⟩ := List.exists_cons_of_ne_nil fun hnil => hne (hat.firstOf_eq_tail.mpr hnil)
      refine ⟨rfl, nofun, fun e rest hcons => ?_⟩
      obtain ⟨rfl, rfl⟩ := List.cons.inj hcons
      exact ⟨rfl, b, z, zs, rfl, rfl, .inr ⟨ys, hσ⟩⟩

lemma Chained.ends_hashNext (hc : Chained m h X σ) (hi : Before h σ i rest) :
    Ends (hashNext h i) m (fun i' m' => m' = m ∧ (rest = [] → i'.elem = none) ∧
      ∀ e rest', rest = e :: rest' → i'.elem = some e ∧ Before h σ i' rest') E := by
  obtain ⟨b, z, zs, rfl, rfl, hz⟩ := hi.exists_node
  have hnext : Ends (listNext z) m (fun r m' => r = (h.buckets b).firstOf zs ∧ m' = m) E := by
    rcases hz with ⟨rfl, rfl⟩ | ⟨ys, hσ⟩
    · exact (hc.queues.wellFormed b).ends_next_head ⟨rfl, rfl⟩
    · exact (hσ ▸ hc.queues.wellFormed b : ListAt m (h.buckets b) (ys ++ z :: zs)).ends_next ⟨rfl, rfl⟩
  have hσ : ∃ ys, σ b = ys ++ zs := by
    rcases hz with ⟨-, rfl⟩ | ⟨ys, hσ⟩
    · exact ⟨[], rfl⟩
    · exact ⟨ys ++ [z], by rw [hσ, List.append_assoc, List.singleton_append]⟩
  obtain ⟨ys, hσ⟩ := hσ
  simp only [hashNext, ends_bind]
  refine ends_deref rfl (hnext.imp ?_)
  rintro _ _ ⟨rfl, rfl⟩
  exact hc.ends_nextLoop b _ (Nat.sub_le _ _) hσ

lemma Chained.ends_visitLoop (hc : Chained m h X σ) (fuel : Nat) (hfuel : rest.length < fuel)
    (hi : Before h σ i rest) : Ends (visitLoop h fuel i) m (fun r m' => r = rest ∧ m' = m) E := by
  induction fuel generalizing i rest with
  | zero => omega
  | succ fuel ih =>
    rw [visitLoop, ends_bind]
    refine (hc.ends_hashNext hi).imp ?_
    rintro i' _ ⟨rfl, hnone, hsome⟩
    cases rest with
    | nil =>
      rw [hashCur, hnone rfl]
      exact ⟨rfl, rfl⟩
    | cons e rest =>
      obtain ⟨he, hi'⟩ := hsome e rest rfl
      rw [hashCur, he]
      simp only [ends_bind, ends_pure]
      refine (ih (Nat.lt_of_succ_lt_succ hfuel) hi').imp fun _ _ hm => ?_
      exact ⟨congrArg _ hm.1, hm.2⟩

lemma ListAt.ends_applyLoop {l : Header P} {ys zs : List P} (hl : ListAt m l (ys ++ zs)) (fuel : Nat)
    (hfuel : zs.length < fuel) : Ends (applyLoop l fuel (l.firstOf zs)) m (fun r m' => r = zs ∧ m' = m) E := by
  induction fuel generalizing ys zs with
  | zero => omega
  | succ fuel ih =>
    rw [applyLoop]
    refine Ends.ite (fun heq => ⟨(hl.firstOf_eq_tail.mp heq).symm, rfl⟩) fun hne => ?_
    obtain ⟨z, zs, rfl⟩ := List.exists_cons_of_ne_nil fun hnil => hne (hl.firstOf_eq_tail.mpr hnil)
    have hsplit : ys ++ z :: zs = (ys ++ [z]) ++ zs := by simp
    simp only [ends_bind, ends_pure]
    refine hl.ends_next ((ih (hsplit ▸ hl) (Nat.lt_of_succ_lt_succ hfuel)).imp fun _ _ hm => ?_)
    exact ⟨congrArg _ hm.1, hm.2⟩

lemma Chained.ends_applyAll (hc : Chained m h X σ) (hcnt : X.card ≤ h.elemCnt) (n i : Nat)
    (hn : i + n = h.bucketCnt) : Ends (applyAll h n i) m (fun r m' => r = chainFrom σ i ∧ m' = m) E := by
  induction n generalizing i with
  | zero => exact ⟨(chainFrom_of_le σ (by omega)).symm, rfl⟩
  | succ n ih =>
    have hi : i < h.bucketCnt := by omega
    have hat : ListAt m (h.buckets i) ([] ++ σ ⟨i, hi⟩) := hc.queues.wellFormed ⟨i, hi⟩
    have hlen := hc.length_le ⟨i, hi⟩
    simp only [applyAll, ends_bind, ends_pure]
    refine hat.ends_begin ((hat.ends_applyLoop _ (by omega)).imp ?_)
    rintro _ _ ⟨rfl, rfl⟩
    refine (ih (i + 1) (by omega)).imp ?_
    rintro _ _ ⟨rfl, rfl⟩
    exact ⟨(chainFrom_of_lt σ hi).symm, rfl⟩

theorem iteration_visits_once (ht : Table m h X) : ∃ order : List P, order.Nodup ∧ (∀ e, e ∈ order ↔ e ∈ X) ∧
    visitAll h m = .ok order m ∧ hashApply h m = .ok order m := by
  obtain ⟨σ, hc⟩ := ht.chains
  obtain ⟨k, -, hk⟩ := ht.power
  have hpos : 0 < h.bucketCnt := hk ▸ Nat.two_pow_pos k
  have hlen : (chainFrom σ 0).length = h.elemCnt := by
    have hset : (chainFrom σ 0).toFinset = X := Finset.ext fun e => List.mem_toFinset.trans (ht.mem_order hc)
    rw [← List.toFinset_card_of_nodup hc.nodup_order, hset, ht.cnt]
  obtain ⟨_, _, hrun, rfl, rfl⟩ := (hc.ends_visitLoop _ (Nat.lt_succ_of_le hlen.le) (before_hashFirst hpos)).exists_ok
  obtain ⟨_, _, happly, rfl, rfl⟩ := (hc.ends_applyAll ht.cnt.ge h.bucketCnt 0 (Nat.zero_add _)).exists_ok
  exact ⟨_, hc.nodup_order, fun _ => ht.mem_order hc, hrun, happly⟩

theorem iteration_visits_once_full : ∃ x order, fullTable = some x ∧ order.Nodup ∧
    (∀ e, e ∈ order ↔ e ∈ List.range' 32 15) ∧ visitAll x.table x.links = .ok order x.links ∧
      hashApply x.table x.links = .ok order x.links := by
  have hrun : (fullTable.map HashMachine.held) = some (List.range' 32 15).toFinset := by decide +kernel
  obtain ⟨x, hx, hheld⟩ := Option.map_eq_some_iff.mp hrun
  obtain ⟨-, -, ht⟩ := reachable_table (lawfulHash_byKey (· % 32)) (fullTable_reachable hx)
  obtain ⟨order, hnodup, hmem, hrun⟩ := iteration_visits_once ht
  refine ⟨x, order, hx, hnodup, fun e => ?_, hrun⟩
  rw [hmem, hheld, List.mem_toFinset]

end Pintos.Lib
