import Mathlib.Algebra.Group.Nat.Defs
import Mathlib.Data.Finset.Card
import Mathlib.Data.Sum.Basic
import Pintos.Foundation.StableSorts
import Pintos.Lib.Hash
import Pintos.Lib.Queues

/-! Hash tables as sets with at most one element of each kind. -/

namespace Pintos.Lib

open Pintos.Foundation Function

section Powers

variable {x : Nat}

lemma isPowerOf2_iff : isPowerOf2 x = true ↔ ∃ k, x = 2 ^ k := by
  rw [isPowerOf2, decide_eq_true_iff]
  exact Nat.ne_zero_and_sub_one_eq_zero_iff_isPowerOfTwo

lemma turnOffLeast1bit_lt (h : 0 < x) : turnOffLeast1bit x < x := by
  have hle : turnOffLeast1bit x ≤ x - 1 := Nat.and_le_right
  omega

lemma four_le_turnOffLeast1bit (h : 4 ≤ x) (hx : isPowerOf2 x = false) : 4 ≤ turnOffLeast1bit x := by
  have hpow : ¬ x.isPowerOfTwo := fun hp => Bool.false_ne_true (hx.symm.trans (isPowerOf2_iff.mpr hp))
  have hbit := Nat.and_sub_one_testBit_log2 (by omega) hpow
  have hlog : 2 ≤ x.log2 := (Nat.le_log2 (by omega)).mpr h
  calc 4 ≤ 2 ^ x.log2 := Nat.pow_le_pow_right (n := 2) (by decide) hlog
    _ ≤ turnOffLeast1bit x := Nat.ge_two_pow_of_testBit hbit

lemma powerLoop_spec {fuel n : Nat} (hfuel : n ≤ fuel) (hn : 4 ≤ n) : ∃ k, 2 ≤ k ∧ powerLoop fuel n = 2 ^ k := by
  induction fuel generalizing n with
  | zero => omega
  | succ fuel ih =>
    rw [powerLoop]
    cases hp : isPowerOf2 n with
    | true =>
      obtain ⟨k, rfl⟩ := isPowerOf2_iff.mp hp
      refine ⟨k, ?_, if_pos rfl⟩
      exact (Nat.pow_le_pow_iff_right (a := 2) (by decide)).mp hn
    | false =>
      rw [if_neg Bool.false_ne_true]
      have hlt := turnOffLeast1bit_lt (show 0 < n by omega)
      exact ih (by omega) (four_le_turnOffLeast1bit hn hp)

lemma newBucketCnt_spec (elemCnt : Nat) : ∃ k, 2 ≤ k ∧ newBucketCnt elemCnt = 2 ^ k := by
  rw [newBucketCnt]
  apply powerLoop_spec le_rfl
  split <;> omega

end Powers

variable {P : Type}

structure LawfulHash (hash : P → Nat) (less : P → P → Bool) : Prop where
  order : IsStrictWeakOrder P (less · · = true)
  agree : ∀ a b, equivalent less a b = true → hash a = hash b

def Hash.idx (h : Hash P) (e : P) : Nat := h.hash e &&& (h.bucketCnt - 1)

structure Chained (m : Links P) (h : Hash P) (X : Finset P) (σ : Fin h.bucketCnt → List P) : Prop where
  queues : Queues m (fun i : Fin h.bucketCnt => h.buckets i) σ
  mem_iff : ∀ i e, e ∈ σ i ↔ e ∈ X ∧ h.idx e = i

structure Table (m : Links P) (h : Hash P) (X : Finset P) : Prop where
  lawful : LawfulHash h.hash h.less
  power : ∃ k, 2 ≤ k ∧ h.bucketCnt = 2 ^ k
  cnt : h.elemCnt = X.card
  single : ∀ a ∈ X, ∀ b ∈ X, equivalent h.less a b = true → a = b
  chains : ∃ σ, Chained m h X σ

lemma Table.hashSize_eq {X : Finset P} (h : Table m t X) : hashSize t = X.card ∧ (hashEmpty t = true ↔ X = ∅) := by
  rw [hashSize, hashEmpty, h.cnt, decide_eq_true_iff, Finset.card_eq_zero]
  exact ⟨rfl, Iff.rfl⟩

def Prior (less : P → P → Bool) (X : Finset P) (e : P) : Option P → Prop
  | none => ∀ a ∈ X, equivalent less a e = false
  | some a => a ∈ X ∧ equivalent less a e = true

def headerNodes (buckets : Nat → Header P) (n : Nat) : List P :=
  (List.range n).flatMap fun i => [(buckets i).head, (buckets i).tail]

lemma mem_headerNodes {buckets : Nat → Header P} {n : Nat} {x : P} :
    x ∈ headerNodes buckets n ↔ ∃ i < n, x = (buckets i).head ∨ x = (buckets i).tail := by
  simp [headerNodes]

section Orders

variable {k i : Nat} {σ τ : Fin k → List P}

def chainFrom (σ : Fin k → List P) (i : Nat) : List P := ((List.finRange k).drop i).flatMap σ

lemma chainFrom_of_lt (σ : Fin k → List P) (hi : i < k) : chainFrom σ i = σ ⟨i, hi⟩ ++ chainFrom σ (i + 1) := by
  have hlen : i < (List.finRange k).length := by rwa [List.length_finRange]
  rw [chainFrom, List.drop_eq_getElem_cons hlen, List.flatMap_cons, List.getElem_finRange]
  rfl

lemma chainFrom_of_le (σ : Fin k → List P) (hi : k ≤ i) : chainFrom σ i = [] := by
  rw [chainFrom, List.drop_of_length_le (by rwa [List.length_finRange]), List.flatMap_nil]

lemma chainFrom_update (hi : i < k) (xs : List P) : chainFrom (update σ ⟨i, hi⟩ xs) (i + 1) = chainFrom σ
    (i + 1) := by
  refine List.flatMap_congr fun j hj => update_of_ne ?_ _ _
  rintro rfl
  obtain ⟨a, ha, heq⟩ := List.mem_drop_iff_getElem.mp hj
  rw [List.getElem_finRange] at heq
  have hval := Fin.ext_iff.mp heq
  simp only [Fin.val_cast] at hval
  omega

lemma mem_chainFrom_zero {e : P} : e ∈ chainFrom σ 0 ↔ ∃ i, e ∈ σ i := by
  simp [chainFrom]

end Orders

section Index

variable {h : Hash P} {k : Nat}

lemma idx_eq_mod (hk : h.bucketCnt = 2 ^ k) (e : P) : h.idx e = h.hash e % h.bucketCnt := by
  rw [Hash.idx, hk, Nat.and_two_pow_sub_one_eq_mod]

lemma idx_lt (hk : h.bucketCnt = 2 ^ k) (e : P) : h.idx e < h.bucketCnt := by
  rw [idx_eq_mod hk]
  exact Nat.mod_lt _ (hk ▸ Nat.two_pow_pos k)

end Index

section Steps

variable {m m' : Links P} {h : Hash P} {X : Finset P} {a e : P}

def Table.index (ht : Table m h X) (e : P) : Fin h.bucketCnt :=
  ⟨h.idx e, ht.power.elim fun _ hk => idx_lt hk.2 e⟩

variable {σ : Fin h.bucketCnt → List P}

lemma Chained.nodup (hc : Chained m h X σ) (i : Fin h.bucketCnt) : (σ i).Nodup :=
  ((hc.queues.wellFormed i).nodup.sublist (List.sublist_cons_self _ _)).sublist (List.sublist_append_left _ _)

lemma Table.mem_order (ht : Table m h X) (hc : Chained m h X σ) : e ∈ chainFrom σ 0 ↔ e ∈ X := by
  rw [mem_chainFrom_zero]
  exact ⟨fun ⟨i, hi⟩ => ((hc.mem_iff i e).mp hi).1, fun he => ⟨ht.index e, (hc.mem_iff _ e).mpr ⟨he, rfl⟩⟩⟩

lemma Chained.length_le (hc : Chained m h X σ) (i : Fin h.bucketCnt) : (σ i).length ≤ X.card := by
  classical
  rw [← List.toFinset_card_of_nodup (hc.nodup i)]
  exact Finset.card_le_card fun e he => ((hc.mem_iff i e).mp (List.mem_toFinset.mp he)).1

lemma Chained.nodup_order (hc : Chained m h X σ) : (chainFrom σ 0).Nodup := by
  refine List.nodup_flatMap.mpr ⟨fun i _ => hc.nodup i, ?_⟩
  refine (List.nodup_finRange _).imp fun {i j} hij x hx hy => hij (Fin.ext ?_)
  exact ((hc.mem_iff i x).mp hx).2.symm.trans ((hc.mem_iff j x).mp hy).2

lemma Chained.notMem_nodes (hc : Chained m h X σ) (he : e ∉ X) (hhead : e ∉ headerNodes h.buckets h.bucketCnt)
    (i : Fin h.bucketCnt) : e ∉ (h.buckets i).nodes (σ i) := by
  rw [mem_headerNodes] at hhead
  intro hin
  rcases Header.mem_nodes.mp hin with heq | hin | heq
  · exact hhead ⟨i, i.isLt, .inl heq⟩
  · exact he ((hc.mem_iff i e).mp hin).1
  · exact hhead ⟨i, i.isLt, .inr heq⟩

variable (ht : Table m h X)

include ht

lemma Table.prior_iff (hc : Chained m h X σ) :
    (∀ b ∈ σ (ht.index e), equivalent h.less b e = false) ↔ Prior h.less X e none := by
  constructor
  · intro hb b hbX
    by_contra heq
    rw [Bool.not_eq_false] at heq
    have hidx : h.idx b = h.idx e := by rw [Hash.idx, ht.lawful.agree b e heq, Hash.idx]
    exact Bool.false_ne_true ((hb b ((hc.mem_iff _ b).mpr ⟨hbX, hidx⟩)).symm.trans heq)
  · exact fun hp b hb => hp b ((hc.mem_iff _ b).mp hb).1

lemma Table.notMem (hnew : Prior h.less X e none) : e ∉ X := by
  have := ht.lawful.order
  exact fun he => Bool.false_ne_true ((hnew e he).symm.trans (equivalent_refl e))

variable [DecidableEq P] {E : Fault → Links P → Prop}

omit ht in
lemma ends_findLoop {less : P → P → Bool} {l : Header P} {ys zs : List P} (fuel : Nat) (hfuel : zs.length < fuel)
    (hl : ListAt m l (ys ++ zs)) (hys : ∀ b ∈ ys, equivalent less b e = false) :
    Ends (findLoop less l e fuel (l.firstOf zs)) m (fun r m' => m' = m ∧
      (r = none → ∀ b ∈ ys ++ zs, equivalent less b e = false) ∧
      ∀ b, r = some b → b ∈ ys ++ zs ∧ equivalent less b e = true) E := by
  induction fuel generalizing ys zs with
  | zero => omega
  | succ fuel ih =>
    rw [findLoop]
    refine Ends.ite (fun heq => ?_) fun hne => Ends.ite (fun hin => ?_) fun hno => ?_
    · obtain rfl := hl.firstOf_eq_tail.mp heq
      exact ⟨rfl, fun _ => by rwa [List.append_nil], nofun⟩
    all_goals
      obtain ⟨z, zs, rfl⟩ := List.exists_cons_of_ne_nil fun hnil => hne (hl.firstOf_eq_tail.mpr hnil)
    · refine ⟨rfl, nofun, fun b hb => ?_⟩
      obtain rfl : z = b := Option.some.inj hb
      exact ⟨by simp, hin⟩
    · have hsplit : ys ++ z :: zs = (ys ++ [z]) ++ zs := by simp
      have hz : equivalent less z e = false := Bool.not_eq_true _ ▸ hno
      rw [ends_bind]
      refine hl.ends_next ?_
      rw [hsplit] at hl ⊢
      refine ih (Nat.lt_of_succ_lt_succ hfuel) hl fun b hb => ?_
      rcases List.mem_append.mp hb with hb | hb
      · exact hys b hb
      · exact List.mem_singleton.mp hb ▸ hz

lemma Table.ends_findElem (e : P) :
    Ends (findElem h (findBucket h e) e) m (fun r m' => m' = m ∧ Prior h.less X e r) E := by
  obtain ⟨σ, hc⟩ := ht.chains
  have hl : ListAt m (findBucket h e) ([] ++ σ (ht.index e)) := hc.queues.wellFormed (ht.index e)
  rw [findElem, ends_bind]
  refine hl.ends_begin ?_
  have hfuel : (σ (ht.index e)).length < h.elemCnt + 1 := ht.cnt ▸ Nat.lt_succ_of_le (hc.length_le _)
  refine (ends_findLoop _ hfuel hl (by simp)).imp fun r m' hr => ⟨hr.1, ?_⟩
  cases r with
  | none => exact (ht.prior_iff hc).mp (hr.2.1 rfl)
  | some b =>
    obtain ⟨hb, heq⟩ := hr.2.2 b rfl
    exact ⟨((hc.mem_iff _ b).mp hb).1, heq⟩

lemma Table.inserted (hnew : Prior h.less X e none)
    (hc : ∃ σ, Chained m' h (insert e X) σ) : Table m' { h with elemCnt := h.elemCnt + 1 } (insert e X) where
  lawful := ht.lawful
  power := ht.power
  cnt := by rw [Finset.card_insert_of_notMem (ht.notMem hnew), ← ht.cnt]
  single a ha b hb heq := by
    rcases Finset.mem_insert.mp ha with rfl | hax <;> rcases Finset.mem_insert.mp hb with rfl | hbx
    · rfl
    · exact absurd (equivalent_symm heq) (hnew b hbx ▸ Bool.false_ne_true)
    · exact absurd heq (hnew a hax ▸ Bool.false_ne_true)
    · exact ht.single a hax b hbx heq
  chains := hc.imp fun _ hσ => ⟨hσ.queues, hσ.mem_iff⟩

lemma Table.erased (ha : a ∈ X)
    (hc : ∃ σ, Chained m' h (X.erase a) σ) : Table m' { h with elemCnt := h.elemCnt - 1 } (X.erase a) where
  lawful := ht.lawful
  power := ht.power
  cnt := by rw [Finset.card_erase_of_mem ha, ← ht.cnt]
  single b hb c hc := ht.single b (Finset.mem_of_mem_erase hb) c (Finset.mem_of_mem_erase hc)
  chains := hc.imp fun _ hσ => ⟨hσ.queues, hσ.mem_iff⟩

lemma Table.ends_insertElem (hnew : Prior h.less X e none) (hhead : e ∉ headerNodes h.buckets h.bucketCnt) :
    Ends (insertElem h (findBucket h e) e) m (fun h' m' =>
      h' = { h with elemCnt := h.elemCnt + 1 } ∧ Table m' h' (insert e X)) E := by
  obtain ⟨σ, hc⟩ := ht.chains
  rw [insertElem, ends_bind]
  have hpush := hc.queues.ends_pushFront (E := E) (ht.index e) (hc.notMem_nodes (ht.notMem hnew) hhead)
  refine hpush.imp fun _ m' hm => ?_
  refine ⟨rfl, ht.inserted hnew ⟨_, hm.1, fun i b => ?_⟩⟩
  rw [Finset.mem_insert]
  rcases eq_or_ne i (ht.index e) with rfl | hi
  · rw [update_self, List.mem_cons, hc.mem_iff, or_and_right, and_iff_left_of_imp (a := b = e)]
    rintro rfl
    rfl
  · rw [update_of_ne hi, hc.mem_iff, or_and_right, or_iff_right_of_imp]
    rintro ⟨rfl, hidx⟩
    exact absurd (Fin.ext hidx.symm) hi

lemma Table.ends_removeElem (ha : a ∈ X) : Ends (removeElem h a) m (fun h' m' =>
      h' = { h with elemCnt := h.elemCnt - 1 } ∧ Table m' h' (X.erase a)) E := by
  obtain ⟨σ, hc⟩ := ht.chains
  obtain ⟨us, vs, hi⟩ := List.append_of_mem ((hc.mem_iff (ht.index a) a).mpr ⟨ha, rfl⟩)
  rw [removeElem, ends_bind]
  refine (hc.queues.ends_remove hi).imp fun _ m' hm => ?_
  refine ⟨rfl, ht.erased ha ⟨_, hm.2.1, fun i b => ?_⟩⟩
  have hmem : b ∈ update σ (ht.index a) (us ++ vs) i ↔ b ≠ a ∧ b ∈ σ i := by
    rcases eq_or_ne i (ht.index a) with rfl | hne
    · have hnodup := hc.nodup (ht.index a)
      rw [hi, List.nodup_middle, List.nodup_cons] at hnodup
      rw [update_self, hi, List.mem_append, List.mem_append, List.mem_cons]
      refine ⟨fun hb => ⟨?_, by tauto⟩, by tauto⟩
      rintro rfl
      exact hnodup.1 (List.mem_append.mpr hb)
    · rw [update_of_ne hne, iff_and_self]
      rintro hb rfl
      exact hne (Fin.ext ((hc.mem_iff i b).mp hb).2.symm)
  rw [hmem, hc.mem_iff, Finset.mem_erase, and_assoc]

end Steps

end Pintos.Lib
