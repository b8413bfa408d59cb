import Mathlib.Data.List.Sort
import Mathlib.Data.List.SplitBy
import Mathlib.Order.Defs.Unbundled
import Mathlib.Tactic.Common

/-! Strict weak orders given by a boolean test, runs, and stable sorting. -/

namespace Pintos.Foundation

variable {α : Type} {less : α → α → Bool} {xs : List α}

def before (less : α → α → Bool) (a b : α) : Bool := !less b a

def equivalent (less : α → α → Bool) (a b : α) : Bool := !less a b && !less b a

def Ordered (less : α → α → Bool) (xs : List α) : Prop := xs.Pairwise fun a b => before less a b = true

variable {a b : α}

lemma before_iff : before less a b = true ↔ ¬ less b a = true := by
  rw [before, Bool.not_eq_true', Bool.not_eq_true]

lemma equivalent_iff : equivalent less a b = true ↔ ¬ less a b = true ∧ ¬ less b a = true := by
  rw [equivalent, Bool.and_eq_true, Bool.not_eq_true', Bool.not_eq_true', Bool.not_eq_true, Bool.not_eq_true]

lemma equivalent_symm (h : equivalent less a b = true) : equivalent less b a = true := by
  rw [equivalent_iff] at *
  exact h.symm

section Order

variable [IsStrictWeakOrder α (less · · = true)]

lemma not_less_self (a : α) : ¬ less a a = true := irrefl_of (less · · = true) a

variable {c : α}

lemma less_trans (h : less a b = true) (h' : less b c = true) : less a c = true :=
  trans_of (less · · = true) h h'

lemma incomparable_trans (h : ¬ less a b = true ∧ ¬ less b a = true)
    (h' : ¬ less b c = true ∧ ¬ less c b = true) : ¬ less a c = true ∧ ¬ less c a = true :=
  (inferInstance : IsStrictWeakOrder α (less · · = true)).incomp_trans a b c h h'

lemma before_trans (h : before less a b = true) (h' : before less b c = true) :
    before less a c = true := by
  rw [before_iff] at *
  intro hca
  have hab : ¬ less a b = true := fun hab => h' (less_trans hca hab)
  have hbc : ¬ less b c = true := fun hbc => h (less_trans hbc hca)
  exact (incomparable_trans ⟨hab, h⟩ ⟨hbc, h'⟩).2 hca

lemma before_total (a b : α) : (before less a b || before less b a) = true := by
  rw [Bool.or_eq_true, before_iff, before_iff]
  by_contra hno
  rw [not_or, not_not, not_not] at hno
  exact not_less_self a (less_trans hno.2 hno.1)

lemma equivalent_refl (a : α) : equivalent less a a = true :=
  equivalent_iff.mpr ⟨not_less_self a, not_less_self a⟩

lemma equivalent_trans (h : equivalent less a b = true) (h' : equivalent less b c = true) :
    equivalent less a c = true := by
  rw [equivalent_iff] at *
  exact incomparable_trans h h'

lemma before_of_less (h : less a b = true) : before less a b = true :=
  before_iff.mpr fun h' => not_less_self a (less_trans h h')

lemma ordered_iff_isChain : Ordered less xs ↔ xs.IsChain fun a b => before less a b = true := by
  have : Trans (α := α) (β := α) (γ := α) (before less · · = true) (before less · · = true)
    (before less · · = true) := ⟨before_trans⟩
  exact List.isChain_iff_pairwise.symm

end Order

structure Stable (less : α → α → Bool) (xs ys : List α) : Prop where
  perm : ys.Perm xs
  stable : ∀ c, ys.filter (equivalent less c) = xs.filter (equivalent less c)

structure StableSort (less : α → α → Bool) (xs ys : List α) : Prop extends Stable less xs ys where
  ordered : Ordered less ys

lemma Stable.refl (less : α → α → Bool) (xs : List α) : Stable less xs xs := ⟨.refl _, fun _ => rfl⟩

lemma Stable.trans {xs ys zs : List α} (h : Stable less xs ys) (h' : Stable less ys zs) : Stable less xs zs :=
  ⟨h'.perm.trans h.perm, fun c => (h'.stable c).trans (h.stable c)⟩

lemma Stable.append {xs ys us vs : List α} (h : Stable less xs ys) (h' : Stable less us vs) :
    Stable less (xs ++ us) (ys ++ vs) :=
  ⟨h.perm.append h'.perm, fun c => by rw [List.filter_append, List.filter_append, h.stable, h'.stable]⟩

section Unique

variable [IsStrictWeakOrder α (less · · = true)]

lemma Ordered.head_before {x y : α} (h : Ordered less (x :: xs)) (hy : y ∈ x :: xs) :
    before less x y = true := by
  rcases List.mem_cons.mp hy with rfl | hy
  · exact before_iff.mpr (not_less_self y)
  · exact List.rel_of_pairwise_cons h hy

lemma Ordered.eq_of_filter {ys : List α} (hx : Ordered less xs) (hy : Ordered less ys)
    (hmem : ∀ a, a ∈ xs ↔ a ∈ ys) (hlen : xs.length = ys.length)
    (hf : ∀ c, xs.filter (equivalent less c) = ys.filter (equivalent less c)) : xs = ys := by
  induction xs generalizing ys with
  | nil => exact (List.length_eq_zero_iff.mp hlen.symm).symm
  | cons x xs ih =>
    cases ys with
    | nil => simp at hlen
    | cons y ys =>
      have hxy : equivalent less x y = true := by
        have h₁ := hx.head_before ((hmem y).mpr List.mem_cons_self)
        have h₂ := hy.head_before ((hmem x).mp List.mem_cons_self)
        exact equivalent_iff.mpr ⟨before_iff.mp h₂, before_iff.mp h₁⟩
      have hhead := hf x
      rw [List.filter_cons_of_pos (equivalent_refl x), List.filter_cons_of_pos hxy] at hhead
      obtain ⟨rfl, -⟩ := List.cons.inj hhead
      have hrest : ∀ c, xs.filter (equivalent less c) = ys.filter (equivalent less c) := by
        intro c
        have hc := hf c
        by_cases hcx : equivalent less c x = true
        · rw [List.filter_cons_of_pos hcx, List.filter_cons_of_pos hcx] at hc
          exact (List.cons.inj hc).2
        · rwa [List.filter_cons_of_neg hcx, List.filter_cons_of_neg hcx] at hc
      have hmem' : ∀ a, a ∈ xs ↔ a ∈ ys := by
        intro a
        have hin : ∀ zs : List α, a ∈ zs ↔ a ∈ zs.filter (equivalent less a) := fun zs => by
          rw [List.mem_filter]
          exact (and_iff_left (equivalent_refl a)).symm
        rw [hin xs, hin ys, hrest a]
      rw [ih hx.of_cons hy.of_cons hmem' (by simpa using hlen) hrest]

lemma StableSort.unique {ys zs : List α} (h : StableSort less xs ys) (h' : StableSort less xs zs) :
    ys = zs :=
  h.ordered.eq_of_filter h'.ordered (fun _ => (h.perm.trans h'.perm.symm).mem_iff)
    (h.perm.trans h'.perm.symm).length_eq fun c => (h.stable c).trans (h'.stable c).symm

end Unique

section Merging

variable [IsStrictWeakOrder α (less · · = true)] {ys : List α} (hx : Ordered less xs)
  (hy : Ordered less ys)

include hx hy

lemma Ordered.merge : Ordered less (xs.merge ys (before less)) :=
  List.pairwise_merge (fun _ _ _ => before_trans) before_total xs ys hx hy

omit hx hy in
lemma Ordered.filter_eq_nil {c x y : α} (h : Ordered less (x :: xs))
    (hc : equivalent less c y = true) (hy : less y x = true) :
    (x :: xs).filter (equivalent less c) = [] := by
  rw [List.filter_eq_nil_iff]
  intro a ha hca
  have hxa := before_iff.mp (h.head_before ha)
  have hya : equivalent less y a = true := equivalent_trans (equivalent_symm hc) hca
  refine hxa ?_
  by_contra hax
  exact before_iff.mp (before_trans (before_iff.mpr hxa) (before_iff.mpr (equivalent_iff.mp hya).1)) hy

lemma filter_merge (c : α) : (xs.merge ys (before less)).filter (equivalent less c) =
      xs.filter (equivalent less c) ++ ys.filter (equivalent less c) := by
  induction xs generalizing ys with
  | nil => rw [List.nil_merge, List.filter_nil, List.nil_append]
  | cons x xs ihx =>
    induction ys with
    | nil => rw [List.merge_right, List.filter_nil, List.append_nil]
    | cons y ys ihy =>
      rw [List.cons_merge_cons]
      split
      · rw [List.filter_cons, ihx hx.of_cons hy, List.filter_cons (x := x)]
        split <;> rfl
      · next hless =>
        rw [before_iff, not_not] at hless
        rw [List.filter_cons, ihy hy.of_cons, List.filter_cons (x := y)]
        split
        · next hc => rw [hx.filter_eq_nil hc hless, List.nil_append, List.nil_append]
        · rfl

lemma Stable.merge : Stable less (xs ++ ys) (xs.merge ys (before less)) :=
  ⟨List.merge_perm_append _, fun c => by rw [filter_merge hx hy, List.filter_append]⟩

end Merging

section Insertion

variable [IsStrictWeakOrder α (less · · = true)]

lemma Ordered.orderedInsert (h : Ordered less xs) (e : α) :
    Ordered less (xs.orderedInsert (less · · = true) e) := by
  induction xs with
  | nil => exact List.pairwise_singleton _ _
  | cons x xs ih =>
    rw [List.orderedInsert_cons]
    split
    · next hless =>
      refine List.pairwise_cons.mpr ⟨fun y hy => ?_, h⟩
      exact before_trans (before_of_less hless) (h.head_before hy)
    · next hless =>
      refine List.pairwise_cons.mpr ⟨fun y hy => ?_, ih h.of_cons⟩
      rcases (List.mem_orderedInsert _).mp hy with rfl | hy
      · exact before_iff.mpr hless
      · exact List.rel_of_pairwise_cons h hy

lemma Stable.orderedInsert (h : Ordered less xs) (e : α) :
    Stable less (xs ++ [e]) (xs.orderedInsert (less · · = true) e) := by
  refine ⟨(List.perm_orderedInsert _ _ _).trans (List.perm_append_singleton _ _).symm, fun c => ?_⟩
  induction xs with
  | nil => rfl
  | cons x xs ih =>
    rw [List.orderedInsert_cons]
    split
    · next hless =>
      rw [List.filter_append, List.filter_cons]
      split
      · next hc => rw [h.filter_eq_nil hc hless, List.nil_append, List.filter_cons_of_pos hc, List.filter_nil]
      · next hc => rw [List.filter_cons_of_neg hc, List.filter_nil, List.append_nil]
    · rw [List.cons_append, List.filter_cons, List.filter_cons, ih h.of_cons]

lemma StableSort.insert {ys : List α} (h : StableSort less xs ys) (e : α) :
    StableSort less (xs ++ [e]) (ys.orderedInsert (less · · = true) e) :=
  ⟨(h.toStable.append (.refl less [e])).trans (.orderedInsert h.ordered e), h.ordered.orderedInsert e⟩

end Insertion

section Runs

def splitRun (less : α → α → Bool) : α → List α → List α × List α
  | a, [] => ([a], [])
  | a, b :: bs => if less b a then ([a], b :: bs) else (a :: (splitRun less b bs).1, (splitRun less b bs).2)

def runCnt (less : α → α → Bool) : List α → Nat
  | [] => 0
  | [_] => 1
  | a :: b :: bs => runCnt less (b :: bs) + if less b a then 1 else 0

lemma splitRun_append (less : α → α → Bool) (a : α) (bs : List α) :
    (splitRun less a bs).1 ++ (splitRun less a bs).2 = a :: bs := by
  induction bs generalizing a with
  | nil => rfl
  | cons b bs ih =>
    rw [splitRun]
    split
    · rfl
    · rw [List.cons_append, ih]

lemma splitRun_ne_nil (less : α → α → Bool) (a : α) (bs : List α) : (splitRun less a bs).1 ≠ [] := by
  cases bs with
  | nil => exact List.cons_ne_nil _ _
  | cons b bs =>
    rw [splitRun]
    split <;> exact List.cons_ne_nil _ _

lemma splitRun_isChain (less : α → α → Bool) (a : α) (bs : List α) :
    (splitRun less a bs).1.IsChain fun a b => before less a b = true := by
  induction bs generalizing a with
  | nil => exact .singleton a
  | cons b bs ih =>
    rw [splitRun]
    split
    · exact .singleton a
    · next hless =>
      have hrun := ih b
      obtain ⟨rest, hrest⟩ : ∃ rest, (splitRun less b bs).1 = b :: rest := by
        cases bs with
        | nil => exact ⟨[], rfl⟩
        | cons c bs =>
          rw [splitRun]
          split <;> exact ⟨_, rfl⟩
      dsimp only
      rw [hrest] at hrun ⊢
      exact .cons_cons (before_iff.mpr hless) hrun

lemma runCnt_splitRun (less : α → α → Bool) (a : α) (bs : List α) :
    runCnt less (a :: bs) = runCnt less (splitRun less a bs).2 + 1 := by
  induction bs generalizing a with
  | nil => rfl
  | cons b bs ih =>
    rw [runCnt, splitRun]
    split
    · rfl
    · exact ih b

structure StartsWithRun (less : α → α → Bool) (zs as rest : List α) : Prop where
  append : as ++ rest = zs
  ne_nil : as ≠ []
  isChain : as.IsChain fun a b => before less a b = true
  cnt : runCnt less zs = runCnt less rest + 1

lemma startsWithRun_splitRun (less : α → α → Bool) (a : α) (bs : List α) :
    StartsWithRun less (a :: bs) (splitRun less a bs).1 (splitRun less a bs).2 :=
  ⟨splitRun_append less a bs, splitRun_ne_nil less a bs, splitRun_isChain less a bs, runCnt_splitRun less a bs⟩

lemma StartsWithRun.length_eq {zs as rest : List α} (h : StartsWithRun less zs as rest) :
    as.length + rest.length = zs.length ∧ 0 < as.length :=
  ⟨by rw [← List.length_append, h.append], List.length_pos_of_ne_nil h.ne_nil⟩

lemma runCnt_cons_le (less : α → α → Bool) (a : α) (bs : List α) :
    runCnt less (a :: bs) ≤ runCnt less bs + 1 := by
  cases bs with
  | nil => exact Nat.le_refl _
  | cons b bs =>
    rw [runCnt]
    split <;> omega

lemma runCnt_append_le (h : xs.IsChain fun a b => before less a b = true) (ys : List α) :
    runCnt less (xs ++ ys) ≤ runCnt less ys + 1 := by
  induction xs with
  | nil => exact Nat.le_succ _
  | cons x xs ih =>
    cases xs with
    | nil => exact runCnt_cons_le less x ys
    | cons y xs =>
      obtain ⟨hxy, hrest⟩ := List.isChain_cons_cons.mp h
      rw [List.cons_append, List.cons_append, runCnt, if_neg (before_iff.mp hxy)]
      exact ih hrest

lemma isChain_of_runCnt_le_one (h : runCnt less xs ≤ 1) : xs.IsChain fun a b => before less a b = true := by
  induction xs with
  | nil => exact .nil
  | cons x xs ih =>
    cases xs with
    | nil => exact .singleton x
    | cons y xs =>
      have hpos : 0 < runCnt less (y :: xs) := by
        rw [runCnt_splitRun]
        exact Nat.succ_pos _
      rw [runCnt] at h
      split at h
      · omega
      · next hless => exact .cons_cons (before_iff.mpr hless) (ih h)

lemma runCnt_le_length (less : α → α → Bool) (xs : List α) : runCnt less xs ≤ xs.length := by
  induction xs with
  | nil => exact Nat.le_refl _
  | cons x xs ih => exact (runCnt_cons_le less x xs).trans (Nat.succ_le_succ ih)

end Runs

section Blocks

def firsts (less : α → α → Bool) (xs : List α) : List α := (xs.splitBy (equivalent less)).filterMap List.head?

def others (less : α → α → Bool) (xs : List α) : List α := (xs.splitBy (equivalent less)).flatMap List.tail

lemma firsts_append_others (less : α → α → Bool) (xs : List α) : (firsts less xs ++ others less xs).Perm xs := by
  have hblocks : ∀ gs : List (List α), [] ∉ gs → (gs.filterMap List.head? ++ gs.flatMap List.tail).Perm gs.flatten := by
    intro gs hgs
    induction gs with
    | nil => exact .refl _
    | cons g gs ih =>
      rw [List.mem_cons, not_or] at hgs
      obtain ⟨a, g, rfl⟩ := List.exists_cons_of_ne_nil (Ne.symm hgs.1)
      rw [List.filterMap_cons, List.flatMap_cons, List.flatten_cons]
      refine .cons a (.trans ?_ ((ih hgs.2).append_left g))
      change (gs.filterMap List.head? ++ (g ++ gs.flatMap List.tail)).Perm _
      rw [← List.append_assoc, ← List.append_assoc]
      exact List.perm_append_comm.append_right _
  have hflat := hblocks _ (List.nil_notMem_splitBy (equivalent less) xs)
  rwa [List.flatten_splitBy] at hflat

lemma splitBy_cons_of_not (bs : List α) (h : ¬ equivalent less a b = true) :
    (a :: b :: bs).splitBy (equivalent less) = [a] :: (b :: bs).splitBy (equivalent less) := by
  refine List.splitBy_append_cons (l := [a]) bs fun x hx => ?_
  rw [List.getLast?_singleton, Option.mem_some_iff] at hx
  exact Bool.eq_false_iff.mpr (hx ▸ h)

variable [IsStrictWeakOrder α (less · · = true)]

lemma equivalent_congr (h : equivalent less a b = true) (c : α) :
    equivalent less a c = equivalent less b c := by
  rw [Bool.eq_iff_iff]
  exact ⟨equivalent_trans (equivalent_symm h), equivalent_trans h⟩

lemma exists_splitBy_cons (bs : List α) (h : equivalent less a b = true) :
    ∃ g gs, (a :: bs).splitBy (equivalent less) = (a :: g) :: gs ∧
      (a :: b :: bs).splitBy (equivalent less) = (a :: b :: g) :: gs := by
  obtain ⟨hflat, hnil, hchain, hlinks⟩ := List.splitBy_eq_iff.mp (rfl : (a :: bs).splitBy (equivalent less) = _)
  generalize (a :: bs).splitBy (equivalent less) = blocks at *
  cases blocks with
  | nil => simp at hflat
  | cons g₀ gs =>
    rw [List.mem_cons, not_or] at hnil
    obtain ⟨a', g, rfl⟩ := List.exists_cons_of_ne_nil (Ne.symm hnil.1)
    rw [List.flatten_cons, List.cons_append] at hflat
    obtain ⟨rfl, rfl⟩ := List.cons.inj hflat
    refine ⟨g, gs, rfl, List.splitBy_eq_iff.mpr ⟨rfl, ?_, ?_, ?_⟩⟩
    · rw [List.mem_cons, not_or]
      exact ⟨Ne.symm (List.cons_ne_nil _ _), hnil.2⟩
    · intro m hm
      rcases List.mem_cons.mp hm with rfl | hm
      · have hg := hchain _ List.mem_cons_self
        rw [List.isChain_cons] at hg
        refine .cons_cons h (List.isChain_cons.mpr ⟨fun y hy => ?_, hg.2⟩)
        exact equivalent_congr h y ▸ hg.1 y hy
      · exact hchain m (List.mem_cons_of_mem _ hm)
    · rw [List.isChain_cons] at hlinks ⊢
      refine ⟨fun y hy => ?_, hlinks.2⟩
      obtain ⟨ha, hb, hlast⟩ := hlinks.1 y hy
      refine ⟨List.cons_ne_nil _ _, hb, ?_⟩
      cases g with
      | nil => exact (equivalent_congr h _).symm.trans hlast
      | cons c g => exact hlast

lemma firsts_cons_cons (a b : α) (bs : List α) :
    firsts less (a :: b :: bs) = if equivalent less a b then firsts less (a :: bs) else a :: firsts less (b :: bs) := by
  split
  · next h =>
    obtain ⟨g, gs, hold, hnew⟩ := exists_splitBy_cons bs h
    rw [firsts, firsts, hold, hnew]
    rfl
  · next h =>
    rw [firsts, splitBy_cons_of_not bs h]
    rfl

lemma others_cons_cons (a b : α) (bs : List α) :
    others less (a :: b :: bs) = if equivalent less a b then b :: others less (a :: bs) else others less (b :: bs) := by
  split
  · next h =>
    obtain ⟨g, gs, hold, hnew⟩ := exists_splitBy_cons bs h
    rw [others, others, hold, hnew]
    rfl
  · next h =>
    rw [others, splitBy_cons_of_not bs h]
    rfl

lemma head?_firsts (a : α) (bs : List α) : (firsts less (a :: bs)).head? = some a := by
  induction bs generalizing a with
  | nil => rfl
  | cons b bs ih =>
    rw [firsts_cons_cons]
    split
    · exact ih a
    · rfl

lemma Ordered.firsts (h : Ordered less xs) : (Foundation.firsts less xs).Pairwise fun a b => less a b = true := by
  have : Trans (α := α) (β := α) (γ := α) (less · · = true) (less · · = true) (less · · = true) := ⟨less_trans⟩
  rw [← List.isChain_iff_pairwise]
  cases xs with
  | nil => exact .nil
  | cons a bs =>
    induction bs generalizing a with
    | nil => exact .singleton a
    | cons b bs ih =>
      rw [firsts_cons_cons]
      split
      · exact ih a (h.sublist (.cons_cons a (List.sublist_cons_self b bs)))
      · next hne =>
        refine List.isChain_cons.mpr ⟨fun y hy => ?_, ih b h.of_cons⟩
        rw [head?_firsts, Option.mem_some_iff] at hy
        have hab := before_iff.mp (List.rel_of_pairwise_cons h List.mem_cons_self)
        rw [equivalent_iff, not_and, not_not] at hne
        rw [← hy]
        by_contra hnot
        exact hab (hne hnot)

end Blocks

end Pintos.Foundation
