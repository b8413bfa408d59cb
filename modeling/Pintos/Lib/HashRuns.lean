import Pintos.Foundation.Runs
import Pintos.Lib.Rehashing
import Pintos.Lib.Sorting

/-! Runs of hash table calls against a set. -/

namespace Pintos.Lib

open Pintos.Foundation Function

variable {P : Type} [DecidableEq P] {m : Links P} {h : Hash P} {X : Finset P} {E : Fault → Links P → Prop}
  {answer : Option (Nat → Header P)}

section Clearing

lemma ends_popLoop {ι : Type} [DecidableEq ι] {l : ι → Header P} {σ : ι → List P} (i : ι) (fuel : Nat)
    (hfuel : (σ i).length < fuel) (hq : Queues m l σ) :
    Ends (popLoop (l i) fuel) m (fun r m' => r = σ i ∧ Queues m' l (update σ i [])) E := by
  induction fuel generalizing m σ with
  | zero => omega
  | succ fuel ih =>
    rw [popLoop, ends_bind]
    refine (hq.wellFormed i).ends_empty ?_
    cases hσ : σ i with
    | nil => exact ⟨rfl, by rwa [← hσ, update_eq_self]⟩
    | cons z zs =>
      rw [decide_eq_false (List.cons_ne_nil _ _)]
      simp only [Bool.false_eq_true, if_false, ends_bind, ends_pure]
      refine (hq.ends_popFront hσ).imp fun r m₁ h₁ => ?_
      obtain ⟨rfl, hq₁, -⟩ := h₁
      have hzs : update σ i zs i = zs := update_self _ _ _
      have hshort : (update σ i zs i).length < fuel := by
        rw [hσ, List.length_cons] at hfuel
        rw [hzs]
        exact Nat.lt_of_succ_lt_succ hfuel
      have hrest := ih hshort hq₁
      rw [hzs, update_idem] at hrest
      exact hrest.imp fun _ _ hm => ⟨congrArg _ hm.1, hm.2⟩

lemma ends_clearLoop (destructor : Bool) {σ : Fin h.bucketCnt → List P} (n i : Nat) (hn : i + n = h.bucketCnt)
    (hlen : ∀ j, (σ j).length ≤ h.elemCnt) (hq : Queues m (fun j : Fin h.bucketCnt => h.buckets j) σ)
    (hdone : ∀ j : Fin h.bucketCnt, j < i → σ j = []) :
    Ends (clearLoop h destructor n i) m (fun r m' => (destructor = true → r = chainFrom σ i) ∧
      Queues m' (fun j : Fin h.bucketCnt => h.buckets j) fun _ => []) E := by
  induction n generalizing m σ i with
  | zero =>
    have hnil : σ = fun _ => [] := funext fun j => hdone j (by omega)
    exact ⟨fun _ => (chainFrom_of_le σ (by omega)).symm, hnil ▸ hq⟩
  | succ n ih =>
    have hi : i < h.bucketCnt := by omega
    have hpop : Ends (destroyElems h destructor (h.buckets i)) m
        (fun r m' => (destructor = true → r = σ ⟨i, hi⟩) ∧ ∃ σ' : Fin h.bucketCnt → List P, update σ' ⟨i, hi⟩ [] =
          update σ ⟨i, hi⟩ [] ∧ Queues m' (fun j : Fin h.bucketCnt => h.buckets j) σ') E := by
      refine Ends.ite (fun _ => ?_) fun hd => ⟨fun hd' => absurd hd' hd, σ, rfl, hq⟩
      refine (ends_popLoop ⟨i, hi⟩ _ (Nat.lt_succ_of_le (hlen _)) hq).imp fun r m' hm => ?_
      exact ⟨fun _ => hm.1, _, update_idem _ _ _, hm.2⟩
    rw [clearLoop, ends_bind]
    refine hpop.imp fun r m₁ h₁ => ?_
    obtain ⟨hr, σ', hσ', hq₁⟩ := h₁
    simp only [ends_bind, ends_pure]
    refine (hq₁.ends_init ⟨i, hi⟩).imp fun _ m₂ hq₂ => ?_
    rw [hσ'] at hq₂
    have hcleared : ∀ j : Fin h.bucketCnt, j < i + 1 → update σ ⟨i, hi⟩ [] j = [] := by
      intro j hj
      rcases eq_or_ne j ⟨i, hi⟩ with rfl | hne
      · exact update_self _ _ _
      · have hval : (j : Nat) ≠ i := fun heq => hne (Fin.ext heq)
        rw [update_of_ne hne]
        exact hdone j (by omega)
    have hshort : ∀ j, (update σ ⟨i, hi⟩ [] j).length ≤ h.elemCnt := by
      intro j
      rcases eq_or_ne j ⟨i, hi⟩ with rfl | hne
      · rw [update_self]
        exact Nat.zero_le _
      · rw [update_of_ne hne]
        exact hlen j
    refine (ih (i + 1) (by omega) hshort hq₂ hcleared).imp fun r' m' hm => ⟨fun hd => ?_, hm.2⟩
    rw [hr hd, hm.1 hd, chainFrom_update, ← chainFrom_of_lt]

omit [DecidableEq P] in
lemma table_empty (hlaw : LawfulHash h.hash h.less) (hpow : ∃ k, 2 ≤ k ∧ h.bucketCnt = 2 ^ k)
    (hq : Queues m (fun j : Fin h.bucketCnt => h.buckets j) fun _ => []) :
    Table m { h with elemCnt := 0 } ∅ where
  lawful := hlaw
  power := hpow
  cnt := rfl
  single _ ha := absurd ha (Finset.notMem_empty _)
  chains := ⟨_, hq, by simp⟩

lemma Table.ends_hashClear (ht : Table m h X) (destructor : Bool) :
    Ends (hashClear h destructor) m (fun r m' => (r.2.hash = h.hash ∧ r.2.less = h.less ∧ Table m' r.2 ∅) ∧
      (destructor = true → r.1.Nodup ∧ ∀ e, e ∈ r.1 ↔ e ∈ X)) E := by
  obtain ⟨σ, hc⟩ := ht.chains
  have hlen : ∀ j, (σ j).length ≤ h.elemCnt := fun j => ht.cnt ▸ hc.length_le j
  rw [hashClear, ends_bind]
  refine (ends_clearLoop destructor _ 0 (Nat.zero_add _) hlen hc.queues nofun).imp fun r m' hm => ?_
  refine ⟨⟨rfl, rfl, table_empty ht.lawful ht.power hm.2⟩, fun hd => ?_⟩
  rw [hm.1 hd]
  exact ⟨hc.nodup_order, fun _ => ht.mem_order hc⟩

lemma clearLoop_false (h : Hash P) (n i : Nat) :
    clearLoop h false n i = do initLoop h.buckets n i; return [] := by
  induction n generalizing i with
  | zero => rfl
  | succ n ih => simp [clearLoop, destroyElems, initLoop, ih]

lemma ends_hashInit {hash : P → Nat} {less : P → P → Bool} (hlaw : LawfulHash hash less)
    {buckets : Nat → Header P} {used : P → Prop} (hf : FreshBuckets buckets 4 used) :
    Ends (hashInit hash less (some buckets)) m (fun r m' => r = some ⟨0, 4, buckets, hash, less⟩ ∧
      Table m' ⟨0, 4, buckets, hash, less⟩ ∅) E := by
  simp only [hashInit, hashClear, clearLoop_false, ends_bind, ends_pure]
  refine (hf.ends_initLoop 4 0 rfl (by simp)).imp fun _ m' hm => ⟨trivial, ?_⟩
  refine table_empty (h := ⟨0, 4, buckets, hash, less⟩) hlaw ⟨2, le_rfl, rfl⟩ ?_
  exact ⟨fun j => hm.1 j j.isLt, fun i j hij => hf.disjoint i.isLt j.isLt fun heq => hij (Fin.ext heq)⟩

end Clearing

inductive HashOp (P : Type)
  | insert (e : P)
  | replace (e : P)
  | find (e : P)
  | delete (e : P)
  | clear (destructor : Bool)

structure HashCall (P : Type) where
  op : HashOp P
  answer : Option (Nat → Header P)

def HashCall.run (h : Hash P) (call : HashCall P) : ListM P (Option P × Hash P) :=
  match call.op with
  | .insert e => hashInsert h e call.answer
  | .replace e => hashReplace h e call.answer
  | .find e => return (← hashFind h e, h)
  | .delete e => hashDelete h e call.answer
  | .clear destructor => return (none, (← hashClear h destructor).2)

section Sets

def HashOp.Returns (less : P → P → Bool) (X : Finset P) : HashOp P → Option P → Prop
  | .insert e, r => Prior less X e r
  | .replace e, r => Prior less X e r
  | .find e, r => Prior less X e r
  | .delete e, r => Prior less X e r
  | .clear _, r => r = none

def HashOp.after (X : Finset P) : HashOp P → Option P → Finset P
  | .insert e, none => Insert.insert e X
  | .insert _, some _ => X
  | .replace e, none => Insert.insert e X
  | .replace e, some old => Insert.insert e (X.erase old)
  | .find _, _ => X
  | .delete _, none => X
  | .delete _, some old => X.erase old
  | .clear _, _ => ∅

def HashOp.adds : HashOp P → Option P
  | .insert e => some e
  | .replace e => some e
  | _ => none

structure HashCall.Allowed (h : Hash P) (X : Finset P) (call : HashCall P) : Prop where
  apart : ∀ e, call.op.adds = some e → e ∉ headerNodes h.buckets h.bucketCnt
  fresh : ∀ buckets, call.answer = some buckets → ∀ r, call.op.Returns h.less X r →
    FreshBuckets buckets (newBucketCnt (call.op.after X r).card) (h.uses (call.op.after X r))

end Sets

section Calls

lemma Table.prior_erase {a e : P} (ht : Table m h X) (hp : Prior h.less X e (some a)) :
    Prior h.less (X.erase a) e none := by
  have := ht.lawful.order
  intro b hb
  obtain ⟨hne, hbX⟩ := Finset.mem_erase.mp hb
  by_contra heq
  rw [Bool.not_eq_false] at heq
  exact hne (ht.single b hbX a hp.1 (equivalent_trans heq (equivalent_symm hp.2)))

def HashCall.Leaves (h : Hash P) (X : Finset P) (call : HashCall P) (r : Option P × Hash P) (m' : Links P) : Prop :=
  call.op.Returns h.less X r.1 ∧ r.2.hash = h.hash ∧ r.2.less = h.less ∧ Table m' r.2 (call.op.after X r.1)

variable {call : HashCall P}

lemma HashCall.Allowed.ends_rehash {h' : Hash P} {r : Option P} {n : Nat} (ha : call.Allowed h X)
    (hr : call.op.Returns h.less X r) (hh : h' = { h with elemCnt := n }) (ht : Table m h' (call.op.after X r)) :
    Ends (rehash h' call.answer) m (fun h'' m' => call.Leaves h X (r, h'') m') E := by
  subst hh
  refine (ht.ends_rehash fun buckets hb => ?_).imp fun _ _ hm => ⟨hr, hm⟩
  exact ha.fresh buckets hb r hr

lemma Table.ends_call (ht : Table m h X) (ha : call.Allowed h X) : Ends (call.run h) m (call.Leaves h X) E := by
  obtain ⟨op, answer⟩ := call
  cases op with
  | insert e =>
    simp only [HashCall.run, hashInsert, ends_bind]
    refine (ht.ends_findElem e).imp ?_
    rintro old _ ⟨rfl, hp⟩
    cases old with
    | none =>
      simp only [Option.isNone_none, if_true, ends_bind, ends_pure]
      refine (ht.ends_insertElem hp (ha.apart e rfl)).imp fun h' m' hm => ?_
      exact ha.ends_rehash (r := none) hp hm.1 hm.2
    | some a =>
      simp only [Option.isNone_some, Bool.false_eq_true, if_false, ends_bind, ends_pure]
      exact ha.ends_rehash (r := some a) hp rfl ht
  | replace e =>
    simp only [HashCall.run, hashReplace, ends_bind]
    refine (ht.ends_findElem e).imp ?_
    rintro old _ ⟨rfl, hp⟩
    cases old with
    | none =>
      simp only [ends_bind, ends_pure]
      refine (ht.ends_insertElem hp (ha.apart e rfl)).imp fun h' m' hm => ?_
      exact ha.ends_rehash (r := none) hp hm.1 hm.2
    | some a =>
      simp only [ends_bind, ends_pure]
      refine (ht.ends_removeElem hp.1).imp ?_
      rintro _ m₁ ⟨rfl, ht₁⟩
      refine (ht₁.ends_insertElem (ht.prior_erase hp) (ha.apart e rfl)).imp fun h' m' hm => ?_
      exact ha.ends_rehash (r := some a) hp hm.1 hm.2
  | find e =>
    simp only [HashCall.run, hashFind, ends_bind, ends_pure]
    refine (ht.ends_findElem e).imp ?_
    rintro r _ ⟨rfl, hp⟩
    exact ⟨hp, rfl, rfl, ht⟩
  | delete e =>
    simp only [HashCall.run, hashDelete, ends_bind]
    refine (ht.ends_findElem e).imp ?_
    rintro old _ ⟨rfl, hp⟩
    cases old with
    | none => exact ⟨hp, rfl, rfl, ht⟩
    | some a =>
      simp only [ends_bind]
      refine (ht.ends_removeElem hp.1).imp fun h' m' hm => ?_
      exact ha.ends_rehash (r := some a) hp hm.1 hm.2
  | clear destructor =>
    simp only [HashCall.run, ends_bind, ends_pure]
    exact (ht.ends_hashClear destructor).imp fun _ _ hm => ⟨rfl, hm.1⟩

end Calls

section Machine

variable {hash : P → Nat} {less : P → P → Bool}

structure HashMachine (P : Type) where
  links : Links P
  table : Hash P
  held : Finset P

def hashSystem (hash : P → Nat) (less : P → P → Bool) : System (HashMachine P) (HashCall P) where
  init x := x.held = ∅ ∧ ∃ m buckets, FreshBuckets buckets 4 (fun _ => False) ∧
    hashInit hash less (some buckets) m = .ok (some x.table) x.links
  next x call :=
    match call.run x.table x.links with
    | .ok (r, table) links => some { links, table, held := call.op.after x.held r }
    | .error _ _ => none

lemma reachable_table (hlaw : LawfulHash hash less) {x : HashMachine P}
    (hx : (hashSystem hash less).ReachableWhere (fun x call => call.Allowed x.table x.held) x) :
    x.table.hash = hash ∧ x.table.less = less ∧ Table x.links x.table x.held := by
  refine hx.invariant (I := fun x => x.table.hash = hash ∧ x.table.less = less ∧ Table x.links x.table x.held) ?_ ?_
  · rintro ⟨links, table, held⟩ ⟨hheld, m, buckets, hf, hinit⟩
    obtain ⟨_, _, hrun, rfl, hh⟩ := (ends_hashInit (m := m) hlaw hf).exists_ok
    obtain ⟨rfl, rfl⟩ : _ = table ∧ _ = links := by simpa using hrun.symm.trans hinit
    exact ⟨rfl, rfl, hheld ▸ hh⟩
  · rintro x call y ⟨hhash, hless, ht⟩ ha hs
    obtain ⟨⟨r, h'⟩, m', hrun, -, hhash', hless', ht'⟩ := (ht.ends_call ha).exists_ok
    simp only [hashSystem, hrun, Option.some.injEq] at hs
    subst hs
    exact ⟨hhash'.trans hhash, hless'.trans hless, ht'⟩

theorem hash_table_is_set (hlaw : LawfulHash hash less) {x : HashMachine P}
    (hx : (hashSystem hash less).ReachableWhere (fun x call => call.Allowed x.table x.held) x) :
    Table x.links x.table x.held ∧ ∀ call : HashCall P, call.Allowed x.table x.held → ∃ r h' m',
      call.run x.table x.links = .ok (r, h') m' ∧ call.op.Returns less x.held r ∧
        Table m' h' (call.op.after x.held r) := by
  obtain ⟨-, hless, ht⟩ := reachable_table hlaw hx
  refine ⟨ht, fun call ha => ?_⟩
  obtain ⟨⟨r, h'⟩, m', hrun, hr, -, -, ht'⟩ := (ht.ends_call ha).exists_ok
  exact ⟨r, h', m', hrun, hless ▸ hr, ht'⟩

lemma lawfulHash_byKey (f : Nat → Nat) : LawfulHash f (byKey f) := by
  refine ⟨inferInstance, fun a b hab => ?_⟩
  simp only [equivalent_iff, byKey, decide_eq_true_eq, Nat.not_lt] at hab
  exact Nat.le_antisymm hab.2 hab.1

def pairs (i : Nat) : Header Nat := { head := 2 * i + 10, tail := 2 * i + 11 }

lemma fresh_pairs : FreshBuckets pairs 4 fun _ => False := ⟨by decide, fun _ _ => id⟩

def emptyTable : HashMachine Nat where
  links := (List.range 4).foldl (fun m i => (((m.setPrev (pairs i).head none).setNext (pairs i).head
    (some (pairs i).tail)).setPrev (pairs i).tail (some (pairs i).head)).setNext (pairs i).tail none)
      ⟨fun _ => none, fun _ => none⟩
  table := ⟨0, 4, pairs, (· % 32), byKey (· % 32)⟩
  held := ∅

/-- Without memory for more buckets; the last of these elements is equal to the first. -/
def fullTable : Option (HashMachine Nat) :=
  ((hashSystem (· % 32) (byKey (· % 32))).restrict fun x call => call.answer.isNone &&
      call.op.adds.all (· ∉ headerNodes x.table.buckets x.table.bucketCnt)).exec emptyTable
    ((List.range' 32 15 ++ [64]).map fun e => { op := .insert e, answer := none })

lemma fullTable_reachable {x : HashMachine Nat} (h : fullTable = some x) :
    (hashSystem (· % 32) (byKey (· % 32))).ReachableWhere (fun x call => call.Allowed x.table x.held) x := by
  refine System.reachableWhere_of_exec ⟨rfl, _, pairs, fresh_pairs, rfl⟩ h fun x call hc => ?_
  rw [Bool.and_eq_true, Option.isNone_iff_eq_none] at hc
  refine ⟨fun e he => ?_, fun buckets hb => absurd (hc.1.symm.trans hb) (Option.some_ne_none _).symm⟩
  rw [he] at hc
  exact of_decide_eq_true hc.2

def morePairs (i : Nat) : Header Nat := { head := 2 * i + 100, tail := 2 * i + 101 }

theorem hash_table_is_set_rehashed : ∃ x y, fullTable = some x ∧ x.table.bucketCnt = 4 ∧
    (hashSystem (· % 32) (byKey (· % 32))).next x { op := .insert 47, answer := some morePairs } = some y ∧
      y.table.bucketCnt = 8 ∧ y.held = (List.range' 32 16).toFinset ∧ Table y.links y.table y.held := by
  have hrun : (fullTable.bind fun x => ((hashSystem (· % 32) (byKey (· % 32))).next x
      { op := .insert 47, answer := some morePairs }).map fun y => decide (x.table.bucketCnt = 4 ∧
        x.held = (List.range' 32 15).toFinset ∧ headerNodes x.table.buckets 4 = List.range' 10 8 ∧
        y.table.bucketCnt = 8 ∧ y.held = (List.range' 32 16).toFinset)) = some true := by
    decide +kernel
  obtain ⟨x, hx, hrun⟩ := Option.bind_eq_some_iff.mp hrun
  obtain ⟨y, hy, hfacts⟩ := Option.map_eq_some_iff.mp hrun
  obtain ⟨hcnt, hheld, hnodes, hcnt', hheld'⟩ := of_decide_eq_true hfacts
  have hr := fullTable_reachable hx
  obtain ⟨-, hless, -⟩ := reachable_table (lawfulHash_byKey (· % 32)) hr
  have hnew : ∀ a ∈ (List.range' 32 15).toFinset, equivalent (byKey (· % 32)) a 47 = false := by decide
  have hallowed : HashCall.Allowed x.table x.held { op := .insert 47, answer := some morePairs } := by
    refine ⟨fun e he => ?_, fun buckets hb r hret => ?_⟩
    · cases he
      rw [hcnt, hnodes]
      decide
    · cases hb
      cases r with
      | none => constructor <;> simp only [HashOp.after, Hash.uses, hheld, hcnt, hnodes] <;> decide
      | some a =>
        rw [hheld, hless] at hret
        cases (hnew a hret.1).symm.trans hret.2
  exact ⟨x, y, hx, hcnt, hy, hcnt', hheld', (hash_table_is_set (lawfulHash_byKey (· % 32)) (hr.step hallowed hy)).1⟩

end Machine

end Pintos.Lib
