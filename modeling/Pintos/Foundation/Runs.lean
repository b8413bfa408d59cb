import Mathlib.Logic.Basic
import Mathlib.Data.List.Basic

/-! Transition systems with executable steps, their runs, and the invariant rule. -/

namespace Pintos.Foundation

/-- A step is a partial function of the state and a label; a label carries every choice the
environment makes, and `none` says that the step is not enabled. -/
structure System (σ α : Type*) where
  init : σ → Prop
  next : σ → α → Option σ

lemma guard_eq_some {σ : Type*} {c : Prop} [Decidable c] {s t : σ} :
    (if c then some s else none) = some t ↔ c ∧ s = t := by
  rw [Option.ite_none_right_eq_some, Option.some.injEq]

namespace System

variable {σ α : Type*}

inductive ReachableWhere (S : System σ α) (C : σ → α → Prop) : σ → Prop
  | init {s} : S.init s → ReachableWhere S C s
  | step {s a t} : ReachableWhere S C s → C s a → S.next s a = some t → ReachableWhere S C t

def Reachable (S : System σ α) : σ → Prop :=
  S.ReachableWhere fun _ _ => True

inductive Leads (S : System σ α) (s : σ) : σ → Prop
  | refl : Leads S s s
  | tail {t a u} : Leads S s t → S.next t a = some u → Leads S s u

def exec (S : System σ α) : σ → List α → Option σ
  | s, [] => some s
  | s, a :: as => (S.next s a).bind fun t => S.exec t as

variable {S : System σ α} {C : σ → α → Prop} {s t : σ} {as : List α}

lemma ReachableWhere.mono {C D : σ → α → Prop} {s : σ}
    (h : S.ReachableWhere C s) (hcd : ∀ t a, C t a → D t a) : S.ReachableWhere D s := by
  induction h with
  | init hi => exact .init hi
  | step _ hc hs ih => exact .step ih (hcd _ _ hc) hs

lemma ReachableWhere.reachable {s : σ} (h : S.ReachableWhere C s) : S.Reachable s :=
  h.mono fun _ _ _ => trivial

lemma Reachable.init {s : σ} (h : S.init s) : S.Reachable s :=
  ReachableWhere.init h

lemma Reachable.step {a : α} (h : S.Reachable s) (hs : S.next s a = some t) : S.Reachable t :=
  ReachableWhere.step h trivial hs

lemma ReachableWhere.invariant {I : σ → Prop} (hinit : ∀ s, S.init s → I s)
    (hstep : ∀ s a t, I s → C s a → S.next s a = some t → I t) {s : σ} (h : S.ReachableWhere C s) : I s := by
  induction h with
  | init hi => exact hinit _ hi
  | step _ hc hs ih => exact hstep _ _ _ ih hc hs

lemma Reachable.invariant {I : σ → Prop} (hinit : ∀ s, S.init s → I s)
    (hstep : ∀ s a t, I s → S.next s a = some t → I t) {s : σ} (h : S.Reachable s) : I s :=
  ReachableWhere.invariant hinit (fun s a t hi _ hs => hstep s a t hi hs) h

lemma Reachable.leads (h : S.Reachable s) (hl : S.Leads s t) : S.Reachable t := by
  induction hl with
  | refl => exact h
  | tail _ hs ih => exact ih.step hs

lemma Leads.head {s t u : σ} {a : α} (hs : S.next s a = some t) (h : S.Leads t u) : S.Leads s u := by
  induction h with
  | refl => exact .tail .refl hs
  | tail _ hn ih => exact .tail ih hn

lemma exec_leads (h : S.exec s as = some t) : S.Leads s t := by
  induction as generalizing s with
  | nil =>
    cases Option.some.inj h
    exact .refl
  | cons a as ih =>
    obtain ⟨u, hu, ht⟩ := Option.bind_eq_some_iff.mp h
    exact (ih ht).head hu

lemma exec_reachableWhere
    (hs : S.ReachableWhere C s) (hc : ∀ a ∈ as, ∀ u, C u a) (h : S.exec s as = some t) :
    S.ReachableWhere C t := by
  induction as generalizing s with
  | nil =>
    cases Option.some.inj h
    exact hs
  | cons a as ih =>
    obtain ⟨u, hu, ht⟩ := Option.bind_eq_some_iff.mp h
    have hu' := hs.step (hc a List.mem_cons_self s) hu
    exact ih hu' (fun b hb => hc b (List.mem_cons_of_mem _ hb)) ht

lemma exec_reachable (hs : S.Reachable s) (h : S.exec s as = some t) : S.Reachable t :=
  exec_reachableWhere hs (fun _ _ _ => trivial) h

lemma exists_reachable_of_exec {P : σ → Prop} [DecidablePred P] (hs : S.init s)
    (h : ((S.exec s as).map fun t => decide (P t)) = some true) : ∃ t, S.Reachable t ∧ P t := by
  obtain ⟨t, ht, hp⟩ := Option.map_eq_some_iff.mp h
  exact ⟨t, exec_reachable (.init hs) ht, of_decide_eq_true hp⟩

def restrict (S : System σ α) (c : σ → α → Bool) : System σ α where
  init := S.init
  next s a := if c s a then S.next s a else none

lemma Reachable.of_restrict {c : σ → α → Bool} {s : σ}
    (h : (S.restrict c).Reachable s) (hc : ∀ s a, c s a = true → C s a) : S.ReachableWhere C s := by
  refine h.invariant (fun s hi => .init hi) fun s a t hr hs => ?_
  simp only [restrict, Option.ite_none_right_eq_some] at hs
  exact hr.step (hc s a hs.1) hs.2

lemma reachableWhere_of_exec {c : σ → α → Bool} (hs : S.init s) (h : (S.restrict c).exec s as = some t)
    (hc : ∀ s a, c s a = true → C s a) : S.ReachableWhere C t :=
  Reachable.of_restrict (exec_reachable (.init hs) h) hc

end System

end Pintos.Foundation
