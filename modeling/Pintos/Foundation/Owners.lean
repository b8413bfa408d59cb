import Mathlib.Data.List.Nodup
import Mathlib.Data.List.Pairwise
import Mathlib.Data.List.Lattice

/-! Owners that hold lists of cells, no cell held twice. -/

namespace Pintos.Foundation

variable {α β : Type} {f : α → List β} {l l' : List α} {a b : α} {x : β}

def Exclusive (f : α → List β) (l : List α) : Prop := (l.flatMap f).Nodup

namespace Exclusive

variable (h : Exclusive f l)

include h

lemma holds (ha : a ∈ l) : (f a).Nodup := (List.nodup_flatMap.mp h).1 a ha

lemma eq_of_mem (ha : a ∈ l) (hb : b ∈ l) (hx : x ∈ f a) (hy : x ∈ f b) : a = b := by
  have : Std.Symm (Function.onFun List.Disjoint f) := ⟨fun _ _ hd => List.disjoint_symm hd⟩
  by_contra hne
  exact (List.nodup_flatMap.mp h).2.forall ha hb hne hx hy

lemma cons (ha : (f a).Nodup) (hn : ∀ x ∈ f a, x ∉ l.flatMap f) : Exclusive f (a :: l) := by
  rw [Exclusive, List.flatMap_cons]
  exact List.nodup_append'.mpr ⟨ha, h, fun x hx hx' => hn x hx hx'⟩

lemma sublist (hs : l'.Sublist l) : Exclusive f l' :=
  ⟨fun a ha => (List.nodup_flatMap.mp h).1 a (hs.subset ha), (List.nodup_flatMap.mp h).2.sublist hs⟩
    |> List.nodup_flatMap.mpr

lemma of_map {γ κ : Type} {g : γ → List β} {xs : List γ} {key : γ → κ} {key' : α → κ} (hn : (xs.map key).Nodup)
    (hx : ∀ x ∈ xs, ∃ a ∈ l, key' a = key x ∧ f a = g x) : Exclusive g xs := by
  apply List.nodup_flatMap.mpr
  constructor
  · intro x hm
    obtain ⟨a, ha, _, hg⟩ := hx x hm
    exact hg ▸ h.holds ha
  · apply (List.pairwise_map.mp hn).imp_of_mem
    intro x y hxm hym hne z hz hz'
    obtain ⟨a, ha, hk, hg⟩ := hx x hxm
    obtain ⟨b, hb, hk', hg'⟩ := hx y hym
    rw [← hg] at hz
    rw [← hg'] at hz'
    exact hne (hk.symm.trans ((congrArg key' (h.eq_of_mem ha hb hz hz')).trans hk'))

lemma notMem_erase [DecidableEq α] (ha : a ∈ l) (hx : x ∈ f a) : x ∉ (l.erase a).flatMap f := by
  have hp : (l.flatMap f).Perm ((a :: l.erase a).flatMap f) :=
    (List.perm_cons_erase ha).flatMap_right f
  have hn := hp.nodup_iff.mp h
  rw [List.flatMap_cons] at hn
  exact fun hx' => (List.nodup_append'.mp hn).2.2 hx hx'

end Exclusive

end Pintos.Foundation
