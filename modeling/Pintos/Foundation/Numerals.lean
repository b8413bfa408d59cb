import Mathlib.Data.Nat.Digits.Lemmas

/-! Digits in groups, and numbers read digit by digit in machine integers. -/

namespace Pintos.Foundation

section Groups

variable {α : Type} {g n : Nat} {sep d : α} {ds es : List α}

def separate (g : Nat) (sep : α) : Nat → List α → List α
  | _, [] => []
  | n, d :: ds => (if 0 < n ∧ n % g = 0 then [sep, d] else [d]) ++ separate g sep (n + 1) ds

inductive Grouped (g : Nat) (sep : α) : List α → List α → Prop
  | last (ds : List α) (h : ds.length ≤ g) : Grouped g sep ds ds
  | block (ds rest text : List α) (h : ds.length = g) (hrest : rest ≠ []) (ht : Grouped g sep rest text) :
    Grouped g sep (ds ++ rest) (ds ++ sep :: text)

lemma separate_append (n : Nat) (ds es : List α) :
    separate g sep n (ds ++ es) = separate g sep n ds ++ separate g sep (n + ds.length) es := by
  induction ds generalizing n with
  | nil => rfl
  | cons d ds ih =>
    rw [List.cons_append, separate, ih, separate, List.append_assoc, List.length_cons, Nat.add_right_comm]
    rfl

lemma getLast?_separate (n : Nat) (ds : List α) : (separate g sep n ds).getLast? = ds.getLast? := by
  induction ds generalizing n with
  | nil => rfl
  | cons d ds ih =>
    rw [separate, List.getLast?_append, ih, List.getLast?_cons]
    cases ds.getLast? with
    | some e => rfl
    | none =>
      split
      · rfl
      · rfl

lemma separate_of_le (h : n + ds.length ≤ g) : separate g sep n ds = ds := by
  induction ds generalizing n with
  | nil => rfl
  | cons d ds ih =>
    rw [List.length_cons] at h
    have hplace : ¬ (0 < n ∧ n % g = 0) := by
      rw [Nat.mod_eq_of_lt (by omega)]
      omega
    rw [separate, if_neg hplace, ih (by omega)]
    rfl

lemma separate_add (hn : 0 < n) : separate g sep (n + g) ds = separate g sep n ds := by
  induction ds generalizing n with
  | nil => rfl
  | cons d ds ih =>
    have hplace : (0 < n + g ∧ (n + g) % g = 0) ↔ (0 < n ∧ n % g = 0) := by
      rw [Nat.add_mod_right, and_iff_right hn, and_iff_right (by omega)]
    rw [separate, separate, if_congr hplace rfl rfl, Nat.add_right_comm, ih (Nat.succ_pos n)]

lemma separate_block (hg : 0 < g) (hlen : ds.length = g) (hes : es ≠ []) :
    separate g sep 0 (ds ++ es) = ds ++ sep :: separate g sep 0 es := by
  obtain ⟨e, es, rfl⟩ := List.exists_cons_of_ne_nil hes
  have hrest : separate g sep (g + 1) es = separate g sep 1 es := Nat.add_comm 1 g ▸ separate_add Nat.one_pos
  rw [separate_append, separate_of_le (by omega), Nat.zero_add, hlen, separate, separate,
    if_pos ⟨hg, Nat.mod_self g⟩, if_neg (by omega), hrest]
  rfl

lemma grouped_separate (hg : 0 < g) (ds : List α) : Grouped g sep ds (separate g sep 0 ds) := by
  induction hn : ds.length using Nat.strong_induction_on generalizing ds with
  | _ n ih =>
    rcases Nat.lt_or_ge g n with hlt | hle
    · have hlen : (ds.take g).length = g := by
        rw [List.length_take]
        omega
      have hdrop : (ds.drop g).length = n - g := by rw [List.length_drop, hn]
      have hrest : ds.drop g ≠ [] := List.ne_nil_of_length_pos (by omega)
      rw [← List.take_append_drop g ds, separate_block hg hlen hrest]
      exact .block _ _ _ hlen hrest (ih (n - g) (by omega) _ hdrop)
    · rw [separate_of_le (by omega)]
      exact .last ds (by omega)

lemma Grouped.filter_eq [DecidableEq α] {text : List α} (h : Grouped g sep ds text) (hsep : sep ∉ ds) :
    text.filter (· ≠ sep) = ds := by
  induction h with
  | last ds _ => exact List.filter_eq_self.mpr fun x hx => decide_eq_true (ne_of_mem_of_not_mem hx hsep)
  | block ds rest text _ _ _ ih =>
    rw [List.mem_append, not_or] at hsep
    rw [List.filter_append, List.filter_cons_of_neg (by simp), ih hsep.2]
    exact congrArg (· ++ rest) (List.filter_eq_self.mpr fun x hx => decide_eq_true (ne_of_mem_of_not_mem hx hsep.1))

lemma Grouped.length_le {text : List α} (h : Grouped g sep ds text) :
    g * text.length ≤ (g + 1) * ds.length := by
  induction h with
  | last ds _ => exact Nat.mul_le_mul_right _ (Nat.le_succ g)
  | block ds rest text hlen _ _ ih =>
    simp only [List.length_append, List.length_cons, hlen, Nat.mul_add, Nat.add_mul, Nat.one_mul, Nat.mul_one] at *
    omega

end Groups

end Pintos.Foundation
