import Mathlib.Data.List.Basic

/-! Loops over lists that may stop with an error. -/

namespace Pintos.Foundation

variable {α β ε : Type} {f : β → α → Except ε β} {xs : List α} {b b' : β}

lemma foldlM_cons_ok {x : α} : (x :: xs).foldlM f b = .ok b' ↔ ∃ c, f b x = .ok c ∧ xs.foldlM f c = .ok b' := by
  rw [List.foldlM_cons]
  cases hx : f b x with
  | error e => exact iff_of_false (fun h => nomatch h) fun ⟨_, h, _⟩ => nomatch h
  | ok c =>
    constructor
    · exact fun h => ⟨c, rfl, h⟩
    · rintro ⟨c', hc, h⟩
      rwa [Except.ok.inj hc]

lemma foldlM_invariant {I : β → Prop} (hstep : ∀ b, ∀ x ∈ xs, ∀ b', I b → f b x = .ok b' → I b') (hb : I b)
    (h : xs.foldlM f b = .ok b') : I b' := by
  induction xs generalizing b with
  | nil =>
    obtain rfl := Except.ok.inj h
    exact hb
  | cons x xs ih =>
    obtain ⟨c, hc, hrest⟩ := foldlM_cons_ok.mp h
    exact ih (fun b y hy => hstep b y (List.mem_cons_of_mem _ hy)) (hstep b x List.mem_cons_self c hb hc) hrest

lemma exists_foldlM {I : List α → β → Prop}
    (hstep : ∀ ys x zs b, xs = ys ++ x :: zs → I ys b → ∃ b', f b x = .ok b' ∧ I (ys ++ [x]) b') (hb : I [] b) :
    ∃ b', xs.foldlM f b = .ok b' ∧ I xs b' := by
  suffices hgen : ∀ zs ys b, xs = ys ++ zs → I ys b → ∃ b', zs.foldlM f b = .ok b' ∧ I xs b' from hgen xs [] b rfl hb
  intro zs
  induction zs with
  | nil =>
    intro ys b hxs hb
    rw [List.append_nil] at hxs
    exact ⟨b, rfl, hxs ▸ hb⟩
  | cons z zs ih =>
    intro ys b hxs hb
    obtain ⟨c, hc, hI⟩ := hstep ys z zs b hxs hb
    obtain ⟨b', hb', hI'⟩ := ih (ys ++ [z]) c (by rw [hxs, List.append_cons]) hI
    exact ⟨b', foldlM_cons_ok.mpr ⟨c, hc, hb'⟩, hI'⟩

end Pintos.Foundation
