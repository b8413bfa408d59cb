import Mathlib.Logic.Basic
import Mathlib.Order.Defs.Unbundled

/-! Pre- and postconditions of programs that keep their state when they stop with an error. -/

namespace Pintos.Foundation

variable {ε σ α β : Type} {x : EStateM ε σ α}

/-- Started in `s`, the program returns in a state that satisfies `Q` or stops in one that
satisfies `E`. -/
def Ends (x : EStateM ε σ α) (s : σ) (Q : α → σ → Prop) (E : ε → σ → Prop) : Prop :=
  match x s with
  | .ok a t => Q a t
  | .error e t => E e t

variable {s : σ} {Q : α → σ → Prop} {E : ε → σ → Prop}

@[simp] lemma ends_pure (a : α) : Ends (pure a) s Q E ↔ Q a s := Iff.rfl

@[simp] lemma ends_bind (x : EStateM ε σ β) (f : β → EStateM ε σ α) :
    Ends (x >>= f) s Q E ↔ Ends x s (fun b t => Ends (f b) t Q E) E := by
  change Ends (EStateM.bind x f) s Q E ↔ _
  rw [Ends, Ends, EStateM.bind]
  cases x s <;> rfl

@[simp] lemma ends_get {Q : σ → σ → Prop} : Ends (get : EStateM ε σ σ) s Q E ↔ Q s s := Iff.rfl

@[simp] lemma ends_set {Q : PUnit → σ → Prop} (t : σ) :
    Ends (set t : EStateM ε σ PUnit) s Q E ↔ Q ⟨⟩ t := Iff.rfl

@[simp] lemma ends_modify {Q : PUnit → σ → Prop} (f : σ → σ) :
    Ends (modify f : EStateM ε σ PUnit) s Q E ↔ Q ⟨⟩ (f s) := Iff.rfl

@[simp] lemma ends_throw (e : ε) : Ends (throw e : EStateM ε σ α) s Q E ↔ E e s := Iff.rfl

lemma Ends.mono {Q' : α → σ → Prop} {E' : ε → σ → Prop} (h : Ends x s Q E)
    (hQ : ∀ a t, Q a t → Q' a t) (hE : ∀ e t, E e t → E' e t) : Ends x s Q' E' := by
  rw [Ends] at *
  cases hx : x s with
  | ok a t =>
    rw [hx] at h
    exact hQ a t h
  | error e t =>
    rw [hx] at h
    exact hE e t h

lemma Ends.imp {Q' : α → σ → Prop} (h : Ends x s Q E) (hQ : ∀ a t, Q a t → Q' a t) : Ends x s Q' E :=
  h.mono hQ fun _ _ he => he

lemma Ends.bind {x : EStateM ε σ β} {f : β → EStateM ε σ α} {R : β → σ → Prop}
    (h : Ends x s R E) (hf : ∀ b t, R b t → Ends (f b) t Q E) : Ends (x >>= f) s Q E :=
  (ends_bind x f).mpr (h.imp hf)

lemma Ends.of_ok (h : Ends x s Q E) {a : α} {t : σ} (hx : x s = .ok a t) : Q a t := by
  rwa [Ends, hx] at h

lemma Ends.of_error (h : Ends x s Q E) {e : ε} {t : σ} (hx : x s = .error e t) : E e t := by
  rwa [Ends, hx] at h

lemma Ends.exists_ok (h : Ends x s Q fun _ _ => False) : ∃ a t, x s = .ok a t ∧ Q a t := by
  rw [Ends] at h
  cases hx : x s with
  | ok a t =>
    rw [hx] at h
    exact ⟨a, t, rfl, h⟩
  | error e t =>
    rw [hx] at h
    exact h.elim

lemma Ends.exists_error (h : Ends x s (fun _ _ => False) E) : ∃ e t, x s = .error e t ∧ E e t := by
  rw [Ends] at h
  cases hx : x s with
  | ok a t =>
    rw [hx] at h
    exact h.elim
  | error e t =>
    rw [hx] at h
    exact ⟨e, t, rfl, h⟩

lemma Ends.ite {c : Prop} [Decidable c] {x y : EStateM ε σ α} (hx : c → Ends x s Q E)
    (hy : ¬ c → Ends y s Q E) : Ends (if c then x else y) s Q E := by
  split
  · next h => exact hx h
  · next h => exact hy h

/-- However the program ends, the relation holds between the state before and the state after. -/
def Preserves (R : σ → σ → Prop) (x : EStateM ε σ α) : Prop := ∀ s, Ends x s (fun _ t => R s t) fun _ t => R s t

section Preserves

variable {R : σ → σ → Prop}

lemma preserves_modify {f : σ → σ} (h : ∀ s, R s (f s)) : Preserves R (modify f : EStateM ε σ PUnit) := h

lemma Preserves.ite {c : Prop} [Decidable c] {x y : EStateM ε σ α} (hx : Preserves R x) (hy : Preserves R y) :
    Preserves R (if c then x else y) := fun s => .ite (fun _ => hx s) fun _ => hy s

variable [IsPreorder σ R]

lemma Ends.preserves {s t : σ} (hx : Preserves R x) (h : R s t) :
    Ends x t (fun _ u => R s u) fun _ u => R s u :=
  (hx t).mono (fun _ _ hu => trans_of R h hu) fun _ _ hu => trans_of R h hu

lemma preserves_pure (a : α) : Preserves R (pure a : EStateM ε σ α) := fun s => refl_of R s

lemma preserves_throw (e : ε) : Preserves R (throw e : EStateM ε σ α) := fun s => refl_of R s

lemma Preserves.bind {x : EStateM ε σ β} {f : β → EStateM ε σ α} (hx : Preserves R x) (hf : ∀ b, Preserves R (f b)) :
    Preserves R (x >>= f) := fun s =>
  (hx s).bind fun b _ h => Ends.preserves (hf b) h

lemma Preserves.bind_pure {x : EStateM ε σ β} (hx : Preserves R x) (f : β → α) :
    Preserves R (x >>= fun b => pure (f b)) := hx.bind fun b => preserves_pure (f b)

end Preserves

end Pintos.Foundation
