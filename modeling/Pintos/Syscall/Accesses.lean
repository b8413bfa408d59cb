import Pintos.Syscall.Handler

/-! What the handler reads and writes at the addresses it is given. -/

namespace Pintos.Syscall

open Pintos.Foundation Pintos.Kernel Pintos.Filesys Pintos.Userprog

def userRange : Range := ⟨0x08048000, 0xb7fb8000⟩

def InUser (r : Range) : Prop := ∀ x, r.Mem x → userRange.Mem x

lemma mem_userRange {x : Nat} : userRange.Mem x ↔ 0x08048000 ≤ x ∧ x < physBase := Iff.rfl

lemma inUser_word {va : Nat} : InUser ⟨va, 4⟩ ↔ userRange.Mem va ∧ userRange.Mem (va + 3) := by
  constructor
  · intro h
    exact ⟨h va ⟨le_rfl, by simp only; omega⟩, h (va + 3) ⟨by simp only; omega, by simp only; omega⟩⟩
  · rintro ⟨h, h'⟩ x ⟨hx, hx'⟩
    simp only at hx hx'
    rw [mem_userRange] at h h' ⊢
    omega

lemma inUser_iff {va size : Nat} : InUser ⟨va, size⟩ ↔ ∀ i < size, userRange.Mem (va + i) := by
  constructor
  · intro h i hi
    exact h (va + i) ⟨by simp only; omega, by simp only; omega⟩
  · rintro h x ⟨hx, hx'⟩
    simp only at hx hx'
    obtain ⟨i, rfl⟩ := Nat.exists_eq_add_of_le hx
    exact h i (by omega)

structure Looked (k t : Kernel) : Prop where
  rest : { t with accesses := k.accesses } = k
  inUser : ∀ r ∈ t.accesses, r ∈ k.accesses ∨ InUser r

lemma Looked.refl (k : Kernel) : Looked k k := ⟨rfl, fun _ hr => .inl hr⟩

lemma Looked.trans {k t u : Kernel} (h : Looked k t) (h' : Looked t u) : Looked k u where
  rest := (congrArg (fun x : Kernel => { x with accesses := k.accesses }) h'.rest).trans h.rest
  inUser r hr := (h'.inUser r hr).elim (h.inUser r) .inr

section Looks

variable {α : Type} {k t : Kernel} {E : Stop → Kernel → Prop}

lemma Looked.space (h : Looked k t) : t.space = k.space := (congrArg Kernel.space h.rest :)

lemma Looked.readable (h : Looked k t) (r : Range) : t.Readable r ↔ k.Readable r := by
  rw [Kernel.Readable, Kernel.Readable, h.space]

variable {n size str va : Nat} {Q : Unit → Kernel → Prop}

lemma ends_checkAddress {addr : Nat} (hok : userRange.Mem addr → Q () k)
    (hexit : ¬ userRange.Mem addr → E (.exited (-1)) k) : Ends (checkAddress addr) k Q E := by
  refine Ends.ite (fun h => hok ?_) fun h => hexit fun hm => h ?_
  · exact mem_userRange.mpr ⟨h.2, of_decide_eq_true h.1⟩
  · exact ⟨decide_eq_true (mem_userRange.mp hm).2, (mem_userRange.mp hm).1⟩

lemma ends_checkAddress4 {addr : Nat} (hok : InUser ⟨addr, 4⟩ → Q () k)
    (hexit : ¬ InUser ⟨addr, 4⟩ → E (.exited (-1)) k) : Ends (checkAddress4 addr) k Q E := by
  rw [checkAddress4, ends_bind]
  refine ends_checkAddress (fun h => ?_) fun h => hexit fun hu => h (inUser_word.mp hu).1
  have hlt := (mem_userRange.mp h).2
  rw [wrap_of_lt (by rw [physBase] at hlt; omega)]
  exact ends_checkAddress (fun h' => hok (inUser_word.mpr ⟨h, h'⟩)) fun h' =>
    hexit fun hu => h' (inUser_word.mp hu).2

lemma ends_load {r : Range} {Q : List Byte → Kernel → Prop} (hr : InUser r)
    (hok : k.Readable r → ∀ t, Looked k t → Q (k.space.bytes.read r.start r.size) t)
    (hfault : ¬ k.Readable r → ∀ t, Looked k t → E (.panicked .kernelBug) t) : Ends (load r) k Q E := by
  have hl : Looked k { k with accesses := r :: k.accesses } :=
    ⟨rfl, fun q hq => (List.mem_cons.mp hq).elim (fun he => .inr (he ▸ hr)) .inl⟩
  simp only [load, ends_bind, ends_modify, ends_get]
  exact Ends.ite (fun h => hok h _ hl) fun h => hfault h _ hl

def Kernel.wordAt (k : Kernel) (va : Nat) : Word := .ofNat 32 (k.space.bytes.load va)

lemma ends_loadWord {Q : Word → Kernel → Prop} (hr : InUser ⟨va, 4⟩)
    (hok : k.Readable ⟨va, 4⟩ → ∀ t, Looked k t → Q (k.wordAt va) t)
    (hfault : ¬ k.Readable ⟨va, 4⟩ → ∀ t, Looked k t → E (.panicked .kernelBug) t) :
    Ends (loadWord va) k Q E := by
  rw [loadWord, ends_bind]
  refine ends_load hr (fun h t ht => ?_) hfault
  rw [ends_pure, Memory.wordOf_read _ le_rfl]
  exact hok h t ht

def Kernel.args (k : Kernel) : Nat → Nat → List Word
  | _, 0 => []
  | esp, count + 1 => k.wordAt (esp + 4) :: k.args (esp + 4) count

lemma Looked.wordAt (h : Looked k t) (va : Nat) : t.wordAt va = k.wordAt va := by
  rw [Kernel.wordAt, Kernel.wordAt, h.space]

lemma Looked.args (h : Looked k t) (esp count : Nat) : t.args esp count = k.args esp count := by
  induction count generalizing esp with
  | zero => rfl
  | succ count ih => rw [Kernel.args, Kernel.args, h.wordAt, ih]

def argRange (esp i : Nat) : Range := ⟨esp + 4 * (i + 1), 4⟩

lemma argRange_succ (esp i : Nat) : argRange (esp + 4) i = argRange esp (i + 1) := by
  rw [argRange, argRange]
  congr 1
  omega

lemma ends_argumentLoop {esp count : Nat} {Q : List Word → Kernel → Prop} (hesp : userRange.Mem esp)
    (hok : (∀ i < count, InUser (argRange esp i) ∧ k.Readable (argRange esp i)) →
      ∀ t, Looked k t → Q (k.args esp count) t)
    (hexit : ∀ j < count, ¬ InUser (argRange esp j) → (∀ i < j, k.Readable (argRange esp i)) →
      ∀ t, Looked k t → E (.exited (-1)) t)
    (hfault : ∀ j < count, InUser (argRange esp j) → ¬ k.Readable (argRange esp j) →
      ∀ t, Looked k t → E (.panicked .kernelBug) t) : Ends (argumentLoop esp count) k Q E := by
  induction count generalizing esp k Q with
  | zero => exact hok (by simp) k (.refl k)
  | succ count ih =>
    have hlt := (mem_userRange.mp hesp).2
    have hwrap : wrap (esp + 4) = esp + 4 := wrap_of_lt (by rw [physBase] at hlt; omega)
    simp only [argumentLoop, ends_bind, hwrap]
    refine ends_checkAddress4 (fun hu => ?_) fun hu => hexit 0 (by omega) hu (by simp) k (.refl k)
    refine ends_loadWord hu (fun hr t ht => ?_) fun hr => hfault 0 (by omega) hu hr
    apply ih (inUser_word.mp hu).1
    · intro hall u hu'
      rw [ends_pure, ht.args]
      refine hok (fun i hi => ?_) u (ht.trans hu')
      cases i with
      | zero => exact ⟨hu, hr⟩
      | succ i =>
        have h := hall i (by omega)
        rwa [argRange_succ, ht.readable] at h
    · intro j hj hout hall u hu'
      rw [argRange_succ] at hout
      refine hexit (j + 1) (by omega) hout (fun i hi => ?_) u (ht.trans hu')
      cases i with
      | zero => exact hr
      | succ i =>
        have h := hall i (by omega)
        rwa [argRange_succ, ht.readable] at h
    · intro j hj hin hun u hu'
      rw [argRange_succ] at hin hun
      rw [ht.readable] at hun
      exact hfault (j + 1) (by omega) hin hun u (ht.trans hu')

lemma getArguments_eq {count : Nat} (hcount : 1 ≤ count ∧ count ≤ 4) (esp : Nat) :
    getArguments esp count = argumentLoop esp count := by
  rw [getArguments, assertSys, if_pos hcount]
  rfl

lemma ends_checkUserStringL (hok : InUser ⟨str, size⟩ → Q () k)
    (hexit : ¬ InUser ⟨str, size⟩ → E (.exited (-1)) k) : Ends (checkUserStringL str size) k Q E := by
  rw [inUser_iff] at hok hexit
  induction size generalizing str with
  | zero => exact hok (by simp)
  | succ size ih =>
    rw [checkUserStringL, ends_bind]
    refine ends_checkAddress (fun h => ?_) fun h => hexit fun hall => h (hall 0 (by omega))
    have hlt := (mem_userRange.mp h).2
    rw [wrap_of_lt (by rw [physBase] at hlt; omega)]
    rw [forall_offset_succ userRange.Mem] at hok hexit
    exact ih (fun hall => hok ⟨h, hall⟩) fun hout => hexit fun hall => hout hall.2

structure Kernel.Char (k : Kernel) (va : Nat) : Prop where
  inUser : userRange.Mem va
  readable : k.Readable ⟨va, 1⟩
  ne_zero : k.space.bytes va ≠ 0

structure Kernel.TextAt (k : Kernel) (str n : Nat) : Prop where
  chars : ∀ i < n, k.Char (str + i)
  inUser : userRange.Mem (str + n)
  readable : k.Readable ⟨str + n, 1⟩
  zero : k.space.bytes (str + n) = 0

lemma Looked.char (h : Looked k t) (va : Nat) : t.Char va ↔ k.Char va := by
  constructor
  · rintro ⟨hu, hr, hz⟩
    exact ⟨hu, (h.readable _).mp hr, h.space ▸ hz⟩
  · rintro ⟨hu, hr, hz⟩
    exact ⟨hu, (h.readable _).mpr hr, h.space ▸ hz⟩

lemma Looked.textAt (h : Looked k t) (str n : Nat) : t.TextAt str n ↔ k.TextAt str n := by
  constructor
  · rintro ⟨hc, hu, hr, hz⟩
    exact ⟨fun i hi => (h.char _).mp (hc i hi), hu, (h.readable _).mp hr, h.space ▸ hz⟩
  · rintro ⟨hc, hu, hr, hz⟩
    exact ⟨fun i hi => (h.char _).mpr (hc i hi), hu, (h.readable _).mpr hr, h.space ▸ hz⟩

lemma Kernel.Char.cons (h : k.Char str) (hs : ∀ i < n, k.Char (str + 1 + i)) :
    ∀ i < n + 1, k.Char (str + i) :=
  (forall_offset_succ k.Char).mpr ⟨h, hs⟩

lemma Kernel.Char.textAt (h : k.Char str) (ht : k.TextAt (str + 1) n) : k.TextAt str (n + 1) := by
  have he : str + 1 + n = str + (n + 1) := by omega
  exact ⟨h.cons ht.chars, he ▸ ht.inUser, he ▸ ht.readable, he ▸ ht.zero⟩

lemma Kernel.TextAt.tail (h : k.TextAt str (n + 1)) : k.TextAt (str + 1) n := by
  have he : str + (n + 1) = str + 1 + n := by omega
  exact ⟨((forall_offset_succ k.Char).mp h.chars).2, he ▸ h.inUser, he ▸ h.readable, he ▸ h.zero⟩

lemma inUser_byte (h : userRange.Mem va) : InUser ⟨va, 1⟩ :=
  inUser_iff.mpr fun i hi => by rwa [Nat.lt_one_iff.mp hi]

lemma ends_loadChar {Q : List Byte → Kernel → Prop} (h : userRange.Mem va)
    (hok : k.Readable ⟨va, 1⟩ → ∀ t, Looked k t → Q [k.space.bytes va] t)
    (hfault : ¬ k.Readable ⟨va, 1⟩ → ∀ t, Looked k t → E (.panicked .kernelBug) t) : Ends (load ⟨va, 1⟩) k Q E :=
  ends_load (inUser_byte h) hok hfault

lemma ends_checkStringLoop {fuel : Nat} (hfuel : physBase ≤ str + fuel)
    (hok : ∀ n, k.TextAt str n → ∀ t, Looked k t → Q () t)
    (hexit : ∀ n, (∀ i < n, k.Char (str + i)) → ¬ userRange.Mem (str + n) → ∀ t, Looked k t → E (.exited (-1)) t)
    (hfault : ∀ n, (∀ i < n, k.Char (str + i)) → userRange.Mem (str + n) → ¬ k.Readable ⟨str + n, 1⟩ →
      ∀ t, Looked k t → E (.panicked .kernelBug) t) : Ends (checkStringLoop (fuel + 1) str) k Q E := by
  induction fuel generalizing k str Q with
  | zero =>
    rw [checkStringLoop, ends_bind]
    refine ends_checkAddress (fun hu => ?_) fun hu => hexit 0 (by simp) hu k (.refl k)
    have hlt := (mem_userRange.mp hu).2
    omega
  | succ fuel ih =>
    rw [checkStringLoop]
    simp only [ends_bind]
    refine ends_checkAddress (fun hu => ?_) fun hu => hexit 0 (by simp) hu k (.refl k)
    refine ends_loadChar hu (fun hr t ht => ?_) fun hr => hfault 0 (by simp) hu hr
    have hlt := (mem_userRange.mp hu).2
    rw [wrap_of_lt (by rw [physBase] at hlt; omega)]
    refine Ends.ite (fun hz => ?_) fun hz => hok 0 ⟨by simp, hu, hr, not_not.mp hz⟩ t ht
    have hc : k.Char str := ⟨hu, hr, hz⟩
    refine ih (by omega) (fun n htext u hu' => ?_) (fun n hchars hout u hu' => ?_) fun n hchars hin hun u hu' => ?_
    · exact hok (n + 1) (hc.textAt ((ht.textAt _ _).mp htext)) u (ht.trans hu')
    · rw [show str + 1 + n = str + (n + 1) by omega] at hout
      exact hexit (n + 1) (hc.cons fun i hi => (ht.char _).mp (hchars i hi)) hout u (ht.trans hu')
    · rw [show str + 1 + n = str + (n + 1) by omega] at hin hun
      rw [ht.readable] at hun
      exact hfault (n + 1) (hc.cons fun i hi => (ht.char _).mp (hchars i hi)) hin hun u (ht.trans hu')

lemma ends_strlenLoop {fuel acc : Nat} {Q : Nat → Kernel → Prop} (hfuel : n < fuel) (h : k.TextAt str n)
    (hok : ∀ t, Looked k t → Q (acc + n) t) : Ends (strlenLoop fuel str acc) k Q E := by
  induction n generalizing k fuel str acc with
  | zero =>
    obtain ⟨fuel, rfl⟩ := Nat.exists_eq_add_one_of_ne_zero (Nat.ne_of_gt hfuel)
    rw [strlenLoop, ends_bind]
    refine ends_loadChar h.inUser (fun _ t ht => ?_) fun hr => absurd h.readable hr
    exact Ends.ite (fun hne => absurd h.zero hne) fun _ => hok t ht
  | succ n ih =>
    obtain ⟨fuel, rfl⟩ := Nat.exists_eq_add_one_of_ne_zero (Nat.ne_zero_of_lt hfuel)
    obtain ⟨hu, hr, hz⟩ := h.chars 0 (by omega)
    rw [strlenLoop, ends_bind]
    refine ends_loadChar hu (fun _ t ht => ?_) fun hr' => absurd hr hr'
    have hlt := (mem_userRange.mp hu).2
    rw [wrap_of_lt (by rw [physBase] at hlt; omega)]
    refine Ends.ite (fun _ => ?_) fun hz' => absurd hz hz'
    apply ih (by omega) ((ht.textAt _ _).mpr h.tail)
    intro u hu'
    rw [Nat.add_right_comm, Nat.add_assoc]
    exact hok u (ht.trans hu')

def Kernel.asked (k : Kernel) : Kernel := { k with fs := { k.fs with mallocs := (malloc k.fs.mallocs).2 } }

lemma ends_mallocBytes (hsize : size ≠ 0) {Q : Bool → Kernel → Prop} :
    Ends (mallocBytes size) k Q E ↔ Q (malloc k.fs.mallocs).1 k.asked := by
  rw [mallocBytes, if_neg hsize]
  rfl

lemma ends_getUserStringL {Q : Option (List Byte) → Kernel → Prop} (hu : InUser ⟨str, size⟩)
    (hzero : size = 0 → Q none k)
    (hnone : size ≠ 0 → (malloc k.fs.mallocs).1 = false → Q none k.asked)
    (hok : size ≠ 0 → (malloc k.fs.mallocs).1 = true → k.Readable ⟨str, size⟩ →
      ∀ t, Looked k.asked t → Q (some (k.space.bytes.read str size)) t)
    (hfault : size ≠ 0 → (malloc k.fs.mallocs).1 = true → ¬ k.Readable ⟨str, size⟩ →
      ∀ t, Looked k.asked t → E (.panicked .kernelBug) t) : Ends (getUserStringL str size) k Q E := by
  rw [getUserStringL, ends_bind]
  by_cases hsize : size = 0
  · subst hsize
    exact hzero rfl
  · rw [ends_mallocBytes hsize]
    cases hm : (malloc k.fs.mallocs).1 with
    | false => exact hnone hsize hm
    | true =>
      simp only [if_true, ends_bind]
      exact ends_load hu (fun hr t ht => hok hsize hm hr t ht) (hfault hsize hm)

lemma Looked.asked (h : Looked k t) : Looked k.asked t.asked where
  rest := (congrArg Kernel.asked h.rest :)
  inUser := h.inUser

lemma Kernel.TextAt.inUser_range (h : k.TextAt str n) : InUser ⟨str, n + 1⟩ := by
  refine inUser_iff.mpr fun i hi => ?_
  rcases Nat.lt_or_eq_of_le (Nat.le_of_lt_succ hi) with hlt | rfl
  · exact (h.chars i hlt).inUser
  · exact h.inUser

lemma Kernel.TextAt.readable_range (h : k.TextAt str n) : k.Readable ⟨str, n + 1⟩ := by
  intro i hi
  rcases Nat.lt_or_eq_of_le (Nat.le_of_lt_succ hi) with hlt | rfl
  · exact (h.chars i hlt).readable 0 Nat.one_pos
  · exact h.readable 0 Nat.one_pos

lemma ends_getUserString {Q : Option (List Byte) → Kernel → Prop} (h : k.TextAt str n)
    (hnone : (malloc k.fs.mallocs).1 = false → ∀ t, Looked k.asked t → Q none t)
    (hok : (malloc k.fs.mallocs).1 = true →
      ∀ t, Looked k.asked t → Q (some (k.space.bytes.read str (n + 1))) t) : Ends (getUserString str) k Q E := by
  have hlt : n < physBase + 1 := by
    have hn := (mem_userRange.mp h.inUser).2
    omega
  rw [getUserString, ends_bind]
  refine ends_strlenLoop hlt h fun t ht => ?_
  have hfs : t.fs = k.fs := (congrArg Kernel.fs ht.rest :)
  rw [Nat.zero_add]
  refine ends_getUserStringL h.inUser_range (fun hz => absurd hz (Nat.succ_ne_zero n)) (fun _ hm => ?_)
    (fun _ hm _ u hu => ?_) fun _ _ hr => absurd ((ht.readable _).mpr h.readable_range) hr
  · exact hnone (hfs ▸ hm) _ ht.asked
  · rw [ht.space]
    exact hok (hfs ▸ hm) u (ht.asked.trans hu)

lemma ends_getUserStrings {args : List Word} (hstr : (args.getD 0 0).toNat = str)
    {Q : List (List Byte) → Kernel → Prop}
    (hok : ∀ n, k.TextAt str n → (malloc k.fs.mallocs).1 = true →
      ∀ t, Looked k.asked t → Q [k.space.bytes.read str (n + 1), [], [], []] t)
    (hnone : ∀ n, k.TextAt str n → (malloc k.fs.mallocs).1 = false →
      ∀ t, Looked k.asked t → E (.exited (-1)) t)
    (hexit : ∀ n, (∀ i < n, k.Char (str + i)) → ¬ userRange.Mem (str + n) → ∀ t, Looked k t → E (.exited (-1)) t)
    (hfault : ∀ n, (∀ i < n, k.Char (str + i)) → userRange.Mem (str + n) → ¬ k.Readable ⟨str + n, 1⟩ →
      ∀ t, Looked k t → E (.panicked .kernelBug) t) : Ends (getUserStrings args 8) k Q E := by
  have h0 : isFlagged 8 0 = true := by decide
  have h1 : isFlagged 8 1 = false := by decide
  have h2 : isFlagged 8 2 = false := by decide
  have h3 : isFlagged 8 3 = false := by decide
  simp only [getUserStrings, assertSys, checkSingleUserString, getSingleUserString, h0, h1, h2, h3, hstr, if_true,
    Bool.false_eq_true, if_false, ends_bind, ends_pure, show (8 : Nat) ≤ 15 by omega]
  rw [checkUserString]
  refine ends_checkStringLoop (Nat.le_add_left _ _) (fun n htext t ht => ?_) hexit hfault
  have hfs : t.fs = k.fs := (congrArg Kernel.fs ht.rest :)
  refine ends_getUserString ((ht.textAt _ _).mpr htext) (fun hm u hu => ?_) fun hm u hu => ?_
  · exact hnone n htext (hfs ▸ hm) u (ht.asked.trans hu)
  · rw [ht.space]
    exact hok n htext (hfs ▸ hm) u (ht.asked.trans hu)

end Looks

end Pintos.Syscall
