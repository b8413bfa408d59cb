import Mathlib.Data.List.Forall2
import Pintos.Foundation.Bytes
import Pintos.Foundation.Tokens
import Pintos.Kernel.Machine

/-! Breaking a string into tokens. -/

namespace Pintos.Lib

open Pintos.Foundation Pintos.Kernel

/-- The string is the list and the null byte after it; the answer is an index. -/
def strchr (string : List Byte) (c : Byte) : Option Nat :=
  match string with
  | [] => if c = 0 then some 0 else none
  | b :: bs => if b = c then some 0 else if b = 0 then none else (strchr bs c).map (· + 1)

/-- The loop over the delimiters at the current position: where it stops, and whether the string ends there. -/
def skipDelimiters (delimiters : List Byte) (m : Memory) (s : Nat) : Except Panic (Nat × Bool) :=
  if s < 4294967296 then
    if strchr delimiters (m s) ≠ none then
      if m s = 0 then .ok (s, true) else skipDelimiters delimiters m (s + 1)
    else .ok (s, false)
  else .error .wildPointer
termination_by 4294967296 - s

def skipToken (delimiters : List Byte) (m : Memory) (s : Nat) : Except Panic Nat :=
  if s < 4294967296 then
    if strchr delimiters (m s) = none then skipToken delimiters m (s + 1) else .ok s
  else .error .wildPointer
termination_by 4294967296 - s

structure Tokenizer where
  token : Nat
  savePtr : Nat
  memory : Memory

def strtokR (m : Memory) (s : Nat) (delimiters : List Byte) (savePtr : Nat) : Except Panic Tokenizer := do
  let s := if s = 0 then savePtr else s
  assertThat (s ≠ 0) .strtokS
  let (s, ended) ← skipDelimiters delimiters m s
  if ended then return ⟨0, s, m⟩
  let token := s
  let s ← skipToken delimiters m s
  if m s ≠ 0 then return ⟨token, s + 1, Function.update m s 0⟩
  else return ⟨token, s, m⟩

/-- So many calls, the first with `s` and the others with a null pointer: what they return. -/
def strtokCalls (m : Memory) (s : Nat) (delimiters : List Byte) (savePtr : Nat) :
    Nat → Except Panic (List Nat × Memory)
  | 0 => return ([], m)
  | n + 1 => do
    let t ← strtokR m s delimiters savePtr
    let (tokens, m) ← strtokCalls t.memory 0 delimiters t.savePtr n
    return (t.token :: tokens, m)

def isToken (delimiters : List Byte) (c : Byte) : Bool := !delimiters.contains c

structure IsString (m : Memory) (a : Nat) (xs : List Byte) : Prop where
  read : m.read a (xs.length + 1) = xs ++ [0]
  noNul : 0 ∉ xs
  nonnull : a ≠ 0
  bound : a + xs.length < 4294967296

lemma strchr_eq_none {delimiters : List Byte} (hd : 0 ∉ delimiters) {c : Byte} :
    strchr delimiters c = none ↔ c ≠ 0 ∧ isToken delimiters c = true := by
  induction delimiters with
  | nil => simp [strchr, isToken]
  | cons b bs ih =>
    have hb : b ≠ 0 := fun h => hd (by simp [h])
    have hbs := ih fun h => hd (List.mem_cons_of_mem _ h)
    by_cases hbc : b = c
    · simp [strchr, isToken, hbc]
    · rw [strchr, if_neg hbc, if_neg hb, Option.map_eq_none_iff, hbs]
      simp [isToken, Ne.symm hbc]

namespace IsString

variable {m : Memory} {a : Nat} {xs : List Byte}

lemma head {x : Byte} (h : IsString m a (x :: xs)) : m a = x := by
  have hread := h.read
  rw [List.length_cons, Memory.read] at hread
  exact (List.cons.inj hread).1

lemma tail {x : Byte} (h : IsString m a (x :: xs)) : IsString m (a + 1) xs where
  read := by
    have hread := h.read
    rw [List.length_cons, Memory.read] at hread
    exact (List.cons.inj hread).2
  noNul hx := h.noNul (List.mem_cons_of_mem _ hx)
  nonnull := by omega
  bound := by
    have hbound := h.bound
    rw [List.length_cons] at hbound
    omega

lemma nul (h : IsString m a []) : m a = 0 := by
  have hread := h.read
  rw [List.length_nil, Memory.read] at hread
  exact (List.cons.inj hread).1

lemma drop (h : IsString m a xs) {k : Nat} (hk : k ≤ xs.length) : IsString m (a + k) (xs.drop k) := by
  induction k with
  | zero => exact h
  | succ k ih =>
    rw [List.drop_eq_getElem_cons (by omega)] at ih
    exact (ih (by omega)).tail

lemma append {ys : List Byte} (h : IsString m a (xs ++ ys)) : IsString m (a + xs.length) ys := by
  have hdrop := h.drop (k := xs.length) (by simp)
  rwa [List.drop_left] at hdrop

end IsString

section Loops

variable {m : Memory} {a : Nat} {delimiters ds ts xs : List Byte} {c : Byte}

lemma IsString.strchr_eq_none (h : IsString m a (c :: xs)) (hd : 0 ∉ delimiters) :
    strchr delimiters (m a) = none ↔ isToken delimiters c = true := by
  have hc : c ≠ 0 := fun h0 => h.noNul (by simp [h0])
  rw [h.head, Lib.strchr_eq_none hd]
  exact and_iff_right hc

lemma IsString.strchr_ne_none (h : IsString m a []) (hd : 0 ∉ delimiters) : strchr delimiters (m a) ≠ none := by
  rw [h.nul]
  exact fun hn => ((Lib.strchr_eq_none hd).mp hn).1 rfl

lemma IsString.lt (h : IsString m a xs) : a < 4294967296 := by
  have hbound := h.bound
  omega

variable (hd : 0 ∉ delimiters)

include hd

lemma skipDelimiters_append (h : IsString m a (ds ++ xs)) (hds : ∀ x ∈ ds, isToken delimiters x = false) :
    skipDelimiters delimiters m a = skipDelimiters delimiters m (a + ds.length) := by
  induction ds generalizing a with
  | nil => rfl
  | cons x ds ih =>
    have hx : x ≠ 0 := fun h0 => h.noNul (by simp [h0])
    have hdelim : strchr delimiters (m a) ≠ none := fun hn =>
      Bool.noConfusion ((hds x List.mem_cons_self).symm.trans ((h.strchr_eq_none hd).mp hn))
    rw [skipDelimiters, if_pos h.lt, if_pos hdelim, if_neg (h.head ▸ hx),
      ih h.tail (fun y hy => hds y (List.mem_cons_of_mem _ hy)), List.length_cons, Nat.add_assoc, Nat.add_comm 1]

lemma skipToken_append (h : IsString m a (ts ++ xs)) (hts : ∀ x ∈ ts, isToken delimiters x = true) :
    skipToken delimiters m a = skipToken delimiters m (a + ts.length) := by
  induction ts generalizing a with
  | nil => rfl
  | cons x ts ih =>
    rw [skipToken, if_pos h.lt, if_pos ((h.strchr_eq_none hd).mpr (hts x List.mem_cons_self)),
      ih h.tail (fun y hy => hts y (List.mem_cons_of_mem _ hy)), List.length_cons, Nat.add_assoc, Nat.add_comm 1]

lemma skipDelimiters_nul (h : IsString m a []) : skipDelimiters delimiters m a = .ok (a, true) := by
  rw [skipDelimiters, if_pos h.lt, if_pos (h.strchr_ne_none hd), if_pos h.nul]

lemma skipDelimiters_token (h : IsString m a (c :: xs))
    (hc : isToken delimiters c = true) : skipDelimiters delimiters m a = .ok (a, false) := by
  rw [skipDelimiters, if_pos h.lt, if_neg (not_not.mpr ((h.strchr_eq_none hd).mpr hc))]

lemma skipToken_nul (h : IsString m a []) : skipToken delimiters m a = .ok a := by
  rw [skipToken, if_pos h.lt, if_neg (h.strchr_ne_none hd)]

lemma skipToken_delimiter (h : IsString m a (c :: xs))
    (hc : isToken delimiters c = false) : skipToken delimiters m a = .ok a := by
  rw [skipToken, if_pos h.lt, if_neg fun hn => Bool.noConfusion (hc.symm.trans ((h.strchr_eq_none hd).mp hn))]

end Loops

section Calls

variable {m : Memory} {a s savePtr : Nat} {delimiters ds ts rest : List Byte} {t c : Byte}
  (hd : 0 ∉ delimiters) (hs : (if s = 0 then savePtr else s) = a) (hds : ∀ x ∈ ds, isToken delimiters x = false)

include hd hs hds

lemma strtokR_none (h : IsString m a ds) : strtokR m s delimiters savePtr = .ok ⟨0, a + ds.length, m⟩ := by
  have h' : IsString m a (ds ++ []) := by simpa using h
  simp only [strtokR, hs, assertThat_pos h.nonnull, bind_ok, skipDelimiters_append hd h' hds,
    skipDelimiters_nul hd h'.append]
  rfl

variable (hts : ∀ x ∈ t :: ts, isToken delimiters x = true)

include hts

lemma strtokR_token (h : IsString m a (ds ++ (t :: ts ++ rest)))
    (hstop : skipToken delimiters m (a + ds.length + (t :: ts).length) = .ok (a + ds.length + (t :: ts).length)) :
    strtokR m s delimiters savePtr =
      if m (a + ds.length + (t :: ts).length) ≠ 0 then
        .ok ⟨a + ds.length, a + ds.length + (t :: ts).length + 1,
          Function.update m (a + ds.length + (t :: ts).length) 0⟩
      else .ok ⟨a + ds.length, a + ds.length + (t :: ts).length, m⟩ := by
  have hstart := skipDelimiters_token hd h.append (hts t List.mem_cons_self)
  simp only [strtokR, hs, assertThat_pos h.nonnull, bind_ok, skipDelimiters_append hd h hds, hstart,
    skipToken_append hd h.append hts, hstop]
  rfl

lemma strtokR_last (h : IsString m a (ds ++ t :: ts)) :
    strtokR m s delimiters savePtr = .ok ⟨a + ds.length, a + (ds ++ t :: ts).length, m⟩ := by
  have h' : IsString m a (ds ++ (t :: ts ++ [])) := by simpa using h
  have hend := h'.append.append
  rw [strtokR_token hd hs hds hts h' (skipToken_nul hd hend), if_neg (not_not.mpr hend.nul), List.length_append,
    Nat.add_assoc]

lemma strtokR_inner (h : IsString m a (ds ++ (t :: ts ++ c :: rest))) (hc : isToken delimiters c = false) :
    strtokR m s delimiters savePtr =
      .ok ⟨a + ds.length, a + ds.length + (t :: ts).length + 1,
        Function.update m (a + ds.length + (t :: ts).length) 0⟩ := by
  have hend := h.append.append
  have hne : m (a + ds.length + (t :: ts).length) ≠ 0 := by
    rw [hend.head]
    exact fun h0 => hend.noNul (by simp [h0])
  rw [strtokR_token hd hs hds hts h (skipToken_delimiter hd hend hc), if_pos hne]

end Calls

section Runs

variable {m : Memory} {base s savePtr : Nat} {delimiters text : List Byte}

def tokenEnd (delimiters text : List Byte) (j : Nat) : Nat := j + ((text.drop j).takeWhile (isToken delimiters)).length

def terminated (m : Memory) (ends : List Nat) : Memory := fun x => if x ∈ ends then 0 else m x

lemma terminated_nil (m : Memory) : terminated m [] = m := by
  funext x
  simp [terminated]

lemma terminated_cons (m : Memory) (e : Nat) (ends : List Nat) :
    terminated (Function.update m e 0) ends = terminated m (e :: ends) := by
  funext x
  simp only [terminated, Function.update_apply, List.mem_cons]
  by_cases hx : x = e <;> by_cases hmem : x ∈ ends <;> simp [hx, hmem]

lemma IsString.update {a x : Nat} {xs : List Byte} (h : IsString m a xs) (hx : x < a) (b : Byte) :
    IsString (Function.update m x b) a xs where
  read := by
    rw [← h.read]
    exact Memory.read_congr fun y hy _ => by rw [Function.update_apply, if_neg (by omega)]
  noNul := h.noNul
  nonnull := h.nonnull
  bound := h.bound

variable {j : Nat}

lemma tokenEnd_eq {ts ys : List Byte} (h : text.drop j = ts ++ ys)
    (hts : ∀ x ∈ ts, isToken delimiters x = true) (hys : ys.takeWhile (isToken delimiters) = []) :
    tokenEnd delimiters text j = j + ts.length := by
  rw [tokenEnd, h, List.takeWhile_append_of_pos hts, hys, List.append_nil]

lemma IsString.atEnd {k : Nat} (hk : k ≤ text.length) (h : IsString m (base + k) (text.drop k)) :
    IsString m (base + text.length) [] := by
  have hdrop := h.drop (k := text.length - k) (by rw [List.length_drop])
  rwa [List.drop_drop, Nat.add_assoc, Nat.add_sub_cancel' hk, List.drop_length] at hdrop

def Finds (m : Memory) (base : Nat) (delimiters text : List Byte) (k : Nat) (r : Except Panic Tokenizer) : Prop :=
  ∃ j k', k' ≤ text.length ∧
    starts (isToken delimiters) false k (text.drop k) = j :: starts (isToken delimiters) false k' (text.drop k') ∧
    r = .ok ⟨base + j, base + k', Function.update m (base + tokenEnd delimiters text j) 0⟩ ∧
    IsString (Function.update m (base + tokenEnd delimiters text j) 0) (base + k') (text.drop k')

section Finds

variable {k : Nat} {ds ts : List Byte} {t : Byte} (hd : 0 ∉ delimiters) (h : IsString m (base + k) (text.drop k))
  (hs : (if s = 0 then savePtr else s) = base + k)

include hd h hs

lemma finds_last (hk : k ≤ text.length) (hds : ∀ x ∈ ds, isToken delimiters x = false)
    (hts : ∀ x ∈ t :: ts, isToken delimiters x = true) (htext : text.drop k = ds ++ t :: ts) :
    Finds m base delimiters text k (strtokR m s delimiters savePtr) := by
  have hend := h.atEnd hk
  have hlen : k + (ds ++ t :: ts).length = text.length := by
    rw [← htext, List.length_drop]
    omega
  have hdrop : text.drop (k + ds.length) = t :: ts ++ [] := by
    rw [← List.drop_drop, htext, List.drop_left, List.append_nil]
  have hfinal : tokenEnd delimiters text (k + ds.length) = text.length := by
    rw [tokenEnd_eq hdrop hts rfl, ← hlen, List.length_append, Nat.add_assoc]
  have hsame : Function.update m (base + text.length) 0 = m := by
    rw [← hend.nul, Function.update_eq_self]
  have hstarts := starts_run (isToken delimiters) hds hts k []
  rw [List.append_nil, ← htext] at hstarts
  rw [htext] at h
  refine ⟨k + ds.length, text.length, le_rfl, ?_, ?_, ?_⟩
  · rw [hstarts, List.drop_length]
    rfl
  · rw [strtokR_last hd hs hds hts h, hfinal, hsame, Nat.add_assoc base k, Nat.add_assoc base k, hlen]
  · rw [hfinal, hsame, List.drop_length]
    exact hend

lemma finds_inner {c : Byte} {rest : List Byte} (hds : ∀ x ∈ ds, isToken delimiters x = false)
    (hts : ∀ x ∈ t :: ts, isToken delimiters x = true) (hc : isToken delimiters c = false)
    (htext : text.drop k = ds ++ (t :: ts ++ c :: rest)) :
    Finds m base delimiters text k (strtokR m s delimiters savePtr) := by
  have hlen : text.length - k = (ds ++ (t :: ts ++ c :: rest)).length := by
    rw [← htext, List.length_drop]
  have hdrop : text.drop (k + ds.length) = t :: ts ++ c :: rest := by
    rw [← List.drop_drop, htext, List.drop_left]
  have hrest : text.drop (k + ds.length + (t :: ts).length + 1) = rest := by
    rw [← List.drop_drop, ← List.drop_drop, hdrop, List.drop_left]
    rfl
  have hfinal : tokenEnd delimiters text (k + ds.length) = k + ds.length + (t :: ts).length :=
    tokenEnd_eq hdrop hts (by simp [hc])
  have hstarts := starts_run (isToken delimiters) hds hts k (c :: rest)
  rw [← htext, starts_cons, hc] at hstarts
  rw [htext] at h
  have hafter : IsString m (base + (k + ds.length + (t :: ts).length + 1)) rest := by
    have htail := h.append.append.tail
    rwa [Nat.add_assoc base, Nat.add_assoc base, Nat.add_assoc base] at htail
  refine ⟨k + ds.length, k + ds.length + (t :: ts).length + 1, ?_, ?_, ?_, ?_⟩
  · simp only [List.length_append, List.length_cons] at hlen ⊢
    omega
  · rw [hstarts, hrest]
    rfl
  · rw [strtokR_inner hd hs hds hts h hc, hfinal]
    simp only [Nat.add_assoc]
  · rw [hfinal, hrest]
    exact hafter.update (by omega) 0

lemma strtokR_from (hk : k ≤ text.length) :
    (starts (isToken delimiters) false k (text.drop k) = [] ∧
        strtokR m s delimiters savePtr = .ok ⟨0, base + text.length, m⟩) ∨
      Finds m base delimiters text k (strtokR m s delimiters savePtr) := by
  rcases runs_cases (isToken delimiters) (text.drop k) with hnone | ⟨ds, t, ts, hds, hts, hlast | ⟨c, rest, hc, hinner⟩⟩
  · have hstep := strtokR_none hd hs hnone h
    rw [List.length_drop, Nat.add_assoc, Nat.add_sub_cancel' hk] at hstep
    exact .inl ⟨starts_of_forall_not _ hnone k, hstep⟩
  · exact .inr (finds_last hd h hs hk hds hts hlast)
  · exact .inr (finds_inner hd h hs hds hts hc hinner)

end Finds

lemma strtokCalls_from (hd : 0 ∉ delimiters) {k : Nat} (hk : k ≤ text.length)
    (h : IsString m (base + k) (text.drop k)) (hs : (if s = 0 then savePtr else s) = base + k) (n : Nat) :
    strtokCalls m s delimiters savePtr n =
      .ok (((starts (isToken delimiters) false k (text.drop k)).take n).map (base + ·) ++
          List.replicate (n - (starts (isToken delimiters) false k (text.drop k)).length) 0,
        terminated m (((starts (isToken delimiters) false k (text.drop k)).take n).map
          fun j => base + tokenEnd delimiters text j)) := by
  induction n generalizing m s savePtr k with
  | zero => simp [strtokCalls, terminated_nil, pure_eq_ok]
  | succ n ih =>
    rw [strtokCalls]
    rcases strtokR_from hd h hs hk with ⟨hnone, hstep⟩ | ⟨j, k', hk', hnext, hstep, h'⟩
    · have hend : IsString m (base + text.length) (text.drop text.length) := by
        rw [List.drop_length]
        exact h.atEnd hk
      rw [hstep, bind_ok, ih le_rfl hend (if_pos rfl), hnone, List.drop_length]
      simp [starts, terminated_nil, pure_eq_ok, List.replicate_succ]
    · rw [hstep, bind_ok, ih hk' h' (if_pos rfl), hnext, terminated_cons]
      simp [pure_eq_ok]

lemma IsString.read_takeWhile {a : Nat} {xs : List Byte} (h : IsString m a xs) (p : Byte → Bool) :
    m.read a (xs.takeWhile p).length = xs.takeWhile p := by
  have hprefix := List.takeWhile_prefix (l := xs) p
  have hle := hprefix.length_le
  have htake := m.take_read a (xs.length + 1) (xs.takeWhile p).length
  rw [Nat.min_eq_left (by omega), h.read, List.take_append_of_le_length hle,
    ← List.prefix_iff_eq_take.mp hprefix] at htake
  exact htake.symm

lemma tokenEnd_ne {i : Nat} (hi : i < ((text.drop j).takeWhile (isToken delimiters)).length) (j' : Nat) :
    tokenEnd delimiters text j' ≠ j + i := by
  intro he
  have htoken := List.mem_takeWhile_imp (List.getElem_mem hi)
  have hbyte : (text.drop j)[i]? = some ((text.drop j).takeWhile (isToken delimiters))[i] := by
    rw [(List.takeWhile_prefix _).getElem hi]
    exact List.getElem?_eq_getElem _
  rw [List.getElem?_drop, ← he, tokenEnd, ← List.getElem?_drop] at hbyte
  have hend := not_of_getElem?_length_takeWhile _ hbyte
  exact Bool.noConfusion (hend.symm.trans htoken)

lemma terminated_read (h : IsString m base text) {js : List Nat} (hj : j ∈ js) (hle : j ≤ text.length) :
    (terminated m (js.map fun j => base + tokenEnd delimiters text j)).read (base + j)
        (((text.drop j).takeWhile (isToken delimiters)).length + 1) =
      (text.drop j).takeWhile (isToken delimiters) ++ [0] := by
  have htoken := (h.drop hle).read_takeWhile (isToken delimiters)
  have hend : base + tokenEnd delimiters text j ∈ js.map fun j => base + tokenEnd delimiters text j :=
    List.mem_map_of_mem hj
  rw [Memory.read_add]
  congr 1
  · rw [← htoken, Memory.length_read]
    apply Memory.read_congr
    intro x hx hlt
    apply if_neg
    intro hmem
    obtain ⟨j', -, he⟩ := List.mem_map.mp hmem
    have hin : x - (base + j) < ((text.drop j).takeWhile (isToken delimiters)).length := by omega
    exact tokenEnd_ne hin j' (by omega)
  · rw [tokenEnd, ← Nat.add_assoc] at hend
    rw [Memory.read, Memory.read_zero, terminated, if_pos hend]

theorem strtok_r_tokenizes (hd : 0 ∉ delimiters) (h : IsString m s text) (savePtr n : Nat) :
    ∃ m', strtokCalls m s delimiters savePtr n =
        .ok (((starts (isToken delimiters) false 0 text).take n).map (s + ·) ++
          List.replicate (n - (starts (isToken delimiters) false 0 text).length) 0, m') ∧
      List.Forall₂ (fun j token => m'.read (s + j) (token.length + 1) = token ++ [0])
        ((starts (isToken delimiters) false 0 text).take n) ((runs (isToken delimiters) text).take n) ∧
      ∀ x, m' x = if x ∈ ((starts (isToken delimiters) false 0 text).take n).map fun j => s + tokenEnd delimiters text j
        then 0 else m x := by
  refine ⟨_, strtokCalls_from hd (Nat.zero_le _) h (if_neg h.nonnull) n, ?_, fun x => rfl⟩
  rw [runs_eq, ← List.map_take, List.forall₂_map_right_iff, List.forall₂_same]
  intro j hj
  have hlt := (le_of_mem_starts _ (List.mem_of_mem_take hj)).2
  exact terminated_read h hj (by omega)

theorem strtok_r_tokenizes_two :
    ∃ m', strtokCalls (Memory.write (fun _ => 0) 8 [0x20, 0x61, 0x62, 0x20, 0x63]) 8 [0x20] 0 3 =
      .ok ([9, 12, 0], m') := by
  have hs : IsString (Memory.write (fun _ => 0) 8 [0x20, 0x61, 0x62, 0x20, 0x63]) 8 [0x20, 0x61, 0x62, 0x20, 0x63] :=
    ⟨by decide +kernel, by decide, by decide, by decide⟩
  obtain ⟨m', hcalls, -⟩ := strtok_r_tokenizes (show (0 : Byte) ∉ [0x20] by decide) hs 0 3
  exact ⟨m', hcalls⟩

end Runs

end Pintos.Lib
