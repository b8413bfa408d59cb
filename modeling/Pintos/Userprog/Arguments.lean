import Pintos.Userprog.Stack

/-! The arguments that a program finds on its stack, and the room they take. -/

namespace Pintos.Userprog

open Pintos.Foundation Pintos.Kernel

variable {line : List UInt8} {u : User}

def isText (c : UInt8) : Bool := decide (c ≠ 32)

def copied (line : List UInt8) : List UInt8 := line.take 3579

def tokens (line : List UInt8) : List (List UInt8) := runs isText (copied line)

/-- Without a token at the very start there is one more pointer, to the empty string there. -/
def argvCnt (line : List UInt8) : Nat :=
  (tokens line).length + match copied line with
    | [] => 1
    | c :: _ => if c = 32 then 1 else 0

def stackUse (line : List UInt8) : Nat :=
  (copied line).length + 1 + ((copied line).length + 1) % 4 + 4 * (argvCnt line + 1) + 12

section Prepared

def charByte (c : UInt8) : Byte := (if c = 32 then 0 else c).toBitVec

lemma prepare_len (line : List UInt8) : (prepare line).len = (copied line).length := rfl

lemma prepare_len_le (line : List UInt8) : (prepare line).len ≤ 3579 := by
  simp [prepare]

lemma prepare_byte (line : List UInt8) (i : Nat) :
    (prepare line).byte i = ((copied line).map charByte).getD i 0 := by
  have hmap : (copied line).map charByte = (prepare line).cmdline.map UInt8.toBitVec := by
    rw [prepare, List.map_map]
    rfl
  rw [hmap, Params.byte, List.getD_eq_getElem?_getD, List.getD_eq_getElem?_getD, List.getElem?_map]
  cases (prepare line).cmdline[i]? <;> rfl

lemma prepare_data (line : List UInt8) : (prepare line).data = (copied line).map charByte ++ [0] := by
  apply List.ext_getElem (by simp [prepare_len])
  intro i h h'
  rw [Params.getElem_data, prepare_byte]
  by_cases hi : i < ((copied line).map charByte).length
  · rw [List.getElem_append_left hi, List.getD_eq_getElem _ _ hi]
  · rw [List.getElem_append_right (Nat.le_of_not_lt hi), List.getD_eq_default _ _ (Nat.le_of_not_lt hi)]
    simp

lemma prepare_end (line : List UInt8) : (prepare line).byte ((prepare line).len + 1) = 0 := by
  rw [prepare_byte]
  exact List.getD_eq_default _ _ (by simp [prepare_len])

lemma isChar_charByte {c : UInt8} (hc : c ≠ 0) : isChar (charByte c) = isText c := by
  by_cases h : c = 32
  · simp [isChar, charByte, isText, h]
  · have hne : c.toBitVec ≠ 0 := fun he => hc (UInt8.toBitVec_inj.mp he)
    simpa [isChar, charByte, isText, h] using hne

lemma starts_data (hline : 0 ∉ line) :
    starts isChar false 0 (prepare line).data = starts isText false 0 (copied line) := by
  rw [prepare_data, starts_concat _ (by rfl), starts_map]
  refine starts_congr _ (fun c hc => isChar_charByte ?_) _ _
  rintro rfl
  exact hline (List.mem_of_mem_take hc)

lemma starts_first (params : Params) :
    starts isChar false 0 params.data =
      (if isChar (params.byte 0) then [0] else []) ++ params.argStarts 0 := by
  have hpos : 0 < params.data.length := by simp
  have hdrop := List.drop_eq_getElem_cons hpos
  rw [List.drop_zero, Params.getElem_data] at hdrop
  have hstep := starts_cons isChar false 0 (params.byte 0) (params.data.drop (0 + 1))
  rwa [← hdrop, Bool.not_false, Bool.and_true] at hstep

lemma argCnt_prepare (hline : 0 ∉ line) : (prepare line).argCnt = argvCnt line := by
  have htok : (tokens line).length = (starts isText false 0 (copied line)).length := by
    rw [tokens, runs_eq, List.length_map]
  have hfirst := congrArg List.length (starts_first (prepare line))
  rw [starts_data hline, ← htok, List.length_append, prepare_byte] at hfirst
  rw [argvCnt, Params.argCnt]
  cases hl : copied line with
  | nil =>
    simp [hl, isChar] at hfirst
    simp only
    omega
  | cons c rest =>
    have hc : c ≠ 0 := by
      rintro rfl
      exact hline (List.mem_of_mem_take (hl ▸ List.mem_cons_self))
    simp only [hl, List.map_cons, List.getD_cons_zero, isChar_charByte hc] at hfirst
    by_cases h32 : c = 32
    · simp [h32, isText] at hfirst
      simp only [h32, if_true]
      omega
    · simp [h32, isText] at hfirst
      simp only [h32, if_false]
      omega

lemma imageSize_prepare (hline : 0 ∉ line) : (prepare line).imageSize = stackUse line := by
  rw [Params.imageSize, stackUse, argCnt_prepare hline]
  rfl

end Prepared

structure ArgumentsAt (m : Memory) (esp : Nat) (args : List (List UInt8)) : Prop where
  ret : m.load esp = 0
  argc : m.load (esp + 4) = args.length
  argv : m.load (esp + 8) = esp + 12
  arg : ∀ (i : Nat) (a : List UInt8), args[i]? = some a →
    m.read (m.load (esp + 12 + 4 * i)) (a.length + 1) = a.map UInt8.toBitVec ++ [0]
  null : m.load (esp + 12 + 4 * args.length) = 0

section Found

lemma take_token (xs : List UInt8) :
    (xs.map charByte ++ [0]).take ((xs.takeWhile isText).length + 1) =
      (xs.takeWhile isText).map UInt8.toBitVec ++ [0] := by
  induction xs with
  | nil => rfl
  | cons x xs ih =>
    by_cases hx : x = 32
    · subst hx
      rfl
    · have ht : isText x = true := by simp [isText, hx]
      rw [List.takeWhile_cons_of_pos ht]
      simpa [charByte, hx] using ih

lemma pointers_split (params : Params) {ks : List Nat} {i k : Nat} (h : ks[i]? = some k) :
    ∃ front back, params.pointers ks = front ++ (word (params.dataStart + k) ++ back) ∧
      front.length = 4 * i := by
  obtain ⟨hi, rfl⟩ := List.getElem?_eq_some_iff.mp h
  refine ⟨params.pointers (ks.take i), params.pointers (ks.drop (i + 1)), ?_, ?_⟩
  · conv_lhs => rw [← List.take_append_drop i ks, List.drop_eq_getElem_cons hi]
    simp only [Params.pointers, List.flatMap_append, List.flatMap_cons]
  · rw [Params.length_pointers, List.length_take, Nat.min_eq_left (Nat.le_of_lt hi)]

variable {rest : List UInt8} {c : UInt8} (hline : 0 ∉ line)

include hline

lemma argStarts_of_token (hfirst : line = c :: rest) (hc : c ≠ 32) :
    0 :: (prepare line).argStarts 0 = starts isText false 0 (copied line) := by
  have hchar : isChar ((prepare line).byte 0) = true := by
    have hne : c ≠ 0 := fun he => hline (by simp [hfirst, he])
    rw [prepare_byte, hfirst]
    simpa [copied, isChar_charByte hne, isText] using hc
  have hstarts := starts_first (prepare line)
  rw [if_pos hchar] at hstarts
  exact hstarts.symm.trans (starts_data hline)

lemma argCnt_of_token
    (hfirst : line = c :: rest) (hc : c ≠ 32) : (prepare line).argCnt = (tokens line).length := by
  rw [argCnt_prepare hline, argvCnt, hfirst]
  simp [copied, hc]

omit hline in
lemma data_drop {k : Nat} (hk : k ≤ (copied line).length) :
    (prepare line).data.drop k = ((copied line).drop k).map charByte ++ [0] := by
  rw [prepare_data, List.drop_append_of_le_length (by simpa using hk), List.map_drop]

lemma arguments_of_image (hfirst : line = c :: rest) (hc : c ≠ 32) (m : Memory)
    (htop : (prepare line).finalEsp + (prepare line).image.length = physBase) :
    ArgumentsAt (m.write (prepare line).finalEsp (prepare line).image) (prepare line).finalEsp
      (tokens line) := by
  have hcnt := argCnt_of_token hline hfirst hc
  have hks := argStarts_of_token hline hfirst hc
  have htok : tokens line = (starts isText false 0 (copied line)).map _ := runs_eq isText (copied line)
  have hlen : (starts isText false 0 (copied line)).length = (tokens line).length := by
    rw [htok, List.length_map]
  have hstart : (prepare line).dataStart = physBase - ((copied line).length + 1) := rfl
  have hdata := (prepare line).length_data
  have hbase : physBase = 3221225472 := rfl
  have hsmall : (tokens line).length ≤ 3579 := by
    rw [← hlen]
    exact Nat.le_trans (length_starts_le _ _ _ _) (prepare_len_le line)
  rw [Params.image, hks] at htop ⊢
  generalize (prepare line).finalEsp = esp at *
  generalize List.replicate (prepare line).pad (0 : Byte) = pad at *
  simp only [List.length_append, length_word, Params.length_pointers, hdata, prepare_len, hlen] at htop
  refine ⟨?_, ?_, ?_, fun i a ha => ?_, ?_⟩
  · exact m.load_write_word esp [] _ (by decide)
  · rw [← hcnt]
    exact m.load_write_word esp (word 0) _ (by omega)
  · rw [← List.append_assoc]
    exact m.load_write_word esp (word 0 ++ word (prepare line).argCnt) _ (by omega)
  · rw [htok, List.getElem?_map, Option.map_eq_some_iff] at ha
    obtain ⟨k, hk, rfl⟩ := ha
    obtain ⟨front, back, hptr, hfront⟩ := pointers_split (prepare line) hk
    have hkl := (le_of_mem_starts isText (List.mem_of_getElem? hk)).2
    have hal : (((copied line).drop k).takeWhile isText).length ≤ (copied line).length - k := by
      rw [← List.length_drop]
      exact (List.takeWhile_sublist _).length_le
    have hload := m.load_write_word esp
      (word 0 ++ (word (prepare line).argCnt ++ (word (esp + 12) ++ front)))
      (back ++ (word 0 ++ pad ++ (prepare line).data)) (v := (prepare line).dataStart + k) (by omega)
    have hstring := m.read_write_append esp (word 0 ++ (word (prepare line).argCnt ++
      (word (esp + 12) ++ ((prepare line).pointers (starts isText false 0 (copied line)) ++
        (word 0 ++ pad))))) (show k + ((((copied line).drop k).takeWhile isText).length + 1) ≤
          (prepare line).data.length by rw [hdata, prepare_len]; omega)
    simp only [List.length_append, length_word, Params.length_pointers, hlen, hfront,
      List.append_assoc] at hload hstring ⊢
    have hslot : esp + 12 + 4 * i = esp + (4 + (4 + (4 + 4 * i))) := by omega
    have hchars : (prepare line).dataStart + k =
        esp + (4 + (4 + (4 + (4 * (tokens line).length + (4 + pad.length))))) + k := by
      rw [hstart]
      omega
    rw [data_drop (Nat.le_of_lt (by omega)), take_token] at hstring
    rw [hslot]
    rw [hptr] at hstring ⊢
    simp only [List.append_assoc] at hstring ⊢
    rw [← hchars] at hstring
    rw [hload]
    exact hstring
  · have hload := m.load_write_word esp (word 0 ++ (word (prepare line).argCnt ++
      (word (esp + 12) ++ (prepare line).pointers (starts isText false 0 (copied line)))))
      (pad ++ (prepare line).data) (v := 0) (by decide)
    simp only [List.length_append, length_word, Params.length_pointers, hlen, List.append_assoc] at hload ⊢
    have haddr : esp + 12 + 4 * (tokens line).length = esp + (4 + (4 + (4 + 4 * (tokens line).length))) := by
      omega
    rw [haddr]
    exact hload

lemma finalEsp_eq : (prepare line).finalEsp = physBase - stackUse line := by
  rw [Params.finalEsp, imageSize_prepare hline]

lemma ends_prepared (hw : u.writes = []) : Ends (setupStack (prepare line)) u
      (fun r v => (r = none ∧ v.space = u.space ∧ v.writes = [] ∧
          (u.space.page (pgNo (physBase - pgSize)) ≠ none ∨ u.pallocs ≠ [])) ∨
        (r = some (physBase - stackUse line) ∧ Stacked (prepare line) u v))
      (fun _ v => u.space.page (pgNo (physBase - pgSize)) = none ∧
        Overflows u.space.page (physBase - stackUse line) v) := by
  have hends := ends_setupStack hw (prepare_len_le line) (prepare_end line)
  rwa [finalEsp_eq hline] at hends

lemma stackUse_lt : stackUse line ≤ 30000 :=
  imageSize_prepare hline ▸ (prepare line).imageSize_le (prepare_len_le line)

lemma Overflows.pgSize_lt {page : Nat → Option Bool} {v : User}
    (h : Overflows page (physBase - stackUse line) v) : pgSize < stackUse line := by
  have hle := stackUse_lt hline
  obtain ⟨r, hr, -, hlt⟩ := h.outside
  have hlow := (h.stores r hr).1
  simp only [stackPage, physBase, pgSize] at *
  omega

variable (hw : u.writes = []) (hpage : u.space.page (pgNo (physBase - pgSize)) = none) (hp : u.pallocs = [])

include hw hpage hp

lemma setupStack_cases :
    (∃ v, setupStack (prepare line) u = .ok (some (physBase - stackUse line)) v ∧ Stacked (prepare line) u v) ∨
      ∃ e v, setupStack (prepare line) u = .error e v ∧ Overflows u.space.page (physBase - stackUse line) v := by
  have hends := ends_prepared hline hw
  rw [Ends] at hends
  cases hrun : setupStack (prepare line) u with
  | error e v =>
    rw [hrun] at hends
    exact .inr ⟨e, v, rfl, hends.2⟩
  | ok r v =>
    rw [hrun] at hends
    rcases hends with ⟨-, -, -, hno⟩ | ⟨rfl, hv⟩
    · exact (hno.elim (fun h => h hpage) fun h => h hp).elim
    · exact .inl ⟨v, rfl, hv⟩

lemma setupStack_fits (hfits : stackUse line ≤ pgSize) :
    ∃ v, setupStack (prepare line) u = .ok (some (physBase - stackUse line)) v := by
  rcases setupStack_cases hline hw hpage hp with ⟨v, hrun, -⟩ | ⟨e, v, -, hv⟩
  · exact ⟨v, hrun⟩
  · exact (Nat.not_lt.mpr hfits (hv.pgSize_lt hline)).elim

end Found

/-- For every command line whose first character is not a space and whose image fits in the page,
`setup_stack` does not fault, succeeds when it gets its memory, and leaves the tokens of the line. -/
theorem arguments_on_stack {line : List UInt8} (hline : 0 ∉ line) {c : UInt8} {rest : List UInt8}
    (hfirst : line = c :: rest) (hc : c ≠ 32) (hfits : stackUse line ≤ pgSize) {u : User}
    (hw : u.writes = []) :
    (∀ e v, setupStack (prepare line) u ≠ .error e v) ∧
    (u.space.page (pgNo (physBase - pgSize)) = none → u.pallocs = [] →
      ∃ esp v, setupStack (prepare line) u = .ok (some esp) v) ∧
    ∀ esp v, setupStack (prepare line) u = .ok (some esp) v →
      ArgumentsAt v.space.bytes esp (tokens line) := by
  have hends := ends_prepared hline hw
  rw [Ends] at hends
  refine ⟨fun e v he => ?_, fun hpage hp => ?_, fun esp v he => ?_⟩
  · rw [he] at hends
    exact Nat.not_lt.mpr hfits (hends.2.pgSize_lt hline)
  · exact ⟨_, setupStack_fits hline hw hpage hp hfits⟩
  · rw [he] at hends
    rcases hends with ⟨hr, -⟩ | ⟨hr, hv⟩
    · simp at hr
    · rw [Option.some.injEq, ← finalEsp_eq hline] at hr
      rw [hr, hv.space, Params.stacked, Space.bytes_written]
      exact arguments_of_image hline hfirst hc _ hv.top

def blankUser : User := ⟨⟨fun _ => false, fun _ => none, fun _ => 0⟩, [], []⟩

theorem arguments_on_stack_of_echo :
    ∃ esp v, setupStack (prepare [101, 32, 32, 120, 121, 32]) blankUser = .ok (some esp) v ∧
      tokens [101, 32, 32, 120, 121, 32] = [[101], [120, 121]] ∧
      ArgumentsAt v.space.bytes esp (tokens [101, 32, 32, 120, 121, 32]) := by
  obtain ⟨-, hruns, hargs⟩ := arguments_on_stack (show (0 : UInt8) ∉ [101, 32, 32, 120, 121, 32] by decide)
    rfl (by decide) (by decide) (u := blankUser) rfl
  obtain ⟨esp, v, hrun⟩ := hruns rfl rfl
  exact ⟨esp, v, hrun, by decide, hargs esp v hrun⟩

def StaysInPage (line : List UInt8) (u : User) : Prop :=
  Ends (setupStack (prepare line)) u
    (fun r v => (∀ w ∈ v.writes, w.Within stackPage) ∧ ∀ esp, r = some esp → stackPage.start ≤ esp)
    (fun _ v => ∀ w ∈ v.writes, w.Within stackPage)

lemma not_staysInPage (hline : 0 ∉ line) (hw : u.writes = [])
    (hpage : u.space.page (pgNo (physBase - pgSize)) = none) (hp : u.pallocs = [])
    (hlong : pgSize < stackUse line) : ¬ StaysInPage line u := by
  intro hstay
  rcases setupStack_cases hline hw hpage hp with ⟨v, hrun, -⟩ | ⟨e, v, hrun, hv⟩
  · rw [StaysInPage, Ends, hrun] at hstay
    have hle := stackUse_lt hline
    have hlow := hstay.2 _ rfl
    simp only [stackPage, physBase, pgSize] at *
    omega
  · rw [StaysInPage, Ends, hrun] at hstay
    obtain ⟨r, hr, -, hlt⟩ := hv.outside
    exact Nat.not_lt.mpr (hstay r hr).1 hlt

theorem stays_in_page_iff {line : List UInt8} (hline : 0 ∉ line) {u : User} (hw : u.writes = [])
    (hpage : u.space.page (pgNo (physBase - pgSize)) = none) (hp : u.pallocs = []) :
    StaysInPage line u ↔ stackUse line ≤ pgSize := by
  refine ⟨fun hstay => ?_, fun hfits => ?_⟩
  · by_contra hlong
    exact not_staysInPage hline hw hpage hp (Nat.lt_of_not_le hlong) hstay
  · refine (ends_prepared hline hw).mono ?_ fun _ v hv => ?_
    · rintro r v (⟨rfl, -, hnone, -⟩ | ⟨rfl, hv⟩)
      · simp [hnone]
      · have hstart : stackPage.start ≤ physBase - stackUse line := by
          simp only [stackPage, physBase, pgSize] at *
          omega
        refine ⟨fun w hmem => ?_, fun esp he => Option.some.inj he ▸ hstart⟩
        have hin := hv.stores w hmem
        rw [finalEsp_eq hline] at hin
        simp only [Range.Within, stackPage, physBase, pgSize] at *
        omega
    · exact (Nat.not_lt.mpr hfits (hv.2.pgSize_lt hline)).elim

theorem stays_in_page_of_echo :
    (0 : UInt8) ∉ [101, 32, 120] ∧ StaysInPage [101, 32, 120] blankUser := by
  have hline : (0 : UInt8) ∉ [101, 32, 120] := by decide
  rw [stays_in_page_iff hline (u := blankUser) rfl rfl rfl]
  exact ⟨hline, by decide⟩

def manyTokens : List UInt8 := (List.replicate 681 [97, 32]).flatten

theorem many_tokens_leave_page :
    (0 : UInt8) ∉ manyTokens ∧ manyTokens.length = 1362 ∧ ¬ StaysInPage manyTokens blankUser := by
  have hline : (0 : UInt8) ∉ manyTokens := by decide +kernel
  have hlong : pgSize < stackUse manyTokens := by decide +kernel
  exact ⟨hline, by decide +kernel, not_staysInPage hline (u := blankUser) rfl rfl rfl hlong⟩

def Aligned (line : List UInt8) (u : User) : Prop :=
  Ends (setupStack (prepare line)) u
    (fun r v => (∀ w ∈ v.writes, w.size = 4 → w.start % 4 = 0) ∧ ∀ esp, r = some esp → esp % 4 = 0)
    (fun _ v => ∀ w ∈ v.writes, w.size = 4 → w.start % 4 = 0)

lemma aligned_iff (hline : 0 ∉ line) (hw : u.writes = [])
    (hpage : u.space.page (pgNo (physBase - pgSize)) = none) (hp : u.pallocs = []) :
    Aligned line u ↔ (physBase - stackUse line) % 4 = 0 := by
  rcases setupStack_cases hline hw hpage hp with ⟨v, hrun, hv⟩ | ⟨e, v, hrun, hv⟩
  · rw [Aligned, Ends, hrun]
    refine ⟨fun hall => hall.2 _ rfl, fun hmod => ⟨fun w hmem h4 => ?_, fun esp he => ?_⟩⟩
    · rw [hv.slots w hmem h4, finalEsp_eq hline]
      exact hmod
    · rw [← Option.some.inj he]
      exact hmod
  · rw [Aligned, Ends, hrun]
    obtain ⟨hstores, hslots, ⟨r, hr, hsize, -⟩, -⟩ := hv
    refine ⟨fun hall => ?_, fun hmod w hmem h4 => ?_⟩
    · rw [← hslots r hr hsize]
      exact hall r hr hsize
    · rw [hslots w hmem h4]
      exact hmod

theorem slots_aligned_iff {line : List UInt8} (hline : 0 ∉ line) {u : User} (hw : u.writes = [])
    (hpage : u.space.page (pgNo (physBase - pgSize)) = none) (hp : u.pallocs = []) :
    Aligned line u ↔ (copied line).length % 2 = 1 := by
  have hle := stackUse_lt hline
  rw [aligned_iff hline hw hpage hp]
  simp only [stackUse, physBase] at *
  omega

theorem slots_aligned_of_echo :
    (0 : UInt8) ∉ [101, 32, 120] ∧ Aligned [101, 32, 120] blankUser := by
  have hline : (0 : UInt8) ∉ [101, 32, 120] := by decide
  rw [slots_aligned_iff hline (u := blankUser) rfl rfl rfl]
  exact ⟨hline, by decide⟩

theorem two_characters_misalign :
    ∃ v, setupStack (prepare [97, 98]) blankUser = .ok (some (physBase - 26)) v ∧
      (physBase - 26) % 4 = 2 ∧ ¬ Aligned [97, 98] blankUser := by
  have hline : (0 : UInt8) ∉ [97, 98] := by decide
  have huse : stackUse [97, 98] = 26 := by decide
  obtain ⟨v, hv⟩ := setupStack_fits hline (u := blankUser) rfl rfl rfl (by decide)
  rw [huse] at hv
  rw [aligned_iff hline (u := blankUser) rfl rfl rfl]
  exact ⟨v, hv, by decide, by decide⟩

end Pintos.Userprog
