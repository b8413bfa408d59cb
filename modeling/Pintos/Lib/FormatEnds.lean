import Pintos.Lib.Directives

/-! Where `__vprintf` stops in a format. -/

namespace Pintos.Lib

open Pintos.Foundation Pintos.Kernel

section Steps

variable {text : List Byte} {c : Byte} {args : List Arg} {fuel : Nat}

lemma loop_nil (fuel : Nat) (args : List Arg) : vprintfLoop (fuel + 1) (.within []) args = .ok [] := rfl

lemma loop_literal (fuel : Nat) (text : List Byte) (args : List Arg) (hzero : c ≠ 0) (hc : c ≠ ascii '%') :
    vprintfLoop (fuel + 1) (.within (c :: text)) args = do
      return c :: (← vprintfLoop fuel (.within text) args) := by
  rw [vprintfLoop, read_within_cons, bind_ok, if_neg hzero, if_pos hc]
  rfl

lemma loop_percent (fuel : Nat) (text : List Byte) (args : List Arg) :
    vprintfLoop (fuel + 1) (.within (ascii '%' :: ascii '%' :: text)) args = do
      return ascii '%' :: (← vprintfLoop fuel (.within text) args) := rfl

lemma loop_conversion (fuel : Nat) (args : List Arg) (h : text.head? ≠ some (ascii '%')) :
    vprintfLoop (fuel + 1) (.within (ascii '%' :: text)) args = do
      let (c, args) ← (scan text).1.conversion args
      let (out, args) ← convert (fun text args => vprintfLoop fuel (.within text) args) c ((scan text).2.headD 0) args
      return out ++ (← vprintfLoop fuel (Cursor.within (scan text).2).next args) := by
  have hc : text.headD 0 ≠ ascii '%' := mt (headD_eq_iff (by decide)).mp h
  rw [vprintfLoop, read_within_cons, bind_ok, if_neg (by decide), if_neg (not_not.mpr rfl), next_within_cons]
  simp only [read_within, bind_ok, if_neg hc, parseConversion_within, bind_assoc, pure_bind]

lemma loop_literals (lits : List Byte) (h : ∀ c ∈ lits, c ≠ 0 ∧ c ≠ ascii '%') (fuel : Nat) (text : List Byte)
    (args : List Arg) : vprintfLoop (fuel + lits.length) (.within (lits ++ text)) args = do
      return lits ++ (← vprintfLoop fuel (.within text) args) := by
  induction lits with
  | nil =>
    rw [List.length_nil, List.nil_append]
    exact (bind_pure _).symm
  | cons c lits ih =>
    obtain ⟨hzero, hc⟩ := h c List.mem_cons_self
    rw [List.length_cons, ← Nat.add_assoc, List.cons_append, loop_literal _ _ _ hzero hc,
      ih fun d hd => h d (List.mem_cons_of_mem c hd)]
    simp

def Directive.plain : Directive where
  flags := []
  width := .digits []
  precision := none
  type := .int

lemma plain_canonical : Directive.plain.Canonical where
  flags := nofun
  width := nofun
  nonzero := nofun
  precision := nofun

lemma loop_char (fuel : Nat) (text : List Byte) (args : List Arg) (w : BitVec 32) :
    vprintfLoop (fuel + 1) (.within (ascii '%' :: ascii 'c' :: text)) (.word w :: args) = do
      return w.setWidth 8 :: (← vprintfLoop fuel (.within text) args) := by
  have hscan : scan (ascii 'c' :: text) = (Directive.plain, ascii 'c' :: text) :=
    scan_text (by decide) text plain_canonical
  rw [loop_conversion _ _ (by simp only [List.head?_cons]; decide), hscan]
  rfl

lemma loop_complaint (fuel : Nat) (tail : List Byte) (h : ∀ c ∈ tail, c ≠ 0 ∧ c ≠ ascii '%') (w : BitVec 32) :
    vprintfLoop (fuel + tail.length + 8)
        (.within (bytesOf "<<no " ++ ascii '%' :: ascii '%' :: ascii '%' :: ascii 'c' :: tail)) [.word w] =
      .ok (bytesOf "<<no " ++ ascii '%' :: w.setWidth 8 :: tail) := by
  have hlits : ∀ c ∈ bytesOf "<<no ", c ≠ 0 ∧ c ≠ ascii '%' := by decide
  have hend := loop_literals tail h (fuel + 1) [] []
  rw [List.append_nil, loop_nil, bind_ok, List.append_nil, Nat.add_right_comm] at hend
  have hfuel : fuel + tail.length + 8 = fuel + tail.length + 1 + 1 + 1 + (bytesOf "<<no ").length := rfl
  rw [hfuel, loop_literals _ hlits, loop_percent, loop_char, hend]
  rfl

end Steps

section Arguments

inductive ArgKind
  | word
  | dword
  | string
  deriving DecidableEq

def Arg.kind : Arg → ArgKind
  | .word _ => .word
  | .dword _ => .dword
  | .string _ => .string

def Amount.kinds : Amount → List ArgKind
  | .digits _ => []
  | .star => [.word]

def Directive.kinds (d : Directive) : List ArgKind := d.width.kinds ++ (d.precision.map Amount.kinds).getD []

def IntType.kind : IntType → ArgKind
  | .intmax => .dword
  | .longlong => .dword
  | _ => .word

def convKinds (type : IntType) (conv : Byte) : List ArgKind :=
  if conv ∈ [ascii 'd', ascii 'i', ascii 'o', ascii 'u', ascii 'x', ascii 'X'] then [type.kind]
  else if conv = ascii 'c' ∨ conv = ascii 'p' then [.word]
  else if conv = ascii 's' then [.string]
  else []

variable {args : List Arg} {ks : List ArgKind} {a : Arg}

lemma kind_word : a.kind = .word ↔ ∃ w, a = .word w := by
  cases a <;> simp [Arg.kind]

lemma Amount.take_ok {a : Amount} (h : args.map Arg.kind = a.kinds ++ ks) :
    ∃ n args', a.take args = .ok (n, args') ∧ args'.map Arg.kind = ks := by
  cases a with
  | digits ds => exact ⟨_, args, rfl, h⟩
  | star =>
    obtain ⟨a, args, rfl, ha, hks⟩ := List.map_eq_cons_iff.mp h
    obtain ⟨w, rfl⟩ := kind_word.mp ha
    exact ⟨_, args, rfl, hks⟩

lemma Directive.conversion_ok {d : Directive} (h : args.map Arg.kind = d.kinds ++ ks) :
    ∃ c args', d.conversion args = .ok (c, args') ∧ c.type = d.type ∧ args'.map Arg.kind = ks := by
  rw [Directive.kinds, List.append_assoc] at h
  obtain ⟨width, args₁, hwidth, h₁⟩ := Amount.take_ok h
  obtain ⟨precision, args₂, hprecision, h₂⟩ :
      ∃ n args', takePrecision args₁ d.precision = .ok (n, args') ∧ args'.map Arg.kind = ks := by
    cases hp : d.precision with
    | none => exact ⟨_, args₁, rfl, by rwa [hp] at h₁⟩
    | some a =>
      rw [hp] at h₁
      exact Amount.take_ok h₁
  refine ⟨d.resolve width precision, args₂, ?_, rfl, h₂⟩
  rw [Directive.conversion, hwidth, bind_ok]
  simp only [hprecision, bind_ok]
  rfl

lemma kind_dword : a.kind = .dword ↔ ∃ d, a = .dword d := by
  cases a <;> simp [Arg.kind]

lemma kind_string : a.kind = .string ↔ ∃ s, a = .string s := by
  cases a <;> simp [Arg.kind]

lemma intArg_ok {type : IntType} (h : args.map Arg.kind = type.kind :: ks) :
    (∃ v args', signedArg type args = .ok (v, args') ∧ args'.map Arg.kind = ks) ∧
      ∃ v args', unsignedArg type args = .ok (v, args') ∧ args'.map Arg.kind = ks := by
  obtain ⟨a, args, rfl, ha, hks⟩ := List.map_eq_cons_iff.mp h
  cases type with
  | intmax | longlong =>
    obtain ⟨d, rfl⟩ := kind_dword.mp ha
    exact ⟨⟨_, args, rfl, hks⟩, _, args, rfl, hks⟩
  | _ =>
    obtain ⟨w, rfl⟩ := kind_word.mp ha
    exact ⟨⟨_, args, rfl, hks⟩, _, args, rfl, hks⟩

lemma formatInteger_ok {b : IntegerBase} (hb : b ∈ bases) {value : Nat} (hv : value < 2 ^ 64)
    (isSigned negative : Bool) (c : Conversion) : ∃ out, formatInteger value isSigned negative b c = .ok out := by
  rw [formatInteger, integerDigits_eq hb hv, bind_ok]
  exact ⟨_, rfl⟩

variable {nested : List Byte → List Arg → PrintM (List Byte)} {c : Conversion} {conv : Byte}

lemma convert_ok (h : args.map Arg.kind = convKinds c.type conv ++ ks)
    (hkernel : ∀ w, ∃ out, nested (bytesOf "<<no %%%c in kernel>>") [.word w] = .ok out)
    (hconv : ∀ w, ∃ out, nested (bytesOf "<<no %%%c conversion>>") [.word w] = .ok out) :
    ∃ out args', convert nested c conv args = .ok (out, args') ∧ args'.map Arg.kind = ks := by
  have hunsigned : ∀ b ∈ bases, args.map Arg.kind = c.type.kind :: ks → ∃ out args', (do
      let r ← unsignedArg c.type args
      return (← formatInteger r.1.toNat false false b c, r.2)) = Except.ok (out, args') ∧ args'.map Arg.kind = ks := by
    intro b hb h
    obtain ⟨v, args', harg, hks⟩ := (intArg_ok h).2
    obtain ⟨out, hout⟩ := formatInteger_ok hb v.isLt false false c
    refine ⟨out, args', ?_, hks⟩
    rw [harg, bind_ok]
    simp only [hout, bind_ok]
    rfl
  have hword : args.map Arg.kind = .word :: ks → ∃ w args', args = .word w :: args' ∧ args'.map Arg.kind = ks := by
    intro h
    obtain ⟨a, args, rfl, ha, hks⟩ := List.map_eq_cons_iff.mp h
    obtain ⟨w, rfl⟩ := kind_word.mp ha
    exact ⟨w, args, rfl, hks⟩
  rw [convert]
  by_cases hd : conv = ascii 'd' ∨ conv = ascii 'i'
  · obtain ⟨v, args', harg, hks⟩ : ∃ v args', signedArg c.type args = .ok (v, args') ∧ args'.map Arg.kind = ks := by
      rcases hd with rfl | rfl
      · exact (intArg_ok h).1
      · exact (intArg_ok h).1
    obtain ⟨out, hout⟩ := formatInteger_ok baseD_mem (if v.slt 0#64 then -v else v).isLt true (v.slt 0#64) c
    refine ⟨out, args', ?_, hks⟩
    rw [if_pos hd, harg, bind_ok]
    simp only [hout, bind_ok]
    rfl
  rw [if_neg hd]
  by_cases ho : conv = ascii 'o'
  · rw [if_pos ho]
    subst ho
    exact hunsigned baseO baseO_mem h
  rw [if_neg ho]
  by_cases hu : conv = ascii 'u'
  · rw [if_pos hu]
    subst hu
    exact hunsigned baseD baseD_mem h
  rw [if_neg hu]
  by_cases hx : conv = ascii 'x'
  · rw [if_pos hx]
    subst hx
    exact hunsigned baseLowerX baseLowerX_mem h
  rw [if_neg hx]
  by_cases hX : conv = ascii 'X'
  · rw [if_pos hX]
    subst hX
    exact hunsigned baseUpperX baseUpperX_mem h
  rw [if_neg hX]
  by_cases hc : conv = ascii 'c'
  · subst hc
    obtain ⟨w, args', rfl, hks⟩ := hword h
    exact ⟨_, args', rfl, hks⟩
  rw [if_neg hc]
  by_cases hs : conv = ascii 's'
  · subst hs
    obtain ⟨a, args, rfl, ha, hks⟩ := List.map_eq_cons_iff.mp h
    obtain ⟨s, rfl⟩ := kind_string.mp ha
    exact ⟨_, args, rfl, hks⟩
  rw [if_neg hs]
  by_cases hp : conv = ascii 'p'
  · rw [if_pos hp]
    subst hp
    obtain ⟨w, args', rfl, hks⟩ := hword h
    obtain ⟨out, hout⟩ := formatInteger_ok baseLowerX_mem (w.isLt.trans (by decide)) false false
      { c with flags := fun f => f = .pound }
    refine ⟨out, args', ?_, hks⟩
    simp only [vaWord, bind_ok, pure_bind, hout]
    rfl
  rw [if_neg hp]
  have hnone : convKinds c.type conv = [] := by
    rw [convKinds, if_neg ?_, if_neg (not_or.mpr ⟨hc, hp⟩), if_neg hs]
    simp only [List.mem_cons, List.not_mem_nil, or_false, not_or]
    exact ⟨(not_or.mp hd).1, (not_or.mp hd).2, ho, hu, hx, hX⟩
  rw [hnone] at h
  by_cases hf : conv ∈ bytesOf "feEgGn"
  · obtain ⟨out, hout⟩ := hkernel (conv.signExtend 32)
    exact ⟨out, args, by rw [if_pos hf, hout]; rfl, h⟩
  · obtain ⟨out, hout⟩ := hconv (conv.signExtend 32)
    exact ⟨out, args, by rw [if_neg hf, hout]; rfl, h⟩

end Arguments

section Ends

inductive Closed : List Byte → Prop
  | nil : Closed []
  | literal {c : Byte} {text : List Byte} (hc : c ≠ ascii '%') (h : Closed text) : Closed (c :: text)
  | percent {text : List Byte} (h : Closed text) : Closed (ascii '%' :: ascii '%' :: text)
  | conversion {text : List Byte} {d : Directive} {conv : Byte} {rest : List Byte}
    (hhead : text.head? ≠ some (ascii '%')) (hscan : scan text = (d, conv :: rest)) (h : Closed rest) :
    Closed (ascii '%' :: text)

inductive Matches : List Byte → List ArgKind → Prop
  | nil (ks : List ArgKind) : Matches [] ks
  | literal {c : Byte} {text : List Byte} {ks : List ArgKind} (hc : c ≠ ascii '%') (h : Matches text ks) :
    Matches (c :: text) ks
  | percent {text : List Byte} {ks : List ArgKind} (h : Matches text ks) :
    Matches (ascii '%' :: ascii '%' :: text) ks
  | conversion {text : List Byte} {ks : List ArgKind} {d : Directive} {conv : Byte} {rest : List Byte}
    (hhead : text.head? ≠ some (ascii '%')) (hscan : scan text = (d, conv :: rest)) (h : Matches rest ks) :
    Matches (ascii '%' :: text) (d.kinds ++ (convKinds d.type conv ++ ks))
  | cut {text : List Byte} {d : Directive} (hscan : scan text = (d, [])) (ks : List ArgKind) :
    Matches (ascii '%' :: text) (d.kinds ++ ks)

def EndsIn (format : List Byte) (run : PrintM (List Byte)) : Prop :=
  (Closed format ∧ ∃ out, run = .ok out) ∨ (¬ Closed format ∧ run = .error .formatEnd)

variable {ks : List ArgKind} {format : List Byte}

lemma EndsIn.cons {text : List Byte} {run : PrintM (List Byte)} (c : Byte) (h : EndsIn text run)
    (hiff : Closed format ↔ Closed text) : EndsIn format (do return c :: (← run)) := by
  rcases h with ⟨hclosed, out, rfl⟩ | ⟨hopen, rfl⟩
  · exact .inl ⟨hiff.mpr hclosed, _, rfl⟩
  · exact .inr ⟨mt hiff.mp hopen, rfl⟩

section Inversion

variable {c conv : Byte} {text rest : List Byte} {d : Directive}

lemma closed_literal (hc : c ≠ ascii '%') : Closed (c :: text) ↔ Closed text := by
  refine ⟨fun h => ?_, .literal hc⟩
  cases h with
  | literal _ h => exact h
  | percent h => exact absurd rfl hc
  | conversion _ _ h => exact absurd rfl hc

lemma closed_percent : Closed (ascii '%' :: ascii '%' :: text) ↔ Closed text := by
  refine ⟨fun h => ?_, .percent⟩
  cases h with
  | literal hc _ => exact absurd rfl hc
  | percent h => exact h
  | conversion hhead _ _ => exact absurd rfl hhead

lemma closed_conversion (hhead : text.head? ≠ some (ascii '%')) (hscan : scan text = (d, conv :: rest)) :
    Closed (ascii '%' :: text) ↔ Closed rest := by
  refine ⟨fun h => ?_, .conversion hhead hscan⟩
  cases h with
  | literal hc _ => exact absurd rfl hc
  | percent h => exact absurd rfl hhead
  | conversion _ hscan' h =>
    rw [hscan, Prod.mk.injEq, List.cons.injEq] at hscan'
    exact hscan'.2.2 ▸ h

lemma head_ne_percent (hscan : scan text = (d, rest)) (hrest : rest.head? ≠ some (ascii '%')) :
    text.head? ≠ some (ascii '%') := by
  intro hhead
  obtain ⟨text, rfl⟩ := List.head?_eq_some_iff.mp hhead
  have hplain : scan (ascii '%' :: text) = (Directive.plain, ascii '%' :: text) :=
    scan_text (by decide) text plain_canonical
  rw [hplain, Prod.mk.injEq] at hscan
  exact hrest (hscan.2 ▸ rfl)

lemma not_closed_of_cut (hscan : scan text = (d, [])) : ¬ Closed (ascii '%' :: text) := by
  intro h
  cases h with
  | literal hc _ => exact absurd rfl hc
  | percent h => exact head_ne_percent hscan nofun rfl
  | conversion _ hscan' _ =>
    rw [hscan, Prod.mk.injEq] at hscan'
    exact List.cons_ne_nil _ _ hscan'.2.symm

end Inversion

lemma complaints_ok {fuel : Nat} (hfuel : 32 ≤ fuel) (w : BitVec 32) :
    (∃ out, vprintfLoop fuel (.within (bytesOf "<<no %%%c in kernel>>")) [.word w] = .ok out) ∧
      ∃ out, vprintfLoop fuel (.within (bytesOf "<<no %%%c conversion>>")) [.word w] = .ok out := by
  obtain ⟨k, rfl⟩ := Nat.exists_eq_add_of_le' hfuel
  exact ⟨⟨_, loop_complaint (k + 12) (bytesOf " in kernel>>") (by decide) w⟩,
    _, loop_complaint (k + 11) (bytesOf " conversion>>") (by decide) w⟩

lemma convert_loop_ok {fuel : Nat} (hfuel : 32 ≤ fuel) {c : Conversion} {conv : Byte} {args : List Arg}
    (h : args.map Arg.kind = convKinds c.type conv ++ ks) :
    ∃ out args', convert (fun text args => vprintfLoop fuel (.within text) args) c conv args = .ok (out, args') ∧
      args'.map Arg.kind = ks :=
  convert_ok h (fun w => (complaints_ok hfuel w).1) fun w => (complaints_ok hfuel w).2

lemma vprintfLoop_ends (h : Matches format ks) (hzero : 0 ∉ format)
    (fuel : Nat) (hfuel : format.length + 32 < fuel) {args : List Arg} (hargs : args.map Arg.kind = ks) :
    EndsIn format (vprintfLoop fuel (.within format) args) := by
  induction h generalizing fuel args with
  | nil ks =>
    obtain ⟨fuel, rfl⟩ := Nat.exists_eq_add_of_le' (show 1 ≤ fuel by omega)
    exact .inl ⟨.nil, [], rfl⟩
  | @literal c text ks hc h ih =>
    obtain ⟨fuel, rfl⟩ := Nat.exists_eq_add_of_le' (show 1 ≤ fuel by omega)
    rw [List.mem_cons, not_or] at hzero
    rw [List.length_cons] at hfuel
    rw [loop_literal _ _ _ (Ne.symm hzero.1) hc]
    exact (ih hzero.2 fuel (by omega) hargs).cons c (closed_literal hc)
  | @percent text ks h ih =>
    obtain ⟨fuel, rfl⟩ := Nat.exists_eq_add_of_le' (show 1 ≤ fuel by omega)
    simp only [List.mem_cons, not_or] at hzero
    rw [List.length_cons, List.length_cons] at hfuel
    rw [loop_percent]
    exact (ih hzero.2.2 fuel (by omega) hargs).cons _ closed_percent
  | @conversion text ks d conv rest hhead hscan h ih =>
    obtain ⟨fuel, rfl⟩ := Nat.exists_eq_add_of_le' (show 1 ≤ fuel by omega)
    have hsuffix := scan_suffix text
    rw [hscan] at hsuffix
    have hlen := hsuffix.length_le
    rw [List.length_cons] at hfuel hlen
    obtain ⟨c, args₁, hc, htype, hargs₁⟩ := Directive.conversion_ok hargs
    rw [← htype] at hargs₁
    obtain ⟨out, args₂, hout, hargs₂⟩ := convert_loop_ok (show 32 ≤ fuel by omega) hargs₁
    have hrest : 0 ∉ rest := fun hin =>
      hzero (List.mem_cons_of_mem _ (hsuffix.subset (List.mem_cons_of_mem _ hin)))
    rw [loop_conversion _ _ hhead, hscan]
    simp only [hc, bind_ok, List.headD_cons, hout, next_within_cons]
    rcases ih hrest fuel (by omega) hargs₂ with ⟨hclosed, tail, hrun⟩ | ⟨hopen, hrun⟩
    · exact .inl ⟨.conversion hhead hscan hclosed, _, by rw [hrun]; rfl⟩
    · exact .inr ⟨mt (closed_conversion hhead hscan).mp hopen, by rw [hrun]; rfl⟩
  | @cut text d hscan ks =>
    obtain ⟨fuel, rfl⟩ := Nat.exists_eq_add_of_le' (show 2 ≤ fuel by omega)
    obtain ⟨c, args₁, hc, -, hargs₁⟩ := Directive.conversion_ok hargs
    have hnone : convKinds c.type 0 = [] := by cases c.type <;> decide
    rw [← List.nil_append ks, ← hnone] at hargs₁
    obtain ⟨out, args₂, hout, -⟩ := convert_loop_ok (show 32 ≤ fuel + 1 by omega) hargs₁
    refine .inr ⟨not_closed_of_cut hscan, ?_⟩
    rw [loop_conversion _ _ (head_ne_percent hscan nofun), hscan]
    simp only [hc, bind_ok, List.headD_nil, hout]
    rfl

theorem vprintf_stops_iff (format : CString) {args : List Arg} (h : Matches format.val (args.map Arg.kind)) :
    ((∃ out, vprintf format args = .ok out) ↔ Closed format.val) ∧
      (¬ Closed format.val → vprintf format args = .error .formatEnd) := by
  rcases vprintfLoop_ends h format.property _ (Nat.lt_succ_self _) rfl with ⟨hclosed, hrun⟩ | ⟨hopen, hrun⟩
  · exact ⟨iff_of_true hrun hclosed, fun hopen => absurd hclosed hopen⟩
  · refine ⟨iff_of_false ?_ hopen, fun _ => hrun⟩
    rintro ⟨out, hout⟩
    exact nomatch hrun.symm.trans hout

def widthFormat : CString := ⟨[ascii '%', ascii '5', ascii 'd', ascii '%', ascii '%'], by decide⟩

theorem vprintf_stops_iff_width : ∃ out, vprintf widthFormat [.word 7] = .ok out := by
  have hscan : scan [ascii '5', ascii 'd', ascii '%', ascii '%'] =
      (⟨[], .digits [ascii '5'], none, .int⟩, [ascii 'd', ascii '%', ascii '%']) := rfl
  have hhead : [ascii '5', ascii 'd', ascii '%', ascii '%'].head? ≠ some (ascii '%') := by decide
  have hmatches : Matches widthFormat.val (([.word 7] : List Arg).map Arg.kind) :=
    .conversion hhead hscan (.percent (.nil []))
  exact (vprintf_stops_iff widthFormat hmatches).1.mpr (.conversion hhead hscan (.percent .nil))

theorem vprintf_reads_on : Matches [ascii '%'] [] ∧ vprintf ⟨[ascii '%'], by decide⟩ [] = .error .formatEnd ∧
    Matches [ascii '%', ascii 'l'] [] ∧ vprintf ⟨[ascii '%', ascii 'l'], by decide⟩ [] = .error .formatEnd :=
  ⟨.cut (d := .plain) rfl [], rfl, .cut (d := { Directive.plain with type := .long }) rfl [], rfl⟩

end Ends

end Pintos.Lib
