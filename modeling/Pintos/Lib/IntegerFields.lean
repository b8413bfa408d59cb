import Pintos.Lib.FormatEnds

/-! Fields of formatted integers: sign, mark of the base, digits and padding. -/

namespace Pintos.Lib

open Pintos.Foundation Pintos.Kernel

structure IntField where
  sign : List Byte
  lead : List Byte
  digits : List Byte

def IntField.body (f : IntField) : List Byte := f.sign ++ f.lead ++ f.digits

def IntField.padded (f : IntField) (width : Nat) (left zero : Bool) : List Byte :=
  let fill := width - f.body.length
  if left then f.body ++ List.replicate fill (ascii ' ')
  else if zero then f.sign ++ f.lead ++ List.replicate fill (ascii '0') ++ f.digits
  else List.replicate fill (ascii ' ') ++ f.body

lemma IntField.length_padded (f : IntField) (width : Nat) (left zero : Bool) :
    (f.padded width left zero).length = max width f.body.length := by
  rw [IntField.padded]
  split_ifs <;> simp only [IntField.body, List.length_append, List.length_replicate] <;> omega

inductive IntConv
  | d
  | i
  | u
  | o
  | lowerX
  | upperX

def IntConv.byte : IntConv → Byte
  | .d => ascii 'd'
  | .i => ascii 'i'
  | .u => ascii 'u'
  | .o => ascii 'o'
  | .lowerX => ascii 'x'
  | .upperX => ascii 'X'

def IntConv.base : IntConv → IntegerBase
  | .d | .i | .u => baseD
  | .o => baseO
  | .lowerX => baseLowerX
  | .upperX => baseUpperX

def IntConv.isSigned : IntConv → Bool
  | .d | .i => true
  | _ => false

def IntConv.operand (k : IntConv) (type : IntType) (args : List Arg) : PrintM ((Bool × Nat) × List Arg) := do
  if k.isSigned then
    let (v, args) ← signedArg type args
    return ((v.slt 0#64, (if v.slt 0#64 then -v else v).toNat), args)
  else
    let (v, args) ← unsignedArg type args
    return ((false, v.toNat), args)

section Operands

variable {k : IntConv} {c : Conversion}

lemma convert_int (nested : List Byte → List Arg → PrintM (List Byte)) (k : IntConv) (c : Conversion)
    (args : List Arg) : convert nested c k.byte args = do
      let ((negative, value), args) ← k.operand c.type args
      return (← formatInteger value k.isSigned negative k.base c, args) := by
  cases k
  all_goals
    simp only [IntConv.operand, IntConv.isSigned, bind_assoc, if_true, Bool.false_eq_true, if_false]
    rfl

lemma operand_lt {type : IntType} {args args' : List Arg} {negative : Bool} {value : Nat}
    (h : k.operand type args = .ok ((negative, value), args')) : value < 2 ^ 64 := by
  rw [IntConv.operand] at h
  split at h
  all_goals
    obtain ⟨⟨v, args⟩, -, hret⟩ := bind_eq_ok.mp h
    simp only [pure_eq_ok, Except.ok.injEq, Prod.mk.injEq] at hret
    rw [← hret.1.2]
    exact BitVec.isLt _

end Operands

section Fields

def decimal (ds : List Byte) : Nat := ds.foldl (fun n c => n * 10 + (c.toNat - 0x30)) 0

def Amount.value (w : BitVec 32) : Amount → Int
  | .digits ds => decimal ds
  | .star => w.toInt

def Amount.args (w : BitVec 32) : Amount → List Arg
  | .digits _ => []
  | .star => [.word w]

def Directive.precisionValue (d : Directive) (p : BitVec 32) : Int :=
  match d.precision with
  | none => -1
  | some a => int32 (a.value p)

def Directive.args (d : Directive) (w p : BitVec 32) (a : Arg) : List Arg :=
  d.width.args w ++ ((d.precision.map (Amount.args p)).getD [] ++ [a])

def Directive.left (d : Directive) (width : Int) : Bool := Flag.minus.byte ∈ d.flags ∨ width < 0

def Directive.zero (d : Directive) (precision : Int) : Bool := Flag.zero.byte ∈ d.flags ∧ precision < 0

def signText (flags : List Byte) (isSigned negative : Bool) : List Byte :=
  if !isSigned then []
  else if negative then [ascii '-']
  else if Flag.plus.byte ∈ flags then [ascii '+']
  else if Flag.space.byte ∈ flags then [ascii ' ']
  else []

def leadText (flags : List Byte) (b : IntegerBase) (value : Nat) : List Byte :=
  if Flag.pound.byte ∈ flags ∧ value ≠ 0 then b.x.elim [] fun x => [ascii '0', x] else []

def Directive.field (d : Directive) (k : IntConv) (width precision : Int)
    (negative : Bool) (value : Nat) : IntField where
  sign := signText d.flags k.isSigned negative
  lead := leadText d.flags k.base value
  digits := numeral value k.base (d.resolve width precision)

lemma int32_of_lt {n : Int} (h : n.natAbs < 2 ^ 31) : int32 n = n := by
  simp only [int32, Int.bmod_def]
  omega

lemma foldl_digits {ds : List Byte} (hds : ∀ c ∈ ds, isdigit c = true) {step : Int → Byte → Int} {f : Nat → Int}
    (hstep : ∀ n c, 0x30 ≤ c.toNat → step (f n) c = f (n * 10 + (c.toNat - 0x30))) (n : Nat) :
    ds.foldl step (f n) = f (ds.foldl (fun n c => n * 10 + (c.toNat - 0x30)) n) := by
  induction ds generalizing n with
  | nil => rw [List.foldl_nil, List.foldl_nil]
  | cons c ds ih =>
    have hc := hds c List.mem_cons_self
    rw [isdigit, decide_eq_true_eq] at hc
    rw [List.foldl_cons, hstep n c hc.1, ih fun d hd => hds d (List.mem_cons_of_mem c hd), List.foldl_cons]

lemma Amount.take_args {a : Amount} (ha : a.Numeric) (w : BitVec 32) (args : List Arg) :
    a.take (a.args w ++ args) = .ok (int32 (a.value w), args) := by
  cases a with
  | digits ds =>
    have hfold : ds.foldl digitStep 0 = int32 (decimal ds) := by
      refine foldl_digits ha (f := fun n => int32 n) (fun n c hc => ?_) 0
      rw [digitStep, int32, int32, int32, Int.bmod_def, Int.bmod_def, Int.bmod_def]
      omega
    rw [Amount.take, hfold]
    rfl
  | star =>
    have hint : int32 w.toInt = w.toInt := by
      rw [int32, BitVec.toInt_eq_toNat_bmod, Int.bmod_bmod]
    rw [Amount.value, hint]
    rfl

lemma Directive.conversion_args {d : Directive} (hd : d.Canonical) (w p : BitVec 32) (a : Arg) :
    d.conversion (d.args w p a) = .ok (d.resolve (int32 (d.width.value w)) (d.precisionValue p), [a]) := by
  have hprecision : takePrecision ((d.precision.map (Amount.args p)).getD [] ++ [a]) d.precision =
      .ok (d.precisionValue p, [a]) := by
    rw [Directive.precisionValue]
    cases hp : d.precision with
    | none => rfl
    | some am => exact Amount.take_args (hd.precision am hp) p [a]
  rw [Directive.conversion, Directive.args, Amount.take_args hd.width, bind_ok]
  simp only [hprecision, bind_ok]
  rfl

end Fields

section Text

variable {d : Directive}

lemma Amount.zero_notMem {a : Amount} (ha : a.Numeric) : (0 : Byte) ∉ a.text := by
  cases a with
  | digits ds => exact fun h => absurd (ha 0 h) (by decide)
  | star => decide

lemma zero_notMem_text (hd : d.Canonical) (k : IntConv) : (0 : Byte) ∉ ascii '%' :: (d.text ++ [k.byte]) := by
  have hflags : (0 : Byte) ∉ d.flags := fun h => absurd (hd.flags 0 h) (by decide)
  have hprecision : (0 : Byte) ∉ Amount.precisionText d.precision := by
    cases hp : d.precision with
    | none => exact List.not_mem_nil
    | some a => exact List.not_mem_cons_of_ne_of_not_mem (by decide) (Amount.zero_notMem (hd.precision a hp))
  have htype : (0 : Byte) ∉ d.type.text := by cases d.type <;> decide
  have hconv : (0 : Byte) ≠ k.byte := by cases k <;> decide
  rw [List.mem_cons, Directive.text]
  simp only [List.mem_append, List.mem_singleton, not_or]
  exact ⟨by decide, ⟨hflags, Amount.zero_notMem hd.width, hprecision, htype⟩, hconv⟩

def Directive.format (hd : d.Canonical) (k : IntConv) : CString :=
  ⟨ascii '%' :: (d.text ++ [k.byte]), zero_notMem_text hd k⟩

lemma isOption_byte (k : IntConv) : isOption k.byte = false := by cases k <;> decide

lemma vprintf_format (hd : d.Canonical) (k : IntConv) (w p : BitVec 32) {a : Arg} {negative : Bool} {value : Nat}
    (ha : k.operand d.type [a] = .ok ((negative, value), [])) :
    vprintf (Directive.format hd k) (d.args w p a) =
      formatInteger value k.isSigned negative k.base (d.resolve (int32 (d.width.value w)) (d.precisionValue p)) := by
  have hscan := scan_text (isOption_byte k) [] hd
  have hhead : (d.text ++ [k.byte]).head? ≠ some (ascii '%') := head_ne_percent hscan (by cases k <;> decide)
  obtain ⟨c, hc⟩ : ∃ c, d.resolve (int32 (d.width.value w)) (d.precisionValue p) = c := ⟨_, rfl⟩
  have htype : c.type = d.type := hc ▸ rfl
  rw [vprintf, Directive.format, loop_conversion _ _ hhead, hscan]
  simp only [Directive.conversion_args hd, bind_ok, List.headD_cons, convert_int, hc, htype, ha, bind_assoc, pure_bind,
    next_within_cons]
  have hend : ∀ n, vprintfLoop (n + 32) (.within []) [] = .ok [] := fun n => rfl
  simp only [hend, bind_ok, List.append_nil, bind_pure]

end Text

section Layout

variable {d : Directive} {k : IntConv} {width precision : Int} {negative : Bool} {value : Nat}

lemma base_mem : ∀ k : IntConv, k.base ∈ bases
  | .d | .i | .u => baseD_mem
  | .o => baseO_mem
  | .lowerX => baseLowerX_mem
  | .upperX => baseUpperX_mem

lemma toList_signOf (d : Directive) (width precision : Int) (isSigned negative : Bool) :
    (signOf (d.resolve width precision) isSigned negative).toList = signText d.flags isSigned negative := by
  cases isSigned <;> cases negative <;> by_cases hp : Flag.plus.byte ∈ d.flags <;>
    by_cases hs : Flag.space.byte ∈ d.flags <;> simp [signOf, signText, Directive.resolve, hp, hs]

lemma elim_xOf (d : Directive) (width precision : Int) (b : IntegerBase) (value : Nat) :
    ((xOf b (d.resolve width precision) value).elim [] fun x => [ascii '0', x]) = leadText d.flags b value := by
  by_cases hp : Flag.pound.byte ∈ d.flags <;> by_cases hv : value = 0 <;>
    simp [xOf, leadText, Directive.resolve, hp, hv]

lemma length_toList {α : Type} (o : Option α) : o.toList.length = if o.isSome then 1 else 0 := by
  cases o <;> rfl

lemma length_mark (x : Option Byte) :
    (x.elim [] fun x => [ascii '0', x]).length = if x.isSome then 2 else 0 := by
  cases x <;> rfl

variable (hwidth : width.natAbs < 2 ^ 31) (hv : value < 2 ^ 64)

include hwidth hv

lemma padCnt_eq : padCnt (d.resolve width precision) (numeral value k.base (d.resolve width precision))
        (xOf k.base (d.resolve width precision) value) (signOf (d.resolve width precision) k.isSigned negative) =
      width.natAbs - (d.field k width precision negative value).body.length := by
  have hlen := length_numeral_le (base_mem k) hv (d.resolve width precision)
  have hsign := congrArg List.length (toList_signOf d width precision k.isSigned negative)
  have hlead := congrArg List.length (elim_xOf d width precision k.base value)
  rw [length_toList] at hsign
  rw [length_mark] at hlead
  have hbody : (d.field k width precision negative value).body.length =
      (signText d.flags k.isSigned negative).length + (leadText d.flags k.base value).length +
        (numeral value k.base (d.resolve width precision)).length := by
    simp only [IntField.body, Directive.field, List.length_append]
  have habs : (d.resolve width precision).width = width.natAbs := by
    simp only [Directive.resolve]
    split
    · rw [int32_of_lt (by omega)]
      omega
    · omega
  rw [padCnt, habs, hbody, ← hsign, ← hlead]
  split_ifs
  all_goals
    rw [int32_of_lt (by omega)]
    omega

lemma formatInteger_field (k : IntConv) (negative : Bool) : let f := d.field k width precision negative value
    let fill := width.natAbs - f.body.length
    let c := d.resolve width precision
    formatInteger value k.isSigned negative k.base c =
      .ok ((if !c.flags .minus && !c.flags .zero then List.replicate fill (ascii ' ') else []) ++ f.sign ++ f.lead ++
        (if c.flags .zero then List.replicate fill (ascii '0') else []) ++ f.digits ++
        (if c.flags .minus then List.replicate fill (ascii ' ') else [])) := by
  intro f fill c
  rw [formatInteger, integerDigits_eq (base_mem k) hv, bind_ok]
  simp only [c, padCnt_eq hwidth hv, toList_signOf, elim_xOf, outputDup]
  rfl

/-- A left side that comes from the width alone, with a zero flag in force and room to fill. -/
def Directive.Doubled (d : Directive) (width precision : Int) (f : IntField) : Prop :=
  Flag.zero.byte ∈ d.flags ∧ Flag.minus.byte ∉ d.flags ∧ width < 0 ∧ precision < 0 ∧ f.body.length < width.natAbs

lemma formatInteger_padded_iff : formatInteger value k.isSigned negative k.base (d.resolve width precision) =
        .ok ((d.field k width precision negative value).padded width.natAbs (d.left width) (d.zero precision)) ↔
      ¬ d.Doubled width precision (d.field k width precision negative value) := by
  rw [formatInteger_field hwidth hv, Except.ok.injEq]
  obtain ⟨f, hf⟩ : ∃ f, d.field k width precision negative value = f := ⟨_, rfl⟩
  rw [hf, IntField.padded, Directive.Doubled, Directive.left, Directive.zero]
  simp only [Directive.resolve, IntField.body]
  by_cases hm : Flag.minus.byte ∈ d.flags <;> by_cases hz : Flag.zero.byte ∈ d.flags <;>
    by_cases hw : width < 0 <;> by_cases hp : precision < 0 <;> simp [hm, hz, hw, hp]
  -- what is left is the doubled padding, which nobody sees when there is nothing to fill
  omega

end Layout

theorem integer_field_iff {d : Directive} (hd : d.Canonical) (k : IntConv) (w p : BitVec 32)
    (hwidth : (d.width.value w).natAbs < 2 ^ 31) {a : Arg} {negative : Bool} {value : Nat}
    (ha : k.operand d.type [a] = .ok ((negative, value), [])) :
    let width := d.width.value w
    let precision := d.precisionValue p
    let f := d.field k width precision negative value
    vprintf (Directive.format hd k) (d.args w p a) = .ok (f.padded width.natAbs (d.left width) (d.zero precision)) ↔
      ¬ d.Doubled width precision f := by
  intro width precision f
  rw [vprintf_format hd k w p ha, int32_of_lt hwidth]
  exact formatInteger_padded_iff hwidth (operand_lt ha)

def starZero : Directive where
  flags := [ascii '0']
  width := .star
  precision := none
  type := .int

lemma starZero_canonical : starZero.Canonical where
  flags := by decide
  width := trivial
  nonzero := by decide
  precision := nofun

theorem integer_field_iff_star : vprintf (Directive.format starZero_canonical .d) [.word 6, .word (-42)] =
    .ok ((starZero.field .d 6 (-1) true 42).padded 6 false true) := by
  have ha : IntConv.d.operand starZero.type [.word (-42)] = .ok ((true, 42), []) := rfl
  refine (integer_field_iff starZero_canonical .d 6 0 (by decide) ha).mpr ?_
  rintro ⟨-, -, hneg, -⟩
  exact absurd hneg (by decide)

theorem integer_field_doubled : vprintf (Directive.format starZero_canonical .d) [.word (-4), .word 42] =
    .ok [ascii '0', ascii '0', ascii '4', ascii '2', ascii ' ', ascii ' '] ∧
      (starZero.field .d (-4) (-1) false 42).body.length = 2 := by
  decide +kernel

end Pintos.Lib
