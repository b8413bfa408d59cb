import Pintos.Lib.IntegerText

/-! Formats as sequences of literal bytes and conversions, and where `__vprintf` stops in them. -/

namespace Pintos.Lib

open Pintos.Foundation Pintos.Kernel Function

inductive Amount
  | digits (ds : List Byte)
  | star

structure Directive where
  flags : List Byte
  width : Amount
  precision : Option Amount
  type : IntType

section Scan

def isFlag (c : Byte) : Bool := (flagOf c).isSome

def scanAmount (text : List Byte) : Amount × List Byte :=
  if text.head? = some (ascii '*') then (.star, text.tail)
  else (.digits (text.takeWhile isdigit), text.dropWhile isdigit)

def scanPrecision (text : List Byte) : Option Amount × List Byte :=
  if text.head? = some (ascii '.') then (some (scanAmount text.tail).1, (scanAmount text.tail).2) else (none, text)

def scanType : List Byte → IntType × List Byte
  | [] => (.int, [])
  | c :: text =>
    if c = ascii 'h' then if text.head? = some (ascii 'h') then (.char, text.tail) else (.short, text)
    else if c = ascii 'j' then (.intmax, text)
    else if c = ascii 'l' then if text.head? = some (ascii 'l') then (.longlong, text.tail) else (.long, text)
    else if c = ascii 't' then (.ptrdifft, text)
    else if c = ascii 'z' then (.sizet, text)
    else (.int, c :: text)

def scan (text : List Byte) : Directive × List Byte :=
  let width := scanAmount (text.dropWhile isFlag)
  let precision := scanPrecision width.2
  let type := scanType precision.2
  ({ flags := text.takeWhile isFlag, width := width.1, precision := precision.1, type := type.1 }, type.2)

end Scan

section Suffixes

lemma scanAmount_suffix (text : List Byte) : (scanAmount text).2 <:+ text := by
  rw [scanAmount]
  split
  · exact List.tail_suffix text
  · exact List.dropWhile_suffix _

lemma scanPrecision_suffix (text : List Byte) : (scanPrecision text).2 <:+ text := by
  rw [scanPrecision]
  split
  · exact (scanAmount_suffix _).trans (List.tail_suffix text)
  · exact List.suffix_refl text

lemma scanType_suffix (text : List Byte) : (scanType text).2 <:+ text := by
  cases text with
  | nil => exact List.suffix_refl []
  | cons c text =>
    have htail : text <:+ c :: text := List.suffix_cons c text
    have hnext : text.tail <:+ c :: text := (List.tail_suffix text).trans htail
    rw [scanType]
    split_ifs
    all_goals first | exact hnext | exact htail | exact List.suffix_refl _

lemma scan_suffix (text : List Byte) : (scan text).2 <:+ text :=
  (scanType_suffix _).trans ((scanPrecision_suffix _).trans ((scanAmount_suffix _).trans (List.dropWhile_suffix _)))

end Suffixes

section Text

def Amount.text : Amount → List Byte
  | .digits ds => ds
  | .star => [ascii '*']

def IntType.text : IntType → List Byte
  | .char => [ascii 'h', ascii 'h']
  | .short => [ascii 'h']
  | .int => []
  | .intmax => [ascii 'j']
  | .long => [ascii 'l']
  | .longlong => [ascii 'l', ascii 'l']
  | .ptrdifft => [ascii 't']
  | .sizet => [ascii 'z']

def Amount.precisionText : Option Amount → List Byte
  | none => []
  | some a => ascii '.' :: a.text

def Directive.text (d : Directive) : List Byte :=
  d.flags ++ (d.width.text ++ (Amount.precisionText d.precision ++ d.type.text))

def Amount.Numeric : Amount → Prop
  | .digits ds => ∀ c ∈ ds, isdigit c = true
  | .star => True

structure Directive.Canonical (d : Directive) : Prop where
  flags : ∀ c ∈ d.flags, isFlag c = true
  width : d.width.Numeric
  nonzero : d.width.text.head? ≠ some (ascii '0')
  precision : ∀ a, d.precision = some a → a.Numeric

def isOption (c : Byte) : Bool :=
  isFlag c || isdigit c ||
    decide (c ∈ [ascii '*', ascii '.', ascii 'h', ascii 'j', ascii 'l', ascii 't', ascii 'z'])

def Stops (p : Byte → Bool) (text : List Byte) : Prop := ∀ c, text.head? = some c → p c = false

section Spans

variable {p : Byte → Bool} {as text : List Byte}

lemma Stops.takeWhile_eq (h : Stops p text) (has : ∀ c ∈ as, p c = true) : (as ++ text).takeWhile p = as := by
  rw [List.takeWhile_append_of_pos has]
  cases text with
  | nil => simp
  | cons c text => simp [h c rfl]

lemma Stops.dropWhile_eq (h : Stops p text) (has : ∀ c ∈ as, p c = true) : (as ++ text).dropWhile p = text := by
  rw [List.dropWhile_append_of_pos has]
  cases text with
  | nil => rfl
  | cons c text => simp [h c rfl]

lemma Stops.append (h : Stops p text) (has : ∀ c, as.head? = some c → p c = false) : Stops p (as ++ text) := by
  cases as with
  | nil => exact h
  | cons a as => exact has

end Spans

lemma isFlag_of_digit {c : Byte} (h : isdigit c = true) (hc : c ≠ ascii '0') : isFlag c = false := by
  revert c
  decide

section Canonical

variable {conv : Byte} (hconv : isOption conv = false) (rest : List Byte)

include hconv

lemma scanType_text (type : IntType) : scanType (type.text ++ conv :: rest) = (type, conv :: rest) := by
  simp only [isOption, Bool.or_eq_false_iff, decide_eq_false_iff_not, List.mem_cons, not_or] at hconv
  obtain ⟨-, -, -, hh, hj, hl, ht, hz, -⟩ := hconv
  cases type with
  | short => simp [IntType.text, scanType, hh]
  | int => simp [IntType.text, scanType, hh, hj, hl, ht, hz]
  | long => simp [IntType.text, scanType, hl, show ascii 'l' ≠ ascii 'h' by decide,
    show ascii 'l' ≠ ascii 'j' by decide]
  | _ => rfl

lemma stops_type (type : IntType) :
    Stops isFlag (type.text ++ conv :: rest) ∧ Stops isdigit (type.text ++ conv :: rest) ∧
      (type.text ++ conv :: rest).head? ≠ some (ascii '*') ∧ (type.text ++ conv :: rest).head? ≠ some (ascii '.') := by
  simp only [isOption, Bool.or_eq_false_iff, decide_eq_false_iff_not, List.mem_cons, not_or] at hconv
  obtain ⟨⟨hflag, hdigit⟩, hstar, hdot, -⟩ := hconv
  cases type with
  | int => simp [IntType.text, Stops, hflag, hdigit, hstar, hdot]
  | _ =>
    refine ⟨?_, ?_, by simp [IntType.text]; decide, by simp [IntType.text]; decide⟩
    all_goals
      rintro c hc
      obtain rfl := Option.some.inj hc
      decide

omit hconv in
lemma scanAmount_text {a : Amount} (ha : a.Numeric) {text : List Byte} (hdigit : Stops isdigit text)
    (hstar : text.head? ≠ some (ascii '*')) : scanAmount (a.text ++ text) = (a, text) := by
  cases a with
  | star => rfl
  | digits ds =>
    have hhead : (ds ++ text).head? ≠ some (ascii '*') := by
      cases ds with
      | nil => exact hstar
      | cons d ds =>
        intro h
        have hd := ha d List.mem_cons_self
        rw [Option.some.inj h] at hd
        exact absurd hd (by decide)
    rw [scanAmount, Amount.text, if_neg hhead, hdigit.takeWhile_eq ha, hdigit.dropWhile_eq ha]

lemma scanPrecision_text {a : Option Amount} (ha : ∀ b, a = some b → b.Numeric) (type : IntType) :
    scanPrecision (Amount.precisionText a ++ (type.text ++ conv :: rest)) = (a, type.text ++ conv :: rest) := by
  obtain ⟨-, hdigit, hstar, hdot⟩ := stops_type hconv rest type
  cases a with
  | none => exact if_neg hdot
  | some a =>
    have hscan := scanAmount_text (ha a rfl) hdigit hstar
    rw [scanPrecision, Amount.precisionText, List.cons_append, List.head?_cons, if_pos rfl, List.tail_cons, hscan]

lemma stops_precision (a : Option Amount) (type : IntType) :
    Stops isFlag (Amount.precisionText a ++ (type.text ++ conv :: rest)) ∧
      Stops isdigit (Amount.precisionText a ++ (type.text ++ conv :: rest)) ∧
      (Amount.precisionText a ++ (type.text ++ conv :: rest)).head? ≠ some (ascii '*') := by
  obtain ⟨hflag, hdigit, hstar, -⟩ := stops_type hconv rest type
  cases a with
  | none => exact ⟨hflag, hdigit, hstar⟩
  | some a =>
    refine ⟨?_, ?_, fun h => absurd (Option.some.inj h) (by decide)⟩
    all_goals
      rintro c hc
      obtain rfl := Option.some.inj hc
      decide

lemma scan_text {d : Directive} (hd : d.Canonical) : scan (d.text ++ conv :: rest) = (d, conv :: rest) := by
  obtain ⟨flags, width, precision, type⟩ := d
  obtain ⟨hflag, hdigit, hstar⟩ := stops_precision hconv rest precision type
  have hwidth : Stops isFlag (width.text ++ (Amount.precisionText precision ++ (type.text ++ conv :: rest))) := by
    refine hflag.append fun c hc => ?_
    cases width with
    | star =>
      obtain rfl := Option.some.inj hc
      decide
    | digits ds =>
      have hnum := hd.width c (List.mem_of_head? hc)
      exact isFlag_of_digit hnum fun heq => hd.nonzero (heq ▸ hc)
  simp only [scan, Directive.text, List.append_assoc]
  rw [hwidth.takeWhile_eq hd.flags, hwidth.dropWhile_eq hd.flags, scanAmount_text hd.width hdigit hstar,
    scanPrecision_text hconv rest hd.precision, scanType_text hconv rest]

end Canonical

end Text

section Meaning

def digitStep (n : Int) (c : Byte) : Int := int32 (n * 10 + c.toNat - 0x30)

def Amount.take (args : List Arg) : Amount → PrintM (Int × List Arg)
  | .digits ds => return (ds.foldl digitStep 0, args)
  | .star => do
    let (w, args) ← vaWord args
    return (w.toInt, args)

def takePrecision (args : List Arg) : Option Amount → PrintM (Int × List Arg)
  | none => return (-1, args)
  | some a => a.take args

def writtenFlags (flags : List Byte) : Flag → Bool
  | .space => Flag.space.byte ∈ flags ∧ Flag.plus.byte ∉ flags
  | .zero => Flag.zero.byte ∈ flags ∧ Flag.minus.byte ∉ flags
  | f => f.byte ∈ flags

def Directive.resolve (d : Directive) (width precision : Int) : Conversion where
  flags
    | .minus => Flag.minus.byte ∈ d.flags ∨ width < 0
    | .plus => Flag.plus.byte ∈ d.flags
    | .space => Flag.space.byte ∈ d.flags ∧ Flag.plus.byte ∉ d.flags
    | .pound => Flag.pound.byte ∈ d.flags
    | .zero => Flag.zero.byte ∈ d.flags ∧ Flag.minus.byte ∉ d.flags ∧ precision < 0
    | .group => Flag.group.byte ∈ d.flags
  width := if width < 0 then int32 (-width) else width
  precision := if precision < 0 then -1 else precision
  type := d.type

def Directive.conversion (d : Directive) (args : List Arg) : PrintM (Conversion × List Arg) := do
  let (width, args) ← d.width.take args
  let (precision, args) ← takePrecision args d.precision
  return (d.resolve width precision, args)

lemma resolve_flags (d : Directive) (width precision : Int) :
    (if 0 ≤ (if precision < 0 then -1 else precision) then
      update (if width < 0 then update (writtenFlags d.flags) .minus true else writtenFlags d.flags) .zero false
    else if width < 0 then update (writtenFlags d.flags) .minus true else writtenFlags d.flags) =
      (d.resolve width precision).flags := by
  have hsign : 0 ≤ (if precision < 0 then -1 else precision) ↔ ¬ precision < 0 := by
    split <;> omega
  rw [if_congr hsign rfl rfl]
  funext f
  by_cases hw : width < 0 <;> by_cases hp : precision < 0 <;> cases f <;>
    simp [Directive.resolve, writtenFlags, hw, hp]

end Meaning

section Parsing

variable {text : List Byte} {c : Byte}

@[simp] lemma read_within_cons (c : Byte) (text : List Byte) : (Cursor.within (c :: text)).read = .ok c := rfl

@[simp] lemma read_within_nil : (Cursor.within []).read = .ok 0 := rfl

@[simp] lemma next_within_cons (c : Byte) (text : List Byte) : (Cursor.within (c :: text)).next = .within text := rfl

@[simp] lemma length_within (text : List Byte) : (Cursor.within text).length = text.length := rfl

lemma flagOf_eq_some {f : Flag} : flagOf c = some f ↔ f.byte = c := by
  constructor
  · intro h
    simpa using List.find?_some h
  · rintro rfl
    cases f <;> rfl

lemma Flag.byte_inj {f g : Flag} : f.byte = g.byte ↔ f = g :=
  ⟨fun h => Option.some.inj ((flagOf_eq_some.mpr rfl).symm.trans (flagOf_eq_some.mpr h.symm)), fun h => h ▸ rfl⟩

lemma flagLoop_within (fuel : Nat) (hfuel : text.length < fuel) (flags : Flag → Bool) :
    flagLoop fuel (.within text) flags =
      .ok (fun f => flags f || decide (f.byte ∈ text.takeWhile isFlag), .within (text.dropWhile isFlag)) := by
  induction fuel generalizing text flags with
  | zero => omega
  | succ fuel ih =>
    cases text with
    | nil =>
      have hstop : flagLoop (fuel + 1) (.within []) flags = .ok (flags, .within []) := rfl
      simp [hstop]
    | cons c text =>
      rw [flagLoop, read_within_cons, bind_ok]
      cases hc : flagOf c with
      | none =>
        have hflag : isFlag c = false := by rw [isFlag, hc]; rfl
        simp [hflag, pure_eq_ok]
      | some f =>
        have hflag : isFlag c = true := by rw [isFlag, hc]; rfl
        simp only
        rw [next_within_cons, ih (Nat.lt_of_succ_lt_succ hfuel), List.takeWhile_cons_of_pos hflag,
          List.dropWhile_cons_of_pos hflag]
        obtain rfl := flagOf_eq_some.mp hc
        refine congrArg (fun g => Except.ok (g, _)) (funext fun g => ?_)
        rcases eq_or_ne g f with rfl | hne
        · simp
        · simp [hne, Flag.byte_inj]

lemma parseFlags_within (text : List Byte) :
    parseFlags (.within text) = .ok (writtenFlags (text.takeWhile isFlag), .within (text.dropWhile isFlag)) := by
  rw [parseFlags, length_within, flagLoop_within _ (Nat.lt_succ_self _), bind_ok]
  simp only [Bool.false_or, decide_eq_true_eq]
  refine congrArg (fun g => Except.ok (g, _)) (funext fun f => ?_)
  by_cases hminus : Flag.minus.byte ∈ text.takeWhile isFlag <;>
    by_cases hplus : Flag.plus.byte ∈ text.takeWhile isFlag <;> cases f <;> simp [writtenFlags, hminus, hplus]

lemma digitLoop_within (fuel : Nat) (hfuel : text.length < fuel) (n : Int) :
    digitLoop fuel (.within text) n =
      .ok ((text.takeWhile isdigit).foldl digitStep n, .within (text.dropWhile isdigit)) := by
  induction fuel generalizing text n with
  | zero => omega
  | succ fuel ih =>
    cases text with
    | nil => rfl
    | cons c text =>
      rw [digitLoop, read_within_cons, bind_ok]
      cases hc : isdigit c with
      | false => simp [hc, pure_eq_ok]
      | true =>
        rw [if_pos rfl, next_within_cons, ih (Nat.lt_of_succ_lt_succ hfuel), List.takeWhile_cons_of_pos hc,
          List.dropWhile_cons_of_pos hc]
        rfl

lemma read_within (text : List Byte) : (Cursor.within text).read = .ok (text.headD 0) := by
  cases text <;> rfl

lemma headD_eq_iff (hc : c ≠ 0) : text.headD 0 = c ↔ text.head? = some c := by
  cases text with
  | nil => exact ⟨fun h => absurd h.symm hc, nofun⟩
  | cons d text => simp

lemma next_within (h : text.head? = some c) : (Cursor.within text).next = .within text.tail := by
  cases text with
  | nil => contradiction
  | cons d text => rfl

lemma parseNumber_within (text : List Byte) (args : List Arg) :
    parseNumber (.within text) args = do
      let (n, args) ← (scanAmount text).1.take args
      return (n, .within (scanAmount text).2, args) := by
  have hiff : text.headD 0 = ascii '*' ↔ text.head? = some (ascii '*') := headD_eq_iff (by decide)
  rw [parseNumber, read_within, bind_ok, if_congr hiff rfl rfl, scanAmount]
  split
  · next h =>
    rw [next_within h, Amount.take, bind_assoc]
    rfl
  · rw [length_within, digitLoop_within _ (Nat.lt_succ_self _), bind_ok]
    rfl

lemma parsePrecision_within (text : List Byte) (args : List Arg) :
    parsePrecision (.within text) args = do
      let (n, args) ← takePrecision args (scanPrecision text).1
      return (if n < 0 then -1 else n, .within (scanPrecision text).2, args) := by
  have hiff : text.headD 0 = ascii '.' ↔ text.head? = some (ascii '.') := headD_eq_iff (by decide)
  rw [parsePrecision, read_within, bind_ok, if_congr hiff rfl rfl, scanPrecision]
  split
  · next h =>
    rw [next_within h, parseNumber_within, takePrecision]
    simp only [bind_assoc, pure_bind]
  · rfl

lemma parseType_within (text : List Byte) :
    parseType (.within text) = .ok ((scanType text).1, .within (scanType text).2) := by
  cases text with
  | nil => rfl
  | cons c text =>
    have hl : text.headD 0 = ascii 'l' ↔ text.head? = some (ascii 'l') := headD_eq_iff (by decide)
    have hh : text.headD 0 = ascii 'h' ↔ text.head? = some (ascii 'h') := headD_eq_iff (by decide)
    simp only [parseType, scanType, next_within_cons, read_within, List.headD_cons, bind_ok, hl, hh, pure_eq_ok]
    split_ifs with _ hchar _ _ hlong
    · rw [next_within hchar]
    · rfl
    · rfl
    · rw [next_within hlong]
    all_goals rfl

lemma parseConversion_within (text : List Byte) (args : List Arg) :
    parseConversion (.within text) args = do
      let (c, args) ← (scan text).1.conversion args
      return (c, .within (scan text).2, args) := by
  simp only [parseConversion, parseFlags_within, bind_ok, parseNumber_within, parsePrecision_within, parseType_within,
    Directive.conversion, scan, bind_assoc, pure_bind]
  refine bind_congr fun ⟨width, args⟩ => bind_congr fun ⟨precision, args⟩ => ?_
  have hflags := resolve_flags (scan text).1 width precision
  simp only [scan] at hflags ⊢
  rw [hflags]
  rfl

end Parsing

end Pintos.Lib
