import Pintos.Host.DiskImages
import Pintos.Kernel.Machine

/-! The kernel's command line, from the boot sector to `argv`. -/

namespace Pintos.Threads

open Pintos.Foundation Pintos.Kernel

def loaderBase : Nat := 0x7c00

def loaderEnd : Nat := 0x7e00

def loaderArgsLen : Nat := 128

def loaderParts : Nat := loaderEnd - 2 - 64

def loaderArgs : Nat := loaderParts - loaderArgsLen

def loaderArgCnt : Nat := loaderArgs - 4

def strnlen (m : Memory) : Nat → Nat → Nat
  | _, 0 => 0
  | string, maxlen + 1 => if m (wrap string) = 0 then 0 else strnlen m (string + 1) maxlen + 1

def argvLen : Nat := loaderArgsLen / 2 + 1

/-- A store to `argv[i]`, which may be outside the array. -/
def storeArgv (argv : List Nat) (i : Int) (p : Nat) : Except Panic (List Nat) :=
  if 0 ≤ i ∧ i < argv.length then .ok (argv.set i.toNat p) else .error .wildPointer

def readArgs (m : Memory) (stop : Nat) : Nat → Nat → Nat → List Nat → Except Panic (List Nat)
  | 0, _, _, argv => return argv
  | n + 1, i, p, argv =>
    if stop ≤ p then .error .commandLineOverflow
    else do
      let argv ← storeArgv argv i p
      readArgs m stop n (i + 1) (wrap (p + strnlen m p (stop - p) + 1)) argv

def readCommandLine (m : Memory) : Except Panic (List Nat) := do
  let argc := toInt32 (m.load (← ptov loaderArgCnt))
  let p ← ptov loaderArgs
  let argv ← readArgs m (wrap (p + loaderArgsLen)) argc.toNat 0 p (List.replicate argvLen 0)
  storeArgv argv argc 0

def StringAt (m : Memory) (p : Nat) (s : List Byte) : Prop := m.read p (s.length + 1) = s ++ [0]

def Recovers (m : Memory) (args : List (List Byte)) : Prop :=
  ∃ argv ptrs, readCommandLine m = .ok argv ∧ argv.take (args.length + 1) = ptrs ++ [0] ∧
    List.Forall₂ (StringAt m) ptrs args

variable {a : Host.DiskArgs} {args : List (List Byte)} {mbr : List Byte} {parts : List Host.Part}
  {argv : List Nat} {m : Memory} {i p stop : Nat}

lemma strnlen_eq {s : List Byte} (hs : 0 ∉ s) {maxlen : Nat} (h : StringAt m p s)
    (hlen : s.length < maxlen) (hp : p + maxlen < 4294967296) : strnlen m p maxlen = s.length := by
  induction s generalizing p maxlen with
  | nil =>
    obtain ⟨n, rfl⟩ := Nat.exists_eq_add_of_lt hlen
    have hz : m p = 0 := List.head_eq_of_cons_eq h
    rw [List.length_nil, Nat.zero_add, strnlen, wrap_of_lt (by omega), if_pos hz]
  | cons b s ih =>
    obtain ⟨hb, hs⟩ := List.ne_and_not_mem_of_not_mem_cons hs
    obtain ⟨n, rfl⟩ : ∃ n, maxlen = n + 1 := ⟨maxlen - 1, by omega⟩
    have hhead : m p = b := List.head_eq_of_cons_eq h
    have htail : StringAt m (p + 1) s := List.tail_eq_of_cons_eq h
    rw [strnlen, wrap_of_lt (by omega), hhead, if_neg (Ne.symm hb), List.length_cons]
    rw [List.length_cons] at hlen
    rw [ih hs htail (by omega) (by omega)]

lemma storeArgv_eq (h : i < argv.length) (p : Nat) :
    storeArgv argv i p = .ok (argv.set i p) := by
  rw [storeArgv, if_pos (by omega), Int.toNat_natCast]

lemma storeArgv_outside (h : argv.length ≤ i) (p : Nat) :
    storeArgv argv i p = .error .wildPointer :=
  if_neg (by omega)

lemma take_set_succ (h : i < argv.length) (p : Nat) :
    (argv.set i p).take (i + 1) = argv.take i ++ [p] := by
  rw [List.take_add_one, List.take_set_of_le le_rfl, List.getElem?_set_self h]
  rfl

def joined (args : List (List Byte)) : List Byte := (args.map fun arg => arg ++ [0]).flatten

structure Unread (m : Memory) (stop p : Nat) (args : List (List Byte)) : Prop where
  bytes : m.read p (joined args).length = joined args
  room : p + (joined args).length ≤ stop
  stop_lt : stop < 4294967296
  no_zero : ∀ arg ∈ args, 0 ∉ arg

lemma Unread.cons {arg : List Byte}
    (h : Unread m stop p (arg :: args)) :
    p < stop ∧ StringAt m p arg ∧
      Unread m stop (wrap (p + strnlen m p (stop - p) + 1)) args := by
  obtain ⟨hbytes, hroom, hstop, hzero⟩ := h
  have hsplit : joined (arg :: args) = (arg ++ [0]) ++ joined args := rfl
  have hlen : (arg ++ [0]).length = arg.length + 1 := by simp
  rw [hsplit, List.length_append, hlen] at hbytes hroom
  rw [Memory.read_add] at hbytes
  obtain ⟨hhead, htail⟩ := List.append_inj hbytes (by simp)
  have hstring : StringAt m p arg := hhead
  have hnext : wrap (p + strnlen m p (stop - p) + 1) = p + (arg.length + 1) := by
    rw [strnlen_eq (hzero arg List.mem_cons_self) hstring (by omega) (by omega), wrap_of_lt (by omega)]
    omega
  refine ⟨by omega, hstring, ?_⟩
  rw [hnext]
  exact ⟨htail, by omega, hstop, fun a ha => hzero a (List.mem_cons_of_mem _ ha)⟩

lemma readArgs_eq
    (h : Unread m stop p args) (hroom : i + args.length ≤ argv.length) :
    ∃ argv' ptrs, readArgs m stop args.length i p argv = .ok argv' ∧ argv'.length = argv.length ∧
      argv'.take (i + args.length) = argv.take i ++ ptrs ∧ List.Forall₂ (StringAt m) ptrs args := by
  induction args generalizing p i argv with
  | nil => exact ⟨argv, [], rfl, rfl, by simp, .nil⟩
  | cons arg args ih =>
    obtain ⟨hlt, hstring, hrest⟩ := h.cons
    rw [List.length_cons] at hroom
    have hset : i + 1 + args.length ≤ (argv.set i p).length := by
      rw [List.length_set]
      omega
    obtain ⟨argv', ptrs, hread, hlen, htake, hptrs⟩ := ih hrest hset
    refine ⟨argv', p :: ptrs, ?_, by rw [hlen, List.length_set], ?_, .cons hstring hptrs⟩
    · rw [List.length_cons, readArgs, if_neg (by omega), storeArgv_eq (by omega), bind_ok, hread]
    · rw [List.length_cons, Nat.add_comm args.length 1, ← Nat.add_assoc, htake,
        take_set_succ (by omega), List.append_assoc]
      rfl

lemma readArgs_outside
    (h : Unread m stop p args) (hi : i ≤ argv.length) (hroom : argv.length < i + args.length) :
    readArgs m stop args.length i p argv = .error .wildPointer := by
  induction args generalizing p i argv with
  | nil =>
    rw [List.length_nil] at hroom
    omega
  | cons arg args ih =>
    obtain ⟨hlt, -, hrest⟩ := h.cons
    rw [List.length_cons] at hroom ⊢
    rw [readArgs, if_neg (by omega)]
    by_cases hin : i < argv.length
    · rw [storeArgv_eq hin, bind_ok]
      exact ih hrest (by rw [List.length_set]; omega) (by rw [List.length_set]; omega)
    · rw [storeArgv_outside (by omega), bind_error]

def Booted (m : Memory) (mbr : List Byte) : Prop := m.read (physBase + loaderBase) 512 = mbr

lemma length_joined_le {line : List Byte}
    (h : Host.makeKernelCommandLine args = some line) :
    (joined args).length ≤ 128 ∧ line = word args.length ++ padded 128 (joined args) := by
  rw [Host.makeKernelCommandLine, Option.ite_none_left_eq_some, Option.some.injEq] at h
  exact ⟨Nat.le_of_not_lt h.1, h.2.symm⟩

lemma length_le_joined (args : List (List Byte)) : args.length ≤ (joined args).length := by
  induction args with
  | nil => exact Nat.le_refl _
  | cons arg args ih =>
    have hsplit : joined (arg :: args) = (arg ++ [0]) ++ joined args := rfl
    rw [hsplit, List.length_append, List.length_append, List.length_cons, List.length_singleton]
    omega

lemma Booted.command_line
    (hmbr : Host.makeMbr a parts = some mbr) (hboot : Booted m mbr) :
    (joined a.args).length ≤ 128 ∧
      m.read (physBase + loaderArgCnt) 132 = word a.args.length ++ padded 128 (joined a.args) := by
  obtain ⟨line, hline, hmbr⟩ := Host.makeMbr_eq_some hmbr
  have hlen := Host.length_makeKernelCommandLine hline
  obtain ⟨hle, hline⟩ := length_joined_le hline
  refine ⟨hle, ?_⟩
  have hfield : field mbr 314 132 = line := by
    rw [hmbr]
    exact field_flatten_of_eq (i := 1) rfl (by simp [Host.loaderSize]) hlen
  rw [← hline, ← hfield, ← hboot, field, Memory.drop_read, Memory.take_read]
  rfl

lemma Booted.unread
    (hmbr : Host.makeMbr a parts = some mbr) (hboot : Booted m mbr) (hzero : ∀ arg ∈ a.args, 0 ∉ arg) :
    m.load (physBase + loaderArgCnt) = a.args.length ∧
      Unread m (physBase + loaderArgs + loaderArgsLen) (physBase + loaderArgs) a.args := by
  obtain ⟨hle, hbytes⟩ := hboot.command_line hmbr
  have hcnt := length_le_joined a.args
  constructor
  · rw [← Memory.wordOf_read m (show 4 ≤ 132 by decide), hbytes, wordOf_word_append (by omega)]
  · refine ⟨?_, ?_, by decide, hzero⟩
    · have hargs : m.read (physBase + loaderArgs) 128 = padded 128 (joined a.args) := by
        have hdrop := congrArg (List.drop 4) hbytes
        rwa [Memory.drop_read, List.drop_left' (length_word _)] at hdrop
      have htake := congrArg (List.take (joined a.args).length) hargs
      rwa [Memory.take_read, Nat.min_eq_left hle, padded_of_le hle, List.take_left] at htake
    · simp only [loaderArgsLen]
      omega

lemma Booted.length_args_lt
    (hmbr : Host.makeMbr a parts = some mbr) (hboot : Booted m mbr) : a.args.length < 2147483648 := by
  have hle := length_le_joined a.args
  have hmax := (hboot.command_line hmbr).1
  omega

lemma readCommandLine_eq
    (hcnt : m.load (physBase + loaderArgCnt) = args.length) (hlt : args.length < 2147483648) :
    readCommandLine m = (readArgs m (physBase + loaderArgs + loaderArgsLen) args.length 0
      (physBase + loaderArgs) (List.replicate argvLen 0) >>= fun argv => storeArgv argv args.length 0) := by
  have hargc : toInt32 (m.load (physBase + loaderArgCnt)) = args.length := by
    rw [hcnt, toInt32_of_lt hlt]
  have hptr : ptov loaderArgCnt = .ok (physBase + loaderArgCnt) := rfl
  have hp : ptov loaderArgs = .ok (physBase + loaderArgs) := rfl
  have hstop : wrap (physBase + loaderArgs + loaderArgsLen) = physBase + loaderArgs + loaderArgsLen := rfl
  simp only [readCommandLine, hptr, hp, bind_ok, hargc, hstop, Int.toNat_natCast]

lemma length_argv : (List.replicate argvLen 0).length = 65 := List.length_replicate

lemma readCommandLine_outside
    (hcnt : m.load (physBase + loaderArgCnt) = args.length) (hlt : args.length < 2147483648)
    (h : Unread m (physBase + loaderArgs + loaderArgsLen) (physBase + loaderArgs) args)
    (hmany : 64 < args.length) : readCommandLine m = .error .wildPointer := by
  rw [readCommandLine_eq hcnt hlt]
  by_cases hfit : 0 + args.length ≤ (List.replicate argvLen 0).length
  · obtain ⟨argv, -, hargs, hlen, -⟩ := readArgs_eq h hfit
    rw [length_argv] at hlen
    rw [hargs, bind_ok, storeArgv_outside (by omega)]
  · rw [readArgs_outside h (Nat.zero_le _) (Nat.lt_of_not_le hfit), bind_error]

theorem command_line_recovered_iff {a : Host.DiskArgs} {parts : List Host.Part} {mbr : List Byte}
    {m : Memory} (hmbr : Host.makeMbr a parts = some mbr) (hboot : Booted m mbr)
    (hzero : ∀ arg ∈ a.args, 0 ∉ arg) : Recovers m a.args ↔ a.args.length ≤ 64 := by
  obtain ⟨hcnt, hunread⟩ := hboot.unread hmbr hzero
  have hlt := hboot.length_args_lt hmbr
  constructor
  · rintro ⟨argv, ptrs, hok, -⟩
    by_contra hmany
    rw [readCommandLine_outside hcnt hlt hunread (Nat.lt_of_not_le hmany)] at hok
    cases hok
  · intro hfew
    have hfit : 0 + a.args.length ≤ (List.replicate argvLen 0).length := by
      rw [length_argv]
      omega
    obtain ⟨argv, ptrs, hargs, hlen, htake, hptrs⟩ := readArgs_eq hunread hfit
    rw [length_argv] at hlen
    rw [Nat.zero_add, List.take_zero, List.nil_append] at htake
    refine ⟨argv.set a.args.length 0, ptrs, ?_, ?_, hptrs⟩
    · rw [readCommandLine_eq hcnt hlt, hargs, bind_ok, storeArgv_eq (by omega)]
    · rw [take_set_succ (by omega), htake]

def commandDisk (args : List (List Byte)) : Host.DiskArgs :=
  ⟨.none, .partitioned, Host.defaultGeometry, none, args, fun _ => none⟩

lemma exists_booted (h : (joined args).length ≤ 128) :
    ∃ mbr m, Host.makeMbr (commandDisk args) [] = some mbr ∧ Booted m mbr := by
  obtain ⟨mbr, hmbr⟩ : ∃ mbr, Host.makeMbr (commandDisk args) [] = some mbr := by
    rw [Host.makeMbr, show (commandDisk args).args = args from rfl, Host.makeKernelCommandLine,
      ← joined, if_neg (Nat.not_lt.mpr h)]
    exact ⟨_, rfl⟩
  exact ⟨mbr, Memory.write (fun _ => 0) (physBase + loaderBase) mbr, hmbr,
    Memory.read_write_of_length _ (Host.length_makeMbr hmbr)⟩

theorem command_line_recovered_with_empty_argument :
    ∃ mbr m, Host.makeMbr (commandDisk [[0x2d, 0x71], [], [0x72, 0x75, 0x6e]]) [] = some mbr ∧
      Booted m mbr ∧ Recovers m [[0x2d, 0x71], [], [0x72, 0x75, 0x6e]] := by
  obtain ⟨mbr, m, hmbr, hboot⟩ :=
    exists_booted (show (joined [[0x2d, 0x71], [], [0x72, 0x75, 0x6e]]).length ≤ 128 by decide)
  exact ⟨mbr, m, hmbr, hboot, (command_line_recovered_iff hmbr hboot (by decide)).mpr (by decide)⟩

theorem empty_arguments_overrun_argv :
    ∃ mbr m, Host.makeMbr (commandDisk (List.replicate 65 [])) [] = some mbr ∧ Booted m mbr ∧
      readCommandLine m = .error .wildPointer ∧ ¬ Recovers m (List.replicate 65 []) := by
  obtain ⟨mbr, m, hmbr, hboot⟩ :=
    exists_booted (show (joined (List.replicate 65 [])).length ≤ 128 by decide)
  obtain ⟨hcnt, hunread⟩ := hboot.unread hmbr (by decide)
  have hout := readCommandLine_outside hcnt (hboot.length_args_lt hmbr) hunread (by decide)
  refine ⟨mbr, m, hmbr, hboot, hout, ?_⟩
  rintro ⟨argv, ptrs, hok, -⟩
  rw [hout] at hok
  cases hok

end Pintos.Threads
