import Pintos.Foundation.Tokens
import Pintos.Userprog.Processes
import Pintos.Userprog.Space

/-! The initial user stack: `setup_stack` and the arguments it leaves. -/

namespace Pintos.Userprog

open Pintos.Foundation Pintos.Kernel Function

def Params.byte (params : Params) (i : Nat) : Byte := (params.cmdline.getD i 0).toBitVec

def below (esp n : Nat) : Nat := wrap (esp + 4294967296 - n)

def pushBytes (esp : Nat) (f : Nat → Byte) : Nat → Nat → UserM Unit
  | 0, _ => return
  | n + 1, i => do
    storeBytes (wrap (esp + i)) [f i]
    pushBytes esp f n (i + 1)

def pushWord (esp v : Nat) : UserM Nat := do
  storeBytes (below esp 4) (word v)
  return below esp 4

def pushIf (c : Prop) [Decidable c] (esp argc v : Nat) : UserM (Nat × Nat) :=
  if c then do
    let esp ← pushWord esp v
    return (esp, argc + 1)
  else return (esp, argc)

def pushArgv (len : Nat) : Nat → Nat → Byte → Nat → Nat → UserM (Nat × Nat)
  | 0, _, _, esp, argc => return (esp, argc)
  | n + 1, i, t, esp, argc => do
    let addr := below physBase (1 + i)
    let c ← loadByte addr
    -- the null before a token
    let (esp, argc) ← pushIf (t ≠ 0 ∧ c = 0) esp argc (wrap (addr + 1))
    let (esp, argc) ← pushIf (i = len) esp argc addr
    let t ← loadByte addr
    pushArgv len n (i + 1) t esp argc

def pushArguments (params : Params) : UserM Nat := do
  let esp := below physBase (params.len + 1)
  pushBytes esp params.byte (params.len + 1) 0
  let esp := below esp ((params.len + 1) % 4)
  pushBytes esp (fun _ => 0) ((params.len + 1) % 4) 0
  let esp ← pushWord esp 0
  let (esp, argc) ← pushArgv params.len (params.len + 1) 0 0 esp 0
  let esp ← pushWord esp esp
  let esp ← pushWord esp argc
  pushWord esp 0

def setupStack (params : Params) : UserM (Option Nat) := do
  let kpage ← pallocGetPage
  if kpage then
    let success ← installPage (physBase - pgSize) (List.replicate pgSize 0) true
    if success then return some (← pushArguments params) else return none
  else return none

def stackPage : Range := ⟨physBase - pgSize, pgSize⟩

section Loops

variable {u : User} {E : Panic → User → Prop}

lemma ends_pushBytes {esp : Nat} {f : Nat → Byte} {n i : Nat} (hesp : esp + i + n ≤ 4294967296)
    (hw : ∀ k, i ≤ k → k < i + n → u.space.Writable (esp + k)) :
    Ends (pushBytes esp f n i) u (fun _ v =>
      v.space = u.space.written (esp + i) ((List.range' i n).map f) ∧
      v.pallocs = u.pallocs ∧
      v.writes = u.writes ++ (List.range' i n).map fun k => ⟨esp + k, 1⟩) E := by
  induction n generalizing i u with
  | zero => simp [pushBytes, Space.written]
  | succ n ih =>
    rw [pushBytes, ends_bind]
    refine ends_storeBytes (fun _ => ?_) ?_
    · rw [wrap_of_lt (by omega)]
      refine (ih (u := u.stored (esp + i) [f i]) (by omega) fun k hk hk' =>
        hw k (by omega) (by omega)).imp ?_
      rintro - v ⟨hs, hp, hwr⟩
      rw [List.range'_succ, List.map_cons, List.map_cons]
      refine ⟨?_, hp, ?_⟩
      · rw [hs]
        exact (u.space.written_append (esp + i) [f i] _).symm
      · simp [hwr, User.stored, User.logged]
    · rintro ⟨k, hk, hno⟩
      obtain rfl : k = 0 := by simpa using hk
      rw [wrap_of_lt (by omega)] at hno
      exact (hno (hw i (by omega) (by omega))).elim

end Loops

structure Pushed (u₀ : User) (low esp : Nat) (img : List Byte) (u : User) : Prop where
  top : esp + img.length = physBase
  space : u.space = u₀.space.written esp img
  pallocs : u.pallocs = u₀.pallocs
  stores : ∀ r ∈ u.writes, low ≤ r.start ∧ r.start + r.size ≤ physBase
  slots : ∀ r ∈ u.writes, r.size = 4 → r.start % 4 = low % 4

structure Overflows (page : Nat → Option Bool) (low : Nat) (u : User) : Prop where
  stores : ∀ r ∈ u.writes, low ≤ r.start ∧ r.start + r.size ≤ physBase
  slots : ∀ r ∈ u.writes, r.size = 4 → r.start % 4 = low % 4
  outside : ∃ r ∈ u.writes, r.size = 4 ∧ r.start < stackPage.start
  fault : ∃ va, low ≤ va ∧ va < stackPage.start ∧ page (pgNo va) ≠ some true

section Pushes

variable {u₀ u : User} {low esp : Nat} {img : List Byte}

lemma writable_of_stackPage (hu : u₀.space.page (pgNo (physBase - pgSize)) = some true) {va : Nat}
    (h : stackPage.Mem va) : u₀.space.Writable va := by
  have hno : pgNo va = pgNo (physBase - pgSize) := by
    simp only [stackPage, Range.Mem, physBase, pgSize] at h
    simp only [pgNo, physBase, pgSize]
    omega
  rw [Space.Writable, hno, hu]

variable (h : Pushed u₀ low esp img u) (hu : u₀.space.page (pgNo (physBase - pgSize)) = some true)

include h hu

lemma Pushed.writable {va : Nat} (hva : stackPage.Mem va) : u.space.Writable va := by
  rw [h.space, Space.writable_written]
  exact writable_of_stackPage hu hva

omit h hu in
lemma Pushed.pushBytes (h : Pushed u₀ low (esp + n) img u) {E : Panic → User → Prop}
    (hu : u₀.space.page (pgNo (physBase - pgSize)) = some true) (hesp : stackPage.start ≤ esp)
    (hlow : low ≤ esp) (f : Nat → Byte) :
    Ends (Userprog.pushBytes esp f n 0) u
      (fun _ v => Pushed u₀ low esp ((List.range n).map f ++ img) v) E := by
  have htop := h.top
  have hin : ∀ k, 0 ≤ k → k < 0 + n → u.space.Writable (esp + k) := by
    intro k _ hk
    apply h.writable hu
    simp only [stackPage, Range.Mem, physBase, pgSize] at *
    omega
  refine (ends_pushBytes (by simp only [physBase] at htop; omega) hin).imp ?_
  rintro - v ⟨hs, hp, hwr⟩
  rw [← List.range_eq_range'] at hs hwr
  refine ⟨?_, ?_, hp.trans h.pallocs, ?_, ?_⟩
  · simp only [List.length_append, List.length_map, List.length_range]
    omega
  · rw [hs, h.space, ← Space.written_below]
    simp
  · intro r hr
    rw [hwr, List.mem_append] at hr
    rcases hr with hr | hr
    · exact h.stores r hr
    · obtain ⟨k, hk, rfl⟩ := List.mem_map.mp hr
      rw [List.mem_range] at hk
      exact ⟨by dsimp only; omega, by dsimp only; omega⟩
  · intro r hr hsize
    rw [hwr, List.mem_append] at hr
    rcases hr with hr | hr
    · exact h.slots r hr hsize
    · obtain ⟨k, -, rfl⟩ := List.mem_map.mp hr
      simp at hsize

lemma Pushed.pushWord (hlow : low + 4 ≤ esp) (hslot : esp % 4 = low % 4) (v : Nat) :
    Ends (Userprog.pushWord esp v) u
      (fun esp' w => esp' + 4 = esp ∧ Pushed u₀ low esp' (word v ++ img) w)
      (fun _ w => Overflows u₀.space.page low w) := by
  have htop := h.top
  have hle : esp ≤ physBase := by omega
  have hbelow : below esp 4 + 4 = esp := by
    simp only [below, wrap, physBase] at hle ⊢
    omega
  simp only [Userprog.pushWord, ends_bind, ends_pure]
  generalize below esp 4 = esp' at hbelow
  have hnew : ∀ r ∈ u.writes ++ [⟨esp', (word v).length⟩],
      (low ≤ r.start ∧ r.start + r.size ≤ physBase) ∧ (r.size = 4 → r.start % 4 = low % 4) := by
    intro r hr
    rcases List.mem_append.mp hr with hr | hr
    · exact ⟨h.stores r hr, h.slots r hr⟩
    · obtain rfl := List.mem_singleton.mp hr
      simp only [length_word]
      omega
  refine ends_storeBytes (fun _ => ⟨hbelow, ?_, ?_, ?_, fun r hr => (hnew r hr).1,
    fun r hr => (hnew r hr).2⟩) fun hno => ?_
  · rw [List.length_append, length_word]
    omega
  · subst hbelow
    rw [User.space_stored, h.space]
    exact u₀.space.written_below esp' (word v) img
  · rw [User.pallocs_stored, h.pallocs]
  · obtain ⟨i, hi, hno⟩ := hno
    have hout : esp' + i < stackPage.start := by
      by_contra hge
      refine hno (h.writable hu ?_)
      simp only [length_word] at hi
      simp only [stackPage, Range.Mem, physBase, pgSize] at hge hle ⊢
      omega
    refine ⟨fun r hr => (hnew r hr).1, fun r hr => (hnew r hr).2, ⟨_, List.mem_append_right _
      List.mem_cons_self, length_word v, by dsimp only; omega⟩, esp' + i, by omega, hout, ?_⟩
    rwa [h.space, Space.writable_written] at hno

lemma Pushed.pushIf {c : Prop} [Decidable c]
    (hlow : c → low + 4 ≤ esp) (hslot : esp % 4 = low % 4) (argc v : Nat) :
    Ends (Userprog.pushIf c esp argc v) u
      (fun r w => r.1 + (if c then 4 else 0) = esp ∧ r.2 = argc + (if c then 1 else 0) ∧
        Pushed u₀ low r.1 ((if c then word v else []) ++ img) w)
      (fun _ w => Overflows u₀.space.page low w) := by
  refine Ends.ite (fun hc => ?_) fun hc => ?_
  · simp only [ends_bind, ends_pure, if_pos hc]
    exact (h.pushWord hu (hlow hc) hslot v).imp fun _ _ hw => ⟨hw.1, trivial, hw.2⟩
  · simp only [ends_pure, if_neg hc]
    exact ⟨rfl, rfl, h⟩

end Pushes

section Scan

def isChar (b : Byte) : Bool := decide (b ≠ 0)

def Params.data (params : Params) : List Byte := (List.range (params.len + 1)).map params.byte

def Params.dataStart (params : Params) : Nat := physBase - (params.len + 1)

def Params.argStarts (params : Params) (n : Nat) : List Nat :=
  starts isChar (isChar (params.byte n)) (n + 1) (params.data.drop (n + 1))

def Params.argCnt (params : Params) : Nat := (params.argStarts 0).length + 1

def Params.pointers (params : Params) (ks : List Nat) : List Byte :=
  ks.flatMap fun k => word (params.dataStart + k)

variable {params : Params}

@[simp] lemma Params.length_data (params : Params) : params.data.length = params.len + 1 := by
  simp [Params.data]

variable {front : List Byte} {n : Nat}

lemma Params.getElem_data (h : n < params.data.length) :
    params.data[n] = params.byte n := by
  simp [Params.data]

lemma Params.argStarts_step (hend : params.byte (params.len + 1) = 0)
    (hn : n ≤ params.len) :
    params.argStarts n =
      (if params.byte (n + 1) ≠ 0 ∧ params.byte n = 0 then [n + 1] else []) ++
        params.argStarts (n + 1) := by
  by_cases hlt : n + 1 < params.data.length
  · rw [Params.argStarts, List.drop_eq_getElem_cons hlt, Params.getElem_data hlt, starts_cons,
      Params.argStarts]
    simp [isChar]
  · have hlen := params.length_data
    obtain rfl : n = params.len := by omega
    simp [Params.argStarts, starts, hend, List.drop_eq_nil_of_le]

lemma Params.argStarts_length_le (hend : params.byte (params.len + 1) = 0)
    (hn : n ≤ params.len + 1) : (params.argStarts n).length ≤ (params.argStarts 0).length := by
  induction n with
  | zero => exact Nat.le_refl _
  | succ n ih =>
    have hstep := congrArg List.length (params.argStarts_step hend (show n ≤ params.len by omega))
    have hle := ih (by omega)
    rw [List.length_append] at hstep
    omega

lemma Params.length_pointers (ks : List Nat) : (params.pointers ks).length = 4 * ks.length := by
  induction ks with
  | nil => rfl
  | cons k ks ih =>
    simp only [Params.pointers, List.flatMap_cons, List.length_append, length_word,
      List.length_cons] at *
    omega

lemma below_physBase (hlen : params.len < pgSize) (hn : n ≤ params.len) :
    below physBase (1 + (params.len - n)) = params.dataStart + n := by
  simp only [below, wrap, Params.dataStart, physBase, pgSize] at *
  omega

variable {u₀ u : User} {low esp : Nat}

lemma Pushed.read_data (h : Pushed u₀ low esp (front ++ params.data) u)
    (hn : n ≤ params.len) : u.space.bytes (params.dataStart + n) = params.byte n := by
  have htop := h.top
  have hlen := params.length_data
  rw [List.length_append] at htop
  have haddr : params.dataStart + n = esp + (front.length + n) := by
    rw [Params.dataStart]
    omega
  have hlt : front.length + n < (front ++ params.data).length := by
    rw [List.length_append]
    omega
  rw [h.space, haddr, Space.bytes_written, Memory.write_of_mem _ hlt,
    List.getElem_append_right (Nat.le_add_right _ _)]
  simp only [Nat.add_sub_cancel_left, Params.getElem_data]

structure Scanned (u₀ : User) (params : Params) (low n : Nat) (tail : List Byte) (r : Nat × Nat) (u : User) :
    Prop where
  esp : low + 12 + 4 * params.argCnt = r.1 + 4 * (params.argStarts n).length
  argc : r.2 = (params.argStarts n).length
  pushed : Pushed u₀ low r.1 (params.pointers (params.argStarts n) ++ tail) u

variable {tail pre : List Byte} {argc : Nat} (hu : u₀.space.page (pgNo (physBase - pgSize)) = some true)
  (hlen : params.len < pgSize)

include hu hlen

lemma Pushed.loads {ks : List Nat} (h : Pushed u₀ low esp (params.pointers ks ++ (pre ++ params.data)) u)
    (hn : n ≤ params.len) {E : Panic → User → Prop} {Q : Byte → User → Prop} (hQ : Q (params.byte n) u) :
    Ends (loadByte (below physBase (1 + (params.len - n)))) u Q E := by
  rw [← List.append_assoc] at h
  rw [below_physBase hlen hn]
  refine ends_loadByte ?_ (h.read_data hn ▸ hQ)
  have hw : u.space.Writable (params.dataStart + n) := by
    refine h.writable hu ?_
    simp only [stackPage, Range.Mem, Params.dataStart, physBase, pgSize] at *
    omega
  rw [hw]
  simp

variable (hend : params.byte (params.len + 1) = 0)

include hend

lemma Scanned.token (h : Scanned u₀ params low (n + 1) tail (esp, argc) u) (hn : n ≤ params.len) :
    Ends (Userprog.pushIf (params.byte (n + 1) ≠ 0 ∧ params.byte n = 0) esp argc
        (wrap (below physBase (1 + (params.len - n)) + 1))) u
      (fun r w => Scanned u₀ params low n tail r w) (fun _ w => Overflows u₀.space.page low w) := by
  obtain ⟨hesp, hargc, h⟩ := h
  have hstep := params.argStarts_step hend hn
  have hcnt := params.argStarts_length_le hend (show n ≤ params.len + 1 by omega)
  have hv : wrap (below physBase (1 + (params.len - n)) + 1) = params.dataStart + (n + 1) := by
    rw [below_physBase hlen hn, Nat.add_assoc]
    apply wrap_of_lt
    simp only [Params.dataStart, physBase, pgSize] at hlen ⊢
    omega
  have hlow : params.byte (n + 1) ≠ 0 ∧ params.byte n = 0 → low + 4 ≤ esp := by
    intro hc
    rw [if_pos hc] at hstep
    rw [hstep] at hcnt
    simp only [Params.argCnt, List.length_append, List.length_singleton] at *
    omega
  refine (h.pushIf hu hlow (by omega) argc _).imp ?_
  rintro ⟨esp', argc'⟩ w ⟨he, ha, hw⟩
  dsimp only at he ha hw ⊢
  rw [hv] at hw
  by_cases hc : params.byte (n + 1) ≠ 0 ∧ params.byte n = 0
  · simp only [if_pos hc] at hstep he ha hw
    refine ⟨?_, ?_, hstep ▸ hw⟩ <;> rw [hstep, List.length_append, List.length_singleton] <;> omega
  · simp only [if_neg hc] at hstep he ha hw
    rw [List.nil_append] at hstep
    exact ⟨by rw [hstep]; omega, by rw [hstep]; omega, hstep ▸ hw⟩

lemma Scanned.pushArgv (h : Scanned u₀ params low (n + 1) (pre ++ params.data) (esp, argc) u)
    (hn : n ≤ params.len) :
    Ends (Userprog.pushArgv params.len (n + 1) (params.len - n) (params.byte (n + 1)) esp argc) u
      (fun r w => r = (low + 12, params.argCnt) ∧
        Pushed u₀ low (low + 12)
          (params.pointers (0 :: params.argStarts 0) ++ (pre ++ params.data)) w)
      (fun _ w => Overflows u₀.space.page low w) := by
  induction n generalizing u esp argc with
  | zero =>
    rw [Userprog.pushArgv, ends_bind]
    refine h.pushed.loads hu hlen hn ?_
    refine (h.token hu hlen hend hn).bind ?_
    rintro ⟨esp₁, argc₁⟩ w ⟨hesp₁, hargc₁, hw⟩
    dsimp only at hesp₁ hargc₁ hw ⊢
    have hcnt : params.argCnt = (params.argStarts 0).length + 1 := rfl
    refine (hw.pushIf hu (fun _ => by omega) (by omega) argc₁ _).bind ?_
    rintro ⟨esp₂, argc₂⟩ w₂ ⟨hesp₂, hargc₂, hw₂⟩
    dsimp only at hesp₂ hargc₂ hw₂ ⊢
    rw [if_pos (Nat.sub_zero _)] at hesp₂ hargc₂ hw₂
    rw [below_physBase hlen hn] at hw₂
    obtain rfl : esp₂ = low + 12 := by omega
    have himg : word (params.dataStart + 0) ++ (params.pointers (params.argStarts 0) ++
        (pre ++ params.data)) =
          params.pointers (0 :: params.argStarts 0) ++ (pre ++ params.data) := by
      simp [Params.pointers]
    rw [himg] at hw₂
    rw [ends_bind]
    refine hw₂.loads hu hlen hn ?_
    rw [Userprog.pushArgv, ends_pure]
    exact ⟨by rw [Prod.mk.injEq]; omega, hw₂⟩
  | succ n ih =>
    rw [Userprog.pushArgv, ends_bind]
    refine h.pushed.loads hu hlen hn ?_
    refine (h.token hu hlen hend hn).bind ?_
    rintro ⟨esp₁, argc₁⟩ w hw
    dsimp only
    rw [Userprog.pushIf, if_neg (show ¬ params.len - (n + 1) = params.len by omega), pure_bind]
    dsimp only
    rw [ends_bind]
    refine hw.pushed.loads hu hlen hn ?_
    have hi : params.len - (n + 1) + 1 = params.len - n := by omega
    rw [hi]
    exact ih hw (by omega)

end Scan

section Image

def Params.pad (params : Params) : Nat := (params.len + 1) % 4

def Params.imageSize (params : Params) : Nat :=
  params.len + 1 + params.pad + 4 * (params.argCnt + 1) + 12

def Params.finalEsp (params : Params) : Nat := physBase - params.imageSize

def Params.image (params : Params) : List Byte :=
  word 0 ++ (word params.argCnt ++ (word (params.finalEsp + 12) ++
    (params.pointers (0 :: params.argStarts 0) ++
      (word 0 ++ List.replicate params.pad 0 ++ params.data))))

variable {params : Params}

lemma Params.imageSize_le (hlen : params.len ≤ 3579) : params.imageSize ≤ 30000 := by
  have hcnt : (params.argStarts 0).length ≤ _ := length_starts_le _ _ _ _
  rw [List.length_drop, Params.length_data] at hcnt
  simp only [Params.imageSize, Params.argCnt, Params.pad]
  omega

lemma ends_pushArguments {u₀ : User}
    (hu : u₀.space.page (pgNo (physBase - pgSize)) = some true) (hw : u₀.writes = [])
    (hlen : params.len ≤ 3579) (hend : params.byte (params.len + 1) = 0) :
    Ends (pushArguments params) u₀
      (fun esp w => esp = params.finalEsp ∧ Pushed u₀ params.finalEsp esp params.image w)
      (fun _ w => Overflows u₀.space.page params.finalEsp w) := by
  have hsize := params.imageSize_le hlen
  have hfinal : params.finalEsp + params.imageSize = physBase := by
    simp only [Params.finalEsp, physBase]
    omega
  have hexp : params.imageSize = params.len + 1 + params.pad + 4 * (params.argCnt + 1) + 12 := rfl
  have hpad : params.pad < 4 := Nat.mod_lt _ (by omega)
  have hdata : below physBase (params.len + 1) = params.dataStart := by
    simp only [below, wrap, Params.dataStart, physBase]
    omega
  have hstart : params.dataStart + (params.len + 1) = physBase := by
    simp only [Params.dataStart, physBase]
    omega
  have hbase : physBase = 3221225472 := rfl
  have hstack : stackPage.start = 3221221376 := rfl
  obtain ⟨esp₁, hesp₁⟩ : ∃ esp₁, esp₁ + params.pad = params.dataStart :=
    ⟨params.dataStart - params.pad, by omega⟩
  have hpadded : below params.dataStart ((params.len + 1) % 4) = esp₁ := by
    change below params.dataStart params.pad = esp₁
    simp only [below, wrap]
    omega
  have h₀ : Pushed u₀ params.finalEsp (params.dataStart + (params.len + 1)) [] u₀ :=
    ⟨by simp [hstart], by simp [Space.written], rfl, by simp [hw], by simp [hw]⟩
  rw [pushArguments, hdata]
  refine (h₀.pushBytes hu (by omega) (by omega) params.byte).bind fun _ u₁ h₁ => ?_
  rw [hpadded]
  rw [List.append_nil, ← hesp₁] at h₁
  refine (h₁.pushBytes hu (by omega) (by omega) fun _ => 0).bind fun _ u₂ h₂ => ?_
  refine (h₂.pushWord hu (by omega) (by omega) 0).bind fun esp₂ u₃ h₃ => ?_
  obtain ⟨hesp₂, h₃⟩ := h₃
  have hnone : params.argStarts (params.len + 1) = [] := by
    simp [Params.argStarts, List.drop_eq_nil_of_le, starts]
  have himg : word 0 ++ ((List.range params.pad).map (fun _ => (0 : Byte)) ++
      (List.range (params.len + 1)).map params.byte) =
        params.pointers (params.argStarts (params.len + 1)) ++
          (word 0 ++ List.replicate params.pad 0 ++ params.data) := by
    rw [hnone, List.map_const', List.length_range, List.append_assoc]
    rfl
  rw [himg] at h₃
  have hscan : Scanned u₀ params params.finalEsp (params.len + 1)
      (word 0 ++ List.replicate params.pad 0 ++ params.data) (esp₂, 0) u₃ :=
    ⟨by simp only [hnone, List.length_nil]; omega, by simp [hnone], h₃⟩
  have hargv := hscan.pushArgv hu (by simp only [pgSize]; omega) hend (Nat.le_refl _)
  rw [Nat.sub_self, hend] at hargv
  refine hargv.bind ?_
  rintro ⟨esp₃, argc⟩ u₄ ⟨he, h₄⟩
  obtain ⟨rfl, rfl⟩ := Prod.mk.inj he
  dsimp only
  refine (h₄.pushWord hu (by omega) (by omega) _).bind fun esp₄ u₅ h₅ => ?_
  obtain ⟨hesp₄, h₅⟩ := h₅
  refine (h₅.pushWord hu (by omega) (by omega) _).bind fun esp₅ u₆ h₆ => ?_
  obtain ⟨hesp₅, h₆⟩ := h₆
  refine (h₆.pushWord hu (by omega) (by omega) 0).imp ?_
  rintro esp₆ u₇ ⟨hesp₆, h₇⟩
  obtain rfl : esp₆ = params.finalEsp := by omega
  exact ⟨rfl, h₇⟩

def Params.stacked (params : Params) (u : Space) : Space :=
  (u.install (physBase - pgSize) (List.replicate pgSize 0) true).written params.finalEsp params.image

structure Stacked (params : Params) (u v : User) : Prop where
  unmapped : u.space.page (pgNo (physBase - pgSize)) = none
  space : v.space = params.stacked u.space
  pallocs : v.pallocs <:+ u.pallocs
  stores : ∀ r ∈ v.writes, params.finalEsp ≤ r.start ∧ r.start + r.size ≤ physBase
  slots : ∀ r ∈ v.writes, r.size = 4 → r.start % 4 = params.finalEsp % 4
  top : params.finalEsp + params.image.length = physBase

lemma ends_setupStack {u : User} (hw : u.writes = []) (hlen : params.len ≤ 3579)
    (hend : params.byte (params.len + 1) = 0) :
    Ends (setupStack params) u
      (fun r v => (r = none ∧ v.space = u.space ∧ v.writes = [] ∧
          (u.space.page (pgNo (physBase - pgSize)) ≠ none ∨ u.pallocs ≠ [])) ∨
        (r = some params.finalEsp ∧ Stacked params u v))
      (fun _ v => u.space.page (pgNo (physBase - pgSize)) = none ∧ Overflows u.space.page params.finalEsp v) := by
  rw [setupStack, ends_bind]
  refine ends_pallocGetPage fun granted u₁ hs₁ ha₁ hg => ?_
  cases granted with
  | false =>
    refine .inl ⟨rfl, hs₁, ha₁.writes.trans hw, .inr fun hnil => ?_⟩
    simpa using hg hnil
  | true =>
    rw [if_pos rfl, ends_bind]
    refine ends_installPage (by decide) (by decide) (fun u₂ hs₂ ha₂ hno => ?_)
      fun hnone u₂ hs₂ ha₂ => ?_
    · refine .inl ⟨rfl, hs₂.trans hs₁, (ha₁.trans ha₂).writes.trans hw, ?_⟩
      rw [← hs₁]
      refine hno.imp_right fun hne hnil => hne ?_
      exact List.suffix_nil.mp (hnil ▸ ha₁.pallocs)
    · have hmap : u₂.space.page (pgNo (physBase - pgSize)) = some true := by
        rw [hs₂, Space.page_install, update_self]
      rw [hs₁] at hnone hs₂
      simp only [if_true, ends_bind, ends_pure]
      refine (ends_pushArguments hmap ((ha₁.trans ha₂).writes.trans hw) hlen hend).mono ?_
        fun _ v hv => ⟨hnone, hv.stores, hv.slots, hv.outside, ?_⟩
      · rintro esp v ⟨rfl, hv⟩
        refine .inr ⟨rfl, hnone, ?_, ?_, hv.stores, hv.slots, hv.top⟩
        · rw [hv.space, hs₂]
          rfl
        · rw [hv.pallocs]
          exact (ha₁.trans ha₂).pallocs
      · obtain ⟨va, hlow, hva, hno⟩ := hv.fault
        refine ⟨va, hlow, hva, ?_⟩
        have hne : pgNo va ≠ pgNo (physBase - pgSize) := by
          simp only [stackPage, pgNo, physBase, pgSize] at hva ⊢
          omega
        rwa [hs₂, Space.page_install, update_of_ne hne] at hno

end Image

end Pintos.Userprog
