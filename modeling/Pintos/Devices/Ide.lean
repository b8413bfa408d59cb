import Mathlib.Algebra.Group.Nat.Defs
import Pintos.Synch.Lock

/-! The two IDE channels: commands of any threads, their completion semaphores, and interrupts. -/

namespace Pintos.Devices.Ide

open Pintos.Foundation Pintos.Kernel Pintos.Synch Function

inductive ChannelNo
  | ide0
  | ide1
  deriving DecidableEq, Repr

def ChannelNo.irq : ChannelNo → Nat
  | .ide0 => 14 + 0x20
  | .ide1 => 15 + 0x20

inductive Command
  | identifyDevice
  | readSector (secNo : Nat)
  | writeSector (secNo : Nat)
  deriving DecidableEq, Repr

inductive Stage
  | acquiring
  | selecting
  | issuing
  | expecting
  | sending
  | downing
  | sleeping
  | woken
  | completed
  | releasing
  deriving DecidableEq, Repr

inductive Pc
  | idle
  | run (c : ChannelNo) (k : Command) (s : Stage)
  deriving DecidableEq, Repr

/-- A channel with two marks beside the code's own fields: an interrupt has come since the last
command was written, and some `sema_down` has returned without one. -/
structure Channel (T : Type) where
  lock : LockUse T
  expectingInterrupt : Bool
  completionWait : Semaphore T
  answered : Bool
  early : Bool

structure State (T : Type) where
  channels : ChannelNo → Channel T
  pc : T → Pc
  booting : Bool
  failed : Option Panic

inductive Op (T : Type)
  | call (t : T) (c : ChannelNo) (k : Command)
  | step (t : T) (drq : Bool)
  | interrupt (vecNo : Nat)
  | initDone

variable {T : Type}

def Channel.initial (T : Type) : Channel T := ⟨lockInit T, false, ⟨0, []⟩, false, false⟩

def State.initial (T : Type) : State T := ⟨fun _ => .initial T, fun _ => .idle, true, none⟩

def acquireOp (t : T) : Phase → Option (LockOp T)
  | .out => some (.acquire t)
  | .acquiring => some (.down t)
  | .woken => some (.retest t)
  | .got => some (.setHolder t)
  | .trying | .waiting | .held | .releasing | .cleared => none

def releaseOp (t : T) : Phase → Option (LockOp T)
  | .held => some (.release t)
  | .releasing => some (.clear t)
  | .cleared => some (.up t)
  | .out | .acquiring | .trying | .waiting | .woken | .got => none

@[simps -fullyApplied]
def State.setChannel (x : State T) (c : ChannelNo) (ch : Channel T) : State T :=
  { x with channels := update x.channels c ch }

@[simps -fullyApplied]
def State.fail (x : State T) (e : Panic) : State T := { x with failed := some e }

/-- Interrupts of the two vectors find their channel; any other vector reaches `NOT_REACHED`. -/
def channelOf (vecNo : Nat) : Option ChannelNo :=
  if vecNo = ChannelNo.irq .ide0 then some .ide0
  else if vecNo = ChannelNo.irq .ide1 then some .ide1
  else none

variable [DecidableEq T]

@[simps -fullyApplied]
def State.goto (x : State T) (t : T) (p : Pc) : State T := { x with pc := update x.pc t p }

def lockStep (x : State T) (c : ChannelNo) (op : LockOp T) : Option (State T) :=
  (lockNext (x.channels c).lock op).map fun l => x.setChannel c { x.channels c with lock := l }

def selectSector (x : State T) (t : T) (c : ChannelNo) (k : Command) : State T :=
  match k with
  | .identifyDevice => x.goto t (.run c k .issuing)
  | .readSector secNo | .writeSector secNo =>
    if secNo < 2 ^ 28 then x.goto t (.run c k .issuing) else x.fail (.assertion .selectSectorNo)

/-- One pass through the loop of `sema_down (&c->completion_wait)`. -/
def downCompletion (x : State T) (t : T) (c : ChannelNo) (k : Command) : State T :=
  let ch := x.channels c
  let (passed, m) := semaDown ch.completionWait t
  if passed then
    (x.setChannel c { ch with completionWait := m, early := ch.early || !ch.answered }).goto t
      (.run c k .completed)
  else (x.setChannel c { ch with completionWait := m }).goto t (.run c k .sleeping)

def afterCompletion (x : State T) (t : T) (c : ChannelNo) (drq : Bool) : Command → State T
  | .identifyDevice => x.goto t .idle
  | .readSector secNo =>
    if drq then x.goto t (.run c (.readSector secNo) .releasing)
    else x.fail (.diskReadFailed secNo)
  | .writeSector secNo => x.goto t (.run c (.writeSector secNo) .releasing)

/-- The next statement of a thread in `ide_read`, `ide_write` or `identify_ata_device`; `drq` is what
`wait_while_busy` returns if that statement calls it. -/
def stageStep (x : State T) (t : T) (c : ChannelNo) (k : Command) (drq : Bool) :
    Stage → Option (State T)
  | .acquiring =>
    if (x.channels c).lock.phase t = .held then some (x.goto t (.run c k .selecting))
    else (acquireOp t ((x.channels c).lock.phase t)).bind (lockStep x c)
  | .selecting => some (selectSector x t c k)
  | .issuing =>
    some ((x.setChannel c { x.channels c with expectingInterrupt := true }).goto t
      (.run c k .expecting))
  | .expecting =>
    some ((x.setChannel c { x.channels c with answered := false }).goto t
      (.run c k (match k with | .writeSector _ => .sending | _ => .downing)))
  | .sending =>
    match k with
    | .writeSector secNo =>
      some (if drq then x.goto t (.run c k .downing) else x.fail (.diskWriteFailed secNo))
    | _ => none
  | .downing | .woken => some (downCompletion x t c k)
  | .sleeping => none
  | .completed => some (afterCompletion x t c drq k)
  | .releasing =>
    if (x.channels c).lock.phase t = .out then some (x.goto t .idle)
    else (releaseOp t ((x.channels c).lock.phase t)).bind (lockStep x c)

def Pc.unblock : Pc → Pc
  | .run c k .sleeping => .run c k .woken
  | p => p

def interruptHandler (x : State T) (vecNo : Nat) : State T :=
  match channelOf vecNo with
  | none => x.fail .notReached
  | some c =>
    let ch := x.channels c
    if ch.expectingInterrupt then
      let (woken, m) := semaUp ch.completionWait
      let y := x.setChannel c { ch with completionWait := m, answered := true }
      match woken with
      | none => y
      | some u => y.goto u (x.pc u).unblock
    else x

/-- While the disks are identified only the initial thread issues commands; afterwards every thread
reads and writes. -/
def ideNext (main : T) (x : State T) (op : Op T) : Option (State T) :=
  if x.failed ≠ none then none else
    match op with
    | .call t c k =>
      if x.pc t = .idle ∧ (if x.booting then t = main else k ≠ .identifyDevice) then
        some (x.goto t (.run c k (if k = .identifyDevice then .selecting else .acquiring)))
      else none
    | .step t drq =>
      match x.pc t with
      | .idle => none
      | .run c k s => stageStep x t c k drq s
    | .interrupt vecNo => some (interruptHandler x vecNo)
    | .initDone => if x.booting ∧ x.pc main = .idle then some { x with booting := false } else none

def ideSystem (main : T) : System (State T) (Op T) where
  init x := x = State.initial T
  next := ideNext main

def Stage.inside : Stage → Bool
  | .acquiring | .releasing => false
  | .selecting | .issuing | .expecting | .sending | .downing | .sleeping | .woken
  | .completed => true

def Stage.outstanding : Stage → Bool
  | .acquiring | .selecting | .issuing | .releasing => false
  | .expecting | .sending | .downing | .sleeping | .woken | .completed => true

def Stage.pending : Stage → Bool
  | .acquiring | .selecting | .issuing | .expecting | .completed | .releasing => false
  | .sending | .downing | .sleeping | .woken => true

lemma Stage.inside_of_outstanding {s : Stage} (h : s.outstanding = true) : s.inside = true := by
  cases s <;> first | rfl | cases h

lemma Stage.outstanding_of_pending {s : Stage} (h : s.pending = true) : s.outstanding = true := by
  cases s <;> first | rfl | cases h

lemma setChannel_goto (x : State T) (c : ChannelNo) (ch : Channel T) (t : T) (p : Pc) :
    (x.setChannel c ch).goto t p = (x.goto t p).setChannel c ch := rfl

structure Shape (main : T) (x : State T) : Prop where
  lock : ∀ c, LockInv (x.channels c).lock
  boot : x.booting = true → ∀ t, t ≠ main → x.pc t = .idle
  identify : ∀ t c s, x.pc t = .run c .identifyDevice s → x.booting = true
  held : ∀ t c k s, x.pc t = .run c k s → s.inside = true → k ≠ .identifyDevice →
    (x.channels c).lock.phase t = .held
  waits : ∀ c, ∀ t ∈ (x.channels c).completionWait.waiters, ∃ k, x.pc t = .run c k .sleeping
  nodup : ∀ c, (x.channels c).completionWait.waiters.Nodup

namespace Shape

variable {main t : T} {x : State T} {c : ChannelNo} (h : Shape main x)

include h

omit [DecidableEq T] in
lemma not_waiting (ht : ∀ c k, x.pc t ≠ .run c k .sleeping) (c : ChannelNo) :
    t ∉ (x.channels c).completionWait.waiters := by
  intro hw
  obtain ⟨k, hk⟩ := h.waits c t hw
  exact ht c k hk

variable {k : Command} {s : Stage}

lemma unique {u : T} {l : Command} {r : Stage}
    (ht : x.pc t = .run c k s) (hs : s.inside = true) (hu : x.pc u = .run c l r)
    (hr : r.inside = true) : t = u := by
  have hmain : x.booting = true → t = u := by
    intro hb
    have ht' : t = main := by
      by_contra hne
      simp [h.boot hb t hne] at ht
    have hu' : u = main := by
      by_contra hne
      simp [h.boot hb u hne] at hu
    rw [ht', hu']
  by_cases hk : k = .identifyDevice
  · exact hmain (h.identify t c s (hk ▸ ht))
  · by_cases hl : l = .identifyDevice
    · exact hmain (h.identify u c r (hl ▸ hu))
    · have hpt := h.held t c k s ht hs hk
      have hpu := h.held u c l r hu hr hl
      have hown := (h.lock c).value_eq_zero (t := u) (by simp [hpu, Phase.owns])
      exact (hown.2 t).mp (by simp [hpt, Phase.owns])

lemma goto {p : Pc} (hw : ∀ c, t ∉ (x.channels c).completionWait.waiters)
    (hboot : x.booting = true → t ≠ main → p = .idle)
    (hid : ∀ c s, p = .run c .identifyDevice s → x.booting = true)
    (hheld : ∀ c k s, p = .run c k s → s.inside = true → k ≠ .identifyDevice →
      (x.channels c).lock.phase t = .held) : Shape main (x.goto t p) := by
  refine ⟨h.lock, fun hb u hu => ?_, fun u c s hu => ?_, fun u c k s hu hs hk => ?_,
    fun c u hu => ?_, h.nodup⟩
  · by_cases hut : u = t
    · subst hut
      simpa using hboot hb hu
    · simpa [hut] using h.boot hb u hu
  · by_cases hut : u = t
    · subst hut
      exact hid c s (by simpa using hu)
    · exact h.identify u c s (by simpa [hut] using hu)
  · by_cases hut : u = t
    · subst hut
      exact hheld c k s (by simpa using hu) hs hk
    · exact h.held u c k s (by simpa [hut] using hu) hs hk
  · have hut : u ≠ t := fun he => hw c (he ▸ hu)
    simpa [hut] using h.waits c u hu

omit [DecidableEq T] in
lemma setChannel {ch : Channel T} (hl : LockInv ch.lock)
    (hheld : ∀ u k s, x.pc u = .run c k s → s.inside = true → k ≠ .identifyDevice →
      ch.lock.phase u = .held) (hwaits : ∀ u ∈ ch.completionWait.waiters, ∃ k, x.pc u = .run c k .sleeping)
    (hnodup : ch.completionWait.waiters.Nodup) : Shape main (x.setChannel c ch) := by
  refine ⟨fun d => ?_, h.boot, h.identify, fun u d k s hu hs hk => ?_, fun d => ?_, fun d => ?_⟩
  · by_cases hd : d = c
    · subst hd
      simpa using hl
    · simpa [hd] using h.lock d
  · by_cases hd : d = c
    · subst hd
      simpa using hheld u k s hu hs hk
    · simpa [hd] using h.held u d k s hu hs hk
  · by_cases hd : d = c
    · subst hd
      simpa using hwaits
    · simpa [hd] using h.waits d
  · by_cases hd : d = c
    · subst hd
      simpa using hnodup
    · simpa [hd] using h.nodup d

omit [DecidableEq T] in
lemma setMarks (expecting answered early : Bool) :
    Shape main (x.setChannel c ⟨(x.channels c).lock, expecting, (x.channels c).completionWait,
      answered, early⟩) :=
  h.setChannel (h.lock c) (fun u k s => h.held u c k s) (h.waits c) (h.nodup c)

lemma leave (ht : x.pc t = .run c k s) (hs : s ≠ .sleeping) : Shape main (x.goto t .idle) := by
  refine h.goto (h.not_waiting fun d l he => ?_) (fun _ _ => rfl) (by simp) (by simp)
  rw [ht, Pc.run.injEq] at he
  exact hs he.2.2

lemma advance {r : Stage} (ht : x.pc t = .run c k s) (hs : s ≠ .sleeping)
    (hheld : s.inside = false → r.inside = true → (x.channels c).lock.phase t = .held) :
    Shape main (x.goto t (.run c k r)) := by
  refine h.goto (h.not_waiting fun d l he => ?_) (fun hb hne => ?_) (fun d q he => ?_)
    fun d l q he hq hl => ?_
  · rw [ht, Pc.run.injEq] at he
    exact hs he.2.2
  · simp [h.boot hb t hne] at ht
  · rw [Pc.run.injEq] at he
    exact h.identify t c s (he.2.1 ▸ ht)
  · obtain ⟨rfl, rfl, rfl⟩ := Pc.run.inj he
    cases hin : s.inside with
    | false => exact hheld hin hq
    | true => exact h.held t c k s ht hin hl

end Shape

def lockOpThread : LockOp T → T
  | .acquire t | .down t | .retest t | .setHolder t | .tryAcquire t | .tryDown t | .release t
  | .clear t | .up t => t

variable {op : LockOp T}

lemma lockNext_held {l l' : LockUse T} (h : LockInv l)
    (hs : lockNext l op = some l') {u : T} (hu : u ≠ lockOpThread op) (hp : l.phase u = .held) :
    l'.phase u = .held := by
  cases op with
  | acquire t | down t | retest t | setHolder t | tryAcquire t | tryDown t | release t | clear t =>
    simp only [lockNext, guard_eq_some] at hs
    obtain ⟨-, rfl⟩ := hs
    have hut : u ≠ t := hu
    simpa [LockUse.test, hut] using hp
  | up t =>
    simp only [lockNext, guard_eq_some] at hs
    obtain ⟨-, rfl⟩ := hs
    have hut : u ≠ t := hu
    cases hw : l.lock.semaphore.waiters with
    | nil => simpa [semaUp_nil _ hw, LockUse.wake, hut] using hp
    | cons v rest =>
      have hv := h.waits v (by simp [hw])
      have huv : u ≠ v := by
        rintro rfl
        simp [hp] at hv
      simpa [semaUp_cons _ _ hw, LockUse.wake, huv, hut] using hp

omit [DecidableEq T] in
lemma lockOpThread_acquireOp {t : T} {p : Phase} (h : acquireOp t p = some op) :
    lockOpThread op = t := by
  cases p <;> simp only [acquireOp, reduceCtorEq, Option.some.injEq] at h <;> subst h <;> rfl

omit [DecidableEq T] in
lemma lockOpThread_releaseOp {t : T} {p : Phase} (h : releaseOp t p = some op) :
    lockOpThread op = t := by
  cases p <;> simp only [releaseOp, reduceCtorEq, Option.some.injEq] at h <;> subst h <;> rfl

namespace Shape

variable {main t : T} {x y : State T} {c : ChannelNo} {k : Command} {s : Stage}
  (h : Shape main x) (ht : x.pc t = .run c k s)

include h ht

lemma lockStep (hs : s.inside = false)
    {op : LockOp T} (hop : lockOpThread op = t) (hy : lockStep x c op = some y) : Shape main y := by
  obtain ⟨l, hl, rfl⟩ := Option.map_eq_some_iff.mp hy
  refine h.setChannel (lockInv_next (h.lock c) op hl) (fun u j r hu hr hj => ?_) (h.waits c)
    (h.nodup c)
  apply lockNext_held (h.lock c) hl
  · rintro rfl
    rw [hop, ht] at hu
    obtain ⟨-, -, rfl⟩ := Pc.run.inj hu
    simp [hs] at hr
  · exact h.held u c j r hu hr hj

lemma downCompletion (hs : s.inside = true) (hns : s ≠ .sleeping) : Shape main (downCompletion x t c k) := by
  have hgoto : ∀ r : Stage, Shape main (x.goto t (.run c k r)) := fun r =>
    h.advance ht hns (by simp [hs])
  have hwait : t ∉ (x.channels c).completionWait.waiters := by
    refine h.not_waiting (fun d l he => ?_) c
    rw [ht, Pc.run.injEq] at he
    exact hns he.2.2
  by_cases hv : (x.channels c).completionWait.value = 0
  · simp only [Ide.downCompletion, semaDown_zero _ _ hv, Bool.false_eq_true, if_false,
      setChannel_goto]
    refine (hgoto .sleeping).setChannel (h.lock c) (fun u j r => (hgoto _).held u c j r)
      (fun u hu => ?_) ?_
    · rcases List.mem_append.mp hu with hu | hu
      · exact (hgoto _).waits c u hu
      · rw [List.mem_singleton.mp hu]
        exact ⟨k, by simp⟩
    · simpa using (h.nodup c).concat hwait
  · simp only [Ide.downCompletion, semaDown_pos _ _ hv, if_true, setChannel_goto]
    exact (hgoto .completed).setChannel (h.lock c) (fun u j r => (hgoto _).held u c j r)
      ((hgoto _).waits c) (h.nodup c)

omit [DecidableEq T] h ht in
lemma fail (h : Shape main x) (e : Panic) : Shape main (x.fail e) :=
  ⟨h.lock, h.boot, h.identify, h.held, h.waits, h.nodup⟩

lemma stageStep {drq : Bool} (hy : stageStep x t c k drq s = some y) : Shape main y := by
  cases s with
  | acquiring =>
    simp only [Ide.stageStep] at hy
    split at hy
    · next hheld =>
      cases Option.some.inj hy
      exact h.advance ht (by simp) fun _ _ => hheld
    · obtain ⟨op, hop, hl⟩ := Option.bind_eq_some_iff.mp hy
      exact h.lockStep ht rfl (lockOpThread_acquireOp hop) hl
  | selecting =>
    cases Option.some.inj hy
    have hgo := h.advance (r := .issuing) ht (by simp) (by simp [Stage.inside])
    cases k with
    | identifyDevice => exact hgo
    | readSector n | writeSector n =>
      simp only [selectSector]
      split
      · exact hgo
      · exact h.fail _
  | issuing | expecting =>
    cases Option.some.inj hy
    exact (h.advance ht (by simp) (by simp [Stage.inside])).setMarks _ _ _
  | sending =>
    cases k with
    | identifyDevice | readSector n => cases hy
    | writeSector n =>
      cases Option.some.inj hy
      split
      · exact h.advance ht (by simp) (by simp [Stage.inside])
      · exact h.fail _
  | downing | woken =>
    cases Option.some.inj hy
    exact h.downCompletion ht rfl (by simp)
  | sleeping => cases hy
  | completed =>
    cases Option.some.inj hy
    cases k with
    | identifyDevice => exact h.leave ht (by simp)
    | readSector n =>
      simp only [afterCompletion]
      split
      · exact h.advance ht (by simp) (by simp [Stage.inside])
      · exact h.fail _
    | writeSector n => exact h.advance ht (by simp) (by simp [Stage.inside])
  | releasing =>
    simp only [Ide.stageStep] at hy
    split at hy
    · cases Option.some.inj hy
      exact h.leave ht (by simp)
    · obtain ⟨op, hop, hl⟩ := Option.bind_eq_some_iff.mp hy
      exact h.lockStep ht rfl (lockOpThread_releaseOp hop) hl

end Shape

section Interrupts

variable {main t : T} {x y : State T} {c : ChannelNo}

lemma channelOf_irq (c : ChannelNo) : channelOf c.irq = some c := by
  cases c <;> rfl

lemma irq_injective : Injective ChannelNo.irq := by
  intro c d h
  exact Option.some.inj ((channelOf_irq c).symm.trans ((congrArg channelOf h).trans (channelOf_irq d)))

lemma irq_of_channelOf {vecNo : Nat} (h : channelOf vecNo = some c) : vecNo = c.irq := by
  simp only [channelOf] at h
  split at h
  · next hv =>
    cases h
    exact hv
  · split at h
    · next hv =>
      cases h
      exact hv
    · cases h

def Channel.up (ch : Channel T) : Channel T :=
  { ch with completionWait := (semaUp ch.completionWait).2, answered := true }

omit [DecidableEq T] in
lemma Channel.value_up (ch : Channel T) : ch.up.completionWait.value = wrap (ch.completionWait.value + 1) := by
  simp only [Channel.up, semaUp]
  split <;> rfl

lemma interruptHandler_cases (h : Shape main x) (vecNo : Nat) :
    (interruptHandler x vecNo = x.fail .notReached ∧ channelOf vecNo = none) ∨
    (∃ c, vecNo = c.irq ∧ (x.channels c).expectingInterrupt = false ∧
      interruptHandler x vecNo = x) ∨
    ∃ c, vecNo = c.irq ∧ (x.channels c).expectingInterrupt = true ∧
      (((x.channels c).completionWait.waiters = [] ∧
        interruptHandler x vecNo = x.setChannel c (x.channels c).up) ∨
      ∃ u k rest, (x.channels c).completionWait.waiters = u :: rest ∧
        x.pc u = .run c k .sleeping ∧
        interruptHandler x vecNo = (x.setChannel c (x.channels c).up).goto u (.run c k .woken)) := by
  cases hv : channelOf vecNo with
  | none => exact .inl ⟨by simp only [interruptHandler, hv], rfl⟩
  | some c =>
    refine .inr ?_
    have hirq := irq_of_channelOf hv
    cases he : (x.channels c).expectingInterrupt with
    | false =>
      refine .inl ⟨c, hirq, he, ?_⟩
      simp only [interruptHandler, hv, he, Bool.false_eq_true, if_false]
    | true =>
      refine .inr ⟨c, hirq, he, ?_⟩
      cases hw : (x.channels c).completionWait.waiters with
      | nil =>
        refine .inl ⟨rfl, ?_⟩
        simp only [interruptHandler, hv, he, if_true, Channel.up, semaUp_nil _ hw]
      | cons u rest =>
        obtain ⟨k, hk⟩ := h.waits c u (by simp [hw])
        refine .inr ⟨u, k, rest, rfl, hk, ?_⟩
        simp only [interruptHandler, hv, he, if_true, Channel.up, semaUp_cons _ _ hw, hk, Pc.unblock]

lemma Shape.interrupt (h : Shape main x) (vecNo : Nat) : Shape main (interruptHandler x vecNo) := by
  rcases interruptHandler_cases h vecNo with ⟨he, -⟩ | ⟨c, -, -, he⟩ | ⟨c, -, -, ⟨hw, he⟩ |
      ⟨u, k, rest, hw, hk, he⟩⟩
  · rw [he]
    exact h.fail _
  · rw [he]
    exact h
  · rw [he]
    refine h.setChannel (h.lock c) (fun v j r => h.held v c j r) ?_ ?_
    · simp [Channel.up, semaUp_nil _ hw, hw]
    · simp [Channel.up, semaUp_nil _ hw, hw]
  · rw [he]
    have hnodup := h.nodup c
    rw [hw, List.nodup_cons] at hnodup
    have hset : Shape main (x.setChannel c (x.channels c).up) := by
      refine h.setChannel (h.lock c) (fun v j r => h.held v c j r) (fun v hv => ?_) ?_
      · rw [Channel.up, semaUp_cons _ _ hw] at hv
        exact h.waits c v (by simp [hw, show v ∈ rest from hv])
      · simpa [Channel.up, semaUp_cons _ _ hw] using hnodup.2
    refine hset.goto (fun d => ?_) (fun hb hne => ?_) (fun d q hq => ?_) fun d j q hq hin hj => ?_
    · by_cases hd : d = c
      · subst hd
        simpa [Channel.up, semaUp_cons _ _ hw] using hnodup.1
      · intro hu
        obtain ⟨j, hj⟩ := h.waits d u (by simpa [hd] using hu)
        rw [hk, Pc.run.injEq] at hj
        exact hd hj.1.symm
    · simp [h.boot hb u hne] at hk
    · obtain ⟨rfl, rfl, rfl⟩ := Pc.run.inj hq
      exact h.identify u _ _ hk
    · obtain ⟨rfl, rfl, rfl⟩ := Pc.run.inj hq
      exact hset.held u _ _ _ hk rfl hj

lemma Shape.initial (main : T) : Shape main (State.initial T) where
  lock _ := lockInv_reachable (.init rfl)
  boot _ _ _ := rfl
  identify _ _ _ h := by cases h
  held _ _ _ _ h := by cases h
  waits _ _ h := by cases h
  nodup _ := List.nodup_nil

end Interrupts

section Steps

variable {main t : T} {x y : State T} {c : ChannelNo}

lemma ideNext_cases {op : Op T} (hs : ideNext main x op = some y) :
    x.failed = none ∧
    ((∃ t c k, op = .call t c k ∧ x.pc t = .idle ∧
        (if x.booting then t = main else k ≠ .identifyDevice) ∧
        y = x.goto t (.run c k (if k = .identifyDevice then .selecting else .acquiring))) ∨
      (∃ t drq c k s, op = .step t drq ∧ x.pc t = .run c k s ∧
        stageStep x t c k drq s = some y) ∨
      (∃ vecNo, op = .interrupt vecNo ∧ y = interruptHandler x vecNo) ∨
      (op = .initDone ∧ x.booting = true ∧ x.pc main = .idle ∧ y = { x with booting := false })) := by
  simp only [ideNext, Option.ite_none_left_eq_some, not_not] at hs
  refine ⟨hs.1, ?_⟩
  have hs := hs.2
  cases op with
  | call t c k =>
    simp only [guard_eq_some] at hs
    exact .inl ⟨t, c, k, rfl, hs.1.1, hs.1.2, hs.2.symm⟩
  | step t drq =>
    cases hp : x.pc t with
    | idle => simp [hp] at hs
    | run c k s => exact .inr (.inl ⟨t, drq, c, k, s, rfl, hp, by simpa [hp] using hs⟩)
  | interrupt vecNo => exact .inr (.inr (.inl ⟨vecNo, rfl, (Option.some.inj hs).symm⟩))
  | initDone =>
    simp only [guard_eq_some] at hs
    exact .inr (.inr (.inr ⟨rfl, hs.1.1, hs.1.2, hs.2.symm⟩))

lemma Shape.next {op : Op T} (h : Shape main x) (hs : ideNext main x op = some y) :
    Shape main y := by
  rcases (ideNext_cases hs).2 with ⟨t, c, k, -, ht, hb, rfl⟩ | ⟨t, drq, c, k, s, -, ht, hy⟩ |
      ⟨v, -, rfl⟩ | ⟨-, hb, hm, rfl⟩
  · refine h.goto (h.not_waiting fun d l he => ?_) (fun hbt hne => ?_) (fun d q hq => ?_)
      fun d l q hq hin hl => ?_
    · simp [ht] at he
    · rw [if_pos hbt] at hb
      exact (hne hb).elim
    · obtain ⟨-, rfl, -⟩ := Pc.run.inj hq
      cases hbt : x.booting with
      | true => rfl
      | false => simp [hbt] at hb
    · obtain ⟨rfl, rfl, rfl⟩ := Pc.run.inj hq
      simp [hl, Stage.inside] at hin
  · exact h.stageStep ht hy
  · exact h.interrupt v
  · refine ⟨h.lock, fun hf => (Bool.false_ne_true hf).elim, fun u c s hu => ?_, h.held, h.waits,
      h.nodup⟩
    by_cases hum : u = main
    · rw [hum] at hu
      exact Pc.noConfusion (hm.symm.trans hu)
    · exact Pc.noConfusion ((h.boot hb u hum).symm.trans hu)

end Steps

structure Quiet (x : State T) (c : ChannelNo) : Prop where
  early : (x.channels c).early = false
  unexpected : (x.channels c).expectingInterrupt = false →
    (x.channels c).completionWait.value = 0 ∧
      ∀ t k s, x.pc t = .run c k s → s.outstanding = false
  expected : (x.channels c).expectingInterrupt = true →
    ∃ t k s, x.pc t = .run c k s ∧ s.outstanding = true
  fresh : ∀ t k, x.pc t = .run c k .expecting → (x.channels c).completionWait.value = 0
  pending : ∀ t k s, x.pc t = .run c k s → s.pending = true →
    (x.channels c).completionWait.value ≠ 0 → (x.channels c).answered = true

namespace Quiet

variable {main t : T} {x y : State T} {c d : ChannelNo} {k : Command} {s : Stage}

omit [DecidableEq T] in
lemma frame (h : Quiet x c) (hch : (y.channels c).early = (x.channels c).early ∧
      (y.channels c).expectingInterrupt = (x.channels c).expectingInterrupt ∧
      (y.channels c).completionWait.value = (x.channels c).completionWait.value ∧
      (y.channels c).answered = (x.channels c).answered)
    (hpc : ∀ u k s, s.outstanding = true → (y.pc u = .run c k s ↔ x.pc u = .run c k s)) :
    Quiet y c := by
  obtain ⟨hearly, hexpect, hvalue, hanswer⟩ := hch
  refine ⟨hearly.trans h.early, fun he => ?_, fun he => ?_, fun u k hu => ?_, fun u k s hu hs hv => ?_⟩
  · rw [hexpect] at he
    refine ⟨hvalue.trans (h.unexpected he).1, fun u k s hu => ?_⟩
    by_contra hne
    have hout : s.outstanding = true := by simpa using hne
    exact hne ((h.unexpected he).2 u k s ((hpc u k s hout).mp hu))
  · obtain ⟨u, k, s, hu, hs⟩ := h.expected (hexpect ▸ he)
    exact ⟨u, k, s, (hpc u k s hs).mpr hu, hs⟩
  · rw [hvalue]
    exact h.fresh u k ((hpc u k .expecting rfl).mp hu)
  · rw [hvalue] at hv
    rw [hanswer]
    exact h.pending u k s ((hpc u k s (Stage.outstanding_of_pending hs)).mp hu) hs hv

lemma goto (h : Quiet x c) {p : Pc} (ht : ∀ k s, x.pc t = .run c k s → s.outstanding = false)
    (hp : ∀ k s, p = .run c k s → s.outstanding = false) : Quiet (x.goto t p) c := by
  refine h.frame ⟨rfl, rfl, rfl, rfl⟩ fun u k s hs => ?_
  by_cases hu : u = t
  · subst hu
    rw [State.goto_pc, update_self]
    constructor
    · intro he
      simp [hp k s he] at hs
    · intro he
      simp [ht k s he] at hs
  · rw [State.goto_pc, update_of_ne hu]

variable {r : Stage}

lemma other (h : Quiet x d) (hd : d ≠ c) (ht : x.pc t = .run c k s) {ch : Channel T} :
    Quiet ((x.goto t (.run c k r)).setChannel c ch) d := by
  have hgo : Quiet (x.goto t (.run c k r)) d := by
    apply h.goto
    · intro l q hq
      exact (hd (Pc.run.inj (ht.symm.trans hq)).1.symm).elim
    · intro l q hq
      exact (hd (Pc.run.inj hq).1.symm).elim
  refine hgo.frame ?_ fun _ _ _ _ => Iff.rfl
  simp [hd]

lemma own (h : Shape main x) (ht : x.pc t = .run c k s) (hin : s.inside = true) {ch : Channel T}
    (hr : r.outstanding = true) (hearly : ch.early = false)
    (hexpect : ch.expectingInterrupt = true)
    (hfresh : r = .expecting → ch.completionWait.value = 0)
    (hpending : r.pending = true → ch.completionWait.value ≠ 0 → ch.answered = true) :
    Quiet ((x.goto t (.run c k r)).setChannel c ch) c := by
  have honly : ∀ u l q, ((x.goto t (.run c k r)).setChannel c ch).pc u = .run c l q →
      q.outstanding = true → q = r := by
    intro u l q hu hq
    by_cases hut : u = t
    · subst hut
      rw [State.setChannel_pc, State.goto_pc, update_self] at hu
      exact (Pc.run.inj hu).2.2.symm
    · rw [State.setChannel_pc, State.goto_pc, update_of_ne hut] at hu
      exact (hut (h.unique hu (Stage.inside_of_outstanding hq) ht hin)).elim
  have hch : ((x.goto t (.run c k r)).setChannel c ch).channels c = ch := by simp
  refine ⟨?_, fun he => ?_, fun _ => ?_, fun u l hu => ?_, fun u l q hu hq => ?_⟩
  · rw [hch, hearly]
  · rw [hch, hexpect] at he
    exact (Bool.false_ne_true he.symm).elim
  · exact ⟨t, k, r, by simp, hr⟩
  · rw [hch]
    exact hfresh (honly u l _ hu rfl).symm
  · rw [hch]
    obtain rfl := honly u l q hu (Stage.outstanding_of_pending hq)
    exact hpending hq

lemma own_or_other (ch : Channel T) (h : Shape main x) (hq : ∀ d, Quiet x d) (ht : x.pc t = .run c k s)
    (hin : s.inside = true) (hr : r.outstanding = true)
    (hearly : ch.early = false) (hexpect : ch.expectingInterrupt = true)
    (hfresh : r = .expecting → ch.completionWait.value = 0)
    (hpending : r.pending = true → ch.completionWait.value ≠ 0 → ch.answered = true)
    (d : ChannelNo) : Quiet ((x.goto t (.run c k r)).setChannel c ch) d := by
  by_cases hd : d = c
  · subst hd
    exact own h ht hin hr hearly hexpect hfresh hpending
  · exact (hq d).other hd ht

omit [DecidableEq T] in
lemma fail (h : Quiet x c) (e : Panic) : Quiet (x.fail e) c :=
  h.frame ⟨rfl, rfl, rfl, rfl⟩ fun _ _ _ _ => Iff.rfl

lemma lockStep (h : Quiet x d) {op : LockOp T} (hy : lockStep x c op = some y) : Quiet y d := by
  obtain ⟨l, -, rfl⟩ := Option.map_eq_some_iff.mp hy
  refine h.frame ?_ fun _ _ _ _ => Iff.rfl
  by_cases hd : d = c
  · subst hd
    simp
  · simp [hd]

lemma walk (h : Quiet x d) (ht : x.pc t = .run c k s) (hs : s.outstanding = false)
    (hr : r.outstanding = false) : Quiet (x.goto t (.run c k r)) d := by
  apply h.goto
  · intro l q hq
    rw [ht] at hq
    exact (Pc.run.inj hq).2.2 ▸ hs
  · intro l q hq
    exact (Pc.run.inj hq).2.2 ▸ hr

omit [DecidableEq T] in
lemma expects (h : Quiet x c) (ht : x.pc t = .run c k s) (hs : s.outstanding = true) :
    (x.channels c).expectingInterrupt = true := by
  by_contra hne
  have hf := (h.unexpected (by simpa using hne)).2 t k s ht
  simp [hs] at hf

end Quiet

def Undisturbed (x : State T) : Op T → Prop
  | .call _ _ _ | .initDone => True
  | .step t drq => ∀ c k, x.pc t = .run c k .completed → ∃ n, k = .readSector n ∧ drq = false
  | .interrupt vecNo => ∀ t c k, x.pc t = .run c k .expecting → vecNo ≠ c.irq

section Undisturbed

variable {main t : T} {x y : State T} {c : ChannelNo} {k : Command} {s : Stage}

lemma quiet_stageStep (h : Shape main x) (hq : ∀ d, Quiet x d) (ht : x.pc t = .run c k s)
    {drq : Bool} (hend : s = .completed → ∃ n, k = .readSector n ∧ drq = false)
    (hy : stageStep x t c k drq s = some y) (d : ChannelNo) : Quiet y d := by
  cases s with
  | acquiring =>
    simp only [stageStep] at hy
    split at hy
    · cases Option.some.inj hy
      exact (hq d).walk ht rfl rfl
    · obtain ⟨op, -, hl⟩ := Option.bind_eq_some_iff.mp hy
      exact (hq d).lockStep hl
  | selecting =>
    cases Option.some.inj hy
    cases k with
    | identifyDevice => exact (hq d).walk ht rfl rfl
    | readSector n | writeSector n =>
      simp only [selectSector]
      split
      · exact (hq d).walk ht rfl rfl
      · exact (hq d).fail _
  | issuing =>
    cases Option.some.inj hy
    -- an interrupt already expected would have another thread inside the channel
    have hfirst : (x.channels c).expectingInterrupt = false := by
      by_contra hne
      obtain ⟨u, l, q, hu, hout⟩ := (hq c).expected (by simpa using hne)
      obtain rfl := h.unique hu (Stage.inside_of_outstanding hout) ht rfl
      rw [ht, Pc.run.injEq] at hu
      simp [← hu.2.2, Stage.outstanding] at hout
    refine Quiet.own_or_other _ (r := .expecting) h hq ht rfl rfl ?_ rfl (fun _ => ?_) ?_ d
    · exact (hq c).early
    · exact ((hq c).unexpected hfirst).1
    · simp [Stage.pending]
  | expecting =>
    cases Option.some.inj hy
    have hzero := (hq c).fresh t k ht
    have hexpect := (hq c).expects ht rfl
    cases k with
    | identifyDevice | readSector n =>
      refine Quiet.own_or_other _ (r := .downing) h hq ht rfl rfl ?_ ?_ (by simp) ?_ d
      · exact (hq c).early
      · exact hexpect
      · exact fun _ hne => (hne hzero).elim
    | writeSector n =>
      refine Quiet.own_or_other _ (r := .sending) h hq ht rfl rfl ?_ ?_ (by simp) ?_ d
      · exact (hq c).early
      · exact hexpect
      · exact fun _ hne => (hne hzero).elim
  | sending =>
    cases k with
    | identifyDevice | readSector n => cases hy
    | writeSector n =>
      cases Option.some.inj hy
      split
      · have hown := Quiet.own_or_other (x.channels c) (r := .downing) h hq ht rfl rfl (hq c).early
          ((hq c).expects ht rfl) (by simp) (fun _ => (hq c).pending t _ _ ht rfl) d
        rwa [State.setChannel, State.goto_channels, update_eq_self] at hown
      · exact (hq d).fail _
  | downing | woken =>
    cases Option.some.inj hy
    have hexpect := (hq c).expects ht rfl
    have hpending := (hq c).pending t k _ ht rfl
    by_cases hv : (x.channels c).completionWait.value = 0
    · simp only [downCompletion, semaDown_zero _ _ hv, Bool.false_eq_true, if_false, setChannel_goto]
      refine Quiet.own_or_other _ (r := .sleeping) h hq ht rfl rfl ?_ ?_ (by simp) ?_ d
      · exact (hq c).early
      · exact hexpect
      · exact fun _ hne => (hne hv).elim
    · simp only [downCompletion, semaDown_pos _ _ hv, if_true, setChannel_goto]
      refine Quiet.own_or_other _ (r := .completed) h hq ht rfl rfl ?_ ?_ (by simp) ?_ d
      · simp [(hq c).early, hpending hv]
      · exact hexpect
      · simp [Stage.pending]
  | sleeping => cases hy
  | completed =>
    cases Option.some.inj hy
    obtain ⟨n, rfl, rfl⟩ := hend rfl
    exact (hq d).fail _
  | releasing =>
    simp only [stageStep] at hy
    split at hy
    · cases Option.some.inj hy
      apply (hq d).goto
      · intro l q hl
        rw [ht, Pc.run.injEq] at hl
        rw [← hl.2.2]
        rfl
      · simp
    · obtain ⟨op, -, hl⟩ := Option.bind_eq_some_iff.mp hy
      exact (hq d).lockStep hl

lemma quiet_interrupt (h : Shape main x) (hq : ∀ d, Quiet x d) {vecNo : Nat}
    (hv : ∀ t c k, x.pc t = .run c k .expecting → vecNo ≠ c.irq) (d : ChannelNo) :
    Quiet (interruptHandler x vecNo) d := by
  rcases interruptHandler_cases h vecNo with ⟨he, -⟩ | ⟨c, -, -, he⟩ | ⟨c, hirq, hexpect, ⟨-, he⟩ |
      ⟨u, k, rest, -, hk, he⟩⟩
  · rw [he]
    exact (hq d).fail _
  · rw [he]
    exact hq d
  · rw [he]
    obtain ⟨t, k, s, ht, hs⟩ := (hq c).expected hexpect
    have hown := Quiet.own_or_other (x.channels c).up h hq ht
      (Stage.inside_of_outstanding hs) hs (hq c).early hexpect (fun hse => ?_) (fun _ _ => rfl) d
    · rwa [← ht, State.goto, update_eq_self] at hown
    · exact (hv t c k (hse ▸ ht) hirq).elim
  · rw [he, setChannel_goto]
    refine Quiet.own_or_other _ (r := .woken) h hq hk rfl rfl ?_ ?_ (by simp) (fun _ _ => rfl) d
    · exact (hq c).early
    · exact hexpect

lemma quiet_next {op : Op T} (h : Shape main x) (hq : ∀ d, Quiet x d) (hc : Undisturbed x op)
    (hs : ideNext main x op = some y) (d : ChannelNo) : Quiet y d := by
  rcases (ideNext_cases hs).2 with ⟨t, c, k, -, ht, -, rfl⟩ | ⟨t, drq, c, k, s, rfl, ht, hy⟩ |
      ⟨v, rfl, rfl⟩ | ⟨-, -, -, rfl⟩
  · apply (hq d).goto
    · simp [ht]
    · intro l q hl
      obtain ⟨-, -, rfl⟩ := Pc.run.inj hl
      split <;> rfl
  · exact quiet_stageStep h hq ht (fun he => hc c k (he ▸ ht)) hy d
  · exact quiet_interrupt h hq hc d
  · exact (hq d).frame ⟨rfl, rfl, rfl, rfl⟩ fun _ _ _ _ => Iff.rfl

omit [DecidableEq T] in
lemma quiet_initial (d : ChannelNo) : Quiet (State.initial T) d where
  early := rfl
  unexpected _ := ⟨rfl, fun _ _ _ h => Pc.noConfusion h⟩
  expected h := (Bool.false_ne_true h).elim
  fresh _ _ h := Pc.noConfusion h
  pending _ _ _ h := Pc.noConfusion h

lemma quiet_reachable (h : (ideSystem main).ReachableWhere Undisturbed x) :
    Shape main x ∧ ∀ d, Quiet x d := by
  refine h.invariant (I := fun x => Shape main x ∧ ∀ d, Quiet x d) ?_ ?_
  · rintro x rfl
    exact ⟨.initial main, quiet_initial⟩
  · rintro x op y ⟨hi, hq⟩ hc hs
    exact ⟨hi.next hs, quiet_next hi hq hc hs⟩

omit [DecidableEq T] in
def Outstanding (x : State T) (c : ChannelNo) : Prop :=
  ∃ t k s, x.pc t = .run c k s ∧ s.outstanding = true

structure Accounted (x : State T) (c : ChannelNo) : Prop where
  afterOwnInterrupt : (x.channels c).early = false
  idle : ¬ Outstanding x c →
    (x.channels c).completionWait.value = 0 ∧ (x.channels c).expectingInterrupt = false

omit [DecidableEq T] in
lemma Quiet.accounted (h : Quiet x c) : Accounted x c := by
  refine ⟨h.early, fun hno => ?_⟩
  have hexpect : (x.channels c).expectingInterrupt = false := by
    by_contra hne
    exact hno (h.expected (by simpa using hne))
  exact ⟨(h.unexpected hexpect).1, hexpect⟩

lemma finished_not_accounted (h : Shape main x) (hq : Quiet x c)
    (ht : x.pc t = .run c k .completed) {p : Pc} (hp : ∀ l s, p = .run c l s → s.outstanding = false) :
    ¬ Accounted (x.goto t p) c := by
  intro ha
  have hidle : ¬ Outstanding (x.goto t p) c := by
    rintro ⟨u, l, s, hu, hs⟩
    by_cases hut : u = t
    · subst hut
      rw [State.goto_pc, update_self] at hu
      simp [hp l s hu] at hs
    · rw [State.goto_pc, update_of_ne hut] at hu
      exact hut (h.unique hu (Stage.inside_of_outstanding hs) ht rfl)
  have hexpect := hq.expects ht rfl
  rw [← State.goto_channels x t p, (ha.idle hidle).2] at hexpect
  exact Bool.false_ne_true hexpect

lemma next_step (main : T) (hf : x.failed = none) (ht : x.pc t = .run c k s) (drq : Bool) :
    (ideSystem main).next x (.step t drq) = stageStep x t c k drq s := by
  simp only [ideSystem, ideNext, hf, ne_eq, not_true_eq_false, if_false, ht]

lemma passes_unanswered (main : T) (hf : x.failed = none) (ht : x.pc t = .run c k .downing)
    (hv : (x.channels c).completionWait.value ≠ 0) (ha : (x.channels c).answered = false) :
    ∃ z, (ideSystem main).Leads x z ∧ (z.channels c).early = true := by
  refine ⟨_, .tail .refl (next_step main hf ht true), ?_⟩
  simp [downCompletion, semaDown_pos _ _ hv, ha]

lemma sends_unanswered {n : Nat} (hf : x.failed = none)
    (ht : x.pc t = .run c (.writeSector n) .sending)
    (hv : (x.channels c).completionWait.value ≠ 0) (ha : (x.channels c).answered = false) :
    ∃ z, (ideSystem main).Leads x z ∧ (z.channels c).early = true := by
  have hsend := next_step main hf ht true
  simp only [stageStep, if_true] at hsend
  obtain ⟨z, hz, hearly⟩ := passes_unanswered main (t := t) (k := .writeSector n)
    (x := x.goto t (.run c (.writeSector n) .downing)) hf (by simp) hv ha
  exact ⟨z, hz.head hsend, hearly⟩

lemma passes_early (main : T) (hf : x.failed = none) (ht : x.pc t = .run c k .expecting)
    (hv : (x.channels c).completionWait.value ≠ 0) :
    ∃ z, (ideSystem main).Leads x z ∧ (z.channels c).early = true := by
  have hwrite := next_step main hf ht true
  have hlead : ∃ z, (ideSystem main).Leads ((x.setChannel c
      { x.channels c with answered := false }).goto t
        (.run c k (match k with | .writeSector _ => .sending | _ => .downing))) z ∧
      (z.channels c).early = true := by
    cases k with
    | identifyDevice =>
      exact passes_unanswered main (t := t) (k := .identifyDevice) hf (by simp) (by simpa using hv)
        (by simp)
    | readSector n =>
      exact passes_unanswered main (t := t) (k := .readSector n) hf (by simp) (by simpa using hv)
        (by simp)
    | writeSector n =>
      exact sends_unanswered (t := t) (n := n) hf (by simp) (by simpa using hv) (by simp)
  obtain ⟨z, hz, hearly⟩ := hlead
  exact ⟨z, hz.head hwrite, hearly⟩

theorem interrupts_accounted_when_undisturbed {x : State T}
    (h : (ideSystem main).ReachableWhere Undisturbed x) :
    (∀ c, Accounted x c) ∧ ∀ op y, (ideSystem main).next x op = some y → ¬ Undisturbed x op →
      ∃ z c, (ideSystem main).Leads y z ∧ ¬ Accounted z c := by
  obtain ⟨hi, hq⟩ := quiet_reachable h
  refine ⟨fun c => (hq c).accounted, fun op y hs hc => ?_⟩
  obtain ⟨hf, hcase⟩ := ideNext_cases hs
  rcases hcase with ⟨t, c, k, rfl, -⟩ | ⟨t, drq, c, k, s, rfl, ht, hy⟩ | ⟨v, rfl, rfl⟩ | ⟨rfl, -⟩
  · exact (hc trivial).elim
  · simp only [Undisturbed, not_forall] at hc
    obtain ⟨d, l, hl, hno⟩ := hc
    obtain ⟨rfl, rfl, rfl⟩ := Pc.run.inj (ht.symm.trans hl)
    cases Option.some.inj hy
    refine ⟨_, c, .refl, ?_⟩
    cases k with
    | identifyDevice => exact finished_not_accounted hi (hq c) ht (by simp)
    | readSector n =>
      have hd : drq = true := by
        by_contra hne
        exact hno ⟨n, rfl, by simpa using hne⟩
      simp only [afterCompletion, hd, if_true]
      exact finished_not_accounted hi (hq c) ht fun _ _ he => (Pc.run.inj he).2.2 ▸ rfl
    | writeSector n =>
      exact finished_not_accounted hi (hq c) ht fun _ _ he => (Pc.run.inj he).2.2 ▸ rfl
  · simp only [Undisturbed, not_forall, not_not] at hc
    obtain ⟨t, c, k, ht, rfl⟩ := hc
    have hexpect := (hq c).expects ht rfl
    have hup : interruptHandler x c.irq = x.setChannel c (x.channels c).up := by
      rcases interruptHandler_cases hi c.irq with ⟨-, hv⟩ | ⟨d, hv, he, -⟩ | ⟨d, hv, -, ⟨-, he⟩ |
          ⟨u, l, rest, -, hu, -⟩⟩
      · simp [channelOf_irq] at hv
      · rw [irq_injective hv, he] at hexpect
        exact (Bool.false_ne_true hexpect).elim
      · obtain rfl := irq_injective hv
        exact he
      · obtain rfl := irq_injective hv
        obtain rfl := hi.unique ht rfl hu rfl
        simp [ht] at hu
    rw [hup]
    obtain ⟨z, hz, hearly⟩ := passes_early main (x := x.setChannel c (x.channels c).up)
      (t := t) (c := c) (k := k) hf ht (by simp [Channel.value_up, (hq c).fresh t k ht]; decide)
    refine ⟨z, c, hz, fun ha => ?_⟩
    rw [ha.afterOwnInterrupt] at hearly
    exact Bool.false_ne_true hearly
  · exact (hc trivial).elim

end Undisturbed

def Pc.window : Pc → Option Nat
  | .run c _ .expecting => some c.irq
  | _ => none

def Pc.finishes : Pc → Bool
  | .run _ _ .completed => true
  | _ => false

def undisturbed (x : State Bool) : Op Bool → Bool
  | .call _ _ _ | .initDone => true
  | .step t _ => !(x.pc t).finishes
  | .interrupt vecNo => decide (∀ t, (x.pc t).window ≠ some vecNo)

lemma undisturbed_sound (x : State Bool) (op : Op Bool) (h : undisturbed x op = true) :
    Undisturbed x op := by
  cases op with
  | call t c k => trivial
  | step t drq =>
    intro c k ht
    simp [undisturbed, ht, Pc.finishes] at h
  | interrupt vecNo =>
    intro t c k ht he
    exact of_decide_eq_true h t (by rw [ht, he]; rfl)
  | initDone => trivial

theorem interrupts_accounted_at_first_read :
    ∃ x : State Bool, (ideSystem false).ReachableWhere Undisturbed x ∧
      x.pc true = .run .ide0 (.readSector 5) .completed ∧ (x.channels .ide0).answered = true ∧
      ∀ c, Accounted x c := by
  have hrun : (((ideSystem false).restrict undisturbed).exec (State.initial Bool)
      [.interrupt 46, .initDone, .call true .ide0 (.readSector 5), .step true true, .step true true,
        .step true true, .step true true, .step true true, .step true true, .step true true,
        .step true true, .interrupt 46, .step true true]).map
          (fun x => (x.pc true, (x.channels .ide0).answered)) =
        some (.run .ide0 (.readSector 5) .completed, true) := by
    decide +kernel
  obtain ⟨x, hx, hend⟩ := Option.map_eq_some_iff.mp hrun
  have hr := System.reachableWhere_of_exec rfl hx undisturbed_sound
  exact ⟨x, hr, congrArg Prod.fst hend, congrArg Prod.snd hend,
    (interrupts_accounted_when_undisturbed hr).1⟩

theorem stray_interrupt_completes_read :
    ∃ x y : State Unit, (ideSystem ()).Reachable x ∧ (ideSystem ()).Leads x y ∧
      x.pc () = .idle ∧ (x.channels .ide0).completionWait.value = 1 ∧
      (x.channels .ide0).expectingInterrupt = true ∧ ¬ Accounted x .ide0 ∧
      y.pc () = .run .ide0 (.readSector 9) .completed ∧ (y.channels .ide0).answered = false ∧
      ¬ Accounted y .ide0 := by
  have hrun : ((ideSystem ()).exec (State.initial Unit)
      ([.initDone, .call () .ide0 (.readSector 5)] ++ List.replicate 8 (.step () true) ++
        [.interrupt 46] ++ List.replicate 6 (.step () true) ++ [.interrupt 46])).any fun x =>
          x.pc () = .idle ∧ (x.channels .ide0).completionWait.value = 1 ∧
            (x.channels .ide0).expectingInterrupt = true ∧
            ((ideSystem ()).exec x ([.call () .ide0 (.readSector 9)] ++
              List.replicate 8 (.step () true))).any fun y =>
                y.pc () = .run .ide0 (.readSector 9) .completed ∧
                  (y.channels .ide0).answered = false ∧ (y.channels .ide0).early = true := by
    decide +kernel
  obtain ⟨x, hx, hend⟩ := (Option.any_eq_true _ _).mp hrun
  obtain ⟨hpc, hvalue, hexpect, hlast⟩ := of_decide_eq_true hend
  obtain ⟨y, hy, hyend⟩ := (Option.any_eq_true _ _).mp hlast
  obtain ⟨hypc, hanswer, hearly⟩ := of_decide_eq_true hyend
  refine ⟨x, y, System.exec_reachable (.init rfl) hx, System.exec_leads hy, hpc, hvalue, hexpect,
    fun ha => ?_, hypc, hanswer, fun ha => ?_⟩
  · have hidle : ¬ Outstanding x .ide0 := by
      rintro ⟨t, k, s, ht, -⟩
      simp [hpc] at ht
    simp [(ha.idle hidle).1] at hvalue
  · simp [ha.afterOwnInterrupt] at hearly

end Pintos.Devices.Ide
