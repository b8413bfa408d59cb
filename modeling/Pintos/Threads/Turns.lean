import Pintos.Threads.Runs
import Mathlib.Data.List.Rotate

/-! The order in which `schedule` takes threads from the run queue. -/

namespace Pintos.Threads

open Pintos.Foundation Pintos.Synch Function

variable {s s' : State}

def callsSchedule (s : State) : Event → Bool
  | .block | .yield | .exit | .idleBlock => true
  | .down σ => decide ((s.sema σ).value = 0)
  | .retest =>
    match s.cont s.current with
    | .semaDown σ => decide ((s.sema σ).value = 0)
    | _ => false
  | .create | .start _ | .unblock _ | .tryDown _ | .up _ | .setIdle | .idleUp => false

def appends (s : State) : Event → List Nat
  | .unblock t => [t]
  | .yield => if s.idleThread = some s.current then [] else [s.current]
  | .up σ => (s.sema σ).waiters.head?.toList
  | .idleUp =>
    match s.cont s.current with
    | .idleUp σ => (s.sema σ).waiters.head?.toList
    | _ => []
  | .create | .start _ | .block | .exit | .down _ | .retest | .tryDown _ | .setIdle | .idleBlock => []

def appended : State → List Event → List Nat
  | _, [] => []
  | s, e :: es => match next s e with
    | none => []
    | some s' => appends s e ++ appended s' es

def dispatches : State → List Event → List Nat
  | _, [] => []
  | s, e :: es => match next s e with
    | none => []
    | some s' => (if callsSchedule s e then [s'.current] else []) ++ dispatches s' es

inductive Turn (s s' : State) (e : Event) : Prop
  | stay : callsSchedule s e = false → s'.current = s.current →
      s'.readyList = s.readyList ++ appends s e →
      (∀ t ∈ appends s e, s.status t = some .blocked) →
      (∀ t, s'.idleTid = some t → s.idleTid = some t ∨ t = s.created) → Turn s s' e
  | pop : callsSchedule s e = true → s.readyList ++ appends s e = s'.current :: s'.readyList →
      s'.idleTid = s.idleTid → Turn s s' e
  | idle : callsSchedule s e = true → s.readyList ++ appends s e = [] → s'.readyList = [] →
      s.idleThread = some s'.current → s'.idleTid = s.idleTid → Turn s s' e

lemma threadScheduleTail_fields (s : State) (p : Option Nat) :
    (threadScheduleTail s p).readyList = s.readyList ∧
      (threadScheduleTail s p).current = s.current ∧
      (threadScheduleTail s p).idleTid = s.idleTid := by
  cases p with
  | none => exact ⟨rfl, rfl, rfl⟩
  | some p =>
    simp only [threadScheduleTail]
    split <;> exact ⟨rfl, rfl, rfl⟩

lemma schedule_turn (hs : schedule s = some s') : (s.readyList = s'.current :: s'.readyList ∨
      s.readyList = [] ∧ s'.readyList = [] ∧ s.idleThread = some s'.current) ∧ s'.idleTid = s.idleTid := by
  cases hl : s.readyList with
  | nil =>
    simp only [schedule, nextThreadToRun, hl] at hs
    cases hi : s.idleThread with
    | none => simp [hi] at hs
    | some t =>
      simp only [hi, Option.some.injEq] at hs
      subst hs
      obtain ⟨hr, hc, ht⟩ := threadScheduleTail_fields { s with current := t, idleThread := some t }
        (if s.current = t then none else some s.current)
      exact ⟨.inr ⟨rfl, hr.trans hl, congrArg some hc.symm⟩, ht⟩
  | cons t rest =>
    simp only [schedule, nextThreadToRun, hl, Option.some.injEq] at hs
    subst hs
    obtain ⟨hr, hc, ht⟩ := threadScheduleTail_fields { s with readyList := rest, current := t }
      (if s.current = t then none else some s.current)
    refine ⟨.inl ?_, ht⟩
    rw [hr, hc]

variable {e : Event}

lemma Turn.of_schedule {s s₀ s' : State} (hs : schedule s₀ = some s')
    (hcall : callsSchedule s e = true) (hlist : s₀.readyList = s.readyList ++ appends s e)
    (hidle : s₀.idleThread = s.idleThread) (htid : s₀.idleTid = s.idleTid) : Turn s s' e := by
  obtain ⟨hpop | ⟨hnil, hnil', hi⟩, ht⟩ := schedule_turn hs
  · exact .pop hcall (hlist ▸ hpop) (ht.trans htid)
  · exact .idle hcall (hlist ▸ hnil) hnil' (hidle ▸ hi) (ht.trans htid)

lemma Turn.quiet (hcall : callsSchedule s e = false)
    (happ : appends s e = []) (hcur : s'.current = s.current) (hlist : s'.readyList = s.readyList)
    (htid : ∀ t, s'.idleTid = some t → s.idleTid = some t ∨ t = s.created) : Turn s s' e :=
  .stay hcall hcur (by simp [hlist, happ]) (by simp [happ]) htid

lemma turn_semaUp {σ : Nat} (hcall : callsSchedule s e = false)
    (happ : appends s e = (s.sema σ).waiters.head?.toList) {c : Nat → Cont}
    (hs : semaUp { s with cont := c } σ = some s') : Turn s s' e := by
  cases hw : (s.sema σ).waiters with
  | nil =>
    simp only [semaUp, semaUp_nil _ hw, Option.some.injEq] at hs
    subst hs
    exact .quiet hcall (by simp [happ, hw]) rfl rfl fun _ ht => .inl ht
  | cons t rest =>
    simp only [semaUp, semaUp_cons _ _ hw, threadUnblock, guard_eq_some] at hs
    obtain ⟨hb, rfl⟩ := hs
    refine .stay hcall rfl (by simp [happ, hw, State.setSema, State.setStatus]) ?_ fun _ ht => .inl ht
    simpa [happ, hw, State.setSema] using hb

lemma turn_semaDownPass {σ : Nat}
    (hcall : callsSchedule s e = decide ((s.sema σ).value = 0)) (happ : appends s e = [])
    (hs : semaDownPass s σ = some s') : Turn s s' e := by
  by_cases hz : (s.sema σ).value = 0
  · simp only [semaDownPass, semaDown_zero _ _ hz, Bool.false_eq_true, if_false] at hs
    exact .of_schedule hs (by simpa [hz] using hcall)
      (by simp [happ, State.setSema, State.setCont, State.setStatus]) rfl rfl
  · simp only [semaDownPass, semaDown_pos _ _ hz, if_true, Option.some.injEq] at hs
    subst hs
    exact .quiet (by simpa [hz] using hcall) happ rfl rfl fun _ ht => .inl ht

lemma turn_of_next (hs : next s e = some s') : Turn s s' e := by
  cases e with
  | create =>
    simp only [next, guard_eq_some] at hs
    obtain ⟨-, rfl⟩ := hs
    exact .quiet rfl rfl rfl rfl fun _ ht => .inl ht
  | start σ =>
    simp only [next, guard_eq_some] at hs
    obtain ⟨-, rfl⟩ := hs
    exact .quiet rfl rfl rfl rfl fun _ ht => .inr (Option.some.inj ht).symm
  | block =>
    simp only [next, threadBlock, Option.ite_none_right_eq_some] at hs
    exact .of_schedule hs.2 rfl (List.append_nil _).symm rfl rfl
  | unblock t =>
    simp only [next, threadUnblock, Option.ite_none_right_eq_some, Option.some.injEq] at hs
    obtain ⟨-, hb, rfl⟩ := hs
    exact .stay rfl rfl rfl (by simpa [appends] using hb) fun _ ht => .inl ht
  | yield =>
    simp only [next, threadYield, Option.ite_none_right_eq_some] at hs
    refine .of_schedule hs.2 rfl ?_ rfl rfl
    by_cases hi : s.idleThread = some s.current <;> simp [appends, State.setStatus, hi]
  | exit =>
    simp only [next, threadExit, Option.ite_none_right_eq_some] at hs
    exact .of_schedule hs.2 rfl (List.append_nil _).symm rfl rfl
  | down σ =>
    simp only [next, Option.ite_none_right_eq_some] at hs
    exact turn_semaDownPass rfl rfl hs.2
  | retest =>
    simp only [next] at hs
    split at hs
    · next σ hc => exact turn_semaDownPass (by simp [callsSchedule, hc]) rfl hs
    · simp at hs
  | tryDown σ =>
    simp only [next, guard_eq_some] at hs
    obtain ⟨-, rfl⟩ := hs
    exact .quiet rfl rfl rfl rfl fun _ ht => .inl ht
  | up σ =>
    simp only [next, Option.ite_none_right_eq_some] at hs
    exact turn_semaUp rfl rfl hs.2
  | setIdle =>
    simp only [next] at hs
    split at hs
    · cases hs
      exact .quiet rfl rfl rfl rfl fun _ ht => .inl ht
    · simp at hs
  | idleUp =>
    simp only [next] at hs
    split at hs
    · next σ hc => exact turn_semaUp rfl (by simp [appends, hc]) hs
    · simp at hs
  | idleBlock =>
    simp only [next, threadBlock, Option.ite_none_right_eq_some] at hs
    exact .of_schedule hs.2 rfl (List.append_nil _).symm rfl rfl

section Runs

variable {value : Nat → Nat} {es : List Event}

lemma exec_cons {e : Event}
    (h : (system value).exec s (e :: es) = some s') :
    ∃ u, next s e = some u ∧ (system value).exec u es = some s' :=
  Option.bind_eq_some_iff.mp h

lemma dispatches_front (h : (system value).exec s es = some s') {i t : Nat}
    (ht : s.readyList[i]? = some t) :
    if i < (dispatches s es).length then (dispatches s es)[i]? = some t
    else s'.readyList[i - (dispatches s es).length]? = some t := by
  induction es generalizing s i with
  | nil =>
    obtain rfl : s = s' := Option.some.inj h
    simpa [dispatches] using ht
  | cons e es ih =>
    obtain ⟨u, hn, hu⟩ := exec_cons h
    have hlt := (List.getElem?_eq_some_iff.mp ht).1
    have ht' : (s.readyList ++ appends s e)[i]? = some t := by
      rwa [List.getElem?_append_left hlt]
    simp only [dispatches, hn]
    cases turn_of_next hn with
    | stay hcall _ hlist _ _ =>
      simpa [hcall] using ih hu (hlist ▸ ht')
    | pop hcall hlist _ =>
      rw [hlist] at ht'
      cases i with
      | zero => simpa [hcall] using ht'
      | succ i => simpa [hcall] using ih hu (by simpa using ht')
    | idle _ hnil _ _ _ => simp [hnil] at ht'

lemma appended_suffix {l : List Nat} (h : (system value).exec s es = some s')
    (hl : s.readyList <:+ l) : s'.readyList <:+ l ++ appended s es := by
  induction es generalizing s l with
  | nil =>
    obtain rfl : s = s' := Option.some.inj h
    simpa [appended] using hl
  | cons e es ih =>
    obtain ⟨u, hn, hu⟩ := exec_cons h
    have hsuf : s.readyList ++ appends s e <:+ l ++ appends s e := by
      obtain ⟨pre, rfl⟩ := hl
      exact ⟨pre, (List.append_assoc _ _ _).symm⟩
    simp only [appended, hn, ← List.append_assoc]
    refine ih hu (List.IsSuffix.trans ?_ hsuf)
    cases turn_of_next hn with
    | stay _ _ hlist _ _ => exact hlist ▸ List.suffix_refl _
    | pop _ hlist _ => exact hlist ▸ List.suffix_cons _ _
    | idle _ _ hnil _ _ => exact hnil ▸ List.nil_suffix

lemma dispatches_first (hi : Inv s) (h : (system value).exec s es = some s')
    {i j t : Nat} (ht : s.readyList[i]? = some t) (hj : j < i) : (dispatches s es)[j]? ≠ some t := by
  intro hd
  have hlen : j < s.readyList.length := Nat.lt_trans hj (List.getElem?_eq_some_iff.mp ht).1
  have hfront := dispatches_front h (List.getElem?_eq_getElem hlen)
  rw [if_pos (List.getElem?_eq_some_iff.mp hd).1, hd] at hfront
  have heq : s.readyList[j]? = s.readyList[i]? := by
    rw [ht, hfront, List.getElem?_eq_getElem hlen]
  exact Nat.ne_of_lt hj ((List.getElem?_inj hlen hi.queues.ready_nodup).mp heq)

end Runs

section Cycle

variable (Y : Nat → Bool)

def OnlyYield : State → List Event → Prop
  | _, [] => True
  | s, e :: es => (Y s.current = true → callsSchedule s e = true → e = .yield) ∧
      ∀ s', next s e = some s' → OnlyYield s' es

def ring (s : State) : List Nat :=
  s.readyList.filter Y ++ if Y s.current then [s.current] else []

structure Awake (s : State) : Prop where
  inv : Inv s
  queued : ∀ t, Y t = true → t ∈ s.readyList ∨ t = s.current
  not_idle : ∀ t, Y t = true → s.idleTid ≠ some t

variable {Y} {t : Nat}

lemma Awake.idleThread_ne (h : Awake Y s) (ht : Y t = true) : s.idleThread ≠ some t := by
  intro he
  refine h.not_idle t ht (h.inv.queues.idle_unique t ?_)
  rcases (h.inv.queues.idle t he).2 with hc | ⟨σ, hc⟩ <;> simp [hc, Cont.isIdle]

lemma mem_appends (hcall : callsSchedule s e = true) (ht : t ∈ appends s e) :
    t = s.current := by
  cases e with
  | yield =>
    simp only [appends] at ht
    split at ht
    · simp at ht
    · exact List.mem_singleton.mp ht
  | block | exit | idleBlock | down _ | retest => simp [appends] at ht
  | create | start _ | unblock _ | tryDown _ | up _ | setIdle | idleUp =>
    simp [callsSchedule] at hcall

lemma Awake.ring_eq (h : Awake Y s) (hcall : callsSchedule s e = true)
    (hy : Y s.current = true → e = .yield) :
    ring Y s = (s.readyList ++ appends s e).filter Y := by
  rw [ring, List.filter_append]
  by_cases hc : Y s.current = true
  · obtain rfl := hy hc
    simp [appends, h.idleThread_ne hc, hc]
  · have hnone : (appends s e).filter Y = [] := by
      refine List.filter_eq_nil_iff.mpr fun t ht => ?_
      exact mem_appends hcall ht ▸ hc
    simp [hnone, hc]

lemma Awake.mem_queue (h : Awake Y s) (hy : Y s.current = true → e = .yield)
    (ht : Y t = true) : t ∈ s.readyList ++ appends s e := by
  rcases h.queued t ht with hr | rfl
  · exact List.mem_append_left _ hr
  · obtain rfl := hy ht
    simp [appends, h.idleThread_ne ht]

lemma Awake.not_blocked (h : Awake Y s) (ht : s.status t = some .blocked) :
    ¬ Y t = true := by
  intro hy
  rcases h.queued t hy with hr | rfl
  · simpa [ht] using ((h.inv.queues.ready t).mp hr).1
  · simp [h.inv.status_current] at ht

lemma Awake.next (h : Awake Y s)
    (hy : Y s.current = true → callsSchedule s e = true → e = .yield)
    (hs : next s e = some s') : Awake Y s' := by
  have hinv := inv_next h.inv e hs
  cases turn_of_next hs with
  | stay _ hcur hlist _ htid =>
    refine ⟨hinv, fun t ht => ?_, fun t ht he => ?_⟩
    · rw [hlist, hcur]
      exact (h.queued t ht).imp_left fun hr => List.mem_append_left _ hr
    · rcases htid t he with he | rfl
      · exact h.not_idle t ht he
      · have hfresh := (h.inv.queues.fresh s.created (Nat.le_refl _)).1
        rcases h.queued _ ht with hr | hr
        · simpa [hfresh] using ((h.inv.queues.ready _).mp hr).1
        · exact h.inv.current_ne_none (hr ▸ hfresh)
  | pop hcall hlist htid =>
    refine ⟨hinv, fun t ht => ?_, fun t ht => htid ▸ h.not_idle t ht⟩
    have hmem := h.mem_queue (e := e) (fun hc => hy hc hcall) ht
    rw [hlist] at hmem
    exact (List.mem_cons.mp hmem).symm
  | idle hcall hnil _ _ htid =>
    refine ⟨hinv, fun t ht => ?_, fun t ht => htid ▸ h.not_idle t ht⟩
    have hmem := h.mem_queue (e := e) (fun hc => hy hc hcall) ht
    simp [hnil] at hmem

lemma Awake.ring_next (h : Awake Y s)
    (hy : Y s.current = true → callsSchedule s e = true → e = .yield)
    (hs : Threads.next s e = some s') :
    if callsSchedule s e = true ∧ Y s'.current = true then
      ∃ rest, ring Y s = s'.current :: rest ∧ ring Y s' = rest ++ [s'.current]
    else ring Y s' = ring Y s := by
  cases turn_of_next hs with
  | stay hcall hcur hlist hblocked _ =>
    have hnone : (appends s e).filter Y = [] :=
      List.filter_eq_nil_iff.mpr fun t ht => h.not_blocked (hblocked t ht)
    rw [if_neg (by simp [hcall]), ring, ring, hcur, hlist, List.filter_append, hnone, List.append_nil]
  | pop hcall hlist _ =>
    have hring := h.ring_eq hcall fun hc => hy hc hcall
    rw [hlist] at hring
    by_cases hc : Y s'.current = true
    · rw [if_pos ⟨hcall, hc⟩]
      rw [List.filter_cons_of_pos hc] at hring
      exact ⟨_, hring, by rw [ring, if_pos hc]⟩
    · rw [if_neg fun hboth => hc hboth.2, hring, ring, List.filter_cons_of_neg hc, if_neg hc,
        List.append_nil]
  | idle hcall hnil hnil' hi _ =>
    have hring := h.ring_eq hcall fun hc => hy hc hcall
    have hc : ¬ Y s'.current = true := fun hc => h.idleThread_ne hc hi
    rw [if_neg fun hboth => hc hboth.2, hring, hnil, ring, hnil', if_neg hc]
    rfl

lemma ring_getElem {l rest : List Nat} {i : Nat} (hl : l = t :: rest) :
    (rest ++ [t])[i % (rest ++ [t]).length]? = l[(i + 1) % l.length]? := by
  subst hl
  have hrot : rest ++ [t] = (t :: rest).rotate 1 := by simp
  have hpos : 0 < (t :: rest).length := by simp
  rw [hrot, List.length_rotate, List.getElem?_rotate (Nat.mod_lt i hpos), Nat.mod_add_mod]

lemma Awake.cycle {value : Nat → Nat} (h : Awake Y s) {es : List Event}
    (hy : OnlyYield Y s es) (hrun : (system value).exec s es = some s') {i : Nat}
    (ht : ((dispatches s es).filter Y)[i]? = some t) :
    (ring Y s)[i % (ring Y s).length]? = some t := by
  induction es generalizing s i with
  | nil => simp [dispatches] at ht
  | cons e es ih =>
    obtain ⟨u, hn, hu⟩ := exec_cons hrun
    obtain ⟨hyield, hrest⟩ := hy
    have hstep := h.ring_next hyield hn
    have hnext := h.next hyield hn
    simp only [dispatches, hn, List.filter_append] at ht
    by_cases hd : callsSchedule s e = true ∧ Y u.current = true
    · rw [if_pos hd] at hstep
      obtain ⟨rest, hring, hring'⟩ := hstep
      simp only [hd.1, if_true, List.filter_cons_of_pos hd.2, List.filter_nil,
        List.singleton_append] at ht
      cases i with
      | zero => simpa [hring] using ht
      | succ i =>
        have hget := ih hnext (hrest u hn) hu (by simpa using ht)
        rwa [hring', ring_getElem hring] at hget
    · rw [if_neg hd] at hstep
      have hnone : (if callsSchedule s e then [u.current] else []).filter Y = [] := by
        by_cases hcall : callsSchedule s e = true
        · simpa [hcall] using fun hc => hd ⟨hcall, hc⟩
        · simp [hcall]
      rw [hnone, List.nil_append] at ht
      exact hstep ▸ ih hnext (hrest u hn) hu ht

end Cycle

/-- In every run `ready_list` is in the order of the appends; the calls of `schedule` take its threads
in that order, the thread with `k` ahead of it at the call number `k + 1`; and threads that only yield
are taken in turn. -/
theorem threads_take_turns {value : Nat → Nat} {past : List Event} {s : State}
    (h : (system value).exec (threadInit value) past = some s) :
    s.readyList <:+ appended (threadInit value) past ∧
    ∀ es s', (system value).exec s es = some s' →
      (∀ k t : Nat, s.readyList[k]? = some t →
        (k < (dispatches s es).length → (dispatches s es)[k]? = some t) ∧
        (∀ j < k, (dispatches s es)[j]? ≠ some t) ∧
        ((dispatches s es).length ≤ k → s'.readyList[k - (dispatches s es).length]? = some t)) ∧
      (∀ i j A B : Nat, s.readyList[i]? = some A → s.readyList[j]? = some B → i < j →
        ∀ n : Nat, (dispatches s es)[n]? = some B → ∃ m < n, (dispatches s es)[m]? = some A) ∧
      ∀ Y : Nat → Bool, (∀ t, Y t = true → (s.status t = some .ready ∨ s.status t = some .running) ∧
          s.idleTid ≠ some t) → OnlyYield Y s es →
        ∀ i t : Nat, ((dispatches s es).filter Y)[i]? = some t →
          (ring Y s)[i % (ring Y s).length]? = some t := by
  have hr : (system value).Reachable s := System.exec_reachable (.init rfl) h
  have hi := inv_reachable hr
  refine ⟨?_, fun es s' hrun => ⟨fun k t ht => ⟨fun hk => ?_, fun j hj => ?_, fun hk => ?_⟩,
    fun i j A B hA hB hij n hn => ?_, fun Y hY hyield i t ht => ?_⟩⟩
  · simpa using appended_suffix h (List.nil_suffix : (threadInit value).readyList <:+ [])
  · have hfront := dispatches_front hrun ht
    rwa [if_pos hk] at hfront
  · exact dispatches_first hi hrun ht hj
  · have hfront := dispatches_front hrun ht
    rwa [if_neg (Nat.not_lt.mpr hk)] at hfront
  · have hjn : j ≤ n := by
      by_contra hlt
      exact dispatches_first hi hrun hB (Nat.lt_of_not_le hlt) hn
    have hlen := (List.getElem?_eq_some_iff.mp hn).1
    have hfront := dispatches_front hrun hA
    rw [if_pos (by omega)] at hfront
    exact ⟨i, by omega, hfront⟩
  · refine Awake.cycle ⟨hi, fun u hu => ?_, fun u hu => (hY u hu).2⟩ hyield hrun ht
    rcases (hY u hu).1 with hst | hst
    · refine .inl ((hi.queues.ready u).mpr ⟨hst, fun he => (hY u hu).2 (hi.queues.idle_unique u ?_)⟩)
      rcases (hi.queues.idle u he).2 with hc | ⟨σ, hc⟩ <;> simp [hc, Cont.isIdle]
    · exact .inr ((hi.running u).mp hst)

theorem threads_take_turns_of_three :
    ∃ s s', (system fun _ => 0).exec (threadInit fun _ => 0)
        [.create, .unblock 1, .create, .unblock 2] = some s ∧
      (system fun _ => 0).exec s [.yield, .yield, .yield, .yield] = some s' ∧
      s.readyList[1]? = some 2 ∧ (dispatches s [.yield, .yield, .yield, .yield]).length = 4 ∧
      (dispatches s [.yield, .yield, .yield, .yield])[1]? = some 2 := by
  have hrun : (((system fun _ => 0).exec (threadInit fun _ => 0)
      [.create, .unblock 1, .create, .unblock 2]).map fun s =>
        ((system fun _ => 0).exec s [.yield, .yield, .yield, .yield]).isSome &&
        decide (s.readyList[1]? = some 2) &&
        decide ((dispatches s [.yield, .yield, .yield, .yield]).length = 4)) = some true := by
    decide
  obtain ⟨s, hs, hp⟩ := Option.map_eq_some_iff.mp hrun
  simp only [Bool.and_eq_true, decide_eq_true_eq, Option.isSome_iff_exists] at hp
  obtain ⟨⟨⟨s', hs'⟩, hready⟩, hlen⟩ := hp
  have hturn := ((threads_take_turns hs).2 _ s' hs').1 1 2 hready
  exact ⟨s, s', hs, hs', hready, hlen, hturn.1 (by omega)⟩

end Pintos.Threads
