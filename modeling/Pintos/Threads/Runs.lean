import Pintos.Threads.Queues

/-! Runs of the scheduler. -/

namespace Pintos.Threads

open Pintos.Foundation Pintos.Synch Function

lemma inv_threadInit (value : Nat → Nat) : Inv (threadInit value) := by
  have hst : ∀ t, (threadInit value).status t = if t = 0 then some .running else none := by
    intro t
    simp [threadInit, initialThread, update_apply]
  refine ⟨⟨fun t => ?_, List.nodup_nil, fun σ t ht => ?_, fun σ => List.nodup_nil, fun t ht => ?_,
    fun t ht => ?_, fun t σ ht => ?_, fun t ht => ?_⟩, fun t => ?_⟩
  · rw [hst]
    by_cases ht : t = 0 <;> simp [threadInit, ht]
  · simp [threadInit] at ht
  · simp [threadInit] at ht
  · simp [threadInit, Cont.isIdle] at ht
  · simp [threadInit] at ht
  · have hne : t ≠ 0 := by simp only [threadInit] at ht; omega
    exact ⟨by simp [hst, hne], rfl⟩
  · rw [hst]
    by_cases ht : t = 0 <;> simp [threadInit, initialThread, ht]

lemma inv_next {s s' : State} (h : Inv s) (e : Event) (hs : next s e = some s') : Inv s' := by
  cases e with
  | create =>
    simp only [next, guard_eq_some] at hs
    obtain ⟨-, rfl⟩ := hs
    exact h.threadCreate (i := s.idleTid) (fun _ he => he) (by simp [Cont.isIdle]) (by simp)
  | start σ =>
    simp only [next, guard_eq_some] at hs
    obtain ⟨⟨-, hnone⟩, rfl⟩ := hs
    refine h.threadCreate (by simp [hnone]) (fun _ => rfl) fun _ _ => ?_
    cases hi : s.idleThread with
    | none => rfl
    | some t =>
      have htid := h.queues.idle_unique t
      rcases (h.queues.idle t hi).2 with hl | ⟨τ, hu⟩
      · simp [hl, Cont.isIdle, hnone] at htid
      · simp [hu, Cont.isIdle, hnone] at htid
  | block =>
    simp only [next, Option.ite_none_right_eq_some] at hs
    exact h.park_blocked.schedule hs.2
  | unblock t =>
    simp only [next, Option.ite_none_right_eq_some] at hs
    obtain ⟨⟨-, ht, hi⟩, hs⟩ := hs
    refine h.unblock (fun σ hw => ?_) hi hs
    simp [(h.queues.waits σ t hw).2, Cont.interruptsOn] at ht
  | yield =>
    simp only [next, Option.ite_none_right_eq_some] at hs
    exact h.park_ready.schedule hs.2
  | exit =>
    simp only [next, Option.ite_none_right_eq_some] at hs
    exact (h.park_dying hs.1).schedule hs.2
  | down σ =>
    simp only [next, Option.ite_none_right_eq_some] at hs
    exact h.semaDownPass (by simp [hs.1, Cont.isIdle]) hs.2
  | retest =>
    simp only [next] at hs
    split at hs
    · next σ hc => exact h.semaDownPass (by simp [hc, Cont.isIdle]) hs
    · simp at hs
  | tryDown σ =>
    simp only [next, guard_eq_some] at hs
    obtain ⟨-, rfl⟩ := hs
    have hw : (semaTryDown (s.sema σ)).2.waiters = (s.sema σ).waiters := by
      unfold semaTryDown
      split <;> rfl
    exact ⟨h.queues.setSema (hw ▸ h.queues.waits_nodup σ) (hw ▸ h.queues.waits σ), h.running⟩
  | up σ =>
    simp only [next, Option.ite_none_right_eq_some] at hs
    exact h.semaUp hs.2
  | setIdle =>
    simp only [next] at hs
    split at hs
    · next σ hc =>
      cases hs
      exact h.setIdle hc
    · simp at hs
  | idleUp =>
    simp only [next] at hs
    split at hs
    · next σ hc => exact (h.enterLoop hc).semaUp hs
    · simp at hs
  | idleBlock =>
    simp only [next, Option.ite_none_right_eq_some] at hs
    exact h.park_blocked.schedule hs.2

lemma inv_reachable {value : Nat → Nat} {s : State} (h : (system value).Reachable s) : Inv s := by
  refine h.invariant (I := Inv) ?_ fun _ e _ hi hn => inv_next hi e hn
  rintro s rfl
  exact inv_threadInit value

/-- In every run one thread runs, a thread is in at most one list, its status tells in which, and no
list holds a thread that is dying or freed. -/
theorem one_list_per_thread {value : Nat → Nat} {s : State} (h : (system value).Reachable s) :
    (∀ t, s.status t = some .running ↔ t = s.current) ∧
    s.readyList.Nodup ∧
    (∀ t, s.idleThread ≠ some t → (t ∈ s.readyList ↔ s.status t = some .ready)) ∧
    (∀ σ, (s.sema σ).waiters.Nodup ∧ ∀ t ∈ (s.sema σ).waiters, s.status t = some .blocked ∧
      ∀ τ, t ∈ (s.sema τ).waiters → τ = σ) ∧
    (∀ t, s.idleThread = some t → t ∉ s.readyList) ∧
    ∀ t, s.status t = some .dying ∨ s.status t = none →
      t ∉ s.readyList ∧ ∀ σ, t ∉ (s.sema σ).waiters := by
  have hi := inv_reachable h
  refine ⟨hi.running, hi.queues.ready_nodup, fun t ht => ?_, fun σ => ⟨hi.queues.waits_nodup σ, ?_⟩,
    fun t ht hr => ((hi.queues.ready t).mp hr).2 ht, fun t ht => ⟨fun hr => ?_, fun σ hw => ?_⟩⟩
  · simpa [ht] using hi.queues.ready t
  · intro t ht
    obtain ⟨hb, hc⟩ := hi.queues.waits σ t ht
    refine ⟨hb, fun τ hτ => ?_⟩
    have hc' := (hi.queues.waits τ t hτ).2
    exact Cont.semaDown.inj (hc'.symm.trans hc)
  · have hst := ((hi.queues.ready t).mp hr).1
    simp [hst] at ht
  · have hst := (hi.queues.waits σ t hw).1
    simp [hst] at ht

theorem one_list_per_thread_after_start :
    ∃ s, (system fun _ => 0).Reachable s ∧ s.current = 0 ∧ s.idleThread = some 1 ∧
      s.readyList = [3] ∧ (s.sema 7).waiters = [2] ∧ s.status 2 = some .blocked ∧
      (3 ∈ s.readyList ↔ s.status 3 = some .ready) := by
  have hrun : (((system fun _ => 0).exec (threadInit fun _ => 0) [.start 0, .unblock 1, .down 0,
      .setIdle, .idleUp, .idleBlock, .retest, .create, .unblock 2, .yield, .down 7, .create,
      .unblock 3]).map fun s => decide (s.current = 0 ∧ s.idleThread = some 1 ∧
        s.readyList = [3] ∧ (s.sema 7).waiters = [2])) = some true := by
    decide
  obtain ⟨s, hr, hcur, hidle, hready, hwait⟩ := System.exists_reachable_of_exec rfl hrun
  have h := one_list_per_thread hr
  refine ⟨s, hr, hcur, hidle, hready, hwait, ?_, h.2.2.1 3 (by simp [hidle])⟩
  exact ((h.2.2.2.1 7).2 2 (by simp [hwait])).1

end Pintos.Threads
