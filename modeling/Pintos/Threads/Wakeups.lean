import Pintos.Threads.Runs

/-! No wake-up of a waiter is lost. -/

namespace Pintos.Threads

open Pintos.Foundation Pintos.Synch Function

/-- While threads wait, the value is no more than the number of threads of `l` that are about to test it. -/
def Kept (σ : Nat) (s : State) (l : List Nat) : Prop :=
  (s.sema σ).waiters ≠ [] → (s.sema σ).value ≤ l.countP fun t => s.cont t = .semaDown σ

variable {σ τ t : Nat} {s s' : State} {l l' : List Nat}

lemma Kept.mono (h : Kept σ s l) (hsema : s'.sema σ = s.sema σ)
    (hcont : ∀ t ∈ l, s.cont t = .semaDown σ → s'.cont t = .semaDown σ) (hl : l.Sublist l') : Kept σ s' l' := by
  intro hne
  rw [hsema] at hne ⊢
  refine Nat.le_trans (h hne) (Nat.le_trans (List.countP_mono_left fun t ht hc => ?_) hl.countP_le)
  simpa using hcont t ht (by simpa using hc)

lemma Kept.setSema (h : Kept σ s l) (hτ : τ ≠ σ) (x : Semaphore Nat) : Kept σ (s.setSema τ x) l :=
  h.mono (update_of_ne hτ.symm _ _) (fun _ _ hc => hc) (.refl _)

lemma Kept.update_cont {c : Cont} (h : Kept σ s l) (ht : s.cont t ≠ .semaDown σ) (hsema : s'.sema σ = s.sema σ)
    (hcont : s'.cont = update s.cont t c) (hl : l.Sublist l') : Kept σ s' l' := by
  refine h.mono hsema (fun u _ hu => ?_) hl
  have hne : u ≠ t := by
    rintro rfl
    exact ht hu
  rw [hcont, update_of_ne hne, hu]

lemma Kept.tail (h : Kept σ s (t :: l)) (ht : s.cont t ≠ .semaDown σ) : Kept σ s l := by
  intro hne
  have hle := h hne
  rwa [List.countP_cons_of_neg (by simpa using ht)] at hle

lemma schedule_frame (h : schedule s = some s') :
    s'.sema = s.sema ∧ s'.cont = s.cont ∧ s.readyList.Sublist (s'.current :: s'.readyList) := by
  have hnext : s'.sema = s.sema ∧ s'.cont = s.cont ∧
      (s.readyList = [] ∨ s.readyList = s'.current :: s'.readyList) := by
    unfold schedule nextThreadToRun threadScheduleTail at h
    grind [State.setStatus]
  refine ⟨hnext.1, hnext.2.1, ?_⟩
  rcases hnext.2.2 with he | he
  · rw [he]
    exact List.nil_sublist _
  · rw [← he]

lemma Kept.schedule (h : Kept σ s l) (hl : l.Sublist s.readyList) (hs : schedule s = some s') :
    Kept σ s' (s'.current :: s'.readyList) := by
  obtain ⟨hsema, hcont, hready⟩ := schedule_frame hs
  exact h.mono (by rw [hsema]) (fun t _ hc => by rw [hcont, hc]) (hl.trans hready)

lemma Kept.unblock (h : Kept σ s l) (hl : l.Sublist (s.current :: s.readyList ++ [t]))
    (hs : threadUnblock s t = some s') : Kept σ s' (s'.current :: s'.readyList) := by
  simp only [threadUnblock, guard_eq_some] at hs
  obtain ⟨-, rfl⟩ := hs
  exact h.mono rfl (fun _ _ hc => hc) hl

section Steps

variable (hi : Inv s) (h : Kept σ s (s.current :: s.readyList))

include hi h

lemma Kept.semaUp (hs : semaUp s τ = some s') : Kept σ s' (s'.current :: s'.readyList) := by
  cases hw : (s.sema τ).waiters with
  | nil =>
    simp only [Threads.semaUp, semaUp_nil _ hw, Option.some.injEq] at hs
    subst hs
    by_cases hτ : τ = σ
    · subst hτ
      exact fun hne => absurd (by simp [State.setSema, hw]) hne
    · exact h.setSema hτ _
  | cons t rest =>
    simp only [Threads.semaUp, semaUp_cons _ _ hw] at hs
    by_cases hτ : τ = σ
    · subst hτ
      refine Kept.unblock (fun _ => ?_) (.refl _) hs
      have ht := (hi.queues.waits τ t (by simp [hw])).2
      have hle := h (by simp [hw])
      rw [List.countP_append]
      simp only [State.setSema, update_self, List.countP_singleton, ht, decide_true, if_true]
      exact Nat.le_trans (Nat.mod_le _ _) (Nat.succ_le_succ hle)
    · exact (h.setSema hτ _).unblock (List.sublist_append_left _ _) hs

omit hi in
lemma Kept.passed (hc : ∀ ρ, s.cont s.current = .semaDown ρ → ρ = τ) :
    Kept σ (s.setSema τ (semaDown (s.sema τ) s.current).2) s.readyList := by
  by_cases hτ : τ = σ
  · subst hτ
    intro hne
    simp only [State.setSema, update_self] at hne ⊢
    by_cases hz : (s.sema τ).value = 0
    · simp [semaDown_zero _ s.current hz, hz]
    · rw [semaDown_pos _ s.current hz] at hne ⊢
      have hle := h hne
      rw [List.countP_cons] at hle
      refine Nat.sub_le_of_le_add (Nat.le_trans hle (Nat.add_le_add_left ?_ _))
      split <;> decide
  · have hleave := h.tail fun he => hτ (hc σ he).symm
    exact hleave.setSema hτ _

lemma Kept.semaDownPass (hc : ∀ ρ, s.cont s.current = .semaDown ρ → ρ = τ) (hs : semaDownPass s τ = some s') :
    Kept σ s' (s'.current :: s'.readyList) := by
  have hset : ∀ c, Kept σ ((s.setSema τ (semaDown (s.sema τ) s.current).2).setCont s.current c) s.readyList := by
    intro c
    refine (h.passed hc).mono rfl (fun t ht hct => ?_) (.refl _)
    have hne : t ≠ s.current := fun he => hi.current_not_ready (he ▸ ht)
    exact (update_of_ne hne _ _).trans hct
  unfold Threads.semaDownPass at hs
  dsimp only at hs
  split at hs
  · cases hs
    exact (hset .body).mono rfl (fun _ _ hc => hc) (List.sublist_cons_self _ _)
  · refine Kept.schedule ?_ (.refl _) hs
    exact hset (.semaDown τ)

lemma Kept.next (e : Event) (hs : next s e = some s') : Kept σ s' (s'.current :: s'.readyList) := by
  cases e with
  | create | start τ =>
    simp only [Threads.next, guard_eq_some] at hs
    obtain ⟨-, rfl⟩ := hs
    exact h.update_cont (by simp [(hi.queues.fresh s.created (Nat.le_refl _)).2]) rfl rfl (.refl _)
  | block | exit | idleBlock =>
    simp only [Threads.next, threadBlock, threadExit, Option.ite_none_right_eq_some] at hs
    have hleave := h.tail (by simp [hs.1])
    refine Kept.schedule ?_ (.refl _) hs.2
    exact hleave
  | yield =>
    simp only [Threads.next, threadYield, Option.ite_none_right_eq_some] at hs
    obtain ⟨hc, hs⟩ := hs
    have hleave := h.tail fun he => by simp [he, Cont.interruptsOn] at hc
    have hlist : s.readyList.Sublist (if s.idleThread = some s.current then s.readyList
        else s.readyList ++ [s.current]) := by
      split
      · exact .refl _
      · exact List.sublist_append_left _ _
    refine Kept.schedule ?_ hlist hs
    exact hleave
  | unblock t =>
    simp only [Threads.next, Option.ite_none_right_eq_some] at hs
    exact h.unblock (List.sublist_append_left _ _) hs.2
  | down τ =>
    simp only [Threads.next, Option.ite_none_right_eq_some] at hs
    exact h.semaDownPass hi (by simp [hs.1]) hs.2
  | retest =>
    simp only [Threads.next] at hs
    split at hs
    · next τ hc => exact h.semaDownPass hi (by simp [hc]) hs
    · simp at hs
  | tryDown τ =>
    simp only [Threads.next, guard_eq_some] at hs
    obtain ⟨-, rfl⟩ := hs
    by_cases hτ : τ = σ
    · subst hτ
      have hless : (semaTryDown (s.sema τ)).2.value ≤ (s.sema τ).value ∧
          (semaTryDown (s.sema τ)).2.waiters = (s.sema τ).waiters := by
        unfold semaTryDown
        split <;> simp
      intro hne
      simp only [State.setSema, update_self, hless.2] at hne ⊢
      exact Nat.le_trans hless.1 (h hne)
    · exact h.setSema hτ _
  | up τ =>
    simp only [Threads.next, Option.ite_none_right_eq_some] at hs
    exact h.semaUp hi hs.2
  | setIdle =>
    simp only [Threads.next] at hs
    split at hs
    · next τ hc =>
      cases hs
      exact h.update_cont (by simp [hc]) rfl rfl (.refl _)
    · simp at hs
  | idleUp =>
    simp only [Threads.next] at hs
    split at hs
    · next τ hc =>
      have h' : Kept σ (s.setCont s.current .idleLoop) (s.current :: s.readyList) :=
        h.update_cont (by simp [hc]) rfl rfl (.refl _)
      exact h'.semaUp (hi.enterLoop hc) hs
    · simp at hs

end Steps

/-- In any run, as long as threads wait for a semaphore, the value is at most the number of threads that can run
and are about to test it again. -/
theorem wakeups_kept {value : Nat → Nat} {s : State} (h : (system value).Reachable s) (σ : Nat)
    (hne : (s.sema σ).waiters ≠ []) :
    (s.sema σ).value ≤ (s.current :: s.readyList).countP fun t => s.cont t = .semaDown σ := by
  have hkept : Inv s ∧ Kept σ s (s.current :: s.readyList) := by
    refine h.invariant (I := fun s => Inv s ∧ Kept σ s (s.current :: s.readyList)) ?_ fun s e s' hi hs =>
      ⟨inv_next hi.1 e hs, hi.2.next hi.1 e hs⟩
    rintro s rfl
    exact ⟨inv_threadInit value, fun hne => absurd rfl hne⟩
  exact hkept.2 hne

theorem wakeups_kept_two_waiters : ∃ s, (system fun _ => 0).Reachable s ∧ (s.sema 7).waiters = [3] ∧
    (s.sema 7).value = 1 ∧ (s.sema 7).value ≤ (s.current :: s.readyList).countP fun t => s.cont t = .semaDown 7 := by
  have hrun : (((system fun _ => 0).exec (threadInit fun _ => 0) [.create, .unblock 1, .create, .unblock 2, .create,
      .unblock 3, .yield, .yield, .down 7, .down 7, .up 7]).map fun s =>
        decide ((s.sema 7).waiters = [3] ∧ (s.sema 7).value = 1)) = some true := by
    decide
  obtain ⟨s, hr, hwait, hvalue⟩ := System.exists_reachable_of_exec rfl hrun
  exact ⟨s, hr, hwait, hvalue, wakeups_kept hr 7 (by simp [hwait])⟩

end Pintos.Threads
