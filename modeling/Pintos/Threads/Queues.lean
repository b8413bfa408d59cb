import Pintos.Threads.Scheduler

/-! A thread's list element is in at most one list, and its status says in which. -/

namespace Pintos.Threads

open Pintos.Foundation Pintos.Synch Function

variable {l : List Nat}

structure Queues (s : State) : Prop where
  ready : ∀ t, t ∈ s.readyList ↔ s.status t = some .ready ∧ s.idleThread ≠ some t
  ready_nodup : s.readyList.Nodup
  waits : ∀ σ, ∀ t ∈ (s.sema σ).waiters, s.status t = some .blocked ∧ s.cont t = .semaDown σ
  waits_nodup : ∀ σ, (s.sema σ).waiters.Nodup
  idle : ∀ t, s.idleThread = some t →
    (s.status t ≠ none ∧ s.status t ≠ some .dying) ∧
    (s.cont t = .idleLoop ∨ ∃ σ, s.cont t = .idleUp σ)
  idle_unique : ∀ t, (s.cont t).isIdle = true → s.idleTid = some t
  idle_start : ∀ t σ, s.cont t = .idleStart σ → s.idleThread = none
  fresh : ∀ t, s.created ≤ t → s.status t = none ∧ s.cont t = .body

structure Inv (s : State) : Prop where
  queues : Queues s
  running : ∀ t, s.status t = some .running ↔ t = s.current

structure Parked (s : State) : Prop where
  queues : Queues s
  parked : ∀ t, s.status t ≠ some .running

namespace Queues

variable {s : State} {t : Nat} (h : Queues s)

include h

lemma idle_ne_semaDown {σ : Nat} (hc : s.cont t = .semaDown σ) : s.idleThread ≠ some t := by
  intro he
  rcases (h.idle t he).2 with hl | ⟨τ, hu⟩
  · simp [hc] at hl
  · simp [hc] at hu

lemma not_idle_of_body (hc : s.cont t = .body) : s.idleThread ≠ some t := by
  intro he
  rcases (h.idle t he).2 with hl | ⟨τ, hu⟩
  · simp [hc] at hl
  · simp [hc] at hu

lemma not_waiting (ht : s.status t ≠ some .blocked) (σ : Nat) : t ∉ (s.sema σ).waiters :=
  fun hw => ht (h.waits σ t hw).1

lemma move {st : Option Status}
    (ht : s.status t ≠ none) (hw : ∀ σ, t ∉ (s.sema σ).waiters) (hnodup : l.Nodup)
    (hother : ∀ u, u ≠ t → (u ∈ l ↔ u ∈ s.readyList)) (hself : t ∈ l ↔ st = some .ready ∧ s.idleThread ≠ some t)
    (hidle : s.idleThread = some t → st ≠ none ∧ st ≠ some .dying) :
    Queues ({ s with readyList := l }.setStatus t st) where
  ready u := by
    by_cases hu : u = t
    · subst hu
      simpa [State.setStatus] using hself
    · simpa [State.setStatus, update_of_ne hu, hother u hu] using h.ready u
  ready_nodup := hnodup
  waits σ u hu := by
    have hne : u ≠ t := fun he => hw σ (he ▸ hu)
    simpa [State.setStatus, update_of_ne hne] using h.waits σ u hu
  waits_nodup := h.waits_nodup
  idle u hu := by
    refine ⟨?_, (h.idle u hu).2⟩
    by_cases hut : u = t
    · subst hut
      simpa [State.setStatus] using hidle hu
    · simpa [State.setStatus, update_of_ne hut] using (h.idle u hu).1
  idle_unique := h.idle_unique
  idle_start := h.idle_start
  fresh u hu := by
    have hne : u ≠ t := fun he => ht (h.fresh t (he ▸ hu)).1
    simpa [State.setStatus, update_of_ne hne] using h.fresh u hu

lemma setCont {c : Cont} (ht : s.status t ≠ none)
    (hw : ∀ σ, t ∉ (s.sema σ).waiters) (hunique : c.isIdle = true → s.idleTid = some t)
    (hidle : s.idleThread = some t → c = .idleLoop ∨ ∃ σ, c = .idleUp σ)
    (hstart : ∀ σ, c ≠ .idleStart σ) : Queues (s.setCont t c) where
  ready := h.ready
  ready_nodup := h.ready_nodup
  waits σ u hu := by
    have hne : u ≠ t := fun he => hw σ (he ▸ hu)
    simpa [State.setCont, update_of_ne hne] using h.waits σ u hu
  waits_nodup := h.waits_nodup
  idle u hu := by
    refine ⟨(h.idle u hu).1, ?_⟩
    by_cases hut : u = t
    · subst hut
      simpa [State.setCont] using hidle hu
    · simpa [State.setCont, update_of_ne hut] using (h.idle u hu).2
  idle_unique u hu := by
    by_cases hut : u = t
    · subst hut
      exact hunique (by simpa [State.setCont] using hu)
    · exact h.idle_unique u (by simpa [State.setCont, update_of_ne hut] using hu)
  idle_start u σ hu := by
    by_cases hut : u = t
    · subst hut
      exact (hstart σ (by simpa [State.setCont] using hu)).elim
    · exact h.idle_start u σ (by simpa [State.setCont, update_of_ne hut] using hu)
  fresh u hu := by
    have hne : u ≠ t := fun he => ht (h.fresh t (he ▸ hu)).1
    simpa [State.setCont, update_of_ne hne] using h.fresh u hu

lemma setSema {σ : Nat} {m : Semaphore Nat} (hnodup : m.waiters.Nodup)
    (hw : ∀ t ∈ m.waiters, s.status t = some .blocked ∧ s.cont t = .semaDown σ) : Queues (s.setSema σ m) where
  ready := h.ready
  ready_nodup := h.ready_nodup
  waits τ u hu := by
    by_cases hτ : τ = σ
    · subst hτ
      exact hw u (by simpa [State.setSema] using hu)
    · exact h.waits τ u (by simpa [State.setSema, update_of_ne hτ] using hu)
  waits_nodup τ := by
    by_cases hτ : τ = σ
    · subst hτ
      simpa [State.setSema] using hnodup
    · simpa [State.setSema, update_of_ne hτ] using h.waits_nodup τ
  idle := h.idle
  idle_unique := h.idle_unique
  idle_start := h.idle_start
  fresh := h.fresh

lemma setCurrent (t : Nat) : Queues { s with current := t } :=
  ⟨h.ready, h.ready_nodup, h.waits, h.waits_nodup, h.idle, h.idle_unique, h.idle_start, h.fresh⟩

end Queues

section Steps

variable {s s' : State} (h : Inv s)

include h

lemma Inv.status_current : s.status s.current = some .running :=
  (h.running s.current).mpr rfl

lemma Inv.current_ne_none : s.status s.current ≠ none := by
  simp [h.status_current]

lemma Inv.current_not_waiting (σ : Nat) : s.current ∉ (s.sema σ).waiters :=
  h.queues.not_waiting (by simp [h.status_current]) σ

lemma Inv.current_not_ready : s.current ∉ s.readyList := by
  intro hr
  have hst := ((h.queues.ready s.current).mp hr).1
  simp [h.status_current] at hst

lemma Inv.park {st : Status} (hst : st ≠ .running) (hnodup : l.Nodup)
    (hother : ∀ u, u ≠ s.current → (u ∈ l ↔ u ∈ s.readyList))
    (hself : s.current ∈ l ↔ st = .ready ∧ s.idleThread ≠ some s.current)
    (hidle : s.idleThread = some s.current → st ≠ .dying) :
    Parked ({ s with readyList := l }.setStatus s.current (some st)) where
  queues := h.queues.move h.current_ne_none h.current_not_waiting hnodup hother
    (by simpa using hself) (by simpa using hidle)
  parked u hu := by
    by_cases hut : u = s.current
    · subst hut
      simp only [State.setStatus, update_self, Option.some.injEq] at hu
      exact hst hu
    · simp only [State.setStatus, update_of_ne hut] at hu
      exact hut ((h.running u).mp hu)

lemma Inv.park_blocked : Parked (s.setStatus s.current (some .blocked)) :=
  h.park (by simp) h.queues.ready_nodup (fun _ _ => Iff.rfl) (by simpa using h.current_not_ready)
    (by simp)

lemma Inv.park_dying (hc : s.cont s.current = .body) : Parked (s.setStatus s.current (some .dying)) :=
  h.park (by simp) h.queues.ready_nodup (fun _ _ => Iff.rfl) (by simpa using h.current_not_ready)
    fun he => (h.queues.not_idle_of_body hc he).elim

lemma Inv.park_ready : Parked ({ s with
      readyList := if s.idleThread = some s.current then s.readyList
        else s.readyList ++ [s.current] }.setStatus s.current (some .ready)) := by
  have hr := h.current_not_ready
  by_cases hi : s.idleThread = some s.current
  · rw [if_pos hi]
    exact h.park (by simp) h.queues.ready_nodup (fun _ _ => Iff.rfl) (by simpa [hi] using hr) (by simp)
  · rw [if_neg hi]
    refine h.park (by simp) ?_ (fun u hu => ?_) (by simp [hi]) (by simp)
    · simpa using h.queues.ready_nodup.concat hr
    · simp [hu]

lemma Inv.free_dying {p : Nat} (hne : p ≠ s.current) :
    Inv (if s.status p = some .dying ∧ p ≠ initialThread then s.setStatus p none else s) := by
  by_cases hd : s.status p = some .dying ∧ p ≠ initialThread
  · rw [if_pos hd]
    have hni : s.idleThread ≠ some p := fun he => (h.queues.idle p he).1.2 hd.1
    have hnr : p ∉ s.readyList := by
      intro hr
      simpa [hd.1] using ((h.queues.ready p).mp hr).1
    refine ⟨h.queues.move (by simp [hd.1]) (h.queues.not_waiting (by simp [hd.1]))
      h.queues.ready_nodup (fun _ _ => Iff.rfl) (by simpa using hnr) fun he => (hni he).elim, ?_⟩
    intro u
    by_cases hu : u = p
    · subst hu
      simpa [State.setStatus] using hne
    · simpa [State.setStatus, update_of_ne hu] using h.running u
  · rw [if_neg hd]
    exact h

variable {t σ : Nat}

omit h in
lemma Parked.switch (h : Parked s) (ht : s.status t ≠ none)
    (hw : ∀ σ, t ∉ (s.sema σ).waiters) (hnodup : l.Nodup) (htl : t ∉ l)
    (hother : ∀ u, u ≠ t → (u ∈ l ↔ u ∈ s.readyList)) : Inv (threadScheduleTail { s with readyList := l, current := t }
      (if s.current = t then none else some s.current)) := by
  have hq : Queues ({ s with readyList := l }.setStatus t (some .running)) :=
    h.queues.move ht hw hnodup hother (by simpa using htl) (by simp)
  have hrun : ∀ u, update s.status t (some .running) u = some .running ↔ u = t := by
    intro u
    by_cases hu : u = t
    · simp [hu]
    · simpa [update_of_ne hu, hu] using h.parked u
  have h₁ : Inv ({ s with readyList := l, current := t }.setStatus t (some .running)) :=
    ⟨hq.setCurrent t, hrun⟩
  by_cases hcur : s.current = t
  · rw [if_pos hcur]
    exact h₁
  · rw [if_neg hcur]
    exact h₁.free_dying hcur

omit h in
lemma Parked.schedule (h : Parked s) (hs : schedule s = some s') : Inv s' := by
  cases hl : s.readyList with
  | nil =>
    simp only [Threads.schedule, nextThreadToRun, hl] at hs
    cases hi : s.idleThread with
    | none => simp [hi] at hs
    | some t =>
      simp only [hi, Option.some.injEq] at hs
      obtain ⟨⟨hne, -⟩, hc⟩ := h.queues.idle t hi
      have hw : ∀ σ, t ∉ (s.sema σ).waiters := fun σ ht =>
        h.queues.idle_ne_semaDown (h.queues.waits σ t ht).2 hi
      have htl : t ∉ s.readyList := fun hr => ((h.queues.ready t).mp hr).2 hi
      have hsw := h.switch hne hw h.queues.ready_nodup htl fun _ _ => Iff.rfl
      subst hs
      simpa only [hi] using hsw
  | cons t rest =>
    simp only [Threads.schedule, nextThreadToRun, hl, Option.some.injEq] at hs
    subst hs
    have hnodup := h.queues.ready_nodup
    rw [hl, List.nodup_cons] at hnodup
    have hst := ((h.queues.ready t).mp (hl ▸ List.mem_cons_self)).1
    apply h.switch (by simp [hst]) (h.queues.not_waiting (by simp [hst])) hnodup.2 hnodup.1
    intro u hu
    simp [hl, hu]

omit h in
lemma Queues.unblock (h : Queues s) (ht : s.status t = some .blocked)
    (hw : ∀ σ, t ∉ (s.sema σ).waiters) (hi : s.idleThread ≠ some t) :
    Queues ({ s with readyList := s.readyList ++ [t] }.setStatus t (some .ready)) := by
  have hr : t ∉ s.readyList := by
    intro hr
    simpa [ht] using ((h.ready t).mp hr).1
  refine h.move (by simp [ht]) hw ?_ (fun u hu => by simp [hu]) (by simp [hi])
    fun he => (hi he).elim
  simpa using h.ready_nodup.concat hr

lemma Inv.unblock (hw : ∀ σ, t ∉ (s.sema σ).waiters)
    (hi : s.idleThread ≠ some t) (hs : threadUnblock s t = some s') : Inv s' := by
  simp only [threadUnblock, guard_eq_some] at hs
  obtain ⟨ht, rfl⟩ := hs
  refine ⟨h.queues.unblock ht hw hi, fun u => ?_⟩
  by_cases hu : u = t
  · subst hu
    have hne : u ≠ s.current := by
      rintro rfl
      simp [h.status_current] at ht
    simpa [State.setStatus] using hne
  · simpa [State.setStatus, update_of_ne hu] using h.running u

lemma Inv.semaUp (hs : semaUp s σ = some s') : Inv s' := by
  cases hws : (s.sema σ).waiters with
  | nil =>
    simp only [Threads.semaUp, semaUp_nil _ hws, Option.some.injEq] at hs
    subst hs
    exact ⟨h.queues.setSema (by simp [hws]) (by simp [hws]), h.running⟩
  | cons t rest =>
    simp only [Threads.semaUp, semaUp_cons _ _ hws] at hs
    have hnodup := h.queues.waits_nodup σ
    rw [hws, List.nodup_cons] at hnodup
    have hold : ∀ u ∈ t :: rest, s.status u = some .blocked ∧ s.cont u = .semaDown σ :=
      fun u hu => h.queues.waits σ u (hws ▸ hu)
    have ht := hold t List.mem_cons_self
    have h₁ : Inv (s.setSema σ ⟨Kernel.wrap ((s.sema σ).value + 1), rest⟩) :=
      ⟨h.queues.setSema hnodup.2 fun u hu => hold u (List.mem_cons_of_mem _ hu), h.running⟩
    refine h₁.unblock (fun τ hτ => ?_) (h.queues.idle_ne_semaDown ht.2) hs
    -- `t` was in this wait list only, and once
    by_cases he : τ = σ
    · subst he
      exact hnodup.1 (by simpa [State.setSema] using hτ)
    · have hc := (h₁.queues.waits τ t hτ).2
      exact he (by simpa [State.setSema, ht.2] using hc.symm)

lemma Inv.setCont_current {c : Cont} (hi : c.isIdle = false)
    (hc : (s.cont s.current).isIdle = false) : Inv (s.setCont s.current c) := by
  refine ⟨h.queues.setCont h.current_ne_none h.current_not_waiting (by simp [hi]) ?_ ?_, h.running⟩
  · intro he
    rcases (h.queues.idle _ he).2 with hl | ⟨σ, hu⟩
    · simp [hl, Cont.isIdle] at hc
    · simp [hu, Cont.isIdle] at hc
  · rintro σ rfl
    simp [Cont.isIdle] at hi

lemma Inv.semaDownPass (hc : (s.cont s.current).isIdle = false) (hs : semaDownPass s σ = some s') : Inv s' := by
  by_cases hz : (s.sema σ).value = 0
  · simp only [Threads.semaDownPass, semaDown_zero _ _ hz, Bool.false_eq_true, if_false] at hs
    have h₁ := (h.setCont_current (c := .semaDown σ) rfl hc).park_blocked
    refine Parked.schedule ⟨h₁.queues.setSema ?_ fun t ht => ?_, h₁.parked⟩ hs
    · simpa using (h.queues.waits_nodup σ).concat (h.current_not_waiting σ)
    · rcases List.mem_append.mp ht with ht | ht
      · exact h₁.queues.waits σ t ht
      · obtain rfl := List.mem_singleton.mp ht
        exact ⟨update_self _ _ _, update_self _ _ _⟩
  · simp only [Threads.semaDownPass, semaDown_pos _ _ hz, if_true, Option.some.injEq] at hs
    subst hs
    have h₁ := h.setCont_current (c := .body) rfl hc
    exact ⟨h₁.queues.setSema (h.queues.waits_nodup σ) (h₁.queues.waits σ), h₁.running⟩

lemma Inv.threadCreate {c : Cont} {i : Option Nat} (htid : ∀ t, s.idleTid = some t → i = some t)
    (hidle : c.isIdle = true → i = some s.created) (hstart : ∀ σ, c = .idleStart σ → s.idleThread = none) :
    Inv { threadCreate s c with idleTid := i } := by
  have hnew := h.queues.fresh s.created (Nat.le_refl _)
  have hst : ∀ u, u ≠ s.created → update s.status s.created (some .blocked) u = s.status u :=
    fun u hu => update_of_ne hu _ _
  have hct : ∀ u, u ≠ s.created → update s.cont s.created c u = s.cont u :=
    fun u hu => update_of_ne hu _ _
  refine ⟨⟨fun t => ?_, h.queues.ready_nodup, fun σ t ht => ?_, h.queues.waits_nodup, fun t ht => ?_,
    fun t ht => ?_, fun t σ ht => ?_, fun t ht => ?_⟩, fun t => ?_⟩
  · by_cases hu : t = s.created
    · subst hu
      have hr := h.queues.ready s.created
      simpa [Threads.threadCreate, hnew.1] using hr
    · simpa [Threads.threadCreate, hst t hu] using h.queues.ready t
  · have hw := h.queues.waits σ t ht
    have hu : t ≠ s.created := fun he => by simp [he, hnew.1] at hw
    simpa [Threads.threadCreate, hst t hu, hct t hu] using hw
  · have hi := h.queues.idle t ht
    have hu : t ≠ s.created := fun he => by simp [he, hnew.1] at hi
    simpa [Threads.threadCreate, hst t hu, hct t hu] using hi
  · by_cases hu : t = s.created
    · subst hu
      exact hidle (by simpa [Threads.threadCreate] using ht)
    · exact htid t (h.queues.idle_unique t (by simpa [Threads.threadCreate, hct t hu] using ht))
  · by_cases hu : t = s.created
    · subst hu
      exact hstart σ (by simpa [Threads.threadCreate] using ht)
    · exact h.queues.idle_start t σ (by simpa [Threads.threadCreate, hct t hu] using ht)
  · simp only [Threads.threadCreate] at ht
    have hu : t ≠ s.created := by omega
    simpa [Threads.threadCreate, hst t hu, hct t hu] using h.queues.fresh t (by omega)
  · by_cases hu : t = s.created
    · subst hu
      have hne : s.created ≠ s.current := fun he => by simp [he, h.status_current] at hnew
      simpa [Threads.threadCreate] using hne
    · simpa [Threads.threadCreate, hst t hu] using h.running t

lemma Inv.setIdle (hc : s.cont s.current = .idleStart σ) :
    Inv ({ s with idleThread := some s.current }.setCont s.current (.idleUp σ)) := by
  have hnone := h.queues.idle_start _ _ hc
  have htid := h.queues.idle_unique s.current (by simp [hc, Cont.isIdle])
  have hct : ∀ u, u ≠ s.current → update s.cont s.current (.idleUp σ) u = s.cont u :=
    fun u hu => update_of_ne hu _ _
  refine ⟨⟨fun t => ?_, h.queues.ready_nodup, fun τ t ht => ?_, h.queues.waits_nodup, fun t ht => ?_,
    fun t ht => ?_, fun t τ ht => ?_, fun t ht => ?_⟩, h.running⟩
  · have hr := h.queues.ready t
    rw [hnone] at hr
    by_cases hu : t = s.current
    · subst hu
      simpa [State.setCont] using h.current_not_ready
    · simpa [State.setCont, Ne.symm hu] using hr
  · have hu : t ≠ s.current := fun he => h.current_not_waiting τ (he ▸ ht)
    simpa [State.setCont, hct t hu] using h.queues.waits τ t ht
  · obtain rfl : s.current = t := by simpa [State.setCont] using ht
    simp [State.setCont, h.status_current]
  · by_cases hu : t = s.current
    · exact hu ▸ htid
    · exact h.queues.idle_unique t (by simpa [State.setCont, hct t hu] using ht)
  · by_cases hu : t = s.current
    · simp [State.setCont, hu] at ht
    · have hstart : s.cont t = .idleStart τ := by simpa [State.setCont, hct t hu] using ht
      have htid' := h.queues.idle_unique t (by simp [hstart, Cont.isIdle])
      exact (hu (Option.some.inj (htid'.symm.trans htid))).elim
  · have hf := h.queues.fresh t ht
    have hu : t ≠ s.current := fun he => h.current_ne_none (he ▸ hf.1)
    simpa [State.setCont, hct t hu] using hf

lemma Inv.enterLoop (hc : s.cont s.current = .idleUp σ) : Inv (s.setCont s.current .idleLoop) :=
  ⟨h.queues.setCont h.current_ne_none h.current_not_waiting
    (fun _ => h.queues.idle_unique _ (by simp [hc, Cont.isIdle])) (fun _ => .inl rfl) (by simp),
    h.running⟩

end Steps

end Pintos.Threads
