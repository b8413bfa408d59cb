import Pintos.Synch.Condition

/-! Signals are neither lost nor doubled, and waiters leave in the order in which they came. -/

namespace Pintos.Synch

open Pintos.Foundation Function

variable {T : Type*} {st : Stage} {x y : CondUse T} {l : LockUse T}

def StageOk (x : CondUse T) (p : Phase) : Stage → Prop
  | .out => True
  | .waitRelease c => (p = .held ∨ p = .releasing ∨ p = .cleared) ∧ c < x.calls ∧ c ∉ x.passed
  | .waitDown c => p = .out ∧ c < x.calls ∧ c ∉ x.passed
  | .waitBlocked c => p = .out ∧ c < x.calls ∧ c ∉ x.passed ∧ c ∉ x.released
  | .waitWoken c => p = .out ∧ c < x.calls ∧ c ∉ x.passed ∧ c ∈ x.released
  | .waitAcquire c => (p = .out ∨ p = .acquiring ∨ p = .waiting ∨ p = .woken ∨ p = .got) ∧
      c < x.calls ∧ c ∈ x.passed
  | .signalUp c j => p = .held ∧ j.queue = j.done ++ c :: x.waiters ∧
      x.released = j.before ++ j.done ∧ x.removed = x.released ++ [c] ∧ (j.loop = false → j.done = [])
  | .broadcast j => p = .held ∧ j.loop = true ∧ j.queue = j.done ++ x.waiters ∧
      x.released = j.before ++ j.done

def Stage.isSignal : Stage → Bool
  | .signalUp _ _ => true
  | _ => false

structure CondInv (x : CondUse T) : Prop where
  lock : LockInv x.lock
  stages : ∀ t, StageOk x (x.lock.phase t) (x.stage t)
  unique : ∀ t u c, (x.stage t).call = some c → (x.stage u).call = some c → t = u
  order : x.removed ++ x.waiters = List.range x.calls
  settled : (∀ t, (x.stage t).isSignal = false) → x.removed = x.released
  value : ∀ c, (x.sema c).value ≤ 1 ∧ ((x.sema c).value = 1 ↔ c ∈ x.released ∧ c ∉ x.passed)
  blocked : ∀ c t, t ∈ (x.sema c).waiters ↔ x.stage t = .waitBlocked c
  blocked_nodup : ∀ c, (x.sema c).waiters.Nodup
  passed : x.passed.Nodup ∧ x.passed ⊆ x.released
  returned : x.returned ⊆ x.passed

def Stage.changes : Stage → Bool
  | .signalUp _ _ | .broadcast _ => true
  | _ => false

namespace CondInv

variable (h : CondInv x)

include h

lemma released_sublist : x.released.Sublist x.removed := by
  by_cases hs : ∀ t, (x.stage t).isSignal = false
  · rw [h.settled hs]
  · simp only [not_forall, Bool.not_eq_false] at hs
    obtain ⟨t, ht⟩ := hs
    have hok := h.stages t
    cases hst : x.stage t with
    | signalUp c j =>
      rw [hst] at hok
      rw [hok.2.2.2.1]
      exact List.sublist_append_left _ _
    | _ => simp [hst, Stage.isSignal] at ht

lemma removed_nodup : (x.removed ++ x.waiters).Nodup := by
  rw [h.order]
  exact List.nodup_range

lemma lt_of_mem_removed {c : Nat} (hc : c ∈ x.removed ++ x.waiters) : c < x.calls := by
  rw [h.order] at hc
  exact List.mem_range.mp hc

lemma fresh : x.calls ∉ x.released ∧ x.calls ∉ x.passed := by
  have hr : x.calls ∉ x.released := fun hc => by
    have hlt := h.lt_of_mem_removed (List.mem_append_left _ (h.released_sublist.subset hc))
    exact Nat.lt_irrefl _ hlt
  exact ⟨hr, fun hc => hr (h.passed.2 hc)⟩

lemma exclusive {t u : T} (ht : x.lock.phase t = .held) (hu : u ≠ t) : (x.stage u).changes = false := by
  by_contra hc
  have hok := h.stages u
  have hheld : x.lock.phase u = .held := by
    cases hst : x.stage u with
    | signalUp c j => exact (hst ▸ hok).1
    | broadcast j => exact (hst ▸ hok).1
    | _ => simp [hst, Stage.changes] at hc
  have hown := (h.lock.value_eq_zero (t := t) (by simp [ht, Phase.owns])).2 u
  exact hu (hown.mp (by simp [hheld, Phase.owns]))

lemma call_lt {u : T} {c : Nat} (hc : (x.stage u).call = some c) : c < x.calls := by
  have hok := h.stages u
  cases hst : x.stage u with
  | out | signalUp c' j | broadcast j => simp [hst, Stage.call] at hc
  | waitRelease c' | waitDown c' | waitBlocked c' | waitWoken c' | waitAcquire c' =>
    rw [hst] at hok hc
    obtain rfl := Option.some.inj hc
    exact hok.2.1

end CondInv

lemma StageOk.woken (h : StageOk x .waiting st) : StageOk x .woken st := by
  cases st with
  | out => trivial
  | waitAcquire c => exact ⟨by simp, h.2⟩
  | _ => simp [StageOk] at h

lemma StageOk.mono {p p' : Phase} (h : StageOk x p st) (hc : st.changes = true →
      y.waiters = x.waiters ∧ y.released = x.released ∧ y.removed = x.removed)
    (hcalls : x.calls ≤ y.calls) (hp : p' = p ∨ (p = .waiting ∧ p' = .woken))
    (hpassed : ∀ c, st.call = some c → (c ∈ y.passed ↔ c ∈ x.passed)) (hsub : x.released ⊆ y.released)
    (hreleased : ∀ c, st = .waitBlocked c → c ∈ y.released → c ∈ x.released) : StageOk y p' st := by
  have h : StageOk x p' st := by
    rcases hp with rfl | ⟨rfl, rfl⟩
    · exact h
    · exact h.woken
  cases st with
  | out => trivial
  | waitRelease c | waitDown c =>
    exact ⟨h.1, Nat.lt_of_lt_of_le h.2.1 hcalls, fun hin => h.2.2 ((hpassed c rfl).mp hin)⟩
  | waitBlocked c =>
    exact ⟨h.1, Nat.lt_of_lt_of_le h.2.1 hcalls, fun hin => h.2.2.1 ((hpassed c rfl).mp hin),
      fun hin => h.2.2.2 (hreleased c rfl hin)⟩
  | waitWoken c =>
    exact ⟨h.1, Nat.lt_of_lt_of_le h.2.1 hcalls, fun hin => h.2.2.1 ((hpassed c rfl).mp hin), hsub h.2.2.2⟩
  | waitAcquire c => exact ⟨h.1, Nat.lt_of_lt_of_le h.2.1 hcalls, (hpassed c rfl).mpr h.2.2⟩
  | signalUp c j =>
    obtain ⟨hw, hr, hm⟩ := hc rfl
    exact ⟨h.1, by rw [hw, hr, hm]; exact h.2⟩
  | broadcast j =>
    obtain ⟨hw, hr, hm⟩ := hc rfl
    exact ⟨h.1, by rw [hw, hr]; exact h.2⟩

lemma StageOk.keep {p p' : Phase} (h : StageOk x p st)
    (hc : st.changes = true → y.waiters = x.waiters ∧ y.removed = x.removed) (hcalls : x.calls ≤ y.calls)
    (hp : p' = p ∨ (p = .waiting ∧ p' = .woken)) (hpassed : y.passed = x.passed)
    (hr : y.released = x.released) : StageOk y p' st :=
  h.mono (fun hch => ⟨(hc hch).1, hr, (hc hch).2⟩) hcalls hp (fun _ _ => by rw [hpassed])
    (by rw [hr]; exact List.Subset.refl _) fun _ _ hd => hr ▸ hd

lemma CondInv.not_signal (h : CondInv x) {t u : T} (ht : x.lock.phase t = .held) (hu : u ≠ t) :
    (x.stage u).isSignal = false := by
  have hc := h.exclusive ht hu
  cases hst : x.stage u with
  | signalUp c j => simp [hst, Stage.changes] at hc
  | _ => rfl

variable [DecidableEq T]

namespace CondInv

variable {t : T} (h : CondInv x)

include h

lemma unique_update
    (hcall : ∀ c, st.call = some c → (x.stage t).call = some c ∨ ∀ u, (x.stage u).call ≠ some c)
    (u v : T) (c : Nat) (hu : (update x.stage t st u).call = some c)
    (hv : (update x.stage t st v).call = some c) : u = v := by
  by_cases hut : u = t
  · by_cases hvt : v = t
    · rw [hut, hvt]
    · subst hut
      rw [update_self] at hu
      rw [update_of_ne hvt] at hv
      rcases hcall c hu with ho | ho
      · exact h.unique u v c ho hv
      · exact (ho v hv).elim
  · rw [update_of_ne hut] at hu
    by_cases hvt : v = t
    · subst hvt
      rw [update_self] at hv
      rcases hcall c hv with ho | ho
      · exact h.unique u v c hu ho
      · exact (ho u hu).elim
    · rw [update_of_ne hvt] at hv
      exact h.unique u v c hu hv

omit h in
lemma stages_update {y : CondUse T} (hy : y.stage = update x.stage t st)
    (hself : StageOk y (y.lock.phase t) st)
    (hother : ∀ u, u ≠ t → StageOk y (y.lock.phase u) (x.stage u)) (u : T) :
    StageOk y (y.lock.phase u) (y.stage u) := by
  by_cases hu : u = t
  · rw [hu, hy, update_self]
    exact hself
  · rw [hy, update_of_ne hu]
    exact hother u hu

lemma settled_update (hsig : (x.stage t).isSignal = false)
    (hs : ∀ u, (update x.stage t st u).isSignal = false) : x.removed = x.released := by
  refine h.settled fun u => ?_
  by_cases hu : u = t
  · exact hu ▸ hsig
  · simpa [hu] using hs u

lemma blocked_update (c : Nat) (hb : x.stage t ≠ .waitBlocked c ∧ st ≠ .waitBlocked c) (u : T) :
    u ∈ (x.sema c).waiters ↔ update x.stage t st u = .waitBlocked c := by
  by_cases hu : u = t
  · subst hu
    simpa [hb.1, hb.2] using h.blocked c u
  · simpa [hu] using h.blocked c u

lemma go {r : List Nat} (hl : LockInv l) (hother : ∀ u, u ≠ t → l.phase u = x.lock.phase u ∨
      (x.lock.phase u = .waiting ∧ l.phase u = .woken))
    (hst : StageOk x (l.phase t) st) (hcall : ∀ c, st.call = some c → (x.stage t).call = some c)
    (hb : ∀ c, x.stage t ≠ .waitBlocked c ∧ st ≠ .waitBlocked c)
    (hsig : (x.stage t).isSignal = false ∧ st.isSignal = false) (hr : r ⊆ x.passed) :
    CondInv ({ x with lock := l, returned := r }.setStage t st) where
  lock := hl
  stages := stages_update rfl (hst.keep (fun _ => ⟨rfl, rfl⟩) le_rfl (.inl rfl) rfl rfl)
    fun u hu => (h.stages u).keep (fun _ => ⟨rfl, rfl⟩) le_rfl (hother u hu) rfl rfl
  unique := h.unique_update fun c hc => .inl (hcall c hc)
  order := h.order
  settled := h.settled_update hsig.1
  value := h.value
  blocked c := h.blocked_update c (hb c)
  blocked_nodup := h.blocked_nodup
  passed := h.passed
  returned := hr

lemma enqueue (ht : x.Holds t) : CondInv ({ x with
      sema := update x.sema x.calls ⟨0, []⟩
      waiters := x.waiters ++ [x.calls]
      calls := x.calls + 1 }.setStage t (.waitRelease x.calls)) := by
  obtain ⟨hout, hheld, -⟩ := ht
  obtain ⟨hnr, hnp⟩ := h.fresh
  have hnew : ∀ u, (x.stage u).call ≠ some x.calls := fun u hc =>
    Nat.lt_irrefl _ (h.call_lt hc)
  refine ⟨h.lock, stages_update rfl ⟨.inl hheld, Nat.lt_succ_self _, hnp⟩ fun u hu => ?_,
    h.unique_update fun c hc => .inr ?_, ?_, h.settled_update (by rw [hout]; rfl), fun c => ?_,
    fun c u => ?_, fun c => ?_, h.passed, h.returned⟩
  · refine (h.stages u).keep (fun hc => ?_) (Nat.le_succ _) (.inl rfl) rfl rfl
    simp [h.exclusive hheld hu] at hc
  · obtain rfl := Option.some.inj hc
    exact hnew
  · simp only [CondUse.setStage_removed, CondUse.setStage_waiters, CondUse.setStage_calls]
    rw [← List.append_assoc, h.order, List.range_succ]
  · by_cases hc : c = x.calls
    · subst hc
      simp [hnr]
    · simpa [hc] using h.value c
  · by_cases hu : u = t
    · subst hu
      have hold := h.blocked c u
      rw [hout] at hold
      by_cases hc : c = x.calls
      · simp [hc]
      · simpa [hc] using hold
    · by_cases hc : c = x.calls
      · subst hc
        have hne : x.stage u ≠ .waitBlocked x.calls := fun he => hnew u (by rw [he]; rfl)
        simpa [hu] using hne
      · simpa [hu, hc] using h.blocked c u
  · by_cases hc : c = x.calls
    · simp [hc]
    · simpa [hc] using h.blocked_nodup c

variable {j : Job} {c : Nat}

lemma pop (hheld : x.lock.phase t = .held) {rest : List Nat}
    (hw : x.waiters = c :: rest) (hout : (x.stage t).isSignal = false)
    (hcall : (x.stage t).call = none) (hq : j.queue = j.done ++ x.waiters)
    (hr : x.released = j.before ++ j.done) (hl : j.loop = false → j.done = []) :
    CondInv (x.pop t c rest j) := by
  have hsettled : x.removed = x.released := by
    refine h.settled fun u => ?_
    by_cases hu : u = t
    · exact hu ▸ hout
    · exact h.not_signal hheld hu
  have hnb : ∀ d, x.stage t ≠ .waitBlocked d := fun d he => by simp [he, Stage.call] at hcall
  refine ⟨h.lock, stages_update rfl ⟨hheld, hw ▸ hq, hr, by simp [CondUse.pop, hsettled], hl⟩ fun u hu => ?_,
    h.unique_update fun d hd => ?_, ?_, fun hs => ?_, h.value,
    fun d => h.blocked_update d ⟨hnb d, nofun⟩, h.blocked_nodup, h.passed, h.returned⟩
  · refine (h.stages u).keep (fun hc => ?_) le_rfl (.inl rfl) rfl rfl
    simp [h.exclusive hheld hu] at hc
  · simp [Stage.call] at hd
  · simp only [CondUse.pop, CondUse.setStage_removed, CondUse.setStage_waiters, CondUse.setStage_calls]
    rw [← h.order, hw, List.append_assoc]
    rfl
  · have ht := hs t
    simp [CondUse.pop, Stage.isSignal] at ht

lemma down (hst : x.stage t = .waitDown c ∨ x.stage t = .waitWoken c) : CondInv ({ x with
      sema := update x.sema c (semaDown (x.sema c) t).2
      passed := if (semaDown (x.sema c) t).1 then x.passed ++ [c] else x.passed }.setStage t
        (if (semaDown (x.sema c) t).1 then .waitAcquire c else .waitBlocked c)) := by
  have hok : x.lock.phase t = .out ∧ c < x.calls ∧ c ∉ x.passed := by
    have hs := h.stages t
    rcases hst with hst | hst
    · rw [hst] at hs
      exact hs
    · rw [hst] at hs
      exact ⟨hs.1, hs.2.1, hs.2.2.1⟩
  obtain ⟨hphase, hlt, hnp⟩ := hok
  have hcall : (x.stage t).call = some c := by rcases hst with hst | hst <;> rw [hst] <;> rfl
  have hsig : (x.stage t).isSignal = false := by rcases hst with hst | hst <;> rw [hst] <;> rfl
  have hnb : ∀ d, x.stage t ≠ .waitBlocked d := by
    intro d he
    rcases hst with hst | hst <;> simp [hst] at he
  have hother : ∀ u, u ≠ t → (x.stage u).call ≠ some c := fun u hu he => hu (h.unique u t c he hcall)
  by_cases hz : (x.sema c).value = 0
  · have hnr : c ∉ x.released := by
      intro hr
      have hone := (h.value c).2.mpr ⟨hr, hnp⟩
      simp [hz] at hone
    simp only [semaDown_zero _ _ hz, Bool.false_eq_true, if_false]
    refine ⟨h.lock, stages_update rfl ⟨hphase, hlt, hnp, hnr⟩ fun u hu => ?_,
      h.unique_update fun d hd => .inl (by rwa [hcall]), h.order, h.settled_update hsig, fun d => ?_,
      fun d u => ?_, fun d => ?_, h.passed, h.returned⟩
    · exact (h.stages u).keep (fun _ => ⟨rfl, rfl⟩) le_rfl (.inl rfl) rfl rfl
    · by_cases hd : d = c
      · subst hd
        simpa using h.value d
      · simpa [hd] using h.value d
    · by_cases hd : d = c
      · subst hd
        by_cases hu : u = t
        · simp [hu]
        · simpa [hu] using h.blocked d u
      · by_cases hu : u = t
        · subst hu
          simpa [hd, hnb d, Ne.symm hd] using h.blocked d u
        · simpa [hd, hu] using h.blocked d u
    · by_cases hd : d = c
      · subst hd
        have hni : t ∉ (x.sema d).waiters := fun hin => hnb d ((h.blocked d t).mp hin)
        simpa using (h.blocked_nodup d).concat hni
      · simpa [hd] using h.blocked_nodup d
  · have hone : (x.sema c).value = 1 := by
      have hle := (h.value c).1
      omega
    have hr : c ∈ x.released := ((h.value c).2.mp hone).1
    simp only [semaDown_pos _ _ hz, if_true]
    refine ⟨h.lock, stages_update rfl ⟨.inl hphase, hlt, by simp⟩ fun u hu => ?_,
      h.unique_update fun d hd => .inl (by rwa [hcall]), h.order, h.settled_update hsig, fun d => ?_,
      fun d u => ?_, fun d => ?_, ⟨?_, ?_⟩, ?_⟩
    · refine (h.stages u).mono (fun _ => ⟨rfl, rfl, rfl⟩) le_rfl (.inl rfl) (fun d hd => ?_)
        (List.Subset.refl _) fun _ _ hd => hd
      have hne : d ≠ c := fun he => hother u hu (he ▸ hd)
      simp [hne]
    · by_cases hd : d = c
      · subst hd
        simp [hone]
      · simpa [hd] using h.value d
    · have hb : u ∈ (update x.sema c { value := (x.sema c).value - 1, waiters := (x.sema c).waiters }
          d).waiters ↔ u ∈ (x.sema d).waiters := by
        by_cases hd : d = c
        · simp [hd]
        · simp [hd]
      have hacq : Stage.waitAcquire c ≠ .waitBlocked d := nofun
      exact hb.trans (h.blocked_update d ⟨hnb d, hacq⟩ u)
    · by_cases hd : d = c
      · subst hd
        simpa using h.blocked_nodup d
      · simpa [hd] using h.blocked_nodup d
    · simpa using h.passed.1.concat hnp
    · exact List.append_subset.mpr ⟨h.passed.2, by simpa using hr⟩
    · exact fun d hd => List.mem_append_left _ (h.returned hd)

lemma release (hst : x.stage t = .signalUp c j) {stage : T → Stage}
    (hself : stage t = if j.loop then .broadcast { j with done := j.done ++ [c] } else .out)
    (hwoken : ∀ u, x.stage u = .waitBlocked c → stage u = .waitWoken c)
    (hother : ∀ u, u ≠ t → x.stage u ≠ .waitBlocked c → stage u = x.stage u) : CondInv { x with
      sema := update x.sema c ⟨1, []⟩, released := x.released ++ [c], stage := stage } := by
  have hok := h.stages t
  rw [hst] at hok
  obtain ⟨hheld, hq, hr, hm, hl⟩ := hok
  have hnd := h.removed_nodup
  rw [hm] at hnd
  have hnr : c ∉ x.released := fun hin => by
    have hnd' := (List.nodup_append.mp hnd).1
    exact (List.nodup_append.mp hnd').2.2 c hin c (by simp) rfl
  have hlt : c < x.calls := h.lt_of_mem_removed (by simp [hm])
  have hnp : c ∉ x.passed := fun hin => hnr (h.passed.2 hin)
  have hcall : ∀ u d, (stage u).call = some d → (x.stage u).call = some d := by
    intro u d hd
    by_cases hu : u = t
    · rw [hu, hself] at hd
      split at hd <;> simp [Stage.call] at hd
    · by_cases hb : x.stage u = .waitBlocked c
      · rw [hwoken u hb] at hd
        rwa [hb]
      · rwa [hother u hu hb] at hd
  refine ⟨h.lock, fun u => ?_, fun u v d hu hv => h.unique u v d (hcall u d hu) (hcall v d hv),
    h.order, fun _ => hm, fun d => ?_, fun d u => ?_, fun d => ?_, ⟨h.passed.1, ?_⟩, h.returned⟩
  · by_cases hu : u = t
    · subst hu
      dsimp only
      rw [hself]
      cases hloop : j.loop with
      | false => trivial
      | true => exact ⟨hheld, rfl, by simp [hq], by simp [hr]⟩
    · have hs := h.stages u
      by_cases hb : x.stage u = .waitBlocked c
      · dsimp only
        rw [hwoken u hb]
        rw [hb] at hs
        exact ⟨hs.1, hlt, hnp, by simp⟩
      · dsimp only
        rw [hother u hu hb]
        refine hs.mono (fun hc => ?_) (Nat.le_refl _) (.inl rfl) (fun _ _ => Iff.rfl)
          (List.subset_append_left _ _) fun d hd hin => ?_
        · simp [h.exclusive hheld hu] at hc
        · have hne : d ≠ c := fun he => hb (he ▸ hd)
          simpa [hne] using hin
  · by_cases hd : d = c
    · subst hd
      simpa using hnp
    · simpa [hd] using h.value d
  · have hstage : stage u = .waitBlocked d ↔ x.stage u = .waitBlocked d ∧ d ≠ c := by
      by_cases hu : u = t
      · rw [hu, hself, hst]
        split <;> simp
      · by_cases hb : x.stage u = .waitBlocked c
        · rw [hwoken u hb, hb]
          simp [eq_comm]
        · rw [hother u hu hb]
          have hne : x.stage u = .waitBlocked d → d ≠ c := by
            rintro he rfl
            exact hb he
          exact (and_iff_left_of_imp hne).symm
    by_cases hd : d = c
    · subst hd
      simp [hstage]
    · simpa [hd, hstage] using h.blocked d u
  · by_cases hd : d = c
    · simp [hd]
    · simpa [hd] using h.blocked_nodup d
  · exact fun d hd => List.mem_append_left _ (h.passed.2 hd)

lemma up {y : CondUse T} (hst : x.stage t = .signalUp c j)
    (hy : condNext x (.up t) = some y) : CondInv y ∧ y.released = x.released ++ [c] ∧
      y.stage t = if j.loop then .broadcast { j with done := j.done ++ [c] } else .out := by
  have hok := h.stages t
  rw [hst] at hok
  obtain ⟨-, -, -, hm, -⟩ := hok
  have hnr : c ∉ x.released := fun hin => by
    have hnd := (List.nodup_append.mp h.removed_nodup).1
    rw [hm] at hnd
    exact (List.nodup_append.mp hnd).2.2 c hin c (by simp) rfl
  have hzero : (x.sema c).value = 0 := by
    have hv := h.value c
    have hne : (x.sema c).value ≠ 1 := fun he => hnr (hv.2.mp he).1
    omega
  have hone : Kernel.wrap ((x.sema c).value + 1) = 1 := by
    rw [hzero]
    rfl
  simp only [condNext, hst] at hy
  cases hw : (x.sema c).waiters with
  | nil =>
    simp only [semaUp_nil _ hw, hw, hone, Option.some.injEq] at hy
    subst hy
    refine ⟨h.release hst (update_self _ _ _) (fun u hu => ?_) fun u hu _ => update_of_ne hu _ _, rfl,
      update_self _ _ _⟩
    have hin := (h.blocked c u).mpr hu
    simp [hw] at hin
  | cons u rest =>
    have hu : x.stage u = .waitBlocked c := (h.blocked c u).mp (by simp [hw])
    have hut : u ≠ t := by
      rintro rfl
      simp [hst] at hu
    have honly : ∀ v, x.stage v = .waitBlocked c → v = u := fun v hv =>
      h.unique v u c (by rw [hv]; rfl) (by rw [hu]; rfl)
    obtain rfl : rest = [] := by
      cases rest with
      | nil => rfl
      | cons v rest =>
        have hv := honly v ((h.blocked c v).mp (by simp [hw]))
        have hnd := h.blocked_nodup c
        simp [hw, hv] at hnd
    simp only [semaUp_cons _ _ hw, hone, Option.some.injEq] at hy
    subst hy
    refine ⟨h.release hst ?_ (fun v hv => ?_) (fun v hv hb => ?_), rfl, ?_⟩
    · simp [Ne.symm hut]
    · simp [honly v hv]
    · have hvu : v ≠ u := fun he => hb (he ▸ hu)
      simp [hv, hvu]
    · simp [Ne.symm hut]

end CondInv

section LockSteps

variable {l' : LockUse T} {op : LockOp T}

lemma lockNext_other (h : lockNext l op = some l') (hl : LockInv l) {u : T} (hu : u ≠ op.thread) :
    l'.phase u = l.phase u ∨ (l.phase u = .waiting ∧ l'.phase u = .woken) := by
  cases op with
  | up t =>
    simp only [lockNext, guard_eq_some] at h
    obtain ⟨ht, rfl⟩ := h
    have hu : u ≠ t := hu
    cases hw : l.lock.semaphore.waiters with
    | nil => simp [semaUp_nil _ hw, LockUse.wake, hu]
    | cons v rest =>
      rw [semaUp_cons _ _ hw]
      by_cases hv : u = v
      · subst hv
        exact .inr ⟨hl.waits u (by simp [hw]), by simp [LockUse.wake]⟩
      · simp [LockUse.wake, hu, hv]
  | _ =>
    simp only [lockNext, guard_eq_some] at h
    obtain ⟨-, rfl⟩ := h
    exact .inl (update_of_ne hu _ _)

lemma phase_test (t : T) : (l.test t).phase t = .got ∨ (l.test t).phase t = .waiting := by
  by_cases hv : l.lock.semaphore.value = 0
  · simp [LockUse.test, semaDown_zero _ _ hv]
  · simp [LockUse.test, semaDown_pos _ _ hv]

lemma phase_up (hl : LockInv l) {t : T} (h : lockNext l (.up t) = some l') :
    l'.phase t = .out := by
  simp only [lockNext, guard_eq_some] at h
  obtain ⟨ht, rfl⟩ := h
  cases hw : l.lock.semaphore.waiters with
  | nil => simp [semaUp_nil _ hw, LockUse.wake]
  | cons v rest =>
    have hv := hl.waits v (by simp [hw])
    have hne : t ≠ v := by
      rintro rfl
      simp [ht] at hv
    simp [semaUp_cons _ _ hw, LockUse.wake, hne]

end LockSteps

namespace CondInv

lemma stay (h : CondInv x) {t : T} (hl : LockInv l) (hother : ∀ u, u ≠ t → l.phase u = x.lock.phase u ∨
      (x.lock.phase u = .waiting ∧ l.phase u = .woken))
    (hst : StageOk x (l.phase t) st) (hcall : st.call = (x.stage t).call)
    (hb : ∀ c, x.stage t ≠ .waitBlocked c ∧ st ≠ .waitBlocked c)
    (hsig : (x.stage t).isSignal = false ∧ st.isSignal = false) :
    CondInv ({ x with lock := l, returned := x.returned ++ [] }.setStage t st) :=
  h.go hl hother hst (fun _ hc => hcall ▸ hc) hb hsig (by simpa using h.returned)

lemma lockStep (h : CondInv x) {op : LockOp T}
    (hl : lockNext x.lock op = some l) (hs : lockStage (x.stage op.thread) op = some st) : CondInv ({ x with
      lock := l
      returned := x.returned ++ callReturned (x.stage op.thread) op }.setStage op.thread st) := by
  have hinv := lockInv_next h.lock op hl
  have hok := h.stages op.thread
  have hother := fun u (hu : u ≠ op.thread) => lockNext_other hl h.lock hu
  cases hst : x.stage op.thread with
  | out =>
    rw [hst] at hs
    obtain rfl := Option.some.inj hs
    exact h.go hinv hother trivial (by simp [Stage.call]) (by simp [hst]) (by simp [hst, Stage.isSignal])
      (by simpa [callReturned] using h.returned)
  | waitRelease c =>
    rw [hst] at hs hok
    obtain ⟨-, hlt, hnp⟩ := hok
    cases op with
    | release t | clear t =>
      obtain rfl := Option.some.inj hs
      simp only [lockNext, guard_eq_some] at hl
      obtain ⟨-, rfl⟩ := hl
      exact h.stay hinv hother ⟨by simp [LockOp.thread], hlt, hnp⟩ (congrArg Stage.call hst).symm (by simp [hst])
        (by simp [hst, Stage.isSignal])
    | up t =>
      obtain rfl := Option.some.inj hs
      exact h.stay hinv hother ⟨phase_up h.lock hl, hlt, hnp⟩ (congrArg Stage.call hst).symm (by simp [hst])
        (by simp [hst, Stage.isSignal])
    | _ => simp [lockStage] at hs
  | waitAcquire c =>
    rw [hst] at hs hok
    obtain ⟨-, hlt, hp⟩ := hok
    cases op with
    | acquire t =>
      obtain rfl := Option.some.inj hs
      simp only [lockNext, guard_eq_some] at hl
      obtain ⟨-, rfl⟩ := hl
      exact h.stay hinv hother ⟨by simp [LockOp.thread], hlt, hp⟩ (congrArg Stage.call hst).symm (by simp [hst])
        (by simp [hst, Stage.isSignal])
    | down t | retest t =>
      obtain rfl := Option.some.inj hs
      simp only [lockNext, guard_eq_some] at hl
      obtain ⟨-, rfl⟩ := hl
      refine h.stay hinv hother ⟨?_, hlt, hp⟩ (congrArg Stage.call hst).symm (by simp [hst])
        (by simp [hst, Stage.isSignal])
      rcases phase_test (l := x.lock) t with hg | hw
      · exact .inr (.inr (.inr (.inr hg)))
      · exact .inr (.inr (.inl hw))
    | setHolder t =>
      obtain rfl := Option.some.inj hs
      refine h.go hinv hother trivial (by simp [Stage.call]) (by simp [hst])
        (by simp [hst, Stage.isSignal]) ?_
      exact List.append_subset.mpr ⟨h.returned, by simpa [callReturned] using hp⟩
    | _ => simp [lockStage] at hs
  | _ => simp [hst, lockStage] at hs

lemma next (h : CondInv x) (op : CondOp T) (hy : condNext x op = some y) : CondInv y := by
  cases op with
  | lock op =>
    simp only [condNext] at hy
    split at hy
    · next l st hl hs =>
      cases hy
      exact h.lockStep hl hs
    · simp at hy
  | wait t =>
    simp only [condNext, guard_eq_some] at hy
    obtain ⟨ht, rfl⟩ := hy
    exact h.enqueue ht
  | down t =>
    simp only [condNext] at hy
    split at hy
    · next c hst =>
      cases hy
      exact h.down (.inl hst)
    · next c hst =>
      cases hy
      exact h.down (.inr hst)
    · simp at hy
  | signal t =>
    simp only [condNext, Option.ite_none_right_eq_some] at hy
    obtain ⟨⟨hout, hheld, -⟩, hy⟩ := hy
    split at hy
    · cases hy
      exact h
    · next c rest hw =>
      cases hy
      exact h.pop hheld hw (by simp [hout, Stage.isSignal]) (by simp [hout, Stage.call]) rfl (by simp)
        fun _ => rfl
  | broadcast t =>
    simp only [condNext, guard_eq_some] at hy
    obtain ⟨⟨hout, hheld, -⟩, rfl⟩ := hy
    exact h.go h.lock (fun _ _ => .inl rfl) ⟨hheld, rfl, rfl, by simp⟩ (by simp [Stage.call])
      (by simp [hout]) (by simp [hout, Stage.isSignal]) h.returned
  | loop t =>
    simp only [condNext] at hy
    split at hy
    · next j hst =>
      have hok := h.stages t
      rw [hst] at hok
      obtain ⟨hheld, hloop, hq, hr⟩ := hok
      split at hy
      · cases hy
        exact h.go h.lock (fun _ _ => .inl rfl) trivial (by simp [Stage.call]) (by simp [hst])
          (by simp [hst, Stage.isSignal]) h.returned
      · next c rest hw =>
        simp only [guard_eq_some] at hy
        obtain ⟨-, rfl⟩ := hy
        exact h.pop hheld hw (by simp [hst, Stage.isSignal]) (by simp [hst, Stage.call]) hq hr
          (by simp [hloop])
    · simp at hy
  | up t =>
    cases hst : x.stage t with
    | signalUp c j => exact (h.up hst hy).1
    | _ => simp [condNext, hst] at hy

end CondInv

end Pintos.Synch
