import Pintos.Userprog.Steps

/-! `process_wait` on a child: no run of it ever returns. -/

namespace Pintos.Userprog

open Pintos.Foundation Pintos.Synch Function

variable {s t : State} {p c : Nat}

def InWait (s : State) (p c : Nat) : Prop :=
  c ∈ s.childList p ∧ (s.loc p).work = some (.wait (s.tid c))

def State.Destroyed (s : State) (c : Nat) (how : Leaving) : Prop :=
  s.loc c = .exited how ∧ s.freed c = true

structure WaitContract (s : State) (p c : Nat) : Prop where
  awake : ∀ t, system.Leads s t → ¬ (t.freed c = true ∧ t.loc p = .blocked .wait (s.tid c) c)
  first : ∀ how, s.Destroyed c how → ∃ t, system.Leads s t ∧
    t.loc p = .returned (.wait (s.tid c) (some c) how.status)
  later : ∀ t u ok value, system.Leads s t →
    t.loc p = .returned (.wait (s.tid c) (some c) value) → go t p ok = some u →
      ∀ v, system.Leads u v → v.loc p ≠ .blocked .wait (s.tid c) c ∧
        ∀ child w, v.loc p = .returned (.wait (s.tid c) child w) → w = -1

lemma Loc.eq_of_work_wait {l : Loc} {tid : Int} (hl : l.work = some (.wait tid)) :
    (∃ rest, l = .find .wait tid rest) ∨ (∃ c, l = .down .wait tid c) ∨
      (∃ c, l = .blocked .wait tid c) ∨ (∃ c, l = .unlink tid c) ∨ (∃ c, l = .readStatus tid c) ∨
      (∃ c st, l = .upDestroy tid c st) ∨ ∃ d, l = .fault (some (.wait tid)) d := by
  cases l with
  | execute u _ | create u _ | link u _ _ => cases u <;> simp [Loc.work, Starter.work] at hl
  | find f k _ | down f k _ | blocked f k _ => cases f <;> simp_all [Loc.work, Finder.work]
  | unlink k c | readStatus k c | upDestroy k c st | fault w d => simp_all [Loc.work]
  | _ => simp [Loc.work] at hl

lemma Inv.wait_cases (h : Inv s) (hw : InWait s p c) :
    (∃ rest, s.loc p = .find .wait (s.tid c) rest ∧ rest ⊆ s.childList p ∧ c ∈ rest) ∨
      s.loc p = .down .wait (s.tid c) c ∨ s.loc p = .blocked .wait (s.tid c) c ∨
      ∃ d, s.loc p = .fault (some (.wait (s.tid c))) d := by
  have hok := h.loc p
  have heq : ∀ d ∈ s.childList p, s.tid d = s.tid c → d = c :=
    fun d hd ht => h.inj d (h.child p d hd) c (h.child p c hw.1) ht
  rcases Loc.eq_of_work_wait hw.2 with ⟨rest, hl⟩ | ⟨d, hl⟩ | ⟨d, hl⟩ | ⟨d, hl⟩ | ⟨d, hl⟩ |
    ⟨d, st, hl⟩ | ⟨d, hl⟩
  · rw [hl] at hok
    exact Or.inl ⟨rest, hl, hok.1, hok.2.1 c hw.1 rfl⟩
  · rw [hl] at hok
    exact Or.inr (Or.inl (heq d hok.1 hok.2 ▸ hl))
  · rw [hl] at hok
    exact Or.inr (Or.inr (Or.inl (heq d hok.1 hok.2 ▸ hl)))
  · rw [hl] at hok
    exact hok.elim
  · rw [hl] at hok
    exact hok.elim
  · rw [hl] at hok
    exact hok.elim
  · exact Or.inr (Or.inr (Or.inr ⟨d, hl⟩))

lemma touch_work (ds : List Nat) {w : Option Work} (hs : (s.loc p).work = w)
    (ht : (t.loc p).work = w) : ((s.touch p ds t).loc p).work = w := by
  rcases s.touch_cases t p ds with ⟨d, -, -, he⟩ | ⟨-, he⟩
  · rw [he, State.setLoc_loc, update_self]
    exact hs
  · rw [he]
    exact ht

lemma Inv.wait_go (h : Inv s) (hw : InWait s p c) {ok : Bool} (hs : Userprog.go s p ok = some t) :
    (t.loc p).work = some (.wait (s.tid c)) := by
  rcases h.wait_cases hw with ⟨rest, hl, -, hmem⟩ | hl | hl | ⟨d, hl⟩
  · simp only [Userprog.go, hl, Option.some.injEq] at hs
    subst hs
    cases rest with
    | nil => exact absurd hmem List.not_mem_nil
    | cons d rest =>
      refine touch_work [d] hw.2 ?_
      rw [State.setLoc_loc, update_self]
      split_ifs
      · rfl
      · rfl
  · have hz : (Finder.wait.sema (s.thread c)).value = 0 := h.wait c
    simp only [Userprog.go, hl, Option.some.injEq] at hs
    subst hs
    refine touch_work [c] hw.2 ?_
    rw [State.setLoc_loc, update_self, semaDown_zero _ p hz]
    rfl
  · simp [Userprog.go, hl] at hs
  · simp [Userprog.go, hl] at hs

lemma Inv.inWait_next (h : Inv s) (hw : InWait s p c) {e : Event} (hs : next s e = some t) :
    InWait t p c := by
  have hf := frame_next h hs
  have htid : t.tid c = s.tid c := hf.tid c (h.child p c hw.1)
  refine ⟨hf.grow p hw.1, ?_⟩
  rw [htid]
  by_cases hp : p = e.thread
  · cases e with
    | call q r =>
      change p = q at hp
      subst hp
      exact absurd hw.2 (by simp [loc_of_call hs, Loc.work])
    | go q ok =>
      change p = q at hp
      subst hp
      exact h.wait_go hw hs
  · rw [hf.work p hp]
    exact hw.2

lemma inWait_leads (hs : system.Reachable s) (hw : InWait s p c) (hl : system.Leads s t) :
    InWait t p c ∧ t.tid c = s.tid c := by
  induction hl with
  | refl => exact ⟨hw, rfl⟩
  | tail hl hn ih =>
    have h := inv_reachable (hs.leads hl)
    refine ⟨h.inWait_next ih.1 hn, ?_⟩
    exact ((frame_next h hn).tid c (h.child p c ih.1.1)).trans ih.2

lemma leads_go {ok : Bool} (hs : go s p ok = some t) : system.Leads s t :=
  System.Leads.tail (a := Event.go p ok) .refl hs

lemma find_faults {rest : List Nat} {tid : Int} (hp : s.loc p = .find .wait tid rest)
    (hc : c ∈ rest) (hfreed : s.freed c = true) (htid : ∀ d ∈ rest, s.tid d = tid → s.freed d = true) :
    ∃ t d, system.Leads s t ∧ t.loc p = .fault (some (.wait tid)) d := by
  induction rest generalizing s with
  | nil => exact absurd hc List.not_mem_nil
  | cons a rest ih =>
    have hgo : go s p true = some (threadGetChild s p .wait tid (a :: rest)) := by simp only [go, hp]
    by_cases ha : s.freed a = true
    · refine ⟨_, a, leads_go hgo, ?_⟩
      simp [threadGetChild, State.touch, ha, hp, Loc.work, Finder.work]
    · have hne : s.tid a ≠ tid := fun e => ha (htid a List.mem_cons_self e)
      have hnext : threadGetChild s p .wait tid (a :: rest) = s.setLoc p (.find .wait tid rest) := by
        simp [threadGetChild, State.touch, ha, hne]
      have hca : c ∈ rest := (List.mem_cons.mp hc).resolve_left fun e => ha (e ▸ hfreed)
      obtain ⟨t, d, hl, ht⟩ := ih (s := s.setLoc p (.find .wait tid rest)) (by simp) hca hfreed
        fun d hd => htid d (List.mem_cons_of_mem a hd)
      rw [hnext] at hgo
      exact ⟨t, d, hl.head (a := Event.go p true) hgo, ht⟩

/-- A call of `process_wait` on a child that has been destroyed breaks its contract, whatever way the
child left and whichever of the two was first: the caller stays inside the call, blocked on the child's
semaphore or on its way to using the freed struct. -/
theorem process_wait_never_answers {how : Leaving} (hs : system.Reachable s) (hw : InWait s p c)
    (hc : s.Destroyed c how) :
    ¬ WaitContract s p c ∧ (∀ t, system.Leads s t → InWait t p c) ∧
      (s.loc p = .blocked .wait (s.tid c) c ∨
        ∃ t d, system.Leads s t ∧ t.loc p = .fault (some (.wait (s.tid c))) d) := by
  have h := inv_reachable hs
  refine ⟨fun hcontract => ?_, fun t hl => (inWait_leads hs hw hl).1, ?_⟩
  · obtain ⟨t, hl, ht⟩ := hcontract.first how hc
    have hwork := (inWait_leads hs hw hl).1.2
    rw [ht] at hwork
    cases hwork
  · rcases h.wait_cases hw with ⟨rest, hl, hsub, hmem⟩ | hl | hl | ⟨d, hl⟩
    · refine Or.inr (find_faults hl hmem hc.2 fun d hd ht => ?_)
      have hdc : d = c := h.inj d (h.child p d (hsub hd)) c (h.child p c hw.1) ht
      rw [hdc]
      exact hc.2
    · have hgo : go s p true = some (downOn s p .wait (s.tid c) c) := by simp only [go, hl]
      refine Or.inr ⟨_, c, leads_go hgo, ?_⟩
      simp [downOn, State.touch, hc.2, hl, Loc.work, Finder.work]
    · exact Or.inl hl
    · exact Or.inr ⟨s, d, .refl, hl⟩

def lateWait : List Event :=
  [.call 0 (.runTask []), .go 0 true, .go 0 true, .go 0 true, .go 2 true, .go 2 true, .go 2 true,
    .go 2 true, .call 2 (.exec []), .go 2 true, .go 2 true, .go 2 true, .go 3 true, .go 3 true,
    .go 3 true, .go 2 true, .go 2 true, .go 2 true, .go 2 true, .go 3 true, .call 3 (.exit 5),
    .go 3 true, .go 3 true, .call 2 (.wait 4)]

theorem process_wait_never_answers_late : ∃ s, system.Reachable s ∧ InWait s 2 3 ∧
    s.Destroyed 3 (.exit 5) ∧ ¬ WaitContract s 2 3 ∧
      ∃ t d, system.Leads s t ∧ t.loc 2 = .fault (some (.wait 4)) d := by
  have hrun : ((system.exec boot lateWait).map fun s => decide (3 ∈ s.childList 2 ∧
      s.loc 3 = .exited (.exit 5) ∧ s.freed 3 = true ∧ s.loc 2 = .find .wait 4 [3] ∧
      s.tid 3 = 4)) = some true := by
    decide
  obtain ⟨s, hr, hmem, hexit, hfreed, hloc, htid⟩ := System.exists_reachable_of_exec rfl hrun
  have hw : InWait s 2 3 := by
    refine ⟨hmem, ?_⟩
    rw [hloc, htid]
    rfl
  obtain ⟨hnot, -, hstuck⟩ := process_wait_never_answers hr hw ⟨hexit, hfreed⟩
  refine ⟨s, hr, hw, ⟨hexit, hfreed⟩, hnot, ?_⟩
  rw [htid, hloc] at hstuck
  exact hstuck.resolve_left (by simp)

def stranding : List Event :=
  [.call 0 (.runTask []), .go 0 true, .go 0 true, .go 0 true, .go 0 true, .go 0 true, .go 0 true,
    .go 2 true, .go 2 true, .go 2 true, .go 2 true, .call 2 (.exit 7), .go 2 true, .go 2 true]

theorem process_wait_stranded : ∃ s, system.Reachable s ∧ InWait s 0 2 ∧ s.Destroyed 2 (.exit 7) ∧
    s.loc 0 = .blocked .wait 3 2 ∧ s.tid 2 = 3 := by
  have hrun : ((system.exec boot stranding).map fun s => decide (2 ∈ s.childList 0 ∧
      s.loc 2 = .exited (.exit 7) ∧ s.freed 2 = true ∧ s.loc 0 = .blocked .wait 3 2 ∧
      s.tid 2 = 3)) = some true := by
    decide
  obtain ⟨s, hr, hmem, hexit, hfreed, hloc, htid⟩ := System.exists_reachable_of_exec rfl hrun
  refine ⟨s, hr, ⟨hmem, ?_⟩, ⟨hexit, hfreed⟩, hloc, htid⟩
  rw [hloc, htid]
  rfl

end Pintos.Userprog
