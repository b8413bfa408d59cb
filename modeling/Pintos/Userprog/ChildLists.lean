import Pintos.Userprog.Waiting

/-! The elements of the child lists denote allocated structs until the first process is destroyed. -/

namespace Pintos.Userprog

open Pintos.Foundation Pintos.Synch Function

variable {s t : State} {p c : Nat}

def State.Live (s : State) (p : Nat) : Prop :=
  s.freed p = false ∧ ¬ s.Exited p

structure ChildrenLive (s : State) : Prop where
  listed : ∀ p, s.Live p → ∀ c ∈ s.childList p, s.freed c = false
  held : ∀ p c, (s.loc p).child = some c → s.freed c = false

def NoDeath (s : State) : Event → Prop
  | .call _ _ => True
  | .go c _ => ¬ s.Dies c

instance (s : State) (e : Event) : Decidable (NoDeath s e) :=
  match e with
  | .call _ _ => isTrue trivial
  | .go c _ => inferInstanceAs (Decidable (¬ s.Dies c))

structure Family (s : State) : Prop where
  parent : ∀ c, c ≠ 0 → s.loc c ≠ .unused → ∃ p, s.loc p ≠ .unused ∧ c ∈ s.childList p
  idle : s.loc 1 = .unused ∧ 1 ∈ s.childList 0
  task : ∀ c ∈ s.childList 0, c ≠ 1 → InWait s 0 c

lemma Inv.live (h : Inv s) (hp : Active s p) : s.Live p :=
  ⟨h.not_freed hp, fun ⟨how, he⟩ => hp.2 how he⟩

variable {e : Event}

lemma active_of_next (hs : next s e = some t) : Active s e.thread := by
  cases e with
  | call p r =>
    have hp := loc_of_call hs
    exact ⟨by simp [Event.thread, hp], by simp [Event.thread, hp]⟩
  | go p ok => exact active_of_go hs

lemma Inv.child_mem (h : Inv s) (hc : (s.loc p).child = some c) :
    c ∈ s.childList p ∧ Active s p := by
  have hok := h.loc p
  cases hp : s.loc p with
  | down f tid d | blocked f tid d | testLoaded tid d =>
    rw [hp] at hok hc
    cases hc
    exact ⟨hok.1, by simp [hp], by simp [hp]⟩
  | unlink tid d | readStatus tid d | upDestroy tid d st =>
    rw [hp] at hok
    exact hok.elim
  | _ => simp [hp, Loc.child] at hc

lemma ChildrenLive.of_listed (h : Inv s)
    (hl : ∀ p, s.Live p → ∀ c ∈ s.childList p, s.freed c = false) : ChildrenLive s := by
  refine ⟨hl, fun p c hc => ?_⟩
  obtain ⟨hmem, hp⟩ := h.child_mem hc
  exact hl p (h.live hp) c hmem

lemma Frame.live (h : Inv s) (hs : next s e = some t) (hp : t.Live p) : s.Live p := by
  have hf := frame_next h hs
  by_cases hpe : p = e.thread
  · rw [hpe]
    exact h.live (active_of_next hs)
  · refine ⟨?_, fun hx => hp.2 ((hf.exited p hpe).mpr hx)⟩
    by_contra hfreed
    exact Bool.false_ne_true (hp.1.symm.trans (hf.keep p (eq_true_of_ne_false hfreed)))

lemma ChildrenLive.next (h : Inv s) (hl : ChildrenLive s) (hs : next s e = some t)
    (hn : NoDeath s e) : ChildrenLive t := by
  refine .of_listed (inv_next h hs) fun p hp c hc => ?_
  apply h.not_freed_next hs hc (hl.listed p (Frame.live h hs hp) c)
  rintro ok rfl hdies
  exact absurd hdies hn

lemma Inv.loc_of_linked (h : Inv s) {u : Starter} {a : Params} (hl : s.loc p = .link u c a)
    {ok : Bool} (hs : Userprog.go s p ok = some t) (hc : c ∈ t.childList p) :
    t.loc p = u.resume (s.tid c) (t.childList p) := by
  have hok := h.loc p
  rw [hl] at hok
  have hnot : c ∉ s.childList p := hok.2.2.2.1 p
  simp only [Userprog.go, hl, Option.some.injEq] at hs
  subst hs
  cases ok with
  | false => exact absurd hc hnot
  | true =>
    rw [threadLink, if_pos rfl] at hc ⊢
    rcases State.touch_cases s _ p (s.childList p).getLast?.toList with ⟨d, -, -, he⟩ | ⟨-, he⟩
    · rw [he] at hc
      exact absurd hc hnot
    · rw [he]
      exact update_self _ _ _

lemma Family.next (h : Inv s) (hf : Family s) (hs : next s e = some t) : Family t := by
  have hframe := frame_next h hs
  have hstep := active_of_next hs
  have hactive : ∀ q, s.loc q ≠ .unused → t.loc q ≠ .unused := by
    intro q hq
    by_cases hqe : q = e.thread
    · rw [hqe]
      rcases hframe.self with ha | ⟨⟨how, hx⟩, -⟩
      · exact ha.1
      · simp [hx]
    · exact hframe.used q hqe hq
  have hidle : t.loc 1 = .unused := by
    by_contra hu
    have h1 : 1 ≠ e.thread := fun he => hstep.1 (he ▸ hf.idle.1)
    rcases hframe.begun 1 h1 hu with hn | ⟨⟨u, a, hl⟩, -⟩
    · exact hn hf.idle.1
    · have hok := h.loc e.thread
      rw [hl] at hok
      exact hok.2.2.2.1 0 hf.idle.2
  refine ⟨fun c hc hu => ?_, ⟨hidle, hframe.grow 0 hf.idle.2⟩, fun c hc h1 => ?_⟩
  · by_cases hold : s.loc c = .unused
    · have hce : c ≠ e.thread := fun he => hstep.1 (he ▸ hold)
      rcases hframe.begun c hce hu with hn | ⟨-, hmem⟩
      · exact absurd hold hn
      · exact ⟨e.thread, hactive _ hstep.1, hmem⟩
    · obtain ⟨p, hp, hmem⟩ := hf.parent c hc hold
      exact ⟨p, hactive p hp, hframe.grow p hmem⟩
  · rcases hframe.list 0 c hc with hmem | ⟨he, ⟨u, a, hl⟩, -⟩
    · exact h.inWait_next (hf.task c hmem h1) hs
    · rw [← he] at hl
      have hok := h.loc 0
      rw [hl] at hok
      obtain ⟨hlt, -, -, -, hu⟩ := hok
      cases e with
      | call q r =>
        change 0 = q at he
        subst he
        simp [loc_of_call hs] at hl
      | go q ok =>
        change 0 = q at he
        subst he
        refine ⟨hc, ?_⟩
        rw [h.loc_of_linked hl hs hc, hu rfl, hframe.tid c hlt]
        rfl

lemma family_boot : Family boot := by
  refine ⟨fun c hc hu => ?_, ⟨rfl, ?_⟩, fun c hc h1 => ?_⟩
  · rw [boot_loc, if_neg hc] at hu
    exact absurd rfl hu
  · rw [boot_childList]
    exact List.mem_cons_self
  · rw [boot_childList] at hc
    exact absurd (List.mem_singleton.mp hc) h1

structure Undisturbed (s : State) : Prop where
  inv : Inv s
  family : Family s
  live : ChildrenLive s
  remain : ∀ p, p ≠ 0 → ¬ s.Exited p

lemma Undisturbed.next (h : Undisturbed s) (hs : next s e = some t)
    (hn : NoDeath s e) : Undisturbed t := by
  have hframe := frame_next h.inv hs
  refine ⟨inv_next h.inv hs, h.family.next h.inv hs, h.live.next h.inv hs hn, fun p hp hx => ?_⟩
  by_cases hpe : p = e.thread
  · rw [hpe] at hp hx
    rcases hframe.self with ha | ⟨-, h0 | hdies⟩
    · obtain ⟨how, he⟩ := hx
      exact ha.2 how he
    · exact hp h0
    · cases e with
      | call q r => exact absurd hdies.2 (by simp [Event.thread, loc_of_call hs])
      | go q ok => exact hn hdies
  · exact h.remain p hp ((hframe.exited p hpe).mp hx)

lemma undisturbed_reachable (hs : system.ReachableWhere NoDeath s) : Undisturbed s := by
  refine hs.invariant (I := Undisturbed) ?_ fun _ _ _ h hn hs => h.next hs hn
  rintro _ rfl
  refine ⟨inv_boot, family_boot, .of_listed inv_boot fun _ _ _ _ => rfl, ?_⟩
  rintro p hp ⟨how, hx⟩
  rw [boot_loc, if_neg hp] at hx
  cases hx

lemma Undisturbed.parent (h : Undisturbed s) (hc : s.Dies c) :
    ∃ p, s.Live p ∧ p ≠ c ∧ c ∈ s.childList p := by
  obtain ⟨h0, how, hl⟩ := hc
  obtain ⟨p, hp, hmem⟩ := h.family.parent c h0 (by simp [hl])
  have hpc : p ≠ c := fun e => h.inv.irrefl c (e ▸ hmem)
  refine ⟨p, h.inv.live ⟨hp, fun w hw => ?_⟩, hpc, hmem⟩
  by_cases hp0 : p = 0
  · subst hp0
    have h1 : c ≠ 1 := by
      rintro rfl
      simp [h.family.idle.1] at hl
    have hwork := (h.family.task c hmem h1).2
    rw [hw] at hwork
    cases hwork
  · exact h.remain p hp0 ⟨w, hw⟩

/-- As long as no process is destroyed, the lists and the pointers that `exec` and `process_wait` hold
denote allocated structs; the first process that is destroyed is still in its parent's list. -/
theorem children_live_until_first_death (hs : system.ReachableWhere NoDeath s) :
    ChildrenLive s ∧ ∀ e t, next s e = some t → (ChildrenLive t ↔ NoDeath s e) := by
  have h := undisturbed_reachable hs
  refine ⟨h.live, fun e t hn => ⟨fun hlive => ?_, fun hd => h.live.next h.inv hn hd⟩⟩
  have hframe := frame_next h.inv hn
  cases e with
  | call p r => trivial
  | go c ok =>
    intro hc
    obtain ⟨p, hp, hpc, hmem⟩ := h.parent hc
    obtain ⟨h0, how, hl⟩ := hc
    have hfreed : t.freed c = true := by
      simp only [Userprog.next, go, hl, Option.some.injEq, if_neg h0] at hn
      simp [← hn]
    have hkept : t.freed p = false := by
      by_contra hf
      rcases hframe.freed p (eq_true_of_ne_false hf) with hold | ⟨u, a, hlink⟩ | ⟨he, -⟩
      · exact Bool.false_ne_true (hp.1.symm.trans hold)
      · change s.loc c = _ at hlink
        simp [hl] at hlink
      · exact hpc he
    have hstill : t.Live p := ⟨hkept, fun hx => hp.2 ((hframe.exited p hpc).mp hx)⟩
    exact Bool.false_ne_true ((hlive.listed p hstill c (hframe.grow p hmem)).symm.trans hfreed)

theorem children_live_at_exit : ∃ s t, system.ReachableWhere NoDeath s ∧ s.childList 0 = [1, 2] ∧
    s.loc 0 = .blocked .wait 3 2 ∧ ChildrenLive s ∧ next s (.go 2 true) = some t ∧
      ¬ ChildrenLive t := by
  have hrun : (((system.restrict fun s e => decide (NoDeath s e)).exec boot
      [.call 0 (.runTask []), .go 0 true, .go 0 true, .go 0 true, .go 0 true, .go 0 true, .go 0 true,
        .go 2 true, .go 2 true, .go 2 true, .go 2 true, .call 2 (.exit 7), .go 2 true]).map
        fun s => decide (s.childList 0 = [1, 2] ∧ s.loc 0 = .blocked .wait 3 2 ∧
          s.loc 2 = .dying (.exit 7))) = some true := by
    decide
  obtain ⟨s, hs, hp⟩ := Option.map_eq_some_iff.mp hrun
  obtain ⟨hlist, hwait, hdying⟩ := of_decide_eq_true hp
  have hr : system.ReachableWhere NoDeath s :=
    System.reachableWhere_of_exec rfl hs fun _ _ => of_decide_eq_true
  obtain ⟨hlive, hiff⟩ := children_live_until_first_death hr
  have hnext : next s (.go 2 true) = some ((s.free 2).setLoc 2 (.exited (.exit 7))) := by
    simp [next, go, hdying]
  refine ⟨s, _, hr, hlist, hwait, hlive, hnext, fun ht => ?_⟩
  exact (hiff _ _ hnext).mp ht ⟨by decide, _, hdying⟩

theorem child_list_dangles : ∃ s, system.Reachable s ∧ s.Live 0 ∧ 2 ∈ s.childList 0 ∧
    (s.loc 0).child = some 2 ∧ s.freed 2 = true := by
  have hrun : ((system.exec boot
      [.call 0 (.runTask []), .go 0 true, .go 0 true, .go 0 true, .go 0 true, .go 0 true, .go 0 true,
        .go 2 true, .go 2 true, .go 2 true, .go 2 true, .call 2 .kill, .go 2 true, .go 2 true]).map
        fun s => decide (s.freed 0 = false ∧ s.loc 0 = .blocked .wait 3 2 ∧ 2 ∈ s.childList 0 ∧
          s.freed 2 = true)) = some true := by
    decide
  obtain ⟨s, hr, hlive, hwait, hmem, hfreed⟩ := System.exists_reachable_of_exec rfl hrun
  refine ⟨s, hr, ⟨hlive, ?_⟩, hmem, ?_, hfreed⟩
  · rintro ⟨how, hx⟩
    simp [hwait] at hx
  · rw [hwait]
    rfl

end Pintos.Userprog
