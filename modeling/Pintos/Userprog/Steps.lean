import Pintos.Userprog.Lineage

/-! What a step of one thread can do to the lists, the pages and the calls of the others. -/

namespace Pintos.Userprog

open Pintos.Foundation Pintos.Synch Function

variable {s t : State} {p q c d : Nat} {l : Loc}

def State.Links (s : State) (p c : Nat) : Prop :=
  ∃ u a, s.loc p = .link u c a

def State.Dies (s : State) (c : Nat) : Prop :=
  c ≠ 0 ∧ ∃ how, s.loc c = .dying how

instance (s : State) (c : Nat) : Decidable (s.Dies c) :=
  match hl : s.loc c with
  | .dying how => decidable_of_iff (c ≠ 0) ⟨fun h0 => ⟨h0, how, hl⟩, And.left⟩
  | .unused | .running | .execute _ _ | .create _ _ | .link _ _ _ | .find _ _ _ | .down _ _ _
  | .blocked _ _ _ | .testLoaded _ _ | .unlink _ _ | .readStatus _ _ | .upDestroy _ _ _
  | .returned _ | .start _ | .load _ | .loaded _ | .started _ | .exiting _ | .exited _
  | .fault _ _ | .panic => isFalse fun ⟨_, _, hd⟩ => by simp [hl] at hd

def State.Exited (s : State) (p : Nat) : Prop :=
  ∃ how, s.loc p = .exited how

structure Frame (s t : State) (p : Nat) : Prop where
  tid : ∀ c < s.created, t.tid c = s.tid c
  grow : ∀ q, s.childList q ⊆ t.childList q
  list : ∀ q, ∀ c ∈ t.childList q,
    c ∈ s.childList q ∨ q = p ∧ s.Links p c ∧ t.freed c = s.freed c
  keep : ∀ c, s.freed c = true → t.freed c = true
  freed : ∀ c, t.freed c = true → s.freed c = true ∨ s.Links p c ∨ c = p ∧ s.Dies p
  work : ∀ q, q ≠ p → (t.loc q).work = (s.loc q).work
  exited : ∀ q, q ≠ p → (t.Exited q ↔ s.Exited q)
  used : ∀ q, q ≠ p → s.loc q ≠ .unused → t.loc q ≠ .unused
  begun : ∀ q, q ≠ p → t.loc q ≠ .unused → s.loc q ≠ .unused ∨ s.Links p q ∧ q ∈ t.childList p
  self : Active t p ∨ t.Exited p ∧ (p = 0 ∨ s.Dies p)

lemma Loc.wake_work (l : Loc) : l.wake.work = l.work := by
  rcases l.wake_cases with ⟨f, tid, c, rfl, hw⟩ | hw
  · rw [hw]
    rfl
  · rw [hw]

lemma Loc.wake_eq_exited (l : Loc) (how : Leaving) : l.wake = .exited how ↔ l = .exited how := by
  rcases l.wake_cases with ⟨f, tid, c, rfl, hw⟩ | hw
  · simp [hw]
  · rw [hw]

lemma Loc.wake_eq_unused (l : Loc) : l.wake = .unused ↔ l = .unused := by
  rcases l.wake_cases with ⟨f, tid, c, rfl, hw⟩ | hw
  · simp [hw]
  · rw [hw]

lemma Frame.of_eq (hlist : t.childList = s.childList) (htid : t.tid = s.tid)
    (hfreed : t.freed = s.freed) (hloc : ∀ q, q ≠ p → t.loc q = (s.loc q).wake ∨ t.loc q = s.loc q)
    (hself : Active t p ∨ t.Exited p ∧ (p = 0 ∨ s.Dies p)) : Frame s t p := by
  have hunused : ∀ q, q ≠ p → (t.loc q = .unused ↔ s.loc q = .unused) := by
    intro q hq
    rcases hloc q hq with he | he
    · rw [he, Loc.wake_eq_unused]
    · rw [he]
  refine ⟨fun _ _ => by rw [htid], fun q => ?_, fun q c hc => Or.inl ?_, fun c hc => ?_,
    fun c hc => Or.inl ?_, fun q hq => ?_, fun q hq => ?_,
    fun q hq hu he => hu ((hunused q hq).mp he), fun q hq hu => Or.inl fun he => hu ?_, hself⟩
  · rw [hlist]
    exact List.Subset.refl _
  · rwa [hlist] at hc
  · rwa [hfreed]
  · rwa [hfreed] at hc
  · rcases hloc q hq with he | he
    · rw [he, Loc.wake_work]
    · rw [he]
  · rcases hloc q hq with he | he
    · simp only [State.Exited, he, Loc.wake_eq_exited]
    · simp only [State.Exited, he]
  · exact (hunused q hq).mpr he

lemma active_setLoc (s : State) (p : Nat) (hu : l ≠ .unused) (hx : ∀ how, l ≠ .exited how) :
    Active (s.setLoc p l) p := by
  rw [Active, State.setLoc_loc, update_self]
  exact ⟨hu, hx⟩

lemma Frame.setLoc (s : State) (p : Nat) (hu : l ≠ .unused) (hx : ∀ how, l ≠ .exited how) :
    Frame s (s.setLoc p l) p :=
  .of_eq rfl rfl rfl (fun _ hq => Or.inr (update_of_ne hq _ _)) (Or.inl (active_setLoc s p hu hx))

lemma Frame.quiet {f : Thread → Thread} (hf : Quiet f) (s : State) (c p : Nat)
    (hu : l ≠ .unused) (hx : ∀ how, l ≠ .exited how) : Frame s ((s.edit c f).setLoc p l) p :=
  .of_eq hf.edit_childList (edit_tid hf.tid) rfl (fun _ hq => Or.inr (update_of_ne hq _ _))
    (Or.inl (active_setLoc _ p hu hx))

lemma State.wake_loc_cases (s : State) (o : Option Nat) (q : Nat) :
    (s.wake o).loc q = (s.loc q).wake ∨ (s.wake o).loc q = s.loc q := by
  cases o with
  | none => exact Or.inr rfl
  | some w =>
    by_cases hq : q = w
    · exact Or.inl (by simp [State.wake, hq])
    · exact Or.inr (by simp [State.wake, hq])

lemma Frame.touch (ds : List Nat) (ht : Frame s t p) : Frame s (s.touch p ds t) p := by
  rcases s.touch_cases t p ds with ⟨d, -, -, he⟩ | ⟨-, he⟩
  · rw [he]
    exact .setLoc s p (by simp) (by simp)
  · rw [he]
    exact ht

lemma Starter.resume_active (u : Starter) (tid : Int) (childList : List Nat) :
    u.resume tid childList ≠ .unused ∧ ∀ how, u.resume tid childList ≠ .exited how := by
  cases u with
  | runTask => simp [Starter.resume]
  | exec =>
    rw [Starter.resume]
    split_ifs <;> simp

lemma Frame.executed (s : State) (p : Nat) (u : Starter) (tid : Int) :
    Frame s (s.executed p u tid) p :=
  .setLoc s p (u.resume_active tid _).1 (u.resume_active tid _).2

lemma Frame.create (h : Inv s) (u : Starter) (params : Params) :
    Frame s (threadCreate s p u params true) p := by
  have hlist := h.threadCreate_childList s p u params
  have hloc : ∀ q, q ≠ p → (threadCreate s p u params true).loc q = s.loc q :=
    fun q hq => update_of_ne hq _ _
  refine ⟨fun c => threadCreate_tid s p u params, fun q => ?_, fun q c hc => Or.inl ?_,
    fun c hc => hc, fun c hc => Or.inl hc, fun q hq => ?_, fun q hq => ?_, fun q hq hu => ?_,
    fun q hq hu => Or.inl ?_, Or.inl (active_setLoc s p (by simp) (by simp))⟩
  · rw [hlist]
    exact List.Subset.refl _
  · rwa [hlist] at hc
  · rw [hloc q hq]
  · simp only [State.Exited, hloc q hq]
  · rwa [hloc q hq]
  · rwa [hloc q hq] at hu

lemma Frame.link (h : Inv s) {u : Starter} {params : Params} (hp : s.loc p = .link u c params) :
    Frame s (((s.edit p fun x => { x with childList := x.childList ++ [c] }).setLoc c
      (.start params)).executed p u (s.tid c)) p := by
  have hok := h.loc p
  rw [hp] at hok
  obtain ⟨-, hu, -⟩ := hok
  set t := ((s.edit p fun x => { x with childList := x.childList ++ [c] }).setLoc c
    (.start params)).executed p u (s.tid c) with ht
  have hself : t.childList p = s.childList p ++ [c] := by
    simp [ht, State.executed, State.childList, State.edit]
  have hother : ∀ q, q ≠ p → t.childList q = s.childList q := by
    intro q hq
    simp [ht, State.executed, State.childList, State.edit, hq]
  have hstart : t.loc c = .start params ∨ c = p := by
    by_cases hc : c = p
    · exact Or.inr hc
    · exact Or.inl (by simp [ht, State.executed, hc])
  have hloc : ∀ q, q ≠ p → q ≠ c → t.loc q = s.loc q := by
    intro q hq hc
    simp [ht, State.executed, hq, hc]
  refine ⟨fun d _ => ?_, fun q => ?_, fun q d hd => ?_, fun d hd => hd, fun d hd => Or.inl hd,
    fun q hq => ?_, fun q hq => ?_, fun q hq hn => ?_, fun q hq hn => ?_,
    Or.inl (active_setLoc _ p (u.resume_active _ _).1 (u.resume_active _ _).2)⟩
  · by_cases hd : d = p
    · simp [ht, State.executed, State.tid, State.edit, hd]
    · simp [ht, State.executed, State.tid, State.edit, hd]
  · by_cases hq : q = p
    · rw [hq, hself]
      exact List.subset_append_left _ _
    · rw [hother q hq]
      exact List.Subset.refl _
  · by_cases hq : q = p
    · rw [hq, hself, List.mem_append, List.mem_singleton] at hd
      rcases hd with hd | rfl
      · exact Or.inl (hq ▸ hd)
      · exact Or.inr ⟨hq, ⟨u, params, hp⟩, rfl⟩
    · exact Or.inl (hother q hq ▸ hd)
  · by_cases hc : q = c
    · rw [hc, hu, hstart.resolve_right (hc ▸ hq)]
      rfl
    · rw [hloc q hq hc]
  · by_cases hc : q = c
    · simp [State.Exited, hc, hu, hstart.resolve_right (hc ▸ hq)]
    · simp only [State.Exited, hloc q hq hc]
  · by_cases hc : q = c
    · exact absurd (hc ▸ hu) hn
    · rwa [hloc q hq hc]
  · by_cases hc : q = c
    · refine Or.inr ⟨⟨u, params, hc ▸ hp⟩, ?_⟩
      rw [hself, hc]
      exact List.mem_append_right _ List.mem_cons_self
    · rw [hloc q hq hc] at hn
      exact Or.inl hn

lemma Frame.free (hc : s.Links p c ∨ c = p ∧ s.Dies p)
    (hl : l ≠ .unused ∧ (∀ how, l ≠ .exited how) ∨ (∃ how, l = .exited how) ∧ s.Dies p) :
    Frame s ((s.free c).setLoc p l) p := by
  have hloc : ∀ q, q ≠ p → ((s.free c).setLoc p l).loc q = s.loc q := fun q hq => update_of_ne hq _ _
  refine ⟨fun _ _ => rfl, fun q => List.Subset.refl _, fun q d hd => Or.inl hd, fun d hd => ?_,
    fun d hd => ?_, fun q hq => by rw [hloc q hq], fun q hq => by simp only [State.Exited, hloc q hq],
    fun q hq hu => by rwa [hloc q hq], fun q hq hu => Or.inl (by rwa [hloc q hq] at hu), ?_⟩
  · by_cases hdc : d = c
    · simp [hdc]
    · simpa [hdc] using hd
  · by_cases hdc : d = c
    · exact Or.inr (hdc ▸ hc)
    · exact Or.inl (by simpa [hdc] using hd)
  · rcases hl with ⟨hu, hx⟩ | ⟨⟨how, rfl⟩, hdies⟩
    · exact Or.inl (active_setLoc _ p hu hx)
    · exact Or.inr ⟨⟨how, update_self _ _ _⟩, Or.inr hdies⟩

lemma Frame.upLoad (s : State) (p : Nat) (b : Bool) : Frame s (upLoad s p b) p := by
  set x := (semaUp (s.thread p).loadSema).2
  set o := (semaUp (s.thread p).loadSema).1
  have hq : Quiet fun t => Finder.exec.setSema x t := Quiet.setSema .exec x
  refine .of_eq ?_ ?_ (wake_freed o) (fun q hqp => ?_)
    (Or.inl (active_setLoc _ p (by simp) (by simp)))
  · exact (wake_childList o).trans hq.edit_childList
  · exact (wake_tid o).trans (edit_tid hq.tid)
  · have hloc : (Userprog.upLoad s p b).loc q =
        ((s.edit p fun t => Finder.exec.setSema x t).wake o).loc q :=
      update_of_ne hqp _ _
    rw [hloc]
    exact State.wake_loc_cases _ o q

lemma Frame.loadReturns (s : State) (p : Nat) (b : Bool) : Frame s (s.loadReturns p b) p :=
  .of_eq rfl rfl rfl (fun _ hq => Or.inr (update_of_ne hq _ _))
    (Or.inl (active_setLoc s p (by simp) (by simp)))

lemma Frame.go (h : Inv s) {ok : Bool} (hs : go s p ok = some t) : Frame s t p := by
  have hok := h.loc p
  revert hs
  unfold Userprog.go
  cases hp : s.loc p with
  | unused | running | blocked | exited | fault | panic => exact nofun
  | unlink | readStatus | upDestroy =>
    rw [hp] at hok
    exact hok.elim
  | execute u cmdline =>
    rintro ⟨⟩
    split_ifs
    · exact .setLoc s p (by simp) (by simp)
    · exact .executed s p u _
  | create u params =>
    intro hs
    obtain ⟨-, rfl⟩ := guard_eq_some.mp hs
    cases ok with
    | true => exact .create h u params
    | false => exact .executed s p u _
  | link u c params =>
    rintro ⟨⟩
    cases ok with
    | true => exact .touch _ (.link h hp)
    | false => exact .free (Or.inl ⟨u, params, hp⟩) (Or.inl (u.resume_active _ _))
  | find f tid rest =>
    rintro ⟨⟩
    cases rest with
    | nil => cases f <;> exact .setLoc s p (by simp) (by simp)
    | cons c rest =>
      apply Frame.touch
      split_ifs
      · exact .setLoc s p (by simp) (by simp)
      · exact .setLoc s p (by simp) (by simp)
  | down f tid c =>
    rintro ⟨⟩
    apply Frame.touch
    split_ifs
    · exact .quiet (Quiet.setSema f _) s c p (by cases f <;> simp [Finder.passed])
        (by cases f <;> simp [Finder.passed])
    · exact .quiet (Quiet.setSema f _) s c p (by simp) (by simp)
  | testLoaded tid c =>
    rintro ⟨⟩
    exact .touch _ (.setLoc s p (by simp) (by simp))
  | returned r =>
    rintro ⟨⟩
    exact .setLoc s p (by simp) (by simp)
  | start params =>
    rintro ⟨⟩
    split_ifs
    · exact .quiet (Quiet.setPagedir true) s p p (by simp) (by simp)
    · exact .loadReturns s p _
  | load params =>
    rintro ⟨⟩
    exact .loadReturns s p _
  | loaded b =>
    rintro ⟨⟩
    exact .upLoad s p b
  | started b =>
    rintro ⟨⟩
    split_ifs
    · exact .setLoc s p (by simp) (by simp)
    · exact .setLoc s p (by simp) (by simp)
  | exiting how =>
    rintro ⟨⟩
    exact .quiet (Quiet.setPagedir false) s p p (by simp) (by simp)
  | dying how =>
    rintro ⟨⟩
    split_ifs with h0
    · exact .of_eq rfl rfl rfl (fun _ hq => Or.inr (update_of_ne hq _ _))
        (Or.inr ⟨⟨how, update_self _ _ _⟩, Or.inl h0⟩)
    · exact .free (Or.inr ⟨rfl, h0, how, hp⟩) (Or.inr ⟨⟨how, rfl⟩, h0, how, hp⟩)

lemma Frame.call {r : Request} (hs : call s p r = some t) : Frame s t p := by
  simp only [Userprog.call, guard_eq_some] at hs
  obtain ⟨-, rfl⟩ := hs
  cases r with
  | exit status => exact .quiet (Quiet.setExitStatus status) s p p (by simp) (by simp)
  | _ => exact .setLoc s p (by simp) (by simp)

lemma loc_of_call {r : Request} (hs : call s p r = some t) : s.loc p = .running := by
  simp only [Userprog.call, Option.ite_none_right_eq_some] at hs
  exact hs.1.1

def Event.thread : Event → Nat
  | .call p _ | .go p _ => p

theorem frame_next (h : Inv s) {e : Event} (hs : next s e = some t) : Frame s t e.thread := by
  cases e with
  | call p r => exact .call hs
  | go p ok => exact .go h hs

lemma Inv.not_freed_next (h : Inv s) {e : Event} (hs : next s e = some t) (hc : c ∈ t.childList p)
    (hold : c ∈ s.childList p → s.freed c = false)
    (hlives : ∀ ok, e = .go c ok → s.Dies c → c ∉ s.childList p) : t.freed c = false := by
  have hframe := frame_next h hs
  rcases hframe.list p c hc with hmem | ⟨-, ⟨u, a, hlink⟩, hsame⟩
  · by_contra hfreed
    rcases hframe.freed c (eq_true_of_ne_false hfreed) with hgone | ⟨u, a, hlink⟩ | ⟨rfl, hdies⟩
    · exact Bool.false_ne_true ((hold hmem).symm.trans hgone)
    · have hok := h.loc e.thread
      rw [hlink] at hok
      exact hok.2.2.2.1 p hmem
    · cases e with
      | call q r => exact absurd hdies.2 (by simp [Event.thread, loc_of_call hs])
      | go q ok => exact hlives ok rfl hdies hmem
  · have hok := h.loc e.thread
    rw [hlink] at hok
    rw [hsame]
    exact hok.2.2.1

end Pintos.Userprog
