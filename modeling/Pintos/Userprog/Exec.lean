import Pintos.Userprog.ChildLists

/-! The answer of the `exec` system call: the result of `load` does not reach the parent. -/

namespace Pintos.Userprog

open Pintos.Foundation Pintos.Synch Function

variable {s t : State} {p c : Nat}

def ExecRight (s : State) (value : Int) : Option Nat → Prop
  | none => value = tidError
  | some c =>
    (value = s.tid c ↔ s.loaded c = some true) ∧ (s.loaded c ≠ some true → value = tidError)

def Steady (s : State) : Event → Prop
  | .call p (.exec _) => ∀ c ∈ s.childList p, s.freed c = false
  | .call _ _ => True
  | .go c _ => s.Dies c → ∀ p, (s.loc p).work = some .exec → c ∉ s.childList p

def ExecSafe (s : State) : Prop :=
  ∀ p, (s.loc p).work = some .exec → ∀ c ∈ s.childList p, s.freed c = false

lemma touch_work_ne (ds : List Nat) {w : Work} (hs : (s.loc p).work ≠ some w)
    (ht : (t.loc p).work ≠ some w) : ((s.touch p ds t).loc p).work ≠ some w := by
  rcases s.touch_cases t p ds with ⟨d, -, -, he⟩ | ⟨-, he⟩
  · rw [he, State.setLoc_loc, update_self]
    exact hs
  · rw [he]
    exact ht

lemma exec_of_go (h : Inv s) {ok : Bool} (hs : go s p ok = some t)
    (ht : (t.loc p).work = some .exec) : (s.loc p).work = some .exec := by
  by_contra hn
  apply absurd ht
  have hok := h.loc p
  revert hs
  unfold go
  cases hp : s.loc p with
  | unused | running | blocked | exited | fault | panic => exact nofun
  | unlink | readStatus | upDestroy =>
    rw [hp] at hok
    exact hok.elim
  | testLoaded tid c => exact absurd (by rw [hp]; rfl) hn
  | execute u cmdline =>
    cases u with
    | exec => exact absurd (by rw [hp]; rfl) hn
    | runTask =>
      rintro ⟨⟩
      split_ifs <;> simp [State.executed, Starter.resume, Loc.work, Starter.work, Finder.work]
  | create u params =>
    cases u with
    | exec => exact absurd (by rw [hp]; rfl) hn
    | runTask =>
      intro hs
      obtain ⟨-, rfl⟩ := guard_eq_some.mp hs
      cases ok <;>
        simp [threadCreate, State.executed, Starter.resume, Loc.work, Starter.work, Finder.work]
  | link u c params =>
    cases u with
    | exec => exact absurd (by rw [hp]; rfl) hn
    | runTask =>
      rintro ⟨⟩
      cases ok with
      | false => simp [threadLink, State.executed, Starter.resume, Loc.work, Finder.work]
      | true =>
        apply touch_work_ne _ hn
        simp [State.executed, Starter.resume, Loc.work, Finder.work]
  | find f tid rest =>
    cases f with
    | exec => exact absurd (by rw [hp]; rfl) hn
    | wait =>
      rintro ⟨⟩
      cases rest with
      | nil => simp [threadGetChild, Loc.work]
      | cons c rest =>
        apply touch_work_ne _ hn
        rw [State.setLoc_loc, update_self]
        split_ifs <;> simp [Loc.work, Finder.work]
  | down f tid c =>
    cases f with
    | exec => exact absurd (by rw [hp]; rfl) hn
    | wait =>
      rintro ⟨⟩
      apply touch_work_ne _ hn
      rw [State.setLoc_loc, update_self]
      split_ifs <;> simp [Loc.work, Finder.work, Finder.passed]
  | returned r | load params | exiting how =>
    rintro ⟨⟩
    simp [State.loadReturns, Loc.work]
  | loaded b =>
    rintro ⟨⟩
    simp [upLoad, Loc.work]
  | start params =>
    rintro ⟨⟩
    split_ifs <;> simp [State.loadReturns, Loc.work]
  | started b =>
    rintro ⟨⟩
    rw [State.setLoc_loc, update_self]
    split_ifs <;> simp [Loc.work]
  | dying how =>
    rintro ⟨⟩
    split_ifs <;> simp [Loc.work]

lemma exec_of_call {r : Request} (hs : call s p r = some t) (ht : (t.loc p).work = some .exec) :
    ∃ cmdline, r = .exec cmdline := by
  simp only [call, guard_eq_some] at hs
  obtain ⟨-, rfl⟩ := hs
  cases r with
  | exec cmdline => exact ⟨cmdline, rfl⟩
  | _ => simp [Loc.work, Starter.work, Finder.work] at ht

lemma ExecSafe.next (h : Inv s) (hx : ExecSafe s) {e : Event} (hs : next s e = some t)
    (hn : Steady s e) : ExecSafe t := by
  have hframe := frame_next h hs
  intro p hp c hc
  have hsafe : c ∈ s.childList p → s.freed c = false := by
    by_cases hpe : p = e.thread
    · cases e with
      | call q r =>
        change p = q at hpe
        subst hpe
        obtain ⟨cmdline, rfl⟩ := exec_of_call hs hp
        exact hn c
      | go q ok =>
        change p = q at hpe
        subst hpe
        exact hx p (exec_of_go h hs hp) c
    · exact hx p (hframe.work p hpe ▸ hp) c
  apply h.not_freed_next hs hc hsafe
  rintro ok rfl hdies hmem
  have hpc : p ≠ c := fun e => h.irrefl p (e ▸ hmem)
  exact hn hdies p (hframe.work p hpc ▸ hp) hmem

lemma execSafe_reachable (hs : system.ReachableWhere Steady s) : Inv s ∧ ExecSafe s := by
  refine hs.invariant (I := fun s => Inv s ∧ ExecSafe s) ?_ fun _ _ _ h hn hs =>
    ⟨inv_next h.1 hs, h.2.next h.1 hs hn⟩
  rintro _ rfl
  exact ⟨inv_boot, fun _ _ _ _ => rfl⟩

theorem exec_right_iff_not_loaded (hs : system.ReachableWhere Steady s) :
    (∀ p d, s.loc p ≠ .fault (some .exec) d) ∧ (∀ p, s.loc p ≠ .panic) ∧
    ∀ p child value, s.loc p = .returned (.exec child value) →
      (∀ c, child = some c → s.loaded c ≠ none) ∧
      (ExecRight s value child ↔ ∀ c, child = some c → s.loaded c ≠ some true) := by
  obtain ⟨h, hsafe⟩ := execSafe_reachable hs
  refine ⟨fun p d hp => ?_, fun p hp => ?_, fun p child value hp => ?_⟩
  · have hok := h.loc p
    rw [hp] at hok
    exact Bool.false_ne_true ((hsafe p (by rw [hp]; rfl) d hok.1).symm.trans hok.2)
  · have hok := h.loc p
    rw [hp] at hok
    exact hok
  · have hok := h.loc p
    rw [hp] at hok
    obtain ⟨rfl, hchild⟩ := hok
    refine ⟨fun c hc => (hchild c hc).2, ?_⟩
    cases child with
    | none => simp [ExecRight]
    | some c =>
      have htid : tidError ≠ s.tid c := by
        have := (h.tids c (hchild c rfl).1).1
        rw [tidError]
        omega
      simp [ExecRight, htid]

def startChild : List Event :=
  [.call 0 (.runTask []), .go 0 true, .go 0 true, .go 0 true, .go 2 true, .go 2 true, .go 2 true,
    .go 2 true, .call 2 (.exec []), .go 2 true, .go 2 true, .go 2 true]

def steady (s : State) : Event → Bool
  | .call p _ => (s.childList p).all fun c => !s.freed c
  | .go c _ => decide (¬ s.Dies c)

lemma steady_sound (s : State) (e : Event) (h : steady s e = true) : Steady s e := by
  cases e with
  | call p r =>
    cases r with
    | exec cmdline => simpa [steady, Steady] using h
    | _ => trivial
  | go c ok => exact fun hd => absurd hd (of_decide_eq_true h)

theorem exec_right_after_failed_load : ∃ s, system.ReachableWhere Steady s ∧
    s.loc 2 = .returned (.exec (some 3) (-1)) ∧ s.loaded 3 = some false ∧
      ExecRight s (-1) (some 3) := by
  have hrun : (((system.restrict steady).exec boot (startChild ++ [.go 3 true, .go 3 false, .go 2 true,
      .go 2 true, .go 3 true, .go 3 true, .go 2 true, .go 2 true])).map fun s =>
        decide (s.loc 2 = .returned (.exec (some 3) (-1)) ∧ s.loaded 3 = some false)) =
          some true := by
    decide
  obtain ⟨s, hs, hp⟩ := Option.map_eq_some_iff.mp hrun
  obtain ⟨hret, hload⟩ := of_decide_eq_true hp
  have hr : system.ReachableWhere Steady s :=
    System.reachableWhere_of_exec rfl hs steady_sound
  have hiff := ((exec_right_iff_not_loaded hr).2.2 2 _ _ hret).2
  refine ⟨s, hr, hret, hload, hiff.mpr ?_⟩
  rintro c ⟨⟩
  simp [hload]

theorem exec_loses_load :
    (∃ s, system.Reachable s ∧ s.loc 2 = .returned (.exec (some 3) (-1)) ∧
      s.loaded 3 = some true ∧ s.tid 3 = 4) ∧
    ∃ s, system.Reachable s ∧ s.loc 2 = .fault (some .exec) 3 ∧ s.loaded 3 = some false := by
  have hgood : ((system.exec boot (startChild ++ [.go 3 true, .go 3 true, .go 3 true, .go 2 true,
      .go 2 true, .go 2 true])).map fun s => decide (s.loc 2 = .returned (.exec (some 3) (-1)) ∧
        s.loaded 3 = some true ∧ s.tid 3 = 4)) = some true := by
    decide
  have hfreed : ((system.exec boot (startChild ++ [.go 2 true, .go 2 true, .go 3 true, .go 3 false,
      .go 3 true, .go 3 true, .go 3 true, .go 3 true, .go 2 true])).map fun s =>
        decide (s.loc 2 = .fault (some .exec) 3 ∧ s.loaded 3 = some false)) = some true := by
    decide
  exact ⟨System.exists_reachable_of_exec rfl hgood, System.exists_reachable_of_exec rfl hfreed⟩

end Pintos.Userprog
