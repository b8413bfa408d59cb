import Pintos.Userprog.Processes

/-! The parts of the process state that no step disturbs: thread identifiers, child lists, and what a
thread knows at each place of the code. -/

namespace Pintos.Userprog

open Pintos.Foundation Pintos.Synch Function

variable {s t : State} {p q c d : Nat} {l : Loc} {params : Params} {u : Starter} {tid : Int} {f : Thread → Thread}

structure Quiet (f : Thread → Thread) : Prop where
  tid : ∀ x, (f x).tid = x.tid
  childList : ∀ x, (f x).childList = x.childList
  loadSucceeded : ∀ x, (f x).loadSucceeded = x.loadSucceeded

lemma edit_tid (hf : ∀ x, (f x).tid = x.tid) : (s.edit c f).tid = s.tid := by
  funext d
  by_cases hd : d = c
  · subst hd
    simp [State.tid, State.edit, hf]
  · simp [State.tid, State.edit, hd]

lemma Quiet.edit_childList (hf : Quiet f) :
    (s.edit c f).childList = s.childList := by
  funext d
  by_cases hd : d = c
  · subst hd
    simp [State.childList, State.edit, hf.childList]
  · simp [State.childList, State.edit, hd]

def LocOk (s : State) (p : Nat) : Loc → Prop
  | .execute u _ | .create u _ => p = 0 → u = .runTask
  | .link u c _ =>
    c < s.created ∧ s.loc c = .unused ∧ s.freed c = false ∧ (∀ q, c ∉ s.childList q) ∧
      (p = 0 → u = .runTask)
  | .find f tid rest =>
    rest ⊆ s.childList p ∧ (∀ c ∈ s.childList p, s.tid c = tid → c ∈ rest) ∧
      (f = .exec → ∃ c ∈ s.childList p, s.tid c = tid)
  | .down _ tid c | .blocked _ tid c => c ∈ s.childList p ∧ s.tid c = tid
  | .testLoaded tid c => c ∈ s.childList p ∧ s.tid c = tid ∧ s.loaded c ≠ none
  | .unlink _ _ | .readStatus _ _ | .upDestroy _ _ _ | .panic => False
  | .returned (.exec child value) =>
    value = tidError ∧ ∀ c, child = some c → c < s.created ∧ s.loaded c ≠ none
  | .returned (.wait _ child _) => child = none
  | .loaded success | .started success => s.loaded p = some success
  | .fault _ d => d ∈ s.childList p ∧ s.freed d = true
  | _ => True

structure Inv (s : State) : Prop where
  fresh : ∀ c, s.created ≤ c → s.loc c = .unused ∧ s.freed c = false ∧ s.childList c = []
  tids : ∀ c < s.created, 0 < s.tid c ∧ s.tid c < s.nextTid
  inj : ∀ c < s.created, ∀ d < s.created, s.tid c = s.tid d → c = d
  child : ∀ p, ∀ c ∈ s.childList p, c < s.created
  irrefl : ∀ p, p ∉ s.childList p
  owner : ∀ p q u v c a b, s.loc p = .link u c a → s.loc q = .link v c b → p = q
  gone : ∀ c, s.freed c = true → s.loc c = .unused ∨ ∃ how, s.loc c = .exited how
  wait : ∀ c, (s.thread c).waitSema.value = 0
  flag : ∀ c, (s.thread c).loadSucceeded = false
  sema : ∀ c, (s.thread c).loadSema.value ≠ 0 → s.loaded c ≠ none
  loc : ∀ p, LocOk s p (s.loc p)

lemma Inv.lt_created (h : Inv s) (hp : s.loc p ≠ .unused) : p < s.created :=
  Nat.lt_of_not_le fun hle => hp (h.fresh p hle).1

lemma LocOk.mono (h : LocOk s q l) (hchild : ∀ c ∈ s.childList q, c < s.created)
    (hcreated : s.created ≤ t.created) (hlist : t.childList q = s.childList q)
    (htid : ∀ c < s.created, t.tid c = s.tid c)
    (hsome : ∀ c, s.loaded c ≠ none → t.loaded c ≠ none) (hown : t.loaded q = s.loaded q)
    (hkeep : ∀ d, s.freed d = true → t.freed d = true)
    (hlink : ∀ u c a, l = .link u c a →
      t.loc c = s.loc c ∧ t.freed c = s.freed c ∧ ∀ q, c ∉ s.childList q → c ∉ t.childList q) :
    LocOk t q l := by
  cases l with
  | link u c a =>
    obtain ⟨hc, hl, hf, hn, hu⟩ := h
    obtain ⟨hl', hf', hn'⟩ := hlink u c a rfl
    exact ⟨Nat.lt_of_lt_of_le hc hcreated, hl'.trans hl, hf'.trans hf, fun q => hn' q (hn q), hu⟩
  | find f tid rest =>
    obtain ⟨hsub, hall, hex⟩ := h
    rw [LocOk, hlist]
    refine ⟨hsub, fun c hc ht => hall c hc ?_, fun hf => ?_⟩
    · rw [← htid c (hchild c hc)]
      exact ht
    · obtain ⟨c, hc, ht⟩ := hex hf
      exact ⟨c, hc, (htid c (hchild c hc)).trans ht⟩
  | down f tid c | blocked f tid c =>
    obtain ⟨hc, ht⟩ := h
    exact ⟨hlist ▸ hc, (htid c (hchild c hc)).trans ht⟩
  | testLoaded tid c =>
    obtain ⟨hc, ht, hl⟩ := h
    exact ⟨hlist ▸ hc, (htid c (hchild c hc)).trans ht, hsome c hl⟩
  | returned r =>
    cases r with
    | exec child value =>
      obtain ⟨hv, hc⟩ := h
      refine ⟨hv, fun c hcc => ?_⟩
      exact ⟨Nat.lt_of_lt_of_le (hc c hcc).1 hcreated, hsome c (hc c hcc).2⟩
    | wait tid child value => exact h
  | loaded b | started b => exact hown.trans h
  | fault w d => exact ⟨hlist ▸ h.1, hkeep d h.2⟩
  | _ => exact h

def Active (s : State) (p : Nat) : Prop :=
  s.loc p ≠ .unused ∧ ∀ how, s.loc p ≠ .exited how

lemma Inv.not_freed (h : Inv s) (hp : Active s p) : s.freed p = false := by
  by_contra hf
  rcases h.gone p (eq_true_of_ne_false hf) with hu | ⟨how, hx⟩
  · exact hp.1 hu
  · exact hp.2 how hx

lemma Inv.setLoc (h : Inv s) (hlt : p < s.created) (hf : s.freed p = false)
    (hn : ∀ q u a, s.loc q ≠ .link u p a) (hl : LocOk s p l) (hne : ∀ u c a, l ≠ .link u c a) :
    Inv (s.setLoc p l) := by
  refine ⟨fun c hc => ?_, h.tids, h.inj, h.child, h.irrefl, fun q r u v c a b hq hr => ?_, fun c hc => ?_,
    h.wait, h.flag, h.sema, fun q => ?_⟩
  · have hcp : c ≠ p := fun e => Nat.not_le_of_lt hlt (e ▸ hc)
    simpa [State.childList, hcp] using h.fresh c hc
  · by_cases hqp : q = p
    · exact absurd (by simpa [hqp] using hq) (hne u c a)
    · by_cases hrp : r = p
      · exact absurd (by simpa [hrp] using hr) (hne v c b)
      · exact h.owner q r u v c a b (by simpa [hqp] using hq) (by simpa [hrp] using hr)
  · have hcp : c ≠ p := by
      rintro rfl
      exact Bool.false_ne_true (hf.symm.trans hc)
    simpa [hcp] using h.gone c hc
  · have hok : ∀ l', LocOk s q l' → (∀ u a, l' ≠ .link u p a) → LocOk (s.setLoc p l) q l' := by
      intro l' hl' hn'
      refine hl'.mono (h.child q) (Nat.le_refl _) rfl (fun _ _ => rfl) (fun _ hb => hb) rfl (fun _ hd => hd) ?_
      intro u c a hla
      have hcp : c ≠ p := fun e => hn' u a (e ▸ hla)
      exact ⟨by simp [hcp], rfl, fun _ hm => hm⟩
    by_cases hq : q = p
    · subst hq
      simp only [State.setLoc_loc, update_self]
      exact hok l hl fun u a => hne u q a
    · simp only [State.setLoc_loc, update_of_ne hq]
      exact hok _ (h.loc q) (hn q)

lemma Inv.move (h : Inv s) (hp : Active s p) (hl : LocOk s p l)
    (hne : ∀ u c a, l ≠ .link u c a) : Inv (s.setLoc p l) := by
  refine h.setLoc (h.lt_created hp.1) (h.not_freed hp) (fun q u a hq => ?_) hl hne
  have hok := h.loc q
  rw [hq] at hok
  exact hp.1 hok.2.1

lemma Inv.edit (h : Inv s) (htid : ∀ x, (f x).tid = x.tid)
    (hflag : ∀ x, (f x).loadSucceeded = x.loadSucceeded) (hwait : (f (s.thread c)).waitSema.value = 0)
    (hload : (f (s.thread c)).loadSema.value ≠ 0 → s.loaded c ≠ none)
    (hold : (f (s.thread c)).childList = s.childList c ∨ s.loc c = .running)
    (hnew : ∀ d ∈ (f (s.thread c)).childList,
      d ∈ s.childList c ∨ d < s.created ∧ d ≠ c ∧ ∀ q u a, s.loc q ≠ .link u d a) :
    Inv (s.edit c f) := by
  have hthread : ∀ d, d ≠ c → (s.edit c f).thread d = s.thread d := fun d hd => update_of_ne hd _ _
  have hself : (s.edit c f).thread c = f (s.thread c) := update_self _ _ _
  have hlist : ∀ q, (f (s.thread c)).childList = s.childList c ∨ q ≠ c →
      (s.edit c f).childList q = s.childList q := by
    intro q hq
    by_cases hqc : q = c
    · rw [hqc, State.childList, hself, hq.resolve_right (not_not_intro hqc)]
    · rw [State.childList, hthread q hqc, State.childList]
  have hmem : ∀ q, ∀ d ∈ (s.edit c f).childList q,
      d ∈ s.childList q ∨ d < s.created ∧ d ≠ q ∧ ∀ r u a, s.loc r ≠ .link u d a := by
    intro q d hd
    by_cases hqc : q = c
    · rw [hqc, State.childList, hself] at hd
      exact hqc ▸ hnew d hd
    · exact Or.inl (hlist q (Or.inr hqc) ▸ hd)
  have htids : (s.edit c f).tid = s.tid := edit_tid htid
  refine ⟨fun d hd => ?_, htids ▸ h.tids, htids ▸ h.inj, fun q d hd => ?_, fun q hq => ?_, h.owner, h.gone,
    fun d => ?_, fun d => ?_, fun d => ?_, fun q => ?_⟩
  · obtain ⟨hu, hf, hl⟩ := h.fresh d hd
    refine ⟨hu, hf, (hlist d (hold.imp_right fun hr e => ?_)).trans hl⟩
    simp [← e, hu] at hr
  · exact (hmem q d hd).elim (h.child q d) And.left
  · exact (hmem q q hq).elim (h.irrefl q) fun hn => hn.2.1 rfl
  · by_cases hd : d = c
    · rw [hd, hself, hwait]
    · rw [hthread d hd, h.wait d]
  · by_cases hd : d = c
    · rw [hd, hself, hflag, h.flag c]
    · rw [hthread d hd, h.flag d]
  · by_cases hd : d = c
    · rw [hd, hself]
      exact hload
    · rw [hthread d hd]
      exact h.sema d
  · by_cases hq : (f (s.thread c)).childList = s.childList c ∨ q ≠ c
    · refine (h.loc q).mono (h.child q) (Nat.le_refl _) (hlist q hq) (fun _ _ => by rw [htids])
        (fun _ hb => hb) rfl (fun _ hd => hd) fun u d a hl => ⟨rfl, rfl, fun r hr hd => ?_⟩
      exact (hmem r d hd).elim hr fun hn => hn.2.2 q u a hl
    · obtain ⟨hchanged, hqc⟩ := not_or.mp hq
      change LocOk _ q (s.loc q)
      rw [not_not.mp hqc, hold.resolve_left hchanged]
      trivial

lemma Inv.quiet (h : Inv s) (hf : Quiet f) (hwait : (f (s.thread c)).waitSema.value = 0)
    (hload : (f (s.thread c)).loadSema.value ≠ 0 → s.loaded c ≠ none) : Inv (s.edit c f) := by
  refine h.edit hf.tid hf.loadSucceeded hwait hload (Or.inl (hf.childList _)) fun d hd => Or.inl ?_
  rwa [hf.childList] at hd

lemma Loc.wake_cases (l : Loc) :
    (∃ f tid c, l = .blocked f tid c ∧ l.wake = .down f tid c) ∨ l.wake = l := by
  cases l with
  | blocked f tid c => exact Or.inl ⟨f, tid, c, rfl, rfl⟩
  | _ => exact Or.inr rfl

lemma State.wake_cases (s : State) (o : Option Nat) :
    (∃ w f tid c, s.loc w = .blocked f tid c ∧ s.wake o = s.setLoc w (.down f tid c)) ∨
      s.wake o = s := by
  cases o with
  | none => exact Or.inr rfl
  | some w =>
    rcases (s.loc w).wake_cases with ⟨f, tid, c, hl, hw⟩ | hw
    · exact Or.inl ⟨w, f, tid, c, hl, by rw [State.wake, hw]⟩
    · refine Or.inr ?_
      rw [State.wake, hw]
      simp [State.setLoc]

@[simp] lemma wake_childList (o : Option Nat) : (s.wake o).childList = s.childList := by
  cases o <;> rfl

@[simp] lemma wake_tid (o : Option Nat) : (s.wake o).tid = s.tid := by
  cases o <;> rfl

@[simp] lemma wake_freed (o : Option Nat) : (s.wake o).freed = s.freed := by
  cases o <;> rfl

@[simp] lemma wake_loaded (o : Option Nat) : (s.wake o).loaded = s.loaded := by
  cases o <;> rfl

lemma wake_loc (hp : ∀ f tid c, s.loc p ≠ .blocked f tid c) (o : Option Nat) :
    (s.wake o).loc p = s.loc p := by
  rcases s.wake_cases o with ⟨w, f, tid, c, hl, hw⟩ | hw
  · have hpw : p ≠ w := fun e => hp f tid c (e ▸ hl)
    simp [hw, hpw]
  · rw [hw]

lemma Inv.wake (h : Inv s) (o : Option Nat) : Inv (s.wake o) := by
  rcases s.wake_cases o with ⟨w, f, tid, c, hl, hw⟩ | hw
  · have hok := h.loc w
    rw [hl] at hok
    rw [hw]
    exact h.move ⟨by simp [hl], by simp [hl]⟩ hok (by simp)
  · rw [hw]
    exact h

lemma State.touch_cases (s t : State) (p : Nat) (ds : List Nat) :
    (∃ d ∈ ds, s.freed d = true ∧ s.touch p ds t = s.setLoc p (.fault (s.loc p).work d)) ∨
      (∀ d ∈ ds, s.freed d = false) ∧ s.touch p ds t = t := by
  cases hd : ds.find? s.freed with
  | some d =>
    refine Or.inl ⟨d, List.mem_of_find?_eq_some hd, List.find?_some hd, ?_⟩
    rw [State.touch, hd]
  | none =>
    refine Or.inr ⟨fun d hm => ?_, ?_⟩
    · exact eq_false_of_ne_true (List.find?_eq_none.mp hd d hm)
    · rw [State.touch, hd]

lemma Inv.touch (h : Inv s) (hp : Active s p) {ds : List Nat} (hds : ds ⊆ s.childList p)
    (ht : Inv t) : Inv (s.touch p ds t) := by
  rcases s.touch_cases t p ds with ⟨d, hd, hf, he⟩ | ⟨-, he⟩
  · rw [he]
    exact h.move hp ⟨hds hd, hf⟩ (by simp)
  · rw [he]
    exact ht

lemma Inv.free (h : Inv s) (hc : s.loc c = .unused ∨ ∃ how, s.loc c = .exited how)
    (hlt : c < s.created) (hn : ∀ q u a, s.loc q ≠ .link u c a) : Inv (s.free c) := by
  refine ⟨fun d hd => ?_, h.tids, h.inj, h.child, h.irrefl, h.owner, fun d hd => ?_, h.wait, h.flag, h.sema,
    fun q => ?_⟩
  · have hdc : d ≠ c := fun e => Nat.not_le_of_lt hlt (e ▸ hd)
    simpa [State.childList, hdc] using h.fresh d hd
  · by_cases hdc : d = c
    · exact hdc ▸ hc
    · exact h.gone d (by simpa [hdc] using hd)
  · refine (h.loc q).mono (h.child q) (Nat.le_refl _) rfl (fun _ _ => rfl) (fun _ hb => hb) rfl
      (fun d hd => ?_) fun u d a hl => ?_
    · by_cases hdc : d = c
      · simp [hdc]
      · simpa [hdc] using hd
    · have hdc : d ≠ c := fun e => hn q u a (e ▸ hl)
      exact ⟨rfl, by simp [hdc], fun _ hm => hm⟩

lemma Inv.executed (h : Inv s) (hp : Active s p)
    (htid : tid = tidError ∨ ∃ c ∈ s.childList p, s.tid c = tid) : Inv (s.executed p u tid) := by
  cases u with
  | runTask =>
    refine h.move hp ⟨fun _ hc => hc, fun _ hc _ => hc, ?_⟩ (by simp [Starter.resume])
    simp
  | exec =>
    simp only [State.executed, Starter.resume]
    split_ifs with he
    · exact h.move hp ⟨rfl, by simp⟩ (by simp)
    · exact h.move hp ⟨fun _ hc => hc, fun _ hc _ => hc, fun _ => htid.resolve_left he⟩ (by simp)

lemma setLoc_setLoc (s : State) (p : Nat) (a b : Loc) :
    (s.setLoc p a).setLoc p b = s.setLoc p b := by
  simp [State.setLoc]

lemma setLoc_comm (s : State) (hpc : p ≠ c) (a b : Loc) :
    (s.setLoc p a).setLoc c b = (s.setLoc c b).setLoc p a := by
  simp [State.setLoc, update_comm hpc]

lemma executed_setLoc (hpc : p ≠ c) (a b : Loc) (u : Starter) (tid : Int) :
    ((s.setLoc p a).setLoc c b).executed p u tid = (s.setLoc c b).executed p u tid := by
  rw [setLoc_comm _ hpc, State.executed, State.executed, setLoc_setLoc]
  rfl

section Create

variable (s p) (u : Starter) (params : Params)

lemma threadCreate_tid (hc : c < s.created) : (threadCreate s p u params true).tid c = s.tid c := by
  simp [threadCreate, State.tid, Nat.ne_of_lt hc]

lemma threadCreate_tid_created : (threadCreate s p u params true).tid s.created = s.nextTid := by
  simp [threadCreate, State.tid, initThread]

lemma Inv.threadCreate_childList (h : Inv s) :
    (threadCreate s p u params true).childList = s.childList := by
  funext q
  by_cases hq : q = s.created
  · rw [hq, (h.fresh s.created (Nat.le_refl _)).2.2]
    simp [threadCreate, State.childList, initThread]
  · simp [threadCreate, State.childList, hq]

end Create

lemma Inv.create (h : Inv s) (hc : s.loc p = .create u params) : Inv (threadCreate s p u params true) := by
  set t := threadCreate s p u params true with ht
  have hp : Active s p := ⟨by simp [hc], by simp [hc]⟩
  have hok := h.loc p
  rw [hc] at hok
  have hlt := h.lt_created hp.1
  have hne : ∀ c, s.created ≤ c → c ≠ p := fun c hc e => Nat.not_le_of_lt hlt (e ▸ hc)
  have hloc : ∀ q, q ≠ p → t.loc q = s.loc q := fun q hq => update_of_ne hq _ _
  have hself : t.loc p = .link u s.created params := update_self _ _ _
  have hcreated : t.created = s.created + 1 := rfl
  have hlist : t.childList = s.childList := h.threadCreate_childList s p u params
  have htid : ∀ c < s.created, t.tid c = s.tid c := fun c => threadCreate_tid s p u params
  have htid' : t.tid s.created = s.nextTid := threadCreate_tid_created s p u params
  have hthread : ∀ c, t.thread c = s.thread c ∨ t.thread c = initThread s.nextTid := by
    intro c
    by_cases hc : c = s.created
    · exact Or.inr (by simp [ht, threadCreate, hc])
    · exact Or.inl (by simp [ht, threadCreate, hc])
  have hlinks : ∀ q v c a, s.loc q = .link v c a → c < s.created ∧ c ≠ p := by
    intro q v c a hq
    have hok := h.loc q
    rw [hq] at hok
    exact ⟨hok.1, fun e => hp.1 (e ▸ hok.2.1)⟩
  refine ⟨fun c hc => ?_, fun c hc => ?_, fun c hc d hd he => ?_, fun q c hc => ?_,
    hlist ▸ h.irrefl, fun q r v w c a b hq hr => ?_, fun c hc => ?_, fun c => ?_, fun c => ?_, fun c => ?_,
    fun q => ?_⟩
  · have hle : s.created ≤ c := Nat.le_of_succ_le hc
    rw [hloc c (hne c hle), hlist]
    exact h.fresh c hle
  · have hnext : (0 : Int) < s.nextTid := Int.lt_trans (h.tids p hlt).1 (h.tids p hlt).2
    change _ ∧ _ < s.nextTid + 1
    rcases Nat.lt_succ_iff_lt_or_eq.mp hc with hc | rfl
    · rw [htid c hc]
      exact ⟨(h.tids c hc).1, Int.lt_trans (h.tids c hc).2 (Int.lt_succ _)⟩
    · rw [htid']
      exact ⟨hnext, Int.lt_succ _⟩
  · rcases Nat.lt_succ_iff_lt_or_eq.mp hc with hc | rfl <;>
      rcases Nat.lt_succ_iff_lt_or_eq.mp hd with hd | rfl
    · exact h.inj c hc d hd (by rw [← htid c hc, ← htid d hd, he])
    · rw [htid c hc, htid'] at he
      exact absurd he (Int.ne_of_lt (h.tids c hc).2)
    · rw [htid d hd, htid'] at he
      exact absurd he.symm (Int.ne_of_lt (h.tids d hd).2)
    · rfl
  · exact Nat.lt_succ_of_lt (h.child q c (hlist ▸ hc))
  · by_cases hqp : q = p
    · by_cases hrp : r = p
      · rw [hqp, hrp]
      · rw [hqp, hself] at hq
        cases hq
        exact absurd (hlinks r w _ b (hloc r hrp ▸ hr)).1 (Nat.lt_irrefl _)
    · by_cases hrp : r = p
      · rw [hrp, hself] at hr
        cases hr
        exact absurd (hlinks q v _ a (hloc q hqp ▸ hq)).1 (Nat.lt_irrefl _)
      · exact h.owner q r v w c a b (hloc q hqp ▸ hq) (hloc r hrp ▸ hr)
  · have hcp : c ≠ p := by
      rintro rfl
      exact Bool.false_ne_true ((h.not_freed hp).symm.trans hc)
    rw [hloc c hcp]
    exact h.gone c hc
  · rcases hthread c with he | he
    · rw [he, h.wait c]
    · rw [he, initThread]
  · rcases hthread c with he | he
    · rw [he, h.flag c]
    · rw [he, initThread]
  · rcases hthread c with he | he
    · rw [he]
      exact h.sema c
    · rw [he]
      exact fun hv => absurd rfl hv
  · by_cases hq : q = p
    · rw [hq, hself]
      refine ⟨Nat.lt_succ_self _, ?_, (h.fresh _ (Nat.le_refl _)).2.1, fun r hr => ?_, hok⟩
      · rw [hloc _ (hne _ (Nat.le_refl _))]
        exact (h.fresh _ (Nat.le_refl _)).1
      · exact Nat.lt_irrefl _ (h.child r _ (hlist ▸ hr))
    · rw [hloc q hq]
      refine (h.loc q).mono (h.child q) (Nat.le_succ _) (by rw [hlist]) htid (fun _ hb => hb) rfl (fun _ hd => hd) ?_
      intro v c a hl
      exact ⟨hloc c (hlinks q v c a hl).2, rfl, fun r hr => hlist ▸ hr⟩

lemma Inv.link (h : Inv s) (hp : s.loc p = .link u c params) : Inv
    (((s.edit p fun x => { x with childList := x.childList ++ [c] }).setLoc c
      (.start params)).executed p u (s.tid c)) := by
  have hok := h.loc p
  rw [hp] at hok
  obtain ⟨hc, hu, hf, -, -⟩ := hok
  have hpc : p ≠ c := by
    rintro rfl
    simp [hp] at hu
  have hactive : Active s p := ⟨by simp [hp], by simp [hp]⟩
  have hn : ∀ q v a, (s.setLoc p .running).loc q ≠ .link v c a := by
    intro q v a hq
    by_cases hqp : q = p
    · simp [hqp] at hq
    · exact hqp (h.owner q p v u c a params (by simpa [hqp] using hq) hp)
  have hrun : Inv (s.setLoc p .running) := h.move hactive trivial (by simp)
  have hpush := hrun.edit (c := p) (f := fun x => { x with childList := x.childList ++ [c] }) (fun _ => rfl)
    (fun _ => rfl) (hrun.wait p) (hrun.sema p) (Or.inr (by simp)) (by
      intro d hd
      refine (List.mem_append.mp hd).imp_right fun hm => ?_
      rw [List.mem_singleton.mp hm]
      exact ⟨hc, hpc.symm, hn⟩)
  have hbegin := hpush.setLoc (l := .start params) hc hf hn trivial (by simp)
  rw [← executed_setLoc hpc .running]
  refine hbegin.executed ⟨by simp [hpc], by simp [hpc]⟩ (Or.inr ⟨c, ?_, ?_⟩)
  · simp [State.childList, State.edit]
  · simp [State.tid, State.edit, hpc.symm]

lemma Inv.unlinked (h : Inv s) (hp : s.loc p = .link u c params) : Inv ((s.free c).executed p u tidError) := by
  have hok := h.loc p
  rw [hp] at hok
  have hpc : p ≠ c := by
    rintro rfl
    exact absurd hok.2.1 (by simp [hp])
  have hexec : Inv (s.executed p u tidError) :=
    h.executed ⟨by simp [hp], by simp [hp]⟩ (Or.inl rfl)
  refine hexec.free (Or.inl ?_) hok.1 fun q v a hq => ?_
  · simpa [State.executed, hpc.symm] using hok.2.1
  · by_cases hqp : q = p
    · cases u <;> simp [State.executed, Starter.resume, hqp] at hq
    · refine hqp (h.owner q p v u c a params ?_ hp)
      simpa [State.executed, hqp] using hq

lemma Quiet.setSema (f : Finder) (x : Semaphore Nat) : Quiet fun t => f.setSema x t := by
  cases f with
  | exec => exact ⟨fun _ => rfl, fun _ => rfl, fun _ => rfl⟩
  | wait => exact ⟨fun _ => rfl, fun _ => rfl, fun _ => rfl⟩

lemma Quiet.setPagedir (b : Bool) : Quiet fun t => { t with pagedir := b } :=
  ⟨fun _ => rfl, fun _ => rfl, fun _ => rfl⟩

lemma Quiet.setExitStatus (status : Int) : Quiet fun t => { t with exitStatus := status } :=
  ⟨fun _ => rfl, fun _ => rfl, fun _ => rfl⟩

lemma Inv.setSema (h : Inv s) (f : Finder) {x : Semaphore Nat} (hwait : f = .wait → x.value = 0)
    (hload : f = .exec → x.value ≠ 0 → s.loaded c ≠ none) :
    Inv (s.edit c fun t => f.setSema x t) := by
  refine h.quiet (Quiet.setSema f x) ?_ ?_
  · cases f with
    | exec => exact h.wait c
    | wait => exact hwait rfl
  · cases f with
    | exec => exact hload rfl
    | wait => exact h.sema c

lemma Inv.downOn (h : Inv s) {f : Finder} (hp : s.loc p = .down f tid c) :
    Inv (downOn s p f tid c) := by
  have hactive : Active s p := ⟨by simp [hp], by simp [hp]⟩
  have hok := h.loc p
  rw [hp] at hok
  refine h.touch hactive (List.cons_subset.mpr ⟨hok.1, List.nil_subset _⟩) ?_
  set r := semaDown (f.sema (s.thread c)) p with hr
  have hq := Quiet.setSema f r.2
  have hmem : c ∈ (s.edit c fun t => f.setSema r.2 t).childList p ∧
      (s.edit c fun t => f.setSema r.2 t).tid c = tid := by
    rw [hq.edit_childList, edit_tid hq.tid]
    exact hok
  by_cases hz : (f.sema (s.thread c)).value = 0
  · have hblock : r.1 = false ∧ r.2.value = 0 := by simp [hr, semaDown_zero _ p hz, hz]
    rw [hblock.1]
    refine (h.setSema f (fun _ => hblock.2) ?_).move hactive hmem (by simp)
    exact fun _ hv => absurd hblock.2 hv
  · have hpass : r.1 = true := by simp [hr, semaDown_pos _ p hz]
    rw [hpass]
    cases f with
    | wait => exact absurd (h.wait c) hz
    | exec =>
      have hloaded := h.sema c hz
      refine (h.setSema .exec nofun fun _ _ => hloaded).move hactive ?_ (by simp [Finder.passed])
      exact ⟨hmem.1, hmem.2, hloaded⟩

lemma Inv.threadGetChild (h : Inv s) {f : Finder} {rest : List Nat}
    (hp : s.loc p = .find f tid rest) : Inv (threadGetChild s p f tid rest) := by
  have hactive : Active s p := ⟨by simp [hp], by simp [hp]⟩
  have hok := h.loc p
  rw [hp] at hok
  obtain ⟨hsub, hall, hex⟩ := hok
  cases rest with
  | nil =>
    cases f with
    | exec =>
      obtain ⟨c, hc, ht⟩ := hex rfl
      exact absurd (hall c hc ht) List.not_mem_nil
    | wait => exact h.move hactive rfl (by simp)
  | cons c rest =>
    have hc := hsub List.mem_cons_self
    refine h.touch hactive (List.cons_subset.mpr ⟨hc, List.nil_subset _⟩) ?_
    split_ifs with ht
    · exact h.move hactive ⟨hc, ht⟩ (by simp)
    · refine h.move hactive ⟨fun d hd => hsub (List.mem_cons_of_mem c hd), ?_, hex⟩ (by simp)
      intro d hd htd
      rcases List.mem_cons.mp (hall d hd htd) with rfl | hm
      · exact absurd htd ht
      · exact hm

lemma Inv.upLoad (h : Inv s) {b : Bool} (hp : s.loc p = .loaded b) : Inv (upLoad s p b) := by
  have hok := h.loc p
  rw [hp] at hok
  change s.loaded p = some b at hok
  have hedit : Inv (s.edit p fun t => Finder.exec.setSema (semaUp (s.thread p).loadSema).2 t) :=
    h.setSema .exec nofun fun _ _ => by simp [hok]
  have hloc := wake_loc (s := s.edit p fun t => Finder.exec.setSema (semaUp (s.thread p).loadSema).2 t)
    (p := p) (by simp [hp]) (semaUp (s.thread p).loadSema).1
  refine (hedit.wake (semaUp (s.thread p).loadSema).1).move ?_ ?_ (by simp)
  · rw [Active, hloc]
    exact ⟨by simp [hp], by simp [hp]⟩
  · change (State.wake _ _).loaded p = some b
    rw [wake_loaded]
    exact hok

lemma Inv.loadReturns (h : Inv s)
    (hp : s.loc p = .start params ∨ s.loc p = .load params) (b : Bool) : Inv (s.loadReturns p b) := by
  have hactive : Active s p := by
    rcases hp with hp | hp
    · exact ⟨by simp [hp], by simp [hp]⟩
    · exact ⟨by simp [hp], by simp [hp]⟩
  have hsome : ∀ c, s.loaded c ≠ none → update s.loaded p (some b) c ≠ none := by
    intro c hc
    by_cases hcp : c = p
    · simp [hcp]
    · rwa [update_of_ne hcp]
  have hset : Inv { s with loaded := update s.loaded p (some b) } := by
    refine ⟨h.fresh, h.tids, h.inj, h.child, h.irrefl, h.owner, h.gone, h.wait, h.flag,
      fun c hc => hsome c (h.sema c hc), fun q => ?_⟩
    by_cases hq : q = p
    · change LocOk _ q (s.loc q)
      rcases hp with hp | hp
      · rw [hq, hp]
        trivial
      · rw [hq, hp]
        trivial
    · exact (h.loc q).mono (h.child q) (Nat.le_refl _) rfl (fun _ _ => rfl) hsome
        (update_of_ne hq _ _) (fun _ hd => hd) fun _ _ _ _ => ⟨rfl, rfl, fun _ hn => hn⟩
  refine hset.move hactive ?_ (by simp)
  change update s.loaded p (some b) p = some b
  exact update_self _ _ _

lemma active_of_go {ok : Bool} (hs : go s p ok = some t) : Active s p := by
  refine ⟨fun hp => ?_, fun how hp => ?_⟩
  · simp [Userprog.go, hp] at hs
  · simp [Userprog.go, hp] at hs

lemma Inv.go (h : Inv s) {ok : Bool} (hs : go s p ok = some t) : Inv t := by
  have hok := h.loc p
  have hactive := active_of_go hs
  revert hs
  unfold Userprog.go
  cases hp : s.loc p with
  | unused | running | blocked | exited | fault | panic => exact nofun
  | unlink | readStatus | upDestroy =>
    rw [hp] at hok
    exact hok.elim
  | execute u cmdline =>
    rintro ⟨⟩
    split_ifs
    · rw [hp] at hok
      exact h.move hactive hok (by simp)
    · exact h.executed hactive (Or.inl rfl)
  | create u params =>
    intro hs
    obtain ⟨-, rfl⟩ := guard_eq_some.mp hs
    cases ok with
    | true => exact h.create hp
    | false => exact h.executed hactive (Or.inl rfl)
  | link u c params =>
    rintro ⟨⟩
    cases ok with
    | true =>
      refine h.touch hactive (fun d hd => ?_) (h.link hp)
      exact List.mem_of_getLast? (Option.mem_toList.mp hd)
    | false => exact h.unlinked hp
  | find f tid rest =>
    rintro ⟨⟩
    exact h.threadGetChild hp
  | down f tid c =>
    rintro ⟨⟩
    exact h.downOn hp
  | testLoaded tid c =>
    rw [hp] at hok
    simp only [h.flag c]
    rintro ⟨⟩
    refine h.touch hactive (List.cons_subset.mpr ⟨hok.1, List.nil_subset _⟩)
      (h.move hactive ⟨rfl, fun d hd => ?_⟩ (by simp))
    cases hd
    exact ⟨h.child p c hok.1, hok.2.2⟩
  | returned r =>
    rintro ⟨⟩
    exact h.move hactive trivial (by simp)
  | start params =>
    rintro ⟨⟩
    split_ifs
    · have hedit := h.quiet (Quiet.setPagedir true) (h.wait p) (h.sema p)
      exact hedit.move hactive trivial (by simp)
    · exact h.loadReturns (Or.inl hp) false
  | load params =>
    rintro ⟨⟩
    exact h.loadReturns (Or.inr hp) ok
  | loaded b =>
    rintro ⟨⟩
    exact h.upLoad hp
  | started b =>
    rintro ⟨⟩
    split_ifs
    · exact h.move hactive trivial (by simp)
    · exact h.move hactive trivial (by simp)
  | exiting how =>
    have hedit := h.quiet (Quiet.setPagedir false) (h.wait p) (h.sema p)
    rintro ⟨⟩
    exact hedit.move hactive trivial (by simp)
  | dying how =>
    have hmove : Inv (s.setLoc p (.exited how)) :=
      h.move hactive trivial (by simp)
    rintro ⟨⟩
    split_ifs
    · exact hmove
    · refine hmove.free (Or.inr ⟨how, by simp⟩) (h.lt_created (by simp [hp])) fun q u a hq => ?_
      have hok := hmove.loc q
      rw [hq] at hok
      simpa using hok.2.1

lemma Inv.call (h : Inv s) {r : Request} (hs : call s p r = some t) : Inv t := by
  simp only [Userprog.call, guard_eq_some] at hs
  obtain ⟨⟨hp, hr⟩, rfl⟩ := hs
  have hactive : Active s p := ⟨by simp [hp], by simp [hp]⟩
  cases r with
  | runTask cmdline => exact h.move hactive (fun _ => rfl) (by simp)
  | finish => exact h.move hactive trivial (by simp)
  | exec cmdline =>
    refine h.move hactive (fun h0 => ?_) (by simp)
    exact absurd (hr.mpr h0) (by simp [Request.isKernel])
  | wait tid =>
    refine h.move hactive ⟨fun _ hc => hc, fun _ hc _ => hc, ?_⟩ (by simp)
    simp
  | exit status =>
    have hedit := h.quiet (Quiet.setExitStatus status) (h.wait p) (h.sema p)
    exact hedit.move hactive trivial (by simp)
  | kill => exact h.move hactive trivial (by simp)

lemma boot_childList (p : Nat) : boot.childList p = if p = 0 then [1] else [] := by
  by_cases hp : p = 0
  · simp [boot, State.childList, hp]
  · simp [boot, State.childList, initThread, hp]

lemma boot_tid (p : Nat) : boot.tid p = if p = 0 then 1 else 2 := by
  by_cases hp : p = 0
  · simp [boot, State.tid, initThread, hp]
  · simp [boot, State.tid, initThread, hp]

lemma boot_loc (p : Nat) : boot.loc p = if p = 0 then .running else .unused := rfl

lemma inv_boot : Inv boot := by
  have hthread : ∀ c, (boot.thread c).waitSema = ⟨0, []⟩ ∧ (boot.thread c).loadSema = ⟨0, []⟩ ∧
      (boot.thread c).loadSucceeded = false := by
    intro c
    by_cases hc : c = 0
    · simp [boot, initThread, hc]
    · simp [boot, initThread, hc]
  refine ⟨fun c hc => ?_, fun c hc => ?_, fun c hc d hd he => ?_, fun p c hc => ?_,
    fun p hp => ?_, fun p q u v c a b hp _ => ?_, nofun, fun c => ?_, fun c => (hthread c).2.2, fun c hv => ?_,
    fun p => ?_⟩
  · have h0 : c ≠ 0 := Nat.ne_of_gt (Nat.lt_of_lt_of_le (by decide) hc)
    rw [boot_loc, boot_childList, if_neg h0, if_neg h0]
    exact ⟨rfl, rfl, rfl⟩
  · rw [boot_tid]
    split_ifs <;> exact ⟨by decide, by decide⟩
  · change c < 2 at hc
    change d < 2 at hd
    rw [boot_tid, boot_tid] at he
    split_ifs at he <;> omega
  · rw [boot_childList] at hc
    split_ifs at hc
    · simp at hc
      subst hc
      decide
    · simp at hc
  · rw [boot_childList] at hp
    split_ifs at hp with h0
    · simp [h0] at hp
    · simp at hp
  · rw [boot_loc] at hp
    split_ifs at hp
  · rw [(hthread c).1]
  · rw [(hthread c).2.1] at hv
    exact absurd rfl hv
  · rw [boot_loc]
    split_ifs <;> trivial

theorem inv_next (h : Inv s) {e : Event} (hs : next s e = some t) : Inv t := by
  cases e with
  | call p r => exact h.call hs
  | go p ok => exact h.go hs

theorem inv_reachable (hs : system.Reachable s) : Inv s := by
  refine hs.invariant (I := Inv) ?_ fun _ _ _ h hn => inv_next h hn
  rintro _ rfl
  exact inv_boot

end Pintos.Userprog
