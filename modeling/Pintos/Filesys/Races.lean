import Pintos.Filesys.Creators
import Mathlib.Data.List.TakeWhile

/-! What the directory holds while two processes create files in it. -/

namespace Pintos.Filesys

open Pintos.Foundation Pintos.Kernel

variable {s t : Fs} {b b' : Books} {refs held : List Nat} {mine theirs ph : Phase} {x k : Nat} {c : Creators}
  {stale : Bool}

lemma Knows.congr (h : Knows s b stale ph) (hs : ∀ l < rootEntries, t.slot b'.root l = s.slot b.root l) :
    Knows t b' stale ph := by
  have hno : ∀ name, (∀ l < rootEntries, ¬ Found (s.slot b.root l) name) →
      ∀ l < rootEntries, ¬ Found (t.slot b'.root l) name := by
    intro name hn l hl
    rw [hs l hl]
    exact hn l hl
  cases ph with
  | looked r dir x => exact ⟨h.1, fun hst => hno _ (h.2 hst)⟩
  | chosen r dir x e ofs =>
    obtain ⟨hv, hlen, k, hk, hofs, hf⟩ := h
    exact ⟨hv, hlen, k, hk, hofs, fun hst => ⟨hno _ (hf hst).1, fun hlt => hs k hlt ▸ (hf hst).2 hlt⟩⟩
  | _ => trivial

lemma Knows.outdated (h : Knows s b stale ph) : Knows t b' true ph := by
  cases ph with
  | looked r dir x => exact ⟨h.1, nofun⟩
  | chosen r dir x e ofs =>
    obtain ⟨hv, hlen, k, hk, hofs, _⟩ := h
    exact ⟨hv, hlen, k, hk, hofs, nofun⟩
  | _ => trivial

def Written.Stays (w : Written) (s : Fs) (b : Books) : Prop :=
  ∃ k < rootEntries, w.ofs = entrySize * k ∧ Found (s.slot b.root k) w.name ∧
    entrySector (s.slot b.root k) = w.sector

def NamesOnce (s : Fs) (b : Books) : Prop :=
  ∀ k < rootEntries, ∀ l < rootEntries, ∀ name, Found (s.slot b.root k) name →
    Found (s.slot b.root l) name → k = l

structure Coherent (x : Creators) (b : Books) (held : List Nat) : Prop where
  shares : Shares x.fs b held (x.phase .one) (x.phase .two)
  once : NamesOnce x.fs b
  entered : ∀ w ∈ x.entered, w.Stays x.fs b
  knows : ∀ p, Knows x.fs b (x.stale p) (x.phase p)
  succeeds : ∀ p r, (x.phase p).succeeds = some r → ∃ w ∈ x.entered, w.name = r.name
  answers : ∀ r, (r, true) ∈ x.answers → ∃ w ∈ x.entered, w.name = r.name

lemma NamesOnce.congr (h : NamesOnce s b) (hs : ∀ l < rootEntries, t.slot b'.root l = s.slot b.root l) :
    NamesOnce t b' := by
  intro k hk l hl name
  rw [hs k hk, hs l hl]
  exact h k hk l hl name

lemma Written.Stays.congr {w : Written} (h : w.Stays s b)
    (hs : ∀ l < rootEntries, t.slot b'.root l = s.slot b.root l) : w.Stays t b' := by
  obtain ⟨k, hk, hofs, hf, hsec⟩ := h
  exact ⟨k, hk, hofs, hs k hk ▸ hf, hs k hk ▸ hsec⟩

lemma Written.Stays.enters {w : Written} (h : w.Stays s b) {name : Name}
    (he : Enters s t b.root name x k) (hfree : entryInUse (s.slot b.root k) = false) : w.Stays t b := by
  obtain ⟨l, hl, hofs, hf, hsec⟩ := h
  have hlk : l ≠ k := by
    rintro rfl
    rw [hf.1] at hfree
    cases hfree
  rw [← he.others l hl hlk] at hf hsec
  exact ⟨l, hl, hofs, hf, hsec⟩

lemma Outcome.directory (h : Outcome s t b held mine theirs ph stale) (hone : NamesOnce s b) :
    NamesOnce t b ∧ (∀ w : Written, w.Stays s b → w.Stays t b) ∧
      (∀ w, mine.wrote ph = some w → w.Stays t b) ∧
      ∀ st ph', Knows s b st ph' → Knows t b (st || (mine.wrote ph).isSome) ph' := by
  cases hw : mine.wrote ph with
  | none =>
    have hs : ∀ l < rootEntries, t.slot b.root l = s.slot b.root l := fun l hl => slot_congr (h.same hw) hl
    refine ⟨hone.congr hs, fun w hst => hst.congr hs, nofun, fun st ph' hk => ?_⟩
    rw [Option.isSome_none, Bool.or_false]
    exact hk.congr hs
  | some w =>
    obtain ⟨k, hofs, hent, hfree, hno⟩ := h.wrote w hw
    refine ⟨hent.once hno hone, fun w hst => hst.enters hent hfree, ?_, fun st ph' hk => ?_⟩
    · rintro w' ⟨⟩
      exact ⟨k, hent.lt, hofs, hent.found, hent.sector⟩
    · rw [Option.isSome_some, Bool.or_true]
      exact hk.outdated

namespace Coherent

variable {p : Proc}

lemma shares_of (h : Coherent c b held) (p : Proc) : Shares c.fs b held (c.phase p) (c.phase p.other) := by
  cases p with
  | one => exact h.shares
  | two => exact h.shares.symm

lemma moved (h : Coherent c b held) (hs : s.slot b.root = c.fs.slot b.root)
    (ho : Outcome s t b held (c.phase p) (c.phase p.other) ph (c.stale p)) :
    ∃ b', Coherent (c.moved p ph t) b' held := by
  have hback : ∀ l < rootEntries, s.slot b.root l = c.fs.slot b.root l := fun l _ => congrFun hs l
  obtain ⟨hone, hstay, hnew, hknow⟩ := ho.directory (h.once.congr hback)
  obtain ⟨b', hsh, hroot⟩ := ho.shares
  have hsame : ∀ l < rootEntries, t.slot b'.root l = t.slot b.root l := fun l _ => by rw [hroot]
  have hin : ∀ r, (c.phase p).succeeds = some r → ∃ w ∈ (c.moved p ph t).entered, w.name = r.name := by
    intro r hr
    obtain ⟨w, hw, hname⟩ := h.succeeds p r hr
    exact ⟨w, List.mem_append_right _ hw, hname⟩
  refine ⟨b', ?_, hone.congr hsame, ?_, ?_, ?_, ?_⟩
  · cases p with
    | one => exact hsh
    | two => exact hsh.symm
  · intro w hw
    rcases List.mem_append.mp hw with hw | hw
    · exact (hnew w (Option.mem_toList.mp hw)).congr hsame
    · exact (hstay w ((h.entered w hw).congr hback)).congr hsame
  · intro q
    by_cases hq : q = p
    · subst hq
      simp only [Creators.moved, if_true, Function.update_self]
      exact ho.knows.congr hsame
    · simp only [Creators.moved, if_neg hq, Function.update_of_ne hq]
      exact (hknow _ _ ((h.knows q).congr hback)).congr hsame
  · intro q r hr
    by_cases hq : q = p
    · subst hq
      simp only [Creators.moved, Function.update_self] at hr
      obtain ⟨w, hw, hname⟩ := ho.succeeds r hr
      exact ⟨w, List.mem_append_left _ (Option.mem_toList.mpr hw), hname⟩
    · simp only [Creators.moved, Function.update_of_ne hq] at hr
      obtain ⟨w, hw, hname⟩ := h.succeeds q r hr
      exact ⟨w, List.mem_append_right _ hw, hname⟩
  · intro r hr
    rcases List.mem_append.mp hr with hr | hr
    · exact hin r (ho.answered r (Option.mem_toList.mp hr))
    · obtain ⟨w, hw, hname⟩ := h.answers r hr
      exact ⟨w, List.mem_append_right _ hw, hname⟩

lemma call (h : Coherent c b held) (hp : (c.phase p).resting = true) (r : Request) :
    Coherent { c with phase := Function.update c.phase p (.called r) } b held := by
  have hsh : Shares c.fs b held (.called r) (c.phase p.other) := by
    have hs := h.shares_of p
    refine hs.move ?_ (.of_sameTable (.refl _)) ⟨fun _ _ => id, fun _ _ => id⟩ ⟨nofun, nofun, nofun⟩ nofun
    have hrefs : (c.phase p).refs = [] := by
      cases hph : c.phase p with
      | idle => rfl
      | done r ok => rfl
      | _ =>
        rw [hph] at hp
        cases hp
    have hinv := hs.inv
    rw [hrefs] at hinv
    exact hinv
  refine ⟨?_, h.once, h.entered, fun q => ?_, fun q r' hr => ?_, h.answers⟩
  · cases p with
    | one => exact hsh
    | two => exact hsh.symm
  · by_cases hq : q = p
    · subst hq
      simp only [Function.update_self]
      trivial
    · simp only [Function.update_of_ne hq]
      exact h.knows q
  · by_cases hq : q = p
    · subst hq
      simp only [Function.update_self] at hr
      cases hr
    · simp only [Function.update_of_ne hq] at hr
      exact h.succeeds q r' hr

end Coherent

lemma Inv.entryNames_nodup_iff (h : Inv s b refs) : (s.entries.map entryName).Nodup ↔ NamesOnce s b := by
  have hname : ∀ e, 0 ∉ entryName e := by
    intro e hm
    have := List.mem_takeWhile_imp hm
    simp at this
  rw [h.entries_eq, List.filter_map, List.map_map, List.nodup_map_iff_inj_on (List.nodup_range.filter _)]
  constructor
  · intro hinj k hk l hl name hf hf'
    refine hinj k ?_ l ?_ (hf.2.symm.trans hf'.2)
    · exact List.mem_filter.mpr ⟨List.mem_range.mpr hk, hf.1⟩
    · exact List.mem_filter.mpr ⟨List.mem_range.mpr hl, hf'.1⟩
  · intro hone k hk l hl he
    obtain ⟨hk, hu⟩ := List.mem_filter.mp hk
    obtain ⟨hl, hu'⟩ := List.mem_filter.mp hl
    exact hone k (List.mem_range.mp hk) l (List.mem_range.mp hl) ⟨entryName (s.slot b.root k), hname _⟩
      ⟨hu, rfl⟩ ⟨hu', he⟩

def Creators.careful (c : Creators) : Act → Bool
  | .call .. => true
  | .step p mallocs => (c.phase p).careful mallocs (c.stale p)

lemma coherent_of_init (h : creators.init c) : ∃ b held, Coherent c b held := by
  obtain ⟨⟨m, hm, hone, hfs⟩, hphase, hstale, hentered, hanswers⟩ := h
  obtain ⟨b, held, hlive, _⟩ := reachable_good hm
  rw [hlive.inv.entryNames_nodup_iff] at hone
  rw [← hfs] at hlive hone
  refine ⟨b, held.map Prod.snd, ?_, hone, ?_, ?_, ?_, ?_⟩
  · rw [hphase]
    exact ⟨hlive.inv, ⟨nofun, nofun, nofun⟩, ⟨nofun, nofun, nofun⟩, nofun⟩
  · rw [hentered]
    exact fun _ hw => absurd hw List.not_mem_nil
  · rw [hphase]
    exact fun _ => trivial
  · rw [hphase]
    exact fun _ _ => nofun
  · rw [hanswers]
    exact fun _ hr => absurd hr List.not_mem_nil

lemma Coherent.next {c c' : Creators} {a : Act} (h : Coherent c b held) (ha : c.careful a = true)
    (hn : c.next a = some c') : ∃ b', Coherent c' b' held := by
  cases a with
  | call p r =>
    rw [Creators.next] at hn
    split at hn
    · next hp =>
      cases hn
      exact ⟨b, h.call hp r⟩
    · cases hn
  | step p mallocs =>
    rw [Creators.next] at hn
    split at hn
    · cases hn
    · next hp =>
      split at hn
      · next ph fs hrun =>
        cases hn
        have hk : Knows { c.fs with mallocs } b (c.stale p) (c.phase p) := (h.knows p).congr fun _ _ => rfl
        have ho := ((h.shares_of p).with_mallocs mallocs).step hk ha (by simpa using hp) hrun
        exact h.moved (s := { c.fs with mallocs }) rfl ho
      · cases hn

lemma reachable_coherent (h : creators.ReachableWhere (fun c a => c.careful a = true) c) :
    ∃ b held, Coherent c b held := by
  refine h.invariant (fun _ => coherent_of_init) ?_
  rintro c a c' ⟨b, held, hc⟩ ha hn
  obtain ⟨b', hc'⟩ := hc.next ha hn
  exact ⟨b', held, hc'⟩

def Fs.rootEntry (s : Fs) (ofs : Nat) : List Byte :=
  s.disk.read (512 * (s.diskInode rootDirSector).start + ofs) entrySize

lemma Inv.rootEntry_eq (h : Inv s b refs) (k : Nat) : s.rootEntry (entrySize * k) = s.slot b.root k := by
  have hroot := h.diskInode_eq b.root_mem
  rw [b.root_sector] at hroot
  rw [Fs.rootEntry, hroot]
  rfl

lemma Inv.slot_mem_entries (h : Inv s b refs) (hk : k < rootEntries)
    (hu : entryInUse (s.slot b.root k) = true) : s.slot b.root k ∈ s.entries := by
  rw [h.entries_eq]
  exact List.mem_filter.mpr ⟨List.mem_map.mpr ⟨k, List.mem_range.mpr hk, rfl⟩, hu⟩

theorem careful_creates_keep_entries {c : Creators} (h : creators.ReachableWhere (fun c a => c.careful a = true) c) :
    (c.fs.entries.map entryName).Nodup ∧
      (∀ w ∈ c.entered, Found (c.fs.rootEntry w.ofs) w.name ∧ entrySector (c.fs.rootEntry w.ofs) = w.sector) ∧
      ∀ r, (r, true) ∈ c.answers → ∃ e ∈ c.fs.entries, entryName e = r.name.val := by
  obtain ⟨b, held, hc⟩ := reachable_coherent h
  have hinv := hc.shares.inv
  refine ⟨hinv.entryNames_nodup_iff.mpr hc.once, fun w hw => ?_, fun r hr => ?_⟩
  · obtain ⟨k, _, hofs, hf, hsec⟩ := hc.entered w hw
    rw [hofs, hinv.rootEntry_eq]
    exact ⟨hf, hsec⟩
  · obtain ⟨w, hw, hname⟩ := hc.answers r hr
    obtain ⟨k, hk, _, hf, _⟩ := hc.entered w hw
    exact ⟨_, hinv.slot_mem_entries hk hf.1, by rw [← hf.2, hname]⟩

def race (S : System Creators Act) (acts : List Act) : Option Creators :=
  (smallRun []).bind fun m => S.exec ⟨m.fs, fun _ => .idle, fun _ => false, [], []⟩ acts

lemma race_init {m : Machine} (h : smallRun [] = some m) :
    creators.init ⟨m.fs, fun _ => .idle, fun _ => false, [], []⟩ := by
  refine ⟨⟨m, (smallRun_reachable h).reachable, ?_, rfl⟩, rfl, rfl, rfl, rfl⟩
  have he : ((smallRun []).map fun m => m.fs.entries) = some [] := by decide +kernel
  rw [h] at he
  have he : m.fs.entries = [] := Option.some.inj he
  rw [he]
  exact List.nodup_nil

lemma race_reachable {acts : List Act} (h : race creators acts = some c) : creators.Reachable c := by
  obtain ⟨m, hm, hrun⟩ := Option.bind_eq_some_iff.mp h
  exact System.exec_reachable (.init (race_init hm)) hrun

def steps (n : Nat) (p : Proc) : List Act := List.replicate n (.step p [])

def emptyFile (name : Name) : Request := { name, initialSize := .zero }

def bothCreate (n : Nat) (r r' : Request) : List Act :=
  .call .one r :: .call .two r' :: (steps n .one ++ steps n .two ++ steps (7 - n) .one ++ steps (7 - n) .two)

lemma race_careful {acts : List Act} (h : race (creators.restrict Creators.careful) acts = some c) :
    creators.ReachableWhere (fun c a => c.careful a = true) c := by
  obtain ⟨m, hm, hrun⟩ := Option.bind_eq_some_iff.mp h
  have hr : (creators.restrict Creators.careful).Reachable c :=
    System.exec_reachable (.init (race_init hm)) hrun
  exact hr.of_restrict fun _ _ => id

theorem careful_creates_keep_entries_alternating :
    ∃ c, creators.ReachableWhere (fun c a => c.careful a = true) c ∧
      (emptyFile nameA, true) ∈ c.answers ∧ (emptyFile nameB, true) ∈ c.answers ∧
      (c.fs.entries.map entryName).Nodup ∧ c.entered.length = 2 := by
  have hrun : ((race (creators.restrict Creators.careful)
      (bothCreate 3 (emptyFile nameA) (emptyFile nameB))).map fun c => (c.answers, c.entered.length)) =
      some ([(emptyFile nameB, true), (emptyFile nameA, true)], 2) := by
    decide +kernel
  obtain ⟨c, hc, he⟩ := Option.map_eq_some_iff.mp hrun
  obtain ⟨ha, hn⟩ := Prod.mk.inj he
  have hr := race_careful hc
  refine ⟨c, hr, ?_, ?_, (careful_creates_keep_entries hr).1, hn⟩
  · rw [ha]
    exact List.mem_cons_of_mem _ List.mem_cons_self
  · rw [ha]
    exact List.mem_cons_self

theorem racing_creates_clash :
    (∃ c, creators.Reachable c ∧ ¬ (c.fs.entries.map entryName).Nodup) ∧
      ∃ c, creators.Reachable c ∧ (emptyFile nameA, true) ∈ c.answers ∧
        (∃ w ∈ c.entered, ¬ Found (c.fs.rootEntry w.ofs) w.name) ∧
        ¬ ∃ e ∈ c.fs.entries, entryName e = nameA.val := by
  have htwice : ((race creators (bothCreate 4 (emptyFile nameA) (emptyFile nameA))).map fun c =>
      c.fs.entries.map entryName) = some [nameA.val, nameA.val] := by
    decide +kernel
  have hlost : ((race creators (bothCreate 5 (emptyFile nameA) (emptyFile nameB))).map fun c =>
      (c.answers, c.entered.any fun w => !decide (Found (c.fs.rootEntry w.ofs) w.name),
        c.fs.entries.map entryName)) =
      some ([(emptyFile nameB, true), (emptyFile nameA, true)], true, [nameB.val]) := by
    decide +kernel
  constructor
  · obtain ⟨c, hc, he⟩ := Option.map_eq_some_iff.mp htwice
    refine ⟨c, race_reachable hc, ?_⟩
    rw [he]
    decide
  · obtain ⟨c, hc, he⟩ := Option.map_eq_some_iff.mp hlost
    simp only [Prod.mk.injEq] at he
    obtain ⟨ha, hw, hn⟩ := he
    refine ⟨c, race_reachable hc, ?_, ?_, ?_⟩
    · rw [ha]
      exact List.mem_cons_of_mem _ List.mem_cons_self
    · simpa using hw
    · rintro ⟨e, hm, hname⟩
      have hm := List.mem_map_of_mem (f := entryName) hm
      rw [hn, hname] at hm
      revert hm
      decide

end Pintos.Filesys
