import Pintos.Foundation.Bytes
import Pintos.Kernel.Machine

/-! The text display: what is written to the framebuffer, and where the cursor goes. -/

namespace Pintos.Devices

open Pintos.Foundation Pintos.Kernel Function

def colCnt : Nat := 80

def rowCnt : Nat := 25

def grayOnBlack : Byte := 0x07

/-- The display with its hardware cursor, and the cells (row and column) written so far. -/
structure Vga where
  hardware : BitVec 16
  inited : Bool
  cx : Nat
  cy : Nat
  fb : Nat → Nat → Byte × Byte
  written : List (Nat × Nat)

namespace Vga

def setCell (v : Vga) (y x : Nat) (c : Byte) : Vga :=
  { v with fb := update v.fb y (update (v.fb y) x (c, grayOnBlack)), written := v.written ++ [(y, x)] }

def clearRow (v : Vga) (y : Nat) : Vga := (List.range colCnt).foldl (fun v x => v.setCell y x 0x20) v

def moveCursor (v : Vga) : Vga := { v with hardware := .ofNat 16 (v.cx + colCnt * v.cy) }

def cls (v : Vga) : Vga := moveCursor { (List.range rowCnt).foldl clearRow v with cx := 0, cy := 0 }

/-- The `memmove` of all rows but the first, up by one. -/
def scroll (v : Vga) : Vga :=
  { v with
    fb := fun y => if y < rowCnt - 1 then v.fb (y + 1) else v.fb y
    written := v.written ++ (List.range (rowCnt - 1)).flatMap fun y => (List.range colCnt).map (y, ·) }

def newline (v : Vga) : Vga :=
  if v.cy + 1 ≥ rowCnt then clearRow (scroll { v with cx := 0, cy := rowCnt - 1 }) (rowCnt - 1)
  else { v with cx := 0, cy := v.cy + 1 }

def wrapLine (v : Vga) : Vga := if v.cx ≥ colCnt then newline v else v

def findCursor (v : Vga) : Nat × Nat := (v.hardware.toNat % colCnt, v.hardware.toNat / colCnt)

def init (v : Vga) : Vga :=
  if v.inited then v else { v with cx := v.findCursor.1, cy := v.findCursor.2, inited := true }

/-- The `switch` of `vga_putc`; a beep changes nothing here. -/
def putChar (v : Vga) (c : Byte) : Vga :=
  match c.toNat with
  | 10 => newline v
  | 12 => cls v
  | 8 => if v.cx > 0 then { v with cx := v.cx - 1 } else v
  | 13 => { v with cx := 0 }
  | 9 => wrapLine { v with cx := roundUp (v.cx + 1) 8 }
  | 7 => v
  | _ => wrapLine { v.setCell v.cy v.cx c with cx := v.cx + 1 }

def vgaPutc (v : Vga) (c : Byte) : Vga := moveCursor (putChar (init v) c)

def start (position : BitVec 16) (fb : Nat → Nat → Byte × Byte) : Vga := ⟨position, false, 0, 0, fb, []⟩

def Inside (v : Vga) : Prop := ∀ p ∈ v.written, p.1 < rowCnt ∧ p.2 < colCnt

structure OnScreen (v : Vga) : Prop where
  cx_lt : v.cx < colCnt
  cy_lt : v.cy < rowCnt
  inside : v.Inside

def StaysOnScreen (v : Vga) : List Byte → Prop
  | [] => True
  | c :: cs => OnScreen (vgaPutc v c) ∧ StaysOnScreen (vgaPutc v c) cs

/-- The second display comes from the first by writes on the screen that leave the cursor alone. -/
structure Drawn (v w : Vga) : Prop where
  cx : w.cx = v.cx
  cy : w.cy = v.cy
  inited : w.inited = v.inited
  kept : ∀ p ∈ v.written, p ∈ w.written
  inside : v.Inside → w.Inside

namespace Drawn

variable {u v w : Vga}

lemma refl (v : Vga) : Drawn v v := ⟨rfl, rfl, rfl, fun _ hp => hp, id⟩

lemma trans (h : Drawn u v) (h' : Drawn v w) : Drawn u w :=
  ⟨h'.cx.trans h.cx, h'.cy.trans h.cy, h'.inited.trans h.inited, fun p hp => h'.kept p (h.kept p hp),
    fun hw => h'.inside (h.inside hw)⟩

lemma append {cells : List (Nat × Nat)} (hcells : ∀ p ∈ cells, p.1 < rowCnt ∧ p.2 < colCnt) (v : Vga)
    (fb : Nat → Nat → Byte × Byte) : Drawn v { v with fb := fb, written := v.written ++ cells } :=
  ⟨rfl, rfl, rfl, fun _ hp => List.mem_append_left _ hp,
    fun h p hp => (List.mem_append.mp hp).elim (h p) (hcells p)⟩

lemma foldl {draw : Vga → Nat → Vga} {xs : List Nat} (hdraw : ∀ v, ∀ x ∈ xs, Drawn v (draw v x)) (v : Vga) :
    Drawn v (xs.foldl draw v) := by
  induction xs generalizing v with
  | nil => exact refl v
  | cons x xs ih =>
    exact (hdraw v x (by simp)).trans (ih (fun v y hy => hdraw v y (List.mem_cons_of_mem _ hy)) (draw v x))

lemma setCell {y x : Nat} (hy : y < rowCnt) (hx : x < colCnt) (v : Vga) (c : Byte) : Drawn v (v.setCell y x c) :=
  append (by simpa using ⟨hy, hx⟩) v _

lemma clearRow {y : Nat} (hy : y < rowCnt) (v : Vga) : Drawn v (v.clearRow y) :=
  foldl (fun v _ hx => setCell hy (List.mem_range.mp hx) v _) v

lemma scroll (v : Vga) : Drawn v v.scroll := by
  refine append (fun p hp => ?_) v _
  simp only [List.mem_flatMap, List.mem_map, List.mem_range] at hp
  obtain ⟨y, hy, x, hx, rfl⟩ := hp
  exact ⟨Nat.lt_of_lt_pred hy, hx⟩

end Drawn

variable {v : Vga} {c : Byte}

lemma cls_spec (v : Vga) : (cls v).inited = v.inited ∧ (v.Inside → OnScreen (cls v)) := by
  have hdrawn := Drawn.foldl (fun v _ hy => .clearRow (List.mem_range.mp hy) v) v
  rw [cls]
  generalize (List.range rowCnt).foldl clearRow v = w at hdrawn ⊢
  exact ⟨hdrawn.inited, fun hin => ⟨Nat.zero_lt_succ 79, Nat.zero_lt_succ 24, hdrawn.inside hin⟩⟩

/-- The cursor comes back to the screen however far down it was. -/
lemma newline_spec (v : Vga) : (newline v).inited = v.inited ∧ (∀ p ∈ v.written, p ∈ (newline v).written) ∧
    (v.Inside → OnScreen (newline v)) := by
  rw [newline]
  split
  · have hdrawn := (Drawn.scroll { v with cx := 0, cy := rowCnt - 1 }).trans
      (.clearRow (by decide : rowCnt - 1 < rowCnt) _)
    refine ⟨hdrawn.inited, hdrawn.kept, fun hin => ⟨?_, ?_, hdrawn.inside hin⟩⟩
    · rw [hdrawn.cx]
      exact Nat.zero_lt_succ 79
    · rw [hdrawn.cy]
      exact Nat.lt_succ_self 24
  · next hcy => exact ⟨rfl, fun _ hp => hp, fun hin => ⟨Nat.zero_lt_succ 79, Nat.lt_of_not_le hcy, hin⟩⟩

lemma wrapLine_onScreen_iff : OnScreen (wrapLine v) ↔ v.Inside ∧ (v.cy < rowCnt ∨ colCnt ≤ v.cx) := by
  rw [wrapLine]
  split
  · next hcx =>
    exact ⟨fun h => ⟨fun p hp => h.inside p ((newline_spec v).2.1 p hp), .inr hcx⟩,
      fun h => (newline_spec v).2.2 h.1⟩
  · next hcx => exact ⟨fun h => ⟨h.inside, .inl h.cy_lt⟩, fun h => ⟨by omega, h.2.resolve_right hcx, h.1⟩⟩

lemma setCell_inside_iff {y x : Nat} (hin : v.Inside) : (v.setCell y x c).Inside ↔ y < rowCnt ∧ x < colCnt := by
  refine ⟨fun h => h (y, x) (by simp [setCell]), fun h => ?_⟩
  exact (Drawn.setCell h.1 h.2 v c).inside hin

lemma le_roundUp_iff {x : Nat} (hx : x < colCnt) : colCnt ≤ roundUp (x + 1) 8 ↔ 72 ≤ x := by
  simp only [roundUp, divRoundUp, wrap, colCnt] at *
  omega

lemma putChar_onScreen_iff (hcx : v.cx < colCnt) (hin : v.Inside) :
    OnScreen (putChar v c) ↔ v.cy < rowCnt ∨ c = 10 ∨ c = 12 ∨ c = 9 ∧ 72 ≤ v.cx := by
  have hcode : ∀ d : Byte, c = d ↔ c.toNat = d.toNat := fun d => BitVec.toNat_eq
  have hmoved : ∀ x < colCnt, OnScreen { v with cx := x } ↔ v.cy < rowCnt :=
    fun x hx => ⟨fun h => h.cy_lt, fun h => ⟨hx, h, hin⟩⟩
  rw [putChar, hcode 10, hcode 12, hcode 9]
  split
  · next hc => exact iff_of_true ((newline_spec v).2.2 hin) (.inr (.inl hc))
  · next hc => exact iff_of_true ((cls_spec v).2 hin) (.inr (.inr (.inl hc)))
  · next hc =>
    simp only [hc]
    split
    · rw [hmoved _ (by omega)]
      simp
    · rw [hmoved _ hcx]
      simp
  · next hc => simp [hc, hmoved 0 (Nat.zero_lt_succ 79)]
  · next hc =>
    have htab : Inside { v with cx := roundUp (v.cx + 1) 8 } := hin
    rw [wrapLine_onScreen_iff, le_roundUp_iff hcx]
    simp [hc, htab]
  · next hc => simp [hc, hmoved _ hcx]
  · next h10 h12 _ _ h9 _ =>
    have hcell : Inside { v.setCell v.cy v.cx c with cx := v.cx + 1 } ↔ v.cy < rowCnt :=
      (setCell_inside_iff (c := c) hin).trans (and_iff_left hcx)
    have hrow : { v.setCell v.cy v.cx c with cx := v.cx + 1 }.cy = v.cy := rfl
    have hno : ¬ (c.toNat = (10 : Byte).toNat ∨ c.toNat = (12 : Byte).toNat ∨
        c.toNat = (9 : Byte).toNat ∧ 72 ≤ v.cx) := by
      rintro (hc | hc | hc)
      · exact h10 hc
      · exact h12 hc
      · exact h9 hc.1
    rw [wrapLine_onScreen_iff, hcell, hrow, or_iff_left hno]
    exact ⟨And.left, fun h => ⟨h, .inl h⟩⟩

lemma onScreen_moveCursor_iff : OnScreen (moveCursor v) ↔ OnScreen v :=
  ⟨fun h => ⟨h.cx_lt, h.cy_lt, h.inside⟩, fun h => ⟨h.cx_lt, h.cy_lt, h.inside⟩⟩

lemma wrapLine_inited (v : Vga) : (wrapLine v).inited = v.inited := by
  rw [wrapLine]
  split
  · exact (newline_spec v).1
  · rfl

lemma putChar_inited (v : Vga) (c : Byte) : (putChar v c).inited = v.inited := by
  rw [putChar]
  split
  · exact (newline_spec v).1
  · exact (cls_spec v).1
  · split <;> rfl
  · rfl
  · exact wrapLine_inited _
  · rfl
  · exact wrapLine_inited _

lemma staysOnScreen (hv : v.inited = true) (h : OnScreen v) (cs : List Byte) : StaysOnScreen v cs := by
  induction cs generalizing v with
  | nil => trivial
  | cons c cs ih =>
    have hinit : init v = v := if_pos hv
    have hnext : OnScreen (vgaPutc v c) := by
      rw [vgaPutc, hinit, onScreen_moveCursor_iff, putChar_onScreen_iff h.cx_lt h.inside]
      exact .inl h.cy_lt
    have hinited : (vgaPutc v c).inited = true := by
      rw [vgaPutc, hinit]
      exact (putChar_inited v c).trans hv
    exact ⟨hnext, ih hinited hnext⟩

theorem stays_on_screen_iff (position : BitVec 16) (fb : Nat → Nat → Byte × Byte) (bytes : List Byte) :
    StaysOnScreen (start position fb) bytes ↔ position.toNat < rowCnt * colCnt ∨
      ∀ c ∈ bytes.head?, c = 10 ∨ c = 12 ∨ c = 9 ∧ 72 ≤ position.toNat % colCnt := by
  cases bytes with
  | nil => simp [StaysOnScreen]
  | cons c cs =>
    have hrow : (init (start position fb)).cy < rowCnt ↔ position.toNat < rowCnt * colCnt :=
      Nat.div_lt_iff_lt_mul (Nat.zero_lt_succ 79)
    have hclear : (init (start position fb)).Inside := fun p hp => (List.not_mem_nil (a := p) hp).elim
    have hfirst : OnScreen (vgaPutc (start position fb) c) ↔ position.toNat < rowCnt * colCnt ∨
        c = 10 ∨ c = 12 ∨ c = 9 ∧ 72 ≤ position.toNat % colCnt := by
      rw [vgaPutc, onScreen_moveCursor_iff,
        putChar_onScreen_iff (Nat.mod_lt _ (Nat.zero_lt_succ 79)) hclear, hrow]
      rfl
    rw [StaysOnScreen, hfirst]
    simp only [List.head?_cons, Option.mem_some_iff, forall_eq']
    refine and_iff_left_of_imp fun hc => staysOnScreen ?_ (hfirst.mpr hc) cs
    exact putChar_inited (init (start position fb)) c

theorem off_screen_after_position_2000 :
    (vgaPutc (start 2000 fun _ _ => (0, 0)) 0x41).written = [(25, 0)] ∧
      ¬ StaysOnScreen (start 2000 fun _ _ => (0, 0)) [0x41] :=
  ⟨by decide, fun h => absurd h.1.cy_lt (by decide)⟩

end Vga

end Pintos.Devices
