import BeltServer.Outflow

/-!
# One worker for each slot

In a run in which a slot is served only by the worker that has it from `Alloc`, every test of a
handler or a callback comes out as if it were made with the step before it. Such a run is followed
step by step by one of `Output`, in which a slot is opened when its worker has registered it.
-/

namespace BeltServer

set_option autoImplicit false

namespace Outflow

open Runs

variable {ρ : Type} {B : OutRing ρ}

/-! ### Who is at a slot -/

/-- The slot with which the worker goes on, if no test stops it. -/
def Pc.serves : Pc → Option Nat
  | .head e => some e.idx
  | .read h | .parse h | .cut h _ => some h.idx
  | .check h ret => if ret.looks h then some h.idx else none
  | .owned i v | .alive i v => some (i * 64 + BitWord.lowest v)
  | .call idx _ _ => some idx
  | _ => none

/-- Every slot is served only by the worker to which `Alloc` handed it last. -/
def State.Alone (s : State ρ) : Prop := ∀ w idx, (s.net w).serves = some idx → s.holder idx = some w

/-- The slot that the worker has from `Alloc` and is not done with in `HandleAccept`. -/
def Pc.opens : Pc → Option Nat
  | .opened idx _ _ | .entering idx _ | .refused idx => some idx
  | _ => none

/-- The slot that the last test found alive. -/
def Pc.lives : Pc → Option Nat
  | .read h | .parse h => some h.idx
  | .alive i v => some (i * 64 + BitWord.lowest v)
  | _ => none

theorem Pc.serves_of_lives {p : Pc} {j : Nat} (h : p.lives = some j) : p.serves = some j := by
  cases p with
  | read | parse | alive => exact h
  | _ => cases h

theorem Pc.opens_of_serves {p : Pc} {j : Nat} (h : p.serves = some j) : p.opens = none := by
  cases p with
  | opened | entering | refused => cases h
  | _ => rfl

/-! ### The run of `Output` -/

def Ret.out : Ret → Output.Ret
  | .back _ _ => .handler
  | .drain i v => .drain i v

/-- Where the worker is in `Output`: before its next call, or in it. -/
def Pc.out : Pc → Output.Pc
  | .word i => .word i
  | .bits i v | .owned i v | .alive i v => .bits i v
  | .call idx ret op => .call idx ret.out op
  | _ => .idle

theorem out_ret (ret : Ret) : ret.pc.out = ret.out.pc := by
  cases ret with
  | back h ret => cases ret <;> rfl
  | drain => rfl

theorem out_resume (idx : Nat) (ret : Ret) (next : Option Output.Op) :
    (resume idx ret next).out = Output.resume idx ret.out next := by
  cases next with
  | none => exact out_ret ret
  | some op => rfl

theorem opens_ret (ret : Ret) : ret.pc.opens = none := by
  cases ret with
  | back h ret => cases ret <;> rfl
  | drain => rfl

theorem opens_resume (idx : Nat) (ret : Ret) (next : Option Output.Op) :
    (resume idx ret next).opens = none := by
  cases next with
  | none => exact opens_ret ret
  | some op => rfl

/-- What is known of a slot while worker `w` is between `Alloc` and the end of `HandleAccept`, over
the free slot `c` that it is in `Output`. -/
def Entered (B : OutRing ρ) (w : Nat) (c' c : Output.Conn ρ) : Pc → Prop
  | .opened _ fd _ => 0 ≤ fd ∧ c' = alloc B c
  | .entering _ _ => ∃ fd, 0 ≤ fd ∧ c' = { alloc B c with fd }
  | .refused _ => c' = { c with netRef := true } ∧ c.dead = true ∧ c.owner = w
  | _ => False

/-- What the tests behind a worker have found. -/
def State.Fits (s : State ρ) : Pc → Prop
  | .read h | .parse h => (s.conns h.idx).dead = false
  | .owned i v => v ≠ 0#64 ∧ i * 64 + BitWord.lowest v < s.cap
  | .alive i v => (v ≠ 0#64 ∧ i * 64 + BitWord.lowest v < s.cap) ∧
    (s.conns (i * 64 + BitWord.lowest v)).dead = false
  | _ => True

/-- Worker `w` at `pc` enters slot `idx`: `c'` is the slot, and `c` what it is in `Output`. -/
structure Opening (B : OutRing ρ) (w idx cap : Nat) (holder : Option Nat) (pc : Pc)
    (c' c : Output.Conn ρ) : Prop where
  holder : holder = some w
  room : idx < cap
  unheld : c.netRef = false
  unseated : c.seatedBy = none
  entered : Entered B w c' c pc

/-- Such a slot has its first reference, but no seat, and its owner is still the old one. -/
theorem Opening.fields {w idx cap : Nat} {holder : Option Nat} {pc : Pc} {c' c : Output.Conn ρ}
    (h : Opening B w idx cap holder pc c' c) : c'.netRef = true ∧ c'.seatedBy = none ∧
      c'.owner = c.owner ∧ (c'.wire = [] ∨ c'.wire = c.wire ∧ c'.log = c.log) := by
  obtain ⟨-, -, -, hseat, hentered⟩ := h
  cases pc with
  | opened j fd ok =>
    rw [hentered.2]
    exact ⟨rfl, rfl, rfl, Or.inl rfl⟩
  | entering j ok =>
    obtain ⟨fd, -, hconn⟩ := hentered
    rw [hconn]
    exact ⟨rfl, rfl, rfl, Or.inl rfl⟩
  | refused j =>
    rw [hentered.1]
    exact ⟨rfl, hseat, rfl, Or.inr ⟨rfl, rfl⟩⟩
  | _ => cases hentered

/-- The state of `Output` that a run has led to. A slot that is being entered is still free there,
and a worker is there only in `Drain` or in a call. -/
structure Sim (B : OutRing ρ) (s : State ρ) (u : Output.State ρ) : Prop where
  cap : u.cap = s.cap
  dirty : u.dirty = s.dirty
  game : u.game = s.game
  net : ∀ w, u.net w = (s.net w).out
  same : ∀ idx, (∀ w, (s.net w).opens ≠ some idx) → s.conns idx = u.conns idx
  opening : ∀ w idx, (s.net w).opens = some idx →
    Opening B w idx s.cap (s.holder idx) (s.net w) (s.conns idx) (u.conns idx)
  owner : ∀ w idx, s.holder idx = some w → (∀ w', (s.net w').opens ≠ some idx) →
    (s.conns idx).owner = w ∧ ((s.conns idx).dead = false → (s.conns idx).netRef = true)
  fits : ∀ w, s.Fits (s.net w)

section Updates
variable {s : State ρ} {idx j w w' : Nat} {c : Output.Conn ρ} {pc : Pc}

@[simp] theorem setConn_self : (s.setConn idx c).conns idx = c := Function.update_self ..

theorem setConn_ne (h : j ≠ idx) : (s.setConn idx c).conns j = s.conns j :=
  Function.update_of_ne h ..

@[simp] theorem setNet_self : (s.setNet w pc).net w = pc := Function.update_self ..

theorem setNet_ne (h : w' ≠ w) : (s.setNet w pc).net w' = s.net w' := Function.update_of_ne h ..

end Updates

theorem out_setNet_same {u : Output.State ρ} {w : Nat} {pc : Output.Pc} (h : u.net w = pc) :
    u.setNet w pc = u := by
  unfold Output.State.setNet
  rw [← h, Function.update_eq_self]

theorem out_setConn_same {u : Output.State ρ} {idx : Nat} : u.setConn idx (u.conns idx) = u := by
  unfold Output.State.setConn
  rw [Function.update_eq_self]

variable {s t : State ρ} {u : Output.State ρ} {w idx : Nat} {pc : Pc} {c : Output.Conn ρ}

theorem fits_resume (idx : Nat) (ret : Ret) (next : Option Output.Op) :
    s.Fits (resume idx ret next) := by
  cases next with
  | none =>
    cases ret with
    | back h ret => cases ret <;> trivial
    | drain => trivial
  | some op => trivial

theorem unref_net (s : State ρ) (idx : Nat) : (s.unref idx).net = s.net := by
  unfold State.unref
  split <;> rfl

theorem unref_setNet (s : State ρ) (idx w : Nat) (pc : Pc) :
    (s.unref idx).setNet w pc = (s.setNet w pc).unref idx := by
  unfold State.unref
  split <;> rename_i hfree
  · exact (if_pos hfree).symm
  · exact (if_neg hfree).symm

/-- A slot stays as it was found, if it is not dead afterwards. -/
theorem State.Fits.setConn (h : s.Fits pc) (hdead : pc.lives = some idx → c.dead = false) :
    (s.setConn idx c).Fits pc := by
  have hat : ∀ j, pc.lives = some j → (s.conns j).dead = false →
      ((s.setConn idx c).conns j).dead = false := by
    intro j hj hd
    by_cases hidx : j = idx
    · subst hidx
      rw [setConn_self]
      exact hdead hj
    · rw [setConn_ne hidx]
      exact hd
  cases pc with
  | read k | parse k => exact hat k.idx rfl h
  | alive i v => exact ⟨h.1, hat _ rfl h.2⟩
  | owned i v => exact h
  | _ => trivial

/-! ### A worker moves on -/

namespace Sim

theorem setNet (h : Sim B s u) (hold : (s.net w).opens = none) (hnew : pc.opens = none)
    (hfits : s.Fits pc) : Sim B (s.setNet w pc) (u.setNet w pc.out) := by
  have hopens : ∀ w' idx, ((s.setNet w pc).net w').opens = some idx ↔
      (s.net w').opens = some idx := by
    intro w' idx
    by_cases hw : w' = w
    · subst hw
      rw [setNet_self, hold, hnew]
    · rw [setNet_ne hw]
  constructor
  · exact h.cap
  · exact h.dirty
  · exact h.game
  · intro w'
    by_cases hw : w' = w
    · subst hw
      rw [setNet_self, Output.setNet_self]
    · rw [setNet_ne hw, Output.setNet_ne hw]
      exact h.net w'
  · intro idx hnone
    exact h.same idx fun w' hw' => hnone w' ((hopens w' idx).mpr hw')
  · intro w' idx hw'
    have hw : w' ≠ w := by
      rintro rfl
      rw [setNet_self, hnew] at hw'
      cases hw'
    obtain ⟨hholder, hroom, hunheld, hunseated, hentered⟩ :=
      h.opening w' idx ((hopens w' idx).mp hw')
    refine ⟨hholder, hroom, hunheld, hunseated, ?_⟩
    rw [setNet_ne hw]
    exact hentered
  · intro w' idx hholder hnone
    exact h.owner w' idx hholder fun w'' hw'' => hnone w'' ((hopens w'' idx).mpr hw'')
  · intro w'
    by_cases hw : w' = w
    · subst hw
      rw [setNet_self]
      exact hfits
    · rw [setNet_ne hw]
      exact h.fits w'

theorem pass (h : Sim B s u) (hold : (s.net w).opens = none) (hnew : pc.opens = none)
    (hout : pc.out = (s.net w).out) (hfits : s.Fits pc) : Sim B (s.setNet w pc) u := by
  have hsim := h.setNet hold hnew hfits
  rw [out_setNet_same ((h.net w).trans hout.symm)] at hsim
  exact hsim

theorem setConn (h : Sim B s u) (hnone : ∀ w, (s.net w).opens ≠ some idx)
    (howner : c.owner = (s.conns idx).owner)
    (hlive : c.dead = false → (s.conns idx).dead = false ∧ c.netRef = (s.conns idx).netRef)
    (hdead : ∀ w, (s.net w).lives = some idx → c.dead = false) :
    Sim B (s.setConn idx c) (u.setConn idx c) := by
  constructor
  · exact h.cap
  · exact h.dirty
  · exact h.game
  · exact h.net
  · intro j hj
    by_cases hidx : j = idx
    · subst hidx
      rw [setConn_self, Output.setConn_self]
    · rw [setConn_ne hidx, Output.setConn_ne hidx]
      exact h.same j hj
  · intro w j hj
    have hidx : j ≠ idx := by
      rintro rfl
      exact hnone w hj
    obtain ⟨hholder, hroom, hunheld, hunseated, hentered⟩ := h.opening w j hj
    constructor
    · exact hholder
    · exact hroom
    · rw [Output.setConn_ne hidx]
      exact hunheld
    · rw [Output.setConn_ne hidx]
      exact hunseated
    · rw [setConn_ne hidx, Output.setConn_ne hidx]
      exact hentered
  · intro w j hholder hj
    by_cases hidx : j = idx
    · subst hidx
      obtain ⟨hw, hheld⟩ := h.owner w j hholder hj
      rw [setConn_self]
      refine ⟨howner.trans hw, fun hd => ?_⟩
      exact (hlive hd).2.trans (hheld (hlive hd).1)
    · rw [setConn_ne hidx]
      exact h.owner w j hholder hj
  · exact fun w => (h.fits w).setConn (hdead w)

theorem setDirty (h : Sim B s u) (d : DirtyMap) :
    Sim B { s with dirty := d } { u with dirty := d } :=
  ⟨h.cap, rfl, h.game, h.net, h.same, h.opening, h.owner, h.fits⟩

theorem setGame {po : Output.Post} {g : Nat} (h : Sim B s u) :
    Sim B { s with game := Function.update s.game g po } (u.setGame g po) := by
  have hgame : Function.update u.game g po = Function.update s.game g po := by rw [h.game]
  exact ⟨h.cap, h.dirty, hgame, h.net, h.same, h.opening, h.owner, h.fits⟩

theorem setBatch (h : Sim B s u) (b : Nat → List Epoll.Event) : Sim B { s with batch := b } u :=
  ⟨h.cap, h.dirty, h.game, h.net, h.same, h.opening, h.owner, h.fits⟩

theorem unref (h : Sim B s u) (idx : Nat) : Sim B (s.unref idx) u := by
  unfold State.unref
  split
  · exact ⟨h.cap, h.dirty, h.game, h.net, h.same, h.opening, h.owner, h.fits⟩
  · exact h

/-! ### A slot is entered -/

/-- One step of `HandleAccept`: worker `w` has the slot and no other is entering it; `c` is what it
makes of it, and `cu` what the slot is in `Output`. -/
theorem enter {cu : Output.Conn ρ} (h : Sim B s u)
    (hother : ∀ w', w' ≠ w → (s.net w').opens ≠ some idx)
    (hmine : ∀ j, (s.net w).opens = some j → j = idx) (hidle : (s.net w).out = .idle)
    (hout : pc.out = .idle) (hlives : pc.lives = none)
    (hdead : ∀ w', w' ≠ w → (s.net w').lives = some idx → c.dead = false)
    (hpc : pc.opens = none ∧ pc = .idle ∧ c = cu ∧ c.owner = w ∧ (c.dead = false → c.netRef = true) ∨
      pc.opens = some idx ∧ idx < s.cap ∧ cu.netRef = false ∧ cu.seatedBy = none ∧
        Entered B w c cu pc) :
    Sim B ({ s.setConn idx c with holder := Function.update s.holder idx (some w) }.setNet w pc)
      (u.setConn idx cu) := by
  have hpcIdx : ∀ j, pc.opens = some j → j = idx := by
    intro j hj
    rcases hpc with ⟨hnone, -⟩ | ⟨hsome, -⟩
    · cases hnone.symm.trans hj
    · exact Option.some.inj (hj.symm.trans hsome)
  constructor
  · exact h.cap
  · exact h.dirty
  · exact h.game
  · intro w'
    by_cases hw : w' = w
    · subst hw
      rw [setNet_self, hout]
      exact (h.net w').trans hidle
    · rw [setNet_ne hw]
      exact h.net w'
  · intro j hj
    by_cases hidx : j = idx
    · subst hidx
      rcases hpc with ⟨-, -, hc, -⟩ | ⟨hsome, -⟩
      · rw [Output.setConn_self, ← hc]
        exact setConn_self
      · have hnot := hj w
        rw [setNet_self] at hnot
        exact absurd hsome hnot
    · rw [Output.setConn_ne hidx]
      refine (setConn_ne hidx).trans (h.same j fun w' hw' => ?_)
      by_cases hw : w' = w
      · subst hw
        exact hidx (hmine j hw')
      · have hnot := hj w'
        rw [setNet_ne hw] at hnot
        exact hnot hw'
  · intro w' j hj
    by_cases hw : w' = w
    · subst hw
      rw [setNet_self] at hj
      have hidx := hpcIdx j hj
      subst hidx
      rcases hpc with ⟨hnone, -⟩ | ⟨-, hroom, hunheld, hunseated, hentered⟩
      · cases hnone.symm.trans hj
      · constructor
        · exact Function.update_self ..
        · exact hroom
        · rw [Output.setConn_self]
          exact hunheld
        · rw [Output.setConn_self]
          exact hunseated
        · rw [setNet_self, Output.setConn_self]
          exact setConn_self.symm ▸ hentered
    · rw [setNet_ne hw] at hj
      have hidx : j ≠ idx := by
        rintro rfl
        exact hother w' hw hj
      obtain ⟨hholder, hroom, hunheld, hunseated, hentered⟩ := h.opening w' j hj
      constructor
      · exact (Function.update_of_ne hidx ..).trans hholder
      · exact hroom
      · rw [Output.setConn_ne hidx]
        exact hunheld
      · rw [Output.setConn_ne hidx]
        exact hunseated
      · rw [setNet_ne hw, Output.setConn_ne hidx]
        exact (setConn_ne (s := s) hidx).symm ▸ hentered
  · intro w' j hholder hj
    change Function.update s.holder idx (some w) j = some w' at hholder
    by_cases hidx : j = idx
    · subst hidx
      rw [Function.update_self] at hholder
      have hw : w' = w := (Option.some.inj hholder).symm
      rcases hpc with ⟨-, -, -, howner, hheld⟩ | ⟨hsome, -⟩
      · rw [hw]
        exact setConn_self.symm ▸ ⟨howner, hheld⟩
      · have hnot := hj w
        rw [setNet_self] at hnot
        exact absurd hsome hnot
    · rw [Function.update_of_ne hidx] at hholder
      refine (setConn_ne (s := s) hidx).symm ▸ h.owner w' j hholder fun w'' hw'' => ?_
      by_cases hw : w'' = w
      · subst hw
        exact hidx (hmine j hw'')
      · have hnot := hj w''
        rw [setNet_ne hw] at hnot
        exact hnot hw''
  · intro w'
    by_cases hw : w' = w
    · subst hw
      rw [setNet_self]
      rcases hpc with ⟨-, rfl, -⟩ | ⟨hsome, -⟩
      · trivial
      · cases pc with
        | opened | entering | refused => trivial
        | _ => cases hsome
    · rw [setNet_ne hw]
      exact (h.fits w').setConn fun hl => hdead w' hw hl

end Sim

/-! ### What a worker finds at its slot -/

namespace Sim

theorem dead_of_lives (h : Sim B s u) (hl : (s.net w).lives = some idx) :
    (s.conns idx).dead = false := by
  have hfits := h.fits w
  cases hpc : s.net w with
  | read k | parse k =>
    rw [hpc] at hl hfits
    cases hl
    exact hfits
  | alive i v =>
    rw [hpc] at hl hfits
    cases hl
    exact hfits.2
  | _ =>
    rw [hpc] at hl
    cases hl

/-- No other worker has found the slot alive. -/
theorem eq_of_lives {w' : Nat} (ha : s.Alone) (hs : (s.net w).serves = some idx)
    (hl : (s.net w').lives = some idx) : w' = w :=
  Option.some.inj ((ha w' idx (Pc.serves_of_lives hl)).symm.trans (ha w idx hs))

section Served
variable (h : Sim B s u) (ha : s.Alone) (hs : (s.net w).serves = some idx)
include h ha hs

theorem not_opened : ∀ w', (s.net w').opens ≠ some idx := by
  intro w' hw'
  have hholder := (h.opening w' idx hw').holder
  have hw : w' = w := Option.some.inj (hholder.symm.trans (ha w idx hs))
  subst hw
  rw [Pc.opens_of_serves hs] at hw'
  cases hw'

theorem conn_eq : s.conns idx = u.conns idx := h.same idx (h.not_opened ha hs)

theorem owned : (s.conns idx).owner = w ∧
    ((s.conns idx).dead = false → (s.conns idx).netRef = true) :=
  h.owner w idx (ha w idx hs) (h.not_opened ha hs)

theorem handles (hidle : (s.net w).out = .idle) (hd : (s.conns idx).dead = false) :
    u.handles w idx = true := by
  obtain ⟨howner, hheld⟩ := h.owned ha hs
  rw [Output.handles_iff, ← h.conn_eq ha hs]
  exact ⟨(h.net w).trans hidle, howner, hheld hd, hd⟩

end Served

theorem not_opened_of_seat {g : Nat} (h : Sim B s u) (hseat : (s.conns idx).seatedBy = some g) :
    ∀ w, (s.net w).opens ≠ some idx := by
  intro w hw
  cases (h.opening w idx hw).fields.2.1.symm.trans hseat

theorem owner_eq (h : Sim B s u) (idx : Nat) : (s.conns idx).owner = (u.conns idx).owner := by
  by_cases hopens : ∃ w, (s.net w).opens = some idx
  · obtain ⟨w, hw⟩ := hopens
    exact (h.opening w idx hw).fields.2.2.1
  · rw [h.same idx fun w hw => hopens ⟨w, hw⟩]

/-- What the kernel got is what it got in `Output`, or nothing yet. -/
theorem stream (h : Sim B s u) (idx : Nat) : (s.conns idx).wire = [] ∨
    (s.conns idx).wire = (u.conns idx).wire ∧ (s.conns idx).log = (u.conns idx).log := by
  by_cases hopens : ∃ w, (s.net w).opens = some idx
  · obtain ⟨w, hw⟩ := hopens
    exact (h.opening w idx hw).fields.2.2.2
  · rw [h.same idx fun w hw => hopens ⟨w, hw⟩]
    exact Or.inr ⟨rfl, rfl⟩

end Sim

/-! ### Every step is followed -/

/-- A run of `Output` leads from `u` to where `t` is. -/
def Follows (B : OutRing ρ) (u : Output.State ρ) (t : State ρ) : Prop :=
  ∃ u', Reach (Output.step B) Any u u' ∧ Sim B t u'

theorem Follows.of_sim (h : Sim B t u) : Follows B u t := ⟨u, .refl, h⟩

theorem Follows.of_step {a : Output.Act} {u' : Output.State ρ} (hstep : Output.step B a u = some u')
    (h : Sim B t u') : Follows B u t := ⟨u', .single trivial hstep, h⟩

namespace Sim

/-- A handler begins a call, with a session that it has found alive. -/
theorem start {op : Output.Op} {ret : Ret} (h : Sim B s u) (ha : s.Alone)
    (hs : (s.net w).serves = some idx) (hidle : (s.net w).out = .idle)
    (hd : (s.conns idx).dead = false) (hop : op = .flush ∨ ∃ m, op = .send m)
    (hret : ret.out = .handler) : Follows B u (s.setNet w (.call idx ret op)) := by
  have hhandles := h.handles ha hs hidle hd
  have hsim : Sim B (s.setNet w (.call idx ret op)) (u.setNet w (.call idx ret.out op)) :=
    h.setNet (Pc.opens_of_serves hs) rfl trivial
  rw [hret] at hsim
  rcases hop with rfl | ⟨m, rfl⟩
  · have hstep : Output.step B (.epollOut w idx) u = some (u.setNet w (.call idx .handler .flush)) :=
      if_pos hhandles
    exact .of_step hstep hsim
  · have hstep : Output.step B (.send w idx m) u =
        some (u.setNet w (.call idx .handler (.send m))) := if_pos hhandles
    exact .of_step hstep hsim

/-- Between its calls a handler moves on without a step of `Output`. -/
theorem goOn (h : Sim B s u) (hold : (s.net w).opens = none) (hidle : (s.net w).out = .idle)
    (hnew : pc.opens = none) (hout : pc.out = .idle) (hfits : s.Fits pc) :
    Follows B u (s.setNet w pc) :=
  .of_sim (h.pass hold hnew (hout.trans hidle.symm) hfits)

theorem headTurn {e : Epoll.Event} (h : Sim B s u) (ha : s.Alone) (hpc : s.net w = .head e) :
    Follows B u (s.headTurn w e) := by
  have hs : (s.net w).serves = some e.idx := by
    rw [hpc]
    rfl
  have hidle : (s.net w).out = .idle := by
    rw [hpc]
    rfl
  have hold := Pc.opens_of_serves hs
  unfold State.headTurn
  cases hd : (s.conns e.idx).dead with
  | true => exact h.goOn hold hidle rfl rfl trivial
  | false =>
    rw [if_neg Bool.false_ne_true]
    split
    · exact h.goOn hold hidle rfl rfl trivial
    · split
      · exact h.goOn hold hidle rfl rfl hd
      · split
        · exact h.start ha hs hidle hd (Or.inl rfl) rfl
        · exact h.goOn hold hidle rfl rfl trivial

theorem checkTurn {k : Epoll.Handler} {ret : Epoll.Ret} (h : Sim B s u) (ha : s.Alone)
    (hpc : s.net w = .check k ret) : Follows B u (s.checkTurn w k ret) := by
  have hold : (s.net w).opens = none := by
    rw [hpc]
    rfl
  have hidle : (s.net w).out = .idle := by
    rw [hpc]
    rfl
  cases ret with
  | parseFrames =>
    unfold State.checkTurn
    cases hd : (s.conns k.idx).dead with
    | true => exact h.goOn hold hidle rfl rfl trivial
    | false => exact h.goOn hold hidle rfl rfl hd
  | readSession =>
    unfold State.checkTurn
    cases hd : (s.conns k.idx).dead with
    | true => exact h.goOn hold hidle rfl rfl trivial
    | false => exact h.goOn hold hidle rfl rfl hd
  | handleSession =>
    unfold State.checkTurn
    cases hd : (s.conns k.idx).dead with
    | true => exact h.goOn hold hidle rfl rfl trivial
    | false =>
      cases hout : k.output with
      | true =>
        have hs : (s.net w).serves = some k.idx := by
          rw [hpc]
          exact if_pos hout
        exact h.start ha hs hidle hd (Or.inl rfl) rfl
      | false => exact h.goOn hold hidle rfl rfl trivial
  | loop => exact h.goOn hold hidle rfl rfl trivial

theorem cutTurn {k : Epoll.Handler} {ret : Epoll.Ret} (h : Sim B s u) (ha : s.Alone)
    (hpc : s.net w = .cut k ret) (hd : (s.conns k.idx).dead = false) :
    Follows B u ((s.setConn k.idx { s.conns k.idx with dead := true }).setNet w
      (.call k.idx (.back k ret) .close)) := by
  have hs : (s.net w).serves = some k.idx := by
    rw [hpc]
    rfl
  have hidle : (s.net w).out = .idle := by
    rw [hpc]
    rfl
  have hlives : ∀ w', (s.net w').lives = some k.idx → ({ s.conns k.idx with dead := true } :
      Output.Conn ρ).dead = false := by
    intro w' hl
    rw [eq_of_lives ha hs hl, hpc] at hl
    cases hl
  have hconn : Sim B (s.setConn k.idx { s.conns k.idx with dead := true })
      (u.setConn k.idx { s.conns k.idx with dead := true }) :=
    h.setConn (h.not_opened ha hs) rfl (fun hd => by cases hd) hlives
  have hsim : Sim B ((s.setConn k.idx { s.conns k.idx with dead := true }).setNet w
      (.call k.idx (.back k ret) .close)) ((u.setConn k.idx
        { s.conns k.idx with dead := true }).setNet w (.call k.idx .handler .close)) :=
    hconn.setNet (Pc.opens_of_serves hs) rfl trivial
  rw [h.conn_eq ha hs] at hsim ⊢
  have hstep : Output.step B (.disconnect w k.idx) u = some ((u.setConn k.idx
      { u.conns k.idx with dead := true }).setNet w (.call k.idx .handler .close)) :=
    if_pos (h.handles ha hs hidle hd)
  exact .of_step hstep hsim

/-- In `Output` the callback is not called. -/
theorem skip {r : Output.Sys} {i : Nat} {v : BitVec 64} (h : Sim B s u)
    (hold : (s.net w).opens = none) (hout : (s.net w).out = .bits i v) (hv : v ≠ 0#64)
    (hno : ¬(i * 64 + BitWord.lowest v < u.cap ∧
      (u.conns (i * 64 + BitWord.lowest v)).flushable w = true)) :
    Follows B u (s.setNet w (.bits i (BitWord.clearLowest v))) := by
  have hstep : Output.step B (.net w r) u =
      some (u.setNet w (.bits i (BitWord.clearLowest v))) := by
    change u.netStep B w r = _
    unfold Output.State.netStep
    rw [h.net w, hout]
    dsimp only
    rw [if_neg hv, if_neg hno]
  exact .of_step hstep (h.setNet hold rfl trivial)

theorem wordStep {r : Output.Sys} {i : Nat} (h : Sim B s u) (hpc : s.net w = .word i)
    (hs : s.netStep B w r = some t) : Follows B u t := by
  have hold : (s.net w).opens = none := by
    rw [hpc]
    rfl
  have hstep : Output.step B (.net w r) u = u.netStep B w r := rfl
  unfold State.netStep at hs
  unfold Output.State.netStep at hstep
  rw [h.net w, hpc, h.dirty] at hstep
  rw [hpc] at hs
  dsimp only [Pc.out] at hstep hs
  split at hs
  · rename_i hi
    rw [if_pos hi] at hstep
    cases hs
    exact .of_step hstep ((h.setDirty (s.dirty.exchange w i).2).setNet hold rfl trivial)
  · rename_i hi
    rw [if_neg hi] at hstep
    cases hs
    exact .of_step hstep (h.setNet hold rfl trivial)

/-- The callback is called, and compares the owner; in `Output` that is seen with its last test. -/
theorem bitsStep {r : Output.Sys} {i : Nat} {v : BitVec 64} (h : Sim B s u)
    (hpc : s.net w = .bits i v) (hs : s.netStep B w r = some t) : Follows B u t := by
  have hold : (s.net w).opens = none := by
    rw [hpc]
    rfl
  have hout : (s.net w).out = .bits i v := by
    rw [hpc]
    rfl
  unfold State.netStep at hs
  rw [hpc] at hs
  dsimp only at hs
  split at hs
  · rename_i hv
    cases hs
    have hstep : Output.step B (.net w r) u = some (u.setNet w (.word (i + 1))) := by
      change u.netStep B w r = _
      unfold Output.State.netStep
      rw [h.net w, hout]
      exact if_pos hv
    exact .of_step hstep (h.setNet hold rfl trivial)
  · rename_i hv
    split at hs
    · rename_i howner
      cases hs
      exact .of_sim (h.pass hold rfl hout.symm ⟨hv, howner.1⟩)
    · rename_i howner
      cases hs
      refine h.skip (r := r) hold hout hv fun hno => howner ?_
      rw [h.cap, Output.flushable_iff, ← h.owner_eq] at hno
      exact ⟨hno.1, hno.2.1⟩

theorem ownedStep {r : Output.Sys} {i : Nat} {v : BitVec 64} (h : Sim B s u) (ha : s.Alone)
    (hpc : s.net w = .owned i v) (hs : s.netStep B w r = some t) : Follows B u t := by
  have hfits := h.fits w
  have hserves : (s.net w).serves = some (i * 64 + BitWord.lowest v) := by
    rw [hpc]
    rfl
  have hout : (s.net w).out = .bits i v := by
    rw [hpc]
    rfl
  unfold State.netStep at hs
  rw [hpc] at hs hfits
  dsimp only at hs
  split at hs
  · rename_i hd
    cases hs
    refine h.skip (r := r) (Pc.opens_of_serves hserves) hout hfits.1 fun hno => ?_
    rw [Output.flushable_iff, ← h.conn_eq ha hserves] at hno
    cases hd.symm.trans hno.2.2.1
  · rename_i hd
    cases hs
    refine .of_sim (h.pass (Pc.opens_of_serves hserves) rfl hout.symm ⟨hfits, ?_⟩)
    exact Bool.eq_false_of_not_eq_true hd

theorem aliveStep {r : Output.Sys} {i : Nat} {v : BitVec 64} (h : Sim B s u) (ha : s.Alone)
    (hpc : s.net w = .alive i v) (hs : s.netStep B w r = some t) : Follows B u t := by
  have hfits := h.fits w
  have hserves : (s.net w).serves = some (i * 64 + BitWord.lowest v) := by
    rw [hpc]
    rfl
  have hout : (s.net w).out = .bits i v := by
    rw [hpc]
    rfl
  have hconn := h.conn_eq ha hserves
  unfold State.netStep at hs
  rw [hpc] at hs hfits
  dsimp only at hs
  obtain ⟨⟨hv, hroom⟩, hd⟩ := hfits
  split at hs
  · rename_i hfd
    cases hs
    have hflush : (u.conns (i * 64 + BitWord.lowest v)).flushable w = true := by
      rw [Output.flushable_iff, ← hconn]
      exact ⟨(h.owned ha hserves).1, hd, hfd⟩
    have hstep : Output.step B (.net w r) u = some (u.setNet w
        (.call (i * 64 + BitWord.lowest v) (.drain i (BitWord.clearLowest v)) .flush)) := by
      change u.netStep B w r = _
      unfold Output.State.netStep
      rw [h.net w, hout]
      dsimp only
      rw [if_neg hv, if_pos ⟨h.cap ▸ hroom, hflush⟩]
    exact .of_step hstep (h.setNet (Pc.opens_of_serves hserves) rfl trivial)
  · rename_i hfd
    cases hs
    refine h.skip (r := r) (Pc.opens_of_serves hserves) hout hv fun hno => hfd ?_
    rw [Output.flushable_iff, ← hconn] at hno
    exact hno.2.2.2

/-- One access of a call. -/
theorem callStep {r : Output.Sys} {ret : Ret} {op : Output.Op} (hu : Output.Sound u) (h : Sim B s u)
    (ha : s.Alone) (hpc : s.net w = .call idx ret op) (hs : s.netStep B w r = some t) :
    Follows B u t := by
  have hserves : (s.net w).serves = some idx := by
    rw [hpc]
    rfl
  have hconn := h.conn_eq ha hserves
  have hnet : u.net w = .call idx ret.out op := by
    rw [h.net w, hpc]
    rfl
  unfold State.netStep at hs
  rw [hpc] at hs
  obtain ⟨⟨c, next⟩, hop, ht⟩ := Option.map_eq_some_iff.mp hs
  have hcall := (hu.slot idx).call w op (by rw [hnet, Output.opOn_call_self])
  rw [← hconn] at hcall
  have hkeeps := (Output.Op.moves hop).keeps hcall.2.1 hcall.2.2
  have hsim : Sim B (s.setConn idx c) (u.setConn idx c) := by
    apply h.setConn (h.not_opened ha hserves) hkeeps.owner
    · intro hd
      exact ⟨(hkeeps.live hd).1, (hkeeps.live hd).2.2⟩
    · intro w' hl
      rw [eq_of_lives ha hserves hl, hpc] at hl
      cases hl
  have hstep : Output.step B (.net w r) u =
      some ((u.setConn idx c).setNet w (Output.resume idx ret.out next)) := by
    change u.netStep B w r = _
    unfold Output.State.netStep
    rw [hnet]
    dsimp only
    rw [← hconn, hop]
    cases next <;> rfl
  rw [← out_resume] at hstep
  refine .of_step hstep ?_
  rw [← ht]
  dsimp only
  split
  · refine (hsim.unref idx).setNet ?_ (opens_resume idx ret next) (fits_resume idx ret next)
    rw [unref_net]
    exact Pc.opens_of_serves hserves
  · exact hsim.setNet (Pc.opens_of_serves hserves) (opens_resume idx ret next)
      (fits_resume idx ret next)

theorem readTurn {k : Epoll.Handler} {r : Turn} (h : Sim B s u) (hpc : s.net w = .read k)
    (hs : s.readTurn w k r = some t) : Follows B u t := by
  have hfits := h.fits w
  rw [hpc] at hfits
  have hold : (s.net w).opens = none := by
    rw [hpc]
    rfl
  have hidle : (s.net w).out = .idle := by
    rw [hpc]
    rfl
  cases r with
  | bytes =>
    cases hs
    exact h.goOn hold hidle rfl rfl hfits
  | intr =>
    cases hs
    exact .of_sim h
  | again | ended =>
    cases hs
    exact h.goOn hold hidle rfl rfl trivial
  | _ => cases hs

theorem seat {g : Nat} (h : Sim B s u) (ha : s.Alone)
    (hs : (s.net w).serves = some idx) (hd : (s.conns idx).dead = false)
    (hseat : (s.conns idx).seatedBy = none) :
    ∃ u', Output.step B (.join g idx) u = some u' ∧
      Sim B (s.setConn idx { s.conns idx with seatedBy := some g }) u' := by
  have hsim : Sim B (s.setConn idx { s.conns idx with seatedBy := some g })
      (u.setConn idx { s.conns idx with seatedBy := some g }) :=
    h.setConn (h.not_opened ha hs) rfl (fun hd => ⟨hd, rfl⟩) fun _ _ => hd
  have hheld := (h.owned ha hs).2 hd
  have hconn := h.conn_eq ha hs
  rw [hconn] at hsim hd hseat hheld ⊢
  exact ⟨_, if_pos ⟨hheld, hd, hseat⟩, hsim⟩

theorem parseTurn {k : Epoll.Handler} {r : Turn} (h : Sim B s u)
    (ha : s.Alone) (hpc : s.net w = .parse k) (hs : s.parseTurn w k r = some t) :
    Follows B u t := by
  have hd : (s.conns k.idx).dead = false := by
    have hfits := h.fits w
    rw [hpc] at hfits
    exact hfits
  have hserves : (s.net w).serves = some k.idx := by
    rw [hpc]
    rfl
  have hidle : (s.net w).out = .idle := by
    rw [hpc]
    rfl
  have hold := Pc.opens_of_serves hserves
  cases r with
  | starved | malformed | reject | silent =>
    cases hs
    exact h.goOn hold hidle rfl rfl trivial
  | answer m =>
    cases hs
    exact h.start ha hserves hidle hd (Or.inr ⟨m, rfl⟩) rfl
  | join g m =>
    simp only [State.parseTurn, Option.ite_none_right_eq_some] at hs
    obtain ⟨hseat, ht⟩ := hs
    cases ht
    obtain ⟨u', hjoin, hsim⟩ := h.seat (g := g) ha hserves hd hseat
    have hd' : ((s.setConn k.idx { s.conns k.idx with seatedBy := some g }).conns k.idx).dead =
        false := by
      rw [setConn_self]
      exact hd
    have hret : (Ret.back k .parseFrames).out = .handler := rfl
    obtain ⟨v, hreach, hv⟩ := hsim.start ha hserves hidle hd' (Or.inr ⟨m, rfl⟩) hret
    exact ⟨v, .head trivial hjoin hreach, hv⟩
  | _ => cases hs

/-! ### The game workers -/

theorem leave {g : Nat} (h : Sim B s u) (hg : s.game g = .idle)
    (hseat : (s.conns idx).seatedBy = some g) :
    Follows B u ((s.setConn idx { s.conns idx with seatedBy := none }).unref idx) := by
  have hnone := h.not_opened_of_seat hseat
  have hsim : Sim B (s.setConn idx { s.conns idx with seatedBy := none })
      (u.setConn idx { s.conns idx with seatedBy := none }) :=
    h.setConn hnone rfl (fun hd => ⟨hd, rfl⟩) fun _ hl => h.dead_of_lives hl
  have hconn := h.same idx hnone
  rw [hconn] at hsim hseat ⊢
  have hstep : Output.step B (.leave g idx) u =
      some (u.setConn idx { u.conns idx with seatedBy := none }) :=
    if_pos ⟨h.game.symm ▸ hg, hseat⟩
  exact .of_step hstep (hsim.unref idx)

theorem look {g : Nat} {m : List UInt8} (h : Sim B s u) (hg : s.game g = .idle)
    (hseat : (s.conns idx).seatedBy = some g) (hd : (s.conns idx).dead = false) :
    Follows B u { s with
      game := Function.update s.game g (.enqueue idx (s.conns idx).owner m) } := by
  have hconn := h.same idx (h.not_opened_of_seat hseat)
  have hsim : Sim B { s with
      game := Function.update s.game g (.enqueue idx (s.conns idx).owner m) }
      (u.setGame g (.enqueue idx (s.conns idx).owner m)) := h.setGame
  rw [hconn] at hsim hseat hd ⊢
  have hstep : Output.step B (.look g idx m) u =
      some (u.setGame g (.enqueue idx (u.conns idx).owner m)) :=
    if_pos ⟨h.game.symm ▸ hg, hseat, hd⟩
  exact .of_step hstep hsim

theorem setRing (h : Sim B s u) (hnone : ∀ w, (s.net w).opens ≠ some idx) (sendQ : ρ)
    (log : List (List UInt8)) : Sim B (s.setConn idx { s.conns idx with sendQ, log })
      (u.setConn idx { s.conns idx with sendQ, log }) :=
  h.setConn hnone rfl (fun hd => ⟨hd, rfl⟩) fun _ hl => h.dead_of_lives hl

theorem gameStep {g : Nat} (hu : Output.Sound u) (h : Sim B s u) (hs : s.gameStep B g = some t) :
    Follows B u t := by
  have hstep : Output.step B (.game g) u = u.gameStep B g := rfl
  unfold State.gameStep at hs
  obtain ⟨t', hgame, ht⟩ := Option.map_eq_some_iff.mp hs
  unfold Output.State.gameStep at hgame hstep
  dsimp only at hgame
  have hsame : u.game g = s.game g := congrFun h.game g
  rw [hsame] at hstep
  cases hg : s.game g with
  | idle =>
    rw [hg] at hgame
    cases hgame
  | enqueue idx w' m =>
    -- the worker has a session in a room, and nobody enters that slot
    have hposted := (hu.slot idx).posted g w' (by rw [hsame, hg]; rfl)
    have hnone : ∀ w, (s.net w).opens ≠ some idx := fun w hw =>
      absurd ((h.opening w idx hw).unseated.symm.trans hposted.1) (by rintro ⟨⟩)
    have hconn := h.same idx hnone
    rw [hg] at hgame hstep
    dsimp only at hgame hstep
    rw [← hconn] at hstep
    split at hgame
    · rename_i htook
      rw [if_pos htook] at hstep
      cases hgame
      cases ht
      exact .of_step hstep (h.setRing hnone _ _).setGame
    · rename_i htook
      rw [if_neg htook] at hstep
      cases hgame
      cases ht
      exact .of_step hstep (h.setRing hnone _ _).setGame
  | mark idx w' =>
    rw [hg] at hgame hstep
    cases hgame
    cases ht
    dsimp only at hstep
    rw [h.dirty] at hstep
    have hsim : Sim B { s with
        dirty := s.dirty.mark w' idx
        game := Function.update s.game g .idle }
        (Output.State.setGame { u with dirty := s.dirty.mark w' idx } g .idle) :=
      (h.setDirty (s.dirty.mark w' idx)).setGame
    exact .of_step hstep hsim

/-! ### A connection is taken -/

theorem allocated {fd : Int} {ok : Bool} (h : Sim B s u) (hpc : s.net w = .idle)
    (hroom : idx < s.cap) (hfd : 0 ≤ fd) (hheld : (s.conns idx).netRef = false)
    (hseat : (s.conns idx).seatedBy = none) :
    Sim B ({ s.setConn idx (alloc B (s.conns idx)) with
      holder := Function.update s.holder idx (some w) }.setNet w (.opened idx fd ok)) u := by
  have hnone : ∀ w', (s.net w').opens ≠ some idx := by
    intro w' hw'
    cases (h.opening w' idx hw').fields.1.symm.trans hheld
  have hconn := h.same idx hnone
  have hsim : Sim B ({ s.setConn idx (alloc B (s.conns idx)) with
      holder := Function.update s.holder idx (some w) }.setNet w (.opened idx fd ok))
      (u.setConn idx (u.conns idx)) := by
    apply h.enter
    · exact fun w' _ => hnone w'
    · rw [hpc]
      rintro j ⟨⟩
    · rw [hpc]
      rfl
    · rfl
    · rfl
    · exact fun _ _ _ => rfl
    · rw [hconn] at hheld hseat ⊢
      exact Or.inr ⟨rfl, hroom, hheld, hseat, hfd, rfl⟩
  rw [out_setConn_same] at hsim
  exact hsim

theorem entered {cu : Output.Conn ρ} (h : Sim B s u) (hopens : (s.net w).opens = some idx)
    (ha : s.Alone) (hout : pc.out = .idle) (hlives : pc.lives = none)
    (hpc : pc.opens = none ∧ pc = .idle ∧ c = cu ∧ c.owner = w ∧ (c.dead = false → c.netRef = true) ∨
      pc.opens = some idx ∧ idx < s.cap ∧ cu.netRef = false ∧ cu.seatedBy = none ∧
        Entered B w c cu pc) :
    Sim B ((s.setConn idx c).setNet w pc) (u.setConn idx cu) := by
  have hholder := (h.opening w idx hopens).holder
  have hkeep : Function.update s.holder idx (some w) = s.holder := by
    rw [← hholder, Function.update_eq_self]
  have hsim : Sim B ({ s.setConn idx c with
      holder := Function.update s.holder idx (some w) }.setNet w pc) (u.setConn idx cu) := by
    apply h.enter
    · intro w' hw hw'
      exact hw (Option.some.inj ((h.opening w' idx hw').holder.symm.trans hholder))
    · intro j hj
      exact Option.some.inj (hj.symm.trans hopens)
    · cases hp : s.net w with
      | opened | entering | refused => rfl
      | _ =>
        rw [hp] at hopens
        cases hopens
    · exact hout
    · exact hlives
    · intro w' hw hl
      have hheld := ha w' idx (Pc.serves_of_lives hl)
      exact absurd (Option.some.inj (hheld.symm.trans hholder)) hw
    · exact hpc
  rw [hkeep] at hsim
  exact hsim

/-- The steps of `HandleAccept`; at its end the slot is opened in `Output`. -/
theorem openStep {r : Output.Sys} (h : Sim B s u) (ha : s.Alone)
    (hopens : (s.net w).opens = some idx) (hs : s.netStep B w r = some t) : Follows B u t := by
  obtain ⟨hholder, hroom, hheld, hseat, hentered⟩ := h.opening w idx hopens
  unfold State.netStep at hs
  cases hpc : s.net w with
  | opened j fd ok =>
    rw [hpc] at hs hentered hopens
    cases hopens
    cases hs
    obtain ⟨hfd, hconn⟩ := hentered
    have hsim : Sim B ((s.setConn idx { s.conns idx with fd }).setNet w (.entering idx ok))
        (u.setConn idx (u.conns idx)) := by
      refine h.entered (by rw [hpc]; rfl) ha rfl rfl (Or.inr ⟨rfl, hroom, hheld, hseat, ?_⟩)
      rw [hconn]
      exact ⟨fd, hfd, rfl⟩
    rw [out_setConn_same] at hsim
    exact .of_sim hsim
  | entering j ok =>
    rw [hpc] at hs hentered hopens
    cases hopens
    obtain ⟨fd, hfd, hconn⟩ := hentered
    have hidle : u.net w = .idle := by
      rw [h.net w, hpc]
      rfl
    have hguard : u.net w = .idle ∧ idx < u.cap ∧ 0 ≤ fd ∧ (u.conns idx).netRef = false ∧
        (u.conns idx).seatedBy = none := ⟨hidle, h.cap ▸ hroom, hfd, hheld, hseat⟩
    cases ok with
    | true =>
      cases hs
      have hstep : Output.step B (.accept w idx fd true) u =
          some (u.setConn idx ((u.conns idx).opened B w fd)) := if_pos hguard
      refine .of_step hstep (h.entered (by rw [hpc]; rfl) ha rfl rfl ?_)
      rw [hconn]
      exact Or.inl ⟨rfl, rfl, rfl, rfl, fun _ => rfl⟩
    | false =>
      cases hs
      have hstep : Output.step B (.accept w idx fd false) u =
          some (u.setConn idx ((u.conns idx).failed B w)) := if_pos hguard
      refine .of_step hstep (h.entered (by rw [hpc]; rfl) ha rfl rfl ?_)
      rw [hconn]
      exact Or.inr ⟨rfl, hroom, rfl, rfl, rfl, rfl, rfl⟩
  | refused j =>
    rw [hpc] at hs hentered hopens
    cases hopens
    cases hs
    obtain ⟨hconn, hdead, howner⟩ := hentered
    have hback : { s.conns idx with netRef := false } = u.conns idx := by
      rw [hconn, ← hheld]
    have hsim : Sim B ((s.setConn idx { s.conns idx with netRef := false }).setNet w .idle)
        (u.setConn idx (u.conns idx)) := by
      refine h.entered (by rw [hpc]; rfl) ha rfl rfl (Or.inl ⟨rfl, rfl, hback, ?_, ?_⟩)
      · rw [hback]
        exact howner
      · rw [hback, hdead]
        rintro ⟨⟩
    rw [out_setConn_same] at hsim
    rw [unref_setNet]
    exact .of_sim (hsim.unref idx)
  | _ =>
    rw [hpc] at hopens
    cases hopens

theorem netStep {r : Output.Sys} (hu : Output.Sound u) (h : Sim B s u) (ha : s.Alone)
    (hs : s.netStep B w r = some t) : Follows B u t := by
  cases hpc : s.net w with
  | idle | read k | parse k =>
    unfold State.netStep at hs
    rw [hpc] at hs
    cases hs
  | opened | entering | refused => exact h.openStep ha (by rw [hpc]; rfl) hs
  | head e =>
    unfold State.netStep at hs
    rw [hpc] at hs
    cases hs
    exact h.headTurn ha hpc
  | check k ret =>
    unfold State.netStep at hs
    rw [hpc] at hs
    cases hs
    exact h.checkTurn ha hpc
  | cut k ret =>
    unfold State.netStep at hs
    rw [hpc] at hs
    dsimp only at hs
    split at hs
    · cases hs
      refine .of_sim (h.pass ?_ (opens_ret _) ?_ (fits_resume k.idx (.back k ret) none))
      · rw [hpc]
        rfl
      · rw [hpc, out_ret]
        rfl
    · cases hs
      exact h.cutTurn ha hpc (Bool.eq_false_of_not_eq_true ‹_›)
  | word i => exact h.wordStep hpc hs
  | bits i v => exact h.bitsStep hpc hs
  | owned i v => exact h.ownedStep ha hpc hs
  | alive i v => exact h.aliveStep ha hpc hs
  | call idx ret op => exact h.callStep hu ha hpc hs

theorem step {a : Act} (hu : Output.Sound u) (h : Sim B s u) (ha : s.Alone)
    (hs : Outflow.step B a s = some t) : Follows B u t := by
  cases a with
  | accept w idx fd ok =>
    simp only [Outflow.step, Option.ite_none_right_eq_some] at hs
    obtain ⟨⟨hpc, hroom, hfd, hheld, hseat⟩, ht⟩ := hs
    cases ht
    exact .of_sim (h.allocated hpc hroom hfd hheld hseat)
  | wait w es =>
    simp only [Outflow.step, Option.ite_none_right_eq_some] at hs
    obtain ⟨-, ht⟩ := hs
    cases ht
    exact .of_sim (h.setBatch _)
  | handle w =>
    simp only [Outflow.step, Option.ite_none_right_eq_some] at hs
    obtain ⟨hpc, hs⟩ := hs
    cases hbatch : s.batch w with
    | nil =>
      rw [hbatch] at hs
      cases hs
    | cons e es =>
      rw [hbatch] at hs
      dsimp only at hs
      have hsim := h.setBatch (Function.update s.batch w es)
      split at hs
      · cases hs
        refine .of_sim (hsim.pass ?_ rfl ?_ trivial)
        · change (s.net w).opens = none
          rw [hpc]
          rfl
        · change _ = (s.net w).out
          rw [hpc]
          rfl
      · cases hs
        exact .of_sim hsim
  | turn w r =>
    simp only [Outflow.step] at hs
    cases hpc : s.net w with
    | read k =>
      rw [hpc] at hs
      exact h.readTurn hpc hs
    | parse k =>
      rw [hpc] at hs
      exact h.parseTurn ha hpc hs
    | _ =>
      rw [hpc] at hs
      cases hs
  | cleanup w idx =>
    simp only [Outflow.step, Option.ite_none_right_eq_some] at hs
    obtain ⟨⟨hpc, -⟩, ht⟩ := hs
    cases ht
    refine .of_sim (h.pass ?_ rfl ?_ trivial)
    · rw [hpc]
      rfl
    · rw [hpc]
      rfl
  | drain w =>
    simp only [Outflow.step, Option.ite_none_right_eq_some] at hs
    obtain ⟨⟨hpc, -⟩, ht⟩ := hs
    cases ht
    have hidle : u.net w = .idle := by
      rw [h.net w, hpc]
      rfl
    have hstep : Output.step B (.drain w) u = some (u.setNet w (.word 0)) := if_pos hidle
    refine .of_step hstep (h.setNet ?_ rfl trivial)
    rw [hpc]
    rfl
  | net w r => exact h.netStep hu ha hs
  | leave g idx =>
    simp only [Outflow.step, Option.ite_none_right_eq_some] at hs
    obtain ⟨⟨hg, hseat⟩, ht⟩ := hs
    cases ht
    exact h.leave hg hseat
  | look g idx m =>
    simp only [Outflow.step, Option.ite_none_right_eq_some] at hs
    obtain ⟨⟨hg, hseat, hd⟩, ht⟩ := hs
    cases ht
    exact h.look hg hseat hd
  | game g => exact h.gameStep hu hs

end Sim

theorem follows {cap : Nat} {q : ρ}
    (h : Reach (step B) (fun _ s => s.Alone) (State.init B cap q) s) :
    Follows B (Output.State.init B cap q) s := by
  induction h with
  | refl =>
    refine .of_sim ⟨rfl, rfl, rfl, fun _ => rfl, fun _ _ => rfl, ?_, ?_, fun _ => trivial⟩
    · rintro w idx ⟨⟩
    · rintro w idx ⟨⟩
  | tail _ ha hstep ih =>
    obtain ⟨u, hu, hsim⟩ := ih
    obtain ⟨u', hu', hsim'⟩ := hsim.step (Output.sound_of_reach hu) ha hstep
    exact ⟨u', hu.trans hu', hsim'⟩

/-! ### What a step makes of a slot -/

def Act.Opens (j : Nat) (a : Act) : Prop := ∃ w fd ok, a = .accept w j fd ok

/-- The slot after a step that does not hand it out. -/
inductive Turned (B : OutRing ρ) (s : State ρ) (idx : Nat) (c : Output.Conn ρ) : Prop where
  | quiet (hlog : c.log = (s.conns idx).log) (hwire : c.wire = (s.conns idx).wire)
      (hdead : (s.conns idx).dead = true → c.dead = true)
  | call {w : Nat} {ret : Ret} {r : Output.Sys} {op : Output.Op} {next : Option Output.Op}
      (hpc : s.net w = .call idx ret op) (h : Output.Op.Moves B r (s.conns idx) op c next)
  | post {m : List UInt8} (htook : (B.enqueue (s.conns idx).sendQ m).1 = m.length)
      (hlog : c.log = (s.conns idx).log ++ [m]) (hwire : c.wire = (s.conns idx).wire)
      (hdead : (s.conns idx).dead = true → c.dead = true)

namespace Turned

theorem same (idx : Nat) : Turned B s idx (s.conns idx) := .quiet rfl rfl id

/-- Only one slot is written, and what it is there leaves the stream alone. -/
theorem of_setConn {j : Nat} (hlog : c.log = (s.conns idx).log)
    (hwire : c.wire = (s.conns idx).wire) (hdead : (s.conns idx).dead = true → c.dead = true) :
    Turned B s j ((s.setConn idx c).conns j) := by
  by_cases hj : j = idx
  · subst hj
    rw [setConn_self]
    exact .quiet hlog hwire hdead
  · rw [setConn_ne hj]
    exact .same j

end Turned

theorem unref_conns (s : State ρ) (idx : Nat) : (s.unref idx).conns = s.conns := by
  unfold State.unref
  split <;> rfl

/-- The looks at `dead` write nothing. -/
theorem headTurn_setNet (s : State ρ) (w : Nat) (e : Epoll.Event) :
    ∃ pc, s.headTurn w e = s.setNet w pc := by
  unfold State.headTurn
  split
  · exact ⟨_, rfl⟩
  · split
    · exact ⟨_, rfl⟩
    · split
      · exact ⟨_, rfl⟩
      · split
        · exact ⟨_, rfl⟩
        · exact ⟨_, rfl⟩

theorem checkTurn_setNet (s : State ρ) (w : Nat) (k : Epoll.Handler) (ret : Epoll.Ret) :
    ∃ pc, s.checkTurn w k ret = s.setNet w pc := by
  cases ret with
  | parseFrames | readSession =>
    unfold State.checkTurn
    dsimp only
    split
    · exact ⟨_, rfl⟩
    · exact ⟨_, rfl⟩
  | handleSession =>
    unfold State.checkTurn
    dsimp only
    split
    · exact ⟨_, rfl⟩
    · split
      · exact ⟨_, rfl⟩
      · exact ⟨_, rfl⟩
  | loop => exact ⟨_, rfl⟩

theorem readTurn_conns {k : Epoll.Handler} {r : Turn} (hs : s.readTurn w k r = some t) :
    t.conns = s.conns := by
  cases r with
  | bytes | intr | again | ended =>
    cases hs
    rfl
  | _ => cases hs

theorem turned_parseTurn {k : Epoll.Handler} {r : Turn} {j : Nat} (hs : s.parseTurn w k r = some t) :
    Turned B s j (t.conns j) := by
  cases r with
  | join g m =>
    simp only [State.parseTurn, Option.ite_none_right_eq_some] at hs
    obtain ⟨-, ht⟩ := hs
    cases ht
    exact .of_setConn rfl rfl id
  | starved | malformed | reject | silent | answer =>
    cases hs
    exact .same j
  | _ => cases hs

theorem turned_netStep {r : Output.Sys} {j : Nat} (hs : s.netStep B w r = some t) :
    Turned B s j (t.conns j) := by
  unfold State.netStep at hs
  cases hpc : s.net w with
  | idle | read k | parse k =>
    rw [hpc] at hs
    cases hs
  | opened idx fd ok =>
    rw [hpc] at hs
    cases hs
    exact .of_setConn rfl rfl id
  | entering idx ok =>
    rw [hpc] at hs
    cases ok with
    | true =>
      cases hs
      exact .of_setConn rfl rfl id
    | false =>
      cases hs
      exact .of_setConn rfl rfl fun _ => rfl
  | refused idx =>
    rw [hpc] at hs
    cases hs
    change Turned B s j (((s.setConn idx { s.conns idx with netRef := false }).unref idx).conns j)
    rw [unref_conns]
    exact .of_setConn rfl rfl id
  | head e =>
    rw [hpc] at hs
    cases hs
    obtain ⟨pc, hpc'⟩ := headTurn_setNet s w e
    rw [hpc']
    exact .same j
  | check k ret =>
    rw [hpc] at hs
    cases hs
    obtain ⟨pc, hpc'⟩ := checkTurn_setNet s w k ret
    rw [hpc']
    exact .same j
  | cut k ret =>
    rw [hpc] at hs
    dsimp only at hs
    split at hs
    · cases hs
      exact .same j
    · cases hs
      exact .of_setConn rfl rfl fun _ => rfl
  | word i =>
    rw [hpc] at hs
    dsimp only at hs
    split at hs
    · cases hs
      exact .same j
    · cases hs
      exact .same j
  | bits i v =>
    rw [hpc] at hs
    dsimp only at hs
    split at hs
    · cases hs
      exact .same j
    · split at hs
      · cases hs
        exact .same j
      · cases hs
        exact .same j
  | owned i v | alive i v =>
    rw [hpc] at hs
    dsimp only at hs
    split at hs
    · cases hs
      exact .same j
    · cases hs
      exact .same j
  | call idx ret op =>
    rw [hpc] at hs
    obtain ⟨⟨c, next⟩, hop, ht⟩ := Option.map_eq_some_iff.mp hs
    have hconns : t.conns = (s.setConn idx c).conns := by
      rw [← ht]
      dsimp only
      split
      · exact unref_conns ..
      · rfl
    rw [hconns]
    by_cases hj : j = idx
    · subst hj
      rw [setConn_self]
      exact .call hpc (Output.Op.moves hop)
    · rw [setConn_ne hj]
      exact .same j

theorem turned_gameStep {g j : Nat} (hs : s.gameStep B g = some t) : Turned B s j (t.conns j) := by
  unfold State.gameStep at hs
  obtain ⟨t', hgame, ht⟩ := Option.map_eq_some_iff.mp hs
  unfold Output.State.gameStep at hgame
  dsimp only at hgame
  cases hg : s.game g with
  | idle =>
    rw [hg] at hgame
    cases hgame
  | enqueue idx w m =>
    rw [hg] at hgame
    dsimp only at hgame
    split at hgame
    · rename_i htook
      cases hgame
      cases ht
      by_cases hj : j = idx
      · subst hj
        change Turned B s j ((s.setConn j _).conns j)
        rw [setConn_self]
        exact .post htook rfl rfl id
      · change Turned B s j ((s.setConn idx _).conns j)
        rw [setConn_ne hj]
        exact .same j
    · cases hgame
      cases ht
      change Turned B s j ((s.setConn idx _).conns j)
      exact .of_setConn rfl rfl id
  | mark idx w =>
    rw [hg] at hgame
    cases hgame
    cases ht
    exact .same j

theorem turned {a : Act} {j : Nat} (hs : step B a s = some t) (ha : ¬a.Opens j) :
    Turned B s j (t.conns j) := by
  cases a with
  | accept w idx fd ok =>
    simp only [step, Option.ite_none_right_eq_some] at hs
    obtain ⟨-, ht⟩ := hs
    cases ht
    have hj : j ≠ idx := by
      rintro rfl
      exact ha ⟨w, fd, ok, rfl⟩
    change Turned B s j ((s.setConn idx _).conns j)
    rw [setConn_ne hj]
    exact .same j
  | wait w es =>
    simp only [step, Option.ite_none_right_eq_some] at hs
    obtain ⟨-, ht⟩ := hs
    cases ht
    exact .same j
  | handle w =>
    simp only [step, Option.ite_none_right_eq_some] at hs
    obtain ⟨-, hs⟩ := hs
    cases hbatch : s.batch w with
    | nil =>
      rw [hbatch] at hs
      cases hs
    | cons e es =>
      rw [hbatch] at hs
      dsimp only at hs
      split at hs
      · cases hs
        exact .same j
      · cases hs
        exact .same j
  | turn w r =>
    simp only [step] at hs
    cases hpc : s.net w with
    | read k =>
      rw [hpc] at hs
      rw [readTurn_conns hs]
      exact .same j
    | parse k =>
      rw [hpc] at hs
      exact turned_parseTurn hs
    | _ =>
      rw [hpc] at hs
      cases hs
  | cleanup w idx | drain w =>
    simp only [step, Option.ite_none_right_eq_some] at hs
    obtain ⟨-, ht⟩ := hs
    cases ht
    exact .same j
  | net w r => exact turned_netStep hs
  | leave g idx =>
    simp only [step, Option.ite_none_right_eq_some] at hs
    obtain ⟨-, ht⟩ := hs
    cases ht
    rw [unref_conns]
    exact .of_setConn rfl rfl id
  | look g idx m =>
    simp only [step, Option.ite_none_right_eq_some] at hs
    obtain ⟨-, ht⟩ := hs
    cases ht
    exact .same j
  | game g => exact turned_gameStep hs

/-! ### The results -/

section Results
variable {cap : Nat} {q : ρ}

/-- A slot that is dead gets nothing more to the kernel: its calls are in `Disconnect`. -/
theorem dead_step {a : Act} (h : Follows B (Output.State.init B cap q) s) (ha : s.Alone)
    (hs : step B a s = some t) (hopens : ¬a.Opens idx) (hd : (s.conns idx).dead = true) :
    (t.conns idx).dead = true ∧ (t.conns idx).wire = (s.conns idx).wire := by
  have hturned := turned hs hopens
  generalize t.conns idx = c at hturned ⊢
  cases hturned with
  | quiet hlog hwire hdead => exact ⟨hdead hd, hwire⟩
  | post htook hlog hwire hdead => exact ⟨hdead hd, hwire⟩
  | @call w ret r op next hpc hm =>
    obtain ⟨u, hu, hsim⟩ := h
    have hserves : (s.net w).serves = some idx := by
      rw [hpc]
      rfl
    have hnet : (u.net w).opOn idx = some op := by
      rw [hsim.net w, hpc]
      exact Output.opOn_call_self
    have hclosing := (((Output.sound_of_reach hu).slot idx).call w op hnet).2.2
    rw [← hsim.conn_eq ha hserves, hd] at hclosing
    cases hm with
    | closed => exact ⟨hd, rfl⟩
    | released => exact ⟨hd, rfl⟩
    | _ => cases hclosing

theorem silent (h : Follows B (Output.State.init B cap q) s) (hd : (s.conns idx).dead = true)
    (ht : Reach (step B) (fun a s => s.Alone ∧ ¬a.Opens idx) s t) :
    Follows B (Output.State.init B cap q) t ∧ (t.conns idx).dead = true ∧
      (t.conns idx).wire = (s.conns idx).wire := by
  induction ht with
  | refl => exact ⟨h, hd, rfl⟩
  | tail _ hok hstep ih =>
    obtain ⟨⟨u, hu, hsim⟩, hdead, hwire⟩ := ih
    obtain ⟨hdead', hwire'⟩ := dead_step ⟨u, hu, hsim⟩ hok.1 hstep hok.2 hdead
    obtain ⟨u', hu', hsim'⟩ := hsim.step (Output.sound_of_reach hu) hok.1 hstep
    exact ⟨⟨u', hu.trans hu', hsim'⟩, hdead', hwire'.trans hwire⟩

/-- Only a message that the ring took is remembered. -/
theorem Turned.log {c : Output.Conn ρ} (hB : B.Fifo) (h : Turned B s idx c) :
    c.log = (s.conns idx).log ∨ ∃ m, (B.enqueue (s.conns idx).sendQ m).1 = m.length ∧
      c.log = (s.conns idx).log ++ [m] := by
  cases h with
  | quiet hlog => exact Or.inl hlog
  | post htook hlog => exact Or.inr ⟨_, htook, hlog⟩
  | call hpc hm =>
    cases hm with
    | @sent m htook =>
      rcases hB.enqueue (s.conns idx).sendQ m with ⟨hlen, -⟩ | ⟨hzero, -⟩
      · exact Or.inr ⟨m, hlen, rfl⟩
      · exact absurd hzero htook
    | _ => exact Or.inl rfl

/-- While every slot is served only by the worker to which `Alloc` handed it last, the kernel gets
a prefix of what the ring took since the session began: a refused message adds nothing, the
`Reassembler` of a client sees whole messages in order, and after `Disconnect` nothing more is
written. -/
theorem stream_alone (hB : B.Fifo)
    (h : Reach (step B) (fun _ s => s.Alone) (State.init B cap q) s) (idx : Nat) :
    (s.conns idx).wire <+: (s.conns idx).log.flatten ∧
    (∀ a t, step B a s = some t → ¬a.Opens idx → (t.conns idx).log = (s.conns idx).log ∨
      ∃ m, (B.enqueue (s.conns idx).sendQ m).1 = m.length ∧
        (t.conns idx).log = (s.conns idx).log ++ [m]) ∧
    ((∀ m ∈ (s.conns idx).log, frameFormat.Whole m) →
      (BeltProto.reassembler.split (s.conns idx).wire).frames <+: (s.conns idx).log) ∧
    ((s.conns idx).dead = true →
      ∀ t, Reach (step B) (fun a s => s.Alone ∧ ¬a.Opens idx) s t →
        (t.conns idx).wire = (s.conns idx).wire) := by
  have hfollows := follows h
  have hpre : (s.conns idx).wire <+: (s.conns idx).log.flatten := by
    obtain ⟨u, hu, hsim⟩ := hfollows
    rcases hsim.stream idx with hnil | ⟨hwire, hlog⟩
    · rw [hnil]
      exact List.nil_prefix
    · rw [hwire, hlog]
      exact (Output.output_stream hB hu idx).1
  refine ⟨hpre, ?_, ?_, ?_⟩
  · exact fun a t ht ha => (turned ht ha).log hB
  · intro hwhole
    exact LengthPrefix.Format.split_prefix
      (fun m hm => BeltProto.reassembler_whole (hwhole m hm)) hpre
  · exact fun hd t ht => (silent hfollows hd ht).2.2

end Results

/-! ### Runs of a few workers -/

def Act.worker : Act → Option Nat
  | .accept w _ _ _ | .wait w _ | .handle w | .turn w _ | .cleanup w _ | .drain w | .net w _ => some w
  | .leave .. | .look .. | .game _ => none

theorem netStep_net {r : Output.Sys} {w' : Nat} (hs : s.netStep B w r = some t) (hw : w' ≠ w) :
    t.net w' = s.net w' := by
  unfold State.netStep at hs
  cases hpc : s.net w with
  | idle | read k | parse k =>
    rw [hpc] at hs
    cases hs
  | opened idx fd ok =>
    rw [hpc] at hs
    cases hs
    exact setNet_ne hw
  | entering idx ok =>
    rw [hpc] at hs
    cases ok <;> cases hs <;> exact setNet_ne hw
  | refused idx =>
    rw [hpc] at hs
    cases hs
    rw [setNet_ne hw, unref_net]
    rfl
  | head e =>
    rw [hpc] at hs
    cases hs
    obtain ⟨pc, hpc'⟩ := headTurn_setNet s w e
    rw [hpc']
    exact setNet_ne hw
  | check k ret =>
    rw [hpc] at hs
    cases hs
    obtain ⟨pc, hpc'⟩ := checkTurn_setNet s w k ret
    rw [hpc']
    exact setNet_ne hw
  | cut k ret | owned i v | alive i v | word i =>
    rw [hpc] at hs
    dsimp only at hs
    split at hs <;> cases hs <;> exact setNet_ne hw
  | bits i v =>
    rw [hpc] at hs
    dsimp only at hs
    split at hs
    · cases hs
      exact setNet_ne hw
    · split at hs <;> cases hs <;> exact setNet_ne hw
  | call idx ret op =>
    rw [hpc] at hs
    obtain ⟨⟨c, next⟩, -, ht⟩ := Option.map_eq_some_iff.mp hs
    rw [← ht]
    dsimp only
    rw [setNet_ne hw]
    split
    · exact congrFun (unref_net ..) w'
    · rfl

theorem step_net {a : Act} (hs : step B a s = some t) (hw : a.worker ≠ some w) :
    t.net w = s.net w := by
  have hne : ∀ {w'}, a.worker = some w' → w ≠ w' := by
    rintro w' hw' rfl
    exact hw hw'
  cases a with
  | accept w' idx fd ok | cleanup w' idx | drain w' =>
    simp only [step, Option.ite_none_right_eq_some] at hs
    obtain ⟨-, ht⟩ := hs
    cases ht
    exact setNet_ne (hne rfl)
  | wait w' es | look g idx m =>
    simp only [step, Option.ite_none_right_eq_some] at hs
    obtain ⟨-, ht⟩ := hs
    cases ht
    rfl
  | handle w' =>
    simp only [step, Option.ite_none_right_eq_some] at hs
    obtain ⟨-, hs⟩ := hs
    cases hbatch : s.batch w' with
    | nil =>
      rw [hbatch] at hs
      cases hs
    | cons e es =>
      rw [hbatch] at hs
      dsimp only at hs
      split at hs
      · cases hs
        exact setNet_ne (hne rfl)
      · cases hs
        rfl
  | turn w' r =>
    simp only [step] at hs
    cases hpc : s.net w' with
    | read k =>
      rw [hpc] at hs
      cases r with
      | bytes | again | ended =>
        cases hs
        exact setNet_ne (hne rfl)
      | intr =>
        cases hs
        rfl
      | _ => cases hs
    | parse k =>
      rw [hpc] at hs
      cases r with
      | join g m =>
        simp only [State.parseTurn, Option.ite_none_right_eq_some] at hs
        obtain ⟨-, ht⟩ := hs
        cases ht
        exact setNet_ne (hne rfl)
      | _ =>
        cases hs
        all_goals exact setNet_ne (hne rfl)
    | _ =>
      rw [hpc] at hs
      cases hs
  | net w' r => exact netStep_net hs (hne rfl)
  | leave g idx =>
    simp only [step, Option.ite_none_right_eq_some] at hs
    obtain ⟨-, ht⟩ := hs
    cases ht
    exact congrFun (unref_net ..) w
  | game g =>
    obtain ⟨t', -, ht⟩ := Option.map_eq_some_iff.mp hs
    rw [← ht]

/-- A step of the first `n` workers, each of which serves only what it holds. -/
def aloneBelow (n : Nat) (a : Act) (s : State ρ) : Bool :=
  a.worker.all (· < n) &&
    (List.range n).all fun w => (s.net w).serves.all fun idx => s.holder idx == some w

theorem reach_of_aloneBelow {n : Nat} {as : List Act} (hidle : ∀ w, n ≤ w → s.net w = .idle)
    (h : runIf (step B) (aloneBelow n) as s = some t) :
    Reach (step B) (fun _ s => s.Alone) s t := by
  induction as generalizing s with
  | nil =>
    cases h
    exact .refl
  | cons a as ih =>
    simp only [runIf] at h
    split at h
    · rename_i htest
      obtain ⟨u, hu, hrest⟩ := Option.bind_eq_some_iff.mp h
      simp only [aloneBelow, Bool.and_eq_true, Option.all_eq_true, List.all_eq_true,
        List.mem_range, decide_eq_true_eq, beq_iff_eq] at htest
      have halone : s.Alone := by
        intro w idx hserves
        by_cases hw : w < n
        · exact htest.2 w hw idx hserves
        · rw [hidle w (by omega)] at hserves
          cases hserves
      refine .head halone hu (ih ?_ hrest)
      intro w hw
      rw [step_net hu fun hworker => ?_, hidle w hw]
      have hlt := htest.1 w hworker
      omega
    · cases h

/-- Two workers with a slot each. The answer to a JOIN is cut short by the kernel, so `EPOLLOUT` is
armed; a message of the game worker comes behind it, and the callback of `Drain` writes on, while
the other worker answers a frame. -/
def shared : List Act :=
  [.accept 0 0 5 true, .net 0 {}, .accept 1 1 6 true, .net 0 {}, .net 1 {}, .net 1 {},
    .wait 0 [⟨0, 0, false, true, false⟩], .handle 0, .net 0 {}, .turn 0 .bytes,
    .turn 0 (.join 0 [4, 0, 1, 0]), .net 0 {}, .net 0 {}, .net 0 { n := 3 }, .net 0 {}, .net 0 {},
    .net 0 {}, .net 0 {}, .turn 0 .starved, .net 0 {}, .turn 0 .again, .net 0 {},
    .wait 1 [⟨1, 0, false, true, false⟩], .handle 1, .net 1 {}, .turn 1 .bytes,
    .look 0 0 [6, 0, 1, 0, 8, 9], .game 0, .game 0, .turn 1 (.answer [4, 0, 2, 0]), .drain 0,
    .net 0 {}, .net 0 {}, .net 1 {}, .net 1 {}, .net 0 {}, .net 0 {}, .net 0 {},
    .net 1 { n := 4 }, .net 0 { n := 5 }]

theorem stream_alone_shared : ∃ s,
    run (step Output.mtRing) shared (State.init Output.mtRing 2 {}) = some s ∧
    (s.conns 0).wire <+: (s.conns 0).log.flatten ∧
    (BeltProto.reassembler.split (s.conns 0).wire).frames <+: (s.conns 0).log ∧
    (s.conns 0).wire = [4, 0, 1, 0, 6, 0, 1, 0] ∧
    (s.conns 0).log = [[4, 0, 1, 0], [6, 0, 1, 0, 8, 9]] := by
  have hrun : (runIf (step Output.mtRing) (aloneBelow 2) shared
      (State.init Output.mtRing 2 {})).map (fun s => ((s.conns 0).wire, (s.conns 0).log)) =
      some ([4, 0, 1, 0, 6, 0, 1, 0], [[4, 0, 1, 0], [6, 0, 1, 0, 8, 9]]) := by decide +kernel
  obtain ⟨s, hs, hproj⟩ := Option.map_eq_some_iff.mp hrun
  obtain ⟨hwire, hlog⟩ := Prod.mk.inj hproj
  obtain ⟨hpre, -, hframes, -⟩ :=
    stream_alone Output.mtRing_fifo (reach_of_aloneBelow (fun _ _ => rfl) hs) 0
  refine ⟨s, run_of_runIf hs, hpre, hframes ?_, hwire, hlog⟩
  rw [hlog]
  intro m hm
  rcases List.mem_cons.mp hm with rfl | hm
  · exact ⟨rfl, by decide, by decide⟩
  · rcases List.mem_singleton.mp hm with rfl
    exact ⟨rfl, by decide, by decide⟩

/-! ### A slot that two workers flush -/

/-- Worker 0 registers a session that joins a room of game worker 0, and marks it; the client is
gone when the answer to the JOIN is written, and the game worker gives the session back too. -/
def vanished : List Act :=
  [.accept 0 0 5 true, .net 0 {}, .net 0 {}, .wait 0 [⟨0, 0, false, true, false⟩], .handle 0,
    .net 0 {}, .turn 0 .bytes, .turn 0 (.join 0 [4, 0, 1, 0]), .net 0 {}, .look 0 0 [4, 0, 2, 0],
    .game 0, .game 0, .net 0 {}, .net 0 { errno := .other }, .net 0 {}, .net 0 {}, .net 0 {},
    .net 0 {}, .net 0 {}, .net 0 {}, .leave 0 0]

/-- Worker 0 takes the bit and compares the owner; worker 1 accepts a connection into the slot,
stores itself as the owner and answers a frame; worker 0 finds the slot alive. Both write. -/
def twice : List Act :=
  vanished ++ [.drain 0, .net 0 {}, .net 0 {}, .accept 1 0 6 true, .net 1 {}, .net 1 {},
    .wait 1 [⟨0, 1, false, true, false⟩], .handle 1, .net 1 {}, .turn 1 .bytes,
    .turn 1 (.answer [4, 0, 3, 0]), .net 1 {}, .net 1 {}, .net 0 {}, .net 0 {}, .net 0 {},
    .net 1 { n := 4 }, .net 0 { n := 4 }]

/-- The ring took one message of four bytes, and the kernel got it twice. -/
theorem stream_twice : ∃ s,
    Reach (step Output.mtRing) Any (State.init Output.mtRing 1 {}) s ∧
    (s.conns 0).log = [[4, 0, 3, 0]] ∧ (s.conns 0).wire = [4, 0, 3, 0, 4, 0, 3, 0] ∧
    ¬(s.conns 0).wire <+: (s.conns 0).log.flatten := by
  have hrun : (run (step Output.mtRing) twice (State.init Output.mtRing 1 {})).map
      (fun s => ((s.conns 0).log, (s.conns 0).wire)) =
      some ([[4, 0, 3, 0]], [4, 0, 3, 0, 4, 0, 3, 0]) := by decide +kernel
  obtain ⟨s, hs, hproj⟩ := Option.map_eq_some_iff.mp hrun
  obtain ⟨hlog, hwire⟩ := Prod.mk.inj hproj
  refine ⟨s, reach_of_run hs, hlog, hwire, ?_⟩
  rw [hlog, hwire]
  decide

end Outflow

end BeltServer
