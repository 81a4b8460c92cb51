import BeltServer.Handlers
import BeltServer.Lib.Runs

/-!
# One socket, one worker

Every session that a worker reads, parses, dispatches for, writes to or closes is its own and of
the generation that its handler was entered with, as long as `Alloc` hands out no slot of which
another worker has still to test whether it goes on, and no worker finds its number in the `owner`
of a slot that another one is about to enter. Of a session the argument needs five fields; over
these the steps of a worker are of two kinds, those that only move its handler on and those that
change one slot which no other worker holds.
-/

namespace BeltServer

set_option autoImplicit false

namespace Epoll

open Runs SwapList

/-! ### Owner and generation -/

/-- The session that the next step reads, parses, serves, writes to, closes or gives back. -/
def Pc.touches : Pc → Option Handler
  | .read h | .parse h | .dispatch h _ | .flush h _ | .cut h _ | .close h _ | .release h _ => some h
  | _ => none

/-- The look at `dead` after the call decides whether the handler goes on. -/
def Ret.looks (h : Handler) : Ret → Bool
  | .parseFrames | .readSession => true
  | .handleSession => h.output
  | .loop => false

/-- The slot of which a test that the worker has still to make decides whether its handler goes on:
a look at `dead`, or the last test of the callback of `Drain`. -/
def Pc.decides : Pc → Option Nat
  | .head e => some e.idx
  | .drained h _ => some h.idx
  | .check h ret => if ret.looks h then some h.idx else none
  | _ => none

/-- The slot that the worker has from `Alloc` and whose `owner` it has not stored yet. -/
def Pc.enters : Pc → Option Nat
  | .opened idx _ _ | .entering idx _ => some idx
  | _ => none

structure OneWorker (s : State) : Prop where
  owned : ∀ w h, (s.pc w).touches = some h →
    (s.sess h.idx).owner = w ∧ (s.sess h.idx).gen = h.gen
  /-- After the release of its session a handler only returns. -/
  ends : ∀ w h ret r t, s.pc w = .check h ret → h.idx ∉ s.mySessions w →
    step (.net w r) s = some t → (t.pc w).touches = none

/-- `Alloc` hands out a slot only when no other worker has still to test whether it goes on with it,
or to handle an event with its number and its present generation; and the callback of `Drain` does
not compare the `owner` of a slot that another worker is about to store, unless it differs. -/
def Settled : Act → State → Prop
  | .accept w _ recvOk sendOk _, s => ∀ idx, (s.pool.alloc recvOk sendOk).2 = some idx →
      ∀ w', w' ≠ w → (s.pc w').decides ≠ some idx ∧
        ∀ e ∈ s.batch w', e.idx = idx → (s.sess idx).gen ≠ e.gen
  | .drain w idx, s => (s.sess idx).owner = w → ∀ w', (s.pc w').enters ≠ some idx
  | _, _ => True

/-! ### The view -/

/-- The fields of a session that ownership rests on. -/
structure Slot where
  refs : Int
  dead : Bool
  gen : UInt32
  fd : Int
  owner : Nat

structure Slot.Same (x y : Slot) : Prop where
  owner : x.owner = y.owner
  gen : x.gen = y.gen
  dead : x.dead = y.dead
  fd : x.fd = y.fd

theorem Slot.Same.refl (x : Slot) : x.Same x := ⟨rfl, rfl, rfl, rfl⟩

structure View where
  slots : Nat → Slot
  free : List Nat
  mySessions : Nat → List Nat
  batch : Nat → List Event
  roomRefs : Nat → Nat
  pc : Nat → Pc

def Session.slot (x : Session) : Slot := ⟨x.refs, x.dead, x.gen, x.fd, x.owner⟩

def State.view (s : State) : View where
  slots idx := Session.slot (s.sess idx)
  free := s.pool.free
  mySessions := s.mySessions
  batch := s.batch
  roomRefs := s.roomRefs
  pc := s.pc

/-- The slot whose first reference the worker still has to enter or to give back. -/
def Pc.owes : Pc → Option Nat
  | .opened idx _ _ | .entering idx _ | .refused idx => some idx
  | .release h _ => some h.idx
  | _ => none

namespace View

/-- Worker `w` has the owner's reference of the slot. -/
def Holds (v : View) (w idx : Nat) : Prop := idx ∈ v.mySessions w ∨ (v.pc w).owes = some idx

def Running (v : View) (w : Nat) (h : Handler) : Prop :=
  h.idx ∈ v.mySessions w ∧ (v.slots h.idx).gen = h.gen ∧ (v.slots h.idx).dead = false

/-- The session of worker `w` is closed, and only the reference is left. -/
def Given (v : View) (w idx : Nat) : Prop :=
  (v.slots idx).owner = w ∧ (v.slots idx).dead = true ∧ ¬0 ≤ (v.slots idx).fd

def Fits (v : View) (w : Nat) : Pc → Prop
  | .idle => True
  | .opened idx _ _ | .entering idx _ => (v.slots idx).dead = false
  | .refused idx => v.Given w idx
  | .head e => (v.slots e.idx).dead = true ∨ v.Running w e.handler
  -- without an owner the slot stays as it is, and has no socket
  | .drained h _ => (∀ w', ¬v.Holds w' h.idx) ∨ v.Running w h
  | .read h | .parse h | .dispatch h _ | .flush h _ | .cut h _ => v.Running w h
  | .close h _ =>
    h.idx ∈ v.mySessions w ∧ (v.slots h.idx).gen = h.gen ∧ (v.slots h.idx).dead = true
  | .release h _ => v.Given w h.idx ∧ (v.slots h.idx).gen = h.gen
  | .check h ret => ret.looks h = true → (v.slots h.idx).dead = true ∨ v.Running w h

structure Inv (v : View) : Prop where
  free_nodup : v.free.Nodup
  free : ∀ idx ∈ v.free, (v.slots idx).refs = 0
  held : ∀ w idx, v.Holds w idx → (v.slots idx).refs = v.roomRefs idx + 1
  unheld : ∀ idx, (∀ w, ¬v.Holds w idx) → (v.slots idx).refs = v.roomRefs idx
  one : ∀ w w' idx, v.Holds w idx → v.Holds w' idx → w = w'
  nodup : ∀ w, (v.mySessions w).Nodup
  fresh : ∀ w idx, (v.pc w).owes = some idx → idx ∉ v.mySessions w
  owner : ∀ w, ∀ idx ∈ v.mySessions w, (v.slots idx).owner = w
  closing : ∀ w, ∀ idx ∈ v.mySessions w, (v.slots idx).dead = true →
    ∃ h ret, v.pc w = .close h ret ∧ h.idx = idx
  socket : ∀ idx, 0 ≤ (v.slots idx).fd → ∃ w, v.Holds w idx
  fits : ∀ w, v.Fits w (v.pc w)
  batch : ∀ w, ∀ e ∈ v.batch w, (v.slots e.idx).gen = e.gen → (v.slots e.idx).dead = false →
    v.Holds w e.idx
  alive : ∀ idx, (v.slots idx).dead = false → 0 < (v.slots idx).refs → ∃ w, v.Holds w idx

theorem Given.mono {v v' : View} {w idx : Nat} (h : v.Given w idx)
    (hsame : (v'.slots idx).Same (v.slots idx)) : v'.Given w idx := by
  obtain ⟨howner, hdead, hfd⟩ := h
  refine ⟨hsame.owner.trans howner, hsame.dead.trans hdead, ?_⟩
  rw [hsame.fd]
  exact hfd

/-- What a worker relies on are fields of the slots that it holds, flags that are set, and that
nobody holds a slot that it is to test. -/
theorem Fits.mono {v v' : View} {w : Nat} (h : v.Fits w (v.pc w))
    (hmine : v'.mySessions w = v.mySessions w)
    (hslots : ∀ j, v.Holds w j → (v'.slots j).Same (v.slots j))
    (hdead : ∀ j, (v.pc w).decides = some j → (v.slots j).dead = true → (v'.slots j).dead = true)
    (hnone : ∀ k b, v.pc w = .drained k b → (∀ w', ¬v.Holds w' k.idx) →
      ∀ w', ¬v'.Holds w' k.idx) : v'.Fits w (v.pc w) := by
  have hrun : ∀ {k : Handler}, v.Running w k → v'.Running w k := by
    rintro k ⟨hk, hgen, halive⟩
    have hsame := hslots k.idx (Or.inl hk)
    exact ⟨hmine ▸ hk, hsame.gen.trans hgen, hsame.dead.trans halive⟩
  have howed : ∀ j, (v.pc w).owes = some j → (v'.slots j).Same (v.slots j) :=
    fun j hj => hslots j (Or.inr hj)
  cases hpc : v.pc w with
  | idle => trivial
  | opened j fd ctlOk =>
    rw [hpc] at h howed
    exact (howed j rfl).dead.trans h
  | entering j ctlOk =>
    rw [hpc] at h howed
    exact (howed j rfl).dead.trans h
  | refused j =>
    rw [hpc] at h howed
    exact Given.mono h (howed j rfl)
  | head e =>
    rw [hpc] at h hdead
    exact h.imp (hdead e.idx rfl) hrun
  | drained k b =>
    rw [hpc] at h
    exact h.imp (hnone k b hpc) hrun
  | read k | parse k | dispatch k _ | flush k _ | cut k _ =>
    rw [hpc] at h
    exact hrun h
  | close k ret =>
    rw [hpc] at h
    obtain ⟨hk, hgen, hset⟩ := h
    have hsame := hslots k.idx (Or.inl hk)
    exact ⟨hmine ▸ hk, hsame.gen.trans hgen, hsame.dead.trans hset⟩
  | release k ret =>
    rw [hpc] at h howed
    exact ⟨h.1.mono (howed k.idx rfl), (howed k.idx rfl).gen.trans h.2⟩
  | check k ret =>
    rw [hpc] at h hdead
    intro hlooks
    exact (h hlooks).imp (hdead k.idx (if_pos hlooks)) hrun

/-! ### A worker changes a slot -/

/-- Worker `w` writes a slot, its list and the free list, and continues with `p`. -/
def act (v : View) (w idx : Nat) (x : Slot) (l f : List Nat) (p : Pc) : View :=
  { v with
    slots := Function.update v.slots idx x
    mySessions := Function.update v.mySessions w l
    free := f
    pc := Function.update v.pc w p }

def setPc (v : View) (w : Nat) (p : Pc) : View := { v with pc := Function.update v.pc w p }

/-- What `act` has to respect, for the slot and the worker alone. -/
structure Change (v : View) (w idx : Nat) (x : Slot) (l f : List Nat) (p : Pc) : Prop where
  /-- No other worker has the slot, in any way. -/
  alone : ∀ w', w' ≠ w → ¬v.Holds w' idx
  looks : ∀ w', w' ≠ w → (v.pc w').decides = some idx → (v.slots idx).dead = true →
    x.dead = true
  drained : ∀ w', w' ≠ w → ∀ h b, v.pc w' = .drained h b → h.idx ≠ idx
  batch : ∀ w', ∀ e ∈ v.batch w', e.idx = idx → x.gen = e.gen → x.dead = false →
    w' = w ∧ (idx ∈ l ∨ p.owes = some idx)
  /-- Worker `w` is concerned with this slot, before and after. -/
  list : ∀ j, j ≠ idx → (j ∈ l ↔ j ∈ v.mySessions w)
  owed : ∀ j, (v.pc w).owes = some j → j = idx
  owes : ∀ j, p.owes = some j → j = idx
  closing : ∀ h ret, v.pc w = .close h ret → h.idx = idx
  /-- The invariant of the slot. -/
  free_nodup : f.Nodup
  free : ∀ j ∈ f, j ≠ idx → j ∈ v.free
  free_self : idx ∈ f → x.refs = 0
  held : idx ∈ l ∨ p.owes = some idx → x.refs = v.roomRefs idx + 1
  unheld : ¬(idx ∈ l ∨ p.owes = some idx) → x.refs = v.roomRefs idx ∧ x.dead = true
  nodup : l.Nodup
  fresh : p.owes = some idx → idx ∉ l
  owner : idx ∈ l → x.owner = w
  dead : idx ∈ l → x.dead = true → ∃ h ret, p = .close h ret ∧ h.idx = idx
  socket : 0 ≤ x.fd → idx ∈ l ∨ p.owes = some idx
  fits : (v.act w idx x l f p).Fits w p

variable {v : View} {w w' idx j : Nat} {x : Slot} {l f : List Nat} {p : Pc}

@[simp] theorem act_slots_self : (v.act w idx x l f p).slots idx = x := Function.update_self ..

theorem act_slots_of_ne (h : j ≠ idx) : (v.act w idx x l f p).slots j = v.slots j :=
  Function.update_of_ne h ..

@[simp] theorem act_mySessions_self : (v.act w idx x l f p).mySessions w = l :=
  Function.update_self ..

theorem act_mySessions_of_ne (h : w' ≠ w) :
    (v.act w idx x l f p).mySessions w' = v.mySessions w' := Function.update_of_ne h ..

@[simp] theorem act_pc_self : (v.act w idx x l f p).pc w = p := Function.update_self ..

theorem act_pc_of_ne (h : w' ≠ w) : (v.act w idx x l f p).pc w' = v.pc w' :=
  Function.update_of_ne h ..

theorem holds_act_of_ne (h : w' ≠ w) : (v.act w idx x l f p).Holds w' j ↔ v.Holds w' j := by
  unfold Holds
  rw [act_mySessions_of_ne h, act_pc_of_ne h]

theorem holds_act_self :
    (v.act w idx x l f p).Holds w idx ↔ idx ∈ l ∨ p.owes = some idx := by
  unfold Holds
  rw [act_mySessions_self, act_pc_self]

theorem Change.holds_iff (hc : v.Change w idx x l f p) (hj : j ≠ idx) :
    (v.act w idx x l f p).Holds w' j ↔ v.Holds w' j := by
  by_cases hw : w' = w
  · subst hw
    unfold Holds
    rw [act_mySessions_self, act_pc_self]
    apply or_congr (hc.list j hj)
    constructor
    · intro h
      exact absurd (hc.owes j h) hj
    · intro h
      exact absurd (hc.owed j h) hj
  · exact holds_act_of_ne hw

/-- Of the slot itself only `w` may hold something afterwards. -/
theorem Change.eq_of_holds (hc : v.Change w idx x l f p)
    (h : (v.act w idx x l f p).Holds w' idx) : w' = w := by
  by_contra hw
  exact hc.alone w' hw ((holds_act_of_ne hw).mp h)

/-- The other workers rely on slots that they hold, on a flag that stays set, or on a slot that
nobody holds. -/
theorem Change.fits_other (hc : v.Change w idx x l f p) (hw : w' ≠ w)
    (h : v.Fits w' (v.pc w')) : (v.act w idx x l f p).Fits w' ((v.act w idx x l f p).pc w') := by
  rw [act_pc_of_ne hw]
  apply h.mono (act_mySessions_of_ne hw)
  · intro j hj
    have hne : j ≠ idx := by
      intro hne
      subst hne
      exact hc.alone w' hw hj
    rw [act_slots_of_ne hne]
    exact .refl _
  · intro j hdecides hdead
    by_cases hne : j = idx
    · rw [hne, act_slots_self]
      rw [hne] at hdecides hdead
      exact hc.looks w' hw hdecides hdead
    · rw [act_slots_of_ne hne]
      exact hdead
  · intro k b hpc hnone w''
    rw [hc.holds_iff (hc.drained w' hw k b hpc)]
    exact hnone w''

theorem Inv.act (hv : v.Inv) (hc : v.Change w idx x l f p) : (v.act w idx x l f p).Inv where
  free_nodup := hc.free_nodup
  free j hj := by
    by_cases hne : j = idx
    · subst hne
      rw [act_slots_self]
      exact hc.free_self hj
    · rw [act_slots_of_ne hne]
      exact hv.free j (hc.free j hj hne)
  held w' j hj := by
    by_cases hne : j = idx
    · subst hne
      have hw := hc.eq_of_holds hj
      subst hw
      rw [act_slots_self]
      exact hc.held (holds_act_self.mp hj)
    · rw [act_slots_of_ne hne]
      exact hv.held w' j ((hc.holds_iff hne).mp hj)
  unheld j hj := by
    by_cases hne : j = idx
    · subst hne
      rw [act_slots_self]
      exact (hc.unheld fun h => hj w (holds_act_self.mpr h)).1
    · rw [act_slots_of_ne hne]
      exact hv.unheld j fun w' h => hj w' ((hc.holds_iff hne).mpr h)
  one w' w'' j hj hj' := by
    by_cases hne : j = idx
    · subst hne
      exact (hc.eq_of_holds hj).trans (hc.eq_of_holds hj').symm
    · exact hv.one w' w'' j ((hc.holds_iff hne).mp hj) ((hc.holds_iff hne).mp hj')
  nodup w' := by
    by_cases hw : w' = w
    · subst hw
      rw [act_mySessions_self]
      exact hc.nodup
    · rw [act_mySessions_of_ne hw]
      exact hv.nodup w'
  fresh w' j hj := by
    by_cases hw : w' = w
    · subst hw
      rw [act_pc_self] at hj
      rw [act_mySessions_self]
      have hji := hc.owes j hj
      subst hji
      exact hc.fresh hj
    · rw [act_pc_of_ne hw] at hj
      rw [act_mySessions_of_ne hw]
      exact hv.fresh w' j hj
  owner w' j hj := by
    by_cases hne : j = idx
    · subst hne
      have hw := hc.eq_of_holds (Or.inl hj)
      subst hw
      rw [act_mySessions_self] at hj
      rw [act_slots_self]
      exact hc.owner hj
    · rw [act_slots_of_ne hne]
      by_cases hw : w' = w
      · subst hw
        rw [act_mySessions_self] at hj
        exact hv.owner w' j ((hc.list j hne).mp hj)
      · rw [act_mySessions_of_ne hw] at hj
        exact hv.owner w' j hj
  closing w' j hj hdead := by
    by_cases hne : j = idx
    · subst hne
      have hw := hc.eq_of_holds (Or.inl hj)
      subst hw
      rw [act_mySessions_self] at hj
      rw [act_slots_self] at hdead
      rw [act_pc_self]
      exact hc.dead hj hdead
    · rw [act_slots_of_ne hne] at hdead
      by_cases hw : w' = w
      · subst hw
        rw [act_mySessions_self] at hj
        obtain ⟨h, ret, hpc, hj'⟩ := hv.closing w' j ((hc.list j hne).mp hj) hdead
        exact absurd (hj'.symm.trans (hc.closing h ret hpc)) hne
      · rw [act_mySessions_of_ne hw] at hj
        rw [act_pc_of_ne hw]
        exact hv.closing w' j hj hdead
  socket j hj := by
    by_cases hne : j = idx
    · subst hne
      rw [act_slots_self] at hj
      exact ⟨w, holds_act_self.mpr (hc.socket hj)⟩
    · rw [act_slots_of_ne hne] at hj
      obtain ⟨w', hw'⟩ := hv.socket j hj
      exact ⟨w', (hc.holds_iff hne).mpr hw'⟩
  fits w' := by
    by_cases hw : w' = w
    · subst hw
      rw [act_pc_self]
      exact hc.fits
    · exact hc.fits_other hw (hv.fits w')
  batch w' e he hgen hdead := by
    by_cases hne : e.idx = idx
    · rw [hne, act_slots_self] at hgen hdead
      obtain ⟨hw, hholds⟩ := hc.batch w' e he hne hgen hdead
      rw [hne, hw]
      exact holds_act_self.mpr hholds
    · rw [act_slots_of_ne hne] at hgen hdead
      exact (hc.holds_iff hne).mpr (hv.batch w' e he hgen hdead)
  alive j hdead hrefs := by
    by_cases hne : j = idx
    · subst hne
      rw [act_slots_self] at hdead
      refine ⟨w, holds_act_self.mpr ?_⟩
      by_contra hnot
      rw [(hc.unheld hnot).2] at hdead
      cases hdead
    · rw [act_slots_of_ne hne] at hdead hrefs
      obtain ⟨w', hw'⟩ := hv.alive j hdead hrefs
      exact ⟨w', (hc.holds_iff hne).mpr hw'⟩

theorem Fits.setPc (h : v.Fits w p)
    (hholds : ∀ w' j, (v.setPc w p).Holds w' j ↔ v.Holds w' j) : (v.setPc w p).Fits w p := by
  cases p with
  | drained k b => exact h.imp_left fun hnone w' hk => hnone w' ((hholds w' k.idx).mp hk)
  | idle | opened _ _ _ | entering _ _ | refused _ | head _ => exact h
  | read _ | parse _ | dispatch _ _ | flush _ _ | cut _ _ | close _ _ | release _ _ => exact h
  | check _ _ => exact h

theorem Inv.setPc (hv : v.Inv) (howed : (v.pc w).owes = none) (howes : p.owes = none)
    (hclose : ∀ h ret, v.pc w ≠ .close h ret) (hfits : v.Fits w p) : (v.setPc w p).Inv := by
  have hholds : ∀ w' j, (v.setPc w p).Holds w' j ↔ v.Holds w' j := by
    intro w' j
    unfold Holds
    apply or_congr Iff.rfl
    by_cases hw : w' = w
    · subst hw
      simp [View.setPc, howed, howes]
    · simp [View.setPc, hw]
  have hself : (v.setPc w p).pc w = p := Function.update_self ..
  have hother : ∀ {w'}, w' ≠ w → (v.setPc w p).pc w' = v.pc w' :=
    fun hw => Function.update_of_ne hw ..
  exact {
    free_nodup := hv.free_nodup
    free := hv.free
    held := fun w' j hj => hv.held w' j ((hholds w' j).mp hj)
    unheld := fun j hj => hv.unheld j fun w' h => hj w' ((hholds w' j).mpr h)
    one := fun w' w'' j hj hj' => hv.one w' w'' j ((hholds w' j).mp hj) ((hholds w'' j).mp hj')
    nodup := hv.nodup
    fresh := by
      intro w' j hj
      by_cases hw : w' = w
      · subst hw
        rw [hself, howes] at hj
        cases hj
      · rw [hother hw] at hj
        exact hv.fresh w' j hj
    owner := hv.owner
    closing := by
      intro w' j hj hdead
      obtain ⟨h, ret, hpc, hidx⟩ := hv.closing w' j hj hdead
      by_cases hw : w' = w
      · subst hw
        exact absurd hpc (hclose h ret)
      · rw [hother hw]
        exact ⟨h, ret, hpc, hidx⟩
    socket := by
      intro j hj
      obtain ⟨w', hw'⟩ := hv.socket j hj
      exact ⟨w', (hholds w' j).mpr hw'⟩
    fits := by
      intro w'
      by_cases hw : w' = w
      · subst hw
        rw [hself]
        exact hfits.setPc hholds
      · rw [hother hw]
        refine Fits.mono (hv.fits w') rfl ?_ ?_ ?_
        · intro j _
          exact .refl _
        · intro j _ hdead
          exact hdead
        · intro k b _ hnone w'' hk
          exact hnone w'' ((hholds w'' k.idx).mp hk)
    batch := fun w' e he hgen hdead => (hholds w' e.idx).mpr (hv.batch w' e he hgen hdead)
    alive := by
      intro j hdead hrefs
      obtain ⟨w', hw'⟩ := hv.alive j hdead hrefs
      exact ⟨w', (hholds w' j).mpr hw'⟩ }

/-! ### The rooms change a slot -/

def rooms (v : View) (idx : Nat) (x : Slot) (n : Nat) (f : List Nat) : View :=
  { v with
    slots := Function.update v.slots idx x
    roomRefs := Function.update v.roomRefs idx n
    free := f }

theorem rooms_slots_self {n : Nat} : (v.rooms idx x n f).slots idx = x := Function.update_self ..

theorem Inv.rooms {n : Nat} (hv : v.Inv) (hdead : x.dead = (v.slots idx).dead)
    (howner : x.owner = (v.slots idx).owner) (hfd : x.fd = (v.slots idx).fd)
    (hrefs : x.refs - n = (v.slots idx).refs - v.roomRefs idx)
    (hgen : ∀ w, v.Holds w idx → x.gen = (v.slots idx).gen)
    (hroom : (v.slots idx).dead = false → 0 < (v.slots idx).refs)
    (hnodup : f.Nodup) (hfree : ∀ j ∈ f, j ≠ idx → j ∈ v.free) (hself : idx ∈ f → x.refs = 0) :
    (v.rooms idx x n f).Inv := by
  have hat : (v.rooms idx x n f).slots idx = x := rooms_slots_self
  have hof : ∀ {j}, j ≠ idx → (v.rooms idx x n f).slots j = v.slots j :=
    fun hj => Function.update_of_ne hj ..
  have hn : (v.rooms idx x n f).roomRefs idx = n := Function.update_self ..
  have hnof : ∀ {j}, j ≠ idx → (v.rooms idx x n f).roomRefs j = v.roomRefs j :=
    fun hj => Function.update_of_ne hj ..
  have hget : ∀ {β : Type} (get : Slot → β), get x = get (v.slots idx) →
      ∀ j, get ((v.rooms idx x n f).slots j) = get (v.slots j) := by
    intro β get heq j
    by_cases hj : j = idx
    · rw [hj, hat]
      exact heq
    · rw [hof hj]
  have hdead' := hget Slot.dead hdead
  have howner' := hget Slot.owner howner
  have hfd' := hget Slot.fd hfd
  have hgen' : ∀ w j, v.Holds w j → ((v.rooms idx x n f).slots j).gen = (v.slots j).gen := by
    intro w j hh
    by_cases hj : j = idx
    · subst hj
      rw [hat]
      exact hgen w hh
    · rw [hof hj]
  exact {
    free_nodup := hnodup
    free := by
      intro j hj
      by_cases hne : j = idx
      · subst hne
        rw [hat]
        exact hself hj
      · rw [hof hne]
        exact hv.free j (hfree j hj hne)
    held := by
      intro w j hj
      have hheld := hv.held w j hj
      by_cases hne : j = idx
      · subst hne
        rw [hat, hn]
        omega
      · rw [hof hne, hnof hne]
        exact hheld
    unheld := by
      intro j hj
      have hunheld := hv.unheld j hj
      by_cases hne : j = idx
      · subst hne
        rw [hat, hn]
        omega
      · rw [hof hne, hnof hne]
        exact hunheld
    one := hv.one
    nodup := hv.nodup
    fresh := hv.fresh
    owner := by
      intro w j hj
      exact (howner' j).trans (hv.owner w j hj)
    closing := by
      intro w j hj hset
      exact hv.closing w j hj ((hdead' j).symm.trans hset)
    socket := by
      intro j hj
      rw [hfd' j] at hj
      exact hv.socket j hj
    fits := by
      intro w
      apply (hv.fits w).mono (rfl : (v.rooms idx x n f).mySessions w = v.mySessions w)
      · intro j hj
        exact ⟨howner' j, hgen' w j hj, hdead' j, hfd' j⟩
      · intro j _ hset
        exact (hdead' j).trans hset
      · intro k b _ hnone
        exact hnone
    batch := by
      intro w e he heq halive
      rw [hdead' e.idx] at halive
      by_cases hne : e.idx = idx
      · -- an open session has its owner, so its generation has not changed
        rw [hne] at halive
        obtain ⟨w', hw'⟩ := hv.alive idx halive (hroom halive)
        rw [hne, hat, hgen w' hw', ← hne] at heq
        rw [← hne] at halive
        exact hv.batch w e he heq halive
      · rw [hof hne] at heq
        exact hv.batch w e he heq halive
    alive := by
      intro j halive hpos
      rw [hdead' j] at halive
      by_cases hne : j = idx
      · subst hne
        exact hv.alive j halive (hroom halive)
      · rw [hof hne] at hpos
        exact hv.alive j halive hpos }

/-! ### The steps that change a slot -/

theorem nodup_snoc (hl : l.Nodup) (h : idx ∉ l) : (l ++ [idx]).Nodup := by
  rw [← List.concat_eq_append]
  exact hl.concat h

theorem mem_of_mem_snoc (hj : j ∈ l ++ [idx]) (hne : j ≠ idx) : j ∈ l := by
  rcases List.mem_append.mp hj with hl | hidx
  · exact hl
  · exact absurd (List.mem_singleton.mp hidx) hne

theorem not_socket {P : Prop} : (0 : Int) ≤ -1 → P := fun h => absurd h (by decide)

/-- The slot at the back of the free list goes to `w`. -/
theorem Inv.hand_out {fd : Int} {ctlOk : Bool} (hv : v.Inv) (hpc : v.pc w = .idle)
    (hback : v.free.getLast? = some idx)
    (hdecides : ∀ w', w' ≠ w → (v.pc w').decides ≠ some idx)
    (hbatch : ∀ w', w' ≠ w → ∀ e ∈ v.batch w', e.idx = idx → (v.slots idx).gen ≠ e.gen) :
    (v.act w idx { v.slots idx with fd := -1, dead := false, refs := 1 } (v.mySessions w)
      v.free.dropLast (.opened idx fd ctlOk)).Inv := by
  obtain ⟨f, hf⟩ := List.getLast?_eq_some_iff.mp hback
  have hmem : idx ∈ v.free := by
    rw [hf]
    exact List.mem_append_right f (List.mem_singleton_self idx)
  have hzero := hv.free idx hmem
  have halone : ∀ w', ¬v.Holds w' idx := by
    intro w' h
    have hheld := hv.held w' idx h
    omega
  have hrefs := hv.unheld idx halone
  have hnodup := hv.free_nodup
  rw [hf] at hnodup
  apply hv.act
  rw [hf, List.dropLast_concat]
  exact {
    alone := fun w' _ => halone w'
    looks := fun w' hw hlook => absurd hlook (hdecides w' hw)
    drained := fun w' hw h b hpc' hidx => by
      apply hdecides w' hw
      rw [hpc', ← hidx]
      rfl
    batch := by
      intro w' e he hidx hgen _
      by_cases hw : w' = w
      · exact ⟨hw, Or.inr rfl⟩
      · exact absurd hgen (hbatch w' hw e he hidx)
    list := fun _ _ => Iff.rfl
    owed := fun j hj => by
      rw [hpc] at hj
      cases hj
    owes := fun j hj => (Option.some.inj hj).symm
    closing := fun h ret hclose => by
      rw [hpc] at hclose
      cases hclose
    free_nodup := (List.nodup_append.mp hnodup).1
    free := fun j hj _ => hf ▸ List.mem_append_left _ hj
    free_self := fun hj =>
      absurd rfl ((List.nodup_append.mp hnodup).2.2 idx hj idx (List.mem_singleton_self idx))
    held := fun _ => by
      dsimp only
      omega
    unheld := fun h => absurd (Or.inr rfl) h
    nodup := hv.nodup w
    fresh := fun _ hmine => halone w (Or.inl hmine)
    owner := fun hmine => absurd (Or.inl hmine) (halone w)
    dead := fun _ hset => by cases hset
    socket := not_socket
    fits := congrArg Slot.dead act_slots_self }

/-- The callback of `Drain` is of a worker that has the slot, or of one that finds it without an
owner. -/
theorem Inv.drained_of_holds (hv : v.Inv) (hholds : v.Holds w idx) :
    ∀ w', w' ≠ w → ∀ h b, v.pc w' = .drained h b → h.idx ≠ idx := by
  intro w' hw h b hpc hidx
  have hfits := hv.fits w'
  rw [hpc] at hfits
  rcases hfits with hnone | hrun
  · exact hnone w (hidx ▸ hholds)
  · exact hw (hv.one w' w idx (Or.inl (hidx ▸ hrun.1)) hholds)

section Owed
variable (howed : (v.pc w).owes = some idx)
include howed

theorem owed_eq : ∀ j, (v.pc w).owes = some j → j = idx := by
  intro j hj
  rw [howed] at hj
  exact (Option.some.inj hj).symm

theorem not_close_of_owes : ∀ h ret, v.pc w ≠ .close h ret := by
  intro h ret hclose
  rw [hclose] at howed
  cases howed

variable (hv : v.Inv)
include hv

theorem Inv.alone_of_owes : ∀ w', w' ≠ w → ¬v.Holds w' idx :=
  fun w' hw h => hw (hv.one w' w idx h (Or.inr howed))

theorem Inv.not_free_of_owes : idx ∉ v.free := by
  intro hmem
  have hzero := hv.free idx hmem
  have hheld := hv.held w idx (Or.inr howed)
  omega

end Owed

theorem Inv.enter {fd : Int} {ctlOk : Bool} (hv : v.Inv) (hpc : v.pc w = .opened idx fd ctlOk) :
    (v.act w idx { v.slots idx with fd } (v.mySessions w) v.free (.entering idx ctlOk)).Inv := by
  have howed : (v.pc w).owes = some idx := by rw [hpc]; rfl
  have hfits := hv.fits w
  rw [hpc] at hfits
  have hfresh := hv.fresh w idx howed
  apply hv.act
  exact {
    alone := hv.alone_of_owes howed
    looks := fun _ _ _ hset => hset
    drained := hv.drained_of_holds (Or.inr howed)
    batch := by
      intro w' e he hidx hgen hdead
      subst hidx
      exact ⟨hv.one w' w e.idx (hv.batch w' e he hgen hdead) (Or.inr howed), Or.inr rfl⟩
    list := fun _ _ => Iff.rfl
    owed := owed_eq howed
    owes := fun j hj => (Option.some.inj hj).symm
    closing := fun h ret hclose => absurd hclose (not_close_of_owes howed h ret)
    free_nodup := hv.free_nodup
    free := fun _ hj _ => hj
    free_self := fun hj => absurd hj (hv.not_free_of_owes howed)
    held := fun _ => hv.held w idx (Or.inr howed)
    unheld := fun h => absurd (Or.inr rfl) h
    nodup := hv.nodup w
    fresh := fun _ => hfresh
    owner := fun hmine => absurd hmine hfresh
    dead := fun hmine => absurd hmine hfresh
    socket := fun _ => Or.inr rfl
    fits := (congrArg Slot.dead act_slots_self).trans hfits }

theorem Inv.register {ctlOk : Bool} (hv : v.Inv) (hpc : v.pc w = .entering idx ctlOk) :
    (v.act w idx { v.slots idx with owner := w } (v.mySessions w ++ [idx]) v.free .idle).Inv := by
  have howed : (v.pc w).owes = some idx := by rw [hpc]; rfl
  have hfits := hv.fits w
  rw [hpc] at hfits
  have hfresh := hv.fresh w idx howed
  have hin : idx ∈ v.mySessions w ++ [idx] :=
    List.mem_append_right _ (List.mem_singleton_self idx)
  apply hv.act
  exact {
    alone := hv.alone_of_owes howed
    looks := fun _ _ _ hset => hset
    drained := hv.drained_of_holds (Or.inr howed)
    batch := by
      intro w' e he hidx hgen hdead
      subst hidx
      exact ⟨hv.one w' w e.idx (hv.batch w' e he hgen hdead) (Or.inr howed), Or.inl hin⟩
    list := fun j hj => by simp [hj]
    owed := owed_eq howed
    owes := fun j hj => by cases hj
    closing := fun h ret hclose => absurd hclose (not_close_of_owes howed h ret)
    free_nodup := hv.free_nodup
    free := fun _ hj _ => hj
    free_self := fun hj => absurd hj (hv.not_free_of_owes howed)
    held := fun _ => hv.held w idx (Or.inr howed)
    unheld := fun h => absurd (Or.inl hin) h
    nodup := nodup_snoc (hv.nodup w) hfresh
    fresh := fun hj => by cases hj
    owner := fun _ => rfl
    dead := fun _ hset => by
      rw [hfits] at hset
      cases hset
    socket := fun _ => Or.inl hin
    fits := trivial }

theorem Inv.refuse {ctlOk : Bool} (hv : v.Inv) (hpc : v.pc w = .entering idx ctlOk) :
    (v.act w idx { v.slots idx with fd := -1, owner := w, dead := true } (v.mySessions w) v.free
      (.refused idx)).Inv := by
  have howed : (v.pc w).owes = some idx := by rw [hpc]; rfl
  have hfresh := hv.fresh w idx howed
  apply hv.act
  exact {
    alone := hv.alone_of_owes howed
    looks := fun _ _ _ _ => rfl
    drained := hv.drained_of_holds (Or.inr howed)
    batch := fun _ _ _ _ _ hset => by cases hset
    list := fun _ _ => Iff.rfl
    owed := owed_eq howed
    owes := fun j hj => (Option.some.inj hj).symm
    closing := fun h ret hclose => absurd hclose (not_close_of_owes howed h ret)
    free_nodup := hv.free_nodup
    free := fun _ hj _ => hj
    free_self := fun hj => absurd hj (hv.not_free_of_owes howed)
    held := fun _ => hv.held w idx (Or.inr howed)
    unheld := fun h => absurd (Or.inr rfl) h
    nodup := hv.nodup w
    fresh := fun _ => hfresh
    owner := fun hmine => absurd hmine hfresh
    dead := fun hmine => absurd hmine hfresh
    socket := not_socket
    fits := by
      refine ⟨?_, ?_, ?_⟩
      · rw [act_slots_self]
      · rw [act_slots_self]
      · rw [act_slots_self]
        exact not_socket }

theorem Inv.give_back {g : UInt32} (hv : v.Inv) (howed : (v.pc w).owes = some idx)
    (hgiven : v.Given w idx) (howes : p.owes = none)
    (hnodup : f.Nodup) (hfree : ∀ j ∈ f, j ≠ idx → j ∈ v.free)
    (hself : idx ∈ f → (v.slots idx).refs = 1)
    (hfits : ∀ x, x.dead = true → (v.act w idx x (v.mySessions w) f p).Fits w p) :
    (v.act w idx { v.slots idx with refs := (v.slots idx).refs - 1, gen := g } (v.mySessions w) f
      p).Inv := by
  have hfresh := hv.fresh w idx howed
  have hheld := hv.held w idx (Or.inr howed)
  obtain ⟨-, hdead, hfd⟩ := hgiven
  apply hv.act
  exact {
    alone := hv.alone_of_owes howed
    looks := fun _ _ _ hset => hset
    drained := hv.drained_of_holds (Or.inr howed)
    batch := fun _ _ _ _ _ hset => by
      rw [hdead] at hset
      cases hset
    list := fun _ _ => Iff.rfl
    owed := owed_eq howed
    owes := fun j hj => by
      rw [howes] at hj
      cases hj
    closing := fun h ret hclose => absurd hclose (not_close_of_owes howed h ret)
    free_nodup := hnodup
    free := hfree
    free_self := fun hj => by
      have hone := hself hj
      dsimp only
      omega
    held := by
      rintro (hmine | hj)
      · exact absurd hmine hfresh
      · rw [howes] at hj
        cases hj
    unheld := fun _ => by
      refine ⟨?_, hdead⟩
      dsimp only
      omega
    nodup := hv.nodup w
    fresh := fun hj => by
      rw [howes] at hj
      cases hj
    owner := fun hmine => absurd hmine hfresh
    dead := fun hmine => absurd hmine hfresh
    socket := fun h => absurd h hfd
    fits := hfits _ hdead }

section Mine
variable (hv : v.Inv) (hmine : idx ∈ v.mySessions w)
include hv hmine

theorem Inv.alone_of_mine : ∀ w', w' ≠ w → ¬v.Holds w' idx :=
  fun w' hw h => hw (hv.one w' w idx h (Or.inl hmine))

theorem Inv.not_free_of_mine : idx ∉ v.free := by
  intro hmem
  have hzero := hv.free idx hmem
  have hheld := hv.held w idx (Or.inl hmine)
  omega

end Mine

theorem Inv.mark_dead {h : Handler} {ret : Ret} (hv : v.Inv) (hpc : v.pc w = .cut h ret) :
    (v.act w h.idx { v.slots h.idx with dead := true } (v.mySessions w) v.free
      (.close h ret)).Inv := by
  have hfits := hv.fits w
  rw [hpc] at hfits
  obtain ⟨hmine, hgen, -⟩ := hfits
  have howed : ∀ {j}, (v.pc w).owes ≠ some j := by
    intro j hj
    rw [hpc] at hj
    cases hj
  apply hv.act
  exact {
    alone := hv.alone_of_mine hmine
    looks := fun _ _ _ _ => rfl
    drained := hv.drained_of_holds (Or.inl hmine)
    batch := fun _ _ _ _ _ hset => by cases hset
    list := fun _ _ => Iff.rfl
    owed := fun j hj => absurd hj howed
    owes := fun j hj => by cases hj
    closing := fun k r hclose => by
      rw [hpc] at hclose
      cases hclose
    free_nodup := hv.free_nodup
    free := fun _ hj _ => hj
    free_self := fun hj => absurd hj (hv.not_free_of_mine hmine)
    held := fun _ => hv.held w h.idx (Or.inl hmine)
    unheld := fun hnot => absurd (Or.inl hmine) hnot
    nodup := hv.nodup w
    fresh := fun hj => by cases hj
    owner := fun _ => hv.owner w h.idx hmine
    dead := fun _ _ => ⟨h, ret, rfl, rfl⟩
    socket := fun _ => Or.inl hmine
    fits := by
      refine ⟨?_, ?_, ?_⟩
      · rw [act_mySessions_self]
        exact hmine
      · rw [act_slots_self]
        exact hgen
      · rw [act_slots_self] }

theorem Inv.shut {h : Handler} {ret : Ret} (hv : v.Inv) (hpc : v.pc w = .close h ret) :
    (v.act w h.idx { v.slots h.idx with fd := -1 } (swapRemove (v.mySessions w) h.idx) v.free
      (.release h ret)).Inv := by
  have hfits := hv.fits w
  rw [hpc] at hfits
  obtain ⟨hmine, hgen, hset⟩ := hfits
  have hout : h.idx ∉ swapRemove (v.mySessions w) h.idx :=
    fun hin => ((mem_swapRemove (hv.nodup w)).mp hin).2 rfl
  apply hv.act
  exact {
    alone := hv.alone_of_mine hmine
    looks := fun _ _ _ hdead => hdead
    drained := hv.drained_of_holds (Or.inl hmine)
    batch := fun _ _ _ _ _ hdead => by
      rw [hset] at hdead
      cases hdead
    list := fun j hj => by
      rw [mem_swapRemove (hv.nodup w)]
      exact and_iff_left hj
    owed := fun j hj => by
      rw [hpc] at hj
      cases hj
    owes := fun j hj => (Option.some.inj hj).symm
    closing := fun k r hclose => by
      rw [hpc] at hclose
      cases hclose
      rfl
    free_nodup := hv.free_nodup
    free := fun _ hj _ => hj
    free_self := fun hj => absurd hj (hv.not_free_of_mine hmine)
    held := fun _ => hv.held w h.idx (Or.inl hmine)
    unheld := fun hnot => absurd (Or.inr rfl) hnot
    nodup := nodup_swapRemove (hv.nodup w) h.idx
    fresh := fun _ => hout
    owner := fun hin => absurd hin hout
    dead := fun hin => absurd hin hout
    socket := not_socket
    fits := by
      refine ⟨⟨?_, ?_, ?_⟩, ?_⟩
      · rw [act_slots_self]
        exact hv.owner w h.idx hmine
      · rw [act_slots_self]
        exact hset
      · rw [act_slots_self]
        exact not_socket
      · rw [act_slots_self]
        exact hgen }

theorem Inv.join (hv : v.Inv) (hheld : v.Holds w idx) :
    (v.rooms idx { v.slots idx with refs := (v.slots idx).refs + 1 } (v.roomRefs idx + 1)
      v.free).Inv := by
  have hrefs := hv.held w idx hheld
  refine hv.rooms rfl rfl rfl ?_ ?_ ?_ ?_ ?_ ?_
  · dsimp only
    omega
  · intro _ _
    rfl
  · intro _
    omega
  · exact hv.free_nodup
  · intro j hj _
    exact hj
  · intro hj
    have hzero := hv.free idx hj
    omega

theorem Inv.pos_of_room (hv : v.Inv) (hroom : 0 < v.roomRefs idx) : 0 < (v.slots idx).refs := by
  by_cases hheld : ∃ w, v.Holds w idx
  · obtain ⟨w, hw⟩ := hheld
    have hrefs := hv.held w idx hw
    omega
  · have hrefs := hv.unheld idx fun w hw => hheld ⟨w, hw⟩
    omega

theorem Inv.leave {g : UInt32} (hv : v.Inv) (hroom : 0 < v.roomRefs idx) (hnodup : f.Nodup)
    (hgen : (v.slots idx).refs ≠ 1 → g = (v.slots idx).gen)
    (hfree : ∀ j ∈ f, j ≠ idx → j ∈ v.free) (hself : idx ∈ f → (v.slots idx).refs = 1) :
    (v.rooms idx { v.slots idx with refs := (v.slots idx).refs - 1, gen := g }
      (v.roomRefs idx - 1) f).Inv := by
  have hpos := hv.pos_of_room hroom
  refine hv.rooms rfl rfl rfl ?_ ?_ ?_ ?_ ?_ ?_
  · dsimp only
    omega
  · intro w hw
    have hrefs := hv.held w idx hw
    apply hgen
    omega
  · intro _
    exact hpos
  · exact hnodup
  · exact hfree
  · intro hj
    have hone := hself hj
    dsimp only
    omega

theorem Inv.rebatch {es : List Event} (hv : v.Inv)
    (hes : ∀ e ∈ es, (v.slots e.idx).gen = e.gen → (v.slots e.idx).dead = false →
      v.Holds w e.idx) : View.Inv { v with batch := Function.update v.batch w es } :=
  { hv with
    fits := by
      intro w'
      refine Fits.mono (hv.fits w') rfl ?_ ?_ ?_
      · intro j _
        exact .refl _
      · intro j _ hdead
        exact hdead
      · intro k b _ hnone
        exact hnone
    batch := by
      intro w' e he hgen hdead
      by_cases hw : w' = w
      · subst hw
        dsimp only at he
        rw [Function.update_self] at he
        exact hes e he hgen hdead
      · dsimp only at he
        rw [Function.update_of_ne hw] at he
        exact hv.batch w' e he hgen hdead }

/-- A worker without a handler holds what is in its list, and nothing there is dead. -/
theorem Inv.running_of_idle {h : Handler} (hv : v.Inv) (hpc : v.pc w = .idle)
    (hmine : h.idx ∈ v.mySessions w) (hgen : (v.slots h.idx).gen = h.gen) : v.Running w h := by
  refine ⟨hmine, hgen, ?_⟩
  apply Bool.eq_false_of_not_eq_true
  intro hdead
  obtain ⟨k, ret, hclose, -⟩ := hv.closing w h.idx hmine hdead
  rw [hpc] at hclose
  cases hclose

/-- Whoever has the slot, and has stored its `owner`, is the worker stored there. -/
theorem Inv.eq_of_owner (hv : v.Inv) (howner : (v.slots idx).owner = w)
    (henters : ∀ w', (v.pc w').enters ≠ some idx) (hholds : v.Holds w' idx) : w' = w := by
  rcases hholds with hmine | howed
  · exact (hv.owner w' idx hmine).symm.trans howner
  · have hfits := hv.fits w'
    have hno := henters w'
    cases hpc : v.pc w' with
    | idle | head _ | drained _ _ | read _ | parse _ | dispatch _ _ | flush _ _ | cut _ _ =>
      rw [hpc] at howed
      cases howed
    | close _ _ | check _ _ =>
      rw [hpc] at howed
      cases howed
    | opened _ _ _ | entering _ _ =>
      rw [hpc] at howed hno
      exact absurd howed hno
    | refused j =>
      rw [hpc] at howed hfits
      cases howed
      exact hfits.1.symm.trans howner
    | release k ret =>
      rw [hpc] at howed hfits
      cases howed
      exact hfits.1.1.symm.trans howner

end View

/-! ### The steps of the handlers -/

/-- Where the handler of an open session can stand. -/
structure Pc.Onward (h : Handler) (p : Pc) : Prop where
  owes : p.owes = none
  fits : ∀ (v : View) (w : Nat), v.Running w h → v.Fits w p

namespace Pc.Onward

variable {h : Handler} {ret : Ret} {f : List UInt8}

theorem idle : (Pc.idle).Onward h := ⟨rfl, fun _ _ _ => trivial⟩

theorem read : (Pc.read h).Onward h := ⟨rfl, fun _ _ hrun => hrun⟩

theorem parse : (Pc.parse h).Onward h := ⟨rfl, fun _ _ hrun => hrun⟩

theorem dispatch : (Pc.dispatch h f).Onward h := ⟨rfl, fun _ _ hrun => hrun⟩

theorem flush : (Pc.flush h ret).Onward h := ⟨rfl, fun _ _ hrun => hrun⟩

theorem cut : (Pc.cut h ret).Onward h := ⟨rfl, fun _ _ hrun => hrun⟩

theorem check : (Pc.check h ret).Onward h := ⟨rfl, fun _ _ hrun _ => Or.inr hrun⟩

theorem back : (Pc.back h ret).Onward h := by
  cases ret with
  | loop => exact idle
  | parseFrames | readSession | handleSession => exact check

end Pc.Onward

namespace State

open View

variable {s t : State} {w idx : Nat} {h : Handler} {ret : Ret} {p : Pc}

/-- The handler of worker `w` moves on, and nothing changes that ownership rests on. -/
def Moved (s : State) (w : Nat) (h : Handler) (t : State) : Prop :=
  t.view = s.view ∨ ∃ p : Pc, p.Onward h ∧ t.view = s.view.setPc w p

theorem slot_update {slots : Nat → Session} {x : Session} :
    (fun j => Session.slot (Function.update slots idx x j)) =
      Function.update (fun j => Session.slot (slots j)) idx (Session.slot x) :=
  Function.comp_update Session.slot slots idx x

theorem view_modSession {f : Session → Session} (hf : ∀ x, Session.slot (f x) = Session.slot x) :
    (s.modSession idx f).view = s.view := by
  have hslots : Function.update s.view.slots idx (Session.slot (f (s.sess idx))) = s.view.slots := by
    rw [hf]
    exact Function.update_eq_self idx s.view.slots
  have hview := congrArg (fun slots => ({ s.view with slots } : View)) (slot_update.trans hslots)
  exact hview

theorem view_interest {want ctlOk : Bool} : (s.interest idx want ctlOk).view = s.view := by
  unfold interest
  split
  · rfl
  · split
    · exact view_modSession fun _ => rfl
    · rfl

theorem moved_setPc (hp : p.Onward h) : s.Moved w h (s.setPc w p) := Or.inr ⟨p, hp, rfl⟩

/-- The handler moves on from a state with the same view. -/
theorem moved_of_view {s' : State} (hview : s'.view = s.view) (hp : p.Onward h) :
    s.Moved w h (s'.setPc w p) :=
  Or.inr ⟨p, hp, congrArg (View.setPc · w p) hview⟩

theorem moved_sendBytes {m : Msg} : s.Moved w h (s.sendBytes w h m) := by
  unfold sendBytes
  split
  · exact moved_setPc .cut
  · exact moved_of_view (view_modSession fun _ => rfl) .flush

theorem moved_readTurn {res : ReadResult} (hstep : s.readTurn w h res = some t) :
    s.Moved w h t := by
  unfold readTurn at hstep
  dsimp only at hstep
  split at hstep
  · cases hstep
    exact moved_setPc .cut
  · cases res with
    | bytes bs =>
      dsimp only at hstep
      split at hstep
      · cases hstep
      · cases hstep
        exact moved_of_view (view_modSession fun _ => rfl) .parse
    | closed | failed =>
      cases hstep
      exact moved_setPc .cut
    | again =>
      cases hstep
      exact moved_setPc .check
    | intr =>
      cases hstep
      exact Or.inl rfl

theorem moved_parseTurn : s.Moved w h (s.parseTurn w h) := by
  unfold parseTurn
  dsimp only
  split
  · exact moved_setPc .check
  · split
    · exact moved_setPc .cut
    · split
      · exact moved_setPc .check
      · exact moved_of_view (view_modSession fun _ => rfl) .dispatch

theorem moved_flushTurn {r : Sys} (hstep : s.flushTurn w h ret r = some t) : s.Moved w h t := by
  unfold flushTurn at hstep
  dsimp only at hstep
  split at hstep
  · cases hstep
    exact moved_of_view view_interest .back
  · cases hw : r.write with
    | sent n short =>
      rw [hw] at hstep
      dsimp only at hstep
      have hsame : (s.modSession h.idx fun x => { x with sendQ := x.sendQ.consume n }).view =
          s.view := view_modSession fun _ => rfl
      split at hstep
      · cases hstep
      · split at hstep
        · cases hstep
          exact moved_of_view (view_interest.trans hsame) .back
        · cases hstep
          exact Or.inl hsame
    | again =>
      rw [hw] at hstep
      cases hstep
      exact moved_of_view view_interest .back
    | intr =>
      rw [hw] at hstep
      cases hstep
      exact Or.inl rfl
    | failed =>
      rw [hw] at hstep
      cases hstep
      exact moved_setPc .cut

/-- A dispatch only moves on, apart from the reference that a successful `Join` takes. -/
theorem moved_dispatch {r : Sys} {m : ClientMsg} :
    s.Moved w h (s.dispatch w h r m) ∨
      ∃ room seat, (s.joined h.idx room seat).Moved w h (s.dispatch w h r m) := by
  cases m with
  | echo f => exact Or.inl moved_sendBytes
  | join ver =>
    unfold dispatch
    dsimp only
    split
    · exact Or.inl moved_sendBytes
    · split
      · exact Or.inl moved_sendBytes
      · split
        · exact Or.inl moved_sendBytes
        · exact Or.inr ⟨_, _, moved_sendBytes⟩
  | input => exact Or.inl (moved_setPc .check)
  | ping t =>
    left
    unfold dispatch
    dsimp only
    split
    · exact moved_sendBytes
    · exact moved_sendBytes
  | reject => exact Or.inl (moved_setPc .cut)

/-- A look at `dead` ends the call, or finds the session open and goes on. -/
theorem checkTurn_cases (s : State) (w : Nat) (h : Handler) (ret : Ret) :
    ∃ p, s.checkTurn w h ret = s.setPc w p ∧
    (p = .idle ∨ ((s.sess h.idx).dead = true ∧ ∃ ret', p = .check h ret') ∨
      ret.looks h = true ∧ (s.sess h.idx).dead = false ∧ p.Onward h) := by
  cases ret with
  | parseFrames =>
    unfold checkTurn
    cases hdead : (s.sess h.idx).dead with
    | true => exact ⟨_, rfl, Or.inr (Or.inl ⟨rfl, _, rfl⟩)⟩
    | false => exact ⟨_, rfl, Or.inr (Or.inr ⟨rfl, rfl, .parse⟩)⟩
  | readSession =>
    unfold checkTurn
    cases hdead : (s.sess h.idx).dead with
    | true => exact ⟨_, rfl, Or.inr (Or.inl ⟨rfl, _, rfl⟩)⟩
    | false => exact ⟨_, rfl, Or.inr (Or.inr ⟨rfl, rfl, .read⟩)⟩
  | handleSession =>
    unfold checkTurn
    cases hdead : (s.sess h.idx).dead with
    | true => exact ⟨_, rfl, Or.inl rfl⟩
    | false =>
      cases hout : h.output with
      | true => exact ⟨_, rfl, Or.inr (Or.inr ⟨hout, rfl, .flush⟩)⟩
      | false => exact ⟨_, rfl, Or.inl rfl⟩
  | loop => exact ⟨_, rfl, Or.inl rfl⟩

theorem view_act (s : State) (w idx : Nat) (x : Session) (l f : List Nat) (p : Pc) :
    (State.setPc { s with
        pool := { s.pool with slots := Function.update s.pool.slots idx x, free := f }
        mySessions := Function.update s.mySessions w l } w p).view =
      s.view.act w idx (Session.slot x) l f p :=
  congrArg (fun slots => ({ s.view with
    slots
    mySessions := Function.update s.mySessions w l
    free := f
    pc := Function.update s.pc w p } : View)) slot_update

theorem view_act_same (s : State) (w idx : Nat) (x : Session) (f : List Nat) (p : Pc) :
    (State.setPc { s with
        pool := { s.pool with slots := Function.update s.pool.slots idx x, free := f } } w p).view =
      s.view.act w idx (Session.slot x) (s.mySessions w) f p := by
  have hact := view_act s w idx x (s.mySessions w) f p
  rw [Function.update_eq_self] at hact
  exact hact

theorem view_rooms (s : State) (idx : Nat) (x : Session) (n : Nat) (f : List Nat) :
    (State.view { s with
        pool := { s.pool with slots := Function.update s.pool.slots idx x, free := f }
        roomRefs := Function.update s.roomRefs idx n }) =
      s.view.rooms idx (Session.slot x) n f :=
  congrArg (fun slots => ({ s.view with
    slots
    roomRefs := Function.update s.roomRefs idx n
    free := f } : View)) slot_update

/-! ### What a step preserves -/

theorem not_close_of_idle (hpc : s.pc w = .idle) : ∀ k ret, s.view.pc w ≠ .close k ret := by
  intro k ret hclose
  cases hpc.symm.trans hclose

theorem inv_moved (hv : s.view.Inv) (hrun : s.view.Running w h) (howes : (s.pc w).owes = none)
    (hclose : ∀ k ret, s.pc w ≠ .close k ret) (hmoved : s.Moved w h t) : t.view.Inv := by
  rcases hmoved with hsame | ⟨p, hp, hview⟩
  · rw [hsame]
    exact hv
  · rw [hview]
    exact hv.setPc howes hp.owes hclose (hp.fits s.view w hrun)

theorem inv_release (hv : s.view.Inv) (howed : (s.pc w).owes = some idx)
    (hgiven : s.view.Given w idx) (howes : p.owes = none)
    (hfits : ∀ x l f, x.dead = true → (s.view.act w idx x l f p).Fits w p) :
    (State.setPc { s with pool := s.pool.release idx } w p).view.Inv := by
  have hfree : idx ∉ s.pool.free := hv.not_free_of_owes howed
  rcases s.pool.release_cases idx with ⟨hone, hrel⟩ | ⟨hne, hrel⟩
  · rw [hrel, view_act_same]
    have hzero : (0 : Int) = (s.pool.slots idx).refs - 1 := by omega
    rw [hzero]
    apply hv.give_back howed hgiven howes
    · exact nodup_snoc hv.free_nodup hfree
    · exact fun j => mem_of_mem_snoc
    · exact fun _ => hone
    · exact fun x hx => hfits x _ _ hx
  · rw [hrel]
    have hact := view_act_same s w idx
      { s.pool.slots idx with refs := (s.pool.slots idx).refs - 1 } s.pool.free p
    rw [hact]
    apply hv.give_back howed hgiven howes hv.free_nodup
    · exact fun j hj _ => hj
    · exact fun hj => absurd hj hfree
    · exact fun x hx => hfits x _ _ hx

theorem inv_leave (hv : s.view.Inv) (hroom : 0 < s.roomRefs idx) :
    (State.view { s with
      pool := s.pool.release idx
      roomRefs := Function.update s.roomRefs idx (s.roomRefs idx - 1) }).Inv := by
  rcases s.pool.release_cases idx with ⟨hone, hrel⟩ | ⟨hne, hrel⟩
  · have hfree : idx ∉ s.pool.free := by
      intro hmem
      have hzero : (s.pool.slots idx).refs = 0 := hv.free idx hmem
      omega
    rw [hrel, view_rooms]
    have hzero : (0 : Int) = (s.pool.slots idx).refs - 1 := by omega
    rw [hzero]
    apply hv.leave hroom
    · exact nodup_snoc hv.free_nodup hfree
    · exact fun hne => absurd hone hne
    · exact fun j => mem_of_mem_snoc
    · exact fun _ => hone
  · rw [hrel]
    have hrooms := view_rooms s idx { s.pool.slots idx with refs := (s.pool.slots idx).refs - 1 }
      (s.roomRefs idx - 1) s.pool.free
    rw [hrooms]
    apply hv.leave hroom hv.free_nodup
    · exact fun _ => rfl
    · exact fun j hj _ => hj
    · intro hj
      have hzero := hv.free idx hj
      have hpos := hv.pos_of_room hroom
      omega

theorem inv_running (hv : s.view.Inv) (hrun : s.view.Running w h)
    (howes : (s.pc w).owes = none) (hclose : ∀ k ret, s.pc w ≠ .close k ret)
    (hmoved : s.Moved w h t ∨ ∃ room seat, (s.joined h.idx room seat).Moved w h t) :
    t.view.Inv := by
  rcases hmoved with hmoved | ⟨room, seat, hmoved⟩
  · exact inv_moved hv hrun howes hclose hmoved
  · have hview : (s.joined h.idx room seat).view = s.view.rooms h.idx
        { s.view.slots h.idx with refs := (s.view.slots h.idx).refs + 1 }
        (s.view.roomRefs h.idx + 1) s.view.free := view_rooms s h.idx _ _ s.pool.free
    have hjoined : (s.joined h.idx room seat).view.Inv := by
      rw [hview]
      exact hv.join (Or.inl hrun.1)
    refine inv_moved hjoined ?_ howes hclose hmoved
    obtain ⟨hmine, hgen, hdead⟩ := hrun
    rw [hview]
    refine ⟨hmine, ?_, ?_⟩
    · rw [rooms_slots_self]
      exact hgen
    · rw [rooms_slots_self]
      exact hdead

theorem inv_headTurn {e : Event} (hv : s.view.Inv) (hpc : s.pc w = .head e)
    (hfits : (s.sess e.idx).dead = true ∨ s.view.Running w e.handler) :
    (s.headTurn w e).view.Inv := by
  have hclose : ∀ k r, s.pc w ≠ .close k r := by simp [hpc]
  have howes : (s.pc w).owes = none := congrArg Pc.owes hpc
  have hidle : (s.setPc w .idle).view.Inv := hv.setPc howes rfl hclose trivial
  unfold headTurn
  split
  · exact hidle
  · rename_i halive
    have hrun := hfits.resolve_left halive
    have hmove : ∀ {p : Pc}, p.Onward e.handler → (s.setPc w p).view.Inv :=
      fun hp => inv_moved hv hrun howes hclose (moved_setPc hp)
    split
    · exact hmove .cut
    · split
      · exact hmove .read
      · split
        · exact hmove .flush
        · exact hidle

/-- The callback of `Drain` goes on only with a session that has a socket. -/
theorem inv_drainTurn {looked : Bool} (hv : s.view.Inv) (hpc : s.pc w = .drained h looked)
    (hfits : (∀ w', ¬s.view.Holds w' h.idx) ∨ s.view.Running w h) :
    (s.drainTurn w h looked).view.Inv := by
  have hclose : ∀ k r, s.pc w ≠ .close k r := by simp [hpc]
  have howes : (s.pc w).owes = none := congrArg Pc.owes hpc
  have hidle : (s.setPc w .idle).view.Inv := hv.setPc howes rfl hclose trivial
  cases looked with
  | false =>
    unfold drainTurn
    dsimp only
    split
    · exact hidle
    · exact hv.setPc howes rfl hclose hfits
  | true =>
    unfold drainTurn
    dsimp only
    split
    · rename_i hfd
      obtain ⟨w', hw'⟩ := hv.socket h.idx hfd
      exact hv.setPc howes rfl hclose (hfits.resolve_left fun hnone => hnone w' hw')
    · exact hidle

/-- The callback of `Drain` compares the owner: the slot has none, or it is the worker itself. -/
theorem inv_drain (hv : s.view.Inv) (hpc : s.pc w = .idle) (hok : Settled (.drain w idx) s) :
    (s.drain w idx).view.Inv := by
  unfold drain
  split
  · rename_i howner
    refine hv.setPc (congrArg Pc.owes hpc) rfl (not_close_of_idle hpc) ?_
    by_cases hheld : ∃ w', s.view.Holds w' idx
    · obtain ⟨w', hw'⟩ := hheld
      right
      have hww := hv.eq_of_owner howner (hok howner) hw'
      subst hww
      rcases hw' with hmine | howes
      · exact hv.running_of_idle hpc hmine rfl
      · cases (congrArg Pc.owes hpc).symm.trans howes
    · exact Or.inl fun w' hw' => hheld ⟨w', hw'⟩
  · exact hv

theorem inv_netStep {r : Sys} (hv : s.view.Inv) (hstep : s.netStep w r = some t) :
    t.view.Inv := by
  have hfits : s.view.Fits w (s.pc w) := hv.fits w
  unfold netStep at hstep
  cases hpc : s.pc w with
  | idle =>
    rw [hpc] at hstep
    cases hstep
  | opened idx fd ctlOk =>
    rw [hpc] at hstep
    cases hstep
    have hact := view_act_same s w idx { s.pool.slots idx with fd } s.pool.free
      (.entering idx ctlOk)
    exact hact ▸ hv.enter hpc
  | entering idx ctlOk =>
    rw [hpc] at hstep
    dsimp only at hstep
    split at hstep
    · cases hstep
      have hact := view_act s w idx { s.pool.slots idx with owner := w }
        (s.mySessions w ++ [idx]) s.pool.free .idle
      exact hact ▸ hv.register hpc
    · cases hstep
      have hact := view_act_same s w idx
        { s.pool.slots idx with fd := -1, owner := w, dead := true } s.pool.free (.refused idx)
      exact hact ▸ hv.refuse hpc
  | refused idx =>
    rw [hpc] at hstep
    cases hstep
    rw [hpc] at hfits
    exact inv_release hv (congrArg Pc.owes hpc) hfits rfl fun _ _ _ _ => trivial
  | head e =>
    rw [hpc] at hstep hfits
    cases hstep
    exact inv_headTurn hv hpc hfits
  | drained h looked =>
    rw [hpc] at hstep hfits
    cases hstep
    exact inv_drainTurn hv hpc hfits
  | read h =>
    rw [hpc] at hstep hfits
    exact inv_moved hv hfits (congrArg Pc.owes hpc) (by simp [hpc]) (moved_readTurn hstep)
  | parse h =>
    rw [hpc] at hstep hfits
    cases hstep
    exact inv_moved hv hfits (congrArg Pc.owes hpc) (by simp [hpc]) moved_parseTurn
  | dispatch h f =>
    rw [hpc] at hstep hfits
    cases hstep
    exact inv_running hv hfits (congrArg Pc.owes hpc) (by simp [hpc]) moved_dispatch
  | flush h ret =>
    rw [hpc] at hstep hfits
    exact inv_moved hv hfits (congrArg Pc.owes hpc) (by simp [hpc]) (moved_flushTurn hstep)
  | cut h ret =>
    rw [hpc] at hstep hfits
    dsimp only at hstep
    split at hstep
    · cases hstep
      exact inv_moved hv hfits (congrArg Pc.owes hpc) (by simp [hpc]) (moved_setPc .back)
    · cases hstep
      have hact := view_act_same s w h.idx { s.pool.slots h.idx with dead := true } s.pool.free
        (.close h ret)
      exact hact ▸ hv.mark_dead hpc
  | close h ret =>
    rw [hpc] at hstep
    cases hstep
    have hact := view_act s w h.idx { s.pool.slots h.idx with fd := -1, inRoom := false }
      (swapRemove (s.mySessions w) h.idx) s.pool.free (.release h ret)
    exact hact ▸ hv.shut hpc
  | release h ret =>
    rw [hpc] at hstep
    cases hstep
    rw [hpc] at hfits
    apply inv_release hv (congrArg Pc.owes hpc) hfits.1 Pc.Onward.back.owes
    intro x l f hx
    cases ret with
    | loop => trivial
    | parseFrames | readSession | handleSession =>
      intro _
      left
      rw [act_slots_self]
      exact hx
  | check h ret =>
    rw [hpc] at hstep hfits
    cases hstep
    obtain ⟨p, hturn, hp⟩ := checkTurn_cases s w h ret
    rw [hturn]
    have hclose : ∀ k r, s.pc w ≠ .close k r := by simp [hpc]
    rcases hp with rfl | ⟨hdead, ret', rfl⟩ | ⟨hlooks, halive, hp⟩
    · exact hv.setPc (congrArg Pc.owes hpc) rfl hclose trivial
    · exact hv.setPc (congrArg Pc.owes hpc) rfl hclose fun _ => Or.inl hdead
    · -- the session is open, so the handler has not released it
      rcases hfits hlooks with hdead | hrun
      · cases halive.symm.trans hdead
      · exact hv.setPc (congrArg Pc.owes hpc) hp.owes hclose (hp.fits s.view w hrun)

/-- `HandleSession` compares the generation: the event is one of the session that it finds. -/
theorem inv_handleSession {e : Event} (hv : s.view.Inv) (hpc : s.pc w = .idle)
    (he : (s.sess e.idx).gen = e.gen → (s.sess e.idx).dead = false → e.idx ∈ s.mySessions w) :
    (s.handleSession w e).view.Inv := by
  unfold handleSession
  split
  · exact hv
  · rename_i hguard
    have hgen : (s.sess e.idx).gen = e.gen := by
      by_contra hne
      exact hguard (Or.inr hne)
    refine hv.setPc (congrArg Pc.owes hpc) rfl (not_close_of_idle hpc) ?_
    cases hdead : (s.sess e.idx).dead with
    | true => exact Or.inl hdead
    | false => exact Or.inr ⟨he hgen hdead, hgen, hdead⟩

theorem inv_accept {fd : Int} {recvOk sendOk ctlOk : Bool} (hv : s.view.Inv)
    (hok : Settled (.accept w fd recvOk sendOk ctlOk) s)
    (hstep : step (.accept w fd recvOk sendOk ctlOk) s = some t) : t.view.Inv := by
  unfold step at hstep
  dsimp only at hstep
  split at hstep
  · rename_i hguard
    rcases s.pool.alloc_cases recvOk sendOk with ⟨-, halloc⟩ |
      ⟨idx, recvQ, sendQ, hback, halloc | ⟨-, halloc⟩⟩
    · rw [halloc] at hstep
      cases hstep
      exact hv
    · -- the rings of a slot that stays free
      rw [halloc] at hstep
      cases hstep
      have hsame : (s.modSession idx fun x => { x with recvQ, sendQ }).view = s.view :=
        view_modSession fun _ => rfl
      exact hsame.symm ▸ hv
    · obtain hsettled := hok idx (by rw [halloc])
      rw [halloc] at hstep
      cases hstep
      have hact := view_act_same s w idx { s.pool.slots idx with recvQ, sendQ }.reset
        s.pool.free.dropLast (.opened idx fd ctlOk)
      exact hact ▸ hv.hand_out hguard.1 hback (fun w' hw => (hsettled w' hw).1)
        fun w' hw => (hsettled w' hw).2
  · cases hstep

/-- What is preserved by every step of a run that respects the condition. -/
theorem inv_step {a : Act} (hv : s.view.Inv) (hok : Settled a s) (hstep : step a s = some t) :
    t.view.Inv := by
  cases a with
  | accept w fd recvOk sendOk ctlOk => exact inv_accept hv hok hstep
  | wait w es =>
    unfold step at hstep
    dsimp only at hstep
    split at hstep
    · rename_i hguard
      cases hstep
      exact hv.rebatch fun e he _ _ => Or.inl (hguard.2.2 e he).1
    · cases hstep
  | handle w =>
    unfold step at hstep
    dsimp only at hstep
    split at hstep
    · rename_i hpc
      cases hbatch : s.batch w with
      | nil =>
        rw [hbatch] at hstep
        cases hstep
      | cons e es =>
        rw [hbatch] at hstep
        cases hstep
        have hall : ∀ e' ∈ e :: es, (s.sess e'.idx).gen = e'.gen →
            (s.sess e'.idx).dead = false → s.view.Holds w e'.idx := by
          rw [← hbatch]
          exact hv.batch w
        have hrest : State.view { s with batch := Function.update s.batch w es } |>.Inv :=
          hv.rebatch fun e' he' => hall e' (List.mem_cons_of_mem e he')
        refine inv_handleSession hrest hpc ?_
        intro hgen hdead
        rcases hall e (List.mem_cons_self ..) hgen hdead with hmine | howed
        · exact hmine
        · cases (congrArg Pc.owes hpc).symm.trans howed
    · cases hstep
  | drain w idx =>
    unfold step at hstep
    dsimp only at hstep
    split at hstep
    · rename_i hguard
      cases hstep
      exact inv_drain hv hguard.1 hok
    · cases hstep
  | cleanup w idx =>
    unfold step at hstep
    dsimp only at hstep
    split at hstep
    · rename_i hguard
      cases hstep
      have hrun := hv.running_of_idle (h := ⟨idx, (s.sess idx).gen, false⟩) hguard.1 hguard.2.2 rfl
      exact inv_moved hv hrun (congrArg Pc.owes hguard.1) (by simp [hguard.1]) (moved_setPc .cut)
    · cases hstep
  | net w r => exact inv_netStep hv hstep
  | tell idx m =>
    unfold step at hstep
    dsimp only at hstep
    split at hstep
    · split at hstep
      · cases hstep
        rename_i q _
        have hsame : (s.modSession idx fun x => { x with sendQ := q }).view = s.view :=
          view_modSession fun _ => rfl
        exact hsame.symm ▸ hv
      · cases hstep
        exact hv
    · cases hstep
  | leave idx =>
    unfold step at hstep
    dsimp only at hstep
    split at hstep
    · rename_i hroom
      cases hstep
      exact inv_leave hv hroom
    · cases hstep

theorem inv_init (capacity : Nat) : (init capacity).view.Inv where
  free_nodup := List.nodup_reverse.mpr List.nodup_range
  free _ _ := rfl
  held w idx h := by
    rcases h with h | h
    · cases h
    · cases h
  unheld _ _ := rfl
  one w w' idx h _ := by
    rcases h with h | h
    · cases h
    · cases h
  nodup _ := List.nodup_nil
  fresh _ _ h := by cases h
  owner _ _ h := by cases h
  closing _ _ h := by cases h
  socket _ := not_socket
  fits _ := trivial
  batch _ _ h := by cases h
  alive _ _ h := absurd h (Int.lt_irrefl 0)

theorem owned_of_inv (hv : s.view.Inv) (htouch : (s.pc w).touches = some h) :
    (s.sess h.idx).owner = w ∧ (s.sess h.idx).gen = h.gen := by
  have hfits : s.view.Fits w (s.pc w) := hv.fits w
  cases hpc : s.pc w with
  | idle | opened _ _ _ | entering _ _ | refused _ | head _ | drained _ _ | check _ _ =>
    rw [hpc] at htouch
    cases htouch
  | read k | parse k | dispatch k _ | flush k _ | cut k _ | close k _ =>
    rw [hpc] at htouch hfits
    cases htouch
    exact ⟨hv.owner w _ hfits.1, hfits.2.1⟩
  | release k ret =>
    rw [hpc] at htouch hfits
    cases htouch
    exact ⟨hfits.1.1, hfits.2⟩

/-- The looks at `dead` end a handler whose session is released. -/
theorem ends_of_inv {r : Sys} (hv : s.view.Inv) (hpc : s.pc w = .check h ret)
    (hgone : h.idx ∉ s.mySessions w) (hstep : step (.net w r) s = some t) :
    (t.pc w).touches = none := by
  have hfits : s.view.Fits w (s.pc w) := hv.fits w
  rw [hpc] at hfits
  have hnet : s.netStep w r = some t := hstep
  unfold netStep at hnet
  rw [hpc] at hnet
  cases hnet
  obtain ⟨p, hturn, hp⟩ := checkTurn_cases s w h ret
  have hself : (s.checkTurn w h ret).pc w = p := by
    rw [hturn]
    exact Function.update_self ..
  rw [hself]
  rcases hp with rfl | ⟨-, ret', rfl⟩ | ⟨hlooks, halive, -⟩
  · rfl
  · rfl
  · rcases hfits hlooks with hdead | hrun
    · cases halive.symm.trans hdead
    · exact absurd hrun.1 hgone

end State

/-- One socket, one worker: in every run in which no slot is handed out that another worker has
still to look at. -/
theorem one_worker {capacity : Nat} {s : State} (h : Reach step Settled (.init capacity) s) :
    OneWorker s := by
  have hv : s.view.Inv := h.invariant (P := fun s => s.view.Inv) (State.inv_init capacity)
    fun _ _ _ _ hs hok hstep => State.inv_step hs hok hstep
  exact ⟨fun _ _ => State.owned_of_inv hv, fun _ _ _ _ _ => State.ends_of_inv hv⟩

/-! ### Two runs over a pool of one slot -/

/-- Worker 0 registers a session, reads a frame of an unknown type from it and cuts it. It has
still to look at `dead`. -/
def ousted : List Act :=
  [.net 0 {}, .net 0 {}, .wait 0 [⟨0, 0, false, true, false⟩], .handle 0, .net 0 {},
    .net 0 { read := .bytes [4, 0, 9, 9] }, .net 0 {}, .net 0 {}, .net 0 {}, .net 0 {}, .net 0 {}]

/-- Before it looks, worker 1 accepts a connection into the same slot. -/
def hijack : List Act :=
  .accept 0 5 true true true :: ousted ++
    [.accept 1 6 true true true, .net 1 {}, .net 1 {}, .net 0 {}, .net 0 {}, .net 0 {}]

/-- Only an accept and a callback of `Drain` have a condition to meet. -/
def Act.guarded : Act → Bool
  | .accept .. | .drain .. => true
  | _ => false

theorem Act.settled_of_not_guarded (a : Act) (s : State) (h : (!a.guarded) = true) :
    Settled a s := by
  cases a with
  | accept | drain => cases h
  | wait | handle | cleanup | net | tell | leave => trivial

theorem settled_init {capacity w : Nat} {fd : Int} {recvOk sendOk ctlOk : Bool} :
    Settled (.accept w fd recvOk sendOk ctlOk) (.init capacity) := by
  intro idx _ w' _
  constructor
  · intro h
    cases h
  · intro e he
    cases he

theorem one_worker_ousted : ∃ s,
    (step (.accept 0 5 true true true) (.init 1)).bind
      (runIf step (fun a _ => !a.guarded) ousted) = some s ∧
    s.pc 0 = .check ⟨0, 0, false⟩ .parseFrames ∧ s.mySessions 0 = [] ∧ OneWorker s := by
  have hrun : (((step (.accept 0 5 true true true) (.init 1)).bind
      (runIf step (fun a _ => !a.guarded) ousted)).map fun s => (s.pc 0, s.mySessions 0)) =
      some (.check ⟨0, 0, false⟩ .parseFrames, []) := by decide +kernel
  obtain ⟨s, hs, hproj⟩ := Option.map_eq_some_iff.mp hrun
  obtain ⟨t, ht, hrest⟩ := Option.bind_eq_some_iff.mp hs
  simp only [Prod.mk.injEq] at hproj
  have hreach : Reach step Settled t s := reach_of_runIf Act.settled_of_not_guarded hrest
  exact ⟨s, hs, hproj.1, hproj.2, one_worker (hreach.head settled_init ht)⟩

/-- Worker 0 goes on and reads from the socket of worker 1. -/
theorem read_of_another : ∃ s, Reach step Any (.init 1) s ∧
    s.pc 0 = .read ⟨0, 0, false⟩ ∧ (s.sess 0).fd = 6 ∧ ¬OneWorker s := by
  have hrun : (run step hijack (.init 1)).map
      (fun s => (s.pc 0, (s.sess 0).owner, (s.sess 0).gen, (s.sess 0).fd)) =
      some (.read ⟨0, 0, false⟩, 1, 1, 6) := by decide +kernel
  obtain ⟨s, hs, hproj⟩ := Option.map_eq_some_iff.mp hrun
  simp only [Prod.mk.injEq] at hproj
  obtain ⟨hpc, howner, -, hfd⟩ := hproj
  refine ⟨s, reach_of_run hs, hpc, hfd, ?_⟩
  intro hone
  have hmine := (hone.owned 0 ⟨0, 0, false⟩ (congrArg Pc.touches hpc)).1
  cases howner.symm.trans hmine

end Epoll

end BeltServer
