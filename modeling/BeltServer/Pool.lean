import BeltServer.Lib.Runs
import BeltServer.Session
import Mathlib.Data.List.Perm.Subperm

/-!
# Runs of the session pool

Sequences of `Alloc`, `AddRef` and `Release` with any outcome of the ring initialisations,
and between them whatever the holders of references write to their sessions.
-/

namespace BeltServer

set_option autoImplicit false

open Runs

structure Session.Whole (s : Session) : Prop where
  recvReady : s.recvQ.valid = true
  recvEmpty : s.recvQ.data = []
  sendReady : s.sendQ.valid = true
  sendEmpty : s.sendQ.log = [] ∧ s.sendQ.held = 0
  refs : s.refs = 1
  alive : s.dead = false
  unbound : s.fd = -1
  outside : s.inRoom = false

namespace SessionPool

def Used (p : SessionPool) (idx : Nat) : Prop := idx < p.cap ∧ 0 < (p.slots idx).refs

instance (p : SessionPool) (idx : Nat) : Decidable (p.Used idx) :=
  inferInstanceAs (Decidable (_ ∧ _))

def live (p : SessionPool) : Nat := (List.range p.cap).countP fun idx => 0 < (p.slots idx).refs

end SessionPool

/-- A pool with the sessions it has handed out so far and their generations at that time. -/
structure PoolHistory where
  pool : SessionPool
  given : List (Nat × UInt32)

inductive PoolCall where
  | alloc (recvOk sendOk : Bool)
  | addRef (idx : Nat)
  | release (idx : Nat)
  | write (idx : Nat) (s : Session)

namespace PoolHistory

def start (cap : Nat) : PoolHistory where
  pool := .init cap
  given := []

def times (given : List (Nat × UInt32)) (idx : Nat) : Nat := given.countP fun g => g.1 = idx

def afterAlloc (h : PoolHistory) : SessionPool × Option Nat → PoolHistory
  | (p, none) => { h with pool := p }
  | (p, some idx) => { pool := p, given := h.given ++ [(idx, (p.slots idx).gen)] }

/-- One call. References are taken, given back and used by their holders only; a holder writes
neither the count nor the generation and does not initialise rings. -/
def step : PoolCall → PoolHistory → Option PoolHistory
  | .alloc recvOk sendOk, h => some (h.afterAlloc (h.pool.alloc recvOk sendOk))
  | .addRef idx, h => if h.pool.Used idx then some { h with pool := h.pool.addRef idx } else none
  | .release idx, h => if h.pool.Used idx then some { h with pool := h.pool.release idx } else none
  | .write idx s, h =>
    if h.pool.Used idx ∧ s.refs = (h.pool.slots idx).refs ∧ s.gen = (h.pool.slots idx).gen ∧
        s.recvQ.valid = (h.pool.slots idx).recvQ.valid ∧
        s.sendQ.valid = (h.pool.slots idx).sendQ.valid then
      some { h with pool := h.pool.mod idx fun _ => s }
    else none

/-- The call is not an `Alloc` that gets the receive ring of a slot and then no send ring. -/
def Paired (c : PoolCall) (h : PoolHistory) : Prop :=
  c = .alloc true false → ∀ idx, h.pool.free.getLast? = some idx →
    (h.pool.slots idx).recvQ.valid = true

/-- What is promised of the outcome of an `Alloc`: nothing taken, or a whole session of a
generation that the slot has not had, as long as its generations have not wrapped. -/
def AllOrNothing (h : PoolHistory) : SessionPool × Option Nat → Prop
  | (p, none) => p.free = h.pool.free
  | (p, some idx) => (p.slots idx).Whole ∧
      (times h.given idx < 2 ^ 32 → (idx, (p.slots idx).gen) ∉ h.given)

end PoolHistory

namespace SessionPool

variable {p q : SessionPool} {idx : Nat} {recvOk sendOk : Bool}

theorem alloc_none_free (h : p.alloc recvOk sendOk = (q, none)) : q.free = p.free := by
  rcases p.alloc_cases recvOk sendOk with ⟨_, heq⟩ | ⟨_, _, _, _, heq | ⟨_, heq⟩⟩
  · cases heq.symm.trans h
    rfl
  · cases heq.symm.trans h
    rfl
  · cases heq.symm.trans h

/-- A refused `Alloc` whose rings come in pairs changes nothing. -/
theorem alloc_none (h : p.alloc recvOk sendOk = (q, none))
    (hpaired : PoolCall.alloc recvOk sendOk = .alloc true false →
      ∀ idx, p.free.getLast? = some idx → (p.slots idx).recvQ.valid = true) : q = p := by
  unfold alloc at h
  split at h
  · cases h
    rfl
  next idx hidx =>
  unfold readyRings at h
  cases hvalid : (p.slots idx).recvQ.valid with
  | true => simp [hvalid] at h
  | false =>
    cases recvOk with
    | false =>
      simp [hvalid] at h
      exact h.symm
    | true =>
      cases sendOk with
      | true => simp [hvalid] at h
      | false => simp [hpaired rfl idx hidx] at hvalid

/-- A successful `Alloc` hands out the back of the free list with fresh rings. -/
theorem alloc_some (h : p.alloc recvOk sendOk = (q, some idx)) :
    p.free.getLast? = some idx ∧ ∃ sendQ : SendRing,
      sendQ = { valid := if (p.slots idx).recvQ.valid then (p.slots idx).sendQ.valid else true } ∧
      q = { p with
        slots := Function.update p.slots idx
          { p.slots idx with recvQ := { valid := true }, sendQ := sendQ }.reset
        free := p.free.dropLast } := by
  unfold alloc at h
  split at h
  · cases h
  next i hi =>
  unfold readyRings at h
  cases hvalid : (p.slots i).recvQ.valid with
  | true =>
    simp [hvalid] at h
    obtain ⟨rfl, rfl⟩ := h
    exact ⟨hi, _, rfl, by simp [hvalid, SendRing.clear]⟩
  | false =>
    cases recvOk with
    | false => simp [hvalid] at h
    | true =>
      cases sendOk with
      | false => simp [hvalid] at h
      | true =>
        simp [hvalid] at h
        obtain ⟨rfl, rfl⟩ := h
        exact ⟨hi, _, rfl, by simp [hvalid, SendRing.init]⟩

theorem alloc_half (hidx : p.free.getLast? = some idx)
    (hnew : (p.slots idx).recvQ.valid = false) :
    p.alloc true false =
      ({ p with
          slots := Function.update p.slots idx
            { p.slots idx with recvQ := { valid := true }, sendQ := .init false } }, none) := by
  unfold alloc readyRings
  rw [hidx]
  dsimp only
  rw [hnew]
  rfl

theorem alloc_reuse (hidx : p.free.getLast? = some idx)
    (hready : (p.slots idx).recvQ.valid = true) (recvOk sendOk : Bool) :
    p.alloc recvOk sendOk =
      ({ p with
          slots := Function.update p.slots idx
            { p.slots idx with
              recvQ := { (p.slots idx).recvQ with data := [] }
              sendQ := (p.slots idx).sendQ.clear }.reset
          free := p.free.dropLast }, some idx) := by
  unfold alloc readyRings
  rw [hidx]
  dsimp only
  rw [hready]
  rfl

end SessionPool

namespace PoolHistory

/-- What every run keeps, whatever the rings do. -/
structure Pooled (p : SessionPool) (given : List (Nat × UInt32)) : Prop where
  nodup : p.free.Nodup
  free : ∀ idx, idx ∈ p.free ↔ idx < p.cap ∧ (p.slots idx).refs = 0
  counted : ∀ idx, 0 ≤ (p.slots idx).refs
  handed : ∀ idx, 0 < (p.slots idx).refs → 0 < times given idx
  current : ∀ idx, (p.slots idx).gen
    = UInt32.ofNat (times given idx - if 0 < (p.slots idx).refs then 1 else 0)
  past : ∀ idx g, (idx, g) ∈ given → ∃ m < times given idx, g = UInt32.ofNat m

theorem pooled_start (cap : Nat) : Pooled (start cap).pool (start cap).given where
  nodup := List.nodup_reverse.mpr List.nodup_range
  free idx := by simp [start, SessionPool.init]
  counted _ := Int.le_refl 0
  handed _ hpos := absurd hpos (Int.lt_irrefl 0)
  current _ := rfl
  past _ _ hmem := by simp [start] at hmem

namespace Pooled

variable {p q : SessionPool} {given : List (Nat × UInt32)} {idx : Nat}

theorem kept (hP : Pooled p given) (hfree : q.free = p.free) (hcap : q.cap = p.cap)
    (hgen : ∀ i, (q.slots i).gen = (p.slots i).gen)
    (hpos : ∀ i, 0 < (q.slots i).refs ↔ 0 < (p.slots i).refs)
    (hcounted : ∀ i, 0 ≤ (q.slots i).refs) : Pooled q given where
  nodup := by
    rw [hfree]
    exact hP.nodup
  free i := by
    rw [hfree, hcap, hP.free]
    have hi := hpos i
    have hnew := hcounted i
    have hold := hP.counted i
    omega
  counted := hcounted
  handed i hi := hP.handed i ((hpos i).mp hi)
  current i := by
    rw [hgen, hP.current]
    simp only [hpos i]
  past := hP.past

section Change

/-! One slot changes. -/

variable {s : Session} (hslots : q.slots = Function.update p.slots idx s) (hcap : q.cap = p.cap)
include hslots

theorem slot_self : q.slots idx = s := by
  rw [hslots, Function.update_self]

theorem slot_other {i : Nat} (hi : i ≠ idx) : q.slots i = p.slots i := by
  rw [hslots, Function.update_of_ne hi]

theorem slot_all {P : Nat → Session → Prop} (hself : P idx s)
    (hother : ∀ i, i ≠ idx → P i (p.slots i)) (i : Nat) : P i (q.slots i) := by
  by_cases hi : i = idx
  · rw [hi, slot_self hslots]
    exact hself
  · rw [slot_other hslots hi]
    exact hother i hi

include hcap

theorem written (hP : Pooled p given) (hfree : q.free = p.free)
    (hpos : 0 < s.refs ↔ 0 < (p.slots idx).refs) (hcounted : 0 ≤ s.refs)
    (hgen : s.gen = (p.slots idx).gen) : Pooled q given := by
  apply hP.kept hfree hcap
  · exact slot_all hslots (P := fun i s => s.gen = (p.slots i).gen) hgen fun _ _ => rfl
  · exact slot_all hslots (P := fun i s => 0 < s.refs ↔ 0 < (p.slots i).refs) hpos
      fun _ _ => Iff.rfl
  · exact slot_all hslots (P := fun _ s => 0 ≤ s.refs) hcounted fun i _ => hP.counted i

theorem freed (hP : Pooled p given) (hfree : q.free = p.free ++ [idx]) (hused : p.Used idx)
    (hrefs : s.refs = 0) (hgen : s.gen = (p.slots idx).gen + 1) : Pooled q given where
  nodup := by
    rw [hfree]
    apply SwapList.nodup_push hP.nodup
    intro hmem
    have hzero := ((hP.free idx).mp hmem).2
    have hpos := hused.2
    omega
  free := by
    rw [hfree, hcap]
    apply slot_all hslots (P := fun i s => i ∈ p.free ++ [idx] ↔ i < p.cap ∧ s.refs = 0)
    · exact ⟨fun _ => ⟨hused.1, hrefs⟩, fun _ => List.mem_append_right _ List.mem_cons_self⟩
    · intro i hi
      rw [List.mem_append, List.mem_singleton, hP.free]
      simp only [hi, or_false]
  counted := slot_all hslots (P := fun _ s => 0 ≤ s.refs) (by omega) fun i _ => hP.counted i
  handed := slot_all hslots (P := fun i s => 0 < s.refs → 0 < times given i) (by omega)
    fun i _ => hP.handed i
  current := by
    apply slot_all hslots
      (P := fun i s => s.gen = UInt32.ofNat (times given i - if 0 < s.refs then 1 else 0))
    · have hlast := hP.current idx
      have hhanded := hP.handed idx hused.2
      rw [if_pos hused.2] at hlast
      rw [if_neg (by omega), Nat.sub_zero, hgen, hlast, ← UInt32.ofNat_one, ← UInt32.ofNat_add,
        Nat.sub_add_cancel hhanded]
    · exact fun i _ => hP.current i
  past := hP.past

theorem handedOut (hP : Pooled p given) (hfree : q.free = p.free.dropLast)
    (hidx : p.free.getLast? = some idx) (hrefs : s.refs = 1)
    (hgen : s.gen = (p.slots idx).gen) : Pooled q (given ++ [(idx, s.gen)]) := by
  have hsplit := SwapList.dropLast_append_of_getLast? hidx
  obtain ⟨hlt, hzero⟩ := (hP.free idx).mp (List.mem_of_getLast? hidx)
  have hnew : idx ∉ p.free.dropLast := by
    have hnodup := hP.nodup
    rw [← hsplit, List.nodup_append] at hnodup
    exact fun hin => hnodup.2.2 idx hin idx List.mem_cons_self rfl
  have htimes (i : Nat) :
      times (given ++ [(idx, s.gen)]) i = times given i + if idx = i then 1 else 0 := by
    simp only [times, List.countP_append, List.countP_singleton, decide_eq_true_eq]
  have hgenAt : (p.slots idx).gen = UInt32.ofNat (times given idx) := by
    rw [hP.current, if_neg (by omega), Nat.sub_zero]
  refine ⟨?_, ?_, ?_, ?_, ?_, fun i g hin => ?_⟩
  · rw [hfree]
    exact SwapList.nodup_dropLast hP.nodup
  · rw [hfree, hcap]
    apply slot_all hslots (P := fun i s => i ∈ p.free.dropLast ↔ i < p.cap ∧ s.refs = 0)
    · exact ⟨fun hin => absurd hin hnew, fun hin => by omega⟩
    · intro i hi
      rw [← hP.free i]
      nth_rewrite 2 [← hsplit]
      rw [List.mem_append, List.mem_singleton]
      simp only [hi, or_false]
  · exact slot_all hslots (P := fun _ s => 0 ≤ s.refs) (by omega) fun i _ => hP.counted i
  · apply slot_all hslots (P := fun i s => 0 < s.refs → 0 < times _ i)
    · intro _
      rw [htimes, if_pos rfl]
      omega
    · intro i _ hpos
      have hold := hP.handed i hpos
      rw [htimes]
      omega
  · apply slot_all hslots
      (P := fun i s => s.gen = UInt32.ofNat (times _ i - if 0 < s.refs then 1 else 0))
    · rw [htimes, if_pos rfl, if_pos (by omega), hgen, hgenAt, Nat.add_sub_cancel]
    · intro i hi
      rw [htimes, if_neg (Ne.symm hi), Nat.add_zero]
      exact hP.current i
  · rw [htimes]
    rcases List.mem_append.mp hin with hin | hin
    · obtain ⟨m, hm, heq⟩ := hP.past i g hin
      exact ⟨m, by omega, heq⟩
    · cases List.mem_singleton.mp hin
      rw [if_pos rfl]
      exact ⟨_, Nat.lt_succ_self _, hgen.trans hgenAt⟩

end Change

theorem capacity (hP : Pooled p given) : p.free.length + p.live = p.cap := by
  have hperm : p.free.Perm ((List.range p.cap).filter fun idx => ¬ 0 < (p.slots idx).refs) := by
    apply (List.perm_ext_iff_of_nodup hP.nodup (List.nodup_range.filter _)).mpr
    intro idx
    have hpos := hP.counted idx
    rw [hP.free, List.mem_filter, List.mem_range, decide_eq_true_eq]
    omega
  have hsplit := List.length_eq_countP_add_countP (fun idx => decide (0 < (p.slots idx).refs))
    (l := List.range p.cap)
  rw [hperm.length_eq, ← List.countP_eq_length_filter]
  simp only [List.length_range, decide_eq_true_eq] at hsplit
  unfold SessionPool.live
  omega

theorem fresh (hP : Pooled p given) (hzero : (p.slots idx).refs = 0)
    (hwrap : times given idx < 2 ^ 32) : (idx, (p.slots idx).gen) ∉ given := by
  intro hmem
  obtain ⟨m, hm, heq⟩ := hP.past idx _ hmem
  rw [hP.current, if_neg (by omega), Nat.sub_zero] at heq
  have hnat := congrArg UInt32.toNat heq
  rw [UInt32.toNat_ofNat_of_lt' hwrap, UInt32.toNat_ofNat_of_lt' (hm.trans hwrap)] at hnat
  omega

end Pooled

variable {h h' : PoolHistory} {cap : Nat}

theorem pooled_alloc (hP : Pooled h.pool h.given) (recvOk sendOk : Bool) :
    Pooled (h.afterAlloc (h.pool.alloc recvOk sendOk)).pool
      (h.afterAlloc (h.pool.alloc recvOk sendOk)).given := by
  rcases h.pool.alloc_cases recvOk sendOk with ⟨_, heq⟩ | ⟨idx, recvQ, sendQ, hidx, heq | ⟨_, heq⟩⟩
  · rw [heq]
    exact hP
  · rw [heq]
    refine Pooled.written rfl rfl hP rfl ?_ ?_ ?_
    · rfl
    · exact hP.counted idx
    · rfl
  · rw [heq]
    simp only [afterAlloc, Function.update_self]
    exact Pooled.handedOut rfl rfl hP rfl hidx rfl rfl

theorem pooled_step {c : PoolCall} (hP : Pooled h.pool h.given) (hstep : step c h = some h') :
    Pooled h'.pool h'.given := by
  cases c with
  | alloc recvOk sendOk =>
    cases hstep
    exact pooled_alloc hP recvOk sendOk
  | addRef idx =>
    simp only [step, Option.ite_none_right_eq_some] at hstep
    obtain ⟨hused, heq⟩ := hstep
    cases heq
    have hpos := hused.2
    refine Pooled.written rfl rfl hP rfl ⟨fun _ => hpos, fun _ => ?_⟩ ?_ ?_
    · exact Int.lt_add_one_of_le hpos.le
    · exact Int.le_add_one hpos.le
    · rfl
  | release idx =>
    simp only [step, Option.ite_none_right_eq_some] at hstep
    obtain ⟨hused, heq⟩ := hstep
    cases heq
    have hpos := hused.2
    rcases h.pool.release_cases idx with ⟨_, heq⟩ | ⟨hone, heq⟩
    · rw [heq]
      exact Pooled.freed rfl rfl hP rfl hused rfl rfl
    · rw [heq]
      refine Pooled.written rfl rfl hP rfl ⟨fun _ => hpos, fun _ => ?_⟩ ?_ ?_
      · dsimp only
        omega
      · dsimp only
        omega
      · rfl
  | write idx s =>
    simp only [step, Option.ite_none_right_eq_some] at hstep
    obtain ⟨⟨hused, hrefs, hgen, _⟩, heq⟩ := hstep
    cases heq
    have hpos := hused.2
    refine Pooled.written rfl rfl hP rfl ⟨fun _ => hpos, fun _ => ?_⟩ ?_ hgen
    · rw [hrefs]
      exact hpos
    · rw [hrefs]
      exact hpos.le

theorem pooled_run {ok : PoolCall → PoolHistory → Prop} (hrun : Reach step ok (start cap) h) :
    Pooled h.pool h.given :=
  hrun.invariant (P := fun h => Pooled h.pool h.given) (pooled_start cap)
    fun _ _ _ _ hP _ hstep => pooled_step hP hstep

theorem cap_step {c : PoolCall} (hstep : step c h = some h') : h'.pool.cap = h.pool.cap := by
  cases c with
  | alloc recvOk sendOk =>
    cases hstep
    rcases h.pool.alloc_cases recvOk sendOk with ⟨_, heq⟩ | ⟨_, _, _, _, heq | ⟨_, heq⟩⟩
    · rw [heq]
      rfl
    · rw [heq]
      rfl
    · rw [heq]
      rfl
  | addRef idx =>
    simp only [step, Option.ite_none_right_eq_some] at hstep
    cases hstep.2
    rfl
  | release idx =>
    simp only [step, Option.ite_none_right_eq_some] at hstep
    cases hstep.2
    exact h.pool.release_cap idx
  | write idx s =>
    simp only [step, Option.ite_none_right_eq_some] at hstep
    cases hstep.2
    rfl

theorem cap_run {ok : PoolCall → PoolHistory → Prop} (hrun : Reach step ok (start cap) h) :
    h.pool.cap = cap :=
  hrun.invariant (P := fun h => h.pool.cap = cap) rfl
    fun _ _ _ _ hcap _ hstep => (cap_step hstep).trans hcap

/-! ### The rings -/

/-- A slot that has a receive ring has a send ring. -/
def RingsPaired (p : SessionPool) : Prop :=
  ∀ idx, (p.slots idx).recvQ.valid = true → (p.slots idx).sendQ.valid = true

theorem RingsPaired.update {p q : SessionPool} {idx : Nat} {s : Session} (hR : RingsPaired p)
    (hslots : q.slots = Function.update p.slots idx s)
    (hs : s.recvQ.valid = true → s.sendQ.valid = true) : RingsPaired q :=
  Pooled.slot_all hslots (P := fun _ s => s.recvQ.valid = true → s.sendQ.valid = true) hs
    fun i _ => hR i

theorem ringsPaired_step {c : PoolCall} (hR : RingsPaired h.pool) (hpaired : Paired c h)
    (hstep : step c h = some h') : RingsPaired h'.pool := by
  cases c with
  | alloc recvOk sendOk =>
    cases hstep
    cases halloc : h.pool.alloc recvOk sendOk with
    | mk q out =>
    cases out with
    | none =>
      rw [SessionPool.alloc_none halloc hpaired]
      exact hR
    | some idx =>
      obtain ⟨_, sendQ, hsend, heq⟩ := SessionPool.alloc_some halloc
      rw [heq]
      refine hR.update rfl fun _ => ?_
      dsimp only [Session.reset]
      rw [hsend]
      dsimp only
      split
      · next hvalid => exact hR idx hvalid
      · rfl
  | addRef idx =>
    simp only [step, Option.ite_none_right_eq_some] at hstep
    cases hstep.2
    refine hR.update rfl ?_
    exact hR idx
  | release idx =>
    simp only [step, Option.ite_none_right_eq_some] at hstep
    cases hstep.2
    rcases h.pool.release_cases idx with ⟨_, heq⟩ | ⟨_, heq⟩
    · rw [heq]
      refine hR.update rfl ?_
      exact hR idx
    · rw [heq]
      refine hR.update rfl ?_
      exact hR idx
  | write idx s =>
    simp only [step, Option.ite_none_right_eq_some] at hstep
    obtain ⟨⟨_, _, _, hrecv, hsend⟩, heq⟩ := hstep
    cases heq
    refine hR.update rfl ?_
    rw [hrecv, hsend]
    exact hR idx

theorem ringsPaired_run (hrun : Reach step Paired (start cap) h) : RingsPaired h.pool :=
  hrun.invariant (P := fun h => RingsPaired h.pool) (fun _ hvalid => by cases hvalid)
    fun _ _ _ _ hR hpaired hstep => ringsPaired_step hR hpaired hstep

theorem allOrNothing_of_paired (hP : Pooled h.pool h.given) (hR : RingsPaired h.pool)
    (recvOk sendOk : Bool) : h.AllOrNothing (h.pool.alloc recvOk sendOk) := by
  cases halloc : h.pool.alloc recvOk sendOk with
  | mk q out =>
  cases out with
  | none => exact SessionPool.alloc_none_free halloc
  | some idx =>
    obtain ⟨hidx, sendQ, hsend, heq⟩ := SessionPool.alloc_some halloc
    have hzero := ((hP.free idx).mp (List.mem_of_getLast? hidx)).2
    have hself : q.slots idx
        = { h.pool.slots idx with recvQ := { valid := true }, sendQ := sendQ }.reset := by
      rw [heq]
      exact Function.update_self ..
    have hvalid : sendQ.valid = true := by
      rw [hsend]
      dsimp only
      split
      · next hrecv => exact hR idx hrecv
      · rfl
    refine ⟨?_, fun hwrap => ?_⟩
    · rw [hself]
      exact ⟨rfl, rfl, hvalid, hsend ▸ ⟨rfl, rfl⟩, rfl, rfl, rfl, rfl⟩
    · rw [hself]
      exact hP.fresh hzero hwrap

/-- When the send ring of a new slot is refused after its receive ring, the slot stays at the
back of the free list and the next `Alloc` takes it for one that has both. -/
theorem half_ready (hunpaired : ¬ Paired (.alloc true false) h) (recvOk sendOk : Bool) :
    ∃ p q idx, h.pool.alloc true false = (p, none) ∧ p.alloc recvOk sendOk = (q, some idx) ∧
      (q.slots idx).sendQ.valid = false := by
  unfold Paired at hunpaired
  push Not at hunpaired
  obtain ⟨-, idx, hidx, hnew⟩ := hunpaired
  rw [ne_eq, Bool.not_eq_true] at hnew
  refine ⟨_, _, idx, SessionPool.alloc_half hidx hnew, SessionPool.alloc_reuse ?_ ?_ .., ?_⟩
  · exact hidx
  · simp
  · simp [Session.reset, SendRing.clear, SendRing.init]

theorem not_allOrNothing_of_unpaired (hunpaired : ¬ Paired (.alloc true false) h)
    (recvOk sendOk : Bool) :
    ¬ (h.afterAlloc (h.pool.alloc true false)).AllOrNothing
      ((h.afterAlloc (h.pool.alloc true false)).pool.alloc recvOk sendOk) := by
  obtain ⟨p, q, idx, hfirst, hsecond, hvalid⟩ := half_ready hunpaired recvOk sendOk
  rw [hfirst]
  intro hall
  simp only [afterAlloc, hsecond] at hall
  have hready := hall.1.sendReady
  rw [hvalid] at hready
  cases hready

end PoolHistory

open PoolHistory

/-- As long as no `Alloc` gets a receive ring and then no send ring, every `Alloc` hands out
a whole session or takes nothing, and free and live slots make up the capacity. After an
`Alloc` that does, the next one hands out a session without a send ring. -/
theorem alloc_whole (cap : Nat) :
    (∀ h, Reach PoolHistory.step Paired (start cap) h →
      h.pool.free.length + h.pool.live = cap ∧
        ∀ recvOk sendOk, h.AllOrNothing (h.pool.alloc recvOk sendOk)) ∧
    ∀ h, Reach PoolHistory.step Any (start cap) h → ¬ Paired (.alloc true false) h →
      ∀ recvOk sendOk, ¬ (h.afterAlloc (h.pool.alloc true false)).AllOrNothing
        ((h.afterAlloc (h.pool.alloc true false)).pool.alloc recvOk sendOk) := by
  refine ⟨fun h hrun => ⟨?_, ?_⟩, fun h _ => not_allOrNothing_of_unpaired⟩
  · have hcapacity := (pooled_run hrun).capacity
    rw [cap_run hrun] at hcapacity
    exact hcapacity
  · exact allOrNothing_of_paired (pooled_run hrun) (ringsPaired_run hrun)

/-- A pool of two after one session has been handed out, and a new pool of one. -/
theorem alloc_whole_two :
    (∀ recvOk sendOk,
      ((start 2).afterAlloc ((start 2).pool.alloc true true)).AllOrNothing
        (((start 2).afterAlloc ((start 2).pool.alloc true true)).pool.alloc recvOk sendOk)) ∧
    ¬ ((start 1).afterAlloc ((start 1).pool.alloc true false)).AllOrNothing
      (((start 1).afterAlloc ((start 1).pool.alloc true false)).pool.alloc true true) := by
  have hpaired : Paired (.alloc true true) (start 2) := nofun
  have hunpaired : ¬ Paired (.alloc true false) (start 1) := fun h => by cases h rfl 0 rfl
  exact ⟨((alloc_whole 2).1 _ (.single hpaired rfl)).2, (alloc_whole 1).2 _ .refl hunpaired true true⟩

/-- The first session of a pool of one, after its send ring has once been refused. -/
theorem alloc_without_send_ring :
    ∃ h q, Reach PoolHistory.step Any (start 1) h ∧ h.pool.alloc true true = (q, some 0) ∧
      (q.slots 0).sendQ.valid = false ∧ ¬ h.AllOrNothing (h.pool.alloc true true) := by
  refine ⟨(start 1).afterAlloc ((start 1).pool.alloc true false), _,
    .single (a := .alloc true false) trivial rfl, rfl, rfl, ?_⟩
  apply not_allOrNothing_of_unpaired
  exact fun h => by cases h rfl 0 rfl

end BeltServer
