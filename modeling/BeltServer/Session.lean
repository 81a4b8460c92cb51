import BeltServer.Wire
import BeltServer.Lib.SwapList

/-!
# Sessions and the session pool

`Session.h`. A slot is handed out with one reference, the owner's; rooms take further
ones. The slot returns to the free list when the last reference is given back, and its
generation advances at that moment. The ring buffers are external: a ring is valid
exactly after a successful `Init`, and a send ring takes a message whole or not at all.
-/

namespace BeltServer

set_option autoImplicit false

def kSendRingSize : Nat := 16384

/-- `CRingBufferMT` as a queue of messages: every message accepted since the last `Clear`
in order, and the number of their bytes that are still in the ring. -/
structure SendRing where
  valid : Bool := false
  log : List Msg := []
  held : Nat := 0

namespace SendRing

def clear (q : SendRing) : SendRing := { q with log := [], held := 0 }

/-- `Init`: valid and empty, or unusable when the memory is refused. -/
def init (ok : Bool) : SendRing := { valid := ok }

def enqueue (q : SendRing) (m : Msg) : Option SendRing :=
  if q.valid ∧ q.held + m.size ≤ kSendRingSize - 1 then
    some { q with log := q.log ++ [m], held := q.held + m.size }
  else none

def consume (q : SendRing) (n : Nat) : SendRing := { q with held := q.held - n }

theorem enqueue_log {q q' : SendRing} {m : Msg} (h : q.enqueue m = some q') :
    q'.log = q.log ++ [m] := by
  unfold enqueue at h
  split at h
  · cases h
    rfl
  · cases h

end SendRing

/-- `CRingBufferST` with the bytes it holds. -/
structure RecvRing where
  valid : Bool := false
  data : List UInt8 := []

structure Session where
  refs : Int := 0
  dead : Bool := false
  gen : UInt32 := 0
  fd : Int := -1
  owner : Nat := 0
  wantWrite : Bool := false
  recvQ : RecvRing := {}
  sendQ : SendRing := {}
  inRoom : Bool := false
  roomIdx : Nat := 0
  actorId : Nat := 0

/-- The fields `Alloc` writes after the rings are ready. -/
def Session.reset (s : Session) : Session :=
  { s with
    fd := -1
    wantWrite := false
    inRoom := false
    roomIdx := 0
    actorId := 0
    dead := false
    refs := 1 }

/-- `SessionPool`; `slots` stands for the array of `cap` sessions, `free` for `_free` with
its back at the end of the list. -/
structure SessionPool where
  slots : Nat → Session := fun _ => {}
  cap : Nat := 0
  free : List Nat := []

namespace SessionPool

/-- `Init`: low numbers are handed out first. -/
def init (capacity : Nat) : SessionPool where
  cap := capacity
  free := (List.range capacity).reverse

def mod (p : SessionPool) (idx : Nat) (f : Session → Session) : SessionPool :=
  { p with slots := Function.update p.slots idx (f (p.slots idx)) }

/-- The rings of a slot about to be handed out: initialised on first use, cleared after.
`recvOk` and `sendOk` are the results of the two `Init` calls; the second is made only
when the first succeeded. -/
def readyRings (s : Session) (recvOk sendOk : Bool) : Session × Bool :=
  if !s.recvQ.valid then
    if !recvOk then (s, false)
    else ({ s with recvQ := { valid := true }, sendQ := .init sendOk }, sendOk)
  else ({ s with recvQ := { s.recvQ with data := [] }, sendQ := s.sendQ.clear }, true)

def alloc (p : SessionPool) (recvOk sendOk : Bool) : SessionPool × Option Nat :=
  match p.free.getLast? with
  | none => (p, none)
  | some idx =>
    let (s, ok) := readyRings (p.slots idx) recvOk sendOk
    if ok then
      ({ p with slots := Function.update p.slots idx s.reset, free := p.free.dropLast }, some idx)
    else ({ p with slots := Function.update p.slots idx s }, none)

def addRef (p : SessionPool) (idx : Nat) : SessionPool :=
  p.mod idx fun s => { s with refs := s.refs + 1 }

/-- `Release`: the last reference frees the slot and ends its generation. -/
def release (p : SessionPool) (idx : Nat) : SessionPool :=
  let q := p.mod idx fun s => { s with refs := s.refs - 1 }
  if (p.slots idx).refs = 1 then
    { q with
      slots := Function.update q.slots idx { q.slots idx with gen := (q.slots idx).gen + 1 }
      free := q.free ++ [idx] }
  else q

@[simp] theorem mod_slots_self (p : SessionPool) (idx : Nat) (f : Session → Session) :
    (p.mod idx f).slots idx = f (p.slots idx) := Function.update_self ..

theorem mod_slots_of_ne {p : SessionPool} {idx j : Nat} (f : Session → Session) (h : j ≠ idx) :
    (p.mod idx f).slots j = p.slots j := Function.update_of_ne h ..

/-- What `Release` can do: it frees the slot with its last reference and advances its
generation, or only counts down. -/
theorem release_cases (p : SessionPool) (idx : Nat) :
    ((p.slots idx).refs = 1 ∧ p.release idx =
      { p with
        slots := Function.update p.slots idx
          { p.slots idx with refs := 0, gen := (p.slots idx).gen + 1 }
        free := p.free ++ [idx] }) ∨
    ((p.slots idx).refs ≠ 1 ∧ p.release idx =
      { p with
        slots := Function.update p.slots idx
          { p.slots idx with refs := (p.slots idx).refs - 1 } }) := by
  by_cases h : (p.slots idx).refs = 1
  · exact Or.inl ⟨h, by simp [release, h, mod]⟩
  · exact Or.inr ⟨h, by simp [release, h, mod]⟩

@[simp] theorem release_cap (p : SessionPool) (idx : Nat) : (p.release idx).cap = p.cap := by
  rcases p.release_cases idx with ⟨_, h⟩ | ⟨_, h⟩ <;> rw [h]

theorem release_slots_of_ne {p : SessionPool} {idx j : Nat} (hne : j ≠ idx) :
    (p.release idx).slots j = p.slots j := by
  rcases p.release_cases idx with ⟨_, h⟩ | ⟨_, h⟩ <;> rw [h] <;> exact Function.update_of_ne hne ..

theorem release_refs (p : SessionPool) (idx : Nat) :
    ((p.release idx).slots idx).refs = (p.slots idx).refs - 1 := by
  rcases p.release_cases idx with ⟨hone, h⟩ | ⟨_, h⟩ <;> rw [h]
  · simp [hone]
  · simp

theorem readyRings_cases (s : Session) (recvOk sendOk : Bool) :
    ∃ recvQ sendQ ok, readyRings s recvOk sendOk = ({ s with recvQ, sendQ }, ok) ∧
      (ok = true → sendQ.log = []) := by
  unfold readyRings
  split
  · split
    · exact ⟨_, _, _, rfl, by simp⟩
    · exact ⟨_, _, _, rfl, fun _ => rfl⟩
  · exact ⟨_, _, _, rfl, fun _ => rfl⟩

/-- What `Alloc` can do: nothing to hand out, rings refused, or the slot at the back of the
free list in its initial state. -/
theorem alloc_cases (p : SessionPool) (recvOk sendOk : Bool) :
    (p.free.getLast? = none ∧ p.alloc recvOk sendOk = (p, none)) ∨
    ∃ idx recvQ sendQ, p.free.getLast? = some idx ∧
      (p.alloc recvOk sendOk =
        ({ p with slots := Function.update p.slots idx { p.slots idx with recvQ, sendQ } }, none) ∨
       (sendQ.log = [] ∧ p.alloc recvOk sendOk =
        ({ p with
            slots := Function.update p.slots idx { p.slots idx with recvQ, sendQ }.reset
            free := p.free.dropLast }, some idx))) := by
  unfold alloc
  cases h : p.free.getLast? with
  | none => exact Or.inl ⟨rfl, rfl⟩
  | some idx =>
    obtain ⟨recvQ, sendQ, ok, hrings, hlog⟩ := readyRings_cases (p.slots idx) recvOk sendOk
    refine Or.inr ⟨idx, recvQ, sendQ, rfl, ?_⟩
    simp only [hrings]
    cases ok with
    | false => exact Or.inl rfl
    | true => exact Or.inr ⟨hlog rfl, rfl⟩

end SessionPool

end BeltServer
