import BeltServer.Headcount
import Mathlib.Algebra.Order.BigOperators.Group.Finset

/-!
# Who holds a session

A session's references are its owner's, one for each seat it holds, and one that the room's
worker is about to give back. No session has two of the latter kinds, and whoever holds a
seat for a session names its current generation and its place.
-/

namespace BeltServer

set_option autoImplicit false

open SwapList

/-- The reference that the worker at room `r` still has to give back. -/
def GamePc.owedAt (pc : GamePc) (r : Nat) : Multiset Nat :=
  match pc with
  | .skip _ r' idx _ _ | .drop _ r' idx _ => if r' = r then {idx} else 0
  | _ => 0

def LockPc.flight : LockPc → Multiset RoomJoinEntry
  | .move _ _ _ _ _ _ joins _ | .carry _ _ _ _ _ joins _ => joins
  | _ => 0

/-- The session whose place is about to be stored, with that place. -/
def LockPc.storing : LockPc → Option (Nat × Nat × Seat)
  | .store _ idx r i => some (idx, r, i)
  | _ => none

/-- The epoll worker in `Join`, with its session. -/
def LockPc.joiner : LockPc → Option (Nat × Nat)
  | .scan w idx | .mail w idx _ | .first w idx _ | .push w idx _ _ | .store w idx _ _ => some (w, idx)
  | _ => none

def NetPc.sess : NetPc → Option Nat
  | .idle => none
  | .joining idx | .inJoin idx | .joined idx _ _ | .refused idx | .leaveRead idx | .leavePush idx _
  | .release idx | .inputPush idx _ _ => some idx

def NetPc.leaving : NetPc → Option Nat
  | .leaveRead idx | .leavePush idx _ | .release idx => some idx
  | _ => none

/-- The session that has no room yet. -/
def NetPc.unplaced : NetPc → Option Nat
  | .joining idx | .inJoin idx => some idx
  | _ => none

namespace Ledger

def owed (L : Ledger) (r : Nat) : Multiset Nat := (L.game (L.room r).owner).owedAt r

def roomClaims (L : Ledger) (r : Nat) : Multiset Nat := (L.tokens r).map (·.sessIdx) + L.owed r

def claims (L : Ledger) : Multiset Nat :=
  ∑ r ∈ Finset.range L.cap, L.roomClaims r + L.lock.flight.map (·.sessIdx)

def ownRef (L : Ledger) (idx : Nat) : Nat := if idx ∈ L.mySessions (L.sess idx).owner then 1 else 0

def place (L : Ledger) (idx : Nat) : Nat × Nat :=
  match L.lock.storing with
  | some (idx', r, i) =>
    if idx' = idx then (r, i.val) else ((L.sess idx).roomIdx, (L.sess idx).actorId)
  | none => ((L.sess idx).roomIdx, (L.sess idx).actorId)

end Ledger

/-- An entry names its session in the current generation, and the session's place. -/
structure HolderOk (L : Ledger) (r : Nat) (e : RoomJoinEntry) : Prop where
  room : r < L.cap
  gen : (L.sess e.sessIdx).gen = e.sessGen
  place : L.place e.sessIdx = (r, e.actorId.val)

structure Refs (L : Ledger) : Prop where
  refs : ∀ idx, (L.sess idx).refs = ((L.ownRef idx + L.claims.count idx : Nat) : Int)
  one : ∀ idx, L.claims.count idx ≤ 1
  bound : ∀ idx, 0 < L.claims.count idx → idx < L.sessCap
  holder : ∀ r e, e ∈ L.tokens r → HolderOk L r e
  flight : ∀ old, L.lock.emptying = some old → ∀ e ∈ L.lock.flight, HolderOk L old e
  seated : ∀ idx, 0 < L.claims.count idx → (L.sess idx).inRoom = true ∨ (L.sess idx).dead = true ∨
    ∃ r i, L.lock.storing = some (idx, r, i)
  free : ∀ idx, L.freeSess.count idx = if idx < L.sessCap ∧ (L.sess idx).refs = 0 then 1 else 0
  conns : ∀ w idx, idx ∈ L.mySessions w → (L.sess idx).owner = w ∧ idx < L.sessCap
  conns_nodup : ∀ w, (L.mySessions w).Nodup
  net : ∀ w idx, (L.net w).sess = some idx → idx ∈ L.mySessions w
  dead : ∀ w idx, idx ∈ L.mySessions w → ((L.sess idx).dead = true ↔ (L.net w).leaving = some idx)
  unplaced : ∀ w idx, (L.net w).unplaced = some idx → (L.sess idx).inRoom = false
  joiner : ∀ w idx, L.lock.joiner = some (w, idx) → L.net w = .inJoin idx

theorem NetPc.sess_of_leaving {pc : NetPc} {idx : Nat} (h : pc.leaving = some idx) :
    pc.sess = some idx := by
  cases pc <;> cases h <;> rfl

theorem NetPc.sess_of_unplaced {pc : NetPc} {idx : Nat} (h : pc.unplaced = some idx) :
    pc.sess = some idx := by
  cases pc <;> cases h <;> rfl

theorem GamePc.owedAt_of_ne {pc : GamePc} {i r r' : Nat} (h : pc.place = some (i, r))
    (hne : r' ≠ r) : pc.owedAt r' = 0 := by
  cases pc with
  | skip | drop =>
    cases h
    exact if_neg (Ne.symm hne)
  | idle | announce => cases h
  | joins | leaves | free | exit | moving => rfl

theorem GamePc.owedAt_of_none {pc : GamePc} (h : pc.place = none) (r : Nat) : pc.owedAt r = 0 := by
  cases pc <;> cases h <;> rfl

theorem sess_update {β : Type} (f : SessBook → β) {m : Nat → SessBook} {idx : Nat} {S : SessBook}
    (hS : f S = f (m idx)) (j : Nat) : f (Function.update m idx S j) = f (m j) := by
  by_cases hj : j = idx
  · rw [hj, Function.update_self, hS]
  · rw [Function.update_of_ne hj]

theorem SessBook.moved_keeps {β : Type} (f : SessBook → β) (hf : ∀ S r, f { S with roomIdx := r } = f S)
    (S : SessBook) (gen : UInt32) (r : Nat) : f (S.moved gen r) = f S := by
  unfold moved
  split
  · exact hf S r
  · rfl

theorem SessBook.moved_gen (S : SessBook) (gen : UInt32) (r : Nat) : (S.moved gen r).gen = S.gen :=
  moved_keeps (·.gen) (fun _ _ => rfl) S gen r

/-! ### Claims -/

namespace Ledger

variable {L L' : Ledger}

structure SameHolders (R R' : RoomBook) : Prop where
  seated : R'.seated = R.seated := by rfl
  pending : R'.pendingJoin = R.pendingJoin := by rfl
  owner : R'.owner = R.owner := by rfl

theorem sameHolders_update {m : Nat → RoomBook} {r : Nat} {R : RoomBook}
    (h : SameHolders (m r) R) (r' : Nat) :
    SameHolders (m r') (Function.update m r R r') := by
  by_cases hr : r' = r
  · subst hr
    rw [Function.update_self]
    exact h
  · rw [Function.update_of_ne hr]
    exact {}

theorem tokens_same {r : Nat} (hroom : SameHolders (L.room r) (L'.room r))
    (hhand : ∀ g, (L'.game g).handAt r = (L.game g).handAt r) : L'.tokens r = L.tokens r := by
  simp only [tokens, hand, RoomBook.members, hroom.seated, hroom.pending, hroom.owner, hhand]

theorem owed_same {r : Nat} (howner : (L'.room r).owner = (L.room r).owner)
    (howed : ∀ g, (L'.game g).owedAt r = (L.game g).owedAt r) : L'.owed r = L.owed r := by
  simp only [owed, howner, howed]

theorem roomClaims_same {r : Nat} (htokens : L'.tokens r = L.tokens r)
    (howed : L'.owed r = L.owed r) : L'.roomClaims r = L.roomClaims r := by
  simp only [roomClaims, htokens, howed]

theorem claims_same (hcap : L'.cap = L.cap) (hrooms : ∀ r, L'.roomClaims r = L.roomClaims r)
    (hflight : L'.lock.flight = L.lock.flight) : L'.claims = L.claims := by
  simp only [claims, hcap, hrooms, hflight]

/-- The claims of one room change. -/
theorem claims_change {r : Nat} (hr : r < L.cap) (hcap : L'.cap = L.cap)
    (hrooms : ∀ r', r' ≠ r → L'.roomClaims r' = L.roomClaims r') :
    L'.claims + (L.roomClaims r + L.lock.flight.map (·.sessIdx)) =
      L.claims + (L'.roomClaims r + L'.lock.flight.map (·.sessIdx)) := by
  have hsum := Tally.sum_change (Finset.mem_range.mpr hr) hrooms
  simp only [claims, hcap]
  calc _ = (∑ r ∈ Finset.range L.cap, L'.roomClaims r + L.roomClaims r) +
        (L'.lock.flight.map (·.sessIdx) + L.lock.flight.map (·.sessIdx)) := by abel
    _ = _ := by rw [hsum]; abel

theorem claims_change_two {r r' : Nat} (hr : r < L.cap) (hr' : r' < L.cap) (hne : r ≠ r')
    (hcap : L'.cap = L.cap)
    (hrooms : ∀ x, x ≠ r → x ≠ r' → L'.roomClaims x = L.roomClaims x)
    (hflight : L'.lock.flight = L.lock.flight) :
    L'.claims + (L.roomClaims r + L.roomClaims r') =
      L.claims + (L'.roomClaims r + L'.roomClaims r') := by
  have hsum := Tally.sum_change_two (Finset.mem_range.mpr hr) (Finset.mem_range.mpr hr') hne hrooms
  simp only [claims, hcap, hflight]
  calc _ = (∑ r ∈ Finset.range L.cap, L'.roomClaims r + (L.roomClaims r + L.roomClaims r')) +
        L.lock.flight.map (·.sessIdx) := by abel
    _ = _ := by rw [hsum]; abel

theorem count_pos_of_token {r : Nat} {e : RoomJoinEntry} (hr : r < L.cap) (he : e ∈ L.tokens r) :
    0 < L.claims.count e.sessIdx := by
  refine Multiset.count_pos.mpr (Multiset.mem_add.mpr (Or.inl ?_))
  refine Multiset.mem_sum.mpr ⟨r, Finset.mem_range.mpr hr, ?_⟩
  exact Multiset.mem_add.mpr (Or.inl (Multiset.mem_map_of_mem _ he))

theorem count_pos_of_owed {r idx : Nat} (hr : r < L.cap) (he : idx ∈ L.owed r) :
    0 < L.claims.count idx := by
  refine Multiset.count_pos.mpr (Multiset.mem_add.mpr (Or.inl ?_))
  exact Multiset.mem_sum.mpr ⟨r, Finset.mem_range.mpr hr, Multiset.mem_add.mpr (Or.inr he)⟩

theorem count_pos_of_flight {e : RoomJoinEntry} (he : e ∈ L.lock.flight) :
    0 < L.claims.count e.sessIdx :=
  Multiset.count_pos.mpr (Multiset.mem_add.mpr (Or.inr (Multiset.mem_map_of_mem _ he)))

/-- A session with one claim holds one seat of one room. -/
theorem token_unique (hone : ∀ idx, L.claims.count idx ≤ 1) {r r' : Nat} {e e' : RoomJoinEntry}
    (hr : r < L.cap) (hr' : r' < L.cap) (he : e ∈ L.tokens r) (he' : e' ∈ L.tokens r')
    (hs : e'.sessIdx = e.sessIdx) : r' = r ∧ e' = e := by
  have hle := hone e.sessIdx
  have hsum : (L.roomClaims r).count e.sessIdx ≤ L.claims.count e.sessIdx := by
    refine Multiset.count_le_of_le _ ?_
    exact (Finset.single_le_sum (f := L.roomClaims) (fun _ _ => Multiset.zero_le _)
      (Finset.mem_range.mpr hr)).trans (Multiset.le_add_right _ _)
  have hpos {r : Nat} {e : RoomJoinEntry} (he : e ∈ L.tokens r) :
      0 < (L.roomClaims r).count e.sessIdx :=
    Multiset.count_pos.mpr (Multiset.mem_add.mpr (Or.inl (Multiset.mem_map_of_mem _ he)))
  by_cases hrr : r' = r
  · subst hrr
    refine ⟨rfl, ?_⟩
    by_contra hne
    obtain ⟨T, hT⟩ := Multiset.exists_cons_of_mem he
    have he'T : e' ∈ T := by
      rw [hT] at he'
      exact (Multiset.mem_cons.mp he').resolve_left hne
    have htwo : 2 ≤ (L.roomClaims r').count e.sessIdx := by
      have hposT : 0 < (T.map (·.sessIdx)).count e.sessIdx :=
        Multiset.count_pos.mpr (hs ▸ Multiset.mem_map_of_mem _ he'T)
      rw [roomClaims, hT, Multiset.map_cons, Multiset.count_add, Multiset.count_cons_self]
      omega
    omega
  · exfalso
    have htwo : (L.roomClaims r).count e.sessIdx + (L.roomClaims r').count e.sessIdx ≤
        L.claims.count e.sessIdx := by
      rw [← Multiset.count_add]
      refine Multiset.count_le_of_le _ ((?_ : _ ≤ _).trans (Multiset.le_add_right _ _))
      rw [← Finset.add_sum_erase _ _ (Finset.mem_range.mpr hr)]
      refine add_le_add_right ?_ _
      exact Finset.single_le_sum (f := L.roomClaims) (fun _ _ => Multiset.zero_le _)
        (Finset.mem_erase.mpr ⟨hrr, Finset.mem_range.mpr hr'⟩)
    have h1 := hpos he
    have h2 := hpos he'
    rw [hs] at h2
    omega

/-- A session in flight holds no seat. -/
theorem token_not_flight (hone : ∀ idx, L.claims.count idx ≤ 1) {r : Nat} {e e' : RoomJoinEntry}
    (hr : r < L.cap) (he : e ∈ L.tokens r) (he' : e' ∈ L.lock.flight) : e'.sessIdx ≠ e.sessIdx := by
  intro hs
  have hle := hone e.sessIdx
  have hroom : 0 < (∑ r ∈ Finset.range L.cap, L.roomClaims r).count e.sessIdx :=
    Multiset.count_pos.mpr (Multiset.mem_sum.mpr ⟨r, Finset.mem_range.mpr hr,
      Multiset.mem_add.mpr (Or.inl (Multiset.mem_map_of_mem _ he))⟩)
  have hflight : 0 < (L.lock.flight.map (·.sessIdx)).count e.sessIdx :=
    Multiset.count_pos.mpr (hs ▸ Multiset.mem_map_of_mem _ he')
  rw [claims, Multiset.count_add] at hle
  omega

theorem place_same {idx : Nat} (hroom : (L'.sess idx).roomIdx = (L.sess idx).roomIdx)
    (hactor : (L'.sess idx).actorId = (L.sess idx).actorId)
    (hstoring : L'.lock.storing = L.lock.storing) : L'.place idx = L.place idx := by
  simp only [place, hstoring, hroom, hactor]

end Ledger

/-- The free list holds the slots without references. -/
theorem Refs.mem_free {L : Ledger} (h : Refs L) {idx : Nat} :
    idx ∈ L.freeSess ↔ idx < L.sessCap ∧ (L.sess idx).refs = 0 := by
  rw [← List.count_pos_iff, h.free]
  split
  · rename_i hfree
    exact ⟨fun _ => hfree, fun _ => Nat.one_pos⟩
  · rename_i hused
    exact ⟨fun hpos => absurd hpos (Nat.lt_irrefl 0), fun hfree => absurd hfree hused⟩

end BeltServer
