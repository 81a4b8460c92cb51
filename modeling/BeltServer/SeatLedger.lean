import BeltServer.SerialSim

/-!
# The seat ledger

Between operations, the five records of who sits where agree in every room in use: the seat
flags and their counter, the members and theirs, the queue of pending joins, the players of
the world, and the sessions' own notes.
-/

namespace BeltServer

set_option autoImplicit false

open Runs

/-- The holders of a seat: its used member and the pending entries for it. -/
def Room.holders (R : Room) (i : Seat) : Nat :=
  (R.members i).used.toNat + R.pendingJoin.countP fun e => e.actorId = i

structure Room.SeatsAgree (R : Room) : Prop where
  seats : ∀ i, (R.seatUsed i = true ↔ R.holders i = 1) ∧ R.holders i ≤ 1
  reserved : R.reservedSeats = (((List.finRange 4).countP fun i => R.seatUsed i : Nat) : Int)
  counted : R.memberCount = (((List.finRange 4).countP fun i => (R.members i).used : Nat) : Int)
  present : ∀ i, (R.world.actors (slotOf i)).present = (R.members i).used

/-- Session `idx` of generation `gen` holds seat `i` of room `r`, as a used member or in a
pending entry. -/
def Server.HoldsSeat (st : Server) (idx : Nat) (gen : UInt32) (r : Nat) (i : Seat) : Prop :=
  (((st.rooms r).members i).used = true ∧ ((st.rooms r).members i).sessIdx = idx ∧
    ((st.rooms r).members i).sessGen = gen) ∨
  ⟨idx, gen, i⟩ ∈ (st.rooms r).pendingJoin

namespace Serial

variable {s : Serial}

/-- Between operations nobody has entries in hand. -/
theorem tokens_system (s : Serial) (r : Nat) : s.system.ledger.tokens r =
    (s.srv.rooms r).book.members + ((s.srv.rooms r).pendingJoin : Multiset RoomJoinEntry) :=
  add_zero _

theorem mem_tokens {idx r : Nat} {gen : UInt32} {i : Seat} :
    ⟨idx, gen, i⟩ ∈ s.system.ledger.tokens r ↔ s.srv.HoldsSeat idx gen r i := by
  rw [tokens_system, Multiset.mem_add, Multiset.mem_coe, RoomBook.members, Tally.mem_ofTable]
  refine or_congr ?_ Iff.rfl
  constructor
  · rintro ⟨i', e, hseated, heq⟩
    cases heq
    exact Room.seated_eq_some.mp hseated
  · intro hmember
    exact ⟨i, ⟨idx, gen⟩, Room.seated_eq_some.mpr hmember, rfl⟩

theorem holders_eq (s : Serial) (r : Nat) (i : Seat) :
    (s.srv.rooms r).holders i = seatCount (s.system.ledger.tokens r) i := by
  rw [tokens_system, seatCount_add, seatCount_members, Room.seated_isSome]
  rfl

theorem seatsAgree (h : Consistent s.system.ledger) {r : Nat} (hr : r ∉ s.srv.freeRooms) :
    (s.srv.rooms r).SeatsAgree where
  seats i := by
    have hseat : seatCount (s.system.ledger.tokens r) i + 0 = ((s.srv.rooms r).seatUsed i).toNat :=
      h.seats.seats r (by rintro _ _ ⟨⟩) i
    rw [← holders_eq, Nat.add_zero] at hseat
    rw [hseat]
    cases (s.srv.rooms r).seatUsed i <;> decide
  reserved := by
    rw [Tally.countP_finRange]
    exact (h.seats.book r).reserved
  counted := by
    have hcount := h.heads.count r rfl
    have hheads : (s.srv.rooms r).book.heads =
        (List.finRange 4).countP fun i => ((s.srv.rooms r).members i).used := by
      rw [Tally.countP_finRange]
      simp only [RoomBook.heads, Room.seated_isSome]
    rw [← hheads]
    exact hcount
  present i := by
    have hpresent : (s.srv.rooms r).book.present i = ((s.srv.rooms r).book.seated i).isSome :=
      h.heads.present r hr (by rintro ⟨⟩) i
    rw [Room.seated_isSome] at hpresent
    exact hpresent

theorem holdsSeat_unique (h : Consistent s.system.ledger) {idx r r' : Nat} {gen gen' : UInt32}
    {i i' : Seat} (hold : s.srv.HoldsSeat idx gen r i) (hold' : s.srv.HoldsSeat idx gen' r' i') :
    r' = r ∧ i' = i := by
  rw [← mem_tokens] at hold hold'
  obtain ⟨hroom, heq⟩ := Ledger.token_unique h.refs.one (h.refs.holder r _ hold).room
    (h.refs.holder r' _ hold').room hold hold' rfl
  exact ⟨hroom, congrArg RoomJoinEntry.actorId heq⟩

theorem holdsSeat_place (h : Consistent s.system.ledger) {idx r : Nat} {gen : UInt32} {i : Seat}
    (hold : s.srv.HoldsSeat idx gen r i) :
    (s.srv.sess idx).actorId = i.val ∧ (s.srv.sess idx).roomIdx = r := by
  have hplace : ((s.srv.sess idx).roomIdx, (s.srv.sess idx).actorId) = (r, i.val) :=
    (h.refs.holder r _ (mem_tokens.mpr hold)).place
  exact ⟨congrArg Prod.snd hplace, congrArg Prod.fst hplace⟩

/-- The state in which the join loop is about to process an entry. -/
theorem consistent_entry {sessionCapacity roomCapacity workerCount : Nat}
    (h : Reach step Any (init sessionCapacity roomCapacity workerCount) s) {g k r : Nat}
    (hr : (s.srv.myRooms g)[k]? = some r) {js rest : List RoomJoinEntry}
    (hjs : (s.srv.rooms r).pendingJoin = js ++ rest) :
    Consistent (({ s.system with
      srv := js.foldl (Server.processJoin r) (s.srv.takeQueues r) }.setGame g
        (.joins k r rest (s.srv.rooms r).pendingLeave))).ledger :=
  System.consistent ((reach_system h).trans (System.leads_entry rfl hr hjs).any)

theorem entry_seat_empty {sessionCapacity roomCapacity workerCount : Nat}
    (h : Reach step Any (init sessionCapacity roomCapacity workerCount) s) {g k r : Nat}
    (hr : (s.srv.myRooms g)[k]? = some r) {js rest : List RoomJoinEntry} {e : RoomJoinEntry}
    (hjs : (s.srv.rooms r).pendingJoin = js ++ e :: rest) :
    (((js.foldl (Server.processJoin r) (s.srv.takeQueues r)).rooms r).members e.actorId).used =
      false := by
  have hc := consistent_entry h hr hjs
  have hnone := hc.seats.seat_empty hc.places (g := g) (Function.update_self ..)
  rw [← Room.seated_isSome]
  exact congrArg Option.isSome hnone

end Serial

/-- The seat ledger of every reachable state. -/
theorem seat_ledger {sessionCapacity roomCapacity workerCount : Nat} {s : Serial}
    (h : Reach Serial.step Any (Serial.init sessionCapacity roomCapacity workerCount) s) :
    (∀ r, r ∉ s.srv.freeRooms → (s.srv.rooms r).SeatsAgree) ∧
    (∀ idx gen r i gen' r' i', s.srv.HoldsSeat idx gen r i → s.srv.HoldsSeat idx gen' r' i' →
      r' = r ∧ i' = i) ∧
    (∀ idx gen r i, s.srv.HoldsSeat idx gen r i →
      (s.srv.sess idx).actorId = i.val ∧ (s.srv.sess idx).roomIdx = r) ∧
    ∀ (g k r : Nat) js e rest, (s.srv.myRooms g)[k]? = some r →
      (s.srv.rooms r).pendingJoin = js ++ e :: rest →
      (((js.foldl (Server.processJoin r) (s.srv.takeQueues r)).rooms r).members e.actorId).used =
        false := by
  have hs := Serial.consistent h
  refine ⟨fun r hr => Serial.seatsAgree hs hr, ?_, ?_, ?_⟩
  · intro idx gen r i gen' r' i' hold hold'
    exact Serial.holdsSeat_unique hs hold hold'
  · intro idx gen r i hold
    exact Serial.holdsSeat_place hs hold
  · intro g k r js e rest hr hjs
    exact Serial.entry_seat_empty h hr hjs

/-- One session has connected and joined; its entry is queued in room 0. -/
def joinedOnce : List Op := [.accept 0 5 true true true, .frame 0 0 [6, 0, 10, 0, 1, 0] 0, .drain 0]

theorem seat_ledger_joinedOnce :
    ∃ s, run Serial.step joinedOnce (Serial.init 2 2 1) = some s ∧
      (s.srv.rooms 0).SeatsAgree ∧ s.srv.HoldsSeat 0 0 0 firstSeat ∧
      ((s.srv.sess 0).actorId = 0 ∧ (s.srv.sess 0).roomIdx = 0) ∧
      (((s.srv.takeQueues 0).rooms 0).members firstSeat).used = false := by
  have hrun : (run Serial.step joinedOnce (Serial.init 2 2 1)).map
      (fun s => (s.srv.freeRooms, s.srv.myRooms 0, (s.srv.rooms 0).pendingJoin)) =
      some ([1], [0], [⟨0, 0, firstSeat⟩]) := by decide +kernel
  obtain ⟨s, hs, heq⟩ := Option.map_eq_some_iff.mp hrun
  simp only [Prod.mk.injEq] at heq
  obtain ⟨hfree, hmine, hpending⟩ := heq
  obtain ⟨hrooms, -, hplace, hempty⟩ := seat_ledger (reach_of_run hs)
  have hold : s.srv.HoldsSeat 0 0 0 firstSeat := Or.inr (by simp [hpending])
  exact ⟨s, hs, hrooms 0 (by simp [hfree]), hold, hplace 0 0 0 firstSeat hold,
    hempty 0 0 0 [] ⟨0, 0, firstSeat⟩ [] (by simp [hmine]) hpending⟩

end BeltServer
