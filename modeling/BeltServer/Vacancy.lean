import BeltServer.Isolation
import BeltServer.Transfer

/-!
# The list of open rooms

`_openRooms` is meant to hold the rooms with a free seat. `Join` and `TransferRoom` keep it so,
and so does `ProcessRoomQueues` as long as it frees no seat of a full room that lives on: a room
that was full is in the list no more, and nobody puts it back.
-/

namespace BeltServer

set_option autoImplicit false

open Runs SwapList

structure Room.Live (R : Room) : Prop where
  alive : R.dead = false
  reserved : 0 < R.reservedSeats

structure Room.Vacant (R : Room) : Prop extends R.Live where
  seats : R.reservedSeats < 4

theorem Room.seats_le {R : Room} (h : BookOk R.book) : R.reservedSeats ≤ 4 := by
  have hsum : R.reservedSeats = ((∑ i, (R.seatUsed i).toNat : Nat) : Int) := h.reserved
  have hle : ∑ i, (R.seatUsed i).toNat ≤ ∑ _i : Seat, 1 :=
    Finset.sum_le_sum fun i _ => Bool.toNat_le (R.seatUsed i)
  rw [hsum]
  exact_mod_cast hle

/-- The counter says whether there is a free seat. -/
theorem Room.seat_free_iff {R : Room} (h : BookOk R.book) :
    (∃ i, R.seatUsed i = false) ↔ R.reservedSeats < 4 := by
  have hsum : R.reservedSeats = ((∑ i, (R.seatUsed i).toNat : Nat) : Int) := h.reserved
  rw [hsum]
  constructor
  · rintro ⟨i, hi⟩
    have hlt : ∑ i, (R.seatUsed i).toNat < ∑ _i : Seat, 1 := by
      apply Finset.sum_lt_sum fun i _ => Bool.toNat_le (R.seatUsed i)
      exact ⟨i, Finset.mem_univ i, by rw [hi]; decide⟩
    exact_mod_cast hlt
  · intro hlt
    by_contra hnone
    have hone (i : Seat) : (R.seatUsed i).toNat = 1 := by
      cases hi : R.seatUsed i with
      | true => rfl
      | false => exact absurd ⟨i, hi⟩ hnone
    simp [hone] at hlt

namespace Server

def Listed (st : Server) : Prop := ∀ r, r ∈ st.openRooms ↔ (st.rooms r).Vacant

/-- What the list is about: the list, and the flags and counters of the rooms. -/
def board (st : Server) : List Nat × (Nat → Bool × Int) :=
  (st.openRooms, fun r => ((st.rooms r).dead, (st.rooms r).reservedSeats))

/-- The holder of the seat is on its way out when the queues of the room are processed: a join
entry whose session is gone, or a leave entry in the queue. -/
def Leaving (st : Server) (r : Nat) (i : Seat) : Prop :=
  (∃ e ∈ (st.rooms r).pendingJoin, e.actorId = i ∧
    (st.staleJoin e = true ∨ ⟨e.sessIdx, e.sessGen⟩ ∈ (st.rooms r).pendingLeave)) ∨
  ((st.rooms r).members i).used = true ∧
    ⟨((st.rooms r).members i).sessIdx, ((st.rooms r).members i).sessGen⟩ ∈
      (st.rooms r).pendingLeave

instance (st : Server) (r : Nat) (i : Seat) : Decidable (st.Leaving r i) :=
  inferInstanceAs (Decidable (_ ∨ _))

section Board
variable {st st' : Server}

theorem vacant_congr {R R' : Room} (hdead : R'.dead = R.dead)
    (hres : R'.reservedSeats = R.reservedSeats) : R'.Vacant ↔ R.Vacant := by
  constructor
  · intro h
    exact ⟨⟨hdead ▸ h.alive, hres ▸ h.reserved⟩, hres ▸ h.seats⟩
  · intro h
    exact ⟨⟨hdead ▸ h.alive, hres ▸ h.reserved⟩, hres ▸ h.seats⟩

theorem Listed.of_board (h : st.Listed) (hboard : st'.board = st.board) : st'.Listed := by
  intro r
  have hopen : st'.openRooms = st.openRooms := congrArg Prod.fst hboard
  have hroom := congrFun (congrArg Prod.snd hboard) r
  have hdead : (st'.rooms r).dead = (st.rooms r).dead := congrArg Prod.fst hroom
  have hres : (st'.rooms r).reservedSeats = (st.rooms r).reservedSeats := congrArg Prod.snd hroom
  rw [hopen, vacant_congr hdead hres]
  exact h r

theorem Listed.set (h : st.Listed) {r : Nat}
    (hopen : ∀ r', r' ≠ r → (r' ∈ st'.openRooms ↔ r' ∈ st.openRooms))
    (hrooms : ∀ r', r' ≠ r → (st'.rooms r').book = (st.rooms r').book)
    (hr : r ∈ st'.openRooms ↔ (st'.rooms r).Vacant) : st'.Listed := by
  intro r'
  rcases eq_or_ne r' r with rfl | hne
  · exact hr
  · have hroom := hrooms r' hne
    have hdead : (st'.rooms r').dead = (st.rooms r').dead := congrArg RoomBook.dead hroom
    have hres : (st'.rooms r').reservedSeats = (st.rooms r').reservedSeats :=
      congrArg RoomBook.reservedSeats hroom
    rw [hopen r' hne, vacant_congr hdead hres]
    exact h r'

theorem board_of_books (h : st'.books = st.books) : st'.board = st.board :=
  congrArg (fun b : Books => (b.openRooms, fun r => ((b.room r).dead, (b.room r).reservedSeats))) h

theorem board_modRoom (st : Server) (r : Nat) {f : Room → Room}
    (hdead : ∀ R, (f R).dead = R.dead) (hres : ∀ R, (f R).reservedSeats = R.reservedSeats) :
    (st.modRoom r f).board = st.board := by
  unfold board
  congr 1
  funext r'
  rcases eq_or_ne r' r with rfl | hr
  · have hself : (st.modRoom r' f).rooms r' = f (st.rooms r') := Function.update_self ..
    rw [hself, hdead, hres]
  · have hother : (st.modRoom r f).rooms r' = st.rooms r' := Function.update_of_ne hr ..
    rw [hother]

theorem board_accept (st : Server) (w : Nat) (fd : Int) (recvOk sendOk ctlOk : Bool) :
    (st.accept w fd recvOk sendOk ctlOk).board = st.board := by
  have hbooks (b : Books) (h : (st.accept w fd recvOk sendOk ctlOk).books = b)
      (hopen : b.openRooms = st.openRooms) (hroom : b.room = st.books.room) :
      (st.accept w fd recvOk sendOk ctlOk).board = st.board := by
    have hboard := congrArg (fun b : Books =>
      (b.openRooms, fun r => ((b.room r).dead, (b.room r).reservedSeats))) h
    rw [hopen, hroom] at hboard
    exact hboard
  rcases books_accept st w fd recvOk sendOk ctlOk with h | ⟨idx, _, h | h⟩
  · exact board_of_books h
  · exact hbooks _ h rfl rfl
  · exact hbooks _ h rfl rfl

theorem board_leavePush (st : Server) (r idx : Nat) : (st.leavePush r idx).board = st.board :=
  board_modRoom st r (fun _ => rfl) (fun _ => rfl)

theorem board_disconnect (st : Server) (w idx : Nat) : (st.disconnect w idx).board = st.board := by
  unfold disconnect
  split
  · rfl
  · unfold onSessionLeave leaveRead
    dsimp only
    split
    · rename_i h
      split at h
      · cases h
        rfl
      · cases h
    · rename_i h
      split at h
      · cases h
      · cases h
        exact board_leavePush ((st.cut idx).modSession idx fun s => { s with inRoom := false }) _ idx

theorem board_sendBytes (st : Server) (w idx : Nat) (m : Msg) :
    (st.sendBytes w idx m).board = st.board := by
  unfold sendBytes
  split
  · rename_i st' h
    exact board_of_books (books_enqueue h)
  · exact board_disconnect st.countFull w idx

end Board

/-! ### Join -/

section Join
variable {st : Server}

/-- The room at the back of the list is vacant: the search ends there. -/
theorem scanOpen_vacant {r : Nat} (hr : (st.rooms r).Vacant)
    (hbook : BookOk (st.rooms r).book) : ∃ i, (st.rooms r).seatUsed i = false ∧
      (st.scanOpen r).2 = some i ∧ (st.scanOpen r).1.books =
        { st.books.modRoom r (·.reserveSeat i) with
          openRooms := if (st.rooms r).reservedSeats + 1 = 4 then st.openRooms.dropLast
            else st.openRooms } := by
  rcases books_scanOpen st r with ⟨hnone, _⟩ | ⟨i, hsome, _, hfree, hbooks⟩
  · exfalso
    obtain ⟨i, hi⟩ := (Room.seat_free_iff hbook).mpr hr.seats
    unfold scanOpen at hnone
    dsimp only at hnone
    rw [hr.alive] at hnone
    cases hfirst : (st.rooms r).firstFree with
    | none =>
      have hno := List.find?_eq_none.mp hfirst i (List.mem_finRange i)
      simp [hi] at hno
    | some j =>
      simp only [hfirst] at hnone
      split at hnone
      · rename_i hdead
        cases hdead
      · split at hnone
        · cases hnone
        · cases hnone
  · exact ⟨i, hfree, hsome, hbooks⟩

theorem scanOpen_listed {r : Nat} (h : st.Listed) (hnodup : st.openRooms.Nodup)
    (hlast : st.openRooms.getLast? = some r) (hbook : BookOk (st.rooms r).book) :
    ∃ i, (st.scanOpen r).2 = some i ∧ (st.scanOpen r).1.Listed := by
  have hmem : r ∈ st.openRooms := List.mem_of_getLast? hlast
  have hr := (h r).mp hmem
  obtain ⟨i, _, hsome, hbooks⟩ := scanOpen_vacant hr hbook
  have hopen : (st.scanOpen r).1.openRooms =
      if (st.rooms r).reservedSeats + 1 = 4 then st.openRooms.dropLast else st.openRooms :=
    congrArg Books.openRooms hbooks
  have hroom (r' : Nat) : ((st.scanOpen r).1.rooms r').book =
      Function.update st.books.room r ((st.rooms r).book.reserveSeat i) r' :=
    congrFun (congrArg Books.room hbooks) r'
  have hself : ((st.scanOpen r).1.rooms r).book = (st.rooms r).book.reserveSeat i := by
    rw [hroom, Function.update_self]
  have hdead : ((st.scanOpen r).1.rooms r).dead = (st.rooms r).dead :=
    congrArg RoomBook.dead hself
  have hres : ((st.scanOpen r).1.rooms r).reservedSeats = (st.rooms r).reservedSeats + 1 :=
    congrArg RoomBook.reservedSeats hself
  have hback : st.openRooms.dropLast ++ [r] = st.openRooms := dropLast_append_of_getLast? hlast
  have hgone : r ∉ st.openRooms.dropLast := by
    intro hdrop
    rw [← hback, List.nodup_append] at hnodup
    exact hnodup.2.2 r hdrop r (List.mem_singleton_self r) rfl
  refine ⟨i, hsome, h.set (r := r) (fun r' hne => ?_) (fun r' hne => ?_) ?_⟩
  · rw [hopen]
    split
    · constructor
      · exact List.mem_of_mem_dropLast
      · intro hmem'
        rw [← hback] at hmem'
        rcases List.mem_append.mp hmem' with hdrop | hlast'
        · exact hdrop
        · exact absurd (List.mem_singleton.mp hlast') hne
    · exact Iff.rfl
  · rw [hroom, Function.update_of_ne hne]
    rfl
  · rw [hopen]
    split
    · rename_i hfull
      constructor
      · intro hdrop
        exact absurd hdrop hgone
      · intro hvacant
        have hlt := hvacant.seats
        omega
    · rename_i hfull
      refine ⟨fun _ => ⟨⟨?_, ?_⟩, ?_⟩, fun _ => hmem⟩
      · rw [hdead]
        exact hr.alive
      · have hpos := hr.reserved
        omega
      · have hlt := hr.seats
        omega

theorem board_joinAt (st : Server) (r idx : Nat) (i : Seat) : (st.joinAt r idx i).board = st.board :=
  board_modRoom { st with pool := st.pool.addRef idx } r
    (f := fun R => { R with pendingJoin := R.pendingJoin ++ [⟨idx, (st.sess idx).gen, i⟩] })
    (fun _ => rfl) (fun _ => rfl)

theorem openRoom_listed {r : Nat} {st₁ : Server} (h : st.Listed)
    (htake : st.takeSlot = some (r, st₁)) : (st₁.openRoom r).Listed := by
  obtain ⟨_, rfl⟩ := takeSlot_some htake
  let st₁ := ({ st with freeRooms := st.freeRooms.dropLast } : Server).modRoom r Room.reset
  have hself : (st₁.openRoom r).rooms r = { (((st₁.assign r st₁.leastLoaded).rooms r)) with
      seatUsed := Function.update ((st₁.assign r st₁.leastLoaded).rooms r).seatUsed firstSeat true
      everReserved := true
      reservedSeats := 1 } := Function.update_self ..
  have hnew : (st₁.assign r st₁.leastLoaded).rooms r =
      { st₁.rooms r with gameWorker := st₁.leastLoaded } := Function.update_self ..
  have hreset : st₁.rooms r = (st.rooms r).reset := Function.update_self ..
  have hopen : (st₁.openRoom r).openRooms = st.openRooms ++ [r] := rfl
  refine h.set (r := r) (fun r' hne => ?_) (fun r' hne => ?_) ?_
  · rw [hopen, List.mem_append, List.mem_singleton]
    simp [hne]
  · have hother : (st₁.openRoom r).rooms r' = (st₁.assign r st₁.leastLoaded).rooms r' :=
      Function.update_of_ne hne ..
    have hassign : (st₁.assign r st₁.leastLoaded).rooms r' = st₁.rooms r' :=
      Function.update_of_ne hne ..
    have hslot : st₁.rooms r' = st.rooms r' := Function.update_of_ne hne ..
    exact congrArg Room.book (hother.trans (hassign.trans hslot))
  · rw [hopen, hself, hnew, hreset]
    constructor
    · intro _
      have hlt : (1 : Int) < 4 := by decide
      exact ⟨⟨rfl, Int.one_pos⟩, hlt⟩
    · intro _
      exact List.mem_append_right _ (List.mem_singleton_self r)

/-- What `Join` does when there are workers. -/
inductive Joins (st : Server) (idx : Nat) : Prop where
  | seated (r : Nat) (i : Seat) (st₁ : Server) (hlast : st.openRooms.getLast? = some r)
      (hlisted : st₁.Listed) (hjoin : st.join idx = (st₁.joinAt r idx i, some (r, i)))
  | opened (r : Nat) (st₁ : Server) (_ : st.openRooms = []) (hlisted : (st₁.openRoom r).Listed)
      (hjoin : st.join idx = ((st₁.openRoom r).joinAt r idx firstSeat, some (r, firstSeat)))
  | refused (hnone : st.openRooms = []) (hfree : st.freeRooms = []) (hjoin : st.join idx = (st, none))

theorem join_joins (h : st.Listed) (hnodup : st.openRooms.Nodup)
    (hbook : ∀ r, BookOk (st.rooms r).book) (hworkers : st.workerCount ≠ 0) (idx : Nat) :
    st.Joins idx := by
  cases hback : st.openRooms.getLast? with
  | some r =>
    obtain ⟨i, hsome, hlisted⟩ := scanOpen_listed h hnodup hback (hbook r)
    have hrev : st.openRooms.reverse = r :: st.openRooms.dropLast.reverse := by
      rw [← dropLast_append_of_getLast? hback]
      simp
    refine .seated r i (st.scanOpen r).1 hback hlisted ?_
    have hscan : st.scanOpen r = ((st.scanOpen r).1, some i) := Prod.ext rfl hsome
    unfold join
    rw [if_neg hworkers, hrev, joinScan, hscan]
  | none =>
    have hnone : st.openRooms = [] := List.getLast?_eq_none_iff.mp hback
    cases htake : st.takeSlot with
    | some p =>
      obtain ⟨r, st₁⟩ := p
      refine .opened r st₁ hnone (openRoom_listed h htake) ?_
      unfold join
      rw [if_neg hworkers, hnone, List.reverse_nil, joinScan]
      simp only [htake]
    | none =>
      refine .refused hnone (List.getLast?_eq_none_iff.mp (takeSlot_none htake)) ?_
      unfold join
      rw [if_neg hworkers, hnone, List.reverse_nil, joinScan]
      simp only [htake]

end Join

/-! ### The queues of a room -/

section Loops
variable {r : Nat}

/-- What the two loops do to the room: seats are freed only. -/
structure Drains (R R' : Room) : Prop where
  dead : R'.dead = R.dead
  ever : R'.everReserved = R.everReserved
  joins : R'.pendingJoin = R.pendingJoin
  reserved : R'.reservedSeats ≤ R.reservedSeats

theorem Drains.refl (R : Room) : Drains R R := ⟨rfl, rfl, rfl, le_refl _⟩

theorem Drains.trans {R R' R'' : Room} (h : Drains R R') (h' : Drains R' R'') : Drains R R'' :=
  ⟨h'.dead.trans h.dead, h'.ever.trans h.ever, h'.joins.trans h.joins, h'.reserved.trans h.reserved⟩

theorem Drains.modRoom {st : Server} {f : Room → Room} (h : Drains (st.rooms r) (f (st.rooms r))) :
    Drains (st.rooms r) ((st.modRoom r f).rooms r) := by
  have hself : (st.modRoom r f).rooms r = f (st.rooms r) := Function.update_self ..
  rw [hself]
  exact h

theorem Drains.releaseSeat (R : Room) (i : Seat) : Drains R (R.releaseSeat i) := by
  refine ⟨rfl, rfl, rfl, ?_⟩
  have hless : (R.releaseSeat i).reservedSeats = R.reservedSeats - 1 := rfl
  omega

theorem processJoin_drains (st : Server) (e : RoomJoinEntry) :
    Drains (st.rooms r) ((st.processJoin r e).rooms r) := by
  unfold processJoin
  split
  · have hfreed := Drains.releaseSeat (st.rooms r) e.actorId
    exact Drains.modRoom (f := fun R => R.releaseSeat e.actorId) hfreed
  · apply Drains.modRoom
    exact ⟨rfl, rfl, rfl, le_refl _⟩

theorem processLeave_drains (st : Server) (e : RoomLeaveEntry) :
    Drains (st.rooms r) ((st.processLeave r e).rooms r) := by
  unfold processLeave
  split
  · rename_i i _
    have hfreed := Drains.releaseSeat ((st.rooms r).unseat i) i
    have hkept : Drains (st.rooms r) (((st.rooms r).unseat i).releaseSeat i) :=
      ⟨hfreed.dead, hfreed.ever, hfreed.joins, hfreed.reserved⟩
    exact Drains.modRoom (f := fun R => (R.unseat i).releaseSeat i) hkept
  · exact .refl _

theorem Drains.foldl {β : Type} {f : Server → β → Server}
    (hf : ∀ st b, Drains (st.rooms r) ((f st b).rooms r)) (bs : List β) (st : Server) :
    Drains (st.rooms r) ((bs.foldl f st).rooms r) := by
  induction bs generalizing st with
  | nil => exact .refl _
  | cons b bs ih => exact (hf st b).trans (ih (f st b))

theorem processEntries_drains (st : Server) (r : Nat) :
    Drains ((st.takeQueues r).rooms r) ((st.processEntries r).rooms r) :=
  (Drains.foldl processJoin_drains _ _).trans (Drains.foldl processLeave_drains _ _)

theorem processEntries_openRooms (st : Server) (r : Nat) :
    (st.processEntries r).openRooms = st.openRooms := by
  have hjoins (js : List RoomJoinEntry) (st : Server) :
      (js.foldl (processJoin r) st).openRooms = st.openRooms := by
    induction js generalizing st with
    | nil => rfl
    | cons e js ih =>
      refine (ih (st.processJoin r e)).trans ?_
      unfold processJoin
      split
      · rfl
      · rfl
  have hleaves (ls : List RoomLeaveEntry) (st : Server) :
      (ls.foldl (processLeave r) st).openRooms = st.openRooms := by
    induction ls generalizing st with
    | nil => rfl
    | cons l ls ih =>
      refine (ih (st.processLeave r l)).trans ?_
      unfold processLeave
      split
      · rfl
      · rfl
  exact (hleaves _ _).trans (hjoins _ _)

theorem processJoin_dead (st : Server) (e : RoomJoinEntry) (idx : Nat) :
    ((st.processJoin r e).sess idx).dead = (st.sess idx).dead := by
  unfold processJoin
  split
  · rcases eq_or_ne idx e.sessIdx with rfl | hne
    · have hslot : ((st.pool.release e.sessIdx).slots e.sessIdx).dead =
          (st.pool.slots e.sessIdx).dead := by
        rcases st.pool.release_cases e.sessIdx with ⟨_, h⟩ | ⟨_, h⟩
        all_goals
          rw [h]
          dsimp only
          rw [Function.update_self]
      exact hslot
    · exact congrArg Session.dead (SessionPool.release_slots_of_ne hne)
  · rfl

/-- A member after the join loop was there before, or sits in the name of a live entry. -/
theorem member_of_joins (js : List RoomJoinEntry) (st : Server) {i : Seat}
    (hu : (((js.foldl (processJoin r) st).rooms r).members i).used = true) :
    ((js.foldl (processJoin r) st).rooms r).members i = (st.rooms r).members i ∨
      ∃ e ∈ js, e.actorId = i ∧ (st.sess e.sessIdx).dead = false ∧
        (((js.foldl (processJoin r) st).rooms r).members i).sessIdx = e.sessIdx ∧
        (((js.foldl (processJoin r) st).rooms r).members i).sessGen = e.sessGen := by
  induction js generalizing st with
  | nil => exact Or.inl rfl
  | cons e js ih =>
    rcases ih (st.processJoin r e) hu with hsame | ⟨e', he', hseat, hlive, hkey⟩
    · rw [List.foldl_cons] at hu ⊢
      rw [hsame] at hu ⊢
      cases hstale : st.staleJoin e with
      | true =>
        have hskip : st.processJoin r e = (st.releaseSeat r e.actorId).release e.sessIdx := by
          unfold processJoin
          rw [hstale]
          rfl
        have hself : (st.releaseSeat r e.actorId).rooms r = (st.rooms r).releaseSeat e.actorId :=
          Function.update_self ..
        left
        rw [hskip]
        exact congrFun (congrArg Room.members hself) i
      | false =>
        have hseat : st.processJoin r e = st.seatMember r e := by
          unfold processJoin
          rw [hstale]
          rfl
        have hself : (st.seatMember r e).rooms r =
            (st.rooms r).seatMember e (st.sess e.sessIdx).owner := Function.update_self ..
        have hmembers : ((st.processJoin r e).rooms r).members =
            Function.update (st.rooms r).members e.actorId
              { used := true, sessIdx := e.sessIdx, sessGen := e.sessGen,
                sessOwner := (st.sess e.sessIdx).owner } := by
          rw [hseat, hself]
          rfl
        rw [hmembers]
        rcases eq_or_ne i e.actorId with rfl | hi
        · have hlive : (st.sess e.sessIdx).dead = false := by
            unfold staleJoin at hstale
            exact (Bool.or_eq_false_iff.mp hstale).2
          right
          refine ⟨e, List.mem_cons_self .., rfl, hlive, ?_, ?_⟩
          · rw [Function.update_self]
          · rw [Function.update_self]
        · exact Or.inl (Function.update_of_ne hi ..)
    · rw [processJoin_dead] at hlive
      exact Or.inr ⟨e', List.mem_cons_of_mem _ he', hseat, hlive, hkey⟩

/-- Live entries only: no seat is freed and no session touched. -/
theorem joins_of_live (js : List RoomJoinEntry) (st : Server)
    (hlive : ∀ e ∈ js, st.staleJoin e = false) :
    ((js.foldl (processJoin r) st).rooms r).reservedSeats = (st.rooms r).reservedSeats := by
  induction js generalizing st with
  | nil => rfl
  | cons e js ih =>
    have hfirst := hlive e (List.mem_cons_self ..)
    have hseated : st.processJoin r e = st.seatMember r e := by
      unfold processJoin
      rw [hfirst]
      rfl
    have hrest := ih (st.seatMember r e) fun e' he' => hlive e' (List.mem_cons_of_mem _ he')
    rw [List.foldl_cons, hseated, hrest]
    have hself : (st.seatMember r e).rooms r =
        (st.rooms r).seatMember e (st.sess e.sessIdx).owner := Function.update_self ..
    rw [hself]
    rfl

theorem leaves_of_none (ls : List RoomLeaveEntry) (st : Server)
    (hnone : ∀ l ∈ ls, (st.rooms r).findLeaver l = none) : ls.foldl (processLeave r) st = st := by
  induction ls with
  | nil => rfl
  | cons l ls ih =>
    have hfirst : st.processLeave r l = st := by
      unfold processLeave
      rw [hnone l (List.mem_cons_self ..)]
    rw [List.foldl_cons, hfirst]
    exact ih fun l' hl' => hnone l' (List.mem_cons_of_mem _ hl')

/-- A member that is still there after the leave loop was not asked to leave, as long as no
two members have the same session. -/
theorem stays_of_leaves (ls : List RoomLeaveEntry) (st : Server)
    (hone : ∀ i j, ((st.rooms r).members i).used = true → ((st.rooms r).members j).used = true →
      ((st.rooms r).members i).sessIdx = ((st.rooms r).members j).sessIdx → i = j) {i : Seat}
    (hu : (((ls.foldl (processLeave r) st).rooms r).members i).used = true) :
    ((st.rooms r).members i).used = true ∧
      ⟨((st.rooms r).members i).sessIdx, ((st.rooms r).members i).sessGen⟩ ∉ ls := by
  induction ls generalizing st with
  | nil => exact ⟨hu, List.not_mem_nil⟩
  | cons l ls ih =>
    rw [List.foldl_cons] at hu
    cases hfind : (st.rooms r).findLeaver l with
    | none =>
      have hskip : st.processLeave r l = st := by
        unfold processLeave
        rw [hfind]
      rw [hskip] at hu
      obtain ⟨hused, hrest⟩ := ih st hone hu
      refine ⟨hused, fun hmem => ?_⟩
      rcases List.mem_cons.mp hmem with rfl | hmem
      · have hno := List.find?_eq_none.mp hfind i (List.mem_finRange i)
        simp [hused] at hno
      · exact hrest hmem
    | some j =>
      have hmatch := List.find?_some hfind
      simp only [Bool.and_eq_true, beq_iff_eq] at hmatch
      have hleft : ((st.processLeave r l).rooms r).members = Function.update (st.rooms r).members j
          { (st.rooms r).members j with used := false } := by
        unfold processLeave
        rw [hfind]
        have hself : (st.unseat r j).rooms r = ((st.rooms r).unseat j).releaseSeat j :=
          Function.update_self ..
        exact congrArg Room.members hself
      have hkept (k : Seat) (hk : (((st.processLeave r l).rooms r).members k).used = true) :
          k ≠ j ∧ ((st.processLeave r l).rooms r).members k = (st.rooms r).members k := by
        rcases eq_or_ne k j with rfl | hkj
        · rw [hleft, Function.update_self] at hk
          cases hk
        · rw [hleft]
          exact ⟨hkj, Function.update_of_ne hkj ..⟩
      obtain ⟨hused, hrest⟩ := ih (st.processLeave r l) (fun k k' hk hk' hsess => by
        rw [(hkept k hk).2, (hkept k' hk').2] at hsess
        rw [(hkept k hk).2] at hk
        rw [(hkept k' hk').2] at hk'
        exact hone k k' hk hk' hsess) hu
      obtain ⟨hij, hmember⟩ := hkept i hused
      rw [hmember] at hused hrest
      refine ⟨hused, fun hmem => ?_⟩
      rcases List.mem_cons.mp hmem with rfl | hmem
      · exact hij (hone i j hused hmatch.1.1 hmatch.1.2.symm)
      · exact hrest hmem

end Loops

end Server

namespace Serial

/-! ### Processing a full room -/

theorem one_holder {R : Room} (h : R.SeatsAgree) {e : RoomJoinEntry} (he : e ∈ R.pendingJoin) :
    (R.members e.actorId).used = false ∧ ∀ e' ∈ R.pendingJoin, e'.actorId = e.actorId → e' = e := by
  have hone : (R.members e.actorId).used.toNat +
      R.pendingJoin.countP (fun e' => e'.actorId = e.actorId) ≤ 1 := (h.seats e.actorId).2
  have hpos : 0 < R.pendingJoin.countP fun e' => e'.actorId = e.actorId :=
    List.countP_pos_iff.mpr ⟨e, he, by simp⟩
  constructor
  · cases hu : (R.members e.actorId).used with
    | false => rfl
    | true =>
      rw [hu, Bool.toNat_true] at hone
      omega
  · intro e' he' hseat
    rw [List.countP_eq_length_filter] at hone
    have hmem : e ∈ R.pendingJoin.filter fun e' => e'.actorId = e.actorId :=
      List.mem_filter.mpr ⟨he, by simp⟩
    have hmem' : e' ∈ R.pendingJoin.filter fun e' => e'.actorId = e.actorId :=
      List.mem_filter.mpr ⟨he', by simpa using hseat⟩
    have hlen : (R.pendingJoin.filter fun e' => e'.actorId = e.actorId).length = 1 := by
      have hne := List.length_pos_of_mem hmem
      omega
    obtain ⟨x, hx⟩ := List.length_eq_one_iff.mp hlen
    rw [hx, List.mem_singleton] at hmem hmem'
    exact hmem'.trans hmem.symm

section Process
variable {s : Serial} (hc : ∀ t, System.Leads s.system t → Consistent t.ledger) {g k r : Nat}
  (hr : (s.srv.myRooms g)[k]? = some r)

def afterJoins (s : Serial) (r : Nat) : Server :=
  (s.srv.rooms r).pendingJoin.foldl (Server.processJoin r) (s.srv.takeQueues r)

theorem takeQueues_room (st : Server) (r : Nat) : (st.takeQueues r).rooms r =
    { st.rooms r with pendingJoin := [], pendingLeave := [] } := Function.update_self ..

theorem member_afterJoins {i : Seat} (hu : (((s.afterJoins r).rooms r).members i).used = true) :
    ((s.afterJoins r).rooms r).members i = (s.srv.rooms r).members i ∨
      ∃ e ∈ (s.srv.rooms r).pendingJoin, e.actorId = i ∧ (s.srv.sess e.sessIdx).dead = false ∧
        (((s.afterJoins r).rooms r).members i).sessIdx = e.sessIdx ∧
        (((s.afterJoins r).rooms r).members i).sessGen = e.sessGen := by
  have hmember := Server.member_of_joins (s.srv.rooms r).pendingJoin (s.srv.takeQueues r) hu
  rw [takeQueues_room] at hmember
  exact hmember

theorem reserved_of_none (hnone : ∀ i, ¬s.srv.Leaving r i) :
    ((s.srv.processEntries r).rooms r).reservedSeats = (s.srv.rooms r).reservedSeats := by
  have hjoins : ((s.afterJoins r).rooms r).reservedSeats = (s.srv.rooms r).reservedSeats := by
    refine (Server.joins_of_live _ _ fun e he => ?_).trans (by rw [takeQueues_room])
    have hlive : s.srv.staleJoin e = false := by
      cases hstale : s.srv.staleJoin e with
      | true => exact absurd (Or.inl ⟨e, he, rfl, Or.inl hstale⟩) (hnone e.actorId)
      | false => rfl
    exact hlive
  have hleaves : s.srv.processEntries r = s.afterJoins r := by
    apply Server.leaves_of_none
    intro l hl
    apply List.find?_eq_none.mpr
    intro i _ hmatch
    simp only [Bool.and_eq_true, beq_iff_eq] at hmatch
    obtain ⟨⟨hused, hidx⟩, hgen⟩ := hmatch
    have hu : (((s.afterJoins r).rooms r).members i).used = true := hused
    have hkey : ⟨(((s.afterJoins r).rooms r).members i).sessIdx,
        (((s.afterJoins r).rooms r).members i).sessGen⟩ ∈ (s.srv.rooms r).pendingLeave := by
      have hsame : l = ⟨(((s.afterJoins r).rooms r).members i).sessIdx,
          (((s.afterJoins r).rooms r).members i).sessGen⟩ := by
        cases l
        exact congrArg₂ RoomLeaveEntry.mk hidx.symm hgen.symm
      exact hsame ▸ hl
    rcases member_afterJoins hu with hsame | ⟨e, he, rfl, _, hidx', hgen'⟩
    · rw [hsame] at hu hkey
      exact hnone i (Or.inr ⟨hu, hkey⟩)
    · rw [hidx', hgen'] at hkey
      exact hnone e.actorId (Or.inl ⟨e, he, rfl, Or.inr hkey⟩)
  rw [hleaves]
  exact hjoins

include hc hr

theorem reserved_of_all (hall : ∀ i, s.srv.Leaving r i) :
    ((s.srv.processEntries r).rooms r).reservedSeats = 0 := by
  have hs := hc _ .refl
  have hfree : r ∉ s.srv.freeRooms := hs.places.not_free_of_mine (List.mem_of_getElem? hr)
  have hagree := seatsAgree hs hfree
  have hJ := hc _ (System.leads_entry rfl hr (List.append_nil _).symm)
  have hE := hc _ (System.leads_entries rfl hr)
  -- every member after the join loop is asked to leave
  have hasked (i : Seat) (hu : (((s.afterJoins r).rooms r).members i).used = true) :
      ⟨(((s.afterJoins r).rooms r).members i).sessIdx,
        (((s.afterJoins r).rooms r).members i).sessGen⟩ ∈ (s.srv.rooms r).pendingLeave := by
    rcases member_afterJoins hu with hsame | ⟨e, he, rfl, hlive, hidx, hgen⟩
    · rw [hsame] at hu ⊢
      rcases hall i with ⟨e, he, rfl, _⟩ | ⟨_, hkey⟩
      · have hno := (one_holder hagree he).1
        rw [hno] at hu
        cases hu
      · exact hkey
    · rw [hidx, hgen]
      obtain ⟨hno, honly⟩ := one_holder hagree he
      rcases hall e.actorId with ⟨e', he', hseat, hout⟩ | ⟨hu', _⟩
      · obtain rfl := honly e' he' hseat
        rcases hout with hstale | hkey
        · have hholder := hs.refs.holder r e' (mem_tokens.mpr (Or.inr he'))
          have hgen' : (s.srv.sess e'.sessIdx).gen = e'.sessGen := hholder.gen
          simp [Server.staleJoin, hgen', hlive] at hstale
        · exact hkey
      · rw [hno] at hu'
        cases hu'
  have hempty (i : Seat) : (((s.srv.processEntries r).rooms r).members i).used = false := by
    cases hu : (((s.srv.processEntries r).rooms r).members i).used with
    | false => rfl
    | true =>
      obtain ⟨hu', hstays⟩ := Server.stays_of_leaves (s.srv.rooms r).pendingLeave
        (s.afterJoins r) (fun i j hi hj hsess => ((System.used_unique hJ hj hi hsess).2)) hu
      exact absurd (hasked i hu') hstays
  -- no holder is left for any seat
  have hpending : ((s.srv.processEntries r).rooms r).pendingJoin = [] := by
    refine (Server.processEntries_drains s.srv r).joins.trans ?_
    rw [takeQueues_room]
  have hhand (g' : Nat) : (Function.update s.system.game g (.leaves k r []) g').handAt r = 0 := by
    rcases eq_or_ne g' g with rfl | hne
    · rw [Function.update_self]
      rfl
    · rw [Function.update_of_ne hne]
      rfl
  have hseats (i : Seat) : ((s.srv.processEntries r).rooms r).seatUsed i = false := by
    have hcount : seatCount (((s.srv.processEntries r).rooms r).book.members +
        (((s.srv.processEntries r).rooms r).pendingJoin : Multiset RoomJoinEntry) +
          (Function.update s.system.game g (.leaves k r [])
            ((s.srv.processEntries r).rooms r).gameWorker).handAt r) i + 0 =
        (((s.srv.processEntries r).rooms r).seatUsed i).toNat :=
      hE.seats.seats r (by rintro _ _ ⟨⟩) i
    rw [hhand, hpending, seatCount_add, seatCount_add, seatCount_members, Room.seated_isSome,
      hempty i] at hcount
    have hzero : (((s.srv.processEntries r).rooms r).seatUsed i).toNat = 0 := hcount.symm
    cases hseat : ((s.srv.processEntries r).rooms r).seatUsed i with
    | false => rfl
    | true =>
      rw [hseat] at hzero
      cases hzero
  have hreserved := (hE.seats.book r).reserved
  have hzero (i : Seat) : (((s.srv.processEntries r).rooms r).book.seatUsed i).toNat = 0 :=
    congrArg Bool.toNat (hseats i)
  have hsum : ((s.srv.processEntries r).rooms r).reservedSeats =
      ((∑ i, (((s.srv.processEntries r).rooms r).book.seatUsed i).toNat : Nat) : Int) := hreserved
  rw [hsum]
  simp [hzero]

/-- The room after both loops: vacant if it was, as long as no full room keeps some of its
players. -/
theorem listed_of_processEntries (h : s.srv.Listed)
    (hsettled : (s.srv.rooms r).reservedSeats = 4 →
      (∀ i, ¬s.srv.Leaving r i) ∨ ∀ i, s.srv.Leaving r i)
    (hkept : ((s.srv.processEntries r).rooms r).judgedEmpty = false) :
    r ∈ s.srv.openRooms ↔ ((s.srv.processEntries r).rooms r).Vacant := by
  have hbook := (hc _ .refl).seats.book r
  have hbook' := (hc _ (System.leads_entries rfl hr)).seats.book r
  have hdrains := Server.processEntries_drains s.srv r
  rw [takeQueues_room] at hdrains
  have hsum : (s.srv.rooms r).reservedSeats =
      ((∑ i, ((s.srv.rooms r).seatUsed i).toNat : Nat) : Int) := hbook.reserved
  have hsum' : ((s.srv.processEntries r).rooms r).reservedSeats =
      ((∑ i, (((s.srv.processEntries r).rooms r).seatUsed i).toNat : Nat) : Int) := hbook'.reserved
  have hmax : (s.srv.rooms r).reservedSeats ≤ 4 := Room.seats_le hbook
  have hless : ((s.srv.processEntries r).rooms r).reservedSeats ≤ (s.srv.rooms r).reservedSeats :=
    hdrains.reserved
  rw [h r]
  constructor
  · intro hvacant
    refine ⟨⟨hdrains.dead.trans hvacant.alive, ?_⟩, ?_⟩
    · by_contra hzero
      -- a room in use without a seat reserved is judged empty
      have hpos : 0 < ∑ i, ((s.srv.rooms r).seatUsed i).toNat := by
        have hreserved := hvacant.reserved
        omega
      obtain ⟨i, hi⟩ : ∃ i, (s.srv.rooms r).seatUsed i = true := by
        by_contra hnone
        have hall (i : Seat) : ((s.srv.rooms r).seatUsed i).toNat = 0 := by
          cases hseat : (s.srv.rooms r).seatUsed i with
          | false => rfl
          | true => exact absurd ⟨i, hseat⟩ hnone
        simp [hall] at hpos
      have hever : ((s.srv.processEntries r).rooms r).everReserved = true :=
        hdrains.ever.trans (hbook.alive i hi).1
      have hres : ((s.srv.processEntries r).rooms r).reservedSeats = 0 := by omega
      have hdead : ((s.srv.processEntries r).rooms r).dead = false :=
        hdrains.dead.trans hvacant.alive
      have hjoins : ((s.srv.processEntries r).rooms r).pendingJoin = [] := hdrains.joins
      simp [Room.judgedEmpty, hever, hres, hdead, hjoins] at hkept
    · exact lt_of_le_of_lt hless hvacant.seats
  · intro hvacant
    have hpos := hvacant.reserved
    refine ⟨⟨hdrains.dead.symm.trans hvacant.alive, by omega⟩, ?_⟩
    by_contra hfull
    have hfour : (s.srv.rooms r).reservedSeats = 4 := by omega
    rcases hsettled hfour with hnone | hall
    · have hsame := reserved_of_none (s := s) (r := r) hnone
      have hlt := hvacant.seats
      omega
    · have hzero := reserved_of_all hc hr hall
      omega

theorem process_listed (h : s.srv.Listed)
    (hsettled : (s.srv.rooms r).reservedSeats = 4 →
      (∀ i, ¬s.srv.Leaving r i) ∨ ∀ i, s.srv.Leaving r i) :
    (s.srv.processRoomQueues r).1.Listed := by
  have hspares : Spares (· = r) (fun _ => True) s.srv (s.srv.processEntries r) :=
    spares_processEntries rfl (fun _ _ => trivial) (fun _ _ => trivial)
  have hopen : (s.srv.processEntries r).openRooms = s.srv.openRooms :=
    Server.processEntries_openRooms s.srv r
  have hnodup : s.srv.openRooms.Nodup := (hc _ .refl).places.open_nodup
  unfold Server.processRoomQueues
  dsimp only
  cases hkept : ((s.srv.processEntries r).rooms r).judgedEmpty with
  | true =>
    have hspares' : Spares (· = r) (fun _ => True) s.srv
        (((s.srv.processEntries r).markDead r).freeDead r) := by
      have hmark : Spares (· = r) (fun _ => True) (s.srv.processEntries r)
          ((s.srv.processEntries r).markDead r) :=
        @Spares.modRoom (· = r) (fun _ => True) (s.srv.processEntries r) r rfl _
      exact ((hspares.trans hmark).trans (Spares.forgetRoom rfl)).trans (Spares.freeRoomIfDrained rfl)
    have hlist : (((s.srv.processEntries r).markDead r).freeDead r).openRooms =
        swapRemove s.srv.openRooms r := congrArg (swapRemove · r) hopen
    have hroom : ((((s.srv.processEntries r).markDead r).freeDead r).rooms r).dead = true := by
      have hmark : ((s.srv.processEntries r).markDead r).rooms r =
          { (s.srv.processEntries r).rooms r with dead := true } := Function.update_self ..
      have hgen : (((s.srv.processEntries r).markDead r).freeDead r).rooms r =
          { ((s.srv.processEntries r).markDead r).rooms r with
            gen := (((s.srv.processEntries r).markDead r).rooms r).gen + 1 } :=
        Function.update_self ..
      rw [hgen, hmark]
    simp only [if_true]
    refine h.set (r := r) (fun r' hne => hspares'.opened r' hne)
      (fun r' hne => congrArg Room.book (hspares'.rooms r' hne)) ?_
    constructor
    · intro hmem
      rw [hlist] at hmem
      exact absurd rfl ((mem_swapRemove hnodup).mp hmem).2
    · intro hvacant
      rw [hvacant.alive] at hroom
      cases hroom
  | false =>
    simp only [Bool.false_eq_true, if_false]
    refine h.set (r := r) (fun r' hne => hspares.opened r' hne)
      (fun r' hne => congrArg Room.book (hspares.rooms r' hne)) ?_
    rw [hopen]
    exact listed_of_processEntries hc hr h hsettled hkept

omit hc hr in
/-- The new room of a transfer is in the list when it has a seat to give, the old one is not. -/
theorem transfer_listed {st st' : Server} {nr : Nat} (h : st.Listed)
    (hlast : st.freeRooms.getLast? = some nr)
    (hne : nr ≠ r) (hmove : st.transferRoom r = (st', some nr))
    (hmoved : st.Transferred st' r nr) (hused : ∃ i, ((st.rooms r).members i).used = true) :
    st'.Listed := by
  have hspares : Spares (fun b => b = r ∨ b = nr) (fun _ => True) st (st.transferRoom r).1 := by
    refine spares_transferRoom (Or.inl rfl) (fun b hb => ?_) (fun _ _ => trivial) (fun _ _ => trivial)
    rw [hlast] at hb
    exact Or.inr (Option.some.inj hb).symm
  rw [hmove] at hspares
  intro b
  rcases eq_or_ne b r with rfl | hb
  · constructor
    · intro hmem
      exact absurd hmem hmoved.unlisted
    · intro hvacant
      have hdead := hmoved.closed.dead
      rw [hvacant.alive] at hdead
      cases hdead
  · rcases eq_or_ne b nr with rfl | hb'
    · rw [hmoved.listed]
      constructor
      · intro hlt
        refine ⟨⟨hmoved.room.alive, ?_⟩, hlt⟩
        obtain ⟨i, hu⟩ := hused
        have hseat := (hmoved.room.seats i).mpr (Or.inl hu)
        have hpos : 0 < (List.finRange 4).countP fun i => (st'.rooms b).seatUsed i :=
          List.countP_pos_iff.mpr ⟨i, List.mem_finRange i, hseat⟩
        rw [hmoved.room.reserved]
        exact_mod_cast hpos
      · exact fun hvacant => hvacant.seats
    · have hout : ¬(b = r ∨ b = nr) := fun hor => hor.elim hb hb'
      rw [hspares.opened b hout, hspares.rooms b hout]
      exact h b

theorem tick_listed (h : s.srv.Listed) : (s.srv.roomTick r).1.Listed := by
  have hbody : (s.srv.tickBody r).Listed := by
    apply h.of_board
    exact Server.board_of_books (Server.books_tickBody s.srv r)
  unfold Server.roomTick Server.exitCheckAndMaybeTransfer
  split
  · rename_i hexit
    have hticked : System.step (.tick g k) s.system =
        some ({ s.system with srv := s.srv.tickBody r }.setGame g (.exit k r)) := by
      have hr' : (s.system.srv.myRooms g)[k]? = some r := hr
      have hidle : s.system.game g = .idle := rfl
      simp only [System.step, hr', hidle, if_true]
      exact congrArg some (if_pos hexit)
    have ht := hc _ (.single (a := .tick g k) trivial hticked)
    have hmine : ((s.srv.tickBody r).myRooms g)[k]? = some r := by
      have hlist := congrArg Books.myRooms (Server.books_tickBody s.srv r)
      exact (congrArg (fun m : Nat → List Nat => (m g)[k]?) hlist).trans hr
    have hfree : r ∉ (s.srv.tickBody r).freeRooms :=
      ht.places.not_free_of_mine (g := g) (List.mem_of_getElem? hmine)
    have hnodup : (s.srv.tickBody r).openRooms.Nodup := ht.places.open_nodup
    have hholds : (s.srv.tickBody r).Holds r := System.holds ht r
    cases hlast : (s.srv.tickBody r).freeRooms.getLast? with
    | none =>
      have hnone : (s.srv.tickBody r).transferRoom r = (s.srv.tickBody r, none) := by
        unfold Server.transferRoom Server.takeSlot
        rw [hlast]
      rw [hnone]
      exact hbody
    | some nr =>
      have hmem := List.mem_of_getLast? hlast
      have hne : nr ≠ r := ne_of_mem_of_not_mem hmem hfree
      have hnr : nr ∉ (s.srv.tickBody r).openRooms := fun hopen =>
        (ht.places.open_placed nr hopen).2.1 hmem
      obtain ⟨st', hmove, hmoved⟩ := Server.transferRoom_transferred hne hnodup hnr hholds hlast
      rw [hmove]
      refine transfer_listed hbody hlast hne hmove hmoved ?_
      by_contra hnobody
      have hcount : ((s.srv.tickBody r).rooms r).memberCount =
          (((s.srv.tickBody r).rooms r).book.heads : Int) := ht.heads.count r rfl
      have hzero : ((s.srv.tickBody r).rooms r).book.heads = 0 := by
        refine Finset.sum_eq_zero fun i _ => ?_
        rw [Room.seated_isSome]
        cases hu : (((s.srv.tickBody r).rooms r).members i).used with
        | false => rfl
        | true => exact absurd ⟨i, hu⟩ hnobody
      rw [hzero] at hcount
      simp [Room.exitReady, hcount] at hexit
  · exact hbody

end Process

/-- A full room that is processed keeps all its players or loses them all. -/
def Settled : Op → Serial → Prop
  | .process g k, s => ∀ r, (s.srv.myRooms g)[k]? = some r → (s.srv.rooms r).reservedSeats = 4 →
      (∀ i, ¬s.srv.Leaving r i) ∨ ∀ i, s.srv.Leaving r i
  | _, _ => True

def settles : Op → Serial → Bool
  | .process g k, s =>
    match (s.srv.myRooms g)[k]? with
    | some r => decide ((s.srv.rooms r).reservedSeats = 4 →
        (∀ i, ¬s.srv.Leaving r i) ∨ ∀ i, s.srv.Leaving r i)
    | none => true
  | _, _ => true

theorem settles_sound (a : Op) (s : Serial) (h : settles a s = true) : Settled a s := by
  cases a with
  | process g k =>
    intro r hr
    simp only [settles, hr, decide_eq_true_eq] at h
    exact h
  | _ => trivial

theorem frame_listed {s : Serial} (hs : Consistent s.system.ledger) (h : s.srv.Listed) (w idx : Nat)
    (d : Server.Dispatched) : (s.frame w idx d).srv.Listed := by
  cases d with
  | send m => exact h.of_board (Server.board_sendBytes s.srv w idx m)
  | join =>
    unfold frame
    dsimp only
    rcases eq_or_ne s.srv.workerCount 0 with hzero | hworkers
    · have hnone : s.srv.join idx = (s.srv, none) := by
        unfold Server.join
        rw [if_pos hzero]
      rw [hnone]
      exact h.of_board (Server.board_sendBytes s.srv w idx _)
    · cases Server.join_joins h hs.places.open_nodup hs.seats.book hworkers idx with
      | seated r i st₁ _ hlisted hjoin =>
        rw [hjoin]
        exact hlisted.of_board (Server.board_joinAt st₁ r idx i)
      | opened r st₁ _ hlisted hjoin =>
        rw [hjoin]
        exact hlisted.of_board (Server.board_joinAt (st₁.openRoom r) r idx firstSeat)
      | refused _ _ hjoin =>
        rw [hjoin]
        exact h.of_board (Server.board_sendBytes s.srv w idx _)
  | input r c => exact h.of_board (Server.board_of_books (Server.books_inputPush s.srv r c))
  | ignore => exact h
  | disconnect => exact h.of_board (Server.board_disconnect s.srv w idx)

theorem step_listed {s t : Serial} (hc : ∀ t, System.Leads s.system t → Consistent t.ledger)
    (h : s.srv.Listed) {a : Op} (hok : Settled a s) (ht : step a s = some t) : t.srv.Listed := by
  cases a with
  | accept w fd recvOk sendOk ctlOk =>
    simp only [step] at ht
    split at ht <;> cases ht
    exact h.of_board (Server.board_accept s.srv w fd recvOk sendOk ctlOk)
  | frame w idx f remainUs =>
    simp only [step] at ht
    split at ht <;> cases ht
    exact frame_listed (hc _ .refl) h w idx _
  | joinOk w =>
    simp only [step] at ht
    split at ht <;> cases ht
    exact h.of_board (Server.board_sendBytes s.srv w _ _)
  | disconnect w idx =>
    simp only [step] at ht
    split at ht <;> cases ht
    exact h.of_board (Server.board_disconnect s.srv w idx)
  | flush w idx n =>
    simp only [step] at ht
    split at ht <;> cases ht
    exact h.of_board rfl
  | drain g =>
    cases ht
    exact h.of_board rfl
  | process g k =>
    simp only [step] at ht
    split at ht
    · rename_i r hr
      have hlisted := process_listed hc hr h (hok r hr)
      split at ht
      all_goals
        rename_i st hprocess
        cases ht
        rw [hprocess] at hlisted
        exact hlisted.of_board rfl
    · cases ht
  | tick g k =>
    simp only [step] at ht
    split at ht
    · rename_i r hr
      have hlisted := tick_listed hc hr h
      split at ht
      all_goals
        rename_i hticked
        cases ht
        rw [hticked] at hlisted
        exact hlisted.of_board rfl
    · cases ht

theorem listed_run {sessionCapacity roomCapacity workerCount : Nat} {s : Serial}
    (h : Reach step Settled (init sessionCapacity roomCapacity workerCount) s) : s.srv.Listed := by
  refine h.invariant (P := fun s => s.srv.Listed) (fun r => ?_) fun s a t hreach hs hok ht => ?_
  · constructor
    · intro hmem
      cases hmem
    · intro hvacant
      exact absurd hvacant.reserved (lt_irrefl 0)
  · exact step_listed (fun t ht' => System.consistent ((reach_system hreach).trans ht'.any)) hs hok ht

end Serial

/-- The open rooms of every state that is reached without freeing some, but not all, of the seats
of a full room. -/
theorem open_rooms {sessionCapacity roomCapacity workerCount : Nat} {s : Serial}
    (h : Reach Serial.step Serial.Settled
      (Serial.init sessionCapacity roomCapacity workerCount) s) :
    (s.srv.openRooms.Nodup ∧ ∀ r, (s.srv.rooms r).Live →
      (r ∈ s.srv.openRooms ↔ ∃ i, (s.srv.rooms r).seatUsed i = false)) ∧
    (s.srv.workerCount ≠ 0 → ∀ idx,
      (∀ st r i, s.srv.join idx = (st, some (r, i)) → r ∈ s.srv.freeRooms →
        ∀ r', (s.srv.rooms r').Live → ∀ j, (s.srv.rooms r').seatUsed j = true) ∧
      ∀ st, s.srv.join idx = (st, none) → s.srv.freeRooms = [] ∧
        ∀ r', (s.srv.rooms r').Live → ∀ j, (s.srv.rooms r').seatUsed j = true) := by
  have hlisted := Serial.listed_run h
  have hs := Serial.consistent h
  have hiff (r : Nat) (hlive : (s.srv.rooms r).Live) :
      r ∈ s.srv.openRooms ↔ ∃ i, (s.srv.rooms r).seatUsed i = false := by
    have hfree := Room.seat_free_iff (R := s.srv.rooms r) (hs.seats.book r)
    rw [hfree, hlisted r]
    exact ⟨fun hvacant => hvacant.seats, fun hlt => ⟨hlive, hlt⟩⟩
  have hfull (hnone : s.srv.openRooms = []) (r : Nat) (hlive : (s.srv.rooms r).Live) (j : Seat) :
      (s.srv.rooms r).seatUsed j = true := by
    cases hj : (s.srv.rooms r).seatUsed j with
    | true => rfl
    | false =>
      have hmem := (hiff r hlive).mpr ⟨j, hj⟩
      rw [hnone] at hmem
      cases hmem
  refine ⟨⟨hs.places.open_nodup, hiff⟩, fun hworkers idx => ?_⟩
  cases Server.join_joins hlisted hs.places.open_nodup hs.seats.book hworkers idx with
  | seated r i st₁ hlast _ hjoin =>
    constructor
    · intro st r' i' hres hfree
      rw [hjoin] at hres
      cases hres
      exact absurd hfree (hs.places.open_placed r (List.mem_of_getLast? hlast)).2.1
    · intro st hres
      rw [hjoin] at hres
      cases hres
  | opened r st₁ hnone _ hjoin =>
    constructor
    · intro st r' i' _ _
      exact hfull hnone
    · intro st hres
      rw [hjoin] at hres
      cases hres
  | refused hnone hfree hjoin =>
    constructor
    · intro st r' i' hres _
      rw [hjoin] at hres
      cases hres
    · intro st _
      exact ⟨hfree, hfull hnone⟩

/-- Four players fill a room, and their entries are processed. -/
def fullHouse : List Op :=
  List.replicate 6 (.accept 0 5 true true true) ++
    ((List.range 4).flatMap fun idx => [.frame 0 idx [6, 0, 10, 0, 1, 0] 0, .joinOk 0]) ++
    [.drain 0, .process 0 0]

theorem open_rooms_fullHouse : ∃ s,
    runIf Serial.step Serial.settles fullHouse (Serial.init 8 2 1) = some s ∧
    (s.srv.rooms 0).reservedSeats = 4 ∧ (0 ∈ s.srv.openRooms ↔
      ∃ i, (s.srv.rooms 0).seatUsed i = false) := by
  have hrun : (runIf Serial.step Serial.settles fullHouse (Serial.init 8 2 1)).map (fun s =>
      ((s.srv.rooms 0).dead, (s.srv.rooms 0).reservedSeats)) = some (false, 4) := by decide +kernel
  obtain ⟨s, hs, hproj⟩ := Option.map_eq_some_iff.mp hrun
  simp only [Prod.mk.injEq] at hproj
  have hlive : (s.srv.rooms 0).Live := ⟨hproj.1, by rw [hproj.2]; decide⟩
  exact ⟨s, hs, hproj.2, (open_rooms (reach_of_runIf Serial.settles_sound hs)).1.2 0 hlive⟩

/-- One of the four leaves: its seat is free, the room is not in the list, and the next player is
given a room of its own. -/
theorem seat_lost : ∃ s, run Serial.step (fullHouse ++ [.disconnect 0 0, .process 0 0])
      (Serial.init 8 2 1) = some s ∧
    (s.srv.rooms 0).Live ∧ (s.srv.rooms 0).seatUsed firstSeat = false ∧ 0 ∉ s.srv.openRooms ∧
    1 ∈ s.srv.freeRooms ∧ (s.srv.join 4).2 = some (1, firstSeat) := by
  have hrun : (run Serial.step (fullHouse ++ [.disconnect 0 0, .process 0 0])
      (Serial.init 8 2 1)).map (fun s =>
        (((s.srv.rooms 0).dead, (s.srv.rooms 0).reservedSeats, (s.srv.rooms 0).seatUsed firstSeat),
          s.srv.openRooms, s.srv.freeRooms, (s.srv.join 4).2)) =
      some ((false, 3, false), [], [1], some (1, firstSeat)) := by decide +kernel
  obtain ⟨s, hs, hproj⟩ := Option.map_eq_some_iff.mp hrun
  simp only [Prod.mk.injEq] at hproj
  obtain ⟨⟨hdead, hres, hseat⟩, hopen, hfree, hjoin⟩ := hproj
  refine ⟨s, hs, ⟨hdead, by rw [hres]; decide⟩, hseat, ?_, ?_, hjoin⟩
  · rw [hopen]
    exact List.not_mem_nil
  · rw [hfree]
    exact List.mem_singleton_self 1

end BeltServer
