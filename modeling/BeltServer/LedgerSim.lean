import BeltServer.Ledger

/-!
# The machine refines the ledger

The books of each section, then of each step: whatever the machine does is a transition of
the ledger or leaves it alone.
-/

namespace BeltServer

set_option autoImplicit false

open SwapList

/-! ### Rooms -/

namespace Room

theorem book_of_members {R R' : Room} (h : R' = { R with members := R'.members, inQ := R'.inQ })
    (hm : ∀ i, (R'.members i).used = (R.members i).used ∧
      (R'.members i).sessIdx = (R.members i).sessIdx ∧
      (R'.members i).sessGen = (R.members i).sessGen) : R'.book = R.book := by
  rw [h]
  simp only [book, RoomBook.mk.injEq, true_and, and_true]
  funext i
  obtain ⟨hu, hs, hg⟩ := hm i
  rw [hu, hs, hg]

theorem route_book (R : Room) (c : InputCmd) : (R.route c).1.book = R.book := by
  unfold route
  split
  · dsimp only
    split
    · rfl
    · apply book_of_members rfl
      intro i
      dsimp only
      by_cases hi : i = ⟨c.actorId, by assumption⟩
      · subst hi
        simpa using Member.push_identity _ c
      · rw [Function.update_of_ne hi]
        exact ⟨rfl, rfl, rfl⟩
  · rfl

theorem routeAll_book (R : Room) (cs : List InputCmd) (drops : Nat) :
    (R.routeAll cs drops).1.book = R.book := by
  induction cs generalizing R drops with
  | nil => rfl
  | cons c cs ih => exact (ih _ _).trans (route_book R c)

theorem consumeAll_book (R : Room) : R.consumeAll.book = R.book := by
  apply book_of_members rfl
  intro i
  unfold consumeAll
  dsimp only
  split
  · exact Member.consume_identity _
  · exact ⟨rfl, rfl, rfl⟩

theorem simulate_book (R : Room) : R.simulate.book = R.book := by
  simp only [book, simulate, simStep_present]
  rfl

/-- A tick changes nobody's seat. -/
theorem step_book (R : Room) : R.step.book = R.book := by
  unfold step
  rw [simulate_book, consumeAll_book]
  exact routeAll_book _ _ _

/-- A member's record and actor arrive at its seat. -/
theorem moveIn_book (R : Room) {m : Member} (hm : m.used = true) (i : Seat) (a : SimActor) :
    ({ R with
        members := Function.update R.members i m
        world := { R.world with
          actors := Function.update R.world.actors (slotOf i) (a.spawnPlayer i) } } : Room).book =
      R.book.moveIn i ⟨m.sessIdx, m.sessGen⟩ := by
  simp only [book, RoomBook.moveIn, RoomBook.mk.injEq, true_and]
  constructor
  · funext j
    by_cases hj : j = i
    · subst hj
      simp [hm]
    · simp [Function.update_of_ne hj]
  · funext j
    by_cases hj : j = i
    · subst hj
      simp [SimActor.spawnPlayer]
    · have hslot : slotOf j ≠ slotOf i := fun hs => hj (Fin.castLE_injective _ hs)
      simp [Function.update_of_ne hj, Function.update_of_ne hslot]

theorem seatMember_book (R : Room) (e : RoomJoinEntry) (owner : Nat) :
    (R.seatMember e owner).book = R.book.seat e := by
  have h := moveIn_book R (m := ⟨true, e.sessIdx, e.sessGen, owner, fun _ => {}, 0, 0, {}, 0, 0⟩)
    rfl e.actorId (R.world.actors (slotOf e.actorId))
  simp only [book, RoomBook.moveIn, RoomBook.mk.injEq, true_and] at h
  simp only [book, seatMember, RoomBook.seat, RoomBook.mk.injEq, true_and]
  exact h

theorem unseat_book (R : Room) (i : Seat) :
    ((R.unseat i).releaseSeat i).book = R.book.unseat i := by
  simp only [book, unseat, releaseSeat, RoomBook.unseat, RoomBook.mk.injEq, true_and]
  constructor
  · funext j
    by_cases hj : j = i
    · subst hj
      simp
    · simp [Function.update_of_ne hj]
  · funext j
    by_cases hj : j = i
    · subst hj
      simp
    · have hslot : slotOf j ≠ slotOf i := fun hs => hj (Fin.castLE_injective _ hs)
      simp [Function.update_of_ne hj, Function.update_of_ne hslot]

theorem moveOut_book (R : Room) (m : Member) (i : Seat) :
    ({ R with members := Function.update R.members i { m with used := false } } : Room).book =
      R.book.moveOut i := by
  simp only [book, RoomBook.moveOut, RoomBook.mk.injEq, true_and, and_true]
  funext j
  by_cases hj : j = i
  · subst hj
    simp
  · simp [Function.update_of_ne hj]

theorem findLeaver_book (R : Room) (e : RoomLeaveEntry) : R.book.findLeaver e = R.findLeaver e := by
  unfold findLeaver RoomBook.findLeaver
  congr 1
  funext i
  rcases e with ⟨idx, gen⟩
  simp only [book]
  cases (R.members i).used <;> simp [RoomLeaveEntry.mk.injEq, Bool.beq_eq_decide_eq]

end Room

/-! ### Sections -/

namespace Server

theorem books_modRoom {s : Server} {r : Nat} {f : Room → Room} {F : RoomBook → RoomBook}
    (h : (f (s.rooms r)).book = F (s.rooms r).book) :
    (s.modRoom r f).books = s.books.modRoom r F := by
  simp only [books, modRoom, Books.modRoom, Books.mk.injEq, true_and, ← h]
  refine ⟨?_, rfl⟩
  funext r'
  by_cases hr : r' = r
  · subst hr
    simp
  · simp [Function.update_of_ne hr]

theorem modRoom_modRoom (st : Server) (r : Nat) (f g : Room → Room) :
    (st.modRoom r f).modRoom r g = st.modRoom r fun R => g (f R) := by
  simp [modRoom]

theorem books_modSession {s : Server} {j : Nat} {f : Session → Session}
    {F : SessBook → SessBook} (h : (f (s.sess j)).book = F (s.sess j).book) :
    (s.modSession j f).books = s.books.modSess j F := by
  simp only [books, modSession, sess, SessionPool.mod, Books.modSess, Books.mk.injEq, true_and] at h ⊢
  simp only [← h]
  funext k
  by_cases hk : k = j
  · subst hk
    simp
  · simp [Function.update_of_ne hk]

theorem books_modRoom_of_eq {s : Server} {r : Nat} {f : Room → Room}
    (h : (f (s.rooms r)).book = (s.rooms r).book) : (s.modRoom r f).books = s.books := by
  rw [books_modRoom (F := id) h]
  simp [Books.modRoom]

theorem books_modSession_of_eq {s : Server} {j : Nat} {f : Session → Session}
    (h : (f (s.sess j)).book = (s.sess j).book) :
    (s.modSession j f).books = s.books := by
  rw [books_modSession (F := id) h]
  simp [Books.modSess]

theorem books_enqueue {st st' : Server} {idx : Nat} {m : Msg} (h : st.enqueue idx m = some st') :
    st'.books = st.books := by
  obtain ⟨q, _, rfl⟩ := Option.map_eq_some_iff.mp h
  exact books_modSession_of_eq rfl

theorem books_sendSnapshot (st : Server) (r : Nat) (snap : Snapshot) (i : Seat) :
    (st.sendSnapshot r snap i).books = st.books := by
  unfold sendSnapshot
  dsimp only
  split
  · rfl
  · split
    · rename_i st' h
      exact (books_enqueue h : st'.books = st.books)
    · rfl

theorem books_tickBody (st : Server) (r : Nat) : (st.tickBody r).books = st.books := by
  have hroom : (st.modRoom r Room.step).books = st.books := books_modRoom_of_eq (Room.step_book _)
  have hsend (is : List Seat) (snap : Snapshot) (st' : Server) :
      (is.foldl (fun st' i => st'.sendSnapshot r snap i) st').books = st'.books := by
    induction is generalizing st' with
    | nil => rfl
    | cons i is ih => exact (ih _).trans (books_sendSnapshot st' r snap i)
  unfold tickBody
  dsimp only
  split
  · rw [hsend]
    exact hroom
  · exact hroom

theorem books_announceSeat (st : Server) (nr : Nat) (i : Seat) :
    (st.announceSeat nr i).books = st.books := by
  unfold announceSeat
  dsimp only
  split
  · rfl
  · split
    · rename_i st' h
      exact (books_enqueue h : st'.books = st.books)
    · rfl

theorem books_announce (st : Server) (nr : Nat) : (st.announce nr).books = st.books := by
  unfold announce
  generalize List.finRange 4 = is
  induction is generalizing st with
  | nil => rfl
  | cons i is ih => exact (ih _).trans (books_announceSeat st nr i)

theorem books_inputPush (st : Server) (r : Nat) (c : InputCmd) :
    (st.inputPush r c).books = st.books :=
  books_modRoom_of_eq (s := st) (r := r) (f := fun R => { R with inQ := R.inQ ++ [c] }) rfl

theorem books_release (st : Server) (idx : Nat) :
    (st.release idx).books = st.books.release idx := by
  unfold Server.release Books.release
  rcases st.pool.release_cases idx with ⟨hone, h⟩ | ⟨hne, h⟩ <;> rw [h]
  · have hrefs : (st.books.sess idx).refs = 1 := hone
    rw [if_pos hrefs, ← books_modSession
      (f := fun s => { s with refs := 0, gen := s.gen + 1 })]
    · rfl
    · simp [Session.book, SessBook.released, sess, hone]
  · have hrefs : (st.books.sess idx).refs ≠ 1 := hne
    rw [if_neg hrefs, ← books_modSession (f := fun s => { s with refs := s.refs - 1 })]
    · rfl
    · simp [Session.book, SessBook.released, sess, hne]

theorem books_dropNetRef (st : Server) (w idx : Nat) :
    (st.dropNetRef w idx).books = (st.books.dropSession w idx).release idx :=
  books_release { st with
    mySessions := Function.update st.mySessions w (swapRemove (st.mySessions w) idx) } idx

theorem takeSlot_none {st : Server} (h : st.takeSlot = none) : st.freeRooms.getLast? = none := by
  unfold takeSlot at h
  split at h
  · assumption
  · cases h

theorem takeSlot_some {st st' : Server} {r : Nat} (h : st.takeSlot = some (r, st')) :
    st.freeRooms.getLast? = some r ∧
      st' = ({ st with freeRooms := st.freeRooms.dropLast }).modRoom r Room.reset := by
  unfold takeSlot at h
  split at h
  · cases h
  · rename_i r' hlast
    cases h
    exact ⟨hlast, rfl⟩

theorem books_takeSlot {st st' : Server} {r : Nat} (h : st.takeSlot = some (r, st')) (g : Nat) :
    (st'.assign r g).books =
      { st.books with freeRooms := st.books.freeRooms.dropLast }.modRoom r (·.fresh g) := by
  obtain ⟨_, rfl⟩ := takeSlot_some h
  have hassign : ∀ st : Server, (st.assign r g).books =
      (st.modRoom r fun R => { R with gameWorker := g }).books := fun _ => rfl
  rw [hassign, modRoom_modRoom]
  refine books_modRoom (s := { st with freeRooms := st.freeRooms.dropLast }) ?_
  simp only [Room.book, Room.reset, RoomBook.fresh, RoomBook.mk.injEq, true_and]
  refine ⟨rfl, ?_⟩
  funext i
  have hi : (slotOf i).val < 4 := i.isLt
  simp [resetWorld, hi]

theorem takeSlot_gameWorker {st st' : Server} {r : Nat} (h : st.takeSlot = some (r, st'))
    (r' : Nat) : (st'.rooms r').gameWorker = (st.rooms r').gameWorker := by
  obtain ⟨_, rfl⟩ := takeSlot_some h
  by_cases hr : r' = r
  · subst hr
    simp [modRoom, Room.reset]
  · simp [modRoom, Function.update_of_ne hr]

/-- One turn of the search loop: the room is dropped from the list, or a seat is taken. -/
theorem books_scanOpen (st : Server) (r : Nat) :
    ((st.scanOpen r).2 = none ∧
      (st.scanOpen r).1.books = { st.books with openRooms := st.books.openRooms.dropLast }) ∨
    ∃ i, (st.scanOpen r).2 = some i ∧ (st.rooms r).dead = false ∧
      (st.rooms r).seatUsed i = false ∧
      (st.scanOpen r).1.books =
        { st.books.modRoom r (·.reserveSeat i) with
          openRooms := if (st.rooms r).reservedSeats + 1 = 4 then st.books.openRooms.dropLast
            else st.books.openRooms } := by
  unfold scanOpen
  dsimp only
  split
  · exact Or.inl ⟨rfl, rfl⟩
  · rename_i halive
    split
    · exact Or.inl ⟨rfl, rfl⟩
    · rename_i i hfree
      have hdead : (st.rooms r).dead = false := by simpa using halive
      have hseat : (st.rooms r).seatUsed i = false := by simpa using List.find?_some hfree
      have hres : ((st.rooms r).reserveSeat i).reservedSeats = (st.rooms r).reservedSeats + 1 := rfl
      refine Or.inr ⟨i, ?_⟩
      rw [hres]
      split
      · exact ⟨rfl, hdead, hseat, books_modRoom (s := { st with openRooms := st.openRooms.dropLast })
          (r := r) (f := fun R => R.reserveSeat i) (F := (·.reserveSeat i)) rfl⟩
      · exact ⟨rfl, hdead, hseat, books_modRoom (s := st) (r := r) (f := fun R => R.reserveSeat i)
          (F := (·.reserveSeat i)) rfl⟩

theorem books_openFirst (st : Server) (r : Nat) :
    (st.openFirst r).books =
      { st.books.modRoom r (·.openFirst) with openRooms := st.books.openRooms ++ [r] } := by
  have h : (st.openFirst r).books = { (st.modRoom r fun R =>
      { R with
        seatUsed := Function.update R.seatUsed firstSeat true
        everReserved := true
        reservedSeats := 1 }).books with openRooms := st.books.openRooms ++ [r] } := rfl
  rw [h, books_modRoom (F := RoomBook.openFirst) rfl]

theorem books_pushJoin (st : Server) (r idx : Nat) (i : Seat) :
    (st.pushJoin r idx i).books =
      (st.books.modSess idx (·.addRef)).modRoom r (·.pushJoin ⟨idx, (st.sess idx).gen, i⟩) := by
  have h : ({ st with pool := st.pool.addRef idx } : Server).books =
      st.books.modSess idx (·.addRef) :=
    books_modSession (f := fun s => { s with refs := s.refs + 1 }) rfl
  rw [← h]
  exact books_modRoom rfl

theorem books_storeJoin (st : Server) (r idx : Nat) (i : Seat) :
    (st.storeJoin r idx i).books = st.books.modSess idx (·.placed r i) :=
  books_modSession (s := st) (j := idx) (F := (·.placed r i))
    (f := fun s => { s with inRoom := true, roomIdx := r, actorId := i.val }) rfl

/-- The store into a moved session, made when its generation is the entry's. -/
theorem books_moveSession (st : Server) (idx : Nat) (gen : UInt32) (nr : Nat) :
    (if (st.sess idx).gen = gen then st.modSession idx fun s => { s with roomIdx := nr }
      else st).books = st.books.modSess idx (·.moved gen nr) := by
  split
  · rename_i h
    refine books_modSession ?_
    simp [SessBook.moved, Session.book, h]
  · rename_i h
    have hsess : (st.sess idx).book.moved gen nr = (st.sess idx).book := by
      simp [SessBook.moved, Session.book, h]
    rw [← books_modSession (f := id) (F := (·.moved gen nr)) hsess.symm]
    simp [modSession, SessionPool.mod]

theorem moveMember_of_unused {st : Server} {old : Nat} (nr : Nat) {i : Seat}
    (h : ((st.rooms old).members i).used = false) : st.moveMember old nr i = st := by
  simp [moveMember, h]

theorem books_moveMember {st : Server} {old : Nat} (nr : Nat) {i : Seat}
    (h : ((st.rooms old).members i).used = true) {e : RoomLeaveEntry}
    (he : e = ⟨((st.rooms old).members i).sessIdx, ((st.rooms old).members i).sessGen⟩) :
    (st.moveMember old nr i).books =
      ((st.books.modRoom nr (·.moveIn i e)).modRoom old (·.moveOut i)).modSess e.sessIdx
        (·.moved e.sessGen nr) := by
  subst he
  unfold moveMember
  simp only [h, Bool.not_true, Bool.false_eq_true, if_false]
  rw [books_moveSession]
  congr 1
  rw [books_modRoom (F := (·.moveOut i)) (Room.moveOut_book _ _ _)]
  congr 1
  exact books_modRoom (F := (·.moveIn i _)) (Room.moveIn_book _ h _ _)

theorem books_openNew (st : Server) (old nr : Nat) :
    (st.openNew old nr).books =
      (st.books.modRoom nr (·.openMoved)).modRoom old (·.empty) := by
  unfold openNew
  rw [books_modRoom (F := (·.empty)) rfl, books_modRoom (F := (·.openMoved))]
  simp only [Room.book, RoomBook.openMoved, RoomBook.mk.injEq, true_and]
  have hsome (i : Seat) : (if ((st.rooms nr).members i).used then
      some (RoomLeaveEntry.mk ((st.rooms nr).members i).sessIdx ((st.rooms nr).members i).sessGen)
      else none).isSome = ((st.rooms nr).members i).used := by
    split <;> simp_all
  simp only [hsome]
  trivial

theorem books_carryJoin (st : Server) (nr : Nat) (e : RoomJoinEntry) :
    (st.carryJoin nr e).books =
      (st.books.modRoom nr (·.carryJoin e)).modSess e.sessIdx (·.moved e.sessGen nr) := by
  unfold carryJoin
  rw [books_moveSession, books_modRoom (F := (·.carryJoin e))]
  unfold RoomBook.carryJoin
  have hseat : (st.rooms nr).book.seatUsed e.actorId = (st.rooms nr).seatUsed e.actorId := rfl
  rw [hseat]
  split <;> rfl

theorem books_freeRoomIfDrained (st : Server) (r : Nat) :
    (st.freeRoomIfDrained r).books = { st.books with freeRooms := st.freeRooms ++ [r] } := by
  rw [← books_modRoom_of_eq (s := st) (r := r) (f := fun R => { R with gen := R.gen + 1 }) rfl]
  rfl

theorem books_finishTransfer (st : Server) (g i old nr : Nat) (moved : Int)
    (leaves : List RoomLeaveEntry) :
    ((st.finishTransfer old nr moved leaves).replaceRoom g i nr).books =
      { st.books.modRoom nr (·.finish moved leaves) with
        openRooms :=
          if (st.rooms nr).reservedSeats < 4 then swapRemove st.openRooms old ++ [nr]
          else swapRemove st.openRooms old
        freeRooms := st.freeRooms ++ [old]
        myRooms := Function.update st.myRooms g ((st.myRooms g).set i nr) } := by
  have hfin := books_modRoom (s := st) (r := nr) (F := (·.finish moved leaves))
    (f := fun R => { R with pendingLeave := R.pendingLeave ++ leaves, memberCount := moved }) rfl
  have hres : (((st.modRoom nr fun R =>
      { R with pendingLeave := R.pendingLeave ++ leaves, memberCount := moved }).forgetRoom
        old).rooms nr).reservedSeats = (st.rooms nr).reservedSeats := by
    simp [modRoom, forgetRoom]
  have hlast (st : Server) (metrics : Metrics) :
      (({ st.freeRoomIfDrained old with metrics } : Server).replaceRoom g i nr).books =
        { st.books with
          freeRooms := st.freeRooms ++ [old]
          myRooms := Function.update st.myRooms g ((st.myRooms g).set i nr) } :=
    congrArg (fun b : Books =>
      { b with myRooms := Function.update st.myRooms g ((st.myRooms g).set i nr) })
      (books_freeRoomIfDrained st old)
  unfold finishTransfer
  simp only [hres]
  rw [hlast, ← hfin]
  split <;> rfl

theorem books_freeDead (st : Server) (g i r : Nat) :
    ((st.freeDead r).removeRoom g i).books =
      { st.books with
        openRooms := swapRemove st.openRooms r
        freeRooms := st.freeRooms ++ [r]
        myRooms := Function.update st.myRooms g (swapRemoveAt (st.myRooms g) i) } := by
  have hgen := books_modRoom_of_eq (s := st) (r := r) (f := fun R => { R with gen := R.gen + 1 }) rfl
  rw [← hgen]
  rfl

theorem books_accept (st : Server) (w : Nat) (fd : Int) (recvOk sendOk ctlOk : Bool) :
    (st.accept w fd recvOk sendOk ctlOk).books = st.books ∨
      ∃ idx, st.pool.free.getLast? = some idx ∧
        ((st.accept w fd recvOk sendOk ctlOk).books =
            { st.books.modSess idx (·.opened w) with
              freeSess := st.pool.free.dropLast
              mySessions := Function.update st.mySessions w (st.mySessions w ++ [idx]) } ∨
          (st.accept w fd recvOk sendOk ctlOk).books = st.books.modSess idx (·.refused w)) := by
  have hrings (idx : Nat) (recvQ : RecvRing) (sendQ : SendRing) :
      (st.modSession idx fun s => { s with recvQ, sendQ }).books = st.books :=
    books_modSession_of_eq rfl
  rcases st.pool.alloc_cases recvOk sendOk with ⟨_, h⟩ | ⟨idx, recvQ, sendQ, hlast, h | ⟨_, h⟩⟩
  · exact Or.inl (by simp only [accept, h])
  · refine Or.inl ?_
    simp only [accept, h]
    exact hrings idx recvQ sendQ
  · refine Or.inr ⟨idx, hlast, ?_⟩
    simp only [accept, h]
    cases ctlOk
    · have h := books_modSession (s := st) (j := idx) (F := (·.refused w))
        (f := fun s => { ({ s with recvQ, sendQ } : Session).reset with
          owner := w, dead := true, refs := 0, gen := s.gen + 1 }) rfl
      right
      rw [← h]
      simp [books, modSession, SessionPool.mod, sess, release, SessionPool.release, Session.reset,
        dropLast_append_of_getLast? hlast]
    · have h := books_modSession (s := st) (j := idx) (F := (·.opened w))
        (f := fun s => { ({ s with recvQ, sendQ } : Session).reset with fd, owner := w }) rfl
      left
      rw [← h]
      simp [books, modSession, SessionPool.mod, sess]

theorem dispatch_join {st : Server} {idx : Nat} {remainUs : UInt32} {msg : ClientMsg}
    (h : st.dispatch idx remainUs msg = .join) : (st.sess idx).inRoom = false := by
  cases msg <;> simp only [dispatch] at h
  · cases h
  · split at h
    · cases h
    · split at h
      · cases h
      · simp_all
  · split at h <;> cases h
  · split at h <;> cases h
  · cases h

end Server

/-! ### Steps -/

namespace System

open Ledger

theorem trans_to {L L' : Ledger} {a : Actor} {s' : System} (h : L.Trans a L')
    (hbooks : s'.srv.books = L'.toBooks) (hlock : s'.lock = L'.lock) (hnet : s'.net = L'.net)
    (hgame : s'.game = L'.game) : L.Trans a s'.ledger := by
  have heq : s'.ledger = L' := by
    cases L'
    simp_all [ledger]
  exact heq ▸ h

theorem trans_cut {s : System} {w idx : Nat} (h : s.ledger.Handling w idx) :
    s.ledger.Trans (.net w) (s.cut w idx).ledger :=
  trans_to (.cut w idx h) (Server.books_modSession (F := (·.cut))
    (f := fun x => { x with dead := true, fd := -1 }) rfl) rfl rfl rfl

/-- `SendBytes` ends the handler or cuts the session. -/
theorem trans_send {s : System} {w idx : Nat} {m : Msg} (h : s.ledger.Handling w idx) :
    (s.send w idx m).ledger = s.ledger ∨ s.ledger.Trans (.net w) (s.send w idx m).ledger := by
  unfold send
  split
  · rename_i st henq
    have hbooks := Server.books_enqueue henq
    rcases h with ⟨hidle, _, _⟩ | hpc
    · left
      have hnet : Function.update s.net w .idle = s.net := by
        rw [← (hidle : s.net w = .idle)]
        exact Function.update_eq_self w s.net
      simp [ledger, setNet, hbooks, hnet]
    · right
      refine trans_to (.toIdle w ?_) hbooks rfl rfl rfl
      rcases hpc with hpc | hpc
      · exact Or.inl ⟨idx, hpc⟩
      · exact Or.inr (Or.inl ⟨idx, hpc⟩)
  · exact Or.inr (trans_cut (s := { s with srv := s.srv.countFull }) h)

theorem trans_of_netStep {s s' : System} {w : Nat} (h : s.netStep w = some s') :
    s'.ledger = s.ledger ∨ s.ledger.Trans (.net w) s'.ledger := by
  unfold netStep at h
  split at h
  · cases h
  · rename_i idx hpc
    split at h
    · cases h
      exact Or.inr (trans_to (.noWorkers w idx hpc) rfl rfl rfl rfl)
    · split at h
      · rename_i hlock
        cases h
        exact Or.inr (trans_to (.scan w idx hpc hlock) rfl rfl rfl rfl)
      · cases h
  · cases h
  · rename_i idx a r hpc
    cases h
    exact trans_send (Or.inr (Or.inr ⟨a, r, hpc⟩))
  · rename_i idx hpc
    cases h
    exact trans_send (Or.inr (Or.inl hpc))
  · rename_i idx hpc
    right
    by_cases hroom : (!(s.srv.sess idx).inRoom || decide (s.srv.cap ≤ (s.srv.sess idx).roomIdx)) = true
    · simp only [Server.leaveRead, if_pos hroom] at h
      cases h
      have hroom' : (s.srv.sess idx).inRoom = false ∨ s.srv.cap ≤ (s.srv.sess idx).roomIdx := by
        simpa using hroom
      exact trans_to (.leaveNone w idx hpc hroom') rfl rfl rfl rfl
    · simp only [Server.leaveRead, if_neg hroom] at h
      cases h
      have hroom' : (s.srv.sess idx).inRoom = true ∧ (s.srv.sess idx).roomIdx < s.srv.cap := by
        simpa using hroom
      exact trans_to (.leaveRead w idx hpc hroom'.1 hroom'.2)
        (Server.books_modSession (F := (·.left)) (f := fun x => { x with inRoom := false }) rfl)
        rfl rfl rfl
  · rename_i idx r hpc
    cases h
    exact Or.inr (trans_to (.leavePush w idx r hpc)
      (Server.books_modRoom (F := (·.pushLeave ⟨idx, (s.srv.sess idx).gen⟩)) rfl) rfl rfl rfl)
  · rename_i idx hpc
    cases h
    exact Or.inr (trans_to (.netRelease w idx hpc) (Server.books_dropNetRef _ _ _) rfl rfl rfl)
  · rename_i idx r c hpc
    cases h
    exact Or.inr (trans_to (.toIdle w (Or.inr (Or.inr ⟨idx, r, c, hpc⟩)))
      (Server.books_inputPush _ _ _) rfl rfl rfl)

theorem trans_of_lockStep {s s' : System} (h : s.lockStep = some s') :
    s.ledger.Trans .lock s'.ledger := by
  unfold lockStep at h
  split at h
  · cases h
  · rename_i w idx hpc
    split at h
    · rename_i r hlast
      rcases s.srv.books_scanOpen r with ⟨hnone, hbooks⟩ | ⟨i, hsome, hdead, hseat, hbooks⟩
      · split at h
        · rename_i st i heq
          simp [heq] at hnone
        · rename_i st heq
          rw [heq] at hbooks
          cases h
          exact trans_to (.scanPop w idx hpc) hbooks rfl rfl rfl
      · split at h
        · rename_i st j heq
          rw [heq] at hbooks hsome
          cases h
          cases hsome
          exact trans_to (.scanTake w idx r i hpc hlast hdead hseat) hbooks rfl rfl rfl
        · rename_i st heq
          simp [heq] at hsome
    · split at h
      · cases h
        exact trans_to (.scanRefuse w idx hpc) rfl rfl rfl rfl
      · rename_i r st htake
        cases h
        exact trans_to (.scanAlloc w idx r st.leastLoaded hpc (Server.takeSlot_some htake).1)
          (Server.books_takeSlot htake _) rfl rfl rfl
  · rename_i w idx r hpc
    cases h
    exact trans_to (.mail w idx r hpc) rfl rfl rfl rfl
  · rename_i w idx r hpc
    cases h
    exact trans_to (.first w idx r hpc) (Server.books_openFirst _ _) rfl rfl rfl
  · rename_i w idx r i hpc
    cases h
    exact trans_to (.push w idx r i hpc) (Server.books_pushJoin _ _ _ _) rfl rfl rfl
  · rename_i w idx r i hpc
    cases h
    exact trans_to (.store w idx r i hpc) (Server.books_storeJoin _ _ _ _) rfl rfl rfl
  · rename_i g i old nr hpc
    cases h
    exact trans_to (.close g i old nr hpc) (Server.books_modRoom (F := (·.close)) rfl) rfl rfl rfl
  · rename_i g i old nr seat rest moved joins leaves hpc
    cases h
    cases hused : ((s.srv.rooms old).members seat).used
    · rw [Server.moveMember_of_unused nr hused]
      refine trans_to (.movePass g i old nr seat rest moved joins leaves hpc ?_) rfl rfl rfl rfl
      simp [ledger, Server.books, Room.book, hused]
    · refine trans_to (.moveSeat g i old nr seat rest moved joins leaves _ hpc ?_)
        (Server.books_moveMember nr hused rfl) rfl rfl rfl
      simp [ledger, Server.books, Room.book, hused]
  · rename_i g i old nr moved joins leaves hpc
    cases h
    exact trans_to (.moveEnd g i old nr moved joins leaves hpc) (Server.books_openNew _ _ _)
      rfl rfl rfl
  · rename_i g i old nr moved e joins leaves hpc
    cases h
    exact trans_to (.carry g i old nr moved e joins leaves hpc) (Server.books_carryJoin _ _ _)
      rfl rfl rfl
  · rename_i g i old nr moved leaves hpc
    cases h
    exact trans_to (.finish g i old nr moved leaves hpc) (Server.books_finishTransfer _ _ _ _ _ _ _)
      rfl rfl rfl

theorem trans_of_gameStep {s s' : System} {g : Nat} (h : s.gameStep g = some s') :
    s.ledger.Trans (.game g) s'.ledger := by
  unfold gameStep at h
  split at h
  · cases h
  · rename_i i r e js ls hpc
    split at h
    · rename_i hstale
      cases h
      exact trans_to (.skip g i r e js ls hpc hstale)
        (Server.books_modRoom (F := (·.releaseSeat e.actorId)) rfl) rfl rfl rfl
    · rename_i hstale
      cases h
      have hfresh : s.srv.staleJoin e = false := by simpa using hstale
      exact trans_to (.seat g i r e js ls hpc hfresh)
        (Server.books_modRoom (F := (·.seat e)) (Room.seatMember_book _ _ _)) rfl rfl rfl
  · rename_i i r ls hpc
    cases h
    exact trans_to (.joinsEnd g i r ls hpc) rfl rfl rfl rfl
  · rename_i i r idx js ls hpc
    cases h
    exact trans_to (.skipRelease g i r idx js ls hpc) (Server.books_release _ _) rfl rfl rfl
  · rename_i i r e ls hpc
    split at h
    · rename_i seat hseat
      cases h
      exact trans_to (.unseat g i r seat e ls hpc ((Room.findLeaver_book _ _).trans hseat))
        (Server.books_modRoom (F := (·.unseat seat)) (Room.unseat_book _ _)) rfl rfl rfl
    · rename_i hseat
      cases h
      exact trans_to (.noLeaver g i r e ls hpc ((Room.findLeaver_book _ _).trans hseat))
        rfl rfl rfl rfl
  · rename_i i r hpc
    split at h
    · rename_i hempty
      cases h
      exact trans_to (.die g i r hpc hempty) (Server.books_modRoom (F := (·.markDead)) rfl)
        rfl rfl rfl
    · cases h
      exact trans_to (.live g i r hpc) rfl rfl rfl rfl
  · rename_i i r idx ls hpc
    cases h
    exact trans_to (.dropRelease g i r idx ls hpc) (Server.books_release _ _) rfl rfl rfl
  · rename_i i r hpc
    split at h
    · rename_i hlock
      cases h
      exact trans_to (.freeRoom g i r hpc hlock) (Server.books_freeDead _ _ _ _) rfl rfl rfl
    · cases h
  · rename_i i r hpc
    split at h
    · rename_i hlock
      split at h
      · cases h
        exact trans_to (.stay g i r hpc) rfl rfl rfl rfl
      · rename_i nr st htake
        cases h
        refine trans_to (.transfer g i r nr hpc hlock (Server.takeSlot_some htake).1) ?_ rfl rfl rfl
        rw [Server.takeSlot_gameWorker htake]
        exact Server.books_takeSlot htake _
    · cases h
  · cases h
  · rename_i nr hpc
    cases h
    exact trans_to (.announced g nr hpc) (Server.books_announce _ _) rfl rfl rfl

theorem handles_iff {s : System} {w idx : Nat} : s.handles w idx = true ↔
    s.net w = .idle ∧ idx ∈ s.srv.mySessions w ∧ (s.srv.sess idx).dead = false := by
  simp [handles, and_assoc]

/-- Every step of the machine is a transition of the ledger or leaves it as it is. -/
theorem trans_of_step {a : Act} {s s' : System} (h : step a s = some s') :
    s'.ledger = s.ledger ∨ s.ledger.Trans a.actor s'.ledger := by
  cases a with
  | accept w fd recvOk sendOk ctlOk =>
    simp only [step] at h
    split at h
    · rename_i hidle
      cases h
      rcases s.srv.books_accept w fd recvOk sendOk ctlOk with hb | ⟨idx, hlast, hb | hb⟩
      · left
        simp [ledger, hb]
      · exact Or.inr (trans_to (.accept w idx hidle hlast) hb rfl rfl rfl)
      · exact Or.inr (trans_to (.refuse w idx hlast) hb rfl rfl rfl)
    · cases h
  | frame w idx f remainUs =>
    simp only [step] at h
    split at h
    · rename_i hok
      have hhandles : s.handles w idx = true := by simp_all
      obtain ⟨hidle, hmem, hdead⟩ := handles_iff.mp hhandles
      have hh : s.ledger.Handling w idx := Or.inl ⟨hidle, hmem, hdead⟩
      cases h
      cases hd : s.srv.dispatch idx remainUs (.decode f) with
      | send m => exact trans_send hh
      | join =>
        exact Or.inr (trans_to (.toJoin w idx hidle hmem hdead (Server.dispatch_join hd))
          rfl rfl rfl rfl)
      | input r c => exact Or.inr (trans_to (.toInput w idx r c hidle hmem hdead) rfl rfl rfl rfl)
      | ignore => exact Or.inl rfl
      | disconnect => exact Or.inr (trans_cut hh)
    · cases h
  | disconnect w idx =>
    simp only [step] at h
    split at h
    · rename_i hok
      cases h
      exact Or.inr (trans_cut (Or.inl (handles_iff.mp hok)))
    · cases h
  | flush w idx n =>
    simp only [step] at h
    split at h
    · cases h
      left
      simp [ledger, Server.books_modSession_of_eq (s := s.srv) (j := idx)
        (f := fun x => { x with sendQ := x.sendQ.consume n }) rfl]
    · cases h
  | net w => exact trans_of_netStep h
  | lock => exact Or.inr (trans_of_lockStep h)
  | drain g =>
    simp only [step] at h
    split at h
    · rename_i hidle
      cases h
      exact Or.inr (trans_to (.drain g hidle) rfl rfl rfl rfl)
    · cases h
  | process g i =>
    simp only [step] at h
    split at h
    · rename_i hidle
      split at h
      · rename_i r hr
        cases h
        exact Or.inr (trans_to (.take g i r hidle hr)
          (Server.books_modRoom (F := (·.takeQueues)) rfl) rfl rfl rfl)
      · cases h
    · cases h
  | tick g i =>
    simp only [step] at h
    split at h
    · rename_i hidle
      split at h
      · rename_i r hr
        cases h
        split
        · exact Or.inr (trans_to (.exit g i r hidle hr) (Server.books_tickBody _ _) rfl rfl rfl)
        · left
          simp [ledger, Server.books_tickBody]
      · cases h
    · cases h
  | game g => exact Or.inr (trans_of_gameStep h)

end System

end BeltServer
