import BeltServer.Roster
import BeltServer.LedgerSim

/-!
# Room placement

Every operation of the manager and of a game worker does to the room lists what the steps
of a roster say. The machine here runs `Join`, `OnSessionLeave` and whole `TickOnce` runs
next to the single operations, with sessions in any state; its rosters are kept.
-/

namespace BeltServer

set_option autoImplicit false

open Runs Relation

namespace Server

def roster (st : Server) : Roster where
  cap := st.cap
  workers := st.workerCount
  free := st.freeRooms
  worker r := (st.rooms r).gameWorker
  load := st.roomsPerWorker
  mail := st.mail
  mine := st.myRooms

/-! ### Sections that leave the lists alone -/

section Same
variable (st : Server)

theorem roster_modRoom {st : Server} {r : Nat} {f : Room → Room}
    (hf : (f (st.rooms r)).gameWorker = (st.rooms r).gameWorker) :
    (st.modRoom r f).roster = st.roster := by
  have hworker (x : Nat) : ((st.modRoom r f).rooms x).gameWorker = (st.rooms x).gameWorker := by
    by_cases hx : x = r
    · subst hx
      exact (congrArg Room.gameWorker (Function.update_self ..)).trans hf
    · exact congrArg Room.gameWorker (Function.update_of_ne hx ..)
  simp only [roster, hworker]
  rfl

theorem roster_modSession (idx : Nat) (f : Session → Session) :
    (st.modSession idx f).roster = st.roster := rfl

theorem roster_enqueue {st st' : Server} {idx : Nat} {m : Msg} (h : st.enqueue idx m = some st') :
    st'.roster = st.roster := by
  obtain ⟨q, -, rfl⟩ := Option.map_eq_some_iff.mp h
  rfl

@[simp] theorem roster_leaveRead (idx : Nat) : (st.leaveRead idx).1.roster = st.roster := by
  unfold leaveRead
  dsimp only
  split <;> rfl

@[simp] theorem roster_leavePush (r idx : Nat) : (st.leavePush r idx).roster = st.roster :=
  roster_modRoom rfl

@[simp] theorem roster_inputPush (r : Nat) (c : InputCmd) :
    (st.inputPush r c).roster = st.roster := by
  have hroom : (st.modRoom r fun R => { R with inQ := R.inQ ++ [c] }).roster = st.roster :=
    roster_modRoom rfl
  exact hroom

@[simp] theorem roster_accept (w : Nat) (fd : Int) (recvOk sendOk ctlOk : Bool) :
    (st.accept w fd recvOk sendOk ctlOk).roster = st.roster := by
  unfold accept
  split
  · rfl
  · dsimp only
    split <;> rfl

@[simp] theorem roster_scanOpen (r : Nat) : (st.scanOpen r).1.roster = st.roster := by
  unfold scanOpen
  dsimp only
  split
  · rfl
  · split
    · rfl
    · split
      · exact @roster_modRoom { st with openRooms := st.openRooms.dropLast } r _ rfl
      · exact roster_modRoom rfl

@[simp] theorem roster_openFirst (r : Nat) : (st.openFirst r).roster = st.roster := by
  have hsame := @roster_modRoom st r (fun R => { R with
    seatUsed := Function.update R.seatUsed firstSeat true
    everReserved := true
    reservedSeats := 1 }) rfl
  exact hsame

@[simp] theorem roster_joinAt (r idx : Nat) (i : Seat) : (st.joinAt r idx i).roster = st.roster := by
  have hpush : (st.pushJoin r idx i).roster = st.roster :=
    @roster_modRoom { st with pool := st.pool.addRef idx } r _ rfl
  exact hpush

@[simp] theorem roster_processJoin (r : Nat) (e : RoomJoinEntry) :
    (st.processJoin r e).roster = st.roster := by
  unfold processJoin
  split
  · have hrelease : (st.releaseSeat r e.actorId).roster = st.roster := roster_modRoom rfl
    exact hrelease
  · exact roster_modRoom rfl

@[simp] theorem roster_processLeave (r : Nat) (e : RoomLeaveEntry) :
    (st.processLeave r e).roster = st.roster := by
  unfold processLeave
  split
  · rename_i i hfind
    have hunseat : (st.unseat r i).roster = st.roster := roster_modRoom rfl
    exact hunseat
  · rfl

theorem roster_foldl {β : Type} {f : Server → β → Server} (hf : ∀ st x, (f st x).roster = st.roster)
    (xs : List β) (st : Server) : (xs.foldl f st).roster = st.roster := by
  induction xs generalizing st with
  | nil => rfl
  | cons x xs ih => rw [List.foldl_cons, ih, hf]

@[simp] theorem roster_processEntries (r : Nat) : (st.processEntries r).roster = st.roster := by
  unfold processEntries
  rw [roster_foldl fun st e => roster_processLeave st r e,
    roster_foldl fun st e => roster_processJoin st r e]
  exact roster_modRoom rfl

@[simp] theorem roster_sendSnapshot (r : Nat) (snap : Snapshot) (i : Seat) :
    (st.sendSnapshot r snap i).roster = st.roster := by
  unfold sendSnapshot
  dsimp only
  split
  · rfl
  · split
    · rename_i st' hst'
      have hsame := roster_enqueue hst'
      exact hsame
    · rfl

theorem gameWorker_step (R : Room) : R.step.gameWorker = R.gameWorker :=
  congrArg RoomBook.owner R.step_book

@[simp] theorem roster_tickBody (r : Nat) : (st.tickBody r).roster = st.roster := by
  have hstep : (st.modRoom r Room.step).roster = st.roster :=
    roster_modRoom (gameWorker_step _)
  unfold tickBody
  dsimp only
  split
  · rw [roster_foldl fun st i => roster_sendSnapshot st r _ i]
    exact hstep
  · exact hstep

@[simp] theorem roster_moveMember (old nr : Nat) (i : Seat) :
    (st.moveMember old nr i).roster = st.roster := by
  have htwo (f f' : Room → Room) (hf : ∀ R, (f R).gameWorker = R.gameWorker)
      (hf' : ∀ R, (f' R).gameWorker = R.gameWorker) :
      ((st.modRoom nr f).modRoom old f').roster = st.roster :=
    (roster_modRoom (hf' _)).trans (roster_modRoom (hf _))
  unfold moveMember
  dsimp only
  split
  · rfl
  · split
    · rw [roster_modSession]
      exact htwo _ _ (fun _ => rfl) (fun _ => rfl)
    · exact htwo _ _ (fun _ => rfl) (fun _ => rfl)

theorem roster_moveMembers (old nr : Nat) (is : List Seat) (st : Server) (moved : Int) :
    (moveMembers old nr is st moved).1.roster = st.roster := by
  induction is generalizing st moved with
  | nil => rfl
  | cons i is ih =>
    unfold moveMembers
    rw [ih, roster_moveMember]

@[simp] theorem roster_openNew (old nr : Nat) : (st.openNew old nr).roster = st.roster := by
  unfold openNew
  rw [roster_modRoom, roster_modRoom] <;> rfl

@[simp] theorem roster_carryJoin (nr : Nat) (e : RoomJoinEntry) :
    (st.carryJoin nr e).roster = st.roster := by
  have hroom : (st.modRoom nr fun R =>
      if R.seatUsed e.actorId then { R with pendingJoin := R.pendingJoin ++ [e] }
      else
        { R with
          seatUsed := Function.update R.seatUsed e.actorId true
          reservedSeats := R.reservedSeats + 1
          pendingJoin := R.pendingJoin ++ [e] }).roster = st.roster := by
    apply roster_modRoom
    split <;> rfl
  unfold carryJoin
  dsimp only
  split
  all_goals exact hroom

@[simp] theorem roster_announceSeat (nr : Nat) (i : Seat) :
    (st.announceSeat nr i).roster = st.roster := by
  unfold announceSeat
  dsimp only
  split
  · rfl
  · split
    · rename_i st' hst'
      have hsame := roster_enqueue hst'
      exact hsame
    · rfl

@[simp] theorem roster_announce (nr : Nat) : (st.announce nr).roster = st.roster := by
  unfold announce
  exact roster_foldl (fun st i => roster_announceSeat st nr i) _ st

@[simp] theorem roster_onSessionLeave (idx : Nat) : (st.onSessionLeave idx).roster = st.roster := by
  have hread := st.roster_leaveRead idx
  unfold onSessionLeave
  split
  · rename_i st' hst'
    rw [hst'] at hread
    exact hread
  · rename_i st' r hst'
    rw [hst'] at hread
    rw [roster_leavePush]
    exact hread

@[simp] theorem roster_disconnect (w idx : Nat) : (st.disconnect w idx).roster = st.roster := by
  unfold disconnect
  split
  · rfl
  · exact roster_onSessionLeave (st.cut idx) idx

@[simp] theorem roster_sendBytes (w idx : Nat) (m : Msg) :
    (st.sendBytes w idx m).roster = st.roster := by
  unfold sendBytes
  split
  · rename_i st' hst'
    exact roster_enqueue hst'
  · exact roster_disconnect st.countFull w idx

theorem roster_joinScan (rs : List Nat) (st : Server) : (joinScan rs st).1.roster = st.roster := by
  induction rs generalizing st with
  | nil => rfl
  | cons r rs ih =>
    have hscan := st.roster_scanOpen r
    unfold joinScan
    split
    · rename_i st' i hst'
      rw [hst'] at hscan
      exact hscan
    · rename_i st' hst'
      rw [hst'] at hscan
      rw [ih, hscan]

end Same

/-! ### Sections that change them -/

section Change
variable {st st' : Server} {r : Nat}

theorem roster_takeSlot (h : st.takeSlot = some (r, st')) :
    st.freeRooms.getLast? = some r ∧
      st'.roster = { st.roster with free := st.freeRooms.dropLast } := by
  unfold takeSlot at h
  split at h
  · cases h
  · rename_i x hlast
    cases h
    exact ⟨hlast, @roster_modRoom { st with freeRooms := st.freeRooms.dropLast } r _ rfl⟩

theorem roster_assign (st : Server) (r g : Nat) : (st.assign r g).roster =
    { st.roster with
      worker := Function.update st.roster.worker r g
      load := Function.update st.roomsPerWorker g (st.roomsPerWorker g + 1) } := by
  have hworker (x : Nat) :
      ((st.assign r g).rooms x).gameWorker = Function.update st.roster.worker r g x := by
    by_cases hx : x = r
    · subst hx
      have hself : (st.assign x g).rooms x = { st.rooms x with gameWorker := g } :=
        Function.update_self ..
      rw [Function.update_self, hself]
    · have hother : (st.assign r g).rooms x = st.rooms x := Function.update_of_ne hx ..
      rw [Function.update_of_ne hx, hother]
      rfl
  have hall : (fun x => ((st.assign r g).rooms x).gameWorker) =
      Function.update st.roster.worker r g := funext hworker
  rw [← hall]
  rfl

/-- A new room goes to the least loaded worker. -/
theorem roster_join (st : Server) (idx : Nat) : (st.join idx).1.roster = st.roster ∨
    ∃ r, 0 < st.workerCount ∧ st.freeRooms.getLast? = some r ∧
      (st.join idx).1.roster = st.roster.post r := by
  unfold join
  split
  · exact Or.inl rfl
  · rename_i hworkers
    have hscan := roster_joinScan st.openRooms.reverse st
    split
    · rename_i st₁ r i hst₁
      rw [hst₁] at hscan
      left
      rw [roster_joinAt]
      exact hscan
    · rename_i st₁ hst₁
      rw [hst₁] at hscan
      have hscan : st₁.roster = st.roster := hscan
      split
      · exact Or.inl hscan
      · rename_i r st₂ htake
        obtain ⟨hlast, htaken⟩ := roster_takeSlot htake
        have hleast : st₂.leastLoaded = st.roster.leastLoaded := by
          rw [← hscan]
          exact congrArg Roster.leastLoaded htaken
        refine Or.inr ⟨r, Nat.pos_of_ne_zero hworkers, ?_, ?_⟩
        · rw [← hlast]
          exact (congrArg (fun R : Roster => R.free.getLast?) hscan).symm
        · rw [roster_joinAt]
          have hopen : (st₂.openRoom r).roster =
              { (st₂.assign r st₂.leastLoaded).roster with
                mail := Function.update st₂.mail st₂.leastLoaded
                  (st₂.mail st₂.leastLoaded ++ [r]) } :=
            roster_openFirst _ r
          rw [hopen, roster_assign, htaken, hleast]
          have hfields : st₂.roomsPerWorker = st.roomsPerWorker ∧ st₂.mail = st.mail ∧
              st₁.freeRooms = st.freeRooms := by
            refine ⟨?_, ?_, ?_⟩
            · exact (congrArg Roster.load htaken).trans (congrArg Roster.load hscan)
            · exact (congrArg Roster.mail htaken).trans (congrArg Roster.mail hscan)
            · exact congrArg Roster.free hscan
          obtain ⟨hload, hmail, hfree⟩ := hfields
          rw [hload, hmail, hfree, hscan]
          rfl

theorem roster_freeRoomIfDrained (st : Server) (r : Nat) :
    (st.freeRoomIfDrained r).roster = { st.roster with free := st.freeRooms ++ [r] } := by
  have hroom : (st.modRoom r fun R => { R with gen := R.gen + 1 }).roster = st.roster :=
    roster_modRoom rfl
  have hfree : (st.freeRoomIfDrained r).roster =
      { (st.modRoom r fun R => { R with gen := R.gen + 1 }).roster with
        free := st.freeRooms ++ [r] } := rfl
  rw [hfree, hroom]

theorem roster_forgetRoom (st : Server) (r : Nat) : (st.forgetRoom r).roster =
    { st.roster with
      load := Function.update st.roster.load (st.roster.worker r)
        (st.roster.load (st.roster.worker r) - 1) } := rfl

/-- A room of a worker's list dies, and the slot is free. -/
theorem roster_process (h : st.processRoomQueues r = (st', true)) (g i : Nat) :
    (st'.removeRoom g i).roster = st.roster.die g i r := by
  unfold processRoomQueues at h
  dsimp only at h
  split at h
  · obtain rfl : _ = st' := congrArg Prod.fst h
    have hdead : ((st.processEntries r).markDead r).roster = st.roster :=
      (roster_modRoom rfl).trans (st.roster_processEntries r)
    have hfreed : (((st.processEntries r).markDead r).freeDead r).roster =
        { st.roster with
          free := st.freeRooms ++ [r]
          load := Function.update st.roster.load (st.roster.worker r)
            (st.roster.load (st.roster.worker r) - 1) } := by
      unfold freeDead
      have hfree : (((st.processEntries r).markDead r).forgetRoom r).freeRooms = st.freeRooms :=
        congrArg Roster.free hdead
      rw [roster_freeRoomIfDrained, roster_forgetRoom, hdead, hfree]
    have hmine : (((st.processEntries r).markDead r).freeDead r).myRooms = st.myRooms :=
      congrArg Roster.mine hfreed
    have hremove : ((((st.processEntries r).markDead r).freeDead r).removeRoom g i).roster =
        { (((st.processEntries r).markDead r).freeDead r).roster with
          mine := Function.update (((st.processEntries r).markDead r).freeDead r).myRooms g
            (SwapList.swapRemoveAt
              ((((st.processEntries r).markDead r).freeDead r).myRooms g) i) } := rfl
    rw [hremove, hfreed, hmine]
    rfl
  · cases h

theorem roster_process_lives (h : st.processRoomQueues r = (st', false)) :
    st'.roster = st.roster := by
  unfold processRoomQueues at h
  dsimp only at h
  split at h
  · cases h
  · obtain rfl : st.processEntries r = st' := congrArg Prod.fst h
    exact st.roster_processEntries r

theorem roster_finishTransfer (st : Server) (old nr : Nat) (moved : Int)
    (leaves : List RoomLeaveEntry) : (st.finishTransfer old nr moved leaves).roster =
      { st.roster with
        free := st.freeRooms ++ [old]
        load := Function.update st.roster.load (st.roster.worker old)
          (st.roster.load (st.roster.worker old) - 1) } := by
  have hroom : (st.modRoom nr fun R =>
      { R with pendingLeave := R.pendingLeave ++ leaves, memberCount := moved }).roster =
      st.roster := roster_modRoom rfl
  have hforget := roster_forgetRoom (st.modRoom nr fun R =>
    { R with pendingLeave := R.pendingLeave ++ leaves, memberCount := moved }) old
  rw [hroom] at hforget
  have hdrained (st₁ : Server) (metrics : Metrics) (hst₁ : st₁.roster =
      { st.roster with
        load := Function.update st.roster.load (st.roster.worker old)
          (st.roster.load (st.roster.worker old) - 1) }) :
      { st₁.freeRoomIfDrained old with metrics }.roster =
        { st.roster with
          free := st.freeRooms ++ [old]
          load := Function.update st.roster.load (st.roster.worker old)
            (st.roster.load (st.roster.worker old) - 1) } := by
    have hfree : st₁.freeRooms = st.freeRooms := congrArg Roster.free hst₁
    refine (roster_freeRoomIfDrained st₁ old).trans ?_
    rw [hst₁, hfree]
  unfold finishTransfer
  dsimp only
  split
  all_goals exact hdrained _ _ hforget

/-- The slot for the new room goes to the worker of the old one, whose load stays. -/
theorem roster_transferTo (st : Server) (old nr : Nat) : (st.transferTo old nr).roster =
    { st.roster with
      free := st.freeRooms ++ [old]
      worker := Function.update st.roster.worker nr (st.roster.worker old) } := by
  let st₁ := st.assign nr (st.rooms old).gameWorker
  let moved := moveMembers old nr (List.finRange 4) (st₁.closeOld old) 0
  have hcarried : ((st₁.rooms old).pendingJoin.foldl (fun st e => st.carryJoin nr e)
      (moved.1.openNew old nr)).roster = st₁.roster := by
    rw [roster_foldl fun st e => roster_carryJoin st nr e, roster_openNew, roster_moveMembers]
    exact roster_modRoom rfl
  have hassign := roster_assign st nr (st.rooms old).gameWorker
  refine (roster_finishTransfer _ old nr moved.2 (st₁.rooms old).pendingLeave).trans ?_
  have hfree : ((st₁.rooms old).pendingJoin.foldl (fun st e => st.carryJoin nr e)
      (moved.1.openNew old nr)).freeRooms = st.freeRooms :=
    (congrArg Roster.free hcarried).trans (congrArg Roster.free hassign)
  have hold : Function.update st.roster.worker nr (st.roster.worker old) old =
      st.roster.worker old := by
    by_cases hne : old = nr
    · rw [hne, Function.update_self]
    · rw [Function.update_of_ne hne]
  rw [hfree, hcarried, hassign]
  have hworker : (st.rooms old).gameWorker = st.roster.worker old := rfl
  have hload : st.roomsPerWorker = st.roster.load := rfl
  simp only [hworker, hload, hold, Function.update_self, Function.update_idem, UInt32.add_sub_cancel,
    Function.update_eq_self]

theorem roster_transferRoom {old nr : Nat} (h : st.transferRoom old = (st', some nr)) (g i : Nat) :
    st.freeRooms.getLast? = some nr ∧
      (st'.replaceRoom g i nr).roster = st.roster.move g i old nr := by
  unfold transferRoom at h
  split at h
  · cases h
  · rename_i x st₁ htake
    obtain ⟨rfl, rfl⟩ : (st₁.transferTo old x).announce x = st' ∧ x = nr := by simpa using h
    obtain ⟨hlast, htaken⟩ := roster_takeSlot htake
    refine ⟨hlast, ?_⟩
    have hmoved : ((st₁.transferTo old x).announce x).roster =
        { st.roster with
          free := st.freeRooms.dropLast ++ [old]
          worker := Function.update st.roster.worker x (st.roster.worker old) } := by
      have hfree : st₁.freeRooms = st.freeRooms.dropLast := congrArg Roster.free htaken
      rw [roster_announce, roster_transferTo, htaken, hfree]
    have hmine : ((st₁.transferTo old x).announce x).myRooms = st.myRooms :=
      congrArg Roster.mine hmoved
    have hreplace : (((st₁.transferTo old x).announce x).replaceRoom g i x).roster =
        { ((st₁.transferTo old x).announce x).roster with
          mine := Function.update ((st₁.transferTo old x).announce x).myRooms g
            ((((st₁.transferTo old x).announce x).myRooms g).set i x) } := rfl
    rw [hreplace, hmoved, hmine]
    rfl

/-- A tick of a worker's room, with the replacement in the worker's list. -/
theorem roster_roomTick {o : Option Nat} (h : st.roomTick r = (st', o)) (g i : Nat) :
    (o = none ∧ st'.roster = st.roster) ∨
      ∃ nr, o = some nr ∧ st.freeRooms.getLast? = some nr ∧
        (st'.replaceRoom g i nr).roster = st.roster.move g i r nr := by
  have hbody := st.roster_tickBody r
  unfold roomTick exitCheckAndMaybeTransfer at h
  split at h
  · cases o with
    | none =>
      left
      unfold transferRoom at h
      split at h
      · obtain rfl : st.tickBody r = st' := congrArg Prod.fst h
        exact ⟨rfl, hbody⟩
      · cases h
    | some nr =>
      obtain ⟨hlast, hmove⟩ := roster_transferRoom h g i
      rw [hbody] at hmove
      refine Or.inr ⟨nr, rfl, ?_, hmove⟩
      rw [← hlast]
      exact (congrArg (fun R : Roster => R.free.getLast?) hbody).symm
  · cases h
    exact Or.inl ⟨rfl, hbody⟩

/-! ### Whole `TickOnce` runs -/

/-- One turn of the room loop on the room at index `i`. -/
theorem roster_turn {g i : Nat} (hr : (st.myRooms g)[i]? = some r) :
    (∀ st₁, st.processRoomQueues r = (st₁, true) →
      st.roster.Step (some g) (st₁.removeRoom g i).roster) ∧
    ∀ st₁, st.processRoomQueues r = (st₁, false) → st₁.roster = st.roster ∧
      (∀ st₂, st₁.roomTick r = (st₂, none) → st₂.roster = st.roster) ∧
      ∀ st₂ nr, st₁.roomTick r = (st₂, some nr) →
        st.roster.Step (some g) (st₂.replaceRoom g i nr).roster := by
  constructor
  · intro st₁ hdead
    rw [roster_process hdead g i]
    exact .die g i r hr
  · intro st₁ hlives
    have hsame := roster_process_lives hlives
    refine ⟨hsame, ?_, ?_⟩
    · intro st₂ htick
      rcases roster_roomTick htick g i with ⟨-, hnone⟩ | ⟨nr, heq, -⟩
      · rw [hnone, hsame]
      · cases heq
    · intro st₂ nr htick
      rcases roster_roomTick htick g i with ⟨heq, -⟩ | ⟨nr', heq, hlast, hmove⟩
      · cases heq
      · cases heq
        have hfree : st₁.freeRooms = st.freeRooms := congrArg Roster.free hsame
        rw [hmove, hsame]
        rw [hfree] at hlast
        exact .move g i r nr hr hlast

theorem roster_tickLoop (g : Nat) (n i : Nat) (st : Server) :
    st.roster.Steps (some g) (tickLoop g n i st).roster := by
  induction n generalizing i st with
  | zero => exact .refl
  | succ n ih =>
    unfold tickLoop
    split
    · exact .refl
    · rename_i r hr
      obtain ⟨hdies, hlives⟩ := roster_turn hr
      split
      · rename_i st₁ hst₁
        exact .head (hdies st₁ hst₁) (ih i _)
      · rename_i st₁ hst₁
        obtain ⟨-, hstays, hmoves⟩ := hlives st₁ hst₁
        split
        · rename_i st₂ nr hst₂
          exact .head (hmoves st₂ nr hst₂) (ih (i + 1) _)
        · rename_i st₂ hst₂
          rw [← hstays st₂ hst₂]
          exact ih (i + 1) st₂

theorem roster_tickOnce (st : Server) (g : Nat) :
    st.roster.Steps (some g) (st.tickOnce g).roster :=
  .head (.drain g) (roster_tickLoop g _ 0 (st.drainMail g))

end Change

end Server

/-! ### Runs -/

/-- An operation of the serial machine, or a bare `Join`, a bare `OnSessionLeave` or a whole
`TickOnce`. -/
inductive Turn where
  | op (o : Op)
  | join (idx : Nat)
  | leave (idx : Nat)
  | tickOnce (g : Nat)

def Serial.turn : Turn → Serial → Option Serial
  | .op o, s => s.step o
  | .join idx, s => some { s with srv := (s.srv.join idx).1 }
  | .leave idx, s => some { s with srv := s.srv.onSessionLeave idx }
  | .tickOnce g, s => some { s with srv := s.srv.tickOnce g }

namespace Serial

variable {s t : Serial}

theorem roster_frame (s : Serial) (w idx : Nat) (d : Server.Dispatched) :
    s.srv.roster.Steps none (s.frame w idx d).srv.roster := by
  have hsame {st : Server} (h : st.roster = s.srv.roster) :
      s.srv.roster.Steps none st.roster := by
    rw [h]
    exact .refl
  cases d with
  | send m => exact hsame (s.srv.roster_sendBytes w idx m)
  | join =>
    have hjoin : s.srv.roster.Steps none (s.srv.join idx).1.roster := by
      rcases s.srv.roster_join idx with h | ⟨r, hworkers, hlast, h⟩
      · exact hsame h
      · rw [h]
        exact .single (.post r hworkers hlast)
    unfold frame
    dsimp only
    split
    · rename_i st r i hst
      rw [hst] at hjoin
      exact hjoin
    · rename_i st hst
      rw [hst] at hjoin
      dsimp only
      rw [Server.roster_sendBytes]
      exact hjoin
  | input r c => exact hsame (s.srv.roster_inputPush r c)
  | ignore => exact .refl
  | disconnect => exact hsame (s.srv.roster_disconnect w idx)

theorem roster_step {o : Op} (h : step o s = some t) :
    ∃ g, s.srv.roster.Steps g t.srv.roster := by
  have hsame (heq : t.srv.roster = s.srv.roster) : ∃ g, s.srv.roster.Steps g t.srv.roster := by
    rw [heq]
    exact ⟨none, .refl⟩
  cases o with
  | accept w fd recvOk sendOk ctlOk =>
    simp only [step] at h
    split at h <;> cases h
    exact hsame (s.srv.roster_accept w fd recvOk sendOk ctlOk)
  | frame w idx f remainUs =>
    simp only [step] at h
    split at h <;> cases h
    exact ⟨none, s.roster_frame w idx _⟩
  | joinOk w =>
    simp only [step] at h
    split at h <;> cases h
    exact hsame (s.srv.roster_sendBytes w _ _)
  | disconnect w idx =>
    simp only [step] at h
    split at h <;> cases h
    exact hsame (s.srv.roster_disconnect w idx)
  | flush w idx n =>
    simp only [step] at h
    split at h <;> cases h
    exact hsame rfl
  | drain g =>
    cases h
    exact ⟨some g, .single (.drain g)⟩
  | process g i =>
    simp only [step] at h
    split at h
    · rename_i r hr
      obtain ⟨hdies, hlives⟩ := Server.roster_turn hr
      split at h <;> cases h
      · rename_i st hst
        exact ⟨some g, .single (hdies st hst)⟩
      · rename_i st hst
        exact hsame (hlives st hst).1
    · cases h
  | tick g i =>
    simp only [step] at h
    split at h
    · rename_i r hr
      split at h <;> cases h
      · rename_i st nr hst
        rcases Server.roster_roomTick hst g i with ⟨heq, -⟩ | ⟨nr', heq, hlast, hmove⟩
        · cases heq
        · cases heq
          refine ⟨some g, .single ?_⟩
          dsimp only
          rw [hmove]
          exact .move g i r nr hr hlast
      · rename_i st hst
        rcases Server.roster_roomTick hst g i with ⟨-, heq⟩ | ⟨nr, heq, -⟩
        · exact hsame heq
        · cases heq
    · cases h

theorem roster_of_turn {a : Turn} (h : turn a s = some t) :
    ∃ g, s.srv.roster.Steps g t.srv.roster := by
  cases a with
  | op o => exact roster_step h
  | join idx =>
    cases h
    rcases s.srv.roster_join idx with heq | ⟨r, hworkers, hlast, heq⟩
    · exact ⟨none, by rw [heq]; exact .refl⟩
    · exact ⟨none, by rw [heq]; exact .single (.post r hworkers hlast)⟩
  | leave idx =>
    cases h
    exact ⟨none, by rw [s.srv.roster_onSessionLeave idx]; exact .refl⟩
  | tickOnce g =>
    cases h
    exact ⟨some g, s.srv.roster_tickOnce g⟩

/-- Every slot is free at first. -/
theorem roster_init {sessionCapacity roomCapacity workerCount : Nat} (hcap : roomCapacity < 2 ^ 32) :
    (init sessionCapacity roomCapacity workerCount).srv.roster.Kept := by
  have hfree (r : Nat) : r ∈ (List.range roomCapacity).reverse ↔ r < roomCapacity := by simp
  constructor
  · exact hcap
  · intro r
    show (List.range roomCapacity).reverse.count r + List.count r [] + List.count r [] = _
    rw [List.count_reverse, List.count_nil, List.Nodup.count List.nodup_range]
    simp only [List.mem_range, Nat.add_zero]
    rfl
  · rintro g r ⟨⟩
  · rintro g r ⟨⟩
  · rintro r ⟨hlt, hnot⟩
    exact absurd ((hfree r).mpr hlt) hnot
  · intro w
    apply Eq.symm
    apply Finset.card_eq_zero.mpr
    apply Finset.filter_false_of_mem
    rintro r hr ⟨hnot, -⟩
    exact hnot ((hfree r).mpr (Finset.mem_range.mp hr))

theorem kept_of_reach {sessionCapacity roomCapacity workerCount : Nat}
    (hcap : roomCapacity < 2 ^ 32)
    (h : Reach turn Any (init sessionCapacity roomCapacity workerCount) s) : s.srv.roster.Kept := by
  refine h.invariant (P := fun s => s.srv.roster.Kept) (roster_init hcap) ?_
  intro s a t _ hs _ hstep
  obtain ⟨g, hsteps⟩ := roster_of_turn hstep
  exact hs.steps hsteps

end Serial

/-- The lists of the manager and of the workers agree with each other. -/
structure Server.Placement (st : Server) : Prop where
  /-- A live room is in the workers' lists and mailboxes once. -/
  once : ∀ r, st.roster.Live r →
    ∑ g ∈ Finset.range st.workerCount, ((st.myRooms g).count r + (st.mail g).count r) = 1
  own : ∀ g r, r ∈ st.myRooms g ∨ r ∈ st.mail g → st.roster.Live r ∧ (st.rooms r).gameWorker = g
  free : ∀ r, r < st.cap → ¬st.roster.Live r →
    st.freeRooms.count r = 1 ∧ ∀ g, r ∉ st.myRooms g ∧ r ∉ st.mail g
  loads : ∀ w, (st.roomsPerWorker w).toNat = (st.roster.rooms w).card

theorem Server.placement_of_kept {st : Server} (h : st.roster.Kept) : st.Placement where
  once r hr := h.placed_once hr
  own g r hr := by
    rcases hr with hr | hr
    · exact ⟨h.live_of_mine hr, h.mine_worker g r hr⟩
    · exact ⟨h.live_of_mail hr, h.mail_worker g r hr⟩
  free r hr hnot := by
    have hfree : r ∈ st.freeRooms := by
      by_contra hmem
      exact hnot ⟨hr, hmem⟩
    exact ⟨h.count_free hfree, fun g => ⟨(h.not_kept hfree g).2, (h.not_kept hfree g).1⟩⟩
  loads w := h.loads w

/-- The worker of every new room of a `Join` has the fewest live rooms. -/
theorem Server.join_least {st : Server} (h : st.roster.Kept) {idx r : Nat} (hr : r ∈ st.freeRooms)
    (hlive : (st.join idx).1.roster.Live r) :
    ((st.join idx).1.rooms r).gameWorker < st.workerCount ∧
      ∀ w, w < st.workerCount →
        (st.roster.rooms ((st.join idx).1.rooms r).gameWorker).card ≤ (st.roster.rooms w).card := by
  rcases st.roster_join idx with hsame | ⟨x, hworkers, hlast, hpost⟩
  · rw [hsame] at hlive
    exact absurd hr hlive.2
  · have hx : r = x := by
      by_contra hne
      rw [hpost] at hlive
      exact hlive.2 ((h.mem_dropLast hlast r).mpr ⟨hr, hne⟩)
    subst hx
    have hworker : ((st.join idx).1.rooms r).gameWorker = st.roster.leastLoaded := by
      have hsame := congrArg (fun R : Roster => R.worker r) hpost
      exact hsame.trans (Function.update_self ..)
    rw [hworker]
    refine ⟨st.roster.leastLoaded_lt hworkers, fun w hw => ?_⟩
    rw [← h.loads, ← h.loads]
    exact UInt32.le_iff_toNat_le.mp (st.roster.leastLoaded_le hw)

/-- While a room lives its worker stays. -/
theorem Serial.worker_kept {s t : Serial} {r : Nat} (hkept : s.srv.roster.Kept)
    (h : Reach turn (fun _ u => u.srv.roster.Live r) s t) :
    (t.srv.rooms r).gameWorker = (s.srv.rooms r).gameWorker := by
  have hboth : t.srv.roster.Kept ∧ (t.srv.rooms r).gameWorker = (s.srv.rooms r).gameWorker := by
    induction h with
    | refl => exact ⟨hkept, rfl⟩
    | tail _ hlive hstep ih =>
      obtain ⟨hkept, hworker⟩ := ih
      obtain ⟨g, hsteps⟩ := roster_of_turn hstep
      exact ⟨hkept.steps hsteps, (hkept.worker_steps hsteps hlive).trans hworker⟩
  exact hboth.2

/-- In every run of joins, leaves, whole `TickOnce` runs and single operations: each live room
is kept once, by its own worker, which stays; each free slot is free once; the loads count
the live rooms, and a `Join` gives a new room to a worker with the fewest. -/
theorem room_placement {sessionCapacity roomCapacity workerCount : Nat}
    (hcap : roomCapacity < 2 ^ 32) {s : Serial}
    (h : Reach Serial.turn Any (Serial.init sessionCapacity roomCapacity workerCount) s) :
    s.srv.Placement ∧
    (∀ r t, Reach Serial.turn (fun _ u => u.srv.roster.Live r) s t →
      (t.srv.rooms r).gameWorker = (s.srv.rooms r).gameWorker) ∧
    ∀ idx r, r ∈ s.srv.freeRooms → (s.srv.join idx).1.roster.Live r →
      ((s.srv.join idx).1.rooms r).gameWorker < s.srv.workerCount ∧
        ∀ w, w < s.srv.workerCount →
          (s.srv.roster.rooms ((s.srv.join idx).1.rooms r).gameWorker).card ≤
            (s.srv.roster.rooms w).card := by
  have hkept := Serial.kept_of_reach hcap h
  refine ⟨Server.placement_of_kept hkept, ?_, ?_⟩
  · intro r t hrun
    exact Serial.worker_kept hkept hrun
  · intro idx r hr hlive
    exact Server.join_least hkept hr hlive

/-- Two players of two rooms, each with a worker; the first one leaves. -/
def twoRooms : List Turn :=
  [.op (.accept 0 5 true true true), .join 0, .tickOnce 0, .join 1, .join 2, .join 3, .join 4,
    .tickOnce 1, .leave 0, .tickOnce 0]

theorem room_placement_twoRooms : ∃ s,
    run Serial.turn twoRooms (Serial.init 8 4 2) = some s ∧ s.srv.Placement ∧
      s.srv.myRooms 0 = [0] ∧ s.srv.myRooms 1 = [1] ∧ s.srv.roster.rooms 1 = {1} := by
  have hrun : (run Serial.turn twoRooms (Serial.init 8 4 2)).map (fun s =>
      (s.srv.myRooms 0, s.srv.myRooms 1, s.srv.roster.rooms 1)) = some ([0], [1], {1}) := by
    decide +kernel
  obtain ⟨s, hs, hproj⟩ := Option.map_eq_some_iff.mp hrun
  simp only [Prod.mk.injEq] at hproj
  obtain ⟨hplaced, -, -⟩ := room_placement (by decide) (reach_of_run hs)
  exact ⟨s, hs, hplaced, hproj⟩

end BeltServer
