import BeltServer.Consistent

/-!
# What happens on the stage of a room

The members with their inputs, the input queue and the world are touched by few sections
of the machine. `System.cue` names what the next step of an actor does to them, and
`stage_step` says that every step of the machine does just that.
-/

namespace BeltServer

set_option autoImplicit false

/-- The part of a room that ticks work on. -/
structure Stage where
  members : Seat → Member
  inQ : List InputCmd
  world : SimWorld

def Room.stage (R : Room) : Stage := ⟨R.members, R.inQ, R.world⟩

/-- One change of the stages: an input is queued, a join entry is seated, a member leaves, a
slot is reset, a room ticks, a member moves, the clock of the new room is set. -/
inductive Cue where
  | send (r : Nat) (c : InputCmd)
  | seat (r : Nat) (e : RoomJoinEntry)
  | unseat (r : Nat) (i : Seat)
  | clear (r : Nat)
  | tick (r : Nat)
  | move (old nr : Nat) (i : Seat)
  | resume (old nr : Nat)

namespace Server

def stage (st : Server) (r : Nat) : Stage := (st.rooms r).stage

/-- The sections behind the cues, without what they do elsewhere. -/
def perform (st : Server) : Option Cue → Server
  | none => st
  | some (.send r c) => st.modRoom r fun R => { R with inQ := R.inQ ++ [c] }
  | some (.seat r e) => st.seatMember r e
  | some (.unseat r i) => st.modRoom r fun R => R.unseat i
  | some (.clear r) => st.modRoom r Room.reset
  | some (.tick r) => st.modRoom r Room.step
  | some (.move old nr i) => st.moveMember old nr i
  | some (.resume old nr) => st.modRoom nr fun R =>
      { R with world := { R.world with tick := (st.rooms old).world.tick } }

end Server

namespace System

/-- What the next step of an actor does to the stages, if it is enabled. -/
def cue (s : System) : Act → Option Cue
  | .net w =>
    match s.net w with
    | .inputPush _ r c => some (.send r c)
    | _ => none
  | .lock =>
    match s.lock with
    | .scan _ _ =>
      match s.srv.openRooms.getLast? with
      | some _ => none
      | none => s.srv.freeRooms.getLast?.map .clear
    | .move _ _ old nr (i :: _) _ _ _ => some (.move old nr i)
    | .move _ _ old nr [] _ _ _ => some (.resume old nr)
    | _ => none
  | .tick g i => (s.srv.myRooms g)[i]?.map .tick
  | .game g =>
    match s.game g with
    | .joins _ r (e :: _) _ => if s.srv.staleJoin e then none else some (.seat r e)
    | .leaves _ r (e :: _) => ((s.srv.rooms r).findLeaver e).map (.unseat r)
    | .exit _ _ => s.srv.freeRooms.getLast?.map .clear
    | _ => none
  | _ => none

end System

/-! ### Sections -/

namespace Server

theorem stage_modRoom (st : Server) (r : Nat) (f : Room → Room) :
    (st.modRoom r f).stage = Function.update st.stage r (f (st.rooms r)).stage := by
  funext r'
  by_cases hr : r' = r
  · subst hr
    simp [stage, modRoom]
  · simp [stage, modRoom, hr]

theorem stage_modRoom_of_eq {s : Server} {r : Nat} {f : Room → Room}
    (h : (f (s.rooms r)).stage = (s.rooms r).stage) : (s.modRoom r f).stage = s.stage := by
  rw [stage_modRoom, h]
  exact Function.update_eq_self r s.stage

/-! What each cue does, one stage at a time. -/

section Perform
variable (st : Server)

theorem perform_send (r : Nat) (c : InputCmd) : (st.perform (some (.send r c))).stage =
    Function.update st.stage r { st.stage r with inQ := (st.stage r).inQ ++ [c] } := by
  simp only [perform]
  rw [stage_modRoom]
  rfl

theorem perform_seat (r : Nat) (e : RoomJoinEntry) : (st.perform (some (.seat r e))).stage =
    Function.update st.stage r ((st.rooms r).seatMember e (st.sess e.sessIdx).owner).stage := by
  simp only [perform, seatMember]
  exact stage_modRoom ..

theorem perform_unseat (r : Nat) (i : Seat) : (st.perform (some (.unseat r i))).stage =
    Function.update st.stage r ((st.rooms r).unseat i).stage := by
  simp only [perform]
  exact stage_modRoom ..

theorem perform_clear (r : Nat) : (st.perform (some (.clear r))).stage =
    Function.update st.stage r (st.rooms r).reset.stage := by
  simp only [perform]
  exact stage_modRoom ..

theorem perform_tick (r : Nat) : (st.perform (some (.tick r))).stage =
    Function.update st.stage r (st.rooms r).step.stage := by
  simp only [perform]
  exact stage_modRoom ..

theorem perform_resume (old nr : Nat) : (st.perform (some (.resume old nr))).stage =
    Function.update st.stage nr { st.stage nr with
      world := { (st.stage nr).world with tick := (st.stage old).world.tick } } := by
  simp only [perform]
  rw [stage_modRoom]
  rfl

theorem perform_move_unused {old nr : Nat} {i : Seat}
    (h : ((st.stage old).members i).used = false) :
    (st.perform (some (.move old nr i))).stage = st.stage := by
  have hunused : ((st.rooms old).members i).used = false := h
  simp only [perform, moveMember_of_unused nr hunused]

/-- A member's record goes over, and its actor stands at the spawn point. -/
theorem perform_move {old nr : Nat} (hne : nr ≠ old) {i : Seat}
    (h : ((st.stage old).members i).used = true) : (st.perform (some (.move old nr i))).stage =
    Function.update (Function.update st.stage nr
      { st.stage nr with
        members := Function.update (st.stage nr).members i ((st.stage old).members i)
        world := { (st.stage nr).world with
          actors := Function.update (st.stage nr).world.actors (slotOf i)
            (((st.stage nr).world.actors (slotOf i)).spawnPlayer i) } }) old
      { st.stage old with
        members := Function.update (st.stage old).members i
          { (st.stage old).members i with used := false } } := by
  have hu : ((st.rooms old).members i).used = true := h
  simp only [perform, moveMember, hu, Bool.not_true, Bool.false_eq_true, if_false]
  have hsess (st' : Server) : (if (st'.sess ((st.rooms old).members i).sessIdx).gen =
      ((st.rooms old).members i).sessGen then
      st'.modSession ((st.rooms old).members i).sessIdx fun s => { s with roomIdx := nr }
      else st').stage = st'.stage := by
    split <;> rfl
  rw [hsess, stage_modRoom, stage_modRoom]
  have hold (f : Room → Room) : (st.modRoom nr f).rooms old = st.rooms old :=
    Function.update_of_ne (Ne.symm hne) ..
  rw [hold]
  rfl

end Perform

theorem stage_congr {s t : Server} (h : t.rooms = s.rooms) : t.stage = s.stage := by
  funext r
  simp only [stage, h]

theorem stage_enqueue {st st' : Server} {idx : Nat} {m : Msg} (h : st.enqueue idx m = some st') :
    st'.rooms = st.rooms := by
  obtain ⟨q, _, rfl⟩ := Option.map_eq_some_iff.mp h
  rfl

theorem accept_rooms (st : Server) (w : Nat) (fd : Int) (recvOk sendOk ctlOk : Bool) :
    (st.accept w fd recvOk sendOk ctlOk).rooms = st.rooms := by
  unfold accept
  split
  · rfl
  · dsimp only
    split <;> rfl

theorem sendSnapshot_rooms (st : Server) (r : Nat) (snap : Snapshot) (i : Seat) :
    (st.sendSnapshot r snap i).rooms = st.rooms := by
  unfold sendSnapshot
  dsimp only
  split
  · rfl
  · split
    · rename_i st' h
      exact (stage_enqueue h : st'.rooms = st.rooms)
    · rfl

theorem sendSnapshots_rooms (st : Server) (r : Nat) (snap : Snapshot) (is : List Seat) :
    (is.foldl (fun st' i => st'.sendSnapshot r snap i) st).rooms = st.rooms := by
  induction is generalizing st with
  | nil => rfl
  | cons i is ih => exact (ih _).trans (sendSnapshot_rooms st r snap i)

theorem tickBody_rooms (st : Server) (r : Nat) :
    (st.tickBody r).rooms = (st.modRoom r Room.step).rooms := by
  unfold tickBody
  dsimp only
  split
  · exact sendSnapshots_rooms _ _ _ _
  · rfl

theorem announceSeat_rooms (st : Server) (nr : Nat) (i : Seat) :
    (st.announceSeat nr i).rooms = st.rooms := by
  unfold announceSeat
  dsimp only
  split
  · rfl
  · split
    · rename_i st' h
      exact (stage_enqueue h : st'.rooms = st.rooms)
    · rfl

theorem announce_rooms (st : Server) (nr : Nat) : (st.announce nr).rooms = st.rooms := by
  unfold announce
  generalize List.finRange 4 = is
  induction is generalizing st with
  | nil => rfl
  | cons i is ih => exact (ih _).trans (announceSeat_rooms st nr i)

theorem stage_takeSlot {st st' : Server} {r : Nat} (h : st.takeSlot = some (r, st')) :
    st'.stage = (st.perform (some (.clear r))).stage := by
  obtain ⟨_, rfl⟩ := takeSlot_some h
  exact stage_congr rfl

theorem stage_assign (st : Server) (r g : Nat) : (st.assign r g).stage = st.stage := by
  refine (stage_congr (s := st.modRoom r fun R => { R with gameWorker := g }) rfl).trans ?_
  exact stage_modRoom_of_eq (by rfl)

theorem stage_leavePush (st : Server) (r idx : Nat) : (st.leavePush r idx).stage = st.stage := by
  unfold leavePush
  exact stage_modRoom_of_eq (by rfl)

theorem stage_openFirst (st : Server) (r : Nat) : (st.openFirst r).stage = st.stage := by
  refine (stage_congr (s := st.modRoom r fun R =>
    { R with
      seatUsed := Function.update R.seatUsed firstSeat true
      everReserved := true
      reservedSeats := 1 }) rfl).trans ?_
  exact stage_modRoom_of_eq (by rfl)

theorem stage_pushJoin (st : Server) (r idx : Nat) (i : Seat) :
    (st.pushJoin r idx i).stage = st.stage := by
  unfold pushJoin
  refine Eq.trans (stage_modRoom_of_eq (by rfl)) ?_
  exact stage_congr rfl

theorem stage_closeOld (st : Server) (old : Nat) : (st.closeOld old).stage = st.stage := by
  unfold closeOld
  exact stage_modRoom_of_eq (by rfl)

theorem stage_takeQueues (st : Server) (r : Nat) : (st.takeQueues r).stage = st.stage := by
  unfold takeQueues
  exact stage_modRoom_of_eq (by rfl)

theorem stage_releaseSeat (st : Server) (r : Nat) (i : Seat) :
    (st.releaseSeat r i).stage = st.stage := by
  unfold releaseSeat
  exact stage_modRoom_of_eq (by rfl)

theorem stage_unseat (st : Server) (r : Nat) (i : Seat) :
    (st.unseat r i).stage = (st.perform (some (.unseat r i))).stage := by
  unfold unseat perform
  rw [stage_modRoom, stage_modRoom]
  rfl

theorem stage_markDead (st : Server) (r : Nat) : (st.markDead r).stage = st.stage := by
  unfold markDead
  exact stage_modRoom_of_eq (by rfl)

theorem stage_scanOpen (st : Server) (r : Nat) : (st.scanOpen r).1.stage = st.stage := by
  unfold scanOpen
  dsimp only
  split
  · rfl
  · split
    · rfl
    · split
      · rw [stage_modRoom_of_eq (by rfl)]
        exact stage_congr rfl
      · rw [stage_modRoom_of_eq (by rfl)]

theorem carryJoin_stage (st : Server) (nr : Nat) (e : RoomJoinEntry) :
    (st.carryJoin nr e).stage = st.stage := by
  have hroom := stage_modRoom_of_eq (s := st) (r := nr) (f := fun R =>
    if R.seatUsed e.actorId then { R with pendingJoin := R.pendingJoin ++ [e] }
    else
      { R with
        seatUsed := Function.update R.seatUsed e.actorId true
        reservedSeats := R.reservedSeats + 1
        pendingJoin := R.pendingJoin ++ [e] }) (by split <;> rfl)
  refine Eq.trans ?_ hroom
  unfold carryJoin
  dsimp only
  split <;> exact stage_congr rfl

theorem stage_openNew (st : Server) (old nr : Nat) :
    (st.openNew old nr).stage = (st.perform (some (.resume old nr))).stage := by
  unfold openNew
  rw [stage_modRoom_of_eq (by rfl)]
  rw [stage_modRoom, perform, stage_modRoom]
  rfl

theorem stage_freeRoomIfDrained (st : Server) (r : Nat) : (st.freeRoomIfDrained r).stage = st.stage :=
  stage_modRoom_of_eq (s := st) (r := r) (f := fun R => { R with gen := R.gen + 1 }) rfl

theorem stage_finishTransfer (st : Server) (old nr : Nat) (moved : Int)
    (leaves : List RoomLeaveEntry) :
    (st.finishTransfer old nr moved leaves).stage = st.stage := by
  have hfin := stage_modRoom_of_eq (s := st) (r := nr) (f := fun R =>
    { R with pendingLeave := R.pendingLeave ++ leaves, memberCount := moved }) rfl
  refine Eq.trans ?_ hfin
  unfold finishTransfer
  dsimp only
  refine (stage_congr (s := Server.freeRoomIfDrained _ old) rfl).trans ?_
  rw [stage_freeRoomIfDrained]
  split <;> exact stage_congr rfl

end Server

/-! ### Transfers -/

namespace Places

variable {L : Ledger} (h : Places L) {g k old nr : Nat}
  (ht : L.lock.transfer = some (g, k, old, nr))
include h ht

theorem old_mine : old ∈ L.myRooms g := by
  refine h.mem_of_place (i := k) ?_
  rw [(h.transfer g k old nr ht).1]
  rfl

omit h in
theorem nr_inHand : L.lock.inHand = some nr := by
  cases hl : L.lock <;> rw [hl] at ht <;> cases ht <;> rfl

theorem transfer_ne : old ≠ nr := by
  rintro rfl
  exact (h.not_kept (Or.inr (nr_inHand ht)) g).2 (h.old_mine ht)

omit ht

/-- A room that an idle worker keeps takes no part in a transfer. -/
theorem not_transfer_of_idle {g₀ k₀ r : Nat} (hg : L.game g₀ = .idle)
    (hr : (L.myRooms g₀)[k₀]? = some r) (g k old nr : Nat)
    (ht : L.lock.transfer = some (g, k, old, nr)) : old ≠ r ∧ nr ≠ r := by
  have hmem : r ∈ L.myRooms g₀ := List.mem_of_getElem? hr
  constructor
  · rintro rfl
    have hown := h.mine_owner g old (h.old_mine ht)
    rw [h.mine_owner g₀ old hmem] at hown
    subst hown
    have hmoving := (h.transfer g₀ k old nr ht).1
    rw [hg] at hmoving
    cases hmoving
  · rintro rfl
    exact (h.not_kept (Or.inr (nr_inHand ht)) g₀).2 hmem

end Places

/-! ### Steps -/

namespace System

open Server

theorem send_stage (s : System) (w idx : Nat) (m : Msg) : (s.send w idx m).srv.stage = s.srv.stage := by
  unfold send
  split
  · rename_i st h
    exact stage_congr (stage_enqueue h)
  · exact stage_congr rfl

theorem frame_stage (s : System) (w idx : Nat) (d : Dispatched) :
    (s.frame w idx d).srv.stage = s.srv.stage := by
  cases d with
  | send m => exact send_stage s w idx m
  | _ => exact stage_congr rfl

theorem netStep_stage {s t : System} {w : Nat} (h : s.netStep w = some t) :
    t.srv.stage = (s.srv.perform (s.cue (.net w))).stage := by
  unfold netStep at h
  split at h
  · cases h
  · rename_i idx hpc
    simp only [cue, hpc, perform]
    split at h
    · cases h
      rfl
    · split at h <;> cases h
      rfl
  · cases h
  · rename_i idx a r hpc
    simp only [cue, hpc, perform]
    cases h
    exact send_stage ..
  · rename_i idx hpc
    simp only [cue, hpc, perform]
    cases h
    exact send_stage ..
  · rename_i idx hpc
    simp only [cue, hpc, perform]
    split at h
    · rename_i st hread
      cases h
      refine stage_congr (?_ : st.rooms = s.srv.rooms)
      unfold leaveRead at hread
      dsimp only at hread
      split at hread <;> cases hread
      rfl
    · rename_i st r hread
      cases h
      refine stage_congr (?_ : st.rooms = s.srv.rooms)
      unfold leaveRead at hread
      dsimp only at hread
      split at hread <;> cases hread
      rfl
  · rename_i idx r hpc
    simp only [cue, hpc, perform]
    cases h
    exact stage_leavePush ..
  · rename_i idx hpc
    simp only [cue, hpc, perform]
    cases h
    exact stage_congr rfl
  · rename_i idx r c hpc
    simp only [cue, hpc]
    cases h
    exact stage_congr rfl

theorem lockStep_stage {s t : System} (h : s.lockStep = some t) :
    t.srv.stage = (s.srv.perform (s.cue .lock)).stage := by
  unfold lockStep at h
  split at h
  · cases h
  · rename_i w idx hpc
    split at h
    · rename_i r hlast
      simp only [cue, hpc, hlast, perform]
      have hscan := stage_scanOpen s.srv r
      split at h
      · rename_i st i heq
        rw [heq] at hscan
        cases h
        exact hscan
      · rename_i st heq
        rw [heq] at hscan
        cases h
        exact hscan
    · rename_i hlast
      simp only [cue, hpc, hlast]
      split at h
      · rename_i htake
        cases h
        rw [takeSlot_none htake]
        rfl
      · rename_i r st htake
        cases h
        rw [(takeSlot_some htake).1]
        exact (stage_assign st r _).trans (stage_takeSlot htake)
  · rename_i w idx r hpc
    simp only [cue, hpc, perform]
    cases h
    exact stage_congr rfl
  · rename_i w idx r hpc
    simp only [cue, hpc, perform]
    cases h
    exact stage_openFirst ..
  · rename_i w idx r i hpc
    simp only [cue, hpc, perform]
    cases h
    exact stage_pushJoin ..
  · rename_i w idx r i hpc
    simp only [cue, hpc, perform]
    cases h
    exact stage_congr rfl
  · rename_i g i old nr hpc
    simp only [cue, hpc, perform]
    cases h
    exact stage_closeOld ..
  · rename_i g i old nr seat rest moved joins leaves hpc
    simp only [cue, hpc, perform]
    cases h
    rfl
  · rename_i g i old nr moved joins leaves hpc
    simp only [cue, hpc]
    cases h
    exact stage_openNew s.srv old nr
  · rename_i g i old nr moved e joins leaves hpc
    simp only [cue, hpc, perform]
    cases h
    exact carryJoin_stage s.srv nr e
  · rename_i g i old nr moved leaves hpc
    simp only [cue, hpc, perform]
    cases h
    exact (stage_congr rfl).trans (stage_finishTransfer s.srv old nr moved leaves)

theorem gameStep_stage {s t : System} {g : Nat} (h : s.gameStep g = some t) :
    t.srv.stage = (s.srv.perform (s.cue (.game g))).stage := by
  unfold gameStep at h
  split at h
  · cases h
  · rename_i i r e js ls hpc
    split at h
    · rename_i hstale
      simp only [cue, hpc, if_pos hstale, perform]
      cases h
      exact stage_releaseSeat ..
    · rename_i hstale
      simp only [cue, hpc, if_neg hstale]
      cases h
      rfl
  · rename_i i r ls hpc
    simp only [cue, hpc, perform]
    cases h
    rfl
  · rename_i i r idx js ls hpc
    simp only [cue, hpc, perform]
    cases h
    exact stage_congr rfl
  · rename_i i r e ls hpc
    split at h
    · rename_i seat hseat
      simp only [cue, hpc, hseat]
      cases h
      exact stage_unseat ..
    · rename_i hseat
      simp only [cue, hpc, hseat]
      cases h
      rfl
  · rename_i i r hpc
    simp only [cue, hpc, perform]
    split at h
    · cases h
      exact stage_markDead ..
    · cases h
      rfl
  · rename_i i r idx ls hpc
    simp only [cue, hpc, perform]
    cases h
    exact stage_congr rfl
  · rename_i i r hpc
    simp only [cue, hpc, perform]
    split at h
    · cases h
      exact (stage_congr rfl).trans ((stage_freeRoomIfDrained _ r).trans (stage_congr rfl))
    · cases h
  · rename_i i r hpc
    simp only [cue, hpc]
    split at h
    · split at h
      · rename_i htake
        cases h
        rw [takeSlot_none htake]
        rfl
      · rename_i nr st htake
        cases h
        rw [(takeSlot_some htake).1]
        exact (stage_assign st nr _).trans (stage_takeSlot htake)
    · cases h
  · cases h
  · rename_i nr hpc
    simp only [cue, hpc, perform]
    cases h
    exact stage_congr (announce_rooms s.srv nr)

/-- Every step of the machine does to the stages what its cue says. -/
theorem stage_step {a : Act} {s t : System} (h : step a s = some t) :
    t.srv.stage = (s.srv.perform (s.cue a)).stage := by
  cases a with
  | accept w fd recvOk sendOk ctlOk =>
    simp only [step] at h
    split at h <;> cases h
    exact stage_congr (accept_rooms ..)
  | frame w idx f remainUs =>
    simp only [step] at h
    split at h <;> cases h
    exact frame_stage ..
  | disconnect w idx =>
    simp only [step] at h
    split at h <;> cases h
    exact stage_congr rfl
  | flush w idx n =>
    simp only [step] at h
    split at h <;> cases h
    exact stage_congr rfl
  | net w => exact netStep_stage h
  | lock => exact lockStep_stage h
  | drain g =>
    simp only [step] at h
    split at h <;> cases h
    exact stage_congr rfl
  | process g i =>
    simp only [step] at h
    split at h
    · split at h <;> cases h
      exact stage_takeQueues ..
    · cases h
  | tick g i =>
    simp only [step] at h
    split at h
    · split at h
      · rename_i r hr
        cases h
        simp only [cue, hr, Option.map_some, perform]
        have hbody := stage_congr (tickBody_rooms s.srv r)
        split <;> exact hbody
      · cases h
    · cases h
  | game g => exact gameStep_stage h

/-! ### Inputs about to be queued -/

section Pushing
variable {s t : System}

/-- A worker that is set to something else carries no input. -/
theorem inputPush_of_setNet {w w' idx r : Nat} {pc : NetPc} {c : InputCmd}
    (hpc : ∀ idx r c, pc ≠ .inputPush idx r c)
    (h : (s.setNet w pc).net w' = .inputPush idx r c) : s.net w' = .inputPush idx r c := by
  rcases eq_or_ne w' w with rfl | hw
  · have hself : (s.setNet w' pc).net w' = pc := Function.update_self ..
    exact absurd (hself.symm.trans h) (hpc idx r c)
  · have hother : (s.setNet w pc).net w' = s.net w' := Function.update_of_ne hw ..
    exact hother.symm.trans h

theorem inputPush_of_send {w w' idx idx' r : Nat} {m : Msg} {c : InputCmd}
    (h : (s.send w idx m).net w' = .inputPush idx' r c) : s.net w' = .inputPush idx' r c := by
  unfold send at h
  split at h
  · exact inputPush_of_setNet (by rintro _ _ _ ⟨⟩) h
  · exact inputPush_of_setNet (by rintro _ _ _ ⟨⟩) h

theorem inputPush_of_frame {w w' idx idx' r : Nat} {d : Server.Dispatched} {c : InputCmd}
    (h : (s.frame w idx d).net w' = .inputPush idx' r c) : s.net w' = .inputPush idx' r c ∨
      w' = w ∧ idx' = idx ∧ d = .input r c := by
  cases d with
  | send m => exact Or.inl (inputPush_of_send h)
  | join => exact Or.inl (inputPush_of_setNet (by rintro _ _ _ ⟨⟩) h)
  | input r' c' =>
    rcases eq_or_ne w' w with rfl | hw
    · have hself : (s.setNet w' (.inputPush idx r' c')).net w' = .inputPush idx r' c' :=
        Function.update_self ..
      cases hself.symm.trans h
      exact Or.inr ⟨rfl, rfl, rfl⟩
    · have hother : (s.setNet w (.inputPush idx r' c')).net w' = s.net w' :=
        Function.update_of_ne hw ..
      exact Or.inl (hother.symm.trans h)
  | ignore => exact Or.inl h
  | disconnect => exact Or.inl (inputPush_of_setNet (by rintro _ _ _ ⟨⟩) h)

theorem inputPush_of_netStep {w w' idx r : Nat} {c : InputCmd} (ht : s.netStep w = some t)
    (h : t.net w' = .inputPush idx r c) : s.net w' = .inputPush idx r c := by
  unfold netStep at ht
  split at ht
  · cases ht
  · split at ht
    · cases ht
      exact inputPush_of_setNet (by rintro _ _ _ ⟨⟩) h
    · split at ht
      · cases ht
        exact inputPush_of_setNet (by rintro _ _ _ ⟨⟩) h
      · cases ht
  · cases ht
  · cases ht
    exact inputPush_of_send h
  · cases ht
    exact inputPush_of_send h
  · split at ht
    all_goals
      cases ht
      exact inputPush_of_setNet (by rintro _ _ _ ⟨⟩) h
  all_goals
    cases ht
    exact inputPush_of_setNet (by rintro _ _ _ ⟨⟩) h

theorem inputPush_of_lockStep {w' idx r : Nat} {c : InputCmd} (ht : s.lockStep = some t)
    (h : t.net w' = .inputPush idx r c) : s.net w' = .inputPush idx r c := by
  unfold lockStep at ht
  split at ht
  · cases ht
  · split at ht
    · split at ht
      all_goals
        cases ht
        exact h
    · split at ht
      · cases ht
        exact inputPush_of_setNet (by rintro _ _ _ ⟨⟩) h
      · cases ht
        exact h
  · cases ht
    exact h
  · cases ht
    exact h
  · cases ht
    exact h
  · cases ht
    exact inputPush_of_setNet (by rintro _ _ _ ⟨⟩) h
  all_goals
    cases ht
    exact h

theorem gameStep_net {g : Nat} (h : s.gameStep g = some t) : t.net = s.net := by
  unfold gameStep at h
  split at h
  · cases h
  · split at h
    all_goals
      cases h
      rfl
  · cases h
    rfl
  · cases h
    rfl
  · split at h
    all_goals
      cases h
      rfl
  · split at h
    all_goals
      cases h
      rfl
  · cases h
    rfl
  · split at h
    · cases h
      rfl
    · cases h
  · split at h
    · split at h
      all_goals
        cases h
        rfl
    · cases h
  · cases h
  · cases h
    rfl

/-- An input is on its way to a room once its frame was accepted. -/
theorem inputPush_of_step {a : Act} (h : step a s = some t) {w idx r : Nat} {c : InputCmd}
    (hw : t.net w = .inputPush idx r c) : s.net w = .inputPush idx r c ∨
      ∃ f remainUs, a = .frame w idx f remainUs ∧
        s.srv.dispatch idx remainUs (.decode f) = .input r c := by
  cases a with
  | accept w' fd recvOk sendOk ctlOk =>
    simp only [step] at h
    split at h <;> cases h
    exact Or.inl hw
  | frame w' idx' f remainUs =>
    simp only [step] at h
    split at h <;> cases h
    rcases inputPush_of_frame hw with hold | ⟨rfl, rfl, hd⟩
    · exact Or.inl hold
    · exact Or.inr ⟨f, remainUs, rfl, hd⟩
  | disconnect w' idx' =>
    simp only [step] at h
    split at h <;> cases h
    exact Or.inl (inputPush_of_setNet (by rintro _ _ _ ⟨⟩) hw)
  | flush w' idx' n =>
    simp only [step] at h
    split at h <;> cases h
    exact Or.inl hw
  | net w' => exact Or.inl (inputPush_of_netStep h hw)
  | lock => exact Or.inl (inputPush_of_lockStep h hw)
  | drain g =>
    simp only [step] at h
    split at h <;> cases h
    exact Or.inl hw
  | process g i =>
    simp only [step] at h
    split at h
    · split at h <;> cases h
      exact Or.inl hw
    · cases h
  | tick g i =>
    simp only [step] at h
    split at h
    · split at h
      · cases h
        left
        split at hw
        · exact hw
        · exact hw
      · cases h
    · cases h
  | game g => exact Or.inl (gameStep_net h ▸ hw)

end Pushing

/-! ### Cues -/

/-- Who gives a cue, and at which point. -/
inductive Cued (s : System) : Act → Cue → Prop where
  | send (w idx r : Nat) (c : InputCmd) (hw : s.net w = .inputPush idx r c) :
      Cued s (.net w) (.send r c)
  | seat (g k r : Nat) (e : RoomJoinEntry) (js : List RoomJoinEntry) (ls : List RoomLeaveEntry)
      (hg : s.game g = .joins k r (e :: js) ls) (hlive : s.srv.staleJoin e = false) :
      Cued s (.game g) (.seat r e)
  | unseat (g k r : Nat) (i : Seat) (e : RoomLeaveEntry) (ls : List RoomLeaveEntry)
      (hg : s.game g = .leaves k r (e :: ls)) (hi : (s.srv.rooms r).findLeaver e = some i) :
      Cued s (.game g) (.unseat r i)
  | clearNew (w idx r : Nat) (hlock : s.lock = .scan w idx)
      (hr : s.srv.freeRooms.getLast? = some r) : Cued s .lock (.clear r)
  | clearNext (g k old r : Nat) (hg : s.game g = .exit k old)
      (hr : s.srv.freeRooms.getLast? = some r) : Cued s (.game g) (.clear r)
  | tick (g k r : Nat) (hr : (s.srv.myRooms g)[k]? = some r) : Cued s (.tick g k) (.tick r)
  | move (g k old nr : Nat) (i : Seat) (rest : List Seat) (moved : Int) (joins : List RoomJoinEntry)
      (leaves : List RoomLeaveEntry)
      (hlock : s.lock = .move g k old nr (i :: rest) moved joins leaves) :
      Cued s .lock (.move old nr i)
  | resume (g k old nr : Nat) (moved : Int) (joins : List RoomJoinEntry)
      (leaves : List RoomLeaveEntry) (hlock : s.lock = .move g k old nr [] moved joins leaves) :
      Cued s .lock (.resume old nr)

theorem cued_of_cue {s : System} {a : Act} {c : Cue} (h : s.cue a = some c) : s.Cued a c := by
  cases a with
  | net w =>
    simp only [cue] at h
    split at h
    · rename_i idx r x hw
      cases h
      exact .send w idx r x hw
    · cases h
  | lock =>
    simp only [cue] at h
    split at h
    · rename_i w idx hlock
      split at h
      · cases h
      · obtain ⟨r, hr, rfl⟩ := Option.map_eq_some_iff.mp h
        exact .clearNew w idx r hlock hr
    · rename_i hlock
      cases h
      exact .move _ _ _ _ _ _ _ _ _ hlock
    · rename_i hlock
      cases h
      exact .resume _ _ _ _ _ _ _ hlock
    · cases h
  | tick g k =>
    obtain ⟨r, hr, rfl⟩ := Option.map_eq_some_iff.mp h
    exact .tick g k r hr
  | game g =>
    simp only [cue] at h
    split at h
    · rename_i hg
      split at h
      · cases h
      · rename_i hstale
        cases h
        exact .seat _ _ _ _ _ _ hg (by simpa using hstale)
    · rename_i hg
      obtain ⟨i, hi, rfl⟩ := Option.map_eq_some_iff.mp h
      exact .unseat _ _ _ _ _ _ hg hi
    · rename_i hg
      obtain ⟨r, hr, rfl⟩ := Option.map_eq_some_iff.mp h
      exact .clearNext _ _ _ _ hg hr
    · cases h
  | _ => cases h

/-- The manager lock changes in a step of its holder, when `Join` takes it, and when a transfer
begins, with the reset of the new room. -/
theorem lock_step {a : Act} {s t : System} (h : step a s = some t) :
    t.lock = s.lock ∨ (a = .lock ∧ s.lockStep = some t) ∨
      (s.lock = .free ∧ ∃ w idx, t.lock = .scan w idx) ∨
      (s.lock = .free ∧ ∃ g k old nr, t.lock = .close g k old nr ∧ s.cue a = some (.clear nr)) := by
  have hsend (s : System) (w idx : Nat) (m : Msg) : (s.send w idx m).lock = s.lock := by
    unfold send
    split <;> rfl
  cases a with
  | accept w fd recvOk sendOk ctlOk =>
    simp only [step] at h
    split at h <;> cases h
    exact Or.inl rfl
  | frame w idx f remainUs =>
    simp only [step] at h
    split at h <;> cases h
    left
    cases hd : s.srv.dispatch idx remainUs (.decode f) with
    | send m => exact hsend s w idx m
    | _ => rfl
  | disconnect w idx =>
    simp only [step] at h
    split at h <;> cases h
    exact Or.inl rfl
  | flush w idx n =>
    simp only [step] at h
    split at h <;> cases h
    exact Or.inl rfl
  | net w =>
    simp only [step, netStep] at h
    split at h
    · cases h
    · rename_i idx hpc
      split at h
      · cases h
        exact Or.inl rfl
      · split at h
        · rename_i hfree
          cases h
          exact Or.inr (Or.inr (Or.inl ⟨hfree, w, idx, rfl⟩))
        · cases h
    · cases h
    · cases h
      exact Or.inl (hsend ..)
    · cases h
      exact Or.inl (hsend ..)
    · split at h <;> cases h <;> exact Or.inl rfl
    · cases h
      exact Or.inl rfl
    · cases h
      exact Or.inl rfl
    · cases h
      exact Or.inl rfl
  | lock => exact Or.inr (Or.inl ⟨rfl, h⟩)
  | drain g =>
    simp only [step] at h
    split at h <;> cases h
    exact Or.inl rfl
  | process g i =>
    simp only [step] at h
    split at h
    · split at h <;> cases h
      exact Or.inl rfl
    · cases h
  | tick g i =>
    simp only [step] at h
    split at h
    · split at h
      · cases h
        left
        split <;> rfl
      · cases h
    · cases h
  | game g =>
    simp only [step, gameStep] at h
    split at h
    · cases h
    · split at h <;> cases h <;> exact Or.inl rfl
    · cases h
      exact Or.inl rfl
    · cases h
      exact Or.inl rfl
    · split at h <;> cases h <;> exact Or.inl rfl
    · split at h <;> cases h <;> exact Or.inl rfl
    · cases h
      exact Or.inl rfl
    · split at h <;> cases h
      exact Or.inl rfl
    · rename_i i r hg
      split at h
      · rename_i hfree
        split at h
        · cases h
          exact Or.inl rfl
        · rename_i nr st htake
          cases h
          refine Or.inr (Or.inr (Or.inr ⟨hfree, g, i, r, nr, rfl, ?_⟩))
          simp only [cue, hg, (takeSlot_some htake).1, Option.map_some]
      · cases h
    · cases h
    · cases h
      exact Or.inl rfl

/-- A transfer begins with the reset of its new room. -/
theorem transfer_step {a : Act} {s t : System} (h : step a s = some t) {p : Nat × Nat × Nat × Nat}
    (hp : t.lock.transfer = some p) :
    s.lock.transfer = some p ∨ s.cue a = some (.clear p.2.2.2) := by
  rcases lock_step h with hsame | ⟨rfl, hlock⟩ | ⟨-, w, idx, hscan⟩ |
    ⟨-, g, k, old, nr, hclose, hcue⟩
  · rw [hsame] at hp
    exact Or.inl hp
  · left
    unfold lockStep at hlock
    split at hlock
    · cases hlock
    · rename_i hpc
      split at hlock <;> split at hlock <;> cases hlock
      · cases hp
      · exact hp
      · cases hp
      · cases hp
    · cases hlock
      cases hp
    · cases hlock
      cases hp
    · cases hlock
      cases hp
    · cases hlock
      cases hp
    · rename_i hpc
      cases hlock
      rw [hpc]
      exact hp
    · rename_i hpc
      cases hlock
      rw [hpc]
      exact hp
    · rename_i hpc
      cases hlock
      rw [hpc]
      exact hp
    · rename_i hpc
      cases hlock
      rw [hpc]
      exact hp
    · cases hlock
      cases hp
  · rw [hscan] at hp
    cases hp
  · rw [hclose] at hp
    cases hp
    exact Or.inr hcue

/-! ### Members -/

section Members
variable {s : System} (h : Consistent s.ledger) {r r' : Nat} {i i' : Seat}
  (hused : ((s.srv.rooms r).members i).used = true)
  (hused' : ((s.srv.rooms r').members i').used = true)
include hused

/-- A used member is a holder of its seat. -/
theorem token_of_used : ⟨((s.srv.rooms r).members i).sessIdx, ((s.srv.rooms r).members i).sessGen, i⟩ ∈
    s.ledger.tokens r := by
  refine Multiset.mem_add.mpr (Or.inl (Multiset.mem_add.mpr (Or.inl ?_)))
  refine Tally.mem_ofTable.mpr ⟨i, ⟨((s.srv.rooms r).members i).sessIdx,
    ((s.srv.rooms r).members i).sessGen⟩, ?_, rfl⟩
  exact Room.seated_eq_some.mpr ⟨hused, rfl, rfl⟩

include h

theorem lt_cap_of_used : r < s.srv.cap := (h.refs.holder r _ (token_of_used hused)).room

theorem not_free_of_used : r ∉ s.srv.freeRooms := by
  intro hfree
  have hzero : s.ledger.tokens r = 0 := by
    refine h.seats.tokens_eq_zero (fun old nr hmoving => ?_) (h.seats.free r hfree)
    cases hlock : s.ledger.lock <;> rw [hlock] at hmoving <;> cases hmoving
    rename_i g k rest moved joins leaves
    have htransfer : s.ledger.lock.transfer = some (g, k, old, nr) := by
      rw [hlock]
      rfl
    constructor
    · rintro rfl
      exact h.places.not_free_of_mine (h.places.old_mine htransfer) hfree
    · rintro rfl
      exact h.places.not_free_of_inHand (Places.nr_inHand htransfer) hfree
  have htoken := token_of_used hused
  rw [hzero] at htoken
  exact Multiset.notMem_zero _ htoken

/-- A member's entry names its session in the current generation, and its place. -/
theorem holder_of_used :
    (s.srv.sess ((s.srv.rooms r).members i).sessIdx).gen = ((s.srv.rooms r).members i).sessGen ∧
      s.ledger.place ((s.srv.rooms r).members i).sessIdx = (r, i.val) := by
  have hholder := h.refs.holder r _ (token_of_used hused)
  exact ⟨hholder.gen, hholder.place⟩

include hused'

/-- No session has two members. -/
theorem used_unique
    (hsess : ((s.srv.rooms r').members i').sessIdx = ((s.srv.rooms r).members i).sessIdx) :
    r' = r ∧ i' = i := by
  obtain ⟨hroom, htoken⟩ := Ledger.token_unique h.refs.one (lt_cap_of_used h hused)
    (lt_cap_of_used h hused') (token_of_used hused) (token_of_used hused') hsess
  exact ⟨hroom, congrArg RoomJoinEntry.actorId htoken⟩

omit hused'

/-- The entry about to be seated is of another session than every member. -/
theorem sess_ne_of_hand {g k r₀ : Nat} {e : RoomJoinEntry} {js : List RoomJoinEntry}
    {ls : List RoomLeaveEntry} (hg : s.game g = .joins k r₀ (e :: js) ls) :
    ((s.srv.rooms r).members i).sessIdx ≠ e.sessIdx := by
  intro hsess
  have hplace : (s.ledger.game g).place = some (k, r₀) := by
    show (s.game g).place = some (k, r₀)
    rw [hg]
    rfl
  have hhand : e ∈ s.ledger.tokens r₀ := by
    refine Multiset.mem_add.mpr (Or.inr ?_)
    have howner := h.places.owner_of_place hplace
    show e ∈ (s.game (s.ledger.room r₀).owner).handAt r₀
    rw [howner, hg]
    simp [GamePc.handAt]
  have hr₀ := (h.refs.holder r₀ e hhand).room
  obtain ⟨rfl, htoken⟩ := Ledger.token_unique h.refs.one hr₀ (lt_cap_of_used h hused) hhand
    (token_of_used hused) hsess
  obtain rfl : i = e.actorId := congrArg RoomJoinEntry.actorId htoken
  have hempty := h.seats.seat_empty h.places hg
  have hseated := Room.seated_isSome (s.srv.rooms r) e.actorId
  rw [hused] at hseated
  have hnone : ((s.srv.rooms r).book.seated e.actorId) = none := hempty
  rw [hnone] at hseated
  cases hseated

end Members

end System

end BeltServer
