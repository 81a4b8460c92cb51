import BeltServer.Inputs

/-!
# Snapshots in the send rings

Only ticks put snapshots into send rings. A tick that is due takes one snapshot of its room
and offers it to every seated session that is still live, once; the ring takes it or the
drop is counted.
-/

namespace BeltServer

set_option autoImplicit false

def Msg.snapshot? : Msg → Option Snapshot
  | .snapshot _ snap => some snap
  | _ => none

/-- The snapshots accepted by the send ring since the session was opened, in order. -/
def Session.snapshots (s : Session) : List Snapshot := s.sendQ.log.filterMap Msg.snapshot?

namespace Server

/-! ### Sections -/

theorem sess_modSession_self (st : Server) (idx : Nat) (f : Session → Session) :
    (st.modSession idx f).sess idx = f (st.sess idx) := SessionPool.mod_slots_self ..

theorem sess_modSession_of_ne (st : Server) {idx j : Nat} (f : Session → Session) (hj : j ≠ idx) :
    (st.modSession idx f).sess j = st.sess j := SessionPool.mod_slots_of_ne f hj

theorem log_modSession {st : Server} {idx : Nat} {f : Session → Session}
    (hf : (f (st.sess idx)).sendQ.log = (st.sess idx).sendQ.log) (j : Nat) :
    ((st.modSession idx f).sess j).sendQ.log = (st.sess j).sendQ.log := by
  by_cases hj : j = idx
  · subst hj
    exact (congrArg (·.sendQ.log) (sess_modSession_self ..)).trans hf
  · exact congrArg (·.sendQ.log) (sess_modSession_of_ne st f hj)

theorem log_release (st : Server) (idx j : Nat) :
    ((st.release idx).sess j).sendQ.log = (st.sess j).sendQ.log := by
  by_cases hj : j = idx
  · subst hj
    rcases st.pool.release_cases j with ⟨_, h⟩ | ⟨_, h⟩
    all_goals
      have hself : (st.release j).sess j = (st.pool.release j).slots j := rfl
      rw [hself, h]
      simp only [Function.update_self]
      rfl
  · exact congrArg (·.sendQ.log) (SessionPool.release_slots_of_ne hj)

theorem log_leaveRead (st : Server) (idx j : Nat) :
    ((st.leaveRead idx).1.sess j).sendQ.log = (st.sess j).sendQ.log := by
  unfold Server.leaveRead
  dsimp only
  split
  · rfl
  · exact log_modSession rfl j

theorem log_scanOpen (st : Server) (r j : Nat) :
    ((st.scanOpen r).1.sess j).sendQ.log = (st.sess j).sendQ.log := by
  unfold Server.scanOpen
  dsimp only
  split
  · rfl
  · split
    · rfl
    · split <;> rfl

theorem log_pushJoin (st : Server) (r idx : Nat) (i : Seat) (j : Nat) :
    ((st.pushJoin r idx i).sess j).sendQ.log = (st.sess j).sendQ.log :=
  @log_modSession st idx (fun s => { s with refs := s.refs + 1 }) rfl j

theorem log_storeJoin (st : Server) (r idx : Nat) (i : Seat) (j : Nat) :
    ((st.storeJoin r idx i).sess j).sendQ.log = (st.sess j).sendQ.log :=
  @log_modSession st idx
    (fun s => { s with inRoom := true, roomIdx := r, actorId := i.val }) rfl j

theorem log_moveMember (st : Server) (old nr : Nat) (i : Seat) (j : Nat) :
    ((st.moveMember old nr i).sess j).sendQ.log = (st.sess j).sendQ.log := by
  unfold Server.moveMember
  dsimp only
  split
  · rfl
  · split
    · exact log_modSession rfl j
    · rfl

theorem log_carryJoin (st : Server) (nr : Nat) (e : RoomJoinEntry) (j : Nat) :
    ((st.carryJoin nr e).sess j).sendQ.log = (st.sess j).sendQ.log := by
  unfold Server.carryJoin
  dsimp only
  split
  · exact log_modSession rfl j
  · rfl

theorem log_finishTransfer (st : Server) (old nr : Nat) (moved : Int)
    (leaves : List RoomLeaveEntry) (j : Nat) :
    ((st.finishTransfer old nr moved leaves).sess j).sendQ.log = (st.sess j).sendQ.log := by
  unfold Server.finishTransfer
  dsimp only
  split <;> rfl

theorem snapshots_of_log {s t : Session} (h : t.sendQ.log = s.sendQ.log) :
    t.snapshots = s.snapshots := congrArg (List.filterMap Msg.snapshot?) h

theorem snapshots_enqueue {st st' : Server} {idx : Nat} {m : Msg} (hm : m.snapshot? = none)
    (h : st.enqueue idx m = some st') (j : Nat) :
    (st'.sess j).snapshots = (st.sess j).snapshots := by
  obtain ⟨q, hq, rfl⟩ := Option.map_eq_some_iff.mp h
  by_cases hj : j = idx
  · subst hj
    refine (congrArg Session.snapshots (sess_modSession_self ..)).trans ?_
    simp [Session.snapshots, SendRing.enqueue_log hq, hm]
  · exact congrArg Session.snapshots (sess_modSession_of_ne st _ hj)

theorem snapshots_announce (st : Server) (nr j : Nat) :
    ((st.announce nr).sess j).snapshots = (st.sess j).snapshots := by
  have hseat (st : Server) (i : Seat) :
      ((st.announceSeat nr i).sess j).snapshots = (st.sess j).snapshots := by
    unfold announceSeat
    dsimp only
    split
    · rfl
    · split
      · rename_i st' h
        have hsame : (st'.sess j).snapshots = (st.sess j).snapshots := snapshots_enqueue rfl h j
        exact hsame
      · rfl
  unfold announce
  generalize List.finRange 4 = is
  induction is generalizing st with
  | nil => rfl
  | cons i is ih => exact (ih _).trans (hseat st i)

theorem Section.snapshots {st st' : Server} (h : st.Section st') :
    (∃ w fd recvOk sendOk ctlOk, st' = st.accept w fd recvOk sendOk ctlOk) ∨
      ∀ idx, (st'.sess idx).snapshots = (st.sess idx).snapshots := by
  cases h with
  | accept w fd recvOk sendOk ctlOk => exact Or.inl ⟨w, fd, recvOk, sendOk, ctlOk, rfl⟩
  | flush idx n => exact Or.inr fun j => snapshots_of_log (log_modSession (by rfl) j)
  | send idx m st' hm h =>
    refine Or.inr (snapshots_enqueue ?_ h)
    cases m with
    | snapshot r snap => exact absurd rfl (hm r snap)
    | _ => rfl
  | cut idx | cutFull idx => exact Or.inr fun j => snapshots_of_log (log_modSession (by rfl) j)
  | leaveRead idx => exact Or.inr fun j => snapshots_of_log (log_leaveRead st idx j)
  | dropNetRef w idx => exact Or.inr fun j => snapshots_of_log (log_release _ idx j)
  | scanOpen r => exact Or.inr fun j => snapshots_of_log (log_scanOpen st r j)
  | allot r g st' h =>
    obtain ⟨_, rfl⟩ := takeSlot_some h
    exact Or.inr fun _ => rfl
  | pushJoin r idx i => exact Or.inr fun j => snapshots_of_log (log_pushJoin st r idx i j)
  | storeJoin r idx i => exact Or.inr fun j => snapshots_of_log (log_storeJoin st r idx i j)
  | moveMember old nr i => exact Or.inr fun j => snapshots_of_log (log_moveMember st old nr i j)
  | carryJoin nr e => exact Or.inr fun j => snapshots_of_log (log_carryJoin st nr e j)
  | finishTransfer old nr moved leaves =>
    exact Or.inr fun j => snapshots_of_log (log_finishTransfer st old nr moved leaves j)
  | announce nr => exact Or.inr (snapshots_announce st nr)
  | release idx => exact Or.inr fun j => snapshots_of_log (log_release st idx j)
  | _ => exact Or.inr fun _ => rfl

theorem readyRings_log (s : Session) (recvOk sendOk : Bool) :
    (SessionPool.readyRings s recvOk sendOk).1.book = s.book ∧
      ((SessionPool.readyRings s recvOk sendOk).1.sendQ.log = s.sendQ.log ∨
        (SessionPool.readyRings s recvOk sendOk).1.sendQ.log = []) := by
  unfold SessionPool.readyRings
  split
  · split
    · exact ⟨rfl, Or.inl rfl⟩
    · exact ⟨rfl, Or.inr rfl⟩
  · exact ⟨rfl, Or.inr rfl⟩

theorem accept_log (st : Server) (w : Nat) (fd : Int) (recvOk sendOk ctlOk : Bool) (j : Nat) :
    (((st.accept w fd recvOk sendOk ctlOk).sess j).sendQ.log = [] ∧ j ∈ st.pool.free) ∨
      (((st.accept w fd recvOk sendOk ctlOk).sess j).sendQ.log = (st.sess j).sendQ.log ∧
        ((st.accept w fd recvOk sendOk ctlOk).sess j).book = (st.sess j).book) := by
  cases hlast : st.pool.free.getLast? with
  | none =>
    right
    simp [accept, SessionPool.alloc, hlast, sess]
  | some idx =>
    by_cases hj : j = idx
    · subst hj
      have hfree : j ∈ st.pool.free := List.mem_of_getLast? hlast
      have hrings := readyRings_log (st.pool.slots j) recvOk sendOk
      obtain ⟨recvQ, sendQ, ok, heq, hlog⟩ :=
        SessionPool.readyRings_cases (st.pool.slots j) recvOk sendOk
      rw [heq] at hrings
      cases ok with
      | false =>
        have hsess : (st.accept w fd recvOk sendOk ctlOk).sess j =
            { st.pool.slots j with recvQ, sendQ } := by
          simp [accept, SessionPool.alloc, hlast, heq, sess]
        rw [hsess]
        rcases hrings.2 with hsame | hnil
        · exact Or.inr ⟨hsame, rfl⟩
        · exact Or.inl ⟨hnil, hfree⟩
      | true =>
        refine Or.inl ⟨?_, hfree⟩
        have hempty : ((st.accept w fd recvOk sendOk ctlOk).sess j).sendQ = sendQ := by
          cases ctlOk with
          | false =>
            simp [accept, SessionPool.alloc, hlast, heq, sess, Session.reset, release,
              SessionPool.release, modSession, SessionPool.mod]
          | true =>
            simp [accept, SessionPool.alloc, hlast, heq, sess, Session.reset]
        rw [hempty, hlog rfl]
    · right
      have hsame : (st.accept w fd recvOk sendOk ctlOk).sess j = st.sess j := by
        obtain ⟨recvQ, sendQ, ok, heq, -⟩ :=
          SessionPool.readyRings_cases (st.pool.slots idx) recvOk sendOk
        cases ok with
        | false => simp [accept, SessionPool.alloc, hlast, heq, sess, hj]
        | true =>
          cases ctlOk with
          | false =>
            have hrel {p : SessionPool} : (p.release idx).slots j = p.slots j :=
              SessionPool.release_slots_of_ne hj
            simp [accept, SessionPool.alloc, hlast, heq, sess, release, hrel, modSession,
              SessionPool.mod, hj]
          | true => simp [accept, SessionPool.alloc, hlast, heq, sess, SessionPool.mod, hj]
      rw [hsame]
      exact ⟨rfl, rfl⟩

theorem accept_snapshots (st : Server) (w : Nat) (fd : Int) (recvOk sendOk ctlOk : Bool) (j : Nat) :
    (((st.accept w fd recvOk sendOk ctlOk).sess j).snapshots = [] ∧ j ∈ st.pool.free) ∨
      (((st.accept w fd recvOk sendOk ctlOk).sess j).snapshots = (st.sess j).snapshots ∧
        ((st.accept w fd recvOk sendOk ctlOk).sess j).book = (st.sess j).book) := by
  rcases accept_log st w fd recvOk sendOk ctlOk j with ⟨hnil, hfree⟩ | ⟨hsame, hbook⟩
  · refine Or.inl ⟨?_, hfree⟩
    rw [Session.snapshots, hnil]
    rfl
  · exact Or.inr ⟨snapshots_of_log hsame, hbook⟩

end Server

/-! ### Ticks -/

/-- A snapshot offered to a session, and whether its ring took it. -/
structure Shot where
  idx : Nat
  snap : Snapshot
  sent : Bool
  deriving DecidableEq

def delivered (idx : Nat) (shots : List Shot) : List Snapshot :=
  (shots.filter fun x => x.idx = idx ∧ x.sent = true).map (·.snap)

/-- A tick keeps every member where it is. -/
theorem Room.step_identity (R : Room) (i : Seat) : (R.step.members i).used = (R.members i).used ∧
    (R.step.members i).sessIdx = (R.members i).sessIdx ∧
    (R.step.members i).sessGen = (R.members i).sessGen := by
  rw [step_members]
  split
  · obtain ⟨hu, hs, hg⟩ := ((R.members i).pushAll (R.mail i)).consume_identity
    obtain ⟨hu', hs', hg', -⟩ := (R.members i).pushAll_identity (R.mail i)
    exact ⟨hu.trans hu', hs.trans hs', hg.trans hg'⟩
  · exact ⟨rfl, rfl, rfl⟩

namespace Server

/-- The member at a seat belongs to a session that is still connected. -/
def live (st : Server) (r : Nat) (i : Seat) : Bool :=
  let m := (st.rooms r).members i
  m.used && (st.sess m.sessIdx).gen == m.sessGen && !(st.sess m.sessIdx).dead

/-- The offer of a snapshot of room `r` to the member at a seat. -/
def offer (st : Server) (r : Nat) (snap : Snapshot) (i : Seat) : Shot :=
  let idx := ((st.rooms r).members i).sessIdx
  ⟨idx, snap, ((st.sess idx).sendQ.enqueue (.snapshot r snap)).isSome⟩

def offers (st : Server) (r : Nat) (snap : Snapshot) (is : List Seat) : List Shot :=
  (is.filter (st.live r)).map (st.offer r snap)

def shots (st : Server) (r : Nat) : List Shot :=
  let st := st.modRoom r Room.step
  if snapshotDue (st.rooms r) then st.offers r (st.rooms r).snapshot (List.finRange 4) else []

section Send
variable {st : Server} {r : Nat} {snap : Snapshot} {i : Seat}

theorem sendSnapshot_of_not_live (h : st.live r i = false) : st.sendSnapshot r snap i = st := by
  simp only [live, Bool.and_eq_false_iff, Bool.not_eq_false', beq_eq_false_iff_ne] at h
  unfold sendSnapshot
  dsimp only
  rw [if_pos]
  rcases h with (h | h) | h <;> simp [h]

/-- The offer to a live member: its ring takes the snapshot, or the drop is counted. -/
theorem sendSnapshot_of_live (snap : Snapshot) (h : st.live r i = true) :
    (∃ q, (st.sess ((st.rooms r).members i).sessIdx).sendQ.enqueue (.snapshot r snap) = some q ∧
      st.sendSnapshot r snap i =
        { (st.modSession ((st.rooms r).members i).sessIdx fun s => { s with sendQ := q }).mark
            ((st.rooms r).members i).sessOwner ((st.rooms r).members i).sessIdx with
          metrics := { st.metrics with snapshotsSent := st.metrics.snapshotsSent + 1 } }) ∨
    ((st.sess ((st.rooms r).members i).sessIdx).sendQ.enqueue (.snapshot r snap) = none ∧
      st.sendSnapshot r snap i =
        { st with
          metrics := { st.metrics with snapshotsDropped := st.metrics.snapshotsDropped + 1 } }) := by
  simp only [live, Bool.and_eq_true, Bool.not_eq_true', beq_iff_eq] at h
  cases hq : (st.sess ((st.rooms r).members i).sessIdx).sendQ.enqueue (.snapshot r snap) with
  | none =>
    refine Or.inr ⟨rfl, ?_⟩
    simp [sendSnapshot, h.1.1, h.1.2, h.2, enqueue, hq]
  | some q =>
    refine Or.inl ⟨q, rfl, ?_⟩
    simp [sendSnapshot, h.1.1, h.1.2, h.2, enqueue, hq]

theorem sendSnapshot_sess_of_ne {j : Nat} (hj : j ≠ ((st.rooms r).members i).sessIdx) :
    (st.sendSnapshot r snap i).sess j = st.sess j := by
  cases hlive : st.live r i with
  | false => rw [sendSnapshot_of_not_live hlive]
  | true =>
    rcases sendSnapshot_of_live snap hlive with ⟨q, -, h⟩ | ⟨-, h⟩ <;> rw [h]
    · have hother := sess_modSession_of_ne st (fun s => { s with sendQ := q }) hj
      exact hother
    · rfl

theorem sendSnapshot_live (j : Seat) : (st.sendSnapshot r snap i).live r j = st.live r j := by
  have hrooms := sendSnapshot_rooms st r snap i
  have hbooks := books_sendSnapshot st r snap i
  have hbook (idx : Nat) : ((st.sendSnapshot r snap i).sess idx).book = (st.sess idx).book :=
    congrArg (fun b : Books => b.sess idx) hbooks
  have hgen (idx : Nat) : ((st.sendSnapshot r snap i).sess idx).gen = (st.sess idx).gen :=
    congrArg SessBook.gen (hbook idx)
  have hdead (idx : Nat) : ((st.sendSnapshot r snap i).sess idx).dead = (st.sess idx).dead :=
    congrArg SessBook.dead (hbook idx)
  simp only [live, hrooms, hgen, hdead]

/-- One offer is one snapshot in the ring or one drop. -/
theorem sendSnapshot_offer (snap : Snapshot) (h : st.live r i = true) (j : Nat) :
    ((st.sendSnapshot r snap i).sess j).snapshots =
      (st.sess j).snapshots ++ delivered j [st.offer r snap i] ∧
    (st.sendSnapshot r snap i).metrics.snapshotsSent =
      st.metrics.snapshotsSent + [st.offer r snap i].countP (·.sent) ∧
    (st.sendSnapshot r snap i).metrics.snapshotsDropped =
      st.metrics.snapshotsDropped + [st.offer r snap i].countP (!·.sent) := by
  rcases sendSnapshot_of_live snap h with ⟨q, hq, heq⟩ | ⟨hq, heq⟩ <;> rw [heq]
  · have hoffer : st.offer r snap i = ⟨((st.rooms r).members i).sessIdx, snap, true⟩ := by
      simp [offer, hq]
    rw [hoffer]
    refine ⟨?_, rfl, rfl⟩
    by_cases hj : j = ((st.rooms r).members i).sessIdx
    · subst hj
      have hself := sess_modSession_self st ((st.rooms r).members i).sessIdx
        fun s => { s with sendQ := q }
      refine (congrArg Session.snapshots hself).trans ?_
      simp [Session.snapshots, SendRing.enqueue_log hq, delivered, Msg.snapshot?]
    · have hother := sess_modSession_of_ne st (fun s => { s with sendQ := q }) hj
      refine (congrArg Session.snapshots hother).trans ?_
      simp [delivered, Ne.symm hj]
  · have hoffer : st.offer r snap i = ⟨((st.rooms r).members i).sessIdx, snap, false⟩ := by
      simp [offer, hq]
    rw [hoffer]
    refine ⟨?_, rfl, rfl⟩
    simp [delivered, sess]

end Send

theorem delivered_append (idx : Nat) (xs ys : List Shot) :
    delivered idx (xs ++ ys) = delivered idx xs ++ delivered idx ys := by
  simp [delivered]

/-- The loop over the seats makes the offers that its first state promises. -/
theorem sendSnapshots_offers {st : Server} {r : Nat} {snap : Snapshot} {is : List Seat}
    (hnodup : is.Nodup) (hone : ∀ i j, ((st.rooms r).members i).used = true →
      ((st.rooms r).members j).used = true →
      ((st.rooms r).members i).sessIdx = ((st.rooms r).members j).sessIdx → i = j) (j : Nat) :
    ((is.foldl (fun st' i => st'.sendSnapshot r snap i) st).sess j).snapshots =
      (st.sess j).snapshots ++ delivered j (st.offers r snap is) ∧
    (is.foldl (fun st' i => st'.sendSnapshot r snap i) st).metrics.snapshotsSent =
      st.metrics.snapshotsSent + (st.offers r snap is).countP (·.sent) ∧
    (is.foldl (fun st' i => st'.sendSnapshot r snap i) st).metrics.snapshotsDropped =
      st.metrics.snapshotsDropped + (st.offers r snap is).countP (!·.sent) := by
  induction is generalizing st with
  | nil => simp [offers, delivered]
  | cons i is ih =>
    obtain ⟨hi, hrest⟩ := List.nodup_cons.mp hnodup
    have hrooms := sendSnapshot_rooms st r snap i
    have hstep := @ih (st.sendSnapshot r snap i) hrest (by rw [hrooms]; exact hone)
    cases hlive : st.live r i with
    | false =>
      rw [sendSnapshot_of_not_live hlive] at hstep
      rw [List.foldl_cons, sendSnapshot_of_not_live hlive, offers,
        List.filter_cons_of_neg (by simp [hlive])]
      exact hstep
    | true =>
      -- the offers to the later seats do not depend on this one
      have hlater : (st.sendSnapshot r snap i).offers r snap is = st.offers r snap is := by
        have hsame : (st.sendSnapshot r snap i).live r = st.live r := by
          funext k
          exact sendSnapshot_live k
        rw [offers, offers, hsame]
        apply List.map_congr_left
        intro k hk
        obtain ⟨hmem, hklive⟩ := List.mem_filter.mp hk
        have hne : ((st.rooms r).members k).sessIdx ≠ ((st.rooms r).members i).sessIdx := by
          intro heq
          have hu : ((st.rooms r).members i).used = true := by
            simp only [live, Bool.and_eq_true] at hlive
            exact hlive.1.1
          have huk : ((st.rooms r).members k).used = true := by
            simp only [live, Bool.and_eq_true] at hklive
            exact hklive.1.1
          exact hi (hone k i huk hu heq ▸ hmem)
        simp only [offer, hrooms, sendSnapshot_sess_of_ne hne]
      have hfirst := sendSnapshot_offer snap hlive j
      have hcons : st.offers r snap (i :: is) = [st.offer r snap i] ++ st.offers r snap is := by
        rw [offers, List.filter_cons_of_pos hlive]
        rfl
      obtain ⟨hsnaps, hsent, hdropped⟩ := hstep
      rw [List.foldl_cons, hcons, delivered_append, List.countP_append, List.countP_append, hsnaps,
        hsent, hdropped, hlater, hfirst.1, hfirst.2.1, hfirst.2.2]
      exact ⟨List.append_assoc .., Nat.add_assoc .., Nat.add_assoc ..⟩

theorem tickBody_shots {st : Server} {r : Nat}
    (hone : ∀ i j, ((st.rooms r).members i).used = true → ((st.rooms r).members j).used = true →
      ((st.rooms r).members i).sessIdx = ((st.rooms r).members j).sessIdx → i = j) (j : Nat) :
    ((st.tickBody r).sess j).snapshots = (st.sess j).snapshots ++ delivered j (st.shots r) ∧
    (st.tickBody r).metrics.snapshotsSent =
      st.metrics.snapshotsSent + (st.shots r).countP (·.sent) ∧
    (st.tickBody r).metrics.snapshotsDropped =
      st.metrics.snapshotsDropped + (st.shots r).countP (!·.sent) := by
  let st' : Server := { st.modRoom r Room.step with
    metrics := { st.metrics with
      inputRingDrops := st.metrics.inputRingDrops + (st.rooms r).routeInputs.2
      inputNeutralized := st.metrics.inputNeutralized + (st.rooms r).routeInputs.1.neutralized } }
  have hroom : st'.rooms r = (st.rooms r).step := Function.update_self ..
  have htick : st.tickBody r = if snapshotDue (st'.rooms r) then
      (List.finRange 4).foldl (fun st i => st.sendSnapshot r (st'.rooms r).snapshot i) st'
      else st' := rfl
  have hshots : st.shots r = if snapshotDue (st'.rooms r) then
      st'.offers r (st'.rooms r).snapshot (List.finRange 4) else [] := rfl
  rw [htick, hshots]
  by_cases hdue : snapshotDue (st'.rooms r) = true
  · rw [if_pos hdue, if_pos hdue]
    refine sendSnapshots_offers (List.nodup_finRange 4) ?_ j
    intro i k hi hk
    rw [hroom] at hi hk ⊢
    rw [(Room.step_identity _ i).1] at hi
    rw [(Room.step_identity _ k).1] at hk
    rw [(Room.step_identity _ i).2.1, (Room.step_identity _ k).2.1]
    exact hone i k hi hk
  · rw [if_neg hdue, if_neg hdue]
    simp [delivered, st', sess, modRoom]

/-- The state in which the snapshot loop starts has the members of the tick's first state. -/
theorem live_step (st : Server) (r : Nat) : (st.modRoom r Room.step).live r = st.live r := by
  funext i
  have hroom : (st.modRoom r Room.step).rooms r = (st.rooms r).step := Function.update_self ..
  obtain ⟨hu, hs, hg⟩ := (st.rooms r).step_identity i
  simp only [live, hroom, hu, hs, hg]
  rfl

theorem offer_step (st : Server) (r : Nat) (snap : Snapshot) :
    (st.modRoom r Room.step).offer r snap = st.offer r snap := by
  funext i
  have hroom : (st.modRoom r Room.step).rooms r = (st.rooms r).step := Function.update_self ..
  simp only [offer, hroom, ((st.rooms r).step_identity i).2.1]
  rfl

theorem shots_eq (st : Server) (r : Nat) : st.shots r =
    if snapshotDue (st.rooms r).step then
      ((List.finRange 4).filter (st.live r)).map (st.offer r (st.rooms r).step.snapshot) else [] := by
  have hroom : (st.modRoom r Room.step).rooms r = (st.rooms r).step := Function.update_self ..
  simp only [shots, offers, hroom, live_step, offer_step]

theorem mem_shots {st : Server} {r : Nat} {x : Shot} (h : x ∈ st.shots r) :
    snapshotDue (st.rooms r).step = true ∧ ∃ i, st.live r i = true ∧
      x = st.offer r (st.rooms r).step.snapshot i := by
  rw [shots_eq] at h
  split at h
  · rename_i hdue
    obtain ⟨i, hi, rfl⟩ := List.mem_map.mp h
    exact ⟨hdue, i, (List.mem_filter.mp hi).2, rfl⟩
  · cases h

/-- A member is made one offer when a snapshot is due and its session is live. -/
theorem shots_of_member {st : Server} {r : Nat} {i : Seat}
    (hone : ∀ j, ((st.rooms r).members j).used = true →
      ((st.rooms r).members j).sessIdx = ((st.rooms r).members i).sessIdx → j = i) :
    (st.shots r).filter (fun x => x.idx = ((st.rooms r).members i).sessIdx) =
      if snapshotDue (st.rooms r).step = true ∧ st.live r i = true then
        [st.offer r (st.rooms r).step.snapshot i] else [] := by
  have hseat : (List.finRange 4).filter (fun j => j = i) = [i] := by
    rw [List.filter_eq, List.count_eq_one_of_mem (List.nodup_finRange 4) (List.mem_finRange i)]
    rfl
  have hlive : ((List.finRange 4).filter (st.live r)).filter (fun j =>
      ((st.rooms r).members j).sessIdx = ((st.rooms r).members i).sessIdx) =
      if st.live r i = true then [i] else [] := by
    have hpred : ∀ j ∈ List.finRange 4, (decide (((st.rooms r).members j).sessIdx =
        ((st.rooms r).members i).sessIdx) && st.live r j) = (decide (j = i) && st.live r i) := by
      intro j _
      by_cases hj : j = i
      · subst hj
        simp
      · rw [decide_eq_false hj, Bool.false_and, Bool.and_eq_false_iff]
        by_contra hboth
        simp only [decide_eq_false_iff_not, not_or, not_not, Bool.not_eq_false] at hboth
        refine hj (hone j ?_ hboth.1)
        simp only [live, Bool.and_eq_true] at hboth
        exact hboth.2.1.1
    rw [List.filter_filter, List.filter_congr hpred]
    cases st.live r i with
    | true => simpa using hseat
    | false => simp
  rw [shots_eq]
  by_cases hdue : snapshotDue (st.rooms r).step = true
  · rw [if_pos hdue, List.filter_map]
    have hcomp : ((fun x : Shot => decide (x.idx = ((st.rooms r).members i).sessIdx)) ∘
        st.offer r (st.rooms r).step.snapshot) = fun j =>
          decide (((st.rooms r).members j).sessIdx = ((st.rooms r).members i).sessIdx) := rfl
    rw [hcomp, hlive]
    by_cases hl : st.live r i = true
    · rw [if_pos hl, if_pos ⟨hdue, hl⟩]
      rfl
    · rw [if_neg hl, if_neg fun hh => hl hh.2]
      rfl
  · rw [if_neg hdue, if_neg fun hh => hdue hh.1]
    rfl

end Server

theorem delivered_filter (idx : Nat) (xs : List Shot) :
    delivered idx (xs.filter fun x => x.idx = idx) = delivered idx xs := by
  simp only [delivered, List.filter_filter]
  congr 1
  apply List.filter_congr
  intro x _
  by_cases hx : x.idx = idx <;> simp [hx]

end BeltServer
