import BeltServer.LedgerSim

/-!
# The sections of a run

Every step of the machine but a tick changes the shared state by one section. What all of
them leave alone is proved by going through this list once.
-/

namespace BeltServer

set_option autoImplicit false

namespace Server

/-- The sections, except the body of a tick. -/
inductive Section (st : Server) : Server → Prop where
  | skip : Section st st
  | accept (w : Nat) (fd : Int) (recvOk sendOk ctlOk : Bool) :
      Section st (st.accept w fd recvOk sendOk ctlOk)
  | flush (idx n : Nat) :
      Section st (st.modSession idx fun x => { x with sendQ := x.sendQ.consume n })
  | send (idx : Nat) (m : Msg) (st' : Server) (hm : ∀ r snap, m ≠ .snapshot r snap)
      (h : st.enqueue idx m = some st') : Section st st'
  | cut (idx : Nat) : Section st (st.cut idx)
  | cutFull (idx : Nat) : Section st (st.countFull.cut idx)
  | leaveRead (idx : Nat) : Section st (st.leaveRead idx).1
  | leavePush (r idx : Nat) : Section st (st.leavePush r idx)
  | dropNetRef (w idx : Nat) : Section st (st.dropNetRef w idx)
  | inputPush (r : Nat) (c : InputCmd) : Section st (st.inputPush r c)
  | scanOpen (r : Nat) : Section st (st.scanOpen r).1
  | allot (r g : Nat) (st' : Server) (h : st.takeSlot = some (r, st')) : Section st (st'.assign r g)
  | post (r g : Nat) : Section st (st.post r g)
  | openFirst (r : Nat) : Section st (st.openFirst r)
  | pushJoin (r idx : Nat) (i : Seat) : Section st (st.pushJoin r idx i)
  | storeJoin (r idx : Nat) (i : Seat) : Section st (st.storeJoin r idx i)
  | closeOld (old : Nat) : Section st (st.closeOld old)
  | moveMember (old nr : Nat) (i : Seat) : Section st (st.moveMember old nr i)
  | openNew (old nr : Nat) : Section st (st.openNew old nr)
  | carryJoin (nr : Nat) (e : RoomJoinEntry) : Section st (st.carryJoin nr e)
  | finishTransfer (old nr : Nat) (moved : Int) (leaves : List RoomLeaveEntry) (g i : Nat) :
      Section st ((st.finishTransfer old nr moved leaves).replaceRoom g i nr)
  | announce (nr : Nat) : Section st (st.announce nr)
  | drainMail (g : Nat) : Section st (st.drainMail g)
  | takeQueues (r : Nat) : Section st (st.takeQueues r)
  | releaseSeat (r : Nat) (i : Seat) : Section st (st.releaseSeat r i)
  | seatMember (r : Nat) (e : RoomJoinEntry) : Section st (st.seatMember r e)
  | release (idx : Nat) : Section st (st.release idx)
  | unseat (r : Nat) (i : Seat) : Section st (st.unseat r i)
  | markDead (r : Nat) : Section st (st.markDead r)
  | freeDead (r g i : Nat) : Section st ((st.freeDead r).removeRoom g i)

theorem Section.of_eq {st st' st'' : Server} (h : st.Section st') (heq : st'' = st') : st.Section st'' :=
  heq ▸ h

/-! ### Counters -/

/-- The counters that only ticks advance. -/
def reports (st : Server) : Nat × Nat × Nat :=
  (st.metrics.inputRingDrops, st.metrics.snapshotsSent, st.metrics.snapshotsDropped)

/-- With the neutralised inputs. -/
def counters (st : Server) : (Nat × Nat × Nat) × Nat := (st.reports, st.metrics.inputNeutralized)

theorem counters_enqueue {st st' : Server} {idx : Nat} {m : Msg}
    (h : st.enqueue idx m = some st') : st'.counters = st.counters := by
  obtain ⟨q, _, rfl⟩ := Option.map_eq_some_iff.mp h
  rfl

theorem counters_announce (st : Server) (nr : Nat) :
    (st.announce nr).counters = st.counters := by
  have hseat (st : Server) (i : Seat) : (st.announceSeat nr i).counters = st.counters := by
    unfold announceSeat
    dsimp only
    split
    · rfl
    · split
      · rename_i st' h
        exact (counters_enqueue h : st'.counters = st.counters)
      · rfl
  unfold announce
  generalize List.finRange 4 = is
  induction is generalizing st with
  | nil => rfl
  | cons i is ih => exact (ih _).trans (hseat st i)

theorem Section.counters {st st' : Server} (h : st.Section st') : st'.counters = st.counters := by
  cases h with
  | accept =>
    unfold Server.accept
    split
    · rfl
    · dsimp only
      split <;> rfl
  | send idx m st' hm h => exact counters_enqueue h
  | leaveRead =>
    unfold Server.leaveRead
    dsimp only
    split <;> rfl
  | scanOpen =>
    unfold Server.scanOpen
    dsimp only
    split
    · rfl
    · split
      · rfl
      · split <;> rfl
  | allot r g st' h =>
    obtain ⟨_, rfl⟩ := takeSlot_some h
    rfl
  | moveMember =>
    unfold Server.moveMember
    dsimp only
    split
    · rfl
    · split <;> rfl
  | carryJoin =>
    unfold Server.carryJoin
    dsimp only
    split <;> rfl
  | finishTransfer =>
    unfold Server.finishTransfer
    dsimp only
    split <;> rfl
  | announce nr => exact counters_announce st nr
  | _ => rfl

theorem Section.reports {st st' : Server} (h : st.Section st') : st'.reports = st.reports :=
  congrArg Prod.fst h.counters

/-! ### Ticks -/

/-- The counters of the snapshots sent and dropped are all that the snapshot loop changes
besides the sessions and the dirty map. -/
theorem sendSnapshots_counts (st : Server) (r : Nat) (snap : Snapshot) (is : List Seat) :
    let st' := is.foldl (fun st' i => st'.sendSnapshot r snap i) st
    st'.metrics.inputRingDrops = st.metrics.inputRingDrops ∧
      st'.metrics.inputNeutralized = st.metrics.inputNeutralized := by
  have hseat (st : Server) (i : Seat) :
      (st.sendSnapshot r snap i).metrics.inputRingDrops = st.metrics.inputRingDrops ∧
        (st.sendSnapshot r snap i).metrics.inputNeutralized = st.metrics.inputNeutralized := by
    unfold sendSnapshot
    dsimp only
    split
    · exact ⟨rfl, rfl⟩
    · split <;> exact ⟨rfl, rfl⟩
  induction is generalizing st with
  | nil => exact ⟨rfl, rfl⟩
  | cons i is ih => exact ⟨(ih _).1.trans (hseat st i).1, (ih _).2.trans (hseat st i).2⟩

theorem tickBody_drops (st : Server) (r : Nat) : (st.tickBody r).metrics.inputRingDrops =
    st.metrics.inputRingDrops + (st.rooms r).routeInputs.2 := by
  unfold tickBody
  dsimp only
  split
  · exact (sendSnapshots_counts _ _ _ _).1
  · rfl

theorem tickBody_neutralized (st : Server) (r : Nat) : (st.tickBody r).metrics.inputNeutralized =
    st.metrics.inputNeutralized + (st.rooms r).routeInputs.1.neutralized := by
  unfold tickBody
  dsimp only
  split
  · exact (sendSnapshots_counts _ _ _ _).2
  · rfl

end Server

namespace System

open Server

theorem section_of_send {s : System} {w idx : Nat} {m : Msg} (hm : ∀ r snap, m ≠ .snapshot r snap) :
    s.srv.Section (s.send w idx m).srv := by
  unfold send
  split
  · rename_i st h
    exact .send idx m st hm h
  · exact .cutFull idx

theorem dispatch_no_snapshot {st : Server} {idx : Nat} {remainUs : UInt32} {msg : ClientMsg} {m : Msg}
    (h : st.dispatch idx remainUs msg = .send m) (r : Nat) (snap : Snapshot) :
    m ≠ .snapshot r snap := by
  rintro rfl
  cases msg <;> simp only [dispatch] at h
  · cases h
  · split at h
    · cases h
    · split at h <;> cases h
  · split at h <;> cases h
  · split at h <;> cases h
  · cases h

theorem section_of_netStep {s t : System} {w : Nat} (h : s.netStep w = some t) :
    s.srv.Section t.srv := by
  unfold netStep at h
  split at h
  · cases h
  · split at h
    · cases h
      exact .skip
    · split at h <;> cases h
      exact .skip
  · cases h
  · cases h
    exact section_of_send (by rintro _ _ ⟨⟩)
  · cases h
    exact section_of_send (by rintro _ _ ⟨⟩)
  · rename_i idx hpc
    split at h
    · rename_i st hread
      cases h
      exact .of_eq (.leaveRead idx) (congrArg Prod.fst hread.symm)
    · rename_i st r hread
      cases h
      exact .of_eq (.leaveRead idx) (congrArg Prod.fst hread.symm)
  · cases h
    exact .leavePush _ _
  · cases h
    exact .dropNetRef _ _
  · cases h
    exact .inputPush _ _

theorem section_of_lockStep {s t : System} (h : s.lockStep = some t) : s.srv.Section t.srv := by
  unfold lockStep at h
  split at h
  · cases h
  · split at h
    · rename_i r hlast
      split at h
      · rename_i st i hscan
        cases h
        exact .of_eq (.scanOpen r) (congrArg Prod.fst hscan.symm)
      · rename_i st hscan
        cases h
        exact .of_eq (.scanOpen r) (congrArg Prod.fst hscan.symm)
    · split at h
      · cases h
        exact .skip
      · rename_i r st htake
        cases h
        exact .allot r _ st htake
  · cases h
    exact .post _ _
  · cases h
    exact .openFirst _
  · cases h
    exact .pushJoin _ _ _
  · cases h
    exact .storeJoin _ _ _
  · cases h
    exact .closeOld _
  · cases h
    exact .moveMember _ _ _
  · cases h
    exact .openNew _ _
  · cases h
    exact .carryJoin _ _
  · cases h
    exact .finishTransfer _ _ _ _ _ _

theorem section_of_gameStep {s t : System} {g : Nat} (h : s.gameStep g = some t) :
    s.srv.Section t.srv := by
  unfold gameStep at h
  split at h
  · cases h
  · split at h
    · cases h
      exact .releaseSeat _ _
    · cases h
      exact .seatMember _ _
  · cases h
    exact .skip
  · cases h
    exact .release _
  · split at h
    · cases h
      exact .unseat _ _
    · cases h
      exact .skip
  · split at h
    · cases h
      exact .markDead _
    · cases h
      exact .skip
  · cases h
    exact .release _
  · split at h
    · cases h
      exact .freeDead _ _ _
    · cases h
  · split at h
    · split at h
      · cases h
        exact .skip
      · rename_i nr st htake
        cases h
        exact .allot nr _ st htake
    · cases h
  · cases h
  · cases h
    exact .announce _

/-- Every step but a tick is one section. -/
theorem section_of_step {a : Act} {s t : System} (ha : ∀ g i, a ≠ .tick g i)
    (h : step a s = some t) : s.srv.Section t.srv := by
  cases a with
  | accept w fd recvOk sendOk ctlOk =>
    simp only [step] at h
    split at h <;> cases h
    exact .accept ..
  | frame w idx f remainUs =>
    simp only [step] at h
    split at h <;> cases h
    cases hd : s.srv.dispatch idx remainUs (.decode f) with
    | send m => exact section_of_send (dispatch_no_snapshot hd)
    | join => exact .skip
    | input r c => exact .skip
    | ignore => exact .skip
    | disconnect => exact .cut idx
  | disconnect w idx =>
    simp only [step] at h
    split at h <;> cases h
    exact .cut idx
  | flush w idx n =>
    simp only [step] at h
    split at h <;> cases h
    exact .flush idx n
  | net w => exact section_of_netStep h
  | lock => exact section_of_lockStep h
  | drain g =>
    simp only [step] at h
    split at h <;> cases h
    exact .drainMail g
  | process g i =>
    simp only [step] at h
    split at h
    · split at h <;> cases h
      exact .takeQueues _
    · cases h
  | tick g i => exact absurd rfl (ha g i)
  | game g => exact section_of_gameStep h

/-- A tick of an idle worker's room. -/
theorem tick_of_step {g k : Nat} {s t : System} (h : step (.tick g k) s = some t) :
    ∃ r, s.game g = .idle ∧ (s.srv.myRooms g)[k]? = some r ∧ t.srv = s.srv.tickBody r := by
  simp only [step] at h
  split at h
  · rename_i hidle
    split at h
    · rename_i r hr
      cases h
      refine ⟨r, hidle, hr, ?_⟩
      split <;> rfl
    · cases h
  · cases h

end System

end BeltServer
