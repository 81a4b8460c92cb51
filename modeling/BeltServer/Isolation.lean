import BeltServer.SeatLedger
import BeltServer.Snapshots

/-!
# Rooms are isolated

Processing or ticking a room touches that room, the free slot of its transfer, and the
sessions that are seated or pending in it. Every section is shown to spare the rest, and
the loops keep the members inside the sessions that may be touched.
-/

namespace BeltServer

set_option autoImplicit false

open Runs SwapList

/-- Rooms outside `rs` are as they were, also in the open list, and so are sessions outside
`js`. -/
structure Spares (rs js : Nat → Prop) (st st' : Server) : Prop where
  rooms : ∀ b, ¬rs b → st'.rooms b = st.rooms b
  opened : ∀ b, ¬rs b → (b ∈ st'.openRooms ↔ b ∈ st.openRooms)
  sess : ∀ j, ¬js j → st'.sess j = st.sess j

def Inside (js : Nat → Prop) (members : Seat → Member) : Prop :=
  ∀ i, (members i).used = true → js (members i).sessIdx

namespace Spares

variable {rs js : Nat → Prop} {st st' st'' : Server} {r : Nat}

theorem refl (st : Server) : Spares rs js st st where
  rooms _ _ := rfl
  opened _ _ := Iff.rfl
  sess _ _ := rfl

theorem trans (h : Spares rs js st st') (h' : Spares rs js st' st'') : Spares rs js st st'' where
  rooms b hb := (h'.rooms b hb).trans (h.rooms b hb)
  opened b hb := (h'.opened b hb).trans (h.opened b hb)
  sess j hj := (h'.sess j hj).trans (h.sess j hj)

theorem modRoom (hr : rs r) (f : Room → Room) : Spares rs js st (st.modRoom r f) where
  rooms b hb := by
    apply Function.update_of_ne
    rintro rfl
    exact hb hr
  opened _ _ := Iff.rfl
  sess _ _ := rfl

theorem modSession {idx : Nat} (hj : js idx) (f : Session → Session) :
    Spares rs js st (st.modSession idx f) where
  rooms _ _ := rfl
  opened _ _ := Iff.rfl
  sess j hj' := by
    apply SessionPool.mod_slots_of_ne
    rintro rfl
    exact hj' hj

theorem release {idx : Nat} (hj : js idx) : Spares rs js st (st.release idx) where
  rooms _ _ := rfl
  opened _ _ := Iff.rfl
  sess j hj' := by
    apply SessionPool.release_slots_of_ne
    rintro rfl
    exact hj' hj

theorem enqueue {idx : Nat} {m : Msg} (hj : js idx) (h : st.enqueue idx m = some st') :
    Spares rs js st st' := by
  obtain ⟨q, -, rfl⟩ := Option.map_eq_some_iff.mp h
  exact modSession hj _

theorem swapRemove (hr : rs r) : Spares rs js st
    { st with openRooms := SwapList.swapRemove st.openRooms r } where
  rooms _ _ := rfl
  opened b hb := by
    have hne : r ≠ b := by
      rintro rfl
      exact hb hr
    have hcount := count_swapRemove st.openRooms r b
    rw [if_neg hne] at hcount
    show b ∈ SwapList.swapRemove st.openRooms r ↔ b ∈ st.openRooms
    rw [← List.count_pos_iff, ← List.count_pos_iff]
    omega
  sess _ _ := rfl

/-- A loop that keeps `P` spares what each turn spares. -/
theorem foldl {β : Type} {P : Server → Prop} {f : Server → β → Server} {xs : List β}
    (hf : ∀ st, ∀ x ∈ xs, P st → Spares rs js st (f st x) ∧ P (f st x)) (hst : P st) :
    Spares rs js st (xs.foldl f st) ∧ P (xs.foldl f st) := by
  induction xs generalizing st with
  | nil => exact ⟨refl st, hst⟩
  | cons x xs ih =>
    obtain ⟨hone, hst'⟩ := hf st x (List.mem_cons_self ..) hst
    obtain ⟨hrest, hst''⟩ := ih (fun st y hy => hf st y (List.mem_cons_of_mem _ hy)) hst'
    exact ⟨hone.trans hrest, hst''⟩

end Spares

/-! ### Rooms that change in place -/

section Inside
variable {js : Nat → Prop} {st : Server} {r : Nat} {f : Room → Room}

theorem rooms_modRoom (st : Server) (r : Nat) (f : Room → Room) :
    (st.modRoom r f).rooms r = f (st.rooms r) := Function.update_self ..

/-- The members stay inside when the room that changes keeps its own inside. -/
theorem Inside.modRoom {r' : Nat} (h : Inside js (st.rooms r).members)
    (hf : Inside js (f (st.rooms r')).members) : Inside js ((st.modRoom r' f).rooms r).members := by
  by_cases hr : r = r'
  · subst hr
    rw [rooms_modRoom]
    exact hf
  · have hsame : (st.modRoom r' f).rooms r = st.rooms r := Function.update_of_ne hr ..
    rw [hsame]
    exact h

theorem Inside.stage {st' : Server} (hstage : st'.stage = st.stage)
    (h : Inside js (st.rooms r).members) : Inside js (st'.rooms r).members := by
  have hsame : (st'.rooms r).members = (st.rooms r).members :=
    congrArg (fun S : Nat → Stage => (S r).members) hstage
  rw [hsame]
  exact h

theorem Inside.update {members : Seat → Member} (h : Inside js members) {i : Seat} {m : Member}
    (hm : m.used = true → js m.sessIdx) : Inside js (Function.update members i m) := by
  intro k hused
  by_cases hk : k = i
  · rw [hk, Function.update_self] at hused ⊢
    exact hm hused
  · rw [Function.update_of_ne hk] at hused ⊢
    exact h k hused

theorem Inside.step {R : Room} (h : Inside js R.members) : Inside js R.step.members := by
  intro i hused
  obtain ⟨hsame, hsess, -⟩ := R.step_identity i
  rw [hsess]
  exact h i (hsame ▸ hused)

end Inside

/-! ### ProcessRoomQueues -/

section Process
variable {rs js : Nat → Prop} {st : Server} {r : Nat}

theorem spares_processJoin (hr : rs r) {e : RoomJoinEntry} (he : js e.sessIdx)
    (hin : Inside js (st.rooms r).members) :
    Spares rs js st (st.processJoin r e) ∧ Inside js ((st.processJoin r e).rooms r).members := by
  unfold Server.processJoin
  split
  · constructor
    · exact (Spares.modRoom hr _).trans (Spares.release he)
    · have hfreed : Inside js ((st.releaseSeat r e.actorId).rooms r).members :=
        Inside.modRoom hin hin
      exact hfreed
  · constructor
    · exact Spares.modRoom hr _
    · apply Inside.modRoom hin
      exact hin.update fun _ => he

theorem spares_processLeave (hr : rs r) (e : RoomLeaveEntry) (hin : Inside js (st.rooms r).members) :
    Spares rs js st (st.processLeave r e) ∧ Inside js ((st.processLeave r e).rooms r).members := by
  unfold Server.processLeave
  split
  · rename_i i hfind
    have hmatch := List.find?_some hfind
    simp only [Bool.and_eq_true, beq_iff_eq] at hmatch
    have he : js e.sessIdx := hmatch.1.2 ▸ hin i hmatch.1.1
    constructor
    · exact (Spares.modRoom hr _).trans (Spares.release he)
    · have hleft : Inside js ((st.unseat r i).rooms r).members := by
        apply Inside.modRoom hin
        exact hin.update (by rintro ⟨⟩)
      exact hleft
  · exact ⟨Spares.refl st, hin⟩

theorem spares_processEntries (hr : rs r) (hin : Inside js (st.rooms r).members)
    (hpending : ∀ e ∈ (st.rooms r).pendingJoin, js e.sessIdx) :
    Spares rs js st (st.processEntries r) := by
  have htaken : Inside js ((st.takeQueues r).rooms r).members := Inside.modRoom hin hin
  obtain ⟨hjoins, hin₁⟩ := Spares.foldl (P := fun st => Inside js (st.rooms r).members)
    (fun st e he hin => spares_processJoin hr (hpending e he) hin) htaken
  obtain ⟨hleaves, -⟩ := Spares.foldl (P := fun st => Inside js (st.rooms r).members)
    (f := Server.processLeave r) (fun st e _ hin => spares_processLeave hr e hin) hin₁
  exact ((Spares.modRoom hr _).trans hjoins).trans hleaves

theorem Spares.forgetRoom (hr : rs r) : Spares rs js st (st.forgetRoom r) := by
  have hopen := @Spares.swapRemove rs js st r hr
  constructor
  · exact hopen.rooms
  · exact hopen.opened
  · exact hopen.sess

theorem Spares.freeRoomIfDrained (hr : rs r) : Spares rs js st (st.freeRoomIfDrained r) := by
  have hroom := @Spares.modRoom rs js st r hr fun R => { R with gen := R.gen + 1 }
  constructor
  · exact hroom.rooms
  · exact hroom.opened
  · exact hroom.sess

theorem spares_processRoomQueues (hr : rs r) (hin : Inside js (st.rooms r).members)
    (hpending : ∀ e ∈ (st.rooms r).pendingJoin, js e.sessIdx) :
    Spares rs js st (st.processRoomQueues r).1 := by
  have hentries := spares_processEntries hr hin hpending
  unfold Server.processRoomQueues
  dsimp only
  split
  · exact ((hentries.trans (Spares.modRoom hr _)).trans (Spares.forgetRoom hr)).trans
      (Spares.freeRoomIfDrained hr)
  · exact hentries

end Process

/-! ### RoomTick -/

section Tick
variable {rs js : Nat → Prop} {st : Server} {r : Nat}

theorem spares_sendSnapshot (snap : Snapshot) (i : Seat) (hin : Inside js (st.rooms r).members) :
    Spares rs js st (st.sendSnapshot r snap i) ∧
      Inside js ((st.sendSnapshot r snap i).rooms r).members := by
  rw [Server.sendSnapshot_rooms]
  refine ⟨?_, hin⟩
  unfold Server.sendSnapshot
  dsimp only
  split
  · exact Spares.refl st
  · rename_i hlive
    have hused : ((st.rooms r).members i).used = true := by
      by_contra hnot
      simp [hnot] at hlive
    split
    · rename_i st' hst'
      have hsent := @Spares.enqueue rs js _ _ _ _ (hin i hused) hst'
      exact ⟨hsent.rooms, hsent.opened, hsent.sess⟩
    · exact ⟨fun _ _ => rfl, fun _ _ => Iff.rfl, fun _ _ => rfl⟩

theorem spares_tickBody (hr : rs r) (hin : Inside js (st.rooms r).members) :
    Spares rs js st (st.tickBody r) ∧ Inside js ((st.tickBody r).rooms r).members := by
  let st' : Server := { st.modRoom r Room.step with
    metrics := { st.metrics with
      inputRingDrops := st.metrics.inputRingDrops + (st.rooms r).routeInputs.2
      inputNeutralized := st.metrics.inputNeutralized + (st.rooms r).routeInputs.1.neutralized } }
  have hstep : Spares rs js st st' := by
    have hroom := @Spares.modRoom rs js st r hr Room.step
    exact ⟨hroom.rooms, hroom.opened, hroom.sess⟩
  have hin' : Inside js (st'.rooms r).members := Inside.modRoom hin hin.step
  have htick : st.tickBody r = if Server.snapshotDue (st'.rooms r) then
      (List.finRange 4).foldl (fun st i => st.sendSnapshot r (st'.rooms r).snapshot i) st'
      else st' := rfl
  rw [htick]
  split
  · obtain ⟨hsent, hsentin⟩ := Spares.foldl (P := fun st => Inside js (st.rooms r).members)
      (fun st i _ hin => spares_sendSnapshot (st'.rooms r).snapshot i hin) hin'
    exact ⟨hstep.trans hsent, hsentin⟩
  · exact ⟨hstep, hin'⟩

structure BothInside (js : Nat → Prop) (old nr : Nat) (st : Server) : Prop where
  old : Inside js (st.rooms old).members
  new : Inside js (st.rooms nr).members

variable {old nr : Nat} (hold : rs old) (hnr : rs nr)
include hnr

theorem spares_takeSlot {st' : Server} (h : st.takeSlot = some (nr, st')) :
    Spares rs js st st' := by
  unfold Server.takeSlot at h
  split at h
  · cases h
  · cases h
    have hroom := @Spares.modRoom rs js { st with freeRooms := st.freeRooms.dropLast } nr
      hnr Room.reset
    exact ⟨hroom.rooms, hroom.opened, hroom.sess⟩

theorem spares_carryJoin {e : RoomJoinEntry} (he : js e.sessIdx) :
    Spares rs js st (st.carryJoin nr e) := by
  unfold Server.carryJoin
  dsimp only
  split
  · exact (Spares.modRoom hnr _).trans (Spares.modSession he _)
  · exact Spares.modRoom hnr _

omit hnr in
theorem spares_announceSeat (i : Seat) (hin : Inside js (st.rooms nr).members) :
    Spares rs js st (st.announceSeat nr i) ∧
      Inside js ((st.announceSeat nr i).rooms nr).members := by
  rw [Server.announceSeat_rooms]
  refine ⟨?_, hin⟩
  unfold Server.announceSeat
  dsimp only
  split
  · exact Spares.refl st
  · rename_i hlive
    have hused : ((st.rooms nr).members i).used = true := by
      by_contra hnot
      simp [hnot] at hlive
    split
    · rename_i st' hst'
      have hsent := @Spares.enqueue rs js _ _ _ _ (hin i hused) hst'
      exact ⟨hsent.rooms, hsent.opened, hsent.sess⟩
    · exact Spares.refl st

include hold

theorem spares_moveMember (i : Seat) (hin : BothInside js old nr st) :
    Spares rs js st (st.moveMember old nr i) ∧ BothInside js old nr (st.moveMember old nr i) := by
  unfold Server.moveMember
  dsimp only
  split
  · exact ⟨Spares.refl st, hin⟩
  · rename_i hunused
    have hused : ((st.rooms old).members i).used = true := by simpa using hunused
    have hmember := hin.old i hused
    let st₁ := st.modRoom nr fun R =>
      { R with
        members := Function.update R.members i ((st.rooms old).members i)
        world := { R.world with
          actors := Function.update R.world.actors (slotOf i)
            ((R.world.actors (slotOf i)).spawnPlayer i) } }
    have hin₁ (r : Nat) (hr : Inside js (st.rooms r).members) : Inside js (st₁.rooms r).members := by
      apply Inside.modRoom hr
      exact hin.new.update fun _ => hmember
    have hin₂ (r : Nat) (hr : Inside js (st.rooms r).members) : Inside js ((st₁.modRoom old fun R =>
        { R with
          members := Function.update R.members i
            { (st.rooms old).members i with used := false } }).rooms r).members := by
      apply Inside.modRoom (hin₁ r hr)
      exact (hin₁ old hin.old).update (by rintro ⟨⟩)
    have hspares := (@Spares.modRoom rs js st nr hnr _).trans
      (@Spares.modRoom rs js st₁ old hold fun R =>
        { R with
          members := Function.update R.members i
            { (st.rooms old).members i with used := false } })
    split
    · exact ⟨hspares.trans (Spares.modSession hmember _), hin₂ old hin.old, hin₂ nr hin.new⟩
    · exact ⟨hspares, hin₂ old hin.old, hin₂ nr hin.new⟩

theorem spares_moveMembers (is : List Seat) (moved : Int) (hin : BothInside js old nr st) :
    Spares rs js st (Server.moveMembers old nr is st moved).1 ∧
      BothInside js old nr (Server.moveMembers old nr is st moved).1 := by
  induction is generalizing st moved with
  | nil => exact ⟨Spares.refl st, hin⟩
  | cons i is ih =>
    obtain ⟨hone, hin'⟩ := spares_moveMember hold hnr i hin
    unfold Server.moveMembers
    obtain ⟨hrest, hin''⟩ := ih _ hin'
    exact ⟨hone.trans hrest, hin''⟩

theorem spares_openNew (st : Server) : Spares rs js st (st.openNew old nr) :=
  (Spares.modRoom hnr _).trans (Spares.modRoom hold _)

theorem spares_finishTransfer (st : Server) (moved : Int) (leaves : List RoomLeaveEntry) :
    Spares rs js st (st.finishTransfer old nr moved leaves) := by
  let st₁ := (st.modRoom nr fun R =>
    { R with pendingLeave := R.pendingLeave ++ leaves, memberCount := moved }).forgetRoom old
  have hst₁ : Spares rs js st st₁ := (Spares.modRoom hnr _).trans (Spares.forgetRoom hold)
  have hpushed : Spares rs js st { st₁ with openRooms := st₁.openRooms ++ [nr] } := by
    constructor
    · exact hst₁.rooms
    · intro b hb
      have hne : b ≠ nr := by
        rintro rfl
        exact hb hnr
      have hmem : b ∈ st₁.openRooms ++ [nr] ↔ b ∈ st₁.openRooms := by simp [hne]
      exact hmem.trans (hst₁.opened b hb)
    · exact hst₁.sess
  have hfreed (st₂ : Server) (metrics : Metrics) (hst₂ : Spares rs js st st₂) :
      Spares rs js st { st₂.freeRoomIfDrained old with metrics } := by
    have hfree := hst₂.trans (Spares.freeRoomIfDrained hold)
    exact ⟨hfree.rooms, hfree.opened, hfree.sess⟩
  unfold Server.finishTransfer
  dsimp only
  split
  · exact hfreed _ _ hpushed
  · exact hfreed _ _ hst₁

/-- The whole transfer touches the two rooms and the sessions of the old one. -/
theorem spares_transferTo (hin : Inside js (st.rooms old).members)
    (hempty : Inside js (st.rooms nr).members)
    (hpending : ∀ e ∈ (st.rooms old).pendingJoin, js e.sessIdx) :
    Spares rs js st (st.transferTo old nr) ∧
      Inside js ((st.transferTo old nr).rooms nr).members := by
  let st₁ := st.assign nr (st.rooms old).gameWorker
  have hst₁ : Spares rs js st st₁ := by
    have hroom := @Spares.modRoom rs js st nr hnr fun R =>
      { R with gameWorker := (st.rooms old).gameWorker }
    exact ⟨hroom.rooms, hroom.opened, hroom.sess⟩
  have hclosed : Spares rs js st (st₁.closeOld old) := hst₁.trans (Spares.modRoom hold _)
  have hstage : (st₁.closeOld old).stage = st.stage :=
    (Server.stage_closeOld ..).trans (Server.stage_assign ..)
  obtain ⟨hmoved, hinside⟩ := @spares_moveMembers rs js (st₁.closeOld old) old nr hold hnr
    (List.finRange 4) 0 ⟨hin.stage hstage, hempty.stage hstage⟩
  let moved := Server.moveMembers old nr (List.finRange 4) (st₁.closeOld old) 0
  have hpending₁ : ∀ e ∈ (st₁.rooms old).pendingJoin, js e.sessIdx := by
    have hsame : (st₁.rooms old).pendingJoin = (st.rooms old).pendingJoin := by
      by_cases hne : old = nr
      · subst hne
        exact congrArg Room.pendingJoin (Function.update_self ..)
      · exact congrArg Room.pendingJoin (Function.update_of_ne hne ..)
    rw [hsame]
    exact hpending
  have hopened : Inside js ((moved.1.openNew old nr).rooms nr).members := by
    apply Inside.modRoom
    · exact Inside.modRoom hinside.new hinside.new
    · exact Inside.modRoom hinside.old hinside.new
  obtain ⟨hcarried, hincarried⟩ := @Spares.foldl rs js (moved.1.openNew old nr) _
    (fun st => Inside js (st.rooms nr).members) (fun st e => st.carryJoin nr e)
    (st₁.rooms old).pendingJoin
    (fun st e he hin => ⟨spares_carryJoin hnr (hpending₁ e he),
      hin.stage (Server.carryJoin_stage st nr e)⟩) hopened
  constructor
  · exact (((hclosed.trans hmoved).trans (spares_openNew hold hnr _)).trans hcarried).trans
      (spares_finishTransfer hold hnr _ _ _)
  · exact hincarried.stage (Server.stage_finishTransfer ..)

end Tick

section Transfer
variable {rs js : Nat → Prop} {st : Server} {r : Nat} (hr : rs r)
  (hfree : ∀ nr, st.freeRooms.getLast? = some nr → rs nr)
  (hin : Inside js (st.rooms r).members)
  (hpending : ∀ e ∈ (st.rooms r).pendingJoin, js e.sessIdx)
include hr hfree hin hpending

theorem spares_transferRoom : Spares rs js st (st.transferRoom r).1 := by
  unfold Server.transferRoom
  split
  · exact Spares.refl st
  · rename_i nr st₁ htake
    have hlast : st.freeRooms.getLast? = some nr := (Server.takeSlot_some htake).1
    have hnr := hfree nr hlast
    have htaken := @spares_takeSlot rs js _ _ hnr _ htake
    have hslot : st₁ = ({ st with freeRooms := st.freeRooms.dropLast }).modRoom nr Room.reset := by
      unfold Server.takeSlot at htake
      rw [hlast] at htake
      cases htake
      rfl
    have hreset : Inside js ((st.rooms nr).reset).members := by
      rintro i ⟨⟩
    have hold : Inside js (st₁.rooms r).members := by
      rw [hslot]
      exact Inside.modRoom hin hreset
    have hnew : Inside js (st₁.rooms nr).members := by
      have hself : st₁.rooms nr = (st.rooms nr).reset := by
        rw [hslot]
        exact Function.update_self ..
      rw [hself]
      exact hreset
    have hjoins : ∀ e ∈ (st₁.rooms r).pendingJoin, js e.sessIdx := by
      by_cases hne : r = nr
      · subst hne
        have hself : st₁.rooms r = (st.rooms r).reset := by
          rw [hslot]
          exact Function.update_self ..
        rw [hself]
        rintro e ⟨⟩
      · have hother : st₁.rooms r = st.rooms r := by
          rw [hslot]
          exact Function.update_of_ne hne ..
        rw [hother]
        exact hpending
    obtain ⟨hmoved, hinside⟩ := spares_transferTo hr hnr hold hnew hjoins
    obtain ⟨hsent, -⟩ := @Spares.foldl rs js _ _
      (fun st => Inside js (st.rooms nr).members) (fun st i => st.announceSeat nr i)
      (List.finRange 4)
      (fun st i _ hin => spares_announceSeat i hin) hinside
    exact (htaken.trans hmoved).trans hsent

theorem spares_roomTick : Spares rs js st (st.roomTick r).1 := by
  obtain ⟨hbody, hin'⟩ := spares_tickBody hr hin
  unfold Server.roomTick Server.exitCheckAndMaybeTransfer
  split
  · refine hbody.trans (spares_transferRoom hr ?_ hin' ?_)
    · have hsame : (st.tickBody r).freeRooms = st.freeRooms :=
        congrArg Books.freeRooms (Server.books_tickBody st r)
      rw [hsame]
      exact hfree
    · have hsame : ((st.tickBody r).rooms r).pendingJoin = (st.rooms r).pendingJoin :=
        congrArg (fun b : Books => (b.room r).pendingJoin) (Server.books_tickBody st r)
      rw [hsame]
      exact hpending
  · exact hbody

end Transfer

/-! ### Isolation -/

def Server.Resident (st : Server) (r idx : Nat) : Prop :=
  (∃ i, ((st.rooms r).members i).used = true ∧ ((st.rooms r).members i).sessIdx = idx) ∨
    ∃ e ∈ (st.rooms r).pendingJoin, e.sessIdx = idx

/-- The operation on room `a` leaves every other room alone that is not free, and every session
that is not in `a`, those of the other rooms among them. -/
structure Isolated (st st' : Server) (a : Nat) : Prop where
  rooms : ∀ b, b ≠ a → b ∉ st.freeRooms → st'.rooms b = st.rooms b
  opened : ∀ b, b ≠ a → b ∉ st.freeRooms → (b ∈ st'.openRooms ↔ b ∈ st.openRooms)
  sessions : ∀ idx, ¬st.Resident a idx → st'.sess idx = st.sess idx
  neighbours : ∀ b, b ≠ a → ∀ idx, st.Resident b idx → st'.sess idx = st.sess idx

section Isolated
variable {st : Server} {a : Nat}

theorem inside_resident (st : Server) (a : Nat) : Inside (st.Resident a) (st.rooms a).members :=
  fun i hused => Or.inl ⟨i, hused, rfl⟩

theorem pending_resident (st : Server) (a : Nat) :
    ∀ e ∈ (st.rooms a).pendingJoin, st.Resident a e.sessIdx :=
  fun e he => Or.inr ⟨e, he, rfl⟩

theorem Isolated.of_spares {st' : Server}
    (h : Spares (fun b => b = a ∨ b ∈ st.freeRooms) (st.Resident a) st st')
    (hone : ∀ b, b ≠ a → ∀ idx, st.Resident b idx → ¬st.Resident a idx) : Isolated st st' a where
  rooms b hb hfree := h.rooms b fun hor => hor.elim hb hfree
  opened b hb hfree := h.opened b fun hor => hor.elim hb hfree
  sessions idx hidx := h.sess idx hidx
  neighbours b hb idx hidx := h.sess idx (hone b hb idx hidx)

/-- No session is in two rooms. -/
theorem resident_unique {s : Serial} (h : Consistent s.system.ledger) {b : Nat} (hb : b ≠ a)
    {idx : Nat} (hidx : s.srv.Resident b idx) : ¬s.srv.Resident a idx := by
  have hholds {r : Nat} (hr : s.srv.Resident r idx) :
      ∃ gen i, s.srv.HoldsSeat idx gen r i := by
    rcases hr with ⟨i, hused, rfl⟩ | ⟨⟨idx, gen, i⟩, he, rfl⟩
    · exact ⟨((s.srv.rooms r).members i).sessGen, i, Or.inl ⟨hused, rfl, rfl⟩⟩
    · exact ⟨gen, i, Or.inr he⟩
  intro hidx'
  obtain ⟨gen, i, hold⟩ := hholds hidx
  obtain ⟨gen', i', hold'⟩ := hholds hidx'
  exact hb (Serial.holdsSeat_unique h hold' hold).1

end Isolated

/-- In every reachable state, processing a room and ticking it, with its death or its transfer,
leave the other rooms and the sessions of no concern alone. -/
theorem rooms_isolated {sessionCapacity roomCapacity workerCount : Nat} {s : Serial}
    (h : Reach Serial.step Any (Serial.init sessionCapacity roomCapacity workerCount) s) (a : Nat) :
    Isolated s.srv (s.srv.processRoomQueues a).1 a ∧ Isolated s.srv (s.srv.roomTick a).1 a := by
  have hone : ∀ b, b ≠ a → ∀ idx, s.srv.Resident b idx → ¬s.srv.Resident a idx :=
    fun b hb idx hidx => resident_unique (Serial.consistent h) hb hidx
  constructor
  · refine .of_spares (spares_processRoomQueues (Or.inl rfl) (inside_resident s.srv a)
      (pending_resident s.srv a)) hone
  · refine .of_spares (spares_roomTick (Or.inl rfl) ?_ (inside_resident s.srv a)
      (pending_resident s.srv a)) hone
    intro nr hlast
    exact Or.inr (List.mem_of_getLast? hlast)

/-- Five players join; the fifth one is seated in a second room, while the first room is
still to be processed. -/
def fivePlayers : List Op :=
  (List.range 5).flatMap (fun w =>
    [.accept w 5 true true true, .frame w w [6, 0, 10, 0, 1, 0] 0]) ++ [.drain 0, .process 0 1]

theorem rooms_isolated_fivePlayers : ∃ s,
    run Serial.step fivePlayers (Serial.init 8 4 1) = some s ∧
      Isolated s.srv (s.srv.processRoomQueues 0).1 0 ∧ Isolated s.srv (s.srv.roomTick 0).1 0 ∧
      (s.srv.processRoomQueues 0).1.rooms 1 = s.srv.rooms 1 ∧
      (s.srv.processRoomQueues 0).1.sess 4 = s.srv.sess 4 := by
  have hrun : (run Serial.step fivePlayers (Serial.init 8 4 1)).map (fun s =>
      (s.srv.freeRooms, ((s.srv.rooms 1).members firstSeat).used,
        ((s.srv.rooms 1).members firstSeat).sessIdx)) = some ([3, 2], true, 4) := by
    decide +kernel
  obtain ⟨s, hs, hproj⟩ := Option.map_eq_some_iff.mp hrun
  simp only [Prod.mk.injEq] at hproj
  obtain ⟨hfree, hused, hsess⟩ := hproj
  obtain ⟨hprocess, htick⟩ := rooms_isolated (reach_of_run hs) 0
  refine ⟨s, hs, hprocess, htick, hprocess.rooms 1 (by decide) (by simp [hfree]), ?_⟩
  exact hprocess.neighbours 1 (by decide) 4 (Or.inl ⟨firstSeat, hused, hsess⟩)

end BeltServer
