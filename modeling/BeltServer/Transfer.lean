import BeltServer.SerialSim
import BeltServer.Stage

/-!
# What a room transfer carries over

`TransferRoom` as one operation. The member loop receives the members of the old room to the new
one and dismisses them from the old one, the carry loop takes over the pending joins with
their seats; each loop is described by what it does to the two rooms, and the rest of the
server is a frame.
-/

namespace BeltServer

set_option autoImplicit false

open Runs SwapList

theorem slotOf_injective : Function.Injective slotOf := Fin.castLE_injective (by decide)

/-! ### The two rooms in the member loop -/

namespace Room

/-- A used record is copied to its seat and the player starts again at the spawn point. -/
def receive (R : Room) (i : Seat) (m : Member) : Room :=
  if m.used then
    { R with
      members := Function.update R.members i m
      world := { R.world with
        actors := Function.update R.world.actors (slotOf i)
          ((R.world.actors (slotOf i)).spawnPlayer i) } }
  else R

def dismiss (R : Room) (i : Seat) : Room :=
  { R with members := Function.update R.members i { R.members i with used := false } }

def receiveAll (R O : Room) (is : List Seat) : Room :=
  is.foldl (fun R i => R.receive i (O.members i)) R

def dismissAll (R : Room) (is : List Seat) : Room := is.foldl dismiss R

/-- The room takes no more reservations, and its queues are emptied. -/
def shut (R : Room) : Room :=
  { R with
    dead := true
    pendingJoin := []
    pendingLeave := []
    seatUsed := fun _ => false
    reservedSeats := 0 }

/-- The clock is set, and the members are given their seats. -/
def reopen (R : Room) (tick : UInt32) : Room :=
  { R with
    world := { R.world with tick }
    tickAtomic := tick
    everReserved := true
    seatUsed := fun i => (R.members i).used || R.seatUsed i
    reservedSeats := R.reservedSeats +
      (((List.finRange 4).countP fun i => (R.members i).used : Nat) : Int) }

def carry (R : Room) (e : RoomJoinEntry) : Room :=
  if R.seatUsed e.actorId then { R with pendingJoin := R.pendingJoin ++ [e] }
  else
    { R with
      seatUsed := Function.update R.seatUsed e.actorId true
      reservedSeats := R.reservedSeats + 1
      pendingJoin := R.pendingJoin ++ [e] }

def carryAll (R : Room) (es : List RoomJoinEntry) : Room := es.foldl carry R

/-- What the fresh slot `R` becomes when it takes over from the room `O`. -/
def succeed (R O : Room) : Room :=
  let R := (({ R with gameWorker := O.gameWorker }.receiveAll O (List.finRange 4)).reopen
    O.world.tick).carryAll O.pendingJoin
  { R with
    pendingLeave := R.pendingLeave ++ O.pendingLeave
    memberCount := (((List.finRange 4).countP fun i => (O.members i).used : Nat) : Int) }

def vacate (O : Room) : Room :=
  { O.shut.dismissAll (List.finRange 4) with memberCount := 0, gen := O.gen + 1 }

section Receive
variable (R O : Room) (is : List Seat)

theorem receive_of_unused {R : Room} {i : Seat} {m : Member} (h : m.used = false) :
    R.receive i m = R := by
  unfold receive
  rw [h]
  rfl

theorem receiveAll_congr {O O' : Room} {is : List Seat} (h : ∀ i ∈ is, O'.members i = O.members i) :
    R.receiveAll O' is = R.receiveAll O is := by
  induction is generalizing R with
  | nil => rfl
  | cons i is ih =>
    have hrest := ih (R.receive i (O.members i)) fun j hj => h j (List.mem_cons_of_mem _ hj)
    have hfirst := h i (List.mem_cons_self ..)
    unfold receiveAll at hrest ⊢
    rw [List.foldl_cons, List.foldl_cons, hfirst]
    exact hrest

theorem receiveAll_members (i : Seat) : (R.receiveAll O is).members i =
    if i ∈ is ∧ (O.members i).used = true then O.members i else R.members i := by
  induction is generalizing R with
  | nil => simp [receiveAll]
  | cons j is ih =>
    have hrest := ih (R.receive j (O.members j))
    have hone : (R.receive j (O.members j)).members i =
        if i = j ∧ (O.members j).used = true then O.members j else R.members i := by
      unfold receive
      split
      · rename_i hused
        by_cases hij : i = j
        · subst hij
          rw [if_pos ⟨rfl, hused⟩]
          exact Function.update_self ..
        · rw [if_neg fun hboth => hij hboth.1]
          exact Function.update_of_ne hij ..
      · rename_i hused
        rw [if_neg fun hboth => hused hboth.2]
    refine hrest.trans ?_
    rw [hone]
    by_cases hij : i = j
    · subst hij
      by_cases hused : (O.members i).used = true <;> simp [hused]
    · simp [hij]

theorem receiveAll_player (i : Seat) : (R.receiveAll O is).world.actors (slotOf i) =
    if i ∈ is ∧ (O.members i).used = true then SimActor.spawnPlayer {} i
    else R.world.actors (slotOf i) := by
  induction is generalizing R with
  | nil => simp [receiveAll]
  | cons j is ih =>
    have hrest := ih (R.receive j (O.members j))
    have hone : (R.receive j (O.members j)).world.actors (slotOf i) =
        if i = j ∧ (O.members j).used = true then SimActor.spawnPlayer {} i
        else R.world.actors (slotOf i) := by
      unfold receive
      split
      · rename_i hused
        by_cases hij : i = j
        · subst hij
          rw [if_pos ⟨rfl, hused⟩]
          exact Function.update_self ..
        · rw [if_neg fun hboth => hij hboth.1]
          exact Function.update_of_ne (fun hslot => hij (slotOf_injective hslot)) ..
      · rename_i hused
        rw [if_neg fun hboth => hused hboth.2]
    refine hrest.trans ?_
    rw [hone]
    by_cases hij : i = j
    · subst hij
      by_cases hused : (O.members i).used = true <;> simp [hused]
    · simp [hij]

theorem receiveAll_orc {j : Slot} (hj : 4 ≤ j.val) :
    (R.receiveAll O is).world.actors j = R.world.actors j := by
  induction is generalizing R with
  | nil => rfl
  | cons i is ih =>
    refine (ih (R.receive i (O.members i))).trans ?_
    have hne : j ≠ slotOf i := by
      intro heq
      have hval : j.val = i.val := congrArg Fin.val heq
      have hi := i.isLt
      omega
    unfold receive
    split
    · exact Function.update_of_ne hne ..
    · rfl

theorem receiveAll_frame : ∃ ms acts, R.receiveAll O is =
    { R with members := ms, world := { R.world with actors := acts } } := by
  induction is generalizing R with
  | nil => exact ⟨R.members, R.world.actors, rfl⟩
  | cons i is ih =>
    obtain ⟨ms, acts, hrest⟩ := ih (R.receive i (O.members i))
    refine ⟨ms, acts, hrest.trans ?_⟩
    unfold receive
    split
    · rfl
    · rfl

theorem dismissAll_members (i : Seat) : (R.dismissAll is).members i =
    if i ∈ is then { R.members i with used := false } else R.members i := by
  induction is generalizing R with
  | nil => simp [dismissAll]
  | cons j is ih =>
    refine (ih (R.dismiss j)).trans ?_
    unfold dismiss
    by_cases hij : i = j
    · subst hij
      by_cases hmem : i ∈ is <;> simp [hmem]
    · simp [hij]

theorem dismissAll_frame : ∃ ms, R.dismissAll is = { R with members := ms } := by
  induction is generalizing R with
  | nil => exact ⟨R.members, rfl⟩
  | cons i is ih =>
    obtain ⟨ms, hrest⟩ := ih (R.dismiss i)
    exact ⟨ms, hrest⟩

end Receive

section Carry
variable (R : Room) (es : List RoomJoinEntry)

theorem carryAll_frame : ∃ seats n, R.carryAll es =
    { R with seatUsed := seats, reservedSeats := n, pendingJoin := R.pendingJoin ++ es } := by
  induction es generalizing R with
  | nil =>
    refine ⟨R.seatUsed, R.reservedSeats, ?_⟩
    rw [List.append_nil]
    rfl
  | cons e es ih =>
    obtain ⟨seats, n, hrest⟩ := ih (R.carry e)
    refine ⟨seats, n, hrest.trans ?_⟩
    unfold carry
    split
    · simp
    · simp

theorem carryAll_seatUsed (i : Seat) : (R.carryAll es).seatUsed i = true ↔
    R.seatUsed i = true ∨ ∃ e ∈ es, e.actorId = i := by
  induction es generalizing R with
  | nil => simp [carryAll]
  | cons e es ih =>
    have hone : (R.carry e).seatUsed i = true ↔ R.seatUsed i = true ∨ e.actorId = i := by
      unfold carry
      split
      · rename_i hseat
        constructor
        · exact Or.inl
        · rintro (hi | rfl)
          · exact hi
          · exact hseat
      · by_cases hi : i = e.actorId
        · subst hi
          simp
        · simp [hi, Ne.symm hi]
    refine (ih (R.carry e)).trans ?_
    rw [hone, or_assoc]
    simp

/-- Every seat that is carried over is counted once. -/
theorem carryAll_reserved
    (h : R.reservedSeats = (((List.finRange 4).countP fun i => R.seatUsed i : Nat) : Int)) :
    (R.carryAll es).reservedSeats =
      (((List.finRange 4).countP fun i => (R.carryAll es).seatUsed i : Nat) : Int) := by
  induction es generalizing R with
  | nil => exact h
  | cons e es ih =>
    apply ih
    unfold carry
    split
    · exact h
    · rename_i hseat
      have hfree : R.seatUsed e.actorId = false := by simpa using hseat
      have hone : ∑ i, (Function.update R.seatUsed e.actorId true i).toNat +
          (R.seatUsed e.actorId).toNat = ∑ i, (R.seatUsed i).toNat +
            (Function.update R.seatUsed e.actorId true e.actorId).toNat :=
        Tally.sum_change (f := fun i => (R.seatUsed i).toNat)
          (g := fun i => (Function.update R.seatUsed e.actorId true i).toNat)
          (Finset.mem_univ e.actorId) fun i hi => congrArg Bool.toNat (Function.update_of_ne hi ..)
      rw [hfree, Function.update_self] at hone
      have hone' : ∑ i, (Function.update R.seatUsed e.actorId true i).toNat =
          ∑ i, (R.seatUsed i).toNat + 1 := hone
      show R.reservedSeats + 1 = _
      rw [h, Tally.countP_finRange, Tally.countP_finRange, hone']
      rfl

end Carry

section Succeed
variable (Q O : Room)

theorem succeed_frame : ∃ seats n, Q.reset.succeed O =
    { ({ Q.reset with gameWorker := O.gameWorker }.receiveAll O (List.finRange 4)).reopen
        O.world.tick with
      seatUsed := seats
      reservedSeats := n
      pendingJoin := O.pendingJoin
      pendingLeave := O.pendingLeave
      memberCount := (((List.finRange 4).countP fun i => (O.members i).used : Nat) : Int) } := by
  obtain ⟨seats, n, hcarry⟩ := carryAll_frame
    (({ Q.reset with gameWorker := O.gameWorker }.receiveAll O (List.finRange 4)).reopen O.world.tick)
    O.pendingJoin
  obtain ⟨ms, acts, hreceive⟩ := receiveAll_frame { Q.reset with gameWorker := O.gameWorker } O
    (List.finRange 4)
  refine ⟨seats, n, ?_⟩
  rw [succeed, hcarry, hreceive]
  rfl

/-- The members of the old room are the members of the new one. -/
theorem succeed_members (i : Seat) : (Q.reset.succeed O).members i =
    if (O.members i).used = true then O.members i else {} := by
  obtain ⟨seats, n, hframe⟩ := succeed_frame Q O
  have hreceive := receiveAll_members { Q.reset with gameWorker := O.gameWorker } O
    (List.finRange 4) i
  simp only [List.mem_finRange, true_and] at hreceive
  rw [hframe]
  exact hreceive

theorem succeed_used (i : Seat) : ((Q.reset.succeed O).members i).used = (O.members i).used := by
  rw [succeed_members]
  cases hu : (O.members i).used with
  | true => exact hu
  | false => rfl

theorem succeed_player (i : Seat) : (Q.reset.succeed O).world.actors (slotOf i) =
    if (O.members i).used = true then SimActor.spawnPlayer {} i else {} := by
  obtain ⟨seats, n, hframe⟩ := succeed_frame Q O
  have hreceive := receiveAll_player { Q.reset with gameWorker := O.gameWorker } O
    (List.finRange 4) i
  simp only [List.mem_finRange, true_and] at hreceive
  have hempty : resetWorld.actors (slotOf i) = {} := dif_pos i.isLt
  rw [hframe]
  refine hreceive.trans ?_
  split
  · rfl
  · exact hempty

theorem succeed_orc (j : Fin 10) : (Q.reset.succeed O).world.actors ⟨j.val + 4, by omega⟩ =
    spawnOrc j := by
  obtain ⟨seats, n, hframe⟩ := succeed_frame Q O
  have hreceive := receiveAll_orc { Q.reset with gameWorker := O.gameWorker } O (List.finRange 4)
    (j := ⟨j.val + 4, by omega⟩) (Nat.le_add_left 4 j.val)
  have horc : resetWorld.actors ⟨j.val + 4, by omega⟩ = spawnOrc j := by
    have hj : ¬ j.val + 4 < 4 := by omega
    unfold resetWorld
    dsimp only
    rw [dif_neg hj]
    rfl
  rw [hframe]
  exact hreceive.trans horc

/-- The seats of the new room are those of its members and of the pending joins. -/
theorem succeed_seatUsed (i : Seat) : (Q.reset.succeed O).seatUsed i = true ↔
    (O.members i).used = true ∨ ∃ e ∈ O.pendingJoin, e.actorId = i := by
  refine (carryAll_seatUsed _ O.pendingJoin i).trans (or_congr ?_ Iff.rfl)
  obtain ⟨ms, acts, hframe⟩ := receiveAll_frame { Q.reset with gameWorker := O.gameWorker } O
    (List.finRange 4)
  have hreceive := receiveAll_members { Q.reset with gameWorker := O.gameWorker } O
    (List.finRange 4) i
  simp only [List.mem_finRange, true_and, hframe] at hreceive
  rw [hframe]
  simp only [reopen, hreceive, reset, Bool.or_false]
  split
  · exact Iff.rfl
  · rename_i hu
    simp [hu]

theorem succeed_reserved : (Q.reset.succeed O).reservedSeats =
    (((List.finRange 4).countP fun i => (Q.reset.succeed O).seatUsed i : Nat) : Int) := by
  apply carryAll_reserved
  obtain ⟨ms, acts, hframe⟩ := receiveAll_frame { Q.reset with gameWorker := O.gameWorker } O
    (List.finRange 4)
  rw [hframe]
  simp [reopen, reset]

/-- The room `R` goes on where the room `O` was: the same worker, members, queues and clock,
the seats that these need, and everybody at a spawn point. -/
structure TookOver (O R : Room) : Prop where
  worker : R.gameWorker = O.gameWorker
  alive : R.dead = false
  members : ∀ i, (O.members i).used = true → R.members i = O.members i
  empty : ∀ i, (O.members i).used = false → (R.members i).used = false
  count : R.memberCount = (((List.finRange 4).countP fun i => (O.members i).used : Nat) : Int)
  joins : R.pendingJoin = O.pendingJoin
  leaves : R.pendingLeave = O.pendingLeave
  inputs : R.inQ = []
  seats : ∀ i, R.seatUsed i = true ↔
    (O.members i).used = true ∨ ∃ e ∈ O.pendingJoin, e.actorId = i
  reserved : R.reservedSeats = (((List.finRange 4).countP fun i => R.seatUsed i : Nat) : Int)
  tick : R.world.tick = O.world.tick
  players : ∀ i, (O.members i).used = true →
    R.world.actors (slotOf i) = SimActor.spawnPlayer {} i
  absent : ∀ i, (O.members i).used = false → (R.world.actors (slotOf i)).present = false
  orcs : ∀ j : Fin 10, R.world.actors ⟨j.val + 4, by omega⟩ = spawnOrc j

theorem succeed_tookOver : TookOver O (Q.reset.succeed O) := by
  obtain ⟨seats, n, hframe⟩ := succeed_frame Q O
  obtain ⟨ms, acts, hreceive⟩ := receiveAll_frame { Q.reset with gameWorker := O.gameWorker } O
    (List.finRange 4)
  rw [hreceive] at hframe
  constructor
  · rw [hframe]
    rfl
  · rw [hframe]
    rfl
  · intro i hu
    rw [succeed_members, if_pos hu]
  · intro i hu
    rw [succeed_used]
    exact hu
  · rw [hframe]
  · rw [hframe]
  · rw [hframe]
  · rw [hframe]
    rfl
  · exact succeed_seatUsed Q O
  · exact succeed_reserved Q O
  · rw [hframe]
    rfl
  · intro i hu
    rw [succeed_player, if_pos hu]
  · intro i hu
    rw [succeed_player, hu]
    rfl
  · exact succeed_orc Q O

/-- A closed room that holds nobody. -/
structure Vacated (R : Room) : Prop where
  dead : R.dead = true
  members : ∀ i, (R.members i).used = false
  count : R.memberCount = 0
  seats : ∀ i, R.seatUsed i = false
  reserved : R.reservedSeats = 0
  joins : R.pendingJoin = []
  leaves : R.pendingLeave = []

theorem vacate_vacated : Vacated O.vacate := by
  obtain ⟨ms, hframe⟩ := dismissAll_frame O.shut (List.finRange 4)
  have hmembers (i : Seat) : (O.vacate.members i).used = false := by
    have hi := dismissAll_members O.shut (List.finRange 4) i
    rw [if_pos (List.mem_finRange i)] at hi
    exact (congrArg Member.used hi).trans rfl
  refine ⟨?_, hmembers, rfl, ?_, ?_, ?_, ?_⟩
  · rw [vacate, hframe]
    rfl
  · intro i
    rw [vacate, hframe]
    rfl
  all_goals
    rw [vacate, hframe]
    rfl

end Succeed

end Room

/-! ### The sections on the server -/

namespace Server

def handOver (st : Server) (old nr : Nat) : Server :=
  let st := st.assign nr (st.rooms old).gameWorker
  (st.rooms old).pendingJoin.foldl (fun st e => st.carryJoin nr e)
    ((moveMembers old nr (List.finRange 4) (st.closeOld old) 0).1.openNew old nr)

/-- Nothing changes in the manager's lists, and of a session only the room number, to `nr`. -/
structure Rehomed (nr : Nat) (st st' : Server) : Prop where
  free : st'.freeRooms = st.freeRooms := by rfl
  opened : st'.openRooms = st.openRooms := by rfl
  gen : ∀ idx, (st'.sess idx).gen = (st.sess idx).gen := by intro; rfl
  refs : ∀ idx, (st'.sess idx).refs = (st.sess idx).refs := by intro; rfl
  room : ∀ idx, (st'.sess idx).roomIdx = (st.sess idx).roomIdx ∨ (st'.sess idx).roomIdx = nr := by
    intro; exact Or.inl rfl

namespace Rehomed

variable {nr : Nat} {st st' st'' : Server}

theorem refl : Rehomed nr st st := {}

theorem trans (h : Rehomed nr st st') (h' : Rehomed nr st' st'') : Rehomed nr st st'' where
  free := h'.free.trans h.free
  opened := h'.opened.trans h.opened
  gen idx := (h'.gen idx).trans (h.gen idx)
  refs idx := (h'.refs idx).trans (h.refs idx)
  room idx := by
    rcases h'.room idx with hsame | hnew
    · rw [hsame]
      exact h.room idx
    · exact Or.inr hnew

theorem stays (h : Rehomed nr st st') {idx : Nat} (hroom : (st.sess idx).roomIdx = nr) :
    (st'.sess idx).roomIdx = nr := by
  rcases h.room idx with hsame | hnew
  · exact hsame.trans hroom
  · exact hnew

/-- The store of the new room number. -/
theorem store (st : Server) (nr idx : Nat) (gen : UInt32) : Rehomed nr st
    (if (st.sess idx).gen = gen then st.modSession idx fun s => { s with roomIdx := nr }
      else st) := by
  split
  · have hself : (st.modSession idx fun s => { s with roomIdx := nr }).sess idx =
        { st.sess idx with roomIdx := nr } := Function.update_self ..
    have hother (j : Nat) (hj : j ≠ idx) :
        (st.modSession idx fun s => { s with roomIdx := nr }).sess j = st.sess j :=
      Function.update_of_ne hj ..
    refine ⟨rfl, rfl, fun j => ?_, fun j => ?_, fun j => ?_⟩
    all_goals rcases eq_or_ne j idx with rfl | hj
    · rw [hself]
    · rw [hother j hj]
    · rw [hself]
    · rw [hother j hj]
    · rw [hself]
      exact Or.inr rfl
    · rw [hother j hj]
      exact Or.inl rfl
  · exact .refl

theorem store_room {st : Server} {nr idx : Nat} {gen : UInt32} (h : (st.sess idx).gen = gen) :
    ((if (st.sess idx).gen = gen then st.modSession idx fun s => { s with roomIdx := nr }
      else st).sess idx).roomIdx = nr := by
  have hself : (st.modSession idx fun s => { s with roomIdx := nr }).sess idx =
      { st.sess idx with roomIdx := nr } := Function.update_self ..
  rw [if_pos h, hself]

end Rehomed

section Move
variable {old nr : Nat} (hne : nr ≠ old)

theorem moveMember_rehomed (st : Server) (old nr : Nat) (i : Seat) :
    Rehomed nr st (st.moveMember old nr i) := by
  unfold moveMember
  dsimp only
  split
  · exact .refl
  · refine Rehomed.trans ?_ (Rehomed.store _ nr _ _)
    exact {}

theorem moveMember_roomIdx {st : Server} {i : Seat} (h : ((st.rooms old).members i).used = true)
    (hgen : (st.sess ((st.rooms old).members i).sessIdx).gen = ((st.rooms old).members i).sessGen) :
    ((st.moveMember old nr i).sess ((st.rooms old).members i).sessIdx).roomIdx = nr := by
  unfold moveMember
  simp only [h, Bool.not_true, Bool.false_eq_true, if_false]
  exact Rehomed.store_room hgen

include hne

theorem moveMember_rooms (st : Server) (i : Seat) :
    (st.moveMember old nr i).rooms nr = (st.rooms nr).receive i ((st.rooms old).members i) ∧
      (st.moveMember old nr i).rooms old = (st.rooms old).dismiss i := by
  cases hu : ((st.rooms old).members i).used with
  | false =>
    rw [moveMember_of_unused nr hu, Room.receive_of_unused hu]
    refine ⟨rfl, ?_⟩
    have hsame : { (st.rooms old).members i with used := false } = (st.rooms old).members i := by
      rw [← hu]
    unfold Room.dismiss
    rw [hsame, Function.update_eq_self]
  | true =>
    unfold moveMember Room.receive
    simp only [hu, Bool.not_true, Bool.false_eq_true, if_false, if_true]
    have hrooms (st' : Server) (idx : Nat) (gen : UInt32) :
        (if (st'.sess idx).gen = gen then st'.modSession idx fun s => { s with roomIdx := nr }
          else st').rooms = st'.rooms := by
      split
      · rfl
      · rfl
    rw [hrooms]
    constructor
    · refine (Function.update_of_ne hne ..).trans ?_
      exact Function.update_self ..
    · refine (Function.update_self ..).trans ?_
      have hold (f : Room → Room) : (st.modRoom nr f).rooms old = st.rooms old :=
        Function.update_of_ne (Ne.symm hne) ..
      rw [hold]
      rfl

/-- The member loop: the new room receives the members that the old one dismisses. -/
theorem moveMembers_rooms {is : List Seat} (hnodup : is.Nodup) (st : Server) (moved : Int) :
    ((moveMembers old nr is st moved).1.rooms nr = (st.rooms nr).receiveAll (st.rooms old) is ∧
      (moveMembers old nr is st moved).1.rooms old = (st.rooms old).dismissAll is) := by
  induction is generalizing st moved with
  | nil => exact ⟨rfl, rfl⟩
  | cons i is ih =>
    obtain ⟨hi, hrest⟩ := List.nodup_cons.mp hnodup
    obtain ⟨hreceive, hdismiss⟩ := moveMember_rooms hne st i
    obtain ⟨hnew, hold⟩ := ih hrest (st.moveMember old nr i)
      (if ((st.rooms old).members i).used then moved + 1 else moved)
    have hcongr (R : Room) : R.receiveAll ((st.rooms old).dismiss i) is =
        R.receiveAll (st.rooms old) is := by
      apply Room.receiveAll_congr
      intro j hj
      have hji : j ≠ i := ne_of_mem_of_not_mem hj hi
      exact Function.update_of_ne hji ..
    constructor
    · refine hnew.trans ?_
      rw [hreceive, hdismiss, hcongr]
      rfl
    · refine hold.trans ?_
      rw [hdismiss]
      rfl

omit hne in
theorem moveMembers_rehomed (is : List Seat) (st : Server) (moved : Int) :
    Rehomed nr st (moveMembers old nr is st moved).1 := by
  induction is generalizing st moved with
  | nil => exact .refl
  | cons i is ih => exact (moveMember_rehomed st old nr i).trans (ih _ _)

/-- Every moved session is told its new room. -/
theorem moveMembers_roomIdx {is : List Seat} (hnodup : is.Nodup) (st : Server) (moved : Int)
    {i : Seat} (hi : i ∈ is) (hu : ((st.rooms old).members i).used = true)
    (hgen : (st.sess ((st.rooms old).members i).sessIdx).gen = ((st.rooms old).members i).sessGen) :
    ((moveMembers old nr is st moved).1.sess ((st.rooms old).members i).sessIdx).roomIdx = nr := by
  induction is generalizing st moved with
  | nil => cases hi
  | cons j is ih =>
    obtain ⟨hj, hrest⟩ := List.nodup_cons.mp hnodup
    rcases List.mem_cons.mp hi with rfl | hmem
    · exact (moveMembers_rehomed is _ _).stays (moveMember_roomIdx hu hgen)
    · have hmember : ((st.moveMember old nr j).rooms old).members i = (st.rooms old).members i := by
        have hij : i ≠ j := ne_of_mem_of_not_mem hmem hj
        rw [(moveMember_rooms hne st j).2]
        exact Function.update_of_ne hij ..
      have hlater := ih hrest (st.moveMember old nr j)
        (if ((st.rooms old).members j).used then moved + 1 else moved) hmem
      rw [hmember, (moveMember_rehomed st old nr j).gen] at hlater
      exact hlater hu hgen

end Move

section Carry
variable (nr : Nat)

theorem carryJoin_rehomed (st : Server) (e : RoomJoinEntry) : Rehomed nr st (st.carryJoin nr e) := by
  unfold carryJoin
  refine Rehomed.trans ?_ (Rehomed.store _ nr _ _)
  exact {}

theorem carryJoin_rooms (st : Server) (e : RoomJoinEntry) :
    (st.carryJoin nr e).rooms nr = (st.rooms nr).carry e ∧
      ∀ r, r ≠ nr → (st.carryJoin nr e).rooms r = st.rooms r := by
  unfold carryJoin
  have hrooms (st' : Server) (idx : Nat) (gen : UInt32) :
      (if (st'.sess idx).gen = gen then st'.modSession idx fun s => { s with roomIdx := nr }
        else st').rooms = st'.rooms := by
    split
    · rfl
    · rfl
  rw [hrooms]
  exact ⟨Function.update_self .., fun r hr => Function.update_of_ne hr ..⟩

theorem carryJoins_rooms (es : List RoomJoinEntry) (st : Server) :
    (es.foldl (fun st e => st.carryJoin nr e) st).rooms nr = (st.rooms nr).carryAll es ∧
      ∀ r, r ≠ nr → (es.foldl (fun st e => st.carryJoin nr e) st).rooms r = st.rooms r := by
  induction es generalizing st with
  | nil => exact ⟨rfl, fun _ _ => rfl⟩
  | cons e es ih =>
    obtain ⟨hnew, hother⟩ := carryJoin_rooms nr st e
    obtain ⟨hnew', hother'⟩ := ih (st.carryJoin nr e)
    rw [hnew] at hnew'
    exact ⟨hnew', fun r hr => (hother' r hr).trans (hother r hr)⟩

theorem carryJoins_rehomed (es : List RoomJoinEntry) (st : Server) :
    Rehomed nr st (es.foldl (fun st e => st.carryJoin nr e) st) := by
  induction es generalizing st with
  | nil => exact .refl
  | cons e es ih => exact (carryJoin_rehomed nr st e).trans (ih _)

theorem carryJoins_roomIdx {es : List RoomJoinEntry} {st : Server} {e : RoomJoinEntry} (he : e ∈ es)
    (hgen : (st.sess e.sessIdx).gen = e.sessGen) :
    ((es.foldl (fun st e => st.carryJoin nr e) st).sess e.sessIdx).roomIdx = nr := by
  induction es generalizing st with
  | nil => cases he
  | cons e' es ih =>
    rcases List.mem_cons.mp he with rfl | hmem
    · apply (carryJoins_rehomed nr es _).stays
      exact Rehomed.store_room hgen
    · apply ih hmem
      rw [(carryJoin_rehomed nr st e').gen]
      exact hgen

end Carry

section Transfer
variable {old nr : Nat} (hne : nr ≠ old)
include hne

theorem moveMembers_count {is : List Seat} (hnodup : is.Nodup) (st : Server) (moved : Int) :
    (moveMembers old nr is st moved).2 =
      moved + ((is.countP fun i => ((st.rooms old).members i).used : Nat) : Int) := by
  induction is generalizing st moved with
  | nil => simp [moveMembers]
  | cons i is ih =>
    obtain ⟨hi, hrest⟩ := List.nodup_cons.mp hnodup
    have hlater := ih hrest (st.moveMember old nr i)
      (if ((st.rooms old).members i).used then moved + 1 else moved)
    have hsame : (is.countP fun j => (((st.moveMember old nr i).rooms old).members j).used) =
        is.countP fun j => ((st.rooms old).members j).used := by
      apply List.countP_congr
      intro j hj
      have hji : j ≠ i := ne_of_mem_of_not_mem hj hi
      have hmember : (((st.rooms old).dismiss i).members j) = (st.rooms old).members j :=
        Function.update_of_ne hji ..
      rw [(moveMember_rooms hne st i).2, hmember]
    refine hlater.trans ?_
    rw [hsame, List.countP_cons]
    split
    · push_cast
      omega
    · rfl

theorem openNew_rooms (st : Server) :
    (st.openNew old nr).rooms nr = (st.rooms nr).reopen (st.rooms old).world.tick ∧
      (st.openNew old nr).rooms old = { st.rooms old with memberCount := 0 } := by
  have hold (f : Room → Room) : (st.modRoom nr f).rooms old = st.rooms old :=
    Function.update_of_ne (Ne.symm hne) ..
  unfold openNew
  constructor
  · refine (Function.update_of_ne hne ..).trans ?_
    exact Function.update_self ..
  · refine (Function.update_self ..).trans ?_
    rw [hold]

theorem finishTransfer_rooms (st : Server) (moved : Int) (leaves : List RoomLeaveEntry) :
    (st.finishTransfer old nr moved leaves).rooms nr =
        { st.rooms nr with
          pendingLeave := (st.rooms nr).pendingLeave ++ leaves
          memberCount := moved } ∧
      (st.finishTransfer old nr moved leaves).rooms old =
        { st.rooms old with gen := (st.rooms old).gen + 1 } := by
  have hdrained (st₁ : Server) (hst₁ : st₁.rooms = (st.modRoom nr fun R =>
      { R with pendingLeave := R.pendingLeave ++ leaves, memberCount := moved }).rooms) :
      (st₁.freeRoomIfDrained old).rooms nr =
          { st.rooms nr with
            pendingLeave := (st.rooms nr).pendingLeave ++ leaves
            memberCount := moved } ∧
        (st₁.freeRoomIfDrained old).rooms old =
          { st.rooms old with gen := (st.rooms old).gen + 1 } := by
    constructor
    · refine (Function.update_of_ne hne ..).trans ?_
      rw [hst₁]
      exact Function.update_self ..
    · have hold : st₁.rooms old = st.rooms old := by
        rw [hst₁]
        exact Function.update_of_ne (Ne.symm hne) ..
      refine (Function.update_self ..).trans ?_
      rw [hold]
  unfold finishTransfer
  dsimp only
  split
  · exact hdrained _ rfl
  · exact hdrained _ rfl

omit hne in
theorem finishTransfer_lists (st : Server) (moved : Int) (leaves : List RoomLeaveEntry) :
    (st.finishTransfer old nr moved leaves).sess = st.sess ∧
    (st.finishTransfer old nr moved leaves).freeRooms = st.freeRooms ++ [old] ∧
    (st.finishTransfer old nr moved leaves).openRooms =
      if (st.rooms nr).reservedSeats < 4 then swapRemove st.openRooms old ++ [nr]
      else swapRemove st.openRooms old := by
  have hres : (((st.modRoom nr fun R =>
      { R with pendingLeave := R.pendingLeave ++ leaves, memberCount := moved }).forgetRoom
        old).rooms nr).reservedSeats = (st.rooms nr).reservedSeats := by
    simp [modRoom, forgetRoom]
  unfold finishTransfer
  simp only [hres]
  split
  · exact ⟨rfl, rfl, rfl⟩
  · exact ⟨rfl, rfl, rfl⟩

/-- A transfer is the new room's takeover and the old room's end. -/
theorem transferTo_rooms (st : Server) :
    (st.transferTo old nr).rooms nr = (st.rooms nr).succeed (st.rooms old) ∧
      (st.transferTo old nr).rooms old = (st.rooms old).vacate := by
  let st₁ := st.assign nr (st.rooms old).gameWorker
  let moved := moveMembers old nr (List.finRange 4) (st₁.closeOld old) 0
  have hold : st₁.rooms old = st.rooms old := Function.update_of_ne (Ne.symm hne) ..
  have hnew : st₁.rooms nr = { st.rooms nr with gameWorker := (st.rooms old).gameWorker } :=
    Function.update_self ..
  have hshut : (st₁.closeOld old).rooms old = (st.rooms old).shut := by
    refine (Function.update_self ..).trans ?_
    rw [hold]
    rfl
  have hkept : (st₁.closeOld old).rooms nr = st₁.rooms nr := Function.update_of_ne hne ..
  have hnodup : (List.finRange 4).Nodup := List.nodup_finRange 4
  obtain ⟨hmoved, hmoved'⟩ := moveMembers_rooms hne hnodup (st₁.closeOld old) 0
  obtain ⟨hopened, hopened'⟩ := openNew_rooms hne moved.1
  obtain ⟨hcarried, hcarried'⟩ := carryJoins_rooms nr (st₁.rooms old).pendingJoin
    (moved.1.openNew old nr)
  obtain ⟨hfinish, hfinish'⟩ := finishTransfer_rooms hne (st.handOver old nr) moved.2
    (st₁.rooms old).pendingLeave
  have hreceive : ({ st.rooms nr with gameWorker := (st.rooms old).gameWorker } : Room).receiveAll
      (st.rooms old).shut (List.finRange 4) =
      ({ st.rooms nr with gameWorker := (st.rooms old).gameWorker } : Room).receiveAll
        (st.rooms old) (List.finRange 4) := Room.receiveAll_congr _ fun i _ => rfl
  obtain ⟨ms, hframe⟩ := Room.dismissAll_frame (st.rooms old).shut (List.finRange 4)
  have htick : (moved.1.rooms old).world.tick = (st.rooms old).world.tick := by
    rw [hmoved', hshut, hframe]
    rfl
  have hcount : moved.2 =
      (((List.finRange 4).countP fun i => ((st.rooms old).members i).used : Nat) : Int) := by
    refine (moveMembers_count hne hnodup (st₁.closeOld old) 0).trans ?_
    rw [hshut]
    exact zero_add _
  have hnr : (st.handOver old nr).rooms nr =
      (((({ st.rooms nr with gameWorker := (st.rooms old).gameWorker } : Room).receiveAll
        (st.rooms old) (List.finRange 4)).reopen (st.rooms old).world.tick).carryAll
          (st.rooms old).pendingJoin) := by
    refine hcarried.trans ?_
    rw [hopened, hmoved, htick, hkept, hnew, hshut, hreceive, hold]
  have hro : (st.handOver old nr).rooms old =
      { (st.rooms old).shut.dismissAll (List.finRange 4) with memberCount := 0 } := by
    refine (hcarried' old (Ne.symm hne)).trans ?_
    rw [hopened', hmoved', hshut]
  constructor
  · refine hfinish.trans ?_
    rw [hnr, hold, hcount]
    rfl
  · refine hfinish'.trans ?_
    rw [hro]
    rfl

omit hne in
theorem openNew_rehomed (st : Server) : Rehomed nr st ((moveMembers old nr (List.finRange 4)
    ((st.assign nr (st.rooms old).gameWorker).closeOld old) 0).1.openNew old nr) := by
  have hclosed : Rehomed nr st ((st.assign nr (st.rooms old).gameWorker).closeOld old) := {}
  have hmoved := hclosed.trans (@moveMembers_rehomed old nr (List.finRange 4) _ 0)
  apply hmoved.trans
  exact {}

omit hne in
theorem handOver_rehomed (st : Server) : Rehomed nr st (st.handOver old nr) :=
  (openNew_rehomed st).trans (carryJoins_rehomed nr _ _)

theorem handOver_member {st : Server} {i : Seat} (hu : ((st.rooms old).members i).used = true)
    (hgen : (st.sess ((st.rooms old).members i).sessIdx).gen = ((st.rooms old).members i).sessGen) :
    ((st.handOver old nr).sess ((st.rooms old).members i).sessIdx).roomIdx = nr := by
  let st₁ := (st.assign nr (st.rooms old).gameWorker).closeOld old
  let moved := moveMembers old nr (List.finRange 4) st₁ 0
  have hrest : Rehomed nr moved.1 (st.handOver old nr) := by
    refine Rehomed.trans ?_ (carryJoins_rehomed nr _ _)
    exact {}
  have hmember : (st₁.rooms old).members i = (st.rooms old).members i := by
    have hold : (st.assign nr (st.rooms old).gameWorker).rooms old = st.rooms old :=
      Function.update_of_ne (Ne.symm hne) ..
    have hshut : st₁.rooms old =
        ((st.assign nr (st.rooms old).gameWorker).rooms old).shut := Function.update_self ..
    rw [hshut, hold]
    rfl
  apply hrest.stays
  have hmoved := moveMembers_roomIdx hne (List.nodup_finRange 4) st₁ 0 (List.mem_finRange i)
    (hmember ▸ hu)
  rw [hmember] at hmoved
  exact hmoved hgen

theorem handOver_join {st : Server} {e : RoomJoinEntry} (he : e ∈ (st.rooms old).pendingJoin)
    (hgen : (st.sess e.sessIdx).gen = e.sessGen) :
    ((st.handOver old nr).sess e.sessIdx).roomIdx = nr := by
  have hold : (st.assign nr (st.rooms old).gameWorker).rooms old = st.rooms old :=
    Function.update_of_ne (Ne.symm hne) ..
  have hbefore : Rehomed nr st ((moveMembers old nr (List.finRange 4)
      ((st.assign nr (st.rooms old).gameWorker).closeOld old) 0).1.openNew old nr) :=
    openNew_rehomed st
  unfold handOver
  dsimp only
  rw [hold]
  apply carryJoins_roomIdx nr he
  rw [hbefore.gen]
  exact hgen

end Transfer

/-- Room `nr` has taken over from room `old`, and nothing is lost or doubled. -/
structure Transferred (st st' : Server) (old nr : Nat) : Prop where
  room : Room.TookOver (st.rooms old) (st'.rooms nr)
  moved : ∀ i, ((st.rooms old).members i).used = true →
    (st'.sess ((st.rooms old).members i).sessIdx).roomIdx = nr
  carried : ∀ e ∈ (st.rooms old).pendingJoin, (st'.sess e.sessIdx).roomIdx = nr
  refs : ∀ idx, (st'.sess idx).refs = (st.sess idx).refs
  closed : (st'.rooms old).Vacated
  freed : old ∈ st'.freeRooms
  unlisted : old ∉ st'.openRooms
  listed : nr ∈ st'.openRooms ↔ (st'.rooms nr).reservedSeats < 4

/-- The sessions that the room names are still there. -/
structure Holds (st : Server) (r : Nat) : Prop where
  members : ∀ i, ((st.rooms r).members i).used = true →
    (st.sess ((st.rooms r).members i).sessIdx).gen = ((st.rooms r).members i).sessGen
  joins : ∀ e ∈ (st.rooms r).pendingJoin, (st.sess e.sessIdx).gen = e.sessGen

section Whole
variable {st : Server} {old nr : Nat}

/-- The transfer up to the announcement. -/
theorem transferTo_transferred {st₁ : Server} (htake : st.takeSlot = some (nr, st₁))
    (hne : nr ≠ old) (hopen : st.openRooms.Nodup) (hnr : nr ∉ st.openRooms)
    (hholds : st.Holds old) : Transferred st (st₁.transferTo old nr) old nr := by
  obtain ⟨hlast, rfl⟩ := takeSlot_some htake
  let st₁ := ({ st with freeRooms := st.freeRooms.dropLast } : Server).modRoom nr Room.reset
  have hold : st₁.rooms old = st.rooms old := Function.update_of_ne (Ne.symm hne) ..
  have hnew : st₁.rooms nr = (st.rooms nr).reset := Function.update_self ..
  obtain ⟨hrooms, hrooms'⟩ := transferTo_rooms hne st₁
  rw [hold, hnew] at hrooms
  rw [hold] at hrooms'
  obtain ⟨hsess, hfree, hopened⟩ := @finishTransfer_lists old nr (st₁.handOver old nr)
    (moveMembers old nr (List.finRange 4)
      ((st₁.assign nr (st₁.rooms old).gameWorker).closeOld old) 0).2
    ((st₁.assign nr (st₁.rooms old).gameWorker).rooms old).pendingLeave
  have hover : Rehomed nr st₁ (st₁.handOver old nr) := handOver_rehomed st₁
  have hres : ((st₁.handOver old nr).rooms nr).reservedSeats =
      ((st₁.transferTo old nr).rooms nr).reservedSeats :=
    (congrArg Room.reservedSeats (finishTransfer_rooms hne (st₁.handOver old nr) _ _).1).symm
  have hlisted : (st₁.transferTo old nr).openRooms =
      if ((st₁.transferTo old nr).rooms nr).reservedSeats < 4 then
        swapRemove st.openRooms old ++ [nr]
      else swapRemove st.openRooms old := by
    refine hopened.trans ?_
    rw [hres, hover.opened]
    rfl
  have hunlisted (r : Nat) (hr : r ∈ swapRemove st.openRooms old) : r ∈ st.openRooms ∧ r ≠ old :=
    (mem_swapRemove hopen).mp hr
  constructor
  · rw [hrooms]
    exact Room.succeed_tookOver _ _
  · intro i hu
    have hmember := @handOver_member old nr hne st₁ i
    rw [hold] at hmember
    have htold := hmember hu (hholds.members i hu)
    exact (congrArg (fun f : Nat → Session => (f _).roomIdx) hsess).trans htold
  · intro e he
    have hjoin := @handOver_join old nr hne st₁ e
    rw [hold] at hjoin
    have htold := hjoin he (hholds.joins e he)
    exact (congrArg (fun f : Nat → Session => (f _).roomIdx) hsess).trans htold
  · intro idx
    exact (congrArg (fun f : Nat → Session => (f idx).refs) hsess).trans (hover.refs idx)
  · rw [hrooms']
    exact Room.vacate_vacated _
  · have hmem : old ∈ (st₁.handOver old nr).freeRooms ++ [old] :=
      List.mem_append_right _ (List.mem_singleton_self old)
    exact hfree ▸ hmem
  · rw [hlisted]
    split
    · intro hmem
      rcases List.mem_append.mp hmem with hmem | hmem
      · exact (hunlisted old hmem).2 rfl
      · exact hne (List.mem_singleton.mp hmem).symm
    · intro hmem
      exact (hunlisted old hmem).2 rfl
  · rw [hlisted]
    split
    · rename_i hlt
      exact ⟨fun _ => hlt, fun _ => List.mem_append_right _ (List.mem_singleton_self nr)⟩
    · rename_i hlt
      constructor
      · intro hmem
        exact absurd (hunlisted nr hmem).1 hnr
      · intro hlt'
        exact absurd hlt' hlt

theorem announce_rehomed (st : Server) (r : Nat) : Rehomed nr st (st.announce r) := by
  have hbooks := books_announce st r
  have hsess (idx : Nat) : ((st.announce r).sess idx).book = (st.sess idx).book :=
    congrFun (congrArg Books.sess hbooks) idx
  have hfree : (st.announce r).freeRooms = st.freeRooms := congrArg Books.freeRooms hbooks
  have hopened : (st.announce r).openRooms = st.openRooms := congrArg Books.openRooms hbooks
  refine ⟨hfree, hopened, fun idx => ?_, fun idx => ?_, fun idx => Or.inl ?_⟩
  · exact congrArg SessBook.gen (hsess idx)
  · exact congrArg SessBook.refs (hsess idx)
  · exact congrArg SessBook.roomIdx (hsess idx)

/-- The announcement changes nothing of it. -/
theorem Transferred.announce {st' : Server} (h : Transferred st st' old nr) :
    Transferred st (st'.announce nr) old nr := by
  have hkept : Rehomed nr st' (st'.announce nr) := announce_rehomed st' nr
  have hrooms := announce_rooms st' nr
  constructor
  · rw [hrooms]
    exact h.room
  · intro i hu
    exact hkept.stays (h.moved i hu)
  · intro e he
    exact hkept.stays (h.carried e he)
  · intro idx
    exact (hkept.refs idx).trans (h.refs idx)
  · rw [hrooms]
    exact h.closed
  · rw [hkept.free]
    exact h.freed
  · rw [hkept.opened]
    exact h.unlisted
  · rw [hkept.opened, hrooms]
    exact h.listed

theorem transferRoom_transferred (hne : nr ≠ old) (hopen : st.openRooms.Nodup)
    (hnr : nr ∉ st.openRooms) (hholds : st.Holds old) (hlast : st.freeRooms.getLast? = some nr) :
    ∃ st', st.transferRoom old = (st', some nr) ∧ Transferred st st' old nr := by
  have htake : st.takeSlot = some (nr,
      ({ st with freeRooms := st.freeRooms.dropLast }).modRoom nr Room.reset) := by
    unfold takeSlot
    rw [hlast]
  have hmoved := transferTo_transferred htake hne hopen hnr hholds
  refine ⟨_, ?_, hmoved.announce⟩
  unfold transferRoom
  rw [htake]

end Whole

end Server

namespace System

variable {s : System}

theorem holds (h : Consistent s.ledger) (r : Nat) : s.srv.Holds r where
  members i hu := by
    have hseated : (s.srv.rooms r).book.seated i =
        some ⟨((s.srv.rooms r).members i).sessIdx, ((s.srv.rooms r).members i).sessGen⟩ :=
      Room.seated_eq_some.mpr ⟨hu, rfl, rfl⟩
    have hmem : (⟨((s.srv.rooms r).members i).sessIdx, ((s.srv.rooms r).members i).sessGen, i⟩ :
        RoomJoinEntry) ∈ (s.srv.rooms r).book.members := Tally.mem_ofTable.mpr ⟨i, _, hseated, rfl⟩
    exact (h.refs.holder r _ (Multiset.mem_add.mpr
      (Or.inl (Multiset.mem_add.mpr (Or.inl hmem))))).gen
  joins e he := by
    have hmem : e ∈ ((s.srv.rooms r).pendingJoin : Multiset RoomJoinEntry) :=
      Multiset.mem_coe.mpr he
    exact (h.refs.holder r e (Multiset.mem_add.mpr
      (Or.inl (Multiset.mem_add.mpr (Or.inr hmem))))).gen

/-- While nobody holds the manager lock, the actor of a member of a live room is there. -/
theorem present_of_used (h : Consistent s.ledger) (hlock : s.lock = .free) {r : Nat}
    (hr : r ∉ s.srv.freeRooms) {i : Seat} (hu : ((s.srv.rooms r).members i).used = true) :
    ((s.srv.rooms r).world.actors (slotOf i)).present = true := by
  have hnone : s.ledger.lock.emptying ≠ some r := by
    have hfree : s.ledger.lock = .free := hlock
    rw [hfree]
    rintro ⟨⟩
  have hpresent : ((s.srv.rooms r).world.actors (slotOf i)).present =
      ((s.srv.rooms r).book.seated i).isSome := h.heads.present r hr hnone i
  rw [hpresent, Room.seated_isSome]
  exact hu

end System

/-- A transfer in any reachable state of the threads. -/
theorem room_transfer {sessionCapacity roomCapacity workerCount : Nat} {s : System}
    (h : Reach System.step Any (System.init sessionCapacity roomCapacity workerCount) s)
    (hlock : s.lock = .free) {r : Nat} (hr : r ∉ s.srv.freeRooms)
    (hexit : ∀ i, ((s.srv.rooms r).members i).used = true →
      EXIT_ZONE_X ≤ ((s.srv.rooms r).world.actors (slotOf i)).x) :
    (s.srv.freeRooms ≠ [] → ∃ st' nr, nr ∈ s.srv.freeRooms ∧
      s.srv.transferRoom r = (st', some nr) ∧ Server.Transferred s.srv st' r nr) ∧
    (s.srv.freeRooms = [] → s.srv.transferRoom r = (s.srv, none)) ∧
    s.srv.exitCheckAndMaybeTransfer r =
      if (s.srv.rooms r).memberCount ≠ 0 then s.srv.transferRoom r else (s.srv, none) := by
  have hc := System.consistent h
  refine ⟨?_, ?_, ?_⟩
  · intro hsome
    have hlast := List.getLast?_eq_some_getLast hsome
    have hmem : s.srv.freeRooms.getLast hsome ∈ s.srv.freeRooms := List.getLast_mem hsome
    have hne : s.srv.freeRooms.getLast hsome ≠ r := ne_of_mem_of_not_mem hmem hr
    have hnr : s.srv.freeRooms.getLast hsome ∉ s.srv.openRooms := by
      intro hopen
      exact (hc.places.open_placed _ hopen).2.1 hmem
    obtain ⟨st', hmove, hmoved⟩ := Server.transferRoom_transferred hne hc.places.open_nodup hnr
      (System.holds hc r) hlast
    exact ⟨st', _, hmem, hmove, hmoved⟩
  · intro hnone
    unfold Server.transferRoom Server.takeSlot
    rw [hnone]
    rfl
  · have hall : ((List.finRange 4).all fun i => !((s.srv.rooms r).members i).used ||
        (((s.srv.rooms r).world.actors (slotOf i)).present &&
          decide (EXIT_ZONE_X ≤ ((s.srv.rooms r).world.actors (slotOf i)).x))) = true := by
      rw [List.all_eq_true]
      intro i _
      cases hu : ((s.srv.rooms r).members i).used with
      | false => rfl
      | true =>
        have hx := hexit i hu
        simp [System.present_of_used hc hlock hr hu, hx]
    unfold Server.exitCheckAndMaybeTransfer Room.exitReady
    rw [hall, Bool.and_true]
    simp only [bne_iff_ne]

/-- A player is about to walk through the exit, and another one waits for its seat. -/
def nearExit : List Op :=
  [.accept 0 5 true true true, .accept 0 6 true true true, .frame 0 0 [6, 0, 10, 0, 1, 0] 0, .joinOk 0,
    .drain 0, .process 0 0, .frame 0 0 [12, 0, 11, 0, 1, 0, 0, 0, 127, 0, 0, 0] 0, .tick 0 0,
    .tick 0 0, .frame 0 1 [6, 0, 10, 0, 1, 0] 0, .joinOk 0]

theorem room_transfer_nearExit : ∃ s t nr st',
    run Serial.step nearExit (Serial.init 4 2 1) = some s ∧
    System.step (.tick 0 0) s.system = some t ∧ t.game 0 = .exit 0 0 ∧
    t.srv.transferRoom 0 = (st', some nr) ∧ Server.Transferred t.srv st' 0 nr := by
  have hrun : ((run Serial.step nearExit (Serial.init 4 2 1)).bind fun s =>
      (System.step (.tick 0 0) s.system).map fun t =>
        (t.lock, t.srv.freeRooms, t.game 0, (List.finRange 4).all fun i =>
          !((t.srv.rooms 0).members i).used ||
            decide (EXIT_ZONE_X ≤ ((t.srv.rooms 0).world.actors (slotOf i)).x))) =
      some (.free, [1], .exit 0 0, true) := by decide +kernel
  obtain ⟨s, hs, hstep⟩ := Option.bind_eq_some_iff.mp hrun
  obtain ⟨t, ht, hproj⟩ := Option.map_eq_some_iff.mp hstep
  simp only [Prod.mk.injEq] at hproj
  obtain ⟨hlock, hfree, hgame, hexit⟩ := hproj
  have hreach : Reach System.step Any (System.init 4 2 1) t :=
    .tail (Serial.reach_system (reach_of_run hs)) trivial ht
  obtain ⟨st', nr, _, hmove, hmoved⟩ := (room_transfer hreach hlock (r := 0) (by simp [hfree])
    fun i hu => by
      have hi := List.all_eq_true.mp hexit i (List.mem_finRange i)
      simpa [hu] using hi).1 (by simp [hfree])
  exact ⟨s, t, nr, st', hs, ht, hgame, hmove, hmoved⟩

end BeltServer
