import BeltServer.SeatSteps

/-!
# Members and actors

`memberCount` counts the used members, and a player's actor is present exactly while its
member is used. Between the loops of a transfer the two counters are behind, and the actors
of the old room stay where they were; its slot is free afterwards.
-/

namespace BeltServer

set_option autoImplicit false

open SwapList

def RoomBook.heads (R : RoomBook) : Nat := ∑ i, (R.seated i).isSome.toNat

/-- The counter of this room is set at the end of the transfer. -/
def LockPc.uncounted (pc : LockPc) (r : Nat) : Bool :=
  match pc with
  | .move _ _ old nr _ _ _ _ => r == old || r == nr
  | .carry _ _ _ nr _ _ _ => r == nr
  | _ => false

def LockPc.emptying : LockPc → Option Nat
  | .move _ _ old _ _ _ _ _ | .carry _ _ old _ _ _ _ => some old
  | _ => none

/-- The room that members are entering, with their number so far. -/
def LockPc.entered : LockPc → Option (Nat × Int)
  | .move _ _ _ nr _ moved _ _ | .carry _ _ _ nr moved _ _ => some (nr, moved)
  | _ => none

structure Headcount (L : Ledger) : Prop where
  count : ∀ r, L.lock.uncounted r = false → (L.room r).memberCount = ((L.room r).heads : Int)
  present : ∀ r, r ∉ L.freeRooms → L.lock.emptying ≠ some r →
    ∀ i, (L.room r).present i = ((L.room r).seated i).isSome
  entered : ∀ nr moved, L.lock.entered = some (nr, moved) → moved = ((L.room nr).heads : Int)

namespace RoomBook

theorem heads_update {R Q : RoomBook} {i : Seat} {o : Option RoomLeaveEntry}
    (h : Q.seated = Function.update R.seated i o) :
    Q.heads + (R.seated i).isSome.toNat = R.heads + o.isSome.toNat := by
  have hsum := Tally.sum_change (s := Finset.univ) (a := i)
    (f := fun j => (R.seated j).isSome.toNat) (g := fun j => (Q.seated j).isSome.toNat)
    (Finset.mem_univ i) fun j hj => by rw [h, Function.update_of_ne hj]
  simpa [heads, h] using hsum

theorem present_update {R R' : RoomBook} {i : Seat} {o : Option RoomLeaveEntry}
    (h : ∀ j, R.present j = (R.seated j).isSome)
    (hseated : R'.seated = Function.update R.seated i o)
    (hpresent : R'.present = Function.update R.present i o.isSome) (j : Seat) :
    R'.present j = (R'.seated j).isSome := by
  rw [hseated, hpresent]
  by_cases hj : j = i
  · subst hj
    simp
  · rw [Function.update_of_ne hj, Function.update_of_ne hj]
    exact h j

end RoomBook

namespace Headcount

variable {L L' : Ledger}

structure SameHeads (R R' : RoomBook) : Prop where
  seated : R'.seated = R.seated := by rfl
  count : R'.memberCount = R.memberCount := by rfl
  present : R'.present = R.present := by rfl

theorem SameHeads.heads {R R' : RoomBook} (h : SameHeads R R') : R'.heads = R.heads := by
  simp only [RoomBook.heads, h.seated]

theorem sameHeads_update {m : Nat → RoomBook} {r : Nat} {R : RoomBook}
    (h : SameHeads (m r) R) (r' : Nat) : SameHeads (m r') (Function.update m r R r') := by
  by_cases hr : r' = r
  · subst hr
    rw [Function.update_self]
    exact h
  · rw [Function.update_of_ne hr]
    exact {}

theorem of_same (h : Headcount L) (hroom : ∀ r, SameHeads (L.room r) (L'.room r))
    (hfree : ∀ r, r ∉ L'.freeRooms → r ∉ L.freeRooms)
    (huncounted : ∀ r, L'.lock.uncounted r = L.lock.uncounted r)
    (hemptying : L'.lock.emptying = L.lock.emptying) (hentered : L'.lock.entered = L.lock.entered) :
    Headcount L' where
  count r hr := by
    rw [(hroom r).count, (hroom r).heads]
    exact h.count r (huncounted r ▸ hr)
  present r hr hr' i := by
    rw [(hroom r).present, (hroom r).seated]
    exact h.present r (hfree r hr) (hemptying ▸ hr') i
  entered nr moved hm := by
    rw [(hroom nr).heads]
    exact h.entered nr moved (hentered ▸ hm)

theorem of_quiet (h : Headcount L) (hroom : ∀ r, SameHeads (L.room r) (L'.room r))
    (hfree : L'.freeRooms = L.freeRooms) (hlock : L'.lock = L.lock) : Headcount L' :=
  h.of_same hroom (fun _ hr => hfree ▸ hr) (fun _ => by rw [hlock]) (by rw [hlock]) (by rw [hlock])

theorem of_join (h : Headcount L) {pc : LockPc} (hlock : L.lock = pc)
    (hroom : ∀ r, SameHeads (L.room r) (L'.room r)) (hfree : L'.freeRooms = L.freeRooms)
    (huncounted : ∀ r, L'.lock.uncounted r = pc.uncounted r)
    (hemptying : L'.lock.emptying = pc.emptying) (hentered : L'.lock.entered = pc.entered) :
    Headcount L' := by
  subst hlock
  exact h.of_same hroom (fun _ hr => hfree ▸ hr) huncounted hemptying hentered

theorem of_alloc (h : Headcount L) {r g : Nat} {pc : LockPc}
    (hfree : ∀ r', r' ≠ r → r' ∉ L'.freeRooms → r' ∉ L.freeRooms)
    (hroom : L'.room = Function.update L.room r ((L.room r).fresh g)) (hlock : L.lock = pc)
    (huncounted : ∀ r, L'.lock.uncounted r = pc.uncounted r)
    (hemptying : L'.lock.emptying = pc.emptying) (hentered : L'.lock.entered = none) :
    Headcount L' := by
  subst hlock
  have hself := Seats.room_self hroom
  refine ⟨?_, ?_, by rw [hentered]; rintro _ _ ⟨⟩⟩
  · intro r' hr'
    by_cases hr : r' = r
    · subst hr
      rw [hself]
      simp [RoomBook.fresh, RoomBook.heads]
    · rw [Seats.room_other hroom hr]
      exact h.count r' (huncounted r' ▸ hr')
  · intro r' hr' he i
    by_cases hr : r' = r
    · subst hr
      rw [hself]
      rfl
    · rw [Seats.room_other hroom hr]
      exact h.present r' (hfree r' hr hr') (hemptying ▸ he) i

theorem of_worker (h : Headcount L) {r : Nat} {R : RoomBook} {i : Seat} {o : Option RoomLeaveEntry}
    (hfree : L'.freeRooms = L.freeRooms) (hlock : L'.lock = L.lock)
    (hstill : ∀ g i old nr, L.lock.transfer = some (g, i, old, nr) → r ≠ old ∧ r ≠ nr)
    (hr : r ∉ L.freeRooms) (hroom : L'.room = Function.update L.room r R)
    (hseated : R.seated = Function.update (L.room r).seated i o)
    (hpresent : R.present = Function.update (L.room r).present i o.isSome)
    (hcount : R.memberCount + (((L.room r).seated i).isSome.toNat : Int) =
      (L.room r).memberCount + (o.isSome.toNat : Int)) : Headcount L' := by
  have hself := Seats.room_self hroom
  have hunc : L.lock.uncounted r = false := by
    cases hl : L.lock with
    | move g i old nr rest moved joins leaves =>
      obtain ⟨ho, hn⟩ := hstill g i old nr (by rw [hl]; rfl)
      simp [LockPc.uncounted, ho, hn]
    | carry g i old nr moved joins leaves =>
      obtain ⟨-, hn⟩ := hstill g i old nr (by rw [hl]; rfl)
      simp [LockPc.uncounted, hn]
    | _ => rfl
  have hemp : L.lock.emptying ≠ some r := by
    intro he
    cases hl : L.lock <;> rw [hl] at he <;> cases he
    · exact (hstill _ _ r _ (by rw [hl]; rfl)).1 rfl
    · exact (hstill _ _ r _ (by rw [hl]; rfl)).1 rfl
  refine ⟨?_, ?_, ?_⟩
  · intro r' hr'
    rw [hlock] at hr'
    by_cases hrr : r' = r
    · subst hrr
      have hheads := RoomBook.heads_update hseated
      have hc := h.count r' hunc
      rw [hself]
      omega
    · rw [Seats.room_other hroom hrr]
      exact h.count r' hr'
  · intro r' hr' he
    rw [hfree] at hr'
    rw [hlock] at he
    by_cases hrr : r' = r
    · subst hrr
      rw [hself]
      exact RoomBook.present_update (h.present r' hr' he) hseated hpresent
    · rw [Seats.room_other hroom hrr]
      exact h.present r' hr' he
  · intro nr moved hm
    rw [hlock] at hm
    have hne : nr ≠ r := by
      rintro rfl
      cases hl : L.lock <;> rw [hl] at hm <;> cases hm
      · exact (hstill _ _ _ nr (by rw [hl]; rfl)).2 rfl
      · exact (hstill _ _ _ nr (by rw [hl]; rfl)).2 rfl
    rw [Seats.room_other hroom hne]
    exact h.entered nr moved hm

theorem step_close (h : Headcount L) (hS : Seats L) (hP : Places L) {g i old nr : Nat}
    (hlock : L.lock = .close g i old nr) :
    Headcount { L.modRoom old (·.close) with
      lock := .move g i old nr (List.finRange 4) 0 (L.room old).pendingJoin
        (L.room old).pendingLeave } := by
  have hne := (Seats.transfer_hands hP (g := g) (i := i) (o := old) (n := nr)
    (by rw [hlock]; rfl) (by rw [hlock]; rfl)).1
  have hunused := (hS.fresh nr (by rw [hlock]; rfl)).1
  have hmembers := (parts_of_tokens_zero (hS.tokens_eq_zero (by rw [hlock]; rintro _ _ ⟨⟩) hunused)).1
  have hsame := sameHeads_update (m := L.room) (r := old) (R := (L.room old).close) {}
  refine ⟨?_, ?_, ?_⟩
  · intro r hr
    have hc := h.count r (by rw [hlock]; rfl)
    exact ((hsame r).count.trans hc).trans (by rw [← (hsame r).heads]; rfl)
  · intro r hr _ i
    have hp := h.present r hr (by rw [hlock]; rintro ⟨⟩) i
    exact ((congrFun (hsame r).present i).trans hp).trans (by rw [← (hsame r).seated]; rfl)
  · rintro nr' moved ⟨⟩
    have hz : (L.room nr).heads = 0 := Finset.sum_eq_zero fun s _ => by
      rw [← seatCount_members, hmembers, seatCount_zero]
    have hheads := (hsame nr).heads
    rw [hz] at hheads
    exact (congrArg Int.ofNat hheads).symm

theorem step_moveSeat (h : Headcount L) (hS : Seats L) (hP : Places L) {g i old nr : Nat}
    {seat : Seat} {rest : List Seat} {moved : Int} {joins : List RoomJoinEntry}
    {leaves : List RoomLeaveEntry} {e : RoomLeaveEntry}
    (hlock : L.lock = .move g i old nr (seat :: rest) moved joins leaves)
    (hseat : (L.room old).seated seat = some e) (hfree : L'.freeRooms = L.freeRooms)
    (hroom : L'.room = ((L.modRoom nr (·.moveIn seat e)).modRoom old (·.moveOut seat)).room)
    (hlock' : L'.lock = .move g i old nr rest (moved + 1) joins leaves) : Headcount L' := by
  obtain ⟨hne, -, -, -, hfnr⟩ := Seats.transfer_hands hP (g := g) (i := i) (o := old)
    (n := nr) (by rw [hlock]; rfl) (by rw [hlock]; rfl)
  have hnr : L'.room nr = (L.room nr).moveIn seat e := Seats.room_two_new hne hroom
  have hempty := (hS.move g i old nr _ moved joins leaves hlock).new_seat hseat
  refine ⟨?_, ?_, ?_⟩
  · intro r hr
    rw [hlock'] at hr
    have hr' : r ≠ old ∧ r ≠ nr := by simpa [LockPc.uncounted] using hr
    rw [Seats.room_two_other hroom hr'.1 hr'.2]
    exact h.count r (by rw [hlock]; exact hr)
  · intro r hr he
    rw [hfree] at hr
    rw [hlock'] at he
    have hro : r ≠ old := fun heq => he (by rw [heq]; rfl)
    by_cases hrn : r = nr
    · subst hrn
      rw [hnr]
      exact RoomBook.present_update (h.present r hr (by rw [hlock]; exact he)) (o := some e) rfl rfl
    · rw [Seats.room_two_other hroom hro hrn]
      exact h.present r hr (by rw [hlock]; exact he)
  · intro nr' moved' hm
    rw [hlock'] at hm
    cases hm
    have hc := h.entered nr moved (by rw [hlock]; rfl)
    have hheads := RoomBook.heads_update (R := L.room nr) (Q := (L.room nr).moveIn seat e)
      (i := seat) (o := some e) rfl
    simp only [hempty, Option.isSome_none, Bool.toNat_false, Option.isSome_some,
      Bool.toNat_true] at hheads
    rw [hnr]
    omega

theorem step_moveEnd (h : Headcount L) (hS : Seats L) (hP : Places L) {g i old nr : Nat}
    {moved : Int} {joins : List RoomJoinEntry} {leaves : List RoomLeaveEntry}
    (hlock : L.lock = .move g i old nr [] moved joins leaves) (hfree : L'.freeRooms = L.freeRooms)
    (hroom : L'.room = ((L.modRoom nr (·.openMoved)).modRoom old (·.empty)).room)
    (hlock' : L'.lock = .carry g i old nr moved joins leaves) : Headcount L' := by
  obtain ⟨hne, -, -, -, hfnr⟩ := Seats.transfer_hands hP (g := g) (i := i) (o := old)
    (n := nr) (by rw [hlock]; rfl) (by rw [hlock]; rfl)
  have hold : L'.room old = (L.room old).empty := Seats.room_two_old hne hroom
  have hnr : L'.room nr = (L.room nr).openMoved := Seats.room_two_new hne hroom
  have hgone := (hS.move g i old nr _ moved joins leaves hlock).gone
  refine ⟨?_, ?_, ?_⟩
  · intro r hr
    rw [hlock'] at hr
    have hrn : r ≠ nr := by simpa [LockPc.uncounted] using hr
    by_cases hro : r = old
    · subst hro
      rw [hold]
      have hz : (L.room r).empty.heads = 0 :=
        Finset.sum_eq_zero fun s _ => by
          show ((L.room r).seated s).isSome.toNat = 0
          rw [hgone s (by simp)]
          rfl
      rw [hz]
      rfl
    · rw [Seats.room_two_other hroom hro hrn]
      exact h.count r (by rw [hlock]; simp [LockPc.uncounted, hro, hrn])
  · intro r hr he
    rw [hfree] at hr
    rw [hlock'] at he
    have hro : r ≠ old := fun heq => he (by rw [heq]; rfl)
    have hp := h.present r hr (by rw [hlock]; exact he)
    by_cases hrn : r = nr
    · subst hrn
      rw [hnr]
      exact hp
    · rw [Seats.room_two_other hroom hro hrn]
      exact hp
  · intro nr' moved' hm
    rw [hlock'] at hm
    cases hm
    rw [hnr]
    exact h.entered nr moved (by rw [hlock]; rfl)

theorem step_finish (h : Headcount L) {g i old nr : Nat} {moved : Int}
    {leaves : List RoomLeaveEntry} (hlock : L.lock = .carry g i old nr moved [] leaves)
    (hfree : L'.freeRooms = L.freeRooms ++ [old])
    (hroom : L'.room = Function.update L.room nr ((L.room nr).finish moved leaves))
    (hlock' : L'.lock = .free) : Headcount L' := by
  have hself := Seats.room_self hroom
  refine ⟨?_, ?_, by rw [hlock']; rintro _ _ ⟨⟩⟩
  · intro r _
    by_cases hr : r = nr
    · subst hr
      rw [hself]
      exact h.entered r moved (by rw [hlock]; rfl)
    · rw [Seats.room_other hroom hr]
      exact h.count r (by rw [hlock]; simpa [LockPc.uncounted] using hr)
  · intro r hr _ s
    rw [hfree] at hr
    have hro : r ≠ old := by
      rintro rfl
      exact hr (by simp)
    have hp := h.present r (fun hm => hr (List.mem_append_left _ hm))
      (by rw [hlock]; simpa [LockPc.emptying] using hro.symm) s
    by_cases hrn : r = nr
    · subst hrn
      rw [hself]
      exact hp
    · rw [Seats.room_other hroom hrn]
      exact hp

theorem worker_room (hP : Places L) {g i r : Nat} {pc : GamePc} (hg : L.game g = pc)
    (hat : pc.place = some (i, r)) (hpc : ∀ i r, pc ≠ .moving i r) :
    r ∉ L.freeRooms ∧
      ∀ g i old nr, L.lock.transfer = some (g, i, old, nr) → r ≠ old ∧ r ≠ nr := by
  subst hg
  exact ⟨hP.not_free_of_mine (hP.mem_of_place hat),
    fun _ _ _ _ ht => hP.not_transfer hat hpc ht⟩

/-- One step keeps members, actors and counters in agreement. -/
theorem step (h : Headcount L) (hS : Seats L) (hP : Places L) {a : Actor} (ht : L.Trans a L') :
    Headcount L' := by
  cases ht with
  | accept w idx hw hidx => exact h.of_quiet (fun _ => {}) rfl rfl
  | refuse w idx hidx => exact h.of_quiet (fun _ => {}) rfl rfl
  | toIdle w hw => exact h.of_quiet (fun _ => {}) rfl rfl
  | toInput w idx r c hw hmem hdead => exact h.of_quiet (fun _ => {}) rfl rfl
  | toJoin w idx hw hmem hdead hroom => exact h.of_quiet (fun _ => {}) rfl rfl
  | cut w idx hw => exact h.of_quiet (fun _ => {}) rfl rfl
  | leaveNone w idx hw hroom => exact h.of_quiet (fun _ => {}) rfl rfl
  | leaveRead w idx hw hroom hcap => exact h.of_quiet (fun _ => {}) rfl rfl
  | leavePush w idx r hw => exact h.of_quiet (sameHeads_update {}) rfl rfl
  | netRelease w idx hw => exact h.of_quiet (fun _ => {}) rfl rfl
  | noWorkers w idx hw => exact h.of_quiet (fun _ => {}) rfl rfl
  | scan w idx hw hlock => exact h.of_join hlock (fun _ => {}) rfl (fun _ => rfl) rfl rfl
  | scanPop w idx hlock => exact h.of_quiet (fun _ => {}) rfl rfl
  | scanTake w idx r i hlock hr hdead hi =>
    exact h.of_join hlock (sameHeads_update {}) rfl (fun _ => rfl) rfl rfl
  | scanRefuse w idx hlock => exact h.of_join hlock (fun _ => {}) rfl (fun _ => rfl) rfl rfl
  | scanAlloc w idx r g hlock hr =>
    exact h.of_alloc (fun _ => not_mem_of_dropLast hr) rfl hlock (fun _ => rfl) rfl rfl
  | mail w idx r hlock => exact h.of_join hlock (fun _ => {}) rfl (fun _ => rfl) rfl rfl
  | first w idx r hlock => exact h.of_join hlock (sameHeads_update {}) rfl (fun _ => rfl) rfl rfl
  | push w idx r i hlock => exact h.of_join hlock (sameHeads_update {}) rfl (fun _ => rfl) rfl rfl
  | store w idx r i hlock => exact h.of_join hlock (fun _ => {}) rfl (fun _ => rfl) rfl rfl
  | close g i old nr hlock => exact h.step_close hS hP hlock
  | movePass g i old nr seat rest moved joins leaves hlock hseat =>
    exact h.of_join hlock (fun _ => {}) rfl (fun _ => rfl) rfl rfl
  | moveSeat g i old nr seat rest moved joins leaves e hlock hseat =>
    exact h.step_moveSeat hS hP hlock hseat rfl rfl rfl
  | moveEnd g i old nr moved joins leaves hlock => exact h.step_moveEnd hS hP hlock rfl rfl rfl
  | carry g i old nr moved e joins leaves hlock =>
    refine h.of_join hlock (sameHeads_update ?_) rfl (fun _ => rfl) rfl rfl
    show SameHeads _ ((L.room nr).carryJoin e)
    unfold RoomBook.carryJoin
    split <;> exact {}
  | finish g i old nr moved leaves hlock => exact h.step_finish hlock rfl rfl rfl
  | drain g hg => exact h.of_quiet (fun _ => {}) rfl rfl
  | take g i r hg hr => exact h.of_quiet (sameHeads_update {}) rfl rfl
  | skip g i r e js ls hg hstale => exact h.of_quiet (sameHeads_update {}) rfl rfl
  | seat g i r e js ls hg hstale =>
    obtain ⟨hr, hstill⟩ := worker_room hP hg rfl (by rintro _ _ ⟨⟩)
    have hempty := hS.seat_empty hP hg
    refine h.of_worker (o := some ⟨e.sessIdx, e.sessGen⟩) rfl rfl hstill hr rfl rfl rfl ?_
    simp [hempty, RoomBook.seat]
  | joinsEnd g i r ls hg => exact h.of_quiet (fun _ => {}) rfl rfl
  | skipRelease g i r idx js ls hg => exact h.of_quiet (fun _ => {}) rfl rfl
  | unseat g i r seat e ls hg hseat =>
    obtain ⟨hr, hstill⟩ := worker_room hP hg rfl (by rintro _ _ ⟨⟩)
    refine h.of_worker (i := seat) (o := none) rfl rfl hstill hr rfl rfl rfl ?_
    simp [RoomBook.seated_of_findLeaver hseat, RoomBook.unseat]
  | noLeaver g i r e ls hg hseat => exact h.of_quiet (fun _ => {}) rfl rfl
  | dropRelease g i r idx ls hg => exact h.of_quiet (fun _ => {}) rfl rfl
  | die g i r hg hempty => exact h.of_quiet (sameHeads_update {}) rfl rfl
  | live g i r hg => exact h.of_quiet (fun _ => {}) rfl rfl
  | freeRoom g i r hg hlock =>
    exact h.of_same (fun _ => {}) (fun _ hr hm => hr (List.mem_append_left _ hm)) (fun _ => rfl) rfl
      rfl
  | exit g i r hg hr => exact h.of_quiet (fun _ => {}) rfl rfl
  | stay g i r hg => exact h.of_quiet (fun _ => {}) rfl rfl
  | transfer g i old nr hg hlock hnr =>
    exact h.of_alloc (fun _ => not_mem_of_dropLast hnr) rfl hlock (fun _ => rfl) rfl rfl
  | announced g nr hg => exact h.of_quiet (fun _ => {}) rfl rfl

end Headcount

end BeltServer
