import BeltServer.Consistent

/-!
# Reservations and the death of a room

From the reservation in `Join` until a game worker seats or skips the entry, the entry is
queued in the room, in the local list of the room's worker, or under way between the two
rooms of a transfer. Rooms with such entries are not freed.
-/

namespace BeltServer

set_option autoImplicit false

open Runs

/-- Entry `e` is queued in room `r`, or in the local list of a worker at room `r`. -/
def Ledger.Waits (L : Ledger) (r : Nat) (e : RoomJoinEntry) : Prop :=
  e ∈ (L.room r).pendingJoin ∨ ∃ g, e ∈ (L.game g).handAt r

def System.Waits (s : System) (r : Nat) (e : RoomJoinEntry) : Prop :=
  e ∈ (s.srv.rooms r).pendingJoin ∨ ∃ g, e ∈ (s.game g).handAt r

/-- Entry `e` is under way to room `nr` in the hand of the holder of the manager lock. -/
def LockPc.Carries (pc : LockPc) (nr : Nat) (e : RoomJoinEntry) : Prop :=
  pc.inHand = some nr ∧ e ∈ pc.flight

/-- Game worker `g` seats or skips the entry: it is no longer in the list of its worker. -/
def Reached (game game' : Nat → GamePc) (r : Nat) (e : RoomJoinEntry) : Prop :=
  ∃ g i js ls, game g = .joins i r (e :: js) ls ∧
    (game' g = .joins i r js ls ∨ game' g = .skip i r e.sessIdx js ls)

theorem pending_other {rooms : Nat → RoomBook} {r r' : Nat} {R : RoomBook} {e : RoomJoinEntry}
    (hr : r' ≠ r) (he : e ∈ (rooms r').pendingJoin) :
    e ∈ (Function.update rooms r R r').pendingJoin := by
  rw [Function.update_of_ne hr]
  exact he

theorem pending_update {rooms : Nat → RoomBook} {r : Nat} {R : RoomBook} {e : RoomJoinEntry}
    (h : e ∈ (rooms r).pendingJoin → e ∈ R.pendingJoin) (r' : Nat)
    (he : e ∈ (rooms r').pendingJoin) : e ∈ (Function.update rooms r R r').pendingJoin := by
  by_cases hr : r' = r
  · subst hr
    rw [Function.update_self]
    exact h he
  · exact pending_other hr he

theorem RoomBook.mem_carryJoin {R : RoomBook} {e e' : RoomJoinEntry} :
    e ∈ (R.carryJoin e').pendingJoin ↔ e ∈ R.pendingJoin ∨ e = e' := by
  unfold carryJoin
  split <;> simp

namespace Ledger

variable {L L' : Ledger} {r : Nat} {e : RoomJoinEntry}

theorem waits_of_room (h : L.Waits r e)
    (hroom : e ∈ (L.room r).pendingJoin → e ∈ (L'.room r).pendingJoin) (hgame : L'.game = L.game) :
    L'.Waits r e := by
  rcases h with hq | hhand
  · exact Or.inl (hroom hq)
  · exact Or.inr (hgame ▸ hhand)

theorem waits_of_turn {g : Nat} {pc : GamePc} (h : L.Waits r e)
    (hroom : e ∈ (L.room r).pendingJoin → e ∈ (L'.room r).pendingJoin)
    (hgame : L'.game = Function.update L.game g pc)
    (hhand : e ∈ (L.game g).handAt r → e ∈ pc.handAt r) : L'.Waits r e := by
  rcases h with hq | ⟨g', he⟩
  · exact Or.inl (hroom hq)
  · refine Or.inr ⟨g', ?_⟩
    rw [hgame]
    by_cases hg : g' = g
    · subst hg
      rw [Function.update_self]
      exact hhand he
    · rw [Function.update_of_ne hg]
      exact he

def Fate (L L' : Ledger) (r : Nat) (e : RoomJoinEntry) : Prop :=
  L'.Waits r e ∨ Reached L.game L'.game r e ∨ ∃ nr, L'.lock.Carries nr e

end Ledger

theorem LockPc.move_of_moving {pc : LockPc} {old nr : Nat} (h : pc.moving = some (old, nr)) :
    ∃ g i rest moved joins leaves, pc = .move g i old nr rest moved joins leaves := by
  cases pc <;> cases h
  exact ⟨_, _, _, _, _, _, rfl⟩

namespace Consistent

variable {L L' : Ledger}

theorem seatUsed_of_token (h : Consistent L) {r : Nat} {e : RoomJoinEntry} (he : e ∈ L.tokens r)
    (hstill : ∀ old nr, L.lock.moving = some (old, nr) → r ≠ old ∧ r ≠ nr) :
    (L.room r).seatUsed e.actorId = true := by
  have hcount := h.seats.seats r hstill e.actorId
  have hpos := seatCount_pos he
  have hbool := Bool.toNat_le ((L.room r).seatUsed e.actorId)
  simpa using (by omega : ((L.room r).seatUsed e.actorId).toNat = 1)

/-- The rooms between which members move have empty queues. -/
theorem still_of_queued (h : Consistent L) {r : Nat} {e : RoomJoinEntry}
    (he : e ∈ (L.room r).pendingJoin) (old nr : Nat) (hm : L.lock.moving = some (old, nr)) :
    r ≠ old ∧ r ≠ nr := by
  obtain ⟨g, i, rest, moved, joins, leaves, hl⟩ := LockPc.move_of_moving hm
  have hok := h.seats.move g i old nr rest moved joins leaves hl
  constructor
  · rintro rfl
    rw [hok.old_pending] at he
    cases he
  · rintro rfl
    rw [hok.new_pending] at he
    cases he

theorem still_of_hand (h : Consistent L) {g i r : Nat} {e : RoomJoinEntry}
    (hat : (L.game g).place = some (i, r)) (he : e ∈ (L.game g).handAt r) (old nr : Nat)
    (hm : L.lock.moving = some (old, nr)) : r ≠ old ∧ r ≠ nr := by
  obtain ⟨g', i', rest, moved, joins, leaves, hl⟩ := LockPc.move_of_moving hm
  refine h.places.not_transfer (k := g') (j := i') hat ?_ (by rw [hl]; rfl)
  intro i'' r' hg
  rw [hg] at he
  cases he

theorem place_of_hand {pc : GamePc} {r : Nat} {e : RoomJoinEntry} (h : e ∈ pc.handAt r) :
    ∃ i, pc.place = some (i, r) := by
  cases hp : pc.place with
  | none =>
    rw [GamePc.handAt_of_none hp] at h
    cases h
  | some p =>
    obtain ⟨i, r'⟩ := p
    by_cases hr : r = r'
    · exact ⟨i, by rw [hr]⟩
    · rw [GamePc.handAt_of_ne hp hr] at h
      cases h

theorem of_waits (h : Consistent L) {r : Nat} {e : RoomJoinEntry} (he : L.Waits r e) :
    r ∉ L.freeRooms ∧ (L.room r).seatUsed e.actorId = true := by
  have hseat : (L.room r).seatUsed e.actorId = true := by
    rcases he with hq | ⟨g, hmem⟩
    · refine h.seatUsed_of_token ?_ (h.still_of_queued hq)
      exact Multiset.mem_add.mpr (Or.inl (Multiset.mem_add.mpr (Or.inr hq)))
    · obtain ⟨i, hat⟩ := place_of_hand hmem
      refine h.seatUsed_of_token (Multiset.mem_add.mpr (Or.inr ?_)) (h.still_of_hand hat hmem)
      rw [Ledger.hand, h.places.owner_of_place hat]
      exact hmem
  refine ⟨fun hfree => ?_, hseat⟩
  rw [h.seats.free r hfree] at hseat
  cases hseat

theorem of_free (h : Consistent L) {r : Nat} (hr : r ∈ L.freeRooms) :
    (L.room r).reservedSeats = 0 ∧ (L.room r).pendingJoin = [] := by
  have hfree := h.seats.free r hr
  constructor
  · rw [(h.seats.book r).reserved]
    simp [hfree]
  · by_contra hne
    obtain ⟨e, he⟩ := List.exists_mem_of_ne_nil _ hne
    exact (h.of_waits (Or.inl he)).1 hr

theorem freeRooms_nodup (h : Consistent L) : L.freeRooms.Nodup := by
  refine List.nodup_iff_count_le_one.mpr fun r => ?_
  have := h.places.placed_le r
  omega

theorem of_freed (h : Consistent L) {a : Actor} (ht : L.Trans a L') {r : Nat} (hr : r ∉ L.freeRooms)
    (hr' : r ∈ L'.freeRooms) :
    (L.room r).reservedSeats = 0 ∧ (L.room r).pendingJoin = [] := by
  have hfree := (h.step ht).of_free hr'
  cases ht with
  | finish g i old nr moved leaves hlock =>
    have hold : r = old := by simpa [hr, Ledger.setGame] using hr'
    subst hold
    obtain ⟨hne, -⟩ := Seats.transfer_hands h.places (g := g) (i := i) (o := r) (n := nr)
      (by rw [hlock]; rfl) (by rw [hlock]; rfl)
    have hsame : Function.update L.room nr ((L.room nr).finish moved leaves) r = L.room r :=
      Function.update_of_ne hne ..
    simpa [Ledger.setGame, Ledger.modRoom, Books.modRoom, hsame] using hfree
  | freeRoom g i r' hg hlock => exact hfree
  | scanAlloc w idx r' g hlock hnr => exact absurd (List.mem_of_mem_dropLast hr') hr
  | transfer g i old nr hg hlock hnr => exact absurd (List.mem_of_mem_dropLast hr') hr
  | _ => exact absurd hr' hr

theorem not_judgedEmpty (h : Consistent L) {r : Nat} (hr : L.lock.fresh = some r) :
    (L.room r).judgedEmpty = false := by
  simp [RoomBook.judgedEmpty, (h.seats.fresh r hr).2]

/-- One transition and an entry that waits. -/
theorem fate (h : Consistent L) {a : Actor} (ht : L.Trans a L') {r : Nat} {e : RoomJoinEntry}
    (he : L.Waits r e) :
    L.Fate L' r e := by
  have hused := (h.of_waits he).1
  cases ht with
  | accept | refuse | toIdle | toInput | toJoin | cut | leaveNone | leaveRead | netRelease | noWorkers
  | scan | scanPop | scanRefuse | mail | store | movePass =>
    exact Or.inl (Ledger.waits_of_room he id rfl)
  | leavePush | scanTake | first =>
    exact Or.inl (Ledger.waits_of_room he (pending_update (by exact id) r) rfl)
  | scanAlloc w idx r' g hlock hnr =>
    refine Or.inl (Ledger.waits_of_room he (pending_other ?_) rfl)
    rintro rfl
    exact hused (List.mem_of_getLast? hnr)
  | push w idx r' i hlock =>
    exact Or.inl (Ledger.waits_of_room he (pending_update (List.mem_append_left _) r) rfl)
  | close g i old nr hlock =>
    by_cases hr : r = old
    · subst hr
      rcases he with hq | hhand
      · exact Or.inr (Or.inr ⟨nr, rfl, hq⟩)
      · exact Or.inl (Or.inr hhand)
    · exact Or.inl (Ledger.waits_of_room he (pending_other hr) rfl)
  | moveSeat | moveEnd =>
    exact Or.inl (Ledger.waits_of_room he (fun hq => pending_update (by exact id) r
      (pending_update (by exact id) r hq)) rfl)
  | carry g i old nr moved e' joins leaves hlock =>
    exact Or.inl (Ledger.waits_of_room he
      (pending_update (fun hq => RoomBook.mem_carryJoin.mpr (Or.inl hq)) r) rfl)
  | finish g i old nr moved leaves hlock =>
    obtain ⟨hg, -⟩ := h.places.transfer g i old nr (by rw [hlock]; rfl)
    exact Or.inl (Ledger.waits_of_turn he (pending_update (by exact id) r) rfl (by rw [hg]; exact id))
  | drain g hg => exact Or.inl (Ledger.waits_of_room he id rfl)
  | take g i r' hg hr =>
    by_cases hrr : r = r'
    · subst hrr
      rcases he with hq | ⟨g', hhand⟩
      · refine Or.inl (Or.inr ⟨g, ?_⟩)
        simpa [Ledger.setGame, GamePc.handAt] using hq
      · refine Or.inl (Or.inr ⟨g', ?_⟩)
        have hgg : g' ≠ g := by
          rintro rfl
          rw [hg] at hhand
          cases hhand
        show e ∈ (Function.update L.game g _ g').handAt r
        rw [Function.update_of_ne hgg]
        exact hhand
    · exact Or.inl (Ledger.waits_of_turn he (pending_other hrr) rfl (by rw [hg]; rintro ⟨⟩))
  | skip g i r' e' js ls hg hstale =>
    by_cases hfirst : r = r' ∧ e = e'
    · obtain ⟨rfl, rfl⟩ := hfirst
      exact Or.inr (Or.inl ⟨g, i, js, ls, hg, Or.inr (Function.update_self ..)⟩)
    · refine Or.inl (Ledger.waits_of_turn he (pending_update (by exact id) r) rfl ?_)
      rw [hg]
      simp only [GamePc.handAt]
      split
      · rename_i hr
        intro hmem
        exact (List.mem_cons.mp hmem).resolve_left fun heq => hfirst ⟨hr.symm, heq⟩
      · exact id
  | seat g i r' e' js ls hg hstale =>
    by_cases hfirst : r = r' ∧ e = e'
    · obtain ⟨rfl, rfl⟩ := hfirst
      exact Or.inr (Or.inl ⟨g, i, js, ls, hg, Or.inl (Function.update_self ..)⟩)
    · refine Or.inl (Ledger.waits_of_turn he (pending_update (by exact id) r) rfl ?_)
      rw [hg]
      simp only [GamePc.handAt]
      split
      · rename_i hr
        intro hmem
        exact (List.mem_cons.mp hmem).resolve_left fun heq => hfirst ⟨hr.symm, heq⟩
      · exact id
  | joinsEnd g i r' ls hg =>
    refine Or.inl (Ledger.waits_of_turn he id rfl ?_)
    rw [hg]
    simp [GamePc.handAt]
  | skipRelease g i r' idx js ls hg =>
    exact Or.inl (Ledger.waits_of_turn he id rfl (by rw [hg]; exact id))
  | unseat g i r' seat e' ls hg hseat =>
    exact Or.inl (Ledger.waits_of_turn he (pending_update (by exact id) r) rfl (by rw [hg]; rintro ⟨⟩))
  | die g i r' hg hempty =>
    exact Or.inl (Ledger.waits_of_turn he (pending_update (by exact id) r) rfl (by rw [hg]; rintro ⟨⟩))
  | noLeaver _ _ _ _ _ hg | dropRelease _ _ _ _ _ hg | live _ _ _ hg | freeRoom _ _ _ hg
  | exit _ _ _ hg | stay _ _ _ hg | announced _ _ hg =>
    exact Or.inl (Ledger.waits_of_turn he id rfl (by rw [hg]; rintro ⟨⟩))
  | transfer g i old nr hg hlock hnr =>
    refine Or.inl (Ledger.waits_of_turn he (pending_other ?_) rfl (by rw [hg]; rintro ⟨⟩))
    rintro rfl
    exact hused (List.mem_of_getLast? hnr)

/-- One transition and an entry on its way to a new room. -/
theorem carried {a : Actor} (ht : L.Trans a L') {nr : Nat} {e : RoomJoinEntry}
    (he : L.lock.Carries nr e) : L'.lock.Carries nr e ∨ L'.Waits nr e := by
  have hnone {pc : LockPc} (hlock : L.lock = pc) (hpc : pc.inHand = none ∨ pc.flight = 0) : False := by
    rw [hlock] at he
    rcases hpc with hpc | hpc
    · rw [LockPc.Carries, hpc] at he
      cases he.1
    · rw [LockPc.Carries, hpc] at he
      cases he.2
  cases ht with
  | scan _ _ _ hlock | scanTake _ _ _ _ hlock | scanRefuse _ _ hlock | scanAlloc _ _ _ _ hlock
  | first _ _ _ hlock | push _ _ _ _ hlock | store _ _ _ _ hlock | transfer _ _ _ _ _ hlock =>
    exact absurd trivial fun _ => hnone hlock (Or.inl rfl)
  | mail _ _ _ hlock | close _ _ _ _ hlock | finish _ _ _ _ _ _ hlock =>
    exact absurd trivial fun _ => hnone hlock (Or.inr rfl)
  | movePass _ _ _ _ _ _ _ _ _ hlock | moveSeat _ _ _ _ _ _ _ _ _ _ hlock
  | moveEnd _ _ _ _ _ _ _ hlock =>
    rw [hlock] at he
    exact Or.inl he
  | carry g i old nr' moved e' joins leaves hlock =>
    rw [hlock] at he
    obtain ⟨hin, hmem⟩ := he
    cases hin
    by_cases heq : e = e'
    · refine Or.inr (Or.inl ?_)
      show e ∈ (Function.update L.room nr ((L.room nr).carryJoin e') nr).pendingJoin
      rw [Function.update_self]
      exact RoomBook.mem_carryJoin.mpr (Or.inr heq)
    · exact Or.inl ⟨rfl, (Multiset.mem_cons.mp hmem).resolve_left heq⟩
  | _ => exact Or.inl he

/-- One transition and a promised seat. -/
theorem promised {a : Actor} (ht : L.Trans a L') {w idx r : Nat} {i : Seat}
    (hlock : L.lock = .push w idx r i) :
    L'.lock = L.lock ∨ L'.Waits r ⟨idx, (L.sess idx).gen, i⟩ := by
  cases ht with
  | push w' idx' r' i' hl =>
    rw [hlock] at hl
    cases hl
    refine Or.inr (Or.inl ?_)
    show _ ∈ (Function.update L.room r ((L.room r).pushJoin _) r).pendingJoin
    rw [Function.update_self]
    exact List.mem_append_right _ (List.mem_singleton.mpr rfl)
  | scan _ _ _ hl | scanTake _ _ _ _ hl | scanRefuse _ _ hl | scanAlloc _ _ _ _ hl | mail _ _ _ hl
  | first _ _ _ hl | store _ _ _ _ hl | close _ _ _ _ hl | movePass _ _ _ _ _ _ _ _ _ hl
  | moveSeat _ _ _ _ _ _ _ _ _ _ hl | moveEnd _ _ _ _ _ _ _ hl | carry _ _ _ _ _ _ _ _ hl
  | finish _ _ _ _ _ _ hl | transfer _ _ _ _ _ hl =>
    rw [hlock] at hl
    cases hl
  | _ => exact Or.inl rfl

end Consistent

/-- No reservation belongs to a free slot, and no slot with a reservation is free. -/
structure ReservationsHeld (s : System) : Prop where
  waiting : ∀ r e, s.Waits r e →
    r ∉ s.srv.freeRooms ∧ (s.srv.rooms r).seatUsed e.actorId = true
  promised : ∀ w idx r i, s.lock = .push w idx r i →
    r ∉ s.srv.freeRooms ∧ (s.srv.rooms r).seatUsed i = true
  carried : ∀ nr e, s.lock.Carries nr e → nr ∉ s.srv.freeRooms
  once : s.srv.freeRooms.Nodup
  free : ∀ r ∈ s.srv.freeRooms, (s.srv.rooms r).reservedSeats = 0 ∧ (s.srv.rooms r).pendingJoin = []
  fresh : ∀ w idx r, s.lock = .mail w idx r ∨ s.lock = .first w idx r →
    (s.srv.rooms r).judgedEmpty = false

/-- A step loses no reservation and frees no slot that has one. -/
structure ReservationsKept (s s' : System) : Prop where
  waiting : ∀ r e, s.Waits r e →
    s'.Waits r e ∨ Reached s.game s'.game r e ∨ ∃ nr, s'.lock.Carries nr e
  promised : ∀ w idx r i, s.lock = .push w idx r i →
    s'.lock = s.lock ∨ s'.Waits r ⟨idx, (s.srv.sess idx).gen, i⟩
  carried : ∀ nr e, s.lock.Carries nr e → s'.lock.Carries nr e ∨ s'.Waits nr e
  freed : ∀ r ∈ s'.srv.freeRooms, r ∉ s.srv.freeRooms →
    (s.srv.rooms r).reservedSeats = 0 ∧ (s.srv.rooms r).pendingJoin = []

theorem Consistent.reservationsHeld {s : System} (h : Consistent s.ledger) : ReservationsHeld s where
  waiting r e he := h.of_waits he
  promised w idx r i hlock := h.seats.not_free_of_push hlock
  carried nr e he := h.places.not_free_of_inHand he.1
  once := h.freeRooms_nodup
  free r hr := h.of_free hr
  fresh w idx r hlock := h.not_judgedEmpty (by
    rcases hlock with hl | hl <;> exact congrArg LockPc.fresh hl)

theorem Consistent.reservationsKept {s s' : System} (h : Consistent s.ledger)
    {a : Actor}
    (ht : s'.ledger = s.ledger ∨ s.ledger.Trans a s'.ledger) : ReservationsKept s s' := by
  rcases ht with hsame | htrans
  · have hlock : s'.lock = s.lock := congrArg Ledger.lock hsame
    have hgame : s'.ledger.game = s.ledger.game := congrArg Ledger.game hsame
    have hroom : s'.ledger.room = s.ledger.room := congrArg (·.room) hsame
    refine
      { waiting := fun r e he => Or.inl ?_
        promised := fun w idx r i _ => Or.inl hlock
        carried := fun nr e he => Or.inl (hlock ▸ he)
        freed := fun r hr' hr => ?_ }
    · have hwaits : s.ledger.Waits r e := he
      exact Ledger.waits_of_room hwaits (hroom ▸ id) hgame
    · exact absurd (congrArg (·.freeRooms) hsame ▸ hr' : r ∈ s.ledger.freeRooms) hr
  · exact
      { waiting := fun r e he => h.fate htrans he
        promised := fun w idx r i hlock => Consistent.promised htrans hlock
        carried := fun nr e he => Consistent.carried htrans he
        freed := fun r hr' hr => h.of_freed htrans hr hr' }

/-- No reservation is lost to the death of a room. -/
theorem reservation_kept {sessionCapacity roomCapacity workerCount : Nat} {s : System}
    (h : Reach System.step Any (System.init sessionCapacity roomCapacity workerCount) s) :
    ReservationsHeld s ∧ ∀ a s', System.step a s = some s' → ReservationsKept s s' := by
  have hs := System.consistent h
  exact ⟨hs.reservationsHeld, fun a s' ht => hs.reservationsKept (s.trans_of_step ht)⟩

/-- A join up to the push of its entry into the new room. -/
def joining : List Act :=
  [.accept 0 5 true true true, .frame 0 0 [6, 0, 10, 0, 1, 0] 0, .net 0, .lock, .lock, .lock, .lock]

theorem reservation_kept_joining : ∃ s, run System.step joining (System.init 1 1 1) = some s ∧
    s.lock = .store 0 0 0 firstSeat ∧ ReservationsHeld s ∧
      ∀ a s', System.step a s = some s' → ReservationsKept s s' := by
  have hrun : ((run System.step joining (System.init 1 1 1)).map (·.lock)) =
      some (.store 0 0 0 firstSeat) := by decide +kernel
  obtain ⟨s, hs, hlock⟩ := Option.map_eq_some_iff.mp hrun
  exact ⟨s, hs, hlock, reservation_kept (reach_of_run hs)⟩

end BeltServer
