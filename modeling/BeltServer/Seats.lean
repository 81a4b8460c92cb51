import BeltServer.Places
import BeltServer.Lib.Tally

/-!
# Who holds a seat

A seat is held by a member, by a pending join entry, or by an entry that the room's worker
has taken out and not reached yet. Whatever is in progress, a used seat has one holder or
is promised to the `Join` that is about to push its entry, and the flags and counters of
the room agree with that.
-/

namespace BeltServer

set_option autoImplicit false

/-- The join entries of room `r` in the worker's local list. -/
def GamePc.handAt (pc : GamePc) (r : Nat) : Multiset RoomJoinEntry :=
  match pc with
  | .joins _ r' js _ | .skip _ r' _ js _ => if r' = r then js else 0
  | _ => 0

def RoomBook.members (R : RoomBook) : Multiset RoomJoinEntry :=
  Tally.ofTable (fun i e => ⟨e.sessIdx, e.sessGen, i⟩) R.seated

namespace Ledger

def hand (L : Ledger) (r : Nat) : Multiset RoomJoinEntry := (L.game (L.room r).owner).handAt r

def tokens (L : Ledger) (r : Nat) : Multiset RoomJoinEntry :=
  (L.room r).members + (L.room r).pendingJoin + L.hand r

end Ledger

def seatCount (m : Multiset RoomJoinEntry) (i : Seat) : Nat := m.countP fun e => e.actorId = i

/-- The seat reserved for an entry that is not pushed yet. -/
def LockPc.promised (pc : LockPc) (r : Nat) (i : Seat) : Nat :=
  match pc with
  | .push _ _ r' i' => if r' = r ∧ i' = i then 1 else 0
  | _ => 0

/-- A room that was allocated and has seen no reservation. -/
def LockPc.fresh : LockPc → Option Nat
  | .mail _ _ r | .first _ _ r | .close _ _ _ r => some r
  | _ => none

def LockPc.moving : LockPc → Option (Nat × Nat)
  | .move _ _ old nr _ _ _ _ => some (old, nr)
  | _ => none

structure BookOk (R : RoomBook) : Prop where
  reserved : R.reservedSeats = ((∑ i, (R.seatUsed i).toNat : Nat) : Int)
  alive : ∀ i, R.seatUsed i = true → R.everReserved = true ∧ R.dead = false

/-- The members and the entries in flight between the loops of a transfer. -/
structure MoveOk (L : Ledger) (old nr : Nat) (rest : List Seat) (joins : List RoomJoinEntry) :
    Prop where
  old_free : ∀ s, (L.room old).seatUsed s = false
  new_free : ∀ s, (L.room nr).seatUsed s = false
  once : ∀ s, seatCount (L.room old).members s + seatCount (L.room nr).members s +
    seatCount joins s ≤ 1
  gone : ∀ s, s ∉ rest → (L.room old).seated s = none
  old_pending : (L.room old).pendingJoin = []
  new_pending : (L.room nr).pendingJoin = []

structure Seats (L : Ledger) : Prop where
  book : ∀ r, BookOk (L.room r)
  seats : ∀ r, (∀ old nr, L.lock.moving = some (old, nr) → r ≠ old ∧ r ≠ nr) →
    ∀ i, seatCount (L.tokens r) i + L.lock.promised r i = ((L.room r).seatUsed i).toNat
  free : ∀ r ∈ L.freeRooms, ∀ i, (L.room r).seatUsed i = false
  fresh : ∀ r, L.lock.fresh = some r → (∀ i, (L.room r).seatUsed i = false) ∧
    (L.room r).everReserved = false
  unopened : ∀ r, L.lock.unopened = some r → (L.room r).dead = false
  dying : ∀ g i r, L.game g = .free i r → (L.room r).dead = true
  move : ∀ g i old nr rest moved joins leaves,
    L.lock = .move g i old nr rest moved joins leaves → MoveOk L old nr rest joins
  carry : ∀ g i old nr moved joins leaves, L.lock = .carry g i old nr moved joins leaves →
    (L.room nr).everReserved = true ∧ (∀ s, (L.room old).seatUsed s = false) ∧
      ∀ s, seatCount (L.tokens nr) s + seatCount joins s ≤ 1

/-! ### Counting -/

@[simp] theorem seatCount_zero (i : Seat) : seatCount 0 i = 0 := Multiset.countP_zero _

@[simp] theorem seatCount_add (m m' : Multiset RoomJoinEntry) (i : Seat) :
    seatCount (m + m') i = seatCount m i + seatCount m' i := Multiset.countP_add _ _ _

theorem seatCount_cons (e : RoomJoinEntry) (m : Multiset RoomJoinEntry) (i : Seat) :
    seatCount (e ::ₘ m) i = seatCount m i + if e.actorId = i then 1 else 0 :=
  Multiset.countP_cons _ _ _

theorem seatCount_pos {e : RoomJoinEntry} {m : Multiset RoomJoinEntry} (h : e ∈ m) :
    0 < seatCount m e.actorId :=
  Multiset.countP_pos_of_mem h rfl

theorem eq_zero_of_seatCount {m : Multiset RoomJoinEntry} (h : ∀ i, seatCount m i = 0) : m = 0 := by
  by_contra hne
  obtain ⟨e, he⟩ := Multiset.exists_mem_of_ne_zero hne
  have := seatCount_pos he
  rw [h] at this
  omega

theorem seatCount_members (R : RoomBook) (i : Seat) :
    seatCount R.members i = (R.seated i).isSome.toNat :=
  Tally.countP_place (k := RoomJoinEntry.actorId) (fun _ _ => rfl) i

theorem GamePc.handAt_of_ne {pc : GamePc} {i r r' : Nat} (h : pc.place = some (i, r))
    (hne : r' ≠ r) : pc.handAt r' = 0 := by
  cases pc with
  | joins | skip =>
    cases h
    exact if_neg (Ne.symm hne)
  | idle | announce => cases h
  | leaves | drop | free | exit | moving => rfl

theorem GamePc.handAt_of_none {pc : GamePc} (h : pc.place = none) (r : Nat) : pc.handAt r = 0 := by
  cases pc <;> cases h <;> rfl

namespace RoomBook

theorem members_seat {R : RoomBook} {e : RoomJoinEntry} (h : R.seated e.actorId = none) :
    (R.seat e).members = e ::ₘ R.members :=
  Tally.ofTable_insert (b := RoomLeaveEntry.mk e.sessIdx e.sessGen) h

theorem members_moveIn {R : RoomBook} {i : Seat} {e : RoomLeaveEntry} (h : R.seated i = none) :
    (R.moveIn i e).members = ⟨e.sessIdx, e.sessGen, i⟩ ::ₘ R.members :=
  Tally.ofTable_insert h

theorem members_unseat {R : RoomBook} {i : Seat} {e : RoomLeaveEntry} (h : R.seated i = some e) :
    R.members = ⟨e.sessIdx, e.sessGen, i⟩ ::ₘ (R.unseat i).members :=
  Tally.ofTable_erase h

theorem members_moveOut {R : RoomBook} {i : Seat} {e : RoomLeaveEntry} (h : R.seated i = some e) :
    R.members = ⟨e.sessIdx, e.sessGen, i⟩ ::ₘ (R.moveOut i).members :=
  Tally.ofTable_erase h

theorem seated_of_findLeaver {R : RoomBook} {e : RoomLeaveEntry} {i : Seat}
    (h : R.findLeaver e = some i) : R.seated i = some e := by
  simpa using List.find?_some h

theorem findLeaver_none {R : RoomBook} {e : RoomLeaveEntry} (h : R.findLeaver e = none) (i : Seat) :
    R.seated i ≠ some e := by
  have := List.find?_eq_none.mp h i (List.mem_finRange i)
  simpa using this

end RoomBook

/-! ### One room's flags and counter -/

namespace BookOk

variable {R : RoomBook}

theorem used_update (f : Seat → Bool) (i : Seat) (b : Bool) :
    (∑ j, (Function.update f i b j).toNat) + (f i).toNat = (∑ j, (f j).toNat) + b.toNat := by
  have h := Tally.sum_change (s := Finset.univ) (a := i) (f := fun j => (f j).toNat)
    (g := fun j => (Function.update f i b j).toNat) (Finset.mem_univ i) fun j hj => by
      rw [Function.update_of_ne hj]
  simpa using h

theorem of_same {R' : RoomBook} (h : BookOk R) (hseat : R'.seatUsed = R.seatUsed)
    (hres : R'.reservedSeats = R.reservedSeats) (hever : R'.everReserved = R.everReserved)
    (hdead : R'.dead = R.dead) : BookOk R' where
  reserved := by rw [hseat, hres, h.reserved]
  alive := by rw [hseat, hever, hdead]; exact h.alive

theorem raise {R' : RoomBook} (h : BookOk R) {i : Seat} (hi : R.seatUsed i = false)
    (hseat : R'.seatUsed = Function.update R.seatUsed i true)
    (hres : R'.reservedSeats = R.reservedSeats + 1) (hever : R'.everReserved = true)
    (hdead : R'.dead = false) : BookOk R' where
  reserved := by
    have hsum := used_update R.seatUsed i true
    rw [hseat, hres, h.reserved]
    simp [hi] at hsum
    omega
  alive _ _ := ⟨hever, hdead⟩

theorem lower {R' : RoomBook} (h : BookOk R) {i : Seat} (hi : R.seatUsed i = true)
    (hseat : R'.seatUsed = Function.update R.seatUsed i false)
    (hres : R'.reservedSeats = R.reservedSeats - 1) (hever : R'.everReserved = R.everReserved)
    (hdead : R'.dead = R.dead) : BookOk R' where
  reserved := by
    have hsum := used_update R.seatUsed i false
    rw [hseat, hres, h.reserved]
    simp [hi] at hsum
    omega
  alive _ _ := by
    rw [hever, hdead]
    exact h.alive i hi

theorem of_free {R' : RoomBook} (hseat : ∀ i, R'.seatUsed i = false) (hres : R'.reservedSeats = 0) :
    BookOk R' where
  reserved := by simp [hseat, hres]
  alive i hi := by simp [hseat] at hi

theorem seatUsed_of_zero (h : BookOk R) (hz : R.reservedSeats = 0) (i : Seat) :
    R.seatUsed i = false := by
  have hsum : ∑ j, (R.seatUsed j).toNat = 0 := by
    have := h.reserved
    omega
  have hi := Finset.sum_eq_zero_iff.mp hsum i (Finset.mem_univ i)
  simpa using hi

theorem openMoved (hseat : ∀ i, R.seatUsed i = false) (hres : R.reservedSeats = 0)
    (hdead : R.dead = false) : BookOk R.openMoved where
  reserved := by
    simp [RoomBook.openMoved, hseat, hres, Tally.countP_finRange]
  alive _ _ := ⟨rfl, hdead⟩

theorem carryJoin (h : BookOk R) (hever : R.everReserved = true) (hdead : R.dead = false)
    (e : RoomJoinEntry) : BookOk (R.carryJoin e) := by
  unfold RoomBook.carryJoin
  split
  · exact h.of_same rfl rfl rfl rfl
  · rename_i hseat
    exact h.raise (by simpa using hseat) rfl rfl hever hdead

end BookOk

/-- The seat of a member that still has to move is empty in the new room. -/
theorem MoveOk.new_seat {L : Ledger} {old nr : Nat} {rest : List Seat} {joins : List RoomJoinEntry}
    (h : MoveOk L old nr rest joins) {s : Seat} {e : RoomLeaveEntry}
    (hs : (L.room old).seated s = some e) : (L.room nr).seated s = none := by
  have ho := h.once s
  rw [seatCount_members, seatCount_members, hs] at ho
  cases hn : (L.room nr).seated s with
  | none => rfl
  | some e' =>
    simp only [hn, Option.isSome_some, Bool.toNat_true] at ho
    omega

/-! ### Holders -/

/-- The flags of a room whose holders lose one. -/
theorem seats_remove {m : Multiset RoomJoinEntry} {e : RoomJoinEntry} {p : Seat → Nat}
    {f : Seat → Bool} (h : ∀ i, seatCount (e ::ₘ m) i + p i = (f i).toNat) :
    f e.actorId = true ∧
      ∀ i, seatCount m i + p i = (Function.update f e.actorId false i).toNat := by
  have he := h e.actorId
  rw [seatCount_cons, if_pos rfl] at he
  have hle := Bool.toNat_le (f e.actorId)
  refine ⟨by simpa using (by omega : (f e.actorId).toNat = 1), ?_⟩
  intro i
  by_cases hi : i = e.actorId
  · subst hi
    rw [Function.update_self, Bool.toNat_false]
    omega
  · rw [Function.update_of_ne hi, ← h i, seatCount_cons, if_neg (Ne.symm hi), Nat.add_zero]

theorem LockPc.unopened_cases {pc : LockPc} {r : Nat} (h : pc.unopened = some r) :
    pc.fresh = some r ∨ ∃ g i old, pc.transfer = some (g, i, old, r) := by
  cases pc <;> cases h
  · exact Or.inl rfl
  · exact Or.inl rfl
  · exact Or.inl rfl
  · exact Or.inr ⟨_, _, _, rfl⟩
  · exact Or.inr ⟨_, _, _, rfl⟩

theorem tokens_of_eq {L L' : Ledger} {r : Nat} (hroom : L'.room r = L.room r)
    (hhand : (L'.game (L.room r).owner).handAt r = (L.game (L.room r).owner).handAt r) :
    L'.tokens r = L.tokens r := by
  simp only [Ledger.tokens, Ledger.hand, hroom, hhand]

theorem handAt_update {game : Nat → GamePc} {g r' : Nat} {pc : GamePc}
    (hold : (game g).handAt r' = 0) (hnew : pc.handAt r' = 0) (g' : Nat) :
    (Function.update game g pc g').handAt r' = (game g').handAt r' := by
  by_cases hg : g' = g
  · subst hg
    rw [Function.update_self, hold, hnew]
  · rw [Function.update_of_ne hg]

theorem handAt_update_same {m : Nat → GamePc} {g : Nat} {p : GamePc}
    (h : ∀ r, p.handAt r = (m g).handAt r) (g' r : Nat) :
    (Function.update m g p g').handAt r = (m g').handAt r := by
  by_cases hg : g' = g
  · subst hg
    rw [Function.update_self, h]
  · rw [Function.update_of_ne hg]

theorem parts_of_tokens_zero {L : Ledger} {r : Nat} (h : L.tokens r = 0) :
    (L.room r).members = 0 ∧ (L.room r).pendingJoin = [] ∧ L.hand r = 0 := by
  have hcard := congrArg Multiset.card h
  simp only [Ledger.tokens, Multiset.card_add, Multiset.coe_card, Multiset.card_zero] at hcard
  exact ⟨Multiset.card_eq_zero.mp (by omega), List.length_eq_zero_iff.mp (by omega),
    Multiset.card_eq_zero.mp (by omega)⟩

namespace Places

variable {L : Ledger}

/-- A worker in the middle of an operation is at no room of a transfer. -/
theorem not_transfer (h : Places L) {g i r k j o n : Nat}
    (hat : (L.game g).place = some (i, r)) (hmoving : ∀ i r, L.game g ≠ .moving i r)
    (ht : L.lock.transfer = some (k, j, o, n)) : r ≠ o ∧ r ≠ n := by
  have hin : L.lock.inHand = some n := by
    cases hl : L.lock <;> simp_all [LockPc.transfer, LockPc.inHand]
  obtain ⟨hk, -⟩ := h.transfer k j o n ht
  constructor
  · rintro rfl
    have hown := h.owner_of_place hat
    have hown' := h.owner_of_place (g := k) (i := j) (r := r) (by rw [hk]; rfl)
    rw [hown] at hown'
    exact hmoving j r (hown' ▸ hk)
  · rintro rfl
    exact (h.not_kept (Or.inr hin) g).2 (h.mem_of_place hat)

theorem handAt_of_not_kept (h : Places L) {r : Nat} (hr : r ∈ L.freeRooms ∨ L.lock.inHand = some r)
    (g : Nat) : (L.game g).handAt r = 0 := by
  cases hp : (L.game g).place with
  | none => exact GamePc.handAt_of_none hp r
  | some p =>
    obtain ⟨i, r'⟩ := p
    refine GamePc.handAt_of_ne hp ?_
    rintro rfl
    exact (h.not_kept hr g).2 (h.mem_of_place hp)

end Places

namespace Seats

variable {L L' : Ledger}

theorem seatUsed_of_dead (h : Seats L) {r : Nat} (hr : (L.room r).dead = true) (i : Seat) :
    (L.room r).seatUsed i = false := by
  cases hi : (L.room r).seatUsed i
  · rfl
  · exact absurd ((h.book r).alive i hi).2 (by simp [hr])

/-- A room without used seats has no holders, unless members are moving. -/
theorem tokens_eq_zero (h : Seats L) {r : Nat}
    (hstill : ∀ old nr, L.lock.moving = some (old, nr) → r ≠ old ∧ r ≠ nr)
    (hr : ∀ i, (L.room r).seatUsed i = false) : L.tokens r = 0 := by
  refine eq_zero_of_seatCount fun i => ?_
  have hi := h.seats r hstill i
  rw [hr i, Bool.toNat_false] at hi
  omega

structure SameFlags (R R' : RoomBook) : Prop where
  seatUsed : R'.seatUsed = R.seatUsed := by rfl
  reserved : R'.reservedSeats = R.reservedSeats := by rfl
  ever : R'.everReserved = R.everReserved := by rfl
  dead : R'.dead = R.dead := by rfl

theorem of_tokens (h : Seats L) (hlock : L'.lock = L.lock)
    (hfree : ∀ r ∈ L'.freeRooms, r ∈ L.freeRooms ∨ ∀ i, (L.room r).seatUsed i = false)
    (hflags : ∀ r, SameFlags (L.room r) (L'.room r)) (htokens : ∀ r, L'.tokens r = L.tokens r)
    (hmove : ∀ old nr, L.lock.moving = some (old, nr) → ∀ r, r = old ∨ r = nr →
      (L'.room r).seated = (L.room r).seated ∧ (L'.room r).pendingJoin = (L.room r).pendingJoin)
    (hdying : ∀ g i r, L'.game g = .free i r → (L.room r).dead = true) : Seats L' where
  book r := (h.book r).of_same (hflags r).seatUsed (hflags r).reserved (hflags r).ever (hflags r).dead
  seats r hr i := by
    rw [hlock] at hr ⊢
    rw [htokens, (hflags r).seatUsed]
    exact h.seats r hr i
  free r hr i := by
    rw [(hflags r).seatUsed]
    exact (hfree r hr).elim (fun hr => h.free r hr i) fun hr => hr i
  fresh r hr := by
    rw [(hflags r).seatUsed, (hflags r).ever]
    exact h.fresh r (hlock ▸ hr)
  unopened r hr := by
    rw [(hflags r).dead]
    exact h.unopened r (hlock ▸ hr)
  dying g i r hg := by
    rw [(hflags r).dead]
    exact hdying g i r hg
  move g i old nr rest moved joins leaves hl := by
    rw [hlock] at hl
    have hm := h.move g i old nr rest moved joins leaves hl
    have hsame := hmove old nr (by rw [hl]; rfl)
    obtain ⟨hso, hpo⟩ := hsame old (Or.inl rfl)
    obtain ⟨hsn, hpn⟩ := hsame nr (Or.inr rfl)
    exact
      { old_free := by rw [(hflags old).seatUsed]; exact hm.old_free
        new_free := by rw [(hflags nr).seatUsed]; exact hm.new_free
        once := by simpa only [RoomBook.members, hso, hsn] using hm.once
        gone := by rw [hso]; exact hm.gone
        old_pending := hpo.trans hm.old_pending
        new_pending := hpn.trans hm.new_pending }
  carry g i old nr moved joins leaves hl := by
    rw [hlock] at hl
    rw [(hflags nr).ever, (hflags old).seatUsed, htokens]
    exact h.carry g i old nr moved joins leaves hl

theorem of_room (h : Seats L) {r : Nat} (hlock : L'.lock = L.lock)
    (hfree : L'.freeRooms = L.freeRooms) (hr : r ∉ L.freeRooms)
    (hfresh : L.lock.fresh ≠ some r)
    (hstill : ∀ g i old nr, L.lock.transfer = some (g, i, old, nr) → r ≠ old ∧ r ≠ nr)
    (hother : ∀ r', r' ≠ r → L'.room r' = L.room r' ∧ L'.tokens r' = L.tokens r')
    (hbook : BookOk (L'.room r))
    (hseats : ∀ i, seatCount (L'.tokens r) i + L.lock.promised r i = ((L'.room r).seatUsed i).toNat)
    (hdead : (L.room r).dead = true → (L'.room r).dead = true)
    (hdying : ∀ g i r', L'.game g = .free i r' → L.game g = .free i r' ∨ (L'.room r').dead = true) :
    Seats L' where
  book r' := by
    by_cases hr' : r' = r
    · exact hr' ▸ hbook
    · exact (hother r' hr').1 ▸ h.book r'
  seats r' hr' i := by
    rw [hlock] at hr' ⊢
    by_cases hrr : r' = r
    · subst hrr
      exact hseats i
    · rw [(hother r' hrr).1, (hother r' hrr).2]
      exact h.seats r' hr' i
  free r' hr' i := by
    rw [hfree] at hr'
    have hrr : r' ≠ r := fun heq => hr (heq ▸ hr')
    rw [(hother r' hrr).1]
    exact h.free r' hr' i
  fresh r' hr' := by
    rw [hlock] at hr'
    have hrr : r' ≠ r := fun heq => hfresh (heq ▸ hr')
    rw [(hother r' hrr).1]
    exact h.fresh r' hr'
  unopened r' hr' := by
    rw [hlock] at hr'
    have hrr : r' ≠ r := by
      rintro rfl
      rcases LockPc.unopened_cases hr' with hf | ⟨g, i, old, ht⟩
      · exact hfresh hf
      · exact (hstill g i old r' ht).2 rfl
    rw [(hother r' hrr).1]
    exact h.unopened r' hr'
  dying g i r' hg := by
    rcases hdying g i r' hg with hg | hd
    · have hd := h.dying g i r' hg
      by_cases hrr : r' = r
      · subst hrr
        exact hdead hd
      · rw [(hother r' hrr).1]
        exact hd
    · exact hd
  move g i old nr rest moved joins leaves hl := by
    rw [hlock] at hl
    obtain ⟨hro, hrn⟩ := hstill g i old nr (by rw [hl]; rfl)
    have hm := h.move g i old nr rest moved joins leaves hl
    have ho := (hother old (Ne.symm hro)).1
    have hn := (hother nr (Ne.symm hrn)).1
    exact
      { old_free := ho ▸ hm.old_free
        new_free := hn ▸ hm.new_free
        once := ho ▸ hn ▸ hm.once
        gone := ho ▸ hm.gone
        old_pending := ho ▸ hm.old_pending
        new_pending := hn ▸ hm.new_pending }
  carry g i old nr moved joins leaves hl := by
    rw [hlock] at hl
    obtain ⟨hro, hrn⟩ := hstill g i old nr (by rw [hl]; rfl)
    obtain ⟨hn, htn⟩ := hother nr (Ne.symm hrn)
    rw [hn, htn, (hother old (Ne.symm hro)).1]
    exact h.carry g i old nr moved joins leaves hl

/-- The lock moves between operations, or between two sections that hold the same promises. -/
theorem relock (h : Seats L) {pc : LockPc} (hmoving : L.lock.moving = none)
    (htransfer : pc.transfer = none)
    (hpromised : ∀ r i, pc.promised r i = L.lock.promised r i)
    (hfresh : ∀ r, pc.fresh = some r → L.lock.fresh = some r)
    (hun : ∀ r, pc.unopened = some r → L.lock.unopened = some r) :
    Seats { L with lock := pc } where
  book := h.book
  seats r _ i := by
    show seatCount (L.tokens r) i + pc.promised r i = _
    rw [hpromised]
    exact h.seats r (by simp [hmoving]) i
  free := h.free
  fresh r hr := h.fresh r (hfresh r hr)
  unopened r hr := h.unopened r (hun r hr)
  dying := h.dying
  move g i old nr rest moved joins leaves hl := by
    obtain rfl : pc = _ := hl
    cases htransfer
  carry g i old nr moved joins leaves hl := by
    obtain rfl : pc = _ := hl
    cases htransfer

theorem of_quiet (h : Seats L) (hlock : L'.lock = L.lock) (hfree : L'.freeRooms = L.freeRooms)
    (hroom : L'.room = L.room) (hgame : L'.game = L.game) : Seats L' := by
  refine h.of_tokens hlock (fun r hr => Or.inl (hfree ▸ hr)) (fun r => ?_) (fun r => ?_)
    (fun _ _ _ r _ => ?_) (fun g i r hg => h.dying g i r (hgame ▸ hg))
  · rw [hroom]
    exact {}
  · exact tokens_of_eq (by rw [hroom]) (by rw [hgame])
  · rw [hroom]
    exact ⟨rfl, rfl⟩

theorem of_game (h : Seats L) {g : Nat} {pc : GamePc}
    (hpc : ∀ r, pc.handAt r = (L.game g).handAt r) (hdying : ∀ i r, pc ≠ .free i r) :
    Seats (L.setGame g pc) := by
  refine h.of_tokens rfl (fun r hr => Or.inl hr) (fun r => {})
    (fun r => tokens_of_eq rfl (handAt_update_same hpc _ r)) (fun _ _ _ r _ => ⟨rfl, rfl⟩) ?_
  intro g' i r hg'
  by_cases hg : g' = g
  · subst hg
    exact absurd (by simpa [Ledger.setGame] using hg') (hdying i r)
  · simp only [Ledger.setGame, Function.update_of_ne hg] at hg'
    exact h.dying g' i r hg'

end Seats

end BeltServer
