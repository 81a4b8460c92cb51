import BeltServer.Seats

/-!
# The steps on the seats

Each transition keeps `Seats`. First the sections under the manager lock, which change one
room and the promise; then those of a transfer; then those of a room's own worker.
-/

namespace BeltServer

set_option autoImplicit false

open SwapList

namespace Seats

variable {L L' : Ledger}

/-! ### Join -/

theorem of_lockRoom (h : Seats L) {r : Nat} (hmoving : L.lock.moving = none)
    (hmoving' : L'.lock.moving = none)
    (hcarry : ∀ g i old nr moved joins leaves, L'.lock ≠ .carry g i old nr moved joins leaves)
    (hfree : ∀ r' ∈ L'.freeRooms, r' ∈ L.freeRooms ∧ r' ≠ r)
    (hother : ∀ r', r' ≠ r → L'.room r' = L.room r' ∧ L'.tokens r' = L.tokens r' ∧
      ∀ i, L'.lock.promised r' i = L.lock.promised r' i)
    (hbook : BookOk (L'.room r))
    (hseats : ∀ i, seatCount (L'.tokens r) i + L'.lock.promised r i =
      ((L'.room r).seatUsed i).toNat)
    (hfresh : ∀ r', L'.lock.fresh = some r' → r' = r ∧ (∀ i, (L'.room r).seatUsed i = false) ∧
      (L'.room r).everReserved = false)
    (hun : ∀ r', L'.lock.unopened = some r' → r' = r ∧ (L'.room r).dead = false)
    (hdying : ∀ g i r', L'.game g = .free i r' → L.game g = .free i r' ∧
      (r' = r → (L'.room r).dead = true)) : Seats L' where
  book r' := by
    by_cases hr : r' = r
    · exact hr ▸ hbook
    · exact (hother r' hr).1 ▸ h.book r'
  seats r' _ i := by
    by_cases hr : r' = r
    · subst hr
      exact hseats i
    · obtain ⟨hroom, htok, hprom⟩ := hother r' hr
      rw [hroom, htok, hprom]
      exact h.seats r' (by simp [hmoving]) i
  free r' hr' i := by
    obtain ⟨hmem, hne⟩ := hfree r' hr'
    rw [(hother r' hne).1]
    exact h.free r' hmem i
  fresh r' hr' := by
    obtain ⟨rfl, hf⟩ := hfresh r' hr'
    exact hf
  unopened r' hr' := by
    obtain ⟨rfl, hd⟩ := hun r' hr'
    exact hd
  dying g i r' hg := by
    obtain ⟨hg, hd⟩ := hdying g i r' hg
    by_cases hr : r' = r
    · subst hr
      exact hd rfl
    · rw [(hother r' hr).1]
      exact h.dying g i r' hg
  move g i old nr rest moved joins leaves hl := by
    rw [hl] at hmoving'
    cases hmoving'
  carry g i old nr moved joins leaves hl := absurd hl (hcarry g i old nr moved joins leaves)

section OneRoom
variable {r : Nat} {R : RoomBook} (hroom : L'.room = Function.update L.room r R)
include hroom

theorem room_self : L'.room r = R := by rw [hroom, Function.update_self]

theorem room_other {r' : Nat} (hr : r' ≠ r) : L'.room r' = L.room r' := by
  rw [hroom, Function.update_of_ne hr]

theorem tokens_other (hgame : L'.game = L.game) {r' : Nat} (hr : r' ≠ r) :
    L'.tokens r' = L.tokens r' :=
  tokens_of_eq (room_other hroom hr) (by rw [hgame])

theorem tokens_self (hgame : L'.game = L.game) (howner : R.owner = (L.room r).owner) :
    L'.tokens r = R.members + R.pendingJoin + L.hand r := by
  simp only [Ledger.tokens, Ledger.hand, room_self hroom, hgame, howner]

end OneRoom

theorem of_scanTake (h : Seats L) {w idx r : Nat} {i : Seat} (hlock : L.lock = .scan w idx)
    (hr : r ∉ L.freeRooms) (hdead : (L.room r).dead = false) (hi : (L.room r).seatUsed i = false)
    (hfree : L'.freeRooms = L.freeRooms)
    (hroom : L'.room = Function.update L.room r ((L.room r).reserveSeat i))
    (hlock' : L'.lock = .push w idx r i) (hgame : L'.game = L.game) : Seats L' := by
  have hself := room_self hroom
  refine h.of_lockRoom (r := r) (by rw [hlock]; rfl) (by rw [hlock']; rfl)
    (by rw [hlock']; rintro _ _ _ _ _ _ _ ⟨⟩)
    ?_ ?_ ?_ ?_ (by rw [hlock']; rintro _ ⟨⟩) (by rw [hlock']; rintro _ ⟨⟩) ?_
  · rw [hfree]
    exact fun r' hr' => ⟨hr', fun heq => hr (heq ▸ hr')⟩
  · intro r' hr'
    refine ⟨room_other hroom hr', tokens_other hroom hgame hr', fun j => ?_⟩
    rw [hlock, hlock']
    exact if_neg fun heq => hr' heq.1.symm
  · rw [hself]
    exact (h.book r).raise hi rfl rfl rfl hdead
  · intro j
    have hj := h.seats r (by rw [hlock]; rintro _ _ ⟨⟩) j
    rw [hlock] at hj
    have htok : L'.tokens r = L.tokens r := by
      rw [tokens_self hroom hgame rfl]
      rfl
    rw [htok, hself, hlock']
    by_cases hji : j = i
    · subst hji
      rw [hi] at hj
      simp [LockPc.promised, RoomBook.reserveSeat] at hj ⊢
      exact hj
    · simp [LockPc.promised, RoomBook.reserveSeat, Function.update_of_ne hji, Ne.symm hji] at hj ⊢
      exact hj
  · intro g i' r' hg
    rw [hgame] at hg
    refine ⟨hg, ?_⟩
    rintro rfl
    have := h.dying g i' r' hg
    simp [hdead] at this

theorem of_first (h : Seats L) {w idx r : Nat} (hlock : L.lock = .first w idx r)
    (hr : r ∉ L.freeRooms) (hfree : L'.freeRooms = L.freeRooms)
    (hroom : L'.room = Function.update L.room r (L.room r).openFirst)
    (hlock' : L'.lock = .push w idx r firstSeat) (hgame : L'.game = L.game) : Seats L' := by
  obtain ⟨hunused, -⟩ := h.fresh r (by rw [hlock]; rfl)
  have hdead := h.unopened r (by rw [hlock]; rfl)
  have hres : (L.room r).reservedSeats = 0 := by simp [(h.book r).reserved, hunused]
  have hsame : (L.room r).openFirst = (L.room r).reserveSeat firstSeat := by
    simp [RoomBook.openFirst, RoomBook.reserveSeat, hres]
  rw [hsame] at hroom
  have hscan : Seats { L with lock := .scan w idx } :=
    h.relock (by rw [hlock]; rfl) rfl (by rw [hlock]; exact fun _ _ => rfl)
      (by rintro _ ⟨⟩) (by rintro _ ⟨⟩)
  exact hscan.of_scanTake rfl hr hdead (hunused 0) hfree hroom hlock' hgame

theorem of_push (h : Seats L) {w idx r : Nat} {i : Seat} {e : RoomJoinEntry}
    (hlock : L.lock = .push w idx r i) (hr : r ∉ L.freeRooms) (he : e.actorId = i)
    (hfree : L'.freeRooms = L.freeRooms)
    (hroom : L'.room = Function.update L.room r ((L.room r).pushJoin e))
    (hlock' : L'.lock = .store w idx r i) (hgame : L'.game = L.game) : Seats L' := by
  have hself := room_self hroom
  refine h.of_lockRoom (r := r) (by rw [hlock]; rfl) (by rw [hlock']; rfl)
    (by rw [hlock']; rintro _ _ _ _ _ _ _ ⟨⟩)
    ?_ ?_ ?_ ?_ (by rw [hlock']; rintro _ ⟨⟩) (by rw [hlock']; rintro _ ⟨⟩) ?_
  · rw [hfree]
    exact fun r' hr' => ⟨hr', fun heq => hr (heq ▸ hr')⟩
  · intro r' hr'
    refine ⟨room_other hroom hr', tokens_other hroom hgame hr', fun j => ?_⟩
    rw [hlock, hlock']
    exact (if_neg fun heq => hr' heq.1.symm).symm
  · rw [hself]
    exact (h.book r).of_same rfl rfl rfl rfl
  · intro j
    have hj := h.seats r (by rw [hlock]; rintro _ _ ⟨⟩) j
    rw [hlock] at hj
    have htok : L'.tokens r = e ::ₘ L.tokens r := by
      rw [tokens_self hroom hgame rfl]
      simp only [Ledger.tokens, RoomBook.pushJoin, RoomBook.members, ← Multiset.coe_add,
        Multiset.coe_singleton, ← Multiset.singleton_add]
      abel
    rw [htok, hself, hlock', seatCount_cons, he]
    simpa [LockPc.promised, RoomBook.pushJoin] using hj
  · intro g i' r' hg
    rw [hgame] at hg
    refine ⟨hg, ?_⟩
    rintro rfl
    rw [hself]
    exact h.dying g i' r' hg

theorem of_alloc (h : Seats L) (hP : Places L) {r g : Nat} (hr : r ∈ L.freeRooms)
    (hmoving : L.lock.moving = none)
    (hpromised : ∀ r i, L.lock.promised r i = 0)
    (hfree : ∀ r' ∈ L'.freeRooms, r' ∈ L.freeRooms ∧ r' ≠ r)
    (hroom : L'.room = Function.update L.room r ((L.room r).fresh g))
    (hfresh : ∀ r', L'.lock.fresh = some r' → r' = r)
    (hun : ∀ r', L'.lock.unopened = some r' → r' = r)
    (hmoving' : L'.lock.moving = none) (hpromised' : ∀ r i, L'.lock.promised r i = 0)
    (hcarry : ∀ g i old nr moved joins leaves, L'.lock ≠ .carry g i old nr moved joins leaves)
    (hhand : ∀ g r, (L'.game g).handAt r = (L.game g).handAt r)
    (hdying : ∀ g i r, L'.game g = .free i r → L.game g = .free i r) : Seats L' := by
  have hself := room_self hroom
  refine h.of_lockRoom (r := r) hmoving hmoving' hcarry hfree ?_ ?_ ?_ ?_ ?_ ?_
  · intro r' hr'
    refine ⟨room_other hroom hr', ?_, fun j => by rw [hpromised, hpromised']⟩
    exact tokens_of_eq (room_other hroom hr') (hhand _ _)
  · rw [hself]
    exact .of_free (fun _ => rfl) rfl
  · intro j
    have htok : L'.tokens r = 0 := by
      simp only [Ledger.tokens, Ledger.hand, hself, hhand, hP.handAt_of_not_kept (Or.inl hr)]
      simp [RoomBook.fresh, RoomBook.members]
    rw [htok, hself, hpromised']
    rfl
  · intro r' hr'
    rw [hself]
    exact ⟨hfresh r' hr', fun _ => rfl, rfl⟩
  · intro r' hr'
    rw [hself]
    exact ⟨hun r' hr', rfl⟩
  · intro g' i r' hg'
    have hg := hdying g' i r' hg'
    refine ⟨hg, ?_⟩
    rintro rfl
    exact absurd (hP.mem_of_place (by rw [hg]; rfl)) (hP.not_kept (Or.inl hr) g').2

/-! ### Transfer -/

section TwoRooms
variable {old nr : Nat} {F G : RoomBook → RoomBook}

theorem room_two_old (hne : old ≠ nr)
    (hroom : L'.room = ((L.modRoom nr F).modRoom old G).room) : L'.room old = G (L.room old) := by
  simp [hroom, Ledger.modRoom, Books.modRoom, Function.update_of_ne hne]

theorem room_two_new (hne : old ≠ nr)
    (hroom : L'.room = ((L.modRoom nr F).modRoom old G).room) : L'.room nr = F (L.room nr) := by
  simp [hroom, Ledger.modRoom, Books.modRoom, Function.update_of_ne hne.symm]

theorem room_two_other (hroom : L'.room = ((L.modRoom nr F).modRoom old G).room) {r : Nat}
    (ho : r ≠ old) (hn : r ≠ nr) : L'.room r = L.room r := by
  simp [hroom, Ledger.modRoom, Books.modRoom, Function.update_of_ne ho, Function.update_of_ne hn]

end TwoRooms

/-- The rooms of a transfer differ, and nobody has entries of theirs in hand. -/
theorem transfer_hands (hP : Places L) {g i o n : Nat}
    (ht : L.lock.transfer = some (g, i, o, n)) (hin : L.lock.inHand = some n) :
    o ≠ n ∧ L.hand o = 0 ∧ L.hand n = 0 ∧ o ∉ L.freeRooms ∧ n ∉ L.freeRooms := by
  obtain ⟨hg, -⟩ := hP.transfer g i o n ht
  have hmem : o ∈ L.myRooms g := hP.mem_of_place (by rw [hg]; rfl)
  refine ⟨?_, ?_, hP.handAt_of_not_kept (Or.inr hin) _, hP.not_free_of_mine hmem,
    hP.not_free_of_inHand hin⟩
  · rintro rfl
    exact (hP.not_kept (Or.inr hin) g).2 hmem
  · rw [Ledger.hand, hP.mine_owner g o hmem, hg]
    rfl

theorem step_close (h : Seats L) (hP : Places L) {g i old nr : Nat}
    (hlock : L.lock = .close g i old nr)
    (hfree : L'.freeRooms = L.freeRooms)
    (hroom : L'.room = Function.update L.room old (L.room old).close)
    (hlock' : L'.lock = .move g i old nr (List.finRange 4) 0 (L.room old).pendingJoin
      (L.room old).pendingLeave) (hgame : L'.game = L.game) : Seats L' := by
  obtain ⟨hne, hhold, hhnr, hfold, hfnr⟩ := transfer_hands hP (g := g) (i := i) (o := old)
    (n := nr) (by rw [hlock]; rfl) (by rw [hlock]; rfl)
  obtain ⟨hunused, hever⟩ := h.fresh nr (by rw [hlock]; rfl)
  have hself := room_self hroom
  have hnew := room_other hroom hne.symm
  have htoknr : L.tokens nr = 0 := h.tokens_eq_zero (by rw [hlock]; rintro _ _ ⟨⟩) hunused
  obtain ⟨hmembers, hpending, -⟩ := parts_of_tokens_zero htoknr
  refine
    { book := ?_
      seats := ?_
      free := ?_
      fresh := by rw [hlock']; rintro _ ⟨⟩
      unopened := ?_
      dying := ?_
      move := ?_
      carry := by rw [hlock']; rintro _ _ _ _ _ _ _ ⟨⟩ }
  · intro r
    by_cases hr : r = old
    · subst hr
      rw [hself]
      exact .of_free (fun _ => rfl) rfl
    · exact room_other hroom hr ▸ h.book r
  · intro r hr j
    rw [hlock'] at hr ⊢
    obtain ⟨hro, -⟩ := hr old nr rfl
    have hj := h.seats r (by rw [hlock]; rintro _ _ ⟨⟩) j
    rw [hlock] at hj
    rw [room_other hroom hro, tokens_other hroom hgame hro]
    exact hj
  · intro r hr
    rw [hfree] at hr
    have hro : r ≠ old := fun heq => hfold (heq ▸ hr)
    rw [room_other hroom hro]
    exact h.free r hr
  · intro r hr
    rw [hlock'] at hr
    cases hr
    rw [hnew]
    exact h.unopened nr (by rw [hlock]; rfl)
  · intro g' i' r hg'
    rw [hgame] at hg'
    by_cases hr : r = old
    · subst hr
      rw [hself]
      rfl
    · rw [room_other hroom hr]
      exact h.dying g' i' r hg'
  · intro g' i' old' nr' rest moved joins leaves hl
    rw [hlock'] at hl
    cases hl
    refine
      { old_free := by rw [hself]; exact fun _ => rfl
        new_free := by rw [hnew]; exact hunused
        once := ?_
        gone := fun s hs => absurd (List.mem_finRange s) hs
        old_pending := by rw [hself]; rfl
        new_pending := by rw [hnew]; exact hpending }
    intro s
    have hs := h.seats old (by rw [hlock]; rintro _ _ ⟨⟩) s
    have hle := Bool.toNat_le ((L.room old).seatUsed s)
    rw [hlock] at hs
    simp only [Ledger.tokens, hhold, seatCount_add, seatCount_zero, LockPc.promised] at hs
    rw [hself, hnew, hmembers]
    show seatCount (L.room old).members s + _ + _ ≤ 1
    rw [seatCount_zero]
    omega

theorem step_movePass (h : Seats L) {g i old nr : Nat} {seat : Seat} {rest : List Seat}
    {moved : Int} {joins : List RoomJoinEntry} {leaves : List RoomLeaveEntry}
    (hlock : L.lock = .move g i old nr (seat :: rest) moved joins leaves)
    (hseat : (L.room old).seated seat = none) :
    Seats { L with lock := .move g i old nr rest moved joins leaves } := by
  have hm := h.move g i old nr _ moved joins leaves hlock
  refine { h with
    seats := ?_
    fresh := by rintro _ ⟨⟩
    unopened := ?_
    move := ?_
    carry := by rintro _ _ _ _ _ _ _ ⟨⟩ }
  · intro r hr j
    have hj := h.seats r (by rw [hlock]; exact hr) j
    rw [hlock] at hj
    exact hj
  · rintro r ⟨⟩
    exact h.unopened nr (by rw [hlock]; rfl)
  · rintro g' i' old' nr' rest' moved' joins' leaves' ⟨⟩
    refine { hm with gone := ?_ }
    intro s hs
    by_cases heq : s = seat
    · exact heq ▸ hseat
    · exact hm.gone s (by simp [heq, hs])

theorem step_moveSeat (h : Seats L) (hP : Places L) {g i old nr : Nat} {seat : Seat}
    {rest : List Seat} {moved : Int} {joins : List RoomJoinEntry} {leaves : List RoomLeaveEntry}
    {e : RoomLeaveEntry} (hlock : L.lock = .move g i old nr (seat :: rest) moved joins leaves)
    (hseat : (L.room old).seated seat = some e) (hfree : L'.freeRooms = L.freeRooms)
    (hroom : L'.room = ((L.modRoom nr (·.moveIn seat e)).modRoom old (·.moveOut seat)).room)
    (hlock' : L'.lock = .move g i old nr rest (moved + 1) joins leaves)
    (hgame : L'.game = L.game) : Seats L' := by
  obtain ⟨hne, -, -, -, -⟩ := transfer_hands hP (g := g) (i := i) (o := old)
    (n := nr) (by rw [hlock]; rfl) (by rw [hlock]; rfl)
  have hold : L'.room old = (L.room old).moveOut seat := room_two_old hne hroom
  have hnr : L'.room nr = (L.room nr).moveIn seat e := room_two_new hne hroom
  have hother (r : Nat) : r ≠ old → r ≠ nr → L'.room r = L.room r := room_two_other hroom
  have hm := h.move g i old nr _ moved joins leaves hlock
  have hflags (r : Nat) : SameFlags (L.room r) (L'.room r) := by
    by_cases hro : r = old
    · rw [hro, hold]
      exact {}
    · by_cases hrn : r = nr
      · rw [hrn, hnr]
        exact {}
      · rw [hother r hro hrn]
        exact {}
  refine
    { book := fun r => (h.book r).of_same (hflags r).seatUsed (hflags r).reserved (hflags r).ever
        (hflags r).dead
      seats := ?_
      free := fun r hr => by rw [(hflags r).seatUsed]; exact h.free r (hfree ▸ hr)
      fresh := by rw [hlock']; rintro _ ⟨⟩
      unopened := fun r hr => by
        rw [(hflags r).dead]
        exact h.unopened r (by rw [hlock]; rw [hlock'] at hr; exact hr)
      dying := fun g' i' r hg' => by rw [(hflags r).dead]; exact h.dying g' i' r (hgame ▸ hg')
      move := ?_
      carry := by rw [hlock']; rintro _ _ _ _ _ _ _ ⟨⟩ }
  · intro r hr j
    rw [hlock'] at hr ⊢
    obtain ⟨hro, hrn⟩ := hr old nr rfl
    have hj := h.seats r (by rw [hlock]; exact hr) j
    rw [hlock] at hj
    rw [tokens_of_eq (hother r hro hrn) (by rw [hgame]), hother r hro hrn]
    exact hj
  · intro g' i' old' nr' rest' moved' joins' leaves' hl
    rw [hlock'] at hl
    cases hl
    have hempty := hm.new_seat hseat
    refine
      { old_free := by rw [hold]; exact hm.old_free
        new_free := by rw [hnr]; exact hm.new_free
        once := ?_
        gone := ?_
        old_pending := by rw [hold]; exact hm.old_pending
        new_pending := by rw [hnr]; exact hm.new_pending }
    · intro s
      have hs := hm.once s
      rw [RoomBook.members_moveOut hseat] at hs
      rw [hold, hnr, RoomBook.members_moveIn hempty]
      simp only [seatCount_cons] at hs ⊢
      omega
    · intro s hs
      rw [hold]
      by_cases heq : s = seat
      · subst heq
        exact Function.update_self ..
      · exact (Function.update_of_ne heq ..).trans (hm.gone s (by simp [heq, hs]))

theorem step_moveEnd (h : Seats L) (hP : Places L) {g i old nr : Nat} {moved : Int}
    {joins : List RoomJoinEntry} {leaves : List RoomLeaveEntry}
    (hlock : L.lock = .move g i old nr [] moved joins leaves) (hfree : L'.freeRooms = L.freeRooms)
    (hroom : L'.room = ((L.modRoom nr (·.openMoved)).modRoom old (·.empty)).room)
    (hlock' : L'.lock = .carry g i old nr moved joins leaves) (hgame : L'.game = L.game) :
    Seats L' := by
  obtain ⟨hne, hhold, hhnr, hfold, hfnr⟩ := transfer_hands hP (g := g) (i := i) (o := old)
    (n := nr) (by rw [hlock]; rfl) (by rw [hlock]; rfl)
  have hold : L'.room old = (L.room old).empty := room_two_old hne hroom
  have hnr : L'.room nr = (L.room nr).openMoved := room_two_new hne hroom
  have hother (r : Nat) : r ≠ old → r ≠ nr → L'.room r = L.room r := room_two_other hroom
  have hm := h.move g i old nr _ moved joins leaves hlock
  have hdead := h.unopened nr (by rw [hlock]; rfl)
  have htokold : L'.tokens old = 0 := by
    have hmem : (L.room old).members = 0 := by
      refine eq_zero_of_seatCount fun s => ?_
      rw [seatCount_members, hm.gone s (by simp)]
      rfl
    have hhand : L'.hand old = 0 := by rw [Ledger.hand, hold, hgame]; exact hhold
    rw [Ledger.tokens, hhand, hold]
    show (L.room old).members + ((L.room old).pendingJoin : Multiset RoomJoinEntry) + 0 = 0
    rw [hmem, hm.old_pending]
    rfl
  have htoknr : L'.tokens nr = (L.room nr).members := by
    have hhand : L'.hand nr = 0 := by rw [Ledger.hand, hnr, hgame]; exact hhnr
    rw [Ledger.tokens, hhand, hnr]
    show (L.room nr).members + ((L.room nr).pendingJoin : Multiset RoomJoinEntry) + 0 = _
    rw [hm.new_pending]
    simp
  refine
    { book := ?_
      seats := ?_
      free := ?_
      fresh := by rw [hlock']; rintro _ ⟨⟩
      unopened := ?_
      dying := ?_
      move := by rw [hlock']; rintro _ _ _ _ _ _ _ _ ⟨⟩
      carry := ?_ }
  · intro r
    by_cases hro : r = old
    · rw [hro, hold]
      exact (h.book old).of_same rfl rfl rfl rfl
    · by_cases hrn : r = nr
      · rw [hrn, hnr]
        refine .openMoved hm.new_free ?_ hdead
        simp [(h.book nr).reserved, hm.new_free]
      · exact hother r hro hrn ▸ h.book r
  · intro r _ j
    rw [hlock']
    by_cases hro : r = old
    · subst hro
      rw [htokold, hold]
      show 0 + 0 = ((L.room r).seatUsed j).toNat
      rw [hm.old_free]
      rfl
    · by_cases hrn : r = nr
      · subst hrn
        rw [htoknr, hnr, seatCount_members]
        show _ + 0 = (((L.room r).seated j).isSome || (L.room r).seatUsed j).toNat
        rw [hm.new_free, Bool.or_false]
        rfl
      · have hj := h.seats r (by rw [hlock]; rintro _ _ ⟨⟩; exact ⟨hro, hrn⟩) j
        rw [hlock] at hj
        rw [tokens_of_eq (hother r hro hrn) (by rw [hgame]), hother r hro hrn]
        exact hj
  · intro r hr
    rw [hfree] at hr
    have hro : r ≠ old := fun heq => hfold (heq ▸ hr)
    have hrn : r ≠ nr := fun heq => hfnr (heq ▸ hr)
    rw [hother r hro hrn]
    exact h.free r hr
  · intro r hr
    rw [hlock'] at hr
    cases hr
    rw [hnr]
    exact hdead
  · intro g' i' r hg'
    rw [hgame] at hg'
    have hd := h.dying g' i' r hg'
    by_cases hro : r = old
    · subst hro
      rw [hold]
      exact hd
    · by_cases hrn : r = nr
      · subst hrn
        rw [hnr]
        exact hd
      · rw [hother r hro hrn]
        exact hd
  · intro g' i' old' nr' moved' joins' leaves' hl
    rw [hlock'] at hl
    cases hl
    refine ⟨by rw [hnr]; rfl, by rw [hold]; exact hm.old_free, fun s => ?_⟩
    rw [htoknr]
    have hs := hm.once s
    omega

theorem step_carry (h : Seats L) (hP : Places L) {g i old nr : Nat} {moved : Int}
    {e : RoomJoinEntry} {joins : List RoomJoinEntry} {leaves : List RoomLeaveEntry}
    (hlock : L.lock = .carry g i old nr moved (e :: joins) leaves)
    (hfree : L'.freeRooms = L.freeRooms)
    (hroom : L'.room = Function.update L.room nr ((L.room nr).carryJoin e))
    (hlock' : L'.lock = .carry g i old nr moved joins leaves) (hgame : L'.game = L.game) :
    Seats L' := by
  obtain ⟨hne, -, -, hfold, hfnr⟩ := transfer_hands hP (g := g) (i := i) (o := old)
    (n := nr) (by rw [hlock]; rfl) (by rw [hlock]; rfl)
  obtain ⟨hever, hunused, honce⟩ := h.carry g i old nr moved (e :: joins) leaves hlock
  have hdead := h.unopened nr (by rw [hlock]; rfl)
  have hself := room_self hroom
  have hjoins (s : Seat) : seatCount ((e :: joins : List RoomJoinEntry) : Multiset RoomJoinEntry) s =
      seatCount joins s + if e.actorId = s then 1 else 0 := seatCount_cons e joins s
  have hseat : (L.room nr).seatUsed e.actorId = false := by
    have hs := h.seats nr (by rw [hlock]; rintro _ _ ⟨⟩) e.actorId
    have ho := honce e.actorId
    rw [hlock] at hs
    rw [hjoins, if_pos rfl] at ho
    have hz : ((L.room nr).seatUsed e.actorId).toNat = 0 := by
      rw [← hs]
      show _ + 0 = 0
      omega
    simpa using hz
  have hcarry : (L.room nr).carryJoin e =
      { (L.room nr).reserveSeat e.actorId with
        everReserved := (L.room nr).everReserved
        pendingJoin := (L.room nr).pendingJoin ++ [e] } := by
    simp [RoomBook.carryJoin, hseat, RoomBook.reserveSeat]
  have htok : L'.tokens nr = e ::ₘ L.tokens nr := by
    rw [tokens_self hroom hgame (RoomBook.carryJoin_owner _ _), hcarry]
    simp only [Ledger.tokens, RoomBook.reserveSeat, RoomBook.members, ← Multiset.coe_add,
      Multiset.coe_singleton, ← Multiset.singleton_add]
    abel
  refine
    { book := ?_
      seats := ?_
      free := ?_
      fresh := by rw [hlock']; rintro _ ⟨⟩
      unopened := ?_
      dying := ?_
      move := by rw [hlock']; rintro _ _ _ _ _ _ _ _ ⟨⟩
      carry := ?_ }
  · intro r
    by_cases hr : r = nr
    · rw [hr, hself]
      exact (h.book nr).carryJoin hever hdead e
    · exact room_other hroom hr ▸ h.book r
  · intro r _ j
    have hj := h.seats r (by rw [hlock]; rintro _ _ ⟨⟩) j
    rw [hlock] at hj
    rw [hlock']
    by_cases hr : r = nr
    · subst hr
      rw [htok, hself, hcarry, seatCount_cons]
      show _ + 0 = (Function.update (L.room r).seatUsed e.actorId true j).toNat
      by_cases hje : j = e.actorId
      · subst hje
        rw [hseat] at hj
        replace hj : seatCount (L.tokens r) e.actorId + 0 = 0 := hj
        simp
        omega
      · rw [Function.update_of_ne hje, if_neg (Ne.symm hje), Nat.add_zero, ← hj]
        rfl
    · rw [room_other hroom hr, tokens_other hroom hgame hr]
      exact hj
  · intro r hr
    rw [hfree] at hr
    have hrn : r ≠ nr := fun heq => hfnr (heq ▸ hr)
    rw [room_other hroom hrn]
    exact h.free r hr
  · intro r hr
    rw [hlock'] at hr
    cases hr
    rw [hself, hcarry]
    exact hdead
  · intro g' i' r hg'
    rw [hgame] at hg'
    have hd := h.dying g' i' r hg'
    by_cases hr : r = nr
    · subst hr
      rw [hself, hcarry]
      exact hd
    · rw [room_other hroom hr]
      exact hd
  · intro g' i' old' nr' moved' joins' leaves' hl
    rw [hlock'] at hl
    cases hl
    refine ⟨by rw [hself, hcarry]; exact hever, by rw [room_other hroom hne]; exact hunused, ?_⟩
    intro s
    have ho := honce s
    rw [hjoins] at ho
    rw [htok, seatCount_cons]
    omega

theorem step_finish (h : Seats L) (hP : Places L) {g i old nr : Nat} {moved : Int}
    {leaves : List RoomLeaveEntry} (hlock : L.lock = .carry g i old nr moved [] leaves)
    (hfree : L'.freeRooms = L.freeRooms ++ [old])
    (hroom : L'.room = Function.update L.room nr ((L.room nr).finish moved leaves))
    (hlock' : L'.lock = .free) (hgame : L'.game = Function.update L.game g (.announce nr)) :
    Seats L' := by
  obtain ⟨hg, -⟩ := hP.transfer g i old nr (by rw [hlock]; rfl)
  obtain ⟨-, hunused, -⟩ := h.carry g i old nr moved [] leaves hlock
  have hopen : Seats { L with lock := .free } :=
    h.relock (by rw [hlock]; rfl) rfl (by rw [hlock]; exact fun _ _ => rfl)
      (by rintro _ ⟨⟩) (by rintro _ ⟨⟩)
  have hself := room_self hroom
  have hhand (g' r : Nat) : (L'.game g').handAt r = (L.game g').handAt r := by
    rw [hgame]
    exact handAt_update_same (by rw [hg]; exact fun _ => rfl) g' r
  refine hopen.of_tokens hlock' ?_ ?_ ?_ (by rintro _ _ ⟨⟩) ?_
  · intro r hr
    rw [hfree, List.mem_append, List.mem_singleton] at hr
    rcases hr with hr | rfl
    · exact Or.inl hr
    · exact Or.inr hunused
  · intro r
    by_cases hr : r = nr
    · rw [hr, hself]
      exact {}
    · rw [room_other hroom hr]
      exact {}
  · intro r
    by_cases hr : r = nr
    · simp only [Ledger.tokens, Ledger.hand, hr, hself, hhand]
      rfl
    · exact tokens_of_eq (room_other hroom hr) (hhand _ _)
  · intro g' i' r hg'
    rw [hgame] at hg'
    by_cases hgg : g' = g
    · subst hgg
      simp at hg'
    · rw [Function.update_of_ne hgg] at hg'
      exact h.dying g' i' r hg'

/-! ### The room's worker -/

/-- The worker `g` takes one holder `e` out of its room and lowers the flag. -/
theorem of_remove (h : Seats L) (hP : Places L) {g i r : Nat} {pc : GamePc} {R : RoomBook}
    {e : RoomJoinEntry} (hat : (L.game g).place = some (i, r)) (hpc : pc.place = some (i, r))
    (hmoving : ∀ i r, L.game g ≠ .moving i r) (hdying : ∀ i r, pc ≠ .free i r)
    (hlock : L'.lock = L.lock) (hfree : L'.freeRooms = L.freeRooms)
    (hroom : L'.room = Function.update L.room r R) (hgame : L'.game = Function.update L.game g pc)
    (htokens : L.tokens r = e ::ₘ (R.members + R.pendingJoin + pc.handAt r))
    (howner : R.owner = (L.room r).owner)
    (hseat : R.seatUsed = Function.update (L.room r).seatUsed e.actorId false)
    (hres : R.reservedSeats = (L.room r).reservedSeats - 1)
    (hever : R.everReserved = (L.room r).everReserved) (hdead : R.dead = (L.room r).dead) :
    Seats L' := by
  have hself := room_self hroom
  have hown := hP.owner_of_place hat
  have hstill := fun g' i' old nr => hP.not_transfer (k := g') (j := i') (o := old) (n := nr)
    hat hmoving
  have htok : L'.tokens r = R.members + R.pendingJoin + pc.handAt r := by
    simp only [Ledger.tokens, Ledger.hand, hself, howner, hown, hgame, Function.update_self]
  have hkeep : ∀ old nr, L.lock.moving = some (old, nr) → r ≠ old ∧ r ≠ nr := by
    intro old nr hm
    cases hl : L.lock <;> rw [hl] at hm <;> cases hm
    exact hstill _ _ old nr (by rw [hl]; rfl)
  have hcount := h.seats r hkeep
  rw [htokens] at hcount
  obtain ⟨hused, hrest⟩ := seats_remove hcount
  refine h.of_room (r := r) hlock hfree ?_ ?_ hstill ?_ ?_ ?_ ?_ ?_
  · exact hP.not_free_of_mine (hP.mem_of_place hat)
  · intro hf
    have := (h.fresh r hf).1 e.actorId
    rw [hused] at this
    cases this
  · intro r' hr'
    refine ⟨room_other hroom hr', tokens_of_eq (room_other hroom hr') ?_⟩
    rw [hgame]
    exact handAt_update (GamePc.handAt_of_ne hat hr') (GamePc.handAt_of_ne hpc hr') _
  · rw [hself]
    exact (h.book r).lower hused hseat hres hever hdead
  · intro j
    rw [htok, hself, hseat]
    exact hrest j
  · intro hd
    rw [hself, hdead]
    exact hd
  · intro g' i' r' hg'
    rw [hgame] at hg'
    by_cases hgg : g' = g
    · subst hgg
      rw [Function.update_self] at hg'
      exact absurd hg' (hdying i' r')
    · rw [Function.update_of_ne hgg] at hg'
      exact Or.inl hg'

/-- The worker `g` moves entries of its room between the queue, its hand and the members. -/
theorem of_shuffle (h : Seats L) (hP : Places L) {g i r : Nat} {pc : GamePc} {R : RoomBook}
    (hr : r ∈ L.myRooms g) (hat : ∀ r', r' ≠ r → (L.game g).handAt r' = 0)
    (hpc : pc.place = some (i, r)) (hmoving : ∀ i r, L.game g ≠ .moving i r)
    (hdying : ∀ i r', pc = .free i r' → r' = r ∧ R.dead = true)
    (hlock : L'.lock = L.lock) (hfree : L'.freeRooms = L.freeRooms)
    (hroom : L'.room = Function.update L.room r R) (hgame : L'.game = Function.update L.game g pc)
    (htokens : R.members + R.pendingJoin + pc.handAt r =
      (L.room r).members + (L.room r).pendingJoin + (L.game g).handAt r)
    (howner : R.owner = (L.room r).owner) (hflags : SameFlags (L.room r) R) : Seats L' := by
  have hself := room_self hroom
  have hown := hP.mine_owner g r hr
  have hsame (r' : Nat) : SameFlags (L.room r') (L'.room r') := by
    by_cases hrr : r' = r
    · subst hrr
      exact hself.symm ▸ hflags
    · rw [room_other hroom hrr]
      exact {}
  refine h.of_tokens hlock (fun r' hr' => Or.inl (hfree ▸ hr')) hsame ?_ ?_ ?_
  · intro r'
    by_cases hrr : r' = r
    · subst hrr
      simp only [Ledger.tokens, Ledger.hand, hself, howner, hown, hgame, Function.update_self,
        htokens]
    · refine tokens_of_eq (room_other hroom hrr) ?_
      rw [hgame]
      exact handAt_update (hat r' hrr) (GamePc.handAt_of_ne hpc hrr) _
  · intro old nr hm r' hr'
    have hrr : r' ≠ r := by
      rintro rfl
      cases hl : L.lock <;> rw [hl] at hm <;> cases hm
      obtain ⟨hg', -⟩ := hP.transfer _ _ old nr (by rw [hl]; rfl)
      rcases hr' with rfl | rfl
      · have := hP.owner_of_place (g := _) (i := _) (r := r') (by rw [hg']; rfl)
        rw [hown] at this
        exact hmoving _ r' (this ▸ hg')
      · exact (hP.not_kept (Or.inr (by rw [hl]; rfl)) g).2 hr
    rw [room_other hroom hrr]
    exact ⟨rfl, rfl⟩
  · intro g' i' r' hg'
    rw [hgame] at hg'
    by_cases hgg : g' = g
    · subst hgg
      rw [Function.update_self] at hg'
      obtain ⟨rfl, hd⟩ := hdying i' r' hg'
      rw [← hflags.dead]
      exact hd
    · rw [Function.update_of_ne hgg] at hg'
      exact h.dying g' i' r' hg'

theorem seat_empty (h : Seats L) (hP : Places L) {g i r : Nat} {e : RoomJoinEntry}
    {js : List RoomJoinEntry} {ls : List RoomLeaveEntry} (hg : L.game g = .joins i r (e :: js) ls) :
    (L.room r).seated e.actorId = none := by
  have hat : (L.game g).place = some (i, r) := by rw [hg]; rfl
  have hkeep : ∀ old nr, L.lock.moving = some (old, nr) → r ≠ old ∧ r ≠ nr := by
    intro old nr hm
    cases hl : L.lock <;> rw [hl] at hm <;> cases hm
    exact hP.not_transfer hat (by simp [hg]) (by rw [hl]; rfl)
  have hhand : L.hand r = e ::ₘ (js : Multiset RoomJoinEntry) := by
    rw [Ledger.hand, hP.owner_of_place hat, hg]
    exact if_pos rfl
  have hs := h.seats r hkeep e.actorId
  have hle := Bool.toNat_le ((L.room r).seatUsed e.actorId)
  rw [Ledger.tokens, hhand, seatCount_add, seatCount_add, seatCount_cons, if_pos rfl,
    seatCount_members] at hs
  cases hn : (L.room r).seated e.actorId with
  | none => rfl
  | some e' =>
    rw [hn] at hs
    simp only [Option.isSome_some, Bool.toNat_true] at hs
    omega

theorem step_seat (h : Seats L) (hP : Places L) {g i r : Nat} {e : RoomJoinEntry}
    {js : List RoomJoinEntry} {ls : List RoomLeaveEntry}
    (hg : L.game g = .joins i r (e :: js) ls) (hlock : L'.lock = L.lock)
    (hfree : L'.freeRooms = L.freeRooms)
    (hroom : L'.room = Function.update L.room r ((L.room r).seat e))
    (hgame : L'.game = Function.update L.game g (.joins i r js ls)) : Seats L' := by
  have hat : (L.game g).place = some (i, r) := by rw [hg]; rfl
  refine h.of_shuffle hP (hP.mem_of_place hat) (fun r' hr' => GamePc.handAt_of_ne hat hr') rfl
    (by simp [hg]) (by rintro _ _ ⟨⟩) hlock hfree hroom hgame ?_ rfl {}
  have hmine : (L.game g).handAt r = e ::ₘ (js : Multiset RoomJoinEntry) := by
    rw [hg]
    exact if_pos rfl
  rw [hmine, RoomBook.members_seat (h.seat_empty hP hg)]
  show _ + _ + (if r = r then (js : Multiset RoomJoinEntry) else 0) = _
  rw [if_pos rfl]
  simp only [RoomBook.seat, ← Multiset.singleton_add]
  abel

theorem step_die (h : Seats L) (hP : Places L) {g i r : Nat} (hg : L.game g = .leaves i r [])
    (hempty : (L.room r).judgedEmpty = true) :
    Seats ((L.modRoom r (·.markDead)).setGame g (.free i r)) := by
  have hat : (L.game g).place = some (i, r) := by rw [hg]; rfl
  have hroom : ((L.modRoom r (·.markDead)).setGame g (.free i r)).room =
    Function.update L.room r (L.room r).markDead := rfl
  have hself := room_self hroom
  have hstill := fun g' i' old nr => hP.not_transfer (k := g') (j := i') (o := old) (n := nr)
    hat (by simp [hg])
  simp only [RoomBook.judgedEmpty, Bool.and_eq_true, beq_iff_eq] at hempty
  obtain ⟨⟨⟨-, hever⟩, hres⟩, -⟩ := hempty
  have hunused := (h.book r).seatUsed_of_zero hres
  have hnone : ∀ r', (L.game g).handAt r' = 0 := by rw [hg]; exact fun _ => rfl
  refine h.of_room (r := r) rfl rfl (hP.not_free_of_mine (hP.mem_of_place hat)) ?_ hstill ?_ ?_ ?_ ?_ ?_
  · intro hf
    have := (h.fresh r hf).2
    rw [hever] at this
    cases this
  · intro r' hr'
    exact ⟨room_other hroom hr', tokens_of_eq (room_other hroom hr')
      (handAt_update (hnone r') (GamePc.handAt_of_ne (i := i) (r := r) rfl hr') _)⟩
  · rw [hself]
    exact .of_free hunused hres
  · intro j
    have hkeep : ∀ old nr, L.lock.moving = some (old, nr) → r ≠ old ∧ r ≠ nr := by
      intro old nr hm
      cases hl : L.lock <;> rw [hl] at hm <;> cases hm
      exact hstill _ _ old nr (by rw [hl]; rfl)
    have htok : ((L.modRoom r (·.markDead)).setGame g (.free i r)).tokens r = L.tokens r := by
      have hhand := handAt_update_same (m := L.game) (g := g) (p := .free i r)
        (fun r' => (hnone r').symm ▸ rfl) (L.room r).owner r
      simp only [Ledger.tokens, Ledger.hand, hself]
      exact congrArg₂ (· + ·) rfl hhand
    rw [htok, hself]
    exact h.seats r hkeep j
  · intro _
    rw [hself]
    rfl
  · intro g' i' r' hg'
    by_cases hgg : g' = g
    · subst hgg
      have heq : GamePc.free i r = .free i' r' := by simpa [Ledger.setGame] using hg'
      cases heq
      rw [hself]
      exact Or.inr rfl
    · simp only [Ledger.setGame, Function.update_of_ne hgg] at hg'
      exact Or.inl hg'

theorem step_freeRoom (h : Seats L) {g i r : Nat} (hg : L.game g = .free i r)
    (hlock : L'.lock = L.lock) (hfree : L'.freeRooms = L.freeRooms ++ [r])
    (hroom : L'.room = L.room) (hgame : L'.game = Function.update L.game g .idle) : Seats L' := by
  have hnone : ∀ r, GamePc.handAt .idle r = (L.game g).handAt r := by rw [hg]; exact fun _ => rfl
  refine h.of_tokens hlock ?_ ?_ ?_ ?_ ?_
  · intro r' hr'
    rw [hfree, List.mem_append, List.mem_singleton] at hr'
    rcases hr' with hr' | rfl
    · exact Or.inl hr'
    · exact Or.inr (h.seatUsed_of_dead (h.dying g i r' hg))
  · intro r'
    rw [hroom]
    exact {}
  · intro r'
    refine tokens_of_eq (by rw [hroom]) ?_
    rw [hgame]
    exact handAt_update_same hnone _ _
  · intro _ _ _ r' _
    rw [hroom]
    exact ⟨rfl, rfl⟩
  · intro g' i' r' hg'
    rw [hgame] at hg'
    by_cases hgg : g' = g
    · subst hgg
      simp at hg'
    · rw [Function.update_of_ne hgg] at hg'
      exact h.dying g' i' r' hg'

theorem of_leavePush (h : Seats L) {r : Nat} {e : RoomLeaveEntry} (hlock : L'.lock = L.lock)
    (hfree : L'.freeRooms = L.freeRooms)
    (hroom : L'.room = Function.update L.room r ((L.room r).pushLeave e))
    (hgame : L'.game = L.game) : Seats L' := by
  have hself := room_self hroom
  have hkeep (r' : Nat) : SameFlags (L.room r') (L'.room r') ∧
      (L'.room r').seated = (L.room r').seated ∧
      (L'.room r').pendingJoin = (L.room r').pendingJoin ∧ L'.tokens r' = L.tokens r' := by
    by_cases hr : r' = r
    · subst hr
      rw [tokens_self hroom hgame rfl, hself]
      exact ⟨{}, rfl, rfl, rfl⟩
    · rw [tokens_other hroom hgame hr, room_other hroom hr]
      exact ⟨{}, rfl, rfl, rfl⟩
  exact h.of_tokens hlock (fun r' hr' => Or.inl (hfree ▸ hr')) (fun r' => (hkeep r').1)
    (fun r' => (hkeep r').2.2.2) (fun _ _ _ r' _ => ⟨(hkeep r').2.1, (hkeep r').2.2.1⟩)
    (fun g i r' hg => h.dying g i r' (hgame ▸ hg))

/-- A promised room is not free. -/
theorem not_free_of_push (h : Seats L) {w idx r : Nat} {i : Seat}
    (hlock : L.lock = .push w idx r i) : r ∉ L.freeRooms ∧ (L.room r).seatUsed i = true := by
  have hs := h.seats r (by rw [hlock]; rintro _ _ ⟨⟩) i
  have hone : L.lock.promised r i = 1 := by
    rw [hlock]
    exact if_pos ⟨rfl, rfl⟩
  rw [hone] at hs
  have hle := Bool.toNat_le ((L.room r).seatUsed i)
  have hused : (L.room r).seatUsed i = true := by
    simpa using (by omega : ((L.room r).seatUsed i).toNat = 1)
  refine ⟨fun hr => ?_, hused⟩
  rw [h.free r hr i] at hused
  cases hused

/-- One step keeps the seats and their holders in agreement. -/
theorem step (h : Seats L) (hP : Places L) {a : Actor} (ht : L.Trans a L') : Seats L' := by
  cases ht with
  | accept w idx hw hidx => exact h.of_quiet rfl rfl rfl rfl
  | refuse w idx hidx => exact h.of_quiet rfl rfl rfl rfl
  | toIdle w hw => exact h.of_quiet rfl rfl rfl rfl
  | toInput w idx r c hw hmem hdead => exact h.of_quiet rfl rfl rfl rfl
  | toJoin w idx hw hmem hdead hroom => exact h.of_quiet rfl rfl rfl rfl
  | cut w idx hw => exact h.of_quiet rfl rfl rfl rfl
  | leaveNone w idx hw hroom => exact h.of_quiet rfl rfl rfl rfl
  | leaveRead w idx hw hroom hcap => exact h.of_quiet rfl rfl rfl rfl
  | leavePush w idx r hw =>
    exact h.of_leavePush (e := ⟨idx, (L.sess idx).gen⟩) rfl rfl rfl rfl
  | netRelease w idx hw => exact h.of_quiet rfl rfl rfl rfl
  | noWorkers w idx hw => exact h.of_quiet rfl rfl rfl rfl
  | scan w idx hw hlock =>
    have hscan : Seats { L with lock := .scan w idx } :=
      h.relock (by rw [hlock]; rfl) rfl (by rw [hlock]; exact fun _ _ => rfl)
        (by rintro _ ⟨⟩) (by rintro _ ⟨⟩)
    exact hscan.of_quiet rfl rfl rfl rfl
  | scanPop w idx hlock => exact h.of_quiet rfl rfl rfl rfl
  | scanTake w idx r i hlock hr hdead hi =>
    exact h.of_scanTake hlock (hP.open_placed r (List.mem_of_getLast? hr)).2.1 hdead hi rfl rfl rfl
      rfl
  | scanRefuse w idx hlock =>
    have hfree : Seats { L with lock := .free } :=
      h.relock (by rw [hlock]; rfl) rfl (by rw [hlock]; exact fun _ _ => rfl)
        (by rintro _ ⟨⟩) (by rintro _ ⟨⟩)
    exact hfree.of_quiet rfl rfl rfl rfl
  | scanAlloc w idx r g hlock hr =>
    exact h.of_alloc hP (List.mem_of_getLast? hr) (by rw [hlock]; rfl)
      (by rw [hlock]; exact fun _ _ => rfl) (hP.mem_dropLast_free hr) rfl (by rintro _ ⟨⟩; rfl)
      (by rintro _ ⟨⟩; rfl) rfl (fun _ _ => rfl) (by rintro _ _ _ _ _ _ _ ⟨⟩)
      (fun _ _ => rfl) (fun _ _ _ => id)
  | mail w idx r hlock =>
    have hfirst : Seats { L with lock := .first w idx r } :=
      h.relock (by rw [hlock]; rfl) rfl (by rw [hlock]; exact fun _ _ => rfl)
        (by rw [hlock]; exact fun _ => id) (by rw [hlock]; exact fun _ => id)
    exact hfirst.of_quiet rfl rfl rfl rfl
  | first w idx r hlock =>
    exact h.of_first hlock (hP.target r (by rw [hlock]; rfl)).2 rfl rfl rfl rfl
  | push w idx r i hlock =>
    exact h.of_push (e := ⟨idx, (L.sess idx).gen, i⟩) hlock (h.not_free_of_push hlock).1 rfl rfl rfl
      rfl rfl
  | store w idx r i hlock =>
    have hfree : Seats { L with lock := .free } :=
      h.relock (by rw [hlock]; rfl) rfl (by rw [hlock]; exact fun _ _ => rfl)
        (by rintro _ ⟨⟩) (by rintro _ ⟨⟩)
    exact hfree.of_quiet rfl rfl rfl rfl
  | close g i old nr hlock => exact h.step_close hP hlock rfl rfl rfl rfl
  | movePass g i old nr seat rest moved joins leaves hlock hseat => exact h.step_movePass hlock hseat
  | moveSeat g i old nr seat rest moved joins leaves e hlock hseat =>
    exact h.step_moveSeat hP hlock hseat rfl rfl rfl rfl
  | moveEnd g i old nr moved joins leaves hlock => exact h.step_moveEnd hP hlock rfl rfl rfl rfl
  | carry g i old nr moved e joins leaves hlock => exact h.step_carry hP hlock rfl rfl rfl rfl
  | finish g i old nr moved leaves hlock => exact h.step_finish hP hlock rfl rfl rfl rfl
  | drain g hg => exact h.of_quiet rfl rfl rfl rfl
  | take g i r hg hr =>
    have hnone : ∀ r', (L.game g).handAt r' = 0 := by rw [hg]; exact fun _ => rfl
    refine h.of_shuffle hP (List.mem_of_getElem? hr) (fun r' _ => hnone r') rfl (by simp [hg])
      (by rintro _ _ ⟨⟩) rfl rfl rfl rfl ?_ rfl {}
    rw [hnone]
    show _ + 0 + (if r = r then ((L.room r).pendingJoin : Multiset RoomJoinEntry) else 0) = _
    rw [if_pos rfl, add_zero, add_zero]
    rfl
  | skip g i r e js ls hg hstale =>
    have hat : (L.game g).place = some (i, r) := by rw [hg]; rfl
    refine h.of_remove hP (e := e) hat rfl (by simp [hg]) (by rintro _ _ ⟨⟩) rfl rfl rfl rfl ?_ rfl rfl rfl
      rfl rfl
    rw [Ledger.tokens, Ledger.hand, hP.owner_of_place hat, hg]
    show _ + (if r = r then ((e :: js : List RoomJoinEntry) : Multiset RoomJoinEntry) else 0) =
      e ::ₘ (_ + (if r = r then (js : Multiset RoomJoinEntry) else 0))
    rw [if_pos rfl, if_pos rfl, ← Multiset.add_cons]
    rfl
  | seat g i r e js ls hg hstale =>
    exact h.step_seat hP hg rfl rfl rfl rfl
  | joinsEnd g i r ls hg =>
    refine h.of_game (fun r' => ?_) (by rintro _ _ ⟨⟩)
    rw [hg]
    show 0 = if r = r' then (([] : List RoomJoinEntry) : Multiset RoomJoinEntry) else 0
    split <;> rfl
  | skipRelease g i r idx js ls hg =>
    have hgame : Seats (L.setGame g (.joins i r js ls)) :=
      h.of_game (by rw [hg]; exact fun _ => rfl) (by rintro _ _ ⟨⟩)
    exact hgame.of_quiet rfl rfl rfl rfl
  | unseat g i r seat e ls hg hseat =>
    have hat : (L.game g).place = some (i, r) := by rw [hg]; rfl
    refine h.of_remove hP (e := ⟨e.sessIdx, e.sessGen, seat⟩) hat rfl (by simp [hg]) (by rintro _ _ ⟨⟩) rfl
      rfl rfl rfl ?_ rfl rfl rfl rfl rfl
    rw [Ledger.tokens, Ledger.hand, hP.owner_of_place hat, hg,
      RoomBook.members_unseat (RoomBook.seated_of_findLeaver hseat), Multiset.cons_add,
      Multiset.cons_add]
    rfl
  | noLeaver g i r e ls hg hseat =>
    exact h.of_game (by rw [hg]; exact fun _ => rfl) (by rintro _ _ ⟨⟩)
  | dropRelease g i r idx ls hg =>
    have hgame : Seats (L.setGame g (.leaves i r ls)) :=
      h.of_game (by rw [hg]; exact fun _ => rfl) (by rintro _ _ ⟨⟩)
    exact hgame.of_quiet rfl rfl rfl rfl
  | die g i r hg hempty => exact h.step_die hP hg hempty
  | live g i r hg => exact h.of_game (by rw [hg]; exact fun _ => rfl) (by rintro _ _ ⟨⟩)
  | freeRoom g i r hg hlock => exact h.step_freeRoom hg rfl rfl rfl rfl
  | exit g i r hg hr => exact h.of_game (by rw [hg]; exact fun _ => rfl) (by rintro _ _ ⟨⟩)
  | stay g i r hg => exact h.of_game (by rw [hg]; exact fun _ => rfl) (by rintro _ _ ⟨⟩)
  | transfer g i old nr hg hlock hnr =>
    refine h.of_alloc hP (List.mem_of_getLast? hnr) (by rw [hlock]; rfl)
      (by rw [hlock]; exact fun _ _ => rfl) (hP.mem_dropLast_free hnr) rfl (by rintro _ ⟨⟩; rfl)
      (by rintro _ ⟨⟩; rfl) rfl (fun _ _ => rfl) (by rintro _ _ _ _ _ _ _ ⟨⟩)
      (handAt_update_same (m := L.game) (by rw [hg]; exact fun _ => rfl)) ?_
    intro g' i' r hg'
    by_cases hgg : g' = g
    · subst hgg
      simp [Ledger.setGame] at hg'
    · simp only [Ledger.setGame, Function.update_of_ne hgg] at hg'
      exact hg'
  | announced g nr hg => exact h.of_game (by rw [hg]; exact fun _ => rfl) (by rintro _ _ ⟨⟩)

end Seats

end BeltServer
