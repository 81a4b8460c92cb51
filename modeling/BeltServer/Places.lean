import BeltServer.Ledger

/-!
# Where a room is

Every room slot is in exactly one place: the free list, a mailbox, a worker's own list, or
in the hand of the holder of the manager lock. Mailboxes and lists hold a worker's own
rooms only, and a worker in the middle of an operation stands at a room of its list.
-/

namespace BeltServer

set_option autoImplicit false

open SwapList

/-- The room slot that is in no list. -/
def LockPc.inHand : LockPc → Option Nat
  | .mail _ _ r => some r
  | .close _ _ _ nr | .move _ _ _ nr _ _ _ _ | .carry _ _ _ nr _ _ _ => some nr
  | _ => none

/-- The room slot that was allocated and is not yet in the open list. -/
def LockPc.unopened : LockPc → Option Nat
  | .first _ _ r => some r
  | pc => pc.inHand

/-- The room that `Join` is about to reserve in, or has reserved in. -/
def LockPc.target : LockPc → Option Nat
  | .first _ _ r | .push _ _ r _ => some r
  | _ => none

/-- The transfer in progress: worker, index, old and new room. -/
def LockPc.transfer : LockPc → Option (Nat × Nat × Nat × Nat)
  | .close g i old nr | .move g i old nr _ _ _ _ | .carry g i old nr _ _ _ => some (g, i, old, nr)
  | _ => none

/-- The index and the room a game worker is at. -/
def GamePc.place : GamePc → Option (Nat × Nat)
  | .idle | .announce _ => none
  | .joins i r _ _ | .skip i r _ _ _ | .leaves i r _ | .drop i r _ _ | .free i r | .exit i r
  | .moving i r => some (i, r)

structure Places (L : Ledger) : Prop where
  placed : ∀ r, L.freeRooms.count r + (L.mail (L.room r).owner).count r +
    (L.myRooms (L.room r).owner).count r + (if L.lock.inHand = some r then 1 else 0) =
      if r < L.cap then 1 else 0
  mail_owner : ∀ g r, r ∈ L.mail g → (L.room r).owner = g
  mine_owner : ∀ g r, r ∈ L.myRooms g → (L.room r).owner = g
  place : ∀ g i r, (L.game g).place = some (i, r) → (L.myRooms g)[i]? = some r
  open_nodup : L.openRooms.Nodup
  open_placed : ∀ r ∈ L.openRooms, r < L.cap ∧ r ∉ L.freeRooms ∧ L.lock.unopened ≠ some r
  transfer : ∀ g i old nr, L.lock.transfer = some (g, i, old, nr) →
    L.game g = .moving i old ∧ (L.room nr).owner = g
  target : ∀ r, L.lock.target = some r → r < L.cap ∧ r ∉ L.freeRooms

structure SamePlaces (L L' : Ledger) : Prop where
  cap : L'.cap = L.cap := by rfl
  free : L'.freeRooms = L.freeRooms := by rfl
  mail : L'.mail = L.mail := by rfl
  mine : L'.myRooms = L.myRooms := by rfl
  owner : ∀ r, (L'.room r).owner = (L.room r).owner := by intro; rfl

theorem owner_update {rooms : Nat → RoomBook} {R : RoomBook} {r : Nat}
    (h : R.owner = (rooms r).owner) (r' : Nat) :
    (Function.update rooms r R r').owner = (rooms r').owner := by
  by_cases hr : r' = r
  · subst hr
    simpa using h
  · rw [Function.update_of_ne hr]

@[simp] theorem RoomBook.carryJoin_owner (R : RoomBook) (e : RoomJoinEntry) :
    (R.carryJoin e).owner = R.owner := by
  unfold carryJoin
  split <;> rfl

theorem not_mem_of_dropLast {l : List Nat} {r r' : Nat} (h : l.getLast? = some r) (hne : r' ≠ r)
    (hr : r' ∉ l.dropLast) : r' ∉ l := by
  rw [← dropLast_append_of_getLast? h]
  simp [hr, hne]

namespace Places

variable {L L' : Ledger}

theorem placed_le (h : Places L) (r : Nat) :
    L.freeRooms.count r + (L.mail (L.room r).owner).count r +
      (L.myRooms (L.room r).owner).count r + (if L.lock.inHand = some r then 1 else 0) ≤ 1 := by
  rw [h.placed r]
  split <;> omega

theorem lt_cap (h : Places L) {r : Nat} (hr : 0 < L.freeRooms.count r +
    (L.mail (L.room r).owner).count r + (L.myRooms (L.room r).owner).count r +
      (if L.lock.inHand = some r then 1 else 0)) : r < L.cap := by
  rw [h.placed r] at hr
  by_contra hcap
  rw [if_neg hcap] at hr
  omega

theorem not_kept (h : Places L) {r : Nat} (hr : r ∈ L.freeRooms ∨ L.lock.inHand = some r) (g : Nat) :
    r ∉ L.mail g ∧ r ∉ L.myRooms g := by
  have hp := h.placed_le r
  have hone : 1 ≤ L.freeRooms.count r + (if L.lock.inHand = some r then 1 else 0) := by
    rcases hr with hr | hr
    · have := List.count_pos_iff.mpr hr
      omega
    · simp [hr]
  constructor
  · intro hmem
    have := List.count_pos_iff.mpr hmem
    rw [h.mail_owner g r hmem] at hp
    omega
  · intro hmem
    have := List.count_pos_iff.mpr hmem
    rw [h.mine_owner g r hmem] at hp
    omega

theorem lt_of_mine (h : Places L) {g r : Nat} (hr : r ∈ L.myRooms g) : r < L.cap := by
  have := List.count_pos_iff.mpr hr
  rw [← h.mine_owner g r hr] at this
  exact h.lt_cap (by omega)

theorem lt_of_inHand (h : Places L) {r : Nat} (hr : L.lock.inHand = some r) : r < L.cap :=
  h.lt_cap (by rw [if_pos hr]; omega)

theorem not_free_of_mine (h : Places L) {g r : Nat} (hr : r ∈ L.myRooms g) : r ∉ L.freeRooms :=
  fun hfree => (h.not_kept (Or.inl hfree) g).2 hr

theorem not_free_of_inHand (h : Places L) {r : Nat} (hr : L.lock.inHand = some r) :
    r ∉ L.freeRooms := by
  intro hfree
  have hp := h.placed_le r
  have := List.count_pos_iff.mpr hfree
  rw [if_pos hr] at hp
  omega

theorem mem_dropLast_free (h : Places L) {r : Nat} (hr : L.freeRooms.getLast? = some r) (r' : Nat)
    (hr' : r' ∈ L.freeRooms.dropLast) : r' ∈ L.freeRooms ∧ r' ≠ r := by
  refine ⟨List.dropLast_subset _ hr', ?_⟩
  rintro rfl
  have hp := h.placed_le r'
  have hcount := count_dropLast hr r'
  have hpos := List.count_pos_iff.mpr hr'
  rw [if_pos rfl] at hcount
  omega

theorem mem_of_place (h : Places L) {g i r : Nat} (hr : (L.game g).place = some (i, r)) :
    r ∈ L.myRooms g :=
  List.mem_of_getElem? (h.place g i r hr)

theorem owner_of_place (h : Places L) {g i r : Nat} (hr : (L.game g).place = some (i, r)) :
    (L.room r).owner = g :=
  h.mine_owner g r (h.mem_of_place hr)

theorem of_same (h : Places L) (hs : SamePlaces L L')
    (hopen : L'.openRooms.Sublist L.openRooms) (hin : L'.lock.inHand = L.lock.inHand)
    (hun : ∀ r, L'.lock.unopened = some r → L.lock.unopened = some r)
    (hplace : ∀ g i r, (L'.game g).place = some (i, r) → (L.myRooms g)[i]? = some r)
    (htransfer : ∀ g i old nr, L'.lock.transfer = some (g, i, old, nr) →
      L.lock.transfer = some (g, i, old, nr) ∧ L'.game g = L.game g)
    (htarget : ∀ r, L'.lock.target = some r →
      L.lock.target = some r ∨ (r < L.cap ∧ r ∉ L.freeRooms)) : Places L' where
  placed r := by
    rw [hs.free, hs.mail, hs.mine, hs.owner, hs.cap, hin]
    exact h.placed r
  mail_owner g r hr := by
    rw [hs.owner]
    exact h.mail_owner g r (hs.mail ▸ hr)
  mine_owner g r hr := by
    rw [hs.owner]
    exact h.mine_owner g r (hs.mine ▸ hr)
  place g i r hr := by
    rw [hs.mine]
    exact hplace g i r hr
  open_nodup := h.open_nodup.sublist hopen
  open_placed r hr := by
    rw [hs.cap, hs.free]
    obtain ⟨hcap, hfree, hnew⟩ := h.open_placed r (hopen.subset hr)
    exact ⟨hcap, hfree, fun heq => hnew (hun r heq)⟩
  transfer g i old nr ht := by
    obtain ⟨ht', hg⟩ := htransfer g i old nr ht
    rw [hg, hs.owner]
    exact h.transfer g i old nr ht'
  target r hr := by
    rw [hs.cap, hs.free]
    exact (htarget r hr).elim (h.target r) id

theorem of_quiet (h : Places L) (hs : SamePlaces L L') (hopen : L'.openRooms = L.openRooms)
    (hlock : L'.lock = L.lock) (hgame : L'.game = L.game) : Places L' :=
  h.of_same hs (hopen ▸ List.Sublist.refl _) (by rw [hlock]) (by rw [hlock]; exact fun _ => id)
    (by rw [hgame]; exact h.place) (by rw [hlock, hgame]; exact fun _ _ _ _ ht => ⟨ht, rfl⟩)
    (by rw [hlock]; exact fun _ => Or.inl)

theorem of_game (h : Places L) {g : Nat} {pc : GamePc} (hs : SamePlaces L L')
    (hopen : L'.openRooms = L.openRooms) (hlock : L'.lock = L.lock)
    (hgame : L'.game = Function.update L.game g pc)
    (hpc : ∀ i r, pc.place = some (i, r) → (L.myRooms g)[i]? = some r)
    (hmoving : ∀ i r, L.game g ≠ .moving i r) : Places L' := by
  refine h.of_same hs (hopen ▸ List.Sublist.refl _) (by rw [hlock]) (by rw [hlock]; exact fun _ => id)
    ?_ ?_ (by rw [hlock]; exact fun _ => Or.inl)
  · intro g' i r hr
    rw [hgame] at hr
    by_cases hg : g' = g
    · subst hg
      rw [Function.update_self] at hr
      exact hpc i r hr
    · rw [Function.update_of_ne hg] at hr
      exact h.place g' i r hr
  · intro g' i old nr ht
    rw [hlock] at ht
    refine ⟨ht, ?_⟩
    have hg : g' ≠ g := by
      rintro rfl
      exact hmoving i old (h.transfer g' i old nr ht).1
    rw [hgame, Function.update_of_ne hg]

theorem of_lock (h : Places L) {pc : LockPc} (hs : SamePlaces L L')
    (hopen : L'.openRooms.Sublist L.openRooms) (hlock : L.lock = pc)
    (hin : L'.lock.inHand = pc.inHand)
    (hun : ∀ r, L'.lock.unopened = some r → pc.unopened = some r)
    (htransfer : ∀ p, L'.lock.transfer = some p → pc.transfer = some p)
    (htarget : ∀ r, L'.lock.target = some r →
      pc.target = some r ∨ (r < L.cap ∧ r ∉ L.freeRooms))
    (hgame : L'.game = L.game) : Places L' := by
  subst hlock
  exact h.of_same hs hopen hin hun (by rw [hgame]; exact h.place)
    (by rw [hgame]; exact fun _ _ _ _ ht => ⟨htransfer _ ht, rfl⟩)
    htarget

theorem same_place (h : Places L) {g : Nat} {p q : GamePc} (hg : L.game g = p)
    (hplace : q.place = p.place) (i r : Nat) (hr : q.place = some (i, r)) :
    (L.myRooms g)[i]? = some r :=
  h.place g i r (by rw [hg, ← hplace, hr])

theorem of_alloc (h : Places L) {r : Nat} {R : RoomBook} (hr : L.freeRooms.getLast? = some r)
    (hhand : L.lock.inHand = none) (hcap : L'.cap = L.cap)
    (hfree : L'.freeRooms = L.freeRooms.dropLast) (hopen : L'.openRooms = L.openRooms)
    (hmail : L'.mail = L.mail) (hmine : L'.myRooms = L.myRooms)
    (hroom : L'.room = Function.update L.room r R)
    (hin : L'.lock.inHand = some r) (hun : L'.lock.unopened = some r)
    (htarget : ∀ r, L'.lock.target ≠ some r)
    (hplace : ∀ g i r, (L'.game g).place = some (i, r) → (L.myRooms g)[i]? = some r)
    (htransfer : ∀ g i old nr, L'.lock.transfer = some (g, i, old, nr) →
      L'.game g = .moving i old ∧ (L'.room nr).owner = g) : Places L' := by
  have hmem : r ∈ L.freeRooms := List.mem_of_getLast? hr
  have hkept := h.not_kept (Or.inl hmem)
  have hne {g r' : Nat} (hr' : r' ∈ L.mail g ∨ r' ∈ L.myRooms g) : r' ≠ r := by
    rintro rfl
    exact hr'.elim (hkept g).1 (hkept g).2
  refine
    { placed := ?_
      mail_owner := ?_
      mine_owner := ?_
      place := by rw [hmine]; exact hplace
      open_nodup := hopen ▸ h.open_nodup
      open_placed := ?_
      transfer := htransfer
      target := fun r' ht => absurd ht (htarget r') }
  · intro r'
    have hp := h.placed r'
    have hcount := count_dropLast hr r'
    rw [hfree, hmail, hmine, hroom, hcap, hin, ← hp, hhand]
    by_cases hr' : r' = r
    · subst hr'
      have hz (g : Nat) := (List.count_eq_zero (a := r')).mpr (hkept g).1
      have hz' (g : Nat) := (List.count_eq_zero (a := r')).mpr (hkept g).2
      simp only [hz, hz', if_true] at hcount ⊢
      simp
      omega
    · rw [if_neg (Ne.symm hr')] at hcount
      simp [Function.update_of_ne hr', Ne.symm hr']
      omega
  · intro g r' hr'
    rw [hmail] at hr'
    rw [hroom, Function.update_of_ne (hne (Or.inl hr'))]
    exact h.mail_owner g r' hr'
  · intro g r' hr'
    rw [hmine] at hr'
    rw [hroom, Function.update_of_ne (hne (Or.inr hr'))]
    exact h.mine_owner g r' hr'
  · intro r' hr'
    obtain ⟨hlt, hnot, _⟩ := h.open_placed r' (hopen ▸ hr')
    refine ⟨hcap ▸ hlt, ?_, ?_⟩
    · rw [hfree]
      exact fun hm => hnot (List.dropLast_subset _ hm)
    · rw [hun]
      rintro ⟨⟩
      exact hnot hmem

theorem step_mail (h : Places L) {w idx r : Nat} (hlock : L.lock = .mail w idx r) :
    Places { L with
      mail := Function.update L.mail (L.room r).owner (L.mail (L.room r).owner ++ [r])
      lock := .first w idx r } := by
  have hin : L.lock.inHand = some r := by rw [hlock]; rfl
  refine { h with
    placed := ?_
    mail_owner := ?_
    open_placed := ?_
    transfer := by rintro _ _ _ _ ⟨⟩
    target := ?_ }
  · intro r'
    have hp := h.placed r'
    rw [← hp, hin]
    dsimp only
    by_cases ho : (L.room r').owner = (L.room r).owner
    · rw [ho, Function.update_self, count_push]
      simp [LockPc.inHand]
      omega
    · have hr : r ≠ r' := by
        rintro rfl
        exact ho rfl
      rw [Function.update_of_ne ho]
      simp [LockPc.inHand, hr]
  · intro g r' hr'
    by_cases hg : g = (L.room r).owner
    · subst hg
      simp only [Function.update_self, List.mem_append, List.mem_singleton] at hr'
      rcases hr' with hr' | rfl
      · exact h.mail_owner _ r' hr'
      · rfl
    · simp only [Function.update_of_ne hg] at hr'
      exact h.mail_owner g r' hr'
  · intro r' hr'
    obtain ⟨hlt, hnot, hun⟩ := h.open_placed r' hr'
    rw [hlock] at hun
    exact ⟨hlt, hnot, hun⟩
  · rintro r' ⟨⟩
    exact ⟨h.lt_of_inHand hin, h.not_free_of_inHand hin⟩

theorem step_first (h : Places L) {w idx r : Nat} (hlock : L.lock = .first w idx r) :
    Places { L.modRoom r (·.openFirst) with
      openRooms := L.openRooms ++ [r]
      lock := .push w idx r firstSeat } := by
  have hnew : r ∉ L.openRooms := fun hr => (h.open_placed r hr).2.2 (by rw [hlock]; rfl)
  have hsame : Places { L.modRoom r (·.openFirst) with lock := .push w idx r firstSeat } :=
    h.of_lock { owner := owner_update rfl } (.refl _) hlock rfl (by rintro _ ⟨⟩) (by rintro _ ⟨⟩)
      (fun _ ht => Or.inl ht) rfl
  refine { hsame with
    open_nodup := nodup_push h.open_nodup hnew
    open_placed := ?_ }
  intro r' hr'
  rcases List.mem_append.mp hr' with hr' | hr'
  · exact hsame.open_placed r' hr'
  · obtain rfl := List.mem_singleton.mp hr'
    obtain ⟨hlt, hnot⟩ := h.target r' (by rw [hlock]; rfl)
    exact ⟨hlt, hnot, by rintro ⟨⟩⟩

/-- The end of a transfer: the new room takes the old one's place, which is freed. -/
theorem of_finish (h : Places L) {g i old nr : Nat} {moved : Int} {leaves : List RoomLeaveEntry}
    (hlock : L.lock = .carry g i old nr moved [] leaves)
    (hcap : L'.cap = L.cap) (hfree : L'.freeRooms = L.freeRooms ++ [old])
    (hopen : L'.openRooms = swapRemove L.openRooms old ++ [nr] ∨
      L'.openRooms = swapRemove L.openRooms old)
    (hmail : L'.mail = L.mail)
    (hmine : L'.myRooms = Function.update L.myRooms g ((L.myRooms g).set i nr))
    (howner : ∀ r, (L'.room r).owner = (L.room r).owner) (hlock' : L'.lock = .free)
    (hgame : L'.game = Function.update L.game g (.announce nr)) : Places L' := by
  have hin : L.lock.inHand = some nr := by rw [hlock]; rfl
  obtain ⟨hg, hnr⟩ := h.transfer g i old nr (by rw [hlock]; rfl)
  have hat : (L.myRooms g)[i]? = some old := h.place g i old (by rw [hg]; rfl)
  have hold : (L.room old).owner = g := h.mine_owner g old (List.mem_of_getElem? hat)
  have hne : nr ≠ old := by
    rintro rfl
    exact (h.not_kept (Or.inr hin) g).2 (List.mem_of_getElem? hat)
  have hremoved {r : Nat} (hr : r ∈ swapRemove L.openRooms old) :
      r < L.cap ∧ r ∉ L.freeRooms ++ [old] ∧ r ≠ nr := by
    obtain ⟨hmem, hro⟩ := (mem_swapRemove h.open_nodup).mp hr
    obtain ⟨hlt, hnot, hun⟩ := h.open_placed r hmem
    refine ⟨hlt, by simp [hnot, hro], ?_⟩
    rintro rfl
    exact hun (by rw [hlock]; rfl)
  have hnrfree : nr ∉ L.freeRooms ++ [old] := by simp [h.not_free_of_inHand hin, hne]
  refine
    { placed := ?_
      mail_owner := ?_
      mine_owner := ?_
      place := ?_
      open_nodup := ?_
      open_placed := ?_
      transfer := by rw [hlock']; rintro _ _ _ _ ⟨⟩
      target := by rw [hlock']; rintro _ ⟨⟩ }
  · intro r
    rw [howner, hfree, hmail, hmine, hcap, hlock', count_push]
    refine Eq.trans ?_ (h.placed r)
    rw [hin]
    by_cases ho : (L.room r).owner = g
    · have hset := count_set hat nr r
      rw [ho, Function.update_self]
      simp only [LockPc.inHand, Option.some.injEq, reduceCtorEq, if_false]
      omega
    · have hr : old ≠ r ∧ nr ≠ r := ⟨by rintro rfl; exact ho hold, by rintro rfl; exact ho hnr⟩
      rw [Function.update_of_ne ho]
      simp [LockPc.inHand, hr.1, hr.2]
  · intro g' r hr
    rw [hmail] at hr
    exact (howner r).trans (h.mail_owner g' r hr)
  · intro g' r hr
    rw [hmine] at hr
    refine (howner r).trans ?_
    by_cases hg' : g' = g
    · subst hg'
      rw [Function.update_self] at hr
      rcases List.mem_or_eq_of_mem_set hr with hr | rfl
      · exact h.mine_owner g' r hr
      · exact hnr
    · rw [Function.update_of_ne hg'] at hr
      exact h.mine_owner g' r hr
  · intro g' i' r hr
    rw [hgame] at hr
    rw [hmine]
    by_cases hg' : g' = g
    · subst hg'
      simp [GamePc.place] at hr
    · rw [Function.update_of_ne hg'] at hr ⊢
      exact h.place g' i' r hr
  · have hnd := nodup_swapRemove h.open_nodup old
    rcases hopen with hopen | hopen
    · rw [hopen]
      exact nodup_push hnd fun hmem => (hremoved hmem).2.2 rfl
    · rw [hopen]
      exact hnd
  · intro r hr
    have hr' : r ∈ swapRemove L.openRooms old ∨ r = nr := by
      rcases hopen with hopen | hopen
      · simpa [hopen] using hr
      · exact Or.inl (hopen ▸ hr)
    rw [hcap, hfree, hlock']
    rcases hr' with hr' | rfl
    · exact ⟨(hremoved hr').1, (hremoved hr').2.1, by rintro ⟨⟩⟩
    · exact ⟨h.lt_of_inHand hin, hnrfree, by rintro ⟨⟩⟩

theorem step_drain (h : Places L) {g : Nat} (hg : L.game g = .idle) :
    Places { L with
      myRooms := Function.update L.myRooms g (L.myRooms g ++ L.mail g)
      mail := Function.update L.mail g [] } := by
  refine { h with placed := ?_, mail_owner := ?_, mine_owner := ?_, place := ?_ }
  · intro r
    refine Eq.trans ?_ (h.placed r)
    dsimp only
    by_cases ho : (L.room r).owner = g
    · rw [ho, Function.update_self, Function.update_self, List.count_append]
      simp only [List.count_nil]
      omega
    · rw [Function.update_of_ne ho, Function.update_of_ne ho]
  · intro g' r hr
    by_cases hg' : g' = g
    · subst hg'
      simp at hr
    · simp only [Function.update_of_ne hg'] at hr
      exact h.mail_owner g' r hr
  · intro g' r hr
    by_cases hg' : g' = g
    · subst hg'
      simp only [Function.update_self, List.mem_append] at hr
      exact hr.elim (h.mine_owner g' r) (h.mail_owner g' r)
    · simp only [Function.update_of_ne hg'] at hr
      exact h.mine_owner g' r hr
  · intro g' i r hr
    have hg' : g' ≠ g := by
      rintro rfl
      simp [hg, GamePc.place] at hr
    simp only [Function.update_of_ne hg']
    exact h.place g' i r hr

theorem of_freeRoom (h : Places L) {g i r : Nat} (hg : L.game g = .free i r)
    (hlock : L.lock = .free) (hcap : L'.cap = L.cap) (hfree : L'.freeRooms = L.freeRooms ++ [r])
    (hopen : L'.openRooms = swapRemove L.openRooms r) (hmail : L'.mail = L.mail)
    (hmine : L'.myRooms = Function.update L.myRooms g (swapRemoveAt (L.myRooms g) i))
    (hroom : L'.room = L.room) (hlock' : L'.lock = L.lock)
    (hgame : L'.game = Function.update L.game g .idle) : Places L' := by
  have hat : (L.myRooms g)[i]? = some r := h.place g i r (by rw [hg]; rfl)
  have hown : (L.room r).owner = g := h.mine_owner g r (List.mem_of_getElem? hat)
  refine
    { placed := ?_
      mail_owner := by rw [hmail, hroom]; exact h.mail_owner
      mine_owner := ?_
      place := ?_
      open_nodup := hopen ▸ nodup_swapRemove h.open_nodup r
      open_placed := ?_
      transfer := by rw [hlock', hlock]; rintro _ _ _ _ ⟨⟩
      target := by rw [hlock', hlock]; rintro _ ⟨⟩ }
  · intro r'
    rw [hroom, hfree, hmail, hmine, hcap, hlock', count_push]
    refine Eq.trans ?_ (h.placed r')
    by_cases ho : (L.room r').owner = g
    · have hrem := count_swapRemoveAt hat r'
      rw [ho, Function.update_self]
      omega
    · have hr' : r ≠ r' := by
        rintro rfl
        exact ho hown
      rw [Function.update_of_ne ho, if_neg hr', Nat.add_zero]
  · intro g' r' hr'
    rw [hmine] at hr'
    rw [hroom]
    by_cases hg' : g' = g
    · subst hg'
      rw [Function.update_self] at hr'
      exact h.mine_owner g' r' ((swapRemoveAt_perm hat).mem_iff.mp (List.mem_cons_of_mem _ hr'))
    · rw [Function.update_of_ne hg'] at hr'
      exact h.mine_owner g' r' hr'
  · intro g' i' r' hr'
    rw [hgame] at hr'
    rw [hmine]
    by_cases hg' : g' = g
    · subst hg'
      simp [GamePc.place] at hr'
    · rw [Function.update_of_ne hg'] at hr' ⊢
      exact h.place g' i' r' hr'
  · intro r' hr'
    obtain ⟨hmem, hro⟩ := (mem_swapRemove h.open_nodup).mp (hopen ▸ hr')
    obtain ⟨hlt, hnot, hun⟩ := h.open_placed r' hmem
    rw [hcap, hfree, hlock']
    exact ⟨hlt, by simp [hnot, hro], hun⟩

/-- One step keeps every room slot in one place. -/
theorem step (h : Places L) {a : Actor} (ht : L.Trans a L') : Places L' := by
  cases ht with
  | accept w idx hw hidx => exact h.of_quiet {} rfl rfl rfl
  | refuse w idx hidx => exact h.of_quiet {} rfl rfl rfl
  | toIdle w hw => exact h.of_quiet {} rfl rfl rfl
  | toInput w idx r c hw hmem hdead => exact h.of_quiet {} rfl rfl rfl
  | toJoin w idx hw hmem hdead hroom => exact h.of_quiet {} rfl rfl rfl
  | cut w idx hw => exact h.of_quiet {} rfl rfl rfl
  | leaveNone w idx hw hroom => exact h.of_quiet {} rfl rfl rfl
  | leaveRead w idx hw hroom hcap => exact h.of_quiet {} rfl rfl rfl
  | leavePush w idx r hw => exact h.of_quiet { owner := owner_update rfl } rfl rfl rfl
  | netRelease w idx hw => exact h.of_quiet {} rfl rfl rfl
  | noWorkers w idx hw => exact h.of_quiet {} rfl rfl rfl
  | scan w idx hw hlock =>
    exact h.of_lock {} (.refl _) hlock rfl (by rintro _ ⟨⟩) (by rintro _ ⟨⟩) (by rintro _ ⟨⟩) rfl
  | scanPop w idx hlock =>
    exact h.of_same {} (List.dropLast_sublist _) rfl (fun _ => id) h.place
      (fun _ _ _ _ ht => ⟨ht, rfl⟩) (fun _ => Or.inl)
  | scanTake w idx r i hlock hr hdead hi =>
    refine h.of_lock { owner := owner_update rfl } ?_ hlock rfl (by rintro _ ⟨⟩) (by rintro _ ⟨⟩) ?_ rfl
    rotate_left
    · rintro r' ⟨⟩
      obtain ⟨hlt, hnot, -⟩ := h.open_placed r (List.mem_of_getLast? hr)
      exact Or.inr ⟨hlt, hnot⟩
    show (if _ then _ else _ : List Nat).Sublist _
    split
    · exact List.dropLast_sublist _
    · exact .refl _
  | scanRefuse w idx hlock =>
    exact h.of_lock {} (.refl _) hlock rfl (by rintro _ ⟨⟩) (by rintro _ ⟨⟩) (by rintro _ ⟨⟩) rfl
  | scanAlloc w idx r g hlock hr =>
    exact h.of_alloc hr (by rw [hlock]; rfl) rfl rfl rfl rfl rfl rfl rfl rfl (by rintro _ ⟨⟩) h.place
      (by rintro _ _ _ _ ⟨⟩)
  | mail w idx r hlock => exact h.step_mail hlock
  | first w idx r hlock => exact h.step_first hlock
  | push w idx r i hlock =>
    exact h.of_lock { owner := owner_update rfl } (.refl _) hlock rfl
      (by rintro _ ⟨⟩) (by rintro _ ⟨⟩) (by rintro _ ⟨⟩) rfl
  | store w idx r i hlock =>
    exact h.of_lock {} (.refl _) hlock rfl (by rintro _ ⟨⟩) (by rintro _ ⟨⟩) (by rintro _ ⟨⟩) rfl
  | close g i old nr hlock =>
    exact h.of_lock { owner := owner_update rfl } (.refl _) hlock rfl (fun _ => id) (fun _ => id)
      (by rintro _ ⟨⟩) rfl
  | movePass g i old nr seat rest moved joins leaves hlock hseat =>
    exact h.of_lock {} (.refl _) hlock rfl (fun _ => id) (fun _ => id) (by rintro _ ⟨⟩) rfl
  | moveSeat g i old nr seat rest moved joins leaves e hlock hseat =>
    exact h.of_lock { owner := fun r => (owner_update (by rfl) r).trans (owner_update (by rfl) r) } (.refl _)
      hlock rfl (fun _ => id) (fun _ => id) (by rintro _ ⟨⟩) rfl
  | moveEnd g i old nr moved joins leaves hlock =>
    exact h.of_lock { owner := fun r => (owner_update (by rfl) r).trans (owner_update (by rfl) r) } (.refl _)
      hlock rfl (fun _ => id) (fun _ => id) (by rintro _ ⟨⟩) rfl
  | carry g i old nr moved e joins leaves hlock =>
    exact h.of_lock { owner := owner_update (RoomBook.carryJoin_owner _ _) } (.refl _) hlock rfl
      (fun _ => id) (fun _ => id) (by rintro _ ⟨⟩) rfl
  | finish g i old nr moved leaves hlock =>
    refine h.of_finish hlock rfl rfl ?_ rfl rfl (owner_update rfl) rfl rfl
    dsimp only [Ledger.setGame]
    split
    · exact Or.inl rfl
    · exact Or.inr rfl
  | drain g hg => exact h.step_drain hg
  | take g i r hg hr =>
    refine h.of_game { owner := owner_update rfl } rfl rfl rfl ?_ (by simp [hg])
    rintro i' r' ⟨⟩
    exact hr
  | skip g i r e js ls hg hstale =>
    exact h.of_game { owner := owner_update rfl } rfl rfl rfl (h.same_place hg rfl) (by simp [hg])
  | seat g i r e js ls hg hstale =>
    exact h.of_game { owner := owner_update rfl } rfl rfl rfl (h.same_place hg rfl) (by simp [hg])
  | joinsEnd g i r ls hg =>
    exact h.of_game {} rfl rfl rfl (h.same_place hg rfl) (by simp [hg])
  | skipRelease g i r idx js ls hg =>
    exact h.of_game {} rfl rfl rfl (h.same_place hg rfl) (by simp [hg])
  | unseat g i r seat e ls hg hseat =>
    exact h.of_game { owner := owner_update rfl } rfl rfl rfl (h.same_place hg rfl) (by simp [hg])
  | noLeaver g i r e ls hg hseat =>
    exact h.of_game {} rfl rfl rfl (h.same_place hg rfl) (by simp [hg])
  | dropRelease g i r idx ls hg =>
    exact h.of_game {} rfl rfl rfl (h.same_place hg rfl) (by simp [hg])
  | die g i r hg hempty =>
    exact h.of_game { owner := owner_update rfl } rfl rfl rfl (h.same_place hg rfl) (by simp [hg])
  | live g i r hg => exact h.of_game {} rfl rfl rfl (by rintro _ _ ⟨⟩) (by simp [hg])
  | freeRoom g i r hg hlock => exact h.of_freeRoom hg hlock rfl rfl rfl rfl rfl rfl rfl rfl
  | exit g i r hg hr =>
    refine h.of_game {} rfl rfl rfl ?_ (by simp [hg])
    rintro i' r' ⟨⟩
    exact hr
  | stay g i r hg => exact h.of_game {} rfl rfl rfl (by rintro _ _ ⟨⟩) (by simp [hg])
  | transfer g i old nr hg hlock hnr =>
    have hown : (L.room old).owner = g := h.owner_of_place (by rw [hg]; rfl)
    refine h.of_alloc hnr (by rw [hlock]; rfl) rfl rfl rfl rfl rfl rfl rfl rfl (by rintro _ ⟨⟩) ?_ ?_
    · intro g' i' r hr
      by_cases hg' : g' = g
      · subst hg'
        exact h.same_place hg (q := .moving i old) rfl i' r (by simpa [Ledger.setGame] using hr)
      · simp only [Ledger.setGame, Function.update_of_ne hg'] at hr
        exact h.place g' i' r hr
    · rintro g' i' old' nr' ⟨⟩
      exact ⟨by simp [Ledger.setGame], by simp [Ledger.setGame, Ledger.modRoom, Books.modRoom,
        RoomBook.fresh, hown]⟩
  | announced g nr hg => exact h.of_game {} rfl rfl rfl (by rintro _ _ ⟨⟩) (by simp [hg])

end Places

end BeltServer
