import BeltServer.Vacancy
import BeltServer.Leaving
import BeltServer.TickOnce

/-!
# An empty server owns nothing

When the last client is gone, its session and its room are not free yet: the leave entries
of the players are still in the queues of their rooms. One `TickOnce` of every worker that
has a room, in any order, finds them all; then every slot of both pools is free again.
-/

namespace BeltServer

set_option autoImplicit false

open Runs SwapList

/-- The room has seen a reservation and is not dead. -/
def RoomBook.Stands (R : RoomBook) : Prop := R.everReserved = true ∧ R.dead = false

theorem Places.lt_of_mail {L : Ledger} (h : Places L) {g r : Nat} (hr : r ∈ L.mail g) :
    r < L.cap := by
  have := List.count_pos_iff.mpr hr
  rw [← h.mail_owner g r hr] at this
  exact h.lt_cap (by omega)

namespace Ledger

variable {L L' : Ledger}

/-- A session that is held and not cut is on its owner's list. -/
def Attended (L : Ledger) : Prop :=
  ∀ idx, (L.sess idx).dead = false → 0 < (L.sess idx).refs → idx ∈ L.mySessions (L.sess idx).owner

/-- The slot is free, or somebody is in the middle of opening or freeing the room. -/
def Between (L : Ledger) (r : Nat) : Prop :=
  r ∈ L.freeRooms ∨ L.lock.unopened = some r ∨ L.lock.emptying = some r ∨
    ∃ g i, L.game g = .free i r

/-- Every other room can be judged empty. -/
def RoomsStand (L : Ledger) : Prop := ∀ r < L.cap, L.Between r ∨ (L.room r).Stands

theorem Trans.caps {a : Actor} (ht : L.Trans a L') : L'.cap = L.cap ∧ L'.sessCap = L.sessCap := by
  cases ht <;> exact ⟨rfl, rfl⟩

namespace Attended

theorem of_sess (h : L.Attended) {idx : Nat} {S : SessBook}
    (hsess : L'.sess = Function.update L.sess idx S)
    (hconns : ∀ w j, j ∈ L.mySessions w → j ∈ L'.mySessions w)
    (hS : S.dead = false → 0 < S.refs → idx ∈ L'.mySessions S.owner) : L'.Attended := by
  intro j hdead hrefs
  rw [hsess] at hdead hrefs ⊢
  rcases eq_or_ne j idx with rfl | hj
  · rw [Function.update_self] at hdead hrefs ⊢
    exact hS hdead hrefs
  · rw [Function.update_of_ne hj] at hdead hrefs ⊢
    exact hconns _ j (h j hdead hrefs)

theorem of_less (h : L.Attended) {idx : Nat} {S : SessBook}
    (hsess : L'.sess = Function.update L.sess idx S) (hconns : L'.mySessions = L.mySessions)
    (hdead : S.dead = (L.sess idx).dead) (howner : S.owner = (L.sess idx).owner)
    (hrefs : S.refs ≤ (L.sess idx).refs) : L'.Attended := by
  refine h.of_sess hsess (fun _ _ hj => hconns ▸ hj) fun hd hpos => ?_
  rw [hconns, howner]
  exact h idx (hdead ▸ hd) (by omega)

theorem step (h : L.Attended) (hs : Consistent L) {a : Actor} (ht : L.Trans a L') :
    L'.Attended := by
  cases ht with
  | accept w idx hw hidx =>
    refine h.of_sess (S := (L.sess idx).opened w) rfl ?_ fun _ _ => ?_
    · intro w' j hj
      show j ∈ Function.update L.mySessions w (L.mySessions w ++ [idx]) w'
      rcases eq_or_ne w' w with rfl | hne
      · rw [Function.update_self]
        exact List.mem_append_left _ hj
      · rw [Function.update_of_ne hne]
        exact hj
    · show idx ∈ Function.update L.mySessions w (L.mySessions w ++ [idx]) w
      rw [Function.update_self]
      exact List.mem_append_right _ (List.mem_singleton_self idx)
  | refuse w idx hidx =>
    exact h.of_sess (S := (L.sess idx).refused w) rfl (fun _ _ hj => hj) nofun
  | cut w idx hw => exact h.of_sess (S := (L.sess idx).cut) rfl (fun _ _ hj => hj) nofun
  | leaveRead w idx hw =>
    exact h.of_less (S := (L.sess idx).left) rfl rfl rfl rfl (le_refl _)
  | netRelease w idx hw =>
    have hmem := hs.refs.net w idx (by rw [hw]; rfl)
    have hdead := (hs.refs.dead w idx hmem).mpr (by rw [hw]; rfl)
    intro j hd hrefs
    have hkeep {β : Type} (f : SessBook → β) (hf : f (L.sess idx).released = f (L.sess idx)) :=
      sess_update (m := L.sess) (S := (L.sess idx).released) f hf j
    have hd' : (L.sess j).dead = false := (hkeep (·.dead) rfl).symm.trans hd
    have hj : j ≠ idx := by
      rintro rfl
      rw [hdead] at hd'
      cases hd'
    have hsess : Function.update L.sess idx (L.sess idx).released j = L.sess j :=
      Function.update_of_ne hj ..
    replace hrefs : 0 < (L.sess j).refs := hsess ▸ hrefs
    have hold := h j hd' hrefs
    show j ∈ Function.update L.mySessions w (swapRemove (L.mySessions w) idx)
      (Function.update L.sess idx (L.sess idx).released j).owner
    rw [hsess]
    rcases eq_or_ne (L.sess j).owner w with how | how
    · rw [how, Function.update_self]
      exact (mem_swapRemove (hs.refs.conns_nodup w)).mpr ⟨how ▸ hold, hj⟩
    · rw [Function.update_of_ne how]
      exact hold
  | push w idx r i hlock =>
    have hjoin := hs.refs.joiner w idx (by rw [hlock]; rfl)
    have hmem := hs.refs.net w idx (by rw [hjoin]; rfl)
    refine h.of_sess (S := (L.sess idx).addRef) rfl (fun _ _ hj => hj) fun _ _ => ?_
    rw [show (L.sess idx).addRef.owner = w from (hs.refs.conns w idx hmem).1]
    exact hmem
  | store w idx r i hlock =>
    exact h.of_less (S := (L.sess idx).placed r i) rfl rfl rfl rfl (le_refl _)
  | moveSeat g i old nr seat rest moved joins leaves e hlock hseat =>
    have hkeep {β : Type} (f : SessBook → β) (hf : ∀ S r, f { S with roomIdx := r } = f S) :=
      SessBook.moved_keeps f hf (L.sess e.sessIdx) e.sessGen nr
    exact h.of_less (S := (L.sess e.sessIdx).moved e.sessGen nr) rfl rfl
      (hkeep (·.dead) fun _ _ => rfl) (hkeep (·.owner) fun _ _ => rfl)
      (le_of_eq (hkeep (·.refs) fun _ _ => rfl))
  | carry g i old nr moved e joins leaves hlock =>
    have hkeep {β : Type} (f : SessBook → β) (hf : ∀ S r, f { S with roomIdx := r } = f S) :=
      SessBook.moved_keeps f hf (L.sess e.sessIdx) e.sessGen nr
    exact h.of_less (S := (L.sess e.sessIdx).moved e.sessGen nr) rfl rfl
      (hkeep (·.dead) fun _ _ => rfl) (hkeep (·.owner) fun _ _ => rfl)
      (le_of_eq (hkeep (·.refs) fun _ _ => rfl))
  | skipRelease g i r idx js ls hg | dropRelease g i r idx ls hg =>
    have hless : (L.sess idx).released.refs ≤ (L.sess idx).refs := by
      show (L.sess idx).refs - 1 ≤ (L.sess idx).refs
      omega
    exact h.of_less (S := (L.sess idx).released) rfl rfl rfl rfl hless
  | _ => exact h

end Attended

namespace RoomsStand

theorem of_room (h : L.RoomsStand) {x : Nat} (hcap : L'.cap = L.cap)
    (hx : L'.Between x ∨ (L'.room x).Stands)
    (hbetween : ∀ r, r ≠ x → L.Between r → L'.Between r ∨ (L'.room r).Stands)
    (hstands : ∀ r, r ≠ x → (L.room r).Stands → (L'.room r).Stands) : L'.RoomsStand := by
  intro r hr
  rcases eq_or_ne r x with rfl | hne
  · exact hx
  · rcases h r (hcap ▸ hr) with hold | hold
    · exact hbetween r hne hold
    · exact Or.inr (hstands r hne hold)

theorem of_same (h : L.RoomsStand) (hcap : L'.cap = L.cap) (hfree : L'.freeRooms = L.freeRooms)
    (hopen : L'.lock.unopened = L.lock.unopened) (hemptying : L'.lock.emptying = L.lock.emptying)
    (hgame : ∀ g i r, L.game g = .free i r → L'.game g = .free i r)
    (hstands : ∀ r, (L.room r).Stands → (L'.room r).Stands) : L'.RoomsStand := by
  intro r hr
  refine (h r (hcap ▸ hr)).imp ?_ (hstands r)
  rintro (hr | hr | hr | ⟨g, i, hg⟩)
  · exact Or.inl (hfree ▸ hr)
  · exact Or.inr (Or.inl (hopen.trans hr))
  · exact Or.inr (Or.inr (Or.inl (hemptying.trans hr)))
  · exact Or.inr (Or.inr (Or.inr ⟨g, i, hgame g i r hg⟩))

theorem stands_update {m : Nat → RoomBook} {x : Nat} {R : RoomBook}
    (hR : (m x).Stands → R.Stands) (r : Nat) (h : (m r).Stands) :
    (Function.update m x R r).Stands := by
  rcases eq_or_ne r x with rfl | hr
  · rw [Function.update_self]
    exact hR h
  · rw [Function.update_of_ne hr]
    exact h

theorem free_update (game : Nat → GamePc) {g : Nat} {p : GamePc} (hg : ∀ i r, game g ≠ .free i r)
    (g' i r : Nat) (h : game g' = .free i r) : Function.update game g p g' = .free i r := by
  rcases eq_or_ne g' g with rfl | hne
  · exact absurd h (hg i r)
  · rw [Function.update_of_ne hne]
    exact h

theorem of_alloc (h : L.RoomsStand) {x : Nat} (hx : L.freeRooms.getLast? = some x)
    (hcap : L'.cap = L.cap) (hfree : L'.freeRooms = L.freeRooms.dropLast)
    (hopen : L.lock.unopened = none) (hemptying : L.lock.emptying = none)
    (hhand : L'.lock.unopened = some x)
    (hgame : ∀ g i r, L.game g = .free i r → L'.game g = .free i r)
    (hroom : ∀ r, r ≠ x → L'.room r = L.room r) : L'.RoomsStand := by
  refine h.of_room (x := x) hcap (Or.inl (Or.inr (Or.inl hhand))) ?_ ?_
  · rintro r hr (hold | hold | hold | ⟨g, i, hg⟩)
    · refine Or.inl (Or.inl ?_)
      by_contra hnot
      rw [hfree] at hnot
      exact not_mem_of_dropLast hx hr hnot hold
    · rw [hopen] at hold
      cases hold
    · rw [hemptying] at hold
      cases hold
    · exact Or.inl (Or.inr (Or.inr (Or.inr ⟨g, i, hgame g i r hg⟩)))
  · intro r hr hold
    rw [hroom r hr]
    exact hold

/-- A room loses its standing only to be emptied or freed. -/
theorem step (h : L.RoomsStand) (hs : Consistent L) {a : Actor} (ht : L.Trans a L') :
    L'.RoomsStand := by
  cases ht with
  | accept | refuse | toIdle | toInput | toJoin | cut | leaveNone | leaveRead | netRelease
  | noWorkers => exact h
  | leavePush w idx r hw =>
    exact h.of_same rfl rfl rfl rfl (fun _ _ _ => id) (stands_update id)
  | scan w idx hw hlock | scanRefuse w idx hlock =>
    exact h.of_same rfl rfl (by rw [hlock]; rfl) (by rw [hlock]; rfl) (fun _ _ _ => id) fun _ => id
  | scanPop w idx hlock => exact h
  | scanTake w idx r i hlock =>
    exact h.of_same rfl rfl (by rw [hlock]; rfl) (by rw [hlock]; rfl) (fun _ _ _ => id)
      (stands_update fun hr => ⟨rfl, hr.2⟩)
  | scanAlloc w idx r g hlock hr =>
    exact h.of_alloc hr rfl rfl (by rw [hlock]; rfl) (by rw [hlock]; rfl) rfl (fun _ _ _ => id)
      fun r' hr' => Function.update_of_ne hr' ..
  | mail w idx r hlock =>
    exact h.of_same rfl rfl (by rw [hlock]; rfl) (by rw [hlock]; rfl) (fun _ _ _ => id) fun _ => id
  | first w idx r hlock =>
    have hdead := hs.seats.unopened r (by rw [hlock]; rfl)
    refine h.of_room (x := r) rfl (Or.inr ?_) ?_ fun r' hr' hold => ?_
    · show (Function.update L.room r (L.room r).openFirst r).Stands
      rw [Function.update_self]
      exact ⟨rfl, hdead⟩
    · rintro r' hr' (hold | hold | hold | hold)
      · exact Or.inl (Or.inl hold)
      · rw [hlock] at hold
        cases hold
        exact absurd rfl hr'
      · rw [hlock] at hold
        cases hold
      · exact Or.inl (Or.inr (Or.inr (Or.inr hold)))
    · exact stands_update (R := (L.room r).openFirst) (fun hr => ⟨rfl, hr.2⟩) r' hold
  | push w idx r i hlock =>
    exact h.of_same rfl rfl (by rw [hlock]; rfl) (by rw [hlock]; rfl) (fun _ _ _ => id)
      (stands_update id)
  | store w idx r i hlock =>
    exact h.of_same rfl rfl (by rw [hlock]; rfl) (by rw [hlock]; rfl) (fun _ _ _ => id) fun _ => id
  | close g i old nr hlock =>
    refine h.of_room (x := old) rfl (Or.inl (Or.inr (Or.inr (Or.inl rfl)))) ?_ fun r hr hold => ?_
    · rintro r hr (hold | hold | hold | hold)
      · exact Or.inl (Or.inl hold)
      · rw [hlock] at hold
        exact Or.inl (Or.inr (Or.inl hold))
      · rw [hlock] at hold
        cases hold
      · exact Or.inl (Or.inr (Or.inr (Or.inr hold)))
    · show (Function.update L.room old (L.room old).close r).Stands
      rw [Function.update_of_ne hr]
      exact hold
  | movePass g i old nr seat rest moved joins leaves hlock =>
    exact h.of_same rfl rfl (by rw [hlock]; rfl) (by rw [hlock]; rfl) (fun _ _ _ => id) fun _ => id
  | moveSeat g i old nr seat rest moved joins leaves e hlock hseat =>
    exact h.of_same rfl rfl (by rw [hlock]; rfl) (by rw [hlock]; rfl) (fun _ _ _ => id)
      fun r hr => stands_update (by exact id) r (stands_update (by exact id) r hr)
  | moveEnd g i old nr moved joins leaves hlock =>
    refine h.of_same rfl rfl (by rw [hlock]; rfl) (by rw [hlock]; rfl) (fun _ _ _ => id) fun r hr => ?_
    have hopened : (Function.update L.room nr (L.room nr).openMoved r).Stands :=
      stands_update (R := (L.room nr).openMoved) (fun hnr => ⟨rfl, hnr.2⟩) r hr
    exact stands_update (by exact id) r hopened
  | carry g i old nr moved e joins leaves hlock =>
    have hkeep (R : RoomBook) (hR : R.Stands) : (R.carryJoin e).Stands := by
      unfold RoomBook.carryJoin
      split
      · exact hR
      · exact hR
    exact h.of_same rfl rfl (by rw [hlock]; rfl) (by rw [hlock]; rfl) (fun _ _ _ => id)
      (stands_update (hkeep _))
  | finish g i old nr moved leaves hlock =>
    have hfree : old ∈ L.freeRooms ++ [old] := List.mem_append_right _ (List.mem_singleton_self old)
    have hnr := (hs.seats.carry g i old nr moved [] leaves hlock).1
    have hdead := hs.seats.unopened nr (by rw [hlock]; rfl)
    refine h.of_room (x := old) rfl (Or.inl (Or.inl hfree)) ?_ fun r hr hold => ?_
    · rintro r hr (hold | hold | hold | ⟨g', i', hold⟩)
      · exact Or.inl (Or.inl (List.mem_append_left _ hold))
      · rw [hlock] at hold
        cases hold
        refine Or.inr ?_
        show (Function.update L.room nr ((L.room nr).finish moved leaves) nr).Stands
        rw [Function.update_self]
        exact ⟨hnr, hdead⟩
      · rw [hlock] at hold
        cases hold
        exact absurd rfl hr
      · have hmoving := (hs.places.transfer g i old nr (by rw [hlock]; rfl)).1
        refine Or.inl (Or.inr (Or.inr (Or.inr ⟨g', i', ?_⟩)))
        exact free_update L.game (by rw [hmoving]; nofun) g' i' r hold
    · exact stands_update (R := (L.room nr).finish moved leaves) id r hold
  | drain g hg => exact h
  | take g i r hg hr | skip g i r e js ls hg | seat g i r e js ls hg | unseat g i r seat e ls hg =>
    exact h.of_same rfl rfl rfl rfl (free_update _ (by rw [hg]; nofun)) (stands_update id)
  | joinsEnd g i r ls hg | skipRelease g i r idx js ls hg | noLeaver g i r e ls hg
  | dropRelease g i r idx ls hg | live g i r hg | exit g i r hg | stay g i r hg
  | announced g nr hg =>
    exact h.of_same rfl rfl rfl rfl (free_update _ (by rw [hg]; nofun)) fun _ => id
  | die g i r hg hempty =>
    have hself : Function.update L.game g (GamePc.free i r) g = .free i r := Function.update_self ..
    refine h.of_room (x := r) rfl (Or.inl (Or.inr (Or.inr (Or.inr ⟨g, i, hself⟩)))) ?_
      fun r' hr' hold => ?_
    · rintro r' hr' (hold | hold | hold | ⟨g', i', hold⟩)
      · exact Or.inl (Or.inl hold)
      · exact Or.inl (Or.inr (Or.inl hold))
      · exact Or.inl (Or.inr (Or.inr (Or.inl hold)))
      · refine Or.inl (Or.inr (Or.inr (Or.inr ⟨g', i', ?_⟩)))
        exact free_update L.game (by rw [hg]; nofun) g' i' r' hold
    · show (Function.update L.room r (L.room r).markDead r').Stands
      rw [Function.update_of_ne hr']
      exact hold
  | freeRoom g i r hg hlock =>
    have hfree : r ∈ L.freeRooms ++ [r] := List.mem_append_right _ (List.mem_singleton_self r)
    refine h.of_room (x := r) rfl (Or.inl (Or.inl hfree)) ?_ fun r' hr' hold => hold
    rintro r' hr' (hold | hold | hold | ⟨g', i', hold⟩)
    · exact Or.inl (Or.inl (List.mem_append_left _ hold))
    · exact Or.inl (Or.inr (Or.inl hold))
    · exact Or.inl (Or.inr (Or.inr (Or.inl hold)))
    · have hne : g' ≠ g := by
        rintro rfl
        rw [hg] at hold
        cases hold
        exact hr' rfl
      refine Or.inl (Or.inr (Or.inr (Or.inr ⟨g', i', ?_⟩)))
      exact (Function.update_of_ne hne ..).trans hold
  | transfer g i old nr hg hlock hnr =>
    exact h.of_alloc hnr rfl rfl (by rw [hlock]; rfl) (by rw [hlock]; rfl) rfl
      (free_update _ (by rw [hg]; nofun)) fun r hr => Function.update_of_ne hr ..

end RoomsStand

end Ledger

/-! ### Without connections -/

structure Vacated (L : Ledger) : Prop where
  consistent : Consistent L
  bidden : Bidden L
  attended : L.Attended
  standing : L.RoomsStand
  conns : ∀ w, L.mySessions w = []
  net : ∀ w, L.net w = .idle

namespace Vacated

variable {L L' : Ledger}

theorem still (h : Vacated L) {a : Actor} (ht : L.Trans a L') (ha : ∀ w, a ≠ .accept w) :
    L'.mySessions = L.mySessions ∧ L'.net = L.net := by
  have hnone (w idx : Nat) : idx ∉ L.mySessions w := by
    rw [h.conns]
    exact List.not_mem_nil
  have hnet {w : Nat} {pc : NetPc} (hw : L.net w = pc) : pc = .idle := hw.symm.trans (h.net w)
  have hjoin {w idx : Nat} {pc : LockPc} (hlock : L.lock = pc) : pc.joiner ≠ some (w, idx) := by
    intro hj
    cases hnet (h.consistent.refs.joiner w idx (hlock ▸ hj))
  cases ht with
  | accept w | refuse w => exact absurd rfl (ha w)
  | toIdle w hw => rcases hw with ⟨_, hw⟩ | ⟨_, _, _, hw⟩ | ⟨_, _, _, hw⟩ <;> cases hnet hw
  | toInput w idx r c hw hmem | toJoin w idx hw hmem => exact absurd hmem (hnone w idx)
  | cut w idx hw => exact absurd (h.consistent.refs.of_handling hw).1 (hnone w idx)
  | leaveNone w idx hw | leaveRead w idx hw | netRelease w idx hw | noWorkers w idx hw
  | scan w idx hw | leavePush w idx r hw => cases hnet hw
  | scanRefuse w idx hlock | store w idx r i hlock => exact absurd rfl (hjoin hlock)
  | _ => exact ⟨rfl, rfl⟩

theorem step (h : Vacated L) {a : Actor} (ht : L.Trans a L') (ha : ∀ w, a ≠ .accept w) :
    Vacated L' := by
  obtain ⟨hconns, hnet⟩ := h.still ht ha
  refine
    { consistent := h.consistent.step ht
      bidden := ?_
      attended := h.attended.step h.consistent ht
      standing := h.standing.step h.consistent ht
      conns := by rw [hconns]; exact h.conns
      net := by rw [hnet]; exact h.net }
  refine h.bidden.step h.consistent ht fun w idx r _ hw => ?_
  rw [h.net] at hw
  cases hw

theorem leads {s t : System} (h : Vacated s.ledger) (hrun : System.Leads s t) :
    Vacated t.ledger := by
  refine hrun.invariant (P := fun s => Vacated s.ledger) h fun s a t _ hs hquiet ht => ?_
  rcases s.trans_of_step ht with hsame | htrans
  · exact hsame ▸ hs
  · refine hs.step htrans fun w ha => ?_
    cases a <;> cases ha
    exact hquiet

theorem dead_of_seated (h : Vacated L) {r : Nat} {i : Seat} {e : RoomLeaveEntry}
    (hseat : (L.room r).seated i = some e) : (L.sess e.sessIdx).dead = true := by
  have hheld := Bidden.held_of_seated h.consistent hseat
  have hrefs := h.consistent.refs.refs e.sessIdx
  cases hdead : (L.sess e.sessIdx).dead with
  | true => rfl
  | false =>
    have hmem := h.attended e.sessIdx hdead (by omega)
    rw [h.conns] at hmem
    cases hmem

theorem leave_of_seated (h : Vacated L) {r : Nat} {i : Seat} {e : RoomLeaveEntry}
    (hseat : (L.room r).seated i = some e) : e ∈ L.leavesAt r := by
  refine (h.bidden.member r i e hseat (h.dead_of_seated hseat)).resolve_left ?_
  rintro ⟨w, hw⟩
  rw [h.net] at hw
  cases hw

theorem judgedEmpty (h : Vacated L) {g i r : Nat} (hg : L.game g = .leaves i r [])
    (hothers : ∀ g', g' ≠ g → L.game g' = .idle) (hlock : L.lock = .free)
    (hjoins : (L.room r).pendingJoin = []) (hleaves : (L.room r).pendingLeave = []) :
    (L.room r).judgedEmpty = true := by
  have hs := h.consistent
  have hat : (L.game g).place = some (i, r) := by rw [hg]; rfl
  have howner := hs.places.owner_of_place hat
  have hmine := hs.places.mem_of_place hat
  have hseated (s : Seat) : (L.room r).seated s = none := by
    cases hseat : (L.room r).seated s with
    | none => rfl
    | some e =>
      have hmem := h.leave_of_seated hseat
      rw [Ledger.leavesAt, hleaves, howner, hg, hlock] at hmem
      simp [GamePc.leavesAt, LockPc.leavesAt] at hmem
  have hseats (s : Seat) : (L.room r).seatUsed s = false := by
    have hcount := hs.seats.seats r (by simp [hlock, LockPc.moving]) s
    have hhand : L.hand r = 0 := by
      rw [Ledger.hand, howner, hg]
      rfl
    rw [Ledger.tokens, hhand, hjoins, hlock, seatCount_add, seatCount_add, seatCount_members,
      hseated] at hcount
    cases hused : (L.room r).seatUsed s with
    | false => rfl
    | true =>
      rw [hused] at hcount
      cases hcount
  have hreserved : (L.room r).reservedSeats = 0 := by
    rw [(hs.seats.book r).reserved]
    simp [hseats]
  have hstands : (L.room r).Stands := by
    refine (h.standing r (hs.places.lt_of_mine hmine)).resolve_left ?_
    rintro (hfree | hopen | hempty | ⟨g', i', hg'⟩)
    · exact hs.places.not_free_of_mine hmine hfree
    · rw [hlock] at hopen
      cases hopen
    · rw [hlock] at hempty
      cases hempty
    · rcases eq_or_ne g' g with rfl | hne
      · rw [hg] at hg'
        cases hg'
      · rw [hothers g' hne] at hg'
        cases hg'
  simp [RoomBook.judgedEmpty, hstands.1, hstands.2, hreserved, hjoins]

end Vacated

/-! ### One call of TickOnce -/

namespace Server

theorem processEntries_leaves (st : Server) (r : Nat) :
    ((st.processEntries r).rooms r).pendingLeave = [] := by
  have hmod {st : Server} {f : Room → Room} (hf : ∀ R, (f R).pendingLeave = R.pendingLeave) :
      ((st.modRoom r f).rooms r).pendingLeave = (st.rooms r).pendingLeave := by
    rw [rooms_modRoom]
    exact hf _
  have hjoin (st : Server) (e : RoomJoinEntry) :
      ((st.processJoin r e).rooms r).pendingLeave = (st.rooms r).pendingLeave := by
    unfold processJoin
    split
    · exact hmod (f := fun R => R.releaseSeat e.actorId) fun _ => rfl
    · exact hmod fun _ => rfl
  have hleave (st : Server) (e : RoomLeaveEntry) :
      ((st.processLeave r e).rooms r).pendingLeave = (st.rooms r).pendingLeave := by
    unfold processLeave
    split
    · exact hmod (f := fun R => (R.unseat _).releaseSeat _) fun _ => rfl
    · rfl
  have hfold {β : Type} {f : Server → β → Server}
      (hf : ∀ st b, ((f st b).rooms r).pendingLeave = (st.rooms r).pendingLeave) (bs : List β)
      (st : Server) : ((bs.foldl f st).rooms r).pendingLeave = (st.rooms r).pendingLeave := by
    induction bs generalizing st with
    | nil => rfl
    | cons b bs ih => exact (ih (f st b)).trans (hf st b)
  calc ((st.processEntries r).rooms r).pendingLeave
      = ((st.takeQueues r).rooms r).pendingLeave := (hfold hleave _ _).trans (hfold hjoin _ _)
    _ = [] := by
      unfold takeQueues
      rw [rooms_modRoom]

/-- The interleaved machine with nobody in the middle of anything. -/
def alone (st : Server) : System := { srv := st }

variable {st : Server} {g : Nat}

theorem process_dies (h : Vacated st.alone.ledger) {i r : Nat} (hr : (st.myRooms g)[i]? = some r) :
    ∃ st', st.processRoomQueues r = (st', true) ∧
      System.Leads st.alone (st'.removeRoom g i).alone := by
  have hentries := System.leads_entries (s := st.alone) (g := g) rfl hr
  have hempty : ((st.processEntries r).rooms r).judgedEmpty = true := by
    refine (h.leads hentries).judgedEmpty (g := g) (i := i) (Function.update_self ..)
      (fun g' hg' => Function.update_of_ne hg' ..) rfl ?_ (processEntries_leaves st r)
    refine (processEntries_drains st r).joins.trans ?_
    unfold takeQueues
    rw [rooms_modRoom]
  have hprocess : st.processRoomQueues r =
      (((st.processEntries r).markDead r).freeDead r, true) := by
    unfold processRoomQueues
    simp only [hempty, if_true]
  refine ⟨_, hprocess, ?_⟩
  have hleads := System.leads_process (s := st.alone) (g := g) rfl rfl hr
  rw [show st.alone.srv = st from rfl, hprocess] at hleads
  exact hleads

/-- What a worker has done at the end of a loop over its list: its rooms are gone. -/
structure Emptied (g : Nat) (st t : Server) : Prop where
  leads : System.Leads st.alone t.alone
  mine : t.myRooms g = []
  others : ∀ g', g' ≠ g → t.myRooms g' = st.myRooms g'
  mail : t.mail = st.mail

theorem tickLoop_empties {n : Nat} (h : Vacated st.alone.ledger) (hn : (st.myRooms g).length ≤ n) :
    Emptied g st (tickLoop g n 0 st) := by
  induction n generalizing st with
  | zero =>
    have hnone : st.myRooms g = [] := List.length_eq_zero_iff.mp (by omega)
    exact ⟨.refl, hnone, fun _ _ => rfl, rfl⟩
  | succ n ih =>
    unfold tickLoop
    cases hr : (st.myRooms g)[0]? with
    | none => exact ⟨.refl, by simpa using hr, fun _ _ => rfl, rfl⟩
    | some r =>
      obtain ⟨st', hprocess, hleads⟩ := process_dies h hr
      have hdie := roster_process hprocess g 0
      have hmine : (st'.removeRoom g 0).myRooms =
          Function.update st.myRooms g (swapRemoveAt (st.myRooms g) 0) :=
        congrArg Roster.mine hdie
      have hmail : (st'.removeRoom g 0).mail = st.mail := congrArg Roster.mail hdie
      have hlength := (swapRemoveAt_perm hr).length_eq
      rw [List.length_cons] at hlength
      have hleft : ((st'.removeRoom g 0).myRooms g).length ≤ n := by
        rw [hmine, Function.update_self]
        omega
      have hrest := ih (h.leads hleads) hleft
      simp only [hprocess]
      refine ⟨hleads.trans hrest.leads, hrest.mine, fun g' hg' => ?_, hrest.mail.trans hmail⟩
      rw [hrest.others g' hg', hmine, Function.update_of_ne hg']

theorem tickOnce_empties (h : Vacated st.alone.ledger) :
    System.Leads st.alone (st.tickOnce g).alone ∧ (st.tickOnce g).myRooms g = [] ∧
      (st.tickOnce g).mail g = [] ∧
      ∀ g', g' ≠ g → (st.tickOnce g).myRooms g' = st.myRooms g' ∧
        (st.tickOnce g).mail g' = st.mail g' := by
  have hdrain : System.Leads st.alone (st.drainMail g).alone :=
    .single (a := .drain g) trivial (by simp [System.step, alone])
  have hloop := tickLoop_empties (g := g) (h.leads hdrain) (le_refl _)
  refine ⟨hdrain.trans hloop.leads, hloop.mine, ?_, fun g' hg' => ⟨?_, ?_⟩⟩
  · exact (congrFun hloop.mail g).trans (Function.update_self ..)
  · exact (hloop.others g' hg').trans (Function.update_of_ne hg' ..)
  · exact (congrFun hloop.mail g').trans (Function.update_of_ne hg' ..)

theorem foldl_tickOnce_empties (gs : List Nat) (h : Vacated st.alone.ledger) :
    System.Leads st.alone (gs.foldl tickOnce st).alone ∧
      ∀ g, g ∈ gs ∨ st.myRooms g = [] ∧ st.mail g = [] →
        (gs.foldl tickOnce st).myRooms g = [] ∧ (gs.foldl tickOnce st).mail g = [] := by
  induction gs generalizing st with
  | nil => exact ⟨.refl, fun g hg => hg.resolve_left List.not_mem_nil⟩
  | cons g gs ih =>
    obtain ⟨hleads, hmine, hmail, hothers⟩ := tickOnce_empties (g := g) h
    obtain ⟨hrest, hempty⟩ := ih (h.leads hleads)
    refine ⟨hleads.trans hrest, fun g' hg' => hempty g' ?_⟩
    rcases eq_or_ne g' g with rfl | hne
    · exact Or.inr ⟨hmine, hmail⟩
    · rw [(hothers g' hne).1, (hothers g' hne).2]
      exact hg'.imp (fun hmem => (List.mem_cons.mp hmem).resolve_left hne) id

/-- Every slot of both pools is free, and no room is in any list. -/
structure Unused (st : Server) (sessionCapacity roomCapacity : Nat) : Prop where
  sessions : st.pool.free.Perm (List.range sessionCapacity)
  refs : ∀ idx, (st.sess idx).refs = 0
  rooms : st.freeRooms.Perm (List.range roomCapacity)
  seats : ∀ r i, (st.rooms r).seatUsed i = false ∧ ((st.rooms r).members i).used = false
  opened : st.openRooms = []
  kept : ∀ g, st.myRooms g = [] ∧ st.mail g = []

end Server

theorem perm_range {l : List Nat} {n : Nat} (h : ∀ x, l.count x = if x < n then 1 else 0) :
    l.Perm (List.range n) := by
  refine List.perm_iff_count.mpr fun x => ?_
  rw [h, List.count_range]

/-- When no worker keeps a room any more, nothing is left of rooms and sessions. -/
theorem Vacated.unused {st : Server} (h : Vacated st.alone.ledger)
    (hkept : ∀ g, st.myRooms g = [] ∧ st.mail g = []) : st.Unused st.pool.cap st.cap := by
  have hs := h.consistent
  have hfree (r : Nat) : st.freeRooms.count r = if r < st.cap then 1 else 0 := by
    have hplaced : st.freeRooms.count r + (st.mail (st.rooms r).gameWorker).count r +
        (st.myRooms (st.rooms r).gameWorker).count r + 0 = if r < st.cap then 1 else 0 :=
      hs.places.placed r
    rw [(hkept _).1, (hkept _).2, List.count_nil] at hplaced
    exact hplaced
  have htokens (r : Nat) : st.alone.ledger.tokens r = 0 := by
    rcases Nat.lt_or_ge r st.cap with hr | hr
    · have hmem : r ∈ st.freeRooms := by
        apply List.count_pos_iff.mp
        rw [hfree, if_pos hr]
        exact Nat.one_pos
      exact hs.seats.tokens_eq_zero (fun _ _ hm => by cases hm) (hs.seats.free r hmem)
    · refine Multiset.eq_zero_of_forall_notMem fun e he => ?_
      exact absurd (hs.refs.holder r e he).room (Nat.not_lt.mpr hr)
  have hclaims : st.alone.ledger.claims = 0 := by
    refine (add_zero _).trans (Finset.sum_eq_zero fun r _ => ?_)
    rw [Ledger.roomClaims, htokens]
    rfl
  have hrefs (idx : Nat) : (st.sess idx).refs = 0 := by
    have hown : st.alone.ledger.ownRef idx = 0 := by
      refine if_neg ?_
      rw [h.conns]
      exact List.not_mem_nil
    have hall := hs.refs.refs idx
    rw [hown, hclaims] at hall
    exact hall
  refine
    { sessions := perm_range fun idx => (hs.refs.free idx).trans ?_
      refs := hrefs
      rooms := perm_range hfree
      seats := fun r i => ?_
      opened := ?_
      kept := hkept }
  · have hzero : (st.alone.ledger.sess idx).refs = 0 := hrefs idx
    rw [hzero]
    simp [System.ledger, Server.books, Server.alone]
  · have hseat := hs.seats.seats r (fun _ _ hm => by cases hm) i
    obtain ⟨hmembers, -, -⟩ := parts_of_tokens_zero (htokens r)
    have hused := seatCount_members (st.rooms r).book i
    rw [show (st.rooms r).book.members = 0 from hmembers, Room.seated_isSome] at hused
    rw [htokens] at hseat
    have hflag : 0 = ((st.rooms r).seatUsed i).toNat := hseat
    constructor
    · cases hu : (st.rooms r).seatUsed i with
      | false => rfl
      | true =>
        rw [hu] at hflag
        cases hflag
    · cases hu : ((st.rooms r).members i).used with
      | false => rfl
      | true =>
        rw [hu] at hused
        cases hused
  · refine List.eq_nil_iff_forall_not_mem.mpr fun r hr => ?_
    obtain ⟨hlt, hnot, -⟩ := hs.places.open_placed r hr
    have hcount : st.freeRooms.count r = 1 := (hfree r).trans (if_pos hlt)
    exact hnot (List.count_pos_iff.mp (hcount ▸ Nat.one_pos))

namespace System

/-- Nobody is in the middle of anything, and no connection is left. -/
structure Deserted (s : System) : Prop where
  net : ∀ w, s.net w = .idle
  game : ∀ g, s.game g = .idle
  lock : s.lock = .free
  conns : ∀ w, s.srv.mySessions w = []

theorem Deserted.alone {s : System} (h : s.Deserted) : s = s.srv.alone := by
  obtain ⟨srv, lock, net, game⟩ := s
  obtain rfl : lock = .free := h.lock
  obtain rfl : net = fun _ => .idle := funext h.net
  obtain rfl : game = fun _ => .idle := funext h.game
  rfl

theorem caps_of_reach {ok : Act → System → Prop} {s t : System} (h : Reach step ok s t) :
    t.srv.cap = s.srv.cap ∧ t.srv.pool.cap = s.srv.pool.cap := by
  refine h.invariant (P := fun u => u.srv.cap = s.srv.cap ∧ u.srv.pool.cap = s.srv.pool.cap)
    ⟨rfl, rfl⟩ fun u a v _ hu _ hv => ?_
  rcases u.trans_of_step hv with hsame | htrans
  · have hcap : v.srv.cap = u.srv.cap := congrArg (·.cap) hsame
    have hsessCap : v.srv.pool.cap = u.srv.pool.cap := congrArg (·.sessCap) hsame
    exact ⟨hcap.trans hu.1, hsessCap.trans hu.2⟩
  · obtain ⟨hcap, hsessCap⟩ := htrans.caps
    exact ⟨hcap.trans hu.1, hsessCap.trans hu.2⟩

variable {sessionCapacity roomCapacity workerCount : Nat} {s : System}

/-- A leave is appended by the first of these steps, so it is enough to ask of it. -/
theorem bidden_of_reach
    (h : Reach step Routed (init sessionCapacity roomCapacity workerCount) s) :
    Bidden s.ledger := by
  refine h.invariant (P := fun s => Bidden s.ledger) (Bidden.init ..) fun s a t hreach hs hok ht => ?_
  have hc := consistent hreach
  rcases s.trans_of_step ht with hsame | htrans
  · exact hsame ▸ hs
  · exact hs.step hc htrans fun w idx r ha hw r' i e hseat he => hok.of_push hc ht ha hw hseat he

theorem standing_of_reach {ok : Act → System → Prop}
    (h : Reach step ok (init sessionCapacity roomCapacity workerCount) s) :
    s.ledger.Attended ∧ s.ledger.RoomsStand := by
  refine h.invariant (P := fun s => s.ledger.Attended ∧ s.ledger.RoomsStand) ⟨?_, ?_⟩ ?_
  · intro idx _ hrefs
    cases hrefs
  · intro r hr
    refine Or.inl (Or.inl ?_)
    exact List.mem_reverse.mpr (List.mem_range.mpr hr)
  · intro s a t hreach hs _ ht
    rcases s.trans_of_step ht with hsame | htrans
    · exact hsame ▸ hs
    · exact ⟨hs.1.step (consistent hreach) htrans, hs.2.step (consistent hreach) htrans⟩

end System

/-- In a run that loses no leave, one `TickOnce` of every worker with a room, in any order, frees
every room and every session once the last connection is gone. -/
theorem deserted_frees {sessionCapacity roomCapacity workerCount : Nat} {s : System} {gs : List Nat}
    (h : Reach System.step System.Routed (System.init sessionCapacity roomCapacity workerCount) s)
    (hgone : s.Deserted) (hgs : ∀ g, s.srv.myRooms g ≠ [] ∨ s.srv.mail g ≠ [] → g ∈ gs) :
    (gs.foldl Server.tickOnce s.srv).Unused sessionCapacity roomCapacity := by
  obtain ⟨hattended, hstanding⟩ := System.standing_of_reach h
  have hvacated : Vacated s.srv.alone.ledger := by
    rw [← hgone.alone]
    exact ⟨System.consistent h, System.bidden_of_reach h, hattended, hstanding, hgone.conns, hgone.net⟩
  obtain ⟨hleads, hempty⟩ := Server.foldl_tickOnce_empties gs hvacated
  have hunused := (hvacated.leads hleads).unused fun g => hempty g ?_
  · obtain ⟨hcap, hpool⟩ := System.caps_of_reach hleads
    obtain ⟨hcap₀, hpool₀⟩ := System.caps_of_reach h
    have hrooms : (gs.foldl Server.tickOnce s.srv).cap = roomCapacity := hcap.trans hcap₀
    have hsessions : (gs.foldl Server.tickOnce s.srv).pool.cap = sessionCapacity :=
      hpool.trans hpool₀
    rw [hrooms, hsessions] at hunused
    exact hunused
  · by_cases hkept : s.srv.myRooms g ≠ [] ∨ s.srv.mail g ≠ []
    · exact Or.inl (hgs g hkept)
    · rw [not_or, not_not, not_not] at hkept
      exact Or.inr hkept

/-- After the player of `parting` is gone, its session and its room are still taken. -/
theorem deserted_frees_parting : ∃ s,
    runIf System.step System.routes parting (System.init 1 1 1) = some s ∧ s.srv.freeRooms = [] ∧
      s.srv.pool.free = [] ∧ ([0].foldl Server.tickOnce s.srv).Unused 1 1 := by
  have hfree : (runIf System.step System.routes parting (System.init 1 1 1)).map (fun s =>
      (s.srv.freeRooms, s.srv.pool.free, s.srv.pool.cap, s.srv.cap)) = some ([], [], 1, 1) := by
    decide +kernel
  have hidle : (runIf System.step System.routes parting (System.init 1 1 1)).map (fun s =>
      (s.net 0, s.game 0, s.lock)) = some (.idle, .idle, .free) := by decide +kernel
  have howners : (runIf System.step System.routes parting (System.init 1 1 1)).map (fun s =>
      (s.srv.mySessions 0, (s.srv.sess 0).owner, (s.srv.rooms 0).gameWorker)) =
      some ([], 0, 0) := by decide +kernel
  obtain ⟨s, hs, hfree⟩ := Option.map_eq_some_iff.mp hfree
  rw [hs] at hidle howners
  simp only [Option.map_some, Option.some.injEq, Prod.mk.injEq] at hfree hidle howners
  obtain ⟨hrooms, hsessions, hpool, hcap⟩ := hfree
  obtain ⟨hnet, hgame, hlock⟩ := hidle
  obtain ⟨hconns, howner, hworker⟩ := howners
  have hreach := reach_of_runIf System.routes_sound hs
  have hc := System.consistent hreach
  have hwithin := within_of_run (n := 1) (run_of_runIf hs) (by decide)
  have hgone : s.Deserted :=
    { net := fun w => by
        rcases Nat.eq_zero_or_pos w with rfl | hw
        · exact hnet
        · exact hwithin.net w hw
      game := fun g => by
        rcases Nat.eq_zero_or_pos g with rfl | hg
        · exact hgame
        · exact hwithin.game g hg
      lock := hlock
      conns := fun w => by
        refine List.eq_nil_iff_forall_not_mem.mpr fun idx hmem => ?_
        obtain ⟨how, hlt⟩ : (s.srv.sess idx).owner = w ∧ idx < s.srv.pool.cap :=
          hc.refs.conns w idx hmem
        obtain rfl : idx = 0 := by omega
        rw [← how, howner, hconns] at hmem
        cases hmem }
  have honly (g r : Nat) (hr : r ∈ s.srv.myRooms g ∨ r ∈ s.srv.mail g) : g = 0 := by
    have hat : (s.srv.rooms r).gameWorker = g :=
      hr.elim (hc.places.mine_owner g r) (hc.places.mail_owner g r)
    have hlt : r < s.srv.cap := by
      rcases hr with hr | hr
      · exact hc.places.lt_of_mine hr
      · exact hc.places.lt_of_mail hr
    obtain rfl : r = 0 := by omega
    exact hat.symm.trans hworker
  refine ⟨s, hs, hrooms, hsessions, deserted_frees hreach hgone fun g hg => ?_⟩
  rw [List.mem_singleton]
  rcases hg with hg | hg
  · obtain ⟨r, hr⟩ := List.exists_mem_of_ne_nil _ hg
    exact honly g r (Or.inl hr)
  · obtain ⟨r, hr⟩ := List.exists_mem_of_ne_nil _ hg
    exact honly g r (Or.inr hr)

end BeltServer
