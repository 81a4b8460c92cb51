import BeltServer.Stage

/-!
# No leave is lost

A disconnected session leaves its room by an entry in the room's queue. The room is read
before its lock is taken; `Routed` asks that the members of a room are not on their way to
another one when the entry is appended. Every member of a dead session then has its entry
where the room's worker finds it.
-/

namespace BeltServer

set_option autoImplicit false

open Runs

/-- The session whose leave the worker has not handed over yet. -/
def NetPc.bids : NetPc → Option Nat
  | .leaveRead idx | .leavePush idx _ => some idx
  | _ => none

/-- The leave entries that the worker at room `r` has taken out and not reached yet. -/
def GamePc.leavesAt (pc : GamePc) (r : Nat) : List RoomLeaveEntry :=
  match pc with
  | .joins _ r' _ ls | .skip _ r' _ _ ls | .leaves _ r' ls | .drop _ r' _ ls =>
    if r' = r then ls else []
  | _ => []

/-- The leave entries that a transfer out of room `r`, or into it, carries. -/
def LockPc.leavesAt (pc : LockPc) (r : Nat) : List RoomLeaveEntry :=
  match pc with
  | .move _ _ old nr _ _ _ ls | .carry _ _ old nr _ _ ls => if r = old ∨ r = nr then ls else []
  | _ => []

namespace Ledger

/-- The leave entries on their way to room `r`: queued, taken out or carried. -/
def leavesAt (L : Ledger) (r : Nat) : List RoomLeaveEntry :=
  (L.room r).pendingLeave ++ (L.game (L.room r).owner).leavesAt r ++ L.lock.leavesAt r

/-- `OnSessionLeave` of the session has begun and is not complete. -/
def Departs (L : Ledger) (idx : Nat) : Prop := ∃ w, (L.net w).bids = some idx

end Ledger

structure Bidden (L : Ledger) : Prop where
  member : ∀ r i e, (L.room r).seated i = some e → (L.sess e.sessIdx).dead = true →
    L.Departs e.sessIdx ∨ e ∈ L.leavesAt r
  reading : ∀ w idx, L.net w = .leaveRead idx → ∀ r i e, (L.room r).seated i = some e →
    e.sessIdx = idx → (L.sess idx).inRoom = true
  closed : ∀ old, L.lock.emptying = some old → ∀ e ∈ (L.room old).pendingLeave, ∀ i,
    (L.room old).seated i ≠ some e

namespace Ledger

variable {L L' : Ledger}

theorem token_of_seated {r : Nat} {i : Seat} {e : RoomLeaveEntry}
    (h : (L.room r).seated i = some e) : ⟨e.sessIdx, e.sessGen, i⟩ ∈ L.tokens r :=
  Multiset.mem_add.mpr (Or.inl (Multiset.mem_add.mpr (Or.inl (Tally.mem_ofTable.mpr ⟨i, e, h, rfl⟩))))

theorem leavesAt_same {r : Nat} (hpend : (L'.room r).pendingLeave = (L.room r).pendingLeave)
    (howner : (L'.room r).owner = (L.room r).owner)
    (hgame : ∀ g, (L'.game g).leavesAt r = (L.game g).leavesAt r)
    (hlock : L'.lock.leavesAt r = L.lock.leavesAt r) : L'.leavesAt r = L.leavesAt r := by
  simp only [leavesAt, hpend, howner, hgame, hlock]

theorem mem_leavesAt {r : Nat} {e : RoomLeaveEntry} : e ∈ L.leavesAt r ↔
    e ∈ (L.room r).pendingLeave ∨ e ∈ (L.game (L.room r).owner).leavesAt r ∨
      e ∈ L.lock.leavesAt r := by
  rw [leavesAt, List.mem_append, List.mem_append, or_assoc]

end Ledger

theorem leavesAt_update {game : Nat → GamePc} {g r : Nat} {pc : GamePc}
    (h : pc.leavesAt r = (game g).leavesAt r) (g' : Nat) :
    (Function.update game g pc g').leavesAt r = (game g').leavesAt r := by
  rcases eq_or_ne g' g with rfl | hg
  · rw [Function.update_self, h]
  · rw [Function.update_of_ne hg]

namespace Bidden

variable {L L' : Ledger}

theorem held_of_seated (hs : Consistent L) {r : Nat} {i : Seat} {e : RoomLeaveEntry}
    (h : (L.room r).seated i = some e) : 0 < L.claims.count e.sessIdx :=
  Ledger.count_pos_of_token (hs.refs.holder r _ (Ledger.token_of_seated h)).room
    (Ledger.token_of_seated h)

theorem of_kept (h : Bidden L) (hs : Consistent L)
    (hseated : ∀ r i e, (L'.room r).seated i = some e → (L.room r).seated i = some e)
    (hdead : ∀ j, 0 < L.claims.count j → (L'.sess j).dead = (L.sess j).dead)
    (hbids : ∀ j, L.Departs j → L'.Departs j)
    (hread : ∀ w j, L'.net w = .leaveRead j → L.net w = .leaveRead j ∧
      (L'.sess j).inRoom = (L.sess j).inRoom)
    (hleaves : ∀ r i e, (L'.room r).seated i = some e → e ∈ L.leavesAt r → e ∈ L'.leavesAt r)
    (hclosed : ∀ old, L'.lock.emptying = some old → L.lock.emptying = some old ∧
      ∀ e ∈ (L'.room old).pendingLeave, e ∈ (L.room old).pendingLeave) : Bidden L' where
  member r i e hseat hd := by
    have hold := hseated r i e hseat
    rw [hdead _ (held_of_seated hs hold)] at hd
    exact (h.member r i e hold hd).imp (hbids _) (hleaves r i e hseat)
  reading w idx hw r i e hseat he := by
    obtain ⟨hold, hroom⟩ := hread w idx hw
    rw [hroom]
    exact h.reading w idx hold r i e (hseated r i e hseat) he
  closed old hold e he i hseat := by
    obtain ⟨hwas, hsub⟩ := hclosed old hold
    exact h.closed old hwas e (hsub e he) i (hseated old i e hseat)

structure Calm (L L' : Ledger) : Prop where
  seated : ∀ r, (L'.room r).seated = (L.room r).seated := by intro; rfl
  pending : ∀ r, (L'.room r).pendingLeave = (L.room r).pendingLeave := by intro; rfl
  owner : ∀ r, (L'.room r).owner = (L.room r).owner := by intro; rfl
  dead : ∀ j, 0 < L.claims.count j → (L'.sess j).dead = (L.sess j).dead := by intro _ _; rfl
  bids : ∀ w, (L'.net w).bids = (L.net w).bids := by intro; rfl
  read : ∀ w j, L'.net w = .leaveRead j → L.net w = .leaveRead j ∧
    (L'.sess j).inRoom = (L.sess j).inRoom := by intro _ _ h; exact ⟨h, rfl⟩
  game : ∀ g r, (L'.game g).leavesAt r = (L.game g).leavesAt r := by intros; rfl
  lock : ∀ r, L'.lock.leavesAt r = L.lock.leavesAt r := by intro; rfl
  emptying : L'.lock.emptying = L.lock.emptying := by rfl

theorem of_calm (h : Bidden L) (hs : Consistent L) (hc : Calm L L') : Bidden L' := by
  refine h.of_kept hs (fun r i e hseat => hc.seated r ▸ hseat) hc.dead ?_ hc.read ?_ ?_
  · rintro j ⟨w, hw⟩
    exact ⟨w, (hc.bids w).trans hw⟩
  · intro r i e _ hmem
    rw [Ledger.leavesAt_same (hc.pending r) (hc.owner r) (fun g => hc.game g r) (hc.lock r)]
    exact hmem
  · intro old hold
    rw [hc.pending old]
    exact ⟨hc.emptying ▸ hold, fun _ he => he⟩

theorem bids_update {net : Nat → NetPc} {w : Nat} {pc : NetPc} (h : pc.bids = (net w).bids)
    (w' : Nat) : (Function.update net w pc w').bids = (net w').bids := by
  rcases eq_or_ne w' w with rfl | hw
  · rw [Function.update_self, h]
  · rw [Function.update_of_ne hw]

theorem bids_work {w : Nat} {p q : NetPc} (hset : L'.net = Function.update L.net w p)
    (hw : L.net w = q) (h : p.bids = q.bids) (w' : Nat) : (L'.net w').bids = (L.net w').bids := by
  rw [hset]
  exact bids_update (h.trans (congrArg NetPc.bids hw).symm) w'

theorem leaves_work {g : Nat} {p q : GamePc} (hset : L'.game = Function.update L.game g p)
    (hg : L.game g = q) (h : ∀ r, p.leavesAt r = q.leavesAt r) (g' r : Nat) :
    (L'.game g').leavesAt r = (L.game g').leavesAt r := by
  rw [hset]
  exact leavesAt_update ((h r).trans (congrArg (·.leavesAt r) hg).symm) g'

theorem sess_keeps {β : Type} (f : SessBook → β) {idx : Nat} {S : SessBook}
    (hset : L'.sess = Function.update L.sess idx S) (hS : f S = f (L.sess idx)) (j : Nat) :
    f (L'.sess j) = f (L.sess j) := by
  rw [hset]
  exact sess_update f hS j

theorem read_update {net : Nat → NetPc} {w w' j : Nat} {p : NetPc} (hp : ∀ j, p ≠ .leaveRead j)
    (h : Function.update net w p w' = .leaveRead j) : w' ≠ w ∧ net w' = .leaveRead j := by
  rcases eq_or_ne w' w with rfl | hw
  · rw [Function.update_self] at h
    exact absurd h (hp j)
  · rw [Function.update_of_ne hw] at h
    exact ⟨hw, h⟩

theorem room_update {β : Type} (f : RoomBook → β) {m : Nat → RoomBook} {r : Nat} {R : RoomBook}
    (hR : f R = f (m r)) (r' : Nat) : f (Function.update m r R r') = f (m r') := by
  rcases eq_or_ne r' r with rfl | hr
  · rw [Function.update_self, hR]
  · rw [Function.update_of_ne hr]

theorem room_keeps {β : Type} (f : RoomBook → β) {r : Nat} {R : RoomBook}
    (hroom : L'.room = Function.update L.room r R) (hR : f R = f (L.room r)) (r' : Nat) :
    f (L'.room r') = f (L.room r') := by
  rw [hroom]
  exact room_update f hR r'

theorem net_unique (hs : Consistent L) {w w' idx : Nat} (hw : (L.net w).sess = some idx)
    (hw' : (L.net w').sess = some idx) : w' = w := by
  have hown := (hs.refs.conns w idx (hs.refs.net w idx hw)).1
  have hown' := (hs.refs.conns w' idx (hs.refs.net w' idx hw')).1
  exact hown'.symm.trans hown

theorem claims_ne (hs : Consistent L) {idx j : Nat} (hidx : L.freeSess.getLast? = some idx)
    (hj : 0 < L.claims.count j) : j ≠ idx := by
  rintro rfl
  have hnone := (hs.refs.of_free_slot hidx).2.2.1
  omega

theorem not_reading (hs : Consistent L) {w idx : Nat} (hidx : L.freeSess.getLast? = some idx) :
    L.net w ≠ .leaveRead idx := by
  intro hw
  exact (hs.refs.of_free_slot hidx).2.2.2 w (hs.refs.net w idx (by rw [hw]; rfl))

theorem Calm.of_net {w : Nat} {p : NetPc} (hroom : L'.room = L.room) (hsess : L'.sess = L.sess)
    (hgame : L'.game = L.game) (hnet : L'.net = Function.update L.net w p)
    (hold : (L.net w).bids = none) (hnew : p.bids = none)
    (hlock : ∀ r, L'.lock.leavesAt r = L.lock.leavesAt r)
    (hemptying : L'.lock.emptying = L.lock.emptying) : Calm L L' where
  seated r := by rw [hroom]
  pending r := by rw [hroom]
  owner r := by rw [hroom]
  dead j _ := by rw [hsess]
  bids w' := by
    rw [hnet]
    exact bids_update (hnew.trans hold.symm) w'
  read w' j hw' := by
    rw [hnet] at hw'
    have hpc (j : Nat) : p ≠ .leaveRead j := by
      rintro rfl
      cases hnew
    exact ⟨(read_update hpc hw').2, by rw [hsess]⟩
  game g r := by rw [hgame]
  lock := hlock
  emptying := hemptying

theorem Calm.of_room {r : Nat} {R : RoomBook} (hroom : L'.room = Function.update L.room r R)
    (hseated : R.seated = (L.room r).seated) (hpending : R.pendingLeave = (L.room r).pendingLeave)
    (howner : R.owner = (L.room r).owner)
    (hsess : ∀ j, (L'.sess j).dead = (L.sess j).dead ∧ (L'.sess j).inRoom = (L.sess j).inRoom)
    (hnet : L'.net = L.net) (hgame : ∀ g r, (L'.game g).leavesAt r = (L.game g).leavesAt r)
    (hlock : ∀ r, L'.lock.leavesAt r = L.lock.leavesAt r)
    (hemptying : L'.lock.emptying = L.lock.emptying) : Calm L L' where
  seated := room_keeps (·.seated) hroom hseated
  pending := room_keeps (·.pendingLeave) hroom hpending
  owner := room_keeps (·.owner) hroom howner
  dead j _ := (hsess j).1
  bids w := by rw [hnet]
  read w j hw := ⟨hnet ▸ hw, (hsess j).2⟩
  game := hgame
  lock := hlock
  emptying := hemptying

theorem Calm.of_sess {idx : Nat} {S : SessBook} (hroom : L'.room = L.room)
    (hsess : L'.sess = Function.update L.sess idx S) (hdead : S.dead = (L.sess idx).dead)
    (hin : S.inRoom = (L.sess idx).inRoom) (hnet : L'.net = L.net)
    (hgame : ∀ g r, (L'.game g).leavesAt r = (L.game g).leavesAt r) (hlock : L'.lock = L.lock) :
    Calm L L' where
  seated r := by rw [hroom]
  pending r := by rw [hroom]
  owner r := by rw [hroom]
  dead j _ := by
    rw [hsess]
    exact sess_update (·.dead) hdead j
  bids w := by rw [hnet]
  read w j hw := by
    refine ⟨hnet ▸ hw, ?_⟩
    rw [hsess]
    exact sess_update (·.inRoom) hin j
  game := hgame
  lock r := by rw [hlock]
  emptying := by rw [hlock]

theorem not_storing (hs : Consistent L) {w idx : Nat} (hw : (L.net w).sess = some idx)
    (hin : L.net w ≠ .inJoin idx) (r : Nat) (i : Seat) : L.lock.storing ≠ some (idx, r, i) := by
  intro hst
  cases hl : L.lock with
  | store w' idx' r' i' =>
    rw [hl] at hst
    cases hst
    have hw' := hs.refs.joiner w' idx (by rw [hl]; rfl)
    have heq : w' = w := net_unique hs hw (by rw [hw']; rfl)
    exact hin (heq ▸ hw')
  | _ =>
    rw [hl] at hst
    cases hst

theorem roomIdx_of_seated (hs : Consistent L) {w idx : Nat} (hw : (L.net w).sess = some idx)
    (hin : L.net w ≠ .inJoin idx) {r : Nat} {i : Seat} {e : RoomLeaveEntry}
    (hseat : (L.room r).seated i = some e) (he : e.sessIdx = idx) :
    (L.sess idx).roomIdx = r ∧ r < L.cap := by
  have hholder := hs.refs.holder r _ (Ledger.token_of_seated hseat)
  refine ⟨?_, hholder.room⟩
  have hplace : L.place e.sessIdx = (r, i.val) := hholder.place
  rw [he] at hplace
  unfold Ledger.place at hplace
  split at hplace
  · rename_i idx' r' i' hst
    have hne : idx' ≠ idx := by
      rintro rfl
      exact not_storing hs hw hin r' i' hst
    rw [if_neg hne] at hplace
    exact congrArg Prod.fst hplace
  · exact congrArg Prod.fst hplace

theorem step_cut (h : Bidden L) (hs : Consistent L) {w idx : Nat} (hw : L.Handling w idx) :
    Bidden ((L.modSess idx (·.cut)).setNet w (.leaveRead idx)) := by
  obtain ⟨hmem, hleaving⟩ := hs.refs.of_handling hw
  have hbids : (L.net w).bids = none := by
    rcases hw with ⟨hw, -, -⟩ | hw | ⟨a, r, hw⟩ <;> rw [hw] <;> rfl
  have halive : (L.sess idx).dead ≠ true := by
    intro hdead
    rw [(hs.refs.dead w idx hmem).mp hdead] at hleaving
    cases hleaving
  have hself : Function.update L.net w (NetPc.leaveRead idx) w = .leaveRead idx :=
    Function.update_self ..
  constructor
  · intro r i e hseat hdead
    rcases eq_or_ne e.sessIdx idx with he | he
    · refine Or.inl ⟨w, ?_⟩
      rw [he]
      exact congrArg NetPc.bids hself
    · have hother : Function.update L.sess idx (L.sess idx).cut e.sessIdx = L.sess e.sessIdx :=
        Function.update_of_ne he ..
      have hold : (L.sess e.sessIdx).dead = true := hother ▸ hdead
      refine (h.member r i e hseat hold).imp ?_ id
      rintro ⟨w', hw'⟩
      refine ⟨w', ?_⟩
      have hne : w' ≠ w := by
        rintro rfl
        rw [hbids] at hw'
        cases hw'
      exact (congrArg NetPc.bids (Function.update_of_ne hne ..)).trans hw'
  · intro w' j hw' r i e hseat he
    refine (sess_update (·.inRoom) (m := L.sess) (S := (L.sess idx).cut) rfl j).trans ?_
    rcases eq_or_ne w' w with rfl | hne
    · obtain rfl : idx = j := by
        have := hself.symm.trans hw'
        cases this
        rfl
      have hpos : 0 < L.claims.count idx := he ▸ held_of_seated hs hseat
      rcases hs.refs.seated idx hpos with hin | hdead | ⟨r', i', hst⟩
      · exact hin
      · exact absurd hdead halive
      · exfalso
        cases hl : L.lock <;> rw [hl] at hst <;> cases hst
        rename_i w''
        have hjoin := hs.refs.joiner w'' idx (by rw [hl]; rfl)
        have hown := hs.refs.net w'' idx (by rw [hjoin]; rfl)
        obtain rfl : w' = w'' := (hs.refs.conns w' idx hmem).1.symm.trans
          (hs.refs.conns w'' idx hown).1
        rcases hw with ⟨hw, -, -⟩ | hw | ⟨a, r, hw⟩ <;> rw [hw] at hjoin <;> cases hjoin
    · have hold : L.net w' = .leaveRead j := (Function.update_of_ne hne ..).symm.trans hw'
      exact h.reading w' j hold r i e hseat he
  · exact h.closed

theorem step_leaveNone (h : Bidden L) (hs : Consistent L) {w idx : Nat}
    (hw : L.net w = .leaveRead idx)
    (hroom : (L.sess idx).inRoom = false ∨ L.cap ≤ (L.sess idx).roomIdx) :
    Bidden (L.setNet w (.release idx)) := by
  have hnone {r : Nat} {i : Seat} {e : RoomLeaveEntry} (hseat : (L.room r).seated i = some e) :
      e.sessIdx ≠ idx := by
    intro he
    obtain ⟨hat, hcap⟩ := roomIdx_of_seated hs (by rw [hw]; rfl) (by rw [hw]; nofun) hseat he
    have hin := h.reading w idx hw r i e hseat he
    rcases hroom with hout | hfar
    · rw [hin] at hout
      cases hout
    · omega
  constructor
  · intro r i e hseat hdead
    refine (h.member r i e hseat hdead).imp ?_ id
    rintro ⟨w', hw'⟩
    refine ⟨w', ?_⟩
    have hne : w' ≠ w := by
      rintro rfl
      rw [hw] at hw'
      cases hw'
      exact hnone hseat rfl
    exact (congrArg NetPc.bids (Function.update_of_ne hne ..)).trans hw'
  · intro w' j hw'
    exact h.reading w' j (read_update (p := .release idx) (fun _ => nofun) hw').2
  · exact h.closed

theorem step_leavePush (h : Bidden L) (hs : Consistent L) {w idx r : Nat}
    (hw : L.net w = .leavePush idx r)
    (hok : ∀ r' i e, (L.room r').seated i = some e → e.sessIdx = idx →
      r' = r ∧ L.lock.emptying ≠ some r)
    (hroom : L'.room = Function.update L.room r ((L.room r).pushLeave ⟨idx, (L.sess idx).gen⟩))
    (hsess : L'.sess = L.sess) (hnet : L'.net = Function.update L.net w (.release idx))
    (hlock : L'.lock = L.lock) (hgame : L'.game = L.game) : Bidden L' := by
  have hself := Seats.room_self hroom
  have hseated := room_keeps (·.seated) hroom rfl
  have howner := room_keeps (·.owner) hroom rfl
  have hentry {r' : Nat} {i : Seat} {e : RoomLeaveEntry} (hseat : (L.room r').seated i = some e)
      (he : e.sessIdx = idx) : e = ⟨idx, (L.sess idx).gen⟩ := by
    have hgen : (L.sess e.sessIdx).gen = e.sessGen :=
      (hs.refs.holder r' _ (Ledger.token_of_seated hseat)).gen
    rw [he] at hgen
    rw [hgen, ← he]
  have hnew : (L'.room r).pendingLeave = (L.room r).pendingLeave ++ [⟨idx, (L.sess idx).gen⟩] := by
    rw [hself]
    rfl
  constructor
  · intro r' i e hseat hdead
    rw [hseated] at hseat
    rw [hsess] at hdead
    rw [Ledger.mem_leavesAt, howner, hgame, hlock]
    rcases eq_or_ne e.sessIdx idx with he | he
    · obtain ⟨rfl, -⟩ := hok r' i e hseat he
      refine Or.inr (Or.inl ?_)
      rw [hnew, hentry hseat he]
      exact List.mem_append_right _ (List.mem_singleton.mpr rfl)
    · rcases h.member r' i e hseat hdead with ⟨w', hw'⟩ | hmem
      · refine Or.inl ⟨w', ?_⟩
        have hne : w' ≠ w := by
          rintro rfl
          rw [hw] at hw'
          cases hw'
          exact he rfl
        rw [hnet, Function.update_of_ne hne]
        exact hw'
      · refine Or.inr ((Ledger.mem_leavesAt.mp hmem).imp_left fun hpend => ?_)
        rcases eq_or_ne r' r with rfl | hr
        · rw [hnew]
          exact List.mem_append_left _ hpend
        · rw [Seats.room_other hroom hr]
          exact hpend
  · intro w' j hw' r' i e hseat
    rw [hnet] at hw'
    rw [hseated] at hseat
    rw [hsess]
    have hold := (read_update (p := .release idx) (fun _ => nofun) hw').2
    exact h.reading w' j hold r' i e hseat
  · intro old hold e he i hseat
    rw [hlock] at hold
    rw [hseated] at hseat
    rcases eq_or_ne old r with rfl | hr
    · rw [hnew] at he
      rcases List.mem_append.mp he with hin | hin
      · exact h.closed old hold e hin i hseat
      · rw [List.mem_singleton.mp hin] at hseat
        exact (hok old i _ hseat rfl).2 hold
    · rw [Seats.room_other hroom hr] at he
      exact h.closed old hold e he i hseat

/-- A worker in the middle of an operation is not at the room that a transfer empties. -/
theorem not_emptying (hs : Consistent L) {g i r old : Nat} (hat : (L.game g).place = some (i, r))
    (hmoving : ∀ i r, L.game g ≠ .moving i r) (hold : L.lock.emptying = some old) : old ≠ r := by
  cases hl : L.lock with
  | move k j o n rest moved joins leaves =>
    rw [hl] at hold
    cases hold
    exact (hs.places.not_transfer hat hmoving (by rw [hl]; rfl)).1.symm
  | carry k j o n moved joins leaves =>
    rw [hl] at hold
    cases hold
    exact (hs.places.not_transfer hat hmoving (by rw [hl]; rfl)).1.symm
  | _ =>
    rw [hl] at hold
    cases hold

theorem step_seat (h : Bidden L) (hs : Consistent L) {g i r : Nat} {e : RoomJoinEntry}
    {js : List RoomJoinEntry} {ls : List RoomLeaveEntry} (hg : L.game g = .joins i r (e :: js) ls)
    (hstale : L.staleJoin e = false)
    (hroom : L'.room = Function.update L.room r ((L.room r).seat e))
    (hsess : L'.sess = L.sess) (hnet : L'.net = L.net) (hlock : L'.lock = L.lock)
    (hgame : L'.game = Function.update L.game g (.joins i r js ls)) : Bidden L' := by
  have halive : (L.sess e.sessIdx).dead = false := (Bool.or_eq_false_iff.mp hstale).2
  have hseated {r' : Nat} {i' : Seat} {e' : RoomLeaveEntry}
      (hseat : (L'.room r').seated i' = some e') :
      (L.room r').seated i' = some e' ∨ e' = ⟨e.sessIdx, e.sessGen⟩ := by
    rcases eq_or_ne r' r with rfl | hr
    · rw [Seats.room_self hroom] at hseat
      rcases eq_or_ne i' e.actorId with rfl | hi
      · have hself : ((L.room r').seat e).seated e.actorId = some ⟨e.sessIdx, e.sessGen⟩ :=
          Function.update_self ..
        exact Or.inr (Option.some.inj (hseat.symm.trans hself))
      · exact Or.inl ((Function.update_of_ne hi ..).symm.trans hseat)
    · rw [Seats.room_other hroom hr] at hseat
      exact Or.inl hseat
  have hleaves (r' : Nat) : L'.leavesAt r' = L.leavesAt r' := by
    refine Ledger.leavesAt_same (room_keeps (·.pendingLeave) hroom rfl r')
      (room_keeps (·.owner) hroom rfl r') (fun g' => ?_) (by rw [hlock])
    exact leaves_work hgame hg (fun _ => rfl) g' r'
  constructor
  · intro r' i' e' hseat hdead
    rw [hsess] at hdead
    rw [hleaves, Ledger.Departs, hnet]
    rcases hseated hseat with hold | rfl
    · exact h.member r' i' e' hold hdead
    · rw [halive] at hdead
      cases hdead
  · intro w j hw r' i' e' hseat he
    rw [hnet] at hw
    rw [hsess]
    rcases hseated hseat with hold | rfl
    · exact h.reading w j hw r' i' e' hold he
    · have hmem := hs.refs.net w j (by rw [hw]; rfl)
      have hdead := (hs.refs.dead w j hmem).mpr (by rw [hw]; rfl)
      cases he
      rw [halive] at hdead
      cases hdead
  · intro old hold e' he' i' hseat
    rw [hlock] at hold
    have hne := not_emptying hs (i := i) (r := r) (by rw [hg]; rfl) (by rw [hg]; nofun) hold
    rw [Seats.room_other hroom hne] at he' hseat
    exact h.closed old hold e' he' i' hseat

/-- The entries of the queues go to the worker's own list. -/
theorem step_take (h : Bidden L) (hs : Consistent L) {g i r : Nat} (hg : L.game g = .idle)
    (hr : (L.myRooms g)[i]? = some r)
    (hroom : L'.room = Function.update L.room r (L.room r).takeQueues)
    (hsess : L'.sess = L.sess) (hnet : L'.net = L.net) (hlock : L'.lock = L.lock)
    (hgame : L'.game = Function.update L.game g
      (.joins i r (L.room r).pendingJoin (L.room r).pendingLeave)) : Bidden L' := by
  have hown : (L.room r).owner = g := hs.places.mine_owner g r (List.mem_of_getElem? hr)
  have howner := room_keeps (·.owner) hroom rfl
  have hseated := room_keeps (·.seated) hroom rfl
  refine h.of_kept hs ?_ (fun _ _ => by rw [hsess]) (fun j hj => by rwa [Ledger.Departs, hnet]) ?_ ?_ ?_
  · intro r' i' e hseat
    rwa [hseated] at hseat
  · intro w j hw
    rw [hnet] at hw
    rw [hsess]
    exact ⟨hw, rfl⟩
  · intro r' i' e _ hmem
    rw [Ledger.mem_leavesAt, howner, hgame, hlock]
    rcases Ledger.mem_leavesAt.mp hmem with hpend | hhand | hcarried
    · rcases eq_or_ne r' r with rfl | hne
      · refine Or.inr (Or.inl ?_)
        rw [hown, Function.update_self]
        exact (congrArg (e ∈ ·) (if_pos rfl)).mpr hpend
      · rw [Seats.room_other hroom hne]
        exact Or.inl hpend
    · refine Or.inr (Or.inl ?_)
      have hne : (L.room r').owner ≠ g := by
        intro heq
        rw [heq, hg] at hhand
        cases hhand
      rw [Function.update_of_ne hne]
      exact hhand
    · exact Or.inr (Or.inr hcarried)
  · intro old hold
    rw [hlock] at hold
    refine ⟨hold, fun e he => ?_⟩
    rcases eq_or_ne old r with rfl | hne
    · rw [Seats.room_self hroom] at he
      cases he
    · rwa [Seats.room_other hroom hne] at he

theorem step_leaver (h : Bidden L) (hs : Consistent L) {g i r : Nat} {e : RoomLeaveEntry}
    {ls : List RoomLeaveEntry} {p : GamePc} (hg : L.game g = .leaves i r (e :: ls))
    (hseated : ∀ r' i' e', (L'.room r').seated i' = some e' → (L.room r').seated i' = some e')
    (hgone : ∀ i', (L'.room r).seated i' ≠ some e)
    (hpend : ∀ r', (L'.room r').pendingLeave = (L.room r').pendingLeave)
    (howner : ∀ r', (L'.room r').owner = (L.room r').owner)
    (hsess : L'.sess = L.sess) (hnet : L'.net = L.net) (hlock : L'.lock = L.lock)
    (hgame : L'.game = Function.update L.game g p)
    (hp : ∀ r', p.leavesAt r' = if r = r' then ls else []) : Bidden L' := by
  refine h.of_kept hs hseated (fun _ _ => by rw [hsess])
    (fun j hj => by rwa [Ledger.Departs, hnet]) ?_ ?_ ?_
  · intro w j hw
    rw [hnet] at hw
    rw [hsess]
    exact ⟨hw, rfl⟩
  · intro r' i' e' hseat hmem
    rw [Ledger.mem_leavesAt, howner, hgame, hlock, hpend]
    refine (Ledger.mem_leavesAt.mp hmem).imp_right (Or.imp_left fun hhand => ?_)
    rcases eq_or_ne (L.room r').owner g with heq | hne
    · rw [heq, Function.update_self, hp]
      rw [heq, hg] at hhand
      rcases eq_or_ne r r' with rfl | hr
      · rw [if_pos rfl]
        have hin : e' ∈ e :: ls := (congrArg (e' ∈ ·) (if_pos rfl)).mp hhand
        refine (List.mem_cons.mp hin).resolve_left ?_
        rintro rfl
        exact hgone i' hseat
      · exact absurd ((congrArg (e' ∈ ·) (if_neg hr)).mp hhand) List.not_mem_nil
    · rw [Function.update_of_ne hne]
      exact hhand
  · intro old hold
    rw [hlock] at hold
    rw [hpend]
    exact ⟨hold, fun _ he => he⟩

theorem unseat_gone (hs : Consistent L) {r : Nat} {seat : Seat} {e : RoomLeaveEntry}
    (hseat : (L.room r).seated seat = some e) (i : Seat) :
    ((L.room r).unseat seat).seated i ≠ some e := by
  intro hi
  rcases eq_or_ne i seat with rfl | hne
  · have hnone : ((L.room r).unseat i).seated i = none := Function.update_self ..
    rw [hnone] at hi
    cases hi
  · have hother : (L.room r).seated i = some e := (Function.update_of_ne hne ..).symm.trans hi
    have hcap := (hs.refs.holder r _ (Ledger.token_of_seated hseat)).room
    have heq := (Ledger.token_unique hs.refs.one hcap hcap (Ledger.token_of_seated hseat)
      (Ledger.token_of_seated hother) rfl).2
    exact hne (congrArg RoomJoinEntry.actorId heq)

theorem of_fresh (h : Bidden L) (hs : Consistent L) {r g : Nat}
    (hroom : L'.room = Function.update L.room r ((L.room r).fresh g))
    (hsess : L'.sess = L.sess) (hnet : L'.net = L.net)
    (hgame : ∀ g' r', (L'.game g').leavesAt r' = (L.game g').leavesAt r')
    (hlock : ∀ r', L.lock.leavesAt r' = []) (hemptying : L'.lock.emptying = none) : Bidden L' := by
  have hnone (i : Seat) (e : RoomLeaveEntry) : (L'.room r).seated i ≠ some e := by
    rw [Seats.room_self hroom]
    exact nofun
  refine h.of_kept hs ?_ (fun _ _ => by rw [hsess]) (fun j hj => by rwa [Ledger.Departs, hnet]) ?_ ?_ ?_
  · intro r' i e hseat
    rcases eq_or_ne r' r with rfl | hne
    · exact absurd hseat (hnone i e)
    · rwa [Seats.room_other hroom hne] at hseat
  · intro w j hw
    rw [hnet] at hw
    rw [hsess]
    exact ⟨hw, rfl⟩
  · intro r' i e hseat hmem
    have hne : r' ≠ r := by
      rintro rfl
      exact hnone i e hseat
    rw [Ledger.mem_leavesAt, Seats.room_other hroom hne, hgame]
    rcases Ledger.mem_leavesAt.mp hmem with hpend | hhand | hcarried
    · exact Or.inl hpend
    · exact Or.inr (Or.inl hhand)
    · rw [hlock] at hcarried
      cases hcarried
  · intro old hold
    rw [hemptying] at hold
    cases hold

/-- `TransferRoom` takes the queues of the old room along. -/
theorem step_close (h : Bidden L) {g i old nr : Nat}
    (hlock : L.lock = .close g i old nr)
    (hroom : L'.room = Function.update L.room old (L.room old).close)
    (hsess : L'.sess = L.sess) (hnet : L'.net = L.net) (hgame : L'.game = L.game)
    (hlock' : L'.lock = .move g i old nr (List.finRange 4) 0 (L.room old).pendingJoin
      (L.room old).pendingLeave) : Bidden L' := by
  have howner := room_keeps (·.owner) hroom rfl
  have hseated := room_keeps (·.seated) hroom rfl
  constructor
  · intro r i' e hseat hdead
    rw [hseated] at hseat
    rw [hsess] at hdead
    rw [Ledger.mem_leavesAt, howner, hgame, Ledger.Departs, hnet]
    refine (h.member r i' e hseat hdead).imp_right fun hmem => ?_
    rcases Ledger.mem_leavesAt.mp hmem with hpend | hhand | hcarried
    · rcases eq_or_ne r old with rfl | hne
      · refine Or.inr (Or.inr ?_)
        rw [hlock']
        exact (congrArg (e ∈ ·) (if_pos (Or.inl rfl))).mpr hpend
      · rw [Seats.room_other hroom hne]
        exact Or.inl hpend
    · exact Or.inr (Or.inl hhand)
    · rw [hlock] at hcarried
      cases hcarried
  · intro w j hw r i' e hseat he
    rw [hnet] at hw
    rw [hseated] at hseat
    rw [hsess]
    exact h.reading w j hw r i' e hseat he
  · intro o hold e he
    rw [hlock'] at hold
    cases hold
    rw [Seats.room_self hroom] at he
    cases he

theorem step_moveSeat (h : Bidden L) (hs : Consistent L) {g i old nr : Nat} {seat : Seat}
    {rest : List Seat} {moved : Int} {joins : List RoomJoinEntry} {leaves : List RoomLeaveEntry}
    {e : RoomLeaveEntry} (hlock : L.lock = .move g i old nr (seat :: rest) moved joins leaves)
    (hseat : (L.room old).seated seat = some e)
    (hroom : L'.room = ((L.modRoom nr (·.moveIn seat e)).modRoom old (·.moveOut seat)).room)
    (hsess : ∀ j, (L'.sess j).dead = (L.sess j).dead ∧ (L'.sess j).inRoom = (L.sess j).inRoom)
    (hnet : L'.net = L.net) (hgame : L'.game = L.game)
    (hlock' : L'.lock = .move g i old nr rest (moved + 1) joins leaves) : Bidden L' := by
  have hemptying : L.lock.emptying = some old := by rw [hlock]; rfl
  have hown := hs.places.transfer g i old nr (by rw [hlock]; rfl)
  obtain ⟨hne, -⟩ := Seats.transfer_hands hs.places (by rw [hlock]; rfl) (by rw [hlock]; rfl)
  have hold : L'.room old = (L.room old).moveOut seat := Seats.room_two_old hne hroom
  have hnr : L'.room nr = (L.room nr).moveIn seat e := Seats.room_two_new hne hroom
  have hother {r : Nat} : r ≠ old → r ≠ nr → L'.room r = L.room r := Seats.room_two_other hroom
  have hsame (r : Nat) : L'.leavesAt r = L.leavesAt r := by
    have hfields : (L'.room r).pendingLeave = (L.room r).pendingLeave ∧
        (L'.room r).owner = (L.room r).owner := by
      rcases eq_or_ne r old with rfl | ho
      · rw [hold]
        exact ⟨rfl, rfl⟩
      · rcases eq_or_ne r nr with rfl | hn
        · rw [hnr]
          exact ⟨rfl, rfl⟩
        · rw [hother ho hn]
          exact ⟨rfl, rfl⟩
    refine Ledger.leavesAt_same hfields.1 hfields.2 (fun _ => by rw [hgame]) ?_
    rw [hlock, hlock']
    rfl
  have hstay {i' : Seat} {e' : RoomLeaveEntry} (hi : (L'.room old).seated i' = some e') :
      (L.room old).seated i' = some e' := by
    rw [hold] at hi
    rcases eq_or_ne i' seat with rfl | hs'
    · have hnone : ((L.room old).moveOut i').seated i' = none := Function.update_self ..
      rw [hnone] at hi
      cases hi
    · exact (Function.update_of_ne hs' ..).symm.trans hi
  have hcame {r : Nat} {i' : Seat} {e' : RoomLeaveEntry} (hi : (L'.room r).seated i' = some e') :
      (L.room r).seated i' = some e' ∨ r = nr ∧ e' = e := by
    rcases eq_or_ne r old with rfl | ho
    · exact Or.inl (hstay hi)
    · rcases eq_or_ne r nr with rfl | hn
      · rw [hnr] at hi
        rcases eq_or_ne i' seat with rfl | hs'
        · have hself : ((L.room r).moveIn i' e).seated i' = some e := Function.update_self ..
          exact Or.inr ⟨rfl, Option.some.inj (hi.symm.trans hself)⟩
        · exact Or.inl ((Function.update_of_ne hs' ..).symm.trans hi)
      · rw [hother ho hn] at hi
        exact Or.inl hi
  constructor
  · intro r i' e' hi hdead
    rw [(hsess e'.sessIdx).1] at hdead
    rw [hsame, Ledger.Departs, hnet]
    rcases hcame hi with hwas | ⟨rfl, rfl⟩
    · exact h.member r i' e' hwas hdead
    · refine (h.member old seat e' hseat hdead).imp_right fun hmem => ?_
      -- the entry is not in the old room's queue, nor in the hand of its worker
      refine Ledger.mem_leavesAt.mpr (Or.inr (Or.inr ?_))
      rcases Ledger.mem_leavesAt.mp hmem with hpend | hhand | hcarried
      · exact absurd hseat (h.closed old hemptying e' hpend seat)
      · rw [hs.places.owner_of_place (g := g) (i := i) (r := old) (by rw [hown.1]; rfl),
          hown.1] at hhand
        cases hhand
      · rw [hlock] at hcarried ⊢
        have hin : e' ∈ leaves := (congrArg (e' ∈ ·) (if_pos (Or.inl rfl))).mp hcarried
        exact (congrArg (e' ∈ ·) (if_pos (Or.inr rfl))).mpr hin
  · intro w j hw r i' e' hi he
    rw [hnet] at hw
    rw [(hsess j).2]
    rcases hcame hi with hwas | ⟨-, rfl⟩
    · exact h.reading w j hw r i' e' hwas he
    · exact h.reading w j hw old seat e' hseat he
  · intro o ho e' he' i' hi
    rw [hlock'] at ho
    cases ho
    refine h.closed old hemptying e' ?_ i' (hstay hi)
    rw [hold] at he'
    exact he'

theorem step_finish (h : Bidden L) (hs : Consistent L) {g i old nr : Nat} {moved : Int}
    {leaves : List RoomLeaveEntry} (hlock : L.lock = .carry g i old nr moved [] leaves)
    (hroom : L'.room = Function.update L.room nr ((L.room nr).finish moved leaves))
    (hsess : L'.sess = L.sess) (hnet : L'.net = L.net) (hlock' : L'.lock = .free)
    (hgame : L'.game = Function.update L.game g (.announce nr)) : Bidden L' := by
  have howner := room_keeps (·.owner) hroom rfl
  have hseated := room_keeps (·.seated) hroom rfl
  obtain ⟨hg, -⟩ := hs.places.transfer g i old nr (by rw [hlock]; rfl)
  obtain ⟨-, hunused, -⟩ := hs.seats.carry g i old nr moved [] leaves hlock
  have hempty : L.tokens old = 0 := hs.seats.tokens_eq_zero (by rw [hlock]; nofun) hunused
  have hnew : (L'.room nr).pendingLeave = (L.room nr).pendingLeave ++ leaves := by
    rw [Seats.room_self hroom]
    rfl
  refine h.of_kept hs ?_ (fun _ _ => by rw [hsess]) (fun j hj => by rwa [Ledger.Departs, hnet]) ?_ ?_ ?_
  · intro r i' e hseat
    rwa [hseated] at hseat
  · intro w j hw
    rw [hnet] at hw
    rw [hsess]
    exact ⟨hw, rfl⟩
  · intro r i' e hseat hmem
    rw [hseated] at hseat
    rw [Ledger.mem_leavesAt, howner, leaves_work hgame hg fun _ => rfl]
    rcases Ledger.mem_leavesAt.mp hmem with hpend | hhand | hcarried
    · rcases eq_or_ne r nr with rfl | hne
      · rw [hnew]
        exact Or.inl (List.mem_append_left _ hpend)
      · rw [Seats.room_other hroom hne]
        exact Or.inl hpend
    · exact Or.inr (Or.inl hhand)
    · rw [hlock] at hcarried
      rcases eq_or_ne r nr with rfl | hne
      · rw [hnew]
        exact Or.inl (List.mem_append_right _
          ((congrArg (e ∈ ·) (if_pos (Or.inr rfl))).mp hcarried))
      · rcases eq_or_ne r old with rfl | ho
        · have htoken := Ledger.token_of_seated hseat
          rw [hempty] at htoken
          exact absurd htoken (Multiset.notMem_zero _)
        · have hnil : e ∈ ([] : List RoomLeaveEntry) :=
            (congrArg (e ∈ ·) (if_neg (not_or.mpr ⟨ho, hne⟩))).mp hcarried
          cases hnil
  · intro o ho
    rw [hlock'] at ho
    cases ho

theorem step (h : Bidden L) (hs : Consistent L) {a : Actor} (ht : L.Trans a L')
    (hok : ∀ w idx r, a = .net w → L.net w = .leavePush idx r →
      ∀ r' i e, (L.room r').seated i = some e → e.sessIdx = idx →
        r' = r ∧ L.lock.emptying ≠ some r) : Bidden L' := by
  cases ht with
  | accept w idx hw hidx =>
    refine h.of_calm hs { dead := fun j hj => ?_, read := fun w' j hw' => ⟨hw', ?_⟩ }
    · exact congrArg SessBook.dead (Function.update_of_ne (claims_ne hs hidx hj) ..)
    · refine congrArg SessBook.inRoom (Function.update_of_ne ?_ ..)
      rintro rfl
      exact not_reading hs hidx hw'
  | refuse w idx hidx =>
    refine h.of_calm hs { dead := fun j hj => ?_, read := fun w' j hw' => ⟨hw', ?_⟩ }
    · exact congrArg SessBook.dead (Function.update_of_ne (claims_ne hs hidx hj) ..)
    · refine congrArg SessBook.inRoom (Function.update_of_ne ?_ ..)
      rintro rfl
      exact not_reading hs hidx hw'
  | toIdle w hw =>
    refine h.of_calm hs (.of_net rfl rfl rfl rfl ?_ rfl (fun _ => rfl) rfl)
    rcases hw with ⟨idx, hw⟩ | ⟨idx, _, _, hw⟩ | ⟨idx, _, _, hw⟩ <;> rw [hw] <;> rfl
  | toInput w idx r c hw =>
    exact h.of_calm hs (.of_net rfl rfl rfl rfl (by rw [hw]; rfl) rfl (fun _ => rfl) rfl)
  | toJoin w idx hw | noWorkers w idx hw =>
    exact h.of_calm hs (.of_net rfl rfl rfl rfl (by rw [hw]; rfl) rfl (fun _ => rfl) rfl)
  | scan w idx hw hlock =>
    exact h.of_calm hs (.of_net rfl rfl rfl rfl (by rw [hw]; rfl) rfl (fun _ => by rw [hlock]; rfl)
      (by rw [hlock]; rfl))
  | scanRefuse w idx hlock =>
    have hw := hs.refs.joiner w idx (by rw [hlock]; rfl)
    exact h.of_calm hs (.of_net rfl rfl rfl rfl (by rw [hw]; rfl) rfl (fun _ => by rw [hlock]; rfl)
      (by rw [hlock]; rfl))
  | cut w idx hw => exact h.step_cut hs hw
  | leaveNone w idx hw hroom => exact h.step_leaveNone hs hw hroom
  | leaveRead w idx hw hroom hcap =>
    have hidx (w' j : Nat) (hne : w' ≠ w) (hw' : L.net w' = .leaveRead j) : j ≠ idx := by
      rintro rfl
      exact hne (net_unique hs (by rw [hw]; rfl) (by rw [hw']; rfl))
    refine h.of_calm hs { dead := fun j _ => ?_, bids := bids_work rfl hw rfl, read := ?_ }
    · exact sess_keeps (·.dead) (S := (L.sess idx).left) rfl rfl j
    · intro w' j hw'
      obtain ⟨hne, hold⟩ := read_update (p := .leavePush idx (L.sess idx).roomIdx) (fun _ => nofun) hw'
      exact ⟨hold, congrArg SessBook.inRoom (Function.update_of_ne (hidx w' j hne hold) ..)⟩
  | leavePush w idx r hw => exact h.step_leavePush hs hw (hok w idx r rfl hw) rfl rfl rfl rfl rfl
  | netRelease w idx hw =>
    refine h.of_calm hs { dead := fun j _ => ?_, bids := bids_work rfl hw rfl, read := ?_ }
    · exact sess_keeps (·.dead) (S := (L.sess idx).released) rfl rfl j
    · exact fun w' j hw' => ⟨(read_update (p := .idle) (fun _ => nofun) hw').2,
        sess_keeps (·.inRoom) (S := (L.sess idx).released) rfl rfl j⟩
  | scanPop w idx hlock => exact h.of_calm hs {}
  | scanTake w idx r i hlock =>
    exact h.of_calm hs (.of_room (r := r) rfl rfl rfl rfl (fun _ => ⟨rfl, rfl⟩) rfl
      (fun _ _ => rfl) (fun _ => by rw [hlock]; rfl) (by rw [hlock]; rfl))
  | mail w idx r hlock =>
    exact h.of_calm hs { lock := fun _ => by rw [hlock]; rfl, emptying := by rw [hlock]; rfl }
  | first w idx r hlock =>
    exact h.of_calm hs (.of_room (r := r) rfl rfl rfl rfl (fun _ => ⟨rfl, rfl⟩) rfl
      (fun _ _ => rfl) (fun _ => by rw [hlock]; rfl) (by rw [hlock]; rfl))
  | push w idx r i hlock =>
    exact h.of_calm hs (.of_room (r := r) rfl rfl rfl rfl
      (fun j => ⟨sess_keeps (·.dead) (S := (L.sess idx).addRef) rfl rfl j,
        sess_keeps (·.inRoom) (S := (L.sess idx).addRef) rfl rfl j⟩) rfl
      (fun _ _ => rfl) (fun _ => by rw [hlock]; rfl) (by rw [hlock]; rfl))
  | store w idx r i hlock =>
    have hw := hs.refs.joiner w idx (by rw [hlock]; rfl)
    have hidx (w' j : Nat) (hne : w' ≠ w) (hw' : L.net w' = .leaveRead j) : j ≠ idx := by
      rintro rfl
      exact hne (net_unique hs (by rw [hw]; rfl) (by rw [hw']; rfl))
    refine h.of_calm hs
      { dead := fun j _ => ?_
        bids := bids_work rfl hw rfl
        read := ?_
        lock := fun _ => by rw [hlock]; rfl
        emptying := by rw [hlock]; rfl }
    · exact sess_keeps (·.dead) (S := (L.sess idx).placed r i) rfl rfl j
    · intro w' j hw'
      obtain ⟨hne, hold⟩ := read_update (p := .joined idx i.val r) (fun _ => nofun) hw'
      exact ⟨hold, congrArg SessBook.inRoom (Function.update_of_ne (hidx w' j hne hold) ..)⟩
  | close g i old nr hlock => exact h.step_close hlock rfl rfl rfl rfl rfl
  | movePass g i old nr seat rest moved joins leaves hlock =>
    exact h.of_calm hs { lock := fun _ => by rw [hlock]; rfl, emptying := by rw [hlock]; rfl }
  | moveSeat g i old nr seat rest moved joins leaves e hlock hseat =>
    refine h.step_moveSeat hs hlock hseat rfl (fun j => ⟨?_, ?_⟩) rfl rfl rfl
    · exact sess_keeps (·.dead) (S := (L.sess e.sessIdx).moved e.sessGen nr) rfl
        (SessBook.moved_keeps (·.dead) (fun _ _ => rfl) ..) j
    · exact sess_keeps (·.inRoom) (S := (L.sess e.sessIdx).moved e.sessGen nr) rfl
        (SessBook.moved_keeps (·.inRoom) (fun _ _ => rfl) ..) j
  | moveEnd g i old nr moved joins leaves hlock =>
    have hrooms {β : Type} (f : RoomBook → β) (hopen : ∀ R : RoomBook, f R.openMoved = f R)
        (hempty : ∀ R : RoomBook, f R.empty = f R) (r : Nat) :
        f (Function.update (Function.update L.room nr (L.room nr).openMoved) old
          ((Function.update L.room nr (L.room nr).openMoved) old).empty r) = f (L.room r) :=
      (room_update f (hempty _) r).trans (room_update f (hopen _) r)
    exact h.of_calm hs
      { seated := hrooms (·.seated) (fun _ => rfl) fun _ => rfl
        pending := hrooms (·.pendingLeave) (fun _ => rfl) fun _ => rfl
        owner := hrooms (·.owner) (fun _ => rfl) fun _ => rfl
        lock := fun _ => by rw [hlock]; rfl
        emptying := by rw [hlock]; rfl }
  | carry g i old nr moved e joins leaves hlock =>
    have hroom {β : Type} (f : RoomBook → β)
        (hf : ∀ (R : RoomBook) u n p,
          f { R with seatUsed := u, reservedSeats := n, pendingJoin := p } = f R) :
        f ((L.room nr).carryJoin e) = f (L.room nr) := by
      unfold RoomBook.carryJoin
      split
      · exact hf ..
      · exact hf ..
    have hmoved {β : Type} (f : SessBook → β) (hf : ∀ S r, f { S with roomIdx := r } = f S) :=
      SessBook.moved_keeps f hf (L.sess e.sessIdx) e.sessGen nr
    refine h.of_calm hs (.of_room (r := nr) (R := (L.room nr).carryJoin e) rfl
      (hroom (·.seated) fun _ _ _ _ => rfl) (hroom (·.pendingLeave) fun _ _ _ _ => rfl)
      (hroom (·.owner) fun _ _ _ _ => rfl) (fun j => ⟨?_, ?_⟩) rfl (fun _ _ => rfl)
      (fun _ => by rw [hlock]; rfl) (by rw [hlock]; rfl))
    · exact sess_keeps (·.dead) (S := (L.sess e.sessIdx).moved e.sessGen nr) rfl
        (hmoved (·.dead) fun _ _ => rfl) j
    · exact sess_keeps (·.inRoom) (S := (L.sess e.sessIdx).moved e.sessGen nr) rfl
        (hmoved (·.inRoom) fun _ _ => rfl) j
  | finish g i old nr moved leaves hlock => exact h.step_finish hs hlock rfl rfl rfl rfl rfl
  | drain g hg => exact h.of_calm hs {}
  | take g i r hg hr => exact h.step_take hs hg hr rfl rfl rfl rfl rfl
  | skip g i r e js ls hg =>
    exact h.of_calm hs (.of_room (r := r) rfl rfl rfl rfl (fun _ => ⟨rfl, rfl⟩) rfl
      (leaves_work rfl hg fun _ => rfl) (fun _ => rfl) rfl)
  | seat g i r e js ls hg hstale => exact h.step_seat hs hg hstale rfl rfl rfl rfl rfl
  | joinsEnd g i r ls hg =>
    exact h.of_calm hs { game := leaves_work rfl hg fun _ => rfl }
  | skipRelease g i r idx js ls hg =>
    exact h.of_calm hs (.of_sess (S := (L.sess idx).released) rfl rfl rfl rfl rfl
      (leaves_work rfl hg fun _ => rfl) rfl)
  | unseat g i r seat e ls hg hseat =>
    have hat := RoomBook.seated_of_findLeaver hseat
    refine h.step_leaver (p := .drop i r e.sessIdx ls) hs hg ?_ ?_
      (room_keeps (·.pendingLeave) (R := (L.room r).unseat seat) rfl rfl)
      (room_keeps (·.owner) (R := (L.room r).unseat seat) rfl rfl) rfl rfl rfl rfl (fun _ => rfl)
    · intro r' i' e' hi
      rcases eq_or_ne r' r with rfl | hr
      · have hself : Function.update L.room r' ((L.room r').unseat seat) r' =
            (L.room r').unseat seat := Function.update_self ..
        replace hi : ((L.room r').unseat seat).seated i' = some e' := hself ▸ hi
        rcases eq_or_ne i' seat with rfl | hne
        · have hnone : ((L.room r').unseat i').seated i' = none := Function.update_self ..
          rw [hnone] at hi
          cases hi
        · exact (Function.update_of_ne hne ..).symm.trans hi
      · have hother : Function.update L.room r ((L.room r).unseat seat) r' = L.room r' :=
          Function.update_of_ne hr ..
        exact hother ▸ hi
    · intro i'
      have hself : Function.update L.room r ((L.room r).unseat seat) r =
          (L.room r).unseat seat := Function.update_self ..
      exact (congrArg (·.seated i' ≠ some e) hself).mpr (unseat_gone hs hat i')
  | noLeaver g i r e ls hg hseat =>
    exact h.step_leaver (p := .leaves i r ls) hs hg (fun _ _ _ hi => hi)
      (RoomBook.findLeaver_none hseat) (fun _ => rfl) (fun _ => rfl) rfl rfl rfl rfl (fun _ => rfl)
  | dropRelease g i r idx ls hg =>
    exact h.of_calm hs (.of_sess (S := (L.sess idx).released) rfl rfl rfl rfl rfl
      (leaves_work rfl hg fun _ => rfl) rfl)
  | die g i r hg =>
    exact h.of_calm hs (.of_room (r := r) rfl rfl rfl rfl (fun _ => ⟨rfl, rfl⟩) rfl
      (leaves_work rfl hg fun _ => (ite_self []).symm) (fun _ => rfl) rfl)
  | live g i r hg =>
    exact h.of_calm hs
      { game := leaves_work rfl hg fun _ => (ite_self []).symm }
  | freeRoom g i r hg hlock | stay g i r hg | announced g r hg =>
    exact h.of_calm hs { game := leaves_work rfl hg fun _ => rfl }
  | exit g i r hg =>
    exact h.of_calm hs { game := leaves_work rfl hg fun _ => rfl }
  | scanAlloc w idx r g hlock hr =>
    exact h.of_fresh hs (r := r) (g := g) rfl rfl rfl (fun _ _ => rfl) (fun _ => by rw [hlock]; rfl)
      rfl
  | transfer g i old nr hg hlock hnr =>
    exact h.of_fresh hs (r := nr) rfl rfl rfl (leaves_work rfl hg fun _ => rfl)
      (fun _ => by rw [hlock]; rfl) rfl

theorem init (sessionCapacity roomCapacity workerCount : Nat) :
    Bidden (System.init sessionCapacity roomCapacity workerCount).ledger where
  member r i e hseat _ := by cases hseat
  reading w idx hw := by cases hw
  closed old hold := by cases hold

end Bidden

/-! ### Runs -/

namespace System

/-- The leave that an epoll worker is about to append goes to the room where the member of the
session sits, if it has one, and that room's members are not moving. -/
def Routed (a : Act) (s : System) : Prop :=
  ∀ w idx r, a = .net w → s.net w = .leavePush idx r → ∀ r' < s.srv.cap, ∀ i,
    ((s.srv.rooms r').members i).used = true → ((s.srv.rooms r').members i).sessIdx = idx →
      r' = r ∧ s.lock.emptying ≠ some r

/-- The session is cut, and its `OnSessionLeave` is complete. -/
def HasLeft (s : System) (idx : Nat) : Prop :=
  (s.srv.sess idx).dead = true ∧ ∀ w, (s.net w).bids ≠ some idx

/-- The leave entries that the `ProcessRoomQueues` or `TransferRoom` in progress has taken out of
the queue of room `r`. -/
def takenLeaves (s : System) (r : Nat) : List RoomLeaveEntry :=
  (s.game (s.srv.rooms r).gameWorker).leavesAt r ++ s.lock.leavesAt r

/-- No operation is in progress, and the queues of the live rooms are empty. -/
structure Settled (s : System) : Prop where
  net : ∀ w, s.net w = .idle
  game : ∀ g, s.game g = .idle
  lock : s.lock = .free
  queues : ∀ r < s.srv.cap, r ∉ s.srv.freeRooms →
    (s.srv.rooms r).pendingJoin = [] ∧ (s.srv.rooms r).pendingLeave = []

/-- No leave is lost: a member whose session has left has its entry where the worker of its room
finds it, and when all is done seats and references are given back. -/
structure LeavesKept (s : System) : Prop where
  entry : ∀ r i, ((s.srv.rooms r).members i).used = true →
    r ∉ s.srv.freeRooms ∧
      (s.srv.sess ((s.srv.rooms r).members i).sessIdx).gen = ((s.srv.rooms r).members i).sessGen ∧
      (s.HasLeft ((s.srv.rooms r).members i).sessIdx →
        ⟨((s.srv.rooms r).members i).sessIdx, ((s.srv.rooms r).members i).sessGen⟩ ∈
          (s.srv.rooms r).pendingLeave ++ s.takenLeaves r)
  settled : s.Settled →
    (∀ r i, ((s.srv.rooms r).members i).used = true →
      (s.srv.sess ((s.srv.rooms r).members i).sessIdx).dead = false) ∧
    (∀ r i, (s.srv.rooms r).seatUsed i = ((s.srv.rooms r).members i).used) ∧
    ∀ idx, (s.srv.sess idx).dead = true → (s.srv.sess idx).refs = 0

section Settled
variable {s : System} (hs : Consistent s.ledger) (hsettled : s.Settled)
include hs hsettled

/-- Only members are left to hold a seat. -/
theorem Settled.tokens (r : Nat) : s.ledger.tokens r = (s.srv.rooms r).book.members := by
  have hhand : s.ledger.hand r = 0 := by
    refine GamePc.handAt_of_none ?_ r
    exact congrArg GamePc.place (hsettled.game _)
  have hstill : ∀ old nr, s.ledger.lock.moving = some (old, nr) → r ≠ old ∧ r ≠ nr := by
    intro old nr hmoving
    have hfree : s.ledger.lock = .free := hsettled.lock
    rw [hfree] at hmoving
    cases hmoving
  have hpending : (s.ledger.room r).pendingJoin = [] := by
    rcases Nat.lt_or_ge r s.srv.cap with hr | hr
    · by_cases hfree : r ∈ s.srv.freeRooms
      · have hzero := hs.seats.tokens_eq_zero hstill (hs.seats.free r hfree)
        exact (parts_of_tokens_zero hzero).2.1
      · exact (hsettled.queues r hr hfree).1
    · refine List.eq_nil_iff_forall_not_mem.mpr fun e he => ?_
      have htoken : e ∈ s.ledger.tokens r :=
        Multiset.mem_add.mpr (Or.inl (Multiset.mem_add.mpr (Or.inr (Multiset.mem_coe.mpr he))))
      exact absurd (hs.refs.holder r e htoken).room (Nat.not_lt.mpr hr)
  rw [Ledger.tokens, hhand, hpending]
  exact (add_zero _).trans (add_zero _)

theorem Settled.seatUsed (r : Nat) (i : Seat) :
    (s.srv.rooms r).seatUsed i = ((s.srv.rooms r).members i).used := by
  have hfree : s.ledger.lock = .free := hsettled.lock
  have hseat := hs.seats.seats r (by rw [hfree]; nofun) i
  rw [hsettled.tokens hs, hfree, seatCount_members, Room.seated_isSome] at hseat
  have hbits : ((s.srv.rooms r).members i).used.toNat = ((s.srv.rooms r).seatUsed i).toNat := hseat
  cases hused : ((s.srv.rooms r).members i).used <;>
    cases hflag : (s.srv.rooms r).seatUsed i <;> simp [hused, hflag] at hbits ⊢

/-- A session whose members are gone has no reference left. -/
theorem Settled.refs {idx : Nat} (hdead : (s.srv.sess idx).dead = true)
    (hmembers : ∀ r i, ((s.srv.rooms r).members i).used = true →
      (s.srv.sess ((s.srv.rooms r).members i).sessIdx).dead = false) :
    (s.srv.sess idx).refs = 0 := by
  have hown : s.ledger.ownRef idx = 0 := by
    refine if_neg fun hmem => ?_
    have hleaving := (hs.refs.dead _ idx hmem).mp hdead
    rw [show s.ledger.net _ = .idle from hsettled.net _] at hleaving
    cases hleaving
  have hclaims : s.ledger.claims.count idx = 0 := by
    refine Multiset.count_eq_zero_of_notMem fun hmem => ?_
    rcases Multiset.mem_add.mp hmem with hroom | hflight
    · obtain ⟨r, -, hr⟩ := Multiset.mem_sum.mp hroom
      rcases Multiset.mem_add.mp hr with htoken | howed
      · rw [hsettled.tokens hs] at htoken
        obtain ⟨e, he, rfl⟩ := Multiset.mem_map.mp htoken
        obtain ⟨i, e', hseat, rfl⟩ := Tally.mem_ofTable.mp he
        obtain ⟨hused, hsess, -⟩ := Room.seated_eq_some.mp hseat
        have halive := hmembers r i hused
        rw [hsess, hdead] at halive
        cases halive
      · have hnone : s.ledger.owed r = 0 :=
          GamePc.owedAt_of_none (congrArg GamePc.place (hsettled.game _)) r
        rw [hnone] at howed
        exact Multiset.notMem_zero _ howed
    · have hfree : s.ledger.lock = .free := hsettled.lock
      rw [hfree] at hflight
      exact Multiset.notMem_zero _ hflight
  have hrefs := hs.refs.refs idx
  rw [hown, hclaims] at hrefs
  exact hrefs

end Settled

theorem leavesKept_of_bidden {s : System} (hs : Consistent s.ledger) (h : Bidden s.ledger) :
    s.LeavesKept := by
  have hentry (r : Nat) (i : Seat) (hused : ((s.srv.rooms r).members i).used = true)
      (hleft : s.HasLeft ((s.srv.rooms r).members i).sessIdx) :
      ⟨((s.srv.rooms r).members i).sessIdx, ((s.srv.rooms r).members i).sessGen⟩ ∈
        (s.srv.rooms r).pendingLeave ++ s.takenLeaves r := by
    rw [takenLeaves, ← List.append_assoc]
    refine (h.member r i ⟨((s.srv.rooms r).members i).sessIdx,
      ((s.srv.rooms r).members i).sessGen⟩ (Room.seated_eq_some.mpr ⟨hused, rfl, rfl⟩)
      hleft.1).resolve_left ?_
    rintro ⟨w, hw⟩
    exact hleft.2 w hw
  have hgone (hsettled : s.Settled) (r : Nat) (i : Seat)
      (hused : ((s.srv.rooms r).members i).used = true) :
      (s.srv.sess ((s.srv.rooms r).members i).sessIdx).dead = false := by
    refine Bool.eq_false_iff.mpr fun hdead => ?_
    have hmem := hentry r i hused ⟨hdead, fun w => by rw [hsettled.net w]; nofun⟩
    rw [takenLeaves, hsettled.game, hsettled.lock,
      (hsettled.queues r (lt_cap_of_used hs hused) (not_free_of_used hs hused)).2] at hmem
    exact List.not_mem_nil hmem
  constructor
  · intro r i hused
    exact ⟨not_free_of_used hs hused, (holder_of_used hs hused).1, hentry r i hused⟩
  · intro hsettled
    exact ⟨hgone hsettled, hsettled.seatUsed hs,
      fun idx hdead => hsettled.refs hs hdead (hgone hsettled)⟩

/-- The step of a worker in `OnSessionLeave` is a routed one. -/
theorem Routed.of_push {a : Act} {s t : System} (hok : Routed a s) (hs : Consistent s.ledger)
    (ht : step a s = some t) {w idx r : Nat} (ha : a.actor = .net w)
    (hw : s.net w = .leavePush idx r) {r' : Nat} {i : Seat} {e : RoomLeaveEntry}
    (hseat : (s.ledger.room r').seated i = some e) (he : e.sessIdx = idx) :
    r' = r ∧ s.ledger.lock.emptying ≠ some r := by
  have hnot (idx' : Nat) : ¬s.handles w idx' = true := by
    intro hhandles
    have hidle := (handles_iff.mp hhandles).1
    rw [hw] at hidle
    cases hidle
  have hnet : a = .net w := by
    cases a with
    | net w' =>
      cases ha
      rfl
    | frame w' idx' f remainUs =>
      cases ha
      simp [step, hnot] at ht
    | disconnect w' idx' | flush w' idx' n =>
      cases ha
      simp [step, hnot] at ht
    | _ => cases ha
  obtain ⟨hused, hsess, -⟩ := Room.seated_eq_some.mp hseat
  exact hok w idx r hnet hw r' (lt_cap_of_used hs hused) i hused (hsess.trans he)

end System

/-- In a run in which every leave is appended to the room where the member sits, and not while
that room's members are moving, no leave is lost. -/
theorem leave_kept {sessionCapacity roomCapacity workerCount : Nat} {s : System}
    (h : Reach System.step System.Routed (System.init sessionCapacity roomCapacity workerCount) s) :
    s.LeavesKept := by
  refine System.leavesKept_of_bidden (System.consistent h) ?_
  refine h.invariant (P := fun s => Bidden s.ledger) (Bidden.init ..) fun s a t hreach hs hok ht => ?_
  have hc := System.consistent hreach
  rcases s.trans_of_step ht with hsame | htrans
  · exact hsame ▸ hs
  · exact hs.step hc htrans fun w idx r ha hw r' i e hseat he => hok.of_push hc ht ha hw hseat he

/-! ### Fixed runs -/

namespace System

def routes (a : Act) (s : System) : Bool :=
  match a with
  | .net w =>
    match s.net w with
    | .leavePush idx r =>
      (List.range s.srv.cap).all fun r' => (List.finRange 4).all fun i =>
        !((s.srv.rooms r').members i).used || ((s.srv.rooms r').members i).sessIdx != idx ||
          (r' == r && s.lock.emptying != some r)
    | _ => true
  | _ => true

theorem routes_sound (a : Act) (s : System) (h : routes a s = true) : Routed a s := by
  intro w idx r ha hw r' hr' i hused hsess
  subst ha
  simp only [routes, hw] at h
  have hi := List.all_eq_true.mp (List.all_eq_true.mp h r' (List.mem_range.mpr hr')) i
    (List.mem_finRange i)
  simpa [hused, hsess] using hi

end System

def parting : List Act :=
  [.accept 0 5 true true true, .frame 0 0 [6, 0, 10, 0, 1, 0] 0, .net 0, .lock, .lock, .lock, .lock,
    .lock, .net 0, .drain 0, .process 0 0, .game 0, .game 0, .game 0, .disconnect 0 0, .net 0, .net 0,
    .net 0]

theorem leave_kept_parting : ∃ s,
    runIf System.step System.routes parting (System.init 1 1 1) = some s ∧
    ((s.srv.rooms 0).members firstSeat).used = true ∧ (s.srv.sess 0).dead = true ∧
    (s.srv.sess 0).refs = 1 ∧ s.LeavesKept := by
  have hrun : (runIf System.step System.routes parting (System.init 1 1 1)).map (fun s =>
      (((s.srv.rooms 0).members firstSeat).used, (s.srv.sess 0).dead, (s.srv.sess 0).refs)) =
      some (true, true, 1) := by decide +kernel
  obtain ⟨s, hs, hproj⟩ := Option.map_eq_some_iff.mp hrun
  simp only [Prod.mk.injEq] at hproj
  exact ⟨s, hs, hproj.1, hproj.2.1, hproj.2.2, leave_kept (reach_of_runIf System.routes_sound hs)⟩

/-- Only the first `n` workers of each kind have done anything. -/
structure Ledger.Within (L : Ledger) (n : Nat) : Prop where
  net : ∀ w, n ≤ w → L.net w = .idle
  game : ∀ g, n ≤ g → L.game g = .idle

def Actor.within (n : Nat) : Actor → Bool
  | .accept w | .net w => decide (w < n)
  | .lock => true
  | .game g => decide (g < n)

namespace Ledger.Within

variable {L L' : Ledger} {n : Nat}

theorem of_net (h : L.Within n) {w : Nat} {p : NetPc} (hw : w < n)
    (hnet : L'.net = Function.update L.net w p) (hgame : L'.game = L.game) : L'.Within n where
  net w' hw' := by
    rw [hnet, Function.update_of_ne (by omega)]
    exact h.net w' hw'
  game g hg := by
    rw [hgame]
    exact h.game g hg

theorem of_game (h : L.Within n) {g : Nat} {p : GamePc} (hg : g < n)
    (hnet : L'.net = L.net) (hgame : L'.game = Function.update L.game g p) : L'.Within n where
  net w hw := by
    rw [hnet]
    exact h.net w hw
  game g' hg' := by
    rw [hgame, Function.update_of_ne (by omega)]
    exact h.game g' hg'

theorem joiner_lt (h : L.Within n) (hs : Consistent L) {w j : Nat}
    (hj : L.lock.joiner = some (w, j)) : w < n := by
  by_contra hle
  have hw := hs.refs.joiner w j hj
  rw [h.net w (by omega)] at hw
  cases hw

theorem step (h : L.Within n) (hs : Consistent L) {a : Actor} (ht : L.Trans a L')
    (ha : a.within n = true) : L'.Within n := by
  cases ht with
  | accept | refuse => exact ⟨h.net, h.game⟩
  | toIdle | toInput | toJoin | cut | leaveNone | leaveRead | leavePush | netRelease | noWorkers
  | scan => exact h.of_net (of_decide_eq_true ha) rfl rfl
  | scanRefuse w idx hlock | store w idx r i hlock =>
    exact h.of_net (h.joiner_lt hs (w := w) (j := idx) (by rw [hlock]; rfl)) rfl rfl
  | scanPop | scanTake | scanAlloc | mail | first | push | close | movePass | moveSeat | moveEnd
  | carry => exact ⟨h.net, h.game⟩
  | finish g i old nr moved leaves hlock =>
    refine h.of_game (g := g) (p := .announce nr) ?_ rfl rfl
    by_contra hle
    have hg := (hs.places.transfer g i old nr (by rw [hlock]; rfl)).1
    rw [h.game g (by omega)] at hg
    cases hg
  | drain => exact ⟨h.net, h.game⟩
  | take | skip | seat | joinsEnd | skipRelease | unseat | noLeaver | dropRelease | die | live
  | freeRoom | exit | stay | transfer | announced => exact h.of_game (of_decide_eq_true ha) rfl rfl

end Ledger.Within

theorem within_of_run {sessionCapacity roomCapacity workerCount n : Nat} {as : List Act} {s : System}
    (h : run System.step as (System.init sessionCapacity roomCapacity workerCount) = some s)
    (has : ∀ a ∈ as, a.actor.within n = true) : s.ledger.Within n := by
  refine (reach_of_run_mem h).invariant (P := fun s => s.ledger.Within n)
    ⟨fun _ _ => rfl, fun _ _ => rfl⟩ ?_
  intro s a t hs hw ha ht
  rcases s.trans_of_step ht with hsame | htrans
  · exact hsame ▸ hw
  · exact hw.step (System.consistent hs) htrans (has a ha)

/-- A player runs to the exit and disconnects; its room moves between the two halves of
`OnSessionLeave`, and the new room is processed. -/
def crossing : List Act :=
  parting.take 14 ++
    [.frame 0 0 [12, 0, 11, 0, 7, 0, 0, 0, 127, 0, 0, 0] 0, .net 0, .tick 0 0, .tick 0 0, .tick 0 0,
      .disconnect 0 0, .net 0, .game 0, .lock, .lock, .lock, .lock, .lock, .lock, .lock, .game 0,
      .net 0, .net 0, .process 0 0, .game 0, .game 0]

theorem leave_lost : ∃ s, run System.step crossing (System.init 2 2 1) = some s ∧ s.Settled ∧
    ((s.srv.rooms 1).members firstSeat).used = true ∧
    ((s.srv.rooms 1).members firstSeat).sessIdx = 0 ∧ s.HasLeft 0 ∧
    (s.srv.rooms 1).pendingLeave ++ s.takenLeaves 1 = [] ∧ (s.srv.sess 0).refs = 1 ∧
    ¬s.LeavesKept := by
  have hmember : (run System.step crossing (System.init 2 2 1)).map (fun s =>
      (((s.srv.rooms 1).members firstSeat).used, ((s.srv.rooms 1).members firstSeat).sessIdx,
        (s.srv.sess 0).dead, (s.srv.sess 0).refs)) = some (true, 0, true, 1) := by decide +kernel
  have hidle : (run System.step crossing (System.init 2 2 1)).map (fun s =>
      (s.net 0, s.game 0, s.lock)) = some (.idle, .idle, .free) := by decide +kernel
  have hqueues : (run System.step crossing (System.init 2 2 1)).map (fun s =>
      (s.srv.cap, s.srv.freeRooms, (s.srv.rooms 1).pendingJoin, (s.srv.rooms 1).pendingLeave)) =
      some (2, [0], [], []) := by decide +kernel
  obtain ⟨s, hs, hmember⟩ := Option.map_eq_some_iff.mp hmember
  rw [hs] at hidle hqueues
  simp only [Option.map_some, Option.some.injEq, Prod.mk.injEq] at hmember hidle hqueues
  obtain ⟨hused, hsess, hdead, hrefs⟩ := hmember
  obtain ⟨hnet, hgame, hlock⟩ := hidle
  obtain ⟨hcap, hfree, hjoins, hleaves⟩ := hqueues
  have hwithin := within_of_run (n := 1) hs (by decide)
  have hsettled : s.Settled :=
    { net := fun w => by
        rcases Nat.eq_zero_or_pos w with rfl | hw
        · exact hnet
        · exact hwithin.net w hw
      game := fun g => by
        rcases Nat.eq_zero_or_pos g with rfl | hg
        · exact hgame
        · exact hwithin.game g hg
      lock := hlock
      queues := fun r hr hlive => by
        rw [hcap] at hr
        rw [hfree, List.mem_singleton] at hlive
        obtain rfl : r = 1 := by omega
        exact ⟨hjoins, hleaves⟩ }
  refine ⟨s, hs, hsettled, hused, hsess, ⟨hdead, fun w => ?_⟩, ?_, hrefs, fun hkept => ?_⟩
  · rw [hsettled.net w]
    exact nofun
  · rw [System.takenLeaves, hsettled.game, hlock, hleaves]
    rfl
  · have halive := (hkept.settled hsettled).1 1 firstSeat hused
    rw [hsess, hdead] at halive
    cases halive

end BeltServer
