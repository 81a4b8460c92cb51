import BeltServer.Greeting

/-!
# What a client knows of its room

A session is told its room number by JOIN_OK, and a new one by the ROOM_EVENT of a move. A
member that has moved is told before its new room is processed or ticks; the entry of a
player who is not seated yet moves without a word. `Announced` is what a run has to avoid for
every snapshot to be one of the room its client was told of.
-/

namespace BeltServer

set_option autoImplicit false

open Runs

/-! ### The new room of a transfer -/

namespace Ledger

/-- Room `nr` is being filled by a transfer, or its members are about to be told. -/
def Sheltered (L : Ledger) (nr : Nat) : Prop :=
  (∃ g k old, L.lock.transfer = some (g, k, old, nr)) ∨ ∃ g, L.game g = .announce nr

/-- A worker announces a room of its own. -/
def Announcers (L : Ledger) : Prop := ∀ g nr, L.game g = .announce nr → nr ∈ L.myRooms g

variable {L L' : Ledger} {a : Actor}

theorem game_announce {game : Nat → GamePc} {g g₀ nr : Nat} {pc : GamePc}
    (hpc : ∀ nr, pc ≠ .announce nr) (h : Function.update game g pc g₀ = .announce nr) :
    g₀ ≠ g ∧ game g₀ = .announce nr := by
  rcases eq_or_ne g₀ g with rfl | hg
  · rw [Function.update_self] at h
    exact absurd h (hpc nr)
  · rw [Function.update_of_ne hg] at h
    exact ⟨hg, h⟩

theorem Announcers.step (h : L.Announcers) (hs : Consistent L) (ht : L.Trans a L') :
    L'.Announcers := by
  intro g₀ nr hg₀
  -- the lists of the other workers are not touched
  have hother {g : Nat} {l : List Nat} (hne : g₀ ≠ g) (hold : L.game g₀ = .announce nr) :
      nr ∈ Function.update L.myRooms g l g₀ := by
    rw [Function.update_of_ne hne]
    exact h g₀ nr hold
  cases ht with
  | finish g i old nr' moved leaves hlock =>
    have hmove := (hs.places.transfer g i old nr' (by rw [hlock]; rfl)).1
    have hat : (L.myRooms g)[i]? = some old := hs.places.place g i old (by rw [hmove]; rfl)
    have hg₀' : Function.update L.game g (.announce nr') g₀ = .announce nr := hg₀
    rcases eq_or_ne g₀ g with rfl | hne
    · rw [Function.update_self] at hg₀'
      cases hg₀'
      have hmem : nr ∈ (L.myRooms g₀).set i nr :=
        List.mem_set (List.getElem?_eq_some_iff.mp hat).1 nr
      have hself : Function.update L.myRooms g₀ ((L.myRooms g₀).set i nr) g₀ =
          (L.myRooms g₀).set i nr := Function.update_self ..
      exact Eq.mpr (congrArg (nr ∈ ·) hself) hmem
    · rw [Function.update_of_ne hne] at hg₀'
      exact hother hne hg₀'
  | drain g hg =>
    have hne : g₀ ≠ g := by
      rintro rfl
      rw [show L.game g₀ = .announce nr from hg₀] at hg
      cases hg
    exact hother hne hg₀
  | freeRoom g i r hg hlock =>
    obtain ⟨hne, hold⟩ := game_announce (by rintro _ ⟨⟩) hg₀
    exact hother hne hold
  | take g | skip g | seat g | joinsEnd g | skipRelease g | unseat g | noLeaver g | dropRelease g
  | die g | live g | exit g | stay g | transfer g | announced g =>
    exact h g₀ nr (game_announce (by rintro _ ⟨⟩) hg₀).2
  | _ => exact h g₀ nr hg₀

section Sheltered
variable (hs : Consistent L) (hann : L.Announcers) {nr : Nat} (hsh : L.Sheltered nr)
include hs hann hsh

theorem Sheltered.not_free : nr ∉ L.freeRooms := by
  rcases hsh with ⟨g, k, old, htransfer⟩ | ⟨g, hg⟩
  · exact hs.places.not_free_of_inHand (Places.nr_inHand htransfer)
  · exact hs.places.not_free_of_mine (hann g nr hg)

theorem Sheltered.not_at {g : Nat} (hmem : nr ∈ L.myRooms g) : L.game g = .announce nr := by
  rcases hsh with ⟨g', k, old, htransfer⟩ | ⟨g', hg'⟩
  · exact absurd hmem (hs.places.not_kept (Or.inr (Places.nr_inHand htransfer)) g).2
  · have hown := hs.places.mine_owner g nr hmem
    have hown' := hs.places.mine_owner g' nr (hann g' nr hg')
    rw [← hown, hown']
    exact hg'

theorem Sheltered.not_placed {g i : Nat} : (L.game g).place ≠ some (i, nr) := by
  intro hat
  have hg := hsh.not_at hs hann (hs.places.mem_of_place hat)
  rw [hg] at hat
  cases hat

end Sheltered

/-- A room keeps its shelter until its worker tells the members. -/
theorem Trans.sheltered (ht : L.Trans a L') (hs : Consistent L) {nr : Nat} (hsh : L.Sheltered nr) :
    L'.Sheltered nr ∨ ∃ g, a = .game g ∧ L.game g = .announce nr := by
  have hgame {g : Nat} {pc : GamePc} (hpc : ∀ nr, L.game g ≠ .announce nr)
      (hlock : L'.lock.transfer = L.lock.transfer)
      (hset : L'.game = Function.update L.game g pc) : L'.Sheltered nr := by
    rcases hsh with ⟨g₀, k, old, htransfer⟩ | ⟨g₀, hg₀⟩
    · exact Or.inl ⟨g₀, k, old, hlock.trans htransfer⟩
    · have hne : g₀ ≠ g := by
        rintro rfl
        exact hpc nr hg₀
      refine Or.inr ⟨g₀, ?_⟩
      rw [hset, Function.update_of_ne hne]
      exact hg₀
  have hlocked (hlock : L'.lock.transfer = L.lock.transfer ∨ L.lock.transfer = none)
      (hset : L'.game = L.game) : L'.Sheltered nr := by
    rcases hsh with ⟨g₀, k, old, htransfer⟩ | ⟨g₀, hg₀⟩
    · rcases hlock with hsame | hnone
      · exact Or.inl ⟨g₀, k, old, hsame.trans htransfer⟩
      · rw [hnone] at htransfer
        cases htransfer
    · exact Or.inr ⟨g₀, hset ▸ hg₀⟩
  cases ht with
  | finish g i old nr' moved leaves hlock =>
    left
    have hmove := (hs.places.transfer g i old nr' (by rw [hlock]; rfl)).1
    have hnew : Function.update L.game g (.announce nr') g = .announce nr' :=
      Function.update_self ..
    rcases hsh with ⟨g₀, k, old₀, htransfer⟩ | ⟨g₀, hg₀⟩
    · rw [hlock] at htransfer
      cases htransfer
      exact Or.inr ⟨g, hnew⟩
    · have hne : g₀ ≠ g := by
        rintro rfl
        rw [hmove] at hg₀
        cases hg₀
      have hkept : Function.update L.game g (.announce nr') g₀ = .announce nr :=
        (Function.update_of_ne hne ..).trans hg₀
      exact Or.inr ⟨g₀, hkept⟩
  | announced g nr' hg =>
    rcases hsh with ⟨g₀, k, old, htransfer⟩ | ⟨g₀, hg₀⟩
    · exact Or.inl (Or.inl ⟨g₀, k, old, htransfer⟩)
    · rcases eq_or_ne g₀ g with rfl | hne
      · exact Or.inr ⟨g₀, rfl, hg₀⟩
      · have hkept : Function.update L.game g .idle g₀ = .announce nr :=
          (Function.update_of_ne hne ..).trans hg₀
        exact Or.inl (Or.inr ⟨g₀, hkept⟩)
  | transfer g i old nr' hg hlock =>
    left
    rcases hsh with ⟨g₀, k, old₀, htransfer⟩ | ⟨g₀, hg₀⟩
    · rw [hlock] at htransfer
      cases htransfer
    · have hne : g₀ ≠ g := by
        rintro rfl
        rw [hg] at hg₀
        cases hg₀
      have hkept : Function.update L.game g (.moving i old) g₀ = .announce nr :=
        (Function.update_of_ne hne ..).trans hg₀
      exact Or.inr ⟨g₀, hkept⟩
  | take g i r hg | skip g i r e js ls hg | seat g i r e js ls hg | joinsEnd g i r ls hg
  | skipRelease g i r idx js ls hg | unseat g i r st e ls hg | noLeaver g i r e ls hg
  | dropRelease g i r idx ls hg | die g i r hg | live g i r hg | freeRoom g i r hg
  | exit g i r hg | stay g i r hg =>
    exact Or.inl (hgame (by rw [hg]; rintro _ ⟨⟩) rfl rfl)
  | scan w idx hw hlock | scanPop w idx hlock | scanTake w idx r i hlock | scanRefuse w idx hlock
  | scanAlloc w idx r g hlock | mail w idx r hlock | first w idx r hlock | push w idx r i hlock
  | store w idx r i hlock =>
    exact Or.inl (hlocked (Or.inr (by rw [hlock]; rfl)) rfl)
  | close g i old nr hlock | movePass g i old nr seat rest moved joins leaves hlock
  | moveSeat g i old nr seat rest moved joins leaves e hlock
  | moveEnd g i old nr moved joins leaves hlock | carry g i old nr moved e joins leaves hlock =>
    exact Or.inl (hlocked (Or.inl (by rw [hlock]; rfl)) rfl)
  | _ => exact Or.inl (hlocked (Or.inl rfl) rfl)

/-- The members of a sheltered room stay. -/
theorem Trans.seated_kept (ht : L.Trans a L') (hs : Consistent L) (hann : L.Announcers) {nr : Nat}
    (hsh : L.Sheltered nr) {i : Seat} {e : RoomLeaveEntry}
    (hseat : (L.room nr).seated i = some e) : (L'.room nr).seated i = some e := by
  have hother {r : Nat} {R : RoomBook} (hr : nr ≠ r)
      (hroom : L'.room = Function.update L.room r R) : (L'.room nr).seated i = some e := by
    rw [hroom, Function.update_of_ne hr]
    exact hseat
  have hflags {r : Nat} {R : RoomBook} (hroom : L'.room = Function.update L.room r R)
      (hR : R.seated = (L.room r).seated) : (L'.room nr).seated i = some e := by
    rcases eq_or_ne nr r with rfl | hr
    · rw [hroom, Function.update_self, hR]
      exact hseat
    · exact hother hr hroom
  have hfree {r : Nat} (hr : L.freeRooms.getLast? = some r) : nr ≠ r := by
    rintro rfl
    exact hsh.not_free hs hann (List.mem_of_getLast? hr)
  cases ht with
  | scanAlloc w idx r g hlock hr => exact hother (hfree hr) rfl
  | transfer g k old nr' hg hlock hnr => exact hother (hfree hnr) rfl
  | seat g k r e' js ls hg =>
    refine hother ?_ rfl
    rintro rfl
    exact hsh.not_placed hs hann (show (L.game g).place = some (k, nr) by rw [hg]; rfl)
  | unseat g k r seat e' ls hg =>
    refine hother ?_ rfl
    rintro rfl
    exact hsh.not_placed hs hann (show (L.game g).place = some (k, nr) by rw [hg]; rfl)
  | moveSeat g k old nr' seat rest moved joins leaves e' hlock hseat' =>
    have htransfer : L.lock.transfer = some (g, k, old, nr') := by
      rw [hlock]
      rfl
    have hold : nr ≠ old := by
      rintro rfl
      have hmove := (hs.places.transfer g k nr nr' htransfer).1
      exact hsh.not_placed hs hann (show (L.game g).place = some (k, nr) by rw [hmove]; rfl)
    rcases eq_or_ne nr nr' with rfl | hnr
    · -- the seat of a member that still has to move is empty here
      have hi : i ≠ seat := by
        rintro rfl
        have honce := (hs.seats.move g k old nr _ moved joins leaves hlock).once i
        rw [seatCount_members, seatCount_members, hseat', hseat] at honce
        simp only [Option.isSome_some, Bool.toNat_true] at honce
        omega
      have hmoved : Function.update (Function.update L.room nr ((L.room nr).moveIn seat e')) old
          ((Function.update L.room nr ((L.room nr).moveIn seat e') old).moveOut seat) nr =
          (L.room nr).moveIn seat e' := by
        rw [Function.update_of_ne hold, Function.update_self]
      have hkept : ((L.room nr).moveIn seat e').seated i = some e :=
        (Function.update_of_ne hi ..).trans hseat
      exact (congrArg (fun R : RoomBook => R.seated i) hmoved).trans hkept
    · have hkept : Function.update (Function.update L.room nr' ((L.room nr').moveIn seat e')) old
          ((Function.update L.room nr' ((L.room nr').moveIn seat e') old).moveOut seat) nr =
          L.room nr := by
        rw [Function.update_of_ne hold, Function.update_of_ne hnr]
      exact (congrArg (fun R : RoomBook => R.seated i) hkept).trans hseat
  | moveEnd g k old nr' moved joins leaves hlock =>
    have hopened : ((Function.update L.room nr' (L.room nr').openMoved) nr).seated i = some e := by
      rcases eq_or_ne nr nr' with rfl | hnr
      · rw [Function.update_self]
        exact hseat
      · rw [Function.update_of_ne hnr]
        exact hseat
    refine Eq.trans ?_ hopened
    rcases eq_or_ne nr old with rfl | hold
    · have hself : Function.update (Function.update L.room nr' (L.room nr').openMoved) nr
          ((Function.update L.room nr' (L.room nr').openMoved) nr).empty nr =
          ((Function.update L.room nr' (L.room nr').openMoved) nr).empty := Function.update_self ..
      have hseated := congrArg (fun R : RoomBook => R.seated i) hself
      exact hseated
    · exact congrArg (fun R : RoomBook => R.seated i) (Function.update_of_ne hold ..)
  | carry g k old nr' moved e' joins leaves hlock =>
    refine hflags (r := nr') (R := (L.room nr').carryJoin e') rfl ?_
    unfold RoomBook.carryJoin
    split <;> rfl
  | leavePush w idx r => exact hflags (r := r) rfl rfl
  | scanTake w idx r => exact hflags (r := r) rfl rfl
  | first w idx r => exact hflags (r := r) rfl rfl
  | push w idx r => exact hflags (r := r) rfl rfl
  | close g k old => exact hflags (r := old) rfl rfl
  | finish g k old nr' => exact hflags (r := nr') rfl rfl
  | take g k r => exact hflags (r := r) rfl rfl
  | skip g k r => exact hflags (r := r) rfl rfl
  | die g k r => exact hflags (r := r) rfl rfl
  | _ => exact hseat

inductive Rerouted (L : Ledger) (a : Actor) (L' : Ledger) (j : Nat) : Prop where
  | kept (hsame : (L'.sess j).roomIdx = (L.sess j).roomIdx)
  | opened (w : Nat) (ha : a = .accept w)
  | stored (w r : Nat) (i : Seat) (ha : a = .lock) (hlock : L.lock = .store w j r i)
  | moved (g k old nr : Nat) (i : Seat) (e : RoomLeaveEntry) (ha : a = .lock)
      (hsess : e.sessIdx = j) (hroom : (L'.sess j).roomIdx = nr)
      (hseat : (L'.room nr).seated i = some e) (htransfer : L'.lock.transfer = some (g, k, old, nr))
  | carried (g k old nr : Nat) (moved : Int) (e : RoomJoinEntry) (joins : List RoomJoinEntry)
      (leaves : List RoomLeaveEntry) (ha : a = .lock)
      (hlock : L.lock = .carry g k old nr moved (e :: joins) leaves) (hsess : e.sessIdx = j)

theorem Trans.rerouted (ht : L.Trans a L') (hs : Consistent L) (j : Nat) : L.Rerouted a L' j := by
  have hupdate {k : Nat} {S : SessBook} (hsess : L'.sess = Function.update L.sess k S)
      (hS : S.roomIdx = (L.sess k).roomIdx) : L.Rerouted a L' j := by
    refine .kept ?_
    rw [hsess]
    exact sess_update (·.roomIdx) hS j
  cases ht with
  | accept w | refuse w => exact .opened w rfl
  | cut w idx => exact hupdate (k := idx) rfl rfl
  | leaveRead w idx => exact hupdate (k := idx) rfl rfl
  | push w idx => exact hupdate (k := idx) rfl rfl
  | netRelease w idx | skipRelease _ _ _ idx | dropRelease _ _ _ idx =>
    exact hupdate (k := idx) rfl rfl
  | store w idx r i hlock =>
    rcases eq_or_ne j idx with rfl | hj
    · exact .stored w r i rfl hlock
    · exact .kept (congrArg SessBook.roomIdx (Function.update_of_ne hj ..))
  | moveSeat g k old nr seat rest moved joins leaves e hlock hseat =>
    rcases eq_or_ne j e.sessIdx with rfl | hj
    · have hself : Function.update L.sess e.sessIdx ((L.sess e.sessIdx).moved e.sessGen nr)
          e.sessIdx = (L.sess e.sessIdx).moved e.sessGen nr := Function.update_self ..
      have hne : nr ≠ old := Ne.symm (hs.places.transfer_ne (g := g) (k := k) (by rw [hlock]; rfl))
      by_cases hgen : (L.sess e.sessIdx).gen = e.sessGen
      · refine .moved g k old nr seat e rfl rfl ?_ ?_ rfl
        · refine (congrArg SessBook.roomIdx hself).trans ?_
          rw [SessBook.moved, if_pos hgen]
        · have hroom : Function.update (Function.update L.room nr ((L.room nr).moveIn seat e)) old
              ((Function.update L.room nr ((L.room nr).moveIn seat e) old).moveOut seat) nr =
              (L.room nr).moveIn seat e := by
            rw [Function.update_of_ne hne, Function.update_self]
          exact (congrArg (fun R : RoomBook => R.seated seat) hroom).trans (Function.update_self ..)
      · refine .kept ((congrArg SessBook.roomIdx hself).trans ?_)
        rw [SessBook.moved, if_neg hgen]
    · exact .kept (congrArg SessBook.roomIdx (Function.update_of_ne hj ..))
  | carry g k old nr moved e joins leaves hlock =>
    rcases eq_or_ne j e.sessIdx with rfl | hj
    · exact .carried g k old nr moved e joins leaves rfl hlock rfl
    · exact .kept (congrArg SessBook.roomIdx (Function.update_of_ne hj ..))
  | _ => exact .kept rfl

end Ledger

/-! ### What the log says -/

def Msg.room? : Msg → Option Nat
  | .joinOk _ roomId _ => some roomId
  | .roomEvent kind _ roomId _ _ => if kind = roomMove then some roomId else none
  | _ => none

def toldRoom (log : List Msg) : Option Nat := (log.filterMap Msg.room?).getLast?

/-- Every snapshot after the JOIN_OK is of the room the client was told last. -/
def RoomKnown (log : List Msg) : Prop :=
  ∀ xs r snap ys, log = xs ++ .snapshot r snap :: ys → HasJoinOk xs → toldRoom xs = some r

theorem toldRoom_snoc {log : List Msg} {m : Msg} {r : Nat} (h : m.room? = some r) :
    toldRoom (log ++ [m]) = some r := by
  rw [toldRoom, List.filterMap_append, List.filterMap_cons_some h, List.filterMap_nil]
  exact List.getLast?_concat

theorem toldRoom_snoc_none {log : List Msg} {m : Msg} (h : m.room? = none) :
    toldRoom (log ++ [m]) = toldRoom log := by
  rw [toldRoom, List.filterMap_append, List.filterMap_cons_none h, List.filterMap_nil,
    List.append_nil, toldRoom]

theorem Msg.room?_of_other {m : Msg} (hroom : m.ofRoom = false) (hjoin : m.isJoinOk = false) :
    m.room? = none := by
  cases m with
  | joinOk => cases hjoin
  | snapshot | roomEvent => cases hroom
  | _ => rfl

namespace RoomKnown

theorem nil : RoomKnown [] := by
  intro xs r snap ys hlog
  exact absurd hlog.symm (List.append_ne_nil_of_right_ne_nil _ (List.cons_ne_nil _ _))

theorem snoc {log : List Msg} {m : Msg} (h : RoomKnown log)
    (hm : ∀ r snap, m = .snapshot r snap → HasJoinOk log → toldRoom log = some r) :
    RoomKnown (log ++ [m]) := by
  intro xs r snap ys hlog hjoin
  rcases JoinOkFirst.split_snoc hlog with ⟨rfl, heq, -⟩ | ⟨zs, -, hsplit⟩
  · exact hm r snap heq.symm hjoin
  · exact h xs r snap zs hsplit hjoin

end RoomKnown

/-! ### Who knows its room -/

namespace System

/-- The step moves nobody without a word: it carries no pending entry of a connected session to
another room once its JOIN_OK is queued, every such member of a room that has moved has space
for its ROOM_EVENT, and no JOIN_OK is queued that names a room the session was moved out of. -/
structure Announced (a : Act) (s : System) : Prop where
  carried : a = .lock → ∀ g k old nr moved e joins leaves,
    s.lock = .carry g k old nr moved (e :: joins) leaves →
      s.srv.staleJoin e = true ∨ s.replyDue e.sessIdx = true
  moved : ∀ g nr, a = .game g → s.game g = .announce nr → ∀ i, s.srv.live nr i = true →
    s.replyDue ((s.srv.rooms nr).members i).sessIdx = true ∨
      (s.srv.enqueue ((s.srv.rooms nr).members i).sessIdx (Server.moveEvent nr i)).isSome = true
  replied : ∀ w idx actorId roomId, a = .net w → s.net w = .joined idx actorId roomId →
    (s.srv.sess idx).roomIdx = roomId ∨ s.srv.enqueue idx (.joinOk actorId roomId 0) = none

/-- The client of a connected session knows its room, or it is a member of a room that has moved
and will be told. -/
def Informed (s : System) : Prop :=
  ∀ idx, (s.srv.sess idx).dead = false → HasJoinOk (s.srv.sess idx).sendQ.log →
    toldRoom (s.srv.sess idx).sendQ.log = some (s.srv.sess idx).roomIdx ∨
    s.ledger.Sheltered (s.srv.sess idx).roomIdx ∧
      ∃ i e, (s.ledger.room (s.srv.sess idx).roomIdx).seated i = some e ∧ e.sessIdx = idx

section Steps
variable {s t : System} {a : Act} {idx : Nat}

theorem roomIdx_of_live (hg : Greeted s) (hs : Consistent s.ledger) {r : Nat} {i : Seat}
    (hlive : s.srv.live r i = true)
    (hjoin : HasJoinOk (s.srv.sess ((s.srv.rooms r).members i).sessIdx).sendQ.log) :
    (s.srv.sess ((s.srv.rooms r).members i).sessIdx).roomIdx = r := by
  have hplace := (holder_of_used hs (Server.used_of_live hlive)).2
  have hin := (hg.once _ (dead_of_live hlive) hjoin).1
  unfold Ledger.place at hplace
  split at hplace
  · rename_i idx' r' i' hstoring
    have hne : idx' ≠ ((s.srv.rooms r).members i).sessIdx := by
      rintro rfl
      have hstore : s.lock.storing = some (((s.srv.rooms r).members i).sessIdx, r', i') := hstoring
      cases hl : s.lock <;> rw [hl] at hstore <;> cases hstore
      rw [(joiner_fresh hs hl).2.2.2] at hin
      cases hin
    rw [if_neg hne] at hplace
    exact congrArg Prod.fst hplace
  · exact congrArg Prod.fst hplace

theorem dead_before (hs : Consistent s.ledger) (ht : step a s = some t)
    (hdead : (t.srv.sess idx).dead = false) (hlog : (t.srv.sess idx).sendQ.log ≠ []) :
    (s.srv.sess idx).dead = false := by
  rcases standing_step hs ht idx with ⟨w, fd, recvOk, sendOk, ctlOk, rfl⟩ | hstanding
  · have hsrv : t.srv = s.srv.accept w fd recvOk sendOk ctlOk := by
      simp only [step] at ht
      split at ht <;> cases ht
      rfl
    have haccept := s.srv.accept_log w fd recvOk sendOk ctlOk idx
    rw [← hsrv] at haccept
    rcases haccept with ⟨hnil, -⟩ | ⟨-, hbook⟩
    · exact absurd hnil hlog
    · exact (congrArg SessBook.dead hbook).symm.trans hdead
  · cases hstanding with
    | cut hcut =>
      have hcut' : (t.srv.sess idx).dead = true := hcut
      rw [hcut'] at hdead
      cases hdead
    | placed w r i hlock => exact (joiner_fresh hs hlock).2.2.1
    | replied w ha hw hstill => exact hstill.dead.symm.trans hdead
    | same hstill => exact hstill.dead.symm.trans hdead

theorem roomIdx_kept (hs : Consistent s.ledger) (ht : step a s = some t) (hlock : a.actor ≠ .lock)
    (hlog : (t.srv.sess idx).sendQ.log ≠ []) :
    (t.srv.sess idx).roomIdx = (s.srv.sess idx).roomIdx := by
  rcases s.trans_of_step ht with hsame | htrans
  · exact congrArg (fun L : Ledger => (L.sess idx).roomIdx) hsame
  · cases htrans.rerouted hs idx with
    | kept hsame => exact hsame
    | opened w ha =>
      cases a with
      | accept w' fd recvOk sendOk ctlOk =>
        have hsrv : t.srv = s.srv.accept w' fd recvOk sendOk ctlOk := by
          simp only [step] at ht
          split at ht <;> cases ht
          rfl
        have haccept := s.srv.accept_log w' fd recvOk sendOk ctlOk idx
        rw [← hsrv] at haccept
        rcases haccept with ⟨hnil, -⟩ | ⟨-, hbook⟩
        · exact absurd hnil hlog
        · exact congrArg SessBook.roomIdx hbook
      | _ => cases ha
    | stored w r i ha => exact absurd ha hlock
    | moved g k old nr i e ha => exact absurd ha hlock
    | carried g k old nr moved e joins leaves ha => exact absurd ha hlock

theorem eq_lock (ha : a.actor = .lock) : a = .lock := by
  cases a <;> cases ha
  rfl

/-- In an announced step a session that is told its room stays in it, or it is a member of a room
that has moved. -/
theorem Announced.route (hok : Announced a s) (hg : Greeted s) (hs : Consistent s.ledger)
    (ht : step a s = some t) (hdead : (s.srv.sess idx).dead = false)
    (hjoin : HasJoinOk (s.srv.sess idx).sendQ.log) (hlog : (t.srv.sess idx).sendQ.log ≠ []) :
    (t.srv.sess idx).roomIdx = (s.srv.sess idx).roomIdx ∨
      t.ledger.Sheltered (t.srv.sess idx).roomIdx ∧
        ∃ i e, (t.ledger.room (t.srv.sess idx).roomIdx).seated i = some e ∧ e.sessIdx = idx := by
  by_cases hlock : a.actor = .lock
  · rcases s.trans_of_step ht with hsame | htrans
    · exact Or.inl (congrArg (fun L : Ledger => (L.sess idx).roomIdx) hsame)
    · cases htrans.rerouted hs idx with
      | kept hsame => exact Or.inl hsame
      | opened w ha =>
        rw [ha] at hlock
        cases hlock
      | stored w r i ha hstore =>
        -- a session that has no room yet has no JOIN_OK
        have hin := (hg.once idx hdead hjoin).1
        rw [(joiner_fresh hs hstore).2.2.2] at hin
        cases hin
      | moved g k old nr i e ha hsess hroom hseat htransfer =>
        have hroom' : (t.srv.sess idx).roomIdx = nr := hroom
        refine Or.inr ⟨Or.inl ⟨g, k, old, ?_⟩, i, e, ?_, hsess⟩
        · rw [hroom']
          exact htransfer
        · rw [hroom']
          exact hseat
      | carried g k old nr moved e joins leaves ha hcarry hsess =>
        exfalso
        rcases hok.carried (eq_lock ha) g k old nr moved e joins leaves hcarry with hstale | hdue
        · have hflight : e ∈ s.ledger.lock.flight := by
            rw [hcarry]
            exact Multiset.mem_coe.mpr (List.mem_cons_self ..)
          have hgen := (hs.refs.flight old (by rw [hcarry]; rfl) e hflight).gen
          have hdead' : (s.srv.sess e.sessIdx).dead = false := hsess ▸ hdead
          have hgen' : (s.srv.sess e.sessIdx).gen = e.sessGen := hgen
          simp [Server.staleJoin, hdead', hgen'] at hstale
        · rw [hsess] at hdue
          exact no_joinOk_of_due hg hs hdead hdue hjoin
  · exact Or.inl (roomIdx_kept hs ht hlock hlog)

theorem game_of_announce {g nr : Nat} (ht : step a s = some t) (ha : a.actor = .game g)
    (hg : s.game g = .announce nr) : a = .game g := by
  have hbusy : s.game g ≠ .idle := by rw [hg]; nofun
  cases a with
  | game g' =>
    cases ha
    rfl
  | drain g' | process g' i | tick g' i =>
    cases ha
    simp [step, hbusy] at ht
  | _ => cases ha

theorem live_of_seated (hs : Consistent s.ledger) {r : Nat} {i : Seat} {e : RoomLeaveEntry}
    (hseat : (s.ledger.room r).seated i = some e) (he : e.sessIdx = idx)
    (hdead : (s.srv.sess idx).dead = false) :
    s.srv.live r i = true ∧ ((s.srv.rooms r).members i).sessIdx = idx := by
  obtain ⟨hused, hsess, -⟩ := Room.seated_eq_some.mp hseat
  have hidx : ((s.srv.rooms r).members i).sessIdx = idx := hsess.trans he
  have hgen := (holder_of_used hs hused).1
  refine ⟨?_, hidx⟩
  rw [hidx] at hgen
  simp [Server.live, hused, hidx, hgen, hdead]

/-- A session that is told its room later was told no room by the message of this step. -/
theorem Informed.silent (h : Informed s) (hg : Greeted s) (hs : Consistent s.ledger)
    (hann : s.ledger.Announcers) (hok : Announced a s) (ht : step a s = some t)
    (hdead : (s.srv.sess idx).dead = false) (hjoin : HasJoinOk (s.srv.sess idx).sendQ.log)
    (hlog : (t.srv.sess idx).sendQ.log ≠ [])
    (htold : toldRoom (t.srv.sess idx).sendQ.log = toldRoom (s.srv.sess idx).sendQ.log)
    (hevent : ∀ g nr i, a = .game g → s.game g = .announce nr → s.srv.live nr i = true →
      ((s.srv.rooms nr).members i).sessIdx = idx →
        s.srv.enqueue idx (Server.moveEvent nr i) = none) :
    toldRoom (t.srv.sess idx).sendQ.log = some (t.srv.sess idx).roomIdx ∨
    t.ledger.Sheltered (t.srv.sess idx).roomIdx ∧
      ∃ i e, (t.ledger.room (t.srv.sess idx).roomIdx).seated i = some e ∧ e.sessIdx = idx := by
  rcases hok.route hg hs ht hdead hjoin hlog with hroom | hmember
  · rw [htold, hroom]
    refine (h idx hdead hjoin).imp id fun hmember => ?_
    obtain ⟨hsh, i, e, hseat, he⟩ := hmember
    rcases s.trans_of_step ht with hsame | htrans
    · rw [hsame]
      exact ⟨hsh, i, e, hseat, he⟩
    · rcases htrans.sheltered hs hsh with hkept | ⟨g, ha, hgame⟩
      · exact ⟨hkept, i, e, htrans.seated_kept hs hann hsh hseat, he⟩
      · -- the members are told, and this one has space for the message
        exfalso
        have hact := game_of_announce ht ha hgame
        obtain ⟨hlive, hidx⟩ := live_of_seated hs hseat he hdead
        have hnone := hevent g _ i hact hgame hlive hidx
        rcases hok.moved g _ hact hgame i hlive with hdue | hfit
        · rw [hidx] at hdue
          exact no_joinOk_of_due hg hs hdead hdue hjoin
        · rw [hidx, hnone] at hfit
          cases hfit
  · exact Or.inr hmember

theorem Informed.step (h : Informed s) (hg : Greeted s) (hs : Consistent s.ledger)
    (hann : s.ledger.Announcers) (hok : Announced a s) (ht : step a s = some t) : Informed t := by
  intro idx hdead hjoin
  have hlogged : (t.srv.sess idx).sendQ.log ≠ [] := by
    intro hnil
    rw [hnil] at hjoin
    exact Greeted.not_hasJoinOk_nil hjoin
  have halive := dead_before hs ht hdead hlogged
  rcases log_step hs ht idx with ⟨hnil, -⟩ | ⟨hfull, hlog⟩ | ⟨m, hm, hfit, hlog⟩
  · exact absurd hnil hlogged
  · rw [hlog] at hjoin
    refine h.silent hg hs hann hok ht halive hjoin hlogged (by rw [hlog]) ?_
    intro g nr i ha hgame hlive hidx
    subst ha
    exact hfull _ (hidx ▸ .event g nr i hgame hlive)
  · cases hm with
    | joined w _ actorId roomId hw =>
      have hroom := roomIdx_kept hs ht nofun hlogged
      rw [hlog, hroom]
      refine Or.inl ((toldRoom_snoc rfl).trans (congrArg some ?_))
      rcases hok.replied w idx actorId roomId rfl hw with heq | hfull
      · exact heq.symm
      · rw [hfull] at hfit
        cases hfit
    | event g nr i hgame hlive =>
      have hroom := roomIdx_kept hs ht nofun hlogged
      rw [hlog, hasJoinOk_snoc rfl] at hjoin
      rw [hlog, hroom, roomIdx_of_live hg hs hlive hjoin]
      exact Or.inl (toldRoom_snoc rfl)
    | reply w _ f remainUs m hw hd =>
      obtain ⟨hofRoom, hnot⟩ := dispatch_of_send hd
      rw [hlog, hasJoinOk_snoc hnot] at hjoin
      refine h.silent hg hs hann hok ht halive hjoin hlogged ?_ nofun
      rw [hlog, toldRoom_snoc_none (Msg.room?_of_other hofRoom hnot)]
    | refused w _ hw =>
      rw [hlog, hasJoinOk_snoc rfl] at hjoin
      refine h.silent hg hs hann hok ht halive hjoin hlogged ?_ nofun
      rw [hlog, toldRoom_snoc_none rfl]
    | snapshot g k r i hgame hr hlive hdue =>
      rw [hlog, hasJoinOk_snoc rfl] at hjoin
      refine h.silent hg hs hann hok ht halive hjoin hlogged ?_ nofun
      rw [hlog, toldRoom_snoc_none rfl]

theorem Says.of_snapshot {m : Msg} (hm : s.Says a idx m) {r : Nat} {snap : Snapshot}
    (heq : m = .snapshot r snap) : ∃ (g k : Nat) (i : Seat), s.game g = .idle ∧
      (s.srv.myRooms g)[k]? = some r ∧ s.srv.live r i = true ∧
        ((s.srv.rooms r).members i).sessIdx = idx := by
  cases hm with
  | reply w _ f remainUs _ _ hd => exact absurd heq (dispatch_no_snapshot hd r snap)
  | joined | refused | event => cases heq
  | snapshot g k r' i hgame hr hlive =>
    obtain rfl : r' = r := (Msg.snapshot.inj heq).1
    exact ⟨g, k, i, hgame, hr, hlive, rfl⟩

/-- A snapshot is of the room that its client was told last. -/
theorem Informed.known (h : Informed s) (hg : Greeted s) (hs : Consistent s.ledger)
    (hann : s.ledger.Announcers) (ht : System.step a s = some t)
    (hknown : RoomKnown (s.srv.sess idx).sendQ.log) : RoomKnown (t.srv.sess idx).sendQ.log := by
  rcases log_step hs ht idx with ⟨hnil, -⟩ | ⟨-, hlog⟩ | ⟨m, hm, -, hlog⟩
  · rw [hnil]
    exact .nil
  · rw [hlog]
    exact hknown
  · rw [hlog]
    refine hknown.snoc fun r snap heq hjoin => ?_
    obtain ⟨g, k, i, hgame, hr, hlive, rfl⟩ := hm.of_snapshot heq
    have hroom := roomIdx_of_live hg hs hlive hjoin
    rcases h _ (dead_of_live hlive) hjoin with htold | ⟨hsh, -⟩
    · rw [htold, hroom]
    · -- the worker of a room that has moved is not idle
      rw [hroom] at hsh
      have hbusy := hsh.not_at hs hann (List.mem_of_getElem? hr)
      rw [show s.ledger.game g = .idle from hgame] at hbusy
      cases hbusy

end Steps

end System

/-! ### Runs -/

theorem announcers_run {ok : Act → System → Prop} {sessionCapacity roomCapacity workerCount : Nat}
    {s : System}
    (h : Reach System.step ok (System.init sessionCapacity roomCapacity workerCount) s) :
    s.ledger.Announcers := by
  refine h.invariant (P := fun s => s.ledger.Announcers) nofun fun s a t hreach hann _ ht => ?_
  rcases s.trans_of_step ht with hsame | htrans
  · exact hsame ▸ hann
  · exact hann.step (System.consistent hreach) htrans

/-- In a run in which every room move is announced, every client knows its room when it gets a
snapshot. -/
theorem room_known {sessionCapacity roomCapacity workerCount : Nat} {s : System}
    (h : Reach System.step System.Announced
      (System.init sessionCapacity roomCapacity workerCount) s) (idx : Nat) :
    RoomKnown (s.srv.sess idx).sendQ.log := by
  have hboth : s.Informed ∧ ∀ idx, RoomKnown (s.srv.sess idx).sendQ.log := by
    refine h.invariant (P := fun s => s.Informed ∧ ∀ idx, RoomKnown (s.srv.sess idx).sendQ.log)
      ⟨fun idx _ hjoin => absurd hjoin Greeted.not_hasJoinOk_nil, fun _ => .nil⟩
      fun s a t hreach hknown hok ht => ?_
    have hs := System.consistent hreach
    have hg := Greeted.run hreach
    have hann := announcers_run hreach
    exact ⟨hknown.1.step hg hs hann hok ht, fun idx => hknown.1.known hg hs hann ht (hknown.2 idx)⟩
  exact hboth.2 idx

/-! ### Fixed runs -/

namespace System

def announces (a : Act) (s : System) : Bool :=
  match a with
  | .lock =>
    match s.lock with
    | .carry _ _ _ _ _ (e :: _) _ => s.srv.staleJoin e || s.replyDue e.sessIdx
    | _ => true
  | .game g =>
    match s.game g with
    | .announce nr =>
      (List.finRange 4).all fun i =>
        !s.srv.live nr i || s.replyDue ((s.srv.rooms nr).members i).sessIdx ||
          (s.srv.enqueue ((s.srv.rooms nr).members i).sessIdx (Server.moveEvent nr i)).isSome
    | _ => true
  | .net w =>
    match s.net w with
    | .joined idx actorId roomId =>
      (s.srv.sess idx).roomIdx == roomId || (s.srv.enqueue idx (.joinOk actorId roomId 0)).isNone
    | _ => true
  | _ => true

theorem announces_sound (a : Act) (s : System) (h : announces a s = true) : Announced a s := by
  constructor
  · intro ha g k old nr moved e joins leaves hlock
    subst ha
    simp only [announces, hlock] at h
    exact Bool.or_eq_true_iff.mp h
  · intro g nr ha hgame i hlive
    subst ha
    simp only [announces, hgame] at h
    have hi := List.all_eq_true.mp h i (List.mem_finRange i)
    simpa [hlive] using hi
  · intro w idx actorId roomId ha hw
    subst ha
    simp only [announces, hw] at h
    simpa using h

end System

/-- A player runs to the exit, and three ticks after its room has moved it gets a snapshot. -/
def journey : List Act :=
  [.accept 0 5 true true true, .frame 0 0 [6, 0, 10, 0, 1, 0] 0, .net 0, .lock, .lock, .lock, .lock,
    .lock, .net 0, .drain 0, .process 0 0, .game 0, .game 0, .game 0,
    .frame 0 0 [12, 0, 11, 0, 7, 0, 0, 0, 127, 0, 0, 0] 0, .net 0, .tick 0 0, .tick 0 0, .tick 0 0,
    .game 0] ++ List.replicate 7 .lock ++ [.game 0, .tick 0 0, .tick 0 0, .tick 0 0]

theorem room_known_journey : ∃ s,
    runIf System.step System.announces journey (System.init 1 2 1) = some s ∧
    (s.srv.sess 0).sendQ.log.map Msg.room? = [some 0, none, some 1, none] ∧
    (s.srv.sess 0).sendQ.log.map Msg.ofRoom = [false, true, true, true] ∧
    RoomKnown (s.srv.sess 0).sendQ.log := by
  have hrun : (runIf System.step System.announces journey (System.init 1 2 1)).map (fun s =>
      ((s.srv.sess 0).sendQ.log.map Msg.room?, (s.srv.sess 0).sendQ.log.map Msg.ofRoom)) =
      some ([some 0, none, some 1, none], [false, true, true, true]) := by decide +kernel
  obtain ⟨s, hs, hproj⟩ := Option.map_eq_some_iff.mp hrun
  simp only [Prod.mk.injEq] at hproj
  exact ⟨s, hs, hproj.1, hproj.2, room_known (reach_of_runIf System.announces_sound hs) 0⟩

/-- A second player joins the room after its queues are processed and before the tick in which
it moves. -/
def stowaway : List Act :=
  .accept 0 6 true true true :: journey.take 18 ++
    [.frame 0 1 [6, 0, 10, 0, 1, 0] 0, .net 0, .lock, .lock, .lock, .net 0, .tick 0 0, .game 0] ++
    List.replicate 8 .lock ++
    [.game 0, .process 0 0, .game 0, .game 0, .game 0, .tick 0 0, .tick 0 0, .tick 0 0]

def Msg.snapshotRoom : Msg → Option Nat
  | .snapshot r _ => some r
  | _ => none

theorem moved_untold : ∃ s, run System.step stowaway (System.init 2 2 1) = some s ∧
    (s.srv.sess 1).sendQ.log.map Msg.room? = [some 0, none] ∧
    (s.srv.sess 1).sendQ.log.map Msg.snapshotRoom = [none, some 1] ∧
    ¬RoomKnown (s.srv.sess 1).sendQ.log := by
  have hrun : (run System.step stowaway (System.init 2 2 1)).map (fun s =>
      ((s.srv.sess 1).sendQ.log.map Msg.isJoinOk, (s.srv.sess 1).sendQ.log.map Msg.room?,
        (s.srv.sess 1).sendQ.log.map Msg.snapshotRoom)) =
      some ([true, false], [some 0, none], [none, some 1]) := by decide +kernel
  obtain ⟨s, hs, hproj⟩ := Option.map_eq_some_iff.mp hrun
  simp only [Prod.mk.injEq] at hproj
  obtain ⟨hjoins, htold, hsnaps⟩ := hproj
  refine ⟨s, hs, htold, hsnaps, fun hknown => ?_⟩
  generalize (s.srv.sess 1).sendQ.log = log at hjoins htold hsnaps hknown
  obtain ⟨m, ms, rfl, hjoin, hrest⟩ := List.map_eq_cons_iff.mp hjoins
  obtain ⟨m', ms', rfl, -, hnil⟩ := List.map_eq_cons_iff.mp hrest
  obtain rfl := List.map_eq_nil_iff.mp hnil
  simp only [List.map_cons, List.map_nil, List.cons.injEq, and_true] at htold hsnaps
  cases m' with
  | snapshot r snap =>
    obtain rfl : r = 1 := Option.some.inj hsnaps.2
    have hlast := hknown [m] 1 snap [] rfl ⟨m, List.mem_singleton.mpr rfl, hjoin⟩
    rw [show [m] = [] ++ [m] from rfl, toldRoom_snoc htold.1] at hlast
    cases hlast
  | _ => cases hsnaps.2

end BeltServer
