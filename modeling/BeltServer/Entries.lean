import BeltServer.Refs

/-!
# Queued entries

A join or leave entry waits in the queue of a room, in the hands of the worker that took it
out, or between the rooms of a transfer. It comes there by one push, and no other step makes
one.
-/

namespace BeltServer

set_option autoImplicit false

/-- Where the entries of one kind are found. -/
structure EntryView (α : Type) where
  room : RoomBook → List α
  game : GamePc → List α
  lock : LockPc → List α

/-- An entry that is still to be processed, wherever it is. -/
def Ledger.Has {α : Type} (L : Ledger) (V : EntryView α) (e : α) : Prop :=
  (∃ r, e ∈ V.room (L.room r)) ∨ (∃ g, e ∈ V.game (L.game g)) ∨ e ∈ V.lock L.lock

namespace Ledger.Has

variable {α : Type} {V : EntryView α} {L L' : Ledger} {e : α}

theorem of_room {m : Nat → RoomBook} {r r' : Nat} {R : RoomBook}
    (he : e ∈ V.room (Function.update m r R r')) : e ∈ V.room R ∨ e ∈ V.room (m r') := by
  by_cases hr : r' = r
  · rw [hr, Function.update_self] at he
    exact Or.inl he
  · rw [Function.update_of_ne hr] at he
    exact Or.inr he

theorem of_game {m : Nat → GamePc} {g g' : Nat} {pc : GamePc}
    (he : e ∈ V.game (Function.update m g pc g')) : e ∈ V.game pc ∨ e ∈ V.game (m g') := by
  by_cases hg : g' = g
  · rw [hg, Function.update_self] at he
    exact Or.inl he
  · rw [Function.update_of_ne hg] at he
    exact Or.inr he

theorem mod_room (he : L'.Has V e) {r : Nat} {R : RoomBook}
    (hroom : L'.room = Function.update L.room r R) (hR : ∀ e ∈ V.room R, L.Has V e)
    (hgame : ∀ g, ∀ e ∈ V.game (L'.game g), L.Has V e)
    (hlock : ∀ e ∈ V.lock L'.lock, L.Has V e) : L.Has V e := by
  rcases he with ⟨r', he⟩ | ⟨g', he⟩ | he
  · rw [hroom] at he
    rcases of_room he with he | he
    · exact hR e he
    · exact Or.inl ⟨r', he⟩
  · exact hgame g' e he
  · exact hlock e he

theorem mod_rooms (he : L'.Has V e) {r r' : Nat} {R R' : RoomBook}
    (hroom : L'.room = Function.update (Function.update L.room r R) r' R')
    (hR : ∀ e ∈ V.room R, L.Has V e) (hR' : ∀ e ∈ V.room R', L.Has V e)
    (hgame : ∀ g, ∀ e ∈ V.game (L'.game g), L.Has V e)
    (hlock : ∀ e ∈ V.lock L'.lock, L.Has V e) : L.Has V e := by
  rcases he with ⟨r₁, he⟩ | ⟨g', he⟩ | he
  · rw [hroom] at he
    rcases of_room he with he | he
    · exact hR' e he
    · rcases of_room he with he | he
      · exact hR e he
      · exact Or.inl ⟨r₁, he⟩
  · exact hgame g' e he
  · exact hlock e he

variable (V L)

theorem same_game (g : Nat) : ∀ e ∈ V.game (L.game g), L.Has V e :=
  fun _ he => Or.inr (Or.inl ⟨g, he⟩)

theorem same_lock : ∀ e ∈ V.lock L.lock, L.Has V e := fun _ he => Or.inr (Or.inr he)

theorem same_room (r : Nat) : ∀ e ∈ V.room (L.room r), L.Has V e := fun _ he => Or.inl ⟨r, he⟩

variable {V L}

theorem mod_game {m : Nat → GamePc} {g : Nat} {pc : GamePc} (hgame : m = Function.update L.game g pc)
    (hpc : ∀ e ∈ V.game pc, L.Has V e) (g' : Nat) : ∀ e ∈ V.game (m g'), L.Has V e := by
  intro e he
  rw [hgame] at he
  rcases of_game he with he | he
  · exact hpc e he
  · exact same_game V L g' e he

theorem none_left {e : α} (he : e ∈ ([] : List α)) : L.Has V e := by
  cases he

theorem of_worker {g : Nat} {ls : List α} (hsub : ∀ e ∈ ls, e ∈ V.game (L.game g)) :
    ∀ e ∈ ls, L.Has V e :=
  fun e he => same_game V L g e (hsub e he)

theorem of_lock {ls : List α} (hsub : ∀ e ∈ ls, e ∈ V.lock L.lock) : ∀ e ∈ ls, L.Has V e :=
  fun e he => same_lock V L e (hsub e he)

end Ledger.Has

/-! ### Leave entries -/

def GamePc.leaveEntries : GamePc → List RoomLeaveEntry
  | .joins _ _ _ ls | .skip _ _ _ _ ls | .leaves _ _ ls | .drop _ _ _ ls => ls
  | _ => []

def LockPc.leaveEntries : LockPc → List RoomLeaveEntry
  | .move _ _ _ _ _ _ _ ls | .carry _ _ _ _ _ _ ls => ls
  | _ => []

def leaveView : EntryView RoomLeaveEntry := ⟨(·.pendingLeave), (·.leaveEntries), (·.leaveEntries)⟩

def Ledger.HasLeave (L : Ledger) (e : RoomLeaveEntry) : Prop :=
  (∃ r, e ∈ (L.room r).pendingLeave) ∨ (∃ g, e ∈ (L.game g).leaveEntries) ∨
    e ∈ L.lock.leaveEntries

namespace Ledger

open Has

variable {L L' : Ledger} {e : RoomLeaveEntry}

/-- What the two rooms of a transfer have queued between the loops. -/
theorem pending_of_moved {old nr : Nat} {f : RoomBook → RoomBook}
    (hf : (f (L.room nr)).pendingLeave = (L.room nr).pendingLeave) :
    ∀ e ∈ (Function.update L.room nr (f (L.room nr)) old).pendingLeave, L.Has leaveView e := by
  intro e he
  by_cases hr : old = nr
  · rw [hr, Function.update_self, hf] at he
    exact same_room leaveView L nr e he
  · rw [Function.update_of_ne hr] at he
    exact same_room leaveView L old e he

/-- Leave entries come from the handlers that push them. -/
theorem HasLeave.step {a : Actor} (ht : L.Trans a L') (he : L'.HasLeave e) : L.HasLeave e ∨
    ∃ w idx r, a = .net w ∧ L.net w = .leavePush idx r ∧ e = ⟨idx, (L.sess idx).gen⟩ := by
  have he : L'.Has leaveView e := he
  cases ht with
  | leavePush w idx r hw =>
    rcases he with ⟨r', he⟩ | ⟨g', he⟩ | he
    · rcases of_room he with he | he
      · rcases List.mem_append.mp he with he | he
        · exact Or.inl (same_room leaveView L r e he)
        · exact Or.inr ⟨w, idx, r, rfl, hw, List.mem_singleton.mp he⟩
      · exact Or.inl (same_room leaveView L r' e he)
    · exact Or.inl (same_game leaveView L g' e he)
    · exact Or.inl (same_lock leaveView L e he)
  | scan | scanRefuse | mail | store =>
    left
    rcases he with ⟨r', he⟩ | ⟨g', he⟩ | he
    · exact same_room leaveView L r' e he
    · exact same_game leaveView L g' e he
    · cases he
  | scanTake w idx r | first w idx r | push w idx r =>
    exact Or.inl (he.mod_room rfl (same_room leaveView L r) (same_game leaveView L)
      (fun _ he => none_left he))
  | scanAlloc w idx r =>
    exact Or.inl (he.mod_room rfl (fun _ he => none_left he) (same_game leaveView L)
      (fun _ he => none_left he))
  | close g i old nr hlock =>
    exact Or.inl (he.mod_room rfl (fun _ he => none_left he) (same_game leaveView L)
      (same_room leaveView L old))
  | movePass g i old nr seat rest moved joins leaves hlock =>
    left
    rcases he with ⟨r', he⟩ | ⟨g', he⟩ | he
    · exact same_room leaveView L r' e he
    · exact same_game leaveView L g' e he
    · exact same_lock leaveView L e (by rw [hlock]; exact he)
  | moveSeat g i old nr seat rest moved joins leaves x hlock =>
    refine Or.inl (he.mod_rooms rfl (same_room leaveView L nr) ?_ (same_game leaveView L) ?_)
    · exact pending_of_moved (f := fun R => R.moveIn seat x) rfl
    · exact of_lock (by rw [hlock]; exact fun _ he => he)
  | moveEnd g i old nr moved joins leaves hlock =>
    refine Or.inl (he.mod_rooms rfl (same_room leaveView L nr) ?_ (same_game leaveView L) ?_)
    · exact pending_of_moved (f := fun R => R.openMoved) rfl
    · exact of_lock (by rw [hlock]; exact fun _ he => he)
  | carry g i old nr moved x joins leaves hlock =>
    refine Or.inl (he.mod_room rfl ?_ (same_game leaveView L) ?_)
    · intro e he
      have hleaves : ((L.room nr).carryJoin x).pendingLeave = (L.room nr).pendingLeave := by
        unfold RoomBook.carryJoin
        split <;> rfl
      have he : e ∈ ((L.room nr).carryJoin x).pendingLeave := he
      rw [hleaves] at he
      exact same_room leaveView L nr e he
    · exact of_lock (by rw [hlock]; exact fun _ he => he)
  | finish g i old nr moved leaves hlock =>
    refine Or.inl (he.mod_room rfl ?_ (mod_game rfl ?_) fun _ he => none_left he)
    · intro e he
      rcases List.mem_append.mp he with he | he
      · exact same_room leaveView L nr e he
      · exact of_lock (by rw [hlock]; exact fun _ he => he) e he
    · exact fun _ he => none_left he
  | take g i r =>
    refine Or.inl (he.mod_room rfl ?_ (mod_game rfl ?_) (same_lock leaveView L))
    · exact fun _ he => none_left he
    · exact same_room leaveView L r
  | skip g i r x js ls hg =>
    refine Or.inl (he.mod_room rfl (same_room leaveView L r) (mod_game rfl ?_) (same_lock leaveView L))
    exact of_worker (g := g) (by rw [hg]; exact fun _ he => he)
  | seat g i r x js ls hg =>
    refine Or.inl (he.mod_room rfl (same_room leaveView L r) (mod_game rfl ?_) (same_lock leaveView L))
    exact of_worker (g := g) (by rw [hg]; exact fun _ he => he)
  | unseat g i r seat x ls hg =>
    refine Or.inl (he.mod_room rfl (same_room leaveView L r) (mod_game rfl ?_) (same_lock leaveView L))
    exact of_worker (g := g) (by rw [hg]; exact fun _ => List.mem_cons_of_mem _)
  | die g i r hg =>
    refine Or.inl (he.mod_room rfl (same_room leaveView L r) (mod_game rfl ?_) (same_lock leaveView L))
    exact fun _ he => none_left he
  | transfer g i old nr hg =>
    refine Or.inl (he.mod_room rfl ?_ (mod_game rfl ?_) ?_) <;> exact fun _ he => none_left he
  | joinsEnd g i r ls hg | skipRelease g i r _ _ ls hg | dropRelease g i r _ ls hg =>
    left
    rcases he with ⟨r', he⟩ | ⟨g', he⟩ | he
    · exact same_room leaveView L r' e he
    · rcases of_game he with he | he
      · exact same_game leaveView L g e (by rw [hg]; exact he)
      · exact same_game leaveView L g' e he
    · exact same_lock leaveView L e he
  | noLeaver g i r x ls hg =>
    left
    rcases he with ⟨r', he⟩ | ⟨g', he⟩ | he
    · exact same_room leaveView L r' e he
    · rcases of_game he with he | he
      · exact same_game leaveView L g e (by rw [hg]; exact List.mem_cons_of_mem _ he)
      · exact same_game leaveView L g' e he
    · exact same_lock leaveView L e he
  | live g | freeRoom g | exit g | stay g | announced g =>
    left
    rcases he with ⟨r', he⟩ | ⟨g', he⟩ | he
    · exact same_room leaveView L r' e he
    · rcases of_game he with he | he
      · cases he
      · exact same_game leaveView L g' e he
    · exact same_lock leaveView L e he
  | _ => exact Or.inl he

end Ledger

/-! ### Join entries -/

def GamePc.joinEntries : GamePc → List RoomJoinEntry
  | .joins _ _ js _ | .skip _ _ _ js _ => js
  | _ => []

def LockPc.joinEntries : LockPc → List RoomJoinEntry
  | .move _ _ _ _ _ _ js _ | .carry _ _ _ _ _ js _ => js
  | _ => []

def joinView : EntryView RoomJoinEntry := ⟨(·.pendingJoin), (·.joinEntries), (·.joinEntries)⟩

def Ledger.HasJoin (L : Ledger) (e : RoomJoinEntry) : Prop := L.Has joinView e

namespace Ledger

open Has

variable {L L' : Ledger} {e : RoomJoinEntry}

theorem pendingJoin_of_moved {old nr : Nat} {f : RoomBook → RoomBook}
    (hf : (f (L.room nr)).pendingJoin = (L.room nr).pendingJoin) :
    ∀ e ∈ (Function.update L.room nr (f (L.room nr)) old).pendingJoin, L.Has joinView e := by
  intro e he
  by_cases hr : old = nr
  · rw [hr, Function.update_self, hf] at he
    exact same_room joinView L nr e he
  · rw [Function.update_of_ne hr] at he
    exact same_room joinView L old e he

/-- Join entries come from the `Join` that pushes them. -/
theorem HasJoin.step {a : Actor} (ht : L.Trans a L') (he : L'.HasJoin e) : L.HasJoin e ∨
    ∃ w r i, L.lock = .push w e.sessIdx r i := by
  have he : L'.Has joinView e := he
  cases ht with
  | push w idx r i hlock =>
    rcases he with ⟨r', he⟩ | ⟨g', he⟩ | he
    · rcases of_room he with he | he
      · rcases List.mem_append.mp he with he | he
        · exact Or.inl (same_room joinView L r e he)
        · rw [List.mem_singleton.mp he]
          exact Or.inr ⟨w, r, i, hlock⟩
      · exact Or.inl (same_room joinView L r' e he)
    · exact Or.inl (same_game joinView L g' e he)
    · cases he
  | scan | scanRefuse | mail | store =>
    left
    rcases he with ⟨r', he⟩ | ⟨g', he⟩ | he
    · exact same_room joinView L r' e he
    · exact same_game joinView L g' e he
    · cases he
  | scanTake w idx r | first w idx r =>
    exact Or.inl (he.mod_room rfl (same_room joinView L r) (same_game joinView L)
      fun _ he => none_left he)
  | leavePush w idx r =>
    exact Or.inl (he.mod_room rfl (same_room joinView L r) (same_game joinView L)
      (same_lock joinView L))
  | scanAlloc w idx r =>
    exact Or.inl (he.mod_room rfl (fun _ he => none_left he) (same_game joinView L)
      fun _ he => none_left he)
  | close g i old nr hlock =>
    exact Or.inl (he.mod_room rfl (fun _ he => none_left he) (same_game joinView L)
      (same_room joinView L old))
  | movePass g i old nr seat rest moved joins leaves hlock =>
    left
    rcases he with ⟨r', he⟩ | ⟨g', he⟩ | he
    · exact same_room joinView L r' e he
    · exact same_game joinView L g' e he
    · exact same_lock joinView L e (by rw [hlock]; exact he)
  | moveSeat g i old nr seat rest moved joins leaves x hlock =>
    refine Or.inl (he.mod_rooms rfl (same_room joinView L nr) ?_ (same_game joinView L) ?_)
    · exact pendingJoin_of_moved (f := fun R => R.moveIn seat x) rfl
    · exact of_lock (by rw [hlock]; exact fun _ he => he)
  | moveEnd g i old nr moved joins leaves hlock =>
    refine Or.inl (he.mod_rooms rfl (same_room joinView L nr) ?_ (same_game joinView L) ?_)
    · exact pendingJoin_of_moved (f := fun R => R.openMoved) rfl
    · exact of_lock (by rw [hlock]; exact fun _ he => he)
  | carry g i old nr moved x joins leaves hlock =>
    have hflight : ∀ e ∈ x :: joins, L.Has joinView e :=
      fun e he => same_lock joinView L e (by rw [hlock]; exact he)
    refine Or.inl (he.mod_room rfl ?_ (same_game joinView L) ?_)
    · intro e he
      have hjoins : ((L.room nr).carryJoin x).pendingJoin = (L.room nr).pendingJoin ++ [x] := by
        unfold RoomBook.carryJoin
        split <;> rfl
      have he : e ∈ ((L.room nr).carryJoin x).pendingJoin := he
      rw [hjoins] at he
      rcases List.mem_append.mp he with he | he
      · exact same_room joinView L nr e he
      · rw [List.mem_singleton.mp he]
        exact hflight x (List.mem_cons_self ..)
    · exact fun e he => hflight e (List.mem_cons_of_mem _ he)
  | finish g i old nr moved leaves hlock =>
    refine Or.inl (he.mod_room rfl (same_room joinView L nr) (mod_game rfl ?_)
      fun _ he => none_left he)
    exact fun _ he => none_left he
  | take g i r =>
    refine Or.inl (he.mod_room rfl ?_ (mod_game rfl ?_) (same_lock joinView L))
    · exact fun _ he => none_left he
    · exact same_room joinView L r
  | skip g i r x js ls hg =>
    refine Or.inl (he.mod_room rfl (same_room joinView L r) (mod_game rfl ?_) (same_lock joinView L))
    exact of_worker (g := g) (by rw [hg]; exact fun _ => List.mem_cons_of_mem _)
  | seat g i r x js ls hg =>
    refine Or.inl (he.mod_room rfl (same_room joinView L r) (mod_game rfl ?_) (same_lock joinView L))
    exact of_worker (g := g) (by rw [hg]; exact fun _ => List.mem_cons_of_mem _)
  | unseat g i r seat x ls hg =>
    refine Or.inl (he.mod_room rfl (same_room joinView L r) (mod_game rfl ?_) (same_lock joinView L))
    exact fun _ he => none_left he
  | die g i r hg =>
    refine Or.inl (he.mod_room rfl (same_room joinView L r) (mod_game rfl ?_) (same_lock joinView L))
    exact fun _ he => none_left he
  | transfer g i old nr hg =>
    refine Or.inl (he.mod_room rfl ?_ (mod_game rfl ?_) ?_) <;> exact fun _ he => none_left he
  | skipRelease g i r _ js ls hg =>
    left
    rcases he with ⟨r', he⟩ | ⟨g', he⟩ | he
    · exact same_room joinView L r' e he
    · rcases of_game he with he | he
      · exact same_game joinView L g e (by rw [hg]; exact he)
      · exact same_game joinView L g' e he
    · exact same_lock joinView L e he
  | joinsEnd g | dropRelease g | noLeaver g | live g | freeRoom g | exit g | stay g | announced g =>
    left
    rcases he with ⟨r', he⟩ | ⟨g', he⟩ | he
    · exact same_room joinView L r' e he
    · rcases of_game he with he | he
      · cases he
      · exact same_game joinView L g' e he
    · exact same_lock joinView L e he
  | _ => exact Or.inl he

end Ledger

end BeltServer
