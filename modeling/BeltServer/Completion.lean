import BeltServer.Deserted

/-!
# Every operation comes to its end

Nobody who has begun an operation is kept from finishing it. As long as something is in
progress somebody can take its next step, whoever waits for the manager lock; and however
the steps are interleaved, there are only so many of them until everybody is idle, unless a
new operation is begun.
-/

namespace BeltServer

set_option autoImplicit false

open Runs SwapList

def Act.continues : Act → Bool
  | .net _ | .lock | .game _ => true
  | _ => false

/-! ### The lock and those who wait inside it -/

/-- Who is inside `Join` or `TransferRoom` holds the manager lock. -/
structure Ledger.Holding (L : Ledger) : Prop where
  join : ∀ w idx, L.net w = .inJoin idx → L.lock.joiner = some (w, idx)
  transfer : ∀ g i r, L.game g = .moving i r → ∃ nr, L.lock.transfer = some (g, i, r, nr)

namespace Ledger.Holding

variable {L L' : Ledger}

theorem of_same (h : L.Holding) (hjoiner : L'.lock.joiner = L.lock.joiner)
    (htransfer : L'.lock.transfer = L.lock.transfer)
    (hnet : ∀ w idx, L'.net w = .inJoin idx → L.net w = .inJoin idx)
    (hgame : ∀ g i r, L'.game g = .moving i r → L.game g = .moving i r) : L'.Holding where
  join w idx hw := hjoiner.trans (h.join w idx (hnet w idx hw))
  transfer g i r hg := by
    obtain ⟨nr, hnr⟩ := h.transfer g i r (hgame g i r hg)
    exact ⟨nr, htransfer.trans hnr⟩

theorem inJoin_update (net : Nat → NetPc) {w : Nat} {p : NetPc} (hp : ∀ j, p ≠ .inJoin j)
    (w' j : Nat) (h : Function.update net w p w' = .inJoin j) : net w' = .inJoin j := by
  rcases eq_or_ne w' w with rfl | hw
  · rw [Function.update_self] at h
    exact absurd h (hp j)
  · rw [Function.update_of_ne hw] at h
    exact h

theorem moving_update (game : Nat → GamePc) {g : Nat} {p : GamePc} (hp : ∀ i r, p ≠ .moving i r)
    (g' i r : Nat) (h : Function.update game g p g' = .moving i r) : game g' = .moving i r := by
  rcases eq_or_ne g' g with rfl | hg
  · rw [Function.update_self] at h
    exact absurd h (hp i r)
  · rw [Function.update_of_ne hg] at h
    exact h

theorem of_joined (h : L.Holding) {w idx : Nat} {p : NetPc} (hjoiner : L.lock.joiner = some (w, idx))
    (htransfer : L.lock.transfer = none) (hnet : L'.net = Function.update L.net w p)
    (hp : ∀ j, p ≠ .inJoin j) (hgame : L'.game = L.game) : L'.Holding where
  join w' j hw' := by
    rw [hnet] at hw'
    have hold := h.join w' j (inJoin_update _ hp w' j hw')
    rw [hjoiner] at hold
    cases hold
    rw [Function.update_self] at hw'
    exact absurd hw' (hp _)
  transfer g i r hg := by
    obtain ⟨nr, hnr⟩ := h.transfer g i r (hgame ▸ hg)
    rw [htransfer] at hnr
    cases hnr

theorem step (h : L.Holding) {a : Actor} (ht : L.Trans a L') : L'.Holding := by
  cases ht with
  | accept | refuse | scanPop | drain => exact ⟨h.join, h.transfer⟩
  | toIdle w hw | toInput w idx r c hw | toJoin w idx hw | leaveNone w idx hw | noWorkers w idx hw =>
    exact h.of_same rfl rfl (inJoin_update _ nofun) fun _ _ _ => id
  | cut w idx hw | leaveRead w idx hw | leavePush w idx r hw | netRelease w idx hw =>
    exact h.of_same rfl rfl (inJoin_update L.net nofun) fun _ _ _ => id
  | scan w idx hw hlock =>
    refine ⟨fun w' j hw' => ?_, fun g i r hg => ?_⟩
    · rcases eq_or_ne w' w with rfl | hne
      · have hself := (Function.update_self ..).symm.trans hw'
        cases hself
        rfl
      · have hold := h.join w' j ((Function.update_of_ne hne ..).symm.trans hw')
        rw [hlock] at hold
        cases hold
    · obtain ⟨nr, hnr⟩ := h.transfer g i r hg
      rw [hlock] at hnr
      cases hnr
  | scanTake w idx r i hlock | scanAlloc w idx r g hlock | mail w idx r hlock | first w idx r hlock
  | push w idx r i hlock =>
    exact h.of_same (by rw [hlock]; rfl) (by rw [hlock]; rfl) (fun _ _ => id) fun _ _ _ => id
  | scanRefuse w idx hlock | store w idx r i hlock =>
    exact h.of_joined (w := w) (by rw [hlock]; rfl) (by rw [hlock]; rfl) rfl nofun rfl
  | close g i old nr hlock | movePass g i old nr seat rest moved joins leaves hlock
  | moveSeat g i old nr seat rest moved joins leaves e hlock
  | moveEnd g i old nr moved joins leaves hlock
  | carry g i old nr moved e joins leaves hlock =>
    exact h.of_same (by rw [hlock]; rfl) (by rw [hlock]; rfl) (fun _ _ => id) fun _ _ _ => id
  | finish g i old nr moved leaves hlock =>
    refine ⟨fun w j hw => ?_, fun g' i' r hg' => ?_⟩
    · have hold := h.join w j hw
      rw [hlock] at hold
      cases hold
    · obtain ⟨nr', hnr'⟩ := h.transfer g' i' r (moving_update _ (p := .announce nr) nofun g' i' r hg')
      rw [hlock] at hnr'
      cases hnr'
      have hself := (Function.update_self ..).symm.trans hg'
      cases hself
  | take | skip | seat | joinsEnd | skipRelease | unseat | noLeaver | dropRelease | die | live
  | freeRoom | exit | stay | announced =>
    exact h.of_same rfl rfl (fun _ _ => id) (moving_update L.game nofun)
  | transfer g i old nr hg hlock hnr =>
    refine ⟨fun w j hw => ?_, fun g' i' r hg' => ?_⟩
    · have hold := h.join w j hw
      rw [hlock] at hold
      cases hold
    · rcases eq_or_ne g' g with rfl | hne
      · have hself := (Function.update_self ..).symm.trans hg'
        cases hself
        exact ⟨nr, rfl⟩
      · obtain ⟨nr', hnr'⟩ := h.transfer g' i' r ((Function.update_of_ne hne ..).symm.trans hg')
        rw [hlock] at hnr'
        cases hnr'

end Ledger.Holding

/-! ### The work that is left

The steps an operation can still take, from its program counter; a room added to the open
list on the way makes one more turn of somebody's search loop. -/

def NetPc.work : NetPc → Nat
  | .idle => 0
  | .release _ | .inputPush _ _ _ => 1
  | .leavePush _ _ => 2
  | .leaveRead _ => 3
  | .joined _ _ _ | .refused _ | .inJoin _ => 4
  | .joining _ => 11

def LockPc.work : LockPc → Nat
  | .free => 0
  | .store _ _ _ _ => 1
  | .push _ _ _ _ => 2
  | .first _ _ _ => 4
  | .mail _ _ _ => 5
  | .scan _ _ => 6
  | .carry _ _ _ _ _ joins _ => 2 + joins.length
  | .move _ _ _ _ rest _ joins _ => 3 + joins.length + rest.length
  | .close _ _ _ _ => 12

def GamePc.work : GamePc → Nat
  | .idle => 0
  | .announce _ | .moving _ _ | .free _ _ => 1
  | .leaves _ _ ls => 2 + 2 * ls.length
  | .drop _ _ _ ls => 3 + 2 * ls.length
  | .joins _ _ js ls => 3 + 2 * js.length + 2 * ls.length
  | .skip _ _ _ js ls => 4 + 2 * js.length + 2 * ls.length
  | .exit _ _ => 14

namespace Ledger

/-- The work of the first `n` workers of each kind, of the holder of the lock and of the search
loops. -/
def work (n : Nat) (L : Ledger) : Nat :=
  L.openRooms.length + L.lock.work + (∑ w ∈ Finset.range n, (L.net w).work) +
    ∑ g ∈ Finset.range n, (L.game g).work

def Busy (L : Ledger) : Actor → Prop
  | .accept _ => False
  | .net w => L.net w ≠ .idle
  | .lock => True
  | .game g => L.game g ≠ .idle

variable {L L' : Ledger} {n : Nat}

theorem sum_work_update {β : Type} (f : β → Nat) {m : Nat → β} {w : Nat} (hw : w < n) (p : β) :
    (∑ x ∈ Finset.range n, f (Function.update m w p x)) + f (m w) =
      (∑ x ∈ Finset.range n, f (m x)) + f p := by
  have hsum := Tally.sum_change (s := Finset.range n) (a := w) (f := fun x => f (m x))
    (g := fun x => f (Function.update m w p x)) (Finset.mem_range.mpr hw) fun x hx => by
      rw [Function.update_of_ne hx]
  rwa [Function.update_self] at hsum

theorem work_net {w : Nat} {p q : NetPc} (hw : w < n) (hold : L.net w = q)
    (hnet : L'.net = Function.update L.net w p) (hgame : L'.game = L.game)
    (hless : L'.openRooms.length + L'.lock.work + p.work <
      L.openRooms.length + L.lock.work + q.work) : L'.work n < L.work n := by
  have hsum := sum_work_update NetPc.work (m := L.net) hw p
  rw [hold] at hsum
  unfold work
  rw [hnet, hgame]
  omega

theorem work_lock (hnet : L'.net = L.net) (hgame : L'.game = L.game)
    (hless : L'.openRooms.length + L'.lock.work < L.openRooms.length + L.lock.work) :
    L'.work n < L.work n := by
  unfold work
  rw [hnet, hgame]
  omega

theorem work_game {g : Nat} {p q : GamePc} (hg : g < n) (hold : L.game g = q)
    (hnet : L'.net = L.net) (hgame : L'.game = Function.update L.game g p)
    (hless : L'.openRooms.length + L'.lock.work + p.work <
      L.openRooms.length + L.lock.work + q.work) : L'.work n < L.work n := by
  have hsum := sum_work_update GamePc.work (m := L.game) hg p
  rw [hold] at hsum
  unfold work
  rw [hnet, hgame]
  omega

theorem length_swapRemove (l : List Nat) (x : Nat) : (swapRemove l x).length ≤ l.length := by
  unfold swapRemove
  split
  · unfold swapRemoveAt
    split
    · rw [List.length_dropLast, List.length_set]
      omega
    · exact Nat.zero_le _
  · exact le_refl _

/-- No more entries wait in a room than it has seats. -/
theorem pendingJoin_le (hs : Consistent L) {r : Nat}
    (hstill : ∀ old nr, L.lock.moving = some (old, nr) → r ≠ old ∧ r ≠ nr) :
    (L.room r).pendingJoin.length ≤ 4 := by
  have hcard : Multiset.card (L.tokens r) = ∑ i : Seat, seatCount (L.tokens r) i := by
    generalize L.tokens r = m
    induction m using Multiset.induction with
    | empty => simp
    | cons e m ih =>
      simp only [seatCount_cons, Finset.sum_add_distrib, Multiset.card_cons, ← ih]
      simp
  have hone (i : Seat) : seatCount (L.tokens r) i ≤ 1 := by
    have hcount := hs.seats.seats r hstill i
    have hle := Bool.toNat_le ((L.room r).seatUsed i)
    omega
  have hfour : ∑ i : Seat, seatCount (L.tokens r) i ≤ 4 :=
    (Finset.sum_le_sum fun i _ => hone i).trans (by simp)
  have hpart : (L.room r).pendingJoin.length ≤ Multiset.card (L.tokens r) := by
    simp only [tokens, Multiset.card_add, Multiset.coe_card]
    omega
  omega

/-- A step in the middle of something leaves less work, a turn of the search loop apart. -/
theorem work_step (hs : Consistent L) (hn : L.Within n) {a : Actor} (ht : L.Trans a L')
    (hbusy : L.Busy a) : L'.work n < L.work n ∨
      a = .lock ∧ ∃ w idx, L.lock = .scan w idx ∧
        L' = { L with openRooms := L.openRooms.dropLast } := by
  have hnet {w : Nat} (hw : L.net w ≠ .idle) : w < n := by
    by_contra hle
    exact hw (hn.net w (by omega))
  have hgame {g : Nat} (hg : L.game g ≠ .idle) : g < n := by
    by_contra hle
    exact hg (hn.game g (by omega))
  have hjoiner {w idx : Nat} {pc : LockPc} (hlock : L.lock = pc) (hpc : pc.joiner = some (w, idx)) :
      L.net w = .inJoin idx := hs.refs.joiner w idx (hlock ▸ hpc)
  cases ht with
  | accept | refuse => exact hbusy.elim
  | toInput w idx r c hw | toJoin w idx hw => exact absurd hw hbusy
  | drain g hg | take g i r hg hr | exit g i r hg => exact absurd hg hbusy
  | scanPop w idx hlock => exact Or.inr ⟨rfl, w, idx, hlock, rfl⟩
  | toIdle w hw =>
    refine Or.inl ?_
    rcases hw with ⟨idx, hw⟩ | ⟨idx, a, r, hw⟩ | ⟨idx, r, c, hw⟩ <;>
      exact work_net (p := .idle) (hnet hbusy) hw rfl rfl (by simp [NetPc.work, setNet])
  | cut w idx hw =>
    refine Or.inl ?_
    rcases hw with ⟨hw, -, -⟩ | hw | ⟨a, r, hw⟩
    · exact absurd hw hbusy
    · exact work_net (p := .leaveRead idx) (hnet hbusy) hw rfl rfl
        (by simp [NetPc.work, setNet, modSess, Books.modSess])
    · exact work_net (p := .leaveRead idx) (hnet hbusy) hw rfl rfl
        (by simp [NetPc.work, setNet, modSess, Books.modSess])
  | leaveNone w idx hw =>
    exact Or.inl (work_net (p := .release idx) (hnet hbusy) hw rfl rfl (by simp [NetPc.work, setNet]))
  | leaveRead w idx hw =>
    exact Or.inl (work_net (p := .leavePush idx _) (hnet hbusy) hw rfl rfl
      (by simp [NetPc.work, setNet, modSess, Books.modSess]))
  | leavePush w idx r hw =>
    exact Or.inl (work_net (p := .release idx) (hnet hbusy) hw rfl rfl
      (by simp [NetPc.work, setNet, modRoom, Books.modRoom]))
  | netRelease w idx hw =>
    exact Or.inl (work_net (p := .idle) (hnet hbusy) hw rfl rfl
      (by simp [NetPc.work, setNet, release, Books.release, dropSession, Books.dropSession,
        Books.modSess]))
  | noWorkers w idx hw =>
    exact Or.inl (work_net (p := .refused idx) (hnet hbusy) hw rfl rfl (by simp [NetPc.work, setNet]))
  | scan w idx hw hlock =>
    exact Or.inl (work_net (p := .inJoin idx) (hnet hbusy) hw rfl rfl
      (by simp [NetPc.work, setNet, hlock, LockPc.work]))
  | scanRefuse w idx hlock =>
    have hw := hjoiner hlock rfl
    exact Or.inl (work_net (p := .refused idx) (hnet (by simp [hw])) hw rfl rfl
      (by simp [NetPc.work, setNet, hlock, LockPc.work]))
  | store w idx r i hlock =>
    have hw := hjoiner hlock rfl
    exact Or.inl (work_net (p := .joined idx i.val r) (hnet (by simp [hw])) hw rfl rfl
      (by simp [NetPc.work, setNet, hlock, LockPc.work, modSess, Books.modSess]))
  | scanTake w idx r i hlock =>
    refine Or.inl (work_lock rfl rfl ?_)
    have hlist : (if (L.room r).reservedSeats + 1 = 4 then L.openRooms.dropLast
        else L.openRooms).length ≤ L.openRooms.length := by
      split
      · rw [List.length_dropLast]
        omega
      · exact le_refl _
    rw [hlock]
    simp only [LockPc.work]
    omega
  | scanAlloc w idx r g hlock | mail w idx r hlock | push w idx r i hlock =>
    refine Or.inl (work_lock rfl rfl ?_)
    simp [hlock, LockPc.work, modRoom, Books.modRoom, modSess, Books.modSess]
  | first w idx r hlock =>
    refine Or.inl (work_lock rfl rfl ?_)
    rw [hlock, List.length_append]
    simp only [LockPc.work, List.length_singleton]
    omega
  | close g i old nr hlock =>
    have hjoins := pendingJoin_le hs (r := old) (by simp [hlock, LockPc.moving])
    refine Or.inl (work_lock rfl rfl ?_)
    rw [hlock]
    simp only [LockPc.work, modRoom, Books.modRoom, List.length_finRange]
    omega
  | movePass g i old nr seat rest moved joins leaves hlock
  | moveSeat g i old nr seat rest moved joins leaves e hlock =>
    refine Or.inl (work_lock rfl rfl ?_)
    rw [hlock]
    simp only [LockPc.work, modRoom, Books.modRoom, modSess, Books.modSess, List.length_cons]
    omega
  | moveEnd g i old nr moved joins leaves hlock | carry g i old nr moved e joins leaves hlock =>
    refine Or.inl (work_lock rfl rfl ?_)
    rw [hlock]
    simp only [LockPc.work, modRoom, Books.modRoom, modSess, Books.modSess, List.length_cons,
      List.length_nil]
    omega
  | finish g i old nr moved leaves hlock =>
    have hg := (hs.places.transfer g i old nr (by rw [hlock]; rfl)).1
    have hlist : (if (L.room nr).reservedSeats < 4 then swapRemove L.openRooms old ++ [nr]
        else swapRemove L.openRooms old).length ≤ L.openRooms.length + 1 := by
      have hless := length_swapRemove L.openRooms old
      split
      · rw [List.length_append, List.length_singleton]
        omega
      · omega
    refine Or.inl (work_game (p := .announce nr) (hgame (by simp [hg])) hg rfl rfl ?_)
    rw [hlock]
    simp only [LockPc.work, GamePc.work, setGame, List.length_nil]
    omega
  | skip g i r e js ls hg | seat g i r e js ls hg | joinsEnd g i r ls hg
  | skipRelease g i r idx js ls hg | unseat g i r seat e ls hg | noLeaver g i r e ls hg
  | dropRelease g i r idx ls hg | die g i r hg | live g i r hg | stay g i r hg
  | announced g nr hg =>
    refine Or.inl (work_game (hgame hbusy) hg rfl rfl ?_)
    simp only [GamePc.work, setGame, modRoom, Books.modRoom, release, Books.release, Books.modSess,
      List.length_cons, List.length_nil]
    omega
  | freeRoom g i r hg hlock =>
    have hless := length_swapRemove L.openRooms r
    refine Or.inl (work_game (p := .idle) (hgame hbusy) hg rfl rfl ?_)
    simp only [GamePc.work, setGame]
    omega
  | transfer g i old nr hg hlock =>
    refine Or.inl (work_game (p := .moving i old) (hgame hbusy) hg rfl rfl ?_)
    simp [GamePc.work, LockPc.work, setGame, modRoom, Books.modRoom, hlock]

end Ledger

namespace System

variable {n : Nat} {s t : System}

theorem send_ends (s : System) (w idx : Nat) (m : Msg) :
    (s.send w idx m).net w = .idle ∨ (s.send w idx m).net w = .leaveRead idx := by
  unfold send
  split
  · exact Or.inl (Function.update_self ..)
  · exact Or.inr (Function.update_self ..)

theorem netStep_moves {w : Nat} (h : s.netStep w = some t) : t.net w ≠ s.net w := by
  have hmoved {u : System} {p q : NetPc} (hu : some (u.setNet w p) = some t) (hw : s.net w = q)
      (hne : p ≠ q) : t.net w ≠ s.net w := by
    cases hu
    rw [setNet_self, hw]
    exact hne
  have hsent {idx : Nat} {m : Msg} {q : NetPc} (hu : some (s.send w idx m) = some t)
      (hw : s.net w = q) (hidle : q ≠ .idle) (hcut : q ≠ .leaveRead idx) : t.net w ≠ s.net w := by
    cases hu
    rw [hw]
    rcases send_ends s w idx m with hnew | hnew <;> rw [hnew]
    · exact hidle.symm
    · exact hcut.symm
  unfold netStep at h
  split at h
  · cases h
  · rename_i idx hw
    split at h
    · exact hmoved h hw nofun
    · split at h
      · exact hmoved h hw nofun
      · cases h
  · cases h
  · rename_i hw
    exact hsent h hw nofun nofun
  · rename_i hw
    exact hsent h hw nofun nofun
  · rename_i idx hw
    split at h
    · exact hmoved h hw nofun
    · exact hmoved h hw nofun
  · rename_i hw
    exact hmoved h hw nofun
  · rename_i hw
    exact hmoved h hw nofun
  · rename_i hw
    exact hmoved h hw nofun

/-- What continues an operation is a transition of somebody busy. -/
theorem trans_of_continues {a : Act} (ha : a.continues = true) (ht : step a s = some t) :
    s.ledger.Trans a.actor t.ledger ∧ s.ledger.Busy a.actor := by
  cases a with
  | net w =>
    have hbusy : s.net w ≠ .idle := by
      intro hw
      simp [step, netStep, hw] at ht
    refine ⟨(trans_of_netStep ht).resolve_left fun hsame => ?_, hbusy⟩
    exact netStep_moves ht (congrFun (congrArg Ledger.net hsame) w)
  | lock => exact ⟨trans_of_lockStep ht, trivial⟩
  | game g =>
    refine ⟨trans_of_gameStep ht, fun hg => ?_⟩
    have hidle : s.game g = .idle := hg
    simp [step, gameStep, hidle] at ht
  | _ => cases ha

theorem openRooms_ne_nil {w idx : Nat} (hlock : s.lock = .scan w idx) (ht : s.lockStep = some t)
    (hsame : t.lock = s.lock) : s.srv.openRooms ≠ [] := by
  intro hnone
  rw [hlock] at hsame
  simp only [lockStep, hlock, hnone, List.getLast?_nil] at ht
  split at ht
  · cases ht
    cases hsame
  · cases ht
    cases hsame

theorem within_actor {a : Actor} (hn : s.ledger.Within n) (hbusy : s.ledger.Busy a) :
    a.within n = true := by
  cases a with
  | accept w => exact hbusy.elim
  | net w =>
    refine decide_eq_true (Nat.lt_of_not_le fun hle => ?_)
    exact hbusy (hn.net w hle)
  | lock => rfl
  | game g =>
    refine decide_eq_true (Nat.lt_of_not_le fun hle => ?_)
    exact hbusy (hn.game g hle)

/-- Each step of an operation in progress leaves less work. -/
theorem work_of_step (hs : Consistent s.ledger) (hn : s.ledger.Within n) {a : Act}
    (ha : a.continues = true) (ht : step a s = some t) :
    t.ledger.Within n ∧ t.ledger.work n < s.ledger.work n := by
  obtain ⟨htrans, hbusy⟩ := trans_of_continues ha ht
  refine ⟨hn.step hs htrans (within_actor hn hbusy), ?_⟩
  rcases Ledger.work_step hs hn htrans hbusy with hless | ⟨hact, w, idx, hlock, hpop⟩
  · exact hless
  · cases a <;> cases hact
    have hne := openRooms_ne_nil hlock ht (congrArg Ledger.lock hpop)
    refine Ledger.work_lock (by rw [hpop]) (by rw [hpop]) ?_
    have hpos : 0 < s.ledger.openRooms.length := List.length_pos_iff.mpr hne
    rw [hpop]
    show s.ledger.openRooms.dropLast.length + s.ledger.lock.work < _
    rw [List.length_dropLast]
    omega

structure AtRest (s : System) : Prop where
  net : ∀ w, s.net w = .idle
  game : ∀ g, s.game g = .idle
  lock : s.lock = .free

/-- As long as somebody is in the middle of something, somebody can go on. -/
theorem step_enabled (hheld : s.ledger.Holding) (hrest : ¬s.AtRest) :
    ∃ a t, a.continues = true ∧ step a s = some t := by
  by_cases hlock : s.lock = .free
  · by_cases hnet : ∀ w, s.net w = .idle
    · by_cases hgame : ∀ g, s.game g = .idle
      · exact absurd ⟨hnet, hgame, hlock⟩ hrest
      · obtain ⟨g, hg⟩ := not_forall.mp hgame
        have hsome : (s.gameStep g).isSome = true := by
          cases hpc : s.game g with
          | idle => exact absurd hpc hg
          | moving i r =>
            obtain ⟨nr, hnr⟩ := hheld.transfer g i r hpc
            rw [show s.ledger.lock = .free from hlock] at hnr
            cases hnr
          | joins i r js ls =>
            cases js with
            | nil => simp [gameStep, hpc]
            | cons e js =>
              simp only [gameStep, hpc]
              split <;> rfl
          | leaves i r ls =>
            cases ls with
            | nil =>
              simp only [gameStep, hpc]
              split <;> rfl
            | cons e ls =>
              simp only [gameStep, hpc]
              split <;> rfl
          | exit i r =>
            simp only [gameStep, hpc, hlock, if_true]
            split <;> rfl
          | skip | drop | announce => simp [gameStep, hpc]
          | free => simp [gameStep, hpc, hlock]
        obtain ⟨t, ht⟩ := Option.isSome_iff_exists.mp hsome
        exact ⟨.game g, t, rfl, ht⟩
    · obtain ⟨w, hw⟩ := not_forall.mp hnet
      have hsome : (s.netStep w).isSome = true := by
        cases hpc : s.net w with
        | idle => exact absurd hpc hw
        | inJoin idx =>
          have hjoiner := hheld.join w idx hpc
          rw [show s.ledger.lock = .free from hlock] at hjoiner
          cases hjoiner
        | joining idx =>
          simp only [netStep, hpc, hlock, if_true]
          split <;> rfl
        | leaveRead idx =>
          simp only [netStep, hpc]
          split <;> rfl
        | joined | refused | leavePush | release | inputPush => simp [netStep, hpc]
      obtain ⟨t, ht⟩ := Option.isSome_iff_exists.mp hsome
      exact ⟨.net w, t, rfl, ht⟩
  · have hsome : s.lockStep.isSome = true := by
      cases hpc : s.lock with
      | free => exact absurd hpc hlock
      | scan w idx =>
        simp only [lockStep, hpc]
        split
        · split <;> rfl
        · split <;> rfl
      | move g i old nr rest moved joins leaves => cases rest <;> simp [lockStep, hpc]
      | carry g i old nr moved joins leaves => cases joins <;> simp [lockStep, hpc]
      | mail | first | push | store | close => simp [lockStep, hpc]
    obtain ⟨t, ht⟩ := Option.isSome_iff_exists.mp hsome
    exact ⟨.lock, t, rfl, ht⟩

def Continues (a : Act) (_ : System) : Prop := a.continues = true

/-- Whatever is in progress comes to its end: nobody is stuck, no schedule goes on for ever, and
some schedule ends with everybody idle. `n` is any bound on the workers that have done anything. -/
structure Completes (s : System) : Prop where
  unstuck : ∀ t, Reach step Continues s t → ¬t.AtRest → ∃ a u, a.continues = true ∧ step a t = some u
  bounded : ∀ n, s.ledger.Within n → ∀ as t, (∀ a ∈ as, a.continues = true) →
    run step as s = some t → as.length + t.ledger.work n ≤ s.ledger.work n
  rests : ∃ t, Reach step Continues s t ∧ t.AtRest

variable {sessionCapacity roomCapacity workerCount : Nat} {ok : Act → System → Prop}

theorem holding (h : Reach step ok (init sessionCapacity roomCapacity workerCount) s) :
    s.ledger.Holding := by
  refine h.invariant (P := fun s => s.ledger.Holding) ⟨nofun, nofun⟩ fun s a t _ hs _ ht => ?_
  rcases s.trans_of_step ht with hsame | htrans
  · exact hsame ▸ hs
  · exact hs.step htrans

/-- In a finite run only finitely many workers have done anything. -/
theorem within_of_reach (h : Reach step ok (init sessionCapacity roomCapacity workerCount) s) :
    ∃ n, s.ledger.Within n := by
  refine h.invariant (P := fun s => ∃ n, s.ledger.Within n) ⟨0, fun _ _ => rfl, fun _ _ => rfl⟩ ?_
  rintro s a t hreach ⟨n, hn⟩ _ ht
  rcases s.trans_of_step ht with hsame | htrans
  · exact ⟨n, hsame ▸ hn⟩
  · obtain ⟨m, hm⟩ : ∃ m, n ≤ m ∧ a.actor.within m = true := by
      cases a.actor with
      | accept w | net w => exact ⟨max n (w + 1), by omega, decide_eq_true (by omega)⟩
      | lock => exact ⟨n, le_refl _, rfl⟩
      | game g => exact ⟨max n (g + 1), by omega, decide_eq_true (by omega)⟩
    have hwithin : s.ledger.Within m :=
      ⟨fun w hw => hn.net w (by omega), fun g hg => hn.game g (by omega)⟩
    exact ⟨m, hwithin.step (consistent hreach) htrans hm.2⟩

theorem run_bounded {as : List Act} (hs : Consistent s.ledger) (hn : s.ledger.Within n)
    (has : ∀ a ∈ as, a.continues = true) (ht : run step as s = some t) :
    as.length + t.ledger.work n ≤ s.ledger.work n := by
  induction as generalizing s with
  | nil =>
    cases ht
    simp
  | cons a as ih =>
    obtain ⟨u, hu, hrun⟩ := Option.bind_eq_some_iff.mp ht
    have ha := has a (List.mem_cons_self ..)
    obtain ⟨hn', hless⟩ := work_of_step hs hn ha hu
    have hc : Consistent u.ledger := hs.step (trans_of_continues ha hu).1
    have hrest := ih hc hn' (fun b hb => has b (List.mem_cons_of_mem a hb)) hrun
    rw [List.length_cons]
    omega

/-- Going on as long as possible ends at rest. -/
theorem rests_of_work (k : Nat) (hs : Consistent s.ledger) (hheld : s.ledger.Holding)
    (hn : s.ledger.Within n) (hk : s.ledger.work n ≤ k) : ∃ t, Reach step Continues s t ∧ t.AtRest := by
  induction k generalizing s with
  | zero =>
    by_cases hrest : s.AtRest
    · exact ⟨s, .refl, hrest⟩
    · obtain ⟨a, u, ha, hu⟩ := step_enabled hheld hrest
      have hless := (work_of_step hs hn ha hu).2
      omega
  | succ k ih =>
    by_cases hrest : s.AtRest
    · exact ⟨s, .refl, hrest⟩
    · obtain ⟨a, u, ha, hu⟩ := step_enabled hheld hrest
      obtain ⟨hn', hless⟩ := work_of_step hs hn ha hu
      obtain ⟨htrans, -⟩ := trans_of_continues ha hu
      obtain ⟨t, ht, hend⟩ := ih (hs.step htrans) (hheld.step htrans) hn' (by omega)
      exact ⟨t, .head ha hu ht, hend⟩

end System

/-- Every operation begun in any run can be finished, and is under every schedule. -/
theorem operations_complete {sessionCapacity roomCapacity workerCount : Nat}
    {ok : Act → System → Prop} {s : System}
    (h : Reach System.step ok (System.init sessionCapacity roomCapacity workerCount) s) :
    s.Completes where
  unstuck t ht hrest := by
    have hreach := h.any.trans ht.any
    exact System.step_enabled (System.holding hreach) hrest
  bounded n hn as t has ht := System.run_bounded (System.consistent h) hn has ht
  rests := by
    obtain ⟨n, hn⟩ := System.within_of_reach h
    exact System.rests_of_work _ (System.consistent h) (System.holding h) hn (le_refl _)

/-- One player has the manager lock in `Join`, another waits for it. -/
def queueing : List Act :=
  [.accept 0 5 true true true, .accept 1 6 true true true, .frame 0 0 [6, 0, 10, 0, 1, 0] 0,
    .frame 1 1 [6, 0, 10, 0, 1, 0] 0, .net 0, .lock]

theorem operations_complete_queueing : ∃ s,
    run System.step queueing (System.init 2 1 1) = some s ∧ s.lock = .mail 0 0 0 ∧
      s.net 1 = .joining 1 ∧ s.netStep 1 = none ∧ s.Completes := by
  have hrun : (run System.step queueing (System.init 2 1 1)).map (fun s =>
      (s.lock, s.net 1, (s.netStep 1).isSome)) = some (.mail 0 0 0, .joining 1, false) := by
    decide +kernel
  obtain ⟨s, hs, hproj⟩ := Option.map_eq_some_iff.mp hrun
  simp only [Prod.mk.injEq, Option.isSome_eq_false_iff, Option.isNone_iff_eq_none] at hproj
  exact ⟨s, hs, hproj.1, hproj.2.1, hproj.2.2, operations_complete (reach_of_run hs)⟩

end BeltServer
