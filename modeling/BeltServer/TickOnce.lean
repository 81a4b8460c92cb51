import BeltServer.Placement

/-!
# One tick of a worker

A call of `TickOnce` with everything that may happen around it: before each of its calls the
other threads have done what they like, except that they neither touch the worker's list nor
free a room of it. Every room of the drained list is visited once, whichever rooms die, move or
stay.
-/

namespace BeltServer

set_option autoImplicit false

open Runs Relation SwapList

/-- What became of a room in `TickOnce`: `ProcessRoomQueues` found it empty, or `RoomTick` ran
and perhaps moved it. -/
inductive Fate where
  | died
  | ticked (moved : Option Nat)
  deriving DecidableEq

/-- One turn of the loop, with the room passed to `ProcessRoomQueues`. -/
structure Visit where
  room : Nat
  fate : Fate
  deriving DecidableEq

namespace Visit

def ticked (v : Visit) : Option Nat := if v.fate = .died then none else some v.room

/-- What the worker's list holds after the turn. -/
def left (v : Visit) : Option Nat :=
  match v.fate with
  | .died => none
  | .ticked none => some v.room
  | .ticked (some nr) => some nr

end Visit

namespace Server

/-- The rooms of the worker and the free slots are all different. -/
def Apart (st : Server) (g : Nat) : Prop := (st.myRooms g ++ st.freeRooms).Nodup

/-- What the other threads may do to the lists while worker `g` is in `TickOnce`. -/
structure Elsewhere (g : Nat) (st st' : Server) : Prop where
  mine : st'.myRooms g = st.myRooms g
  apart : st.Apart g → st'.Apart g

theorem Elsewhere.refl (g : Nat) (st : Server) : Elsewhere g st st := ⟨rfl, id⟩

/-- The loop of `TickOnce` from index `i`, with its visits. -/
inductive TickLoop (g : Nat) : Nat → Server → List Visit → Server → Prop where
  | done {i : Nat} {st : Server} (hend : (st.myRooms g)[i]? = none) : TickLoop g i st [] st
  | dies {i r : Nat} {st st₁ st₂ t : Server} {vs : List Visit} (henv : Elsewhere g st st₁)
      (hr : (st₁.myRooms g)[i]? = some r) (hprocess : st₁.processRoomQueues r = (st₂, true))
      (hrest : TickLoop g i (st₂.removeRoom g i) vs t) : TickLoop g i st (⟨r, .died⟩ :: vs) t
  | stays {i r : Nat} {st st₁ st₂ st₃ st₄ t : Server} {vs : List Visit}
      (henv : Elsewhere g st st₁) (hr : (st₁.myRooms g)[i]? = some r)
      (hprocess : st₁.processRoomQueues r = (st₂, false)) (henv' : Elsewhere g st₂ st₃)
      (htick : st₃.roomTick r = (st₄, none)) (hrest : TickLoop g (i + 1) st₄ vs t) :
      TickLoop g i st (⟨r, .ticked none⟩ :: vs) t
  | moves {i r nr : Nat} {st st₁ st₂ st₃ st₄ t : Server} {vs : List Visit}
      (henv : Elsewhere g st st₁) (hr : (st₁.myRooms g)[i]? = some r)
      (hprocess : st₁.processRoomQueues r = (st₂, false)) (henv' : Elsewhere g st₂ st₃)
      (htick : st₃.roomTick r = (st₄, some nr))
      (hrest : TickLoop g (i + 1) (st₄.replaceRoom g i nr) vs t) :
      TickLoop g i st (⟨r, .ticked (some nr)⟩ :: vs) t

def TicksOnce (g : Nat) (st : Server) (vs : List Visit) (t : Server) : Prop :=
  TickLoop g 0 (st.drainMail g) vs t

/-! ### Single turns -/

section Turn
variable {g i r : Nat} {st st' : Server}

theorem mine_of_dies (h : st.processRoomQueues r = (st', true)) :
    (st'.removeRoom g i).myRooms g = swapRemoveAt (st.myRooms g) i ∧
      (st'.removeRoom g i).freeRooms = st.freeRooms ++ [r] := by
  have hdie := roster_process h g i
  have hmine := congrArg (fun R : Roster => R.mine g) hdie
  exact ⟨hmine.trans (Function.update_self ..), congrArg Roster.free hdie⟩

theorem mine_of_lives (h : st.processRoomQueues r = (st', false)) :
    st'.myRooms g = st.myRooms g ∧ st'.freeRooms = st.freeRooms := by
  have hsame := roster_process_lives h
  exact ⟨congrArg (fun R : Roster => R.mine g) hsame, congrArg Roster.free hsame⟩

theorem mine_of_stays (h : st.roomTick r = (st', none)) :
    st'.myRooms g = st.myRooms g ∧ st'.freeRooms = st.freeRooms := by
  rcases roster_roomTick h g 0 with ⟨-, hsame⟩ | ⟨nr, hsome, -⟩
  · exact ⟨congrArg (fun R : Roster => R.mine g) hsame, congrArg Roster.free hsame⟩
  · cases hsome

theorem mine_of_moves {nr : Nat} (h : st.roomTick r = (st', some nr)) :
    st.freeRooms.getLast? = some nr ∧
      (st'.replaceRoom g i nr).myRooms g = (st.myRooms g).set i nr ∧
      (st'.replaceRoom g i nr).freeRooms = st.freeRooms.dropLast ++ [r] := by
  rcases roster_roomTick h g i with ⟨hnone, -⟩ | ⟨nr', hsome, hlast, hmove⟩
  · cases hnone
  · cases hsome
    have hmine := congrArg (fun R : Roster => R.mine g) hmove
    exact ⟨hlast, hmine.trans (Function.update_self ..), congrArg Roster.free hmove⟩

theorem apart_of_counts (h : st.Apart g) (hcount : ∀ x,
    (st'.myRooms g).count x + st'.freeRooms.count x =
      (st.myRooms g).count x + st.freeRooms.count x) : st'.Apart g := by
  apply List.nodup_iff_count_le_one.mpr
  intro x
  have hone := List.nodup_iff_count_le_one.mp h x
  rw [List.count_append] at hone ⊢
  rw [hcount]
  exact hone

theorem apart_of_dies (h : st.Apart g) (hr : (st.myRooms g)[i]? = some r)
    (hprocess : st.processRoomQueues r = (st', true)) : (st'.removeRoom g i).Apart g := by
  obtain ⟨hmine, hfree⟩ := mine_of_dies hprocess
  apply apart_of_counts h
  intro x
  have hcount := count_swapRemoveAt hr x
  rw [hmine, hfree, count_push]
  omega

theorem apart_of_lives (h : st.Apart g) (hprocess : st.processRoomQueues r = (st', false)) :
    st'.Apart g := by
  obtain ⟨hmine, hfree⟩ := mine_of_lives hprocess
  unfold Apart
  rw [hmine, hfree]
  exact h

theorem apart_of_stays (h : st.Apart g) (htick : st.roomTick r = (st', none)) : st'.Apart g := by
  obtain ⟨hmine, hfree⟩ := mine_of_stays htick
  unfold Apart
  rw [hmine, hfree]
  exact h

theorem apart_of_moves {nr : Nat} (h : st.Apart g) (hr : (st.myRooms g)[i]? = some r)
    (htick : st.roomTick r = (st', some nr)) : (st'.replaceRoom g i nr).Apart g := by
  obtain ⟨hlast, hmine, hfree⟩ := mine_of_moves htick
  apply apart_of_counts h
  intro x
  have hset := count_set hr nr x
  have hdrop := count_dropLast hlast x
  rw [hmine, hfree, count_push]
  omega

end Turn

/-! ### The loop -/

section Loop
variable {g i : Nat} {st t : Server} {vs : List Visit}

/-- The visits are the rooms from index `i` on, and what they leave joins the rooms before. -/
theorem TickLoop.visits (h : TickLoop g i st vs t) :
    (vs.map Visit.room).Perm ((st.myRooms g).drop i) ∧
      (t.myRooms g).Perm ((st.myRooms g).take i ++ vs.filterMap Visit.left) := by
  induction h with
  | done hend =>
    have hlen := List.getElem?_eq_none_iff.mp hend
    rw [List.drop_eq_nil_of_le hlen, List.take_of_length_le hlen]
    exact ⟨.refl _, by rw [List.filterMap_nil, List.append_nil]⟩
  | @dies i r st st₁ st₂ t vs henv hr hprocess hrest ih =>
    obtain ⟨hvisits, hleft⟩ := ih
    rw [(mine_of_dies hprocess).1] at hvisits hleft
    rw [← henv.mine]
    constructor
    · exact (hvisits.cons r).trans (swapRemoveAt_drop hr)
    · rw [swapRemoveAt_take hr] at hleft
      exact hleft
  | @stays i r st st₁ st₂ st₃ st₄ t vs henv hr hprocess henv' htick hrest ih =>
    obtain ⟨hvisits, hleft⟩ := ih
    have hmine : st₄.myRooms g = st₁.myRooms g :=
      (mine_of_stays htick).1.trans (henv'.mine.trans (mine_of_lives hprocess).1)
    obtain ⟨hi, hget⟩ := List.getElem?_eq_some_iff.mp hr
    rw [hmine] at hvisits hleft
    rw [← henv.mine]
    constructor
    · rw [List.drop_eq_getElem_cons hi, hget]
      exact hvisits.cons r
    · rw [List.take_succ_eq_append_getElem hi, hget, List.append_assoc] at hleft
      exact hleft
  | @moves i r nr st st₁ st₂ st₃ st₄ t vs henv hr hprocess henv' htick hrest ih =>
    obtain ⟨hvisits, hleft⟩ := ih
    have hmine : (st₄.replaceRoom g i nr).myRooms g = (st₁.myRooms g).set i nr := by
      rw [(mine_of_moves htick).2.1, henv'.mine, (mine_of_lives hprocess).1]
    obtain ⟨hi, hget⟩ := List.getElem?_eq_some_iff.mp hr
    have hi' : i < ((st₁.myRooms g).set i nr).length := by
      rw [List.length_set]
      exact hi
    rw [hmine] at hvisits hleft
    rw [← henv.mine]
    constructor
    · rw [List.drop_set_of_lt (Nat.lt_succ_self i)] at hvisits
      rw [List.drop_eq_getElem_cons hi, hget]
      exact hvisits.cons r
    · rw [List.take_succ_eq_append_getElem hi', List.getElem_set_self,
        List.take_set_of_le (Nat.le_refl i), List.append_assoc] at hleft
      exact hleft

/-- The worker's list stays apart from the free slots. -/
theorem TickLoop.apart (h : TickLoop g i st vs t) (hst : st.Apart g) : t.Apart g := by
  induction h with
  | done hend => exact hst
  | dies henv hr hprocess hrest ih => exact ih (apart_of_dies (henv.apart hst) hr hprocess)
  | stays henv hr hprocess henv' htick hrest ih =>
    exact ih (apart_of_stays (henv'.apart (apart_of_lives (henv.apart hst) hprocess)) htick)
  | moves henv hr hprocess henv' htick hrest ih =>
    refine ih (apart_of_moves (henv'.apart (apart_of_lives (henv.apart hst) hprocess)) ?_ htick)
    rw [henv'.mine, (mine_of_lives hprocess).1]
    exact hr

/-- The slot of a new room comes from the free ones, so no later visit is to it. -/
theorem TickLoop.fresh (h : TickLoop g i st vs t) (hst : st.Apart g) :
    vs.Pairwise fun v v' => v.fate ≠ .ticked (some v'.room) := by
  induction h with
  | done hend => exact .nil
  | dies henv hr hprocess hrest ih =>
    refine .cons (fun v' _ hfate => ?_) (ih (apart_of_dies (henv.apart hst) hr hprocess))
    cases hfate
  | stays henv hr hprocess henv' htick hrest ih =>
    refine .cons (fun v' _ hfate => ?_)
      (ih (apart_of_stays (henv'.apart (apart_of_lives (henv.apart hst) hprocess)) htick))
    cases hfate
  | @moves i r nr st st₁ st₂ st₃ st₄ t vs henv hr hprocess henv' htick hrest ih =>
    have hst₃ : st₃.Apart g := henv'.apart (apart_of_lives (henv.apart hst) hprocess)
    have hr₃ : (st₃.myRooms g)[i]? = some r := by
      rw [henv'.mine, (mine_of_lives hprocess).1]
      exact hr
    refine .cons (fun v' hv' hfate => ?_) (ih (apart_of_moves hst₃ hr₃ htick))
    obtain ⟨hlast, hmine, -⟩ := mine_of_moves (g := g) (i := i) htick
    have hroom : nr = v'.room := by
      cases hfate
      rfl
    have hmem : v'.room ∈ ((st₃.myRooms g).set i nr).drop (i + 1) := by
      rw [← hmine]
      exact hrest.visits.1.subset (List.mem_map_of_mem hv')
    rw [List.drop_set_of_lt (Nat.lt_succ_self i), ← hroom] at hmem
    have hdisjoint := (List.nodup_append.mp hst₃).2.2
    exact hdisjoint nr (List.mem_of_mem_drop hmem) nr (List.mem_of_getLast? hlast) rfl

/-- `tickLoop` is the loop with nothing around it. -/
theorem tickLoop_visits {n : Nat} (hn : (st.myRooms g).length ≤ i + n) :
    ∃ vs, TickLoop g i st vs (tickLoop g n i st) := by
  induction n generalizing i st with
  | zero => exact ⟨[], .done (List.getElem?_eq_none hn)⟩
  | succ n ih =>
    unfold tickLoop
    cases hr : (st.myRooms g)[i]? with
    | none => exact ⟨[], .done hr⟩
    | some r =>
      have hlt : i < (st.myRooms g).length := (List.getElem?_eq_some_iff.mp hr).1
      dsimp only
      cases hprocess : st.processRoomQueues r with
      | mk st₁ dies =>
        cases dies with
        | true =>
          have hperm := (swapRemoveAt_perm hr).length_eq
          have hlen : ((st₁.removeRoom g i).myRooms g).length ≤ i + n := by
            rw [(mine_of_dies hprocess).1]
            rw [List.length_cons] at hperm
            omega
          obtain ⟨vs, hvs⟩ := ih hlen
          exact ⟨_, .dies (.refl g st) hr hprocess hvs⟩
        | false =>
          have hmine : st₁.myRooms g = st.myRooms g := (mine_of_lives hprocess).1
          dsimp only
          cases htick : st₁.roomTick r with
          | mk st₂ o =>
            cases o with
            | none =>
              have hlen : (st₂.myRooms g).length ≤ i + 1 + n := by
                rw [(mine_of_stays htick).1, hmine]
                omega
              obtain ⟨vs, hvs⟩ := ih hlen
              exact ⟨_, .stays (.refl g st) hr hprocess (.refl g st₁) htick hvs⟩
            | some nr =>
              have hlen : ((st₂.replaceRoom g i nr).myRooms g).length ≤ i + 1 + n := by
                rw [(mine_of_moves htick).2.1, List.length_set, hmine]
                omega
              obtain ⟨vs, hvs⟩ := ih hlen
              exact ⟨_, .moves (.refl g st) hr hprocess (.refl g st₁) htick hvs⟩

theorem tickOnce_visits (g : Nat) (st : Server) : ∃ vs, TicksOnce g st vs (st.tickOnce g) :=
  tickLoop_visits (Nat.le_of_eq (Nat.zero_add _).symm)

end Loop

/-! ### Kept rosters -/

section Kept
variable {g : Nat} {st st' : Server}

theorem lists_nodup (h : st.roster.Kept) (g : Nat) :
    (st.myRooms g ++ st.mail g ++ st.freeRooms).Nodup := by
  apply List.nodup_iff_count_le_one.mpr
  intro r
  have hplaced := h.placed r
  have hone : (if r < st.roster.cap then 1 else 0) ≤ 1 := by
    split <;> omega
  rw [List.count_append, List.count_append]
  by_cases hown : st.roster.worker r = g
  · subst hown
    have hlists : st.freeRooms.count r + (st.mail (st.roster.worker r)).count r +
        (st.myRooms (st.roster.worker r)).count r ≤ 1 := hplaced.trans_le hone
    omega
  · have hmail : (st.mail g).count r = 0 :=
      List.count_eq_zero.mpr fun hmem => hown (h.mail_worker g r hmem)
    have hmine : (st.myRooms g).count r = 0 :=
      List.count_eq_zero.mpr fun hmem => hown (h.mine_worker g r hmem)
    have hfree : st.freeRooms.count r ≤ 1 := by
      have hle : st.freeRooms.count r ≤ st.freeRooms.count r +
        (st.mail (st.roster.worker r)).count r + (st.myRooms (st.roster.worker r)).count r := by
          omega
      exact hle.trans (hplaced.trans_le hone)
    omega

theorem mine_of_steps {R R' : Roster} {o : Option Nat} (ho : o ≠ some g) (h : R.Steps o R') :
    R'.mine g = R.mine g := by
  induction h with
  | refl => rfl
  | tail _ hstep ih =>
    refine Eq.trans ?_ ih
    cases hstep with
    | post r hworkers hr => rfl
    | drain g' => exact Function.update_of_ne (fun hg => ho (congrArg some hg.symm)) ..
    | die g' i r hr => exact Function.update_of_ne (fun hg => ho (congrArg some hg.symm)) ..
    | move g' i old nr hold hnr =>
      exact Function.update_of_ne (fun hg => ho (congrArg some hg.symm)) ..

/-- The manager and the other workers keep to `Elsewhere`. -/
theorem elsewhere_of_steps (h : st.roster.Kept) {o : Option Nat} (ho : o ≠ some g)
    (hsteps : st.roster.Steps o st'.roster) : Elsewhere g st st' where
  mine := mine_of_steps ho hsteps
  apart _ := by
    have hnodup := lists_nodup (h.steps hsteps) g
    rw [List.append_assoc] at hnodup
    have hsub : (st'.myRooms g ++ st'.freeRooms).Sublist
        (st'.myRooms g ++ (st'.mail g ++ st'.freeRooms)) :=
      (List.Sublist.refl _).append (List.sublist_append_right _ _)
    exact List.Nodup.sublist hsub hnodup

end Kept

structure Ticked (g : Nat) (st : Server) (vs : List Visit) (t : Server) : Prop where
  /-- Every room of the drained list was passed to `ProcessRoomQueues` once. -/
  processed : (vs.map Visit.room).Perm (st.myRooms g ++ st.mail g)
  processed_once : (vs.map Visit.room).Nodup
  /-- `RoomTick` ran once on every room that did not die. -/
  ticked : ∀ r, r ∈ vs.filterMap Visit.ticked ↔
    r ∈ st.myRooms g ++ st.mail g ∧ Visit.mk r .died ∉ vs
  ticked_once : (vs.filterMap Visit.ticked).Nodup
  /-- The list holds what the visits left. -/
  left : (t.myRooms g).Perm (vs.filterMap Visit.left)
  left_once : (t.myRooms g).Nodup
  /-- A new room was not visited afterwards. -/
  fresh : vs.Pairwise fun v v' => v.fate ≠ .ticked (some v'.room)

section Once
variable {g : Nat} {st t : Server} {vs : List Visit}

theorem ticked_sublist (vs : List Visit) :
    (vs.filterMap Visit.ticked).Sublist (vs.map Visit.room) := by
  induction vs with
  | nil => exact .slnil
  | cons v vs ih =>
    rw [List.filterMap_cons, List.map_cons]
    unfold Visit.ticked
    split
    · exact ih.cons _
    · rename_i r hr
      split at hr
      · cases hr
      · cases hr
        exact ih.cons_cons _

theorem visit_unique (h : (vs.map Visit.room).Nodup) {v v' : Visit} (hv : v ∈ vs) (hv' : v' ∈ vs)
    (hroom : v.room = v'.room) : v = v' := List.inj_on_of_nodup_map h hv hv' hroom

theorem mem_ticked (h : (vs.map Visit.room).Nodup) (r : Nat) :
    r ∈ vs.filterMap Visit.ticked ↔ r ∈ vs.map Visit.room ∧ Visit.mk r .died ∉ vs := by
  rw [List.mem_filterMap, List.mem_map]
  constructor
  · rintro ⟨v, hv, hr⟩
    unfold Visit.ticked at hr
    split at hr
    · cases hr
    · rename_i hfate
      cases hr
      refine ⟨⟨v, hv, rfl⟩, fun hdied => hfate ?_⟩
      exact congrArg Visit.fate (visit_unique h hv hdied rfl)
  · rintro ⟨⟨v, hv, rfl⟩, hdied⟩
    refine ⟨v, hv, ?_⟩
    unfold Visit.ticked
    apply if_neg
    intro hfate
    apply hdied
    rw [← hfate]
    exact hv

theorem Ticked.of_ticksOnce (h : TicksOnce g st vs t)
    (hnodup : (st.myRooms g ++ st.mail g ++ st.freeRooms).Nodup) : Ticked g st vs t := by
  have hmine : (st.drainMail g).myRooms g = st.myRooms g ++ st.mail g := Function.update_self ..
  have hapart : (st.drainMail g).Apart g := by
    unfold Apart
    rw [hmine]
    exact hnodup
  obtain ⟨hvisits, hleft⟩ := h.visits
  rw [List.drop_zero, hmine] at hvisits
  have honce : (vs.map Visit.room).Nodup :=
    hvisits.nodup_iff.mpr (List.Nodup.sublist (List.sublist_append_left _ _) hnodup)
  refine ⟨hvisits, honce, fun r => ?_, List.Nodup.sublist (ticked_sublist vs) honce, hleft, ?_,
    h.fresh hapart⟩
  · rw [mem_ticked honce, hvisits.mem_iff]
  · exact List.Nodup.sublist (List.sublist_append_left _ _) (h.apart hapart)

end Once

end Server

/-- Every room of a worker ticks exactly once in `TickOnce`, whatever happens around it; the
lists of a reachable state are as the call needs them, and the rest of the server keeps out of
its way. -/
theorem tick_once :
    (∀ g st vs t, Server.TicksOnce g st vs t →
      (st.myRooms g ++ st.mail g ++ st.freeRooms).Nodup → Server.Ticked g st vs t) ∧
    (∀ g st, ∃ vs, Server.TicksOnce g st vs (st.tickOnce g)) ∧
    (∀ g st st' o, o ≠ some g → st.roster.Kept → st.roster.Steps o st'.roster →
      Server.Elsewhere g st st') ∧
    ∀ sessionCapacity roomCapacity workerCount s, roomCapacity < 2 ^ 32 →
      Reach Serial.turn Any (Serial.init sessionCapacity roomCapacity workerCount) s →
      s.srv.roster.Kept ∧ ∀ g, (s.srv.myRooms g ++ s.srv.mail g ++ s.srv.freeRooms).Nodup := by
  refine ⟨fun g st vs t h hnodup => .of_ticksOnce h hnodup, Server.tickOnce_visits, ?_, ?_⟩
  · intro g st st' o ho hkept hsteps
    exact Server.elsewhere_of_steps hkept ho hsteps
  · intro sessionCapacity roomCapacity workerCount s hcap hreach
    have hkept := Serial.kept_of_reach hcap hreach
    exact ⟨hkept, Server.lists_nodup hkept⟩

/-- Four players leave their room while the fifth one walks to the exit of another. -/
def slotReused : List Turn :=
  List.replicate 5 (.op (.accept 0 5 true true true)) ++
    [.join 0, .join 1, .join 2, .join 3, .join 4, .tickOnce 0,
      .op (.frame 0 4 [12, 0, 11, 0, 1, 0, 0, 0, 115, 0, 0, 0] 0), .tickOnce 0, .tickOnce 0,
      .leave 0, .leave 1, .leave 2, .leave 3]

theorem tick_once_slotReused : ∃ s vs,
    run Serial.turn slotReused (Serial.init 8 2 1) = some s ∧
    Server.TicksOnce 0 s.srv vs (s.srv.tickOnce 0) ∧
    Server.Ticked 0 s.srv vs (s.srv.tickOnce 0) ∧
    Server.Elsewhere 0 s.srv (s.srv.drainMail 1) ∧
    s.srv.myRooms 0 = [0, 1] ∧ (s.srv.tickOnce 0).myRooms 0 = [0] := by
  have hrun : (run Serial.turn slotReused (Serial.init 8 2 1)).map (fun s =>
      (s.srv.myRooms 0, (s.srv.tickOnce 0).myRooms 0)) = some ([0, 1], [0]) := by
    decide +kernel
  obtain ⟨s, hs, hproj⟩ := Option.map_eq_some_iff.mp hrun
  simp only [Prod.mk.injEq] at hproj
  obtain ⟨honce, hvisits, helse, hreach⟩ := tick_once
  obtain ⟨hkept, hnodup⟩ := hreach 8 2 1 s (by decide) (reach_of_run hs)
  obtain ⟨vs, hvs⟩ := hvisits 0 s.srv
  refine ⟨s, vs, hs, hvs, honce 0 s.srv vs _ hvs (hnodup 0), ?_, hproj⟩
  exact helse 0 s.srv _ (some 1) (by decide) hkept (.single (.drain 1))

end BeltServer
