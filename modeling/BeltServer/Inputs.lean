import BeltServer.Stage
import BeltServer.Sections
import BeltServer.Lib.DropQueue

/-!
# The input queue of a player

Each member's ring is a queue of depth 8 that drops its oldest input, from the moment it is
seated until it leaves, whatever rooms it moves through. The record of a run notes every
input that is queued in some room, every member seated, and for each tick what the rings of
the room took in, gave up and served; a member's story is its part of the record.
-/

namespace BeltServer

set_option autoImplicit false

open Runs DropQueue

/-! ### One ring -/

namespace Member

instance depth_neZero : NeZero 8 := ⟨by decide⟩

def queue (m : Member) : List InputCmd := contents m.ring m.ringHead m.ringCount

structure RingOk (m : Member) : Prop where
  head : m.ringHead < kInputRingDepth
  count : m.ringCount ≤ kInputRingDepth

/-- The arrival of an input, with the entry that a full ring overwrites. -/
def pushed (m : Member) (c : InputCmd) : Event InputCmd :=
  .arrive c (if m.ringCount = kInputRingDepth then some (m.ring (Fin.ofNat 8 m.ringHead)) else none)

def served (m : Member) : Event InputCmd :=
  .serve (if 0 < m.ringCount then some (m.ring (Fin.ofNat 8 m.ringHead)) else none)

def pushAll (m : Member) (cs : List InputCmd) : Member := cs.foldl (fun m c => (m.push c).1) m

def pushEvents : Member → List InputCmd → List (Event InputCmd)
  | _, [] => []
  | m, c :: cs => m.pushed c :: pushEvents (m.push c).1 cs

/-- What one tick does to the ring: the inputs routed to it, then the consumption. -/
def turn (m : Member) (cs : List InputCmd) : List (Event InputCmd) :=
  m.pushEvents cs ++ [(m.pushAll cs).served]

theorem queue_length (m : Member) : m.queue.length = m.ringCount := contents_length ..

theorem push_identity' (m : Member) (c : InputCmd) :
    (m.push c).1.used = m.used ∧ (m.push c).1.sessIdx = m.sessIdx ∧
      (m.push c).1.sessGen = m.sessGen ∧ (m.push c).1.lastInputSeq = m.lastInputSeq := by
  unfold push
  split <;> exact ⟨rfl, rfl, rfl, rfl⟩

theorem pushAll_identity (m : Member) (cs : List InputCmd) :
    (m.pushAll cs).used = m.used ∧ (m.pushAll cs).sessIdx = m.sessIdx ∧
      (m.pushAll cs).sessGen = m.sessGen ∧ (m.pushAll cs).lastInputSeq = m.lastInputSeq := by
  induction cs generalizing m with
  | nil => exact ⟨rfl, rfl, rfl, rfl⟩
  | cons c cs ih =>
    obtain ⟨hu, hs, hg, hl⟩ := ih (m.push c).1
    obtain ⟨hu', hs', hg', hl'⟩ := m.push_identity' c
    exact ⟨hu.trans hu', hs.trans hs', hg.trans hg', hl.trans hl'⟩

variable {m : Member}

theorem store_queue (h : m.ringCount < kInputRingDepth) (c : InputCmd) :
    (m.store c).queue = m.queue ++ [c] := contents_push m.ring h c

theorem dropOldest_queue (h : 0 < m.ringCount) : m.dropOldest.queue = m.queue.tail :=
  contents_tail m.ring h

theorem queue_head (h : 0 < m.ringCount) :
    m.queue.head? = some (m.ring (Fin.ofNat 8 m.ringHead)) := contents_head m.ring h

/-- An arrival at the ring is an arrival at the queue. -/
theorem push_next (h : m.RingOk) (c : InputCmd) :
    next kInputRingDepth m.queue (m.pushed c) = some (m.push c).1.queue ∧ (m.push c).1.RingOk := by
  have hcount := h.count
  unfold push pushed
  by_cases hfull : m.ringCount = kInputRingDepth
  · have hpos : 0 < m.ringCount := by
      rw [hfull]
      decide
    have hroom : m.dropOldest.ringCount < kInputRingDepth := by
      show m.ringCount - 1 < kInputRingDepth
      omega
    rw [if_pos hfull, if_pos hfull]
    constructor
    · simp only [next, queue_length, if_pos hfull]
      rw [if_pos (queue_head hpos).symm, store_queue hroom, dropOldest_queue hpos]
    · constructor
      · exact Nat.mod_lt _ (by decide)
      · exact hroom
  · rw [if_neg hfull, if_neg hfull]
    constructor
    · simp only [next, queue_length, if_neg hfull, if_true]
      rw [store_queue (by omega)]
    · constructor
      · exact h.head
      · show m.ringCount + 1 ≤ kInputRingDepth
        omega

theorem queue_nil (h : ¬0 < m.ringCount) : m.queue = [] := by
  apply List.length_eq_zero_iff.mp
  rw [queue_length]
  omega

/-- The oldest input is served, if any. -/
theorem served_eq (m : Member) : m.served = .serve m.queue.head? := by
  unfold served
  by_cases hpos : 0 < m.ringCount
  · rw [if_pos hpos, queue_head hpos]
  · rw [if_neg hpos, queue_nil hpos]
    rfl

theorem consume_queue (m : Member) : m.consume.1.queue = m.queue.tail := by
  unfold consume
  by_cases hpos : 0 < m.ringCount
  · rw [if_pos hpos]
    exact contents_tail m.ring hpos
  · rw [if_neg hpos, queue_nil hpos]
    split <;> exact queue_nil hpos

theorem consume_next (h : m.RingOk) :
    next kInputRingDepth m.queue m.served = some m.consume.1.queue ∧ m.consume.1.RingOk := by
  have hcount := h.count
  constructor
  · rw [served_eq, consume_queue]
    exact if_pos rfl
  · unfold consume
    by_cases hpos : 0 < m.ringCount
    · rw [if_pos hpos]
      constructor
      · exact Nat.mod_lt _ (by decide)
      · show m.ringCount - 1 ≤ kInputRingDepth
        omega
    · rw [if_neg hpos]
      split <;> exact ⟨h.head, h.count⟩

theorem pushAll_replay (h : m.RingOk) (cs : List InputCmd) :
    replay kInputRingDepth m.queue (m.pushEvents cs) = some (m.pushAll cs).queue ∧
      (m.pushAll cs).RingOk := by
  induction cs generalizing m with
  | nil => exact ⟨rfl, h⟩
  | cons c cs ih =>
    obtain ⟨hnext, hok⟩ := push_next h c
    obtain ⟨hrest, hok'⟩ := ih hok
    refine ⟨?_, hok'⟩
    simp only [pushEvents, replay, hnext, Option.bind_some]
    exact hrest

/-- One tick of the ring is one turn of the queue. -/
theorem turn_replay (h : m.RingOk) (cs : List InputCmd) :
    replay kInputRingDepth m.queue (m.turn cs) = some (m.pushAll cs).consume.1.queue ∧
      (m.pushAll cs).consume.1.RingOk := by
  obtain ⟨hpush, hok⟩ := pushAll_replay h cs
  obtain ⟨hserve, hok'⟩ := consume_next hok
  refine ⟨?_, hok'⟩
  simp only [turn, replay_append, hpush, replay, hserve, Option.bind_some]

theorem arrived_pushEvents (m : Member) (cs : List InputCmd) : arrived (m.pushEvents cs) = cs := by
  induction cs generalizing m with
  | nil => rfl
  | cons c cs ih => exact congrArg (c :: ·) (ih _)

theorem taken_pushEvents (m : Member) (cs : List InputCmd) : taken (m.pushEvents cs) = [] := by
  induction cs generalizing m with
  | nil => rfl
  | cons c cs ih =>
    have hone : taken [m.pushed c] = [] := by
      unfold pushed
      split <;> rfl
    exact (taken_append [m.pushed c] _).trans (by rw [hone, ih, List.append_nil])

theorem arrived_turn (m : Member) (cs : List InputCmd) : arrived (m.turn cs) = cs := by
  rw [turn, arrived_append, arrived_pushEvents]
  exact List.append_nil cs

theorem dropped_served (m : Member) : dropped [m.served] = [] := by
  unfold served
  split <;> rfl

theorem dropped_pushed (m : Member) (c : InputCmd) : (dropped [m.pushed c]).length = (m.push c).2 := by
  unfold pushed push
  split <;> rfl

theorem consume_lastInputSeq (m : Member) :
    m.consume.1.lastInputSeq = ((taken [m.served]).getLast?.map (·.seq)).getD m.lastInputSeq := by
  unfold consume served
  split
  · rfl
  · split <;> rfl

end Member

/-! ### Records -/

/-- An input queued in a room, a member seated, an event of the ring of a session's member. -/
inductive InputEvent where
  | sent (c : InputCmd)
  | seated (e : RoomJoinEntry)
  | queue (sess : Nat) (e : Event InputCmd)
  deriving DecidableEq

def dropCount (es : List InputEvent) : Nat :=
  (es.map fun
    | .queue _ e => (dropped [e]).length
    | _ => 0).sum

theorem dropCount_append (es es' : List InputEvent) :
    dropCount (es ++ es') = dropCount es + dropCount es' := by
  simp [dropCount]

theorem dropCount_queue (sess : Nat) (evs : List (Event InputCmd)) :
    dropCount (evs.map (.queue sess)) = (dropped evs).length := by
  induction evs with
  | nil => rfl
  | cons e evs ih =>
    calc dropCount ((e :: evs).map (.queue sess))
        = (dropped [e]).length + dropCount (evs.map (.queue sess)) := rfl
      _ = (dropped [e] ++ dropped evs).length := by rw [ih, List.length_append]
      _ = (dropped (e :: evs)).length := by rw [← dropped_append, List.singleton_append]

/-- How one entry of the record continues the story of session `idx`. -/
def noted (idx : Nat) (evs : List (Event InputCmd)) : InputEvent → List (Event InputCmd)
  | .seated e => if e.sessIdx = idx then [] else evs
  | .queue sess e => if sess = idx then evs ++ [e] else evs
  | .sent _ => evs

/-- What happened to the ring of session `idx` since its member was seated. -/
def story (idx : Nat) (es : List InputEvent) : List (Event InputCmd) := es.foldl (noted idx) []

/-- The inputs queued under the name of a session and generation, in order. -/
def sentBy (idx : Nat) (gen : UInt32) (es : List InputEvent) : List InputCmd :=
  es.filterMap fun
    | .sent c => if c.sessIdx = idx ∧ c.sessGen = gen then some c else none
    | _ => none

theorem story_append (idx : Nat) (es es' : List InputEvent) :
    story idx (es ++ es') = es'.foldl (noted idx) (story idx es) := List.foldl_append

theorem sentBy_append (idx : Nat) (gen : UInt32) (es es' : List InputEvent) :
    sentBy idx gen (es ++ es') = sentBy idx gen es ++ sentBy idx gen es' := List.filterMap_append

theorem noted_queue (idx sess : Nat) (evs new : List (Event InputCmd)) :
    (new.map (InputEvent.queue sess)).foldl (noted idx) evs =
      if sess = idx then evs ++ new else evs := by
  induction new generalizing evs with
  | nil => simp
  | cons e new ih =>
    rw [List.map_cons, List.foldl_cons, ih]
    by_cases h : sess = idx <;> simp [noted, h]

/-! ### One room -/

namespace Room

/-- The routing condition: the input names the member at this seat. -/
def sentTo (R : Room) (i : Seat) (c : InputCmd) : Bool :=
  c.actorId == i.val && (R.members i).used && (R.members i).sessIdx == c.sessIdx &&
    (R.members i).sessGen == c.sessGen

theorem route_sentTo {R : Room} {i : Seat} {c : InputCmd} (h : R.sentTo i c = true) :
    R.route c = ({ R with members := Function.update R.members i ((R.members i).push c).1 },
      ((R.members i).push c).2) := by
  simp only [sentTo, Bool.and_eq_true, beq_iff_eq] at h
  obtain ⟨⟨⟨hseat, hused⟩, hidx⟩, hgen⟩ := h
  have hlt : c.actorId < 4 := by
    rw [hseat]
    exact i.isLt
  obtain rfl : (⟨c.actorId, hlt⟩ : Seat) = i := Fin.ext hseat
  simp [route, hlt, hused, hidx, hgen]

theorem route_not_sentTo {R : Room} {c : InputCmd} (h : ∀ i, R.sentTo i c = false) :
    R.route c = (R, 0) := by
  unfold route
  split
  · rename_i hlt
    have hseat := h ⟨c.actorId, hlt⟩
    dsimp only
    split
    · rfl
    · rename_i hmatch
      simp only [Bool.or_eq_true, Bool.not_eq_true', bne_iff_ne, not_or, Bool.not_eq_false,
        ne_eq, not_not] at hmatch
      simp [sentTo, hmatch.1.1, hmatch.1.2, hmatch.2] at hseat
  · rfl

theorem route_members_self {R : Room} {i : Seat} {c : InputCmd} (h : R.sentTo i c = true) :
    (R.route c).1.members i = ((R.members i).push c).1 := by
  rw [route_sentTo h]
  exact Function.update_self ..

theorem route_members_ne {R : Room} {i j : Seat} {c : InputCmd} (h : R.sentTo j c = true)
    (hij : i ≠ j) : (R.route c).1.members i = R.members i := by
  rw [route_sentTo h]
  exact Function.update_of_ne hij ..

theorem sentTo_unique (R : Room) {i j : Seat} {c : InputCmd} (hi : R.sentTo i c = true)
    (hj : R.sentTo j c = true) : i = j := by
  simp only [sentTo, Bool.and_eq_true, beq_iff_eq] at hi hj
  exact Fin.ext (hi.1.1.1.symm.trans hj.1.1.1)

theorem route_identity (R : Room) (c : InputCmd) (i : Seat) :
    ((R.route c).1.members i).used = (R.members i).used ∧
      ((R.route c).1.members i).sessIdx = (R.members i).sessIdx ∧
      ((R.route c).1.members i).sessGen = (R.members i).sessGen := by
  by_cases h : ∃ j, R.sentTo j c = true
  · obtain ⟨j, hj⟩ := h
    by_cases hij : i = j
    · subst hij
      rw [route_members_self hj]
      exact Member.push_identity _ c
    · rw [route_members_ne hj hij]
      exact ⟨rfl, rfl, rfl⟩
  · rw [route_not_sentTo fun i => by simpa using fun hi => h ⟨i, hi⟩]
    exact ⟨rfl, rfl, rfl⟩

theorem route_sentTo_eq (R : Room) (c : InputCmd) (i : Seat) : (R.route c).1.sentTo i = R.sentTo i := by
  obtain ⟨hu, hs, hg⟩ := route_identity R c i
  funext c'
  simp only [sentTo, hu, hs, hg]

/-- The ring at a seat takes in the inputs that name its member, in their order. -/
theorem routeAll_members (R : Room) (cs : List InputCmd) (drops : Nat) (i : Seat) :
    (R.routeAll cs drops).1.members i = (R.members i).pushAll (cs.filter (R.sentTo i)) := by
  induction cs generalizing R drops with
  | nil => rfl
  | cons c cs ih =>
    have hrest := ih (R.route c).1 (drops + (R.route c).2)
    rw [route_sentTo_eq] at hrest
    refine hrest.trans ?_
    cases hc : R.sentTo i c with
    | true =>
      rw [List.filter_cons_of_pos hc, route_members_self hc]
      rfl
    | false =>
      rw [List.filter_cons_of_neg (by simp [hc])]
      congr 1
      by_cases h : ∃ j, R.sentTo j c = true
      · obtain ⟨j, hj⟩ := h
        have hij : i ≠ j := by
          rintro rfl
          rw [hc] at hj
          cases hj
        exact route_members_ne hj hij
      · rw [route_not_sentTo fun j => by simpa using fun hj => h ⟨j, hj⟩]

def mail (R : Room) (i : Seat) : List InputCmd := R.inQ.filter (R.sentTo i)

theorem mail_of_unused {R : Room} {i : Seat} (h : (R.members i).used = false) : R.mail i = [] := by
  apply List.filter_eq_nil_iff.mpr
  intro c _
  simp [sentTo, h]

theorem routed_members (R : Room) (i : Seat) :
    R.routeInputs.1.members i = (R.members i).pushAll (R.mail i) :=
  routeAll_members { R with inQ := [] } R.inQ 0 i

theorem routeAll_eq (R : Room) (cs : List InputCmd) (drops : Nat) :
    ∃ ms, (R.routeAll cs drops).1 = { R with members := ms } := by
  induction cs generalizing R drops with
  | nil => exact ⟨R.members, rfl⟩
  | cons c cs ih =>
    obtain ⟨ms, hms⟩ := ih (R.route c).1 (drops + (R.route c).2)
    refine ⟨ms, hms.trans ?_⟩
    unfold route
    split
    · dsimp only
      split <;> rfl
    · rfl

theorem step_eq (R : Room) : ∃ ms inputs, R.step =
    { R with
      inQ := []
      members := ms
      world := { simStep R.world inputs with tick := R.world.tick + 1 }
      tickAtomic := R.world.tick + 1 } := by
  obtain ⟨ms, hms⟩ := routeAll_eq { R with inQ := [] } R.inQ 0
  refine ⟨R.routeInputs.1.consumeAll.members, R.routeInputs.1.consumeAll.simInputs, ?_⟩
  have hrouted : R.routeInputs.1 = { R with inQ := [], members := ms } := hms
  simp only [step, simulate, consumeAll, hrouted]

theorem step_inQ (R : Room) : R.step.inQ = [] := by
  obtain ⟨ms, inputs, h⟩ := R.step_eq
  rw [h]

theorem step_tick (R : Room) : R.step.world.tick = R.world.tick + 1 := by
  obtain ⟨ms, inputs, h⟩ := R.step_eq
  rw [h]

theorem step_memberCount (R : Room) : R.step.memberCount = R.memberCount := by
  obtain ⟨ms, inputs, h⟩ := R.step_eq
  rw [h]

theorem step_members (R : Room) (i : Seat) :
    R.step.members i = if (R.members i).used then ((R.members i).pushAll (R.mail i)).consume.1
      else R.members i := by
  have hrouted := routed_members R i
  have hused : (R.routeInputs.1.members i).used = (R.members i).used := by
    rw [hrouted]
    exact (Member.pushAll_identity _ _).1
  have hstep : R.step.members i = if (R.routeInputs.1.members i).used then
      (R.routeInputs.1.members i).consume.1 else R.routeInputs.1.members i := rfl
  rw [hstep, hused, hrouted]
  cases hu : (R.members i).used with
  | true => rfl
  | false =>
    rw [mail_of_unused hu]
    rfl

/-- The routing counts the inputs that the rings give up. -/
theorem routeAll_drops (R : Room) (cs : List InputCmd) (drops : Nat) :
    (R.routeAll cs drops).2 = drops +
      ∑ i, (dropped ((R.members i).pushEvents (cs.filter (R.sentTo i)))).length := by
  induction cs generalizing R drops with
  | nil => simp [routeAll, Member.pushEvents, dropped, left]
  | cons c cs ih =>
    have hrest := ih (R.route c).1 (drops + (R.route c).2)
    simp only [route_sentTo_eq] at hrest
    refine hrest.trans ?_
    rw [Nat.add_assoc]
    congr 1
    by_cases h : ∃ j, R.sentTo j c = true
    · obtain ⟨j, hj⟩ := h
      have hone (i : Seat) :
          (dropped ((R.members i).pushEvents ((c :: cs).filter (R.sentTo i)))).length =
          (if i = j then ((R.members j).push c).2 else 0) +
            (dropped (((R.route c).1.members i).pushEvents (cs.filter (R.sentTo i)))).length := by
        by_cases hij : i = j
        · subst hij
          rw [List.filter_cons_of_pos hj, if_pos rfl, route_members_self hj, Member.pushEvents,
            ← List.singleton_append, dropped_append, List.length_append, Member.dropped_pushed]
        · have hnot : R.sentTo i c = false := by
            by_contra hi
            exact hij (R.sentTo_unique (by simpa using hi) hj)
          rw [List.filter_cons_of_neg (by simp [hnot]), if_neg hij, route_members_ne hj hij,
            Nat.zero_add]
      rw [Finset.sum_congr rfl fun i _ => hone i, Finset.sum_add_distrib,
        Finset.sum_ite_eq' Finset.univ j, if_pos (Finset.mem_univ j), route_sentTo hj]
    · have hnone (i : Seat) : R.sentTo i c = false := by simpa using fun hi => h ⟨i, hi⟩
      rw [route_not_sentTo hnone, Nat.zero_add]
      refine Finset.sum_congr rfl fun i _ => ?_
      rw [List.filter_cons_of_neg (by simp [hnone i])]

/-- The record of one tick: for each member what its ring took in, gave up and served. -/
def tickEvents (R : Room) : List InputEvent :=
  (List.finRange 4).flatMap fun i =>
    if (R.members i).used then
      ((R.members i).turn (R.mail i)).map (.queue (R.members i).sessIdx)
    else []

theorem tickEvents_drops (R : Room) : dropCount R.tickEvents = R.routeInputs.2 := by
  have hseat (i : Seat) : dropCount (if (R.members i).used then
      ((R.members i).turn (R.mail i)).map (.queue (R.members i).sessIdx) else []) =
      (dropped ((R.members i).pushEvents (R.mail i))).length := by
    cases hu : (R.members i).used with
    | true =>
      rw [if_pos rfl, dropCount_queue, Member.turn, dropped_append, Member.dropped_served,
        List.append_nil]
    | false =>
      rw [if_neg (by decide), mail_of_unused hu]
      rfl
  have hrouted := routeAll_drops { R with inQ := [] } R.inQ 0
  rw [Nat.zero_add] at hrouted
  refine Eq.trans ?_ hrouted.symm
  rw [Fin.sum_univ_def, tickEvents]
  generalize List.finRange 4 = is
  induction is with
  | nil => rfl
  | cons i is ih =>
    rw [List.flatMap_cons, dropCount_append, ih, hseat, List.map_cons, List.sum_cons]
    rfl

end Room

/-! ### Runs -/

namespace System

def inputEvents (a : Act) (s : System) : List InputEvent :=
  match s.cue a with
  | some (.send _ c) => [.sent c]
  | some (.seat _ e) => [.seated e]
  | some (.tick r) => (s.srv.rooms r).tickEvents
  | _ => []

end System

structure Fed (evs : List (Event InputCmd)) (m : Member) : Prop where
  ring : m.RingOk
  replay : replay kInputRingDepth [] evs = some m.queue
  last : m.lastInputSeq = ((taken evs).getLast?.map (·.seq)).getD 0

def Member.own (m : Member) (cs : List InputCmd) : List InputCmd :=
  cs.filter fun c => c.sessIdx = m.sessIdx ∧ c.sessGen = m.sessGen

/-- A room where the inputs of the members of `r` may be queued: the room itself, or the one
they are being moved to. -/
def System.Serves (s : System) (r r' : Nat) : Prop :=
  r' = r ∨ ∃ g k, s.lock.transfer = some (g, k, r, r')

structure InputsOk (es : List InputEvent) (s : System) : Prop where
  fed : ∀ r i, ((s.srv.stage r).members i).used = true →
    Fed (story ((s.srv.stage r).members i).sessIdx es) ((s.srv.stage r).members i)
  queued : ∀ r idx gen, ((s.srv.stage r).inQ.filter fun c => c.sessIdx = idx ∧ c.sessGen = gen).Sublist
    (sentBy idx gen es)
  order : ∀ r i, ((s.srv.stage r).members i).used = true → ∀ r', s.Serves r r' →
    (arrived (story ((s.srv.stage r).members i).sessIdx es) ++
        ((s.srv.stage r).members i).own (s.srv.stage r').inQ).Sublist
      (sentBy ((s.srv.stage r).members i).sessIdx ((s.srv.stage r).members i).sessGen es)

/-! #### One tick -/

theorem story_tick_ne {R : Room} {idx : Nat} {es : List InputEvent}
    (h : ∀ i, (R.members i).used = true → (R.members i).sessIdx ≠ idx) :
    story idx (es ++ R.tickEvents) = story idx es := by
  rw [story_append, Room.tickEvents]
  generalize List.finRange 4 = is
  induction is with
  | nil => rfl
  | cons i is ih =>
    rw [List.flatMap_cons, List.foldl_append]
    cases hu : (R.members i).used with
    | true =>
      rw [if_pos rfl, noted_queue, if_neg (h i hu)]
      exact ih
    | false =>
      rw [if_neg (by decide)]
      exact ih

/-- A member's story goes on with the turn of its ring. -/
theorem story_tick {R : Room} {i : Seat} {es : List InputEvent} (hu : (R.members i).used = true)
    (hone : ∀ j, (R.members j).used = true → (R.members j).sessIdx = (R.members i).sessIdx → j = i) :
    story (R.members i).sessIdx (es ++ R.tickEvents) =
      story (R.members i).sessIdx es ++ (R.members i).turn (R.mail i) := by
  have hseats (is : List Seat) (hnodup : is.Nodup) (evs : List (Event InputCmd)) :
      (is.flatMap fun j => if (R.members j).used then
        ((R.members j).turn (R.mail j)).map (InputEvent.queue (R.members j).sessIdx) else []).foldl
          (noted (R.members i).sessIdx) evs =
      if i ∈ is then evs ++ (R.members i).turn (R.mail i) else evs := by
    induction is generalizing evs with
    | nil => rfl
    | cons j is ih =>
      obtain ⟨hj, hrest⟩ := List.nodup_cons.mp hnodup
      rw [List.flatMap_cons, List.foldl_append, ih hrest]
      by_cases hij : j = i
      · subst hij
        rw [hu, if_pos rfl, noted_queue, if_pos rfl, if_neg hj, if_pos (List.mem_cons_self ..)]
      · have hmem : i ∈ j :: is ↔ i ∈ is := by simp [Ne.symm hij]
        have hskip : (if (R.members j).used then
            ((R.members j).turn (R.mail j)).map (InputEvent.queue (R.members j).sessIdx)
            else []).foldl (noted (R.members i).sessIdx) evs = evs := by
          cases huj : (R.members j).used with
          | true =>
            rw [if_pos rfl, noted_queue, if_neg fun hsess => hij (hone j huj hsess)]
          | false => rfl
        rw [hskip]
        simp only [hmem]
  rw [story_append, Room.tickEvents, hseats _ (List.nodup_finRange 4),
    if_pos (List.mem_finRange i)]

theorem Fed.turn {evs : List (Event InputCmd)} {m : Member} (h : Fed evs m) (cs : List InputCmd) :
    Fed (evs ++ m.turn cs) (m.pushAll cs).consume.1 := by
  obtain ⟨hturn, hok⟩ := m.turn_replay h.ring cs
  refine ⟨hok, ?_, ?_⟩
  · rw [replay_append, h.replay, Option.bind_some, hturn]
  · rw [Member.consume_lastInputSeq, (m.pushAll_identity cs).2.2.2, h.last, Member.turn,
      taken_append, taken_append, Member.taken_pushEvents, List.nil_append]
    cases taken [(m.pushAll cs).served] using List.reverseRecOn with
    | nil => simp
    | append_singleton l c => simp [← List.append_assoc]

theorem Fed.fresh (idx owner : Nat) (gen : UInt32) :
    Fed [] { used := true, sessIdx := idx, sessGen := gen, sessOwner := owner } where
  ring := ⟨Nat.zero_lt_succ _, Nat.zero_le _⟩
  replay := rfl
  last := rfl

/-! #### One step -/

theorem sentBy_sent (idx : Nat) (gen : UInt32) (es : List InputEvent) (c : InputCmd) :
    sentBy idx gen (es ++ [.sent c]) =
      sentBy idx gen es ++ [c].filter fun c => c.sessIdx = idx ∧ c.sessGen = gen := by
  rw [sentBy_append]
  congr 1
  by_cases hc : c.sessIdx = idx ∧ c.sessGen = gen <;> simp [sentBy, hc]

theorem sentBy_tick (idx : Nat) (gen : UInt32) (es : List InputEvent) (R : Room) :
    sentBy idx gen (es ++ R.tickEvents) = sentBy idx gen es := by
  have hnone : sentBy idx gen R.tickEvents = [] := by
    apply List.filterMap_eq_nil_iff.mpr
    intro e he
    obtain ⟨i, _, hi⟩ := List.mem_flatMap.mp he
    split at hi
    · obtain ⟨ev, _, rfl⟩ := List.mem_map.mp hi
      rfl
    · cases hi
  rw [sentBy_append, hnone, List.append_nil]

theorem System.serves_step {a : Act} {s t : System} (h : System.step a s = some t)
    (hclear : ∀ r, s.cue a ≠ some (.clear r)) {r r' : Nat} (hserves : t.Serves r r') :
    s.Serves r r' := by
  rcases hserves with rfl | ⟨g, k, htransfer⟩
  · exact Or.inl rfl
  · rcases transfer_step h htransfer with hold | hnew
    · exact Or.inr ⟨g, k, hold⟩
    · exact absurd hnew (hclear _)

theorem System.serves_clear {a : Act} {s t : System} (h : System.step a s = some t) {r₀ r r' : Nat}
    (hcue : s.cue a = some (.clear r₀)) (hserves : t.Serves r r') : s.Serves r r' ∨ r' = r₀ := by
  rcases hserves with rfl | ⟨g, k, htransfer⟩
  · exact Or.inl (Or.inl rfl)
  · rcases transfer_step h htransfer with hold | hnew
    · exact Or.inl (Or.inr ⟨g, k, hold⟩)
    · rw [hcue] at hnew
      cases hnew
      exact Or.inr rfl

namespace InputsOk

variable {es es' : List InputEvent} {s t : System}

/-- Members keep their stories, wherever they are, and nobody's queue gets ahead of what was
sent. -/
theorem of_members (h : InputsOk es s)
    (hmembers : ∀ r i, ((t.srv.stage r).members i).used = true →
      ∃ r₁, (t.srv.stage r).members i = (s.srv.stage r₁).members i ∧
        ∀ r', t.Serves r r' → s.Serves r₁ r' ∨ (t.srv.stage r').inQ = [])
    (hstory : ∀ idx, story idx es' = story idx es)
    (hqueued : ∀ r idx gen (l : List InputCmd),
      (l ++ (s.srv.stage r).inQ.filter fun c => c.sessIdx = idx ∧ c.sessGen = gen).Sublist
        (sentBy idx gen es) →
      (l ++ (t.srv.stage r).inQ.filter fun c => c.sessIdx = idx ∧ c.sessGen = gen).Sublist
        (sentBy idx gen es'))
    (hsent : ∀ idx gen, (sentBy idx gen es).Sublist (sentBy idx gen es')) : InputsOk es' t where
  fed r i hu := by
    obtain ⟨r₁, hm, -⟩ := hmembers r i hu
    rw [hm] at hu ⊢
    rw [hstory]
    exact h.fed r₁ i hu
  queued r idx gen := hqueued r idx gen [] (h.queued r idx gen)
  order r i hu r' hr' := by
    obtain ⟨r₁, hm, hserves⟩ := hmembers r i hu
    rw [hm] at hu ⊢
    rw [hstory]
    rcases hserves r' hr' with hold | hempty
    · exact hqueued r' _ _ _ (h.order r₁ i hu r' hold)
    · have hself := h.order r₁ i hu r₁ (Or.inl rfl)
      rw [hempty]
      apply List.Sublist.trans ?_ (hsent _ _)
      rw [Member.own, List.filter_nil, List.append_nil]
      exact (List.sublist_append_left _ _).trans hself

theorem of_same (h : InputsOk es s) (hstage : t.srv.stage = s.srv.stage)
    (hserves : ∀ r r', t.Serves r r' → s.Serves r r') : InputsOk es t := by
  refine h.of_members (fun r i _ => ⟨r, by rw [hstage], fun r' hr' => Or.inl (hserves r r' hr')⟩)
    (fun _ => rfl) (fun r idx gen l hl => ?_) (fun _ _ => List.Sublist.refl _)
  rw [hstage]
  exact hl

theorem step_send (h : InputsOk es s) {r₀ : Nat} {c : InputCmd}
    (hstage : t.srv.stage = (s.srv.perform (some (.send r₀ c))).stage)
    (hserves : ∀ r r', t.Serves r r' → s.Serves r r') : InputsOk (es ++ [.sent c]) t := by
  have hst := hstage.trans (Server.perform_send ..)
  refine h.of_members (fun r i _ => ⟨r, ?_, fun r' hr' => Or.inl (hserves r r' hr')⟩)
    (fun idx => ?_) (fun r idx gen l hl => ?_) (fun idx gen => ?_)
  · rw [hst]
    by_cases hr : r = r₀
    · rw [hr, Function.update_self]
    · rw [Function.update_of_ne hr]
  · rw [story_append]
    rfl
  · rw [sentBy_sent, hst]
    by_cases hr : r = r₀
    · subst hr
      rw [Function.update_self, List.filter_append, ← List.append_assoc]
      exact hl.append_right _
    · rw [Function.update_of_ne hr]
      exact hl.trans (List.sublist_append_left _ _)
  · rw [sentBy_sent]
    exact List.sublist_append_left _ _

theorem step_seat (h : InputsOk es s) (hs : Consistent s.ledger) {g k r₀ : Nat} {e : RoomJoinEntry}
    {js : List RoomJoinEntry} {ls : List RoomLeaveEntry} (hg : s.game g = .joins k r₀ (e :: js) ls)
    (hstage : t.srv.stage = (s.srv.perform (some (.seat r₀ e))).stage)
    (hserves : ∀ r r', t.Serves r r' → s.Serves r r') : InputsOk (es ++ [.seated e]) t := by
  let new : Member := ⟨true, e.sessIdx, e.sessGen, (s.srv.sess e.sessIdx).owner, fun _ => {}, 0, 0,
    {}, 0, 0⟩
  have hst := hstage.trans (Server.perform_seat ..)
  have hinQ (r : Nat) : (t.srv.stage r).inQ = (s.srv.stage r).inQ := by
    rw [hst]
    by_cases hr : r = r₀
    · rw [hr, Function.update_self]
      rfl
    · rw [Function.update_of_ne hr]
  have hnew : (t.srv.stage r₀).members = Function.update (s.srv.stage r₀).members e.actorId new := by
    rw [hst, Function.update_self]
    rfl
  have hsent (idx : Nat) (gen : UInt32) : sentBy idx gen (es ++ [.seated e]) = sentBy idx gen es := by
    rw [sentBy_append]
    exact List.append_nil _
  have hreset : story e.sessIdx (es ++ [.seated e]) = [] := by
    rw [story_append]
    exact if_pos rfl
  -- every other member keeps its story, being of another session
  have hother (r : Nat) (i : Seat) (hri : ¬(r = r₀ ∧ i = e.actorId)) :
      (t.srv.stage r).members i = (s.srv.stage r).members i := by
    by_cases hr : r = r₀
    · subst hr
      rw [hnew]
      exact Function.update_of_ne (fun hi => hri ⟨rfl, hi⟩) ..
    · rw [hst, Function.update_of_ne hr]
  have hkeep (r : Nat) (i : Seat) (hu : ((s.srv.stage r).members i).used = true) :
      story ((s.srv.stage r).members i).sessIdx (es ++ [.seated e]) =
        story ((s.srv.stage r).members i).sessIdx es := by
    rw [story_append]
    exact if_neg (Ne.symm (System.sess_ne_of_hand hs hu hg))
  refine ⟨fun r i hu => ?_, fun r idx gen => ?_, fun r i hu r' hr' => ?_⟩
  · by_cases hri : r = r₀ ∧ i = e.actorId
    · obtain ⟨rfl, rfl⟩ := hri
      rw [hnew, Function.update_self]
      exact hreset.symm ▸ Fed.fresh ..
    · rw [hother r i hri] at hu ⊢
      rw [hkeep r i hu]
      exact h.fed r i hu
  · rw [hinQ, hsent]
    exact h.queued r idx gen
  · rw [hinQ, hsent]
    by_cases hri : r = r₀ ∧ i = e.actorId
    · obtain ⟨rfl, rfl⟩ := hri
      rw [hnew, Function.update_self]
      exact hreset.symm ▸ h.queued r' _ _
    · rw [hother r i hri] at hu ⊢
      rw [hkeep r i hu]
      exact h.order r i hu r' (hserves r r' hr')

theorem step_unseat (h : InputsOk es s) {r₀ : Nat} {i₀ : Seat}
    (hstage : t.srv.stage = (s.srv.perform (some (.unseat r₀ i₀))).stage)
    (hserves : ∀ r r', t.Serves r r' → s.Serves r r') : InputsOk es t := by
  have hst := hstage.trans (Server.perform_unseat ..)
  have hinQ (r : Nat) : (t.srv.stage r).inQ = (s.srv.stage r).inQ := by
    rw [hst]
    by_cases hr : r = r₀
    · rw [hr, Function.update_self]
      rfl
    · rw [Function.update_of_ne hr]
  refine h.of_members (fun r i hu => ⟨r, ?_, fun r' hr' => Or.inl (hserves r r' hr')⟩)
    (fun _ => rfl) (fun r idx gen l hl => hinQ r ▸ hl) (fun _ _ => List.Sublist.refl _)
  by_cases hr : r = r₀
  · subst hr
    have hmem : (t.srv.stage r).members = Function.update (s.srv.stage r).members i₀
        { (s.srv.stage r).members i₀ with used := false } := by
      rw [hst, Function.update_self]
      rfl
    rw [hmem] at hu ⊢
    by_cases hi : i = i₀
    · rw [hi, Function.update_self] at hu
      cases hu
    · rw [Function.update_of_ne hi]
  · rw [hst, Function.update_of_ne hr]

theorem step_clear (h : InputsOk es s) {r₀ : Nat}
    (hstage : t.srv.stage = (s.srv.perform (some (.clear r₀))).stage)
    (hserves : ∀ r r', t.Serves r r' → s.Serves r r' ∨ r' = r₀) : InputsOk es t := by
  have hst := hstage.trans (Server.perform_clear ..)
  have hempty : (t.srv.stage r₀).inQ = [] := by
    rw [hst, Function.update_self]
    rfl
  refine h.of_members (fun r i hu => ⟨r, ?_, fun r' hr' => ?_⟩) (fun _ => rfl)
    (fun r idx gen l hl => ?_) (fun _ _ => List.Sublist.refl _)
  · by_cases hr : r = r₀
    · subst hr
      rw [hst, Function.update_self] at hu
      cases hu
    · rw [hst, Function.update_of_ne hr]
  · refine (hserves r r' hr').imp id ?_
    rintro rfl
    exact hempty
  · by_cases hr : r = r₀
    · subst hr
      rw [hempty, List.filter_nil, List.append_nil]
      exact (List.sublist_append_left _ _).trans hl
    · rw [hst, Function.update_of_ne hr]
      exact hl

/-- A member that moves keeps its story; what waits for it in the new room was sent later. -/
theorem step_move (h : InputsOk es s) (hs : Consistent s.ledger) {g k old nr : Nat} {i₀ : Seat}
    {rest : List Seat} {moved : Int} {joins : List RoomJoinEntry} {leaves : List RoomLeaveEntry}
    (hlock : s.lock = .move g k old nr (i₀ :: rest) moved joins leaves)
    (hstage : t.srv.stage = (s.srv.perform (some (.move old nr i₀))).stage)
    (hserves : ∀ r r', t.Serves r r' → s.Serves r r') : InputsOk es t := by
  have htransfer : s.lock.transfer = some (g, k, old, nr) := by
    rw [hlock]
    rfl
  have hne : nr ≠ old := Ne.symm (hs.places.transfer_ne htransfer)
  cases hused : ((s.srv.stage old).members i₀).used with
  | false => exact h.of_same (hstage.trans (Server.perform_move_unused s.srv hused)) hserves
  | true =>
    have hst := hstage.trans (Server.perform_move s.srv hne hused)
    have hinQ (r : Nat) : (t.srv.stage r).inQ = (s.srv.stage r).inQ := by
      rw [hst]
      by_cases hold : r = old
      · rw [hold, Function.update_self]
      · rw [Function.update_of_ne hold]
        by_cases hnew : r = nr
        · rw [hnew, Function.update_self]
        · rw [Function.update_of_ne hnew]
    refine h.of_members (fun r i hu => ?_) (fun _ => rfl) (fun r idx gen l hl => hinQ r ▸ hl)
      (fun _ _ => List.Sublist.refl _)
    have hleave : (t.srv.stage old).members = Function.update (s.srv.stage old).members i₀
        { (s.srv.stage old).members i₀ with used := false } := by
      rw [hst, Function.update_self]
    have henter : (t.srv.stage nr).members = Function.update (s.srv.stage nr).members i₀
        ((s.srv.stage old).members i₀) := by
      rw [hst, Function.update_of_ne hne, Function.update_self]
    by_cases hold : r = old
    · subst hold
      refine ⟨r, ?_, fun r' hr' => Or.inl (hserves r r' hr')⟩
      rw [hleave] at hu ⊢
      by_cases hi : i = i₀
      · rw [hi, Function.update_self] at hu
        cases hu
      · exact Function.update_of_ne hi ..
    · by_cases hmoved : r = nr ∧ i = i₀
      · obtain ⟨rfl, rfl⟩ := hmoved
        refine ⟨old, ?_, fun r' hr' => Or.inl ?_⟩
        · rw [henter, Function.update_self]
        · rcases hserves r r' hr' with rfl | ⟨g', k', hfrom⟩
          · exact Or.inr ⟨g, k, htransfer⟩
          · rw [htransfer] at hfrom
            cases hfrom
            exact absurd rfl hne
      · refine ⟨r, ?_, fun r' hr' => Or.inl (hserves r r' hr')⟩
        by_cases hnew : r = nr
        · subst hnew
          rw [henter, Function.update_of_ne fun hi => hmoved ⟨rfl, hi⟩]
        · rw [hst, Function.update_of_ne hold, Function.update_of_ne hnew]

theorem step_resume (h : InputsOk es s) {old nr : Nat}
    (hstage : t.srv.stage = (s.srv.perform (some (.resume old nr))).stage)
    (hserves : ∀ r r', t.Serves r r' → s.Serves r r') : InputsOk es t := by
  have hst := hstage.trans (Server.perform_resume ..)
  have hsame (r : Nat) : (t.srv.stage r).members = (s.srv.stage r).members ∧
      (t.srv.stage r).inQ = (s.srv.stage r).inQ := by
    rw [hst]
    by_cases hr : r = nr
    · subst hr
      rw [Function.update_self]
      exact ⟨rfl, rfl⟩
    · rw [Function.update_of_ne hr]
      exact ⟨rfl, rfl⟩
  refine h.of_members (fun r i _ => ⟨r, ?_, fun r' hr' => Or.inl (hserves r r' hr')⟩)
    (fun _ => rfl) (fun r idx gen l hl => ?_) (fun _ _ => List.Sublist.refl _)
  · rw [(hsame r).1]
  · rw [(hsame r).2]
    exact hl

theorem mail_sublist (R : Room) (i : Seat) : (R.mail i).Sublist ((R.members i).own R.inQ) := by
  apply List.monotone_filter_right
  intro c hc
  simp only [Room.sentTo, Bool.and_eq_true, beq_iff_eq] at hc
  simp [hc.1.2, hc.2]

/-- The turn of every ring in the room that ticks, and nobody else's. -/
theorem step_tick (h : InputsOk es s) (hs : Consistent s.ledger) {g k r₀ : Nat}
    (hg : s.game g = .idle) (hr₀ : (s.srv.myRooms g)[k]? = some r₀)
    (hstage : t.srv.stage = (s.srv.perform (some (.tick r₀))).stage)
    (hserves : ∀ r r', t.Serves r r' → s.Serves r r') :
    InputsOk (es ++ (s.srv.rooms r₀).tickEvents) t := by
  have hst := hstage.trans (Server.perform_tick ..)
  have hstill := hs.places.not_transfer_of_idle hg hr₀
  have hself (i : Seat) (hu : ((t.srv.stage r₀).members i).used = true) :
      ((s.srv.rooms r₀).members i).used = true ∧ (t.srv.stage r₀).members i =
        (((s.srv.rooms r₀).members i).pushAll ((s.srv.rooms r₀).mail i)).consume.1 := by
    have hmem : (t.srv.stage r₀).members i = (s.srv.rooms r₀).step.members i := by
      rw [hst, Function.update_self]
      rfl
    rw [hmem, Room.step_members] at hu ⊢
    cases hus : ((s.srv.rooms r₀).members i).used with
    | true => exact ⟨rfl, if_pos rfl⟩
    | false =>
      rw [hus, if_neg (by decide)] at hu
      rw [hus] at hu
      cases hu
  have hident (m : Member) (cs : List InputCmd) : (m.pushAll cs).consume.1.sessIdx = m.sessIdx ∧
      (m.pushAll cs).consume.1.sessGen = m.sessGen :=
    ⟨((m.pushAll cs).consume_identity.2.1).trans (m.pushAll_identity cs).2.1,
      ((m.pushAll cs).consume_identity.2.2).trans (m.pushAll_identity cs).2.2.1⟩
  have hstory (i : Seat) (hu : ((s.srv.rooms r₀).members i).used = true) :
      story ((s.srv.rooms r₀).members i).sessIdx (es ++ (s.srv.rooms r₀).tickEvents) =
        story ((s.srv.rooms r₀).members i).sessIdx es ++
          ((s.srv.rooms r₀).members i).turn ((s.srv.rooms r₀).mail i) :=
    story_tick hu fun j hj hsess => (System.used_unique hs hu hj hsess).2
  have hother (r : Nat) (hr : r ≠ r₀) (i : Seat) (hu : ((s.srv.stage r).members i).used = true) :
      story ((s.srv.stage r).members i).sessIdx (es ++ (s.srv.rooms r₀).tickEvents) =
        story ((s.srv.stage r).members i).sessIdx es :=
    story_tick_ne fun j hj hsess => hr (System.used_unique hs hj hu hsess.symm).1
  have hinQ : (t.srv.stage r₀).inQ = [] := by
    rw [hst, Function.update_self]
    exact Room.step_inQ _
  have hne (r : Nat) (hr : r ≠ r₀) : t.srv.stage r = s.srv.stage r := by
    rw [hst, Function.update_of_ne hr]
  refine ⟨fun r i hu => ?_, fun r idx gen => ?_, fun r i hu r' hr' => ?_⟩
  · by_cases hr : r = r₀
    · subst hr
      obtain ⟨hus, hm⟩ := hself i hu
      rw [hm, (hident _ _).1, hstory i hus]
      exact (h.fed r i hus).turn _
    · rw [hne r hr] at hu ⊢
      rw [hother r hr i hu]
      exact h.fed r i hu
  · rw [sentBy_tick]
    by_cases hr : r = r₀
    · rw [hr, hinQ]
      exact List.nil_sublist _
    · rw [hne r hr]
      exact h.queued r idx gen
  · have hr'' := hserves r r' hr'
    rw [sentBy_tick]
    by_cases hr : r = r₀
    · subst hr
      obtain ⟨hus, hm⟩ := hself i hu
      obtain rfl | ⟨g', k', htransfer⟩ := hr''
      swap
      · exact absurd rfl (hstill g' k' r r' htransfer).1
      rw [hm, (hident _ _).1, (hident _ _).2, hstory i hus, arrived_append, Member.arrived_turn,
        hinQ, Member.own, List.filter_nil, List.append_nil]
      have hown := h.order r' i hus r' (Or.inl rfl)
      exact ((List.Sublist.refl _).append (mail_sublist _ i)).trans hown
    · have hr₁ : r' ≠ r₀ := by
        rcases hr'' with rfl | ⟨g', k', htransfer⟩
        · exact hr
        · exact (hstill g' k' r r' htransfer).2
      rw [hne r hr] at hu ⊢
      rw [hother r hr i hu, hne r' hr₁]
      exact h.order r i hu r' hr''

theorem step (h : InputsOk es s) (hs : Consistent s.ledger) {a : Act}
    (ht : System.step a s = some t) : InputsOk (es ++ s.inputEvents a) t := by
  have hstage := System.stage_step ht
  cases hcue : s.cue a with
  | none =>
    have hserves (r r' : Nat) : t.Serves r r' → s.Serves r r' :=
      System.serves_step ht (by simp [hcue])
    rw [hcue] at hstage
    simp only [System.inputEvents, hcue, List.append_nil]
    exact h.of_same hstage hserves
  | some c =>
    have hcued := System.cued_of_cue hcue
    rw [hcue] at hstage
    simp only [System.inputEvents, hcue]
    cases hcued with
    | send w idx r c hw => exact h.step_send hstage fun _ _ => System.serves_step ht (by simp [hcue])
    | seat g k r e js ls hg hlive =>
      exact h.step_seat hs hg hstage fun _ _ => System.serves_step ht (by simp [hcue])
    | unseat g k r i e ls hg hi =>
      rw [List.append_nil]
      exact h.step_unseat hstage fun _ _ => System.serves_step ht (by simp [hcue])
    | clearNew w idx r hlock hr =>
      rw [List.append_nil]
      exact h.step_clear hstage fun _ _ => System.serves_clear ht hcue
    | clearNext g k old r hg hr =>
      rw [List.append_nil]
      exact h.step_clear hstage fun _ _ => System.serves_clear ht hcue
    | tick g k r hr =>
      refine h.step_tick hs ?_ hr hstage fun _ _ => System.serves_step ht (by simp [hcue])
      simp only [System.step] at ht
      split at ht
      · assumption
      · cases ht
    | move g k old nr i rest moved joins leaves hlock =>
      rw [List.append_nil]
      exact h.step_move hs hlock hstage fun _ _ => System.serves_step ht (by simp [hcue])
    | resume g k old nr moved joins leaves hlock =>
      rw [List.append_nil]
      exact h.step_resume hstage fun _ _ => System.serves_step ht (by simp [hcue])

theorem init (sessionCapacity roomCapacity workerCount : Nat) :
    InputsOk [] (System.init sessionCapacity roomCapacity workerCount) where
  fed r i hu := by cases hu
  queued r idx gen := List.Sublist.refl _
  order r i hu := by cases hu

theorem run {sessionCapacity roomCapacity workerCount : Nat}
    (h : Traced System.step System.inputEvents
      (System.init sessionCapacity roomCapacity workerCount) es s) : InputsOk es s :=
  h.invariant (init ..) fun _ _ _ _ hs hok ht => hok.step (System.consistent hs) ht

end InputsOk

/-! ### The queue of every member -/

/-- The run up to here as the history of one member's queue. -/
structure QueueHistory (es : List InputEvent) (m : Member) : Prop where
  /-- What happened to the ring is what a queue of depth 8 does. -/
  replay : replay kInputRingDepth [] (story m.sessIdx es) = some m.queue
  /-- The arrivals are the inputs that left, in order, and then the ring. -/
  split : arrived (story m.sessIdx es) = (left (story m.sessIdx es)).map Prod.fst ++ m.queue
  newest : m.queue <:+ arrived (story m.sessIdx es)
  bounded : m.queue.length ≤ kInputRingDepth
  head : m.ringHead < kInputRingDepth
  sent : (arrived (story m.sessIdx es)).Sublist (sentBy m.sessIdx m.sessGen es)
  last : m.lastInputSeq = ((taken (story m.sessIdx es)).getLast?.map (·.seq)).getD 0

/-- One tick of one member: the inputs of the room's queue that name it arrive, then the
oldest one is consumed, if any. -/
structure Served (es : List InputEvent) (a : Act) (s : System) (R : Room) (i : Seat) (m' : Member) :
    Prop where
  story : story (R.members i).sessIdx (es ++ s.inputEvents a) =
    story (R.members i).sessIdx es ++ (R.members i).turn (R.mail i)
  arrived : arrived ((R.members i).turn (R.mail i)) =
    R.inQ.filter fun c => c.actorId = i.val ∧ (R.members i).sessIdx = c.sessIdx ∧
      (R.members i).sessGen = c.sessGen
  taken : taken ((R.members i).turn (R.mail i)) = ((R.members i).pushAll (R.mail i)).queue.head?.toList
  rest : m'.queue = ((R.members i).pushAll (R.mail i)).queue.tail
  held : ∀ c, ((R.members i).pushAll (R.mail i)).queue.head? = some c →
    m'.held = c ∧ m'.lastInputSeq = c.seq

section Served
variable {es : List InputEvent} {s t : System}

theorem QueueHistory.of_fed {m : Member} (h : Fed (story m.sessIdx es) m)
    (hsent : (arrived (story m.sessIdx es)).Sublist (sentBy m.sessIdx m.sessGen es)) :
    QueueHistory es m where
  replay := h.replay
  split := replay_conserves (by decide) h.replay
  newest := replay_suffix (by decide) h.replay
  bounded := replay_length (by decide) h.replay (Nat.zero_le _)
  head := h.ring.head
  sent := hsent
  last := h.last

theorem InputsOk.history (h : InputsOk es s) {r : Nat} {i : Seat}
    (hu : ((s.srv.rooms r).members i).used = true) :
    QueueHistory es ((s.srv.rooms r).members i) :=
  .of_fed (h.fed r i hu)
    ((List.sublist_append_left _ _).trans (h.order r i hu r (Or.inl rfl)))

theorem taken_turn (m : Member) (cs : List InputCmd) :
    taken (m.turn cs) = (m.pushAll cs).queue.head?.toList := by
  rw [Member.turn, taken_append, Member.taken_pushEvents, List.nil_append, Member.served_eq]
  cases (m.pushAll cs).queue <;> rfl

theorem System.room_of_tick {g k r : Nat} (hr : (s.srv.myRooms g)[k]? = some r)
    (ht : System.step (.tick g k) s = some t) : t.srv.rooms r = (s.srv.rooms r).step := by
  obtain ⟨r', -, hr', htick⟩ := System.tick_of_step ht
  obtain rfl : r' = r := by
    rw [hr] at hr'
    exact (Option.some.inj hr').symm
  rw [htick, Server.tickBody_rooms]
  exact Function.update_self ..

theorem member_of_tick {g k r : Nat} {i : Seat} (hr : (s.srv.myRooms g)[k]? = some r)
    (hu : ((s.srv.rooms r).members i).used = true) (ht : System.step (.tick g k) s = some t) :
    (t.srv.rooms r).members i =
      (((s.srv.rooms r).members i).pushAll ((s.srv.rooms r).mail i)).consume.1 := by
  rw [System.room_of_tick hr ht, Room.step_members, hu, if_pos rfl]

theorem served_of_tick (es : List InputEvent) (hs : Consistent s.ledger) {g k r : Nat} {i : Seat}
    (hr : (s.srv.myRooms g)[k]? = some r) (hu : ((s.srv.rooms r).members i).used = true)
    (ht : System.step (.tick g k) s = some t) :
    Served es (.tick g k) s (s.srv.rooms r) i ((t.srv.rooms r).members i) := by
  have hevents : s.inputEvents (.tick g k) = (s.srv.rooms r).tickEvents := by
    simp [System.inputEvents, System.cue, hr]
  have hmember := member_of_tick hr hu ht
  refine ⟨?_, ?_, taken_turn _ _, ?_, ?_⟩
  · rw [hevents]
    exact story_tick hu fun j hj hsess => (System.used_unique hs hu hj hsess).2
  · rw [Member.arrived_turn]
    apply List.filter_congr
    intro c _
    simp [Room.sentTo, hu, Bool.beq_eq_decide_eq, Bool.and_assoc]
  · rw [hmember, Member.consume_queue]
  · intro c hc
    rw [hmember]
    generalize ((s.srv.rooms r).members i).pushAll ((s.srv.rooms r).mail i) = m at hc
    have hpos : 0 < m.ringCount := by
      rw [← m.queue_length]
      cases hq : m.queue with
      | nil =>
        rw [hq] at hc
        cases hc
      | cons c' q => simp
    rw [Member.queue_head hpos] at hc
    cases hc
    simp [Member.consume, hpos]

/-- Drops and nothing else advance the counter of drops. -/
theorem drops_run {sessionCapacity roomCapacity workerCount : Nat}
    (h : Traced System.step System.inputEvents
      (System.init sessionCapacity roomCapacity workerCount) es s) :
    s.srv.metrics.inputRingDrops = dropCount es := by
  refine h.invariant (P := fun es s => s.srv.metrics.inputRingDrops = dropCount es) rfl ?_
  intro es s a t _ hok ht
  rw [dropCount_append, ← hok]
  by_cases ha : ∃ g k, a = .tick g k
  · obtain ⟨g, k, rfl⟩ := ha
    obtain ⟨r, -, hr, htick⟩ := System.tick_of_step ht
    have hevents : s.inputEvents (.tick g k) = (s.srv.rooms r).tickEvents := by
      simp [System.inputEvents, System.cue, hr]
    rw [hevents, Room.tickEvents_drops, htick, Server.tickBody_drops]
  · have hsection := System.section_of_step (fun g k hk => ha ⟨g, k, hk⟩) ht
    have hsame : t.srv.metrics.inputRingDrops = s.srv.metrics.inputRingDrops :=
      congrArg Prod.fst hsection.reports
    have hnone : dropCount (s.inputEvents a) = 0 := by
      unfold System.inputEvents
      split
      · rfl
      · rfl
      · rename_i r hcue
        cases System.cued_of_cue hcue with
        | tick g k r hr => exact absurd ⟨g, k, rfl⟩ ha
      · rfl
    rw [hsame, hnone, Nat.add_zero]

end Served

def Increasing (cs : List InputCmd) : Prop := cs.Pairwise fun c c' => c.seq < c'.seq

instance (cs : List InputCmd) : Decidable (Increasing cs) :=
  inferInstanceAs (Decidable (cs.Pairwise fun c c' => c.seq < c'.seq))

/-- Without a new seating the story goes on. -/
theorem story_extends {idx : Nat} (es es' : List InputEvent)
    (hseat : ∀ e, InputEvent.seated e ∈ es' → e.sessIdx ≠ idx) :
    ∃ more, story idx (es ++ es') = story idx es ++ more := by
  rw [story_append]
  generalize story idx es = evs
  induction es' generalizing evs with
  | nil => exact ⟨[], (List.append_nil _).symm⟩
  | cons e es' ih =>
    have hrest := ih fun e' he' => hseat e' (List.mem_cons_of_mem _ he')
    have hone : ∃ one, noted idx evs e = evs ++ one := by
      cases e with
      | sent c => exact ⟨[], (List.append_nil _).symm⟩
      | seated e => exact ⟨[], (if_neg (hseat e (List.mem_cons_self ..))).trans (List.append_nil _).symm⟩
      | queue sess e =>
        by_cases hs : sess = idx
        · exact ⟨[e], if_pos hs⟩
        · exact ⟨[], (if_neg hs).trans (List.append_nil _).symm⟩
    obtain ⟨one, hone⟩ := hone
    obtain ⟨more, hmore⟩ := hrest (noted idx evs e)
    refine ⟨one ++ more, ?_⟩
    rw [List.foldl_cons, hmore, hone, List.append_assoc]

theorem last_le_of_increasing {cs cs' : List InputCmd} (h : Increasing (cs ++ cs')) :
    (cs.getLast?.map (·.seq)).getD 0 ≤ ((cs ++ cs').getLast?.map (·.seq)).getD 0 := by
  cases hlast : cs'.getLast? with
  | none =>
    rw [List.getLast?_eq_none_iff.mp hlast, List.append_nil]
    exact UInt32.le_refl _
  | some c' =>
    rw [List.getLast?_append, hlast]
    cases hfirst : cs.getLast? with
    | none => exact UInt32.zero_le
    | some c =>
      obtain ⟨-, -, hlt⟩ := List.pairwise_append.mp h
      exact UInt32.le_of_lt (hlt c (List.mem_of_getLast? hfirst) c' (List.mem_of_getLast? hlast))

theorem QueueHistory.increasing {es : List InputEvent} {m : Member} (h : QueueHistory es m)
    (hinc : Increasing (sentBy m.sessIdx m.sessGen es)) :
    Increasing (taken (story m.sessIdx es)) :=
  hinc.sublist ((taken_sublist (by decide) h.replay).trans h.sent)

/-- The ring of every member, from its seating on and through every transfer, is a queue of
depth 8 that drops its oldest input. -/
theorem input_queue {sessionCapacity roomCapacity workerCount : Nat} {es : List InputEvent}
    {s : System} (h : Traced System.step System.inputEvents
      (System.init sessionCapacity roomCapacity workerCount) es s) :
    (∀ r i, ((s.srv.rooms r).members i).used = true → QueueHistory es ((s.srv.rooms r).members i)) ∧
    s.srv.metrics.inputRingDrops = dropCount es ∧
    (∀ g k r i t, (s.srv.myRooms g)[k]? = some r → ((s.srv.rooms r).members i).used = true →
      System.step (.tick g k) s = some t →
      Served es (.tick g k) s (s.srv.rooms r) i ((t.srv.rooms r).members i)) ∧
    ∀ r i r' i' es' t, Traced System.step System.inputEvents s es' t →
      ((s.srv.rooms r).members i).used = true → ((t.srv.rooms r').members i').used = true →
      ((t.srv.rooms r').members i').sessIdx = ((s.srv.rooms r).members i).sessIdx →
      (∀ e, InputEvent.seated e ∈ es' → e.sessIdx ≠ ((s.srv.rooms r).members i).sessIdx) →
      Increasing (sentBy ((t.srv.rooms r').members i').sessIdx
        ((t.srv.rooms r').members i').sessGen (es ++ es')) →
      Increasing (taken (story ((t.srv.rooms r').members i').sessIdx (es ++ es'))) ∧
        ((s.srv.rooms r).members i).lastInputSeq ≤ ((t.srv.rooms r').members i').lastInputSeq := by
  have hs := System.consistent h.reach
  have hok := InputsOk.run h
  refine ⟨fun r i hu => hok.history hu, drops_run h, ?_, ?_⟩
  · intro g k r i t hr hu ht
    exact served_of_tick es hs hr hu ht
  · intro r i r' i' es' t hrun hu hu' hsess hseat hinc
    have hhist := hok.history hu
    have hhist' := (InputsOk.run (h.trans hrun)).history hu'
    have htaken := hhist'.increasing hinc
    refine ⟨htaken, ?_⟩
    obtain ⟨more, hmore⟩ := story_extends es es' hseat
    rw [hhist.last, hhist'.last]
    rw [hsess, hmore, taken_append] at htaken ⊢
    exact last_le_of_increasing htaken

/-- One player is seated and has sent an input. -/
def playing : List Act :=
  [.accept 0 5 true true true, .frame 0 0 [6, 0, 10, 0, 1, 0] 0, .net 0, .lock, .lock, .lock, .lock,
    .lock, .net 0, .drain 0, .process 0 0, .game 0, .game 0, .game 0,
    .frame 0 0 [12, 0, 11, 0, 7, 0, 0, 0, 1, 0, 0, 0] 0, .net 0]

theorem input_queue_playing : ∃ es s es' t,
    record System.step System.inputEvents playing (System.init 1 1 1) = some (es, s) ∧
    record System.step System.inputEvents [.tick 0 0] s = some (es', t) ∧
    QueueHistory es ((s.srv.rooms 0).members firstSeat) ∧
    Served es (.tick 0 0) s (s.srv.rooms 0) firstSeat ((t.srv.rooms 0).members firstSeat) ∧
    ((t.srv.rooms 0).members firstSeat).lastInputSeq = 7 ∧
    ((s.srv.rooms 0).members firstSeat).lastInputSeq ≤
      ((t.srv.rooms 0).members firstSeat).lastInputSeq := by
  have hrun : ((record System.step System.inputEvents playing (System.init 1 1 1)).bind fun p =>
      (record System.step System.inputEvents [.tick 0 0] p.2).map fun q =>
        let m := (p.2.srv.rooms 0).members firstSeat
        let m' := (q.2.srv.rooms 0).members firstSeat
        ((p.2.srv.myRooms 0, m.used, m.sessIdx), m'.used, m'.sessIdx, m'.sessGen,
          m'.lastInputSeq)) = some (([0], true, 0), true, 0, 0, 7) := by decide +kernel
  have hevents : ((record System.step System.inputEvents playing (System.init 1 1 1)).bind fun p =>
      (record System.step System.inputEvents [.tick 0 0] p.2).map fun q => (p.1, q.1)) =
      some ([.seated ⟨0, 0, firstSeat⟩, .sent ⟨0, 0, 0, 7, 1, 0, 0, 0⟩],
        [.queue 0 (.arrive ⟨0, 0, 0, 7, 1, 0, 0, 0⟩ none),
          .queue 0 (.serve (some ⟨0, 0, 0, 7, 1, 0, 0, 0⟩))]) := by decide +kernel
  obtain ⟨⟨es, s⟩, hs, hrest⟩ := Option.bind_eq_some_iff.mp hrun
  obtain ⟨⟨es', t⟩, ht, heq⟩ := Option.map_eq_some_iff.mp hrest
  simp only [Prod.mk.injEq] at heq
  obtain ⟨⟨hmine, hu, hidx⟩, hu', hidx', hgen', hseq⟩ := heq
  simp only [hs, Option.bind_some, ht, Option.map_some, Option.some.injEq, Prod.mk.injEq] at hevents
  obtain ⟨hes, hes'⟩ := hevents
  obtain ⟨hhist, -, hserved, hseqs⟩ := input_queue (traced_of_record hs)
  have hstep : System.step (.tick 0 0) s = some t := by
    obtain ⟨u, hu, hrec⟩ := Option.bind_eq_some_iff.mp ht
    obtain ⟨p, hp, hpt⟩ := Option.map_eq_some_iff.mp hrec
    cases hp
    cases hpt
    exact hu
  refine ⟨es, s, es', t, hs, ht, hhist 0 firstSeat hu,
    hserved 0 0 0 firstSeat t (by simp [hmine]) hu hstep, hseq, ?_⟩
  refine (hseqs 0 firstSeat 0 firstSeat es' t (traced_of_record ht) hu hu' (hidx'.trans hidx.symm)
    ?_ ?_).2
  · intro e he
    simp [hes'] at he
  · rw [hidx', hgen', hes, hes']
    decide

end BeltServer
