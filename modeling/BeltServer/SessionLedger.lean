import BeltServer.SeatLedger

/-!
# The session ledger

Between operations, a session's counter is the number of those who refer to it: its owner,
the pending entries and the used members that name it. A slot is in the free list exactly
when the counter is zero, and each stay outside the list ends one generation.
-/

namespace BeltServer

set_option autoImplicit false

open Runs

namespace Server

def ownerRefs (st : Server) (idx : Nat) : Nat :=
  if idx ∈ st.mySessions (st.sess idx).owner then 1 else 0

def queuedRefs (st : Server) (idx : Nat) : Nat :=
  ∑ r ∈ Finset.range st.cap,
    (st.rooms r).pendingJoin.countP fun e => e.sessIdx = idx ∧ e.sessGen = (st.sess idx).gen

def seatedRefs (st : Server) (idx : Nat) : Nat :=
  ∑ r ∈ Finset.range st.cap, (List.finRange 4).countP fun i =>
    ((st.rooms r).members i).used ∧ ((st.rooms r).members i).sessIdx = idx ∧
      ((st.rooms r).members i).sessGen = (st.sess idx).gen

end Server

/-- What an operation does to a session slot. A slot leaves the free list when it is
allocated and comes back once, with the end of its generation. -/
inductive SlotFate (st st' : Server) (idx : Nat) : Prop where
  | kept (hfree : idx ∈ st'.pool.free ↔ idx ∈ st.pool.free)
      (hgen : (st'.sess idx).gen = (st.sess idx).gen)
  | allocated (hold : idx ∈ st.pool.free) (hnew : idx ∉ st'.pool.free)
      (hgen : (st'.sess idx).gen = (st.sess idx).gen)
  | recycled (hold : idx ∉ st.pool.free) (hnew : idx ∈ st'.pool.free)
      (hgen : (st'.sess idx).gen = (st.sess idx).gen + 1)
  | refused (hold : idx ∈ st.pool.free) (hnew : idx ∈ st'.pool.free)
      (hgen : (st'.sess idx).gen = (st.sess idx).gen + 1)

/-! ### Generations -/

/-- Nothing is allocated, and what is freed has ended its generation. -/
structure Recycling (L L' : Ledger) : Prop where
  free : ∀ idx, idx ∈ L.freeSess → idx ∈ L'.freeSess ∧ (L'.sess idx).gen = (L.sess idx).gen
  used : ∀ idx, idx ∉ L.freeSess →
    (L'.sess idx).gen = if idx ∈ L'.freeSess then (L.sess idx).gen + 1 else (L.sess idx).gen

namespace Recycling

variable {L L' L'' : Ledger}

theorem refl (L : Ledger) : Recycling L L where
  free _ hidx := ⟨hidx, rfl⟩
  used _ hidx := (if_neg hidx).symm

theorem trans (h : Recycling L L') (h' : Recycling L' L'') : Recycling L L'' where
  free idx hidx := by
    obtain ⟨hfree, hgen⟩ := h.free idx hidx
    obtain ⟨hfree', hgen'⟩ := h'.free idx hfree
    exact ⟨hfree', hgen'.trans hgen⟩
  used idx hidx := by
    have hgen := h.used idx hidx
    by_cases hfree : idx ∈ L'.freeSess
    · obtain ⟨hfree', hgen'⟩ := h'.free idx hfree
      rw [if_pos hfree', hgen', hgen, if_pos hfree]
    · rw [if_neg hfree] at hgen
      rw [h'.used idx hfree, hgen]

theorem of_same (hfree : L'.freeSess = L.freeSess)
    (hgen : ∀ idx, (L'.sess idx).gen = (L.sess idx).gen) : Recycling L L' where
  free idx hidx := ⟨hfree ▸ hidx, hgen idx⟩
  used idx hidx := by rw [if_neg (hfree ▸ hidx), hgen]

theorem of_sess {idx : Nat} {S : SessBook} (hfree : L'.freeSess = L.freeSess)
    (hsess : L'.sess = Function.update L.sess idx S) (hS : S.gen = (L.sess idx).gen) :
    Recycling L L' := by
  refine of_same hfree fun j => ?_
  rw [hsess]
  by_cases hj : j = idx
  · rw [hj, Function.update_self, hS]
  · rw [Function.update_of_ne hj]

theorem of_release (h : Refs L) {idx : Nat}
    (hfree : L'.freeSess = if (L.sess idx).refs = 1 then L.freeSess ++ [idx] else L.freeSess)
    (hsess : L'.sess = Function.update L.sess idx (L.sess idx).released) : Recycling L L' := by
  by_cases hlast : (L.sess idx).refs = 1
  · rw [if_pos hlast] at hfree
    have hnot : idx ∉ L.freeSess := fun hfree => by
      obtain ⟨-, hzero⟩ := h.mem_free.mp hfree
      omega
    refine ⟨fun j hj => ?_, fun j hj => ?_⟩
    · have hne : j ≠ idx := fun heq => hnot (heq ▸ hj)
      rw [hfree, hsess, Function.update_of_ne hne]
      exact ⟨List.mem_append_left _ hj, rfl⟩
    · by_cases hne : j = idx
      · subst hne
        rw [hsess, Function.update_self, if_pos (by simp [hfree]), SessBook.released, if_pos hlast]
      · rw [hsess, Function.update_of_ne hne, if_neg (by simp [hfree, hj, hne])]
  · rw [if_neg hlast] at hfree
    refine of_sess hfree hsess ?_
    rw [SessBook.released, if_neg hlast]

theorem of_step (h : Refs L) {a : Actor} (ha : ∀ w, a ≠ .accept w) (ht : L.Trans a L') :
    Recycling L L' := by
  cases ht with
  | accept w | refuse w => exact absurd rfl (ha w)
  | cut | leaveRead | push | store => exact of_sess rfl rfl rfl
  | netRelease w idx | skipRelease _ _ _ idx | dropRelease _ _ _ idx => exact of_release h rfl rfl
  | moveSeat | carry => exact of_sess rfl rfl (SessBook.moved_gen ..)
  | _ => exact of_same rfl fun _ => rfl

theorem of_leads {s t : System} (hs : Consistent s.ledger) (h : System.Leads s t) :
    Recycling s.ledger t.ledger := by
  have hboth := h.invariant (P := fun t => Consistent t.ledger ∧ Recycling s.ledger t.ledger)
    ⟨hs, refl _⟩ ?_
  · exact hboth.2
  · rintro u a t - ⟨hu, hsu⟩ hquiet ht
    rcases System.trans_of_step ht with hsame | htrans
    · exact ⟨hsame ▸ hu, hsame ▸ hsu⟩
    · refine ⟨hu.step htrans, hsu.trans (of_step hu.refs (fun w hw => ?_) htrans)⟩
      cases a with
      | accept => exact hquiet
      | _ => cases hw

end Recycling

/-- An accept takes the last slot of the free list, or takes it and gives it back. -/
theorem accept_slot {L L' : Ledger} (h : Refs L) {w : Nat} (ht : L.Trans (.accept w) L') (idx : Nat) :
    ((idx ∈ L'.freeSess ↔ idx ∈ L.freeSess) ∧ (L'.sess idx).gen = (L.sess idx).gen) ∨
    (idx ∈ L.freeSess ∧ idx ∉ L'.freeSess ∧ (L'.sess idx).gen = (L.sess idx).gen) ∨
    (idx ∈ L.freeSess ∧ idx ∈ L'.freeSess ∧ (L'.sess idx).gen = (L.sess idx).gen + 1) := by
  cases ht with
  | accept w last hw hlast =>
    by_cases hidx : idx = last
    · subst hidx
      have hfree := h.free idx
      have hcount := SwapList.count_dropLast hlast idx
      have hle : L.freeSess.count idx ≤ 1 := by
        rw [hfree]
        split <;> omega
      rw [if_pos rfl] at hcount
      have hgone : L.freeSess.dropLast.count idx = 0 := by omega
      have hself : Function.update L.sess idx ((L.sess idx).opened w) idx = (L.sess idx).opened w :=
        Function.update_self ..
      exact Or.inr (Or.inl ⟨List.mem_of_getLast? hlast, List.count_eq_zero.mp hgone,
        (congrArg SessBook.gen hself).trans rfl⟩)
    · refine Or.inl ⟨⟨List.mem_of_mem_dropLast, fun hmem => ?_⟩, ?_⟩
      · by_contra hnot
        exact not_mem_of_dropLast hlast hidx hnot hmem
      · exact congrArg SessBook.gen (Function.update_of_ne hidx ..)
  | refuse w last hlast =>
    by_cases hidx : idx = last
    · subst hidx
      have hmem := List.mem_of_getLast? hlast
      have hself : Function.update L.sess idx ((L.sess idx).refused w) idx = (L.sess idx).refused w :=
        Function.update_self ..
      exact Or.inr (Or.inr ⟨hmem, hmem, congrArg SessBook.gen hself⟩)
    · exact Or.inl ⟨Iff.rfl, congrArg SessBook.gen (Function.update_of_ne hidx ..)⟩

namespace Serial

variable {s t : Serial}

theorem slotFate_of_recycling (h : Recycling s.system.ledger t.system.ledger) (idx : Nat) :
    SlotFate s.srv t.srv idx := by
  by_cases hold : idx ∈ s.srv.pool.free
  · obtain ⟨hnew, hgen⟩ := h.free idx hold
    exact .kept ⟨fun _ => hold, fun _ => hnew⟩ hgen
  · have hgen := h.used idx hold
    by_cases hnew : idx ∈ t.srv.pool.free
    · exact .recycled hold hnew (hgen.trans (if_pos hnew))
    · exact .kept ⟨fun hin => absurd hin hnew, fun hin => absurd hin hold⟩ (hgen.trans (if_neg hnew))

theorem slotFate (hs : Consistent s.system.ledger)
    (hleads : ∀ t, System.Leads s.system t → Consistent t.ledger) {a : Op} (ht : step a s = some t)
    (idx : Nat) : SlotFate s.srv t.srv idx := by
  by_cases hquiet : Quiet a s
  · exact slotFate_of_recycling (.of_leads hs (leads_step hleads hquiet ht)) idx
  · cases a with
    | accept w fd recvOk sendOk ctlOk =>
      rcases System.trans_of_step (step_accept ht) with hsame | htrans
      · exact slotFate_of_recycling (hsame ▸ .refl _) idx
      · rcases accept_slot hs.refs htrans idx with ⟨hfree, hgen⟩ | ⟨hold, hnew, hgen⟩ |
          ⟨hold, hnew, hgen⟩
        · exact .kept hfree hgen
        · exact .allocated hold hnew hgen
        · exact .refused hold hnew hgen
    | _ => exact absurd trivial hquiet

/-! ### Counting references -/

/-- The holders of the seats of one room that belong to the session. -/
theorem count_roomClaims (h : Refs s.system.ledger) (r idx : Nat) :
    (s.system.ledger.roomClaims r).count idx =
      ((s.srv.rooms r).pendingJoin.countP fun e =>
        e.sessIdx = idx ∧ e.sessGen = (s.srv.sess idx).gen) +
      (List.finRange 4).countP fun i =>
        ((s.srv.rooms r).members i).used ∧ ((s.srv.rooms r).members i).sessIdx = idx ∧
          ((s.srv.rooms r).members i).sessGen = (s.srv.sess idx).gen := by
  have howed : s.system.ledger.owed r = 0 := rfl
  have hnamed : ∀ e ∈ s.system.ledger.tokens r,
      (idx = e.sessIdx ↔ e.sessIdx = idx ∧ e.sessGen = (s.srv.sess idx).gen) := by
    intro e he
    constructor
    · rintro rfl
      exact ⟨rfl, ((h.holder r e he).gen).symm⟩
    · exact fun hh => hh.1.symm
  have hcount : (s.system.ledger.roomClaims r).count idx =
      (s.system.ledger.tokens r).countP fun e =>
        e.sessIdx = idx ∧ e.sessGen = (s.srv.sess idx).gen := by
    rw [Ledger.roomClaims, howed, add_zero, Multiset.count_map, ← Multiset.countP_eq_card_filter]
    exact Multiset.countP_congr rfl fun e he => propext (hnamed e he)
  rw [hcount, tokens_system, Multiset.countP_add, Multiset.coe_countP, add_comm,
    RoomBook.members, Tally.countP_ofTable, Tally.countP_finRange]
  congr 1
  refine Finset.sum_congr rfl fun i _ => ?_
  cases hused : ((s.srv.rooms r).members i).used <;> simp [Room.book, hused, Bool.toNat]

theorem count_claims (h : Refs s.system.ledger) (idx : Nat) :
    s.system.ledger.claims.count idx = s.srv.queuedRefs idx + s.srv.seatedRefs idx := by
  have hflight : s.system.ledger.lock.flight.map (·.sessIdx) = 0 := rfl
  rw [Ledger.claims, hflight, add_zero, Multiset.count_sum', Server.queuedRefs, Server.seatedRefs,
    ← Finset.sum_add_distrib]
  exact Finset.sum_congr rfl fun r _ => count_roomClaims h r idx

/-- The generation of the entry that is processed next. -/
theorem entry_gen {sessionCapacity roomCapacity workerCount : Nat}
    (h : Reach step Any (init sessionCapacity roomCapacity workerCount) s) {g k r : Nat}
    (hr : (s.srv.myRooms g)[k]? = some r) {js rest : List RoomJoinEntry} {e : RoomJoinEntry}
    (hjs : (s.srv.rooms r).pendingJoin = js ++ e :: rest) :
    ((js.foldl (Server.processJoin r) (s.srv.takeQueues r)).sess e.sessIdx).gen = e.sessGen := by
  have hc := consistent_entry h hr hjs
  let L := (({ s.system with
    srv := js.foldl (Server.processJoin r) (s.srv.takeQueues r) }.setGame g
      (.joins k r (e :: rest) (s.srv.rooms r).pendingLeave))).ledger
  have hg : L.game g = .joins k r (e :: rest) (s.srv.rooms r).pendingLeave := Function.update_self ..
  have hown := hc.places.owner_of_place (g := g) (i := k) (r := r) (by rw [hg]; rfl)
  refine (hc.refs.holder r e (Multiset.mem_add.mpr (Or.inr ?_))).gen
  rw [Ledger.hand, hown, hg]
  simp [GamePc.handAt]

end Serial

/-- The session ledger of every reachable state. -/
theorem session_ledger {sessionCapacity roomCapacity workerCount : Nat} {s : Serial}
    (h : Reach Serial.step Any (Serial.init sessionCapacity roomCapacity workerCount) s) :
    (∀ idx, (s.srv.sess idx).refs =
      ((s.srv.ownerRefs idx + s.srv.queuedRefs idx + s.srv.seatedRefs idx : Nat) : Int)) ∧
    (∀ idx, s.srv.pool.free.count idx =
      if idx < s.srv.pool.cap ∧ (s.srv.sess idx).refs = 0 then 1 else 0) ∧
    (∀ idx gen r i, s.srv.HoldsSeat idx gen r i →
      gen = (s.srv.sess idx).gen ∧ idx ∉ s.srv.pool.free) ∧
    (∀ a t, Serial.step a s = some t → ∀ idx, SlotFate s.srv t.srv idx) ∧
    ∀ (g k r : Nat) js e rest, (s.srv.myRooms g)[k]? = some r →
      (s.srv.rooms r).pendingJoin = js ++ e :: rest →
      ((js.foldl (Server.processJoin r) (s.srv.takeQueues r)).sess e.sessIdx).gen = e.sessGen := by
  have hs := Serial.consistent h
  refine ⟨fun idx => ?_, hs.refs.free, ?_, ?_, ?_⟩
  · have hrefs := hs.refs.refs idx
    rw [Serial.count_claims hs.refs, ← Nat.add_assoc] at hrefs
    exact hrefs
  · intro idx gen r i hold
    have htoken := Serial.mem_tokens.mpr hold
    have hholder := hs.refs.holder r _ htoken
    refine ⟨hholder.gen.symm, fun hfree => ?_⟩
    have hpos : 0 < s.system.ledger.claims.count idx :=
      Ledger.count_pos_of_token hholder.room htoken
    have hzero := (hs.refs.mem_free.mp hfree).2
    have hrefs := hs.refs.refs idx
    omega
  · intro a t ht idx
    exact Serial.slotFate hs (fun u hu => System.consistent ((Serial.reach_system h).trans hu.any)) ht
      idx
  · intro g k r js e rest hr hjs
    exact Serial.entry_gen h hr hjs

theorem session_ledger_joinedOnce :
    ∃ s, run Serial.step joinedOnce (Serial.init 2 2 1) = some s ∧
      (s.srv.sess 0).refs =
        ((s.srv.ownerRefs 0 + s.srv.queuedRefs 0 + s.srv.seatedRefs 0 : Nat) : Int) ∧
      s.srv.pool.free.count 0 = (if 0 < s.srv.pool.cap ∧ (s.srv.sess 0).refs = 0 then 1 else 0) ∧
      (0 = (s.srv.sess 0).gen ∧ 0 ∉ s.srv.pool.free) ∧
      ((s.srv.takeQueues 0).sess 0).gen = 0 := by
  have hrun : (run Serial.step joinedOnce (Serial.init 2 2 1)).map
      (fun s => (s.srv.myRooms 0, (s.srv.rooms 0).pendingJoin)) =
      some ([0], [⟨0, 0, firstSeat⟩]) := by decide +kernel
  obtain ⟨s, hs, heq⟩ := Option.map_eq_some_iff.mp hrun
  simp only [Prod.mk.injEq] at heq
  obtain ⟨hmine, hpending⟩ := heq
  obtain ⟨hrefs, hfree, hholder, -, hgen⟩ := session_ledger (reach_of_run hs)
  exact ⟨s, hs, hrefs 0, hfree 0, hholder 0 0 0 firstSeat (Or.inr (by simp [hpending])),
    hgen 0 0 0 [] ⟨0, 0, firstSeat⟩ [] (by simp [hmine]) hpending⟩

end BeltServer
