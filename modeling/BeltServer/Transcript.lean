import BeltServer.Snapshots

/-!
# What a session is told

`sendQ.log` is everything its send ring has accepted since the session was opened. A step of
the machine adds at most one message to it; `System.Says` lists the steps that may, with
what they say and to whom.
-/

namespace BeltServer

set_option autoImplicit false

/-- `sendQ.Enqueue` when a refusal changes nothing. -/
def Session.told (s : Session) (m : Msg) : Session :=
  match s.sendQ.enqueue m with
  | some q => { s with sendQ := q }
  | none => s

namespace Server

def nextSnapshot (st : Server) (r : Nat) : Msg := .snapshot r (st.rooms r).step.snapshot

def moveEvent (nr : Nat) (i : Seat) : Msg :=
  .roomEvent roomMove i.val nr (quantPos (kPlayerSpawn i).1) (quantPos (kPlayerSpawn i).2)

/-- The loops over the seats tell each live member one message. -/
structure Tells (r : Nat) (msg : Seat → Msg) (f : Server → Seat → Server) : Prop where
  rooms : ∀ st i, (f st i).rooms = st.rooms
  live : ∀ st i j, (f st i).live r j = st.live r j
  told : ∀ st i, st.live r i = true → (f st i).sess ((st.rooms r).members i).sessIdx =
    (st.sess ((st.rooms r).members i).sessIdx).told (msg i)
  others : ∀ st i j, (st.live r i = true → ((st.rooms r).members i).sessIdx ≠ j) →
    (f st i).sess j = st.sess j

theorem used_of_live {st : Server} {r : Nat} {i : Seat} (h : st.live r i = true) :
    ((st.rooms r).members i).used = true := by
  simp only [live, Bool.and_eq_true] at h
  exact h.1.1

theorem tells_snapshot (r : Nat) (snap : Snapshot) :
    Tells r (fun _ => .snapshot r snap) fun st i => st.sendSnapshot r snap i where
  rooms st i := sendSnapshot_rooms st r snap i
  live st i j := sendSnapshot_live j
  told st i hlive := by
    rcases sendSnapshot_of_live snap hlive with ⟨q, hq, heq⟩ | ⟨hq, heq⟩
    · rw [heq, Session.told, hq]
      exact sess_modSession_self st _ fun s => { s with sendQ := q }
    · rw [heq, Session.told, hq]
      rfl
  others st i j hj := by
    cases hlive : st.live r i with
    | false => rw [sendSnapshot_of_not_live hlive]
    | true => exact sendSnapshot_sess_of_ne (Ne.symm (hj hlive))

section Announce
variable {st : Server} {nr : Nat} {i : Seat}

theorem announceSeat_of_not_live (h : st.live nr i = false) : st.announceSeat nr i = st := by
  simp only [live, Bool.and_eq_false_iff, Bool.not_eq_false', beq_eq_false_iff_ne] at h
  unfold announceSeat
  dsimp only
  rw [if_pos]
  rcases h with (h | h) | h <;> simp [h]

theorem announceSeat_of_live (h : st.live nr i = true) :
    (∃ q, (st.sess ((st.rooms nr).members i).sessIdx).sendQ.enqueue (moveEvent nr i) = some q ∧
      st.announceSeat nr i =
        (st.modSession ((st.rooms nr).members i).sessIdx fun s => { s with sendQ := q }).mark
          ((st.rooms nr).members i).sessOwner ((st.rooms nr).members i).sessIdx) ∨
    ((st.sess ((st.rooms nr).members i).sessIdx).sendQ.enqueue (moveEvent nr i) = none ∧
      st.announceSeat nr i = st) := by
  simp only [live, Bool.and_eq_true, Bool.not_eq_true', beq_iff_eq] at h
  cases hq : (st.sess ((st.rooms nr).members i).sessIdx).sendQ.enqueue (moveEvent nr i) with
  | none =>
    refine Or.inr ⟨rfl, ?_⟩
    rw [moveEvent] at hq
    simp [announceSeat, h.1.1, h.1.2, h.2, enqueue, hq]
  | some q =>
    refine Or.inl ⟨q, rfl, ?_⟩
    rw [moveEvent] at hq
    simp [announceSeat, h.1.1, h.1.2, h.2, enqueue, hq]

theorem announceSeat_live (j : Seat) : (st.announceSeat nr i).live nr j = st.live nr j := by
  have hrooms := announceSeat_rooms st nr i
  have hbooks := books_announceSeat st nr i
  have hbook (idx : Nat) : ((st.announceSeat nr i).sess idx).book = (st.sess idx).book :=
    congrArg (fun b : Books => b.sess idx) hbooks
  have hgen (idx : Nat) : ((st.announceSeat nr i).sess idx).gen = (st.sess idx).gen :=
    congrArg SessBook.gen (hbook idx)
  have hdead (idx : Nat) : ((st.announceSeat nr i).sess idx).dead = (st.sess idx).dead :=
    congrArg SessBook.dead (hbook idx)
  simp only [live, hrooms, hgen, hdead]

end Announce

theorem tells_announce (nr : Nat) : Tells nr (moveEvent nr) fun st i => st.announceSeat nr i where
  rooms st i := announceSeat_rooms st nr i
  live st i j := announceSeat_live j
  told st i hlive := by
    rcases announceSeat_of_live hlive with ⟨q, hq, heq⟩ | ⟨hq, heq⟩
    · rw [heq, Session.told, hq]
      exact sess_modSession_self st _ fun s => { s with sendQ := q }
    · rw [heq, Session.told, hq]
  others st i j hj := by
    cases hlive : st.live nr i with
    | false => rw [announceSeat_of_not_live hlive]
    | true =>
      rcases announceSeat_of_live hlive with ⟨q, -, heq⟩ | ⟨-, heq⟩ <;> rw [heq]
      have hother := sess_modSession_of_ne st (fun s => { s with sendQ := q }) (hj hlive).symm
      exact hother

/-- The loop tells the live member of a session its message, and nobody else anything. -/
theorem Tells.foldl {r : Nat} {msg : Seat → Msg} {f : Server → Seat → Server} (hf : Tells r msg f)
    {st : Server} {is : List Seat} (hnodup : is.Nodup)
    (hone : ∀ i j, ((st.rooms r).members i).used = true → ((st.rooms r).members j).used = true →
      ((st.rooms r).members i).sessIdx = ((st.rooms r).members j).sessIdx → i = j) (j : Nat) :
    (∃ i ∈ is, st.live r i = true ∧ ((st.rooms r).members i).sessIdx = j ∧
      (is.foldl f st).sess j = (st.sess j).told (msg i)) ∨
    ((∀ i ∈ is, st.live r i = true → ((st.rooms r).members i).sessIdx ≠ j) ∧
      (is.foldl f st).sess j = st.sess j) := by
  induction is generalizing st with
  | nil => exact Or.inr ⟨fun i hi => absurd hi List.not_mem_nil, rfl⟩
  | cons i is ih =>
    obtain ⟨hi, hrest⟩ := List.nodup_cons.mp hnodup
    have hrooms := hf.rooms st i
    have hlive := hf.live st i
    have hstep := @ih (f st i) hrest (by rw [hrooms]; exact hone)
    simp only [hrooms, hlive] at hstep
    rw [List.foldl_cons]
    by_cases hself : st.live r i = true ∧ ((st.rooms r).members i).sessIdx = j
    · obtain ⟨hlivei, rfl⟩ := hself
      refine Or.inl ⟨i, List.mem_cons_self, hlivei, rfl, ?_⟩
      rcases hstep with ⟨k, hk, hlivek, hsess, -⟩ | ⟨-, hsame⟩
      · have hki := hone k i (used_of_live hlivek) (used_of_live hlivei) hsess
        exact absurd (hki ▸ hk) hi
      · rw [hsame, hf.told st i hlivei]
    · have hne : st.live r i = true → ((st.rooms r).members i).sessIdx ≠ j :=
        fun hlivei hsess => hself ⟨hlivei, hsess⟩
      rw [hf.others st i j hne] at hstep
      rcases hstep with ⟨k, hk, hlivek, hsess, htold⟩ | ⟨hnone, hsame⟩
      · exact Or.inl ⟨k, List.mem_cons_of_mem _ hk, hlivek, hsess, htold⟩
      · refine Or.inr ⟨fun k hk => ?_, hsame⟩
        rcases List.mem_cons.mp hk with rfl | hk
        · exact hne
        · exact hnone k hk

section Loops
variable {st : Server} {r : Nat}
  (hone : ∀ i j, ((st.rooms r).members i).used = true → ((st.rooms r).members j).used = true →
    ((st.rooms r).members i).sessIdx = ((st.rooms r).members j).sessIdx → i = j) (j : Nat)
include hone

theorem announce_told :
    (∃ i, st.live r i = true ∧ ((st.rooms r).members i).sessIdx = j ∧
      (st.announce r).sess j = (st.sess j).told (moveEvent r i)) ∨
    ((∀ i, st.live r i = true → ((st.rooms r).members i).sessIdx ≠ j) ∧
      (st.announce r).sess j = st.sess j) := by
  rcases (tells_announce r).foldl (List.nodup_finRange 4) hone j with
    ⟨i, -, hlive, hsess, htold⟩ | ⟨hnone, hsame⟩
  · exact Or.inl ⟨i, hlive, hsess, htold⟩
  · exact Or.inr ⟨fun i => hnone i (List.mem_finRange i), hsame⟩

theorem tickBody_told :
    (snapshotDue (st.rooms r).step = true ∧ ∃ i, st.live r i = true ∧
      ((st.rooms r).members i).sessIdx = j ∧
      (st.tickBody r).sess j = (st.sess j).told (st.nextSnapshot r)) ∨
    ((snapshotDue (st.rooms r).step = true → ∀ i, st.live r i = true →
      ((st.rooms r).members i).sessIdx ≠ j) ∧ (st.tickBody r).sess j = st.sess j) := by
  let st' : Server := { st.modRoom r Room.step with
    metrics := { st.metrics with
      inputRingDrops := st.metrics.inputRingDrops + (st.rooms r).routeInputs.2
      inputNeutralized := st.metrics.inputNeutralized + (st.rooms r).routeInputs.1.neutralized } }
  have hroom : st'.rooms r = (st.rooms r).step := Function.update_self ..
  have hlive : st'.live r = st.live r := live_step st r
  have htick : st.tickBody r = if snapshotDue (st'.rooms r) then
      (List.finRange 4).foldl (fun st i => st.sendSnapshot r (st'.rooms r).snapshot i) st'
      else st' := rfl
  rw [htick]
  split
  · rename_i hdue
    have hidentity := Room.step_identity (st.rooms r)
    have hone' : ∀ i j, ((st'.rooms r).members i).used = true →
        ((st'.rooms r).members j).used = true →
        ((st'.rooms r).members i).sessIdx = ((st'.rooms r).members j).sessIdx → i = j := by
      intro i k hi hk hsess
      rw [hroom] at hi hk hsess
      rw [(hidentity i).1] at hi
      rw [(hidentity k).1] at hk
      rw [(hidentity i).2.1, (hidentity k).2.1] at hsess
      exact hone i k hi hk hsess
    rcases (tells_snapshot r (st'.rooms r).snapshot).foldl (List.nodup_finRange 4) hone' j with
      ⟨i, -, hlivei, hsess, htold⟩ | ⟨hnone, hsame⟩
    · rw [hlive] at hlivei
      rw [hroom, (hidentity i).2.1] at hsess
      refine Or.inl ⟨hroom ▸ hdue, i, hlivei, hsess, ?_⟩
      rw [htold, hroom]
      rfl
    · refine Or.inr ⟨fun _ i hlivei hsess => ?_, hsame⟩
      rw [← hlive] at hlivei
      apply hnone i (List.mem_finRange i) hlivei
      rw [hroom, (hidentity i).2.1, hsess]
  · rename_i hdue
    rw [hroom] at hdue
    exact Or.inr ⟨fun htrue => absurd htrue hdue, rfl⟩

end Loops

end Server

theorem Session.log_told (s : Session) (m : Msg) :
    ((s.told m).sendQ.log = s.sendQ.log ++ [m] ∧ (s.sendQ.enqueue m).isSome = true) ∨
      (s.told m = s ∧ s.sendQ.enqueue m = none) := by
  unfold told
  cases hq : s.sendQ.enqueue m with
  | none => exact Or.inr ⟨rfl, rfl⟩
  | some q => exact Or.inl ⟨SendRing.enqueue_log hq, rfl⟩

namespace System

/-- The next step of an actor may say `m` to session `idx`. -/
inductive Says (s : System) : Act → Nat → Msg → Prop where
  | reply (w idx : Nat) (f : List UInt8) (remainUs : UInt32) (m : Msg) (hw : s.handles w idx = true)
      (hm : s.srv.dispatch idx remainUs (.decode f) = .send m) : Says s (.frame w idx f remainUs) idx m
  | joined (w idx actorId roomId : Nat) (hw : s.net w = .joined idx actorId roomId) :
      Says s (.net w) idx (.joinOk actorId roomId 0)
  | refused (w idx : Nat) (hw : s.net w = .refused idx) : Says s (.net w) idx (.joinFail noCapacity)
  | snapshot (g k r : Nat) (i : Seat) (hg : s.game g = .idle) (hr : (s.srv.myRooms g)[k]? = some r)
      (hlive : s.srv.live r i = true) (hdue : Server.snapshotDue (s.srv.rooms r).step = true) :
      Says s (.tick g k) ((s.srv.rooms r).members i).sessIdx (s.srv.nextSnapshot r)
  | event (g nr : Nat) (i : Seat) (hg : s.game g = .announce nr)
      (hlive : s.srv.live nr i = true) :
      Says s (.game g) ((s.srv.rooms nr).members i).sessIdx (Server.moveEvent nr i)

/-- The log of a session after a step: the message that is said to it is added if the ring has
room for it. -/
def Heard (s t : System) (a : Act) (idx : Nat) : Prop :=
  ((∀ m, s.Says a idx m → s.srv.enqueue idx m = none) ∧
    (t.srv.sess idx).sendQ.log = (s.srv.sess idx).sendQ.log) ∨
  ∃ m, s.Says a idx m ∧ (s.srv.enqueue idx m).isSome = true ∧
    (t.srv.sess idx).sendQ.log = (s.srv.sess idx).sendQ.log ++ [m]

section Heard
variable {s t : System}

theorem heard_silent {a : Act} {j : Nat} (hsilent : ∀ m, ¬ s.Says a j m)
    (hlog : (t.srv.sess j).sendQ.log = (s.srv.sess j).sendQ.log) : s.Heard t a j :=
  Or.inl ⟨fun m hm => absurd hm (hsilent m), hlog⟩

theorem silent_net {w j : Nat} {pc : NetPc} (hpc : s.net w = pc)
    (hjoined : ∀ idx actorId roomId, pc ≠ .joined idx actorId roomId)
    (hrefused : ∀ idx, pc ≠ .refused idx) (m : Msg) : ¬ s.Says (.net w) j m := by
  intro hm
  cases hm with
  | joined _ _ actorId roomId hw => exact hjoined j actorId roomId (hpc.symm.trans hw)
  | refused _ _ hw => exact hrefused j (hpc.symm.trans hw)

theorem silent_game {g j : Nat} {pc : GamePc} (hpc : s.game g = pc) (hevent : ∀ nr, pc ≠ .announce nr)
    (m : Msg) : ¬ s.Says (.game g) j m := by
  intro hm
  cases hm with
  | event _ nr _ hg => exact hevent nr (hpc.symm.trans hg)

/-- The ring takes the message, or the session is cut. -/
theorem send_told (s : System) (w idx : Nat) (m : Msg) (j : Nat) :
    (j = idx ∧ (s.srv.enqueue idx m).isSome = true ∧
      ((s.send w idx m).srv.sess j).sendQ.log = (s.srv.sess j).sendQ.log ++ [m]) ∨
    ((j = idx → s.srv.enqueue idx m = none) ∧
      ((s.send w idx m).srv.sess j).sendQ.log = (s.srv.sess j).sendQ.log) := by
  unfold send
  cases hm : s.srv.enqueue idx m with
  | some st =>
    obtain ⟨q, hq, rfl⟩ := Option.map_eq_some_iff.mp hm
    by_cases hj : j = idx
    · subst hj
      refine Or.inl ⟨rfl, rfl, ?_⟩
      have hself := Server.sess_modSession_self s.srv j fun x => { x with sendQ := q }
      exact (congrArg (·.sendQ.log) hself).trans (SendRing.enqueue_log hq)
    · refine Or.inr ⟨fun hidx => absurd hidx hj, ?_⟩
      exact congrArg (·.sendQ.log) (Server.sess_modSession_of_ne s.srv _ hj)
  | none => exact Or.inr ⟨fun _ => rfl, @Server.log_modSession s.srv.countFull _ _ (by rfl) j⟩

theorem heard_send {a : Act} {w idx : Nat} {m : Msg} (hwanted : s.Says a idx m)
    (honly : ∀ j m', s.Says a j m' → j = idx ∧ m' = m) (j : Nat) :
    s.Heard (s.send w idx m) a j := by
  rcases s.send_told w idx m j with ⟨rfl, hfit, hlog⟩ | ⟨hfull, hlog⟩
  · exact Or.inr ⟨m, hwanted, hfit, hlog⟩
  · refine Or.inl ⟨fun m' hm' => ?_, hlog⟩
    obtain ⟨rfl, rfl⟩ := honly j m' hm'
    exact hfull rfl

/-- The loop over the seats of a room tells each live member. -/
theorem heard_told {a : Act} {r j : Nat} {msg : Seat → Msg}
    (hwanted : ∀ i, s.srv.live r i = true → s.Says a ((s.srv.rooms r).members i).sessIdx (msg i))
    (honly : ∀ m, s.Says a j m → ∃ i, s.srv.live r i = true ∧
      ((s.srv.rooms r).members i).sessIdx = j ∧ m = msg i)
    (hone : ∀ i k, ((s.srv.rooms r).members i).used = true →
      ((s.srv.rooms r).members k).used = true →
      ((s.srv.rooms r).members i).sessIdx = ((s.srv.rooms r).members k).sessIdx → i = k)
    (h : (∃ i, s.srv.live r i = true ∧ ((s.srv.rooms r).members i).sessIdx = j ∧
        t.srv.sess j = (s.srv.sess j).told (msg i)) ∨
      ((∀ i, s.srv.live r i = true → ((s.srv.rooms r).members i).sessIdx ≠ j) ∧
        t.srv.sess j = s.srv.sess j)) : s.Heard t a j := by
  rcases h with ⟨i, hlive, rfl, htold⟩ | ⟨hnone, hsame⟩
  · rcases Session.log_told (s.srv.sess ((s.srv.rooms r).members i).sessIdx) (msg i) with
      ⟨hlog, hfit⟩ | ⟨hfull, hnofit⟩
    · refine Or.inr ⟨_, hwanted i hlive, ?_, (congrArg (·.sendQ.log) htold).trans hlog⟩
      rw [Server.enqueue, Option.isSome_map]
      exact hfit
    · refine Or.inl ⟨fun m hm => ?_, congrArg (·.sendQ.log) (htold.trans hfull)⟩
      obtain ⟨k, hlivek, hsess, rfl⟩ := honly m hm
      obtain rfl := hone k i (Server.used_of_live hlivek) (Server.used_of_live hlive) hsess
      rw [Server.enqueue, hnofit]
      rfl
  · refine heard_silent (fun m hm => ?_) (congrArg (·.sendQ.log) hsame)
    obtain ⟨i, hlive, hsess, -⟩ := honly m hm
    exact hnone i hlive hsess

theorem netStep_heard {w : Nat} (h : s.netStep w = some t) (j : Nat) : s.Heard t (.net w) j := by
  unfold netStep at h
  split at h
  · cases h
  · rename_i idx hw
    have hsilent := @silent_net s w j _ hw (by rintro _ _ _ ⟨⟩) (by rintro _ ⟨⟩)
    split at h
    · cases h
      exact heard_silent hsilent rfl
    · split at h <;> cases h
      exact heard_silent hsilent rfl
  · cases h
  · rename_i idx actorId roomId hw
    cases h
    refine heard_send (.joined w idx actorId roomId hw) (fun k m hm => ?_) j
    cases hm with
    | joined _ _ _ _ hw' =>
      cases hw.symm.trans hw'
      exact ⟨rfl, rfl⟩
    | refused _ _ hw' => cases hw.symm.trans hw'
  · rename_i idx hw
    cases h
    refine heard_send (.refused w idx hw) (fun k m hm => ?_) j
    cases hm with
    | joined _ _ _ _ hw' => cases hw.symm.trans hw'
    | refused _ _ hw' =>
      cases hw.symm.trans hw'
      exact ⟨rfl, rfl⟩
  · rename_i idx hw
    have hread := s.srv.log_leaveRead idx j
    refine heard_silent (silent_net hw (by rintro _ _ _ ⟨⟩) (by rintro _ ⟨⟩)) ?_
    split at h
    · rename_i st heq
      cases h
      rw [heq] at hread
      exact hread
    · rename_i st r heq
      cases h
      rw [heq] at hread
      exact hread
  · rename_i idx r hw
    cases h
    exact heard_silent (silent_net hw (by rintro _ _ _ ⟨⟩) (by rintro _ ⟨⟩)) rfl
  · rename_i idx hw
    cases h
    exact heard_silent (silent_net hw (by rintro _ _ _ ⟨⟩) (by rintro _ ⟨⟩))
      (Server.log_release _ _ j)
  · rename_i idx r c hw
    cases h
    exact heard_silent (silent_net hw (by rintro _ _ _ ⟨⟩) (by rintro _ ⟨⟩)) rfl

theorem lockStep_log (h : s.lockStep = some t) (j : Nat) :
    (t.srv.sess j).sendQ.log = (s.srv.sess j).sendQ.log := by
  unfold lockStep at h
  split at h
  · cases h
  · split at h
    · rename_i r hlast
      have hscan := s.srv.log_scanOpen r j
      split at h
      · rename_i st i heq
        cases h
        rw [heq] at hscan
        exact hscan
      · rename_i st heq
        cases h
        rw [heq] at hscan
        exact hscan
    · split at h
      · cases h
        rfl
      · rename_i r st htake
        cases h
        obtain ⟨_, rfl⟩ := Server.takeSlot_some htake
        rfl
  · cases h
    rfl
  · cases h
    rfl
  · cases h
    exact Server.log_pushJoin ..
  · cases h
    exact Server.log_storeJoin ..
  · cases h
    rfl
  · cases h
    exact Server.log_moveMember ..
  · cases h
    rfl
  · cases h
    exact Server.log_carryJoin ..
  · cases h
    exact Server.log_finishTransfer ..

theorem gameStep_heard (hs : Consistent s.ledger) {g : Nat} (h : s.gameStep g = some t) (j : Nat) :
    s.Heard t (.game g) j := by
  unfold gameStep at h
  split at h
  · cases h
  · rename_i i r e js ls hg
    have hsilent := @silent_game s g j _ hg (by rintro _ ⟨⟩)
    split at h <;> cases h <;> exact heard_silent hsilent rfl
  · rename_i i r ls hg
    cases h
    exact heard_silent (silent_game hg (by rintro _ ⟨⟩)) rfl
  · rename_i i r idx js ls hg
    cases h
    exact heard_silent (silent_game hg (by rintro _ ⟨⟩)) (Server.log_release s.srv _ j)
  · rename_i i r e ls hg
    have hsilent := @silent_game s g j _ hg (by rintro _ ⟨⟩)
    split at h <;> cases h <;> exact heard_silent hsilent rfl
  · rename_i i r hg
    have hsilent := @silent_game s g j _ hg (by rintro _ ⟨⟩)
    split at h <;> cases h <;> exact heard_silent hsilent rfl
  · rename_i i r idx ls hg
    cases h
    exact heard_silent (silent_game hg (by rintro _ ⟨⟩)) (Server.log_release s.srv _ j)
  · rename_i i r hg
    split at h <;> cases h
    exact heard_silent (silent_game hg (by rintro _ ⟨⟩)) rfl
  · rename_i i r hg
    have hsilent := @silent_game s g j _ hg (by rintro _ ⟨⟩)
    split at h
    · split at h
      · cases h
        exact heard_silent hsilent rfl
      · rename_i nr st htake
        cases h
        obtain ⟨_, rfl⟩ := Server.takeSlot_some htake
        exact heard_silent hsilent rfl
    · cases h
  · cases h
  · rename_i nr hg
    cases h
    have hone := fun i k hi hk hsess => (@used_unique s hs nr nr k i hk hi hsess).2
    refine heard_told (fun i hlive => .event g nr i hg hlive) (fun m hm => ?_) hone
      (Server.announce_told hone j)
    cases hm with
    | event _ nr' i hg' hlive =>
      cases hg.symm.trans hg'
      exact ⟨i, hlive, rfl, rfl⟩

end Heard

/-- A step says at most one thing to a session; a session that is opened starts anew. -/
theorem log_step {s t : System} {a : Act} (hs : Consistent s.ledger) (h : step a s = some t)
    (idx : Nat) :
    ((t.srv.sess idx).sendQ.log = [] ∧ idx ∈ s.srv.pool.free) ∨ s.Heard t a idx := by
  cases a with
  | accept w fd recvOk sendOk ctlOk =>
    simp only [step] at h
    split at h <;> cases h
    refine (Server.accept_log s.srv w fd recvOk sendOk ctlOk idx).imp id fun hsame => ?_
    exact heard_silent (fun m => by rintro ⟨⟩) hsame.1
  | frame w j f remainUs =>
    right
    simp only [step] at h
    split at h
    · rename_i hw
      cases h
      have hhandles := (Bool.and_eq_true_iff.mp hw).1
      have hsilent (hno : ∀ m, s.srv.dispatch j remainUs (.decode f) ≠ .send m) (m : Msg) :
          ¬ s.Says (.frame w j f remainUs) idx m := by
        intro hm
        cases hm with
        | reply _ _ _ _ _ _ hsend => exact hno m hsend
      cases hd : s.srv.dispatch j remainUs (.decode f) with
      | send m =>
        refine heard_send (.reply w j f remainUs m hhandles hd) (fun k m' hm' => ?_) idx
        cases hm' with
        | reply _ _ _ _ _ _ hd' =>
          cases hd.symm.trans hd'
          exact ⟨rfl, rfl⟩
      | join => exact heard_silent (hsilent (by rw [hd]; rintro _ ⟨⟩)) rfl
      | input r c => exact heard_silent (hsilent (by rw [hd]; rintro _ ⟨⟩)) rfl
      | ignore => exact heard_silent (hsilent (by rw [hd]; rintro _ ⟨⟩)) rfl
      | disconnect =>
        exact heard_silent (hsilent (by rw [hd]; rintro _ ⟨⟩)) (Server.log_modSession rfl idx)
    · cases h
  | disconnect w j =>
    simp only [step] at h
    split at h <;> cases h
    exact Or.inr (heard_silent (fun m => by rintro ⟨⟩) (Server.log_modSession (by rfl) idx))
  | flush w j n =>
    simp only [step] at h
    split at h <;> cases h
    exact Or.inr (heard_silent (fun m => by rintro ⟨⟩) (Server.log_modSession (by rfl) idx))
  | net w => exact Or.inr (netStep_heard h idx)
  | lock => exact Or.inr (heard_silent (fun m => by rintro ⟨⟩) (lockStep_log h idx))
  | drain g =>
    simp only [step] at h
    split at h <;> cases h
    exact Or.inr (heard_silent (fun m => by rintro ⟨⟩) rfl)
  | process g k =>
    simp only [step] at h
    split at h
    · split at h <;> cases h
      exact Or.inr (heard_silent (fun m => by rintro ⟨⟩) rfl)
    · cases h
  | tick g k =>
    right
    obtain ⟨r, hg, hr, htick⟩ := tick_of_step h
    have hone := fun i k hi hk hsess => (@used_unique s hs r r k i hk hi hsess).2
    have hsaid (m : Msg) (hm : s.Says (.tick g k) idx m) :
        Server.snapshotDue (s.srv.rooms r).step = true ∧ ∃ i, s.srv.live r i = true ∧
          ((s.srv.rooms r).members i).sessIdx = idx ∧ m = s.srv.nextSnapshot r := by
      cases hm with
      | snapshot _ _ r' i _ hr' hlive hdue =>
        cases hr.symm.trans hr'
        exact ⟨hdue, i, hlive, rfl, rfl⟩
    have htold := @Server.tickBody_told s.srv _ hone idx
    rw [← htick] at htold
    by_cases hdue : Server.snapshotDue (s.srv.rooms r).step = true
    · refine @heard_told s t (.tick g k) r idx (fun _ => s.srv.nextSnapshot r)
        (fun i hlive => .snapshot g k r i hg hr hlive hdue) (fun m hm => (hsaid m hm).2) hone ?_
      exact htold.imp And.right fun hnone => ⟨hnone.1 hdue, hnone.2⟩
    · refine heard_silent (fun m hm => hdue (hsaid m hm).1) ?_
      rcases htold with ⟨htrue, -⟩ | ⟨-, hsame⟩
      · exact absurd htrue hdue
      · exact congrArg (·.sendQ.log) hsame
  | game g => exact Or.inr (gameStep_heard hs h idx)

end System

end BeltServer
