import BeltServer.Inputs
import BeltServer.Entries

/-!
# Stale entries

Inputs and leave entries carry no reference. They may reach a room after their session was
cut, after the room was left by everyone it was meant for, or after its slot was recycled.
The record of a run notes when a session slot ends a generation, and when a handler queues
an input or a leave entry. As long as the generations of a slot do not wrap, an entry that
still names a member was queued by the session of that member, and the entries that name
nobody do nothing.
-/

namespace BeltServer

set_option autoImplicit false

open Runs

/-! ### Generations -/

/-- The session whose reference the worker still has to give back. -/
def GamePc.owes : GamePc → Option Nat
  | .skip _ _ idx _ _ | .drop _ _ idx _ => some idx
  | _ => none

/-- How a step ends the generation of a slot: a refused connection, or the last reference
given back by its owner or by the worker of a room. -/
inductive Ledger.Ends (L : Ledger) : Actor → Nat → Prop where
  | refused (w idx : Nat) (hfree : idx ∈ L.freeSess) : Ends L (.accept w) idx
  | owner (w idx : Nat) (hw : L.net w = .release idx) (hlast : (L.sess idx).refs = 1) :
      Ends L (.net w) idx
  | room (g idx : Nat) (hg : (L.game g).owes = some idx) (hlast : (L.sess idx).refs = 1) :
      Ends L (.game g) idx

theorem gen_released (m : Nat → SessBook) (idx j : Nat) :
    (Function.update m idx (m idx).released j).gen = (m j).gen ∨
      ((Function.update m idx (m idx).released j).gen = (m j).gen + 1 ∧ j = idx ∧
        (m idx).refs = 1) := by
  by_cases hlast : (m idx).refs = 1
  · by_cases hj : j = idx
    · subst hj
      refine Or.inr ⟨?_, rfl, hlast⟩
      rw [Function.update_self, SessBook.released, if_pos hlast]
    · rw [Function.update_of_ne hj]
      exact Or.inl rfl
  · refine Or.inl (sess_update (·.gen) ?_ j)
    rw [SessBook.released, if_neg hlast]

/-- A step keeps a generation or ends it. -/
theorem Ledger.Trans.gen_cases {L L' : Ledger} {a : Actor} (ht : L.Trans a L') (j : Nat) :
    (L'.sess j).gen = (L.sess j).gen ∨
      ((L'.sess j).gen = (L.sess j).gen + 1 ∧ L.Ends a j) := by
  cases ht with
  | accept w idx =>
    exact Or.inl (sess_update (m := L.sess) (·.gen) (S := (L.sess idx).opened w) rfl j)
  | refuse w idx hidx =>
    by_cases hj : j = idx
    · subst hj
      refine Or.inr ⟨?_, .refused w j (List.mem_of_getLast? hidx)⟩
      have hself : Function.update L.sess j ((L.sess j).refused w) j = (L.sess j).refused w :=
        Function.update_self ..
      exact congrArg SessBook.gen hself
    · exact Or.inl (congrArg SessBook.gen (Function.update_of_ne hj ..))
  | cut w idx => exact Or.inl (sess_update (m := L.sess) (·.gen) (S := (L.sess idx).cut) rfl j)
  | leaveRead w idx =>
    exact Or.inl (sess_update (m := L.sess) (·.gen) (S := (L.sess idx).left) rfl j)
  | push w idx => exact Or.inl (sess_update (m := L.sess) (·.gen) (S := (L.sess idx).addRef) rfl j)
  | store w idx r i =>
    exact Or.inl (sess_update (m := L.sess) (·.gen) (S := (L.sess idx).placed r i) rfl j)
  | moveSeat g i old nr seat rest moved joins leaves e =>
    exact Or.inl (sess_update (m := L.sess) (·.gen) (S := (L.sess e.sessIdx).moved e.sessGen nr)
      (SessBook.moved_gen ..) j)
  | carry g i old nr moved e =>
    exact Or.inl (sess_update (m := L.sess) (·.gen) (S := (L.sess e.sessIdx).moved e.sessGen nr)
      (SessBook.moved_gen ..) j)
  | netRelease w idx hw =>
    rcases gen_released L.sess idx j with hsame | ⟨hnext, rfl, hlast⟩
    · exact Or.inl hsame
    · exact Or.inr ⟨hnext, .owner w j hw hlast⟩
  | skipRelease g i r idx js ls hg =>
    rcases gen_released L.sess idx j with hsame | ⟨hnext, rfl, hlast⟩
    · exact Or.inl hsame
    · exact Or.inr ⟨hnext, .room g j (by rw [hg]; rfl) hlast⟩
  | dropRelease g i r idx ls hg =>
    rcases gen_released L.sess idx j with hsame | ⟨hnext, rfl, hlast⟩
    · exact Or.inl hsame
    · exact Or.inr ⟨hnext, .room g j (by rw [hg]; rfl) hlast⟩
  | _ => exact Or.inl rfl

section Ends
variable {L : Ledger} (h : Consistent L)
include h

theorem claimed_of_owes {g idx : Nat} (hg : (L.game g).owes = some idx) :
    0 < L.claims.count idx := by
  have hplace : ∃ k r, (L.game g).place = some (k, r) ∧ (L.game g).owedAt r = {idx} := by
    cases hpc : L.game g <;> rw [hpc] at hg <;> cases hg
    · exact ⟨_, _, rfl, if_pos rfl⟩
    · exact ⟨_, _, rfl, if_pos rfl⟩
  obtain ⟨k, r, hplace, howed⟩ := hplace
  have hr := h.places.lt_of_mine (h.places.mem_of_place hplace)
  refine Ledger.count_pos_of_owed hr ?_
  rw [Ledger.owed, h.places.owner_of_place hplace, howed]
  exact Multiset.mem_singleton_self idx

theorem lt_cap_of_ends {a : Actor} {idx : Nat} (hend : L.Ends a idx) : idx < L.sessCap := by
  cases hend with
  | refused w idx hfree => exact (h.refs.mem_free.mp hfree).1
  | owner w idx hw => exact (h.refs.conns w idx (h.refs.net w idx (by rw [hw]; rfl))).2
  | room g idx hg => exact h.refs.bound idx (claimed_of_owes h hg)

/-- A generation does not end while the owner is in another handler of the session. -/
theorem not_ends_of_conn {a : Actor} {w idx : Nat} (hconn : idx ∈ L.mySessions w)
    (hw : L.net w ≠ .release idx) : ¬L.Ends a idx := by
  obtain ⟨howner, -⟩ := h.refs.conns w idx hconn
  have hrefs := h.refs.refs idx
  have hown : L.ownRef idx = 1 := if_pos (howner ▸ hconn)
  rw [hown] at hrefs
  intro hend
  cases hend with
  | refused w' idx hfree =>
    have hzero := (h.refs.mem_free.mp hfree).2
    omega
  | owner w' idx hw' =>
    have hconn' := h.refs.net w' idx (by rw [hw']; rfl)
    obtain rfl : w' = w := (h.refs.conns w' idx hconn').1.symm.trans howner
    exact hw hw'
  | room g idx hg hlast =>
    have hclaimed := claimed_of_owes h hg
    omega

end Ends

/-! ### Inputs about to be queued -/

namespace System

theorem inputPush_step {a : Act} {s t : System} (h : step a s = some t) {w idx r : Nat}
    {c : InputCmd} (hw : t.net w = .inputPush idx r c) :
    s.net w = .inputPush idx r c ∨
      (s.net w = .idle ∧ c.sessIdx = idx ∧ c.sessGen = (s.srv.sess idx).gen ∧
        t.srv = s.srv) := by
  rcases inputPush_of_step h hw with hold | ⟨f, remainUs, rfl, hd⟩
  · exact Or.inl hold
  · right
    simp only [step] at h
    split at h <;> cases h
    rename_i hhandles
    have hidle : s.net w = .idle := by
      simp only [handles, Bool.and_eq_true, decide_eq_true_eq] at hhandles
      exact hhandles.1.1.1
    rw [hd]
    refine ⟨hidle, ?_⟩
    cases hmsg : ClientMsg.decode f <;> rw [hmsg] at hd <;> simp only [Server.dispatch] at hd
    · cases hd
    · split at hd
      · cases hd
      · split at hd <;> cases hd
    · split at hd <;> cases hd
      exact ⟨rfl, rfl, rfl⟩
    · split at hd <;> cases hd
    · cases hd

end System

/-! ### The record -/

/-- The end of a generation of a slot, or an entry that a handler of session `idx` queues. -/
inductive Signal where
  | ended (idx : Nat)
  | input (idx : Nat) (c : InputCmd)
  | leave (idx : Nat) (e : RoomLeaveEntry)
  deriving DecidableEq

def ends (idx : Nat) (es : List Signal) : Nat := es.count (.ended idx)

theorem ends_append (idx : Nat) (es es' : List Signal) :
    ends idx (es ++ es') = ends idx es + ends idx es' := List.count_append

namespace System

def endedBy (a : Act) (s : System) : List Nat :=
  match step a s with
  | some t =>
    (List.range s.srv.pool.cap).filter fun idx => (t.srv.sess idx).gen ≠ (s.srv.sess idx).gen
  | none => []

def queuedBy (a : Act) (s : System) : List Signal :=
  match a with
  | .net w =>
    match s.net w with
    | .inputPush idx _ c => [.input idx c]
    | .leavePush idx _ => [.leave idx ⟨idx, (s.srv.sess idx).gen⟩]
    | _ => []
  | _ => []

def signals (a : Act) (s : System) : List Signal := queuedBy a s ++ (endedBy a s).map .ended

theorem ends_queuedBy (a : Act) (s : System) (idx : Nat) : ends idx (queuedBy a s) = 0 := by
  unfold queuedBy
  split
  · split <;> rfl
  · rfl

end System

/-- The entry was queued by a handler of session `idx`, in generation `gen` of its slot. -/
def NotedIn (es : List Signal) (σ : Signal) (idx : Nat) (gen : UInt32) : Prop :=
  ∃ es₁ es₂, es = es₁ ++ σ :: es₂ ∧ gen = UInt32.ofNat (ends idx es₁)

theorem NotedIn.append {es : List Signal} {σ : Signal} {idx : Nat} {gen : UInt32}
    (h : NotedIn es σ idx gen) (es' : List Signal) : NotedIn (es ++ es') σ idx gen := by
  obtain ⟨es₁, es₂, rfl, hgen⟩ := h
  exact ⟨es₁, es₂ ++ es', by simp, hgen⟩

structure SignalsOk (es : List Signal) (s : System) : Prop where
  gens : ∀ idx, (s.srv.sess idx).gen = UInt32.ofNat (ends idx es)
  pushing : ∀ w idx r c, s.net w = .inputPush idx r c →
    c.sessIdx = idx ∧ c.sessGen = (s.srv.sess idx).gen
  inputs : ∀ r, ∀ c ∈ (s.srv.rooms r).inQ, NotedIn es (.input c.sessIdx c) c.sessIdx c.sessGen
  leaves : ∀ e, s.ledger.HasLeave e → NotedIn es (.leave e.sessIdx e) e.sessIdx e.sessGen

/-- Only a push adds to an input queue. -/
theorem System.inQ_step {a : Act} {s t : System} (hs : Consistent s.ledger) (h : step a s = some t)
    {r : Nat} {c : InputCmd} (hc : c ∈ (t.srv.rooms r).inQ) :
    c ∈ (s.srv.rooms r).inQ ∨ s.cue a = some (.send r c) := by
  have hstage := stage_step h
  have hmem : c ∈ (t.srv.stage r).inQ := hc
  have hsame (hinQ : (t.srv.stage r).inQ = (s.srv.stage r).inQ) : c ∈ (s.srv.rooms r).inQ := by
    rw [hinQ] at hmem
    exact hmem
  cases hcue : s.cue a with
  | none =>
    rw [hcue] at hstage
    exact Or.inl (hsame (by rw [hstage]; rfl))
  | some cue =>
    rw [hcue] at hstage
    have hupdate {r₀ : Nat} {S : Stage} (hst : t.srv.stage = Function.update s.srv.stage r₀ S)
        (hS : ∀ c ∈ S.inQ, c ∈ (s.srv.stage r₀).inQ) : c ∈ (s.srv.rooms r).inQ := by
      rw [hst] at hmem
      by_cases hr : r = r₀
      · rw [hr, Function.update_self] at hmem
        exact hr ▸ hS c hmem
      · rw [Function.update_of_ne hr] at hmem
        exact hmem
    cases cued_of_cue hcue with
    | send w idx r₀ c₀ hw =>
      have hst := hstage.trans (Server.perform_send ..)
      by_cases hr : r = r₀
      · subst hr
        rw [hst, Function.update_self] at hmem
        rcases List.mem_append.mp hmem with hold | hnew
        · exact Or.inl hold
        · rw [List.mem_singleton.mp hnew]
          exact Or.inr rfl
      · rw [hst, Function.update_of_ne hr] at hmem
        exact Or.inl hmem
    | seat g k r₀ e js ls hg =>
      exact Or.inl (hupdate (hstage.trans (Server.perform_seat ..)) fun _ hmem => hmem)
    | unseat g k r₀ i e ls hg =>
      exact Or.inl (hupdate (hstage.trans (Server.perform_unseat ..)) fun _ hmem => hmem)
    | clearNew w idx r₀ hlock =>
      exact Or.inl (hupdate (hstage.trans (Server.perform_clear ..)) fun _ hmem => by cases hmem)
    | clearNext g k old r₀ hg =>
      exact Or.inl (hupdate (hstage.trans (Server.perform_clear ..)) fun _ hmem => by cases hmem)
    | tick g k r₀ hr =>
      refine Or.inl (hupdate (hstage.trans (Server.perform_tick ..)) fun _ hmem => ?_)
      have hempty : (s.srv.rooms r₀).step.stage.inQ = [] := Room.step_inQ _
      rw [hempty] at hmem
      cases hmem
    | move g k old nr i rest moved joins leaves hlock =>
      left
      have htransfer : s.lock.transfer = some (g, k, old, nr) := by
        rw [hlock]
        rfl
      cases hused : ((s.srv.stage old).members i).used with
      | false =>
        exact hsame (by rw [hstage, Server.perform_move_unused s.srv hused])
      | true =>
        have hne : nr ≠ old := Ne.symm (hs.places.transfer_ne htransfer)
        refine hsame ?_
        rw [hstage, Server.perform_move s.srv hne hused]
        by_cases hold : r = old
        · rw [hold, Function.update_self]
        · rw [Function.update_of_ne hold]
          by_cases hnew : r = nr
          · rw [hnew, Function.update_self]
          · rw [Function.update_of_ne hnew]
    | resume g k old nr moved joins leaves hlock =>
      exact Or.inl (hupdate (hstage.trans (Server.perform_resume ..)) fun _ hmem => hmem)

namespace SignalsOk

variable {es : List Signal} {s t : System} {a : Act}

/-- The record counts the generations that end. -/
theorem ends_step (es : List Signal) (hs : Consistent s.ledger) (ht : System.step a s = some t) (idx : Nat) :
    ((t.srv.sess idx).gen = (s.srv.sess idx).gen ∧
        ends idx (es ++ System.signals a s) = ends idx es) ∨
      ((t.srv.sess idx).gen = (s.srv.sess idx).gen + 1 ∧
        ends idx (es ++ System.signals a s) = ends idx es + 1) := by
  have hcount : ends idx (es ++ System.signals a s) = ends idx es +
      if idx < s.srv.pool.cap ∧ (t.srv.sess idx).gen ≠ (s.srv.sess idx).gen then 1 else 0 := by
    rw [ends_append, System.signals, ends_append, System.ends_queuedBy, Nat.zero_add]
    congr 1
    have hinj : Function.Injective Signal.ended := fun _ _ h => by cases h; rfl
    have hended : System.endedBy a s = (List.range s.srv.pool.cap).filter fun idx =>
        (t.srv.sess idx).gen ≠ (s.srv.sess idx).gen := by
      simp only [System.endedBy, ht]
    rw [ends, List.count_map_of_injective _ _ hinj, hended]
    by_cases hgen : (t.srv.sess idx).gen ≠ (s.srv.sess idx).gen
    · rw [List.count_filter (by simpa using hgen), List.count_range]
      simp [hgen]
    · rw [if_neg fun hh => hgen hh.2]
      apply List.count_eq_zero.mpr
      intro hmem
      exact hgen (by simpa using (List.mem_filter.mp hmem).2)
  have hkeep (hgen : (t.srv.sess idx).gen = (s.srv.sess idx).gen) :
      ends idx (es ++ System.signals a s) = ends idx es := by
    rw [hcount, if_neg fun hh => hh.2 hgen, Nat.add_zero]
  rcases System.trans_of_step ht with hsame | htrans
  · have hgen : (t.srv.sess idx).gen = (s.srv.sess idx).gen :=
      congrArg (fun L : Ledger => (L.sess idx).gen) hsame
    exact Or.inl ⟨hgen, hkeep hgen⟩
  · rcases htrans.gen_cases idx with hgen | ⟨hgen, hend⟩
    · exact Or.inl ⟨hgen, hkeep hgen⟩
    · have hgen' : (t.srv.sess idx).gen = (s.srv.sess idx).gen + 1 := hgen
      have hcap : idx < s.srv.pool.cap := lt_cap_of_ends hs hend
      refine Or.inr ⟨hgen', ?_⟩
      rw [hcount, if_pos ⟨hcap, by rw [hgen']; simp⟩]

theorem gen_of_conn (hs : Consistent s.ledger) (ht : System.step a s = some t) {w idx : Nat}
    (hconn : idx ∈ s.srv.mySessions w) (hw : s.net w ≠ .release idx) :
    (t.srv.sess idx).gen = (s.srv.sess idx).gen := by
  rcases System.trans_of_step ht with hsame | htrans
  · exact congrArg (fun L : Ledger => (L.sess idx).gen) hsame
  · rcases htrans.gen_cases idx with hgen | ⟨-, hend⟩
    · exact hgen
    · exact absurd hend (not_ends_of_conn hs hconn hw)

theorem pushing_step (h : SignalsOk es s) (hs : Consistent s.ledger)
    (ht : System.step a s = some t) {w idx r : Nat} {c : InputCmd}
    (hw : t.net w = .inputPush idx r c) :
    c.sessIdx = idx ∧ c.sessGen = (t.srv.sess idx).gen := by
  rcases System.inputPush_step ht hw with hold | ⟨-, hidx, hgen, hsrv⟩
  · obtain ⟨hidx, hgen⟩ := h.pushing w idx r c hold
    have hconn : idx ∈ s.srv.mySessions w := hs.refs.net w idx (by
      show (s.net w).sess = some idx
      rw [hold]
      rfl)
    refine ⟨hidx, hgen.trans (gen_of_conn hs ht hconn ?_).symm⟩
    rw [hold]
    rintro ⟨⟩
  · rw [hsrv]
    exact ⟨hidx, hgen⟩

theorem inputs_step (h : SignalsOk es s) (hs : Consistent s.ledger)
    (ht : System.step a s = some t) {r : Nat} {c : InputCmd} (hc : c ∈ (t.srv.rooms r).inQ) :
    NotedIn (es ++ System.signals a s) (.input c.sessIdx c) c.sessIdx c.sessGen := by
  rcases System.inQ_step hs ht hc with hold | hcue
  · exact (h.inputs r c hold).append _
  · cases System.cued_of_cue hcue with
    | send w idx r c hw =>
      obtain ⟨rfl, hgen⟩ := h.pushing w idx r c hw
      refine ⟨es, (System.endedBy (.net w) s).map .ended, ?_, hgen.trans (h.gens _)⟩
      simp [System.signals, System.queuedBy, hw]

theorem act_of_leavePush (ht : System.step a s = some t) {w idx r : Nat}
    (ha : a.actor = .net w) (hw : s.net w = .leavePush idx r) : a = .net w := by
  have hbusy (w' idx' : Nat) (hactor : Actor.net w' = .net w) (h : s.handles w' idx' = true) :
      False := by
    cases hactor
    simp [System.handles, hw] at h
  cases a with
  | net w' =>
    cases ha
    rfl
  | frame w' idx' f remainUs =>
    simp only [System.step] at ht
    split at ht <;> cases ht
    rename_i hhandles
    exact absurd (Bool.and_eq_true .. ▸ hhandles).1 (hbusy w' idx' ha)
  | disconnect w' idx' =>
    simp only [System.step] at ht
    split at ht <;> cases ht
    rename_i hhandles
    exact absurd hhandles (hbusy w' idx' ha)
  | flush w' idx' n =>
    simp only [System.step] at ht
    split at ht <;> cases ht
    rename_i hhandles
    exact absurd hhandles (hbusy w' idx' ha)
  | _ => cases ha

theorem leaves_step (h : SignalsOk es s) (ht : System.step a s = some t) {e : RoomLeaveEntry}
    (he : t.ledger.HasLeave e) :
    NotedIn (es ++ System.signals a s) (.leave e.sessIdx e) e.sessIdx e.sessGen := by
  rcases System.trans_of_step ht with hsame | htrans
  · exact (h.leaves e (hsame ▸ he)).append _
  · rcases Ledger.HasLeave.step htrans he with hold | ⟨w, idx, r, ha, hw, rfl⟩
    · exact (h.leaves e hold).append _
    · obtain rfl := act_of_leavePush ht ha hw
      have hpc : s.net w = .leavePush idx r := hw
      refine ⟨es, (System.endedBy (.net w) s).map .ended, ?_, h.gens idx⟩
      simp only [System.signals, System.queuedBy, hpc, List.singleton_append]
      rfl

theorem step (h : SignalsOk es s) (hs : Consistent s.ledger) (ht : System.step a s = some t) :
    SignalsOk (es ++ System.signals a s) t where
  gens idx := by
    rcases ends_step es hs ht idx with ⟨hgen, hends⟩ | ⟨hgen, hends⟩
    · rw [hgen, hends]
      exact h.gens idx
    · rw [hgen, hends, h.gens idx, UInt32.ofNat_add]
      rfl
  pushing _ _ _ _ hw := h.pushing_step hs ht hw
  inputs _ _ hc := h.inputs_step hs ht hc
  leaves _ he := h.leaves_step ht he

theorem init (sessionCapacity roomCapacity workerCount : Nat) :
    SignalsOk [] (System.init sessionCapacity roomCapacity workerCount) where
  gens idx := rfl
  pushing w idx r c hw := by cases hw
  inputs r c hc := by cases hc
  leaves e he := by rcases he with ⟨r, he⟩ | ⟨g, he⟩ | he <;> cases he

theorem run {sessionCapacity roomCapacity workerCount : Nat}
    (h : Traced System.step System.signals (System.init sessionCapacity roomCapacity workerCount)
      es s) : SignalsOk es s :=
  h.invariant (init ..) fun _ _ _ _ hs hok ht => hok.step (System.consistent hs) ht

end SignalsOk

/-! ### What an entry can do -/

/-- The member is the one that an entry with this session and generation names. -/
structure Member.Named (m : Member) (idx : Nat) (gen : UInt32) : Prop where
  used : m.used = true
  sessIdx : m.sessIdx = idx
  sessGen : m.sessGen = gen

/-- The entry was queued by a handler of session `idx`, and its slot has kept the generation
ever since. -/
def Current (es : List Signal) (σ : Signal) (idx : Nat) : Prop :=
  ∃ es₁ es₂, es = es₁ ++ σ :: es₂ ∧ .ended idx ∉ es₂

/-- An entry that names a member was queued by the member's own session, if generations do
not wrap. -/
theorem SignalsOk.current {es : List Signal} {s : System} (h : SignalsOk es s)
    (hs : Consistent s.ledger) (hwrap : ∀ idx, ends idx es < 2 ^ 32) {σ : Signal} {idx : Nat}
    {gen : UInt32} (hσ : NotedIn es σ idx gen) (hne : σ ≠ .ended idx) {r : Nat} {i : Seat}
    (hm : ((s.srv.rooms r).members i).Named idx gen) : Current es σ idx := by
  obtain ⟨es₁, es₂, heq, hgen⟩ := hσ
  refine ⟨es₁, es₂, heq, ?_⟩
  have hnow : UInt32.ofNat (ends idx es) = UInt32.ofNat (ends idx es₁) := by
    have hholder := (System.holder_of_used hs hm.used).1
    rw [hm.sessIdx, hm.sessGen] at hholder
    rw [← h.gens idx, hholder, hgen]
  have hsplit : ends idx es = ends idx es₁ + ends idx es₂ := by
    rw [heq, ends_append]
    congr 1
    exact List.count_cons_of_ne hne
  have hlt := hwrap idx
  have htoNat := congrArg UInt32.toNat hnow
  rw [UInt32.toNat_ofNat_of_lt' hlt,
    UInt32.toNat_ofNat_of_lt' (by simp only [UInt32.size]; omega)] at htoNat
  apply List.count_eq_zero.mp
  show ends idx es₂ = 0
  omega

/-- Routing an input changes no member but the one it names. -/
theorem Room.route_other {R : Room} {c : InputCmd} {i : Seat}
    (h : ¬(R.members i).Named c.sessIdx c.sessGen) : (R.route c).1.members i = R.members i := by
  by_cases hsent : ∃ j, R.sentTo j c = true
  · obtain ⟨j, hj⟩ := hsent
    refine route_members_ne hj ?_
    rintro rfl
    simp only [sentTo, Bool.and_eq_true, beq_iff_eq] at hj
    exact h ⟨hj.1.1.2, hj.1.2, hj.2⟩
  · rw [route_not_sentTo fun j => by simpa using fun hj => hsent ⟨j, hj⟩]

/-- A tick of room `r`: a member comes out as if only the inputs that name it were queued, and
nothing else is touched by the inputs. -/
structure TickFrame (s t : System) (r : Nat) : Prop where
  members : ∀ i cs c cs', (s.srv.rooms r).inQ = cs ++ c :: cs' →
    ¬((s.srv.rooms r).members i).Named c.sessIdx c.sessGen →
      (t.srv.rooms r).members i = ({ s.srv.rooms r with inQ := cs ++ cs' } : Room).step.members i
  rooms : ∀ r', r' ≠ r → t.srv.rooms r' = s.srv.rooms r'
  sess : ∀ idx, (t.srv.sess idx).book = (s.srv.sess idx).book

/-- A leave entry in the hand of the worker `g` of room `r`: it unseats the member it names, for
which a reference will be given back, or does nothing. -/
structure LeaveFrame (s t : System) (g k r : Nat) (e : RoomLeaveEntry) (ls : List RoomLeaveEntry) :
    Prop where
  members : ∀ i, (t.srv.rooms r).members i = (s.srv.rooms r).members i ∨
    (((s.srv.rooms r).members i).Named e.sessIdx e.sessGen ∧
      (t.srv.rooms r).members i = { (s.srv.rooms r).members i with used := false } ∧
      t.game g = .drop k r e.sessIdx ls)
  rooms : ∀ r', r' ≠ r → t.srv.rooms r' = s.srv.rooms r'
  sess : ∀ idx, t.srv.sess idx = s.srv.sess idx

/-- The reference of an unseated session is given back. -/
structure DropFrame (s t : System) (idx : Nat) : Prop where
  refs : (t.srv.sess idx).refs = (s.srv.sess idx).refs - 1
  sess : ∀ j, j ≠ idx → t.srv.sess j = s.srv.sess j
  rooms : ∀ r, t.srv.rooms r = s.srv.rooms r

section Frames
variable {s t : System}

theorem Server.sendSnapshots_book (st : Server) (r : Nat) (snap : Snapshot) (is : List Seat)
    (idx : Nat) : ((is.foldl (fun st' i => st'.sendSnapshot r snap i) st).sess idx).book =
      (st.sess idx).book := by
  induction is generalizing st with
  | nil => rfl
  | cons i is ih =>
    have hbooks := books_sendSnapshot st r snap i
    exact (ih _).trans (congrArg (fun b : Books => b.sess idx) hbooks)

theorem tickFrame {g k r : Nat} (hr : (s.srv.myRooms g)[k]? = some r)
    (ht : System.step (.tick g k) s = some t) : TickFrame s t r := by
  obtain ⟨r', -, hr', htick⟩ := System.tick_of_step ht
  obtain rfl : r' = r := by
    rw [hr] at hr'
    exact (Option.some.inj hr').symm
  have hrooms : t.srv.rooms = (s.srv.modRoom r' Room.step).rooms := by
    rw [htick]
    exact Server.tickBody_rooms s.srv r'
  refine ⟨fun i cs c cs' hin hnot => ?_, fun r₁ hne => ?_, fun idx => ?_⟩
  · have hself : t.srv.rooms r' = (s.srv.rooms r').step := by
      rw [hrooms]
      exact Function.update_self ..
    have hmail : ({ s.srv.rooms r' with inQ := cs ++ cs' } : Room).mail i =
        (s.srv.rooms r').mail i := by
      have hskip : (s.srv.rooms r').sentTo i c = false := by
        by_contra hsent
        simp only [Room.sentTo, Bool.not_eq_false, Bool.and_eq_true, beq_iff_eq] at hsent
        exact hnot ⟨hsent.1.1.2, hsent.1.2, hsent.2⟩
      show (cs ++ cs').filter ((s.srv.rooms r').sentTo i) = _
      rw [Room.mail, hin, List.filter_append, List.filter_append,
        List.filter_cons_of_neg (by simp [hskip])]
    rw [hself, Room.step_members, Room.step_members, hmail]
  · rw [hrooms]
    exact Function.update_of_ne hne ..
  · rw [htick]
    unfold Server.tickBody
    dsimp only
    split
    · exact Server.sendSnapshots_book ..
    · rfl

theorem leaveFrame {g k r : Nat} {e : RoomLeaveEntry} {ls : List RoomLeaveEntry}
    (hg : s.game g = .leaves k r (e :: ls)) (ht : System.step (.game g) s = some t) :
    LeaveFrame s t g k r e ls := by
  simp only [System.step, System.gameStep, hg] at ht
  split at ht
  · rename_i seat hseat
    cases ht
    have hnamed : ((s.srv.rooms r).members seat).Named e.sessIdx e.sessGen := by
      have hfound := List.find?_some hseat
      simp only [Bool.and_eq_true, beq_iff_eq] at hfound
      exact ⟨hfound.1.1, hfound.1.2, hfound.2⟩
    have hself : (s.srv.unseat r seat).rooms r = ((s.srv.rooms r).unseat seat).releaseSeat seat :=
      Function.update_self ..
    refine ⟨fun i => ?_, fun r' hne => Function.update_of_ne hne .., fun idx => rfl⟩
    by_cases hi : i = seat
    · subst hi
      refine Or.inr ⟨hnamed, ?_, Function.update_self ..⟩
      exact (congrArg (fun R : Room => R.members i) hself).trans (Function.update_self ..)
    · refine Or.inl ((congrArg (fun R : Room => R.members i) hself).trans ?_)
      exact Function.update_of_ne hi ..
  · cases ht
    exact ⟨fun _ => Or.inl rfl, fun _ _ => rfl, fun _ => rfl⟩

theorem dropFrame {g k r idx : Nat} {ls : List RoomLeaveEntry} (hg : s.game g = .drop k r idx ls)
    (ht : System.step (.game g) s = some t) : DropFrame s t idx := by
  simp only [System.step, System.gameStep, hg] at ht
  cases ht
  exact ⟨SessionPool.release_refs .., fun j hj => SessionPool.release_slots_of_ne hj,
    fun _ => rfl⟩

end Frames

/-- Stale entries never touch another session. -/
theorem stale_entries {sessionCapacity roomCapacity workerCount : Nat} {es : List Signal}
    {s : System} (h : Traced System.step System.signals
      (System.init sessionCapacity roomCapacity workerCount) es s)
    (hwrap : ∀ idx, ends idx es < 2 ^ 32) :
    (∀ r c r' i, c ∈ (s.srv.rooms r).inQ →
      ((s.srv.rooms r').members i).Named c.sessIdx c.sessGen →
        Current es (.input c.sessIdx c) c.sessIdx) ∧
    (∀ e r i, s.ledger.HasLeave e → ((s.srv.rooms r).members i).Named e.sessIdx e.sessGen →
      Current es (.leave e.sessIdx e) e.sessIdx) ∧
    (∀ (R : Room) c i, ¬(R.members i).Named c.sessIdx c.sessGen →
      (R.route c).1.members i = R.members i) ∧
    (∀ g k r t, (s.srv.myRooms g)[k]? = some r → System.step (.tick g k) s = some t →
      TickFrame s t r) ∧
    (∀ g k r e ls t, s.game g = .leaves k r (e :: ls) → System.step (.game g) s = some t →
      LeaveFrame s t g k r e ls) ∧
    ∀ g k r idx ls t, s.game g = .drop k r idx ls → System.step (.game g) s = some t →
      DropFrame s t idx := by
  have hs := System.consistent h.reach
  have hok := SignalsOk.run h
  refine ⟨?_, ?_, fun R c i hnot => Room.route_other hnot, ?_, ?_, ?_⟩
  · intro r c r' i hc hm
    exact hok.current hs hwrap (hok.inputs r c hc) (by rintro ⟨⟩) hm
  · intro e r i he hm
    exact hok.current hs hwrap (hok.leaves e he) (by rintro ⟨⟩) hm
  · intro g k r t hr ht
    exact tickFrame hr ht
  · intro g k r e ls t hg ht
    exact leaveFrame hg ht
  · intro g k r idx ls t hg ht
    exact dropFrame hg ht

/-- The player of `playing` is cut, and the worker has its leave entry in hand. -/
def leaving : List Act :=
  playing ++ [.disconnect 0 0, .net 0, .net 0, .net 0, .process 0 0, .game 0]

theorem stale_entries_leaving : ∃ es s t,
    record System.step System.signals leaving (System.init 1 1 1) = some (es, s) ∧
    System.step (.game 0) s = some t ∧
    Current es (.input 0 ⟨0, 0, 0, 7, 1, 0, 0, 0⟩) 0 ∧ Current es (.leave 0 ⟨0, 0⟩) 0 ∧
    LeaveFrame s t 0 0 0 ⟨0, 0⟩ [] := by
  have hrun : ((record System.step System.signals leaving (System.init 1 1 1)).bind fun p =>
      (System.step (.game 0) p.2).map fun _ => (p.1, p.2.game 0)) =
      some ([.input 0 ⟨0, 0, 0, 7, 1, 0, 0, 0⟩, .leave 0 ⟨0, 0⟩], .leaves 0 0 [⟨0, 0⟩]) := by
    decide +kernel
  have hroom : (record System.step System.signals leaving (System.init 1 1 1)).map (fun p =>
      let m := (p.2.srv.rooms 0).members firstSeat
      ((p.2.srv.rooms 0).inQ, m.used, m.sessIdx, m.sessGen)) =
      some ([⟨0, 0, 0, 7, 1, 0, 0, 0⟩], true, 0, 0) := by decide +kernel
  obtain ⟨⟨es, s⟩, hs, hrest⟩ := Option.bind_eq_some_iff.mp hrun
  obtain ⟨t, ht, heq⟩ := Option.map_eq_some_iff.mp hrest
  simp only [Prod.mk.injEq] at heq
  obtain ⟨hes, hgame⟩ := heq
  simp only [hs, Option.map_some, Option.some.injEq, Prod.mk.injEq] at hroom
  obtain ⟨hinQ, hused, hidx, hgen⟩ := hroom
  have hshort (idx : Nat) : ends idx es < 2 ^ 32 := by
    have hle : ends idx es ≤ es.length := List.count_le_length
    rw [hes] at hle ⊢
    exact Nat.lt_of_le_of_lt hle (by decide)
  obtain ⟨hinputs, hleaves, -, -, hleave, -⟩ := stale_entries (traced_of_record hs) hshort
  refine ⟨es, s, t, hs, ht, ?_, ?_, hleave 0 0 0 ⟨0, 0⟩ [] t hgame ht⟩
  · exact hinputs 0 ⟨0, 0, 0, 7, 1, 0, 0, 0⟩ 0 firstSeat (by simp [hinQ]) ⟨hused, hidx, hgen⟩
  · refine hleaves ⟨0, 0⟩ 0 firstSeat (Or.inr (Or.inl ⟨0, ?_⟩)) ⟨hused, hidx, hgen⟩
    have hpc : s.ledger.game 0 = .leaves 0 0 [⟨0, 0⟩] := hgame
    simp [hpc, GamePc.leaveEntries]

end BeltServer
