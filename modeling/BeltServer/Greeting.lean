import BeltServer.Clock
import BeltServer.Transcript

/-!
# JOIN_OK and the messages of a room

A session that joined is visible to the game workers before its own worker has queued the
JOIN_OK. What follows: a connected session that is in a room has its JOIN_OK in its log,
or the reply is the next thing its worker does. In a run in which no tick and no room move
reaches a session of the second kind, the JOIN_OK is the first thing a room says.
-/

namespace BeltServer

set_option autoImplicit false

open Runs

def Msg.isJoinOk : Msg → Bool
  | .joinOk .. => true
  | _ => false

/-- SNAPSHOT and ROOM_EVENT. -/
def Msg.ofRoom : Msg → Bool
  | .snapshot .. | .roomEvent .. => true
  | _ => false

/-- The JOIN_OK comes before every message of a room. -/
def JoinOkFirst (log : List Msg) : Prop :=
  ∀ xs m ys, log = xs ++ m :: ys → m.ofRoom = true →
    (∃ m' ∈ xs, m'.isJoinOk = true) ∧ ∀ m' ∈ ys, m'.isJoinOk = false

def HasJoinOk (log : List Msg) : Prop := ∃ m ∈ log, m.isJoinOk = true

namespace JoinOkFirst

variable {log : List Msg} {m : Msg}

theorem nil : JoinOkFirst [] := by
  intro xs m ys hlog
  exact absurd hlog.symm (List.append_ne_nil_of_right_ne_nil _ (List.cons_ne_nil _ _))

theorem hasJoinOk (h : JoinOkFirst log) (hm : m ∈ log) (hroom : m.ofRoom = true) :
    HasJoinOk log := by
  obtain ⟨xs, ys, rfl⟩ := List.append_of_mem hm
  obtain ⟨⟨m', hm', hjoin⟩, -⟩ := h xs m ys rfl hroom
  exact ⟨m', List.mem_append_left _ hm', hjoin⟩

theorem split_snoc {xs ys : List Msg} {m' : Msg} (h : log ++ [m] = xs ++ m' :: ys) :
    (xs = log ∧ m' = m ∧ ys = []) ∨ ∃ zs, ys = zs ++ [m] ∧ log = xs ++ m' :: zs := by
  rcases List.eq_nil_or_concat ys with rfl | ⟨zs, y, rfl⟩
  · obtain ⟨hxs, hm⟩ := List.append_inj' h rfl
    exact Or.inl ⟨hxs.symm, (List.singleton_inj.mp hm).symm, rfl⟩
  · rw [List.concat_eq_append, ← List.cons_append, ← List.append_assoc] at h
    obtain ⟨hlog, hm⟩ := List.append_inj' h rfl
    rw [List.concat_eq_append, ← List.singleton_inj.mp hm]
    exact Or.inr ⟨zs, rfl, hlog⟩

theorem snoc_other (h : JoinOkFirst log) (hjoin : m.isJoinOk = false) (hroom : m.ofRoom = false) :
    JoinOkFirst (log ++ [m]) := by
  intro xs m' ys hlog hroom'
  rcases split_snoc hlog with ⟨-, rfl, -⟩ | ⟨zs, rfl, hsplit⟩
  · rw [hroom] at hroom'
    cases hroom'
  · obtain ⟨hbefore, hafter⟩ := h xs m' zs hsplit hroom'
    refine ⟨hbefore, fun x hx => ?_⟩
    rcases List.mem_append.mp hx with hx | hx
    · exact hafter x hx
    · rw [List.mem_singleton.mp hx]
      exact hjoin

theorem snoc_room (h : JoinOkFirst log) (hjoin : m.isJoinOk = false) (hhas : HasJoinOk log) :
    JoinOkFirst (log ++ [m]) := by
  intro xs m' ys hlog hroom
  rcases split_snoc hlog with ⟨rfl, rfl, rfl⟩ | ⟨zs, rfl, hsplit⟩
  · exact ⟨hhas, fun x hx => absurd hx List.not_mem_nil⟩
  · obtain ⟨hbefore, hafter⟩ := h xs m' zs hsplit hroom
    refine ⟨hbefore, fun x hx => ?_⟩
    rcases List.mem_append.mp hx with hx | hx
    · exact hafter x hx
    · rw [List.mem_singleton.mp hx]
      exact hjoin

theorem snoc_joinOk (h : JoinOkFirst log) (hroom : m.ofRoom = false) (hhas : ¬HasJoinOk log) :
    JoinOkFirst (log ++ [m]) := by
  intro xs m' ys hlog hroom'
  rcases split_snoc hlog with ⟨-, rfl, -⟩ | ⟨zs, rfl, hsplit⟩
  · rw [hroom] at hroom'
    cases hroom'
  · have hmem : m' ∈ log := by
      rw [hsplit]
      exact List.mem_append_right _ List.mem_cons_self
    exact absurd (h.hasJoinOk hmem hroom') hhas

theorem not_snoc_room (hroom : m.ofRoom = true) (hhas : ¬HasJoinOk log) :
    ¬JoinOkFirst (log ++ [m]) := fun h => hhas (h log m [] rfl hroom).1

end JoinOkFirst

theorem HasJoinOk.snoc {log : List Msg} (h : HasJoinOk log) (m : Msg) : HasJoinOk (log ++ [m]) := by
  obtain ⟨m', hm', hjoin⟩ := h
  exact ⟨m', List.mem_append_left _ hm', hjoin⟩

theorem hasJoinOk_snoc {log : List Msg} {m : Msg} (hjoin : m.isJoinOk = false) :
    HasJoinOk (log ++ [m]) ↔ HasJoinOk log := by
  constructor
  · intro h
    obtain ⟨m', hm', hjoin'⟩ := h
    rcases List.mem_append.mp hm' with hm' | hm'
    · exact ⟨m', hm', hjoin'⟩
    · rw [List.mem_singleton.mp hm', hjoin] at hjoin'
      cases hjoin'
  · exact fun h => h.snoc m

/-! ### The reply that is due -/

/-- `Join` has returned, and the session's worker has not queued the JOIN_OK yet. -/
def NetPc.answers (pc : NetPc) (idx : Nat) : Bool :=
  match pc with
  | .joined j _ _ => j == idx
  | _ => false

theorem NetPc.joined_of_answers {pc : NetPc} {idx : Nat} (h : pc.answers idx = true) :
    ∃ actorId roomId, pc = .joined idx actorId roomId := by
  cases pc with
  | joined j actorId roomId =>
    obtain rfl : j = idx := by simpa [answers] using h
    exact ⟨actorId, roomId, rfl⟩
  | _ => cases h

namespace Ledger

/-- The JOIN_OK of a session is the next thing its worker queues. -/
def answering (L : Ledger) (idx : Nat) : Bool := (L.net (L.sess idx).owner).answers idx

structure Still (L L' : Ledger) (j : Nat) : Prop where
  dead : (L'.sess j).dead = (L.sess j).dead
  inRoom : (L'.sess j).inRoom = (L.sess j).inRoom
  owner : (L'.sess j).owner = (L.sess j).owner
  conn : j ∈ L.mySessions (L.sess j).owner → j ∈ L'.mySessions (L'.sess j).owner

/-- What a step does to a session that keeps its slot: it is cut, it gets its room, its worker
replies, or nothing that matters to the reply. -/
inductive Standing (L : Ledger) (a : Actor) (L' : Ledger) (j : Nat) : Prop where
  | cut (hdead : (L'.sess j).dead = true)
  | placed (w r : Nat) (i : Seat) (hlock : L.lock = .store w j r i)
      (hroom : (L'.sess j).inRoom = true) (hconn : j ∈ L'.mySessions (L'.sess j).owner)
      (hanswer : L'.answering j = true)
  | replied (w : Nat) (ha : a = .net w) (hw : (L.net w).answers j = true) (hstill : L.Still L' j)
      (hanswer : L'.answering j = false)
  | same (hstill : L.Still L' j) (hanswer : L'.answering j = L.answering j)

variable {L L' : Ledger} {a : Actor} {j : Nat}

theorem Still.refl (hsess : L'.sess j = L.sess j) (hmine : L'.mySessions = L.mySessions) :
    L.Still L' j where
  dead := by rw [hsess]
  inRoom := by rw [hsess]
  owner := by rw [hsess]
  conn hj := by
    rw [hmine, hsess]
    exact hj

theorem Standing.of_update {i : Nat} {S : SessBook}
    (hsess : L'.sess = Function.update L.sess i S) (hdead : S.dead = (L.sess i).dead)
    (hroom : S.inRoom = (L.sess i).inRoom) (howner : S.owner = (L.sess i).owner)
    (hmine : L'.mySessions = L.mySessions) (hnet : L'.net = L.net) : L.Standing a L' j := by
  have hown : (L'.sess j).owner = (L.sess j).owner := by
    rw [hsess]
    exact sess_update (·.owner) howner j
  refine .same ⟨?_, ?_, hown, ?_⟩ ?_
  · rw [hsess]
    exact sess_update (·.dead) hdead j
  · rw [hsess]
    exact sess_update (·.inRoom) hroom j
  · rw [hmine, hown]
    exact id
  · rw [answering, answering, hnet, hown]

theorem Standing.of_net {w : Nat} {p : NetPc} (hsess : L'.sess j = L.sess j)
    (hstill : L.Still L' j) (hnet : L'.net = Function.update L.net w p)
    (hold : (L.net w).answers j = false) (hnew : p.answers j = false) : L.Standing a L' j := by
  refine .same hstill ?_
  rw [answering, answering, hsess, hnet]
  by_cases hw : (L.sess j).owner = w
  · rw [hw, Function.update_self, hold, hnew]
  · rw [Function.update_of_ne hw]

theorem Trans.standing (ht : L.Trans a L') (hs : Consistent L) (ha : ∀ w, a ≠ .accept w) :
    L.Standing a L' j := by
  have hleaving {w idx : Nat} (hw : (L.net w).leaving = some idx) : (L.sess idx).dead = true := by
    have hconn := hs.refs.net w idx (NetPc.sess_of_leaving hw)
    exact (hs.refs.dead w idx hconn).mpr hw
  cases ht with
  | accept w | refuse w => exact absurd rfl (ha w)
  | toIdle w hw =>
    have hstill : L.Still (L.setNet w .idle) j := .refl rfl rfl
    by_cases hj : (L.net w).answers j = true
    · refine .replied w rfl hj hstill ?_
      obtain ⟨actorId, roomId, hpc⟩ := NetPc.joined_of_answers hj
      have hown := (hs.refs.conns w j (hs.refs.net w j (by rw [hpc]; rfl))).1
      have hidle : (L.setNet w .idle).net (L.sess j).owner = .idle := by
        rw [hown]
        exact Function.update_self ..
      exact congrArg (NetPc.answers · j) hidle
    · exact .of_net rfl hstill rfl (Bool.eq_false_iff.mpr hj) rfl
  | toInput w idx r c hw | toJoin w idx hw | leaveNone w idx hw | noWorkers w idx hw
  | scan w idx hw | leavePush w idx r hw =>
    exact .of_net rfl (.refl rfl rfl) rfl (by rw [hw]; rfl) rfl
  | scanRefuse w idx hlock =>
    have hw := hs.refs.joiner w idx (by rw [hlock]; rfl)
    exact .of_net rfl (.refl rfl rfl) rfl (by rw [hw]; rfl) rfl
  | cut w idx hw =>
    rcases eq_or_ne j idx with rfl | hj
    · refine .cut ?_
      have hself : Function.update L.sess j (L.sess j).cut j = (L.sess j).cut :=
        Function.update_self ..
      exact congrArg SessBook.dead hself
    · have hother : Function.update L.sess idx (L.sess idx).cut j = L.sess j :=
        Function.update_of_ne hj ..
      refine .of_net (p := .leaveRead idx) hother (.refl hother rfl) rfl ?_ rfl
      rcases hw with ⟨hidle, -⟩ | hrefused | ⟨actorId, roomId, hjoined⟩
      · rw [hidle]
        rfl
      · rw [hrefused]
        rfl
      · rw [hjoined]
        exact beq_eq_false_iff_ne.mpr (Ne.symm hj)
  | leaveRead w idx hw =>
    rcases eq_or_ne j idx with rfl | hj
    · refine .cut ?_
      have hself : Function.update L.sess j (L.sess j).left j = (L.sess j).left :=
        Function.update_self ..
      exact (congrArg SessBook.dead hself).trans (hleaving (by rw [hw]; rfl))
    · have hother : Function.update L.sess idx (L.sess idx).left j = L.sess j :=
        Function.update_of_ne hj ..
      exact .of_net hother (.refl hother rfl) rfl (by rw [hw]; rfl) rfl
  | netRelease w idx hw =>
    rcases eq_or_ne j idx with rfl | hj
    · refine .cut ?_
      have hself : Function.update L.sess j (L.sess j).released j = (L.sess j).released :=
        Function.update_self ..
      exact (congrArg SessBook.dead hself).trans (hleaving (by rw [hw]; rfl))
    · have hother : Function.update L.sess idx (L.sess idx).released j = L.sess j :=
        Function.update_of_ne hj ..
      refine .of_net hother ⟨congrArg _ hother, congrArg _ hother, congrArg _ hother, ?_⟩ rfl
        (by rw [hw]; rfl) rfl
      intro hmem
      have hown : (Function.update L.sess idx (L.sess idx).released j).owner = (L.sess j).owner :=
        congrArg _ hother
      refine Eq.mpr (congrArg (fun o => j ∈ Function.update L.mySessions w
        (SwapList.swapRemove (L.mySessions w) idx) o) hown) ?_
      rcases eq_or_ne (L.sess j).owner w with hw' | hw'
      · rw [hw', Function.update_self]
        rw [hw'] at hmem
        exact (SwapList.mem_swapRemove (hs.refs.conns_nodup w)).mpr ⟨hmem, hj⟩
      · rw [Function.update_of_ne hw']
        exact hmem
  | store w idx r i hlock =>
    have hw := hs.refs.joiner w idx (by rw [hlock]; rfl)
    rcases eq_or_ne j idx with rfl | hj
    · have hself : Function.update L.sess j ((L.sess j).placed r i) j = (L.sess j).placed r i :=
        Function.update_self ..
      have hconn := hs.refs.net w j (by rw [hw]; rfl)
      have hown := (hs.refs.conns w j hconn).1
      have hown' : (Function.update L.sess j ((L.sess j).placed r i) j).owner = w :=
        (congrArg SessBook.owner hself).trans hown
      refine .placed w r i hlock (congrArg SessBook.inRoom hself) ?_ ?_
      · exact Eq.mpr (congrArg (fun o => j ∈ L.mySessions o) hown') hconn
      · refine Eq.mpr (congrArg (fun o => (Function.update L.net w (.joined j i.val r) o).answers j
          = true) hown') ?_
        rw [Function.update_self]
        exact beq_self_eq_true j
    · have hother : Function.update L.sess idx ((L.sess idx).placed r i) j = L.sess j :=
        Function.update_of_ne hj ..
      exact .of_net (p := .joined idx i.val r) hother (.refl hother rfl) rfl (by rw [hw]; rfl)
        (beq_eq_false_iff_ne.mpr (Ne.symm hj))
  | push w idx => exact .of_update (i := idx) rfl rfl rfl rfl rfl rfl
  | moveSeat g i old nr seat rest moved joins leaves e
  | carry g i old nr moved e =>
    have hkeeps {β : Type} (f : SessBook → β) (hf : ∀ S r, f { S with roomIdx := r } = f S) :=
      SessBook.moved_keeps f hf (L.sess e.sessIdx) e.sessGen nr
    exact .of_update (i := e.sessIdx) rfl (hkeeps (·.dead) fun _ _ => rfl)
      (hkeeps (·.inRoom) fun _ _ => rfl) (hkeeps (·.owner) fun _ _ => rfl) rfl rfl
  | skipRelease _ _ _ idx | dropRelease _ _ _ idx =>
    exact .of_update (i := idx) rfl rfl rfl rfl rfl rfl
  | _ => exact .same (.refl rfl rfl) rfl

end Ledger

/-! ### The invariant -/

/-- A connected session in a room has its JOIN_OK, or the reply is due. -/
structure Greeted (s : System) : Prop where
  connected : ∀ idx, (s.srv.sess idx).dead = false → (s.srv.sess idx).inRoom = true →
    idx ∈ s.srv.mySessions (s.srv.sess idx).owner
  greeted : ∀ idx, (s.srv.sess idx).dead = false → (s.srv.sess idx).inRoom = true →
    HasJoinOk (s.srv.sess idx).sendQ.log ∨ s.ledger.answering idx = true
  once : ∀ idx, (s.srv.sess idx).dead = false → HasJoinOk (s.srv.sess idx).sendQ.log →
    (s.srv.sess idx).inRoom = true ∧ s.ledger.answering idx = false
  placed : ∀ idx, (s.srv.sess idx).dead = false → s.ledger.answering idx = true →
    (s.srv.sess idx).inRoom = true

theorem dispatch_of_send {st : Server} {idx : Nat} {remainUs : UInt32} {msg : ClientMsg} {m : Msg}
    (h : st.dispatch idx remainUs msg = .send m) : m.ofRoom = false ∧ m.isJoinOk = false := by
  cases msg <;> simp only [Server.dispatch] at h
  · cases h
    exact ⟨rfl, rfl⟩
  · split at h
    · cases h
      exact ⟨rfl, rfl⟩
    · split at h <;> cases h
      exact ⟨rfl, rfl⟩
  · split at h <;> cases h
  · split at h <;> cases h <;> exact ⟨rfl, rfl⟩
  · cases h

namespace System

variable {s t : System} {a : Act} {idx : Nat} {m m' : Msg}

/-- JOIN_OK is what a worker says that owes the session this reply. -/
theorem Says.joinOk_iff (hm : s.Says a idx m) :
    m.isJoinOk = true ↔ ∃ w, a = .net w ∧ (s.net w).answers idx = true := by
  cases hm with
  | reply w _ f remainUs _ _ hd =>
    rw [(dispatch_of_send hd).2]
    simp
  | joined w _ actorId roomId hw =>
    refine ⟨fun _ => ⟨w, rfl, ?_⟩, fun _ => rfl⟩
    rw [hw]
    exact beq_self_eq_true idx
  | refused w _ hw =>
    constructor
    · exact nofun
    · rintro ⟨w', ⟨⟩, hanswers⟩
      rw [hw] at hanswers
      cases hanswers
  | snapshot | event =>
    constructor
    · exact nofun
    · rintro ⟨w, ⟨⟩, -⟩

theorem Says.live (hm : s.Says a idx m) (hroom : m.ofRoom = true) :
    ∃ r i, s.srv.live r i = true ∧ ((s.srv.rooms r).members i).sessIdx = idx := by
  cases hm with
  | reply w _ f remainUs _ _ hd =>
    rw [(dispatch_of_send hd).1] at hroom
    cases hroom
  | joined | refused => cases hroom
  | snapshot g k r i hg hr hlive => exact ⟨r, i, hlive, rfl⟩
  | event g nr i hg hlive => exact ⟨nr, i, hlive, rfl⟩

/-- Game workers say what rooms have to say, epoll workers everything else. -/
theorem Says.ofRoom_iff (hm : s.Says a idx m) : m.ofRoom = true ↔ ∃ g, a.actor = .game g := by
  cases hm with
  | reply w _ f remainUs _ _ hd =>
    rw [(dispatch_of_send hd).1]
    simp [Act.actor]
  | joined | refused =>
    constructor
    · exact nofun
    · rintro ⟨g, ⟨⟩⟩
  | snapshot g | event g => exact ⟨fun _ => ⟨g, rfl⟩, fun _ => rfl⟩

theorem Says.not_free (hm : s.Says a idx m) (hs : Consistent s.ledger) (hroom : m.ofRoom = true) :
    idx ∉ s.srv.pool.free := by
  obtain ⟨r, i, hlive, rfl⟩ := hm.live hroom
  exact not_free_of_seated hs (Server.used_of_live hlive)

theorem standing_step (hs : Consistent s.ledger) (h : step a s = some t) (idx : Nat) :
    (∃ w fd recvOk sendOk ctlOk, a = .accept w fd recvOk sendOk ctlOk) ∨
      s.ledger.Standing a.actor t.ledger idx := by
  by_cases ha : ∃ w, a.actor = .accept w
  · left
    obtain ⟨w, ha⟩ := ha
    cases a with
    | accept w fd recvOk sendOk ctlOk => exact ⟨w, fd, recvOk, sendOk, ctlOk, rfl⟩
    | _ => cases ha
  · right
    rcases s.trans_of_step h with hsame | htrans
    · rw [hsame]
      exact .same (.refl rfl rfl) rfl
    · exact htrans.standing hs fun w hw => ha ⟨w, hw⟩

theorem joiner_fresh (hs : Consistent s.ledger) {w r : Nat} {i : Seat}
    (hlock : s.lock = .store w idx r i) :
    s.net w = .inJoin idx ∧ idx ∈ s.srv.mySessions w ∧ (s.srv.sess idx).dead = false ∧
      (s.srv.sess idx).inRoom = false := by
  have hpc : s.net w = .inJoin idx := by
    apply hs.refs.joiner w idx
    exact congrArg LockPc.joiner hlock
  have hmine : idx ∈ s.srv.mySessions w := by
    apply hs.refs.net w idx
    exact congrArg NetPc.sess hpc
  refine ⟨hpc, hmine, Bool.eq_false_iff.mpr fun hcut => ?_, ?_⟩
  · have hleaving : (s.net w).leaving = some idx := (hs.refs.dead w idx hmine).mp hcut
    rw [hpc] at hleaving
    cases hleaving
  · apply hs.refs.unplaced w idx
    exact congrArg NetPc.unplaced hpc

theorem net_of_answers {w : Nat} (h : step a s = some t) (ha : a.actor = .net w)
    (hw : (s.net w).answers idx = true) : a = .net w := by
  have hbusy : s.net w ≠ .idle := by
    intro hidle
    rw [hidle] at hw
    cases hw
  have hhandles (j : Nat) : s.handles w j = false := by
    apply Bool.eq_false_iff.mpr
    exact fun htrue => hbusy (handles_iff.mp htrue).1
  cases a with
  | net w' =>
    cases ha
    rfl
  | frame w' j f remainUs =>
    cases ha
    simp [step, hhandles] at h
  | disconnect w' j =>
    cases ha
    simp [step, hhandles] at h
  | flush w' j n =>
    cases ha
    simp [step, hhandles] at h
  | _ => cases ha

theorem send_net (s : System) (w idx : Nat) (m : Msg) :
    ((s.srv.enqueue idx m).isSome = true ∧ (s.send w idx m).net w = .idle) ∨
      ((s.send w idx m).net w = .leaveRead idx ∧ ((s.send w idx m).srv.sess idx).dead = true) := by
  unfold send
  cases hm : s.srv.enqueue idx m with
  | some st => exact Or.inl ⟨rfl, Function.update_self ..⟩
  | none =>
    refine Or.inr ⟨Function.update_self .., ?_⟩
    exact congrArg Session.dead (Server.sess_modSession_self s.srv.countFull idx _)

theorem reply_step (hs : Consistent s.ledger) {w actorId roomId : Nat}
    (h : step (.net w) s = some t) (hw : s.net w = .joined idx actorId roomId)
    (hfree : idx ∉ s.srv.pool.free) :
    ((s.srv.enqueue idx (.joinOk actorId roomId 0)).isSome = true ∧ t.net w = .idle ∧
      (t.srv.sess idx).sendQ.log = (s.srv.sess idx).sendQ.log ++ [.joinOk actorId roomId 0]) ∨
    (t.srv.sess idx).dead = true := by
  have hwanted : s.Says (.net w) idx (.joinOk actorId roomId 0) := .joined w idx actorId roomId hw
  have hsend : t = s.send w idx (.joinOk actorId roomId 0) := by
    simp only [step, netStep, hw] at h
    cases h
    rfl
  have hnet := s.send_net w idx (.joinOk actorId roomId 0)
  rw [← hsend] at hnet
  rcases hnet with ⟨hfit, hidle⟩ | ⟨-, hcut⟩
  · refine Or.inl ⟨hfit, hidle, ?_⟩
    rcases log_step hs h idx with ⟨-, hslot⟩ | ⟨hfull, -⟩ | ⟨m, hm, -, hlog⟩
    · exact absurd hslot hfree
    · rw [hfull _ hwanted] at hfit
      cases hfit
    · cases hm with
      | joined _ _ _ _ hw' =>
        cases hw.symm.trans hw'
        exact hlog
      | refused _ _ hw' => cases hw.symm.trans hw'
  · exact Or.inr hcut

end System

namespace Greeted

variable {s t : System} {a : Act} {idx : Nat}

theorem free (h : Greeted s) (hs : Consistent s.ledger) (hfree : idx ∈ s.srv.pool.free) :
    (∀ w, idx ∉ s.srv.mySessions w) ∧
      ¬((s.srv.sess idx).dead = false ∧ (s.srv.sess idx).inRoom = true) := by
  have hrefs := hs.refs.refs idx
  rw [(hs.refs.mem_free.mp hfree).2] at hrefs
  have hnone (w : Nat) : idx ∉ s.srv.mySessions w := by
    intro hw
    have hown : s.ledger.ownRef idx = 0 := by omega
    have hone : s.ledger.ownRef idx = 1 := by
      rw [Ledger.ownRef, (hs.refs.conns w idx hw).1]
      exact if_pos hw
    omega
  exact ⟨hnone, fun hlive => hnone _ (h.connected idx hlive.1 hlive.2)⟩

theorem accept_sess (st : Server) (w : Nat) (fd : Int) (recvOk sendOk ctlOk : Bool) (idx : Nat) :
    (((st.accept w fd recvOk sendOk ctlOk).sess idx).book = (st.sess idx).book ∨
      ((st.accept w fd recvOk sendOk ctlOk).sess idx).inRoom = false) ∧
    ∀ w', idx ∈ st.mySessions w' → idx ∈ (st.accept w fd recvOk sendOk ctlOk).mySessions w' := by
  rcases st.books_accept w fd recvOk sendOk ctlOk with hb | ⟨j, -, hb | hb⟩
  · exact ⟨Or.inl (congrArg (fun b : Books => b.sess idx) hb), fun w' hw' => by
      rw [show (st.accept w fd recvOk sendOk ctlOk).mySessions = st.mySessions from
        congrArg Books.mySessions hb]
      exact hw'⟩
  · have hsess := congrArg (fun b : Books => b.sess idx) hb
    have hmine : (st.accept w fd recvOk sendOk ctlOk).mySessions =
        Function.update st.mySessions w (st.mySessions w ++ [j]) := congrArg Books.mySessions hb
    constructor
    · rcases eq_or_ne idx j with rfl | hj
      · right
        have hself : Function.update st.books.sess idx ((st.books.sess idx).opened w) idx =
            (st.books.sess idx).opened w := Function.update_self ..
        exact congrArg SessBook.inRoom (hsess.trans hself)
      · left
        exact hsess.trans (Function.update_of_ne hj ..)
    · intro w' hw'
      rw [hmine]
      rcases eq_or_ne w' w with rfl | hne
      · rw [Function.update_self]
        exact List.mem_append_left _ hw'
      · rw [Function.update_of_ne hne]
        exact hw'
  · have hsess := congrArg (fun b : Books => b.sess idx) hb
    have hmine : (st.accept w fd recvOk sendOk ctlOk).mySessions = st.mySessions :=
      congrArg Books.mySessions hb
    constructor
    · rcases eq_or_ne idx j with rfl | hj
      · right
        have hself : Function.update st.books.sess idx ((st.books.sess idx).refused w) idx =
            (st.books.sess idx).refused w := Function.update_self ..
        exact congrArg SessBook.inRoom (hsess.trans hself)
      · left
        exact hsess.trans (Function.update_of_ne hj ..)
    · intro w' hw'
      rw [hmine]
      exact hw'

structure At (s : System) (idx : Nat) : Prop where
  connected : (s.srv.sess idx).inRoom = true → idx ∈ s.srv.mySessions (s.srv.sess idx).owner
  greeted : (s.srv.sess idx).inRoom = true →
    HasJoinOk (s.srv.sess idx).sendQ.log ∨ s.ledger.answering idx = true
  once : HasJoinOk (s.srv.sess idx).sendQ.log →
    (s.srv.sess idx).inRoom = true ∧ s.ledger.answering idx = false
  placed : s.ledger.answering idx = true → (s.srv.sess idx).inRoom = true

theorem of_at (h : ∀ idx, (s.srv.sess idx).dead = false → At s idx) : Greeted s where
  connected idx hdead := (h idx hdead).connected
  greeted idx hdead := (h idx hdead).greeted
  once idx hdead := (h idx hdead).once
  placed idx hdead := (h idx hdead).placed

theorem at_sess (h : Greeted s) (hdead : (s.srv.sess idx).dead = false) : At s idx :=
  ⟨h.connected idx hdead, h.greeted idx hdead, h.once idx hdead, h.placed idx hdead⟩

theorem not_hasJoinOk_nil : ¬HasJoinOk [] := by
  intro h
  obtain ⟨m, hm, -⟩ := h
  exact List.not_mem_nil hm

theorem answering_of_answers (hs : Consistent s.ledger) {w : Nat}
    (hw : (s.net w).answers idx = true) :
    (s.srv.sess idx).owner = w ∧ idx ∈ s.srv.mySessions w ∧ s.ledger.answering idx = true := by
  obtain ⟨actorId, roomId, hpc⟩ := NetPc.joined_of_answers hw
  have hmem := hs.refs.net w idx (show (s.net w).sess = some idx by rw [hpc]; rfl)
  have hown : (s.srv.sess idx).owner = w := (hs.refs.conns w idx hmem).1
  refine ⟨hown, hmem, ?_⟩
  have hpc' : s.ledger.net (s.ledger.sess idx).owner = .joined idx actorId roomId :=
    (congrArg s.net hown).trans hpc
  rw [Ledger.answering, hpc']
  exact beq_self_eq_true idx

theorem step_accept (h : Greeted s) (hs : Consistent s.ledger) {w : Nat} {fd : Int}
    {recvOk sendOk ctlOk : Bool} (ht : System.step (.accept w fd recvOk sendOk ctlOk) s = some t)
    (hdead : (t.srv.sess idx).dead = false) : At t idx := by
  obtain ⟨hsrv, hnet⟩ : t.srv = s.srv.accept w fd recvOk sendOk ctlOk ∧ t.net = s.net := by
    simp only [System.step] at ht
    split at ht <;> cases ht
    exact ⟨rfl, rfl⟩
  have hanswering : t.ledger.answering idx = (s.net (t.srv.sess idx).owner).answers idx :=
    congrArg (fun net : Nat → NetPc => (net (t.srv.sess idx).owner).answers idx) hnet
  obtain ⟨hsess, hmine⟩ := accept_sess s.srv w fd recvOk sendOk ctlOk idx
  have hlog := s.srv.accept_log w fd recvOk sendOk ctlOk idx
  rw [← hsrv] at hsess hmine hlog
  rcases hlog with ⟨hnil, hfree⟩ | ⟨hlog, hbook⟩
  · -- a free slot: no worker has to do with it, before or after
    obtain ⟨hnone, hnoroom⟩ := h.free hs hfree
    have hout : (t.srv.sess idx).inRoom = false := by
      rcases hsess with hbook | hout
      · have hdead' := (congrArg SessBook.dead hbook).symm.trans hdead
        have hroom := congrArg SessBook.inRoom hbook
        apply Bool.eq_false_iff.mpr
        intro htrue
        exact hnoroom ⟨hdead', hroom.symm.trans htrue⟩
      · exact hout
    have hquiet : t.ledger.answering idx = false := by
      rw [hanswering]
      apply Bool.eq_false_iff.mpr
      intro hanswers
      exact hnone _ (answering_of_answers hs hanswers).2.1
    refine ⟨fun hin => ?_, fun hin => ?_, fun hjoin => ?_, fun hanswer => ?_⟩
    · rw [hout] at hin
      cases hin
    · rw [hout] at hin
      cases hin
    · rw [hnil] at hjoin
      exact absurd hjoin not_hasJoinOk_nil
    · rw [hquiet] at hanswer
      cases hanswer
  · have hdead' : (s.srv.sess idx).dead = false := (congrArg SessBook.dead hbook).symm.trans hdead
    have hold := h.at_sess hdead'
    have hroom : (t.srv.sess idx).inRoom = (s.srv.sess idx).inRoom := congrArg SessBook.inRoom hbook
    have hown : (t.srv.sess idx).owner = (s.srv.sess idx).owner := congrArg SessBook.owner hbook
    have hsame : t.ledger.answering idx = s.ledger.answering idx := by
      rw [hanswering, hown]
      rfl
    refine ⟨?_, ?_, ?_, ?_⟩
    · rw [hroom, hown]
      exact fun hin => hmine _ (hold.connected hin)
    · rw [hroom, hlog, hsame]
      exact hold.greeted
    · rw [hroom, hlog, hsame]
      exact hold.once
    · rw [hroom, hsame]
      exact hold.placed

/-- The log has a JOIN_OK when it had one, or the session's worker has just replied. -/
theorem log_cases (h : Greeted s) (hs : Consistent s.ledger) (ht : System.step a s = some t)
    (hdead : (t.srv.sess idx).dead = false) :
    ((HasJoinOk (t.srv.sess idx).sendQ.log → HasJoinOk (s.srv.sess idx).sendQ.log) ∧
      (idx ∉ s.srv.pool.free → HasJoinOk (s.srv.sess idx).sendQ.log →
        HasJoinOk (t.srv.sess idx).sendQ.log) ∧ ∀ w, a = .net w → (s.net w).answers idx = false) ∨
    (HasJoinOk (t.srv.sess idx).sendQ.log ∧
      ∃ w, a = .net w ∧ (s.net w).answers idx = true ∧ t.net w = .idle) := by
  by_cases hreply : ∃ w, a = .net w ∧ (s.net w).answers idx = true
  · right
    obtain ⟨w, rfl, hanswers⟩ := hreply
    obtain ⟨actorId, roomId, hw⟩ := NetPc.joined_of_answers hanswers
    have hfree : idx ∉ s.srv.pool.free := fun hslot =>
      (h.free hs hslot).1 w (answering_of_answers hs hanswers).2.1
    rcases System.reply_step hs ht hw hfree with ⟨-, hidle, hlog⟩ | hcut
    · refine ⟨?_, w, rfl, hanswers, hidle⟩
      rw [hlog]
      exact ⟨_, List.mem_append_right _ (List.mem_singleton.mpr rfl), rfl⟩
    · rw [hcut] at hdead
      cases hdead
  · left
    have hquiet (w : Nat) (hw : a = .net w) : (s.net w).answers idx = false := by
      apply Bool.eq_false_iff.mpr
      exact fun hanswers => hreply ⟨w, hw, hanswers⟩
    rcases System.log_step hs ht idx with ⟨hnil, hslot⟩ | ⟨-, hlog⟩ | ⟨m, hm, -, hlog⟩
    · rw [hnil]
      exact ⟨fun hjoin => absurd hjoin not_hasJoinOk_nil, fun hfree => absurd hslot hfree, hquiet⟩
    · rw [hlog]
      exact ⟨id, fun _ => id, hquiet⟩
    · have hother : m.isJoinOk = false := by
        apply Bool.eq_false_iff.mpr
        exact fun hjoin => hreply (hm.joinOk_iff.mp hjoin)
      rw [hlog, hasJoinOk_snoc hother]
      exact ⟨id, fun _ => id, hquiet⟩

theorem step (h : Greeted s) (hs : Consistent s.ledger) (ht : System.step a s = some t) :
    Greeted t := by
  refine of_at fun idx hdead => ?_
  rcases System.standing_step hs ht idx with ⟨w, fd, recvOk, sendOk, ctlOk, rfl⟩ | hstanding
  · exact h.step_accept hs ht hdead
  cases hstanding with
  | cut hcut =>
    have hcut' : (t.srv.sess idx).dead = true := hcut
    rw [hcut'] at hdead
    cases hdead
  | placed w r i hlock hroom hconn hanswer =>
    -- the session had no room, so no JOIN_OK either
    obtain ⟨hpc, hmine, hlive, hout⟩ := System.joiner_fresh hs hlock
    have hnone : ¬HasJoinOk (s.srv.sess idx).sendQ.log := by
      intro hjoin
      have hin := (h.once idx hlive hjoin).1
      rw [hout] at hin
      cases hin
    refine ⟨fun _ => hconn, fun _ => Or.inr hanswer, fun hjoin => ?_, fun _ => hroom⟩
    exfalso
    rcases h.log_cases hs ht hdead with ⟨hsame, -⟩ | ⟨-, w', -, hanswers, -⟩
    · exact hnone (hsame hjoin)
    · have hown := (answering_of_answers hs hanswers).1
      rw [(hs.refs.conns w idx hmine).1.symm.trans hown] at hpc
      rw [hpc] at hanswers
      cases hanswers
  | replied w ha hw hstill hanswer =>
    obtain ⟨hown, hmine, hansw⟩ := answering_of_answers hs hw
    have hlive : (s.srv.sess idx).dead = false := hstill.dead.symm.trans hdead
    have hold := h.at_sess hlive
    have hin : (t.srv.sess idx).inRoom = true := hstill.inRoom.trans (hold.placed hansw)
    have hnet : a = .net w := System.net_of_answers ht ha hw
    have hjoin : HasJoinOk (t.srv.sess idx).sendQ.log := by
      rcases h.log_cases hs ht hdead with ⟨-, -, hquiet⟩ | ⟨hjoin, -⟩
      · have hno := hquiet w hnet
        rw [show (s.net w).answers idx = true from hw] at hno
        cases hno
      · exact hjoin
    refine ⟨fun _ => ?_, fun _ => Or.inl hjoin, fun _ => ⟨hin, hanswer⟩, fun htrue => ?_⟩
    · exact hstill.conn (hold.connected (hold.placed hansw))
    · rw [hanswer] at htrue
      cases htrue
  | same hstill hanswer =>
    have hlive : (s.srv.sess idx).dead = false := hstill.dead.symm.trans hdead
    have hold := h.at_sess hlive
    have hroom : (t.srv.sess idx).inRoom = (s.srv.sess idx).inRoom := hstill.inRoom
    rcases h.log_cases hs ht hdead with ⟨hback, hkept, -⟩ | ⟨-, w, -, hanswers, hidle⟩
    · refine ⟨fun hin => ?_, fun hin => ?_, fun hjoin => ?_, fun htrue => ?_⟩
      · exact hstill.conn (hold.connected (hroom.symm.trans hin))
      · have hin' := hroom.symm.trans hin
        rw [hanswer]
        refine (hold.greeted hin').imp (hkept fun hslot => ?_) id
        exact (h.free hs hslot).2 ⟨hlive, hin'⟩
      · rw [hroom, hanswer]
        exact hold.once (hback hjoin)
      · rw [hroom]
        exact hold.placed (hanswer.symm.trans htrue)
    · -- the reply is sent, so it is not due any more
      obtain ⟨hown, -, hansw⟩ := answering_of_answers hs hanswers
      have hown' : (t.srv.sess idx).owner = w := hstill.owner.trans hown
      have hidle' : t.ledger.net (t.ledger.sess idx).owner = .idle := by
        exact (congrArg t.net hown').trans hidle
      rw [hansw, Ledger.answering, hidle'] at hanswer
      cases hanswer

theorem init (sessionCapacity roomCapacity workerCount : Nat) :
    Greeted (System.init sessionCapacity roomCapacity workerCount) := by
  refine of_at fun idx _ => ⟨nofun, nofun, fun hjoin => ?_, nofun⟩
  exact absurd hjoin not_hasJoinOk_nil

theorem run {ok : Act → System → Prop} {sessionCapacity roomCapacity workerCount : Nat}
    (h : Reach System.step ok (System.init sessionCapacity roomCapacity workerCount) s) :
    Greeted s := by
  refine h.invariant (P := Greeted) (init ..) fun s a t hreach hg _ ht => ?_
  exact hg.step (System.consistent hreach) ht

end Greeted

/-! ### Runs in which every reply comes in time -/

/-- `Join` has pushed the entry of the session and is about to store its place. -/
def LockPc.stores (pc : LockPc) (idx : Nat) : Bool :=
  match pc with
  | .store _ j _ _ => j == idx
  | _ => false

theorem LockPc.store_of_stores {pc : LockPc} {idx : Nat} (h : pc.stores idx = true) :
    ∃ w r i, pc = .store w idx r i := by
  cases pc with
  | store w j r i =>
    obtain rfl : j = idx := by simpa [stores] using h
    exact ⟨w, r, i, rfl⟩
  | _ => cases h

namespace System

/-- The session waits in a room's queue or is seated, and its JOIN_OK is not queued yet. -/
def replyDue (s : System) (idx : Nat) : Bool :=
  (s.net (s.srv.sess idx).owner).answers idx || s.lock.stores idx

/-- The step says nothing about a room to a session whose JOIN_OK is still due, or the session's
ring has no space for it. -/
def Prompt (a : Act) (s : System) : Prop :=
  ∀ idx m, s.Says a idx m → m.ofRoom = true → s.replyDue idx = true → s.srv.enqueue idx m = none

variable {s t : System} {a : Act} {idx : Nat} {m : Msg}

theorem dead_of_live {r : Nat} {i : Seat} (h : s.srv.live r i = true) :
    (s.srv.sess ((s.srv.rooms r).members i).sessIdx).dead = false := by
  simp only [Server.live, Bool.and_eq_true, Bool.not_eq_true'] at h
  exact h.2

theorem no_joinOk_of_due (hg : Greeted s) (hs : Consistent s.ledger)
    (hdead : (s.srv.sess idx).dead = false) (hdue : s.replyDue idx = true) :
    ¬HasJoinOk (s.srv.sess idx).sendQ.log := by
  intro hjoin
  obtain ⟨hin, hanswer⟩ := hg.once idx hdead hjoin
  rcases Bool.or_eq_true_iff.mp hdue with hanswers | hstores
  · rw [Ledger.answering] at hanswer
    exact absurd (hanswers.symm.trans hanswer) (by decide)
  · obtain ⟨w, r, i, hlock⟩ := LockPc.store_of_stores hstores
    rw [(joiner_fresh hs hlock).2.2.2] at hin
    cases hin

theorem hasJoinOk_of_live (hg : Greeted s) (hs : Consistent s.ledger) {r : Nat} {i : Seat}
    (hlive : s.srv.live r i = true)
    (hdue : s.replyDue ((s.srv.rooms r).members i).sessIdx = false) :
    HasJoinOk (s.srv.sess ((s.srv.rooms r).members i).sessIdx).sendQ.log := by
  obtain ⟨hanswers, hstores⟩ := Bool.or_eq_false_iff.mp hdue
  have hdead := dead_of_live hlive
  rcases placed_of_used hs (Server.used_of_live hlive) with hin | hcut | ⟨r', i', hstoring⟩
  · rcases hg.greeted _ hdead hin with hjoin | hanswer
    · exact hjoin
    · exact absurd (hanswer.symm.trans hanswers) (by decide)
  · exact absurd (hcut.symm.trans hdead) (by decide)
  · have hstoring' : s.lock.storing = some (((s.srv.rooms r).members i).sessIdx, r', i') := hstoring
    cases hl : s.lock <;> rw [hl] at hstoring' hstores <;> cases hstoring'
    simp [LockPc.stores] at hstores

theorem first_step (hg : Greeted s) (hs : Consistent s.ledger)
    (hfirst : JoinOkFirst (s.srv.sess idx).sendQ.log) (hok : Prompt a s)
    (ht : step a s = some t) : JoinOkFirst (t.srv.sess idx).sendQ.log := by
  rcases log_step hs ht idx with ⟨hnil, -⟩ | ⟨-, hlog⟩ | ⟨m, hm, hfit, hlog⟩
  · rw [hnil]
    exact .nil
  · rw [hlog]
    exact hfirst
  · rw [hlog]
    cases hjoin : m.isJoinOk with
    | true =>
      obtain ⟨w, rfl, hanswers⟩ := hm.joinOk_iff.mp hjoin
      obtain ⟨hown, hmine, hanswer⟩ := Greeted.answering_of_answers hs hanswers
      refine hfirst.snoc_joinOk ?_ ?_
      · cases m with
        | joinOk => rfl
        | _ => cases hjoin
      · refine no_joinOk_of_due hg hs ?_ (Bool.or_eq_true_iff.mpr (Or.inl hanswer))
        apply Bool.eq_false_iff.mpr
        intro hcut
        have hleaving : (s.net w).leaving = some idx := (hs.refs.dead w idx hmine).mp hcut
        obtain ⟨actorId, roomId, hpc⟩ := NetPc.joined_of_answers hanswers
        rw [hpc] at hleaving
        cases hleaving
    | false =>
      cases hroom : m.ofRoom with
      | false => exact hfirst.snoc_other hjoin hroom
      | true =>
        refine hfirst.snoc_room hjoin ?_
        have hdue : s.replyDue idx = false := by
          apply Bool.eq_false_iff.mpr
          intro hdue
          rw [hok idx m hm hroom hdue] at hfit
          cases hfit
        obtain ⟨r, i, hlive, rfl⟩ := hm.live hroom
        exact hasJoinOk_of_live hg hs hlive hdue

/-- A step that is not prompt puts a room's message in front of the JOIN_OK. -/
theorem first_broken (hg : Greeted s) (hs : Consistent s.ledger) (ht : step a s = some t)
    (hnot : ¬Prompt a s) : ∃ idx, ¬JoinOkFirst (t.srv.sess idx).sendQ.log := by
  simp only [Prompt, not_forall] at hnot
  obtain ⟨idx, m, hm, hroom, hdue, hfit⟩ := hnot
  refine ⟨idx, ?_⟩
  obtain ⟨r, i, hlive, hidx⟩ := hm.live hroom
  have hdead : (s.srv.sess idx).dead = false := hidx ▸ dead_of_live hlive
  rcases log_step hs ht idx with ⟨-, hfree⟩ | ⟨hfull, -⟩ | ⟨m', hm', -, hlog⟩
  · exact absurd hfree (hm.not_free hs hroom)
  · exact absurd (hfull m hm) hfit
  · rw [hlog]
    refine JoinOkFirst.not_snoc_room ?_ (no_joinOk_of_due hg hs hdead hdue)
    exact hm'.ofRoom_iff.mpr (hm.ofRoom_iff.mp hroom)

end System

/-- In a run of prompt steps every JOIN_OK comes first, and a step that is not prompt is the first
to break this. -/
theorem join_ok_first {sessionCapacity roomCapacity workerCount : Nat} {s : System}
    (h : Reach System.step System.Prompt (System.init sessionCapacity roomCapacity workerCount) s) :
    (∀ idx, JoinOkFirst (s.srv.sess idx).sendQ.log) ∧
      ∀ a t, System.step a s = some t →
        (System.Prompt a s ↔ ∀ idx, JoinOkFirst (t.srv.sess idx).sendQ.log) := by
  have hfirst : ∀ idx, JoinOkFirst (s.srv.sess idx).sendQ.log := by
    refine h.invariant (P := fun s => ∀ idx, JoinOkFirst (s.srv.sess idx).sendQ.log)
      (fun idx => .nil) fun s a t hreach hfirst hok ht idx => ?_
    exact System.first_step (Greeted.run hreach) (System.consistent hreach) (hfirst idx) hok ht
  refine ⟨hfirst, fun a t ht => ⟨fun hok idx => ?_, fun hall => ?_⟩⟩
  · exact System.first_step (Greeted.run h) (System.consistent h) (hfirst idx) hok ht
  · by_contra hnot
    obtain ⟨idx, hbroken⟩ := System.first_broken (Greeted.run h) (System.consistent h) ht hnot
    exact hbroken (hall idx)

/-- No member of the room that ticks or has moved waits for its JOIN_OK. -/
def System.prompts (a : Act) (s : System) : Bool :=
  let answered (r : Nat) : Bool :=
    (List.finRange 4).all fun i => !s.replyDue ((s.srv.rooms r).members i).sessIdx
  match a with
  | .tick g k => (s.srv.myRooms g)[k]?.all answered
  | .game g =>
    match s.game g with
    | .announce nr => answered nr
    | _ => true
  | _ => true

theorem System.prompts_sound (a : Act) (s : System) (h : prompts a s = true) : Prompt a s := by
  have hno {r : Nat} (hall : ((List.finRange 4).all fun i =>
      !s.replyDue ((s.srv.rooms r).members i).sessIdx) = true) (i : Seat) :
      s.replyDue ((s.srv.rooms r).members i).sessIdx = false := by
    have hi := List.all_eq_true.mp hall i (List.mem_finRange i)
    simpa using hi
  intro idx m hm hroom hdue
  cases hm with
  | reply w _ f remainUs _ _ hd =>
    rw [(dispatch_of_send hd).1] at hroom
    cases hroom
  | joined | refused => cases hroom
  | snapshot g k r i hg hr hlive =>
    simp only [prompts, hr, Option.all_some] at h
    rw [hno h i] at hdue
    cases hdue
  | event g nr i hg hlive =>
    simp only [prompts, hg] at h
    rw [hno h i] at hdue
    cases hdue

/-- The player of `playing` gets its first snapshot. -/
theorem join_ok_first_playing : ∃ s,
    runIf System.step System.prompts (playing ++ List.replicate 3 (.tick 0 0)) (System.init 1 1 1) =
      some s ∧
    (s.srv.sess 0).sendQ.log.map Msg.ofRoom = [false, true] ∧
    JoinOkFirst (s.srv.sess 0).sendQ.log := by
  have hrun : (runIf System.step System.prompts (playing ++ List.replicate 3 (.tick 0 0))
      (System.init 1 1 1)).map (fun s => (s.srv.sess 0).sendQ.log.map Msg.ofRoom) =
      some [false, true] := by decide +kernel
  obtain ⟨s, hs, hlog⟩ := Option.map_eq_some_iff.mp hrun
  exact ⟨s, hs, hlog, (join_ok_first (reach_of_runIf System.prompts_sound hs)).1 0⟩

/-- The room is processed and ticks three times before the worker that joined the session queues
its JOIN_OK. -/
def lateReply : List Act :=
  [.accept 0 5 true true true, .frame 0 0 [6, 0, 10, 0, 1, 0] 0, .net 0, .lock, .lock, .lock, .lock,
    .lock, .drain 0, .process 0 0, .game 0, .game 0, .game 0, .tick 0 0, .tick 0 0, .tick 0 0, .net 0]

theorem snapshot_before_joinOk : ∃ s, run System.step lateReply (System.init 1 1 1) = some s ∧
    (s.srv.sess 0).sendQ.log.map Msg.isJoinOk = [false, true] ∧
    ¬JoinOkFirst (s.srv.sess 0).sendQ.log := by
  have hrun : (run System.step lateReply (System.init 1 1 1)).map (fun s =>
      ((s.srv.sess 0).sendQ.log.map Msg.ofRoom, (s.srv.sess 0).sendQ.log.map Msg.isJoinOk)) =
      some ([true, false], [false, true]) := by decide +kernel
  obtain ⟨s, hs, hlogs⟩ := Option.map_eq_some_iff.mp hrun
  simp only [Prod.mk.injEq] at hlogs
  refine ⟨s, hs, hlogs.2, fun hfirst => ?_⟩
  obtain ⟨m, ms, hlog, hroom, -⟩ := List.map_eq_cons_iff.mp hlogs.1
  obtain ⟨⟨m', hm', -⟩, -⟩ := hfirst [] m ms hlog hroom
  exact List.not_mem_nil hm'

end BeltServer
