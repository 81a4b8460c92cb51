import BeltServer.Consistent

/-!
# Serial runs are interleaved runs

Each serial operation is a run of the interleaved machine in which nobody else moves, so
every state reached by serial operations is a reachable state of that machine, between
two operations of each worker.
-/

namespace BeltServer

set_option autoImplicit false

open Runs

namespace System

/-- Every action but an accept. -/
def Quiet : Act → System → Prop
  | .accept .., _ => False
  | _, _ => True

/-- The machine can get from one state to the other without an accept. -/
abbrev Leads (s t : System) : Prop := Reach System.step Quiet s t

theorem leads_net {s t : System} {w : Nat} (h : s.netStep w = some t) : Leads s t :=
  .single (a := .net w) trivial h

theorem leads_lock {s t : System} (h : s.lockStep = some t) : Leads s t :=
  .single (a := .lock) trivial h

theorem leads_game {s t : System} {g : Nat} (h : s.gameStep g = some t) : Leads s t :=
  .single (a := .game g) trivial h

@[simp] theorem setNet_self (s : System) (w : Nat) (pc : NetPc) : (s.setNet w pc).net w = pc :=
  Function.update_self ..

theorem setNet_idle {s : System} {w : Nat} {pc : NetPc} (h : s.net w = pc) : s.setNet w pc = s := by
  subst h
  simp [setNet]

@[simp] theorem setGame_self (s : System) (g : Nat) (pc : GamePc) : (s.setGame g pc).game g = pc :=
  Function.update_self ..

theorem setGame_idle {s : System} {g : Nat} {pc : GamePc} (h : s.game g = pc) :
    s.setGame g pc = s := by
  subst h
  simp [setGame]

/-! ### Disconnect and SendBytes -/

theorem leads_disconnect (s : System) (w idx : Nat) :
    Leads (s.cut w idx)
      ({ s with srv := ((s.srv.cut idx).onSessionLeave idx).dropNetRef w idx }.setNet w .idle) := by
  have hrelease (st : Server) : Leads ({ s with srv := st }.setNet w (.release idx))
      ({ s with srv := st.dropNetRef w idx }.setNet w .idle) :=
    leads_net (w := w) (by simp [netStep, setNet])
  cases hread : (s.srv.cut idx).leaveRead idx with
  | mk st o =>
    cases o with
    | none =>
      have hleave : (s.srv.cut idx).onSessionLeave idx = st := by
        simp only [Server.onSessionLeave, hread]
      rw [hleave]
      refine .trans (leads_net (w := w) ?_) (hrelease st)
      simp [netStep, cut, setNet, hread]
    | some r =>
      have hleave : (s.srv.cut idx).onSessionLeave idx = st.leavePush r idx := by
        simp only [Server.onSessionLeave, hread]
      rw [hleave]
      refine .trans (leads_net (t := { s with srv := st }.setNet w (.leavePush idx r)) (w := w) ?_)
        (.trans (leads_net (w := w) ?_) (hrelease _))
      · simp [netStep, cut, setNet, hread]
      · simp [netStep, setNet]

/-- The last call of a handler, with the disconnect of a full ring. -/
theorem leads_send (s : System) (w : Nat) {idx : Nat} (hlive : (s.srv.sess idx).dead = false) (m : Msg) :
    Leads (s.send w idx m) ({ s with srv := s.srv.sendBytes w idx m }.setNet w .idle) := by
  unfold send Server.sendBytes
  cases s.srv.enqueue idx m with
  | some st => exact .refl
  | none =>
    have hdis : s.srv.countFull.disconnect w idx =
        ((s.srv.countFull.cut idx).onSessionLeave idx).dropNetRef w idx :=
      if_neg (by simpa [Server.countFull, Server.sess] using hlive)
    simp only [hdis]
    exact leads_disconnect { s with srv := s.srv.countFull } w idx

/-! ### Join -/

theorem scanOpen_none {st st' : Server} {r : Nat} (h : st.scanOpen r = (st', none)) :
    st' = { st with openRooms := st.openRooms.dropLast } := by
  unfold Server.scanOpen at h
  dsimp only at h
  split at h
  · exact (congrArg Prod.fst h).symm
  · split at h
    · exact (congrArg Prod.fst h).symm
    · split at h <;> cases h

theorem leads_joinScan {s : System} {w idx : Nat} (rs : List Nat) {st : Server}
    (hlock : s.lock = .scan w idx) (hrs : st.openRooms = rs.reverse) :
    (∀ st' r i, Server.joinScan rs st = (st', some (r, i)) →
      Leads { s with srv := st } { s with srv := st', lock := .push w idx r i }) ∧
    ∀ st', Server.joinScan rs st = (st', none) →
      Leads { s with srv := st } { s with srv := st' } ∧ st'.openRooms = [] := by
  induction rs generalizing st with
  | nil =>
    refine ⟨fun st' r i h => ?_, fun st' h => ?_⟩
    · simp [Server.joinScan] at h
    · obtain rfl : st = st' := congrArg Prod.fst h
      exact ⟨.refl, hrs⟩
  | cons r rs ih =>
    have hback : st.openRooms.getLast? = some r := by simp [hrs]
    cases hscan : st.scanOpen r with
    | mk st₁ o =>
      cases o with
      | some i =>
        have hstep : Leads { s with srv := st } { s with srv := st₁, lock := .push w idx r i } :=
          leads_lock (by simp [lockStep, hlock, hback, hscan])
        refine ⟨fun st' r' i' h => ?_, fun st' h => ?_⟩
        · simp only [Server.joinScan, hscan] at h
          cases h
          exact hstep
        · simp [Server.joinScan, hscan] at h
      | none =>
        have hstep : Leads { s with srv := st } { s with srv := st₁ } :=
          leads_lock (by simp [lockStep, hlock, hback, hscan])
        have hrs₁ : st₁.openRooms = rs.reverse := by
          rw [scanOpen_none hscan]
          simp [hrs]
        obtain ⟨hsome, hnone⟩ := ih hrs₁
        refine ⟨fun st' r' i' h => ?_, fun st' h => ?_⟩
        · simp only [Server.joinScan, hscan] at h
          exact hstep.trans (hsome st' r' i' h)
        · simp only [Server.joinScan, hscan] at h
          exact ⟨hstep.trans (hnone st' h).1, (hnone st' h).2⟩

theorem leads_joinAt {s : System} {w idx r : Nat} {i : Seat} (hlock : s.lock = .push w idx r i) :
    Leads s ({ s with srv := s.srv.joinAt r idx i, lock := .free }.setNet w
      (.joined idx i.val r)) := by
  refine .trans (leads_lock (t := { s with
    srv := s.srv.pushJoin r idx i, lock := .store w idx r i }) ?_) (leads_lock ?_)
  · simp [lockStep, hlock]
  · simp [lockStep, Server.joinAt]

theorem leads_openRoom {s : System} {w idx r : Nat} {st : Server} (hlock : s.lock = .scan w idx)
    (hopen : s.srv.openRooms = []) (htake : s.srv.takeSlot = some (r, st)) :
    Leads s { s with srv := st.openRoom r, lock := .push w idx r firstSeat } := by
  have hown : ((st.assign r st.leastLoaded).rooms r).gameWorker = st.leastLoaded := by
    simp [Server.assign, Server.modRoom]
  refine .trans (leads_lock (t := { s with
    srv := st.assign r st.leastLoaded, lock := .mail w idx r }) ?_)
    (.trans (leads_lock (t := { s with
      srv := (st.assign r st.leastLoaded).post r st.leastLoaded, lock := .first w idx r }) ?_)
      (leads_lock ?_))
  · simp [lockStep, hlock, hopen, htake]
  · simp [lockStep, hown]
  · simp [lockStep, Server.openRoom]

/-- `Join`, from the handler's call to its return. -/
theorem leads_join {s : System} {w idx : Nat} (hw : s.net w = .joining idx) (hlock : s.lock = .free) :
    (∀ st r i, s.srv.join idx = (st, some (r, i)) →
      Leads s ({ s with srv := st }.setNet w (.joined idx i.val r))) ∧
    ∀ st, s.srv.join idx = (st, none) → Leads s ({ s with srv := st }.setNet w (.refused idx)) := by
  by_cases hworkers : s.srv.workerCount = 0
  · refine ⟨fun st r i h => ?_, fun st h => ?_⟩
    · simp [Server.join, hworkers] at h
    · obtain rfl : s.srv = st := by simpa [Server.join, hworkers] using h
      exact leads_net (w := w) (by simp [netStep, hw, hworkers])
  · obtain ⟨srv, lock, net, game⟩ := s
    obtain rfl : lock = .free := hlock
    let s₁ : System := { srv, lock := .scan w idx, net := Function.update net w (.inJoin idx), game }
    have hstart : Leads ⟨srv, .free, net, game⟩ s₁ :=
      leads_net (w := w) (by simp [netStep, show net w = .joining idx from hw, hworkers, setNet, s₁])
    obtain ⟨hsome, hnone⟩ := leads_joinScan (s := s₁) srv.openRooms.reverse rfl
      (show srv.openRooms = _ by simp)
    have hreserved {s₂ : System} {r : Nat} {i : Seat} (hrun : Leads s₁ s₂)
        (hlock₂ : s₂.lock = .push w idx r i) (hnet₂ : s₂.net = s₁.net) (hgame₂ : s₂.game = game) :
        Leads ⟨srv, .free, net, game⟩ (System.setNet
          { srv := s₂.srv.joinAt r idx i, lock := .free, net, game } w (.joined idx i.val r)) := by
      have hend := leads_joinAt hlock₂
      obtain ⟨srv₂, lock₂, net₂, game₂⟩ := s₂
      obtain rfl : net₂ = s₁.net := hnet₂
      obtain rfl : game₂ = game := hgame₂
      simpa [setNet, s₁] using hstart.trans (hrun.trans hend)
    cases hscan : Server.joinScan srv.openRooms.reverse srv with
    | mk st₁ o =>
      cases o with
      | some p =>
        obtain ⟨r, i⟩ := p
        have hjoin : srv.join idx = (st₁.joinAt r idx i, some (r, i)) := by
          simp [Server.join, show srv.workerCount ≠ 0 from hworkers, hscan]
        refine ⟨fun st r' i' h => ?_, fun st h => ?_⟩
        · rw [hjoin] at h
          cases h
          exact hreserved (hsome st₁ r i hscan) rfl rfl rfl
        · rw [hjoin] at h
          cases h
      | none =>
        obtain ⟨hrun, hopen⟩ := hnone st₁ hscan
        cases htake : st₁.takeSlot with
        | none =>
          have hjoin : srv.join idx = (st₁, none) := by
            simp [Server.join, show srv.workerCount ≠ 0 from hworkers, hscan, htake]
          refine ⟨fun st r i h => ?_, fun st h => ?_⟩
          · rw [hjoin] at h
            cases h
          · rw [hjoin] at h
            cases h
            refine hstart.trans (hrun.trans (leads_lock ?_))
            simp [lockStep, hopen, htake, setNet, s₁]
        | some p =>
          obtain ⟨r, st₂⟩ := p
          have hjoin : srv.join idx = ((st₂.openRoom r).joinAt r idx firstSeat, some (r, firstSeat)) := by
            simp [Server.join, show srv.workerCount ≠ 0 from hworkers, hscan, htake]
          refine ⟨fun st r' i' h => ?_, fun st h => ?_⟩
          · rw [hjoin] at h
            cases h
            exact hreserved (hrun.trans (leads_openRoom (s := { s₁ with srv := st₁ }) rfl hopen htake))
              rfl rfl rfl
          · rw [hjoin] at h
            cases h

/-! ### ProcessRoomQueues -/

theorem leads_processJoin {s : System} {g i r : Nat} {e : RoomJoinEntry} {js : List RoomJoinEntry}
    {ls : List RoomLeaveEntry} (hg : s.game g = .joins i r (e :: js) ls) :
    Leads s ({ s with srv := Server.processJoin r s.srv e }.setGame g (.joins i r js ls)) := by
  by_cases hstale : s.srv.staleJoin e = true
  · refine .trans (leads_game (t := { s with
      srv := s.srv.releaseSeat r e.actorId }.setGame g (.skip i r e.sessIdx js ls)) (g := g) ?_)
      (leads_game (g := g) ?_)
    · simp [gameStep, hg, hstale]
    · simp [gameStep, setGame, Server.processJoin, hstale]
  · refine leads_game (g := g) ?_
    simp [gameStep, hg, hstale, Server.processJoin]

theorem leads_joins {s : System} {g i r : Nat} (js : List RoomJoinEntry)
    {rest : List RoomJoinEntry} {ls : List RoomLeaveEntry}
    (hg : s.game g = .joins i r (js ++ rest) ls) :
    Leads s ({ s with srv := js.foldl (Server.processJoin r) s.srv }.setGame g
      (.joins i r rest ls)) := by
  induction js generalizing s with
  | nil =>
    have hsame : s.setGame g (.joins i r rest ls) = s := setGame_idle hg
    exact hsame.symm ▸ .refl
  | cons e js ih =>
    refine (leads_processJoin hg).trans ?_
    have hrest := ih (s := { s with
      srv := Server.processJoin r s.srv e }.setGame g (.joins i r (js ++ rest) ls)) (setGame_self ..)
    simpa [setGame] using hrest

theorem leads_joinsEnd {s : System} {g i r : Nat} {ls : List RoomLeaveEntry}
    (hg : s.game g = .joins i r [] ls) : Leads s (s.setGame g (.leaves i r ls)) :=
  leads_game (g := g) (by simp [gameStep, hg])

theorem leads_processLeave {s : System} {g i r : Nat} {e : RoomLeaveEntry}
    {ls : List RoomLeaveEntry} (hg : s.game g = .leaves i r (e :: ls)) :
    Leads s ({ s with srv := Server.processLeave r s.srv e }.setGame g (.leaves i r ls)) := by
  cases hfind : (s.srv.rooms r).findLeaver e with
  | some seat =>
    refine .trans (leads_game (t := { s with
      srv := s.srv.unseat r seat }.setGame g (.drop i r e.sessIdx ls)) (g := g) ?_)
      (leads_game (g := g) ?_)
    · simp [gameStep, hg, hfind]
    · simp [gameStep, setGame, Server.processLeave, hfind]
  | none =>
    refine leads_game (g := g) ?_
    simp [gameStep, hg, hfind, Server.processLeave]

theorem leads_leaves {s : System} {g i r : Nat} (ls : List RoomLeaveEntry)
    (hg : s.game g = .leaves i r ls) :
    Leads s ({ s with srv := ls.foldl (Server.processLeave r) s.srv }.setGame g (.leaves i r [])) := by
  induction ls generalizing s with
  | nil =>
    rw [List.foldl_nil, setGame_idle (s := { s with srv := s.srv }) hg]
    exact .refl
  | cons e ls ih =>
    refine (leads_processLeave hg).trans ?_
    have hrest := ih (s := { s with srv := Server.processLeave r s.srv e }.setGame g (.leaves i r ls))
      (setGame_self ..)
    simpa [setGame] using hrest

/-- The state of the worker at an entry of the join loop. -/
theorem leads_entry {s : System} {g i r : Nat} (hg : s.game g = .idle)
    (hr : (s.srv.myRooms g)[i]? = some r) {js rest : List RoomJoinEntry}
    (hjs : (s.srv.rooms r).pendingJoin = js ++ rest) :
    Leads s ({ s with srv := js.foldl (Server.processJoin r) (s.srv.takeQueues r) }.setGame g
      (.joins i r rest (s.srv.rooms r).pendingLeave)) := by
  let s₁ := { s with srv := s.srv.takeQueues r }.setGame g
    (.joins i r (js ++ rest) (s.srv.rooms r).pendingLeave)
  have htake : Leads s s₁ := .single (a := .process g i) trivial (by simp [step, hg, hr, hjs, s₁])
  have hjoins := leads_joins (s := s₁) (g := g) (i := i) (r := r) js (setGame_self ..)
  simpa [setGame, s₁] using htake.trans hjoins

/-- The state of the worker after both loops. -/
theorem leads_entries {s : System} {g i r : Nat} (hg : s.game g = .idle)
    (hr : (s.srv.myRooms g)[i]? = some r) :
    Leads s ({ s with srv := s.srv.processEntries r }.setGame g (.leaves i r [])) := by
  have hjoins := (leads_entry hg hr (List.append_nil _).symm).trans (leads_joinsEnd (setGame_self ..))
  have hleaves := leads_leaves (s := { s with
      srv := (s.srv.rooms r).pendingJoin.foldl (Server.processJoin r) (s.srv.takeQueues r) }.setGame g
        (.leaves i r (s.srv.rooms r).pendingLeave)) (g := g) (i := i) (r := r) _ (setGame_self ..)
  simp only [setGame, Function.update_idem] at hjoins hleaves ⊢
  exact hjoins.trans hleaves

theorem leads_process {s : System} {g i r : Nat} (hg : s.game g = .idle) (hlock : s.lock = .free)
    (hr : (s.srv.myRooms g)[i]? = some r) :
    Leads s { s with srv :=
      match s.srv.processRoomQueues r with
      | (st, true) => st.removeRoom g i
      | (st, false) => st } := by
  have hentries := leads_entries hg hr
  refine hentries.trans ?_
  by_cases hempty : ((s.srv.processEntries r).rooms r).judgedEmpty = true
  · refine .trans (leads_game (t := { s with
      srv := (s.srv.processEntries r).markDead r }.setGame g (.free i r)) (g := g) ?_)
      (leads_game (g := g) ?_)
    · simp [gameStep, setGame, hempty]
    · simp [gameStep, setGame, hlock, Server.processRoomQueues, hempty, ← hg]
  · refine leads_game (g := g) ?_
    simp [gameStep, setGame, Server.processRoomQueues, hempty, ← hg]

/-! ### RoomTick -/

theorem announceSeat_replaceRoom (st : Server) (g i nr nr' : Nat) (seat : Seat) :
    (st.replaceRoom g i nr').announceSeat nr seat = (st.announceSeat nr seat).replaceRoom g i nr' := by
  have henqueue (idx : Nat) (m : Msg) : (st.replaceRoom g i nr').enqueue idx m =
      (st.enqueue idx m).map (·.replaceRoom g i nr') := by
    simp only [Server.enqueue, Option.map_map]
    rfl
  have hrooms : (st.replaceRoom g i nr').rooms = st.rooms := rfl
  have hsess : (st.replaceRoom g i nr').sess = st.sess := rfl
  simp only [Server.announceSeat, hrooms, hsess, henqueue]
  split
  · rfl
  · cases st.enqueue ((st.rooms nr).members seat).sessIdx _ <;> rfl

theorem announce_replaceRoom (st : Server) (g i nr nr' : Nat) :
    (st.replaceRoom g i nr').announce nr = (st.announce nr).replaceRoom g i nr' := by
  unfold Server.announce
  generalize List.finRange 4 = seats
  induction seats generalizing st with
  | nil => rfl
  | cons seat seats ih => rw [List.foldl_cons, List.foldl_cons, announceSeat_replaceRoom, ih]

theorem leads_moveMembers {s : System} {g i old nr : Nat} {moved : Int}
    {js : List RoomJoinEntry} {ls : List RoomLeaveEntry} (seats : List Seat)
    (hlock : s.lock = .move g i old nr seats moved js ls) :
    Leads s { s with
      srv := (Server.moveMembers old nr seats s.srv moved).1
      lock := .move g i old nr [] (Server.moveMembers old nr seats s.srv moved).2 js ls } := by
  induction seats generalizing s moved with
  | nil =>
    obtain ⟨srv, lock, net, game⟩ := s
    obtain rfl : lock = _ := hlock
    exact .refl
  | cons seat seats ih =>
    refine .trans (leads_lock ?_) (ih (s := { s with
      srv := s.srv.moveMember old nr seat
      lock := .move g i old nr seats
        (if ((s.srv.rooms old).members seat).used then moved + 1 else moved) js ls }) rfl)
    simp only [lockStep, hlock]

theorem leads_carry {s : System} {g i old nr : Nat} {moved : Int} (js : List RoomJoinEntry)
    {ls : List RoomLeaveEntry} (hlock : s.lock = .carry g i old nr moved js ls) :
    Leads s { s with
      srv := js.foldl (fun st e => st.carryJoin nr e) s.srv
      lock := .carry g i old nr moved [] ls } := by
  induction js generalizing s with
  | nil =>
    obtain ⟨srv, lock, net, game⟩ := s
    obtain rfl : lock = _ := hlock
    exact .refl
  | cons e js ih =>
    refine .trans (leads_lock ?_) (ih (s := { s with
      srv := s.srv.carryJoin nr e, lock := .carry g i old nr moved js ls }) rfl)
    simp only [lockStep, hlock]

/-- `TransferRoom` after its slot is taken, up to the release of the manager lock. -/
theorem leads_transferTo {srv st : Server} {net : Nat → NetPc} {game : Nat → GamePc}
    {g i old nr : Nat} (htake : srv.takeSlot = some (nr, st)) (hg : game g = .exit i old) :
    Leads ⟨srv, .free, net, game⟩ ⟨(st.transferTo old nr).replaceRoom g i nr, .free, net,
      Function.update game g (.announce nr)⟩ := by
  let st₀ := st.assign nr (st.rooms old).gameWorker
  let moved := Server.moveMembers old nr (List.finRange 4) (st₀.closeOld old) 0
  let js := (st₀.rooms old).pendingJoin
  let ls := (st₀.rooms old).pendingLeave
  let game' := Function.update game g (.moving i old)
  have hstart : Leads ⟨srv, .free, net, game⟩ ⟨st₀, .close g i old nr, net, game'⟩ :=
    leads_game (g := g) (by simp [gameStep, hg, htake, setGame, st₀, game'])
  have hclose : Leads ⟨st₀, .close g i old nr, net, game'⟩
      ⟨st₀.closeOld old, .move g i old nr (List.finRange 4) 0 js ls, net, game'⟩ :=
    leads_lock rfl
  have hmove := leads_moveMembers (s := ⟨st₀.closeOld old,
    .move g i old nr (List.finRange 4) 0 js ls, net, game'⟩) (List.finRange 4) rfl
  have hopen : Leads ⟨moved.1, .move g i old nr [] moved.2 js ls, net, game'⟩
      ⟨moved.1.openNew old nr, .carry g i old nr moved.2 js ls, net, game'⟩ :=
    leads_lock rfl
  have hcarry := leads_carry (s := ⟨moved.1.openNew old nr, .carry g i old nr moved.2 js ls, net,
    game'⟩) js rfl
  refine hstart.trans (hclose.trans (hmove.trans (hopen.trans (hcarry.trans (leads_lock ?_)))))
  simp [lockStep, setGame, game', Server.transferTo, moved, js, ls, st₀]

theorem leads_tick {s : System} {g i r : Nat} (hg : s.game g = .idle) (hlock : s.lock = .free)
    (hr : (s.srv.myRooms g)[i]? = some r) :
    Leads s { s with srv :=
      match s.srv.roomTick r with
      | (st, some nr) => st.replaceRoom g i nr
      | (st, none) => st } := by
  obtain ⟨srv, lock, net, game⟩ := s
  obtain rfl : lock = .free := hlock
  have hg : game g = .idle := hg
  have hr : (srv.myRooms g)[i]? = some r := hr
  let st := srv.tickBody r
  by_cases hexit : (st.rooms r).exitReady = true
  · have htick : Leads ⟨srv, .free, net, game⟩ ⟨st, .free, net, Function.update game g (.exit i r)⟩ :=
      .single (a := .tick g i) trivial (by simp [step, hg, hr, hexit, setGame, st])
    refine htick.trans ?_
    cases htake : st.takeSlot with
    | none =>
      refine leads_game (g := g) ?_
      simp [gameStep, htake, setGame, Server.roomTick, Server.exitCheckAndMaybeTransfer, hexit,
        Server.transferRoom, st, ← hg]
    | some p =>
      obtain ⟨nr, st'⟩ := p
      refine (leads_transferTo htake (Function.update_self ..)).trans (leads_game (g := g) ?_)
      simp [gameStep, setGame, Server.roomTick, Server.exitCheckAndMaybeTransfer, hexit, htake,
        Server.transferRoom, st, announce_replaceRoom, ← hg]
  · refine .single (a := .tick g i) trivial ?_
    simp [step, hg, hr, hexit, st, Server.roomTick, Server.exitCheckAndMaybeTransfer]

/-- The session of a handler that is not disconnecting is live. -/
theorem live_of_handler {s : System} (h : Consistent s.ledger) (w idx : Nat)
    (hw : (s.net w).sess = some idx) (hleaving : (s.net w).leaving = none) :
    (s.srv.sess idx).dead = false := by
  have hdead := h.refs.dead w idx (h.refs.net w idx hw)
  have hleaving' : (s.ledger.net w).leaving = none := hleaving
  rw [hleaving'] at hdead
  have hlive : (s.ledger.sess idx).dead = false := by simpa using hdead
  exact hlive

end System

namespace Serial

open BeltServer.System

/-- The interleaved machine between two operations: a worker whose `Join` has returned is
about to send its JOIN_OK. -/
def system (s : Serial) : System where
  srv := s.srv
  net w :=
    match s.reply w with
    | none => .idle
    | some rep => .joined rep.sessIdx rep.actorId rep.roomId

variable {s : Serial} {w idx : Nat}

theorem system_net (hreply : s.reply w = none) : s.system.net w = .idle := by
  simp [system, hreply]

theorem system_setNet_idle (hreply : s.reply w = none) (st : Server) :
    ({ s.system with srv := st }.setNet w .idle) = Serial.system { s with srv := st } :=
  setNet_idle (s := { s.system with srv := st }) (system_net hreply)

theorem handles_system (h : s.handles w idx = true) :
    s.reply w = none ∧ s.system.handles w idx = true ∧ (s.srv.sess idx).dead = false := by
  simp only [handles, Bool.and_eq_true, Option.isNone_iff_eq_none, decide_eq_true_eq,
    Bool.not_eq_true'] at h
  obtain ⟨⟨hreply, hmem⟩, hlive⟩ := h
  refine ⟨hreply, ?_, hlive⟩
  simp [System.handles, system_net hreply, show idx ∈ s.system.srv.mySessions w from hmem,
    show (s.system.srv.sess idx).dead = false from hlive]

theorem leads_frame (h : s.handles w idx = true) (hs : ∀ t, Leads s.system t → Consistent t.ledger)
    (d : Server.Dispatched) (hfirst : Leads s.system (s.system.frame w idx d)) :
    Leads s.system (s.frame w idx d).system := by
  obtain ⟨hreply, -, hlive⟩ := handles_system h
  refine hfirst.trans ?_
  cases d with
  | send m =>
    have hsend := leads_send s.system w hlive m
    rwa [system_setNet_idle hreply] at hsend
  | join =>
    obtain ⟨hsome, hnone⟩ := leads_join (s := s.system.setNet w (.joining idx)) (setNet_self ..) rfl
    simp only [frame, System.frame]
    cases hjoin : s.srv.join idx with
    | mk st o =>
      cases o with
      | some p =>
        obtain ⟨r, i⟩ := p
        have hrun := hsome st r i hjoin
        have hend : ({ s.system.setNet w (.joining idx) with srv := st }.setNet w
            (.joined idx i.val r)) =
            (Serial.mk st (Function.update s.reply w (some ⟨idx, i.val, r⟩))).system := by
          simp only [System.setNet, system, System.mk.injEq, true_and, and_true]
          funext w'
          by_cases hw : w' = w
          · subst hw
            simp
          · simp [hw]
        rwa [hend] at hrun
      | none =>
        have hrun := hnone st hjoin
        have hcons := hs _ (hfirst.trans hrun)
        have hlive' := live_of_handler hcons w idx (by simp [NetPc.sess])
          (by simp [NetPc.leaving])
        have hsend := leads_send ({ s.system.setNet w (.joining idx) with srv := st }.setNet w
          (.refused idx)) w hlive' (.joinFail noCapacity)
        have hstep : Leads ({ s.system.setNet w (.joining idx) with srv := st }.setNet w (.refused idx))
            _ := (leads_net (w := w) (by simp [netStep])).trans hsend
        have hend := system_setNet_idle hreply (st.sendBytes w idx (.joinFail noCapacity))
        simp only [System.setNet, Function.update_idem] at hrun hstep hend
        simp only [System.setNet]
        rw [hend] at hstep
        exact hrun.trans hstep
  | input r c =>
    refine leads_net (w := w) ?_
    have hend := system_setNet_idle hreply (s.srv.inputPush r c)
    simp only [netStep, System.frame, setNet_self, frame, ← hend]
    simp [System.setNet, system]
  | ignore => exact .refl
  | disconnect =>
    have hdis : s.srv.disconnect w idx = ((s.srv.cut idx).onSessionLeave idx).dropNetRef w idx :=
      if_neg (by simpa using hlive)
    have hrun := leads_disconnect s.system w idx
    have hend := system_setNet_idle hreply (s.srv.disconnect w idx)
    rw [hdis] at hend
    simp only [frame, hdis]
    exact hend ▸ hrun

/-- The JOIN_OK of a `Join` that has returned. -/
theorem leads_joinOk {rep : JoinReply} (hs : Consistent s.system.ledger)
    (hreply : s.reply w = some rep) :
    Leads s.system (Serial.system
      { srv := s.srv.sendBytes w rep.sessIdx (.joinOk rep.actorId rep.roomId 0)
        reply := Function.update s.reply w none }) := by
  have hnet : s.system.net w = .joined rep.sessIdx rep.actorId rep.roomId := by
    simp [system, hreply]
  have hlive := live_of_handler hs w rep.sessIdx (by rw [hnet]; rfl)
    (by rw [hnet]; rfl)
  have hsend := leads_send s.system w hlive (.joinOk rep.actorId rep.roomId 0)
  have hend : ({ s.system with
      srv := s.srv.sendBytes w rep.sessIdx (.joinOk rep.actorId rep.roomId 0) }.setNet w .idle) =
      Serial.system
        { srv := s.srv.sendBytes w rep.sessIdx (.joinOk rep.actorId rep.roomId 0)
          reply := Function.update s.reply w none } := by
    simp only [System.setNet, system, System.mk.injEq, true_and, and_true]
    funext w'
    by_cases hw : w' = w
    · subst hw
      simp
    · simp [hw]
  rw [← hend]
  exact (leads_net (w := w) (by simp [netStep, hnet])).trans hsend

/-- Every operation but an accept. -/
def Quiet : Op → Serial → Prop
  | .accept .., _ => False
  | _, _ => True

theorem leads_step {a : Op} {t : Serial} (hs : ∀ t, Leads s.system t → Consistent t.ledger)
    (hquiet : Quiet a s) (ht : step a s = some t) : Leads s.system t.system := by
  cases a with
  | accept w fd recvOk sendOk ctlOk => exact hquiet.elim
  | frame w idx f remainUs =>
    simp only [step] at ht
    split at ht
    · rename_i hframe
      cases ht
      obtain ⟨hhandles, hwell⟩ := Bool.and_eq_true_iff.mp hframe
      obtain ⟨-, hsystem, -⟩ := handles_system hhandles
      refine leads_frame hhandles hs _ (.single (a := .frame w idx f remainUs) trivial ?_)
      exact if_pos (Bool.and_eq_true_iff.mpr ⟨hsystem, hwell⟩)
    · cases ht
  | joinOk w =>
    simp only [step] at ht
    cases hreply : s.reply w with
    | none =>
      rw [hreply] at ht
      cases ht
    | some rep =>
      rw [hreply] at ht
      cases ht
      exact leads_joinOk (hs _ .refl) hreply
  | disconnect w idx =>
    simp only [step] at ht
    split at ht
    · rename_i hhandles
      cases ht
      obtain ⟨-, hsystem, -⟩ := handles_system hhandles
      refine leads_frame hhandles hs .disconnect (.single (a := .disconnect w idx) trivial ?_)
      simp [System.step, hsystem, System.frame]
    · cases ht
  | flush w idx n =>
    simp only [step] at ht
    split at ht
    · rename_i hhandles
      cases ht
      obtain ⟨-, hsystem, -⟩ := handles_system hhandles
      exact .single (a := .flush w idx n) trivial (if_pos hsystem)
    · cases ht
  | drain g =>
    cases ht
    exact .single (a := .drain g) trivial (by simp [System.step, system])
  | process g i =>
    simp only [step] at ht
    split at ht
    · rename_i r hr
      have hrun := leads_process (s := s.system) (g := g) (i := i) rfl rfl hr
      rw [show s.system.srv = s.srv from rfl] at hrun
      cases hprocess : s.srv.processRoomQueues r with
      | mk st dead =>
        simp only [hprocess] at ht hrun
        cases dead <;> cases ht <;> exact hrun
    · cases ht
  | tick g i =>
    simp only [step] at ht
    split at ht
    · rename_i r hr
      have hrun := leads_tick (s := s.system) (g := g) (i := i) rfl rfl hr
      rw [show s.system.srv = s.srv from rfl] at hrun
      cases htick : s.srv.roomTick r with
      | mk st o =>
        simp only [htick] at ht hrun
        cases o <;> cases ht <;> exact hrun
    · cases ht

theorem step_accept {w : Nat} {fd : Int} {recvOk sendOk ctlOk : Bool} {t : Serial}
    (ht : step (.accept w fd recvOk sendOk ctlOk) s = some t) :
    System.step (.accept w fd recvOk sendOk ctlOk) s.system = some t.system := by
  simp only [step] at ht
  split at ht
  · rename_i hreply
    cases ht
    exact if_pos (system_net (Option.isNone_iff_eq_none.mp hreply))
  · cases ht

variable {sessionCapacity roomCapacity workerCount : Nat} {ok : Op → Serial → Prop}

theorem reach_system (h : Reach step ok (init sessionCapacity roomCapacity workerCount) s) :
    Reach System.step Any (System.init sessionCapacity roomCapacity workerCount) s.system := by
  refine h.refine system fun s a t hs ht => ?_
  by_cases hquiet : Quiet a s
  · exact (leads_step (fun t ht' => System.consistent (hs.trans ht'.any)) hquiet ht).any
  · cases a with
    | accept w fd recvOk sendOk ctlOk => exact .single trivial (step_accept ht)
    | _ => exact absurd trivial hquiet

/-- Every state reached by serial operations is consistent. -/
theorem consistent (h : Reach step ok (init sessionCapacity roomCapacity workerCount) s) :
    Consistent s.system.ledger :=
  System.consistent (reach_system h)

end Serial

end BeltServer
