import BeltServer.Refs

/-!
# The steps on the references

Each transition keeps `Refs`. Entries that only change hands leave every count alone; what
remains are the epoll workers' own steps, the push of a join entry, the releases, and the
two steps of a transfer that store a new room number.
-/

namespace BeltServer

set_option autoImplicit false

open SwapList

namespace Refs

variable {L L' : Ledger}

theorem of_still (h : Refs L) (hcap : L'.cap = L.cap) (hsessCap : L'.sessCap = L.sessCap)
    (hfree : L'.freeSess = L.freeSess) (hconns : L'.mySessions = L.mySessions)
    (hsess : L'.sess = L.sess) (hnet : L'.net = L.net) (hclaims : L'.claims = L.claims)
    (htokens : ∀ r e, e ∈ L'.tokens r → e ∈ L.tokens r)
    (hflight : ∀ old, L'.lock.emptying = some old → ∀ e ∈ L'.lock.flight,
      (L.lock.emptying = some old ∧ e ∈ L.lock.flight) ∨ e ∈ L.tokens old)
    (hstoring : L'.lock.storing = L.lock.storing)
    (hjoiner : ∀ w idx, L'.lock.joiner = some (w, idx) → L.lock.joiner = some (w, idx)) :
    Refs L' := by
  have hok {r : Nat} {e : RoomJoinEntry} (he : HolderOk L r e) : HolderOk L' r e :=
    { room := hcap ▸ he.room
      gen := hsess ▸ he.gen
      place := (Ledger.place_same (by rw [hsess]) (by rw [hsess]) hstoring).trans he.place }
  refine
    { refs := ?_
      one := hclaims ▸ h.one
      bound := by rw [hclaims, hsessCap]; exact h.bound
      holder := fun r e he => hok (h.holder r e (htokens r e he))
      flight := ?_
      seated := ?_
      free := ?_
      conns := ?_
      conns_nodup := hconns ▸ h.conns_nodup
      net := ?_
      dead := ?_
      unplaced := ?_
      joiner := ?_ }
  · intro idx
    simp only [Ledger.ownRef, hclaims, hsess, hconns]
    exact h.refs idx
  · intro old hold e he
    rcases hflight old hold e he with ⟨hold', he'⟩ | he'
    · exact hok (h.flight old hold' e he')
    · exact hok (h.holder old e he')
  · rw [hclaims, hsess, hstoring]
    exact h.seated
  · rw [hfree, hsessCap, hsess]
    exact h.free
  · rw [hconns, hsess, hsessCap]
    exact h.conns
  · rw [hnet, hconns]
    exact h.net
  · rw [hconns, hsess, hnet]
    exact h.dead
  · rw [hnet, hsess]
    exact h.unplaced
  · intro w idx hj
    rw [hnet]
    exact h.joiner w idx (hjoiner w idx hj)

theorem of_same (h : Refs L) (hcap : L'.cap = L.cap) (hsessCap : L'.sessCap = L.sessCap)
    (hfree : L'.freeSess = L.freeSess) (hconns : L'.mySessions = L.mySessions)
    (hsess : L'.sess = L.sess) (hnet : L'.net = L.net)
    (hrooms : ∀ r, L'.tokens r = L.tokens r ∧ L'.owed r = L.owed r)
    (hflight : L'.lock.flight = L.lock.flight)
    (hemptying : ∀ old, L'.lock.emptying = some old → L.lock.emptying = some old)
    (hstoring : L'.lock.storing = L.lock.storing)
    (hjoiner : ∀ w idx, L'.lock.joiner = some (w, idx) → L.lock.joiner = some (w, idx)) :
    Refs L' :=
  h.of_still hcap hsessCap hfree hconns hsess hnet
    (Ledger.claims_same hcap (fun r => Ledger.roomClaims_same (hrooms r).1 (hrooms r).2) hflight)
    (fun r _ he => (hrooms r).1 ▸ he)
    (fun old hold _ he => Or.inl ⟨hemptying old hold, hflight ▸ he⟩) hstoring hjoiner

/-- The claims of two ledgers with the same holders. -/
structure SameClaims (L L' : Ledger) : Prop where
  cap : L'.cap = L.cap := by rfl
  sessCap : L'.sessCap = L.sessCap := by rfl
  room : ∀ r, Ledger.SameHolders (L.room r) (L'.room r) := by exact fun _ => {}
  game : L'.game = L.game := by rfl
  flight : L'.lock.flight = L.lock.flight := by rfl
  emptying : L'.lock.emptying = L.lock.emptying := by rfl
  storing : L'.lock.storing = L.lock.storing := by rfl

theorem SameClaims.of_lock {pc : LockPc} {net : Nat → NetPc} (hflight : pc.flight = L.lock.flight)
    (hemptying : pc.emptying = L.lock.emptying) (hstoring : pc.storing = L.lock.storing) :
    SameClaims L { L with lock := pc, net := net } where
  flight := hflight
  emptying := hemptying
  storing := hstoring

theorem SameClaims.tokens (h : SameClaims L L') (r : Nat) : L'.tokens r = L.tokens r :=
  Ledger.tokens_same (h.room r) fun _ => by rw [h.game]

theorem SameClaims.claims (h : SameClaims L L') : L'.claims = L.claims :=
  Ledger.claims_same h.cap (fun r => Ledger.roomClaims_same (h.tokens r)
    (Ledger.owed_same (h.room r).owner fun _ => by rw [h.game])) h.flight

theorem of_net (h : Refs L) (hs : SameClaims L L') {w : Nat} {p : NetPc}
    (hfree : L'.freeSess = L.freeSess) (hconns : L'.mySessions = L.mySessions)
    (hsess : ∀ j, L'.sess j =
      { L.sess j with dead := (L'.sess j).dead, inRoom := (L'.sess j).inRoom })
    (hnet : L'.net = Function.update L.net w p)
    (hseated : ∀ j, 0 < L.claims.count j → (L'.sess j).inRoom = true ∨ (L'.sess j).dead = true ∨
      ∃ r i, L.lock.storing = some (j, r, i))
    (hpc : ∀ idx, p.sess = some idx → idx ∈ L.mySessions w)
    (hdead : ∀ idx, idx ∈ L.mySessions w → ((L'.sess idx).dead = true ↔ p.leaving = some idx))
    (hdead' : ∀ idx, idx ∉ L.mySessions w → (L'.sess idx).dead = (L.sess idx).dead)
    (hunplaced : ∀ idx, p.unplaced = some idx → (L'.sess idx).inRoom = false)
    (hinRoom : ∀ idx, (L.sess idx).inRoom = false → (L'.sess idx).inRoom = false)
    (hjoiner : ∀ w' idx, L'.lock.joiner = some (w', idx) → L'.net w' = .inJoin idx) : Refs L' := by
  have hrefs (j : Nat) : (L'.sess j).refs = (L.sess j).refs := by rw [hsess]
  have howner (j : Nat) : (L'.sess j).owner = (L.sess j).owner := by rw [hsess]
  have hok {r : Nat} {e : RoomJoinEntry} (he : HolderOk L r e) : HolderOk L' r e :=
    { room := hs.cap ▸ he.room
      gen := by rw [hsess]; exact he.gen
      place := (Ledger.place_same (by rw [hsess]) (by rw [hsess]) hs.storing).trans he.place }
  refine
    { refs := ?_
      one := by rw [hs.claims]; exact h.one
      bound := by rw [hs.claims, hs.sessCap]; exact h.bound
      holder := fun r e he => hok (h.holder r e (hs.tokens r ▸ he))
      flight := fun old hold e he => hok (h.flight old (hs.emptying ▸ hold) e (hs.flight ▸ he))
      seated := by rw [hs.claims, hs.storing]; exact hseated
      free := ?_
      conns := ?_
      conns_nodup := hconns ▸ h.conns_nodup
      net := ?_
      dead := ?_
      unplaced := ?_
      joiner := hjoiner }
  · intro idx
    rw [hrefs, hs.claims, Ledger.ownRef, howner, hconns]
    exact h.refs idx
  · intro idx
    rw [hfree, hs.sessCap, hrefs]
    exact h.free idx
  · intro w' idx hm
    rw [howner, hs.sessCap]
    exact h.conns w' idx (hconns ▸ hm)
  · intro w' idx hm
    rw [hconns]
    by_cases hw : w' = w
    · subst hw
      rw [hnet, Function.update_self] at hm
      exact hpc idx hm
    · rw [hnet, Function.update_of_ne hw] at hm
      exact h.net w' idx hm
  · intro w' idx hm
    rw [hconns] at hm
    by_cases hw : w' = w
    · subst hw
      rw [hnet, Function.update_self]
      exact hdead idx hm
    · have hnot : idx ∉ L.mySessions w := fun hmw =>
        hw ((h.conns w' idx hm).1.symm.trans (h.conns w idx hmw).1)
      rw [hnet, Function.update_of_ne hw, hdead' idx hnot]
      exact h.dead w' idx hm
  · intro w' idx hm
    by_cases hw : w' = w
    · subst hw
      rw [hnet, Function.update_self] at hm
      exact hunplaced idx hm
    · rw [hnet, Function.update_of_ne hw] at hm
      exact hinRoom idx (h.unplaced w' idx hm)

theorem of_turn (h : Refs L) (hs : SameClaims L L') {w : Nat} {pc pc' : NetPc}
    (hfree : L'.freeSess = L.freeSess) (hconns : L'.mySessions = L.mySessions)
    (hsess : L'.sess = L.sess) (hw : L.net w = pc) (hnet : L'.net = Function.update L.net w pc')
    (hpc : ∀ idx, pc'.sess = some idx → idx ∈ L.mySessions w)
    (hleaving : pc'.leaving = pc.leaving)
    (hunplaced : ∀ idx, pc'.unplaced = some idx → (L.sess idx).inRoom = false)
    (hjoiner : ∀ w' idx, L'.lock.joiner = some (w', idx) → L'.net w' = .inJoin idx) : Refs L' := by
  refine h.of_net hs hfree hconns (fun j => by rw [hsess]) hnet (by rw [hsess]; exact h.seated) hpc ?_
    (by rw [hsess]; exact fun _ _ => rfl) (by rw [hsess]; exact hunplaced)
    (by rw [hsess]; exact fun _ => id) hjoiner
  intro idx hm
  rw [hsess, hleaving, ← hw]
  exact h.dead w idx hm

theorem joiner_of_ne (h : Refs L) {w : Nat} {pc : NetPc} (hw : ∀ idx, L.net w ≠ .inJoin idx)
    (hnet : L'.net = Function.update L.net w pc) (hlock : L'.lock = L.lock) (w' idx : Nat)
    (hj : L'.lock.joiner = some (w', idx)) : L'.net w' = .inJoin idx := by
  rw [hlock] at hj
  have hold := h.joiner w' idx hj
  have hne : w' ≠ w := by
    rintro rfl
    exact hw idx hold
  rw [hnet, Function.update_of_ne hne]
  exact hold

/-! ### Accepting and releasing -/

theorem of_free_slot (h : Refs L) {idx : Nat} (hidx : L.freeSess.getLast? = some idx) :
    idx < L.sessCap ∧ (L.sess idx).refs = 0 ∧ L.claims.count idx = 0 ∧
      ∀ w, idx ∉ L.mySessions w := by
  have hif := h.mem_free.mp (List.mem_of_getLast? hidx)
  have hrefs := h.refs idx
  rw [hif.2] at hrefs
  have hzero : L.ownRef idx = 0 ∧ L.claims.count idx = 0 := by omega
  refine ⟨hif.1, hif.2, hzero.2, fun w hw => ?_⟩
  have hown := hzero.1
  rw [Ledger.ownRef, (h.conns w idx hw).1, if_pos hw] at hown
  omega

theorem holder_ne (h : Refs L) {idx r : Nat} {e : RoomJoinEntry} (hidx : L.claims.count idx = 0)
    (he : e ∈ L.tokens r) : e.sessIdx ≠ idx := by
  rintro rfl
  have := Ledger.count_pos_of_token (h.holder r e he).room he
  omega

theorem flight_ne {idx : Nat} {e : RoomJoinEntry} (hidx : L.claims.count idx = 0)
    (he : e ∈ L.lock.flight) : e.sessIdx ≠ idx := by
  rintro rfl
  have := Ledger.count_pos_of_flight he
  omega

theorem holder_other {idx : Nat} {S : SessBook} (hs : SameClaims L L')
    (hsess : L'.sess = Function.update L.sess idx S) {r : Nat} {e : RoomJoinEntry}
    (hne : e.sessIdx ≠ idx) (he : HolderOk L r e) : HolderOk L' r e := by
  have heq : L'.sess e.sessIdx = L.sess e.sessIdx := by rw [hsess, Function.update_of_ne hne]
  exact
    { room := hs.cap ▸ he.room
      gen := heq ▸ he.gen
      place := (Ledger.place_same (by rw [heq]) (by rw [heq]) hs.storing).trans he.place }

theorem of_accept (h : Refs L) (hs : SameClaims L L') {w idx : Nat} (hw : L.net w = .idle)
    (hidx : L.freeSess.getLast? = some idx) (hfree : L'.freeSess = L.freeSess.dropLast)
    (hconns : L'.mySessions = Function.update L.mySessions w (L.mySessions w ++ [idx]))
    (hsess : L'.sess = Function.update L.sess idx ((L.sess idx).opened w)) (hnet : L'.net = L.net)
    (hlock : L'.lock = L.lock) : Refs L' := by
  obtain ⟨hlt, hzero, hclaims, hnew⟩ := h.of_free_slot hidx
  have hself : L'.sess idx = (L.sess idx).opened w := by rw [hsess, Function.update_self]
  have hother {j : Nat} (hj : j ≠ idx) : L'.sess j = L.sess j := by
    rw [hsess, Function.update_of_ne hj]
  have hmem (w' j : Nat) : j ∈ L'.mySessions w' ↔ j ∈ L.mySessions w' ∨ (w' = w ∧ j = idx) := by
    rw [hconns]
    by_cases hww : w' = w
    · subst hww
      simp
    · rw [Function.update_of_ne hww]
      simp [hww]
  refine
    { refs := ?_
      one := by rw [hs.claims]; exact h.one
      bound := by rw [hs.claims, hs.sessCap]; exact h.bound
      holder := fun r e he => holder_other hs hsess (h.holder_ne hclaims (hs.tokens r ▸ he))
        (h.holder r e (hs.tokens r ▸ he))
      flight := fun old hold e he => holder_other hs hsess (flight_ne hclaims (hs.flight ▸ he))
        (h.flight old (hs.emptying ▸ hold) e (hs.flight ▸ he))
      seated := ?_
      free := ?_
      conns := ?_
      conns_nodup := ?_
      net := ?_
      dead := ?_
      unplaced := ?_
      joiner := ?_ }
  · intro j
    rw [hs.claims, Ledger.ownRef]
    by_cases hj : j = idx
    · subst hj
      have hown : j ∈ L'.mySessions ((L.sess j).opened w).owner := (hmem _ _).mpr (Or.inr ⟨rfl, rfl⟩)
      rw [hself, if_pos hown, hclaims]
      rfl
    · rw [hother hj]
      have hiff : (j ∈ L'.mySessions (L.sess j).owner) = (j ∈ L.mySessions (L.sess j).owner) := by
        simp [hmem, hj]
      simp only [hiff]
      exact h.refs j
  · intro j hj
    rw [hs.claims] at hj
    have hne : j ≠ idx := by
      rintro rfl
      omega
    rw [hother hne, hs.storing]
    exact h.seated j hj
  · intro j
    have hc := count_dropLast hidx j
    have hf := h.free j
    rw [hfree, hs.sessCap]
    by_cases hj : j = idx
    · subst hj
      rw [hself]
      rw [if_pos ⟨hlt, hzero⟩] at hf
      rw [if_pos rfl] at hc
      rw [if_neg (by simp [SessBook.opened])]
      omega
    · rw [hother hj]
      rw [if_neg (Ne.symm hj)] at hc
      omega
  · intro w' j hj
    rw [hs.sessCap]
    rcases (hmem w' j).mp hj with hj | ⟨rfl, rfl⟩
    · have hne : j ≠ idx := fun heq => hnew w' (heq ▸ hj)
      rw [hother hne]
      exact h.conns w' j hj
    · rw [hself]
      exact ⟨rfl, hlt⟩
  · intro w'
    rw [hconns]
    by_cases hww : w' = w
    · subst hww
      rw [Function.update_self]
      exact nodup_push (h.conns_nodup w') (hnew w')
    · rw [Function.update_of_ne hww]
      exact h.conns_nodup w'
  · intro w' j hj
    rw [hnet] at hj
    exact (hmem w' j).mpr (Or.inl (h.net w' j hj))
  · intro w' j hj
    rw [hnet]
    rcases (hmem w' j).mp hj with hj | ⟨rfl, rfl⟩
    · have hne : j ≠ idx := fun heq => hnew w' (heq ▸ hj)
      rw [hother hne]
      exact h.dead w' j hj
    · rw [hself, hw]
      simp [SessBook.opened, NetPc.leaving]
  · intro w' j hj
    rw [hnet] at hj
    have hne : j ≠ idx := by
      rintro rfl
      exact hnew w' (h.net w' j (NetPc.sess_of_unplaced hj))
    rw [hother hne]
    exact h.unplaced w' j hj
  · intro w' j hj
    rw [hlock] at hj
    rw [hnet]
    exact h.joiner w' j hj

theorem of_refuse (h : Refs L) (hs : SameClaims L L') {w idx : Nat}
    (hidx : L.freeSess.getLast? = some idx) (hfree : L'.freeSess = L.freeSess)
    (hconns : L'.mySessions = L.mySessions)
    (hsess : L'.sess = Function.update L.sess idx ((L.sess idx).refused w)) (hnet : L'.net = L.net)
    (hlock : L'.lock = L.lock) : Refs L' := by
  obtain ⟨hlt, hzero, hclaims, hnew⟩ := h.of_free_slot hidx
  have hself : L'.sess idx = (L.sess idx).refused w := by rw [hsess, Function.update_self]
  have hother {j : Nat} (hj : j ≠ idx) : L'.sess j = L.sess j := by
    rw [hsess, Function.update_of_ne hj]
  have hne {w' j : Nat} (hj : j ∈ L.mySessions w') : j ≠ idx := fun heq => hnew w' (heq ▸ hj)
  refine
    { refs := ?_
      one := by rw [hs.claims]; exact h.one
      bound := by rw [hs.claims, hs.sessCap]; exact h.bound
      holder := fun r e he => holder_other hs hsess (h.holder_ne hclaims (hs.tokens r ▸ he))
        (h.holder r e (hs.tokens r ▸ he))
      flight := fun old hold e he => holder_other hs hsess (flight_ne hclaims (hs.flight ▸ he))
        (h.flight old (hs.emptying ▸ hold) e (hs.flight ▸ he))
      seated := ?_
      free := ?_
      conns := ?_
      conns_nodup := hconns ▸ h.conns_nodup
      net := by rw [hnet, hconns]; exact h.net
      dead := ?_
      unplaced := ?_
      joiner := by rw [hlock, hnet]; exact h.joiner }
  · intro j
    rw [hs.claims, Ledger.ownRef, hconns]
    by_cases hj : j = idx
    · subst hj
      rw [hself, if_neg (hnew _), hclaims]
      rfl
    · rw [hother hj]
      exact h.refs j
  · intro j hj
    rw [hs.claims] at hj
    have hne : j ≠ idx := by
      rintro rfl
      omega
    rw [hother hne, hs.storing]
    exact h.seated j hj
  · intro j
    rw [hfree, hs.sessCap, h.free]
    by_cases hj : j = idx
    · subst hj
      rw [hself, hzero]
      rfl
    · rw [hother hj]
  · intro w' j hj
    rw [hconns] at hj
    rw [hs.sessCap, hother (hne hj)]
    exact h.conns w' j hj
  · intro w' j hj
    rw [hconns] at hj
    rw [hnet, hother (hne hj)]
    exact h.dead w' j hj
  · intro w' j hj
    rw [hnet] at hj
    rw [hother (hne (h.net w' j (NetPc.sess_of_unplaced hj)))]
    exact h.unplaced w' j hj

theorem of_release (h : Refs L) {idx : Nat} (hcap : L'.cap = L.cap)
    (hsessCap : L'.sessCap = L.sessCap)
    (hsess : L'.sess = Function.update L.sess idx (L.sess idx).released)
    (hfree : L'.freeSess = if (L.sess idx).refs = 1 then L.freeSess ++ [idx] else L.freeSess)
    (htokens : ∀ r, L'.tokens r = L.tokens r) (hlock : L'.lock = L.lock)
    (hclaims : ∀ j, L'.claims.count j ≤ L.claims.count j ∧
      (j ≠ idx → L'.claims.count j = L.claims.count j ∧ L'.ownRef j = L.ownRef j))
    (hdrop : L'.ownRef idx + L'.claims.count idx + 1 = L.ownRef idx + L.claims.count idx)
    (hidx : idx < L.sessCap)
    (hconns : ∀ w j, j ∈ L'.mySessions w → j ∈ L.mySessions w)
    (hnodup : ∀ w, (L'.mySessions w).Nodup)
    (hnet : ∀ w j, (L'.net w).sess = some j → j ∈ L'.mySessions w)
    (hdead : ∀ w j, j ∈ L'.mySessions w →
      ((L.sess j).dead = true ↔ (L'.net w).leaving = some j))
    (hunplaced : ∀ w j, (L'.net w).unplaced = some j → (L.sess j).inRoom = false)
    (hjoiner : ∀ w j, L'.lock.joiner = some (w, j) → L'.net w = .inJoin j) : Refs L' := by
  have hself : L'.sess idx = (L.sess idx).released := by rw [hsess, Function.update_self]
  have hother {j : Nat} (hj : j ≠ idx) : L'.sess j = L.sess j := by
    rw [hsess, Function.update_of_ne hj]
  have hbook (j : Nat) : (L'.sess j).dead = (L.sess j).dead ∧
      (L'.sess j).inRoom = (L.sess j).inRoom ∧ (L'.sess j).owner = (L.sess j).owner ∧
      (L'.sess j).roomIdx = (L.sess j).roomIdx ∧ (L'.sess j).actorId = (L.sess j).actorId := by
    by_cases hj : j = idx
    · rw [hj, hself]
      exact ⟨rfl, rfl, rfl, rfl, rfl⟩
    · rw [hother hj]
      exact ⟨rfl, rfl, rfl, rfl, rfl⟩
  have hrefs := h.refs idx
  have hok {r : Nat} {e : RoomJoinEntry} (hpos : 0 < L'.claims.count e.sessIdx)
      (he : HolderOk L r e) : HolderOk L' r e := by
    refine
      { room := hcap ▸ he.room
        gen := ?_
        place := (Ledger.place_same (hbook _).2.2.2.1 (hbook _).2.2.2.2 (by rw [hlock])).trans
          he.place }
    by_cases hj : e.sessIdx = idx
    · -- a claim remains, so this was not the last reference
      rw [hj] at hpos
      have hlast : (L.sess idx).refs ≠ 1 := by omega
      have hgen := he.gen
      rw [hj] at hgen
      rw [hj, hself, SessBook.released, if_neg hlast]
      exact hgen
    · rw [hother hj]
      exact he.gen
  refine
    { refs := ?_
      one := fun j => (hclaims j).1.trans (h.one j)
      bound := fun j hj => hsessCap ▸ h.bound j (lt_of_lt_of_le hj (hclaims j).1)
      holder := ?_
      flight := ?_
      seated := ?_
      free := ?_
      conns := ?_
      conns_nodup := hnodup
      net := hnet
      dead := fun w j hj => by rw [(hbook j).1]; exact hdead w j hj
      unplaced := fun w j hj => by rw [(hbook j).2.1]; exact hunplaced w j hj
      joiner := hjoiner }
  · intro j
    by_cases hj : j = idx
    · subst hj
      rw [hself]
      show (L.sess j).refs - 1 = _
      omega
    · rw [hother hj, ((hclaims j).2 hj).1, ((hclaims j).2 hj).2]
      exact h.refs j
  · intro r e he
    have he' := htokens r ▸ he
    have hr := h.holder r e he'
    exact hok (Ledger.count_pos_of_token (hcap ▸ hr.room) he) hr
  · intro old hold e he
    rw [hlock] at hold
    exact hok (Ledger.count_pos_of_flight he) (h.flight old hold e (hlock ▸ he))
  · intro j hj
    rw [(hbook j).1, (hbook j).2.1, hlock]
    exact h.seated j (lt_of_lt_of_le hj (hclaims j).1)
  · intro j
    have hf := h.free j
    rw [hfree, hsessCap]
    by_cases hlast : (L.sess idx).refs = 1
    · rw [if_pos hlast, count_push]
      by_cases hj : j = idx
      · subst hj
        have hz : (L'.sess j).refs = 0 := by
          rw [hself]
          show (L.sess j).refs - 1 = 0
          omega
        rw [if_neg (by omega)] at hf
        rw [if_pos rfl, hf, if_pos ⟨hidx, hz⟩]
      · rw [if_neg (Ne.symm hj), hother hj]
        exact hf
    · rw [if_neg hlast]
      by_cases hj : j = idx
      · subst hj
        have hz : (L'.sess j).refs ≠ 0 := by
          rw [hself]
          show (L.sess j).refs - 1 ≠ 0
          omega
        rw [if_neg (by omega)] at hf
        rw [hf, if_neg fun hc => hz hc.2]
      · rw [hother hj]
        exact hf
  · intro w j hj
    rw [(hbook j).2.2.1, hsessCap]
    exact h.conns w j (hconns w j hj)

theorem of_netRelease (h : Refs L) (hs : SameClaims L L') {w idx : Nat}
    (hw : L.net w = .release idx)
    (hconns : L'.mySessions = Function.update L.mySessions w (swapRemove (L.mySessions w) idx))
    (hsess : L'.sess = Function.update L.sess idx (L.sess idx).released)
    (hfree : L'.freeSess = if (L.sess idx).refs = 1 then L.freeSess ++ [idx] else L.freeSess)
    (hnet : L'.net = Function.update L.net w .idle) (hlock : L'.lock = L.lock) : Refs L' := by
  have hmem : idx ∈ L.mySessions w := h.net w idx (by rw [hw]; rfl)
  obtain ⟨hown, hidx⟩ := h.conns w idx hmem
  have hiff (w' j : Nat) : j ∈ L'.mySessions w' ↔ j ∈ L.mySessions w' ∧ j ≠ idx := by
    rw [hconns]
    by_cases hww : w' = w
    · subst hww
      rw [Function.update_self]
      exact mem_swapRemove (h.conns_nodup w')
    · rw [Function.update_of_ne hww]
      refine ⟨fun hj => ⟨hj, ?_⟩, fun hj => hj.1⟩
      rintro rfl
      exact hww ((h.conns w' j hj).1.symm.trans hown)
  have howner (j : Nat) : (L'.sess j).owner = (L.sess j).owner := by
    rw [hsess]
    by_cases hj : j = idx
    · rw [hj, Function.update_self]
      rfl
    · rw [Function.update_of_ne hj]
  refine h.of_release hs.cap hs.sessCap hsess hfree hs.tokens hlock ?_ ?_ hidx
    (fun w' j hj => ((hiff w' j).mp hj).1) ?_ ?_ ?_ ?_ (h.joiner_of_ne (by simp [hw]) hnet hlock)
  · intro j
    rw [hs.claims]
    refine ⟨le_rfl, fun hj => ⟨rfl, ?_⟩⟩
    simp only [Ledger.ownRef, howner, hiff, hj, ne_eq, not_false_eq_true, and_true]
  · rw [hs.claims, Ledger.ownRef, Ledger.ownRef, howner, hown, if_pos hmem,
      if_neg fun hm => ((hiff w idx).mp hm).2 rfl]
    omega
  · intro w'
    rw [hconns]
    by_cases hww : w' = w
    · subst hww
      rw [Function.update_self]
      exact nodup_swapRemove (h.conns_nodup w') idx
    · rw [Function.update_of_ne hww]
      exact h.conns_nodup w'
  · intro w' j hj
    rw [hnet] at hj
    by_cases hww : w' = w
    · subst hww
      simp [NetPc.sess] at hj
    · rw [Function.update_of_ne hww] at hj
      have hm := h.net w' j hj
      refine (hiff w' j).mpr ⟨hm, ?_⟩
      rintro rfl
      exact hww ((h.conns w' j hm).1.symm.trans hown)
  · intro w' j hj
    obtain ⟨hm, hne⟩ := (hiff w' j).mp hj
    have hd := h.dead w' j hm
    rw [hnet]
    by_cases hww : w' = w
    · subst hww
      rw [hw] at hd
      rw [Function.update_self, hd]
      simp [NetPc.leaving, Ne.symm hne]
    · rw [Function.update_of_ne hww]
      exact hd
  · intro w' j hj
    rw [hnet] at hj
    by_cases hww : w' = w
    · subst hww
      simp [NetPc.unplaced] at hj
    · rw [Function.update_of_ne hww] at hj
      exact h.unplaced w' j hj

theorem of_owedRelease (h : Refs L) (hP : Places L) {g i r x : Nat} {pc : GamePc}
    (hat : (L.game g).place = some (i, r)) (howed : (L.game g).owedAt r = {x})
    (hpc : pc.place = some (i, r)) (hpaid : pc.owedAt r = 0)
    (hhand : ∀ r, pc.handAt r = (L.game g).handAt r)
    (hcap : L'.cap = L.cap) (hsessCap : L'.sessCap = L.sessCap) (hroom : L'.room = L.room)
    (hconns : L'.mySessions = L.mySessions)
    (hsess : L'.sess = Function.update L.sess x (L.sess x).released)
    (hfree : L'.freeSess = if (L.sess x).refs = 1 then L.freeSess ++ [x] else L.freeSess)
    (hnet : L'.net = L.net) (hlock : L'.lock = L.lock)
    (hgame : L'.game = Function.update L.game g pc) : Refs L' := by
  have hown := hP.owner_of_place hat
  have hr : r < L.cap := hP.lt_of_mine (hP.mem_of_place hat)
  have htokens (r' : Nat) : L'.tokens r' = L.tokens r' :=
    tokens_of_eq (by rw [hroom]) (by rw [hgame]; exact handAt_update_same hhand _ _)
  have howed_other {r' : Nat} (hr' : r' ≠ r) : L'.owed r' = L.owed r' := by
    simp only [Ledger.owed, hroom, hgame]
    by_cases hg : (L.room r').owner = g
    · rw [hg, Function.update_self, GamePc.owedAt_of_ne hat hr', GamePc.owedAt_of_ne hpc hr']
    · rw [Function.update_of_ne hg]
  have howed_old : L.owed r = {x} := by rw [Ledger.owed, hown, howed]
  have howed_new : L'.owed r = 0 := by
    rw [Ledger.owed, hroom, hown, hgame, Function.update_self, hpaid]
  have hclaims : L.claims = x ::ₘ L'.claims := by
    have hch := Ledger.claims_change hr hcap fun r' hr' =>
      Ledger.roomClaims_same (htokens r') (howed_other hr')
    simp only [Ledger.roomClaims, htokens, howed_old, howed_new, hlock, add_zero] at hch
    have : L'.claims + {x} = L.claims := by
      refine add_right_cancel (b := (L.tokens r).map (·.sessIdx) +
        L.lock.flight.map (·.sessIdx)) ?_
      rw [← hch]
      abel
    rw [← this, add_comm, Multiset.singleton_add]
  have hownRef (j : Nat) : L'.ownRef j = L.ownRef j := by
    have howner : (L'.sess j).owner = (L.sess j).owner := by
      rw [hsess]
      by_cases hj : j = x
      · rw [hj, Function.update_self]
        rfl
      · rw [Function.update_of_ne hj]
    simp only [Ledger.ownRef, howner, hconns]
  have hx : x < L.sessCap := h.bound x (by rw [hclaims, Multiset.count_cons_self]; omega)
  refine h.of_release hcap hsessCap hsess hfree htokens hlock ?_ ?_ hx
    (fun w j hj => hconns ▸ hj) (hconns ▸ h.conns_nodup) (by rw [hnet, hconns]; exact h.net)
    (by rw [hnet, hconns]; exact h.dead) (by rw [hnet]; exact h.unplaced)
    (by rw [hnet, hlock]; exact h.joiner)
  · intro j
    rw [hclaims, Multiset.count_cons]
    refine ⟨Nat.le_add_right _ _, fun hj => ⟨by rw [if_neg hj, Nat.add_zero], hownRef j⟩⟩
  · rw [hownRef, hclaims, Multiset.count_cons_self]
    omega

/-! ### Join -/

theorem count_of_push (h : Refs L) {w idx r : Nat} {i : Seat} (hlock : L.lock = .push w idx r i) :
    L.claims.count idx = 0 ∧ idx ∈ L.mySessions w := by
  have hpc := h.joiner w idx (by rw [hlock]; rfl)
  have hmem := h.net w idx (by rw [hpc]; rfl)
  have hroom := h.unplaced w idx (by rw [hpc]; rfl)
  have hdead : (L.sess idx).dead = false := by
    have hd := h.dead w idx hmem
    rw [hpc] at hd
    simpa [NetPc.leaving] using hd
  refine ⟨?_, hmem⟩
  by_contra hne
  rcases h.seated idx (Nat.pos_of_ne_zero hne) with hc | hc | ⟨r', i', hc⟩
  · simp [hroom] at hc
  · simp [hdead] at hc
  · rw [hlock] at hc
    cases hc

theorem of_push (h : Refs L) (hP : Places L) {w idx r : Nat} {i : Seat}
    (hlock : L.lock = .push w idx r i) (hcap : L'.cap = L.cap) (hsessCap : L'.sessCap = L.sessCap)
    (hfree : L'.freeSess = L.freeSess) (hconns : L'.mySessions = L.mySessions)
    (hsess : L'.sess = Function.update L.sess idx (L.sess idx).addRef)
    (hroom : L'.room = Function.update L.room r ((L.room r).pushJoin ⟨idx, (L.sess idx).gen, i⟩))
    (hlock' : L'.lock = .store w idx r i) (hnet : L'.net = L.net) (hgame : L'.game = L.game) :
    Refs L' := by
  obtain ⟨hcount, hmem⟩ := h.count_of_push hlock
  have hr : r < L.cap := (hP.target r (by rw [hlock]; rfl)).1
  have hbook (j : Nat) : (L'.sess j).dead = (L.sess j).dead ∧
      (L'.sess j).inRoom = (L.sess j).inRoom ∧ (L'.sess j).owner = (L.sess j).owner ∧
      (L'.sess j).roomIdx = (L.sess j).roomIdx ∧ (L'.sess j).actorId = (L.sess j).actorId ∧
      (L'.sess j).gen = (L.sess j).gen := by
    rw [hsess]
    by_cases hj : j = idx
    · rw [hj, Function.update_self]
      exact ⟨rfl, rfl, rfl, rfl, rfl, rfl⟩
    · rw [Function.update_of_ne hj]
      exact ⟨rfl, rfl, rfl, rfl, rfl, rfl⟩
  have htok_self : L'.tokens r = ⟨idx, (L.sess idx).gen, i⟩ ::ₘ L.tokens r := by
    rw [Seats.tokens_self hroom hgame rfl]
    simp only [Ledger.tokens, RoomBook.pushJoin, RoomBook.members, ← Multiset.coe_add,
      Multiset.coe_singleton, ← Multiset.singleton_add]
    abel
  have htok_other {r' : Nat} (hr' : r' ≠ r) : L'.tokens r' = L.tokens r' :=
    Seats.tokens_other hroom hgame hr'
  have howed (r' : Nat) : L'.owed r' = L.owed r' :=
    Ledger.owed_same (by rw [hroom]; exact owner_update (by rfl) r') fun g => by rw [hgame]
  have hclaims : L'.claims = idx ::ₘ L.claims := by
    have hch := Ledger.claims_change hr hcap fun r' hr' =>
      Ledger.roomClaims_same (htok_other hr') (howed r')
    have hf : L'.lock.flight = 0 ∧ L.lock.flight = 0 := by rw [hlock, hlock']; exact ⟨rfl, rfl⟩
    simp only [Ledger.roomClaims, htok_self, howed, hf.1, hf.2, Multiset.map_cons, Multiset.map_zero,
      add_zero] at hch
    refine add_right_cancel (b := (L.tokens r).map (·.sessIdx) + L.owed r) ?_
    rw [hch, ← Multiset.singleton_add, ← Multiset.singleton_add]
    abel
  have hplace (j : Nat) (hj : j ≠ idx) : L'.place j = L.place j := by
    simp only [Ledger.place, hlock, hlock', LockPc.storing, if_neg (Ne.symm hj), (hbook j).2.2.2.1,
      (hbook j).2.2.2.2.1]
  have hok {r' : Nat} {e : RoomJoinEntry} (hne : e.sessIdx ≠ idx) (he : HolderOk L r' e) :
      HolderOk L' r' e :=
    { room := hcap ▸ he.room
      gen := (hbook _).2.2.2.2.2.trans he.gen
      place := (hplace _ hne).trans he.place }
  refine
    { refs := ?_
      one := ?_
      bound := ?_
      holder := ?_
      flight := by rw [hlock']; rintro _ ⟨⟩
      seated := ?_
      free := ?_
      conns := ?_
      conns_nodup := hconns ▸ h.conns_nodup
      net := by rw [hnet, hconns]; exact h.net
      dead := ?_
      unplaced := ?_
      joiner := ?_ }
  · intro j
    have hj := h.refs j
    rw [hclaims, Ledger.ownRef, (hbook j).2.2.1, hconns, hsess]
    by_cases hji : j = idx
    · subst hji
      rw [Function.update_self, Multiset.count_cons_self]
      show (L.sess j).refs + 1 = _
      rw [hj, Ledger.ownRef]
      push_cast
      omega
    · rw [Function.update_of_ne hji, Multiset.count_cons_of_ne hji]
      exact hj
  · intro j
    rw [hclaims]
    by_cases hji : j = idx
    · subst hji
      rw [Multiset.count_cons_self, hcount]
    · rw [Multiset.count_cons_of_ne hji]
      exact h.one j
  · intro j hj
    rw [hclaims] at hj
    rw [hsessCap]
    by_cases hji : j = idx
    · exact hji ▸ (h.conns w idx hmem).2
    · rw [Multiset.count_cons_of_ne hji] at hj
      exact h.bound j hj
  · intro r' e he
    by_cases hrr : r' = r
    · subst hrr
      rw [htok_self] at he
      rcases Multiset.mem_cons.mp he with rfl | he
      · exact
          { room := hcap ▸ hr
            gen := (hbook idx).2.2.2.2.2
            place := by simp [Ledger.place, hlock', LockPc.storing] }
      · exact hok (h.holder_ne hcount he) (h.holder r' e he)
    · rw [htok_other hrr] at he
      exact hok (h.holder_ne hcount he) (h.holder r' e he)
  · intro j hj
    rw [(hbook j).1, (hbook j).2.1, hlock']
    by_cases hji : j = idx
    · exact Or.inr (Or.inr ⟨r, i, by rw [hji]; rfl⟩)
    · rw [hclaims, Multiset.count_cons_of_ne hji] at hj
      rcases h.seated j hj with hc | hc | ⟨r', i', hc⟩
      · exact Or.inl hc
      · exact Or.inr (Or.inl hc)
      · rw [hlock] at hc
        cases hc
  · intro j
    have hf := h.free j
    rw [hfree, hsessCap, hsess]
    by_cases hji : j = idx
    · subst hji
      have hj := h.refs j
      rw [Ledger.ownRef, (h.conns w j hmem).1, if_pos hmem] at hj
      rw [Function.update_self]
      rw [if_neg (by omega)] at hf
      rw [hf, if_neg]
      show ¬ (_ ∧ (L.sess j).refs + 1 = 0)
      omega
    · rw [Function.update_of_ne hji]
      exact hf
  · intro w' j hj
    rw [(hbook j).2.2.1, hsessCap]
    exact h.conns w' j (hconns ▸ hj)
  · intro w' j hj
    rw [(hbook j).1, hnet]
    exact h.dead w' j (hconns ▸ hj)
  · intro w' j hj
    rw [(hbook j).2.1]
    exact h.unplaced w' j (hnet ▸ hj)
  · intro w' j hj
    rw [hlock'] at hj
    cases hj
    rw [hnet]
    exact h.joiner w idx (by rw [hlock]; rfl)

theorem of_store (h : Refs L) {w idx r : Nat} {i : Seat} (hlock : L.lock = .store w idx r i)
    (hcap : L'.cap = L.cap) (hsessCap : L'.sessCap = L.sessCap) (hfree : L'.freeSess = L.freeSess)
    (hconns : L'.mySessions = L.mySessions)
    (hsess : L'.sess = Function.update L.sess idx ((L.sess idx).placed r i))
    (hroom : L'.room = L.room) (hlock' : L'.lock = .free)
    (hnet : L'.net = Function.update L.net w (.joined idx i.val r)) (hgame : L'.game = L.game) :
    Refs L' := by
  have hpc := h.joiner w idx (by rw [hlock]; rfl)
  have hmem := h.net w idx (by rw [hpc]; rfl)
  have hbook (j : Nat) : (L'.sess j).refs = (L.sess j).refs ∧ (L'.sess j).dead = (L.sess j).dead ∧
      (L'.sess j).owner = (L.sess j).owner ∧ (L'.sess j).gen = (L.sess j).gen := by
    rw [hsess]
    by_cases hj : j = idx
    · rw [hj, Function.update_self]
      exact ⟨rfl, rfl, rfl, rfl⟩
    · rw [Function.update_of_ne hj]
      exact ⟨rfl, rfl, rfl, rfl⟩
  have hself : L'.sess idx = (L.sess idx).placed r i := by rw [hsess, Function.update_self]
  have hother {j : Nat} (hj : j ≠ idx) : L'.sess j = L.sess j := by
    rw [hsess, Function.update_of_ne hj]
  have htok (r : Nat) : L'.tokens r = L.tokens r := tokens_of_eq (by rw [hroom]) (by rw [hgame])
  have howed (r : Nat) : L'.owed r = L.owed r := by simp only [Ledger.owed, hroom, hgame]
  have hclaims : L'.claims = L.claims :=
    Ledger.claims_same hcap (fun r => Ledger.roomClaims_same (htok r) (howed r))
      (by rw [hlock, hlock']; rfl)
  have hplace (j : Nat) : L'.place j = L.place j := by
    by_cases hj : j = idx
    · subst hj
      simp [Ledger.place, hlock, hlock', LockPc.storing, hself, SessBook.placed]
    · simp [Ledger.place, hlock, hlock', LockPc.storing, hother hj, Ne.symm hj]
  refine
    { refs := ?_
      one := hclaims ▸ h.one
      bound := by rw [hclaims, hsessCap]; exact h.bound
      holder := ?_
      flight := by rw [hlock']; rintro _ ⟨⟩
      seated := ?_
      free := ?_
      conns := ?_
      conns_nodup := hconns ▸ h.conns_nodup
      net := ?_
      dead := ?_
      unplaced := ?_
      joiner := by rw [hlock']; rintro _ _ ⟨⟩ }
  · intro j
    rw [hclaims, Ledger.ownRef, (hbook j).1, (hbook j).2.2.1, hconns]
    exact h.refs j
  · intro r' e he
    have hok := h.holder r' e (htok r' ▸ he)
    exact
      { room := hcap ▸ hok.room
        gen := (hbook _).2.2.2.trans hok.gen
        place := (hplace _).trans hok.place }
  · intro j hj
    rw [hclaims] at hj
    by_cases hji : j = idx
    · subst hji
      rw [hself]
      exact Or.inl rfl
    · rw [hother hji]
      rcases h.seated j hj with hc | hc | ⟨r', i', hc⟩
      · exact Or.inl hc
      · exact Or.inr (Or.inl hc)
      · rw [hlock] at hc
        cases hc
        exact absurd rfl hji
  · intro j
    rw [hfree, hsessCap, (hbook j).1]
    exact h.free j
  · intro w' j hj
    rw [(hbook j).2.2.1, hsessCap]
    exact h.conns w' j (hconns ▸ hj)
  · intro w' j hj
    rw [hconns]
    by_cases hw : w' = w
    · subst hw
      rw [hnet, Function.update_self] at hj
      cases hj
      exact hmem
    · rw [hnet, Function.update_of_ne hw] at hj
      exact h.net w' j hj
  · intro w' j hj
    rw [hconns] at hj
    rw [(hbook j).2.1, h.dead w' j hj, hnet]
    by_cases hw : w' = w
    · subst hw
      rw [Function.update_self, hpc]
      rfl
    · rw [Function.update_of_ne hw]
  · intro w' j hj
    by_cases hw : w' = w
    · subst hw
      rw [hnet, Function.update_self] at hj
      cases hj
    · rw [hnet, Function.update_of_ne hw] at hj
      have hji : j ≠ idx := by
        rintro rfl
        have hm := h.net w' j (NetPc.sess_of_unplaced hj)
        exact hw ((h.conns w' j hm).1.symm.trans (h.conns w j hmem).1)
      rw [hother hji]
      exact h.unplaced w' j hj

/-! ### Transfer -/

/-- One session's room number is overwritten, and its one claim is now a seat of room `nr`. -/
theorem of_moved (h : Refs L) {nr : Nat} {e : RoomJoinEntry} (hcap : L'.cap = L.cap)
    (hsessCap : L'.sessCap = L.sessCap) (hfree : L'.freeSess = L.freeSess)
    (hconns : L'.mySessions = L.mySessions) (hnr : nr < L.cap)
    (hgen : (L.sess e.sessIdx).gen = e.sessGen)
    (hactor : (L.sess e.sessIdx).actorId = e.actorId.val)
    (hsess : L'.sess = Function.update L.sess e.sessIdx ((L.sess e.sessIdx).moved e.sessGen nr))
    (hnet : L'.net = L.net) (hclaims : L'.claims = L.claims) (he : e ∈ L'.tokens nr)
    (htokens : ∀ r e', e' ∈ L'.tokens r → e'.sessIdx ≠ e.sessIdx → e' ∈ L.tokens r)
    (hrooms : ∀ r e', e' ∈ L'.tokens r → r < L.cap)
    (hflight : ∀ e' ∈ L'.lock.flight, e' ∈ L.lock.flight)
    (hemptying : ∀ old, L'.lock.emptying = some old → L.lock.emptying = some old)
    (hstoring : L.lock.storing = none) (hstoring' : L'.lock.storing = none)
    (hjoiner : L'.lock.joiner = none) : Refs L' := by
  have hself : L'.sess e.sessIdx = { L.sess e.sessIdx with roomIdx := nr } := by
    rw [hsess, Function.update_self, SessBook.moved, if_pos hgen]
  have hother {j : Nat} (hj : j ≠ e.sessIdx) : L'.sess j = L.sess j := by
    rw [hsess, Function.update_of_ne hj]
  have hbook (j : Nat) : (L'.sess j).refs = (L.sess j).refs ∧ (L'.sess j).dead = (L.sess j).dead ∧
      (L'.sess j).owner = (L.sess j).owner ∧ (L'.sess j).inRoom = (L.sess j).inRoom := by
    by_cases hj : j = e.sessIdx
    · rw [hj, hself]
      exact ⟨rfl, rfl, rfl, rfl⟩
    · rw [hother hj]
      exact ⟨rfl, rfl, rfl, rfl⟩
  have hok {r : Nat} {e' : RoomJoinEntry} (hne : e'.sessIdx ≠ e.sessIdx) (ho : HolderOk L r e') :
      HolderOk L' r e' :=
    { room := hcap ▸ ho.room
      gen := by rw [hother hne]; exact ho.gen
      place := (Ledger.place_same (by rw [hother hne]) (by rw [hother hne])
        (by rw [hstoring, hstoring'])).trans ho.place }
  have hone : ∀ idx, L'.claims.count idx ≤ 1 := hclaims ▸ h.one
  have hnr' : nr < L'.cap := hcap ▸ hnr
  refine
    { refs := ?_
      one := hone
      bound := by rw [hclaims, hsessCap]; exact h.bound
      holder := ?_
      flight := ?_
      seated := ?_
      free := ?_
      conns := ?_
      conns_nodup := hconns ▸ h.conns_nodup
      net := by rw [hnet, hconns]; exact h.net
      dead := ?_
      unplaced := ?_
      joiner := by rw [hjoiner]; rintro _ _ ⟨⟩ }
  · intro j
    rw [hclaims, Ledger.ownRef, (hbook j).1, (hbook j).2.2.1, hconns]
    exact h.refs j
  · intro r e' he'
    by_cases hj : e'.sessIdx = e.sessIdx
    · obtain ⟨rfl, rfl⟩ := Ledger.token_unique hone hnr' (hcap ▸ hrooms r e' he') he he' hj
      refine ⟨hnr', by rw [hself]; exact hgen, ?_⟩
      simp [Ledger.place, hstoring', hself, hactor]
    · exact hok hj (h.holder r e' (htokens r e' he' hj))
  · intro old hold e' he'
    exact hok (Ledger.token_not_flight hone hnr' he he')
      (h.flight old (hemptying old hold) e' (hflight e' he'))
  · intro j hj
    rw [(hbook j).2.1, (hbook j).2.2.2]
    rcases h.seated j (hclaims ▸ hj) with hc | hc | ⟨r', i', hc⟩
    · exact Or.inl hc
    · exact Or.inr (Or.inl hc)
    · rw [hstoring] at hc
      cases hc
  · intro j
    rw [hfree, hsessCap, (hbook j).1]
    exact h.free j
  · intro w j hj
    rw [(hbook j).2.2.1, hsessCap]
    exact h.conns w j (hconns ▸ hj)
  · intro w j hj
    rw [(hbook j).2.1, hnet]
    exact h.dead w j (hconns ▸ hj)
  · intro w j hj
    rw [(hbook j).2.2.2]
    exact h.unplaced w j (hnet ▸ hj)

theorem step_moveSeat (h : Refs L) (hS : Seats L) (hP : Places L) {g i old nr : Nat} {seat : Seat}
    {rest : List Seat} {moved : Int} {joins : List RoomJoinEntry} {leaves : List RoomLeaveEntry}
    {e : RoomLeaveEntry} (hlock : L.lock = .move g i old nr (seat :: rest) moved joins leaves)
    (hseat : (L.room old).seated seat = some e)
    (hcap : L'.cap = L.cap) (hsessCap : L'.sessCap = L.sessCap) (hfree : L'.freeSess = L.freeSess)
    (hconns : L'.mySessions = L.mySessions)
    (hsess : L'.sess = Function.update L.sess e.sessIdx ((L.sess e.sessIdx).moved e.sessGen nr))
    (hroom : L'.room = ((L.modRoom nr (·.moveIn seat e)).modRoom old (·.moveOut seat)).room)
    (hlock' : L'.lock = .move g i old nr rest (moved + 1) joins leaves) (hnet : L'.net = L.net)
    (hgame : L'.game = L.game) : Refs L' := by
  obtain ⟨hne, hhold, hhnr, -, -⟩ := Seats.transfer_hands hP (g := g) (i := i) (o := old)
    (n := nr) (by rw [hlock]; rfl) (by rw [hlock]; rfl)
  have hold : L'.room old = (L.room old).moveOut seat := Seats.room_two_old hne hroom
  have hnr : L'.room nr = (L.room nr).moveIn seat e := Seats.room_two_new hne hroom
  have hother (r : Nat) : r ≠ old → r ≠ nr → L'.room r = L.room r := Seats.room_two_other hroom
  have hempty := (hS.move g i old nr _ moved joins leaves hlock).new_seat hseat
  have hltnr : nr < L.cap := hP.lt_of_inHand (by rw [hlock]; rfl)
  obtain ⟨hg, -⟩ := hP.transfer g i old nr (by rw [hlock]; rfl)
  have hltold : old < L.cap := hP.lt_of_mine (hP.mem_of_place (g := g) (i := i) (by rw [hg]; rfl))
  let e' : RoomJoinEntry := ⟨e.sessIdx, e.sessGen, seat⟩
  have htok_old : L.tokens old = e' ::ₘ L'.tokens old := by
    simp only [Ledger.tokens, Ledger.hand, hold, hgame, RoomBook.members_moveOut hseat,
      Multiset.cons_add]
    rfl
  have htok_nr : L'.tokens nr = e' ::ₘ L.tokens nr := by
    simp only [Ledger.tokens, Ledger.hand, hnr, hgame, RoomBook.members_moveIn hempty,
      Multiset.cons_add]
    rfl
  have htok_other {r : Nat} (ho : r ≠ old) (hn : r ≠ nr) : L'.tokens r = L.tokens r :=
    tokens_of_eq (hother r ho hn) (by rw [hgame])
  have howner (r : Nat) : (L'.room r).owner = (L.room r).owner := by
    by_cases ho : r = old
    · rw [ho, hold]
      rfl
    · by_cases hn : r = nr
      · rw [hn, hnr]
        rfl
      · rw [hother r ho hn]
  have howed (r : Nat) : L'.owed r = L.owed r :=
    Ledger.owed_same (howner r) fun g => by rw [hgame]
  have hclaims : L'.claims = L.claims := by
    have hch := Ledger.claims_change_two hltold hltnr hne hcap
      (fun r ho hn => Ledger.roomClaims_same (htok_other ho hn) (howed r)) (by rw [hlock, hlock']; rfl)
    refine add_right_cancel (b := L.roomClaims old + L.roomClaims nr) ?_
    rw [hch]
    simp only [Ledger.roomClaims, howed, htok_old, htok_nr, Multiset.map_cons, Multiset.cons_add,
      Multiset.add_cons]
  have hmem : e' ∈ L.tokens old := htok_old ▸ Multiset.mem_cons_self _ _
  have hok := h.holder old e' hmem
  have hplace := hok.place
  simp only [Ledger.place, hlock, LockPc.storing] at hplace
  refine h.of_moved (e := e') hcap hsessCap hfree hconns hltnr hok.gen (congrArg Prod.snd hplace)
    hsess hnet hclaims (htok_nr ▸ Multiset.mem_cons_self _ _) ?_ ?_ (by rw [hlock, hlock']; exact
      fun _ => id) (by rw [hlock, hlock']; exact fun _ => id) (by rw [hlock]; rfl)
    (by rw [hlock']; rfl) (by rw [hlock']; rfl)
  · intro r x hx hs
    by_cases ho : r = old
    · rw [ho] at hx ⊢
      exact htok_old ▸ Multiset.mem_cons_of_mem hx
    · by_cases hn : r = nr
      · rw [hn] at hx ⊢
        rw [htok_nr] at hx
        exact (Multiset.mem_cons.mp hx).resolve_left fun heq => hs (by rw [heq])
      · exact htok_other ho hn ▸ hx
  · intro r x hx
    by_cases ho : r = old
    · exact ho ▸ hltold
    · by_cases hn : r = nr
      · exact hn ▸ hltnr
      · rw [htok_other ho hn] at hx
        exact (h.holder r x hx).room

theorem step_carry (h : Refs L) (hP : Places L) {g i old nr : Nat} {moved : Int}
    {e : RoomJoinEntry} {joins : List RoomJoinEntry} {leaves : List RoomLeaveEntry}
    (hlock : L.lock = .carry g i old nr moved (e :: joins) leaves)
    (hcap : L'.cap = L.cap) (hsessCap : L'.sessCap = L.sessCap) (hfree : L'.freeSess = L.freeSess)
    (hconns : L'.mySessions = L.mySessions)
    (hsess : L'.sess = Function.update L.sess e.sessIdx ((L.sess e.sessIdx).moved e.sessGen nr))
    (hroom : L'.room = Function.update L.room nr ((L.room nr).carryJoin e))
    (hlock' : L'.lock = .carry g i old nr moved joins leaves) (hnet : L'.net = L.net)
    (hgame : L'.game = L.game) : Refs L' := by
  have hltnr : nr < L.cap := hP.lt_of_inHand (by rw [hlock]; rfl)
  have htok_nr : L'.tokens nr = e ::ₘ L.tokens nr := by
    have hparts : ((L.room nr).carryJoin e).members = (L.room nr).members ∧
        ((L.room nr).carryJoin e).pendingJoin = (L.room nr).pendingJoin ++ [e] := by
      unfold RoomBook.carryJoin
      split <;> exact ⟨rfl, rfl⟩
    rw [Seats.tokens_self hroom hgame (RoomBook.carryJoin_owner _ _), hparts.1, hparts.2]
    simp only [Ledger.tokens, ← Multiset.coe_add, Multiset.coe_singleton,
      ← Multiset.singleton_add]
    abel
  have htok_other {r : Nat} (hr : r ≠ nr) : L'.tokens r = L.tokens r :=
    Seats.tokens_other hroom hgame hr
  have howed (r : Nat) : L'.owed r = L.owed r :=
    Ledger.owed_same (by rw [hroom]; exact owner_update (RoomBook.carryJoin_owner _ _) r)
      fun g => by rw [hgame]
  have hflight : L.lock.flight = e ::ₘ L'.lock.flight := by rw [hlock, hlock']; rfl
  have hclaims : L'.claims = L.claims := by
    have hch := Ledger.claims_change hltnr hcap fun r hr =>
      Ledger.roomClaims_same (htok_other hr) (howed r)
    refine add_right_cancel (b := L.roomClaims nr + L.lock.flight.map (·.sessIdx)) ?_
    rw [hch]
    simp only [Ledger.roomClaims, howed, htok_nr, hflight, Multiset.map_cons, Multiset.cons_add,
      Multiset.add_cons]
  have hok := h.flight old (by rw [hlock]; rfl) e (hflight ▸ Multiset.mem_cons_self _ _)
  have hplace := hok.place
  simp only [Ledger.place, hlock, LockPc.storing] at hplace
  refine h.of_moved (e := e) hcap hsessCap hfree hconns hltnr hok.gen (congrArg Prod.snd hplace)
    hsess hnet hclaims (htok_nr ▸ Multiset.mem_cons_self _ _) ?_ ?_
    (fun x hx => hflight ▸ Multiset.mem_cons_of_mem hx) (by rw [hlock, hlock']; exact fun _ => id)
    (by rw [hlock]; rfl) (by rw [hlock']; rfl) (by rw [hlock']; rfl)
  · intro r x hx hs
    by_cases hr : r = nr
    · rw [hr] at hx ⊢
      rw [htok_nr] at hx
      exact (Multiset.mem_cons.mp hx).resolve_left fun heq => hs (by rw [heq])
    · exact htok_other hr ▸ hx
  · intro r x hx
    by_cases hr : r = nr
    · exact hr ▸ hltnr
    · rw [htok_other hr] at hx
      exact (h.holder r x hx).room

theorem step_close (h : Refs L) (hP : Places L) {g i old nr : Nat}
    (hlock : L.lock = .close g i old nr)
    (hcap : L'.cap = L.cap) (hsessCap : L'.sessCap = L.sessCap) (hfree : L'.freeSess = L.freeSess)
    (hconns : L'.mySessions = L.mySessions) (hsess : L'.sess = L.sess)
    (hroom : L'.room = Function.update L.room old (L.room old).close)
    (hlock' : L'.lock = .move g i old nr (List.finRange 4) 0 (L.room old).pendingJoin
      (L.room old).pendingLeave) (hnet : L'.net = L.net) (hgame : L'.game = L.game) : Refs L' := by
  obtain ⟨hg, -⟩ := hP.transfer g i old nr (by rw [hlock]; rfl)
  have hltold : old < L.cap := hP.lt_of_mine (hP.mem_of_place (g := g) (i := i) (by rw [hg]; rfl))
  have htok_old : L.tokens old = L'.tokens old + (L.room old).pendingJoin := by
    rw [Seats.tokens_self hroom hgame rfl]
    simp only [Ledger.tokens, RoomBook.close, RoomBook.members, Multiset.coe_nil, add_zero]
    abel
  have htok_other {r : Nat} (hr : r ≠ old) : L'.tokens r = L.tokens r :=
    Seats.tokens_other hroom hgame hr
  have howed (r : Nat) : L'.owed r = L.owed r :=
    Ledger.owed_same (by rw [hroom]; exact owner_update (by rfl) r) fun g => by rw [hgame]
  have hflight : L.lock.flight = 0 ∧ L'.lock.flight = (L.room old).pendingJoin := by
    rw [hlock, hlock']
    exact ⟨rfl, rfl⟩
  have hclaims : L'.claims = L.claims := by
    have hch := Ledger.claims_change hltold hcap fun r hr =>
      Ledger.roomClaims_same (htok_other hr) (howed r)
    refine add_right_cancel (b := L.roomClaims old + L.lock.flight.map (·.sessIdx)) ?_
    rw [hch]
    simp only [Ledger.roomClaims, howed, htok_old, hflight.1, hflight.2, Multiset.map_add,
      Multiset.map_zero, add_zero]
    abel
  refine h.of_still hcap hsessCap hfree hconns hsess hnet hclaims ?_ ?_ (by rw [hlock, hlock']; rfl)
    (by rw [hlock']; rintro _ _ ⟨⟩)
  · intro r e he
    by_cases hr : r = old
    · rw [hr] at he ⊢
      exact htok_old ▸ Multiset.mem_add.mpr (Or.inl he)
    · exact htok_other hr ▸ he
  · intro old' hold e he
    rw [hlock'] at hold
    cases hold
    rw [hflight.2] at he
    exact Or.inr (htok_old ▸ Multiset.mem_add.mpr (Or.inr he))

/-! ### The workers' rooms -/

theorem owedAt_update_same {m : Nat → GamePc} {g : Nat} {p : GamePc}
    (h : ∀ r, p.owedAt r = (m g).owedAt r) (g' r : Nat) :
    (Function.update m g p g').owedAt r = (m g').owedAt r := by
  by_cases hg : g' = g
  · subst hg
    rw [Function.update_self, h]
  · rw [Function.update_of_ne hg]

theorem of_work (h : Refs L) {g r : Nat} {pc : GamePc} {R : RoomBook}
    (hat : ∀ r', r' ≠ r → (L.game g).handAt r' = 0 ∧ (L.game g).owedAt r' = 0)
    (hpc : ∀ r', r' ≠ r → pc.handAt r' = 0 ∧ pc.owedAt r' = 0)
    (hroom : L'.room = Function.update L.room r R)
    (hgame : L'.game = Function.update L.game g pc)
    (hself : L'.roomClaims r = L.roomClaims r) (htokens : ∀ e, e ∈ L'.tokens r → e ∈ L.tokens r)
    (hcap : L'.cap = L.cap) (hsessCap : L'.sessCap = L.sessCap) (hfree : L'.freeSess = L.freeSess)
    (hconns : L'.mySessions = L.mySessions) (hsess : L'.sess = L.sess) (hnet : L'.net = L.net)
    (hlock : L'.lock = L.lock) : Refs L' := by
  have hother {r' : Nat} (hr' : r' ≠ r) : L'.tokens r' = L.tokens r' ∧ L'.owed r' = L.owed r' := by
    have hsame : L'.room r' = L.room r' := Seats.room_other hroom hr'
    refine ⟨tokens_of_eq hsame ?_, Ledger.owed_same (by rw [hsame]) fun g' => ?_⟩
    · rw [hgame]
      exact handAt_update (hat r' hr').1 (hpc r' hr').1 _
    · rw [hgame]
      by_cases hg : g' = g
      · rw [hg, Function.update_self, (hat r' hr').2, (hpc r' hr').2]
      · rw [Function.update_of_ne hg]
  refine h.of_still hcap hsessCap hfree hconns hsess hnet ?_ ?_ ?_ (by rw [hlock])
    (by rw [hlock]; exact fun _ _ => id)
  · refine Ledger.claims_same hcap (fun r' => ?_) (by rw [hlock])
    by_cases hr' : r' = r
    · exact hr' ▸ hself
    · exact Ledger.roomClaims_same (hother hr').1 (hother hr').2
  · intro r' e he
    by_cases hr' : r' = r
    · rw [hr'] at he ⊢
      exact htokens e he
    · exact (hother hr').1 ▸ he
  · rw [hlock]
    exact fun old hold e he => Or.inl ⟨hold, he⟩

theorem tokens_work {g r : Nat} {pc : GamePc} {R : RoomBook}
    (hroom : L'.room = Function.update L.room r R) (hR : R.owner = g)
    (hgame : L'.game = Function.update L.game g pc) :
    L'.tokens r = R.members + R.pendingJoin + pc.handAt r ∧ L'.owed r = pc.owedAt r := by
  have hself : L'.room r = R := Seats.room_self hroom
  rw [Ledger.tokens, Ledger.hand, Ledger.owed, hself, hR, hgame, Function.update_self]
  exact ⟨rfl, rfl⟩

theorem of_keeping (h : Refs L) (hP : Places L) {g r : Nat} {p : GamePc} {R : RoomBook}
    (hmem : r ∈ L.myRooms g)
    (hat : ∀ r', r' ≠ r → (L.game g).handAt r' = 0) (hnone : ∀ r, (L.game g).owedAt r = 0)
    (hpc : ∀ r', r' ≠ r → p.handAt r' = 0) (hnone' : ∀ r, p.owedAt r = 0)
    (hroom : L'.room = Function.update L.room r R) (hR : R.owner = (L.room r).owner)
    (hgame : L'.game = Function.update L.game g p)
    (htokens : (L.room r).members + (L.room r).pendingJoin + (L.game g).handAt r =
      R.members + R.pendingJoin + p.handAt r)
    (hcap : L'.cap = L.cap) (hsessCap : L'.sessCap = L.sessCap) (hfree : L'.freeSess = L.freeSess)
    (hconns : L'.mySessions = L.mySessions) (hsess : L'.sess = L.sess) (hnet : L'.net = L.net)
    (hlock : L'.lock = L.lock) : Refs L' := by
  have hown := hP.mine_owner g r hmem
  obtain ⟨htok', howed'⟩ := tokens_work hroom (hR.trans hown) hgame
  have htok : L'.tokens r = L.tokens r := by
    rw [htok', ← htokens, Ledger.tokens, Ledger.hand, hown]
  refine h.of_work (fun r' hr' => ⟨hat r' hr', hnone r'⟩) (fun r' hr' => ⟨hpc r' hr', hnone' r'⟩)
    hroom hgame (Ledger.roomClaims_same htok ?_) (fun _ he => htok ▸ he) hcap hsessCap hfree hconns
    hsess hnet hlock
  rw [howed', hnone', Ledger.owed, hown, hnone]

theorem of_owing (h : Refs L) (hP : Places L) {g i r : Nat} {p : GamePc} {R : RoomBook}
    {e : RoomJoinEntry} (hat : (L.game g).place = some (i, r)) (hnone : ∀ r, (L.game g).owedAt r = 0)
    (hpc : p.place = some (i, r)) (howed : p.owedAt r = {e.sessIdx})
    (hroom : L'.room = Function.update L.room r R) (hR : R.owner = (L.room r).owner)
    (hgame : L'.game = Function.update L.game g p)
    (htokens : (L.room r).members + (L.room r).pendingJoin + (L.game g).handAt r =
      e ::ₘ (R.members + R.pendingJoin + p.handAt r))
    (hcap : L'.cap = L.cap) (hsessCap : L'.sessCap = L.sessCap) (hfree : L'.freeSess = L.freeSess)
    (hconns : L'.mySessions = L.mySessions) (hsess : L'.sess = L.sess) (hnet : L'.net = L.net)
    (hlock : L'.lock = L.lock) : Refs L' := by
  have hown := hP.owner_of_place hat
  obtain ⟨htok', howed'⟩ := tokens_work hroom (hR.trans hown) hgame
  have htok : L.tokens r = e ::ₘ L'.tokens r := by
    rw [htok', ← htokens, Ledger.tokens, Ledger.hand, hown]
  refine h.of_work (fun r' hr' => ⟨GamePc.handAt_of_ne hat hr', hnone r'⟩)
    (fun r' hr' => ⟨GamePc.handAt_of_ne hpc hr', GamePc.owedAt_of_ne hpc hr'⟩) hroom hgame ?_
    (fun x hx => htok ▸ Multiset.mem_cons_of_mem hx) hcap hsessCap hfree hconns hsess hnet hlock
  rw [Ledger.roomClaims, Ledger.roomClaims, howed', howed, htok, Ledger.owed, hown, hnone,
    Multiset.map_cons, add_zero, add_comm, Multiset.singleton_add]

theorem of_move (h : Refs L) {g : Nat} {pc : GamePc}
    (hroom : ∀ r, Ledger.SameHolders (L.room r) (L'.room r))
    (hgame : L'.game = Function.update L.game g pc)
    (hpc : ∀ r, pc.handAt r = (L.game g).handAt r ∧ pc.owedAt r = (L.game g).owedAt r)
    (hcap : L'.cap = L.cap) (hsessCap : L'.sessCap = L.sessCap) (hfree : L'.freeSess = L.freeSess)
    (hconns : L'.mySessions = L.mySessions) (hsess : L'.sess = L.sess) (hnet : L'.net = L.net)
    (hlock : L'.lock = L.lock) : Refs L' := by
  refine h.of_same hcap hsessCap hfree hconns hsess hnet (fun r => ⟨?_, ?_⟩) (by rw [hlock])
    (by rw [hlock]; exact fun _ => id) (by rw [hlock]) (by rw [hlock]; exact fun _ _ => id)
  · refine Ledger.tokens_same (hroom r) fun g' => ?_
    rw [hgame]
    exact handAt_update_same (fun r => (hpc r).1) g' r
  · refine Ledger.owed_same (hroom r).owner fun g' => ?_
    rw [hgame]
    exact owedAt_update_same (fun r => (hpc r).2) g' r

theorem of_section (h : Refs L) (hroom : ∀ r, Ledger.SameHolders (L.room r) (L'.room r))
    (hgame : L'.game = L.game) (hcap : L'.cap = L.cap) (hsessCap : L'.sessCap = L.sessCap)
    (hfree : L'.freeSess = L.freeSess) (hconns : L'.mySessions = L.mySessions)
    (hsess : L'.sess = L.sess) (hnet : L'.net = L.net) (hflight : L'.lock.flight = L.lock.flight)
    (hemptying : L'.lock.emptying = L.lock.emptying)
    (hstoring : L'.lock.storing = L.lock.storing)
    (hjoiner : ∀ w idx, L'.lock.joiner = some (w, idx) → L.lock.joiner = some (w, idx)) :
    Refs L' :=
  h.of_same hcap hsessCap hfree hconns hsess hnet
    (fun r => ⟨Ledger.tokens_same (hroom r) fun _ => by rw [hgame],
      Ledger.owed_same (hroom r).owner fun _ => by rw [hgame]⟩)
    hflight (fun _ hold => hemptying ▸ hold) hstoring hjoiner

theorem owedAt_of_not_kept (hP : Places L) {r : Nat} (hr : r ∈ L.freeRooms) (g : Nat) :
    (L.game g).owedAt r = 0 := by
  cases hp : (L.game g).place with
  | none => exact GamePc.owedAt_of_none hp r
  | some p =>
    obtain ⟨i, r'⟩ := p
    refine GamePc.owedAt_of_ne hp ?_
    rintro rfl
    exact (hP.not_kept (Or.inl hr) g).2 (hP.mem_of_place hp)

theorem of_fresh (h : Refs L) (hS : Seats L) (hP : Places L) {r g : Nat} (hr : r ∈ L.freeRooms)
    (hmoving : L.lock.moving = none)
    (hroom : L'.room = Function.update L.room r ((L.room r).fresh g))
    (hhand : ∀ g' r', (L'.game g').handAt r' = (L.game g').handAt r')
    (howed : ∀ g' r', (L'.game g').owedAt r' = (L.game g').owedAt r')
    (hcap : L'.cap = L.cap) (hsessCap : L'.sessCap = L.sessCap) (hfree : L'.freeSess = L.freeSess)
    (hconns : L'.mySessions = L.mySessions) (hsess : L'.sess = L.sess) (hnet : L'.net = L.net)
    (hflight : L'.lock.flight = L.lock.flight) (hemptying : L'.lock.emptying = L.lock.emptying)
    (hstoring : L'.lock.storing = L.lock.storing)
    (hjoiner : ∀ w idx, L'.lock.joiner = some (w, idx) → L.lock.joiner = some (w, idx)) :
    Refs L' := by
  refine h.of_same hcap hsessCap hfree hconns hsess hnet (fun r' => ?_) hflight
    (fun _ hold => hemptying ▸ hold) hstoring hjoiner
  by_cases hr' : r' = r
  · subst hr'
    have hself : L'.room r' = (L.room r').fresh g := Seats.room_self hroom
    constructor
    · rw [hS.tokens_eq_zero (by simp [hmoving]) (hS.free r' hr), Ledger.tokens, Ledger.hand, hhand,
        hP.handAt_of_not_kept (Or.inl hr), hself]
      rfl
    · rw [Ledger.owed, Ledger.owed, howed, owedAt_of_not_kept hP hr, owedAt_of_not_kept hP hr]
  · have hsame : L'.room r' = L.room r' := Seats.room_other hroom hr'
    exact ⟨tokens_of_eq hsame (hhand _ _), Ledger.owed_same (by rw [hsame]) fun g' => howed g' r'⟩

theorem of_handling (h : Refs L) {w idx : Nat} (hw : L.Handling w idx) :
    idx ∈ L.mySessions w ∧ (L.net w).leaving = none := by
  rcases hw with ⟨hw, hmem, -⟩ | hw | ⟨a, r, hw⟩
  · exact ⟨hmem, by rw [hw]; rfl⟩
  · exact ⟨h.net w idx (by rw [hw]; rfl), by rw [hw]; rfl⟩
  · exact ⟨h.net w idx (by rw [hw]; rfl), by rw [hw]; rfl⟩

theorem step_cut (h : Refs L) {w idx : Nat} (hw : L.Handling w idx) :
    Refs ((L.modSess idx (·.cut)).setNet w (.leaveRead idx)) := by
  obtain ⟨hmem, hleaving⟩ := h.of_handling hw
  have hself : Function.update L.sess idx (L.sess idx).cut idx = (L.sess idx).cut :=
    Function.update_self ..
  have hother {j : Nat} (hj : j ≠ idx) :
      Function.update L.sess idx (L.sess idx).cut j = L.sess j := Function.update_of_ne hj ..
  have hroom (j : Nat) : (Function.update L.sess idx (L.sess idx).cut j).inRoom =
      (L.sess j).inRoom := by
    by_cases hj : j = idx
    · rw [hj, hself]
      rfl
    · rw [hother hj]
  refine h.of_net (w := w) (p := .leaveRead idx) {} rfl rfl ?_ rfl ?_ ?_ ?_ ?_ (by rintro _ ⟨⟩) ?_
    (h.joiner_of_ne (w := w) ?_ rfl rfl)
  · intro j
    show Function.update L.sess idx (L.sess idx).cut j = _
    by_cases hj : j = idx
    · rw [hj]
      simp only [Ledger.setNet, Ledger.modSess, Books.modSess, hself]
      rfl
    · simp only [Ledger.setNet, Ledger.modSess, Books.modSess, hother hj]
  · intro j hj
    show (Function.update L.sess idx (L.sess idx).cut j).inRoom = true ∨
      (Function.update L.sess idx (L.sess idx).cut j).dead = true ∨ _
    by_cases hji : j = idx
    · rw [hji, hself]
      exact Or.inr (Or.inl rfl)
    · rw [hother hji]
      exact h.seated j hj
  · rintro j ⟨⟩
    exact hmem
  · intro j hj
    show (Function.update L.sess idx (L.sess idx).cut j).dead = true ↔ _
    by_cases hji : j = idx
    · rw [hji, hself]
      exact ⟨fun _ => rfl, fun _ => rfl⟩
    · rw [hother hji, h.dead w j hj, hleaving]
      simp [NetPc.leaving, Ne.symm hji]
  · intro j hj
    have hne : j ≠ idx := fun heq => hj (heq ▸ hmem)
    exact congrArg SessBook.dead (hother hne)
  · intro j hj
    exact (hroom j).trans hj
  · intro j hj
    rw [hj] at hleaving
    rcases hw with ⟨hw, -⟩ | hw | ⟨a, r, hw⟩ <;> rw [hw] at hj <;> cases hj

theorem step_leaveRead (h : Refs L) {w idx r : Nat} (hw : L.net w = .leaveRead idx) :
    Refs ((L.modSess idx (·.left)).setNet w (.leavePush idx r)) := by
  have hmem : idx ∈ L.mySessions w := h.net w idx (by rw [hw]; rfl)
  have hdead : (L.sess idx).dead = true := (h.dead w idx hmem).mpr (by rw [hw]; rfl)
  have hself : Function.update L.sess idx (L.sess idx).left idx = (L.sess idx).left :=
    Function.update_self ..
  have hother {j : Nat} (hj : j ≠ idx) :
      Function.update L.sess idx (L.sess idx).left j = L.sess j := Function.update_of_ne hj ..
  have hkeep (j : Nat) : (Function.update L.sess idx (L.sess idx).left j).dead =
      (L.sess j).dead := by
    by_cases hj : j = idx
    · rw [hj, hself]
      rfl
    · rw [hother hj]
  refine h.of_net (w := w) (p := .leavePush idx r) {} rfl rfl ?_ rfl ?_ ?_ ?_
    (fun j _ => hkeep j) (by rintro _ ⟨⟩) ?_ (h.joiner_of_ne (w := w) (by simp [hw]) rfl rfl)
  · intro j
    show Function.update L.sess idx (L.sess idx).left j = _
    by_cases hj : j = idx
    · rw [hj]
      simp only [Ledger.setNet, Ledger.modSess, Books.modSess, hself]
      rfl
    · simp only [Ledger.setNet, Ledger.modSess, Books.modSess, hother hj]
  · intro j hj
    show (Function.update L.sess idx (L.sess idx).left j).inRoom = true ∨
      (Function.update L.sess idx (L.sess idx).left j).dead = true ∨ _
    by_cases hji : j = idx
    · rw [hji, hkeep]
      exact Or.inr (Or.inl hdead)
    · rw [hother hji]
      exact h.seated j hj
  · rintro j ⟨⟩
    exact hmem
  · intro j hj
    refine (iff_of_eq (congrArg (· = true) (hkeep j))).trans ?_
    rw [h.dead w j hj, hw]
    rfl
  · intro j hj
    show (Function.update L.sess idx (L.sess idx).left j).inRoom = false
    by_cases hji : j = idx
    · rw [hji, hself]
      rfl
    · rw [hother hji]
      exact hj

/-- One step keeps the references and their holders in agreement. -/
theorem step (h : Refs L) (hS : Seats L) (hP : Places L) {a : Actor} (ht : L.Trans a L') : Refs L' := by
  cases ht with
  | accept w idx hw hidx => exact h.of_accept {} hw hidx rfl rfl rfl rfl rfl
  | refuse w idx hidx => exact h.of_refuse {} hidx rfl rfl rfl rfl rfl
  | toIdle w hw =>
    rcases hw with ⟨idx, hw⟩ | ⟨idx, a, r, hw⟩ | ⟨idx, r, c, hw⟩ <;>
      exact h.of_turn {} rfl rfl rfl hw rfl (by rintro _ ⟨⟩) rfl (by rintro _ ⟨⟩)
        (h.joiner_of_ne (by simp [hw]) rfl rfl)
  | toInput w idx r c hw hmem hdead =>
    exact h.of_turn {} rfl rfl rfl hw rfl (by rintro _ ⟨⟩; exact hmem) rfl (by rintro _ ⟨⟩)
      (h.joiner_of_ne (by simp [hw]) rfl rfl)
  | toJoin w idx hw hmem hdead hroom =>
    exact h.of_turn {} rfl rfl rfl hw rfl (by rintro _ ⟨⟩; exact hmem) rfl
      (by rintro _ ⟨⟩; exact hroom) (h.joiner_of_ne (by simp [hw]) rfl rfl)
  | cut w idx hw => exact h.step_cut hw
  | leaveNone w idx hw hroom =>
    exact h.of_turn {} rfl rfl rfl hw rfl (by rintro _ ⟨⟩; exact h.net w idx (by rw [hw]; rfl)) rfl
      (by rintro _ ⟨⟩) (h.joiner_of_ne (by simp [hw]) rfl rfl)
  | leaveRead w idx hw hroom hcap => exact h.step_leaveRead hw
  | leavePush w idx r hw =>
    exact h.of_turn { room := Ledger.sameHolders_update {} } rfl rfl rfl hw rfl
      (by rintro _ ⟨⟩; exact h.net w idx (by rw [hw]; rfl)) rfl (by rintro _ ⟨⟩)
      (h.joiner_of_ne (by simp [hw]) rfl rfl)
  | netRelease w idx hw => exact h.of_netRelease {} hw rfl rfl rfl rfl rfl
  | noWorkers w idx hw =>
    exact h.of_turn {} rfl rfl rfl hw rfl (by rintro _ ⟨⟩; exact h.net w idx (by rw [hw]; rfl)) rfl
      (by rintro _ ⟨⟩) (h.joiner_of_ne (by simp [hw]) rfl rfl)
  | scan w idx hw hlock =>
    refine h.of_turn (.of_lock (by rw [hlock]; rfl) (by rw [hlock]; rfl) (by rw [hlock]; rfl))
      rfl rfl rfl hw rfl
      (by rintro _ ⟨⟩; exact h.net w idx (by rw [hw]; rfl)) rfl
      (by rintro _ ⟨⟩; exact h.unplaced w idx (by rw [hw]; rfl)) ?_
    rintro w' idx' ⟨⟩
    exact Function.update_self ..
  | scanPop w idx hlock =>
    exact h.of_section (fun _ => {}) rfl rfl rfl rfl rfl rfl rfl rfl rfl rfl (fun _ _ => id)
  | scanTake w idx r i hlock hr hdead hi =>
    exact h.of_section (Ledger.sameHolders_update {}) rfl rfl rfl rfl rfl rfl rfl
      (by rw [hlock]; rfl) (by rw [hlock]; rfl) (by rw [hlock]; rfl)
      (by rw [hlock]; exact fun _ _ => id)
  | scanRefuse w idx hlock =>
    have hw := h.joiner w idx (by rw [hlock]; rfl)
    exact h.of_turn (.of_lock (by rw [hlock]; rfl) (by rw [hlock]; rfl) (by rw [hlock]; rfl))
      rfl rfl rfl hw rfl
      (by rintro _ ⟨⟩; exact h.net w idx (by rw [hw]; rfl)) rfl (by rintro _ ⟨⟩) (by rintro _ _ ⟨⟩)
  | scanAlloc w idx r g hlock hr =>
    exact h.of_fresh hS hP (List.mem_of_getLast? hr) (by rw [hlock]; rfl) rfl (fun _ _ => rfl)
      (fun _ _ => rfl) rfl rfl rfl rfl rfl rfl (by rw [hlock]; rfl) (by rw [hlock]; rfl)
      (by rw [hlock]; rfl) (by rw [hlock]; exact fun _ _ => id)
  | mail w idx r hlock =>
    exact h.of_section (fun _ => {}) rfl rfl rfl rfl rfl rfl rfl (by rw [hlock]; rfl)
      (by rw [hlock]; rfl) (by rw [hlock]; rfl) (by rw [hlock]; exact fun _ _ => id)
  | first w idx r hlock =>
    exact h.of_section (Ledger.sameHolders_update {}) rfl rfl rfl rfl rfl rfl rfl
      (by rw [hlock]; rfl) (by rw [hlock]; rfl) (by rw [hlock]; rfl)
      (by rw [hlock]; exact fun _ _ => id)
  | push w idx r i hlock => exact h.of_push hP hlock rfl rfl rfl rfl rfl rfl rfl rfl rfl
  | store w idx r i hlock => exact h.of_store hlock rfl rfl rfl rfl rfl rfl rfl rfl rfl
  | close g i old nr hlock => exact h.step_close hP hlock rfl rfl rfl rfl rfl rfl rfl rfl rfl
  | movePass g i old nr seat rest moved joins leaves hlock hseat =>
    exact h.of_section (fun _ => {}) rfl rfl rfl rfl rfl rfl rfl (by rw [hlock]; rfl)
      (by rw [hlock]; rfl) (by rw [hlock]; rfl) (by rintro _ _ ⟨⟩)
  | moveSeat g i old nr seat rest moved joins leaves e hlock hseat =>
    exact h.step_moveSeat hS hP hlock hseat rfl rfl rfl rfl rfl rfl rfl rfl rfl
  | moveEnd g i old nr moved joins leaves hlock =>
    have hroom (r : Nat) : Ledger.SameHolders (L.room r)
        (((L.modRoom nr (·.openMoved)).modRoom old (·.empty)).room r) := by
      have hnr := Ledger.sameHolders_update (m := L.room) (r := nr) (R := (L.room nr).openMoved)
        {} r
      have hold := Ledger.sameHolders_update (m := (L.modRoom nr (·.openMoved)).room) (r := old)
        (R := ((L.modRoom nr (·.openMoved)).room old).empty) {} r
      exact ⟨hold.seated.trans hnr.seated, hold.pending.trans hnr.pending,
        hold.owner.trans hnr.owner⟩
    exact h.of_section hroom rfl rfl rfl rfl rfl rfl rfl (by rw [hlock]; rfl)
      (by rw [hlock]; rfl) (by rw [hlock]; rfl) (by rintro _ _ ⟨⟩)
  | carry g i old nr moved e joins leaves hlock =>
    exact h.step_carry hP hlock rfl rfl rfl rfl rfl rfl rfl rfl rfl
  | finish g i old nr moved leaves hlock =>
    obtain ⟨hg, -⟩ := hP.transfer g i old nr (by rw [hlock]; rfl)
    have hmove : Refs { (L.modRoom nr (·.finish moved leaves)).setGame g (.announce nr) with
        lock := L.lock } :=
      h.of_move (Ledger.sameHolders_update {}) rfl (by rw [hg]; exact fun _ => ⟨rfl, rfl⟩) rfl rfl rfl
        rfl rfl rfl rfl
    exact hmove.of_same rfl rfl rfl rfl rfl rfl (fun _ => ⟨rfl, rfl⟩) (by rw [hlock]; rfl) (by rintro _ ⟨⟩)
      (by rw [hlock]; rfl) (by rintro _ _ ⟨⟩)
  | drain g hg =>
    exact h.of_section (fun _ => {}) rfl rfl rfl rfl rfl rfl rfl rfl rfl rfl (fun _ _ => id)
  | take g i r hg hr =>
    refine h.of_keeping (g := g) (p := .joins i r (L.room r).pendingJoin (L.room r).pendingLeave) hP
      (List.mem_of_getElem? hr) (by rw [hg]; exact fun _ _ => rfl) (by rw [hg]; exact fun _ => rfl)
      (fun r' hr' => GamePc.handAt_of_ne (i := i) rfl hr') (fun _ => rfl) rfl rfl rfl ?_ rfl rfl rfl
      rfl rfl rfl rfl
    rw [hg]
    show _ + 0 = _ + 0 + (if r = r then ((L.room r).pendingJoin : Multiset RoomJoinEntry) else 0)
    rw [if_pos rfl, add_zero, add_zero]
    rfl
  | skip g i r e js ls hg hstale =>
    have hat : (L.game g).place = some (i, r) := by rw [hg]; rfl
    refine h.of_owing (e := e) (p := .skip i r e.sessIdx js ls) hP hat
      (by rw [hg]; exact fun _ => rfl) rfl (if_pos rfl) rfl rfl rfl ?_ rfl rfl rfl rfl rfl rfl rfl
    rw [hg]
    show _ + (if r = r then ((e :: js : List RoomJoinEntry) : Multiset RoomJoinEntry) else 0) =
      e ::ₘ (_ + (if r = r then (js : Multiset RoomJoinEntry) else 0))
    rw [if_pos rfl, if_pos rfl, ← Multiset.add_cons]
    rfl
  | seat g i r e js ls hg hstale =>
    have hat : (L.game g).place = some (i, r) := by rw [hg]; rfl
    have hnone := hS.seat_empty hP hg
    refine h.of_keeping (p := .joins i r js ls) hP (hP.mem_of_place hat)
      (fun r' hr' => GamePc.handAt_of_ne hat hr') (by rw [hg]; exact fun _ => rfl)
      (fun r' hr' => GamePc.handAt_of_ne (i := i) rfl hr') (fun _ => rfl) rfl rfl rfl ?_ rfl rfl rfl
      rfl rfl rfl rfl
    rw [hg, RoomBook.members_seat hnone, Multiset.cons_add, Multiset.cons_add, ← Multiset.add_cons]
    show _ + (if r = r then ((e :: js : List RoomJoinEntry) : Multiset RoomJoinEntry) else 0) =
      _ + e ::ₘ (if r = r then (js : Multiset RoomJoinEntry) else 0)
    rw [if_pos rfl, if_pos rfl]
    rfl
  | joinsEnd g i r ls hg =>
    refine h.of_move (fun _ => {}) rfl (fun r' => ?_) rfl rfl rfl rfl rfl rfl rfl
    rw [hg]
    refine ⟨?_, rfl⟩
    show 0 = if r = r' then (([] : List RoomJoinEntry) : Multiset RoomJoinEntry) else 0
    split <;> rfl
  | skipRelease g i r idx js ls hg =>
    exact h.of_owedRelease (i := i) (r := r) (x := idx) hP (by rw [hg]; rfl)
      (by rw [hg]; exact if_pos rfl) rfl rfl (by rw [hg]; exact fun _ => rfl) rfl rfl rfl rfl rfl rfl
      rfl rfl rfl
  | unseat g i r seat e ls hg hseat =>
    have hat : (L.game g).place = some (i, r) := by rw [hg]; rfl
    refine h.of_owing (e := ⟨e.sessIdx, e.sessGen, seat⟩) (p := .drop i r e.sessIdx ls) hP hat
      (by rw [hg]; exact fun _ => rfl) rfl (if_pos rfl) rfl rfl rfl ?_ rfl rfl rfl rfl rfl rfl rfl
    rw [hg, RoomBook.members_unseat (RoomBook.seated_of_findLeaver hseat), Multiset.cons_add,
      Multiset.cons_add]
    rfl
  | noLeaver g i r e ls hg hseat =>
    exact h.of_move (fun _ => {}) rfl (by rw [hg]; exact fun _ => ⟨rfl, rfl⟩) rfl rfl rfl rfl rfl rfl
      rfl
  | dropRelease g i r idx ls hg =>
    exact h.of_owedRelease (i := i) (r := r) (x := idx) hP (by rw [hg]; rfl)
      (by rw [hg]; exact if_pos rfl) rfl rfl (by rw [hg]; exact fun _ => rfl) rfl rfl rfl rfl rfl rfl
      rfl rfl rfl
  | die g i r hg hempty =>
    exact h.of_move (Ledger.sameHolders_update {}) rfl (by rw [hg]; exact fun _ => ⟨rfl, rfl⟩) rfl rfl
      rfl rfl rfl rfl rfl
  | live g i r hg =>
    exact h.of_move (fun _ => {}) rfl (by rw [hg]; exact fun _ => ⟨rfl, rfl⟩) rfl rfl rfl rfl rfl rfl
      rfl
  | freeRoom g i r hg hlock =>
    exact h.of_move (fun _ => {}) rfl (by rw [hg]; exact fun _ => ⟨rfl, rfl⟩) rfl rfl rfl rfl rfl rfl
      rfl
  | exit g i r hg hr =>
    exact h.of_move (fun _ => {}) rfl (by rw [hg]; exact fun _ => ⟨rfl, rfl⟩) rfl rfl rfl rfl rfl rfl
      rfl
  | stay g i r hg =>
    exact h.of_move (fun _ => {}) rfl (by rw [hg]; exact fun _ => ⟨rfl, rfl⟩) rfl rfl rfl rfl rfl rfl
      rfl
  | transfer g i old nr hg hlock hnr =>
    exact h.of_fresh hS hP (List.mem_of_getLast? hnr) (by rw [hlock]; rfl) rfl
      (fun g' r' => handAt_update_same (m := L.game) (by rw [hg]; exact fun _ => rfl) g' r')
      (fun g' r' => owedAt_update_same (m := L.game) (by rw [hg]; exact fun _ => rfl) g' r')
      rfl rfl rfl rfl rfl rfl (by rw [hlock]; rfl) (by rw [hlock]; rfl) (by rw [hlock]; rfl)
      (by rintro _ _ ⟨⟩)
  | announced g nr hg =>
    exact h.of_move (fun _ => {}) rfl (by rw [hg]; exact fun _ => ⟨rfl, rfl⟩) rfl rfl rfl rfl rfl rfl
      rfl

end Refs

end BeltServer
