import BeltServer.Snapshots
import BeltServer.Entries

/-!
# The snapshot clock

Every room counts its ticks, and a new room takes over the count of the room its members
come from. A session follows one clock from the moment it is seated, whatever rooms it moves
through: it is offered one snapshot for each multiple of 3 that the clock reaches. The
record of a run notes what happens to the input queues, when a member is seated and at what
time, and every snapshot offered.
-/

namespace BeltServer

set_option autoImplicit false

open Runs DropQueue

/-! ### Clocks -/

/-- The old and the new room of a transfer that has not set the new room's clock yet. -/
def LockPc.unset : LockPc → Option (Nat × Nat)
  | .close _ _ old nr | .move _ _ old nr _ _ _ _ => some (old, nr)
  | _ => none

def Server.time (st : Server) (r : Nat) : Nat := (st.rooms r).world.tick.toNat

namespace System

/-- The time of a room, or of the room that its members are coming from. -/
def clock (s : System) (r : Nat) : Nat :=
  match s.lock.unset with
  | some (old, nr) => if r = nr then s.srv.time old else s.srv.time r
  | none => s.srv.time r

def wraps (a : Act) (s : System) : Bool :=
  match s.cue a with
  | some (.tick r) => (s.srv.rooms r).world.tick == 4294967295
  | _ => false

def clocked (a : Act) (s : System) : Option System := if s.wraps a then none else step a s

theorem step_of_clocked {a : Act} {s t : System} (h : clocked a s = some t) :
    s.wraps a = false ∧ step a s = some t := by
  unfold clocked at h
  split at h
  · cases h
  · rename_i hwraps
    exact ⟨by simpa using hwraps, h⟩

theorem transfer_of_unset {s : System} {old nr : Nat} (h : s.lock.unset = some (old, nr)) :
    ∃ g k, s.lock.transfer = some (g, k, old, nr) := by
  cases hl : s.lock <;> rw [hl] at h <;> cases h <;> exact ⟨_, _, rfl⟩

theorem clock_of_unset {s : System} {old nr : Nat} (h : s.lock.unset = some (old, nr)) (r : Nat) :
    s.clock r = if r = nr then s.srv.time old else s.srv.time r := by
  simp only [clock, h]

theorem clock_of_set {s : System} (h : s.lock.unset = none) (r : Nat) : s.clock r = s.srv.time r := by
  simp only [clock, h]

theorem clock_congr {s t : System} (hlock : t.lock.unset = s.lock.unset)
    (htime : ∀ r, t.srv.time r = s.srv.time r) (r : Nat) : t.clock r = s.clock r := by
  simp only [clock, hlock, htime]

/-- A transfer that has not set the clock begins with a reset and ends with the clock. -/
theorem unset_step {a : Act} {s t : System} (h : step a s = some t) :
    t.lock.unset = s.lock.unset ∨ (∃ nr, s.cue a = some (.clear nr)) ∨
      ∃ old nr, s.cue a = some (.resume old nr) := by
  rcases lock_step h with hsame | ⟨rfl, hlock⟩ | ⟨hfree, w, idx, hscan⟩ |
    ⟨-, g, k, old, nr, hclose, hcue⟩
  · rw [hsame]
    exact Or.inl rfl
  · cases hpc : s.lock with
    | free =>
      simp only [lockStep, hpc] at hlock
      cases hlock
    | scan w idx =>
      left
      simp only [lockStep, hpc] at hlock
      split at hlock
      · split at hlock
        · cases hlock
          rfl
        · cases hlock
          rfl
      · split at hlock
        · cases hlock
          rfl
        · cases hlock
          rfl
    | mail w idx r | first w idx r | push w idx r i | store w idx r i | close g i old nr =>
      simp only [lockStep, hpc] at hlock
      cases hlock
      exact Or.inl rfl
    | move g i old nr rest moved joins leaves =>
      cases rest with
      | nil =>
        refine Or.inr (Or.inr ⟨old, nr, ?_⟩)
        simp only [cue, hpc]
      | cons i rest =>
        simp only [lockStep, hpc] at hlock
        cases hlock
        exact Or.inl rfl
    | carry g i old nr moved joins leaves =>
      simp only [lockStep, hpc] at hlock
      cases joins with
      | nil =>
        cases hlock
        exact Or.inl rfl
      | cons e joins =>
        cases hlock
        exact Or.inl rfl
  · rw [hscan, hfree]
    exact Or.inl rfl
  · exact Or.inr (Or.inl ⟨nr, hcue⟩)

end System

/-! ### Where a member comes from -/

/-- What a step does to the member at seat `i` of room `r` and to its clock. -/
inductive System.MemberStep (s t : System) (a : Act) (r : Nat) (i : Seat) : Prop where
  | kept (r₁ : Nat) (hused : ((s.srv.rooms r₁).members i).used = true)
      (hsame : (t.srv.rooms r).members i = (s.srv.rooms r₁).members i)
      (hclock : t.clock r = s.clock r₁) (hnot : s.cue a ≠ some (.tick r₁))
  | ticked (hcue : s.cue a = some (.tick r))
      (hused : ((s.srv.rooms r).members i).used = true)
      (hsess : ((t.srv.rooms r).members i).sessIdx = ((s.srv.rooms r).members i).sessIdx)
      (hclock : t.clock r = s.clock r + 1)
  | seated (e : RoomJoinEntry) (hcue : s.cue a = some (.seat r e)) (hi : i = e.actorId)
      (hsess : ((t.srv.rooms r).members i).sessIdx = e.sessIdx)
      (hclock : t.clock r = s.srv.time r)

section MemberStep
variable {s t : System} {a : Act} {r : Nat} {i : Seat}

theorem clock_of_update {r₀ : Nat} {S : Stage} (hstage : t.srv.stage = Function.update s.srv.stage r₀ S)
    (htick : S.world.tick = (s.srv.stage r₀).world.tick) (hlock : t.lock.unset = s.lock.unset)
    (r : Nat) : t.clock r = s.clock r := by
  refine System.clock_congr hlock (fun r => ?_) r
  have htime : (t.srv.stage r).world.tick = (s.srv.stage r).world.tick := by
    rw [hstage]
    by_cases hr : r = r₀
    · rw [hr, Function.update_self, htick]
    · rw [Function.update_of_ne hr]
  exact congrArg UInt32.toNat htime

theorem member_stays (hmembers : (t.srv.stage r).members i = (s.srv.stage r).members i)
    (hclock : t.clock r = s.clock r) (hnot : s.cue a ≠ some (.tick r))
    (hu : ((t.srv.rooms r).members i).used = true) : s.MemberStep t a r i := by
  have hsame : (t.srv.rooms r).members i = (s.srv.rooms r).members i := hmembers
  exact .kept r (hsame ▸ hu) hsame hclock hnot

theorem tick_toNat {x : UInt32} (hx : (x == 4294967295) = false) : (x + 1).toNat = x.toNat + 1 := by
  have hlt := x.toNat_lt
  have hne : x.toNat ≠ 4294967295 := by
    intro heq
    have hx' : x = 4294967295 := UInt32.toNat_inj.mp heq
    simp [hx'] at hx
  rw [UInt32.toNat_add]
  have hone : (1 : UInt32).toNat = 1 := rfl
  rw [hone]
  omega

theorem clock_tick (hs : Consistent s.ledger) {g k r₀ : Nat}
    (hr₀ : (s.srv.myRooms g)[k]? = some r₀) (hwraps : s.wraps (.tick g k) = false)
    (h : System.step (.tick g k) s = some t) :
    t.clock r₀ = s.clock r₀ + 1 ∧ (s.srv.rooms r₀).step.world.tick.toNat = t.clock r₀ ∧
      ∀ r, r ≠ r₀ → t.clock r = s.clock r := by
  have hcue : s.cue (.tick g k) = some (.tick r₀) := by simp [System.cue, hr₀]
  have hstage := System.stage_step h
  rw [hcue] at hstage
  have hst := hstage.trans (Server.perform_tick ..)
  obtain ⟨-, hidle, -⟩ := System.tick_of_step h
  have hgame : s.ledger.game g = .idle := hidle
  have hstill := hs.places.not_transfer_of_idle hgame hr₀
  have hlock : t.lock.unset = s.lock.unset := by
    rcases System.unset_step h with hsame | ⟨nr, hclear⟩ | ⟨old, nr, hresume⟩
    · exact hsame
    · rw [hcue] at hclear
      cases hclear
    · rw [hcue] at hresume
      cases hresume
  have hstep : t.srv.stage r₀ = (s.srv.rooms r₀).step.stage := by rw [hst, Function.update_self]
  have hshown : (s.srv.rooms r₀).step.world.tick.toNat = t.srv.time r₀ :=
    congrArg (fun S : Stage => S.world.tick.toNat) hstep.symm
  have hnext : t.srv.time r₀ = s.srv.time r₀ + 1 := by
    have hlt : ((s.srv.rooms r₀).world.tick == 4294967295) = false := by
      simpa only [System.wraps, hcue] using hwraps
    rw [← hshown, Room.step_tick]
    exact tick_toNat hlt
  have htime {r : Nat} (hr : r ≠ r₀) : t.srv.time r = s.srv.time r := by
    have hother : t.srv.stage r = s.srv.stage r := by rw [hst, Function.update_of_ne hr]
    exact congrArg (fun S : Stage => S.world.tick.toNat) hother
  cases hunset : s.lock.unset with
  | none =>
    have hclock (r : Nat) : t.clock r = t.srv.time r := System.clock_of_set (hlock.trans hunset) r
    refine ⟨?_, ?_, fun r hr => ?_⟩
    · rw [hclock, System.clock_of_set hunset, hnext]
    · rw [hclock, hshown]
    · rw [hclock, System.clock_of_set hunset, htime hr]
  | some p =>
    obtain ⟨old, nr⟩ := p
    obtain ⟨g', k', htransfer⟩ := System.transfer_of_unset hunset
    obtain ⟨hold, hnew⟩ := hstill g' k' old nr htransfer
    have hclock (r : Nat) := System.clock_of_unset (hlock.trans hunset) r
    have hclock' (r : Nat) := System.clock_of_unset hunset r
    refine ⟨?_, ?_, fun r hr => ?_⟩
    · rw [hclock, hclock', if_neg (Ne.symm hnew), if_neg (Ne.symm hnew), hnext]
    · rw [hclock, if_neg (Ne.symm hnew), hshown]
    · rw [hclock, hclock', htime hr, htime hold]

theorem member_step_tick (hs : Consistent s.ledger) {g k r₀ : Nat}
    (hr₀ : (s.srv.myRooms g)[k]? = some r₀) (hwraps : s.wraps (.tick g k) = false)
    (h : System.step (.tick g k) s = some t) (hu : ((t.srv.rooms r).members i).used = true) :
    s.MemberStep t (.tick g k) r i := by
  have hcue : s.cue (.tick g k) = some (.tick r₀) := by simp [System.cue, hr₀]
  have hstage := System.stage_step h
  rw [hcue] at hstage
  have hst := hstage.trans (Server.perform_tick ..)
  obtain ⟨hnext, -, hother⟩ := clock_tick hs hr₀ hwraps h
  by_cases hr : r = r₀
  · subst hr
    have hmem : (t.srv.rooms r).members i = (s.srv.rooms r).step.members i := by
      have hstep : t.srv.stage r = (s.srv.rooms r).step.stage := by rw [hst, Function.update_self]
      exact congrArg (fun S : Stage => S.members i) hstep
    rw [hmem, (Room.step_identity _ i).1] at hu
    refine .ticked hcue hu ?_ hnext
    rw [hmem]
    exact (Room.step_identity _ i).2.1
  · refine member_stays ?_ (hother r hr) ?_ hu
    · rw [hst, Function.update_of_ne hr]
    · rw [hcue]
      rintro ⟨⟩
      exact hr rfl

theorem member_step_clear {r₀ : Nat} (hcue : s.cue a = some (.clear r₀))
    (hstage : t.srv.stage = (s.srv.perform (some (.clear r₀))).stage)
    (hunset : s.lock.unset = none)
    (hlock : t.lock.unset = none ∨ ∃ old, t.lock.unset = some (old, r₀))
    (hu : ((t.srv.rooms r).members i).used = true) : s.MemberStep t a r i := by
  have hst := hstage.trans (Server.perform_clear ..)
  have hr : r ≠ r₀ := by
    rintro rfl
    have hself : t.srv.stage r = (s.srv.rooms r).reset.stage := by rw [hst, Function.update_self]
    have hused : ((t.srv.stage r).members i).used = true := hu
    rw [hself] at hused
    cases hused
  have hsame : t.srv.stage r = s.srv.stage r := by rw [hst, Function.update_of_ne hr]
  refine member_stays (by rw [hsame]) ?_ (by simp [hcue]) hu
  have htime : t.srv.time r = s.srv.time r := congrArg (fun S : Stage => S.world.tick.toNat) hsame
  rw [System.clock_of_set hunset]
  rcases hlock with hset | ⟨old, hset⟩
  · rw [System.clock_of_set hset, htime]
  · rw [System.clock_of_unset hset, if_neg hr, htime]

/-- A member that moves keeps its clock, which its new room shows at the end of the loop. -/
theorem member_step_move (hs : Consistent s.ledger) {old nr : Nat} {i₀ : Seat}
    (hcue : s.cue a = some (.move old nr i₀))
    (hstage : t.srv.stage = (s.srv.perform (some (.move old nr i₀))).stage)
    (hunset : s.lock.unset = some (old, nr)) (hlock : t.lock.unset = s.lock.unset)
    (hu : ((t.srv.rooms r).members i).used = true) : s.MemberStep t a r i := by
  obtain ⟨g, k, htransfer⟩ := System.transfer_of_unset hunset
  have hne : nr ≠ old := Ne.symm (hs.places.transfer_ne htransfer)
  have hu' : ((t.srv.stage r).members i).used = true := hu
  cases hused : ((s.srv.stage old).members i₀).used with
  | false =>
    have hst := hstage.trans (Server.perform_move_unused s.srv hused)
    refine member_stays (by rw [hst]) (System.clock_congr hlock (fun r => ?_) r) (by simp [hcue]) hu
    exact congrArg (fun S : Nat → Stage => (S r).world.tick.toNat) hst
  | true =>
    have hst := hstage.trans (Server.perform_move s.srv hne hused)
    have htime (r : Nat) : t.srv.time r = s.srv.time r := by
      have htime : t.srv.time r = (t.srv.stage r).world.tick.toNat := rfl
      rw [htime, hst]
      by_cases hold : r = old
      · rw [hold, Function.update_self]
        rfl
      · rw [Function.update_of_ne hold]
        by_cases hnew : r = nr
        · rw [hnew, Function.update_self]
          rfl
        · rw [Function.update_of_ne hnew]
          rfl
    have hclock := System.clock_congr hlock htime r
    by_cases hold : r = old
    · subst hold
      refine member_stays ?_ hclock (by simp [hcue]) hu
      have hmem : (t.srv.stage r).members = Function.update (s.srv.stage r).members i₀
          { (s.srv.stage r).members i₀ with used := false } := by
        rw [hst, Function.update_self]
      rw [hmem] at hu' ⊢
      by_cases hi : i = i₀
      · subst hi
        rw [Function.update_self] at hu'
        cases hu'
      · exact Function.update_of_ne hi ..
    · by_cases hmoved : r = nr ∧ i = i₀
      · obtain ⟨rfl, rfl⟩ := hmoved
        have hsame : (t.srv.rooms r).members i = (s.srv.rooms old).members i := by
          have hself : t.srv.stage r = _ :=
            (congrFun hst r).trans ((Function.update_of_ne hne ..).trans (Function.update_self ..))
          exact (congrArg (fun S : Stage => S.members i) hself).trans (Function.update_self ..)
        refine .kept old hused hsame ?_ (by simp [hcue])
        rw [hclock, System.clock_of_unset hunset, System.clock_of_unset hunset, if_pos rfl,
          if_neg (Ne.symm hne)]
      · refine member_stays ?_ hclock (by simp [hcue]) hu
        rw [hst, Function.update_of_ne hold]
        by_cases hnew : r = nr
        · subst hnew
          rw [Function.update_self]
          exact Function.update_of_ne (fun hi => hmoved ⟨rfl, hi⟩) ..
        · rw [Function.update_of_ne hnew]

theorem System.member_step (hs : Consistent s.ledger) (h : System.clocked a s = some t)
    (hu : ((t.srv.rooms r).members i).used = true) : s.MemberStep t a r i := by
  obtain ⟨hwraps, h⟩ := step_of_clocked h
  have hstage := stage_step h
  have hu' : ((t.srv.stage r).members i).used = true := hu
  cases hcue : s.cue a with
  | none =>
    rw [hcue] at hstage
    have hlock : t.lock.unset = s.lock.unset := by
      rcases unset_step h with hsame | ⟨nr, hclear⟩ | ⟨old, nr, hresume⟩
      · exact hsame
      · rw [hcue] at hclear
        cases hclear
      · rw [hcue] at hresume
        cases hresume
    have hst : t.srv.stage = s.srv.stage := hstage
    refine member_stays (by rw [hst]) (clock_congr hlock (fun r => ?_) r) (by simp [hcue]) hu
    exact congrArg (fun S : Nat → Stage => (S r).world.tick.toNat) hst
  | some c =>
    rw [hcue] at hstage
    have hkeeps (hclear : ∀ nr, c ≠ .clear nr) (hresume : ∀ old nr, c ≠ .resume old nr) :
        t.lock.unset = s.lock.unset := by
      rcases unset_step h with hsame | ⟨nr, hcue'⟩ | ⟨old, nr, hcue'⟩
      · exact hsame
      · rw [hcue] at hcue'
        exact absurd (Option.some.inj hcue') (hclear nr)
      · rw [hcue] at hcue'
        exact absurd (Option.some.inj hcue') (hresume old nr)
    have hcued := cued_of_cue hcue
    cases hcued with
    | send w idx r₀ c₀ hw =>
      have hst := hstage.trans (Server.perform_send ..)
      have hlock := hkeeps (by rintro _ ⟨⟩) (by rintro _ _ ⟨⟩)
      refine member_stays ?_ (clock_of_update hst rfl hlock r) (by simp [hcue]) hu
      rw [hst]
      by_cases hr : r = r₀
      · rw [hr, Function.update_self]
      · rw [Function.update_of_ne hr]
    | seat g k r₀ e js ls hg hlive =>
      have hst := hstage.trans (Server.perform_seat ..)
      have hlock := hkeeps (by rintro _ ⟨⟩) (by rintro _ _ ⟨⟩)
      have hclock := clock_of_update hst (by rfl) hlock r
      by_cases hri : r = r₀ ∧ i = e.actorId
      · obtain ⟨rfl, rfl⟩ := hri
        refine .seated e hcue rfl ?_ (hclock.trans ?_)
        · have hself : (t.srv.rooms r).members =
              ((s.srv.rooms r).seatMember e (s.srv.sess e.sessIdx).owner).members := by
            have hself : t.srv.stage r = _ := (congrFun hst r).trans (Function.update_self ..)
            exact congrArg Stage.members hself
          rw [hself]
          simp only [Room.seatMember, Function.update_self]
        · -- the worker keeps this room, so it is not the new room of a transfer
          have hmem : r ∈ s.srv.myRooms g := by
            refine hs.places.mem_of_place (i := k) ?_
            show (s.game g).place = some (k, r)
            rw [hg]
            rfl
          cases hunset : s.lock.unset with
          | none => exact clock_of_set hunset r
          | some p =>
            obtain ⟨old, nr⟩ := p
            obtain ⟨g', k', htransfer⟩ := transfer_of_unset hunset
            rw [clock_of_unset hunset, if_neg]
            rintro rfl
            exact (hs.places.not_kept (Or.inr (Places.nr_inHand htransfer)) g).2 hmem
      · refine member_stays ?_ hclock (by simp [hcue]) hu
        rw [hst]
        by_cases hr : r = r₀
        · subst hr
          rw [Function.update_self]
          exact Function.update_of_ne (fun hi => hri ⟨rfl, hi⟩) ..
        · rw [Function.update_of_ne hr]
    | unseat g k r₀ i₀ e ls hg hi₀ =>
      have hst := hstage.trans (Server.perform_unseat ..)
      have hlock := hkeeps (by rintro _ ⟨⟩) (by rintro _ _ ⟨⟩)
      refine member_stays ?_ (clock_of_update hst rfl hlock r) (by simp [hcue]) hu
      rw [hst] at hu' ⊢
      by_cases hr : r = r₀
      · subst hr
        rw [Function.update_self] at hu' ⊢
        have hmem : ((s.srv.rooms r).unseat i₀).stage.members =
            Function.update (s.srv.rooms r).members i₀
              { (s.srv.rooms r).members i₀ with used := false } := rfl
        rw [hmem] at hu' ⊢
        by_cases hi : i = i₀
        · rw [hi, Function.update_self] at hu'
          cases hu'
        · exact Function.update_of_ne hi ..
      · rw [Function.update_of_ne hr]
    | clearNew w idx r₀ hlock hr₀ =>
      refine member_step_clear hcue hstage (by rw [hlock]; rfl) (Or.inl ?_) hu
      simp only [step, lockStep, hlock] at h
      split at h <;> split at h <;> cases h <;> rfl
    | clearNext g k old r₀ hg hr₀ =>
      simp only [step, gameStep, hg] at h
      split at h
      · rename_i hfree
        refine member_step_clear hcue hstage (by rw [hfree]; rfl) ?_ hu
        split at h
        · cases h
          exact Or.inl (congrArg LockPc.unset hfree)
        · rename_i nr st htake
          cases h
          have hlast := (Server.takeSlot_some htake).1
          rw [hr₀] at hlast
          cases hlast
          exact Or.inr ⟨old, rfl⟩
      · cases h
    | tick g k r₀ hr₀ => exact member_step_tick hs hr₀ hwraps h hu
    | move g k old nr i₀ rest moved joins leaves hlock =>
      have hunset : s.lock.unset = some (old, nr) := by
        rw [hlock]
        rfl
      exact member_step_move hs hcue hstage hunset
        (hkeeps (by rintro _ ⟨⟩) (by rintro _ _ ⟨⟩)) hu
    | resume g k old nr moved joins leaves hlock =>
      have hst := hstage.trans (Server.perform_resume ..)
      have hset : t.lock.unset = none := by
        simp only [step, lockStep, hlock] at h
        cases h
        rfl
      have hunset : s.lock.unset = some (old, nr) := by
        rw [hlock]
        rfl
      refine member_stays ?_ ?_ (by simp [hcue]) hu
      · rw [hst]
        by_cases hr : r = nr
        · rw [hr, Function.update_self]
        · rw [Function.update_of_ne hr]
      · rw [clock_of_set hset, clock_of_unset hunset]
        have htime : t.srv.time r = (t.srv.stage r).world.tick.toNat := rfl
        rw [htime, hst]
        by_cases hr : r = nr
        · rw [hr, Function.update_self, if_pos rfl]
          rfl
        · rw [Function.update_of_ne hr, if_neg hr]
          rfl

end MemberStep

/-! ### Sessions that wait to be seated -/

/-- The session is in a room, about to be, or cut. -/
def Ledger.Placed (L : Ledger) (idx : Nat) : Prop :=
  (L.sess idx).inRoom = true ∨ (L.sess idx).dead = true ∨
    ∃ r i, L.lock.storing = some (idx, r, i)

section Placed
variable {L L' : Ledger} {a : Actor} {j : Nat}

theorem Ledger.Placed.congr (hp : L.Placed j) (hroom : (L'.sess j).inRoom = (L.sess j).inRoom)
    (hdead : (L'.sess j).dead = (L.sess j).dead)
    (hstoring : L'.lock.storing = L.lock.storing ∨ L.lock.storing = none) : L'.Placed j := by
  rcases hp with hin | hcut | ⟨r, i, hstore⟩
  · exact Or.inl (hroom.trans hin)
  · exact Or.inr (Or.inl (hdead.trans hcut))
  · rcases hstoring with hsame | hnone
    · exact Or.inr (Or.inr ⟨r, i, hsame.trans hstore⟩)
    · rw [hnone] at hstore
      cases hstore

/-- A session stays placed until its slot is handed out again. -/
theorem Ledger.Placed.step (hs : Consistent L) (ha : ∀ w, a ≠ .accept w) (ht : L.Trans a L')
    (hp : L.Placed j) : L'.Placed j := by
  cases ht with
  | accept w | refuse w => exact absurd rfl (ha w)
  | cut w idx =>
    by_cases hj : j = idx
    · subst hj
      refine Or.inr (Or.inl ?_)
      have hself : Function.update L.sess j (L.sess j).cut j = (L.sess j).cut :=
        Function.update_self ..
      exact congrArg SessBook.dead hself
    · have hother : Function.update L.sess idx (L.sess idx).cut j = L.sess j :=
        Function.update_of_ne hj ..
      exact hp.congr (congrArg SessBook.inRoom hother) (congrArg SessBook.dead hother) (Or.inl rfl)
  | leaveRead w idx hw =>
    have hdead : (L.sess idx).dead = true := by
      have hconn := hs.refs.net w idx (by rw [hw]; rfl)
      exact (hs.refs.dead w idx hconn).mpr (by rw [hw]; rfl)
    by_cases hj : j = idx
    · subst hj
      refine Or.inr (Or.inl ?_)
      have hself : Function.update L.sess j (L.sess j).left j = (L.sess j).left :=
        Function.update_self ..
      exact (congrArg SessBook.dead hself).trans hdead
    · have hother : Function.update L.sess idx (L.sess idx).left j = L.sess j :=
        Function.update_of_ne hj ..
      exact hp.congr (congrArg SessBook.inRoom hother) (congrArg SessBook.dead hother) (Or.inl rfl)
  | store w idx r i hlock =>
    by_cases hj : j = idx
    · subst hj
      refine Or.inl ?_
      have hself : Function.update L.sess j ((L.sess j).placed r i) j = (L.sess j).placed r i :=
        Function.update_self ..
      exact congrArg SessBook.inRoom hself
    · have hother : Function.update L.sess idx ((L.sess idx).placed r i) j = L.sess j :=
        Function.update_of_ne hj ..
      rcases hp with hin | hcut | ⟨r', i', hstore⟩
      · exact Or.inl ((congrArg SessBook.inRoom hother).trans hin)
      · exact Or.inr (Or.inl ((congrArg SessBook.dead hother).trans hcut))
      · rw [hlock] at hstore
        cases hstore
        exact absurd rfl hj
  | push w idx r i hlock =>
    exact hp.congr (sess_update (m := L.sess) (·.inRoom) (S := (L.sess idx).addRef) rfl j)
      (sess_update (m := L.sess) (·.dead) (S := (L.sess idx).addRef) rfl j)
      (Or.inr (by rw [hlock]; rfl))
  | moveSeat g i old nr seat rest moved joins leaves e hlock =>
    exact hp.congr
      (sess_update (m := L.sess) (·.inRoom) (SessBook.moved_keeps (·.inRoom) (fun _ _ => rfl) ..) j)
      (sess_update (m := L.sess) (·.dead) (SessBook.moved_keeps (·.dead) (fun _ _ => rfl) ..) j)
      (Or.inr (by rw [hlock]; rfl))
  | carry g i old nr moved e joins leaves hlock =>
    exact hp.congr
      (sess_update (m := L.sess) (·.inRoom) (SessBook.moved_keeps (·.inRoom) (fun _ _ => rfl) ..) j)
      (sess_update (m := L.sess) (·.dead) (SessBook.moved_keeps (·.dead) (fun _ _ => rfl) ..) j)
      (Or.inr (by rw [hlock]; rfl))
  | netRelease w idx | skipRelease _ _ _ idx | dropRelease _ _ _ idx =>
    exact hp.congr (sess_update (m := L.sess) (·.inRoom) (S := (L.sess idx).released) rfl j)
      (sess_update (m := L.sess) (·.dead) (S := (L.sess idx).released) rfl j) (Or.inl rfl)
  | scan w idx hw hlock | scanTake w idx r i hlock | scanRefuse w idx hlock
  | scanAlloc w idx r g hlock | mail w idx r hlock | first w idx r hlock | close g i old nr hlock
  | movePass g i old nr seat rest moved joins leaves hlock
  | moveEnd g i old nr moved joins leaves hlock | finish g i old nr moved leaves hlock
  | transfer g i old nr hg hlock =>
    exact hp.congr rfl rfl (Or.inr (by rw [hlock]; rfl))
  | _ => exact hp.congr rfl rfl (Or.inl rfl)

theorem Ledger.Trans.dead_kept (ht : L.Trans a L') (hdead : (L.sess j).dead = true) :
    (L'.sess j).dead = true ∨ j ∈ L.freeSess := by
  have hkeep {idx : Nat} {S : SessBook} (hS : S.dead = (L.sess idx).dead ∨ S.dead = true)
      (hsess : L'.sess = Function.update L.sess idx S) : (L'.sess j).dead = true := by
    rw [hsess]
    by_cases hj : j = idx
    · subst hj
      rw [Function.update_self]
      rcases hS with hS | hS
      · rw [hS, hdead]
      · exact hS
    · rw [Function.update_of_ne hj, hdead]
  cases ht with
  | accept w idx hw hidx =>
    by_cases hj : j = idx
    · exact Or.inr (hj ▸ List.mem_of_getLast? hidx)
    · left
      have hother : Function.update L.sess idx ((L.sess idx).opened w) j = L.sess j :=
        Function.update_of_ne hj ..
      exact (congrArg SessBook.dead hother).trans hdead
  | refuse w idx => exact Or.inl (hkeep (S := (L.sess idx).refused w) (Or.inr rfl) rfl)
  | cut w idx => exact Or.inl (hkeep (S := (L.sess idx).cut) (Or.inr rfl) rfl)
  | leaveRead w idx => exact Or.inl (hkeep (S := (L.sess idx).left) (Or.inl rfl) rfl)
  | push w idx => exact Or.inl (hkeep (S := (L.sess idx).addRef) (Or.inl rfl) rfl)
  | store w idx r i => exact Or.inl (hkeep (S := (L.sess idx).placed r i) (Or.inl rfl) rfl)
  | moveSeat g i old nr seat rest moved joins leaves e =>
    exact Or.inl (hkeep (S := (L.sess e.sessIdx).moved e.sessGen nr)
      (Or.inl (SessBook.moved_keeps (·.dead) (fun _ _ => rfl) ..)) rfl)
  | carry g i old nr moved e =>
    exact Or.inl (hkeep (S := (L.sess e.sessIdx).moved e.sessGen nr)
      (Or.inl (SessBook.moved_keeps (·.dead) (fun _ _ => rfl) ..)) rfl)
  | netRelease w idx | skipRelease _ _ _ idx | dropRelease _ _ _ idx =>
    exact Or.inl (hkeep (S := (L.sess idx).released) (Or.inl rfl) rfl)
  | _ => exact Or.inl hdead

end Placed

section Seated
variable {s : System} (h : Consistent s.ledger) {r : Nat} {i : Seat}
  (hused : ((s.srv.rooms r).members i).used = true)
include h hused

theorem claimed_of_used : 0 < s.ledger.claims.count ((s.srv.rooms r).members i).sessIdx :=
  Ledger.count_pos_of_token (System.lt_cap_of_used h hused) (System.token_of_used hused)

theorem not_free_of_seated : ((s.srv.rooms r).members i).sessIdx ∉ s.srv.pool.free := by
  intro hfree
  have hzero := (h.refs.mem_free.mp hfree).2
  have hrefs := h.refs.refs ((s.srv.rooms r).members i).sessIdx
  have hpos := claimed_of_used h hused
  omega

theorem placed_of_used : s.ledger.Placed ((s.srv.rooms r).members i).sessIdx :=
  h.refs.seated _ (claimed_of_used h hused)

theorem sess_ne_of_join {e : RoomJoinEntry} (he : s.ledger.HasJoin e) :
    ((s.srv.rooms r).members i).sessIdx ≠ e.sessIdx := by
  intro hsess
  have hr := System.lt_cap_of_used h hused
  have htoken := System.token_of_used hused
  have hlock : e ∉ s.ledger.lock.flight := by
    intro hflight
    exact Ledger.token_not_flight h.refs.one hr htoken hflight hsess.symm
  -- in the same room it would be a second claim of the session
  have hqueued (r' : Nat) (hmem : e ∈ (s.ledger.room r').pendingJoin ∨ e ∈ s.ledger.hand r') :
      False := by
    have htoken' : e ∈ s.ledger.tokens r' := by
      rw [Ledger.tokens, add_assoc]
      refine Multiset.mem_add.mpr (Or.inr (Multiset.mem_add.mpr ?_))
      exact hmem
    have hr' := (h.refs.holder r' e htoken').room
    obtain ⟨rfl, -⟩ := Ledger.token_unique h.refs.one hr hr' htoken htoken' hsess.symm
    have hle := h.refs.one e.sessIdx
    have hroom : (s.ledger.roomClaims r').count e.sessIdx ≤ s.ledger.claims.count e.sessIdx := by
      refine Multiset.count_le_of_le _ ?_
      exact (Finset.single_le_sum (f := s.ledger.roomClaims) (fun _ _ => Multiset.zero_le _)
        (Finset.mem_range.mpr hr)).trans (Multiset.le_add_right _ _)
    have hmember : 0 < ((s.ledger.room r').members.map (·.sessIdx)).count e.sessIdx := by
      let m := (s.srv.rooms r').members i
      have hmem : RoomJoinEntry.mk m.sessIdx m.sessGen i ∈ (s.ledger.room r').members :=
        Tally.mem_ofTable.mpr ⟨i, ⟨m.sessIdx, m.sessGen⟩,
          Room.seated_eq_some.mpr ⟨hused, rfl, rfl⟩, rfl⟩
      rw [← hsess]
      exact Multiset.count_pos.mpr (Multiset.mem_map_of_mem RoomJoinEntry.sessIdx hmem)
    have hwaiting : 0 < (((s.ledger.room r').pendingJoin + s.ledger.hand r' :
        Multiset RoomJoinEntry).map (·.sessIdx)).count e.sessIdx :=
      Multiset.count_pos.mpr (Multiset.mem_map_of_mem _ (Multiset.mem_add.mpr hmem))
    rw [Ledger.roomClaims, Ledger.tokens, add_assoc, Multiset.map_add, Multiset.count_add,
      Multiset.count_add] at hroom
    omega
  rcases he with ⟨r', he⟩ | ⟨g, he⟩ | he
  · exact hqueued r' (Or.inl he)
  · have hplace : ∃ k r', (s.ledger.game g).place = some (k, r') ∧
        e ∈ (s.ledger.game g).handAt r' := by
      have he : e ∈ (s.ledger.game g).joinEntries := he
      cases hpc : s.ledger.game g with
      | joins k r' js ls | skip k r' idx js ls =>
        rw [hpc] at he
        exact ⟨_, _, rfl, by simpa [GamePc.handAt, GamePc.joinEntries] using he⟩
      | idle | leaves | drop | free | exit | moving | announce =>
        rw [hpc] at he
        cases he
    obtain ⟨k, r', hplace, hhand⟩ := hplace
    refine hqueued r' (Or.inr ?_)
    rw [Ledger.hand, h.places.owner_of_place hplace]
    exact hhand
  · apply hlock
    have he : e ∈ s.ledger.lock.joinEntries := he
    cases hpc : s.ledger.lock with
    | move g i old nr rest moved joins leaves | carry g i old nr moved joins leaves =>
      rw [hpc] at he
      exact he
    | free | scan | mail | first | push | store | close =>
      rw [hpc] at he
      cases he

end Seated

/-! ### The record -/

/-- An event of the input queues; a member seated, with the time of its room; a snapshot offered
to a session, with the number of the session's own actor. -/
inductive ClockEvent where
  | input (e : InputEvent)
  | seated (idx : Nat) (tick : UInt32)
  | shot (actorId : Nat) (x : Shot)
  deriving DecidableEq

def System.clockEvents (a : Act) (s : System) : List ClockEvent :=
  (s.inputEvents a).map .input ++
    match s.cue a with
    | some (.seat r e) => [.seated e.sessIdx (s.srv.rooms r).world.tick]
    | some (.tick r) => (s.srv.shots r).map fun x => .shot (s.ledger.place x.idx).2 x
    | _ => []

def inputsOf (es : List ClockEvent) : List InputEvent :=
  es.filterMap fun
    | .input e => some e
    | _ => none

def shotsOf (es : List ClockEvent) : List Shot :=
  es.filterMap fun
    | .shot _ x => some x
    | _ => none

/-- The time at which a session was seated, and the snapshots offered to it since. -/
structure Watch where
  start : Nat := 0
  shots : List Shot := []

def watched (idx : Nat) (w : Watch) : ClockEvent → Watch
  | .seated i tick => if i = idx then ⟨tick.toNat, []⟩ else w
  | .shot _ x => if x.idx = idx then { w with shots := w.shots ++ [x] } else w
  | .input _ => w

def watch (idx : Nat) (es : List ClockEvent) : Watch := es.foldl (watched idx) {}

def dueTicks (start now : Nat) : List Nat :=
  (List.range' (start + 1) (now - start)).filter fun n => n % 3 = 0

def ticksOf (xs : List Shot) : List Nat := xs.map fun x => x.snap.serverTick.toNat

/-- The ticks of a session's snapshots are multiples of 3 and strictly increasing. -/
structure Ticking (snaps : List Snapshot) : Prop where
  increasing : snaps.Pairwise fun x y => x.serverTick < y.serverTick
  multiples : ∀ x ∈ snaps, x.serverTick % 3 = 0

/-- The number of the last input consumed for a session since it was seated, 0 if none. -/
def lastConsumed (idx : Nat) (es : List ClockEvent) : UInt32 :=
  ((taken (story idx (inputsOf es))).getLast?.map (·.seq)).getD 0

/-- The snapshot shows the session's own actor, and the last input consumed for it. -/
def OwnActor (es : List ClockEvent) (actorId : Nat) (x : Shot) : Prop :=
  ∃ i : Seat, i.val = actorId ∧ (x.snap.actors (slotOf i)).state ≠ 255 ∧
    x.snap.lastInputSeq i = lastConsumed x.idx es

theorem dueTicks_self (start : Nat) : dueTicks start start = [] := by
  simp [dueTicks]

theorem dueTicks_succ {start now : Nat} (h : start ≤ now) :
    dueTicks start (now + 1) = dueTicks start now ++ if (now + 1) % 3 = 0 then [now + 1] else [] := by
  have hlen : now + 1 - start = (now - start) + 1 := by omega
  have hlast : start + 1 + (now - start) = now + 1 := by omega
  rw [dueTicks, hlen, List.range'_1_concat, List.filter_append, hlast, dueTicks]
  by_cases hdue : (now + 1) % 3 = 0 <;> simp [hdue]

theorem watch_append (idx : Nat) (es es' : List ClockEvent) :
    watch idx (es ++ es') = es'.foldl (watched idx) (watch idx es) := List.foldl_append

theorem watched_inputs (idx : Nat) (w : Watch) (es : List InputEvent) :
    (es.map ClockEvent.input).foldl (watched idx) w = w := by
  induction es with
  | nil => rfl
  | cons e es ih => exact ih

theorem watched_shots (idx : Nat) (w : Watch) (f : Shot → Nat) (xs : List Shot) :
    (xs.map fun x => ClockEvent.shot (f x) x).foldl (watched idx) w =
      { w with shots := w.shots ++ xs.filter fun x => x.idx = idx } := by
  induction xs generalizing w with
  | nil => simp
  | cons x xs ih =>
    rw [List.map_cons, List.foldl_cons, ih]
    by_cases hx : x.idx = idx <;> simp [watched, hx]

theorem inputsOf_clockEvents (a : Act) (s : System) :
    inputsOf (s.clockEvents a) = s.inputEvents a := by
  have hinputs (es : List InputEvent) : inputsOf (es.map .input) = es := by
    induction es with
    | nil => rfl
    | cons e es ih => exact congrArg (e :: ·) ih
  have hshots (f : Shot → Nat) (xs : List Shot) :
      inputsOf (xs.map fun x => ClockEvent.shot (f x) x) = [] := by
    induction xs with
    | nil => rfl
    | cons x xs ih => exact ih
  rw [System.clockEvents, inputsOf, List.filterMap_append]
  refine (congrArg₂ (· ++ ·) (hinputs _) ?_).trans (List.append_nil _)
  split
  · rfl
  · exact hshots _ _
  · rfl

def System.newShots (a : Act) (s : System) : List Shot :=
  match s.cue a with
  | some (.tick r) => s.srv.shots r
  | _ => []

theorem inputsOf_append (es es' : List ClockEvent) :
    inputsOf (es ++ es') = inputsOf es ++ inputsOf es' := List.filterMap_append

theorem shotsOf_append (es es' : List ClockEvent) :
    shotsOf (es ++ es') = shotsOf es ++ shotsOf es' := List.filterMap_append

theorem shotsOf_clockEvents (a : Act) (s : System) : shotsOf (s.clockEvents a) = s.newShots a := by
  have hinputs (es : List InputEvent) : shotsOf (es.map .input) = [] := by
    induction es with
    | nil => rfl
    | cons e es ih => exact ih
  have hshots (f : Shot → Nat) (xs : List Shot) :
      shotsOf (xs.map fun x => ClockEvent.shot (f x) x) = xs := by
    induction xs with
    | nil => rfl
    | cons x xs ih => exact congrArg (x :: ·) ih
  rw [System.clockEvents, System.newShots, shotsOf_append, hinputs, List.nil_append]
  split
  · rename_i hcue
    rw [hcue]
    rfl
  · rename_i hcue
    rw [hcue]
    exact hshots _ _
  · rename_i hseat htick
    split
    · rename_i r hcue
      exact absurd hcue (htick r)
    · rfl

theorem mem_clockEvents {a : Act} {s : System} {actorId : Nat} {x : Shot}
    (h : ClockEvent.shot actorId x ∈ s.clockEvents a) :
    x ∈ s.newShots a ∧ actorId = (s.ledger.place x.idx).2 := by
  rcases List.mem_append.mp h with hin | hout
  · obtain ⟨e, -, heq⟩ := List.mem_map.mp hin
    cases heq
  · unfold System.newShots
    split at hout
    · cases hout with
      | tail _ hnil => cases hnil
    · rename_i r hcue
      obtain ⟨y, hy, heq⟩ := List.mem_map.mp hout
      cases heq
      rw [hcue]
      exact ⟨hy, rfl⟩
    · cases hout

theorem watch_clockEvents {a : Act} {s : System} {idx : Nat} (es : List ClockEvent)
    (hseat : ∀ r e, s.cue a = some (.seat r e) → e.sessIdx ≠ idx) :
    watch idx (es ++ s.clockEvents a) =
      { watch idx es with
        shots := (watch idx es).shots ++ (s.newShots a).filter fun x => x.idx = idx } := by
  rw [watch_append, System.clockEvents, List.foldl_append, watched_inputs, System.newShots]
  split
  · rename_i r e hcue
    rw [hcue]
    simp [watched, hseat r e hcue]
  · rename_i r hcue
    rw [hcue]
    exact watched_shots ..
  · rename_i htick
    split
    · rename_i r hcue
      exact absurd hcue (htick r)
    · simp

/-! ### The invariant -/

/-- The snapshots of a seated session: what it was offered at the times of its clock. -/
structure Timed (w : Watch) (S : Session) (idx now : Nat) : Prop where
  behind : ∀ x ∈ S.snapshots, x.serverTick.toNat ≤ now
  started : w.start ≤ now
  offered : S.dead = false → ticksOf w.shots = dueTicks w.start now
  rings : S.snapshots = delivered idx w.shots

structure ClockOk (es : List ClockEvent) (s : System) : Prop where
  ticking : ∀ idx, Ticking (s.srv.sess idx).snapshots
  timed : ∀ r i, ((s.srv.rooms r).members i).used = true →
    Timed (watch ((s.srv.rooms r).members i).sessIdx es)
      (s.srv.sess ((s.srv.rooms r).members i).sessIdx) ((s.srv.rooms r).members i).sessIdx (s.clock r)
  waiting : ∀ e, s.ledger.HasJoin e → (s.srv.sess e.sessIdx).snapshots = []
  placed : ∀ idx, (s.srv.sess idx).snapshots ≠ [] → s.ledger.Placed idx
  counted : s.srv.metrics.snapshotsSent = (shotsOf es).countP (·.sent) ∧
    s.srv.metrics.snapshotsDropped = (shotsOf es).countP (!·.sent)

namespace System

variable {s t : System} {a : Act}

theorem newShots_of_not_tick (ha : ∀ g k, a ≠ .tick g k) : s.newShots a = [] := by
  unfold newShots
  split
  · rename_i r hcue
    cases cued_of_cue hcue with
    | tick g k r hr => exact absurd rfl (ha g k)
  · rfl

theorem newShots_tick {g k r : Nat} (hr : (s.srv.myRooms g)[k]? = some r) :
    s.newShots (.tick g k) = s.srv.shots r := by
  simp [newShots, cue, hr]

theorem tick_shots (hs : Consistent s.ledger) {g k : Nat} (h : step (.tick g k) s = some t)
    (idx : Nat) :
    (t.srv.sess idx).snapshots =
      (s.srv.sess idx).snapshots ++ delivered idx (s.newShots (.tick g k)) ∧
    t.srv.metrics.snapshotsSent =
      s.srv.metrics.snapshotsSent + (s.newShots (.tick g k)).countP (·.sent) ∧
    t.srv.metrics.snapshotsDropped =
      s.srv.metrics.snapshotsDropped + (s.newShots (.tick g k)).countP (!·.sent) := by
  obtain ⟨r, -, hr, htick⟩ := tick_of_step h
  rw [htick, newShots_tick hr]
  exact Server.tickBody_shots (fun i j hi hj hsess => (used_unique hs hj hi hsess).2) idx

/-- What a step does to the snapshots in a session's ring. -/
theorem snapshots_step (hs : Consistent s.ledger) (h : step a s = some t) (idx : Nat) :
    ((t.srv.sess idx).snapshots = [] ∧ idx ∈ s.srv.pool.free) ∨
      (t.srv.sess idx).snapshots = (s.srv.sess idx).snapshots ++ delivered idx (s.newShots a) := by
  by_cases ha : ∃ g k, a = .tick g k
  · obtain ⟨g, k, rfl⟩ := ha
    exact Or.inr (tick_shots hs h idx).1
  · have ha' : ∀ g k, a ≠ .tick g k := fun g k hk => ha ⟨g, k, hk⟩
    have hnone : delivered idx (s.newShots a) = [] := by rw [newShots_of_not_tick ha']; rfl
    rw [hnone, List.append_nil]
    rcases (section_of_step ha' h).snapshots with ⟨w, fd, recvOk, sendOk, ctlOk, heq⟩ | hsame
    · rw [heq]
      exact (Server.accept_snapshots ..).imp id And.left
    · exact Or.inr (hsame idx)

theorem counted_step (hs : Consistent s.ledger) (h : step a s = some t) :
    t.srv.metrics.snapshotsSent =
      s.srv.metrics.snapshotsSent + (s.newShots a).countP (·.sent) ∧
    t.srv.metrics.snapshotsDropped =
      s.srv.metrics.snapshotsDropped + (s.newShots a).countP (!·.sent) := by
  by_cases ha : ∃ g k, a = .tick g k
  · obtain ⟨g, k, rfl⟩ := ha
    exact (tick_shots hs h 0).2
  · have ha' : ∀ g k, a ≠ .tick g k := fun g k hk => ha ⟨g, k, hk⟩
    have hreports := (section_of_step ha' h).reports
    rw [newShots_of_not_tick ha']
    exact ⟨congrArg (·.2.1) hreports, congrArg (·.2.2) hreports⟩

theorem placed_of_delivered (hs : Consistent s.ledger) {idx : Nat}
    (h : delivered idx (s.newShots a) ≠ []) :
    ∃ r i, ((s.srv.rooms r).members i).used = true ∧
      ((s.srv.rooms r).members i).sessIdx = idx ∧ s.ledger.Placed idx := by
  have hshot : ∃ x ∈ s.newShots a, x.idx = idx := by
    by_contra hnone
    apply h
    simp only [delivered, List.map_eq_nil_iff, List.filter_eq_nil_iff]
    intro x hx hmatch
    simp only [decide_eq_true_eq] at hmatch
    exact hnone ⟨x, hx, hmatch.1⟩
  obtain ⟨x, hx, rfl⟩ := hshot
  unfold newShots at hx
  split at hx
  · rename_i r hcue
    obtain ⟨-, i, hlive, rfl⟩ := Server.mem_shots hx
    have hused : ((s.srv.rooms r).members i).used = true := by
      simp only [Server.live, Bool.and_eq_true] at hlive
      exact hlive.1.1
    exact ⟨r, i, hused, rfl, placed_of_used hs hused⟩
  · cases hx

end System

namespace ClockOk

variable {es : List ClockEvent} {s t : System} {a : Act}

theorem waiting_step (h : ClockOk es s) (hs : Consistent s.ledger) (ht : System.step a s = some t)
    {e : RoomJoinEntry} (he : t.ledger.HasJoin e) : (t.srv.sess e.sessIdx).snapshots = [] := by
  have hkeep (hempty : (s.srv.sess e.sessIdx).snapshots = [])
      (hnone : delivered e.sessIdx (s.newShots a) = []) :
      (t.srv.sess e.sessIdx).snapshots = [] := by
    rcases System.snapshots_step hs ht e.sessIdx with ⟨hnil, -⟩ | happ
    · exact hnil
    · rw [happ, hempty, hnone]
      rfl
  have hold (he : s.ledger.HasJoin e) : (t.srv.sess e.sessIdx).snapshots = [] := by
    refine hkeep (h.waiting e he) ?_
    by_contra hsome
    obtain ⟨r, i, hused, hsess, -⟩ := System.placed_of_delivered hs hsome
    exact sess_ne_of_join hs hused he hsess
  rcases System.trans_of_step ht with hsame | htrans
  · exact hold (hsame ▸ he)
  · rcases Ledger.HasJoin.step htrans he with he | ⟨w, r, i, hlock⟩
    · exact hold he
    · -- the session is still in `Join`
      have hnot : ¬s.ledger.Placed e.sessIdx := by
        have hin := hs.refs.joiner w e.sessIdx (by rw [hlock]; rfl)
        have hconn := hs.refs.net w e.sessIdx (by rw [hin]; rfl)
        rintro (hroom | hdead | ⟨r', i', hstore⟩)
        · have hout := hs.refs.unplaced w e.sessIdx (by rw [hin]; rfl)
          rw [hout] at hroom
          cases hroom
        · have hleaving := (hs.refs.dead w e.sessIdx hconn).mp hdead
          rw [hin] at hleaving
          cases hleaving
        · rw [hlock] at hstore
          cases hstore
      refine hkeep ?_ ?_
      · by_contra hsome
        exact hnot (h.placed _ hsome)
      · by_contra hsome
        obtain ⟨r, i, -, -, hplaced⟩ := System.placed_of_delivered hs hsome
        exact hnot hplaced

theorem placed_step (h : ClockOk es s) (hs : Consistent s.ledger) (ht : System.step a s = some t)
    {idx : Nat} (hsome : (t.srv.sess idx).snapshots ≠ []) : t.ledger.Placed idx := by
  have hold (hcleared : ¬((t.srv.sess idx).snapshots = [] ∧ idx ∈ s.srv.pool.free)) :
      s.ledger.Placed idx := by
    have happ := (System.snapshots_step hs ht idx).resolve_left hcleared
    by_cases hnone : delivered idx (s.newShots a) = []
    · rw [hnone, List.append_nil] at happ
      exact h.placed idx (happ ▸ hsome)
    · obtain ⟨-, -, -, -, hplaced⟩ := System.placed_of_delivered hs hnone
      exact hplaced
  have hplaced := hold fun hcleared => hsome hcleared.1
  rcases System.trans_of_step ht with hsame | htrans
  · exact hsame ▸ hplaced
  · by_cases ha : ∃ w, a.actor = .accept w
    · obtain ⟨w, hw⟩ := ha
      cases a <;> cases hw
      rename_i fd recvOk sendOk ctlOk
      simp only [System.step] at ht
      split at ht <;> cases ht
      rcases s.srv.accept_snapshots w fd recvOk sendOk ctlOk idx with hcleared | ⟨-, hbook⟩
      · exact absurd hcleared.1 hsome
      · exact hplaced.congr (congrArg SessBook.inRoom hbook) (congrArg SessBook.dead hbook)
          (Or.inl rfl)
    · exact hplaced.step hs (fun w hw => ha ⟨w, hw⟩) htrans

/-- What a step offers comes from one room, at the time that it then shows. -/
theorem mem_newShots (hs : Consistent s.ledger) (ht : System.clocked a s = some t) {x : Shot}
    (hx : x ∈ s.newShots a) : ∃ r i, s.cue a = some (.tick r) ∧
      ((s.srv.rooms r).members i).used = true ∧ ((s.srv.rooms r).members i).sessIdx = x.idx ∧
      x.snap = (s.srv.rooms r).step.snapshot ∧ x.snap.serverTick.toNat = s.clock r + 1 ∧
      x.snap.serverTick % 3 = 0 := by
  obtain ⟨hwraps, ht⟩ := System.step_of_clocked ht
  unfold System.newShots at hx
  split at hx
  · rename_i r hcue
    obtain ⟨hdue, i, hlive, rfl⟩ := Server.mem_shots hx
    have hused : ((s.srv.rooms r).members i).used = true := by
      simp only [Server.live, Bool.and_eq_true] at hlive
      exact hlive.1.1
    refine ⟨r, i, hcue, hused, rfl, rfl, ?_, ?_⟩
    · cases System.cued_of_cue hcue with
      | tick g k r hr =>
        obtain ⟨hnext, hshown, -⟩ := clock_tick hs hr hwraps ht
        exact hshown.trans hnext
    · simp only [Server.snapshotDue, Bool.and_eq_true, beq_iff_eq] at hdue
      exact hdue.1
  · cases hx

theorem newShots_other (hs : Consistent s.ledger) (ht : System.clocked a s = some t) {r : Nat}
    {i : Seat} (hused : ((s.srv.rooms r).members i).used = true) (hnot : s.cue a ≠ some (.tick r)) :
    (s.newShots a).filter (fun x => x.idx = ((s.srv.rooms r).members i).sessIdx) = [] := by
  apply List.filter_eq_nil_iff.mpr
  intro x hx hmatch
  obtain ⟨r', i', hcue, hused', hsess, -⟩ := mem_newShots hs ht hx
  obtain ⟨rfl, -⟩ := System.used_unique hs hused hused' (hsess.trans (by simpa using hmatch))
  exact hnot hcue

theorem newShots_own (hs : Consistent s.ledger) (ht : System.clocked a s = some t) {r : Nat} {i : Seat}
    (hused : ((s.srv.rooms r).members i).used = true) (hcue : s.cue a = some (.tick r))
    (hlive : (s.srv.sess ((s.srv.rooms r).members i).sessIdx).dead = false) :
    ticksOf ((s.newShots a).filter fun x => x.idx = ((s.srv.rooms r).members i).sessIdx) =
      if t.clock r % 3 = 0 then [t.clock r] else [] := by
  obtain ⟨hwraps, ht⟩ := System.step_of_clocked ht
  cases System.cued_of_cue hcue with
  | tick g k r hr =>
    obtain ⟨-, hshown, -⟩ := clock_tick hs hr hwraps ht
    have hone (j : Seat) (hj : ((s.srv.rooms r).members j).used = true)
        (hsess : ((s.srv.rooms r).members j).sessIdx = ((s.srv.rooms r).members i).sessIdx) :
        j = i := (System.used_unique hs hused hj hsess).2
    have hl : s.srv.live r i = true := by
      simp [Server.live, hused, hlive, (System.holder_of_used hs hused).1]
    have hcount : (s.srv.rooms r).memberCount ≠ 0 := by
      obtain ⟨-, hidle, -⟩ := System.tick_of_step ht
      have hgame : s.ledger.game g = .idle := hidle
      have hstill := hs.places.not_transfer_of_idle hgame hr
      have huncounted : s.ledger.lock.uncounted r = false := by
        cases hl : s.ledger.lock with
        | move g' k' old nr rest moved joins leaves =>
          obtain ⟨hold, hnew⟩ := hstill g' k' old nr (by rw [hl]; rfl)
          simp [LockPc.uncounted, Ne.symm hold, Ne.symm hnew]
        | carry g' k' old nr moved joins leaves =>
          obtain ⟨-, hnew⟩ := hstill g' k' old nr (by rw [hl]; rfl)
          simp [LockPc.uncounted, Ne.symm hnew]
        | _ => rfl
      have hheads : (s.srv.rooms r).memberCount = ((s.srv.rooms r).book.heads : Int) :=
        hs.heads.count r huncounted
      have hpos : 0 < (s.srv.rooms r).book.heads := by
        refine Finset.sum_pos' (fun _ _ => Nat.zero_le _) ⟨i, Finset.mem_univ i, ?_⟩
        rw [Room.seated_isSome, hused]
        exact Nat.one_pos
      omega
    have hdue : (Server.snapshotDue (s.srv.rooms r).step = true) ↔ t.clock r % 3 = 0 := by
      rw [Server.snapshotDue, Room.step_memberCount, ← hshown]
      simp [hcount, ← UInt32.toNat_inj]
    have hshots : s.newShots (.tick g k) = s.srv.shots r := System.newShots_tick hr
    rw [hshots, Server.shots_of_member hone]
    by_cases hmod : t.clock r % 3 = 0
    · rw [if_pos hmod, if_pos ⟨hdue.mpr hmod, hl⟩, ← hshown]
      rfl
    · rw [if_neg hmod, if_neg fun hh => hmod (hdue.mp hh.1)]
      rfl

theorem dead_before (hs : Consistent s.ledger) (ht : System.step a s = some t) {r : Nat} {i : Seat}
    (hused : ((s.srv.rooms r).members i).used = true)
    (hlive : (t.srv.sess ((s.srv.rooms r).members i).sessIdx).dead = false) :
    (s.srv.sess ((s.srv.rooms r).members i).sessIdx).dead = false := by
  by_contra hdead
  have hdead : (s.srv.sess ((s.srv.rooms r).members i).sessIdx).dead = true := by simpa using hdead
  rcases System.trans_of_step ht with hsame | htrans
  · have hkept : (t.srv.sess ((s.srv.rooms r).members i).sessIdx).dead =
        (s.srv.sess ((s.srv.rooms r).members i).sessIdx).dead :=
      congrArg (fun L : Ledger => (L.sess ((s.srv.rooms r).members i).sessIdx).dead) hsame
    rw [hkept, hdead] at hlive
    cases hlive
  · rcases htrans.dead_kept hdead with hkept | hfree
    · have hkept : (t.srv.sess ((s.srv.rooms r).members i).sessIdx).dead = true := hkept
      rw [hkept] at hlive
      cases hlive
    · exact not_free_of_seated hs hused hfree

/-! #### What a step does to one member -/

section Member
variable {r : Nat} {i : Seat} (h : ClockOk es s) (hs : Consistent s.ledger)
  (ht : System.clocked a s = some t)
include h hs ht

theorem timed_kept (hused : ((s.srv.rooms r).members i).used = true)
    (hnot : s.cue a ≠ some (.tick r)) :
    Timed (watch ((s.srv.rooms r).members i).sessIdx (es ++ s.clockEvents a))
      (t.srv.sess ((s.srv.rooms r).members i).sessIdx) ((s.srv.rooms r).members i).sessIdx
      (s.clock r) := by
  have hold := h.timed r i hused
  have hstep := (System.step_of_clocked ht).2
  have hnone := newShots_other hs ht hused hnot
  have hsnaps : (t.srv.sess ((s.srv.rooms r).members i).sessIdx).snapshots =
      (s.srv.sess ((s.srv.rooms r).members i).sessIdx).snapshots := by
    rcases System.snapshots_step hs hstep ((s.srv.rooms r).members i).sessIdx with ⟨-, hfree⟩ | happ
    · exact absurd hfree (not_free_of_seated hs hused)
    · rw [happ, ← delivered_filter, hnone]
      exact List.append_nil _
  have hwatch : watch ((s.srv.rooms r).members i).sessIdx (es ++ s.clockEvents a) =
      watch ((s.srv.rooms r).members i).sessIdx es := by
    have hseat : ∀ r₀ e, s.cue a = some (.seat r₀ e) →
        e.sessIdx ≠ ((s.srv.rooms r).members i).sessIdx := by
      intro r₀ e hcue
      cases System.cued_of_cue hcue with
      | seat g k r₀ e js ls hg hlive => exact Ne.symm (System.sess_ne_of_hand hs hused hg)
    rw [watch_clockEvents es hseat, hnone, List.append_nil]
  rw [hwatch]
  constructor
  · rw [hsnaps]
    exact hold.behind
  · exact hold.started
  · intro hlive
    exact hold.offered (dead_before hs hstep hused hlive)
  · rw [hsnaps]
    exact hold.rings

theorem timed_ticked (hused : ((s.srv.rooms r).members i).used = true)
    (hcue : s.cue a = some (.tick r)) (hclock : t.clock r = s.clock r + 1) :
    Timed (watch ((s.srv.rooms r).members i).sessIdx (es ++ s.clockEvents a))
      (t.srv.sess ((s.srv.rooms r).members i).sessIdx) ((s.srv.rooms r).members i).sessIdx
      (t.clock r) := by
  have hold := h.timed r i hused
  have hstep := (System.step_of_clocked ht).2
  have hseat : ∀ r₀ e, s.cue a = some (.seat r₀ e) →
      e.sessIdx ≠ ((s.srv.rooms r).members i).sessIdx := by
    intro r₀ e hcue'
    rw [hcue] at hcue'
    cases hcue'
  have hsnaps : (t.srv.sess ((s.srv.rooms r).members i).sessIdx).snapshots =
      (s.srv.sess ((s.srv.rooms r).members i).sessIdx).snapshots ++
        delivered ((s.srv.rooms r).members i).sessIdx (s.newShots a) := by
    rcases System.snapshots_step hs hstep ((s.srv.rooms r).members i).sessIdx with ⟨-, hfree⟩ | happ
    · exact absurd hfree (not_free_of_seated hs hused)
    · exact happ
  rw [watch_clockEvents es hseat]
  constructor
  · rw [hsnaps]
    intro x hx
    rcases List.mem_append.mp hx with hx | hx
    · exact (hold.behind x hx).trans (by omega)
    · obtain ⟨y, hy, rfl⟩ := List.mem_map.mp hx
      obtain ⟨r', i', hcue', -, -, -, htick, -⟩ := mem_newShots hs ht (List.mem_filter.mp hy).1
      rw [hcue] at hcue'
      cases hcue'
      omega
  · exact hold.started.trans (by omega)
  · intro hlive
    have hbefore := dead_before hs hstep hused hlive
    have hown := newShots_own hs ht hused hcue hbefore
    have hold' := hold.offered hbefore
    have hsplit (xs ys : List Shot) : ticksOf (xs ++ ys) = ticksOf xs ++ ticksOf ys :=
      List.map_append
    rw [hsplit, hown, hold', hclock, dueTicks_succ hold.started]
  · rw [hsnaps, Server.delivered_append, delivered_filter, hold.rings]

theorem timed_seated {e : RoomJoinEntry} (hcue : s.cue a = some (.seat r e))
    (hclock : t.clock r = s.srv.time r) :
    Timed (watch e.sessIdx (es ++ s.clockEvents a)) (t.srv.sess e.sessIdx) e.sessIdx
      (t.clock r) := by
  have hstep := (System.step_of_clocked ht).2
  have hnone : s.newShots a = [] := by simp [System.newShots, hcue]
  have hempty : (t.srv.sess e.sessIdx).snapshots = [] := by
    have hjoin : s.ledger.HasJoin e := by
      cases System.cued_of_cue hcue with
      | seat g k r e js ls hg hlive =>
        refine Or.inr (Or.inl ⟨g, ?_⟩)
        show e ∈ (s.game g).joinEntries
        rw [hg]
        exact List.mem_cons_self ..
    rcases System.snapshots_step hs hstep e.sessIdx with ⟨hnil, -⟩ | happ
    · exact hnil
    · rw [happ, h.waiting e hjoin, hnone]
      rfl
  have hwatch : watch e.sessIdx (es ++ s.clockEvents a) = ⟨s.srv.time r, []⟩ := by
    rw [watch_append, System.clockEvents, List.foldl_append, watched_inputs, hcue]
    exact if_pos rfl
  rw [hwatch, hclock]
  constructor
  · rw [hempty]
    rintro x ⟨⟩
  · exact Nat.le_refl _
  · intro _
    exact (dueTicks_self _).symm
  · exact hempty

theorem ticking_step (idx : Nat) : Ticking (t.srv.sess idx).snapshots := by
  rcases System.snapshots_step hs (System.step_of_clocked ht).2 idx with ⟨hnil, -⟩ | happ
  · rw [hnil]
    constructor
    · exact List.Pairwise.nil
    · rintro x ⟨⟩
  · rw [happ]
    by_cases hnone : delivered idx (s.newShots a) = []
    · rw [hnone, List.append_nil]
      exact h.ticking idx
    · have hold := h.ticking idx
      have hnew : ∀ x ∈ delivered idx (s.newShots a), x.serverTick % 3 = 0 ∧
          ∀ y ∈ (s.srv.sess idx).snapshots, y.serverTick < x.serverTick := by
        intro x hx
        obtain ⟨z, hz, rfl⟩ := List.mem_map.mp hx
        obtain ⟨hmem, hidx⟩ := List.mem_filter.mp hz
        obtain ⟨r, i, -, hused, hsess, -, htick, hmod⟩ := mem_newShots hs ht hmem
        simp only [decide_eq_true_eq] at hidx
        refine ⟨hmod, fun y hy => ?_⟩
        have hle := (h.timed r i hused).behind y (by rw [hsess, hidx.1]; exact hy)
        apply UInt32.lt_iff_toNat_lt.mpr
        omega
      -- a room offers a session no more than one snapshot at a time
      have hone : (delivered idx (s.newShots a)).length ≤ 1 := by
        obtain ⟨r, i, hused, hsess, -⟩ := System.placed_of_delivered hs hnone
        rw [← hsess, ← delivered_filter]
        by_cases hcue : s.cue a = some (.tick r)
        · have hshots : s.newShots a = s.srv.shots r := by simp [System.newShots, hcue]
          rw [hshots, Server.shots_of_member fun j hj hsess' =>
            (System.used_unique hs hused hj hsess').2]
          refine (List.length_map ..).trans_le ((List.length_filter_le ..).trans ?_)
          split <;> simp
        · rw [newShots_other hs ht hused hcue]
          exact Nat.zero_le _
      constructor
      · refine List.pairwise_append.mpr ⟨hold.increasing, ?_, fun y hy x hx => (hnew x hx).2 y hy⟩
        generalize delivered idx (s.newShots a) = xs at hone
        match xs with
        | [] => exact List.Pairwise.nil
        | [x] => exact List.pairwise_singleton _ x
      · intro x hx
        rcases List.mem_append.mp hx with hx | hx
        · exact hold.multiples x hx
        · exact (hnew x hx).1

theorem step : ClockOk (es ++ s.clockEvents a) t where
  ticking := h.ticking_step hs ht
  timed r i hused := by
    cases System.member_step hs ht hused with
    | kept r₁ hused₁ hsame hclock hnot =>
      rw [hsame, hclock]
      exact h.timed_kept hs ht hused₁ hnot
    | ticked hcue hused₁ hsess hclock =>
      rw [hsess]
      exact h.timed_ticked hs ht hused₁ hcue hclock
    | seated e hcue hi hsess hclock =>
      rw [hsess]
      exact h.timed_seated hs ht hcue hclock
  waiting e he := h.waiting_step hs (System.step_of_clocked ht).2 he
  placed idx hsome := h.placed_step hs (System.step_of_clocked ht).2 hsome
  counted := by
    obtain ⟨hsent, hdropped⟩ := System.counted_step hs (System.step_of_clocked ht).2
    obtain ⟨hsent', hdropped'⟩ := h.counted
    rw [shotsOf_append, shotsOf_clockEvents, List.countP_append, List.countP_append]
    constructor
    · rw [hsent, hsent']
    · rw [hdropped, hdropped']

end Member

theorem init (sessionCapacity roomCapacity workerCount : Nat) :
    ClockOk [] (System.init sessionCapacity roomCapacity workerCount) where
  ticking idx := by
    constructor
    · exact List.Pairwise.nil
    · rintro x ⟨⟩
  timed r i hused := by cases hused
  waiting e he := rfl
  placed idx hsome := absurd rfl hsome
  counted := ⟨rfl, rfl⟩

theorem run {sessionCapacity roomCapacity workerCount : Nat} {es : List ClockEvent} {s : System}
    (h : Traced System.clocked System.clockEvents
      (System.init sessionCapacity roomCapacity workerCount) es s) :
    Consistent s.ledger ∧ InputsOk (inputsOf es) s ∧ ClockOk es s := by
  have hall : Reach System.step Any (System.init sessionCapacity roomCapacity workerCount) s ∧
      InputsOk (inputsOf es) s ∧ ClockOk es s := by
    refine h.invariant (P := fun es s => Reach System.step Any
      (System.init sessionCapacity roomCapacity workerCount) s ∧ InputsOk (inputsOf es) s ∧
        ClockOk es s) ⟨.refl, InputsOk.init .., ClockOk.init ..⟩ ?_
    rintro es s a t - ⟨hreach, hinputs, hclock⟩ ht
    have hs := System.consistent hreach
    have hstep := (System.step_of_clocked ht).2
    refine ⟨hreach.tail trivial hstep, ?_, hclock.step hs ht⟩
    rw [inputsOf_append, inputsOf_clockEvents]
    exact hinputs.step hs hstep
  obtain ⟨hreach, hinputs, hclock⟩ := hall
  exact ⟨System.consistent hreach, hinputs, hclock⟩

end ClockOk

/-! ### What a snapshot shows its receiver -/

theorem present_of_tick {s t : System} (hs : Consistent s.ledger) {g k r : Nat} {i : Seat}
    (hr : (s.srv.myRooms g)[k]? = some r) (hused : ((s.srv.rooms r).members i).used = true)
    (ht : System.step (.tick g k) s = some t) :
    ((s.srv.rooms r).world.actors (slotOf i)).present = true := by
  obtain ⟨-, hidle, -⟩ := System.tick_of_step ht
  have hgame : s.ledger.game g = .idle := hidle
  have hstill := hs.places.not_transfer_of_idle hgame hr
  have hfree : r ∉ s.ledger.freeRooms := by
    intro hfree
    exact (hs.places.not_kept (Or.inl hfree) g).2 (List.mem_of_getElem? hr)
  have hemptying : s.ledger.lock.emptying ≠ some r := by
    intro hempty
    cases hl : s.ledger.lock <;> rw [hl] at hempty <;> cases hempty
    all_goals exact (hstill _ _ _ _ (by rw [hl]; rfl)).1 rfl
  have hpresent := hs.heads.present r hfree hemptying i
  have hseated := (s.srv.rooms r).seated_isSome i
  exact (hpresent.trans hseated).trans hused

theorem snapActor_state {a : SimActor} (h : a.present = true) (i : Slot) :
    (Room.snapActor a i).state = a.state := by
  unfold Room.snapActor
  rw [if_pos h]

theorem step_state {R : Room} {i : Seat} (h : (R.world.actors (slotOf i)).present = true) :
    (R.step.snapshot.actors (slotOf i)).state ≠ 255 := by
  obtain ⟨ms, inputs, heq⟩ := R.step_eq
  have hworld : R.step.world.actors = (simStep R.world inputs).actors := by rw [heq]
  have hpresent : (R.step.world.actors (slotOf i)).present = true := by
    rw [hworld, simStep_present]
    exact h
  have hstate : (R.step.world.actors (slotOf i)).state =
      (movePlayer (R.world.actors (slotOf i)) (inputs i)).state := by
    have hslot : movePlayers R.world.actors inputs (slotOf i) =
        movePlayer (R.world.actors (slotOf i)) (inputs i) := by
      have hlt : (slotOf i).val < 4 := i.isLt
      unfold movePlayers
      rw [dif_pos hlt]
      rfl
    rw [hworld, simStep_keeps (f := fun a => a.state) (fun _ _ => rfl) (fun _ _ => rfl), hslot]
  have hsnap : (R.step.snapshot.actors (slotOf i)).state =
      (R.step.world.actors (slotOf i)).state := snapActor_state hpresent (slotOf i)
  rw [hsnap, hstate]
  rcases movePlayer_state h (inputs i) with hidle | hwalk
  · rw [hidle]
    decide
  · rw [hwalk]
    decide

theorem ClockOk.ownActor {es : List ClockEvent} {s t : System} {a : Act} (hs : Consistent s.ledger)
    (hinputs : InputsOk (inputsOf es) s) (ht : System.clocked a s = some t) {actorId : Nat}
    {x : Shot} (hx : ClockEvent.shot actorId x ∈ s.clockEvents a) :
    OwnActor (es ++ s.clockEvents a) actorId x := by
  have hstep := (System.step_of_clocked ht).2
  obtain ⟨hmem, hactor⟩ := mem_clockEvents hx
  obtain ⟨r, i, hcue, hused, hsess, hsnap, -⟩ := mem_newShots hs ht hmem
  refine ⟨i, ?_, ?_, ?_⟩
  · rw [hactor, ← hsess, (System.holder_of_used hs hused).2]
  · rw [hsnap]
    cases System.cued_of_cue hcue with
    | tick g k r hr => exact step_state (present_of_tick hs hr hused hstep)
  · cases System.cued_of_cue hcue with
    | tick g k r hr =>
      have hroom : (t.srv.rooms r).members i = (s.srv.rooms r).step.members i := by
        obtain ⟨r', -, hr', htick⟩ := System.tick_of_step hstep
        obtain rfl : r' = r := Option.some.inj (hr'.symm.trans hr)
        rw [htick, Server.tickBody_rooms]
        simp [Server.modRoom]
      obtain ⟨hused', hsess', -⟩ := (s.srv.rooms r).step_identity i
      have hu : ((t.srv.rooms r).members i).used = true := by rw [hroom, hused', hused]
      have hnext := hinputs.step hs hstep
      have hlast : ((t.srv.rooms r).members i).lastInputSeq =
          ((taken (story ((t.srv.rooms r).members i).sessIdx
            (inputsOf es ++ s.inputEvents (.tick g k)))).getLast?.map (·.seq)).getD 0 :=
        (hnext.fed r i hu).last
      rw [hroom, hsess', hsess] at hlast
      rw [hsnap, lastConsumed, inputsOf_append, inputsOf_clockEvents, ← hlast]
      show (if ((s.srv.rooms r).step.members i).used then
        ((s.srv.rooms r).step.members i).lastInputSeq else 0) = _
      rw [if_pos (hused'.trans hused)]

/-- Along every run in which no tick counter wraps: the snapshots in a session's ring tick upwards
in multiples of 3; a live member was offered one for each multiple of 3 of its clock since it
was seated, and its ring holds those it took; every offer was taken or counted as dropped,
and shows the receiver's own actor and the last input consumed for it. -/
theorem snapshot_clock {sessionCapacity roomCapacity workerCount : Nat} {es : List ClockEvent}
    {s : System} (h : Traced System.clocked System.clockEvents
      (System.init sessionCapacity roomCapacity workerCount) es s) :
    (∀ idx, Ticking (s.srv.sess idx).snapshots) ∧
    (∀ r i, ((s.srv.rooms r).members i).used = true →
      Timed (watch ((s.srv.rooms r).members i).sessIdx es)
        (s.srv.sess ((s.srv.rooms r).members i).sessIdx) ((s.srv.rooms r).members i).sessIdx
        (s.clock r)) ∧
    (s.srv.metrics.snapshotsSent = (shotsOf es).countP (·.sent) ∧
      s.srv.metrics.snapshotsDropped = (shotsOf es).countP (!·.sent)) ∧
    ∀ a t actorId x, System.clocked a s = some t → ClockEvent.shot actorId x ∈ s.clockEvents a →
      OwnActor (es ++ s.clockEvents a) actorId x := by
  obtain ⟨hs, hinputs, hclock⟩ := ClockOk.run h
  refine ⟨hclock.ticking, hclock.timed, hclock.counted, ?_⟩
  intro a t actorId x ht hx
  exact ClockOk.ownActor hs hinputs ht hx

/-- The player of `playing`, two ticks later. -/
def twoTicks : List Act := playing ++ [.tick 0 0, .tick 0 0]

theorem snapshot_clock_twoTicks : ∃ es s t actorId x,
    record System.clocked System.clockEvents twoTicks (System.init 1 1 1) = some (es, s) ∧
    System.clocked (.tick 0 0) s = some t ∧
    Timed (watch 0 es) (s.srv.sess 0) 0 2 ∧
    ClockEvent.shot actorId x ∈ s.clockEvents (.tick 0 0) ∧
    x.snap.serverTick = 3 ∧ x.sent = true ∧
    OwnActor (es ++ s.clockEvents (.tick 0 0)) actorId x := by
  have hstate : (record System.clocked System.clockEvents twoTicks (System.init 1 1 1)).map
      (fun p => (((p.2.srv.rooms 0).members firstSeat).used,
        ((p.2.srv.rooms 0).members firstSeat).sessIdx, p.2.clock 0,
        (System.clocked (.tick 0 0) p.2).isSome)) = some (true, 0, 2, true) := by decide +kernel
  have hshots : (record System.clocked System.clockEvents twoTicks (System.init 1 1 1)).map
      (fun p => (shotsOf (p.2.clockEvents (.tick 0 0))).map fun x => (x.snap.serverTick, x.sent)) =
      some [(3, true)] := by decide +kernel
  obtain ⟨⟨es, s⟩, hrec, hproj⟩ := Option.map_eq_some_iff.mp hstate
  simp only [Prod.mk.injEq] at hproj
  obtain ⟨hused, hidx, hnow, hsome⟩ := hproj
  obtain ⟨t, ht⟩ := Option.isSome_iff_exists.mp hsome
  obtain ⟨-, htimed, -, hown⟩ := snapshot_clock (traced_of_record hrec)
  have htimed := htimed 0 firstSeat hused
  rw [hidx, hnow] at htimed
  rw [hrec, Option.map_some, Option.some.injEq, List.map_eq_singleton_iff] at hshots
  obtain ⟨x, hone, hx⟩ := hshots
  obtain ⟨htick, hsent⟩ := Prod.mk.inj hx
  have hmem : x ∈ shotsOf (s.clockEvents (.tick 0 0)) := by
    rw [hone]
    exact List.mem_cons_self ..
  obtain ⟨e, he, heq⟩ := List.mem_filterMap.mp hmem
  cases e with
  | input e => cases heq
  | seated idx tick => cases heq
  | shot actorId y =>
    cases heq
    exact ⟨es, s, t, actorId, x, hrec, ht, htimed, he, htick, hsent, hown _ t actorId x ht he⟩

end BeltServer
