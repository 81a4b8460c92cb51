import BeltServer.Inputs
import BeltServer.Lib.Holding

/-!
# Held inputs

A tick without an input goes on with the last one, for ten ticks in a row; after that the
member stands still until the next input. `consumed` reads off a member's story what each of
its ticks consumed, from its seating on and through every transfer, and `inEffect` says what
its actor is told to do after such ticks. `lives` collects the ticks of everybody who was ever
seated: the counter of neutralised inputs counts the lapses of all of them.
-/

namespace BeltServer

set_option autoImplicit false

open Runs DropQueue Holding

structure Control where
  mx : Int8 := 0
  my : Int8 := 0
  attack : UInt8 := 0
  skill : UInt8 := 0
  deriving DecidableEq

namespace InputCmd

def control (c : InputCmd) : Control := ⟨c.mx, c.my, c.attack, c.skill⟩

def live (c : InputCmd) : Bool := !c.isNeutral

theorem isNeutral_iff (c : InputCmd) : c.isNeutral = true ↔ c.control = {} := by
  simp [isNeutral, control, and_assoc]

end InputCmd

def consumed (evs : List (Event InputCmd)) : List (Option InputCmd) :=
  evs.filterMap fun
    | .serve taken => some taken
    | .arrive _ _ => none

/-- The last input counts for ten empty ticks, then nothing does. -/
def inEffect (ts : List (Option InputCmd)) : Control :=
  ((holding 10 ts).map InputCmd.control).getD {}

theorem consumed_append (evs evs' : List (Event InputCmd)) :
    consumed (evs ++ evs') = consumed evs ++ consumed evs' := List.filterMap_append

theorem taken_eq_consumed (evs : List (Event InputCmd)) : taken evs = (consumed evs).reduceOption := by
  induction evs with
  | nil => rfl
  | cons e evs ih =>
    have happ := taken_append [e] evs
    rw [List.singleton_append] at happ
    rw [happ, ih]
    cases e with
    | arrive c d => cases d <;> rfl
    | serve t => cases t <;> rfl

/-! ### One member -/

structure Held (ts : List (Option InputCmd)) (m : Member) : Prop where
  control : m.held.control = inEffect ts
  streak : m.emptyStreak = idle ts

namespace Member

theorem push_held (m : Member) (c : InputCmd) :
    (m.push c).1.held = m.held ∧ (m.push c).1.emptyStreak = m.emptyStreak := by
  unfold push
  split <;> exact ⟨rfl, rfl⟩

theorem pushAll_held (m : Member) (cs : List InputCmd) :
    (m.pushAll cs).held = m.held ∧ (m.pushAll cs).emptyStreak = m.emptyStreak := by
  induction cs generalizing m with
  | nil => exact ⟨rfl, rfl⟩
  | cons c cs ih =>
    obtain ⟨hheld, hstreak⟩ := ih (m.push c).1
    obtain ⟨hheld', hstreak'⟩ := m.push_held c
    exact ⟨hheld.trans hheld', hstreak.trans hstreak'⟩

theorem consumed_pushEvents (m : Member) (cs : List InputCmd) : consumed (m.pushEvents cs) = [] := by
  induction cs generalizing m with
  | nil => rfl
  | cons c cs ih => exact ih _

/-- A tick consumes the oldest input of the ring it finds. -/
theorem consumed_turn (m : Member) (cs : List InputCmd) :
    consumed (m.turn cs) = [(m.pushAll cs).queue.head?] := by
  rw [turn, consumed_append, consumed_pushEvents, served_eq]
  rfl

end Member

namespace Held

variable {ts : List (Option InputCmd)} {m : Member}

theorem fresh (idx owner : Nat) (gen : UInt32) :
    Held [] { used := true, sessIdx := idx, sessGen := gen, sessOwner := owner } := ⟨rfl, rfl⟩

theorem pushAll (h : Held ts m) (cs : List InputCmd) : Held ts (m.pushAll cs) := by
  obtain ⟨hheld, hstreak⟩ := m.pushAll_held cs
  constructor
  · rw [hheld]
    exact h.control
  · rw [hstreak]
    exact h.streak

theorem inEffect_none_of_le (h : idle ts < 10) : inEffect (ts ++ [none]) = inEffect ts := by
  unfold inEffect holding
  rw [idle_none, last_none, if_pos (by omega), if_pos (by omega)]

theorem inEffect_none_of_lt (h : 10 ≤ idle ts) : inEffect (ts ++ [none]) = {} := by
  unfold inEffect holding
  rw [idle_none, if_neg (by omega)]
  rfl

theorem inEffect_some (c : InputCmd) : inEffect (ts ++ [some c]) = c.control := by
  unfold inEffect holding
  rw [idle_some, last_some]
  rfl

/-- The held input is live after ten empty ticks exactly when it lapses now. -/
theorem lapsed_none (h : Held ts m) (hten : 10 ≤ m.emptyStreak) :
    (if m.held.isNeutral then 0 else 1) = lapsed 10 InputCmd.live ts none := by
  have hneutral := m.held.isNeutral_iff
  rw [h.control] at hneutral
  rw [h.streak] at hten
  unfold lapsed
  by_cases hidle : idle ts = 10
  · have heffect : inEffect ts = ((last ts).map InputCmd.control).getD {} := by
      unfold inEffect holding
      rw [if_pos (by omega)]
    rw [heffect] at hneutral
    cases hlast : last ts with
    | none =>
      rw [hlast] at hneutral
      rw [if_pos (hneutral.mpr rfl)]
      simp
    | some c =>
      rw [hlast] at hneutral
      have hsame : m.held.isNeutral = c.isNeutral :=
        Bool.eq_iff_iff.mpr (hneutral.trans c.isNeutral_iff.symm)
      simp only [hidle, hsame, Option.any_some, InputCmd.live, true_and]
      cases c.isNeutral <;> rfl
  · have heffect : inEffect ts = {} := by
      unfold inEffect holding
      rw [if_neg (by omega)]
      rfl
    rw [if_pos (hneutral.mpr heffect), if_neg fun hboth => hidle hboth.1]

theorem consume (h : Held ts m) : Held (ts ++ [m.queue.head?]) m.consume.1 ∧
    m.consume.2 = lapsed 10 InputCmd.live ts m.queue.head? := by
  have hstreak := h.streak
  unfold Member.consume
  by_cases hpos : 0 < m.ringCount
  · rw [if_pos hpos, Member.queue_head hpos]
    refine ⟨⟨?_, ?_⟩, rfl⟩
    · exact (inEffect_some _).symm
    · exact (idle_some ts _).symm
  · rw [if_neg hpos, Member.queue_nil hpos, List.head?_nil]
    by_cases hten : 10 < m.emptyStreak + 1
    · rw [if_pos hten]
      refine ⟨⟨?_, ?_⟩, h.lapsed_none (by omega)⟩
      · exact (inEffect_none_of_lt (by omega)).symm
      · exact (congrArg (· + 1) hstreak).trans (idle_none ts).symm
    · rw [if_neg hten]
      refine ⟨⟨?_, ?_⟩, ?_⟩
      · exact h.control.trans (inEffect_none_of_le (by omega)).symm
      · exact (congrArg (· + 1) hstreak).trans (idle_none ts).symm
      · exact (if_neg fun hboth => by omega).symm

theorem turn {evs : List (Event InputCmd)} (h : Held (consumed evs) m) (cs : List InputCmd) :
    Held (consumed (evs ++ m.turn cs)) (m.pushAll cs).consume.1 := by
  rw [consumed_append, Member.consumed_turn]
  exact (h.pushAll cs).consume.1

end Held

/-! ### The life of a member -/

/-- Where a member after a step comes from: it was somewhere before, with the same story, or
it was just seated, or its room ticked. -/
inductive Origin (es es' : List InputEvent) (s : System) (m : Member) : Prop where
  | kept (r : Nat) (i : Seat) (hu : ((s.srv.stage r).members i).used = true)
      (hm : m = (s.srv.stage r).members i) (hstory : story m.sessIdx es' = story m.sessIdx es)
  | seated (idx owner : Nat) (gen : UInt32)
      (hm : m = { used := true, sessIdx := idx, sessGen := gen, sessOwner := owner })
      (hstory : story idx es' = [])
  | served (r : Nat) (i : Seat) (cs : List InputCmd)
      (hu : ((s.srv.stage r).members i).used = true)
      (hm : m = (((s.srv.stage r).members i).pushAll cs).consume.1)
      (hstory : story ((s.srv.stage r).members i).sessIdx es' =
        story ((s.srv.stage r).members i).sessIdx es ++ ((s.srv.stage r).members i).turn cs)

namespace Origin

variable {es : List InputEvent} {s t : System} {r : Nat} {i : Seat}
  (hu : ((t.srv.stage r).members i).used = true)
include hu

theorem of_same {es' : List InputEvent} (r₁ : Nat) (i₁ : Seat)
    (hm : (t.srv.stage r).members i = (s.srv.stage r₁).members i₁)
    (hstory : ∀ idx, story idx es' = story idx es) :
    Origin es es' s ((t.srv.stage r).members i) := by
  refine .kept r₁ i₁ ?_ hm (hstory _)
  rw [← hm]
  exact hu

theorem of_seat (hs : Consistent s.ledger) {g k r₀ : Nat} {e : RoomJoinEntry}
    {js : List RoomJoinEntry} {ls : List RoomLeaveEntry} (hg : s.game g = .joins k r₀ (e :: js) ls)
    (hstage : t.srv.stage = (s.srv.perform (some (.seat r₀ e))).stage) :
    Origin es (es ++ [.seated e]) s ((t.srv.stage r).members i) := by
  have hst := hstage.trans (Server.perform_seat ..)
  have hkeep (hm : (t.srv.stage r).members i = (s.srv.stage r).members i) :
      Origin es (es ++ [.seated e]) s ((t.srv.stage r).members i) := by
    rw [hm] at hu
    refine .kept r i hu hm ?_
    rw [hm, story_append]
    exact if_neg (Ne.symm (System.sess_ne_of_hand hs hu hg))
  by_cases hr : r = r₀
  · subst hr
    have hnew : (t.srv.stage r).members = Function.update (s.srv.stage r).members e.actorId
        { used := true, sessIdx := e.sessIdx, sessGen := e.sessGen
          sessOwner := (s.srv.sess e.sessIdx).owner } := by
      rw [hst, Function.update_self]
      rfl
    by_cases hi : i = e.actorId
    · subst hi
      rw [hnew, Function.update_self]
      apply Origin.seated e.sessIdx (s.srv.sess e.sessIdx).owner e.sessGen rfl
      rw [story_append]
      exact if_pos rfl
    · apply hkeep
      rw [hnew, Function.update_of_ne hi]
  · apply hkeep
    rw [hst, Function.update_of_ne hr]

theorem of_unseat {r₀ : Nat} {i₀ : Seat}
    (hstage : t.srv.stage = (s.srv.perform (some (.unseat r₀ i₀))).stage) :
    Origin es es s ((t.srv.stage r).members i) := by
  have hst := hstage.trans (Server.perform_unseat ..)
  by_cases hr : r = r₀
  · subst hr
    have hmem : (t.srv.stage r).members = Function.update (s.srv.stage r).members i₀
        { (s.srv.stage r).members i₀ with used := false } := by
      rw [hst, Function.update_self]
      rfl
    by_cases hi : i = i₀
    · rw [hmem, hi, Function.update_self] at hu
      cases hu
    · apply of_same hu r i _ fun _ => rfl
      rw [hmem, Function.update_of_ne hi]
  · apply of_same hu r i _ fun _ => rfl
    rw [hst, Function.update_of_ne hr]

theorem of_clear {r₀ : Nat}
    (hstage : t.srv.stage = (s.srv.perform (some (.clear r₀))).stage) :
    Origin es es s ((t.srv.stage r).members i) := by
  have hst := hstage.trans (Server.perform_clear ..)
  by_cases hr : r = r₀
  · subst hr
    rw [hst, Function.update_self] at hu
    cases hu
  · apply of_same hu r i _ fun _ => rfl
    rw [hst, Function.update_of_ne hr]

theorem of_move (hs : Consistent s.ledger) {g k old nr : Nat} {i₀ : Seat} {rest : List Seat}
    {moved : Int} {joins : List RoomJoinEntry} {leaves : List RoomLeaveEntry}
    (hlock : s.lock = .move g k old nr (i₀ :: rest) moved joins leaves)
    (hstage : t.srv.stage = (s.srv.perform (some (.move old nr i₀))).stage) :
    Origin es es s ((t.srv.stage r).members i) := by
  have hne : nr ≠ old := by
    have htransfer : s.lock.transfer = some (g, k, old, nr) := by
      rw [hlock]
      rfl
    exact Ne.symm (hs.places.transfer_ne htransfer)
  cases hused : ((s.srv.stage old).members i₀).used with
  | false =>
    apply of_same hu r i _ fun _ => rfl
    rw [hstage.trans (Server.perform_move_unused s.srv hused)]
  | true =>
    have hst := hstage.trans (Server.perform_move s.srv hne hused)
    by_cases hold : r = old
    · subst hold
      by_cases hi : i = i₀
      · rw [hst, Function.update_self, hi] at hu
        dsimp only at hu
        rw [Function.update_self] at hu
        cases hu
      · apply of_same hu r i _ fun _ => rfl
        rw [hst, Function.update_self]
        exact Function.update_of_ne hi ..
    · by_cases hnew : r = nr
      · subst hnew
        have henter : (t.srv.stage r).members = Function.update (s.srv.stage r).members i₀
            ((s.srv.stage old).members i₀) := by
          rw [hst, Function.update_of_ne hne, Function.update_self]
        by_cases hi : i = i₀
        · apply of_same hu old i₀ _ fun _ => rfl
          rw [henter, hi, Function.update_self]
        · apply of_same hu r i _ fun _ => rfl
          rw [henter, Function.update_of_ne hi]
      · apply of_same hu r i _ fun _ => rfl
        rw [hst, Function.update_of_ne hold, Function.update_of_ne hnew]

theorem of_resume {old nr : Nat}
    (hstage : t.srv.stage = (s.srv.perform (some (.resume old nr))).stage) :
    Origin es es s ((t.srv.stage r).members i) := by
  have hst := hstage.trans (Server.perform_resume ..)
  apply of_same hu r i _ fun _ => rfl
  by_cases hr : r = nr
  · subst hr
    rw [hst, Function.update_self]
  · rw [hst, Function.update_of_ne hr]

theorem of_tick (hs : Consistent s.ledger) {r₀ : Nat}
    (hstage : t.srv.stage = (s.srv.perform (some (.tick r₀))).stage) :
    Origin es (es ++ (s.srv.rooms r₀).tickEvents) s ((t.srv.stage r).members i) := by
  have hst := hstage.trans (Server.perform_tick ..)
  by_cases hr : r = r₀
  · subst hr
    have hmem : (t.srv.stage r).members i = (s.srv.rooms r).step.members i := by
      rw [hst, Function.update_self]
      rfl
    rw [hmem, Room.step_members] at hu
    cases hus : ((s.srv.rooms r).members i).used with
    | true =>
      refine .served r i ((s.srv.rooms r).mail i) hus ?_ ?_
      · rw [hmem, Room.step_members, hus]
        rfl
      · exact story_tick hus fun j hj hsess => (System.used_unique hs hus hj hsess).2
    | false =>
      rw [hus, if_neg (by decide), hus] at hu
      cases hu
  · have hmem : (t.srv.stage r).members i = (s.srv.stage r).members i := by
      rw [hst, Function.update_of_ne hr]
    rw [hmem] at hu
    refine .kept r i hu hmem ?_
    rw [hmem]
    exact story_tick_ne fun j hj hsess => hr (System.used_unique hs hj hu hsess.symm).1

/-- Every member after a step has one of these origins. -/
theorem step (hs : Consistent s.ledger) {a : Act} (ht : System.step a s = some t) :
    Origin es (es ++ s.inputEvents a) s ((t.srv.stage r).members i) := by
  have hstage := System.stage_step ht
  cases hcue : s.cue a with
  | none =>
    rw [hcue] at hstage
    simp only [System.inputEvents, hcue, List.append_nil]
    exact of_same hu r i (by rw [hstage]; rfl) fun _ => rfl
  | some c =>
    have hcued := System.cued_of_cue hcue
    rw [hcue] at hstage
    simp only [System.inputEvents, hcue]
    cases hcued with
    | send w idx r₀ c hw =>
      apply of_same hu r i
      · rw [hstage.trans (Server.perform_send ..)]
        by_cases hr : r = r₀
        · rw [hr, Function.update_self]
        · rw [Function.update_of_ne hr]
      · intro idx
        rw [story_append]
        rfl
    | seat g k r₀ e js ls hg hlive => exact of_seat hu hs hg hstage
    | unseat g k r₀ i₀ e ls hg hi =>
      rw [List.append_nil]
      exact of_unseat hu hstage
    | clearNew w idx r₀ hlock hr =>
      rw [List.append_nil]
      exact of_clear hu hstage
    | clearNext g k old r₀ hg hr =>
      rw [List.append_nil]
      exact of_clear hu hstage
    | tick g k r₀ hr => exact of_tick hu hs hstage
    | move g k old nr i₀ rest moved joins leaves hlock =>
      rw [List.append_nil]
      exact of_move hu hs hlock hstage
    | resume g k old nr moved joins leaves hlock =>
      rw [List.append_nil]
      exact of_resume hu hstage

end Origin

/-- What holds of a fresh member and survives its ticks holds of every member at any time. -/
theorem members_run {P : List (Event InputCmd) → Member → Prop}
    (hfresh : ∀ idx owner gen,
      P [] { used := true, sessIdx := idx, sessGen := gen, sessOwner := owner })
    (hturn : ∀ evs m cs, P evs m → P (evs ++ m.turn cs) (m.pushAll cs).consume.1)
    {sessionCapacity roomCapacity workerCount : Nat} {es : List InputEvent} {s : System}
    (h : Traced System.step System.inputEvents
      (System.init sessionCapacity roomCapacity workerCount) es s) :
    ∀ r i, ((s.srv.stage r).members i).used = true →
      P (story ((s.srv.stage r).members i).sessIdx es) ((s.srv.stage r).members i) := by
  refine h.invariant (P := fun es s => ∀ r i, ((s.srv.stage r).members i).used = true →
      P (story ((s.srv.stage r).members i).sessIdx es) ((s.srv.stage r).members i)) ?_ ?_
  · intro r i hu
    cases hu
  · intro es s a t hreach hok ht r i hu
    have horigin : Origin es (es ++ s.inputEvents a) s ((t.srv.stage r).members i) :=
      .step hu (System.consistent hreach) ht
    cases horigin with
    | kept r₁ i₁ hu₁ hm hstory =>
      rw [hstory, hm]
      exact hok r₁ i₁ hu₁
    | seated idx owner gen hm hstory =>
      rw [hm, hstory]
      exact hfresh idx owner gen
    | served r₁ i₁ cs hu₁ hm hstory =>
      have hsame : (((s.srv.stage r₁).members i₁).pushAll cs).consume.1.sessIdx =
          ((s.srv.stage r₁).members i₁).sessIdx :=
        (Member.consume_identity _).2.1.trans (Member.pushAll_identity _ cs).2.1
      rw [hm, hsame, hstory]
      exact hturn _ _ cs (hok r₁ i₁ hu₁)

/-! ### Lapses -/

structure Life where
  sess : Nat
  ticks : List (Option InputCmd) := []

def goOn (sess : Nat) (t : Option InputCmd) : List Life → List Life
  | [] => [⟨sess, [t]⟩]
  | l :: ls => if l.sess = sess then ⟨sess, l.ticks ++ [t]⟩ :: ls else l :: goOn sess t ls

def lived (ls : List Life) : InputEvent → List Life
  | .seated e => { sess := e.sessIdx } :: ls
  | .queue sess (.serve t) => goOn sess t ls
  | .queue _ (.arrive _ _) => ls
  | .sent _ => ls

/-- The lives of all members that a run has seated, the newest first. -/
def lives (es : List InputEvent) : List Life := es.foldl lived []

def newest (sess : Nat) : List Life → List (Option InputCmd)
  | [] => []
  | l :: ls => if l.sess = sess then l.ticks else newest sess ls

/-- The periods of more than ten empty ticks whose held input was not neutral. -/
def lapsesIn : List Life → Nat
  | [] => 0
  | l :: ls => lapses 10 InputCmd.live l.ticks + lapsesIn ls

section Lives
variable (sess : Nat) (t : Option InputCmd) (ls : List Life)

theorem newest_goOn (idx : Nat) : newest idx (goOn sess t ls) =
    if sess = idx then newest idx ls ++ [t] else newest idx ls := by
  induction ls with
  | nil => by_cases h : sess = idx <;> simp [goOn, newest, h]
  | cons l ls ih =>
    unfold goOn
    by_cases hl : l.sess = sess
    · rw [if_pos hl]
      by_cases h : sess = idx <;> simp [newest, hl, h]
    · rw [if_neg hl]
      unfold newest
      rw [ih]
      by_cases hidx : l.sess = idx
      · rw [if_pos hidx, if_pos hidx, if_neg fun h => hl (hidx.trans h.symm)]
      · rw [if_neg hidx, if_neg hidx]

theorem lapsesIn_goOn :
    lapsesIn (goOn sess t ls) = lapsesIn ls + lapsed 10 InputCmd.live (newest sess ls) t := by
  induction ls with
  | nil =>
    have hone : lapses 10 InputCmd.live ([] ++ [t]) =
        lapses 10 InputCmd.live [] + lapsed 10 InputCmd.live [] t := lapses_append t
    exact hone
  | cons l ls ih =>
    unfold goOn newest
    by_cases hl : l.sess = sess
    · rw [if_pos hl, if_pos hl]
      simp only [lapsesIn, lapses_append]
      omega
    · rw [if_neg hl, if_neg hl]
      simp only [lapsesIn, ih]
      omega

end Lives

theorem lives_append (es es' : List InputEvent) : lives (es ++ es') = es'.foldl lived (lives es) :=
  List.foldl_append

/-- The newest life of a session is its story. -/
theorem newest_lives (idx : Nat) (es : List InputEvent) :
    newest idx (lives es) = consumed (story idx es) := by
  induction es using List.reverseRecOn with
  | nil => rfl
  | append_singleton es e ih =>
    rw [lives_append, story_append]
    cases e with
    | sent c => exact ih
    | seated e =>
      simp only [List.foldl_cons, List.foldl_nil, lived, newest, noted]
      rw [ih]
      split <;> rfl
    | queue sess e =>
      cases e with
      | arrive c d =>
        simp only [List.foldl_cons, List.foldl_nil, lived, noted, ih]
        split
        · rw [consumed_append]
          exact (List.append_nil _).symm
        · rfl
      | serve t =>
        simp only [List.foldl_cons, List.foldl_nil, lived, noted, newest_goOn, ih]
        split
        · rw [consumed_append]
          rfl
        · rfl

theorem lives_turn (sess : Nat) (m : Member) (cs : List InputCmd) (ls : List Life) :
    ((m.turn cs).map (InputEvent.queue sess)).foldl lived ls =
      goOn sess (m.pushAll cs).queue.head? ls := by
  have hpush (m : Member) (cs : List InputCmd) (ls : List Life) :
      ((m.pushEvents cs).map (InputEvent.queue sess)).foldl lived ls = ls := by
    induction cs generalizing m with
    | nil => rfl
    | cons c cs ih => exact ih _
  rw [Member.turn, List.map_append, List.foldl_append, hpush, Member.served_eq]
  rfl

/-- The members of a room neutralise as many inputs as lapse in their ticks. -/
theorem lapsesIn_tick {R : Room} {es : List InputEvent}
    (hheld : ∀ i, (R.members i).used = true →
      Held (consumed (story (R.members i).sessIdx es)) (R.members i))
    (hone : ∀ i j, (R.members i).used = true → (R.members j).used = true →
      (R.members j).sessIdx = (R.members i).sessIdx → j = i) :
    lapsesIn (lives (es ++ R.tickEvents)) = lapsesIn (lives es) + R.routeInputs.1.neutralized := by
  have hseats (is : List Seat) (hnodup : is.Nodup) (ls : List Life)
      (hls : ∀ i ∈ is, (R.members i).used = true →
        newest (R.members i).sessIdx ls = consumed (story (R.members i).sessIdx es)) :
      lapsesIn ((is.flatMap fun j => if (R.members j).used then
        ((R.members j).turn (R.mail j)).map (InputEvent.queue (R.members j).sessIdx)
        else []).foldl lived ls) = lapsesIn ls + (is.map fun i =>
          if (R.routeInputs.1.members i).used then (R.routeInputs.1.members i).consume.2
          else 0).sum := by
    induction is generalizing ls with
    | nil => rfl
    | cons j is ih =>
      obtain ⟨hj, hrest⟩ := List.nodup_cons.mp hnodup
      have hused : (R.routeInputs.1.members j).used = (R.members j).used := by
        rw [R.routed_members]
        exact (Member.pushAll_identity _ _).1
      rw [List.flatMap_cons, List.foldl_append, List.map_cons, List.sum_cons, hused]
      cases huj : (R.members j).used with
      | false =>
        rw [if_neg (by decide), if_neg (by decide), Nat.zero_add]
        exact ih hrest ls fun i hi => hls i (List.mem_cons_of_mem _ hi)
      | true =>
        have hcount := (((hheld j huj).pushAll (R.mail j)).consume).2
        rw [if_pos rfl, if_pos rfl, lives_turn, ih hrest, lapsesIn_goOn,
          hls j (List.mem_cons_self ..) huj, R.routed_members, hcount, Nat.add_assoc]
        intro i hi hui
        have hsess : (R.members j).sessIdx ≠ (R.members i).sessIdx := by
          intro hsame
          rw [← hone i j hui huj hsame] at hi
          exact hj hi
        rw [newest_goOn, if_neg hsess]
        exact hls i (List.mem_cons_of_mem _ hi) hui
  rw [lives_append, Room.tickEvents, Room.neutralized]
  exact hseats _ (List.nodup_finRange 4) _ fun i _ _ => newest_lives _ _

/-! ### The rule -/

structure HeldRule (es : List InputEvent) (m : Member) : Prop where
  control : m.held.control = inEffect (consumed (story m.sessIdx es))
  streak : m.emptyStreak = idle (consumed (story m.sessIdx es))
  last : m.lastInputSeq = ((last (consumed (story m.sessIdx es))).map (·.seq)).getD 0

/-- The inputs of the members after a record, as `SimStep` takes them. -/
def drives (es : List InputEvent) (R : Room) (i : Seat) : SimInput :=
  if (R.members i).used then
    { mx := (inEffect (consumed (story (R.members i).sessIdx es))).mx.toInt
      my := (inEffect (consumed (story (R.members i).sessIdx es))).my.toInt }
  else {}

def driven (w : SimWorld) (inputs : Seat → SimInput) : SimWorld :=
  { simStep w inputs with tick := w.tick + 1 }

structure TickHeld (es es' : List InputEvent) (m m' : Member) (c : Option InputCmd) : Prop where
  ticks : consumed (story m.sessIdx es') = consumed (story m.sessIdx es) ++ [c]
  control : m'.held.control = inEffect (consumed (story m.sessIdx es) ++ [c])
  empty : c = none → m'.lastInputSeq = m.lastInputSeq
  first : ∀ x, c = some x → m'.held.control = x.control ∧ m'.lastInputSeq = x.seq

section Rule
variable {sessionCapacity roomCapacity workerCount : Nat} {es : List InputEvent} {s t : System}

theorem held_run (h : Traced System.step System.inputEvents
      (System.init sessionCapacity roomCapacity workerCount) es s) {r : Nat} {i : Seat}
    (hu : ((s.srv.rooms r).members i).used = true) :
    Held (consumed (story ((s.srv.rooms r).members i).sessIdx es)) ((s.srv.rooms r).members i) :=
  members_run (P := fun evs m => Held (consumed evs) m) Held.fresh (fun _ _ cs h => h.turn cs) h
    r i hu

/-- Lapses and nothing else advance the counter of neutralised inputs. -/
theorem neutralized_run (h : Traced System.step System.inputEvents
      (System.init sessionCapacity roomCapacity workerCount) es s) :
    s.srv.metrics.inputNeutralized = lapsesIn (lives es) := by
  induction h with
  | refl => rfl
  | @tail es s t a hs ht ih =>
    by_cases ha : ∃ g k, a = .tick g k
    · obtain ⟨g, k, rfl⟩ := ha
      obtain ⟨r, -, hr, htick⟩ := System.tick_of_step ht
      have hevents : s.inputEvents (.tick g k) = (s.srv.rooms r).tickEvents := by
        simp [System.inputEvents, System.cue, hr]
      have hcons := System.consistent hs.reach
      rw [hevents, htick, Server.tickBody_neutralized, ih]
      exact (lapsesIn_tick (fun i hu => held_run hs hu) fun i j hi hj hsess =>
        (System.used_unique hcons hi hj hsess).2).symm
    · have hsection := System.section_of_step (fun g k hk => ha ⟨g, k, hk⟩) ht
      have hsame : t.srv.metrics.inputNeutralized = s.srv.metrics.inputNeutralized :=
        congrArg Prod.snd hsection.counters
      rw [hsame, ih, lives_append]
      unfold System.inputEvents
      split
      · rfl
      · exact (Nat.zero_add _).symm
      · rename_i r hcue
        cases System.cued_of_cue hcue with
        | tick g k r hr => exact absurd ⟨g, k, rfl⟩ ha
      · rfl

theorem HeldRule.of_run (h : Traced System.step System.inputEvents
      (System.init sessionCapacity roomCapacity workerCount) es s) {r : Nat} {i : Seat}
    (hu : ((s.srv.rooms r).members i).used = true) :
    HeldRule es ((s.srv.rooms r).members i) where
  control := (held_run h hu).control
  streak := (held_run h hu).streak
  last := by
    have hlast := ((InputsOk.run h).fed r i hu).last
    rw [taken_eq_consumed] at hlast
    exact hlast

/-- What the members are told in a tick is what their ticks, this one included, leave in
effect. -/
theorem simInputs_eq {R : Room}
    (hstory : ∀ i, (R.members i).used = true → story (R.members i).sessIdx (es ++ R.tickEvents) =
      story (R.members i).sessIdx es ++ (R.members i).turn (R.mail i))
    (hheld : ∀ i, (R.members i).used = true →
      Held (consumed (story (R.members i).sessIdx es)) (R.members i)) :
    R.routeInputs.1.consumeAll.simInputs = drives (es ++ R.tickEvents) R := by
  funext i
  have hmember : R.routeInputs.1.consumeAll.members i = R.step.members i := rfl
  unfold Room.simInputs drives
  rw [hmember, Room.step_members]
  cases hu : (R.members i).used with
  | false => simp [hu]
  | true =>
    have hused : (((R.members i).pushAll (R.mail i)).consume.1).used = true :=
      ((Member.consume_identity _).1.trans (Member.pushAll_identity _ _).1).trans hu
    have hcontrol := ((hheld i hu).turn (R.mail i)).control
    rw [← hstory i hu] at hcontrol
    rw [if_pos rfl, if_pos rfl, hused, if_pos rfl, ← hcontrol]
    rfl

/-- A tick moves every actor by what is in effect. -/
theorem world_of_tick (h : Traced System.step System.inputEvents
      (System.init sessionCapacity roomCapacity workerCount) es s) {g k r : Nat}
    (hr : (s.srv.myRooms g)[k]? = some r) (ht : System.step (.tick g k) s = some t) :
    (t.srv.rooms r).world = driven (s.srv.rooms r).world
      (drives (es ++ s.inputEvents (.tick g k)) (s.srv.rooms r)) := by
  have hs := System.consistent h.reach
  have hevents : s.inputEvents (.tick g k) = (s.srv.rooms r).tickEvents := by
    simp [System.inputEvents, System.cue, hr]
  have hroom := System.room_of_tick hr ht
  have hinputs : (s.srv.rooms r).routeInputs.1.consumeAll.simInputs =
      drives (es ++ (s.srv.rooms r).tickEvents) (s.srv.rooms r) :=
    simInputs_eq (fun i hu => story_tick hu fun j hj hsess => (System.used_unique hs hu hj hsess).2)
      fun i hu => held_run h hu
  have hworld : (s.srv.rooms r).routeInputs.1.world = (s.srv.rooms r).world := by
    generalize s.srv.rooms r = R
    obtain ⟨ms, hms⟩ := Room.routeAll_eq { R with inQ := [] } R.inQ 0
    have hworld := congrArg Room.world hms
    exact hworld
  rw [hroom, hevents, ← hinputs]
  unfold driven Room.step Room.simulate
  rw [← hworld]
  rfl

theorem tickHeld_of_tick (h : Traced System.step System.inputEvents
      (System.init sessionCapacity roomCapacity workerCount) es s) {g k r : Nat} {i : Seat}
    (hr : (s.srv.myRooms g)[k]? = some r) (hu : ((s.srv.rooms r).members i).used = true)
    (ht : System.step (.tick g k) s = some t) :
    TickHeld es (es ++ s.inputEvents (.tick g k)) ((s.srv.rooms r).members i)
      ((t.srv.rooms r).members i)
      (((s.srv.rooms r).members i).pushAll ((s.srv.rooms r).mail i)).queue.head? := by
  have hserved := served_of_tick es (System.consistent h.reach) hr hu ht
  have hmember : (t.srv.rooms r).members i =
      (((s.srv.rooms r).members i).pushAll ((s.srv.rooms r).mail i)).consume.1 :=
    member_of_tick hr hu ht
  have hheld := ((held_run h hu).pushAll ((s.srv.rooms r).mail i)).consume.1
  refine ⟨?_, ?_, ?_, ?_⟩
  · rw [hserved.story, consumed_append, Member.consumed_turn]
  · rw [hmember]
    exact hheld.control
  · intro hnone
    rw [hmember, Member.consume_lastInputSeq, Member.served_eq, hnone]
    exact (Member.pushAll_identity _ _).2.2.2
  · intro c hc
    obtain ⟨hcmd, hseq⟩ := hserved.held c hc
    exact ⟨congrArg InputCmd.control hcmd, hseq⟩

end Rule

/-- An input is held for ten empty ticks and then neutral, and every such lapse of a live input
is counted once. -/
theorem held_input {sessionCapacity roomCapacity workerCount : Nat} {es : List InputEvent}
    {s : System} (h : Traced System.step System.inputEvents
      (System.init sessionCapacity roomCapacity workerCount) es s) :
    (∀ r i, ((s.srv.rooms r).members i).used = true → HeldRule es ((s.srv.rooms r).members i)) ∧
    s.srv.metrics.inputNeutralized = lapsesIn (lives es) ∧
    (∀ g k r t, (s.srv.myRooms g)[k]? = some r → System.step (.tick g k) s = some t →
      (t.srv.rooms r).world = driven (s.srv.rooms r).world
        (drives (es ++ s.inputEvents (.tick g k)) (s.srv.rooms r)) ∧
      ∀ i, ((s.srv.rooms r).members i).used = true →
        TickHeld es (es ++ s.inputEvents (.tick g k)) ((s.srv.rooms r).members i)
          ((t.srv.rooms r).members i)
          (((s.srv.rooms r).members i).pushAll ((s.srv.rooms r).mail i)).queue.head?) ∧
    ∀ r i r' i' es' t, Traced System.step System.inputEvents s es' t →
      ((s.srv.rooms r).members i).used = true → ((t.srv.rooms r').members i').used = true →
      ((t.srv.rooms r').members i').sessIdx = ((s.srv.rooms r).members i).sessIdx →
      (∀ e, InputEvent.seated e ∈ es' → e.sessIdx ≠ ((s.srv.rooms r).members i).sessIdx) →
      ∃ more, consumed (story ((s.srv.rooms r).members i).sessIdx (es ++ es')) =
        consumed (story ((s.srv.rooms r).members i).sessIdx es) ++ more ∧
      ((t.srv.rooms r').members i').held.control =
        inEffect (consumed (story ((s.srv.rooms r).members i).sessIdx es) ++ more) := by
  refine ⟨fun r i hu => .of_run h hu, neutralized_run h, ?_, ?_⟩
  · intro g k r t hr ht
    exact ⟨world_of_tick h hr ht, fun i hu => tickHeld_of_tick h hr hu ht⟩
  · intro r i r' i' es' t hrun hu hu' hsess hseat
    obtain ⟨more, hmore⟩ := story_extends es es' hseat
    have hheld := (held_run (h.trans hrun) hu').control
    rw [hsess, hmore, consumed_append] at hheld
    refine ⟨consumed more, ?_, hheld⟩
    rw [hmore, consumed_append]

/-- One player has sent an input and then ten ticks found no other. -/
def idling : List Act := playing ++ List.replicate 11 (.tick 0 0)

theorem held_input_idling : ∃ es s es' t,
    record System.step System.inputEvents idling (System.init 1 1 1) = some (es, s) ∧
    record System.step System.inputEvents [.tick 0 0] s = some (es', t) ∧
    HeldRule es ((s.srv.rooms 0).members firstSeat) ∧
    (s.srv.metrics.inputNeutralized = lapsesIn (lives es) ∧ s.srv.metrics.inputNeutralized = 0) ∧
    ((t.srv.rooms 0).world = driven (s.srv.rooms 0).world
      (drives (es ++ s.inputEvents (.tick 0 0)) (s.srv.rooms 0)) ∧
      t.srv.metrics.inputNeutralized = 1) ∧
    ∃ more, consumed (story 0 (es ++ es')) = consumed (story 0 es) ++ more ∧
      ((t.srv.rooms 0).members firstSeat).held.control =
        inEffect (consumed (story 0 es) ++ more) := by
  have hrun : ((record System.step System.inputEvents idling (System.init 1 1 1)).bind fun p =>
      (record System.step System.inputEvents [.tick 0 0] p.2).map fun q =>
        let m := (p.2.srv.rooms 0).members firstSeat
        let m' := (q.2.srv.rooms 0).members firstSeat
        ((p.2.srv.myRooms 0, m.used, m.sessIdx, p.2.srv.metrics.inputNeutralized), m'.used,
          m'.sessIdx, q.2.srv.metrics.inputNeutralized, q.1)) =
      some (([0], true, 0, 0), true, 0, 1, [.queue 0 (.serve none)]) := by decide +kernel
  obtain ⟨⟨es, s⟩, hs, hrest⟩ := Option.bind_eq_some_iff.mp hrun
  obtain ⟨⟨es', t⟩, ht, heq⟩ := Option.map_eq_some_iff.mp hrest
  simp only [Prod.mk.injEq] at heq
  obtain ⟨⟨hmine, hu, hidx, hzero⟩, hu', hidx', hone, hes'⟩ := heq
  obtain ⟨hrule, hcount, htick, hlife⟩ := held_input (traced_of_record hs)
  have hstep : System.step (.tick 0 0) s = some t := by
    obtain ⟨u, hu, hrec⟩ := Option.bind_eq_some_iff.mp ht
    obtain ⟨p, hp, hpt⟩ := Option.map_eq_some_iff.mp hrec
    cases hp
    cases hpt
    exact hu
  have hseat (e : RoomJoinEntry) (he : InputEvent.seated e ∈ es') :
      e.sessIdx ≠ ((s.srv.rooms 0).members firstSeat).sessIdx := by
    simp [hes'] at he
  have hgo := hlife 0 firstSeat 0 firstSeat es' t (traced_of_record ht) hu hu'
    (hidx'.trans hidx.symm) hseat
  rw [hidx] at hgo
  exact ⟨es, s, es', t, hs, ht, hrule 0 firstSeat hu, ⟨hcount, hzero⟩,
    ⟨(htick 0 0 0 t (by simp [hmine]) hstep).1, hone⟩, hgo⟩

end BeltServer
