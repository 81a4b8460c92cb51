import BeltServer.Delivery
import BeltServer.Layout

/-!
# One stream, and no sleep on it

What the kernel got is the beginning of what the ring was given, in order; and as long as there
is something in the ring of a live session, somebody is going to flush it.
-/

namespace BeltServer

set_option autoImplicit false

open Runs LengthPrefix

namespace OutRing.Fifo

variable {ρ : Type} {B : OutRing ρ} {q : ρ} {m : List UInt8}

theorem took (hB : B.Fifo) (h : (B.enqueue q m).1 = m.length) :
    B.content (B.enqueue q m).2 = B.content q ++ m := by
  rcases hB.enqueue q m with ⟨-, hc⟩ | ⟨hzero, hc⟩
  · exact hc
  · have hm : m = [] := List.length_eq_zero_iff.mp (h.symm.trans hzero)
    rw [hc, hm, List.append_nil]

theorem kept (hB : B.Fifo) (h : (B.enqueue q m).1 ≠ m.length) :
    B.content (B.enqueue q m).2 = B.content q := by
  rcases hB.enqueue q m with ⟨htook, -⟩ | ⟨-, hc⟩
  · exact absurd htook h
  · exact hc

theorem sent (hB : B.Fifo) (h : (B.enqueue q m).1 ≠ 0) :
    B.content (B.enqueue q m).2 = B.content q ++ m := by
  rcases hB.enqueue q m with ⟨-, hc⟩ | ⟨hzero, -⟩
  · exact hc
  · exact absurd hzero h

theorem refused (hB : B.Fifo) (h : (B.enqueue q m).1 = 0) :
    B.content (B.enqueue q m).2 = B.content q := by
  by_cases hm : (B.enqueue q m).1 = m.length
  · have hnil : m = [] := List.length_eq_zero_iff.mp (hm.symm.trans h)
    rw [hB.took hm, hnil, List.append_nil]
  · exact hB.kept hm

end OutRing.Fifo

namespace Output

variable {ρ : Type} {B : OutRing ρ} {s t : State ρ} {a : Act} {v v' : View ρ} {j : Nat}

theorem sound_of_reach {ok : Act → State ρ → Prop} {cap : Nat} {q : ρ}
    (h : Reach (step B) ok (State.init B cap q) s) : Sound s := by
  induction h with
  | refl => exact init_sound B cap q
  | tail _ _ h ih => exact (moves h).sound ih

/-- What holds of the view of a fresh slot and is kept by the steps of a view holds in every run. -/
theorem view_invariant {P : View ρ → Prop} {ok : Act → State ρ → Prop} {cap : Nat} {q : ρ}
    (h : Reach (step B) ok (State.init B cap q) s) (j : Nat)
    (base : P ((State.init B cap q).view j))
    (kept : ∀ a s v v', ok a s → P v → View.Step B j a v v' → P v') : P (s.view j) := by
  induction h with
  | refl => exact base
  | tail hs hok h ih =>
    rcases (moves h).view (sound_of_reach hs) j with hsame | hstep
    · rw [hsame]
      exact ih
    · exact kept _ _ _ _ hok ih hstep

/-! ### The stream -/

def unconsumed : Option Op → Nat
  | some (.consume n _) => n
  | _ => 0

/-- Everything enqueued is with the kernel or still in the ring, in order. -/
structure Flowing (B : OutRing ρ) (v : View ρ) : Prop where
  stream : v.conn.log.flatten = v.conn.wire ++ (B.content v.conn.sendQ).drop (unconsumed v.op)
  bound : unconsumed v.op ≤ (B.content v.conn.sendQ).length
  exposed : ∀ buf, v.op = some (.write buf) → buf <+: B.content v.conn.sendQ

theorem Flowing.same (h : Flowing B v) (hlog : v'.conn.log = v.conn.log)
    (hwire : v'.conn.wire = v.conn.wire)
    (hring : B.content v'.conn.sendQ = B.content v.conn.sendQ)
    (hun : unconsumed v'.op = unconsumed v.op)
    (hexp : ∀ buf, v'.op = some (.write buf) → buf <+: B.content v.conn.sendQ) :
    Flowing B v' := by
  constructor
  · rw [hlog, hwire, hring, hun]
    exact h.stream
  · rw [hring, hun]
    exact h.bound
  · rw [hring]
    exact hexp

theorem Flowing.enqueued {m : List UInt8} (h : Flowing B v)
    (hlog : v'.conn.log = v.conn.log ++ [m]) (hwire : v'.conn.wire = v.conn.wire)
    (hring : B.content v'.conn.sendQ = B.content v.conn.sendQ ++ m)
    (hun : unconsumed v'.op = unconsumed v.op)
    (hexp : ∀ buf, v'.op = some (.write buf) → v.op = some (.write buf)) : Flowing B v' := by
  constructor
  · rw [hlog, hwire, hring, hun, List.drop_append_of_le_length h.bound, List.flatten_append,
      h.stream, List.flatten_singleton, List.append_assoc]
  · rw [hring, hun, List.length_append]
    exact Nat.le_trans h.bound (Nat.le_add_right ..)
  · intro buf hbuf
    rw [hring]
    exact (h.exposed buf (hexp buf hbuf)).trans (List.prefix_append ..)

theorem Flowing.call {r : Sys} {op : Op} {c : Conn ρ} {next : Option Op} (hB : B.Fifo)
    (h : Flowing B v) (hop : v.op = some op) (hm : Op.Moves B r v.conn op c next) :
    Flowing B { v with conn := c, op := next } := by
  cases hm with
  | refused hr =>
    apply h.same
    · rfl
    · rfl
    · exact hB.refused hr
    · rw [hop]
      rfl
    · rintro buf ⟨⟩
  | sent hr =>
    apply h.enqueued
    · rfl
    · rfl
    · exact hB.sent hr
    · rw [hop]
      rfl
    · rintro buf ⟨⟩
  | exposed =>
    apply h.same
    · rfl
    · rfl
    · rfl
    · rw [hop]
      rfl
    · rintro buf ⟨⟩
      exact hB.direct _
  | wrote hn =>
    rename_i buf n short
    have hpre := h.exposed buf hop
    have hle : n ≤ (B.content v.conn.sendQ).length := Nat.le_trans hn hpre.length_le
    have htake : buf.take n = (B.content v.conn.sendQ).take n := by
      obtain ⟨more, hmore⟩ := hpre
      rw [← hmore, List.take_append_of_le_length hn]
    have hstream := h.stream
    rw [hop] at hstream
    constructor
    · calc
        v.conn.log.flatten = v.conn.wire ++ B.content v.conn.sendQ := hstream
        _ = v.conn.wire ++ ((B.content v.conn.sendQ).take n ++ (B.content v.conn.sendQ).drop n) := by
          rw [List.take_append_drop]
        _ = v.conn.wire ++ buf.take n ++ (B.content v.conn.sendQ).drop n := by
          rw [htake, List.append_assoc]
    · exact hle
    · rintro buf' ⟨⟩
  | consumed =>
    rename_i n short
    have hle := h.bound
    have hstream := h.stream
    rw [hop] at hle hstream
    have hnext : unconsumed (some (if short then Op.interest true else .flush)) = 0 := by
      cases short <;> rfl
    constructor
    · rw [hB.consume _ n hle, hnext]
      exact hstream
    · rw [hnext]
      exact Nat.zero_le _
    · cases short <;> rintro buf ⟨⟩
  | _ =>
    apply h.same
    · rfl
    · rfl
    · rfl
    · rw [hop]
      rfl
    · rintro buf ⟨⟩

theorem Flowing.step (hB : B.Fifo) (h : Flowing B v) (hs : View.Step B j a v v') :
    Flowing B v' := by
  cases hs with
  | opened marked hc =>
    rename_i w fd ok c
    have hempty : c.log = [] ∧ c.wire = [] ∧ B.content c.sendQ = [] := by
      rcases hc with rfl | rfl <;> exact ⟨rfl, rfl, hB.clear _⟩
    obtain ⟨hlog, hwire, hring⟩ := hempty
    constructor
    · rw [hlog, hwire, hring]
      rfl
    · exact Nat.zero_le _
    · rintro buf ⟨⟩
  | start hop hnone hn hd =>
    apply h.same
    · rfl
    · rfl
    · rfl
    · rw [hnone]
      rcases hop with rfl | ⟨m, rfl⟩ <;> rfl
    · rcases hop with rfl | ⟨m, rfl⟩ <;> rintro buf ⟨⟩
  | disconnect hnone =>
    apply h.same
    · rfl
    · rfl
    · rfl
    · rw [hnone]
      rfl
    · rintro buf ⟨⟩
  | call hop hd hm => exact h.call hB hop hm
  | post hm =>
    apply h.enqueued
    · rfl
    · rfl
    · exact hB.took hm
    · rfl
    · exact fun _ hbuf => hbuf
  | refuse hm =>
    have hring := hB.kept hm
    apply h.same
    · rfl
    · rfl
    · exact hring
    · rfl
    · exact h.exposed
  | _ =>
    apply h.same
    · rfl
    · rfl
    · rfl
    · rfl
    · exact h.exposed

theorem flowing {cap : Nat} {q : ρ} (hB : B.Fifo)
    (h : Reach (step B) Any (State.init B cap q) s) (j : Nat) : Flowing B (s.view j) := by
  apply view_invariant h
  · constructor
    · exact (hB.clear q).symm
    · exact Nat.zero_le _
    · rintro buf ⟨⟩
  · exact fun a s v v' _ hv hstep => hv.step hB hstep

/-! ### After a disconnect -/

def Act.Opens (j : Nat) (a : Act) : Prop := ∃ w fd ok, a = .accept w j fd ok

theorem View.Step.silent (hs : View.Step B j a v v') (ha : ¬a.Opens j) (hd : v.conn.dead = true) :
    v'.conn.dead = true ∧ v'.conn.wire = v.conn.wire := by
  cases hs with
  | opened marked hc => exact absurd ⟨_, _, _, rfl⟩ ha
  | call hop hdead hm =>
    cases hm with
    | wrote =>
      have hfalse : true = false := hd.symm.trans hdead
      cases hfalse
    | cut => exact ⟨rfl, rfl⟩
    | _ => exact ⟨hd, rfl⟩
  | disconnect => exact ⟨rfl, rfl⟩
  | _ => exact ⟨hd, rfl⟩

theorem silent (hsound : Sound s) (hd : (s.conns j).dead = true)
    (h : Reach (step B) (fun a _ => ¬a.Opens j) s t) :
    Sound t ∧ (t.conns j).dead = true ∧ (t.conns j).wire = (s.conns j).wire := by
  induction h with
  | refl => exact ⟨hsound, hd, rfl⟩
  | tail _ hok h ih =>
    obtain ⟨hu, hdead, hwire⟩ := ih
    refine ⟨(moves h).sound hu, ?_⟩
    rcases (moves h).view hu j with hsame | hstep
    · have hconn := congrArg View.conn hsame
      exact ⟨(congrArg Conn.dead hconn).trans hdead, (congrArg Conn.wire hconn).trans hwire⟩
    · obtain ⟨hdead', hwire'⟩ := hstep.silent hok hdead
      exact ⟨hdead', hwire'.trans hwire⟩

/-! ### Who flushes next -/

/-- The call will come to the ring again, or arm `EPOLLOUT`, or cut the session. -/
def Op.serves : Op → Bool
  | .interest want => want
  | .store _ => false
  | .close => false
  | .release => false
  | _ => true

def View.Pending (v : View ρ) : Prop := v.marked = true ∨ v.taken = true ∨ v.owed = true

/-- What a live session keeps: the flag mirrors the mask but between `epoll_ctl` and its store, the
mask is only cleared with a flush due, and data in the ring does not wait for nobody. -/
structure Armed (B : OutRing ρ) (v : View ρ) : Prop where
  storing : ∀ want, v.op = some (.store want) → v.conn.epollOut = want
  mirror : v.conn.dead = false → (∀ want, v.op ≠ some (.store want)) →
    v.conn.wantWrite = v.conn.epollOut
  disarm : v.conn.netRef = true → v.conn.dead = false → v.op = some (.interest false) →
    B.content v.conn.sendQ ≠ [] → v.Pending
  armed : v.conn.netRef = true → v.conn.dead = false → B.content v.conn.sendQ ≠ [] →
    (∃ op, v.op = some op ∧ op.serves = true) ∨ v.conn.epollOut = true ∨ v.Pending

theorem Armed.serving {c : Conn ρ} {op op' : Op} (h : Armed B v) (hop : v.op = some op)
    (hstore : ∀ want, op ≠ .store want) (hdead : c.dead = v.conn.dead)
    (hwant : c.wantWrite = v.conn.wantWrite) (hmask : c.epollOut = v.conn.epollOut)
    (hserves : op'.serves = true) : Armed B { v with conn := c, op := some op' } := by
  constructor
  · rintro want ⟨⟩
    cases hserves
  · intro hd _
    have hmirror := h.mirror (hdead.symm.trans hd) (by
      intro want hw
      exact hstore want (Option.some.inj (hop.symm.trans hw)))
    exact (hwant.trans hmirror).trans hmask.symm
  · rintro _ _ ⟨⟩
    cases hserves
  · exact fun _ _ _ => Or.inl ⟨op', rfl, hserves⟩

theorem Armed.dead (hd : v.conn.dead = true) (hop : ∀ want, v.op ≠ some (.store want)) :
    Armed B v := by
  constructor
  · exact fun want hw => absurd hw (hop want)
  · intro hlive
    exact absurd (hd.symm.trans hlive) (by decide)
  · intro _ hlive
    exact absurd (hd.symm.trans hlive) (by decide)
  · intro _ hlive
    exact absurd (hd.symm.trans hlive) (by decide)

theorem Armed.call {r : Sys} {op : Op} {c : Conn ρ} {next : Option Op} (hB : B.Fifo)
    (hok : r.ctlOk = true) (h : Armed B v) (hop : v.op = some op)
    (hdead : v.conn.dead = op.closing) (hm : Op.Moves B r v.conn op c next) :
    Armed B { v with conn := c, op := next } := by
  -- what was pending stays pending, for the call changes neither bit nor debt
  cases hm with
  | refused => exact h.serving hop (by rintro want ⟨⟩) rfl rfl rfl rfl
  | sent => exact h.serving hop (by rintro want ⟨⟩) rfl rfl rfl rfl
  | exposed => exact h.serving hop (by rintro want ⟨⟩) rfl rfl rfl rfl
  | wrote => exact h.serving hop (by rintro want ⟨⟩) rfl rfl rfl rfl
  | again => exact h.serving hop (by rintro want ⟨⟩) rfl rfl rfl rfl
  | intr => exact h.serving hop (by rintro want ⟨⟩) rfl rfl rfl rfl
  | failed => exact h.serving hop (by rintro want ⟨⟩) rfl rfl rfl rfl
  | consumed =>
    rename_i n short
    cases short <;> exact h.serving hop (by rintro want ⟨⟩) rfl rfl rfl rfl
  | disarm hsize hw =>
    have hempty : B.content v.conn.sendQ = [] :=
      List.length_eq_zero_iff.mp ((hB.size _).symm.trans hsize)
    constructor
    · rintro want ⟨⟩
    · exact fun hd _ => h.mirror hd (by rw [hop]; rintro want ⟨⟩)
    · exact fun _ _ _ hne => absurd hempty hne
    · exact fun _ _ hne => absurd hempty hne
  | empty hsize =>
    have hempty : B.content v.conn.sendQ = [] :=
      List.length_eq_zero_iff.mp ((hB.size _).symm.trans hsize)
    constructor
    · rintro want ⟨⟩
    · exact fun hd _ => h.mirror hd (by rw [hop]; rintro want ⟨⟩)
    · rintro _ _ ⟨⟩
    · exact fun _ _ hne => absurd hempty hne
  | same hw =>
    rename_i want
    have hmirror (hd : v.conn.dead = false) : v.conn.wantWrite = v.conn.epollOut :=
      h.mirror hd (by rw [hop]; rintro want ⟨⟩)
    constructor
    · rintro want ⟨⟩
    · exact fun hd _ => hmirror hd
    · rintro _ _ ⟨⟩
    · intro hn hd hne
      right
      cases want with
      | true => exact Or.inl ((hmirror hd).symm.trans hw)
      | false => exact Or.inr (h.disarm hn hd hop hne)
  | changed =>
    rename_i want
    constructor
    · rintro want' ⟨⟩
      rfl
    · exact fun _ hno => absurd rfl (hno want)
    · rintro _ _ ⟨⟩
    · intro hn hd hne
      right
      cases want with
      | true => exact Or.inl rfl
      | false => exact Or.inr (h.disarm hn hd hop hne)
  | unchanged hfail =>
    rw [hok] at hfail
    cases hfail
  | stored =>
    rename_i want
    have hmask := h.storing want hop
    constructor
    · rintro want' ⟨⟩
    · exact fun _ _ => hmask.symm
    · rintro _ _ ⟨⟩
    · intro hn hd hne
      right
      rcases h.armed hn hd hne with ⟨op, hserving, hserves⟩ | hrest
      · cases Option.some.inj (hop.symm.trans hserving)
        cases hserves
      · exact hrest
  | wasDead hd =>
    have hfalse : true = false := hd.symm.trans hdead
    cases hfalse
  | cut => exact Armed.dead rfl (by rintro want ⟨⟩)
  | closed => exact Armed.dead hdead (by rintro want ⟨⟩)
  | released => exact Armed.dead hdead (by rintro want ⟨⟩)

theorem Armed.pending (h : Armed B v) (hop : v'.op = v.op)
    (hwant : v'.conn.wantWrite = v.conn.wantWrite) (hmask : v'.conn.epollOut = v.conn.epollOut)
    (hdead : v'.conn.dead = v.conn.dead) (hn : v'.conn.netRef = v.conn.netRef)
    (hkeep : v.conn.netRef = true → v.conn.dead = false → B.content v'.conn.sendQ ≠ [] →
      v'.Pending ∨ B.content v.conn.sendQ ≠ [] ∧ (v.Pending → v'.Pending)) : Armed B v' := by
  constructor
  · intro want hw
    exact hmask.trans (h.storing want (hop.symm.trans hw))
  · intro hd hno
    have hmirror := h.mirror (hdead.symm.trans hd) fun want hw => hno want (hop.trans hw)
    exact (hwant.trans hmirror).trans hmask.symm
  · intro href hd hw hne
    rcases hkeep (hn.symm.trans href) (hdead.symm.trans hd) hne with hnew | ⟨hold, hmore⟩
    · exact hnew
    · exact hmore (h.disarm (hn.symm.trans href) (hdead.symm.trans hd) (hop.symm.trans hw) hold)
  · intro href hd hne
    rw [hop, hmask]
    rcases hkeep (hn.symm.trans href) (hdead.symm.trans hd) hne with hnew | ⟨hold, hmore⟩
    · exact Or.inr (Or.inr hnew)
    · rcases h.armed (hn.symm.trans href) (hdead.symm.trans hd) hold with hs | ho | hp
      · exact Or.inl hs
      · exact Or.inr (Or.inl ho)
      · exact Or.inr (Or.inr (hmore hp))

def Act.ctlOk : Act → Bool
  | .net _ r => r.ctlOk
  | _ => true

theorem Armed.step (hB : B.Fifo) (hok : a.ctlOk = true) (h : Armed B v) (hs : View.Step B j a v v') :
    Armed B v' := by
  cases hs with
  | opened marked hc =>
    rename_i w fd ok c
    have hfresh : c.wantWrite = false ∧ c.epollOut = false ∧ B.content c.sendQ = [] := by
      rcases hc with rfl | rfl <;> exact ⟨rfl, rfl, hB.clear _⟩
    obtain ⟨hwant, hmask, hempty⟩ := hfresh
    constructor
    · rintro want ⟨⟩
    · exact fun _ _ => hwant.trans hmask.symm
    · rintro _ _ ⟨⟩
    · exact fun _ _ hne => absurd hempty hne
  | start hop hnone hn hd =>
    rename_i op
    constructor
    · intro want hw
      rcases hop with rfl | ⟨m, rfl⟩ <;> cases hw
    · exact fun hd _ => h.mirror hd (by rw [hnone]; rintro want ⟨⟩)
    · intro _ _ hw
      rcases hop with rfl | ⟨m, rfl⟩ <;> cases hw
    · intro _ _ _
      left
      exact ⟨op, rfl, by rcases hop with rfl | ⟨m, rfl⟩ <;> rfl⟩
  | disconnect hnone => exact Armed.dead rfl (by rintro want ⟨⟩)
  | exchange htaken =>
    refine h.pending rfl rfl rfl rfl rfl fun _ _ hne => Or.inr ⟨hne, ?_⟩
    rintro (hm | ht | ho)
    · exact Or.inr (Or.inl hm)
    · cases htaken.symm.trans ht
    · exact Or.inr (Or.inr ho)
  | skip hlive =>
    refine h.pending rfl rfl rfl rfl rfl fun hn hd => ?_
    cases (hlive hn).symm.trans hd
  | call hop hdead hm => exact h.call hB hok hop hdead hm
  | seat by' howed => exact h.pending rfl rfl rfl rfl rfl fun _ _ hne => Or.inr ⟨hne, id⟩
  | post hm =>
    exact h.pending rfl rfl rfl rfl rfl fun _ _ _ => Or.inl (Or.inr (Or.inr rfl))
  | refuse hm =>
    refine h.pending rfl rfl rfl rfl rfl fun _ _ hne => Or.inr ⟨fun hempty => ?_, id⟩
    exact hne ((hB.kept hm).trans hempty)
  | mark => exact h.pending rfl rfl rfl rfl rfl fun _ _ _ => Or.inl (Or.inl rfl)
  | noise marked hn =>
    refine h.pending rfl rfl rfl rfl rfl fun href => ?_
    cases hn.symm.trans href

theorem armed {cap : Nat} {q : ρ} (hB : B.Fifo)
    (h : Reach (step B) (fun a _ => a.ctlOk = true) (State.init B cap q) s) (j : Nat) :
    Armed B (s.view j) := by
  apply view_invariant h
  · constructor
    · rintro want ⟨⟩
    · exact fun _ _ => rfl
    · rintro ⟨⟩
    · rintro ⟨⟩
  · exact fun a s v v' hok hv hstep => hv.step hB hok hstep

/-! ### The results -/

/-- Only a message that the ring took is remembered. -/
theorem View.Step.log (hB : B.Fifo) (hs : View.Step B j a v v') (ha : ¬a.Opens j) :
    v'.conn.log = v.conn.log ∨ ∃ m, (B.enqueue v.conn.sendQ m).1 = m.length ∧
      v'.conn.log = v.conn.log ++ [m] := by
  cases hs with
  | opened marked hc => exact absurd ⟨_, _, _, rfl⟩ ha
  | call hop hdead hm =>
    cases hm with
    | sent htook =>
      rename_i m
      rcases hB.enqueue v.conn.sendQ m with ⟨hlen, -⟩ | ⟨hzero, -⟩
      · exact Or.inr ⟨m, hlen, rfl⟩
      · exact absurd hzero htook
    | _ => exact Or.inl rfl
  | post htook => exact Or.inr ⟨_, htook, rfl⟩
  | _ => exact Or.inl rfl

/-- The kernel gets a prefix of what the ring took since the session began: a refused message
adds nothing, the `Reassembler` of a client sees whole messages in order, and after `Disconnect`
nothing more is written. -/
theorem output_stream (hB : B.Fifo) {cap : Nat} {q : ρ}
    (h : Reach (step B) Any (State.init B cap q) s) (idx : Nat) :
    (s.conns idx).wire <+: (s.conns idx).log.flatten ∧
    (∀ a t, step B a s = some t → ¬a.Opens idx → (t.conns idx).log = (s.conns idx).log ∨
      ∃ m, (B.enqueue (s.conns idx).sendQ m).1 = m.length ∧
        (t.conns idx).log = (s.conns idx).log ++ [m]) ∧
    ((∀ m ∈ (s.conns idx).log, frameFormat.Whole m) →
      (BeltProto.reassembler.split (s.conns idx).wire).frames <+: (s.conns idx).log) ∧
    ((s.conns idx).dead = true → ∀ t, Reach (step B) (fun a _ => ¬a.Opens idx) s t →
      (t.conns idx).wire = (s.conns idx).wire) := by
  have hsound := sound_of_reach h
  have hpre : (s.conns idx).wire <+: (s.conns idx).log.flatten :=
    ⟨_, (flowing hB h idx).stream.symm⟩
  refine ⟨hpre, ?_, ?_, ?_⟩
  · intro a t ht ha
    rcases (moves ht).view hsound idx with hsame | hstep
    · exact Or.inl (congrArg (fun v => v.conn.log) hsame)
    · exact hstep.log hB ha
  · intro hwhole
    exact Format.split_prefix (fun m hm => BeltProto.reassembler_whole (hwhole m hm)) hpre
  · exact fun hd t ht => (silent hsound hd ht).2.2

/-- While `epoll_ctl` succeeds: outside its calls a live session has its mask mirrored by
`wantWrite`, and when also no taken bit waits for its flush and no `Mark` is owed, data in the
ring has `EPOLLOUT` or the dirty bit of the owner set. -/
theorem output_woken (hB : B.Fifo) {cap : Nat} {q : ρ}
    (h : Reach (step B) (fun a _ => a.ctlOk = true) (State.init B cap q) s) (idx : Nat)
    (hn : (s.conns idx).netRef = true) (hd : (s.conns idx).dead = false)
    (hquiet : ∀ w, (s.net w).opOn idx = none) :
    ((s.conns idx).wantWrite = true ↔ (s.conns idx).epollOut = true) ∧
    ((∀ w, (s.net w).took idx = false) → (∀ g, (s.game g).owes idx = false) →
      B.content (s.conns idx).sendQ ≠ [] →
      (s.conns idx).epollOut = true ∨ s.dirty.marked (s.conns idx).owner idx = true) := by
  have harmed := armed hB h idx
  have hop : (s.view idx).op = none := hquiet _
  constructor
  · have hmirror : (s.conns idx).wantWrite = (s.conns idx).epollOut :=
      harmed.mirror hd (by rw [hop]; rintro want ⟨⟩)
    rw [hmirror]
  · intro htook howes hne
    rcases harmed.armed hn hd hne with ⟨op, hserving, -⟩ | hmask | hm | ht | ho
    · cases hop.symm.trans hserving
    · exact Or.inl hmask
    · exact Or.inr hm
    · cases (htook _).symm.trans ht
    · have howed : (s.view idx).owed = false := by
        unfold State.view
        cases (s.conns idx).seatedBy with
        | none => rfl
        | some g => exact howes g
      cases howed.symm.trans ho

/-! ### A ring that keeps the contract -/

/-- The bytes of a buffer of 16384 bytes from the read position on, one byte staying free. -/
structure MtRing where
  read : Nat := 0
  data : List UInt8 := []

/-- `GetSendInfo` exposes the bytes up to the end of the buffer. -/
def mtRing : OutRing MtRing where
  content q := q.data
  enqueue q m :=
    if q.data.length + m.length ≤ 16383 then (m.length, { q with data := q.data ++ m }) else (0, q)
  getSendInfo q := (q.data.length, q.data.take (16384 - q.read))
  consume q n := ⟨(q.read + n) % 16384, q.data.drop n⟩
  clear _ := {}

theorem mtRing_fifo : mtRing.Fifo where
  enqueue q m := by
    unfold mtRing
    dsimp only
    split
    · exact Or.inl ⟨rfl, rfl⟩
    · exact Or.inr ⟨rfl, rfl⟩
  size _ := rfl
  direct _ := List.take_prefix ..
  consume _ _ _ := rfl
  clear _ := rfl

/-- The kernel takes nothing of a reply, so `EPOLLOUT` is armed; then the game worker sends. -/
def blocked : List Act :=
  [.accept 0 0 5 true, .join 0 0, .send 0 0 [4, 0, 1, 0], .net 0 {}, .net 0 {}, .net 0 {},
    .net 0 {}, .net 0 {}, .look 0 0 [6, 0, 1, 0, 8, 9], .game 0, .game 0]

def blockedEnd : State MtRing :=
  (runIf (step mtRing) (fun a _ => a.ctlOk) blocked (State.init mtRing 1 {})).getD
    (State.init mtRing 1 {})

theorem blockedEnd_idle (w : Nat) : blockedEnd.net w = .idle ∧ blockedEnd.game w = .idle := by
  cases w with
  | zero => exact ⟨rfl, rfl⟩
  | succ w => exact ⟨rfl, rfl⟩

theorem output_woken_blocked :
    ((blockedEnd.conns 0).wantWrite = true ↔ (blockedEnd.conns 0).epollOut = true) ∧
    (mtRing.content (blockedEnd.conns 0).sendQ = [4, 0, 1, 0, 6, 0, 1, 0, 8, 9] ∧
      ((blockedEnd.conns 0).epollOut = true ∨ blockedEnd.dirty.marked 0 0 = true)) := by
  have hdata : mtRing.content (blockedEnd.conns 0).sendQ = [4, 0, 1, 0, 6, 0, 1, 0, 8, 9] := by
    decide +kernel
  have hlive : (blockedEnd.conns 0).owner = 0 ∧ (blockedEnd.conns 0).netRef = true ∧
      (blockedEnd.conns 0).dead = false := by decide +kernel
  have hrun : runIf (step mtRing) (fun a _ => a.ctlOk) blocked (State.init mtRing 1 {}) =
      some blockedEnd := rfl
  obtain ⟨hmirror, hwoken⟩ := output_woken mtRing_fifo
    (reach_of_runIf (fun _ _ h => h) hrun) 0 hlive.2.1 hlive.2.2
    (fun w => by rw [(blockedEnd_idle w).1]; rfl)
  refine ⟨hmirror, hdata, ?_⟩
  rw [← hlive.1]
  apply hwoken
  · intro w
    rw [(blockedEnd_idle w).1]
    rfl
  · intro g
    rw [(blockedEnd_idle g).2]
    rfl
  · rw [hdata]
    rintro ⟨⟩

end Output

end BeltServer
