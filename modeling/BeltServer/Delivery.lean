import BeltServer.Output

/-!
# One session seen from all threads

A session, the call its owner makes for it, its bit in the dirty map, the bit in the hands of
`Drain` and a `Mark` still owed by the game worker make up its view. Every step of the machine
is a step of the view of each session, or leaves it alone.
-/

namespace BeltServer.Output

set_option autoImplicit false

open Runs

variable {ρ : Type} {B : OutRing ρ}

/-! ### The accesses of a call -/

inductive Op.Moves (B : OutRing ρ) (r : Sys) (c : Conn ρ) : Op → Conn ρ → Option Op → Prop where
  | refused {m : List UInt8} (h : (B.enqueue c.sendQ m).1 = 0) :
      Op.Moves B r c (.send m) { c with sendQ := (B.enqueue c.sendQ m).2 } (some .cut)
  | sent {m : List UInt8} (h : (B.enqueue c.sendQ m).1 ≠ 0) :
      Op.Moves B r c (.send m)
        { c with sendQ := (B.enqueue c.sendQ m).2, log := c.log ++ [m] } (some .flush)
  | disarm (h : (B.getSendInfo c.sendQ).1 = 0) (hw : c.wantWrite = true) :
      Op.Moves B r c .flush c (some (.interest false))
  | empty (h : (B.getSendInfo c.sendQ).1 = 0) : Op.Moves B r c .flush c none
  | exposed : Op.Moves B r c .flush c (some (.write (B.getSendInfo c.sendQ).2))
  | wrote {buf : List UInt8} {n : Nat} {short : Bool} (h : n ≤ buf.length) :
      Op.Moves B r c (.write buf) { c with wire := c.wire ++ buf.take n } (some (.consume n short))
  | again {buf : List UInt8} : Op.Moves B r c (.write buf) c (some (.interest true))
  | intr {buf : List UInt8} : Op.Moves B r c (.write buf) c (some .flush)
  | failed {buf : List UInt8} : Op.Moves B r c (.write buf) c (some .cut)
  | consumed {n : Nat} {short : Bool} :
      Op.Moves B r c (.consume n short) { c with sendQ := B.consume c.sendQ n }
        (some (if short then .interest true else .flush))
  | same {want : Bool} (h : c.wantWrite = want) : Op.Moves B r c (.interest want) c none
  | changed {want : Bool} : Op.Moves B r c (.interest want) { c with epollOut := want }
      (some (.store want))
  | unchanged {want : Bool} (h : r.ctlOk = false) : Op.Moves B r c (.interest want) c none
  | stored {want : Bool} : Op.Moves B r c (.store want) { c with wantWrite := want } none
  | wasDead (h : c.dead = true) : Op.Moves B r c .cut c none
  | cut : Op.Moves B r c .cut { c with dead := true } (some .close)
  | closed : Op.Moves B r c .close { c with fd := -1, epollOut := false } (some .release)
  | released : Op.Moves B r c .release { c with netRef := false } none

theorem Op.moves {r : Sys} {c c' : Conn ρ} {op : Op} {next : Option Op}
    (h : op.step B r c = some (c', next)) : Op.Moves B r c op c' next := by
  cases op with
  | send m =>
    simp only [Op.step] at h
    split at h
    · cases h
      exact .refused ‹_›
    · cases h
      exact .sent ‹_›
  | flush =>
    simp only [Op.step] at h
    split at h
    · cases hw : c.wantWrite with
      | true =>
        simp only [hw] at h
        cases h
        exact .disarm ‹_› hw
      | false =>
        simp only [hw] at h
        cases h
        exact .empty ‹_›
    · cases h
      exact .exposed
  | write buf =>
    simp only [Op.step] at h
    split at h
    · cases h
    · split at h
      · cases h
        apply Op.Moves.wrote
        omega
      · split at h
        · cases h
          exact .again
        · cases h
          exact .intr
        · cases h
          exact .failed
  | consume n short =>
    cases h
    exact .consumed
  | interest want =>
    simp only [Op.step] at h
    split at h
    · cases h
      exact .same ‹_›
    · split at h
      · cases h
        exact .changed
      · cases h
        apply Op.Moves.unchanged
        simpa using ‹¬r.ctlOk = true›
  | store want =>
    cases h
    exact .stored
  | cut =>
    simp only [Op.step] at h
    split at h
    · cases h
      exact .wasDead ‹_›
    · cases h
      exact .cut
  | close =>
    cases h
    exact .closed
  | release =>
    cases h
    exact .released

/-- The accesses of `Disconnect` after its exchange of `dead`. -/
def Op.closing : Op → Bool
  | .close => true
  | .release => true
  | _ => false

/-- What an access leaves alone in a session that is dead exactly while it is being closed. -/
structure Op.Keeps (c c' : Conn ρ) (next : Option Op) : Prop where
  owner : c'.owner = c.owner
  seatedBy : c'.seatedBy = c.seatedBy
  live : c'.dead = false → c.dead = false ∧ c'.fd = c.fd ∧ c'.netRef = c.netRef
  next : ∀ op, next = some op → c'.netRef = true ∧ c'.dead = op.closing

theorem Op.Moves.keeps {r : Sys} {c c' : Conn ρ} {op : Op} {next : Option Op}
    (h : Op.Moves B r c op c' next) (hn : c.netRef = true) (hd : c.dead = op.closing) :
    Op.Keeps c c' next := by
  cases h with
  | consumed =>
    rename_i n short
    constructor
    · rfl
    · rfl
    · exact fun h => ⟨h, rfl, rfl⟩
    · intro op hop
      cases short <;> cases hop <;> exact ⟨hn, hd⟩
  | cut =>
    constructor
    · rfl
    · rfl
    · rintro ⟨⟩
    · rintro op ⟨⟩
      exact ⟨hn, rfl⟩
  | closed =>
    constructor
    · rfl
    · rfl
    · exact fun h => absurd (hd.symm.trans h) (by decide)
    · rintro op ⟨⟩
      exact ⟨hn, hd⟩
  | released =>
    constructor
    · rfl
    · rfl
    · exact fun h => absurd (hd.symm.trans h) (by decide)
    · rintro op ⟨⟩
  | _ =>
    constructor
    · rfl
    · rfl
    · exact fun h => ⟨h, rfl, rfl⟩
    · rintro op ⟨⟩
      all_goals exact ⟨hn, hd⟩

/-! ### Who is at a session -/

def Pc.opOn (j : Nat) : Pc → Option Op
  | .call idx _ op => if idx = j then some op else none
  | _ => none

/-- The bit of session `j` was taken from the map and its flush is not called yet. -/
def Ret.took (j : Nat) : Ret → Bool
  | .handler => false
  | .drain w v => decide (j / 64 = w) && v.getLsbD (j % 64)

def Pc.took (j : Nat) : Pc → Bool
  | .bits w v => decide (j / 64 = w) && v.getLsbD (j % 64)
  | .call _ ret _ => ret.took j
  | _ => false

def Post.target : Post → Option (Nat × Nat)
  | .idle => none
  | .enqueue idx w _ => some (idx, w)
  | .mark idx w => some (idx, w)

def Post.owes (j : Nat) : Post → Bool
  | .mark idx _ => decide (idx = j)
  | _ => false

/-- Only its owner makes calls for a session, and only the game worker that seats it sends to it. -/
structure SlotOk (s : State ρ) (j : Nat) : Prop where
  call : ∀ w op, (s.net w).opOn j = some op → (s.conns j).owner = w ∧
    (s.conns j).netRef = true ∧ (s.conns j).dead = op.closing
  posted : ∀ g w, (s.game g).target = some (j, w) →
    (s.conns j).seatedBy = some g ∧ (s.conns j).owner = w
  room : (s.conns j).netRef = true ∨ (s.conns j).seatedBy ≠ none → j < s.cap
  fd : (s.conns j).dead = false → ((s.conns j).netRef = true ↔ 0 ≤ (s.conns j).fd)

structure Sound (s : State ρ) : Prop where
  slot : ∀ j, SlotOk s j
  rows : s.cap ≤ 64 * s.dirty.stride

section Updates
variable (s : State ρ) (idx w g : Nat) (c : Conn ρ) (pc : Pc) (po : Post)

@[simp] theorem setConn_net : (s.setConn idx c).net = s.net := rfl
@[simp] theorem setConn_game : (s.setConn idx c).game = s.game := rfl
@[simp] theorem setNet_conns : (s.setNet w pc).conns = s.conns := rfl
@[simp] theorem setGame_conns : (s.setGame g po).conns = s.conns := rfl

@[simp] theorem setConn_self : (s.setConn idx c).conns idx = c := Function.update_self ..
@[simp] theorem setNet_self : (s.setNet w pc).net w = pc := Function.update_self ..
@[simp] theorem setGame_self : (s.setGame g po).game g = po := Function.update_self ..

variable {s idx w g c pc po}

theorem setConn_ne {j : Nat} (h : j ≠ idx) : (s.setConn idx c).conns j = s.conns j :=
  Function.update_of_ne h ..

theorem setNet_ne {w' : Nat} (h : w' ≠ w) : (s.setNet w pc).net w' = s.net w' :=
  Function.update_of_ne h ..

theorem setGame_ne {g' : Nat} (h : g' ≠ g) : (s.setGame g po).game g' = s.game g' :=
  Function.update_of_ne h ..

end Updates

/-! ### What a step can do -/

def resume (idx : Nat) (ret : Ret) (next : Option Op) : Pc := next.elim ret.pc (.call idx ret)

inductive Moves (B : OutRing ρ) (s : State ρ) : Act → State ρ → Prop where
  | opened {w idx : Nat} {fd : Int} {ok : Bool} (hw : s.net w = .idle) (hcap : idx < s.cap)
      (hfd : 0 ≤ fd) (hn : (s.conns idx).netRef = false) (hs : (s.conns idx).seatedBy = none)
      {c : Conn ρ} (hc : c = (s.conns idx).opened B w fd ∨ c = (s.conns idx).failed B w) :
      Moves B s (.accept w idx fd ok) (s.setConn idx c)
  | start {a : Act} {w idx : Nat} {op : Op} (hop : op = .flush ∨ ∃ m, op = .send m)
      (hw : s.net w = .idle) (ho : (s.conns idx).owner = w) (hn : (s.conns idx).netRef = true)
      (hd : (s.conns idx).dead = false) : Moves B s a (s.setNet w (.call idx .handler op))
  | disconnect {w idx : Nat} (hw : s.net w = .idle) (ho : (s.conns idx).owner = w)
      (hn : (s.conns idx).netRef = true) (hd : (s.conns idx).dead = false) :
      Moves B s (.disconnect w idx)
        ((s.setConn idx { s.conns idx with dead := true }).setNet w (.call idx .handler .close))
  | pass {a : Act} {w : Nat} {pc : Pc} (hop : ∀ j, (s.net w).opOn j = none ∧ pc.opOn j = none)
      (htook : ∀ j, (s.net w).took j = false ∧ pc.took j = false) : Moves B s a (s.setNet w pc)
  | exchange {a : Act} {w i : Nat} (hw : s.net w = .word i) (hi : i < s.dirty.stride) :
      Moves B s a ({ s with dirty := (s.dirty.exchange w i).2 }.setNet w
        (.bits i (s.dirty.exchange w i).1))
  | flushBit {a : Act} {w i : Nat} {v : BitVec 64} (hw : s.net w = .bits i v) (hv : v ≠ 0#64)
      (hcap : i * 64 + BitWord.lowest v < s.cap)
      (hf : (s.conns (i * 64 + BitWord.lowest v)).flushable w = true) :
      Moves B s a (s.setNet w
        (.call (i * 64 + BitWord.lowest v) (.drain i (BitWord.clearLowest v)) .flush))
  | skipBit {a : Act} {w i : Nat} {v : BitVec 64} (hw : s.net w = .bits i v) (hv : v ≠ 0#64)
      (hf : ¬(i * 64 + BitWord.lowest v < s.cap ∧
        (s.conns (i * 64 + BitWord.lowest v)).flushable w = true)) :
      Moves B s a (s.setNet w (.bits i (BitWord.clearLowest v)))
  | call {w idx : Nat} {r : Sys} {ret : Ret} {op : Op} {c : Conn ρ} {next : Option Op}
      (hw : s.net w = .call idx ret op) (h : Op.Moves B r (s.conns idx) op c next) :
      Moves B s (.net w r) ((s.setConn idx c).setNet w (resume idx ret next))
  | join {g idx : Nat} (hn : (s.conns idx).netRef = true)
      (hs : (s.conns idx).seatedBy = none) :
      Moves B s (.join g idx) (s.setConn idx { s.conns idx with seatedBy := some g })
  | leave {g idx : Nat} (hg : s.game g = .idle) (hs : (s.conns idx).seatedBy = some g) :
      Moves B s (.leave g idx) (s.setConn idx { s.conns idx with seatedBy := none })
  | look {g idx : Nat} {m : List UInt8} (hg : s.game g = .idle)
      (hs : (s.conns idx).seatedBy = some g) :
      Moves B s (.look g idx m) (s.setGame g (.enqueue idx (s.conns idx).owner m))
  | post {g idx w : Nat} {m : List UInt8} (hg : s.game g = .enqueue idx w m)
      (h : (B.enqueue (s.conns idx).sendQ m).1 = m.length) :
      Moves B s (.game g) ((s.setConn idx
        { s.conns idx with
          sendQ := (B.enqueue (s.conns idx).sendQ m).2
          log := (s.conns idx).log ++ [m] }).setGame g (.mark idx w))
  | refuse {g idx w : Nat} {m : List UInt8} (hg : s.game g = .enqueue idx w m)
      (h : (B.enqueue (s.conns idx).sendQ m).1 ≠ m.length) :
      Moves B s (.game g) ((s.setConn idx
        { s.conns idx with sendQ := (B.enqueue (s.conns idx).sendQ m).2 }).setGame g .idle)
  | mark {g idx w : Nat} (hg : s.game g = .mark idx w) :
      Moves B s (.game g) ({ s with dirty := s.dirty.mark w idx }.setGame g .idle)

variable {s t : State ρ} {a : Act}

theorem handles_iff {w idx : Nat} : s.handles w idx = true ↔ s.net w = .idle ∧
    (s.conns idx).owner = w ∧ (s.conns idx).netRef = true ∧ (s.conns idx).dead = false := by
  simp [State.handles, and_assoc]

theorem moves_netStep {w : Nat} {r : Sys} (h : s.netStep B w r = some t) :
    Moves B s (.net w r) t := by
  unfold State.netStep at h
  cases hw : s.net w with
  | idle =>
    rw [hw] at h
    cases h
  | word i =>
    rw [hw] at h
    dsimp only at h
    split at h
    · cases h
      exact .exchange hw ‹_›
    · cases h
      apply Moves.pass <;> intro j <;> rw [hw] <;> exact ⟨rfl, rfl⟩
  | bits i v =>
    rw [hw] at h
    dsimp only at h
    split at h
    · rename_i hv
      cases h
      subst hv
      apply Moves.pass <;> intro j <;> rw [hw]
      · exact ⟨rfl, rfl⟩
      · exact ⟨by simp [Pc.took], rfl⟩
    · split at h
      · rename_i hv hf
        cases h
        exact .flushBit hw hv hf.1 hf.2
      · cases h
        exact .skipBit hw ‹_› ‹_›
  | call idx ret op =>
    rw [hw] at h
    dsimp only at h
    obtain ⟨⟨c, next⟩, hop, ht⟩ := Option.map_eq_some_iff.mp h
    have hcall := Moves.call hw (Op.moves hop)
    cases next <;> cases ht <;> exact hcall

theorem moves_gameStep {g : Nat} (h : s.gameStep B g = some t) : Moves B s (.game g) t := by
  unfold State.gameStep at h
  cases hg : s.game g with
  | idle =>
    rw [hg] at h
    cases h
  | enqueue idx w m =>
    rw [hg] at h
    dsimp only at h
    split at h
    · cases h
      exact .post hg ‹_›
    · cases h
      exact .refuse hg ‹_›
  | mark idx w =>
    rw [hg] at h
    cases h
    exact .mark hg

theorem moves (h : step B a s = some t) : Moves B s a t := by
  cases a with
  | accept w idx fd ok =>
    simp only [step, Option.ite_none_right_eq_some] at h
    obtain ⟨⟨hw, hcap, hfd, hn, hs⟩, ht⟩ := h
    cases ht
    cases ok with
    | true => exact .opened hw hcap hfd hn hs (Or.inl rfl)
    | false => exact .opened hw hcap hfd hn hs (Or.inr rfl)
  | send w idx m =>
    simp only [step, Option.ite_none_right_eq_some, handles_iff] at h
    obtain ⟨⟨hw, ho, hn, hd⟩, ht⟩ := h
    cases ht
    exact .start (Or.inr ⟨m, rfl⟩) hw ho hn hd
  | epollOut w idx =>
    simp only [step, Option.ite_none_right_eq_some, handles_iff] at h
    obtain ⟨⟨hw, ho, hn, hd⟩, ht⟩ := h
    cases ht
    exact .start (Or.inl rfl) hw ho hn hd
  | disconnect w idx =>
    simp only [step, Option.ite_none_right_eq_some, handles_iff] at h
    obtain ⟨⟨hw, ho, hn, hd⟩, ht⟩ := h
    cases ht
    exact .disconnect hw ho hn hd
  | drain w =>
    simp only [step, Option.ite_none_right_eq_some] at h
    obtain ⟨hw, ht⟩ := h
    cases ht
    apply Moves.pass <;> intro j <;> rw [hw] <;> exact ⟨rfl, rfl⟩
  | net w r => exact moves_netStep h
  | join g idx =>
    simp only [step, Option.ite_none_right_eq_some] at h
    obtain ⟨⟨hn, -, hs⟩, ht⟩ := h
    cases ht
    exact .join hn hs
  | leave g idx =>
    simp only [step, Option.ite_none_right_eq_some] at h
    obtain ⟨⟨hg, hs⟩, ht⟩ := h
    cases ht
    exact .leave hg hs
  | look g idx m =>
    simp only [step, Option.ite_none_right_eq_some] at h
    obtain ⟨⟨hg, hs, -⟩, ht⟩ := h
    cases ht
    exact .look hg hs
  | game g => exact moves_gameStep h

/-! ### Slots stay sound -/

theorem opOn_call {idx j : Nat} {ret : Ret} {op : Op} :
    (Pc.call idx ret op).opOn j = if idx = j then some op else none := rfl

@[simp] theorem opOn_call_self {idx : Nat} {ret : Ret} {op : Op} :
    (Pc.call idx ret op).opOn idx = some op := if_pos rfl

theorem opOn_call_ne {idx j : Nat} {ret : Ret} {op : Op} (h : j ≠ idx) :
    (Pc.call idx ret op).opOn j = none := if_neg (Ne.symm h)

@[simp] theorem opOn_ret (ret : Ret) (j : Nat) : ret.pc.opOn j = none := by
  cases ret <;> rfl

@[simp] theorem took_ret (ret : Ret) (j : Nat) : ret.pc.took j = ret.took j := by
  cases ret <;> rfl

@[simp] theorem opOn_resume_self (idx : Nat) (ret : Ret) (next : Option Op) :
    (resume idx ret next).opOn idx = next := by
  cases next with
  | none => exact opOn_ret ret idx
  | some op => exact opOn_call_self

theorem opOn_resume_ne {idx j : Nat} {ret : Ret} {next : Option Op} (h : j ≠ idx) :
    (resume idx ret next).opOn j = none := by
  cases next with
  | none => exact opOn_ret ret j
  | some op => exact opOn_call_ne h

@[simp] theorem took_resume (idx j : Nat) (ret : Ret) (next : Option Op) :
    (resume idx ret next).took j = ret.took j := by
  cases next with
  | none => exact took_ret ret j
  | some op => rfl

theorem init_sound (B : OutRing ρ) (cap : Nat) (q : ρ) : Sound (State.init B cap q) := by
  constructor
  · intro j
    constructor
    · rintro w op ⟨⟩
    · rintro g w ⟨⟩
    · rintro (h | h)
      · cases h
      · exact absurd rfl h
    · have hclosed : false = true ↔ (0 : Int) ≤ -1 := by decide
      exact fun _ => hclosed
  · change cap ≤ 64 * ((cap + 63) / 64)
    omega

/-- A session that a step passes by. -/
theorem SlotOk.frame {j : Nat} (h : SlotOk s j) (hconn : t.conns j = s.conns j)
    (hcap : t.cap = s.cap) (hnet : ∀ w op, (t.net w).opOn j = some op → (s.net w).opOn j = some op)
    (hgame : ∀ g w, (t.game g).target = some (j, w) → (s.game g).target = some (j, w)) :
    SlotOk t j := by
  constructor
  · intro w op hop
    rw [hconn]
    exact h.call w op (hnet w op hop)
  · intro g w hg
    rw [hconn]
    exact h.posted g w (hgame g w hg)
  · rw [hconn, hcap]
    exact h.room
  · rw [hconn]
    exact h.fd

theorem SlotOk.owes_of_unseated {j : Nat} (h : SlotOk s j) (hs : (s.conns j).seatedBy = none)
    (g : Nat) : (s.game g).owes j = false := by
  cases hg : s.game g with
  | idle | enqueue _ _ _ => rfl
  | mark idx w =>
    apply decide_eq_false
    rintro rfl
    cases hs.symm.trans (h.posted g w (by rw [hg]; rfl)).1

theorem SlotOk.setNet {j w : Nat} {pc : Pc} (h : SlotOk s j) (hpc : pc.opOn j = none) :
    SlotOk (s.setNet w pc) j := by
  apply SlotOk.frame (t := s.setNet w pc) h rfl rfl
  · intro w' op hop
    by_cases hw : w' = w
    · subst hw
      rw [setNet_self, hpc] at hop
      cases hop
    · rw [setNet_ne hw] at hop
      exact hop
  · exact fun _ _ hg => hg

theorem SlotOk.setConn_ne {j idx : Nat} {c : Conn ρ} (h : SlotOk s j) (hne : j ≠ idx) :
    SlotOk (s.setConn idx c) j := by
  apply h.frame (Output.setConn_ne hne) rfl
  · exact fun _ _ hop => hop
  · exact fun _ _ hg => hg

theorem SlotOk.setGame {j g : Nat} {po : Post} (h : SlotOk s j)
    (hpo : ∀ w, po.target = some (j, w) →
      (s.conns j).seatedBy = some g ∧ (s.conns j).owner = w) :
    SlotOk (s.setGame g po) j := by
  constructor
  · exact h.call
  · intro g' w hg
    by_cases hne : g' = g
    · subst hne
      rw [setGame_self] at hg
      exact hpo w hg
    · rw [setGame_ne hne] at hg
      exact h.posted g' w hg
  · exact h.room
  · exact h.fd

/-- The owner's call goes on: nobody else is in a call for the session. -/
theorem SlotOk.ownCall {idx w : Nat} {c : Conn ρ} {next : Option Op} (h : SlotOk s idx)
    (ho : (s.conns idx).owner = w) (hn : (s.conns idx).netRef = true)
    (hk : Op.Keeps (s.conns idx) c next) (ret : Ret) :
    SlotOk ((s.setConn idx c).setNet w (resume idx ret next)) idx := by
  constructor
  · intro w' op hop
    rw [setNet_conns, setConn_self]
    by_cases hw : w' = w
    · subst hw
      rw [setNet_self, opOn_resume_self] at hop
      exact ⟨hk.owner.trans ho, hk.next op hop⟩
    · rw [setNet_ne hw] at hop
      exact absurd ((h.call w' op hop).1.symm.trans ho) hw
  · intro g w' hg
    rw [setNet_conns, setConn_self, hk.owner, hk.seatedBy]
    exact h.posted g w' hg
  · exact fun _ => h.room (Or.inl hn)
  · rw [setNet_conns, setConn_self]
    intro hd
    obtain ⟨hlive, hfd, href⟩ := hk.live hd
    rw [hfd, href]
    exact h.fd hlive

theorem SlotOk.dirty {j : Nat} (h : SlotOk s j) (d : DirtyMap) :
    SlotOk { s with dirty := d } j := ⟨h.call, h.posted, h.room, h.fd⟩

theorem flushable_iff {c : Conn ρ} {w : Nat} :
    c.flushable w = true ↔ c.owner = w ∧ c.dead = false ∧ 0 ≤ c.fd := by
  simp [Conn.flushable, and_assoc]

/-- The ring and what is remembered of it can change at any time. -/
theorem SlotOk.ring {idx : Nat} (h : SlotOk s idx) (sendQ : ρ) (log : List (List UInt8)) :
    SlotOk (s.setConn idx { s.conns idx with sendQ, log }) idx := by
  constructor
  · intro w op hop
    rw [setConn_self]
    exact h.call w op hop
  · intro g w hg
    rw [setConn_self]
    exact h.posted g w hg
  · rw [setConn_self]
    exact h.room
  · rw [setConn_self]
    exact h.fd

theorem Keeps.start {c : Conn ρ} {op : Op} (hop : op = .flush ∨ ∃ m, op = .send m)
    (hn : c.netRef = true) (hd : c.dead = false) : Op.Keeps c c (some op) := by
  constructor
  · rfl
  · rfl
  · exact fun h => ⟨h, rfl, rfl⟩
  · rintro op' ⟨⟩
    rcases hop with rfl | ⟨m, rfl⟩ <;> exact ⟨hn, hd⟩

theorem Keeps.disconnect {c : Conn ρ} (hn : c.netRef = true) :
    Op.Keeps c { c with dead := true } (some .close) := by
  constructor
  · rfl
  · rfl
  · rintro ⟨⟩
  · rintro op ⟨⟩
    exact ⟨hn, rfl⟩

theorem SlotOk.opened {idx w : Nat} {fd : Int} {c : Conn ρ} (h : SlotOk s idx)
    (hcap : idx < s.cap) (hfd : 0 ≤ fd) (hn : (s.conns idx).netRef = false)
    (hs : (s.conns idx).seatedBy = none)
    (hc : c = (s.conns idx).opened B w fd ∨ c = (s.conns idx).failed B w) :
    SlotOk (s.setConn idx c) idx := by
  constructor
  · intro w' op hop
    exact absurd (hn.symm.trans (h.call w' op hop).2.1) (by decide)
  · intro g w' hg
    have hnone := hs.symm.trans (h.posted g w' hg).1
    cases hnone
  · exact fun _ => hcap
  · rw [setConn_self]
    rcases hc with rfl | rfl
    · exact fun _ => iff_of_true rfl hfd
    · rintro ⟨⟩

/-- The game worker that seats the session, if there is one, is not sending to it. -/
theorem SlotOk.seat {idx : Nat} {by' : Option Nat} (h : SlotOk s idx)
    (hn : by' = none ∨ (s.conns idx).netRef = true)
    (hs : ∀ g, (s.conns idx).seatedBy = some g → s.game g = .idle) :
    SlotOk (s.setConn idx { s.conns idx with seatedBy := by' }) idx := by
  constructor
  · intro w op hop
    rw [setConn_self]
    exact h.call w op hop
  · intro g w hg
    rw [setConn_game, hs g (h.posted g w hg).1] at hg
    cases hg
  · rw [setConn_self]
    rintro (hr | hr)
    · exact h.room (Or.inl hr)
    · rcases hn with rfl | hn
      · exact absurd rfl hr
      · exact h.room (Or.inl hn)
  · rw [setConn_self]
    exact h.fd

theorem Moves.sound (hs : Sound s) (h : Moves B s a t) : Sound t := by
  have hself (idx : Nat) : s.setConn idx (s.conns idx) = s := by
    unfold State.setConn
    rw [Function.update_eq_self]
  cases h with
  | opened hw hcap hfd hn hseat hc =>
    rename_i w idx fd ok c
    refine ⟨fun j => ?_, hs.rows⟩
    by_cases hj : j = idx
    · subst hj
      exact (hs.slot j).opened hcap hfd hn hseat hc
    · exact (hs.slot j).setConn_ne hj
  | start hop hw ho hn hd =>
    rename_i w idx op
    refine ⟨fun j => ?_, hs.rows⟩
    by_cases hj : j = idx
    · subst hj
      have hcall := (hs.slot j).ownCall ho hn (Keeps.start hop hn hd) .handler
      rw [hself] at hcall
      exact hcall
    · exact (hs.slot j).setNet (opOn_call_ne hj)
  | disconnect hw ho hn hd =>
    rename_i w idx
    refine ⟨fun j => ?_, hs.rows⟩
    by_cases hj : j = idx
    · subst hj
      exact (hs.slot j).ownCall ho hn (Keeps.disconnect hn) .handler
    · exact ((hs.slot j).setConn_ne hj).setNet (opOn_call_ne hj)
  | pass hop htook => exact ⟨fun j => (hs.slot j).setNet (hop j).2, hs.rows⟩
  | exchange hw hi =>
    refine ⟨fun j => SlotOk.setNet ?_ rfl, hs.rows⟩
    exact (hs.slot j).dirty _
  | flushBit hw hv hcap hf =>
    rename_i w i v
    obtain ⟨ho, hd, hfd⟩ := flushable_iff.mp hf
    refine ⟨fun j => ?_, hs.rows⟩
    by_cases hj : j = i * 64 + BitWord.lowest v
    · subst hj
      have hn := ((hs.slot _).fd hd).mpr hfd
      have hcall := (hs.slot _).ownCall ho hn (Keeps.start (Or.inl rfl) hn hd)
        (.drain i (BitWord.clearLowest v))
      rw [hself] at hcall
      exact hcall
    · exact (hs.slot j).setNet (opOn_call_ne hj)
  | skipBit hw hv hf =>
    refine ⟨fun j => SlotOk.setNet (hs.slot j) ?_, hs.rows⟩
    rfl
  | call hw h =>
    rename_i w idx r ret op c next
    have hown := (hs.slot idx).call w op (by rw [hw, opOn_call_self])
    refine ⟨fun j => ?_, hs.rows⟩
    by_cases hj : j = idx
    · subst hj
      exact (hs.slot j).ownCall hown.1 hown.2.1 (h.keeps hown.2.1 hown.2.2) ret
    · exact ((hs.slot j).setConn_ne hj).setNet (opOn_resume_ne hj)
  | join hn hseat =>
    rename_i g idx
    refine ⟨fun j => ?_, hs.rows⟩
    by_cases hj : j = idx
    · subst hj
      exact (hs.slot j).seat (Or.inr hn) fun g' h => by cases hseat.symm.trans h
    · exact (hs.slot j).setConn_ne hj
  | leave hg hseat =>
    rename_i g idx
    refine ⟨fun j => ?_, hs.rows⟩
    by_cases hj : j = idx
    · subst hj
      refine (hs.slot j).seat (Or.inl rfl) fun g' h => ?_
      rw [← Option.some.inj (hseat.symm.trans h)]
      exact hg
    · exact (hs.slot j).setConn_ne hj
  | look hg hseat =>
    rename_i g idx m
    refine ⟨fun j => (hs.slot j).setGame ?_, hs.rows⟩
    rintro w ⟨⟩
    exact ⟨hseat, rfl⟩
  | post hg h =>
    rename_i g idx w m
    have hposted := (hs.slot idx).posted g w (by rw [hg]; rfl)
    refine ⟨fun j => ?_, hs.rows⟩
    by_cases hj : j = idx
    · subst hj
      apply ((hs.slot j).ring _ _).setGame
      rintro w' ⟨⟩
      rw [setConn_self]
      exact hposted
    · apply ((hs.slot j).setConn_ne hj).setGame
      rintro w' ⟨⟩
      exact absurd rfl hj
  | refuse hg h =>
    rename_i g idx w m
    refine ⟨fun j => ?_, hs.rows⟩
    by_cases hj : j = idx
    · subst hj
      apply ((hs.slot j).ring _ _).setGame
      rintro w' ⟨⟩
    · apply ((hs.slot j).setConn_ne hj).setGame
      rintro w' ⟨⟩
  | mark hg =>
    refine ⟨fun j => SlotOk.setGame ((hs.slot j).dirty _) ?_, hs.rows⟩
    rintro w' ⟨⟩

/-! ### The view of a session -/

/-- A session, the next access of its owner's call, its bit in the owner's row, whether the owner
took the bit for a flush not called yet, and whether the game worker owes it a `Mark`. -/
structure View (ρ : Type) where
  conn : Conn ρ
  op : Option Op
  marked : Bool
  taken : Bool
  owed : Bool

def State.view (s : State ρ) (j : Nat) : View ρ where
  conn := s.conns j
  op := (s.net (s.conns j).owner).opOn j
  marked := s.dirty.marked (s.conns j).owner j
  taken := (s.net (s.conns j).owner).took j
  owed := (s.conns j).seatedBy.any fun g => (s.game g).owes j

inductive View.Step (B : OutRing ρ) (j : Nat) : Act → View ρ → View ρ → Prop where
  | opened {v : View ρ} {w : Nat} {fd : Int} {ok : Bool} {c : Conn ρ} (marked : Bool)
      (hc : c = v.conn.opened B w fd ∨ c = v.conn.failed B w) :
      View.Step B j (.accept w j fd ok) v ⟨c, none, marked, false, false⟩
  | start {a : Act} {v : View ρ} {op : Op} (hop : op = .flush ∨ ∃ m, op = .send m)
      (hnone : v.op = none) (hn : v.conn.netRef = true) (hd : v.conn.dead = false) :
      View.Step B j a v { v with op := some op, taken := false }
  | disconnect {a : Act} {v : View ρ} (hnone : v.op = none) :
      View.Step B j a v { v with conn := { v.conn with dead := true }, op := some .close }
  | exchange {a : Act} {v : View ρ} (htaken : v.taken = false) :
      View.Step B j a v { v with marked := false, taken := v.marked }
  | skip {a : Act} {v : View ρ} (hlive : v.conn.netRef = true → v.conn.dead = true) :
      View.Step B j a v { v with taken := false }
  | call {v : View ρ} {w : Nat} {r : Sys} {op : Op} {c : Conn ρ} {next : Option Op}
      (hop : v.op = some op) (hd : v.conn.dead = op.closing)
      (h : Op.Moves B r v.conn op c next) : View.Step B j (.net w r) v { v with conn := c, op := next }
  | seat {a : Act} {v : View ρ} (by' : Option Nat) (howed : v.owed = false) :
      View.Step B j a v { v with conn := { v.conn with seatedBy := by' } }
  | post {a : Act} {v : View ρ} {m : List UInt8}
      (h : (B.enqueue v.conn.sendQ m).1 = m.length) :
      View.Step B j a v
        { v with
          conn := { v.conn with
            sendQ := (B.enqueue v.conn.sendQ m).2
            log := v.conn.log ++ [m] }
          owed := true }
  | refuse {a : Act} {v : View ρ} {m : List UInt8}
      (h : (B.enqueue v.conn.sendQ m).1 ≠ m.length) :
      View.Step B j a v { v with conn := { v.conn with sendQ := (B.enqueue v.conn.sendQ m).2 } }
  | mark {a : Act} {v : View ρ} : View.Step B j a v { v with marked := true, owed := false }
  | noise {a : Act} {v : View ρ} (marked : Bool) (hn : v.conn.netRef = false) :
      View.Step B j a v { v with marked }

/-- The step does not concern the session. -/
theorem view_frame {j : Nat} (hconn : t.conns j = s.conns j)
    (hmarked : t.dirty.marked (s.conns j).owner j = s.dirty.marked (s.conns j).owner j)
    (hop : (t.net (s.conns j).owner).opOn j = (s.net (s.conns j).owner).opOn j)
    (htook : (t.net (s.conns j).owner).took j = (s.net (s.conns j).owner).took j)
    (howes : ∀ g, (s.conns j).seatedBy = some g → (t.game g).owes j = (s.game g).owes j) :
    t.view j = s.view j := by
  have howed : ((s.conns j).seatedBy.any fun g => (t.game g).owes j) =
      (s.conns j).seatedBy.any fun g => (s.game g).owes j := by
    cases hs : (s.conns j).seatedBy with
    | none => rfl
    | some g => exact howes g hs
  simp only [State.view, hconn, hmarked, hop, htook, howed]

section Views
variable {j idx w g : Nat} {c : Conn ρ} {pc : Pc} {po : Post}

theorem view_setNet (ho : (s.conns j).owner = w) :
    (s.setNet w pc).view j = { s.view j with op := pc.opOn j, taken := pc.took j } := by
  unfold State.view
  rw [setNet_conns, ho, setNet_self]
  rfl

theorem view_setNet_same (hop : (s.conns j).owner = w → pc.opOn j = (s.net w).opOn j)
    (htook : (s.conns j).owner = w → pc.took j = (s.net w).took j) :
    (s.setNet w pc).view j = s.view j := by
  by_cases ho : (s.conns j).owner = w
  · rw [view_setNet ho, hop ho, htook ho, ← ho]
    rfl
  · apply view_frame
    · rfl
    · rfl
    · rw [setNet_ne ho]
    · rw [setNet_ne ho]
    · exact fun _ _ => rfl

theorem view_setConn_ne (h : j ≠ idx) : (s.setConn idx c).view j = s.view j := by
  apply view_frame (setConn_ne h)
  · rfl
  · rfl
  · rfl
  · exact fun _ _ => rfl

theorem view_setConn (ho : c.owner = (s.conns idx).owner)
    (hs : c.seatedBy = (s.conns idx).seatedBy) :
    (s.setConn idx c).view idx = { s.view idx with conn := c } := by
  unfold State.view
  rw [setConn_self, ho, hs]
  rfl

theorem view_setGame_same (h : (s.conns j).seatedBy = some g → po.owes j = (s.game g).owes j) :
    (s.setGame g po).view j = s.view j := by
  apply view_frame
  · rfl
  · rfl
  · rfl
  · rfl
  · intro g' hg'
    by_cases hne : g' = g
    · subst hne
      rw [setGame_self]
      exact h hg'
    · rw [setGame_ne hne]

theorem view_setGame (hs : (s.conns j).seatedBy = some g) :
    (s.setGame g po).view j = { s.view j with owed := po.owes j } := by
  unfold State.view
  rw [setGame_conns, hs, Option.any_some, setGame_self]
  rfl

end Views

/-- Beyond the rows of the map there is no session. -/
theorem Sound.unused {j : Nat} (hs : Sound s) (hj : ¬j < 64 * s.dirty.stride) :
    (s.conns j).netRef = false := by
  have hrows := hs.rows
  cases hn : (s.conns j).netRef with
  | false => rfl
  | true =>
    have hcap := (hs.slot j).room (Or.inl hn)
    omega

/-- A session changes its game worker when that worker owes it nothing. -/
theorem view_seat {j : Nat} {by' : Option Nat}
    (hold : ∀ g, (s.conns j).seatedBy = some g → (s.game g).owes j = false)
    (hnew : ∀ g, by' = some g → (s.game g).owes j = false) :
    View.Step B j a (s.view j) ((s.setConn j { s.conns j with seatedBy := by' }).view j) := by
  have howed : (s.view j).owed = false := by
    unfold State.view
    cases hs : (s.conns j).seatedBy with
    | none => rfl
    | some g => exact hold g hs
  have howed' : (by'.any fun g => (s.game g).owes j) = (s.view j).owed := by
    rw [howed]
    cases by' with
    | none => rfl
    | some g => exact hnew g rfl
  have hview : (s.setConn j { s.conns j with seatedBy := by' }).view j =
      { s.view j with conn := { s.conns j with seatedBy := by' } } := by
    unfold State.view
    rw [setConn_self, setConn_game, howed']
    rfl
  rw [hview]
  exact .seat by' howed

theorem took_clearLowest {i j : Nat} {v : BitVec 64} (hv : v ≠ 0#64)
    (hj : j ≠ i * 64 + BitWord.lowest v) :
    (decide (j / 64 = i) && (BitWord.clearLowest v).getLsbD (j % 64)) =
      (decide (j / 64 = i) && v.getLsbD (j % 64)) := by
  rw [BitWord.getLsbD_clearLowest hv]
  by_cases hi : j / 64 = i
  · have hne : j % 64 ≠ BitWord.lowest v := by omega
    simp [hne]
  · simp [hi]

theorem took_clearLowest_self {i : Nat} {v : BitVec 64} (hv : v ≠ 0#64) :
    (BitWord.clearLowest v).getLsbD ((i * 64 + BitWord.lowest v) % 64) = false := by
  have hlt := BitWord.lowest_lt hv
  have hmod : (i * 64 + BitWord.lowest v) % 64 = BitWord.lowest v := by omega
  rw [BitWord.getLsbD_clearLowest hv, hmod]
  simp

/-- Each step of the machine is a step of the view of a session, or leaves the view alone. -/
theorem Moves.view (hs : Sound s) (h : Moves B s a t) (j : Nat) :
    t.view j = s.view j ∨ View.Step B j a (s.view j) (t.view j) := by
  have hslot := hs.slot j
  cases h with
  | opened hw hcap hfd hn hseat hc =>
    rename_i w idx fd ok c
    by_cases hj : j = idx
    · subst hj
      have ho : c.owner = w := by rcases hc with rfl | rfl <;> rfl
      have hnone : c.seatedBy = none := by rcases hc with rfl | rfl <;> rfl
      have hview : (s.setConn j c).view j = ⟨c, none, s.dirty.marked w j, false, false⟩ := by
        unfold State.view
        rw [setConn_self, setConn_net, ho, hw, hnone]
        rfl
      rw [hview]
      exact Or.inr (.opened _ hc)
    · exact Or.inl (view_setConn_ne hj)
  | start hop hw ho hn hd =>
    rename_i w idx op
    by_cases hj : j = idx
    · subst hj
      rw [view_setNet ho, opOn_call_self]
      refine Or.inr (.start hop ?_ hn hd)
      unfold State.view
      rw [ho, hw]
      rfl
    · refine Or.inl (view_setNet_same (fun _ => ?_) fun _ => ?_)
      · rw [hw, opOn_call_ne hj]
        rfl
      · rw [hw]
        rfl
  | disconnect hw ho hn hd =>
    rename_i w idx
    by_cases hj : j = idx
    · subst hj
      have htaken : (s.view j).taken = false := by
        unfold State.view
        rw [ho, hw]
        rfl
      have hsame : (Pc.call j .handler .close).took j = (s.view j).taken := htaken.symm
      rw [view_setNet, view_setConn, opOn_call_self, hsame]
      · refine Or.inr (.disconnect ?_)
        unfold State.view
        rw [ho, hw]
        rfl
      · rfl
      · rfl
      · rw [setConn_self]
        exact ho
    · left
      rw [view_setNet_same, view_setConn_ne hj]
      · intro _
        rw [setConn_net, hw, opOn_call_ne hj]
        rfl
      · intro _
        rw [setConn_net, hw]
        rfl
  | pass hop htook =>
    refine Or.inl (view_setNet_same (fun _ => ?_) fun _ => ?_)
    · rw [(hop j).1, (hop j).2]
    · rw [(htook j).1, (htook j).2]
  | exchange hw hi =>
    rename_i w i
    have hsame (h : ¬((s.conns j).owner = w ∧ j / 64 = i)) :
        ({ s with dirty := (s.dirty.exchange w i).2 }.setNet w
          (.bits i (s.dirty.exchange w i).1)).view j =
        { s.view j with marked := (s.dirty.exchange w i).2.marked (s.conns j).owner j } := by
      rw [view_setNet_same]
      · rfl
      · intro _
        rw [hw]
        rfl
      · intro ho
        have hne : j / 64 ≠ i := fun hi => h ⟨ho, hi⟩
        rw [hw]
        simp [Pc.took, hne]
    by_cases hrow : j < 64 * s.dirty.stride
    · have hmarked := @DirtyMap.marked_exchange s.dirty w (s.conns j).owner j i hi hrow
      by_cases hit : (s.conns j).owner = w ∧ j / 64 = i
      · have htook : (Pc.bits i (s.dirty.exchange w i).1).took j = (s.view j).marked := by
          simp only [Pc.took, hit.2, DirtyMap.exchange_fst hit.2, State.view, hit.1,
            decide_true, Bool.true_and]
        have hnone : (Pc.bits i (s.dirty.exchange w i).1).opOn j = (s.view j).op := by
          unfold State.view
          rw [hit.1, hw]
          rfl
        have hfalse : (s.dirty.exchange w i).2.marked (s.conns j).owner j = false := by
          rw [hmarked]
          simp [hit]
        have hdirty : ({ s with dirty := (s.dirty.exchange w i).2 } : State ρ).view j =
            { s.view j with marked := false } := by
          rw [← hfalse]
          rfl
        rw [view_setNet, htook, hnone, hdirty]
        · refine Or.inr (.exchange ?_)
          unfold State.view
          rw [hit.1, hw]
          rfl
        · exact hit.1
      · left
        rw [hsame hit, hmarked]
        simp only [hit, decide_false, Bool.not_false, Bool.and_true]
        rfl
    · rw [hsame (by omega)]
      exact Or.inr (.noise _ (hs.unused hrow))
  | flushBit hw hv hcap hf =>
    rename_i w i v
    by_cases hj : j = i * 64 + BitWord.lowest v
    · subst hj
      obtain ⟨ho, hd, hfd⟩ := flushable_iff.mp hf
      have htook : (Pc.call (i * 64 + BitWord.lowest v) (.drain i (BitWord.clearLowest v))
          .flush).took (i * 64 + BitWord.lowest v) = false := by
        simp only [Pc.took, Ret.took, took_clearLowest_self hv, Bool.and_false]
      rw [view_setNet ho, opOn_call_self, htook]
      refine Or.inr (.start (Or.inl rfl) ?_ ((hslot.fd hd).mpr hfd) hd)
      unfold State.view
      rw [ho, hw]
      rfl
    · refine Or.inl (view_setNet_same (fun _ => ?_) fun _ => ?_)
      · rw [hw, opOn_call_ne hj]
        rfl
      · rw [hw]
        exact took_clearLowest hv hj
  | skipBit hw hv hf =>
    rename_i w i v
    by_cases hj : j = i * 64 + BitWord.lowest v
    · subst hj
      by_cases ho : (s.conns (i * 64 + BitWord.lowest v)).owner = w
      · have hop : (s.view (i * 64 + BitWord.lowest v)).op = none := by
          unfold State.view
          rw [ho, hw]
          rfl
        have htook : (Pc.bits i (BitWord.clearLowest v)).took (i * 64 + BitWord.lowest v) =
            false := by
          simp only [Pc.took, took_clearLowest_self hv, Bool.and_false]
        have hsame : (Pc.bits i (BitWord.clearLowest v)).opOn (i * 64 + BitWord.lowest v) =
          (s.view (i * 64 + BitWord.lowest v)).op := hop.symm
        rw [view_setNet ho, htook, hsame]
        refine Or.inr (.skip fun hn => ?_)
        by_contra hd
        have hlive : (s.conns (i * 64 + BitWord.lowest v)).dead = false :=
          Bool.not_eq_true _ ▸ hd
        exact hf ⟨hslot.room (Or.inl hn), flushable_iff.mpr ⟨ho, hlive, (hslot.fd hlive).mp hn⟩⟩
      · exact Or.inl (view_setNet_same (fun h => absurd h ho) fun h => absurd h ho)
    · refine Or.inl (view_setNet_same (fun _ => ?_) fun _ => ?_)
      · rw [hw]
        rfl
      · rw [hw]
        exact took_clearLowest hv hj
  | call hw h =>
    rename_i w idx r ret op c next
    by_cases hj : j = idx
    · subst hj
      have hown := hslot.call w op (by rw [hw, opOn_call_self])
      have hk := h.keeps hown.2.1 hown.2.2
      have htook : (s.view j).taken = ret.took j := by
        unfold State.view
        rw [hown.1, hw]
        rfl
      rw [view_setNet (by rw [setConn_self, hk.owner, hown.1]), view_setConn hk.owner hk.seatedBy,
        opOn_resume_self, took_resume, ← htook]
      refine Or.inr (.call ?_ hown.2.2 h)
      unfold State.view
      rw [hown.1, hw, opOn_call_self]
    · left
      rw [view_setNet_same, view_setConn_ne hj]
      · intro _
        rw [setConn_net, hw, opOn_call_ne hj, opOn_resume_ne hj]
      · intro _
        rw [setConn_net, hw, took_resume]
        rfl
  | join hn hseat =>
    rename_i g idx
    by_cases hj : j = idx
    · subst hj
      right
      apply view_seat
      · rw [hseat]
        rintro g' ⟨⟩
      · rintro g' ⟨⟩
        -- nobody sends to a session without a seat
        exact hslot.owes_of_unseated hseat g
    · exact Or.inl (view_setConn_ne hj)
  | leave hg hseat =>
    rename_i g idx
    by_cases hj : j = idx
    · subst hj
      right
      apply view_seat
      · rw [hseat]
        rintro g' ⟨⟩
        rw [hg]
        rfl
      · rintro g' ⟨⟩
    · exact Or.inl (view_setConn_ne hj)
  | look hg hseat =>
    refine Or.inl (view_setGame_same fun _ => ?_)
    rw [hg]
    rfl
  | post hg h =>
    rename_i g idx w m
    by_cases hj : j = idx
    · subst hj
      have hseat := (hslot.posted g w (by rw [hg]; rfl)).1
      have howes : (Post.mark j w).owes j = true := decide_eq_true rfl
      rw [view_setGame, view_setConn, howes]
      · exact Or.inr (.post h)
      · rfl
      · rfl
      · rw [setConn_self]
        exact hseat
    · left
      rw [view_setGame_same, view_setConn_ne hj]
      intro _
      rw [setConn_game, hg]
      exact decide_eq_false (Ne.symm hj)
  | refuse hg h =>
    rename_i g idx w m
    have howes : (Post.idle).owes j = (s.game g).owes j := by
      rw [hg]
      rfl
    rw [view_setGame_same]
    · by_cases hj : j = idx
      · subst hj
        rw [view_setConn]
        · exact Or.inr (.refuse h)
        · rfl
        · rfl
      · exact Or.inl (view_setConn_ne hj)
    · exact fun _ => howes
  | mark hg =>
    rename_i g idx w
    obtain ⟨hseat, ho⟩ := (hs.slot idx).posted g w (by rw [hg]; rfl)
    have hcap : idx < s.cap := (hs.slot idx).room (Or.inr (by rw [hseat]; rintro ⟨⟩))
    have hrows := hs.rows
    by_cases hrow : j < 64 * s.dirty.stride
    · have hmarked := @DirtyMap.marked_mark s.dirty w (s.conns j).owner idx j (by omega) hrow
      by_cases hj : j = idx
      · subst hj
        have htrue : (s.dirty.mark w j).marked (s.conns j).owner j = true := by
          rw [hmarked]
          simp [ho]
        have hdirty : ({ s with dirty := s.dirty.mark w j } : State ρ).view j =
            { s.view j with marked := true } := by
          rw [← htrue]
          rfl
        rw [view_setGame, hdirty]
        · exact Or.inr .mark
        · exact hseat
      · left
        have hsame : (s.dirty.mark w idx).marked (s.conns j).owner j =
            s.dirty.marked (s.conns j).owner j := by
          rw [hmarked]
          simp [hj]
        apply view_frame
        · rfl
        · exact hsame
        · rfl
        · rfl
        · intro g' _
          by_cases hne : g' = g
          · subst hne
            rw [setGame_self, hg]
            exact (decide_eq_false (Ne.symm hj)).symm
          · rw [setGame_ne hne]
    · have hj : j ≠ idx := by omega
      rw [view_setGame_same]
      · exact Or.inr (.noise _ (hs.unused hrow))
      · intro _
        have hother : (s.game g).owes j = false := by
          rw [hg]
          exact decide_eq_false (Ne.symm hj)
        exact hother.symm

end BeltServer.Output
