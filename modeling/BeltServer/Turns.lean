import BeltServer.Logic

/-!
# What a turn does

For every phase of the step, what it does to one actor: separation moves it, its own turn
advances its state, the turn of another leaves it alone or cuts it.
-/

namespace BeltServer.Logic

set_option autoImplicit false

variable {R : Type} {n : Nat}

/-! ### States -/

section SetState
variable (a : Actor R) (st : State)

theorem setState_ne (h : a.state ≠ st) :
    setState a st = { a with state := st, stateTick := 0, hitDone := false, hitIds := [] } := by
  unfold setState
  rw [if_neg h]

@[simp] theorem setState_state : (setState a st).state = st := by
  unfold setState
  split
  · assumption
  · rfl

/-- A part of an actor that entering a state does not touch. -/
theorem setState_keeps {β : Type} {f : Actor R → β}
    (hf : ∀ a st k d l, f { a with state := st, stateTick := k, hitDone := d, hitIds := l } = f a) :
    f (setState a st) = f a := by
  unfold setState
  split
  · rfl
  · exact hf ..

@[simp] theorem setState_id : (setState a st).id = a.id := setState_keeps a st fun _ _ _ _ _ => rfl
@[simp] theorem setState_kind : (setState a st).kind = a.kind :=
  setState_keeps a st fun _ _ _ _ _ => rfl
@[simp] theorem setState_x : (setState a st).x = a.x := setState_keeps a st fun _ _ _ _ _ => rfl
@[simp] theorem setState_y : (setState a st).y = a.y := setState_keeps a st fun _ _ _ _ _ => rfl
@[simp] theorem setState_hp : (setState a st).hp = a.hp := setState_keeps a st fun _ _ _ _ _ => rfl
@[simp] theorem setState_maxHp : (setState a st).maxHp = a.maxHp :=
  setState_keeps a st fun _ _ _ _ _ => rfl
@[simp] theorem setState_face : (setState a st).face = a.face :=
  setState_keeps a st fun _ _ _ _ _ => rfl
@[simp] theorem setState_cool : (setState a st).cool = a.cool :=
  setState_keeps a st fun _ _ _ _ _ => rfl
@[simp] theorem setState_think : (setState a st).think = a.think :=
  setState_keeps a st fun _ _ _ _ _ => rfl

end SetState

theorem canAct_iff (a : Actor R) : canAct a = true ↔ a.state = .idle ∨ a.state = .walk := by
  unfold canAct
  rw [decide_eq_true_iff]

theorem strikes_iff (a : Actor R) :
    strikes a = true ↔ a.state = .attack ∧ a.hitDone = false ∧ ATK_HIT_TICK ≤ a.stateTick := by
  unfold strikes
  rw [decide_eq_true_iff]

/-! ### Places -/

def Moved (a b : Actor R) : Prop := ∃ x y, b = { a with x := x, y := y }

namespace Moved

theorem refl (a : Actor R) : Moved a a := ⟨a.x, a.y, rfl⟩

theorem trans {a b c : Actor R} (hab : Moved a b) (hbc : Moved b c) : Moved a c := by
  obtain ⟨_, _, rfl⟩ := hab
  obtain ⟨x, y, rfl⟩ := hbc
  exact ⟨x, y, rfl⟩

/-- A part of an actor that does not depend on its place. -/
theorem keeps {a b : Actor R} (h : Moved a b) {β : Type} {f : Actor R → β}
    (hf : ∀ (a : Actor R) x y, f { a with x := x, y := y } = f a) : f b = f a := by
  obtain ⟨x, y, rfl⟩ := h
  exact hf a x y

end Moved

theorem moved_update {actors : Actors R n} {i j : Fin (n + 1)} {a b : Actor R}
    (ha : Moved (actors i) a) (hb : Moved (actors j) b) (s : Fin (n + 1)) :
    Moved (actors s) (Function.update (Function.update actors i a) j b s) := by
  by_cases hj : s = j
  · rw [hj, Function.update_self]
    exact hb
  · rw [Function.update_of_ne hj]
    by_cases hi : s = i
    · rw [hi, Function.update_self]
      exact ha
    · rw [Function.update_of_ne hi]
      exact .refl _

/-- A loop whose body only moves actors only moves actors. -/
theorem foldl_moved {β : Type} {body : Actors R n → β → Actors R n}
    (h : ∀ actors b s, Moved (actors s) (body actors b s)) (l : List β) (actors : Actors R n)
    (s : Fin (n + 1)) : Moved (actors s) (l.foldl body actors s) := by
  induction l generalizing actors with
  | nil => exact .refl _
  | cons b l ih => exact (h actors b s).trans (ih _)

section Push

variable [Add R] [Sub R] [Mul R] [Div R] [Neg R] [NatCast R] [LE R] [LT R] [DecidableLE R]
  [DecidableLT R]

theorem pushApart_moved (actors : Actors R n) (i j s : Fin (n + 1)) :
    Moved (actors s) (pushApart actors i j s) := by
  unfold pushApart
  dsimp only
  split
  · exact .refl _
  · split
    · exact moved_update ⟨_, _, rfl⟩ ⟨_, _, rfl⟩ s
    · exact moved_update ⟨_, _, rfl⟩ ⟨_, _, rfl⟩ s

theorem separateFrom_moved (actors : Actors R n) (i s : Fin (n + 1)) :
    Moved (actors s) (separateFrom i actors s) := by
  unfold separateFrom
  split
  · exact .refl _
  · apply foldl_moved
    intro actors j s
    split
    · exact .refl _
    · exact pushApart_moved actors i j s

theorem separate_moved (actors : Actors R n) (s : Fin (n + 1)) :
    Moved (actors s) (separate actors s) :=
  (foldl_moved (fun actors i s => separateFrom_moved actors i s) _ actors s).trans ⟨_, _, rfl⟩

end Push

/-! ### What an actor does to itself -/

def landed (a : Actor R) : Actor R := { a with hitDone := strikes a || a.hitDone }

/-- The end of an attack or of a stagger. -/
def settled (a : Actor R) : Actor R :=
  if a.state = .attack ∧ ATK_TICKS ≤ a.stateTick ∨ a.state = .hurt ∧ HURT_TICKS ≤ a.stateTick then
    setState (landed a) .idle
  else landed a

/-- What an actor that is in no assault does to itself in its turn. -/
def ownTurn (a : Actor R) : Actor R := settled (advance a)

@[simp] theorem landed_state (a : Actor R) : (landed a).state = a.state := rfl
@[simp] theorem landed_stateTick (a : Actor R) : (landed a).stateTick = a.stateTick := rfl

theorem landed_still {a : Actor R} (h : a.state ≠ .attack) : landed a = a := by
  have hno : strikes a = false := by simp [strikes, h]
  unfold landed
  rw [hno, Bool.false_or]

section Leave
variable (actors : Actors R n) (i : Fin (n + 1))

theorem leave_self : leave actors i i = setState (actors i) .idle := Function.update_self ..

theorem leave_other {j : Fin (n + 1)} (hij : j ≠ i) : leave actors i j = actors j :=
  Function.update_of_ne hij ..

end Leave

section Arithmetic

variable [Add R] [Mul R] [NatCast R] [IntCast R] [LT R] [DecidableLT R]

/-! ### Cuts -/

section Struck
variable (face dmg : Int) (knock : Nat) (t : Actor R)

theorem struck_hp : (struck face dmg knock t).hp = if t.hp - dmg ≤ 0 then 0 else t.hp - dmg := by
  unfold struck
  split
  · exact setState_hp ..
  · exact setState_hp ..

theorem struck_state :
    (struck face dmg knock t).state = if t.hp - dmg ≤ 0 then .dead else .hurt := by
  unfold struck
  split
  · exact setState_state ..
  · exact setState_state ..

/-- A part of an actor that a cut does not touch. -/
theorem struck_keeps {β : Type} {f : Actor R → β}
    (hst : ∀ a st k d l, f { a with state := st, stateTick := k, hitDone := d, hitIds := l } = f a)
    (hhp : ∀ a v, f { a with hp := v } = f a)
    (hx : ∀ a v w, f { a with x := v, face := w } = f a) :
    f (struck face dmg knock t) = f t := by
  unfold struck
  split
  · rw [setState_keeps _ _ hst, hhp]
  · rw [hx, setState_keeps _ _ hst, hhp]

@[simp] theorem struck_id : (struck face dmg knock t).id = t.id :=
  struck_keeps _ _ _ _ (fun _ _ _ _ _ => rfl) (fun _ _ => rfl) fun _ _ _ => rfl
@[simp] theorem struck_kind : (struck face dmg knock t).kind = t.kind :=
  struck_keeps _ _ _ _ (fun _ _ _ _ _ => rfl) (fun _ _ => rfl) fun _ _ _ => rfl
@[simp] theorem struck_maxHp : (struck face dmg knock t).maxHp = t.maxHp :=
  struck_keeps _ _ _ _ (fun _ _ _ _ _ => rfl) (fun _ _ => rfl) fun _ _ _ => rfl
@[simp] theorem struck_cool : (struck face dmg knock t).cool = t.cool :=
  struck_keeps _ _ _ _ (fun _ _ _ _ _ => rfl) (fun _ _ => rfl) fun _ _ _ => rfl
@[simp] theorem struck_think : (struck face dmg knock t).think = t.think :=
  struck_keeps _ _ _ _ (fun _ _ _ _ _ => rfl) (fun _ _ => rfl) fun _ _ _ => rfl

/-- A target that was neither dead nor hurt starts its new state at tick 0. -/
theorem struck_fresh (hhurt : t.state ≠ .hurt) (hdead : t.state ≠ .dead) :
    (struck face dmg knock t).stateTick = 0 ∧ (struck face dmg knock t).hitIds = [] := by
  unfold struck
  split
  · rw [setState_ne { t with hp := 0 } .dead hdead]
    exact ⟨rfl, rfl⟩
  · dsimp only
    rw [setState_ne { t with hp := t.hp - dmg } .hurt hhurt]
    exact ⟨rfl, rfl⟩

end Struck

def noted (caster : Actor R) (ids : List Nat) : Actor R :=
  { caster with hitIds := caster.hitIds ++ ids }

/-- The actors after a dash of `i` that cuts those of `cut`. -/
def cutDown (sk : Skill) (actors : Actors R n) (i : Fin (n + 1)) (cut : List (Fin (n + 1))) :
    Actors R n := fun j =>
  if j = i then noted (actors i) (cut.map fun j => (actors j).id)
  else if j ∈ cut then struck (actors i).face sk.dmg sk.knock (actors j)
  else actors j

section CutDown
variable (sk : Skill) (actors : Actors R n) (i : Fin (n + 1))

theorem cutDown_self (cut : List (Fin (n + 1))) :
    cutDown sk actors i cut i = noted (actors i) (cut.map fun j => (actors j).id) := if_pos rfl

theorem cutDown_cut {cut : List (Fin (n + 1))} {j : Fin (n + 1)} (hij : j ≠ i) (hcut : j ∈ cut) :
    cutDown sk actors i cut j = struck (actors i).face sk.dmg sk.knock (actors j) := by
  unfold cutDown
  rw [if_neg hij, if_pos hcut]

theorem cutDown_other {cut : List (Fin (n + 1))} {j : Fin (n + 1)} (hij : j ≠ i) (hcut : j ∉ cut) :
    cutDown sk actors i cut j = actors j := by
  unfold cutDown
  rw [if_neg hij, if_neg hcut]

theorem cutDown_nil : cutDown sk actors i [] = actors := by
  funext j
  by_cases hij : j = i
  · rw [hij, cutDown_self]
    simp [noted]
  · exact cutDown_other sk actors i hij List.not_mem_nil

end CutDown

/-! ### Blows -/

def Swung (a t t' : Actor R) : Prop :=
  t' = t ∨ (strikes a = true ∧ t.kind ≠ a.kind ∧ t.state ≠ .dead ∧ t.state ≠ .hurt ∧
    ∃ face, t' = struck face 1 KNOCK_X t)

variable [Sub R] [Neg R]

theorem resolveHit_self (actors : Actors R n) (i : Fin (n + 1)) (range depth : Nat) (dmg : Int) :
    resolveHit actors i range depth dmg i = actors i := by
  unfold resolveHit
  exact if_pos rfl

/-- The target of a blow is cut only if it is alive, an enemy and not hurt. -/
theorem hitAt_cases (attacker : Actor R) (x0 x1 : R) (depth : Nat) (dmg : Int) (t : Actor R) :
    hitAt attacker x0 x1 depth dmg t = t ∨
      (t.kind ≠ attacker.kind ∧ t.state ≠ .dead ∧ t.state ≠ .hurt ∧
        hitAt attacker x0 x1 depth dmg t = struck attacker.face dmg KNOCK_X t) := by
  unfold hitAt
  split_ifs with hdead hkind hhurt hbox hdepth
  · exact Or.inl rfl
  · exact Or.inl rfl
  · exact Or.inl rfl
  · exact Or.inl rfl
  · exact Or.inl rfl
  · exact Or.inr ⟨hkind, hdead, hhurt, rfl⟩

section Blow
variable (actors : Actors R n) (i : Fin (n + 1))

theorem blow_self : blow actors i i = landed (actors i) := by
  unfold blow landed
  split
  · rename_i hstrikes
    rw [hstrikes, Bool.true_or]
    dsimp only
    split
    · rw [resolveHit_self, Function.update_self]
    · rw [resolveHit_self, Function.update_self]
  · rename_i hstrikes
    rw [Bool.not_eq_true] at hstrikes
    rw [hstrikes, Bool.false_or]

theorem blow_other {j : Fin (n + 1)} (hij : j ≠ i) :
    Swung (actors i) (actors j) (blow actors i j) := by
  unfold blow
  dsimp only
  split
  · rename_i hstrikes
    have hland (range depth : Nat) (a : Actor R) (ha : a.kind = (actors i).kind) :
        Swung (actors i) (actors j)
          (resolveHit (Function.update actors i a) i range depth 1 j) := by
      unfold resolveHit
      rw [if_neg hij, Function.update_of_ne hij, Function.update_self]
      rcases hitAt_cases a _ _ depth 1 (actors j) with hsame | ⟨hkind, hdead, hhurt, hcut⟩
      · exact Or.inl hsame
      · rw [ha] at hkind
        exact Or.inr ⟨hstrikes, hkind, hdead, hhurt, _, hcut⟩
    split
    · exact hland _ _ _ rfl
    · exact hland _ _ _ rfl
  · exact Or.inl rfl

end Blow

/-! ### A dash -/

/-- Whether a dash of actor `i` over the way from `x0` to `x1` cuts actor `j`. -/
def cuts (sk : Skill) (actors : Actors R n) (i : Fin (n + 1)) (x0 x1 : R) (j : Fin (n + 1)) : Bool :=
  j ≠ i ∧ (actors j).state ≠ .dead ∧ (actors j).kind ≠ (actors i).kind ∧
    (actors j).id ∉ (actors i).hitIds ∧ ¬((actors j).x < x0 ∨ x1 < (actors j).x) ∧
    ¬(sk.depth : R) < mathAbs ((actors j).y - (actors i).y)

section Dash
variable (sk : Skill) (actors : Actors R n) (i : Fin (n + 1)) (x0 x1 : R)

theorem dashAt_eq (s : Actors R n × Nat) (j : Fin (n + 1)) :
    dashAt sk i x0 x1 s j = if cuts sk s.1 i x0 x1 j then
      (Function.update (Function.update s.1 i (noted (s.1 i) [(s.1 j).id])) j
        (struck (s.1 i).face sk.dmg sk.knock (s.1 j)), s.2 + 1) else s := by
  unfold dashAt cuts
  dsimp only
  split_ifs with hdead hkind hhit hbox hdepth
  all_goals simp_all [noted]

/-- The actors not yet visited are judged as before the loop. -/
theorem cuts_cutDown (hids : Function.Injective fun j => (actors j).id)
    {cut : List (Fin (n + 1))} {j : Fin (n + 1)} (hj : j ∉ cut) :
    cuts sk (cutDown sk actors i cut) i x0 x1 j = cuts sk actors i x0 x1 j := by
  unfold cuts
  rw [cutDown_self]
  apply Bool.decide_congr
  apply and_congr_right
  intro hij
  have hfresh : (actors j).id ∉ cut.map fun j => (actors j).id := by
    intro hmem
    obtain ⟨k, hk, heq⟩ := List.mem_map.mp hmem
    rw [hids heq] at hk
    exact hj hk
  rw [cutDown_other sk actors i hij hj]
  simp only [noted, List.mem_append, hfresh, or_false]

/-- The loop of `resolveDash`, as far as `l`: the invariant of its induction. -/
theorem foldl_dashAt (hids : Function.Injective fun j => (actors j).id) (l : List (Fin (n + 1)))
    (hl : l.Nodup) :
    l.foldl (dashAt sk i x0 x1) (actors, 0) =
      (cutDown sk actors i (l.filter (cuts sk actors i x0 x1)),
        (l.filter (cuts sk actors i x0 x1)).length) := by
  induction l using List.reverseRecOn with
  | nil =>
    simp only [List.foldl_nil, List.filter_nil, List.length_nil, cutDown_nil]
  | append_singleton l j ih =>
    obtain ⟨hl, hj⟩ : l.Nodup ∧ j ∉ l := by
      rw [List.nodup_append] at hl
      exact ⟨hl.1, fun hmem => hl.2.2 j hmem j List.mem_cons_self rfl⟩
    have hjcut : j ∉ l.filter (cuts sk actors i x0 x1) := fun hmem => hj (List.mem_filter.mp hmem).1
    rw [List.foldl_append, ih hl, List.foldl_cons, List.foldl_nil, dashAt_eq,
      cuts_cutDown sk actors i x0 x1 hids hjcut, List.filter_append]
    generalize l.filter (cuts sk actors i x0 x1) = cut at hjcut ⊢
    cases hcut : cuts sk actors i x0 x1 j with
    | false => simp [hcut]
    | true =>
      have hij : j ≠ i := by
        unfold cuts at hcut
        exact (decide_eq_true_iff.mp hcut).1
      rw [if_pos rfl, List.filter_cons_of_pos hcut, List.filter_nil]
      refine Prod.ext (funext fun s => ?_) (by simp)
      dsimp only
      rw [cutDown_self, cutDown_other sk actors i hij hjcut]
      by_cases hsj : s = j
      · rw [hsj, Function.update_self, cutDown_cut sk actors i hij (by simp)]
        rfl
      · rw [Function.update_of_ne hsj]
        by_cases hsi : s = i
        · rw [hsi, Function.update_self, cutDown_self]
          simp [noted]
        · rw [Function.update_of_ne hsi]
          unfold cutDown
          simp [hsi, hsj]

variable [LE R] [DecidableLE R]

def cutFrom (fromX : R) : List (Fin (n + 1)) :=
  let tip := (actors i).x + ((actors i).face : R) * (sk.range : R)
  (List.finRange (n + 1)).filter (cuts sk actors i (mathMin fromX tip) (mathMax fromX tip))

theorem cutFrom_nodup (fromX : R) : (cutFrom sk actors i fromX).Nodup :=
  (List.nodup_finRange _).filter _

theorem resolveDash_eq (hids : Function.Injective fun j => (actors j).id) (fromX : R) :
    resolveDash sk actors i fromX =
      (cutDown sk actors i (cutFrom sk actors i fromX), (cutFrom sk actors i fromX).length) :=
  foldl_dashAt sk actors i _ _ hids _ (List.nodup_finRange _)

end Dash

/-- The caster after a turn of its assault: it is at `x` and has noted the ids it cut. -/
def dashed (a : Actor R) (x : R) (ids : List Nat) : Actor R :=
  { a with
    x := x
    stateTick := a.stateTick + 1
    hitIds := a.hitIds ++ ids
    lastSkillHit := a.lastSkillHit + ids.length }

def dashEnd (sk : Skill) (a : Actor R) : Actor R :=
  if sk.ticks ≤ a.stateTick then setState a .idle else a

structure DashTurn (sk : Skill) (actors actors' : Actors R n) (i : Fin (n + 1))
    (cut : List (Fin (n + 1))) : Prop where
  nodup : cut.Nodup
  enemy : ∀ j ∈ cut, j ≠ i ∧ (actors j).state ≠ .dead ∧ (actors j).kind ≠ (actors i).kind ∧
    (actors j).id ∉ (actors i).hitIds
  caster : ∃ x, actors' i =
    dashEnd sk (dashed (actors i) x (cut.map fun j => (actors j).id))
  others : ∀ j ≠ i, actors' j =
    if j ∈ cut then struck (actors i).face sk.dmg sk.knock (actors j) else actors j

/-! ### A turn outside of an assault -/

variable [LE R] [DecidableLE R] [Div R]

section Turn
variable (sk : Skill) (actors : Actors R n) (i : Fin (n + 1))

theorem act_self (h : (actors i).state ≠ .skill) : act sk actors i i = settled (actors i) := by
  unfold act settled
  cases hst : (actors i).state with
  | attack =>
    simp only [blow_self, landed_stateTick, reduceCtorEq, false_and, or_false, true_and]
    split
    · rw [leave_self, blow_self]
    · exact blow_self actors i
  | hurt =>
    rw [landed_still (by simp [hst])]
    simp only [reduceCtorEq, false_and, false_or, true_and]
    split
    · exact leave_self actors i
    · rfl
  | skill => exact absurd hst h
  | idle =>
    rw [landed_still (by simp [hst])]
    simp
  | walk =>
    rw [landed_still (by simp [hst])]
    simp
  | dead =>
    rw [landed_still (by simp [hst])]
    simp

theorem act_other (h : (actors i).state ≠ .skill) {j : Fin (n + 1)} (hij : j ≠ i) :
    Swung (actors i) (actors j) (act sk actors i j) := by
  unfold act
  cases hst : (actors i).state with
  | attack =>
    dsimp only
    split
    · rw [leave_other _ _ hij]
      exact blow_other actors i hij
    · exact blow_other actors i hij
  | hurt =>
    apply Or.inl
    dsimp only
    split
    · exact leave_other _ _ hij
    · rfl
  | skill => exact absurd hst h
  | idle => exact Or.inl rfl
  | walk => exact Or.inl rfl
  | dead => exact Or.inl rfl

theorem turn_self (h : (actors i).state ≠ .skill) : turn sk actors i i = ownTurn (actors i) := by
  unfold turn ownTurn
  rw [act_self, Function.update_self]
  rw [Function.update_self]
  exact h

theorem turn_other (h : (actors i).state ≠ .skill) {j : Fin (n + 1)} (hij : j ≠ i) :
    Swung (advance (actors i)) (actors j) (turn sk actors i j) := by
  have hact := act_other sk (Function.update actors i (advance (actors i))) i
    (by rw [Function.update_self]; exact h) hij
  rw [Function.update_self, Function.update_of_ne hij] at hact
  exact hact

end Turn

/-! ### A turn in an assault -/

theorem act_skill (sk : Skill) (actors : Actors R n) (i : Fin (n + 1))
    (h : (actors i).state = .skill) :
    act sk actors i =
      let actors := if (actors i).stateTick ≤ sk.blinkTicks then blink sk actors i else actors
      if sk.ticks ≤ (actors i).stateTick then leave actors i else actors := by
  unfold act
  rw [h]

def blinkCut (sk : Skill) (actors : Actors R n) (i : Fin (n + 1)) : List (Fin (n + 1)) :=
  cutFrom sk (Function.update actors i (blinkTo sk (actors i))) i (actors i).x

theorem mem_blinkCut {sk : Skill} {actors : Actors R n} {i j : Fin (n + 1)} :
    j ∈ blinkCut sk actors i ↔
      let tip := (blinkTo sk (actors i)).x + ((actors i).face : R) * (sk.range : R)
      j ≠ i ∧ (actors j).state ≠ .dead ∧ (actors j).kind ≠ (actors i).kind ∧
        (actors j).id ∉ (actors i).hitIds ∧
        ¬((actors j).x < mathMin (actors i).x tip ∨ mathMax (actors i).x tip < (actors j).x) ∧
        ¬(sk.depth : R) < mathAbs ((actors j).y - (actors i).y) := by
  unfold blinkCut cutFrom cuts
  rw [List.mem_filter, decide_eq_true_iff, and_iff_right (List.mem_finRange j)]
  apply and_congr_right
  intro hij
  rw [Function.update_of_ne hij, Function.update_self]
  rfl

theorem blink_eq (sk : Skill) (actors : Actors R n) (i : Fin (n + 1))
    (hids : Function.Injective fun j => (actors j).id) :
    (∀ j ≠ i, blink sk actors i j =
      if j ∈ blinkCut sk actors i then struck (actors i).face sk.dmg sk.knock (actors j)
      else actors j) ∧
    blink sk actors i i =
      { blinkTo sk (actors i) with
        hitIds := (actors i).hitIds ++ (blinkCut sk actors i).map fun j => (actors j).id
        lastSkillHit := (actors i).lastSkillHit + (blinkCut sk actors i).length } := by
  let moved := Function.update actors i (blinkTo sk (actors i))
  have hself : moved i = blinkTo sk (actors i) := Function.update_self ..
  have hother (j : Fin (n + 1)) (hij : j ≠ i) : moved j = actors j := Function.update_of_ne hij ..
  have hid (j : Fin (n + 1)) : (moved j).id = (actors j).id := by
    by_cases hij : j = i
    · rw [hij, hself]
      rfl
    · rw [hother j hij]
  have hmoved : Function.Injective fun j => (moved j).id := by
    intro j k heq
    apply hids
    dsimp only at heq
    rw [hid, hid] at heq
    exact heq
  have hblink : blink sk actors i = Function.update (cutDown sk moved i (blinkCut sk actors i)) i
      { cutDown sk moved i (blinkCut sk actors i) i with
        lastSkillHit := (cutDown sk moved i (blinkCut sk actors i) i).lastSkillHit +
          (blinkCut sk actors i).length } := by
    unfold blink
    rw [resolveDash_eq sk moved i hmoved]
    rfl
  constructor
  · intro j hij
    rw [hblink, Function.update_of_ne hij]
    unfold cutDown
    rw [if_neg hij, hself, hother j hij]
    rfl
  · rw [hblink, Function.update_self, cutDown_self, hself]
    simp only [hid, noted]
    rfl

theorem turn_skill (sk : Skill) (actors : Actors R n) (i : Fin (n + 1))
    (hids : Function.Injective fun j => (actors j).id) (h : (actors i).state = .skill) :
    ∃ cut, DashTurn sk actors (turn sk actors i) i cut := by
  let counted := Function.update actors i (advance (actors i))
  have hself : counted i = advance (actors i) := Function.update_self ..
  have hother (j : Fin (n + 1)) (hij : j ≠ i) : counted j = actors j := Function.update_of_ne hij ..
  have hid (j : Fin (n + 1)) : (counted j).id = (actors j).id := by
    by_cases hij : j = i
    · rw [hij, hself]
      rfl
    · rw [hother j hij]
  -- the end of the motion only concerns the caster
  have hend (after : Actors R n) (x : R) (cut : List (Fin (n + 1))) (hnodup : cut.Nodup)
      (henemy : ∀ j ∈ cut, j ≠ i ∧ (actors j).state ≠ .dead ∧
        (actors j).kind ≠ (actors i).kind ∧ (actors j).id ∉ (actors i).hitIds)
      (hcaster : after i = dashed (actors i) x (cut.map fun j => (actors j).id))
      (hafter : ∀ j ≠ i, after j =
        if j ∈ cut then struck (actors i).face sk.dmg sk.knock (actors j) else actors j) :
      DashTurn sk actors (if sk.ticks ≤ (after i).stateTick then leave after i else after) i cut := by
    refine ⟨hnodup, henemy, ⟨x, ?_⟩, fun j hij => ?_⟩
    · unfold dashEnd
      rw [← hcaster]
      split
      · exact leave_self after i
      · rfl
    · rw [← hafter j hij]
      split
      · exact leave_other after i hij
      · rfl
  unfold turn
  rw [act_skill sk counted i (by rw [hself]; exact h)]
  dsimp only
  split
  · obtain ⟨hafter, hcaster⟩ := blink_eq sk counted i (by
      intro j k heq
      apply hids
      dsimp only at heq
      rw [hid, hid] at heq
      exact heq)
    rw [hself] at hafter hcaster
    refine ⟨_, hend _ (blinkTo sk (advance (actors i))).x (blinkCut sk counted i)
      (cutFrom_nodup ..) ?_ ?_ ?_⟩
    · intro j hj
      obtain ⟨hij, hdead, hkind, hnew, _⟩ := mem_blinkCut.mp hj
      rw [hother j hij] at hdead hkind hnew
      rw [hself] at hkind hnew
      exact ⟨hij, hdead, hkind, hnew⟩
    · rw [hcaster]
      simp only [hid]
      unfold dashed
      rw [List.length_map]
      rfl
    · intro j hij
      rw [hafter j hij, hother j hij]
      rfl
  · refine ⟨[], hend _ (actors i).x [] List.nodup_nil (by simp) ?_ ?_⟩
    · rw [hself]
      unfold dashed advance
      simp
    · intro j hij
      rw [hother j hij, if_neg List.not_mem_nil]

end Arithmetic

end BeltServer.Logic
