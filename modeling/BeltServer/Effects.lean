import BeltServer.Lib.Countdown
import BeltServer.Solo
import Mathlib.Algebra.BigOperators.Group.Finset.Basic
import Mathlib.Algebra.Group.Action.Defs
import Mathlib.Algebra.Order.BigOperators.Group.Finset
import Mathlib.Data.Int.Interval

/-!
# The effects of the page that plays alone

What `game.js` keeps for the drawing stays what can be drawn: a column within the sheet for every
actor and every trace, few traces, and a flash that tells when health was last seen to fall.
-/

namespace BeltServer.Logic

set_option autoImplicit false

open Runs

variable {R : Type} {n : Nat}

/-! ### Columns -/

theorem sheet_columns {kind : Kind} {st : State} {count per : Nat}
    (h : SHEETS kind st = some (count, per)) : 0 < count ∧ 0 < per := by
  cases kind with
  | player =>
    cases st <;> cases h <;> decide
  | orc =>
    cases st <;> cases h <;> decide

theorem Role.sheet {j : Fin (n + 1)} {a : Actor R} (h : Role j a) :
    ∃ count per, SHEETS a.kind a.state = some (count, per) := by
  cases hkind : a.kind with
  | player => cases a.state <;> exact ⟨_, _, rfl⟩
  | orc =>
    have hj : j ≠ 0 := by
      intro hj
      have hplayer := h.kind
      rw [if_pos hj, hkind] at hplayer
      cases hplayer
    have hst := h.skill hj
    cases hstate : a.state with
    | skill => exact absurd hstate hst
    | idle => exact ⟨_, _, rfl⟩
    | walk => exact ⟨_, _, rfl⟩
    | attack => exact ⟨_, _, rfl⟩
    | hurt => exact ⟨_, _, rfl⟩
    | dead => exact ⟨_, _, rfl⟩

theorem frameIndex_lt {a : Actor R} {count per : Nat}
    (h : SHEETS a.kind a.state = some (count, per)) : ∃ i, frameIndex a = some i ∧ i < count := by
  have hcount := (sheet_columns h).1
  unfold frameIndex
  rw [h]
  refine ⟨_, rfl, ?_⟩
  dsimp only
  split
  · omega
  · exact Nat.mod_lt _ hcount

/-- An assault shows the second half of its sheet. -/
theorem frameIndex_skill {a : Actor R} {i : Nat} (hst : a.state = .skill)
    (hi : frameIndex a = some i) : SKILL_SKIP ≤ i ∧ i < 6 := by
  unfold frameIndex at hi
  rw [hst] at hi
  cases hkind : a.kind with
  | player =>
    rw [hkind] at hi
    simp only [SHEETS, Option.map_some, Option.some.injEq] at hi
    simp at hi
    unfold SKILL_SKIP at *
    omega
  | orc =>
    rw [hkind] at hi
    cases hi

/-! ### Traces -/

def aged (l : List Int) : List Int := (l.map (· - 1)).filter fun k => decide (0 < k)

theorem aged_count (l : List Int) {k : Int} (hk : 0 < k) : (aged l).count k = l.count (k + 1) := by
  unfold aged
  rw [List.count_filter (p := fun k => decide (0 < k)) (decide_eq_true hk)]
  induction l with
  | nil => rfl
  | cons a l ih =>
    rw [List.map_cons, List.count_cons, List.count_cons, ih]
    congr 1
    have hiff : a - 1 = k ↔ a = k + 1 := by omega
    simp only [beq_iff_eq, hiff]

theorem aged_pos {l : List Int} {k : Int} (h : k ∈ aged l) : 1 ≤ k ∧ k + 1 ∈ l := by
  obtain ⟨hmem, hpos⟩ := List.mem_filter.mp h
  obtain ⟨a, ha, rfl⟩ := List.mem_map.mp hmem
  have hlt := of_decide_eq_true hpos
  rw [Int.sub_add_cancel]
  exact ⟨hlt, ha⟩

/-- A list whose entries are at most `m`, each at most `c` times. -/
theorem length_le_of_count {l : List Int} {m c : Nat} (hbound : ∀ k ∈ l, 1 ≤ k ∧ k ≤ m)
    (hcount : ∀ k, l.count k ≤ c) : l.length ≤ m * c := by
  have hsum : ∑ k ∈ Finset.Icc 1 (m : Int), (l : Multiset Int).count k =
      (l : Multiset Int).card :=
    Multiset.sum_count_eq_card fun k hk => Finset.mem_Icc.mpr (hbound k hk)
  have hle : ∑ k ∈ Finset.Icc 1 (m : Int), (l : Multiset Int).count k ≤
      (Finset.Icc 1 (m : Int)).card * c := by
    rw [← smul_eq_mul]
    apply Finset.sum_le_card_nsmul
    intro k _
    rw [Multiset.coe_count]
    exact hcount k
  rw [hsum, Int.card_Icc, Int.add_sub_cancel, Int.toNat_natCast] at hle
  exact hle

def Game.lives (g : Game R n) : List Int := g.ghosts.map Ghost.life

section Drawing
variable {imgs : Kind × State → Picture} {l : List (Ghost R)}

/-- Whether it gets through or not, the drawing changes nothing of a trace but its life. -/
theorem mem_drawGhosts {x : Ghost R} (hx : x ∈ Game.drawGhosts imgs l) :
    ∃ y ∈ l, x.img = y.img ∧ x.sx = y.sx := by
  have haged (l : List (Ghost R)) (hx : x ∈ (Game.ageGhosts imgs l).1) :
      ∃ y ∈ l, x.img = y.img ∧ x.sx = y.sx := by
    induction l with
    | nil => cases hx
    | cons y l ih =>
      unfold Game.ageGhosts at hx
      split at hx
      · exact ⟨x, hx, rfl, rfl⟩
      · rcases List.mem_cons.mp hx with rfl | hx
        · exact ⟨y, List.mem_cons_self .., rfl, rfl⟩
        · obtain ⟨y', hy', hsame⟩ := ih hx
          exact ⟨y', List.mem_cons_of_mem y hy', hsame⟩
  unfold Game.drawGhosts at hx
  split at hx
  · exact haged l (List.mem_filter.mp hx).1
  · exact haged l hx

theorem ageGhosts_eq (h : ∀ x ∈ l, imgs x.img ≠ .broken) :
    Game.ageGhosts imgs l = (l.map fun x => { x with life := x.life - 1 }, true) := by
  induction l with
  | nil => rfl
  | cons x l ih =>
    have hrest := ih fun y hy => h y (List.mem_cons_of_mem x hy)
    unfold Game.ageGhosts
    rw [if_neg (h x (List.mem_cons_self ..)), hrest]
    rfl

theorem drawGhosts_lives (h : ∀ x ∈ l, imgs x.img ≠ .broken) :
    (Game.drawGhosts imgs l).map Ghost.life = aged (l.map Ghost.life) := by
  unfold Game.drawGhosts aged
  rw [ageGhosts_eq h, if_pos rfl]
  dsimp only
  clear h
  induction l with
  | nil => rfl
  | cons x l ih =>
    rw [List.map_cons, List.map_cons, List.map_cons, List.filter_cons, List.filter_cons, ← ih]
    split
    · rfl
    · rfl

end Drawing

/-! ### What can be drawn -/

structure Decor (g : Game R n) : Prop where
  cast : Cast g.world.actors
  column : ∀ x ∈ g.ghosts, x.img = (.player, .skill) ∧
    ∃ i, SKILL_SKIP ≤ i ∧ i < 6 ∧ x.sx = i * FRAME
  flash : ∀ id k, g.flash id = some k → 1 ≤ k ∧ k ≤ 6
  shake : g.shake = 0 ∨ 4 / 10 ≤ g.shake ∧ g.shake ≤ 9

namespace Decor

variable {g : Game R n} {imgs : Kind × State → Picture}

theorem pushGhost (h : Decor g) {a : Actor R} (hkind : a.kind = .player) (hst : a.state = .skill) :
    Decor (g.pushGhost imgs a) := by
  unfold Game.pushGhost
  split
  · exact h
  · rename_i i hi
    split
    · exact h
    · refine ⟨h.cast, fun x hx => ?_, h.flash, h.shake⟩
      rcases List.mem_append.mp hx with hx | hx
      · exact h.column x hx
      · obtain ⟨hlo, hhi⟩ := frameIndex_skill hst hi
        rw [List.mem_singleton.mp hx]
        exact ⟨Prod.ext hkind hst, i, hlo, hhi, rfl⟩

theorem noticeHit (h : ∀ id k, g.flash id = some k → 1 ≤ k ∧ k ≤ 7)
    (hshake : g.shake = 0 ∨ 4 / 10 ≤ g.shake ∧ g.shake ≤ 9) (a : Actor R) :
    (∀ id k, (g.noticeHit a).flash id = some k → 1 ≤ k ∧ k ≤ 7) ∧
      ((g.noticeHit a).shake = 0 ∨ 4 / 10 ≤ (g.noticeHit a).shake ∧ (g.noticeHit a).shake ≤ 9) := by
  unfold Game.noticeHit
  dsimp only
  cases (g.prevHp a.id).any fun p => decide (a.hp < p) with
  | false => exact ⟨h, hshake⟩
  | true =>
    refine ⟨fun id k hk => ?_, Or.inr ?_⟩
    · rw [if_pos rfl, Function.update_apply] at hk
      split at hk
      · cases hk
        omega
      · exact h id k hk
    · rw [if_pos rfl]
      constructor
      · apply le_max_of_le_right
        split <;> norm_num
      · apply max_le
        · rcases hshake with hzero | ⟨-, hle⟩
          · linarith
          · exact hle
        · split <;> norm_num

theorem noticeHits (l : List (Actor R)) {g : Game R n}
    (h : ∀ id k, g.flash id = some k → 1 ≤ k ∧ k ≤ 7)
    (hshake : g.shake = 0 ∨ 4 / 10 ≤ g.shake ∧ g.shake ≤ 9) :
    (∀ id k, (l.foldl Game.noticeHit g).flash id = some k → 1 ≤ k ∧ k ≤ 7) ∧
      ((l.foldl Game.noticeHit g).shake = 0 ∨
        4 / 10 ≤ (l.foldl Game.noticeHit g).shake ∧ (l.foldl Game.noticeHit g).shake ≤ 9) := by
  induction l generalizing g with
  | nil => exact ⟨h, hshake⟩
  | cons a l ih =>
    obtain ⟨hflash, hshake⟩ := noticeHit h hshake a
    exact ih hflash hshake

theorem detectHits (h : Decor g) : Decor g.detectHits := by
  have halike := g.detectHits_alike
  obtain ⟨hflash, hshake⟩ := noticeHits (List.ofFn g.world.actors)
    (fun id k hk => ⟨(h.flash id k hk).1, Nat.le_succ_of_le (h.flash id k hk).2⟩) h.shake
  refine ⟨?_, ?_, ?_, hshake⟩
  · rw [halike.world]
    exact h.cast
  · rw [halike.ghosts]
    exact h.column
  · intro id k hk
    obtain ⟨hpos, hbefore⟩ := (Countdown.fade_eq_some _).mp hk
    have hle := (hflash id (k + 1) hbefore).2
    exact ⟨hpos, Nat.le_of_succ_le_succ hle⟩

theorem drawn (h : Decor g) : Decor (g.drawn imgs) := by
  refine ⟨h.cast, fun x hx => ?_, h.flash, ?_⟩
  · obtain ⟨y, hy, himg, hsx⟩ := mem_drawGhosts hx
    rw [himg, hsx]
    exact h.column y hy
  · unfold Game.drawn
    dsimp only
    rcases h.shake with hzero | ⟨hlo, hhi⟩
    · rw [hzero, if_neg (lt_irrefl 0)]
      exact Or.inl rfl
    · rw [if_pos (by linarith)]
      split
      · exact Or.inl rfl
      · refine Or.inr ⟨by linarith, ?_⟩
        linarith

end Decor

/-! ### How many traces there are -/

def Unbroken : GameAct → Game R n → Prop
  | .frame _ _ imgs, _ => imgs (.player, .skill) ≠ .broken
  | .restart, _ => True

/-- In a frame after `m` turns of the inner loop. -/
structure Sparse (m : Nat) (g : Game R n) : Prop where
  life : ∀ k ∈ g.lives, 1 ≤ k ∧ k ≤ 14
  crowd : ∀ k < 14, g.lives.count k ≤ 15
  news : g.lives.count 14 ≤ m

namespace Sparse

variable {m : Nat} {g g' : Game R n} {imgs : Kind × State → Picture}

theorem of_ghosts (h : Sparse m g) (heq : g'.ghosts = g.ghosts) : Sparse m g' := by
  have hlives : g'.lives = g.lives := congrArg (List.map Ghost.life) heq
  exact ⟨hlives ▸ h.life, hlives ▸ h.crowd, hlives ▸ h.news⟩

theorem mono (h : Sparse m g) : Sparse (m + 1) g := ⟨h.life, h.crowd, Nat.le_succ_of_le h.news⟩

theorem pushGhost (h : Sparse m g) (a : Actor R) : Sparse (m + 1) (g.pushGhost imgs a) := by
  unfold Game.pushGhost
  split
  · exact h.mono
  · split
    · exact h.mono
    · have hlives (x : Ghost R) (hx : x.life = 14) :
          ({ g with ghosts := g.ghosts ++ [x] } : Game R n).lives = g.lives ++ [14] := by
        unfold Game.lives
        rw [List.map_append, ← hx]
        rfl
      refine ⟨?_, ?_, ?_⟩
      · rw [hlives _ rfl]
        intro k hk
        rcases List.mem_append.mp hk with hk | hk
        · exact h.life k hk
        · rw [List.mem_singleton.mp hk]
          exact ⟨by decide, le_refl 14⟩
      · intro k hk
        have hother : k ∉ [14] := fun hmem => hk.ne (List.mem_singleton.mp hmem)
        rw [hlives _ rfl, List.count_append, List.count_eq_zero_of_not_mem hother]
        exact h.crowd k hk
      · rw [hlives _ rfl, List.count_append, List.count_singleton_self]
        exact Nat.succ_le_succ h.news

/-- The drawing of a frame of at most fifteen turns. -/
theorem drawn (h : Sparse m g) (hm : m ≤ 15) (himgs : ∀ x ∈ g.ghosts, imgs x.img ≠ .broken) :
    Sparse 0 (g.drawn imgs) := by
  have hlives : (g.drawn imgs).lives = aged g.lives := drawGhosts_lives himgs
  refine ⟨?_, ?_, ?_⟩
  · rw [hlives]
    intro k hk
    obtain ⟨hpos, hmem⟩ := aged_pos hk
    have hle := (h.life _ hmem).2
    omega
  · rw [hlives]
    intro k hk
    rcases lt_or_ge 0 k with hpos | hneg
    · rw [aged_count _ hpos]
      rcases lt_or_ge (k + 1) 14 with hlt | hge
      · exact h.crowd _ hlt
      · have heq : k + 1 = 14 := by omega
        rw [heq]
        exact h.news.trans hm
    · have hnone : k ∉ aged g.lives := fun hmem => by
        have hpos := (aged_pos hmem).1
        omega
      rw [List.count_eq_zero_of_not_mem hnone]
      exact Nat.zero_le 15
  · rw [hlives, aged_count _ (by decide)]
    have hnone : 14 + 1 ∉ g.lives := fun hmem => absurd (h.life _ hmem).2 (by decide)
    rw [List.count_eq_zero_of_not_mem hnone]

theorem life_le (h : Sparse 0 g) {k : Int} (hk : k ∈ g.lives) : 1 ≤ k ∧ k ≤ 13 := by
  obtain ⟨hpos, hle⟩ := h.life k hk
  refine ⟨hpos, ?_⟩
  by_contra hlast
  have heq : k = 14 := by omega
  have hcount := List.count_pos_iff.mpr (heq ▸ hk)
  have hnews := h.news
  omega

theorem length_le (h : Sparse 0 g) : g.ghosts.length ≤ 195 := by
  have hlength : g.lives.length = g.ghosts.length := List.length_map _
  rw [← hlength]
  apply length_le_of_count (m := 13) (c := 15) fun k hk => h.life_le hk
  intro k
  rcases lt_or_ge k 14 with hlt | hge
  · exact h.crowd k hlt
  · have hnone : k ∉ g.lives := fun hmem => by
      have hle := (h.life_le hmem).2
      omega
    rw [List.count_eq_zero_of_not_mem hnone]
    exact Nat.zero_le 15

end Sparse

/-! ### What the page keeps about health -/

def Game.hit (g : Game R n) (a : Actor R) : Bool :=
  (g.prevHp a.id).any fun p => decide (a.hp < p)

theorem noticeHits_other (g : Game R n) (l : List (Actor R)) {id : Nat}
    (hid : id ∉ l.map Actor.id) :
    (l.foldl Game.noticeHit g).flash id = g.flash id ∧
      (l.foldl Game.noticeHit g).prevHp id = g.prevHp id := by
  induction l generalizing g with
  | nil => exact ⟨rfl, rfl⟩
  | cons a l ih =>
    rw [List.map_cons, List.mem_cons, not_or] at hid
    obtain ⟨hflash, hprev⟩ := ih (g.noticeHit a) hid.2
    rw [List.foldl_cons, hflash, hprev]
    unfold Game.noticeHit
    dsimp only
    constructor
    · split
      · exact Function.update_of_ne hid.1 _ _
      · rfl
    · exact Function.update_of_ne hid.1 _ _

/-- Actors with ids of their own are noticed each on its own. -/
theorem noticeHits_own (g : Game R n) (l : List (Actor R)) (hl : (l.map Actor.id).Nodup)
    {a : Actor R} (ha : a ∈ l) :
    (l.foldl Game.noticeHit g).flash a.id = (if g.hit a then some 7 else g.flash a.id) ∧
      (l.foldl Game.noticeHit g).prevHp a.id = some a.hp := by
  induction l generalizing g with
  | nil => cases ha
  | cons b l ih =>
    rw [List.map_cons, List.nodup_cons] at hl
    rw [List.foldl_cons]
    rcases List.mem_cons.mp ha with rfl | ha
    · obtain ⟨hflash, hprev⟩ := noticeHits_other (g.noticeHit a) l hl.1
      rw [hflash, hprev]
      refine ⟨?_, Function.update_self _ _ _⟩
      have hunfold : (g.noticeHit a).flash =
          if g.hit a then Function.update g.flash a.id (some 7) else g.flash := rfl
      rw [hunfold]
      split
      · exact Function.update_self _ _ _
      · rfl
    · have hne : a.id ≠ b.id := fun heq => hl.1 (heq ▸ List.mem_map_of_mem ha)
      obtain ⟨hflash, hprev⟩ := ih (g.noticeHit b) hl.2 ha
      have hsingle : a.id ∉ [b].map Actor.id := fun hmem => hne (List.mem_singleton.mp hmem)
      obtain ⟨hflash', hprev'⟩ := noticeHits_other g [b] hsingle
      have hhit : (g.noticeHit b).hit a = g.hit a := congrArg (Option.any _) hprev'
      rw [hflash, hprev, hhit]
      exact ⟨by rw [← hflash']; rfl, rfl⟩

theorem detectHits_own (g : Game R n) (hcast : Cast g.world.actors) (j : Fin (n + 1)) :
    g.detectHits.flash (j.val + 1) =
        (if g.hit (g.world.actors j) then some 6 else Countdown.fade (g.flash (j.val + 1))) ∧
      g.detectHits.prevHp (j.val + 1) = some (g.world.actors j).hp := by
  have hnodup : ((List.ofFn g.world.actors).map Actor.id).Nodup := by
    rw [List.map_ofFn]
    exact List.nodup_ofFn.mpr hcast.injective
  have hmem : g.world.actors j ∈ List.ofFn g.world.actors := List.mem_ofFn.mpr ⟨j, rfl⟩
  obtain ⟨hflash, hprev⟩ := noticeHits_own g _ hnodup hmem
  rw [(hcast j).id] at hflash hprev
  refine ⟨?_, hprev⟩
  have hfade : g.detectHits.flash (j.val + 1) =
      Countdown.fade (((List.ofFn g.world.actors).foldl Game.noticeHit g).flash (j.val + 1)) := rfl
  rw [hfade, hflash]
  split
  · rfl
  · rfl

/-! ### What is noticed -/

/-- Whether a tick left actor `j` with less health than the tick before it did. -/
def noticed (j : Fin (n + 1)) : List (World R n × World R n) → List Bool
  | [] => []
  | p :: l => (l.head?.any fun q => decide ((p.2.actors j).hp < (q.2.actors j).hp)) :: noticed j l

def Lost (j : Fin (n + 1)) (l : List (World R n × World R n)) (i : Nat) : Prop :=
  ∃ p, l[i]? = some p ∧ (p.2.actors j).hp < (p.1.actors j).hp

theorem noticed_eq_true (j : Fin (n + 1)) (l : List (World R n × World R n)) (i : Nat) :
    (noticed j l)[i]? = some true ↔ ∃ p q, l[i]? = some p ∧ l[i + 1]? = some q ∧
      (p.2.actors j).hp < (q.2.actors j).hp := by
  induction l generalizing i with
  | nil =>
    constructor
    · intro h
      cases h
    · rintro ⟨p, q, h, -⟩
      cases h
  | cons p l ih =>
    cases i with
    | succ i => exact ih i
    | zero =>
      cases l with
      | nil =>
        constructor
        · intro h
          cases h
        · rintro ⟨p, q, -, h, -⟩
          cases h
      | cons q l =>
        constructor
        · intro h
          have hlt := of_decide_eq_true (Option.some.inj h)
          exact ⟨p, q, rfl, rfl, hlt⟩
        · rintro ⟨p', q', hp, hq, hlt⟩
          cases hp
          cases hq
          exact congrArg some (decide_eq_true hlt)

theorem noticed_length (j : Fin (n + 1)) (l : List (World R n × World R n)) :
    (noticed j l).length = l.length := by
  induction l with
  | nil => rfl
  | cons p l ih => exact congrArg Nat.succ ih

/-- The world, and the ticks so far with the worlds before and after, the newest first. -/
abbrev Chronicle (R : Type) (n : Nat) := World R n × List (World R n × World R n)

/-- Each tick began where the one before it ended, unless the page was started again. -/
structure Joined (fresh : World R n) (es : List GameEvent) (c : Chronicle R n) : Prop where
  now : ∀ q, c.2[0]? = some q → c.1 = q.2 ∨ c.1 = fresh ∧ 0 < restarts es
  before : ∀ (i : Nat) p q, c.2[i]? = some p → c.2[i + 1]? = some q →
    p.1 = q.2 ∨ p.1 = fresh ∧ 0 < restarts es

structure Bounded (sk : Skill) (fresh : World R n) (c : Chronicle R n) : Prop where
  cast : Cast c.1.actors
  fit : ∀ j, Fit sk (c.1.actors j)
  evolves : ∀ j, Evolves (fresh.actors j) (c.1.actors j)
  ticks : ∀ q ∈ c.2, ∀ j, (q.2.actors j).hp ≤ (fresh.actors j).hp

section Noticed
variable {sk : Skill} {fresh : World R n} {es : List GameEvent} {c : Chronicle R n}

theorem lost_of_noticed (hjoined : Joined fresh es c) (hbounded : Bounded sk fresh c)
    (j : Fin (n + 1)) {i : Nat} (h : (noticed j c.2)[i]? = some true) : Lost j c.2 i := by
  obtain ⟨p, q, hp, hq, hlt⟩ := (noticed_eq_true j c.2 i).mp h
  refine ⟨p, hp, ?_⟩
  rcases hjoined.before i p q hp hq with heq | ⟨hfresh, -⟩
  · rw [heq]
    exact hlt
  · rw [hfresh]
    exact hlt.trans_le (hbounded.ticks q (List.mem_of_getElem? hq) j)

/-- Without a restart all that happens after the first tick is noticed. -/
theorem noticed_of_lost (hjoined : Joined fresh es c) (hagain : restarts es = 0)
    (j : Fin (n + 1)) {i : Nat} (hi : i + 1 < c.2.length) (h : Lost j c.2 i) :
    (noticed j c.2)[i]? = some true := by
  obtain ⟨p, hp, hlt⟩ := h
  have hq := List.getElem?_eq_getElem hi
  rcases hjoined.before i p _ hp hq with heq | ⟨-, hpos⟩
  · apply (noticed_eq_true j c.2 i).mpr
    refine ⟨p, _, hp, hq, ?_⟩
    rw [← heq]
    exact hlt
  · rw [hagain] at hpos
    exact absurd hpos (Nat.lt_irrefl 0)

end Noticed

/-! ### A frame -/

variable [Add R] [Sub R] [Mul R] [Div R] [Neg R] [NatCast R] [IntCast R]
  [LE R] [LT R] [BEq R] [DecidableLE R] [DecidableLT R]

namespace Decor

variable {sk : Skill} {g : Game R n} {imgs : Kind × State → Picture} {input : Input}

theorem tick (h : Decor g) : Decor (g.tick sk imgs input) := by
  have hcast := (round sk (decisions_cast sk input h.cast)).1
  have hworld : Decor { g with world := Logic.step sk g.world input } :=
    ⟨hcast, h.column, h.flash, h.shake⟩
  have htraced : Decor (g.traced sk imgs input) := by
    unfold Game.traced
    dsimp only
    split
    · rename_i hst
      have hkind := (hcast 0).kind
      rw [if_pos rfl] at hkind
      exact hworld.pushGhost hkind hst
    · exact hworld
  have hhits := htraced.detectHits
  exact ⟨hhits.cast, hhits.column, hhits.flash, hhits.shake⟩

theorem turns (h : Decor g) (k : Nat) : Decor (Game.turns sk imgs input k g) := by
  induction k generalizing g with
  | zero => exact h
  | succ k ih =>
    rw [Game.turns_succ]
    exact ih h.tick

theorem step {fresh : World R n} {g' : Game R n} {a : GameAct} (h : Decor g) (hg : g.Settled)
    (hfresh : Cast fresh.actors) (hstep : g.step sk fresh a = some g') : Decor g' := by
  cases a with
  | restart =>
    cases hstep
    exact ⟨hfresh, h.column, h.flash, h.shake⟩
  | frame now k imgs =>
    simp only [Game.step, Option.ite_none_left_eq_some, not_lt] at hstep
    obtain ⟨hnow, hframe⟩ := hstep
    by_cases hlast : g.last = 0
    · unfold Game.frame at hframe
      rw [if_pos hlast, Option.some.injEq] at hframe
      rw [← hframe]
      exact ⟨h.cast, h.column, h.flash, h.shake⟩
    · rw [g.frame_turns sk imgs hg hnow k hlast, Option.some.injEq] at hframe
      have hbegun : Decor { g with acc := g.acc + g.elapsed now, last := now } :=
        ⟨h.cast, h.column, h.flash, h.shake⟩
      rw [← hframe]
      exact (hbegun.turns _).drawn

end Decor

namespace Sparse

variable {sk : Skill} {m : Nat} {g g' : Game R n} {imgs : Kind × State → Picture} {input : Input}

theorem tick (h : Sparse m g) : Sparse (m + 1) (g.tick sk imgs input) := by
  have hworld : Sparse m { g with world := Logic.step sk g.world input } := h.of_ghosts rfl
  have htraced : Sparse (m + 1) (g.traced sk imgs input) := by
    unfold Game.traced
    dsimp only
    split
    · exact hworld.pushGhost _
    · exact hworld.mono
  exact htraced.of_ghosts (Game.detectHits_alike _).ghosts

theorem turns (h : Sparse m g) (k : Nat) : Sparse (m + k) (Game.turns sk imgs input k g) := by
  induction k generalizing g m with
  | zero => exact h
  | succ k ih =>
    rw [Game.turns_succ, Nat.add_comm k 1, ← Nat.add_assoc]
    exact ih h.tick

theorem step {fresh : World R n} {a : GameAct} (h : Sparse 0 g) (hdecor : Decor g)
    (hg : g.Settled) (ha : Unbroken a g) (hstep : g.step sk fresh a = some g') : Sparse 0 g' := by
  cases a with
  | restart =>
    cases hstep
    exact h.of_ghosts rfl
  | frame now k imgs =>
    simp only [Game.step, Option.ite_none_left_eq_some, not_lt] at hstep
    obtain ⟨hnow, hframe⟩ := hstep
    by_cases hlast : g.last = 0
    · unfold Game.frame at hframe
      rw [if_pos hlast, Option.some.injEq] at hframe
      rw [← hframe]
      exact h.of_ghosts rfl
    · rw [g.frame_turns sk imgs hg hnow k hlast, Option.some.injEq] at hframe
      have hbegun : Sparse 0 { g with acc := g.acc + g.elapsed now, last := now } :=
        h.of_ghosts rfl
      have hbegun' : Decor { g with acc := g.acc + g.elapsed now, last := now } :=
        ⟨hdecor.cast, hdecor.column, hdecor.flash, hdecor.shake⟩
      rw [← hframe]
      apply (hbegun.turns _).drawn
      · rw [Nat.zero_add]
        exact g.due_le hg hnow
      · intro x hx
        rw [((hbegun'.turns _).column x hx).1]
        exact ha

end Sparse

/-! ### What is drawn along a run -/

section Drawn
variable {sk : Skill} {spawns : Fin n → R × R} {inp : Nat → Input} {t : Nat} {g : Game R n}

theorem decor_run {ok : GameAct → Game R n → Prop}
    (h : Reach (Game.step sk (createWorldOf spawns)) ok
      { world := runs sk (createWorldOf spawns) inp t } g) : g.Settled ∧ Decor g := by
  have hsettled {s : Game R n} (hs : Reach (Game.step sk (createWorldOf spawns)) ok
      { world := runs sk (createWorldOf spawns) inp t } s) : s.Settled := by
    have hrecord : ∃ es, Traced (Game.step sk (createWorldOf spawns)) Game.emits _ es s :=
      Traced.of_reach hs
    obtain ⟨es, htraced⟩ := hrecord
    exact (Paced.run htraced).settled
  have hstart : Decor ({ world := runs sk (createWorldOf spawns) inp t } : Game R n) := by
    refine ⟨runs_cast sk spawns inp t, fun x hx => ?_, fun id k hk => ?_, Or.inl rfl⟩
    · cases hx
    · cases hk
  refine ⟨hsettled h, h.invariant hstart fun s a s' hs hdecor _ hstep => ?_⟩
  exact hdecor.step (hsettled hs) (createWorldOf_cast spawns) hstep

theorem sparse_run (h : Reach (Game.step sk (createWorldOf spawns)) Unbroken
    { world := runs sk (createWorldOf spawns) inp t } g) : Sparse 0 g := by
  have hstart : Sparse 0 ({ world := runs sk (createWorldOf spawns) inp t } : Game R n) := by
    refine ⟨fun k hk => ?_, fun k _ => Nat.zero_le 15, Nat.le_refl 0⟩
    cases hk
  apply h.invariant hstart
  intro s a s' hs hsparse ha hstep
  obtain ⟨hsettled, hdecor⟩ := decor_run hs
  exact hsparse.step hdecor hsettled ha hstep

/-- In every run of the page, whatever the frames, the restarts and the images: every actor has a
column within its sheet, the traces are of columns of the assault, a flash has between one and six
ticks to go, and the stage rests or shakes visibly. With the image of the assault not broken the
traces are never more than 195, none with more than thirteen drawings to go. -/
theorem solo_drawn (h : Reach (Game.step sk (createWorldOf spawns)) Any
      { world := runs sk (createWorldOf spawns) inp t } g) :
    (∀ j, ∃ count per i, SHEETS (g.world.actors j).kind (g.world.actors j).state =
        some (count, per) ∧ frameIndex (g.world.actors j) = some i ∧ i < count) ∧
      (∀ x ∈ g.ghosts, x.img = (.player, .skill) ∧
        ∃ i, SKILL_SKIP ≤ i ∧ i < 6 ∧ x.sx = i * FRAME) ∧
      (∀ id k, g.flash id = some k → 1 ≤ k ∧ k ≤ 6) ∧
      (g.shake = 0 ∨ 4 / 10 ≤ g.shake ∧ g.shake ≤ 9) ∧
      (Reach (Game.step sk (createWorldOf spawns)) Unbroken
          { world := runs sk (createWorldOf spawns) inp t } g →
        (∀ x ∈ g.ghosts, 1 ≤ x.life ∧ x.life ≤ 13) ∧ g.ghosts.length ≤ 195) := by
  have hdecor := (decor_run h).2
  refine ⟨fun j => ?_, hdecor.column, hdecor.flash, hdecor.shake, fun hread => ?_⟩
  · obtain ⟨count, per, hsheet⟩ := (hdecor.cast j).sheet
    obtain ⟨i, hi, hlt⟩ := frameIndex_lt hsheet
    exact ⟨count, per, i, hsheet, hi, hlt⟩
  · have hsparse := sparse_run hread
    exact ⟨fun x hx => hsparse.life_le (List.mem_map_of_mem hx), hsparse.length_le⟩

end Drawn

/-- An assault at the start of the page, which wounds the second orc in the last tick but one. -/
def assaultDisplay : List GameAct :=
  [.frame 1000 { skill := true } fun _ => .loaded, .frame 1100 { skill := true } fun _ => .loaded,
    .frame 1150 { skill := true } fun _ => .loaded]

theorem assault_record : ∃ (es : List GameEvent) (g : Game ℚ 5),
    record (Game.step SKILL createWorld) Game.emits assaultDisplay
      { world := (createWorld : World ℚ 5) } = some (es, g) ∧
    restarts es = 0 ∧ 60 * shownTime es = 9 ∧
    g.lives = List.replicate 6 12 ++ List.replicate 3 13 ∧ g.flash 3 = some 5 ∧
    g.shake = 41 / 10 := by
  have hrun : (record (Game.step SKILL createWorld) Game.emits assaultDisplay
      { world := (createWorld : World ℚ 5) }).map (fun p : List GameEvent × Game ℚ 5 =>
        (restarts p.1, 60 * shownTime p.1, p.2.lives, p.2.flash 3, p.2.shake)) =
      some (0, 9, List.replicate 6 12 ++ List.replicate 3 13, some 5, 41 / 10) := by
    decide +kernel
  obtain ⟨⟨es, g⟩, hrec, hproj⟩ := Option.map_eq_some_iff.mp hrun
  simp only [Prod.mk.injEq] at hproj
  exact ⟨es, g, hrec, hproj⟩

theorem solo_drawn_assault : ∃ g : Game ℚ 5,
    Reach (Game.step SKILL (createWorldOf SPAWNS)) Unbroken
      { world := runs SKILL (createWorldOf (SPAWNS : Fin 5 → ℚ × ℚ)) (fun _ => {}) 0 } g ∧
    (∀ j, ∃ count per i, SHEETS (g.world.actors j).kind (g.world.actors j).state =
      some (count, per) ∧ frameIndex (g.world.actors j) = some i ∧ i < count) ∧
    (∀ x ∈ g.ghosts, (∃ i, SKILL_SKIP ≤ i ∧ i < 6 ∧ x.sx = i * FRAME) ∧
      1 ≤ x.life ∧ x.life ≤ 13) ∧
    g.ghosts.length = 9 ∧ g.flash 3 = some 5 ∧ g.shake = 41 / 10 := by
  obtain ⟨es, g, hrec, -, -, hlives, hflash, hshake⟩ := assault_record
  have hreach : Reach (Game.step SKILL (createWorldOf SPAWNS)) Unbroken
      { world := runs SKILL (createWorldOf (SPAWNS : Fin 5 → ℚ × ℚ)) (fun _ => {}) 0 } g := by
    apply (reach_of_run_mem (run_of_record hrec)).mono
    intro a s ha
    simp only [assaultDisplay, List.mem_cons, List.not_mem_nil, or_false] at ha
    rcases ha with rfl | rfl | rfl
    · exact Picture.noConfusion
    · exact Picture.noConfusion
    · exact Picture.noConfusion
  obtain ⟨hcolumn, htrace, -, -, hread⟩ := solo_drawn hreach.any
  have hlength : g.lives.length = 9 := congrArg List.length hlives
  refine ⟨g, hreach, hcolumn, fun x hx => ⟨(htrace x hx).2, (hread hreach).1 x hx⟩, ?_, hflash,
    hshake⟩
  exact (List.length_map _).symm.trans hlength

/-! ### What a flash tells -/

def Chronicle.enter (sk : Skill) (fresh : World R n) (c : Chronicle R n) :
    GameEvent → Chronicle R n
  | .shown _ => c
  | .fed input => (Logic.step sk c.1 input, (c.1, Logic.step sk c.1 input) :: c.2)
  | .again => (fresh, c.2)

def chronicle (sk : Skill) (fresh w : World R n) (es : List GameEvent) : Chronicle R n :=
  es.foldl (Chronicle.enter sk fresh) (w, [])

/-- The ticks alone, each with the worlds before and after it, the newest first. -/
def ticksOf (sk : Skill) (fresh w : World R n) (es : List GameEvent) :
    List (World R n × World R n) :=
  (chronicle sk fresh w es).2

theorem chronicle_length (sk : Skill) (fresh w : World R n) (es : List GameEvent) :
    (chronicle sk fresh w es).2.length = (inputs es).length := by
  induction es using List.reverseRecOn with
  | nil => rfl
  | append_singleton es e ih =>
    unfold chronicle at ih ⊢
    rw [List.foldl_append, inputs_append, List.length_append, ← ih]
    cases e with
    | shown dt => rfl
    | fed input => rfl
    | again => rfl

theorem chronicle_joined (sk : Skill) (fresh w : World R n) (es : List GameEvent) :
    Joined fresh es (chronicle sk fresh w es) := by
  induction es using List.reverseRecOn with
  | nil =>
    refine ⟨fun q h => ?_, fun i p q h => ?_⟩
    · cases h
    · cases h
  | append_singleton es e ih =>
    have hmore (w w' : World R n) (h : w = w' ∨ w = fresh ∧ 0 < restarts es) :
        w = w' ∨ w = fresh ∧ 0 < restarts (es ++ [e]) := by
      rw [restarts_append]
      exact h.imp_right fun h => ⟨h.1, Nat.add_pos_left h.2 _⟩
    unfold chronicle at ih ⊢
    rw [List.foldl_append]
    cases e with
    | shown dt =>
      exact ⟨fun q h => hmore _ _ (ih.now q h), fun i p q h h' => hmore _ _ (ih.before i p q h h')⟩
    | fed input =>
      refine ⟨fun q h => ?_, fun i p q h h' => ?_⟩
      · cases h
        exact Or.inl rfl
      · cases i with
        | zero =>
          cases h
          exact hmore _ _ (ih.now q h')
        | succ i => exact hmore _ _ (ih.before i p q h h')
    | again =>
      refine ⟨fun q h => Or.inr ⟨rfl, ?_⟩, fun i p q h h' => hmore _ _ (ih.before i p q h h')⟩
      rw [restarts_append]
      exact Nat.succ_pos _

structure Watched (c : Chronicle R n) (g : Game R n) : Prop where
  world : g.world = c.1
  cast : Cast g.world.actors
  flash : ∀ j : Fin (n + 1), g.flash (j.val + 1) = Countdown.value 6 (noticed j c.2)
  prev : ∀ j : Fin (n + 1), g.prevHp (j.val + 1) = c.2.head?.map fun q => (q.2.actors j).hp

namespace Watched

variable {sk : Skill} {fresh w : World R n} {c : Chronicle R n} {g g' : Game R n}
  {imgs : Kind × State → Picture} {input : Input}

theorem traced_hits (sk : Skill) (g : Game R n) (imgs : Kind × State → Picture)
    (input : Input) : (g.traced sk imgs input).flash = g.flash ∧
      (g.traced sk imgs input).prevHp = g.prevHp := by
  unfold Game.traced Game.pushGhost
  dsimp only
  split
  · split
    · exact ⟨rfl, rfl⟩
    · split
      · exact ⟨rfl, rfl⟩
      · exact ⟨rfl, rfl⟩
  · exact ⟨rfl, rfl⟩

theorem tick (h : Watched c g) :
    Watched (c.enter sk fresh (.fed input)) (g.tick sk imgs input) := by
  have hworld := g.tick_world sk imgs input
  have htraced := (g.traced_fields sk imgs input).1
  obtain ⟨hflash, hprev⟩ := traced_hits sk g imgs input
  have hcast : Cast (Logic.step sk g.world input).actors :=
    (round sk (decisions_cast sk input h.cast)).1
  have hown (j : Fin (n + 1)) := detectHits_own (g.traced sk imgs input) (htraced ▸ hcast) j
  refine ⟨?_, ?_, fun j => ?_, fun j => ?_⟩
  · rw [hworld, h.world]
    rfl
  · rw [hworld]
    exact hcast
  · rw [Game.tick_eq]
    dsimp only
    have hhit : (g.traced sk imgs input).hit ((g.traced sk imgs input).world.actors j) =
        c.2.head?.any fun q => decide (((Logic.step sk c.1 input).actors j).hp <
          (q.2.actors j).hp) := by
      unfold Game.hit
      rw [htraced, (hcast j).id, hprev, h.prev j, Option.any_map, h.world]
    have hentry : noticed j (c.enter sk fresh (.fed input)).2 =
        (c.2.head?.any fun q => decide (((Logic.step sk c.1 input).actors j).hp <
          (q.2.actors j).hp)) :: noticed j c.2 := rfl
    rw [(hown j).1, hhit, hflash, h.flash j, hentry]
    cases c.2.head?.any fun q => decide (((Logic.step sk c.1 input).actors j).hp <
        (q.2.actors j).hp) with
    | true => rfl
    | false => rfl
  · rw [Game.tick_eq]
    dsimp only
    rw [(hown j).2, htraced, h.world]
    rfl

theorem turns (h : Watched c g) (sk : Skill) (fresh : World R n)
    (imgs : Kind × State → Picture) (input : Input) (k : Nat) :
    Watched ((List.replicate k (.fed input)).foldl (Chronicle.enter sk fresh) c)
      (Game.turns sk imgs input k g) := by
  induction k generalizing g c with
  | zero => exact h
  | succ k ih =>
    rw [Game.turns_succ, List.replicate_succ, List.foldl_cons]
    exact ih h.tick

theorem step {a : GameAct} (h : Watched c g) (hg : g.Settled) (hfresh : Cast fresh.actors)
    (hstep : g.step sk fresh a = some g') :
    Watched ((Game.emits a g).foldl (Chronicle.enter sk fresh) c) g' := by
  cases a with
  | restart =>
    cases hstep
    exact ⟨rfl, hfresh, h.flash, h.prev⟩
  | frame now k imgs =>
    simp only [Game.step, Option.ite_none_left_eq_some, not_lt] at hstep
    obtain ⟨hnow, hframe⟩ := hstep
    by_cases hlast : g.last = 0
    · unfold Game.frame at hframe
      rw [if_pos hlast, Option.some.injEq] at hframe
      rw [← hframe, Game.emits_first imgs hlast]
      exact ⟨h.world, h.cast, h.flash, h.prev⟩
    · rw [g.frame_turns sk imgs hg hnow k hlast, Option.some.injEq] at hframe
      have hbegun : Watched c { g with acc := g.acc + g.elapsed now, last := now } :=
        ⟨h.world, h.cast, h.flash, h.prev⟩
      have hended := hbegun.turns sk fresh imgs k.input (g.due (g.elapsed now))
      rw [← hframe, Game.emits_later imgs hlast]
      exact ⟨hended.world, hended.cast, hended.flash, hended.prev⟩

end Watched

theorem chronicle_bounded {sk : Skill} (hsk : sk.Sound) (spawns : Fin n → R × R)
    (inp : Nat → Input) (t : Nat) (es : List GameEvent) :
    Bounded sk (createWorldOf spawns)
      (chronicle sk (createWorldOf spawns) (runs sk (createWorldOf spawns) inp t) es) := by
  induction es using List.reverseRecOn with
  | nil =>
    refine ⟨runs_cast sk spawns inp t, runs_fit hsk spawns inp t,
      runs_evolves hsk spawns inp (Nat.zero_le t), fun q hq => ?_⟩
    cases hq
  | append_singleton es e ih =>
    unfold chronicle at ih ⊢
    rw [List.foldl_append]
    cases e with
    | shown dt => exact ⟨ih.cast, ih.fit, ih.evolves, ih.ticks⟩
    | again =>
      exact ⟨createWorldOf_cast spawns, createWorldOf_fit spawns sk, fun j => .refl _, ih.ticks⟩
    | fed input =>
      have hlives (j : Fin (n + 1)) := step_lives hsk ih.cast input j (ih.fit j)
      have hevolves (j : Fin (n + 1)) := (ih.evolves j).trans (hlives j).2
      refine ⟨(round sk (decisions_cast sk input ih.cast)).1, fun j => (hlives j).1, hevolves, ?_⟩
      intro q hq j
      rcases List.mem_cons.mp hq with rfl | hq
      · exact (hevolves j).hp
      · exact ih.ticks q hq j

theorem watched_run {sk : Skill} {spawns : Fin n → R × R} {inp : Nat → Input} {t : Nat}
    {es : List GameEvent} {g : Game R n}
    (h : Traced (Game.step sk (createWorldOf spawns)) Game.emits
      { world := runs sk (createWorldOf spawns) inp t } es g) :
    Watched (chronicle sk (createWorldOf spawns) (runs sk (createWorldOf spawns) inp t) es) g := by
  have hstart : Watched (runs sk (createWorldOf spawns) inp t, [])
      { world := runs sk (createWorldOf spawns) inp t } :=
    ⟨rfl, runs_cast sk spawns inp t, fun _ => rfl, fun _ => rfl⟩
  have hboth : Paced sk (createWorldOf spawns) (runs sk (createWorldOf spawns) inp t) es g ∧
      Watched (chronicle sk (createWorldOf spawns) (runs sk (createWorldOf spawns) inp t) es) g := by
    apply h.invariant ⟨.init _ _ _, hstart⟩
    intro es s a s' _ hs hstep
    obtain ⟨hpaced, hwatched⟩ := hs
    refine ⟨hpaced.step hstep, ?_⟩
    unfold chronicle at hwatched ⊢
    rw [List.foldl_append]
    exact hwatched.step hpaced.settled (createWorldOf_cast spawns) hstep
  exact hboth.2

/-- In every run of the page an actor that flashes did lose health, as many ticks ago as the flash
has faded; without a restart it flashes exactly for six ticks after it last lost health, the very
first tick apart. -/
theorem solo_flash {sk : Skill} (hsk : sk.Sound) {spawns : Fin n → R × R} {inp : Nat → Input}
    {t : Nat} {es : List GameEvent} {g : Game R n}
    (h : Traced (Game.step sk (createWorldOf spawns)) Game.emits
      { world := runs sk (createWorldOf spawns) inp t } es g)
    (j : Fin (n + 1)) (k : Nat) :
    (g.flash (j.val + 1) = some k → 1 ≤ k ∧ k ≤ 6 ∧
        Lost j (ticksOf sk (createWorldOf spawns) (runs sk (createWorldOf spawns) inp t) es)
          (6 - k)) ∧
      (restarts es = 0 → (g.flash (j.val + 1) = some k ↔ 1 ≤ k ∧ k ≤ 6 ∧
        6 - k + 1 < (inputs es).length ∧
        Lost j (ticksOf sk (createWorldOf spawns) (runs sk (createWorldOf spawns) inp t) es)
          (6 - k) ∧
        ∀ i < 6 - k, ¬Lost j
          (ticksOf sk (createWorldOf spawns) (runs sk (createWorldOf spawns) inp t) es) i)) := by
  have hjoined := chronicle_joined sk (createWorldOf spawns)
    (runs sk (createWorldOf spawns) inp t) es
  have hbounded := chronicle_bounded hsk spawns inp t es
  have hlength := chronicle_length sk (createWorldOf spawns)
    (runs sk (createWorldOf spawns) inp t) es
  unfold ticksOf
  rw [(watched_run h).flash j, Countdown.value_eq_some (by decide), ← hlength]
  generalize chronicle sk (createWorldOf spawns) (runs sk (createWorldOf spawns) inp t) es = c
    at hjoined hbounded
  refine ⟨fun ⟨hpos, hle, hlast, _⟩ => ?_, fun hagain => ⟨?_, ?_⟩⟩
  · exact ⟨hpos, hle, lost_of_noticed hjoined hbounded j hlast⟩
  · rintro ⟨hpos, hle, hlast, hquiet⟩
    obtain ⟨p, q, -, hq, -⟩ := (noticed_eq_true j c.2 _).mp hlast
    have hlt := (List.getElem?_eq_some_iff.mp hq).1
    refine ⟨hpos, hle, hlt, lost_of_noticed hjoined hbounded j hlast, fun i hi hlost => ?_⟩
    have hnoticed := noticed_of_lost hjoined hagain j (by omega) hlost
    rw [hquiet i hi] at hnoticed
    cases hnoticed
  · rintro ⟨hpos, hle, hlt, hlost, hquiet⟩
    refine ⟨hpos, hle, noticed_of_lost hjoined hagain j hlt hlost, fun i hi => ?_⟩
    have hi' : i < (noticed j c.2).length := by
      rw [noticed_length]
      omega
    rw [List.getElem?_eq_getElem hi']
    cases hvalue : (noticed j c.2)[i] with
    | false => rfl
    | true =>
      have hnoticed : (noticed j c.2)[i]? = some true :=
        (List.getElem?_eq_getElem hi').trans (congrArg some hvalue)
      exact absurd (lost_of_noticed hjoined hbounded j hnoticed) (hquiet i hi)

theorem solo_flash_assault : ∃ (es : List GameEvent) (g : Game ℚ 5),
    Traced (Game.step SKILL (createWorldOf SPAWNS)) Game.emits
      { world := runs SKILL (createWorldOf (SPAWNS : Fin 5 → ℚ × ℚ)) (fun _ => {}) 0 } es g ∧
    g.flash 3 = some 5 ∧
    Lost 2 (ticksOf SKILL (createWorldOf SPAWNS)
      (runs SKILL (createWorldOf (SPAWNS : Fin 5 → ℚ × ℚ)) (fun _ => {}) 0) es) 1 ∧
    ¬Lost 2 (ticksOf SKILL (createWorldOf SPAWNS)
      (runs SKILL (createWorldOf (SPAWNS : Fin 5 → ℚ × ℚ)) (fun _ => {}) 0) es) 0 := by
  obtain ⟨es, g, hrec, hagain, -, -, hflash, -⟩ := assault_record
  have htraced : Traced (Game.step SKILL (createWorldOf SPAWNS)) Game.emits
      { world := runs SKILL (createWorldOf (SPAWNS : Fin 5 → ℚ × ℚ)) (fun _ => {}) 0 } es g :=
    traced_of_record hrec
  obtain ⟨-, -, -, hlost, hsince⟩ := ((solo_flash SKILL_sound htraced 2 5).2 hagain).mp hflash
  exact ⟨es, g, htraced, hflash, hlost, hsince 0 (by decide)⟩

end BeltServer.Logic
