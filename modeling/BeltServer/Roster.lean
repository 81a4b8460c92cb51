import BeltServer.Lib.SwapList
import Mathlib.Data.Finset.Card
import Mathlib.Algebra.BigOperators.Group.Finset.Basic
import Mathlib.Logic.Relation

/-!
# Which worker keeps which room

The room slots of the manager with the lists they are in, and the four things that happen
to them: a slot is opened and posted to the least loaded worker, a worker takes in its
mailbox, a room of its list dies, and a room of its list is replaced by a new one. Every
slot is in one place, and the loads count the rooms of the workers.
-/

namespace BeltServer

set_option autoImplicit false

open SwapList Relation

structure Roster where
  cap : Nat
  workers : Nat
  free : List Nat
  worker : Nat → Nat
  load : Nat → UInt32
  mail : Nat → List Nat
  mine : Nat → List Nat

namespace Roster

/-- A room lives from the time its slot is taken until it is freed. -/
def Live (R : Roster) (r : Nat) : Prop := r < R.cap ∧ r ∉ R.free

instance (R : Roster) (r : Nat) : Decidable (R.Live r) :=
  inferInstanceAs (Decidable (r < R.cap ∧ r ∉ R.free))

def rooms (R : Roster) (w : Nat) : Finset Nat :=
  (Finset.range R.cap).filter fun r => r ∉ R.free ∧ R.worker r = w

def leastLoaded (R : Roster) : Nat :=
  (List.range' 1 (R.workers - 1)).foldl
    (fun best w => if R.load w < R.load best then w else best) 0

/-- The slot `r`, which is the last free one, for worker `g`. -/
def take (R : Roster) (r g : Nat) : Roster :=
  { R with free := R.free.dropLast, worker := Function.update R.worker r g }

def post (R : Roster) (r : Nat) : Roster :=
  { R.take r R.leastLoaded with
    load := Function.update R.load R.leastLoaded (R.load R.leastLoaded + 1)
    mail := Function.update R.mail R.leastLoaded (R.mail R.leastLoaded ++ [r]) }

def drain (R : Roster) (g : Nat) : Roster :=
  { R with
    mine := Function.update R.mine g (R.mine g ++ R.mail g)
    mail := Function.update R.mail g [] }

def die (R : Roster) (g i r : Nat) : Roster :=
  { R with
    free := R.free ++ [r]
    load := Function.update R.load (R.worker r) (R.load (R.worker r) - 1)
    mine := Function.update R.mine g (swapRemoveAt (R.mine g) i) }

def move (R : Roster) (g i old nr : Nat) : Roster :=
  { R.take nr (R.worker old) with
    free := R.free.dropLast ++ [old]
    mine := Function.update R.mine g ((R.mine g).set i nr) }

inductive Step (R : Roster) : Option Nat → Roster → Prop where
  | post (r : Nat) (hworkers : 0 < R.workers) (hr : R.free.getLast? = some r) :
      Step R none (R.post r)
  | drain (g : Nat) : Step R (some g) (R.drain g)
  | die (g i r : Nat) (hr : (R.mine g)[i]? = some r) : Step R (some g) (R.die g i r)
  | move (g i old nr : Nat) (hold : (R.mine g)[i]? = some old)
      (hnr : R.free.getLast? = some nr) : Step R (some g) (R.move g i old nr)

def Steps (o : Option Nat) : Roster → Roster → Prop := ReflTransGen fun R R' => R.Step o R'

structure Kept (R : Roster) : Prop where
  small : R.cap < 2 ^ 32
  placed : ∀ r, R.free.count r + (R.mail (R.worker r)).count r + (R.mine (R.worker r)).count r =
    if r < R.cap then 1 else 0
  mail_worker : ∀ g, ∀ r ∈ R.mail g, R.worker r = g
  mine_worker : ∀ g, ∀ r ∈ R.mine g, R.worker r = g
  worker_lt : ∀ r, R.Live r → R.worker r < R.workers
  loads : ∀ w, (R.load w).toNat = (R.rooms w).card

/-! ### The least loaded worker -/

section Least
variable (R : Roster)

theorem least_of_range (n : Nat) (best w : Nat) (hw : w = best ∨ (1 ≤ w ∧ w ≤ n)) :
    R.load ((List.range' 1 n).foldl
      (fun best w => if R.load w < R.load best then w else best) best) ≤ R.load w := by
  induction n generalizing w with
  | zero =>
    rcases hw with rfl | ⟨hlo, hhi⟩
    · exact UInt32.le_refl _
    · omega
  | succ n ih =>
    rw [List.range'_1_concat, List.foldl_append]
    dsimp only [List.foldl_cons, List.foldl_nil]
    generalize hbest : (List.range' 1 n).foldl
      (fun best w => if R.load w < R.load best then w else best) best = b at ih ⊢
    by_cases hlast : w = 1 + n
    · subst hlast
      split
      · exact UInt32.le_refl _
      · rename_i hnot
        exact UInt32.not_lt.mp hnot
    · have hb : R.load b ≤ R.load w := by
        apply ih
        rcases hw with hw | ⟨hlo, hhi⟩
        · exact Or.inl hw
        · right
          omega
      split
      · rename_i hlt
        exact UInt32.le_trans (UInt32.le_of_lt hlt) hb
      · exact hb

theorem least_mem_range (n best : Nat) :
    (List.range' 1 n).foldl (fun best w => if R.load w < R.load best then w else best) best ≤
      max best n := by
  induction n with
  | zero => exact Nat.le_max_left ..
  | succ n ih =>
    rw [List.range'_1_concat, List.foldl_append]
    dsimp only [List.foldl_cons, List.foldl_nil]
    split <;> omega

/-- No worker has fewer rooms than the one chosen. -/
theorem leastLoaded_le {w : Nat} (hw : w < R.workers) : R.load R.leastLoaded ≤ R.load w := by
  apply least_of_range
  omega

theorem leastLoaded_lt (h : 0 < R.workers) : R.leastLoaded < R.workers := by
  have hle := R.least_mem_range (R.workers - 1) 0
  rw [leastLoaded]
  omega

end Least

/-! ### The rooms of a worker -/

section Rooms
variable {R R' : Roster} {r g w : Nat}

theorem mem_rooms : r ∈ R.rooms w ↔ R.Live r ∧ R.worker r = w := by
  rw [rooms, Finset.mem_filter, Finset.mem_range, Live, and_assoc]

theorem rooms_insert (hcap : R'.cap = R.cap) (hr : r < R.cap)
    (hfree : ∀ x, x ∈ R'.free ↔ x ∈ R.free ∧ x ≠ r)
    (hworker : R'.worker = Function.update R.worker r g) (hin : r ∈ R.free) :
    R'.rooms w = if w = g then insert r (R.rooms w) else R.rooms w := by
  ext x
  have hmem : x ∈ R'.rooms w ↔ (x < R.cap ∧ ¬(x ∈ R.free ∧ x ≠ r)) ∧ R'.worker x = w := by
    rw [mem_rooms, Live, hcap, hfree]
  rw [hmem, hworker]
  by_cases hx : x = r
  · subst hx
    rw [Function.update_self]
    by_cases hw : w = g
    · simp [hw, hr]
    · have hnot : x ∉ R.rooms w := fun hx => (mem_rooms.mp hx).1.2 hin
      simp [hw, Ne.symm hw, hnot]
  · rw [Function.update_of_ne hx]
    by_cases hw : w = g <;> simp [hw, hx, mem_rooms, Live]

theorem rooms_erase (hcap : R'.cap = R.cap) (hfree : ∀ x, x ∈ R'.free ↔ x ∈ R.free ∨ x = r)
    (hworker : R'.worker = R.worker) : R'.rooms w = (R.rooms w).erase r := by
  ext x
  rw [Finset.mem_erase, mem_rooms, mem_rooms, Live, Live, hcap, hfree, hworker]
  constructor
  · rintro ⟨⟨hlt, hnot⟩, hw⟩
    exact ⟨fun hx => hnot (Or.inr hx), ⟨hlt, fun hx => hnot (Or.inl hx)⟩, hw⟩
  · rintro ⟨hne, ⟨hlt, hnot⟩, hw⟩
    exact ⟨⟨hlt, fun hx => hx.elim hnot hne⟩, hw⟩

end Rooms

namespace Kept

variable {R R' : Roster}

/-! ### Where a slot is -/

theorem lt_of_free (h : R.Kept) {r : Nat} (hr : r ∈ R.free) : r < R.cap := by
  have hpos := List.count_pos_iff.mpr hr
  have hplaced := h.placed r
  by_contra hcap
  rw [if_neg hcap] at hplaced
  omega

theorem count_free (h : R.Kept) {r : Nat} (hr : r ∈ R.free) : R.free.count r = 1 := by
  have hpos := List.count_pos_iff.mpr hr
  have hplaced := h.placed r
  rw [if_pos (h.lt_of_free hr)] at hplaced
  omega

theorem not_kept (h : R.Kept) {r : Nat} (hr : r ∈ R.free) (g : Nat) : r ∉ R.mail g ∧ r ∉ R.mine g := by
  have hpos := List.count_pos_iff.mpr hr
  have hplaced := h.placed r
  rw [if_pos (h.lt_of_free hr)] at hplaced
  constructor
  · intro hmem
    have hcount := List.count_pos_iff.mpr hmem
    rw [h.mail_worker g r hmem] at hplaced
    omega
  · intro hmem
    have hcount := List.count_pos_iff.mpr hmem
    rw [h.mine_worker g r hmem] at hplaced
    omega

theorem live_of_mine (h : R.Kept) {g r : Nat} (hr : r ∈ R.mine g) : R.Live r := by
  constructor
  · have hcount := List.count_pos_iff.mpr hr
    have hplaced := h.placed r
    rw [h.mine_worker g r hr] at hplaced
    by_contra hcap
    rw [if_neg hcap] at hplaced
    omega
  · intro hfree
    exact (h.not_kept hfree g).2 hr

theorem live_of_mail (h : R.Kept) {g r : Nat} (hr : r ∈ R.mail g) : R.Live r := by
  constructor
  · have hcount := List.count_pos_iff.mpr hr
    have hplaced := h.placed r
    rw [h.mail_worker g r hr] at hplaced
    by_contra hcap
    rw [if_neg hcap] at hplaced
    omega
  · intro hfree
    exact (h.not_kept hfree g).1 hr

theorem mem_dropLast (h : R.Kept) {r : Nat} (hr : R.free.getLast? = some r) (x : Nat) :
    x ∈ R.free.dropLast ↔ x ∈ R.free ∧ x ≠ r := by
  have hcount := count_dropLast hr x
  have hone := h.count_free (List.mem_of_getLast? hr)
  constructor
  · intro hx
    have hpos := List.count_pos_iff.mpr hx
    refine ⟨List.mem_of_mem_dropLast hx, ?_⟩
    rintro rfl
    rw [if_pos rfl] at hcount
    omega
  · rintro ⟨hx, hne⟩
    have hpos := List.count_pos_iff.mpr hx
    rw [if_neg (Ne.symm hne)] at hcount
    apply List.count_pos_iff.mp
    omega

/-- A live room is in the lists of its worker, once. -/
theorem placed_once (h : R.Kept) {r : Nat} (hr : R.Live r) :
    ∑ g ∈ Finset.range R.workers, ((R.mine g).count r + (R.mail g).count r) = 1 := by
  have hplaced := h.placed r
  rw [if_pos hr.1, List.count_eq_zero.mpr hr.2] at hplaced
  rw [Finset.sum_eq_single (R.worker r)]
  · omega
  · intro g hg hne
    have hmail : (R.mail g).count r = 0 :=
      List.count_eq_zero.mpr fun hmem => hne (h.mail_worker g r hmem).symm
    have hmine : (R.mine g).count r = 0 :=
      List.count_eq_zero.mpr fun hmem => hne (h.mine_worker g r hmem).symm
    omega
  · intro hnot
    exact absurd (Finset.mem_range.mpr (h.worker_lt r hr)) hnot

/-! ### Steps -/

theorem load_insert (h : R.Kept) {r : Nat} (hr : r ∈ R.free) (g : Nat) :
    (R.load g + 1).toNat = (insert r (R.rooms g)).card := by
  have hnot : r ∉ R.rooms g := fun hmem => (mem_rooms.mp hmem).1.2 hr
  have hsub : insert r (R.rooms g) ⊆ Finset.range R.cap := by
    apply Finset.insert_subset
    · exact Finset.mem_range.mpr (h.lt_of_free hr)
    · exact Finset.filter_subset _ _
  have hle := Finset.card_le_card hsub
  rw [Finset.card_range] at hle
  rw [Finset.card_insert_of_notMem hnot] at hle ⊢
  have hload := h.loads g
  have hsmall := h.small
  have hone : (1 : UInt32).toNat = 1 := rfl
  rw [UInt32.toNat_add, hone]
  omega

/-- The load of a live room's worker can be counted down. -/
theorem load_erase (h : R.Kept) {r : Nat} (hr : R.Live r) :
    (R.load (R.worker r) - 1).toNat = ((R.rooms (R.worker r)).erase r).card := by
  have hmem : r ∈ R.rooms (R.worker r) := mem_rooms.mpr ⟨hr, rfl⟩
  have hpos : 0 < (R.rooms (R.worker r)).card := Finset.card_pos.mpr ⟨r, hmem⟩
  have hload := h.loads (R.worker r)
  have hone : (1 : UInt32).toNat = 1 := rfl
  have hle : 1 ≤ R.load (R.worker r) := by
    apply UInt32.le_iff_toNat_le.mpr
    omega
  rw [Finset.card_erase_of_mem hmem, UInt32.toNat_sub_of_le _ _ hle, hload, hone]

theorem step_post (h : R.Kept) {r : Nat} (hworkers : 0 < R.workers)
    (hr : R.free.getLast? = some r) : (R.post r).Kept := by
  have hfree := List.mem_of_getLast? hr
  have hcap := h.lt_of_free hfree
  constructor
  · exact h.small
  · intro x
    have hcount := count_dropLast hr x
    show R.free.dropLast.count x +
      (Function.update R.mail R.leastLoaded (R.mail R.leastLoaded ++ [r])
        (Function.update R.worker r R.leastLoaded x)).count x +
      (R.mine (Function.update R.worker r R.leastLoaded x)).count x = _
    by_cases hx : r = x
    · subst hx
      have hmail := List.count_eq_zero.mpr (h.not_kept hfree R.leastLoaded).1
      have hmine := List.count_eq_zero.mpr (h.not_kept hfree R.leastLoaded).2
      have hone := h.count_free hfree
      rw [if_pos rfl] at hcount
      rw [Function.update_self, Function.update_self, count_push, if_pos rfl, hmail, hmine]
      show _ = if r < R.cap then 1 else 0
      rw [if_pos hcap]
      omega
    · rw [Function.update_of_ne (Ne.symm hx)]
      refine Eq.trans ?_ (h.placed x)
      rw [if_neg hx] at hcount
      by_cases hg : R.worker x = R.leastLoaded
      · rw [hg, Function.update_self, count_push, if_neg hx]
        omega
      · rw [Function.update_of_ne hg]
        omega
  · intro g x hx
    show Function.update R.worker r R.leastLoaded x = g
    have hposted : x ∈ R.mail g ∨ (x = r ∧ g = R.leastLoaded) := by
      have hmem : x ∈ Function.update R.mail R.leastLoaded (R.mail R.leastLoaded ++ [r]) g := hx
      by_cases hg : g = R.leastLoaded
      · rw [hg, Function.update_self] at hmem
        rcases List.mem_append.mp hmem with hmem | hmem
        · exact Or.inl (hg ▸ hmem)
        · exact Or.inr ⟨List.mem_singleton.mp hmem, hg⟩
      · rw [Function.update_of_ne hg] at hmem
        exact Or.inl hmem
    rcases hposted with hmem | ⟨rfl, rfl⟩
    · have hne : x ≠ r := fun heq => (h.not_kept hfree g).1 (heq ▸ hmem)
      rw [Function.update_of_ne hne]
      exact h.mail_worker g x hmem
    · exact Function.update_self ..
  · intro g x hx
    have hx : x ∈ R.mine g := hx
    have hne : x ≠ r := by
      rintro rfl
      exact (h.not_kept hfree g).2 hx
    have hother : (R.post r).worker x = R.worker x := Function.update_of_ne hne ..
    rw [hother]
    exact h.mine_worker g x hx
  · intro x hx
    show Function.update R.worker r R.leastLoaded x < R.workers
    by_cases hxr : x = r
    · rw [hxr, Function.update_self]
      exact R.leastLoaded_lt hworkers
    · rw [Function.update_of_ne hxr]
      refine h.worker_lt x ⟨hx.1, fun hmem => ?_⟩
      exact hx.2 ((h.mem_dropLast hr x).mpr ⟨hmem, hxr⟩)
  · intro w
    have hrooms : (R.post r).rooms w =
        if w = R.leastLoaded then insert r (R.rooms w) else R.rooms w :=
      rooms_insert rfl hcap (h.mem_dropLast hr) rfl hfree
    rw [hrooms]
    show (Function.update R.load R.leastLoaded (R.load R.leastLoaded + 1) w).toNat = _
    by_cases hw : w = R.leastLoaded
    · rw [hw, Function.update_self, if_pos rfl]
      exact h.load_insert hfree R.leastLoaded
    · rw [Function.update_of_ne hw, if_neg hw]
      exact h.loads w

theorem step_drain (h : R.Kept) (g : Nat) : (R.drain g).Kept := by
  refine { h with placed := ?_, mail_worker := ?_, mine_worker := ?_ }
  · intro x
    refine Eq.trans ?_ (h.placed x)
    show R.free.count x + (Function.update R.mail g [] (R.worker x)).count x +
      (Function.update R.mine g (R.mine g ++ R.mail g) (R.worker x)).count x = _
    by_cases hg : R.worker x = g
    · rw [hg, Function.update_self, Function.update_self, List.count_append, List.count_nil]
      omega
    · rw [Function.update_of_ne hg, Function.update_of_ne hg]
  · intro g' x hx
    have hx : x ∈ Function.update R.mail g [] g' := hx
    by_cases hg : g' = g
    · rw [hg, Function.update_self] at hx
      cases hx
    · rw [Function.update_of_ne hg] at hx
      exact h.mail_worker g' x hx
  · intro g' x hx
    have hx : x ∈ Function.update R.mine g (R.mine g ++ R.mail g) g' := hx
    by_cases hg : g' = g
    · subst hg
      rw [Function.update_self] at hx
      rcases List.mem_append.mp hx with hx | hx
      · exact h.mine_worker g' x hx
      · exact h.mail_worker g' x hx
    · rw [Function.update_of_ne hg] at hx
      exact h.mine_worker g' x hx

theorem step_die (h : R.Kept) {g i r : Nat} (hr : (R.mine g)[i]? = some r) :
    (R.die g i r).Kept := by
  have hmem := List.mem_of_getElem? hr
  have hown := h.mine_worker g r hmem
  have hlive := h.live_of_mine hmem
  constructor
  · exact h.small
  · intro x
    refine Eq.trans ?_ (h.placed x)
    have hcount := count_swapRemoveAt hr x
    show (R.free ++ [r]).count x + (R.mail (R.worker x)).count x +
      (Function.update R.mine g (swapRemoveAt (R.mine g) i) (R.worker x)).count x = _
    rw [count_push]
    by_cases hg : R.worker x = g
    · rw [hg, Function.update_self]
      omega
    · have hne : r ≠ x := by
        rintro rfl
        exact hg hown
      rw [Function.update_of_ne hg, if_neg hne]
      omega
  · exact h.mail_worker
  · intro g' x hx
    have hx : x ∈ Function.update R.mine g (swapRemoveAt (R.mine g) i) g' := hx
    by_cases hg : g' = g
    · subst hg
      rw [Function.update_self] at hx
      have hall := (swapRemoveAt_perm hr).subset
      exact h.mine_worker g' x (hall (List.mem_cons_of_mem _ hx))
    · rw [Function.update_of_ne hg] at hx
      exact h.mine_worker g' x hx
  · intro x hx
    exact h.worker_lt x ⟨hx.1, fun hmem => hx.2 (List.mem_append_left _ hmem)⟩
  · intro w
    have hrooms : (R.die g i r).rooms w = (R.rooms w).erase r :=
      rooms_erase rfl (by simp [die]) rfl
    rw [hrooms]
    show (Function.update R.load (R.worker r) (R.load (R.worker r) - 1) w).toNat = _
    by_cases hw : w = R.worker r
    · rw [hw, Function.update_self]
      exact h.load_erase hlive
    · have hnot : r ∉ R.rooms w := fun hmem => hw (mem_rooms.mp hmem).2.symm
      rw [Function.update_of_ne hw, Finset.erase_eq_of_notMem hnot]
      exact h.loads w

theorem step_move (h : R.Kept) {g i old nr : Nat} (hold : (R.mine g)[i]? = some old)
    (hnr : R.free.getLast? = some nr) : (R.move g i old nr).Kept := by
  have hmem := List.mem_of_getElem? hold
  have hown := h.mine_worker g old hmem
  have hlive := h.live_of_mine hmem
  have hfree := List.mem_of_getLast? hnr
  have hne : nr ≠ old := by
    rintro rfl
    exact hlive.2 hfree
  have hworker (x : Nat) (hx : x ≠ nr) : (R.move g i old nr).worker x = R.worker x :=
    Function.update_of_ne hx ..
  have hworker' : (R.move g i old nr).worker nr = g := (Function.update_self ..).trans hown
  have hmine (g' : Nat) (hg' : g' ≠ g) : (R.move g i old nr).mine g' = R.mine g' :=
    Function.update_of_ne hg' ..
  have hmine' : (R.move g i old nr).mine g = (R.mine g).set i nr := Function.update_self ..
  have hrest (x : Nat) : x ∈ (R.move g i old nr).free ↔ x ∈ (R.take nr g).free ∨ x = old := by
    show x ∈ R.free.dropLast ++ [old] ↔ x ∈ R.free.dropLast ∨ x = old
    rw [List.mem_append, List.mem_singleton]
  constructor
  · exact h.small
  · intro x
    have hcount := count_dropLast hnr x
    have hset := count_set hold nr x
    show (R.free.dropLast ++ [old]).count x + (R.mail ((R.move g i old nr).worker x)).count x +
      ((R.move g i old nr).mine ((R.move g i old nr).worker x)).count x = _
    rw [count_push]
    by_cases hx : nr = x
    · subst hx
      have hmail := List.count_eq_zero.mpr (h.not_kept hfree g).1
      have hnone := List.count_eq_zero.mpr (h.not_kept hfree g).2
      have hone := h.count_free hfree
      have hcap := h.lt_of_free hfree
      rw [if_pos rfl] at hcount hset
      rw [if_neg (Ne.symm hne)] at hset ⊢
      rw [hworker', hmine', hmail]
      show _ = if nr < R.cap then 1 else 0
      rw [if_pos hcap]
      omega
    · refine Eq.trans ?_ (h.placed x)
      rw [if_neg hx] at hcount hset
      rw [hworker x (Ne.symm hx)]
      by_cases hg : R.worker x = g
      · rw [hg, hmine']
        omega
      · have hne' : old ≠ x := by
          rintro rfl
          exact hg hown
        rw [hmine _ hg, if_neg hne']
        omega
  · intro g' x hx
    have hx : x ∈ R.mail g' := hx
    have hne' : x ≠ nr := by
      rintro rfl
      exact (h.not_kept hfree g').1 hx
    rw [hworker x hne']
    exact h.mail_worker g' x hx
  · intro g' x hx
    by_cases hg : g' = g
    · subst hg
      rw [hmine'] at hx
      rcases List.mem_or_eq_of_mem_set hx with hin | rfl
      · have hne' : x ≠ nr := fun heq => (h.not_kept hfree g').2 (heq ▸ hin)
        rw [hworker x hne']
        exact h.mine_worker g' x hin
      · exact hworker'
    · rw [hmine g' hg] at hx
      have hne' : x ≠ nr := by
        rintro rfl
        exact (h.not_kept hfree g').2 hx
      rw [hworker x hne']
      exact h.mine_worker g' x hx
  · intro x hx
    by_cases hxr : x = nr
    · rw [hxr, hworker', ← hown]
      exact h.worker_lt old hlive
    · rw [hworker x hxr]
      refine h.worker_lt x ⟨hx.1, fun hmem' => ?_⟩
      exact hx.2 ((hrest x).mpr (Or.inl ((h.mem_dropLast hnr x).mpr ⟨hmem', hxr⟩)))
  · intro w
    -- the worker gains the new room and loses the old one
    have hgain : (R.take nr g).rooms w = if w = g then insert nr (R.rooms w) else R.rooms w :=
      rooms_insert rfl (h.lt_of_free hfree) (h.mem_dropLast hnr) rfl hfree
    have hworkers : (R.move g i old nr).worker = (R.take nr g).worker := by
      simp only [move, take, hown]
    have hlose : (R.move g i old nr).rooms w = ((R.take nr g).rooms w).erase old :=
      rooms_erase rfl hrest hworkers
    have hload := h.loads w
    have hsame : (R.move g i old nr).load w = R.load w := rfl
    rw [hsame, hlose, hgain, hload]
    by_cases hw : w = g
    · have hin : old ∈ insert nr (R.rooms w) :=
        Finset.mem_insert_of_mem (mem_rooms.mpr ⟨hlive, hown.trans hw.symm⟩)
      have hnot : nr ∉ R.rooms w := fun hmem => (mem_rooms.mp hmem).1.2 hfree
      rw [if_pos hw, Finset.card_erase_of_mem hin, Finset.card_insert_of_notMem hnot]
      rfl
    · have hnot : old ∉ R.rooms w := fun hmem => hw ((mem_rooms.mp hmem).2.symm.trans hown)
      rw [if_neg hw, Finset.erase_eq_of_notMem hnot]

theorem step (h : R.Kept) {o : Option Nat} (hstep : R.Step o R') : R'.Kept := by
  cases hstep with
  | post r hworkers hr => exact h.step_post hworkers hr
  | drain g => exact h.step_drain g
  | die g i r hr => exact h.step_die hr
  | move g i old nr hold hnr => exact h.step_move hold hnr

theorem steps (h : R.Kept) {o : Option Nat} (hsteps : R.Steps o R') : R'.Kept := by
  induction hsteps with
  | refl => exact h
  | tail _ hstep ih => exact ih.step hstep

/-- The worker of a live room stays, whatever one worker does; a slot that it frees and takes
again had this worker before. -/
theorem worker_steps (h : R.Kept) {o : Option Nat} (hsteps : R.Steps o R') {r : Nat}
    (hr : R.Live r) : R'.worker r = R.worker r := by
  have hboth : R'.worker r = R.worker r ∧ (r ∈ R'.free → o = some (R'.worker r)) := by
    induction hsteps with
    | refl => exact ⟨rfl, fun hfree => absurd hfree hr.2⟩
    | @tail R₁ R₂ hsteps hstep ih =>
      obtain ⟨hworker, hfreed⟩ := ih
      have hkept := h.steps hsteps
      cases hstep with
      | post x hworkers hx =>
        have hne : r ≠ x := by
          rintro rfl
          cases hfreed (List.mem_of_getLast? hx)
        have hother : (R₁.post x).worker r = R₁.worker r := Function.update_of_ne hne ..
        rw [hother]
        exact ⟨hworker, fun hfree => hfreed (List.mem_of_mem_dropLast hfree)⟩
      | drain g => exact ⟨hworker, hfreed⟩
      | die g i x hx =>
        refine ⟨hworker, fun hfree => ?_⟩
        rcases List.mem_append.mp hfree with hfree | hfree
        · exact hfreed hfree
        · have hown := hkept.mine_worker g x (List.mem_of_getElem? hx)
          obtain rfl : r = x := List.mem_singleton.mp hfree
          exact congrArg some hown.symm
      | move g i old nr hold hnr =>
        have hown := hkept.mine_worker g old (List.mem_of_getElem? hold)
        by_cases hnew : r = nr
        · subst hnew
          have hg := Option.some.inj (hfreed (List.mem_of_getLast? hnr))
          have hself : (R₁.move g i old r).worker r = g := (Function.update_self ..).trans hown
          rw [hself]
          exact ⟨hg.trans hworker, fun _ => rfl⟩
        · have hother : (R₁.move g i old nr).worker r = R₁.worker r := Function.update_of_ne hnew ..
          rw [hother]
          refine ⟨hworker, fun hfree => ?_⟩
          rcases List.mem_append.mp hfree with hfree | hfree
          · exact hfreed (List.mem_of_mem_dropLast hfree)
          · rw [List.mem_singleton.mp hfree, hown]
  exact hboth.1

end Kept

end Roster

end BeltServer
