import BeltServer.Lib.History
import BeltServer.Output
import BeltServer.Server

/-!
# The dirty map

`DirtyMap` of `Session.h`: rows of words, one row for each epoll worker, in one array.
`Mark` sets a bit in one access. `Drain` goes over the words of a row, takes each in one
exchange and calls back for its one bits while other threads keep marking.
-/

namespace BeltServer

set_option autoImplicit false

open Runs History

/-- The map as it lies in memory: `size` words are allocated, and sizes and addresses are
computed in 32 bits. -/
structure DirtyWords extends DirtyMap where
  size : Nat

namespace DirtyWords

def init (maxSessions workerCount : Nat) : DirtyWords :=
  let stride := (maxSessions + 63) % 2 ^ 32 / 64
  { stride := stride, size := stride * workerCount % 2 ^ 32 }

/-- The word that `Mark` addresses. -/
def index (m : DirtyWords) (worker sessIdx : Nat) : Nat :=
  (worker * m.stride + sessIdx / 64) % 2 ^ 32

def mark (m : DirtyWords) (worker sessIdx : Nat) : DirtyWords :=
  { m with
    words := Function.update m.words (m.index worker sessIdx)
      (BitWord.set (m.words (m.index worker sessIdx)) (sessIdx % 64)) }

/-- The start of the row that `Drain` goes over. -/
def base (m : DirtyWords) (worker : Nat) : Nat := worker * m.stride % 2 ^ 32

/-- The `exchange(0)` of `Drain`. -/
def exchange (m : DirtyWords) (worker w : Nat) : DirtyWords :=
  { m with words := Function.update m.words (m.base worker + w) 0#64 }

/-- The rows of `rows` workers lie in the array, and each has a bit for every session. -/
structure Fits (cap rows : Nat) (m : DirtyWords) : Prop where
  room : rows * m.stride ≤ m.size
  small : m.size < 2 ^ 32
  cover : cap ≤ 64 * m.stride
  narrow : 64 * m.stride ≤ 2 ^ 32

theorem init_fits {cap workers : Nat} (hcap : cap + 63 < 2 ^ 32)
    (hwords : (cap + 63) / 64 * workers < 2 ^ 32) : Fits cap workers (init cap workers) := by
  have hstride : (cap + 63) % 2 ^ 32 = cap + 63 := Nat.mod_eq_of_lt hcap
  unfold init
  rw [hstride]
  refine ⟨?_, Nat.mod_lt _ (Nat.two_pow_pos 32), ?_, ?_⟩
  · dsimp only
    rw [Nat.mod_eq_of_lt hwords, Nat.mul_comm]
  · dsimp only
    omega
  · dsimp only
    omega

section Rows

variable {cap rows : Nat} {m : DirtyWords} (hfits : Fits cap rows m) {w w' i i' k : Nat}
include hfits

theorem row_lt (hw : w < rows) (hk : k < m.stride) : w * m.stride + k < m.size := by
  have hrow : (w + 1) * m.stride ≤ rows * m.stride := Nat.mul_le_mul_right _ hw
  have hroom := hfits.room
  rw [Nat.succ_mul] at hrow
  omega

theorem base_eq (hw : w < rows) (hk : k < m.stride) : m.base w = w * m.stride := by
  have hlt := row_lt hfits hw hk
  have hsmall := hfits.small
  exact Nat.mod_eq_of_lt (by omega)

theorem index_eq (hw : w < rows) (hi : i < 64 * m.stride) :
    m.index w i = w * m.stride + i / 64 := by
  have hlt := row_lt hfits hw (Nat.div_lt_of_lt_mul hi)
  have hsmall := hfits.small
  exact Nat.mod_eq_of_lt (by omega)

theorem index_lt (hw : w < rows) (hi : i < 64 * m.stride) : m.index w i < m.size := by
  rw [index_eq hfits hw hi]
  exact row_lt hfits hw (Nat.div_lt_of_lt_mul hi)

/-- Where the sizes fit, memory is the map without bounds. -/
theorem mark_eq (hw : w < rows) (hi : i < 64 * m.stride) :
    (m.mark w i).toDirtyMap = m.toDirtyMap.mark w i := by
  unfold mark DirtyMap.mark
  rw [index_eq hfits hw hi]

theorem exchange_eq (hw : w < rows) (hk : k < m.stride) :
    (m.exchange w k).toDirtyMap = (m.toDirtyMap.exchange w k).2 := by
  unfold exchange DirtyMap.exchange
  rw [base_eq hfits hw hk]

theorem marked_mark (hw : w < rows) (hi : i < 64 * m.stride) (hi' : i' < 64 * m.stride) :
    (m.mark w i).marked w' i' = (m.marked w' i' || decide (w' = w ∧ i' = i)) := by
  rw [mark_eq hfits hw hi]
  exact DirtyMap.marked_mark hi hi'

theorem marked_exchange (hw : w < rows) (hk : k < m.stride) (hi' : i' < 64 * m.stride) :
    (m.exchange w k).marked w' i' = (m.marked w' i' && !decide (w' = w ∧ i' / 64 = k)) := by
  rw [exchange_eq hfits hw hk]
  exact DirtyMap.marked_exchange hk hi'

theorem getLsbD_word (hw : w < rows) (hk : k < m.stride) {b : Nat} (hb : b < 64) :
    (m.words (m.base w + k)).getLsbD b = m.marked w (k * 64 + b) := by
  have hdiv : (k * 64 + b) / 64 = k := by omega
  have hmod : (k * 64 + b) % 64 = b := by omega
  rw [base_eq hfits hw hk, DirtyMap.marked, hdiv, hmod]

end Rows

end DirtyWords

/-! ### Marking threads and draining workers -/

inductive DirtyEvent where
  | mark (w i : Nat)
  | take (w k : Nat)
  | deliver (w i : Nat)
  deriving DecidableEq

/-- Where a worker is in `Drain`: not in it, before the exchange of a word, or with what is
left of the word it has taken. -/
inductive DrainPc where
  | idle
  | next (k : Nat)
  | walking (k : Nat) (v : BitVec 64)

/-- The sessions of the one bits of a word. -/
def bitsAt (k : Nat) (v : BitVec 64) : List Nat := (BitWord.bits v).map fun b => k * 64 + b

def DrainPc.left : DrainPc → List Nat
  | .walking k v => bitsAt k v
  | _ => []

/-- The word that a pass goes to after those it has taken. -/
def DrainPc.ahead : DrainPc → Option Nat
  | .idle => none
  | .next k => some k
  | .walking k _ => some (k + 1)

/-- The map, the workers in `Drain`, everything that has happened, and for the last pass of
each worker the bits it has taken and those it has called back for. -/
structure DirtyRun where
  map : DirtyWords
  drain : Nat → DrainPc
  log : List DirtyEvent
  taken : Nat → List Nat
  visited : Nat → List Nat

inductive DirtyOp where
  | mark (w i : Nat)
  | drain (w : Nat)

namespace DirtyRun

def start (cap workers : Nat) : DirtyRun where
  map := .init cap workers
  drain _ := .idle
  log := []
  taken _ := []
  visited _ := []

/-- The next access of `Drain(w)`; no step where it would leave the array. -/
def drainStep (s : DirtyRun) (w : Nat) : Option DirtyRun :=
  match s.drain w with
  | .idle =>
    some
      { s with
        drain := Function.update s.drain w (.next 0)
        taken := Function.update s.taken w []
        visited := Function.update s.visited w [] }
  | .next k =>
    if k < s.map.stride then
      if s.map.base w + k < s.map.size then
        some
          { s with
            map := s.map.exchange w k
            drain := Function.update s.drain w (.walking k (s.map.words (s.map.base w + k)))
            log := s.log ++ [.take w k]
            taken := Function.update s.taken w
              (s.taken w ++ bitsAt k (s.map.words (s.map.base w + k))) }
      else none
    else some { s with drain := Function.update s.drain w .idle }
  | .walking k v =>
    if v = 0#64 then some { s with drain := Function.update s.drain w (.next (k + 1)) }
    else
      some
        { s with
          drain := Function.update s.drain w (.walking k (BitWord.clearLowest v))
          log := s.log ++ [.deliver w ((k * 64 + BitWord.lowest v) % 2 ^ 32)]
          visited := Function.update s.visited w
            (s.visited w ++ [(k * 64 + BitWord.lowest v) % 2 ^ 32]) }

/-- One access. Workers have numbers of eight bits. -/
def step (cap workers : Nat) : DirtyOp → DirtyRun → Option DirtyRun
  | .mark w i, s =>
    if (w < workers ∧ w < 256) ∧ i < cap ∧ s.map.index w i < s.map.size then
      some { s with map := s.map.mark w i, log := s.log ++ [.mark w i] }
    else none
  | .drain w, s => if w < workers ∧ w < 256 then s.drainStep w else none

inductive Moves (cap workers : Nat) (s : DirtyRun) : DirtyOp → DirtyRun → Prop where
  | mark {w i : Nat} (hw : w < workers) (hi : i < cap) :
      Moves cap workers s (.mark w i)
        { s with map := s.map.mark w i, log := s.log ++ [.mark w i] }
  | begin {w : Nat} (hw : w < workers) (hpc : s.drain w = .idle) :
      Moves cap workers s (.drain w)
        { s with
          drain := Function.update s.drain w (.next 0)
          taken := Function.update s.taken w []
          visited := Function.update s.visited w [] }
  | take {w k : Nat} (hw : w < workers) (hpc : s.drain w = .next k) (hk : k < s.map.stride) :
      Moves cap workers s (.drain w)
        { s with
          map := s.map.exchange w k
          drain := Function.update s.drain w (.walking k (s.map.words (s.map.base w + k)))
          log := s.log ++ [.take w k]
          taken := Function.update s.taken w
            (s.taken w ++ bitsAt k (s.map.words (s.map.base w + k))) }
  | finish {w k : Nat} (hw : w < workers) (hpc : s.drain w = .next k)
      (hk : ¬ k < s.map.stride) :
      Moves cap workers s (.drain w) { s with drain := Function.update s.drain w .idle }
  | advance {w k : Nat} (hw : w < workers) (hpc : s.drain w = .walking k 0#64) :
      Moves cap workers s (.drain w)
        { s with drain := Function.update s.drain w (.next (k + 1)) }
  | deliver {w k : Nat} {v : BitVec 64} (hw : w < workers) (hpc : s.drain w = .walking k v)
      (hv : v ≠ 0#64) :
      Moves cap workers s (.drain w)
        { s with
          drain := Function.update s.drain w (.walking k (BitWord.clearLowest v))
          log := s.log ++ [.deliver w ((k * 64 + BitWord.lowest v) % 2 ^ 32)]
          visited := Function.update s.visited w
            (s.visited w ++ [(k * 64 + BitWord.lowest v) % 2 ^ 32]) }

variable {cap workers : Nat} {s t : DirtyRun} {a : DirtyOp}

theorem moves_of_step (h : step cap workers a s = some t) : Moves cap workers s a t := by
  cases a with
  | mark w i =>
    simp only [step, Option.ite_none_right_eq_some] at h
    obtain ⟨⟨⟨hw, _⟩, hi, _⟩, heq⟩ := h
    cases heq
    exact .mark hw hi
  | drain w =>
    simp only [step, Option.ite_none_right_eq_some] at h
    obtain ⟨⟨hw, _⟩, h⟩ := h
    unfold drainStep at h
    split at h
    · next hpc =>
      cases h
      exact .begin hw hpc
    · next k hpc =>
      split at h
      · next hk =>
        simp only [Option.ite_none_right_eq_some] at h
        cases h.2
        exact .take hw hpc hk
      · next hk =>
        cases h
        exact .finish hw hpc hk
    · next k v hpc =>
      split at h
      · next hv =>
        cases h
        exact .advance hw (hv ▸ hpc)
      · next hv =>
        cases h
        exact .deliver hw hpc hv

theorem Moves.other (h : Moves cap workers s a t) {w : Nat} (hne : a ≠ .drain w) :
    t.drain w = s.drain w ∧ t.taken w = s.taken w ∧ t.visited w = s.visited w := by
  cases h with
  | mark => exact ⟨rfl, rfl, rfl⟩
  | begin =>
    have hw := fun heq => hne (congrArg DirtyOp.drain heq).symm
    exact ⟨Function.update_of_ne hw .., Function.update_of_ne hw .., Function.update_of_ne hw ..⟩
  | take =>
    have hw := fun heq => hne (congrArg DirtyOp.drain heq).symm
    exact ⟨Function.update_of_ne hw .., Function.update_of_ne hw .., rfl⟩
  | finish =>
    have hw := fun heq => hne (congrArg DirtyOp.drain heq).symm
    exact ⟨Function.update_of_ne hw .., rfl, rfl⟩
  | advance =>
    have hw := fun heq => hne (congrArg DirtyOp.drain heq).symm
    exact ⟨Function.update_of_ne hw .., rfl, rfl⟩
  | deliver =>
    have hw := fun heq => hne (congrArg DirtyOp.drain heq).symm
    exact ⟨Function.update_of_ne hw .., rfl, Function.update_of_ne hw ..⟩

theorem Moves.shape (h : Moves cap workers s a t) :
    t.map.stride = s.map.stride ∧ t.map.size = s.map.size := by
  cases h with
  | mark => exact ⟨rfl, rfl⟩
  | begin => exact ⟨rfl, rfl⟩
  | take => exact ⟨rfl, rfl⟩
  | finish => exact ⟨rfl, rfl⟩
  | advance => exact ⟨rfl, rfl⟩
  | deliver => exact ⟨rfl, rfl⟩

/-! ### What is marked, taken and delivered -/

/-- The worker has taken the word of the session after a mark that no earlier exchange of the
word has seen, and has not called back for the session since. -/
def Earned (log : List DirtyEvent) (w i : Nat) : Prop :=
  ∃ before after, log = before ++ .take w (i / 64) :: after ∧
    Since (.mark w i) (· = .take w (i / 64)) before ∧
    .take w (i / 64) ∉ after ∧ .deliver w i ∉ after

theorem earned_now {log : List DirtyEvent} {w i : Nat}
    (h : Since (.mark w i) (· = .take w (i / 64)) log) :
    Earned (log ++ [.take w (i / 64)]) w i :=
  ⟨log, [], rfl, h, nofun, nofun⟩

theorem Earned.snoc {log : List DirtyEvent} {w i : Nat} {e : DirtyEvent} (h : Earned log w i)
    (htake : e ≠ .take w (i / 64)) (hdeliver : e ≠ .deliver w i) : Earned (log ++ [e]) w i := by
  obtain ⟨before, after, rfl, hmark, hone, hnone⟩ := h
  refine ⟨before, after ++ [e], by simp, hmark, fun hmem => ?_, fun hmem => ?_⟩
  · rcases List.mem_append.mp hmem with hmem | hmem
    · exact hone hmem
    · exact htake (List.mem_singleton.mp hmem).symm
  · rcases List.mem_append.mp hmem with hmem | hmem
    · exact hnone hmem
    · exact hdeliver (List.mem_singleton.mp hmem).symm

structure Tracked (cap workers : Nat) (s : DirtyRun) : Prop where
  fits : s.map.Fits cap workers
  marks : ∀ w i, .mark w i ∈ s.log → w < workers ∧ i < cap
  set : ∀ w i, w < workers → i < 64 * s.map.stride → s.map.marked w i = true →
    Since (.mark w i) (· = .take w (i / 64)) s.log
  walk : ∀ w k v, w < workers → s.drain w = .walking k v →
    k < s.map.stride ∧ ∀ b, v.getLsbD b = true → Earned s.log w (k * 64 + b)
  kept : ∀ w i, w < workers → i < cap → Since (.mark w i) (· = .deliver w i) s.log →
    s.map.marked w i = true ∨ ∃ v, s.drain w = .walking (i / 64) v ∧ v.getLsbD (i % 64) = true
  delivered : ∀ xs w i ys, s.log = xs ++ .deliver w i :: ys → Earned xs w i

namespace Tracked

variable (hT : Tracked cap workers s) (hm : Moves cap workers s a t)
include hT hm

theorem fits_step : t.map.Fits cap workers := by
  obtain ⟨hstride, hsize⟩ := hm.shape
  have h := hT.fits
  constructor
  · rw [hstride, hsize]
    exact h.room
  · rw [hsize]
    exact h.small
  · rw [hstride]
    exact h.cover
  · rw [hstride]
    exact h.narrow

theorem marks_step (w i : Nat) (hmem : .mark w i ∈ t.log) : w < workers ∧ i < cap := by
  cases hm with
  | mark hw hi =>
    rcases List.mem_append.mp hmem with hmem | hmem
    · exact hT.marks w i hmem
    · cases List.mem_singleton.mp hmem
      exact ⟨hw, hi⟩
  | begin => exact hT.marks w i hmem
  | take =>
    rcases List.mem_append.mp hmem with hmem | hmem
    · exact hT.marks w i hmem
    · cases List.mem_singleton.mp hmem
  | finish => exact hT.marks w i hmem
  | advance => exact hT.marks w i hmem
  | deliver =>
    rcases List.mem_append.mp hmem with hmem | hmem
    · exact hT.marks w i hmem
    · cases List.mem_singleton.mp hmem

theorem set_step (w i : Nat) (hw : w < workers) (hi : i < 64 * t.map.stride)
    (hset : t.map.marked w i = true) : Since (.mark w i) (· = .take w (i / 64)) t.log := by
  cases hm with
  | mark hw' hi' =>
    have hcover := hT.fits.cover
    rw [DirtyWords.marked_mark hT.fits hw' (by omega) hi, Bool.or_eq_true,
      decide_eq_true_eq] at hset
    rcases hset with hset | ⟨rfl, rfl⟩
    · exact (hT.set w i hw hi hset).snoc nofun
    · exact since_now ..
  | begin => exact hT.set w i hw hi hset
  | take hw' _ hk =>
    rw [DirtyWords.marked_exchange hT.fits hw' hk hi, Bool.and_eq_true, Bool.not_eq_true',
      decide_eq_false_iff_not] at hset
    refine (hT.set w i hw hi hset.1).snoc fun heq => hset.2 ?_
    cases heq
    exact ⟨rfl, rfl⟩
  | finish => exact hT.set w i hw hi hset
  | advance => exact hT.set w i hw hi hset
  | deliver => exact (hT.set w i hw hi hset).snoc nofun

omit hm in
/-- The session number of a callback fits its type. -/
theorem lowest_lt {w k : Nat} {v : BitVec 64} (hw : w < workers)
    (hpc : s.drain w = .walking k v) (hv : v ≠ 0#64) :
    (k * 64 + BitWord.lowest v) % 2 ^ 32 = k * 64 + BitWord.lowest v := by
  have hk := (hT.walk w k v hw hpc).1
  have hlow := BitWord.lowest_lt hv
  have hnarrow := hT.fits.narrow
  exact Nat.mod_eq_of_lt (by omega)

theorem walk_step (w k : Nat) (v : BitVec 64) (hw : w < workers)
    (hpc : t.drain w = .walking k v) :
    k < t.map.stride ∧ ∀ b, v.getLsbD b = true → Earned t.log w (k * 64 + b) := by
  by_cases hown : a = .drain w
  · subst hown
    cases hm with
    | begin => cases (Function.update_self ..).symm.trans hpc
    | take _ _ hk =>
      cases (Function.update_self ..).symm.trans hpc
      refine ⟨hk, fun b hb => ?_⟩
      have hlt := BitVec.lt_of_getLsbD hb
      have hdiv : (k * 64 + b) / 64 = k := by omega
      rw [DirtyWords.getLsbD_word hT.fits hw hk hlt] at hb
      have hmarked := hT.set w (k * 64 + b) hw (by omega) hb
      have hnow := earned_now hmarked
      rw [hdiv] at hnow
      exact hnow
    | finish => cases (Function.update_self ..).symm.trans hpc
    | advance => cases (Function.update_self ..).symm.trans hpc
    | deliver hw' hpc' hv =>
      cases (Function.update_self ..).symm.trans hpc
      obtain ⟨hk, hearned⟩ := hT.walk _ _ _ hw hpc'
      refine ⟨hk, fun b hb => ?_⟩
      rw [BitWord.getLsbD_clearLowest hv, Bool.and_eq_true, decide_eq_true_eq] at hb
      rw [lowest_lt hT hw hpc' hv]
      refine (hearned b hb.1).snoc (e := .deliver w _) nofun fun heq => ?_
      have hsame := (DirtyEvent.deliver.inj heq).2
      omega
  · have hsame := (hm.other hown).1
    rw [hsame] at hpc
    obtain ⟨hk, hearned⟩ := hT.walk w k v hw hpc
    rw [hm.shape.1]
    refine ⟨hk, fun b hb => ?_⟩
    cases hm with
    | mark => exact (hearned b hb).snoc nofun nofun
    | begin => exact hearned b hb
    | take =>
      refine (hearned b hb).snoc (fun heq => hown ?_) nofun
      cases heq
      rfl
    | finish => exact hearned b hb
    | advance => exact hearned b hb
    | deliver =>
      refine (hearned b hb).snoc (e := .deliver _ _) nofun fun heq => hown ?_
      exact congrArg DirtyOp.drain (DirtyEvent.deliver.inj heq).1

theorem kept_step (w i : Nat) (hw : w < workers) (hi : i < cap)
    (hpending : Since (.mark w i) (· = .deliver w i) t.log) :
    t.map.marked w i = true ∨
      ∃ v, t.drain w = .walking (i / 64) v ∧ v.getLsbD (i % 64) = true := by
  have hcover := hT.fits.cover
  have hin : i < 64 * s.map.stride := by omega
  cases hm with
  | mark hw' hi' =>
    rw [DirtyWords.marked_mark hT.fits hw' (by omega) hin, Bool.or_eq_true, decide_eq_true_eq]
    rcases hpending.of_snoc with heq | ⟨hold, _⟩
    · cases heq
      exact .inl (.inr ⟨rfl, rfl⟩)
    · rcases hT.kept w i hw hi hold with hset | hwalk
      · exact .inl (.inl hset)
      · exact .inr hwalk
  | @begin w' _ hpc =>
    rcases hT.kept w i hw hi hpending with hset | ⟨v, hwalk, hv⟩
    · exact .inl hset
    · by_cases hown : w = w'
      · subst hown
        cases hpc.symm.trans hwalk
      · exact .inr ⟨v, (Function.update_of_ne hown ..).trans hwalk, hv⟩
  | @take w' k hw' hpc hk =>
    rw [DirtyWords.marked_exchange hT.fits hw' hk hin]
    rcases hpending.of_snoc with heq | ⟨hold, _⟩
    · cases heq
    · rcases hT.kept w i hw hi hold with hset | ⟨v, hwalk, hv⟩
      · by_cases hat : w = w' ∧ i / 64 = k
        · obtain ⟨rfl, rfl⟩ := hat
          refine .inr ⟨_, Function.update_self .., ?_⟩
          rw [DirtyWords.getLsbD_word hT.fits hw hk (Nat.mod_lt _ (by decide)), Nat.div_add_mod']
          exact hset
        · rw [hset, decide_eq_false hat]
          exact .inl rfl
      · by_cases hown : w = w'
        · subst hown
          cases hpc.symm.trans hwalk
        · exact .inr ⟨v, (Function.update_of_ne hown ..).trans hwalk, hv⟩
  | @finish w' _ _ hpc =>
    rcases hT.kept w i hw hi hpending with hset | ⟨v, hwalk, hv⟩
    · exact .inl hset
    · by_cases hown : w = w'
      · subst hown
        cases hpc.symm.trans hwalk
      · exact .inr ⟨v, (Function.update_of_ne hown ..).trans hwalk, hv⟩
  | @advance w' _ _ hpc =>
    rcases hT.kept w i hw hi hpending with hset | ⟨v, hwalk, hv⟩
    · exact .inl hset
    · by_cases hown : w = w'
      · subst hown
        cases hpc.symm.trans hwalk
        rw [BitVec.getLsbD_zero] at hv
        cases hv
      · exact .inr ⟨v, (Function.update_of_ne hown ..).trans hwalk, hv⟩
  | @deliver w' k v' hw' hpc hv' =>
    have hlow := lowest_lt hT hw' hpc hv'
    rcases hpending.of_snoc with heq | ⟨hold, hother⟩
    · cases heq
    · rcases hT.kept w i hw hi hold with hset | ⟨v, hwalk, hv⟩
      · exact .inl hset
      · by_cases hown : w = w'
        · subst hown
          cases hpc.symm.trans hwalk
          refine .inr ⟨_, Function.update_self .., ?_⟩
          rw [BitWord.getLsbD_clearLowest hv', hv, Bool.true_and, decide_eq_true_eq]
          rw [hlow] at hother
          intro heq
          apply hother
          rw [← heq, Nat.div_add_mod']
        · exact .inr ⟨v, (Function.update_of_ne hown ..).trans hwalk, hv⟩

theorem delivered_step (xs : List DirtyEvent) (w i : Nat) (ys : List DirtyEvent)
    (hsplit : t.log = xs ++ .deliver w i :: ys) : Earned xs w i := by
  have hold {e : DirtyEvent} (hlog : s.log ++ [e] = xs ++ .deliver w i :: ys) :
      (xs = s.log ∧ e = .deliver w i) ∨ Earned xs w i := by
    rcases List.eq_nil_or_concat ys with rfl | ⟨zs, z, rfl⟩
    · obtain ⟨hxs, he⟩ := List.append_inj' hlog rfl
      exact .inl ⟨hxs.symm, List.singleton_inj.mp he⟩
    · rw [List.concat_eq_append, ← List.cons_append, ← List.append_assoc] at hlog
      exact .inr (hT.delivered xs w i zs (List.append_inj' hlog rfl).1)
  cases hm with
  | mark =>
    rcases hold hsplit with ⟨_, heq⟩ | hearned
    · cases heq
    · exact hearned
  | begin => exact hT.delivered xs w i ys hsplit
  | take =>
    rcases hold hsplit with ⟨_, heq⟩ | hearned
    · cases heq
    · exact hearned
  | finish => exact hT.delivered xs w i ys hsplit
  | advance => exact hT.delivered xs w i ys hsplit
  | deliver hw hpc hv =>
    rcases hold hsplit with ⟨rfl, heq⟩ | hearned
    · rw [lowest_lt hT hw hpc hv] at heq
      cases heq
      exact (hT.walk _ _ _ hw hpc).2 _ (BitWord.getLsbD_lowest hv)
    · exact hearned

theorem tracked_step : Tracked cap workers t where
  fits := fits_step hT hm
  marks := marks_step hT hm
  set := set_step hT hm
  walk := walk_step hT hm
  kept := kept_step hT hm
  delivered := delivered_step hT hm

end Tracked

theorem tracked_start (hfits : DirtyWords.Fits cap workers (.init cap workers)) :
    Tracked cap workers (start cap workers) where
  fits := hfits
  marks _ _ hmem := nomatch hmem
  set w i _ _ hset := by
    simp [start, DirtyWords.init, DirtyMap.marked] at hset
  walk _ _ _ _ hpc := nomatch hpc
  kept _ _ _ _ hpending := absurd hpending not_since_nil
  delivered xs w i ys hsplit := by
    cases xs with
    | nil => cases hsplit
    | cons => cases hsplit

/-! ### One pass -/

/-- A pass has called back, in increasing order, for the bits it has taken but those left in
the word at hand. -/
structure Passed (pc : DrainPc) (taken visited : List Nat) : Prop where
  all : visited ++ pc.left = taken
  increasing : taken.Pairwise (· < ·)
  below : ∀ k, pc.ahead = some k → ∀ j ∈ taken, j < k * 64

theorem bitsAt_increasing (k : Nat) (v : BitVec 64) : (bitsAt k v).Pairwise (· < ·) := by
  unfold bitsAt
  rw [List.pairwise_map]
  exact (BitWord.bits_increasing v).imp fun h => Nat.add_lt_add_left h _

theorem mem_bitsAt {k j : Nat} {v : BitVec 64} (h : j ∈ bitsAt k v) :
    k * 64 ≤ j ∧ j < (k + 1) * 64 := by
  obtain ⟨b, hb, rfl⟩ := List.mem_map.mp h
  have hlt := BitVec.lt_of_getLsbD (BitWord.mem_bits.mp hb)
  omega

theorem bitsAt_cons {k : Nat} {v : BitVec 64} (hv : v ≠ 0#64) :
    bitsAt k v = (k * 64 + BitWord.lowest v) :: bitsAt k (BitWord.clearLowest v) := by
  unfold bitsAt
  rw [BitWord.bits_eq_cons hv, List.map_cons]

theorem passed_step (hT : Tracked cap workers s) (hm : Moves cap workers s a t) {w : Nat}
    (hp : Passed (s.drain w) (s.taken w) (s.visited w)) :
    Passed (t.drain w) (t.taken w) (t.visited w) := by
  by_cases hown : a = .drain w
  · subst hown
    cases hm with
    | begin =>
      dsimp only
      rw [Function.update_self, Function.update_self, Function.update_self]
      exact ⟨rfl, .nil, nofun⟩
    | @take _ k _ hpc =>
      rw [hpc] at hp
      have hall : s.visited w ++ [] = s.taken w := hp.all
      rw [List.append_nil] at hall
      dsimp only
      rw [Function.update_self, Function.update_self]
      refine ⟨by rw [hall]; rfl, ?_, fun j hj => ?_⟩
      · rw [List.pairwise_append]
        refine ⟨hp.increasing, bitsAt_increasing .., fun j hj j' hj' => ?_⟩
        have hbelow := hp.below k rfl j hj
        have habove := mem_bitsAt hj'
        omega
      · cases hj
        intro j hj
        rcases List.mem_append.mp hj with hj | hj
        · have hbelow := hp.below k rfl j hj
          omega
        · exact (mem_bitsAt hj).2
    | finish _ hpc =>
      rw [hpc] at hp
      dsimp only
      rw [Function.update_self]
      exact ⟨hp.all, hp.increasing, nofun⟩
    | advance _ hpc =>
      rw [hpc] at hp
      have hall := hp.all
      rw [DrainPc.left, bitsAt, BitWord.bits_zero] at hall
      dsimp only
      rw [Function.update_self]
      exact ⟨hall, hp.increasing, hp.below⟩
    | deliver hw hpc hv =>
      rw [hpc] at hp
      have hall := hp.all
      rw [DrainPc.left, bitsAt_cons hv] at hall
      dsimp only
      rw [Function.update_self, Function.update_self, Tracked.lowest_lt hT hw hpc hv]
      refine ⟨?_, hp.increasing, hp.below⟩
      rw [List.append_assoc]
      exact hall
  · obtain ⟨hdrain, htaken, hvisited⟩ := hm.other hown
    rw [hdrain, htaken, hvisited]
    exact hp

def rank (s : DirtyRun) (w : Nat) : Nat :=
  match s.drain w with
  | .idle => 0
  | .next k => (s.map.stride - k) * 66 + 1
  | .walking k v => (s.map.stride - (k + 1)) * 66 + (BitWord.bits v).length + 2

theorem rank_step (hm : Moves cap workers s a t) {w : Nat} (hown : a = .drain w)
    (hbusy : s.drain w ≠ .idle) : t.rank w < s.rank w := by
  subst hown
  unfold rank
  cases hm with
  | begin _ hpc => exact absurd hpc hbusy
  | @take _ k _ hpc hk =>
    rw [hpc]
    dsimp only
    rw [Function.update_self]
    have hlength := BitWord.length_bits_le (s.map.words (s.map.base w + k))
    have hstride : s.map.stride - k = s.map.stride - (k + 1) + 1 := by omega
    dsimp only [DirtyWords.exchange]
    rw [hstride, Nat.succ_mul]
    omega
  | finish _ hpc =>
    rw [hpc]
    dsimp only
    rw [Function.update_self]
    exact Nat.succ_pos _
  | advance _ hpc =>
    rw [hpc]
    dsimp only
    rw [Function.update_self]
    dsimp only
    omega
  | deliver _ hpc hv =>
    rw [hpc]
    dsimp only
    rw [Function.update_self, BitWord.bits_eq_cons hv]
    dsimp only [List.length_cons]
    omega

/-- A pass under way always has a next access. -/
theorem drain_enabled (hT : Tracked cap workers s) {w : Nat} (hw : w < workers)
    (hname : w < 256) : ∃ t, step cap workers (.drain w) s = some t := by
  unfold step
  dsimp only
  rw [if_pos ⟨hw, hname⟩]
  unfold drainStep
  split
  · exact ⟨_, rfl⟩
  · next k _ =>
    split
    · next hk =>
      have hlt := DirtyWords.row_lt hT.fits hw hk
      rw [if_pos (by rw [DirtyWords.base_eq hT.fits hw hk]; exact hlt)]
      exact ⟨_, rfl⟩
    · exact ⟨_, rfl⟩
  · split
    · exact ⟨_, rfl⟩
    · exact ⟨_, rfl⟩

structure Exact (cap workers : Nat) (s : DirtyRun) : Prop where
  /-- Every mark hits a word of the array. -/
  inside : ∀ w i, w < workers → i < cap → s.map.index w i < s.map.size
  /-- A callback is for a mark of that worker and session that the exchange before the one it
  comes from has not seen, and each exchange leads to one callback for it at most. -/
  earned : ∀ xs w i ys, s.log = xs ++ .deliver w i :: ys →
    w < workers ∧ i < cap ∧ Earned xs w i
  passes : ∀ w, w < workers → s.visited w ++ (s.drain w).left = s.taken w ∧
    (s.taken w).Pairwise (· < ·)
  ends : ∀ w, w < workers → w < 256 → s.drain w ≠ .idle →
    ∃ t, step cap workers (.drain w) s = some t ∧ t.rank w < s.rank w
  alone : ∀ a t w, step cap workers a s = some t → a ≠ .drain w → t.drain w = s.drain w
  kept : ∀ w i, w < workers → i < cap → Since (.mark w i) (· = .deliver w i) s.log →
    s.map.marked w i = true ∨ ∃ v, s.drain w = .walking (i / 64) v ∧ v.getLsbD (i % 64) = true

theorem tracked_run (hfits : DirtyWords.Fits cap workers (.init cap workers))
    (hrun : Reach (step cap workers) Any (start cap workers) s) :
    Tracked cap workers s ∧ ∀ w, Passed (s.drain w) (s.taken w) (s.visited w) := by
  apply hrun.invariant
    (P := fun s => Tracked cap workers s ∧ ∀ w, Passed (s.drain w) (s.taken w) (s.visited w))
  · exact ⟨tracked_start hfits, fun w => ⟨rfl, .nil, nofun⟩⟩
  · rintro s a t _ ⟨hT, hP⟩ _ hstep
    have hm := moves_of_step hstep
    exact ⟨hT.tracked_step hm, fun w => passed_step hT hm (hP w)⟩

theorem exact_of_tracked (hT : Tracked cap workers s)
    (hP : ∀ w, Passed (s.drain w) (s.taken w) (s.visited w)) : s.Exact cap workers where
  inside w i hw hi := by
    have hcover := hT.fits.cover
    exact DirtyWords.index_lt hT.fits hw (by omega)
  earned xs w i ys hsplit := by
    have hearned := hT.delivered xs w i ys hsplit
    obtain ⟨before, after, hxs, hmark, _⟩ := hearned
    have hmem : .mark w i ∈ s.log := by
      rw [hsplit, hxs]
      exact List.mem_append_left _ (List.mem_append_left _ hmark.mem)
    obtain ⟨hw, hi⟩ := hT.marks w i hmem
    exact ⟨hw, hi, hT.delivered xs w i ys hsplit⟩
  passes w _ := ⟨(hP w).all, (hP w).increasing⟩
  ends w hw hname hbusy := by
    obtain ⟨t, hstep⟩ := drain_enabled hT hw hname
    exact ⟨t, hstep, rank_step (moves_of_step hstep) rfl hbusy⟩
  alone _ _ _ hstep hne := ((moves_of_step hstep).other hne).1
  kept := hT.kept

end DirtyRun

open DirtyRun

/-- As long as the sizes of `Init` fit in 32 bits, no interleaving of marks with the accesses
of the draining workers loses a mark or invents one. -/
theorem dirty_exact {cap workers : Nat} (hcap : cap + 63 < 2 ^ 32)
    (hwords : (cap + 63) / 64 * workers < 2 ^ 32) {s : DirtyRun}
    (hrun : Reach (DirtyRun.step cap workers) Any (start cap workers) s) :
    s.Exact cap workers := by
  obtain ⟨hT, hP⟩ := tracked_run (DirtyWords.init_fits hcap hwords) hrun
  exact exact_of_tracked hT hP

/-- Marks fall on the word that worker 3 is walking, one of them on a session yet to be called
back, and on the word after it. -/
theorem dirty_exact_walk : ∃ s, Reach (DirtyRun.step 8192 4) Any (start 8192 4) s ∧
    s.log = [.mark 3 5, .mark 3 6, .take 3 0, .deliver 3 5, .mark 3 5, .mark 3 6, .mark 3 70,
      .deliver 3 6, .take 3 1] ∧ s.Exact 8192 4 := by
  have hlog : ((run (DirtyRun.step 8192 4) [.mark 3 5, .mark 3 6, .drain 3, .drain 3, .drain 3,
      .mark 3 5, .mark 3 6, .mark 3 70, .drain 3, .drain 3, .drain 3] (start 8192 4)).map
      DirtyRun.log) = some [.mark 3 5, .mark 3 6, .take 3 0, .deliver 3 5, .mark 3 5, .mark 3 6,
        .mark 3 70, .deliver 3 6, .take 3 1] := by decide +kernel
  obtain ⟨s, hrun, hlog⟩ := Option.map_eq_some_iff.mp hlog
  have hreach : Reach (DirtyRun.step 8192 4) Any (start 8192 4) s := reach_of_run hrun
  exact ⟨s, hreach, hlog, dirty_exact (by decide) (by decide) hreach⟩

/-- A session marked again between the exchange and its callback is called back for twice
after its last mark; and with a capacity of 2 ^ 32 - 1 the array has no words at all. -/
theorem dirty_twice :
    (∃ s xs, Reach (DirtyRun.step 64 1) Any (start 64 1) s ∧ s.log = xs ++ [.deliver 0 0] ∧
      ¬ Since (.mark 0 0) (· = .deliver 0 0) xs) ∧
    ¬ (DirtyWords.init 4294967295 1).index 0 0 < (DirtyWords.init 4294967295 1).size := by
  constructor
  · have hlog : ((run (DirtyRun.step 64 1) [.mark 0 0, .drain 0, .drain 0, .mark 0 0, .drain 0,
        .drain 0, .drain 0, .drain 0, .drain 0, .drain 0] (start 64 1)).map DirtyRun.log)
        = some [.mark 0 0, .take 0 0, .mark 0 0, .deliver 0 0, .take 0 0, .deliver 0 0] := by
      decide +kernel
    obtain ⟨s, hrun, hlog⟩ := Option.map_eq_some_iff.mp hlog
    refine ⟨s, [.mark 0 0, .take 0 0, .mark 0 0, .deliver 0 0, .take 0 0], reach_of_run hrun,
      hlog, fun h => ?_⟩
    have htake : Since (DirtyEvent.mark 0 0) (· = .deliver 0 0)
        ([.mark 0 0, .take 0 0, .mark 0 0, .deliver 0 0] ++ [.take 0 0]) := h
    rcases htake.of_snoc with heq | ⟨hrest, _⟩
    · cases heq
    · have hdeliver : Since (DirtyEvent.mark 0 0) (· = .deliver 0 0)
          ([.mark 0 0, .take 0 0, .mark 0 0] ++ [.deliver 0 0]) := hrest
      rcases hdeliver.of_snoc with heq | ⟨_, hno⟩
      · cases heq
      · exact hno rfl
  · decide

end BeltServer
