import BeltServer.Lib.Histogram
import Mathlib.Data.Set.Card
import Mathlib.Order.Interval.Finset.Nat
import Mathlib.Tactic.Linarith
import Mathlib.Tactic.Ring

/-!
# The pace of a game worker

`GameWorker::Loop`: sleep until `next`, note how late it is, run up to three ticks, and rebase when
that is not enough. Instants are nanoseconds of the monotonic clock, as integers; what the clock reads
after a sleep is arbitrary.
-/

namespace BeltServer.Pacing

set_option autoImplicit false

def kTickHz : Int := 60
def kTickPeriodNs : Int := 1000000000 / kTickHz
def kMaxCatchupSteps : Nat := 3

/-- The bounds of the oversleep histogram in microseconds; one more bucket is unbounded. -/
def kOversleepBucketUs : List Int := [50, 100, 200, 500, 1000, 2000, 5000, 10000]

structure GameWorkerStats where
  ticks : Int := 0
  wakes : Int := 0
  skippedTicks : Int := 0
  rebases : Int := 0
  oversleepMaxNs : Int := 0
  oversleepBucket : Nat → Int := fun _ => 0

structure Pace where
  next : Int
  gw : GameWorkerStats := {}

def recordOversleep (gw : GameWorkerStats) (oversleepNs : Int) : GameWorkerStats :=
  let us := oversleepNs.tdiv 1000
  let b := Histogram.bucketOf kOversleepBucketUs us
  { gw with
    wakes := gw.wakes + 1
    oversleepMaxNs := if gw.oversleepMaxNs < oversleepNs then oversleepNs else gw.oversleepMaxNs
    oversleepBucket := Function.update gw.oversleepBucket b (gw.oversleepBucket b + 1) }

def tick (p : Pace) : Pace where
  next := p.next + kTickPeriodNs
  gw := { p.gw with ticks := p.gw.ticks + 1 }

/-- The do-while loop of the catch-up, with the number of steps made so far. -/
def catchUp (now : Int) (p : Pace) (steps : Nat) : Pace × Nat :=
  if now ≥ (tick p).next ∧ steps + 1 < kMaxCatchupSteps then catchUp now (tick p) (steps + 1)
  else (tick p, steps + 1)
termination_by kMaxCatchupSteps - steps

def behind (now next : Int) : Int := (now - next) / kTickPeriodNs + 1

def rebase (now : Int) (p : Pace) : Pace :=
  if now ≥ p.next then
    { next := now + kTickPeriodNs
      gw := { p.gw with
        skippedTicks := p.gw.skippedTicks + behind now p.next
        rebases := p.gw.rebases + 1 } }
  else p

/-- What the clock reading `now` makes of the loop, from one head to the next. -/
def wake (now : Int) (p : Pace) : Pace :=
  let overslept := { p with gw := recordOversleep p.gw (if now > p.next then now - p.next else 0) }
  rebase now (catchUp now overslept 0).1

/-- The first instant of worker `id` of `total`: they are staggered over one period. -/
def start (id : UInt8) (total : UInt32) (t0Ns : Int) : Pace where
  next :=
    let total : Nat := if total = 0 then 1 else total.toNat
    t0Ns + id.toNat * (kTickPeriodNs / total)

/-- The loop head after `n` iterations with the clock readings `reading 0`, `reading 1`, .. -/
def loop (id : UInt8) (total : UInt32) (t0Ns : Int) (reading : Nat → Int) : Nat → Pace
  | 0 => start id total t0Ns
  | n + 1 => wake (reading n) (loop id total t0Ns reading n)

/-! ### A wake -/

def ticked (p : Pace) (k : Nat) : Pace where
  next := p.next + k * kTickPeriodNs
  gw := { p.gw with ticks := p.gw.ticks + k }

theorem ticked_tick (p : Pace) (k : Nat) : ticked (tick p) k = ticked p (k + 1) := by
  have hnext : p.next + kTickPeriodNs + k * kTickPeriodNs =
      p.next + ((k + 1 : Nat) : Int) * kTickPeriodNs := by
    push_cast
    ring
  have hticks : p.gw.ticks + 1 + (k : Int) = p.gw.ticks + ((k + 1 : Nat) : Int) := by
    push_cast
    ring
  unfold ticked tick
  rw [hnext, hticks]

theorem tick_eq_ticked (p : Pace) : tick p = ticked p 1 := by
  unfold tick ticked
  rw [Nat.cast_one, one_mul]

/-- The catch-up loop, entered with `steps` steps made: the instant of every further step but
the first has been reached, and it stops short of the limit only if the next one has not. -/
theorem catchUp_spec (now : Int) (p : Pace) (steps : Nat) (hsteps : steps < kMaxCatchupSteps) :
    ∃ k, 1 ≤ k ∧ steps + k ≤ kMaxCatchupSteps ∧ catchUp now p steps = (ticked p k, steps + k) ∧
      (∀ m, 1 ≤ m → m < k → (ticked p m).next ≤ now) ∧
      (steps + k < kMaxCatchupSteps → now < (ticked p k).next) := by
  fun_induction catchUp now p steps with
  | case1 p steps hmore ih =>
    obtain ⟨k, hk, hlimit, heq, hreached, hstop⟩ := ih hmore.2
    refine ⟨k + 1, by omega, by omega, ?_, fun m hm hmk => ?_, fun hlt => ?_⟩
    · rw [heq, ticked_tick, Nat.add_assoc, Nat.add_comm 1 k]
    · rcases Nat.lt_or_eq_of_le hm with hlater | rfl
      · obtain ⟨m, rfl⟩ := Nat.exists_eq_add_of_le' hm
        rw [← ticked_tick]
        exact hreached m (by omega) (by omega)
      · rw [← tick_eq_ticked]
        exact hmore.1
    · rw [← ticked_tick]
      exact hstop (by omega)
  | case2 p steps hend =>
    refine ⟨1, Nat.le_refl 1, hsteps, ?_, fun m hm hm' => ?_, fun hlt => ?_⟩
    · rw [tick_eq_ticked]
    · omega
    · rw [← tick_eq_ticked]
      by_contra hreached
      exact hend ⟨not_lt.mp hreached, hlt⟩

/-! ### The skipped instants -/

/-- `behind` counts the scheduled instants that have been reached and were not run. -/
theorem behind_ncard {now next : Int} (h : next ≤ now) :
    behind now next = Set.ncard {k : Nat | next + k * kTickPeriodNs ≤ now} := by
  have hP : 0 < kTickPeriodNs := by decide
  have hnonneg : 0 ≤ (now - next) / kTickPeriodNs :=
    Int.ediv_nonneg (Int.sub_nonneg_of_le h) hP.le
  have hset : {k : Nat | next + k * kTickPeriodNs ≤ now} =
      ↑(Finset.range (((now - next) / kTickPeriodNs).toNat + 1)) := by
    ext k
    rw [Set.mem_ofPred_eq, Finset.coe_range, Set.mem_Iio, Nat.lt_succ_iff]
    have hdiv : (k : Int) ≤ (now - next) / kTickPeriodNs ↔ (k : Int) * kTickPeriodNs ≤ now - next :=
      Int.le_ediv_iff_mul_le hP
    omega
  rw [hset, Set.ncard_coe_finset, Finset.card_range]
  unfold behind
  omega

theorem ncard_unreached {now next : Int} (h : now < next) :
    Set.ncard {k : Nat | next + k * kTickPeriodNs ≤ now} = 0 := by
  have hP : 0 < kTickPeriodNs := by decide
  have hset : {k : Nat | next + k * kTickPeriodNs ≤ now} = ∅ := by
    ext k
    rw [Set.mem_ofPred_eq, Set.mem_empty_iff_false, iff_false, not_le]
    have hnonneg : 0 ≤ (k : Int) * kTickPeriodNs := Int.mul_nonneg (Int.natCast_nonneg k) hP.le
    omega
  rw [hset, Set.ncard_empty]

/-- A rebase moves `next` on by the skipped ticks and less than one period more. -/
theorem behind_bounds (now next : Int) :
    behind now next * kTickPeriodNs ≤ now + kTickPeriodNs - next ∧
      now + kTickPeriodNs - next ≤ behind now next * kTickPeriodNs + (kTickPeriodNs - 1) := by
  have hP : 0 < kTickPeriodNs := by decide
  have hdiv := Int.mul_ediv_add_emod (now - next) kTickPeriodNs
  have hlow := Int.emod_nonneg (now - next) hP.ne'
  have hhigh := Int.emod_lt_of_pos (now - next) hP
  have hbehind : behind now next * kTickPeriodNs =
      kTickPeriodNs * ((now - next) / kTickPeriodNs) + kTickPeriodNs := by
    unfold behind
    ring
  omega

/-! ### The loop -/

/-- One iteration: `k` ticks, and a rebase if they were not enough. -/
theorem wake_spec (now : Int) (p : Pace) :
    ∃ k, 1 ≤ k ∧ k ≤ kMaxCatchupSteps ∧
      (wake now p).gw.ticks = p.gw.ticks + k ∧
      (∀ m, 1 ≤ m → m < k → (ticked p m).next ≤ now) ∧
      now < (wake now p).next ∧
      (wake now p).gw.skippedTicks = p.gw.skippedTicks +
        Set.ncard {m : Nat | (ticked p k).next + m * kTickPeriodNs ≤ now} ∧
      (((ticked p k).next ≤ now ∧ (wake now p).next = now + kTickPeriodNs ∧
          (wake now p).gw.skippedTicks = p.gw.skippedTicks + behind now (ticked p k).next ∧
          (wake now p).gw.rebases = p.gw.rebases + 1) ∨
        (now < (ticked p k).next ∧ (wake now p).next = (ticked p k).next ∧
          (wake now p).gw.skippedTicks = p.gw.skippedTicks ∧
          (wake now p).gw.rebases = p.gw.rebases)) := by
  let overslept : Pace :=
    { p with gw := recordOversleep p.gw (if now > p.next then now - p.next else 0) }
  obtain ⟨k, hk, hlimit, heq, hreached, _⟩ := catchUp_spec now overslept 0 (by decide)
  have hwake : wake now p = rebase now (ticked overslept k) := by
    change rebase now (catchUp now overslept 0).1 = _
    rw [heq]
  refine ⟨k, hk, by omega, ?_, hreached, ?_⟩
  · rw [hwake]
    unfold rebase
    split
    · rfl
    · rfl
  · rw [hwake]
    unfold rebase
    have hP : 0 < kTickPeriodNs := by decide
    by_cases hlate : now ≥ (ticked p k).next
    · have hlate' : now ≥ (ticked overslept k).next := hlate
      rw [if_pos hlate', ← behind_ncard hlate]
      exact ⟨by dsimp only; omega, rfl, Or.inl ⟨hlate, rfl, rfl, rfl⟩⟩
    · have hlate' : ¬now ≥ (ticked overslept k).next := hlate
      have hearly := not_le.mp hlate
      rw [if_neg hlate', ncard_unreached hearly, Nat.cast_zero, Int.add_zero]
      exact ⟨hearly, rfl, Or.inr ⟨hearly, rfl, rfl, rfl⟩⟩

structure Accounted (S : Int) (p : Pace) : Prop where
  lower : (p.gw.ticks + p.gw.skippedTicks) * kTickPeriodNs ≤ p.next - S
  upper : p.next - S ≤
    (p.gw.ticks + p.gw.skippedTicks) * kTickPeriodNs + p.gw.rebases * (kTickPeriodNs - 1)

theorem Accounted.wake {S : Int} {p : Pace} (h : Accounted S p) (now : Int) :
    Accounted S (wake now p) := by
  obtain ⟨k, _, _, hticks, _, _, _, hcases⟩ := wake_spec now p
  have hlower := h.lower
  have hupper := h.upper
  have hnext : (ticked p k).next = p.next + k * kTickPeriodNs := rfl
  rcases hcases with ⟨_, hnew, hskipped, hrebases⟩ | ⟨_, hnew, hskipped, hrebases⟩
  · obtain ⟨hlow, hhigh⟩ := behind_bounds now (ticked p k).next
    have hsum : (p.gw.ticks + k + (p.gw.skippedTicks + behind now (ticked p k).next)) * kTickPeriodNs =
        (p.gw.ticks + p.gw.skippedTicks) * kTickPeriodNs + k * kTickPeriodNs +
          behind now (ticked p k).next * kTickPeriodNs := by ring
    have hreb : (p.gw.rebases + 1) * (kTickPeriodNs - 1) =
        p.gw.rebases * (kTickPeriodNs - 1) + (kTickPeriodNs - 1) := by ring
    constructor
    · rw [hticks, hskipped, hnew, hsum]
      linarith
    · rw [hticks, hskipped, hrebases, hnew, hsum, hreb]
      linarith
  · have hsum : (p.gw.ticks + k + p.gw.skippedTicks) * kTickPeriodNs =
        (p.gw.ticks + p.gw.skippedTicks) * kTickPeriodNs + k * kTickPeriodNs := by ring
    constructor
    · rw [hticks, hskipped, hnew, hsum]
      linarith
    · rw [hticks, hskipped, hrebases, hnew, hsum]
      linarith

/-- A wake at `now` that takes the loop from `p` to `p'` with `k` ticks. -/
structure Woken (now : Int) (p p' : Pace) (k : Nat) : Prop where
  ran : 1 ≤ k
  limit : k ≤ kMaxCatchupSteps
  ticks : p'.gw.ticks = p.gw.ticks + k
  /-- The instants of the ticks beyond the first. -/
  reached : ∀ m : Nat, 1 ≤ m → m < k → p.next + m * kTickPeriodNs ≤ now
  sleeps : now < p'.next
  /-- The instants reached and not run. -/
  skipped : p'.gw.skippedTicks = p.gw.skippedTicks +
    Set.ncard {m : Nat | p.next + (k + m) * kTickPeriodNs ≤ now}
  rebased : p'.gw.rebases = p.gw.rebases + 1 ∧ p.next + k * kTickPeriodNs ≤ now ∨
    p'.gw.rebases = p.gw.rebases ∧ now < p.next + k * kTickPeriodNs

theorem Woken.of_wake (now : Int) (p : Pace) : ∃ k, Woken now p (wake now p) k := by
  obtain ⟨k, hk, hlimit, hticks, hreached, hsleeps, hskipped, hcases⟩ := wake_spec now p
  have hset : {m : Nat | p.next + (k + m) * kTickPeriodNs ≤ now} =
      {m : Nat | (ticked p k).next + m * kTickPeriodNs ≤ now} := by
    ext m
    rw [Set.mem_ofPred_eq, Set.mem_ofPred_eq]
    unfold ticked
    rw [Int.add_mul, Int.add_assoc]
  refine ⟨k, hk, hlimit, hticks, hreached, hsleeps, ?_, ?_⟩
  · rw [hset]
    exact hskipped
  · rcases hcases with ⟨hlate, _, _, hrebases⟩ | ⟨hearly, _, _, hrebases⟩
    · exact Or.inl ⟨hrebases, hlate⟩
    · exact Or.inr ⟨hrebases, hearly⟩

/-- At every loop head the ticks run and skipped account for the time since the first instant,
up to less than a period for each rebase. A wake runs one to three ticks, those beyond the first
only when their instant has been reached, and leaves `next` in the future; what it adds to
`skippedTicks` are the instants reached and not run. -/
theorem pacing (id : UInt8) (total : UInt32) (t0Ns : Int) (reading : Nat → Int) (n : Nat) :
    Accounted (start id total t0Ns).next (loop id total t0Ns reading n) ∧
    ∃ k, Woken (reading n) (loop id total t0Ns reading n) (loop id total t0Ns reading (n + 1)) k := by
  constructor
  · induction n with
    | zero =>
      have hzero : (loop id total t0Ns reading 0).gw = {} := rfl
      have hnext : (loop id total t0Ns reading 0).next = (start id total t0Ns).next := rfl
      constructor
      · simp [hzero, hnext]
      · simp [hzero, hnext]
    | succ n ih => exact ih.wake (reading n)
  · exact Woken.of_wake (reading n) (loop id total t0Ns reading n)

/-! ### The oversleep histogram -/

def lateUs (now next : Int) : Int := (if now > next then now - next else 0).tdiv 1000

theorem wake_oversleep (now : Int) (p : Pace) :
    (wake now p).gw.wakes = p.gw.wakes + 1 ∧
      (wake now p).gw.oversleepBucket =
        Function.update p.gw.oversleepBucket (Histogram.bucketOf kOversleepBucketUs (lateUs now p.next))
          (p.gw.oversleepBucket (Histogram.bucketOf kOversleepBucketUs (lateUs now p.next)) + 1) := by
  let overslept : Pace :=
    { p with gw := recordOversleep p.gw (if now > p.next then now - p.next else 0) }
  obtain ⟨k, _, _, heq, _, _⟩ := catchUp_spec now overslept 0 (by decide)
  have hwake : wake now p = rebase now (ticked overslept k) := by
    change rebase now (catchUp now overslept 0).1 = _
    rw [heq]
  rw [hwake]
  unfold rebase
  split
  · exact ⟨rfl, rfl⟩
  · exact ⟨rfl, rfl⟩

/-- At every loop head the buckets are the histogram of how late each wake was, so that together
they count the wakes. -/
theorem oversleep_fill (id : UInt8) (total : UInt32) (t0Ns : Int) (reading : Nat → Int) (n : Nat) :
    (loop id total t0Ns reading n).gw.wakes = n ∧
      ∀ b, (loop id total t0Ns reading n).gw.oversleepBucket b =
        Histogram.fill kOversleepBucketUs
          ((List.range n).map fun i => lateUs (reading i) (loop id total t0Ns reading i).next) b := by
  induction n with
  | zero => exact ⟨rfl, fun _ => rfl⟩
  | succ n ih =>
    obtain ⟨hwakes, hbuckets⟩ := ih
    obtain ⟨hwakes', hbuckets'⟩ := wake_oversleep (reading n) (loop id total t0Ns reading n)
    refine ⟨?_, fun b => ?_⟩
    · rw [Nat.cast_succ, ← hwakes]
      exact hwakes'
    · have hstep := congrFun hbuckets' b
      rw [List.range_succ, List.map_append, Histogram.fill_apply, List.countP_append,
        ← Histogram.fill_apply, List.map_singleton, List.countP_singleton]
      refine hstep.trans ?_
      rw [Function.update_apply, hbuckets]
      by_cases hb : b = Histogram.bucketOf kOversleepBucketUs
          (lateUs (reading n) (loop id total t0Ns reading n).next)
      · rw [if_pos hb, if_pos (by simpa using hb.symm), ← hb]
        exact (Nat.cast_succ _).symm
      · rw [if_neg hb, if_neg (by simpa using Ne.symm hb)]
        exact hbuckets b

end BeltServer.Pacing
