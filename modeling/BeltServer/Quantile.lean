import BeltServer.Lib.Histogram
import BeltServer.Lib.Tally
import Mathlib.Order.Bounds.Basic

/-!
# The quantile gate

The histograms of the load generator, and `p99Of`, which reads a bound off a histogram. Times are
integers in microseconds; counters do not wrap.
-/

namespace BeltServer

set_option autoImplicit false

open Histogram

def kLoopBucketUs : List Int := [50, 100, 200, 500, 1000, 2000, 5000, 10000, 40000]
def kRttBucketUs : List Int := [50, 100, 200, 500, 1000, 2000, 5000, 10000, 40000]

/-- `p99Of`: the edge of the first bucket by which 99 in 100 samples are reached, -1 when
that is the last bucket or there are no samples. -/
def p99Of (buckets : Nat → Nat) (edges : List Int) : Int :=
  let n := edges.length + 1
  let cum := total buckets n
  if cum = 0 then -1
  else
    match (List.range n).find? fun b => (cum * 99 + 99) / 100 ≤ total buckets (b + 1) with
    | some b => if h : b < edges.length then edges[b] else -1
    | none => -1

/-- At least 99 percent of the samples are at most `e`. -/
def Covers (samples : List Int) (e : Int) : Prop :=
  99 * samples.length ≤ 100 * samples.countP fun v => v ≤ e

theorem Covers.mono {samples : List Int} {e e' : Int} (h : Covers samples e) (hle : e ≤ e') :
    Covers samples e' := by
  have hcount : samples.countP (fun v => v ≤ e) ≤ samples.countP fun v => v ≤ e' := by
    apply List.countP_mono_left
    intro v _ hv
    simp only [decide_eq_true_eq] at hv ⊢
    omega
  unfold Covers at h ⊢
  omega

section Spec

variable {edges : List Int} (hinc : edges.Pairwise (· < ·)) (samples : List Int)
include hinc

theorem reached_iff {b : Nat} (hb : b < edges.length) :
    (samples.length * 99 + 99) / 100 ≤ total (fill edges samples) (b + 1)
      ↔ Covers samples edges[b] := by
  rw [total_upto hinc hb]
  unfold Covers
  omega

theorem p99Of_covered (hsome : samples ≠ []) (hcovered : ∃ e ∈ edges, Covers samples e) :
    IsLeast {e | e ∈ edges ∧ Covers samples e} (p99Of (fill edges samples) edges) := by
  have hlength : samples.length ≠ 0 := fun h => hsome (List.length_eq_zero_iff.mp h)
  unfold p99Of
  simp only [total_all]
  rw [if_neg hlength]
  split
  · next b hfind =>
    obtain ⟨hreached, hmem, hbefore⟩ := List.find?_range_eq_some.mp hfind
    simp only [decide_eq_true_eq] at hreached hbefore
    have hfirst {e : Int} (he : e ∈ edges) (hcover : Covers samples e) :
        ∃ h : b < edges.length, edges[b] ≤ e := by
      obtain ⟨i, hi, rfl⟩ := List.getElem_of_mem he
      have hbi : b ≤ i := by
        by_contra hless
        have hnot := hbefore i (Nat.lt_of_not_le hless)
        simp only [Bool.not_eq_true', decide_eq_false_iff_not] at hnot
        exact hnot ((reached_iff hinc samples hi).mpr hcover)
      refine ⟨by omega, ?_⟩
      rcases Nat.lt_or_eq_of_le hbi with hless | rfl
      · exact (List.pairwise_iff_getElem.mp hinc b i (by omega) hi hless).le
      · exact le_refl _
    obtain ⟨e, he, hcover⟩ := hcovered
    obtain ⟨hb, -⟩ := hfirst he hcover
    rw [dif_pos hb]
    refine ⟨⟨List.getElem_mem hb, (reached_iff hinc samples hb).mp hreached⟩, ?_⟩
    rintro e' ⟨he', hcover'⟩
    exact (hfirst he' hcover').2
  · next hnone =>
    obtain ⟨e, he, hcover⟩ := hcovered
    obtain ⟨i, hi, rfl⟩ := List.getElem_of_mem he
    have hnot := List.find?_range_eq_none.mp hnone i (by omega)
    simp only [Bool.not_eq_true', decide_eq_false_iff_not] at hnot
    exact absurd ((reached_iff hinc samples hi).mpr hcover) hnot

theorem p99Of_uncovered (h : samples = [] ∨ ∀ e ∈ edges, ¬ Covers samples e) :
    p99Of (fill edges samples) edges = -1 := by
  unfold p99Of
  simp only [total_all]
  rcases h with rfl | huncovered
  · rfl
  · split
    · rfl
    · split
      · next b hfind =>
        obtain ⟨hreached, -, -⟩ := List.find?_range_eq_some.mp hfind
        simp only [decide_eq_true_eq] at hreached
        split
        · next hb =>
          have hcover := (reached_iff hinc samples hb).mp hreached
          exact absurd hcover (huncovered _ (List.getElem_mem hb))
        · rfl
      · rfl

/-- `p99Of` of a histogram is the least edge that covers 99 percent of the samples. It is -1
without samples or such an edge, and otherwise only when -1 is an edge. -/
theorem p99Of_quantile :
    (samples ≠ [] → (∃ e ∈ edges, Covers samples e) →
      IsLeast {e | e ∈ edges ∧ Covers samples e} (p99Of (fill edges samples) edges)) ∧
    (samples = [] ∨ (∀ e ∈ edges, ¬ Covers samples e) →
      p99Of (fill edges samples) edges = -1) ∧
    (p99Of (fill edges samples) edges = -1 →
      samples = [] ∨ (∀ e ∈ edges, ¬ Covers samples e) ∨ -1 ∈ edges) ∧
    total (fill edges samples) (edges.length + 1) = samples.length := by
  refine ⟨p99Of_covered hinc samples, p99Of_uncovered hinc samples, fun hout => ?_,
    total_all samples⟩
  by_cases hsome : samples = []
  · exact .inl hsome
  · by_cases hcovered : ∃ e ∈ edges, Covers samples e
    · have hleast := p99Of_covered hinc samples hsome hcovered
      rw [hout] at hleast
      exact .inr (.inr hleast.1.1)
    · push Not at hcovered
      exact .inr (.inl hcovered)

end Spec

theorem kLoopBucketUs_increasing : kLoopBucketUs.Pairwise (· < ·) := by decide

theorem kRttBucketUs_increasing : kRttBucketUs.Pairwise (· < ·) := by decide

/-- A hundred samples, one of them beyond the edge that bounds the others. -/
theorem p99Of_quantile_hundred :
    IsLeast {e | e ∈ kLoopBucketUs ∧ Covers (70000 :: List.replicate 99 50) e}
      (p99Of (fill kLoopBucketUs (70000 :: List.replicate 99 50)) kLoopBucketUs) := by
  refine (p99Of_quantile kLoopBucketUs_increasing _).1 nofun ⟨50, by decide, ?_⟩
  unfold Covers
  decide +kernel

/-- With an edge at -1 the result -1 need not mean that no edge was reached. -/
theorem p99Of_edge_minus_one :
    ¬ (p99Of (fill [-1] [-1]) [-1] = -1 ↔
      [-1] = ([] : List Int) ∨ ∀ e ∈ [-1], ¬ Covers [-1] e) := by
  intro hiff
  have hout : p99Of (fill [-1] [-1]) [-1] = -1 := by decide +kernel
  rcases hiff.mp hout with hnone | huncovered
  · cases hnone
  · apply huncovered (-1) List.mem_cons_self
    unfold Covers
    decide

/-! ### The counters of the load generator -/

/-- `DummyStats`, the part that the histograms go to. -/
structure DummyStats where
  loops : Nat := 0
  loopBucket : Nat → Nat := fun _ => 0
  loopMaxUs : Int := 0
  echoRecv : Nat := 0
  rttBucket : Nat → Nat := fun _ => 0
  rttMaxUs : Int := 0

structure Local where
  loops : Nat := 0
  buckets : Nat → Nat := fun _ => 0
  maxUs : Int := 0
  echoRecv : Nat := 0
  rttBuckets : Nat → Nat := fun _ => 0
  rttMaxUs : Int := 0

def Local.looped (l : Local) (workUs : Int) : Local :=
  { l with
    loops := l.loops + 1
    maxUs := if workUs > l.maxUs then workUs else l.maxUs
    buckets := record kLoopBucketUs l.buckets workUs }

def Local.echoed (l : Local) (rttUs : Int) : Local :=
  { l with
    echoRecv := l.echoRecv + 1
    rttMaxUs := if rttUs > l.rttMaxUs then rttUs else l.rttMaxUs
    rttBuckets := record kRttBucketUs l.rttBuckets rttUs }

def Local.flush (l : Local) (g : DummyStats) : DummyStats × Local :=
  ({ loops := g.loops + l.loops
     loopBucket := fun b => g.loopBucket b + l.buckets b
     loopMaxUs := max g.loopMaxUs l.maxUs
     echoRecv := g.echoRecv + l.echoRecv
     rttBucket := fun b => g.rttBucket b + l.rttBuckets b
     rttMaxUs := max g.rttMaxUs l.rttMaxUs }, {})

structure Counters (n : Nat) where
  stats : DummyStats := {}
  locals : Fin n → Local := fun _ => {}

inductive Count (n : Nat) where
  | looped (w : Fin n) (workUs : Int)
  | echoed (w : Fin n) (rttUs : Int)
  | flushed (w : Fin n)

variable {n : Nat}

def Counters.count (c : Counters n) : Count n → Counters n
  | .looped w workUs =>
    { c with locals := Function.update c.locals w ((c.locals w).looped workUs) }
  | .echoed w rttUs => { c with locals := Function.update c.locals w ((c.locals w).echoed rttUs) }
  | .flushed w =>
    { stats := ((c.locals w).flush c.stats).1
      locals := Function.update c.locals w ((c.locals w).flush c.stats).2 }

/-- One histogram of the counters: where it is kept and which counts are its samples. -/
structure Column (n : Nat) where
  edges : List Int
  increasing : edges.Pairwise (· < ·)
  stats : DummyStats → Nat → Nat
  locals : Local → Nat → Nat
  sample : Count n → Option Int
  looped : ∀ w workUs l, locals (Local.looped l workUs)
    = (sample (.looped w workUs)).toList.foldl (record edges) (locals l)
  echoed : ∀ w rttUs l, locals (Local.echoed l rttUs)
    = (sample (.echoed w rttUs)).toList.foldl (record edges) (locals l)
  flushed : ∀ g l b, stats (Local.flush l g).1 b = stats g b + locals l b
  silent : ∀ w, sample (.flushed w) = none
  start : ∀ b, stats {} b = 0 ∧ locals {} b = 0

def loopColumn (n : Nat) : Column n where
  edges := kLoopBucketUs
  increasing := kLoopBucketUs_increasing
  stats := DummyStats.loopBucket
  locals := Local.buckets
  sample
    | .looped _ workUs => some workUs
    | _ => none
  looped _ _ _ := rfl
  echoed _ _ _ := rfl
  flushed _ _ _ := rfl
  silent _ := rfl
  start _ := ⟨rfl, rfl⟩

def rttColumn (n : Nat) : Column n where
  edges := kRttBucketUs
  increasing := kRttBucketUs_increasing
  stats := DummyStats.rttBucket
  locals := Local.rttBuckets
  sample
    | .echoed _ rttUs => some rttUs
    | _ => none
  looped _ _ _ := rfl
  echoed _ _ _ := rfl
  flushed _ _ _ := rfl
  silent _ := rfl
  start _ := ⟨rfl, rfl⟩

namespace Column

variable (col : Column n) (c : Counters n)

def held (b : Nat) : Nat := col.stats c.stats b + ∑ w, col.locals (c.locals w) b

theorem held_record {w : Fin n} {l : Local} {o : Option Int}
    (hl : col.locals l = o.toList.foldl (record col.edges) (col.locals (c.locals w))) (b : Nat) :
    col.held { c with locals := Function.update c.locals w l } b
      = col.held c b + o.toList.countP fun v => bucketOf col.edges v = b := by
  have hsum := Tally.sum_change (s := Finset.univ) (a := w)
    (f := fun v => col.locals (c.locals v) b)
    (g := fun v => col.locals (Function.update c.locals w l v) b) (Finset.mem_univ w)
    fun v hv => by rw [Function.update_of_ne hv]
  rw [Function.update_self, hl, foldl_record] at hsum
  unfold held
  dsimp only
  omega

theorem held_count (e : Count n) (b : Nat) :
    col.held (c.count e) b
      = col.held c b + (col.sample e).toList.countP fun v => bucketOf col.edges v = b := by
  cases e with
  | looped w workUs => exact col.held_record c (col.looped w workUs _) b
  | echoed w rttUs => exact col.held_record c (col.echoed w rttUs _) b
  | flushed w =>
    have hsum := Tally.sum_change (s := Finset.univ) (a := w)
      (f := fun v => col.locals (c.locals v) b)
      (g := fun v => col.locals (Function.update c.locals w {} v) b) (Finset.mem_univ w)
      fun v hv => by rw [Function.update_of_ne hv]
    have hstats := col.flushed c.stats (c.locals w) b
    rw [Function.update_self, (col.start b).2] at hsum
    rw [col.silent]
    unfold held Counters.count Local.flush at *
    dsimp only [Option.toList, List.countP_nil] at *
    omega

/-- Nothing is lost or counted twice between the workers and the common counters. -/
theorem held_run (es : List (Count n)) (b : Nat) :
    col.held (es.foldl Counters.count {}) b = fill col.edges (es.filterMap col.sample) b := by
  induction es using List.reverseRecOn with
  | nil =>
    unfold held
    simp [col.start, fill]
  | append_singleton es e ih =>
    rw [List.foldl_append, List.foldl_cons, List.foldl_nil, held_count, ih, List.filterMap_append,
      fill_apply, fill_apply, List.countP_append]
    cases hsample : col.sample e with
    | none => simp [hsample]
    | some v => simp [hsample]

end Column

def Counters.finish (c : Counters n) : Counters n :=
  ((List.finRange n).map Count.flushed).foldl Counters.count c

theorem foldl_flushed (ws : List (Fin n)) (c : Counters n) {w : Fin n}
    (h : c.locals w = {} ∨ w ∈ ws) :
    ((ws.map Count.flushed).foldl Counters.count c).locals w = {} := by
  induction ws generalizing c with
  | nil =>
    rcases h with hempty | hmem
    · exact hempty
    · cases hmem
  | cons v ws ih =>
    rw [List.map_cons, List.foldl_cons]
    apply ih
    by_cases hw : w = v
    · exact .inl (hw ▸ Function.update_self ..)
    · rcases h with hempty | hmem
      · exact .inl ((Function.update_of_ne hw ..).trans hempty)
      · exact .inr ((List.mem_cons.mp hmem).resolve_left hw)

/-- At the end the common counters are the histogram of all samples of all workers. -/
theorem finish_fill (col : Column n) (es : List (Count n)) :
    col.stats (es.foldl Counters.count {}).finish.stats
      = fill col.edges (es.filterMap col.sample) := by
  funext b
  have hrun := col.held_run (es ++ (List.finRange n).map Count.flushed) b
  have hsilent : ((List.finRange n).map Count.flushed).filterMap col.sample = [] := by
    rw [List.filterMap_map, List.filterMap_eq_nil_iff]
    exact fun w _ => col.silent w
  rw [List.foldl_append, List.filterMap_append, hsilent, List.append_nil] at hrun
  rw [← hrun]
  unfold Column.held Counters.finish
  rw [Finset.sum_eq_zero, Nat.add_zero]
  intro w _
  rw [foldl_flushed _ _ (.inr (List.mem_finRange w)), (col.start b).2]

/-- What `p99Of` reports of a column at the end bounds the samples of all workers. -/
theorem finish_quantile (col : Column n) (es : List (Count n))
    (hsome : es.filterMap col.sample ≠ [])
    (hcovered : ∃ e ∈ col.edges, Covers (es.filterMap col.sample) e) :
    IsLeast {e | e ∈ col.edges ∧ Covers (es.filterMap col.sample) e}
      (p99Of (col.stats (es.foldl Counters.count {}).finish.stats) col.edges) := by
  rw [finish_fill]
  exact p99Of_covered col.increasing _ hsome hcovered

theorem rtt_reported (es : List (Count n)) (hsome : es.filterMap (rttColumn n).sample ≠ [])
    (hcovered : ∃ e ∈ kRttBucketUs, Covers (es.filterMap (rttColumn n).sample) e) :
    IsLeast {e | e ∈ kRttBucketUs ∧ Covers (es.filterMap (rttColumn n).sample) e}
      (p99Of (es.foldl Counters.count {}).finish.stats.rttBucket kRttBucketUs) :=
  finish_quantile (rttColumn n) es hsome hcovered

/-- The gate of `main` on the working time of the loops. -/
def loopOk (g : DummyStats) : Bool :=
  let p99Le := p99Of g.loopBucket kLoopBucketUs
  p99Le > 0 ∧ p99Le ≤ 40000

/-- The gate passes exactly when there were loops and 99 percent of all of them, over all
workers, took at most 40 ms. -/
theorem loopOk_iff (es : List (Count n)) :
    loopOk (es.foldl Counters.count {}).finish.stats = true ↔
      es.filterMap (loopColumn n).sample ≠ [] ∧
        Covers (es.filterMap (loopColumn n).sample) 40000 := by
  have hfill := finish_fill (loopColumn n) es
  generalize es.filterMap (loopColumn n).sample = samples at hfill ⊢
  unfold loopOk
  simp only [decide_eq_true_eq, gt_iff_lt]
  rw [show (es.foldl Counters.count {}).finish.stats.loopBucket = fill kLoopBucketUs samples
    from hfill]
  have hrange : ∀ e ∈ kLoopBucketUs, 0 < e ∧ e ≤ 40000 := by decide
  constructor
  · rintro ⟨hpos, _⟩
    by_contra hnot
    have hout : p99Of (fill kLoopBucketUs samples) kLoopBucketUs = -1 := by
      apply p99Of_uncovered kLoopBucketUs_increasing
      by_cases hsome : samples = []
      · exact .inl hsome
      · exact .inr fun e he hcover => hnot ⟨hsome, hcover.mono (hrange e he).2⟩
    omega
  · rintro ⟨hsome, hcover⟩
    have hleast := p99Of_covered kLoopBucketUs_increasing samples hsome
      ⟨40000, by decide, hcover⟩
    exact hrange _ hleast.1.1

end BeltServer
