import BeltServer.Clock
import BeltServer.RoundTrip
import Mathlib.Algebra.Order.Round
import Mathlib.Data.Rat.Floor
import Mathlib.Tactic.Linarith
import Mathlib.Tactic.NormNum

/-!
# The positions in a snapshot

`SimStep` ends with the stage border, so whatever the inputs were, everybody stands on the stage
when a snapshot is taken. There `QuantPos` rounds to the nearest 1/32 px and fits its 16 bits;
what the client decodes is off by half a step at most, and quantizing it again changes nothing.
-/

namespace BeltServer

set_option autoImplicit false

open Runs BeltProto

/-! ### Quantization -/

section Quantize
variable {u v : ℚ}

/-- The field holds the nearest multiple of the scale. -/
theorem quantPos_toNat (h0 : 0 ≤ v) (hfits : v * 32 + 1 / 2 < 65536) :
    ((quantPos v).toNat : ℤ) = round (v * 32) := by
  have hround : round (v * 32) = ⌊v * kPosQuantScale + 1 / 2⌋ := round_eq _
  have hnonneg : 0 ≤ ⌊v * kPosQuantScale + 1 / 2⌋ := by
    apply Int.floor_nonneg.mpr
    unfold kPosQuantScale
    linarith
  have hlt : ⌊v * kPosQuantScale + 1 / 2⌋ < 65536 := by
    apply Int.floor_lt.mpr
    unfold kPosQuantScale
    exact_mod_cast hfits
  unfold quantPos
  rw [if_neg (not_lt.mpr h0), hround, UInt16.toNat_ofNat']
  omega

/-- The client's coordinate is the nearest one. -/
theorem quantPos_near (h0 : 0 ≤ v) (hfits : v * 32 + 1 / 2 < 65536) :
    |((quantPos v).toNat : ℚ) / 32 - v| ≤ 1 / 64 := by
  have hint : ((quantPos v).toNat : ℚ) = ((round (v * 32) : ℤ) : ℚ) := by
    rw [← quantPos_toNat h0 hfits]
    rfl
  have hhalf := abs_sub_round (v * 32)
  rw [hint]
  rw [abs_le] at hhalf ⊢
  constructor
  · linarith
  · linarith

theorem quantPos_neg (h : v < 0) : quantPos v = quantPos 0 := by
  unfold quantPos
  rw [if_pos h, if_neg (lt_irrefl 0)]

theorem quantPos_mono_nonneg (hu : 0 ≤ u) (h : u ≤ v) (hfits : v * 32 + 1 / 2 < 65536) :
    quantPos u ≤ quantPos v := by
  have hlow := quantPos_toNat hu (by linarith)
  have hhigh := quantPos_toNat (hu.trans h) hfits
  have hle : round (u * 32) ≤ round (v * 32) := by
    rw [round_eq, round_eq]
    apply Int.floor_le_floor
    linarith
  apply UInt16.le_iff_toNat_le.mpr
  omega

theorem quantPos_mono (h : u ≤ v) (hfits : v * 32 + 1 / 2 < 65536) : quantPos u ≤ quantPos v := by
  by_cases hu : 0 ≤ u
  · exact quantPos_mono_nonneg hu h hfits
  · rw [quantPos_neg (not_le.mp hu)]
    by_cases hv : 0 ≤ v
    · exact quantPos_mono_nonneg (le_refl 0) hv hfits
    · rw [quantPos_neg (not_le.mp hv)]
      exact UInt16.le_refl _

/-- A coordinate that the client decodes is quantized back to the same field. -/
theorem quantPos_decoded (q : UInt16) : quantPos (q.toNat / 32) = q := by
  have hlt := q.toNat_lt
  have h0 : (0 : ℚ) ≤ q.toNat / 32 := by positivity
  have hexact : (q.toNat : ℚ) / 32 * 32 = q.toNat := by
    rw [div_mul_cancel₀]
    norm_num
  have hfits : (q.toNat : ℚ) / 32 * 32 + 1 / 2 < 65536 := by
    have hle : (q.toNat : ℚ) ≤ 65535 := by exact_mod_cast Nat.le_of_lt_succ hlt
    rw [hexact]
    linarith
  have hround := quantPos_toNat h0 hfits
  rw [hexact, round_natCast] at hround
  apply UInt16.toNat_inj.mp
  exact_mod_cast hround

end Quantize

/-! ### The stage -/

/-- An actor inside the stage border. -/
structure OnStage (a : SimActor) : Prop where
  left : 20 ≤ a.x
  right : a.x ≤ WORLD_W - 20
  back : DEPTH_MIN ≤ a.y
  front : a.y ≤ DEPTH_MAX

theorem clampd_mem (v : ℚ) {lo hi : ℚ} (h : lo ≤ hi) : lo ≤ clampd v lo hi ∧ clampd v lo hi ≤ hi := by
  unfold clampd
  split
  · exact ⟨le_refl lo, h⟩
  · rename_i hlo
    split
    · exact ⟨h, le_refl hi⟩
    · rename_i hhi
      exact ⟨not_lt.mp hlo, not_lt.mp hhi⟩

/-- Whatever the inputs, a step of the simulation ends on the stage. -/
theorem simStep_onStage (w : SimWorld) (inputs : Seat → SimInput) (j : Slot) :
    OnStage ((simStep w inputs).actors j) := by
  have hwidth : (20 : ℚ) ≤ WORLD_W - 20 := by
    unfold WORLD_W
    norm_num
  have hdepth : DEPTH_MIN ≤ DEPTH_MAX := by
    unfold DEPTH_MIN DEPTH_MAX
    norm_num
  let a := separate (movePlayers w.actors inputs) j
  obtain ⟨hleft, hright⟩ := clampd_mem a.x hwidth
  obtain ⟨hback, hfront⟩ := clampd_mem a.y hdepth
  exact ⟨hleft, hright, hback, hfront⟩

theorem Room.step_onStage (R : Room) (j : Slot) : OnStage (R.step.world.actors j) :=
  simStep_onStage R.routeInputs.1.consumeAll.world R.routeInputs.1.consumeAll.simInputs j

structure Near (a : SimActor) (d : BeltProto.Actor) : Prop where
  x : |d.x - a.x| ≤ 1 / 64
  y : |d.y - a.y| ≤ 1 / 64
  /-- The fields did not wrap. -/
  x_fits : quantPos a.x = UInt16.ofNat (round (a.x * 32)).toNat ∧ round (a.x * 32) < 2 ^ 16
  y_fits : quantPos a.y = UInt16.ofNat (round (a.y * 32)).toNat ∧ round (a.y * 32) < 2 ^ 16
  /-- What was decoded is quantized to the same fields. -/
  x_still : quantPos d.x = quantPos a.x
  y_still : quantPos d.y = quantPos a.y

section Stage
variable {a : SimActor} (h : OnStage a)
include h

theorem OnStage.x_fits : 0 ≤ a.x ∧ a.x * 32 + 1 / 2 < 65536 := by
  have hleft := h.left
  have hright := h.right
  unfold WORLD_W at hright
  constructor
  · linarith
  · linarith

theorem OnStage.y_fits : 0 ≤ a.y ∧ a.y * 32 + 1 / 2 < 65536 := by
  have hback := h.back
  have hfront := h.front
  unfold DEPTH_MIN at hback
  unfold DEPTH_MAX at hfront
  constructor
  · linarith
  · linarith

theorem OnStage.near (hpresent : a.present = true) (j : Slot) :
    Near a (Room.snapActor a j).decoded := by
  obtain ⟨hx0, hx⟩ := h.x_fits
  obtain ⟨hy0, hy⟩ := h.y_fits
  have hrecord : Room.snapActor a j =
      { id := UInt8.ofNat j.val, kind := a.kind, state := a.state, face := a.face
        qx := quantPos a.x, qy := quantPos a.y, hp := a.hp } := if_pos hpresent
  have hfits {v : ℚ} (h0 : 0 ≤ v) (hv : v * 32 + 1 / 2 < 65536) :
      quantPos v = UInt16.ofNat (round (v * 32)).toNat ∧ round (v * 32) < 2 ^ 16 := by
    have hnat := quantPos_toNat h0 hv
    have hlt := (quantPos v).toNat_lt
    constructor
    · rw [← hnat, Int.toNat_natCast, UInt16.ofNat_toNat]
    · omega
  rw [hrecord]
  exact ⟨quantPos_near hx0 hx, quantPos_near hy0 hy, hfits hx0 hx, hfits hy0 hy,
    quantPos_decoded _, quantPos_decoded _⟩

end Stage

/-! ### Snapshots -/

/-- The bytes of a snapshot of world `w`: everybody is on the stage, and the client sees each
one where it is. -/
structure ShownTo (w : SimWorld) (bytes : List UInt8) : Prop where
  onStage : ∀ j, (w.actors j).present = true → OnStage (w.actors j)
  decoded : ∃ tick seqs actors, decode bytes = some (.snapshot tick 14 seqs actors) ∧
    actors.length = 14 ∧ ∀ j : Slot, (w.actors j).present = true →
      ∃ d, actors[j.val]? = some d ∧ d.id = j.val ∧ Near (w.actors j) d

theorem shownTo_snapshot {R : Room} (h : ∀ j, OnStage (R.world.actors j)) (r : Nat) :
    ShownTo R.world (Msg.snapshot r R.snapshot).bytes where
  onStage j _ := h j
  decoded := by
    refine ⟨_, _, _, decode_bytes _, ?_, fun j hpresent => ?_⟩
    · rw [List.length_map, List.length_finRange]
    · refine ⟨(Room.snapActor (R.world.actors j) j).decoded, ?_, ?_, (h j).near hpresent j⟩
      · rw [List.getElem?_map, List.getElem?_eq_getElem (by simp), List.getElem_finRange]
        rfl
      · have hrecord : (Room.snapActor (R.world.actors j) j).id = UInt8.ofNat j.val := by
          unfold Room.snapActor
          split
          · rfl
          · rfl
        unfold SnapActor.decoded
        dsimp only
        rw [hrecord, UInt8.toNat_ofNat']
        have hj := j.isLt
        omega

section Runs
variable {s t : System}

/-- A snapshot that has been taken of some world with everybody on the stage. -/
def Taken (snap : Snapshot) : Prop :=
  ∃ R : Room, (∀ j, OnStage (R.world.actors j)) ∧ snap = R.snapshot

theorem taken_of_newShots {a : Act} {x : Shot} (h : x ∈ s.newShots a) : Taken x.snap := by
  unfold System.newShots at h
  split at h
  · rename_i r hcue
    obtain ⟨-, i, -, rfl⟩ := Server.mem_shots h
    exact ⟨(s.srv.rooms r).step, Room.step_onStage _, rfl⟩
  · cases h

theorem taken_run {sessionCapacity roomCapacity workerCount : Nat}
    (h : Reach System.step Any (System.init sessionCapacity roomCapacity workerCount) s) :
    ∀ idx, ∀ snap ∈ (s.srv.sess idx).snapshots, Taken snap := by
  refine h.invariant (P := fun s => ∀ idx, ∀ snap ∈ (s.srv.sess idx).snapshots, Taken snap) ?_ ?_
  · intro idx snap hsnap
    cases hsnap
  · intro s a t hreach hok _ ht idx snap hsnap
    rcases System.snapshots_step (System.consistent hreach) ht idx with ⟨hnone, -⟩ | hmore
    · rw [hnone] at hsnap
      cases hsnap
    · rw [hmore] at hsnap
      rcases List.mem_append.mp hsnap with hold | hnew
      · exact hok idx snap hold
      · obtain ⟨x, hx, rfl⟩ := List.mem_map.mp hnew
        exact taken_of_newShots (List.mem_of_mem_filter hx)

end Runs

/-- Snapshots show the true positions. In every tick of every run all actors end on the stage, and
the client decodes each snapshot to within half a step of them; the same holds of all snapshots
in the send rings. On the stage `QuantPos` does not wrap, it is monotone, and it is the inverse of
the decoding. -/
theorem snapshot_position {sessionCapacity roomCapacity workerCount : Nat} {s : System}
    (h : Reach System.step Any (System.init sessionCapacity roomCapacity workerCount) s) :
    (∀ g k r t, (s.srv.myRooms g)[k]? = some r → System.step (.tick g k) s = some t →
      (∀ j, OnStage ((t.srv.rooms r).world.actors j)) ∧
      ∀ x ∈ s.srv.shots r, ShownTo (t.srv.rooms r).world (Msg.snapshot r x.snap).bytes) ∧
    (∀ idx, ∀ snap ∈ (s.srv.sess idx).snapshots, ∃ w, ∀ r,
      ShownTo w (Msg.snapshot r snap).bytes) ∧
    (∀ v : ℚ, 0 ≤ v → v * 32 + 1 / 2 < 65536 → ((quantPos v).toNat : ℤ) = ⌊v * 32 + 1 / 2⌋) ∧
    (∀ u v : ℚ, u ≤ v → v * 32 + 1 / 2 < 65536 → quantPos u ≤ quantPos v) ∧
    (∀ q : UInt16, quantPos (q.toNat / 32) = q) ∧
    ∀ (q : UInt16) (n : Nat), (fun q : UInt16 => quantPos (q.toNat / 32))^[n] q = q := by
  refine ⟨fun g k r t hr ht => ?_, fun idx snap hsnap => ?_, fun v h0 hfits => ?_,
    fun u v huv hfits => quantPos_mono huv hfits, quantPos_decoded, fun q n => ?_⟩
  · have hroom := System.room_of_tick hr ht
    rw [hroom]
    refine ⟨Room.step_onStage _, fun x hx => ?_⟩
    obtain ⟨-, i, -, rfl⟩ := Server.mem_shots hx
    exact shownTo_snapshot (Room.step_onStage _) r
  · obtain ⟨R, hstage, rfl⟩ := taken_run h idx snap hsnap
    exact ⟨R.world, shownTo_snapshot hstage⟩
  · rw [quantPos_toNat h0 hfits, round_eq]
  · induction n with
    | zero => rfl
    | succ n ih => rw [Function.iterate_succ_apply, quantPos_decoded, ih]

theorem snapshot_position_twoTicks : ∃ s t x,
    run System.step twoTicks (System.init 1 1 1) = some s ∧ System.step (.tick 0 0) s = some t ∧
    x ∈ s.srv.shots 0 ∧ ShownTo (t.srv.rooms 0).world (Msg.snapshot 0 x.snap).bytes ∧
    ((quantPos 1580).toNat : ℤ) = ⌊(1580 : ℚ) * 32 + 1 / 2⌋ ∧ quantPos (-1) ≤ quantPos 1580 := by
  have hrun : (run System.step twoTicks (System.init 1 1 1)).map (fun s =>
      (s.srv.myRooms 0, (System.step (.tick 0 0) s).isSome, (s.srv.shots 0).length)) =
      some ([0], true, 1) := by decide +kernel
  obtain ⟨s, hs, hproj⟩ := Option.map_eq_some_iff.mp hrun
  simp only [Prod.mk.injEq] at hproj
  obtain ⟨hmine, hsome, hone⟩ := hproj
  obtain ⟨t, ht⟩ := Option.isSome_iff_exists.mp hsome
  obtain ⟨x, hx⟩ := List.length_eq_one_iff.mp hone
  have hmem : x ∈ s.srv.shots 0 := by
    rw [hx]
    exact List.mem_singleton_self x
  obtain ⟨htick, -, hfits, hmono, -⟩ := snapshot_position (reach_of_run hs)
  exact ⟨s, t, x, hs, ht, hmem, (htick 0 0 0 t (by simp [hmine]) ht).2 x hmem,
    hfits 1580 (by norm_num) (by norm_num), hmono (-1) 1580 (by norm_num) (by norm_num)⟩

end BeltServer
