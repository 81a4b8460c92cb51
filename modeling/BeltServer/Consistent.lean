import BeltServer.RefSteps
import BeltServer.LedgerSim

/-!
# Every reachable state is consistent

The invariants of the ledger together, from the initial state over every run of the
interleaved machine.
-/

namespace BeltServer

set_option autoImplicit false

open Runs

structure Consistent (L : Ledger) : Prop where
  places : Places L
  seats : Seats L
  heads : Headcount L
  refs : Refs L

namespace Consistent

variable {L L' : Ledger}

theorem step (h : Consistent L) {a : Actor} (ht : L.Trans a L') : Consistent L' where
  places := h.places.step ht
  seats := h.seats.step h.places ht
  heads := h.heads.step h.seats h.places ht
  refs := h.refs.step h.seats h.places ht

end Consistent

section Init

variable (sessionCapacity roomCapacity workerCount : Nat)

theorem tokens_init (r : Nat) :
    (System.init sessionCapacity roomCapacity workerCount).ledger.tokens r = 0 := by
  rfl

theorem Places.init : Places (System.init sessionCapacity roomCapacity workerCount).ledger where
  placed r := by
    show (List.range roomCapacity).reverse.count r + 0 + 0 + 0 = if r < roomCapacity then 1 else 0
    rw [List.count_reverse, List.count_range]
    rfl
  mail_owner g r hr := by cases hr
  mine_owner g r hr := by cases hr
  place g i r hg := by cases hg
  open_nodup := List.nodup_nil
  open_placed r hr := by cases hr
  transfer g i old nr ht := by cases ht
  target r ht := by cases ht

theorem Seats.init : Seats (System.init sessionCapacity roomCapacity workerCount).ledger where
  book r := BookOk.of_free (fun _ => rfl) rfl
  seats r _ i := rfl
  free r _ i := rfl
  fresh r hr := by cases hr
  unopened r hr := by cases hr
  dying g i r hg := by cases hg
  move g i old nr rest moved joins leaves hl := by cases hl
  carry g i old nr moved joins leaves hl := by cases hl

theorem Headcount.init :
    Headcount (System.init sessionCapacity roomCapacity workerCount).ledger where
  count r _ := rfl
  present r _ _ i := rfl
  entered nr moved hm := by cases hm

theorem claims_init :
    (System.init sessionCapacity roomCapacity workerCount).ledger.claims = 0 := by
  refine (add_zero _).trans (Finset.sum_eq_zero fun r _ => ?_)
  rfl

theorem Refs.init : Refs (System.init sessionCapacity roomCapacity workerCount).ledger where
  refs idx := by
    rw [claims_init]
    rfl
  one idx := by
    rw [claims_init]
    exact Nat.zero_le _
  bound idx hpos := by
    rw [claims_init] at hpos
    cases hpos
  holder r e he := by
    rw [tokens_init] at he
    cases he
  flight old hold := by cases hold
  seated idx hpos := by
    rw [claims_init] at hpos
    cases hpos
  free idx := by
    show (List.range sessionCapacity).reverse.count idx =
      if idx < sessionCapacity ∧ (0 : Int) = 0 then 1 else 0
    rw [List.count_reverse, List.count_range]
    simp
  conns w idx hm := by cases hm
  conns_nodup w := List.nodup_nil
  net w idx hw := by cases hw
  dead w idx hm := by cases hm
  unplaced w idx hw := by cases hw
  joiner w idx hj := by cases hj

theorem Consistent.init :
    Consistent (System.init sessionCapacity roomCapacity workerCount).ledger where
  places := Places.init ..
  seats := Seats.init ..
  heads := Headcount.init ..
  refs := Refs.init ..

variable {sessionCapacity roomCapacity workerCount}

theorem System.consistent {ok : Act → System → Prop} {s : System}
    (h : Reach System.step ok (System.init sessionCapacity roomCapacity workerCount) s) :
    Consistent s.ledger := by
  refine h.invariant (P := fun s => Consistent s.ledger) (Consistent.init ..) fun s a t _ hs _ ht => ?_
  rcases s.trans_of_step ht with hsame | htrans
  · exact hsame ▸ hs
  · exact hs.step htrans

end Init

end BeltServer
