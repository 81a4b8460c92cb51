import BeltServer.Flow

/-!
# What a session is given

A session that is in no room, like those of the echo test: only its owner puts messages into its
ring, so the log of the ring is what `SendBytes` was called with, up to the message in the owner's
hands and as long as the session is not cut.
-/

namespace BeltServer

set_option autoImplicit false

open Runs

namespace Output

variable {ρ : Type} {B : OutRing ρ} {s t : State ρ} {w j : Nat}

/-- The messages that a step hands to `SendBytes` of slot `j`. -/
def Act.gives (j : Nat) : Act → List (List UInt8)
  | .send _ idx m => if idx = j then [m] else []
  | _ => []

def sending : Option Op → List (List UInt8)
  | some (.send m) => [m]
  | _ => []

/-- A session that is in no room, and all that its owner was given for it: what the ring took comes
first, and until the session is cut nothing is missing. -/
structure Lane (s : State ρ) (w j : Nat) (given : List (List UInt8)) : Prop where
  owner : (s.conns j).owner = w
  unseated : (s.conns j).seatedBy = none
  first : (s.conns j).log <+: given
  all : (s.conns j).dead = false → (s.net w).opOn j ≠ some .cut →
    (s.conns j).log ++ sending ((s.net w).opOn j) = given

variable {given : List (List UInt8)}

theorem Lane.same (h : Lane s w j given) (howner : (t.conns j).owner = (s.conns j).owner)
    (hseat : (t.conns j).seatedBy = (s.conns j).seatedBy)
    (hlog : (t.conns j).log = (s.conns j).log)
    (hlive : (t.conns j).dead = false → (t.net w).opOn j ≠ some .cut →
      (s.conns j).dead = false ∧ (s.net w).opOn j ≠ some .cut ∧
        sending ((t.net w).opOn j) = sending ((s.net w).opOn j)) : Lane t w j given where
  owner := howner.trans h.owner
  unseated := hseat.trans h.unseated
  first := hlog ▸ h.first
  all := by
    intro hdead hcut
    obtain ⟨hdead', hcut', hsend⟩ := hlive hdead hcut
    rw [hlog, hsend]
    exact h.all hdead' hcut'

theorem Lane.frame (h : Lane s w j given) (hconn : t.conns j = s.conns j)
    (hop : (t.net w).opOn j = (s.net w).opOn j) : Lane t w j given := by
  apply h.same
  · rw [hconn]
  · rw [hconn]
  · rw [hconn]
  · rw [hconn, hop]
    exact fun hdead hcut => ⟨hdead, hcut, rfl⟩

theorem Lane.accepted {fd : Int} {ok : Bool} (h : step B (.accept w j fd ok) s = some t) :
    Lane t w j [] := by
  simp only [Output.step, Option.ite_none_right_eq_some, Option.some.injEq] at h
  obtain ⟨⟨hidle, -⟩, rfl⟩ := h
  have hfields {c : Conn ρ} (hc : c.owner = w ∧ c.seatedBy = none ∧ c.log = []) :
      Lane (s.setConn j c) w j [] := by
    obtain ⟨howner, hseat, hlog⟩ := hc
    constructor
    · rw [setConn_self]
      exact howner
    · rw [setConn_self]
      exact hseat
    · rw [setConn_self, hlog]
    · intro _ _
      rw [setConn_self, hlog, setConn_net, hidle]
      rfl
  cases ok with
  | true => exact hfields ⟨rfl, rfl, rfl⟩
  | false => exact hfields ⟨rfl, rfl, rfl⟩

theorem Lane.setNet {w' : Nat} {pc : Pc} (h : Lane s w j given)
    (hold : (s.net w').opOn j = none) (hnew : pc.opOn j = none ∨ pc.opOn j = some .flush) :
    Lane (s.setNet w' pc) w j given := by
  by_cases hw : w = w'
  · subst hw
    apply h.same
    · rfl
    · rfl
    · rfl
    · intro hdead _
      rw [setNet_self, hold]
      refine ⟨hdead, by rintro ⟨⟩, ?_⟩
      rcases hnew with hnew | hnew
      · rw [hnew]
      · rw [hnew]
        rfl
  · apply h.frame
    · rfl
    · rw [setNet_ne hw]

theorem Lane.call {r : Sys} {ret : Ret} {op : Op} {c : Conn ρ} {next : Option Op}
    (hsound : Sound s) (h : Lane s w j given) (hnet : (s.net w).opOn j = some op)
    (hm : Op.Moves B r (s.conns j) op c next) :
    Lane ((s.setConn j c).setNet w (resume j ret next)) w j given := by
  have hdead := ((hsound.slot j).call w op hnet).2.2
  have hall := h.all
  rw [hnet] at hall
  have hquiet (howner : c.owner = (s.conns j).owner) (hseat : c.seatedBy = (s.conns j).seatedBy)
      (hlog : c.log = (s.conns j).log) (hlive : c.dead = false → next ≠ some .cut →
        (s.conns j).dead = false ∧ op ≠ .cut ∧ sending next = sending (some op)) :
      Lane ((s.setConn j c).setNet w (resume j ret next)) w j given := by
    apply h.same
    · rw [setNet_conns, setConn_self]
      exact howner
    · rw [setNet_conns, setConn_self]
      exact hseat
    · rw [setNet_conns, setConn_self]
      exact hlog
    · rw [setNet_conns, setConn_self, setNet_self, opOn_resume_self, hnet]
      intro hd hc
      obtain ⟨hd', hc', hsend⟩ := hlive hd hc
      exact ⟨hd', fun heq => hc' (Option.some.inj heq), hsend⟩
  cases hm with
  | refused => exact hquiet rfl rfl rfl fun _ hc => absurd rfl hc
  | sent =>
    rename_i m htook
    have heq := hall hdead (by rintro ⟨⟩)
    constructor
    · rw [setNet_conns, setConn_self]
      exact h.owner
    · rw [setNet_conns, setConn_self]
      exact h.unseated
    · rw [setNet_conns, setConn_self, ← heq]
      exact List.prefix_refl _
    · rw [setNet_conns, setConn_self, setNet_self, opOn_resume_self]
      intro _ _
      rw [← heq]
      exact List.append_nil _
  | failed => exact hquiet rfl rfl rfl fun _ hc => absurd rfl hc
  | wasDead hd => exact hquiet rfl rfl rfl fun hd' _ => absurd (hd.symm.trans hd') (by decide)
  | cut => exact hquiet rfl rfl rfl fun hd' _ => by cases hd'
  | consumed =>
    rename_i n short
    refine hquiet rfl rfl rfl fun hd' _ => ⟨hd', by rintro ⟨⟩, ?_⟩
    cases short <;> rfl
  | _ => exact hquiet rfl rfl rfl fun hd' _ => ⟨hd', by rintro ⟨⟩, rfl⟩

/-- One step of the server, which neither seats the session nor hands its slot to another
connection. -/
theorem Lane.step {a : Act} (hsound : Sound s) (h : Lane s w j given) (hs : step B a s = some t)
    (hopens : ¬a.Opens j) (hjoin : ∀ g, a ≠ .join g j) : Lane t w j (given ++ a.gives j) := by
  cases a with
  | send w' idx m =>
    simp only [Output.step, Option.ite_none_right_eq_some, handles_iff, Option.some.injEq] at hs
    obtain ⟨⟨hidle, howner, -, hdead⟩, rfl⟩ := hs
    have hnone : (s.net w').opOn j = none := by
      rw [hidle]
      rfl
    by_cases hidx : idx = j
    · subst hidx
      have hw : w = w' := h.owner.symm.trans howner
      subst hw
      have hall := h.all hdead (by rw [hnone]; rintro ⟨⟩)
      rw [hnone] at hall
      have hgives : (Act.send w idx m).gives idx = [m] := if_pos rfl
      rw [hgives]
      constructor
      · exact h.owner
      · exact h.unseated
      · exact h.first.trans (List.prefix_append _ _)
      · intro _ _
        rw [setNet_self, opOn_call_self, ← hall]
        exact congrArg (· ++ [m]) (List.append_nil _).symm
    · have hgives : (Act.send w' idx m).gives j = [] := if_neg hidx
      rw [hgives, List.append_nil]
      exact h.setNet hnone (Or.inl (opOn_call_ne (Ne.symm hidx)))
  | accept w' idx fd ok =>
    simp only [Output.step, Option.ite_none_right_eq_some, Option.some.injEq] at hs
    obtain ⟨-, rfl⟩ := hs
    have hidx : j ≠ idx := by
      rintro rfl
      exact hopens ⟨_, _, _, rfl⟩
    refine (List.append_nil given).symm ▸ h.frame ?_ rfl
    exact setConn_ne hidx
  | epollOut w' idx =>
    simp only [Output.step, Option.ite_none_right_eq_some, handles_iff, Option.some.injEq] at hs
    obtain ⟨⟨hidle, -⟩, rfl⟩ := hs
    refine (List.append_nil given).symm ▸ h.setNet (by rw [hidle]; rfl) ?_
    by_cases hidx : idx = j
    · subst hidx
      exact Or.inr opOn_call_self
    · exact Or.inl (opOn_call_ne (Ne.symm hidx))
  | disconnect w' idx =>
    simp only [Output.step, Option.ite_none_right_eq_some, handles_iff, Option.some.injEq] at hs
    obtain ⟨⟨hidle, howner, -⟩, rfl⟩ := hs
    refine (List.append_nil given).symm ▸ ?_
    by_cases hidx : j = idx
    · subst hidx
      apply h.same
      · rw [setNet_conns, setConn_self]
      · rw [setNet_conns, setConn_self]
      · rw [setNet_conns, setConn_self]
      · rw [setNet_conns, setConn_self]
        rintro ⟨⟩
    · have hconn : Lane (s.setConn idx { s.conns idx with dead := true }) w j given :=
        h.frame (setConn_ne hidx) rfl
      apply hconn.setNet
      · rw [setConn_net, hidle]
        rfl
      · exact Or.inl (opOn_call_ne hidx)
  | drain w' =>
    simp only [Output.step, Option.ite_none_right_eq_some, Option.some.injEq] at hs
    obtain ⟨hidle, rfl⟩ := hs
    exact (List.append_nil given).symm ▸ h.setNet (by rw [hidle]; rfl) (Or.inl rfl)
  | net w' r =>
    refine (List.append_nil given).symm ▸ ?_
    have hs : s.netStep B w' r = some t := hs
    unfold State.netStep at hs
    cases hnet : s.net w' with
    | idle =>
      rw [hnet] at hs
      cases hs
    | word i =>
      rw [hnet] at hs
      dsimp only at hs
      split at hs
      · cases hs
        have hdirty : Lane { s with dirty := (s.dirty.exchange w' i).2 } w j given := h.frame rfl rfl
        exact hdirty.setNet (by rw [hnet]; rfl) (Or.inl rfl)
      · cases hs
        exact h.setNet (by rw [hnet]; rfl) (Or.inl rfl)
    | bits i v =>
      rw [hnet] at hs
      dsimp only at hs
      split at hs
      · cases hs
        exact h.setNet (by rw [hnet]; rfl) (Or.inl rfl)
      · split at hs
        · cases hs
          apply h.setNet (by rw [hnet]; rfl)
          rw [opOn_call]
          split
          · exact Or.inr rfl
          · exact Or.inl rfl
        · cases hs
          exact h.setNet (by rw [hnet]; rfl) (Or.inl rfl)
    | call idx ret op =>
      rw [hnet] at hs
      dsimp only at hs
      obtain ⟨⟨c, next⟩, hop, ht⟩ := Option.map_eq_some_iff.mp hs
      have hresume : t = (s.setConn idx c).setNet w' (resume idx ret next) := by
        cases next <;> exact ht.symm
      subst hresume
      by_cases hidx : j = idx
      · subst hidx
        have hown : (s.net w').opOn j = some op := by
          rw [hnet]
          exact opOn_call_self
        have hw : w = w' := h.owner.symm.trans ((hsound.slot j).call w' op hown).1
        subst hw
        exact h.call hsound hown (Op.moves hop)
      · have hconn : Lane (s.setConn idx c) w j given := h.frame (setConn_ne hidx) rfl
        apply hconn.setNet
        · rw [setConn_net, hnet]
          exact opOn_call_ne hidx
        · exact Or.inl (opOn_resume_ne hidx)
  | join g idx =>
    simp only [Output.step, Option.ite_none_right_eq_some, Option.some.injEq] at hs
    obtain ⟨-, rfl⟩ := hs
    have hidx : j ≠ idx := by
      rintro rfl
      exact hjoin g rfl
    refine (List.append_nil given).symm ▸ h.frame ?_ rfl
    exact setConn_ne hidx
  | leave g idx =>
    simp only [Output.step, Option.ite_none_right_eq_some, Option.some.injEq] at hs
    obtain ⟨⟨-, hseat⟩, rfl⟩ := hs
    have hidx : j ≠ idx := by
      rintro rfl
      rw [h.unseated] at hseat
      cases hseat
    refine (List.append_nil given).symm ▸ h.frame ?_ rfl
    exact setConn_ne hidx
  | look g idx m =>
    simp only [Output.step, Option.ite_none_right_eq_some, Option.some.injEq] at hs
    obtain ⟨-, rfl⟩ := hs
    exact (List.append_nil given).symm ▸ h.frame rfl rfl
  | game g =>
    refine (List.append_nil given).symm ▸ ?_
    have hother {idx w' : Nat} (htarget : (s.game g).target = some (idx, w')) : j ≠ idx := by
      rintro rfl
      have hseat := ((hsound.slot j).posted g w' htarget).1
      rw [h.unseated] at hseat
      cases hseat
    have hs : s.gameStep B g = some t := hs
    unfold State.gameStep at hs
    cases hg : s.game g with
    | idle =>
      rw [hg] at hs
      cases hs
    | enqueue idx w' m =>
      rw [hg] at hs
      dsimp only at hs
      have hidx : j ≠ idx := hother (by rw [hg]; rfl)
      split at hs
      · cases hs
        exact h.frame (setConn_ne hidx) rfl
      · cases hs
        exact h.frame (setConn_ne hidx) rfl
    | mark idx w' =>
      rw [hg] at hs
      cases hs
      exact h.frame rfl rfl

end Output

end BeltServer
