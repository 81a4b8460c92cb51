import Mathlib.Data.List.Basic

/-!
# Frames with a length prefix

A frame begins with a header of fixed length that gives the size of the whole frame. `split`
takes frames off the front of a sequence until the rest is incomplete or its header gives a
size out of range. Splitting what has arrived so far, and then the rest together with what
arrives next, is splitting everything.
-/

namespace LengthPrefix

set_option autoImplicit false

universe u
variable {α : Type u}

/-- Frames of `header` to `max` entries; their size is read from the header. -/
structure Format (α : Type u) where
  header : Nat
  max : Nat
  size : List α → Nat
  header_pos : 0 < header
  header_le : header ≤ max
  size_append : ∀ bs more, header ≤ bs.length → size (bs ++ more) = size bs

/-- The frames taken off, what is left, and whether it begins with a header out of range. -/
@[ext] structure Split (α : Type u) where
  frames : List (List α)
  rest : List α
  bad : Bool

namespace Format

variable (F : Format α)

def Refused (bs : List α) : Prop := F.size bs < F.header ∨ F.max < F.size bs

instance (bs : List α) : Decidable (F.Refused bs) :=
  inferInstanceAs (Decidable (F.size bs < F.header ∨ F.max < F.size bs))

def split (bs : List α) : Split α :=
  if bs.length < F.header then ⟨[], bs, false⟩
  else if F.Refused bs then ⟨[], bs, true⟩
  else if bs.length < F.size bs then ⟨[], bs, false⟩
  else
    let t := split (bs.drop (F.size bs))
    ⟨bs.take (F.size bs) :: t.frames, t.rest, t.bad⟩
termination_by bs.length
decreasing_by
  rename_i hrefused hsize
  have hpos := F.header_pos
  simp only [Refused, not_or, Nat.not_lt] at hrefused
  rw [List.length_drop]
  omega

def Whole (f : List α) : Prop := F.size f = f.length ∧ F.header ≤ f.length ∧ f.length ≤ F.max

variable {F} {bs more : List α}

/-! ### The four cases of a split -/

theorem split_short (h : bs.length < F.header) : F.split bs = ⟨[], bs, false⟩ := by
  rw [split, if_pos h]

theorem split_refused (h : F.header ≤ bs.length) (hr : F.Refused bs) :
    F.split bs = ⟨[], bs, true⟩ := by
  rw [split, if_neg (by omega), if_pos hr]

theorem split_wait (h : F.header ≤ bs.length) (hr : ¬F.Refused bs) (hw : bs.length < F.size bs) :
    F.split bs = ⟨[], bs, false⟩ := by
  rw [split, if_neg (by omega), if_neg hr, if_pos hw]

theorem split_frame (h : F.header ≤ bs.length) (hr : ¬F.Refused bs) (hw : F.size bs ≤ bs.length) :
    F.split bs = ⟨bs.take (F.size bs) :: (F.split (bs.drop (F.size bs))).frames,
      (F.split (bs.drop (F.size bs))).rest, (F.split (bs.drop (F.size bs))).bad⟩ := by
  rw [split, if_neg (by omega), if_neg hr, if_neg (by omega)]

theorem size_pos (hr : ¬F.Refused bs) : F.header ≤ F.size bs ∧ F.size bs ≤ F.max := by
  simp only [Refused, not_or, Nat.not_lt] at hr
  exact hr

theorem refused_append (h : F.header ≤ bs.length) : F.Refused (bs ++ more) ↔ F.Refused bs := by
  rw [Refused, Refused, F.size_append bs more h]

/-! ### What a split is -/

/-- Nothing is lost and nothing is taken twice. -/
theorem split_flatten (F : Format α) (bs : List α) :
    (F.split bs).frames.flatten ++ (F.split bs).rest = bs := by
  fun_induction F.split bs with
  | case1 bs h => rfl
  | case2 bs h hr => rfl
  | case3 bs h hr hw => rfl
  | case4 bs h hr hw t ih =>
    rw [List.flatten_cons, List.append_assoc, ih, List.take_append_drop]

theorem split_whole (F : Format α) (bs : List α) : ∀ f ∈ (F.split bs).frames, F.Whole f := by
  fun_induction F.split bs with
  | case1 bs h => rintro f ⟨⟩
  | case2 bs h hr => rintro f ⟨⟩
  | case3 bs h hr hw => rintro f ⟨⟩
  | case4 bs h hr hw t ih =>
    intro f hf
    rcases List.mem_cons.mp hf with rfl | hf
    · obtain ⟨hlo, hhi⟩ := size_pos hr
      have hlen : (bs.take (F.size bs)).length = F.size bs := by
        rw [List.length_take]
        omega
      have hsize : F.size (bs.take (F.size bs)) = F.size bs := by
        have happ := F.size_append (bs.take (F.size bs)) (bs.drop (F.size bs)) (by omega)
        rw [List.take_append_drop] at happ
        exact happ.symm
      refine ⟨?_, ?_, ?_⟩ <;> omega
    · exact ih f hf

theorem split_rest_lt (F : Format α) (bs : List α) (h : (F.split bs).bad = false) :
    (F.split bs).rest.length < F.max := by
  have hle := F.header_le
  fun_induction F.split bs with
  | case1 bs hs => exact Nat.lt_of_lt_of_le hs hle
  | case2 bs hs hr => cases h
  | case3 bs hs hr hw => exact Nat.lt_of_lt_of_le hw (size_pos hr).2
  | case4 bs hs hr hw t ih => exact ih h

/-! ### Splitting as the sequence arrives -/

/-- A header out of range is found again, whatever follows. -/
theorem split_append_of_bad (h : (F.split bs).bad = true) (more : List α) :
    F.split (bs ++ more) = ⟨(F.split bs).frames, (F.split bs).rest ++ more, true⟩ := by
  fun_induction F.split bs with
  | case1 bs hs => cases h
  | case2 bs hs hr =>
    have hle : F.header ≤ bs.length := by omega
    apply split_refused
    · rw [List.length_append]
      omega
    · exact (refused_append hle).mpr hr
  | case3 bs hs hr hw => cases h
  | case4 bs hs hr hw t ih =>
    have hle : F.header ≤ bs.length := by omega
    have hsize := F.size_append bs more hle
    have hfits : F.size bs ≤ bs.length := by omega
    rw [@split_frame _ F (bs ++ more)]
    · rw [hsize, List.drop_append_of_le_length hfits, List.take_append_of_le_length hfits, ih h]
    · rw [List.length_append]
      omega
    · rw [refused_append hle]
      exact hr
    · rw [hsize, List.length_append]
      omega

/-- Splitting goes on from what is left. -/
theorem split_append (h : (F.split bs).bad = false) (more : List α) :
    F.split (bs ++ more) = ⟨(F.split bs).frames ++ (F.split ((F.split bs).rest ++ more)).frames,
      (F.split ((F.split bs).rest ++ more)).rest, (F.split ((F.split bs).rest ++ more)).bad⟩ := by
  fun_induction F.split bs with
  | case1 bs hs => rfl
  | case2 bs hs hr => cases h
  | case3 bs hs hr hw => rfl
  | case4 bs hs hr hw t ih =>
    have hle : F.header ≤ bs.length := by omega
    have hsize := F.size_append bs more hle
    have hfits : F.size bs ≤ bs.length := by omega
    rw [@split_frame _ F (bs ++ more)]
    · rw [hsize, List.drop_append_of_le_length hfits, List.take_append_of_le_length hfits, ih h]
      rfl
    · rw [List.length_append]
      omega
    · rw [refused_append hle]
      exact hr
    · rw [hsize, List.length_append]
      omega

/-- Whole frames put one after the other are split where they were joined. -/
theorem split_join {fs : List (List α)} (h : ∀ f ∈ fs, F.Whole f) :
    F.split fs.flatten = ⟨fs, [], false⟩ := by
  induction fs with
  | nil => exact split_short F.header_pos
  | cons f fs ih =>
    obtain ⟨hsize, hlo, hhi⟩ := h f List.mem_cons_self
    have hsize' : F.size (f ++ fs.flatten) = f.length := (F.size_append f _ hlo).trans hsize
    have htail := ih fun g hg => h g (List.mem_cons_of_mem f hg)
    rw [List.flatten_cons, split_frame]
    · rw [hsize', List.drop_left, List.take_left, htail]
    · rw [List.length_append]
      omega
    · rw [Refused, hsize']
      omega
    · rw [hsize', List.length_append]
      omega

theorem split_join_tail {fs : List (List α)} {g tail : List α} (h : ∀ f ∈ fs, F.Whole f)
    (hg : F.Whole g) (htail : tail <+: g) (hlt : tail.length < g.length) :
    F.split (fs.flatten ++ tail) = ⟨fs, tail, false⟩ := by
  have hjoin := split_join h
  have hbad : (F.split fs.flatten).bad = false := by rw [hjoin]
  rw [split_append hbad, hjoin]
  obtain ⟨hsize, hlo, hhi⟩ := hg
  obtain ⟨more, rfl⟩ := htail
  have hrest : F.split tail = ⟨[], tail, false⟩ := by
    by_cases hshort : tail.length < F.header
    · exact split_short hshort
    · have hheader : F.header ≤ tail.length := by omega
      have hsame := F.size_append tail more hheader
      apply split_wait hheader
      · rw [Refused, ← hsame, hsize]
        omega
      · rw [← hsame, hsize]
        exact hlt
  rw [List.nil_append, hrest, List.append_nil]

theorem split_fine {fs : List (List α)} (h : ∀ f ∈ fs, F.Whole f) (hbs : bs <+: fs.flatten) :
    (F.split bs).bad = false := by
  obtain ⟨more, hmore⟩ := hbs
  have hjoin := split_join h
  rw [← hmore] at hjoin
  cases hbad : (F.split bs).bad with
  | true =>
    rw [split_append_of_bad hbad more] at hjoin
    have htrue : true = false := congrArg Split.bad hjoin
    cases htrue
  | false => rfl

/-- A reader of a part of a row of whole frames takes off the first of them. -/
theorem split_prefix {fs : List (List α)} (h : ∀ f ∈ fs, F.Whole f) (hbs : bs <+: fs.flatten) :
    (F.split bs).frames <+: fs := by
  have hfine := split_fine h hbs
  obtain ⟨more, hmore⟩ := hbs
  have hjoin := split_join h
  rw [← hmore, split_append hfine more] at hjoin
  exact ⟨_, congrArg Split.frames hjoin⟩

end Format

/-- Of the frames `fs`, sent one after the other, `gs` have come through whole when `bs` has come:
the longest beginning of them within it. -/
structure Came {α : Type} (fs gs : List (List α)) (bs : List α) : Prop where
  first : gs <+: fs
  within : gs.flatten <+: bs
  longest : ∀ hs, hs <+: fs → hs.flatten <+: bs → hs <+: gs

theorem Came.all {α : Type} {fs gs : List (List α)} (h : Came fs gs fs.flatten) : gs = fs :=
  h.first.eq_of_length_le (h.longest fs (List.prefix_refl _) (List.prefix_refl _)).length_le

theorem Format.came {α : Type} {F : Format α} {fs : List (List α)} {bs : List α}
    (h : ∀ f ∈ fs, F.Whole f) (hbs : bs <+: fs.flatten) : Came fs (F.split bs).frames bs where
  first := split_prefix h hbs
  within := ⟨_, split_flatten F bs⟩
  longest := by
    intro hs hfirst hcame
    obtain ⟨more, rfl⟩ := hcame
    have hjoin := split_join fun f hf => h f (hfirst.subset hf)
    have hfine : (F.split hs.flatten).bad = false := by rw [hjoin]
    rw [split_append hfine, hjoin]
    exact List.prefix_append _ _

end LengthPrefix
