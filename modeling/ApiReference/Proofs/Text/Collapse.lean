import ApiReference.Proofs.Text.Trim

/-!
# Collapsing blanks in one pass

To collapse the runs of blanks and to trim what is left is one pass over a text
(`trim_collapse`): a blank after something visible is remembered, and written as a
space when something visible follows it.  Such a pass can stop anywhere and go on
later (`squeezeFrom_append`).  It is stated for items of any sort, because a paragraph
has other things than characters among its items: it collapses the runs of blank ones
and takes off those at the ends (`squeeze_eq`), and a second pass changes nothing
(`squeeze_squeeze`).
-/

namespace ApiReference.Text

/-! ## The pass -/

section Pass

variable {α β : Type} (blank : α → Bool) (space : α)

/-- The items with one `space` for every run of blank ones between others, and without those at the
ends. `started` tells that something visible came before, `pending` that a blank came after it. -/
def squeezeFrom (started pending : Bool) : List α → List α
  | [] => []
  | a :: as =>
    if blank a then squeezeFrom started started as
    else if pending then space :: a :: squeezeFrom true false as
    else a :: squeezeFrom true false as

/-- What is remembered after some items: whether something visible came, and whether a blank came
after it. -/
def squeezeState (started pending : Bool) : List α → Bool × Bool
  | [] => (started, pending)
  | a :: as => if blank a then squeezeState started started as else squeezeState true false as

def squeeze (as : List α) : List α := squeezeFrom blank space false false as

variable {blank space} {started pending : Bool} {a : α} {as bs : List α}

theorem squeezeFrom_append (started pending : Bool) (as bs : List α) :
    squeezeFrom blank space started pending (as ++ bs) =
      squeezeFrom blank space started pending as ++
        squeezeFrom blank space (squeezeState blank started pending as).1
          (squeezeState blank started pending as).2 bs := by
  induction as generalizing started pending with
  | nil => rfl
  | cons a as ih =>
    rw [List.cons_append, squeezeFrom, squeezeFrom, squeezeState]
    split
    · exact ih started started
    · split
      · rw [ih, List.cons_append, List.cons_append]
      · rw [ih, List.cons_append]

/-- The pass looks at nothing but what is blank. -/
theorem squeezeFrom_map {blank' : β → Bool} {f : α → β} (h : ∀ a ∈ as, blank' (f a) = blank a)
    (started pending : Bool) :
    squeezeFrom blank' (f space) started pending (as.map f) =
      (squeezeFrom blank space started pending as).map f := by
  induction as generalizing started pending with
  | nil => rfl
  | cons a as ih =>
    obtain ⟨ha, has⟩ := List.forall_mem_cons.mp h
    rw [List.map_cons, squeezeFrom, squeezeFrom, ha]
    split
    · exact ih has started started
    · split
      · rw [ih has, List.map_cons, List.map_cons]
      · rw [ih has, List.map_cons]

theorem squeezeState_map {blank' : β → Bool} {f : α → β} (h : ∀ a ∈ as, blank' (f a) = blank a)
    (started pending : Bool) :
    squeezeState blank' started pending (as.map f) = squeezeState blank started pending as := by
  induction as generalizing started pending with
  | nil => rfl
  | cons a as ih =>
    obtain ⟨ha, has⟩ := List.forall_mem_cons.mp h
    rw [List.map_cons, squeezeState, squeezeState, ha, ih has, ih has]

/-- What came before decides about nothing but a space in front. -/
theorem squeezeFrom_eq (h : pending = true → started = true) (as : List α) :
    squeezeFrom blank space started pending as =
      if squeeze blank space as = [] then []
      else if pending || (as.head?.any blank && started) then space :: squeeze blank space as
      else squeeze blank space as := by
  induction as generalizing started pending with
  | nil => rfl
  | cons a as ih =>
    rw [squeeze, squeezeFrom, squeezeFrom, List.head?_cons, Option.any_some]
    cases ha : blank a with
    | true =>
      rw [if_pos rfl, if_pos rfl, ih id, Bool.true_and, ← squeeze]
      split
      · rfl
      · cases started with
        | true => rw [Bool.true_or, Bool.or_true]
        | false =>
          have hpending : pending = false := by
            rw [← Bool.not_eq_true]
            exact fun hp => absurd (h hp) Bool.false_ne_true
          rw [hpending, Bool.and_false, Bool.or_false]
    | false =>
      rw [if_neg Bool.false_ne_true, if_neg Bool.false_ne_true, if_neg Bool.false_ne_true,
        if_neg (List.cons_ne_nil _ _), Bool.false_and, Bool.or_false]

theorem squeezeState_append (started pending : Bool) (as bs : List α) :
    squeezeState blank started pending (as ++ bs) =
      squeezeState blank (squeezeState blank started pending as).1
        (squeezeState blank started pending as).2 bs := by
  induction as generalizing started pending with
  | nil => rfl
  | cons a as ih =>
    rw [List.cons_append, squeezeState, squeezeState]
    split
    · exact ih started started
    · exact ih true false

/-- One more item: a blank one is only remembered. -/
theorem squeeze_concat (as : List α) (a : α) :
    squeeze blank space (as ++ [a]) = [] ↔ squeeze blank space as = [] ∧ blank a = true := by
  rw [squeeze, squeezeFrom_append, List.append_eq_nil_iff, ← squeeze, squeezeFrom, squeezeFrom]
  refine and_congr_right fun _ => ?_
  cases blank a with
  | true => simp
  | false =>
    rw [if_neg Bool.false_ne_true]
    split
    · simp
    · simp

theorem getLast?_any_of_squeeze_eq_nil (h : squeeze blank space as = []) (hne : as ≠ []) :
    as.getLast?.any blank = true := by
  obtain ⟨as, a, rfl⟩ := (List.eq_nil_or_concat' as).resolve_left hne
  rw [List.getLast?_concat, Option.any_some]
  exact ((squeeze_concat as a).mp h).2

theorem squeezeState_eq (h : pending = true → started = true) (as : List α) :
    squeezeState blank started pending as =
      if squeeze blank space as = [] then (started, pending || (as.getLast?.any blank && started))
      else (true, as.getLast?.any blank) := by
  have hstarted : (pending || started) = started := by
    cases pending with
    | true => rw [h rfl, Bool.true_or]
    | false => rw [Bool.false_or]
  induction as using List.reverseRecOn with
  | nil => exact congrArg (Prod.mk started) (Bool.or_false pending).symm
  | append_singleton as a ih =>
    rw [squeezeState_append, ih, List.getLast?_concat, Option.any_some, squeezeState, squeezeState,
      squeezeState]
    cases ha : blank a with
    | true =>
      by_cases hnil : squeeze blank space as = []
      · rw [if_pos ((squeeze_concat as a).mpr ⟨hnil, ha⟩), if_pos hnil, if_pos rfl, Bool.true_and,
          hstarted]
      · rw [if_neg fun hc => hnil ((squeeze_concat as a).mp hc).1, if_neg hnil, if_pos rfl]
    | false =>
      have hne : squeeze blank space (as ++ [a]) ≠ [] := fun hc =>
        absurd ((squeeze_concat as a).mp hc).2 (by simp [ha])
      rw [if_neg hne, if_neg Bool.false_ne_true]

end Pass

/-! ## Runs of blanks -/

section Runs

variable {α : Type} (blank : α → Bool) (space : α)

/-- The items with one `space` in place of every longest run of blank ones. -/
def collapseRuns : List α → List α
  | [] => []
  | a :: as =>
    if blank a then space :: collapseRuns (as.dropWhile blank) else a :: collapseRuns as
termination_by as => as.length
decreasing_by
  · exact Nat.lt_succ_of_le (List.dropWhile_sublist blank).length_le
  · exact Nat.lt_succ_self _

/-- The items without the blank ones at both ends. -/
def stripBlanks (as : List α) : List α := (as.dropWhile blank).rdropWhile blank

variable {blank} {space} {a : α}

theorem rdropWhile_cons (ha : blank a = false) (as : List α) :
    (a :: as).rdropWhile blank = a :: as.rdropWhile blank := by
  induction as using List.reverseRecOn with
  | nil => rw [List.rdropWhile_singleton, ha, if_neg Bool.false_ne_true, List.rdropWhile_nil]
  | append_singleton as b ih =>
    rw [← List.cons_append, List.rdropWhile_concat, List.rdropWhile_concat]
    split
    · exact ih
    · rfl

theorem collapseRuns_cons_blank (ha : blank a = true) (as : List α) :
    collapseRuns blank space (a :: as) =
      space :: collapseRuns blank space (as.dropWhile blank) := by
  rw [collapseRuns, if_pos ha]

theorem collapseRuns_cons (ha : blank a = false) (as : List α) :
    collapseRuns blank space (a :: as) = a :: collapseRuns blank space as := by
  rw [collapseRuns, if_neg (by simp [ha])]

variable (hspace : blank space = true)
include hspace

/-- After something visible the pass leaves what is in front of the blanks at the end, with a space
in front if one is due. -/
theorem squeezeFrom_true (as : List α) :
    squeezeFrom blank space true false as = (collapseRuns blank space as).rdropWhile blank ∧
    squeezeFrom blank space true true as =
      (space :: collapseRuns blank space (as.dropWhile blank)).rdropWhile blank := by
  induction as with
  | nil =>
    rw [squeezeFrom, squeezeFrom, List.dropWhile_nil, collapseRuns, List.rdropWhile_singleton,
      if_pos hspace]
    exact ⟨rfl, rfl⟩
  | cons a as ih =>
    rw [squeezeFrom, squeezeFrom]
    cases ha : blank a with
    | true =>
      rw [if_pos rfl, if_pos rfl, collapseRuns_cons_blank ha, List.dropWhile_cons_of_pos ha]
      exact ⟨ih.2, ih.2⟩
    | false =>
      have hfirst := rdropWhile_cons ha (collapseRuns blank space as)
      have hrest : (space :: a :: collapseRuns blank space as).rdropWhile blank =
          space :: (a :: collapseRuns blank space as).rdropWhile blank :=
        rdropWhile_append [space] (by rw [hfirst]; exact List.cons_ne_nil _ _)
      rw [if_neg Bool.false_ne_true, if_neg Bool.false_ne_true, if_neg Bool.false_ne_true,
        if_pos rfl, List.dropWhile_cons_of_neg (by simp [ha]), collapseRuns_cons ha, hrest, hfirst,
        ih.1]
      exact ⟨rfl, rfl⟩

theorem dropWhile_collapseRuns (as : List α) :
    (collapseRuns blank space (as.dropWhile blank)).dropWhile blank =
      (collapseRuns blank space as).dropWhile blank := by
  cases as with
  | nil => rfl
  | cons a as =>
    cases ha : blank a with
    | true =>
      rw [List.dropWhile_cons_of_pos ha, collapseRuns_cons_blank ha]
      exact (List.dropWhile_cons_of_pos hspace).symm
    | false => rw [List.dropWhile_cons_of_neg (by simp [ha])]

/-- The pass collapses the runs of blanks and takes those off at the ends. -/
theorem squeeze_eq (as : List α) :
    squeeze blank space as = stripBlanks blank (collapseRuns blank space as) := by
  induction as with
  | nil =>
    rw [collapseRuns]
    rfl
  | cons a as ih =>
    rw [squeeze, squeezeFrom]
    cases ha : blank a with
    | true =>
      rw [if_pos rfl, ← squeeze, ih, collapseRuns_cons_blank ha, stripBlanks, stripBlanks,
        List.dropWhile_cons_of_pos hspace, dropWhile_collapseRuns hspace]
    | false =>
      rw [if_neg Bool.false_ne_true, if_neg Bool.false_ne_true, (squeezeFrom_true hspace as).1,
        collapseRuns_cons ha, stripBlanks, List.dropWhile_cons_of_neg (by simp [ha]),
        rdropWhile_cons ha]

/-- What is not blank stays, in its order. -/
theorem filter_squeezeFrom (started pending : Bool) (as : List α) :
    (squeezeFrom blank space started pending as).filter (fun a => !blank a) =
      as.filter fun a => !blank a := by
  have hgone : ∀ bs : List α, (space :: bs).filter (fun a => !blank a) =
      bs.filter fun a => !blank a := fun bs => List.filter_cons_of_neg (by simp [hspace])
  induction as generalizing started pending with
  | nil => rfl
  | cons a as ih =>
    rw [squeezeFrom]
    cases ha : blank a with
    | true => rw [if_pos rfl, ih, List.filter_cons_of_neg (by simp [ha])]
    | false =>
      rw [if_neg Bool.false_ne_true, List.filter_cons_of_pos (by simp [ha])]
      cases pending with
      | true =>
        rw [if_pos rfl, hgone, List.filter_cons_of_pos (by simp [ha]), ih]
      | false => rw [if_neg Bool.false_ne_true, List.filter_cons_of_pos (by simp [ha]), ih]

/-- After something visible the pass keeps what a pass has left. -/
theorem squeezeFrom_squeezeFrom (pending : Bool) (as : List α) :
    squeezeFrom blank space true false (squeezeFrom blank space true pending as) =
      squeezeFrom blank space true pending as := by
  induction as generalizing pending with
  | nil => rfl
  | cons a as ih =>
    rw [squeezeFrom]
    cases ha : blank a with
    | true => rw [if_pos rfl, ih]
    | false =>
      have hvisible : ∀ pending, squeezeFrom blank space true pending (a :: squeezeFrom blank space
          true false as) = if pending then space :: a :: squeezeFrom blank space true false as
            else a :: squeezeFrom blank space true false as := by
        intro pending
        rw [squeezeFrom, ha, if_neg Bool.false_ne_true, ih]
      rw [if_neg Bool.false_ne_true]
      cases pending with
      | true => rw [if_pos rfl, squeezeFrom, if_pos hspace, hvisible, if_pos rfl]
      | false => rw [if_neg Bool.false_ne_true, hvisible, if_neg Bool.false_ne_true]

theorem squeeze_squeeze (as : List α) :
    squeeze blank space (squeeze blank space as) = squeeze blank space as := by
  induction as with
  | nil => rfl
  | cons a as ih =>
    cases ha : blank a with
    | true =>
      have hskip : squeeze blank space (a :: as) = squeeze blank space as := by
        rw [squeeze, squeezeFrom, if_pos ha]
        rfl
      rw [hskip, ih]
    | false =>
      have hkeep : ∀ as, squeeze blank space (a :: as) =
          a :: squeezeFrom blank space true false as := by
        intro as
        rw [squeeze, squeezeFrom, ha, if_neg Bool.false_ne_true, if_neg Bool.false_ne_true]
      rw [hkeep, hkeep, squeezeFrom_squeezeFrom hspace]

end Runs

/-! ## Texts -/

/-- The first blanks become one space. -/
theorem collapse_cons_blank {c : Char} (hc : isBlank c = true) (t : Text) :
    collapse (c :: t) = ' ' :: collapse (t.dropWhile isBlank) := by
  induction t generalizing c with
  | nil =>
    rw [collapse, if_pos hc]
    rfl
  | cons d t ih =>
    rw [collapse, if_pos hc]
    cases hd : isBlank d with
    | true => rw [if_pos rfl, ih hd, List.dropWhile_cons_of_pos hd]
    | false => rw [if_neg Bool.false_ne_true, List.dropWhile_cons_of_neg (by simp [hd])]

theorem collapse_eq (t : Text) : collapse t = collapseRuns isBlank ' ' t := by
  fun_induction collapseRuns isBlank ' ' t with
  | case1 => rfl
  | case2 c t hc ih => rw [collapse_cons_blank hc, ih]
  | case3 c t hc ih =>
    rw [collapse.eq_def, ← ih]
    exact if_neg hc

/-- Collapsing and trimming a text is one pass over it. -/
theorem trim_collapse (t : Text) : trim (collapse t) = squeeze isBlank ' ' t := by
  rw [squeeze_eq isBlank_space, collapse_eq]
  rfl

end ApiReference.Text
