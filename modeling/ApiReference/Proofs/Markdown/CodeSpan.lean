import ApiReference.Proofs.Markdown.Readback

/-!
# Code spans

A code span starts with a run of backticks and ends with the next run that is as long
(`spanCode?`).  Code of one line is always written between two single backticks, so that
backticks of its own count as well: at its ends they make the runs longer, and inside of
it one that stands alone ends the span (`behindRun?_concat_iff`).  Other runs do no harm
(`write_codeSpan_iff`).
-/

namespace ApiReference.Markdown

open Doc Text

variable {c : Char} {s t code : Text} {k : Nat}

/-! ## Reading a code span -/

/-- What follows the first run of exactly `n` backticks, where `k` of them stand right in front of
the text. -/
def behindRun? (n : Nat) : Nat → Text → Option Text
  | k, [] => if k = n then some [] else none
  | k, c :: t =>
    if c = '\x60' then behindRun? n (k + 1) t
    else if k = n then some (c :: t) else behindRun? n 0 t

/-- A text without one space at each end, if it has both and is not made of spaces alone. -/
def stripSpaces (t : Text) : Text :=
  if t.head? = some ' ' ∧ t.getLast? = some ' ' ∧ t.any (· ≠ ' ') then t.tail.dropLast else t

/-- The code of a text that is one code span: it stands between the run of backticks that the text
starts with and the next one that is as long, and nothing follows that. -/
def spanCode? (t : Text) : Option Text :=
  let n := (t.takeWhile (· == '\x60')).length
  let inside := t.dropWhile (· == '\x60')
  if n = 0 then none
  else match behindRun? n 0 inside with
    | some [] => some (stripSpaces (inside.take (inside.length - n)))
    | _ => none

/-- A backtick without another one next to it. -/
def HasLoneTick (t : Text) : Prop :=
  ∃ before after, t = before ++ '\x60' :: after ∧ before.getLast? ≠ some '\x60' ∧
    after.head? ≠ some '\x60'

/-! ## Lone backticks -/

/-- Another character parts a text. -/
theorem hasLoneTick_append_cons (hc : c ≠ '\x60') :
    HasLoneTick (s ++ c :: t) ↔ HasLoneTick s ∨ HasLoneTick t := by
  constructor
  · rintro ⟨before, after, heq, hbefore, hafter⟩
    rcases List.append_eq_append_iff.mp heq with ⟨rest, rfl, hrest⟩ | ⟨rest, rfl, hrest⟩
    · cases rest with
      | nil => exact absurd (List.cons_eq_cons.mp hrest).1 hc
      | cons d rest =>
        obtain ⟨rfl, rfl⟩ := List.cons_eq_cons.mp hrest
        refine .inr ⟨rest, after, rfl, fun hlast => hbefore ?_, hafter⟩
        rw [List.getLast?_append, List.getLast?_cons, hlast]
        rfl
    · cases rest with
      | nil => exact absurd (List.cons_eq_cons.mp hrest).1.symm hc
      | cons d rest =>
        obtain ⟨hd, hrest⟩ := List.cons_eq_cons.mp hrest
        refine .inl ⟨before, rest, by rw [hd], hbefore, fun hhead => hafter ?_⟩
        rw [show after = rest ++ c :: t from hrest, List.head?_append, hhead]
        rfl
  · rintro (⟨before, after, rfl, hbefore, hafter⟩ | ⟨before, after, rfl, hbefore, hafter⟩)
    · refine ⟨before, after ++ c :: t, by simp, hbefore, ?_⟩
      cases after with
      | nil => simpa using hc
      | cons d after => exact hafter
    · refine ⟨s ++ c :: before, after, by simp, ?_, hafter⟩
      rw [List.getLast?_append_of_ne_nil _ (List.cons_ne_nil c before), List.getLast?_cons]
      cases hlast : before.getLast? with
      | none => simpa using hc
      | some d =>
        rw [hlast] at hbefore
        exact hbefore

theorem hasLoneTick_replicate : HasLoneTick (List.replicate k '\x60') ↔ k = 1 := by
  constructor
  · rintro ⟨before, after, heq, hbefore, hafter⟩
    have hall : ∀ c ∈ before ++ '\x60' :: after, c = '\x60' := fun c hc =>
      List.eq_of_mem_replicate (heq ▸ hc)
    have hnil : before = [] := by
      by_contra hne
      refine hbefore ?_
      rw [List.getLast?_eq_some_getLast hne, hall _ (List.mem_append_left _ (List.getLast_mem hne))]
    have hnil' : after = [] := by
      by_contra hne
      refine hafter ?_
      rw [List.head?_eq_some_head hne, hall _ (List.mem_append_right _
        (List.mem_cons_of_mem _ (List.head_mem hne)))]
    rw [hnil, hnil'] at heq
    simpa using congrArg List.length heq
  · rintro rfl
    exact ⟨[], [], rfl, by simp, by simp⟩

/-! ## Code between single backticks -/

/-- The backtick behind a text is the first one that stands alone exactly if there is none in the
text and none at its end. -/
theorem behindRun?_concat_iff (k : Nat) (t : Text) :
    behindRun? 1 k (t ++ ['\x60']) = some [] ↔
      ¬ HasLoneTick (List.replicate k '\x60' ++ t) ∧
        (List.replicate k '\x60' ++ t).getLast? ≠ some '\x60' := by
  induction t generalizing k with
  | nil =>
    rw [List.append_nil, hasLoneTick_replicate, List.nil_append, behindRun?, if_pos rfl, behindRun?]
    cases k with
    | zero => simp
    | succ k => simp [List.replicate_succ']
  | cons c t ih =>
    rw [List.cons_append, behindRun?]
    split
    · rename_i hc
      rw [ih, hc, List.replicate_succ', List.append_assoc, List.singleton_append]
    · rename_i hc
      rw [hasLoneTick_append_cons hc, hasLoneTick_replicate,
        List.getLast?_append_of_ne_nil _ (List.cons_ne_nil c t)]
      split
      · rename_i hk
        simp [hk]
      · rename_i hk
        rw [ih, List.replicate_zero, List.nil_append, or_iff_right hk]
        refine and_congr_right fun _ => not_congr ?_
        cases t with
        | nil => simpa using hc
        | cons d t => rw [List.getLast?_cons_cons]

/-- What a text is read as has lost all of its backticks at both ends. -/
theorem length_le_of_spanCode? (h : spanCode? t = some s) :
    s.length ≤ t.length - 2 * (t.takeWhile (· == '\x60')).length := by
  have hstrip (u : Text) : (stripSpaces u).length ≤ u.length := by
    unfold stripSpaces
    split
    · simp only [List.length_dropLast, List.length_tail]
      omega
    · exact le_rfl
  have hsplit : (t.takeWhile (· == '\x60')).length + (t.dropWhile (· == '\x60')).length =
      t.length := by
    rw [← List.length_append, List.takeWhile_append_dropWhile]
  unfold spanCode? at h
  dsimp only at h
  split at h
  · cases h
  · split at h
    · obtain rfl := Option.some.inj h
      refine (hstrip _).trans ?_
      rw [List.length_take]
      omega
    · cases h

/-- Code between single backticks is read back exactly if it has no backticks at its ends, and none
that stands alone. -/
theorem spanCode?_iff (hne : code ≠ []) (hspace : code.head? ≠ some ' ') :
    spanCode? ('\x60' :: code ++ ['\x60']) = some code ↔
      code.head? ≠ some '\x60' ∧ code.getLast? ≠ some '\x60' ∧ ¬ HasLoneTick code := by
  by_cases hhead : code.head? = some '\x60'
  · obtain ⟨rest, rfl⟩ := List.head?_eq_some_iff.mp hhead
    refine iff_of_false (fun h => ?_) fun h => h.1 hhead
    have hlength := length_le_of_spanCode? h
    simp only [List.cons_append, List.length_cons, List.length_append, List.length_nil,
      List.takeWhile_cons, BEq.rfl, if_true] at hlength
    omega
  · obtain ⟨c, rest, rfl⟩ := List.exists_cons_of_ne_nil hne
    have hc : c ≠ '\x60' := fun hc => hhead (congrArg some hc)
    have hbegin : ('\x60' :: c :: rest ++ ['\x60']).takeWhile (· == '\x60') = ['\x60'] := by
      simp [hc]
    have hinside : ('\x60' :: c :: rest ++ ['\x60']).dropWhile (· == '\x60') =
        c :: rest ++ ['\x60'] := by
      simp [hc]
    have htake : (c :: rest ++ ['\x60']).take ((c :: rest ++ ['\x60']).length - 1) = c :: rest := by
      simp
    have hstrip : stripSpaces (c :: rest) = c :: rest := if_neg fun h => hspace h.1
    have hreads : spanCode? ('\x60' :: c :: rest ++ ['\x60']) = some (c :: rest) ↔
        behindRun? 1 0 (c :: rest ++ ['\x60']) = some [] := by
      unfold spanCode?
      dsimp only
      rw [hbegin, hinside, List.length_singleton, if_neg Nat.one_ne_zero, htake, hstrip]
      split
      · rename_i hnil
        rw [hnil]
        simp
      · rename_i hmore
        exact iff_of_false (by simp) hmore
    rw [hreads, behindRun?_concat_iff, List.replicate_zero, List.nil_append, and_iff_right hhead]
    exact and_comm

/-! ## Writing -/

/-- Inside a table or not, code of one line is written between single backticks. -/
theorem codeSpan_of_oneLine (hline : OneLine code) (hpipe : '|' ∉ code) (insideTable : Bool) :
    Emission.codeSpan code insideTable = '\x60' :: code ++ ['\x60'] := by
  have hkept : ∀ c ∈ code, escapePipe c = [c] := fun c hc => by
    rw [escapePipe, if_neg fun heq : c = '|' => hpipe (heq ▸ hc)]
  have hescaped : code.flatMap escapePipe = code :=
    (List.flatMap_congr hkept).trans (List.flatMap_singleton' code)
  cases insideTable with
  | false => rfl
  | true =>
    rw [Emission.codeSpan, hescaped, splitLineFeeds_of_oneLine hline]
    rfl

/-- Code of one line without pipes and without a space at its start is written as a code span that
is read as this code, inside a table or not, exactly if the code has no backticks at its ends and
none that stands alone. -/
theorem write_codeSpan_iff (hne : code ≠ []) (hline : OneLine code) (hpipe : '|' ∉ code)
    (hspace : code.head? ≠ some ' ') (followed : Bool) (e : Emission) :
    ∃ text, (write followed (.codeSpan code) e).writer.text = e.writer.putIndent.text ++ text ∧
      (spanCode? text = some code ↔
        code.head? ≠ some '\x60' ∧ code.getLast? ≠ some '\x60' ∧ ¬ HasLoneTick code) := by
  have htick : OneLine (['\x60'] : Text) := by decide
  refine ⟨'\x60' :: code ++ ['\x60'], ?_, spanCode?_iff hne hspace⟩
  rw [write, codeSpan_of_oneLine hline hpipe]
  exact (congrArg Writer.text (write_of_oneLine _ ((htick.append hline).append htick))).trans
    (Writer.text_part_eq _ (List.cons_ne_nil _ _))

/-- A template type without a backtick at its ends: the two inside stand together. -/
def templateType : Text := "Tag<\x60\x60, string>"

theorem write_codeSpan_of_template :
    templateType ≠ [] ∧ OneLine templateType ∧ '|' ∉ templateType ∧
    templateType.head? ≠ some ' ' ∧
    spanCode? ('\x60' :: templateType ++ ['\x60']) = some templateType ∧
    ∃ text, (write false (.codeSpan templateType) .initial).writer.text =
        Writer.empty.putIndent.text ++ text ∧
      (spanCode? text = some templateType ↔
        templateType.head? ≠ some '\x60' ∧ templateType.getLast? ≠ some '\x60' ∧
          ¬ HasLoneTick templateType) := by
  have hline : OneLine templateType := by decide
  exact ⟨by decide, hline, by decide, by decide, by decide,
    write_codeSpan_iff (by decide) hline (by decide) (by decide) false .initial⟩

/-- The backticks around a template literal type are read as part of the delimiters, and one that
stands alone ends the span. -/
theorem template_literal_lost :
    let literal : Text := "\x60on$\x7bstring\x7d\x60"
    let alone : Text := "a\x60b"
    (emit none (.paragraph [.codeSpan literal])).outcome.toOption =
      some ("\x60\x60on$\x7bstring\x7d\x60\x60\n\n" : Text) ∧
    OneLine literal ∧ '|' ∉ literal ∧ literal.head? ≠ some ' ' ∧ literal.getLast? ≠ some ' ' ∧
    spanCode? "\x60\x60on$\x7bstring\x7d\x60\x60" = some "on$\x7bstring\x7d" ∧
    (write false (.codeSpan alone) .initial).writer.text = "\x60a\x60b\x60" ∧
    spanCode? "\x60a\x60b\x60" = none := by
  decide +kernel

end ApiReference.Markdown
