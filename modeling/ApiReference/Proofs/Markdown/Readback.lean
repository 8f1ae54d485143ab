import ApiReference.Proofs.Markdown.Escape
import ApiReference.Proofs.Markdown.Pipes
import ApiReference.Proofs.Markdown.Quoted

/-!
# Anchors and links read back

An anchor is written on a line of its own, and a link in line, both with a text that is
not escaped.  So an id is read back from its line exactly if no double quote ends it
early (`idOf?_anchorTag`), and a destination from its link exactly if no blank and no
parenthesis does (`exists_written_link`).
-/

namespace ApiReference.Markdown

open Doc Text

variable {w : Writer} {s t u id target rest : Text} {c : Char} {depth : Nat}

/-! ## Readers -/

/-- The id of the anchor that a line of HTML starts with, up to the next double quote. -/
def idOf? (line : Text) : Option Text :=
  match after? "<a id=\"" line with
  | none => none
  | some rest =>
    match cut '"' rest with
    | (id, some _) => some id
    | (_, none) => none

/-- What follows the bracket that ends a label. The character behind a backslash ends none. -/
def afterLabel? : Text → Option Text
  | [] => none
  | ']' :: t => some t
  | '\\' :: _ :: t => afterLabel? t
  | _ :: t => afterLabel? t

/-- The destination of a link, up to the first blank or the first closing parenthesis that has none
to close, where `depth` are open in front of the text. -/
def destination (depth : Nat) : Text → Text
  | [] => []
  | c :: t =>
    if isBlank c then []
    else if c = '(' then c :: destination (depth + 1) t
    else if c = ')' then
      match depth with
      | 0 => []
      | depth + 1 => c :: destination depth t
    else c :: destination depth t

/-- The destination of the link that a Markdown text starts with. -/
def destinationOf? : Text → Option Text
  | '[' :: t =>
    match afterLabel? t with
    | some ('(' :: t) => some (destination 0 t)
    | _ => none
  | _ => none

/-- The parentheses of a text close each other, but for `depth` that are open in front of it and
are closed in it. -/
structure Closes (depth : Nat) (t : Text) : Prop where
  count_eq : t.count ')' = depth + t.count '('
  count_le : ∀ s, s <+: t → s.count ')' ≤ depth + s.count '('

/-- A text that can stand in parentheses as a destination. -/
structure FitsLink (t : Text) : Prop where
  not_blank : ∀ c ∈ t, isBlank c = false
  closes : Closes 0 t

/-! ## Parentheses -/

namespace Closes

instance decidable (depth : Nat) (t : Text) : Decidable (Closes depth t) :=
  decidable_of_iff (t.count ')' = depth + t.count '(' ∧
      ∀ s ∈ t.inits, s.count ')' ≤ depth + s.count '(') <| by
    simp only [List.mem_inits]
    exact ⟨fun h => ⟨h.1, h.2⟩, fun h => ⟨h.count_eq, h.count_le⟩⟩

theorem nil_iff : Closes depth [] ↔ depth = 0 := by
  constructor
  · intro h
    have hcount := h.count_eq
    simpa using hcount.symm
  · rintro rfl
    exact ⟨rfl, fun s hs => by rw [List.prefix_nil.mp hs]; exact Nat.zero_le _⟩

/-- One character changes how many parentheses are open. -/
theorem cons_iff_of_count {depth' : Nat} (hcount : ∀ s, (c :: s).count ')' +
    (depth' + s.count '(') = s.count ')' + (depth + (c :: s).count '(')) :
    Closes depth (c :: t) ↔ Closes depth' t := by
  constructor
  · intro h
    constructor
    · have := hcount t
      have := h.count_eq
      omega
    · intro s hs
      have := hcount s
      have := h.count_le (c :: s) (List.cons_prefix_cons.mpr ⟨rfl, hs⟩)
      omega
  · intro h
    constructor
    · have := hcount t
      have := h.count_eq
      omega
    · intro s hs
      rcases List.prefix_cons_iff.mp hs with rfl | ⟨s', rfl, hs'⟩
      · exact Nat.zero_le _
      · have := hcount s'
        have := h.count_le s' hs'
        omega

theorem open_iff : Closes depth ('(' :: t) ↔ Closes (depth + 1) t := by
  apply cons_iff_of_count
  intro s
  rw [List.count_cons_self, List.count_cons_of_ne (by decide)]
  omega

theorem close_iff : Closes (depth + 1) (')' :: t) ↔ Closes depth t := by
  apply cons_iff_of_count
  intro s
  rw [List.count_cons_self, List.count_cons_of_ne (by decide)]
  omega

theorem not_close : ¬ Closes 0 (')' :: t) := by
  intro h
  have hcount := h.count_le [')'] ⟨t, rfl⟩
  exact absurd hcount (by decide)

theorem cons_iff (hopen : c ≠ '(') (hclose : c ≠ ')') : Closes depth (c :: t) ↔ Closes depth t := by
  apply cons_iff_of_count
  intro s
  rw [List.count_cons_of_ne hopen, List.count_cons_of_ne hclose]

/-- Text without parentheses opens and closes none. -/
theorem append_iff (hu : '(' ∉ u ∧ ')' ∉ u) :
    Closes depth (s ++ (u ++ t)) ↔ Closes depth (s ++ t) := by
  induction s generalizing depth with
  | nil =>
    induction u with
    | nil => exact Iff.rfl
    | cons c u ih =>
      simp only [List.mem_cons, not_or] at hu
      exact (cons_iff (Ne.symm hu.1.1) (Ne.symm hu.2.1)).trans (ih ⟨hu.1.2, hu.2.2⟩)
  | cons c s ih =>
    rw [List.cons_append, List.cons_append]
    by_cases hopen : c = '('
    · rw [hopen, open_iff, open_iff, ih]
    · by_cases hclose : c = ')'
      · rw [hclose]
        cases depth with
        | zero => exact iff_of_false not_close not_close
        | succ depth => rw [close_iff, close_iff, ih]
      · rw [cons_iff hopen hclose, cons_iff hopen hclose, ih]

end Closes

instance FitsLink.decidable (t : Text) : Decidable (FitsLink t) :=
  decidable_of_iff (t.all (fun c => !isBlank c) = true ∧ Closes 0 t) <| by
    simp only [List.all_eq_true, Bool.not_eq_true']
    exact ⟨fun h => ⟨h.1, h.2⟩, fun h => ⟨h.not_blank, h.closes⟩⟩

/-! ## Destinations -/

theorem destination_blank (h : isBlank c = true) (depth : Nat) (t : Text) :
    destination depth (c :: t) = [] := by
  unfold destination
  exact if_pos h

theorem destination_open (depth : Nat) (t : Text) :
    destination depth ('(' :: t) = '(' :: destination (depth + 1) t := rfl

theorem destination_close (depth : Nat) (t : Text) :
    destination (depth + 1) (')' :: t) = ')' :: destination depth t := rfl

theorem destination_end (t : Text) : destination 0 (')' :: t) = [] := rfl

theorem destination_cons (hblank : isBlank c = false) (hopen : c ≠ '(') (hclose : c ≠ ')')
    (depth : Nat) (t : Text) : destination depth (c :: t) = c :: destination depth t := by
  conv_lhs => unfold destination
  rw [if_neg (by simp [hblank]), if_neg hopen, if_neg hclose]

theorem isBlank_of_mem_destination (h : c ∈ destination depth t) : isBlank c = false := by
  fun_induction destination depth t with
  | case1 => exact absurd h List.not_mem_nil
  | case2 => exact absurd h List.not_mem_nil
  | case3 depth t hblank ih => 
    rcases List.mem_cons.mp h with rfl | h
    · rfl
    · exact ih h
  | case4 => exact absurd h List.not_mem_nil
  | case5 t hblank hopen depth ih =>
    rcases List.mem_cons.mp h with rfl | h
    · rfl
    · exact ih h
  | case6 depth d t hblank hopen hclose ih =>
    rcases List.mem_cons.mp h with rfl | h
    · exact Bool.not_eq_true _ ▸ hblank
    · exact ih h

/-- A destination is read to its end exactly if nothing in it ends it before. -/
theorem destination_eq_iff : destination depth (t ++ ')' :: rest) = t ↔
    (∀ c ∈ t, isBlank c = false) ∧ Closes depth t := by
  induction t generalizing depth with
  | nil =>
    rw [Closes.nil_iff]
    cases depth with
    | zero => simp [destination_end]
    | succ depth => simp [destination_close]
  | cons c t ih =>
    rw [List.cons_append, List.forall_mem_cons]
    by_cases hblank : isBlank c = true
    · simp [destination_blank hblank, hblank]
    rw [Bool.not_eq_true] at hblank
    rw [and_iff_right hblank]
    by_cases hopen : c = '('
    · rw [hopen, destination_open, List.cons_inj_right, ih, Closes.open_iff]
    by_cases hclose : c = ')'
    · rw [hclose]
      cases depth with
      | zero => simp [destination_end, Closes.not_close]
      | succ depth => rw [destination_close, List.cons_inj_right, ih, Closes.close_iff]
    · rw [destination_cons hblank hopen hclose, List.cons_inj_right, ih,
        Closes.cons_iff hopen hclose]

/-! ## Labels -/

theorem afterLabel?_cons (hclose : c ≠ ']') (hback : c ≠ '\\') (t : Text) :
    afterLabel? (c :: t) = afterLabel? t := by
  rw [afterLabel?]
  · exact hclose
  · rintro d t' rfl
    exact absurd rfl hback

theorem afterLabel?_append (hclose : ']' ∉ s) (hback : '\\' ∉ s) (t : Text) :
    afterLabel? (s ++ t) = afterLabel? t := by
  induction s with
  | nil => rfl
  | cons c s ih =>
    rw [List.mem_cons, not_or] at hclose hback
    rw [List.cons_append, afterLabel?_cons (Ne.symm hclose.1) (Ne.symm hback.1),
      ih hclose.2 hback.2]

/-- An escaped label goes as far as it was written. -/
theorem afterLabel?_of_spells (h : Spells s t) (rest : Text) :
    afterLabel? (s ++ ']' :: rest) = some rest := by
  induction h with
  | nil => rfl
  | @plain c s t hspecial _ _ ih =>
    have hclose : c ≠ ']' := by
      rintro rfl
      cases hspecial
    rw [List.cons_append, afterLabel?_cons hclose (ne_backslash hspecial), ih]
  | pair _ _ ih => exact ih
  | @entity c s t hentity _ ih =>
    have hfree : ']' ∉ escapeEntity c ∧ '\\' ∉ escapeEntity c := by
      rcases isEntity_iff.mp hentity with rfl | rfl | rfl <;> decide
    rw [List.append_assoc, afterLabel?_append hfree.1 hfree.2, ih]

/-- The Markdown text of a link. -/
def linkText (label target : Text) : Text :=
  '[' :: escape (collapse label) ++ ("](" ++ target ++ ")")

theorem destinationOf?_linkText (label target rest : Text) :
    destinationOf? (linkText label target ++ rest) =
      some (destination 0 (target ++ ')' :: rest)) := by
  have hlabel := afterLabel?_of_spells (spells_escape (collapse label))
    ('(' :: (target ++ ')' :: rest))
  have htext : linkText label target ++ rest =
      '[' :: (escape (collapse label) ++ ']' :: '(' :: (target ++ ')' :: rest)) := by
    simp [linkText]
  rw [htext, destinationOf?, hlabel]
  rfl

theorem isBlank_of_destinationOf? (h : destinationOf? s = some t) : ∀ c ∈ t, isBlank c = false := by
  unfold destinationOf? at h
  split at h
  · split at h
    · obtain rfl := Option.some.inj h
      exact fun c hc => isBlank_of_mem_destination hc
    · cases h
  · cases h

/-! ## Ids -/

def anchorStart : Text := "<a id=\""

def anchorEnd : Text := "\"></a>"

/-- The line of an anchor. -/
def anchorTag (id : Text) : Text := anchorStart ++ id ++ anchorEnd

theorem oneLine_anchorTag (h : OneLine id) : OneLine (anchorTag id) := by
  have hstart : OneLine anchorStart := ⟨by decide, by decide⟩
  have hend : OneLine anchorEnd := ⟨by decide, by decide⟩
  exact (hstart.append h).append hend

/-- An id is read up to its first double quote. -/
theorem idOf?_of_not_mem (h : '"' ∉ s) (t : Text) :
    idOf? (anchorStart ++ (s ++ '"' :: t)) = some s := by
  have hafter : after? "<a id=\"" (anchorStart ++ (s ++ '"' :: t)) = some (s ++ '"' :: t) :=
    after?_append anchorStart _
  rw [idOf?, hafter]
  dsimp only
  rw [cut_append_cons h]

/-- So it is read back exactly if it has none. -/
theorem idOf?_anchorTag : idOf? (anchorTag id) = some id ↔ '"' ∉ id := by
  constructor
  · intro hid hquote
    obtain ⟨s, u, rfl, hs⟩ := List.eq_append_cons_of_mem hquote
    rw [anchorTag, List.append_assoc, List.append_assoc, List.cons_append, idOf?_of_not_mem hs,
      Option.some.injEq] at hid
    have hlength := congrArg List.length hid
    rw [List.length_append, List.length_cons] at hlength
    omega
  · intro h
    have hend : anchorEnd = '"' :: ("></a>" : Text) := rfl
    rw [anchorTag, List.append_assoc, hend, idOf?_of_not_mem h]

/-! ## Writing -/

theorem write_of_oneLine (w : Writer) (h : OneLine t) : w.write t = w.part t := by
  rw [Writer.write, unifyNewlines_eq h, splitAt_of_not_mem h.1]
  rfl

/-- A line that is begun goes on. -/
theorem text_part_of_begun (h : w.atLineStart = false) (t : Text) :
    (w.part t).text = w.text ++ t := by
  by_cases ht : t = []
  · rw [ht, List.append_nil]
    rfl
  · rw [Writer.text_part_eq w ht, Writer.text_putIndent, if_neg (by simp [h]), List.append_nil]

theorem atLineStart_part (h : w.atLineStart = false) (t : Text) :
    (w.part t).atLineStart = false := by
  unfold Writer.part
  split
  · exact h
  · rfl

theorem write_link (h : target ≠ []) (followed : Bool) (label : Text)
    (e : Emission) :
    write followed (.link target label) e = e.lift (Emission.link label target) := by
  cases target with
  | nil => exact absurd rfl h
  | cons c target => rfl

/-- A link to one line is written as it is. -/
theorem text_link (w : Writer) (label : Text) (h : OneLine target) :
    (Emission.link label target w).text = w.putIndent.text ++ linkText label target := by
  have hopen : OneLine ("[" : Text) := ⟨by decide, by decide⟩
  have hlabel := (piped_escape (oneLine_collapse label)).oneLine
  have hturn : OneLine ("](" : Text) := ⟨by decide, by decide⟩
  have hclose : OneLine (")" : Text) := ⟨by decide, by decide⟩
  have hbegun : (w.part ("[" : Text)).atLineStart = false := rfl
  rw [Emission.link, write_of_oneLine w hopen, write_of_oneLine _ hlabel,
    write_of_oneLine _ ((hturn.append h).append hclose),
    text_part_of_begun (atLineStart_part hbegun _), text_part_of_begun hbegun,
    Writer.text_part_eq w (by decide)]
  simp [linkText]

/-- A written link gives its destination back exactly if that fits into it, whatever follows. -/
theorem exists_written_link (w : Writer) (label target : Text) :
    ∃ link, (Emission.link label target w).text = w.putIndent.text ++ link ∧
      ∀ rest, destinationOf? (link ++ rest) = some target ↔ FitsLink target := by
  have hopen : OneLine ("[" : Text) := ⟨by decide, by decide⟩
  have hstart : w.putIndent.text <+: (Emission.link label target w).text := by
    have hgrows : (w.part ("[" : Text)).Grows (Emission.link label target w) := by
      rw [Emission.link, write_of_oneLine w hopen]
      exact (Writer.Grows.write _ _).trans (.write _ _)
    have hpart : (w.part ("[" : Text)).text = w.putIndent.text ++ ("[" : Text) :=
      Writer.text_part_eq w (by decide)
    exact (hpart ▸ List.prefix_append _ _).trans hgrows.text_isPrefix
  obtain ⟨link, hlink⟩ := hstart
  refine ⟨link, hlink.symm, fun rest => ?_⟩
  -- A destination with a line break is not read back, since it has a blank.
  have hread (hblank : ∀ c ∈ target, isBlank c = false) :
      destinationOf? (link ++ rest) = some target ↔ Closes 0 target := by
    have hline : OneLine target :=
      ⟨fun hc => absurd (hblank _ hc) (by decide), fun hc => absurd (hblank _ hc) (by decide)⟩
    rw [text_link w label hline] at hlink
    rw [List.append_cancel_left hlink, destinationOf?_linkText, Option.some.injEq,
      destination_eq_iff, and_iff_right hblank]
  constructor
  · intro h
    have hblank := isBlank_of_destinationOf? h
    exact ⟨hblank, (hread hblank).mp h⟩
  · intro h
    exact (hread h.not_blank).mpr h.closes

theorem atLineStart_ensureSkippedLine (h : w.Coherent) :
    w.ensureSkippedLine.atLineStart = true := by
  unfold Writer.ensureSkippedLine
  split
  · rename_i htail
    exact h.atLineStart_iff.mpr
      (.inl (h.remembers.tail_eq_nil_iff.mp (List.isEmpty_iff.mp htail)))
  · dsimp only
    split
    · exact Writer.atLineStart_ensureNewLine h
    · rfl

/-- An anchor is written on a line of its own, with the indent in front. -/
theorem text_anchor (hw : w.Coherent) (h : OneLine id) : (Emission.anchor id w).text =
    w.ensureSkippedLine.text ++ (w.indent ++ anchorTag id ++ ['\n']) ++ (w.indent ++ ['\n']) := by
  have hskipped := Writer.Grows.ensureSkippedLine w
  have hindent : w.ensureSkippedLine.indent = w.indent := hskipped.indent_eq
  have hne : anchorTag id ≠ [] := List.cons_ne_nil _ _
  have hbegun : (w.ensureSkippedLine.part (anchorTag id)).atLineStart = false := rfl
  have hline : ((w.ensureSkippedLine.part (anchorTag id)).newline).indent = w.indent := by
    refine (Writer.indent_congr ?_).trans hindent
    rw [Writer.indents_newline, Writer.indents_part]
  have hstart : ((w.ensureSkippedLine.part (anchorTag id)).newline).atLineStart = true := rfl
  have htext : (Emission.anchor id w).text =
      ((w.ensureSkippedLine.part (anchorTag id)).newline).newline.text := by
    rw [← write_of_oneLine _ (oneLine_anchorTag h)]
    rfl
  rw [htext, Writer.text_newline_eq, Writer.text_putIndent, hstart, hline, Writer.text_newline_eq,
    Writer.text_putIndent, hbegun, Writer.text_part_eq _ hne, Writer.text_putIndent,
    atLineStart_ensureSkippedLine hw, hindent]
  simp only [if_true, Bool.false_eq_true, if_false, List.append_assoc, List.append_nil]

end ApiReference.Markdown
