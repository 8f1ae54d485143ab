import ApiReference.Comment.Parse

/-!
# The parts of a section

Each line of a block is one part of its section.  Which one depends on the line and on
whether the part before it goes on with code (`part`), and the nodes of the section are
put together from the parts without another look at the lines (`sectionFrom_eq`).  The
first line of the block of a parameter is taken without the name of the parameter
(`Draft.body`).
-/

namespace ApiReference.Comment

open Doc Text

variable {line : Text} {d d' : Draft}

/-! ## Sections -/

/-- What a line is in the section of its block. -/
inductive Part where
  /-- A fence that opens code, with the language of the code. -/
  | opening (language : Text)
  | code (line : Text)
  /-- A fence that closes code. -/
  | closing
  | blank
  | prose (line : Text)
deriving DecidableEq, Repr

/-- Whether code goes on behind a part. -/
def Part.leavesCode : Part → Bool
  | opening _ | code _ => true
  | closing | blank | prose _ => false

def Part.isCode : Part → Bool
  | code _ => true
  | opening _ | closing | blank | prose _ => false

theorem Part.isCode_iff {p : Part} : p.isCode = true ↔ ∃ t, p = .code t := by
  constructor
  · intro h
    cases p with
    | code t => exact ⟨t, rfl⟩
    | _ => cases h
  · rintro ⟨t, rfl⟩
    rfl

/-- The part that a line is, in code or outside of it. -/
def part (inCode : Bool) (line : Text) : Part :=
  if inCode then if isFenceLine line then .closing else .code line
  else match fenceLanguage? line with
    | some language => .opening language
    | none => if allBlank line then .blank else .prose line

def partsFrom (inCode : Bool) : List Text → List Part
  | [] => []
  | line :: lines => part inCode line :: partsFrom (part inCode line).leavesCode lines

/-- Whether code goes on behind some lines. -/
def codeAfter (inCode : Bool) (lines : List Text) : Bool :=
  lines.foldl (fun inCode line => (part inCode line).leavesCode) inCode

/-- Whether the open lines are code. -/
def Open.isCode : Open → Bool
  | prose _ => false
  | code _ _ => true

def Open.add (opened : Open) (line : Text) : Open :=
  match opened with
  | prose lines => prose (lines ++ [line])
  | code language lines => code language (lines ++ [line])

/-- The nodes of parts that follow the open lines. -/
def assemble (opened : Open) : List Part → List Node
  | [] => opened.close
  | .opening language :: ps => opened.close ++ assemble (.code language []) ps
  | .closing :: ps | .blank :: ps => opened.close ++ assemble (.prose []) ps
  | .code line :: ps | .prose line :: ps => assemble (opened.add line) ps

/-- The nodes of a section are put together from its parts. -/
theorem sectionFrom_eq (opened : Open) (lines : List Text) :
    sectionFrom opened lines = assemble opened (partsFrom opened.isCode lines) := by
  induction lines generalizing opened with
  | nil => rfl
  | cons line lines ih =>
    cases opened with
    | code language code =>
      rw [sectionFrom, partsFrom, Open.isCode, part, if_pos rfl]
      split
      · rw [ih]
        rfl
      · rw [ih]
        rfl
    | prose prose =>
      rw [sectionFrom, partsFrom, Open.isCode, part, if_neg Bool.false_ne_true]
      cases fenceLanguage? line with
      | some language =>
        dsimp only
        rw [ih]
        rfl
      | none =>
        dsimp only
        split
        · rw [ih]
          rfl
        · rw [ih]
          rfl

theorem partsFrom_append (inCode : Bool) (s t : List Text) :
    partsFrom inCode (s ++ t) = partsFrom inCode s ++ partsFrom (codeAfter inCode s) t := by
  induction s generalizing inCode with
  | nil => rfl
  | cons line s ih =>
    rw [List.cons_append, partsFrom, partsFrom, ih, List.cons_append]
    rfl

theorem length_partsFrom (inCode : Bool) (lines : List Text) :
    (partsFrom inCode lines).length = lines.length := by
  induction lines generalizing inCode with
  | nil => rfl
  | cons line lines ih => rw [partsFrom, List.length_cons, List.length_cons, ih]

theorem codeAfter_concat (inCode : Bool) (lines : List Text) (line : Text) :
    codeAfter inCode (lines ++ [line]) = (part (codeAfter inCode lines) line).leavesCode := by
  rw [codeAfter, List.foldl_append]
  rfl

theorem part_true (line : Text) :
    part true line = if isFenceLine line then .closing else .code line :=
  if_pos rfl

/-- Outside of code a line is no line of code, and code goes on behind it if it opens any. -/
theorem part_false (line : Text) : (part false line).isCode = false ∧
    (part false line).leavesCode = (fenceLanguage? line).isSome := by
  rw [part, if_neg Bool.false_ne_true]
  cases fenceLanguage? line with
  | some language => exact ⟨rfl, rfl⟩
  | none =>
    dsimp only
    split
    · exact ⟨rfl, rfl⟩
    · exact ⟨rfl, rfl⟩

/-! ## Drafts -/

/-- A line without the name of a parameter at its start. -/
def withoutName (line : Text) : Text :=
  match paramLine? line with
  | some (_, rest) => rest
  | none => line

namespace Draft

/-- What the next line of a draft adds to its section: the first one may name a parameter. -/
def shown (d : Draft) (line : Text) : Text :=
  if upper d.tag = "PARAM" ∧ d.lines = [] then withoutName line else line

/-- The lines that the section of a draft is made of. -/
def body (d : Draft) : List Text :=
  match d.lines with
  | [] => []
  | first :: lines => shown ⟨d.tag, []⟩ first :: lines

/-- The parts of the section of a draft. -/
def parts (d : Draft) : List Part := partsFrom false d.body

/-- Whether the section of a draft ends in code. -/
def endsInCode (d : Draft) : Bool := codeAfter false d.body

/-- What the next line of a draft is in its section. -/
def next (d : Draft) (line : Text) : Part := part d.endsInCode (d.shown line)

/-- The content of the block that a draft becomes. -/
def content (d : Draft) : List Node :=
  if upper d.tag = "PARAM" then (paramBlock d).content else sectionNodes d.lines

theorem body_cons (tag first : Text) (lines : List Text) :
    body ⟨tag, first :: lines⟩ = shown ⟨tag, []⟩ first :: lines := rfl

/-- The content of a block is put together from the parts of its draft. -/
theorem content_eq (d : Draft) : d.content = assemble (.prose []) d.parts := by
  have hbody : d.content = sectionNodes d.body := by
    obtain ⟨tag, lines⟩ := d
    unfold content
    cases lines with
    | nil =>
      split
      · rfl
      · rfl
    | cons first lines =>
      by_cases hparam : upper tag = "PARAM"
      · have hshown : shown ⟨tag, []⟩ first = withoutName first := if_pos ⟨hparam, rfl⟩
        rw [if_pos hparam, body_cons, hshown]
        unfold paramBlock withoutName
        dsimp only
        cases paramLine? first with
        | none => rfl
        | some found => rfl
      · have hshown : shown ⟨tag, []⟩ first = first := if_neg fun h => hparam h.1
        rw [if_neg hparam, body_cons, hshown]
  rw [hbody, sectionNodes, sectionFrom_eq]
  rfl

theorem body_concat (tag : Text) (lines : List Text) (line : Text) :
    body ⟨tag, lines ++ [line]⟩ = body ⟨tag, lines⟩ ++ [shown ⟨tag, lines⟩ line] := by
  cases lines with
  | nil => rfl
  | cons first lines =>
    have hshown : shown ⟨tag, first :: lines⟩ line = line :=
      if_neg fun h => List.cons_ne_nil _ _ h.2
    rw [hshown]
    rfl

theorem length_body (d : Draft) : d.body.length = d.lines.length := by
  obtain ⟨tag, lines⟩ := d
  cases lines with
  | nil => rfl
  | cons first lines => rfl

/-- Lines that come later do not change what the first ones are. -/
theorem parts_prefix (htag : d'.tag = d.tag) (h : d.lines <+: d'.lines) : d.parts <+: d'.parts := by
  obtain ⟨tag, lines⟩ := d
  obtain ⟨tag', _⟩ := d'
  obtain ⟨more, rfl⟩ := h
  obtain rfl : tag' = tag := htag
  have hbody : ∃ rest, body ⟨tag', lines ++ more⟩ = body ⟨tag', lines⟩ ++ rest := by
    cases lines with
    | nil => exact ⟨_, rfl⟩
    | cons first lines => exact ⟨more, rfl⟩
  obtain ⟨rest, hrest⟩ := hbody
  rw [parts, parts, hrest, partsFrom_append]
  exact List.prefix_append _ _

theorem parts_concat (tag : Text) (lines : List Text) (line : Text) :
    parts ⟨tag, lines ++ [line]⟩ = parts ⟨tag, lines⟩ ++ [next ⟨tag, lines⟩ line] := by
  rw [parts, body_concat, partsFrom_append]
  rfl

theorem length_parts (d : Draft) : d.parts.length = d.lines.length := by
  rw [parts, length_partsFrom, length_body]

theorem endsInCode_concat (tag : Text) (lines : List Text) (line : Text) :
    endsInCode ⟨tag, lines ++ [line]⟩ = (next ⟨tag, lines⟩ line).leavesCode := by
  rw [endsInCode, body_concat, codeAfter_concat]
  rfl

/-- A section that ends in code has a fence before the next line, which then names no parameter. -/
theorem shown_of_endsInCode (h : d.endsInCode = true) (line : Text) : d.shown line = line := by
  refine if_neg fun hfirst => ?_
  rw [endsInCode, body, hfirst.2] at h
  cases h

end Draft

end ApiReference.Comment
