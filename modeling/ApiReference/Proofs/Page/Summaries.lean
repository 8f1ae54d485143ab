import ApiReference.Proofs.Page.MemberTables

/-!
# The summaries of members

A member is described by the first summary among its own and those of the declarations
that it goes back to: in its row, and again in its details if it is an own one.  A
summary counts as soon as it has a block, whether that shows anything or not, so an
empty paragraph hides all summaries behind it.  What is shown is the first summary with
something to see exactly if none is hidden in this way (`showsFirst_iff`).
-/

namespace ApiReference.Page

open Declaration Doc Inheritance

variable {root : Declaration} {chain front : List Address} {a b d m : Address} {s : List Node}

/-! ## Which summary is shown -/

/-- Whether a block of a summary shows anything: a paragraph that is not empty, or code. -/
def isVisible : Node → Bool
  | .paragraph inner => !inner.isEmpty
  | .fencedCode _ _ => true
  | _ => false

def hasContent (s : List Node) : Bool := s.any isVisible

/-- The summary of the comment on a declaration; there is nothing in it without a comment. -/
def summaryAt (root : Declaration) (a : Address) : List Node :=
  (((root.info? a).bind Info.comment?).map Comment.summary).getD []

/-- The summary of the first declaration in a chain whose summary has any block. -/
def firstSummary (root : Declaration) (chain : List Address) : List Node :=
  ((chain.map (summaryAt root)).find? fun s => !s.isEmpty).getD []

/-- What is shown for a chain of declarations is the summary of the first one that has something to
see in it, and nothing only if none of them has. -/
structure ShowsFirst (root : Declaration) (chain : List Address) (s : List Node) : Prop where
  first : ∀ d, chain.find? (fun b => hasContent (summaryAt root b)) = some d → s = summaryAt root d
  blank_iff : hasContent s = false ↔ ∀ d ∈ chain, hasContent (summaryAt root d) = false

/-- No declaration in front of the first one with something to see has any block in its summary. -/
def Unhidden (root : Declaration) (chain : List Address) : Prop :=
  (∃ d ∈ chain, hasContent (summaryAt root d) = true) →
    ∀ b ∈ chain.takeWhile (fun b => !hasContent (summaryAt root b)), summaryAt root b = []

instance : Decidable (Unhidden root chain) :=
  inferInstanceAs (Decidable ((∃ d ∈ chain, hasContent (summaryAt root d) = true) →
    ∀ b ∈ chain.takeWhile (fun b => !hasContent (summaryAt root b)), summaryAt root b = []))

theorem firstSummary_cons (root : Declaration) (a : Address) (chain : List Address) :
    firstSummary root (a :: chain) =
      if (summaryAt root a).isEmpty then firstSummary root chain else summaryAt root a := by
  rw [firstSummary, List.map_cons, List.find?_cons]
  cases (summaryAt root a).isEmpty <;> rfl

theorem firstSummary_append (root : Declaration) (front chain : List Address) :
    firstSummary root (front ++ chain) =
      if (firstSummary root front).isEmpty then firstSummary root chain
      else firstSummary root front := by
  unfold firstSummary
  rw [List.map_append, List.find?_append]
  cases h : (front.map (summaryAt root)).find? fun s => !s.isEmpty with
  | none => rfl
  | some s =>
    have hs := List.find?_some h
    rw [Bool.not_eq_true'] at hs
    rw [Option.some_or, Option.getD_some, hs]
    rfl

/-- What is taken for a chain is the summary of one in it, if it is not empty. -/
theorem exists_mem_of_firstSummary_ne_nil (h : firstSummary root chain ≠ []) :
    ∃ b ∈ chain, firstSummary root chain = summaryAt root b := by
  unfold firstSummary at h ⊢
  cases hfind : (chain.map (summaryAt root)).find? fun s => !s.isEmpty with
  | none =>
    rw [hfind] at h
    exact absurd rfl h
  | some s =>
    obtain ⟨b, hb, rfl⟩ := List.mem_map.mp (List.mem_of_find?_eq_some hfind)
    exact ⟨b, hb, rfl⟩

theorem firstSummary_eq_nil_iff :
    firstSummary root chain = [] ↔ ∀ b ∈ chain, summaryAt root b = [] := by
  constructor
  · intro h
    unfold firstSummary at h
    cases hfind : (chain.map (summaryAt root)).find? fun s => !s.isEmpty with
    | none =>
      intro b hb
      have hempty := List.find?_eq_none.mp hfind _ (List.mem_map_of_mem hb)
      exact List.isEmpty_iff.mp (by simpa using hempty)
    | some s =>
      rw [hfind] at h
      obtain rfl : s = [] := h
      exact absurd (List.find?_some hfind) Bool.false_ne_true
  · intro h
    by_contra hne
    obtain ⟨b, hb, heq⟩ := exists_mem_of_firstSummary_ne_nil hne
    exact hne (heq.trans (h b hb))

theorem hasContent_firstSummary (h : ∀ b ∈ chain, hasContent (summaryAt root b) = false) :
    hasContent (firstSummary root chain) = false := by
  by_cases hnil : firstSummary root chain = []
  · rw [hnil]
    rfl
  · obtain ⟨b, hb, heq⟩ := exists_mem_of_firstSummary_ne_nil hnil
    rw [heq]
    exact h b hb

theorem ne_nil_of_hasContent (h : hasContent s = true) : s ≠ [] := by
  rintro rfl
  exact absurd h Bool.false_ne_true

theorem firstSummary_of_hasContent (chain : List Address)
    (h : hasContent (summaryAt root d) = true) :
    firstSummary root (d :: chain) = summaryAt root d := by
  rw [firstSummary_cons, if_neg (mt List.isEmpty_iff.mp (ne_nil_of_hasContent h))]

section Visible

variable {rest : List Address} (hcontent : hasContent (summaryAt root d) = true)
  (hblank : ∀ b ∈ front, hasContent (summaryAt root b) = false)
include hcontent hblank

theorem find?_hasContent :
    (front ++ d :: rest).find? (fun b => hasContent (summaryAt root b)) = some d := by
  refine List.find?_eq_some_iff_append.mpr ⟨hcontent, front, rest, rfl, fun b hb => ?_⟩
  rw [hblank b hb]
  rfl

/-- If some declaration has something to see in its summary, the first one decides what has to be
shown. -/
theorem showsFirst_iff_eq :
    ShowsFirst root (front ++ d :: rest) s ↔ s = summaryAt root d := by
  have hfind : (front ++ d :: rest).find? (fun b => hasContent (summaryAt root b)) = some d :=
    find?_hasContent hcontent hblank
  have hd : d ∈ front ++ d :: rest := List.mem_append_right _ (List.mem_cons_self ..)
  constructor
  · intro hshows
    exact hshows.first d hfind
  · rintro rfl
    constructor
    · intro d' hd'
      obtain rfl := Option.some.inj (hfind.symm.trans hd')
      rfl
    · rw [hcontent]
      refine iff_of_false Bool.false_ne_true.symm fun hall => ?_
      rw [hall d hd] at hcontent
      cases hcontent

/-- It decides what is shown exactly if there is no block in the summaries in front of it. -/
theorem firstSummary_eq_iff : firstSummary root (front ++ d :: rest) = summaryAt root d ↔
    ∀ b ∈ front, summaryAt root b = [] := by
  rw [← firstSummary_eq_nil_iff, firstSummary_append, firstSummary_of_hasContent rest hcontent]
  constructor
  · intro heq
    by_contra hne
    rw [if_neg (mt List.isEmpty_iff.mp hne)] at heq
    -- what is taken from the front has nothing to see in it
    have hnone := hasContent_firstSummary hblank
    rw [heq, hcontent] at hnone
    cases hnone
  · intro hnil
    rw [if_pos (List.isEmpty_iff.mpr hnil)]

theorem unhidden_iff : Unhidden root (front ++ d :: rest) ↔
    ∀ b ∈ front, summaryAt root b = [] := by
  have hd : d ∈ front ++ d :: rest := List.mem_append_right _ (List.mem_cons_self ..)
  have htake : (front ++ d :: rest).takeWhile (fun b => !hasContent (summaryAt root b)) =
      front := by
    rw [List.takeWhile_append_of_pos (fun b hb => by rw [hblank b hb]; rfl),
      List.takeWhile_cons_of_neg (by rw [hcontent]; exact Bool.false_ne_true), List.append_nil]
  rw [Unhidden, htake]
  exact ⟨fun h => h ⟨d, hd, hcontent⟩, fun h _ => h⟩

end Visible

/-- What is shown is the first summary with something to see exactly if nothing hides it. -/
theorem showsFirst_iff :
    ShowsFirst root chain (firstSummary root chain) ↔ Unhidden root chain := by
  cases hfind : chain.find? fun b => hasContent (summaryAt root b) with
  | none =>
    have hnone : ∀ d ∈ chain, hasContent (summaryAt root d) = false := by
      intro d hd
      exact Bool.eq_false_of_not_eq_true (List.find?_eq_none.mp hfind d hd)
    refine iff_of_true ⟨?_, iff_of_true (hasContent_firstSummary hnone) hnone⟩ ?_
    · intro d hd
      cases hfind.symm.trans hd
    · rintro ⟨d, hd, hcontent⟩
      rw [hnone d hd] at hcontent
      cases hcontent
  | some d =>
    obtain ⟨hcontent, front, rest, rfl, hfront⟩ := List.find?_eq_some_iff_append.mp hfind
    have hblank : ∀ b ∈ front, hasContent (summaryAt root b) = false := by
      intro b hb
      exact (Bool.not_eq_true' _).mp (hfront b hb)
    rw [showsFirst_iff_eq hcontent hblank, firstSummary_eq_iff hcontent hblank,
      unhidden_iff hcontent hblank]

/-- A block that is read in a comment shows nothing only if it is an empty paragraph. -/
theorem isVisible_eq_false_iff {n : Node} (h : Comment.IsRead n) :
    isVisible n = false ↔ n = .paragraph [] := by
  unfold Comment.IsRead at h
  split at h
  · rename_i inner
    rw [Node.paragraph.injEq, ← List.isEmpty_iff]
    show (!inner.isEmpty) = false ↔ inner.isEmpty = true
    rw [Bool.not_eq_false']
  · exact iff_of_false Bool.false_ne_true.symm nofun
  · exact h.elim

/-- In a package that was read, a summary shows nothing exactly if all its blocks are empty
paragraphs. -/
theorem hasContent_summaryAt_eq_false_iff (hread : root.Everywhere ReadComment) (a : Address) :
    hasContent (summaryAt root a) = false ↔ ∀ n ∈ summaryAt root a, n = .paragraph [] := by
  have hblocks : ∀ n ∈ summaryAt root a, Comment.IsRead n := by
    unfold summaryAt
    cases hc : (root.info? a).bind Info.comment? with
    | none => exact List.forall_mem_nil _
    | some c =>
      obtain ⟨i, hi, hcomment⟩ := Option.bind_eq_some_iff.mp hc
      exact (hread a i hi c hcomment).summary
  rw [hasContent, List.any_eq_false]
  refine forall₂_congr fun n hn => ?_
  rw [Bool.not_eq_true]
  exact isVisible_eq_false_iff (hblocks n hn)

/-! ## Where it is shown -/

namespace Env

variable {env : Env} {file : Text} {i : Info} {parents : List Address} {place : Place}
variable {row : MemberRow} {rows : List MemberRow} {mark ns : List Node}

/-- The warning in front of what is said about a declaration that may still change. -/
def stageWarning (i : Info) : List Node :=
  if i.releaseTag = .beta then [.noteBox [.paragraph [.plainText betaWarning]]] else []

/-- The warning in front of what is said about a declaration that is going away. -/
def deprecation (i : Info) : List Node :=
  match i.comment?.bind Comment.deprecated? with
  | none => []
  | some block => [.noteBox (.paragraph [.plainText deprecatedNote] :: block.content)]

/-- What is said about a declaration before its tables, with a summary in its place. -/
def FrontShows (env : Env) (place : Place) (m : Address) (i : Info) (parents : List Address)
    (summary front : List Node) : Prop :=
  ∃ signature value diagrams examples, env.signature i = .ok signature ∧
    env.defaultValue (env.comments i parents) = .ok value ∧
    env.diagrams place m i = .ok diagrams ∧ env.examples place i = .ok examples ∧
    front = stageWarning i ++ deprecation i ++ summary ++
      env.inheritanceNote place.file m parents ++ remarks (env.comments i parents) ++
      signature ++ value ++ diagrams ++ examples

/-- What is said about a member below its heading, with a summary in its place. -/
def BodyShows (env : Env) (place : Place) (m : Address) (i : Info) (parents : List Address)
    (summary body : List Node) : Prop :=
  ∃ front tables, env.FrontShows place m i parents summary front ∧
    (env.simpleTables place m i).outcome = .ok tables ∧ body = front ++ tables

/-- The row of a member and the details of an own one show the same summary, the one that is taken
for the member and what it goes back to. -/
def Described (env : Env) (place : Place) (a m : Address) (row : MemberRow) : Prop :=
  let parents := chainOf env.root env.graph a (env.root.nameAt m)
  let summary := firstSummary env.root (m :: parents)
  ∃ i, env.root.info? m = some i ∧
    row.cells.getLast? =
      some (follow (stageMark i) summary ++ env.inheritanceNote place.file m parents) ∧
    (m ∈ env.root.membersAt a → ∃ id level body, anchorOf? i = some id ∧
      row.details = .anchor id :: .heading i.title level :: body ∧
      env.BodyShows ⟨place.file, min (place.level + 2) 5⟩ m i parents summary body)

theorem summary_cons (c : Comment) (cs : List Comment) :
    summary (c :: cs) = if c.summary.isEmpty then summary cs else c.summary := by
  rw [summary, List.find?_cons]
  cases c.summary.isEmpty <;> rfl

/-- Declarations without comments count as if their summary had no block. -/
theorem firstSummary_eq (root : Declaration) (chain : List Address) : firstSummary root chain =
    summary ((chain.filterMap root.info?).filterMap Info.comment?) := by
  induction chain with
  | nil => rfl
  | cons a chain ih =>
    rw [firstSummary_cons, summaryAt, ih]
    cases hi : root.info? a with
    | none => rw [List.filterMap_cons_none hi]; rfl
    | some i =>
      rw [List.filterMap_cons_some hi]
      cases hc : i.comment? with
      | none => rw [List.filterMap_cons_none hc, Option.bind_some, hc]; rfl
      | some c => rw [List.filterMap_cons_some hc, summary_cons, Option.bind_some, hc]; rfl

theorem summary_comments (hi : env.root.info? m = some i) (parents : List Address) :
    summary (env.comments i parents) = firstSummary env.root (m :: parents) := by
  rw [firstSummary_eq, List.filterMap_cons_some hi]
  rfl

theorem ensures_betaBox_eq (env : Env) (i : Info) :
    Ensures (env.betaBox i) (· = stageWarning i) := by
  unfold betaBox stageWarning
  split
  · exact ensures_permit rfl
  · exact .pure rfl

theorem ensures_deprecatedBox_eq (env : Env) (i : Info) :
    Ensures (env.deprecatedBox i) (· = deprecation i) := by
  unfold deprecatedBox deprecation
  cases i.comment?.bind Comment.deprecated? with
  | none => exact .pure rfl
  | some block =>
    refine (ensures_permit rfl).bind ?_
    rintro _ rfl
    exact ensures_permit rfl

theorem ensures_front_shows (place : Place) (hi : env.root.info? m = some i)
    (parents : List Address) : Ensures (env.front place m i parents)
      (env.FrontShows place m i parents (firstSummary env.root (m :: parents))) := by
  unfold front
  dsimp only
  rw [summary_comments hi]
  refine (ensures_betaBox_eq env i).bind ?_
  rintro _ rfl
  refine (ensures_deprecatedBox_eq env i).bind ?_
  rintro _ rfl
  refine (ensures_permit rfl).bind ?_
  rintro _ rfl
  refine (ensures_permit rfl).bind ?_
  rintro _ rfl
  refine (ensures_permit rfl).bind ?_
  rintro _ rfl
  -- the parts behind the remarks are what they are, for they have no summary in them
  refine Ensures.bind (fun _ h => h) fun signature hsignature => ?_
  refine Ensures.bind (fun _ h => h) fun value hvalue => ?_
  refine Ensures.bind (fun _ h => h) fun diagrams hdiagrams => ?_
  refine Ensures.bind (fun _ h => h) fun examples hexamples => .pure ?_
  exact ⟨signature, value, diagrams, examples, hsignature, hvalue, hdiagrams, hexamples, rfl⟩

theorem ensures_memberBody_shows (place : Place) (hi : env.root.info? m = some i)
    (parents : List Address) : Ensures (env.memberBody place m i parents).outcome
      (env.BodyShows place m i parents (firstSummary env.root (m :: parents))) := by
  unfold memberBody
  refine Ensures.bindTraced (ensures_front_shows place hi parents) fun front hfront => ?_
  refine Ensures.bindTraced (fun _ h => h) fun tables htables => .pure ?_
  exact ⟨front, tables, hfront, htables, rfl⟩

/-- The last cell of a member is what is said about it. -/
theorem ensures_memberCells_getLast? (env : Env) (file : Text) (m : Address) (i : Info)
    (parents : List Address) : Ensures (env.memberCells file m i parents).outcome fun cells =>
      ∃ cell, env.descriptionCell file m i parents = .ok cell ∧ cells.getLast? = some cell := by
  unfold memberCells
  dsimp only
  split
  · exact Ensures.bindTraced (fun _ h => h) fun cell hcell => .pure ⟨cell, hcell, rfl⟩
  · refine Ensures.bindTraced (P := fun _ => True) (fun _ _ => trivial) fun _ _ => ?_
    exact Ensures.bindTraced (fun _ h => h) fun cell hcell => .pure ⟨cell, hcell, rfl⟩

theorem described_of_made (h : env.ListedMade place a m row) : env.Described place a m row := by
  obtain ⟨i, hi, hgroup, hcells, hdetails⟩ := h
  obtain ⟨cell, hcell, hlast⟩ := ensures_memberCells_getLast? env place.file m i _ _ hcells
  rw [ensures_descriptionCell_eq env place.file m i _ cell hcell, summary_comments hi] at hlast
  refine ⟨i, hi, hlast, fun hown => ?_⟩
  rw [List.contains_iff_mem.mpr hown, if_pos rfl] at hdetails
  obtain ⟨level, body, heq, hbody⟩ := ensures_memberDetails_body env place m i _ _ hdetails
  obtain ⟨id, hid⟩ := exists_anchorOf? (kind_of_group hgroup)
  rw [hid] at heq
  exact ⟨id, level, body, hid, heq, ensures_memberBody_shows _ hi _ body hbody⟩

end Env

/-! ## The page -/

/-- Every member in the table of a group has a row there, and the own ones have their details, in
which the summaries are shown. -/
structure GroupDescribed (env : Env) (place : Place) (a : Address) (g : Group)
    (ms : List Address) (rows : List MemberRow) : Prop where
  mem_iff : ∀ m, m ∈ ms ↔ IsShown env.root env.graph a m ∧
    ∃ i, env.root.info? m = some i ∧ g.Holds i
  nodup : ms.Nodup
  rows : List.Forall₂ (env.Described place a) ms rows

/-- The tables of the members of a type and the details of its own ones show the summaries that are
taken for them. -/
def MembersDescribed (env : Env) (place : Place) (a : Address) (nodes : List Node) : Prop :=
  ∃ (level : HeadingLevel) (ms : Group → List Address) (rows : Group → List MemberRow),
    (level.val : Int) = min (place.level + 1) 5 ∧
    nodes = Group.all.flatMap (fun g => under level g.title
        (tableOf g.columns ((rows g).map MemberRow.cells))) ++
      Group.all.flatMap (fun g => under level g.detailsTitle
        ((rows g).flatMap MemberRow.details)) ∧
    ∀ g, GroupDescribed env place a g (ms g) (rows g)

namespace Env

theorem ensures_memberTables_described (env : Env) {place : Place} (hplace : 1 ≤ place.level)
    (a : Address) : Ensures (env.memberTables place a).outcome (MembersDescribed env place a) := by
  intro nodes hnodes
  obtain ⟨level, hlevel⟩ := exists_level hplace
  obtain ⟨rows, hmade, rfl⟩ := ensures_memberTables_made hlevel a nodes hnodes
  refine ⟨level, env.groupMembers a, fun g => rows.filter (·.group == g), hlevel, rfl, ?_⟩
  intro g
  refine ⟨fun m => mem_groupMembers, ?_, ?_⟩
  · exact (nodup_shownMembers env.root env.graph a).sublist (sublist_groupMembers env a g)
  · exact (forall₂_group hmade g).imp fun m row => described_of_made

end Env

end ApiReference.Page
