import ApiReference.Proofs.Declaration.Reordered
import ApiReference.Proofs.Markdown.Readback
import ApiReference.Proofs.Page.Files
import ApiReference.Proofs.Page.Links
import ApiReference.Proofs.Page.MemberRows
import ApiReference.Proofs.Text.Trim

/-!
# Links to members read back

The anchor of a member is its name with marks behind it, and a link to the member ends
with its anchor.  Neither is escaped, so it is the name that decides whether they are
read back as they were meant: the anchor if the name has no double quote, and the link
if the path and the name fit into a link (`member_reads_back_iff`).
-/

namespace ApiReference.Page

open Declaration Markdown

variable {root : Declaration} {a : Address} {i : Info} {id : Text} {c : Char}

/-! ## Anchors -/

/-- A character of the marks that an anchor has behind the name. -/
def isMarkChar (c : Char) : Bool := c.isAlpha || c.isDigit || c == '-'

theorem isBlank_of_isMarkChar (h : isMarkChar c = true) : Text.isBlank c = false :=
  Text.isBlank_eq_false_of_codes (by decide) h

theorem not_mem_of_isMarkChar {marks : Text} (h : marks.all isMarkChar = true)
    (hc : isMarkChar c = false) : c ∉ marks := by
  intro hmem
  rw [List.all_eq_true.mp h c hmem] at hc
  cases hc

theorem all_categoryMark? {mark : Text} (h : categoryMark? i = some mark) :
    mark.all isMarkChar = true := by
  unfold categoryMark? at h
  split at h
  · obtain rfl := Option.some.inj h
    decide
  · split at h
    · obtain rfl := Option.some.inj h
      split <;> decide
    · cases h

theorem all_staticMark (i : Info) : (staticMark i).all isMarkChar = true := by
  unfold staticMark
  split <;> decide

theorem all_overloadMark (i : Info) : (overloadMark '-' i).all isMarkChar = true := by
  rw [List.all_eq_true]
  intro c hc
  rcases isDigit_of_mem_overloadMark hc with rfl | hdigit
  · rfl
  · rw [isMarkChar, hdigit, Bool.or_true, Bool.true_or]

/-- An anchor is the name and some marks. -/
theorem exists_marks (h : anchorOf? i = some id) :
    ∃ marks, id = i.name ++ marks ∧ marks.all isMarkChar = true := by
  obtain ⟨mark, hmark, rfl⟩ := Option.map_eq_some_iff.mp h
  refine ⟨mark ++ staticMark i ++ overloadMark '-' i, by simp only [List.append_assoc], ?_⟩
  rw [List.all_append, List.all_append, all_categoryMark? hmark, all_staticMark, all_overloadMark]
  rfl

section Anchor

variable (h : anchorOf? i = some id)
include h

/-- Of an anchor only the name can have a sign that is none of a mark. -/
theorem mem_anchor_iff (hc : isMarkChar c = false) : c ∈ id ↔ c ∈ i.name := by
  obtain ⟨marks, rfl, hmarks⟩ := exists_marks h
  rw [List.mem_append, or_iff_left (not_mem_of_isMarkChar hmarks hc)]

theorem oneLine_anchor (hname : Text.OneLine i.name) : Text.OneLine id :=
  ⟨(mem_anchor_iff h rfl).not.mpr hname.1, (mem_anchor_iff h rfl).not.mpr hname.2⟩

/-- Whether an anchor fits into a link behind a path depends on the path and the name. -/
theorem fitsLink_anchor_iff (path : Text) :
    FitsLink (path ++ '#' :: id) ↔ FitsLink (path ++ i.name) := by
  obtain ⟨marks, rfl, hmarks⟩ := exists_marks h
  have hfree : '(' ∉ marks ∧ ')' ∉ marks :=
    ⟨not_mem_of_isMarkChar hmarks rfl, not_mem_of_isMarkChar hmarks rfl⟩
  have hcloses : Closes 0 (path ++ '#' :: (i.name ++ marks)) ↔ Closes 0 (path ++ i.name) := by
    have hsign : Closes 0 (path ++ (['#'] ++ (i.name ++ marks))) ↔
        Closes 0 (path ++ (i.name ++ marks)) := Closes.append_iff (by decide)
    have hend : Closes 0 (path ++ i.name ++ (marks ++ [])) ↔ Closes 0 (path ++ i.name ++ []) :=
      Closes.append_iff hfree
    rw [List.append_nil, List.append_nil, List.append_assoc] at hend
    exact hsign.trans hend
  constructor
  · intro h
    refine ⟨fun c hc => h.not_blank c ?_, hcloses.mp h.closes⟩
    rw [List.mem_append] at hc
    simp only [List.mem_append, List.mem_cons]
    tauto
  · intro h
    refine ⟨fun c hc => ?_, hcloses.mpr h.closes⟩
    simp only [List.mem_append, List.mem_cons] at hc
    rcases hc with hc | rfl | hc | hc
    · exact h.not_blank c (List.mem_append_left _ hc)
    · rfl
    · exact h.not_blank c (List.mem_append_right _ hc)
    · exact isBlank_of_isMarkChar (List.all_eq_true.mp hmarks c hc)

theorem anchor?_locate (hi : root.info? a = some i) (r : Router) :
    (r.locate root a).anchor? = some id := by
  obtain ⟨d, hd, rfl⟩ := Option.map_eq_some_iff.mp hi
  obtain ⟨outer, houter⟩ := List.getLast?_eq_some_iff.mp (getLast?_lineage hd)
  have hlast : [d.toInfo].filterMap anchorOf? = [id] := List.filterMap_cons_some h
  rw [Router.locate, Router.locationOf, houter, List.filterMap_append, hlast]
  exact List.getLast?_concat

/-- A link to a member is the way to its page and the anchor. -/
theorem linkFrom_eq (hi : root.info? a = some i) (r : Router) (origin : Text) :
    r.linkFrom root origin a =
      dotted (relativePath (folderOf origin) (r.locate root a).path) ++ '#' :: id := by
  have hanchor := anchor?_locate h hi r
  rw [Router.linkFrom, hanchor]
  cases id with
  | nil => exact absurd h (anchorOf?_ne_nil i)
  | cons c id => rfl

end Anchor

/-! ## Members -/

/-- The anchor of a member is read back from its line exactly if the name has no double quote, and
the destination of a link to the member exactly if the path and the name fit into the link. -/
theorem member_reads_back_iff (r : Router) (origin : Text) (hi : root.info? a = some i)
    (hmember : i.kind.isMethod = true ∨ i.kind.isProperty = true) (hname : Text.OneLine i.name)
    (followed : Bool) (label : Text) (e : Emission) (he : e.writer.Coherent) :
    let path := dotted (relativePath (folderOf origin) (r.locate root a).path)
    let target := r.linkFrom root origin a
    ∃ id line link, anchorOf? i = some id ∧
      (write followed (.anchor id) e).writer.text = e.writer.ensureSkippedLine.text ++
        (e.writer.indent ++ line ++ ['\n']) ++ (e.writer.indent ++ ['\n']) ∧
      (idOf? line = some id ↔ '"' ∉ i.name) ∧
      target = path ++ '#' :: id ∧
      (write followed (.link target label) e).writer.text = e.writer.putIndent.text ++ link ∧
      ∀ rest, destinationOf? (link ++ rest) = some target ↔ FitsLink (path ++ i.name) := by
  intro path target
  obtain ⟨id, hid⟩ := Env.exists_anchorOf? hmember
  have htarget : target = path ++ '#' :: id := linkFrom_eq hid hi r origin
  have hne : target ≠ [] := htarget ▸ List.append_ne_nil_of_right_ne_nil _ (List.cons_ne_nil _ _)
  obtain ⟨link, hlink, hread⟩ := exists_written_link e.writer label target
  refine ⟨id, anchorTag id, link, hid, text_anchor he (oneLine_anchor hid hname), ?_, htarget, ?_,
    fun rest => ?_⟩
  · rw [idOf?_anchorTag, mem_anchor_iff hid rfl]
  · rw [write_link hne]
    exact hlink
  · rw [hread, htarget, fitsLink_anchor_iff hid]

/-- A class with properties whose names are no identifiers. -/
def cattery : Declaration :=
  ⟨.plain .package "cattery", [⟨.plain .entryPoint [], [
    ⟨.plain .classType "Cat", [⟨.plain .property "pace(km)", []⟩,
      ⟨.plain .property "\"fur color\"", []⟩]⟩]⟩]⟩

theorem pace_reads_back :
    cattery.info? [0, 0, 0] = some (.plain .property "pace(km)") ∧
    Emission.initial.writer.Coherent ∧
    ∃ id line link, anchorOf? (.plain .property "pace(km)") = some id ∧
      (write false (.anchor id) .initial).writer.text = line ++ ['\n', '\n'] ∧
      idOf? line = some id ∧
      (write false (.link (Router.linkFrom ⟨".md"⟩ cattery "index.md" [0, 0, 0]) "pace")
        .initial).writer.text = link ∧
      destinationOf? link = some (Router.linkFrom ⟨".md"⟩ cattery "index.md" [0, 0, 0]) := by
  have hinfo : cattery.info? [0, 0, 0] = some (.plain .property "pace(km)") := rfl
  obtain ⟨id, line, link, hid, hline, hread, -, hlink, hdestination⟩ :=
    member_reads_back_iff ⟨".md"⟩ "index.md" hinfo (.inr rfl) ⟨by decide, by decide⟩ false "pace"
      .initial .empty
  refine ⟨hinfo, .empty, id, line, link, hid, ?_, hread.mpr (by decide), hlink, ?_⟩
  · rw [hline]
    simp [Emission.initial, Writer.empty, Writer.ensureSkippedLine, Writer.text]
  · have hfits := (hdestination []).mpr (by decide)
    rwa [List.append_nil] at hfits

/-- The quotes and the space in a name end its anchor and a link to it early. -/
theorem quoted_member_reads_otherwise :
    cattery.info? [0, 0, 1] = some (.plain .property "\"fur color\"") ∧
    anchorOf? (.plain .property "\"fur color\"") =
      some ("\"fur color\"-property" : Text) ∧
    (write false (.anchor "\"fur color\"-property") .initial).writer.text =
      ("<a id=\"\"fur color\"-property\"></a>\n\n" : String) ∧
    idOf? "<a id=\"\"fur color\"-property\"></a>" = some [] ∧
    Router.linkFrom ⟨".md"⟩ cattery "index.md" [0, 0, 1] =
      "./classes/cat.md#\"fur color\"-property" ∧
    (write false (.link (Router.linkFrom ⟨".md"⟩ cattery "index.md" [0, 0, 1]) "fur")
      .initial).writer.text = ("[fur](./classes/cat.md#\"fur color\"-property)" : String) ∧
    destinationOf? "[fur](./classes/cat.md#\"fur color\"-property)" =
      some ("./classes/cat.md#\"fur" : Text) := by
  refine ⟨rfl, ?_⟩
  decide +kernel

end ApiReference.Page
