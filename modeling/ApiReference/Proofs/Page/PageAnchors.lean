import Mathlib.Data.List.Nodup
import Mathlib.Data.List.Pairwise
import Mathlib.Data.List.Perm.Basic
import ApiReference.Proofs.Page.AnchorNames
import ApiReference.Proofs.Page.Files
import ApiReference.Proofs.Page.MemberTables
import ApiReference.Proofs.Page.Order

/-!
# The anchors on the page of a type

The page of a type has the anchors of its own members, each once, and no others
(`PageOf.anchors_perm`): they stand in the details of the groups, every own member is in
one group at most, and nothing else on the page has anchors.  So they are all different
exactly if the members are, as far as anchors tell (`PageOf.nodup_anchors_iff`).
-/

namespace ApiReference.Page

open Declaration Doc Inheritance

variable {env : Env} {root : Declaration} {file : Text} {a m : Address} {g : Group} {place : Place}
variable {ns : List Node} {ms : List Address} {rows : List MemberRow} {level : HeadingLevel}
variable {s : Sheet} {i : Info}

/-- The anchor of the declaration at an address, if it has one. -/
def anchorAt? (root : Declaration) (a : Address) : Option Text := (root.info? a).bind anchorOf?

/-! ## Tables and details -/

theorem anchors_under (level : HeadingLevel) (title : Text) (ns : List Node) :
    anchors (under level title ns) = anchors ns := by
  unfold under
  split
  · rename_i hempty
    rw [List.isEmpty_iff.mp hempty]
  · rfl

theorem anchors_tableOf (columns : List Text) {rows : List (List (List Node))}
    (h : ∀ row ∈ rows, ∀ cell ∈ row, Anchorless cell) : anchors (tableOf columns rows) = [] := by
  unfold tableOf
  split
  · rfl
  · exact anchors_of_anchorless (List.forall_mem_singleton.mpr (Env.unmarked_table columns h))

theorem map_fst_marks {marks : List (Text × Option Text)}
    (h : List.Forall₂ (MarkOf root) ms marks) :
    marks.map Prod.fst = ms.filterMap (anchorAt? root) := by
  induction h with
  | nil => rfl
  | @cons m mark ms marks hmark _ ih =>
    obtain ⟨i, hi, hid, -⟩ := hmark
    have hat : anchorAt? root m = some mark.1 := by
      rw [anchorAt?, hi]
      exact hid
    rw [List.map_cons, ih, List.filterMap_cons_some hat]

namespace Env

/-- The own members of a type that are in the table of a group. -/
def ownMembers (env : Env) (a : Address) (g : Group) : List Address :=
  (env.groupMembers a g).filter ((env.root.membersAt a).contains ·)

theorem mem_ownMembers : m ∈ env.ownMembers a g ↔
    m ∈ env.root.membersAt a ∧ groupAt? env.root m = some g := by
  rw [ownMembers, List.mem_filter, List.contains_iff_mem, mem_groupMembers, groupAt?_eq_some_iff]
  exact ⟨fun h => ⟨h.2, h.1.2⟩, fun h => ⟨⟨.own h.1, h.2⟩, h.1⟩⟩

/-- Each own member of a type is in one group, or in none. -/
theorem perm_ownMembers (env : Env) (a : Address) :
    (Group.all.flatMap (env.ownMembers a)).Perm (tabled env.root (env.root.membersAt a)) := by
  have hgroups : Group.all.Nodup := by decide
  refine (List.perm_ext_iff_of_nodup ?_ ((nodup_membersAt env.root a).filter _)).mpr fun m => ?_
  · refine List.nodup_flatMap.mpr ⟨fun g _ => ?_, hgroups.imp fun hne m hm hm' => hne ?_⟩
    · exact ((nodup_shownMembers env.root env.graph a).sublist
        (sublist_groupMembers env a g)).filter _
    · exact Option.some.inj ((mem_ownMembers.mp hm).2.symm.trans (mem_ownMembers.mp hm').2)
  · refine List.mem_flatMap.trans (Iff.trans ?_ List.mem_filter.symm)
    rw [Option.isSome_iff_exists]
    constructor
    · rintro ⟨g, -, hm⟩
      exact ⟨(mem_ownMembers.mp hm).1, g, (mem_ownMembers.mp hm).2⟩
    · rintro ⟨hm, g, hg⟩
      exact ⟨g, Group.mem_all g, mem_ownMembers.mpr ⟨hm, hg⟩⟩

/-- What is in no table has no anchor. -/
theorem filterMap_tabled (root : Declaration) (ms : List Address) :
    (tabled root ms).filterMap (anchorAt? root) = ms.filterMap (anchorAt? root) := by
  rw [tabled, List.filterMap_filter]
  refine List.filterMap_congr fun m _ => ?_
  split
  · rfl
  · rename_i hgroup
    rw [Option.not_isSome_iff_eq_none, groupAt?] at hgroup
    rw [anchorAt?, Option.bind_eq_none_iff.mpr]
    intro i hi
    exact anchorOf?_of_group (Option.bind_eq_none_iff.mp hgroup i hi)

theorem unmarked_cells (h : List.Forall₂ (env.ListedRow place a) ms rows) :
    ∀ row ∈ rows, ∀ cell ∈ row.cells, Anchorless cell := by
  induction h with
  | nil => exact List.forall_mem_nil _
  | cons hrow _ ih => exact List.forall_mem_cons.mpr ⟨hrow.unmarked, ih⟩

/-- The anchors that are made for the members of a type are those of its own members. -/
theorem ensures_memberTables_anchors (hplace : 1 ≤ place.level)
    (hread : env.root.Everywhere ReadComment) (a : Address) :
    Ensures (env.memberTables place a).outcome fun ns =>
      (anchors ns).Perm ((env.root.membersAt a).filterMap (anchorAt? env.root)) := by
  intro nodes hnodes
  obtain ⟨level, hlevel⟩ := exists_level hplace
  obtain ⟨rows, hmade, rfl⟩ := ensures_memberTables_made hlevel a nodes hnodes
  have hrows := hmade.imp fun _ _ => listedRow_of_made hread
  -- the tables come before all details and have no anchors
  have htables : ∀ g : Group, anchors (under level g.title
      (tableOf g.columns ((rows.filter (·.group == g)).map MemberRow.cells))) = [] := by
    intro g
    rw [anchors_under, anchors_tableOf]
    intro cells hcells
    obtain ⟨row, hrow, rfl⟩ := List.mem_map.mp hcells
    exact unmarked_cells hrows row (List.mem_of_mem_filter hrow)
  have hdetails : ∀ g : Group, anchors (under level g.detailsTitle
      ((rows.filter (·.group == g)).flatMap MemberRow.details)) =
        (env.ownMembers a g).filterMap (anchorAt? env.root) := by
    intro g
    have hgroup := (forall₂_group hmade g).imp fun _ _ => listedRow_of_made hread
    obtain ⟨hmarks, hanchors⟩ := marks_details hgroup
    simp only [anchors_under, hanchors, map_fst_marks hmarks, ownMembers, List.contains_eq_mem]
  have hall : anchors (Group.all.flatMap (fun g => under level g.title
        (tableOf g.columns ((rows.filter (·.group == g)).map MemberRow.cells))) ++
      Group.all.flatMap fun g => under level g.detailsTitle
        ((rows.filter (·.group == g)).flatMap MemberRow.details)) =
      (Group.all.flatMap (env.ownMembers a)).filterMap (anchorAt? env.root) := by
    simp only [anchors_append, anchors_flatMap, htables, hdetails, List.filterMap_flatMap]
    rfl
  rw [hall, ← filterMap_tabled env.root (env.root.membersAt a)]
  exact (perm_ownMembers env a).filterMap _

/-! ## Pages -/

theorem anchorless_intersperse {separator : Node} (hseparator : Unmarked separator)
    (h : Anchorless ns) : Anchorless (ns.intersperse separator) := by
  induction ns with
  | nil => exact h
  | cons n ns ih =>
    obtain ⟨hn, hns⟩ := List.forall_mem_cons.mp h
    cases ns with
    | nil => exact h
    | cons m ns =>
      rw [List.intersperse_cons_cons]
      exact List.forall_mem_cons.mpr ⟨hn, List.forall_mem_cons.mpr ⟨hseparator, ih hns⟩⟩

theorem anchorless_crumbs (env : Env) (file : Text) (a : Address) :
    Anchorless (env.crumbs file a) := by
  refine anchorless_intersperse (unmarked_plainText _) fun n hn => ?_
  obtain ⟨b, -, hb⟩ := List.mem_filterMap.mp hn
  split at hb
  · cases hb
  · split at hb
    · cases hb
    · cases hb
      exact unmarked_link env file b _

end Env

/-- On the page of a type are the anchors of its own members and no others. -/
theorem PageOf.anchors_perm (hread : env.root.Everywhere ReadComment) (h : PageOf env s)
    (hi : env.root.info? s.item = some i) (hkind : i.kind.isInheriting = true) :
    (anchors s.nodes).Perm ((env.root.membersAt s.item).filterMap (anchorAt? env.root)) := by
  obtain ⟨j, crumbs, title, front, tables, hj, hcrumbs, hfront, htables, hnodes⟩ := h.parts
  obtain rfl := Option.some.inj (hi.symm.trans hj)
  have hunmarked : Anchorless crumbs := Env.ensures_addInline
    (Env.anchorless_crumbs env s.path s.item) crumbs hcrumbs
  have hfront : Anchorless front := Env.ensures_front _ hread hi [] front hfront
  have hanchors : anchors s.nodes = anchors tables := by
    rw [hnodes, anchors_append, anchors_of_anchorless hunmarked, List.nil_append]
    show anchors (front ++ tables) = anchors tables
    rw [anchors_append, anchors_of_anchorless hfront, List.nil_append]
  rw [hanchors]
  have hplace : 1 ≤ (Place.mk s.path 1).level := le_rfl
  exact Env.ensures_memberTables_anchors hplace hread s.item tables (htables hkind)

/-! ## Different anchors -/

/-- The anchors of some declarations are all different if no two of these have the same one. -/
theorem nodup_filterMap_iff {α β : Type} {f : α → Option β} {l : List α} (hl : l.Nodup) :
    (l.filterMap f).Nodup ↔
      ∀ a ∈ l, ∀ b ∈ l, ∀ c, f a = some c → f b = some c → a = b := by
  have hsymm : Std.Symm fun a b => ∀ c, f a = some c → ∀ c', f b = some c' → c ≠ c' :=
    ⟨fun a b h c hc c' hc' heq => h c' hc' c hc heq.symm⟩
  rw [List.Nodup, List.pairwise_filterMap]
  constructor
  · intro h a ha b hb c hac hbc
    by_contra hne
    exact h.forall ha hb hne c hac c hbc rfl
  · intro h
    refine hl.pairwise_of_forall_ne fun a ha b hb hne c hc c' hc' heq => hne ?_
    exact h a ha b hb c hc (heq ▸ hc')

theorem member_of_anchorOf? {id : Text} (h : anchorOf? i = some id) :
    i.kind.isMethod = true ∨ i.kind.isProperty = true := by
  by_contra hnone
  rw [not_or, Bool.not_eq_true, Bool.not_eq_true] at hnone
  rw [Env.anchorOf?_eq_none hnone.1 hnone.2] at h
  cases h

/-- Declarations have anchors of their own exactly if no two of them are the same member. -/
theorem apart_iff : Apart root SameMember ms ↔ ∀ a ∈ ms, ∀ b ∈ ms, ∀ id,
    anchorAt? root a = some id → anchorAt? root b = some id → a = b := by
  refine forall₂_congr fun a _ => forall₂_congr fun b _ => ?_
  constructor
  · intro h id ha hb
    obtain ⟨i, hi, hid⟩ := Option.bind_eq_some_iff.mp ha
    obtain ⟨j, hj, hid'⟩ := Option.bind_eq_some_iff.mp hb
    have hsame := (anchorOf?_eq_iff (member_of_anchorOf? hid) (member_of_anchorOf? hid')).mp
      (hid.trans hid'.symm)
    exact h i hi j hj hsame
  · intro h i hi j hj hsame
    obtain ⟨id, hid⟩ := Env.exists_anchorOf? hsame.member
    have hid' := ((anchorOf?_eq_iff hsame.member hsame.member').mpr hsame).symm.trans hid
    exact h id (Option.bind_eq_some_iff.mpr ⟨i, hi, hid⟩)
      (Option.bind_eq_some_iff.mpr ⟨j, hj, hid'⟩)

/-- All anchors on the page of a type are different exactly if no two own members are the same as
far as anchors tell. -/
theorem PageOf.nodup_anchors_iff (hread : env.root.Everywhere ReadComment) (h : PageOf env s)
    (hi : env.root.info? s.item = some i) (hkind : i.kind.isInheriting = true) :
    (anchors s.nodes).Nodup ↔ Apart env.root SameMember (env.root.membersAt s.item) := by
  rw [(h.anchors_perm hread hi hkind).nodup_iff,
    nodup_filterMap_iff (nodup_membersAt env.root s.item), apart_iff]

end ApiReference.Page
