import ApiReference.Declaration.Lineage
import ApiReference.Declaration.Load
import ApiReference.Proofs.Comment.Nodes
import ApiReference.Proofs.Declaration.Walk

/-!
# Declarations read from documents

Whatever the document of a package holds, what is read from it has a package at its
root, and all comments in it are made of what is read in comments (`ReadComment`), so that
they are sound.
-/

namespace ApiReference.Declaration

variable {p : Info → Prop} {i : Info} {ms : List Declaration} {d : Declaration} {a : Address}
variable {config : Json} {file owner : Text}

/-- What holds of every declaration of a tree. -/
def Everywhere (p : Info → Prop) (d : Declaration) : Prop := ∀ a, ∀ i ∈ d.info? a, p i

theorem info?_cons (n : Nat) (a : Address) :
    info? ⟨i, ms⟩ (n :: a) = ms[n]?.bind fun m => m.info? a := by
  rw [info?, get?_cons]
  cases ms[n]? <;> rfl

theorem everywhere_mk : Everywhere p ⟨i, ms⟩ ↔ p i ∧ ∀ m ∈ ms, Everywhere p m := by
  constructor
  · intro h
    refine ⟨h [] i rfl, ?_⟩
    intro m hm a j hj
    obtain ⟨n, hn⟩ := List.mem_iff_getElem?.mp hm
    refine h (n :: a) j ?_
    rw [info?_cons, hn]
    exact hj
  · rintro ⟨hi, hms⟩ a j hj
    cases a with
    | nil =>
      obtain rfl := Option.some.inj hj
      exact hi
    | cons n a =>
      rw [info?_cons] at hj
      obtain ⟨m, hm, hj⟩ := Option.bind_eq_some_iff.mp hj
      exact hms m (List.mem_of_getElem? hm) a j hj

/-- The comment of a declaration is sound, if it has one. -/
def SoundComment (i : Info) : Prop := ∀ c ∈ i.comment?, Comment.Sound c

/-- A tree all of whose comments are sound. -/
abbrev Commented (d : Declaration) : Prop := d.Everywhere SoundComment

theorem Everywhere.mono {q : Info → Prop} (h : d.Everywhere p) (hpq : ∀ i, p i → q i) :
    d.Everywhere q := fun a i hi => hpq i (h a i hi)

/-- The comment of a declaration is made of what is read in comments, if it has one. -/
def ReadComment (i : Info) : Prop := ∀ c ∈ i.comment?, Comment.AsRead c

/-- Comments that were read are sound. -/
theorem commented_of_read (h : d.Everywhere ReadComment) : Commented d :=
  h.mono fun _ hi c hc => (hi c hc).sound

/-! ## One declaration -/

theorem readTypes_keeps {tokens : List Text} {data : Json} {i j : Info}
    (h : readTypes tokens data i = .ok j) : j.kind = i.kind ∧ j.comment? = i.comment? := by
  simp only [readTypes, bind_eq_ok] at h
  obtain ⟨_, _, _, _, _, _, _, _, _, _, _, _, _, _, h⟩ := h
  cases h
  exact ⟨rfl, rfl⟩

/-- What is told of a declaration is of the kind asked for, and its comment was read. -/
theorem readInfo_eq_ok {kind : Kind} {data : Json}
    (h : (readInfo config kind data).outcome = .ok i) : i.kind = kind ∧ ReadComment i := by
  simp only [readInfo, Traced.outcome_bind, Traced.outcome_liftExcept, bind_eq_ok] at h
  obtain ⟨tokenValue, _, tokens, _, name, _, tag, _, static, _, index, _, overload, _, raw, _,
    h⟩ := h
  split at h
  · simp only [Traced.outcome_bind, Traced.outcome_liftExcept, bind_eq_ok] at h
    obtain ⟨c, hc, h⟩ := h
    obtain ⟨hkind, hcomment⟩ := readTypes_keeps h
    refine ⟨hkind, ?_⟩
    intro c' hc'
    rw [hcomment] at hc'
    obtain rfl := Option.some.inj hc'
    exact Comment.asRead_of_ofDocument hc
  · obtain ⟨hkind, hcomment⟩ := readTypes_keeps h
    refine ⟨hkind, ?_⟩
    intro c' hc'
    rw [hcomment] at hc'
    cases hc'

/-! ## Trees -/

theorem ofDocument_object {fields : List (Text × Json)} {d? : Option Declaration}
    (h : (ofDocument config file (.object fields)).outcome = .ok d?) (hd : d? = some d) :
    readKind? (.object fields) = .ok (some d.kind) ∧ ReadComment d.toInfo ∧
      (membersField config file d.name fields).outcome = .ok d.members := by
  rw [ofDocument, Traced.outcome_bind] at h
  obtain ⟨kind?, hkind, h⟩ := bind_eq_ok.mp h
  cases kind? with
  | none =>
    simp only [Traced.outcome_bind, bind_eq_ok] at h
    obtain ⟨_, _, h⟩ := h
    cases h
    cases hd
  | some kind =>
    simp only [Traced.outcome_bind, bind_eq_ok] at h
    obtain ⟨info, hinfo, members, hmembers, h⟩ := h
    cases h
    cases hd
    obtain ⟨rfl, hcomment⟩ := readInfo_eq_ok hinfo
    exact ⟨hkind, hcomment, hmembers⟩

theorem membersOf_eq_ok {value : Json}
    (h : (membersOf config file owner value).outcome = .ok ms) :
    (∃ items, value = .list items) ∨ ms = [] := by
  unfold membersOf at h
  split at h
  · exact .inl ⟨_, rfl⟩
  · cases h
  · cases h
  · split at h
    · cases h
    · cases h
      exact .inr rfl

mutual

theorem read_ofDocument : (document : Json) → ∀ d?,
    (ofDocument config file document).outcome = .ok d? → ∀ d ∈ d?, d.Everywhere ReadComment
  | .object fields => by
    intro d? h d hd
    obtain ⟨i, ms⟩ := d
    obtain ⟨_, hcomment, hmembers⟩ := ofDocument_object h hd
    exact everywhere_mk.mpr ⟨hcomment, read_membersField fields _ _ hmembers⟩
  | .null | .bool _ | .int _ | .float _ | .text _ | .list _ => by
    intro d? h
    cases h

theorem read_membersField : (fields : List (Text × Json)) → ∀ owner ms,
    (membersField config file owner fields).outcome = .ok ms →
    ∀ m ∈ ms, m.Everywhere ReadComment
  | [] => by
    intro owner ms h
    cases h
    exact fun _ hm => absurd hm List.not_mem_nil
  | (key, value) :: fields => by
    intro owner ms h
    rw [membersField] at h
    split at h
    · exact read_membersOf value owner ms h
    · exact read_membersField fields owner ms h

theorem read_membersOf : (value : Json) → ∀ owner ms,
    (membersOf config file owner value).outcome = .ok ms →
    ∀ m ∈ ms, m.Everywhere ReadComment
  | .list items => by
    intro owner ms h
    exact read_membersList items owner ms h
  | .null | .bool _ | .int _ | .float _ | .text _ | .object _ => by
    intro owner ms h
    rcases membersOf_eq_ok h with ⟨items, hitems⟩ | rfl
    · cases hitems
    · exact fun _ hm => absurd hm List.not_mem_nil

theorem read_membersList : (items : List Json) → ∀ owner ms,
    (membersList config file owner items).outcome = .ok ms →
    ∀ m ∈ ms, m.Everywhere ReadComment
  | [] => by
    intro owner ms h
    cases h
    exact fun _ hm => absurd hm List.not_mem_nil
  | item :: items => by
    intro owner ms h
    rw [membersList] at h
    split at h
    · simp only [Traced.outcome_bind, bind_eq_ok] at h
      obtain ⟨member?, hmember, members, hmembers, h⟩ := h
      cases h
      refine List.forall_mem_append.mpr ⟨?_, read_membersList items owner _ hmembers⟩
      intro m hm
      exact read_ofDocument item _ hmember m (Option.mem_toList.mp hm)
    · cases h

end

/-- The document of a package becomes a package, with comments as they are read. -/
theorem packageOfDocument_eq_ok {document : Json}
    (h : (packageOfDocument config file document).outcome = .ok d) :
    d.kind = .package ∧ d.Everywhere ReadComment := by
  unfold packageOfDocument at h
  split at h
  · rename_i fields
    split at h
    · rename_i name hname
      split at h
      · rename_i hpackage
        rw [Traced.outcome_bind] at h
        obtain ⟨d?, hd, h⟩ := bind_eq_ok.mp h
        cases d? with
        | none => cases h
        | some d' =>
          obtain rfl := Except.ok.inj h
          refine ⟨?_, read_ofDocument _ _ hd d' rfl⟩
          have hkind := (ofDocument_object hd rfl).1
          have hread : readKind? (.object fields) = .ok (some .package) := by
            simp only [readKind?, Json.fieldOrNull, Json.field?, hname, hpackage]
            rfl
          exact (Option.some.inj (Except.ok.inj (hread.symm.trans hkind))).symm
      · cases h
    · cases h
  · cases h

theorem packageOfText_read {text : Text} (h : (packageOfText config file text).outcome = .ok d) :
    d.kind = .package ∧ d.Everywhere ReadComment := by
  unfold packageOfText at h
  split at h
  · exact packageOfDocument_eq_ok h
  · cases h
  · cases h
  · cases h

theorem packageOfText_eq_ok {text : Text} (h : (packageOfText config file text).outcome = .ok d) :
    d.kind = .package ∧ Commented d := by
  obtain ⟨hkind, hread⟩ := packageOfText_read h
  exact ⟨hkind, commented_of_read hread⟩

end ApiReference.Declaration
