import ApiReference.Proofs.Declaration.Fields
import ApiReference.Proofs.Declaration.Lineage
import Mathlib

/-!
# Documents and the trees that are read from them

A member of unknown kind is cut off with all below it, and whatever is there is of no
consequence; what is left are the documents that are reached through members of known kinds
(`Reached`).  Reading stops only if one of them lists something that is no object
(`Malformed`).  Otherwise the tree has the shape of what is left of the document
(`Transcript`), and there is one warning for each member that is cut off (`skipped`).
-/

namespace ApiReference.Declaration

open Json

variable {config data document item m v : Json} {file owner : Text} {kind : Kind}
variable {fields : List (Text × Json)} {items : List Json} {fault : Fault}

/-- The kind that a document names, if it is a known one. -/
def kindOf? (data : Json) : Option Kind := Kind.ofName? (data.fieldOf "kind").display

/-- The members that a document lists. -/
def listed (data : Json) : List Json :=
  match data.fieldOf "members" with
  | .list items => items
  | _ => []

/-- The members of known kinds. -/
def kept (items : List Json) : List Json := items.filter fun m => (kindOf? m).isSome

/-- What is found in a document going through members of known kinds, and the document itself. -/
inductive Reached : Json → Json → Prop
  | self (document : Json) : Reached document document
  | inside {document m item : Json} : m ∈ kept (listed document) → Reached m item →
      Reached document item

/-- A document that lists something that is no object. -/
def Malformed (item : Json) : Prop := ∃ m ∈ listed item, m.isObject = false

mutual

/-- The members that are cut off because of their kind, in the order of the document. -/
def skipped : Json → List Json
  | .object fields => if (kindOf? (.object fields)).isSome then skippedAmong fields
    else [.object fields]
  | _ => []

def skippedAmong : List (Text × Json) → List Json
  | [] => []
  | (key, value) :: fields => if key = "members" then skippedIn value else skippedAmong fields

def skippedIn : Json → List Json
  | .list items => skippedOf items
  | _ => []

def skippedOf : List Json → List Json
  | [] => []
  | item :: items => skipped item ++ skippedOf items

end

/-- The warning about a member that is cut off. -/
def skipNotice (file : Text) (data : Json) : Notice :=
  .skippedMember (data.fieldOf "name") (data.fieldOf "kind") file

/-- A tree that was read from a document: each declaration from a document of its kind, and its
members from the listed members of known kinds, in the same order. -/
inductive Transcript (config : Json) : Json → Declaration → Prop
  | mk {data : Json} {i : Info} {ms : List Declaration} : kindOf? data = some i.kind →
      i.name = itemName data → (readInfo config i.kind data).outcome = .ok i →
      List.Forall₂ (Transcript config) (kept (listed data)) ms → Transcript config data ⟨i, ms⟩

/-! ## What is read in what order -/

theorem mem_kept : m ∈ kept items ↔ m ∈ items ∧ (kindOf? m).isSome = true := List.mem_filter

/-- The listed members are the items of a list in a field. -/
theorem exists_field_of_mem_listed (h : m ∈ listed data) : ∃ fields items, data = .object fields ∧
    ("members".toList, .list items) ∈ fields ∧ m ∈ items := by
  cases data with
  | object fields =>
    rw [listed, fieldOf] at h
    split at h
    · rename_i items hitems
      cases hlookup : fields.lookup "members".toList with
      | none =>
        rw [hlookup] at hitems
        cases hitems
      | some value =>
        rw [hlookup, Option.getD_some] at hitems
        exact ⟨_, items, rfl, hitems ▸ mem_of_lookup hlookup, h⟩
    · exact absurd h List.not_mem_nil
  | null | bool | int | float | text | list => exact absurd h List.not_mem_nil

theorem sizeOf_lt_of_mem_listed (h : m ∈ listed data) : sizeOf m < sizeOf data := by
  obtain ⟨fields, items, rfl, hfield, hitem⟩ := exists_field_of_mem_listed h
  have hsize := List.sizeOf_lt_of_mem hitem
  have hsizes := List.sizeOf_lt_of_mem hfield
  simp only [Json.object.sizeOf_spec, Prod.mk.sizeOf_spec, Json.list.sizeOf_spec] at hsizes ⊢
  omega

/-- What holds of a document whenever it holds of the members it lists holds of all. -/
theorem induction_listed {P : Json → Prop} (h : ∀ data, (∀ m ∈ listed data, P m) → P data)
    (data : Json) : P data :=
  h data fun m _ => induction_listed h m
termination_by sizeOf data
decreasing_by exact sizeOf_lt_of_mem_listed ‹_›

/-! ## What is cut off -/

theorem skippedOf_eq_flatMap (items : List Json) : skippedOf items = items.flatMap skipped := by
  induction items with
  | nil => rfl
  | cons item items ih => rw [skippedOf, ih, List.flatMap_cons]

theorem skippedAmong_eq (fields : List (Text × Json)) :
    skippedAmong fields = (listed (.object fields)).flatMap skipped := by
  induction fields with
  | nil => rfl
  | cons field fields ih =>
    obtain ⟨key, value⟩ := field
    rw [skippedAmong]
    split
    · rename_i hkey
      subst hkey
      rw [listed, fieldOf, List.lookup_cons_self, Option.getD_some]
      cases value with
      | list items => exact skippedOf_eq_flatMap items
      | null | bool | int | float | text | object => rfl
    · rename_i hkey
      rw [ih, listed, listed, fieldOf, fieldOf, lookup_cons_of_ne (Ne.symm hkey)]

/-- Below a document of known kind the members that are cut off are those below its members. -/
theorem skipped_of_known (h : (kindOf? data).isSome = true) (hobject : data.isObject = true) :
    skipped data = (listed data).flatMap skipped := by
  cases data with
  | object fields => rw [skipped, if_pos h, skippedAmong_eq]
  | null | bool | int | float | text | list => cases hobject

theorem skipped_of_unknown (h : kindOf? data = none) (hobject : data.isObject = true) :
    skipped data = [data] := by
  cases data with
  | object fields => rw [skipped, h]; rfl
  | null | bool | int | float | text | list => cases hobject

/-! ## Reading in steps -/

theorem readKind?_eq (h : data.isObject = true) : readKind? data = .ok (kindOf? data) := by
  rw [readKind?, fieldOrNull_eq h]
  rfl

/-- The members of a document are read from what it lists. -/
theorem membersField_eq (hmembers : (fields.lookup "members".toList).all (isListOf fun _ => true)) :
    membersField config file owner fields =
      membersList config file owner (listed (.object fields)) := by
  induction fields with
  | nil => rfl
  | cons field fields ih =>
    obtain ⟨key, value⟩ := field
    rw [membersField]
    split
    · rename_i hkey
      subst hkey
      rw [List.lookup_cons_self] at hmembers
      rw [listed, fieldOf, List.lookup_cons_self, Option.getD_some]
      cases value with
      | list items => rfl
      | null | bool | int | float | text | object => cases hmembers
    · rename_i hkey
      have hlookup : ((key, value) :: fields).lookup "members".toList =
          fields.lookup "members".toList := lookup_cons_of_ne (Ne.symm hkey)
      rw [hlookup] at hmembers
      rw [ih hmembers, listed, listed, fieldOf, fieldOf, hlookup]

/-- A document of known kind is read with its members behind what it tells itself. -/
theorem ofDocument_of_known (hdata : isDeclaration data = true)
    (hkind : kindOf? data = some kind) : ofDocument config file data = do
      let info ← readInfo config kind data
      let members ← membersList config file info.name (listed data)
      return some ⟨info, members⟩ := by
  cases data with
  | object fields =>
    obtain ⟨value?, hvalue, hall⟩ := yields_field? "members" hdata rfl
    obtain rfl := Except.ok.inj hvalue
    rw [ofDocument, readKind?_eq rfl, hkind]
    simp only [membersField_eq hall]
    rfl
  | null | bool | int | float | text | list => cases hdata

/-- A document of unknown kind gives a warning and nothing else. -/
theorem account_of_unknown {faults : Fault → Prop} (hobject : data.isObject = true)
    (hkind : kindOf? data = none) :
    Account faults (· = none) [skipNotice file data] (ofDocument config file data) := by
  cases data with
  | object fields =>
    rw [ofDocument, readKind?_eq rfl, hkind]
    exact .finished rfl rfl rfl
  | null | bool | int | float | text | list => cases hobject

/-! ## Faults, trees and warnings -/

/-- A fault that names a document which lists something that is no object. -/
def Explains (document : Json) (fault : Fault) : Prop :=
  ∃ item, Reached document item ∧ Malformed item ∧
    fault = .malformedMember (Text.quoted (itemName item))

/-- A document in which only objects are listed, as far as it counts. -/
def WellListed (document : Json) : Prop := ∀ item, Reached document item → ¬ Malformed item

/-- A list of trees that were read from the members of known kinds. -/
def ReadFrom (config : Json) (items : List Json) (ms : List Declaration) : Prop :=
  List.Forall₂ (Transcript config) (kept items) ms ∧ ∀ m ∈ kept items, WellListed m

theorem kept_append (items items' : List Json) :
    kept (items ++ items') = kept items ++ kept items' :=
  List.filter_append ..

theorem ReadFrom.append {items items' : List Json} {ms ms' : List Declaration}
    (h : ReadFrom config items ms) (h' : ReadFrom config items' ms') :
    ReadFrom config (items ++ items') (ms ++ ms') := by
  rw [ReadFrom, kept_append]
  exact ⟨List.rel_append h.1 h'.1, List.forall_mem_append.mpr ⟨h.2, h'.2⟩⟩

theorem kept_singleton_of_known (h : kindOf? m = some kind) : kept [m] = [m] :=
  List.filter_cons_of_pos (by rw [h]; rfl)

theorem kept_singleton_of_unknown (h : kindOf? m = none) : kept [m] = [] :=
  List.filter_cons_of_neg (by rw [h]; decide)

/-- All that is known of how the document of a declaration is read. -/
def AccountOf (config : Json) (file : Text) (data : Json) : Prop :=
  Account (fun fault => ∃ m ∈ kept [data], Explains m fault)
    (fun d? => ReadFrom config [data] d?.toList ∧ d?.isSome = (kindOf? data).isSome)
    ((skipped data).map (skipNotice file)) (ofDocument config file data)

theorem accountOf_of_unknown (hobject : data.isObject = true) (hkind : kindOf? data = none) :
    AccountOf config file data := by
  rw [AccountOf, skipped_of_unknown hkind hobject]
  refine (account_of_unknown hobject hkind).mono (fun _ h => h) ?_
  rintro _ rfl
  rw [ReadFrom, kept_singleton_of_unknown hkind, hkind]
  exact ⟨⟨.nil, List.forall_mem_nil _⟩, rfl⟩

/-- The members of a list are read one by one, up to the first that is no object. -/
theorem account_membersList
    (hitems : ∀ m ∈ items, m.isObject = true → AccountOf config file m) :
    Account (fun fault => ((∃ m ∈ items, m.isObject = false) ∧
        fault = .malformedMember (Text.quoted owner)) ∨ ∃ m ∈ kept items, Explains m fault)
      (fun ms => ReadFrom config items ms ∧ ∀ m ∈ items, m.isObject = true)
      ((items.flatMap skipped).map (skipNotice file))
      (membersList config file owner items) := by
  induction items with
  | nil => exact .finished rfl ⟨⟨.nil, List.forall_mem_nil _⟩, List.forall_mem_nil _⟩ rfl
  | cons item items ih =>
    obtain ⟨hitem, hitems⟩ := List.forall_mem_cons.mp hitems
    have hkept : kept (item :: items) = kept [item] ++ kept items := kept_append [item] items
    rw [membersList]
    split
    · rename_i hobject
      rw [List.flatMap_cons, List.map_append]
      refine Account.bind ((hitem hobject).mono ?_ fun _ h => h.1) fun member? hmember => ?_
      · rintro fault ⟨m, hm, hfault⟩
        exact .inr ⟨m, hkept ▸ List.mem_append_left _ hm, hfault⟩
      · refine ((ih hitems).mono ?_ fun _ h => h).map ?_
        · rintro fault (⟨⟨m, hm, hno⟩, hfault⟩ | ⟨m, hm, hfault⟩)
          · exact .inl ⟨⟨m, List.mem_cons_of_mem _ hm, hno⟩, hfault⟩
          · exact .inr ⟨m, hkept ▸ List.mem_append_right _ hm, hfault⟩
        · rintro ms ⟨hms, hall⟩
          exact ⟨hmember.append hms, List.forall_mem_cons.mpr ⟨hobject, hall⟩⟩
    · rename_i hobject
      refine .stopped rfl (.inl ⟨⟨item, List.mem_cons_self .., ?_⟩, rfl⟩)
      rwa [Bool.not_eq_true] at hobject

/-- What holds of all documents that are reached holds of the first one and of all that are reached
from its members. -/
theorem forall_reached {P : Json → Prop} : (∀ item, Reached data item → P item) ↔
    P data ∧ ∀ m ∈ kept (listed data), ∀ item, Reached m item → P item := by
  constructor
  · intro h
    exact ⟨h data (.self data), fun m hm item hitem => h item (.inside hm hitem)⟩
  · rintro ⟨hself, hmembers⟩ item hitem
    cases hitem with
    | self => exact hself
    | inside hm hitem => exact hmembers _ hm item hitem

theorem not_malformed_iff : ¬ Malformed data ↔ ∀ m ∈ listed data, m.isObject = true := by
  simp [Malformed]

theorem accountOf_of_known {vocabulary : Comment.Vocabulary}
    (hconfig : Comment.Vocabulary.ofConfig config = .ok vocabulary)
    (hdata : isDeclaration data = true) (hkind : kindOf? data = some kind)
    (hmembers : ∀ m ∈ listed data, m.isObject = true → AccountOf config file m) :
    AccountOf config file data := by
  obtain ⟨i, hi, rfl, hname⟩ := yields_readInfo kind hconfig hdata
  have hkept := kept_singleton_of_known hkind
  rw [AccountOf, ofDocument_of_known hdata hkind,
    skipped_of_known (by rw [hkind]; rfl) (isObject_of_isRecord hdata)]
  refine .bind_of_ok hi (warnings_readInfo ..) ?_
  refine ((account_membersList hmembers).mono ?_ fun _ h => h).map ?_
  · intro fault hfault
    refine ⟨data, by rw [hkept]; exact List.mem_singleton_self data, ?_⟩
    rcases hfault with ⟨hmalformed, rfl⟩ | ⟨m, hm, item, hitem, hfault⟩
    · exact ⟨data, .self data, hmalformed, by rw [hname]⟩
    · exact ⟨item, .inside hm hitem, hfault⟩
  · rintro ms ⟨⟨htranscripts, hwell⟩, hobjects⟩
    refine ⟨⟨?_, ?_⟩, by rw [hkind]; rfl⟩
    · rw [hkept]
      exact .cons (.mk hkind hname hi htranscripts) .nil
    · rw [hkept]
      exact List.forall_mem_singleton.mpr
        (forall_reached.mpr ⟨not_malformed_iff.mpr hobjects, hwell⟩)

/-- Every document is accounted for, if what counts of it has fields of their shapes. -/
theorem accountOf {vocabulary : Comment.Vocabulary}
    (hconfig : Comment.Vocabulary.ofConfig config = .ok vocabulary) (data : Json) :
    data.isObject = true →
    ((kindOf? data).isSome = true → ∀ item, Reached data item → isDeclaration item = true) →
      AccountOf config file data := by
  induction data using induction_listed with
  | h data ih =>
    intro hobject hshapes
    cases hkind : kindOf? data with
    | none => exact accountOf_of_unknown hobject hkind
    | some kind =>
      have hreached := hshapes (by rw [hkind]; rfl)
      refine accountOf_of_known hconfig (hreached data (.self data)) hkind fun m hm hmobject => ?_
      refine ih m hm hmobject fun hmkind item hitem => ?_
      exact hreached item (.inside (mem_kept.mpr ⟨hm, hmkind⟩) hitem)

/-- The document of a package is read like that of any declaration. -/
theorem packageOfDocument_eq (hpackage : document.fieldOf "kind" = .text Kind.package.name) :
    packageOfDocument config file document =
      ofDocument config file document >>= fun d? => match d? with
        | some d => pure d
        | none => Traced.fail (.notPackage file) := by
  cases document with
  | object fields =>
    rw [fieldOf] at hpackage
    cases hlookup : fields.lookup "kind".toList with
    | none =>
      rw [hlookup] at hpackage
      cases hpackage
    | some value =>
      rw [hlookup, Option.getD_some] at hpackage
      subst hpackage
      rw [packageOfDocument, hlookup]
      rfl
  | null | bool | int | float | text | list => cases hpackage

/-- A package is accounted for, if what counts of it has fields of their shapes. -/
theorem account_packageOfDocument {vocabulary : Comment.Vocabulary}
    (hconfig : Comment.Vocabulary.ofConfig config = .ok vocabulary)
    (hpackage : document.fieldOf "kind" = .text Kind.package.name)
    (hshapes : ∀ item, Reached document item → isDeclaration item = true) :
    Account (Explains document) (fun root => Transcript config document root ∧ WellListed document)
      ((skipped document).map (skipNotice file)) (packageOfDocument config file document) := by
  have hkind : kindOf? document = some .package := by
    rw [kindOf?, hpackage]
    rfl
  have hkept := kept_singleton_of_known hkind
  have hobject : document.isObject = true :=
    isObject_of_isRecord (hshapes document (.self document))
  have haccount : AccountOf config file document :=
    accountOf hconfig document hobject fun _ => hshapes
  have hfaults : ∀ fault, (∃ m ∈ kept [document], Explains m fault) → Explains document fault := by
    rintro fault ⟨m, hm, hfault⟩
    rw [hkept] at hm
    rwa [List.mem_singleton.mp hm] at hfault
  rw [packageOfDocument_eq hpackage, ← List.append_nil ((skipped document).map _)]
  refine (haccount.mono hfaults fun _ h => h).bind fun d? hread => ?_
  obtain ⟨⟨htranscripts, hwell⟩, hsome⟩ := hread
  rw [hkind] at hsome
  obtain ⟨d, rfl⟩ := Option.isSome_iff_exists.mp hsome
  rw [hkept] at htranscripts hwell
  cases htranscripts with
  | cons htranscript _ => exact .pure ⟨htranscript, hwell document (List.mem_singleton_self _)⟩

/-- Let a text spell the document of a package, and let what counts of it have fields of their
shapes, whatever its lists of members hold. Then reading it stops if and only if some document that
counts lists something that is no object, and the fault names this document. Otherwise the tree has
the shape of what counts of the document, there is one warning for each member that is cut off, in
their order, and the containers of a member are those of the declaration that it is a member of,
and that itself. -/
theorem packageOfText_account {text : Text} {vocabulary : Comment.Vocabulary}
    (hparse : Json.parse text = .ok document)
    (hconfig : Comment.Vocabulary.ofConfig config = .ok vocabulary)
    (hpackage : document.fieldOf "kind" = .text Kind.package.name)
    (hshapes : ∀ item, Reached document item → isDeclaration item = true) :
    ((∃ fault, (packageOfText config file text).outcome = .error fault) ↔
      ∃ item, Reached document item ∧ Malformed item) ∧
    (∀ fault, (packageOfText config file text).outcome = .error fault →
      ∃ item, Reached document item ∧ Malformed item ∧
        fault = .malformedMember (Text.quoted (itemName item))) ∧
    ∀ root, (packageOfText config file text).outcome = .ok root →
      Transcript config document root ∧
      (packageOfText config file text).warnings = (skipped document).map (skipNotice file) ∧
      ∀ a d n m, root.get? a = some d → d.members[n]? = some m →
        root.lineage (a ++ [n]) = root.lineage a ++ [m.toInfo] := by
  have hdocument : packageOfText config file text = packageOfDocument config file document := by
    rw [packageOfText, hparse]
  rw [hdocument]
  have haccount : Account _ _ _ (packageOfDocument config file document) :=
    account_packageOfDocument hconfig hpackage hshapes
  cases haccount with
  | @stopped fault hstop hfault =>
    obtain ⟨item, hitem, hmalformed, hname⟩ := hfault
    refine ⟨iff_of_true ⟨fault, hstop⟩ ⟨item, hitem, hmalformed⟩, ?_, ?_⟩
    · intro fault' hstop'
      obtain rfl := Except.error.inj (hstop.symm.trans hstop')
      exact ⟨item, hitem, hmalformed, hname⟩
    · intro root hroot
      cases hstop.symm.trans hroot
  | @finished root hroot hread hwarnings =>
    refine ⟨iff_of_false ?_ ?_, ?_, ?_⟩
    · rintro ⟨fault, hstop⟩
      cases hroot.symm.trans hstop
    · rintro ⟨item, hitem, hmalformed⟩
      exact hread.2 item hitem hmalformed
    · intro fault hstop
      cases hroot.symm.trans hstop
    · intro root' hroot'
      obtain rfl := Except.ok.inj (hroot.symm.trans hroot')
      exact ⟨hread.1, hwarnings, fun a d n m hd hm => lineage_concat hd hm⟩

/-- A document of unknown kind, with something below it that is no object. -/
def wasp : Json :=
  .object [("kind", .text "Wasp"), ("name", .text "intruder"), ("members", .list [.int 7])]

/-- A class that lists what is to be cut off. -/
def bee : Json :=
  .object [("kind", .text "Class"), ("name", .text "Bee"),
    ("docComment", .text "/** Hums @loud. */"), ("members", .list [wasp])]

def hive : Json :=
  .object [("kind", .text "Package"), ("name", .text "hive"), ("members", .list [bee])]

def hiveText : Text :=
  "\x7b\"kind\": \"Package\", \"name\": \"hive\", \"members\": [" ++
  "\x7b\"kind\": \"Class\", \"name\": \"Bee\", \"docComment\": \"/** Hums @loud. */\", " ++
  "\"members\": [\x7b\"kind\": \"Wasp\", \"name\": \"intruder\", \"members\": [7]\x7d]\x7d]\x7d"

theorem parse_hiveText : Json.parse hiveText = .ok hive := by
  cbv

theorem packageOfText_account_hive :
    Json.parse hiveText = .ok hive ∧
    (Comment.Vocabulary.ofConfig .null).toOption.isSome = true ∧
    hive.fieldOf "kind" = .text Kind.package.name ∧
    (∀ item, Reached hive item → isDeclaration item = true) ∧
    ((∃ fault, (packageOfText .null [] hiveText).outcome = .error fault) ↔
      ∃ item, Reached hive item ∧ Malformed item) ∧
    ∃ root, (packageOfText .null [] hiveText).outcome = .ok root ∧ Transcript .null hive root ∧
      (packageOfText .null [] hiveText).warnings = [skipNotice [] wasp] := by
  have hread : (Comment.Vocabulary.ofConfig .null).toOption.isSome = true := by decide +kernel
  have hshapes : ∀ item, Reached hive item → isDeclaration item = true := by
    refine forall_reached.mpr ⟨rfl, fun m hm => ?_⟩
    obtain rfl : m = bee := List.mem_singleton.mp hm
    refine forall_reached.mpr ⟨rfl, fun m hm => ?_⟩
    exact absurd hm List.not_mem_nil
  obtain ⟨vocabulary, hconfig⟩ := exists_eq_ok hread
  obtain ⟨hfault, -, hroot⟩ :=
    @packageOfText_account .null hive [] hiveText vocabulary parse_hiveText hconfig rfl hshapes
  have hload : (packageOfText .null [] hiveText).outcome.toOption.isSome = true := by
    decide +kernel
  obtain ⟨root, hload⟩ := exists_eq_ok hload
  obtain ⟨htranscript, hwarnings, -⟩ := hroot root hload
  exact ⟨parse_hiveText, hread, rfl, hshapes, hfault, root, hload, htranscript, hwarnings⟩

end ApiReference.Declaration
