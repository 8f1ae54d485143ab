import ApiReference.Declaration.Load
import ApiReference.Proofs.Comment.Fences
import ApiReference.Proofs.Diagnostics.Warnings
import ApiReference.Proofs.Lookup

/-!
# Fields of documents

The document of a declaration has fields of certain shapes, as far as it has them
(`declarationShapes`).  If they are of these shapes, then all that is told of the
declaration apart from its members is read without a fault and without a warning
(`account_readInfo`), whatever they say.
-/

namespace ApiReference.Json

variable {shapes : List (Text × (Json → Bool))} {shape : Json → Bool} {key : Text} {v : Json}

def isText : Json → Bool
  | text _ => true
  | _ => false

def isFlag : Json → Bool
  | bool _ => true
  | _ => false

def isWhole : Json → Bool
  | int _ => true
  | _ => false

def isListOf (shape : Json → Bool) : Json → Bool
  | list items => items.all shape
  | _ => false

/-- An object whose fields are of the given shapes, as far as it has them. -/
def isRecord (shapes : List (Text × (Json → Bool))) : Json → Bool
  | object fields => shapes.all fun s => (fields.lookup s.1).all s.2
  | _ => false

/-- The value of a field, or `null` in its place. -/
def fieldOf (key : Text) : Json → Json
  | object fields => (fields.lookup key).getD null
  | _ => null

theorem fieldOrNull_eq (h : v.isObject = true) : v.fieldOrNull key = .ok (v.fieldOf key) := by
  cases v <;> first | rfl | cases h

theorem isObject_of_isRecord (h : isRecord shapes v = true) : v.isObject = true := by
  cases v <;> first | rfl | cases h

/-- A field of a record is absent or of its shape. -/
theorem yields_field? (key : Text) (h : isRecord shapes v = true)
    (hshape : shapes.lookup key = some shape) :
    Yields (v.field? key) fun value? => value?.all shape = true := by
  cases v with
  | object fields =>
    exact ⟨fields.lookup key, rfl, List.all_eq_true.mp h (key, shape) (mem_of_lookup hshape)⟩
  | null | bool | int | float | text | list => cases h

theorem yields_fieldOrNull (key : Text) (h : isRecord shapes v = true)
    (hshape : shapes.lookup key = some shape) :
    Yields (v.fieldOrNull key) fun value => value = .null ∨ shape value = true := by
  refine (yields_field? key h hshape).bind fun value? hvalue => .pure ?_
  cases value? with
  | none => exact .inl rfl
  | some value => exact .inr hvalue

theorem fieldOf_of_isRecord (key : Text) (h : isRecord shapes v = true)
    (hshape : shapes.lookup key = some shape) :
    v.fieldOf key = .null ∨ shape (v.fieldOf key) = true := by
  obtain ⟨value, hvalue, hall⟩ := yields_fieldOrNull key h hshape
  rw [fieldOrNull_eq (isObject_of_isRecord h)] at hvalue
  obtain rfl := Except.ok.inj hvalue
  exact hall

end ApiReference.Json

namespace ApiReference.Declaration

open Json

variable {shapes : List (Text × (Json → Bool))} {tokens : List Text} {key : Text} {data v : Json}

/-! ## The shapes of documents -/

def rangeShapes : List (Text × (Json → Bool)) := [("startIndex", isWhole), ("endIndex", isWhole)]

def isRange : Json → Bool := isRecord rangeShapes

def tokenShapes : List (Text × (Json → Bool)) := [("text", isText)]

def parameterShapes : List (Text × (Json → Bool)) :=
  [("parameterName", isText), ("parameterTypeTokenRange", isRange)]

/-- The fields that are read of the document of a declaration. Its members may be anything. -/
def declarationShapes : List (Text × (Json → Bool)) := [
  ("kind", isText), ("name", isText), ("releaseTag", isText), ("isStatic", isFlag),
  ("overloadIndex", isWhole), ("docComment", isText),
  ("excerptTokens", isListOf (isRecord tokenShapes)),
  ("extendsTokenRange", isRange), ("extendsTokenRanges", isListOf isRange),
  ("implementsTokenRanges", isListOf isRange), ("parameters", isListOf (isRecord parameterShapes)),
  ("returnTypeTokenRange", isRange), ("propertyTypeTokenRange", isRange),
  ("variableTypeTokenRange", isRange), ("typeTokenRange", isRange),
  ("initializerTokenRange", isRange), ("members", isListOf fun _ => true)]

def isDeclaration : Json → Bool := isRecord declarationShapes

/-! ## Reading fields -/

theorem yields_mapM {α β : Type} {f : α → Except Fault β} {xs : List α}
    (h : ∀ x ∈ xs, Yields (f x) fun _ => True) : Yields (xs.mapM f) fun _ => True := by
  induction xs with
  | nil => exact .pure trivial
  | cons x xs ih =>
    obtain ⟨hx, hxs⟩ := List.forall_mem_cons.mp h
    rw [List.mapM_cons]
    exact hx.bind fun _ _ => (ih hxs).bind fun _ _ => .pure trivial

theorem yields_toInt (h : isWhole v = true) : Yields v.toInt fun _ => True := by
  cases v with
  | int n => exact ⟨n, rfl, trivial⟩
  | null | bool | float | text | list | object => cases h

theorem yields_tokenText (h : isRecord tokenShapes v = true) :
    Yields (tokenText v) fun _ => True :=
  (yields_field? "text" h rfl).bind fun _ _ => .pure trivial

theorem yields_tokensOf (h : v = .null ∨ isListOf (isRecord tokenShapes) v = true) :
    Yields (tokensOf v) fun _ => True := by
  rcases h with rfl | h
  · exact .pure trivial
  · cases v with
    | list items =>
      unfold tokensOf
      split
      · exact yields_mapM fun item hitem => yields_tokenText (List.all_eq_true.mp h item hitem)
      · exact .pure trivial
    | null | bool | int | float | text | object => cases h

theorem yields_rangeText (h : v = .null ∨ isRange v = true) :
    Yields (rangeText tokens v) fun _ => True := by
  unfold rangeText
  split
  · exact .pure trivial
  · rename_i hpresent
    rcases h with rfl | h
    · exact absurd rfl hpresent
    · have hindex : ∀ (value? : Option Json) (default : Int), value?.all isWhole = true →
          Yields (value?.getD (.int default)).toInt fun _ => True := by
        intro value? default hvalue
        cases value? with
        | none => exact .pure trivial
        | some value => exact yields_toInt hvalue
      refine (yields_field? "startIndex" h rfl).bind fun start? hstart => ?_
      refine (hindex start? 0 hstart).bind fun start _ => ?_
      refine (yields_field? "endIndex" h rfl).bind fun stop? hstop => ?_
      exact (hindex stop? start hstop).bind fun _ _ => .pure trivial

theorem yields_rangeField (key : Text) (h : isRecord shapes data = true)
    (hshape : shapes.lookup key = some isRange) :
    Yields (rangeField tokens data key) fun _ => True :=
  (yields_fieldOrNull key h hshape).bind fun _ hrange => yields_rangeText hrange

/-- A list in a field has items of its shape. -/
theorem yields_itemsOf (key : Text) {shape : Json → Bool} (h : isRecord shapes data = true)
    (hshape : shapes.lookup key = some (isListOf shape)) :
    Yields (itemsOf data key) fun items => ∀ item ∈ items, shape item = true := by
  refine (yields_fieldOrNull key h hshape).bind fun value hvalue => ?_
  split
  · rename_i hpresent
    rcases hvalue with rfl | hvalue
    · cases hpresent
    · cases value with
      | list items => exact .pure (List.all_eq_true.mp hvalue)
      | null | bool | int | float | text | object => cases hvalue
  · exact .pure (List.forall_mem_nil _)

theorem yields_rangesField (key : Text) (h : isRecord shapes data = true)
    (hshape : shapes.lookup key = some (isListOf isRange)) :
    Yields (rangesField tokens data key) fun _ => True := by
  refine (yields_itemsOf key h hshape).bind fun items hitems => ?_
  refine (yields_mapM fun item hitem => yields_rangeText (.inr (hitems item hitem))).bind ?_
  exact fun _ _ => .pure trivial

theorem yields_readParameter (h : isRecord parameterShapes v = true) :
    Yields (readParameter tokens v) fun _ => True := by
  refine (yields_field? "parameterName" h rfl).bind fun _ _ => ?_
  exact (yields_rangeField "parameterTypeTokenRange" h rfl).bind fun _ _ => .pure trivial

theorem yields_readExtends {kind : Kind} (h : isDeclaration data = true) :
    Yields (readExtends kind tokens data) fun _ => True := by
  unfold readExtends
  split
  · exact (yields_rangeField "extendsTokenRange" h rfl).bind fun _ _ => .pure trivial
  · exact yields_rangesField "extendsTokenRanges" h rfl
  · exact .pure trivial

theorem yields_readValueType {keys : List Text} (h : isDeclaration data = true)
    (hkeys : ∀ key ∈ keys, declarationShapes.lookup key = some isRange) :
    Yields (readValueType tokens data keys) fun _ => True := by
  induction keys with
  | nil => exact .pure trivial
  | cons key keys ih =>
    obtain ⟨hkey, hkeys⟩ := List.forall_mem_cons.mp hkeys
    refine (yields_field? key h hkey).bind fun range? hrange => ?_
    cases range? with
    | none => exact ih hkeys
    | some range => exact yields_rangeText (.inr hrange)

/-- The types are read, and nothing else that is known of the declaration changes. -/
theorem yields_readTypes {i : Info} (h : isDeclaration data = true) :
    Yields (readTypes tokens data i) fun j => j.kind = i.kind ∧ j.name = i.name := by
  refine (yields_readExtends h).bind fun _ _ => ?_
  refine (yields_rangesField "implementsTokenRanges" h rfl).bind fun _ _ => ?_
  refine (yields_itemsOf "parameters" h rfl).bind fun parameters hparameters => ?_
  refine (yields_mapM fun p hp => yields_readParameter (hparameters p hp)).bind fun _ _ => ?_
  refine (yields_rangeField "returnTypeTokenRange" h rfl).bind fun _ _ => ?_
  have hkeys : ∀ key ∈ valueTypeKeys, declarationShapes.lookup key = some isRange := by
    rintro key hkey
    simp only [valueTypeKeys, List.mem_cons, List.not_mem_nil, or_false] at hkey
    rcases hkey with rfl | rfl | rfl <;> rfl
  refine (yields_readValueType h hkeys).bind fun _ _ => ?_
  refine (yields_rangeField "initializerTokenRange" h rfl).bind fun _ _ => ?_
  exact .pure ⟨rfl, rfl⟩

/-! ## The comment -/

theorem debug_readTags (v : Comment.Vocabulary) (r : Comment.Reading) (text : Text) :
    ∀ n ∈ (Comment.readTags v r text).notices, n.level = .debug := by
  fun_induction Comment.readTags v r text with
  | case1 => exact List.forall_mem_nil _
  | case2 _ _ _ _ _ _ ih => exact ih
  | case3 => exact List.forall_mem_nil _
  | case4 => exact List.forall_mem_singleton.mpr rfl

theorem debug_readLines (v : Comment.Vocabulary) (r : Comment.Reading) (lines : List Text) :
    ∀ n ∈ (Comment.readLines v r lines).notices, n.level = .debug := by
  induction lines generalizing r with
  | nil => exact List.forall_mem_nil _
  | cons line lines ih =>
    have hline : ∀ n ∈ (Comment.readLine v r line).notices, n.level = .debug := by
      unfold Comment.readLine
      split
      · exact List.forall_mem_nil _
      · split
        · exact List.forall_mem_nil _
        · rw [Noted.notices_bind]
          refine List.forall_mem_append.mpr ⟨debug_readTags v r _, ?_⟩
          dsimp only
          split <;> exact List.forall_mem_nil _
    rw [Comment.readLines, Noted.notices_bind]
    exact List.forall_mem_append.mpr ⟨hline, ih _⟩

theorem warnings_parse (v : Comment.Vocabulary) (text : Text) :
    Traced.warnings (liftM (Comment.parse v text) : Traced Comment) = [] := by
  have hdebug : ∀ n ∈ (Comment.parse v text).notices, n.level = .debug := by
    intro n hn
    rw [Comment.parse, Noted.notices_bind, Noted.notices_pure, List.append_nil] at hn
    exact debug_readLines v _ _ n hn
  rw [Traced.warnings_liftNoted, List.filter_eq_nil_iff]
  intro n hn
  rw [hdebug n hn]
  decide

/-- Whatever tags are in a comment, no warning is given. -/
theorem warnings_ofDocument (config raw : Json) :
    (Comment.ofDocument config raw).warnings = [] :=
  Traced.warnings_bind_eq_nil rfl fun v =>
    Traced.warnings_bind_eq_nil rfl fun text => warnings_parse v text

theorem yields_ofDocument {config raw : Json} {vocabulary : Comment.Vocabulary}
    (hconfig : Comment.Vocabulary.ofConfig config = .ok vocabulary) (hraw : isText raw = true) :
    Yields (Comment.ofDocument config raw).outcome fun _ => True := by
  cases raw with
  | text t =>
    unfold Comment.ofDocument
    rw [Traced.outcome_bind, Traced.outcome_liftExcept, hconfig]
    exact ⟨_, rfl, trivial⟩
  | null | bool | int | float | list | object => cases hraw

/-! ## One declaration -/

theorem yields_overloadIndex (h : v = .null ∨ isWhole v = true) :
    Yields (v.orElse (.int 1)).toInt fun _ => True := by
  rcases h with rfl | h
  · exact .pure trivial
  · unfold Json.orElse
    split
    · exact yields_toInt h
    · exact .pure trivial

/-- The name that the document of a declaration gives it. -/
def itemName (data : Json) : Text :=
  match data.fieldOf "name" with
  | .text t => t
  | _ => []

theorem itemName_eq_display (h : isDeclaration data = true) :
    ((data.fieldOf "name").orElse (.text [])).display = itemName data := by
  rw [itemName]
  rcases fieldOf_of_isRecord "name" h rfl with hname | hname
  · rw [hname]
    rfl
  · cases hfield : data.fieldOf "name" with
    | text t =>
      cases t with
      | nil => rfl
      | cons c t => rfl
    | null | bool | int | float | list | object =>
      rw [hfield] at hname
      cases hname

/-- What is told of a declaration is read without a warning. -/
theorem warnings_readInfo (config : Json) (kind : Kind) (data : Json) :
    (readInfo config kind data).warnings = [] := by
  unfold readInfo
  iterate 8 refine Traced.warnings_bind_eq_nil rfl fun _ => ?_
  split
  · exact Traced.warnings_bind_eq_nil (warnings_ofDocument config _) fun _ => rfl
  · rfl

/-- What is told of a declaration is read without a fault, if its fields are of their shapes. -/
theorem yields_readInfo (kind : Kind) {config : Json} {vocabulary : Comment.Vocabulary}
    (hconfig : Comment.Vocabulary.ofConfig config = .ok vocabulary)
    (h : isDeclaration data = true) :
    Yields (readInfo config kind data).outcome
      fun i => i.kind = kind ∧ i.name = itemName data := by
  have hname : Yields (data.fieldOrNull "name") fun name => name = data.fieldOf "name" :=
    .of_eq (fieldOrNull_eq (isObject_of_isRecord h)) rfl
  unfold readInfo
  refine Yields.bindTraced (yields_fieldOrNull "excerptTokens" h rfl) fun _ htokens => ?_
  refine Yields.bindTraced (yields_tokensOf htokens) fun tokens _ => ?_
  refine Yields.bindTraced hname fun name hname => ?_
  refine Yields.bindTraced (yields_fieldOrNull "releaseTag" h rfl) fun _ _ => ?_
  refine Yields.bindTraced (yields_fieldOrNull "isStatic" h rfl) fun _ _ => ?_
  refine Yields.bindTraced (yields_fieldOrNull "overloadIndex" h rfl) fun _ hindex => ?_
  refine Yields.bindTraced (yields_overloadIndex hindex) fun _ _ => ?_
  refine Yields.bindTraced (yields_fieldOrNull "docComment" h rfl) fun raw hraw => ?_
  have hdisplay : (name.orElse (.text [])).display = itemName data := by
    rw [hname, itemName_eq_display h]
  split
  · rename_i hpresent
    have hraw := hraw.resolve_left fun hnull => by
      rw [hnull] at hpresent
      cases hpresent
    refine Yields.bindTraced (yields_ofDocument hconfig hraw) fun c _ => ?_
    exact (yields_readTypes h).mono fun j hj => ⟨hj.1, hj.2.trans hdisplay⟩
  · exact (yields_readTypes h).mono fun j hj => ⟨hj.1, hj.2.trans hdisplay⟩

end ApiReference.Declaration
