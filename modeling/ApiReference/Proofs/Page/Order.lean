import ApiReference.Proofs.Page.Documented
import Mathlib.Logic.Relation

/-!
# The order of pages

The pages of a tree come in post-order: those of what a container lists, one listed
declaration after another, and then that of the container.  On addresses this is a
strict order (`Before`), which the recursion of `sheets` follows: the pages below one
member are all before those below the next one (`before_of_branch`), and before those
of the container (`before_container`).
-/

namespace ApiReference.Page

open Declaration Doc

variable {env : Env} {root d : Declaration} {a b c : Address} {i : Info} {n k : Nat}
variable {ms : List Declaration} {s : Sheet} {ss ss' : List Sheet} {p q : Address → Prop}

/-! ## Post-order -/

/-- What is inside a declaration comes before it, and members come in their order with all inside
them. -/
def Before (a b : Address) : Prop := ¬ a <+: b ∧ (b <+: a ∨ a < b)

/-- What is inside a declaration comes before it. -/
theorem before_container (h : a <+: b) (hne : b ≠ a) : Before b a := by
  refine ⟨fun hba => ?_, .inl h⟩
  exact hne (hba.eq_of_length_le h.length_le)

/-- What is inside a member comes before what is inside a later one. -/
theorem before_of_branch (hb : a ++ [n] <+: b) (hc : a ++ [k] <+: c) (hlt : n < k) :
    Before b c := by
  constructor
  · intro hbc
    have hprefixes := List.prefix_of_prefix_length_le (hb.trans hbc) hc (by simp)
    have heq := hprefixes.eq_of_length (by simp)
    simp only [List.append_cancel_left_eq, List.cons.injEq, and_true] at heq
    omega
  · obtain ⟨t, rfl⟩ := hb
    obtain ⟨t', rfl⟩ := hc
    right
    rw [List.append_assoc, List.append_assoc]
    exact List.append_left_lt (List.cons_lt_cons_iff.mpr (.inl hlt))

/-! ## What has a page -/

/-- A declaration on the page of its container that has a page of its own. -/
def ListedOn (root : Declaration) (a b : Address) : Prop :=
  (root.kind? a).any isContainer = true ∧ b ∈ root.exportsAt a ∧
    (root.kind? b).any listedKinds.contains = true

/-- A declaration, what its page lists, what the pages of that list, and so on. -/
abbrev PageBelow (root : Declaration) : Address → Address → Prop :=
  Relation.ReflTransGen (ListedOn root)

theorem hasPage_iff : HasPage root b ↔ PageBelow root [] b := by
  constructor
  · intro h
    induction h with
    | home => exact .refl
    | listed _ hcontainer hb hkind ih => exact ih.tail ⟨hcontainer, hb, hkind⟩
  · intro h
    induction h with
    | refl => exact .home
    | tail _ hlisted ih => exact .listed ih hlisted.1 hlisted.2.1 hlisted.2.2

theorem PageBelow.starts (h : PageBelow root a b) : a <+: b := by
  induction h with
  | refl => exact List.prefix_rfl
  | tail _ hlisted ih => exact ih.trans (prefix_of_mem_exportsAt hlisted.2.1).1

/-! ## Pages in order -/

/-- A page as it is built of its declaration: the way to it and its heading, what is said about it,
and its tables. -/
structure PageOf (env : Env) (s : Sheet) : Prop where
  path_eq : s.path = (env.router.locate env.root s.item).path
  parts : ∃ i crumbs title front tables, env.root.info? s.item = some i ∧
    env.addInline [] (env.crumbs s.path s.item) = .ok crumbs ∧
    env.front ⟨s.path, 1⟩ s.item i [] = .ok front ∧
    (i.kind.isInheriting = true → (env.memberTables ⟨s.path, 1⟩ s.item).outcome = .ok tables) ∧
    s.nodes = crumbs ++ .heading title .top :: (front ++ tables)

/-- Pages in post-order, one for every declaration with a property, each built of its
declaration. -/
structure Built (env : Env) (p : Address → Prop) (ss : List Sheet) : Prop where
  mem_iff : ∀ a, a ∈ ss.map Sheet.item ↔ p a
  pairwise : (ss.map Sheet.item).Pairwise Before
  pageOf : ∀ s ∈ ss, PageOf env s

namespace Built

theorem nil (h : ∀ a, ¬ p a) : Built env p [] :=
  ⟨fun a => ⟨fun ha => absurd ha List.not_mem_nil, fun ha => absurd ha (h a)⟩, .nil,
    List.forall_mem_nil _⟩

theorem congr (h : Built env p ss) (hpq : ∀ a, p a ↔ q a) : Built env q ss :=
  ⟨fun a => (h.mem_iff a).trans (hpq a), h.pairwise, h.pageOf⟩

theorem append (h : Built env p ss) (h' : Built env q ss')
    (hbefore : ∀ a b, p a → q b → Before a b) : Built env (fun a => p a ∨ q a) (ss ++ ss') := by
  constructor
  · intro a
    rw [List.map_append, List.mem_append, h.mem_iff, h'.mem_iff]
  · rw [List.map_append]
    refine List.pairwise_append.mpr ⟨h.pairwise, h'.pairwise, fun a ha b hb => ?_⟩
    exact hbefore a b ((h.mem_iff a).mp ha) ((h'.mem_iff b).mp hb)
  · exact List.forall_mem_append.mpr ⟨h.pageOf, h'.pageOf⟩

theorem singleton (hs : PageOf env s) :
    Built env (· = s.item) [s] :=
  ⟨fun _ => List.mem_singleton, List.pairwise_singleton _ _, List.forall_mem_singleton.mpr hs⟩

/-- The page of a declaration after those of all that is inside it. -/
theorem concat (h : Built env p ss) (hs : PageOf env s)
    (hinside : ∀ b, p b → s.item <+: b ∧ b ≠ s.item) :
    Built env (fun b => p b ∨ b = s.item) (ss ++ [s]) := by
  refine h.append (singleton hs) ?_
  rintro b _ hb rfl
  obtain ⟨hstarts, hne⟩ := hinside b hb
  exact before_container hstarts hne

end Built

/-- What has a page because it is one of some declarations, or because of the page of one. -/
def PageBelowAny (root : Declaration) (as : List Address) (b : Address) : Prop :=
  ∃ c ∈ as, (root.kind? c).any listedKinds.contains = true ∧ PageBelow root c b

theorem pageBelow_iff : PageBelow root a b ↔
    (root.kind? a).any isContainer = true ∧ PageBelowAny root (root.exportsAt a) b ∨ b = a := by
  constructor
  · intro h
    rcases h.cases_head with rfl | ⟨c, ⟨hcontainer, hc, hkind⟩, hbelow⟩
    · exact .inr rfl
    · exact .inl ⟨hcontainer, c, hc, hkind, hbelow⟩
  · rintro (⟨hcontainer, c, hc, hkind, hbelow⟩ | rfl)
    · exact hbelow.head ⟨hcontainer, hc, hkind⟩
    · exact .refl

/-! ## One page -/

theorem isInheriting_of_isContainer {kind : Declaration.Kind} (h : isContainer kind = true) :
    kind.isInheriting = false := by
  cases kind <;> first | rfl | cases h

/-- The page of a declaration comes after those of what it lists, if it lists anything. -/
theorem sheet_eq_ok {listed : Text → Traced (List Listed)} (hi : env.root.info? a = some i)
    (h : (env.sheet a i listed).outcome = .ok ss) : ∃ inner s, ss = inner ++ [s] ∧ s.item = a ∧
      PageOf env s ∧
      if isContainer i.kind then
        ∃ rows, (listed (env.router.locate env.root a).path).outcome = .ok rows ∧
          inner = rows.flatMap Listed.sheets
      else inner = [] := by
  unfold Env.sheet at h
  dsimp only at h
  simp only [Traced.outcome_bind, bind_eq_ok] at h
  obtain ⟨crumbs, hcrumbs, title, -, heading, hheading, ⟨body, inner⟩, hbody, -, -, h⟩ := h
  obtain rfl := eq_of_permit hheading
  unfold Env.body at hbody
  simp only [Traced.outcome_bind, bind_eq_ok] at hbody
  obtain ⟨front, hfront, hbody⟩ := hbody
  have hpage : ∀ tables, body = front ++ tables → (i.kind.isInheriting = true →
      (env.memberTables ⟨(env.router.locate env.root a).path, 1⟩ a).outcome = .ok tables) →
      PageOf env ⟨a, (env.router.locate env.root a).path,
        crumbs ++ [.heading title .top] ++ body⟩ := by
    rintro tables rfl htables
    refine ⟨rfl, i, crumbs, title, front, tables, hi, hcrumbs, hfront, htables, ?_⟩
    rw [List.append_assoc, List.singleton_append]
  refine ⟨inner, _, (Except.ok.inj h).symm, rfl, ?_⟩
  split at hbody
  · rename_i hcontainer
    simp only [Traced.outcome_bind, bind_eq_ok] at hbody
    obtain ⟨rows, hrows, tables, -, hbody⟩ := hbody
    obtain ⟨hnodes, hsheets⟩ := Prod.mk.inj (Except.ok.inj hbody)
    rw [if_pos hcontainer]
    refine ⟨hpage tables hnodes.symm fun hinheriting => ?_, rows, hrows, hsheets.symm⟩
    rw [isInheriting_of_isContainer hcontainer] at hinheriting
    cases hinheriting
  · rename_i hcontainer
    rw [if_neg hcontainer]
    split at hbody
    · simp only [Traced.outcome_bind, bind_eq_ok] at hbody
      obtain ⟨tables, htables, hbody⟩ := hbody
      obtain ⟨hnodes, hsheets⟩ := Prod.mk.inj (Except.ok.inj hbody)
      exact ⟨hpage tables hnodes.symm fun _ => htables, hsheets.symm⟩
    · rename_i hinheriting
      simp only [Traced.outcome_bind, bind_eq_ok] at hbody
      obtain ⟨tables, -, hbody⟩ := hbody
      obtain ⟨hnodes, hsheets⟩ := Prod.mk.inj (Except.ok.inj hbody)
      exact ⟨hpage tables hnodes.symm fun h => absurd h hinheriting, hsheets.symm⟩

/-- The page of a declaration joins those of what it exports. -/
theorem built_sheet {listed : Text → Traced (List Listed)} (hi : env.root.info? a = some i)
    (hlisted : ∀ file rows, (listed file).outcome = .ok rows →
      Built env (PageBelowAny env.root (env.root.exportsAt a)) (rows.flatMap Listed.sheets))
    (h : (env.sheet a i listed).outcome = .ok ss) : Built env (PageBelow env.root a) ss := by
  obtain ⟨inner, s, rfl, rfl, hpage, hinner⟩ := sheet_eq_ok hi h
  have hkind : env.root.kind? s.item = some i.kind := by
    obtain ⟨d, hd, rfl⟩ := Option.map_eq_some_iff.mp hi
    exact kind?_of_get? hd
  have hbuilt : Built env (fun b => (env.root.kind? s.item).any isContainer = true ∧
      PageBelowAny env.root (env.root.exportsAt s.item) b) inner := by
    rw [hkind, Option.any_some]
    split at hinner
    · rename_i hcontainer
      obtain ⟨rows, hrows, rfl⟩ := hinner
      exact (hlisted _ rows hrows).congr fun b => (and_iff_right hcontainer).symm
    · rename_i hcontainer
      rw [hinner]
      exact .nil fun b hb => hcontainer hb.1
  refine (hbuilt.concat hpage ?_).congr fun b => pageBelow_iff.symm
  rintro b ⟨-, c, hc, -, hbelow⟩
  obtain ⟨hstarts, hne⟩ := prefix_of_mem_exportsAt hc
  refine ⟨hstarts.trans hbelow.starts, ?_⟩
  rintro rfl
  exact hne (hstarts.eq_of_length_le hbelow.starts.length_le)

/-! ## The tree -/

theorem pageBelowAny_cons {as : List Address} : PageBelowAny root (c :: as) b ↔
    (root.kind? c).any listedKinds.contains = true ∧ PageBelow root c b ∨
      PageBelowAny root as b :=
  List.exists_mem_cons_iff _ _ _

/-- What is inside a member comes before what is inside the members after it. -/
theorem before_of_later {as : List Nat} (hb : PageBelow root (a ++ [n]) b)
    (hc : PageBelowAny root (as.map fun k => a ++ [k]) c) (has : ∀ k ∈ as, n < k) :
    Before b c := by
  obtain ⟨_, hmem, -, hbelow⟩ := hc
  obtain ⟨k, hk, rfl⟩ := List.mem_map.mp hmem
  exact before_of_branch hb.starts hbelow.starts (has k hk)

mutual

/-- The pages that come of a declaration are its own and all below that, in post-order. -/
theorem built_sheets : (d : Declaration) → ∀ a ss, env.root.get? a = some d →
    (env.sheets a d).outcome = .ok ss → Built env (PageBelow env.root a) ss
  | ⟨i, ms⟩ => by
    intro a ss hd h
    have hmembers : ∀ k m, ms[k]? = some m → env.root.get? (a ++ [0 + k]) = some m := by
      intro k m hm
      rw [Nat.zero_add, get?_concat hd, hm]
    rw [Env.sheets] at h
    refine built_sheet (info?_of_get? hd) (fun file rows hrows => ?_) h
    split at hrows
    · rename_i found hfound
      obtain ⟨k, m, hk, hm, hbuilt⟩ := built_entryRows ms _ a 0 hmembers found hfound
      rw [exportsAt_of_some hd hk hm]
      rw [Nat.zero_add] at hbuilt
      exact hbuilt rows hrows
    · rename_i hnone
      rw [exportsAt_of_none hd (Env.entryPoint?_eq_none hnone), memberAddresses,
        List.range_eq_range']
      exact built_memberList ms _ a 0 hmembers rows hrows

theorem built_entryRows : (ms : List Declaration) → ∀ place a n,
    (∀ k m, ms[k]? = some m → env.root.get? (a ++ [n + k]) = some m) →
    ∀ found, env.entryRows place a n ms = some found →
    ∃ k m, entryPoint? ms = some k ∧ ms[k]? = some m ∧ ∀ rows, found.outcome = .ok rows →
      Built env (PageBelowAny env.root (memberAddresses (a ++ [n + k]) m))
        (rows.flatMap Listed.sheets)
  | [] => by
    intro place a n _ found h
    cases h
  | ⟨i, ms⟩ :: rest => by
    intro place a n hmembers found h
    rw [Env.entryRows] at h
    split at h
    · rename_i hkind
      cases h
      have hentry : env.root.get? (a ++ [n]) = some ⟨i, ms⟩ := hmembers 0 _ rfl
      refine ⟨0, ⟨i, ms⟩, by rw [Env.entryPoint?_cons, if_pos hkind], rfl, fun rows hrows => ?_⟩
      rw [memberAddresses, List.range_eq_range']
      refine built_memberList ms place (a ++ [n]) 0 (fun k m hm => ?_) rows hrows
      rw [Nat.zero_add, get?_concat hentry, hm]
    · rename_i hkind
      have hrest : ∀ k m, rest[k]? = some m → env.root.get? (a ++ [n + 1 + k]) = some m := by
        intro k m hm
        rw [Nat.add_assoc, Nat.add_comm 1]
        exact hmembers (k + 1) m hm
      obtain ⟨k, m, hk, hm, hbuilt⟩ := built_entryRows rest place a (n + 1) hrest found h
      refine ⟨k + 1, m, by rw [Env.entryPoint?_cons, if_neg hkind, hk]; rfl, hm, ?_⟩
      rwa [Nat.add_assoc, Nat.add_comm 1] at hbuilt

theorem built_memberList : (ms : List Declaration) → ∀ place a n,
    (∀ k m, ms[k]? = some m → env.root.get? (a ++ [n + k]) = some m) →
    ∀ rows, (env.memberList place a n ms).outcome = .ok rows →
    Built env (PageBelowAny env.root ((List.range' n ms.length).map fun k => a ++ [k]))
      (rows.flatMap Listed.sheets)
  | [] => by
    intro place a n _ rows h
    obtain rfl := Except.ok.inj h
    exact .nil fun b ⟨c, hc, _⟩ => absurd hc List.not_mem_nil
  | m :: ms => by
    intro place a n hmembers rows h
    have hm : env.root.get? (a ++ [n]) = some m := hmembers 0 m rfl
    have hkind : (env.root.kind? (a ++ [n])).any listedKinds.contains =
        listedKinds.contains m.kind := by
      rw [kind?_of_get? hm, Option.any_some]
    have hrest : ∀ k m', ms[k]? = some m' → env.root.get? (a ++ [n + 1 + k]) = some m' := by
      intro k m' hm'
      rw [Nat.add_assoc, Nat.add_comm 1]
      exact hmembers (k + 1) m' hm'
    rw [Env.memberList] at h
    rw [List.length_cons, List.range'_succ, List.map_cons]
    split at h
    · rename_i hlisted
      simp only [Traced.outcome_bind, bind_eq_ok] at h
      obtain ⟨description, -, built, hbuilt, others, hothers, h⟩ := h
      obtain rfl := Except.ok.inj h
      rw [List.flatMap_cons]
      refine ((built_sheets m _ built hm hbuilt).append
        (built_memberList ms place a (n + 1) hrest others hothers) ?_).congr fun b => ?_
      · intro b c hb hc
        refine before_of_later hb hc fun k hk => ?_
        have hle := (List.mem_range'_1.mp hk).1
        omega
      · rw [pageBelowAny_cons, hkind, and_iff_right hlisted]
    · rename_i hlisted
      refine (built_memberList ms place a (n + 1) hrest rows h).congr fun b => ?_
      rw [pageBelowAny_cons, hkind]
      exact (or_iff_right fun hb => hlisted hb.1).symm

end

end ApiReference.Page
