import ApiReference.Proofs.Diagnostics.Outcome
import ApiReference.Proofs.Lookup
import ApiReference.Proofs.Site.Places
import ApiReference.Site.CommandLine

/-!
# Writing pages

A run is followed step by step: `Ends` says that a step comes to a value, and what is known
of the value and of the files afterwards.  Folders are made without a change elsewhere
(`ends_makeFolders`), and each page that is written becomes part of what the output folder
holds (`Holds`, `ends_writePage`), whichever pages are there already.
-/

namespace ApiReference.Site

open Declaration Doc FileTree

variable {α β : Type} {p p' : Progress} {t : FileTree} {root path folders steps : List Text}
variable {written : List (List Text × Text)} {name text : Text} {l : Loaded}

/-! ## Steps of a run -/

namespace Run

/-- What a run comes to, and what it has done then. -/
def result (m : Run α) (p : Progress) : Except Fault α × Progress := ((ExceptT.run m).run p).value

variable {m : Run α} {f : α → Run β} {a : α} {fault : Fault}

theorem result_bind_of_ok (h : m.result p = (.ok a, p')) :
    (m >>= f).result p = (f a).result p' := by
  have hcont : (m >>= f).result p =
      ((ExceptT.bindCont f (m.result p).1).run (m.result p).2).value := rfl
  rw [hcont, h]
  rfl

/-- A run comes to a value, and of the value and what is done then something is known. -/
def Ends (m : Run α) (p : Progress) (P : α → Progress → Prop) : Prop :=
  ∃ a p', m.result p = (.ok a, p') ∧ P a p'

namespace Ends

variable {P Q : α → Progress → Prop} {R : β → Progress → Prop}

theorem bind (h : m.Ends p P) (hf : ∀ a p', P a p' → (f a).Ends p' R) : (m >>= f).Ends p R := by
  obtain ⟨a, p', hm, ha⟩ := h
  obtain ⟨b, p'', hnext, hb⟩ := hf a p' ha
  exact ⟨b, p'', (result_bind_of_ok hm).trans hnext, hb⟩

theorem mono (h : m.Ends p P) (hPQ : ∀ a p', P a p' → Q a p') : m.Ends p Q := by
  obtain ⟨a, p', hm, ha⟩ := h
  exact ⟨a, p', hm, hPQ a p' ha⟩

theorem pure (h : P a p) : (Pure.pure a : Run α).Ends p P := ⟨a, p, rfl, h⟩

/-- What was done so far is put to use in the next step. -/
theorem get {f : Progress → Run β} (h : (f p).Ends p R) :
    (MonadState.get >>= f : Run β).Ends p R := h

/-- Reading and building change nothing. -/
theorem bindTraced {x : Traced α} (hx : x.outcome = .ok a) (h : (f a).Ends p R) :
    (Run.ofTraced x >>= f).Ends p R := by
  have hresult : (Run.ofTraced x).result p = (.ok a, p) :=
    congrArg (fun outcome => (outcome, p)) hx
  obtain ⟨b, p', hnext, hb⟩ := h
  exact ⟨b, p', (result_bind_of_ok hresult).trans hnext, hb⟩

theorem change {c : Change} {P : Unit → Progress → Prop}
    (h : P () { p with changes := p.changes ++ [c], tree := p.tree.apply c }) :
    (Run.change c).Ends p P := ⟨(), _, rfl, h⟩

theorem print {line : Text} {P : Unit → Progress → Prop}
    (h : P () { p with printed := p.printed ++ [line] }) : (Run.print line).Ends p P :=
  ⟨(), _, rfl, h⟩

end Ends

end Run

open Run

/-! ## Folders -/

/-- What stands at some steps from a folder after pages were written there in order, each with the
steps to it and its text: the last page with these steps, or a folder on the way to one. -/
def contentOf (written : List (List Text × Text)) (steps : List Text) : Option Entry :=
  match written.reverse.lookup steps with
  | some text => some (.file text)
  | none => if written.any fun w => steps.isPrefixOf w.1 then some .folder else none

/-- The steps to a page: folders without a dot in their names, and a file with one. -/
inductive PageSteps : List Text → Prop
  | mk {folders : List Text} {name : Text} : (∀ folder ∈ folders, '.' ∉ folder) → '.' ∈ name →
      PageSteps (folders ++ [name])

/-- A folder holds just the pages that were written there. -/
structure Holds (root : List Text) (written : List (List Text × Text)) (t : FileTree) : Prop where
  opens : t.Opens root
  get?_eq : ∀ steps, steps ≠ [] → t.get? (root ++ steps) = contentOf written steps

theorem PageSteps.ne_of_folders (h : PageSteps steps) (hdots : ∀ step ∈ path, '.' ∉ step) :
    steps ≠ path := by
  cases h with
  | @mk folders name _ hname =>
    rintro rfl
    exact hdots name (List.mem_append_right _ (List.mem_singleton_self name)) hname

/-- No page has steps without a dot. -/
theorem lookup_of_folders (hwritten : ∀ w ∈ written, PageSteps w.1)
    (hdots : ∀ step ∈ path, '.' ∉ step) : written.reverse.lookup path = none := by
  rw [List.lookup_eq_none_iff]
  intro w hw
  rw [List.mem_reverse] at hw
  exact bne_iff_ne.mpr ((hwritten w hw).ne_of_folders hdots).symm

theorem contentOf_of_folders (hwritten : ∀ w ∈ written, PageSteps w.1)
    (hdots : ∀ step ∈ path, '.' ∉ step) : contentOf written path =
      if written.any fun w => path.isPrefixOf w.1 then some .folder else none := by
  rw [contentOf, lookup_of_folders hwritten hdots]

/-- One more page is the last one with its steps, and has its folders around it. -/
theorem contentOf_append (written : List (List Text × Text)) (steps : List Text) (text : Text)
    (place : List Text) : contentOf (written ++ [(steps, text)]) place =
      if place = steps then some (.file text)
      else match contentOf written place with
        | some entry => some entry
        | none => if place.isPrefixOf steps then some .folder else none := by
  rw [contentOf, List.reverse_append, List.reverse_singleton, List.singleton_append]
  by_cases hplace : place = steps
  · subst hplace
    rw [List.lookup_cons_self, if_pos rfl]
  · rw [lookup_cons_of_ne hplace, if_neg hplace, contentOf, List.any_append]
    cases written.reverse.lookup place with
    | some text => rfl
    | none =>
      dsimp only
      cases written.any fun w => place.isPrefixOf w.1
      · simp
      · rfl

/-- Besides itself, a new page brings the folders on the way to it. -/
theorem contentOf_append_of_ne (hwritten : ∀ w ∈ written, PageSteps w.1)
    (hfolders : ∀ folder ∈ folders, '.' ∉ folder) (hne : steps ≠ folders ++ [name]) :
    contentOf (written ++ [(folders ++ [name], text)]) steps =
      if steps <+: folders then some .folder else contentOf written steps := by
  have hpage : steps.isPrefixOf (folders ++ [name]) = true ↔ steps <+: folders := by
    rw [List.isPrefixOf_iff_prefix, List.prefix_concat_iff]
    exact or_iff_right hne
  rw [contentOf_append, if_neg hne]
  by_cases hpre : steps <+: folders
  · rw [if_pos hpre, if_pos (hpage.mpr hpre),
      contentOf_of_folders hwritten fun step hstep => hfolders step (hpre.subset hstep)]
    cases written.any fun w => steps.isPrefixOf w.1 <;> rfl
  · rw [if_neg hpre, if_neg (mt hpage.mp hpre)]
    cases contentOf written steps <;> rfl

/-- Opening folders for a page brings these, and changes nothing else. -/
theorem Holds.get?_of_opened {t' : FileTree} (h : Holds root written t)
    (hopened : Opened (root ++ folders) t t') (hsteps : steps ≠ []) :
    t'.get? (root ++ steps) =
      if steps <+: folders then some .folder else contentOf written steps := by
  have hinside : root ++ steps <+: root ++ folders ↔ steps <+: folders :=
    List.prefix_append_right_inj root
  by_cases hpre : steps <+: folders
  · rw [if_pos hpre, hopened.opens _ (hinside.mpr hpre)]
  · rw [if_neg hpre, hopened.get?_eq _ (mt hinside.mp hpre), h.get?_eq steps hsteps]

/-- Writing a file into a folder that was opened for it adds one page. -/
theorem Holds.write {t' : FileTree} (h : Holds root written t)
    (hwritten : ∀ w ∈ written, PageSteps w.1) (hfolders : ∀ folder ∈ folders, '.' ∉ folder)
    (hopened : Opened (root ++ folders) t t') :
    Holds root (written ++ [(folders ++ [name], text)])
      (t'.put (root ++ folders ++ [name]) (.file text)) := by
  have hget := t'.get?_put_concat (root ++ folders) name (.file text)
  constructor
  · intro place hplace
    rw [hget, if_neg, hopened.opens place (hplace.trans (List.prefix_append ..))]
    rintro rfl
    have hlength := hplace.length_le
    simp only [List.length_append, List.length_singleton] at hlength
    omega
  · intro steps hsteps
    have hplace : root ++ steps = root ++ folders ++ [name] ↔ steps = folders ++ [name] := by
      rw [List.append_assoc, List.append_right_inj]
    by_cases hnew : steps = folders ++ [name]
    · rw [hget, if_pos (hplace.mpr hnew), contentOf_append, if_pos hnew]
    · rw [hget, if_neg (mt hplace.mp hnew), h.get?_of_opened hopened hsteps,
        contentOf_append_of_ne hwritten hfolders hnew]

/-! ## Pages -/

/-- The way to a page below the output folder, and its text. -/
def wayOf (page : Page) : List Text × Text := (stepsShown page.path, page.text)

/-- With a page in it, a folder that holds just pages is there. -/
theorem Holds.get?_append {pages : List Page} (h : Holds root (pages.map wayOf) t)
    (hne : pages ≠ []) (hpages : ∀ page ∈ pages, PageSteps (stepsShown page.path))
    (steps : List Text) : t.get? (root ++ steps) = contentOf (pages.map wayOf) steps := by
  by_cases hsteps : steps = []
  · have hways : ∀ w ∈ pages.map wayOf, PageSteps w.1 := List.forall_mem_map.mpr hpages
    obtain ⟨page, hpage⟩ := List.exists_mem_of_ne_nil _ hne
    rw [hsteps, List.append_nil, h.opens root List.prefix_rfl,
      contentOf_of_folders hways (List.forall_mem_nil _), if_pos]
    exact List.any_eq_true.mpr ⟨wayOf page, List.mem_map_of_mem hpage, rfl⟩
  · exact h.get?_eq steps hsteps

/-- A page that can be written below a folder. -/
def Fits (root : List Text) (page : Page) : Prop :=
  PageSteps (stepsShown page.path) ∧ Straight (root ++ stepsShown page.path)

end ApiReference.Site
