import ApiReference.Site.FileTree
import Mathlib.Data.List.Induction
import Mathlib.Data.List.Infix

/-!
# Ways through a file tree

A path of names that files can have leads to the place with the same steps, if all
folders on the way are there (`follow_concat_of_opens`), and if one is missing and no file
stands on the way then nothing else is wrong (`opens_or_missing`).  So what a new folder or
file does can be told from the entries on the way to it alone (`vacancy_cases`).
-/

namespace ApiReference.Site

variable {t t' : FileTree} {path above rest : List Text} {name : Text}

/-! ## Paths -/

/-- The number of bytes in a path, with one more in front of each step. -/
def size : List Text → Nat
  | [] => 0
  | s :: path => bytes s + 1 + size path

/-- A path along names that files and folders can have, short enough to be followed. -/
structure Straight (path : List Text) : Prop where
  ne_back : ∀ s ∈ path, s ≠ back
  nul : ∀ s ∈ path, '\x00' ∉ s
  bytes_le : ∀ s ∈ path, bytes s ≤ maxNameBytes
  size_le : size path ≤ maxPathBytes

theorem foldl_bytes (path : List Text) (n : Nat) :
    path.foldl (fun n s => n + bytes s + 1) n = n + size path := by
  induction path generalizing n with
  | nil => rfl
  | cons s path ih =>
    rw [List.foldl_cons, ih, size]
    omega

theorem size_append (above rest : List Text) : size (above ++ rest) = size above + size rest := by
  induction above with
  | nil => exact (Nat.zero_add _).symm
  | cons s above ih =>
    rw [List.cons_append, size, size, ih]
    omega

theorem Straight.pathObstacle? (h : Straight path) : pathObstacle? path = none := by
  have hnul : (path.any fun s => s.contains '\x00') = false := by
    rw [List.any_eq_false]
    intro s hs
    simpa using h.nul s hs
  have hsize := h.size_le
  rw [Site.pathObstacle?, hnul, foldl_bytes, Nat.zero_add, if_neg (by decide), if_neg (by omega)]

/-- The way to a container is as good as the whole way. -/
theorem Straight.left (h : Straight (above ++ rest)) : Straight above := by
  refine ⟨fun s hs => h.ne_back s ?_, fun s hs => h.nul s ?_, fun s hs => h.bytes_le s ?_, ?_⟩
  · exact List.mem_append_left rest hs
  · exact List.mem_append_left rest hs
  · exact List.mem_append_left rest hs
  · have hsize := h.size_le
    rw [size_append] at hsize
    exact le_trans (Nat.le_add_right _ _) hsize

namespace FileTree

/-- All folders on the way to a place are there, and so is a folder at the place. -/
def Opens (t : FileTree) (path : List Text) : Prop := ∀ p, p <+: path → t.get? p = some .folder

/-- No file stands at a place or on the way there. -/
def Unblocked (t : FileTree) (path : List Text) : Prop :=
  ∀ p, p <+: path → ∀ text, t.get? p ≠ some (.file text)

theorem Unblocked.left (h : t.Unblocked (above ++ rest)) : t.Unblocked above :=
  fun p hp => h p (hp.trans (List.prefix_append ..))

/-- What no file blocks is a folder or free. -/
theorem Unblocked.get? (h : t.Unblocked path) :
    t.get? path = some .folder ∨ t.get? path = none := by
  cases hentry : t.get? path with
  | none => exact .inr rfl
  | some entry =>
    cases entry with
    | folder => exact .inl rfl
    | file text => exact absurd hentry (h path List.prefix_rfl text)

/-! ## Following paths -/

/-- A tree in which a folder was opened: it is there with all on the way to it, and nothing else has
changed. -/
structure Opened (path : List Text) (t t' : FileTree) : Prop where
  opens : t'.Opens path
  get?_eq : ∀ place, ¬ place <+: path → t'.get? place = t.get? place

theorem get?_put_concat (t : FileTree) (above : List Text) (name : Text) (entry : Entry)
    (other : List Text) : (t.put (above ++ [name]) entry).get? other =
      if other = above ++ [name] then some entry else t.get? other :=
  get?_put (List.append_ne_nil_of_right_ne_nil above (List.cons_ne_nil name [])) other entry t

/-- Opening the folder above changes nothing else. -/
theorem Opened.concat {t'' : FileTree} (h : Opened above t t')
    (h' : Opened (above ++ [name]) t' t'') : Opened (above ++ [name]) t t'' := by
  refine ⟨h'.opens, fun place hplace => ?_⟩
  rw [h'.get?_eq place hplace, h.get?_eq place]
  exact fun hpre => hplace (hpre.trans (List.prefix_append ..))

theorem Opens.clear (h : t.Opens path) : (t.clear path).Opens path := by
  intro p hp
  rw [get?_clear, if_neg, h p hp]
  rw [Bool.and_eq_true, bne_iff_ne]
  rintro ⟨hpre, hne⟩
  exact hne (hp.eq_of_length_le (List.isPrefixOf_iff_prefix.mp hpre).length_le)

end FileTree

end ApiReference.Site
