import ApiReference.Proofs.Site.PageOrder
import ApiReference.Proofs.Site.PageSteps
import Mathlib

/-!
# What a run leaves behind

A run reads all packages before it changes anything, so that a file which cannot be loaded
leaves everything as it is.  If all files can be loaded then the pages are written, and the
output folder holds these and nothing else.  What can stop a run after it has loaded all
files is said in the conditions of `run_replaces_output`: where the output folder is, how
long the paths of pages are, and what cannot be encoded.
-/

namespace ApiReference.Site

open Declaration Doc FileTree ApiReference.Page

variable {r : Request} {config : Json} {files : List Found} {loaded : List Loaded}
variable {pages : List Page} {p p' : Progress} {fault : Fault} {least : Int}

/-! ## Places -/

/-- A path that is not too long for a file, with no name in it that is. -/
def Short (path : List Text) : Prop :=
  size path ≤ maxPathBytes ∧ ∀ step ∈ path, bytes step ≤ maxNameBytes

instance Short.decidable (path : List Text) : Decidable (Short path) :=
  inferInstanceAs (Decidable (_ ∧ _))

/-- A configuration that says the same as the standard one, save for the pattern of the input
files. -/
def OnlyPatternChanged (config : Json) : Prop :=
  ∀ part key : Text, part ≠ "input" ∨ key ≠ "pattern" →
    Config.setting config part key = Config.setting Config.standard part key

theorem OnlyPatternChanged.clear (h : OnlyPatternChanged config) :
    Config.setting config "output" "clear" = .ok (.bool true) :=
  h "output" "clear" (.inl (by decide))

/-- It says something, and so is not replaced. -/
theorem OnlyPatternChanged.orStandard (h : OnlyPatternChanged config) :
    Config.orStandard config = config := by
  have hclear := h.clear
  rw [Config.orStandard, Json.orElse, if_pos]
  cases config with
  | object fields =>
    cases fields with
    | nil => cases hclear
    | cons field fields => rfl
  | _ => cases hclear

theorem OnlyPatternChanged.settings (h : OnlyPatternChanged config) :
    Settings.ofConfig config = .ok .standard := by
  rw [Settings.ofConfig, extensionOf, languageOf, h.orStandard,
    h "output" "extension" (.inl (by decide)), h "signature" "language" (.inl (by decide))]
  rfl

theorem OnlyPatternChanged.threshold (h : OnlyPatternChanged config)
    (hconfig : r.config = .ok config) : ∃ least, threshold r = .ok least := by
  unfold Site.threshold
  split
  · exact ⟨10, rfl⟩
  · rw [hconfig]
    refine ⟨30, ?_⟩
    show (Config.setting config "logging" "level" >>= fun level => thresholdOf level) = .ok 30
    rw [h "logging" "level" (.inl (by decide))]
    rfl

/-- What is there when a run starts. -/
def Request.start (r : Request) : Progress := ⟨[], r.tree, []⟩

end ApiReference.Site
