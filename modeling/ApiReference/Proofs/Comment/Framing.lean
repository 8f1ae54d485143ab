import ApiReference.Comment.Framing
import ApiReference.Proofs.Text.Trim

/-!
# Comments in their frame

`framed` puts lines into the frame of a comment.  The lines are found again between
two empty ones, which the lines of the frame itself leave (`unframe_framed`).
-/

namespace ApiReference.Comment

open Text

variable {line : Text} {lines : List Text}

/-- What stands in front of each line in a frame. -/
def margin : Text := " * "

theorem unbroken_margin : Unbroken margin := by
  decide

/-- Lines in the frame of a comment. -/
def framed (lines : List Text) : Text :=
  ("/**\n" : Text) ++ (lines.map (margin ++ ·)).flatMap (· ++ ['\n']) ++ (" */" : Text)

theorem dropEnd_append (ending text : Text) : dropEnd ending (text ++ ending) = text := by
  rw [dropEnd, List.reverse_append, after?_append]
  exact List.reverse_reverse text

/-- A line loses no more than the blanks at its end. -/
theorem unframeLine_margin (line : Text) : unframeLine (margin ++ line) = trimEnd line := by
  have htrim : trim (margin ++ line) = trimEnd ('*' :: ' ' :: line) := rfl
  by_cases hblank : trimEnd line = []
  · have hstar : trimEnd ('*' :: ' ' :: line) = ['*'] := trimEnd_append_blank ['*', ' '] hblank
    rw [unframeLine, htrim, hstar, hblank]
    rfl
  · have hstar : trimEnd ('*' :: ' ' :: line) = '*' :: ' ' :: trimEnd line :=
      trimEnd_append ['*', ' '] hblank
    rw [unframeLine, htrim, hstar]
    exact trimEnd_trimEnd line

/-- Taking the frame away leaves the lines in it, between two empty ones. -/
theorem unframe_framed (h : ∀ line ∈ lines, Unbroken line) :
    unframe (framed lines) = [] :: lines.map trimEnd ++ [[]] := by
  have htrim : trim (framed lines) = framed lines := by
    refine trim_eq_self_iff.mpr ⟨rfl, ?_⟩
    exact trimEnd_append _ (t := (" */" : Text)) (by decide)
  have hstart : after? "/**" (framed lines) = some
      ('\n' :: ((lines.map (margin ++ ·)).flatMap (· ++ ['\n']) ++ [' ']) ++ ("*/" : Text)) := by
    rw [after?_eq_some, framed, List.append_assoc]
    simp
  have hunbroken : ∀ piece ∈ lines.map (margin ++ ·), Unbroken piece := by
    rintro _ hpiece
    obtain ⟨line, hline, rfl⟩ := List.mem_map.mp hpiece
    exact unbroken_margin.append (h line hline)
  have hlines : (lines.map (margin ++ ·)).map unframeLine = lines.map trimEnd := by
    rw [List.map_map]
    exact List.map_congr_left fun line _ => unframeLine_margin line
  rw [unframe, htrim, hstart, Option.getD_some, dropEnd_append, lines_newline,
    lines_flatMap hunbroken, List.map_cons, List.map_append, hlines]
  rfl

/-- A line that a frame does not change. -/
structure Framable (line : Text) : Prop where
  unbroken : Unbroken line
  trimmed : trimEnd line = line

theorem Framable.of_not_isBlank (h : ∀ c ∈ line, isBlank c = false) : Framable line :=
  ⟨.of_not_isBlank h, trimEnd_eq_self_iff.mpr fun c hc => h c (List.mem_of_getLast? hc)⟩

theorem map_trimEnd_of_framable (h : ∀ line ∈ lines, Framable line) :
    lines.map trimEnd = lines :=
  (List.map_congr_left fun line hline => (h line hline).trimmed).trans (List.map_id lines)

end ApiReference.Comment
