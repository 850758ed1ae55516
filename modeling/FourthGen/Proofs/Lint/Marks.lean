import FourthGen.Proofs.Document.Clamping
import FourthGen.Proofs.Lint.Locality
import FourthGen.Proofs.Lint.Matching

set_option autoImplicit false

/-! # What the line rules mark

The line rules count columns in the lines into which they divide the text; a document finds the offsets of
the columns by its own table of lines. What lies between the offsets of a range is the part of the line
that the rule is about (`lint_marks`): the stretch that its pattern took, or the whole line. -/

namespace FourthGen

/-- What the message of a problem says of the marked part of a line. Problems that are not about a part
    of the line mark all of it. -/
def Problem.Describes (problem : Problem) (line marked : String) : Prop :=
  match problem with
  | .malformed _ => False
  | .shortName _ =>
    problem.message = "Single-character variable '" ++ marked ++ "' may be unclear"
  | .invalidDate _ => problem.message = "Invalid date format: " ++ marked
  | .deprecatedType _ =>
    problem.message = "Data type '" ++ Text.upper marked ++
      "' is deprecated, consider using modern alternatives"
  | .selectWithoutFrom | .insertWithoutValues | .updateWithoutSet | .formWithoutFields
  | .inputWithoutFrom | .ifWithoutThen | .whileWithoutBody => marked = line

/-! ## Findings -/

/-- The finding marks a part of the line, and describes it. -/
def Finding.Marks (f : Finding) (line : List Char) : Prop :=
  ∃ found : Stretch, found.IsPartOf line ∧ f = .mark f.problem found ∧
    f.problem.Describes (String.ofList line) (String.ofList found.text)

namespace Lint

variable {line : List Char} {f : Finding}

theorem marks_of_mem_wholeLineIf {reason : Bool} {problem : Problem}
    (h : f ∈ wholeLineIf reason problem line) (hproblem : ∀ text, problem.Describes text text) :
    f.Marks line := by
  obtain rfl := eq_of_mem_wholeLineIf h
  exact ⟨_, ⟨[], [], by simp, by simp [Site.start]⟩, rfl, hproblem _⟩

theorem shortName?_eq_some {m : Pattern.Match} (h : shortName? m = some f) :
    ∃ name ∈ m.groups, f = .mark (.shortName (String.ofList name.text)) name := by
  unfold shortName? at h
  split at h
  · cases h
  · next name groups hgroups =>
    split at h
    · cases h
    · split at h
      · cases h
      · obtain ⟨-, hf⟩ := Option.ite_none_right_eq_some.1 h
        exact ⟨name, by simp [hgroups], (Option.some.inj hf).symm⟩

theorem marks_of_mem_shortNames (h : f ∈ shortNames line) : f.Marks line := by
  obtain ⟨m, hm, hf⟩ := List.mem_filterMap.1 h
  obtain ⟨name, hname, rfl⟩ := shortName?_eq_some hf
  exact ⟨name, Pattern.isPartOf_of_mem_groups hm hname, rfl, rfl⟩

theorem marks_of_mem_invalidDates (h : f ∈ invalidDates line) : f.Marks line := by
  obtain ⟨m, hm, hf⟩ := List.mem_filterMap.1 h
  split at hf
  · cases hf
  · cases hf
    exact ⟨m.toStretch, Pattern.isPartOf_of_mem_findAll hm, rfl, rfl⟩

theorem marks_of_mem_deprecatedTypes (h : f ∈ deprecatedTypes line) : f.Marks line := by
  obtain ⟨m, hm, rfl⟩ := List.mem_map.1 h
  exact ⟨m.toStretch, Pattern.isPartOf_of_mem_findAll hm, rfl, rfl⟩

/-- Whatever is found in a line marks a part of the line. -/
theorem marks_of_mem_findings (h : f ∈ findings line) : f.Marks line := by
  unfold findings at h
  split at h
  · cases h
  · simp only [sqlClauses, formParts, controlParts, List.mem_append] at h
    rcases h with ((((h | (h | h) | h) | h | h) | h) | h) | h | h
    · exact marks_of_mem_shortNames h
    · exact marks_of_mem_wholeLineIf h fun _ => rfl
    · exact marks_of_mem_wholeLineIf h fun _ => rfl
    · exact marks_of_mem_wholeLineIf h fun _ => rfl
    · exact marks_of_mem_wholeLineIf h fun _ => rfl
    · exact marks_of_mem_wholeLineIf h fun _ => rfl
    · exact marks_of_mem_invalidDates h
    · exact marks_of_mem_deprecatedTypes h
    · exact marks_of_mem_wholeLineIf h fun _ => rfl
    · exact marks_of_mem_wholeLineIf h fun _ => rfl

end Lint

/-! ## Ranges -/

/-- The part of a line between two columns is found by the offsets of the columns. -/
theorem Document.slice_of_line? {document : Document} {n : Nat} {left marked right : List Char}
    (h : document.line? n = some (left ++ (marked ++ right))) :
    ∃ span, document.offsetAt? ⟨n, Text.utf16Length left⟩ = some span.start ∧
      document.offsetAt? ⟨n, Text.utf16Length (left ++ marked)⟩ = some span.stop ∧
      Slice document.text.toList span marked := by
  obtain ⟨before, behind, hsplit, -, hstart⟩ := exists_split_of_line? h
  refine ⟨⟨Text.utf8Length (before ++ left), Text.utf8Length (before ++ left ++ marked)⟩, ?_, ?_,
    before ++ left, right ++ behind, by simpa using hsplit, rfl, rfl⟩
  · rw [offsetAt?_of_front h, hstart, ← Text.utf8Length_append]
  · rw [← List.append_assoc] at h
    rw [offsetAt?_of_front h, hstart, ← Text.utf8Length_append, List.append_assoc]

/-- A diagnostic of the line rules lies on one line of the document, and what the document has between
    the offsets of its range is the part of the line that the message is about: the variable, the date or
    the type that it names, or the whole line. -/
theorem lint_marks {document : Document} {d : Diagnostic} (hd : d ∈ lint document.text) :
    ∃ n line marked span, d.range.start.line = n ∧ d.range.stop.line = n ∧
      n < document.lineCount ∧ document.lineText? n = some line ∧
      d.range.start.character ≤ d.range.stop.character ∧
      d.range.stop.character ≤ Text.utf16Length line.toList ∧
      document.offsetAt? d.range.start = some span.start ∧
      document.offsetAt? d.range.stop = some span.stop ∧
      Slice document.text.toList span marked.toList ∧ d.problem.Describes line marked := by
  obtain ⟨n, line, hline, f, hf, rfl⟩ := mem_lint_iff.1 hd
  obtain ⟨⟨site, marked⟩, ⟨left, right, rfl, hsite⟩, hmark, hdescribes⟩ := Lint.marks_of_mem_findings hf
  have hline : document.line? n = some (left ++ (marked ++ right)) := by rw [Document.line?_eq, hline]
  have hstart : f.start = Text.utf16Length left := by
    rw [hmark, Finding.mark, hsite, Site.column, Text.utf16Length_reverse]
  have hstop : f.stop = Text.utf16Length (left ++ marked) := by
    rw [Text.utf16Length_append, ← hstart, hmark]
    rfl
  have hcount := Document.lt_lineCount_of_line? hline
  obtain ⟨span, hspan, hspan', hslice⟩ := Document.slice_of_line? hline
  rw [← hstart] at hspan
  rw [← hstop] at hspan'
  refine ⟨n, String.ofList (left ++ (marked ++ right)), String.ofList marked, span, rfl, rfl, hcount, ?_,
    ?_, ?_, hspan, hspan', ?_, hdescribes⟩
  · rw [Document.lineText?, hline, Option.map_some]
  · show f.start ≤ f.stop
    rw [hstart, hstop, Text.utf16Length_append]
    exact Nat.le_add_right _ _
  · show f.stop ≤ _
    rw [hstop, String.toList_ofList, ← List.append_assoc, Text.utf16Length_append (left ++ marked)]
    exact Nat.le_add_right _ _
  · rwa [String.toList_ofList]

/-- A name behind characters of two bytes and of two UTF-16 code units, on a line that ends with a carriage
    return. -/
theorem lint_marks_name :
    (⟨.shortName "x", ⟨⟨1, 4⟩, ⟨1, 5⟩⟩⟩ : Diagnostic) ∈ lint "é\r\né😀 x = 1\r\n" ∧
      ∃ n line marked span, n = 1 ∧
        Document.lineText? ⟨"file:///t.4gl", 1, "é\r\né😀 x = 1\r\n"⟩ n = some line ∧
        Slice "é\r\né😀 x = 1\r\n".toList span marked ∧
        (Problem.shortName "x").Describes line (String.ofList marked) := by
  have hd : (⟨.shortName "x", ⟨⟨1, 4⟩, ⟨1, 5⟩⟩⟩ : Diagnostic) ∈ lint "é\r\né😀 x = 1\r\n" := by
    decide +kernel
  refine ⟨hd, ?_⟩
  obtain ⟨n, line, marked, span, hn, -, -, hline, -, -, -, -, hslice, hdescribes⟩ :=
    @lint_marks ⟨"file:///t.4gl", 1, "é\r\né😀 x = 1\r\n"⟩ _ hd
  exact ⟨n, line, marked.toList, span, hn.symm, hline, hslice, by rwa [String.ofList_toList]⟩

end FourthGen
