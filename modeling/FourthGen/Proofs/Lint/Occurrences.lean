import FourthGen.Proofs.Lint.Apart
import FourthGen.Proofs.Lint.Calendar
import FourthGen.Proofs.Lint.Locality

set_option autoImplicit false

/-! # What the searching rules report

Three of the line rules search a line: for assignments to short names, for dates and for types that are
out of use. What they report is said here without patterns, by what stands in the line
(`lint_occurrences`). -/

namespace FourthGen

namespace Lint

/-! ## Parts of a line -/

/-- A name of a single character, which is not the end of a longer word, to which something is assigned:
    behind it there is an equals sign, which white space may precede but no further equals sign follows. -/
def IsShortTarget (left part right : List Char) : Prop :=
  (∃ c, part = [c] ∧ Text.isNameStart c = true) ∧ EndsWord left.reverse ∧
    ∃ blank value, right = blank ++ '=' :: value ∧ (∀ c ∈ blank, Unicode.isWhiteSpace c = true) ∧
      value.head? ≠ some '='

/-- Four, two and two digits with hyphens between them, which are no part of a longer word and do not
    denote the year, the month and the day of a date. -/
def IsInvalidDate (left part right : List Char) : Prop :=
  ∃ year month day, part = year ++ '-' :: (month ++ '-' :: day) ∧
    year.length = 4 ∧ month.length = 2 ∧ day.length = 2 ∧
    (∀ c ∈ year ++ (month ++ day), c.isDigit = true) ∧ EndsWord left.reverse ∧ EndsWord right ∧
    ¬ ∃ date : Std.Time.PlainDate, date.year.toInt = number year ∧ date.month.val = number month ∧
      date.day.val = number day

/-- A whole word that names a type that is out of use, in some letter case. -/
def IsDeprecatedType (left part right : List Char) : Prop :=
  Spells deprecatedTypeNames part ∧ (∀ c ∈ part, Unicode.isWordPart c = true) ∧
    EndsWord left.reverse ∧ EndsWord right

/-- The findings are, from left to right, one for each part of the line that meets the condition. -/
structure Finds (line : List Char) (is : (left part right : List Char) → Prop)
    (problem : List Char → Problem) (found : List Finding) : Prop where
  inOrder : found.Pairwise (·.start < ·.start)
  mem_iff : ∀ f, f ∈ found ↔ ∃ left part right, line = left ++ (part ++ right) ∧ is left part right ∧
    f = ⟨problem part, Text.utf16Length left, Text.utf16Length (left ++ part)⟩

theorem mark_eq (problem : Problem) (left part rest : List Char) :
    Finding.mark problem ⟨⟨left.reverse, rest⟩, part⟩ =
      ⟨problem, Text.utf16Length left, Text.utf16Length (left ++ part)⟩ := by
  rw [Finding.mark, Site.column, Text.utf16Length_reverse, Text.utf16Length_append]

/-- A rule that searches for matches that stand apart finds what it makes of them at each place. -/
theorem finds_filterMap {p : Pattern} (hp : p.Apart) {line : List Char}
    {rule : Pattern.Match → Option Finding} {is : (left part right : List Char) → Prop}
    {problem : List Char → Problem}
    (hrule : ∀ left tail f,
      (∃ m right, tail = m.text ++ right ∧ m.IsOf p left.reverse right ∧ rule m = some f) ↔
        ∃ part right, tail = part ++ right ∧ is left part right ∧
          f = ⟨problem part, Text.utf16Length left, Text.utf16Length (left ++ part)⟩) :
    Finds line is problem ((p.findAll line).filterMap rule) where
  inOrder := by
    have hstart {m : Pattern.Match} {f : Finding} (hm : m ∈ p.findAll line) (hf : rule m = some f) :
        f.start = m.site.column := by
      obtain ⟨left, right, -, hm⟩ := Pattern.isOf_of_mem_findAll hm
      obtain ⟨part, right', -, -, rfl⟩ := (hrule left _ f).1 ⟨m, right, rfl, hm, hf⟩
      rw [hm.site_eq, Site.column, Text.utf16Length_reverse]
    rw [List.pairwise_filterMap]
    refine (Pattern.pairwise_findAll p line).imp_of_mem ?_
    intro m m' hm hm' hlt f hf f' hf'
    rwa [hstart hm hf, hstart hm' hf']
  mem_iff f := by
    rw [List.mem_filterMap]
    constructor
    · rintro ⟨m, hm, hf⟩
      obtain ⟨left, right, rfl, hm'⟩ := Pattern.isOf_of_mem_findAll hm
      obtain ⟨part, right', htail, his, rfl⟩ := (hrule left _ f).1 ⟨m, right, rfl, hm', hf⟩
      exact ⟨left, part, right', by rw [htail], his, rfl⟩
    · rintro ⟨left, part, right, rfl, his, hf⟩
      obtain ⟨m, right', htail, hm, hf⟩ := (hrule left _ f).2 ⟨part, right, rfl, his, hf⟩
      exact ⟨m, hp.mem_findAll_iff.2 ⟨left, right', by rw [htail], hm⟩, hf⟩

/-! ## The rules -/

variable {line : List Char}

theorem notVariables_any_eq_false (c : Char) :
    notVariables.any (Text.sameWord (String.ofList [c])) = false := by
  simp [notVariables, Text.sameWord]

theorem shortName?_eq_some_iff {m : Pattern.Match} {before right name blank : List Char} {c : Char}
    {f : Finding} (hsite : m.site = ⟨before, m.text ++ right⟩)
    (h : TakesAssignment before m.text right m.groups c name blank) :
    shortName? m = some f ↔ right.head? ≠ some '=' ∧ name = [] ∧
      f = .mark (.shortName (String.ofList [c])) ⟨m.site, [c]⟩ := by
  rw [shortName?, h.groups_eq, hsite, Site.skip_append]
  simp only [Option.ite_none_left_eq_some, Option.ite_none_right_eq_some, Option.some.injEq,
    List.length_cons, Nat.add_eq_right, List.length_eq_zero_iff]
  constructor
  · rintro ⟨hright, -, rfl, rfl⟩
    exact ⟨hright, rfl, rfl⟩
  · rintro ⟨hright, rfl, rfl⟩
    exact ⟨hright, by rw [notVariables_any_eq_false]; exact Bool.false_ne_true, rfl, rfl⟩

theorem finds_shortNames :
    Finds line IsShortTarget (fun part => .shortName (String.ofList part)) (shortNames line) := by
  refine finds_filterMap apart_assignment ?_
  intro left tail f
  constructor
  · rintro ⟨m, right, rfl, ⟨hsite, htakes⟩, hf⟩
    obtain ⟨c, name, blank, h⟩ := takes_assignment_iff.1 htakes
    obtain ⟨hright, rfl, rfl⟩ := (shortName?_eq_some_iff hsite h).1 hf
    refine ⟨[c], blank ++ '=' :: right, h.append_eq, ⟨⟨c, rfl, h.isNameStart⟩, h.endsWord, blank, right, rfl,
      h.isWhiteSpace, hright⟩, ?_⟩
    rw [hsite, mark_eq]
  · rintro ⟨-, -, rfl, ⟨⟨c, rfl, hc⟩, hleft, blank, value, rfl, hblank, hvalue⟩, rfl⟩
    have h : TakesAssignment left.reverse (c :: (blank ++ ['='])) value _ c [] blank :=
      ⟨rfl, hc, by simp, hblank, hleft, rfl⟩
    refine ⟨⟨⟨⟨left.reverse, _⟩, c :: (blank ++ ['='])⟩, _⟩, value, h.append_eq.symm,
      ⟨rfl, takes_assignment_iff.2 ⟨c, [], blank, h⟩⟩, ?_⟩
    exact (shortName?_eq_some_iff rfl h).2 ⟨hvalue, rfl, (mark_eq ..).symm⟩

theorem finds_invalidDates :
    Finds line IsInvalidDate (fun part => .invalidDate (String.ofList part)) (invalidDates line) := by
  refine finds_filterMap apart_dateLiteral ?_
  intro left tail f
  constructor
  · rintro ⟨m, right, rfl, ⟨hsite, htakes⟩, hf⟩
    obtain ⟨year, month, day, h⟩ := takes_dateLiteral_iff.1 htakes
    obtain ⟨hdate, hf⟩ := Option.ite_none_left_eq_some.1 hf
    rw [h.groups_eq, isDate, Calendar.isDate_iff] at hdate
    refine ⟨m.text, right, rfl, ⟨year, month, day, h.text_eq, h.length_year, h.length_month, h.length_day, ?_,
      h.endsWord, h.endsWord', hdate⟩, ?_⟩
    · simp only [List.forall_mem_append]
      exact ⟨h.isDigit_year, h.isDigit_month, h.isDigit_day⟩
    · rw [← mark_eq _ left m.text, ← hsite]
      exact (Option.some.inj hf).symm
  · rintro ⟨part, right, rfl, ⟨year, month, day, hpart, hyear, hmonth, hday, hdigits, hleft, hright, hdate⟩, rfl⟩
    simp only [List.forall_mem_append] at hdigits
    have h : TakesDate left.reverse part right _ year month day :=
      ⟨hpart, hyear, hmonth, hday, hdigits.1, hdigits.2.1, hdigits.2.2, hleft, hright, rfl⟩
    refine ⟨⟨⟨⟨left.reverse, part ++ right⟩, part⟩, _⟩, right, rfl,
      ⟨rfl, takes_dateLiteral_iff.2 ⟨year, month, day, h⟩⟩, ?_⟩
    rw [if_neg (by rwa [isDate, Calendar.isDate_iff]), ← mark_eq]

theorem finds_deprecatedTypes :
    Finds line IsDeprecatedType (fun part => .deprecatedType (Text.upper (String.ofList part)))
      (deprecatedTypes line) := by
  have hne : ∀ word ∈ deprecatedTypeNames, word ≠ "" := by decide
  have hcapitals : ∀ word ∈ deprecatedTypeNames, ∀ c ∈ word.toList, c.isUpper = true := by
    simp [deprecatedTypeNames, Char.isUpper]
  rw [deprecatedTypes, ← List.filterMap_eq_map]
  refine finds_filterMap (apart_wholeWord hne hcapitals) ?_
  intro left tail f
  constructor
  · rintro ⟨m, right, rfl, ⟨hsite, htakes⟩, hf⟩
    obtain ⟨hspells, hleft, hright, -⟩ := (takes_wholeWord_iff hne hcapitals).1 htakes
    refine ⟨m.text, right, rfl, ⟨hspells, hspells.isWordPart hcapitals, hleft, hright⟩, ?_⟩
    rw [← mark_eq _ left m.text, ← hsite]
    exact (Option.some.inj hf).symm
  · rintro ⟨part, right, rfl, ⟨hspells, -, hleft, hright⟩, rfl⟩
    refine ⟨⟨⟨⟨left.reverse, part ++ right⟩, part⟩, []⟩, right, rfl,
      ⟨rfl, (takes_wholeWord_iff hne hcapitals).2 ⟨hspells, hleft, hright, rfl⟩⟩, ?_⟩
    rw [← mark_eq]
    rfl

/-! ## Among the other rules -/

/-- Whether a problem shows under a label, with a severity. -/
def shows (label : String) (severity : Severity) (problem : Problem) : Bool :=
  problem.family.tag == label && problem.severity == severity

section

variable {label : String} {severity : Severity} {found : List Finding}
  {is : (left part right : List Char) → Prop} {problem : List Char → Problem}

theorem Finds.filter_eq_self (h : Finds line is problem found)
    (hshows : ∀ part, shows label severity (problem part) = true) :
    found.filter (fun f => shows label severity f.problem) = found := by
  refine List.filter_eq_self.2 ?_
  intro f hf
  obtain ⟨_, part, _, -, -, rfl⟩ := (h.mem_iff f).1 hf
  exact hshows part

theorem Finds.filter_eq_nil (h : Finds line is problem found)
    (hshows : ∀ part, shows label severity (problem part) = false) :
    found.filter (fun f => shows label severity f.problem) = [] := by
  refine List.filter_eq_nil_iff.2 ?_
  intro f hf
  obtain ⟨_, part, _, -, -, rfl⟩ := (h.mem_iff f).1 hf
  exact Bool.eq_false_iff.1 (hshows part)

theorem filter_wholeLineIf {reason : Bool} {problem : Problem}
    (h : problem.family.tag ≠ label) :
    (wholeLineIf reason problem line).filter (fun f => shows label severity f.problem) = [] := by
  refine List.filter_eq_nil_iff.2 ?_
  intro f hf
  rw [eq_of_mem_wholeLineIf hf, Finding.mark, shows, beq_false_of_ne h, Bool.false_and]
  exact Bool.false_ne_true

/-- Under these two labels nothing shows but what the searching rules find. -/
theorem filter_findings (hcomment : isComment line = false)
    (hlabel : label = "4gl-semantic" ∨ label = "4gl-datatype") :
    (findings line).filter (fun f => shows label severity f.problem) =
      (shortNames line).filter (fun f => shows label severity f.problem) ++
        ((invalidDates line).filter (fun f => shows label severity f.problem) ++
          (deprecatedTypes line).filter fun f => shows label severity f.problem) := by
  rw [findings, hcomment, if_neg Bool.false_ne_true]
  simp only [sqlClauses, formParts, controlParts, List.filter_append]
  rcases hlabel with rfl | rfl <;>
  simp (disch := decide) only [filter_wholeLineIf, List.append_nil, List.append_assoc]

end

/-- The diagnostics are, from left to right, one for each part of the line that meets the condition. -/
structure Reports (n : Nat) (line : List Char) (is : (left part right : List Char) → Prop)
    (problem : List Char → Problem) (ds : List Diagnostic) : Prop where
  inOrder : ds.Pairwise (·.range.start.character < ·.range.start.character)
  mem_iff : ∀ d, d ∈ ds ↔ ∃ left part right, line = left ++ (part ++ right) ∧ is left part right ∧
    d = ⟨problem part, ⟨⟨n, Text.utf16Length left⟩, ⟨n, Text.utf16Length (left ++ part)⟩⟩⟩

theorem Finds.reports {is : (left part right : List Char) → Prop} {problem : List Char → Problem}
    {found : List Finding} (h : Finds line is problem found) (n : Nat) :
    Reports n line is problem (found.map (·.onLine n)) where
  inOrder := List.pairwise_map.2 h.inOrder
  mem_iff d := by
    simp only [List.mem_map, h.mem_iff]
    constructor
    · rintro ⟨_, ⟨left, part, right, hline, his, rfl⟩, rfl⟩
      exact ⟨left, part, right, hline, his, rfl⟩
    · rintro ⟨left, part, right, hline, his, rfl⟩
      exact ⟨_, ⟨left, part, right, hline, his, rfl⟩, rfl⟩

end Lint

/-- What shows under a label and with a severity on a line of a text is what shows so of the findings in
    the line. -/
theorem filter_lint_shows {text : String} {n : Nat} {line : List Char}
    (hline : (Text.lines text.toList)[n]? = some line) (label : String) (severity : Severity) :
    (lint text).filter (fun d => Lint.shows label severity d.problem && d.range.start.line == n) =
      ((Lint.findings line).filter fun f => Lint.shows label severity f.problem).map (·.onLine n) := by
  rw [← List.filter_filter, filter_lint, hline, Option.map_some, Option.getD_some, List.filter_map]
  rfl

/-- On a line that is no comment the line rules warn of each assignment to a name of a single character,
    report each date that the calendar does not have, and warn of each whole word that names a type that
    is out of use. They do so from left to right, once for each part of the line that is of that kind and
    for nothing else. -/
theorem lint_occurrences {text : String} {n : Nat} {line : List Char}
    (hline : (Text.lines text.toList)[n]? = some line) (hcomment : Lint.isComment line = false) :
    Lint.Reports n line Lint.IsShortTarget (fun part => .shortName (String.ofList part))
        ((lint text).filter fun d =>
          Lint.shows "4gl-semantic" .warning d.problem && d.range.start.line == n) ∧
      Lint.Reports n line Lint.IsInvalidDate (fun part => .invalidDate (String.ofList part))
        ((lint text).filter fun d =>
          Lint.shows "4gl-datatype" .error d.problem && d.range.start.line == n) ∧
      Lint.Reports n line Lint.IsDeprecatedType
        (fun part => .deprecatedType (Text.upper (String.ofList part)))
        ((lint text).filter fun d =>
          Lint.shows "4gl-datatype" .warning d.problem && d.range.start.line == n) := by
  rw [filter_lint_shows hline, filter_lint_shows hline, filter_lint_shows hline,
    Lint.filter_findings hcomment (.inl rfl), Lint.filter_findings hcomment (.inr rfl),
    Lint.filter_findings hcomment (.inr rfl)]
  have hnames := @Lint.finds_shortNames line
  have hdates := @Lint.finds_invalidDates line
  have htypes := @Lint.finds_deprecatedTypes line
  refine ⟨?_, ?_, ?_⟩
  · rw [hnames.filter_eq_self fun _ => rfl, hdates.filter_eq_nil fun _ => rfl,
      htypes.filter_eq_nil fun _ => rfl, List.append_nil, List.append_nil]
    exact hnames.reports n
  · rw [hnames.filter_eq_nil fun _ => rfl, hdates.filter_eq_self fun _ => rfl,
      htypes.filter_eq_nil fun _ => rfl, List.append_nil, List.nil_append]
    exact hdates.reports n
  · rw [hnames.filter_eq_nil fun _ => rfl, hdates.filter_eq_nil fun _ => rfl,
      htypes.filter_eq_self fun _ => rfl, List.nil_append, List.nil_append]
    exact htypes.reports n

/-- A comparison does not hide the assignment that its right side is the name of. -/
theorem lint_occurrences_chain :
    (Text.lines "x==y = 1".toList)[0]? = some "x==y = 1".toList ∧
      Lint.isComment "x==y = 1".toList = false ∧
      (⟨.shortName "y", ⟨⟨0, 3⟩, ⟨0, 4⟩⟩⟩ : Diagnostic) ∈ (lint "x==y = 1").filter fun d =>
        Lint.shows "4gl-semantic" .warning d.problem && d.range.start.line == 0 := by
  have hline : (Text.lines "x==y = 1".toList)[0]? = some "x==y = 1".toList := by decide
  have hcomment : Lint.isComment "x==y = 1".toList = false := by decide
  refine ⟨hline, hcomment, ((lint_occurrences hline hcomment).1.mem_iff _).2 ?_⟩
  exact ⟨"x==".toList, ['y'], " = 1".toList, rfl, ⟨⟨'y', rfl, rfl⟩, by decide,
    [' '], " 1".toList, rfl, List.forall_mem_singleton.2 rfl, by decide⟩, rfl⟩

end FourthGen
