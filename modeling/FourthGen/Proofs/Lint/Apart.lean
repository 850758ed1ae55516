import FourthGen.Lint.Rules
import FourthGen.Proofs.Lint.Matching
import FourthGen.Proofs.Token.Munch

set_option autoImplicit false

/-! # Matches of the line rules stand apart

Three rules search a line for all matches of a pattern: for assignments, for dates and for names of types.
A match of each of them starts at the start of a word. Within an assignment and within a word no further
word starts. Within a date two words start, behind the hyphens; no date starts there, since it would need
four digits without a hyphen. So no match is hidden by an earlier one. -/

namespace FourthGen

/-! ## Characters of words -/

namespace Unicode

theorem isWordPart_of_isNameRest {c : Char} (h : Text.isNameRest c = true) : isWordPart c = true := by
  rw [isWordPart, if_pos (Text.toNat_lt_of_isNameRest h)]
  exact h

theorem isWordPart_of_isNameStart {c : Char} (h : Text.isNameStart c = true) : isWordPart c = true :=
  isWordPart_of_isNameRest (Text.isNameRest_of_isNameStart h)

theorem isWordPart_of_isDigit {c : Char} (h : c.isDigit = true) : isWordPart c = true := by
  refine isWordPart_of_isNameRest ?_
  simp [Text.isNameRest, Char.isAlphanum, h]

/-- Only characters of words fold to what a capital letter folds to. -/
theorem isWordPart_of_foldCase {c u : Char} (hu : u.isUpper = true) (h : foldCase c = foldCase u) :
    isWordPart c = true := by
  have hrange := Text.isUpper_iff.1 hu
  have hfold : foldCase u = u.toLower := by
    unfold foldCase
    rw [if_neg (by rintro rfl; cases hu), if_neg (by omega)]
  rw [hfold] at h
  unfold foldCase at h
  split at h
  · next hc =>
    subst hc
    decide +kernel
  · split at h
    · next hc =>
      have hkelvin : c = Char.ofNat 0x212A := Char.toNat_inj.1 hc
      subst hkelvin
      decide +kernel
    · -- any other character is a letter itself
      refine isWordPart_of_isNameStart (Text.isNameStart_iff.2 (.inl ?_))
      have hlower := congrArg Char.toNat h
      rw [Text.toNat_toLower, Text.toNat_toLower, if_pos hrange] at hlower
      split at hlower <;> omega

theorem isNameRest_of_isWhiteSpace {c : Char} (h : isWhiteSpace c = true) :
    Text.isNameRest c = false := by
  rw [Bool.eq_false_iff]
  intro hc
  have hclasses : (((c.isUpper || c.isLower) || c.isDigit) || c == '_') = true := hc
  rw [Bool.or_eq_true, Bool.or_eq_true, Bool.or_eq_true, Text.isUpper_iff, Text.isLower_iff,
    Text.isDigit_iff, beq_iff_eq] at hclasses
  rcases hclasses with hclass | rfl
  · simp only [isWhiteSpace, inRanges, whiteSpaceRanges, List.any_cons, List.any_nil, Bool.or_eq_true,
      Bool.and_eq_true, decide_eq_true_iff, Bool.or_false] at h
    omega
  · cases h

end Unicode

/-! ## Starts and ends of words -/

/-- The text does not start with a character of a word. -/
def EndsWord (rest : List Char) : Prop := ∀ c, rest.head? = some c → Unicode.isWordPart c = false

theorem endsWord_iff {rest : List Char} :
    EndsWord rest ↔ rest.head?.any Unicode.isWordPart = false := by
  cases rest with
  | nil => simp [EndsWord]
  | cons c rest => simp [EndsWord]

instance (rest : List Char) : Decidable (EndsWord rest) := decidable_of_iff _ endsWord_iff.symm

theorem EndsWord.isDigit_eq_false {rest : List Char} (h : EndsWord rest) (c : Char)
    (hc : rest.head? = some c) : c.isDigit = false := by
  rw [Bool.eq_false_iff]
  intro hdigit
  exact Bool.eq_false_iff.1 (h c hc) (Unicode.isWordPart_of_isDigit hdigit)

namespace Site

theorem atEdge_before_word {before word rest : List Char} (hne : word ≠ [])
    (hword : ∀ c ∈ word, Unicode.isWordPart c = true) :
    atEdge ⟨before, word ++ rest⟩ = true ↔ EndsWord before := by
  obtain ⟨c, word, rfl⟩ := List.exists_cons_of_ne_nil hne
  rw [endsWord_iff, atEdge]
  simp [hword c List.mem_cons_self]

theorem atEdge_behind_word {before word rest : List Char} (hne : word ≠ [])
    (hword : ∀ c ∈ word, Unicode.isWordPart c = true) :
    atEdge ⟨word.reverse ++ before, rest⟩ = true ↔ EndsWord rest := by
  have hlast : word.getLast?.any Unicode.isWordPart = true := by
    rw [List.getLast?_eq_some_getLast hne]
    exact hword _ (List.getLast_mem hne)
  rw [endsWord_iff, atEdge, List.head?_append_of_ne_nil _ (by simpa using hne), List.head?_reverse, hlast]
  simp

end Site

/-- A run of a class that ends where the class ends is determined by the text. -/
theorem eq_of_run {member : Char → Bool} {run run' tail tail' : List Char}
    (hrun : ∀ c ∈ run, member c = true) (hrun' : ∀ c ∈ run', member c = true)
    (hend : ∀ c, tail.head? = some c → member c = false)
    (hend' : ∀ c, tail'.head? = some c → member c = false) (h : run ++ tail = run' ++ tail') :
    run = run' ∧ tail = tail' := by
  obtain ⟨htake, hdrop⟩ := Lexeme.takeWhile_of_run hrun hend
  obtain ⟨htake', hdrop'⟩ := Lexeme.takeWhile_of_run hrun' hend'
  rw [h] at htake hdrop
  exact ⟨htake.symm.trans htake', hdrop.symm.trans hdrop'⟩

/-- A word that starts behind the start of a word starts behind its end. -/
theorem exists_beyond_word {before front back run tail : List Char} (h : front ++ back = run ++ tail)
    (hrun : ∀ c ∈ run, Unicode.isWordPart c = true) (hfront : front ≠ [])
    (hends : EndsWord (front.reverse ++ before)) : ∃ between, between ≠ [] ∧ tail = between ++ back ∧
      front = run ++ between := by
  -- the character before the word is none of the first word
  have hlast : front.getLast hfront ∉ run := by
    intro hmem
    have hhead : (front.reverse ++ before).head? = some (front.getLast hfront) := by
      rw [List.head?_append, List.head?_reverse, List.getLast?_eq_some_getLast hfront, Option.some_or]
    exact Bool.eq_false_iff.1 (hends _ hhead) (hrun _ hmem)
  rcases List.append_eq_append_iff.1 h with ⟨a, rfl, -⟩ | ⟨between, rfl, htail⟩
  · exact absurd (List.mem_append_left a (List.getLast_mem hfront)) hlast
  · refine ⟨between, ?_, htail, rfl⟩
    rintro rfl
    exact hlast (by simp)

namespace Lint

open Pattern

variable {before text rest : List Char} {gs : List Stretch}

/-! ## Assignments -/

/-- What the pattern of an assignment takes: a name, white space and an equals sign. -/
structure TakesAssignment (before text rest : List Char) (gs : List Stretch) (c : Char)
    (name blank : List Char) : Prop where
  text_eq : text = c :: (name ++ (blank ++ ['=']))
  isNameStart : Text.isNameStart c = true
  isNameRest : ∀ d ∈ name, Text.isNameRest d = true
  isWhiteSpace : ∀ d ∈ blank, Unicode.isWhiteSpace d = true
  endsWord : EndsWord before
  groups_eq : gs = [⟨⟨before, text ++ rest⟩, c :: name⟩]

theorem isWordPart_of_name {c : Char} {name : List Char} (hc : Text.isNameStart c = true)
    (hname : ∀ d ∈ name, Text.isNameRest d = true) : ∀ d ∈ c :: name, Unicode.isWordPart d = true :=
  List.forall_mem_cons.2 ⟨Unicode.isWordPart_of_isNameStart hc,
    fun d hd => Unicode.isWordPart_of_isNameRest (hname d hd)⟩

theorem takes_assignment_iff :
    Takes assignment before text rest gs ↔
      ∃ c name blank, TakesAssignment before text rest gs c name blank := by
  unfold assignment
  simp only [takes_edge_cons_iff, takes_group_cons_iff, takes_one_cons_iff, takes_many_cons_iff,
    takes_sequence_nil_iff]
  constructor
  · rintro ⟨hedge, -, -, -, -, rfl, rfl, ⟨c, -, rfl, hstart, name, -, rfl, hname, rfl, rfl⟩, blank, -, rfl,
      hblank, d, -, rfl, hequals, rfl, rfl⟩
    rw [beq_iff_eq] at hequals
    subst hequals
    rw [List.append_nil] at hedge ⊢
    rw [List.append_assoc, Site.atEdge_before_word (List.cons_ne_nil c name)
      (isWordPart_of_name hstart hname)] at hedge
    exact ⟨c, name, blank, rfl, hstart, hname, hblank, hedge, by simp⟩
  · rintro ⟨c, name, blank, rfl, hstart, hname, hblank, hbefore, rfl⟩
    have hedge := (@Site.atEdge_before_word before _ (blank ++ ['='] ++ rest) (List.cons_ne_nil c name)
      (isWordPart_of_name hstart hname)).2 hbefore
    refine ⟨by simpa using hedge, c :: name,
      blank ++ ['='], [], [], rfl, by simp, ⟨c, name, rfl, hstart, name, [], ?_⟩,
      blank, ['='], rfl, hblank, '=', [], rfl, rfl, rfl, rfl⟩
    exact ⟨(List.append_nil name).symm, hname, rfl, rfl⟩

namespace TakesAssignment

variable {c : Char} {name blank : List Char}

theorem append_eq (h : TakesAssignment before text rest gs c name blank) :
    text ++ rest = (c :: name) ++ (blank ++ '=' :: rest) := by
  rw [h.text_eq, List.cons_append, List.cons_append, List.append_assoc, List.append_assoc,
    List.singleton_append]

theorem isNameRest_name (h : TakesAssignment before text rest gs c name blank) :
    ∀ d ∈ c :: name, Text.isNameRest d = true :=
  List.forall_mem_cons.2 ⟨Text.isNameRest_of_isNameStart h.isNameStart, h.isNameRest⟩

/-- The name does not go on. -/
theorem isNameRest_behind (h : TakesAssignment before text rest gs c name blank) (d : Char)
    (hd : (blank ++ '=' :: rest).head? = some d) : Text.isNameRest d = false := by
  cases blank with
  | nil =>
      cases hd
      rfl
  | cons b blank =>
      cases hd
      exact Unicode.isNameRest_of_isWhiteSpace (h.isWhiteSpace _ List.mem_cons_self)

end TakesAssignment

/-- Within an assignment no further one starts, since no further word starts. -/
theorem apart_assignment : assignment.Apart where
  ne_nil h := by
    obtain ⟨c, name, blank, h⟩ := takes_assignment_iff.1 h
    rw [h.text_eq]
    exact List.cons_ne_nil c _
  unique {before text text' rest rest' gs gs'} h h' hsame := by
    obtain ⟨c, name, blank, h⟩ := takes_assignment_iff.1 h
    obtain ⟨c', name', blank', h'⟩ := takes_assignment_iff.1 h'
    have hsplit := hsame
    rw [h.append_eq, h'.append_eq] at hsplit
    obtain ⟨hname, htail⟩ := eq_of_run h.isNameRest_name h'.isNameRest_name h.isNameRest_behind
      h'.isNameRest_behind hsplit
    have hequals {tail : List Char} (d : Char) (hd : ('=' :: tail).head? = some d) :
        Unicode.isWhiteSpace d = false := by
      cases hd
      rfl
    obtain ⟨hblank, -⟩ := eq_of_run h.isWhiteSpace h'.isWhiteSpace hequals hequals htail
    cases hname
    exact ⟨by rw [h.text_eq, h'.text_eq, hblank], by rw [h.groups_eq, h'.groups_eq, hsame]⟩
  within {before front back rest text rest' gs gs'} h hfront hback h' := by
    intro hsame
    obtain ⟨c, name, blank, h⟩ := takes_assignment_iff.1 h
    obtain ⟨c', name', blank', h'⟩ := takes_assignment_iff.1 h'
    have hword := isWordPart_of_name h.isNameStart h.isNameRest
    obtain ⟨between, -, htail, -⟩ := exists_beyond_word
      (h.text_eq : front ++ back = (c :: name) ++ (blank ++ ['='])) hword hfront h'.endsWord
    -- the second name would start with white space or with an equals sign
    have hmem : c' ∈ blank ++ ['='] := by
      obtain ⟨d, back, rfl⟩ := List.exists_cons_of_ne_nil hback
      rw [h'.append_eq] at hsame
      rw [htail, ← (List.cons.inj hsame).1]
      simp
    have hrest := Text.isNameRest_of_isNameStart h'.isNameStart
    rcases List.mem_append.1 hmem with hmem | hmem
    · rw [Unicode.isNameRest_of_isWhiteSpace (h.isWhiteSpace c' hmem)] at hrest
      cases hrest
    · cases List.mem_singleton.1 hmem
      cases hrest

/-! ## Dates -/

/-- What the pattern of a date takes: four, two and two digits with hyphens between them. -/
structure TakesDate (before text rest : List Char) (gs : List Stretch) (year month day : List Char) :
    Prop where
  text_eq : text = year ++ '-' :: (month ++ '-' :: day)
  length_year : year.length = 4
  length_month : month.length = 2
  length_day : day.length = 2
  isDigit_year : ∀ c ∈ year, c.isDigit = true
  isDigit_month : ∀ c ∈ month, c.isDigit = true
  isDigit_day : ∀ c ∈ day, c.isDigit = true
  endsWord : EndsWord before
  endsWord' : EndsWord rest
  groups_eq : gs = [⟨⟨before, text ++ rest⟩, year⟩,
    ⟨⟨'-' :: (year.reverse ++ before), month ++ '-' :: (day ++ rest)⟩, month⟩,
    ⟨⟨'-' :: (month.reverse ++ '-' :: (year.reverse ++ before)), day ++ rest⟩, day⟩]

theorem takes_dateLiteral_iff :
    Takes dateLiteral before text rest gs ↔
      ∃ year month day, TakesDate before text rest gs year month day := by
  unfold dateLiteral
  simp only [takes_edge_cons_iff, takes_group_cons_iff, takes_one_cons_iff, takes_times_iff,
    takes_sequence_nil_iff]
  constructor
  · rintro ⟨hedge, year, -, -, -, rfl, rfl, ⟨hyear, hyears, rfl⟩, c, -, rfl, hc, month, -, -, -, rfl, rfl,
      ⟨hmonth, hmonths, rfl⟩, d, -, rfl, hd, day, -, -, -, rfl, rfl, ⟨hday, hdays, rfl⟩, hedge', rfl, rfl⟩
    rw [beq_iff_eq] at hc hd
    subst hc hd
    rw [List.append_assoc, Site.atEdge_before_word (List.ne_nil_of_length_pos (hyear ▸ by decide))
      fun c hc => Unicode.isWordPart_of_isDigit (hyears c hc)] at hedge
    rw [List.nil_append, Site.atEdge_behind_word (List.ne_nil_of_length_pos (hday ▸ by decide))
      fun c hc => Unicode.isWordPart_of_isDigit (hdays c hc)] at hedge'
    exact ⟨year, month, day, by simp, hyear, hmonth, hday, hyears, hmonths, hdays, hedge, hedge', by simp⟩
  · rintro ⟨year, month, day, rfl, hyear, hmonth, hday, hyears, hmonths, hdays, hbefore, hrest, rfl⟩
    have hedge := (@Site.atEdge_before_word before year ('-' :: (month ++ '-' :: day) ++ rest)
      (List.ne_nil_of_length_pos (hyear ▸ by decide))
      fun c hc => Unicode.isWordPart_of_isDigit (hyears c hc)).2 hbefore
    have hedge' := (@Site.atEdge_behind_word ('-' :: (month.reverse ++ '-' :: (year.reverse ++ before))) day
      rest (List.ne_nil_of_length_pos (hday ▸ by decide))
      fun c hc => Unicode.isWordPart_of_isDigit (hdays c hc)).2 hrest
    exact ⟨by simpa using hedge, year, _, [], [_, _], rfl, by simp, ⟨hyear, hyears, rfl⟩, '-', _, rfl, rfl,
      month, _, [], [_], rfl, rfl, ⟨hmonth, hmonths, rfl⟩, '-', _, rfl, rfl,
      day, [], [], [], by simp, rfl, ⟨hday, hdays, rfl⟩, by simpa using hedge', rfl, rfl⟩

namespace TakesDate

variable {year month day : List Char}

theorem append_eq (h : TakesDate before text rest gs year month day) :
    text ++ rest = year ++ '-' :: (month ++ '-' :: (day ++ rest)) := by
  rw [h.text_eq]
  simp

end TakesDate

/-- A hyphen ends the digits. -/
theorem isDigit_hyphen {rest : List Char} (c : Char) (hc : ('-' :: rest).head? = some c) :
    c.isDigit = false := by
  cases hc
  rfl

/-- Within a date no further one starts: behind a hyphen the digits of a date come to an end after two. -/
theorem apart_dateLiteral : dateLiteral.Apart where
  ne_nil h := by
    obtain ⟨year, month, day, h⟩ := takes_dateLiteral_iff.1 h
    rw [h.text_eq]
    simp
  unique {before text text' rest rest' gs gs'} h h' hsame := by
    obtain ⟨year, month, day, h⟩ := takes_dateLiteral_iff.1 h
    obtain ⟨year', month', day', h'⟩ := takes_dateLiteral_iff.1 h'
    have hsplit := hsame
    rw [h.append_eq, h'.append_eq] at hsplit
    obtain ⟨hyear, htail⟩ := List.append_inj hsplit (h.length_year.trans h'.length_year.symm)
    obtain ⟨hmonth, htail⟩ := List.append_inj (List.cons.inj htail).2
      (h.length_month.trans h'.length_month.symm)
    obtain ⟨hday, hrest⟩ := List.append_inj (List.cons.inj htail).2
      (h.length_day.trans h'.length_day.symm)
    subst hyear hmonth hday hrest
    exact ⟨h.text_eq.trans h'.text_eq.symm, by rw [h.groups_eq, h'.groups_eq, hsame]⟩
  within {before front back rest text rest' gs gs'} h hfront hback h' := by
    intro hsame
    obtain ⟨year, month, day, h⟩ := takes_dateLiteral_iff.1 h
    obtain ⟨year', month', day', h'⟩ := takes_dateLiteral_iff.1 h'
    rw [h'.append_eq] at hsame
    -- the year of the second date would be the whole of a shorter run of digits
    have hshort {run tail : List Char} (hlength : run.length = 2) (hrun : ∀ c ∈ run, c.isDigit = true)
        (hend : ∀ c, tail.head? = some c → c.isDigit = false) (h : back ++ rest = run ++ tail) : False := by
      obtain ⟨heq, -⟩ := eq_of_run h'.isDigit_year hrun isDigit_hyphen hend (hsame.symm.trans h)
      have hyear := h'.length_year
      rw [heq, hlength] at hyear
      cases hyear
    have hword {run : List Char} (hrun : ∀ c ∈ run, c.isDigit = true) (c : Char) (hc : c ∈ run) :
        Unicode.isWordPart c = true := Unicode.isWordPart_of_isDigit (hrun c hc)
    have hends := h'.endsWord
    -- the second date would start behind the year
    obtain ⟨_ | ⟨hyphen, between⟩, hne, htail, rfl⟩ :=
      exists_beyond_word h.text_eq (hword h.isDigit_year) hfront hends
    · exact hne rfl
    obtain ⟨rfl, hbehindYear⟩ := List.cons.inj htail
    by_cases hmonth : between = []
    · refine hshort h.length_month h.isDigit_month (@isDigit_hyphen (day ++ rest)) ?_
      have hback : month ++ '-' :: day = back := by rw [hbehindYear, hmonth]; rfl
      rw [← hback, List.append_assoc, List.cons_append]
    -- or behind the month
    obtain ⟨_ | ⟨hyphen', between'⟩, hne', htail', rfl⟩ :=
      exists_beyond_word hbehindYear.symm (hword h.isDigit_month) hmonth (by simpa using hends)
    · exact hne' rfl
    obtain ⟨rfl, hbehindMonth⟩ := List.cons.inj htail'
    by_cases hday : between' = []
    · refine hshort h.length_day h.isDigit_day h.endsWord'.isDigit_eq_false ?_
      rw [hbehindMonth, hday]
      rfl
    -- or behind the day, of which there is nothing
    obtain ⟨_, -, hbehindDay, -⟩ :=
      exists_beyond_word (hbehindMonth.symm.trans (List.append_nil day).symm) (hword h.isDigit_day) hday
        (by simpa using hends)
    exact hback (List.append_eq_nil_iff.1 hbehindDay.symm).2

/-! ## Words -/

/-- The text spells one of the words, up to case folding. -/
def Spells (words : List String) (text : List Char) : Prop :=
  ∃ word ∈ words, text.map Unicode.foldCase = word.toList.map Unicode.foldCase

section

variable {words : List String}

/-- Capital letters are spelled with characters of words. -/
theorem Spells.isWordPart (h : Spells words text)
    (hwords : ∀ word ∈ words, ∀ c ∈ word.toList, c.isUpper = true) :
    ∀ c ∈ text, Unicode.isWordPart c = true := by
  intro c hc
  obtain ⟨word, hword, hfold⟩ := h
  have hmem := List.mem_map_of_mem (f := Unicode.foldCase) hc
  rw [hfold] at hmem
  obtain ⟨u, hu, huc⟩ := List.mem_map.1 hmem
  exact Unicode.isWordPart_of_foldCase (hwords word hword u hu) huc.symm

theorem Spells.ne_nil (h : Spells words text) (hwords : ∀ word ∈ words, word ≠ "") : text ≠ [] := by
  rintro rfl
  obtain ⟨word, hword, hfold⟩ := h
  exact hwords word hword (String.toList_eq_nil_iff.1 (List.map_eq_nil_iff.1 hfold.symm))

variable (hne : ∀ word ∈ words, word ≠ "")
  (hwords : ∀ word ∈ words, ∀ c ∈ word.toList, c.isUpper = true)

include hne hwords

theorem takes_wholeWord_iff :
    Takes (wholeWord words) before text rest gs ↔
      Spells words text ∧ EndsWord before ∧ EndsWord rest ∧ gs = [] := by
  rw [wholeWord, takes_edge_cons_iff, takes_sequence_cons_iff]
  simp only [takes_edge_cons_iff, takes_sequence_nil_iff, takes_anyOf_iff, List.mem_map]
  constructor
  · rintro ⟨hedge, text, -, gs, -, rfl, rfl, ⟨_, ⟨word, hword, rfl⟩, hspells⟩, hedge', rfl, rfl⟩
    obtain ⟨hfold, rfl⟩ := takes_spelling_iff.1 hspells
    have hspells : Spells words text := ⟨word, hword, hfold⟩
    rw [List.append_nil] at hedge ⊢
    rw [Site.atEdge_before_word (hspells.ne_nil hne) (hspells.isWordPart hwords)] at hedge
    rw [List.nil_append, Site.atEdge_behind_word (hspells.ne_nil hne) (hspells.isWordPart hwords)] at hedge'
    exact ⟨hspells, hedge, hedge', rfl⟩
  · rintro ⟨hspells, hbefore, hrest, rfl⟩
    obtain ⟨word, hword, hfold⟩ := id hspells
    refine ⟨(Site.atEdge_before_word (hspells.ne_nil hne) (hspells.isWordPart hwords)).2 hbefore, text, [],
      [], [], (List.append_nil text).symm, rfl,
      ⟨_, ⟨word, hword, rfl⟩, takes_spelling_iff.2 ⟨hfold, rfl⟩⟩, ?_, rfl, rfl⟩
    exact (Site.atEdge_behind_word (hspells.ne_nil hne) (hspells.isWordPart hwords)).2 hrest

/-- Within a word no further one starts. -/
theorem apart_wholeWord : (wholeWord words).Apart where
  ne_nil h := ((takes_wholeWord_iff hne hwords).1 h).1.ne_nil hne
  unique {before text text' rest rest' gs gs'} h h' hsame := by
    obtain ⟨hspells, -, hrest, rfl⟩ := (takes_wholeWord_iff hne hwords).1 h
    obtain ⟨hspells', -, hrest', rfl⟩ := (takes_wholeWord_iff hne hwords).1 h'
    exact ⟨(eq_of_run (hspells.isWordPart hwords) (hspells'.isWordPart hwords) hrest hrest' hsame).1, rfl⟩
  within {before front back rest text rest' gs gs'} h hfront hback h' := by
    intro hsame
    obtain ⟨hspells, -, -, -⟩ := (takes_wholeWord_iff hne hwords).1 h
    obtain ⟨-, hends, -, -⟩ := (takes_wholeWord_iff hne hwords).1 h'
    obtain ⟨between, -, htail, -⟩ := exists_beyond_word (List.append_nil (front ++ back)).symm
      (hspells.isWordPart hwords) hfront hends
    exact hback (List.append_eq_nil_iff.1 htail.symm).2

end

end Lint

end FourthGen
