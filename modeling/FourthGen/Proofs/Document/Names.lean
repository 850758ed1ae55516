import FourthGen.Proofs.Document.Words
import FourthGen.Proofs.Parser.Framing
import FourthGen.Proofs.Symbol.Scope

set_option autoImplicit false

/-! # Declared names under the cursor

The lexer and the document have different notions of a word: a name is made of ASCII letters, digits and
underscores, a word under the cursor of letters and numbers of any script. They agree on a name that
stands alone, with no character of a word on either side (`Text.StandsAlone`). Every declared name does,
if the text has no errors: what announces it is `DEFINE`, a comma or a parenthesis, what follows is the
word of its type, and there are only blanks in between, since a comment would end with its line. -/

namespace FourthGen

/-! ## Words that stand alone -/

namespace Text

theorem isWordChar_of_isNameRest {c : Char} (h : isNameRest c = true) : isWordChar c = true := by
  have hlt := toNat_lt_of_isNameRest h
  simpa [isWordChar, Unicode.isAlphanumeric, Unicode.isAlphabetic, Unicode.isNumber, hlt, isNameRest,
    Char.isAlphanum] using h

theorem utf16Width_of_isNameRest {c : Char} (h : isNameRest c = true) : utf16Width c = 1 := by
  have hlt := toNat_lt_of_isNameRest h
  exact if_pos (by omega)

/-- No character of a name ends a line. -/
theorem ne_of_isNameRest {c : Char} (h : isNameRest c = true) : c ≠ '\n' ∧ c ≠ '\r' := by
  constructor
  · rintro rfl
    cases h
  · rintro rfl
    cases h

/-- The name is made of the characters of names, and no word goes on to its left or to its right. -/
structure StandsAlone (left name right : List Char) : Prop where
  ne_nil : name ≠ []
  chars : ∀ c ∈ name, isNameRest c = true
  before : ∀ c, left.getLast? = some c → isWordChar c = false
  behind : ∀ c, right.head? = some c → isWordChar c = false

/-- No place at or within a name lies behind a carriage return that ends a line. -/
theorem StandsAlone.not_behindReturn {left name right : List Char} (h : StandsAlone left name right)
    (k : Nat) : ¬ BehindReturn (left ++ name.take k) (name.drop k ++ right) := by
  rintro ⟨hlast, hhead⟩
  cases hrest : name.drop k with
  | cons c cs =>
      -- the second half starts within the name
      have hc : c ∈ name := List.mem_of_mem_drop (hrest ▸ List.mem_cons_self)
      rw [hrest] at hhead
      exact (ne_of_isNameRest (h.chars c hc)).1 (hhead c rfl)
  | nil =>
      -- the first half ends with the name
      obtain ⟨c, hc⟩ : ∃ c, name.getLast? = some c := ⟨_, List.getLast?_eq_some_getLast h.ne_nil⟩
      have hall : name.take k = name := List.take_of_length_le (List.drop_eq_nil_iff.1 hrest)
      rw [hall, List.getLast?_append, hc] at hlast
      cases hlast
      exact (ne_of_isNameRest (h.chars _ (List.mem_of_getLast? hc))).2 rfl

theorem utf16Length_of_isNameRest {cs : List Char} (h : ∀ c ∈ cs, isNameRest c = true) :
    utf16Length cs = cs.length := by
  induction cs with
  | nil => rfl
  | cons c cs ih =>
      rw [List.forall_mem_cons] at h
      rw [utf16Length_cons, utf16Width_of_isNameRest h.1, ih h.2, List.length_cons, Nat.add_comm]

/-- The word that ends where the first half of a text does is found on the last line of that half. -/
theorem wordEnd_lastLine {left w : List Char} (hw : ∀ c ∈ w, isNameRest c = true)
    (hleft : ∀ c, left.getLast? = some c → isWordChar c = false) :
    wordEnd (lastLine (left ++ w)) = w := by
  have hline : lastLine (left ++ w) = lastLine left ++ w :=
    lastLine_append (fun hmem => (ne_of_isNameRest (hw _ hmem)).1 rfl) left
  have hend : ∀ c, (lastLine left).getLast? = some c → isWordChar c = false := by
    intro c hc
    rw [lastLine, List.getLast?_reverse, List.head?_takeWhile, Option.filter_eq_some_iff,
      List.head?_reverse] at hc
    exact hleft c hc.1
  rw [hline]
  exact wordEnd_append (fun c hc => isWordChar_of_isNameRest (hw c hc)) hend

theorem head?_dropReturn {line : List Char} {c : Char} (h : (dropReturn line).head? = some c) :
    line.head? = some c := by
  unfold dropReturn at h
  split at h
  · rw [List.head?_dropLast] at h
    split at h
    · exact h
    · cases h
  · exact h

/-- The word that starts where the second half of a text does is found on the first line of that half. -/
theorem wordStart_restOfLine {w right : List Char} (hw : ∀ c ∈ w, isNameRest c = true)
    (hright : ∀ c, right.head? = some c → isWordChar c = false) :
    wordStart (dropReturn (restOfLine (w ++ right))) = w := by
  have hline : restOfLine (w ++ right) = w ++ restOfLine right :=
    List.takeWhile_append_of_pos fun c hc => by simpa using (ne_of_isNameRest (hw c hc)).1
  have hreturn : dropReturn (w ++ restOfLine right) = w ++ dropReturn (restOfLine right) := by
    by_cases hnil : restOfLine right = []
    · have hlast : w.getLast? ≠ some '\r' := by
        intro hlast
        exact (ne_of_isNameRest (hw _ (List.mem_of_getLast? hlast))).2 rfl
      rw [hnil, List.append_nil, dropReturn, if_neg hlast]
      simp [dropReturn]
    · exact dropReturn_append hnil w
  have hend : ∀ c, (dropReturn (restOfLine right)).head? = some c → isWordChar c = false := by
    intro c hc
    have hhead := head?_dropReturn hc
    rw [restOfLine, List.head?_takeWhile, Option.filter_eq_some_iff] at hhead
    exact hright c hhead.1
  rw [hline, hreturn]
  exact wordStart_append (fun c hc => isWordChar_of_isNameRest (hw c hc)) hend

end Text

/-- A name is passed on its line, each character by one column. -/
theorem Position.after_of_isNameRest {w : List Char} (hw : ∀ c ∈ w, Text.isNameRest c = true)
    (p : Position) : p.after w = ⟨p.line, p.character + w.length⟩ := by
  induction w generalizing p with
  | nil => rfl
  | cons c w ih =>
      rw [List.forall_mem_cons] at hw
      rw [after_cons, ih hw.2, advance, if_neg (Text.ne_of_isNameRest hw.1).1,
        Text.utf16Width_of_isNameRest hw.1, List.length_cons]
      show (⟨p.line, p.character + 1 + w.length⟩ : Position) = ⟨p.line, p.character + (w.length + 1)⟩
      rw [Nat.add_assoc, Nat.add_comm 1]

namespace Document

open Text

/-- A name that stands alone is found at every column from its start to its end. -/
theorem found_of_standsAlone {d : Document} {left name right : List Char}
    (hd : d.text.toList = left ++ (name ++ right)) (h : StandsAlone left name right) {k : Nat}
    (hk : k ≤ name.length) :
    let start := Position.zero.after left
    let p : Position := ⟨start.line, start.character + k⟩
    d.wordAt? p = some (String.ofList name) ∧ d.stemAt? p = some (String.ofList (name.take k)) := by
  intro start p
  have htake : ∀ c ∈ name.take k, isNameRest c = true := fun c hc => h.chars c (List.mem_of_mem_take hc)
  have hdrop : ∀ c ∈ name.drop k, isNameRest c = true := fun c hc => h.chars c (List.mem_of_mem_drop hc)
  have hsplit : d.text.toList = (left ++ name.take k) ++ (name.drop k ++ right) := by
    rw [hd, List.append_assoc, ← List.append_assoc (name.take k), List.take_append_drop]
  have hp : Position.zero.after (left ++ name.take k) = p := by
    rw [Position.after_append, Position.after_of_isNameRest htake, List.length_take, Nat.min_eq_left hk]
  have hline := line?_of_split hsplit (h.not_behindReturn k)
  rw [Position.after_zero] at hp
  rw [wordAt?, stemAt?, ← hp, hline]
  have hhalves := splitAtColumn_utf16Length (lastLine (left ++ name.take k))
    (dropReturn (restOfLine (name.drop k ++ right)))
  have hend := wordEnd_lastLine htake h.before
  have hword : wordAt (utf16Length (lastLine (left ++ name.take k)))
      (lastLine (left ++ name.take k) ++ dropReturn (restOfLine (name.drop k ++ right))) = name := by
    simp only [wordAt, hhalves, hend, wordStart_restOfLine hdrop h.behind, List.take_append_drop]
  constructor
  · simp [hword, h.ne_nil]
  · rw [Option.map_some, stemAt, hhalves, hend]

end Document

/-! ## Declared names stand alone -/

/-- Before a token on the same line there are only blanks. -/
theorem Gap.blanks {gap rest : List Char} (h : Gap gap rest)
    (hrest : ∃ d, rest.head? = some d ∧ d ≠ '\n') : ∀ c ∈ gap, c = ' ' ∨ c = '\t' ∨ c = '\r' := by
  induction h with
  | nil => simp
  | blank hc _ ih =>
      rw [List.forall_mem_cons]
      exact ⟨hc, ih hrest⟩
  | @comment body gap rest hs hb he h ih =>
      -- a comment would have a line feed behind it
      exfalso
      obtain ⟨d, hd, hne⟩ := hrest
      cases gap with
      | nil => exact hne (he d hd)
      | cons c gap =>
          have hblank := ih ⟨d, hd, hne⟩ c List.mem_cons_self
          rw [he c rfl] at hblank
          revert hblank
          decide

theorem Text.isWordChar_of_blank {c : Char} (h : c = ' ' ∨ c = '\t' ∨ c = '\r') :
    isWordChar c = false := by
  rcases h with rfl | rfl | rfl <;> rfl

/-- A character of a name stands at the front. -/
def StartsName (cs : List Char) : Prop := ∃ d, cs.head? = some d ∧ Text.isNameRest d = true

theorem StartsName.gap_blank {gap rest : List Char} (h : StartsName rest) (hgap : Gap gap rest) :
    ∀ c ∈ gap, Text.isWordChar c = false := by
  obtain ⟨d, hd, hname⟩ := h
  intro c hc
  exact Text.isWordChar_of_blank (hgap.blanks ⟨d, hd, (Text.ne_of_isNameRest hname).1⟩ c hc)

namespace TokenForm

variable {kind : TokenKind} {part gap rest : List Char}

/-- An identifier is as long as there are characters of names. -/
theorem identifier (h : TokenForm .identifier part rest) :
    (∀ c ∈ part, Text.isNameRest c = true) ∧
      ∀ d, rest.head? = some d → Text.isNameRest d = false := by
  cases h with
  | word hc hcs hend _ =>
      exact ⟨List.forall_mem_cons.2 ⟨Text.isNameRest_of_isNameStart hc, hcs⟩, hend⟩

/-- A type starts with a character of a name. -/
theorem startsName_of_startsType (h : TokenForm kind part rest) (hk : kind.startsType = true) :
    StartsName (part ++ rest) := by
  cases h with
  | word hc _ _ _ => exact ⟨_, rfl, Text.isNameRest_of_isNameStart hc⟩
  | _ => cases hk

/-- A token right before a name, if it announces names, ends with no character of a word. -/
theorem getLast_of_announcesName (h : TokenForm kind part rest) (hk : kind.announcesName = true)
    (hrest : StartsName rest) : ∀ c, part.getLast? = some c → Text.isWordChar c = false := by
  cases h with
  | word _ _ hend _ =>
      -- a word would go on with the name
      obtain ⟨d, hd, hname⟩ := hrest
      rw [hend d hd] at hname
      cases hname
  | @symbol mark rest hmax =>
      intro c hc
      cases mark with
      | comma =>
          cases hc
          rfl
      | leftParen =>
          cases hc
          rfl
      | _ => cases hk
  | _ => cases hk

/-- To the left of a declared name no word goes on. -/
theorem before_name (h : TokenForm kind part (gap ++ rest)) (hk : kind.announcesName = true)
    (hgap : Gap gap rest) (hrest : StartsName rest) :
    ∀ c, (part ++ gap).getLast? = some c → Text.isWordChar c = false := by
  intro c hc
  cases hlast : gap.getLast? with
  | none =>
      rw [List.getLast?_eq_none_iff] at hlast
      subst hlast
      rw [List.append_nil] at hc
      exact h.getLast_of_announcesName hk hrest c hc
  | some d =>
      rw [List.getLast?_append, hlast] at hc
      cases hc
      exact hrest.gap_blank hgap c (List.mem_of_getLast? hlast)

/-- To the right of a name, with a type behind it, no word goes on. -/
theorem behind_name (h : TokenForm .identifier part (gap ++ rest)) (hgap : Gap gap rest)
    (hrest : StartsName rest) : ∀ c, (gap ++ rest).head? = some c → Text.isWordChar c = false := by
  intro c hc
  cases gap with
  | nil =>
      obtain ⟨d, hd, hname⟩ := hrest
      rw [h.identifier.2 d hd] at hname
      cases hname
  | cons b gap =>
      cases hc
      exact hrest.gap_blank hgap c List.mem_cons_self

end TokenForm

/-- A declared name stands alone, where its variable starts. -/
theorem standsAlone_of_framed {text : String} {v : Variable Range} (h : v.FramedIn (tokenize text)) :
    ∃ left name right, text.toList = left ++ (name ++ right) ∧ Text.StandsAlone left name right ∧
      v.name = String.ofList name ∧ v.range.start = Position.zero.after left := by
  obtain ⟨us, p, x, y, ws, htokens, hp, hx, hname, hstart, hy⟩ := h
  obtain ⟨left, rest, htext, hheads⟩ := tokenize_behind htokens
  -- one after the other, the token that announces the name, the name and its type are taken off
  generalize hxs : x :: y :: ws = xs at hheads
  cases hheads with
  | done => cases hxs
  | @token gap part rest kind hgap hform =>
    generalize hys : y :: ws = ys at hxs
    cases Location.heads_of_place hxs.symm with
    | done => cases hys
    | @token gap' name rest' kind' hgap' hform' =>
      cases Location.heads_of_place hys.symm with
      | done => cases hy
      | @token gap'' type rest'' kind'' hgap'' hform'' =>
        obtain rfl : kind' = .identifier := hx
        have htype := hform''.startsName_of_startsType hy
        have hstarts : StartsName (name ++ (gap'' ++ (type ++ rest''))) := by
          obtain ⟨c, cs, rfl⟩ := List.exists_cons_of_ne_nil hform'.ne_nil
          exact ⟨c, rfl, hform'.identifier.1 c List.mem_cons_self⟩
        refine ⟨left ++ gap ++ (part ++ gap'), name, gap'' ++ (type ++ rest''), by simpa using htext,
          ⟨hform'.ne_nil, hform'.identifier.1, ?_, hform'.behind_name hgap'' htype⟩, hname.symm, ?_⟩
        · have hne : part ++ gap' ≠ [] := List.append_ne_nil_of_left_ne_nil hform.ne_nil gap'
          rw [List.getLast?_append_of_ne_nil _ hne]
          exact hform.before_name hp hgap' hstarts
        · rw [← hstart]
          show (((Location.zero.after left).after (gap ++ part)).after gap').position = _
          rw [← Location.after_append, ← Location.after_append]
          simp only [List.append_assoc]
          rfl

/-- In a text without errors, every declared name is found under the cursor: from the column where the
    symbol starts up to the end of its name, both included, the word at the cursor is the name, and the
    part of it that stands left of the cursor is found, too. A name has as many columns as characters. -/
theorem name_found_of_no_errors (d : Document) (id : DocumentId) (h : (parse d.text).errors = []) :
    ∀ s ∈ Symbol.ofItems id (parse d.text).items, s.kind.isValue = true →
      Text.utf16Length s.name.toList = s.name.length ∧
      ∀ k ≤ s.name.length,
        d.wordAt? ⟨s.range.start.line, s.range.start.character + k⟩ = some s.name ∧
        d.stemAt? ⟨s.range.start.line, s.range.start.character + k⟩ =
          some (String.ofList (s.name.toList.take k)) := by
  intro s hs hvalue
  obtain ⟨item, hitem, hs⟩ := List.mem_flatMap.1 (List.mem_filter.1 hs).1
  have hdeclared : ∃ v ∈ item.declared, s.range = v.range ∧ s.name = v.name := by
    rw [Symbol.ofItem_eq] at hs
    rcases List.mem_append.1 hs with hs | hs
    · have hcallable := (Symbol.routine?_spec (Option.mem_toList.1 hs)).2.2.1
      rw [SymbolKind.isValue, hcallable] at hvalue
      cases hvalue
    · exact (Symbol.exists_of_mem_values hs).2
  obtain ⟨v, hv, hrange, hname⟩ := hdeclared
  obtain ⟨left, name, right, htext, halone, hvname, hstart⟩ :=
    standsAlone_of_framed (parse_frames h hitem hv)
  rw [hrange, hstart, hname, hvname, String.toList_ofList, String.length_ofList]
  refine ⟨Text.utf16Length_of_isNameRest halone.chars, ?_⟩
  intro k hk
  exact Document.found_of_standsAlone htext halone hk

/-- The second name behind a literal with a character that takes two columns, with the cursor in it. -/
theorem name_found_behind_literal :
    let d : Document := ⟨"file:///a.4gl", 1, "LET s = \"😀\"; DEFINE total CHAR(8), b2\tDATE"⟩
    (parse d.text).errors = [] ∧ d.wordAt? ⟨0, 37⟩ = some "b2" ∧ d.stemAt? ⟨0, 37⟩ = some "b" := by
  intro d
  have herrors : (parse d.text).errors = [] := by decide +kernel
  have hsymbol : ∃ s ∈ Symbol.ofItems ⟨0⟩ (parse d.text).items, s.kind.isValue = true ∧
      s.name = "b2" ∧ s.range.start = ⟨0, 36⟩ := by decide +kernel
  obtain ⟨s, hs, hvalue, hname, hstart⟩ := hsymbol
  have hfound := (name_found_of_no_errors d ⟨0⟩ herrors s hs hvalue).2 1 (by rw [hname]; decide)
  rw [hname, hstart] at hfound
  exact ⟨herrors, hfound⟩

end FourthGen
