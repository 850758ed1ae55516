import FourthGen.Completion
import FourthGen.Proofs.Document.Lines
import FourthGen.Proofs.Document.Numbering
import Mathlib.Data.List.Induction

set_option autoImplicit false

/-! # What is offered

Completions are made in one pass that leaves out candidates with another start and remembers labels that
it has met. It does not matter that both is done at once: whether a candidate has the right start depends
on its label alone, so two that would show as the same are kept or left out together, and the candidates
that are remembered answer the same questions as all the candidates before (`distinctFrom_filter`,
`distinctFrom_eq_zipIdx`). -/

namespace FourthGen

/-! ## Whole words of a line -/

namespace Text

/-- The part `w` of a text is a longest stretch without what divides the text. -/
structure IsPiece (sep : Char → Bool) (left w right : List Char) : Prop where
  inside : ∀ c ∈ w, sep c = false
  before : ∀ c, left.getLast? = some c → sep c = true
  behind : ∀ c, right.head? = some c → sep c = true

theorem exists_isPiece_of_mem {sep : Char → Bool} {cs w : List Char} (h : w ∈ cs.splitOnP sep) :
    ∃ left right, cs = left ++ (w ++ right) ∧ IsPiece sep left w right := by
  induction hlength : cs.length using Nat.strongRecOn generalizing cs with
  | ind n ih =>
      cases hfind : cs.find? sep with
      | none =>
          have hall : ∀ c ∈ cs, sep c = false := by simpa using List.find?_eq_none.1 hfind
          rw [List.splitOnP_eq_singleton hall, List.mem_singleton] at h
          exact ⟨[], [], by simp [h], h ▸ hall, by simp, by simp⟩
      | some s =>
          -- the first piece, or one of those behind it
          obtain ⟨hs, run, rest, rfl, hrun⟩ := List.find?_eq_some_iff_append.1 hfind
          have hrun : ∀ c ∈ run, sep c = false := by simpa using hrun
          rw [List.splitOnP_append_cons_of_forall_mem hrun s hs, List.mem_cons] at h
          rcases h with rfl | h
          · exact ⟨[], s :: rest, rfl, hrun, by simp, by simp [hs]⟩
          · have hlt : rest.length < n := by
              rw [← hlength, List.length_append, List.length_cons]
              omega
            obtain ⟨left, right, rfl, hpiece⟩ := ih _ hlt h rfl
            refine ⟨run ++ s :: left, right, by simp, hpiece.inside, ?_, hpiece.behind⟩
            intro c hc
            rw [List.getLast?_append, List.getLast?_cons, Option.some_or] at hc
            cases hlast : left.getLast? with
            | none =>
                rw [hlast] at hc
                cases hc
                exact hs
            | some d =>
                rw [hlast] at hc
                cases hc
                exact hpiece.before _ hlast

theorem IsPiece.mem_splitOnP {sep : Char → Bool} {left w right : List Char}
    (h : IsPiece sep left w right) : w ∈ (left ++ (w ++ right)).splitOnP sep := by
  have hfirst : w ∈ (w ++ right).splitOnP sep := by
    cases right with
    | nil =>
        rw [List.append_nil, List.splitOnP_eq_singleton h.inside]
        exact List.mem_singleton_self w
    | cons s right =>
        rw [List.splitOnP_append_cons_of_forall_mem h.inside s (h.behind s rfl)]
        exact List.mem_cons_self
  cases left using List.reverseRecOn with
  | nil => exact hfirst
  | append_singleton left s =>
      have hs : sep s = true := h.before s (by simp)
      rw [List.append_assoc, List.singleton_append, List.splitOnP_append_cons _ _ hs]
      exact List.mem_append_right _ hfirst

theorem mem_divide_iff {sep : Char → Bool} {cs w : List Char} :
    w ∈ divide sep cs ↔ ∃ left right, cs = left ++ (w ++ right) ∧ IsPiece sep left w right := by
  rw [divide_eq_splitOnP]
  constructor
  · exact exists_isPiece_of_mem
  · rintro ⟨left, right, rfl, hpiece⟩
    exact hpiece.mem_splitOnP

/-- The word stands in the line as a whole word, in some letter case: what is read as the word goes on
    neither to its left nor to its right. -/
def HasWord (line : List Char) (word : String) : Prop :=
  ∃ left w right, line = left ++ (w ++ right) ∧ sameWord (String.ofList w) word = true ∧
    (∀ c ∈ w, isWordChar c = true) ∧ (∀ c, left.getLast? = some c → isWordChar c = false) ∧
    ∀ c, right.head? = some c → isWordChar c = false

theorem hasWord_iff {line : List Char} {word : String} :
    HasWord line word ↔ ∃ w ∈ words line, sameWord (String.ofList w) word = true := by
  simp only [words, mem_divide_iff]
  constructor
  · rintro ⟨left, w, right, hline, hsame, hw, hleft, hright⟩
    exact ⟨w, ⟨left, right, hline, by simpa using hw, by simpa using hleft, by simpa using hright⟩, hsame⟩
  · rintro ⟨w, ⟨left, right, hline, hpiece⟩, hsame⟩
    refine ⟨left, w, right, hline, hsame, ?_, ?_, ?_⟩
    · simpa using hpiece.inside
    · simpa using hpiece.before
    · simpa using hpiece.behind

instance (line : List Char) (word : String) : Decidable (HasWord line word) :=
  decidable_of_iff _ hasWord_iff.symm

end Text

theorem Completion.lineHasAny_iff {words : List String} {line : List Char} :
    lineHasAny words line = true ↔ ∃ word ∈ words, Text.HasWord line word := by
  simp only [lineHasAny, List.any_eq_true, Text.hasWord_iff]
  constructor
  · rintro ⟨w, hw, word, hword, hsame⟩
    exact ⟨word, hword, w, hw, hsame⟩
  · rintro ⟨word, hword, w, hw, hsame⟩
    exact ⟨w, hw, word, hword, hsame⟩

/-! ## The first of each label and kind -/

namespace Completion

theorem sameOffer_iff {c d : Completion} :
    sameOffer c d = true ↔ c.label = d.label ∧ c.kind = d.kind := by
  rw [sameOffer, Bool.and_eq_true, beq_iff_eq, beq_iff_eq]

theorem sameOffer_comm (c d : Completion) : sameOffer c d = sameOffer d c := by
  rw [sameOffer, sameOffer, @Bool.beq_comm _ _ _ c.label, @Bool.beq_comm _ _ _ c.kind]

/-- What shows as the same is compared alike with all others. -/
theorem sameOffer_congr {c d : Completion} (h : sameOffer c d = true) (e : Completion) :
    sameOffer c e = sameOffer d e := by
  rw [sameOffer_iff] at h
  rw [sameOffer, sameOffer, h.1, h.2]

section

variable {q : Completion → Bool} (hq : ∀ c d, sameOffer c d = true → q c = q d)

include hq

/-- A test that does not tell apart what shows as the same can be made before or after. What has been met
    may differ in what does not pass the test. -/
theorem distinctFrom_filter {seen met : List Completion}
    (h : ∀ c, q c = true → seen.any (sameOffer c) = met.any (sameOffer c)) (cs : List Completion) :
    distinctFrom seen (cs.filter q) = (distinctFrom met cs).filter q := by
  induction cs generalizing seen met with
  | nil => rfl
  | cons c cs ih =>
      by_cases hc : q c = true
      · rw [List.filter_cons_of_pos hc, distinctFrom, distinctFrom, h c hc]
        split
        · exact ih h
        · rw [List.filter_cons_of_pos hc, ih]
          intro d hd
          rw [List.any_cons, List.any_cons, h d hd]
      · rw [List.filter_cons_of_neg hc, distinctFrom]
        split
        · exact ih h
        · rw [List.filter_cons_of_neg hc]
          refine ih ?_
          intro d hd
          have hne : sameOffer d c = false := by
            rw [Bool.eq_false_iff]
            intro hsame
            exact hc ((hq d c hsame).symm.trans hd)
          rw [List.any_cons, hne, Bool.false_or]
          exact h d hd

theorem distinct_filter (cs : List Completion) : distinct (cs.filter q) = (distinct cs).filter q :=
  distinctFrom_filter hq (fun _ _ => rfl) cs

end

/-- A completion is kept if no earlier one shows as the same. `before` is what precedes the list, of
    which `seen` remembers the first of each label and kind. -/
theorem distinctFrom_eq_zipIdx {seen before : List Completion}
    (h : ∀ c, seen.any (sameOffer c) = before.any (sameOffer c)) (cs : List Completion) :
    distinctFrom seen cs =
      ((cs.zipIdx before.length).filter
        fun x => !((before ++ cs).take x.2).any (sameOffer x.1)).map (·.1) := by
  induction cs generalizing seen before with
  | nil => rfl
  | cons c cs ih =>
      have hrest {seen' : List Completion}
          (h' : ∀ d, seen'.any (sameOffer d) = (before ++ [c]).any (sameOffer d)) :
          distinctFrom seen' cs = ((cs.zipIdx (before.length + 1)).filter
            fun x => !((before ++ c :: cs).take x.2).any (sameOffer x.1)).map (·.1) := by
        rw [ih h', List.length_append, List.length_singleton, List.append_assoc, List.singleton_append]
      rw [distinctFrom, List.zipIdx_cons, List.filter_cons]
      simp only [List.take_left, h c]
      by_cases hc : before.any (sameOffer c) = true
      · -- what is left out adds nothing to the questions that `before` answers
        rw [if_pos hc, if_neg (by simp [hc])]
        refine hrest ?_
        intro d
        rw [h d, List.any_append, List.any_cons, List.any_nil, Bool.or_false]
        by_cases hsame : sameOffer d c = true
        · have hmet : before.any (sameOffer d) = true := by
            obtain ⟨e, he, hce⟩ := List.any_eq_true.1 hc
            exact List.any_eq_true.2 ⟨e, he, (sameOffer_congr hsame e).trans hce⟩
          rw [hmet, Bool.true_or]
        · rw [Bool.eq_false_iff.2 hsame, Bool.or_false]
      · rw [if_neg hc, if_pos (by simpa using hc), List.map_cons, hrest]
        intro d
        rw [List.any_cons, h d, List.any_append, List.any_cons, List.any_nil, Bool.or_false,
          Bool.or_comm]

/-- What passes a test, the first of each label and kind: no earlier one has the same. -/
theorem filter_distinct_eq_zipIdx (q : Completion → Bool) (cs : List Completion) :
    (distinct cs).filter q = (cs.zipIdx.filter fun x =>
      q x.1 && !(cs.take x.2).any fun d => x.1.label == d.label && x.1.kind == d.kind).map (·.1) := by
  rw [distinct, @distinctFrom_eq_zipIdx [] [] (fun _ => rfl), List.filter_map, List.filter_filter]
  rfl

/-- Nothing that is kept has been met, and no two that are kept show as the same. -/
theorem pairwise_distinctFrom (seen cs : List Completion) :
    (∀ c ∈ distinctFrom seen cs, seen.any (sameOffer c) = false) ∧
      (distinctFrom seen cs).Pairwise fun c d => sameOffer c d = false := by
  fun_induction distinctFrom seen cs with
  | case1 seen => exact ⟨by simp, .nil⟩
  | case2 seen c rest hc ih => exact ih
  | case3 seen c rest hc ih =>
      -- what is kept of the rest is neither the first one nor has it been met before
      have hnew (d : Completion) (hd : d ∈ distinctFrom (c :: seen) rest) :
          sameOffer d c = false ∧ seen.any (sameOffer d) = false := by
        have hnone := ih.1 d hd
        rwa [List.any_cons, Bool.or_eq_false_iff] at hnone
      refine ⟨List.forall_mem_cons.2 ⟨Bool.eq_false_iff.2 hc, fun d hd => (hnew d hd).2⟩,
        List.pairwise_cons.2 ⟨?_, ih.2⟩⟩
      intro d hd
      rw [sameOffer_comm]
      exact (hnew d hd).1

theorem sublist_distinctFrom (seen cs : List Completion) : (distinctFrom seen cs).Sublist cs := by
  fun_induction distinctFrom seen cs with
  | case1 seen => exact .slnil
  | case2 seen c rest hc ih => exact ih.cons c
  | case3 seen c rest hc ih => exact ih.cons_cons c

/-- Of all that has not been met something is kept that shows as the same. -/
theorem exists_mem_distinctFrom {seen cs : List Completion} {c : Completion} (hc : c ∈ cs)
    (hseen : seen.any (sameOffer c) = false) : ∃ d ∈ distinctFrom seen cs, sameOffer c d = true := by
  fun_induction distinctFrom seen cs with
  | case1 seen => cases hc
  | case2 seen first rest hfirst ih =>
      rcases List.mem_cons.1 hc with rfl | hc
      · rw [hseen] at hfirst
        cases hfirst
      · exact ih hc hseen
  | case3 seen first rest hfirst ih =>
      by_cases hsame : sameOffer c first = true
      · exact ⟨first, List.mem_cons_self, hsame⟩
      · rcases List.mem_cons.1 hc with rfl | hc
        · exact absurd (sameOffer_iff.2 ⟨rfl, rfl⟩) hsame
        · obtain ⟨d, hd, hcd⟩ := ih hc (by rw [List.any_cons, Bool.eq_false_iff.2 hsame, hseen]; rfl)
          exact ⟨d, List.mem_cons_of_mem _ hd, hcd⟩

/-! ## The order of the groups -/

/-- The candidates group by group. -/
def sections (index : SymbolIndex) (id : DocumentId) (p : Position) (line : List Char) :
    List (Group × List Completion) :=
  [(.functions, index.functions.map ofFunction), (.procedures, index.procedures.map ofProcedure),
    (.values, (index.variablesInScope id p).map ofValue), (.keywords, wordCandidates line),
    (.builtins, Builtin.all.map ofBuiltin)]

theorem candidates_eq_flatMap (index : SymbolIndex) (id : DocumentId) (p : Position)
    (line : List Char) : candidates index id p line = (sections index id p line).flatMap (·.2) := by
  simp [candidates, sections]

theorem exists_of_mem_wordCandidates {line : List Char} {c : Completion}
    (h : c ∈ wordCandidates line) : ∃ detail word, c = ofWord detail word := by
  have hmap {detail : String} {words : List String} (hc : c ∈ words.map (ofWord detail)) :
      ∃ detail word, c = ofWord detail word := by
    obtain ⟨word, -, rfl⟩ := List.mem_map.1 hc
    exact ⟨detail, word, rfl⟩
  rw [wordCandidates, List.mem_append, List.mem_append] at h
  rcases h with (h | h) | h
  · obtain ⟨k, -, rfl⟩ := List.mem_map.1 h
    exact ⟨"Keyword", k.spelling, rfl⟩
  · split at h
    · exact hmap h
    · cases h
  · split at h
    · exact hmap h
    · cases h

theorem sortKey_of_mem_sections {index : SymbolIndex} {id : DocumentId} {p : Position}
    {line : List Char} {part : Group × List Completion} (hpart : part ∈ sections index id p line)
    {c : Completion} (hc : c ∈ part.2) : c.sortKey = sortKeyOf part.1 c.label := by
  have hmap {α : Type} {group : Group} {make : α → Completion} {xs : List α}
      (hmake : ∀ x, (make x).sortKey = sortKeyOf group (make x).label) (hc : c ∈ xs.map make) :
      c.sortKey = sortKeyOf group c.label := by
    obtain ⟨x, -, rfl⟩ := List.mem_map.1 hc
    exact hmake x
  simp only [sections, List.mem_cons, List.not_mem_nil, or_false] at hpart
  rcases hpart with rfl | rfl | rfl | rfl | rfl
  · exact hmap (fun _ => rfl) hc
  · exact hmap (fun _ => rfl) hc
  · exact hmap (fun _ => rfl) hc
  · obtain ⟨detail, word, rfl⟩ := exists_of_mem_wordCandidates hc
    rfl
  · exact hmap (fun _ => rfl) hc

/-- The sort keys of both start with the rank of a group, and the first rank is not above the second. -/
def InOrderOfGroups (c d : Completion) : Prop :=
  ∃ g h : Group, g.rank ≤ h.rank ∧ c.sortKey = sortKeyOf g c.label ∧ d.sortKey = sortKeyOf h d.label

theorem pairwise_candidates (index : SymbolIndex) (id : DocumentId) (p : Position)
    (line : List Char) : (candidates index id p line).Pairwise InOrderOfGroups := by
  have hranks : (sections index id p line).Pairwise fun a b => a.1.rank ≤ b.1.rank := by
    simp [sections, Group.rank]
  rw [candidates_eq_flatMap]
  refine List.pairwise_flatMap.2 ⟨?_, ?_⟩
  · intro part hpart
    refine List.pairwise_of_forall_mem_list fun c hc d hd => ?_
    exact ⟨part.1, part.1, Nat.le_refl _, sortKey_of_mem_sections hpart hc,
      sortKey_of_mem_sections hpart hd⟩
  · refine hranks.imp_of_mem fun {a b} ha hb hab c hc d hd => ?_
    exact ⟨a.1, b.1, hab, sortKey_of_mem_sections ha hc, sortKey_of_mem_sections hb hd⟩

end Completion

/-! ## The order of the documents -/

namespace SymbolIndex

/-- The indexes that come about: tables are put in and taken out. -/
inductive Built : SymbolIndex → Prop
  | empty : Built empty
  | update {index : SymbolIndex} (h : Built index) (id : DocumentId) (table : List Symbol) :
      Built (index.update id table)
  | erase {index : SymbolIndex} (h : Built index) (id : DocumentId) : Built (index.erase id)

/-- The tables stand in the order of their documents' numbers. -/
theorem Built.pairwise_tables {index : SymbolIndex} (h : index.Built) :
    index.tables.Pairwise (·.1.number < ·.1.number) := by
  induction h with
  | empty => exact .nil
  | update _ id table ih => exact DocumentId.pairwise_insert ih
  | erase _ id ih => exact ih.filter _

end SymbolIndex

/-! ## Completions -/

namespace Completion

theorem candidates_eq (index : SymbolIndex) (id : DocumentId) (p : Position) (line : List Char) :
    candidates index id p line =
      (index.tables.flatMap fun e => e.2.filter (·.kind == .function)).map ofFunction ++
      (index.tables.flatMap fun e => e.2.filter (·.kind == .procedure)).map ofProcedure ++
      (index.variablesInScope id p).map ofValue ++
      Keyword.all.map (fun k => ofWord "Keyword" k.spelling) ++
      (if ∃ word ∈ sqlTriggers, Text.HasWord line word then sqlContextWords.map (ofWord "SQL Keyword")
        else []) ++
      (if ∃ word ∈ formTriggers, Text.HasWord line word then
        formContextWords.map (ofWord "Form Keyword") else []) ++
      Builtin.all.map ofBuiltin := by
  simp only [candidates, wordCandidates, SymbolIndex.functions, SymbolIndex.procedures,
    SymbolIndex.ofKind, SymbolIndex.all, List.filter_flatMap, lineHasAny_iff, List.append_assoc]

/-- The start of a label does not tell apart what shows as the same. -/
theorem startsWithFold_congr (stem : String) (c d : Completion) (h : sameOffer c d = true) :
    Text.startsWithFold stem c.label = Text.startsWithFold stem d.label := by
  rw [(sameOffer_iff.1 h).1]

theorem completions_eq_filter (index : SymbolIndex) (document : Document) (id : DocumentId)
    (p : Position) :
    completions index document id p =
      (distinct (candidates index id p ((document.line? p.line).getD []))).filter
        (Text.startsWithFold ((document.stemAt? p).getD "") ·.label) :=
  distinct_filter (startsWithFold_congr _) _

end Completion

/-- The completions at a position are those candidates that start with what stands left of it, in any
    letter case, and of which no earlier one has the same label and kind. Candidates are the functions of
    all documents, table by table, the procedures, the variables in scope, the reserved words, the words
    of use on the line, and the functions that come with the language. So no two completions agree in
    label and kind, no label with the right start is lost, the groups of the sort keys follow each
    other, and what is offered for a start is what is offered for none, if it has that start. -/
theorem completions_first_matching (index : SymbolIndex) (document : Document) (id : DocumentId)
    (p : Position) :
    let line := (document.line? p.line).getD []
    let stem := (document.stemAt? p).getD ""
    let ofKind (kind : SymbolKind) := index.tables.flatMap fun e => e.2.filter (·.kind == kind)
    let all := (ofKind .function).map Completion.ofFunction ++
      (ofKind .procedure).map Completion.ofProcedure ++
      (index.variablesInScope id p).map Completion.ofValue ++
      Keyword.all.map (fun k => Completion.ofWord "Keyword" k.spelling) ++
      (if ∃ word ∈ sqlTriggers, Text.HasWord line word then
        sqlContextWords.map (Completion.ofWord "SQL Keyword") else []) ++
      (if ∃ word ∈ formTriggers, Text.HasWord line word then
        formContextWords.map (Completion.ofWord "Form Keyword") else []) ++
      Builtin.all.map Completion.ofBuiltin
    let offered := completions index document id p
    (index.Built → index.tables.Pairwise (·.1.number < ·.1.number)) ∧
    offered = (all.zipIdx.filter fun x => Text.startsWithFold stem x.1.label &&
      !(all.take x.2).any fun d => x.1.label == d.label && x.1.kind == d.kind).map (·.1) ∧
    offered.Pairwise (fun c d => c.label = d.label → c.kind ≠ d.kind) ∧
    (∀ c ∈ all, Text.startsWithFold stem c.label = true →
      ∃ d ∈ offered, d.label = c.label ∧ d.kind = c.kind) ∧
    offered.Pairwise Completion.InOrderOfGroups ∧
    ∀ (document' : Document) (id' : DocumentId) (p' : Position),
      (document'.stemAt? p').getD "" = "" →
      index.variablesInScope id' p' = index.variablesInScope id p →
      (∀ triggers ∈ [sqlTriggers, formTriggers],
        (∃ word ∈ triggers, Text.HasWord ((document'.line? p'.line).getD []) word) ↔
          ∃ word ∈ triggers, Text.HasWord line word) →
      offered = (completions index document' id' p').filter (Text.startsWithFold stem ·.label) := by
  intro line stem ofKind all offered
  have hall : Completion.candidates index id p line = all := Completion.candidates_eq index id p line
  have hoffered : offered = (Completion.distinct all).filter (Text.startsWithFold stem ·.label) := by
    rw [← hall]
    exact Completion.completions_eq_filter index document id p
  have hsub : offered.Sublist all := by
    rw [hoffered]
    exact List.filter_sublist.trans (Completion.sublist_distinctFrom [] all)
  refine ⟨SymbolIndex.Built.pairwise_tables, ?_, ?_, ?_, ?_, ?_⟩
  · rw [hoffered]
    exact Completion.filter_distinct_eq_zipIdx _ all
  · rw [hoffered]
    refine ((Completion.pairwise_distinctFrom [] all).2.filter _).imp ?_
    intro c d hcd hlabel hkind
    rw [Completion.sameOffer_iff.2 ⟨hlabel, hkind⟩] at hcd
    cases hcd
  · intro c hc hstem
    obtain ⟨d, hd, hsame⟩ := @Completion.exists_mem_distinctFrom [] all c hc rfl
    obtain ⟨hlabel, hkind⟩ := Completion.sameOffer_iff.1 hsame
    refine ⟨d, ?_, hlabel.symm, hkind.symm⟩
    rw [hoffered]
    exact List.mem_filter.2 ⟨hd, hlabel ▸ hstem⟩
  · refine List.Pairwise.sublist hsub ?_
    rw [← hall]
    exact Completion.pairwise_candidates index id p line
  · intro document' id' p' hstem hscope hcontext
    have hsql := hcontext sqlTriggers (by simp)
    have hform := hcontext formTriggers (by simp)
    have hsame : Completion.candidates index id' p' ((document'.line? p'.line).getD []) = all := by
      rw [Completion.candidates_eq, hscope, if_congr hsql rfl rfl, if_congr hform rfl rfl]
    have hevery : (Completion.distinct all).filter (Text.startsWithFold "" ·.label) =
        Completion.distinct all := List.filter_eq_self.2 fun c _ => by simp [Text.startsWithFold]
    rw [hoffered, Completion.completions_eq_filter index document' id' p', hsame, hstem, hevery]

end FourthGen
