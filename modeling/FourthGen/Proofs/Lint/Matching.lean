import FourthGen.Lint.Pattern
import Mathlib.Data.List.Basic

set_option autoImplicit false

/-! # What patterns match

`Pattern.Takes` says which texts a pattern takes between what stands before and behind them, and what its
groups take, without an order in which the ways are tried. The ways that are listed are these
(`Pattern.mem_ways_iff`).

A search passes over what a match covers, and at each place it takes the first of several ways. Neither
matters for a pattern whose matches stand apart (`Pattern.Apart`): its matches in a line, from left to
right, are all there are (`Pattern.mem_findAll_iff`, `Pattern.pairwise_findAll`). -/

namespace FourthGen

theorem Text.utf16Length_reverse (cs : List Char) : utf16Length cs.reverse = utf16Length cs := by
  induction cs with
  | nil => rfl
  | cons c cs ih =>
      rw [List.reverse_cons, utf16Length_append, ih, utf16Length_cons, utf16Length_cons,
        utf16Length_nil, Nat.add_zero, Nat.add_comm]

theorem Site.skip_append (before text rest : List Char) :
    skip ⟨before, text ++ rest⟩ text = ⟨text.reverse ++ before, rest⟩ := by
  simp [skip]

namespace Pattern

/-! ## The ways to match -/

/-- The pattern takes `text` between what stands before, the nearest character first, and what stands
    behind; its groups take the stretches `groups`. -/
inductive Takes : Pattern → (before text rest : List Char) → (groups : List Stretch) → Prop
  | empty {before rest : List Char} : Takes .empty before [] rest []
  | one {member : Char → Bool} {before rest : List Char} {c : Char} (h : member c = true) :
      Takes (.one member) before [c] rest []
  | many {member : Char → Bool} {before text rest : List Char} (h : ∀ c ∈ text, member c = true) :
      Takes (.many member) before text rest []
  | edge {before rest : List Char} (h : Site.atEdge ⟨before, rest⟩ = true) :
      Takes .edge before [] rest []
  | lineStart {rest : List Char} : Takes .lineStart [] [] rest []
  | lineEnd {before : List Char} : Takes .lineEnd before [] [] []
  | seq {p q : Pattern} {before text next rest : List Char} {gs hs : List Stretch}
      (hp : Takes p before text (next ++ rest) gs)
      (hq : Takes q (text.reverse ++ before) next rest hs) :
      Takes (.seq p q) before (text ++ next) rest (gs ++ hs)
  | first {p q : Pattern} {before text rest : List Char} {gs : List Stretch}
      (h : Takes p before text rest gs) : Takes (.alt p q) before text rest gs
  | second {p q : Pattern} {before text rest : List Char} {gs : List Stretch}
      (h : Takes q before text rest gs) : Takes (.alt p q) before text rest gs
  | group {p : Pattern} {before text rest : List Char} {gs : List Stretch}
      (h : Takes p before text rest gs) :
      Takes (.group p) before text rest (⟨⟨before, text ++ rest⟩, text⟩ :: gs)

section

variable {p q : Pattern} {member : Char → Bool} {before text rest : List Char} {gs : List Stretch}

theorem takes_empty_iff : Takes .empty before text rest gs ↔ text = [] ∧ gs = [] := by
  constructor
  · rintro ⟨⟩
    exact ⟨rfl, rfl⟩
  · rintro ⟨rfl, rfl⟩
    exact .empty

theorem takes_one_iff :
    Takes (.one member) before text rest gs ↔ ∃ c, text = [c] ∧ member c = true ∧ gs = [] := by
  constructor
  · rintro ⟨⟩
    exact ⟨_, rfl, ‹_›, rfl⟩
  · rintro ⟨c, rfl, hc, rfl⟩
    exact .one hc

theorem takes_many_iff :
    Takes (.many member) before text rest gs ↔ (∀ c ∈ text, member c = true) ∧ gs = [] := by
  constructor
  · rintro ⟨⟩
    exact ⟨‹_›, rfl⟩
  · rintro ⟨hall, rfl⟩
    exact .many hall

theorem takes_edge_iff :
    Takes .edge before text rest gs ↔ text = [] ∧ Site.atEdge ⟨before, rest⟩ = true ∧ gs = [] := by
  constructor
  · rintro ⟨⟩
    exact ⟨rfl, ‹_›, rfl⟩
  · rintro ⟨rfl, hedge, rfl⟩
    exact .edge hedge

theorem takes_alt_iff :
    Takes (.alt p q) before text rest gs ↔
      Takes p before text rest gs ∨ Takes q before text rest gs := by
  constructor
  · intro h
    cases h with
    | first h => exact .inl h
    | second h => exact .inr h
  · rintro (h | h)
    · exact .first h
    · exact .second h

theorem takes_group_iff :
    Takes (.group p) before text rest gs ↔
      ∃ hs, Takes p before text rest hs ∧ gs = ⟨⟨before, text ++ rest⟩, text⟩ :: hs := by
  constructor
  · rintro ⟨⟩
    exact ⟨_, ‹_›, rfl⟩
  · rintro ⟨hs, h, rfl⟩
    exact .group h

theorem takes_sequence_cons_iff {ps : List Pattern} :
    Takes (sequence (p :: ps)) before text rest gs ↔
      ∃ t u gs' hs, text = t ++ u ∧ gs = gs' ++ hs ∧ Takes p before t (u ++ rest) gs' ∧
        Takes (sequence ps) (t.reverse ++ before) u rest hs := by
  rw [sequence]
  constructor
  · intro h
    cases h with
    | seq hp hq => exact ⟨_, _, _, _, rfl, rfl, hp, hq⟩
  · rintro ⟨t, u, gs', hs, rfl, rfl, hp, hq⟩
    exact .seq hp hq

theorem takes_sequence_nil_iff : Takes (sequence []) before text rest gs ↔ text = [] ∧ gs = [] :=
  takes_empty_iff

theorem takes_anyOf_iff {ps : List Pattern} :
    Takes (anyOf ps) before text rest gs ↔ ∃ p ∈ ps, Takes p before text rest gs := by
  induction ps with
  | nil => simp [anyOf, takes_one_iff]
  | cons p ps ih => rw [anyOf, takes_alt_iff, ih, List.exists_mem_cons_iff]

theorem takes_one_cons_iff {ps : List Pattern} :
    Takes (sequence (one member :: ps)) before text rest gs ↔
      ∃ c u, text = c :: u ∧ member c = true ∧ Takes (sequence ps) (c :: before) u rest gs := by
  simp only [takes_sequence_cons_iff, takes_one_iff]
  constructor
  · rintro ⟨-, u, -, gs, rfl, rfl, ⟨c, rfl, hc, rfl⟩, h⟩
    exact ⟨c, u, rfl, hc, h⟩
  · rintro ⟨c, u, rfl, hc, h⟩
    exact ⟨[c], u, [], gs, rfl, rfl, ⟨c, rfl, hc, rfl⟩, h⟩

theorem takes_edge_cons_iff {ps : List Pattern} :
    Takes (sequence (edge :: ps)) before text rest gs ↔
      Site.atEdge ⟨before, text ++ rest⟩ = true ∧ Takes (sequence ps) before text rest gs := by
  simp only [takes_sequence_cons_iff, takes_edge_iff]
  constructor
  · rintro ⟨-, u, -, gs, rfl, rfl, ⟨rfl, hedge, rfl⟩, h⟩
    exact ⟨hedge, h⟩
  · rintro ⟨hedge, h⟩
    exact ⟨[], text, [], gs, rfl, rfl, ⟨rfl, hedge, rfl⟩, h⟩

theorem takes_many_cons_iff {ps : List Pattern} :
    Takes (sequence (many member :: ps)) before text rest gs ↔
      ∃ run u, text = run ++ u ∧ (∀ c ∈ run, member c = true) ∧
        Takes (sequence ps) (run.reverse ++ before) u rest gs := by
  simp only [takes_sequence_cons_iff, takes_many_iff]
  constructor
  · rintro ⟨run, u, -, gs, rfl, rfl, ⟨hrun, rfl⟩, h⟩
    exact ⟨run, u, rfl, hrun, h⟩
  · rintro ⟨run, u, rfl, hrun, h⟩
    exact ⟨run, u, [], gs, rfl, rfl, ⟨hrun, rfl⟩, h⟩

theorem takes_group_cons_iff {ps : List Pattern} :
    Takes (sequence (group p :: ps)) before text rest gs ↔
      ∃ t u gs' hs, text = t ++ u ∧ gs = ⟨⟨before, t ++ (u ++ rest)⟩, t⟩ :: (gs' ++ hs) ∧
        Takes p before t (u ++ rest) gs' ∧ Takes (sequence ps) (t.reverse ++ before) u rest hs := by
  simp only [takes_sequence_cons_iff, takes_group_iff]
  constructor
  · rintro ⟨t, u, -, hs, rfl, rfl, ⟨gs, hp, rfl⟩, h⟩
    exact ⟨t, u, gs, hs, rfl, rfl, hp, h⟩
  · rintro ⟨t, u, gs, hs, rfl, rfl, hp, h⟩
    exact ⟨t, u, _, hs, rfl, rfl, ⟨gs, hp, rfl⟩, h⟩

theorem takes_times_iff {n : Nat} :
    Takes (times n member) before text rest gs ↔
      text.length = n ∧ (∀ c ∈ text, member c = true) ∧ gs = [] := by
  unfold times
  induction n generalizing before text with
  | zero =>
      rw [List.replicate_zero, takes_sequence_nil_iff, List.length_eq_zero_iff]
      constructor
      · rintro ⟨rfl, rfl⟩
        exact ⟨rfl, by simp, rfl⟩
      · rintro ⟨rfl, -, rfl⟩
        exact ⟨rfl, rfl⟩
  | succ n ih =>
      simp only [List.replicate_succ, takes_one_cons_iff, ih]
      constructor
      · rintro ⟨c, u, rfl, hc, rfl, hall, rfl⟩
        exact ⟨rfl, List.forall_mem_cons.2 ⟨hc, hall⟩, rfl⟩
      · rintro ⟨hlength, hall, rfl⟩
        obtain ⟨c, u, rfl⟩ := List.exists_cons_of_length_eq_add_one hlength
        rw [List.forall_mem_cons] at hall
        exact ⟨c, u, rfl, hall.1, by simpa using hlength, hall.2, rfl⟩

theorem takes_spelling_iff {word : String} :
    Takes (spelling word) before text rest gs ↔
      text.map Unicode.foldCase = word.toList.map Unicode.foldCase ∧ gs = [] := by
  unfold spelling
  induction word.toList generalizing before text with
  | nil => rw [List.map_nil, takes_sequence_nil_iff, List.map_nil, List.map_eq_nil_iff]
  | cons c cs ih =>
      simp only [List.map_cons, takes_one_cons_iff, ih, beq_iff_eq, List.map_eq_cons_iff]
      constructor
      · rintro ⟨d, u, rfl, hd, hu, rfl⟩
        exact ⟨⟨d, u, rfl, hd, hu⟩, rfl⟩
      · rintro ⟨⟨d, u, rfl, hd, hu⟩, rfl⟩
        exact ⟨d, u, rfl, hd, hu, rfl⟩

end

theorem mem_runs_iff {member : Char → Bool} {cs text : List Char} :
    text ∈ runs member cs ↔ text <+: cs ∧ ∀ c ∈ text, member c = true := by
  induction cs generalizing text with
  | nil =>
      rw [runs, List.mem_singleton, List.prefix_nil]
      exact ⟨fun h => ⟨h, by simp [h]⟩, And.left⟩
  | cons c cs ih =>
      cases text with
      | nil =>
          rw [runs]
          split <;> simp
      | cons d text =>
          rw [List.cons_prefix_cons, List.forall_mem_cons, runs]
          split
          · next hc =>
            simp only [List.mem_append, List.mem_map, List.cons.injEq, List.mem_singleton, reduceCtorEq,
              or_false]
            constructor
            · rintro ⟨run, hrun, rfl, rfl⟩
              exact ⟨⟨rfl, (ih.1 hrun).1⟩, hc, (ih.1 hrun).2⟩
            · rintro ⟨⟨rfl, hstarts⟩, -, hall⟩
              exact ⟨text, ih.2 ⟨hstarts, hall⟩, rfl, rfl⟩
          · next hc =>
            simp only [List.mem_singleton, reduceCtorEq, false_iff]
            rintro ⟨⟨rfl, -⟩, hd, -⟩
            exact hc hd

/-- The ways that are listed match. -/
theorem takes_of_mem_ways {p : Pattern} {before cs : List Char} {w : Way}
    (h : w ∈ p.ways ⟨before, cs⟩) :
    ∃ rest, cs = w.text ++ rest ∧ Takes p before w.text rest w.groups := by
  induction p generalizing before cs w with
  | empty =>
      rw [ways, List.mem_singleton] at h
      subst h
      exact ⟨cs, rfl, .empty⟩
  | one member =>
      rw [ways] at h
      cases cs with
      | nil => cases h
      | cons c cs =>
          obtain ⟨hc, hw⟩ := List.mem_ite_nil_right.1 h
          rw [List.mem_singleton] at hw
          subst hw
          exact ⟨cs, rfl, .one hc⟩
  | many member =>
      obtain ⟨run, hrun, rfl⟩ := List.mem_map.1 h
      obtain ⟨⟨rest, rfl⟩, hall⟩ := mem_runs_iff.1 hrun
      exact ⟨rest, rfl, .many hall⟩
  | edge =>
      obtain ⟨hedge, hw⟩ := List.mem_ite_nil_right.1 h
      rw [List.mem_singleton] at hw
      subst hw
      exact ⟨cs, rfl, .edge hedge⟩
  | lineStart =>
      obtain ⟨hstart, hw⟩ := List.mem_ite_nil_right.1 h
      rw [List.isEmpty_iff] at hstart
      rw [List.mem_singleton] at hw
      subst hw
      dsimp only at hstart
      subst hstart
      exact ⟨cs, rfl, .lineStart⟩
  | lineEnd =>
      obtain ⟨hend, hw⟩ := List.mem_ite_nil_right.1 h
      rw [List.isEmpty_iff] at hend
      rw [List.mem_singleton] at hw
      subst hw
      dsimp only at hend
      subst hend
      exact ⟨[], rfl, .lineEnd⟩
  | seq p q ihp ihq =>
      obtain ⟨u, hu, hw⟩ := List.mem_flatMap.1 h
      obtain ⟨v, hv, rfl⟩ := List.mem_map.1 hw
      obtain ⟨tail, rfl, htakes⟩ := ihp hu
      rw [Site.skip_append] at hv
      obtain ⟨rest, rfl, hnext⟩ := ihq hv
      exact ⟨rest, (List.append_assoc ..).symm, .seq htakes hnext⟩
  | alt p q ihp ihq =>
      rcases List.mem_append.1 h with h | h
      · obtain ⟨rest, hcs, htakes⟩ := ihp h
        exact ⟨rest, hcs, .first htakes⟩
      · obtain ⟨rest, hcs, htakes⟩ := ihq h
        exact ⟨rest, hcs, .second htakes⟩
  | group p ih =>
      obtain ⟨u, hu, rfl⟩ := List.mem_map.1 h
      obtain ⟨rest, rfl, htakes⟩ := ih hu
      exact ⟨rest, rfl, .group htakes⟩

/-- What matches is listed. -/
theorem Takes.mem_ways {p : Pattern} {before text rest : List Char} {groups : List Stretch}
    (h : Takes p before text rest groups) :
    (⟨text, groups⟩ : Way) ∈ p.ways ⟨before, text ++ rest⟩ := by
  induction h with
  | empty => exact List.mem_singleton_self _
  | one hc => simp [ways, hc]
  | @many member before text rest hall =>
      exact List.mem_map.2 ⟨text, mem_runs_iff.2 ⟨List.prefix_append text rest, hall⟩, rfl⟩
  | edge hedge => simp [ways, hedge]
  | lineStart => exact List.mem_singleton_self _
  | lineEnd => exact List.mem_singleton_self _
  | @seq p q before text next rest gs hs hp hq ihp ihq =>
      rw [List.append_assoc]
      refine List.mem_flatMap.2 ⟨⟨text, gs⟩, ihp, List.mem_map.2 ⟨⟨next, hs⟩, ?_, rfl⟩⟩
      rw [Site.skip_append]
      exact ihq
  | first _ ih => exact List.mem_append_left _ ih
  | second _ ih => exact List.mem_append_right _ ih
  | @group p before text rest gs _ ih => exact List.mem_map.2 ⟨⟨text, gs⟩, ih, rfl⟩

/-- The ways that are listed are those in which the pattern matches. -/
theorem mem_ways_iff {p : Pattern} {before cs : List Char} {w : Way} :
    w ∈ p.ways ⟨before, cs⟩ ↔
      ∃ rest, cs = w.text ++ rest ∧ Takes p before w.text rest w.groups := by
  constructor
  · exact takes_of_mem_ways
  · rintro ⟨rest, rfl, h⟩
    exact h.mem_ways

/-- What the groups of a pattern take are parts of what the pattern takes. -/
theorem Takes.groups_within {p : Pattern} {before text rest : List Char} {groups : List Stretch}
    (h : Takes p before text rest groups) {g : Stretch} (hg : g ∈ groups) :
    ∃ front back, text = front ++ (g.text ++ back) ∧
      g.site = ⟨front.reverse ++ before, g.text ++ (back ++ rest)⟩ := by
  induction h with
  | empty | one | many | edge | lineStart | lineEnd => cases hg
  | @seq p q before text next rest gs hs hp hq ihp ihq =>
      rcases List.mem_append.1 hg with hg | hg
      · obtain ⟨front, back, rfl, hsite⟩ := ihp hg
        exact ⟨front, back ++ next, by simp, by simpa using hsite⟩
      · obtain ⟨front, back, rfl, hsite⟩ := ihq hg
        exact ⟨text ++ front, back, by simp, by simpa using hsite⟩
  | first _ ih => exact ih hg
  | second _ ih => exact ih hg
  | @group p before text rest gs _ ih =>
      rcases List.mem_cons.1 hg with rfl | hg
      · exact ⟨[], [], by simp, by simp⟩
      · exact ih hg

/-! ## Search -/

/-- The match is one of the pattern, in a line with `before` before it and `rest` behind it. -/
structure Match.IsOf (m : Match) (p : Pattern) (before rest : List Char) : Prop where
  site_eq : m.site = ⟨before, m.text ++ rest⟩
  takes : Takes p before m.text rest m.groups

theorem isOf_of_match? {p : Pattern} {before cs : List Char} {m : Match}
    (h : p.match? ⟨before, cs⟩ = some m) : ∃ rest, cs = m.text ++ rest ∧ m.IsOf p before rest := by
  obtain ⟨w, hw, rfl⟩ := Option.map_eq_some_iff.1 h
  obtain ⟨rest, rfl, htakes⟩ := takes_of_mem_ways (List.mem_of_head? hw)
  exact ⟨rest, rfl, rfl, htakes⟩

theorem not_takes_of_match? {p : Pattern} {before text rest : List Char} {groups : List Stretch}
    (h : p.match? ⟨before, text ++ rest⟩ = none) : ¬ Takes p before text rest groups := by
  intro htakes
  rw [match?, Option.map_eq_none_iff, List.head?_eq_none_iff] at h
  have hmem := htakes.mem_ways
  rw [h] at hmem
  cases hmem

/-- What a search finds are matches of the pattern in the line. -/
theorem isOf_of_mem_findFrom {p : Pattern} {covered : Nat} {before rest : List Char} {m : Match}
    (h : m ∈ p.findFrom covered before rest) :
    ∃ left right, rest = left ++ (m.text ++ right) ∧ m.IsOf p (left.reverse ++ before) right := by
  -- what is found behind a character is found in what starts with it
  have hcons {c : Char} {cs before : List Char} (h : ∃ left right, cs = left ++ (m.text ++ right) ∧
      m.IsOf p (left.reverse ++ c :: before) right) :
      ∃ left right, c :: cs = left ++ (m.text ++ right) ∧ m.IsOf p (left.reverse ++ before) right := by
    obtain ⟨left, right, rfl, hm⟩ := h
    exact ⟨c :: left, right, rfl, by simpa using hm⟩
  fun_induction findFrom p covered before rest with
  | case1 => cases h
  | case2 before c cs covered ih => exact hcons (ih h)
  | case3 before c cs hnone ih => exact hcons (ih h)
  | case4 before c cs n hsome ih =>
      rcases List.mem_cons.1 h with rfl | h
      · obtain ⟨right, hcs, hm⟩ := isOf_of_match? hsome
        exact ⟨[], right, hcs, hm⟩
      · exact hcons (ih h)

/-- What a search finds is found from left to right. -/
theorem pairwise_findFrom (p : Pattern) (covered : Nat) (before rest : List Char) :
    (p.findFrom covered before rest).Pairwise (·.site.column < ·.site.column) := by
  fun_induction findFrom p covered before rest with
  | case1 => exact .nil
  | case2 before c cs covered ih => exact ih
  | case3 before c cs hnone ih => exact ih
  | case4 before c cs m hsome ih =>
      refine List.pairwise_cons.2 ⟨?_, ih⟩
      intro n hn
      obtain ⟨right, -, hm⟩ := isOf_of_match? hsome
      obtain ⟨left, right, -, hn⟩ := isOf_of_mem_findFrom hn
      have hpos := Text.utf16Width_pos c
      simp only [hm.site_eq, hn.site_eq, Site.column, Text.utf16Length_append, Text.utf16Length_cons]
      omega

/-- The matches of a pattern stand apart: each takes at least a character, there is one at most at a
    place, and none starts within another. -/
structure Apart (p : Pattern) : Prop where
  ne_nil {before text rest : List Char} {gs : List Stretch} (h : Takes p before text rest gs) :
    text ≠ []
  unique {before text text' rest rest' : List Char} {gs gs' : List Stretch}
    (h : Takes p before text rest gs) (h' : Takes p before text' rest' gs')
    (hsame : text ++ rest = text' ++ rest') : text = text' ∧ gs = gs'
  within {before front back rest text rest' : List Char} {gs gs' : List Stretch}
    (h : Takes p before (front ++ back) rest gs) (hfront : front ≠ []) (hback : back ≠ [])
    (h' : Takes p (front.reverse ++ before) text rest' gs') : back ++ rest ≠ text ++ rest'

/-- There is one match at most at a place. -/
theorem Apart.eq_of_isOf {p : Pattern} (hp : p.Apart) {m n : Match} {before right right' : List Char}
    (hm : m.IsOf p before right) (hn : n.IsOf p before right')
    (hsame : m.text ++ right = n.text ++ right') : m = n := by
  obtain ⟨htext, hgroups⟩ := hp.unique hm.takes hn.takes hsame
  have hsite : m.site = n.site := by rw [hm.site_eq, hn.site_eq, hsame]
  obtain ⟨⟨site, text⟩, groups⟩ := m
  simp only at htext hgroups hsite
  rw [htext, hgroups, hsite]

/-- A search does not miss a match that stands apart, unless the last match is said to cover it. -/
theorem Apart.mem_findFrom {p : Pattern} (hp : p.Apart) {m : Match} {covered : Nat}
    {before left right : List Char} (hm : m.IsOf p (left.reverse ++ before) right)
    (hcovered : covered ≤ left.length) :
    m ∈ p.findFrom covered before (left ++ (m.text ++ right)) := by
  generalize hrest : left ++ (m.text ++ right) = rest
  fun_induction findFrom p covered before rest generalizing left with
  | case1 =>
      -- there is no room for the match
      simp only [List.append_eq_nil_iff] at hrest
      exact absurd hrest.2.1 (hp.ne_nil hm.takes)
  | case2 before c cs covered ih =>
      cases left with
      | nil => cases hcovered
      | cons d left =>
          cases hrest
          exact ih (by simpa using hm) (by simpa using hcovered) rfl
  | case3 before c cs hnone ih =>
      cases left with
      | nil =>
          rw [← hrest] at hnone
          exact absurd hm.takes (not_takes_of_match? hnone)
      | cons d left =>
          cases hrest
          exact ih (by simpa using hm) (Nat.zero_le _) rfl
  | case4 before c cs n hsome ih =>
      obtain ⟨right', hcs, hn⟩ := isOf_of_match? hsome
      cases left with
      | nil =>
          -- the match that is found here is the only one
          rw [hp.eq_of_isOf hm hn (hrest.trans hcs)]
          exact List.mem_cons_self
      | cons d left =>
          rw [← hrest] at hcs
          cases hrest
          refine List.mem_cons_of_mem n (ih (by simpa using hm) ?_ rfl)
          by_contra hlt
          -- the match would start within the one that is found here
          have hlength : (c :: left).length ≤ n.text.length := by
            rw [List.length_cons]
            omega
          obtain ⟨back, hback⟩ := List.prefix_of_prefix_length_le
            (List.prefix_append (c :: left) (m.text ++ right)) (hcs ▸ List.prefix_append _ _) hlength
          have hne : back ≠ [] := by
            rintro rfl
            rw [← hback, List.append_nil, List.length_cons] at hlt
            omega
          refine hp.within (hback ▸ hn.takes) (List.cons_ne_nil c left) hne hm.takes ?_
          rw [← hback, List.append_assoc] at hcs
          exact (List.append_cancel_left hcs).symm

theorem pairwise_findAll (p : Pattern) (line : List Char) :
    (p.findAll line).Pairwise (·.site.column < ·.site.column) :=
  pairwise_findFrom p 0 [] line

theorem isOf_of_mem_findAll {p : Pattern} {line : List Char} {m : Match} (h : m ∈ p.findAll line) :
    ∃ left right, line = left ++ (m.text ++ right) ∧ m.IsOf p left.reverse right := by
  simpa using isOf_of_mem_findFrom h

/-- A search finds all matches that there are, if they stand apart. -/
theorem Apart.mem_findAll_iff {p : Pattern} (hp : p.Apart) {line : List Char} {m : Match} :
    m ∈ p.findAll line ↔
      ∃ left right, line = left ++ (m.text ++ right) ∧ m.IsOf p left.reverse right := by
  constructor
  · exact isOf_of_mem_findAll
  · rintro ⟨left, right, rfl, hm⟩
    exact hp.mem_findFrom (by simpa using hm) (Nat.zero_le _)

end Pattern

/-- The stretch is a part of the line, at its site. -/
def Stretch.IsPartOf (s : Stretch) (line : List Char) : Prop :=
  ∃ left right, line = left ++ (s.text ++ right) ∧ s.site = ⟨left.reverse, s.text ++ right⟩

namespace Pattern

variable {p : Pattern} {line : List Char} {m : Match}

theorem isPartOf_of_mem_findAll (h : m ∈ p.findAll line) : m.toStretch.IsPartOf line := by
  obtain ⟨left, right, hline, hm⟩ := isOf_of_mem_findAll h
  exact ⟨left, right, hline, hm.site_eq⟩

theorem isPartOf_of_mem_groups (h : m ∈ p.findAll line) {g : Stretch} (hg : g ∈ m.groups) :
    g.IsPartOf line := by
  obtain ⟨left, right, rfl, hm⟩ := isOf_of_mem_findAll h
  obtain ⟨front, back, htext, hsite⟩ := hm.takes.groups_within hg
  exact ⟨left ++ front, back ++ right, by simp [htext], by simpa using hsite⟩

end Pattern

end FourthGen
