import FourthGen.Document.Store
import FourthGen.Proofs.Document.Numbering

set_option autoImplicit false

/-! # The open documents as a table

A store that was built by opening, changing and closing documents gives the open addresses the numbers
of their documents, and its numbers increase (`DocumentStore.WellFormed`). For such a store the
operations are described by what they do to the look-up of an address, `atUri?`. -/

namespace FourthGen

namespace DocumentStore

/-- Documents stand in the order of their numbers, which are all given out already, and no two of them
    have the same address. The table of addresses holds the address and the number of every document, and
    nothing else. -/
structure WellFormed (store : DocumentStore) : Prop where
  ordered : store.documents.Pairwise (·.1.number < ·.1.number)
  given : ∀ e ∈ store.documents, e.1.number < store.nextNumber
  distinct : store.documents.Pairwise (·.2.uri ≠ ·.2.uri)
  agree : store.ids.Perm (store.documents.map fun e => (e.2.uri, e.1))

theorem wellFormed_empty : empty.WellFormed := ⟨.nil, by simp [empty], .nil, .refl _⟩

/-! ## Looking up -/

section

variable {store : DocumentStore} (h : store.WellFormed)

include h

theorem get?_of_mem {e : DocumentId × Document} (he : e ∈ store.documents) :
    store.get? e.1 = some e.2 := by
  rw [get?, DocumentId.find?_of_mem h.ordered he]
  rfl

theorem get?_eq_some_iff {id : DocumentId} {d : Document} :
    store.get? id = some d ↔ (id, d) ∈ store.documents := by
  constructor
  · intro hget
    obtain ⟨e, he, rfl⟩ := Option.map_eq_some_iff.1 hget
    obtain rfl : e.1 = id := by simpa using List.find?_some he
    exact List.mem_of_find?_eq_some he
  · exact get?_of_mem h

/-- An address has a number if there is a document of that number with this address. -/
theorem idOf?_eq_some_iff {uri : String} {id : DocumentId} :
    store.idOf? uri = some id ↔ ∃ d, (id, d) ∈ store.documents ∧ d.uri = uri := by
  have hmem : (uri, id) ∈ store.ids ↔ ∃ d, (id, d) ∈ store.documents ∧ d.uri = uri := by
    rw [h.agree.mem_iff, List.mem_map]
    simp [and_comm]
  rw [← hmem]
  constructor
  · intro hid
    obtain ⟨e, he, rfl⟩ := Option.map_eq_some_iff.1 hid
    obtain rfl : e.1 = uri := by simpa using List.find?_some he
    exact List.mem_of_find?_eq_some he
  · intro he
    have hkeys : store.ids.Pairwise (·.1 ≠ ·.1) :=
      (h.agree.pairwise_iff Ne.symm).2 (List.pairwise_map.2 h.distinct)
    have hfind : store.ids.find? (·.1 == uri) = some (uri, id) := by
      refine find?_eq_some_of_pairwise hkeys he (beq_self_eq_true _) ?_
      intro b hb
      exact beq_eq_false_iff_ne.2 hb
    rw [idOf?, hfind]
    rfl

theorem idOf?_of_mem {e : DocumentId × Document} (he : e ∈ store.documents) :
    store.idOf? e.2.uri = some e.1 := (idOf?_eq_some_iff h).2 ⟨e.2, he, rfl⟩

theorem exists_mem_of_idOf? {uri : String} {id : DocumentId} (hid : store.idOf? uri = some id) :
    ∃ d, (id, d) ∈ store.documents ∧ d.uri = uri := (idOf?_eq_some_iff h).1 hid

theorem idOf?_eq_none_iff {uri : String} : store.idOf? uri = none ↔ uri ∉ store.uris := by
  rw [uris, List.mem_map, Option.eq_none_iff_forall_ne_some]
  constructor
  · rintro hnone ⟨e, he, rfl⟩
    exact hnone e.1 (idOf?_of_mem h he)
  · intro huri id hid
    obtain ⟨d, hd, hu⟩ := exists_mem_of_idOf? h hid
    exact huri ⟨(id, d), hd, hu⟩

/-- There is one document of a number. -/
theorem eq_of_id {e e' : DocumentId × Document} (he : e ∈ store.documents) (he' : e' ∈ store.documents)
    (hid : e.1 = e'.1) : e.2 = e'.2 := by
  have hget := get?_of_mem h he
  rw [hid, get?_of_mem h he'] at hget
  exact (Option.some.inj hget).symm

/-- There is one number of an address. -/
theorem eq_of_uri {e e' : DocumentId × Document} (he : e ∈ store.documents) (he' : e' ∈ store.documents)
    (hu : e.2.uri = e'.2.uri) : e.1 = e'.1 := by
  have hid := idOf?_of_mem h he
  rw [hu, idOf?_of_mem h he'] at hid
  exact (Option.some.inj hid).symm

/-- The documents at an address are those of its number. -/
theorem uri_eq_iff {uri : String} {id : DocumentId} (hid : store.idOf? uri = some id)
    {e : DocumentId × Document} (he : e ∈ store.documents) : e.2.uri = uri ↔ e.1 = id := by
  obtain ⟨d, hd, rfl⟩ := exists_mem_of_idOf? h hid
  constructor
  · exact eq_of_uri h he hd
  · intro heq
    exact congrArg Document.uri (eq_of_id h he hd heq)

theorem atUri?_eq_some_iff {uri : String} {d : Document} :
    store.atUri? uri = some d ↔ ∃ id, (id, d) ∈ store.documents ∧ d.uri = uri := by
  constructor
  · intro hd
    obtain ⟨id, hid, hget⟩ := Option.bind_eq_some_iff.1 hd
    obtain ⟨d', hmem, hu⟩ := exists_mem_of_idOf? h hid
    rw [get?_of_mem h hmem] at hget
    cases hget
    exact ⟨id, hmem, hu⟩
  · rintro ⟨id, hmem, rfl⟩
    rw [atUri?, idOf?_of_mem h hmem]
    exact get?_of_mem h hmem

theorem isSome_atUri? {uri : String} : (store.atUri? uri).isSome = true ↔ uri ∈ store.uris := by
  rw [Option.isSome_iff_exists]
  constructor
  · rintro ⟨d, hd⟩
    obtain ⟨id, hmem, rfl⟩ := (atUri?_eq_some_iff h).1 hd
    exact List.mem_map.2 ⟨_, hmem, rfl⟩
  · intro hu
    obtain ⟨e, he, rfl⟩ := List.mem_map.1 hu
    exact ⟨e.2, (atUri?_eq_some_iff h).2 ⟨e.1, he, rfl⟩⟩

end

/-! ## Opening and changing -/

section

variable {store : DocumentStore} {id : DocumentId} {version : Int} {text : String}

/-- The documents when one of them has a new text. -/
theorem mem_replace_iff {e : DocumentId × Document} :
    e ∈ (store.replace id version text).documents ↔
      ∃ e' ∈ store.documents, e = (e'.1, if e'.1 = id then e'.2.replace version text else e'.2) := by
  simp only [replace, List.mem_map]
  refine exists_congr fun e' => and_congr_right fun _ => ?_
  split
  · exact eq_comm
  · exact eq_comm

theorem uris_replace : (store.replace id version text).uris = store.uris := by
  rw [uris, uris, replace, List.map_map]
  refine List.map_congr_left fun e _ => ?_
  rw [Function.comp_apply]
  split
  · rfl
  · rfl

theorem WellFormed.replace (h : store.WellFormed) (id : DocumentId) (version : Int) (text : String) :
    (store.replace id version text).WellFormed := by
  have hid (e : DocumentId × Document) :
      (if e.1 = id then (e.1, e.2.replace version text) else e).1 = e.1 := by
    split <;> rfl
  have huri (e : DocumentId × Document) :
      (if e.1 = id then (e.1, e.2.replace version text) else e).2.uri = e.2.uri := by
    split <;> rfl
  constructor
  · rw [DocumentStore.replace, List.pairwise_map]
    simpa only [hid] using h.ordered
  · intro e he
    obtain ⟨e', he', rfl⟩ := mem_replace_iff.1 he
    exact h.given e' he'
  · rw [DocumentStore.replace, List.pairwise_map]
    simpa only [huri] using h.distinct
  · simp only [DocumentStore.replace, List.map_map, Function.comp_def, hid, huri]
    exact h.agree

end

/-- A new document comes last. -/
theorem WellFormed.documents_add {store : DocumentStore} (h : store.WellFormed) (uri : String)
    (version : Int) (text : String) :
    (store.add uri version text).documents =
      store.documents ++ [(⟨store.nextNumber⟩, ⟨uri, version, text⟩)] :=
  DocumentId.insert_of_lt h.given _

theorem WellFormed.uris_add {store : DocumentStore} (h : store.WellFormed) (uri : String)
    (version : Int) (text : String) : (store.add uri version text).uris = store.uris ++ [uri] := by
  rw [uris, h.documents_add, List.map_append]
  rfl

theorem idOf?_add (store : DocumentStore) (uri : String) (version : Int) (text other : String) :
    (store.add uri version text).idOf? other =
      if uri = other then some ⟨store.nextNumber⟩ else store.idOf? other := by
  rw [idOf?, add, List.find?_cons]
  by_cases hu : uri = other
  · rw [if_pos hu, beq_iff_eq.2 hu]
    rfl
  · rw [if_neg hu, beq_eq_false_iff_ne.2 hu]
    rfl

theorem WellFormed.add {store : DocumentStore} (h : store.WellFormed) {uri : String}
    (hu : uri ∉ store.uris) (version : Int) (text : String) :
    (store.add uri version text).WellFormed := by
  constructor
  · exact DocumentId.pairwise_insert h.ordered
  · intro e he
    rcases DocumentId.mem_insert he with rfl | he
    · exact Nat.lt_succ_self _
    · exact Nat.lt_succ_of_lt (h.given e he)
  · rw [h.documents_add]
    refine List.pairwise_append.2 ⟨h.distinct, List.pairwise_singleton _ _, ?_⟩
    intro e he e' he'
    rw [List.mem_singleton.1 he']
    intro heq
    exact hu (List.mem_map.2 ⟨e, he, heq⟩)
  · rw [h.documents_add, List.map_append]
    exact (h.agree.cons _).trans (List.perm_append_singleton _ _).symm

theorem WellFormed.upsert {store : DocumentStore} (h : store.WellFormed) (uri : String)
    (version : Int) (text : String) : (store.upsert uri version text).2.WellFormed := by
  unfold DocumentStore.upsert
  split
  · exact h.replace _ version text
  · next hid => exact h.add ((idOf?_eq_none_iff h).1 hid) version text

theorem atUri?_replace {store : DocumentStore} (h : store.WellFormed) {id : DocumentId}
    {old : Document} (hold : (id, old) ∈ store.documents) (version : Int) (text : String)
    (other : String) :
    (store.replace id version text).atUri? other =
      if other = old.uri then some (old.replace version text) else store.atUri? other := by
  apply Option.ext
  intro d
  rw [atUri?_eq_some_iff (h.replace id version text)]
  simp only [mem_replace_iff, Prod.mk.injEq]
  constructor
  · rintro ⟨id', ⟨e, he, rfl, rfl⟩, rfl⟩
    split
    · next hid =>
      rw [eq_of_id h he hold hid]
      exact if_pos rfl
    · next hid =>
      have hne : e.2.uri ≠ old.uri := fun hu => hid (eq_of_uri h he hold hu)
      rw [if_neg hne]
      exact (atUri?_eq_some_iff h).2 ⟨e.1, he, rfl⟩
  · intro hd
    split at hd
    · next heq =>
      cases hd
      exact ⟨id, ⟨(id, old), hold, rfl, (if_pos rfl).symm⟩, heq.symm⟩
    · next hne =>
      obtain ⟨id', he, rfl⟩ := (atUri?_eq_some_iff h).1 hd
      have hid : id' ≠ id := by
        rintro rfl
        exact hne (congrArg Document.uri (eq_of_id h he hold rfl))
      exact ⟨id', ⟨(id', d), he, rfl, (if_neg hid).symm⟩, rfl⟩

theorem atUri?_add {store : DocumentStore} (h : store.WellFormed) {uri : String}
    (hu : uri ∉ store.uris) (version : Int) (text : String) (other : String) :
    (store.add uri version text).atUri? other =
      if other = uri then some ⟨uri, version, text⟩ else store.atUri? other := by
  apply Option.ext
  intro d
  rw [atUri?_eq_some_iff (h.add hu version text)]
  simp only [h.documents_add, List.mem_append, List.mem_singleton]
  constructor
  · rintro ⟨id, he | he, rfl⟩
    · have hne : d.uri ≠ uri := fun hd => hu (List.mem_map.2 ⟨_, he, hd⟩)
      rw [if_neg hne]
      exact (atUri?_eq_some_iff h).2 ⟨id, he, rfl⟩
    · cases he
      rw [if_pos rfl]
  · intro hd
    split at hd
    · next heq =>
      cases hd
      exact ⟨_, .inr rfl, heq.symm⟩
    · obtain ⟨id, he, rfl⟩ := (atUri?_eq_some_iff h).1 hd
      exact ⟨id, .inl he, rfl⟩

/-- A new text is found under its address, and nothing else changes. -/
theorem atUri?_upsert {store : DocumentStore} (h : store.WellFormed) (uri : String) (version : Int)
    (text : String) (other : String) :
    (store.upsert uri version text).2.atUri? other =
      if other = uri then some ⟨uri, version, text⟩ else store.atUri? other := by
  unfold upsert
  split
  · next id hid =>
    obtain ⟨old, hold, rfl⟩ := exists_mem_of_idOf? h hid
    exact atUri?_replace h hold version text other
  · next hid => exact atUri?_add h ((idOf?_eq_none_iff h).1 hid) version text other

/-! ## Closing -/

theorem idOf?_erase (store : DocumentStore) (uri : String) (id : DocumentId) (other : String) :
    (store.erase uri id).idOf? other = if other = uri then none else store.idOf? other := by
  rw [idOf?, erase, List.find?_filter]
  split
  · next heq => simp [heq]
  · next hne =>
    have hsame (e : String × DocumentId) :
        ((e.1 != uri) = true ∧ (e.1 == other) = true) ↔ (e.1 == other) = true := by
      rw [and_iff_right_iff_imp, beq_iff_eq, bne_iff_ne]
      rintro rfl
      exact hne
    simp only [hsame, Bool.decide_eq_true]
    rfl

/-- The documents that are left are those at other addresses. -/
theorem mem_erase_iff {store : DocumentStore} (h : store.WellFormed) {uri : String} {id : DocumentId}
    (hid : store.idOf? uri = some id) {e : DocumentId × Document} :
    e ∈ (store.erase uri id).documents ↔ e ∈ store.documents ∧ e.2.uri ≠ uri := by
  rw [erase, List.mem_filter, bne_iff_ne]
  exact and_congr_right fun he => not_congr (uri_eq_iff h hid he).symm

theorem mem_uris_erase_iff {store : DocumentStore} (h : store.WellFormed) {uri : String}
    {id : DocumentId} (hid : store.idOf? uri = some id) {other : String} :
    other ∈ (store.erase uri id).uris ↔ other ∈ store.uris ∧ other ≠ uri := by
  simp only [uris, List.mem_map, mem_erase_iff h hid]
  constructor
  · rintro ⟨e, ⟨he, hne⟩, rfl⟩
    exact ⟨⟨e, he, rfl⟩, hne⟩
  · rintro ⟨⟨e, he, rfl⟩, hne⟩
    exact ⟨e, ⟨he, hne⟩, rfl⟩

theorem WellFormed.erase {store : DocumentStore} (h : store.WellFormed) {uri : String}
    {id : DocumentId} (hid : store.idOf? uri = some id) : (store.erase uri id).WellFormed := by
  refine ⟨h.ordered.filter _, fun e he => h.given e (List.mem_filter.1 he).1, h.distinct.filter _, ?_⟩
  have hsame : ∀ e ∈ store.documents, (e.2.uri != uri) = (e.1 != id) := by
    intro e he
    rw [Bool.eq_iff_iff, bne_iff_ne, bne_iff_ne]
    exact not_congr (uri_eq_iff h hid he)
  rw [DocumentStore.erase, ← List.filter_congr hsame]
  refine (h.agree.filter _).trans ?_
  rw [List.filter_map]
  exact .refl _

theorem WellFormed.close {store : DocumentStore} (h : store.WellFormed) (uri : String) :
    (store.close uri).2.WellFormed := by
  unfold DocumentStore.close
  split
  · next hid => exact h.erase hid
  · exact h

/-- A closed document is not found any more, and nothing else changes. -/
theorem atUri?_close {store : DocumentStore} (h : store.WellFormed) (uri other : String) :
    (store.close uri).2.atUri? other = if other = uri then none else store.atUri? other := by
  apply Option.ext
  intro d
  rw [atUri?_eq_some_iff (h.close uri)]
  unfold close
  split
  · next id hid =>
    simp only [mem_erase_iff h hid]
    constructor
    · rintro ⟨id', ⟨he, hne⟩, rfl⟩
      rw [if_neg hne]
      exact (atUri?_eq_some_iff h).2 ⟨id', he, rfl⟩
    · intro hd
      split at hd
      · cases hd
      · next hne =>
        obtain ⟨id', he, rfl⟩ := (atUri?_eq_some_iff h).1 hd
        exact ⟨id', ⟨he, hne⟩, rfl⟩
  · next hid =>
    rw [← atUri?_eq_some_iff h]
    split
    · next heq =>
      rw [heq, atUri?, hid]
      rfl
    · rfl

end DocumentStore

end FourthGen
