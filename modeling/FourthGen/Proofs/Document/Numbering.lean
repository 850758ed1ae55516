import FourthGen.Document.Basic
import Mathlib.Data.List.Basic

set_option autoImplicit false

/-! # Tables in the order of numbers

Documents and symbol tables are kept under the numbers of the documents, in increasing order. A number
then stands in a table at most once, so that what stands there is what is found (`DocumentId.find?_of_mem`),
and a table with one more number, or a new value for a number, is the old one but for that entry. -/

namespace FourthGen

/-- An element is what a search finds if no other element of the list can be found. -/
theorem find?_eq_some_of_pairwise {α : Type} {R : α → α → Prop} {p : α → Bool} {a : α} {l : List α}
    (hl : l.Pairwise R) (ha : a ∈ l) (hp : p a = true)
    (hR : ∀ b, R b a → p b = false) : l.find? p = some a := by
  induction hl with
  | nil => cases ha
  | @cons b l hb _ ih =>
      rw [List.find?_cons]
      rcases List.mem_cons.1 ha with rfl | ha
      · rw [hp]
      · rw [hR b (hb a ha)]
        exact ih ha

namespace DocumentId

variable {α : Type} {id : DocumentId} {value : α} {table : List (DocumentId × α)}

/-- What a table in the order of numbers has under a number is found. -/
theorem find?_of_mem (hs : table.Pairwise (·.1.number < ·.1.number)) {e : DocumentId × α}
    (he : e ∈ table) : table.find? (·.1 == e.1) = some e := by
  refine find?_eq_some_of_pairwise hs he (beq_self_eq_true _) ?_
  intro b hb
  rw [beq_eq_false_iff_ne]
  intro heq
  rw [heq] at hb
  exact Nat.lt_irrefl _ hb

/-- The entry of a new number comes last. -/
theorem insert_of_lt (h : ∀ e ∈ table, e.1.number < id.number) (value : α) :
    id.insert value table = table ++ [(id, value)] := by
  induction table with
  | nil => rfl
  | cons e table ih =>
      rw [List.forall_mem_cons] at h
      have hne : e.1 ≠ id := by
        rintro rfl
        exact Nat.lt_irrefl _ h.1
      rw [insert, if_neg (Nat.lt_asymm h.1), if_neg hne, ih h.2, List.cons_append]

/-- The new entry of a number takes the place of the old one. -/
theorem insert_of_mem (hs : table.Pairwise (·.1.number < ·.1.number)) (h : ∃ e ∈ table, e.1 = id)
    (value : α) :
    id.insert value table = table.map fun e => if e.1 = id then (id, value) else e := by
  induction hs with
  | nil => simp at h
  | @cons e table he _ ih =>
      obtain ⟨x, hx, rfl⟩ := h
      rw [insert, List.map_cons]
      rcases List.mem_cons.1 hx with rfl | hx
      · -- no other entry is this number's
        have hrest : table.map (fun e => if e.1 = x.1 then (x.1, value) else e) = table.map id := by
          refine List.map_congr_left fun y hy => if_neg ?_
          intro heq
          have hlt := he y hy
          rw [heq] at hlt
          exact Nat.lt_irrefl _ hlt
        rw [if_neg (Nat.lt_irrefl _), if_pos rfl, if_pos rfl, hrest, List.map_id]
      · have hlt := he x hx
        have hne : e.1 ≠ x.1 := by
          intro heq
          rw [heq] at hlt
          exact Nat.lt_irrefl _ hlt
        rw [if_neg (Nat.lt_asymm hlt), if_neg hne, if_neg hne, ih ⟨x, hx, rfl⟩]

theorem mem_insert {e : DocumentId × α} (h : e ∈ id.insert value table) :
    e = (id, value) ∨ e ∈ table := by
  induction table with
  | nil => exact .inl (List.mem_singleton.1 h)
  | cons entry rest ih =>
      unfold insert at h
      split at h
      · exact List.mem_cons.1 h
      · split at h
        · rcases List.mem_cons.1 h with rfl | h
          · exact .inl rfl
          · exact .inr (List.mem_cons_of_mem entry h)
        · rcases List.mem_cons.1 h with rfl | h
          · exact .inr List.mem_cons_self
          · exact (ih h).imp_right (List.mem_cons_of_mem entry)

theorem pairwise_insert (h : table.Pairwise (·.1.number < ·.1.number)) :
    (id.insert value table).Pairwise (·.1.number < ·.1.number) := by
  induction table with
  | nil => exact List.pairwise_singleton _ _
  | cons entry rest ih =>
      obtain ⟨hfirst, hrest⟩ := List.pairwise_cons.1 h
      unfold insert
      split
      · next hlt =>
        refine List.pairwise_cons.2 ⟨List.forall_mem_cons.2 ⟨hlt, fun e he => ?_⟩, h⟩
        exact Nat.lt_trans hlt (hfirst e he)
      · next hle =>
        split
        · next heq => exact List.pairwise_cons.2 ⟨fun e he => heq ▸ hfirst e he, hrest⟩
        · next hne =>
          refine List.pairwise_cons.2 ⟨fun e he => ?_, ih hrest⟩
          rcases mem_insert he with rfl | he
          · have hnumber : entry.1.number ≠ id.number := fun heq => hne (congrArg DocumentId.mk heq)
            exact Nat.lt_of_le_of_ne (Nat.le_of_not_lt hle) hnumber
          · exact hfirst e he

/-- A value that was put in is found, whatever the table. -/
theorem find?_insert_self (id : DocumentId) (value : α) (table : List (DocumentId × α)) :
    (id.insert value table).find? (·.1 == id) = some (id, value) := by
  induction table with
  | nil => simp [insert]
  | cons entry rest ih =>
      unfold insert
      split
      · simp
      · split
        · simp
        · next hne =>
          rw [List.find?_cons_of_neg (by simpa using hne)]
          exact ih

end DocumentId


end FourthGen
