import Mathlib.Data.List.Basic
import Mathlib.Order.Lattice
/-!
# Pages of an ordered table

Rows are kept in the order of their keys, one row for a key. A reader takes them in pages: the
first rows behind the key it has come to.
-/

open List

namespace Lib

variable {κ β : Type} [LinearOrder κ] (key : β → κ)

def Ordered (rows : List β) : Prop := rows.Pairwise fun a b => key a < key b

def upsert (row : β) : List β → List β
  | [] => [row]
  | other :: rest =>
    if key row < key other then row :: other :: rest
    else if key other < key row then other :: upsert row rest
    else row :: rest

def page (limit : Nat) (since : κ) (rows : List β) : List β :=
  (rows.filter fun row => since < key row).take limit

def reached (since : κ) (rows : List β) : κ := (rows.getLast?.map key).getD since

variable {key} {rows : List β} {row x : β} {limit : Nat} {since : κ}

theorem mem_upsert (h : Ordered key rows) : x ∈ upsert key row rows ↔ x = row ∨ x ∈ rows ∧ key x ≠ key row := by
  induction rows with
  | nil => simp [upsert]
  | cons other rest ih =>
    obtain ⟨hf, hr⟩ := pairwise_cons.1 h
    rw [upsert]
    split
    · rename_i hlt
      have hne : x ∈ other :: rest → key x ≠ key row := by
        intro hx
        rcases mem_cons.1 hx with rfl | hx
        · exact hlt.ne'
        · exact (hlt.trans (hf x hx)).ne'
      rw [mem_cons]
      exact or_congr_right ⟨fun hx => ⟨hx, hne hx⟩, And.left⟩
    · split
      · rename_i hlt
        rw [mem_cons, mem_cons, ih hr]
        constructor
        · rintro (rfl | rfl | ⟨hx, hne⟩)
          · exact .inr ⟨.inl rfl, hlt.ne⟩
          · exact .inl rfl
          · exact .inr ⟨.inr hx, hne⟩
        · rintro (rfl | ⟨rfl | hx, hne⟩)
          · exact .inr (.inl rfl)
          · exact .inl rfl
          · exact .inr (.inr ⟨hx, hne⟩)
      · rename_i hnot hnot'
        have heq : key row = key other := le_antisymm (not_lt.1 hnot') (not_lt.1 hnot)
        rw [mem_cons, mem_cons]
        constructor
        · rintro (rfl | hx)
          · exact .inl rfl
          · exact .inr ⟨.inr hx, fun hx' => (hf x hx).ne (heq ▸ hx').symm⟩
        · rintro (rfl | ⟨rfl | hx, hne⟩)
          · exact .inl rfl
          · exact absurd heq.symm hne
          · exact .inr hx

theorem ordered_upsert (row : β) (h : Ordered key rows) : Ordered key (upsert key row rows) := by
  induction rows with
  | nil => exact pairwise_singleton _ _
  | cons other rest ih =>
    obtain ⟨hf, hr⟩ := pairwise_cons.1 h
    rw [upsert]
    split
    · rename_i hlt
      refine pairwise_cons.2 ⟨fun x hx => ?_, h⟩
      rcases mem_cons.1 hx with rfl | hx
      · exact hlt
      · exact hlt.trans (hf x hx)
    · split
      · rename_i hlt
        refine pairwise_cons.2 ⟨fun x hx => ?_, ih hr⟩
        rcases (mem_upsert hr).1 hx with rfl | hx
        · exact hlt
        · exact hf x hx.1
      · rename_i hnot hnot'
        have heq : key row = key other := le_antisymm (not_lt.1 hnot') (not_lt.1 hnot)
        exact pairwise_cons.2 ⟨fun x hx => heq ▸ hf x hx, hr⟩

theorem ordered_page (h : Ordered key rows) : Ordered key (page key limit since rows) :=
  (h.sublist filter_sublist).sublist (take_sublist _ _)

theorem mem_of_mem_page (h : x ∈ page key limit since rows) : x ∈ rows ∧ since < key x := by
  simpa using mem_of_mem_take h

omit [LinearOrder κ] in
theorem reached_concat (since : κ) (rows : List β) (last : β) : reached key since (rows ++ [last]) = key last := by
  simp [reached]

theorem le_reached (h : Ordered key rows) (hx : x ∈ rows) : key x ≤ reached key since rows := by
  rcases eq_nil_or_concat' rows with rfl | ⟨before, last, rfl⟩
  · exact absurd hx not_mem_nil
  · rw [reached_concat]
    rcases mem_append.1 hx with hx | hx
    · exact ((pairwise_append.1 h).2.2 x hx last (mem_singleton_self last)).le
    · rw [mem_singleton.1 hx]

omit [LinearOrder κ] in
theorem reached_cases (since : κ) (rows : List β) :
    rows = [] ∧ reached key since rows = since ∨ ∃ last ∈ rows, reached key since rows = key last := by
  rcases eq_nil_or_concat' rows with rfl | ⟨before, last, rfl⟩
  · exact .inl ⟨rfl, rfl⟩
  · exact .inr ⟨last, by simp, reached_concat since before last⟩

theorem since_le_reached (limit : Nat) (since : κ) (rows : List β) :
    since ≤ reached key since (page key limit since rows) := by
  rcases reached_cases since (page key limit since rows) with ⟨-, hr⟩ | ⟨last, hl, hr⟩
  · exact hr.ge
  · rw [hr]
    exact (mem_of_mem_page hl).2.le

/-- No row is skipped: the page is what stands behind `since` and not behind its last row. -/
theorem mem_page_iff (h : Ordered key rows) : x ∈ page key limit since rows ↔
    x ∈ rows ∧ since < key x ∧ key x ≤ reached key since (page key limit since rows) := by
  constructor
  · intro hx
    obtain ⟨hmem, hlt⟩ := mem_of_mem_page hx
    exact ⟨hmem, hlt, le_reached (ordered_page h) hx⟩
  · rintro ⟨hmem, hlt, hle⟩
    have hf : x ∈ rows.filter fun row => since < key row := mem_filter.2 ⟨hmem, by simpa using hlt⟩
    have ho : Ordered key (rows.filter fun row => since < key row) := h.sublist filter_sublist
    rw [← take_append_drop limit (rows.filter fun row => since < key row)] at hf ho
    rcases mem_append.1 hf with hx | hx
    · exact hx
    · -- a row that was cut off stands behind every row of the page
      rcases reached_cases since (page key limit since rows) with ⟨-, hr⟩ | ⟨last, hl, hr⟩
      · exact absurd (hr ▸ hle) (not_le.2 hlt)
      · exact absurd (hr ▸ hle) (not_le.2 ((pairwise_append.1 ho).2.2 last hl x hx))

theorem page_eq_nil_iff (hl : 0 < limit) : page key limit since rows = [] ↔ ∀ x ∈ rows, key x ≤ since := by
  rw [page, take_eq_nil_iff]
  simp [Nat.pos_iff_ne_zero.1 hl]

/-- Behind a row that is behind the key there are fewer rows. -/
theorem remaining_lt (h : x ∈ rows) (hlt : since < key x) : (rows.filter fun row => key x < key row).length <
    (rows.filter fun row => since < key row).length := by
  have hf : (rows.filter fun row => key x < key row) =
      (rows.filter fun row => since < key row).filter fun row => key x < key row := by
    rw [filter_filter]
    refine filter_congr fun row _ => ?_
    rw [eq_comm, Bool.and_eq_left_iff_imp]
    intro hrow
    exact decide_eq_true (hlt.trans (of_decide_eq_true hrow))
  rw [hf, length_filter_lt_length_iff_exists]
  exact ⟨x, mem_filter.2 ⟨h, decide_eq_true hlt⟩, by simp⟩

end Lib
