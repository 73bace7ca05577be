/-
  Pages of a sorted table.

  `page limit offset rows` is what `LIMIT limit OFFSET offset` returns.  A row of the table is in front of
  the page, on it, or behind it, and behind a page there is a row only when the page is full
  (`page_cases`).  Over a table that changes between two reads the offset counts rows, not keys:
  `Covered` says that the rows in front of the offset are covered by what has been read.

  Nothing here mentions a particular program.
-/
import Mathlib.Data.List.Sort
import Mathlib.Order.Lattice

namespace BreezeDesk.Paging

variable {ρ κ : Type*}

def page (limit offset : Nat) (rows : List ρ) : List ρ := (rows.drop offset).take limit

/-- Where a row of a sorted table is. -/
theorem page_cases [LE κ] {key : ρ → κ} {limit offset : Nat} {rows : List ρ}
    (hsorted : rows.Pairwise fun a b => key a ≤ key b) {row : ρ} (hrow : row ∈ rows) :
    row ∈ rows.take offset ∨ row ∈ page limit offset rows ∨
      (page limit offset rows).length = limit ∧ offset + limit < rows.length ∧
        ∀ other ∈ page limit offset rows, key other ≤ key row := by
  rw [← List.take_append_drop offset rows, List.mem_append] at hrow
  rcases hrow with hfront | hrest
  · exact Or.inl hfront
  · right
    have htail : (rows.drop offset).Pairwise fun a b => key a ≤ key b :=
      hsorted.sublist (List.drop_sublist offset rows)
    rw [← List.take_append_drop limit (rows.drop offset)] at hrest htail
    rcases List.mem_append.mp hrest with hpage | hbehind
    · exact Or.inl hpage
    · right
      have hlength : limit < (rows.drop offset).length := by
        have hpos := List.length_pos_of_mem hbehind
        rw [List.length_drop] at hpos
        omega
      refine ⟨List.length_take_of_le hlength.le, ?_, fun other hother => ?_⟩
      · rw [List.length_drop] at hlength
        omega
      · exact (List.pairwise_append.mp htail).2.2 other hother row hbehind

/-- Every row in front of the offset is no later than some row that has been read. -/
def Covered [LE κ] (key : ρ → κ) (read : List ρ) (offset : Nat) (rows : List ρ) : Prop :=
  ∀ row ∈ rows.take offset, ∃ seen ∈ read, key row ≤ key seen

/-- What has been read is complete up to the latest row of it: a row of that key has been read. -/
def Complete [LE κ] (key : ρ → κ) (read : List ρ) (known : κ) (P : ρ → Prop) : Prop :=
  (∃ seen ∈ read, known ≤ key seen) → ∃ seen ∈ read, P seen

section

variable [PartialOrder κ] {key : ρ → κ} {limit offset : Nat} {rows read : List ρ} {P : ρ → Prop} {row : ρ}

/-- **Reading a page** whose front is covered keeps the rows read complete. -/
theorem complete_page (hsorted : rows.Pairwise fun a b => key a ≤ key b)
    (hcovered : Covered key read offset rows) (hread : Complete key read (key row) P) (hrow : row ∈ rows)
    (hP : P row) (hunique : ∀ other ∈ rows, key other = key row → other = row) :
    Complete key (read ++ page limit offset rows) (key row) P := by
  rintro ⟨seen, hseen, hle⟩
  have hfound : (∃ seen ∈ read, P seen) → ∃ seen ∈ read ++ page limit offset rows, P seen :=
    fun ⟨one, hone, hPone⟩ => ⟨one, List.mem_append_left _ hone, hPone⟩
  have hhere : row ∈ page limit offset rows → ∃ seen ∈ read ++ page limit offset rows, P seen :=
    fun hpage => ⟨row, List.mem_append_right _ hpage, hP⟩
  rcases List.mem_append.mp hseen with hold | hnew
  · exact hfound (hread ⟨seen, hold, hle⟩)
  · rcases page_cases hsorted hrow with hfront | hpage | ⟨-, -, hbehind⟩
    · exact hfound (hread (hcovered row hfront))
    · exact hhere hpage
    · -- the last row of the page is the row itself
      have hsame : key seen = key row := le_antisymm (hbehind seen hnew) hle
      have hmem : seen ∈ rows := List.mem_of_mem_drop (List.mem_of_mem_take hnew)
      exact hhere (hunique seen hmem hsame ▸ hnew)

/-- **The last page**: nothing is behind it. -/
theorem complete_last (hsorted : rows.Pairwise fun a b => key a ≤ key b)
    (hcovered : Covered key read offset rows) (hread : Complete key read (key row) P) (hrow : row ∈ rows)
    (hP : P row) (hlimit : 0 < limit)
    (hlast : page limit offset rows = [] ∨ rows.length ≤ offset + (page limit offset rows).length) :
    ∃ seen ∈ read ++ page limit offset rows, P seen := by
  rcases page_cases hsorted hrow with hfront | hpage | ⟨hfull, hmore, -⟩
  · obtain ⟨one, hone, hPone⟩ := hread (hcovered row hfront)
    exact ⟨one, List.mem_append_left _ hone, hPone⟩
  · exact ⟨row, List.mem_append_right _ hpage, hP⟩
  · rcases hlast with hempty | hend
    · rw [hempty, List.length_nil] at hfull
      omega
    · rw [hfull] at hend
      omega

end

end BreezeDesk.Paging
