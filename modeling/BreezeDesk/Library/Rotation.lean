/-
  Rotating files.

  Lines are appended to the newest of a fixed number of files.  When a line does not fit there, the oldest file is
  given up and an empty one becomes the newest.  The files are listed from the newest to the oldest, each with its
  lines in order; a missing file is one without lines.

  * `append_bounded`  — no file outgrows the limit, as long as no line does;
  * `append_content`  — what is kept, from the oldest file to the newest, ends what was kept and the line;
  * `foldl_append_content` — over a sequence of lines.

  Nothing here mentions a particular program.
-/
import Mathlib

namespace BreezeDesk.Rotation

variable {α : Type*} (size : α → Nat) (limit : Nat)

def total (file : List α) : Nat := (file.map size).sum

def rotate (files : List (List α)) : List (List α) := [] :: files.dropLast

/-- Whether the newest file has something and has no room for the line. -/
def Full (line : α) (files : List (List α)) : Prop :=
  0 < total size (files.headD []) ∧ limit < total size (files.headD []) + size line

instance (line : α) (files : List (List α)) : Decidable (Full size limit line files) :=
  inferInstanceAs (Decidable (_ ∧ _))

def append (line : α) (files : List (List α)) : List (List α) :=
  (if Full size limit line files then rotate files else files).modifyHead (· ++ [line])

/-- What is kept, from the oldest line to the newest. -/
def content (files : List (List α)) : List α := files.reverse.flatten

variable {size limit} {line : α} {files : List (List α)}

theorem length_rotate (h : files ≠ []) : (rotate files).length = files.length := by
  have hpos := List.length_pos_iff.mpr h
  rw [rotate, List.length_cons, List.length_dropLast]
  omega

theorem length_append (h : files ≠ []) : (append size limit line files).length = files.length := by
  unfold append
  rw [List.length_modifyHead]
  split
  · exact length_rotate h
  · rfl

theorem content_rotate (h : files ≠ []) : content (rotate files) <:+ content files := by
  obtain ⟨front, oldest, rfl⟩ : ∃ front oldest, files = front ++ [oldest] :=
    ⟨files.dropLast, files.getLast h, (List.dropLast_append_getLast h).symm⟩
  unfold content rotate
  rw [List.dropLast_concat, List.reverse_cons, List.flatten_append, List.reverse_append, List.flatten_append]
  simp

theorem content_modifyHead (h : files ≠ []) : content (files.modifyHead (· ++ [line])) = content files ++ [line] := by
  obtain ⟨newest, older, rfl⟩ := List.exists_cons_of_ne_nil h
  unfold content
  simp [List.append_assoc]

/-- The newest line stays, and what is given up is given up from the old end. -/
theorem append_content (h : files ≠ []) : ∃ kept, kept <:+ content files ∧
    content (append size limit line files) = kept ++ [line] := by
  unfold append
  split
  · refine ⟨content (rotate files), content_rotate h, content_modifyHead ?_⟩
    exact List.cons_ne_nil _ _
  · exact ⟨content files, List.suffix_rfl, content_modifyHead h⟩

theorem total_concat (file : List α) : total size (file ++ [line]) = total size file + size line := by
  rw [total, List.map_append, List.sum_append, total]
  simp

theorem append_bounded (hfiles : ∀ file ∈ files, total size file ≤ limit) (hline : size line ≤ limit) :
    ∀ file ∈ append size limit line files, total size file ≤ limit := by
  unfold append
  split
  · intro file hmem
    rcases List.mem_cons.mp hmem with rfl | hmem
    · rw [total_concat]
      simpa [total] using hline
    · exact hfiles file (List.dropLast_subset _ hmem)
  next hroom =>
    intro file hmem
    cases files with
    | nil => exact absurd hmem List.not_mem_nil
    | cons newest older =>
      rcases List.mem_cons.mp hmem with rfl | hmem
      · rw [total_concat]
        -- an empty file takes every line
        by_cases hempty : total size newest = 0
        · omega
        · by_contra hover
          exact hroom ⟨Nat.pos_of_ne_zero hempty, Nat.lt_of_not_le hover⟩
      · exact hfiles file (List.mem_cons_of_mem _ hmem)

/-- **A sequence of lines**: what is kept is an end of what was kept and the lines, and with a line there is one. -/
theorem foldl_append_content (lines : List α) : ∀ files : List (List α), files ≠ [] →
    content (lines.foldl (fun files line => append size limit line files) files) <:+ content files ++ lines ∧
      (content files ≠ [] ∨ lines ≠ [] →
        content (lines.foldl (fun files line => append size limit line files) files) ≠ []) := by
  induction lines with
  | nil => exact fun files _ => ⟨by simp, fun hsome => hsome.resolve_right fun hne => hne rfl⟩
  | cons line rest ih =>
    intro files h
    have hnext : append size limit line files ≠ [] := by
      rw [← List.length_pos_iff, length_append h]
      exact List.length_pos_iff.mpr h
    obtain ⟨hsuffix, hsome⟩ := ih _ hnext
    obtain ⟨kept, ⟨older, hkept⟩, hcontent⟩ := @append_content _ size limit line _ h
    rw [List.foldl_cons]
    refine ⟨hsuffix.trans ⟨older, ?_⟩, fun _ => hsome (.inl ?_)⟩
    · rw [hcontent, ← hkept]
      simp [List.append_assoc]
    · rw [hcontent]
      exact List.append_ne_nil_of_right_ne_nil _ (List.cons_ne_nil _ _)

end BreezeDesk.Rotation
