/-
  The lines of an exported cue.

  Whatever the maximum, the text of a cue is the simplified text on one line or its wrapped lines
  (`payloadLines_cases`).  Either way a line is a part of the simplified text without line breaks, no line is
  blank unless the text is, and the lines together show what the text shows.
-/
import BreezeDesk.Transcript.VisibleText
import BreezeDesk.Transcript.Wrapping

namespace BreezeDesk

open Loop

variable {text : QString} {c : QChar} {maximum : Int}

theorem trimmed_part (text : QString) : trimmed text <:+: text := by
  obtain ⟨before, after, htext, -⟩ := trimmed_between text
  exact ⟨before, after, htext.symm⟩

/-- White space other than the space is simplified away. -/
theorem not_mem_simplified (hspace : isSpace c = true) (hne : c ≠ space) (text : QString) : c ∉ simplified text := by
  intro hmem
  rcases mem_simplified hmem with h | h
  · exact hne h
  · rw [hspace] at h
    cases h

theorem lineFeed_not_mem_simplified (text : QString) : lineFeed ∉ simplified text :=
  not_mem_simplified (by decide) (by decide) text

/-- A line of a text: a part of it that begins with a visible character. -/
structure LineOf (text line : QString) : Prop where
  part : line <:+: text
  head : ∀ c ∈ line.head?, isSpace c = false

theorem LineOf.trimmed {line : QString} (h : line <:+: text) : LineOf text (trimmed line) :=
  ⟨(trimmed_part line).trans h, (trimmed_ends line).1⟩

/-- What the turns of the loop keep: the lines and what remains are lines of the text, together they show what
    it shows, and one of them is not empty. -/
structure LinesWithin (text : QString) (state : List QString × QString) : Prop where
  lines : ∀ line ∈ state.1, LineOf text line
  remaining : LineOf text state.2
  ne_nil : state.1 ≠ [] ∨ state.2 ≠ []
  shown : state.1.flatMap visible ++ visible state.2 = visible text

/-- What holds of the lines when the loop ends. -/
structure LinesOf (text : QString) (out : List QString) : Prop where
  lines : ∀ line ∈ out, LineOf text line
  ne_nil : out ≠ []
  shown : out.flatMap visible = visible text

theorem forall_mem_concat {lines : List QString} {line : QString} (hlines : ∀ other ∈ lines, LineOf text other)
    (hline : LineOf text line) : ∀ other ∈ lines ++ [line], LineOf text other := by
  intro other hother
  rcases List.mem_append.mp hother with hold | hnew
  · exact hlines other hold
  · rw [List.mem_singleton.mp hnew]
    exact hline

theorem flatMap_concat (lines : List QString) (line : QString) :
    (lines ++ [line]).flatMap visible = lines.flatMap visible ++ visible line := by
  rw [List.flatMap_append, List.flatMap_singleton]

theorem wrapTurn_keeps (maximum : Nat) (text : QString) :
    TurnKeeps (wrapTurn maximum) (LinesWithin text) (LinesOf text) := by
  rintro ⟨lines, remaining⟩ ⟨hlines, hremaining, hne, hshown⟩
  unfold wrapTurn
  dsimp only
  by_cases hlong : maximum < remaining.length
  · rw [if_pos hlong]
    -- both sides of the cut are trimmed
    generalize wrapAt maximum remaining = cut
    have htake : LineOf text (trimmed (remaining.take cut)) :=
      LineOf.trimmed ((List.take_prefix _ _).isInfix.trans hremaining.part)
    have hdrop : LineOf text (trimmed (remaining.drop cut)) :=
      LineOf.trimmed ((List.drop_suffix _ _).isInfix.trans hremaining.part)
    refine ⟨forall_mem_concat hlines htake, hdrop, Or.inl (by simp), ?_⟩
    show (lines ++ [trimmed (remaining.take cut)]).flatMap visible ++ visible (trimmed (remaining.drop cut)) = _
    rw [flatMap_concat, visible_trimmed, visible_trimmed, List.append_assoc, ← visible_append, List.take_append_drop]
    exact hshown
  · rw [if_neg hlong]
    cases remaining with
    | nil =>
      refine ⟨hlines, hne.resolve_right fun h => h rfl, ?_⟩
      rw [← hshown]
      exact (List.append_nil _).symm
    | cons d rest =>
      refine ⟨forall_mem_concat hlines hremaining, by simp, ?_⟩
      show (lines ++ [d :: rest]).flatMap visible = _
      rw [flatMap_concat]
      exact hshown

/-- **The lines** of the loop. -/
theorem wrapLines_within {maximum : Nat} (hmaximum : 0 < maximum) {display : QString}
    (hne : simplified display ≠ []) : LinesOf (simplified display) (wrapLines maximum (simplified display)) := by
  have hends := (wrapped_wrapLines hmaximum display).ends [] _ (Nat.lt_succ_self _)
  apply run_kept (wrapTurn_keeps maximum (simplified display)) _ hends
  constructor
  · intro line hline
    cases hline
  · exact ⟨List.infix_rfl, head_simplified display⟩
  · exact Or.inr hne
  · rfl

/-! ## Payloads -/

/-- The lines of the text of a cue. -/
def payloadLines (display : QString) (maximum : Int) : List QString :=
  (subtitleText display maximum).splitOn lineFeed

/-- **The payload** is one line, or the lines of the loop. -/
theorem payloadLines_cases (display : QString) (maximum : Int) :
    ((maximum ≤ 0 ∨ (simplified display).length ≤ maximum) ∧ payloadLines display maximum = [simplified display]) ∨
      (0 < maximum ∧ simplified display ≠ [] ∧
        payloadLines display maximum = wrapLines maximum.toNat (simplified display)) := by
  unfold payloadLines subtitleText
  dsimp only
  by_cases hshort : maximum ≤ 0 ∨ (simplified display).length ≤ maximum
  · rw [if_pos hshort, List.splitOn_eq_singleton (lineFeed_not_mem_simplified display)]
    exact Or.inl ⟨hshort, rfl⟩
  · obtain ⟨hpos, hlong⟩ := not_or.mp hshort
    have hne : simplified display ≠ [] := by
      intro hnil
      rw [hnil] at hlong
      exact hlong (by show (0 : Int) ≤ maximum; omega)
    have hlines := wrapLines_within (by omega : 0 < maximum.toNat) hne
    rw [if_neg hshort]
    refine Or.inr ⟨by omega, hne, ?_⟩
    unfold joinLines
    exact List.splitOn_intercalate _ (fun line hline hmem =>
      lineFeed_not_mem_simplified display ((hlines.lines line hline).part.subset hmem)) hlines.ne_nil

theorem payloadLines_of_unwrapped (display : QString) (h : maximum ≤ 0) :
    payloadLines display maximum = [simplified display] := by
  rcases payloadLines_cases display maximum with ⟨-, hlines⟩ | ⟨hpos, -⟩
  · exact hlines
  · omega

/-- The lines of a payload, whatever the maximum. -/
theorem linesOf_payloadLines (display : QString) (maximum : Int) :
    LinesOf (simplified display) (payloadLines display maximum) := by
  rcases payloadLines_cases display maximum with ⟨-, hlines⟩ | ⟨hpos, hne, hlines⟩
  · rw [hlines]
    constructor
    · intro line hline
      rw [List.mem_singleton.mp hline]
      exact ⟨List.infix_rfl, head_simplified display⟩
    · simp
    · rw [List.flatMap_singleton]
  · rw [hlines]
    exact wrapLines_within (by omega) hne

theorem payloadLines_part (display : QString) (maximum : Int) :
    ∀ line ∈ payloadLines display maximum, line <:+: simplified display :=
  fun line hline => ((linesOf_payloadLines display maximum).lines line hline).part

/-- No line is empty unless the text is. -/
theorem payloadLines_ne_nil (display : QString) (maximum : Int) :
    payloadLines display maximum = [[]] ∨ ∀ line ∈ payloadLines display maximum, line ≠ [] := by
  rcases payloadLines_cases display maximum with ⟨-, hlines⟩ | ⟨hpos, -, hlines⟩
  · rw [hlines]
    cases hsimplified : simplified display with
    | nil => exact Or.inl rfl
    | cons c rest =>
      refine Or.inr fun line hline => ?_
      rw [List.mem_singleton.mp hline]
      exact List.cons_ne_nil c rest
  · rw [hlines]
    exact Or.inr (wrapped_wrapLines (by omega) display).ne_nil

/-- A line that begins with a visible character is not blank unless it is empty. -/
theorem LineOf.eq_nil_of_blank {line : QString} (h : LineOf text line) (hblank : Blank line) : line = [] := by
  cases line with
  | nil => rfl
  | cons c rest =>
    have hspace := (trimmed_eq_nil_iff _).mp hblank c (List.mem_cons_self ..)
    rw [h.head c rfl] at hspace
    cases hspace

/-- **What a payload shows**: every visible character of the text is on a line, and no other. -/
theorem mem_payloadLines (display : QString) (maximum : Int) (hvisible : isSpace c = false) :
    (∃ line ∈ payloadLines display maximum, c ∈ line) ↔ c ∈ display := by
  have hshown := (linesOf_payloadLines display maximum).shown
  rw [visible_splits.simplified] at hshown
  constructor
  · rintro ⟨line, hline, hc⟩
    have hmem : c ∈ (payloadLines display maximum).flatMap visible :=
      List.mem_flatMap.mpr ⟨line, hline, mem_visible.mpr ⟨hc, hvisible⟩⟩
    rw [hshown] at hmem
    exact (mem_visible.mp hmem).1
  · intro hc
    have hmem : c ∈ visible display := mem_visible.mpr ⟨hc, hvisible⟩
    rw [← hshown] at hmem
    obtain ⟨line, hline, hshow⟩ := List.mem_flatMap.mp hmem
    exact ⟨line, hline, (mem_visible.mp hshow).1⟩

end BreezeDesk
