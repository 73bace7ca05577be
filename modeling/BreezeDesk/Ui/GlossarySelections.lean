/-
  Switching glossary replacements in the editor.

  `setGlossaryReplacementApplied` switches one flag of a row's audit while the row shows what the audit renders
  to, and shows the new rendering then.  So a row that nobody has edited by hand stays one that shows its
  rendering (`Shows`), and every switch that changes a flag goes through.
-/
import BreezeDesk.Glossary.Selections
import BreezeDesk.Transcript.ManualEdits
import BreezeDesk.Ui.TranscriptEditor

namespace BreezeDesk

open Patch TranscriptSegmentModel

/-- One call, at a time. -/
structure Toggle where
  now : Int
  index : Int
  applied : Bool

/-- The calls one after the other, each of which has to succeed. -/
def toggleAll (platform : EditorPlatform) (row : Int) : EditorRows → List Toggle → Option EditorRows
  | rows, [] => some rows
  | rows, toggle :: rest => do
    let rows ← setGlossaryReplacementApplied platform toggle.now rows row toggle.index toggle.applied
    toggleAll platform row rows rest

def flagsAfter (flags : Nat → Bool) (toggles : List Toggle) : Nat → Bool :=
  toggles.foldl (fun flags toggle => Function.update flags toggle.index.toNat toggle.applied) flags

/-- Each call switches one of `count` flags to what it is not. -/
def ChangesFlags (count : Nat) : (Nat → Bool) → List Toggle → Prop
  | _, [] => True
  | flags, toggle :: rest =>
    (0 ≤ toggle.index ∧ toggle.index.toNat < count ∧ flags toggle.index.toNat ≠ toggle.applied) ∧
      ChangesFlags count (Function.update flags toggle.index.toNat toggle.applied) rest

instance decidableChangesFlags (count : Nat) : ∀ flags toggles, Decidable (ChangesFlags count flags toggles)
  | _, [] => inferInstanceAs (Decidable True)
  | flags, toggle :: rest =>
    have := decidableChangesFlags count (Function.update flags toggle.index.toNat toggle.applied) rest
    inferInstanceAs (Decidable (_ ∧ _))

variable {platform : EditorPlatform} {rows before after : EditorRows} {item : TranscriptSegment} {row : Int}
  {flags : Nat → Bool} {P : Pieces} {replacements : List GlossaryReplacement}

/-! ## Rows and flags -/

/-- Another row in the place of one. -/
theorem rowAt_replaced (h : rowAt rows row = some (before, item, after)) (other : TranscriptSegment) :
    rowAt (before ++ other :: after) row = some (before, other, after) := by
  have hrows := rowAt_eq_some h
  unfold rowAt at h ⊢
  by_cases hrow : row < 0
  · rw [if_pos hrow] at h
    cases h
  · rw [if_neg hrow] at h ⊢
    split at h
    · cases h
    · next found rest hdrop =>
      have hbefore : before = rows.take row.toNat := by
        cases h
        rfl
      have hlength : before.length = row.toNat := by
        have hrest := congrArg List.length hdrop
        rw [List.length_drop, List.length_cons] at hrest
        rw [hbefore, List.length_take]
        omega
      rw [← hlength, List.drop_left, List.take_left]

theorem getElem?_withFlags (flags : Nat → Bool) (replacements : List GlossaryReplacement) (index : Nat) :
    (withFlags flags 0 replacements)[index]? =
      replacements[index]?.map fun replacement => { replacement with applied := flags index } := by
  unfold withFlags
  rw [List.getElem?_map, List.getElem?_zipIdx, Option.map_map, Nat.zero_add]
  rfl

/-- Setting one entry is switching its flag. -/
theorem set_withFlags (flags : Nat → Bool) {index : Nat} {replacement : GlossaryReplacement}
    (h : replacements[index]? = some replacement)
    (applied : Bool) :
    (withFlags flags 0 replacements).set index { replacement with applied } =
      withFlags (Function.update flags index applied) 0 replacements := by
  refine List.ext_getElem? fun i => ?_
  rw [List.getElem?_set, getElem?_withFlags, getElem?_withFlags]
  by_cases hindex : index = i
  · subst hindex
    have hbound : index < (withFlags flags 0 replacements).length := by
      have hsome := getElem?_withFlags flags replacements index
      rw [h] at hsome
      exact (List.getElem?_eq_some_iff.mp hsome).1
    rw [if_pos rfl, if_pos hbound, h, Option.map_some, Function.update_self]
  · rw [if_neg hindex, Function.update_of_ne (Ne.symm hindex)]

/-! ## Rows that show their rendering -/

/-- Only an empty text has an empty selection. -/
theorem eq_nil_of_selection (hcanonical : ∀ e, .inr e ∈ P → e.canonicalText ≠ [])
    (horiginal : ∀ e, .inr e ∈ P → e.originalText ≠ []) (h : selection flags P = []) : P = [] := by
  cases P with
  | nil => rfl
  | cons p P =>
    cases p with
    | inl c => cases h
    | inr e =>
      have hread := (List.append_eq_nil_iff.mp h).1
      split at hread
      · exact absurd hread (hcanonical e (List.mem_cons_self ..))
      · exact absurd hread (horiginal e (List.mem_cons_self ..))

/-- The row shows what its audit, with these flags, renders to. -/
structure Shows (text : QString) (P : Pieces) (flags : Nat → Bool) (item : TranscriptSegment) : Prop where
  original : item.originalText = text
  audit : item.replacementAudit = auditToJson (withFlags flags 0 ((marks Edit.canonicalText 0 P).map placed))
  display : item.displayText = selection flags P

/-- When a switch goes through, and what it leaves. -/
theorem setGlossaryReplacementApplied_ok (now : Int) (rendered : QString) {index : Int} {applied : Bool}
    {replacement : GlossaryReplacement} (hrow : rowAt rows row = some (before, item, after)) (hnonneg : 0 ≤ index)
    (hentry : (auditFromJson item.replacementAudit)[index.toNat]? = some replacement)
    (hflag : replacement.applied ≠ applied)
    (hcurrent : renderAudit platform.toCharTables item.originalText (auditFromJson item.replacementAudit) =
      some item.displayText)
    (hupdated : renderAudit platform.toCharTables item.originalText
      ((auditFromJson item.replacementAudit).set index.toNat { replacement with applied }) = some rendered) :
    setGlossaryReplacementApplied platform now rows row index applied =
      some (before ++ { item with
        editedText := rendered
        replacementAudit := auditToJson
          ((auditFromJson item.replacementAudit).set index.toNat { replacement with applied })
        updatedAt := some now } :: after) := by
  unfold setGlossaryReplacementApplied
  rw [hrow]
  show (if index < 0 then none else _) = _
  rw [if_neg (Int.not_lt.mpr hnonneg), hentry]
  show (if replacement.applied = applied then none else _) = _
  rw [if_neg hflag, hcurrent]
  show (if item.displayText ≠ item.displayText then none else _) = _
  rw [if_neg (fun hne => hne rfl), hupdated]
  rfl

variable {text : QString} {result : GlossaryPostProcessResult}

/-- A row that shows its rendering shows it after a switch that changes a flag. -/
theorem setGlossaryReplacementApplied_shows (hP : PatchOf text result P) (now : Int) {index : Int} {applied : Bool}
    (hrow : rowAt rows row = some (before, item, after)) (hshows : Shows text P flags item)
    (hnonneg : 0 ≤ index) (hcount : index.toNat < (marks Edit.canonicalText 0 P).length)
    (hchange : flags index.toNat ≠ applied) :
    ∃ item', setGlossaryReplacementApplied platform now rows row index applied =
        some (before ++ item' :: after) ∧ Shows text P (Function.update flags index.toNat applied) item' := by
  have hbound : index.toNat < ((marks Edit.canonicalText 0 P).map placed).length := by
    rwa [List.length_map]
  have hsource := List.getElem?_eq_getElem hbound
  have haudit : auditFromJson item.replacementAudit =
      withFlags flags 0 ((marks Edit.canonicalText 0 P).map placed) := by
    rw [hshows.audit, auditFromJson_auditToJson]
  have hset := set_withFlags flags hsource applied
  have hentry := getElem?_withFlags flags ((marks Edit.canonicalText 0 P).map placed) index.toNat
  rw [hsource, Option.map_some, ← haudit] at hentry
  have hcurrent : renderAudit platform.toCharTables item.originalText (auditFromJson item.replacementAudit) =
      some item.displayText := by
    rw [haudit, hshows.original, hshows.display]
    exact renderAudit_selection hP flags
  have hgo := setGlossaryReplacementApplied_ok now (selection (Function.update flags index.toNat applied) P) hrow
    hnonneg hentry hchange hcurrent
    (by rw [haudit, hshows.original, hset]; exact renderAudit_selection hP _)
  refine ⟨_, hgo, hshows.original, ?_, ?_⟩
  · show auditToJson _ = _
    rw [haudit, hset]
  · unfold TranscriptSegment.displayText
    split
    · -- only an empty text has an empty rendering
      next hempty =>
      have hnil := eq_nil_of_selection hP.canonical_ne hP.original_ne (List.isEmpty_iff.mp hempty)
      have htext := hP.source_eq
      rw [hnil] at htext
      show item.originalText = _
      rw [hshows.original, ← htext, hnil]
      rfl
    · rfl

/-- **The run**: switches that change flags all go through, and the row shows the rendering of the last flags. -/
theorem toggleAll_shows (hP : PatchOf text result P) : ∀ (toggles : List Toggle) {flags : Nat → Bool}
    {rows : EditorRows} {item : TranscriptSegment}, rowAt rows row = some (before, item, after) →
    Shows text P flags item → ChangesFlags (marks Edit.canonicalText 0 P).length flags toggles →
    ∃ rows' item', toggleAll platform row rows toggles = some rows' ∧ rowAt rows' row = some (before, item', after) ∧
      Shows text P (flagsAfter flags toggles) item' := by
  intro toggles
  induction toggles with
  | nil => exact fun hrow hshows _ => ⟨_, _, rfl, hrow, hshows⟩
  | cons toggle rest ih =>
    intro flags rows item hrow hshows hchanges
    obtain ⟨⟨hnonneg, hcount, hchange⟩, hrest⟩ := hchanges
    obtain ⟨item', hstep, hshows'⟩ := setGlossaryReplacementApplied_shows hP toggle.now
      hrow hshows hnonneg hcount hchange
    obtain ⟨rows', last, hrun, hlast⟩ := ih (rowAt_replaced hrow item') hshows' hrest
    refine ⟨rows', last, ?_, hlast⟩
    rw [toggleAll, hstep]
    exact hrun

/-! ## Selections of an audit -/

/-- A row that nobody has edited by hand shows what its audit renders to. -/
theorem shows_of_not_handEdited (hP : PatchOf text result P) (horiginal : item.originalText = text)
    (haudit : item.replacementAudit = auditToJson (withFlags flags 0 ((marks Edit.canonicalText 0 P).map placed)))
    (hunedited : ¬ HandEdited platform.toCharTables item) : Shows text P flags item := by
  refine ⟨horiginal, haudit, ?_⟩
  have hrender := renderAudit_selection (t := platform.toCharTables) hP flags
  have hread := auditFromJson_auditToJson (withFlags flags 0 ((marks Edit.canonicalText 0 P).map placed))
  rw [← haudit] at hread
  have hshown := not_not.mp hunedited
  unfold renderedText at hshown
  rw [horiginal] at hshown
  split at hshown
  · -- an empty audit renders the original text
    next hempty =>
    rw [← auditFromJson_isEmpty, hread] at hempty
    rw [List.isEmpty_iff.mp hempty] at hrender
    exact (Option.some.inj hshown).symm.trans (Option.some.inj hrender)
  · rw [hread, hrender] at hshown
    exact (Option.some.inj hshown).symm

/-- **Every selection renders, and is reached by switching**: the audit of a post-processed text lists stretches `P`
    of the text; with all of them applied it renders to the processed text, with any choice of them to the text in
    which just these are replaced; and switches on a row that nobody has edited by hand end in the rendering of
    the last choice. -/
theorem glossary_selections (platform : EditorPlatform) (text : QString) {terms : List GlossaryTerm}
    (hterms : ∀ term ∈ terms, term.canonicalText ≠ []) :
    let t := platform.toCharTables
    let result := applyExplicitAliases t text terms
    ∃ P : Pieces, expand Edit.originalText P = text ∧
      result.replacements = (marks Edit.canonicalText 0 P).map placed ∧
      renderAudit t text result.replacements = some result.text ∧
      (∀ flags : Nat → Bool,
        renderAudit t text (withFlags flags 0 result.replacements) = some (selection flags P) ∧
        auditFromJson (auditToJson (withFlags flags 0 result.replacements)) =
          withFlags flags 0 result.replacements) ∧
      ∀ (rows before after : EditorRows) (row : Int) (item : TranscriptSegment) (flags : Nat → Bool)
        (toggles : List Toggle), rowAt rows row = some (before, item, after) → item.originalText = text →
        item.replacementAudit = auditToJson (withFlags flags 0 result.replacements) → ¬ HandEdited t item →
        ChangesFlags result.replacements.length flags toggles →
        ∃ rows' item', toggleAll platform row rows toggles = some rows' ∧
          rowAt rows' row = some (before, item', after) ∧ item'.originalText = text ∧
          item'.replacementAudit = auditToJson (withFlags (flagsAfter flags toggles) 0 result.replacements) ∧
          item'.displayText = selection (flagsAfter flags toggles) P := by
  intro t result
  obtain ⟨P, hP, haudit⟩ := applyExplicitAliases_patch (t := t) text hterms
  have hall := renderAudit_applyExplicitAliases (t := t) text hterms
  rw [auditFromJson_auditToJson] at hall
  refine ⟨P, hP.source_eq, haudit, hall, fun flags => ⟨?_, auditFromJson_auditToJson _⟩, ?_⟩
  · show renderAudit t text (withFlags flags 0 (applyExplicitAliases t text terms).replacements) = _
    rw [haudit]
    exact renderAudit_selection hP flags
  · intro rows before after row item flags toggles hrow horiginal hstored hunedited hchanges
    have hshows : Shows text P flags item :=
      shows_of_not_handEdited hP horiginal (by rw [hstored]; exact congrArg _ (congrArg _ haudit)) hunedited
    have hcount : (marks Edit.canonicalText 0 P).length = result.replacements.length := by
      show _ = (applyExplicitAliases t text terms).replacements.length
      rw [haudit, List.length_map]
    obtain ⟨rows', item', hrun, hlast, hfinal⟩ :=
      toggleAll_shows hP toggles hrow hshows (by rw [hcount]; exact hchanges)
    refine ⟨rows', item', hrun, hlast, hfinal.original, ?_, hfinal.display⟩
    rw [hfinal.audit]
    exact congrArg _ (congrArg _ haudit.symm)

/-- A row as the worker stores it for `selectionTerms`. -/
def selectionRow : TranscriptSegment :=
  { id := qs "s1", originalText := qs "Breeze Desk now", editedText := qs "BreezeDesk today"
    replacementAudit := auditToJson
      (applyExplicitAliases asciiTables (qs "Breeze Desk now") selectionTerms).replacements }

/-- Both replacements switched off, and the second one on again. -/
theorem glossary_selections_toggled :
    ∃ rows', toggleAll asciiPlatform 0 [selectionRow] [⟨1, 0, false⟩, ⟨2, 1, false⟩, ⟨3, 1, true⟩] = some rows' ∧
      rows'.map (·.displayText) = [qs "Breeze Desk today"] := by
  obtain ⟨P, -, -, -, hflags, hrows⟩ := glossary_selections asciiPlatform (qs "Breeze Desk now")
    (by decide : ∀ term ∈ selectionTerms, term.canonicalText ≠ [])
  obtain ⟨rows', item', hrun, hlast, -, -, hdisplay⟩ := hrows [selectionRow] [] [] 0 selectionRow (fun _ => true)
    [⟨1, 0, false⟩, ⟨2, 1, false⟩, ⟨3, 1, true⟩] rfl rfl (congrArg auditToJson (by decide)) (by decide) (by decide)
  refine ⟨rows', hrun, ?_⟩
  have hrendered := (hflags (flagsAfter (fun _ => true) [⟨1, 0, false⟩, ⟨2, 1, false⟩, ⟨3, 1, true⟩])).1
  rw [rowAt_eq_some hlast]
  show [item'.displayText] = _
  rw [hdisplay]
  have heval : renderAudit asciiPlatform.toCharTables (qs "Breeze Desk now")
      (withFlags (flagsAfter (fun _ => true) [⟨1, 0, false⟩, ⟨2, 1, false⟩, ⟨3, 1, true⟩]) 0
        (applyExplicitAliases asciiPlatform.toCharTables (qs "Breeze Desk now") selectionTerms).replacements) =
      some (qs "Breeze Desk today") := by decide
  rw [Option.some.inj (hrendered.symm.trans heval)]

end BreezeDesk
