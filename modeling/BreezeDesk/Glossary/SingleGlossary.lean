/-
  Migration 9, `single_glossary`: the terms of all profiles in one.

  Of the terms whose canonical texts agree up to ASCII case, the one that comes first stays: one of the default
  profile before others, an enabled one before disabled ones, then by priority, by the time of the last change,
  and by the id.  When the rest is deleted, moving what is left into the default profile breaks no constraint
  (`updateProfileIds_of_distinct`), and the other profiles have no terms to take with them.

  * `singleGlossary_consolidates` — what the migration leaves.
-/
import BreezeDesk.Glossary.GlossaryTables
import BreezeDesk.Database.MigrationStatements
import Mathlib.Data.Finset.Max
import Mathlib.Data.List.Lex
import Mathlib.Data.Prod.Lex

namespace BreezeDesk.GlossaryTables

/-! ## The statements -/

def defaultId : QString := qs "default"

def defaultProfile (now : QString) : GlossaryProfile where
  id := defaultId
  name := qs "Glossary"
  createdAt := now
  updatedAt := now

/-- `INSERT OR IGNORE INTO glossary_profiles`. -/
def insertDefaultProfile (now : QString) (t : GlossaryTables) : GlossaryTables :=
  (t.insertProfile (defaultProfile now)).getD t

/-- `ORDER BY CASE WHEN profile_id='default' THEN 0 ELSE 1 END,enabled DESC,priority DESC,updated_at DESC,id`. -/
def preference (row : TermRow) : ℕ ×ₗ ℤ ×ₗ ℤ ×ₗ (List ℕ)ᵒᵈ ×ₗ List ℕ :=
  toLex (if row.profileId = defaultId then 0 else 1, toLex (if row.enabled then -1 else 0, toLex (-row.priority,
    toLex (OrderDual.toDual (textBytes row.updatedAt), textBytes row.id))))

/-- The partition: `canonical_text COLLATE NOCASE`. -/
def SameForm (a b : TermRow) : Prop := nocase a.canonicalText = nocase b.canonicalText

instance (a : TermRow) : DecidablePred (SameForm a) := fun b => inferInstanceAs (Decidable (_ = _))

/-- `ROW_NUMBER()` in the partition. -/
def duplicateRank (rows : List TermRow) (row : TermRow) : Nat :=
  1 + (rows.filter fun other => SameForm other row ∧ preference other < preference row).length

/-- `DELETE FROM glossary_terms`, where `duplicate_rank>1`. -/
def deleteDuplicates (t : GlossaryTables) : GlossaryTables :=
  t.deleteTerms fun row => 1 < duplicateRank t.terms row

def deleteOtherProfiles (t : GlossaryTables) : GlossaryTables :=
  t.deleteProfiles fun profile => profile.id ≠ defaultId

/-- What each statement does; none of them gives a result where a constraint is violated. -/
def singleGlossaryStatements (now : QString) : List (QString × (GlossaryTables → Option GlossaryTables)) :=
  Migrations.singleGlossarySchema.zip
    [fun t => some (t.insertDefaultProfile now), fun t => some t.deleteDuplicates,
      fun t => t.updateProfileIds defaultId, fun t => some t.deleteOtherProfiles]

def singleGlossary (now : QString) (t : GlossaryTables) : Option GlossaryTables :=
  (singleGlossaryStatements now).foldlM (fun t statement => statement.2 t) t

/-! ## What stays -/

variable {t : GlossaryTables} {row other : TermRow} {rows : List TermRow}

/-- The first of its form. -/
def IsFirst (rows : List TermRow) (row : TermRow) : Prop :=
  ∀ other ∈ rows, SameForm other row → preference row ≤ preference other

instance (rows : List TermRow) : DecidablePred (IsFirst rows) := fun row =>
  inferInstanceAs (Decidable (∀ other ∈ rows, SameForm other row → preference row ≤ preference other))

theorem not_duplicate_iff : ¬ 1 < duplicateRank rows row ↔ IsFirst rows row := by
  unfold duplicateRank IsFirst
  have hrank : ¬ 1 < 1 + (rows.filter fun other => SameForm other row ∧ preference other < preference row).length ↔
      (rows.filter fun other => SameForm other row ∧ preference other < preference row) = [] := by
    rw [← List.length_eq_zero_iff]
    omega
  rw [hrank, List.filter_eq_nil_iff]
  refine forall₂_congr fun other _ => ?_
  rw [decide_eq_true_eq, not_and, not_lt]

/-- Every form has a first term. -/
theorem exists_isFirst (hrow : row ∈ rows) : ∃ first ∈ rows, SameForm first row ∧ IsFirst rows first := by
  obtain ⟨first, hfirst, hleast⟩ := Finset.exists_min_image ((rows.filter (SameForm · row)).toFinset) preference
    ⟨row, List.mem_toFinset.mpr (List.mem_filter.mpr ⟨hrow, decide_eq_true rfl⟩)⟩
  obtain ⟨hmem, hsame⟩ := List.mem_filter.mp (List.mem_toFinset.mp hfirst)
  have hsame : SameForm first row := of_decide_eq_true hsame
  refine ⟨first, hmem, hsame, fun other hother hform => ?_⟩
  refine hleast other (List.mem_toFinset.mpr (List.mem_filter.mpr ⟨hother, decide_eq_true ?_⟩))
  exact Eq.trans hform hsame

theorem termKey_of_preference (h : preference row = preference other) : termKey row = termKey other :=
  congrArg (fun key => (ofLex (ofLex (ofLex (ofLex key).2).2).2).2) h

/-- ... and only one, because the ids differ. -/
theorem IsFirst.eq (hrow : row ∈ t.terms) (hother : other ∈ t.terms) (hfirst : IsFirst t.terms row)
    (hfirst' : IsFirst t.terms other) (hsame : SameForm row other) : row = other := by
  have hle := hfirst other hother (Eq.symm hsame)
  have hge := hfirst' row hrow hsame
  exact eq_of_termKey hrow hother (termKey_of_preference (le_antisymm hle hge))

theorem deleteDuplicates_terms (t : GlossaryTables) :
    t.deleteDuplicates.terms = t.terms.filter fun row => IsFirst t.terms row := by
  refine List.filter_congr fun row _ => ?_
  rw [← decide_not, decide_eq_decide]
  exact not_duplicate_iff

theorem deleteDuplicates_distinct (t : GlossaryTables) : t.deleteDuplicates.terms.Pairwise
    fun a b => nocase a.canonicalText ≠ nocase b.canonicalText := by
  rw [deleteDuplicates_terms]
  -- two rows of one form would be one row, and no row stands twice
  have hnodup : (t.terms.filter fun row => IsFirst t.terms row).Nodup := t.termIds.of_map.filter _
  refine hnodup.imp_of_mem fun {a b} ha hb hne hsame => hne ?_
  obtain ⟨hmem, hfirst⟩ := List.mem_filter.mp ha
  obtain ⟨hmem', hfirst'⟩ := List.mem_filter.mp hb
  exact (of_decide_eq_true hfirst : IsFirst t.terms a).eq hmem hmem' (of_decide_eq_true hfirst') hsame

/-! ## The profiles -/

theorem insertDefaultProfile_spec (now : QString) (t : GlossaryTables) :
    defaultId ∈ (t.insertDefaultProfile now).profiles.map (·.id) ∧
      (t.insertDefaultProfile now).terms = t.terms := by
  unfold insertDefaultProfile
  cases hinsert : t.insertProfile (defaultProfile now) with
  | some t' =>
    obtain ⟨-, hprofiles, hterms⟩ := insertProfile_eq_some_iff.mp hinsert
    refine ⟨?_, hterms⟩
    show defaultId ∈ t'.profiles.map (·.id)
    rw [hprofiles, List.map_append]
    exact List.mem_append_right _ (List.mem_singleton_self _)
  | none =>
    exact ⟨insertProfile_eq_none_iff.mp hinsert, rfl⟩

theorem deleteOtherProfiles_spec (hdefault : defaultId ∈ t.profiles.map (·.id))
    (hterms : ∀ row ∈ t.terms, row.profileId = defaultId) :
    t.deleteOtherProfiles.profiles.map (·.id) = [defaultId] ∧ t.deleteOtherProfiles.terms = t.terms := by
  constructor
  · obtain ⟨profile, hprofile, hid⟩ := List.mem_map.mp hdefault
    have hids : ∀ id ∈ t.deleteOtherProfiles.profiles.map (·.id), id = defaultId := by
      intro id hid
      obtain ⟨other, hother, rfl⟩ := List.mem_map.mp hid
      have hkept : (!decide (other.id ≠ defaultId)) = true := (List.mem_filter.mp hother).2
      rw [Bool.not_eq_true', decide_eq_false_iff_not, not_not] at hkept
      exact hkept
    have hmem : defaultId ∈ t.deleteOtherProfiles.profiles.map (·.id) := by
      refine List.mem_map.mpr ⟨profile, List.mem_filter.mpr ⟨hprofile, ?_⟩, hid⟩
      show (!decide (profile.id ≠ defaultId)) = true
      rw [Bool.not_eq_true', decide_eq_false_iff_not, not_not]
      exact hid
    have hnodup := t.deleteOtherProfiles.profileIds
    generalize t.deleteOtherProfiles.profiles.map (·.id) = ids at hids hmem hnodup
    match ids, hids, hmem, hnodup with
    | [id], hids, _, _ => rw [hids id (List.mem_singleton_self _)]
    | first :: second :: _, hids, _, hnodup =>
      have hsame : first = second :=
        (hids first (List.mem_cons_self ..)).trans
          (hids second (List.mem_cons_of_mem _ (List.mem_cons_self ..))).symm
      exact absurd (hsame ▸ List.mem_cons_self ..) (List.nodup_cons.mp hnodup).1
  · refine List.filter_eq_self.mpr fun row hrow => ?_
    rw [Bool.not_eq_true', List.any_eq_false]
    rintro profile - hany
    rw [Bool.and_eq_true, decide_eq_true_eq, beq_iff_eq, hterms row hrow] at hany
    exact hany.1 hany.2

/-! ## The migration -/

theorem singleGlossary_eq (now : QString) (t : GlossaryTables) : singleGlossary now t =
    ((t.insertDefaultProfile now).deleteDuplicates.updateProfileIds defaultId).map deleteOtherProfiles := by
  unfold singleGlossary singleGlossaryStatements Migrations.singleGlossarySchema
  simp only [List.zip_cons_cons, List.zip_nil_left, List.foldlM_cons, List.foldlM_nil, Option.bind_eq_bind,
    Option.bind_some]
  cases (t.insertDefaultProfile now).deleteDuplicates.updateProfileIds defaultId <;> rfl

/-- **The migration** always completes.  Of the terms of one form exactly the first stays, with all its columns
    but the profile; the default profile is the only one, and holds every term. -/
theorem singleGlossary_consolidates (now : QString) (t : GlossaryTables) : ∃ t',
    singleGlossary now t = some t' ∧
      t'.terms = (t.terms.filter fun row => IsFirst t.terms row).map (toProfile defaultId) ∧
      (∀ row ∈ t.terms, ∃! first, first ∈ t.terms ∧ SameForm first row ∧ IsFirst t.terms first) ∧
      (∀ row ∈ t.terms, ∃! kept, kept ∈ t'.terms ∧ SameForm kept row) ∧
      (∀ kept ∈ t'.terms, kept.profileId = defaultId) ∧ t'.profiles.map (·.id) = [defaultId] := by
  obtain ⟨hdefault, hinserted⟩ := insertDefaultProfile_spec now t
  have hterms : (t.insertDefaultProfile now).deleteDuplicates.terms =
      t.terms.filter fun row => IsFirst t.terms row := by
    rw [deleteDuplicates_terms, hinserted]
  obtain ⟨moved, hmoved, hprofiles, hmovedTerms⟩ :=
    updateProfileIds_of_distinct (t := (t.insertDefaultProfile now).deleteDuplicates) hdefault
      (deleteDuplicates_distinct _)
  rw [hterms] at hmovedTerms
  have hall : ∀ row ∈ moved.terms, row.profileId = defaultId := by
    rw [hmovedTerms]
    intro row hrow
    obtain ⟨other, -, rfl⟩ := List.mem_map.mp hrow
    rfl
  obtain ⟨hids, hkept⟩ := deleteOtherProfiles_spec (hprofiles ▸ hdefault) hall
  have hfirst : ∀ row ∈ t.terms, ∃! first, first ∈ t.terms ∧ SameForm first row ∧ IsFirst t.terms first := by
    intro row hrow
    obtain ⟨first, hmem, hsame, hfirst⟩ := exists_isFirst hrow
    refine ⟨first, ⟨hmem, hsame, hfirst⟩, fun other ⟨hother, hsame', hfirst'⟩ => ?_⟩
    exact hfirst'.eq hother hmem hfirst (Eq.trans hsame' (Eq.symm hsame))
  have hfinal : moved.deleteOtherProfiles.terms =
      (t.terms.filter fun row => IsFirst t.terms row).map (toProfile defaultId) := hkept.trans hmovedTerms
  refine ⟨moved.deleteOtherProfiles, ?_, hfinal, hfirst, fun row hrow => ?_, ?_, hids⟩
  · rw [singleGlossary_eq, hmoved]
    rfl
  · obtain ⟨first, ⟨hmem, hsame, hisFirst⟩, honly⟩ := hfirst row hrow
    rw [hfinal]
    refine ⟨toProfile defaultId first, ⟨List.mem_map_of_mem (List.mem_filter.mpr ⟨hmem, decide_eq_true hisFirst⟩),
      hsame⟩, fun kept ⟨hkept, hkeptSame⟩ => ?_⟩
    obtain ⟨other, hother, rfl⟩ := List.mem_map.mp hkept
    obtain ⟨hotherMem, hotherFirst⟩ := List.mem_filter.mp hother
    rw [honly other ⟨hotherMem, hkeptSame, of_decide_eq_true hotherFirst⟩]
  · rw [hkept]
    exact hall

end BreezeDesk.GlossaryTables
