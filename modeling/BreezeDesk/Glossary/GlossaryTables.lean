/-
  The tables `glossary_profiles` and `glossary_terms`.

  `GlossaryTables` carries the constraints of the schema: the primary keys, the foreign key of the terms, and
  that no profile has two terms whose canonical texts agree up to ASCII case.  A statement that would break one
  of them fails (`none`); deleting a profile deletes its terms.

  The column `aliases_json` is kept as the list that it encodes.
-/
import BreezeDesk.Glossary.GlossarySerializer
import BreezeDesk.Ipc.Cbor

namespace BreezeDesk

/-! ## The rows -/

structure GlossaryProfile where
  id : QString := []
  name : QString := []
  description : QString := []
  projectContext : QString := []
  createdAt : QString := []
  updatedAt : QString := []
  deriving DecidableEq, Repr

structure TermRow extends GlossaryEntry where
  createdAt : QString := []
  updatedAt : QString := []
  deriving DecidableEq, Repr

/-- A text as the database compares it: by its bytes. -/
def textBytes (text : QString) : List Nat := (toUtf8 text).map UInt8.toNat

/-- What `COLLATE NOCASE` compares. -/
def nocase (text : QString) : QString := text.map asciiLower

/-- `UNIQUE(profile_id, canonical_text COLLATE NOCASE)`. -/
def SameTerm (a b : TermRow) : Prop :=
  a.profileId = b.profileId ∧ nocase a.canonicalText = nocase b.canonicalText

instance (a b : TermRow) : Decidable (SameTerm a b) := inferInstanceAs (Decidable (_ ∧ _))

theorem SameTerm.symm {a b : TermRow} (h : SameTerm a b) : SameTerm b a := ⟨h.1.symm, h.2.symm⟩

def termKey (row : TermRow) : List Nat := textBytes row.id

structure GlossaryTables where
  profiles : List GlossaryProfile
  terms : List TermRow
  profileIds : (profiles.map (·.id)).Nodup
  termIds : (terms.map termKey).Nodup
  references : ∀ term ∈ terms, term.profileId ∈ profiles.map (·.id)
  unique : terms.Pairwise fun a b => ¬ SameTerm a b

namespace GlossaryTables

variable {t t' : GlossaryTables}

theorem ext_lists (hprofiles : t.profiles = t'.profiles) (hterms : t.terms = t'.terms) : t = t' := by
  cases t
  cases t'
  cases hprofiles
  cases hterms
  rfl

theorem eq_of_termKey {a b : TermRow} (ha : a ∈ t.terms) (hb : b ∈ t.terms) (h : termKey a = termKey b) : a = b :=
  List.inj_on_of_nodup_map t.termIds ha hb h

/-! ## The statements -/

local instance lawfulIds : LawfulBEq QString := inferInstance

/-- `INSERT INTO glossary_profiles`. -/
def insertProfile (profile : GlossaryProfile) (t : GlossaryTables) : Option GlossaryTables :=
  if h : profile.id ∈ t.profiles.map (·.id) then none
  else some
    { t with
      profiles := t.profiles ++ [profile]
      profileIds := by
        rw [List.map_append, List.nodup_append']
        refine ⟨t.profileIds, List.nodup_singleton _, fun id hid hmem => ?_⟩
        rw [List.mem_singleton.mp hmem] at hid
        exact h hid
      references := fun term hterm => by
        rw [List.map_append]
        exact List.mem_append_left _ (t.references term hterm) }

/-- `INSERT INTO glossary_terms`. -/
def insertTerm (row : TermRow) (t : GlossaryTables) : Option GlossaryTables :=
  if h : termKey row ∉ t.terms.map termKey ∧ row.profileId ∈ t.profiles.map (·.id) ∧
      ∀ other ∈ t.terms, ¬ SameTerm other row then
    some
      { t with
        terms := t.terms ++ [row]
        termIds := by
          rw [List.map_append, List.nodup_append']
          refine ⟨t.termIds, List.nodup_singleton _, fun key hkey hmem => ?_⟩
          rw [List.mem_singleton.mp hmem] at hkey
          exact h.1 hkey
        references := fun term hterm => by
          rcases List.mem_append.mp hterm with hterm | hterm
          · exact t.references term hterm
          · rw [List.mem_singleton.mp hterm]
            exact h.2.1
        unique := by
          refine List.pairwise_append.mpr ⟨t.unique, List.pairwise_singleton _ _, fun other hother term hterm => ?_⟩
          rw [List.mem_singleton.mp hterm]
          exact h.2.2 other hother }
  else none

/-- `DELETE FROM glossary_terms`. -/
def deleteTerms (p : TermRow → Bool) (t : GlossaryTables) : GlossaryTables where
  profiles := t.profiles
  terms := t.terms.filter fun term => !p term
  profileIds := t.profileIds
  termIds := t.termIds.sublist (List.filter_sublist.map _)
  references term hterm := t.references term (List.mem_filter.mp hterm).1
  unique := t.unique.filter _

/-- `DELETE FROM glossary_profiles`, with the terms that refer to what is deleted. -/
def deleteProfiles (p : GlossaryProfile → Bool) (t : GlossaryTables) : GlossaryTables where
  profiles := t.profiles.filter fun profile => !p profile
  terms := t.terms.filter fun term => !(t.profiles.any fun profile => p profile && profile.id == term.profileId)
  profileIds := t.profileIds.sublist (List.filter_sublist.map _)
  termIds := t.termIds.sublist (List.filter_sublist.map _)
  references term hterm := by
    obtain ⟨hmem, hkept⟩ := List.mem_filter.mp hterm
    obtain ⟨profile, hprofile, hid⟩ := List.mem_map.mp (t.references term hmem)
    refine List.mem_map.mpr ⟨profile, List.mem_filter.mpr ⟨hprofile, ?_⟩, hid⟩
    cases hp : p profile with
    | false => rfl
    | true =>
      have hany : (t.profiles.any fun profile => p profile && profile.id == term.profileId) = true := by
        refine List.any_eq_true.mpr ⟨profile, hprofile, ?_⟩
        rw [hp, hid, Bool.true_and]
        exact beq_self_eq_true _
      rw [hany] at hkept
      exact absurd hkept Bool.false_ne_true
  unique := t.unique.filter _

/-- The row in the profile `target`. -/
def toProfile (target : QString) (row : TermRow) : TermRow := { row with profileId := target }

/-- One row of an `UPDATE glossary_terms SET profile_id`. -/
def moveTerm (target : QString) (row : TermRow) (t : GlossaryTables) : Option GlossaryTables :=
  let terms := t.terms.map fun other => if termKey other = termKey row then toProfile target other else other
  if h : target ∈ t.profiles.map (·.id) ∧ terms.Pairwise fun a b => ¬ SameTerm a b then
    some
      { t with
        terms
        termIds := by
          have hkeys : terms.map termKey = t.terms.map termKey := by
            rw [List.map_map]
            refine List.map_congr_left fun other _ => ?_
            show termKey (if _ then _ else _) = termKey other
            split <;> rfl
          rw [hkeys]
          exact t.termIds
        references := fun term hterm => by
          obtain ⟨other, hother, rfl⟩ := List.mem_map.mp hterm
          split
          · exact h.1
          · exact t.references other hother
        unique := h.2 }
  else none

/-- `UPDATE glossary_terms SET profile_id=target WHERE profile_id<>target`, row by row. -/
def updateProfileIds (target : QString) (t : GlossaryTables) : Option GlossaryTables :=
  (t.terms.filter fun row => row.profileId ≠ target).foldlM (fun t row => t.moveTerm target row) t

/-! ## What the statements do -/

theorem insertProfile_eq_some_iff {profile : GlossaryProfile} : t.insertProfile profile = some t' ↔
    profile.id ∉ t.profiles.map (·.id) ∧ t'.profiles = t.profiles ++ [profile] ∧ t'.terms = t.terms := by
  unfold insertProfile
  split
  · rename_i h
    exact ⟨fun hsome => (by cases hsome), fun hnew => absurd h hnew.1⟩
  · rename_i h
    refine ⟨fun hsome => ?_, fun ⟨_, hprofiles, hterms⟩ => ?_⟩
    · cases hsome
      exact ⟨h, rfl, rfl⟩
    · exact congrArg some (ext_lists hprofiles.symm hterms.symm)

theorem insertProfile_eq_none_iff {profile : GlossaryProfile} :
    t.insertProfile profile = none ↔ profile.id ∈ t.profiles.map (·.id) := by
  unfold insertProfile
  split
  · rename_i h
    exact ⟨fun _ => h, fun _ => rfl⟩
  · rename_i h
    exact ⟨fun hnone => (by cases hnone), fun hmem => absurd hmem h⟩

theorem insertTerm_eq_some {row : TermRow} (h : t.insertTerm row = some t') :
    t'.profiles = t.profiles ∧ t'.terms = t.terms ++ [row] := by
  unfold insertTerm at h
  split at h
  · cases h
    exact ⟨rfl, rfl⟩
  · cases h

/-- Where no two terms have the same canonical text up to case, moving one breaks no constraint. -/
theorem moveTerm_of_distinct {target : QString} (htarget : target ∈ t.profiles.map (·.id))
    (hdistinct : t.terms.Pairwise fun a b => nocase a.canonicalText ≠ nocase b.canonicalText) (row : TermRow) :
    ∃ t', t.moveTerm target row = some t' ∧ t'.profiles = t.profiles ∧
      t'.terms = t.terms.map fun other => if termKey other = termKey row then toProfile target other else other := by
  have hunique : (t.terms.map fun other => if termKey other = termKey row then toProfile target other else other).Pairwise
      fun a b => ¬ SameTerm a b := by
    rw [List.pairwise_map]
    refine hdistinct.imp fun {a b} hab hsame => hab ?_
    have htext := hsame.2
    have hkept : ∀ other : TermRow,
        (if termKey other = termKey row then toProfile target other else other).canonicalText =
          other.canonicalText := by
      intro other
      split <;> rfl
    rw [hkept, hkept] at htext
    exact htext
  unfold moveTerm
  dsimp only
  rw [dif_pos ⟨htarget, hunique⟩]
  exact ⟨_, rfl, rfl, rfl⟩

theorem foldlM_moveTerm {target : QString} (rows : List TermRow) : ∀ {t : GlossaryTables},
    target ∈ t.profiles.map (·.id) →
    (t.terms.Pairwise fun a b => nocase a.canonicalText ≠ nocase b.canonicalText) →
    ∃ t', rows.foldlM (fun t row => t.moveTerm target row) t = some t' ∧ t'.profiles = t.profiles ∧
      t'.terms = t.terms.map fun other =>
        if termKey other ∈ rows.map termKey then toProfile target other else other := by
  induction rows with
  | nil =>
    intro t _ _
    refine ⟨t, rfl, rfl, ?_⟩
    simp
  | cons row rest ih =>
    intro t htarget hdistinct
    obtain ⟨mid, hmid, hprofiles, hterms⟩ := moveTerm_of_distinct htarget hdistinct row
    have hdistinct' : mid.terms.Pairwise fun a b => nocase a.canonicalText ≠ nocase b.canonicalText := by
      rw [hterms, List.pairwise_map]
      refine hdistinct.imp fun {a b} hab => ?_
      have hkept : ∀ other : TermRow,
          (if termKey other = termKey row then toProfile target other else other).canonicalText =
            other.canonicalText := by
        intro other
        split <;> rfl
      rw [hkept, hkept]
      exact hab
    obtain ⟨t', hrest, hprofiles', hterms'⟩ := ih (hprofiles ▸ htarget) hdistinct'
    refine ⟨t', ?_, hprofiles'.trans hprofiles, ?_⟩
    · rw [List.foldlM_cons, hmid]
      exact hrest
    · rw [hterms', hterms, List.map_map]
      refine List.map_congr_left fun other _ => ?_
      simp only [Function.comp_apply, List.map_cons, List.mem_cons]
      by_cases hrow : termKey other = termKey row
      · rw [if_pos hrow, if_pos (Or.inl hrow)]
        split <;> rfl
      · rw [if_neg hrow]
        by_cases hrest : termKey other ∈ rest.map termKey
        · rw [if_pos hrest, if_pos (Or.inr hrest)]
        · rw [if_neg hrest, if_neg]
          rintro (h | h)
          · exact hrow h
          · exact hrest h

/-- **All terms move** into one profile, where their canonical texts differ. -/
theorem updateProfileIds_of_distinct {target : QString} (htarget : target ∈ t.profiles.map (·.id))
    (hdistinct : t.terms.Pairwise fun a b => nocase a.canonicalText ≠ nocase b.canonicalText) :
    ∃ t', t.updateProfileIds target = some t' ∧ t'.profiles = t.profiles ∧
      t'.terms = t.terms.map (toProfile target) := by
  obtain ⟨t', hmoved, hprofiles, hterms⟩ :=
    foldlM_moveTerm (t.terms.filter fun row => row.profileId ≠ target) htarget hdistinct
  refine ⟨t', hmoved, hprofiles, hterms.trans (List.map_congr_left fun other hother => ?_)⟩
  split
  · rfl
  · rename_i hnot
    -- what is not moved is there already
    have hsame : other.profileId = target := by
      by_contra hne
      exact hnot (List.mem_map_of_mem (List.mem_filter.mpr ⟨hother, decide_eq_true hne⟩))
    unfold toProfile
    rw [← hsame]

end GlossaryTables

end BreezeDesk
