/-
  `SqliteGlossaryRepository`: the profiles of the glossary, and how one is duplicated.

  A copy is written term by term, each write a statement of its own; where one fails, the copy that was begun is
  deleted again, and the tables are as they were (`deleteProfile_begun`).  Reading the terms is a statement like
  the others, but where it fails the empty copy stays.

  * `copyTerms_spec`                    — the loop: all terms are copied, or nothing of the copy is left;
  * `duplicateProfile_allOrNothing_iff` — when a call is all or nothing.
-/
import BreezeDesk.Glossary.GlossaryTables
import BreezeDesk.Transcript.Utf16
import Mathlib.Data.List.Lex
import Mathlib.Data.Prod.Lex

namespace BreezeDesk

/-! ## The rows as they are written -/

/-- The aliases that `aliasesToJson` keeps. -/
def storedAliases (aliases : List QString) : List QString :=
  (aliases.filter fun text => !(trimmed text).isEmpty).map trimmed

/-- A row as `createTerm` and `updateTerm` write it. -/
structure Stored (row : TermRow) : Prop where
  canonicalText : trimmed row.canonicalText = row.canonicalText
  aliases : storedAliases row.aliases = row.aliases

/-- The glossary of a program that writes it through the repository. -/
structure GlossaryLibrary extends GlossaryTables where
  stored : ∀ row ∈ terms, Stored row

/-- The statements of `duplicateProfile`, of which any may fail. -/
inductive DuplicateStep where
  | profile
  | createProfile
  | terms
  | createTerm (index : Nat)
  deriving DecidableEq

/-- What a call meets: the statements that fail, the ids that are made, and the clock. -/
structure GlossarySession where
  fails : DuplicateStep → Bool
  createUuid : DuplicateStep → QString
  nowStorageString : DuplicateStep → QString

namespace SqliteGlossaryRepository

variable (session : GlossarySession) (step : DuplicateStep)

def queryError (message : String) : UserFacingError := .ofDatabase .databaseQueryFailed (qs message)

/-- `if (!query.exec())`. -/
def exec (statement : GlossaryTables → Option GlossaryTables) (t : GlossaryTables) : Option GlossaryTables :=
  if session.fails step then none else statement t

/-- The row of a profile. -/
def storedProfile (id now : QString) (profile : GlossaryProfile) : GlossaryProfile :=
  { profile with id, name := trimmed profile.name, createdAt := now, updatedAt := now }

/-- The row of a term. -/
def storedTerm (id now : QString) (term : TermRow) : TermRow :=
  { term with
    id, canonicalText := trimmed term.canonicalText, aliases := storedAliases term.aliases
    createdAt := now, updatedAt := now }

def createProfile (profile : GlossaryProfile) (t : GlossaryTables) : Result QString × GlossaryTables :=
  if (trimmed profile.name).isEmpty then
    (.error (.validation .invalidArgument (qs "A glossary profile name is required.")), t)
  else
    let id := if profile.id.isEmpty then session.createUuid step else profile.id
    match exec session step (·.insertProfile (storedProfile id (session.nowStorageString step) profile)) t with
    | some t' => (.ok id, t')
    | none => (.error (queryError "The glossary profile could not be created."), t)

def deleteProfile (profileId : QString) (t : GlossaryTables) : GlossaryTables :=
  t.deleteProfiles fun profile => profile.id = profileId

def profile (profileId : QString) (t : GlossaryTables) : Result (Option GlossaryProfile) :=
  if session.fails step then .error (queryError "The glossary profile could not be loaded.")
  else .ok (t.profiles.find? fun profile => profile.id = profileId)

def createTerm (term : TermRow) (t : GlossaryTables) : Result QString × GlossaryTables :=
  if term.profileId.isEmpty ∨ (trimmed term.canonicalText).isEmpty then
    (.error (.validation .invalidArgument (qs "A profile and canonical term are required.")), t)
  else
    let id := if term.id.isEmpty then session.createUuid step else term.id
    match exec session step (·.insertTerm (storedTerm id (session.nowStorageString step) term)) t with
    | some t' => (.ok id, t')
    | none => (.error (queryError "The glossary term could not be created."), t)

/-- `ORDER BY priority DESC,canonical_text COLLATE NOCASE`. -/
def termOrder (row : TermRow) : ℤ ×ₗ List ℕ := toLex (-row.priority, textBytes (nocase row.canonicalText))

/-- `terms(profileId)`, without a search. -/
def terms (profileId : QString) (t : GlossaryTables) : Result (List TermRow) :=
  if session.fails step then .error (queryError "Glossary terms could not be loaded.")
  else .ok ((t.terms.filter fun row => row.profileId = profileId).mergeSort
    fun a b => decide (termOrder a ≤ termOrder b))

/-- The loop over the terms of the source. -/
def copyTerms (profileId : QString) : Nat → List TermRow → GlossaryTables → Result QString × GlossaryTables
  | _, [], t => (.ok profileId, t)
  | index, row :: rest, t =>
    match createTerm session (.createTerm index)
      { row with id := [], profileId, createdAt := [], updatedAt := [] } t with
    | (.ok _, t') => copyTerms profileId (index + 1) rest t'
    | (.error error, t') => (.error error, deleteProfile profileId t')

def duplicateProfile (profileId newName : QString) (t : GlossaryTables) : Result QString × GlossaryTables :=
  match profile session .profile profileId t with
  | .error error => (.error error, t)
  | .ok none => (.error (.validation .notFound (qs "The glossary profile does not exist.")), t)
  | .ok (some source) =>
    match createProfile session .createProfile
      { source with id := [], name := newName, createdAt := [], updatedAt := [] } t with
    | (.error error, t') => (.error error, t')
    | (.ok id, t') =>
      match terms session .terms profileId t' with
      | .error error => (.error error, t')
      | .ok sourceTerms => copyTerms session id 0 sourceTerms t'

/-! ## All or nothing -/

/-- A copy of a term: another id and profile, and times of its own. -/
structure CopyOf (profileId : QString) (row copy : TermRow) : Prop where
  profileId : copy.profileId = profileId
  canonicalText : copy.canonicalText = row.canonicalText
  aliases : copy.aliases = row.aliases
  category : copy.category = row.category
  language : copy.language = row.language
  priority : copy.priority = row.priority
  caseSensitive : copy.caseSensitive = row.caseSensitive
  enabled : copy.enabled = row.enabled
  notes : copy.notes = row.notes

/-- All that was there is unchanged, and behind it stand a new profile and copies of the terms of the source. -/
structure Duplicated (t : GlossaryTables) (profileId newName id : QString) (t' : GlossaryTables) : Prop where
  profiles : ∃ source ∈ t.profiles, source.id = profileId ∧ ∃ copy : GlossaryProfile,
    t'.profiles = t.profiles ++ [copy] ∧ copy.id = id ∧ copy.name = trimmed newName ∧
      copy.description = source.description ∧ copy.projectContext = source.projectContext
  new : id ∉ t.profiles.map (·.id)
  terms : ∃ sourceTerms copies, sourceTerms.Perm (t.terms.filter fun row => row.profileId = profileId) ∧
    t'.terms = t.terms ++ copies ∧ List.Forall₂ (CopyOf id) sourceTerms copies

def AllOrNothing (t : GlossaryTables) (profileId newName : QString) : Result QString × GlossaryTables → Prop
  | (.error _, t') => t' = t
  | (.ok id, t') => Duplicated t profileId newName id t'

/-- The call comes to the point where the copy is in the table. -/
def CopyBegins (t : GlossaryTables) (profileId newName : QString) : Prop :=
  session.fails .profile = false ∧ profileId ∈ t.profiles.map (·.id) ∧ trimmed newName ≠ [] ∧
    session.fails .createProfile = false ∧ session.createUuid .createProfile ∉ t.profiles.map (·.id)

/-! ## The steps -/

variable {session step} {t t' : GlossaryTables} {profileId newName : QString}

theorem exec_eq_some {statement : GlossaryTables → Option GlossaryTables}
    (h : exec session step statement t = some t') : session.fails step = false ∧ statement t = some t' := by
  unfold exec at h
  split at h
  · cases h
  · rename_i hfails
    exact ⟨Bool.eq_false_iff.mpr hfails, h⟩

/-- The tables while a copy is written. -/
structure Begun (t : GlossaryTables) (copy : GlossaryProfile) (copies : List TermRow) (t' : GlossaryTables) : Prop where
  new : copy.id ∉ t.profiles.map (·.id)
  profiles : t'.profiles = t.profiles ++ [copy]
  terms : t'.terms = t.terms ++ copies
  ofCopy : ∀ row ∈ copies, row.profileId = copy.id

variable {copy : GlossaryProfile} {copies : List TermRow}

/-- **Deleting** what was begun gives back the tables. -/
theorem deleteProfile_begun (h : Begun t copy copies t') : deleteProfile copy.id t' = t := by
  refine GlossaryTables.ext_lists ?_ ?_
  · show t'.profiles.filter (fun profile => !decide (profile.id = copy.id)) = t.profiles
    have hkept : t.profiles.filter (fun profile => !decide (profile.id = copy.id)) = t.profiles := by
      refine List.filter_eq_self.mpr fun profile hprofile => ?_
      have hne : profile.id ≠ copy.id := fun hid => h.new (hid ▸ List.mem_map_of_mem hprofile)
      simpa using hne
    rw [h.profiles, List.filter_append, hkept]
    simp
  · show t'.terms.filter (fun term =>
      !(t'.profiles.any fun profile => decide (profile.id = copy.id) && profile.id == term.profileId)) = t.terms
    have hdeleted : ∀ term : TermRow,
        (t'.profiles.any fun profile => decide (profile.id = copy.id) && profile.id == term.profileId) =
          decide (term.profileId = copy.id) := by
      intro term
      rw [Bool.eq_iff_iff, List.any_eq_true, decide_eq_true_eq]
      constructor
      · rintro ⟨profile, -, hboth⟩
        rw [Bool.and_eq_true, decide_eq_true_eq, beq_iff_eq] at hboth
        exact hboth.2.symm.trans hboth.1
      · intro hid
        refine ⟨copy, ?_, ?_⟩
        · rw [h.profiles]
          exact List.mem_append_right _ (List.mem_singleton_self _)
        · rw [Bool.and_eq_true, decide_eq_true_eq, beq_iff_eq]
          exact ⟨rfl, hid.symm⟩
    have hold : t.terms.filter (fun term => !decide (term.profileId = copy.id)) = t.terms := by
      refine List.filter_eq_self.mpr fun term hterm => ?_
      have hne : term.profileId ≠ copy.id := fun hid => h.new (hid ▸ t.references term hterm)
      simpa using hne
    have hnew : copies.filter (fun term => !decide (term.profileId = copy.id)) = [] := by
      refine List.filter_eq_nil_iff.mpr fun term hterm => ?_
      simpa using h.ofCopy term hterm
    rw [List.filter_congr fun term _ => congrArg (!·) (hdeleted term), h.terms, List.filter_append, hold, hnew,
      List.append_nil]

theorem createProfile_spec (session : GlossarySession) (step : DuplicateStep) (newName : QString)
    (source : GlossaryProfile) (t : GlossaryTables) :
    (∃ error, createProfile session step { source with id := [], name := newName, createdAt := [], updatedAt := [] } t =
        (.error error, t)) ∧
      (trimmed newName = [] ∨ session.fails step = true ∨ session.createUuid step ∈ t.profiles.map (·.id)) ∨
    ∃ copy t', createProfile session step { source with id := [], name := newName, createdAt := [], updatedAt := [] } t =
        (.ok copy.id, t') ∧ Begun t copy [] t' ∧ copy.id = session.createUuid step ∧ copy.name = trimmed newName ∧
      copy.description = source.description ∧ copy.projectContext = source.projectContext ∧
      trimmed newName ≠ [] ∧ session.fails step = false := by
  unfold createProfile
  dsimp only
  split
  · rename_i hblank
    exact Or.inl ⟨⟨_, rfl⟩, Or.inl (List.isEmpty_iff.mp hblank)⟩
  · rename_i hname
    split
    · rename_i t' hexec
      obtain ⟨hruns, hinsert⟩ := exec_eq_some hexec
      obtain ⟨hnew, hprofiles, hterms⟩ := GlossaryTables.insertProfile_eq_some_iff.mp hinsert
      refine Or.inr ⟨_, t', rfl, ⟨hnew, hprofiles, ?_, fun row hrow => (by cases hrow)⟩, rfl, rfl, rfl, rfl,
        fun hblank => hname (List.isEmpty_iff.mpr hblank), hruns⟩
      rw [hterms, List.append_nil]
    · rename_i hexec
      refine Or.inl ⟨⟨_, rfl⟩, ?_⟩
      cases hfails : session.fails step with
      | true => exact Or.inr (Or.inl rfl)
      | false =>
        refine Or.inr (Or.inr ?_)
        unfold exec at hexec
        rw [hfails, if_neg Bool.false_ne_true] at hexec
        exact GlossaryTables.insertProfile_eq_none_iff.mp hexec

/-- One term of the copy: it is written, or the tables stay as they are. -/
theorem createTerm_spec (session : GlossarySession) (step : DuplicateStep) {row : TermRow} (hstored : Stored row) (h : Begun t copy copies t') :
    (∃ error, createTerm session step { row with id := [], profileId := copy.id, createdAt := [], updatedAt := [] } t' =
        (.error error, t')) ∨
    ∃ id next written, createTerm session step
        { row with id := [], profileId := copy.id, createdAt := [], updatedAt := [] } t' = (.ok id, next) ∧
      CopyOf copy.id row written ∧ Begun t copy (copies ++ [written]) next := by
  unfold createTerm
  dsimp only
  split
  · exact Or.inl ⟨_, rfl⟩
  · split
    · rename_i next hexec
      obtain ⟨hprofiles, hterms⟩ := GlossaryTables.insertTerm_eq_some (exec_eq_some hexec).2
      refine Or.inr ⟨_, next, _, rfl, ?_, h.new, hprofiles.trans h.profiles,
        by rw [hterms, h.terms, List.append_assoc], fun other hother => ?_⟩
      · exact ⟨rfl, hstored.canonicalText, hstored.aliases, rfl, rfl, rfl, rfl, rfl, rfl⟩
      · rcases List.mem_append.mp hother with hother | hother
        · exact h.ofCopy other hother
        · rw [List.mem_singleton.mp hother]
          rfl
    · exact Or.inl ⟨_, rfl⟩

/-- **The loop**: all terms are copied, or nothing of the copy is left. -/
theorem copyTerms_spec (session : GlossarySession) (rows : List TermRow) : ∀ (index : Nat) {copies : List TermRow} {t' : GlossaryTables},
    (∀ row ∈ rows, Stored row) → Begun t copy copies t' →
    (∃ error, copyTerms session copy.id index rows t' = (.error error, t)) ∨
      ∃ written final, copyTerms session copy.id index rows t' = (.ok copy.id, final) ∧
        List.Forall₂ (CopyOf copy.id) rows written ∧ Begun t copy (copies ++ written) final := by
  induction rows with
  | nil =>
    intro index copies t' _ h
    exact Or.inr ⟨[], t', rfl, .nil, by rwa [List.append_nil]⟩
  | cons row rest ih =>
    intro index copies t' hstored h
    have hrest : ∀ other ∈ rest, Stored other := fun other hother => hstored other (List.mem_cons_of_mem _ hother)
    unfold copyTerms
    rcases createTerm_spec session (.createTerm index) (hstored row (List.mem_cons_self ..)) h with
      ⟨error, herror⟩ | ⟨id, next, written, hok, hcopy, hbegun⟩
    · rw [herror]
      dsimp only
      rw [deleteProfile_begun h]
      exact Or.inl ⟨error, rfl⟩
    · rw [hok]
      rcases ih (index + 1) hrest hbegun with ⟨error, herror⟩ | ⟨others, final, hfinal, hcopies, hbegun'⟩
      · exact Or.inl ⟨error, herror⟩
      · refine Or.inr ⟨written :: others, final, hfinal, .cons hcopy hcopies, ?_⟩
        rwa [List.append_assoc, List.singleton_append] at hbegun'

/-! ## The call -/

theorem trimmed_trimmed (text : QString) : trimmed (trimmed text) = trimmed text := by
  obtain ⟨hhead, hlast⟩ := trimmed_ends text
  show (List.dropWhile isSpace (trimmed text)).rdropWhile isSpace = trimmed text
  have hdrop : List.dropWhile isSpace (trimmed text) = trimmed text := by
    cases h : trimmed text with
    | nil => rfl
    | cons c rest =>
      rw [h] at hhead
      rw [List.dropWhile_cons_of_neg (by rw [hhead c rfl]; exact Bool.false_ne_true)]
  rw [hdrop]
  refine List.rdropWhile_eq_self_iff.mpr fun hne hspace => ?_
  rw [hlast _ (List.getLast?_eq_some_getLast hne)] at hspace
  exact Bool.false_ne_true hspace

/-- What is written is a stored row. -/
theorem stored_storedTerm (id now : QString) (term : TermRow) : Stored (storedTerm id now term) where
  canonicalText := trimmed_trimmed term.canonicalText
  aliases := by
    show storedAliases (storedAliases term.aliases) = storedAliases term.aliases
    unfold storedAliases
    rw [List.filter_map, List.map_map, List.filter_filter]
    refine (congrArg (List.map _) (List.filter_congr fun text _ => ?_)).trans
      (List.map_congr_left fun text _ => trimmed_trimmed text)
    show (!(trimmed (trimmed text)).isEmpty && !(trimmed text).isEmpty) = !(trimmed text).isEmpty
    rw [trimmed_trimmed, Bool.and_self]

theorem copyBegins_iff_of_createProfile (newName : QString) {source : GlossaryProfile} (hprofile : session.fails .profile = false)
    (hsource : t.profiles.find? (fun profile => profile.id = profileId) = some source) :
    CopyBegins session t profileId newName ↔ trimmed newName ≠ [] ∧ session.fails .createProfile = false ∧
      session.createUuid .createProfile ∉ t.profiles.map (·.id) := by
  have hmem : profileId ∈ t.profiles.map (·.id) := by
    refine List.mem_map.mpr ⟨source, List.mem_of_find?_eq_some hsource, ?_⟩
    simpa using List.find?_some hsource
  unfold CopyBegins
  exact ⟨fun h => h.2.2, fun h => ⟨hprofile, hmem, h⟩⟩

/-- **A call is all or nothing**, unless the terms of the source cannot be read when the copy is in the table. -/
theorem duplicateProfile_allOrNothing_iff (session : GlossarySession) (library : GlossaryLibrary)
    (profileId newName : QString) :
    AllOrNothing library.toGlossaryTables profileId newName
        (duplicateProfile session profileId newName library.toGlossaryTables) ↔
      ¬ (session.fails .terms = true ∧ CopyBegins session library.toGlossaryTables profileId newName) := by
  obtain ⟨t, hstored⟩ := library
  show AllOrNothing t profileId newName (duplicateProfile session profileId newName t) ↔
    ¬ (session.fails .terms = true ∧ CopyBegins session t profileId newName)
  unfold duplicateProfile profile
  cases hfails : session.fails .profile with
  | true =>
    rw [if_pos rfl]
    exact ⟨fun _ h => absurd (h.2.1.symm.trans hfails) Bool.false_ne_true, fun _ => rfl⟩
  | false =>
    rw [if_neg Bool.false_ne_true]
    cases hsource : t.profiles.find? (fun profile => profile.id = profileId) with
    | none =>
      refine ⟨fun _ h => ?_, fun _ => rfl⟩
      obtain ⟨source, hmem, hid⟩ := List.mem_map.mp h.2.2.1
      exact absurd hid (by simpa using List.find?_eq_none.mp hsource source hmem)
    | some source =>
      have hbegins := copyBegins_iff_of_createProfile newName hfails hsource
      rcases createProfile_spec session .createProfile newName source t with
        ⟨⟨error, herror⟩, hnot⟩ | ⟨copy, t', hok, hbegun, hid, hname, hdescription, hcontext, hblank, hruns⟩
      · -- nothing has been written
        rw [hbegins]
        dsimp only
        rw [herror]
        refine ⟨fun _ ⟨_, hnamed, hworks, hnew⟩ => ?_, fun _ => rfl⟩
        rcases hnot with h | h | h
        · exact hnamed h
        · exact absurd (hworks.symm.trans h) Bool.false_ne_true
        · exact hnew h
      · have hstarted : CopyBegins session t profileId newName := hbegins.mpr ⟨hblank, hruns, hid ▸ hbegun.new⟩
        dsimp only
        rw [hok]
        dsimp only
        unfold terms
        cases hread : session.fails .terms with
        | true =>
          -- the empty copy stays behind
          rw [if_pos rfl]
          refine ⟨fun h => ?_, fun h => absurd ⟨rfl, hstarted⟩ h⟩
          have hsame : t' = t := h
          have hlength := congrArg List.length (hsame ▸ hbegun.profiles)
          rw [List.length_append, List.length_singleton] at hlength
          omega
        | false =>
          rw [if_neg Bool.false_ne_true]
          refine ⟨fun _ h => absurd h.1 Bool.false_ne_true, fun _ => ?_⟩
          have hterms : t'.terms = t.terms := by rw [hbegun.terms, List.append_nil]
          rw [hterms]
          have hperm := List.mergeSort_perm (t.terms.filter fun row => row.profileId = profileId)
            fun a b => decide (termOrder a ≤ termOrder b)
          have hrows : ∀ row ∈ (t.terms.filter fun row => row.profileId = profileId).mergeSort
              fun a b => decide (termOrder a ≤ termOrder b), Stored row := fun row hrow =>
            hstored row (List.mem_filter.mp (hperm.subset hrow)).1
          rcases copyTerms_spec session _ 0 hrows hbegun with
            ⟨error, herror⟩ | ⟨written, final, hfinal, hcopies, hdone⟩
          · dsimp only
            rw [herror]
            exact rfl
          · dsimp only
            rw [hfinal]
            refine ⟨⟨source, List.mem_of_find?_eq_some hsource, ?_, copy, hdone.profiles, rfl, hname, hdescription,
              hcontext⟩, hbegun.new, ⟨_, written, hperm, by rw [hdone.terms, List.nil_append], hcopies⟩⟩
            simpa using List.find?_some hsource

/-! ## A copy that stays -/

/-- One profile without terms. -/
def teamLibrary : GlossaryLibrary where
  profiles := [{ id := qs "team", name := qs "Team" }]
  terms := []
  profileIds := List.nodup_singleton _
  termIds := .nil
  references _ h := (by cases h)
  unique := .nil
  stored _ h := (by cases h)

/-- A session in which only the reading of the terms fails. -/
def unreadable : GlossarySession where
  fails step := step = .terms
  createUuid _ := qs "copy"
  nowStorageString _ := []

/-- **The empty copy stays** where its terms could not be read. -/
theorem not_allOrNothing_unreadable :
    ¬ AllOrNothing teamLibrary.toGlossaryTables (qs "team") (qs "Copy")
        (duplicateProfile unreadable (qs "team") (qs "Copy") teamLibrary.toGlossaryTables) ∧
      (duplicateProfile unreadable (qs "team") (qs "Copy") teamLibrary.toGlossaryTables).2.profiles.map (·.id) =
        [qs "team", qs "copy"] := by
  have hprofiles : (duplicateProfile unreadable (qs "team") (qs "Copy") teamLibrary.toGlossaryTables).2.profiles.map
      (·.id) = [qs "team", qs "copy"] := by decide
  have hfailed : (duplicateProfile unreadable (qs "team") (qs "Copy") teamLibrary.toGlossaryTables).1 =
      .error (queryError "Glossary terms could not be loaded.") := rfl
  refine ⟨fun h => ?_, hprofiles⟩
  generalize duplicateProfile unreadable (qs "team") (qs "Copy") teamLibrary.toGlossaryTables = result at h hprofiles hfailed
  obtain ⟨outcome, tables⟩ := result
  cases hfailed
  have hsame : tables = teamLibrary.toGlossaryTables := h
  rw [hsame] at hprofiles
  exact absurd hprofiles (by decide)

end SqliteGlossaryRepository

end BreezeDesk
