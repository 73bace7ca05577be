/-
  The text at the boundary of two overlapping chunks.

  Both front ends remove the units that the first incoming segment repeats from the last committed one.
  The application also moves texts between segments, trims them and joins them with spaces; that changes
  nothing for whoever reads a text in pieces between spaces (`SplitsAtSpaces`: its words, its units), so that
  all that is ever missing is what was removed from the first segment (`reconcileOverlap_pieces`).

  * `late_text_iff` — neither front end asks whether the first segment reaches into committed time: text that
    was said later is kept exactly when such a segment does not begin with two units that end the committed
    text;
  * `reconciled_iff` — the application's list is in order, inside the chunk and behind committed time, and
    its units are those of the incoming texts without the matched ones, exactly when no underscore stands
    behind them.
-/
import BreezeDesk.App.ChunkCommit
import BreezeDesk.Asr.ComparisonUnits

namespace BreezeDesk.App

open Asr Ranges

variable {t : CharTables} {α : Type}

/-! ## Pieces between spaces -/

/-- A reading of texts to which a space is a boundary. -/
structure SplitsAtSpaces (f : QString → List α) : Prop where
  nil : f [] = []
  append : ∀ {c}, isSpace c = true → ∀ first second, f (first ++ c :: second) = f first ++ f second

variable {f : QString → List α}

namespace SplitsAtSpaces

theorem dropWhile (hf : SplitsAtSpaces f) (text : QString) : f (text.dropWhile isSpace) = f text := by
  induction text with
  | nil => rfl
  | cons c rest ih =>
    by_cases hspace : isSpace c = true
    · have hfirst : f (c :: rest) = f rest := by
        have happend := hf.append hspace [] rest
        rwa [hf.nil] at happend
      rw [List.dropWhile_cons_of_pos hspace, ih, hfirst]
    · rw [List.dropWhile_cons_of_neg hspace]

theorem rdropWhile (hf : SplitsAtSpaces f) (text : QString) : f (text.rdropWhile isSpace) = f text := by
  induction text using List.reverseRecOn with
  | nil => rfl
  | append_singleton rest c ih =>
    by_cases hspace : isSpace c = true
    · have hlast : f (rest ++ [c]) = f rest := by
        rw [hf.append hspace rest [], hf.nil, List.append_nil]
      rw [List.rdropWhile_concat_pos _ _ _ hspace, ih, hlast]
    · rw [List.rdropWhile_concat_neg _ _ _ hspace]

theorem trimmed (hf : SplitsAtSpaces f) (text : QString) : f (trimmed text) = f text :=
  (hf.rdropWhile _).trans (hf.dropWhile text)

/-- Parts joined by any white space. -/
theorem intercalate (hf : SplitsAtSpaces f) {c : QChar} (hspace : isSpace c = true) (parts : List QString) :
    f ([c].intercalate parts) = parts.flatMap f := by
  induction parts with
  | nil => exact hf.nil
  | cons part rest ih =>
    cases rest with
    | nil => rw [List.intercalate_singleton, List.flatMap_singleton]
    | cons next others =>
      have hjoin : [c].intercalate (part :: next :: others) = part ++ c :: [c].intercalate (next :: others) := by
        rw [List.intercalate_cons_cons, List.append_assoc, List.singleton_append]
      rw [hjoin, hf.append hspace, ih]
      rfl

theorem joinSpace (hf : SplitsAtSpaces f) (parts : List QString) : f (joinSpace parts) = parts.flatMap f :=
  hf.intercalate (by decide) parts

/-- A text is read word by word. -/
theorem words (hf : SplitsAtSpaces f) (text : QString) :
    ∀ word, (words text word).flatMap f = f (word ++ text) := by
  induction text with
  | nil =>
    intro word
    rw [List.append_nil, BreezeDesk.words]
    split
    next hempty =>
      rw [List.isEmpty_iff.mp hempty, hf.nil]
      rfl
    next => exact List.append_nil (f word)
  | cons c rest ih =>
    intro word
    rw [BreezeDesk.words]
    split
    next hspace =>
      rw [hf.append hspace]
      split
      next hempty =>
        rw [ih, List.isEmpty_iff.mp hempty, hf.nil]
        rfl
      next =>
        rw [List.flatMap_cons, ih]
        rfl
    next =>
      rw [ih, List.append_assoc]
      rfl

theorem simplified (hf : SplitsAtSpaces f) (text : QString) : f (simplified text) = f text :=
  (hf.joinSpace _).trans (hf.words text [])

end SplitsAtSpaces

theorem comparisonUnits_splits (laws : UnicodeLaws t) : SplitsAtSpaces (comparisonUnits t) where
  nil := comparisonUnits_nil
  append hspace first second := comparisonUnits_append (isSeparator_of_space laws hspace) first second

theorem words_splits : SplitsAtSpaces (fun text => BreezeDesk.words text []) where
  nil := rfl
  append := by
    intro c hspace first second
    have hwords : ∀ word, BreezeDesk.words (first ++ c :: second) word =
        BreezeDesk.words first word ++ BreezeDesk.words second [] := by
      induction first with
      | nil =>
        intro word
        rw [List.nil_append, BreezeDesk.words, BreezeDesk.words, if_pos hspace]
        split <;> rfl
      | cons d rest ih =>
        intro word
        rw [List.cons_append, BreezeDesk.words, BreezeDesk.words]
        split
        · split
          · exact ih []
          · rw [ih, List.cons_append]
        · exact ih _
    exact hwords []

/-! ## The application's reconciliation -/

/-- The pieces of the texts of a list. -/
def piecesOf (f : QString → List α) (list : List TranscriptSegment) : List α :=
  list.flatMap fun segment => f segment.originalText

theorem piecesOf_append (first second : List TranscriptSegment) :
    piecesOf f (first ++ second) = piecesOf f first ++ piecesOf f second := List.flatMap_append

theorem piecesOf_congr {first second : List TranscriptSegment}
    (h : first.map (·.originalText) = second.map (·.originalText)) : piecesOf f first = piecesOf f second := by
  have hmap (list : List TranscriptSegment) : piecesOf f list = (list.map (·.originalText)).flatMap f :=
    (List.flatMap_map ..).symm
  rw [hmap, hmap, h]

/-- The texts of the segments that are dropped, without the blank ones. -/
theorem flatMap_preservedText (hf : SplitsAtSpaces f) (ended : List TranscriptSegment) :
    (preservedText ended).flatMap f = piecesOf f ended := by
  induction ended with
  | nil => rfl
  | cons segment rest ih =>
    have hcons : preservedText (segment :: rest) =
        (if (trimmed segment.originalText).isEmpty then preservedText rest
          else trimmed segment.originalText :: preservedText rest) := by
      unfold preservedText
      rw [List.map_cons, List.filter_cons]
      cases (trimmed segment.originalText).isEmpty <;> rfl
    have hpieces : piecesOf f (segment :: rest) = f segment.originalText ++ piecesOf f rest := rfl
    rw [hcons, hpieces, ← hf.trimmed]
    split
    next hempty => rw [List.isEmpty_iff.mp hempty, hf.nil, List.nil_append, ih]
    next => rw [List.flatMap_cons, ih]

theorem piecesOf_prependPreserved (hf : SplitsAtSpaces f) (newId : QString) (previousEnd chunkEnd : Int)
    (preserved : List QString) (remaining : List TranscriptSegment) :
    piecesOf f (prependPreserved newId previousEnd chunkEnd preserved remaining) =
      preserved.flatMap f ++ piecesOf f remaining := by
  unfold prependPreserved
  split
  next hempty =>
    rw [List.isEmpty_iff.mp hempty]
    rfl
  next =>
    split
    · show f (joinSpace preserved) ++ [] = _
      rw [hf.joinSpace]
      rfl
    next first rest =>
      show f (simplified (joinSpace preserved ++ [space] ++ first.originalText)) ++ piecesOf f rest = _
      rw [hf.simplified, List.append_assoc, List.singleton_append, hf.append (by decide), hf.joinSpace,
        List.append_assoc]
      rfl

theorem map_clampFirst (previousEnd : Int) (list : List TranscriptSegment) :
    (clampFirst previousEnd list).map (·.originalText) = list.map (·.originalText) := by
  unfold clampFirst
  split
  · rfl
  · split <;> rfl

/-- **Nothing is missing** but what was removed from the first text. -/
theorem reconcileOverlap_pieces (hf : SplitsAtSpaces f) (newId : QString) (previous : TranscriptSegment)
    (chunkEnd : Int) (first : TranscriptSegment) (rest : List TranscriptSegment) :
    piecesOf f (reconcileOverlap t newId previous chunkEnd (first :: rest)) =
      f (remainingText t previous first) ++ piecesOf f rest := by
  have hdeduplicated : piecesOf f (deduplicateFirst t previous first rest) =
      f (remainingText t previous first) ++ piecesOf f rest := by
    rcases deduplicateFirst_cases (t := t) previous first rest with ⟨hrepeated, -, hdropped⟩ | hkept
    · have hnone : f (remainingText t previous first) = [] := by
        rw [← hf.trimmed, List.isEmpty_iff.mp hrepeated, hf.nil]
      rw [hdropped, hnone, List.nil_append]
    · rw [hkept]
      rfl
  unfold reconcileOverlap
  dsimp only
  rw [piecesOf_congr (map_clampFirst ..), piecesOf_prependPreserved hf, flatMap_preservedText hf,
    ← piecesOf_append, List.takeWhile_append_dropWhile, hdeduplicated]

/-! ## Units -/

/-- The texts of a list, joined with spaces. -/
def joinedText (list : List TranscriptSegment) : QString := joinSpace (list.map (·.originalText))

theorem comparisonUnits_joinedText (laws : UnicodeLaws t) (list : List TranscriptSegment) :
    comparisonUnits t (joinedText list) = piecesOf (comparisonUnits t) list :=
  ((comparisonUnits_splits laws).joinSpace _).trans (List.flatMap_map ..)

/-- What the application's reconciliation is for: ordered segments between committed time and the end of the
    chunk, whose units are those of the incoming texts without the matched ones at the front. -/
structure Reconciled (t : CharTables) (previous : TranscriptSegment) (chunkEnd : Int)
    (incoming result : List TranscriptSegment) : Prop where
  after : ∀ segment ∈ result, previous.endMs ≤ segment.startMs
  before : ∀ segment ∈ result, segment.endMs ≤ chunkEnd
  ordered : TimeOrdered result
  units : comparisonUnits t (joinedText result) = (comparisonUnits t (joinedText incoming)).drop
    ((incoming.head?.map fun first =>
      (deduplicate t previous.displayText first.originalText).matchedUnits).getD 0)

/-- The ranges of a reconciled list are in order, whatever the texts are. -/
theorem reconcileOverlap_ordered (newId : QString) {previous : TranscriptSegment} {chunkEnd : Int}
    {incoming : List TranscriptSegment} (hend : previous.endMs < chunkEnd) (hincoming : TimeOrdered incoming)
    (hinside : ∀ segment ∈ incoming, segment.endMs ≤ chunkEnd) :
    let result := (reconcileOverlap t newId previous chunkEnd incoming).map range
    Ordered Prod.fst Prod.snd result ∧ ∀ r ∈ result, previous.endMs ≤ r.1 ∧ r.2 ≤ chunkEnd := by
  intro result
  have hranges : Ordered Prod.fst Prod.snd (incoming.map range) := ordered_ends.mp hincoming
  have hends : ∀ r ∈ incoming.map range, r.2 ≤ chunkEnd := by
    intro r hr
    obtain ⟨segment, hmem, rfl⟩ := List.mem_map.mp hr
    exact hinside segment hmem
  cases hlate : (incoming.map range).dropWhile (fun r => decide (r.2 ≤ previous.endMs)) with
  | nil =>
    rcases reconcileOverlap_ended (t := t) newId chunkEnd hlate with hnone | hone
    · rw [show result = [] from hnone]
      exact ⟨.nil, fun r hr => by cases hr⟩
    · rw [show result = [_] from hone]
      refine ⟨ordered_cons.mpr ⟨nofun, ?_, .nil⟩, fun r hr => ?_⟩
      · show previous.endMs < max (previous.endMs + 1) chunkEnd
        omega
      · rw [List.mem_singleton.mp hr]
        exact ⟨Int.le_refl _, by dsimp only; omega⟩
  | cons late rest =>
    have hsub : (late :: rest).Sublist (incoming.map range) := by
      rw [← hlate]
      exact List.dropWhile_sublist _
    -- the first range that is kept goes on after committed time
    have hlateEnd : previous.endMs < late.2 := by
      have hhead := List.head?_dropWhile_not (fun r : Int × Int => decide (r.2 ≤ previous.endMs))
        (incoming.map range)
      rw [hlate, List.head?_cons] at hhead
      simp only [decide_eq_false_iff_not, not_le] at hhead
      exact hhead
    obtain ⟨hnext, hpositive, hrest⟩ := ordered_cons.mp (hranges.sublist hsub)
    rw [show result = _ from reconcileOverlap_ranges hlate]
    refine ⟨ordered_cons.mpr ⟨hnext, ?_, hrest⟩, fun r hr => ?_⟩
    · show max late.1 previous.endMs < late.2
      omega
    · rcases List.mem_cons.mp hr with rfl | hr
      · exact ⟨Int.le_max_right .., hends late (hsub.subset (List.mem_cons_self ..))⟩
      · have hstart := hnext r hr
        exact ⟨by omega, hends r (hsub.subset (List.mem_cons_of_mem _ hr))⟩

/-- **Reconciliation at an overlap** keeps order and loses nothing else, exactly when no underscore stands
    behind the units that the first text repeats. -/
theorem reconciled_iff (laws : UnicodeLaws t) (newId : QString) (previous : TranscriptSegment) (chunkEnd : Int)
    (incoming : List TranscriptSegment) (hend : previous.endMs < chunkEnd) (hincoming : TimeOrdered incoming)
    (hinside : ∀ segment ∈ incoming, segment.endMs ≤ chunkEnd) :
    Reconciled t previous chunkEnd incoming (reconcileOverlap t newId previous chunkEnd incoming) ↔
      ∀ first, incoming.head? = some first →
        ¬ UnderscoreBehind t previous.displayText first.originalText := by
  obtain ⟨hordered, hbounds⟩ := reconcileOverlap_ordered (t := t) newId hend hincoming hinside
  have hall : ∀ segment ∈ reconcileOverlap t newId previous chunkEnd incoming,
      previous.endMs ≤ segment.startMs ∧ segment.endMs ≤ chunkEnd :=
    fun segment hmem => hbounds (range segment) (List.mem_map_of_mem hmem)
  have hunits : Reconciled t previous chunkEnd incoming (reconcileOverlap t newId previous chunkEnd incoming) ↔
      comparisonUnits t (joinedText (reconcileOverlap t newId previous chunkEnd incoming)) =
        (comparisonUnits t (joinedText incoming)).drop ((incoming.head?.map fun first =>
          (deduplicate t previous.displayText first.originalText).matchedUnits).getD 0) :=
    ⟨Reconciled.units, fun h => ⟨fun segment hmem => (hall segment hmem).1,
      fun segment hmem => (hall segment hmem).2, ordered_ends.mpr hordered, h⟩⟩
  rw [hunits, comparisonUnits_joinedText laws, comparisonUnits_joinedText laws]
  cases incoming with
  | nil => exact iff_of_true rfl fun first hfirst => by cases hfirst
  | cons first rest =>
    have hfirst : (∀ other, (first :: rest).head? = some other →
        ¬ UnderscoreBehind t previous.displayText other.originalText) ↔
        ¬ UnderscoreBehind t previous.displayText first.originalText :=
      ⟨fun h => h first rfl, fun h other hother => by cases hother; exact h⟩
    have hpieces : piecesOf (comparisonUnits t) (first :: rest) =
        comparisonUnits t first.originalText ++ piecesOf (comparisonUnits t) rest := rfl
    rw [hfirst, ← deduplicate_exact_iff laws, dropsMatched_iff_units,
      reconcileOverlap_pieces (comparisonUnits_splits laws), hpieces, List.head?_cons, Option.map_some,
      Option.getD_some, List.drop_append_of_le_length (matchedUnits_le ..), List.append_left_inj]
    exact Iff.rfl

/-- The end of the committed text, and an incoming segment that goes on from it. -/
def rowSegment (startMs endMs : Int) (text : String) : TranscriptSegment :=
  { startMs, endMs, originalText := qs text }

theorem timeOrdered_rows : TimeOrdered [rowSegment 900 2000 "The row, then", rowSegment 2000 3000 "the next"] := by
  refine ordered_cons.mpr ⟨fun other hother => ?_, ?_, ordered_cons.mpr ⟨fun _ hnone => absurd hnone List.not_mem_nil, ?_, .nil⟩⟩
  · rw [List.mem_singleton.mp hother]
    dsimp only [rowSegment]
    omega
  · dsimp only [rowSegment]
    omega
  · dsimp only [rowSegment]
    omega

theorem reconciled_phrase : Reconciled asciiTables (rowSegment 0 1000 "the row") 5000
    [rowSegment 900 2000 "The row, then", rowSegment 2000 3000 "the next"]
    (reconcileOverlap asciiTables (qs "id") (rowSegment 0 1000 "the row") 5000
      [rowSegment 900 2000 "The row, then", rowSegment 2000 3000 "the next"]) := by
  refine (reconciled_iff asciiTables_laws (qs "id") (rowSegment 0 1000 "the row") 5000 _ ?_ timeOrdered_rows
    fun segment hmem => ?_).mpr fun first hfirst => ?_
  · dsimp only [rowSegment]
    omega
  · rw [List.mem_cons, List.mem_singleton] at hmem
    rcases hmem with rfl | rfl <;> dsimp only [rowSegment] <;> omega
  · cases hfirst
    rw [← deduplicate_exact_iff asciiTables_laws, dropsMatched_iff_units]
    decide

/-- **The underscore again**, at the boundary of two chunks. -/
theorem reconciled_underscore : ¬ Reconciled asciiTables (rowSegment 0 1000 "the row") 5000
    [rowSegment 900 2000 "the row _id is"]
    (reconcileOverlap asciiTables (qs "id") (rowSegment 0 1000 "the row") 5000
      [rowSegment 900 2000 "the row _id is"]) := by
  intro h
  have hunits := h.units
  revert hunits
  decide

/-! ## Late text -/

def spokenWords (list : List TranscriptSegment) : List QString := piecesOf (fun text => words text []) list

/-- Whatever was said from the end of committed time on is still there, in order, at the end. -/
def KeepsLateText (committedEnd : Int) (incoming result : List TranscriptSegment) : Prop :=
  spokenWords (incoming.filter fun segment => committedEnd ≤ segment.startMs) <:+ spokenWords result

/-- Two units or more at the end of one text begin the other. -/
def RepeatsEnd (t : CharTables) (previousText incomingText : QString) : Prop :=
  ∃ n, 2 ≤ n ∧ n ∈ Overlaps (comparisonUnits t previousText) (comparisonUnits t incomingText)

theorem repeatsEnd_iff (previousText incomingText : QString) :
    RepeatsEnd t previousText incomingText ↔ 2 ≤ matchedUnits t previousText incomingText := by
  have hgreatest := matchedUnits_isGreatest (t := t) previousText incomingText
  refine ⟨?_, fun htwo => ⟨_, htwo, hgreatest.1⟩⟩
  rintro ⟨n, htwo, hn⟩
  exact htwo.trans (hgreatest.2 hn)

/-- The characters of a text but the spaces. -/
def visible (text : QString) : List QChar := text.filter fun c => !isSpace c

theorem visible_splits : SplitsAtSpaces visible where
  nil := rfl
  append := by
    intro c hspace first second
    unfold visible
    rw [List.filter_append, List.filter_cons_of_neg]
    rw [hspace]
    exact Bool.false_ne_true

theorem flatMap_visible (list : List TranscriptSegment) :
    (spokenWords list).flatMap visible = piecesOf visible list := by
  unfold spokenWords piecesOf
  rw [List.flatMap_assoc]
  refine congrArg (list.flatMap ·) (funext fun segment => ?_)
  exact visible_splits.words segment.originalText []

/-- **A removal** takes visible characters with it. -/
theorem visible_remainingText (laws : UnicodeLaws t) {previous first : TranscriptSegment}
    (hrepeats : RepeatsEnd t previous.displayText first.originalText) :
    (visible (remainingText t previous first)).length < (visible first.originalText).length := by
  rw [repeatsEnd_iff] at hrepeats
  rcases deduplicate_cases (t := t) previous.displayText first.originalText with ⟨hfew, -⟩ |
    ⟨-, -, unit, hunit, htext⟩
  · omega
  have hsplit : first.originalText =
      first.originalText.take unit.finish ++ first.originalText.drop unit.finish :=
    (List.take_append_drop _ _).symm
  have hcut := comparisonUnits_drop hunit
  -- the matched units are not made of spaces
  have hvisible : visible (first.originalText.take unit.finish) ≠ [] := by
    intro hnone
    have hspaces : ∀ c ∈ first.originalText.take unit.finish, isSpace c = true := by
      intro c hmem
      have hnot := List.filter_eq_nil_iff.mp hnone c hmem
      rwa [Bool.not_eq_true', Bool.not_eq_false] at hnot
    have hsame : comparisonUnits t first.originalText =
        comparisonUnits t (first.originalText.drop unit.finish) := by
      have hall (blank rest : QString) (hblank : ∀ c ∈ blank, isSpace c = true) :
          comparisonUnits t (blank ++ rest) = comparisonUnits t rest := by
        induction blank with
        | nil => rfl
        | cons c blank ih =>
          rw [List.cons_append, comparisonUnits_cons (isSeparator_of_space laws (hblank c (List.mem_cons_self ..))),
            ih fun d hd => hblank d (List.mem_cons_of_mem _ hd)]
      conv_lhs => rw [hsplit]
      exact hall _ _ hspaces
    have hlength := congrArg List.length (hsame.trans hcut)
    have hle := overlaps_le (matchedUnits_isGreatest (t := t) previous.displayText first.originalText).1
    rw [List.length_drop] at hlength
    omega
  have hsuffix : remainingText t previous first <:+ first.originalText.drop unit.finish := by
    unfold remainingText
    rw [htext]
    exact List.dropWhile_suffix _
  have hless := (hsuffix.sublist.filter fun c => !isSpace c).length_le
  have hparts : visible first.originalText = visible (first.originalText.take unit.finish) ++
      visible (first.originalText.drop unit.finish) := by
    conv_lhs => rw [hsplit]
    exact List.filter_append ..
  have hpositive := List.length_pos_iff.mpr hvisible
  rw [hparts, List.length_append]
  unfold visible at hless hpositive ⊢
  omega

/-- In a sorted list the late segments are at the end. -/
theorem filter_late_suffix {committedEnd : Int} {list : List TranscriptSegment}
    (hsorted : list.Pairwise fun a b => a.startMs ≤ b.startMs) :
    (list.filter fun segment => committedEnd ≤ segment.startMs) <:+ list := by
  induction list with
  | nil => exact List.suffix_refl []
  | cons segment rest ih =>
    obtain ⟨hfirst, hrest⟩ := List.pairwise_cons.mp hsorted
    by_cases hlate : committedEnd ≤ segment.startMs
    · have hall : (segment :: rest).filter (fun segment => committedEnd ≤ segment.startMs) = segment :: rest := by
        refine List.filter_eq_self.mpr fun other hmem => decide_eq_true ?_
        rcases List.mem_cons.mp hmem with rfl | hmem
        · exact hlate
        · exact hlate.trans (hfirst other hmem)
      exact ⟨[], hall⟩
    · rw [List.filter_cons_of_neg (by rw [decide_eq_true_eq]; exact hlate)]
      exact (ih hrest).trans (List.suffix_cons _ _)

theorem spokenWords_suffix {first second : List TranscriptSegment} (h : first <:+ second) :
    spokenWords first <:+ spokenWords second := by
  obtain ⟨before, rfl⟩ := h
  rw [spokenWords, spokenWords, piecesOf_append]
  exact List.suffix_append _ _

/-- What is said at the boundary when the words of the first segment are cut. -/
theorem keepsLateText_iff (laws : UnicodeLaws t) {previous first : TranscriptSegment}
    {rest result : List TranscriptSegment}
    (hsorted : (first :: rest).Pairwise fun a b => a.startMs ≤ b.startMs)
    (hresult : spokenWords result = words (remainingText t previous first) [] ++ spokenWords rest) :
    KeepsLateText previous.endMs (first :: rest) result ↔
      ¬ (previous.endMs ≤ first.startMs ∧ RepeatsEnd t previous.displayText first.originalText) := by
  unfold KeepsLateText
  rw [hresult]
  by_cases hlate : previous.endMs ≤ first.startMs
  · have hall : (first :: rest).filter (fun segment => previous.endMs ≤ segment.startMs) = first :: rest := by
      refine List.filter_eq_self.mpr fun other hmem => decide_eq_true ?_
      rcases List.mem_cons.mp hmem with rfl | hmem
      · exact hlate
      · exact hlate.trans ((List.pairwise_cons.mp hsorted).1 other hmem)
    rw [hall, and_iff_right hlate]
    constructor
    · rintro ⟨before, hbefore⟩ hrepeats
      have hshort := visible_remainingText laws hrepeats
      have hlength := congrArg (fun list => (list.flatMap visible).length) hbefore
      have hremaining : (words (remainingText t previous first) []).flatMap visible =
          visible (remainingText t previous first) := visible_splits.words _ []
      have hpieces : piecesOf visible (first :: rest) = visible first.originalText ++ piecesOf visible rest := rfl
      rw [List.flatMap_append, List.flatMap_append, flatMap_visible, flatMap_visible, hremaining, hpieces,
        List.length_append, List.length_append, List.length_append] at hlength
      omega
    · intro hnot
      rw [repeatsEnd_iff] at hnot
      rcases deduplicate_cases (t := t) previous.displayText first.originalText with ⟨-, -, htext⟩ | ⟨hmany, -⟩
      · unfold remainingText
        rw [htext]
        exact List.suffix_refl _
      · exact absurd hmany hnot
  · refine iff_of_true ?_ fun hboth => hlate hboth.1
    rw [List.filter_cons_of_neg (by rw [decide_eq_true_eq]; exact hlate)]
    exact (spokenWords_suffix (filter_late_suffix (List.pairwise_cons.mp hsorted).2)).trans
      (List.suffix_append _ _)

theorem reconcileAll_texts : ∀ {list out : List TranscriptSegment} {previousEnd : Int},
    reconcileAll previousEnd list = .ok out → out.map (·.originalText) = list.map (·.originalText) := by
  intro list
  induction list with
  | nil => intro out previousEnd h; cases h; rfl
  | cons segment rest ih =>
    intro out previousEnd h
    by_cases hmax : max segment.startMs previousEnd < segment.endMs
    · rw [reconcileAll_cons hmax] at h
      cases htail : reconcileAll segment.endMs rest with
      | error message => rw [htail] at h; cases h
      | ok tail =>
        rw [htail] at h
        cases h
        rw [List.map_cons, List.map_cons, ih htail]
    · rw [reconcileAll_empty (by omega)] at h
      cases h

theorem guiChunkSegments_words (uuid : QString) (terms : List GlossaryTerm) {chunk : JobChunk}
    {committed : List TranscriptSegment} {last first : TranscriptSegment} {rest : List TranscriptSegment}
    (hlast : committed.getLast? = some last) (hoverlap : chunk.overlapBeforeMs > 0) :
    spokenWords (guiChunkSegments t uuid terms chunk committed (first :: rest)) =
      words (remainingText t last first) [] ++ spokenWords rest := by
  have hgui : guiChunkSegments t uuid terms chunk committed (first :: rest) =
      (reconcileOverlap t uuid last chunk.endMs (first :: rest)).map fun segment =>
        { postProcessSegment t terms segment with provisional := false } := by
    unfold guiChunkSegments
    rw [hlast]
    dsimp only
    rw [if_pos hoverlap]
  rw [hgui]
  refine Eq.trans (piecesOf_congr ?_) (reconcileOverlap_pieces words_splits uuid last chunk.endMs first rest)
  rw [List.map_map]
  rfl

theorem cliChunkSegments_words {terms : List GlossaryTerm} {chunk : JobChunk}
    {committed out : List TranscriptSegment} {last first : TranscriptSegment} {rest : List TranscriptSegment}
    (hlast : committed.getLast? = some last) (hoverlap : chunk.overlapBeforeMs > 0)
    (hout : cliChunkSegments t terms chunk committed (first :: rest) = .ok out) :
    spokenWords out = words (remainingText t last first) [] ++ spokenWords rest := by
  unfold cliChunkSegments at hout
  rw [hlast] at hout
  dsimp only at hout
  rw [if_pos hoverlap] at hout
  have htexts : spokenWords out = spokenWords (cliDeduplicateFirst t last first rest) := by
    refine piecesOf_congr ((reconcileAll_texts hout).trans ?_)
    rw [List.map_map]
    rfl
  rw [htexts]
  unfold cliDeduplicateFirst
  dsimp only
  split
  next hempty =>
    have hnone : words (remainingText t last first) [] = [] := by
      rw [← words_splits.trimmed]
      exact congrArg (words · []) (List.isEmpty_iff.mp hempty)
    rw [hnone, List.nil_append]
  next => rfl

/-- **Late text** is kept by both front ends, exactly when no late segment begins with two units that end the
    committed text. -/
theorem late_text_iff (laws : UnicodeLaws t) (uuid : QString) (terms : List GlossaryTerm) (chunk : JobChunk)
    (committed incoming : List TranscriptSegment) (last : TranscriptSegment)
    (hlast : committed.getLast? = some last) (hoverlap : chunk.overlapBeforeMs > 0)
    (hsorted : incoming.Pairwise fun a b => a.startMs ≤ b.startMs) :
    (KeepsLateText last.endMs incoming (guiChunkSegments t uuid terms chunk committed incoming) ∧
      ∀ out, cliChunkSegments t terms chunk committed incoming = .ok out →
        KeepsLateText last.endMs incoming out) ↔
      ∀ first, incoming.head? = some first →
        ¬ (last.endMs ≤ first.startMs ∧ RepeatsEnd t last.displayText first.originalText) := by
  cases incoming with
  | nil => exact iff_of_true ⟨List.nil_suffix, fun out _ => List.nil_suffix⟩ fun first hfirst => by cases hfirst
  | cons first rest =>
    have hgui := keepsLateText_iff laws hsorted (guiChunkSegments_words uuid terms hlast hoverlap)
    constructor
    · rintro ⟨hkept, -⟩ other hother
      cases hother
      exact hgui.mp hkept
    · intro hnot
      have hfirst := hnot first rfl
      exact ⟨hgui.mpr hfirst, fun out hout =>
        (keepsLateText_iff laws hsorted (cliChunkSegments_words hlast hoverlap hout)).mpr hfirst⟩

def overlappedChunk : JobChunk :=
  { id := qs "chunk", jobId := qs "job", startMs := 500, endMs := 9000, overlapBeforeMs := 500 }

theorem late_text_other :
    KeepsLateText 1000 [rowSegment 2000 3000 "then we eat"]
      (guiChunkSegments asciiTables (qs "id") [] overlappedChunk [rowSegment 0 1000 "we meet at noon"]
        [rowSegment 2000 3000 "then we eat"]) := by
  refine ((late_text_iff asciiTables_laws (qs "id") [] overlappedChunk [rowSegment 0 1000 "we meet at noon"]
    [rowSegment 2000 3000 "then we eat"] (rowSegment 0 1000 "we meet at noon") rfl (by decide)
    (List.pairwise_singleton _ _)).mpr fun first hfirst => ?_).1
  cases hfirst
  rintro ⟨-, hrepeats⟩
  rw [repeatsEnd_iff] at hrepeats
  revert hrepeats
  decide

/-- **A repetition a second later** is taken for the overlap. -/
theorem late_text_repeated :
    ¬ (KeepsLateText 1000 [rowSegment 2000 3000 "at noon we eat"]
        (guiChunkSegments asciiTables (qs "id") [] overlappedChunk [rowSegment 0 1000 "we meet at noon"]
          [rowSegment 2000 3000 "at noon we eat"]) ∧
      ∀ out, cliChunkSegments asciiTables [] overlappedChunk [rowSegment 0 1000 "we meet at noon"]
          [rowSegment 2000 3000 "at noon we eat"] = .ok out →
        KeepsLateText 1000 [rowSegment 2000 3000 "at noon we eat"] out) := by
  rintro ⟨hgui, -⟩
  have hwords : spokenWords (guiChunkSegments asciiTables (qs "id") [] overlappedChunk
      [rowSegment 0 1000 "we meet at noon"] [rowSegment 2000 3000 "at noon we eat"]) = [qs "we", qs "eat"] := by
    decide
  have hlate : spokenWords ([rowSegment 2000 3000 "at noon we eat"].filter fun segment =>
      (1000 : Int) ≤ segment.startMs) = [qs "at", qs "noon", qs "we", qs "eat"] := by
    decide
  unfold KeepsLateText at hgui
  rw [hwords, hlate] at hgui
  have hlength := hgui.length_le
  revert hlength
  decide

end BreezeDesk.App
