import Mathlib.Data.List.Induction
import Galio.Fs.Path

/-! Normal forms of paths, and what `path_normalize` and `path_resolve` make of them. -/

namespace Galio

open List

variable {name path : CString} {names rows : List CString} {absolute : Bool} {outSize : Nat}

/-- Names as they stand between slashes. -/
def ProperNames (names : List CString) : Prop := ∀ name ∈ names, name ≠ [] ∧ slash ∉ name

lemma pathNames_append (front rest : CString) :
    pathNames (front ++ slash :: rest) = pathNames front ++ pathNames rest := by
  simp [pathNames, splitOn, splitOnP_append_cons]

lemma pathNames_single (nonempty : name ≠ []) (plain : slash ∉ name) : pathNames name = [name] := by
  have split : name.splitOn slash = [name] := splitOnP_eq_singleton fun byte listed => by
    simp only [beq_eq_false_iff_ne]
    rintro rfl
    exact plain listed
  simp [pathNames, split, nonempty]

lemma pathNames_proper (path : CString) : ProperNames (pathNames path) := by
  have plain : ∀ piece ∈ path.splitOn slash, slash ∉ piece := by
    induction path with
    | nil => simp [splitOn]
    | cons byte rest ih =>
      rw [splitOn] at ih ⊢
      rw [splitOnP_cons_eq_if_modifyHead]
      by_cases slashed : byte = slash
      · rw [if_pos (by simpa using slashed)]
        intro piece listed
        rcases mem_cons.mp listed with rfl | listed
        · simp
        · exact ih piece listed
      · rw [if_neg (by simpa using slashed)]
        cases split : rest.splitOnP (· == slash) with
        | nil => simp
        | cons first others =>
          rw [split] at ih
          intro piece listed
          rcases mem_cons.mp listed with rfl | listed
          · simpa using ⟨Ne.symm slashed, ih first (.head _)⟩
          · exact ih piece (.tail _ listed)
  intro name listed
  obtain ⟨piece, nonempty⟩ := mem_filter.mp listed
  exact ⟨by simpa using nonempty, plain name piece⟩

/-- Names with a slash before each. -/
def slashed (names : List CString) : CString := names.flatMap (slash :: ·)

lemma pathNames_slashed (proper : ProperNames names) : pathNames (slashed names) = names := by
  induction names using reverseRecOn with
  | nil => rfl
  | append_singleton front name ih =>
    have last := proper name (by simp)
    have joined : slashed (front ++ [name]) = slashed front ++ slash :: name := by simp [slashed]
    rw [joined, pathNames_append, ih fun other listed => proper other (by simp [listed]),
      pathNames_single last.1 last.2]

lemma pathNames_final (path : CString) : pathNames (path ++ [slash]) = pathNames path := by
  rw [pathNames_append]
  simp [pathNames]

/-- Names with a slash between each two. -/
def joined (names : List CString) : CString := (slashed names).drop 1

lemma pathNames_joined (proper : ProperNames names) : pathNames (joined names) = names := by
  cases names with
  | nil => rfl
  | cons name rest =>
    have first := proper name (.head _)
    have cut : joined (name :: rest) = name ++ slashed rest := by simp [joined, slashed]
    cases rest with
    | nil => rw [cut]; simpa [slashed] using pathNames_single first.1 first.2
    | cons next rest =>
      have tail : slashed (next :: rest) = slash :: joined (next :: rest) := by simp [joined, slashed]
      have read := pathNames_slashed fun other listed => proper other (.tail _ listed)
      rw [tail] at read
      have behind : pathNames (slash :: joined (next :: rest)) = pathNames (joined (next :: rest)) := by
        simpa [pathNames, splitOn] using pathNames_append [] (joined (next :: rest))
      rw [cut, tail, pathNames_append, pathNames_single first.1 first.2, ← behind, read]
      rfl

/--
One name of a path applied to the names kept so far, the last one first. Two dots remove the name before them;
without one they are kept in a relative path only.
-/
def lexicalStep (absolute : Bool) (kept : List CString) (name : CString) : List CString :=
  if name = [dot] then kept
  else if name = [dot, dot] then
    match kept with
    | [] => if absolute then [] else [name]
    | above :: below => if above ≠ [dot, dot] then below else if absolute then kept else name :: kept
  else name :: kept

/-- The names of the lexical normal form. -/
def lexicalNames (absolute : Bool) (names : List CString) : List CString :=
  (names.foldl (lexicalStep absolute) []).reverse

lemma mem_lexicalStep {kept : List CString} {other : CString}
    (listed : other ∈ lexicalStep absolute kept name) : other ∈ kept ∨ other = name ∧ name ≠ [dot] := by
  unfold lexicalStep at listed
  split at listed
  · exact .inl listed
  rename_i plain
  split at listed
  · split at listed
    · split at listed
      · simp at listed
      · exact .inr ⟨by simpa using listed, plain⟩
    · split at listed
      · exact .inl (.tail _ listed)
      split at listed
      · exact .inl listed
      · rcases mem_cons.mp listed with rfl | listed
        · exact .inr ⟨rfl, plain⟩
        · exact .inl listed
  · rcases mem_cons.mp listed with rfl | listed
    · exact .inr ⟨rfl, plain⟩
    · exact .inl listed

lemma mem_lexicalNames (listed : name ∈ lexicalNames absolute names) : name ∈ names ∧ name ≠ [dot] := by
  have general : ∀ (names kept : List CString), name ∈ names.foldl (lexicalStep absolute) kept →
      name ∈ kept ∨ name ∈ names ∧ name ≠ [dot] := by
    intro names
    induction names with
    | nil => exact fun kept listed => .inl listed
    | cons first rest ih =>
      intro kept listed
      rcases ih _ listed with early | ⟨late, plain⟩
      · rcases mem_lexicalStep early with old | ⟨rfl, plain⟩
        · exact .inl old
        · exact .inr ⟨.head _, plain⟩
      · exact .inr ⟨.tail _ late, plain⟩
  simpa using general names [] (mem_reverse.mp listed)

lemma lexicalNames_proper (proper : ProperNames names) :
    ProperNames (lexicalNames absolute names) := fun name listed => proper name (mem_lexicalNames listed).1

/-- The components never need a row beyond the table before another one is read. -/
def Shallow (absolute : Bool) (names : List CString) : Prop :=
  ∀ k, k < names.length → (lexicalNames absolute (names.take k)).length < pathMaxComponents

/-- The loop leaves the names of the normal form in its rows, unless it overruns them. -/
theorem foldlM_normalizeStep (absolute : Bool) (names : List CString) :
    (Shallow absolute names → names.foldlM (normalizeStep absolute) [] = some (lexicalNames absolute names).reverse) ∧
      (¬Shallow absolute names → names.foldlM (normalizeStep absolute) [] = none) := by
  have step : ∀ rows name, normalizeStep absolute rows name =
      if rows.length ≥ pathMaxComponents then none else some (lexicalStep absolute rows name) := by
    intro rows name
    unfold normalizeStep lexicalStep
    by_cases full : rows.length ≥ pathMaxComponents
    · rw [if_pos full, if_pos full]
    rw [if_neg full, if_neg full]
    by_cases single : name = [dot]
    · rw [if_pos single, if_pos single]
    rw [if_neg single, if_neg single]
    by_cases double : name = [dot, dot]
    · rw [if_pos double, if_pos double]
      cases rows with
      | nil => cases absolute <;> rfl
      | cons above below =>
        simp only
        split <;> [rfl; cases absolute <;> rfl]
    · rw [if_neg double, if_neg double]
  have general : ∀ (names rows : List CString),
      ((∀ k < names.length, ((names.take k).foldl (lexicalStep absolute) rows).length < pathMaxComponents) →
        names.foldlM (normalizeStep absolute) rows = some (names.foldl (lexicalStep absolute) rows)) ∧
      (¬(∀ k < names.length, ((names.take k).foldl (lexicalStep absolute) rows).length < pathMaxComponents) →
        names.foldlM (normalizeStep absolute) rows = none) := by
    intro names
    induction names with
    | nil => exact fun rows => ⟨fun _ => rfl, fun deep => absurd (fun k inside => absurd inside (by simp)) deep⟩
    | cons name rest ih =>
      intro rows
      rw [foldlM_cons, step]
      by_cases full : rows.length ≥ pathMaxComponents
      · rw [if_pos full]
        exact ⟨fun shallow => absurd (shallow 0 (by simp)) (Nat.not_lt_of_le full), fun _ => rfl⟩
      · rw [if_neg full]
        have shift : (∀ k, k < (name :: rest).length →
              (((name :: rest).take k).foldl (lexicalStep absolute) rows).length < pathMaxComponents) ↔
            ∀ k < rest.length,
              ((rest.take k).foldl (lexicalStep absolute) (lexicalStep absolute rows name)).length <
                pathMaxComponents := by
          constructor
          · exact fun shallow k inside => shallow (k + 1) (by simpa using inside)
          · intro shallow k inside
            cases k with
            | zero => exact Nat.lt_of_not_le full
            | succ k => exact shallow k (by simpa using inside)
        rw [shift]
        exact ih _
  simpa only [Shallow, lexicalNames, length_reverse, reverse_reverse] using general names []

/-- The rows that are written to a buffer from a position on, with a gap before the first. -/
def fitting (outSize : Nat) : Nat → Nat → List CString → List CString
  | _, _, [] => []
  | position, gap, row :: rest =>
    if position + row.length + 1 ≥ outSize then []
    else row :: fitting outSize (position + gap + row.length) 1 rest

variable {position gap : Nat} {row : CString}

lemma fitting_subset (listed : row ∈ fitting outSize position gap rows) : row ∈ rows := by
  induction rows generalizing position gap with
  | nil => simp [fitting] at listed
  | cons first rest ih =>
    rw [fitting] at listed
    split at listed
    · simp at listed
    · rcases mem_cons.mp listed with rfl | listed
      · exact .head _
      · exact .tail _ (ih listed)

variable {out : CString}

lemma joinRows_slashed (nonempty : out ≠ []) (plain : out.getLast? ≠ some slash)
    (proper : ProperNames rows) : joinRows outSize out rows = out ++ slashed (fitting outSize out.length 1 rows) := by
  induction rows generalizing out with
  | nil => simp [joinRows, fitting, slashed]
  | cons row rest ih =>
    rw [joinRows, fitting]
    by_cases full : out.length + row.length + 1 ≥ outSize
    · rw [if_pos full, if_pos full]
      simp [slashed]
    · have first := proper row (.head _)
      have unslashed : (out ++ [slash] ++ row).getLast? ≠ some slash := by
        rw [getLast?_append_of_ne_nil _ first.1]
        exact fun last => first.2 (mem_of_getLast? last)
      rw [if_neg full, if_neg full, if_pos ⟨nonempty, plain⟩,
        ih (by simp) unslashed fun other listed => proper other (.tail _ listed)]
      have position : (out ++ [slash] ++ row).length = out.length + 1 + row.length := by simp; omega
      rw [position]
      simp [slashed]

lemma joinRows_first (start : out = [] ∨ out = [slash])
    (proper : ProperNames (row :: rows)) (fits : ¬out.length + row.length + 1 ≥ outSize) :
    joinRows outSize out (row :: rows) = out ++ row ++ slashed (fitting outSize (out.length + row.length) 1 rows) := by
  have first := proper row (.head _)
  have unslashed : (out ++ row).getLast? ≠ some slash := by
    rw [getLast?_append_of_ne_nil _ first.1]
    exact fun last => first.2 (mem_of_getLast? last)
  have gapless : ¬(out ≠ [] ∧ out.getLast? ≠ some slash) := by
    rcases start with rfl | rfl <;> simp
  rw [joinRows, if_neg fits, if_neg gapless,
    joinRows_slashed (by simp [first.1]) unslashed fun other listed => proper other (.tail _ listed)]
  rw [length_append]

lemma joinRows_absolute (proper : ProperNames rows) : joinRows outSize [slash] rows =
      if fitting outSize 1 0 rows = [] then [slash] else slashed (fitting outSize 1 0 rows) := by
  cases rows with
  | nil => rfl
  | cons row rows =>
    by_cases full : 1 + row.length + 1 ≥ outSize
    · rw [joinRows, if_pos (by simpa using full), fitting, if_pos full, if_pos rfl]
    · rw [joinRows_first (.inr rfl) proper (by simpa using full), fitting, if_neg full]
      simp [slashed]

lemma joinRows_relative (proper : ProperNames rows) :
    joinRows outSize [] rows = joined (fitting outSize 0 0 rows) := by
  cases rows with
  | nil => rfl
  | cons row rows =>
    by_cases full : 0 + row.length + 1 ≥ outSize
    · rw [joinRows, if_pos (by simpa using full), fitting, if_pos full]
      rfl
    · rw [joinRows_first (.inl rfl) proper (by simpa using full), fitting, if_neg full]
      simp [joined, slashed]

lemma pathPieces_proper (path : CString) : ProperNames (pathPieces path) := by
  have cut : ∀ (steps : Nat) (name : CString), slash ∉ name → ProperNames (cutName steps name) := by
    intro steps
    induction steps with
    | zero => exact fun name _ piece listed => by simp [cutName] at listed
    | succ steps ih =>
      intro name plain piece listed
      rw [cutName] at listed
      split at listed
      · simp at listed
      rename_i nonempty
      rcases mem_cons.mp listed with rfl | listed
      · refine ⟨?_, fun slashed => plain (mem_of_mem_take slashed)⟩
        cases name with
        | nil => exact absurd rfl nonempty
        | cons byte rest => simp [pathComponentLen]
      · exact ih _ (fun slashed => plain (mem_of_mem_drop slashed)) piece listed
  intro piece listed
  obtain ⟨name, named, piece⟩ := mem_flatMap.mp listed
  exact cut _ name (pathNames_proper path name named).2 _ piece

/-- The text of a normal form. -/
def lexicalText (absolute : Bool) (names : List CString) : CString :=
  if absolute then dot :: slashed names else if names = [] then [dot] else joined names

/-- The components that `path_normalize` reads of a path. -/
def normalPieces (path : CString) : List CString := pathPieces (if pathIsAbsolute path then pathScratch path else path)

/-- The names of the normal form of a path. -/
def normalNames (path : CString) : List CString := lexicalNames (pathIsAbsolute path) (pathNames path)

/--
A path stays within the limits of `path_normalize`.

No component is read when all rows are in use. Of the components, cut to rows and to the scratch buffer, those that
fit the output are the names of the normal form, with room for the dot of an absolute path. A buffer of one byte
takes the empty text of a relative path.
-/
def WithinLimits (path : CString) (outSize : Nat) : Prop :=
  Shallow (pathIsAbsolute path) (normalPieces path) ∧
    (pathIsAbsolute path = false ∧ outSize = 1 ∨
      fitting outSize (if pathIsAbsolute path then 1 else 0) 0
        (lexicalNames (pathIsAbsolute path) (normalPieces path)) =
        normalNames path ∧
      (pathIsAbsolute path = true → normalNames path ≠ [] → (slashed (normalNames path)).length + 1 < outSize))

/-- A result that is a failure or the text of a normal form. -/
def PathResult.Faithful (expected : CString) : PathResult → Prop
  | .overrun => False
  | .null => True
  | .text out => out = [] ∨ out = expected

instance (expected : CString) : (result : PathResult) → Decidable (result.Faithful expected)
  | .overrun => .isFalse id
  | .null => .isTrue trivial
  | .text out => inferInstanceAs (Decidable (out = [] ∨ out = expected))

lemma dotPath_faithful_iff (proper : ProperNames rows) (also : ProperNames names) :
    (dotPath outSize (if rows = [] then [slash] else slashed rows) = [] ∨
      dotPath outSize (if rows = [] then [slash] else slashed rows) = dot :: slashed names) ↔
      rows = names ∧ (names ≠ [] → (slashed names).length + 1 < outSize) := by
  cases rows with
  | nil =>
    have root : dotPath outSize [slash] = [dot] := rfl
    rw [if_pos rfl, root]
    constructor
    · rintro (never | same)
      · simp at never
      · have none : names = [] := by
          cases names with
          | nil => rfl
          | cons name rest => simp [slashed] at same
        exact ⟨none.symm, fun some => absurd none some⟩
    · rintro ⟨rfl, -⟩
      exact .inr rfl
  | cons row rest =>
    have first := proper row (.head _)
    have starts : slashed (row :: rest) = slash :: (row ++ slashed rest) := by simp [slashed]
    have longer : slashed (row :: rest) ≠ [slash] := by simp [starts, first.1]
    rw [if_neg (by simp), dotPath, if_pos (by simp [starts]), if_neg longer]
    by_cases room : (slashed (row :: rest)).length + 1 < outSize
    · have whole : dot :: slash :: (slashed (row :: rest)).drop 1 = dot :: slashed (row :: rest) := by simp [starts]
      rw [if_pos room, whole]
      constructor
      · rintro (never | same)
        · simp at never
        · have equal : row :: rest = names := by
            rw [← pathNames_slashed proper, (cons.inj same).2, pathNames_slashed also]
          exact ⟨equal, fun _ => equal ▸ room⟩
      · rintro ⟨rfl, -⟩
        exact .inr rfl
    · -- Without room the dot takes the place of the slash, before the first byte of a name.
      rw [if_neg room]
      constructor
      · rintro (never | same)
        · simp at never
        · have tail := (cons.inj same).2
          rw [starts, drop_one, tail_cons] at tail
          cases row with
          | nil => exact absurd rfl first.1
          | cons byte row =>
            cases names with
            | nil => simp [slashed] at tail
            | cons name names =>
              simp only [slashed, flatMap_cons, cons_append, cons.injEq] at tail
              exact absurd (tail.1 ▸ mem_cons_self : slash ∈ byte :: row) first.2
      · rintro ⟨rfl, fits⟩
        exact absurd (fits (by simp)) room

lemma joined_faithful_iff (proper : ProperNames rows)
    (also : ProperNames names) (plain : ∀ name ∈ rows, name ≠ [dot]) (dotless : ∀ name ∈ names, name ≠ [dot])
    (positive : outSize ≠ 0) (short : outSize = 1 → rows = []) :
    ((if joined rows = [] then (if outSize > 1 then [dot] else []) else joined rows) = [] ∨
      (if joined rows = [] then (if outSize > 1 then [dot] else []) else joined rows) = lexicalText false names) ↔
      outSize = 1 ∨ rows = names := by
  have read := pathNames_joined proper
  -- A single dot is the text of no names.
  have single : ∀ {list}, ProperNames list → (∀ name ∈ list, name ≠ [dot]) → joined list ≠ [dot] := by
    intro list wellFormed none same
    have names := pathNames_joined wellFormed
    rw [same] at names
    exact none [dot] (names ▸ .head _) rfl
  have text : lexicalText false names = if names = [] then [dot] else joined names := rfl
  by_cases empty : rows = []
  · subst empty
    have nothing : joined [] = [] := rfl
    rw [if_pos nothing, text]
    by_cases one : outSize = 1
    · rw [if_neg (by omega)]
      exact iff_of_true (.inl rfl) (.inl one)
    · rw [if_pos (by omega)]
      by_cases none : names = []
      · rw [if_pos none]
        exact iff_of_true (.inr rfl) (.inr none.symm)
      · rw [if_neg none]
        refine iff_of_false ?_ ?_
        · rintro (never | same)
          · simp at never
          · exact single also dotless same.symm
        · rintro (never | same)
          · exact one never
          · exact none same.symm
  · have nonempty : joined rows ≠ [] := fun none => by
      rw [none] at read
      exact empty (read ▸ rfl)
    rw [if_neg nonempty, text]
    constructor
    · rintro (never | same)
      · exact absurd never nonempty
      · right
        by_cases none : names = []
        · rw [if_pos none] at same
          exact absurd same (single proper plain)
        · rw [if_neg none] at same
          rw [← read, same, pathNames_joined also]
    · rintro (one | rfl)
      · exact absurd (short one) empty
      · rw [if_neg empty]
        exact .inr rfl

lemma normalizeComponents_shallow (shallow : Shallow absolute (pathPieces path)) :
    normalizeComponents path absolute outSize =
      let out := joinRows outSize (if absolute then [slash] else []) (lexicalNames absolute (pathPieces path))
      if out = [] then .text (if outSize > 1 then [dot] else []) else .text out := by
  rw [normalizeComponents, (foldlM_normalizeStep absolute _).1 shallow]
  simp only [reverse_reverse]

lemma normalizeComponents_deep
    (deep : ¬Shallow absolute (pathPieces path)) : normalizeComponents path absolute outSize = .overrun := by
  rw [normalizeComponents, (foldlM_normalizeStep absolute _).2 deep]

lemma fitting_one : fitting 1 position gap rows = [] := by
  cases rows with
  | nil => rfl
  | cons row rest => rw [fitting, if_pos (by omega)]

/-- An absolute path is normalised faithfully exactly within the limits. -/
theorem pathNormalize_absolute_iff (positive : outSize ≠ 0) (absolute : pathIsAbsolute path) :
    (pathNormalize path outSize).Faithful (lexicalText true (normalNames path)) ↔ WithinLimits path outSize := by
  have nonempty : path ≠ [] := by rintro rfl; simp [pathIsAbsolute] at absolute
  have pieces : normalPieces path = pathPieces (pathScratch path) := by rw [normalPieces, if_pos absolute]
  have text : lexicalText true (normalNames path) = dot :: slashed (normalNames path) := rfl
  have limits : WithinLimits path outSize ↔ Shallow true (normalPieces path) ∧
      fitting outSize 1 0 (lexicalNames true (normalPieces path)) = normalNames path ∧
      (normalNames path ≠ [] → (slashed (normalNames path)).length + 1 < outSize) := by
    simp only [WithinLimits, absolute, if_true, Bool.true_eq_false, false_and, false_or, true_implies]
  rw [pathNormalize, if_neg positive, if_neg nonempty, if_pos absolute, limits, text, pieces]
  by_cases shallow : Shallow true (pathPieces (pathScratch path))
  · have proper : ProperNames (lexicalNames true (pathPieces (pathScratch path))) :=
      lexicalNames_proper (pathPieces_proper _)
    have written : joinRows outSize [slash] _ = _ := joinRows_absolute proper
    have named : ProperNames (normalNames path) := lexicalNames_proper (pathNames_proper path)
    have started : joinRows outSize [slash] (lexicalNames true (pathPieces (pathScratch path))) ≠ [] := by
      rw [written]
      split
      · simp
      rename_i some
      cases listed : fitting outSize 1 0 (lexicalNames true (pathPieces (pathScratch path))) with
      | nil => exact absurd listed some
      | cons row rest => simp [slashed]
    rw [normalizeComponents_shallow shallow]
    simp only [if_true, if_neg started, PathResult.Faithful]
    rw [written, dotPath_faithful_iff (fun row listed => proper row (fitting_subset listed)) named]
    exact ⟨fun both => ⟨shallow, both⟩, fun all => all.2⟩
  · rw [normalizeComponents_deep shallow]
    exact ⟨False.elim, fun all => absurd all.1 shallow⟩

/-- A relative path is normalised faithfully exactly within the limits. -/
theorem pathNormalize_relative_iff (positive : outSize ≠ 0) (relative : pathIsAbsolute path = false) :
    (pathNormalize path outSize).Faithful (lexicalText false (normalNames path)) ↔ WithinLimits path outSize := by
  have pieces : normalPieces path = pathPieces path := by rw [normalPieces, if_neg (by simp [relative])]
  have limits : WithinLimits path outSize ↔ Shallow false (normalPieces path) ∧
      (outSize = 1 ∨ fitting outSize 0 0 (lexicalNames false (normalPieces path)) = normalNames path) := by
    simp [WithinLimits, relative]
  -- The empty path has its own branch, with the result of the loop over no components.
  have unified : pathNormalize path outSize = normalizeComponents path false outSize := by
    rw [pathNormalize, if_neg positive]
    by_cases empty : path = []
    · rw [empty]
      rfl
    · rw [if_neg empty, if_neg (by simp [relative])]
  rw [unified, limits, pieces]
  by_cases shallow : Shallow false (pathPieces path)
  · have proper : ProperNames (lexicalNames false (pathPieces path)) := lexicalNames_proper (pathPieces_proper _)
    have written : joinRows outSize [] _ = _ := joinRows_relative proper
    have named : ProperNames (normalNames path) := lexicalNames_proper (pathNames_proper path)
    have plain : ∀ name ∈ fitting outSize 0 0 (lexicalNames false (pathPieces path)), name ≠ [dot] :=
      fun name listed => (mem_lexicalNames (fitting_subset listed)).2
    have dotless : ∀ name ∈ normalNames path, name ≠ [dot] := fun name listed => (mem_lexicalNames listed).2
    have short : outSize = 1 → fitting outSize 0 0 (lexicalNames false (pathPieces path)) = [] := by
      rintro rfl
      exact fitting_one
    have split := joined_faithful_iff (fun row listed => proper row (fitting_subset listed)) named plain dotless
      positive short
    rw [normalizeComponents_shallow shallow]
    simp only [Bool.false_eq_true, if_false]
    rw [written, ← apply_ite PathResult.text, PathResult.Faithful, split]
    exact ⟨fun either => ⟨shallow, either⟩, fun all => all.2⟩
  · rw [normalizeComponents_deep shallow]
    exact ⟨False.elim, fun all => absurd all.1 shallow⟩

lemma pathNormalize_faithful_iff (positive : outSize ≠ 0) :
    (pathNormalize path outSize).Faithful (lexicalText (pathIsAbsolute path) (normalNames path)) ↔
      WithinLimits path outSize := by
  cases absolute : pathIsAbsolute path with
  | true => exact pathNormalize_absolute_iff positive absolute
  | false => exact pathNormalize_relative_iff positive absolute

/-- The working directory with a slash at its end. -/
def wholeBase (cwd : CString) : CString :=
  let base := if cwd = [] then [slash] else cwd
  if base.getLast? = some slash then base else base ++ [slash]

/-- The path that is meant by a path and a working directory. -/
def wholePath (cwd path : CString) : CString :=
  if path = [] then cwd else if pathIsAbsolute path then path else wholeBase cwd ++ path

/-- A relative path that does not fit the scratch buffer. -/
def Overlong (cwd path : CString) : Prop :=
  path ≠ [] ∧ pathIsAbsolute path = false ∧ pathScratchLen ≤ (pathBase cwd).length + path.length

lemma pathBase_whole {cwd : CString} (room : (pathBase cwd).length + 1 < pathScratchLen) :
    pathBase cwd = wholeBase cwd := by
  unfold pathBase wholeBase at *
  by_cases empty : cwd = []
  · simp only [if_pos empty]
    rfl
  · simp only [if_neg empty] at room ⊢
    have short : cwd.length < pathScratchLen - 1 := by
      by_contra long
      have cut : (cwd.take (pathScratchLen - 1)).length = pathScratchLen - 1 := by
        rw [length_take]
        omega
      split at room
      · omega
      · omega
    rw [take_of_length_le (by omega)]
    by_cases ends : cwd.getLast? = some slash
    · rw [if_neg (by simp [ends]), if_pos ends]
    · rw [if_pos ⟨ends, by omega⟩, if_neg ends]

/-- `path_resolve` stays inside its table, and fails or writes the normal form of the path. -/
def ResolvesFaithfully (cwd path : CString) (outSize : Nat) : Prop :=
  (pathResolve cwd path outSize).Faithful
    (lexicalText (pathIsAbsolute (wholePath cwd path)) (normalNames (wholePath cwd path)))

/--
Paths are resolved faithfully exactly within the limits.

Outside the limits a component or the path is cut, components are left out, or the table is overrun.
-/
theorem resolvesFaithfully_iff (cwd path : CString) (outSize : Nat) :
    ResolvesFaithfully cwd path outSize ↔
      outSize = 0 ∨ Overlong cwd path ∨ WithinLimits (wholePath cwd path) outSize := by
  rw [ResolvesFaithfully, pathResolve]
  by_cases zero : outSize = 0
  · rw [if_pos zero]
    exact iff_of_true trivial (.inl zero)
  simp only [zero, false_or]
  by_cases empty : path = []
  · have fits : ¬Overlong cwd path := fun overlong => overlong.1 empty
    simp only [if_pos empty, fits, false_or, wholePath]
    exact pathNormalize_faithful_iff zero
  rw [if_neg empty]
  by_cases absolute : pathIsAbsolute path
  · have fits : ¬Overlong cwd path := by simp [Overlong, absolute]
    simp only [if_pos absolute, fits, false_or, wholePath, if_neg empty]
    exact pathNormalize_faithful_iff zero
  rw [if_neg absolute]
  by_cases room : (pathBase cwd).length + path.length < pathScratchLen
  · have fits : ¬Overlong cwd path := fun overlong => absurd room (Nat.not_lt_of_le overlong.2.2)
    have positive : 0 < path.length := length_pos_iff.mpr empty
    have base : pathBase cwd = wholeBase cwd := pathBase_whole (by omega)
    have whole : wholePath cwd path = pathBase cwd ++ path := by
      rw [wholePath, if_neg empty, if_neg absolute, base]
    simp only [if_pos room, fits, false_or, whole]
    exact pathNormalize_faithful_iff zero
  · rw [if_neg room]
    exact iff_of_true (.inl rfl) (.inl ⟨empty, by simpa using absolute, Nat.le_of_not_lt room⟩)

/--
Three paths below the root that are not resolved faithfully.

With eight bytes for the result `usr/bin` becomes `./usr`; a component of 256 bytes becomes two; and the 65th of 65
components is written behind the table.
-/
theorem resolves_to_other_location :
    ¬ResolvesFaithfully [slash] [117, 115, 114, slash, 98, 105, 110] 8 ∧
      ¬ResolvesFaithfully [slash] (List.replicate 256 97) 1024 ∧
      ¬ResolvesFaithfully [slash] (List.replicate 65 [97, slash]).flatten 1024 := by
  unfold ResolvesFaithfully
  decide +kernel

end Galio
