import Mathlib.Data.List.Flatten
import Galio.Fs.Ext2
import Galio.Fs.PathLaws

/-! The path that the file system on disk looks up, and the normal form of the path helpers. -/

namespace Galio

open List

variable {name path : CString} {names : List CString}

/-- A single or a double dot. -/
def IsDots (name : CString) : Prop := name = [dot] ∨ name = [dot, dot]

instance (name : CString) : Decidable (IsDots name) := inferInstanceAs (Decidable (_ ∨ _))

/-- The components of a path that starts at the root. -/
def rootComponents (path : CString) : List CString :=
  pathNames (if path.take 2 = [dot, slash] then path.drop 2 else path.drop 1)

/-- The names that no dots directly follow. -/
def keptNames : List CString → List CString
  | [] => []
  | name :: rest => if IsDots name ∨ (∃ next ∈ rest.head?, IsDots next) then keptNames rest else name :: keptNames rest

/-- The last component is dots. -/
def EndsInDots (names : List CString) : Prop := ∃ last ∈ names.getLast?, IsDots last

instance (names : List CString) : Decidable (EndsInDots names) := inferInstanceAs (Decidable (∃ _ ∈ _, _))

/-- The loop of `ext2_canonicalize_path`, and whether a slash stands behind its names. -/
def canonicalRun (state : List CString × Bool) (name : CString) : List CString × Bool :=
  if IsDots name then (if state.2 then state.1 else state.1.dropLast, true) else (state.1 ++ [name], false)

/-- The buffer of that state. -/
def canonicalBuffer (state : List CString × Bool) : CString := slashed state.1 ++ if state.2 then [slash] else []

lemma slashed_append (names others : List CString) : slashed
    (names ++ others) = slashed names ++ slashed others := by
  simp [slashed]

lemma slashed_cons_length (name : CString) (rest : List CString) :
    (slashed (name :: rest)).length = name.length + 1 + (slashed rest).length := by
  simp only [slashed, flatMap_cons, length_append, length_cons]

lemma popComponent_name {front : CString} (plain : slash ∉ name) :
    popComponent (front ++ slash :: name) = front ++ [slash] := by
  have skipped : ∀ byte ∈ name.reverse, decide (byte ≠ slash) = true := by
    intro byte listed
    have : byte ≠ slash := fun same => plain (same ▸ mem_reverse.mp listed)
    simpa using this
  simp only [popComponent, reverse_append, reverse_cons, append_assoc]
  rw [dropWhile_append_of_pos skipped]
  simp

lemma slashed_pathNames_length (path : CString) : (slashed (pathNames path)).length ≤ path.length + 1 := by
  have pieces : (slashed (path.splitOn slash)).length = path.length + 1 := by
    induction path with
    | nil => rfl
    | cons byte rest ih =>
      rw [splitOn, splitOnP_cons_eq_if_modifyHead]
      split
      · simpa [slashed, splitOn] using ih
      cases split : rest.splitOn slash with
      | nil => simp [split, slashed] at ih
      | cons first others =>
        rw [splitOn] at split
        rw [splitOn, split] at ih
        rw [split]
        simp only [slashed, modifyHead_cons, flatMap_cons, length_append, length_cons] at ih ⊢
        omega
  have fewer : ∀ names : List CString, (slashed (names.filter (!·.isEmpty))).length ≤ (slashed names).length := by
    intro names
    induction names with
    | nil => simp
    | cons name rest ih =>
      rw [filter_cons]
      split <;> simp only [slashed, flatMap_cons, length_append] at ih ⊢ <;> omega
  exact (fewer _).trans pieces.le

/-- The step is refused exactly where the buffer would be too long. -/
theorem canonicalStep_run {trailing : Bool} (proper : ProperNames (names ++ [name]))
    (formed : names = [] → trailing) : ext2CanonicalStep (canonicalBuffer (names, trailing)) name =
      if (canonicalBuffer (names, trailing)).length + 1 < ext2PathRoom ∧
        (IsDots name ∨ (slashed names).length + 1 + name.length < ext2PathRoom)
      then some (canonicalBuffer (canonicalRun (names, trailing) name)) else none := by
  unfold ext2CanonicalStep canonicalRun
  by_cases full : (canonicalBuffer (names, trailing)).length + 1 < ext2PathRoom
  swap
  · rw [if_pos (Nat.le_of_not_lt full), if_neg fun both => full both.1]
  rw [if_neg (Nat.not_le_of_lt full)]
  simp only [full, true_and]
  by_cases dots : IsDots name
  · rw [if_pos (show name = [dot] ∨ name = [dot, dot] from dots), if_pos dots, if_pos (.inl dots)]
    cases trailing with
    | true => simp [canonicalBuffer, popComponent]
    | false =>
      cases names using reverseRecOn with
      | nil => exact absurd (formed rfl) (by simp)
      | append_singleton front last =>
        have plain := (proper last (by simp)).2
        simp only [canonicalBuffer, Bool.false_eq_true, if_false, if_true, append_nil, dropLast_concat]
        rw [slashed_append]
        have one : slashed [last] = slash :: last := by simp [slashed]
        rw [one, popComponent_name plain]
  · rw [if_neg (by exact dots), if_neg dots]
    have opened : (if (canonicalBuffer (names, trailing)).getLast? = some slash then canonicalBuffer (names, trailing)
        else canonicalBuffer (names, trailing) ++ [slash]) = slashed names ++ [slash] := by
      cases trailing with
      | true => simp [canonicalBuffer]
      | false =>
        cases names using reverseRecOn with
        | nil => exact absurd (formed rfl) (by simp)
        | append_singleton front last =>
          have wellFormed := proper last (by simp)
          have unslashed : (slashed (front ++ [last])).getLast? ≠ some slash := by
            rw [slashed_append]
            have one : slashed [last] = [slash] ++ last := by simp [slashed]
            rw [one, ← append_assoc, getLast?_append_of_ne_nil _ wellFormed.1]
            exact fun ends => wellFormed.2 (mem_of_getLast? ends)
          simp only [canonicalBuffer, Bool.false_eq_true, if_false, append_nil, if_neg unslashed]
    simp only [opened]
    have limit : ext2PathRoom = 256 := rfl
    by_cases fits : (slashed names).length + 1 + name.length < ext2PathRoom
    · rw [Nat.min_eq_left (by omega), if_neg (by simp; omega), if_pos (.inr fits)]
      simp [canonicalBuffer, slashed]
    · rw [if_pos (by simp; omega), if_neg (not_or.mpr ⟨dots, fits⟩)]

/-- What the loop keeps are names of the path, and its buffer starts with a slash. -/
theorem canonicalRun_proper {rest : List CString} {trailing : Bool} (proper : ProperNames (names ++ name :: rest)) :
    ProperNames ((canonicalRun (names, trailing) name).1 ++ rest) ∧
      ((canonicalRun (names, trailing) name).1 = [] → (canonicalRun (names, trailing) name).2) ∧
      (slashed (canonicalRun (names, trailing) name).1).length ≤ (slashed (names ++ [name])).length := by
  unfold canonicalRun
  split
  · have short : (if trailing then names else names.dropLast).Sublist names := by
      split
      · exact .refl _
      · exact dropLast_sublist _
    refine ⟨fun other listed => proper other ?_, fun _ => rfl, ?_⟩
    · exact (mem_append.mp listed).elim (fun early => by simp [short.subset early]) fun late => by simp [late]
    · exact ((short.trans (sublist_append_left ..)).flatMap _).length_le
  · exact ⟨by simpa using proper, by simp, le_rfl⟩

lemma foldlM_canonicalStep {components : List CString} {trailing : Bool}
    (proper : ProperNames (names ++ components)) (formed : names = [] → trailing)
    (room : (slashed (names ++ components)).length + 1 < ext2PathRoom) :
    (components.foldlM ext2CanonicalStep (canonicalBuffer (names, trailing))).isSome := by
  induction components generalizing names trailing with
  | nil => rfl
  | cons name rest ih =>
    have split : names ++ name :: rest = names ++ [name] ++ rest := by simp
    obtain ⟨kept, start, shorter⟩ := canonicalRun_proper proper
    rw [split] at proper room
    have length : (canonicalBuffer (names, trailing)).length ≤ (slashed names).length + 1 := by
      cases trailing <;> simp [canonicalBuffer]
    have size : (slashed [name]).length = name.length + 1 := by simp [slashed]
    rw [slashed_append] at shorter
    rw [slashed_append, slashed_append] at room
    simp only [length_append] at room shorter
    rw [foldlM_cons, canonicalStep_run (fun other listed => proper other (mem_append_left _ listed)) formed,
      if_pos ⟨by omega, .inr (by omega)⟩]
    generalize canonicalRun (names, trailing) name = next at kept start shorter
    refine ih kept start ?_
    rw [slashed_append, length_append]
    omega

/-- Where the loop succeeds, its buffer holds the names that are kept. -/
theorem foldlM_canonical_some {components : List CString} {trailing : Bool} {buffer : CString}
    (proper : ProperNames (names ++ components)) (formed : names = [] → trailing)
    (made : components.foldlM ext2CanonicalStep (canonicalBuffer (names, trailing)) = some buffer) :
    buffer = canonicalBuffer (components.foldl canonicalRun (names, trailing)) := by
  induction components generalizing names trailing with
  | nil => exact (Option.some.inj made).symm
  | cons name rest ih =>
    obtain ⟨kept, start, -⟩ := canonicalRun_proper proper
    have first : ProperNames (names ++ [name]) := fun other listed => proper other (by
      rw [append_cons]
      exact mem_append_left _ listed)
    rw [foldlM_cons, canonicalStep_run first formed] at made
    split at made
    · exact ih kept start made
    · simp at made

lemma keptNames_subset (listed : name ∈ keptNames names) : name ∈ names := by
  induction names with
  | nil => exact listed
  | cons first rest ih =>
    rw [keptNames] at listed
    split at listed
    · exact .tail _ (ih listed)
    · rcases mem_cons.mp listed with rfl | listed
      · exact .head _
      · exact .tail _ (ih listed)

lemma keptNames_ne_nil (nonempty : names ≠ []) (named : ¬EndsInDots names) : keptNames names ≠ [] := by
  induction names with
  | nil => exact absurd rfl nonempty
  | cons name rest ih =>
    rw [keptNames]
    split
    · cases rest with
      | nil => simp_all [EndsInDots]
      | cons next rest => exact ih (by simp) (by simpa [EndsInDots, getLast?_cons_cons] using named)
    · simp

/-- Dots take the last name away if no dots stand before them. -/
theorem keptNames_concat (names : List CString) (last : CString) : keptNames (names ++ [last]) =
      if IsDots last then (if names = [] ∨ EndsInDots names then keptNames names else (keptNames names).dropLast)
      else keptNames names ++ [last] := by
  induction names with
  | nil =>
    by_cases dots : IsDots last <;> simp [keptNames]
  | cons name rest ih =>
    cases rest with
    | nil =>
      by_cases dots : IsDots last <;> by_cases first : IsDots name <;> simp [keptNames, EndsInDots, dots, first]
    | cons next rest =>
      have ends : EndsInDots (name :: next :: rest) ↔ EndsInDots (next :: rest) := by
        simp [EndsInDots]
      have unfolded : ∀ tail, keptNames (name :: next :: tail) =
          if IsDots name ∨ IsDots next then keptNames (next :: tail) else name :: keptNames (next :: tail) := by
        intro tail
        simp [keptNames]
      rw [cons_append, cons_append, unfolded, ← cons_append, ih, unfolded]
      by_cases skipped : IsDots name ∨ IsDots next
      · simp [skipped, ends]
      rw [if_neg skipped, if_neg skipped]
      by_cases dots : IsDots last
      · by_cases trailing : EndsInDots (next :: rest)
        · simp [dots, ends, trailing]
        · have some := keptNames_ne_nil (by simp) trailing
          simp [dots, ends, trailing, dropLast_cons_of_ne_nil some]
      · simp [dots]

lemma foldl_canonicalRun (names : List CString) :
    names.foldl canonicalRun ([], true) = (keptNames names, decide (names = [] ∨ EndsInDots names)) := by
  induction names using reverseRecOn with
  | nil => rfl
  | append_singleton front last ih =>
    have ends : EndsInDots (front ++ [last]) ↔ IsDots last := by simp [EndsInDots]
    rw [foldl_append, ih, keptNames_concat]
    by_cases dots : IsDots last
    · simp [canonicalRun, dots, ends]
    · simp [canonicalRun, dots, ends]

/-- A path that starts at the root. -/
def FromRoot (path : CString) : Prop := path.take 1 = [slash] ∨ path.take 2 = [dot, slash]

instance (path : CString) : Decidable (FromRoot path) := inferInstanceAs (Decidable (_ ∨ _))

/-- A path from the root within the limits of both functions. -/
structure ModestPath (path : CString) : Prop where
  /-- The path starts with a slash, or a dot and a slash. -/
  fromRoot : FromRoot path
  /-- Every component fits its row. -/
  short : ∀ name ∈ rootComponents path, name.length ≤ 255
  /-- Every component has a row. -/
  few : (rootComponents path).length ≤ 64
  /-- The path fits the buffer. -/
  small : path.length < 250

lemma FromRoot.length (fromRoot : FromRoot path) : (slashed (rootComponents path)).length ≤ path.length := by
  have nonempty : path ≠ [] := by
    rintro rfl
    simp [FromRoot] at fromRoot
  have positive := length_pos_iff.mpr nonempty
  unfold rootComponents
  split
  · have fewer := slashed_pathNames_length (path.drop 2)
    rw [length_drop] at fewer
    omega
  · have fewer := slashed_pathNames_length (path.drop 1)
    rw [length_drop] at fewer
    omega

/-- The loop goes over the components of a path that starts at the root. -/
theorem ext2CanonicalizePath_eq (path : CString) : ext2CanonicalizePath path = if path = [dot] ∨ FromRoot path then
    (rootComponents path).foldlM ext2CanonicalStep (canonicalBuffer ([], true)) else none := by
  have start : canonicalBuffer ([], true) = [slash] := rfl
  unfold ext2CanonicalizePath FromRoot rootComponents
  rw [start]
  by_cases root : path = [dot]
  · subst root
    rfl
  by_cases dotted : path.take 2 = [dot, slash]
  · simp [root, dotted]
  · simp [root, dotted]

/-- What the driver looks up are the names that are kept. -/
theorem ext2CanonicalizePath_some {canonical : CString} (made : ext2CanonicalizePath path = some canonical) :
    canonical = canonicalBuffer (keptNames (rootComponents path),
      decide (rootComponents path = [] ∨ EndsInDots (rootComponents path))) := by
  rw [ext2CanonicalizePath_eq] at made
  split at made
  · rw [← foldl_canonicalRun]
    exact foldlM_canonical_some (pathNames_proper _) (fun _ => rfl) made
  · simp at made

lemma ext2CanonicalizePath_modest (modest : ModestPath path) :
    ext2CanonicalizePath path = some (canonicalBuffer (keptNames (rootComponents path),
      decide (rootComponents path = [] ∨ EndsInDots (rootComponents path)))) := by
  have room : (slashed ([] ++ rootComponents path)).length + 1 < ext2PathRoom := by
    have limit : ext2PathRoom = 256 := rfl
    have small := modest.small
    have size := modest.fromRoot.length
    rw [nil_append]
    omega
  have fits : (ext2CanonicalizePath path).isSome := by
    rw [ext2CanonicalizePath_eq, if_pos (.inr modest.fromRoot)]
    exact foldlM_canonicalStep (pathNames_proper _) (fun _ => rfl) room
  obtain ⟨canonical, made⟩ := Option.isSome_iff_exists.mp fits
  rw [made, ext2CanonicalizePath_some made]

lemma lexicalNames_sublist (absolute : Bool) (names : List CString) :
    (lexicalNames absolute names).Sublist names := by
  have step : ∀ kept name, (lexicalStep absolute kept name).Sublist (name :: kept) := by
    intro kept name
    unfold lexicalStep
    split
    · exact sublist_cons_self _ _
    split
    · split
      · split
        · exact nil_sublist _
        · exact .refl _
      · split
        · exact (sublist_cons_self _ _).trans (sublist_cons_self _ _)
        · split
          · exact sublist_cons_self _ _
          · exact .refl _
    · exact .refl _
  have general : ∀ (names kept : List CString),
      (names.foldl (lexicalStep absolute) kept).Sublist (names.reverse ++ kept) := by
    intro names
    induction names with
    | nil => exact fun kept => .refl _
    | cons name rest ih =>
      intro kept
      apply (ih _).trans
      rw [reverse_cons, append_assoc]
      exact (step kept name).append_left _
  have all := (general names []).reverse
  rwa [append_nil, reverse_reverse] at all

lemma fitting_all {outSize : Nat} {rows : List CString} (room : (slashed rows).length + 1 < outSize) :
    fitting outSize 1 0 rows = rows := by
  have behind : ∀ (rows : List CString) (position : Nat), position + (slashed rows).length < outSize →
      fitting outSize position 1 rows = rows := by
    intro rows
    induction rows with
    | nil => exact fun position _ => rfl
    | cons row rest ih =>
      intro position room
      rw [slashed_cons_length] at room
      rw [fitting, if_neg (by omega), ih _ (by omega)]
  cases rows with
  | nil => rfl
  | cons row rest =>
    rw [slashed_cons_length] at room
    rw [fitting, if_neg (by omega), behind _ _ (by omega)]

lemma pathPieces_short (short : ∀ name ∈ pathNames path, name.length ≤ 255) : pathPieces path = pathNames path := by
  have whole : ∀ name ∈ pathNames path, cutName name.length name = [name] := by
    intro name listed
    have nonempty := (pathNames_proper path name listed).1
    have fits := short name listed
    cases name with
    | nil => exact absurd rfl nonempty
    | cons byte rest =>
      rw [length_cons, cutName, take_of_length_le (by simpa [pathComponentLen] using fits),
        drop_of_length_le (by simpa [pathComponentLen] using fits)]
      cases rest.length <;> simp [cutName]
  rw [pathPieces, flatMap_congr whole]
  simp

lemma normalPieces_modest (modest : ModestPath path) :
    pathIsAbsolute path ∧ pathPieces (pathScratch path) = rootComponents path := by
  have after : ∀ rest : CString, pathNames (slash :: rest) = pathNames rest := fun rest => by
    simpa [pathNames] using pathNames_append [] rest
  have read : pathNames (pathScratch path) = rootComponents path := by
    have small := modest.small
    unfold pathScratch rootComponents
    split
    · rw [take_of_length_le (by rw [length_drop]; simp only [pathScratchLen, pathComponentLen]; omega), after]
    rename_i undotted
    have slashed := modest.fromRoot.resolve_right undotted
    cases path with
    | nil => simp at slashed
    | cons byte rest =>
      obtain rfl : byte = slash := by simpa using slashed
      exact after rest
  constructor
  · rcases modest.fromRoot with slashed | dotted
    · simp [pathIsAbsolute, slashed]
    · simp [pathIsAbsolute, dotted]
  · rw [pathPieces_short (read ▸ modest.short), read]

lemma pathNormalize_modest {outSize : Nat} (modest : ModestPath path) (room : path.length + 1 < outSize) :
    pathNormalize path outSize = .text (dot :: slashed (lexicalNames true (rootComponents path))) := by
  obtain ⟨absolute, pieces⟩ := normalPieces_modest modest
  have nonempty : path ≠ [] := by
    rintro rfl
    simp [pathIsAbsolute] at absolute
  have kept := lexicalNames_sublist true (rootComponents path)
  have size : (slashed (lexicalNames true (rootComponents path))).length ≤ path.length :=
    ((kept.flatMap _).length_le).trans modest.fromRoot.length
  have shallow : Shallow true (pathPieces (pathScratch path)) := by
    intro k inside
    have fewer := (lexicalNames_sublist true ((pathPieces (pathScratch path)).take k)).length_le
    rw [pieces] at inside fewer ⊢
    rw [length_take] at fewer
    have few := modest.few
    have limit : pathMaxComponents = 64 := rfl
    omega
  have proper : ProperNames (lexicalNames true (rootComponents path)) := lexicalNames_proper (pathNames_proper _)
  rw [pathNormalize, if_neg (by omega), if_neg nonempty, if_pos absolute, normalizeComponents_shallow shallow, pieces]
  simp only [if_true]
  rw [joinRows_absolute proper, fitting_all (by omega)]
  cases names : lexicalNames true (rootComponents path) with
  | nil => rfl
  | cons name rest =>
    rw [names] at size proper
    have starts : slashed (name :: rest) = slash :: (name ++ slashed rest) := by simp [slashed]
    have longer : slashed (name :: rest) ≠ [slash] := by simp [starts, (proper name (.head _)).1]
    have started : slashed (name :: rest) ≠ [] := by simp [starts]
    simp only [cons_ne_nil, if_false, if_neg started, dotPath]
    rw [if_pos (by simp [starts]), if_neg longer, if_pos (by omega)]
    rfl

/-- The text of a normal form from the root. -/
def rootText (names : List CString) : CString := if names = [] then [slash] else slashed names

lemma pathNames_rootText (proper : ProperNames names) : pathNames (rootText names) = names := by
  unfold rootText
  split
  · rename_i none
    rw [none]
    rfl
  · exact pathNames_slashed proper

lemma pathNames_canonicalBuffer (proper : ProperNames names) (trailing : Bool) :
    pathNames (canonicalBuffer (names, trailing)) = names := by
  rw [canonicalBuffer]
  split
  · rw [pathNames_final, pathNames_slashed proper]
  · rw [append_nil, pathNames_slashed proper]

/-- The buffer holds the names of the normal form, with no slash behind them. -/
theorem canonicalBuffer_rootText (proper : ProperNames names) :
    canonicalBuffer (keptNames names, decide (names = [] ∨ EndsInDots names)) = rootText (lexicalNames true names) ↔
      keptNames names = lexicalNames true names ∧ (EndsInDots names → lexicalNames true names = []) := by
  have keptProper : ProperNames (keptNames names) := fun name listed => proper name (keptNames_subset listed)
  constructor
  · intro same
    have kept : keptNames names = lexicalNames true names := by
      rw [← pathNames_rootText (lexicalNames_proper proper), ← same, pathNames_canonicalBuffer keptProper]
    refine ⟨kept, fun dots => ?_⟩
    by_contra some
    have length := congrArg length same
    simp [canonicalBuffer, rootText, dots, kept, some] at length
  · rintro ⟨kept, root⟩
    rw [kept]
    by_cases trailing : names = [] ∨ EndsInDots names
    · have none : lexicalNames true names = [] := by
        rcases trailing with rfl | dots
        · rfl
        · exact root dots
      simp [canonicalBuffer, rootText, trailing, none, slashed]
    · have some := keptNames_ne_nil (fun none => trailing (.inl none)) fun dots => trailing (.inr dots)
      rw [kept] at some
      simp [canonicalBuffer, rootText, trailing, some]

/--
The file system on disk looks up the normal form of a path.

The normal form has the components that the path helpers write behind their dot.
-/
def CanonicalAgrees (path : CString) (outSize : Nat) : Prop :=
  ∃ canonical out, ext2CanonicalizePath path = some canonical ∧
    canonical = rootText (lexicalNames true (rootComponents path)) ∧
    pathNormalize path outSize = .text out ∧ pathNames canonical = pathNames (out.drop 1)

/--
Both normal forms of a path agree exactly where no dots cost a name too many or too few.

The names that no dots directly follow are those of the normal form, and dots stand last only in a path to the root.
-/
theorem canonicalAgrees_iff {path : CString} {outSize : Nat} (modest : ModestPath path)
    (room : path.length + 1 < outSize) :
    CanonicalAgrees path outSize ↔
      keptNames (rootComponents path) = lexicalNames true (rootComponents path) ∧
        (EndsInDots (rootComponents path) → lexicalNames true (rootComponents path) = []) := by
  have components : ProperNames (rootComponents path) := pathNames_proper _
  have proper : ProperNames (lexicalNames true (rootComponents path)) := lexicalNames_proper components
  have helper : pathNames (rootText (lexicalNames true (rootComponents path))) =
      pathNames ((dot :: slashed (lexicalNames true (rootComponents path))).drop 1) := by
    rw [pathNames_rootText proper, drop_one, tail_cons, pathNames_slashed proper]
  constructor
  · rintro ⟨canonical, out, found, normal, -⟩
    rw [ext2CanonicalizePath_modest modest, normal] at found
    exact (canonicalBuffer_rootText components).mp (Option.some.inj found)
  · intro condition
    refine ⟨_, _, ?_, rfl, pathNormalize_modest modest room, helper⟩
    rw [ext2CanonicalizePath_modest modest, (canonicalBuffer_rootText components).mpr condition]

/-- In `/a/..//b` the two dots remove the name before them, and both functions name `/b`. -/
theorem canonicalAgrees_below_root :
    ModestPath [slash, 97, slash, dot, dot, slash, slash, 98] ∧
      CanonicalAgrees [slash, 97, slash, dot, dot, slash, slash, 98] 256 := by
  have modest : ModestPath [slash, 97, slash, dot, dot, slash, slash, 98] :=
    ⟨.inl rfl, by decide +kernel, by decide +kernel, by decide⟩
  exact ⟨modest, (canonicalAgrees_iff modest (by decide)).mpr (by decide +kernel)⟩

/-- In `/a/./b` the single dot removes the name before it, and `/b` is looked up. -/
theorem dot_removes_name :
    ModestPath [slash, 97, slash, dot, slash, 98] ∧ ¬CanonicalAgrees [slash, 97, slash, dot, slash, 98] 256 := by
  refine ⟨⟨.inl rfl, by decide +kernel, by decide +kernel, by decide⟩, ?_⟩
  rintro ⟨canonical, out, found, normal, -⟩
  have other : ext2CanonicalizePath [slash, 97, slash, dot, slash, 98] ≠
      some (rootText (lexicalNames true (rootComponents [slash, 97, slash, dot, slash, 98]))) := by decide +kernel
  exact other (normal ▸ found)

end Galio
