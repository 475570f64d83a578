import Mathlib.Data.List.Basic
import Galio.Fs.Vfs

/-! Paths: what normalising, splitting and cutting them into components has in common. -/

namespace Galio

open List Option

variable {byte : UInt8} {rest path : CString}

/-- No two slashes stand next to each other. -/
def NoDouble : CString → Prop
  | [] => True
  | [_] => True
  | byte :: next :: rest => ¬(byte = slash ∧ next = slash) ∧ NoDouble (next :: rest)

/-- A path as `vfs_normalize` leaves it. -/
structure NormalPath (path : CString) : Prop where
  nonempty : path ≠ []
  start : path.head? ≠ some slash
  single : NoDouble path
  stop : path.getLast? ≠ some slash
  short : path.length ≤ vfsPathRoom

lemma NoDouble.tail (single : NoDouble (byte :: rest)) : NoDouble rest := by
  cases rest with
  | nil => trivial
  | cons next rest => exact single.2

lemma NoDouble.cons (single : NoDouble rest)
    (apart : byte = slash → rest.head? ≠ some slash) : NoDouble (byte :: rest) := by
  cases rest with
  | nil => trivial
  | cons next rest => exact ⟨fun both => apart both.1 (by rw [both.2]; rfl), single⟩

lemma NoDouble.take (single : NoDouble path) (count : Nat) : NoDouble (path.take count) := by
  induction path generalizing count with
  | nil => simpa using single
  | cons byte rest ih =>
    cases count with
    | zero => trivial
    | succ count =>
      refine NoDouble.cons (ih single.tail count) fun slashed => ?_
      cases rest with
      | nil => simp
      | cons next rest =>
        cases count with
        | zero => simp
        | succ count =>
          intro follows
          exact single.1 ⟨slashed, some.inj follows⟩

lemma copyPath_spec (path : CString) : ∀ (before : Option UInt8) (room : Nat),
    NoDouble (copyPath before path room) ∧ (copyPath before path room).length ≤ room ∧
      (before = some slash → (copyPath before path room).head? ≠ some slash) := by
  induction path with
  | nil =>
    intro before room
    exact ⟨trivial, Nat.zero_le _, fun _ => by simp [copyPath]⟩
  | cons byte rest ih =>
    intro before room
    cases room with
    | zero => exact ⟨trivial, Nat.le_refl _, fun _ => by simp [copyPath]⟩
    | succ room =>
      rw [copyPath]
      split
      · rename_i double
        obtain ⟨single, short, start⟩ := ih (some byte) (room + 1)
        exact ⟨single, short, fun _ => start (by rw [double.1])⟩
      · rename_i kept
        obtain ⟨single, short, start⟩ := ih (some byte) room
        refine ⟨single.cons fun slashed => start (by rw [slashed]), Nat.succ_le_succ short, fun after => ?_⟩
        intro first
        exact kept ⟨some.inj first, after⟩

lemma copyPath_self : ∀ {before : Option UInt8} {room : Nat}, NoDouble path →
    path.length ≤ room → (before = some slash → path.head? ≠ some slash) → copyPath before path room = path := by
  induction path with
  | nil => intros; rfl
  | cons byte rest ih =>
    intro before room single fits start
    cases room with
    | zero => simp at fits
    | succ room =>
      rw [copyPath, if_neg]
      · rw [ih single.tail (Nat.le_of_succ_le_succ fits)]
        rintro slashed follows
        cases rest with
        | nil => simp at follows
        | cons next rest => exact single.1 ⟨some.inj slashed, some.inj follows⟩
      · rintro ⟨here, after⟩
        exact start after (by rw [here]; rfl)

lemma NoDouble.last {init : CString} (single : NoDouble (init ++ [byte]))
    (slashed : init.getLast? = some slash) : byte ≠ slash := by
  induction init with
  | nil => simp at slashed
  | cons first rest ih =>
    cases rest with
    | nil =>
      rintro rfl
      exact single.1 ⟨by simpa using slashed, rfl⟩
    | cons second rest => exact ih single.tail (by simpa using slashed)

lemma trimSlash_normal {buffer : CString} (nonempty : buffer ≠ []) (start : buffer.head? ≠ some slash)
    (single : NoDouble buffer) (short : buffer.length ≤ vfsPathRoom) : NormalPath (trimSlash buffer) := by
  unfold trimSlash
  split
  · rename_i final
    obtain ⟨init, last, rfl⟩ := eq_nil_or_concat' buffer |>.resolve_left nonempty
    simp only [getLast?_append, getLast?_singleton,
      some_or, some.injEq] at final
    rw [dropLast_concat]
    have some : init ≠ [] := by
      rintro rfl
      simp at final
    refine ⟨some, ?_, ?_, ?_, ?_⟩
    · rwa [head?_append_of_ne_nil _ some] at start
    · simpa using single.take init.length
    · exact fun slashed => single.last slashed final.2
    · simp only [length_append] at short
      omega
  · rename_i kept
    refine ⟨nonempty, start, single, fun slashed => kept ⟨?_, slashed⟩, short⟩
    -- A single slash would be the first byte.
    match buffer, nonempty with
    | [byte], _ => exact absurd slashed start
    | _ :: _ :: _, _ => simp

lemma vfsNormalize_normal (path : CString) : NormalPath (vfsNormalize path) := by
  have dotted : NormalPath [dot] := ⟨by simp, by decide, trivial, by decide, by decide⟩
  have below : ∀ rest : CString, NormalPath (trimSlash (dot :: slash ::
    copyPath (some slash) rest (vfsPathRoom - 2))) := by
    intro rest
    obtain ⟨single, short, start⟩ := copyPath_spec rest (some slash) (vfsPathRoom - 2)
    refine trimSlash_normal (by simp) (show some dot ≠ some slash by decide) ?_ ?_
    · exact (single.cons fun _ => start rfl).cons fun same => absurd same (by decide)
    · simp only [length_cons]
      have : vfsPathRoom = 511 := rfl
      omega
  unfold vfsNormalize
  dsimp only
  split
  · exact dotted
  · exact below _
  · rename_i other
    split
    · exact dotted
    rename_i nonempty
    obtain ⟨single, short, _⟩ := copyPath_spec path none vfsPathRoom
    refine trimSlash_normal nonempty ?_ single short
    cases path with
    | nil => simp [copyPath] at nonempty
    | cons first rest =>
      -- A path that starts with a slash is not copied from its first byte.
      have first_ : first ≠ slash := by
        rintro rfl
        simp at other
      rw [show vfsPathRoom = 510 + 1 from rfl, copyPath, if_neg (fun both => first_ both.1)]
      exact fun slashed => first_ (some.inj slashed)

lemma trimSlash_self (stop : path.getLast? ≠ some slash) : trimSlash path = path :=
  if_neg fun final => stop final.2

lemma NormalPath.normalize (normal : NormalPath path) : vfsNormalize path = path := by
  obtain ⟨nonempty, start, single, stop, short⟩ := normal
  match path, nonempty with
  | first :: rest, _ =>
    have first_ : first ≠ slash := fun same => start (by rw [same]; rfl)
    have copied : copyPath none (first :: rest) vfsPathRoom = first :: rest :=
      copyPath_self single short (by simp)
    unfold vfsNormalize
    dsimp only
    rw [if_neg first_]
    by_cases dotted : first = dot
    · rw [if_pos dotted]
      match rest with
      | [] => rw [dotted]
      | second :: rest =>
        dsimp only
        by_cases slashed : second = slash
        · rw [if_pos slashed]
          dsimp only
          subst slashed dotted
          have after : rest.head? ≠ some slash := by
            cases rest with
            | nil => simp
            | cons next rest => exact fun same => single.2.1 ⟨rfl, some.inj same⟩
          have left : rest.length ≤ 508 + 1 := by
            simp only [length_cons, vfsPathRoom] at short
            omega
          rw [show vfsPathRoom - 2 = 508 + 1 from rfl, copyPath,
            copyPath_self single.tail.tail left fun _ => after]
          exact trimSlash_self stop
        · rw [if_neg slashed]
          rw [copied]
          exact trimSlash_self stop
    · rw [if_neg dotted]
      rw [copied]
      exact trimSlash_self stop

lemma pathComponents_single (nonempty : path ≠ []) (plain : slash ∉ path) : pathComponents path = [path] := by
  induction path with
  | nil => exact absurd rfl nonempty
  | cons byte rest ih =>
    have here : byte ≠ slash := fun same => plain (same ▸ mem_cons_self)
    cases rest with
    | nil => rw [pathComponents, if_neg here]
    | cons next rest =>
      have later : slash ∉ next :: rest := fun mem => plain (mem_cons_of_mem _ mem)
      have there : next ≠ slash := fun same => later (same ▸ mem_cons_self)
      rw [pathComponents, if_neg here, if_neg there, ih (by simp) later]

lemma pathComponents_ne_nil (nonempty : path ≠ []) : pathComponents path ≠ [] := by
  match path with
  | [] => exact absurd rfl nonempty
  | [byte] =>
    rw [pathComponents]
    split <;> simp
  | byte :: next :: rest =>
    rw [pathComponents]
    split
    · simp
    split
    · simp
    split <;> simp

lemma pathComponents_append (nonempty : path ≠ []) (stop : path.getLast? ≠ some slash) :
    pathComponents (path ++ slash :: rest) = pathComponents path ++ pathComponents rest := by
  -- The recursion of the components is followed, which passes two bytes where a slash comes second.
  induction path using pathComponents.induct with
  | case1 => exact absurd rfl nonempty
  | case2 => exact absurd rfl stop
  | case3 byte different => simp [pathComponents, different]
  | case4 next rest ih =>
    rw [cons_append, cons_append, pathComponents, if_pos rfl, pathComponents, if_pos rfl,
      ← cons_append, ih (by simp) (by simpa using stop), cons_append]
  | case5 byte tail different ih =>
    have some : tail ≠ [] := by
      rintro rfl
      exact stop rfl
    rw [cons_append, cons_append, pathComponents, if_neg different, if_pos rfl, pathComponents,
      if_neg different, if_pos rfl, ih some ?_, cons_append]
    rwa [getLast?_cons_cons, getLast?_cons_of_ne_nil some] at stop
  | case6 byte next tail _ _ none _ => exact absurd none (pathComponents_ne_nil (by simp))
  | case7 byte next tail different apart component others found ih =>
    have later := ih (by simp) (by simpa using stop)
    rw [cons_append] at later
    simp only [cons_append, pathComponents, different, apart, ite_false, later, found]

lemma find?_reverse_range {count : Nat} {test : Nat → Bool} :
    ∀ {found : Option Nat}, (range count).reverse.find? test = found → match found with
      | some i => i < count ∧ test i ∧ ∀ j, i < j → j < count → ¬test j | none => ∀ j < count, ¬test j := by
  induction count with
  | zero =>
    rintro found rfl
    simp
  | succ count ih =>
    intro found search
    rw [range_succ, reverse_append, reverse_singleton, singleton_append, find?_cons] at search
    cases hit : test count with
    | true =>
      rw [hit] at search
      subst search
      exact ⟨Nat.lt_succ_self _, hit, fun j above below => by omega⟩
    | false =>
      rw [hit] at search
      have earlier := ih search
      have last : ∀ j < count + 1, ¬j < count → ¬test j := by
        intro j below above
        obtain rfl : j = count := by omega
        simp [hit]
      match found with
      | some i =>
        refine ⟨Nat.lt_succ_of_lt earlier.1, earlier.2.1, fun j above below => ?_⟩
        by_cases inside : j < count
        · exact earlier.2.2 j above inside
        · exact last j below inside
      | none =>
        intro j below
        by_cases inside : j < count
        · exact earlier j inside
        · exact last j below inside

lemma lastSlash_some {at_ : Nat} (found : lastSlash path = some at_) :
    path = path.take at_ ++ slash :: path.drop (at_ + 1) ∧ slash ∉ path.drop (at_ + 1) := by
  obtain ⟨inside, here, later⟩ := find?_reverse_range found
  have byte : path[at_] = slash := by simpa [inside] using here
  constructor
  · rw [← byte, getElem_cons_drop, take_append_drop]
  · intro mem
    obtain ⟨k, bound, same⟩ := getElem_of_mem mem
    rw [length_drop] at bound
    have there : at_ + 1 + k < path.length := by omega
    refine later (at_ + 1 + k) (by omega) there ?_
    simpa [there] using same

lemma lastSlash_none (found : lastSlash path = none) : slash ∉ path := by
  intro mem
  obtain ⟨k, bound, same⟩ := getElem_of_mem mem
  refine find?_reverse_range found k bound ?_
  simpa [bound] using same

lemma NormalPath.before (normal : NormalPath (path ++ slash :: rest)) (nonempty : path ≠ []) : NormalPath path where
  nonempty := nonempty
  start := by
    have start := normal.start
    rwa [head?_append_of_ne_nil _ nonempty] at start
  single := by simpa using normal.single.take path.length
  stop := by
    intro slashed
    have single := normal.single.take (path.length + 1)
    rw [take_length_add_append] at single
    exact single.last slashed rfl
  short := by
    have short := normal.short
    simp only [length_append] at short
    omega

lemma normalComponents_append (normal : NormalPath path) (below : path ≠ [dot]) :
    normalComponents (path ++ slash :: rest) = normalComponents path ++ pathComponents rest := by
  have append : pathComponents (path ++ slash :: rest) = pathComponents path ++ pathComponents rest :=
    pathComponents_append normal.nonempty normal.stop
  match path, normal.nonempty with
  | [byte], _ =>
    have dotted : byte ≠ dot := fun same => below (by rw [same])
    have slashed : byte ≠ slash := fun same => normal.start (by rw [same]; rfl)
    simp [normalComponents, dotted, slashed, pathComponents]
  | first :: second :: tail, _ =>
    have slashed : first ≠ slash := fun same => normal.start (by rw [same]; rfl)
    simp only [cons_append, normalComponents] at append ⊢
    split
    · rename_i rooted
      obtain ⟨rfl, rfl⟩ := rooted
      have some : tail ≠ [] := by
        rintro rfl
        exact normal.stop rfl
      refine pathComponents_append some ?_
      have stop := normal.stop
      rwa [getLast?_cons_cons, getLast?_cons_of_ne_nil some] at stop
    · exact append

lemma normalComponents_single (normal : NormalPath path) (below : path ≠ [dot])
    (plain : slash ∉ path) : normalComponents path = [path] := by
  match path, normal.nonempty with
  | [byte], _ =>
    have dotted : byte ≠ dot := fun same => below (by rw [same])
    have slashed : byte ≠ slash := fun same => plain (same ▸ mem_cons_self)
    simp [normalComponents, dotted, slashed]
  | first :: second :: tail, _ =>
    have slashed : first ≠ slash := fun same => plain (same ▸ mem_cons_self)
    have later : second ≠ slash := fun same => plain (by simp [same])
    simp only [normalComponents, slashed, later, and_false]
    exact pathComponents_single (by simp) plain

/-- A path that is not the root leads to an entry of the directory its start leads to. -/
theorem lookupComponents_split (below : vfsNormalize path ≠ [dot]) :
    ∃ name, lookupComponents path = lookupComponents (vfsSplitParent path).1 ++ [name] ∧
      (vfsSplitParent path).2 = name.take vfsNameRoom := by
  have normal := vfsNormalize_normal path
  have root : normalComponents (vfsNormalize [dot]) = [] := by decide
  unfold lookupComponents vfsSplitParent
  generalize vfsNormalize path = normalized at below normal ⊢
  rw [if_neg below]
  rcases found : lastSlash normalized with _ | at_
  · exact ⟨normalized, by rw [normalComponents_single normal below (lastSlash_none found)]; rfl, rfl⟩
  obtain ⟨cut, plain⟩ := lastSlash_some found
  have some : normalized.drop (at_ + 1) ≠ [] := by
    intro none
    rw [none] at cut
    exact normal.stop (by rw [cut]; simp)
  have single := pathComponents_single some plain
  match at_ with
  | 0 => exact absurd (by rw [cut]; rfl) normal.start
  | at_ + 1 =>
    dsimp only
    rw [if_neg (Nat.succ_ne_zero at_)]
    have start : normalized.take (at_ + 1) ≠ [] := by
      intro none
      rw [none] at cut
      exact normal.start (by rw [cut]; rfl)
    split
    · -- The entry stands in the root.
      rename_i rooted
      obtain rfl : at_ = 0 := by omega
      refine ⟨normalized.drop 2, ?_, rfl⟩
      obtain ⟨tail, first⟩ := head?_eq_some_iff.mp rooted.2
      subst first
      rw [root]
      have second : tail.head? = Option.some slash := by
        simp only [take_succ_cons, cons_append, cons.injEq] at cut
        rw [cut.2]
        rfl
      obtain ⟨tail, rfl⟩ := head?_eq_some_iff.mp second
      simpa [normalComponents] using single
    · rename_i other
      refine ⟨normalized.drop (at_ + 1 + 1), ?_, rfl⟩
      have before : NormalPath (normalized.take (at_ + 1)) := NormalPath.before (cut ▸ normal) start
      rw [before.normalize]
      have apart : normalized.take (at_ + 1) ≠ [dot] := by
        intro dotted
        have length := congrArg length dotted
        have whole := congrArg List.length cut
        simp only [length_take, length_nil, length_append, length_cons] at length whole
        refine other ⟨by omega, ?_⟩
        rw [cut, dotted]
        rfl
      conv_lhs => rw [cut]
      rw [normalComponents_append before apart, single]

lemma vfsSplitParent_length (path : CString) : (vfsSplitParent path).2.length ≤ vfsNameRoom := by
  unfold vfsSplitParent
  dsimp only
  split
  · exact Nat.zero_le _
  split
  · exact length_take_le _ _
  split
  · exact length_take_le _ _
  split <;> exact length_take_le _ _

/-- The names between the slashes of a path. -/
def pathNames (path : CString) : List CString := (path.splitOn slash).filter (!·.isEmpty)

/-- A final slash dropped. -/
def dropSlash (path : CString) : CString := if path.getLast? = some slash then path.dropLast else path

lemma dropSlash_append (nonempty : path ≠ []) (before : CString) :
    dropSlash (before ++ path) = before ++ dropSlash path := by
  unfold dropSlash
  rw [getLast?_append_of_ne_nil _ nonempty]
  split
  · rw [dropLast_append_of_ne_nil nonempty]
  · rfl

/-- The components of what is copied after a slash, or after the start of one, are the names of the path. -/
theorem pathComponents_copyPath (path : CString) :
    (∀ room, path.length ≤ room → pathComponents (dropSlash (copyPath (some slash) path room)) = pathNames path) ∧
      ∀ room start byte, path.length ≤ room → slash ∉ start → start ≠ [] → byte ≠ slash →
        ∃ first others, path.splitOn slash = first :: others ∧
          pathComponents (dropSlash (start ++ copyPath (some byte) path room)) =
            (start ++ first) :: others.filter (!·.isEmpty) := by
  induction path with
  | nil =>
    refine ⟨fun _ _ => rfl, fun room start byte _ plain nonempty _ => ⟨[], [], rfl, ?_⟩⟩
    have unslashed : start.getLast? ≠ some slash := fun last => plain (mem_of_getLast? last)
    rw [copyPath, append_nil, dropSlash, if_neg unslashed, pathComponents_single nonempty plain]
    rfl
  | cons byte rest ih =>
    obtain ⟨after, within⟩ := ih
    by_cases slashed : byte = slash
    · subst slashed
      have split : (slash :: rest).splitOn slash = [] :: rest.splitOn slash := by
        simp [splitOn, splitOnP_cons_eq_if_modifyHead]
      constructor
      · intro room short
        cases room with
        | zero => simp at short
        | succ room => exact after _ (Nat.le_of_succ_le short)
      · intro room start last short plain nonempty other
        cases room with
        | zero => simp at short
        | succ room =>
          have later := after room (Nat.le_of_succ_le_succ short)
          refine ⟨[], rest.splitOn slash, split, ?_⟩
          rw [copyPath, if_neg fun both => other (some.inj both.2), append_nil]
          show _ = start :: pathNames rest
          by_cases empty : copyPath (some slash) rest room = []
          · rw [empty] at later ⊢
            have dropped : dropSlash (start ++ [slash]) = start := by simp [dropSlash]
            rw [dropped, pathComponents_single nonempty plain, ← later]
            rfl
          · have unslashed : start.getLast? ≠ some slash := fun last => plain (mem_of_getLast? last)
            have joined : start ++ slash :: copyPath (some slash) rest room =
                (start ++ [slash]) ++ copyPath (some slash) rest room := by simp
            rw [joined, dropSlash_append empty, append_assoc, singleton_append,
              pathComponents_append nonempty unslashed, later, pathComponents_single nonempty plain]
            rfl
    · have split : ∀ {first others}, rest.splitOn slash = first :: others →
          (byte :: rest).splitOn slash = (byte :: first) :: others := by
        intro first others found
        rw [splitOn, splitOnP_cons_eq_if_modifyHead, if_neg (by simpa using slashed)]
        rw [splitOn] at found
        rw [found]
        rfl
      have copied : ∀ before room, copyPath before (byte :: rest) (room + 1) = byte :: copyPath (some byte) rest room :=
        fun before room => by rw [copyPath, if_neg fun both => slashed both.1]
      constructor
      · intro room short
        cases room with
        | zero => simp at short
        | succ room =>
          obtain ⟨first, others, found, components⟩ := within room [byte] byte (Nat.le_of_succ_le_succ short)
            (by simpa using Ne.symm slashed) (by simp) slashed
          rw [copied, ← singleton_append, components, pathNames, split found]
          simp
      · intro room start last short plain _ _
        cases room with
        | zero => simp at short
        | succ room =>
          obtain ⟨first, others, found, components⟩ := within room (start ++ [byte]) byte
            (Nat.le_of_succ_le_succ short) (by simpa using ⟨plain, Ne.symm slashed⟩) (by simp) slashed
          refine ⟨byte :: first, others, split found, ?_⟩
          rw [copied]
          simpa using components

/-- The components of an absolute path that fits in the buffer are the names between its slashes. -/
theorem lookupComponents_absolute (short : (slash :: rest).length ≤ vfsPathRoom - 1) :
    lookupComponents (slash :: rest) = pathNames (slash :: rest) := by
  have names : pathNames (slash :: rest) = pathNames rest := by
    simp [pathNames, splitOn, splitOnP_cons_eq_if_modifyHead]
  rw [names]
  cases rest with
  | nil => rfl
  | cons byte rest =>
    have fits : (byte :: rest).length ≤ vfsPathRoom - 2 := by
      simp only [length_cons] at short ⊢
      omega
    have components := (pathComponents_copyPath (byte :: rest)).1 (vfsPathRoom - 2) fits
    have normalized : vfsNormalize (slash :: byte :: rest) =
        trimSlash (dot :: slash :: copyPath (some slash) (byte :: rest) (vfsPathRoom - 2)) := by
      rfl
    rw [lookupComponents, normalized, ← components]
    by_cases empty : copyPath (some slash) (byte :: rest) (vfsPathRoom - 2) = []
    · rw [empty]
      rfl
    · have trimmed : trimSlash (dot :: slash :: copyPath (some slash) (byte :: rest) (vfsPathRoom - 2)) =
          dot :: slash :: dropSlash (copyPath (some slash) (byte :: rest) (vfsPathRoom - 2)) := by
        have dropped := dropSlash_append empty [dot, slash]
        rw [dropSlash] at dropped
        simpa [trimSlash] using dropped
      rw [trimmed, normalComponents, if_pos ⟨rfl, rfl⟩]

lemma pathNames_length (path : CString) : 2 * (pathNames path).length ≤ path.length + 1 := by
  have pieces : ∃ (first : CString) (others : List CString), path.splitOn slash = first :: others ∧
      first.length + 2 * (others.filter (!·.isEmpty)).length ≤ path.length := by
    induction path with
    | nil => exact ⟨[], [], rfl, Nat.le_refl _⟩
    | cons byte rest ih =>
      obtain ⟨first, others, split, short⟩ := ih
      rw [splitOn] at split
      rw [splitOn, splitOnP_cons_eq_if_modifyHead, split]
      by_cases slashed : byte = slash
      · refine ⟨[], first :: others, if_pos (by simpa using slashed), ?_⟩
        cases first with
        | nil =>
          rw [filter_cons_of_neg (by simp)]
          simp only [length_cons] at short ⊢
          omega
        | cons next tail =>
          rw [filter_cons_of_pos (by simp)]
          simp only [length_nil, length_cons] at short ⊢
          omega
      · refine ⟨byte :: first, others, if_neg (by simpa using slashed), ?_⟩
        simp only [length_cons] at short ⊢
        omega
  obtain ⟨first, others, split, short⟩ := pieces
  rw [pathNames, split]
  cases first with
  | nil =>
    rw [filter_cons_of_neg (by simp)]
    omega
  | cons next tail =>
    rw [filter_cons_of_pos (by simp)]
    simp only [length_cons] at short ⊢
    omega

end Galio
