import Mathlib.Data.List.Forall2

/-! The option parser of the shell, and the reading of its arguments token by token. -/

namespace Galio

open List

abbrev Text := List Char

def optionMax : Nat := 16

def positionalMax : Nat := 16

def optionNameMax : Nat := 64

def optionValueMax : Nat := 256

def optionTokenMax : Nat := 256

/-- `gsh_option_spec_t`. -/
structure OptionSpec where
  shortName : Char
  longName : Option Text
  requiresArgument : Bool
  optionalArgument : Bool

/-- The `short_name` of an option or an error, or the `long_name` of one without. -/
inductive OptionName
  | short (letter : Char)
  | long (word : Text)

/-- The characters of the `long_name`. -/
def OptionName.length : OptionName → Nat
  | .long word => word.length
  | .short _ => 0

/-- `gsh_option_t`, with the value that `has_value` tells of. -/
structure ShellOption where
  name : OptionName
  value : Option Text

/-- `gsh_options_error_t` without its OK. -/
inductive OptionsError
  | unknownOption | missingArgument | tooManyOptions | tooManyPositionals | invalidArgument

/-- `gsh_options_t`; the name of an error stands beside its code. -/
structure ShellOptions where
  options : List ShellOption := []
  positional : List Text := []
  parsingStopped : Bool := false
  error : Option (OptionsError × Option OptionName) := none

abbrev Parsing := Except ShellOptions

/-- The blanks the shell skips. -/
def isBlank (c : Char) : Bool := c == ' ' || c == '\t'

/-- The token after the blanks at the cursor, and the cursor behind it. -/
def nextToken (cursor : Text) : Option (Text × Text) :=
  match cursor.dropWhile isBlank with
  | [] => none
  | start => some (start.takeWhile (!isBlank ·), start.dropWhile (!isBlank ·))

/-- The name of a long option and, behind a `=`, its value. -/
def longName (word : Text) : Text := word.takeWhile (· != '=')

def longValue (word : Text) : Option Text :=
  if '=' ∈ word then some (word.drop ((longName word).length + 1)) else none

variable (specs : List OptionSpec) (result : ShellOptions)

def findSpec : OptionName → Option OptionSpec
  | .long word => specs.find? (·.longName = some word)
  | .short letter => specs.find? (·.shortName = letter)

/-- `set_error`, with the return after it. -/
def setError {α : Type} (error : OptionsError) (name : Option OptionName) : Parsing α :=
  let kept := name.map fun
    | .long word => .long (word.take (optionNameMax - 1))
    | letter => letter
  .error { result with error := some (error, kept) }

/-- `add_option`, with the `set_error` of its callers. -/
def addOption (name : OptionName) (value : Option Text) : Parsing ShellOptions :=
  let entered option := { result with options := result.options ++ [option] }
  if optionMax ≤ result.options.length then setError result .tooManyOptions name
  -- An option that does not fit is counted, without its text.
  else if optionNameMax ≤ name.length then setError (entered ⟨.long [], value.map fun _ => []⟩) .invalidArgument name
  else if value.any (optionValueMax ≤ ·.length) then setError (entered ⟨name, some []⟩) .invalidArgument name
  else .ok (entered ⟨name, value⟩)

def addPositional (token : Text) : Parsing ShellOptions :=
  if positionalMax ≤ result.positional.length then setError result .tooManyPositionals none
  else if optionTokenMax ≤ token.length then setError result .invalidArgument none
  else .ok { result with positional := result.positional ++ [token] }

/-- An option with the value attached to it; without one, with the next token if it requires a value. -/
def takeOption (name : OptionName) (spec : OptionSpec) (cursor : Text) :
    Option Text → Parsing (ShellOptions × Text)
  | some value =>
    if spec.requiresArgument ∧ value = [] then setError result .missingArgument name
    else (addOption result name value).map (·, cursor)
  | none =>
    if spec.requiresArgument then
      match nextToken cursor with
      | none => setError result .missingArgument name
      | some (value, rest) =>
        if optionValueMax ≤ value.length then setError result .invalidArgument name
        else (addOption result name value).map (·, rest)
    else (addOption result name none).map (·, cursor)

/-- A token without its `--`; `equals + 1` points into the arguments, so a value goes on to their end. -/
def readLong (word cursor : Text) : Parsing (ShellOptions × Text) :=
  let name := longName word
  if optionNameMax ≤ name.length then setError result .invalidArgument (some (.long (word ++ cursor)))
  else match findSpec specs (.long name) with
    | none => setError result .unknownOption (some (.long name))
    | some spec => takeOption result (.long name) spec cursor ((longValue word).map (· ++ cursor))

/-- A token without its `-`, letter by letter; `start + i + 1` points into the arguments too. -/
def readLetters (cursor : Text) : ShellOptions → Text → Parsing (ShellOptions × Text)
  | result, [] => .ok (result, cursor)
  | result, letter :: rest =>
    match findSpec specs (.short letter) with
    | none => setError result .unknownOption (some (.short letter))
    | some spec =>
      if spec.requiresArgument || spec.optionalArgument then
        takeOption result (.short letter) spec cursor ((rest.head?.map fun _ => rest).map (· ++ cursor))
      else (addOption result (.short letter) none).bind (readLetters cursor · rest)

def readToken (token cursor : Text) : Parsing (ShellOptions × Text) :=
  match result.parsingStopped, token with
  | false, ['-', '-'] => .ok ({ result with parsingStopped := true }, cursor)
  | false, '-' :: '-' :: word => readLong specs result word cursor
  | false, '-' :: letter :: rest => readLetters specs cursor result (letter :: rest)
  | _, _ => (addPositional result token).map (·, cursor)

/-- The loop of `gsh_parse_options`, which takes a token in every round. -/
def parseTokens : Nat → ShellOptions → Text → Parsing ShellOptions
  | 0, result, _ => .ok result
  | rounds + 1, result, cursor =>
    match nextToken cursor with
    | none => .ok result
    | some (token, behind) =>
      (readToken specs result token behind).bind fun (after, rest) => parseTokens rounds after rest

def gshParseOptions : Option Text → Parsing ShellOptions
  | none => .ok {}
  | some args => parseTokens specs args.length {} args

/-- What tokens say; with an option stand the tokens after a value that is part of its own token. -/
structure TokenReading where
  options : List (ShellOption × List Text) := []
  positional : List Text := []
  stopped : Bool := false

namespace TokenReading

variable (reading : TokenReading) (followers : List Text)

def enter (name : OptionName) (value : Option Text) : TokenReading :=
  { reading with options := reading.options ++ [(⟨name, value⟩, followers)] }

/-- An option with the value in its token, or the name that waits for the next token. -/
def take (name : OptionName) (spec : OptionSpec) : Option Text → TokenReading × Option OptionName
  | some value => (reading.enter followers name value, none)
  | none => if spec.requiresArgument then (reading, some name) else (reading.enter [] name none, none)

def letters : TokenReading → Text → Option (TokenReading × Option OptionName)
  | reading, [] => some (reading, none)
  | reading, letter :: rest =>
    (findSpec specs (.short letter)).bind fun spec =>
      if spec.requiresArgument || spec.optionalArgument then
        some (reading.take followers (.short letter) spec (rest.head?.map fun _ => rest))
      else letters (reading.enter [] (.short letter) none) rest

def token (token : Text) : Option (TokenReading × Option OptionName) :=
  match reading.stopped, token with
  | false, ['-', '-'] => some ({ reading with stopped := true }, none)
  | false, '-' :: '-' :: word =>
    (findSpec specs (.long (longName word))).map (reading.take followers (.long (longName word)) · (longValue word))
  | false, '-' :: letter :: rest => letters specs followers reading (letter :: rest)
  | _, _ => some ({ reading with positional := reading.positional ++ [token] }, none)

/-- Every token once: for the name that waits, or as itself. -/
def tokens : TokenReading × Option OptionName → List Text → Option TokenReading
  | (reading, none), [] => some reading
  | (_, some _), [] => none
  | (reading, some name), token :: rest => tokens (reading.enter [] name (some token), none) rest
  | (reading, none), token :: rest => (reading.token specs rest token).bind (tokens · rest)

end TokenReading

/-- A text is tokens joined by blanks. -/
inductive Spaced : List Text → Text → Prop
  | nil : Spaced [] []
  | cons {gap token rest : Text} {tokens : List Text} (blank : ∀ c ∈ gap, isBlank c) (nonempty : token ≠ [])
      (solid : ∀ c ∈ token, !isBlank c) (apart : ∀ c ∈ rest.head?, isBlank c) (spaced : Spaced tokens rest) :
      Spaced (token :: tokens) (gap ++ (token ++ rest))

/-- An option as its tokens say, but for the text behind a value that is part of its token. -/
inductive Recorded : ShellOption → ShellOption × List Text → Prop
  | whole (option : ShellOption) : Recorded option (option, [])
  | attached {name : OptionName} {value tail : Text} {followers : List Text} (spaced : Spaced followers tail) :
      Recorded ⟨name, some (value ++ tail)⟩ (⟨name, some value⟩, followers)

structure Records (result : ShellOptions) (reading : TokenReading) : Prop where
  options : Forall₂ Recorded result.options reading.options
  positional : result.positional = reading.positional
  stopped : result.parsingStopped = reading.stopped

/-- The parser behind a token, and behind the next one if a name waits for it. -/
inductive Continues (after : ShellOptions) (rest : Text) : TokenReading × Option OptionName → List Text → Prop
  | here {reading : TokenReading} {tokens : List Text} (records : Records after reading)
      (spaced : Spaced tokens rest) : Continues after rest (reading, none) tokens
  | next {reading : TokenReading} {name : OptionName} {token : Text} {tokens : List Text}
      (records : Records after (reading.enter [] name (some token))) (spaced : Spaced tokens rest) :
      Continues after rest (reading, some name) (token :: tokens)

section Steps

variable {specs result} {after : ShellOptions} {reading : TokenReading} {name : OptionName}
  {token cursor rest : Text} {tokens : List Text} {α β : Type} {x : Parsing α} {b : β}

lemma nextToken_cons {gap : Text} (blank : ∀ c ∈ gap, isBlank c) (nonempty : token ≠ [])
    (solid : ∀ c ∈ token, !isBlank c) (apart : ∀ c ∈ rest.head?, isBlank c) :
    nextToken (gap ++ (token ++ rest)) = some (token, rest) := by
  obtain ⟨first, more, rfl⟩ := exists_cons_of_ne_nil nonempty
  have start : (gap ++ (first :: more ++ rest)).dropWhile isBlank = first :: more ++ rest := by
    rw [dropWhile_append_of_pos blank, cons_append, dropWhile_cons_of_neg (by simpa using solid first)]
  have behind : rest.takeWhile (!isBlank ·) = [] ∧ rest.dropWhile (!isBlank ·) = rest := by
    cases rest with
    | nil => simp
    | cons c _ => simp [apart c rfl]
  rw [nextToken, start]
  simp only [cons_append]
  rw [← cons_append, takeWhile_append_of_pos solid, dropWhile_append_of_pos solid, behind.1, behind.2, append_nil]

lemma addOption_records {value said : Option Text} {followers : List Text} (records : Records result reading)
    (recorded : Recorded ⟨name, value⟩ (⟨name, said⟩, followers)) (added : addOption result name value = .ok after) :
    Records after (reading.enter followers name said) := by
  simp only [addOption, setError] at added
  split_ifs at added
  cases added
  exact ⟨rel_append records.options (.cons recorded .nil), records.positional, records.stopped⟩

lemma bind_ok {f : α → Parsing β} (bound : x.bind f = .ok b) : ∃ a, x = .ok a ∧ f a = .ok b := by
  cases x with
  | error _ => cases bound
  | ok a => exact ⟨a, rfl, bound⟩

lemma map_ok {f : α → β} (mapped : x.map f = .ok b) : ∃ a, x = .ok a ∧ f a = b := by
  cases x with
  | error _ => cases mapped
  | ok a => exact ⟨a, rfl, Except.ok.inj mapped⟩

lemma takeOption_continues {spec : OptionSpec} {attached : Option Text} (records : Records result reading)
    (spaced : Spaced tokens cursor)
    (taken : takeOption result name spec cursor (attached.map (· ++ cursor)) = .ok (after, rest)) :
    Continues after rest (reading.take tokens name spec attached) tokens := by
  cases attached with
  | some value =>
    simp only [Option.map_some, takeOption, setError] at taken
    split_ifs at taken
    obtain ⟨_, added, ⟨⟩⟩ := map_ok taken
    exact .here (addOption_records records (.attached spaced) added) spaced
  | none =>
    simp only [Option.map_none, takeOption, setError] at taken
    unfold TokenReading.take
    split_ifs at taken with required
    · -- The next token of the text is the next of the list.
      simp only [required]
      cases spaced with
      | nil => simp [nextToken] at taken
      | cons blank nonempty solid apart spaced =>
        simp only [nextToken_cons blank nonempty solid apart] at taken
        split_ifs at taken
        obtain ⟨_, added, ⟨⟩⟩ := map_ok taken
        exact .next (addOption_records records (.whole _) added) spaced
    · simp only [required]
      obtain ⟨_, added, ⟨⟩⟩ := map_ok taken
      exact .here (addOption_records records (.whole _) added) spaced

lemma readLetters_continues (records : Records result reading) (spaced : Spaced tokens cursor) {letters : Text}
    (read : readLetters specs cursor result letters = .ok (after, rest)) :
    ∃ state, reading.letters specs tokens letters = some state ∧ Continues after rest state tokens := by
  induction letters generalizing result reading with
  | nil =>
    cases read
    exact ⟨_, rfl, .here records spaced⟩
  | cons letter letters ih =>
    rw [readLetters] at read
    rw [TokenReading.letters]
    split at read
    · simp [setError] at read
    rename_i spec found
    rw [found, Option.bind_some]
    split_ifs at read ⊢
    · exact ⟨_, rfl, takeOption_continues records spaced read⟩
    · obtain ⟨_, added, read⟩ := bind_ok read
      exact ih (addOption_records records (.whole _) added) read

lemma readToken_continues (records : Records result reading) (spaced : Spaced tokens cursor)
    (read : readToken specs result token cursor = .ok (after, rest)) :
    ∃ state, reading.token specs tokens token = some state ∧ Continues after rest state tokens := by
  unfold readToken at read
  unfold TokenReading.token
  rw [← records.stopped]
  split at read
  · cases read
    exact ⟨_, rfl, .here ⟨records.options, records.positional, rfl⟩ spaced⟩
  · simp only [readLong, setError] at read
    split_ifs at read
    split at read
    · cases read
    · rename_i spec found
      simp only [found]
      exact ⟨_, rfl, takeOption_continues records spaced read⟩
  · exact readLetters_continues records spaced read
  · obtain ⟨_, added, ⟨⟩⟩ := map_ok read
    simp only [addPositional, setError] at added
    split_ifs at added
    cases added
    exact ⟨_, rfl, .here ⟨records.options, by rw [records.positional], rfl⟩ spaced⟩

lemma Spaced.length_le (spaced : Spaced tokens cursor) : tokens.length ≤ cursor.length := by
  induction spaced with
  | nil => exact Nat.le_refl 0
  | cons _ nonempty _ _ _ ih =>
    have := length_pos_iff.mpr nonempty
    simp only [length_cons, length_append]
    omega

lemma parseTokens_records {rounds : Nat} (enough : tokens.length ≤ rounds) (records : Records result reading)
    (spaced : Spaced tokens cursor) (parsed : parseTokens specs rounds result cursor = .ok after) :
    ∃ final, TokenReading.tokens specs (reading, none) tokens = some final ∧ Records after final := by
  induction rounds generalizing result reading tokens cursor with
  | zero =>
    obtain rfl := length_eq_zero_iff.mp (Nat.le_zero.mp enough)
    cases parsed
    exact ⟨reading, rfl, records⟩
  | succ rounds ih =>
    rw [parseTokens] at parsed
    cases spaced with
    | nil =>
      cases parsed
      exact ⟨reading, rfl, records⟩
    | @cons _ token behind _ blank nonempty solid apart spaced =>
      rw [nextToken_cons blank nonempty solid apart] at parsed
      obtain ⟨⟨_, _⟩, read, parsed⟩ := bind_ok parsed
      obtain ⟨state, reads, continues⟩ := readToken_continues records spaced read
      rw [TokenReading.tokens, reads]
      rw [length_cons] at enough
      cases continues with
      | here records spaced => exact ih (by omega) records spaced parsed
      | next records left =>
        rw [length_cons] at enough
        exact ih (by omega) records left parsed

lemma Recorded.eq_iff {option : ShellOption} {said : ShellOption × List Text} (recorded : Recorded option said) :
    option = said.1 ↔ said.2 = [] := by
  cases recorded with
  | whole option => simp
  | attached spaced =>
    cases spaced with
    | nil => simp
    | cons _ nonempty _ _ _ => simp [nonempty]

end Steps

lemma options_eq_iff {options : List ShellOption} {said : List (ShellOption × List Text)}
    (recorded : Forall₂ Recorded options said) : options = said.map Prod.fst ↔ ∀ option ∈ said, option.2 = [] := by
  induction recorded with
  | nil => simp
  | cons first _ ih => simp [ih, first.eq_iff]

/--
When the parser succeeds, it has read its arguments token by token exactly if no token that has both an option and
its value is followed by another.
-/
theorem gshParseOptions_tokenwise_iff {tokens : List Text} {text : Text} (spaced : Spaced tokens text)
    (parsed : gshParseOptions specs (some text) = .ok result) :
    (∃ reading, TokenReading.tokens specs ({}, none) tokens = some reading ∧
      result.options = reading.options.map Prod.fst ∧ result.positional = reading.positional) ↔
      ∀ reading, TokenReading.tokens specs ({}, none) tokens = some reading →
        ∀ option ∈ reading.options, option.2 = [] := by
  have start : Records {} {} := ⟨.nil, rfl, rfl⟩
  obtain ⟨reading, reads, records⟩ := parseTokens_records spaced.length_le start spaced parsed
  simp only [reads, Option.some.injEq, exists_eq_left', forall_eq', options_eq_iff records.options,
    records.positional, and_true]

/-- An option `-f` that requires a value. -/
def fileSpecs : List OptionSpec := [⟨'f', none, true, false⟩]

/-- The value of `-fa` behind another token is `a`. -/
theorem gshParseOptions_last : ∃ reading,
    TokenReading.tokens fileSpecs ({}, none) [['b'], ['-', 'f', 'a']] = some reading ∧
      [⟨.short 'f', some ['a']⟩] = reading.options.map Prod.fst ∧ [['b']] = reading.positional := by
  have spaced : Spaced [['b'], ['-', 'f', 'a']] ['b', ' ', '-', 'f', 'a'] := by
    refine @Spaced.cons [] ['b'] _ _ (by simp) (by simp) (by simp [isBlank]) (by simp [isBlank]) ?_
    exact @Spaced.cons [' '] ['-', 'f', 'a'] [] _ (by simp [isBlank]) (by simp) (by simp [isBlank]) (by simp) .nil
  apply (gshParseOptions_tokenwise_iff fileSpecs ⟨[⟨.short 'f', some ['a']⟩], [['b']], false, none⟩ spaced rfl).mpr
  intro reading reads
  cases reads
  decide

/-- The value of `-fa` before another token is all that is left of the text. -/
theorem attached_value_goes_on : Spaced [['-', 'f', 'a'], ['b']] ['-', 'f', 'a', ' ', 'b'] ∧
    gshParseOptions fileSpecs (some ['-', 'f', 'a', ' ', 'b']) =
      .ok ⟨[⟨.short 'f', some ['a', ' ', 'b']⟩], [['b']], false, none⟩ ∧
    ∃ reading, TokenReading.tokens fileSpecs ({}, none) [['-', 'f', 'a'], ['b']] = some reading ∧
      reading.options.map Prod.fst = [⟨.short 'f', some ['a']⟩] ∧ reading.positional = [['b']] := by
  refine ⟨@Spaced.cons [] _ [' ', 'b'] _ (by simp) (by simp) (by simp [isBlank]) (by simp [isBlank]) ?_, rfl, _, rfl,
    rfl, rfl⟩
  exact @Spaced.cons [' '] ['b'] [] _ (by simp [isBlank]) (by simp) (by simp [isBlank]) (by simp) .nil

end Galio
