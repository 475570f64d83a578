import Mathlib.Data.List.TakeWhile
import Galio.Fs.Vfs

/-! The account file of `kernel/auth.c`: the text that is saved, and what is read back from it. -/

namespace Galio

open List

/-- `INPUT_BUFFER_SIZE`, also the bytes of a name or a password in the session. -/
def inputBufferSize : Nat := 32

/-- The buffer that the account file is read to, with the end mark. -/
def accountBufferSize : Nat := 256

structure UserSession where
  username : CString
  password : CString
  registered : Bool
  authenticated : Bool
  authorized : Bool
  uid : Nat
  gid : Nat

/-- The end of a line. -/
def newline : UInt8 := 10

/-- The other end of a line. -/
def carriageReturn : UInt8 := 13

/-- The sign between name and password in the old form of the file. -/
def colon : UInt8 := 58

/-- The text `usr = `. -/
def usrKey : CString := [117, 115, 114, 32, 61, 32]

/-- The text `pass = `. -/
def passKey : CString := [112, 97, 115, 115, 32, 61, 32]

/-- The name `root`. -/
def rootName : CString := [114, 111, 111, 116]

/-- `auth_find_key_line`: the text from the first occurrence of the key on. -/
def authFindKeyLine (key : CString) : CString → Option CString
  | [] => none
  | byte :: rest => if key.isPrefixOf (byte :: rest) then some (byte :: rest) else authFindKeyLine key rest

/-- The text before `auth_line_end`. -/
def authLine (text : CString) : CString := text.takeWhile fun byte => byte ≠ newline ∧ byte ≠ carriageReturn

/-- The payload of `auth_save_to_disk`, for fields that fit the session. -/
def authPayload (session : UserSession) : CString :=
  usrKey ++ session.username ++ [newline] ++ passKey ++ session.password ++ [newline]

/-- Name and password in a text with both keys. -/
def authKeyedFields (usrLine passLine : CString) : Option (CString × CString) :=
  let username := authLine (usrLine.drop usrKey.length)
  let password := authLine (passLine.drop passKey.length)
  if username.length ≥ inputBufferSize ∨ password.length ≥ inputBufferSize then none else some (username, password)

/-- Name and password in the old form, with the password's length taken from the bytes read. -/
def authColonFields (data : List UInt8) (text : CString) : Option (CString × CString) :=
  let username := text.takeWhile (· ≠ colon)
  if colon ∉ text then none
  else if username.length ≥ inputBufferSize ∨ data.length - username.length - 1 ≥ inputBufferSize then none
  else some (username, text.drop (username.length + 1))

def authSetSessionUid (session : UserSession) : UserSession :=
  let user := if session.username = rootName then 0 else 1000
  { session with uid := user, gid := user }

/-- `auth_load_from_disk` on a file: whether an account was loaded, and the session. -/
def authLoadFromDisk (session : UserSession) (file : List UInt8) : Bool × UserSession :=
  let data := file.take (accountBufferSize - 1)
  let text := data.takeWhile (· ≠ 0)
  let fields := match authFindKeyLine usrKey text, authFindKeyLine passKey text with
    | some usrLine, some passLine => authKeyedFields usrLine passLine
    | _, _ => authColonFields data text
  match fields with
  | none => (false, session)
  | some (username, password) =>
    if username = [] ∨ password = [] then (false, session)
    else
      (true, authSetSessionUid { session with
        username := username, password := password, registered := true, authenticated := false })

/-- A field of 1 to 31 printable characters. -/
def PrintableField (field : CString) : Prop :=
  field ≠ [] ∧ field.length < inputBufferSize ∧ ∀ byte ∈ field, 32 ≤ byte ∧ byte ≤ 126

variable {key text : CString}

lemma isPrefixOf_line {rest : CString} (plain : newline ∉ key) :
    key.isPrefixOf (text ++ newline :: rest) = key.isPrefixOf text := by
  induction text generalizing key with
  | nil =>
    cases key with
    | nil => rfl
    | cons first key =>
      have differs : first ≠ newline := fun same => plain (same ▸ .head _)
      simp [isPrefixOf, differs]
  | cons byte text ih =>
    cases key with
    | nil => rfl
    | cons first key => simp [isPrefixOf, ih fun listed => plain (.tail _ listed)]

lemma authFindKeyLine_line (nonempty : key ≠ []) (plain : newline ∉ key) (text rest : CString) :
    authFindKeyLine key (text ++ newline :: rest) = match authFindKeyLine key text with
      | some found => some (found ++ newline :: rest) | none => authFindKeyLine key rest := by
  induction text with
  | nil =>
    have absent : key.isPrefixOf (newline :: rest) = false := by
      have none : key.isPrefixOf ([] ++ newline :: rest) = _ := isPrefixOf_line plain
      rw [nil_append] at none
      rw [none]
      cases key with
      | nil => exact absurd rfl nonempty
      | cons first key => rfl
    simp [authFindKeyLine, absent]
  | cons byte text ih =>
    have same : key.isPrefixOf (byte :: text ++ newline :: rest) = _ := isPrefixOf_line plain
    rw [cons_append] at same
    rw [cons_append, authFindKeyLine, authFindKeyLine, same]
    by_cases found : key.isPrefixOf (byte :: text)
    · rw [if_pos found, if_pos found]
      rfl
    · rw [if_neg found, if_neg found, ih]

lemma authFindKeyLine_some {found : CString} (result : authFindKeyLine key text = some found) :
    key <+: found ∧ found <:+ text := by
  induction text with
  | nil => simp [authFindKeyLine] at result
  | cons byte rest ih =>
    rw [authFindKeyLine] at result
    split at result
    · rename_i starts
      cases result
      exact ⟨ isPrefixOf_iff_prefix.mp starts, suffix_refl _⟩
    · obtain ⟨starts, ends⟩ := ih result
      exact ⟨starts, ends.trans (suffix_cons _ _)⟩

lemma authFindKeyLine_none_iff (nonempty : key ≠ []) : authFindKeyLine key text = none ↔ ¬key <:+: text := by
  induction text with
  | nil => simp [authFindKeyLine, nonempty]
  | cons byte rest ih =>
    rw [authFindKeyLine, infix_cons_iff]
    by_cases starts : key <+: byte :: rest
    · simp [starts]
    · rw [if_neg (by simpa using starts), ih]
      simp [starts]

lemma authLine_printable (rest : CString) (printable : ∀ byte ∈ text, 32 ≤ byte ∧ byte ≤ 126) :
    authLine (text ++ newline :: rest) = text := by
  have inside : ∀ byte ∈ text, decide (byte ≠ newline ∧ byte ≠ carriageReturn) = true := by
    intro byte listed
    have low := (printable byte listed).1
    simp only [decide_eq_true_eq]
    constructor <;> (rintro rfl; exact absurd low (by decide))
  rw [authLine, takeWhile_append_of_pos inside]
  simp

lemma authFindKeyLine_payload (session : UserSession) : authFindKeyLine passKey (authPayload session) =
      match authFindKeyLine passKey session.username with
      | some found => some (found ++ newline :: (passKey ++ session.password ++ [newline]))
      | none => some (passKey ++ session.password ++ [newline]) := by
  have shape : authPayload session =
      (usrKey ++ session.username) ++ newline :: (passKey ++ session.password ++ [newline]) := by simp [authPayload]
  -- The key starts with a letter that the first key does not have.
  have skip : authFindKeyLine passKey (usrKey ++ session.username) = authFindKeyLine passKey session.username := by
    simp [usrKey, authFindKeyLine, passKey]
  have here : authFindKeyLine passKey (passKey ++ session.password ++ [newline]) =
      some (passKey ++ session.password ++ [newline]) := by
    simp [passKey, authFindKeyLine]
  rw [shape, authFindKeyLine_line (by decide) (by decide), skip, here]

lemma authFindKeyLine_usr (session : UserSession) :
    authFindKeyLine usrKey (authPayload session) = some (authPayload session) := by
  simp [authPayload, usrKey, authFindKeyLine]

/-- The password that is read back from the saved text. -/
def passwordRead (session : UserSession) : CString :=
  match authFindKeyLine passKey session.username with
  | some found => found.drop passKey.length
  | none => session.password

lemma authLoad_payload {session : UserSession} (before : UserSession) (named : PrintableField session.username)
    (worded : PrintableField session.password) : authLoadFromDisk before (authPayload session) =
      if passwordRead session = [] then (false, before) else (true, authSetSessionUid { before with
        username := session.username, password := passwordRead session, registered := true,
        authenticated := false }) := by
  have room : (authPayload session).take (accountBufferSize - 1) = authPayload session := by
    have size : (authPayload session).length = session.username.length + session.password.length + 15 := by
      simp [authPayload, usrKey, passKey]
      omega
    have nameFits := named.2.1
    have wordFits := worded.2.1
    apply take_of_length_le
    simp only [inputBufferSize, accountBufferSize] at *
    omega
  have text : (authPayload session).takeWhile (· ≠ 0) = authPayload session := by
    refine takeWhile_eq_self_iff.mpr fun byte listed => ?_
    have unended : ∀ field, PrintableField field → (0 : UInt8) ∉ field :=
      fun field printable listed => absurd (printable.2.2 0 listed).1 (by decide)
    have nonzero : byte ≠ 0 := by
      rintro rfl
      simp [authPayload, usrKey, passKey, newline, unended _ named, unended _ worded] at listed
    simpa using nonzero
  have username : authLine ((authPayload session).drop usrKey.length) = session.username := by
    have behind : (authPayload session).drop usrKey.length =
        session.username ++ newline :: (passKey ++ session.password ++ [newline]) := by simp [authPayload]
    rw [behind, authLine_printable _ named.2.2]
  obtain ⟨passLine, found, password, short⟩ : ∃ passLine, authFindKeyLine passKey (authPayload session) =
    some passLine ∧ authLine (passLine.drop passKey.length) = passwordRead session ∧
        (passwordRead session).length < inputBufferSize := by
    rw [authFindKeyLine_payload, passwordRead]
    cases occurs : authFindKeyLine passKey session.username with
    | none =>
      have behind : (passKey ++ session.password ++ [newline]).drop passKey.length = session.password ++
        newline :: [] := by
        simp
      exact ⟨_, rfl, by rw [behind, authLine_printable _ worded.2.2], worded.2.1⟩
    | some found =>
      obtain ⟨⟨rest, rfl⟩, ends⟩ := authFindKeyLine_some occurs
      have tail : rest <:+ session.username := (suffix_append _ _).trans ends
      have behind : (passKey ++ rest ++ newline :: (passKey ++ session.password ++ [newline])).drop passKey.length =
          rest ++ newline :: (passKey ++ session.password ++ [newline]) := by simp
      refine ⟨_, rfl, ?_, ?_⟩
      · rw [behind, authLine_printable _ fun byte listed => named.2.2 byte (tail.subset listed)]
        simp
      · have nameFits := named.2.1
        have fewer := tail.length_le
        simp only [drop_left]
        omega
  have nameFits := named.2.1
  simp only [authLoadFromDisk, room, text, authFindKeyLine_usr, found, authKeyedFields, username, password]
  rw [if_neg (by omega)]
  simp only [named.1, false_or]


/-- A session's name and password are loaded back from its saved text. -/
def LoadsBack (session : UserSession) : Prop :=
  ∀ before, ∃ after, authLoadFromDisk before (authPayload session) = (true, after) ∧
    after.username = session.username ∧ after.password = session.password

/--
An account is loaded back exactly if the name does not imitate the line of another password.

The key of the password does not occur in the name, or the first occurrence is followed by the password itself.
-/
theorem loadsBack_iff {session : UserSession} (named : PrintableField session.username)
    (worded : PrintableField session.password) :
    LoadsBack session ↔
      ¬passKey <:+: session.username ∨ authFindKeyLine passKey session.username =
        some (passKey ++ session.password) := by
  have loads : LoadsBack session ↔ passwordRead session = session.password := by
    simp only [LoadsBack, authLoad_payload _ named worded]
    constructor
    · intro all
      obtain ⟨after, result, -, password⟩ := all session
      split at result
      · simp at result
      · obtain rfl := (Prod.mk.inj result).2
        exact password
    · intro same before
      have some : passwordRead session ≠ [] := same ▸ worded.1
      exact ⟨_, if_neg some, rfl, same⟩
  rw [loads, passwordRead, ← authFindKeyLine_none_iff (by decide)]
  cases occurs : authFindKeyLine passKey session.username with
  | none => simp
  | some found =>
    obtain ⟨⟨rest, rfl⟩, -⟩ := authFindKeyLine_some occurs
    simp

/-- The account `anna` with the password `pass = x` is loaded back. -/
theorem loadsBack_plain_name :
    LoadsBack ⟨[97, 110, 110, 97], passKey ++ [120], true, true, false, 1000, 1000⟩ :=
  (loadsBack_iff (by unfold PrintableField; decide +kernel) (by unfold PrintableField; decide +kernel)).mpr
    (.inl (by decide))

/-- The account `pass = x` with the password `y` is loaded back with the password `x`. -/
theorem loads_other_password :
    PrintableField (passKey ++ [120]) ∧ PrintableField [121] ∧
      ¬LoadsBack ⟨passKey ++ [120], [121], true, true, false, 1000, 1000⟩ := by
  refine ⟨by unfold PrintableField; decide +kernel, by unfold PrintableField; decide +kernel, fun loads => ?_⟩
  obtain ⟨after, result, -, password⟩ := loads ⟨[], [], false, false, false, 0, 0⟩
  have other : (authLoadFromDisk ⟨[], [], false, false, false, 0, 0⟩
      (authPayload ⟨passKey ++ [120], [121], true, true, false, 1000, 1000⟩)).2.password = [120] := by decide +kernel
  rw [result, password] at other
  simp at other

end Galio
