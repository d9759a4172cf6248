import Mathlib.Data.List.Induction
import Mathlib.Data.List.TakeWhile
import TdhSocket.Dispatch.Process

/-!
# The authentication codes

`tdh_socket_share.cpp` and `tdhs_string_t::compare`. A configured code is copied into an array of
the plugin, and the pointer to the configured text is redirected to that array. A code that does
not fit is cut, and a second `reset_auth_read_code` copies the array onto itself after it was set
to zero.

`codeOf_run` reduces any sequence of configuration changes and resets to the last change and the
number of resets behind it, and `auth_check_exact` says when the check is one for the configured
code. `tdhsAuthRead_eq` and `tdhsAuthWrite_eq` are the connection to the check of the handshake.
-/

set_option autoImplicit false

namespace TdhSocket.Dispatch

open Decode

/-! ### Codes -/

/-- The text of a C string: the bytes in front of its zero. -/
structure CText where
  bytes : List UInt8
  noZero : 0 ∉ bytes

/-- What `tdhs_auth_read_code` or `tdhs_auth_write_code` points to: nothing, the text that was
configured, or the array of the plugin. -/
inductive CodePointer
  | null
  | text (code : CText)
  | array

/-- `tdhs_auth_read_code` with `tdhs_auth_read_code_char` and the length of
`tdhs_auth_read_code_string`, or the same for the write code. -/
structure AuthCode where
  pointer : CodePointer
  chars : List UInt8
  len : ℕ
  chars_length : chars.length = maxAuthCodeLength
  len_le : len ≤ maxAuthCodeLength

/-- The array behind `memset`. -/
def clearedChars : List UInt8 := List.replicate maxAuthCodeLength 0

/-- The length that is copied of a code. -/
def codeLenOf (length : ℕ) : ℕ :=
  if maxAuthCodeLength ≤ length then maxAuthCodeLength - 1 else length

theorem codeLenOf_lt (length : ℕ) : codeLenOf length < maxAuthCodeLength := by
  unfold codeLenOf maxAuthCodeLength
  split_ifs <;> omega

/-- The array behind `memset` and a `memcpy` of the first bytes of a source. -/
def copiedChars (source : List UInt8) (codeLen : ℕ) : List UInt8 :=
  (source.take codeLen ++ clearedChars).take maxAuthCodeLength

theorem length_copiedChars (source : List UInt8) (codeLen : ℕ) :
    (copiedChars source codeLen).length = maxAuthCodeLength := by
  rw [copiedChars, List.length_take, List.length_append, clearedChars, List.length_replicate]
  exact Nat.min_eq_left (Nat.le_add_left _ _)

namespace AuthCode

/-- A configuration change. -/
def configure (auth : AuthCode) (code : Option CText) : AuthCode :=
  { auth with pointer := code.elim .null .text }

/-- `reset_auth_read_code` or `reset_auth_write_code` for a code that is there. -/
def copyFrom (source : List UInt8) (length : ℕ) : AuthCode :=
  ⟨.array, copiedChars source (codeLenOf length), codeLenOf length + 1,
    length_copiedChars _ _, codeLenOf_lt length⟩

/-- `reset_auth_read_code` or `reset_auth_write_code`. -/
def reset (auth : AuthCode) : AuthCode :=
  match auth.pointer with
  | .null => ⟨.array, clearedChars, 0, List.length_replicate, Nat.zero_le _⟩
  | .text code => copyFrom code.bytes code.bytes.length
  -- the source of the copy is the array that was just set to zero
  | .array => copyFrom clearedChars (auth.chars.takeWhile (· ≠ 0)).length

/-- `tdhs_auth_read_code_string` or `tdhs_auth_write_code_string`. -/
def string (auth : AuthCode) : TdhsString := auth.chars.take auth.len

end AuthCode

/-! ### The comparison -/

/-- A `char`. -/
def charOf (byte : UInt8) : ℤ := (byte.toNat : ℤ).bmod 256

/-- The loop of `tdhs_string_t::compare`: the difference of the first two bytes that differ. -/
def firstDifference : List UInt8 → List UInt8 → Option ℤ
  | c1 :: v1, c2 :: v2 => if c1 ≠ c2 then some (charOf c1 - charOf c2) else firstDifference v1 v2
  | _, _ => none

/-- `tdhs_string_t::compare`. The difference of the lengths is an `int`. -/
def compareStrings (first second : TdhsString) : ℤ :=
  (firstDifference first second).getD (((first.length : ℤ) - second.length).bmod (2 ^ 32))

theorem charOf_injective : Function.Injective charOf := by
  intro first second hsame
  have hfirst := first.toNat_lt
  have hsecond := second.toNat_lt
  unfold charOf at hsame
  rw [Int.bmod_def, Int.bmod_def] at hsame
  have htoNat : first.toNat = second.toNat := by
    split_ifs at hsame <;> omega
  exact UInt8.toNat_inj.mp htoNat

theorem firstDifference_ne_zero {first second : List UInt8} {difference : ℤ}
    (hdifference : firstDifference first second = some difference) : difference ≠ 0 := by
  induction first generalizing second with
  | nil => cases hdifference
  | cons c1 v1 ih =>
    cases second with
    | nil => cases hdifference
    | cons c2 v2 =>
      rw [firstDifference] at hdifference
      split_ifs at hdifference with hsame
      · rw [← Option.some.inj hdifference]
        exact fun hzero ↦ hsame (charOf_injective (Int.sub_eq_zero.mp hzero))
      · exact ih hdifference

theorem firstDifference_self (string : List UInt8) : firstDifference string string = none := by
  induction string with
  | nil => rfl
  | cons byte bytes ih =>
    rw [firstDifference, if_neg fun hne ↦ hne rfl]
    exact ih

/-- Assumes: the strings have the same length. -/
theorem eq_of_firstDifference {first second : List UInt8}
    (hnone : firstDifference first second = none) (hlength : first.length = second.length) :
    first = second := by
  induction first generalizing second with
  | nil => exact (List.eq_nil_of_length_eq_zero hlength.symm).symm
  | cons c1 v1 ih =>
    cases second with
    | nil => cases hlength
    | cons c2 v2 =>
      rw [firstDifference] at hnone
      split_ifs at hnone with hsame
      rw [ih hnone (Nat.succ.inj hlength), not_not.mp hsame]

/-- The comparison is exact. Assumes: the lengths are those of `uint32_t`. -/
theorem compareStrings_eq_zero_iff {first second : TdhsString} (hfirst : first.length < 2 ^ 32)
    (hsecond : second.length < 2 ^ 32) : compareStrings first second = 0 ↔ first = second := by
  unfold compareStrings
  constructor
  · intro hzero
    cases hdifference : firstDifference first second with
    | some difference =>
      rw [hdifference, Option.getD_some] at hzero
      exact absurd hzero (firstDifference_ne_zero hdifference)
    | none =>
      rw [hdifference, Option.getD_none] at hzero
      refine eq_of_firstDifference hdifference ?_
      have hdvd := Int.dvd_of_bmod_eq_zero hzero
      omega
  · rintro rfl
    rw [firstDifference_self, Option.getD_none, Int.sub_self]
    rfl

/-! ### What is compared -/

/-- The string that stands for a configured code at the handshake: its bytes and a zero, or nothing
when no code is configured. -/
def presentedFor (code : Option CText) : TdhsString := code.elim [] fun text ↦ text.bytes ++ [0]

namespace AuthCode

theorem length_string (auth : AuthCode) : auth.string.length = auth.len := by
  rw [string, List.length_take, auth.chars_length]
  exact Nat.min_eq_left auth.len_le

/-- Assumes: the source has as many bytes as its length says. -/
theorem string_copyFrom {source : List UInt8} {length : ℕ} (hlength : length ≤ source.length) :
    (copyFrom source length).string = source.take (codeLenOf length) ++ [0] := by
  have hlt : codeLenOf length + 1 ≤ maxAuthCodeLength := codeLenOf_lt length
  have hle : codeLenOf length ≤ length := by
    unfold codeLenOf
    split_ifs <;> omega
  have htake : (source.take (codeLenOf length)).length = codeLenOf length := by
    rw [List.length_take]
    exact Nat.min_eq_left (hle.trans hlength)
  change (copiedChars source (codeLenOf length)).take (codeLenOf length + 1) = _
  rw [copiedChars, List.take_take, Nat.min_eq_left hlt, List.take_append, htake,
    Nat.add_sub_cancel_left, clearedChars, List.take_replicate,
    List.take_of_length_le (htake.le.trans (Nat.le_succ _))]
  rfl

/-- Behind a configuration change and a reset there is the code, cut to the array. -/
theorem string_reset_configure (auth : AuthCode) (code : Option CText) :
    (auth.configure code).reset.string =
      code.elim [] fun text ↦ text.bytes.take (maxAuthCodeLength - 1) ++ [0] := by
  cases code with
  | none => rfl
  | some text =>
    refine (string_copyFrom le_rfl).trans (congrArg (· ++ [0]) ?_)
    unfold codeLenOf
    split_ifs with hlong
    · rfl
    · rw [List.take_of_length_le le_rfl, List.take_of_length_le (by omega)]

/-- A reset without a configuration change leaves zeros, as many as the code was long. Assumes: the
pointer is to the array. -/
theorem string_reset_array {auth : AuthCode} (hpointer : auth.pointer = .array) :
    auth.reset.string =
      List.replicate (codeLenOf (auth.chars.takeWhile (· ≠ 0)).length + 1) 0 := by
  have hreset : auth.reset = copyFrom clearedChars (auth.chars.takeWhile (· ≠ 0)).length := by
    rw [reset, hpointer]
  have hlength : (auth.chars.takeWhile (· ≠ 0)).length ≤ clearedChars.length := by
    rw [clearedChars, List.length_replicate, ← auth.chars_length]
    exact (List.takeWhile_prefix _).length_le
  rw [hreset, string_copyFrom hlength, clearedChars, List.take_replicate,
    Nat.min_eq_left (codeLenOf_lt _).le, List.replicate_succ']

theorem pointer_reset (auth : AuthCode) : auth.reset.pointer = .array := by
  unfold reset
  cases auth.pointer <;> rfl

theorem pointer_resets (auth : AuthCode) (resets : ℕ) :
    (reset^[resets + 1] auth).pointer = .array := by
  rw [Function.iterate_succ_apply']
  exact pointer_reset _

theorem copiedChars_clearedChars (codeLen : ℕ) :
    copiedChars clearedChars codeLen = clearedChars := by
  rw [copiedChars, clearedChars, List.take_replicate, List.replicate_append_replicate,
    List.take_replicate, Nat.min_eq_left (Nat.le_add_left _ _)]

/-- The array of an empty code stays zero. -/
theorem chars_resets_of_empty (auth : AuthCode) {text : CText} (hempty : text.bytes = [])
    (resets : ℕ) : (reset^[resets + 1] (auth.configure (some text))).chars = clearedChars := by
  rw [Function.iterate_succ_apply']
  cases resets with
  | zero =>
    change copiedChars text.bytes (codeLenOf text.bytes.length) = clearedChars
    rw [hempty, copiedChars, List.take_nil, List.nil_append, clearedChars, List.take_replicate,
      Nat.min_self]
  | succ resets =>
    have hpointer := pointer_resets (auth.configure (some text)) resets
    unfold reset at hpointer ⊢
    rw [hpointer]
    exact copiedChars_clearedChars _

end AuthCode

/-! ### Configuration changes and resets -/

/-- What happens to one of the codes. -/
inductive CodeEvent
  | configure (code : Option CText)
  | reset

/-- The effect of an event. -/
def AuthCode.apply (auth : AuthCode) : CodeEvent → AuthCode
  | .configure code => auth.configure code
  | .reset => auth.reset

/-- The two codes. -/
inductive AuthKind
  | read
  | write
  deriving DecidableEq, Repr

/-- The codes of a server. -/
structure AuthCodes where
  read : AuthCode
  write : AuthCode

variable (codes : AuthCodes)

namespace AuthCodes

/-- One of the codes. -/
def codeOf : AuthKind → AuthCode
  | .read => codes.read
  | .write => codes.write

/-- `reset_auth_read_code`. -/
def resetAuthReadCode : AuthCodes := { codes with read := codes.read.reset }

/-- `reset_auth_write_code`. -/
def resetAuthWriteCode : AuthCodes := { codes with write := codes.write.reset }

/-- `tdhs_auth_read`. -/
def tdhsAuthRead (string : TdhsString) : Bool :=
  compareStrings codes.read.string string == 0

/-- `tdhs_auth_write`. -/
def tdhsAuthWrite (string : TdhsString) : Bool :=
  compareStrings codes.write.string string == 0

/-- The check of one of the codes. -/
def auth : AuthKind → TdhsString → Bool
  | .read => codes.tdhsAuthRead
  | .write => codes.tdhsAuthWrite

/-- The effect of an event on one of the codes. -/
def apply : AuthKind × CodeEvent → AuthCodes
  | (.read, .configure code) => { codes with read := codes.read.configure code }
  | (.read, .reset) => codes.resetAuthReadCode
  | (.write, .configure code) => { codes with write := codes.write.configure code }
  | (.write, .reset) => codes.resetAuthWriteCode

/-- The codes behind a sequence of events. -/
def run (events : List (AuthKind × CodeEvent)) : AuthCodes :=
  events.foldl apply codes

end AuthCodes

/-- The code that was configured last and the number of resets since, before an event and behind
it. -/
def stepHistory (history : Option (Option CText × ℕ)) : CodeEvent → Option (Option CText × ℕ)
  | .configure code => some (code, 0)
  | .reset => history.map fun (code, resets) ↦ (code, resets + 1)

variable (kind : AuthKind)

/-- The code that was configured last in a sequence of events and the number of resets since. -/
def historyOf (events : List (AuthKind × CodeEvent)) : Option (Option CText × ℕ) :=
  events.foldl (fun history event ↦
    if event.1 = kind then stepHistory history event.2 else history) none

/-- The code can be copied whole. -/
def FitsArray (code : Option CText) : Prop := ∀ text ∈ code, text.bytes.length < maxAuthCodeLength

/-- The code is the empty text. -/
def IsEmptyCode (code : Option CText) : Prop := ∃ text ∈ code, text.bytes = []

theorem replicate_zero_eq_iff {text : CText} {zeros : ℕ} :
    List.replicate (zeros + 1) 0 = text.bytes ++ [0] ↔ text.bytes = [] ∧ zeros = 0 := by
  rw [List.replicate_succ', List.append_left_inj]
  constructor
  · intro hbytes
    cases zeros with
    | zero => exact ⟨hbytes.symm, rfl⟩
    | succ zeros =>
      refine absurd ?_ text.noZero
      rw [← hbytes]
      exact List.mem_replicate.mpr ⟨Nat.succ_ne_zero _, rfl⟩
  · rintro ⟨hbytes, rfl⟩
    exact hbytes.symm

/-- The first reset behind a configuration change keeps a code that fits. -/
theorem string_reset_eq_iff (auth : AuthCode) (code : Option CText) :
    (auth.configure code).reset.string = presentedFor code ↔ FitsArray code := by
  rw [AuthCode.string_reset_configure]
  cases code with
  | none => exact iff_of_true rfl fun _ h ↦ nomatch h
  | some text =>
    change text.bytes.take (maxAuthCodeLength - 1) ++ [0] = text.bytes ++ [0] ↔ _
    rw [List.append_left_inj]
    constructor
    · rintro hwhole other hother
      cases hother
      rw [← hwhole]
      exact Nat.lt_of_le_of_lt (List.length_take_le _ _) (by decide)
    · intro hfits
      exact List.take_of_length_le (Nat.le_sub_one_of_lt (hfits text rfl))

/-- A later reset keeps the empty code alone. -/
theorem string_resets_eq_iff (auth : AuthCode) (code : Option CText) (resets : ℕ) :
    (AuthCode.reset^[resets + 2] (auth.configure code)).string = presentedFor code ↔
      IsEmptyCode code := by
  rw [Function.iterate_succ_apply',
    AuthCode.string_reset_array (AuthCode.pointer_resets _ resets)]
  cases code with
  | none =>
    refine iff_of_false List.replicate_succ_ne_nil ?_
    rintro ⟨_, h, -⟩
    cases h
  | some text =>
    refine replicate_zero_eq_iff.trans ?_
    constructor
    · rintro ⟨hempty, -⟩
      exact ⟨text, rfl, hempty⟩
    · rintro ⟨_, hsame, hempty⟩
      cases hsame
      rw [AuthCode.chars_resets_of_empty auth hempty resets]
      exact ⟨hempty, rfl⟩

/-! ### The check -/

variable {code : Option CText}

/-- A code behind a history is the configured one behind as many resets. -/
theorem codeOf_run (events : List (AuthKind × CodeEvent)) {resets : ℕ}
    (hhistory : historyOf kind events = some (code, resets)) :
    ∃ before : AuthCode, (codes.run events).codeOf kind =
      AuthCode.reset^[resets] (before.configure code) := by
  induction events using List.reverseRecOn generalizing code resets with
  | nil => cases hhistory
  | append_singleton events event ih =>
    unfold historyOf at hhistory ih
    unfold AuthCodes.run at ih ⊢
    rw [List.foldl_append, List.foldl_cons, List.foldl_nil] at hhistory ⊢
    obtain ⟨eventKind, event⟩ := event
    by_cases hkind : eventKind = kind
    · subst hkind
      rw [if_pos rfl] at hhistory
      cases event with
      | configure =>
        cases hhistory
        cases eventKind <;> exact ⟨_, rfl⟩
      | reset =>
        obtain ⟨⟨code', resets'⟩, hbefore, hafter⟩ := Option.map_eq_some_iff.mp hhistory
        cases hafter
        obtain ⟨before, hcode⟩ := ih hbefore
        refine ⟨before, ?_⟩
        rw [Function.iterate_succ_apply', ← hcode]
        cases eventKind <;> rfl
    · rw [if_neg hkind] at hhistory
      obtain ⟨before, hcode⟩ := ih hhistory
      refine ⟨before, ?_⟩
      rw [← hcode]
      cases eventKind <;> cases kind <;> cases event <;> first | rfl | exact absurd rfl hkind

theorem auth_eq (string : TdhsString) :
    codes.auth kind string = (compareStrings (codes.codeOf kind).string string == 0) := by
  cases kind <;> rfl

variable {string : TdhsString}

/-- The check of a presented string, for strings of the lengths of `uint32_t`. -/
theorem auth_iff (hstring : string.length < 2 ^ 32) :
    codes.auth kind string = true ↔ string = (codes.codeOf kind).string := by
  have hlength : (codes.codeOf kind).string.length < 2 ^ 32 := by
    rw [AuthCode.length_string]
    exact Nat.lt_of_le_of_lt (codes.codeOf kind).len_le (by decide)
  rw [auth_eq, beq_iff_eq, compareStrings_eq_zero_iff hlength hstring]
  exact eq_comm

/-- The check accepts exactly the string of the configured code. -/
def IsExactFor (code : Option CText) : Prop :=
  ∀ string : TdhsString, string.length < 2 ^ 32 →
    (codes.auth kind string = true ↔ string = presentedFor code)

/-- The check is exact if and only if the string that is compared is that of the code. -/
theorem isExactFor_iff (code : Option CText) :
    IsExactFor codes kind code ↔ (codes.codeOf kind).string = presentedFor code := by
  have hlength : (codes.codeOf kind).string.length < 2 ^ 32 := by
    rw [AuthCode.length_string]
    exact Nat.lt_of_le_of_lt (codes.codeOf kind).len_le (by decide)
  constructor
  · intro hexact
    exact (hexact _ hlength).mp ((auth_iff codes kind hlength).mpr rfl)
  · intro hsame string hstring
    rw [auth_iff codes kind hstring, hsame]

/-- Behind any sequence of configuration changes and resets, the check of a code is exact if and
only if the code that was configured last fits the array and there was one reset since, or that
code is the empty text. Assumes: there was a reset since the last configuration change. -/
theorem auth_check_exact (codes : AuthCodes) (kind : AuthKind)
    (events : List (AuthKind × CodeEvent)) {code : Option CText} {resets : ℕ}
    (hhistory : historyOf kind events = some (code, resets + 1)) :
    IsExactFor (codes.run events) kind code ↔
      (resets = 0 ∧ FitsArray code) ∨ IsEmptyCode code := by
  obtain ⟨before, hcode⟩ := codeOf_run codes kind events hhistory
  rw [isExactFor_iff, hcode]
  cases resets with
  | zero =>
    rw [Function.iterate_one, string_reset_eq_iff]
    constructor
    · exact fun hfits ↦ Or.inl ⟨rfl, hfits⟩
    · rintro (⟨-, hfits⟩ | ⟨text, hsome, hempty⟩)
      · exact hfits
      · intro other hother
        cases hsome.symm.trans hother
        rw [hempty]
        decide
  | succ resets =>
    rw [string_resets_eq_iff]
    constructor
    · exact Or.inr
    · rintro (⟨hzero, -⟩ | hempty)
      · cases hzero
      · exact hempty

/-! ### The handshake -/

theorem resetAuthCode_eq (auth : AuthCode) (code : Option CText) :
    resetAuthCode (code.map CText.bytes) = (auth.configure code).reset.string := by
  rw [AuthCode.string_reset_configure]
  cases code with
  | none => rfl
  | some text =>
    have hwhole : text.bytes.takeWhile (· ≠ 0) = text.bytes :=
      List.takeWhile_eq_self_iff.mpr fun byte hbyte ↦
        decide_eq_true fun hzero ↦ text.noZero (hzero ▸ hbyte)
    change (text.bytes.takeWhile (· ≠ 0)).take (maxAuthCodeLength - 1) ++ [0] = _
    rw [hwhole]
    rfl

/-- The read check of the handshake is that of the codes. Assumes: the read code of the server was
configured last, and there was one reset since. -/
theorem tdhsAuthRead_eq {events : List (AuthKind × CodeEvent)} {server : Server}
    (hserver : server.authReadCode = code.map CText.bytes)
    (hhistory : historyOf .read events = some (code, 1)) (hstring : string.length < 2 ^ 32) :
    tdhsAuthRead server string = (codes.run events).tdhsAuthRead string := by
  obtain ⟨before, hcode⟩ := codeOf_run codes .read events hhistory
  have hcheck := auth_iff (codes.run events) .read hstring
  rw [hcode, Function.iterate_one, ← resetAuthCode_eq, ← hserver] at hcheck
  exact Bool.eq_iff_iff.mpr (beq_iff_eq.trans hcheck.symm)

/-- The same for the write check. -/
theorem tdhsAuthWrite_eq {events : List (AuthKind × CodeEvent)} {server : Server}
    (hserver : server.authWriteCode = code.map CText.bytes)
    (hhistory : historyOf .write events = some (code, 1)) (hstring : string.length < 2 ^ 32) :
    tdhsAuthWrite server string = (codes.run events).tdhsAuthWrite string := by
  obtain ⟨before, hcode⟩ := codeOf_run codes .write events hhistory
  have hcheck := auth_iff (codes.run events) .write hstring
  rw [hcode, Function.iterate_one, ← resetAuthCode_eq, ← hserver] at hcheck
  exact Bool.eq_iff_iff.mpr (beq_iff_eq.trans hcheck.symm)

/-! ### Two codes -/

/-- The codes before `init_auth`. -/
def unsetCodes : AuthCodes :=
  ⟨⟨.null, clearedChars, 0, List.length_replicate, Nat.zero_le _⟩,
    ⟨.null, clearedChars, 0, List.length_replicate, Nat.zero_le _⟩⟩

/-- A code of as many letters a. -/
def lettersCode (number : ℕ) : CText :=
  ⟨List.replicate number 97, fun h ↦ absurd (List.eq_of_mem_replicate h) (by decide)⟩

/-- A configuration change of the read code, and a reset. -/
def configuredOnce (code : CText) : List (AuthKind × CodeEvent) :=
  [(.read, .configure (some code)), (.read, .reset)]

/-- A code of three letters, behind a long one. -/
theorem auth_check_exact_threeLetters :
    IsExactFor (unsetCodes.run (configuredOnce (lettersCode 300) ++ configuredOnce (lettersCode 3)))
      .read (some (lettersCode 3)) := by
  refine (auth_check_exact unsetCodes .read _
    (rfl : historyOf .read (configuredOnce (lettersCode 300) ++ configuredOnce (lettersCode 3)) =
      some (some (lettersCode 3), 0 + 1))).mpr (Or.inl ⟨rfl, fun text htext ↦ ?_⟩)
  cases htext
  decide

/-- A code of 256 letters: the check accepts 255 of them and refuses the code. -/
theorem long_code_is_cut :
    (unsetCodes.run (configuredOnce (lettersCode 256))).tdhsAuthRead
      (presentedFor (some (lettersCode 255))) = true ∧
    (unsetCodes.run (configuredOnce (lettersCode 256))).tdhsAuthRead
      (presentedFor (some (lettersCode 256))) = false := by
  have hstring : (unsetCodes.run (configuredOnce (lettersCode 256))).read.string =
      List.replicate 255 97 ++ [0] := by
    refine (AuthCode.string_reset_configure unsetCodes.read (some (lettersCode 256))).trans ?_
    change (List.replicate 256 97).take 255 ++ [0] = _
    rw [List.take_replicate]
    rfl
  have hlength : ∀ number ≤ 256,
      (presentedFor (some (lettersCode number))).length < 2 ^ 32 := by
    intro number hnumber
    change (List.replicate number (97 : UInt8) ++ [0]).length < 2 ^ 32
    rw [List.length_append, List.length_replicate, List.length_singleton]
    omega
  refine ⟨(auth_iff _ .read (hlength 255 (by decide))).mpr hstring.symm, ?_⟩
  refine Bool.eq_false_of_not_eq_true fun haccepted ↦ ?_
  have hsame := ((auth_iff _ .read (hlength 256 le_rfl)).mp haccepted).trans hstring
  have hlengths := congrArg List.length hsame
  change (List.replicate 256 (97 : UInt8) ++ [0]).length = _ at hlengths
  rw [List.length_append, List.length_append, List.length_replicate,
    List.length_replicate] at hlengths
  exact absurd hlengths (by decide)

end TdhSocket.Dispatch
