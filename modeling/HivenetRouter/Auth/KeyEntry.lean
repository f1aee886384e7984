import HivenetRouter.Framework.Go
import HivenetRouter.Framework.Utf8
import Mathlib.Data.String.Basic

/-!
# API key entries

`DynamicKeyEntry`, the record of one API key, and what `normalizeAndValidateKeyEntry` accepts.
An id comes from the path of a URL and can be any bytes; the other texts come from a JSON body
and are text. A float is the rational number that it stands for. An instant is a number of
nanoseconds since the Unix epoch, and an expiry is the instant of an RFC 3339 timestamp, which
has a local date and an offset: the year of the date has four digits, the year in UTC can be
one more or one less.

Validation is idempotent (`normalizeAndValidateKeyEntry_idem`): what it has accepted once, it
accepts again and leaves as it is.
-/

namespace HivenetRouter.Auth

/-! ### Instants -/

/-- `time.Time` in UTC: nanoseconds since the Unix epoch. -/
abbrev Time := ℤ

/-- The days of the years before `year`, from the year 0. -/
def daysBeforeYear (year : ℕ) : ℕ :=
  365 * year + (year + 3) / 4 - (year + 99) / 100 + (year + 399) / 400

def isLeap (year : ℕ) : Bool := year % 4 = 0 && (year % 100 ≠ 0 || year % 400 = 0)

def daysIn (year month : ℕ) : ℕ :=
  if month = 2 then if isLeap year then 29 else 28
  else if month ∈ [4, 6, 9, 11] then 30 else 31

def daysBeforeMonth (year month : ℕ) : ℕ := ((List.range' 1 (month - 1)).map (daysIn year)).sum

def startOfYear (year : ℕ) : Time := (daysBeforeYear year - daysBeforeYear 1970) * 86400 * 10 ^ 9

/-- The year in UTC is between 0 and 9999, as `Time.MarshalJSON` requires. -/
def HasFourDigitYear (t : Time) : Prop := startOfYear 0 ≤ t ∧ t < startOfYear 10000

instance (t : Time) : Decidable (HasFourDigitYear t) := inferInstanceAs (Decidable (_ ∧ _))

/-- A reading of the clock. -/
abbrev Stamp := { t : Time // HasFourDigitYear t }

/-- The fields of an RFC 3339 timestamp; the offset is in minutes. -/
structure Timestamp where
  year : ℕ
  month : ℕ
  day : ℕ
  hour : ℕ
  minute : ℕ
  second : ℕ
  nanosecond : ℕ
  offset : ℤ

/-- The ranges that `time.Parse` checks; it lets an offset be up to 24 hours and 60 minutes. -/
def Timestamp.InRange (ts : Timestamp) : Prop :=
  ts.year ≤ 9999 ∧ (1 ≤ ts.month ∧ ts.month ≤ 12) ∧
    (1 ≤ ts.day ∧ ts.day ≤ daysIn ts.year ts.month) ∧ ts.hour < 24 ∧ ts.minute < 60 ∧
    ts.second < 60 ∧ ts.nanosecond < 10 ^ 9 ∧ -1500 ≤ ts.offset ∧ ts.offset ≤ 1500

instance (ts : Timestamp) : Decidable ts.InRange := by
  unfold Timestamp.InRange
  infer_instance

def Timestamp.instant (ts : Timestamp) : Time :=
  startOfYear ts.year +
    (((daysBeforeMonth ts.year ts.month + ts.day - 1) * 24 + ts.hour) * 3600 +
      (ts.minute - ts.offset) * 60 + ts.second) * 10 ^ 9 + ts.nanosecond

/-- `ParseExpiresAtRFC3339`; without a text there is no expiry. -/
def parseExpiresAtRFC3339 : Option Timestamp → Except Unit (Option Time)
  | none => .ok none
  | some ts => if ts.InRange then .ok (some ts.instant) else .error ()

/-! ### Entries -/

structure PerModelQuotaLimits where
  requestsPerMinutePerReplica : ℤ
  tokensPerDay : ℤ
  deriving DecidableEq

structure QuotaLimits where
  requestsPerMinute : ℤ
  tokensPerDay : ℤ
  inputTokensPerMinute : ℤ
  outputTokensPerMinute : ℤ
  maxOccupancyShare : ℚ
  /-- `none` is the `nil` map. -/
  perModel : Option (GoMap String PerModelQuotaLimits)
  deriving DecidableEq

structure DynamicKeyEntry where
  id : GoString
  keyHash : String
  keyPreview : String
  owner : String
  name : String
  enabled : Bool
  expiresAt : Option Time
  /-- `none` is the `nil` slice. -/
  allowedModels : Option (List String)
  quota : QuotaLimits
  deriving DecidableEq

inductive KeyEntryError where
  /-- "id must not be empty". -/
  | emptyID
  /-- "key_hash must not be empty". -/
  | emptyHash (id : GoString)
  /-- "key_hash must be 64 hex characters (SHA-256), got %d". -/
  | hashLength (id : GoString) (got : ℕ)
  /-- "key_hash contains non-hex character %q". -/
  | nonHex (id : GoString) (c : Char)
  /-- "owner must not be empty". -/
  | emptyOwner (id : GoString)
  /-- "name must not be empty". -/
  | emptyName (id : GoString)
  /-- "max_occupancy_share must be in (0, 1] (0 means unset), got %v". -/
  | occupancyShare (id : GoString) (got : ℚ)
  /-- "input_tokens_per_minute and output_tokens_per_minute must be >= 0". -/
  | negativeTokens (id : GoString)
  /-- "quota per_model must not be an empty object". -/
  | emptyPerModel (id : GoString)

/-- `strings.ToLower`, on what can still become a hash: a character outside ASCII has no
lower case among the hex digits and is refused either way. -/
def toLower (s : String) : String := String.ofList (s.toList.map Char.toLower)

def isLowerHex (c : Char) : Bool := '0' ≤ c && c ≤ '9' || 'a' ≤ c && c ≤ 'f'

/-- The checks of `normalizeAndValidateKeyEntry`, after the hash has been lowered. -/
def checkKeyEntry (e : DynamicKeyEntry) : Except KeyEntryError DynamicKeyEntry :=
  if e.keyHash.utf8ByteSize ≠ 64 then .error (.hashLength e.id e.keyHash.utf8ByteSize)
  else
    match e.keyHash.toList.find? fun c => !isLowerHex c with
    | some c => .error (.nonHex e.id c)
    | none =>
      if e.owner = "" then .error (.emptyOwner e.id)
      else if e.name = "" then .error (.emptyName e.id)
      else if e.quota.maxOccupancyShare < 0 || e.quota.maxOccupancyShare > 1 then
        .error (.occupancyShare e.id e.quota.maxOccupancyShare)
      else if e.quota.inputTokensPerMinute < 0 || e.quota.outputTokensPerMinute < 0 then
        .error (.negativeTokens e.id)
      else if e.quota.perModel = some ∅ then .error (.emptyPerModel e.id)
      else .ok e

def normalizeAndValidateKeyEntry (e : DynamicKeyEntry) : Except KeyEntryError DynamicKeyEntry :=
  if e.id = [] then .error .emptyID
  else if e.keyHash = "" then .error (.emptyHash e.id)
  else checkKeyEntry { e with keyHash := toLower e.keyHash }

def DynamicKeyEntry.expired (e : DynamicKeyEntry) (now : Time) : Bool :=
  match e.expiresAt with
  | some t => t ≤ now
  | none => false

/-! ### Validation -/

theorem toLower_of_isLowerHex {c : Char} (h : isLowerHex c = true) : c.toLower = c := by
  unfold isLowerHex at h
  simp only [Bool.or_eq_true, Bool.and_eq_true, decide_eq_true_eq, Char.le_def] at h
  unfold Char.toLower
  split
  · next hupper =>
    -- an upper-case letter is above the digits and below the lower-case letters
    exfalso
    simp only [ge_iff_le, UInt32.le_iff_toNat_le, Char.reduceVal, UInt32.reduceToNat] at h hupper
    omega
  · rfl

theorem toLower_of_lowerHex {s : String} (h : ∀ c ∈ s.toList, isLowerHex c = true) :
    toLower s = s := by
  have hid : s.toList.map Char.toLower = s.toList :=
    (List.map_congr_left fun c hc => toLower_of_isLowerHex (h c hc)).trans (List.map_id _)
  rw [toLower, hid, String.ofList_toList]

variable {e e' : DynamicKeyEntry}

/-- What the checks accept, they leave as it is. -/
theorem checkKeyEntry_ok (h : checkKeyEntry e = .ok e') :
    e' = e ∧ ∀ c ∈ e.keyHash.toList, isLowerHex c = true := by
  unfold checkKeyEntry at h
  split at h
  · cases h
  split at h
  · cases h
  next hfind =>
  have hhex : ∀ c ∈ e.keyHash.toList, isLowerHex c = true := by
    intro c hc
    simpa using List.find?_eq_none.mp hfind c hc
  split_ifs at h
  cases h
  exact ⟨rfl, hhex⟩

theorem normalizeAndValidateKeyEntry_ok (h : normalizeAndValidateKeyEntry e = .ok e') :
    e' = { e with keyHash := toLower e.keyHash } ∧ e'.id ≠ [] ∧ checkKeyEntry e' = .ok e' := by
  unfold normalizeAndValidateKeyEntry at h
  split_ifs at h with hid hhash
  obtain ⟨rfl, -⟩ := checkKeyEntry_ok h
  exact ⟨rfl, hid, h⟩

/-- **Validation is idempotent.** -/
theorem normalizeAndValidateKeyEntry_idem (h : normalizeAndValidateKeyEntry e = .ok e') :
    normalizeAndValidateKeyEntry e' = .ok e' := by
  obtain ⟨-, hid, hcheck⟩ := normalizeAndValidateKeyEntry_ok h
  have hlower : toLower e'.keyHash = e'.keyHash := toLower_of_lowerHex (checkKeyEntry_ok hcheck).2
  have hhash : e'.keyHash ≠ "" := by
    intro hempty
    unfold checkKeyEntry at hcheck
    rw [hempty] at hcheck
    cases hcheck
  unfold normalizeAndValidateKeyEntry
  rw [if_neg hid, if_neg hhash, hlower]
  exact hcheck

end HivenetRouter.Auth
