import MemSandbox.Core.Errors
import MemSandbox.Lib.Spans

/-! # Redaction of protected values

    `events/redaction.py`: every occurrence of a registered value in a text or
    in bytes is found, the occurrences that overlap are merged, and each of the
    merged spans is replaced by one marker.

    The functions on text and on bytes are the same function of lists, with
    another marker. -/

open Python

/-! ## Section 1: Registration -/

def REDACTION_TEXT : Text := py "[REDACTED]"
def REDACTION_BYTES : Bytes := ascii "[REDACTED]"

/-- The values that a constructor has registered, each of them once. -/
structure Registered where
  texts : List Text
  bytes : List Bytes
  texts_ne : ∀ value ∈ texts, value ≠ []
  bytes_ne : ∀ value ∈ bytes, value ≠ []

/-- `set.add`. -/
def setAdd {α : Type} [DecidableEq α] (x : α) (s : List α) : List α := if x ∈ s then s else s ++ [x]

@[simp] theorem mem_setAdd {α : Type} [DecidableEq α] {x y : α} {s : List α} :
    y ∈ setAdd x s ↔ y = x ∨ y ∈ s := by
  unfold setAdd
  split
  · next h =>
    constructor
    · exact .inr
    · rintro (rfl | hy)
      · exact h
      · exact hy
  · rw [List.mem_append, List.mem_singleton, or_comm]

theorem nodup_setAdd {α : Type} [DecidableEq α] {x : α} {s : List α} (h : s.Nodup) :
    (setAdd x s).Nodup := by
  unfold setAdd
  split
  · exact h
  · next hx =>
    refine List.nodup_append.mpr ⟨h, List.nodup_singleton x, ?_⟩
    intro a ha b hb hab
    rw [List.mem_singleton] at hb
    exact hx (hb ▸ hab ▸ ha)

namespace Registered

def empty : Registered := ⟨[], [], List.forall_mem_nil _, List.forall_mem_nil _⟩

/-- `text_registered.add(value)`. -/
def addText (value : Text) (h : value ≠ []) (R : Registered) : Registered where
  texts := setAdd value R.texts
  bytes := R.bytes
  texts_ne := by
    intro other hother
    rcases mem_setAdd.mp hother with rfl | hother
    · exact h
    · exact R.texts_ne other hother
  bytes_ne := R.bytes_ne

/-- `byte_registered.add(value)`. -/
def addBytes (value : Bytes) (h : value ≠ []) (R : Registered) : Registered where
  texts := R.texts
  bytes := setAdd value R.bytes
  texts_ne := R.texts_ne
  bytes_ne := by
    intro other hother
    rcases mem_setAdd.mp hother with rfl | hother
    · exact h
    · exact R.bytes_ne other hother

end Registered

theorem encodeUtf8_ne_nil {value : Text} {encoded : Bytes} (h : encodeUtf8 value = some encoded)
    (hne : value ≠ []) : encoded ≠ [] := by
  rintro rfl
  have hdecode := decodeUtf8_encodeUtf8 h
  exact hne (Option.some.inj hdecode).symm

theorem decodeUtf8_ne_nil {value : Bytes} {decoded : Text} (h : decodeUtf8 value = some decoded)
    (hne : value ≠ []) : decoded ≠ [] := by
  rintro rfl
  have cons_ne : ∀ {c : CodePoint} {rest : Option Text}, rest.map (c :: ·) ≠ some [] := by
    intro c rest
    cases rest <;> simp
  cases value with
  | nil => exact hne rfl
  | cons first rest =>
    rw [decodeUtf8.eq_def] at h
    dsimp only at h
    repeat' split at h
    all_goals first | exact cons_ne h | cases h

/-- One text value in the constructor's first loop. -/
def registerText (value : Text) (R : Registered) : Except PyError Registered :=
  if h : value = [] then raise .valueError (py "protected registrations must not be empty")
  else match he : encodeUtf8 value with
    | none => raise .unicodeEncodeError (py "surrogates not allowed")
    | some encoded => .ok ((R.addText value h).addBytes encoded (encodeUtf8_ne_nil he h))

/-- One byte value in the constructor's second loop. -/
def registerBytes (value : Bytes) (R : Registered) : Except PyError Registered :=
  if h : value = [] then raise .valueError (py "protected registrations must not be empty")
  else match hd : decodeUtf8 value with
    | none => .ok (R.addBytes value h)
    | some decoded => .ok ((R.addBytes value h).addText decoded (decodeUtf8_ne_nil hd h))

/-- `ProtectedValueRedactor`. -/
structure ProtectedValueRedactor where
  textValues : List Text
  byteValues : List Bytes
  text_ne : ∀ value ∈ textValues, value ≠ []
  byte_ne : ∀ value ∈ byteValues, value ≠ []

/-- `tuple(sorted(values, key=lambda item: (-len(item), item)))`. -/
def longestFirst {α : Type} [LinearOrder α] (values : List (List α)) : List (List α) :=
  sorted (fun item : List α => toLex (-(item.length : Int), item)) values

namespace ProtectedValueRedactor

/-- The tuples that the constructor leaves. -/
def ofRegistered (R : Registered) : ProtectedValueRedactor where
  textValues := longestFirst R.texts
  byteValues := longestFirst R.bytes
  text_ne value h := R.texts_ne value (mem_sorted.mp h)
  byte_ne value h := R.bytes_ne value (mem_sorted.mp h)

/-- `ProtectedValueRedactor(text_values=textValues, byte_values=byteValues)`. -/
def new (textValues : List Text) (byteValues : List Bytes) :
    Except PyError ProtectedValueRedactor := do
  let R ← textValues.foldlM (fun R value => registerText value R) .empty
  let R ← byteValues.foldlM (fun R value => registerBytes value R) R
  return ofRegistered R

end ProtectedValueRedactor

/-! ## Section 2: Matches -/

section Matches

variable {α : Type} [DecidableEq α]

/-- `value.find(candidate, start)`. -/
def find (candidate value : List α) (start : Nat) : Option Nat :=
  (List.range' start (value.length + 1 - start)).find? fun i => startsWith (value.drop i) candidate

/-- The loop over one candidate of `_text_match_spans` and `_byte_match_spans`.
    Every round starts later than the one before. -/
def matchesFrom (candidate value : List α) : Nat → Nat → List Span
  | 0, _ => []
  | fuel + 1, start =>
    match find candidate value start with
    | none => []
    | some i => (i, i + candidate.length) :: matchesFrom candidate value fuel (i + 1)

/-- `_text_match_spans` and `_byte_match_spans`. -/
def matchSpans (value : List α) (protecteds : List (List α)) : List Span :=
  protecteds.flatMap fun candidate => matchesFrom candidate value (value.length + 1) 0

/-- `value[s[0]:s[1]]`. -/
def slice (value : List α) (s : Span) : List α := (value.drop s.1).take (s.2 - s.1)

/-- The pieces that `_redact_text_spans` and `_redact_byte_spans` join, from the cursor on. -/
def redactFrom (marker value : List α) : Nat → List Span → List α
  | cursor, [] => value.drop cursor
  | cursor, u :: rest => slice value (cursor, u.1) ++ marker ++ redactFrom marker value u.2 rest

/-- `_redact_text_spans` and `_redact_byte_spans`. -/
def redactSpans (marker value : List α) (protecteds : List (List α)) : List α :=
  let spans := matchSpans value protecteds
  if spans = [] then value else redactFrom marker value 0 (Spans.merge spans)

end Matches

namespace ProtectedValueRedactor

/-- `redact_text`. -/
def redactText (redactor : ProtectedValueRedactor) (value : Text) : Text :=
  redactSpans REDACTION_TEXT value redactor.textValues

/-- `redact_bytes`. -/
def redactBytes (redactor : ProtectedValueRedactor) (value : Bytes) : Bytes :=
  redactSpans REDACTION_BYTES value redactor.byteValues

/-- `_OperationValueProtection.contains_protected_text`. -/
def containsProtectedText (redactor : ProtectedValueRedactor) (value : Text) : Bool :=
  redactor.redactText value != value

end ProtectedValueRedactor
