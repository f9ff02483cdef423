import MemSandbox.Lib.Text

/-! # Identifiers

    A UUID is its 128-bit value, and no identifier is the nil UUID. -/

open Python

/-- `str` of a UUID. -/
def uuidText (value : Nat) : Text :=
  let hex := ((Nat.toDigits 16 value).leftpad 32 '0').map CodePoint.ofChar
  hex.take 8 ++ py "-" ++ (hex.drop 8).take 4 ++ py "-" ++ (hex.drop 12).take 4 ++ py "-" ++
    (hex.drop 16).take 4 ++ py "-" ++ hex.drop 20

/-- `SessionId`. -/
structure SessionId where
  value : Nat
  ne_nil : value ≠ 0
  deriving DecidableEq

/-- `SnapshotId`. -/
structure SnapshotId where
  value : Nat
  ne_nil : value ≠ 0
  deriving DecidableEq
