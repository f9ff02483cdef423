import Mathlib.Data.Rat.Defs
import MemSandbox.Core.Errors

/-! # Clocks

    An instant is a number of microseconds, a duration a rational number of
    seconds.  A clock is known by what its readings do when they are used. -/

/-- Date arithmetic: an instant and a number of seconds added, or `none` for
    an `OverflowError`. -/
class DateTimes where
  addSeconds : Int → ℚ → Option Int

/-- What `clock.now()` does. -/
inductive ClockReading where
  /-- It raises, or its result raises when it is asked for its offset. -/
  | raised (e : Raised)
  | offsetRaised (e : Raised)
  | notDatetime
  | naive
  | offset
  | utc (instant : Int)
