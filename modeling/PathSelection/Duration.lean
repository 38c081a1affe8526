import PathSelection.Number.Numeral

/-!
# Durations

Spans of time in milliseconds, and the two ways in which messages show them.
-/

namespace PathSelection

/-- A span of time. -/
structure Duration where
  milliseconds : Nat
  deriving DecidableEq, Repr

namespace Duration

/-- A number of seconds. -/
def ofSeconds (n : Nat) : Duration := ⟨1000 * n⟩

/-- The number of seconds, whole ones and the rest added. -/
def seconds (d : Duration) : Float :=
  Float.ofNat (d.milliseconds / 1000)
    + Float.ofNat (d.milliseconds % 1000 * 1000000) / Float.ofNat 1000000000

/-- The number of seconds in a message. -/
def secondsText (d : Duration) : String := floatText d.seconds

/-- A span of time with its unit: seconds, if there is one, or milliseconds. -/
def text (d : Duration) : String :=
  if 1000 ≤ d.milliseconds then
    let digitsBehind := (digitsPadded 3 (d.milliseconds % 1000)).reverse.dropWhile (· == Digit.zero)
    natText (d.milliseconds / 1000)
      ++ (if digitsBehind.isEmpty then "" else "." ++ digitText digitsBehind.reverse) ++ "s"
  else if d.milliseconds = 0 then "0ns"
  else natText d.milliseconds ++ "ms"

end Duration

end PathSelection
