import EffectScript.Decimal.Layout
import EffectScript.Text.Column

/-!
# Phase timings

How long the phases of a run took, as text for people and as an object for
programs. Times are shown in milliseconds.
-/

namespace EffectScript

/-- The time spent in each phase of a run, in nanoseconds. -/
structure Timings where
  parse : Nat
  compile : Nat
  run : Nat
deriving DecidableEq

/-- The forms of a timing report. -/
inductive TimingsFormat where
  | human
  | json
deriving DecidableEq

namespace Timings

/-- The time of all phases together. -/
def total (timings : Timings) : Nat :=
  timings.parse + timings.compile + timings.run

/-- A time in milliseconds: the nanoseconds as a binary number, divided by a
million. -/
def milliseconds (nanoseconds : Nat) : Decimal.Binary :=
  (Decimal.Binary.ofFraction nanoseconds 1).divideBy 1000000

/-- The phases with their names and times. -/
def phases (timings : Timings) : List (String × Nat) :=
  [("parse", timings.parse), ("compile", timings.compile), ("run", timings.run),
    ("total", timings.total)]

/-- The line of a phase in the report for people. -/
def humanLine (phase : String × Nat) : String :=
  Text.padRight 8 (phase.1 ++ ":") ++ " " ++
    Text.padLeft 10 (Decimal.writeFixed 3 (milliseconds phase.2)) ++ "ms"

/-- The member of a phase in the report for programs. -/
def jsonMember (phase : String × Nat) : String :=
  "\"" ++ phase.1 ++ "_ms\":" ++ Decimal.Layout.report.write
    (milliseconds phase.2)

/-- The report in the given form. -/
def report (timings : Timings) : TimingsFormat → String
  | .human => "\n".intercalate (timings.phases.map humanLine)
  | .json => "\x7b" ++ ",".intercalate (timings.phases.map jsonMember) ++ "\x7d"

end Timings

end EffectScript
