import LcmWire.Assembler.Event

/-!
# Log lines

Most events leave a line in the log; datagrams that are read and messages that are handed out do
not.
-/

namespace LcmWire

/-- How much a log line matters. -/
inductive Level where
  /-- Of interest when traffic is looked into. -/
  | debug
  /-- Of interest at any time. -/
  | warn
  deriving DecidableEq, Repr

/-- The name of a level. -/
def Level.name : Level → String
  | debug => "debug"
  | warn => "warn"

/-- A line of the log. -/
structure LogLine where
  /-- How much it matters. -/
  level : Level
  /-- What it says. -/
  text : String
  deriving DecidableEq, Repr

namespace LogLine

/-- The line about messages that have waited too long. -/
def expired (sequences : List SequenceNumber) : LogLine where
  level := .debug
  text :=
    let names := sequences.map fun s => s!"SequenceNumber({s})"
    s!"purged expired reassemblies: count={sequences.length}, sequences=[" ++
      ", ".intercalate names ++ "]"

/-- The line about a fragment that is refused. -/
def refused (cause : Refusal) : LogLine :=
  match cause with
  | .full _ => ⟨.debug, "rejecting fragment: " ++ cause.message⟩
  | .oversized .. => ⟨.debug, "discarding partial message: " ++ cause.message⟩
  | .unreadable .. => ⟨.warn, "dropping reassembled message: " ++ cause.message⟩

end LogLine

/-- The line that an event leaves in the log. -/
def Event.logLine? : Event → Option LogLine
  | .dropped cause => some ⟨.debug, "dropping datagram: " ++ cause.message⟩
  | .received _ => none
  | .expired sequences => some (.expired sequences)
  | .totalMismatch sequence expected found =>
    some ⟨.debug, s!"fragment count mismatch: sequence={sequence}, " ++
      s!"expected={expected}, found={found}"⟩
  | .replaced sequence index =>
    some ⟨.debug, s!"replaced duplicate fragment: sequence={sequence}, " ++ s!"index={index}"⟩
  | .lastBeforeRest sequence arrived expected =>
    some ⟨.debug, s!"last fragment arrived before the rest: sequence={sequence}, " ++
      s!"received={arrived}, expected={expected}"⟩
  | .refused cause => some (.refused cause)
  | .assembled => none

/-- The lines that events leave in the log, in order. -/
def logLines (events : List Event) : List LogLine := events.filterMap Event.logLine?

end LcmWire
