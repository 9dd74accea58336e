import LcmWire.Assembler.Event

/-!
# Counters

Counters add up, modulo `2 ^ 64`, what becomes of datagrams and messages. A tally lists a counter as
soon as something, be it zero, was added to it. Main statement: `total_add`.
-/

namespace LcmWire

/-- What is counted. -/
inductive Metric where
  /-- Datagrams that were read. -/
  | datagrams
  /-- Datagrams that were dropped. -/
  | dropped
  /-- Messages that were handed out. -/
  | assembled
  /-- Messages that have waited too long. -/
  | expired
  /-- Fragments that were refused. -/
  | failures
  deriving DecidableEq, Repr

/-- The name under which a metric is published. -/
def Metric.name : Metric → String
  | datagrams => "lcmframe_datagrams_total"
  | dropped => "lcmframe_datagrams_dropped_total"
  | assembled => "lcmframe_messages_assembled_total"
  | expired => "lcmframe_reassemblies_expired_total"
  | failures => "lcmframe_reassembly_failures_total"

/-- A metric, or that part of it which a label sets apart. -/
structure Counter where
  /-- What is counted. -/
  metric : Metric
  /-- The name and the value of the label. -/
  label : Option (String × String)
  deriving DecidableEq, Repr

namespace Counter

/-- Datagrams of a kind. -/
def datagrams : Kind → Counter
  | .short => ⟨.datagrams, some ("kind", "short")⟩
  | .fragmented => ⟨.datagrams, some ("kind", "fragment")⟩

/-- Datagrams that were dropped for a reason. -/
def dropped (reason : String) : Counter := ⟨.dropped, some ("reason", reason)⟩

/-- Messages that were handed out. -/
def assembled : Counter := ⟨.assembled, none⟩

/-- Messages that have waited too long. -/
def expired : Counter := ⟨.expired, none⟩

/-- Fragments that were refused for a reason. -/
def failures (reason : String) : Counter := ⟨.failures, some ("reason", reason)⟩

/-- Counters are told apart by what they count and by their labels. -/
theorem eq_iff {c d : Counter} : c = d ↔ c.metric = d.metric ∧ c.label = d.label := by
  cases c
  cases d
  simp only [mk.injEq]

@[simp] theorem metric_datagrams (kind : Kind) : (datagrams kind).metric = .datagrams := by
  cases kind <;> rfl

@[simp] theorem label_datagrams_inj {kind other : Kind} :
    (datagrams kind).label = (datagrams other).label ↔ kind = other := by
  cases kind <;> cases other <;> decide

@[simp] theorem metric_dropped (reason : String) : (dropped reason).metric = .dropped := rfl

@[simp] theorem label_dropped_inj {reason other : String} :
    (dropped reason).label = (dropped other).label ↔ reason = other := by simp [dropped]

@[simp] theorem metric_assembled : assembled.metric = .assembled := rfl

@[simp] theorem metric_expired : expired.metric = .expired := rfl

@[simp] theorem metric_failures (reason : String) : (failures reason).metric = .failures := rfl

@[simp] theorem label_failures_inj {reason other : String} :
    (failures reason).label = (failures other).label ↔ reason = other := by simp [failures]

/-- The name of a counter, with its label in braces. -/
def name (c : Counter) : String :=
  match c.label with
  | none => c.metric.name
  | some (key, value) => c.metric.name ++ "\x7b" ++ key ++ "=" ++ value ++ "\x7d"

end Counter

/-- The totals of the counters to which something was added, in the order of the first time. -/
structure Tally where
  /-- The counters with their totals. -/
  totals : List (Counter × UInt64)
  deriving DecidableEq, Repr

namespace Tally

/-- Nothing was added yet. -/
def empty : Tally := ⟨[]⟩

/-- Add to one total of a list. -/
def addTo (c : Counter) (n : UInt64) : List (Counter × UInt64) → List (Counter × UInt64)
  | [] => [(c, n)]
  | (d, m) :: rest => if c = d then (d, m + n) :: rest else (d, m) :: addTo c n rest

/-- Add to a counter. -/
def add (t : Tally) (c : Counter) (n : UInt64) : Tally := ⟨addTo c n t.totals⟩

/-- What was added to a counter, if anything was. -/
def total? (t : Tally) (c : Counter) : Option UInt64 := t.totals.lookup c

/-- What was added to a counter in all. -/
def total (t : Tally) (c : Counter) : UInt64 := (t.total? c).getD 0

private theorem lookup_addTo (c d : Counter) (n : UInt64) (totals : List (Counter × UInt64)) :
    (addTo c n totals).lookup d =
      if d = c then some ((totals.lookup d).getD 0 + n) else totals.lookup d := by
  have beq (x y : Counter) : (x == y) = decide (x = y) := rfl
  induction totals with
  | nil => by_cases h : d = c <;> simp [addTo, List.lookup_cons, beq, h]
  | cons e rest ih =>
    obtain ⟨b, m⟩ := e
    by_cases hb : c = b
    · by_cases hd : d = b <;> simp [addTo, List.lookup_cons, beq, hb, hd]
    · by_cases hd : d = b
      · simp [addTo, hb, hd, Ne.symm hb]
      · simpa [addTo, List.lookup_cons, beq, hb, hd] using ih

/-- Something was added to a counter once it was added to, were it zero. -/
theorem total?_add (t : Tally) (c d : Counter) (n : UInt64) :
    (t.add c n).total? d = if d = c then some (t.total d + n) else t.total? d :=
  lookup_addTo c d n t.totals

/-- Adding to a counter changes its own total only. -/
theorem total_add (t : Tally) (c d : Counter) (n : UInt64) :
    (t.add c n).total d = if d = c then t.total d + n else t.total d := by
  rw [total, total?_add]
  split <;> rfl

end Tally

/-- What an event adds to which counter. -/
def Event.count? : Event → Option (Counter × UInt64)
  | .dropped cause => some (.dropped cause.reason, 1)
  | .received kind => some (.datagrams kind, 1)
  | .expired sequences => some (.expired, UInt64.ofNat sequences.length)
  | .refused cause => some (.failures cause.reason, 1)
  | .assembled => some (.assembled, 1)
  | _ => none

namespace Tally

/-- Add what an event adds. -/
def count (t : Tally) (e : Event) : Tally :=
  match e.count? with
  | none => t
  | some (c, n) => t.add c n

/-- Add what events add, in order. -/
def countAll (t : Tally) (events : List Event) : Tally := events.foldl count t

end Tally

end LcmWire
