import LcmWire.Proofs.Assembler.Joining

/-!
# Runs of an assembler

A run is a list of calls, made one after the other. What a call brings is a datagram that was read,
or bytes that may be none; bytes that are no datagram leave no trace in the state
(`after_callBytes`). What holds of an assembly when its first fragment arrives and is kept by every
further one holds of all assemblies of a run (`holds_after`).
-/

namespace LcmWire

namespace Run

variable {σ κ ρ : Type} (step : σ → κ → σ × ρ)

/-- The state after some calls. -/
def after (s : σ) (calls : List κ) : σ := calls.foldl (fun s c => (step s c).1) s

/-- Some calls in order, each with the reply to it. -/
def trace (s : σ) : List κ → List (κ × ρ)
  | [] => []
  | c :: rest => (c, (step s c).2) :: trace (step s c).1 rest

/-- Some calls in order, each with the state in which it is made. -/
def visits (s : σ) : List κ → List (σ × κ)
  | [] => []
  | c :: rest => (s, c) :: visits (step s c).1 rest

/-- Some calls with their replies, the latest of which comes first. -/
def history (s : σ) (calls : List κ) : List (κ × ρ) := (trace step s calls).reverse

theorem after_append (s : σ) (before rest : List κ) :
    after step s (before ++ rest) = after step (after step s before) rest :=
  List.foldl_append

theorem after_concat (s : σ) (calls : List κ) (c : κ) :
    after step s (calls ++ [c]) = (step (after step s calls) c).1 :=
  after_append step s calls [c]

theorem trace_append (s : σ) (before rest : List κ) :
    trace step s (before ++ rest) =
      trace step s before ++ trace step (after step s before) rest := by
  induction before generalizing s with
  | nil => rfl
  | cons c before ih => exact congrArg _ (ih _)

theorem history_concat (s : σ) (calls : List κ) (c : κ) :
    history step s (calls ++ [c]) =
      (c, (step (after step s calls) c).2) :: history step s calls := by
  simp [history, trace_append, trace]

theorem visits_append (s : σ) (before rest : List κ) :
    visits step s (before ++ rest) =
      visits step s before ++ visits step (after step s before) rest := by
  induction before generalizing s with
  | nil => rfl
  | cons c before ih => exact congrArg _ (ih _)

theorem visits_concat (s : σ) (calls : List κ) (c : κ) :
    visits step s (calls ++ [c]) = visits step s calls ++ [(after step s calls, c)] :=
  visits_append step s calls [c]

/-- The state in which a call is made tells its reply. -/
theorem trace_eq_map_visits (s : σ) (calls : List κ) :
    trace step s calls = (visits step s calls).map fun v => (v.2, (step v.1 v.2).2) := by
  induction calls generalizing s with
  | nil => rfl
  | cons c calls ih => exact congrArg _ (ih _)

/-- The visits tell which calls were made. -/
theorem map_snd_visits (s : σ) (calls : List κ) : (visits step s calls).map Prod.snd = calls := by
  induction calls generalizing s with
  | nil => rfl
  | cons c calls ih => exact congrArg _ (ih _)

/-- Each reply in a trace is the one that its call got after the calls before it. -/
theorem exists_of_mem_trace {s : σ} {calls : List κ} {e : κ × ρ} (h : e ∈ trace step s calls) :
    ∃ before, e.2 = (step (after step s before) e.1).2 := by
  induction calls generalizing s with
  | nil => cases h
  | cons c calls ih =>
    rcases List.mem_cons.mp h with rfl | h
    · exact ⟨[], rfl⟩
    · obtain ⟨before, he⟩ := ih h
      exact ⟨c :: before, he⟩

/-- Calls that stand for others lead where those lead. -/
theorem after_map {ι : Type} (f : ι → κ) (s : σ) (calls : List ι) :
    after (fun s i => step s (f i)) s calls = after step s (calls.map f) := by
  rw [after, after, List.foldl_map]

/-- The history tells which calls were made. -/
theorem map_fst_reverse_history (s : σ) (calls : List κ) :
    (history step s calls).reverse.map Prod.fst = calls := by
  rw [history, List.reverse_reverse]
  induction calls generalizing s with
  | nil => rfl
  | cons c calls ih => exact congrArg _ (ih _)

/-- What holds at the start and is kept by each call holds after all calls. -/
theorem after_induction {P : σ → Prop} {s : σ} (start : P s)
    (next : ∀ s c, P s → P (step s c).1) (calls : List κ) : P (after step s calls) := by
  induction calls generalizing s with
  | nil => exact start
  | cons c calls ih => exact ih (next s c start)

end Run

/-- Bytes that are a datagram, with the datagram that they are. -/
structure Arrival where
  /-- The bytes as they arrived. -/
  wire : Bytes
  /-- What they say. -/
  datagram : Datagram
  /-- They say so. -/
  read : Datagram.ofBytes wire = .ok datagram

/-- Bytes as an arrival, if they are a datagram. -/
def Arrival.ofBytes? (wire : Bytes) : Option Arrival :=
  match h : Datagram.ofBytes wire with
  | .ok d => some ⟨wire, d, h⟩
  | .error _ => none

theorem Arrival.ofBytes?_of_ok {wire : Bytes} {d : Datagram} (h : Datagram.ofBytes wire = .ok d) :
    ofBytes? wire = some ⟨wire, d, h⟩ := by
  unfold ofBytes?
  split
  · rename_i e he
    obtain rfl : d = e := by simpa [h] using he
    rfl
  · rename_i cause he
    rw [h] at he
    cases he

theorem Arrival.ofBytes?_of_error {wire : Bytes} {cause : Malformed}
    (h : Datagram.ofBytes wire = .error cause) : ofBytes? wire = none := by
  unfold ofBytes?
  split
  · rename_i d hd
    rw [h] at hd
    cases hd
  · rfl

/-- A call of an assembler, at a time that need not be later than that of the call before. -/
inductive Call (α : Type) where
  /-- Something is taken in. -/
  | give (item : α) (now : Time)
  /-- What is over is forgotten. -/
  | sweep (now : Time)
  deriving DecidableEq, Repr

/-- What the caller of an assembler is told. -/
inductive Reply (ε : Type) where
  /-- What became of a thing that was given. -/
  | given (answer : Except ε (Option Message))
  /-- Which messages have waited too long. -/
  | swept (sequences : List SequenceNumber)

namespace Reply

/-- The message that is handed out. -/
def message? {ε : Type} : Reply ε → Option Message
  | given (.ok reply) => reply
  | _ => none

/-- Why what was given is no datagram. -/
def malformed? : Reply Rejection → Option Malformed
  | given (.error (.malformed cause)) => some cause
  | _ => none

/-- Why a fragment that was given is refused. -/
def refusal? : Reply Rejection → Option Refusal
  | given (.error (.refused cause)) => some cause
  | _ => none

end Reply

namespace Call

/-- When the call is made. -/
def now {α : Type} : Call α → Time
  | give _ now => now
  | sweep now => now

/-- A call with bytes as one with a datagram, if they are one. -/
def read? : Call Bytes → Option (Call Arrival)
  | give wire now => (Arrival.ofBytes? wire).map (give · now)
  | sweep now => some (sweep now)

end Call

namespace Assembler

/-- Make a call with a datagram that was read. -/
def call (a : Assembler) : Call Arrival → Assembler × Reply Refusal
  | .give x now => ((a.receive x.datagram now).state, .given (a.receive x.datagram now).answer)
  | .sweep now => ((a.sweep now).state, .swept (a.sweep now).answer)

/-- Make a call with bytes. -/
def callBytes (a : Assembler) : Call Bytes → Assembler × Reply Rejection
  | .give wire now => ((a.receiveBytes wire now).state, .given (a.receiveBytes wire now).answer)
  | .sweep now => ((a.sweep now).state, .swept (a.sweep now).answer)

/-- Bytes that are a datagram are taken in as that datagram. -/
theorem receiveBytes_of_ok {wire : Bytes} {d : Datagram} (h : Datagram.ofBytes wire = .ok d)
    (a : Assembler) (now : Time) :
    (a.receiveBytes wire now).state = (a.receive d now).state ∧
      (a.receiveBytes wire now).answer = (a.receive d now).answer.mapError .refused := by
  simp [receiveBytes, h]

/-- Bytes that are no datagram leave the assembler alone. -/
theorem receiveBytes_of_error {wire : Bytes} {cause : Malformed}
    (h : Datagram.ofBytes wire = .error cause) (a : Assembler) (now : Time) :
    (a.receiveBytes wire now).state = a ∧
      (a.receiveBytes wire now).answer = .error (.malformed cause) := by
  simp [receiveBytes, h]

/-- A call with bytes that are no datagram. -/
theorem callBytes_of_error {wire : Bytes} {cause : Malformed}
    (h : Datagram.ofBytes wire = .error cause) (a : Assembler) (now : Time) :
    a.callBytes (.give wire now) = (a, .given (.error (.malformed cause))) := by
  obtain ⟨hs, hans⟩ := receiveBytes_of_error h a now
  rw [callBytes, hs, hans]

/-- A call with bytes that are a datagram. -/
theorem callBytes_of_ok {wire : Bytes} {d : Datagram} (h : Datagram.ofBytes wire = .ok d)
    (a : Assembler) (now : Time) :
    a.callBytes (.give wire now) =
      ((a.receive d now).state, .given ((a.receive d now).answer.mapError .refused)) := by
  obtain ⟨hs, hans⟩ := receiveBytes_of_ok h a now
  rw [callBytes, hs, hans]

/-- Calls with bytes lead where those among them lead that bring a datagram. -/
theorem after_callBytes (a : Assembler) (calls : List (Call Bytes)) :
    Run.after callBytes a calls = Run.after call a (calls.filterMap Call.read?) := by
  induction calls generalizing a with
  | nil => rfl
  | cons c calls ih =>
    cases c with
    | sweep now => exact ih _
    | give wire now =>
      cases h : Datagram.ofBytes wire with
      | ok d =>
        have hs := (receiveBytes_of_ok h a now).1
        simp only [List.filterMap_cons, Call.read?, Arrival.ofBytes?_of_ok h, Option.map_some]
        exact (congrArg (Run.after callBytes · calls) hs).trans (ih _)
      | error cause =>
        have hs := (receiveBytes_of_error h a now).1
        simp only [List.filterMap_cons, Call.read?, Arrival.ofBytes?_of_error h, Option.map_none]
        exact (congrArg (Run.after callBytes · calls) hs).trans (ih _)

@[simp] theorem limits_callBytes (a : Assembler) (c : Call Bytes) :
    (a.callBytes c).1.limits = a.limits := by
  cases c with
  | sweep now => rfl
  | give wire now =>
    cases h : Datagram.ofBytes wire with
    | ok d =>
      rw [callBytes_of_ok h]
      exact limits_receive a d now
    | error cause => rw [callBytes_of_error h]

/-- No call changes what an assembler may hold. -/
@[simp] theorem limits_after (a : Assembler) (calls : List (Call Arrival)) :
    (Run.after call a calls).limits = a.limits := by
  refine Run.after_induction call (P := fun b => b.limits = a.limits) rfl ?_ calls
  intro b c hb
  cases c with
  | give x now => exact (limits_receive b x.datagram now).trans hb
  | sweep now => exact hb

theorem limits_after_callBytes (a : Assembler) (calls : List (Call Bytes)) :
    (Run.after callBytes a calls).limits = a.limits := by
  rw [after_callBytes, limits_after]

section Held

variable {P : SequenceNumber → Assembly → Prop}

/-- All assemblies that are held have a property. -/
def Holds (P : SequenceNumber → Assembly → Prop) (a : Assembler) : Prop :=
  ∀ sequence m, a.assemblies.get? sequence = some m → P sequence m

theorem Holds.found? {a : Assembler} (h : a.Holds P) {sequence : SequenceNumber} {now : Time}
    {m : Assembly} (hm : a.found? sequence now = some m) : P sequence m := by
  rw [found?_eq, Option.filter_eq_some_iff] at hm
  exact h sequence m hm.1

/-- A property that a fragment gives to the assembly that it starts or joins, and that completing
the assembly keeps, is kept by every call. -/
theorem Holds.receive {a : Assembler} (h : a.Holds P) (x : Arrival) (now : Time)
    (grow : ∀ place, x.datagram.header.place = some place → ∀ m,
      m = .start place.total now ∨ P x.datagram.header.sequence m →
        P x.datagram.header.sequence (m.add place.index x.datagram now))
    (complete : ∀ sequence m, P sequence m → P sequence { m with complete := true }) :
    (a.receive x.datagram now).state.Holds P := by
  intro sequence m hm
  by_cases hs : sequence = x.datagram.header.sequence
  · subst hs
    cases hp : x.datagram.header.place with
    | none =>
      rw [(receive_of_short hp).1] at hm
      exact h.found? hm
    | some place =>
      by_cases hr : a.HasRoom x.datagram.header.sequence now
      · have hgrown : P x.datagram.header.sequence ((a.joined x.datagram.header.sequence
            place.total now).add place.index x.datagram now) := by
          rcases a.joined_cases x.datagram.header.sequence place.total now with hf | hf
          · exact grow place hp _ (.inr (h.found? hf))
          · exact grow place hp _ (.inl hf)
        rw [(receive_of_hasRoom hp hr).1, get?_settle, if_pos rfl] at hm
        rcases Assembly.eq_of_kept_join hm with rfl | rfl
        · exact hgrown
        · exact complete _ _ hgrown
      · obtain ⟨limit, -, -, -, hstate, -⟩ := receive_of_not_hasRoom hp hr
        rw [hstate] at hm
        exact h.found? hm
  · rw [get?_receive_of_ne hs] at hm
    exact h.found? hm

/-- A property that every first fragment gives and every further one keeps is one of all assemblies
of a run. -/
theorem holds_after (limits : Limits)
    (grow : ∀ (x : Arrival) place, x.datagram.header.place = some place → ∀ m now,
      m = .start place.total now ∨ P x.datagram.header.sequence m →
        P x.datagram.header.sequence (m.add place.index x.datagram now))
    (complete : ∀ sequence m, P sequence m → P sequence { m with complete := true })
    (calls : List (Call Arrival)) : (Run.after call (.start limits) calls).Holds P := by
  refine Run.after_induction call ?_ ?_ calls
  · intro sequence m hm
    cases hm
  · intro a c ha
    cases c with
    | give x now => exact ha.receive x now (fun place hp m => grow x place hp m now) complete
    | sweep now => exact fun _ _ => ha.found?

end Held

end Assembler

end LcmWire
