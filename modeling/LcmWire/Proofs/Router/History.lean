import LcmWire.Proofs.Router.Registering

/-!
# What a history of registrations comes to

What a router answers can be read off the registrations it was built by, without the router: a
channel is refused exactly if an earlier handler of it was taken, and a message goes to the first
handler of its channel, else to the latest fallback, else to nobody (`Handling`). The main statement
is `registrations_decide`; it also says that registrations for different channels may change places.
-/

namespace LcmWire

namespace Registration

variable {m : Type → Type}

/-- The registrations for each channel come in one order in both lists, and so do the fallbacks. -/
def Rearranged (registrations others : List (Registration m)) : Prop :=
  ∀ key : Option String,
    registrations.filter (·.channel? = key) = others.filter (·.channel? = key)

end Registration

namespace Router

variable {m : Type → Type}

/-- A channel has no first handler exactly if no handler was registered for it. -/
theorem findSome?_handlerFor?_eq_none_iff {registrations : List (Registration m)}
    {channel : String} :
    registrations.findSome? (·.handlerFor? channel) = none ↔
      ∀ g ∈ registrations, g.channel? ≠ some channel := by
  simp only [List.findSome?_eq_none_iff, Registration.handlerFor?_eq_none_iff]

/-- The first handler of a channel stands behind registrations that are none for the channel. -/
theorem findSome?_handlerFor?_eq_some_iff {registrations : List (Registration m)}
    {channel : String} {handler : Handler m} :
    registrations.findSome? (·.handlerFor? channel) = some handler ↔
      ∃ before after, registrations = before ++ .route channel handler :: after ∧
        ∀ g ∈ before, g.channel? ≠ some channel := by
  simp only [List.findSome?_eq_some_iff, Registration.handlerFor?_eq_some_iff,
    Registration.handlerFor?_eq_none_iff]
  constructor
  · rintro ⟨before, g, after, rfl, rfl, hfirst⟩
    exact ⟨before, after, rfl, hfirst⟩
  · rintro ⟨before, after, rfl, hfirst⟩
    exact ⟨before, _, after, rfl, rfl, hfirst⟩

/-- There is no fallback exactly if none was registered. -/
theorem findSome?_reverse_fallback?_eq_none_iff {registrations : List (Registration m)} :
    registrations.reverse.findSome? Registration.fallback? = none ↔
      ∀ g ∈ registrations, g.channel? ≠ none := by
  simp only [List.findSome?_eq_none_iff, List.mem_reverse, Registration.fallback?_eq_none_iff]

/-- The latest fallback stands before registrations that are none of a fallback. -/
theorem findSome?_reverse_fallback?_eq_some_iff {registrations : List (Registration m)}
    {handler : Handler m} :
    registrations.reverse.findSome? Registration.fallback? = some handler ↔
      ∃ before after, registrations = before ++ .fallback handler :: after ∧
        ∀ g ∈ after, g.channel? ≠ none := by
  simp only [List.findSome?_eq_some_iff, Registration.fallback?_eq_some_iff,
    Registration.fallback?_eq_none_iff]
  constructor
  · rintro ⟨after, g, before, hsplit, rfl, hlatest⟩
    refine ⟨before.reverse, after.reverse, ?_, by simpa using hlatest⟩
    simpa using congrArg List.reverse hsplit
  · rintro ⟨before, after, rfl, hlatest⟩
    exact ⟨after.reverse, _, before.reverse, by simp, rfl, by simpa using hlatest⟩

theorem ofRegistrations_concat (registrations : List (Registration m)) (g : Registration m) :
    ofRegistrations (registrations ++ [g]) = (ofRegistrations registrations).enter g := by
  rw [ofRegistrations, List.foldl_append, ofRegistrations, List.foldl_cons, List.foldl_nil]

/-- A channel has a handler exactly if one was registered for it, taken or refused. -/
theorem handles_ofRegistrations (registrations : List (Registration m)) (channel : String) :
    (ofRegistrations registrations).handles channel = true ↔
      ∃ g ∈ registrations, g.channel? = some channel := by
  rw [handles, Table.contains, get?_routes_ofRegistrations, Option.isSome_iff_ne_none, ne_eq,
    findSome?_handlerFor?_eq_none_iff]
  simp only [ne_eq, Classical.not_forall, Classical.not_not, exists_prop]

/-- A handler of the channel was registered, and not refused. -/
def Taken (registrations : List (Registration m)) (channel : String) : Prop :=
  ∃ before handler after next, registrations = before ++ .route channel handler :: after ∧
    (ofRegistrations before).register channel handler = .ok next

/-- A handler is refused for the channel that has one, and for no other reason. -/
theorem register_eq_error_iff {r : Router m} {channel : String} {handler : Handler m}
    {cause : RouteError} :
    r.register channel handler = .error cause ↔
      cause = .duplicate channel ∧ r.handles channel = true := by
  unfold register
  cases r.handles channel with
  | true => simp [eq_comm]
  | false => simp

/-- A handler that is not refused is entered. -/
theorem register_eq_ok_iff {r next : Router m} {channel : String} {handler : Handler m} :
    r.register channel handler = .ok next ↔
      r.handles channel = false ∧ next = r.enter (.route channel handler) := by
  rw [enter_route]
  unfold register
  cases r.handles channel with
  | true => simp
  | false => simp [eq_comm]

/-- The first handler of a channel is taken, so a channel has a handler exactly if one was taken. -/
theorem handles_ofRegistrations_iff_taken (registrations : List (Registration m))
    (channel : String) :
    (ofRegistrations registrations).handles channel = true ↔ Taken registrations channel := by
  constructor
  · intro h
    obtain ⟨handler, hfirst⟩ := Option.isSome_iff_exists.mp h
    rw [get?_routes_ofRegistrations, findSome?_handlerFor?_eq_some_iff] at hfirst
    obtain ⟨before, after, hsplit, hbefore⟩ := hfirst
    have hfree : (ofRegistrations before).handles channel = false := by
      rw [← Bool.not_eq_true, handles_ofRegistrations]
      rintro ⟨g, hg, hchannel⟩
      exact hbefore g hg hchannel
    exact ⟨before, handler, after, _, hsplit, register_eq_ok_iff.mpr ⟨hfree, rfl⟩⟩
  · rintro ⟨before, handler, after, next, rfl, -⟩
    exact (handles_ofRegistrations _ channel).mpr ⟨.route channel handler, by simp, rfl⟩

section Dispatching

variable [Monad m]

/-- What becomes of a message after some registrations. What is done is an action of any kind, so
that a handler that acts twice, or beside another one, makes a different one. -/
inductive Handling (registrations : List (Registration m)) (message : Message) :
    m Dispatch → Prop where
  /-- The first handler of its channel takes it. -/
  | routed {before after : List (Registration m)} {handler : Handler m}
      (split : registrations = before ++ .route message.channel handler :: after)
      (first : ∀ g ∈ before, g.channel? ≠ some message.channel) :
      Handling registrations message do
        handler message
        return .routed
  /-- Its channel has no handler, and the latest fallback takes it. -/
  | fallback {before after : List (Registration m)} {handler : Handler m}
      (free : ∀ g ∈ registrations, g.channel? ≠ some message.channel)
      (split : registrations = before ++ .fallback handler :: after)
      (latest : ∀ g ∈ after, g.channel? ≠ none) :
      Handling registrations message do
        handler message
        return .fallback
  /-- Its channel has no handler, and there is no fallback. -/
  | unrouted (free : ∀ g ∈ registrations, g.channel? ≠ some message.channel)
      (none : ∀ g ∈ registrations, g.channel? ≠ none) :
      Handling registrations message (return .unrouted)

/-- What the registrations say becomes of a message is what the router does with it. -/
theorem handling_iff (registrations : List (Registration m)) (message : Message)
    (action : m Dispatch) :
    Handling registrations message action ↔
      action = (ofRegistrations registrations).dispatch message := by
  unfold dispatch
  rw [get?_routes_ofRegistrations, fallback_ofRegistrations]
  constructor
  · intro h
    cases h with
    | routed hsplit hfirst =>
      rw [findSome?_handlerFor?_eq_some_iff.mpr ⟨_, _, hsplit, hfirst⟩]
    | fallback hfree hsplit hlatest =>
      rw [findSome?_handlerFor?_eq_none_iff.mpr hfree,
        findSome?_reverse_fallback?_eq_some_iff.mpr ⟨_, _, hsplit, hlatest⟩]
    | unrouted hfree hnone =>
      rw [findSome?_handlerFor?_eq_none_iff.mpr hfree,
        findSome?_reverse_fallback?_eq_none_iff.mpr hnone]
  · rintro rfl
    split
    · rename_i handler _ hroute
      obtain ⟨before, after, hsplit, hfirst⟩ := findSome?_handlerFor?_eq_some_iff.mp hroute
      exact .routed hsplit hfirst
    · rename_i handler hroute hfallback
      obtain ⟨before, after, hsplit, hlatest⟩ :=
        findSome?_reverse_fallback?_eq_some_iff.mp hfallback
      exact .fallback (findSome?_handlerFor?_eq_none_iff.mp hroute) hsplit hlatest
    · rename_i hroute hfallback
      exact .unrouted (findSome?_handlerFor?_eq_none_iff.mp hroute)
        (findSome?_reverse_fallback?_eq_none_iff.mp hfallback)

/-- Registrations for different channels may change places, and fallbacks with them. -/
theorem dispatch_eq_of_rearranged {registrations others : List (Registration m)}
    (h : Registration.Rearranged registrations others) (message : Message) :
    (ofRegistrations registrations).dispatch message =
      (ofRegistrations others).dispatch message :=
  dispatch_eq_of_filter (h (some message.channel)) (h none)

/-- After any registrations, a further handler is refused exactly if its channel is named as the
cause and an earlier handler of the channel was taken; if it is not refused it is entered. The
channels that have a handler are those for which one was taken. Every message is handled as the
registrations say, and in the same way if those for different channels change places. -/
theorem registrations_decide (registrations : List (Registration m)) :
    let r := ofRegistrations registrations
    (∀ (channel : String) (handler : Handler m),
      (∀ cause, r.register channel handler = .error cause ↔
        cause = .duplicate channel ∧ Taken registrations channel) ∧
      (∀ next, r.register channel handler = .ok next ↔
        ¬ Taken registrations channel ∧
          next = ofRegistrations (registrations ++ [.route channel handler]))) ∧
    (∀ channel, r.handles channel = true ↔ Taken registrations channel) ∧
    (∀ message action, Handling registrations message action ↔ action = r.dispatch message) ∧
    ∀ others, Registration.Rearranged registrations others →
      ∀ message, (ofRegistrations others).dispatch message = r.dispatch message := by
  intro r
  have htaken := handles_ofRegistrations_iff_taken registrations
  refine ⟨fun channel handler => ⟨fun cause => ?_, fun next => ?_⟩, htaken,
    handling_iff registrations, fun others h message => (dispatch_eq_of_rearranged h message).symm⟩
  · rw [register_eq_error_iff, htaken]
  · rw [register_eq_ok_iff, ← Bool.not_eq_true, htaken, ofRegistrations_concat]

/-- A channel with two handlers and another one with one, between two fallbacks, in two orders. -/
theorem registrations_decide_moved :
    let note (text : String) : Handler (StateM (List String)) := fun _ => modify (text :: ·)
    let registrations : List (Registration (StateM (List String))) :=
      [.route "A" (note "first"), .fallback (note "former"), .route "A" (note "second"),
        .route "B" (note "other"), .fallback (note "latter")]
    let others : List (Registration (StateM (List String))) :=
      [.fallback (note "former"), .route "B" (note "other"), .route "A" (note "first"),
        .fallback (note "latter"), .route "A" (note "second")]
    let messageOn (channel : String) : Message := ⟨⟨⟨7, none, channel, true⟩, [], [1]⟩, 1⟩
    let r := ofRegistrations registrations
    Registration.Rearranged registrations others ∧
      r.register "A" (note "third") = .error (.duplicate "A") ∧
      r.handles "A" = true ∧
      (r.dispatch (messageOn "A")).run [] = (.routed, ["first"]) ∧
      (r.dispatch (messageOn "C")).run [] = (.fallback, ["latter"]) ∧
      (ofRegistrations others).dispatch (messageOn "A") = r.dispatch (messageOn "A") := by
  intro note registrations others messageOn r
  have hrearranged : Registration.Rearranged registrations others := by
    rintro (_ | name)
    · rfl
    · by_cases ha : "A" = name
      · subst ha
        rfl
      · by_cases hb : "B" = name
        · subst hb
          rfl
        · simp [registrations, others, Registration.channel?, ha, hb]
  obtain ⟨hregister, hhandles, hhandling, hothers⟩ := registrations_decide registrations
  have htaken : Taken registrations "A" :=
    ⟨[], note "first", registrations.tail, _, rfl, rfl⟩
  have hsplit : registrations = registrations.take 4 ++ [.fallback (note "latter")] := rfl
  have hfirst : Handling registrations (messageOn "A") _ :=
    .routed (List.nil_append registrations).symm (List.forall_mem_nil _)
  have hlatest : Handling registrations (messageOn "C") _ :=
    .fallback (by decide) hsplit (List.forall_mem_nil _)
  refine ⟨hrearranged, ?_, ?_, ?_, ?_, hothers others hrearranged _⟩
  · exact ((hregister "A" (note "third")).1 _).mpr ⟨rfl, htaken⟩
  · exact (hhandles "A").mpr htaken
  · rw [← (hhandling _ _).mp hfirst]
    rfl
  · rw [← (hhandling _ _).mp hlatest]
    rfl

end Dispatching

end Router

end LcmWire
