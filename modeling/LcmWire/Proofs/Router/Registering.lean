import LcmWire.Router
import LcmWire.Table.Lemmas

/-!
# Registering handlers

A router is built by registering handlers one after the other; a handler that cannot be registered
leaves the router as it was. So the handler of a channel is the first one that was registered for it
(`get?_routes_ofRegistrations`) and the fallback is the latest one (`fallback_ofRegistrations`), and
what a router does with a message depends on these two only (`dispatch_congr`), so registrations for
other channels play no part for it (`dispatch_eq_of_filter`).
-/

namespace LcmWire

/-- A search passes over what it finds nothing in. -/
theorem findSome?_filter_of_none {α β : Type} {l : List α} {p : α → Bool} {f : α → Option β}
    (h : ∀ a, p a = false → f a = none) : (l.filter p).findSome? f = l.findSome? f := by
  have hf : (fun a => if p a then f a else none) = f := by
    funext a
    cases hp : p a with
    | true => rfl
    | false => exact (h a hp).symm
  rw [← List.head?_filterMap, List.filterMap_filter, hf, List.head?_filterMap]

/-- The registration of a handler. -/
inductive Registration (m : Type → Type) where
  /-- The handler of a channel. -/
  | route (channel : String) (handler : Handler m)
  /-- The handler of all channels that have none of their own. -/
  | fallback (handler : Handler m)

namespace Registration

variable {m : Type → Type}

/-- The handler that is registered for a channel. -/
def handlerFor? (channel : String) : Registration m → Option (Handler m)
  | route name handler => if name = channel then some handler else none
  | fallback _ => none

/-- The handler that is registered as fallback. -/
def fallback? : Registration m → Option (Handler m)
  | route .. => none
  | fallback handler => some handler

/-- The channel that a handler is registered for. A fallback has none. -/
def channel? : Registration m → Option String
  | route channel _ => some channel
  | fallback _ => none

theorem handlerFor?_eq_some_iff {g : Registration m} {channel : String} {handler : Handler m} :
    g.handlerFor? channel = some handler ↔ g = .route channel handler := by
  cases g with
  | fallback other => simp [handlerFor?]
  | route name other => simp [handlerFor?]

theorem handlerFor?_eq_none_iff {g : Registration m} {channel : String} :
    g.handlerFor? channel = none ↔ g.channel? ≠ some channel := by
  cases g with
  | fallback other => simp [handlerFor?, channel?]
  | route name other => simp [handlerFor?, channel?]

theorem fallback?_eq_some_iff {g : Registration m} {handler : Handler m} :
    g.fallback? = some handler ↔ g = .fallback handler := by
  cases g with
  | fallback other => simp [fallback?]
  | route name other => simp [fallback?]

theorem fallback?_eq_none_iff {g : Registration m} : g.fallback? = none ↔ g.channel? ≠ none := by
  cases g with
  | fallback other => simp [fallback?, channel?]
  | route name other => simp [fallback?, channel?]

/-- The handler is registered for a channel with a zero character in its name. -/
def namesZero : Registration m → Bool
  | route name _ => name.toList.contains '\x00'
  | fallback _ => false

/-- What is registered for no channel, or for one without a zero character in its name. -/
theorem not_namesZero {g : Registration m}
    (h : ∀ channel, g.channel? = some channel → '\x00' ∉ channel.toList) :
    (!g.namesZero) = true := by
  cases g with
  | fallback handler => rfl
  | route name handler => simpa [namesZero] using h name rfl

end Registration

namespace Router

variable {m : Type → Type}

/-- Register a handler. A router that refuses it is used on. -/
def enter (r : Router m) : Registration m → Router m
  | .route channel handler =>
    match r.register channel handler with
    | .ok next => next
    | .error _ => r
  | .fallback handler => r.setFallback handler

/-- The router with some handlers, registered in this order. -/
def ofRegistrations (registrations : List (Registration m)) : Router m :=
  registrations.foldl enter .empty

/-- The handler of a channel is taken unless the channel has one. -/
theorem enter_route (r : Router m) (channel : String) (handler : Handler m) :
    r.enter (.route channel handler) =
      if r.handles channel then r
      else { r with routes := r.routes.insert channel handler } := by
  cases h : r.handles channel <;> simp [enter, register, h]

/-- Which handler a channel has changes only if it has none. -/
theorem get?_routes_enter (r : Router m) (g : Registration m) (channel : String) :
    (r.enter g).routes.get? channel = (r.routes.get? channel).or (g.handlerFor? channel) := by
  cases g with
  | fallback handler => exact Option.or_none.symm
  | route name handler =>
    rw [enter_route, handles, Table.contains, Registration.handlerFor?]
    by_cases hn : name = channel
    · subst hn
      cases hr : r.routes.get? name with
      | some held => simp [hr]
      | none => simp
    · cases hr : r.routes.get? name with
      | some held => simp [hn]
      | none => simp [hn, Table.get?_insert, Ne.symm hn]

/-- A further fallback takes the place of the one before. -/
theorem fallback_enter (r : Router m) (g : Registration m) :
    (r.enter g).fallback = g.fallback?.or r.fallback := by
  cases g with
  | fallback handler => rfl
  | route name handler =>
    rw [enter_route]
    cases r.handles name <;> rfl

theorem get?_routes_foldl_enter (r : Router m) (registrations : List (Registration m))
    (channel : String) :
    (registrations.foldl enter r).routes.get? channel =
      (r.routes.get? channel).or (registrations.findSome? (·.handlerFor? channel)) := by
  induction registrations generalizing r with
  | nil => exact Option.or_none.symm
  | cons g rest ih =>
    rw [List.foldl_cons, ih, get?_routes_enter, Option.or_assoc, List.findSome?_cons]
    cases g.handlerFor? channel <;> rfl

theorem fallback_foldl_enter (r : Router m) (registrations : List (Registration m)) :
    (registrations.foldl enter r).fallback =
      (registrations.reverse.findSome? Registration.fallback?).or r.fallback := by
  induction registrations generalizing r with
  | nil => rfl
  | cons g rest ih =>
    rw [List.foldl_cons, ih, fallback_enter, List.reverse_cons, List.findSome?_append,
      Option.or_assoc, List.findSome?_singleton]

/-- The handler of a channel is the first one that was registered for it. -/
theorem get?_routes_ofRegistrations (registrations : List (Registration m)) (channel : String) :
    (ofRegistrations registrations).routes.get? channel =
      registrations.findSome? (·.handlerFor? channel) :=
  get?_routes_foldl_enter empty registrations channel

/-- The fallback is the latest one that was set. -/
theorem fallback_ofRegistrations (registrations : List (Registration m)) :
    (ofRegistrations registrations).fallback =
      registrations.reverse.findSome? Registration.fallback? :=
  (fallback_foldl_enter empty registrations).trans Option.or_none

variable [Monad m]

/-- A message is handed to the handler of its channel, and to no other one. -/
theorem dispatch_of_get? {r : Router m} {message : Message} {handler : Handler m}
    (h : r.routes.get? message.channel = some handler) :
    r.dispatch message = do
      handler message
      return .routed := by
  unfold dispatch
  rw [h]

/-- Routers with one handler for the channel of a message and one fallback treat it alike. -/
theorem dispatch_congr {r s : Router m} {message : Message}
    (hroute : r.routes.get? message.channel = s.routes.get? message.channel)
    (hfallback : r.fallback = s.fallback) : r.dispatch message = s.dispatch message := by
  unfold dispatch
  rw [hroute, hfallback]

/-- Only registrations for the channel of a message, and those of fallbacks, play a part for it. -/
theorem dispatch_eq_of_filter {registrations others : List (Registration m)} {message : Message}
    (hroute : registrations.filter (·.channel? = some message.channel) =
      others.filter (·.channel? = some message.channel))
    (hfallback : registrations.filter (·.channel? = none) = others.filter (·.channel? = none)) :
    (ofRegistrations registrations).dispatch message =
      (ofRegistrations others).dispatch message := by
  have hfirst (gs : List (Registration m)) :
      (gs.filter (·.channel? = some message.channel)).findSome? (·.handlerFor? message.channel) =
        gs.findSome? (·.handlerFor? message.channel) :=
    findSome?_filter_of_none fun g hg =>
      Registration.handlerFor?_eq_none_iff.mpr (of_decide_eq_false hg)
  have hlatest (gs : List (Registration m)) :
      (gs.filter (·.channel? = none)).reverse.findSome? Registration.fallback? =
        gs.reverse.findSome? Registration.fallback? := by
    rw [← List.filter_reverse]
    exact findSome?_filter_of_none fun g hg =>
      Registration.fallback?_eq_none_iff.mpr (of_decide_eq_false hg)
  apply dispatch_congr
  · rw [get?_routes_ofRegistrations, get?_routes_ofRegistrations, ← hfirst, hroute, hfirst]
  · rw [fallback_ofRegistrations, fallback_ofRegistrations, ← hlatest, hfallback, hlatest]

/-- Handlers of channels with a zero character in their names play no part for any other channel. -/
theorem dispatch_filter_namesZero (registrations : List (Registration m)) {message : Message}
    (h : '\x00' ∉ message.channel.toList) :
    (ofRegistrations (registrations.filter (!·.namesZero))).dispatch message =
      (ofRegistrations registrations).dispatch message := by
  have hfilter (key : Option String)
      (hkey : ∀ channel, key = some channel → '\x00' ∉ channel.toList) :
      (registrations.filter (!·.namesZero)).filter (·.channel? = key) =
        registrations.filter (·.channel? = key) := by
    rw [List.filter_filter]
    apply List.filter_congr
    intro g _
    by_cases hg : g.channel? = key
    · rw [Registration.not_namesZero (hg ▸ hkey), Bool.and_true]
    · rw [decide_eq_false hg, Bool.false_and]
  apply dispatch_eq_of_filter
  · apply hfilter
    rintro _ ⟨⟩
    exact h
  · apply hfilter
    rintro _ ⟨⟩

end Router

end LcmWire
