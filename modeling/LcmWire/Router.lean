import LcmWire.Assembler.Basic
import LcmWire.Text.Quoted

/-!
# Routing by channel

A router hands a message to the handler of its channel, or to the fallback if the channel has none.
The first handler of a channel stays; the latest fallback counts.
-/

namespace LcmWire

/-- What is done with a message. -/
abbrev Handler (m : Type → Type) := Message → m Unit

/-- The handlers of channels. -/
structure Router (m : Type → Type) where
  /-- The handler of each channel that has one. -/
  routes : Table String (Handler m)
  /-- The handler of all other channels. -/
  fallback : Option (Handler m)

/-- What became of a message. -/
inductive Dispatch where
  /-- The handler of its channel took it. -/
  | routed
  /-- The fallback took it. -/
  | fallback
  /-- No handler took it. -/
  | unrouted
  deriving DecidableEq, Repr

/-- Why a handler cannot be registered. -/
inductive RouteError where
  /-- The channel has a handler. -/
  | duplicate (channel : String)
  deriving DecidableEq, Repr

/-- The cause in words. -/
def RouteError.message : RouteError → String
  | duplicate channel => "channel " ++ Quoted.quote channel ++ " already has a handler"

namespace Router

variable {m : Type → Type}

/-- A router without handlers. -/
def empty : Router m := ⟨.empty, none⟩

/-- The channel has a handler. -/
def handles (r : Router m) (channel : String) : Bool := r.routes.contains channel

/-- Register the handler of a channel that has none. -/
def register (r : Router m) (channel : String) (handler : Handler m) :
    Except RouteError (Router m) :=
  if r.handles channel then .error (.duplicate channel)
  else .ok { r with routes := r.routes.insert channel handler }

/-- Set the handler of all channels that have none of their own. -/
def setFallback (r : Router m) (handler : Handler m) : Router m :=
  { r with fallback := some handler }

/-- Hand a message to the handler it is for. -/
def dispatch [Monad m] (r : Router m) (message : Message) : m Dispatch :=
  match r.routes.get? message.channel, r.fallback with
  | some handler, _ => do
    handler message
    return .routed
  | none, some handler => do
    handler message
    return .fallback
  | none, none => return .unrouted

/-- The channels that have a handler, in ascending order of their code points. -/
def channels (r : Router m) : List String := r.routes.keys

/-- The text that shows some channels and whether there is a fallback. -/
def summary (channels : List String) (hasFallback : Bool) : List Char :=
  "ChannelRouter \x7b channels: [".toList ++
    List.intercalate [',', ' '] (channels.map fun c => Quoted.encode c.toList) ++
    "], fallback: ".toList ++ (if hasFallback then "true" else "false").toList ++ " \x7d".toList

/-- The text that shows a router. -/
def describe (r : Router m) : String :=
  String.ofList (summary r.channels r.fallback.isSome)

end Router

end LcmWire
