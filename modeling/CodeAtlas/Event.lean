/-!
# Events

What a run tells while it goes on. Every handler hears every event, in the order in which the handlers
were registered. A handler that fails on an event is passed over and keeps no other from hearing it.
-/

set_option autoImplicit false

namespace CodeAtlas

/-- The kinds of events. -/
inductive EventKind where
  | scanStarted
  | scanComplete
  | unitSkipped
  | parseDegraded
  | ingestionComplete
deriving DecidableEq, Repr, Inhabited

namespace EventKind

def all : List EventKind :=
  [scanStarted, scanComplete, unitSkipped, parseDegraded, ingestionComplete]

def name : EventKind → String
  | scanStarted => "scan_started"
  | scanComplete => "scan_complete"
  | unitSkipped => "unit_skipped"
  | parseDegraded => "parse_degraded"
  | ingestionComplete => "ingestion_complete"

def ofName? (text : String) : Option EventKind := all.find? (·.name == text)

end EventKind

/-- Something that happened in a run. -/
inductive Event where
  | scanStarted (root : String)
  | scanComplete (units skipped : Nat)
  | unitSkipped (path reason : String)
  | parseDegraded (unit reason : String)
  | ingestionComplete (generation nodes edges removed unresolved : Nat)
deriving DecidableEq, Repr

namespace Event

def kind : Event → EventKind
  | scanStarted _ => .scanStarted
  | scanComplete .. => .scanComplete
  | unitSkipped .. => .unitSkipped
  | parseDegraded .. => .parseDegraded
  | ingestionComplete .. => .ingestionComplete

end Event

/-- What a handler does with an event. -/
inductive Reaction where
  | ignores
  | fails
  /-- Notes the event, and may cancel the run that it belongs to. -/
  | notes (cancels : Bool)
deriving DecidableEq, Repr

/-- A handler: its name and its reaction to each kind of event. -/
structure Handler where
  name : String
  reaction : EventKind → Reaction

namespace Handler

/-- A handler that notes everything. -/
def recorder (name : String) : Handler := ⟨name, fun _ => .notes false⟩

/-- A handler that does nothing. -/
def silent (name : String) : Handler := ⟨name, fun _ => .ignores⟩

/-- The same handler, failing on one kind of event. -/
def failingOn (kind : EventKind) (h : Handler) : Handler :=
  { h with reaction := fun k => if k = kind then .fails else h.reaction k }

/-- The same handler, cancelling the run when it notes one kind of event. -/
def cancellingOn (kind : EventKind) (h : Handler) : Handler :=
  { h with reaction := fun k => if k = kind ∧ h.reaction k = .notes false then .notes true
                                else h.reaction k }

def isNoting (h : Handler) (event : Event) : Bool :=
  match h.reaction event.kind with
  | .notes _ => true
  | _ => false

def isCancelling (h : Handler) (event : Event) : Bool := h.reaction event.kind = .notes true

end Handler

/-- The names of the handlers that note an event, in order. -/
def Event.notedBy (event : Event) (handlers : List Handler) : List String :=
  (handlers.filter (·.isNoting event)).map (·.name)

/-- Whether a handler cancels the run on an event. -/
def Event.cancelledBy (event : Event) (handlers : List Handler) : Bool :=
  handlers.any (·.isCancelling event)

end CodeAtlas
