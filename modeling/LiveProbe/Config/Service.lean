import LiveProbe.Config.Codec

/-!
# Active configuration

The set of tracepoints in force, its replacement as a whole, and the
notification of listeners.

**Results.**
* `update_of_same`: an update with the active hash changes nothing.
-/

namespace LiveProbe

/-- A set of tracepoints with the hash it came under. -/
structure ConfigState where
  hash : String
  tracepoints : List Tracepoint
  /-- Time of the update; zero before the first. -/
  updatedNs : Nat
  deriving DecidableEq

/-- What a listener is told about an update. -/
structure ConfigChange where
  ts : Nat
  old : ConfigState
  new : ConfigState

/-- The active set and the listeners `κ` in the order of their registration. -/
structure ConfigService (κ : Type) where
  state : ConfigState
  listeners : List κ

namespace ConfigService

variable {κ : Type}

/-- No tracepoints, under the empty hash. -/
def empty : ConfigService κ := ⟨⟨"", [], 0⟩, []⟩

/-- Registers a listener. -/
def addListener (s : ConfigService κ) (listener : κ) : ConfigService κ :=
  { s with listeners := s.listeners ++ [listener] }

/-- The hash is another than the active one. -/
def isChanged (s : ConfigService κ) (hash : String) : Bool := s.state.hash != hash

/-- Replaces the set under a new hash. Returned is what the listeners are to be
told, in their order; nothing where the hash is the active one. -/
def update (s : ConfigService κ) (ts : Nat) (hash : String) (tracepoints : List Tracepoint) :
    ConfigService κ × Option ConfigChange :=
  if s.isChanged hash then
    let new : ConfigState := ⟨hash, tracepoints, ts⟩
    ({ s with state := new }, some ⟨ts, s.state, new⟩)
  else (s, none)

/-- Replaces the set under the fingerprint of its tracepoints. -/
def updateComputed (s : ConfigService κ) (ts : Nat) (tracepoints : List Tracepoint) :
    ConfigService κ × Option ConfigChange :=
  s.update ts (Tracepoint.fingerprint tracepoints) tracepoints

theorem update_of_same (s : ConfigService κ) (ts : Nat) (tracepoints : List Tracepoint) :
    s.update ts s.state.hash tracepoints = (s, none) := by
  simp [update, isChanged]

end ConfigService
end LiveProbe
