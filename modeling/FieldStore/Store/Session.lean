/-
Several programs side by side.

Each program has a memory of its own.  What they share is the source of identities: an identity
drawn by one is never drawn by another.  A field carries no mark of the program that declared
it, so it can be used with any of them, and then stands for that program's tree of the same
position.
-/
import FieldStore.Store.Host

namespace FieldStore

/-- Programs with their memories, and the next identity. -/
structure Session where
  programs : List (Program × HostMemory)
  nextId : Nat
  deriving DecidableEq

namespace Session

variable {α ε : Type}

/-- Programs without fields, one for each limit. -/
def start (limits : List (Option Nat)) : Session :=
  ⟨limits.map fun limit => (Program.empty, HostMemory.empty limit), 0⟩

/-- One program of the session as a host of its own. -/
def host? (session : Session) (index : Nat) : Option Host := do
  let (program, memory) ← session.programs[index]?
  return ⟨program, memory, session.nextId, []⟩

/-- The session with one program as a host has left it. -/
def update (session : Session) (index : Nat) (host : Host) : Session :=
  ⟨session.programs.set index (host.program, host.memory), host.nextId⟩

/-- Runs a computation on one program.  Yields how it ended, the events that it recorded and the
session after it; there is none if the session has no such program. -/
def run (session : Session) (index : Nat) (action : HostM ε α) :
    Option (Outcome ε α × List Event × Session) := do
  let host ← session.host? index
  let (result, host) := (ExceptT.run action).run host
  return (result, host.log, session.update index host)

end Session

end FieldStore
