import Skittermouse.Core.EventTypes

namespace Skittermouse.Core

/-- The coordinator election: a function of the priority list and the online set. -/
structure ServerElection where
  priority : List PeerId
  online : List PeerId
deriving DecidableEq

namespace ServerElection

def init : ServerElection := ⟨[], []⟩

def setPriority (election : ServerElection) (priority : List PeerId) : ServerElection :=
  { election with priority }

def addToPriority (election : ServerElection) (id : PeerId) : ServerElection :=
  if id ∈ election.priority then election
  else { election with priority := election.priority ++ [id] }

def setOnline (election : ServerElection) (online : List PeerId) : ServerElection :=
  { election with online }

def currentServer (election : ServerElection) : Option PeerId :=
  election.priority.find? fun id => decide (id ∈ election.online)

end ServerElection

end Skittermouse.Core
