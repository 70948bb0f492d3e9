import Skittermouse.Core.EventTypes

namespace Skittermouse.Net

open Skittermouse.Data Skittermouse.Core

def encodePeerHello (self : PeerId) : Bytes :=
  [kProtocolVersion, MessageType.peerHello.code] ++ leBytes 4 self.length ++ self

def decodePeerHello : Bytes → Option PeerId
  | version :: type :: n0 :: n1 :: n2 :: n3 :: id =>
      if version ≠ kProtocolVersion then none
      else if type ≠ MessageType.peerHello.code then none
      else if id.length ≠ leValue [n0, n1, n2, n3] then none
      else some id
  | _ => none

theorem decodePeerHello_encode {self : PeerId} (short : self.length < 2 ^ 32) :
    decodePeerHello (encodePeerHello self) = some self := by
  have width : leValue (leBytes 4 self.length) = self.length :=
    leValue_leBytes_of_lt (by omega)
  have fields : ∃ n0 n1 n2 n3, leBytes 4 self.length = [n0, n1, n2, n3] := ⟨_, _, _, _, rfl⟩
  obtain ⟨n0, n1, n2, n3, bytes⟩ := fields
  rw [bytes] at width
  simp [encodePeerHello, bytes, decodePeerHello, width]

end Skittermouse.Net
