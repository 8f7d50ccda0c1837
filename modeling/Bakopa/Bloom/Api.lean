import Bakopa.Bloom.Id

/-!
# Bakopa.Bloom.Api

The signaling protocol of `bloom/api`: what clients ask, what the server tells them, and the error
codes.

The JSON form is derived by serde. `serde_json::from_str::<ClientToServer>` is a parameter
(`BloomJson`): the handler only asks whether a text is a request, and which.
-/

namespace Bakopa
namespace Bloom

inductive ErrorCode where
  | roomFull
  | roomNotFound
  | invalidPayload
  | participantNotFound
  | rateLimited
  | internal
deriving DecidableEq, Repr

structure RelaySdp where
  sdp : String
deriving DecidableEq, Repr

structure RelayIce where
  candidate : String
deriving DecidableEq, Repr

inductive ClientToServer where
  | createRoom
  | joinRoom (roomId : String)
  | leaveRoom
  | offer (target : String) (payload : RelaySdp)
  | answer (target : String) (payload : RelaySdp)
  | iceCandidate (target : String) (payload : RelayIce)
deriving DecidableEq, Repr

inductive ServerToClient where
  | roomCreated (roomId selfId : String)
  | roomParticipants (roomId : String) (participants : List String)
  | peerConnected (participantId : String)
  | peerDisconnected (participantId : String)
  | offer (fromId : String) (payload : RelaySdp)
  | answer (fromId : String) (payload : RelaySdp)
  | iceCandidate (fromId : String) (payload : RelayIce)
  | error (code : ErrorCode) (message : String)
deriving DecidableEq, Repr

/-- `serde_json::from_str::<ClientToServer>`, with its error dropped as the handler does. -/
class BloomJson where
  clientFromStr : String → Option ClientToServer

end Bloom
end Bakopa
