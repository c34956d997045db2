import Gday.HolePunch.Messages
import Gday.HolePunch.VerifyPeer

/-! # Connecting to the peer

The attempts of `connect_to_peer` and the streams that they share with the peer's.  Every
attempt verifies its streams one after the other; `select_ok` returns with the first that
succeeds and drops, and so closes, all the others. -/
set_option autoImplicit false
namespace Gday.HolePunch

structure PeerConnector where
  local_ : FullContact
  peer : FullContact
  isCreator : Bool
  deriving DecidableEq

/-- `try_accept` or `try_connect`. -/
inductive Attempt where
  | accept (localAddr : SocketAddr)
  | connect (localAddr peerAddr : SocketAddr)
  deriving DecidableEq

/-- The attempts over one family: none without a local address. -/
def familyAttempts (localAddr peerPrivate peerPublic : Option SocketAddr) : List Attempt :=
  match localAddr with
  | none => []
  | some addr => .accept addr :: (peerPrivate.toList ++ peerPublic.toList).map (.connect addr)

/-- The futures of `connect_to_peer`, in order. -/
def PeerConnector.attempts (connector : PeerConnector) : List Attempt :=
  familyAttempts (connector.local_.private_.v6.map .v6) (connector.peer.private_.v6.map .v6)
      (connector.peer.public_.v6.map .v6) ++
    familyAttempts (connector.local_.private_.v4.map .v4) (connector.peer.private_.v4.map .v4)
      (connector.peer.public_.v4.map .v4)

/-- Two attempts can share a stream unless both only accept. -/
def Attempt.meets : Attempt → Attempt → Bool
  | .accept _, .accept _ => false
  | _, _ => true

/-- Two peers that know each other's contacts, and the streams between them in the order in
which their attempts take them up.  `attempt` names, for the creator (true) and the joiner,
the attempt that has the stream. -/
structure Session where
  contact : Bool → FullContact
  streams : List (Bool → Nat)

namespace Session

def connector (session : Session) (isCreator : Bool) : PeerConnector :=
  ⟨session.contact isCreator, session.contact (!isCreator), isCreator⟩

/-- The attempts of the streams are there and can meet. -/
def Valid (session : Session) : Prop :=
  ∀ attempt ∈ session.streams, ∃ creator joiner,
    (session.connector true).attempts[attempt true]? = some creator ∧
      (session.connector false).attempts[attempt false]? = some joiner ∧
        creator.meets joiner = true

def attempt (session : Session) (isCreator : Bool) (stream : Nat) : Option Nat :=
  (session.streams[stream]?).map fun attempt => attempt isCreator

/-- No earlier stream has the same attempt. -/
def Head (session : Session) (isCreator : Bool) (stream : Nat) : Prop :=
  ∀ earlier, earlier < stream →
    session.attempt isCreator earlier ≠ session.attempt isCreator stream

/-- The first stream of its attempt at both ends. -/
def Front (session : Session) (stream : Nat) : Prop :=
  stream < session.streams.length ∧ ∀ isCreator, session.Head isCreator stream

end Session

section Peers

variable {Message Key Code : Type}

inductive Packet (Message Code : Type) where
  | message (message : Message)
  | code (code : Code)

/-- One end of a stream: its `verify_peer` and what is on the way to it. -/
structure StreamEnd (Message Key Code : Type) where
  verify : Verify Message Key
  inbox : List (Packet Message Code)

/-- Both peers: the ends of all streams, and the stream and key that were returned. -/
structure Peers (Message Key Code : Type) where
  ends : Bool → Nat → StreamEnd Message Key Code
  returned : Bool → Option (Nat × Key)

inductive PeersEvent where
  | begin (isCreator : Bool) (stream : Nat)
  | read (isCreator : Bool) (stream : Nat)
  | lose (isCreator : Bool) (stream : Nat)
  deriving DecidableEq

def Verify.isFailed : Verify Message Key → Bool
  | .failed _ => true
  | _ => false

namespace Peers

def initial : Peers Message Key Code := ⟨fun _ _ => ⟨.idle, []⟩, fun _ => none⟩

/-- One end changes and may write to the other one. -/
def move (peers : Peers Message Key Code) (isCreator : Bool) (stream : Nat)
    (end_ : StreamEnd Message Key Code) (written : Option (Packet Message Code)) :
    Peers Message Key Code :=
  { peers with
    ends := fun role other =>
      if other = stream then
        if role = isCreator then end_
        else { peers.ends role other with
          inbox := (peers.ends role other).inbox ++ written.toList }
      else peers.ends role other }

/-- The attempt has failed with every stream that came before this one. -/
def free (session : Session) (peers : Peers Message Key Code) (isCreator : Bool) (stream : Nat) :
    Bool :=
  (List.range stream).all fun earlier =>
    session.attempt isCreator earlier != session.attempt isCreator stream ||
      (peers.ends isCreator earlier).verify.isFailed

/-- The end was dropped: its `verify_peer` failed, or the peer returned another stream. -/
def closed (peers : Peers Message Key Code) (isCreator : Bool) (stream : Nat) : Bool :=
  (peers.ends isCreator stream).verify.isFailed ||
    (peers.returned isCreator).any fun result => result.1 != stream

variable [DecidableEq Code]

/-- Nothing happens at a peer that has returned.  Reading fails, or writing, where the other
end is closed. -/
def step (primitives : Primitives (Bool × Nat) Message Key Code) (session : Session)
    (peers : Peers Message Key Code) : PeersEvent → Option (Peers Message Key Code)
  | .begin isCreator stream =>
      match peers.returned isCreator, (peers.ends isCreator stream).verify with
      | none, .idle =>
          if stream < session.streams.length && peers.free session isCreator stream then
            some (peers.move isCreator stream
              ⟨.greeted, (peers.ends isCreator stream).inbox⟩
              (some (.message (primitives.outbound (isCreator, stream)))))
          else none
      | _, _ => none
  | .read isCreator stream =>
      match peers.returned isCreator, peers.ends isCreator stream with
      | none, ⟨.greeted, .message message :: rest⟩ =>
          let (verify, code) := receiveMessage primitives (isCreator, stream) isCreator message
          some (peers.move isCreator stream ⟨verify, rest⟩ (code.map .code))
      | none, ⟨.keyed inbound key, .code code :: rest⟩ =>
          let verify := receiveCode primitives isCreator inbound key code
          let next := peers.move isCreator stream ⟨verify, rest⟩ none
          match verify with
          | .accepted _ key =>
              some { next with
                returned := Function.update peers.returned isCreator (some (stream, key)) }
          | _ => some next
      | _, _ => none
  | .lose isCreator stream =>
      if peers.closed (!isCreator) stream then
        match peers.returned isCreator, peers.ends isCreator stream with
        | none, ⟨.greeted, inbox⟩ => some (peers.move isCreator stream ⟨.failed none, inbox⟩ none)
        | none, ⟨.keyed inbound key, inbox⟩ =>
            some (peers.move isCreator stream ⟨.failed (some (inbound, key)), inbox⟩ none)
        | _, _ => none
      else none

end Peers

end Peers

end Gday.HolePunch
