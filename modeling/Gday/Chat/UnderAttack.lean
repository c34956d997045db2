import Gday.Chat.CutStreams
import Gday.Encryption.PeerSession

/-! # Sessions on a hostile network

Both sides share a secret, and anyone may decide what arrives at each of them, from the nonce
on.  Under an ideal cipher an attacker can cut a session off, or give a side its own bytes
back, and nothing else: no file comes out different from what was offered and accepted, and
nobody reads a line that was not entered. -/
set_option autoImplicit false
namespace Gday.Chat

open Gday.Encryption Gday.Lib.AsyncStream Gday.Lib.Framing Gday.Lib.LexicalPath
open Gday.Lib.Machine Gday.Lib.Program Gday.Lib.SegmentedStream

/-- Two sides that share a secret, with what arrived at each of them, what their writers took,
what their readers handed out, and what they did with it. -/
structure Attacked (sides : Sides) (aead : StreamAead) (sharedSecret : Key)
    (nonces : Bool → Nonce) where
  wires : Bool → ByteStream
  sendings : Bool → Sending
  readings : Bool → Reading
  ended : Bool → Ended
  chats : Bool → ChatPeer
  writes : ∀ side, ∃ debug calls, runInputs (Sending.step aead debug) calls
    (Sending.start sharedSecret (nonces side)) = some (sendings side)
  reads : ∀ side, ∃ writer reader rest debug calls,
    establishPeerConnection sharedSecret (nonces side) (wires side) =
        .ok (writer, reader, rest) ∧
      runInputs (Reading.step aead debug) calls ⟨reader, rest, []⟩ = some (readings side)
  lives : ∀ side, ∃ handed : Segments, handed.flatten = (readings side).handed ∧
    Lives (sides.program side) handed (sendings side).accepted (ended side) (chats side)

namespace Attacked

variable {sides : Sides} {aead : StreamAead} {sharedSecret : Key} {nonces : Bool → Nonce}

/-- All that was sealed under the secret. -/
def logs (attacked : Attacked sides aead sharedSecret nonces) : SealedLogs :=
  twoWriters (nonces true) (attacked.sendings true).sealed (nonces false)
    (attacked.sendings false).sealed

end Attacked

def offerFrame : List UInt8 := [0, 0, 0, 6, 0, 1, 1, 1, 98, 2]

def arrives (side : Bool) : Segments := if side then [] else [offerFrame]

end Gday.Chat
