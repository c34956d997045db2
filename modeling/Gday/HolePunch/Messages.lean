import Gday.Lib.Postcard

/-! # The messages of the contact exchange

Addresses, contacts and the two message types, each with the codec that its serde
instance is.  An IPv6 address travels without its flow info and scope id: `zeroed` says
what arrives. -/
set_option autoImplicit false
namespace Gday.HolePunch

open Gday.Lib.Postcard

structure SocketAddrV4 where
  ip : Octets 4
  port : UInt16
  deriving DecidableEq

structure SocketAddrV6 where
  ip : Octets 16
  port : UInt16
  flowinfo : UInt32
  scopeId : UInt32
  deriving DecidableEq

inductive SocketAddr where
  | v4 (addr : SocketAddrV4)
  | v6 (addr : SocketAddrV6)
  deriving DecidableEq

structure Contact where
  v6 : Option SocketAddrV6
  v4 : Option SocketAddrV4
  deriving DecidableEq

/-- `private` and `public` are words of Lean. -/
structure FullContact where
  private_ : Contact
  public_ : Contact
  deriving DecidableEq

def Contact.default : Contact := ⟨none, none⟩

def FullContact.default : FullContact := ⟨.default, .default⟩

inductive ClientMessage where
  | createRoom
  | joinRoom (roomId : UInt32)
  | sendPrivateAddr (addr : Option SocketAddr)
  | doneSending
  deriving DecidableEq

inductive ServerMessage where
  | roomCreated (roomId : UInt32)
  | roomJoined
  | sharePeerContacts (clientContact peerContact : FullContact)
  | syntaxError
  | errorNoSuchRoomId
  deriving DecidableEq

/-! ## What arrives -/

def SocketAddrV6.zeroed (addr : SocketAddrV6) : SocketAddrV6 := ⟨addr.ip, addr.port, 0, 0⟩

def SocketAddr.zeroed : SocketAddr → SocketAddr
  | .v4 addr => .v4 addr
  | .v6 addr => .v6 addr.zeroed

def Contact.zeroed (contact : Contact) : Contact :=
  ⟨contact.v6.map SocketAddrV6.zeroed, contact.v4⟩

def FullContact.zeroed (contact : FullContact) : FullContact :=
  ⟨contact.private_.zeroed, contact.public_.zeroed⟩

def ClientMessage.zeroed : ClientMessage → ClientMessage
  | .sendPrivateAddr addr => .sendPrivateAddr (addr.map SocketAddr.zeroed)
  | message => message

def ServerMessage.zeroed : ServerMessage → ServerMessage
  | .sharePeerContacts client peer => .sharePeerContacts client.zeroed peer.zeroed
  | message => message

/-! ## Codecs -/

def socketAddrV4 : Codec SocketAddrV4 :=
  via (pair (octets 4) u16) (fun (ip, port) => ⟨ip, port⟩) fun addr => (addr.ip, addr.port)

def socketAddrV6 : Codec SocketAddrV6 :=
  via (pair (octets 16) u16) (fun (ip, port) => ⟨ip, port, 0, 0⟩) fun addr => (addr.ip, addr.port)

def SocketAddr.payload : Fin 2 → Type
  | 0 => SocketAddrV4
  | 1 => SocketAddrV6

def SocketAddr.payloadCodec : ∀ variant, Codec (SocketAddr.payload variant)
  | 0 => socketAddrV4
  | 1 => socketAddrV6

def socketAddr : Codec SocketAddr :=
  via (enumeration (by decide) SocketAddr.payloadCodec)
    (fun
      | ⟨0, addr⟩ => .v4 addr
      | ⟨1, addr⟩ => .v6 addr)
    fun
      | .v4 addr => ⟨0, addr⟩
      | .v6 addr => ⟨1, addr⟩

def contact : Codec Contact :=
  via (pair (option socketAddrV6) (option socketAddrV4)) (fun (v6, v4) => ⟨v6, v4⟩)
    fun value => (value.v6, value.v4)

def fullContact : Codec FullContact :=
  via (pair contact contact) (fun (private_, public_) => ⟨private_, public_⟩)
    fun value => (value.private_, value.public_)

def ClientMessage.payload : Fin 4 → Type
  | 0 => Unit
  | 1 => UInt32
  | 2 => Option SocketAddr
  | 3 => Unit

def ClientMessage.payloadCodec : ∀ variant, Codec (ClientMessage.payload variant)
  | 0 => unit
  | 1 => u32
  | 2 => option socketAddr
  | 3 => unit

def clientMessage : Codec ClientMessage :=
  via (enumeration (by decide) ClientMessage.payloadCodec)
    (fun
      | ⟨0, _⟩ => .createRoom
      | ⟨1, roomId⟩ => .joinRoom roomId
      | ⟨2, addr⟩ => .sendPrivateAddr addr
      | ⟨3, _⟩ => .doneSending)
    fun
      | .createRoom => ⟨0, ()⟩
      | .joinRoom roomId => ⟨1, roomId⟩
      | .sendPrivateAddr addr => ⟨2, addr⟩
      | .doneSending => ⟨3, ()⟩

def ServerMessage.payload : Fin 5 → Type
  | 0 => UInt32
  | 1 => Unit
  | 2 => FullContact × FullContact
  | 3 => Unit
  | 4 => Unit

def ServerMessage.payloadCodec : ∀ variant, Codec (ServerMessage.payload variant)
  | 0 => u32
  | 1 => unit
  | 2 => pair fullContact fullContact
  | 3 => unit
  | 4 => unit

def serverMessage : Codec ServerMessage :=
  via (enumeration (by decide) ServerMessage.payloadCodec)
    (fun
      | ⟨0, roomId⟩ => .roomCreated roomId
      | ⟨1, _⟩ => .roomJoined
      | ⟨2, contacts⟩ => .sharePeerContacts contacts.1 contacts.2
      | ⟨3, _⟩ => .syntaxError
      | ⟨4, _⟩ => .errorNoSuchRoomId)
    fun
      | .roomCreated roomId => ⟨0, roomId⟩
      | .roomJoined => ⟨1, ()⟩
      | .sharePeerContacts client peer => ⟨2, (client, peer)⟩
      | .syntaxError => ⟨3, ()⟩
      | .errorNoSuchRoomId => ⟨4, ()⟩

theorem socketAddr_kept (addr : SocketAddr) : socketAddr.kept addr = addr.zeroed := by
  cases addr with
  | v4 addr => rfl
  | v6 addr => rfl

theorem contact_kept (value : Contact) : contact.kept value = value.zeroed := by
  obtain ⟨v6, v4⟩ := value
  cases v6 with
  | none =>
      cases v4 with
      | none => rfl
      | some addr => rfl
  | some addr =>
      cases v4 with
      | none => rfl
      | some other => rfl

theorem fullContact_kept (value : FullContact) : fullContact.kept value = value.zeroed := by
  have parts : fullContact.kept value =
      ⟨contact.kept value.private_, contact.kept value.public_⟩ := rfl
  rw [parts, contact_kept, contact_kept]
  rfl

theorem clientMessage_kept (message : ClientMessage) :
    clientMessage.kept message = message.zeroed := by
  cases message with
  | createRoom => rfl
  | joinRoom roomId => rfl
  | sendPrivateAddr addr =>
      cases addr with
      | none => rfl
      | some addr =>
          have inside : clientMessage.kept (.sendPrivateAddr (some addr)) =
              .sendPrivateAddr (some (socketAddr.kept addr)) := rfl
          rw [inside, socketAddr_kept]
          rfl
  | doneSending => rfl

theorem serverMessage_kept (message : ServerMessage) :
    serverMessage.kept message = message.zeroed := by
  cases message with
  | roomCreated roomId => rfl
  | roomJoined => rfl
  | sharePeerContacts client peer =>
      have parts : serverMessage.kept (.sharePeerContacts client peer) =
          .sharePeerContacts (fullContact.kept client) (fullContact.kept peer) := rfl
      rw [parts, fullContact_kept, fullContact_kept]
      rfl
  | syntaxError => rfl
  | errorNoSuchRoomId => rfl

/-! ## Lengths -/

/-- The bytes of a port. -/
def portSize (port : UInt16) : Nat :=
  if port.toNat < 128 then 1 else if port.toNat < 16384 then 2 else 3

/-- The bytes of the addresses that are there. -/
def Contact.size (value : Contact) : Nat :=
  (value.v6.map fun addr => 16 + portSize addr.port).getD 0 +
    (value.v4.map fun addr => 4 + portSize addr.port).getD 0

def FullContact.size (value : FullContact) : Nat := value.private_.size + value.public_.size

theorem portSize_le (port : UInt16) : portSize port ≤ 3 := by
  rw [portSize]
  split
  · decide
  · split <;> decide

theorem socketAddrV4_length (addr : SocketAddrV4) :
    (socketAddrV4.write addr).length = 4 + portSize addr.port := by
  have parts : socketAddrV4.write addr = (octets 4).write addr.ip ++ u16.write addr.port := rfl
  rw [parts, List.length_append, octets_write_length, u16_write_length, portSize]

theorem socketAddrV6_length (addr : SocketAddrV6) :
    (socketAddrV6.write addr).length = 16 + portSize addr.port := by
  have parts : socketAddrV6.write addr = (octets 16).write addr.ip ++ u16.write addr.port := rfl
  rw [parts, List.length_append, octets_write_length, u16_write_length, portSize]

theorem socketAddr_length_le (addr : SocketAddr) : (socketAddr.write addr).length ≤ 20 := by
  cases addr with
  | v4 addr =>
      have ofVariant := enumeration_write_length (by decide) SocketAddr.payloadCodec ⟨0, addr⟩
      have tagged : (socketAddr.write (.v4 addr)).length =
          1 + (socketAddrV4.write addr).length := ofVariant
      have port := portSize_le addr.port
      rw [tagged, socketAddrV4_length]
      omega
  | v6 addr =>
      have ofVariant := enumeration_write_length (by decide) SocketAddr.payloadCodec ⟨1, addr⟩
      have tagged : (socketAddr.write (.v6 addr)).length =
          1 + (socketAddrV6.write addr).length := ofVariant
      have port := portSize_le addr.port
      rw [tagged, socketAddrV6_length]
      omega

theorem contact_length (value : Contact) : (contact.write value).length = 2 + value.size := by
  have parts : contact.write value =
      (option socketAddrV6).write value.v6 ++ (option socketAddrV4).write value.v4 := rfl
  rw [parts, List.length_append, option_write_length, option_write_length, Contact.size]
  simp only [socketAddrV6_length, socketAddrV4_length]
  omega

theorem fullContact_length (value : FullContact) :
    (fullContact.write value).length = 4 + value.size := by
  have parts : fullContact.write value =
      contact.write value.private_ ++ contact.write value.public_ := rfl
  rw [parts, List.length_append, contact_length, contact_length, FullContact.size]
  omega

theorem clientMessage_length_le (message : ClientMessage) :
    (clientMessage.write message).length ≤ 22 := by
  cases message with
  | createRoom => decide
  | joinRoom roomId =>
      have ofVariant := enumeration_write_length (by decide) ClientMessage.payloadCodec ⟨1, roomId⟩
      have tagged : (clientMessage.write (.joinRoom roomId)).length =
          1 + (u32.write roomId).length := ofVariant
      have number := encodeVarint_length_le 4 roomId.toNat
      rw [tagged, u32_write]
      omega
  | sendPrivateAddr addr =>
      have ofVariant := enumeration_write_length (by decide) ClientMessage.payloadCodec ⟨2, addr⟩
      have tagged : (clientMessage.write (.sendPrivateAddr addr)).length =
          1 + ((option socketAddr).write addr).length := ofVariant
      rw [tagged, option_write_length]
      cases addr with
      | none => decide
      | some addr =>
          have inside := socketAddr_length_le addr
          simp only [Option.map_some, Option.getD_some]
          omega
  | doneSending => decide

theorem sharePeerContacts_length (client peer : FullContact) :
    (serverMessage.write (.sharePeerContacts client peer)).length =
      9 + client.size + peer.size := by
  have ofVariant :=
    enumeration_write_length (by decide) ServerMessage.payloadCodec ⟨2, (client, peer)⟩
  have tagged : (serverMessage.write (.sharePeerContacts client peer)).length =
      1 + (fullContact.write client ++ fullContact.write peer).length := ofVariant
  rw [tagged, List.length_append, fullContact_length, fullContact_length]
  omega

/-- Room left for the addresses of both contacts in a message of 64 bytes. -/
def ServerMessage.Fits : ServerMessage → Prop
  | .sharePeerContacts client peer => client.size + peer.size ≤ 55
  | _ => True

instance (message : ServerMessage) : Decidable message.Fits :=
  match message with
  | .sharePeerContacts client peer => inferInstanceAs (Decidable (client.size + peer.size ≤ 55))
  | .roomCreated _ => .isTrue trivial
  | .roomJoined => .isTrue trivial
  | .syntaxError => .isTrue trivial
  | .errorNoSuchRoomId => .isTrue trivial

theorem serverMessage_fits_iff (message : ServerMessage) :
    (serverMessage.write message).length ≤ 64 ↔ message.Fits := by
  cases message with
  | roomCreated roomId =>
      have ofVariant := enumeration_write_length (by decide) ServerMessage.payloadCodec ⟨0, roomId⟩
      have tagged : (serverMessage.write (.roomCreated roomId)).length =
          1 + (u32.write roomId).length := ofVariant
      have number := encodeVarint_length_le 4 roomId.toNat
      refine ⟨fun _ => trivial, fun _ => ?_⟩
      rw [tagged, u32_write]
      omega
  | roomJoined => decide
  | sharePeerContacts client peer =>
      rw [sharePeerContacts_length, ServerMessage.Fits]
      omega
  | syntaxError => decide
  | errorNoSuchRoomId => decide

end Gday.HolePunch
