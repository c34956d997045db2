import Mathlib

/-! # One-shot channels

A store of channels that carry at most one value.  A channel is named by its place in the
store; `status` is what its receiver sees.  Once it has a value or has lost its sender, a
channel never changes again. -/
set_option autoImplicit false
namespace Gday.Lib.OneShot

variable {Value : Type}

inductive Channel (Value : Type) where
  | pending
  | sent (value : Value)
  | closed
  deriving DecidableEq, Repr

abbrev Channels (Value : Type) := List (Channel Value)

/-- A new channel and its name. -/
def channel (channels : Channels Value) : Nat × Channels Value :=
  (channels.length, channels ++ [.pending])

def settle (channels : Channels Value) (name : Nat) (outcome : Channel Value) :
    Channels Value :=
  match channels[name]? with
  | some .pending => channels.set name outcome
  | _ => channels

def send (channels : Channels Value) (name : Nat) (value : Value) : Channels Value :=
  settle channels name (.sent value)

def dropSender (channels : Channels Value) (name : Nat) : Channels Value :=
  settle channels name .closed

/-- Dropping a sender that may not be there. -/
def dropStored (channels : Channels Value) : Option Nat → Channels Value
  | none => channels
  | some name => dropSender channels name

def status (channels : Channels Value) (name : Nat) : Option (Channel Value) := channels[name]?

theorem dropSender_new (channels : Channels Value) :
    dropSender (channel channels).2 channels.length = channels ++ [.closed] := by
  simp [dropSender, settle, channel]

end Gday.Lib.OneShot
