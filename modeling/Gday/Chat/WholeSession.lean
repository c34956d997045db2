import Gday.Chat.Conversation
import Gday.Chat.TransferCompletes
import Gday.Encryption.SecurePipe
import Gday.Lib.Staged

/-! # From the offer to the chat

`creator_run` and `not_creator_run` as a whole.  A peer chats as soon as its own part of the
transfer is over, while the other one may still be receiving.  The connection is a pipe, or an
encrypted session, which is one. -/
set_option autoImplicit false
namespace Gday.Chat

open Relation
open Gday.Encryption (Key Nonce Session StreamAead)
open Gday.Lib.Duplex Gday.Lib.LexicalPath Gday.Lib.Program Gday.Lib.Staged Gday.Lib.Transition
open Gday.Chat.Setting

/-- Whoever returns from the transfer with an error does not chat. -/
def chatAfter : Ended → ChatPeer
  | (.ready (), _) => .start
  | _ => { ChatPeer.start with status := .failed }

abbrev Peer := Stage Ended ChatPeer

namespace Peer

def lts : Lts Peer Io := Stage.lts ChatPeer.lts chatAfter

/-- A peer that does not chat yet has entered and printed nothing. -/
def chat : Peer → ChatPeer
  | .first _ => .start
  | .second chat => chat

end Peer

namespace Setting

variable (setting : Setting)

def peers (side : Bool) : Peer :=
  .first (if side then setting.creator else setting.notCreator)

end Setting

/-- What the sides return from the transfer, of which only one has a file system to change. -/
def results (effects : List Effect) (side : Bool) : Ended :=
  (.ready (), if side then [] else effects)

/-- All that holds of the two peers at any time. -/
structure Holds (capacity : Option Nat) (effects : List Effect) (state : System Peer Pipe) :
    Prop where
  transferred : ∀ side result, state.programs side = .first (.done result) →
    result = results effects side
  calm : ∀ side, (state.programs side).chat.status ≠ .garbled
  prints : ∀ side, Prints (state.programs side).chat (state.programs (!side)).chat
  flushed : ∀ side chat, state.programs side = .second chat → chat.unsent = none →
    (state.channels side).flushed = (state.channels side).written.length
  arrived : ∀ side chat other, state.programs side = .second chat →
    state.programs (!side) = .second other → chat.status = .running → other.unsent = none →
    (state.channels (!side)).queue = [] → chat.printed = linesOf other.typed
  goes : ∀ side prog, state.programs side = .first prog →
    GoesFirst ChatPeer.lts chatAfter capacity state

/-! ## Over pipes -/

section Splits

variable {capacity : Option Nat} {effects : List Effect} {one other : Prog Ended}
  {state : System Peer Pipe} {first : Pair Ended} {second : System ChatPeer Pipe}

theorem chat_of_splits (splits : Splits chatAfter (results effects) state first second)
    (side : Bool) : (state.programs side).chat = second.programs side := by
  have mine := splits.sides side
  cases here : state.programs side with
  | first prog =>
      rw [here] at mine
      exact mine.2.symm
  | second chat =>
      rw [here] at mine
      exact mine.2.symm

theorem holds_of_splits
    (completing : Completing capacity (results effects) (Pair.start one other))
    (flushes : ∀ side : Bool, (if side then one else other).Flushes false)
    (reached : ReflTransGen (Pair.Goes capacity) (Pair.start one other) first)
    (chatting : ReflTransGen (System.lts ChatPeer.lts (Pipe.lts capacity)).Moves startChat second)
    (splits : Splits chatAfter (results effects) state first second) :
    Holds capacity effects state := by
  have conversing := start_conversing.run chatting
  have inTime : Pair.InTime first :=
    (Pair.start_inTime flushes fun _ => rfl).run reached
  refine ⟨?_, ?_, ?_, ?_, ?_, ?_⟩
  · intro side result here
    have mine := splits.sides side
    rw [here] at mine
    exact completing.result reached mine.1
  · intro side
    rw [chat_of_splits splits]
    exact (conversing.listens side).calm
  · intro side
    rw [chat_of_splits splits, chat_of_splits splits]
    exact conversing.prints side
  · intro side chat here idle
    have mine := splits.sides side
    rw [here] at mine
    obtain ⟨done, same⟩ := mine
    obtain ⟨dirty, owed, clean⟩ := inTime side
    rw [done] at owed
    have joined := splits.joined side
    have all := clean owed
    have lines := conversing.flushes side (same ▸ idle)
    have atMost := (state.channels side).flushed_le
    have atLeast := joined.flushed
    rw [joined.written, List.length_append] at atMost ⊢
    omega
  · intro side chat other here there running idle drained
    have mine := splits.sides side
    have others := splits.sides (!side)
    rw [here] at mine
    rw [there] at others
    have queue := (splits.joined (!side)).queue (splits.apart completing reached (!side))
    rw [drained] at queue
    obtain ⟨_, empty⟩ := List.append_eq_nil_iff.mp queue.symm
    have printed := (conversing.done side (others.2 ▸ idle)).2 (mine.2 ▸ running) empty
    rw [mine.2, others.2] at printed
    exact printed
  · intro side prog here
    exact splits.goes completing reached inTime here

end Splits

theorem Setting.completing (setting : Setting) {capacity : Option Nat} {effects : List Effect}
    (reaches : Pair.Reaches capacity true setting.creator setting.notCreator
      (.done (.ready (), [])) (.done (.ready (), effects))) :
    Completing capacity (results effects) (Pair.start setting.creator setting.notCreator) := by
  obtain ⟨final, completes, at_⟩ := reaches.completes
  refine ⟨final, completes, fun side => ?_, at_.drained⟩
  cases side with
  | true => exact at_.own
  | false => exact at_.others

theorem Setting.flushes (setting : Setting) (side : Bool) :
    (if side then setting.creator else setting.notCreator).Flushes false := by
  cases side with
  | true => exact setting.creator_flushes
  | false => exact setting.notCreator_flushes

/-- However the peers take turns, their bytes are cut and the pipes fill up: no side's transfer
ends otherwise than well, and the files that were accepted are stored before the receiver chats.
Nothing of the transfer is taken for a line of the chat, nor a line for a part of a file. -/
theorem session_over_pipes (setting : Setting) (capacity : Option Nat)
    (some_ : Pipe.Fits capacity 1) {Place : Type} [DecidableEq Place]
    (place : List Component → Place)
    (distinct : ((offeredFiles setting.files).map fun file =>
      place (destination file.public_)).Nodup) :
    ∃ chosen effects, setting.Answers chosen ∧ setting.Stores place chosen effects ∧
      ∀ state, ReflTransGen (System.lts Peer.lts (Pipe.lts capacity)).Moves
          ⟨setting.peers, fun _ => .empty⟩ state →
        Holds capacity effects state := by
  obtain ⟨chosen, effects, answers, reaches, received⟩ := setting.reaches_end some_
  refine ⟨chosen, effects, answers, setting.effects_stored place distinct answers received, ?_⟩
  intro state reached
  have completing := setting.completing reaches
  obtain ⟨first, second, reachedFirst, chatting, splits⟩ := completing.splits reached
  exact holds_of_splits completing setting.flushes reachedFirst chatting splits

/-- One file over pipes that hold a single byte, and then a chat. -/
theorem oneFile_session : ∃ effects, ∀ state,
    ReflTransGen (System.lts Peer.lts (Pipe.lts (some 1))).Moves
        ⟨oneFileSetting.peers, fun _ => .empty⟩ state →
      Holds (some 1) effects state := by
  obtain ⟨chosen, effects, _, _, holds⟩ := session_over_pipes oneFileSetting (some 1)
    (fun bound given => by cases given; exact Nat.le_refl 1) id (List.nodup_singleton _)
  exact ⟨effects, holds⟩

/-! ## Over encrypted sessions -/

/-- A step of a side that is still in its transfer, by calls of these builds. -/
def GoesEncrypted (aead : StreamAead) (writerDebug readerDebug : Bool)
    (state : System Peer Session) : Prop :=
  ∃ side prog label next, state.programs side = .first prog ∧
    Peer.lts.Step (.first prog) label next ∧
    ∀ act, label = some act → ∃ after,
      Session.Step aead writerDebug readerDebug (state.channels (act.stream side)) (some act) after

/-- What a pipe lets a side do, a session does that serves as this pipe. -/
theorem goes_encrypted {aead : StreamAead} {state : System Peer Session} {pipes : Bool → Pipe}
    (serves : ∀ side, Session.Serves aead (state.channels side) (pipes side))
    (going : ∀ side, (state.channels side).sending.writer.encryptor.position ≠ aead.counterMax)
    (goes : GoesFirst ChatPeer.lts chatAfter none ⟨state.programs, pipes⟩)
    (writerDebug readerDebug : Bool) : GoesEncrypted aead writerDebug readerDebug state := by
  obtain ⟨side, prog, label, next, here, step, possible⟩ := goes
  cases label with
  | none => exact ⟨side, prog, none, next, here, step, fun act some_ => nomatch some_⟩
  | some act =>
      obtain ⟨⟨channel, its⟩, sure⟩ := possible act rfl
      cases step with
      | first _ after_ _ own =>
          cases own with
          | flush =>
              obtain ⟨after, flushed⟩ := (serves side).flushes (going side) writerDebug readerDebug
              refine ⟨side, _, some .flush, _, here, .first _ _ _ (.flush _), fun act same => ?_⟩
              cases same
              exact ⟨after, flushed⟩
          | write sent rest later some_ =>
              obtain ⟨after, taken, others, taken_, split, accepted⟩ :=
                (serves side).accepts (going side) writerDebug readerDebug sent some_
              have writes : Prog.Step (.write (sent ++ rest) later) (some (.write taken))
                  (.write (others ++ rest) later) := by
                rw [split, List.append_assoc]
                exact .write taken (others ++ rest) later taken_
              refine ⟨side, _, some (.write taken), _, here, .first _ _ _ writes,
                fun act same => ?_⟩
              cases same
              exact ⟨after, accepted⟩
          | read missing got given later some_ within =>
              have long := List.length_pos_iff.mpr some_
              have unread : (pipes (!side)).taken < (pipes (!side)).flushed := by
                rcases sure with flushed | ⟨bound, none_, _⟩
                · have flushed : (pipes (!side)).taken + given.length ≤ (pipes (!side)).flushed :=
                    flushed
                  omega
                · cases none_
              obtain ⟨after, byte, gave⟩ := (serves (!side)).gives unread writerDebug readerDebug
              have one : [byte].length ≤ missing := by
                rw [List.length_singleton]
                omega
              refine ⟨side, _, some (.read [byte]), _, here,
                .first _ _ _ (.read missing got [byte] later (List.cons_ne_nil _ _) one),
                fun act same => ?_⟩
              cases same
              exact ⟨after, gave⟩

/-- The same over encrypted sessions, in any run and for any builds: a session serves as a pipe
over which all of it holds.  Until an encryptor is used up, a side in its transfer can go on. -/
theorem session_encrypted (setting : Setting) (aead : StreamAead) (invertible : aead.Invertible)
    (sharedKey : Key) (nonces : Bool → Nonce) {Place : Type} [DecidableEq Place]
    (place : List Component → Place)
    (distinct : ((offeredFiles setting.files).map fun file =>
      place (destination file.public_)).Nodup) :
    ∃ chosen effects, setting.Answers chosen ∧ setting.Stores place chosen effects ∧
      ∀ acts state, (System.lts Peer.lts (Session.lts aead)).Trace
          (Session.startBoth setting.peers sharedKey nonces) acts state →
        ∃ pipes : Bool → Pipe,
          (∀ side, Session.Serves aead (state.channels side) (pipes side)) ∧
            Holds none effects ⟨state.programs, pipes⟩ ∧
            ((∃ side prog, state.programs side = .first prog) →
              (∀ side, (state.channels side).sending.writer.encryptor.position ≠
                aead.counterMax) →
              ∀ writerDebug readerDebug, GoesEncrypted aead writerDebug readerDebug state) := by
  obtain ⟨chosen, effects, answers, stores, holds⟩ :=
    session_over_pipes setting none (Session.unbounded 1) place distinct
  refine ⟨chosen, effects, answers, stores, fun acts state trace => ?_⟩
  obtain ⟨pipes, trace', serves⟩ := Gday.Encryption.sessions_are_pipes Peer.lts aead invertible
    setting.peers sharedKey nonces trace
  have held := holds _ trace'.moves
  refine ⟨pipes, serves, held, fun transferring going writerDebug readerDebug => ?_⟩
  obtain ⟨side, prog, here⟩ := transferring
  exact goes_encrypted serves going (held.goes side prog here) writerDebug readerDebug

/-- The first step of one file. -/
theorem oneFile_encrypted : GoesEncrypted Gday.Encryption.paddingAead true true
    (Session.startBoth oneFileSetting.peers [] fun _ => List.replicate 8 7) := by
  obtain ⟨chosen, effects, _, _, holds⟩ := session_encrypted oneFileSetting
    Gday.Encryption.paddingAead Gday.Encryption.paddingAead_invertible []
    (fun _ => List.replicate 8 7) id (List.nodup_singleton _)
  obtain ⟨pipes, _, _, goes⟩ := holds [] _ (.nil _)
  have fresh : (0 : Nat) ≠ Gday.Encryption.paddingAead.counterMax := by decide
  exact goes ⟨true, _, rfl⟩ (fun side => fresh) true true

end Gday.Chat
