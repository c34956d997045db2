import Gday.Chat.FileDialog
import Gday.Lib.Text

/-! # Room codes

The functions of base32.rs.  A string is the list of its characters, and a byte of it is a
byte of their UTF-8.  `Uppercase` stands for the tables of Unicode: of these only ASCII
matters.  A code that is refused ends the program, which is `none`. -/
set_option autoImplicit false
namespace Gday.Cli

open Gday.Lib.AsyncStream (Panic)
open Gday.Chat (trim)

/-- `char::to_uppercase`. -/
structure Uppercase where
  upper : Char → List Char
  ascii : ∀ char, char.toNat < 128 → upper char = [char.toUpper]

def Uppercase.string (unicode : Uppercase) (text : List Char) : List Char :=
  text.flatMap unicode.upper

/-- The characters of `ALPHABET`. -/
def alphabetText : List Char := "0123456789ABCDEFGHJKMNPQRSTVWXYZ".toList

def alphabet : List UInt8 := alphabetText.map fun char => UInt8.ofNat char.toNat

theorem index_lt (num : Nat) : num % 32 < alphabet.length := Nat.mod_lt num (by decide)

/-! ## Reading -/

/-- `u32::try_from` of a `usize`. -/
def tryU32 (num : Nat) : Option Nat := if num < 2 ^ 32 then some num else none

def checkedMul (left right : Nat) : Option Nat := tryU32 (left * right)

def checkedAdd (left right : Nat) : Option Nat := tryU32 (left + right)

/-- `base.pow(exponent)` on `u32`, which wraps where overflow checks are off. -/
def powU32 (debug : Bool) (base exponent : Nat) : Except Panic Nat :=
  if base ^ exponent < 2 ^ 32 then .ok (base ^ exponent)
  else if debug then .error .overflow
  else .ok (base ^ exponent % 2 ^ 32)

/-- The loop over the bytes, the last one first. -/
def digitLoop (debug : Bool) : List UInt8 → Nat → Nat → Except Panic (Option Nat)
  | [], _, num => .ok (some num)
  | char :: rest, i, num =>
      match (alphabet.idxOf? char).bind tryU32, tryU32 i with
      | some digit, some place =>
          match powU32 debug 32 place with
          | .error panic => .error panic
          | .ok placeValue =>
              match (checkedMul digit placeValue).bind (checkedAdd num) with
              | none => .ok none
              | some newNum => digitLoop debug rest (i + 1) newNum
      | _, _ => .ok none

/-- Trimmed, in upper case, and with ones for the letters that look like one. -/
def normalize (unicode : Uppercase) (s : List Char) : List Char :=
  (unicode.string (trim s)).map fun c => if c = 'I' ∨ c = 'L' then '1' else c

def strToU32 (unicode : Uppercase) (debug : Bool) (s : List Char) :
    Except Panic (Option UInt32) :=
  (digitLoop debug ((normalize unicode s).flatMap String.utf8EncodeChar).reverse 0 0).map
    (Option.map UInt32.ofNat)

/-! ## Writing -/

/-- The digits, the last one first. -/
def pushDigits (num : Nat) (s : List UInt8) : List UInt8 :=
  if num = 0 then s else pushDigits (num / 32) (s ++ [alphabet.get ⟨num % 32, index_lt num⟩])

def u32ToStr (num : UInt32) : List Char :=
  let s := (pushDigits num.toNat []).reverse
  let s := if s.isEmpty then s ++ [UInt8.ofNat '0'.toNat] else s
  s.map fun byte => Char.ofNat byte.toNat

/-- The loop of `to_string` on what it has so far. -/
def pushVals : List Char → List UInt32 → List Char
  | s, [] => s
  | s, val :: vals => pushVals ((if s.isEmpty then s else s ++ ['.']) ++ u32ToStr val) vals

def toString (vals : List UInt32) : List Char := pushVals [] vals

/-! ## Codes -/

def readAll (unicode : Uppercase) (debug : Bool) :
    List (List Char) → Except Panic (Option (List UInt32))
  | [] => .ok (some [])
  | x :: rest =>
      match strToU32 unicode debug x with
      | .error panic => .error panic
      | .ok none => .ok none
      | .ok (some val) => (readAll unicode debug rest).map (Option.map (val :: ·))

def fromString (unicode : Uppercase) (debug : Bool) (s : List Char) :
    Except Panic (Option (List UInt32)) :=
  readAll unicode debug ((trim s).splitOn '.')

end Gday.Cli
