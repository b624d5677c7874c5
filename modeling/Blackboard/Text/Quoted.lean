import Blackboard.Text.Unprintable
import Blackboard.Text.Extending

/-!
# Quoted texts

A text in double quotes as it appears in messages. The quote, the backslash and four controls have
short escapes; any other character that has no printed form, or that would attach to its neighbour,
is written as its code point in hexadecimal.
-/

namespace Blackboard.Text

/-- The hexadecimal digits of a number, in lower case and without padding. -/
def hexadecimal (n : Nat) : List Char := Nat.toDigits 16 n

/-- A character as it stands inside quotes. -/
def escapeChar (c : Char) : List Char :=
  match c with
  | '\x00' => ['\\', '0']
  | '\t' => ['\\', 't']
  | '\r' => ['\\', 'r']
  | '\n' => ['\\', 'n']
  | '\\' => ['\\', '\\']
  | '"' => ['\\', '"']
  | c =>
    if isExtending c || isUnprintable c then
      ['\\', 'u', '\x7b'] ++ hexadecimal c.toNat ++ ['\x7d']
    else [c]

def quote (s : String) : String :=
  String.ofList ('"' :: s.toList.flatMap escapeChar ++ ['"'])

end Blackboard.Text
