import ExperienceReplay.Text.Unprintable
import ExperienceReplay.Text.Combining
import ExperienceReplay.Text.Ignorable

/-!
Text in double quotes, with escapes for everything that does not print as one visible character.
-/

namespace ExperienceReplay.Text

def inRanges (ranges : Array (Nat × Nat)) (c : Char) : Bool :=
  ranges.any fun range => range.1 ≤ c.toNat && c.toNat ≤ range.2

def isUnprintable (c : Char) : Bool := inRanges unprintableRanges c

def isCombining (c : Char) : Bool := inRanges combiningRanges c

def isIgnorable (c : Char) : Bool := inRanges ignorableRanges c

def codePointEscape (c : Char) : List Char :=
  '\\' :: 'u' :: '\x7b' :: (Nat.toDigits 16 c.toNat ++ ['\x7d'])

def escapeChar (c : Char) : List Char :=
  match c with
  | '\x00' => ['\\', '0']
  | '\t' => ['\\', 't']
  | '\r' => ['\\', 'r']
  | '\n' => ['\\', 'n']
  | '"' => ['\\', '"']
  | '\\' => ['\\', '\\']
  | c => if isCombining c || isUnprintable c || isIgnorable c then codePointEscape c else [c]

def quoted (text : String) : String :=
  String.ofList ('"' :: (text.toList.flatMap escapeChar ++ ['"']))

def quotedList (texts : List String) : String :=
  "[" ++ ", ".intercalate (texts.map quoted) ++ "]"

end ExperienceReplay.Text
