import SegmentLog.Text.GraphemeExtend
import SegmentLog.Text.Hex
import SegmentLog.Text.Unprintable
import SegmentLog.Text.Utf8

/-!
# Quoted text

Text between double quotes in a form that shows every character: the quote and the backslash
stand behind a backslash, the usual controls have their letters, and a character that is drawn
onto the one before it, or has no glyph, is written by its code point. Bytes that spell no
character are written in hexadecimal.
-/

namespace SegmentLog.Text

/-- One character as it stands between quotes. -/
def quotedChar (c : Char) : List Char :=
  if c = '\x00' then ['\\', '0']
  else if c = '\t' then ['\\', 't']
  else if c = '\r' then ['\\', 'r']
  else if c = '\n' then ['\\', 'n']
  else if c = '"' || c = '\\' then ['\\', c]
  else if extendsGrapheme c || isUnprintable c then
    ['\\', 'u', '\x7b'] ++ Nat.toDigits 16 c.toNat ++ ['\x7d']
  else [c]

/-- A text between quotes. -/
def quoted (s : String) : String :=
  String.ofList ('"' :: s.toList.flatMap quotedChar ++ ['"'])

/-- Bytes between quotes, as far as they spell text. -/
def quotedBytes (bs : Bytes) : String :=
  String.ofList ('"' :: (Utf8.pieces bs).flatMap (fun
    | .char c => quotedChar c
    | .broken run => run.flatMap fun b => '\\' :: 'x' :: (hexByte b).map Char.toUpper) ++ ['"'])

end SegmentLog.Text
