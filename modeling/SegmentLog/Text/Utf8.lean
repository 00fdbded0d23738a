import SegmentLog.Bytes.BigEndian

/-!
# UTF-8

Byte strings that may or may not spell text. `Utf8.encode` and `Utf8.decode?` go between text
and bytes. For showing any bytes at all, `Utf8.pieces` splits them into characters and broken
runs, where a broken run is the longest beginning of a character that the bytes still hold, or
one byte that begins none; `Utf8.lossy` shows each broken run as one replacement character.

* `decode?_encode` — text survives the way to its bytes and back.
-/

namespace SegmentLog.Utf8

/-- The bytes of a text. -/
def encode (s : String) : Bytes := s.toByteArray.data.toList

/-- The text that some bytes spell. -/
def decode? (bs : Bytes) : Option String := String.fromUTF8? ⟨bs.toArray⟩

theorem decode?_encode (s : String) : decode? (encode s) = some s := by
  have h : (⟨(encode s).toArray⟩ : ByteArray) = s.toByteArray := by
    simp [encode]
  rw [decode?, h, String.fromUTF8?, dif_pos s.isValidUTF8]
  rfl

/-- What the first byte of a character asks of the bytes after it: how many there are, and the
least and greatest value of the first of them. -/
def lead? (b : UInt8) : Option (Nat × UInt8 × UInt8) :=
  if b < 0x80 then some (0, 0x80, 0xBF)
  else if b < 0xC2 then none
  else if b < 0xE0 then some (1, 0x80, 0xBF)
  else if b = 0xE0 then some (2, 0xA0, 0xBF)
  else if b = 0xED then some (2, 0x80, 0x9F)
  else if b < 0xF0 then some (2, 0x80, 0xBF)
  else if b = 0xF0 then some (3, 0x90, 0xBF)
  else if b < 0xF4 then some (3, 0x80, 0xBF)
  else if b = 0xF4 then some (3, 0x80, 0x8F)
  else none

/-- The continuation bytes at the front, at most `n`, the first of them from `lo` to `hi`. -/
def continuation : Nat → UInt8 → UInt8 → Bytes → Bytes
  | 0, _, _, _ => []
  | _ + 1, _, _, [] => []
  | n + 1, lo, hi, b :: rest =>
    if lo ≤ b && b ≤ hi then b :: continuation n 0x80 0xBF rest else []

/-- The character with lead byte `b` and continuation bytes `more`. -/
def assemble (b : UInt8) (more : Bytes) : Char :=
  let top := match more.length with
    | 0 => b.toNat
    | 1 => b.toNat % 32
    | 2 => b.toNat % 16
    | _ => b.toNat % 8
  Char.ofNat (more.foldl (fun n c => n * 64 + c.toNat % 64) top)

/-- A piece of a byte string: a character, or a run of bytes that spells none. -/
inductive Piece where
  | char (c : Char)
  | broken (bytes : Bytes)
  deriving DecidableEq, Repr

/-- The pieces of a byte string, in order. -/
def pieces : Bytes → List Piece
  | [] => []
  | b :: rest =>
    match lead? b with
    | none => .broken [b] :: pieces rest
    | some (n, lo, hi) =>
      let more := continuation n lo hi rest
      (if more.length = n then .char (assemble b more) else .broken (b :: more)) ::
        pieces (rest.drop more.length)
termination_by bs => bs.length
decreasing_by
  · simp
  · simp only [List.length_drop, List.length_cons]; omega

/-- Any bytes as text, with one replacement character for each broken run. -/
def lossy (bs : Bytes) : String :=
  String.ofList ((pieces bs).map fun
    | .char c => c
    | .broken _ => '\uFFFD')

end SegmentLog.Utf8
