import SegmentLog.Disk.Fault

/-!
# Readers

A reader hands out the bytes of a file in pieces of its own choosing, and may be interrupted or
fail on the way. `Reader.readAtMost` asks it again until it has all the bytes it wants or the
reader has no more, so that how the bytes were cut into pieces does not show.

* `stored_readAtMost` — what is read is no longer in store.
-/

namespace SegmentLog

/-- What a reader answers when it is asked for bytes. An empty piece says that there are no
more. -/
inductive Delivery where
  | bytes (piece : Bytes)
  | interrupted
  | failed (cause : DiskError)
  deriving DecidableEq, Repr

/-- The answers a reader has in store; after them it has no more bytes. -/
abbrev Reader := List Delivery

namespace Reader

/-- A reader that holds `content` in one piece. -/
def ofBytes (content : Bytes) : Reader := if content.isEmpty then [] else [.bytes content]

/-- A reader that holds `content` in one piece and fails behind it. -/
def broken (content : Bytes) (cause : DiskError) : Reader := ofBytes content ++ [.failed cause]

/-- Reads `want` bytes, or as many as there are, and leaves the rest in the reader. A piece
longer than what is still wanted is handed out in part. -/
def readAtMost : Nat → Reader → Except DiskError (Bytes × Reader)
  | 0, r => .ok ([], r)
  | _ + 1, [] => .ok ([], [])
  | want + 1, .interrupted :: r => readAtMost (want + 1) r
  | _ + 1, .failed cause :: _ => .error cause
  | _ + 1, .bytes [] :: r => .ok ([], r)
  | want + 1, .bytes (b :: piece) :: r =>
    if want + 1 ≤ piece.length then
      .ok ((b :: piece).take (want + 1), .bytes ((b :: piece).drop (want + 1)) :: r)
    else
      match readAtMost (want - piece.length) r with
      | .ok (more, r) => .ok (b :: piece ++ more, r)
      | .error cause => .error cause

/-- How many bytes a reader has in store, whether or not it comes to deliver them. -/
def stored : Reader → Nat
  | [] => 0
  | .bytes piece :: r => piece.length + stored r
  | .interrupted :: r => stored r
  | .failed _ :: r => stored r

/-- What is read is no longer in store. -/
theorem stored_readAtMost {want : Nat} {r rest : Reader} {bytes : Bytes}
    (h : readAtMost want r = .ok (bytes, rest)) : r.stored = bytes.length + rest.stored := by
  fun_induction readAtMost want r generalizing bytes rest with
  | case1 r =>
    cases h
    simp
  | case2 =>
    cases h
    rfl
  | case3 want r ih => exact ih h
  | case4 => cases h
  | case5 want r =>
    cases h
    rfl
  | case6 want b piece r hle =>
    cases h
    simp only [stored, List.length_take, List.length_drop]
    omega
  | case7 want b piece r hlt more rest' hmore ih =>
    cases h
    rw [stored, ih hmore, List.length_append]
    omega
  | case8 => cases h

end Reader

end SegmentLog
