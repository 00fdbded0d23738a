import SegmentLog.Disk.Reader

/-!
# How a buffer is filled

A reader answers each request in its own way: with fewer bytes than it was asked for, with an
interruption, or with a failure. A buffer is filled by asking for what is still missing, again and
again, until nothing is missing or there are no more bytes. What ends up in the buffer depends on
the bytes that are delivered and on the failure or the end behind them, and on nothing else.

* `readAtMost_cases` — the three ways in which a reading can come out;
* `HandsOut` — what a reader has given away, and what it still has in store;
* `fill_eq` — asking request by request comes to the same as `readAtMost`;
* `fill_ignores_pieces` — a filled buffer in terms of what was delivered.
-/

namespace SegmentLog

namespace Reader

/-! ## What a reader delivers -/

/-- The bytes that a reader delivers before it fails or comes to its end. -/
def delivered : Reader → Bytes
  | [] => []
  | .interrupted :: r => delivered r
  | .failed _ :: _ => []
  | .bytes [] :: _ => []
  | .bytes (b :: piece) :: r => b :: piece ++ delivered r

/-- Why a reader fails, if it does so before it comes to its end. -/
def cause? : Reader → Option DiskError
  | [] => none
  | .interrupted :: r => cause? r
  | .failed cause :: _ => some cause
  | .bytes [] :: _ => none
  | .bytes (_ :: _) :: r => cause? r

/-- Whether a reader gives away some bytes, and then is another one. -/
inductive HandsOut : Reader → Bytes → Reader → Prop where
  | nothing (r : Reader) : HandsOut r [] r
  | interrupted {r rest : Reader} {bytes : Bytes} :
      HandsOut r bytes rest → HandsOut (.interrupted :: r) bytes rest
  | whole {r rest : Reader} {bytes : Bytes} (piece : Bytes) :
      HandsOut r bytes rest → HandsOut (.bytes piece :: r) (piece ++ bytes) rest
  | part {front back : Bytes} (r : Reader) :
      back ≠ [] → HandsOut (.bytes (front ++ back) :: r) front (.bytes back :: r)

theorem delivered_bytes {piece : Bytes} (hpiece : piece ≠ []) (r : Reader) :
    delivered (.bytes piece :: r) = piece ++ r.delivered := by
  cases piece with
  | nil => exact absurd rfl hpiece
  | cons b more => rfl

theorem cause?_bytes {piece : Bytes} (hpiece : piece ≠ []) (r : Reader) :
    cause? (.bytes piece :: r) = r.cause? := by
  cases piece with
  | nil => exact absurd rfl hpiece
  | cons b more => rfl

theorem delivered_ofBytes (content : Bytes) : (ofBytes content).delivered = content := by
  cases content with
  | nil => rfl
  | cons b piece => simp [ofBytes, delivered]

theorem cause?_ofBytes (content : Bytes) : (ofBytes content).cause? = none := by
  cases content <;> rfl

theorem delivered_broken (content : Bytes) (cause : DiskError) :
    (broken content cause).delivered = content := by
  cases content with
  | nil => rfl
  | cons b piece => simp [broken, ofBytes, delivered]

theorem cause?_broken (content : Bytes) (cause : DiskError) :
    (broken content cause).cause? = some cause := by
  cases content <;> rfl

/-! ## What a reading comes to -/

/-- What is read is taken from the reader, and nothing else is. -/
theorem handsOut_readAtMost {want : Nat} {r rest : Reader} {bytes : Bytes}
    (h : readAtMost want r = .ok (bytes, rest)) : r.HandsOut bytes rest := by
  fun_induction readAtMost want r generalizing bytes rest with
  | case1 r =>
    cases h
    exact .nothing r
  | case2 =>
    cases h
    exact .nothing []
  | case3 want r ih => exact .interrupted (ih h)
  | case4 => cases h
  | case5 want r =>
    cases h
    exact .whole [] (.nothing r)
  | case6 want b piece r hle =>
    cases h
    have hback : (b :: piece).drop (want + 1) ≠ [] := by
      simp
      omega
    have hpart : HandsOut
        (.bytes ((b :: piece).take (want + 1) ++ (b :: piece).drop (want + 1)) :: r)
        ((b :: piece).take (want + 1)) (.bytes ((b :: piece).drop (want + 1)) :: r) := .part r hback
    rwa [List.take_append_drop] at hpart
  | case7 want b piece r hlt more rest' hmore ih =>
    cases h
    exact .whole (b :: piece) (ih hmore)
  | case8 => cases h

/-- A reading comes out in one of three ways: there are as many bytes as are wanted, or the reader
comes to its end before that, or it fails before that. -/
theorem readAtMost_cases (want : Nat) (r : Reader) :
    (want ≤ r.delivered.length ∧ ∃ rest, readAtMost want r = .ok (r.delivered.take want, rest) ∧
      rest.delivered = r.delivered.drop want ∧ rest.cause? = r.cause?) ∨
    (r.delivered.length < want ∧ r.cause? = none ∧
      ∃ rest, readAtMost want r = .ok (r.delivered, rest)) ∨
    (r.delivered.length < want ∧ ∃ cause, r.cause? = some cause ∧
      readAtMost want r = .error cause) := by
  fun_induction readAtMost want r with
  | case1 r => exact .inl ⟨Nat.zero_le _, r, rfl, rfl, rfl⟩
  | case2 want => exact .inr (.inl ⟨by simp [delivered], rfl, [], rfl⟩)
  | case3 want r ih => exact ih
  | case4 want cause r => exact .inr (.inr ⟨by simp [delivered], cause, rfl, rfl⟩)
  | case5 want r => exact .inr (.inl ⟨by simp [delivered], rfl, r, rfl⟩)
  | case6 want b piece r hle =>
    -- the piece is longer than what is wanted, and the rest of it stays in store
    have hlen : want + 1 ≤ (b :: piece).length := by
      simp
      omega
    have hback : (b :: piece).drop (want + 1) ≠ [] := by
      simp
      omega
    have hall := delivered_bytes (List.cons_ne_nil b piece) r
    refine .inl ⟨?_, .bytes ((b :: piece).drop (want + 1)) :: r, ?_, ?_, ?_⟩
    · rw [hall, List.length_append]
      omega
    · rw [hall, List.take_append_of_le_length hlen]
    · rw [hall, List.drop_append_of_le_length hlen, delivered_bytes hback]
    · rw [cause?_bytes hback]
      rfl
  | case7 want b piece r hlt more rest' hmore ih =>
    have hall := delivered_bytes (List.cons_ne_nil b piece) r
    have hlen : (b :: piece).length = piece.length + 1 := rfl
    have hleft : want + 1 - (b :: piece).length = want - piece.length := by omega
    rw [hmore] at ih
    rw [hall, List.length_append, hlen]
    rcases ih with ⟨hle, rest, hok, hrest, hcause⟩ | ⟨hshort, hcause, rest, hok⟩ | ⟨-, cause, -, he⟩
    · cases hok
      have htake : (b :: piece).take (want + 1) = b :: piece := List.take_of_length_le (by omega)
      have hdrop : (b :: piece).drop (want + 1) = [] := List.drop_of_length_le (by omega)
      refine .inl ⟨by omega, rest', ?_, ?_, hcause⟩
      · rw [List.take_append, htake, hleft]
      · rw [List.drop_append, hdrop, hleft, hrest, List.nil_append]
    · cases hok
      exact .inr (.inl ⟨by omega, hcause, rest', rfl⟩)
    · cases he
  | case8 want b piece r hlt cause hmore ih =>
    have hall := delivered_bytes (List.cons_ne_nil b piece) r
    have hlen : (b :: piece).length = piece.length + 1 := rfl
    rw [hmore] at ih
    rw [hall, List.length_append, hlen]
    rcases ih with ⟨-, rest, hok, -, -⟩ | ⟨-, -, rest, hok⟩ | ⟨hshort, cause', hcause, he⟩
    · cases hok
    · cases hok
    · cases he
      exact .inr (.inr ⟨by omega, cause, hcause, rfl⟩)

/-- What is read depends only on the bytes that are delivered and on the way the reader ends. -/
theorem map_readAtMost (want : Nat) (r : Reader) :
    (readAtMost want r).map (·.1) =
      match if r.delivered.length < want then r.cause? else none with
      | some cause => .error cause
      | none => .ok (r.delivered.take want) := by
  rcases readAtMost_cases want r with
    ⟨hle, rest, h, -⟩ | ⟨hlt, hend, rest, h⟩ | ⟨hlt, cause, hfails, h⟩
  · rw [h, if_neg (by omega)]
    rfl
  · rw [h, if_pos hlt, hend, List.take_of_length_le (by omega)]
    rfl
  · rw [h, if_pos hlt, hfails]
    rfl

/-! ## Request by request -/

/-- The answer of a reader that is asked for some bytes, and the reader after it. -/
def answer (asked : Nat) : Reader → Delivery × Reader
  | [] => (.bytes [], [])
  | .interrupted :: r => (.interrupted, r)
  | .failed cause :: r => (.failed cause, r)
  | .bytes piece :: r =>
    if piece.length ≤ asked then (.bytes piece, r)
    else (.bytes (piece.take asked), .bytes (piece.drop asked) :: r)

/-- A buffer after some bytes were put into it at an offset. -/
def putAt (buffer : Bytes) (offset : Nat) (bytes : Bytes) : Bytes :=
  buffer.take offset ++ (bytes ++ buffer.drop (offset + bytes.length))

/-- No piece is longer than what was asked for. -/
theorem length_le_of_answer {asked : Nat} {r rest : Reader} {piece : Bytes}
    (h : r.answer asked = (.bytes piece, rest)) : piece.length ≤ asked := by
  unfold answer at h
  split at h
  · cases h
    exact Nat.zero_le _
  · cases h
  · cases h
  · split at h
    · cases h
      assumption
    · cases h
      exact List.length_take_le ..

theorem length_lt_of_interrupted {asked : Nat} {r rest : Reader}
    (h : r.answer asked = (.interrupted, rest)) : rest.length < r.length := by
  unfold answer at h
  split at h
  · cases h
  · cases h
    exact Nat.lt_succ_self _
  · cases h
  · split at h <;> cases h

theorem length_putAt {buffer bytes : Bytes} {offset : Nat}
    (h : offset + bytes.length ≤ buffer.length) :
    (putAt buffer offset bytes).length = buffer.length := by
  simp [putAt]
  omega

/-- Fills a buffer, so much of which is filled already, as far as a reader allows. Says how much
of it is filled then, and leaves the rest in the reader. -/
def fill (buffer : Bytes) (filled : Nat) (r : Reader) :
    Except DiskError (Nat × Bytes × Reader) :=
  if _hmissing : filled < buffer.length then
    match _hanswer : r.answer (buffer.length - filled) with
    | (.bytes [], rest) => .ok (filled, buffer, rest)
    | (.bytes (b :: piece), rest) =>
      fill (putAt buffer filled (b :: piece)) (filled + (b :: piece).length) rest
    | (.interrupted, rest) => fill buffer filled rest
    | (.failed cause, _) => .error cause
  else .ok (filled, buffer, r)
termination_by (buffer.length - filled, r.length)
decreasing_by
  · have hlen := length_le_of_answer _hanswer
    have hbuffer : (putAt buffer filled (b :: piece)).length = buffer.length :=
      length_putAt (by omega)
    apply Prod.Lex.left
    rw [hbuffer, List.length_cons]
    omega
  · apply Prod.Lex.right
    exact length_lt_of_interrupted _hanswer

/-- A reading is one request, and then a reading of what is still missing. -/
theorem readAtMost_answer {asked : Nat} (hasked : 0 < asked) (r : Reader) :
    readAtMost asked r =
      match r.answer asked with
      | (.bytes [], rest) => .ok ([], rest)
      | (.bytes (b :: piece), rest) =>
        match readAtMost (asked - (b :: piece).length) rest with
        | .ok (more, rest) => .ok (b :: piece ++ more, rest)
        | .error cause => .error cause
      | (.interrupted, rest) => readAtMost asked rest
      | (.failed cause, _) => .error cause := by
  obtain ⟨want, rfl⟩ := Nat.exists_eq_add_one.mpr hasked
  match r with
  | [] => rfl
  | .interrupted :: r => rfl
  | .failed cause :: r => rfl
  | .bytes [] :: r => rfl
  | .bytes (b :: piece) :: r =>
    by_cases hle : want + 1 ≤ piece.length
    · -- what is left of the piece stays in store, and nothing is missing any more
      have hlong : ¬ piece.length ≤ want := by omega
      have hmin : min want piece.length = want := by omega
      simp [readAtMost, answer, hle, hlong, hmin]
    · have hshort : (b :: piece).length ≤ want + 1 := by
        rw [List.length_cons]
        omega
      have hanswer : answer (want + 1) (.bytes (b :: piece) :: r) = (.bytes (b :: piece), r) :=
        if_pos hshort
      have hleft : want + 1 - (b :: piece).length = want - piece.length := by
        rw [List.length_cons]
        omega
      rw [readAtMost, if_neg hle, hanswer]
      cases hmore : readAtMost (want - piece.length) r with
      | error cause => simp only [hleft, hmore]
      | ok result => simp only [hleft, hmore]

theorem putAt_nil (buffer : Bytes) (offset : Nat) : putAt buffer offset [] = buffer := by
  simp [putAt]

/-- What is put behind other bytes is put with them. -/
theorem putAt_putAt {buffer xs : Bytes} {offset : Nat} (h : offset ≤ buffer.length)
    (ys : Bytes) :
    putAt (putAt buffer offset xs) (offset + xs.length) ys = putAt buffer offset (xs ++ ys) := by
  have hfront : (buffer.take offset ++ xs).length = offset + xs.length := by
    simp
    omega
  have hbehind : (buffer.take offset ++ xs ++ buffer.drop (offset + xs.length)).drop
      (offset + xs.length + ys.length) = buffer.drop (offset + (xs ++ ys).length) := by
    rw [List.drop_append, List.drop_of_length_le (by omega), hfront, List.drop_drop,
      List.length_append, List.nil_append]
    congr 1
    omega
  simp only [putAt, ← List.append_assoc] at hbehind ⊢
  rw [List.take_left' hfront, hbehind]

/-- Asking request by request comes to the same as one reading. -/
theorem fill_eq {buffer : Bytes} {filled : Nat} (h : filled ≤ buffer.length) (r : Reader) :
    fill buffer filled r =
      match readAtMost (buffer.length - filled) r with
      | .error cause => .error cause
      | .ok (bytes, rest) => .ok (filled + bytes.length, putAt buffer filled bytes, rest) := by
  fun_induction fill buffer filled r with
  | case1 buffer filled r hmissing rest hanswer =>
    rw [readAtMost_answer (by omega), hanswer]
    simp [putAt_nil]
  | case2 buffer filled r hmissing b piece rest hanswer ih =>
    have hlen := length_le_of_answer hanswer
    have hbuffer : (putAt buffer filled (b :: piece)).length = buffer.length :=
      length_putAt (by omega)
    rw [ih (by omega), hbuffer, readAtMost_answer (by omega) r, hanswer, Nat.sub_add_eq]
    dsimp only
    cases readAtMost (buffer.length - filled - (b :: piece).length) rest with
    | error cause => rfl
    | ok result =>
      dsimp only
      rw [putAt_putAt h, List.length_append, Nat.add_assoc]
  | case3 buffer filled r hmissing rest hanswer ih =>
    rw [ih h, readAtMost_answer (by omega) r, hanswer]
  | case4 buffer filled r hmissing cause rest hanswer =>
    rw [readAtMost_answer (by omega), hanswer]
  | case5 buffer filled r hfull =>
    rw [show buffer.length - filled = 0 by omega, readAtMost]
    simp [putAt_nil]

/-- **How the bytes are cut into pieces does not show in a buffer.** A buffer that is filled from a
reader gets the bytes that the reader delivers, as many as there are and as it has room for, and
keeps its own bytes behind them; this fails exactly if the reader fails before the buffer is full.
From the reader these bytes are taken and no others: once the buffer is full, it still has all that
follow in store, and ends as it would have ended. A reader that delivers the same bytes and ends in
the same way does the same, whatever pieces it cuts them into and wherever it is interrupted. -/
theorem fill_ignores_pieces (buffer : Bytes) (r : Reader) :
    (∀ cause, fill buffer 0 r = .error cause ↔
      r.delivered.length < buffer.length ∧ r.cause? = some cause) ∧
    ((∀ cause, fill buffer 0 r ≠ .error cause) → ∃ n rest,
      n = min buffer.length r.delivered.length ∧
      fill buffer 0 r = .ok (n, r.delivered.take n ++ buffer.drop n, rest) ∧
      readAtMost buffer.length r = .ok (r.delivered.take n, rest) ∧
      r.HandsOut (r.delivered.take n) rest ∧
      (n = buffer.length → rest.delivered = r.delivered.drop n ∧ rest.cause? = r.cause?)) ∧
    ∀ r' : Reader, r'.delivered = r.delivered → r'.cause? = r.cause? →
      (fill buffer 0 r').map (fun x => (x.1, x.2.1)) =
        (fill buffer 0 r).map fun x => (x.1, x.2.1) := by
  have hloop : ∀ r : Reader, fill buffer 0 r = match readAtMost buffer.length r with
      | .error cause => .error cause
      | .ok (bytes, rest) => .ok (bytes.length, bytes ++ buffer.drop bytes.length, rest) := by
    intro r
    rw [fill_eq (Nat.zero_le _), Nat.sub_zero]
    cases readAtMost buffer.length r with
    | error cause => rfl
    | ok result => simp [putAt]
  refine ⟨fun cause => ?_, fun hok => ?_, fun r' hdelivered hcause => ?_⟩
  · rw [hloop]
    rcases readAtMost_cases buffer.length r with
      ⟨hle, rest, h, -⟩ | ⟨hlt, hend, rest, h⟩ | ⟨hlt, cause', hfails, h⟩
    · rw [h]
      simp
      omega
    · rw [h, hend]
      simp
    · rw [h, hfails]
      simp [hlt]
  · rcases readAtMost_cases buffer.length r with
      ⟨hle, rest, h, hrest⟩ | ⟨hlt, hend, rest, h⟩ | ⟨hlt, cause', hfails, h⟩
    · refine ⟨buffer.length, rest, by omega, ?_, h, handsOut_readAtMost h, fun _ => hrest⟩
      rw [hloop, h]
      simp [hle]
    · have hall : r.delivered.take r.delivered.length = r.delivered := List.take_length
      refine ⟨r.delivered.length, rest, by omega, ?_, by rw [hall, h], ?_, by omega⟩
      · rw [hloop, h, hall]
      · rw [hall]
        exact handsOut_readAtMost h
    · exact absurd (by rw [hloop, h]) (hok cause')
  · have hvisible : ∀ r : Reader, (fill buffer 0 r).map (fun x => (x.1, x.2.1)) =
        ((readAtMost buffer.length r).map (·.1)).map fun bytes =>
          (bytes.length, bytes ++ buffer.drop bytes.length) := by
      intro r
      rw [hloop]
      cases readAtMost buffer.length r <;> rfl
    rw [hvisible, hvisible, map_readAtMost, map_readAtMost, hdelivered, hcause]

/-- Five bytes in three pieces, with two interruptions and a failure behind them: four of them are
read as they would be from one piece, the fifth stays in store, and six cannot be read. -/
theorem fill_ignores_pieces_interrupted :
    let pieces : Reader :=
      [.bytes [1, 2], .interrupted, .bytes [3], .interrupted, .bytes [4, 5], .failed .device]
    let whole : Reader := [.bytes [1, 2, 3, 4, 5], .failed .device]
    fill [0, 0, 0, 0] 0 pieces = .ok (4, [1, 2, 3, 4], [.bytes [5], .failed .device]) ∧
    fill [0, 0, 0, 0, 0, 0] 0 pieces = .error .device ∧
    (fill [0, 0, 0, 0] 0 pieces).map (fun x => (x.1, x.2.1)) =
      (fill [0, 0, 0, 0] 0 whole).map fun x => (x.1, x.2.1) := by
  intro pieces whole
  obtain ⟨hfails, hok, hsame⟩ := fill_ignores_pieces [0, 0, 0, 0] pieces
  have hnever : ∀ cause, fill [0, 0, 0, 0] 0 pieces ≠ .error cause := by
    intro cause h
    exact absurd ((hfails cause).mp h).1 (by decide)
  obtain ⟨n, rest, hn, hfill, hread, -⟩ := hok hnever
  obtain rfl : n = 4 := hn
  have hrest : readAtMost 4 pieces =
      .ok ([1, 2, 3, 4], [.bytes [5], .failed .device]) := rfl
  obtain rfl : rest = [.bytes [5], .failed .device] :=
    congrArg Prod.snd (Except.ok.inj (hread.symm.trans hrest))
  refine ⟨hfill, ?_, (hsame whole rfl rfl).symm⟩
  exact ((fill_ignores_pieces [0, 0, 0, 0, 0, 0] pieces).1 .device).mpr ⟨by decide, rfl⟩

end Reader

end SegmentLog
