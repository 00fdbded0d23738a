import Mathlib.Algebra.Group.Nat.Defs
import SegmentLog.Segment.Basic

/-!
# How claims fill a segment

Claims are granted one behind the other, and their frames are written in any order, well or badly.
A ledger of the claims that were granted keeps what is known of them, and the segment agrees with it
whatever is asked of it.

* `Ledger.serve` — what a claim and a write make of a segment and the ledger of its claims;
* `map_claimedEnd?`, `hasRoom_eq` — whether a claim fits, counted in words;
* `Ledger.Sound.serve`, `Ledger.Sound.serveAll` — what every request leaves as it is;
* `Ledger.Sound.waits_eq_false_iff` — when a wait for earlier writes comes back;
* `Segment.claims_tile` — what holds after any run of requests.
-/

namespace SegmentLog

/-- A claim that was granted: the range it takes up, and whether its write is over. -/
structure Grant where
  start : Nat
  length : Nat
  ended : Bool := false
  deriving DecidableEq, Repr

/-- A segment with its disk, and the claims that it has granted, the oldest first. -/
structure Ledger where
  segment : Segment
  disk : Disk
  granted : List Grant := []

namespace Grant

/-- Whether a place lies in the range of a claim. -/
def Covers (g : Grant) (place : Nat) : Prop := g.start ≤ place ∧ place < g.start + g.length

/-- A claim, after the write of the one that begins at `offset` was made. -/
def writtenAt (offset : Nat) (g : Grant) : Grant := { g with ended := g.ended || g.start == offset }

/-- Whether the ranges of some claims lie one behind the other, from one offset to another. -/
def Tile : Nat → Nat → List Grant → Prop
  | start, stop, [] => start = stop
  | start, stop, g :: more => g.start = start ∧ Tile (start + g.length) stop more

variable {start stop : Nat} {granted : List Grant} {g : Grant}

theorem tile_concat (h : Tile start stop granted) (length : Nat) :
    Tile start (stop + length) (granted ++ [⟨stop, length, false⟩]) := by
  induction granted generalizing start with
  | nil => exact ⟨h.symm, congrArg (· + length) h⟩
  | cons g more ih => exact ⟨h.1, ih h.2⟩

/-- That a write is over moves no range. -/
theorem Tile.writtenAt (h : Tile start stop granted) (offset : Nat) :
    Tile start stop (granted.map (writtenAt offset)) := by
  induction granted generalizing start with
  | nil => exact h
  | cons g more ih => exact ⟨h.1, ih h.2⟩

theorem Tile.start_le (h : Tile start stop granted) : start ≤ stop := by
  induction granted generalizing start with
  | nil => exact Nat.le_of_eq h
  | cons g more ih => exact Nat.le_of_add_right_le (ih h.2)

theorem Tile.bounds (h : Tile start stop granted) (hg : g ∈ granted) :
    start ≤ g.start ∧ g.start + g.length ≤ stop := by
  induction granted generalizing start with
  | nil => cases hg
  | cons g' more ih =>
    obtain ⟨hstart, hmore⟩ := h
    rcases List.mem_cons.mp hg with rfl | hg
    · have := hmore.start_le
      omega
    · have := ih hmore hg
      omega

/-- Ranges that lie one behind the other leave no place out. -/
theorem Tile.covered (h : Tile start stop granted) {place : Nat} :
    start ≤ place ∧ place < stop ↔ ∃ g ∈ granted, g.Covers place := by
  constructor
  · rintro ⟨hle, hlt⟩
    induction granted generalizing start with
    | nil =>
      have hnone : start = stop := h
      omega
    | cons g more ih =>
      obtain ⟨hstart, hmore⟩ := h
      by_cases hplace : place < start + g.length
      · exact ⟨g, List.mem_cons_self, by omega, by omega⟩
      · obtain ⟨g', hg', hcovers⟩ := ih hmore (by omega)
        exact ⟨g', List.mem_cons_of_mem _ hg', hcovers⟩
  · rintro ⟨g, hg, hle, hlt⟩
    have := h.bounds hg
    omega

/-- Of ranges that lie one behind the other, each one ends before the next ones begin. -/
theorem Tile.ordered (h : Tile start stop granted) :
    granted.Pairwise fun g g' => g.start + g.length ≤ g'.start := by
  induction granted generalizing start with
  | nil => exact .nil
  | cons g more ih =>
    obtain ⟨hstart, hmore⟩ := h
    refine .cons (fun g' hg' => ?_) (ih hmore)
    rw [hstart]
    exact (hmore.bounds hg').1

end Grant

namespace Ledger

/-- What is asked of a segment: to grant a claim, or to write a frame where one begins. -/
inductive Request where
  | claim (length : Nat)
  | write (offset : Nat) (frame : Bytes)
  deriving DecidableEq, Repr

/-- Serves a request. A claim that is granted is put down, and a write is over when it was made,
whatever came of it. -/
def serve (l : Ledger) : Request → Ledger
  | .claim length =>
    match l.segment.claim length with
    | none => l
    | some (offset, s) => { l with segment := s, granted := l.granted ++ [⟨offset, length, false⟩] }
  | .write offset frame =>
    let (_, s, d) := l.segment.write l.disk offset frame
    ⟨s, d, l.granted.map (Grant.writtenAt offset)⟩

/-- Serves requests one after the other. -/
def serveAll (l : Ledger) : List Request → Ledger := List.foldl serve l

/-- Whether a request may be made: something is claimed, and the sum with the cursor is a word of
eight bytes; or the frame of a claim is written that was granted. -/
def Allows (l : Ledger) : Request → Prop
  | .claim length => 0 < length ∧ l.segment.cursor + length < 2 ^ 64
  | .write offset _ => ∃ g ∈ l.granted, g.start = offset

instance (l : Ledger) : (request : Request) → Decidable (l.Allows request)
  | .claim length => inferInstanceAs (Decidable (0 < length ∧ l.segment.cursor + length < 2 ^ 64))
  | .write offset _ => inferInstanceAs (Decidable (∃ g ∈ l.granted, g.start = offset))

/-- Whether requests may be made one after the other. -/
def AllowsAll : Ledger → List Request → Prop
  | _, [] => True
  | l, request :: more => l.Allows request ∧ (l.serve request).AllowsAll more

instance decidableAllowsAll : (l : Ledger) → (requests : List Request) →
    Decidable (l.AllowsAll requests)
  | _, [] => .isTrue trivial
  | l, request :: more => @instDecidableAnd _ _ _ (decidableAllowsAll (l.serve request) more)

/-- Whether a wait for the writes before an offset, once it sleeps, still does when some requests
have been served. It is woken whenever a write is over, and looks at the pending claims again. -/
def sleeps (offset : Nat) : Ledger → List Request → Bool
  | _, [] => true
  | l, .claim length :: more => (l.serve (.claim length)).sleeps offset more
  | l, .write o frame :: more =>
    (l.serve (.write o frame)).segment.awaitsBefore offset &&
      (l.serve (.write o frame)).sleeps offset more

/-- Whether a wait for the writes before an offset does not come back while requests are served. -/
def waits (l : Ledger) (offset : Nat) (requests : List Request) : Bool :=
  l.segment.awaitsBefore offset && l.sleeps offset requests

/-- What a segment and the ledger of its claims agree on. -/
structure Sound (capacity : Nat) (l : Ledger) : Prop where
  capacity_eq : l.segment.capacity = capacity
  cursor_le : l.segment.cursor ≤ capacity
  tile : Grant.Tile 0 l.segment.cursor l.granted
  pos : ∀ g ∈ l.granted, 0 < g.length
  pending_iff : ∀ o, o ∈ l.segment.pending ↔ ∃ g ∈ l.granted, g.start = o ∧ g.ended = false

end Ledger

/-! ## Words -/

/-- Where a claim would end, counted in words: nowhere if the sum is not a word, or lies beyond the
capacity. -/
def claimedEnd? (cursor length capacity : UInt64) : Option UInt64 :=
  if 2 ^ 64 ≤ cursor.toNat + length.toNat then none
  else if cursor + length ≤ capacity then some (cursor + length) else none

/-- Whether so much more fits, counted in words: the sum is taken as it is. -/
def hasRoom (cursor length capacity : UInt64) : Bool := cursor + length ≤ capacity

variable {s : Segment} {cursor length capacity : UInt64}

/-- A claim that is counted in words ends where the claim ends. -/
theorem map_claimedEnd? (hcursor : s.cursor = cursor.toNat)
    (hcapacity : s.capacity = capacity.toNat) :
    (claimedEnd? cursor length capacity).map (·.toNat) =
      (s.claim length.toNat).map (·.2.cursor) := by
  have hword := capacity.toNat_lt
  unfold claimedEnd? Segment.claim
  rw [hcursor, hcapacity]
  by_cases hover : 2 ^ 64 ≤ cursor.toNat + length.toNat
  · rw [if_pos hover, if_neg (by omega)]
    rfl
  · have hsum : (cursor + length).toNat = cursor.toNat + length.toNat := by
      rw [UInt64.toNat_add, Nat.mod_eq_of_lt (by omega)]
    have hle : cursor + length ≤ capacity ↔ cursor.toNat + length.toNat ≤ capacity.toNat := by
      rw [UInt64.le_iff_toNat_le, hsum]
    rw [if_neg hover]
    simp only [hle]
    split
    · simp [hsum]
    · rfl

/-- As long as the sum is a word, there is room in words where there is room. -/
theorem hasRoom_eq (hcursor : s.cursor = cursor.toNat) (hcapacity : s.capacity = capacity.toNat)
    (hword : cursor.toNat + length.toNat < 2 ^ 64) :
    hasRoom cursor length capacity = s.fits length.toNat := by
  have hsum : (cursor + length).toNat = cursor.toNat + length.toNat := by
    rw [UInt64.toNat_add, Nat.mod_eq_of_lt hword]
  rw [hasRoom, Segment.fits, hcursor, hcapacity, decide_eq_decide, UInt64.le_iff_toNat_le, hsum]

/-- A sum that is no longer a word makes room where there is none, but no claim is granted. -/
example : hasRoom 20 0xFFFFFFFFFFFFFFFF 100 = true ∧
    claimedEnd? 20 0xFFFFFFFFFFFFFFFF 100 = none := by
  constructor <;> rfl

/-! ## One request -/

namespace Segment

/-- A new segment has granted nothing. -/
theorem sound_create {d d' : Disk} {directory : Path} {stem : String} {name : SegmentName}
    {capacity : Nat} (h : create d directory stem name capacity = (.ok s, d')) :
    Ledger.Sound capacity ⟨s, d', []⟩ := by
  unfold create at h
  dsimp only at h
  split at h
  · cases h
  · cases h
    exact ⟨rfl, Nat.zero_le _, rfl, by simp, by simp⟩

/-- A write is over when it was made, whatever came of it, and changes nothing else that claims
depend on. -/
theorem write_eq (s : Segment) (d : Disk) (offset : Nat) (frame : Bytes) :
    (s.write d offset frame).2.1.cursor = s.cursor ∧
    (s.write d offset frame).2.1.capacity = s.capacity ∧
    (s.write d offset frame).2.1.pending = (s.release offset).pending := by
  unfold write
  split <;> exact ⟨rfl, rfl, rfl⟩

end Segment

namespace Ledger

variable {capacity : Nat} {l : Ledger}

theorem Sound.claim (h : l.Sound capacity) {length : Nat} (hpos : 0 < length) :
    (l.serve (.claim length)).Sound capacity := by
  cases hclaim : l.segment.claim length with
  | none =>
    simp only [serve, hclaim]
    exact h
  | some result =>
    obtain ⟨offset, s⟩ := result
    obtain ⟨hfits, rfl, hs⟩ := Segment.claim_eq_some_iff.mp hclaim
    have hroom : l.segment.cursor + length ≤ l.segment.capacity := of_decide_eq_true hfits
    simp only [serve, hclaim]
    refine ⟨?_, ?_, ?_, ?_, fun o => ?_⟩
    · rw [hs]
      exact h.capacity_eq
    · rw [hs, ← h.capacity_eq]
      exact hroom
    · rw [hs]
      exact Grant.tile_concat h.tile length
    · intro g hg
      rcases List.mem_append.mp hg with hg | hg
      · exact h.pos g hg
      · rw [List.mem_singleton.mp hg]
        exact hpos
    · rw [Segment.mem_pending_claim hclaim, h.pending_iff o]
      constructor
      · rintro (rfl | ⟨g, hg, hstart⟩)
        · exact ⟨_, List.mem_append_right _ (List.mem_singleton_self _), rfl, rfl⟩
        · exact ⟨g, List.mem_append_left _ hg, hstart⟩
      · rintro ⟨g, hg, hstart, hended⟩
        rcases List.mem_append.mp hg with hg | hg
        · exact .inr ⟨g, hg, hstart, hended⟩
        · rw [List.mem_singleton.mp hg] at hstart
          exact .inl hstart.symm

theorem Sound.write (h : l.Sound capacity) (offset : Nat) (frame : Bytes) :
    (l.serve (.write offset frame)).Sound capacity := by
  obtain ⟨hcursor, hcapacity, hpending⟩ := l.segment.write_eq l.disk offset frame
  refine ⟨?_, ?_, ?_, ?_, fun o => ?_⟩
  · exact hcapacity.trans h.capacity_eq
  · exact Nat.le_trans (Nat.le_of_eq hcursor) h.cursor_le
  · show Grant.Tile 0 (l.segment.write l.disk offset frame).2.1.cursor _
    rw [hcursor]
    exact h.tile.writtenAt offset
  · intro g hg
    obtain ⟨g', hg', rfl⟩ := List.mem_map.mp hg
    exact h.pos g' hg'
  · show o ∈ (l.segment.write l.disk offset frame).2.1.pending ↔ _
    rw [hpending, Segment.mem_pending_release, h.pending_iff o]
    constructor
    · rintro ⟨⟨g, hg, rfl, hended⟩, hother⟩
      refine ⟨g.writtenAt offset, List.mem_map_of_mem hg, rfl, ?_⟩
      simp [Grant.writtenAt, hended, hother]
    · rintro ⟨g', hg', rfl, hended⟩
      obtain ⟨g, hg, rfl⟩ := List.mem_map.mp hg'
      simp only [Grant.writtenAt, Bool.or_eq_false_iff, beq_eq_false_iff_ne] at hended ⊢
      exact ⟨⟨g, hg, rfl, hended.1⟩, hended.2⟩

/-- No request that may be made parts a segment from the ledger of its claims. -/
theorem Sound.serve (h : l.Sound capacity) {request : Request} (hallowed : l.Allows request) :
    (l.serve request).Sound capacity := by
  cases request with
  | claim length => exact h.claim hallowed.1
  | write offset frame => exact h.write offset frame

/-- No run of requests parts a segment from the ledger of its claims. -/
theorem Sound.serveAll (h : l.Sound capacity) {requests : List Request}
    (hallowed : l.AllowsAll requests) : (l.serveAll requests).Sound capacity := by
  induction requests generalizing l with
  | nil => exact h
  | cons request more ih => exact ih (h.serve hallowed.1) hallowed.2

/-! ## Waiting -/

/-- A wait for the writes before an offset goes on exactly if the write of a claim before it is not
over. -/
theorem Sound.awaitsBefore_eq_false_iff (h : l.Sound capacity) (offset : Nat) :
    l.segment.awaitsBefore offset = false ↔
      ∀ g ∈ l.granted, g.start < offset → g.ended = true := by
  rw [Segment.awaitsBefore, List.any_eq_false]
  constructor
  · intro hnone g hg hlt
    cases hended : g.ended with
    | true => rfl
    | false =>
      have hpending := (h.pending_iff g.start).mpr ⟨g, hg, rfl, hended⟩
      exact absurd (decide_eq_true hlt) (hnone g.start hpending)
  · intro hall o ho hlt
    obtain ⟨g, hg, rfl, hended⟩ := (h.pending_iff o).mp ho
    rw [hall g hg (of_decide_eq_true hlt)] at hended
    cases hended

/-- A claim ends no wait. -/
theorem awaitsBefore_claim {offset : Nat} (h : l.segment.awaitsBefore offset = true)
    (length : Nat) : (l.serve (.claim length)).segment.awaitsBefore offset = true := by
  cases hclaim : l.segment.claim length with
  | none =>
    simp only [serve, hclaim]
    exact h
  | some result =>
    obtain ⟨o, ho, hlt⟩ := List.any_eq_true.mp h
    simp only [serve, hclaim]
    exact List.any_eq_true.mpr ⟨o, (Segment.mem_pending_claim hclaim).mpr (.inr ho), hlt⟩

/-- A wait that sleeps has something to wait for after each of the requests. -/
theorem sleeps_iff {offset : Nat} (h : l.segment.awaitsBefore offset = true)
    (requests : List Request) :
    l.sleeps offset requests = true ↔
      ∀ n < requests.length + 1,
        (l.serveAll (requests.take n)).segment.awaitsBefore offset = true := by
  induction requests generalizing l with
  | nil =>
    refine iff_of_true rfl fun n hn => ?_
    rw [List.take_nil]
    exact h
  | cons request more ih =>
    have hsplit : (∀ n < (request :: more).length + 1,
        (l.serveAll ((request :: more).take n)).segment.awaitsBefore offset = true) ↔
        ∀ n < more.length + 1,
          ((l.serve request).serveAll (more.take n)).segment.awaitsBefore offset = true := by
      rw [Nat.forall_lt_succ_left]
      exact and_iff_right h
    rw [hsplit]
    cases request with
    | claim length => exact ih (awaitsBefore_claim h length)
    | write o frame =>
      rw [sleeps, Bool.and_eq_true]
      constructor
      · rintro ⟨hawaits, hsleeps⟩
        exact (ih hawaits).mp hsleeps
      · intro hall
        have hawaits := hall 0 (Nat.succ_pos _)
        exact ⟨hawaits, (ih hawaits).mpr hall⟩

theorem AllowsAll.take {requests : List Request} (h : l.AllowsAll requests) (n : Nat) :
    l.AllowsAll (requests.take n) := by
  induction requests generalizing l n with
  | nil =>
    rw [List.take_nil]
    exact h
  | cons request more ih =>
    cases n with
    | zero => trivial
    | succ n => exact ⟨h.1, ih h.2 n⟩

/-- A wait for the writes before an offset comes back exactly if at some time the writes of all
claims before it are over. -/
theorem Sound.waits_eq_false_iff (h : l.Sound capacity) (offset : Nat) {requests : List Request}
    (hallowed : l.AllowsAll requests) :
    l.waits offset requests = false ↔
      ∃ n ≤ requests.length,
        ∀ g ∈ (l.serveAll (requests.take n)).granted, g.start < offset → g.ended = true := by
  have hended : ∀ n, (l.serveAll (requests.take n)).segment.awaitsBefore offset = false ↔
      ∀ g ∈ (l.serveAll (requests.take n)).granted, g.start < offset → g.ended = true :=
    fun n => (h.serveAll (hallowed.take n)).awaitsBefore_eq_false_iff offset
  simp only [← hended, ← Nat.lt_succ_iff]
  rw [waits]
  cases hnow : l.segment.awaitsBefore offset with
  | false => exact iff_of_true rfl ⟨0, Nat.succ_pos _, hnow⟩
  | true =>
    rw [Bool.true_and, ← Bool.not_eq_true, sleeps_iff hnow]
    simp

end Ledger

/-- **Claims tile a segment.** Whatever is claimed in a new segment, and in whatever order frames
are written where claims were granted, well or badly: the ranges of the claims lie one behind the
other from the beginning to the cursor, so that every place before the cursor lies in exactly one of
them, and the cursor does not pass the capacity. A claim is refused exactly if it does not fit, in
words as in numbers, and then nothing changes. What is pending are the beginnings of the claims
whose writes are not over; so a wait for the writes before an offset comes back at once exactly if
the writes of all claims before it are over, and else as soon as they are. -/
theorem Segment.claims_tile {capacity : UInt64} {d d' : Disk} {directory : Path} {stem : String}
    {name : SegmentName} {s : Segment}
    (hcreate : create d directory stem name capacity.toNat = (.ok s, d'))
    {requests : List Ledger.Request}
    (hallowed : (⟨s, d', []⟩ : Ledger).AllowsAll requests) :
    ∀ l, (⟨s, d', []⟩ : Ledger).serveAll requests = l →
      (Grant.Tile 0 l.segment.cursor l.granted ∧ l.segment.cursor ≤ capacity.toNat ∧
        (∀ place, place < l.segment.cursor ↔ ∃ g ∈ l.granted, g.Covers place) ∧
        l.granted.Pairwise fun g g' => g.start + g.length ≤ g'.start) ∧
      (∀ cursor length : UInt64, l.segment.cursor = cursor.toNat → l.Allows (.claim length.toNat) →
        (l.segment.claim length.toNat = none ↔ l.segment.fits length.toNat = false) ∧
        (claimedEnd? cursor length capacity).map (·.toNat) =
          (l.segment.claim length.toNat).map (·.2.cursor) ∧
        hasRoom cursor length capacity = l.segment.fits length.toNat ∧
        (l.segment.claim length.toNat = none → l.serve (.claim length.toNat) = l)) ∧
      (∀ o, o ∈ l.segment.pending ↔ ∃ g ∈ l.granted, g.start = o ∧ g.ended = false) ∧
      (∀ o, l.segment.awaitsBefore o = false ↔
        ∀ g ∈ l.granted, g.start < o → g.ended = true) ∧
      ∀ o more, l.AllowsAll more → (l.waits o more = false ↔ ∃ n ≤ more.length,
        ∀ g ∈ (l.serveAll (more.take n)).granted, g.start < o → g.ended = true) := by
  rintro l rfl
  have h := (sound_create hcreate).serveAll hallowed
  refine ⟨⟨h.tile, h.cursor_le, fun place => ?_, h.tile.ordered⟩,
    fun cursor length hcursor hclaim => ⟨claim_eq_none_iff, map_claimedEnd? hcursor h.capacity_eq,
      hasRoom_eq hcursor h.capacity_eq ?_, fun hnone => ?_⟩,
    h.pending_iff, h.awaitsBefore_eq_false_iff, fun o more => h.waits_eq_false_iff o⟩
  · rw [← h.tile.covered]
    exact (and_iff_right (Nat.zero_le place)).symm
  · rw [← hcursor]
    exact hclaim.2
  · simp only [Ledger.serve, hnone]

/-- Three claims in a segment of a hundred bytes, of which the second one does not fit. The frame of
the last one is written, so that a wait for the first one goes on; it comes back when the write of
the first one has failed. -/
theorem Segment.claims_tile_failing : ∃ s d',
    create { faults := { write := [none, some (0, .device)] } } (.ofString "") "CommitLog" ⟨7, 3⟩
      100 = (.ok s, d') ∧
    ∃ l, (⟨s, d', []⟩ : Ledger).serveAll [.claim 60, .claim 50, .claim 40, .write 60 [1, 2]] = l ∧
      l.granted = [⟨0, 60, false⟩, ⟨60, 40, true⟩] ∧ l.segment.cursor = 100 ∧
      Grant.Tile 0 100 l.granted ∧ l.segment.awaitsBefore 60 = true ∧
      l.waits 60 [.write 0 [3]] = false := by
  obtain ⟨s, d', hcreate, hallowed, hgranted, hcursor⟩ : ∃ s d',
      create { faults := { write := [none, some (0, .device)] } } (.ofString "") "CommitLog" ⟨7, 3⟩
        100 = (.ok s, d') ∧
      (⟨s, d', []⟩ : Ledger).AllowsAll [.claim 60, .claim 50, .claim 40, .write 60 [1, 2]] ∧
      ((⟨s, d', []⟩ : Ledger).serveAll
        [.claim 60, .claim 50, .claim 40, .write 60 [1, 2]]).granted =
          [⟨0, 60, false⟩, ⟨60, 40, true⟩] ∧
      ((⟨s, d', []⟩ : Ledger).serveAll
        [.claim 60, .claim 50, .claim 40, .write 60 [1, 2]]).segment.cursor = 100 :=
    ⟨_, _, rfl, by decide +kernel, rfl, rfl⟩
  have hcapacity : (100 : UInt64).toNat = 100 := rfl
  rw [← hcapacity] at hcreate
  obtain ⟨⟨htile, -⟩, -, -, hawaits, hwaits⟩ := claims_tile hcreate hallowed _ rfl
  refine ⟨s, d', hcreate, _, rfl, hgranted, hcursor, ?_, ?_, ?_⟩
  · rw [← hcursor]
    exact htile
  · rw [← Bool.not_eq_false, hawaits, hgranted]
    decide
  · refine (hwaits 60 [.write 0 [3]] ⟨⟨⟨0, 60, false⟩, ?_, rfl⟩, trivial⟩).mpr ⟨1, by decide, ?_⟩
    · rw [hgranted]
      decide
    · -- the write is over, whatever came of it
      show ∀ g ∈ List.map (Grant.writtenAt 0) _, _
      rw [hgranted]
      decide

end SegmentLog
