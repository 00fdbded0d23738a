import SegmentLog.Proofs.Replay.Reading

/-!
# Replays into a target that refuses nothing

A target that refuses nothing is handed every record of every file, so that what becomes of it
says which records were applied, in which order, at which positions.

* `deliver_accepting` — such a target takes in the records of a scan one after the other;
* `file_accepting` — what the replay of one file does to it;
* `file_decodes` — a replay applies exactly the records whose frames the file begins with, and
  names what it found behind them.
-/

namespace SegmentLog

variable {σ : Type}

namespace Target

/-- Whether a target refuses no record. -/
def Accepting (target : Target σ) : Prop := ∀ p payload s, (target.apply p payload s).1 = .ok ()

/-- Whether a target refuses nothing, neither a record nor a flush. -/
structure NeverFails (target : Target σ) : Prop where
  accepting : target.Accepting
  flushes : ∀ s, (target.flush s).1 = .ok ()

/-- What becomes of a target that is handed some records. -/
def feed (target : Target σ) (records : List (Position × Bytes)) (s : σ) : σ :=
  records.foldl (fun s r => (target.apply r.1 r.2 s).2) s

theorem accepting_total (apply : Position → Bytes → σ → σ) : (total apply).Accepting :=
  fun _ _ _ => rfl

end Target

/-- The records of a segment with their positions. -/
def positioned (segment : SegmentId) (records : List (Nat × Bytes)) : List (Position × Bytes) :=
  records.map fun r => (⟨segment, r.1⟩, r.2)

theorem positioned_append (segment : SegmentId) (xs ys : List (Nat × Bytes)) :
    positioned segment (xs ++ ys) = positioned segment xs ++ positioned segment ys :=
  List.map_append

theorem mem_positioned {segment : SegmentId} {records : List (Nat × Bytes)} {offset : Nat}
    {payload : Bytes} :
    (⟨segment, offset⟩, payload) ∈ positioned segment records ↔ (offset, payload) ∈ records := by
  rw [positioned, List.mem_map]
  constructor
  · rintro ⟨r, hr, he⟩
    simp only [Prod.mk.injEq, Position.mk.injEq, true_and] at he
    obtain ⟨rfl, rfl⟩ := he
    exact hr
  · exact fun hr => ⟨_, hr, rfl⟩

/-- Records of segments in ascending order are in the order of their positions. -/
theorem ascending_positioned {ι : Type} {id : ι → SegmentId} {records : ι → List (Nat × Bytes)}
    {xs : List ι} (hrecords : ∀ x, (records x).Pairwise fun q q' => q.1 < q'.1)
    (h : xs.Pairwise fun x y => id x < id y) :
    (xs.flatMap fun x => positioned (id x) (records x)).Pairwise fun p q => p.1 < q.1 := by
  refine List.pairwise_flatMap.mpr ⟨fun x _ => ?_, h.imp fun hlt p hp q hq => ?_⟩
  · refine List.pairwise_map.mpr ((hrecords x).imp fun hlt => ?_)
    exact .inr ⟨rfl, hlt⟩
  · obtain ⟨_, -, rfl⟩ := List.mem_map.mp hp
    obtain ⟨_, -, rfl⟩ := List.mem_map.mp hq
    exact .inl hlt

/-- A replay under way after a target took in the records of a segment. -/
def Progress.fed (p : Progress σ) (target : Target σ) (segment : SegmentId)
    (records : List (Nat × Bytes)) : Progress σ where
  state := target.feed (positioned segment records) p.state
  last := ((positioned segment records).getLast?.map (·.1)).or p.last
  applied := p.applied + records.length
  passed := p.passed

/-- A target takes in the records of a segment one after the other. -/
theorem Progress.fed_cons {p : Progress σ} {target : Target σ} {segment : SegmentId}
    {offset : Nat} {payload : Bytes} {result : Except String Unit} {s : σ}
    (h : target.apply ⟨segment, offset⟩ payload p.state = (result, s))
    (more : List (Nat × Bytes)) :
    p.fed target segment ((offset, payload) :: more) =
      Progress.fed
        { p with state := s, last := some ⟨segment, offset⟩, applied := p.applied + 1 }
        target segment more := by
  simp only [Progress.fed, positioned, Target.feed, List.map_cons, List.foldl_cons, h,
    List.length_cons, Progress.mk.injEq]
  refine ⟨trivial, ?_, by omega, trivial⟩
  cases more with
  | nil => rfl
  | cons q qs =>
    rw [List.map_cons, List.getLast?_cons_cons, List.getLast?_eq_some_getLast (by simp)]
    rfl

namespace Replay

/-- No record lies before the start. -/
theorem not_lt_floor {r : Replay} (hr : r.floor = .start) (p : Position) : ¬ p < r.floor := by
  rw [hr, Position.not_lt]
  exact Position.start_le _

/-- No segment lies before the start as a whole. -/
theorem not_lt_floor_segment {r : Replay} (hr : r.floor = .start) (id : SegmentId) :
    ¬ id < r.floor.segment := by
  rw [hr]
  exact UInt64.not_lt.mpr UInt64.zero_le

/-- A target that refuses nothing takes in one record after the other. -/
theorem deliver_accepting {r : Replay} (hr : r.floor = .start) {target : Target σ}
    (ht : target.Accepting) (segment : SegmentId) (records : List (Nat × Bytes)) (p : Progress σ) :
    r.deliver target segment records p = (.ok (), p.fed target segment records) := by
  induction records generalizing p with
  | nil => rfl
  | cons record more ih =>
    obtain ⟨offset, payload⟩ := record
    obtain ⟨s, hs⟩ : ∃ s, target.apply ⟨segment, offset⟩ payload p.state = (.ok (), s) :=
      ⟨_, Prod.ext (ht _ _ _) rfl⟩
    rw [deliver_applied r target more (not_lt_floor hr _) hs, ih, Progress.fed_cons hs]

/-- What the replay of one file does to a target that refuses nothing. -/
theorem file_accepting {r : Replay} (hr : r.floor = .start) {target : Target σ}
    (ht : target.Accepting) {d : Disk} {path : Path} {bytes : Bytes}
    (hd : d.contents path = .ok bytes) (name : SegmentName) (p : Progress σ) :
    r.file target d name path p =
      (.ok { name, path, applied := (Scan.ofBytes bytes).records.length, passed := 0,
             tail := (Scan.ofBytes bytes).tail, stop := (Scan.ofBytes bytes).stop },
        { p with applied := 0, passed := 0 }.fed target name.id (Scan.ofBytes bytes).records) := by
  simp only [file_of_contents r target hd, deliver_accepting hr ht, Progress.fed, Nat.zero_add]

/-- **A replay decodes exactly the language of frames.** Whatever bytes a file holds, there is
one way to cut them into frames and a rest without one; a target that refuses nothing is handed
the payloads of these frames with the offsets at which they begin, and the report names the
reason that describes the rest. A file that is nothing but frames is replayed whole. -/
theorem file_decodes (bytes : Bytes) :
    (∃ s : Scan, s.Decodes bytes ∧ (∀ s' : Scan, s'.Decodes bytes → s' = s) ∧
      ∀ {σ : Type} {target : Target σ} {r : Replay} {d : Disk} {path : Path},
        target.Accepting → r.floor = .start → d.contents path = .ok bytes →
        ∀ (name : SegmentName) (p : Progress σ),
          r.file target d name path p =
            (.ok { name, path, applied := s.records.length, passed := 0, tail := s.tail,
                   stop := s.stop },
              { p with applied := 0, passed := 0 }.fed target name.id s.records)) ∧
    ∀ payloads frames : List Bytes,
      List.Forall₂ (fun x f => Frame.encode x Frame.maxSize = .ok f) payloads frames →
      frames.flatten = bytes →
      ∀ {σ : Type} {target : Target σ} {r : Replay} {d : Disk} {path : Path},
        target.Accepting → r.floor = .start → d.contents path = .ok bytes →
        ∀ (name : SegmentName) (p : Progress σ),
          r.file target d name path p =
            (.ok { name, path, applied := payloads.length, passed := 0, tail := .clean,
                   stop := bytes.length },
              { p with applied := 0, passed := 0 }.fed target name.id
                (Frame.layOut 0 payloads)) := by
  refine ⟨⟨Scan.ofBytes bytes, Scan.decodes_ofBytes bytes, fun s' => Scan.decodes_iff.mp, ?_⟩, ?_⟩
  · intro σ target r d path ht hr hd name p
    exact file_accepting hr ht hd name p
  · intro payloads frames henc hflat σ target r d path ht hr hd name p
    obtain ⟨hall, rfl⟩ := Frame.forall₂_encode_iff.mp henc
    have hscan := Scan.ofBytes_spell_clean hall
    rw [show Frame.spell payloads = bytes from hflat] at hscan
    rw [file_accepting hr ht hd, hscan, Frame.length_layOut]

/-- A file of two frames is replayed whole; with the beginning of a third frame behind them it
is still decoded, and the replay goes on to the same target. -/
theorem file_decodes_two_frames :
    (∃ s : Scan, s.Decodes (Frame.ofPayload [1, 2, 3] ++ Frame.ofPayload [4] ++ [0, 0, 0, 9]) ∧
      (({} : Replay).file (Target.total fun p x (s : List (Position × Bytes)) => s ++ [(p, x)])
        (({} : Disk).put (.ofString "CommitLog-3-7.log")
          (Frame.ofPayload [1, 2, 3] ++ Frame.ofPayload [4] ++ [0, 0, 0, 9]))
        ⟨7, 3⟩ (.ofString "CommitLog-3-7.log") { state := [] }).1 =
          .ok { name := ⟨7, 3⟩, path := .ofString "CommitLog-3-7.log",
                applied := s.records.length, passed := 0, tail := s.tail, stop := s.stop }) ∧
    (({} : Replay).file (Target.total fun p x (s : List (Position × Bytes)) => s ++ [(p, x)])
      (({} : Disk).put (.ofString "CommitLog-3-7.log")
        (Frame.ofPayload [1, 2, 3] ++ Frame.ofPayload [4]))
      ⟨7, 3⟩ (.ofString "CommitLog-3-7.log") { state := [] }).2.state =
        [(⟨7, 0⟩, [1, 2, 3]), (⟨7, 15⟩, [4])] := by
  constructor
  · obtain ⟨s, hs, -, hreplay⟩ :=
      (file_decodes (Frame.ofPayload [1, 2, 3] ++ Frame.ofPayload [4] ++ [0, 0, 0, 9])).1
    refine ⟨s, hs, ?_⟩
    rw [hreplay (Target.accepting_total _) rfl (by rfl)]
  · have hframes : List.Forall₂ (fun x f => Frame.encode x Frame.maxSize = .ok f)
        [[1, 2, 3], [4]] [Frame.ofPayload [1, 2, 3], Frame.ofPayload [4]] :=
      .cons (Frame.encode_eq_ok_iff.mpr ⟨by decide, by simp [Frame.maxSize], rfl⟩)
        (.cons (Frame.encode_eq_ok_iff.mpr ⟨by decide, by simp [Frame.maxSize], rfl⟩) .nil)
    rw [(file_decodes (Frame.ofPayload [1, 2, 3] ++ Frame.ofPayload [4])).2 _ _ hframes rfl
      (Target.accepting_total _) rfl (by rfl)]
    rfl

end Replay

end SegmentLog
