import SegmentLog.Proofs.Disk.Alike
import SegmentLog.Proofs.Frame.Language
import SegmentLog.Proofs.Replay.Floor

/-!
# Replays of files with the same outline

The outline of a file is all that a scan tells of it but the payloads: how long the file is, where
its records begin and how long they are, and where and why the reading stops. It follows from the
lengths of what was framed alone, whatever the payloads are, and whatever they look like. Replays of
files with the same outlines differ in nothing but the payloads that they hand to their targets.

* `outline`, `outline_put` — the outline of a file, when a frame is written at its end;
* `Target.Blind` — targets whose answers do not depend on the bytes of payloads;
* `run_alike` — the same replay on disks whose files have the same outlines.
-/

namespace SegmentLog

/-! ## Outlines -/

/-- The offsets of some records and the lengths of their payloads. -/
def extents (records : List (Nat × Bytes)) : List (Nat × Nat) :=
  records.map fun r => (r.1, r.2.length)

/-- What a scan tells of a file but the payloads. -/
structure Outline where
  length : Nat
  records : List (Nat × Nat)
  tail : Tail
  stop : Nat
  deriving DecidableEq

/-- The outline of a file that holds some bytes. -/
def outline (bytes : Bytes) : Outline where
  length := bytes.length
  records := extents (Scan.ofBytes bytes).records
  tail := (Scan.ofBytes bytes).tail
  stop := (Scan.ofBytes bytes).stop

/-- Why the reading stops depends on no byte behind a header. -/
theorem Tail.Describes.of_head {tail : Tail} {rest rest' : Bytes} (h : tail.Describes rest)
    (hlength : rest'.length = rest.length)
    (hhead : rest'.take Frame.overhead = rest.take Frame.overhead) : tail.Describes rest' := by
  have hfour : rest'.take 4 = rest.take 4 := by
    have htake := congrArg (List.take 4) hhead
    rwa [List.take_take, List.take_take] at htake
  have hsize : Frame.sizeField rest' = Frame.sizeField rest := by
    rw [Frame.sizeField, Frame.sizeField, hhead]
  have hchecksum : Frame.checksumField rest' = Frame.checksumField rest := by
    rw [Frame.checksumField, Frame.checksumField, hhead]
  cases tail with
  | clean =>
    have hnil : rest = [] := h
    rw [hnil, List.length_nil] at hlength
    exact List.eq_nil_of_length_eq_zero hlength
  | endMarker | truncated | checksumMismatch | invalidSize =>
    simp only [Tail.Describes, hlength, hfour, hsize, hchecksum] at h ⊢
    exact h

namespace Frame

/-- The header of a frame tells the length of the payload and nothing else of it. -/
theorem take_overhead_ofPayload {payload payload' : Bytes}
    (h : payload'.length = payload.length) :
    (ofPayload payload').take overhead = (ofPayload payload).take overhead := by
  rw [ofPayload, ofPayload, ofParts, ofParts, h, List.take_left' (Header.length_encode _),
    List.take_left' (Header.length_encode _)]

variable {payloads payloads' : List Bytes}

theorem extents_layOut (offset : Nat)
    (h : payloads'.map List.length = payloads.map List.length) :
    extents (layOut offset payloads') = extents (layOut offset payloads) := by
  induction payloads generalizing payloads' offset with
  | nil =>
    rw [List.map_nil, List.map_eq_nil_iff] at h
    rw [h]
  | cons payload more ih =>
    cases payloads' with
    | nil => cases h
    | cons payload' more' =>
      rw [List.map_cons, List.map_cons, List.cons.injEq] at h
      obtain ⟨hlength, hmore⟩ := h
      show (offset, payload'.length) :: extents (layOut _ more') =
        (offset, payload.length) :: extents (layOut _ more)
      rw [hlength, ih _ hmore]

theorem lengths_of_extents {offset : Nat}
    (h : extents (layOut offset payloads') = extents (layOut offset payloads)) :
    payloads'.map List.length = payloads.map List.length := by
  have hlengths : ∀ l : List Bytes, (extents (layOut offset l)).map (·.2) = l.map List.length := by
    intro l
    rw [extents, List.map_map, ← map_snd_layOut offset l, List.map_map, map_snd_layOut]
    rfl
  rw [← hlengths payloads', ← hlengths payloads, h]

theorem length_spell_of_lengths (h : payloads'.map List.length = payloads.map List.length) :
    (spell payloads').length = (spell payloads).length := by
  have hcount := congrArg List.length h
  rw [List.length_map, List.length_map] at hcount
  rw [length_spell, length_spell, hcount]
  exact congrArg (fun l => l.sum + overhead * payloads.length) h

end Frame

open SegmentLog.Frame

variable {payloads payloads' : List Bytes}

/-- Whole frames with payloads of the same lengths have the same outline, with the beginnings of
equal headers behind them. -/
theorem outline_spell (hall : ∀ x ∈ payloads, Framable x) (hall' : ∀ x ∈ payloads', Framable x)
    (h : payloads'.map List.length = payloads.map List.length) {rest rest' : Bytes} {tail : Tail}
    (htail : tail.Describes rest) (hlength : rest'.length = rest.length)
    (hhead : rest'.take overhead = rest.take overhead) :
    outline (spell payloads' ++ rest') = outline (spell payloads ++ rest) := by
  rw [outline, outline, Scan.ofBytes_spell hall htail,
    Scan.ofBytes_spell hall' (htail.of_head hlength hhead), List.length_append, List.length_append,
    length_spell_of_lengths h, hlength, extents_layOut 0 h]

/-- Files that hold whole frames and have the same outline hold payloads of the same lengths. -/
theorem lengths_of_outline (hall : ∀ x ∈ payloads, Framable x)
    (hall' : ∀ x ∈ payloads', Framable x)
    (h : outline (spell payloads') = outline (spell payloads)) :
    payloads'.map List.length = payloads.map List.length := by
  have hrecords := congrArg Outline.records h
  rw [outline, outline, Scan.ofBytes_spell_clean hall, Scan.ofBytes_spell_clean hall'] at hrecords
  exact lengths_of_extents hrecords

/-- Frames of payloads of the same length, or as much of them, leave the outlines of files equal
when they are written behind whole frames, whatever the payloads look like. -/
theorem outline_put (hall : ∀ x ∈ payloads, Framable x) (hall' : ∀ x ∈ payloads', Framable x)
    (h : outline (spell payloads') = outline (spell payloads)) {x x' : Bytes} (hx : Framable x)
    (hx' : Framable x') (hlength : x'.length = x.length) (n : Nat) :
    outline (spell payloads' ++ (ofPayload x').take n) =
      outline (spell payloads ++ (ofPayload x).take n) := by
  have hlengths := lengths_of_outline hall hall' h
  have hframe : (ofPayload x').length = (ofPayload x).length := by
    rw [length_ofPayload, length_ofPayload, hlength]
  by_cases hn : n < (ofPayload x).length
  · obtain ⟨tail, htail⟩ := exists_describes_of_torn hx (List.take_prefix n _)
      (by rw [List.length_take]; omega)
    refine outline_spell hall hall' hlengths htail ?_ ?_
    · rw [List.length_take, List.length_take, hframe]
    · rw [List.take_take, List.take_take, Nat.min_comm, ← List.take_take, ← List.take_take,
        take_overhead_ofPayload hlength]
  · have hwhole : ∀ {l : List Bytes} {y : Bytes}, (∀ z ∈ l, Framable z) → Framable y →
        ∀ z ∈ l ++ [y], Framable z := by
      intro l y hl hy z hz
      rcases List.mem_append.mp hz with hz | hz
      · exact hl z hz
      · rw [List.mem_singleton.mp hz]
        exact hy
    have hclean : Tail.Describes .clean [] := rfl
    rw [List.take_of_length_le (by omega), List.take_of_length_le (by omega),
      ← spell_singleton x, ← spell_singleton x', ← spell_append, ← spell_append,
      ← List.append_nil (spell (payloads ++ [x])), ← List.append_nil (spell (payloads' ++ [x']))]
    refine outline_spell (hwhole hall hx) (hwhole hall' hx') ?_ hclean rfl rfl
    rw [List.map_append, List.map_append, hlengths, List.map_singleton, List.map_singleton, hlength]

/-! ## Replays -/

variable {σ : Type} {rel : σ → σ → Prop}

/-- The positions of some records and the lengths of their payloads. -/
def sizes (records : List (Position × Bytes)) : List (Position × Nat) :=
  records.map fun q => (q.1, q.2.length)

/-- Whether a target cannot tell payloads of the same length apart: its answers do not depend on
their bytes, and it keeps a relation between its states, whatever the bytes are. -/
structure Target.Blind (target : Target σ) (rel : σ → σ → Prop) : Prop where
  apply : ∀ {p payload payload' s s'}, payload'.length = payload.length → rel s s' →
    Agree rel (target.apply p payload s) (target.apply p payload' s')
  flush : ∀ {s s'}, rel s s' → Agree rel (target.flush s) (target.flush s')

/-- A target that refuses nothing gives the same answer to everything. -/
theorem Target.NeverFails.blind {target : Target σ} (ht : target.NeverFails) :
    target.Blind fun _ _ => True where
  apply _ _ := ⟨(ht.accepting _ _ _).trans (ht.accepting _ _ _).symm, trivial⟩
  flush _ := ⟨(ht.flushes _).trans (ht.flushes _).symm, trivial⟩

/-- What a recording target refuses depends on its calls alone. -/
theorem Recorder.blind_target (refused : Option Nat) (refuseFlush : Bool) (reason : String) :
    (target refused refuseFlush reason).Blind
      fun r r' => r'.calls = r.calls ∧ r'.flushes = r.flushes where
  apply := by
    rintro p payload payload' r r' - ⟨hcalls, hflushes⟩
    unfold target
    dsimp only
    rw [hcalls]
    split
    · exact ⟨rfl, rfl, hflushes⟩
    · exact ⟨rfl, rfl, hflushes⟩
  flush := by
    rintro r r' ⟨hcalls, hflushes⟩
    exact ⟨rfl, hcalls, congrArg (· + 1) hflushes⟩

/-- What such a target takes in is noted with the same positions and lengths. -/
theorem Target.Blind.noting {target : Target σ} (hb : target.Blind rel) :
    target.noting.Blind fun s s' => rel s.1 s'.1 ∧ sizes s'.2 = sizes s.2 where
  apply := by
    rintro p payload payload' ⟨s, noted⟩ ⟨s', noted'⟩ hlength ⟨hrel, hnoted⟩
    obtain ⟨answer, u, u', hu, hu', hstate⟩ := (hb.apply (p := p) hlength hrel).cases
    rw [Target.noting]
    dsimp only
    rw [hu, hu']
    cases answer with
    | error reason => exact ⟨rfl, hstate, hnoted⟩
    | ok =>
      refine ⟨rfl, hstate, ?_⟩
      dsimp only
      rw [sizes, sizes, List.map_append, List.map_append]
      exact congrArg₂ _ hnoted (by rw [List.map_singleton, List.map_singleton, hlength])
  flush := by
    rintro ⟨s, noted⟩ ⟨s', noted'⟩ ⟨hrel, hnoted⟩
    have hflushed := hb.flush hrel
    exact ⟨hflushed.result, hflushed.state, hnoted⟩

/-- Whether two replays under way have come as far, and the states of their targets are related. -/
structure Progress.Abreast (rel : σ → σ → Prop) (p p' : Progress σ) : Prop where
  state : rel p.state p'.state
  last : p'.last = p.last
  applied : p'.applied = p.applied
  passed : p'.passed = p.passed

namespace Replay

variable {r : Replay} {target : Target σ} {d d' : Disk}

/-- Records of the same extents are taken in, passed over or refused alike. -/
theorem deliver_alike (hb : target.Blind rel) (segment : SegmentId)
    {records records' : List (Nat × Bytes)} (h : extents records' = extents records)
    {p p' : Progress σ} (hp : p.Abreast rel p') :
    Agree (Progress.Abreast rel) (r.deliver target segment records p)
      (r.deliver target segment records' p') := by
  induction records generalizing records' p p' with
  | nil =>
    obtain rfl : records' = [] := List.map_eq_nil_iff.mp h
    exact ⟨rfl, hp⟩
  | cons record more ih =>
    cases records' with
    | nil => cases h
    | cons record' more' =>
      obtain ⟨offset, payload⟩ := record
      obtain ⟨offset', payload'⟩ := record'
      simp only [extents, List.map_cons, List.cons.injEq, Prod.mk.injEq] at h
      obtain ⟨⟨rfl, hlength⟩, hmore⟩ := h
      by_cases hfloor : (⟨segment, offset'⟩ : Position) < r.floor
      · rw [deliver_skip r target payload more p hfloor,
          deliver_skip r target payload' more' p' hfloor]
        exact ih hmore { hp with passed := congrArg (· + 1) hp.passed }
      · obtain ⟨answer, u, u', hu, hu', hstate⟩ :=
          (hb.apply (p := ⟨segment, offset'⟩) hlength hp.state).cases
        cases answer with
        | error reason =>
          rw [deliver_refused r target more hfloor hu, deliver_refused r target more' hfloor hu']
          exact ⟨rfl, { hp with state := hstate }⟩
        | ok =>
          rw [deliver_applied r target more hfloor hu, deliver_applied r target more' hfloor hu']
          exact ih hmore {
            state := hstate
            last := rfl
            applied := congrArg (· + 1) hp.applied
            passed := hp.passed }

theorem file_alike (hb : target.Blind rel) (hd : d.Alike outline d')
    (name : SegmentName) (path : Path) {p p' : Progress σ} (hp : p.Abreast rel p') :
    Agree (Progress.Abreast rel) (r.file target d name path p)
      (r.file target d' name path p') := by
  have hreading : (d'.reading path).ending = (d.reading path).ending ∧
      extents (d'.reading path).records = extents (d.reading path).records := by
    rcases hd.opened path with hopened | ⟨bytes, bytes', hbytes, hbytes', hlook⟩
    · rw [Disk.reading, Disk.reading, hopened]
      exact ⟨rfl, rfl⟩
    · have htail : (Scan.ofBytes bytes').tail = (Scan.ofBytes bytes).tail :=
        congrArg Outline.tail hlook
      have hstop : (Scan.ofBytes bytes').stop = (Scan.ofBytes bytes).stop :=
        congrArg Outline.stop hlook
      rw [Disk.reading_of_contents hbytes, Disk.reading_of_contents hbytes', Reading.ofScan,
        Reading.ofScan, htail, hstop]
      exact ⟨rfl, congrArg Outline.records hlook⟩
  have hfresh : Progress.Abreast rel { p with applied := 0, passed := 0 }
      { p' with applied := 0, passed := 0 } := { hp with applied := rfl, passed := rfl }
  obtain ⟨result, q, q', hq, hq', habreast⟩ :=
    (deliver_alike (r := r) hb name.id hreading.2 hfresh).cases
  rw [file_eq, file_eq, hq, hq', hreading.1]
  cases result with
  | error e => exact ⟨rfl, habreast⟩
  | ok =>
    dsimp only
    split
    · exact ⟨rfl, habreast⟩
    · refine ⟨?_, habreast⟩
      dsimp only
      rw [habreast.applied, habreast.passed]

theorem files_alike (hb : target.Blind rel) (hd : d.Alike outline d')
    (files : List (SegmentName × Path)) (report : ReplayReport) {p p' : Progress σ}
    (hp : p.Abreast rel p') :
    Agree (Progress.Abreast rel) (r.files target d files report p)
      (r.files target d' files report p') := by
  induction files generalizing report p p' with
  | nil => exact ⟨by rw [Replay.files, Replay.files, hp.last], hp⟩
  | cons e more ih =>
    unfold Replay.files
    dsimp only
    split
    · exact ih _ hp
    · obtain ⟨result, q, q', hq, hq', habreast⟩ := (file_alike hb hd e.1 e.2 hp).cases
      rw [hq, hq']
      cases result with
      | error cause => exact ⟨rfl, habreast⟩
      | ok found => exact ih _ habreast

/-- A replay of files with the same outlines brings the same report or error. -/
theorem run_alike (hb : target.Blind rel) (hd : d.Alike outline d')
    (paths : List Path) {s s' : σ} (hs : rel s s') :
    Agree rel (r.run target d paths s) (r.run target d' paths s') := by
  cases hnames : r.names paths with
  | error e =>
    unfold Replay.run
    rw [hnames]
    exact ⟨rfl, hs⟩
  | ok named =>
    have hp : Progress.Abreast rel { state := s } { state := s' } := ⟨hs, rfl, rfl, rfl⟩
    obtain ⟨result, q, q', hq, hq', habreast⟩ :=
      (files_alike (r := r) hb hd (named.mergeSort inOrder) {} hp).cases
    rw [run_of_names hnames, run_of_names hnames, hq, hq']
    cases result with
    | error e => exact ⟨rfl, habreast.state⟩
    | ok report =>
      obtain ⟨answer, u, u', hu, hu', hflushed⟩ := (hb.flush habreast.state).cases
      dsimp only
      rw [hu, hu']
      cases answer with
      | error reason => exact ⟨rfl, hflushed⟩
      | ok => exact ⟨rfl, hflushed⟩

/-- What a replay applies of files with the same outlines has the same positions and lengths. -/
theorem appliedByRun_alike (hb : target.Blind rel) (hd : d.Alike outline d') (paths : List Path)
    {s s' : σ} (hs : rel s s') :
    sizes (r.appliedByRun target d' paths s') = sizes (r.appliedByRun target d paths s) := by
  have hnoted : rel s s' ∧ sizes [] = sizes [] := ⟨hs, rfl⟩
  exact (run_alike hb.noting hd paths hnoted).state.2

end Replay

end SegmentLog
