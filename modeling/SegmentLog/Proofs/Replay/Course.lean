import SegmentLog.Proofs.Replay.Applying

/-!
# The course of a replay

A replay opens its files in their order and offers their records to the target, except those that
lie before the floor. It comes to an end with all files behind it; a record that the target refuses,
or a file that cannot be read, ends it before that.

* `file_offer` — what the replay of one file does, by what the target makes of its records;
* `files_offer` — what the replay of many files does, one after the other;
* `Opens` — which files a replay comes to;
* `run_eq` — a whole replay of files that can be read, in terms of what the target is offered.
-/

namespace SegmentLog

variable {σ : Type}

namespace Replay

variable {r : Replay} {target : Target σ} {d : Disk} {files : List (SegmentName × Path)}
  {named : List (SegmentName × Path)} {paths : List Path}

/-- The records of some segment files that do not lie before the floor. -/
def recordsOf (r : Replay) (d : Disk) (files : List (SegmentName × Path)) :
    List (Position × Bytes) :=
  (files.flatMap d.recordsIn).filter fun q => ¬ q.1 < r.floor

/-- What a replay reports of a segment file that it opens. -/
def reportOn (r : Replay) (d : Disk) (e : SegmentName × Path) : FileReport :=
  let records := (d.scan e.2).records
  { d.reportOn e with
    applied := (r.kept e.1.id records).length
    passed := records.length - (r.kept e.1.id records).length }

/-- The reports on those of some segment files that a replay opens. -/
def reportsOn (r : Replay) (d : Disk) (files : List (SegmentName × Path)) : List FileReport :=
  (files.filter fun e => ¬ e.1.id < r.floor.segment).map (r.reportOn d)

/-- What a replay reports of segment files that it comes to the end of. -/
def reportOnAll (r : Replay) (d : Disk) (files : List (SegmentName × Path)) : ReplayReport :=
  { ({} : ReplayReport).addAll (r.reportsOn d files) with
    filesPassed := files.countP fun e => e.1.id < r.floor.segment
    last := (r.recordsOf d files).getLast?.map (·.1)
    maxId := (files.map (·.1.id)).max? }

theorem recordsOf_cons (r : Replay) (d : Disk) (e : SegmentName × Path)
    (more : List (SegmentName × Path)) :
    r.recordsOf d (e :: more) = r.kept e.1.id (d.scan e.2).records ++ r.recordsOf d more := by
  unfold recordsOf
  rw [List.flatMap_cons, List.filter_append]
  rfl

theorem recordsOf_append (r : Replay) (d : Disk) (xs ys : List (SegmentName × Path)) :
    r.recordsOf d (xs ++ ys) = r.recordsOf d xs ++ r.recordsOf d ys := by
  unfold recordsOf
  rw [List.flatMap_append, List.filter_append]

/-- The records of some files are those up to one of them, and those behind it. -/
theorem recordsOf_through (r : Replay) (d : Disk) {before after : List (SegmentName × Path)}
    {e : SegmentName × Path} (h : files = before ++ e :: after) :
    r.recordsOf d files = r.recordsOf d (before ++ [e]) ++ r.recordsOf d after := by
  rw [← recordsOf_append, h, List.append_assoc, List.singleton_append]

/-- All records of a file that lies before the floor as a whole do so. -/
theorem kept_of_passed {segment : SegmentId} (h : segment < r.floor.segment)
    (records : List (Nat × Bytes)) : r.kept segment records = [] := by
  unfold kept
  rw [List.filter_eq_nil_iff]
  intro q hq
  obtain ⟨record, -, rfl⟩ := List.mem_map.mp hq
  simp only [decide_eq_true_eq, not_not]
  exact .inl h

/-- The last record that was taken in is the last one that does not lie before the floor. -/
theorem last_deliver {segment : SegmentId} {records : List (Nat × Bytes)} {p p' : Progress σ}
    (h : r.deliver target segment records p = (.ok (), p')) :
    p'.last = ((r.kept segment records).getLast?.map (·.1)).or p.last := by
  induction records generalizing p with
  | nil =>
    cases h
    rfl
  | cons record more ih =>
    obtain ⟨offset, payload⟩ := record
    by_cases hfloor : (⟨segment, offset⟩ : Position) < r.floor
    · have hkept : r.kept segment ((offset, payload) :: more) = r.kept segment more :=
        List.filter_cons_of_neg (by simpa using hfloor)
      rw [deliver_skip r target payload more p hfloor] at h
      rw [hkept, ih h]
    · have hkept : r.kept segment ((offset, payload) :: more) =
          (⟨segment, offset⟩, payload) :: r.kept segment more :=
        List.filter_cons_of_pos (by simpa using hfloor)
      cases happly : target.apply ⟨segment, offset⟩ payload p.state with
      | mk result s =>
        cases result with
        | error reason =>
          rw [deliver_refused r target more hfloor happly] at h
          cases h
        | ok =>
          rw [deliver_applied r target more hfloor happly] at h
          rw [hkept, ih h, List.getLast?_cons]
          cases (r.kept segment more).getLast? <;> rfl

/-! ## One file after the other -/

/-- The records of a file that do not lie before the floor are taken in as a whole, or one of them
is refused; and once they are taken in, the file was read to where they stop, or it cannot be read
any further. -/
theorem file_offer (target : Target σ) (d : Disk) (e : SegmentName × Path) (p : Progress σ) :
    (∃ p', d.Reads e.2 ∧
      target.offer (r.kept e.1.id (d.scan e.2).records) p.state = (.ok (), p'.state) ∧
      p'.last = ((r.kept e.1.id (d.scan e.2).records).getLast?.map (·.1)).or p.last ∧
      r.file target d e.1 e.2 p = (.ok (r.reportOn d e), p')) ∨
    (∃ q reason p', target.offer (r.kept e.1.id (d.scan e.2).records) p.state =
        (.error (q, reason), p'.state) ∧
      r.file target d e.1 e.2 p = (.error (.refused q reason), p')) ∨
    ∃ cause p', (d.reading e.2).ending = .error cause ∧
      target.offer (r.kept e.1.id (d.scan e.2).records) p.state = (.ok (), p'.state) ∧
      r.file target d e.1 e.2 p = (.error (.unreadable e.2 cause), p') := by
  have hrecords : (d.reading e.2).records = (d.scan e.2).records := rfl
  rw [file_eq, hrecords]
  rcases deliver_offer (r := r) target e.1.id (d.scan e.2).records
    { p with applied := 0, passed := 0 } with
    ⟨p', hoffer, hcount, htotal, h⟩ | ⟨q, reason, p', hoffer, h⟩
  · rw [h]
    dsimp only
    rcases d.reads_or e.2 with hreads | ⟨cause, hending⟩
    · have hpassed : p'.passed =
          (d.scan e.2).records.length - (r.kept e.1.id (d.scan e.2).records).length := by
        simp only [Nat.zero_add] at hcount htotal
        omega
      refine .inl ⟨p', hreads, hoffer,
        last_deliver (p := { p with applied := 0, passed := 0 }) h, ?_⟩
      rw [Disk.ending_of_reads hreads]
      simp only [hcount, hpassed, Nat.zero_add]
      rfl
    · rw [hending]
      exact .inr (.inr ⟨cause, p', rfl, hoffer, rfl⟩)
  · rw [h]
    exact .inr (.inl ⟨q, reason, p', hoffer, rfl⟩)

/-- The records of one file after the other are taken in as a whole, or the replay ends in one of
the files, after those before it were read to where their records stop: since one of its records is
refused, or since it cannot be read any further. -/
theorem files_offer (target : Target σ) (d : Disk) (files : List (SegmentName × Path))
    (report : ReplayReport) (p : Progress σ) :
    (∃ p', (∀ e ∈ files, ¬ e.1.id < r.floor.segment → d.Reads e.2) ∧
      target.offer (r.recordsOf d files) p.state = (.ok (), p'.state) ∧
      r.files target d files report p =
        (.ok {
          report.addAll (r.reportsOn d files) with
          filesPassed := report.filesPassed + files.countP fun e => e.1.id < r.floor.segment
          last := (r.reportOnAll d files).last.or p.last
          maxId := highest report.maxId (files.map (·.1.id)) }, p')) ∨
    ∃ before e after, files = before ++ e :: after ∧ ¬ e.1.id < r.floor.segment ∧
      (∀ f ∈ before, ¬ f.1.id < r.floor.segment → d.Reads f.2) ∧
      ((∃ q reason p', target.offer (r.recordsOf d (before ++ [e])) p.state =
          (.error (q, reason), p'.state) ∧
        r.files target d files report p = (.error (.refused q reason), p')) ∨
      ∃ cause p', (d.reading e.2).ending = .error cause ∧
        target.offer (r.recordsOf d (before ++ [e])) p.state = (.ok (), p'.state) ∧
        r.files target d files report p = (.error (.unreadable e.2 cause), p')) := by
  induction files generalizing report p with
  | nil =>
    refine .inl ⟨p, by simp, rfl, ?_⟩
    simp [Replay.files, reportOnAll, reportsOn, ReplayReport.addAll, recordsOf, highest]
  | cons e more ih =>
    unfold Replay.files
    dsimp only
    by_cases hpassed : e.1.id < r.floor.segment
    · -- the file is counted, and none of its records would be offered
      have hnone : ∀ files, r.recordsOf d (e :: files) = r.recordsOf d files := fun files => by
        rw [recordsOf_cons, kept_of_passed hpassed, List.nil_append]
      rw [if_pos hpassed]
      rcases ih { report with
          maxId := some (max (report.maxId.getD 0) e.1.id)
          filesPassed := report.filesPassed + 1 } p with
        ⟨p', hreads, hoffer, h⟩ | ⟨before, u, after, rfl, hopened, hreads, hends⟩
      · refine .inl ⟨p', List.forall_mem_cons.mpr ⟨fun h => absurd hpassed h, hreads⟩,
          (hnone _).symm ▸ hoffer, ?_⟩
        rw [h]
        simp [reportOnAll, reportsOn, ReplayReport.addAll_eq, hnone, hpassed, highest,
          Nat.add_assoc, Nat.add_comm]
      · refine .inr ⟨e :: before, u, after, rfl, hopened,
          List.forall_mem_cons.mpr ⟨fun h => absurd hpassed h, hreads⟩, ?_⟩
        rw [List.cons_append, hnone]
        exact hends
    · have hopened : r.floor.segment ≤ e.1.id := UInt64.not_lt.mp hpassed
      rw [if_neg hpassed]
      rcases file_offer (r := r) target d e p with
        ⟨p₁, hread, hoffer₁, hlast, hfile⟩ | ⟨q, reason, p', hoffer, hfile⟩ |
        ⟨cause, p', hending, hoffer, hfile⟩
      · have hgoesOn : ∀ files, target.offer (r.recordsOf d (e :: files)) p.state =
            target.offer (r.recordsOf d files) p₁.state := fun files => by
          rw [recordsOf_cons, Target.offer_append, hoffer₁]
        rw [hfile]
        dsimp only
        rcases ih ({ report with maxId := some (max (report.maxId.getD 0) e.1.id) }.add
            (r.reportOn d e)) p₁ with
          ⟨p', hreads, hoffer, h⟩ | ⟨before, u, after, rfl, hbehind, hreads, hends⟩
        · refine .inl ⟨p', List.forall_mem_cons.mpr ⟨fun _ => hread, hreads⟩,
            (hgoesOn _).trans hoffer, ?_⟩
          have hreports : r.reportsOn d (e :: more) = r.reportOn d e :: r.reportsOn d more := by
            simp [reportsOn, hopened]
          rw [h, hlast, hreports, ← ReplayReport.addAll_cons, ReplayReport.addAll_maxId]
          simp [reportOnAll, ReplayReport.add, recordsOf_cons, hopened, highest,
            List.getLast?_append, Option.or_assoc, Option.map_or]
        · refine .inr ⟨e :: before, u, after, rfl, hbehind,
            List.forall_mem_cons.mpr ⟨fun _ => hread, hreads⟩, ?_⟩
          rw [List.cons_append, hgoesOn]
          exact hends
      · refine .inr ⟨[], e, more, rfl, hpassed, List.forall_mem_nil _,
          .inl ⟨q, reason, p', ?_, ?_⟩⟩
        · rw [List.nil_append, recordsOf_cons, Target.offer_append, hoffer]
        · rw [hfile]
      · refine .inr ⟨[], e, more, rfl, hpassed, List.forall_mem_nil _,
          .inr ⟨cause, p', hending, ?_, ?_⟩⟩
        · rw [List.nil_append, recordsOf_cons, Target.offer_append, hoffer]
          rfl
        · rw [hfile]

/-! ## Whole replays -/

/-- Whether a replay of some paths comes to these files, in this order, and can read those that it
opens to where their records stop. -/
structure Opens (r : Replay) (d : Disk) (paths : List Path) (files : List (SegmentName × Path)) :
    Prop where
  sorted : ∃ named, r.names paths = .ok named ∧ named.mergeSort inOrder = files
  readable : ∀ e ∈ files, ¬ e.1.id < r.floor.segment → d.Reads e.2

theorem opens_of_names (hnames : r.names paths = .ok named)
    (hd : ∀ e ∈ named, ¬ e.1.id < r.floor.segment → d.Reads e.2) :
    r.Opens d paths (named.mergeSort inOrder) where
  sorted := ⟨named, hnames, rfl⟩
  readable e he := hd e (List.mem_mergeSort.mp he)

/-- What a replay comes to that accepts all names and can read all files. -/
theorem opens_of_accepts (hall : ∀ path ∈ paths, r.Accepts path)
    (hd : ∀ path ∈ paths, ∃ bytes, d.contents path = .ok bytes) :
    r.Opens d paths ((paths.map r.entry).mergeSort inOrder) :=
  opens_of_names (names_of_accepts hall) fun e he _ => by
    obtain ⟨path, hpath, rfl⟩ := List.mem_map.mp he
    obtain ⟨bytes, hbytes⟩ := hd path hpath
    exact Disk.reads_of_contents hbytes

/-- **A replay of files that can be read** offers the target the records that do not lie before the
floor, in the order of the files, until one is refused, and after the last one lets it flush. -/
theorem run_eq (target : Target σ) (h : r.Opens d paths files) (s : σ) :
    r.run target d paths s =
      match target.offer (r.recordsOf d files) s with
      | (.error (q, reason), s) => (.error (.refused q reason), s)
      | (.ok (), s) =>
        match target.flush s with
        | (.error reason, s) =>
          (.error (.refused ((r.reportOnAll d files).last.getD .start) reason), s)
        | (.ok (), s) => (.ok (r.reportOnAll d files), s) := by
  obtain ⟨named, hnames, hsorted⟩ := h.sorted
  rw [run_of_names hnames, hsorted]
  rcases files_offer (r := r) target d files {} { state := s } with
    ⟨p', -, hoffer, hrun⟩ | ⟨before, e, after, hfiles, hopened, -, hends⟩
  · rw [hoffer, hrun, highest_none]
    simp only [Nat.zero_add, Option.or_none]
    rfl
  · rcases hends with ⟨q, reason, p', hoffer, hrun⟩ | ⟨cause, p', hending, -⟩
    · -- what follows the record that is refused is not offered any more
      rw [hrun, recordsOf_through r d hfiles, Target.offer_append, hoffer]
    · obtain ⟨tail, stop, hreads⟩ := h.readable e (by simp [hfiles]) hopened
      rw [hending] at hreads
      cases hreads

/-- What a replay does to a target that never fails. -/
theorem run_neverFails (ht : target.NeverFails) (h : r.Opens d paths files) (s : σ) :
    r.run target d paths s =
      (.ok (r.reportOnAll d files),
        (target.flush (target.feed (r.recordsOf d files) s)).2) := by
  have hflush : ∀ s, target.flush s = (.ok (), (target.flush s).2) :=
    fun s => Prod.ext (ht.flushes s) rfl
  rw [run_eq target h, Target.offer_accepting ht.accepting]
  dsimp only
  rw [hflush]

/-! ## Replays from the beginning -/

theorem length_kept_le (r : Replay) (segment : SegmentId) (records : List (Nat × Bytes)) :
    (r.kept segment records).length ≤ records.length := by
  rw [← List.length_map (f := fun q : Nat × Bytes => ((⟨segment, q.1⟩, q.2) : Position × Bytes))]
  exact List.length_filter_le _ _

theorem kept_start (hr : r.floor = .start) (segment : SegmentId) (records : List (Nat × Bytes)) :
    r.kept segment records = positioned segment records :=
  List.filter_eq_self.mpr fun q _ => decide_eq_true (not_lt_floor hr q.1)

theorem recordsOf_start (hr : r.floor = .start) (d : Disk) (files : List (SegmentName × Path)) :
    r.recordsOf d files = files.flatMap d.recordsIn :=
  List.filter_eq_self.mpr fun q _ => decide_eq_true (not_lt_floor hr q.1)

theorem reportOn_start (hr : r.floor = .start) (d : Disk) (e : SegmentName × Path) :
    r.reportOn d e = d.reportOn e := by
  unfold reportOn
  simp [kept_start hr, positioned, Disk.reportOn]

theorem reportOnAll_start (hr : r.floor = .start) (d : Disk)
    (files : List (SegmentName × Path)) : r.reportOnAll d files = d.reportOnAll files := by
  have hopened : ∀ id : SegmentId, ¬ id < r.floor.segment := not_lt_floor_segment hr
  have hreports : r.reportsOn d files = files.map d.reportOn := by
    simp [reportsOn, hopened, reportOn_start hr]
  simp [reportOnAll, Disk.reportOnAll, ReplayReport.addAll_eq, hopened, hreports,
    recordsOf_start hr]

/-- What can come of a replay of some segment files from their beginnings, in this order. -/
inductive Outcome (target : Target σ) (d : Disk) (files : List (SegmentName × Path)) (state : σ) :
    Except LogError ReplayReport → σ → Prop where
  /-- One of the files is of a later version, and the target is not asked for anything. -/
  | unsupported {e : SegmentName × Path} : e ∈ files → e.1.isSupported = false →
      Outcome target d files state
        (.error (.unsupportedVersion e.1.version SegmentName.currentVersion)) state
  /-- The target refuses a record of one of the files; those before it could be read. -/
  | refused {before after : List (SegmentName × Path)} {e : SegmentName × Path} {q : Position}
      {reason : String} {s : σ} : (∀ f ∈ files, f.1.isSupported = true) →
      files = before ++ e :: after → (∀ f ∈ before, d.Reads f.2) →
      target.offer ((before ++ [e]).flatMap d.recordsIn) state = (.error (q, reason), s) →
      Outcome target d files state (.error (.refused q reason)) s
  /-- One of the files does not open, or cannot be read any further at some place; those before it
  could be read. The target has taken in all records that were read until then. -/
  | unreadable {before after : List (SegmentName × Path)} {e : SegmentName × Path}
      {cause : DiskError} {s : σ} : (∀ f ∈ files, f.1.isSupported = true) →
      files = before ++ e :: after → (∀ f ∈ before, d.Reads f.2) →
      (d.reading e.2).ending = .error cause →
      target.offer ((before ++ [e]).flatMap d.recordsIn) state = (.ok (), s) →
      Outcome target d files state (.error (.unreadable e.2 cause)) s
  /-- The target takes in all records, and cannot flush. -/
  | unflushed {reason : String} {s s' : σ} : (∀ e ∈ files, e.1.isSupported = true) →
      (∀ e ∈ files, d.Reads e.2) →
      target.offer (files.flatMap d.recordsIn) state = (.ok (), s) →
      target.flush s = (.error reason, s') →
      Outcome target d files state
        (.error (.refused ((d.reportOnAll files).last.getD .start) reason)) s'
  /-- The target takes in all records, and flushes. -/
  | taken {s s' : σ} : (∀ e ∈ files, e.1.isSupported = true) → (∀ e ∈ files, d.Reads e.2) →
      target.offer (files.flatMap d.recordsIn) state = (.ok (), s) →
      target.flush s = (.ok (), s') →
      Outcome target d files state (.ok (d.reportOnAll files)) s'

/-- **All that can come of a replay** of segment files from their beginnings that are given in
their order. -/
theorem outcome_run (hr : r.floor = .start) (target : Target σ)
    (hnames : ∀ e ∈ files, SegmentName.ofPath r.stem e.2 = .ok e.1)
    (hordered : files.Pairwise fun a b => inOrder a b = true) (d : Disk) (state : σ) :
    Outcome target d files state (r.run target d (files.map (·.2)) state).1
      (r.run target d (files.map (·.2)) state).2 := by
  have hopened : ∀ e : SegmentName × Path, ¬ e.1.id < r.floor.segment :=
    fun e => not_lt_floor_segment hr _
  rcases names_cases hnames with ⟨hsupported, h⟩ | ⟨e, he, hlater, h⟩
  · rw [run_of_names h, List.mergeSort_of_pairwise hordered]
    rcases files_offer (r := r) target d files {} { state } with
      ⟨p', hreads, hoffer, hrun⟩ | ⟨before, e, after, hfiles, -, hreads, hends⟩
    · have hreport : ∀ report, r.files target d files {} { state } = (.ok report, p') →
          report = d.reportOnAll files := by
        intro report hreport
        rw [hrun, highest_none, Option.or_none, Nat.zero_add] at hreport
        rw [← reportOnAll_start hr]
        exact (Except.ok.inj (congrArg Prod.fst hreport)).symm
      have hall : ∀ e ∈ files, d.Reads e.2 := fun e he => hreads e he (hopened e)
      rw [recordsOf_start hr] at hoffer
      rw [hrun, hreport _ hrun]
      dsimp only
      cases hflush : target.flush p'.state with
      | mk flushed s' =>
        cases flushed with
        | error reason => exact .unflushed hsupported hall hoffer hflush
        | ok => exact .taken hsupported hall hoffer hflush
    · have hall : ∀ f ∈ before, d.Reads f.2 := fun f hf => hreads f hf (hopened f)
      rw [recordsOf_start hr] at hends
      rcases hends with ⟨q, reason, p', hoffer, hrun⟩ | ⟨cause, p', hending, hoffer, hrun⟩
      · rw [hrun]
        exact .refused hsupported hfiles hall hoffer
      · rw [hrun]
        exact .unreadable hsupported hfiles hall hending hoffer
  · unfold run
    rw [h]
    exact .unsupported he hlater

end Replay

end SegmentLog
