import SegmentLog.Proofs.Replay.Course

/-!
# What a target is asked for

A replay asks its target to take in one record after the other, and in the end to flush. A target
that is watched keeps a list of these requests. The first answer that is a refusal ends the replay
there and then, so that a target that refuses is asked for a beginning of what one that refuses
nothing is asked for.

* `offer_observed` — what a target is asked for of the records that it is offered;
* `requests_eq` — what a replay of files that can be read asks of its target;
* `refusal_ends_replay` — a target that refuses against one that never fails.
-/

namespace SegmentLog

variable {σ τ : Type}

/-- What a replay asks of its target. -/
inductive Request where
  /-- To take in a record. -/
  | apply (record : Position × Bytes)
  /-- To bring to stable storage what it has taken in. -/
  | flush
  deriving DecidableEq, Repr

/-- The record that a target is asked to take in, if it is asked for that. -/
def Request.record? : Request → Option (Position × Bytes)
  | .apply record => some record
  | .flush => none

namespace Target

variable {target : Target σ} {records : List (Position × Bytes)} {s : σ} {reason : String} {n : Nat}

/-- A target that does as another one does, and keeps a list of all that it is asked for. -/
def observed (target : Target σ) : Target (σ × List Request) where
  apply p payload s :=
    let answer := target.apply p payload s.1
    (answer.1, (answer.2, s.2 ++ [.apply (p, payload)]))
  flush s :=
    let answer := target.flush s.1
    (answer.1, (answer.2, s.2 ++ [.flush]))

/-- The records that a target is asked to take in of those that it is offered: all up to the first
that it refuses. -/
def asked (target : Target σ) : List (Position × Bytes) → σ → List (Position × Bytes)
  | [], _ => []
  | r :: more, s =>
    match target.apply r.1 r.2 s with
    | (.error _, _) => [r]
    | (.ok (), s) => r :: target.asked more s

/-- Whether a target that is offered some records refuses the one with number `n`, counted from
one, and none before it. -/
inductive RefusesAt (target : Target σ) (reason : String) :
    Nat → List (Position × Bytes) → σ → Prop where
  | first {r : Position × Bytes} {more : List (Position × Bytes)} {s : σ} :
      (target.apply r.1 r.2 s).1 = .error reason → RefusesAt target reason 1 (r :: more) s
  | later {n : Nat} {r : Position × Bytes} {more : List (Position × Bytes)} {s : σ} :
      (target.apply r.1 r.2 s).1 = .ok () →
      RefusesAt target reason n more (target.apply r.1 r.2 s).2 →
      RefusesAt target reason (n + 1) (r :: more) s

theorem asked_isPrefix (target : Target σ) (records : List (Position × Bytes)) (s : σ) :
    target.asked records s <+: records := by
  induction records generalizing s with
  | nil => exact List.nil_prefix
  | cons r more ih =>
    unfold asked
    split
    · simp
    · simp [ih]

/-- If no record is refused, a target is asked for all of them. -/
theorem asked_of_offer_ok {s' : σ} (h : target.offer records s = (.ok (), s')) :
    target.asked records s = records := by
  induction records generalizing s with
  | nil => rfl
  | cons r more ih =>
    unfold offer at h
    unfold asked
    cases happly : target.apply r.1 r.2 s with
    | mk result s₁ =>
      rw [happly] at h
      cases result with
      | error reason => cases h
      | ok => exact congrArg (r :: ·) (ih h)

/-- A target that is watched is offered records as it would be otherwise, and lists those that it
is asked to take in. -/
theorem offer_observed (target : Target σ) (records : List (Position × Bytes)) (s : σ)
    (requests : List Request) :
    target.observed.offer records (s, requests) =
      ((target.offer records s).1,
        ((target.offer records s).2, requests ++ (target.asked records s).map .apply)) := by
  induction records generalizing s requests with
  | nil => simp [offer, asked]
  | cons r more ih =>
    have hobserved : target.observed.apply r.1 r.2 (s, requests) =
      ((target.apply r.1 r.2 s).1, ((target.apply r.1 r.2 s).2, requests ++ [.apply r])) := rfl
    unfold offer asked
    rw [hobserved]
    cases happly : target.apply r.1 r.2 s with
    | mk result s' =>
      cases result with
      | error reason => rfl
      | ok =>
        dsimp only
        rw [ih]
        simp

/-- What a target that is watched has listed of the records that it was offered. -/
theorem requests_of_offer {result : Except (Position × String) Unit} {s' : σ × List Request}
    (h : target.observed.offer records (s, []) = (result, s')) :
    s'.2 = (target.asked records s).map .apply := by
  rw [offer_observed, List.nil_append] at h
  exact (congrArg (·.2.2) h).symm

/-- The record that is refused is the last one that a target is asked to take in. -/
theorem RefusesAt.offer (h : target.RefusesAt reason n records s) :
    ∃ record s', records[n - 1]? = some record ∧
      target.offer records s = (.error (record.1, reason), s') ∧
      target.asked records s = records.take n := by
  induction h with
  | @first r more s happly =>
    have hrefused : target.apply r.1 r.2 s = (.error reason, (target.apply r.1 r.2 s).2) :=
      Prod.ext happly rfl
    refine ⟨r, (target.apply r.1 r.2 s).2, rfl, ?_, ?_⟩
    · unfold Target.offer
      rw [hrefused]
    · unfold asked
      rw [hrefused]
      simp
  | @later n r more s happly hmore ih =>
    obtain ⟨record, s', hrecord, hoffer, hasked⟩ := ih
    have htaken : target.apply r.1 r.2 s = (.ok (), (target.apply r.1 r.2 s).2) :=
      Prod.ext happly rfl
    obtain ⟨m, rfl⟩ : ∃ m, n = m + 1 := by
      cases hmore with
      | first => exact ⟨0, rfl⟩
      | later => exact ⟨_, rfl⟩
    refine ⟨record, s', hrecord, ?_, ?_⟩
    · unfold Target.offer
      rw [htaken]
      exact hoffer
    · unfold asked
      rw [htaken]
      simp only [hasked, List.take_succ_cons]

/-- A target that refuses none of the records takes in all of them. -/
theorem offer_of_not_refuses (h : ∀ n reason, ¬ target.RefusesAt reason n records s) :
    target.offer records s = (.ok (), target.feed records s) := by
  induction records generalizing s with
  | nil => rfl
  | cons r more ih =>
    unfold offer
    cases happly : target.apply r.1 r.2 s with
    | mk result s' =>
      cases result with
      | error reason => exact absurd (.first (by rw [happly])) (h 1 reason)
      | ok =>
        have hmore : ∀ n reason, ¬ target.RefusesAt reason n more s' := by
          intro n reason hn
          apply h (n + 1) reason
          exact .later (by rw [happly]) (by rw [happly]; exact hn)
        dsimp only
        rw [ih hmore, feed, feed, List.foldl_cons, happly]

end Target

namespace Replay

variable {r : Replay} {target : Target σ} {d : Disk} {files : List (SegmentName × Path)}
  {paths : List Path}

/-- All that a replay asks of its target, in order. -/
def requests (r : Replay) (target : Target σ) (d : Disk) (paths : List Path) (s : σ) :
    List Request :=
  (r.run target.observed d paths (s, [])).2.2

/-- The records that a replay asks its target to take in. -/
def received (r : Replay) (target : Target σ) (d : Disk) (paths : List Path) (s : σ) :
    List (Position × Bytes) :=
  (r.requests target d paths s).filterMap Request.record?

theorem filterMap_record? (records : List (Position × Bytes)) :
    (records.map Request.apply).filterMap Request.record? = records := by
  induction records with
  | nil => rfl
  | cons record more ih => simp [Request.record?, ih]

/-- What a replay of files that can be read asks of its target: the records up to the first that
is refused, and to flush if none is. -/
theorem requests_eq (target : Target σ) (h : r.Opens d paths files) (s : σ) :
    r.requests target d paths s =
      (target.asked (r.recordsOf d files) s).map .apply ++
        match (target.offer (r.recordsOf d files) s).1 with
        | .error _ => []
        | .ok () => [.flush] := by
  have hflush : ∀ s, target.observed.flush s =
    ((target.flush s.1).1, ((target.flush s.1).2, s.2 ++ [.flush])) := fun _ => rfl
  unfold requests
  rw [run_eq target.observed h, Target.offer_observed, List.nil_append]
  cases target.offer (r.recordsOf d files) s with
  | mk result s' =>
    cases result with
    | error refusal => simp
    | ok =>
      dsimp only
      rw [hflush]
      cases target.flush s' with
      | mk flushed s'' => cases flushed <;> rfl

/-- A target that never fails is asked for all records, and then to flush. -/
theorem requests_neverFails (ht : target.NeverFails) (h : r.Opens d paths files) (s : σ) :
    r.requests target d paths s = (r.recordsOf d files).map .apply ++ [.flush] := by
  have hoffer := Target.offer_accepting ht.accepting (r.recordsOf d files) s
  rw [requests_eq target h, Target.asked_of_offer_ok hoffer, hoffer]

theorem received_neverFails (ht : target.NeverFails) (h : r.Opens d paths files) (s : σ) :
    r.received target d paths s = r.recordsOf d files := by
  unfold received
  rw [requests_neverFails ht h, List.filterMap_append, filterMap_record?]
  simp [Request.record?]

/-- **A target that refuses sees a beginning of the replay.** Let some paths lead to segment files
that can be read, of versions that can be replayed, and let a target that never fails be asked to
take in some records from them. If another target refuses the `n`-th of these, it is asked to take
in just the first `n` and never to flush, and the replay ends with the position of the `n`-th. If it
refuses none, it is asked to take in all of them, and then once to flush; if it cannot, the replay
ends with the position of the last record, or with the start if there is none, and otherwise with a
report. -/
theorem refusal_ends_replay {whole : Target τ} (hwhole : whole.NeverFails) (origin : τ)
    (hpaths : ∀ path ∈ paths, r.Accepts path)
    (hd : ∀ path ∈ paths, ∃ bytes, d.contents path = .ok bytes) (target : Target σ) (s : σ) :
    let records := r.received whole d paths origin
    let answer := (r.run target d paths s).1
    let requests := r.requests target d paths s
    (∀ n reason, target.RefusesAt reason n records s →
      ∃ record, records[n - 1]? = some record ∧
        requests = (records.take n).map .apply ∧ answer = .error (.refused record.1 reason)) ∧
    ((∀ n reason, ¬ target.RefusesAt reason n records s) →
      requests = records.map .apply ++ [.flush] ∧
      (∀ reason, (target.flush (target.feed records s)).1 = .error reason →
        answer = .error (.refused ((records.getLast?.map (·.1)).getD .start) reason)) ∧
      ((target.flush (target.feed records s)).1 = .ok () → ∃ report, answer = .ok report)) := by
  intro records answer requests
  obtain ⟨files, hopens⟩ : ∃ files, r.Opens d paths files := ⟨_, opens_of_accepts hpaths hd⟩
  have hrecords : records = r.recordsOf d files := received_neverFails hwhole hopens origin
  have hrun := run_eq target hopens s
  have hrequests := requests_eq target hopens s
  rw [← hrecords] at hrun hrequests
  constructor
  · intro n reason hrefuses
    obtain ⟨record, s', hrecord, hoffer, hasked⟩ := hrefuses.offer
    refine ⟨record, hrecord, ?_, ?_⟩
    · rw [hoffer, hasked, List.append_nil] at hrequests
      exact hrequests
    · show (r.run target d paths s).1 = _
      rw [hrun, hoffer]
  · intro hnone
    have hoffer := Target.offer_of_not_refuses hnone
    rw [hoffer] at hrun
    refine ⟨?_, fun reason hflush => ?_, fun hflush => ?_⟩
    · rw [hoffer, Target.asked_of_offer_ok hoffer] at hrequests
      exact hrequests
    · have hlast : (r.reportOnAll d files).last = records.getLast?.map (·.1) := by
        rw [hrecords]
        rfl
      have hfails : target.flush (target.feed records s) =
        (.error reason, (target.flush (target.feed records s)).2) := Prod.ext hflush rfl
      show (r.run target d paths s).1 = _
      rw [hrun, ← hlast]
      dsimp only
      rw [hfails]
    · have hflushes : target.flush (target.feed records s) =
        (.ok (), (target.flush (target.feed records s)).2) := Prod.ext hflush rfl
      refine ⟨r.reportOnAll d files, ?_⟩
      show (r.run target d paths s).1 = _
      rw [hrun]
      dsimp only
      rw [hflushes]

/-- The second of three records, which is the first one of the second file, is refused. -/
theorem refusal_ends_replay_second :
    let target := Recorder.target (some 2) false "full"
    let d := (({} : Disk).put (.ofString "CommitLog-3-7.log") (Frame.spell [[9]])).put
      (.ofString "CommitLog-3-8.log") (Frame.spell [[1, 2, 3], [4]])
    let paths : List Path := [.ofString "CommitLog-3-8.log", .ofString "CommitLog-3-7.log"]
    (({} : Replay).run target d paths {}).1 = .error (.refused ⟨8, 0⟩ "full") ∧
      ({} : Replay).requests target d paths {} =
        [.apply (⟨7, 0⟩, [9]), .apply (⟨8, 0⟩, [1, 2, 3])] := by
  intro target d paths
  let whole : Target Recorder := Recorder.target none false ""
  have hwhole : whole.NeverFails := ⟨fun _ _ _ => rfl, fun _ => rfl⟩
  have hpaths : ∀ path ∈ paths, ({} : Replay).Accepts path := by
    simp only [paths, List.forall_mem_cons]
    exact ⟨⟨⟨8, 3⟩, by decide +kernel⟩, ⟨⟨7, 3⟩, by decide +kernel⟩, by simp⟩
  have hfirst : d.contents (.ofString "CommitLog-3-7.log") = .ok (Frame.spell [[9]]) := by rfl
  have hsecond : d.contents (.ofString "CommitLog-3-8.log") =
    .ok (Frame.spell [[1, 2, 3], [4]]) := by rfl
  have hd : ∀ path ∈ paths, ∃ bytes, d.contents path = .ok bytes := by
    simp [paths, hfirst, hsecond]
  let files : List (SegmentName × Path) :=
    [(⟨7, 3⟩, .ofString "CommitLog-3-7.log"), (⟨8, 3⟩, .ofString "CommitLog-3-8.log")]
  have hnames : ({} : Replay).names paths = .ok files.reverse := by decide +kernel
  have hsorted : files.reverse.mergeSort inOrder = files := by
    have hafter : inOrder (⟨8, 3⟩, .ofString "CommitLog-3-8.log")
      (⟨7, 3⟩, .ofString "CommitLog-3-7.log") = false := rfl
    simp [files, List.mergeSort, hafter]
  have hopens : ({} : Replay).Opens d paths files :=
    ⟨⟨_, hnames, hsorted⟩, by
      simp [files, Disk.reads_of_contents hfirst, Disk.reads_of_contents hsecond]⟩
  have hrecords : ({} : Replay).received whole d paths {} =
      [(⟨7, 0⟩, [9]), (⟨8, 0⟩, [1, 2, 3]), (⟨8, 15⟩, [4])] := by
    rw [received_neverFails hwhole hopens, recordsOf_start rfl]
    decide +kernel
  have hrefuses : target.RefusesAt "full" 2 (({} : Replay).received whole d paths {}) {} := by
    rw [hrecords]
    exact .later rfl (.first rfl)
  obtain ⟨record, hrecord, hrequests, hanswer⟩ :=
    (refusal_ends_replay hwhole {} hpaths hd target {}).1 2 "full" hrefuses
  rw [hrecords] at hrecord hrequests
  cases hrecord
  exact ⟨hanswer, hrequests⟩

end Replay

end SegmentLog
