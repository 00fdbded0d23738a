import SegmentLog.Proofs.Replay.Applying

/-!
# Replays of files with a torn end

A replay sees nothing of a file but its records. Whatever else stands behind the last of them, such
as the beginning of a frame whose write has failed, makes no difference to the target, nor to
whether the replay goes through.

* `file_agrees`, `files_agrees`, `run_agrees` — replays of files with the same records.
-/

namespace SegmentLog

variable {σ : Type}

/-- Whether the file of a path can be read on two disks, and has the same records on both. -/
def Disk.Agrees (d d' : Disk) (path : Path) : Prop :=
  ∃ bytes bytes', d.contents path = .ok bytes ∧ d'.contents path = .ok bytes' ∧
    (Scan.ofBytes bytes').records = (Scan.ofBytes bytes).records

namespace Replay

variable {r : Replay} {target : Target σ} {d d' : Disk}

theorem file_agrees {path : Path} (h : d.Agrees d' path) (name : SegmentName) (p : Progress σ) :
    (r.file target d' name path p).2 = (r.file target d name path p).2 ∧
      (r.file target d' name path p).1.map (fun _ => ()) =
        (r.file target d name path p).1.map (fun _ => ()) := by
  obtain ⟨bytes, bytes', hd, hd', hrecords⟩ := h
  rw [file_of_contents r target hd, file_of_contents r target hd', hrecords]
  split
  · exact ⟨rfl, rfl⟩
  · exact ⟨rfl, rfl⟩

theorem files_agrees {files : List (SegmentName × Path)} (h : ∀ e ∈ files, d.Agrees d' e.2)
    (report report' : ReplayReport) (p : Progress σ) :
    (r.files target d' files report' p).2 = (r.files target d files report p).2 ∧
      (r.files target d' files report' p).1.map (·.last) =
        (r.files target d files report p).1.map (·.last) := by
  induction files generalizing report report' p with
  | nil => exact ⟨rfl, rfl⟩
  | cons e more ih =>
    obtain ⟨he, hmore⟩ := List.forall_mem_cons.mp h
    obtain ⟨hstate, hresult⟩ := @file_agrees _ r target _ _ _ he e.1 p
    rw [Replay.files, Replay.files]
    dsimp only
    split
    · exact ih hmore _ _ p
    · cases hf : r.file target d e.1 e.2 p with
      | mk result p₁ =>
        cases hf' : r.file target d' e.1 e.2 p with
        | mk result' p₁' =>
          rw [hf, hf'] at hstate hresult
          obtain rfl : p₁' = p₁ := hstate
          cases result <;> cases result' <;> cases hresult
          · exact ⟨rfl, rfl⟩
          · exact ih hmore _ _ p₁'

/-- A replay of files with the same records does the same to its target, and ends the same way. -/
theorem run_agrees {paths : List Path} (h : ∀ path ∈ paths, d.Agrees d' path) (state : σ) :
    (r.run target d' paths state).2 = (r.run target d paths state).2 ∧
      (r.run target d' paths state).1.map (·.last) =
        (r.run target d paths state).1.map (·.last) := by
  cases hnames : r.names paths with
  | error e =>
    unfold run
    rw [hnames]
    exact ⟨rfl, rfl⟩
  | ok named =>
    have hsorted : ∀ e ∈ named.mergeSort inOrder, d.Agrees d' e.2 := by
      intro e he
      rw [List.mem_mergeSort] at he
      exact h e.2 ((names_eq_ok hnames).1 ▸ List.mem_map_of_mem he)
    obtain ⟨hstate, hresult⟩ := @files_agrees _ r target _ _ _ hsorted {} {} { state }
    rw [run_of_names hnames, run_of_names hnames]
    cases hf : r.files target d _ {} { state } with
    | mk result p =>
      cases hf' : r.files target d' _ {} { state } with
      | mk result' p' =>
        rw [hf, hf'] at hstate hresult
        obtain rfl : p' = p := hstate
        cases result with
        | error e =>
          cases result' <;> cases hresult
          exact ⟨rfl, rfl⟩
        | ok report =>
          cases result' with
          | error e => cases hresult
          | ok report' =>
            -- a target that does not flush is told of the last record, which is the same
            have hlast : report'.last = report.last := Except.ok.inj hresult
            dsimp only
            rw [hlast]
            split
            · exact ⟨rfl, rfl⟩
            · exact ⟨rfl, congrArg Except.ok hlast⟩

end Replay

end SegmentLog
