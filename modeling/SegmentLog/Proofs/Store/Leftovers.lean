import Mathlib.Data.List.Nodup
import SegmentLog.Proofs.Disk.Clearing
import SegmentLog.Proofs.Replay.Course
import SegmentLog.Proofs.Store.Foreign
import SegmentLog.Proofs.Store.Requests

/-!
# Leftovers are taken over as a whole, or stay

Whatever lies in the directory of a store, its leftovers are the segment files there that it does
not own. A recovery offers all their records to a target, in the order of the files. If the target
takes them in and flushes, just these files are removed, and new segments get numbers above theirs;
if the replay fails, wherever that may be, the store and its disk are as they were.

* `Leftovers`, `leftovers_listed` — which files are left over;
* `Leftovers.outcome_replay` — what can come of their replay;
* `Leftovers.emptied` — what their removal leaves;
* `Takeover`, `Filed.takeover` — both together.
-/

namespace SegmentLog

namespace IdSource

/-- A source is kept above every number up to one, except for the last that there is. -/
theorem lt_keepAbove_of_le (s : IdSource) {i id : SegmentId} (hle : i ≤ id)
    (hi : i ≠ 0xFFFFFFFFFFFFFFFF) : i < (s.keepAbove id).next := by
  have hlast : ∀ j : SegmentId, j ≤ 0xFFFFFFFFFFFFFFFF := by
    intro j
    have hj := j.toNat_lt
    rw [UInt64.le_iff_toNat_le, show (0xFFFFFFFFFFFFFFFF : UInt64).toNat = 2 ^ 64 - 1 from rfl]
    omega
  have hlt : ∀ j : SegmentId, j ≠ 0xFFFFFFFFFFFFFFFF → j < 0xFFFFFFFFFFFFFFFF :=
    fun j hj => UInt64.lt_of_le_of_ne (hlast j) hj
  by_cases hid : id = 0xFFFFFFFFFFFFFFFF
  · rw [keepAbove, if_pos hid, hid]
    exact UInt64.lt_of_lt_of_le (hlt i hi) Std.right_le_max
  · exact UInt64.lt_of_le_of_lt hle (s.lt_keepAbove (hlt id hid))

end IdSource

namespace Store

variable {σ : Type} {s t : Store} {left : List (SegmentName × Path)}

/-- Whether some files are the segment files in the directory of a store that are not its own, in
their order. -/
structure Leftovers (s : Store) (left : List (SegmentName × Path)) : Prop where
  mem : ∀ name p, (name, p) ∈ left ↔
    (∃ n, Disk.IsName n ∧ p = s.settings.directory.join ⟨n⟩) ∧ s.disk.isFile p = true ∧
      SegmentName.ofPath s.settings.stem p = .ok name ∧ s.owns p = false
  distinct : left.Nodup
  ordered : left.Pairwise fun a b => inOrder a b = true

/-- The listed files that the store does not own are its leftovers. -/
theorem leftovers_listed (hd : s.disk.WellFormed) {found : List (SegmentName × Path)}
    (hf : segmentFiles s.disk s.settings.directory s.settings.stem = .ok found) :
    ∃ left, s.Leftovers left ∧ s.foreign found = left.map (·.2) := by
  refine ⟨found.filter fun e => !s.owns e.2, ⟨fun name p => ?_, ?_, ?_⟩, ?_⟩
  · rw [List.mem_filter, mem_segmentFiles_iff hd hf, Bool.not_eq_true', Disk.isFile_iff]
    constructor
    · rintro ⟨⟨n, q, id, hn, hp, hfind, hname⟩, howns⟩
      exact ⟨⟨n, hn, hp⟩, ⟨q, id, hfind⟩, hname, howns⟩
    · rintro ⟨⟨n, hn, hp⟩, ⟨q, id, hfind⟩, hname, howns⟩
      exact ⟨⟨n, q, id, hn, hp, hfind, hname⟩, howns⟩
  · exact (nodup_segmentFiles hd hf).filter _
  · exact (ordered_segmentFiles hf).filter _
  · rw [foreign, List.filter_map]
    rfl

/-- A replay of the leftovers changes nothing in the store but the numbers still to come, and those
only if the target has taken in everything. -/
theorem Leftovers.outcome_replay (hl : s.Leftovers left) (hne : left ≠ []) (target : Target σ)
    (state : σ) :
    (∃ e state', s.replay target (left.map (·.2)) state = (.error e, s, state') ∧
      Replay.Outcome target s.disk left state (.error e) state') ∨
    ∃ top state', s.replay target (left.map (·.2)) state =
        (.ok (s.disk.reportOnAll left), s.keepIdsAbove top, state') ∧
      (∀ e ∈ left, e.1.id ≤ top) ∧
      Replay.Outcome target s.disk left state (.ok (s.disk.reportOnAll left)) state' := by
  have hrun := Replay.outcome_run (r := { stem := s.settings.stem }) rfl target
    (fun e he => ((hl.mem e.1 e.2).mp he).2.2.1) hl.ordered s.disk state
  unfold replay
  cases hr : ({ stem := s.settings.stem } : Replay).run target s.disk (left.map (·.2)) state with
  | mk result state' =>
    rw [hr] at hrun
    cases hresult : result with
    | error e =>
      subst hresult
      exact .inl ⟨e, state', rfl, hrun⟩
    | ok report =>
      subst hresult
      obtain rfl : report = s.disk.reportOnAll left := by
        cases hrun
        rfl
      obtain ⟨top, htop⟩ : ∃ top, (left.map (·.1.id)).max? = some top :=
        Option.isSome_iff_exists.mp (by simpa [List.isSome_max?_iff] using hne)
      have hmax : (s.disk.reportOnAll left).maxId = some top := htop
      refine .inr ⟨top, state', ?_, fun e he => ?_, hrun⟩
      · dsimp only
        rw [hmax]
      · exact (List.max?_eq_some_iff.mp htop).2 _ (List.mem_map_of_mem he)

/-! ## Removing what was replayed -/

theorem removeReplayed_eq (paths : List Path) (s : Store) :
    removeReplayed paths s = { s with disk := s.disk.removeAll paths } := by
  induction paths generalizing s with
  | nil => rfl
  | cons p rest ih => exact ih { s with disk := (s.disk.remove p).2 }

/-- What a store is when its leftovers were removed: nothing else has changed but the numbers still
to come. -/
structure Emptied (s t : Store) (left : List (SegmentName × Path)) : Prop where
  rest : t = { s with ids := t.ids, disk := t.disk }
  filed : t.Filed
  /-- Just the names of the leftovers are gone from the directory. -/
  cleared : ∃ r D names, s.disk.find s.settings.directory = .ok (r, .directory D) ∧
    left.map (·.2) = names.map (fun n => s.settings.directory.join ⟨n⟩) ∧
    s.disk.Cleared t.disk D names
  none : t.Leftovers []
  /-- The files of the active segments and of the spare are where they were. -/
  own : ∀ h ∈ s.active ++ s.spare.toList, ∀ q v, s.disk.find (s.segment h).path = .ok (q, v) →
    t.disk.find (s.segment h).path = .ok (q, v)
  ids : s.ids.next ≤ t.ids.next
  above : ∀ e ∈ left, e.1.id ≠ 0xFFFFFFFFFFFFFFFF → e.1.id < t.ids.next

/-- Leftovers lie in the directory under names of their own. -/
theorem Leftovers.exists_names (hl : s.Leftovers left) : ∃ names : List FileName, names.Nodup ∧
    left.map (·.2) = names.map (fun n => s.settings.directory.join ⟨n⟩) ∧
    ∀ n ∈ names, Disk.IsName n := by
  have hname : ∀ e ∈ left, ∃ n, Disk.IsName n ∧ e.2 = s.settings.directory.join ⟨n⟩ ∧
      e.2.fileName?.getD [] = n := by
    intro e he
    obtain ⟨⟨n, hn, hp⟩, -⟩ := (hl.mem e.1 e.2).mp he
    exact ⟨n, hn, hp, by rw [hp, Path.fileName?_join _ hn]; rfl⟩
  refine ⟨left.map fun e => e.2.fileName?.getD [], ?_, ?_, fun n hn => ?_⟩
  · refine List.Nodup.map_on ?_ hl.distinct
    intro e he e' he' heq
    obtain ⟨n, -, hp, hn⟩ := hname e he
    obtain ⟨n', -, hp', hn'⟩ := hname e' he'
    have hpath : e.2 = e'.2 := by rw [hp, hp', ← hn, ← hn', heq]
    -- the path of a file tells its name
    have hof := ((hl.mem e.1 e.2).mp he).2.2.1
    rw [hpath, ((hl.mem e'.1 e'.2).mp he').2.2.1] at hof
    exact Prod.ext (Except.ok.inj hof).symm hpath
  · rw [List.map_map]
    refine List.map_congr_left fun e he => ?_
    obtain ⟨n, -, hp, hn⟩ := hname e he
    rw [Function.comp_apply, hn]
    exact hp
  · obtain ⟨e, he, rfl⟩ := List.mem_map.mp hn
    obtain ⟨n, hn, -, heq⟩ := hname e he
    rw [heq]
    exact hn

/-- The file of a segment of the store is none of its leftovers. -/
theorem Leftovers.apart (hl : s.Leftovers left) (hs : s.Filed) {h : Handle}
    (hh : h ∈ s.active ++ s.spare.toList) {q : Place} {v : Node}
    (hfind : s.disk.find (s.segment h).path = .ok (q, v)) {n : FileName}
    (hn : s.settings.directory.join ⟨n⟩ ∈ left.map (·.2)) : q.name ≠ some n := by
  intro hq
  obtain ⟨⟨name, p⟩, he, rfl⟩ := List.mem_map.mp hn
  obtain ⟨⟨m, hm, hp⟩, -, hname, howns⟩ := (hl.mem _ _).mp he
  have hknown : h < s.table.size := by
    by_contra hge
    refine Disk.bytes_ne_nil_of_locate (Disk.find_eq_ok_iff.mp hfind).1 ?_
    rw [segment, Array.getD_eq_getD_getElem?, Array.getElem?_eq_none (Nat.le_of_not_lt hge)]
    rfl
  have hpath := hs.placed h hknown
  have hlocate := (Disk.find_eq_ok_iff.mp hfind).1
  rw [hpath] at hlocate
  rw [hp] at hname
  obtain ⟨hqname, -⟩ :=
    SegmentName.name_of_locate (SegmentName.stem_of_ofPath hm hname) hlocate
  rw [hq, Option.some.injEq] at hqname
  rw [owns, List.any_eq_false] at howns
  refine howns h hh ?_
  rw [Path.same_iff, hpath, hqname]
  rfl

/-- Where the names of the leftovers are gone from the directory, nothing is left over. -/
theorem Leftovers.none_left (hl : s.Leftovers left) (hsettings : t.settings = s.settings)
    (howns : ∀ p, t.owns p = s.owns p) {r : Place} {D : DirectoryId} {names : List FileName}
    (hD : s.disk.find s.settings.directory = .ok (r, .directory D))
    (hpaths : left.map (·.2) = names.map (fun n => s.settings.directory.join ⟨n⟩))
    (hnames : ∀ n ∈ names, Disk.IsName n) (hcleared : s.disk.Cleared t.disk D names) :
    t.Leftovers [] := by
  refine ⟨fun name p => ⟨fun he => (nomatch he), ?_⟩, List.nodup_nil, .nil⟩
  rw [hsettings, howns]
  rintro ⟨⟨n, hn, rfl⟩, hfile, hname, hforeign⟩
  -- a file that is found now was found before, and was one of those that were removed
  obtain ⟨q, id, hfind⟩ := Disk.isFile_iff.mp hfile
  obtain ⟨hbefore, hother⟩ := hcleared.find_back hfind
  have hleft : (name, s.settings.directory.join ⟨n⟩) ∈ left :=
    (hl.mem _ _).mpr ⟨⟨n, hn, rfl⟩, Disk.isFile_iff.mpr ⟨q, id, hbefore⟩, hname, hforeign⟩
  have hpath : s.settings.directory.join ⟨n⟩ ∈ left.map (·.2) := List.mem_map_of_mem hleft
  rw [hpaths] at hpath
  obtain ⟨m, hm, hjoin⟩ := List.mem_map.mp hpath
  have hmn : m = n := by
    have hlast := s.settings.directory.fileName?_join (hnames m hm)
    rw [hjoin, Path.fileName?_join _ hn] at hlast
    exact (Option.some.inj hlast).symm
  exact absurd (Disk.place_of_find_join hD hn hbefore) (hother n (hmn ▸ hm))

/-- The leftovers are removed, and nothing else. -/
theorem Leftovers.emptied (hl : s.Leftovers left) (hs : s.Filed)
    (hremove : ∀ f ∈ s.disk.faults.remove, f = none)
    (hdirectory : s.disk.isDirectory s.settings.directory = true) {ids : IdSource}
    (hids : s.ids.next ≤ ids.next)
    (habove : ∀ e ∈ left, e.1.id ≠ 0xFFFFFFFFFFFFFFFF → e.1.id < ids.next) :
    s.Emptied { s with ids, disk := s.disk.removeAll (left.map (·.2)) } left := by
  obtain ⟨r, D, hD⟩ := Disk.isDirectory_iff.mp hdirectory
  obtain ⟨names, hdistinct, hpaths, hnames⟩ := hl.exists_names
  have hmem : ∀ n ∈ names, s.settings.directory.join ⟨n⟩ ∈ left.map (·.2) := by
    intro n hn
    rw [hpaths]
    exact List.mem_map_of_mem hn
  have hcleared : s.disk.Cleared (s.disk.removeAll (left.map (·.2))) D names := by
    rw [hpaths]
    refine Disk.cleared_removeAll hs.disk hremove hD hdistinct fun n hn => ⟨hnames n hn, ?_⟩
    obtain ⟨e, he, hp⟩ := List.mem_map.mp (hmem n hn)
    obtain ⟨-, hfile, -⟩ := (hl.mem e.1 e.2).mp he
    rw [hp] at hfile
    exact Disk.isFile_iff.mp hfile
  constructor
  case rest => rfl
  case filed =>
    exact hs.of_same rfl rfl (fun _ _ => .refl _) (hcleared.wellFormed hs.disk)
      (Nat.le_of_eq (by rw [hcleared.files]))
  case cleared => exact ⟨r, D, names, hD, hpaths, hcleared⟩
  case own =>
    intro h hh q v hfind
    exact hcleared.find hfind fun n hn hq => hl.apart hs hh hfind (hmem n hn) hq.2
  case ids => exact hids
  case above => exact habove
  case none => exact hl.none_left rfl (fun _ => rfl) hD hpaths hnames hcleared

/-! ## The whole recovery -/

/-- Files that are left over are replayed, and removed if that succeeds. -/
theorem replayLeftovers_of_ne_nil {found : List (SegmentName × Path)} {target : Target σ}
    {state : σ}
    (hf : segmentFiles s.disk s.settings.directory s.settings.stem = .ok found)
    (hne : s.foreign found ≠ []) : s.replayLeftovers target state =
      match s.replay target (s.foreign found) state with
      | (.error e, s, state) => (.error e, s, state)
      | (.ok report, t, state) => (.ok report, removeReplayed (s.foreign found) t, state) := by
  rw [replayLeftovers, hf]
  dsimp only
  cases hforeign : s.foreign found with
  | nil => exact absurd hforeign hne
  | cons p rest => rfl

/-- What comes of the replay of the leftovers comes of the recovery. -/
theorem replayLeftovers_of_run {found : List (SegmentName × Path)} {paths : List Path}
    {target : Target σ} {state state' : σ} {result : Except LogError ReplayReport}
    (hf : segmentFiles s.disk s.settings.directory s.settings.stem = .ok found)
    (hforeign : s.foreign found = paths) (hne : paths ≠ [])
    (hrun : ({ stem := s.settings.stem } : Replay).run target s.disk paths state =
      (result, state')) : ∃ t, s.replayLeftovers target state = (result, t, state') := by
  subst hforeign
  rw [replayLeftovers_of_ne_nil hf hne, replay, hrun]
  cases result with
  | error e => exact ⟨_, rfl⟩
  | ok report =>
    dsimp only
    cases report.maxId <;> exact ⟨_, rfl⟩

/-- All that can come of a recovery: the leftovers stay as a whole, or they are taken over as a
whole. -/
inductive Takeover (s : Store) (target : Target σ) (state : σ) :
    Except LogError ReplayReport → Store → σ → Prop where
  /-- The directory cannot be listed. -/
  | unlisted {cause : DiskError} : s.disk.entries s.settings.directory = .error cause →
      Takeover s target state (.error (.io (.disk cause))) s state
  /-- The replay of the leftovers fails. -/
  | failed {left : List (SegmentName × Path)} {e : LogError} {state' : σ} : s.Leftovers left →
      left ≠ [] → Replay.Outcome target s.disk left state (.error e) state' →
      Takeover s target state (.error e) s state'
  /-- There are no leftovers, and the target is not asked for anything. -/
  | nothing : s.Leftovers [] → s.Emptied s [] →
      Takeover s target state (.ok (s.disk.reportOnAll [])) s state
  /-- The leftovers are replayed, and removed. -/
  | taken {left : List (SegmentName × Path)} {t : Store} {state' : σ} : s.Leftovers left →
      left ≠ [] → Replay.Outcome target s.disk left state (.ok (s.disk.reportOnAll left)) state' →
      s.Emptied t left → Takeover s target state (.ok (s.disk.reportOnAll left)) t state'

/-- Leftovers are replayed and removed, or they stay, if removals do not fail. -/
theorem Filed.takeover (hs : s.Filed) (hremove : ∀ f ∈ s.disk.faults.remove, f = none)
    {target : Target σ} {state state' : σ} {result : Except LogError ReplayReport}
    (h : s.replayLeftovers target state = (result, t, state')) :
    s.Takeover target state result t state' := by
  cases hentries : s.disk.entries s.settings.directory with
  | error cause =>
    rw [replayLeftovers, segmentFiles, hentries] at h
    cases h
    exact .unlisted hentries
  | ok names =>
    obtain ⟨found, hfound⟩ : ∃ found,
        segmentFiles s.disk s.settings.directory s.settings.stem = .ok found := by
      rw [segmentFiles, hentries]
      exact ⟨_, rfl⟩
    obtain ⟨left, hl, hforeign⟩ := leftovers_listed hs.disk hfound
    obtain ⟨r, D, hD, -⟩ := Disk.entries_eq_ok_iff.mp hentries
    have hdirectory := Disk.isDirectory_iff.mpr ⟨r, D, hD⟩
    by_cases hne : left = []
    · subst hne
      have hempty := hl.emptied hs hremove hdirectory (UInt64.le_refl _)
        fun e he => absurd he List.not_mem_nil
      rw [replayLeftovers, hfound] at h
      dsimp only at h
      rw [hforeign] at h
      cases h
      exact .nothing hl hempty
    · rw [replayLeftovers_of_ne_nil hfound (by simpa [hforeign] using hne), hforeign] at h
      rcases hl.outcome_replay hne target state with
        ⟨e, s', hreplay, houtcome⟩ | ⟨top, s', hreplay, htop, houtcome⟩
      · rw [hreplay] at h
        cases h
        exact .failed hl hne houtcome
      · rw [hreplay] at h
        cases h
        refine .taken hl hne houtcome ?_
        rw [removeReplayed_eq]
        exact hl.emptied hs hremove hdirectory (s.ids.next_le_keepAbove top)
          fun e he => s.ids.lt_keepAbove_of_le (htop e he)

end Store

end SegmentLog
