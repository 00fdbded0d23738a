import SegmentLog.Proofs.Segment.Order
import SegmentLog.Proofs.Segment.Paths

/-!
# Which segment files are listed

A name without a separator that is put under a directory is the name of the file that the path
leads to, in just that directory. So the files that are listed are those that can be found under
a name in the directory, and since they are listed in order, the files alone decide the list.

* `Disk.locate_join` — where the path of a name in a directory leads;
* `SegmentName.ofPath_join`, `SegmentName.same_join_iff` — the path of a segment file tells its
  name;
* `exists_segmentFiles`, `mem_segmentFiles_iff` — when files are listed, and which ones;
* `segmentFiles_eq` — files of different numbers can be listed in one way only.
-/

namespace SegmentLog

/-! ## Paths of names in a directory -/

namespace Path

/-- The stretches of a path are followed by a name that is put under it; a separator at its end
makes no difference. -/
theorem exists_stretches_join {p : Path} (hp : p.bytes ≠ []) :
    ∃ front, (p.stretches = front ∨ p.stretches = front ++ [[]]) ∧
      ∀ n : FileName, separator ∉ n → p.bytes <+: (p.join ⟨n⟩).bytes ∧
        (p.join ⟨n⟩).isAbsolute = p.isAbsolute ∧ (p.join ⟨n⟩).stretches = front ++ [n] := by
  have hrelative : ∀ n : FileName, separator ∉ n →
      ((⟨n⟩ : Path).isAbsolute || p.bytes.isEmpty) = false := by
    intro n hn
    rw [Bool.or_eq_false_iff, isAbsolute, beq_eq_false_iff_ne, List.isEmpty_eq_false_iff]
    exact ⟨fun h => hn (List.mem_of_mem_head? h), hp⟩
  have habsolute : ∀ bs : Bytes, (⟨p.bytes ++ bs⟩ : Path).isAbsolute = p.isAbsolute := by
    intro bs
    rw [isAbsolute, isAbsolute, List.head?_append_of_ne_nil _ hp]
  by_cases hend : (p.bytes.getLast? == some separator) = true
  · obtain ⟨base, hbase⟩ := List.getLast?_eq_some_iff.mp (beq_iff_eq.mp hend)
    refine ⟨base.splitOn separator, .inr ?_, fun n hn => ?_⟩
    · rw [stretches, hbase, List.splitOn_append_cons_self, List.splitOn_nil]
    · have hjoin : p.join ⟨n⟩ = ⟨p.bytes ++ n⟩ := by
        rw [join, hrelative n hn, if_neg Bool.false_ne_true, if_pos hend]
      rw [hjoin, habsolute, stretches, hbase, List.append_assoc, List.singleton_append,
        List.splitOn_append_cons_self, List.splitOn_eq_singleton hn]
      exact ⟨⟨n, List.append_assoc base [separator] n⟩, rfl, rfl⟩
  · refine ⟨p.stretches, .inl rfl, fun n hn => ?_⟩
    have hjoin : p.join ⟨n⟩ = ⟨p.bytes ++ separator :: n⟩ := by
      rw [join, hrelative n hn, if_neg Bool.false_ne_true, if_neg hend]
    rw [hjoin, habsolute, stretches, List.splitOn_append_cons_self, List.splitOn_eq_singleton hn]
    exact ⟨List.prefix_append _ _, rfl, rfl⟩

theorem exists_front_join (p : Path) :
    ∃ front, ∀ n : FileName, separator ∉ n → (p.join ⟨n⟩).stretches = front ++ [n] := by
  by_cases hp : p.bytes = []
  · refine ⟨[], fun n hn => ?_⟩
    have hjoin : p.join ⟨n⟩ = ⟨n⟩ := by
      rw [join, hp, List.isEmpty_nil, Bool.or_true, if_pos rfl]
    rw [hjoin, stretches, List.splitOn_eq_singleton hn, List.nil_append]
  · obtain ⟨front, -, hjoin⟩ := exists_stretches_join hp
    exact ⟨front, fun n hn => (hjoin n hn).2.2⟩

/-- The name that was put under a directory is the last part of the path. -/
theorem getLast?_parts_join (p : Path) {n : FileName} (hn : Disk.IsName n) :
    (p.join ⟨n⟩).parts.getLast? = some (.name n) := by
  obtain ⟨front, hjoin⟩ := p.exists_front_join
  have hpart : part? n = some (.name n) := by
    rw [part?, hn.notBlank, if_neg Bool.false_ne_true, if_neg hn.notUp]
  rw [parts, hjoin n hn.noSeparator, List.filterMap_append, List.filterMap_cons, hpart]
  simp

theorem fileName?_join (p : Path) {n : FileName} (hn : Disk.IsName n) :
    (p.join ⟨n⟩).fileName? = some n := by
  rw [fileName?, p.getLast?_parts_join hn]

end Path

namespace Disk

theorem bytes_ne_nil_of_locate {d : Disk} {p : Path} {q : Place} (h : d.locate p = .ok q) :
    p.bytes ≠ [] := by
  intro hnil
  rw [locate, refusal?, hnil] at h
  cases h

theorem refusal?_eq_none {p : Path} :
    refusal? p = none ↔ 0 ∉ p.bytes ∧ p.bytes ≠ [] ∧ p.bytes.length < maxPath := by
  rw [refusal?]
  split
  · simp_all
  · split
    · simp_all
    · split
      · simp_all
      · simp_all

theorem node?_of_enter {d : Disk} {p : Place} {way : Way} (h : d.enter p = .ok way) :
    d.node? p = some (.directory way.here) := by
  unfold enter at h
  unfold node?
  cases hn : p.name with
  | none =>
    rw [hn] at h
    cases h
    rfl
  | some n =>
    simp only [hn] at h ⊢
    split at h
    · cases h
    · cases h
    · cases h
      assumption

theorem isDirectory_iff {d : Disk} {p : Path} :
    d.isDirectory p = true ↔ ∃ q D, d.find p = .ok (q, .directory D) := by
  unfold isDirectory
  split
  · simp_all
  · rename_i h
    simp only [Bool.false_eq_true, false_iff, not_exists]
    exact h

theorem isFile_iff {d : Disk} {p : Path} :
    d.isFile p = true ↔ ∃ q id, d.find p = .ok (q, .file id) := by
  unfold isFile
  split
  · simp_all
  · rename_i h
    simp only [Bool.false_eq_true, false_iff, not_exists]
    exact h

/-- A directory has entries, and nothing else has. -/
theorem entries_eq_ok_iff {d : Disk} {p : Path} {names : List FileName} :
    d.entries p = .ok names ↔
      ∃ q D, d.find p = .ok (q, .directory D) ∧ names = (d.entriesOf D).map (·.1) := by
  unfold entries
  cases hf : d.find p with
  | error e => simp
  | ok found =>
    obtain ⟨q, v⟩ := found
    cases v <;> simp [eq_comm]

/-- A name under a directory leads into this directory. -/
theorem locate_join {d : Disk} {p : Path} {n : FileName} {q : Place} (hp : p.bytes ≠ [])
    (hn : IsName n) (h : d.locate (p.join ⟨n⟩) = .ok q) :
    q.name = some n ∧ ∃ r, d.find p = .ok (r, .directory q.way.here) := by
  obtain ⟨front, hfront, hjoin⟩ := Path.exists_stretches_join hp
  obtain ⟨hlonger, habsolute, hstretches⟩ := hjoin n hn.noSeparator
  have hstart : d.start (p.join ⟨n⟩) = d.start p := by rw [start, start, habsolute]
  unfold locate at h
  split at h
  · cases h
  · rename_i hrefusal
    rw [hstart, hstretches, follow_append] at h
    split at h
    · cases h
    · rename_i r hr
      obtain ⟨hname, henter⟩ := follow_singleton_name hn.notBlank hn.notUp h
      refine ⟨hname, ?_⟩
      have haccepted : refusal? p = none := by
        obtain ⟨hzero, -, hshort⟩ := refusal?_eq_none.mp hrefusal
        have hlen := hlonger.length_le
        exact refusal?_eq_none.mpr ⟨fun h0 => hzero (hlonger.mem h0), hp, by omega⟩
      rcases hfront with hfront | hfront
      · refine ⟨r, find_eq_ok_iff.mpr ⟨?_, node?_of_enter henter⟩⟩
        simp only [locate, haccepted, hfront, hr]
      · -- a separator at the end of the path leads into the directory that it stands behind
        refine ⟨{ way := q.way }, find_eq_ok_iff.mpr ⟨?_, rfl⟩⟩
        simp only [locate, haccepted, hfront, follow_append, hr]
        exact follow_cons (s := []) [] henter rfl

end Disk

/-! ## Names of segment files -/

namespace SegmentName

/-- The name of a segment file in its directory. -/
def fileName (stem : String) (n : SegmentName) : FileName := Utf8.encode (n.render stem)

theorem fileName_eq (stem : String) (n : SegmentName) :
    n.fileName stem = Utf8.encode stem ++ Utf8.encode n.tag := by
  rw [fileName, render_eq, Utf8.encode_append]

theorem fileName_injective {stem : String} {m n : SegmentName}
    (h : m.fileName stem = n.fileName stem) : m = n := by
  rw [fileName_eq, fileName_eq, List.append_cancel_left_eq] at h
  exact encode_tag_injective h

/-- The path of a segment file tells its name. -/
theorem ofPath_join (directory : Path) {stem : String}
    {n : SegmentName} (hn : Disk.IsName (n.fileName stem)) :
    ofPath stem (directory.join ⟨n.fileName stem⟩) = .ok n := by
  rw [ofPath, directory.fileName?_join hn, Option.bind_some, fileName, Utf8.decode?_encode]
  simp only [parse, parse?_render]

theorem same_join_iff {directory : Path} {stem : String}
    {m n : SegmentName} (hm : Disk.IsName (m.fileName stem)) (hn : Disk.IsName (n.fileName stem)) :
    (directory.join ⟨m.fileName stem⟩).same (directory.join ⟨n.fileName stem⟩) = true ↔ m = n := by
  rw [Path.same_iff]
  constructor
  · intro h
    have hlast := congrArg List.getLast? h
    rw [directory.getLast?_parts_join hm, directory.getLast?_parts_join hn] at hlast
    simp only [Option.some.injEq, PathPart.name.injEq] at hlast
    exact fileName_injective hlast
  · rintro rfl
    rfl

end SegmentName

/-! ## Listings -/

/-- What is a directory has a list of segment files. -/
theorem exists_segmentFiles {d : Disk} {directory : Path} (h : d.isDirectory directory = true)
    (stem : String) : ∃ found, segmentFiles d directory stem = .ok found := by
  obtain ⟨r, D, hr⟩ := Disk.isDirectory_iff.mp h
  rw [segmentFiles, Disk.entries_eq_ok_iff.mpr ⟨r, D, hr, rfl⟩]
  exact ⟨_, rfl⟩

/-- Only what is a directory has a list of segment files. -/
theorem isDirectory_of_segmentFiles {d : Disk} {directory : Path} {stem : String}
    {found : List (SegmentName × Path)} (h : segmentFiles d directory stem = .ok found) :
    d.isDirectory directory = true := by
  unfold segmentFiles at h
  split at h
  · cases h
  · rename_i names hnames
    obtain ⟨r, D, hr, -⟩ := Disk.entries_eq_ok_iff.mp hnames
    exact Disk.isDirectory_iff.mpr ⟨r, D, hr⟩

/-- A file is listed exactly if it is found under a name in the directory, and the path of that
name has a segment name. -/
theorem mem_segmentFiles_iff {d : Disk} (hd : d.WellFormed) {directory : Path} {stem : String}
    {found : List (SegmentName × Path)} (hf : segmentFiles d directory stem = .ok found)
    {name : SegmentName} {p : Path} :
    (name, p) ∈ found ↔ ∃ n q id, Disk.IsName n ∧ p = directory.join ⟨n⟩ ∧
      d.find p = .ok (q, .file id) ∧ SegmentName.ofPath stem p = .ok name := by
  obtain ⟨r, D, hr⟩ := Disk.isDirectory_iff.mp (isDirectory_of_segmentFiles hf)
  rw [mem_segmentFiles (Disk.entries_eq_ok_iff.mpr ⟨r, D, hr, rfl⟩) hf]
  constructor
  · rintro ⟨⟨n, hn, rfl⟩, hfile, hname⟩
    obtain ⟨e, he, rfl⟩ := List.mem_map.mp hn
    obtain ⟨q, id, hfind⟩ := Disk.isFile_iff.mp hfile
    exact ⟨e.1, q, id, hd.names he, rfl, hfind, hname⟩
  · rintro ⟨n, q, id, hn, rfl, hfind, hname⟩
    refine ⟨⟨n, ?_, rfl⟩, Disk.isFile_iff.mpr ⟨q, id, hfind⟩, hname⟩
    -- the file lies in just the directory that is listed
    have hp := Disk.bytes_ne_nil_of_locate (Disk.find_eq_ok_iff.mp hr).1
    obtain ⟨hqname, r', hr'⟩ := Disk.locate_join hp hn (Disk.find_eq_ok_iff.mp hfind).1
    rw [hr] at hr'
    cases hr'
    obtain ⟨m, hm, hlookup⟩ := Disk.name_of_find_file hfind
    rw [hqname] at hm
    cases hm
    exact List.mem_map.mpr ⟨_, Disk.mem_of_lookup_eq_some hlookup, rfl⟩

/-- The files of a directory are listed in their order. -/
theorem ordered_segmentFiles {d : Disk} {directory : Path} {stem : String}
    {found : List (SegmentName × Path)} (hf : segmentFiles d directory stem = .ok found) :
    found.Pairwise fun a b => inOrder a b = true := by
  unfold segmentFiles at hf
  split at hf
  · cases hf
  · cases hf
    exact ordered_mergeSort _

/-- A directory lists no file twice. -/
theorem nodup_segmentFiles {d : Disk} (hd : d.WellFormed) {directory : Path} {stem : String}
    {found : List (SegmentName × Path)} (hf : segmentFiles d directory stem = .ok found) :
    found.Nodup := by
  unfold segmentFiles at hf
  split at hf
  · cases hf
  · rename_i names hnames
    cases hf
    obtain ⟨r, D, hr, rfl⟩ := Disk.entries_eq_ok_iff.mp hnames
    refine (List.mergeSort_perm _ _).nodup_iff.mpr ?_
    refine List.pairwise_filterMap.mpr ((hd.distinct D).imp_of_mem fun {m n} hm hn hne => ?_)
    rintro ⟨_, p⟩ hx ⟨_, q⟩ hy he
    cases he
    obtain ⟨-, -, hpm⟩ := segmentFile?_eq_some_iff.mp hx
    obtain ⟨-, -, hpn⟩ := segmentFile?_eq_some_iff.mp hy
    obtain ⟨e, he, rfl⟩ := List.mem_map.mp hm
    obtain ⟨e', he', rfl⟩ := List.mem_map.mp hn
    have hlast := directory.fileName?_join (hd.names he)
    rw [← hpm, hpn, directory.fileName?_join (hd.names he')] at hlast
    exact hne (Option.some.inj hlast).symm

/-- A directory with one segment file. -/
theorem segmentFiles_singleton {d : Disk} {directory : Path} {stem : String}
    {names : List FileName} {e : SegmentName × Path} (hnames : d.entries directory = .ok names)
    (hfile : names.filterMap (fun n => segmentFile? d stem (directory.join ⟨n⟩)) = [e]) :
    segmentFiles d directory stem = .ok [e] := by
  rw [segmentFiles, hnames]
  dsimp only
  rw [hfile, List.mergeSort_singleton]

/-- Files of different numbers are listed by their numbers, and in no other way. -/
theorem segmentFiles_eq {d : Disk} (hd : d.WellFormed) {directory : Path} {stem : String}
    (hdirectory : d.isDirectory directory = true) {listing : List (SegmentName × Path)}
    (hsorted : listing.Pairwise fun a b => a.1.id < b.1.id)
    (hmem : ∀ name p, (name, p) ∈ listing ↔ ∃ n q id, Disk.IsName n ∧ p = directory.join ⟨n⟩ ∧
      d.find p = .ok (q, .file id) ∧ SegmentName.ofPath stem p = .ok name) :
    segmentFiles d directory stem = .ok listing := by
  obtain ⟨found, hfound⟩ := exists_segmentFiles hdirectory stem
  have hperm : found.Perm listing := by
    refine (List.perm_ext_iff_of_nodup (nodup_segmentFiles hd hfound) ?_).mpr ?_
    · refine hsorted.imp ?_
      rintro a b hlt rfl
      exact UInt64.lt_irrefl _ hlt
    · rintro ⟨name, p⟩
      exact (mem_segmentFiles_iff hd hfound).trans (hmem name p).symm
  rw [hfound, hperm.eq_of_pairwise ?_ (ordered_segmentFiles hfound) (hsorted.imp inOrder_of_lt)]
  intro a b ha hb hab hba
  by_contra hne
  have hsymm : Std.Symm fun a b : SegmentName × Path => a.1.id ≠ b.1.id := ⟨fun _ _ => Ne.symm⟩
  have hids : listing.Pairwise fun a b => a.1.id ≠ b.1.id :=
    hsorted.imp fun hlt => UInt64.ne_of_lt hlt
  have hid := hids.forall (hperm.subset ha) hb hne
  exact hid (congrArg SegmentName.id (name_eq_of_inOrder hab hba))

end SegmentLog
