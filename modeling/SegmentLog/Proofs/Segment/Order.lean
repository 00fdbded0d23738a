import Mathlib.Data.List.Pairwise
import SegmentLog.Segment.Listing

/-!
# The order of segment files

Segment files are sorted by number, then by version. Files that agree in both have no order of
their own, and stay as they were given; where no two do, there is only one way to sort them.

* `inOrder_iff` — when one file comes before another;
* `mergeSort_eq_of_perm` — files of different names are sorted in one way only;
* `ascending_mergeSort` — files of different numbers are sorted by their numbers;
* `sortedFrom_mergeSort`, `SortedFrom.eq_mergeSort` — what sorting does to files, those of one name
  included, and that nothing else does so.
-/

namespace SegmentLog

variable {a b c : SegmentName × Path} {files sorted : List (SegmentName × Path)}

theorem inOrder_iff :
    inOrder a b = true ↔ a.1.id < b.1.id ∨ a.1.id = b.1.id ∧ a.1.version ≤ b.1.version := by
  simp only [inOrder, SegmentName.precedes, Bool.or_eq_true, Bool.and_eq_true, decide_eq_true_eq,
    beq_iff_eq]

theorem inOrder_of_lt (h : a.1.id < b.1.id) : inOrder a b = true := inOrder_iff.mpr (.inl h)

theorem inOrder_of_eq (h : a.1 = b.1) : inOrder a b = true := by
  rw [inOrder_iff, h]
  exact .inr ⟨rfl, UInt32.le_refl _⟩

theorem inOrder_trans (hab : inOrder a b = true) (hbc : inOrder b c = true) :
    inOrder a c = true := by
  rw [inOrder_iff] at *
  rcases hab with hab | ⟨hab, hv⟩
  · rcases hbc with hbc | ⟨hbc, -⟩
    · exact .inl (UInt64.lt_trans hab hbc)
    · exact .inl (hbc ▸ hab)
  · rcases hbc with hbc | ⟨hbc, hv'⟩
    · exact .inl (hab ▸ hbc)
    · exact .inr ⟨hab.trans hbc, UInt32.le_trans hv hv'⟩

theorem inOrder_total (a b : SegmentName × Path) : (inOrder a b || inOrder b a) = true := by
  rw [Bool.or_eq_true, inOrder_iff, inOrder_iff]
  by_cases hlt : a.1.id < b.1.id
  · exact .inl (.inl hlt)
  · by_cases hgt : b.1.id < a.1.id
    · exact .inr (.inl hgt)
    · have heq : a.1.id = b.1.id := UInt64.le_antisymm (UInt64.not_lt.mp hgt) (UInt64.not_lt.mp hlt)
      rcases UInt32.le_total a.1.version b.1.version with hv | hv
      · exact .inl (.inr ⟨heq, hv⟩)
      · exact .inr (.inr ⟨heq.symm, hv⟩)

/-- Files that come before each other have the same name. -/
theorem name_eq_of_inOrder (hab : inOrder a b = true) (hba : inOrder b a = true) : a.1 = b.1 := by
  obtain ⟨⟨id, version⟩, p⟩ := a
  obtain ⟨⟨id', version'⟩, q⟩ := b
  rw [inOrder_iff] at hab hba
  rcases hab with hlt | ⟨rfl, hle⟩
  · rcases hba with hgt | ⟨rfl, -⟩
    · exact absurd hgt (UInt64.lt_asymm hlt)
    · exact absurd hlt (UInt64.lt_irrefl _)
  · rcases hba with hgt | ⟨-, hge⟩
    · exact absurd hgt (UInt64.lt_irrefl _)
    · exact congrArg (SegmentName.mk id) (UInt32.le_antisymm hle hge)

/-! ## Sorting -/

theorem ordered_mergeSort (files : List (SegmentName × Path)) :
    (files.mergeSort inOrder).Pairwise fun a b => inOrder a b = true :=
  @List.pairwise_mergeSort _ inOrder (fun _ _ _ => inOrder_trans) inOrder_total files

/-- Files of different names are sorted in one way only. -/
theorem mergeSort_eq_of_perm {xs ys : List (SegmentName × Path)} (hperm : xs.Perm ys)
    (hdistinct : ys.Pairwise fun a b => a.1 ≠ b.1) :
    xs.mergeSort inOrder = ys.mergeSort inOrder := by
  have hsorted : (xs.mergeSort inOrder).Perm (ys.mergeSort inOrder) :=
    (List.mergeSort_perm xs _).trans (hperm.trans (List.mergeSort_perm ys _).symm)
  apply hsorted.eq_of_pairwise ?_ (ordered_mergeSort xs) (ordered_mergeSort ys)
  intro a b ha hb hab hba
  rw [List.mem_mergeSort] at ha hb
  by_contra hne
  have hsymm : Std.Symm fun a b : SegmentName × Path => a.1 ≠ b.1 := ⟨fun _ _ => Ne.symm⟩
  exact hdistinct.forall (hperm.subset ha) hb hne (name_eq_of_inOrder hab hba)

/-- Files of different numbers are sorted by their numbers. -/
theorem ascending_mergeSort (hdistinct : files.Pairwise fun a b => a.1.id ≠ b.1.id) :
    (files.mergeSort inOrder).Pairwise fun a b => a.1.id < b.1.id := by
  have hsorted : (files.mergeSort inOrder).Pairwise fun a b => a.1.id ≠ b.1.id :=
    hdistinct.perm (List.mergeSort_perm files inOrder).symm Ne.symm
  refine ((ordered_mergeSort files).and hsorted).imp ?_
  rintro a b ⟨hab, hne⟩
  rcases inOrder_iff.mp hab with hlt | ⟨heq, -⟩
  · exact hlt
  · exact absurd heq hne

/-- Files that agree in their name stay in their order when they are sorted with others. -/
theorem filter_mergeSort (files : List (SegmentName × Path)) (name : SegmentName) :
    (files.mergeSort inOrder).filter (·.1 = name) = files.filter (·.1 = name) := by
  have hordered : (files.filter (·.1 = name)).Pairwise fun a b => inOrder a b = true := by
    apply List.pairwise_of_forall_mem_list
    intro a ha b hb
    rw [List.mem_filter, decide_eq_true_eq] at ha hb
    exact inOrder_of_eq (ha.2.trans hb.2.symm)
  have hsublist : (files.filter (·.1 = name)).Sublist (files.mergeSort inOrder) :=
    @List.sublist_mergeSort _ inOrder _ (fun _ _ _ => inOrder_trans) inOrder_total _ hordered
      List.filter_sublist
  have hfiltered := hsublist.filter (·.1 = name)
  rw [List.filter_filter, List.filter_congr fun e _ => Bool.and_self _] at hfiltered
  apply (hfiltered.eq_of_length _).symm
  exact ((List.mergeSort_perm files inOrder).filter _).length_eq.symm

/-- A file that comes first in the order comes before all others. -/
theorem inOrder_of_mem_cons {more : List (SegmentName × Path)}
    (h : (a :: more).Pairwise fun a b => inOrder a b = true) (hb : b ∈ a :: more) :
    inOrder a b = true := by
  rcases List.mem_cons.mp hb with rfl | hb
  · exact inOrder_of_eq rfl
  · exact (List.pairwise_cons.mp h).1 b hb

theorem mem_iff_of_filter_eq {xs ys : List (SegmentName × Path)}
    (h : ∀ name, xs.filter (·.1 = name) = ys.filter (·.1 = name)) (e : SegmentName × Path) :
    e ∈ xs ↔ e ∈ ys := by
  have he : e ∈ xs.filter (·.1 = e.1) ↔ e ∈ ys.filter (·.1 = e.1) := by rw [h]
  simpa using he

/-- Files in their order are told by what there is of each name. -/
theorem eq_of_filter_eq {xs ys : List (SegmentName × Path)}
    (hx : xs.Pairwise fun a b => inOrder a b = true)
    (hy : ys.Pairwise fun a b => inOrder a b = true)
    (h : ∀ name, xs.filter (·.1 = name) = ys.filter (·.1 = name)) : xs = ys := by
  induction xs generalizing ys with
  | nil =>
    cases ys with
    | nil => rfl
    | cons b bs => simpa using mem_iff_of_filter_eq h b
  | cons a as ih =>
    cases ys with
    | nil => simpa using mem_iff_of_filter_eq h a
    | cons b bs =>
      have hmem := mem_iff_of_filter_eq h
      have hname : a.1 = b.1 :=
        name_eq_of_inOrder (inOrder_of_mem_cons hx ((hmem b).mpr List.mem_cons_self))
          (inOrder_of_mem_cons hy ((hmem a).mp List.mem_cons_self))
      have hfirst := h a.1
      rw [List.filter_cons_of_pos (by simp), List.filter_cons_of_pos (by simp [hname]),
        List.cons.injEq] at hfirst
      obtain ⟨rfl, hrest⟩ := hfirst
      have hmore : ∀ name, as.filter (·.1 = name) = bs.filter (·.1 = name) := by
        intro name
        by_cases hn : a.1 = name
        · exact hn ▸ hrest
        · have hothers := h name
          rwa [List.filter_cons_of_neg (by simpa using hn),
            List.filter_cons_of_neg (by simpa using hn)] at hothers
      rw [ih (List.pairwise_cons.mp hx).2 (List.pairwise_cons.mp hy).2 hmore]

/-- Whether some files are others, sorted by number, then by version, with those that agree in both
in their order. -/
structure SortedFrom (sorted files : List (SegmentName × Path)) : Prop where
  perm : sorted.Perm files
  ordered : sorted.Pairwise fun a b =>
    a.1.id < b.1.id ∨ a.1.id = b.1.id ∧ a.1.version ≤ b.1.version
  stable : ∀ name, sorted.filter (·.1 = name) = files.filter (·.1 = name)

theorem sortedFrom_mergeSort (files : List (SegmentName × Path)) :
    SortedFrom (files.mergeSort inOrder) files where
  perm := List.mergeSort_perm files inOrder
  ordered := (ordered_mergeSort files).imp inOrder_iff.mp
  stable := filter_mergeSort files

/-- There is no other way to sort files so. -/
theorem SortedFrom.eq_mergeSort (h : SortedFrom sorted files) : sorted = files.mergeSort inOrder :=
  eq_of_filter_eq (h.ordered.imp inOrder_iff.mpr) (ordered_mergeSort files) fun name =>
    (h.stable name).trans (filter_mergeSort files name).symm

end SegmentLog
