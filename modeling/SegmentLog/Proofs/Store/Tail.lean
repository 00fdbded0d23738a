import SegmentLog.Proofs.Store.Leading

/-!
# The last segment and the position of a log

The position of a log is where its last active segment ends. As long as that segment stays active,
later segments only come behind it, and the position only moves on. A discard comes to it like to
any other, and takes it out if it is sealed and has no mark left: the last segment is sealed when a
write or a forced sync in it has failed and nothing was appended since. Then the position falls back
to the end of the segment before, or to the start.

* `TakesTail` — when a request takes the last active segment out;
* `Housed.keeps_tail_iff` — in all other cases it stays active;
* `Leads.position_le`, `Leads.position_lt` — what that means for the position;
* `position_falls_back_iff` — both for any run.
-/

namespace SegmentLog.Store

variable {s s' : Store} {loose : List Handle}

/-! ## Requests that take the last segment out -/

/-- Whether a request takes the last active segment out: a discard that comes to it and leaves it
spent, or the removal of all segments. -/
def TakesTail (s : Store) : Request → Prop
  | .discard p upTo => ∃ t, s.tail? = some t ∧ t ∈ s.visited upTo ∧
    ((s.segment t).noteFlush p upTo).isSpent = true
  | .wipe => s.active ≠ []
  | _ => False

theorem active_wipe (s : Store) : (s.serve .wipe).active = [] := by
  obtain ⟨_, he⟩ := wipe_eq s
  rw [serve, he]

/-- The last active segment stays active exactly if the request does not take it out. -/
theorem Housed.keeps_tail_iff (hs : s.Housed []) (request : Request) :
    (∀ t, s.tail? = some t → t ∈ (s.serve request).active) ↔ ¬ s.TakesTail request := by
  have hstays : s.active ⊆ (s.serve request).active → ¬ s.TakesTail request →
      ((∀ t, s.tail? = some t → t ∈ (s.serve request).active) ↔ ¬ s.TakesTail request) :=
    fun hactive hnone => ⟨fun _ => hnone, fun _ t ht => hactive (mem_of_tail? ht)⟩
  have hsame : (s.serve request).active = s.active → ¬ s.TakesTail request →
      ((∀ t, s.tail? = some t → t ∈ (s.serve request).active) ↔ ¬ s.TakesTail request) :=
    fun hactive => hstays (by rw [hactive]; exact List.Subset.refl _)
  cases request with
  | append m => exact hstays (hs.grows_append rfl).active.subset id
  | stockSpare =>
    obtain ⟨_, _, _, _, _, he⟩ := stockSpare_eq s
    exact hsame (by rw [Store.serve, he]) id
  | sync force =>
    obtain ⟨_, _, _, _, he⟩ := sync_eq s force
    exact hsame (by rw [Store.serve, he]) id
  | syncActive force =>
    obtain ⟨_, _, _, he⟩ := syncEach_eq force s.active s
    exact hsame (by rw [Store.serve, Store.syncActive, he]) id
  | finish =>
    obtain ⟨_, _, _, _, he⟩ := finish_eq s
    exact hsame (by rw [Store.serve, he]) id
  | keepIdsAbove | attach => exact hsame rfl id
  | wipe =>
    rw [active_wipe, TakesTail, not_not]
    constructor
    · intro hkept
      cases ht : s.tail? with
      | none => exact List.getLast?_eq_none_iff.mp ht
      | some t => cases hkept t ht
    · intro hactive t ht
      rw [tail?, hactive] at ht
      cases ht
  | discard p upTo =>
    have hnodup := (List.nodup_append.mp hs.distinct).1
    rw [TakesTail, Store.serve, active_discard hnodup]
    simp only [List.mem_filter, Bool.or_eq_true, decide_eq_true_eq, Bool.not_eq_true']
    constructor
    · rintro hkept ⟨t, ht, hvisited, hspent⟩
      rcases (hkept t ht).2 with hout | hneeded
      · exact hout hvisited
      · rw [hspent] at hneeded
        cases hneeded
    · intro hnot t ht
      refine ⟨mem_of_tail? ht, ?_⟩
      by_contra hc
      rw [not_or, not_not, Bool.not_eq_false] at hc
      exact hnot ⟨t, ht, hc.1, hc.2⟩

/-! ## The position -/

/-- While the last active segment stays active, the position does not move back. -/
theorem Leads.position_le (h : s.Leads s') (hs : s.Sound [])
    (hkept : ∀ t, s.tail? = some t → t ∈ s'.active) : s.position ≤ s'.position := by
  cases ht : s.tail? with
  | none =>
    rw [position, ht]
    exact Position.start_le _
  | some t =>
    have hknown := hs.known_active (mem_of_tail? ht)
    have hactive := hkept t ht
    obtain ⟨t', ht'⟩ : ∃ t', s'.tail? = some t' :=
      Option.isSome_iff_exists.mp (List.getLast?_isSome.mpr (List.ne_nil_of_mem hactive))
    have hown := h.old t hknown
    rw [position, position, ht, ht', Position.le_def]
    show (s.segment t).id < (s'.segment t').id ∨ (s.segment t).id = (s'.segment t').id ∧
      (s.segment t).cursor ≤ (s'.segment t').cursor
    rw [← hown.id]
    rcases Nat.lt_or_eq_of_le (h.sound.le_tail ht' hactive) with hlt | rfl
    · exact .inl (h.sound.ascending t t' hlt (h.sound.known_active (mem_of_tail? ht')))
    · exact .inr ⟨rfl, hown.cursor⟩

/-- When the last active segment is taken out and none comes, the position falls back. -/
theorem Leads.position_lt (h : s.Leads s') (hs : s.Sound []) {t : Handle} (ht : s.tail? = some t)
    (htaken : t ∉ s'.active) (hsub : s'.active ⊆ s.active) : s'.position < s.position := by
  have hknown := hs.known_active (mem_of_tail? ht)
  rw [position, position, ht, Position.lt_def]
  cases ht' : s'.tail? with
  | none => exact .inl (hs.above t hknown)
  | some t' =>
    have hmem := mem_of_tail? ht'
    have hne : t' ≠ t := fun he => htaken (he ▸ hmem)
    have hlt := Nat.lt_of_le_of_ne (hs.le_tail ht (hsub hmem)) hne
    left
    show (s'.segment t').id < (s.segment t).id
    rw [(h.old t' (hs.known_active (hsub hmem))).id]
    exact hs.ascending t' t hlt hknown

/-- One request moves the position back exactly if it takes the last segment out. -/
theorem Sound.position_serve_iff (hs : s.Sound []) {request : Request}
    (hids : (s.serve request).ids.next ≠ 0) :
    s.position ≤ (s.serve request).position ↔ ¬ s.TakesTail request := by
  have hleads := hs.leads_serve request hids
  constructor
  · intro hle htaken
    have hlost := mt (hs.housed.keeps_tail_iff request).mp (not_not_intro htaken)
    push Not at hlost
    obtain ⟨t, ht, hout⟩ := hlost
    have hsub : (s.serve request).active ⊆ s.active := by
      cases request with
      | discard p upTo =>
        rw [serve, active_discard (List.nodup_append.mp hs.housed.distinct).1]
        exact List.filter_sublist.subset
      | wipe =>
        rw [active_wipe]
        exact List.nil_subset _
      | append | stockSpare | sync | syncActive | keepIdsAbove | finish | attach =>
        exact htaken.elim
    exact Position.not_lt.mpr hle (hleads.position_lt hs ht hout hsub)
  · exact fun hnot => hleads.position_le hs ((hs.housed.keeps_tail_iff request).mpr hnot)

/-- **When the position of a log falls back.** Let any requests be served, one after the other, by a
store that was just opened, whatever fails on the way. The last active segment stays active through
the next request exactly if that is neither a discard that comes to it and leaves it sealed and
without marks, nor the removal of all segments; and, as long as numbers do not run out, the position
does not move back in exactly these cases. -/
theorem position_falls_back_iff {settings : Settings} {now : UInt64} {disk : Disk}
    {monitor : Monitor} {opened : Store}
    (hopen : onDirectory settings now disk monitor = .ok opened) (hdisk : disk.WellFormed)
    (served : List Request) (request : Request) :
    let s := opened.serveAll served
    ((∀ t, s.tail? = some t → t ∈ (s.serve request).active) ↔ ¬ s.TakesTail request) ∧
      ((∀ part, part <+: served ++ [request] → (opened.serveAll part).ids.next ≠ 0) →
        (s.position ≤ (s.serve request).position ↔ ¬ s.TakesTail request)) := by
  refine ⟨((housed_onDirectory hopen hdisk).serveAll served).keeps_tail_iff request,
    fun hids => ?_⟩
  have hsound := (sound_onDirectory hopen hdisk).leads_serveAll fun part hpart =>
    hids part (hpart.trans (List.prefix_append served [request]))
  refine hsound.sound.position_serve_iff ?_
  have hall := hids (served ++ [request]) (List.prefix_refl _)
  rwa [serveAll, List.foldl_append] at hall

/-- A segment is given up when a write fails, and an append goes to the next one. A discard that
covers all records deletes the first segment, and the second stays. -/
theorem position_stays_behind_failed_write :
    let opened := blank { directory := ⟨[Path.dot]⟩, segmentSize := 30, lookAhead := false } 5
      { write := [none, some (3, .device)] }
    let s := opened.serveAll [.append (.raw [⟨1⟩] [7, 8, 9]), .append (.raw [⟨1⟩] [4, 5, 6]),
      .append (.raw [⟨1⟩] [1, 2, 3])]
    s.active = [0, 1] ∧ (s.serve (.discard ⟨1⟩ ⟨6, 15⟩)).active = [1] ∧
      s.position ≤ (s.serve (.discard ⟨1⟩ ⟨6, 15⟩)).position := by
  intro opened s
  refine ⟨by decide +kernel, by decide +kernel, ?_⟩
  refine ((position_falls_back_iff (onDirectory_blank rfl 5 _) (Disk.wellFormed_empty _)
    [.append (.raw [⟨1⟩] [7, 8, 9]), .append (.raw [⟨1⟩] [4, 5, 6]),
      .append (.raw [⟨1⟩] [1, 2, 3])] (.discard ⟨1⟩ ⟨6, 15⟩)).2 fun part hpart => ?_).mpr ?_
  · rw [List.prefix_iff_eq_take.mp hpart]
    have hlength := hpart.length_le
    generalize part.length = n at hlength ⊢
    decide +kernel +revert
  · rintro ⟨t, ht, -, hspent⟩
    have htail : s.tail? = some 1 := by decide +kernel
    cases htail.symm.trans ht
    revert hspent
    decide +kernel

/-- A discard may take out the last segment. It was given up when the second write failed, and a
flush up to its end leaves nothing to be kept in it; the position falls back to the start. -/
theorem position_falls_back :
    let opened := blank { directory := ⟨[Path.dot]⟩, segmentSize := 30, lookAhead := false } 5
      { write := [none, some (3, .device)] }
    let s := opened.serveAll [.append (.raw [⟨1⟩] [7, 8, 9]), .append (.raw [⟨1⟩] [4, 5, 6])]
    s.active = [0] ∧ s.position = ⟨5, 30⟩ ∧ (s.serve (.discard ⟨1⟩ ⟨5, 30⟩)).active = [] ∧
      (s.serve (.discard ⟨1⟩ ⟨5, 30⟩)).position = .start := by
  decide +kernel

end SegmentLog.Store
