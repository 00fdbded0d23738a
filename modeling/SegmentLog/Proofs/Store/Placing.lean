import SegmentLog.Proofs.Store.Sound

/-!
# Segments find their places

A segment is made loose, and then becomes the spare or the last active one, or its file is
removed again. Each of these steps keeps a store in order, and so does taking segments out of
their places.

* `Sound.newSegment`, `Sound.placeSpare`, `Sound.activate` — segments come;
* `Sound.withdraw`, `Sound.deleteFile` — segments go;
* `withdrawSpare_eq` — the spare always comes after the last active segment;
* `Sound.rollOver_cases`, `Sound.rollOver`, `Sound.segmentFor` — where the next record goes.
-/

namespace SegmentLog.Store

variable {s s' : Store} {loose : List Handle}

/-! ## Taking segments out -/

/-- Segments that leave their places leave the rest in order. -/
theorem Sound.withdraw (hs : s.Sound loose) {active loose' : List Handle} {spare : Option Handle}
    (hactive : active.Sublist s.active) (hspare : spare.toList.Sublist s.spare.toList)
    (hloose : loose'.Sublist loose) : Sound { s with active, spare } loose' :=
  (hs.housed.withdraw hactive hspare hloose).sound
    (hs.toCatalogued.of_same rfl rfl (fun _ _ => .refl _) (UInt64.le_refl _) hs.disk
      (Nat.le_refl _))
    (hs.order.sublist (hactive.append hspare))
    (fun g hg h hh => hs.sealed g (hactive.subset hg) h (hactive.subset hh))
    (fun h hh => hs.fresh h ((hspare.append hloose).subset hh))

/-- A spare that is taken is loose again. -/
theorem Sound.takeSpare (hs : s.Sound loose) {k : Handle} (hk : s.spare = some k) :
    Sound { s with spare := none } (k :: loose) := by
  have horder := hs.order
  refine Housed.sound (hs.housed.arrange rfl rfl rfl (List.Perm.subperm ?_))
    (hs.toCatalogued.of_same rfl rfl (fun _ _ => .refl _) (UInt64.le_refl _) hs.disk
      (Nat.le_refl _)) ?_ hs.sealed fun h hh => hs.fresh h ?_
  · rw [hk]
    rfl
  · rw [hk] at horder
    simp only [Option.toList_none, List.append_nil]
    exact (List.pairwise_append.mp horder).1
  · rw [hk]
    exact hh

/-- A disk on which the files of all segments are found keeps a store in order. -/
theorem Sound.of_found (hs : s.Sound loose) {d : Disk} (hd : d.WellFormed)
    (hfiles : d.files = s.disk.files)
    (hfound : ∀ h ∈ s.active ++ (s.spare.toList ++ loose), Found { s with disk := d } h) :
    Sound { s with disk := d } loose :=
  { hs with
    toCatalogued := hs.toCatalogued.of_same rfl rfl (fun _ _ => .refl _) (UInt64.le_refl _) hd
      (Nat.le_of_eq (congrArg Array.size hfiles.symm))
    found := hfound
    readable := hs.readable.of_same rfl (fun _ _ => .refl _) (Disk.fault?_of_files hfiles) }

/-- The file of a segment without a place is removed. -/
theorem Sound.deleteFile (hs : s.Sound loose) {k : Handle} (hk : k < s.table.size)
    (hout : k ∉ s.active ++ (s.spare.toList ++ loose)) : (s.deleteFile k).2.Sound loose := by
  cases hd : s.deleteFile k with
  | mk r s' =>
    obtain ⟨d, rfl, hr⟩ := deleteFile_cases hd
    exact hs.of_found (Disk.wellFormed_remove hs.disk hr) (Disk.files_remove hr) fun h hh =>
      (hs.found h hh).remove hs.toCatalogued hk (hs.known h hh)
        (fun he => hout (by rw [he]; exact hh)) hr

/-! ## New segments -/

theorem Catalogued.push (hs : s.Catalogued) {g : Segment} (hsettings : s'.settings = s.settings)
    (htable : s'.table = s.table.push g) (hnext : s.ids.next < s'.ids.next)
    (hname : g.name = .ofId s.ids.next)
    (hpath : g.path = g.name.pathIn s.settings.directory s.settings.stem)
    (hfile : g.file = s.disk.files.size) (hdisk : s'.disk.WellFormed)
    (hfiles : s'.disk.files.size = s.disk.files.size + 1) : s'.Catalogued := by
  have hid : g.id = s.ids.next := by rw [Segment.id, hname]; rfl
  have hold : ∀ k < s.table.size, s'.segment k = s.segment k := by
    intro k hk
    rw [segment_push htable, if_neg (Nat.ne_of_lt hk)]
  have hnew : s'.segment s.table.size = g := by rw [segment_push htable, if_pos rfl]
  have hcase : ∀ k < s'.table.size, k < s.table.size ∨ k = s.table.size := by
    intro k hk
    rw [htable, Array.size_push] at hk
    omega
  have hfiled : s'.Filed :=
    hs.filed.push hsettings htable (by rw [hid, hname]) hpath hfile hdisk hfiles
  refine { hfiled with positive := ?positive, above := ?above, below := ?below,
                       ascending := ?ascending }
  case positive => exact UInt64.lt_trans hs.positive hnext
  case above =>
    intro k hk
    rcases hcase k hk with hlt | rfl
    · rw [hold k hlt]
      exact hs.above k hlt
    · rw [hnew, hid]
      exact hs.positive
  case below =>
    intro k hk
    rcases hcase k hk with hlt | rfl
    · rw [hold k hlt]
      exact UInt64.lt_trans (hs.below k hlt) hnext
    · rw [hnew, hid]
      exact hnext
  case ascending =>
    intro i k hik hk
    rcases hcase k hk with hlt | rfl
    · rw [hold k hlt, hold i (Nat.lt_trans hik hlt)]
      exact hs.ascending i k hik hlt
    · rw [hnew, hold i hik, hid]
      exact hs.below i hik

/-- A segment that was made is loose. -/
theorem Sound.push (hs : s.Sound loose) {g : Segment} (hhoused : s'.Housed (s.table.size :: loose))
    (hs' : s'.Catalogued) (htable : s'.table = s.table.push g) (hactive : s'.active = s.active)
    (hspare : s'.spare = s.spare) (hblank : g.IsBlank) (hunsealed : g.sealed = false) :
    s'.Sound (s.table.size :: loose) := by
  have hseg : ∀ k < s.table.size, s'.segment k = s.segment k := by
    intro k hk
    rw [segment_push htable, if_neg (Nat.ne_of_lt hk)]
  have hlast : s'.segment s.table.size = g := by rw [segment_push htable, if_pos rfl]
  refine hhoused.sound hs' ?_ ?_ ?_
  · rw [hactive, hspare]
    exact hs.order
  · intro i hi k hk hik
    rw [hactive] at hi hk
    rw [hseg i (hs.known_active hi)]
    exact hs.sealed i hi k hk hik
  · intro k hk
    by_cases hnew : k = s.table.size
    · rw [hnew, hlast]
      exact ⟨hblank, hunsealed⟩
    · have hold : k ∈ s.spare.toList ++ loose := by
        rw [hspare, List.mem_append, List.mem_cons] at hk
        rw [List.mem_append]
        exact hk.imp_right fun hm => hm.resolve_left hnew
      rw [hseg k (hs.known k (List.mem_append_right _ hold))]
      exact hs.fresh k hold

theorem Sound.newSegment (hs : s.Sound loose) {r : Except DiskError Handle}
    (h : s.newSegment = (r, s')) (hids : s'.ids.next ≠ 0) :
    s'.active = s.active ∧ s'.spare = s.spare ∧
      ((∃ e, r = .error e ∧ s'.table = s.table ∧ s'.Sound loose) ∨
        r = .ok s.table.size ∧ s'.table.size = s.table.size + 1 ∧
          s'.Sound (s.table.size :: loose)) := by
  have hhoused := hs.housed.newSegment h
  obtain ⟨d, -, ⟨e, rfl, rfl, htree, hfiles⟩ | ⟨g, q, n, rfl, rfl, hg, hq, hn, hattached⟩⟩ :=
    newSegment_cases h
  · have hle : s.ids.next ≤ s.ids.take.2.next := UInt64.le_of_lt (IdSource.next_lt_take hids)
    refine ⟨rfl, rfl, .inl ⟨e, rfl, rfl, ?_⟩⟩
    exact hs.of_same rfl rfl (fun _ _ => ⟨.refl _, fun h => h⟩) (fun _ _ => rfl) hle rfl rfl htree
      (by rw [hfiles])
  · obtain ⟨-, -, ⟨_, hr, -⟩ | ⟨-, hhoused⟩⟩ := hhoused
    · cases hr
    refine ⟨rfl, rfl, .inr ⟨rfl, Array.size_push .., ?_⟩⟩
    have hsize : d.files.size = s.disk.files.size + 1 := by rw [hattached.files, Array.size_push]
    exact hs.push (g := g) hhoused (hs.toCatalogued.push (g := g) rfl rfl
      (IdSource.next_lt_take hids) (by rw [hg]) (by rw [hg]) (by rw [hg])
      (hattached.wellFormed hs.disk) hsize) rfl rfl rfl (by rw [hg]; exact ⟨rfl, rfl, rfl⟩)
      (by rw [hg])

/-! ## The order of segments -/

theorem Sound.le_tail (hs : s.Sound loose) {t h : Handle} (ht : s.tail? = some t)
    (hh : h ∈ s.active) : h ≤ t := by
  obtain ⟨front, hfront⟩ := List.getLast?_eq_some_iff.mp ht
  have horder := hs.ascending_active
  rw [hfront] at hh horder
  rcases List.mem_append.mp hh with hh | hh
  · exact Nat.le_of_lt ((List.pairwise_append.mp horder).2.2 h hh t (List.mem_singleton_self t))
  · exact Nat.le_of_eq (List.mem_singleton.mp hh)

/-- A segment has a higher number than the last active one if it was made after all of them. -/
theorem Sound.tailId_lt_iff (hs : s.Sound loose) {k : Handle} (hk : k < s.table.size) :
    s.tailId < (s.segment k).id ↔ ∀ h ∈ s.active, h < k := by
  rw [tailId]
  cases ht : s.tail? with
  | none =>
    have hnil : s.active = [] := List.getLast?_eq_none_iff.mp ht
    simp only [hnil, List.not_mem_nil, false_implies, implies_true, iff_true]
    exact hs.above k hk
  | some t =>
    have htail := mem_of_tail? ht
    simp only [hs.id_lt_iff (hs.known_active htail) hk]
    constructor
    · exact fun hlt h hh => Nat.lt_of_le_of_lt (hs.le_tail ht hh) hlt
    · exact fun hall => hall t htail

/-- The spare comes after the last active segment. -/
theorem Sound.tailId_lt_spare (hs : s.Sound loose) {k : Handle} (hspare : s.spare = some k) :
    s.tailId < (s.segment k).id := by
  have horder := hs.order
  have hk : k < s.table.size := hs.known k (by rw [hspare]; simp)
  rw [hspare] at horder
  exact (hs.tailId_lt_iff hk).mpr fun h hh =>
    (List.pairwise_append.mp horder).2.2 h hh k (List.mem_singleton_self k)

/-- It is always the spare that is taken, and its file is never removed for being of no use. -/
theorem withdrawSpare_eq (hs : s.Sound loose) :
    s.withdrawSpare = (s.spare, { s with spare := none }) := by
  rw [withdrawSpare]
  cases hspare : s.spare with
  | none =>
    obtain ⟨settings, ids, table, active, spare, attached, mail, disk, monitor⟩ := s
    cases hspare
    rfl
  | some k =>
    have hlt := hs.tailId_lt_spare hspare
    exact if_pos hlt

/-! ## Places for loose segments -/

/-- A loose segment that was made after the active ones can become the spare. -/
theorem Sound.putSpare {k : Handle} (hs : s.Sound (k :: loose)) (hnone : s.spare = none)
    (hlast : ∀ h ∈ s.active, h < k) : Sound { s with spare := some k } loose := by
  have horder := hs.order
  rw [hnone, Option.toList_none, List.append_nil] at horder
  refine Housed.sound (hs.housed.arrange rfl rfl rfl (List.Perm.subperm ?_))
    (hs.toCatalogued.of_same rfl rfl (fun _ _ => .refl _) (UInt64.le_refl _) hs.disk
      (Nat.le_refl _)) ?_ hs.sealed fun h hh => hs.fresh h ?_
  · rw [hnone]
    rfl
  · rw [Option.toList_some, List.pairwise_append]
    refine ⟨horder, List.pairwise_singleton _ _, fun h hh j hj => ?_⟩
    rw [List.mem_singleton.mp hj]
    exact hlast h hh
  · rw [hnone]
    exact hh

/-- A new spare is put in its place, or its file is removed. -/
theorem Sound.placeSpare {k : Handle} (hs : s.Sound (k :: loose)) :
    (s.placeSpare k).Sound loose := by
  have hk : k < s.table.size := hs.known k (by simp)
  rw [Store.placeSpare]
  split
  · rename_i hplace
    exact hs.putSpare (Option.isNone_iff_eq_none.mp hplace.1) ((hs.tailId_lt_iff hk).mp hplace.2)
  · have hout : k ∉ s.active ++ s.spare.toList := hs.outside k List.mem_cons_self
    have hdistinct := List.nodup_cons.mp hs.distinct
    have hrest : Sound s loose :=
      hs.withdraw (List.Sublist.refl _) (List.Sublist.refl _) (List.sublist_cons_self k loose)
    refine hrest.deleteFile hk ?_
    rw [← List.append_assoc, List.mem_append]
    exact fun hm => hm.elim hout hdistinct.1

/-- Before another segment becomes the last active one, all that are active are sealed. -/
theorem Sound.sealTail (hs : s.Sound loose) {s₁ : Store}
    (h : s.tail? = none ∧ s₁ = s ∨ ∃ t, s.tail? = some t ∧ s₁ = s.sealOff t) :
    s₁.Sound loose ∧ s₁.active = s.active ∧ s₁.spare = s.spare ∧ s₁.ids = s.ids ∧
      s₁.table.size = s.table.size ∧ (∀ k ∉ s.active, s₁.segment k = s.segment k) ∧
      ∀ g ∈ s.active, (s₁.segment g).sealed = true := by
  rcases h with ⟨ht, rfl⟩ | ⟨t, ht, rfl⟩
  · have hnil : s₁.active = [] := List.getLast?_eq_none_iff.mp ht
    exact ⟨hs, rfl, rfl, rfl, rfl, fun _ _ => rfl, fun g hg => by rw [hnil] at hg; cases hg⟩
  · have htail := mem_of_tail? ht
    refine ⟨hs.sealOff (hs.active_not_fresh htail), rfl, rfl, rfl, size_modify _ _ _,
      fun k hk => segment_modify_ne _ fun he => hk (he ▸ htail), fun g hg => ?_⟩
    rcases Nat.lt_or_eq_of_le (hs.le_tail ht hg) with hlt | rfl
    · rw [Store.sealOff, segment_modify_ne _ (Nat.ne_of_lt hlt)]
      exact hs.sealed g hg t htail hlt
    · rw [Store.sealOff, segment_modify_self _ (hs.known_active hg)]
      rfl

/-- A loose segment that was made after the active ones can become the last of them. -/
theorem Sound.activate {k : Handle} (hs : s.Sound (k :: loose)) (hnone : s.spare = none)
    (hlast : ∀ h ∈ s.active, h < k) :
    (s.activate k).Sound loose ∧ (s.activate k).active = s.active ++ [k] ∧
      (s.activate k).spare = none ∧ (s.activate k).ids = s.ids ∧
      (s.activate k).table.size = s.table.size ∧
      (s.activate k).segment k = s.segment k := by
  obtain ⟨s₁, mail, he, h⟩ := activate_eq s k
  obtain ⟨hsound, hactive, hspare, hids, hsize, hothers, hsealed⟩ := hs.sealTail h
  rw [hnone] at hspare
  have hseg : s₁.segment k = s.segment k :=
    hothers k fun hk => Nat.lt_irrefl k (hlast k hk)
  rw [he]
  have hhoused := hs.housed.activate.1
  rw [he] at hhoused
  refine ⟨hhoused.sound (hsound.toCatalogued.of_same rfl rfl (fun _ _ => .refl _)
    (UInt64.le_refl _) hsound.disk (Nat.le_refl _)) ?_ ?_ ?_, rfl, hspare, hids, hsize, hseg⟩
  · rw [hspare, Option.toList_none, List.append_nil, List.pairwise_append]
    refine ⟨hs.ascending_active, List.pairwise_singleton _ _, fun h hh j hj => ?_⟩
    rw [List.mem_singleton.mp hj]
    exact hlast h hh
  · intro g hg h hh hgh
    rcases List.mem_append.mp hg with hg | hg
    · exact hsealed g hg
    · -- nothing active was made after the new segment
      rw [List.mem_singleton.mp hg] at hgh
      rcases List.mem_append.mp hh with hh | hh
      · exact absurd hgh (Nat.lt_asymm (hlast h hh))
      · rw [List.mem_singleton.mp hh] at hgh
        exact absurd hgh (Nat.lt_irrefl _)
  · intro h hh
    rw [hspare, Option.toList_none, List.nil_append] at hh
    exact hsound.fresh h (List.mem_append_right _ (List.mem_cons_of_mem _ hh))

/-! ## The segment of an append -/

/-- Whether segments have only come to the places of a store anew: none that had left its place
has one again. -/
structure Moves (s : Store) (loose : List Handle) (s' : Store) (loose' : List Handle) : Prop where
  size : s.table.size ≤ s'.table.size
  fresh : ∀ k ∈ s'.spare.toList ++ loose', k ∈ s.spare.toList ++ loose ∨ s.table.size ≤ k
  active : ∀ k ∈ s'.active, k ∈ s.active ∨ k ∈ s.spare.toList ++ loose ∨ s.table.size ≤ k

theorem Moves.of_subset {loose' : List Handle} (hsize : s.table.size ≤ s'.table.size)
    (hactive : ∀ k ∈ s'.active, k ∈ s.active)
    (hfresh : ∀ k ∈ s'.spare.toList ++ loose', k ∈ s.spare.toList ++ loose) :
    s.Moves loose s' loose' :=
  ⟨hsize, fun k hk => .inl (hfresh k hk), fun k hk => .inl (hactive k hk)⟩

theorem Moves.of_eq (hsize : s.table.size ≤ s'.table.size) (hactive : s'.active = s.active)
    (hspare : s'.spare = s.spare) : s.Moves loose s' loose :=
  .of_subset hsize (fun k hk => by rwa [hactive] at hk) fun k hk => by rwa [hspare] at hk

/-- A new last segment was the spare, or it is new altogether. -/
theorem Moves.of_append {k : Handle} (hsize : s.table.size ≤ s'.table.size)
    (hactive : s'.active = s.active ++ [k]) (hspare : s'.spare = none)
    (hk : s.spare = some k ∨ s.spare = none ∧ k = s.table.size) : s.Moves loose s' loose := by
  refine ⟨hsize, fun j hj => .inl ?_, fun j hj => ?_⟩
  · rw [hspare, Option.toList_none, List.nil_append] at hj
    exact List.mem_append_right _ hj
  · rw [hactive] at hj
    rcases List.mem_append.mp hj with hj | hj
    · exact .inl hj
    · rw [List.mem_singleton.mp hj]
      rcases hk with hk | ⟨-, rfl⟩
      · exact .inr (.inl (by rw [hk]; exact List.mem_cons_self))
      · exact .inr (.inr (Nat.le_refl _))

/-- A roll-over makes the spare the last active segment, or else a new one, if it can be created. -/
theorem Sound.rollOver_cases (hs : s.Sound loose) {r : Except LogError Handle}
    (h : s.rollOver = (r, s')) :
    (∃ k, s.spare = some k ∧ (∀ g ∈ s.active, g < k) ∧ r = .ok k ∧
        s' = Store.activate { s with spare := none } k) ∨
      s.spare = none ∧ ∃ made s₁, s.newSegment = (made, s₁) ∧
        ((∃ e, made = .error e ∧ r = .error (s₁.report (.disk e)).1 ∧
            s' = (s₁.report (.disk e)).2) ∨
          ∃ k, made = .ok k ∧ r = .ok k ∧ s' = s₁.activate k) := by
  obtain ⟨spare, s₁, hw, hcase⟩ := Store.rollOver_cases h
  rw [withdrawSpare_eq hs] at hw
  cases hw
  rcases hcase with ⟨k, hspare, rfl, rfl⟩ | ⟨hspare, made, s₂, hn, hmade⟩
  · have horder := hs.order
    rw [hspare] at horder
    exact .inl ⟨k, hspare, fun g hg => (List.pairwise_append.mp horder).2.2 g hg k
      (List.mem_singleton_self k), rfl, rfl⟩
  · have hsame : ({ s with spare := none } : Store) = s := by
      obtain ⟨settings, ids, table, active, spare, attached, mail, disk, monitor⟩ := s
      cases hspare
      rfl
    rw [hsame] at hn
    exact .inr ⟨hspare, made, s₂, hn, hmade⟩

/-- A new last segment is empty, and follows all that are there. -/
theorem Sound.rollOver (hs : s.Sound loose) {r : Except LogError Handle}
    (h : s.rollOver = (r, s')) (hids : s'.ids.next ≠ 0) :
    s'.Sound loose ∧ Evolves s s' ∧
      ((∃ e, r = .error e ∧ s'.active = s.active ∧ s'.spare = s.spare) ∨
        ∃ k, r = .ok k ∧ s'.active = s.active ++ [k] ∧ s'.spare = none ∧
          (s'.segment k).IsBlank ∧ (s'.segment k).sealed = false ∧
          (s.spare = some k ∨ s.spare = none ∧ k = s.table.size)) := by
  rcases hs.rollOver_cases h with ⟨k, hspare, hlast, rfl, rfl⟩ |
    ⟨hspare, made, s₁, hn, ⟨e, rfl, rfl, rfl⟩ | ⟨k, rfl, rfl, rfl⟩⟩
  · obtain ⟨hsound, hactive, hnone, -, -, hseg⟩ := (hs.takeSpare hspare).activate rfl hlast
    have hfresh := hs.fresh k (by rw [hspare]; simp)
    have htake : Evolves s { s with spare := none } := .of_eq rfl rfl rfl
    refine ⟨hsound, htake.trans (evolves_activate _ k),
      .inr ⟨k, rfl, hactive, hnone, ?_, ?_, .inl hspare⟩⟩
    · rw [hseg]
      exact hfresh.1
    · rw [hseg]
      exact hfresh.2
  · obtain ⟨hactive, hspare₁, ⟨_, -, -, hsound⟩ | ⟨hr, -, -⟩⟩ := hs.newSegment hn hids
    · exact ⟨hsound.report _, (evolves_newSegment hn).trans (.of_eq rfl rfl rfl),
        .inl ⟨_, rfl, hactive, hspare₁⟩⟩
    · cases hr
  · have hids₁ : s₁.ids.next ≠ 0 := by
      rw [← ids_activate s₁ k]
      exact hids
    obtain ⟨hactive, hspare₁, ⟨_, hr, -, -⟩ | ⟨hr, hsize, hsound⟩⟩ := hs.newSegment hn hids₁
    · cases hr
    · cases hr
      have hlast : ∀ g ∈ s₁.active, g < s.table.size := by
        intro g hg
        rw [hactive] at hg
        exact hs.known_active hg
      obtain ⟨hs', hactive', hnone, -, -, hseg⟩ :=
        hsound.activate (hspare₁.trans hspare) hlast
      have hfresh := hsound.fresh s.table.size
        (List.mem_append_right _ List.mem_cons_self)
      refine ⟨hs', (evolves_newSegment hn).trans (evolves_activate _ _),
        .inr ⟨_, rfl, by rw [hactive', hactive], hnone, ?_, ?_, .inr ⟨hspare, rfl⟩⟩⟩
      · rw [hseg]
        exact hfresh.1
      · rw [hseg]
        exact hfresh.2

/-- An append goes to the last active segment, or to a new one behind it; it never goes to a
segment that is sealed. -/
theorem Sound.segmentFor (hs : s.Sound loose) {length : Nat} {r : Except LogError Handle}
    (h : s.segmentFor length = (r, s')) (hids : s'.ids.next ≠ 0) :
    s'.Sound loose ∧ Evolves s s' ∧
      ((∃ e, r = .error e ∧ s'.active = s.active ∧ s'.spare = s.spare) ∨
        ∃ k, r = .ok k ∧ s'.tail? = some k ∧ (s'.segment k).sealed = false ∧
          (s' = s ∨ s'.active = s.active ++ [k] ∧ s'.spare = none ∧ (s'.segment k).IsBlank ∧
            (s.spare = some k ∨ s.spare = none ∧ k = s.table.size))) := by
  rcases segmentFor_cases h with ⟨k, ht, hfits, rfl, rfl⟩ | hr
  · rw [tailFits, Bool.and_eq_true, Bool.not_eq_true'] at hfits
    exact ⟨hs, .refl s', .inr ⟨k, rfl, ht, hfits.1, .inl rfl⟩⟩
  · obtain ⟨hsound, hevolves, herr | ⟨k, rfl, hactive, hnone, hblank, hunsealed, hk⟩⟩ :=
      hs.rollOver hr hids
    · exact ⟨hsound, hevolves, .inl herr⟩
    · refine ⟨hsound, hevolves, .inr ⟨k, rfl, ?_, hunsealed, .inr ⟨hactive, hnone, hblank, hk⟩⟩⟩
      rw [tail?, hactive, List.getLast?_concat]

end SegmentLog.Store
