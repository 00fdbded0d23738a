import Mathlib.Algebra.Ring.Nat
import SegmentLog.Proofs.Concurrent.Layout

/-!
# Appends that wait for one another

Where every append is synced, an append waits after its write until no earlier claim in its segment
is pending. A claim is pending exactly as long as the append that made it has not tried to write,
whatever happens to its segment meanwhile and whatever comes of the write; and an append that is
about to write waits for nobody. So there is always one that can go on, and appends that go on
return.

* `World.Owned` — every pending claim has one owner, which is about to write;
* `World.Owned.step`, `World.Owned.run` — this stays so, without any condition on the run;
* `advance_eq_none_iff` — when an append cannot go on;
* `appends_never_deadlock` — what an append waits for, and that all of them can return.
-/

namespace SegmentLog

/-! ## Claims that stay as they are -/

namespace Store

/-- Whether the claims in every segment are as they were, and there are none in new segments. -/
structure SameClaims (s s' : Store) : Prop where
  size : s.table.size ≤ s'.table.size
  cursor : ∀ k < s.table.size, (s'.segment k).cursor = (s.segment k).cursor
  pending : ∀ k < s.table.size, (s'.segment k).pending = (s.segment k).pending
  new : ∀ k, s.table.size ≤ k → k < s'.table.size → (s'.segment k).pending = []

variable {s s' : Store}

theorem Evolves.sameClaims (h : s.Evolves s') : s.SameClaims s' where
  size := h.size
  cursor k hk := (h.old k hk).cursor
  pending k hk := (h.old k hk).pending
  new k hle hlt := (h.new k hle hlt).1.pending

theorem sameClaims_noteFlush (s : Store) (h : Handle) (p : Partition) (upTo : Position) :
    s.SameClaims (s.noteFlush h p upTo) where
  size := Nat.le_of_eq (size_modify s h _).symm
  cursor k _ := by
    obtain ⟨marks, he⟩ := segment_noteFlush_marks s h k p upTo
    rw [he]
  pending k _ := by
    obtain ⟨marks, he⟩ := segment_noteFlush_marks s h k p upTo
    rw [he]
  new k hle hlt := by
    rw [noteFlush, size_modify] at hlt
    exact absurd hlt (Nat.not_lt.mpr hle)

end Store

/-! ## Steps of an append -/

/-- Whether an append has returned. -/
def Stage.isReturned : Stage → Bool
  | .returned _ _ => true
  | _ => false

/-- How many more steps an append takes at most. -/
def Stage.left : Stage → Nat
  | .writing => 4
  | .waiting => 3
  | .syncing => 2
  | .givingUp _ _ => 1
  | .returned _ _ => 0

namespace Appending

/-- An append cannot go on exactly if it has returned, or if it waits and an earlier claim in its
segment is pending. -/
theorem advance_eq_none_iff {a : Appending} {s : Store} :
    a.advance s = none ↔
      a.stage.isReturned = true ∨ a.stage = .waiting ∧ s.awaits a.claim = true := by
  obtain ⟨m, frame, c, stage⟩ := a
  cases stage with
  | writing =>
    cases hw : s.write c frame with
    | mk r t => cases r <;> simp [advance, hw, Stage.isReturned]
  | waiting => simp [advance, Stage.isReturned]
  | syncing =>
    cases hr : s.syncSegment c.handle true with
    | mk r t => cases r <;> simp [advance, hr, Stage.isReturned]
  | givingUp written cause => simp [advance, Stage.isReturned]
  | returned written result => simp [advance, Stage.isReturned]

/-- An append that goes on comes nearer to its return. -/
theorem left_advance {a a' : Appending} {s s' : Store} (h : a.advance s = some (a', s')) :
    a'.stage.left < a.stage.left := by
  obtain ⟨m, frame, c, stage⟩ := a
  cases stage with
  | writing =>
    cases hw : s.write c frame with
    | mk r t =>
      cases r <;> simp only [advance, hw] at h <;> cases h
      · exact Nat.lt_of_sub_eq_succ rfl
      · dsimp only
        split <;> exact Nat.lt_of_sub_eq_succ rfl
  | waiting =>
    simp only [advance] at h
    split at h <;> cases h
    exact Nat.lt_of_sub_eq_succ rfl
  | syncing =>
    cases hr : s.syncSegment c.handle true with
    | mk r t =>
      cases r <;> simp only [advance, hr] at h <;> cases h <;> exact Nat.lt_of_sub_eq_succ rfl
  | givingUp written cause =>
    cases h
    exact Nat.lt_of_sub_eq_succ rfl
  | returned written result => cases h

end Appending

namespace World

variable {w w' : World}

/-- Whether the append with a number has a claim and is about to write there. -/
def Writes (w : World) (i : Nat) (c : Claim) : Prop :=
  ∃ a, w.appends[i]? = some a ∧ a.stage = .writing ∧ a.claim = c

/-- An append that is about to write waits for nobody. -/
theorem Writes.can_step {i : Nat} {c : Claim} (h : w.Writes i c) :
    (w.step (.append i)).isSome = true := by
  obtain ⟨a, ha, hstage, -⟩ := h
  have hadvance : a.advance w.store ≠ none := by
    intro hnone
    rcases Appending.advance_eq_none_iff.mp hnone with hr | ⟨hw, -⟩
    · rw [hstage] at hr
      cases hr
    · rw [hstage] at hw
      cases hw
  obtain ⟨next, hnext⟩ := Option.ne_none_iff_exists'.mp hadvance
  simp only [World.step, ha, Option.bind_some, hnext, Option.map_some, Option.isSome_some]

theorem claim_eq_iff {c : Claim} {k : Handle} {o : Nat} :
    c = ⟨k, o⟩ ↔ c.handle = k ∧ c.offset = o := by
  obtain ⟨h, o'⟩ := c
  rw [Claim.mk.injEq]

/-- The claims that were made, in their order. -/
def claims (w : World) : List Claim := w.appends.map (·.claim)

/-- Whether every pending claim has one owner, an append that is about to write there. -/
structure Owned (w : World) : Prop where
  known : ∀ c ∈ w.claims, c.handle < w.store.table.size
  below : ∀ c ∈ w.claims, c.offset < (w.store.segment c.handle).cursor
  apart : w.claims.Nodup
  pending : ∀ k < w.store.table.size, ∀ o,
    o ∈ (w.store.segment k).pending ↔ ∃ i, w.Writes i ⟨k, o⟩

theorem Writes.mem_claims {i : Nat} {c : Claim} (h : w.Writes i c) : c ∈ w.claims := by
  obtain ⟨a, ha, -, rfl⟩ := h
  exact List.mem_map_of_mem (List.mem_of_getElem? ha)

/-- What leaves all claims as they are leaves them with their owners. -/
theorem Owned.of_same (hw : w.Owned) (happends : w'.appends = w.appends)
    (hs : w.store.SameClaims w'.store) : w'.Owned := by
  have hclaims : w'.claims = w.claims := by rw [claims, happends, claims]
  constructor
  case known =>
    rw [hclaims]
    exact fun c hc => Nat.lt_of_lt_of_le (hw.known c hc) hs.size
  case below =>
    rw [hclaims]
    intro c hc
    rw [hs.cursor _ (hw.known c hc)]
    exact hw.below c hc
  case apart =>
    rw [hclaims]
    exact hw.apart
  case pending =>
    intro k hk o
    have hwrites : (∃ i, w'.Writes i ⟨k, o⟩) ↔ ∃ i, w.Writes i ⟨k, o⟩ := by
      simp only [Writes, happends]
    rw [hwrites]
    by_cases hold : k < w.store.table.size
    · rw [hs.pending k hold]
      exact hw.pending k hold o
    · rw [hs.new k (Nat.le_of_not_lt hold) hk]
      refine ⟨fun h => (nomatch h), fun ⟨i, h⟩ => ?_⟩
      exact absurd (hw.known _ h.mem_claims) hold

/-- A claim that is granted lies behind all others in its segment, and its owner is about to
write. -/
theorem Owned.claim (hw : w.Owned) {m : Mutation} {frame : Bytes} {c : Claim}
    (hm : m.frame w.store.maxPayload = .ok frame)
    (hc : w.store.claim m.partitions frame.length = (.ok c, w'.store))
    (happends : w'.appends = w.appends ++ [{ mutation := m, frame, claim := c }]) : w'.Owned := by
  have hpos := Mutation.frame_pos hm
  obtain ⟨_, hr, -⟩ | ⟨s₁, _, hr, hevolves, hknown, hoffset, hs⟩ := Store.claim_evolves hc hpos
  · cases hr
  cases hr
  have hw₁ : Owned { w with store := s₁ } := hw.of_same rfl hevolves.sameClaims
  have hclaims : w'.claims = w.claims ++ [c] := by
    rw [claims, happends, List.map_append]
    rfl
  have hsize : w'.store.table.size = s₁.table.size := by
    rw [hs]
    exact Store.size_modify _ _ _
  have hself : w'.store.segment c.handle =
      (s₁.segment c.handle).claimed m.partitions frame.length := by
    rw [hs]
    exact Store.segment_modify_self _ hknown
  have hother : ∀ k, k ≠ c.handle → w'.store.segment k = s₁.segment k := by
    intro k hk
    rw [hs]
    exact Store.segment_modify_ne _ hk
  -- nobody has claimed at the cursor before
  have hfresh : c ∉ w.claims := by
    intro hmem
    have hbelow : c.offset < (s₁.segment c.handle).cursor := hw₁.below c hmem
    rw [hoffset] at hbelow
    exact Nat.lt_irrefl _ hbelow
  constructor
  case known =>
    rw [hclaims, hsize]
    intro d hd
    rcases List.mem_append.mp hd with hd | hd
    · exact hw₁.known d hd
    · rw [List.mem_singleton.mp hd]
      exact hknown
  case below =>
    rw [hclaims]
    intro d hd
    rcases List.mem_append.mp hd with hd | hd
    · have hbelow : d.offset < (s₁.segment d.handle).cursor := hw₁.below d hd
      by_cases hk : d.handle = c.handle
      · rw [hk] at hbelow ⊢
        rw [hself]
        exact Nat.lt_add_right _ hbelow
      · rwa [hother _ hk]
    · rw [List.mem_singleton.mp hd, hself, hoffset]
      exact Nat.lt_add_of_pos_right hpos
  case apart =>
    rw [hclaims, List.nodup_append]
    refine ⟨hw.apart, List.pairwise_singleton _ c, fun d hd e he heq => hfresh ?_⟩
    rwa [← List.mem_singleton.mp he, ← heq]
  case pending =>
    intro k hk o
    rw [hsize] at hk
    have hold : o ∈ (s₁.segment k).pending ↔ ∃ i, w.Writes i ⟨k, o⟩ := hw₁.pending k hk o
    have hwrites : (∃ i, w'.Writes i ⟨k, o⟩) ↔ (∃ i, w.Writes i ⟨k, o⟩) ∨ c = ⟨k, o⟩ := by
      constructor
      · rintro ⟨i, a, ha, hstage, hclaim⟩
        rw [happends, List.getElem?_append] at ha
        split at ha
        · exact .inl ⟨i, a, ha, hstage, hclaim⟩
        · obtain rfl := List.mem_singleton.mp (List.mem_of_getElem? ha)
          exact .inr hclaim
      · rintro (⟨i, a, ha, hstage, hclaim⟩ | hclaim)
        · refine ⟨i, a, ?_, hstage, hclaim⟩
          rw [happends, List.getElem?_append_left (List.getElem?_eq_some_iff.mp ha).1, ha]
        · exact ⟨w.appends.length, _, by rw [happends, List.getElem?_concat_length], rfl, hclaim⟩
    have hpending : o ∈ (w'.store.segment k).pending ↔
        o ∈ (s₁.segment k).pending ∨ c = ⟨k, o⟩ := by
      by_cases hkc : k = c.handle
      · subst hkc
        have hinsert : o ∈ (w'.store.segment c.handle).pending ↔
            o = (s₁.segment c.handle).cursor ∨ o ∈ (s₁.segment c.handle).pending := by
          rw [hself]
          exact List.mem_insert_iff
        rw [hinsert, ← hoffset, or_comm, claim_eq_iff, eq_comm]
        simp only [true_and]
      · rw [hother k hkc]
        refine ⟨.inl, fun h => h.resolve_right ?_⟩
        rintro rfl
        exact hkc rfl
    rw [hpending, hwrites, hold]

/-- When an append goes on it is not about to write any more, and the others are what they
were. -/
theorem Owned.writes_set (hw : w.Owned) {i : Nat} {a a' : Appending} (ha : w.appends[i]? = some a)
    (hdone : a'.stage.isWriting = false) (happends : w'.appends = w.appends.set i a') (c : Claim) :
    (∃ j, w'.Writes j c) ↔ (∃ j, w.Writes j c) ∧ ¬ (a.stage = .writing ∧ a.claim = c) := by
  have hi : i < w.appends.length := (List.getElem?_eq_some_iff.mp ha).1
  simp only [Writes, happends, List.getElem?_set]
  constructor
  · rintro ⟨j, b, hb, hstage, hclaim⟩
    by_cases hij : i = j
    · rw [if_pos hij, if_pos hi] at hb
      cases hb
      rw [hstage] at hdone
      cases hdone
    · rw [if_neg hij] at hb
      refine ⟨⟨j, b, hb, hstage, hclaim⟩, fun ⟨_, hc⟩ => hij ?_⟩
      refine (List.getElem?_inj (l := w.claims) (by rwa [claims, List.length_map]) hw.apart).mp ?_
      rw [claims, List.getElem?_map, List.getElem?_map, ha, hb, Option.map_some, Option.map_some,
        hc, hclaim]
  · rintro ⟨⟨j, b, hb, hstage, hclaim⟩, hne⟩
    have hij : i ≠ j := by
      rintro rfl
      rw [ha] at hb
      cases hb
      exact hne ⟨hstage, hclaim⟩
    exact ⟨j, b, by rw [if_neg hij]; exact hb, hstage, hclaim⟩

/-- An append that goes on leaves the claims to their owners. Its own claim is over once it has
tried to write. -/
theorem Owned.append (hw : w.Owned) {i : Nat} {a a' : Appending} (ha : w.appends[i]? = some a)
    (h : a.advance w.store = some (a', w'.store)) (happends : w'.appends = w.appends.set i a') :
    w'.Owned := by
  have hclaims : w'.claims = w.claims := by
    obtain ⟨front, back, hold, hnew⟩ := exists_set_eq ha a'
    rw [claims, claims, happends, hnew, hold]
    simp only [List.map_append, List.map_cons, (Appending.advance_claim h).1]
  have hmem : a.claim ∈ w.claims := List.mem_map_of_mem (List.mem_of_getElem? ha)
  rcases Appending.advance_cases h with ⟨hstage, r, hr, ha'⟩ |
    ⟨hevolves, -, -, -, hbefore, hafter, -, -⟩
  · have hdone : a'.stage.isWriting = false := by
      rw [ha']
      cases r with
      | ok => dsimp only; split <;> rfl
      | error => rfl
    have hknown := hw.known _ hmem
    obtain ⟨u, d, hs, -⟩ := Store.write_cases hr hknown
    have hsize : w'.store.table.size = w.store.table.size := by
      rw [hs]
      exact Store.size_modify _ _ _
    have hself : w'.store.segment a.claim.handle =
        { (w.store.segment a.claim.handle).release a.claim.offset with unsynced := u } := by
      rw [hs]
      exact Store.segment_modify_self _ hknown
    have hother : ∀ k, k ≠ a.claim.handle → w'.store.segment k = w.store.segment k := by
      intro k hk
      rw [hs]
      exact Store.segment_modify_ne _ hk
    constructor
    case known =>
      rw [hclaims, hsize]
      exact hw.known
    case below =>
      rw [hclaims]
      intro c hc
      by_cases hk : c.handle = a.claim.handle
      · rw [hk, hself, ← hk]
        exact hw.below c hc
      · rw [hother _ hk]
        exact hw.below c hc
    case apart =>
      rw [hclaims]
      exact hw.apart
    case pending =>
      intro k hk o
      rw [hsize] at hk
      rw [hw.writes_set ha hdone happends, ← hw.pending k hk o]
      by_cases hka : k = a.claim.handle
      · subst hka
        have hrelease : o ∈ (w'.store.segment a.claim.handle).pending ↔
            o ∈ (w.store.segment a.claim.handle).pending ∧ o ≠ a.claim.offset := by
          rw [hself]
          exact Segment.mem_pending_release
        rw [hrelease, claim_eq_iff]
        simp only [hstage, true_and, ne_comm]
      · rw [hother k hka]
        refine ⟨fun h => ⟨h, fun ⟨_, he⟩ => hka ?_⟩, fun h => h.1⟩
        rw [he]
  · have hw₁ : Owned { w with store := w'.store } := hw.of_same rfl hevolves.sameClaims
    constructor
    case known =>
      rw [hclaims]
      exact hw₁.known
    case below =>
      rw [hclaims]
      exact hw₁.below
    case apart =>
      rw [hclaims]
      exact hw.apart
    case pending =>
      intro k hk o
      have hpending : o ∈ (w'.store.segment k).pending ↔ ∃ j, w.Writes j ⟨k, o⟩ :=
        hw₁.pending k hk o
      rw [hpending, hw.writes_set ha hafter happends]
      refine ⟨fun h => ⟨h, fun ⟨hstage, _⟩ => ?_⟩, fun h => h.1⟩
      rw [hstage] at hbefore
      cases hbefore

/-- Every step leaves every pending claim with its owner. -/
theorem Owned.step (hw : w.Owned) {e : Event} (h : w.step e = some w') : w'.Owned := by
  rcases step_cases h with ⟨happends, hevolves | ⟨k, p, upTo, hs⟩⟩ |
    ⟨m, frame, c, hm, hc, happends⟩ | ⟨i, a, a', ha, hadvance, happends⟩
  · exact hw.of_same happends hevolves.sameClaims
  · exact hw.of_same happends (hs ▸ Store.sameClaims_noteFlush _ k p upTo)
  · exact hw.claim hm hc happends
  · exact hw.append ha hadvance happends

theorem Owned.run {allowed : World → Event → World → Prop} (hw : w.Owned)
    (h : Run allowed w w') : w'.Owned := by
  induction h with
  | refl => exact hw
  | step e _ hstep _ ih => exact ih.step hstep

/-- In a store that was just opened, nothing is claimed. -/
theorem owned_onDirectory {settings : Settings} {now : UInt64} {disk : Disk} {monitor : Monitor}
    {s : Store} (h : Store.onDirectory settings now disk monitor = .ok s) :
    Owned { store := s } := by
  obtain ⟨found, rfl, -⟩ := Store.onDirectory_cases h
  exact ⟨fun _ hc => (nomatch hc), fun _ hc => (nomatch hc), .nil,
    fun k hk => absurd hk (Nat.not_lt_zero k)⟩

/-! ## Appends that go on -/

/-- An append that has not returned and cannot go on waits for earlier claims in its segment, and
the owner of each of them can go on. -/
theorem Owned.blocked (hw : w.Owned) {i : Nat} {a : Appending} (ha : w.appends[i]? = some a)
    (hreturned : a.stage.isReturned = false) (hblocked : w.step (.append i) = none) :
    a.stage = .waiting ∧
      (∃ o ∈ (w.store.segment a.claim.handle).pending, o < a.claim.offset) ∧
      ∀ o ∈ (w.store.segment a.claim.handle).pending, o < a.claim.offset →
        ∃ j, w.Writes j ⟨a.claim.handle, o⟩ ∧ (w.step (.append j)).isSome = true := by
  have hadvance : a.advance w.store = none := by
    simpa only [World.step, ha, Option.bind_some, Option.map_eq_none_iff] using hblocked
  rw [Appending.advance_eq_none_iff, hreturned] at hadvance
  obtain ⟨hstage, hawaits⟩ := hadvance.resolve_left Bool.false_ne_true
  refine ⟨hstage, ?_, fun o ho _ => ?_⟩
  · obtain ⟨o, ho, hlt⟩ := List.any_eq_true.mp hawaits
    exact ⟨o, ho, of_decide_eq_true hlt⟩
  · have hknown := hw.known _ (List.mem_map_of_mem (List.mem_of_getElem? ha))
    obtain ⟨j, hj⟩ := (hw.pending _ hknown o).mp ho
    exact ⟨j, hj, hj.can_step⟩

/-- As long as some append has not returned, some append can go on. -/
theorem Owned.progress (hw : w.Owned) (h : ∃ a ∈ w.appends, a.stage.isReturned = false) :
    ∃ i, (w.step (.append i)).isSome = true := by
  obtain ⟨a, hmem, hreturned⟩ := h
  obtain ⟨i, ha⟩ := List.mem_iff_getElem?.mp hmem
  cases hstep : w.step (.append i) with
  | some v => exact ⟨i, by rw [hstep]; rfl⟩
  | none =>
    obtain ⟨-, ⟨o, ho, hlt⟩, howner⟩ := hw.blocked ha hreturned hstep
    obtain ⟨j, -, hj⟩ := howner o ho hlt
    exact ⟨j, hj⟩

/-- When every append has returned, nothing is pending. -/
theorem Owned.none_pending (hw : w.Owned) (h : ∀ a ∈ w.appends, a.stage.isReturned = true)
    {k : Handle} (hk : k < w.store.table.size) : (w.store.segment k).pending = [] := by
  rw [List.eq_nil_iff_forall_not_mem]
  intro o ho
  obtain ⟨i, a, ha, hstage, -⟩ := (hw.pending k hk o).mp ho
  have hreturned := h a (List.mem_of_getElem? ha)
  rw [hstage] at hreturned
  cases hreturned

/-- How many more steps all appends together take at most. -/
def left (w : World) : Nat := (w.appends.map (·.stage.left)).sum

theorem left_append {i : Nat} (h : w.step (.append i) = some w') : w'.left < w.left := by
  cases effect_of_step h with
  | @append _ a a' store ha hadvance =>
    have hless := Appending.left_advance hadvance
    obtain ⟨front, back, hold, hnew⟩ := exists_set_eq ha a'
    rw [left, left, hnew, hold]
    simp only [List.map_append, List.map_cons, List.sum_append, List.sum_cons]
    omega

/-- Appends that go on, in whatever order, come to their returns. -/
theorem Owned.returns (hw : w.Owned) :
    ∃ w', Run (fun _ e _ => ∃ i, e = .append i) w w' ∧
      ∀ a ∈ w'.appends, a.stage.isReturned = true := by
  induction hn : w.left using Nat.strongRecOn generalizing w with
  | ind n ih =>
    by_cases hall : ∀ a ∈ w.appends, a.stage.isReturned = true
    · exact ⟨w, .refl w, hall⟩
    · have hsome : ∃ a ∈ w.appends, a.stage.isReturned = false := by
        simpa only [not_forall, exists_prop, Bool.not_eq_true] using hall
      obtain ⟨i, hi⟩ := hw.progress hsome
      obtain ⟨v, hv⟩ := Option.isSome_iff_exists.mp hi
      obtain ⟨w', hrun, hreturned⟩ := ih v.left (hn ▸ left_append hv) (hw.step hv) rfl
      exact ⟨w', (Run.step _ (.refl w) hv ⟨i, rfl⟩).trans hrun, hreturned⟩

/-- **Appends that wait for one another never deadlock.** Whatever other callers do in between,
and whichever writes and syncs fail: as long as some append has not returned, some append can go
on. One that cannot go on waits for earlier claims in its segment, each of which belongs to an
append that is about to write and can do so. The appends alone can bring each other to their
returns, and once all have returned, no claim is pending in any segment. The locked part of a
further append waits for none of them. -/
theorem appends_never_deadlock {settings : Settings} {now : UInt64} {disk : Disk}
    {monitor : Monitor} {s : Store} {allowed : World → Event → World → Prop}
    (hs : Store.onDirectory settings now disk monitor = .ok s)
    (h : Run allowed { store := s } w) :
    ((∃ a ∈ w.appends, a.stage.isReturned = false) →
        ∃ i, (w.step (.append i)).isSome = true) ∧
      (∀ i a, w.appends[i]? = some a → a.stage.isReturned = false → w.step (.append i) = none →
        a.stage = .waiting ∧
          (∃ o ∈ (w.store.segment a.claim.handle).pending, o < a.claim.offset) ∧
          ∀ o ∈ (w.store.segment a.claim.handle).pending, o < a.claim.offset →
            ∃ j, w.Writes j ⟨a.claim.handle, o⟩ ∧ (w.step (.append j)).isSome = true) ∧
      (∃ w', Run (fun _ e _ => ∃ i, e = .append i) w w' ∧
        ∀ a ∈ w'.appends, a.stage.isReturned = true) ∧
      ((∀ a ∈ w.appends, a.stage.isReturned = true) →
        ∀ k < w.store.table.size, (w.store.segment k).pending = []) ∧
      ∀ m, (w.step (.claim m)).isSome = true := by
  have hw : w.Owned := (owned_onDirectory hs).run h
  refine ⟨hw.progress, fun i a ha hreturned => hw.blocked ha hreturned, hw.returns,
    fun hall k => hw.none_pending hall, fun m => ?_⟩
  simp only [step]
  split
  · rfl
  · split <;> rfl

/-- Of two appends the later one has written first and waits, so that it cannot go on. The earlier
one is about to write, and after that both can return. -/
theorem appends_never_deadlock_one_waits :
    ∃ w, World.follow HasIds
        [.claim (.raw [⟨1⟩] [7, 8, 9]), .claim (.raw [⟨2⟩] [4]), .append 1]
        { store := .blank { directory := ⟨[Path.dot]⟩, segmentSize := 100,
                            sync := .eachAppend } 5 } = some w ∧
      (w.step (.append 1)).isNone = true ∧
      (∃ j, w.Writes j ⟨0, 0⟩ ∧ (w.step (.append j)).isSome = true) ∧
      ∃ w', Run (fun _ e _ => ∃ i, e = .append i) w w' ∧
        ∀ a ∈ w'.appends, a.stage.isReturned = true := by
  have h : (World.follow HasIds
      [.claim (.raw [⟨1⟩] [7, 8, 9]), .claim (.raw [⟨2⟩] [4]), .append 1]
      { store := .blank { directory := ⟨[Path.dot]⟩, segmentSize := 100,
                          sync := .eachAppend } 5 }).isSome = true := by decide +kernel
  have hlen : 1 < (Option.get _ h).appends.length := by decide +kernel +revert
  have hblocked : ((Option.get _ h).step (.append 1)).isNone = true := by decide +kernel +revert
  have hpending : 0 ∈ ((Option.get _ h).store.segment 0).pending := by decide +kernel +revert
  have hbefore : 0 < ((Option.get _ h).appends.get ⟨1, hlen⟩).claim.offset := by
    decide +kernel +revert
  obtain ⟨-, hwaits, hreturns, -⟩ := appends_never_deadlock
    (Store.onDirectory_blank rfl 5 {}) (Run.of_follow (Option.some_get h).symm)
  obtain ⟨-, -, howner⟩ := hwaits 1 ((Option.get _ h).appends.get ⟨1, hlen⟩) (by rfl) (by rfl)
    (Option.isNone_iff_eq_none.mp hblocked)
  exact ⟨Option.get _ h, (Option.some_get h).symm, hblocked,
    howner 0 hpending hbefore, hreturns⟩

end World

end SegmentLog
