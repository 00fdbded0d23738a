import SegmentLog.Proofs.Concurrent.Order
import SegmentLog.Proofs.Frame.Language

/-!
# Where concurrent appends write

The ranges that are claimed in a segment lie one behind the other from its beginning to its
cursor, and its file holds each frame that was written in its range, with zeros wherever a frame
is missing, up to the end of the last frame that was written. So it stays whatever order the
frames are written in, and whichever of them are never written.

* `Laid` — this, for one segment and the appends that claimed in it;
* `Laid.claim`, `Laid.write`, `Laid.fail` — what a claim and a write make of it;
* `Store.LaidOut.claim`, `Store.LaidOut.write` — the same for all segments of a store;
* `World.step_cases` — every other step leaves the claims and the files alone.
-/

namespace SegmentLog

/-- Whether the ranges of some appends lie one behind the other, from one offset to another. -/
def Tiled : Nat → Nat → List Appending → Prop
  | start, stop, [] => start = stop
  | start, stop, a :: rest => a.claim.offset = start ∧ Tiled (start + a.frame.length) stop rest

/-- What an append has put into its range: its frame, or nothing yet. -/
def Appending.image (a : Appending) : Bytes :=
  if a.stage.isWritten then a.frame else List.replicate a.frame.length 0

/-- What some appends have put into their ranges. -/
def image (as : List Appending) : Bytes := as.flatMap Appending.image

theorem Appending.length_image (a : Appending) : a.image.length = a.frame.length := by
  rw [Appending.image]
  split
  · rfl
  · exact List.length_replicate

theorem image_append (xs ys : List Appending) : image (xs ++ ys) = image xs ++ image ys :=
  List.flatMap_append

theorem image_cons (a : Appending) (rest : List Appending) :
    image (a :: rest) = a.image ++ image rest := List.flatMap_cons

/-! ## Ranges -/

theorem tiled_append {start stop : Nat} {xs ys : List Appending} :
    Tiled start stop (xs ++ ys) ↔ ∃ middle, Tiled start middle xs ∧ Tiled middle stop ys := by
  induction xs generalizing start with
  | nil =>
    constructor
    · exact fun h => ⟨start, rfl, h⟩
    · rintro ⟨middle, rfl, h⟩
      exact h
  | cons a xs ih =>
    rw [List.cons_append, Tiled, ih]
    constructor
    · rintro ⟨ha, middle, hx, hy⟩
      exact ⟨middle, ⟨ha, hx⟩, hy⟩
    · rintro ⟨middle, ⟨ha, hx⟩, hy⟩
      exact ⟨ha, middle, hx, hy⟩

theorem Tiled.stop_eq {start stop : Nat} {as : List Appending} (h : Tiled start stop as) :
    stop = start + (image as).length := by
  induction as generalizing start with
  | nil => exact h.symm
  | cons a as ih =>
    rw [ih h.2, image_cons, List.length_append, a.length_image, Nat.add_assoc]

/-- Where the range of an append begins among those of others. -/
theorem Tiled.offset_eq {stop : Nat} {xs ys : List Appending} {a : Appending}
    (h : Tiled 0 stop (xs ++ a :: ys)) : a.claim.offset = (image xs).length := by
  obtain ⟨middle, hx, ha, -⟩ := tiled_append.mp h
  rw [ha, hx.stop_eq, Nat.zero_add]

theorem Tiled.mem_bounds {start stop : Nat} {as : List Appending} (h : Tiled start stop as)
    {a : Appending} (ha : a ∈ as) :
    start ≤ a.claim.offset ∧ a.claim.offset + a.frame.length ≤ stop := by
  obtain ⟨xs, ys, rfl⟩ := List.append_of_mem ha
  obtain ⟨middle, hx, ho, hy⟩ := tiled_append.mp h
  have hmiddle := hx.stop_eq
  have hstop := hy.stop_eq
  omega

/-- Who stands before an append in a segment has claimed before it. -/
theorem Tiled.lt_of_before {stop : Nat} {xs ys : List Appending} {a b : Appending}
    (h : Tiled 0 stop (xs ++ a :: ys)) (hpos : ∀ b ∈ xs ++ a :: ys, 0 < b.frame.length)
    (hb : b ∈ xs) : b.claim.offset < a.claim.offset := by
  obtain ⟨middle, hx, ha, -⟩ := tiled_append.mp h
  have hbound := (hx.mem_bounds hb).2
  have hlen := hpos b (List.mem_append_left _ hb)
  omega

theorem Tiled.lt_of_after {stop : Nat} {xs ys : List Appending} {a b : Appending}
    (h : Tiled 0 stop (xs ++ a :: ys)) (hpos : ∀ b ∈ xs ++ a :: ys, 0 < b.frame.length)
    (hb : b ∈ ys) : a.claim.offset < b.claim.offset := by
  obtain ⟨middle, -, ha, hy⟩ := tiled_append.mp h
  have hbound := (hy.mem_bounds hb).1
  have hlen := hpos a (List.mem_append_right _ List.mem_cons_self)
  omega

/-! ## One segment -/

/-- Whether a segment and its file are as the appends that claimed in it have left them. -/
structure Laid (g : Segment) (content : Bytes) (as : List Appending) : Prop where
  tiled : Tiled 0 g.cursor as
  framed : ∀ a ∈ as, Frame.Framable a.mutation.payload ∧
    a.frame = Frame.ofPayload a.mutation.payload
  pending : ∀ o, o ∈ g.pending ↔ ∃ a ∈ as, a.stage.isWriting = true ∧ a.claim.offset = o
  image_eq : ∃ n, image as = content ++ List.replicate n 0
  reach : ∀ a ∈ as, a.stage.isWritten = true →
    a.claim.offset + a.frame.length ≤ content.length

variable {g g' : Segment} {content content' : Bytes} {as xs ys : List Appending}
  {a a' : Appending}

theorem laid_blank (hg : g.IsBlank) : Laid g [] [] where
  tiled := hg.cursor.symm
  framed _ ha := (nomatch ha)
  pending o := by rw [hg.pending]; simp
  image_eq := ⟨0, rfl⟩
  reach _ ha := (nomatch ha)

theorem Laid.congr (h : Laid g content as) (hcursor : g'.cursor = g.cursor)
    (hpending : g'.pending = g.pending) : Laid g' content as :=
  { h with
    tiled := by rw [hcursor]; exact h.tiled
    pending := by rw [hpending]; exact h.pending }

theorem Laid.length_pos (h : Laid g content as) (ha : a ∈ as) : 0 < a.frame.length := by
  rw [(h.framed a ha).2, Frame.length_ofPayload, Frame.overhead]
  omega

/-- A claim puts a range behind those that are there. -/
theorem Laid.claim (h : Laid g content as) (hoffset : a.claim.offset = g.cursor)
    (hstage : a.stage = .writing) (hframed : Frame.Framable a.mutation.payload ∧
      a.frame = Frame.ofPayload a.mutation.payload)
    (hcursor : g'.cursor = g.cursor + a.frame.length)
    (hpending : g'.pending = g.pending.insert g.cursor) : Laid g' content (as ++ [a]) where
  tiled := tiled_append.mpr ⟨g.cursor, h.tiled, hoffset, hcursor.symm⟩
  framed b hb := by
    rcases List.mem_append.mp hb with hb | hb
    · exact h.framed b hb
    · rw [List.mem_singleton.mp hb]
      exact hframed
  pending o := by
    rw [hpending, List.mem_insert_iff, h.pending]
    constructor
    · rintro (rfl | ⟨b, hb, hw, ho⟩)
      · exact ⟨a, List.mem_append_right _ List.mem_cons_self, by rw [hstage]; rfl, hoffset⟩
      · exact ⟨b, List.mem_append_left _ hb, hw, ho⟩
    · rintro ⟨b, hb, hw, ho⟩
      rcases List.mem_append.mp hb with hb | hb
      · exact .inr ⟨b, hb, hw, ho⟩
      · rw [List.mem_singleton.mp hb, hoffset] at ho
        exact .inl ho.symm
  image_eq := by
    obtain ⟨n, hn⟩ := h.image_eq
    refine ⟨n + a.frame.length, ?_⟩
    have ha : a.image = List.replicate a.frame.length 0 := by rw [Appending.image, hstage]; rfl
    rw [image_append, hn, image_cons, ha, show image [] = [] from rfl, List.append_nil,
      List.append_assoc, List.replicate_append_replicate]
  reach b hb hw := by
    rcases List.mem_append.mp hb with hb | hb
    · exact h.reach b hb hw
    · rw [List.mem_singleton.mp hb, hstage] at hw
      cases hw

theorem mem_swap {b : Appending} (h : b ∈ xs ++ a' :: ys) : b ∈ xs ++ a :: ys ∨ b = a' := by
  rw [List.mem_append, List.mem_cons] at h
  rw [List.mem_append, List.mem_cons]
  rcases h with h | rfl | h
  · exact .inl (.inl h)
  · exact .inr rfl
  · exact .inl (.inr (.inr h))

/-- Whether an append is another one at a later stage. -/
structure Appending.Became (a a' : Appending) : Prop where
  claim : a'.claim = a.claim
  frame : a'.frame = a.frame
  mutation : a'.mutation = a.mutation

theorem Tiled.swap {start stop : Nat} (h : Tiled start stop (xs ++ a :: ys)) (ha : a.Became a') :
    Tiled start stop (xs ++ a' :: ys) := by
  obtain ⟨middle, hx, ho, hy⟩ := tiled_append.mp h
  exact tiled_append.mpr ⟨middle, hx, ha.claim ▸ ho, by rw [ha.frame]; exact hy⟩

theorem Laid.framed_swap (h : Laid g content (xs ++ a :: ys)) (ha : a.Became a') :
    ∀ b ∈ xs ++ a' :: ys, Frame.Framable b.mutation.payload ∧
      b.frame = Frame.ofPayload b.mutation.payload := by
  intro b hb
  rcases mem_swap hb with hb | rfl
  · exact h.framed b hb
  · rw [ha.mutation, ha.frame]
    exact h.framed a (List.mem_append_right _ List.mem_cons_self)

/-- A claim that is over is pending no more, and every other claim is as it was. -/
theorem Laid.pending_release (h : Laid g content (xs ++ a :: ys)) (ha : a.Became a')
    (hstage : a'.stage.isWriting = false) (o : Nat) :
    o ∈ (g.release a.claim.offset).pending ↔
      ∃ b ∈ xs ++ a' :: ys, b.stage.isWriting = true ∧ b.claim.offset = o := by
  have hpos : ∀ b ∈ xs ++ a :: ys, 0 < b.frame.length := fun b hb => h.length_pos hb
  rw [Segment.mem_pending_release, h.pending]
  constructor
  · rintro ⟨⟨b, hb, hw, ho⟩, hne⟩
    refine ⟨b, ?_, hw, ho⟩
    rw [List.mem_append, List.mem_cons] at hb ⊢
    rcases hb with hb | rfl | hb
    · exact .inl hb
    · exact absurd ho.symm hne
    · exact .inr (.inr hb)
  · rintro ⟨b, hb, hw, rfl⟩
    rw [List.mem_append, List.mem_cons] at hb
    rcases hb with hb | rfl | hb
    · exact ⟨⟨b, List.mem_append_left _ hb, hw, rfl⟩, Nat.ne_of_lt (h.tiled.lt_of_before hpos hb)⟩
    · rw [hstage] at hw
      cases hw
    · exact ⟨⟨b, List.mem_append_right _ (List.mem_cons_of_mem _ hb), hw, rfl⟩,
        (Nat.ne_of_lt (h.tiled.lt_of_after hpos hb)).symm⟩

/-- What is written at an offset into bytes with zeros behind them replaces as many bytes of the
whole. -/
theorem overwritten_zeros {front old back bytes : Bytes} {n : Nat}
    (hold : old.length = bytes.length) (h : front ++ (old ++ back) = content ++ List.replicate n 0)
    (hc : Disk.Overwritten content front.length bytes content') :
    ∃ m, front ++ (bytes ++ back) = content' ++ List.replicate m 0 := by
  have hlen := congrArg List.length h
  simp only [List.length_append, List.length_replicate] at hlen
  have hfront : front = content.take front.length ++
      List.replicate (front.length - content.length) 0 := by
    have ht := congrArg (List.take front.length) h
    rw [List.take_left' rfl, List.take_append, List.take_replicate] at ht
    rw [Nat.min_eq_left (by omega)] at ht
    exact ht
  have hback : back = content.drop (front.length + bytes.length) ++
      List.replicate (n - (front.length + bytes.length - content.length)) 0 := by
    have hd := congrArg (List.drop (front.length + bytes.length)) h
    rw [← List.append_assoc, List.drop_left' (by rw [List.length_append, hold]), List.drop_append,
      List.drop_replicate] at hd
    exact hd
  refine ⟨n - (front.length + bytes.length - content.length), ?_⟩
  rw [hc]
  conv_lhs => rw [hfront, hback]
  simp only [List.append_assoc]

/-- A frame that is written fills its range. -/
theorem Laid.write (h : Laid g content (xs ++ a :: ys)) (ha : a.Became a')
    (hafter : a'.stage.isWritten = true)
    (hstage : a'.stage.isWriting = false)
    (hc : Disk.Overwritten content a.claim.offset a.frame content') (u : Bool) :
    Laid { g.release a.claim.offset with unsynced := u } content' (xs ++ a' :: ys) where
  tiled := h.tiled.swap ha
  framed := h.framed_swap ha
  pending := h.pending_release ha hstage
  image_eq := by
    obtain ⟨n, hn⟩ := h.image_eq
    rw [image_append, image_cons] at hn
    rw [h.tiled.offset_eq] at hc
    have ho : a'.image = a.frame := by rw [Appending.image, hafter, ha.frame]; rfl
    rw [image_append, image_cons, ho]
    exact overwritten_zeros a.length_image hn hc
  reach b hb hw := by
    have hlen := congrArg List.length hc
    simp only [List.length_append, List.length_take, List.length_replicate, List.length_drop]
      at hlen
    rcases mem_swap hb with hb | rfl
    · have hreach := h.reach b hb hw
      omega
    · rw [ha.claim, ha.frame]
      omega

/-- A frame that is not written leaves its range empty. -/
theorem Laid.fail (h : Laid g content (xs ++ a :: ys)) (ha : a.Became a')
    (hbefore : a.stage.isWritten = false) (hafter : a'.stage.isWritten = false)
    (hstage : a'.stage.isWriting = false) (u : Bool) :
    Laid { g.release a.claim.offset with unsynced := u } content (xs ++ a' :: ys) where
  tiled := h.tiled.swap ha
  framed := h.framed_swap ha
  pending := h.pending_release ha hstage
  image_eq := by
    have ho : a'.image = a.image := by
      rw [Appending.image, Appending.image, hafter, hbefore, ha.frame]
    rw [image_append, image_cons, ho, ← image_cons, ← image_append]
    exact h.image_eq
  reach b hb hw := by
    rcases mem_swap hb with hb | rfl
    · exact h.reach b hb hw
    · rw [hafter] at hw
      cases hw

/-- An append that goes on without writing leaves everything as it was. -/
theorem Laid.goOn (h : Laid g content (xs ++ a :: ys)) (ha : a.Became a')
    (hwritten : a'.stage.isWritten = a.stage.isWritten)
    (hwriting : a'.stage.isWriting = a.stage.isWriting) : Laid g content (xs ++ a' :: ys) where
  tiled := h.tiled.swap ha
  framed := h.framed_swap ha
  pending o := by
    rw [h.pending]
    simp only [List.mem_append, List.mem_cons, or_and_right, exists_or, exists_eq_left, hwriting,
      ha.claim]
  image_eq := by
    have ho : a'.image = a.image := by
      rw [Appending.image, Appending.image, hwritten, ha.frame]
    rw [image_append, image_cons, ho, ← image_cons, ← image_append]
    exact h.image_eq
  reach b hb hw := by
    rcases mem_swap hb with hb | rfl
    · exact h.reach b hb hw
    · rw [ha.claim, ha.frame]
      rw [hwritten] at hw
      exact h.reach a (List.mem_append_right _ List.mem_cons_self) hw

/-! ## All segments -/

/-- Those of some appends that have claimed in a segment. -/
def claimedIn (as : List Appending) (k : Handle) : List Appending :=
  as.filter fun a => a.claim.handle == k

theorem mem_claimedIn {k : Handle} : a ∈ claimedIn as k ↔ a ∈ as ∧ a.claim.handle = k := by
  rw [claimedIn, List.mem_filter, beq_iff_eq]

theorem claimedIn_append (k : Handle) :
    claimedIn (xs ++ ys) k = claimedIn xs k ++ claimedIn ys k := List.filter_append ..

theorem claimedIn_cons_self :
    claimedIn (a :: as) a.claim.handle = a :: claimedIn as a.claim.handle :=
  List.filter_cons_of_pos (beq_self_eq_true _)

theorem claimedIn_cons_ne {k : Handle} (h : k ≠ a.claim.handle) :
    claimedIn (a :: as) k = claimedIn as k :=
  List.filter_cons_of_neg fun hc => h (beq_iff_eq.mp hc).symm

/-- An append that goes on keeps its place. -/
theorem exists_set_eq {i : Nat} (ha : as[i]? = some a) (a' : Appending) :
    ∃ front back, as = front ++ a :: back ∧ as.set i a' = front ++ a' :: back := by
  obtain ⟨hi, hai⟩ := List.getElem?_eq_some_iff.mp ha
  refine ⟨as.take i, as.drop (i + 1), ?_, ?_⟩
  · rw [← hai, List.getElem_cons_drop, List.take_append_drop]
  · rw [List.set_eq_take_append_cons_drop, if_pos hi]

/-- An append that goes on keeps its place among those of its segment. -/
theorem claimedIn_set {i : Nat} (ha : as[i]? = some a) (hb : a.Became a') :
    (∃ xs ys, claimedIn as a.claim.handle = xs ++ a :: ys ∧
        claimedIn (as.set i a') a.claim.handle = xs ++ a' :: ys) ∧
      ∀ k, k ≠ a.claim.handle → claimedIn (as.set i a') k = claimedIn as k := by
  obtain ⟨front, back, rfl, hset⟩ := exists_set_eq ha a'
  have hself : claimedIn (a' :: back) a.claim.handle = a' :: claimedIn back a.claim.handle := by
    rw [← hb.claim]
    exact claimedIn_cons_self
  refine ⟨⟨claimedIn front a.claim.handle, claimedIn back a.claim.handle, ?_, ?_⟩, fun k hk => ?_⟩
  · rw [claimedIn_append, claimedIn_cons_self]
  · rw [hset, claimedIn_append, hself]
  · rw [hset, claimedIn_append, claimedIn_append, claimedIn_cons_ne hk,
      claimedIn_cons_ne (by rw [hb.claim]; exact hk)]

/-- Whether every segment of a store and its file are as the appends that claimed in it have left
them. -/
def Store.LaidOut (s : Store) (as : List Appending) : Prop :=
  ∀ k < s.table.size, Laid (s.segment k) (s.disk.content (s.segment k).file) (claimedIn as k)

namespace Store

variable {s s' : Store} {loose : List Handle}

theorem claimedIn_of_known {k : Handle} (h : ∀ a ∈ as, a.claim.handle < s.table.size)
    (hk : s.table.size ≤ k) : claimedIn as k = [] := by
  rw [claimedIn, List.filter_eq_nil_iff]
  intro a ha hc
  rw [← beq_iff_eq.mp hc] at hk
  exact Nat.not_lt.mpr hk (h a ha)

theorem LaidOut.evolves (h : s.LaidOut as) (hs : s.Filed) (he : Evolves s s')
    (hknown : ∀ a ∈ as, a.claim.handle < s.table.size) : s'.LaidOut as := by
  intro k hk
  by_cases hold : k < s.table.size
  · have hkeeps := he.old k hold
    rw [hkeeps.file, he.content _ (hs.files k hold)]
    exact (h k hold).congr hkeeps.cursor hkeeps.pending
  · have hle := Nat.le_of_not_lt hold
    obtain ⟨hblank, -, -, hempty⟩ := he.new k hle hk
    rw [hempty, claimedIn_of_known hknown hle]
    exact laid_blank hblank

theorem LaidOut.noteFlush (h : s.LaidOut as) (k : Handle) (p : Partition) (upTo : Position) :
    (s.noteFlush k p upTo).LaidOut as := by
  intro j hj
  have hj' : j < s.table.size := by
    rw [Store.noteFlush, size_modify] at hj
    exact hj
  have hsame : ∀ g : Segment, (g.noteFlush p upTo).cursor = g.cursor ∧
      (g.noteFlush p upTo).pending = g.pending ∧ (g.noteFlush p upTo).file = g.file := by
    intro g
    rw [Segment.noteFlush]
    split
    · split <;> exact ⟨rfl, rfl, rfl⟩
    · exact ⟨rfl, rfl, rfl⟩
  show Laid _ (s.disk.content _) _
  by_cases hjk : j = k
  · subst hjk
    obtain ⟨hcursor, hpending, hfile⟩ := hsame (s.segment j)
    rw [Store.noteFlush, segment_modify_self _ hj', hfile]
    exact (h j hj').congr hcursor hpending
  · rw [Store.noteFlush, segment_modify_ne _ hjk]
    exact h j hj'

/-- The locked part of an append adds its range to those of its segment. -/
theorem LaidOut.claim (h : s.LaidOut as) (hs : s.Housed loose) {m : Mutation} {frame : Bytes}
    {c : Claim} (hc : s.claim m.partitions frame.length = (.ok c, s'))
    (hknown : ∀ a ∈ as, a.claim.handle < s.table.size)
    (hframed : Frame.Framable m.payload ∧ frame = Frame.ofPayload m.payload) :
    s'.LaidOut (as ++ [{ mutation := m, frame, claim := c }]) := by
  obtain ⟨-, -, ⟨_, hr, -⟩ | ⟨s₁, _, hr, hs₁, hevolves, ht, -, hoffset, rfl⟩⟩ := hs.claim hc
  · cases hr
  · cases hr
    have h₁ := h.evolves hs.toFiled hevolves hknown
    have hc₁ : c.handle < s₁.table.size := hs₁.known_active (mem_of_tail? ht)
    intro k hk
    rw [size_modify] at hk
    show Laid _ (s₁.disk.content _) _
    rw [claimedIn_append]
    by_cases hkc : k = c.handle
    · subst hkc
      rw [segment_modify_self _ hc₁]
      have hself : claimedIn [{ mutation := m, frame, claim := c }] c.handle =
          [{ mutation := m, frame, claim := c }] :=
        claimedIn_cons_self (a := { mutation := m, frame, claim := c })
      rw [hself]
      show Laid ((s₁.segment c.handle).claimed m.partitions frame.length) _ _
      exact (h₁ c.handle hk).claim hoffset rfl hframed rfl rfl
    · rw [segment_modify_ne _ hkc, claimedIn_cons_ne hkc]
      rw [show claimedIn [] k = [] from rfl, List.append_nil]
      exact h₁ k hk

/-- An append that goes on without writing leaves all segments as they were. -/
theorem LaidOut.goOn (h : s.LaidOut as) {i : Nat} (ha : as[i]? = some a) (hb : a.Became a')
    (hwritten : a'.stage.isWritten = a.stage.isWritten)
    (hwriting : a'.stage.isWriting = a.stage.isWriting) : s.LaidOut (as.set i a') := by
  obtain ⟨⟨xs, ys, hold, hnew⟩, hothers⟩ := claimedIn_set ha hb
  intro k hk
  have hlaid := h k hk
  by_cases hka : k = a.claim.handle
  · subst hka
    rw [hold] at hlaid
    rw [hnew]
    exact hlaid.goOn hb hwritten hwriting
  · rw [hothers k hka]
    exact hlaid

/-- The write of a frame fills its range, or fails and leaves it empty if a fault never leaves
anything behind. -/
theorem LaidOut.write (h : s.LaidOut as) (hs : s.Filed) {i : Nat} (ha : as[i]? = some a)
    (hknown : a.claim.handle < s.table.size) {r : Except DiskError Unit}
    (hw : s.write a.claim a.frame = (r, s'))
    (hfaults : ∀ f ∈ s.disk.faults.write, ∀ count e, f = some (count, e) → count = 0)
    (hb : a.Became a') (hstage : a'.stage.isWriting = false)
    (hwritten : a'.stage.isWritten = r.isOk)
    (hbefore : a.stage.isWritten = false) : s'.LaidOut (as.set i a') := by
  obtain ⟨⟨xs, ys, hold, hnew⟩, hothers⟩ := claimedIn_set ha hb
  obtain ⟨u, d, rfl, hd⟩ := write_cases hw hknown
  obtain ⟨hframe, hcases⟩ := Disk.writeAt_cases hd (hs.files _ hknown)
  have hlaid := h a.claim.handle hknown
  rw [hold] at hlaid
  have hne : a.frame ≠ [] := List.ne_nil_of_length_pos
    (hlaid.length_pos (List.mem_append_right _ List.mem_cons_self))
  intro k hk
  have hk' : k < s.table.size := by
    simp only [size_modify] at hk
    exact hk
  show Laid ((s.modify _ _).segment k) (d.content ((s.modify _ _).segment k).file) _
  by_cases hka : k = a.claim.handle
  · subst hka
    rw [segment_modify_self _ hknown, hnew]
    show Laid _ (d.content (s.segment a.claim.handle).file) _
    rcases hcases with ⟨rfl, hover, -⟩ | ⟨e, torn, rfl, -, -, hsame, -, hzero⟩
    · exact hlaid.write hb hwritten hstage (hover hne) u
    · rw [hsame (hzero hfaults)]
      exact hlaid.fail hb hbefore hwritten hstage u
  · rw [segment_modify_ne _ hka, hothers k hka,
      hframe.others _ (hs.file_ne hk' hknown hka) (hs.files k hk')]
    exact h k hk'

end Store

/-! ## The world -/

/-- A step of a discard forgets marks of one segment, or leaves everything in the segments alone. -/
theorem Walk.advance_cases {v v' : Walk} {s s' : Store} (h : v.advance s = some (v', s')) :
    s.Evolves s' ∨ ∃ k, s' = s.noteFlush k v.partition v.upTo := by
  obtain ⟨k, rest, -, heffect⟩ := effect_of_advance h
  cases heffect with
  | flush => exact .inr ⟨k, rfl⟩
  | unlink => exact .inl (.of_eq rfl rfl rfl)
  | delete => exact .inl (Store.evolves_deleteFile s k)
  | spent => exact .inl (.refl _)
  | needed => exact .inl (.refl _)
  | keep => exact .inl (.refl _)
  | stop => exact .inl (.refl _)
  | next => exact .inl (.refl _)

namespace World

/-- A step is a claim that is granted, or a step of an append, or it touches neither what is
claimed nor what the files hold. -/
theorem step_cases {w w' : World} {e : Event} (h : w.step e = some w') :
    (w'.appends = w.appends ∧ (w.store.Evolves w'.store ∨
        ∃ k p upTo, w'.store = w.store.noteFlush k p upTo)) ∨
      (∃ m frame c, m.frame w.store.maxPayload = .ok frame ∧
        w.store.claim m.partitions frame.length = (.ok c, w'.store) ∧
        w'.appends = w.appends ++ [{ mutation := m, frame, claim := c }]) ∨
      ∃ i a a', w.appends[i]? = some a ∧ a.advance w.store = some (a', w'.store) ∧
        w'.appends = w.appends.set i a' := by
  have hsame : w.store.Evolves w.store := .refl _
  cases effect_of_step h with
  | refused => exact .inl ⟨rfl, .inl hsame⟩
  | denied hm hc =>
    rcases Store.claim_evolves hc (Mutation.frame_pos hm) with ⟨_, -, hevolves⟩ | ⟨_, _, hr, -⟩
    · exact .inl ⟨rfl, .inl hevolves⟩
    · cases hr
  | granted hm hc => exact .inr (.inl ⟨_, _, _, hm, hc, rfl⟩)
  | append ha hadvance => exact .inr (.inr ⟨_, _, _, ha, hadvance, rfl⟩)
  | spareMissing => exact .inl ⟨rfl, .inl hsame⟩
  | spareThere => exact .inl ⟨rfl, .inl hsame⟩
  | spareFailed _ hn =>
    exact .inl ⟨rfl, .inl ((Store.evolves_newSegment hn).trans (.of_eq rfl rfl rfl))⟩
  | spareCreated _ hn => exact .inl ⟨rfl, .inl (Store.evolves_newSegment hn)⟩
  | placeSpare => exact .inl ⟨rfl, .inl (Store.evolves_placeSpare _ _)⟩
  | startDiscard => exact .inl ⟨rfl, .inl hsame⟩
  | discard _ hadvance =>
    exact .inl ⟨rfl, (Walk.advance_cases hadvance).imp_right fun ⟨k, hk⟩ => ⟨k, _, _, hk⟩⟩
  | startSync => exact .inl ⟨rfl, .inl hsame⟩
  | sync _ hadvance => exact .inl ⟨rfl, .inl (Syncing.advance_cases hadvance).1⟩
  | retireSpare => exact .inl ⟨rfl, .inl (.of_eq rfl rfl rfl)⟩
  | reset => exact .inl ⟨rfl, .inl (.of_eq rfl rfl rfl)⟩
  | delete => exact .inl ⟨rfl, .inl (Store.evolves_deleteFile _ _)⟩
  | keepIdsAbove => exact .inl ⟨rfl, .inl (.of_eq rfl rfl rfl)⟩

end World

end SegmentLog
