import SegmentLog.Proofs.Disk.Alike
import SegmentLog.Proofs.Frame.First
import SegmentLog.Proofs.Store.Reporting

/-!
# Stores that look alike

Two stores look alike if they agree in everything but what the files on their disks hold, and those
look alike. Requests of the same shape bring the same to the caller of stores that look alike, and
leave them alike, as long as what appends write keeps the files looking alike.

* `Request.SameShape` — requests that differ in the payloads only, and there not in the lengths;
* `Alike.claim`, `Alike.write`, `Alike.acknowledge`, `Alike.append` — an append and its parts;
* `Alike.serve`, `Alike.serveAll` — one request, and a run.
-/

namespace SegmentLog

namespace Store

variable {α : Type} {look : Bytes → α} {s t : Store}

/-- Whether two stores agree in everything but what files hold, and that looks alike. -/
structure Alike (look : Bytes → α) (s t : Store) : Prop where
  settings : t.settings = s.settings
  ids : t.ids = s.ids
  table : t.table = s.table
  active : t.active = s.active
  spare : t.spare = s.spare
  attached : t.attached = s.attached
  mail : t.mail = s.mail
  monitor : t.monitor = s.monitor
  disk : s.disk.Alike look t.disk

theorem Alike.segment (h : s.Alike look t) (k : Handle) : t.segment k = s.segment k := by
  rw [Store.segment, Store.segment, h.table]

theorem Alike.tail? (h : s.Alike look t) : t.tail? = s.tail? := by
  rw [Store.tail?, Store.tail?, h.active]

theorem Alike.tailId (h : s.Alike look t) : t.tailId = s.tailId := by
  unfold Store.tailId
  rw [h.tail?]
  simp only [h.segment]

/-! ## Segments and places -/

theorem Alike.modify (h : s.Alike look t) (k : Handle) (f : Segment → Segment) :
    (s.modify k f).Alike look (t.modify k f) :=
  { h with table := by rw [Store.modify, Store.modify, h.table] }

/-- The segment of a handle takes another state, and the disk too. -/
theorem Alike.replace (h : s.Alike look t) (k : Handle) (g : Segment) {d d' : Disk}
    (hd : d.Alike look d') :
    Alike look { s.modify k (fun _ => g) with disk := d }
      { t.modify k (fun _ => g) with disk := d' } :=
  { h.modify k fun _ => g with disk := hd }

theorem Alike.send (h : s.Alike look t) (c : Chore) : (s.send c).Alike look (t.send c) := by
  unfold Store.send
  rw [h.attached]
  split
  · exact { h with attached := rfl, mail := by rw [h.mail] }
  · exact h

theorem Alike.report (h : s.Alike look t) (cause : IoError) :
    Agree (Alike look) (s.report cause) (t.report cause) :=
  ⟨rfl, { h with monitor := congrArg Monitor.report h.monitor }⟩

theorem Alike.newSegment (h : s.Alike look t) :
    Agree (Alike look) s.newSegment t.newSegment := by
  unfold Store.newSegment Segment.create
  rw [h.ids, h.settings]
  dsimp only
  obtain ⟨r, d, d', hd, hd', hdisk⟩ := (h.disk.createNew _).cases
  rw [hd, hd']
  cases r with
  | error e => exact ⟨rfl, { h with settings := rfl, ids := rfl, disk := hdisk }⟩
  | ok file =>
    exact ⟨by rw [h.table], { h with
      settings := rfl
      ids := rfl
      table := by rw [h.table]
      disk := hdisk }⟩

theorem Alike.deleteFile (h : s.Alike look t) (k : Handle) :
    Agree (Alike look) (s.deleteFile k) (t.deleteFile k) := by
  unfold Store.deleteFile Segment.delete
  rw [h.segment]
  obtain ⟨r, d, d', hd, hd', hdisk⟩ := (h.disk.remove _).cases
  rw [hd, hd']
  exact ⟨rfl, { h with disk := hdisk }⟩

theorem Alike.withdrawSpare (h : s.Alike look t) :
    Agree (Alike look) s.withdrawSpare t.withdrawSpare := by
  unfold Store.withdrawSpare
  rw [h.spare]
  cases s.spare with
  | none => exact ⟨rfl, h⟩
  | some k =>
    have hout : Alike look { s with spare := none } { t with spare := none } :=
      { h with spare := rfl }
    dsimp only
    rw [hout.tailId, hout.segment]
    split
    · exact ⟨rfl, hout⟩
    · exact ⟨rfl, (hout.deleteFile k).state⟩

theorem Alike.placeSpare (h : s.Alike look t) (k : Handle) :
    (s.placeSpare k).Alike look (t.placeSpare k) := by
  unfold Store.placeSpare
  rw [h.spare, h.tailId, h.segment]
  split
  · exact { h with spare := rfl }
  · exact (h.deleteFile k).state

theorem Alike.activate (h : s.Alike look t) (k : Handle) :
    (s.activate k).Alike look (t.activate k) := by
  have hpush : ∀ {s t : Store}, s.Alike look t →
      Alike look (if s.settings.lookAhead then
          Store.send { s with active := s.active ++ [k] } .stockSpare
        else { s with active := s.active ++ [k] })
        (if t.settings.lookAhead then Store.send { t with active := t.active ++ [k] } .stockSpare
        else { t with active := t.active ++ [k] }) := by
    intro s t h
    have hactive : Alike look { s with active := s.active ++ [k] }
        { t with active := t.active ++ [k] } := { h with active := by rw [h.active] }
    have hlook : t.settings.lookAhead = s.settings.lookAhead := by rw [h.settings]
    rw [hlook]
    split
    · exact hactive.send .stockSpare
    · exact hactive
  unfold Store.activate
  rw [h.tail?]
  cases s.tail? with
  | none => exact hpush h
  | some previous => exact hpush (h.modify previous Segment.sealOff)

theorem Alike.rollOver (h : s.Alike look t) : Agree (Alike look) s.rollOver t.rollOver := by
  unfold Store.rollOver
  obtain ⟨spare, s₁, t₁, hs₁, ht₁, h₁⟩ := h.withdrawSpare.cases
  rw [hs₁, ht₁]
  cases spare with
  | some k => exact ⟨rfl, h₁.activate k⟩
  | none =>
    dsimp only
    obtain ⟨made, s₂, t₂, hs₂, ht₂, h₂⟩ := h₁.newSegment.cases
    rw [hs₂, ht₂]
    cases made with
    | ok k => exact ⟨rfl, h₂.activate k⟩
    | error e => exact ⟨rfl, (h₂.report (.disk e)).state⟩

theorem Alike.segmentFor (h : s.Alike look t) (length : Nat) :
    Agree (Alike look) (s.segmentFor length) (t.segmentFor length) := by
  unfold Store.segmentFor tailFits
  rw [h.tail?]
  cases s.tail? with
  | none => exact h.rollOver
  | some k =>
    dsimp only
    rw [h.segment]
    split
    · exact ⟨rfl, h⟩
    · exact h.rollOver

theorem Alike.stockSpare (h : s.Alike look t) : Agree (Alike look) s.stockSpare t.stockSpare := by
  unfold Store.stockSpare lacksSpare
  rw [h.settings, h.spare]
  split
  · obtain ⟨made, s₁, t₁, hs₁, ht₁, h₁⟩ := h.newSegment.cases
    rw [hs₁, ht₁]
    cases made with
    | error e => exact ⟨rfl, (h₁.report (.disk e)).state⟩
    | ok k => exact ⟨rfl, h₁.placeSpare k⟩
  · exact ⟨rfl, h⟩

/-! ## Appends -/

theorem Alike.claim (h : s.Alike look t) (partitions : List Partition) (length : Nat) :
    Agree (Alike look) (s.claim partitions length) (t.claim partitions length) := by
  unfold Store.claim
  obtain ⟨chosen, s₁, t₁, hs₁, ht₁, h₁⟩ := (h.segmentFor length).cases
  rw [hs₁, ht₁]
  cases chosen with
  | error e => exact ⟨rfl, h₁⟩
  | ok k =>
    dsimp only
    rw [h₁.segment]
    split
    · exact ⟨rfl, (h₁.modify k _).modify k _⟩
    · exact ⟨rfl, (h₁.report (.noRoom length (s₁.segment k).id)).state⟩

theorem Alike.giveUp (h : s.Alike look t) (k : Handle) (cause : DiskError) :
    Agree (Alike look) (s.giveUp k cause) (t.giveUp k cause) :=
  (h.modify k Segment.sealOff).report (.disk cause)

theorem Alike.syncSegment (h : s.Alike look t) (k : Handle) (force : Bool) :
    Agree (Alike look) (s.syncSegment k force) (t.syncSegment k force) := by
  unfold Store.syncSegment Segment.sync
  rw [h.segment]
  by_cases hskip : (!force && !(s.segment k).unsynced) = true
  · rw [if_pos hskip, if_pos hskip]
    exact ⟨rfl, h.replace k _ h.disk⟩
  · rw [if_neg hskip, if_neg hskip]
    obtain ⟨r, d, d', hd, hd', hdisk⟩ := (h.disk.sync _).cases
    rw [hd, hd']
    cases r <;> exact ⟨rfl, h.replace k _ hdisk⟩

theorem Alike.acknowledge (h : s.Alike look t) (c : Claim) :
    Agree (Alike look) (s.acknowledge c) (t.acknowledge c) := by
  have hposition : ∀ {s t : Store}, s.Alike look t → t.positionOf c = s.positionOf c := by
    intro s t h
    rw [positionOf, positionOf, h.segment]
  unfold Store.acknowledge
  rw [h.settings]
  split
  · obtain ⟨synced, s₁, t₁, hs₁, ht₁, h₁⟩ := (h.syncSegment c.handle true).cases
    rw [hs₁, ht₁]
    cases synced with
    | ok => exact ⟨congrArg Except.ok (hposition h₁), h₁⟩
    | error cause => exact ⟨rfl, (h₁.giveUp c.handle cause).state⟩
  · exact ⟨congrArg Except.ok (hposition h), h⟩

/-- What is written is as long, and leaves the files alike that look alike. -/
theorem Alike.write (h : s.Alike look t) {c : Claim}
    (hfile : (s.segment c.handle).file < s.disk.files.size)
    (hfault : s.disk.fault? (s.segment c.handle).file = none) {frame frame' : Bytes}
    (hlength : frame'.length = frame.length)
    (hlook : ∀ n after after',
      Disk.Overwritten (s.disk.content (s.segment c.handle).file) c.offset (frame.take n) after →
      Disk.Overwritten (t.disk.content (s.segment c.handle).file) c.offset (frame'.take n) after' →
      look after' = look after) :
    Agree (Alike look) (s.write c frame) (t.write c frame') := by
  unfold Store.write Segment.write
  rw [h.segment]
  obtain ⟨r, d, d', hd, hd', hdisk⟩ := (h.disk.writeAt hfile hfault hlength hlook).cases
  rw [hd, hd']
  cases r <;> exact ⟨rfl, h.replace c.handle _ hdisk⟩

/-! ## Discarding -/

theorem Alike.unlink (h : s.Alike look t) (k : Handle) :
    Agree (Alike look) (s.unlink k) (t.unlink k) := by
  unfold Store.unlink
  rw [h.segment, h.active]
  split
  · exact ⟨rfl, { h with active := rfl }⟩
  · exact ⟨rfl, h⟩

theorem Alike.discardOne (h : s.Alike look t) (p : Partition) (upTo : Position) (k : Handle) :
    (s.discardOne p upTo k).Alike look (t.discardOne p upTo k) := by
  have hflush : (s.noteFlush k p upTo).Alike look (t.noteFlush k p upTo) := h.modify k _
  unfold Store.discardOne deleteSegment
  dsimp only
  rw [hflush.segment]
  split
  · obtain ⟨unlinked, s₁, t₁, hs₁, ht₁, h₁⟩ := (hflush.unlink k).cases
    rw [hs₁, ht₁]
    cases unlinked with
    | true => exact (h₁.deleteFile k).state
    | false => exact h₁
  · exact hflush

theorem Alike.discardEach (h : s.Alike look t) (p : Partition) (upTo : Position)
    (todo : List Handle) :
    (discardEach p upTo todo s).Alike look (Store.discardEach p upTo todo t) := by
  induction todo generalizing s t with
  | nil => exact h
  | cons k rest ih =>
    have hone := h.discardOne p upTo k
    rw [discardEach_cons, discardEach_cons, hone.segment]
    split
    · exact hone
    · exact ih hone

/-! ## Syncing and ending -/

theorem Alike.syncEach (h : s.Alike look t) (force : Bool) (todo : List Handle) :
    Agree (Alike look) (syncEach force todo s) (Store.syncEach force todo t) := by
  induction todo generalizing s t with
  | nil => exact ⟨rfl, h⟩
  | cons k rest ih =>
    unfold Store.syncEach
    obtain ⟨synced, s₁, t₁, hs₁, ht₁, h₁⟩ := (h.syncSegment k force).cases
    rw [hs₁, ht₁]
    cases synced with
    | ok => exact ih h₁
    | error cause =>
      cases force
      · exact ⟨rfl, (h₁.report (.disk cause)).state⟩
      · exact ⟨rfl, (h₁.giveUp k cause).state⟩

theorem Alike.syncActive (h : s.Alike look t) (force : Bool) :
    Agree (Alike look) (s.syncActive force) (t.syncActive force) := by
  unfold Store.syncActive
  rw [h.active]
  exact h.syncEach force s.active

theorem Alike.sync (h : s.Alike look t) (force : Bool) :
    Agree (Alike look) (s.sync force) (t.sync force) := by
  unfold Store.sync
  rw [h.attached]
  split
  · exact ⟨rfl, h.send .sync⟩
  · exact h.syncActive force

theorem Alike.finish (h : s.Alike look t) : Agree (Alike look) s.finish t.finish := by
  unfold Store.finish
  obtain ⟨synced, s₁, t₁, hs₁, ht₁, h₁⟩ := (h.syncActive true).cases
  rw [hs₁, ht₁]
  cases synced with
  | error e => exact ⟨rfl, h₁⟩
  | ok =>
    dsimp only
    rw [h₁.spare]
    cases s₁.spare with
    | none => exact ⟨rfl, h₁⟩
    | some k =>
      have hout : Alike look { s₁ with spare := none } { t₁ with spare := none } :=
        { h₁ with spare := rfl }
      obtain ⟨removed, s₂, t₂, hs₂, ht₂, h₂⟩ := (hout.deleteFile k).cases
      dsimp only
      rw [hs₂, ht₂]
      cases removed <;> exact ⟨rfl, h₂⟩

theorem Alike.deleteEach (h : s.Alike look t) (todo : List Handle) :
    Agree (Alike look) (deleteEach todo s) (Store.deleteEach todo t) := by
  induction todo generalizing s t with
  | nil => exact ⟨rfl, h⟩
  | cons k rest ih =>
    unfold Store.deleteEach
    obtain ⟨removed, s₁, t₁, hs₁, ht₁, h₁⟩ := (h.deleteFile k).cases
    rw [hs₁, ht₁]
    cases removed with
    | ok => exact ih h₁
    | error cause =>
      cases cause with
      | notFound => exact ih h₁
      | _ => exact ⟨rfl, h₁⟩

theorem Alike.wipe (h : s.Alike look t) : Agree (Alike look) s.wipe t.wipe := by
  have hout : Alike look { s with active := [], spare := none }
      { t with active := [], spare := none } := { h with active := rfl, spare := rfl }
  unfold Store.wipe
  rw [h.active, h.spare]
  exact hout.deleteEach _

end Store

/-! ## Appends of the same shape -/

/-- Whether two mutations differ in the bytes of their payloads only. -/
structure Mutation.SameShape (m m' : Mutation) : Prop where
  partitions : m'.partitions = m.partitions
  declared : m'.declared = m.declared
  length : m'.payload.length = m.payload.length

theorem Mutation.SameShape.refl (m : Mutation) : m.SameShape m := ⟨rfl, rfl, rfl⟩

/-- Mutations of the same shape are refused for the same reason, or both are framed. -/
theorem Mutation.SameShape.frame_cases {m m' : Mutation} (h : m.SameShape m') (max : Nat) :
    (∃ e, m.frame max = .error e ∧ m'.frame max = .error e) ∨
      m.frame max = .ok (Frame.ofPayload m.payload) ∧
        m'.frame max = .ok (Frame.ofPayload m'.payload) := by
  unfold Mutation.frame Frame.ofPayload
  rw [h.declared, h.length]
  cases Frame.checkSize m.declared max with
  | error e => exact .inl ⟨e, rfl, rfl⟩
  | ok =>
    dsimp only
    split
    · rename_i hlength
      rw [hlength]
      exact .inr ⟨rfl, rfl⟩
    · exact .inl ⟨_, rfl, rfl⟩

namespace Store

variable {α : Type} {look : Bytes → α} {s t : Store}

/-- Whether what two appends write leaves the files alike. -/
def PutAlike (look : Bytes → α) (s t : Store) (m m' : Mutation) : Prop :=
  ∀ c s₁ t₁, m.frame s.maxPayload = .ok (Frame.ofPayload m.payload) →
    s.claim m.partitions (Frame.ofPayload m.payload).length = (.ok c, s₁) →
    t.claim m.partitions (Frame.ofPayload m.payload).length = (.ok c, t₁) →
    (s₁.segment c.handle).file < s₁.disk.files.size ∧
      s₁.disk.fault? (s₁.segment c.handle).file = none ∧
      ∀ n after after',
        Disk.Overwritten (s₁.disk.content (s₁.segment c.handle).file) c.offset
          ((Frame.ofPayload m.payload).take n) after →
        Disk.Overwritten (t₁.disk.content (s₁.segment c.handle).file) c.offset
          ((Frame.ofPayload m'.payload).take n) after' →
        look after' = look after

/-- Appends of the same shape give back the same, if what they write leaves the files alike. -/
theorem Alike.append (h : s.Alike look t) {m m' : Mutation} (hm : m.SameShape m')
    (hput : s.PutAlike look t m m') : Agree (Alike look) (s.append m) (t.append m') := by
  have hmax : t.maxPayload = s.maxPayload := by rw [maxPayload, maxPayload, h.settings]
  unfold Store.append
  rw [hmax, hm.partitions]
  rcases hm.frame_cases s.maxPayload with ⟨e, he, he'⟩ | ⟨hframe, hframe'⟩
  · rw [he, he']
    exact ⟨rfl, h⟩
  have hlength : (Frame.ofPayload m'.payload).length = (Frame.ofPayload m.payload).length := by
    rw [Frame.length_ofPayload, Frame.length_ofPayload, hm.length]
  rw [hframe, hframe']
  dsimp only
  rw [hlength]
  obtain ⟨granted, s₁, t₁, hs₁, ht₁, h₁⟩ :=
    (h.claim m.partitions (Frame.ofPayload m.payload).length).cases
  rw [hs₁, ht₁]
  cases granted with
  | error e => exact ⟨rfl, h₁⟩
  | ok c =>
    obtain ⟨hfile, hfault, hlook⟩ := hput c s₁ t₁ hframe hs₁ ht₁
    obtain ⟨written, s₂, t₂, hs₂, ht₂, h₂⟩ := (h₁.write hfile hfault hlength hlook).cases
    dsimp only
    rw [hs₂, ht₂]
    cases written with
    | ok => exact h₂.acknowledge c
    | error cause => exact ⟨rfl, (h₂.giveUp c.handle cause).state⟩

/-! ## Runs of the same shape -/

/-- Whether two requests differ in the bytes of payloads only. -/
inductive Request.SameShape : Request → Request → Prop where
  | append {m m' : Mutation} (h : m.SameShape m') : SameShape (.append m) (.append m')
  | refl (request : Request) : SameShape request request

/-- What a request brings to the caller; for an append that is the position of its record. -/
def returned (s : Store) : Request → Except LogError (Option Position)
  | .append m => (s.append m).1.map some
  | request => (s.reply request).map fun _ => none

/-- What the requests of a run bring to the caller, one after the other. -/
def returnedAll (s : Store) : List Request → List (Except LogError (Option Position))
  | [] => []
  | request :: rest => s.returned request :: (s.serve request).returnedAll rest

/-- A request that is no append brings the same, and leaves stores alike. -/
theorem Alike.serve_same (h : s.Alike look t) {request : Request}
    (hrequest : ∀ m, request ≠ .append m) :
    t.returned request = s.returned request ∧ (s.serve request).Alike look (t.serve request) := by
  have hmap : ∀ {x y : Except LogError Unit × Store}, Agree (Alike look) x y →
      (y.1.map fun _ => (none : Option Position)) = x.1.map fun _ => none :=
    fun hagree => by rw [hagree.result]
  cases request with
  | append m => exact absurd rfl (hrequest m)
  | discard p upTo =>
    refine ⟨rfl, ?_⟩
    show (Store.discardEach p upTo s.active s).Alike look (Store.discardEach p upTo t.active t)
    rw [h.active]
    exact h.discardEach p upTo s.active
  | stockSpare => exact ⟨hmap h.stockSpare, h.stockSpare.state⟩
  | sync force => exact ⟨hmap (h.sync force), (h.sync force).state⟩
  | syncActive force => exact ⟨hmap (h.syncActive force), (h.syncActive force).state⟩
  | keepIdsAbove id => exact ⟨rfl, { h with ids := congrArg (IdSource.keepAbove · id) h.ids }⟩
  | finish => exact ⟨hmap h.finish, h.finish.state⟩
  | wipe => exact ⟨hmap h.wipe, h.wipe.state⟩
  | attach worker => exact ⟨rfl, { h with attached := rfl }⟩

/-- Requests of the same shape bring the same, and leave stores alike. -/
theorem Alike.serve (h : s.Alike look t) {request request' : Request}
    (hshape : request.SameShape request')
    (hput : ∀ m m', m.SameShape m' → s.PutAlike look t m m') :
    t.returned request' = s.returned request ∧ (s.serve request).Alike look (t.serve request') := by
  have happend : ∀ m m', m.SameShape m' → t.returned (.append m') = s.returned (.append m) ∧
      (s.serve (.append m)).Alike look (t.serve (.append m')) := by
    intro m m' hm
    have hagree := h.append hm (hput m m' hm)
    exact ⟨congrArg (Except.map some) hagree.result, hagree.state⟩
  cases hshape with
  | append hm => exact happend _ _ hm
  | refl =>
    by_cases hrequest : ∃ m, request = .append m
    · obtain ⟨m, rfl⟩ := hrequest
      exact happend m m (.refl m)
    · exact h.serve_same fun m hm => hrequest ⟨m, hm⟩

/-- So do runs of them, if the files stay alike in every state that can come up. -/
theorem Alike.serveAll {I : Store → Prop} (hinv : ∀ s request, I s → I (s.serve request))
    (hput : ∀ s t, I s → I t → s.Alike look t → ∀ m m', m.SameShape m' →
      s.PutAlike look t m m')
    {requests requests' : List Request} (hshape : List.Forall₂ Request.SameShape requests requests')
    (h : s.Alike look t) (hs : I s) (ht : I t) :
    t.returnedAll requests' = s.returnedAll requests ∧
      (s.serveAll requests).Alike look (t.serveAll requests') := by
  induction hshape generalizing s t with
  | nil => exact ⟨rfl, h⟩
  | cons hone _ ih =>
    obtain ⟨hreturned, h₁⟩ := h.serve hone (hput s t hs ht h)
    obtain ⟨hrest, h'⟩ := ih h₁ (hinv _ _ hs) (hinv _ _ ht)
    exact ⟨by rw [returnedAll, returnedAll, hreturned, hrest], h'⟩

end Store

end SegmentLog
