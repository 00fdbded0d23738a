import SegmentLog.Proofs.Replay.Outline
import SegmentLog.Proofs.Store.Alike
import SegmentLog.Proofs.Store.Ready

/-!
# Payloads do not show

What a log does depends on how long payloads are, and never on what they are. Take two runs whose
appends write payloads of the same lengths: whatever fails, the callers get back the same, the
segments are in the same states, and the files have the same lengths. As every frame is written
behind whole frames, the files have the same outlines too, so that replays of them differ in the
payloads alone, even if a payload looks like a frame, a header or an end marker.

* `Housed.putAlike`, `Ready.putAlike` — what appends of the same shape write shows neither in the
  lengths of files, nor in their outlines;
* `alike_onDirectory`, `payloads_do_not_show` — where runs begin, and what they show.
-/

namespace SegmentLog

theorem Disk.Overwritten.length {before bytes after : Bytes} {offset : Nat}
    (h : Overwritten before offset bytes after) :
    after.length = max before.length (offset + bytes.length) := by
  rw [h]
  simp only [List.length_append, List.length_take, List.length_replicate, List.length_drop]
  omega

namespace Store

variable {s t : Store} {m m' : Mutation}

/-! ## What appends write -/

/-- As much is written by appends of the same shape. -/
theorem Housed.putAlike (hs : s.Housed []) (h : s.Alike List.length t) (hm : m.SameShape m') :
    s.PutAlike List.length t m m' := by
  intro c s₁ t₁ _ hs₁ ht₁
  obtain ⟨-, h₁⟩ := (h.claim m.partitions _).of_eq hs₁ ht₁
  obtain ⟨hhoused, -, ⟨_, hr, -⟩ | ⟨s₀, _, hr, hs₀, -, htail, -, -, he⟩⟩ := hs.claim hs₁ <;>
    cases hr
  have hknown : c.handle < s₁.table.size := by
    rw [he, size_modify]
    exact hs₀.known_active (mem_of_tail? htail)
  refine ⟨hhoused.files _ hknown, hhoused.readable _ hknown,
    fun n after after' hafter hafter' => ?_⟩
  · rw [hafter.length, hafter'.length, h₁.disk.content, List.length_take, List.length_take,
      Frame.length_ofPayload, Frame.length_ofPayload, hm.length]

/-- Appends of the same shape write behind whole frames of the same lengths. -/
theorem Ready.putAlike (hs : s.Ready) (ht : t.Ready) (h : s.Alike outline t)
    (hm : m.SameShape m') : s.PutAlike outline t m m' := by
  intro c s₁ t₁ hframe hs₁ ht₁
  have hmax : t.maxPayload = s.maxPayload := by rw [maxPayload, maxPayload, h.settings]
  have hlength := length_frame_le hframe
  have hlength' : (Frame.ofPayload m.payload).length ≤ t.settings.segmentSize.toNat := by
    rw [h.settings]
    exact hlength
  obtain ⟨_, hr, -⟩ | ⟨k, s₀, hr, hs₀, rfl⟩ := hs.claim_cases hlength hs₁ <;> cases hr
  obtain ⟨_, hr, -⟩ | ⟨k', t₀, hr, ht₀, rfl⟩ := ht.claim_cases hlength' ht₁
  · cases hr
  obtain ⟨hk, h₀⟩ := (h.segmentFor _).of_eq hs₀ ht₀
  cases hk
  obtain ⟨hready, htail, -, hwhole, -⟩ := hs.segmentFor_ok hlength hs₀
  obtain ⟨-, -, -, hwhole', -⟩ := ht.segmentFor_ok hlength' ht₀
  obtain ⟨payloads, hall, hholds, hend⟩ := hwhole
  obtain ⟨payloads', hall', hholds', hend'⟩ := hwhole'
  have hknown := hready.known_active (mem_of_tail? htail)
  have hself := segment_modify_self
    (fun g => g.claimed m.partitions (Frame.ofPayload m.payload).length) hknown
  rw [h₀.segment] at hholds' hend'
  -- both runs write at the end of files with the same outline
  have hsame := h₀.disk.content (s₀.segment k).file
  rw [hholds, hholds'] at hsame
  obtain ⟨-, hpos, hle, -⟩ := Mutation.frame_eq_ok_iff.mp hframe
  have hpayload : Frame.Framable m.payload := ⟨hpos, Nat.le_trans hle hs.framable⟩
  have hpayload' : Frame.Framable m'.payload := by
    rw [Frame.Framable, hm.length]
    exact hpayload
  dsimp only
  rw [hself]
  refine ⟨hready.files k hknown, hready.readable k hknown, fun n after after' hafter hafter' => ?_⟩
  have hput : after = Frame.spell payloads ++ (Frame.ofPayload m.payload).take n := by
    refine Disk.Overwritten.at_end ?_
    rw [← hend, ← hholds]
    exact hafter
  have hput' : after' = Frame.spell payloads' ++ (Frame.ofPayload m'.payload).take n := by
    refine Disk.Overwritten.at_end ?_
    rw [← hend', ← hholds']
    exact hafter'
  rw [hput, hput']
  exact outline_put hall hall' hsame hpayload hpayload' hm.length n

/-! ## Runs -/

/-- Stores that are opened on disks that look alike look alike. -/
theorem alike_onDirectory {α : Type} {look : Bytes → α} {settings : Settings} {now : UInt64}
    {disk disk' : Disk} {monitor : Monitor} (hdisk : disk.Alike look disk')
    (hs : onDirectory settings now disk monitor = .ok s)
    (ht : onDirectory settings now disk' monitor = .ok t) : s.Alike look t := by
  simp only [onDirectory] at hs ht
  rw [hdisk.toSameTree.isDirectory, hdisk.toSameTree.segmentFiles] at ht
  by_cases hdirectory : disk.isDirectory settings.directory = true
  · rw [if_pos hdirectory] at hs ht
    cases hfound : segmentFiles disk settings.directory settings.stem with
    | error e =>
      rw [hfound] at hs
      cases hs
    | ok found =>
      rw [hfound] at hs ht
      cases hs
      cases ht
      rw [foldl_keepIdsAbove, foldl_keepIdsAbove]
      exact ⟨rfl, rfl, rfl, rfl, rfl, rfl, rfl, rfl, hdisk⟩
  · rw [if_neg hdirectory] at hs ht
    cases hs
    cases ht
    exact ⟨rfl, rfl, rfl, rfl, rfl, rfl, rfl, rfl, hdisk⟩

/-- **Payloads do not show.** Take two stores that were opened with the same settings at the same
time, on one disk, or on two whose files have the same outlines, and are the same where they cannot
be read to their ends. Let their callers make the same
requests, but for the bytes of the payloads, and let the same calls to the disk fail. Then every
request brings the same in both runs, be it a position or an error, and in the end the segments are
in the same states, as are the numbers to come and the monitors; the directories have the same
entries, and what lies at a path has the same size. If the settings are such that a log can be
opened with them, the files have the same outlines again, and a replay of them, from any floor on,
into a target that does not look at the bytes of payloads before it answers, reports the same or
fails the same way, and applies records that have the same positions and lengths. -/
theorem payloads_do_not_show {settings : Settings} {now : UInt64} {disk disk' : Disk}
    {monitor : Monitor} {opened opened' : Store}
    (hopen : onDirectory settings now disk monitor = .ok opened)
    (hopen' : onDirectory settings now disk' monitor = .ok opened')
    (hdisk : disk.WellFormed) (hsame : disk.Alike outline disk')
    {requests requests' : List Request}
    (hshape : List.Forall₂ Request.SameShape requests requests') :
    let s := opened.serveAll requests
    let t := opened'.serveAll requests'
    opened'.returnedAll requests' = opened.returnedAll requests ∧
      (t.table = s.table ∧ t.active = s.active ∧ t.spare = s.spare ∧ t.ids = s.ids ∧
        t.monitor = s.monitor) ∧
      Disk.SameTree s.disk t.disk ∧ (∀ p, t.disk.size p = s.disk.size p) ∧
      (settings.check = .ok () → s.disk.Alike outline t.disk ∧
        ∀ {σ : Type} (r : Replay) (target : Target σ) (rel : σ → σ → Prop) (paths : List Path)
          (state state' : σ), target.Blind rel → rel state state' →
            (r.run target t.disk paths state').1 = (r.run target s.disk paths state).1 ∧
              sizes (r.appliedByRun target t.disk paths state') =
                sizes (r.appliedByRun target s.disk paths state)) := by
  intro s t
  have hdisk' := hsame.toSameTree.wellFormed hdisk
  have hlengths : disk.Alike List.length disk' :=
    hsame.of_closer fun _ _ h => congrArg Outline.length h
  obtain ⟨hreturned, h⟩ := (alike_onDirectory hlengths hopen hopen').serveAll
    (I := fun s => s.Housed []) (fun _ request hs => hs.serve request)
    (fun _ _ hs _ h _ _ hm => hs.putAlike h hm) hshape
    (housed_onDirectory hopen hdisk) (housed_onDirectory hopen' hdisk')
  refine ⟨hreturned, ⟨h.table, h.active, h.spare, h.ids, h.monitor⟩, h.disk.toSameTree,
    h.disk.size, fun hchecked => ?_⟩
  obtain ⟨-, houtlines⟩ := (alike_onDirectory hsame hopen hopen').serveAll
    (I := Ready) (fun _ request hs => hs.serve request)
    (fun _ _ hs ht h _ _ hm => hs.putAlike ht h hm) hshape
    (ready_onDirectory hopen hdisk hchecked) (ready_onDirectory hopen' hdisk' hchecked)
  exact ⟨houtlines.disk, fun r target rel paths state state' hb hrel =>
    ⟨(Replay.run_alike hb houtlines.disk paths hrel).result,
      Replay.appliedByRun_alike hb houtlines.disk paths hrel⟩⟩

/-- A payload that is itself a frame, and one that begins with an end marker and is torn when its
write fails, show no more than others of their lengths; nor do they in a replay into a target that
refuses its second record, or into one that keeps all of them. -/
theorem payloads_do_not_show_frames :
    let settings : Settings := { directory := ⟨[Path.dot]⟩, segmentSize := 128 }
    let faults : Faults := { write := [none, some (14, .device)] }
    let opened := blank settings 5 faults
    let requests : List Request := [.append (.raw [⟨1⟩] (Frame.ofPayload [1])),
      .append (.raw [⟨2⟩] [0, 0, 0, 0, 7]), .append (.raw [⟨1⟩] [2])]
    let requests' : List Request := [.append (.raw [⟨1⟩] (.replicate 13 9)),
      .append (.raw [⟨2⟩] [1, 2, 3, 4, 5]), .append (.raw [⟨1⟩] [3])]
    let s := opened.serveAll requests
    let t := opened.serveAll requests'
    let paths := [(s.segment 0).path, (s.segment 1).path]
    let target := Recorder.target (some 2) false "full"
    let keeping : Target (List (Position × Bytes)) :=
      .total fun p payload kept => kept ++ [(p, payload)]
    List.Forall₂ Request.SameShape requests requests' ∧
      opened.returnedAll requests =
        [.ok (some ⟨5, 0⟩), .error (.io (.disk .device)), .ok (some ⟨6, 0⟩)] ∧
      opened.returnedAll requests' = opened.returnedAll requests ∧
      (s.disk.content 0).length = 39 ∧ t.disk.content 0 ≠ s.disk.content 0 ∧
      outline (t.disk.content 0) = outline (s.disk.content 0) ∧
      (Replay.run {} target t.disk paths {}).1 = (Replay.run {} target s.disk paths {}).1 ∧
      sizes (Replay.appliedByRun {} keeping t.disk paths []) =
        sizes (Replay.appliedByRun {} keeping s.disk paths []) := by
  intro settings faults opened requests requests' s t paths target keeping
  have hopen := onDirectory_blank (show settings.directory = ⟨[Path.dot]⟩ from rfl) 5 faults
  have hshape : List.Forall₂ Request.SameShape requests requests' :=
    .cons (.append ⟨rfl, by decide +kernel, by decide +kernel⟩)
      (.cons (.append ⟨rfl, rfl, rfl⟩) (.cons (.append ⟨rfl, rfl, rfl⟩) .nil))
  obtain ⟨hreturned, -, -, -, houtlines⟩ := payloads_do_not_show hopen hopen
    (Disk.wellFormed_empty _) (.refl outline _) hshape
  obtain ⟨halike, hreplays⟩ := houtlines (by decide)
  have hkeeping : keeping.NeverFails := ⟨Target.accepting_total _, fun _ => rfl⟩
  obtain ⟨hrefused, -⟩ := hreplays {} target _ paths {} {}
    (Recorder.blind_target (some 2) false "full") ⟨rfl, rfl⟩
  obtain ⟨-, hkept⟩ := hreplays {} keeping _ paths [] [] hkeeping.blind trivial
  exact ⟨hshape, by decide +kernel, hreturned, by decide +kernel, by decide +kernel,
    halike.content 0, hrefused, hkept⟩

end Store

end SegmentLog
