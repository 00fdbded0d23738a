import SegmentLog.Proofs.Log.Session
import SegmentLog.Proofs.Store.Requests

/-!
# Starts and stops that overlap

A log is started and stopped by any number of callers at once. A start is one step. A stop is
several: it takes the worker out of the log, and after that, while others may start and stop the
log again, it detaches the store, tells the worker to end, awaits its end, and ends the use of the
store. The workers go on in between.

The worker that was started is known in two places: the log knows that it is there, and the store,
whom to send its chores to. A stop that was overtaken by a start detaches the store from the worker
of that start. Nothing else brings the two apart, and no worker is left behind.

* `Stopping.advance`, `Lifecycle.step` — the steps;
* `Lifecycle.stop_alone` — a stop whose steps nothing comes between is `Log.stop`;
* `Lifecycle.Kept` — where the workers are that have not ended, and which one is attached;
* `Lifecycle.attached_iff_started_iff` — when the two places agree.
-/

namespace SegmentLog

/-! ## The steps -/

/-- How far a stop has come. -/
inductive Stopping where
  /-- It has taken the worker out of the log. -/
  | detaching (w : WorkerId)
  /-- It has detached the store. -/
  | telling (w : WorkerId)
  /-- It has told the worker to end. -/
  | joining (w : WorkerId)
  /-- No worker is left whose end it would have to await. -/
  | finishing
  | returned (result : Except LogError Unit)

namespace Stopping

/-- A stop that has just taken what was there. -/
def taking : Option WorkerId → Stopping
  | some w => .detaching w
  | none => .finishing

/-- The worker that a stop has taken and not seen end yet. -/
def worker : Stopping → Option WorkerId
  | .detaching w => some w
  | .telling w => some w
  | .joining w => some w
  | .finishing => none
  | .returned _ => none

def isReturned : Stopping → Bool
  | .returned _ => true
  | _ => false

/-- A stop goes on, unless it has to wait or has returned. -/
def advance (t : Stopping) (l : Log) : Option (Stopping × Log) :=
  match t with
  | .detaching w => some (.telling w, l.detach)
  | .telling w => some (.joining w, l.dismiss w)
  | .joining w => if w ∈ l.alive then none else some (.finishing, l)
  | .finishing =>
    match l.store.finish with
    | (r, store) => some (.returned r, { l with store })
  | .returned _ => none

end Stopping

/-- A log with all the stops under way. -/
structure Lifecycle where
  log : Log
  /-- The stops, in the order in which they have begun. -/
  stops : List Stopping := []

/-- What can happen next to a log that is started and stopped. -/
inductive Turn where
  | start
  /-- A stop begins and takes the worker. -/
  | stop
  /-- The stop with this number goes on. -/
  | goOn (i : Nat)
  /-- A worker does the oldest chore that was sent to it. -/
  | work (w : WorkerId)
  /-- The interval of a worker is over. -/
  | tick (w : WorkerId)

namespace Lifecycle

/-- What becomes of a log when something happens, if it can. -/
def step (c : Lifecycle) : Turn → Option Lifecycle
  | .start => some { c with log := c.log.start }
  | .stop =>
    match c.log.takeWorker with
    | (w, log) => some { log, stops := c.stops ++ [.taking w] }
  | .goOn i =>
    (c.stops[i]?.bind (·.advance c.log)).map fun (t, log) => { log, stops := c.stops.set i t }
  | .work w => some { c with log := c.log.workerStep w }
  | .tick w => some { c with log := c.log.tick w }

end Lifecycle

/-! ## What a worker changes -/

namespace Store

/-- A chore changes neither who is attached nor what was sent. -/
theorem perform_eq (s : Store) (c : Chore) :
    (s.perform c).attached = s.attached ∧ (s.perform c).mail = s.mail := by
  cases c with
  | stockSpare =>
    obtain ⟨ids, table, disk, monitor, spare, he⟩ := s.stockSpare_eq
    rw [perform, he]
    exact ⟨rfl, rfl⟩
  | sync =>
    obtain ⟨table, disk, monitor, he⟩ := syncEach_eq false s.active s
    rw [perform, syncActive, he]
    exact ⟨rfl, rfl⟩
  | finish => exact ⟨rfl, rfl⟩

end Store

namespace Log

variable {l l' : Log}

/-- Whether nothing has changed but that chores were done, and that a worker may have ended that
was told to. -/
structure Works (l l' : Log) : Prop where
  worker : l'.worker = l.worker
  workers : l'.workers = l.workers
  attached : l'.store.attached = l.store.attached
  mail : l'.store.mail ⊆ l.store.mail
  alive : l'.alive = l.alive ∨
    ∃ w, (w, .finish) ∈ l.store.mail ∧ l'.alive = l.alive.erase w

/-- What a worker does with the oldest chore that was sent to it. -/
theorem workerStep_cases (l : Log) (w : WorkerId) :
    (l.workerStep w = l ∧ (w ∈ l.alive → l.store.mail.find? (·.1 == w) = none)) ∨
      w ∈ l.alive ∧ ∃ c, l.store.mail.find? (·.1 == w) = some (w, c) ∧
        (c = .finish ∧ l.workerStep w =
            { l with store := { l.store with mail := l.store.mail.erase (w, c) }
                     alive := l.alive.erase w } ∨
          c ≠ .finish ∧ l.workerStep w =
            { l with store := { l.store with mail := l.store.mail.erase (w, c) }.perform c }) := by
  rw [workerStep]
  split
  · rename_i hw
    cases hfind : l.store.mail.find? (·.1 == w) with
    | none => exact .inl ⟨rfl, fun _ => rfl⟩
    | some m =>
      obtain ⟨v, c⟩ := m
      obtain rfl : v = w := by simpa using List.find?_some hfind
      refine .inr ⟨hw, c, rfl, ?_⟩
      by_cases hc : c = .finish
      · exact .inl ⟨hc, by simp only [hc, if_true]⟩
      · exact .inr ⟨hc, by simp only [if_neg hc]⟩
  · rename_i hw
    exact .inl ⟨rfl, fun h => absurd h hw⟩

theorem works_workerStep (l : Log) (w : WorkerId) : l.Works (l.workerStep w) := by
  rcases l.workerStep_cases w with ⟨he, -⟩ | ⟨-, c, hfind, ⟨rfl, he⟩ | ⟨-, he⟩⟩
  · rw [he]
    exact ⟨rfl, rfl, rfl, List.Subset.refl _, .inl rfl⟩
  · rw [he]
    exact ⟨rfl, rfl, rfl, List.erase_subset, .inr ⟨w, List.mem_of_find?_eq_some hfind, rfl⟩⟩
  · obtain ⟨hattached, hmail⟩ :=
      { l.store with mail := l.store.mail.erase (w, c) }.perform_eq c
    rw [he]
    refine ⟨rfl, rfl, hattached, ?_, .inl rfl⟩
    rw [hmail]
    exact List.erase_subset

theorem works_tick (l : Log) (w : WorkerId) : l.Works (l.tick w) := by
  rw [tick]
  split
  · obtain ⟨hattached, hmail⟩ := l.store.perform_eq .sync
    obtain ⟨hattached', hmail'⟩ := (l.store.perform .sync).perform_eq .stockSpare
    refine ⟨rfl, rfl, hattached'.trans hattached, ?_, .inl rfl⟩
    rw [hmail', hmail]
    exact List.Subset.refl _
  · exact ⟨rfl, rfl, rfl, List.Subset.refl _, .inl rfl⟩

/-- A start of a log that is not started attaches a new worker, and sends it one chore at most. -/
theorem start_cases (l : Log) (h : l.worker = none) :
    ∃ mail, l.start =
        { store := { l.store with attached := some l.workers, mail }
          worker := some l.workers, alive := l.alive ++ [l.workers], workers := l.workers + 1 } ∧
      ∀ m ∈ mail, m ∈ l.store.mail ∨ m = (l.workers, .stockSpare) := by
  by_cases hahead : l.store.settings.lookAhead = true
  · refine ⟨l.store.mail ++ [(l.workers, .stockSpare)], ?_, fun m hm => ?_⟩
    · simp only [start, h, hahead, if_true]
      rfl
    · exact (List.mem_append.mp hm).imp_right List.mem_singleton.mp
  · refine ⟨l.store.mail, ?_, fun m hm => .inl hm⟩
    simp only [start, h, if_neg hahead]

theorem works_finish (l : Log) : l.Works { l with store := l.store.finish.2 } := by
  obtain ⟨table, disk, monitor, spare, he⟩ := l.store.finish_eq
  rw [he]
  exact ⟨rfl, rfl, rfl, List.Subset.refl _, .inl rfl⟩

/-- A worker that was told to end has ended when every chore that was sent is done: with each chore
of its own, one fewer is left for it. -/
theorem not_mem_alive_foldl {w : WorkerId} (mail : List (WorkerId × Chore))
    (hnodup : l.alive.Nodup) (h : w ∈ l.alive → (w, .finish) ∈ l.store.mail ∧
      l.store.mail.countP (·.1 == w) ≤ mail.countP (·.1 == w)) :
    w ∉ (mail.foldl (fun l m => l.workerStep m.1) l).alive := by
  induction mail generalizing l with
  | nil =>
    intro hw
    obtain ⟨hfinish, hcount⟩ := h hw
    have hpos : 0 < l.store.mail.countP (·.1 == w) :=
      List.countP_pos_iff.mpr ⟨_, hfinish, beq_self_eq_true w⟩
    exact absurd (Nat.lt_of_lt_of_le hpos hcount) (Nat.lt_irrefl 0)
  | cons m rest ih =>
    have hcons : ((m :: rest).countP (·.1 == w)) =
        rest.countP (·.1 == w) + if m.1 = w then 1 else 0 := by
      simp only [List.countP_cons, beq_iff_eq]
    rw [List.foldl_cons]
    have herased : ∀ c, l.store.mail.find? (·.1 == m.1) = some (m.1, c) →
        l.store.mail.countP (·.1 == w) =
          (l.store.mail.erase (m.1, c)).countP (·.1 == w) + if m.1 = w then 1 else 0 := by
      intro c hfind
      rw [(List.perm_cons_erase (List.mem_of_find?_eq_some hfind)).countP_eq]
      simp only [List.countP_cons, beq_iff_eq]
    rcases l.workerStep_cases m.1 with ⟨he, hnone⟩ | ⟨hm, c, hfind, ⟨rfl, he⟩ | ⟨hc, he⟩⟩
    · rw [he]
      refine ih hnodup fun hw => ?_
      obtain ⟨hfinish, hcount⟩ := h hw
      by_cases hmw : m.1 = w
      · -- there is a chore for the worker, so it has done one
        rw [hmw] at hnone
        exact absurd (beq_self_eq_true w) (List.find?_eq_none.mp (hnone hw) _ hfinish)
      · rw [hcons, if_neg hmw] at hcount
        exact ⟨hfinish, hcount⟩
    · rw [he]
      refine ih (hnodup.erase m.1) fun hw => ?_
      have hmw : m.1 ≠ w := by
        rintro rfl
        exact hnodup.not_mem_erase hw
      obtain ⟨hfinish, hcount⟩ := h (List.mem_of_mem_erase hw)
      rw [hcons, herased _ hfind, if_neg hmw] at hcount
      refine ⟨(List.mem_erase_of_ne fun he => ?_).mpr hfinish, hcount⟩
      exact hmw (congrArg Prod.fst he).symm
    · obtain ⟨-, hmail⟩ := { l.store with mail := l.store.mail.erase (m.1, c) }.perform_eq c
      rw [he]
      refine ih hnodup fun hw => ?_
      obtain ⟨hfinish, hcount⟩ := h hw
      rw [hcons, herased c hfind] at hcount
      rw [hmail]
      refine ⟨(List.mem_erase_of_ne fun he => ?_).mpr hfinish, Nat.le_of_add_le_add_right hcount⟩
      exact hc (congrArg Prod.snd he).symm

theorem not_mem_alive_settle (hnodup : l.alive.Nodup) {w : WorkerId}
    (h : (w, .finish) ∈ l.store.mail) : w ∉ l.settle.alive :=
  not_mem_alive_foldl l.store.mail hnodup fun _ => ⟨h, Nat.le_refl _⟩

end Log

/-! ## A stop that nothing comes between -/

namespace Lifecycle

theorem work_alone (stops : List Stopping) (mail : List (WorkerId × Chore)) (l : Log) :
    Relation.ReflTransGen (fun c c' : Lifecycle => ∃ a, c.step a = some c') { log := l, stops }
      { log := mail.foldl (fun l m => l.workerStep m.1) l, stops } := by
  induction mail generalizing l with
  | nil => exact .refl
  | cons m rest ih => exact (ih (l.workerStep m.1)).head ⟨.work m.1, rfl⟩

theorem goOn_alone {t t' : Stopping} {l l' : Log} (h : t.advance l = some (t', l')) :
    ∃ a, Lifecycle.step { log := l, stops := [t] } a = some { log := l', stops := [t'] } := by
  refine ⟨.goOn 0, ?_⟩
  show Option.map _ (t.advance l) = _
  rw [h]
  rfl

/-- A stop between whose steps only workers go on is the whole of `Log.stop`. -/
theorem stop_alone {l : Log} (hl : l.alive.Nodup) :
    Relation.ReflTransGen (fun c c' : Lifecycle => ∃ a, c.step a = some c') { log := l }
      { log := l.stop.2, stops := [.returned l.stop.1] } := by
  obtain ⟨store, worker, alive, workers⟩ := l
  cases worker with
  | none => exact .head ⟨.stop, rfl⟩ (.head (goOn_alone rfl) .refl)
  | some w =>
    have hended : w ∉ ((({ store, alive, workers } : Log).detach.dismiss w).settle).alive := by
      refine Log.not_mem_alive_settle ?_ (List.mem_append_right _ List.mem_cons_self)
      exact hl
    have hjoin : Stopping.advance (.joining w)
        (({ store, alive, workers } : Log).detach.dismiss w).settle =
          some (.finishing, (({ store, alive, workers } : Log).detach.dismiss w).settle) :=
      if_neg hended
    have hworked := work_alone [.joining w]
      (({ store, alive, workers } : Log).detach.dismiss w).store.mail
      (({ store, alive, workers } : Log).detach.dismiss w)
    exact .head ⟨.stop, rfl⟩ (.head (goOn_alone rfl) (.head (goOn_alone rfl)
      (hworked.trans (.head (goOn_alone hjoin) (.head (goOn_alone rfl) .refl)))))

end Lifecycle

/-! ## Where the workers are -/

namespace Lifecycle

variable {c c' : Lifecycle}

/-- Every worker that has not ended is the one that was started, or a stop has taken it; and only
the one that was started, or one that is about to be detached, is attached. -/
structure Kept (c : Lifecycle) : Prop where
  nodup : c.log.alive.Nodup
  known : ∀ w ∈ c.log.alive, w < c.log.workers
  addressed : ∀ m ∈ c.log.store.mail, m.1 < c.log.workers
  /-- The worker that was started has not ended, and is not told to. -/
  started : ∀ w, c.log.worker = some w → w ∈ c.log.alive ∧ (w, .finish) ∉ c.log.store.mail
  /-- A worker that a stop has taken is not the one that was started. -/
  taken : ∀ t ∈ c.stops, ∀ w, t.worker = some w → w < c.log.workers ∧ c.log.worker ≠ some w
  owned : ∀ w ∈ c.log.alive, c.log.worker = some w ∨ ∃ t ∈ c.stops, t.worker = some w
  attached : ∀ w, c.log.store.attached = some w →
    c.log.worker = some w ∨ .detaching w ∈ c.stops

theorem Kept.works (hc : c.Kept) {l : Log} (h : c.log.Works l) : Kept { c with log := l } := by
  have hsublist : ∀ w ∈ l.alive, w ∈ c.log.alive := by
    intro w hw
    rcases h.alive with he | ⟨v, -, he⟩
    · rwa [he] at hw
    · rw [he] at hw
      exact List.mem_of_mem_erase hw
  constructor
  · rcases h.alive with he | ⟨v, -, he⟩
    · rw [he]
      exact hc.nodup
    · rw [he]
      exact hc.nodup.erase v
  · intro w hw
    rw [h.workers]
    exact hc.known w (hsublist w hw)
  · intro m hm
    rw [h.workers]
    exact hc.addressed m (h.mail hm)
  · intro w hw
    rw [h.worker] at hw
    obtain ⟨halive, hnot⟩ := hc.started w hw
    refine ⟨?_, fun hm => hnot (h.mail hm)⟩
    rcases h.alive with he | ⟨v, hv, he⟩
    · rwa [he]
    · rw [he]
      refine (List.mem_erase_of_ne ?_).mpr halive
      -- the worker that was started is not told to end
      rintro rfl
      exact hnot hv
  · intro t ht w hw
    rw [h.workers, h.worker]
    exact hc.taken t ht w hw
  · intro w hw
    rw [h.worker]
    exact hc.owned w (hsublist w hw)
  · intro w hw
    rw [h.attached] at hw
    rw [h.worker]
    exact hc.attached w hw

theorem Kept.start (hc : c.Kept) : Kept { c with log := c.log.start } := by
  cases hw : c.log.worker with
  | some w => rwa [Log.start_of_started (by rw [Log.isStarted, hw]; rfl)]
  | none =>
    obtain ⟨mail, hstart, hmail⟩ := c.log.start_cases hw
    rw [hstart]
    constructor
    · refine List.nodup_append.mpr ⟨hc.nodup, List.pairwise_singleton _ _, fun v hv u hu => ?_⟩
      rw [List.mem_singleton.mp hu]
      exact Nat.ne_of_lt (hc.known v hv)
    · intro v hv
      rcases List.mem_append.mp hv with hv | hv
      · exact Nat.lt_succ_of_lt (hc.known v hv)
      · rw [List.mem_singleton.mp hv]
        exact Nat.lt_succ_self _
    · intro m hm
      rcases hmail m hm with hm | rfl
      · exact Nat.lt_succ_of_lt (hc.addressed m hm)
      · exact Nat.lt_succ_self _
    · intro v hv
      cases hv
      refine ⟨List.mem_append_right _ List.mem_cons_self, fun hm => ?_⟩
      rcases hmail _ hm with hm | hm
      · exact Nat.lt_irrefl _ (hc.addressed _ hm)
      · cases hm
    · intro t ht v hv
      have hlt := (hc.taken t ht v hv).1
      refine ⟨Nat.lt_succ_of_lt hlt, fun he => ?_⟩
      cases he
      exact Nat.lt_irrefl _ hlt
    · intro v hv
      rcases List.mem_append.mp hv with hv | hv
      · rcases hc.owned v hv with h | h
        · rw [hw] at h
          cases h
        · exact .inr h
      · rw [List.mem_singleton.mp hv]
        exact .inl rfl
    · intro v hv
      cases hv
      exact .inl rfl

theorem Kept.take (hc : c.Kept) :
    Kept { log := c.log.takeWorker.2, stops := c.stops ++ [.taking c.log.worker] } := by
  have htaking : ∀ w, (Stopping.taking c.log.worker).worker = some w ↔ c.log.worker = some w := by
    intro w
    cases c.log.worker with
    | none => rfl
    | some v => rfl
  constructor
  · exact hc.nodup
  · exact hc.known
  · exact hc.addressed
  · exact fun _ h => nomatch h
  · intro t ht w hw
    refine ⟨?_, nofun⟩
    rcases List.mem_append.mp ht with ht | ht
    · exact (hc.taken t ht w hw).1
    · rw [List.mem_singleton.mp ht] at hw
      exact hc.known w (hc.started w ((htaking w).mp hw)).1
  · intro w hw
    rcases hc.owned w hw with h | ⟨t, ht, h⟩
    · exact .inr ⟨_, List.mem_append_right _ List.mem_cons_self, (htaking w).mpr h⟩
    · exact .inr ⟨t, List.mem_append_left _ ht, h⟩
  · intro w hw
    rcases hc.attached w hw with h | h
    · refine .inr (List.mem_append_right _ ?_)
      rw [h]
      exact List.mem_cons_self
    · exact .inr (List.mem_append_left _ h)

theorem Kept.detach (hc : c.Kept) : Kept { c with log := c.log.detach } :=
  { hc with attached := fun _ h => nomatch h }

theorem Kept.dismiss (hc : c.Kept) {t : Stopping} (ht : t ∈ c.stops) {w : WorkerId}
    (hw : t.worker = some w) : Kept { c with log := c.log.dismiss w } := by
  obtain ⟨hknown, hother⟩ := hc.taken t ht w hw
  refine { hc with addressed := fun m hm => ?_, started := fun v hv => ?_ }
  · rcases List.mem_append.mp hm with hm | hm
    · exact hc.addressed m hm
    · rw [List.mem_singleton.mp hm]
      exact hknown
  · obtain ⟨halive, hnot⟩ := hc.started v hv
    refine ⟨halive, fun hm => ?_⟩
    rcases List.mem_append.mp hm with hm | hm
    · exact hnot hm
    · cases List.mem_singleton.mp hm
      exact hother hv

/-- A stop is replaced by one that holds the same worker, or none if that worker has ended. -/
theorem Kept.putStop (hc : c.Kept) {i : Nat} {t t' : Stopping} (ht : c.stops[i]? = some t)
    (hsame : ∀ w, t'.worker = some w → t.worker = some w)
    (hended : ∀ w ∈ c.log.alive, t.worker = some w → t'.worker = some w)
    (hdetached : ∀ w, t = .detaching w → c.log.store.attached ≠ some w) :
    Kept { c with stops := c.stops.set i t' } := by
  have hother : ∀ u ∈ c.stops, u ≠ t → u ∈ c.stops.set i t' := by
    intro u hu hne
    obtain ⟨j, hj⟩ := List.mem_iff_getElem?.mp hu
    have hij : i ≠ j := by
      rintro rfl
      exact hne (Option.some.inj (hj.symm.trans ht))
    refine List.mem_of_getElem? (i := j) ?_
    rw [List.getElem?_set_ne hij, hj]
  have hnew : t' ∈ c.stops.set i t' := List.mem_set (List.getElem?_eq_some_iff.mp ht).1 t'
  refine { hc with taken := fun u hu w hw => ?_, owned := fun w hw => ?_,
                   attached := fun w hw => ?_ }
  · rcases List.mem_or_eq_of_mem_set hu with hu | rfl
    · exact hc.taken u hu w hw
    · exact hc.taken t (List.mem_of_getElem? ht) w (hsame w hw)
  · refine (hc.owned w hw).imp_right ?_
    rintro ⟨u, hu, hholds⟩
    by_cases hut : u = t
    · rw [hut] at hholds
      exact ⟨t', hnew, hended w hw hholds⟩
    · exact ⟨u, hother u hu hut, hholds⟩
  · exact (hc.attached w hw).imp_right fun h =>
      hother _ h fun he => hdetached w he.symm hw

/-- A stop that goes on leaves no worker behind. -/
theorem Kept.goOn (hc : c.Kept) {i : Nat} {t t' : Stopping} {l : Log} (ht : c.stops[i]? = some t)
    (h : t.advance c.log = some (t', l)) : Kept { log := l, stops := c.stops.set i t' } := by
  cases t with
  | detaching w =>
    cases h
    exact hc.detach.putStop ht (fun _ h => h) (fun _ _ h => h) (fun _ _ h => nomatch h)
  | telling w =>
    cases h
    exact (hc.dismiss (List.mem_of_getElem? ht) rfl).putStop ht (fun _ h => h) (fun _ _ h => h)
      (fun _ h => nomatch h)
  | joining w =>
    simp only [Stopping.advance] at h
    split at h
    · cases h
    · rename_i hgone
      cases h
      refine hc.putStop ht (fun _ h => nomatch h) (fun v hv h => ?_) (fun _ h => nomatch h)
      cases h
      exact absurd hv hgone
  | finishing =>
    cases h
    exact (hc.works c.log.works_finish).putStop ht (fun _ h => nomatch h) (fun _ _ h => nomatch h)
      (fun _ h => nomatch h)
  | returned r => cases h

/-- Whatever happens, every worker is accounted for. -/
theorem Kept.step (hc : c.Kept) {a : Turn} (h : c.step a = some c') : c'.Kept := by
  cases a with
  | start =>
    cases h
    exact hc.start
  | stop =>
    cases h
    exact hc.take
  | goOn i =>
    simp only [Lifecycle.step, Option.map_eq_some_iff, Option.bind_eq_some_iff] at h
    obtain ⟨_, ⟨t, ht, hadvance⟩, rfl⟩ := h
    exact hc.goOn ht hadvance
  | work w =>
    cases h
    exact hc.works (c.log.works_workerStep w)
  | tick w =>
    cases h
    exact hc.works (c.log.works_tick w)

/-! ## Which worker is attached -/

/-- Whether, after a step, a stop has detached the store since the worker that is started was
started. -/
def overtakes (c : Lifecycle) (a : Turn) (overtaken : Bool) : Bool :=
  match a with
  | .start => c.log.isStarted && overtaken
  | .goOn i =>
    match c.stops[i]? with
    | some (.detaching _) => c.log.isStarted || overtaken
    | _ => overtaken
  | _ => overtaken

/-- The states that a log comes to after it was opened, whatever its callers and its workers do,
each with whether a stop has detached the store since the worker that is started was started. -/
inductive Reached : Lifecycle → Bool → Prop where
  | opened {settings : Settings} {now : UInt64} {disk d : Disk} {monitor m : Monitor} {l : Log} :
      Log.onDirectory settings now disk monitor = (.ok l, d, m) → Reached { log := l } false
  | step {c c' : Lifecycle} {overtaken : Bool} {a : Turn} :
      Reached c overtaken → c.step a = some c' → Reached c' (c.overtakes a overtaken)

/-- The worker that was started is attached, unless the store was detached since. -/
def Agrees (c : Lifecycle) (overtaken : Bool) : Prop :=
  ∀ w, c.log.worker = some w → c.log.store.attached = if overtaken then none else some w

theorem Agrees.works {overtaken : Bool} (hc : c.Agrees overtaken) {l : Log} (h : c.log.Works l)
    (stops : List Stopping) : Agrees { log := l, stops } overtaken := by
  intro w hw
  rw [h.worker] at hw
  rw [h.attached]
  exact hc w hw

theorem Agrees.goOn {overtaken : Bool} (hc : c.Agrees overtaken) {i : Nat} {t t' : Stopping}
    {l : Log} (ht : c.stops[i]? = some t) (h : t.advance c.log = some (t', l))
    (stops : List Stopping) :
    Agrees { log := l, stops } (c.overtakes (.goOn i) overtaken) := by
  cases t with
  | detaching w =>
    cases h
    intro v hv
    have hstarted : c.log.isStarted = true := Option.isSome_iff_exists.mpr ⟨v, hv⟩
    simp only [overtakes, ht, hstarted, Bool.true_or, if_true]
    rfl
  | telling w =>
    cases h
    simp only [overtakes, ht]
    exact hc
  | joining w =>
    simp only [Stopping.advance] at h
    split at h
    · cases h
    · cases h
      simp only [overtakes, ht]
      exact hc
  | finishing =>
    cases h
    simp only [overtakes, ht]
    exact hc.works c.log.works_finish stops
  | returned r => cases h

theorem Agrees.start {overtaken : Bool} (hc : c.Agrees overtaken) :
    Agrees { c with log := c.log.start } (c.log.isStarted && overtaken) := by
  cases hw : c.log.worker with
  | some w =>
    have hstarted : c.log.isStarted = true := by rw [Log.isStarted, hw]; rfl
    rw [Log.start_of_started hstarted, hstarted, Bool.true_and]
    exact hc
  | none =>
    obtain ⟨mail, hstart, -⟩ := c.log.start_cases hw
    have hnot : c.log.isStarted = false := by rw [Log.isStarted, hw]; rfl
    rw [hstart, hnot]
    intro v hv
    cases hv
    rfl

theorem Agrees.step {overtaken : Bool} (hc : c.Agrees overtaken) {a : Turn}
    (h : c.step a = some c') : c'.Agrees (c.overtakes a overtaken) := by
  cases a with
  | start =>
    cases h
    exact hc.start
  | stop =>
    cases h
    exact fun _ hw => nomatch hw
  | goOn i =>
    simp only [Lifecycle.step, Option.map_eq_some_iff, Option.bind_eq_some_iff] at h
    obtain ⟨_, ⟨t, ht, hadvance⟩, rfl⟩ := h
    exact hc.goOn ht hadvance _
  | work w =>
    cases h
    exact hc.works (c.log.works_workerStep w) _
  | tick w =>
    cases h
    exact hc.works (c.log.works_tick w) _

theorem Reached.kept {overtaken : Bool} (h : Reached c overtaken) :
    c.Kept ∧ c.Agrees overtaken := by
  induction h with
  | opened hopen =>
    obtain ⟨-, -, hl, hstore⟩ := Log.onDirectory_cases hopen
    obtain ⟨found, hs, -⟩ := Store.onDirectory_cases hstore
    rw [hl, hs]
    exact ⟨⟨.nil, nofun, nofun, nofun, nofun, nofun, nofun⟩, nofun⟩
  | step _ hstep ih => exact ⟨ih.1.step hstep, ih.2.step hstep⟩

/-- What becomes of a log when some things happen one after the other, and whether a stop has
detached the store since the worker that is started was started. -/
def follow : List Turn → Lifecycle × Bool → Option (Lifecycle × Bool)
  | [], x => some x
  | a :: rest, (c, overtaken) =>
    match c.step a with
    | none => none
    | some c' => follow rest (c', c.overtakes a overtaken)

theorem Reached.follow {turns : List Turn} {overtaken : Bool} (h : Reached c overtaken)
    {x : Lifecycle × Bool} (hrun : Lifecycle.follow turns (c, overtaken) = some x) :
    Reached x.1 x.2 := by
  induction turns generalizing c overtaken with
  | nil =>
    cases hrun
    exact h
  | cons a rest ih =>
    rw [Lifecycle.follow] at hrun
    split at hrun
    · cases hrun
    · rename_i hstep
      exact ih (h.step hstep) hrun

/-- **Starts and stops that overlap leave no worker behind.** Take a log that was opened, and any
starts and stops of any number of callers, which may overlap in any way. Whenever no stop is under
way, no worker has not ended but the one that was started, if there is one. It is attached, unless
the store was detached since it was started, by a stop that had taken an earlier worker. So just
where this is not the case, a worker that has not ended is attached if and only if the log is
started. -/
theorem attached_iff_started_iff {overtaken : Bool} (h : Reached c overtaken)
    (hidle : ∀ t ∈ c.stops, t.isReturned = true) :
    c.log.alive = c.log.worker.toList ∧
      (c.log.store.attached = if overtaken then none else c.log.worker) ∧
      (((∃ w ∈ c.log.alive, c.log.store.attached = some w) ↔ c.log.isStarted = true) ↔
        ¬ (overtaken = true ∧ c.log.isStarted = true)) := by
  obtain ⟨hkept, hagrees⟩ := h.kept
  have hfree : ∀ t ∈ c.stops, ∀ w, t.worker ≠ some w := by
    intro t ht w hw
    have hreturned := hidle t ht
    cases t with
    | returned r => cases hw
    | detaching | telling | joining | finishing => cases hreturned
  have halive : ∀ w ∈ c.log.alive, c.log.worker = some w := by
    intro w hw
    rcases hkept.owned w hw with h | ⟨t, ht, h⟩
    · exact h
    · exact absurd h (hfree t ht w)
  cases hw : c.log.worker with
  | none =>
    have hnone : c.log.alive = [] := by
      refine List.eq_nil_iff_forall_not_mem.mpr fun w hmem => ?_
      rw [halive w hmem] at hw
      cases hw
    have hdetached : c.log.store.attached = none := by
      refine Option.eq_none_iff_forall_ne_some.mpr fun w hattached => ?_
      rcases hkept.attached w hattached with h | h
      · rw [h] at hw
        cases hw
      · exact hfree _ h w rfl
    rw [hnone, hdetached, Log.isStarted, hw]
    simp
  | some w =>
    have hone : c.log.alive = [w] := by
      refine List.perm_singleton.mp ((List.perm_ext_iff_of_nodup hkept.nodup
        (List.pairwise_singleton _ _)).mpr fun v => ⟨fun hv => ?_, fun hv => ?_⟩)
      · have hv := halive v hv
        rw [hw] at hv
        cases hv
        exact List.mem_cons_self
      · rw [List.mem_singleton.mp hv]
        exact (hkept.started w hw).1
    rw [hone, hagrees w hw, Log.isStarted, hw]
    cases overtaken <;> simp

/-- A stop has detached the store when the log is started again, and ends the earlier worker after
that. A second stop finds no worker. The worker of the second start is attached. -/
theorem attached_iff_started_iff_restarted :
    ∃ c, Reached c false ∧ (∀ t ∈ c.stops, t.isReturned = true) ∧ c.log.alive = [1] ∧
      c.log.isStarted = true ∧ c.log.store.attached = some 1 := by
  have hrun : (follow [.start, .stop, .stop, .goOn 0, .start, .goOn 0, .work 0, .goOn 1, .work 0,
      .goOn 0, .goOn 0, .work 1]
      ({ log := { store := .blank { directory := ⟨[Path.dot]⟩, segmentSize := 64 } 5 } },
        false)).isSome = true := by decide +kernel
  obtain ⟨hnever, hidle, hstarted, halive⟩ : (Option.get _ hrun).2 = false ∧
      (∀ t ∈ (Option.get _ hrun).1.stops, t.isReturned = true) ∧
      (Option.get _ hrun).1.log.isStarted = true ∧ (Option.get _ hrun).1.log.alive = [1] := by
    decide +kernel +revert
  have hreached := Reached.follow
    (.opened (Log.onDirectory_blank rfl (by decide +kernel) 5 {})) (Option.some_get hrun).symm
  rw [hnever] at hreached
  obtain ⟨-, -, hagree⟩ := attached_iff_started_iff hreached hidle
  obtain ⟨w, hw, hattached⟩ := (hagree.mpr fun h => nomatch h.1).mpr hstarted
  rw [halive] at hw
  rw [List.mem_singleton.mp hw] at hattached
  exact ⟨_, hreached, hidle, halive, hstarted, hattached⟩

/-- A stop takes the worker, the log is started again, and only then the stop detaches the store.
Every call has returned, and the worker of the second start is not attached. -/
theorem started_without_attached :
    ∃ c overtaken, Reached c overtaken ∧ (∀ t ∈ c.stops, t.isReturned = true) ∧
      c.log.alive = [1] ∧ c.log.isStarted = true ∧ c.log.store.attached = none := by
  have hrun : (follow [.start, .stop, .start, .goOn 0, .goOn 0, .work 0, .work 0, .goOn 0, .goOn 0]
      ({ log := { store := .blank { directory := ⟨[Path.dot]⟩, segmentSize := 64 } 5 } },
        false)).isSome = true := by decide +kernel
  have hend : (∀ t ∈ (Option.get _ hrun).1.stops, t.isReturned = true) ∧
      (Option.get _ hrun).1.log.alive = [1] ∧ (Option.get _ hrun).1.log.isStarted = true ∧
      (Option.get _ hrun).1.log.store.attached = none := by
    decide +kernel +revert
  exact ⟨_, _, Reached.follow (.opened (Log.onDirectory_blank rfl (by decide +kernel) 5 {}))
    (Option.some_get hrun).symm, hend⟩

end Lifecycle

end SegmentLog
