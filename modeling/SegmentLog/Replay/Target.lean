import SegmentLog.LogError

/-!
# Targets of a replay

A target is the store that takes in what is replayed: it applies one record after the other, and
is told to flush when the last one was applied. It may refuse either with a reason.
-/

namespace SegmentLog

/-- A store with state `σ` that records are replayed into. -/
structure Target (σ : Type) where
  /-- Takes in one record. -/
  apply : Position → Bytes → σ → Except String Unit × σ
  /-- Brings what was taken in to stable storage. -/
  flush : σ → Except String Unit × σ

namespace Target

/-- A target that has nothing to flush. -/
def ofApply {σ : Type} (apply : Position → Bytes → σ → Except String Unit × σ) :
    Target σ :=
  ⟨apply, fun s => (.ok (), s)⟩

/-- A target that takes in every record. -/
def total {σ : Type} (apply : Position → Bytes → σ → σ) : Target σ :=
  ofApply fun p payload s => (.ok (), apply p payload s)

end Target

/-- What a recording target has taken in. -/
structure Recorder where
  applied : List (Position × Bytes) := []
  /-- How often it was asked to apply a record. -/
  calls : Nat := 0
  /-- How often it was told to flush. -/
  flushes : Nat := 0
  deriving DecidableEq, Repr, Inhabited

namespace Recorder

/-- A target that keeps what it takes in. It refuses the record with the given number, counted
from one, and the flush if told so. -/
def target (refused : Option Nat) (refuseFlush : Bool) (reason : String) : Target Recorder where
  apply p payload r :=
    let r := { r with calls := r.calls + 1 }
    if refused = some r.calls then (.error reason, r)
    else (.ok (), { r with applied := r.applied ++ [(p, payload)] })
  flush r :=
    let r := { r with flushes := r.flushes + 1 }
    (if refuseFlush then .error reason else .ok (), r)

end Recorder

end SegmentLog
