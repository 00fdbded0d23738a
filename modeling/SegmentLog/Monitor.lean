import SegmentLog.LogError

/-!
# Failure policy

What a node does when its commit log cannot be written. Before the node has started it leaves
quietly, whatever the policy says; after that the policy decides: `stop` takes the node out of
its cluster and keeps the process alive, `die` ends the process, `ignore` carries on. A `Monitor`
holds the policy and the phase, and keeps every action it has taken.

* `report_notStarted`, `report_started` — the action that a failure leads to;
* `failures_report` — every failure is counted once.
-/

namespace SegmentLog

/-- How a node that has started answers a failure of its log. -/
inductive Policy where
  | stop
  | die
  | ignore
  deriving DecidableEq, Repr, Inhabited

namespace Policy

/-- The word for a policy. -/
def word : Policy → String
  | .stop => "stop"
  | .die => "die"
  | .ignore => "ignore"

/-- A policy as it is shown in the state of a monitor. -/
def label : Policy → String
  | .stop => "Stop"
  | .die => "Die"
  | .ignore => "Ignore"

/-- A character with an ASCII capital made small. -/
def small (c : Char) : Char := if 'A' ≤ c ∧ c ≤ 'Z' then Char.ofNat (c.toNat + 32) else c

/-- Reads the word for a policy; ASCII capitals count as small letters. -/
def parse (s : String) : Except LogError Policy :=
  let w := String.ofList (s.toList.map small)
  if w = stop.word then .ok .stop
  else if w = die.word then .ok .die
  else if w = ignore.word then .ok .ignore
  else .error (.settings (.unknownPolicy w))

end Policy

/-- How far a node has come in starting. -/
inductive Phase where
  | notStarted
  | started
  deriving DecidableEq, Repr, Inhabited

/-- A phase as it is shown in the state of a monitor. -/
def Phase.label : Phase → String
  | .notStarted => "NotStarted"
  | .started => "Started"

/-- What was done about a failure. -/
inductive Action where
  /-- The process was ended, quietly if the node had not started. -/
  | terminated (quiet : Bool)
  /-- The node left its cluster. -/
  | stoppedParticipation
  | ignored
  deriving DecidableEq, Repr

/-- An action as text. -/
def Action.label : Action → String
  | .terminated quiet => s!"Terminated \x7b quiet: {quiet} \x7d"
  | .stoppedParticipation => "StoppedParticipation"
  | .ignored => "Ignored"

/-- Watches over the failures of the logs of one node. -/
structure Monitor where
  policy : Policy
  phase : Phase := .notStarted
  /-- What was done about each failure so far, in order. -/
  actions : List Action := []
  deriving DecidableEq, Repr, Inhabited

namespace Monitor

/-- The status with which a process ends that a failure has ended. -/
def exitStatus : Nat := 100

/-- What is done about a failure. -/
def answer (m : Monitor) : Action :=
  match m.phase, m.policy with
  | .notStarted, _ => .terminated true
  | .started, .stop => .stoppedParticipation
  | .started, .die => .terminated false
  | .started, .ignore => .ignored

/-- Answers a failure. -/
def report (m : Monitor) : Monitor := { m with actions := m.actions ++ [m.answer] }

/-- How many failures were answered. -/
def failures (m : Monitor) : Nat := m.actions.length

/-- The node has started. -/
def nodeStarted (m : Monitor) : Monitor := { m with phase := .started }

/-- A monitor as text. -/
def display (m : Monitor) : String :=
  s!"FailureHandler \x7b policy: {m.policy.label}, phase: {m.phase.label}, " ++
    s!"failures: {m.failures} \x7d"

theorem failures_report (m : Monitor) : m.report.failures = m.failures + 1 := by
  simp [failures, report]

theorem report_notStarted {m : Monitor} (h : m.phase = .notStarted) :
    m.report.actions = m.actions ++ [.terminated true] := by
  simp [report, answer, h]

theorem report_started {m : Monitor} (h : m.phase = .started) :
    m.report.actions = m.actions ++ [match m.policy with
      | .stop => .stoppedParticipation
      | .die => .terminated false
      | .ignore => .ignored] := by
  cases hp : m.policy <;> simp [report, answer, h, hp]

end Monitor

end SegmentLog
