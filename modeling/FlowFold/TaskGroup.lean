/-! # Groups of tasks

A group runs a list of tasks, several at a time, and gives all their results in the
order of the list or one error. The tasks start in order. A task first looks whether
the group has been cancelled, and if so fails with a given error; otherwise it does
its work, and keeps the result in its own slot. The first failure of a task is kept as
the error of the group. A task that has failed then cancels the group, and it may take
its time to do so.

A run is given by the moves that the tasks make, in any order; a move that cannot be
made is skipped. `inOrder` is the run in which each task ends before the next starts.
-/

namespace FlowFold.TaskGroup

/-- How far a task has come. -/
inductive Phase where
  | waiting
  /-- It has started, and has not yet looked whether the group is cancelled. -/
  | started
  /-- It has seen that the group was not cancelled. -/
  | working
  /-- It has failed, and has not yet cancelled the group. -/
  | failed
  | ended
  deriving Repr, DecidableEq

inductive Move where
  | start (i : Nat)
  | look (i : Nat)
  | finish (i : Nat)
  | cancel (i : Nat)
  deriving Repr, DecidableEq

/-- A group at work: its tasks, their results, and how it fares. -/
structure State (ε β : Type) where
  phases : List Phase
  slots : List (Option β)
  error : Option ε
  cancelled : Bool

namespace State

variable {ε β : Type}

/-- A group of `n` tasks that has not started. It may have been cancelled before. -/
def init (n : Nat) (cancelled : Bool) : State ε β :=
  ⟨List.replicate n .waiting, List.replicate n none, none, cancelled⟩

def enter (s : State ε β) (i : Nat) (phase : Phase) : State ε β :=
  { s with phases := s.phases.set i phase }

/-- A task fails. The first error stays. -/
def fail (s : State ε β) (i : Nat) (e : ε) : State ε β :=
  { s.enter i .failed with error := some (s.error.getD e) }

def succeed (s : State ε β) (i : Nat) (r : β) : State ε β :=
  { s.enter i .ended with slots := s.slots.set i (some r) }

/-- How many tasks have started and not ended. -/
def active (s : State ε β) : Nat :=
  s.phases.countP fun phase => phase != .waiting && phase != .ended

/-- Whether a task may start: those before it have, and with a positive limit fewer
    than that are active. -/
def mayStart (s : State ε β) (limit : Int) (i : Nat) : Bool :=
  s.phases[i]? == some .waiting && (s.phases.take i).all (· != .waiting) &&
    (limit ≤ 0 || s.active < limit)

/-- Make a move, if it can be made. -/
def move (limit : Int) (work : Nat → Except ε β) (stopped : ε) (s : State ε β) :
    Move → State ε β
  | .start i => if s.mayStart limit i then s.enter i .started else s
  | .look i =>
      if s.phases[i]? == some .started then
        if s.cancelled then s.fail i stopped else s.enter i .working
      else s
  | .finish i =>
      if s.phases[i]? == some .working then
        match work i with
        | .ok r => s.succeed i r
        | .error e => s.fail i e
      else s
  | .cancel i =>
      if s.phases[i]? == some .failed then { s.enter i .ended with cancelled := true } else s

/-- What the group gives once all tasks have ended. -/
def outcome (s : State ε β) : Except ε (List β) :=
  match s.error with
  | some e => .error e
  | none => .ok (s.slots.filterMap id)

end State

/-- The moves of `n` tasks that run one after another. -/
def inOrder (n : Nat) : List Move :=
  (List.range n).flatMap fun i => [.start i, .look i, .finish i, .cancel i]

def run {ε β : Type} (limit : Int) (work : Nat → Except ε β) (stopped : ε) (n : Nat)
    (cancelled : Bool) (moves : List Move) : State ε β :=
  moves.foldl (State.move limit work stopped) (.init n cancelled)

end FlowFold.TaskGroup
