import Mathlib.Data.List.Basic
import Mathlib.Tactic.Tauto
import FlowFold.Pipeline

/-! # Every schedule of a group gives the same answer

The tasks of a group may be interleaved in any way. An error is kept before the group is
cancelled, so a task that finds the group cancelled comes too late to have its error kept:
the error of the group is always one that some work has given. A task that ends has put its
result into its slot, unless an error was kept. So once all tasks have ended, either there
is an error or no slot is empty.

A group never gets stuck: a task that has started can go on, and if there is none, the next
one can start.
-/

namespace FlowFold.TaskGroup

def Phase.left : Phase → Nat
  | waiting => 4
  | started => 3
  | working => 2
  | failed => 1
  | ended => 0

namespace State

variable {ε β : Type} {limit : Int} {work : Nat → Except ε β} {stopped : ε} {n i : Nat} {s s' : State ε β}

/-- All tasks have ended. -/
def Over (s : State ε β) : Prop := ∀ phase ∈ s.phases, phase = .ended

/-- The moves that change something. -/
inductive Step (limit : Int) (work : Nat → Except ε β) (stopped : ε) (s : State ε β) : State ε β → Prop where
  | start {i : Nat} (may : s.mayStart limit i = true) : Step limit work stopped s (s.enter i .started)
  | stop {i : Nat} (here : s.phases[i]? = some .started) (cancelled : s.cancelled = true) :
      Step limit work stopped s (s.fail i stopped)
  | proceed {i : Nat} (here : s.phases[i]? = some .started) (going : s.cancelled = false) :
      Step limit work stopped s (s.enter i .working)
  | succeed {i : Nat} {r : β} (here : s.phases[i]? = some .working) (done : work i = .ok r) :
      Step limit work stopped s (s.succeed i r)
  | fail {i : Nat} {e : ε} (here : s.phases[i]? = some .working) (failed : work i = .error e) :
      Step limit work stopped s (s.fail i e)
  | cancel {i : Nat} (here : s.phases[i]? = some .failed) :
      Step limit work stopped s { s.enter i .ended with cancelled := true }

theorem move_step (limit : Int) (work : Nat → Except ε β) (stopped : ε) (s : State ε β) (m : Move) :
    s.move limit work stopped m = s ∨ Step limit work stopped s (s.move limit work stopped m) := by
  cases m with
  | start i =>
      simp only [move]
      split
      · exact .inr (.start ‹_›)
      · exact .inl rfl
  | look i =>
      by_cases here : s.phases[i]? = some .started
      · cases going : s.cancelled with
        | true =>
            simp only [move, here, going, beq_self_eq_true, if_true]
            exact .inr (.stop here going)
        | false =>
            simp only [move, here, going, beq_self_eq_true, if_true]
            exact .inr (.proceed here going)
      · exact .inl (by simp [move, here])
  | finish i =>
      by_cases here : s.phases[i]? = some .working
      · cases result : work i with
        | ok r =>
            simp only [move, here, result, beq_self_eq_true, if_true]
            exact .inr (.succeed here result)
        | error e =>
            simp only [move, here, result, beq_self_eq_true, if_true]
            exact .inr (.fail here result)
      · exact .inl (by simp [move, here])
  | cancel i =>
      by_cases here : s.phases[i]? = some .failed
      · simp only [move, here, beq_self_eq_true, if_true]
        exact .inr (.cancel here)
      · exact .inl (by simp [move, here])

theorem phase_enter {phase other : Phase} {j : Nat} (here : (s.enter i phase).phases[j]? = some other) :
    i = j ∧ phase = other ∨ s.phases[j]? = some other := by
  rw [enter, List.getElem?_set] at here
  split at here
  · split at here
    · exact .inl ⟨‹_›, Option.some.inj here⟩
    · cases here
  · exact .inr here

/-! ## What holds along a run -/

/-- The error that is kept is one that some work has given, and no task is past its failure,
    and the group not cancelled, before an error is kept. A task that has ended has its
    result in its slot, unless an error is kept. -/
structure Sound (work : Nat → Except ε β) (n : Nat) (s : State ε β) : Prop where
  phases : s.phases.length = n
  slots : s.slots.length = n
  error : ∀ e, s.error = some e → ∃ i < n, work i = .error e
  cancelled : s.error = none → s.cancelled = false
  failed : s.error = none → ∀ i : Nat, s.phases[i]? ≠ some .failed
  ended : s.error = none → ∀ i : Nat, s.phases[i]? = some .ended →
    ∃ r, work i = .ok r ∧ s.slots[i]? = some (some r)

namespace Sound

theorem init (work : Nat → Except ε β) (n : Nat) : Sound work n (.init n false) where
  phases := List.length_replicate
  slots := List.length_replicate
  error := by simp [State.init]
  cancelled := fun _ => rfl
  failed := by simp [State.init, List.getElem?_replicate]
  ended := by simp [State.init, List.getElem?_replicate]

theorem enter (sound : s.Sound work n) {phase : Phase} (notFailed : phase ≠ .failed)
    (notEnded : phase ≠ .ended) : (s.enter i phase).Sound work n where
  phases := by simp [State.enter, sound.phases]
  slots := sound.slots
  error := sound.error
  cancelled := sound.cancelled
  failed := by
    intro none j here
    rcases phase_enter here with ⟨-, same⟩ | before
    · exact notFailed same
    · exact sound.failed none j before
  ended := by
    intro none j here
    rcases phase_enter here with ⟨-, same⟩ | before
    · exact absurd same notEnded
    · exact sound.ended none j before

/-- Once an error is kept, nothing is left to be shown of phases and slots. -/
theorem fail (sound : s.Sound work n) {e : ε} (given : s.error = none → ∃ i < n, work i = .error e) :
    (s.fail i e).Sound work n where
  phases := by simp [State.fail, State.enter, sound.phases]
  slots := sound.slots
  error := by
    intro e' kept
    cases before : s.error with
    | none =>
        obtain rfl : e = e' := by simpa [State.fail, before] using kept
        exact given before
    | some first =>
        obtain rfl : first = e' := by simpa [State.fail, before] using kept
        exact sound.error first before
  cancelled := nofun
  failed := nofun
  ended := nofun

theorem succeed (sound : s.Sound work n) (inside : i < n) {r : β} (done : work i = .ok r) :
    (s.succeed i r).Sound work n where
  phases := by simp [State.succeed, State.enter, sound.phases]
  slots := by simp [State.succeed, sound.slots]
  error := sound.error
  cancelled := sound.cancelled
  failed := by
    intro none j here
    rcases phase_enter here with ⟨-, same⟩ | before
    · cases same
    · exact sound.failed none j before
  ended := by
    intro none j here
    by_cases own : i = j
    · subst own
      exact ⟨r, done, by simp [State.succeed, sound.slots, inside]⟩
    · rcases phase_enter here with ⟨same, -⟩ | before
      · exact absurd same own
      · rw [State.succeed, List.getElem?_set_ne own]
        exact sound.ended none j before

/-- A task that cancels the group has failed, so an error is kept by then. -/
theorem cancel (sound : s.Sound work n) (here : s.phases[i]? = some .failed) :
    Sound work n { s.enter i .ended with cancelled := true } where
  phases := by simp [State.enter, sound.phases]
  slots := sound.slots
  error := sound.error
  cancelled := fun none => absurd here (sound.failed none i)
  failed := fun none => absurd here (sound.failed none i)
  ended := fun none => absurd here (sound.failed none i)

theorem lt_of_phase (sound : s.Sound work n) {phase : Phase} (here : s.phases[i]? = some phase) : i < n := by
  rw [← sound.phases]
  exact (List.getElem?_eq_some_iff.mp here).1

theorem step (sound : s.Sound work n) (step : Step limit work stopped s s') : s'.Sound work n := by
  cases step with
  | start may => exact sound.enter nofun nofun
  | proceed here going => exact sound.enter nofun nofun
  | stop here cancelled =>
      -- The group is cancelled, so an error is kept, and the task's own is dropped.
      exact sound.fail fun none => by simp [sound.cancelled none] at cancelled
  | succeed here done => exact sound.succeed (sound.lt_of_phase here) done
  | fail here failed => exact sound.fail fun _ => ⟨_, sound.lt_of_phase here, failed⟩
  | cancel here => exact sound.cancel here

theorem run (limit : Int) (work : Nat → Except ε β) (stopped : ε) (n : Nat) (moves : List Move) :
    Sound work n (TaskGroup.run limit work stopped n false moves) := by
  have along : ∀ s : State ε β, s.Sound work n → (moves.foldl (move limit work stopped) s).Sound work n := by
    induction moves with
    | nil => exact fun s sound => sound
    | cons m moves ih =>
        intro s sound
        rw [List.foldl_cons]
        apply ih
        rcases move_step limit work stopped s m with idle | step
        · rwa [idle]
        · exact sound.step step
  exact along _ (.init work n)

theorem map_work (sound : s.Sound work n) (finished : s.Over) (none : s.error = none) :
    (List.range n).map work = (s.slots.filterMap id).map .ok := by
  have filled : ∀ i < n, ∃ r, work i = .ok r ∧ s.slots[i]? = some (some r) := by
    intro i inside
    rw [← sound.phases] at inside
    exact sound.ended none i (by rw [List.getElem?_eq_getElem inside, finished _ (List.getElem_mem inside)])
  have slots : s.slots = (List.range n).map fun i => (work i).toOption := by
    apply List.ext_getElem?
    intro i
    by_cases inside : i < n
    · obtain ⟨r, done, slot⟩ := filled i inside
      simp [slot, inside, done, Except.toOption]
    · simp [inside, sound.slots]
  have results : ∀ l : List Nat, (∀ i ∈ l, i < n) →
      l.map work = ((l.map fun i => (work i).toOption).filterMap id).map .ok := by
    intro l
    induction l with
    | nil => exact fun _ => rfl
    | cons i l ih =>
        intro inside
        obtain ⟨r, done, -⟩ := filled i (inside i (.head _))
        simp [done, Except.toOption, ih fun j later => inside j (.tail _ later)]
  rw [slots]
  exact results _ fun i => List.mem_range.mp

theorem outcome_eq_ok (sound : s.Sound work n) (finished : s.Over) {results : List β} :
    s.outcome = .ok results ↔ (List.range n).map work = results.map .ok := by
  cases kept : s.error with
  | none =>
      rw [outcome, kept, sound.map_work finished kept, Except.ok.injEq]
      refine (List.map_injective_iff.mpr fun r r' same => ?_).eq_iff.symm
      exact Except.ok.inj same
  | some e =>
      obtain ⟨i, inside, failed⟩ := sound.error e kept
      refine ⟨fun ok => by simp [outcome, kept] at ok, fun same => ?_⟩
      have member : work i ∈ results.map .ok := by
        rw [← same]
        exact List.mem_map_of_mem (List.mem_range.mpr inside)
      simp [failed] at member

theorem outcome_error (sound : s.Sound work n) {e : ε} (error : s.outcome = .error e) :
    ∃ i < n, work i = .error e := by
  cases kept : s.error with
  | none => simp [outcome, kept] at error
  | some first =>
      obtain rfl : first = e := by simpa [outcome, kept] using error
      exact sound.error first kept

end Sound

/-! ## A group can always go on -/

/-- How many moves the tasks may still make. -/
def left (s : State ε β) : Nat := s.phases.foldr (fun phase n => phase.left + n) 0

theorem left_lt {phase : Phase} (here : s.phases[i]? = some phase) (next : Phase)
    (less : next.left < phase.left) (phases : s'.phases = s.phases.set i next) : s'.left < s.left := by
  rw [left, left, phases]
  clear phases
  generalize s.phases = l at here
  induction l generalizing i with
  | nil => cases here
  | cons first rest ih =>
      cases i with
      | zero =>
          cases here
          simpa using less
      | succ i => simpa using ih here

theorem active_moves {phase : Phase} (here : s.phases[i]? = some phase) (begun : phase ≠ .waiting)
    (going : phase ≠ .ended) : ∃ m, (s.move limit work stopped m).left < s.left := by
  cases phase with
  | waiting => exact absurd rfl begun
  | ended => exact absurd rfl going
  | started =>
      refine ⟨.look i, ?_⟩
      cases cancelled : s.cancelled with
      | true => exact left_lt here .failed (by decide) (by simp [move, here, cancelled, fail, enter])
      | false => exact left_lt here .working (by decide) (by simp [move, here, cancelled, enter])
  | working =>
      refine ⟨.finish i, ?_⟩
      cases result : work i with
      | ok r => exact left_lt here .ended (by decide) (by simp [move, here, result, succeed, enter])
      | error e => exact left_lt here .failed (by decide) (by simp [move, here, result, fail, enter])
  | failed => exact ⟨.cancel i, left_lt here .ended (by decide) (by simp [move, here, enter])⟩

/-- If no task is active, the first that is waiting may start, whatever the limit is. -/
theorem mayStart_of_idle (idle : ∀ phase ∈ s.phases, phase = .waiting ∨ phase = .ended)
    {before after : List Phase} (phases : s.phases = before ++ .waiting :: after)
    (begun : .waiting ∉ before) : s.mayStart limit before.length = true := by
  have inactive : s.active = 0 := by
    rw [active, List.countP_eq_zero]
    intro phase member
    rcases idle phase member with rfl | rfl <;> simp
  have free : limit ≤ 0 ∨ 0 < limit := by omega
  have others : ∀ phase ∈ before, phase ≠ .waiting := fun phase member is => begun (is ▸ member)
  simpa [mayStart, inactive, phases] using And.intro others free

theorem exists_move (limit : Int) (work : Nat → Except ε β) (stopped : ε) (notOver : ¬ s.Over) :
    ∃ m, (s.move limit work stopped m).left < s.left := by
  by_cases idle : ∀ phase ∈ s.phases, phase = .waiting ∨ phase = .ended
  · have waiting : .waiting ∈ s.phases := by
      by_contra none
      exact notOver fun phase member => (idle phase member).resolve_left fun is => none (is ▸ member)
    obtain ⟨before, after, phases, begun⟩ := List.eq_append_cons_of_mem waiting
    have may : s.mayStart limit before.length = true := mayStart_of_idle idle phases begun
    have here : s.phases[before.length]? = some .waiting := by simp [phases]
    exact ⟨.start before.length, left_lt here .started (by decide) (by simp [move, may, enter])⟩
  · push Not at idle
    obtain ⟨phase, member, begun, going⟩ := idle
    obtain ⟨i, here⟩ := List.mem_iff_getElem?.mp member
    exact active_moves here begun going

theorem exists_over (limit : Int) (work : Nat → Except ε β) (stopped : ε) (s : State ε β) :
    ∃ moves : List Move, (moves.foldl (move limit work stopped) s).Over := by
  by_cases finished : s.Over
  · exact ⟨[], finished⟩
  · obtain ⟨m, less⟩ := exists_move limit work stopped finished
    obtain ⟨moves, done⟩ := exists_over limit work stopped (s.move limit work stopped m)
    exact ⟨m :: moves, done⟩
termination_by s.left

/-! ## One task after another -/

/-- A task that starts when no other is active, and makes its moves at once, ends. -/
theorem phases_task (limit : Int) (work : Nat → Except ε β) (stopped : ε) {before after : List Phase}
    (phases : s.phases = before ++ .waiting :: after)
    (idle : ∀ phase ∈ s.phases, phase = .waiting ∨ phase = .ended) (begun : .waiting ∉ before) :
    ([.start before.length, .look before.length, .finish before.length, .cancel before.length].foldl
      (move limit work stopped) s).phases = before ++ .ended :: after := by
  have may : s.mayStart limit before.length = true := mayStart_of_idle idle phases begun
  cases cancelled : s.cancelled with
  | true => simp [move, may, enter, phases, cancelled, fail]
  | false =>
      cases result : work before.length with
      | ok r => simp [move, may, enter, phases, cancelled, result, succeed]
      | error e => simp [move, may, enter, phases, cancelled, result, fail]

theorem over_inOrder (limit : Int) (work : Nat → Except ε β) (stopped : ε) (n : Nat) (cancelled : Bool) :
    (run limit work stopped n cancelled (inOrder n)).Over := by
  have tasks : ∀ (k i : Nat) (s : State ε β),
      s.phases = List.replicate i .ended ++ List.replicate k .waiting →
      (((List.range' i k).flatMap fun i => [.start i, .look i, .finish i, .cancel i]).foldl
        (move limit work stopped) s).phases = List.replicate (i + k) .ended := by
    intro k
    induction k with
    | zero => simp
    | succ k ih =>
        intro i s phases
        have here : s.phases = List.replicate i .ended ++ .waiting :: List.replicate k .waiting := phases
        have idle : ∀ phase ∈ s.phases, phase = .waiting ∨ phase = .ended := by
          simp only [here, List.mem_append, List.mem_cons, List.mem_replicate]
          tauto
        have ended := phases_task limit work stopped here idle (by simp)
        rw [List.length_replicate] at ended
        have total : i + (k + 1) = i + 1 + k := by omega
        rw [List.range'_succ, List.flatMap_cons, List.foldl_append, total]
        apply ih
        rw [ended, List.replicate_succ', List.append_assoc]
        rfl
  intro phase member
  rw [run, inOrder, List.range_eq_range', tasks n 0 (.init n cancelled) rfl] at member
  exact List.eq_of_mem_replicate member

end State

end FlowFold.TaskGroup

namespace FlowFold.Options

theorem process_ne_cancelled (o : Options) (sample : Sample) : o.process sample ≠ .error .cancelled := by
  unfold process
  cases check sample.program [] with
  | error f => simp [Except.mapError, bind, Except.bind]
  | ok report =>
      simp only [Except.mapError, bind, Except.bind]
      split
      · simp
      · cases o.draw sample report.warnings <;> simp

theorem map_task (o : Options) (samples : List Sample) :
    (List.range samples.length).map (o.task samples) = samples.map o.process := by
  apply List.ext_getElem
  · simp
  · intro i inside _
    have inside : i < samples.length := by simpa using inside
    simp [task, inside]

/-- The tasks that process samples may interleave their starts, looks, ends and cancellations
    in any way, if the group is not cancelled from outside. Every interleaving can go on until
    all tasks have ended. Then the group gives the results of all samples in order, exactly
    if every sample has a result. Otherwise it gives the trouble of one of the samples, and
    never that it was cancelled. Processing the samples one after another is one of the
    interleavings. -/
theorem outcome_group (o : Options) (jobs : Int) (samples : List Sample) (moves : List TaskGroup.Move) :
    let s := o.group jobs false samples moves
    (∃ more, (o.group jobs false samples (moves ++ more)).Over) ∧
      (s.Over →
        (∀ results, s.outcome = .ok results ↔ samples.map o.process = results.map .ok) ∧
        ∀ trouble, s.outcome = .error trouble →
          trouble ≠ .cancelled ∧ ∃ sample ∈ samples, o.process sample = .error trouble) ∧
      (o.group jobs false samples (TaskGroup.inOrder samples.length)).Over := by
  intro s
  have sound := TaskGroup.State.Sound.run jobs (o.task samples) .cancelled samples.length moves
  refine ⟨?_, fun finished => ⟨?_, ?_⟩, TaskGroup.State.over_inOrder _ _ _ _ _⟩
  · obtain ⟨more, done⟩ := TaskGroup.State.exists_over jobs (o.task samples) .cancelled s
    refine ⟨more, ?_⟩
    rw [group, TaskGroup.run, List.foldl_append]
    exact done
  · intro results
    rw [← o.map_task samples]
    exact sound.outcome_eq_ok finished
  · intro trouble error
    obtain ⟨i, inside, failed⟩ := sound.outcome_error error
    have here : o.process samples[i] = .error trouble := by simpa [task, inside] using failed
    refine ⟨?_, samples[i], List.getElem_mem inside, here⟩
    rintro rfl
    exact o.process_ne_cancelled _ here

/-- Two programs that cannot be formed, and one that can. -/
def twoMalformed : List Sample :=
  [⟨"hole", "", .missing⟩, ⟨"stray", "", .foreign ⟨"Goto", "(goto 1)"⟩⟩, ⟨"one", "", .ret (.int 1)⟩]

/-- The second task fails before the first, and the third comes when the group is cancelled. -/
def lateCancel : List TaskGroup.Move :=
  [.start 0, .start 1, .look 0, .look 1, .finish 1, .finish 0, .cancel 1, .start 2, .look 2, .cancel 2,
    .cancel 0]

theorem outcome_group_lateCancel :
    let o : Options := ⟨.dot, 0, false⟩
    let s := o.group 2 false twoMalformed lateCancel
    s.Over ∧ ∃ trouble, s.outcome = .error trouble ∧
      trouble.message = "checking stray: program: unknown node: (goto 1)" ∧
      trouble ≠ .cancelled ∧ ∃ sample ∈ twoMalformed, o.process sample = .error trouble := by
  intro o s
  let hole : Trouble := .malformed "hole" ⟨.missingStmt, [], .stmt .missing⟩ []
  let stray : Trouble := .malformed "stray" ⟨.unknownNode, [], .stmt (.foreign ⟨"Goto", "(goto 1)"⟩)⟩ []
  have first : o.task twoMalformed 0 = .error hole := rfl
  have second : o.task twoMalformed 1 = .error stray := rfl
  have three : twoMalformed.length = 3 := rfl
  have state : s = ⟨[.ended, .ended, .ended], [none, none, none], some stray, true⟩ := by
    simp [s, group, TaskGroup.run, three, lateCancel, TaskGroup.State.init, TaskGroup.State.move,
      TaskGroup.State.mayStart, TaskGroup.State.active, TaskGroup.State.enter, TaskGroup.State.fail,
      first, second]
  have finished : s.Over := by simp [state, TaskGroup.State.Over]
  have error : s.outcome = .error stray := by rw [state, TaskGroup.State.outcome]
  obtain ⟨genuine, failing⟩ := ((outcome_group o 2 twoMalformed lateCancel).2.1 finished).2 stray error
  exact ⟨finished, stray, error, by decide, genuine, failing⟩

end FlowFold.Options
