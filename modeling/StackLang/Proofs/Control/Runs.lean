import Mathlib
import StackLang.Machine.Execution

/-!
# Runs, turn by turn

A run makes turns: it steps as long as something is scheduled, and then it lets
the callback run.  A run ends exactly if its turns lead to a machine that is done
or whose next step fails, and how many steps it may take does not matter beyond
that.
-/

namespace StackLang.Machine

open Relation (ReflTransGen)

/-- A run goes on from one machine to another: by a step, by a step in which the
host executes a statement of its own, or by scheduling the callback. -/
inductive Turn (host : HostOperators) (base : Nat) : Machine → Machine → Prop where
  | step {machine next : Machine} (hload : base < machine.execution.load)
    (hstep : step host machine = .finished (.ok () next)) : Turn host base machine next
  | nested {machine inner next : Machine} {token : Token} {resume : Outcome → Outcome}
    {fuel : Nat} {outcome : Outcome} (hload : base < machine.execution.load)
    (hstep : Machine.step host machine = .executing token inner resume)
    (hrun : run host fuel inner.execution.load (inner.schedule token) = some outcome)
    (hresume : resume (conclude inner.execution.load inner.depth outcome) = .ok () next) :
    Turn host base machine next
  | callback {machine : Machine} (hload : ¬ base < machine.execution.load)
    (hcallback : machine.callback.isVoid = false) :
    Turn host base machine { machine.schedule machine.callback with callback := .void }

/-- A run ends at a machine: it is done, or its next step fails. -/
inductive Ends (host : HostOperators) (base : Nat) : Machine → Outcome → Prop where
  | done {machine : Machine} (hload : ¬ base < machine.execution.load)
    (hcallback : machine.callback.isVoid = true) : Ends host base machine (.ok () machine)
  | failed {machine next : Machine} {failure : Failure}
    (hload : base < machine.execution.load)
    (hstep : step host machine = .finished (.error failure next)) :
    Ends host base machine (.error failure next)
  | nested {machine inner next : Machine} {token : Token} {resume : Outcome → Outcome}
    {fuel : Nat} {outcome : Outcome} {failure : Failure}
    (hload : base < machine.execution.load)
    (hstep : Machine.step host machine = .executing token inner resume)
    (hrun : run host fuel inner.execution.load (inner.schedule token) = some outcome)
    (hresume : resume (conclude inner.execution.load inner.depth outcome) =
      .error failure next) :
    Ends host base machine (.error failure next)

variable {host : HostOperators} {base fuel : Nat} {machine next : Machine} {outcome : Outcome}

/-- A run that ends ends alike when it may take more steps. -/
theorem run_succ (hrun : run host fuel base machine = some outcome) :
    run host (fuel + 1) base machine = some outcome := by
  induction fuel generalizing base machine outcome with
  | zero => cases hrun
  | succ fuel ih =>
    rw [run] at hrun ⊢
    by_cases hload : base < machine.execution.load
    · simp only [hload, if_true] at hrun ⊢
      cases hstep : step host machine with
      | finished result =>
        rw [hstep] at hrun
        cases result with
        | ok value next => exact ih hrun
        | error failure next => exact hrun
      | executing token inner resume =>
        rw [hstep] at hrun
        simp only at hrun ⊢
        -- The statement inside gets the same number of steps, so the induction serves it too.
        cases hinner : run host fuel inner.execution.load (inner.schedule token) with
        | none => simp [hinner] at hrun
        | some ended =>
          rw [hinner] at hrun
          rw [ih hinner]
          simp only at hrun ⊢
          cases hresume : resume (conclude inner.execution.load inner.depth ended) with
          | ok value next =>
            rw [hresume] at hrun
            exact ih hrun
          | error failure next =>
            rw [hresume] at hrun
            exact hrun
    · simp only [hload, if_false] at hrun ⊢
      cases hcallback : machine.callback with
      | void => simpa [hcallback] using hrun
      | datum value attributes =>
        simp only [hcallback] at hrun ⊢
        exact ih hrun

theorem run_mono {more : Nat} (hle : fuel ≤ more)
    (hrun : run host fuel base machine = some outcome) :
    run host more base machine = some outcome := by
  induction hle with
  | refl => exact hrun
  | step _ ih => exact run_succ ih

theorem run_unique {other : Nat} {result : Outcome}
    (hrun : run host fuel base machine = some outcome)
    (hother : run host other base machine = some result) : outcome = result := by
  have hfirst := run_mono (Nat.le_max_left fuel other) hrun
  have hsecond := run_mono (Nat.le_max_right fuel other) hother
  exact Option.some.inj (hfirst.symm.trans hsecond)

/-- After a turn a run goes on from the next machine. -/
theorem run_of_turn (hturn : Turn host base machine next)
    (hrun : run host fuel base next = some outcome) :
    ∃ more, run host more base machine = some outcome := by
  cases hturn with
  | step hload hstep => exact ⟨fuel + 1, by rw [run, if_pos hload, hstep]; exact hrun⟩
  | nested hload hstep hinner hresume =>
    rename_i inner token resume own ended
    have hinner' := run_mono (Nat.le_max_right fuel own) hinner
    have hrun' := run_mono (Nat.le_max_left fuel own) hrun
    refine ⟨max fuel own + 1, ?_⟩
    rw [run, if_pos hload, hstep]
    simp only [hinner', hresume]
    exact hrun'
  | callback hload hcallback =>
    refine ⟨fuel + 1, ?_⟩
    rw [run, if_neg hload]
    cases hpending : machine.callback with
    | void => simp [hpending, Token.isVoid] at hcallback
    | datum value attributes =>
      rw [hpending] at hrun
      exact hrun

theorem run_of_ends (hends : Ends host base machine outcome) :
    ∃ fuel, run host fuel base machine = some outcome := by
  cases hends with
  | done hload hcallback =>
    refine ⟨1, ?_⟩
    rw [run, if_neg hload]
    cases hpending : machine.callback with
    | void => rfl
    | datum value attributes => simp [hpending, Token.isVoid] at hcallback
  | failed hload hstep => exact ⟨1, by rw [run, if_pos hload, hstep]⟩
  | nested hload hstep hinner hresume =>
    rename_i inner next token resume own ended failure
    refine ⟨own + 1, ?_⟩
    rw [run, if_pos hload, hstep]
    simp only [hinner, hresume]

/-- A run makes a turn or ends. -/
theorem turn_or_ends (hrun : run host (fuel + 1) base machine = some outcome) :
    Ends host base machine outcome ∨
      ∃ next, Turn host base machine next ∧ run host fuel base next = some outcome := by
  rw [run] at hrun
  by_cases hload : base < machine.execution.load
  · simp only [hload, if_true] at hrun
    cases hstep : step host machine with
    | finished result =>
      rw [hstep] at hrun
      cases result with
      | ok value next => exact .inr ⟨next, .step hload hstep, hrun⟩
      | error failure next =>
        obtain rfl := Option.some.inj hrun
        exact .inl (.failed hload hstep)
    | executing token inner resume =>
      rw [hstep] at hrun
      simp only at hrun
      cases hinner : run host fuel inner.execution.load (inner.schedule token) with
      | none => simp [hinner] at hrun
      | some ended =>
        rw [hinner] at hrun
        simp only at hrun
        cases hresume : resume (conclude inner.execution.load inner.depth ended) with
        | ok value next =>
          rw [hresume] at hrun
          exact .inr ⟨next, .nested hload hstep hinner hresume, hrun⟩
        | error failure next =>
          rw [hresume] at hrun
          obtain rfl := Option.some.inj hrun
          exact .inl (.nested hload hstep hinner hresume)
  · simp only [hload, if_false] at hrun
    cases hcallback : machine.callback with
    | void =>
      simp only [hcallback] at hrun
      obtain rfl := Option.some.inj hrun
      exact .inl (.done hload (by rw [hcallback]; rfl))
    | datum value attributes =>
      have hturn : Turn host base machine _ := .callback hload (by rw [hcallback]; rfl)
      rw [hcallback] at hturn
      simp only [hcallback] at hrun
      exact .inr ⟨_, hturn, hrun⟩

/-- A run ends with an outcome exactly if turns lead to a machine where it does. -/
theorem exists_run_iff :
    (∃ fuel, run host fuel base machine = some outcome) ↔
      ∃ last, ReflTransGen (Turn host base) machine last ∧ Ends host base last outcome := by
  constructor
  · rintro ⟨fuel, hrun⟩
    induction fuel generalizing machine with
    | zero => cases hrun
    | succ fuel ih =>
      obtain hends | ⟨next, hturn, hnext⟩ := turn_or_ends hrun
      · exact ⟨machine, .refl, hends⟩
      · obtain ⟨last, hturns, hends⟩ := ih hnext
        exact ⟨last, .head hturn hturns, hends⟩
  · rintro ⟨last, hturns, hends⟩
    induction hturns using ReflTransGen.head_induction_on with
    | refl => exact run_of_ends hends
    | head hturn _ ih =>
      obtain ⟨fuel, hrun⟩ := ih
      exact run_of_turn hturn hrun

/-- How a machine goes on and where it ends. -/
structure Course where
  turn : Machine → Machine → Prop
  ends : Machine → Outcome → Prop

namespace Course

/-- A machine goes on, turn by turn, until it ends. -/
def Comes (course : Course) (machine : Machine) (ended : Outcome) : Prop :=
  ∃ last, ReflTransGen course.turn machine last ∧ course.ends last ended

/-- At most one thing can come next. -/
structure Deterministic (course : Course) : Prop where
  turn : ∀ {machine next other : Machine}, course.turn machine next →
    course.turn machine other → next = other
  ends : ∀ {machine : Machine} {ended other : Outcome}, course.ends machine ended →
    course.ends machine other → ended = other
  parted : ∀ {machine next : Machine} {ended : Outcome}, course.turn machine next →
    ¬ course.ends machine ended

theorem Deterministic.unique {course : Course} (hcourse : course.Deterministic)
    {machine : Machine} {ended other : Outcome} (hended : course.Comes machine ended)
    (hother : course.Comes machine other) : ended = other := by
  obtain ⟨last, hturns, hends⟩ := hended
  obtain ⟨final, hagain, hstops⟩ := hother
  induction hturns using ReflTransGen.head_induction_on with
  | refl =>
    obtain rfl | ⟨next, hturn, -⟩ := hagain.cases_head
    · exact hcourse.ends hends hstops
    · exact absurd hends (hcourse.parted hturn)
  | head hturn _ ih =>
    obtain rfl | ⟨next, hnext, hrest⟩ := hagain.cases_head
    · exact absurd hstops (hcourse.parted hturn)
    · obtain rfl := hcourse.turn hturn hnext
      exact ih hrest

/-- The course of a run. -/
def running (host : HostOperators) (base : Nat) : Course :=
  ⟨Turn host base, Ends host base⟩

end Course

theorem deterministic_running : (Course.running host base).Deterministic where
  turn := fun hturn hother => by
    -- Whether the stack is drained tells callbacks from steps, and what the step comes to tells
    -- steps that execute a statement from those that do not.
    cases hturn with
    | step hload hstep =>
      cases hother with
      | step _ hagain =>
        cases hstep.symm.trans hagain
        rfl
      | nested _ hagain => cases hstep.symm.trans hagain
      | callback hdrained => exact absurd hload hdrained
    | nested hload hstep hrun hresume =>
      cases hother with
      | step _ hagain => cases hstep.symm.trans hagain
      | nested _ hagain hrerun hother =>
        cases hstep.symm.trans hagain
        obtain rfl := run_unique hrun hrerun
        cases hresume.symm.trans hother
        rfl
      | callback hdrained => exact absurd hload hdrained
    | callback hload =>
      cases hother with
      | step hstanding | nested hstanding => exact absurd hstanding hload
      | callback => rfl
  ends := fun hended hother => by
    obtain ⟨fuel, hrun⟩ := run_of_ends hended
    obtain ⟨more, hagain⟩ := run_of_ends hother
    exact run_unique hrun hagain
  parted := fun hturn hended => by
    cases hturn with
    | step hload hstep =>
      cases hended with
      | done hdrained => exact absurd hload hdrained
      | failed _ hagain | nested _ hagain => cases hstep.symm.trans hagain
    | nested hload hstep hrun hresume =>
      cases hended with
      | done hdrained => exact absurd hload hdrained
      | failed _ hagain => cases hstep.symm.trans hagain
      | nested _ hagain hrerun hother =>
        cases hstep.symm.trans hagain
        obtain rfl := run_unique hrun hrerun
        cases hresume.symm.trans hother
    | callback hload hcallback =>
      cases hended with
      | done _ hvoid => exact absurd (hcallback.symm.trans hvoid) (by decide)
      | failed hstanding | nested hstanding => exact absurd hstanding hload

end StackLang.Machine
