import StackLang.Proofs.Control.Fresh
import StackLang.Proofs.Control.Reports
import StackLang.Proofs.Control.Simulation

/-!
# Statements on machines that agree

A statement begins where nothing else is scheduled.  However it ends, unless it
faults, nothing is scheduled afterwards and as many frames count as open as
before.  So two machines that agreed before a statement agree behind it.

A machine that fails has to tell about its frames first.  Of two machines with different
frames one may not be able to, and dies where the other one returns the error.
-/

namespace StackLang

variable {leeway : Leeway}

/-- A host whose operators do nothing. -/
def HostOperators.inert : HostOperators := fun _ machine =>
  .finished (.ok () machine)

/-- Nothing is scheduled while some frames count as open. -/
def Control.idle (depth : Nat) : Control :=
  ⟨[], depth⟩

theorem Control.unmarked_idle (depth : Nat) : (idle depth).Unmarked := by
  intro token hmem
  cases hmem

/-- Two statements end alike: with the same result and with machines that agree and have
nothing scheduled, or with the same fault.  Either may die of what the leeway allows it, and
unless the machines keep together, it may die of telling about the frames it had open where
the other one returns the error. -/
inductive Concluded (leeway : Leeway) (depth : Nat) : Outcome → Outcome → Prop where
  | ok {left right : Machine}
    (hpaired : Paired leeway (.idle depth) (.idle depth) left right) :
    Concluded leeway depth (.ok () left) (.ok () right)
  | error {error : Error} {left right : Machine}
    (hpaired : Paired leeway (.idle depth) (.idle depth) left right) :
    Concluded leeway depth (.error (.error error) left) (.error (.error error) right)
  | fault {fault : Fault} {left right : Machine} :
    Concluded leeway depth (.error (.fault fault) left) (.error (.fault fault) right)
  | faultLeft {fault : Fault} {left : Machine} {other : Outcome} (hleeway : leeway.left fault) :
    Concluded leeway depth (.error (.fault fault) left) other
  | faultRight {fault : Fault} {right : Machine} {other : Outcome}
    (hleeway : leeway.right fault) : Concluded leeway depth other (.error (.fault fault) right)
  | untoldLeft {error : Error} {left right : Machine} (hgait : leeway.gait = .apart)
    (huntold : left.backtrace? 0 error = none)
    (hpaired : Paired leeway (.idle depth) (.idle depth) (left.discarded 0 depth) right) :
    Concluded leeway depth (.error (.fault .endlessText) left) (.error (.error error) right)
  | untoldRight {error : Error} {left right : Machine} (hgait : leeway.gait ≠ .level)
    (huntold : right.backtrace? 0 error = none)
    (hpaired : Paired leeway (.idle depth) (.idle depth) left (right.discarded 0 depth)) :
    Concluded leeway depth (.error (.error error) left) (.error (.fault .endlessText) right)

/-- Two machines fail in a statement: whatever the right one can tell about its frames, the
left one can, unless they are apart, and the other way round if they are level. -/
structure Failing (leeway : Leeway) (left right : Machine) : Prop where
  alike : Alike leeway left right
  toldRight : leeway.gait ≠ .apart → ∀ error, (right.backtrace? 0 error).isSome →
    (left.backtrace? 0 error).isSome
  toldLeft : leeway.gait = .level → ∀ error, (left.backtrace? 0 error).isSome →
    (right.backtrace? 0 error).isSome

theorem Matched.failing {depth : Nat} {left right : Machine}
    (hmatched : Matched leeway (.idle depth) (.idle depth) left right) :
    Failing leeway left right where
  alike := hmatched.alike
  toldRight := fun _ error => (hmatched.isSome_backtrace? error).1
  toldLeft := fun hlevel error => (hmatched.isSome_backtrace? error).2 hlevel

theorem Alike.failing {left right : Machine} (halike : Alike leeway left right)
    (hgait : leeway.gait = .apart) : Failing leeway left right where
  alike := halike
  toldRight := fun hne => absurd hgait hne
  toldLeft := fun hlevel => by cases hgait.symm.trans hlevel

/-- Alike machines that execute the same token are matched. -/
theorem Matched.of_schedule {first second : Control} {left right : Machine}
    (hpaired : Paired leeway first second left right) {token : Token} (htoken : token.Plain) :
    Matched leeway first second (left.schedule token) (right.schedule token) :=
  ⟨some token, [], [], .nil, by simp, by simpa using htoken, hpaired.schedule token⟩

namespace Machine

theorem control_discarded (depth : Nat) (machine : Machine) :
    (machine.discarded 0 depth).control = .idle depth := by
  have hload : machine.execution.items.drop machine.execution.load = [] :=
    List.drop_eq_nil_of_le (Nat.le_of_eq machine.execution.load_eq.symm)
  have hitems : (machine.discarded 0 depth).execution.items =
      machine.execution.items.drop machine.execution.load := rfl
  rw [control, hitems, hload]
  rfl

theorem execute_idle {depth : Nat} {machine : Machine} (hidle : machine.control = .idle depth)
    (host : HostOperators) (fuel : Nat) (token : Token) :
    execute host fuel token machine =
      (run host fuel 0 (machine.schedule token)).map (conclude 0 depth) := by
  obtain ⟨hitems, hdepth⟩ : machine.execution.items = [] ∧ machine.depth = depth :=
    Control.mk.inj hidle
  have hload : machine.execution.load = 0 := by rw [machine.execution.load_eq, hitems]; rfl
  rw [execute, hload, hdepth]

/-- However many steps a statement may take, it ends in one way. -/
theorem execute_unique {host : HostOperators} {fuel other : Nat} {token : Token}
    {machine : Machine} {ended result : Outcome}
    (hexecute : execute host fuel token machine = some ended)
    (hother : execute host other token machine = some result) : ended = result := by
  obtain ⟨last, hrun, rfl⟩ := Option.map_eq_some_iff.1 hexecute
  obtain ⟨final, hagain, rfl⟩ := Option.map_eq_some_iff.1 hother
  rw [run_unique hrun hagain]

end Machine

/-- What a statement leaves behind when it is given up agrees like the machines themselves. -/
theorem Alike.discarded {left right : Machine} (halike : Alike leeway left right) (depth : Nat) :
    Paired leeway (.idle depth) (.idle depth) (left.discarded 0 depth)
      (right.discarded 0 depth) where
  alike := halike.withControl _ _ _ _
  left := Machine.control_discarded depth _
  right := Machine.control_discarded depth _

theorem Agree.concluded {depth : Nat} {ended other : Outcome}
    (hagree : Agree leeway (Failing leeway)
      (fun _ => Paired leeway (.idle depth) (.idle depth)) ended other) :
    Concluded leeway depth (Machine.conclude 0 depth ended) (Machine.conclude 0 depth other) := by
  cases hagree with
  | ok hpaired => exact .ok hpaired
  | @error error left right hfailing =>
    have hright := fun hgait => hfailing.toldRight hgait error
    have hleft := fun hlevel => hfailing.toldLeft hlevel error
    have hdiscarded := (hfailing.alike.discarded depth).report (.statementFailed error)
      (.statementFailed error)
    have hprompt := fun hgait => (hdiscarded.alike.voice hgait).prompt
    simp only [Machine.conclude, EStateM.run, Machine.abandon_eq]
    cases htext : left.backtrace? 0 error with
    | none =>
      cases hother : right.backtrace? 0 error with
      | none => exact .fault
      | some text =>
        have hgait : leeway.gait = .apart := by
          by_contra hgait
          simpa [htext, hother] using hright hgait
        exact .untoldLeft hgait (by rw [Machine.backtrace?_report, htext])
          (hdiscarded.restated (.refl _) (.emit .backtrace text _) hprompt)
    | some text =>
      cases hother : right.backtrace? 0 error with
      | none =>
        have hgait : leeway.gait ≠ .level := fun hlevel => by
          simpa [htext, hother] using hleft hlevel
        exact .untoldRight hgait (by rw [Machine.backtrace?_report, hother])
          (hdiscarded.restated (.emit .backtrace text _) (.refl _) hprompt)
      | some other =>
        exact .error (hdiscarded.restated (.emit .backtrace text _) (.emit .backtrace other _)
          hprompt)
  | fault => exact .fault
  | faultLeft hleeway => exact .faultLeft hleeway
  | faultRight hleeway => exact .faultRight hleeway

theorem DiesOf.conclude {faults : Fault → Prop} {base depth : Nat} {ended : Outcome}
    (hdies : DiesOf faults ended) : DiesOf faults (Machine.conclude base depth ended) := by
  obtain ⟨fault, machine, hfault, rfl⟩ := hdies.exists_fault
  exact hfault

namespace Paired

variable {depth fuel : Nat} {left right : Machine} {host : HostOperators} {token : Token}
  {ended : Outcome}

/-- What two machines come to that agree while nothing is scheduled, when they run the same
token. -/
theorem run_schedule_endAlike (hpaired : Paired leeway (.idle depth) (.idle depth) left right)
    (htoken : token.Plain) (host : HostOperators) :
    EndAlike leeway (Failing leeway) (Paired leeway (.idle depth) (.idle depth))
      (fun ended => ∃ fuel, Machine.run host fuel 0 (left.schedule token) = some ended)
      (fun ended => ∃ fuel, Machine.run host fuel 0 (right.schedule token) = some ended) :=
  ((Matched.of_schedule hpaired htoken).run_endAlike (Control.unmarked_idle depth)
    (Control.unmarked_idle depth) host).imp (fun _ _ => Matched.failing) fun _ _ => id

/-- If the statement of the left machine ends without a fault, that of the right one
ends alike. -/
theorem exists_execute_right (hpaired : Paired leeway (.idle depth) (.idle depth) left right)
    (htoken : token.Plain) (hexecute : Machine.execute host fuel token left = some ended) :
    DiesOf leeway.left ended ∨ ∃ more other,
      Machine.execute host more token right = some other ∧
        Concluded leeway depth ended other := by
  rw [Machine.execute_idle hpaired.left] at hexecute
  obtain ⟨result, hrun, rfl⟩ := Option.map_eq_some_iff.1 hexecute
  obtain hdies | ⟨other, ⟨more, hother⟩, hagree⟩ :=
    (hpaired.run_schedule_endAlike htoken host).right _ ⟨fuel, hrun⟩
  · exact .inl hdies.conclude
  · refine .inr ⟨more, _, ?_, hagree.concluded⟩
    rw [Machine.execute_idle hpaired.right]
    exact Option.map_eq_some_iff.2 ⟨other, hother, rfl⟩

end Paired

/-- Where the storage of a machine is limited, two machines like it may die of anything. -/
def Machine.limits (machine : Machine) (gait : Gait) : Leeway :=
  ⟨fun _ => machine.room ≠ none, fun _ => machine.room ≠ none, gait⟩

namespace Machine.Blank

variable {machine next : Machine}

/-- The storage that a blank machine has makes no difference as long as it does not run out. -/
theorem paired_room (hblank : machine.Blank) (hgait : leeway.gait ≠ .apart)
    {own other : Option Room} (hown : own ≠ none → ∀ fault, leeway.left fault)
    (hother : other ≠ none → ∀ fault, leeway.right fault) :
    Paired leeway (.idle machine.depth) (.idle machine.depth) { machine with room := own }
      { machine with room := other } where
  alike :=
    { operands := rfl
      store := rfl
      scopes := rfl
      callback := rfl
      plain := { hblank.plain with }
      roomLeft := hown
      roomRight := hother
      stepLeft := fun _ => .inr hgait
      stepRight := fun _ => .inr hgait
      voice := fun _ => ⟨rfl, rfl⟩
      elimination := id
      level := fun _ => id }
  left := by rw [control, hblank.execution]; rfl
  right := by rw [control, hblank.execution]; rfl

/-- A blank machine agrees with itself. -/
theorem paired (hblank : machine.Blank) :
    Paired .free (.idle machine.depth) (.idle machine.depth) machine machine :=
  hblank.paired_room Gait.noConfusion (fun _ _ => trivial) fun _ _ => trivial

theorem of_paired {depth : Nat} {control : Control}
    (hpaired : Paired leeway (.idle depth) control next machine) : next.Blank where
  execution := congrArg Control.items hpaired.left
  plain := hpaired.alike.plain

/-- A statement that does not fault leaves a blank machine. -/
theorem of_execute (hblank : machine.Blank) {host : HostOperators} {fuel : Nat} {token : Token}
    {ended : Outcome} (htoken : token.Plain)
    (hexecute : execute host fuel token machine = some ended)
    (hended : ended = .ok () next ∨ ∃ error, ended = .error (.error error) next) :
    next.Blank := by
  obtain hdies | ⟨more, other, hother, hconcluded⟩ :=
    hblank.paired.exists_execute_right htoken hexecute
  · obtain rfl | ⟨error, rfl⟩ := hended <;> cases hdies
  · obtain rfl := execute_unique hexecute hother
    obtain rfl | ⟨error, rfl⟩ := hended
    · cases hconcluded with
      | ok hpaired => exact of_paired hpaired
    · cases hconcluded with
      | error hpaired => exact of_paired hpaired

end Machine.Blank

end StackLang
