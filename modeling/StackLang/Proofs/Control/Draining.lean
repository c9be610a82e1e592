import StackLang.Proofs.Control.Simulation

/-!
# Parts of a run

A part of a statement is run by stepping until the execution stack has drained to
where it was; a callback waits until the whole statement has drained.  Parts run one
after the other, and what holds of two machines for each part holds for all of them.
A part that leaves a loop below it is through as well: then the stack is shorter than
it was.
-/

namespace StackLang

open Relation (ReflTransGen)

variable {leeway : Leeway} {failed : Machine → Machine → Prop} {host : HostOperators} {base : Nat}

/-- The outcome of a step that executes nothing first. -/
def Effect.finished? : Effect → Option Outcome
  | finished outcome => some outcome
  | executing .. => none

theorem Effect.eq_finished_of_finished? {effect : Effect} {outcome : Outcome}
    (hfinished : effect.finished? = some outcome) : effect = .finished outcome := by
  cases effect with
  | finished own => exact congrArg finished (Option.some.inj hfinished)
  | executing => cases hfinished

namespace Machine

/-- Nothing is left above `base`, or the next step fails. -/
inductive Stops (host : HostOperators) (base : Nat) : Machine → Outcome → Prop where
  | drained {machine : Machine} (hload : ¬ base < machine.execution.load) :
    Stops host base machine (.ok () machine)
  | failed {machine next : Machine} {failure : Failure} (hload : base < machine.execution.load)
    (hstep : step host machine = .finished (.error failure next)) :
    Stops host base machine (.error failure next)

/-- The course of a part of a run. -/
def Course.draining (host : HostOperators) (base : Nat) : Course where
  turn := fun machine next =>
    base < machine.execution.load ∧ step host machine = .finished (.ok () next)
  ends := Stops host base

/-- Steps lead until nothing is left above `base`, or until one of them fails. -/
def Drains (host : HostOperators) (base : Nat) : Machine → Outcome → Prop :=
  (Course.draining host base).Comes

/-- A part is lost if its first step faults. -/
theorem exists_drains_faulted {machine : Machine} (hload : base < machine.execution.load)
    (hfaults : ((step host machine).finished?.any fun ended => decide (Faulted ended)) = true) :
    ∃ ended, Drains host base machine ended ∧ Faulted ended := by
  obtain ⟨ended, hfinished, hlost⟩ := exists_faulted hfaults
  obtain ⟨fault, next, rfl⟩ := hlost.exists_fault
  have hstep := Effect.eq_finished_of_finished? hfinished
  exact ⟨_, ⟨machine, .refl, .failed hload hstep⟩, hlost⟩

/-- What comes after a success; a failure stays. -/
def Then (first : Outcome → Prop) (next : Machine → Outcome → Prop) (ended : Outcome) : Prop :=
  ∃ own, first own ∧ match own with
    | .ok _ machine => next machine ended
    | .error failure machine => ended = .error failure machine

theorem deterministic_draining : (Course.draining host base).Deterministic where
  turn := fun hturn hother => by
    cases hturn.2.symm.trans hother.2
    rfl
  ends := fun hended hother => by
    cases hended with
    | drained hload =>
      cases hother with
      | drained => rfl
      | failed hstanding => exact absurd hstanding hload
    | failed hload hstep =>
      cases hother with
      | drained hdrained => exact absurd hload hdrained
      | failed _ hagain =>
        cases hstep.symm.trans hagain
        rfl
  parted := fun hturn hended => by
    cases hended with
    | drained hload => exact hload hturn.1
    | failed _ hstep => cases hstep.symm.trans hturn.2

variable {machine : Machine} {outcome : Outcome}

@[simp]
theorem then_ok (next : Machine → Outcome → Prop) (machine : Machine) :
    Then (· = .ok () machine) next = next machine := by
  funext ended
  simp [Then]

theorem drains_of_not_lt (hload : ¬ base < machine.execution.load) :
    Drains host base machine = (· = .ok () machine) := by
  funext ended
  have hdrained : Drains host base machine (.ok () machine) := ⟨machine, .refl, .drained hload⟩
  refine propext ⟨fun hdrains => deterministic_draining.unique hdrains hdrained, ?_⟩
  rintro rfl
  exact hdrained

theorem drains_of_step (hload : base < machine.execution.load)
    (hstep : step host machine = .finished outcome) :
    Drains host base machine = Then (· = outcome) (Drains host base) := by
  funext ended
  refine propext ⟨?_, ?_⟩
  · rintro ⟨last, hturns, hends⟩
    obtain rfl | ⟨next, hturn, hrest⟩ := hturns.cases_head
    · cases hends with
      | drained hdrained => exact absurd hload hdrained
      | failed _ hfailed =>
        cases hstep.symm.trans hfailed
        exact ⟨_, rfl, rfl⟩
    · cases hstep.symm.trans hturn.2
      exact ⟨_, rfl, last, hrest, hends⟩
  · rintro ⟨own, rfl, hafter⟩
    cases own with
    | ok value next =>
      obtain ⟨last, hrest, hends⟩ := hafter
      exact ⟨last, .head ⟨hload, hstep⟩ hrest, hends⟩
    | error failure next =>
      obtain rfl := hafter
      exact ⟨machine, .refl, .failed hload hstep⟩

/-- To drain to `base` is to drain to a place above it first. -/
theorem drains_above {above : Nat} (hle : base ≤ above) :
    Drains host base machine = Then (Drains host above machine) (Drains host base) := by
  funext ended
  refine propext ⟨?_, ?_⟩
  · rintro ⟨last, hturns, hends⟩
    induction hturns using ReflTransGen.head_induction_on with
    | refl =>
      by_cases hload : above < last.execution.load
      · cases hends with
        | drained hdrained => exact absurd (Nat.lt_of_le_of_lt hle hload) hdrained
        | failed _ hstep => exact ⟨_, ⟨last, .refl, .failed hload hstep⟩, rfl⟩
      · exact ⟨_, ⟨last, .refl, .drained hload⟩, last, .refl, hends⟩
    | @head machine next hturn hrest ih =>
      by_cases hload : above < machine.execution.load
      · obtain ⟨own, ⟨final, hturns, hown⟩, hafter⟩ := ih
        exact ⟨own, ⟨final, .head ⟨hload, hturn.2⟩ hturns, hown⟩, hafter⟩
      · exact ⟨_, ⟨machine, .refl, .drained hload⟩, last, .head hturn hrest, hends⟩
  · rintro ⟨own, ⟨last, hturns, hown⟩, hafter⟩
    induction hturns using ReflTransGen.head_induction_on with
    | refl =>
      cases hown with
      | drained => exact hafter
      | failed hload hstep =>
        obtain rfl := hafter
        exact ⟨last, .refl, .failed (Nat.lt_of_le_of_lt hle hload) hstep⟩
    | head hturn _ ih =>
      obtain ⟨final, hturns, hends⟩ := ih
      exact ⟨final, .head ⟨Nat.lt_of_le_of_lt hle hturn.1, hturn.2⟩ hturns, hends⟩

end Machine

/-! ## Parts that end alike -/

section EndAlike

open Machine (Then)

variable {mid post : Machine → Machine → Prop} {first second : Outcome → Prop}
  {next further : Machine → Outcome → Prop} {left right : Machine}

theorem EndAlike.of_agree {ended other : Outcome}
    (hagree : Agree leeway failed (fun _ => post) ended other) :
    EndAlike leeway failed post (· = ended) (· = other) where
  right := by
    rintro _ rfl
    exact .inr ⟨other, rfl, hagree⟩
  left := by
    rintro _ rfl
    exact .inr ⟨ended, rfl, hagree⟩

/-- Parts that come one after the other end alike if each of them does. -/
theorem EndAlike.then (hfirst : EndAlike leeway failed mid first second)
    (hnext : ∀ left right, mid left right →
      EndAlike leeway failed post (next left) (further right)) :
    EndAlike leeway failed post (Then first next) (Then second further) where
  right := by
    rintro ended ⟨own, hown, hafter⟩
    obtain hdies | ⟨other, hother, hagree⟩ := hfirst.right own hown
    · obtain ⟨fault, machine, hleeway, rfl⟩ := hdies.exists_fault
      exact .inl (hafter ▸ hleeway)
    · cases hagree with
      | ok hmid =>
        obtain hdies | ⟨result, hresult, hagree⟩ := (hnext _ _ hmid).right ended hafter
        · exact .inl hdies
        · exact .inr ⟨result, ⟨_, hother, hresult⟩, hagree⟩
      | error hfailed =>
        obtain rfl := hafter
        exact .inr ⟨_, ⟨_, hother, rfl⟩, .error hfailed⟩
      | fault =>
        obtain rfl := hafter
        exact .inr ⟨_, ⟨_, hother, rfl⟩, .fault⟩
      | faultLeft hleeway => exact .inl (hafter ▸ hleeway)
      | faultRight hleeway => exact .inr ⟨_, ⟨_, hother, rfl⟩, .faultRight hleeway⟩
  left := by
    rintro result ⟨other, hother, hafter⟩
    obtain hdies | ⟨own, hown, hagree⟩ := hfirst.left other hother
    · obtain ⟨fault, machine, hleeway, rfl⟩ := hdies.exists_fault
      exact .inl (hafter ▸ hleeway)
    · cases hagree with
      | ok hmid =>
        obtain hdies | ⟨ended, hended, hagree⟩ := (hnext _ _ hmid).left result hafter
        · exact .inl hdies
        · exact .inr ⟨ended, ⟨_, hown, hended⟩, hagree⟩
      | error hfailed =>
        obtain rfl := hafter
        exact .inr ⟨_, ⟨_, hown, rfl⟩, .error hfailed⟩
      | fault =>
        obtain rfl := hafter
        exact .inr ⟨_, ⟨_, hown, rfl⟩, .fault⟩
      | faultLeft hleeway => exact .inr ⟨_, ⟨_, hown, rfl⟩, .faultLeft hleeway⟩
      | faultRight hleeway => exact .inl (hafter ▸ hleeway)

end EndAlike

/-- Where matched machines come to once nothing is left above `first` and `second`: back
there, or to what is outside a loop that was open below. -/
inductive Landed (leeway : Leeway) (first second : Control) (left right : Machine) : Prop where
  | back (hpaired : Paired leeway first second left right)
  | left {outer : Control} (hleft : first.left? = some outer)
    (hpaired : Paired leeway outer outer left right)

namespace Matched

variable {first second : Control} {left right : Machine}

theorem inTandem_draining (hexit : first.left? = second.left?) (host : HostOperators) :
    InTandem leeway (.draining host first.items.length) (.draining host second.items.length)
      (Matched leeway first second) (Reached leeway first second)
      (Landed leeway first second) := by
  have hdrained : ∀ {control below : Control} {machine : Machine}, machine.control = below →
      below.items.length ≤ control.items.length →
        ¬ control.items.length < machine.execution.load := by
    intro control below machine hcontrol hle
    rw [Machine.load_of_control hcontrol]
    exact Nat.not_lt.2 hle
  intro left right hreached
  cases hreached with
  | left hleft hpaired =>
    have hfirst := Nat.le_of_lt (Control.length_lt_of_left? hleft)
    have hsecond := Nat.le_of_lt (Control.length_lt_of_left? (hexit ▸ hleft))
    exact .inl (.stop (.drained (hdrained hpaired.left hfirst))
      (.drained (hdrained hpaired.right hsecond)) (.ok (.left hleft hpaired)))
  | matched hmatched =>
    obtain hpaired | ⟨hleft, hright, hagree⟩ | ⟨hright, next, hstep, hnext, hlt⟩ :=
      hmatched.cases_step hexit host
    · exact .inl (.stop (.drained (hdrained hpaired.left (Nat.le_refl _)))
        (.drained (hdrained hpaired.right (Nat.le_refl _))) (.ok (.back hpaired)))
    · generalize hstepLeft : Machine.step host left = effect at hagree
      generalize hstepRight : Machine.step host right = other at hagree
      cases hagree with
      | @finished ended other hagree =>
        cases hagree with
        | ok hnext => exact .inl (.turn ⟨hleft, hstepLeft⟩ ⟨hright, hstepRight⟩ hnext)
        | error hfailed =>
          exact .inl (.stop (.failed hleft hstepLeft) (.failed hright hstepRight) (.error hfailed))
        | fault => exact .inl (.stop (.failed hleft hstepLeft) (.failed hright hstepRight) .fault)
        | faultLeft hleeway => exact .inl (.faultLeft (.failed hleft hstepLeft) hleeway)
        | faultRight hleeway => exact .inl (.faultRight (.failed hright hstepRight) hleeway)
    · exact .inr ⟨next, ⟨hright, hstep⟩, .matched hnext, hlt⟩

/-- Matched machines drain alike, also where they are over loops of different kinds, as
long as `exit` leaves the same. -/
theorem drains_endAlike (hmatched : Matched leeway first second left right)
    (hexit : first.left? = second.left?) (host : HostOperators) :
    EndAlike leeway (Matched leeway first second) (Landed leeway first second)
      (Machine.Drains host first.items.length left)
      (Machine.Drains host second.items.length right) :=
  (inTandem_draining hexit host).endAlike Machine.deterministic_draining
    Machine.deterministic_draining (.matched hmatched)

end Matched

end StackLang
