import StackLang.Proofs.Control.Runs
import StackLang.Proofs.Control.Steps

/-!
# Runs of machines that agree

What a step keeps, a whole run keeps.  Two matched machines either take a step
together, or the right one drops a spent frame while the left one waits, or both
have drained to their bases.  Since waiting makes the right stack shorter, neither
machine can run on for ever when the other one ends.  This argument does not depend on
what a turn is, so it is made for any two courses that machines may take.
-/

namespace StackLang

variable {leeway : Leeway} {failed : Machine → Machine → Prop}

/-- The outcome is a fault, which no statement handles. -/
def Faulted : Outcome → Prop
  | .error (.fault _) _ => True
  | _ => False

instance : DecidablePred Faulted
  | .error (.fault _) _ => .isTrue trivial
  | .error (.error _) _ => .isFalse id
  | .ok _ _ => .isFalse id

theorem exists_faulted {result : Option Outcome}
    (hany : (result.any fun ended => decide (Faulted ended)) = true) :
    ∃ ended, result = some ended ∧ Faulted ended := by
  obtain ⟨ended, hended, hfaulted⟩ := (Option.any_eq_true _ _).1 hany
  exact ⟨ended, hended, of_decide_eq_true hfaulted⟩

theorem exists_unfaulted {result : Option Outcome}
    (hany : (result.any fun ended => !decide (Faulted ended)) = true) :
    ∃ ended, result = some ended ∧ ¬ Faulted ended := by
  obtain ⟨ended, hended, hunfaulted⟩ := (Option.any_eq_true _ _).1 hany
  exact ⟨ended, hended, by simpa using hunfaulted⟩

/-- The outcome is one of certain faults. -/
def DiesOf (faults : Fault → Prop) : Outcome → Prop
  | .error (.fault fault) _ => faults fault
  | _ => False

theorem DiesOf.exists_fault {faults : Fault → Prop} {ended : Outcome}
    (hdies : DiesOf faults ended) :
    ∃ fault machine, faults fault ∧ ended = .error (.fault fault) machine := by
  unfold DiesOf at hdies
  split at hdies
  · exact ⟨_, _, hdies, rfl⟩
  · cases hdies

theorem DiesOf.faulted {faults : Fault → Prop} {ended : Outcome} (hdies : DiesOf faults ended) :
    Faulted ended := by
  obtain ⟨fault, machine, -, rfl⟩ := hdies.exists_fault
  trivial

theorem not_diesOf {faults : Fault → Prop} (hnever : ∀ fault, ¬ faults fault) {ended : Outcome} :
    ¬ DiesOf faults ended := by
  intro hdies
  obtain ⟨fault, machine, hfault, -⟩ := hdies.exists_fault
  exact hnever fault hfault

/-- Both machines may die alone of what the right one may. -/
def Leeway.mirrored (leeway : Leeway) : Leeway :=
  { leeway with left := leeway.right }

theorem Alike.right {left right : Machine} (halike : Alike leeway left right) :
    Alike leeway.mirrored right right where
  operands := rfl
  store := rfl
  scopes := rfl
  callback := rfl
  plain :=
    { operands := by rw [← halike.operands]; exact halike.plain.operands
      callback := by rw [← halike.callback]; exact halike.plain.callback
      store := halike.plain.store.of_quiet_eq halike.store.symm }
  roomLeft := halike.roomRight
  roomRight := halike.roomRight
  stepLeft := halike.stepRight
  stepRight := halike.stepRight
  voice := fun _ => ⟨rfl, rfl⟩
  elimination := id
  level := fun _ => id

theorem Faulted.exists_fault {ended : Outcome} (hfaulted : Faulted ended) :
    ∃ fault machine, ended = .error (.fault fault) machine := by
  unfold Faulted at hfaulted
  split at hfaulted
  · exact ⟨_, _, rfl⟩
  · cases hfaulted

theorem Agree.of_diesOf_left {post : Unit → Machine → Machine → Prop} {ended other : Outcome}
    (hdies : DiesOf leeway.left ended) : Agree leeway failed post ended other := by
  obtain ⟨fault, machine, hleeway, rfl⟩ := hdies.exists_fault
  exact .faultLeft hleeway

theorem Agree.of_diesOf_right {post : Unit → Machine → Machine → Prop} {ended other : Outcome}
    (hdies : DiesOf leeway.right other) : Agree leeway failed post ended other := by
  obtain ⟨fault, machine, hleeway, rfl⟩ := hdies.exists_fault
  exact .faultRight hleeway

/-- Two machines end alike: one ends exactly if the other one does, and then they agree.
One that dies of what the leeway allows it may be alone with it. -/
structure EndAlike (leeway : Leeway) (failed post : Machine → Machine → Prop)
    (first second : Outcome → Prop) : Prop where
  right : ∀ ended, first ended → DiesOf leeway.left ended ∨
    ∃ other, second other ∧ Agree leeway failed (fun _ => post) ended other
  left : ∀ other, second other → DiesOf leeway.right other ∨
    ∃ ended, first ended ∧ Agree leeway failed (fun _ => post) ended other

/-! ### Going by a machine in the middle -/

/-- Nothing but the left machine may die alone. -/
def Leeway.onlyLeft (leeway : Leeway) : Leeway :=
  { leeway with right := fun _ => False }

/-- Nothing but the right machine may die alone. -/
def Leeway.onlyRight (leeway : Leeway) : Leeway :=
  { leeway with left := fun _ => False }

theorem Alike.trans {left mid right : Machine} (hfirst : Alike leeway.onlyLeft left mid)
    (hsecond : Alike leeway.onlyRight mid right) : Alike leeway left right where
  operands := hfirst.operands.trans hsecond.operands
  store := hfirst.store.trans hsecond.store
  scopes := hfirst.scopes.trans hsecond.scopes
  callback := hfirst.callback.trans hsecond.callback
  plain := hfirst.plain
  roomLeft := hfirst.roomLeft
  roomRight := hsecond.roomRight
  stepLeft := hfirst.stepLeft
  stepRight := hsecond.stepRight
  voice := fun hgait =>
    ⟨(hfirst.voice hgait).stepMode.trans (hsecond.voice hgait).stepMode,
      (hfirst.voice hgait).prompt.trans (hsecond.voice hgait).prompt⟩
  elimination := hfirst.elimination ∘ hsecond.elimination
  level := fun hlevel => hsecond.level hlevel ∘ hfirst.level hlevel

theorem Paired.trans {first second third : Control} {left mid right : Machine}
    (hfirst : Paired leeway.onlyLeft first second left mid)
    (hsecond : Paired leeway.onlyRight second third mid right) :
    Paired leeway first third left right where
  alike := hfirst.alike.trans hsecond.alike
  left := hfirst.left
  right := hsecond.right

section Trans

variable {before behind mid further post : Machine → Machine → Prop}
  {first second third : Outcome → Prop}

theorem Agree.trans {ended between other : Outcome}
    (hfirst : Agree leeway.onlyLeft before (fun _ => mid) ended between)
    (hsecond : Agree leeway.onlyRight behind (fun _ => further) between other)
    (hfailed : ∀ {left own right}, before left own → behind own right → failed left right)
    (hpost : ∀ {left own right}, mid left own → further own right → post left right) :
    Agree leeway failed (fun _ => post) ended other := by
  cases hfirst with
  | ok hmid =>
    cases hsecond with
    | ok hfurther => exact .ok (hpost hmid hfurther)
    | faultRight hleeway => exact .faultRight hleeway
  | error hbefore =>
    cases hsecond with
    | error hbehind => exact .error (hfailed hbefore hbehind)
    | faultRight hleeway => exact .faultRight hleeway
  | fault =>
    cases hsecond with
    | fault => exact .fault
    | faultLeft hnever => exact hnever.elim
    | faultRight hleeway => exact .faultRight hleeway
  | faultLeft hleeway => exact .faultLeft hleeway
  | faultRight hnever => exact hnever.elim

/-- Parts that end like one in the middle, which never dies alone, end alike. -/
theorem EndAlike.trans (hfirst : EndAlike leeway.onlyLeft before mid first second)
    (hsecond : EndAlike leeway.onlyRight behind further second third)
    (hfailed : ∀ {left own right}, before left own → behind own right → failed left right)
    (hpost : ∀ {left own right}, mid left own → further own right → post left right) :
    EndAlike leeway failed post first third where
  right := fun ended hended => by
    obtain hdies | ⟨between, hbetween, hagree⟩ := hfirst.right ended hended
    · exact .inl hdies
    · obtain hnever | ⟨other, hother, hnext⟩ := hsecond.right between hbetween
      · exact absurd hnever (not_diesOf fun _ => id)
      · exact .inr ⟨other, hother, hagree.trans hnext hfailed hpost⟩
  left := fun other hother => by
    obtain hdies | ⟨between, hbetween, hagree⟩ := hsecond.left other hother
    · exact .inl hdies
    · obtain hnever | ⟨ended, hended, hnext⟩ := hfirst.left between hbetween
      · exact absurd hnever (not_diesOf fun _ => id)
      · exact .inr ⟨ended, hended, hnext.trans hagree hfailed hpost⟩

theorem EndAlike.imp (halike : EndAlike leeway before mid first second)
    (hfailed : ∀ left right, before left right → failed left right)
    (hpost : ∀ left right, mid left right → post left right) :
    EndAlike leeway failed post first second where
  right := fun ended hended => by
    obtain hdies | ⟨other, hother, hagree⟩ := halike.right ended hended
    · exact .inl hdies
    · exact .inr ⟨other, hother, hagree.imp hfailed fun _ => hpost⟩
  left := fun other hother => by
    obtain hdies | ⟨ended, hended, hagree⟩ := halike.left other hother
    · exact .inl hdies
    · exact .inr ⟨ended, hended, hagree.imp hfailed fun _ => hpost⟩

theorem EndAlike.mono (halike : EndAlike leeway failed mid first second)
    (himp : ∀ left right, mid left right → post left right) :
    EndAlike leeway failed post first second :=
  halike.imp (fun _ _ => id) himp

end Trans

/-! ### Courses in tandem -/

/-- What two machines do next: both go on, or both end, or one of them faults. -/
inductive Tandem (leeway : Leeway) (course other : Machine.Course)
    (failed matched post : Machine → Machine → Prop) (left right : Machine) : Prop where
  | turn {next further : Machine} (hleft : course.turn left next)
    (hright : other.turn right further) (hnext : matched next further)
  | stop {ended result : Outcome} (hleft : course.ends left ended)
    (hright : other.ends right result)
    (hagree : Agree leeway failed (fun _ => post) ended result)
  | faultLeft {ended : Outcome} (hleft : course.ends left ended)
    (hdies : DiesOf leeway.left ended)
  | faultRight {ended : Outcome} (hright : other.ends right ended)
    (hdies : DiesOf leeway.right ended)

/-- Matched machines are in tandem, or the left one waits while the stack of the right
one gets shorter. -/
def InTandem (leeway : Leeway) (course other : Machine.Course)
    (failed matched post : Machine → Machine → Prop) : Prop :=
  ∀ left right, matched left right → Tandem leeway course other failed matched post left right ∨
    ∃ next, other.turn right next ∧ matched left next ∧
      next.execution.load < right.execution.load

section Tandem

open Relation (ReflTransGen)

variable {course other : Machine.Course} {matched post : Machine → Machine → Prop}
  {left right : Machine}

/-- The left machine does not wait for ever. -/
theorem InTandem.exists_tandem (htandem : InTandem leeway course other failed matched post)
    (hmatched : matched left right) :
    ∃ next, ReflTransGen other.turn right next ∧
      Tandem leeway course other failed matched post left next := by
  induction hload : right.execution.load using Nat.strong_induction_on generalizing right with
  | _ load ih =>
    obtain hnow | ⟨next, hturn, hnext, hlt⟩ := htandem left right hmatched
    · exact ⟨right, .refl, hnow⟩
    · obtain ⟨last, hturns, hlast⟩ := ih _ (hload ▸ hlt) hnext rfl
      exact ⟨last, .head hturn hturns, hlast⟩

theorem InTandem.exists_right (htandem : InTandem leeway course other failed matched post)
    (hcourse : course.Deterministic) (hmatched : matched left right) {ended : Outcome}
    (hcomes : course.Comes left ended) :
    DiesOf leeway.left ended ∨ ∃ result, other.Comes right result ∧
      Agree leeway failed (fun _ => post) ended result := by
  obtain ⟨last, hturns, hends⟩ := hcomes
  induction hturns using ReflTransGen.head_induction_on generalizing right with
  | refl =>
    obtain ⟨next, hwaits, hnow⟩ := htandem.exists_tandem hmatched
    cases hnow with
    | turn hleft => exact absurd hends (hcourse.parted hleft)
    | stop hleft hright hagree =>
      obtain rfl := hcourse.ends hends hleft
      exact .inr ⟨_, ⟨next, hwaits, hright⟩, hagree⟩
    | faultLeft hleft hdies =>
      obtain rfl := hcourse.ends hends hleft
      exact .inl hdies
    | faultRight hright hdies =>
      exact .inr ⟨_, ⟨next, hwaits, hright⟩, .of_diesOf_right hdies⟩
  | head hturn _ ih =>
    obtain ⟨next, hwaits, hnow⟩ := htandem.exists_tandem hmatched
    cases hnow with
    | turn hleft hright hnext =>
      obtain rfl := hcourse.turn hturn hleft
      obtain hdies | ⟨result, ⟨final, hturns, hresult⟩, hagree⟩ := ih hnext
      · exact .inl hdies
      · exact .inr ⟨result, ⟨final, hwaits.trans (.head hright hturns), hresult⟩, hagree⟩
    | stop hleft | faultLeft hleft => exact absurd hleft (hcourse.parted hturn)
    | faultRight hright hdies =>
      exact .inr ⟨_, ⟨next, hwaits, hright⟩, .of_diesOf_right hdies⟩

theorem InTandem.exists_left (htandem : InTandem leeway course other failed matched post)
    (hother : other.Deterministic) (hmatched : matched left right) {result : Outcome}
    (hcomes : other.Comes right result) :
    DiesOf leeway.right result ∨ ∃ ended, course.Comes left ended ∧
      Agree leeway failed (fun _ => post) ended result := by
  obtain ⟨last, hturns, hends⟩ := hcomes
  induction hturns using ReflTransGen.head_induction_on generalizing left with
  | refl =>
    obtain hnow | ⟨next, hturn, -, -⟩ := htandem left _ hmatched
    · cases hnow with
      | turn _ hright => exact absurd hends (hother.parted hright)
      | stop hleft hright hagree =>
        obtain rfl := hother.ends hends hright
        exact .inr ⟨_, ⟨left, .refl, hleft⟩, hagree⟩
      | faultLeft hleft hdies =>
        exact .inr ⟨_, ⟨left, .refl, hleft⟩, .of_diesOf_left hdies⟩
      | faultRight hright hdies =>
        obtain rfl := hother.ends hends hright
        exact .inl hdies
    · exact absurd hends (hother.parted hturn)
  | head hturn _ ih =>
    obtain hnow | ⟨next, hright, hnext, -⟩ := htandem left _ hmatched
    · cases hnow with
      | turn hleft hright hnext =>
        obtain rfl := hother.turn hturn hright
        obtain hdies | ⟨ended, ⟨final, hturns, hended⟩, hagree⟩ := ih hnext
        · exact .inl hdies
        · exact .inr ⟨ended, ⟨final, .head hleft hturns, hended⟩, hagree⟩
      | stop _ hright | faultRight hright => exact absurd hright (hother.parted hturn)
      | faultLeft hleft hdies =>
        exact .inr ⟨_, ⟨left, .refl, hleft⟩, .of_diesOf_left hdies⟩
    · obtain rfl := hother.turn hturn hright
      exact ih hnext

/-- Machines in tandem end alike. -/
theorem InTandem.endAlike (htandem : InTandem leeway course other failed matched post)
    (hcourse : course.Deterministic) (hother : other.Deterministic)
    (hmatched : matched left right) :
    EndAlike leeway failed post (course.Comes left) (other.Comes right) where
  right := fun _ hcomes => htandem.exists_right hcourse hmatched hcomes
  left := fun _ hcomes => htandem.exists_left hother hmatched hcomes

end Tandem

namespace Matched

variable {first second : Control} {left right : Machine}

/-- A machine that is matched on the right is matched with itself. -/
theorem diagonal (hmatched : Matched leeway first second left right) :
    Matched leeway.mirrored second second right right := by
  obtain ⟨pending, inner, outer, haligned⟩ := hmatched
  exact ⟨pending, outer, outer, .refl outer, haligned.sound, haligned.plain,
    haligned.paired.alike.right, haligned.paired.right, haligned.paired.right⟩

/-- Matched machines have both drained, or step together, or the right one drops
a spent frame. -/
theorem cases_step (hmatched : Matched leeway first second left right)
    (hexit : first.left? = second.left?) (host : HostOperators) :
    Paired leeway first second left right ∨
      (first.items.length < left.execution.load ∧ second.items.length < right.execution.load ∧
        StepAgree leeway (Matched leeway first second) (Reached leeway first second)
      (Machine.step host left) (Machine.step host right)) ∨
      second.items.length < right.execution.load ∧
        ∃ next, Machine.step host right = .finished (.ok () next) ∧
          Matched leeway first second left next ∧
          next.execution.load < right.execution.load := by
  obtain ⟨pending, inner, outer, haligned⟩ := hmatched
  have hleft : left.execution.items = ((first.within inner).awaiting pending).items :=
    congrArg Control.items haligned.paired.left
  have hright : right.execution.items = ((second.within outer).awaiting pending).items :=
    congrArg Control.items haligned.paired.right
  cases pending with
  | some token =>
    refine .inr (.inl ⟨?_, ?_, haligned.step_pending hexit host⟩)
    · rw [left.execution.load_eq, hleft]
      exact Nat.lt_succ_of_le (Control.length_le_within inner first)
    · rw [right.execution.load_eq, hright]
      exact Nat.lt_succ_of_le (Control.length_le_within outer second)
  | none =>
    obtain ⟨hthinned, hsound, hplain, hpaired⟩ := haligned
    cases hthinned with
    | nil => exact .inl hpaired
    | @keep frame inner outer hrest =>
      have haligned : Aligned leeway first second none (frame :: inner) (frame :: outer)
          left right :=
        ⟨.keep frame hrest, hsound, hplain, hpaired⟩
      refine .inr (.inl ⟨?_, ?_, haligned.step_frame hrest host⟩)
      · rw [left.execution.load_eq, hleft]
        exact Control.length_lt_enter (Control.length_le_within inner first)
      · rw [right.execution.load_eq, hright]
        exact Control.length_lt_enter (Control.length_le_within outer second)
    | @drop frame inner outer hgait hspent hrest =>
      have haligned : Aligned leeway first second none inner (frame :: outer) left right :=
        ⟨.drop hgait hspent hrest, hsound, hplain, hpaired⟩
      -- The left machine has dropped this frame already and waits for the right one.
      obtain ⟨next, hstep, hnext⟩ := haligned.step_spent hspent hrest host
      refine .inr (.inr ⟨?_, next, hstep, ⟨none, inner, outer, hnext⟩, ?_⟩)
      · rw [right.execution.load_eq, hright]
        exact Control.length_lt_enter (Control.length_le_within outer second)
      · rw [next.execution.load_eq, right.execution.load_eq, hright,
          show next.execution.items = _ from congrArg Control.items hnext.paired.right]
        exact Control.length_lt_enter (Nat.le_refl _)

/-- Once matched machines have drained, the same callback comes next. -/
theorem of_callback (hpaired : Paired leeway first second left right) :
    Matched leeway first second { left.schedule left.callback with callback := .void }
      { right.schedule right.callback with callback := .void } := by
  have hcallback := hpaired.alike.callback
  have hplain := hpaired.alike.plain.callback
  rw [← hcallback]
  have hscheduled := hpaired.schedule left.callback
  refine ⟨some left.callback, [], [], .nil, by simp, by simpa using hplain,
    { hscheduled.alike with
      callback := rfl
      plain := { hscheduled.alike.plain with callback := Token.plain_void }
      voice := fun hgait => { hscheduled.alike.voice hgait with } },
    hscheduled.left, hscheduled.right⟩

/-- Where no loop is open below, none is left. -/
theorem of_reached (hfirst : first.Unmarked) (hreached : Reached leeway first second left right) :
    Matched leeway first second left right := by
  cases hreached with
  | matched hmatched => exact hmatched
  | left hleft => cases (Control.left?_eq_none_iff.2 hfirst).symm.trans hleft

/-- Machines that are matched in their runs go on together. -/
theorem inTandem (hfirst : first.Unmarked) (hsecond : second.Unmarked) (host : HostOperators) :
    InTandem leeway (.running host first.items.length) (.running host second.items.length)
      (Matched leeway first second) (Matched leeway first second)
      (Paired leeway first second) := by
  intro left right hmatched
  have hexit : first.left? = second.left? :=
    (Control.left?_eq_none_iff.2 hfirst).trans (Control.left?_eq_none_iff.2 hsecond).symm
  obtain hpaired | ⟨hleft, hright, hagree⟩ | ⟨hright, next, hstep, hnext, hlt⟩ :=
    hmatched.cases_step hexit host
  · have hleft : ¬ first.items.length < left.execution.load :=
      Nat.not_lt.2 (Nat.le_of_eq (Machine.load_of_control hpaired.left))
    have hright : ¬ second.items.length < right.execution.load :=
      Nat.not_lt.2 (Nat.le_of_eq (Machine.load_of_control hpaired.right))
    -- Both have drained, and the callback, which is the same for both, decides what follows.
    cases hvoid : left.callback.isVoid with
    | true =>
      exact .inl (.stop (.done hleft hvoid) (.done hright (hpaired.alike.callback ▸ hvoid))
        (.ok hpaired))
    | false =>
      exact .inl (.turn (.callback hleft hvoid)
        (.callback hright (hpaired.alike.callback ▸ hvoid)) (of_callback hpaired))
  · generalize hstepLeft : Machine.step host left = effect at hagree
    generalize hstepRight : Machine.step host right = other at hagree
    cases hagree with
    | @finished ended other hagree =>
      cases hagree with
      | ok hnext =>
        exact .inl (.turn (.step hleft hstepLeft) (.step hright hstepRight)
          (of_reached hfirst hnext))
      | error hfailed =>
        exact .inl (.stop (.failed hleft hstepLeft) (.failed hright hstepRight) (.error hfailed))
      | fault => exact .inl (.stop (.failed hleft hstepLeft) (.failed hright hstepRight) .fault)
      | faultLeft hleeway => exact .inl (.faultLeft (.failed hleft hstepLeft) hleeway)
      | faultRight hleeway => exact .inl (.faultRight (.failed hright hstepRight) hleeway)
  · exact .inr ⟨next, .step hright hstep, hnext, hlt⟩

/-- The runs of matched machines end alike. -/
theorem run_endAlike (hmatched : Matched leeway first second left right)
    (hfirst : first.Unmarked) (hsecond : second.Unmarked) (host : HostOperators) :
    EndAlike leeway (Matched leeway first second) (Paired leeway first second)
      (fun ended => ∃ fuel, Machine.run host fuel first.items.length left = some ended)
      (fun ended => ∃ fuel, Machine.run host fuel second.items.length right = some ended) := by
  simp only [Machine.exists_run_iff]
  exact (inTandem hfirst hsecond host).endAlike Machine.deterministic_running
    Machine.deterministic_running hmatched

end Matched

end StackLang
