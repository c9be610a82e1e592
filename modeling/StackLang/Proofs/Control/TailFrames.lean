import StackLang.Proofs.Control.Statements

/-!
# Dropping frames early

With tail elimination the frame of a procedure goes before its last element runs,
and otherwise afterwards.  A program cannot tell: a statement ends in both cases or
in neither, with the same result and the same data.  Only a machine that runs out of
storage can, since frames that stay longer take up room, and one that tells about the frames
of a statement that has failed, since there may be no text about a frame that stayed.
-/

namespace StackLang

namespace Machine

/-- Turns tail elimination on or off. -/
def withTailElimination (on : Bool) (machine : Machine) : Machine :=
  { machine with config := { machine.config with tailElimination := on } }

/-- A statement ends, if it may take enough steps. -/
def Executes (host : HostOperators) (token : Token) (machine : Machine)
    (ended : Outcome) : Prop :=
  ∃ fuel, execute host fuel token machine = some ended

/-- Two machines have the same operands, dictionaries, overloads, scopes and callback,
and nothing is scheduled.  What they have said and set aside does not matter. -/
structure SameData (left right : Machine) : Prop where
  operands : left.operands = right.operands
  store : left.store.quiet = right.store.quiet
  scopes : left.scopes = right.scopes
  callback : left.callback = right.callback
  depth : left.depth = right.depth
  execution : left.execution.items = [] ∧ right.execution.items = []

/-- Two statements end with the same result and the same data, or they die of the same. -/
inductive SameEnd : Outcome → Outcome → Prop where
  | ok {left right : Machine} (hsame : SameData left right) :
    SameEnd (.ok () left) (.ok () right)
  | error {error : Error} {left right : Machine} (hsame : SameData left right) :
    SameEnd (.error (.error error) left) (.error (.error error) right)
  | fault {fault : Fault} {left right : Machine} :
    SameEnd (.error (.fault fault) left) (.error (.fault fault) right)

/-- The second statement fails like the first one, but it dies of telling about the frames
that it had open: there is no text about them. -/
inductive Untold : Outcome → Outcome → Prop where
  | intro {error : Error} {left right : Machine}
    (huntold : right.backtrace? 0 error = none)
    (hsame : SameData left (right.discarded 0 left.depth)) :
    Untold (.error (.error error) left) (.error (.fault .endlessText) right)

/-- One of two statements ends exactly if the other one does, and then their ends are
related. -/
def EndTogether (related : Outcome → Outcome → Prop) (first second : Outcome → Prop) : Prop :=
  ((∃ ended, first ended) ↔ ∃ other, second other) ∧
    ∀ ended other, first ended → second other → related ended other

/-- If one of two statements ends, the other one ends as well and their ends are related,
unless either dies of certain faults. -/
structure EndTogetherUnless (faults : Fault → Prop) (related : Outcome → Outcome → Prop)
    (first second : Outcome → Prop) : Prop where
  right : ∀ ended, first ended → DiesOf faults ended ∨
    ∃ other, second other ∧ (DiesOf faults other ∨ related ended other)
  left : ∀ other, second other → DiesOf faults other ∨
    ∃ ended, first ended ∧ (DiesOf faults ended ∨ related ended other)

/-- Where they do not die, they end together. -/
theorem EndTogetherUnless.endTogether {faults : Fault → Prop} {related : Outcome → Outcome → Prop}
    {first second : Outcome → Prop} (hunless : EndTogetherUnless faults related first second)
    (hnever : ∀ fault, ¬ faults fault)
    (hunique : ∀ {ended other}, second ended → second other → ended = other) :
    EndTogether related first second := by
  have hother : ∀ ended, first ended → ∃ other, second other ∧ related ended other := by
    intro ended hended
    obtain ⟨other, hsecond, hrelated⟩ :=
      (hunless.right ended hended).resolve_left (not_diesOf hnever)
    exact ⟨other, hsecond, hrelated.resolve_left (not_diesOf hnever)⟩
  refine ⟨⟨?_, ?_⟩, ?_⟩
  · rintro ⟨ended, hended⟩
    obtain ⟨other, hsecond, -⟩ := hother ended hended
    exact ⟨other, hsecond⟩
  · rintro ⟨other, hsecond⟩
    obtain ⟨ended, hended, -⟩ := (hunless.left other hsecond).resolve_left (not_diesOf hnever)
    exact ⟨ended, hended⟩
  · intro ended other hended hsecond
    obtain ⟨result, hresult, hrelated⟩ := hother ended hended
    rwa [hunique hsecond hresult]

/-- Of two parts of a run, the first one dies and the second one does not. -/
structure DiesAlone (first second : Outcome → Prop) : Prop where
  lost : ∃ ended, first ended ∧ Faulted ended
  spared : ∃ other, second other ∧ ¬ Faulted other

variable {host : HostOperators} {token : Token} {machine : Machine}

theorem Executes.unique {ended other : Outcome} (hended : Executes host token machine ended)
    (hother : Executes host token machine other) : ended = other := by
  obtain ⟨fuel, hended⟩ := hended
  obtain ⟨more, hother⟩ := hother
  exact execute_unique hended hother

theorem SameData.of_paired {leeway : Leeway} {depth : Nat} {left right : Machine}
    (hpaired : Paired leeway (.idle depth) (.idle depth) left right) : SameData left right where
  operands := hpaired.alike.operands
  store := hpaired.alike.store
  scopes := hpaired.alike.scopes
  callback := hpaired.alike.callback
  depth := by
    calc
      left.depth = (Control.idle depth).depth := congrArg Control.depth hpaired.left
      _ = right.depth := (congrArg Control.depth hpaired.right).symm
  execution := ⟨congrArg Control.items hpaired.left, congrArg Control.items hpaired.right⟩

theorem SameData.symm {left right : Machine} (hsame : SameData left right) :
    SameData right left :=
  ⟨hsame.operands.symm, hsame.store.symm, hsame.scopes.symm, hsame.callback.symm,
    hsame.depth.symm, hsame.execution.symm⟩

theorem SameEnd.faulted_iff {ended other : Outcome} (hsame : SameEnd ended other) :
    Faulted ended ↔ Faulted other := by
  cases hsame with
  | ok | error | fault => exact Iff.rfl

theorem DiesAlone.not_endTogether {first second : Outcome → Prop}
    (halone : DiesAlone first second) : ¬ EndTogether SameEnd first second := by
  intro htogether
  obtain ⟨⟨ended, hended, hlost⟩, ⟨other, hother, hspared⟩⟩ := halone
  exact hspared ((htogether.2 ended other hended hother).faulted_iff.1 hlost)

theorem DiesAlone.not_together_end {first second : Outcome → Prop}
    (halone : DiesAlone first second) : ¬ EndTogether SameEnd second first := by
  intro htogether
  obtain ⟨⟨ended, hended, hlost⟩, ⟨other, hother, hspared⟩⟩ := halone
  exact hspared ((htogether.2 other ended hother hended).faulted_iff.2 hlost)

end Machine

open Machine (SameData SameEnd Untold)

/-- How statements end that keep as close to each other as the gait says. -/
def Gait.Ends : Gait → Outcome → Outcome → Prop
  | .level, ended, other => SameEnd ended other
  | .abreast, ended, other => SameEnd ended other ∨ Untold ended other
  | .apart, ended, other => SameEnd ended other ∨ Untold ended other ∨ Untold other ended

theorem Gait.Ends.same {gait : Gait} {ended other : Outcome} (hsame : SameEnd ended other) :
    gait.Ends ended other := by
  cases gait with
  | level => exact hsame
  | abreast | apart => exact .inl hsame

theorem Concluded.ends {leeway : Leeway} {depth : Nat} {ended other : Outcome}
    (hconcluded : Concluded leeway depth ended other) :
    DiesOf leeway.left ended ∨ DiesOf leeway.right other ∨ leeway.gait.Ends ended other := by
  obtain ⟨left, right, gait⟩ := leeway
  cases hconcluded with
  | ok hpaired => exact .inr (.inr (.same (.ok (.of_paired hpaired))))
  | error hpaired => exact .inr (.inr (.same (.error (.of_paired hpaired))))
  | fault => exact .inr (.inr (.same .fault))
  | faultLeft hleeway => exact .inl hleeway
  | faultRight hleeway => exact .inr (.inl hleeway)
  | untoldLeft hgait huntold hpaired =>
    obtain rfl : gait = .apart := hgait
    obtain rfl := congrArg Control.depth hpaired.right
    exact .inr (.inr (.inr (.inr (.intro huntold (SameData.of_paired hpaired).symm))))
  | @untoldRight error left right hgait huntold hpaired =>
    obtain rfl := congrArg Control.depth hpaired.left
    have huntold : Untold (.error (.error error) left) (.error (.fault .endlessText) right) :=
      .intro huntold (.of_paired hpaired)
    cases gait with
    | apart => exact .inr (.inr (.inr (.inl huntold)))
    | abreast => exact .inr (.inr (.inr huntold))
    | level => exact absurd rfl hgait

namespace Machine

/-- What was run is concluded as a statement. -/
def Concludes (depth : Nat) (ends : Outcome → Prop) (ended : Outcome) : Prop :=
  ∃ own, ends own ∧ ended = conclude 0 depth own

theorem executes_eq {depth : Nat} (hidle : machine.control = .idle depth) :
    Executes host token machine = Concludes depth fun own =>
      ∃ fuel, run host fuel 0 (machine.schedule token) = some own := by
  funext ended
  refine propext ⟨?_, ?_⟩
  · rintro ⟨fuel, hexecute⟩
    rw [execute_idle hidle] at hexecute
    obtain ⟨own, hrun, rfl⟩ := Option.map_eq_some_iff.1 hexecute
    exact ⟨own, ⟨fuel, hrun⟩, rfl⟩
  · rintro ⟨own, ⟨fuel, hrun⟩, rfl⟩
    exact ⟨fuel, by rw [execute_idle hidle, hrun]; rfl⟩

end Machine

open Machine (Concludes EndTogetherUnless)

/-- Two statements are concluded alike: one ends exactly if the other one does, unless it dies
of what the leeway allows it. -/
structure ConcludeAlike (leeway : Leeway) (depth : Nat) (first second : Outcome → Prop) :
    Prop where
  right : ∀ ended, first ended → DiesOf leeway.left ended ∨
    ∃ other, second other ∧ Concluded leeway depth ended other
  left : ∀ other, second other → DiesOf leeway.right other ∨
    ∃ ended, first ended ∧ Concluded leeway depth ended other

namespace ConcludeAlike

variable {leeway : Leeway} {depth : Nat} {first second : Outcome → Prop}

theorem of_endAlike
    (halike : EndAlike leeway (Failing leeway) (Paired leeway (.idle depth) (.idle depth)) first
      second) : ConcludeAlike leeway depth (Concludes depth first) (Concludes depth second) where
  right := by
    rintro _ ⟨own, hown, rfl⟩
    obtain hdies | ⟨other, hother, hagree⟩ := halike.right own hown
    · exact .inl hdies.conclude
    · exact .inr ⟨_, ⟨other, hother, rfl⟩, hagree.concluded⟩
  left := by
    rintro _ ⟨other, hother, rfl⟩
    obtain hdies | ⟨own, hown, hagree⟩ := halike.left other hother
    · exact .inl hdies.conclude
    · exact .inr ⟨_, ⟨own, hown, rfl⟩, hagree.concluded⟩

theorem endTogetherUnless {faults : Fault → Prop} {gait : Gait}
    (halike : ConcludeAlike ⟨faults, faults, gait⟩ depth first second) :
    EndTogetherUnless faults gait.Ends first second where
  right := by
    intro ended hended
    obtain hdies | ⟨other, hother, hconcluded⟩ := halike.right ended hended
    · exact .inl hdies
    · exact hconcluded.ends.imp_right fun hends => ⟨other, hother, hends⟩
  left := by
    intro other hother
    obtain hdies | ⟨ended, hended, hconcluded⟩ := halike.left other hother
    · exact .inl hdies
    · obtain hdies | hdies | hends := hconcluded.ends
      · exact .inr ⟨ended, hended, .inl hdies⟩
      · exact .inl hdies
      · exact .inr ⟨ended, hended, .inr hends⟩

end ConcludeAlike

/-- Machines that agree while nothing is scheduled execute the same token alike. -/
theorem Paired.executes_concludeAlike {leeway : Leeway} {depth : Nat} {left right : Machine}
    {token : Token} (hpaired : Paired leeway (.idle depth) (.idle depth) left right)
    (htoken : token.Plain) (host : HostOperators) :
    ConcludeAlike leeway depth (Machine.Executes host token left)
      (Machine.Executes host token right) := by
  rw [Machine.executes_eq hpaired.left, Machine.executes_eq hpaired.right]
  exact .of_endAlike (hpaired.run_schedule_endAlike htoken host)

namespace Machine

variable {host : HostOperators} {token : Token} {machine : Machine}

/-- A statement ends with tail elimination exactly if it ends without, and then the two ends
are related. -/
def IgnoresTailElimination (related : Outcome → Outcome → Prop) (host : HostOperators)
    (token : Token) (machine : Machine) : Prop :=
  EndTogether related (Executes host token (machine.withTailElimination true))
    (Executes host token (machine.withTailElimination false))

/-- With and without tail elimination a blank machine agrees with itself. -/
theorem Blank.paired_tailElimination (hblank : machine.Blank) :
    Paired (machine.limits .abreast) (.idle machine.depth) (.idle machine.depth)
      (machine.withTailElimination true) (machine.withTailElimination false) where
  alike :=
    { operands := rfl
      store := rfl
      scopes := rfl
      callback := rfl
      plain := { hblank.plain with }
      roomLeft := fun hroom _ => hroom
      roomRight := fun hroom _ => hroom
      stepLeft := fun _ => .inr Gait.noConfusion
      stepRight := fun _ => .inr Gait.noConfusion
      voice := fun _ => ⟨rfl, rfl⟩
      elimination := fun _ => rfl
      level := fun hlevel => Gait.noConfusion hlevel }
  left := hblank.paired.left
  right := hblank.paired.left

/-- Where storage never runs out, tail elimination does not matter, except that a statement
which fails without it may die of telling about a frame that was dropped with it.  Elsewhere
the same holds unless either dies. -/
theorem execute_tailElimination (hblank : machine.Blank) (htoken : token.Plain) :
    (machine.room = none →
        IgnoresTailElimination (fun early late => SameEnd early late ∨ Untold early late) host token
          machine) ∧
      EndTogetherUnless (fun _ => machine.room ≠ none)
        (fun early late => SameEnd early late ∨ Untold early late)
        (Executes host token (machine.withTailElimination true))
        (Executes host token (machine.withTailElimination false)) := by
  have hunless : EndTogetherUnless (fun _ => machine.room ≠ none)
      (fun early late => SameEnd early late ∨ Untold early late)
      (Executes host token (machine.withTailElimination true))
      (Executes host token (machine.withTailElimination false)) :=
    (hblank.paired_tailElimination.executes_concludeAlike htoken host).endTogetherUnless
  exact ⟨fun hroom => hunless.endTogether (fun _ hlimited => hlimited hroom) Executes.unique,
    hunless⟩

/-- A new machine with pools that can grow, and a procedure inside another one. -/
theorem execute_tailElimination_new_machine :
    ∃ machine, create {} Registration.standard = .ok machine ∧
      IgnoresTailElimination (fun early late => SameEnd early late ∨ Untold early late) .inert
        (.procedure ⟨⟨0⟩, [.integer 1, .procedure ⟨⟨1⟩, [.name "dup", .name "add"]⟩]⟩)
        machine := by
  obtain ⟨machine, hnew⟩ := exists_new
  exact ⟨machine, hnew.created, (execute_tailElimination hnew.blank (by decide)).1 hnew.room⟩

/-! ## Where tail elimination shows -/

/-- A statement ends without a fault only with tail elimination. -/
def NeedsTailElimination (host : HostOperators) (token : Token) (machine : Machine) : Prop :=
  DiesAlone (Executes host token (machine.withTailElimination false))
    (Executes host token (machine.withTailElimination true))

theorem NeedsTailElimination.of_execute (fuel : Nat)
    (hspared : ((execute host fuel token (machine.withTailElimination true)).any
      fun early => !decide (Faulted early)) = true)
    (hlost : ((execute host fuel token (machine.withTailElimination false)).any
      fun late => decide (Faulted late)) = true) : NeedsTailElimination host token machine := by
  obtain ⟨early, hearly, hunfaulted⟩ := exists_unfaulted hspared
  obtain ⟨late, hlate, hfaulted⟩ := exists_faulted hlost
  exact ⟨⟨late, ⟨fuel, hlate⟩, hfaulted⟩, ⟨early, ⟨fuel, hearly⟩, hunfaulted⟩⟩

/-- Procedures inside each other, each the last element of the next one. -/
def nestedProcedures : Nat → Draft
  | 0 => .procedure []
  | depth + 1 => .procedure [nestedProcedures depth]

/-- Where the pools cannot grow, the frames of twenty procedures inside each other
have no room at the same time, but one after the other they have. -/
theorem needsTailElimination_of_room :
    ∃ machine next token,
      create { pools := ⟨32, 2 ^ 60⟩ } Registration.standard = .ok machine ∧
        make (nestedProcedures 20) machine = .ok token next ∧
        next.Blank ∧ token.Plain ∧ NeedsTailElimination .inert token next := by
  have hchecked : (create { pools := ⟨32, 2 ^ 60⟩ } Registration.standard).toOption.any
      (fun machine => (succeeded? (make (nestedProcedures 20) machine)).any fun made =>
        decide made.2.Blank && decide made.1.Plain &&
          (execute .inert 2000 made.1 (made.2.withTailElimination true)).any
            (fun early => !decide (Faulted early)) &&
          (execute .inert 2000 made.1 (made.2.withTailElimination false)).any
            (fun late => decide (Faulted late))) = true := by
    decide +kernel
  obtain ⟨machine, hmachine, hmade⟩ := (Option.any_eq_true _ _).1 hchecked
  obtain ⟨⟨token, next⟩, hmake, hruns⟩ := (Option.any_eq_true _ _).1 hmade
  simp only [Bool.and_eq_true, decide_eq_true_eq, and_assoc] at hruns
  obtain ⟨hblank, hplain, hearly, hlate⟩ := hruns
  exact ⟨machine, next, token, eq_ok_of_toOption hmachine, eq_ok_of_succeeded? hmake, hblank,
    hplain, .of_execute 2000 hearly hlate⟩

/-- A procedure with a dictionary that is stored in itself, whose last element fails. -/
def failingCall : Token :=
  .procedure ⟨⟨0⟩, [knot, .function "pop" .pop, .procedure ⟨⟨1⟩, [.name "nowhere"]⟩]⟩

/-- Without tail elimination the frame of the outer procedure is still open when the inner one
fails, and its body has no text. -/
theorem needsTailElimination_of_listing : NeedsTailElimination .inert failingCall entangled :=
  NeedsTailElimination.of_execute 20 (by decide +kernel) (by decide +kernel)

/-- Tail elimination shows where the pools cannot grow, and in a backtrace. -/
theorem tailElimination_saves_from_fault :
    (∃ machine next token,
      create { pools := ⟨32, 2 ^ 60⟩ } Registration.standard = .ok machine ∧
        make (nestedProcedures 20) machine = .ok token next ∧
        next.Blank ∧ token.Plain ∧ ¬ IgnoresTailElimination SameEnd .inert token next) ∧
      entangled.Blank ∧ failingCall.Plain ∧
      ¬ IgnoresTailElimination SameEnd .inert failingCall entangled := by
  obtain ⟨machine, next, token, hcreate, hmake, hblank, hplain, hneeds⟩ :=
    needsTailElimination_of_room
  exact ⟨⟨machine, next, token, hcreate, hmake, hblank, hplain, hneeds.not_together_end⟩,
    blank_entangled, by decide, needsTailElimination_of_listing.not_together_end⟩

end Machine

end StackLang
