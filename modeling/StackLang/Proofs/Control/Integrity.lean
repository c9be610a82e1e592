import StackLang.Proofs.Control.Statements

/-!
# The execution stack of a statement

Frames are tokens like any others, and only the offsets in the code keep them
apart.  Still the stack never falls into disorder: between any two steps of a
statement it holds complete frames and at most one token that is to be executed
next, on top of what the statement found.

The proof lets a machine run beside itself, so that the invariant of two machines
that agree gives the layout of one.
-/

namespace StackLang

open Relation (ReflTransGen)

namespace Frame

/-- Where the frame is among its elements. -/
def position : Frame → Int64
  | procedure _ _ position | loop _ position | repetition _ _ position
  | counting _ _ _ _ position | forAll _ _ _ position _ => position

/-- The number of elements of the frame: those of its body, or those of the object
that it visits. -/
def extent : Frame → Nat
  | procedure _ body _ | loop body _ | repetition _ body _ | counting _ _ _ body _ =>
    body.body.length
  | forAll primitive object _ _ _ =>
    ((Machine.elementsOf primitive.isIndexed object).map Prod.fst).getD 0

/-- A frame in good order: its primitive is on top, its mark at the bottom if it is
a loop, and neither is in between; its position does not leave its elements.  A
number of elements that is no number of the machine says nothing. -/
structure Intact (frame : Frame) : Prop where
  complete : frame.tokens.length = frame.primitive.frameSize
  layout : ∃ parts, frame.tokens = .primitive frame.primitive ::
      (parts ++ if frame.isLoop then [.mark] else []) ∧
    ∀ token ∈ parts, token.isA .mark = false ∧ token.isA .primitive = false
  range : frame.extent < 2 ^ 63 →
    0 ≤ frame.position.toInt ∧ frame.position.toInt ≤ frame.extent
  visited : ∀ primitive object limit position body,
    frame = forAll primitive object limit position body →
      Machine.elementsOf primitive.isIndexed object = some (frame.extent, primitive) ∧
        (frame.extent < 2 ^ 63 → limit.toInt = frame.extent)

theorem Sound.counts {frame : Frame} (hsound : frame.Sound) :
    Counts frame.extent frame.position := by
  cases frame with
  | procedure | loop | repetition | counting => exact hsound.2
  | forAll primitive object limit position body =>
    obtain ⟨-, -, n, helements, -, hcounts⟩ := hsound
    simp only [extent, helements]
    exact hcounts

theorem Sound.intact {frame : Frame} (hsound : frame.Sound) : frame.Intact where
  complete := hsound.length_tokens
  layout := ⟨frame.parts, frame.tokens_eq, fun _ hmem => hsound.parts_tag hmem⟩
  range := hsound.counts.range
  visited := by
    rintro primitive object limit position body rfl
    obtain ⟨-, -, n, helements, rfl, -⟩ := hsound
    have hextent : (forAll primitive object (Int64.ofNat n) position body).extent = n := by
      simp [extent, helements]
    rw [hextent]
    exact ⟨helements, fun hn => Int64.toInt_ofNat_of_lt hn⟩

end Frame

/-- Above what it found, a statement has frames open and at most one token pending
on top of them. -/
structure Stacked (start state : Machine) (pending : Option Token) (frames : List Frame) :
    Prop where
  items : state.execution.items =
    pending.toList ++ frames.flatMap Frame.tokens ++ start.execution.items
  depth : state.depth = start.depth + frames.length
  pending : ∀ token ∈ pending, token.isA .primitive = false
  intact : ∀ frame ∈ frames, frame.Intact

namespace Matched

variable {first second base : Control} {left right machine next : Machine}
  {host : HostOperators}

/-- A machine that is matched with itself stays so. -/
theorem of_turn (hmatched : Matched .free base base machine machine) (hbase : base.Unmarked)
    (hturn : Machine.Turn host base.items.length machine next) :
    Matched .free base base next next := by
  -- The machine is compared with itself, so whichever of the two goes on, it is this turn.
  obtain hpaired | ⟨hload, -, hagree⟩ | ⟨hload, other, hother, hnext, -⟩ :=
    hmatched.cases_step rfl host
  · cases hturn with
    | callback hdrained hcallback => exact of_callback hpaired
    | step hload | nested hload =>
      rw [machine.execution.load_eq, ← hpaired.left] at hload
      exact absurd hload (Nat.lt_irrefl _)
  · cases hturn with
    | callback hdrained hcallback => exact absurd hload hdrained
    | nested _ hstep =>
      rw [hstep] at hagree
      cases hagree
    | step _ hstep =>
      rw [hstep] at hagree
      cases hagree with
      | finished hagree =>
        cases hagree with
        | ok hnext => exact of_reached hbase hnext
  · cases hturn with
    | callback hdrained hcallback => exact absurd hload hdrained
    | nested _ hstep =>
      rw [hstep] at hother
      cases hother
    | step _ hstep =>
      rw [hstep] at hother
      cases hother
      exact hnext.diagonal

theorem of_turns (hmatched : Matched .free base base machine machine) (hbase : base.Unmarked)
    (hturns : ReflTransGen (Machine.Turn host base.items.length) machine next) :
    Matched .free base base next next := by
  induction hturns with
  | refl => exact hmatched
  | tail hturns hturn ih => exact ih.of_turn hbase hturn

theorem stacked {start : Machine}
    (hmatched : Matched .free start.control start.control machine machine) :
    ∃ pending frames, Stacked start machine pending frames := by
  obtain ⟨pending, inner, frames, haligned⟩ := hmatched
  have hcontrol := haligned.paired.right
  have hitems : machine.execution.items =
      ((start.control.within frames).awaiting pending).items :=
    congrArg Control.items hcontrol
  have hdepth : machine.depth = ((start.control.within frames).awaiting pending).depth :=
    congrArg Control.depth hcontrol
  refine ⟨pending, frames, ?_, ?_, ?_, fun frame hmem => (haligned.sound frame hmem).intact⟩
  · calc
      machine.execution.items =
          pending.toList ++ (start.control.within frames).items := by
        rw [hitems, Control.items_awaiting]
      _ = pending.toList ++ frames.flatMap Frame.tokens ++ start.execution.items := by
        rw [Control.items_within, List.append_assoc]
        rfl
  · calc
      machine.depth = (start.control.within frames).depth := by
        rw [hdepth, Control.depth_awaiting]
      _ = start.depth + frames.length := Control.depth_within frames start.control
  · intro token hmem
    exact (haligned.plain token hmem).not_primitive

end Matched

/-- The machines that a host has between its statements: a new one with the
operators of the language, one whose data the host has changed, and one that a
statement has left. -/
inductive Session (host : HostOperators) : Machine → Prop where
  | created {config : Config} {machine : Machine}
    (hcreate : Machine.create config Registration.standard = .ok machine) :
    Session host machine
  | changed {machine next : Machine} (hsession : Session host machine)
    (hexecution : next.execution.items = machine.execution.items)
    (hdepth : next.depth = machine.depth) (hplain : next.Plain) : Session host next
  | done {machine next : Machine} {token : Token} {fuel : Nat}
    (hsession : Session host machine) (htoken : token.Plain)
    (hexecute : Machine.execute host fuel token machine = some (.ok () next)) :
    Session host next
  | failed {machine next : Machine} {token : Token} {fuel : Nat} {error : Error}
    (hsession : Session host machine) (htoken : token.Plain)
    (hexecute : Machine.execute host fuel token machine = some (.error (.error error) next)) :
    Session host next

namespace Session

variable {host : HostOperators} {machine state : Machine} {token : Token}

theorem blank (hsession : Session host machine) : machine.Blank := by
  induction hsession with
  | created hcreate => exact Machine.blank_of_create_standard hcreate
  | changed hsession hexecution hdepth hplain ih =>
    exact ⟨hexecution.trans ih.execution, hplain⟩
  | done hsession htoken hexecute ih => exact ih.of_execute htoken hexecute (.inl rfl)
  | failed hsession htoken hexecute ih => exact ih.of_execute htoken hexecute (.inr ⟨_, rfl⟩)

/-- In every state between two steps of a statement the execution stack is in good
order. -/
theorem exists_stacked (hsession : Session host machine) (htoken : token.Plain)
    (hturns : ReflTransGen (Machine.Turn host machine.execution.load)
      (machine.schedule token) state) :
    ∃ pending frames, Stacked machine state pending frames := by
  have hpaired := hsession.blank.paired
  have hbase : machine.control = .idle machine.depth := hpaired.left
  have hload : machine.execution.load = machine.control.items.length :=
    machine.execution.load_eq
  rw [hload] at hturns
  rw [← hbase] at hpaired
  exact ((Matched.of_schedule hpaired htoken).of_turns
    (hbase ▸ Control.unmarked_idle machine.depth) hturns).stacked

/-- A new machine that opens a procedure as its first step. -/
theorem exists_stacked_first_step :
    ∃ machine state, Session .inert machine ∧
      Machine.step .inert (machine.schedule (.procedure ⟨⟨0⟩, [.integer 1, .mark]⟩)) =
        .finished (.ok () state) ∧
      ∃ pending frames, Stacked machine state pending frames := by
  have hchecked : (Machine.create {} Registration.standard).toOption.any (fun machine =>
      (succeeded? (Machine.openProcedure
        (machine.schedule (.procedure ⟨⟨0⟩, [.integer 1, .mark]⟩)))).isSome) = true := by
    decide +kernel
  obtain ⟨machine, hmachine, hopens⟩ := (Option.any_eq_true _ _).1 hchecked
  obtain ⟨⟨value, state⟩, hsome⟩ := Option.isSome_iff_exists.1 hopens
  have hsession : Session .inert machine := .created (eq_ok_of_toOption hmachine)
  have hstep : Machine.step .inert
      (machine.schedule (.procedure ⟨⟨0⟩, [.integer 1, .mark]⟩)) = .finished (.ok () state) :=
    congrArg Effect.finished (eq_ok_of_succeeded? hsome)
  have hload : machine.execution.load <
      (machine.schedule (.procedure ⟨⟨0⟩, [.integer 1, .mark]⟩)).execution.load :=
    Nat.lt_succ_self _
  exact ⟨machine, state, hsession, hstep,
    exists_stacked hsession (by decide) (.single (.step hload hstep))⟩

end Session

end StackLang
