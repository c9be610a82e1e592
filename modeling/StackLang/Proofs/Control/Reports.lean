import StackLang.Proofs.Control.Steps

/-!
# Reports about frames

A backtrace has one report for each open frame, the innermost first, and it reads nothing
below the frame.  It has a text exactly if each of the reports has one; a statement that
fails while some report has none never returns its error.
-/

namespace StackLang

/-- All elements have a result exactly if each of them has one. -/
theorem isSome_mapM {α β : Type} {f : α → Option β} {items : List α} :
    (items.mapM f).isSome ↔ ∀ item ∈ items, (f item).isSome := by
  induction items with
  | nil => simp
  | cons item rest ih =>
    rw [List.mapM_cons, List.forall_mem_cons, ← ih]
    cases f item with
    | none => simp
    | some own => cases rest.mapM f <;> simp

namespace Frame

/-- What a backtrace tells about the frame. -/
def report (frame : Frame) : FrameReport :=
  .ofFrame frame.primitive frame.tokens

/-- A report reads nothing below the frame. -/
theorem ofFrame_tokens (frame : Frame) (below : List Token) :
    FrameReport.ofFrame frame.primitive (frame.tokens ++ below) = frame.report := by
  cases frame with
  | forAll primitive => cases primitive <;> rfl
  | procedure | loop | repetition | counting => rfl

end Frame

namespace Machine

theorem frameReports_skip {above : List Token}
    (habove : ∀ token ∈ above, token.isA .primitive = false) (count : Nat) (below : List Token) :
    frameReports (above.length + count) (above ++ below) = frameReports count below := by
  induction above with
  | nil => rw [List.length_nil, Nat.zero_add, List.nil_append]
  | cons token above ih =>
    rw [List.length_cons, Nat.add_right_comm, List.cons_append, frameReports,
      ih fun own hmem => habove own (.tail _ hmem)]
    rintro primitive attributes rfl
    cases habove _ (.head _)

theorem frameReports_frame {frame : Frame} (hframe : frame.Shaped) (count : Nat)
    (below : List Token) :
    frameReports (frame.tokens.length + count) (frame.tokens ++ below) =
      frame.report :: frameReports count below := by
  rw [← frame.ofFrame_tokens below]
  have hrest : ∀ token ∈ frame.parts ++ (if frame.isLoop then [.mark] else []),
      token.isA .primitive = false := by
    intro token hmem
    obtain hpart | hmark := List.mem_append.1 hmem
    · exact (hframe.parts_tag token hpart).2
    · split at hmark
      · obtain rfl := List.mem_singleton.1 hmark
        rfl
      · cases hmark
  rw [frame.tokens_eq, List.length_cons, Nat.add_right_comm, List.cons_append]
  exact congrArg (_ :: ·) (frameReports_skip hrest count below)

/-- A stack of frames has one report for each of them. -/
theorem frameReports_frames {frames : List Frame} (hframes : ∀ frame ∈ frames, frame.Shaped)
    (below : List Token) :
    frameReports (frames.flatMap Frame.tokens).length (frames.flatMap Frame.tokens ++ below) =
      frames.map Frame.report := by
  induction frames with
  | nil => rfl
  | cons frame rest ih =>
    rw [List.flatMap_cons, List.length_append, List.append_assoc,
      frameReports_frame (hframes frame (.head _)),
      ih fun own hmem => hframes own (.tail _ hmem), List.map_cons]

variable {base : Control} {machine : Machine} {pending : Option Token} {frames : List Frame}

/-- The backtrace of a machine that has frames open, whether or not a token is pending. -/
theorem backtrace?_eq (hpending : ∀ token ∈ pending, token.isA .primitive = false)
    (hframes : ∀ frame ∈ frames, frame.Shaped)
    (hcontrol : machine.control = (base.within frames).awaiting pending) (error : Error) :
    machine.backtrace? base.items.length error =
      ((frames.map Frame.report).mapM (FrameReport.render? machine.store.display?)).map
        fun texts => error.message ++ "\n" ++ String.join texts := by
  have hitems : machine.execution.items =
      pending.toList ++ (frames.flatMap Frame.tokens ++ base.items) := by
    rw [← Control.items_within, ← Control.items_awaiting]
    exact congrArg Control.items hcontrol
  have hload : machine.execution.load - base.items.length =
      pending.toList.length + (frames.flatMap Frame.tokens).length := by
    rw [machine.execution.load_eq, hitems, List.length_append, List.length_append]
    omega
  have hskipped : ∀ token ∈ pending.toList, token.isA .primitive = false := fun token hmem =>
    hpending token (by simpa using hmem)
  rw [backtrace?, hitems, hload, frameReports_skip hskipped, frameReports_frames hframes]
  cases (frames.map Frame.report).mapM (FrameReport.render? machine.store.display?) <;> rfl

theorem isSome_backtrace? (hpending : ∀ token ∈ pending, token.isA .primitive = false)
    (hframes : ∀ frame ∈ frames, frame.Shaped)
    (hcontrol : machine.control = (base.within frames).awaiting pending) (error : Error) :
    (machine.backtrace? base.items.length error).isSome ↔
      ∀ frame ∈ frames, (frame.report.render? machine.store.display?).isSome := by
  rw [backtrace?_eq hpending hframes hcontrol, Option.isSome_map, isSome_mapM]
  simp

/-- Reports are no part of a backtrace. -/
theorem backtrace?_report (event : Event) (load : Nat) (error : Error) (machine : Machine) :
    (machine.report event).backtrace? load error = machine.backtrace? load error := by
  have hquiet : (machine.report event).store.display? = machine.store.display? :=
    Store.display?_congr rfl
  rw [backtrace?, backtrace?, hquiet]
  rfl

/-- A statement that is given up returns its error, if the backtrace has a text. -/
theorem abandon_eq (load depth : Nat) (error : Error) (machine : Machine) :
    abandon load depth error machine =
      match machine.backtrace? load error with
      | none => .error (.fault .endlessText) (machine.report (.statementFailed error))
      | some text => .error (.error error) (discarded load depth
          ((machine.report (.statementFailed error)).emit .backtrace text)) := by
  simp only [abandon, bind, EStateM.bind, modify, modifyGet, MonadStateOf.modifyGet,
    EStateM.modifyGet, get, getThe, MonadStateOf.get, EStateM.get, backtrace?_report]
  cases machine.backtrace? load error <;> rfl

/-- A statement that has failed ends with a failure. -/
theorem exists_conclude_error (load depth : Nat) (failure : Failure) (machine : Machine) :
    ∃ other last, conclude load depth (.error failure machine) = .error other last := by
  cases failure with
  | fault fault => exact ⟨.fault fault, machine, rfl⟩
  | error error =>
    simp only [conclude, EStateM.run, abandon_eq]
    cases machine.backtrace? load error with
    | none => exact ⟨_, _, rfl⟩
    | some text => exact ⟨_, _, rfl⟩

/-- A statement that returns an error has written a backtrace before. -/
theorem conclude_eq_error {load depth : Nat} {outcome : Outcome} {error : Error} {next : Machine}
    (hconclude : conclude load depth outcome = .error (.error error) next) :
    ∃ failed text, outcome = .error (.error error) failed ∧
      failed.backtrace? load error = some text := by
  cases outcome with
  | ok value machine => cases hconclude
  | error failure machine =>
    cases failure with
    | fault fault => cases hconclude
    | error own =>
      simp only [conclude, EStateM.run, abandon_eq] at hconclude
      cases htext : machine.backtrace? load own with
      | none =>
        rw [htext] at hconclude
        cases hconclude
      | some text =>
        rw [htext] at hconclude
        cases hconclude
        exact ⟨machine, text, rfl, htext⟩

/-- What giving up a statement neither shows nor touches makes no difference to it. -/
theorem conclude_mapOutcome {load depth : Nat} {change : Machine → Machine}
    (htext : ∀ machine error,
      (change machine).backtrace? load error = machine.backtrace? load error)
    (hreport : ∀ machine event, (change machine).report event = change (machine.report event))
    (hdiscarded : ∀ machine text, ((change machine).emit .backtrace text).discarded load depth =
      change ((machine.emit .backtrace text).discarded load depth)) (outcome : Outcome) :
    conclude load depth (mapOutcome change outcome) =
      mapOutcome change (conclude load depth outcome) := by
  cases outcome with
  | ok => rfl
  | error failure machine =>
    cases failure with
    | fault => rfl
    | error error =>
      simp only [conclude, mapOutcome, EStateM.run, abandon_eq, htext, hreport, hdiscarded]
      cases machine.backtrace? load error <;> rfl

end Machine

/-- Matched machines that fail: whatever the right one can tell about its frames, the left
one can, since it has no others. -/
theorem Matched.isSome_backtrace? {leeway : Leeway} {first second : Control}
    {left right : Machine} (hmatched : Matched leeway first second left right) (error : Error) :
    ((right.backtrace? second.items.length error).isSome →
        (left.backtrace? first.items.length error).isSome) ∧
      (leeway.gait = .level → (left.backtrace? first.items.length error).isSome →
        (right.backtrace? second.items.length error).isSome) := by
  obtain ⟨pending, inner, outer, hthinned, hsound, hplain, hpaired⟩ := hmatched
  have hpending : ∀ token ∈ pending, token.isA .primitive = false := fun token hmem =>
    (hplain token hmem).not_primitive
  have houter : ∀ frame ∈ outer, frame.Shaped := fun frame hmem => (hsound frame hmem).shaped
  have hinner : ∀ frame ∈ inner, frame.Shaped := fun frame hmem =>
    houter frame (hthinned.subset hmem)
  rw [Machine.isSome_backtrace? hpending hinner hpaired.left,
    Machine.isSome_backtrace? hpending houter hpaired.right, hpaired.alike.display?]
  refine ⟨fun hall frame hmem => hall frame (hthinned.subset hmem), fun hlevel hall => ?_⟩
  rwa [← hthinned.eq_of_level hlevel]

end StackLang
