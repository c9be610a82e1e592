import StackLang.Proofs.Control.Rounds

/-!
# Procedures

A procedure is the sequence of its elements, wherever it is run.  Its frame hands them out
one by one, and what each of them does is the same above the frame and without it.  Where
frames are dropped early, the last element runs without the frame on both sides.
-/

namespace StackLang

variable {leeway : Leeway} {host : HostOperators} {first second : Control}
  {left right : Machine} {body : Procedure}

/-- What the step of a procedure frame comes to that has an element left: the frame is moved
on, or it is gone with its last element. -/
theorem Paired.advanceProcedure_alone {attributes : Attributes} {position : Int64}
    {element : Token} (hgait : leeway.gait = .apart)
    (hpaired : Paired leeway (first.enter (.procedure attributes body position)) second left right)
    (helement : Machine.elementAt body.body position = some element) :
    Agree leeway (Alike leeway) (fun _ left right =>
        Paired leeway ((first.enter (.procedure attributes body (position + 1))).push element)
          second left right ∨
        position.toInt.toNat + 1 = body.body.length ∧
          Paired leeway (first.push element) second left right)
      (Machine.advanceProcedure left) (.ok () right) := by
  have hbody : Machine.readFrame .procedure 2 left = .ok body left :=
    Machine.readFrame_eq (by decide) (by rw [hpaired.left]; rfl) rfl
  have hposition : Machine.readFrame .integer 1 left = .ok position left :=
    Machine.readFrame_eq (by decide) (by rw [hpaired.left]; rfl) rfl
  simp only [Machine.advanceProcedure, bind, EStateM.bind, hbody, hposition, helement]
  refine (hpaired.claim_alone _).alone fun claimed hclaimed => ?_
  refine (hclaimed.speak_alone hgait (Machine.speaks_pause body.body position)).alone
    fun paused hpaused => ?_
  simp only [get, getThe, MonadStateOf.get, EStateM.get]
  split
  · rename_i hlast
    obtain ⟨hlast, -⟩ := Bool.and_eq_true_iff.1 hlast
    refine (hpaused.closeFrame_alone rfl).alone fun _ hclosed => .ok (.inr ⟨?_, ?_⟩)
    · exact beq_iff_eq.1 hlast
    · exact hclosed.schedule_alone element
  · refine (hpaused.writeFrame_alone (.procedure attributes body (position + 1)) (fun _ => rfl)
      fun _ => rfl).alone fun _ hwritten => .ok (.inl (hwritten.schedule_alone element))

/-- The frame of a procedure without elements left goes. -/
theorem Paired.advanceProcedure_done {attributes : Attributes} {position : Int64}
    (hpaired : Paired leeway (first.enter (.procedure attributes body position)) second left right)
    (hspent : Machine.elementAt body.body position = none) :
    Agree leeway (Alike leeway) (fun _ => Paired leeway first second)
      (Machine.advanceProcedure left) (.ok () right) := by
  obtain ⟨execution, depth, hrun, hcontrol⟩ := Machine.advanceProcedure_spent hpaired.left hspent
  rw [hrun]
  exact .ok ⟨hpaired.alike.withControl _ _ _ _, hcontrol, hpaired.right⟩

/-- Where an element leads, the procedure goes on if its frame is still there. -/
theorem Landed.standing_endAlike {frame : Frame} {further : Machine → Outcome → Prop}
    (hlanded : Landed leeway (first.enter frame) second left right)
    (hframe : (first.enter frame).left? = first.left?) (hexit : first.left? = second.left?)
    (hgoes : Paired leeway (first.enter frame) second left right →
      EndAlike leeway (Alike leeway) (Landed leeway first second)
        (Machine.Drains host first.items.length left) (further right)) :
    EndAlike leeway (Alike leeway) (Landed leeway first second)
      (Machine.Drains host first.items.length left)
      (Machine.Standing second.items.length further right) := by
  cases hlanded with
  | back hback =>
    have hload := Machine.load_of_control hback.right
    rw [Machine.standing_of_le (by omega)]
    exact hgoes hback
  | @left outer hout hleft =>
    rw [hframe] at hout
    have hload := Machine.load_of_control hleft.left
    have hother := Machine.load_of_control hleft.right
    have hshorter := Control.length_lt_of_left? hout
    have hlower := Control.length_lt_of_left? (hexit ▸ hout)
    rw [Machine.standing_of_lt (by omega)]
    exact .of_drained (by omega) (.left hout hleft)

/-- The elements of a procedure that are left run in order.  The last one may run without the
frame. -/
theorem Paired.procedure_elements {attributes : Attributes} (hgait : leeway.gait = .apart)
    (hexit : first.left? = second.left?) (hbody : body.Plain)
    (hlength : body.body.length < 2 ^ 63) {k : Nat}
    (hk : k ≤ body.body.length)
    (hpaired : Paired leeway (first.enter (.procedure attributes body (.ofNat k))) second
      left right) :
    EndAlike leeway (Alike leeway) (Landed leeway first second)
      (Machine.Drains host first.items.length left)
      (Machine.InOrder host second.items.length (body.body.drop k) right) := by
  induction hleft : body.body.length - k generalizing k left right with
  | zero =>
    obtain rfl : k = body.body.length := by omega
    rw [List.drop_length]
    refine .of_step (Machine.lt_load_of_enter hpaired.left) (Machine.step_of_enter hpaired.left)
      (hpaired.advanceProcedure_done (Machine.elementAt_length hlength)) fun next hnext => ?_
    have hload := Machine.load_of_control hnext.left
    exact .of_drained (by omega) (.back hnext)
  | succ n ih =>
    have hlt : k < body.body.length := by omega
    have hplain : body.body[k].Plain := hbody _ (List.getElem_mem hlt)
    rw [List.drop_eq_getElem_cons hlt, Machine.InOrder]
    refine .of_step (Machine.lt_load_of_enter hpaired.left) (Machine.step_of_enter hpaired.left)
      (hpaired.advanceProcedure_alone hgait (Machine.elementAt_of_lt hlength hlt))
      fun next hnext => ?_
    -- The frame stays for the elements to come, or goes before the last one runs.
    obtain hkept | ⟨hlast, hgone⟩ := hnext
    · rw [Machine.ofNat_succ] at hkept
      have hsound : (Frame.procedure attributes body (.ofNat (k + 1))).Sound :=
        ⟨hbody, k + 1, hlt, rfl⟩
      have hframe : (first.enter (.procedure attributes body (.ofNat (k + 1)))).left? =
          first.left? := by
        rw [Control.left?_enter hsound.shaped]
        rfl
      have hbelow : first.items.length <
          (first.enter (.procedure attributes body (.ofNat (k + 1)))).items.length :=
        Control.length_lt_enter (Nat.le_refl _)
      rw [Machine.drains_above (Nat.le_of_lt hbelow)]
      refine (hkept.token_endAlike host (hframe.trans hexit) hplain).then
        fun next other hlanded => ?_
      exact hlanded.standing_endAlike hframe hexit fun hback => ih hlt hback (by omega)
    · have hlength' : k + 1 = body.body.length := by
        rw [Int64.toInt_ofNat_of_lt (by omega)] at hlast
        simpa using hlast
      rw [List.drop_eq_nil_of_le (by omega)]
      simp only [Machine.InOrder, Machine.standing_eq_ok, Machine.then_eq_ok]
      exact hgone.token_endAlike host hexit hplain

/-- A procedure is the sequence of its elements, also above open frames. -/
theorem Paired.procedure_endAlike {attributes : Attributes} (hgait : leeway.gait = .apart)
    (hexit : first.left? = second.left?) (hbody : body.Plain) (hlength : body.body.length < 2 ^ 63)
    (hpaired : Paired leeway (first.push (.datum (.procedure body.id body.body) attributes)) second
      left right) :
    EndAlike leeway (Alike leeway) (Landed leeway first second)
      (Machine.Drains host first.items.length left)
      (Machine.InOrder host second.items.length body.body right) := by
  have hitems : left.execution.items =
      .datum (.procedure body.id body.body) attributes :: first.items :=
    congrArg Control.items hpaired.left
  have hstep : Machine.step host left = .finished (Machine.openProcedure left) := by
    unfold Machine.step
    rw [hitems]
    rfl
  have hload : first.items.length < left.execution.load := by
    rw [left.execution.load_eq, hitems]
    exact Nat.lt_succ_self _
  refine .of_step hload hstep (hpaired.openFrame_alone .iterate [Machine.numberPart 0])
    fun next hopened => ?_
  exact Paired.procedure_elements hgait hexit hbody hlength (Nat.zero_le _) hopened

end StackLang
