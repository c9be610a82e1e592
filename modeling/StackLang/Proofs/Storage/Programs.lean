import StackLang.Proofs.Storage.Slots

/-!
# Programs that work on tokens

A program makes, copies, moves and drops tokens, which stand in slots, puts them into
dictionaries and containers, and installs pools as it likes.  Besides, it holds dictionaries
that are in no token.  Whatever it does, and even if there is no room for a datum on the
way, the books balance with nothing in hand but the dictionaries that the program holds.
-/

namespace StackLang

/-- One operation of a program on its tokens. -/
inductive TokenOperation where
  /-- Makes a token in a new slot. -/
  | add (draft : Draft)
  /-- Makes a token and puts it into a slot. -/
  | put (slot : Nat) (draft : Draft)
  /-- Makes a token that leads to a dictionary without keeping it alive. -/
  | refer (slot : Nat) (id : DictId)
  /-- Makes an array of the tokens in some slots, which are void then. -/
  | array (sources : List Nat) (slot : Nat)
  /-- Makes a procedure of the tokens in some slots, which are void then. -/
  | procedure (literal : Bool) (sources : List Nat) (slot : Nat)
  /-- Wraps the token in a slot, which is void then. -/
  | callback (source slot : Nat)
  | copy (source target : Nat)
  /-- Copies a token that is anywhere, be it deep inside others. -/
  | copyPart (part : Token) (slot : Nat)
  | take (source target : Nat)
  | swap (first second : Nat)
  | clear (slot : Nat)
  /-- Appends a new token to the array in a slot. -/
  | append (slot : Nat) (draft : Draft)
  /-- Appends the token of a slot, which is void then, to the array in another one. -/
  | push (source target : Nat)
  /-- Moves the token of a slot into a dictionary. -/
  | insert (source : Nat) (target : DictId) (name : Name)
  | remove (target : DictId) (name : Name)
  | reserve (tag : TypeTag) (n : Nat)
  | install (config : PoolConfig)
  | teardown
  | stats (tag : TypeTag)

namespace Workspace

/-- Takes the token out of a slot, which is void then. -/
def takeSlot (i : Nat) : Work Token := do
  let token := (← get).token i
  modifySlot i fun _ => {}
  return token

/-- Takes the tokens out of some slots, one after the other. -/
def takeSlots : List Nat → Work (List Token)
  | [] => return []
  | i :: rest => do
    let token ← takeSlot i
    return token :: (← takeSlots rest)

/-- Makes a procedure of tokens. -/
def newProcedure (literal : Bool) (tokens : List Token) : Work Token := do
  let id ← newBody
  place (if literal then .litProcedure id tokens else .procedure id tokens) true

end Workspace

open Workspace

namespace TokenOperation

/-- What an operation does. -/
def run : TokenOperation → Work Unit
  | .add draft => addSlot draft
  | .put i draft => Workspace.put i draft
  | .refer i id => do
    assign i { token := ← place (.dictionary (.aliased id)) true }
  | .array sources i => do
    let tokens ← takeSlots sources
    assign i { token := ← place (.array tokens) true }
  | .procedure literal sources i => do
    let tokens ← takeSlots sources
    assign i { token := ← newProcedure literal tokens }
  | .callback source i => do
    let token ← takeSlot source
    assign i { token := ← place (.callback token) true }
  | .copy source target => copySlot source target
  | .copyPart part i => do
    assign i { token := ← part.copy }
  | .take source target => moveSlot source target
  | .swap first second => swapSlots first second
  | .clear i => clearSlot i
  | .append i draft => do
    let _ ← Workspace.append i draft
  | .push source target => do
    let item ← takeSlot source
    if ← isArray target then pushItem target item else release item
  | .insert source target name => do
    let token ← takeSlot source
    Workspace.insert target name token
  | .remove target name => Workspace.remove target name
  | .reserve tag n => Workspace.reserve tag n
  | .install config => Workspace.install config
  | .teardown => Workspace.teardown
  | .stats tag => do
    let _ ← Workspace.stats tag

/-- What a program may do: tokens go into slots that there are, handles lead to
dictionaries that have been made, and only dictionaries that are alive are written. -/
def Allowed (work : Workspace) : TokenOperation → Prop
  | .add draft => Made work draft.dictionaries
  | .put i draft => i < work.slots.size ∧ Made work draft.dictionaries
  | .refer i _ => i < work.slots.size
  | .array _ i => i < work.slots.size
  | .procedure _ _ i => i < work.slots.size
  | .callback _ i => i < work.slots.size
  | .copy _ target => target < work.slots.size
  | .copyPart part i => i < work.slots.size ∧ part ∈ Token.partsOfAll work.tokens
  | .take _ target => target < work.slots.size
  | .swap first second => first < work.slots.size ∧ second < work.slots.size
  | .append _ draft => Made work draft.dictionaries
  | .insert _ target _ => work.isAlive target = true
  | .remove target _ => work.isAlive target = true
  | _ => True

end TokenOperation

namespace Workspace

variable {work : Workspace} {hand : Multiset Asset} {i : Nat}

theorem takeSlot_eq (i : Nat) (work : Workspace) :
    takeSlot i work = .ok (work.token i) (work.withSlot i fun _ => {}) := rfl

theorem Holds.takeSlot (hholds : Holds work hand) (i : Nat) :
    Holds (work.withSlot i fun _ => {}) ((work.token i).assets + hand) :=
  hholds.voidSlot rfl

theorem Holds.takeSlots (hholds : Holds work hand) (sources : List Nat) :
    ∃ tokens next, Workspace.takeSlots sources work = .ok tokens next ∧
      next.slots.size = work.slots.size ∧ Holds next (Token.assetsOfAll tokens + hand) := by
  induction sources generalizing work hand with
  | nil => exact ⟨[], work, rfl, rfl, by simpa using hholds⟩
  | cons i rest ih =>
    obtain ⟨tokens, next, hrun, hsize, hnext⟩ := ih (hholds.takeSlot i)
    refine ⟨work.token i :: tokens, next, ?_, by simpa using hsize, ?_⟩
    · rw [Workspace.takeSlots]
      simp only [bind, EStateM.bind, takeSlot_eq, hrun]
      rfl
    · rw [Token.assetsOfAll_cons]
      convert hnext using 1
      ac_rfl

theorem Brings.newProcedure {tokens : List Token}
    (hholds : Holds work (Token.assetsOfAll tokens + hand)) (literal : Bool) :
    Brings Token.assets (Workspace.newProcedure literal tokens) work hand := by
  refine (Brings.newBody hholds).bind fun id later _ hlater => .place ?_ true
  cases literal <;> exact hlater

theorem isAlive_iff {id : DictId} :
    work.isAlive id = true ↔ .object (.dictionary id) ∈ work.handles :=
  List.contains_iff_mem

/-- A token made of the tokens in some slots goes into a slot. -/
theorem Holds.enclose (hholds : Holds work hand) (sources : List Nat)
    (hlt : i < work.slots.size) {make : List Token → Work Token}
    (hmake : ∀ tokens later, Holds later (Token.assetsOfAll tokens + hand) →
      Brings Token.assets (make tokens) later hand) :
    Concludes
      (do
        let tokens ← Workspace.takeSlots sources
        Workspace.assign i { token := ← make tokens }) work hand := by
  obtain ⟨tokens, later, hrun, hsize, hlater⟩ := hholds.takeSlots sources
  exact .after hrun ((hmake tokens later hlater).assign (by rwa [hsize]))

end Workspace

/-- Whatever an operation does, and whether it faults or not, nothing is left in hand but
what was in hand before. -/
theorem TokenOperation.run_concludes {work : Workspace} {hand : Multiset Asset}
    {operation : TokenOperation} (hallowed : operation.Allowed work) (hholds : Holds work hand) :
    Concludes operation.run work hand := by
  cases operation with
  | add draft => exact hholds.addSlot hallowed
  | put i draft => exact hholds.put hallowed.2 hallowed.1
  | refer i id => exact (Brings.place_bare (by simp [Value.assets]) hholds true).assign hallowed
  | array sources i =>
    exact hholds.enclose sources hallowed fun tokens later hlater => .place hlater true
  | procedure literal sources i =>
    exact hholds.enclose sources hallowed fun tokens later hlater => .newProcedure hlater literal
  | callback source i =>
    exact .after (takeSlot_eq source work) ((Brings.place (hholds.takeSlot source) true).assign
      (by rw [size_withSlot]; exact hallowed))
  | copy source target => exact hholds.copySlot source hallowed
  | copyPart part i => exact (hholds.copyOf hallowed.2).assign hallowed.1
  | take source target => exact hholds.moveSlot source hallowed
  | swap first second => exact hholds.swapSlots hallowed.1 hallowed.2
  | clear i =>
    obtain ⟨next, hrun, hnext, -⟩ := hholds.clearSlot i
    exact .of_run hrun hnext
  | append i draft => exact (hholds.append hallowed i).bind fun _ _ hlater => .pure hlater
  | push source target =>
    have htaken := hholds.takeSlot source
    refine .after (takeSlot_eq source work) (.after rfl ?_)
    split
    case isTrue harray => exact htaken.pushItem harray
    case isFalse => exact htaken.release.concludes
  | insert source target name =>
    have htaken := hholds.takeSlot source
    obtain ⟨next, hrun, -, hnext⟩ := htaken.insert (isAlive_iff.1 hallowed) name
    exact .after (takeSlot_eq source work) (Concludes.of_run hrun hnext)
  | remove target name =>
    obtain ⟨next, hrun, -, hnext⟩ := hholds.remove (isAlive_iff.1 hallowed) name
    exact .of_run hrun hnext
  | reserve tag n => exact hholds.reserve tag n
  | install config => exact hholds.install config
  | teardown => exact hholds.teardown
  | stats tag => exact (hholds.stats tag).bind fun _ _ hlater => .pure hlater

namespace Workspace

/-- The state that an action ends in, whether it faults or not. -/
def after {α : Type} (action : Work α) (work : Workspace) : Workspace :=
  match action.run work with
  | .ok _ next => next
  | .error _ next => next

/-- The workspaces that a program can come to, with the dictionaries that it holds besides
those in its tokens. -/
inductive Reached : Workspace → List DictId → Prop where
  | start : Reached {} []
  | operate {work : Workspace} {held : List DictId} (operation : TokenOperation)
    (hreached : Reached work held) (hallowed : operation.Allowed work) :
    Reached (work.after operation.run) held
  /-- Makes a dictionary and holds it. -/
  | makeDictionary {work : Workspace} {held : List DictId} (hreached : Reached work held) :
    Reached (work.after newDictionary) (⟨work.store.dictionaries.size⟩ :: held)
  /-- Holds a dictionary that something keeps alive already. -/
  | hold {work : Workspace} {held : List DictId} {id : DictId} (hreached : Reached work held)
    (halive : work.isAlive id = true) :
    Reached (work.after (addHandle (.object (.dictionary id)))) (id :: held)
  | letGo {work : Workspace} {held : List DictId} {id : DictId} (hreached : Reached work held)
    (hheld : id ∈ held) :
    Reached (work.after ((Value.dictionary (.owned id)).release empty)) (held.erase id)

/-- The handles that a program holds besides its tokens. -/
def handlesOf (held : List DictId) : Multiset Asset :=
  ↑(held.map fun id => Asset.object (.dictionary id))

theorem handlesOf_cons (id : DictId) (held : List DictId) :
    handlesOf (id :: held) = .object (.dictionary id) ::ₘ handlesOf held := rfl

theorem handlesOf_erase {id : DictId} {held : List DictId} (hheld : id ∈ held) :
    handlesOf held = .object (.dictionary id) ::ₘ handlesOf (held.erase id) := by
  rw [← handlesOf_cons]
  exact Multiset.coe_eq_coe.2 ((List.perm_cons_erase hheld).map _)

theorem Concludes.after {α : Type} {action : Work α} (hconcludes : Concludes action work hand) :
    Holds (work.after action) hand := by
  rw [Workspace.after, EStateM.run]
  rw [Concludes] at hconcludes
  generalize action work = ended at hconcludes
  cases hconcludes with
  | ok hgood => exact hgood
  | fault hspoiled => exact hspoiled

theorem stocked_empty : Stocked {} 0 where
  homes := by simp
  current := by
    intro valuePools hpools
    cases hpools
  served := by
    intro valuePools hpools
    cases hpools

theorem holds_empty : Holds {} 0 where
  books := by
    have howed : 0 + ({} : Workspace).assets + inside 0 = 0 := rfl
    refine ⟨0, howed.symm ▸ ?_⟩
    exact
      { stocked := stocked_empty
        handles := rfl
        stored := by simp
        known := by simp
        numbers_nodup := by simp
        handled := by simp
        numbered := by simp }
  emptied := by
    intro object _
    cases object <;> rfl

/-- In whatever state a program is, the books balance. -/
theorem Reached.holds {held : List DictId} (hreached : Reached work held) :
    Holds work (handlesOf held) := by
  induction hreached with
  | start => exact holds_empty
  | operate operation _ hallowed ih => exact (operation.run_concludes hallowed ih).after
  | makeDictionary _ ih =>
    obtain ⟨next, hrun, -, hnext⟩ := ih.newDictionary
    exact (Concludes.of_run hrun hnext).after
  | hold _ halive ih =>
    exact ih.addObject (ih.mem_objects (isAlive_iff.1 halive))
  | letGo _ hheld ih =>
    rw [handlesOf_erase hheld, ← Multiset.singleton_add] at ih
    exact Concludes.after (Holds.releaseValue ih).concludes

end Workspace

end StackLang
