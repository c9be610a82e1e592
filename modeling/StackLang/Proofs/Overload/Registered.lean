import StackLang.Proofs.Control.Fresh
import StackLang.Proofs.Overload.LongestMatch
import StackLang.Proofs.Ownership.Writes

/-!
# The tables of a new machine

What a table of a new machine binds was registered with that very signature.  So when
selection answers, it answers with an operator that was registered for operands such as
those on the stack.
-/

namespace StackLang

/-- An operator is registered for a signature. -/
def Operator.Takes (registrations : List Registration) (operator : Operator)
    (signature : Signature) : Prop :=
  ∃ name, .typed name signature operator ∈ registrations

namespace OverloadTree

variable {registrations : List Registration} {tree : OverloadTree}

/-- Every bound function is an operator that is registered for the signature. -/
structure Serves (registrations : List Registration) (tree : OverloadTree) : Prop where
  wellFormed : tree.WellFormed
  registered : ∀ signature function, tree.bound? signature = some function →
    ∃ name operator, function = .function name operator ∧ operator.Takes registrations signature

theorem serves_empty : empty.Serves registrations where
  wellFormed := trivial
  registered := by simp

theorem Serves.add (hserves : tree.Serves registrations) {name : Name} {operator : Operator}
    {signature : Signature} (htakes : operator.Takes registrations signature)
    {added : OverloadTree} (hadd : tree.add (.function name operator) signature = .ok added) :
    added.Serves registrations where
  wellFormed := (adds_of_add hadd).wellFormed hserves.wellFormed
  registered := fun other function hbound => by
    rw [(adds_of_add hadd).bound?_eq hserves.wellFormed] at hbound
    split at hbound
    · rename_i hsame
      obtain rfl := Option.some.inj hbound
      exact ⟨name, operator, rfl, hsame ▸ htakes⟩
    · exact hserves.registered other function hbound

/-- Selection answers with an operator that is registered for operands such as these. -/
theorem Serves.select (hserves : tree.Serves registrations) {operands : List (Option TypeTag)}
    {function : Token} (hselect : tree.select operands = .ok function) :
    ∃ name operator signature, function = .function name operator ∧
      operator.Takes registrations signature ∧ signature.Fits operands := by
  obtain ⟨signature, bound, hbound, hpasses, -, hanswer⟩ | ⟨-, hanswer⟩ :=
    hserves.wellFormed.outcome_selectFrom 0 none operands
  · obtain rfl := Except.ok.inj (hselect.symm.trans hanswer)
    obtain ⟨name, operator, rfl, htakes⟩ := hserves.registered signature function hbound
    have hfits := ((hserves.wellFormed.passes_iff ⟨_, hbound⟩).1 hpasses).1
    exact ⟨name, operator, signature, rfl, htakes, hfits⟩
  · cases (hanswer function).1 hselect

/-- Selection fails for want of operands or because of the type of one. -/
theorem error_of_selectFrom {level : Nat} {fallback : Option Token}
    {operands : List (Option TypeTag)} {error : Error}
    (hselect : tree.selectFrom level fallback operands = .error error) :
    (∃ needed found, error = .stackUnderflow needed found) ∨
      ∃ position, error = .argumentType position := by
  induction operands generalizing tree level fallback with
  | nil =>
    rw [selectFrom] at hselect
    split at hselect
    · cases hselect
    · exact .inl ⟨_, _, (Except.error.inj hselect).symm⟩
  | cons operand below ih =>
    rw [selectFrom] at hselect
    split at hselect
    · exact ih hselect
    · split at hselect
      · cases hselect
      · exact .inr ⟨_, (Except.error.inj hselect).symm⟩

end OverloadTree

/-- All tables bind operators to signatures that they are registered for. -/
def Store.Serves (registrations : List Registration) (store : Store) : Prop :=
  ∀ id, (store.table id).Serves registrations

namespace Store

variable {registrations : List Registration} {store : Store}

theorem Serves.of_tables_eq (hserves : store.Serves registrations) {other : Store}
    (htables : other.tables = store.tables) : other.Serves registrations := by
  intro id
  rw [table, htables]
  exact hserves id

theorem Serves.newTable (hserves : store.Serves registrations) :
    store.newTable.2.Serves registrations := by
  intro id
  rw [table_newTable]
  exact hserves id

theorem Serves.setTable (hserves : store.Serves registrations) (id : TableId)
    {tree : OverloadTree} (htree : tree.Serves registrations) :
    (store.setTable id tree).Serves registrations := by
  intro other
  obtain hnew | hold := store.table_setTable id other tree
  · rw [hnew]
    exact htree
  · rw [hold]
    exact hserves other

/-- An overload changes no dictionary and makes no table. -/
theorem shape_of_addOverload {id : TableId} {signature : Signature} {function : Token}
    {accepted : Bool} {added : Store}
    (hadd : store.addOverload id signature function = .ok (accepted, added)) :
    added.dictionaries = store.dictionaries ∧ added.tables.size = store.tables.size := by
  obtain ⟨tree, events, -, rfl⟩ := addOverload_eq_ok hadd
  rw [reportAll_eq]
  exact ⟨rfl, Array.size_setIfInBounds⟩

theorem Serves.addOverload (hserves : store.Serves registrations) {id : TableId}
    {signature : Signature} {name : Name} {operator : Operator}
    (htakes : operator.Takes registrations signature) {accepted : Bool} {added : Store}
    (hadd : store.addOverload id signature (.function name operator) = .ok (accepted, added)) :
    added.Serves registrations := by
  obtain ⟨tree, events, hinsert, rfl⟩ := addOverload_eq_ok hadd
  have htree : tree.Serves registrations := by
    obtain ⟨-, ⟨hadded, -⟩ | ⟨refusal, -, rfl, -⟩⟩ := OverloadTree.insert_cases hinsert
    · exact (hserves id).add htakes hadded
    · exact hserves id
  rw [reportAll_eq]
  exact (hserves.setTable id htree).of_tables_eq rfl

end Store

namespace Machine

theorem serves_registrable (registrations : List Registration) :
    Registrable registrations fun machine => machine.store.Serves registrations where
  restated := fun hserves hnext => by
    have htables := congrArg Store.tables hnext.store
    exact hserves.of_tables_eq htables
  newTable := fun hserves => hserves.newTable
  table := fun _ _ _ hserves => hserves.of_tables_eq Store.tables_insert
  operator := fun _ hserves => hserves.of_tables_eq Store.tables_insert
  overload := fun hmem hserves hadd => hserves.addOverload ⟨_, hmem⟩ hadd

/-- Every table of a new machine binds operators to signatures that they were registered
for. -/
theorem serves_of_create {config : Config} {registrations : List Registration}
    {machine : Machine} (hcreate : create config registrations = .ok machine) :
    machine.store.Serves registrations :=
  (serves_registrable registrations).of_create (fun _ => OverloadTree.serves_empty) hcreate

end Machine

end StackLang
