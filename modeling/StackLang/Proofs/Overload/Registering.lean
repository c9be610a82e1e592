import StackLang.Proofs.Overload.Registered
import StackLang.Proofs.Overload.Requests
import StackLang.Proofs.Store.Merging

/-!
# What registrations make of the system dictionary

A machine without operators is given some, one registration after the other.  The names
come into the system dictionary in the order in which they are registered first.  A name
whose last registration was plain is bound to that operator; any other registered name is
bound to a table of its own, which took the overloads requested since the last plain
registration of the name, as far as none of them was the start of one taken before.  What
is registered under other names in between makes no difference.
-/

namespace StackLang

open OverloadTree Registration

/-! ## Dictionaries that are written -/

namespace Dictionary

variable {dictionary : Dictionary} {name : Name}

theorem peek?_eq_none (hnew : name ∉ dictionary.names) : dictionary.peek? name = none := by
  rw [peek?, get?_eq_none_iff.2 hnew]
  rfl

theorem peek?_insert_self (token : Token) :
    (dictionary.insert name token).peek? name = some token := by
  rw [peek?, get?_insert_self, Option.map_some]

/-- A new name goes to the end, a known one stays where it is. -/
theorem names_insert (token : Token) :
    (dictionary.insert name token).names =
      if name ∈ dictionary.names then dictionary.names else dictionary.names ++ [name] := by
  split
  case isTrue hknown =>
    rw [insert, dif_neg (mt get?_eq_none_iff.1 (not_not.2 hknown)), names_modify]
  case isFalse hnew =>
    rw [names, entries_insert token hnew, List.map_append]
    rfl

end Dictionary

namespace Store

variable {system : DictId} {store next : Store} {registrations : List Registration}
  {registration : Registration} {name other : Name} {id : TableId} {token : Token}

/-- The table that a name is bound to. -/
def boundTable? (system : DictId) (store : Store) (name : Name) : Option TableId :=
  match (store.dictionary system).peek? name with
  | some (.datum (.table _ id) _) => some id
  | _ => none

/-- A name is bound as it was registered: not at all if it was not, to the operator of its
last registration if that was plain, and otherwise to a table that took the overloads
requested since the last plain registration, as far as they are admitted. -/
structure Settled (system : DictId) (registrations : List Registration) (name : Name)
    (store : Store) : Prop where
  unregistered : ofName name registrations = [] → (store.dictionary system).peek? name = none
  plain : ∀ operator, (ofName name registrations).getLast? = some (.plain name operator) →
    (store.dictionary system).peek? name =
      some ((Token.function name operator).setWriteable false)
  typed : ∀ signature operator,
    (ofName name registrations).getLast? = some (.typed name signature operator) →
    ∃ id, (store.dictionary system).peek? name =
        some ((Token.table name id).setWriteable false) ∧
      id.index < store.tables.size ∧
      (store.table id).Took (admitted (requests name registrations))

/-- The system dictionary is what the registrations make of it. -/
structure Equipped (system : DictId) (registrations : List Registration) (store : Store) :
    Prop where
  known : system.index < store.dictionaries.size
  names : (store.dictionary system).names = firstNames registrations
  settled : ∀ name, store.Settled system registrations name
  /-- No two names share a table. -/
  apart : ∀ name other id, store.boundTable? system name = some id →
    store.boundTable? system other = some id → name = other

theorem boundTable?_eq_some (hbound : (store.dictionary system).peek? name =
    some ((Token.table name id).setWriteable false)) :
    store.boundTable? system name = some id := by
  rw [boundTable?, hbound]
  rfl

theorem boundTable?_congr (hpeek : (next.dictionary system).peek? name =
    (store.dictionary system).peek? name) :
    next.boundTable? system name = store.boundTable? system name := by
  rw [boundTable?, hpeek, boundTable?]

/-- The registration of another name makes no difference as long as the binding and its
table are left alone. -/
theorem Settled.unaffected (hsettled : store.Settled system registrations other)
    (hname : registration.name ≠ other)
    (hpeek : (next.dictionary system).peek? other = (store.dictionary system).peek? other)
    (hsize : store.tables.size ≤ next.tables.size)
    (htable : ∀ id, store.boundTable? system other = some id → next.table id = store.table id) :
    next.Settled system (registrations ++ [registration]) other := by
  have hof : ofName other (registrations ++ [registration]) = ofName other registrations := by
    rw [ofName_concat, if_neg hname]
  refine ⟨fun hnone => ?_, fun operator hlast => ?_, fun signature operator hlast => ?_⟩
  · rw [hpeek, hsettled.unregistered (hof ▸ hnone)]
  · rw [hpeek, hsettled.plain operator (hof ▸ hlast)]
  · obtain ⟨id, hbound, hlt, htook⟩ := hsettled.typed signature operator (hof ▸ hlast)
    refine ⟨id, by rw [hpeek, hbound], hlt.trans_le hsize, ?_⟩
    rwa [requests_concat_ne hname, htable id (boundTable?_eq_some hbound)]

/-- Only a name whose last registration is that of an overload is bound to a table. -/
theorem Settled.of_boundTable? (hsettled : store.Settled system registrations name)
    (hbound : store.boundTable? system name = some id) :
    (store.dictionary system).peek? name = some ((Token.table name id).setWriteable false) ∧
      id.index < store.tables.size ∧
      (store.table id).Took (admitted (requests name registrations)) := by
  obtain hnone | ⟨operator, hlast⟩ | ⟨signature, operator, hlast⟩ :=
    ofName_cases name registrations
  · rw [boundTable?, hsettled.unregistered hnone] at hbound
    cases hbound
  · rw [boundTable?, hsettled.plain operator hlast] at hbound
    cases hbound
  · obtain ⟨own, hown, hrest⟩ := hsettled.typed signature operator hlast
    obtain rfl : own = id := Option.some.inj ((boundTable?_eq_some hown).symm.trans hbound)
    exact ⟨hown, hrest⟩

/-- A name that is bound to no table has no overloads of its own yet. -/
theorem Settled.requests_eq_nil (hsettled : store.Settled system registrations name)
    (hbound : store.boundTable? system name = none) : requests name registrations = [] := by
  obtain hnone | ⟨operator, hlast⟩ | ⟨signature, operator, hlast⟩ :=
    ofName_cases name registrations
  · exact requests_eq_nil_of_unregistered hnone
  · exact requests_eq_nil_of_plain hlast
  · obtain ⟨own, hown, -⟩ := hsettled.typed signature operator hlast
    rw [boundTable?_eq_some hown] at hbound
    cases hbound

/-! ## Single writes -/

/-- What a write of a token that owns no dictionary does to the system dictionary. -/
theorem peek?_insert (hknown : system.index < store.dictionaries.size) (name : Name)
    (hfree : token.ownedDictionary? = none) :
    ((store.insert system name token).dictionary system).peek? name = some token ∧
      ∀ other ≠ name, ((store.insert system name token).dictionary system).peek? other =
        (store.dictionary system).peek? other := by
  rw [dictionary_insert_self hknown, accepted_of_no_handle hfree]
  exact ⟨Dictionary.peek?_insert_self token, fun other hne => Dictionary.peek?_insert_ne token hne⟩

theorem dictionaries_insert_congr (hfree : token.ownedDictionary? = none)
    (hdictionaries : next.dictionaries = store.dictionaries) :
    (next.insert system name token).dictionaries =
      (store.insert system name token).dictionaries := by
  have hnone : ∀ own : Store, own.cycleThrough? system token = none := fun own => by
    simp [cycleThrough?, hfree]
  simp only [insert, hnone, modifyDictionary, hdictionaries]

theorem Equipped.names_insert (hequipped : store.Equipped system registrations)
    (hname : registration.name = name) :
    ((store.insert system name token).dictionary system).names =
      firstNames (registrations ++ [registration]) := by
  rw [dictionary_insert_self hequipped.known, Dictionary.names_insert, hequipped.names,
    firstNames_concat, hname]

/-- A registration that settles its own name, in a table that is no other's if in any, and
leaves the bindings and the tables of the other names alone. -/
theorem Equipped.concat (hequipped : store.Equipped system registrations)
    (hname : registration.name = name) (hknown : system.index < next.dictionaries.size)
    (hnames : (next.dictionary system).names = firstNames (registrations ++ [registration]))
    (hothers : ∀ other ≠ name,
      (next.dictionary system).peek? other = (store.dictionary system).peek? other)
    (hsize : store.tables.size ≤ next.tables.size)
    (htables : ∀ other ≠ name, ∀ id, store.boundTable? system other = some id →
      next.table id = store.table id)
    (hown : next.Settled system (registrations ++ [registration]) name)
    (hfresh : ∀ other ≠ name, ∀ id, next.boundTable? system name = some id →
      store.boundTable? system other ≠ some id) :
    next.Equipped system (registrations ++ [registration]) where
  known := hknown
  names := hnames
  settled := fun other => by
    by_cases hother : other = name
    · exact hother ▸ hown
    · exact (hequipped.settled other).unaffected (hname ▸ Ne.symm hother) (hothers other hother)
        hsize (htables other hother)
  apart := fun left right id hleft hright => by
    by_cases hleftName : left = name
    · subst hleftName
      by_contra hne
      rw [boundTable?_congr (hothers right (Ne.symm hne))] at hright
      exact hfresh right (Ne.symm hne) id hleft hright
    · rw [boundTable?_congr (hothers left hleftName)] at hleft
      by_cases hrightName : right = name
      · subst hrightName
        exact absurd hleft (hfresh left hleftName id hright)
      · rw [boundTable?_congr (hothers right hrightName)] at hright
        exact hequipped.apart left right id hleft hright

/-- A plain registration binds its name to its operator. -/
theorem Equipped.operator (hequipped : store.Equipped system registrations) (name : Name)
    (operator : Operator) :
    (store.insert system name ((Token.function name operator).setWriteable false)).Equipped
      system (registrations ++ [.plain name operator]) := by
  obtain ⟨hown, hothers⟩ := peek?_insert hequipped.known name
    (show ((Token.function name operator).setWriteable false).ownedDictionary? = none from rfl)
  have hname : (Registration.plain name operator).name = name := rfl
  have hof : ofName name (registrations ++ [.plain name operator]) =
      ofName name registrations ++ [.plain name operator] := ofName_concat_self hname
  refine hequipped.concat hname (by simpa using hequipped.known) (hequipped.names_insert hname)
    hothers (by simp) (fun _ _ _ _ => by rw [table, tables_insert, table]) ?_ ?_
  · refine ⟨by simp [hof], fun other hlast => ?_, by simp [hof]⟩
    obtain rfl : operator = other := by simpa [hof] using hlast
    exact hown
  · intro _ _ _ hbound
    rw [boundTable?, hown] at hbound
    cases hbound

/-- Before an overload is added: its name is bound to a table with the earlier requests, and
the other names are as they were in a store that the registrations had equipped. -/
structure Ready (system : DictId) (registrations : List Registration) (base : Store)
    (name : Name) (id : TableId) (store : Store) : Prop where
  known : system.index < store.dictionaries.size
  names : (store.dictionary system).names =
    if name ∈ firstNames registrations then firstNames registrations
    else firstNames registrations ++ [name]
  bound : (store.dictionary system).peek? name =
    some ((Token.table name id).setWriteable false)
  inBounds : id.index < store.tables.size
  tree : (store.table id) = (Record.ofRequests (requests name registrations)).tree
  others : ∀ other ≠ name,
    (store.dictionary system).peek? other = (base.dictionary system).peek? other
  size : base.tables.size ≤ store.tables.size
  tables : ∀ other own, base.boundTable? system other = some own →
    store.table own = base.table own
  fresh : ∀ other ≠ name, base.boundTable? system other ≠ some id

theorem Equipped.congr (hequipped : store.Equipped system registrations)
    (hdictionaries : next.dictionaries = store.dictionaries)
    (htables : next.tables = store.tables) : next.Equipped system registrations := by
  cases store
  cases next
  obtain rfl : _ = _ := hdictionaries
  obtain rfl : _ = _ := htables
  exact ⟨hequipped.known, hequipped.names,
    fun name => ⟨(hequipped.settled name).unregistered, (hequipped.settled name).plain,
      (hequipped.settled name).typed⟩, hequipped.apart⟩

theorem Ready.congr {base : Store} (hready : Ready system registrations base name id store)
    (hdictionaries : next.dictionaries = store.dictionaries)
    (htables : next.tables = store.tables) :
    Ready system registrations base name id next := by
  cases store
  cases next
  obtain rfl : _ = _ := hdictionaries
  obtain rfl : _ = _ := htables
  exact { hready with }

/-- A name that is bound to a table is ready for a further overload. -/
theorem Equipped.ready_of_bound (hequipped : store.Equipped system registrations)
    (hsigned : ∀ registration ∈ registrations, registration.Signed)
    (hbound : store.boundTable? system name = some id) :
    Ready system registrations store name id store := by
  obtain ⟨hpeek, hlt, htook⟩ := (hequipped.settled name).of_boundTable? hbound
  have hmem : name ∈ firstNames registrations := by
    rw [← hequipped.names]
    by_contra hnew
    cases (Dictionary.peek?_eq_none hnew).symm.trans hpeek
  exact
    { known := hequipped.known
      names := by rw [if_pos hmem, hequipped.names]
      bound := hpeek
      inBounds := hlt
      tree := htook.unique (Record.took_ofRequests fun _ => signed_of_mem_requests hsigned)
      others := fun _ _ => rfl
      size := le_rfl
      tables := fun _ _ _ => rfl
      fresh := fun other hother hshared => hother (hequipped.apart other name id hshared hbound) }

/-- A name that is bound to no table is ready once it is bound to a new one. -/
theorem Equipped.ready_of_new (hequipped : store.Equipped system registrations)
    (hbound : store.boundTable? system name = none) :
    Ready system registrations store name store.newTable.1
      (store.newTable.2.insert system name
        ((Token.table name store.newTable.1).setWriteable false)) := by
  have hknown : system.index < store.newTable.2.dictionaries.size := hequipped.known
  have hfree : ((Token.table name store.newTable.1).setWriteable false).ownedDictionary? =
    none := rfl
  obtain ⟨hown, hothers⟩ := peek?_insert hknown name hfree
  have hold : ∀ other own, store.boundTable? system other = some own →
      own.index < store.tables.size := fun other own hother =>
    ((hequipped.settled other).of_boundTable? hother).2.1
  refine
    { known := by simpa using hknown
      names := ?_
      bound := hown
      inBounds := by simp [newTable]
      tree := ?_
      others := fun other hother => by rw [hothers other hother]; rfl
      size := by simp [newTable]
      tables := fun other own hother => ?_
      fresh := fun other _ hshared => ?_ }
  · rw [dictionary_insert_self hknown, Dictionary.names_insert]
    change (if name ∈ (store.dictionary system).names then _ else _) = _
    rw [← hequipped.names]
    rfl
  · rw [(hequipped.settled name).requests_eq_nil hbound, table, tables_insert]
    simp [newTable, Record.ofRequests]
  · rw [table, tables_insert]
    exact store.table_newTable own
  · exact (hold other _ hshared).ne rfl

/-- An overload that a tree answers for goes into its table and nowhere else. -/
theorem addOverload_of_insert {signature : Signature} {function : Token} {tree : OverloadTree}
    {accepted : Bool} {events : List Event} (hlt : id.index < store.tables.size)
    (hinsert : (store.table id).insert signature function = .ok (tree, accepted, events)) :
    ∃ added, store.addOverload id signature function = .ok (accepted, added) ∧
      added.dictionaries = store.dictionaries ∧ added.tables.size = store.tables.size ∧
      added.table id = tree ∧ ∀ other ≠ id, added.table other = store.table other := by
  have hadd : store.addOverload id signature function =
      .ok (accepted, (store.setTable id tree).reportAll events) := by
    rw [Store.addOverload, hinsert]
    rfl
  obtain ⟨hdictionaries, hsize⟩ := shape_of_addOverload hadd
  refine ⟨_, hadd, hdictionaries, hsize, ?_, fun other hother => ?_⟩
  · rw [reportAll_eq]
    exact table_setTable_self tree hlt
  · rw [reportAll_eq]
    exact table_setTable_ne tree hother

/-- A further overload of a name is taken just if its signature starts none of those taken
since the last plain registration of the name. -/
theorem Ready.addOverload {base : Store} (hequipped : base.Equipped system registrations)
    (hready : Ready system registrations base name id store)
    (hsigned : ∀ registration ∈ registrations, registration.Signed) {signature : Signature}
    (operator : Operator) (hne : signature ≠ []) :
    ∃ accepted added,
      store.addOverload id signature (.function name operator) = .ok (accepted, added) ∧
      (Registration.typed name signature operator).answer? registrations = some accepted ∧
      added.Equipped system (registrations ++ [.typed name signature operator]) := by
  have hsignedOwn : ∀ request ∈ requests name registrations, request.1 ≠ [] :=
    fun _ => signed_of_mem_requests hsigned
  obtain ⟨events, hinsert⟩ := Record.insert_tree_ofRequests hsignedOwn hne
    (Token.function name operator)
  rw [← hready.tree] at hinsert
  obtain ⟨added, hadd, hdictionaries, hsize, htree, htables⟩ :=
    addOverload_of_insert hready.inBounds hinsert
  refine ⟨_, added, hadd, rfl, ?_⟩
  have hdictionary : added.dictionary system = store.dictionary system := by
    rw [dictionary, hdictionaries, dictionary]
  have hname : (typed name signature operator).name = name := rfl
  have hof : ofName name (registrations ++ [.typed name signature operator]) =
      ofName name registrations ++ [.typed name signature operator] := ofName_concat_self hname
  have hnext : ∀ request ∈ requests name (registrations ++ [.typed name signature operator]),
      request.1 ≠ [] := by
    rw [requests_concat_typed]
    rintro request hmem
    obtain hold | rfl := List.mem_append.1 hmem |>.imp_right List.mem_singleton.1
    · exact hsignedOwn request hold
    · exact hne
  refine hequipped.concat hname (by rw [hdictionaries]; exact hready.known) ?_ ?_ ?_ ?_ ?_ ?_
  · rw [hdictionary, hready.names, firstNames_concat, hname]
  · intro other hother
    rw [hdictionary, hready.others other hother]
  · rw [hsize]
    exact hready.size
  · intro other hother own hown
    rw [htables own fun heq => hready.fresh other hother (heq ▸ hown),
      hready.tables other own hown]
  · refine ⟨by simp [hof], by simp [hof], fun _ _ _ => ⟨id, ?_, ?_, ?_⟩⟩
    · rw [hdictionary, hready.bound]
    · rw [hsize]
      exact hready.inBounds
    · rw [htree]
      simpa only [requests_concat_typed] using Record.took_ofRequests hnext
  · intro other hother own hown
    rw [boundTable?_congr (congrArg (Dictionary.peek? · name) hdictionary),
      boundTable?_eq_some hready.bound] at hown
    exact Option.some.inj hown ▸ hready.fresh other hother

/-- A new system dictionary is equipped with no registrations at all. -/
theorem equipped_nil (hknown : system.index < store.dictionaries.size)
    (hempty : (store.dictionary system).names = []) : store.Equipped system [] := by
  have hpeek : ∀ name, (store.dictionary system).peek? name = none := fun name =>
    Dictionary.peek?_eq_none (by simp [hempty])
  refine ⟨hknown, hempty, fun name => ⟨fun _ => hpeek name, by simp, by simp⟩, ?_⟩
  intro name _ id hbound
  rw [boundTable?, hpeek name] at hbound
  cases hbound

/-- Whatever was registered is bound read-only. -/
theorem Settled.isReadOnly (hsettled : store.Settled system registrations name)
    (hbound : (store.dictionary system).peek? name = some token) : token.isReadOnly := by
  obtain hnone | ⟨operator, hlast⟩ | ⟨signature, operator, hlast⟩ :=
    ofName_cases name registrations
  · rw [hsettled.unregistered hnone] at hbound
    cases hbound
  · rw [hsettled.plain operator hlast] at hbound
    exact Option.some.inj hbound ▸ rfl
  · obtain ⟨id, hown, -⟩ := hsettled.typed signature operator hlast
    rw [hown] at hbound
    exact Option.some.inj hbound ▸ rfl

end Store

theorem Restated.shape {machine next : Machine} (hrestated : Restated machine next) :
    next.store.dictionaries = machine.store.dictionaries ∧
      next.store.tables = machine.store.tables := by
  have hdictionaries := congrArg Store.dictionaries hrestated.store
  have htables := congrArg Store.tables hrestated.store
  exact ⟨hdictionaries, htables⟩

namespace Machine

variable {machine next : Machine} {registrations : List Registration}

/-- Carries out a registration and passes on what the host is told: of an overload, whether
it was taken. -/
def enrol : Registration → HostAction (Option Bool)
  | .plain name operator => do
    register name operator
    return none
  | .typed name signature operator => do
    let accepted ← registerTyped name signature operator
    return some accepted

/-- A machine without operators. -/
structure Unequipped (machine : Machine) : Prop where
  known : machine.scopes.system.index < machine.store.dictionaries.size
  empty : (machine.store.dictionary machine.scopes.system).names = []

theorem unequipped_bare (config : Config) : (bare config).Unequipped :=
  ⟨by simp [bare, Store.newDictionary], rfl⟩

theorem install_eq_enrol (registration : Registration) :
    install registration = (fun _ => ()) <$> enrol registration := by
  cases registration with
  | plain name operator => simp [install, enrol]
  | typed name signature operator => simp [install, enrol, Functor.discard, map_const]

/-- Installing registrations is carrying them out and dropping the answers. -/
theorem forM_install (registrations : List Registration) :
    registrations.forM install = (fun _ => ()) <$> registrations.mapM enrol := by
  induction registrations with
  | nil => simp
  | cons registration rest ih => simp [List.forM, ih, install_eq_enrol]

/-! ## Actions of the host -/

/-- An action of the host succeeds with a property, or the pools have no room for it. -/
def Affords {α : Type} (post : α → Machine → Prop) (action : HostAction α)
    (machine : Machine) : Prop :=
  (∃ value next, action machine = .ok value next ∧ next.room = machine.room ∧ post value next) ∨
    machine.room ≠ none ∧ ∃ fault stuck, action machine = .error fault stuck

namespace Affords

variable {α β : Type} {mid : α → Machine → Prop} {post : β → Machine → Prop}

theorem bind {action : HostAction α} {further : α → HostAction β}
    (haction : Affords mid action machine)
    (hfurther : ∀ value next, mid value next → Affords post (further value) next) :
    Affords post (action >>= further) machine := by
  obtain ⟨value, next, hrun, hroom, hmid⟩ | ⟨hroom, fault, stuck, hrun⟩ := haction
  · have hstep : (action >>= further) machine = further value next := by
      simp only [Bind.bind, EStateM.bind, hrun]
    obtain ⟨result, last, hlast, hkept, hpost⟩ | ⟨hlimited, fault, stuck, hlast⟩ :=
      hfurther value next hmid
    · exact .inl ⟨result, last, hstep.trans hlast, hkept.trans hroom, hpost⟩
    · exact .inr ⟨hroom ▸ hlimited, fault, stuck, hstep.trans hlast⟩
  · refine .inr ⟨hroom, fault, stuck, ?_⟩
    simp only [Bind.bind, EStateM.bind, hrun]

theorem mono {action : HostAction β} {weaker : β → Machine → Prop}
    (haction : Affords post action machine)
    (hweaker : ∀ value next, post value next → weaker value next) :
    Affords weaker action machine := by
  obtain ⟨value, next, hrun, hroom, hpost⟩ | hlimited := haction
  · exact .inl ⟨value, next, hrun, hroom, hweaker value next hpost⟩
  · exact .inr hlimited

theorem pure {value : β} (hpost : post value machine) :
    Affords post (Pure.pure value : HostAction β) machine :=
  .inl ⟨value, machine, rfl, rfl, hpost⟩

/-- What an action does with the machine it reads. -/
theorem of_get {further : Machine → HostAction β}
    (hfurther : Affords post (further machine) machine) :
    Affords post (MonadState.get >>= further) machine :=
  hfurther

theorem change {change : Machine → Machine} {post : Unit → Machine → Prop}
    (hroom : (change machine).room = machine.room) (hpost : post () (change machine)) :
    Affords post (modify change) machine :=
  .inl ⟨(), change machine, rfl, hroom, hpost⟩

theorem reserve (inHand : List Holding) (machine : Machine) :
    Affords (fun _ next => Restated machine next) (Machine.reserve inHand) machine := by
  obtain ⟨next, hgranted, hnext⟩ | ⟨fault, hrefused, hroom⟩ := Restated.reserve inHand machine
  · exact .inl ⟨(), next, hgranted, hnext.room, hnext⟩
  · exact .inr ⟨hroom, fault, machine, hrefused⟩

end Affords

/-! ## Registrations -/

/-- The system dictionary is what the registrations make of it. -/
def Equipped (registrations : List Registration) (machine : Machine) : Prop :=
  machine.store.Equipped machine.scopes.system registrations

theorem Equipped.restated (hequipped : machine.Equipped registrations)
    (hrestated : Restated machine next) : next.Equipped registrations := by
  rw [Equipped, hrestated.scopes]
  exact Store.Equipped.congr hequipped hrestated.shape.1 hrestated.shape.2

/-- A name is ready for an overload in the table. -/
def Ready (registrations : List Registration) (name : Name) (id : TableId)
    (machine : Machine) : Prop :=
  ∃ base : Store, base.Equipped machine.scopes.system registrations ∧
    Store.Ready machine.scopes.system registrations base name id machine.store

theorem Ready.restated {name : Name} {id : TableId} (hready : machine.Ready registrations name id)
    (hrestated : Restated machine next) : next.Ready registrations name id := by
  obtain ⟨base, hbase, hready⟩ := hready
  rw [Ready, hrestated.scopes]
  exact ⟨base, hbase, hready.congr hrestated.shape.1 hrestated.shape.2⟩

theorem Equipped.register (hequipped : machine.Equipped registrations) (name : Name)
    (operator : Operator) :
    Affords (fun _ next => next.Equipped (registrations ++ [.plain name operator]))
      (register name operator) machine :=
  (Affords.reserve _ machine).bind fun _ _ hnext =>
    Affords.change rfl ((hequipped.restated hnext).operator name operator)

/-- A new table is bound to a name that has none. -/
theorem Equipped.bindTable (hequipped : machine.Equipped registrations) {name : Name}
    (hbound : machine.store.boundTable? machine.scopes.system name = none) :
    Affords (fun id next => next.Ready registrations name id) (do
      let machine ← get
      let (id, store) := machine.store.newTable
      set { machine with store }
      let token := Token.table name id
      Machine.reserve [.token token]
      modify (Machine.defineSystem name (token.setWriteable false))
      return id) machine := by
  let added : Machine := { machine with store := machine.store.newTable.2 }
  have hset : Affords (fun _ next => next = added) (set added : HostAction Unit) machine :=
    .inl ⟨(), added, rfl, rfl, rfl⟩
  refine Affords.of_get (hset.bind fun _ next hnext => ?_)
  subst hnext
  refine (Affords.reserve _ added).bind fun _ next hrestated => ?_
  have hready : Machine.Ready registrations name machine.store.newTable.1 (defineSystem name
      ((Token.table name machine.store.newTable.1).setWriteable false) next) := by
    refine ⟨machine.store, ?_, ?_⟩
    · change machine.store.Equipped next.scopes.system registrations
      rw [hrestated.scopes]
      exact hequipped
    · change Store.Ready next.scopes.system registrations machine.store name _ _
      rw [hrestated.scopes]
      refine (Store.Equipped.ready_of_new hequipped hbound).congr ?_ ?_
      · change (next.store.insert next.scopes.system _ _).dictionaries = _
        rw [hrestated.scopes]
        exact Store.dictionaries_insert_congr rfl hrestated.shape.1
      · change (next.store.insert _ _ _).tables = _
        rw [Store.tables_insert, Store.tables_insert]
        exact hrestated.shape.2
  have hchange : Affords (fun _ last => last.Ready registrations name machine.store.newTable.1)
      (modify (defineSystem name ((Token.table name machine.store.newTable.1).setWriteable false)))
      next := Affords.change rfl hready
  exact hchange.bind fun _ _ hlast => Affords.pure hlast

/-- The table for an overload takes the requests since the last plain registration. -/
theorem Equipped.tableFor (hequipped : machine.Equipped registrations)
    (hsigned : ∀ registration ∈ registrations, registration.Signed) (name : Name) :
    Affords (fun id next => next.Ready registrations name id) (tableFor name) machine := by
  unfold Machine.tableFor
  apply Affords.of_get
  split
  case h_1 id _ hpeek =>
    have hbound : machine.store.boundTable? machine.scopes.system name = some id := by
      rw [Store.boundTable?, hpeek]
    exact Affords.pure ⟨machine.store, hequipped,
      Store.Equipped.ready_of_bound hequipped hsigned hbound⟩
  case h_2 other hother =>
    have hbound : machine.store.boundTable? machine.scopes.system name = none := by
      rw [Store.boundTable?]
      split
      · rename_i hpeek
        exact absurd hpeek (hother _ _ _)
      · rfl
    split
    · rename_i found _
      have hreported : (report (.bindingReplaced name found) machine).Equipped registrations :=
        hequipped.restated (.report _ machine)
      have hchange : Affords (fun _ next => next = report (.bindingReplaced name found) machine)
          (modify (report (.bindingReplaced name found))) machine := Affords.change rfl rfl
      exact hchange.bind fun _ _ hnext => hnext ▸ hreported.bindTable hbound
    · exact hequipped.bindTable hbound

/-- An overload is added to the table of its name, and the host is told whether it was
taken. -/
theorem Equipped.registerTyped (hequipped : machine.Equipped registrations)
    (hsigned : ∀ registration ∈ registrations, registration.Signed) (name : Name)
    {signature : Signature} (operator : Operator) (hne : signature ≠ []) :
    Affords (fun accepted next =>
        (Registration.typed name signature operator).answer? registrations = some accepted ∧
          next.Equipped (registrations ++ [.typed name signature operator]))
      (registerTyped name signature operator) machine := by
  refine (hequipped.tableFor hsigned name).bind fun id ready hready => ?_
  refine (Affords.reserve _ ready).bind fun _ next hrestated => ?_
  obtain ⟨base, hbase, hready⟩ := hready.restated hrestated
  obtain ⟨accepted, added, hadd, hanswer, hadded⟩ :=
    hready.addOverload hbase hsigned operator hne
  refine .inl ⟨accepted, { next with store := added }, ?_, rfl, hanswer, hadded⟩
  simp only [Bind.bind, EStateM.bind, get, getThe, MonadStateOf.get, EStateM.get, hadd]
  rfl

theorem Equipped.enrol (hequipped : machine.Equipped registrations)
    (hsigned : ∀ registration ∈ registrations, registration.Signed)
    {registration : Registration} (hown : registration.Signed) :
    Affords (fun answer next => answer = registration.answer? registrations ∧
        next.Equipped (registrations ++ [registration]))
      (enrol registration) machine := by
  cases registration with
  | plain name operator =>
    exact (hequipped.register name operator).bind fun _ _ hnext => Affords.pure ⟨rfl, hnext⟩
  | typed name signature operator =>
    have hne : signature ≠ [] := hown (signature, .function name operator) rfl
    exact (hequipped.registerTyped hsigned name operator hne).bind
      fun _ _ ⟨hanswer, hnext⟩ => Affords.pure ⟨hanswer.symm, hnext⟩

/-- Each registration of a sequence finds what the ones before it have made. -/
theorem Equipped.enrolAll {done : List Registration} (hequipped : machine.Equipped done)
    (hsigned : ∀ registration ∈ done ++ registrations, registration.Signed) :
    Affords (fun answers next =>
        answers = registrations.mapIdx
          (fun index registration => registration.answer? (done ++ registrations.take index)) ∧
        next.Equipped (done ++ registrations))
      (registrations.mapM Machine.enrol) machine := by
  induction registrations generalizing machine done with
  | nil => exact Affords.pure ⟨rfl, by simpa using hequipped⟩
  | cons registration rest ih =>
    have hmoved : done ++ registration :: rest = (done ++ [registration]) ++ rest := by simp
    have hfirst := hequipped.enrol (fun own hmem => hsigned own (by simp [hmem]))
      (hsigned registration (by simp))
    rw [List.mapM_cons]
    refine hfirst.bind fun answer next ⟨hanswer, hnext⟩ => ?_
    refine (ih hnext (hmoved ▸ hsigned)).bind fun answers last ⟨hanswers, hlast⟩ => ?_
    refine Affords.pure ⟨?_, hmoved ▸ hlast⟩
    rw [List.mapIdx_cons, hanswer, hanswers]
    simp

theorem Unequipped.equipped (hunequipped : machine.Unequipped) : machine.Equipped [] :=
  Store.equipped_nil hunequipped.known hunequipped.empty

/-- A machine without operators that registrations are installed in. -/
theorem Unequipped.installAll (hunequipped : machine.Unequipped)
    (hsigned : ∀ registration ∈ registrations, registration.Signed) :
    Affords (fun _ last => last.Equipped registrations) (registrations.forM install) machine := by
  rw [forM_install, map_eq_bind_pure_comp]
  exact (hunequipped.equipped.enrolAll hsigned).bind fun _ _ ⟨_, hequipped⟩ =>
    Affords.pure hequipped

/-- An overload without operands is not even refused: its registration is a fault. -/
theorem registerTyped_nil (name : Name) (operator : Operator) (machine : Machine) :
    ∃ fault stuck, registerTyped name [] operator machine = .error fault stuck := by
  simp only [registerTyped, Bind.bind, EStateM.bind]
  cases tableFor name machine with
  | error fault stuck => exact ⟨fault, stuck, rfl⟩
  | ok id ready =>
    dsimp only
    cases Machine.reserve [.token (.function name operator), .value (.table name id)] ready with
    | error fault stuck => exact ⟨fault, stuck, rfl⟩
    | ok _ next => exact ⟨.emptySignature, next, rfl⟩

/-- A machine without operators is given some by a sequence of registrations, one by one or
all at once; either way that succeeds, unless the pools have no room or an overload has no
operands, which is a fault.  Afterwards a name is unbound if it was not registered; it is
bound to the operator of its last registration if that was plain; and otherwise to a table of
its own, which took, in order and exactly, the overloads requested since the last plain
registration of the name whose signature was not, nor started, that of one taken before.  The
host was told of each overload whether it was taken.  All these bindings are read-only. -/
theorem systemBindings_of_registrations {machine : Machine} (hunequipped : machine.Unequipped)
    {registrations : List Registration}
    (hsigned : ∀ registration ∈ registrations, registration.Signed) :
    registrations.forM install = (fun _ => ()) <$> registrations.mapM enrol ∧
    Affords
      (fun answers last =>
        answers = registrations.mapIdx
          (fun index registration => registration.answer? (registrations.take index)) ∧
        last.Equipped registrations ∧
        ∀ name bound, (last.store.dictionary last.scopes.system).peek? name = some bound →
          bound.isReadOnly)
      (registrations.mapM enrol) machine ∧
    ∀ name operator (other : Machine),
      ∃ fault stuck, registerTyped name [] operator other = .error fault stuck := by
  have hrun := hunequipped.equipped.enrolAll hsigned
  refine ⟨forM_install registrations, ?_, registerTyped_nil⟩
  obtain ⟨answers, last, hlast, hroom, hanswers, hequipped⟩ | hlimited := hrun
  · exact .inl ⟨answers, last, hlast, hroom, hanswers, hequipped,
      fun name _ hbound => (hequipped.settled name).isReadOnly hbound⟩
  · exact .inr hlimited

/-- Overloads of one name before and behind a plain registration of it, with another name in
between. -/
theorem systemBindings_of_registrations_interleaved :
    let registrations : List Registration :=
      [.typed "f" [.any] .pop, .plain "f" .dup, .typed "f" [.any, .exactly .integer] .exch,
        .plain "g" .exit, .typed "f" [.any] .pop, .typed "g" [.any] .exec,
        .typed "f" [.exactly .integer] .dup]
    (bare {}).Unequipped ∧ (∀ registration ∈ registrations, registration.Signed) ∧
      ∃ answers last, registrations.mapM enrol (bare {}) = .ok answers last ∧
        answers = [some true, none, some true, none, some false, some true, some true] ∧
        last.Equipped registrations := by
  intro registrations
  have hsigned : ∀ registration ∈ registrations, registration.Signed := by decide
  obtain ⟨-, hrun, -⟩ := systemBindings_of_registrations (unequipped_bare {}) hsigned
  refine ⟨unequipped_bare {}, hsigned, ?_⟩
  obtain ⟨answers, last, hlast, -, hanswers, hequipped, -⟩ | ⟨hlimited, -⟩ := hrun
  · exact ⟨answers, last, hlast, hanswers.trans (by decide), hequipped⟩
  · exact absurd rfl hlimited

/-- A first overload without operands starts no other, and yet its registration does not
return.  Neither does that of a second plain operator in pools of one block that cannot
grow. -/
theorem enrol_without_operands_or_room :
    let config : Config := { pools := ⟨1, 2 ^ 60⟩ }
    ((Registration.typed "f" [] .dup).answer? [] = some true ∧
      ¬ ∃ answer last, enrol (.typed "f" [] .dup) (bare {}) = .ok answer last) ∧
      create config [] = .ok (bare config) ∧
        ¬ ∃ answers last, [Registration.plain "f" .dup, .plain "g" .pop].mapM enrol
          (bare config) = .ok answers last := by
  refine ⟨⟨rfl, ?_⟩, rfl, ?_⟩
  · rintro ⟨answer, last, hrun⟩
    obtain ⟨fault, stuck, hfault⟩ := registerTyped_nil "f" .dup (bare {})
    simp [enrol, hfault, EStateM.bind, Bind.bind] at hrun
  · rintro ⟨answers, last, hrun⟩
    have hnone : (succeeded? ([Registration.plain "f" .dup, .plain "g" .pop].mapM enrol
        (bare { pools := ⟨1, 2 ^ 60⟩ }))).isNone = true := by
      decide +kernel
    rw [hrun] at hnone
    cases hnone

end Machine

end StackLang
