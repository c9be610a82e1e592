import StackLang.Proofs.Control.Merging
import StackLang.Proofs.Store.Accumulating

/-!
# How names are resolved

Three questions are asked of the scopes about a name: whether it is known, where it is
defined, and what it is bound to.  They are answered by separate searches, which agree: the
innermost dictionary that knows the name decides.  Only the last question leaves a trace, the
mark on the entry that answered it.

A scope of a dictionary that is not open yet shadows what is further out as long as it is
open.  Whatever is defined inside it, and in scopes inside it of dictionaries that were not
open outside either, leaves no trace further out.
-/

namespace StackLang

/-! ## Reading an entry -/

namespace Store

variable {store : Store} {id : DictId} {name : Name} {slot : Slot}

/-- The next store differs in the mark of one entry only, which is set. -/
structure Marks (id : DictId) (name : Name) (slot : Slot) (store next : Store) : Prop where
  entry : store.slot? id name = some slot
  marked : next.slot? id name = some slot.markRead
  others : ∀ other key, (other, key) ≠ (id, name) → next.slot? other key = store.slot? other key
  names : ∀ other, (next.dictionary other).names = (store.dictionary other).names
  tables : next.tables = store.tables
  bodies : next.bodies = store.bodies
  journal : next.journal = store.journal

theorem marks_touch (hslot : store.slot? id name = some slot) :
    store.Marks id name slot (store.touch id name) := by
  have hlt : id.index < store.dictionaries.size := by
    by_contra hlarge
    rw [slot?, dictionary_eq_empty (Nat.le_of_not_lt hlarge)] at hslot
    cases hslot
  refine ⟨hslot, slot?_touch hslot, fun other key hother => ?_, fun other => ?_, rfl, rfl, rfl⟩
  · by_cases hid : other = id
    · subst hid
      have hkey : key ≠ name := fun heq => hother (by rw [heq])
      rw [slot?, touch, dictionary_modifyDictionary_self _ hlt, Dictionary.touch,
        Dictionary.get?_modify_ne _ hkey, slot?]
    · rw [slot?, touch, dictionary_modifyDictionary_ne _ hid, slot?]
  · by_cases hid : other = id
    · subst hid
      rw [touch, dictionary_modifyDictionary_self _ hlt, Dictionary.names_touch]
    · rw [touch, dictionary_modifyDictionary_ne _ hid]

end Store

/-! ## The three searches -/

namespace Scopes

variable {scopes : Scopes} {store next : Store} {name : Name} {id : DictId}

/-- The dictionary knows the name, and none further in does. -/
def Decides (scopes : Scopes) (store : Store) (name : Name) (id : DictId) : Prop :=
  ∃ inner outer, scopes.innermostFirst = inner ++ id :: outer ∧
    (store.dictionary id).knows name = true ∧
    ∀ other ∈ inner, (store.dictionary other).knows name = false

theorem whereDefined?_eq_some_iff :
    scopes.whereDefined? store name = some id ↔ scopes.Decides store name id := by
  rw [whereDefined?, List.find?_eq_some_iff_append, Decides]
  constructor
  · rintro ⟨hknows, inner, outer, hsplit, hinner⟩
    exact ⟨inner, outer, hsplit, hknows, fun other hmem => by simpa using hinner other hmem⟩
  · rintro ⟨inner, outer, hsplit, hknows, hinner⟩
    exact ⟨hknows, inner, outer, hsplit, fun other hmem => by simpa using hinner other hmem⟩

theorem isSome_whereDefined? :
    (scopes.whereDefined? store name).isSome = scopes.knows store name := by
  rw [whereDefined?, knows, Bool.eq_iff_iff, List.find?_isSome, List.any_eq_true]

/-- A look-up answers from the dictionary that decides and marks the entry there. -/
theorem lookup_eq_some_iff {token : Token} :
    scopes.lookup store name = some (token, next) ↔
      ∃ id slot, scopes.Decides store name id ∧ store.slot? id name = some slot ∧
        token = slot.token ∧ next = store.touch id name := by
  rw [lookup_eq]
  simp only [Option.bind_eq_some_iff, whereDefined?_eq_some_iff, Option.map_eq_some_iff,
    Prod.mk.injEq]
  constructor
  · rintro ⟨id, hdecides, slot, hslot, rfl, rfl⟩
    exact ⟨id, slot, hdecides, hslot, rfl, rfl⟩
  · rintro ⟨id, slot, hdecides, hslot, rfl, rfl⟩
    exact ⟨id, hdecides, slot, hslot, rfl, rfl⟩

theorem Decides.exists_slot (hdecides : scopes.Decides store name id) :
    ∃ slot, store.slot? id name = some slot := by
  obtain ⟨-, -, -, hknows, -⟩ := hdecides
  exact Option.isSome_iff_exists.1 hknows

theorem isSome_lookup : (scopes.lookup store name).isSome = scopes.knows store name := by
  rw [← isSome_whereDefined?, Bool.eq_iff_iff, Option.isSome_iff_exists, Option.isSome_iff_exists]
  constructor
  · rintro ⟨⟨token, next⟩, hlookup⟩
    obtain ⟨id, _, hdecides, -⟩ := lookup_eq_some_iff.1 hlookup
    exact ⟨id, whereDefined?_eq_some_iff.2 hdecides⟩
  · rintro ⟨id, hwhere⟩
    have hdecides := whereDefined?_eq_some_iff.1 hwhere
    obtain ⟨slot, hslot⟩ := hdecides.exists_slot
    exact ⟨(slot.token, store.touch id name),
      lookup_eq_some_iff.2 ⟨id, slot, hdecides, hslot, rfl, rfl⟩⟩

/-- The open dictionaries are all that the answers depend on. -/
theorem whereDefined?_congr
    (hsame : ∀ id ∈ scopes.innermostFirst, next.dictionary id = store.dictionary id) :
    scopes.whereDefined? next name = scopes.whereDefined? store name := by
  rw [whereDefined?, whereDefined?]
  exact List.find?_congr fun id hmem => by rw [hsame id hmem]

theorem lookup_congr
    (hsame : ∀ id ∈ scopes.innermostFirst, next.dictionary id = store.dictionary id) :
    (scopes.lookup next name).map Prod.fst = (scopes.lookup store name).map Prod.fst := by
  simp only [lookup_eq, whereDefined?_congr hsame]
  cases hwhere : scopes.whereDefined? store name with
  | none => rfl
  | some id =>
    obtain ⟨inner, outer, hsplit, -, -⟩ := whereDefined?_eq_some_iff.1 hwhere
    have hmem : id ∈ scopes.innermostFirst := by simp [hsplit]
    simp only [Option.bind_some, Store.slot?, hsame id hmem]
    cases (store.dictionary id).get? name <;> rfl

end Scopes

/-! ## Using the scopes -/

/-- What is done with the scopes. -/
inductive ScopeUse where
  /-- A dictionary is opened as the innermost scope. -/
  | opens (id : DictId)
  /-- The innermost scope is closed, if it was opened. -/
  | closes
  /-- A name is bound in the innermost dictionary. -/
  | defines (name : Name) (token : Token)
  /-- A name is bound in the system dictionary. -/
  | definesSystem (name : Name) (token : Token)

namespace ScopeUse

/-- Uses the scopes of a machine. -/
def apply : ScopeUse → Machine → Machine
  | opens id, machine => machine.beginScope id
  | closes, machine => machine.endScope.2
  | defines name token, machine => machine.redefine name token
  | definesSystem name token, machine => machine.defineSystem name token

/-- Uses the scopes of a machine several times, in order. -/
def applyAll (uses : List ScopeUse) (machine : Machine) : Machine :=
  uses.foldl (fun machine use => use.apply machine) machine

/-- Definitions and scopes that are closed again, of dictionaries that are not among those
outside. -/
inductive Balanced (outside : List DictId) : List ScopeUse → Prop
  | nil : Balanced outside []
  | defines (name : Name) (token : Token) {rest : List ScopeUse} :
      Balanced outside rest → Balanced outside (defines name token :: rest)
  | scope {id : DictId} {inner rest : List ScopeUse} : id ∉ outside → Balanced outside inner →
      Balanced outside rest → Balanced outside (opens id :: (inner ++ closes :: rest))

variable {machine : Machine} {outside : List DictId} {uses inner rest : List ScopeUse}

@[simp]
theorem applyAll_nil (machine : Machine) : applyAll [] machine = machine := rfl

@[simp]
theorem applyAll_cons (use : ScopeUse) (rest : List ScopeUse) (machine : Machine) :
    applyAll (use :: rest) machine = applyAll rest (use.apply machine) := rfl

@[simp]
theorem applyAll_append (uses rest : List ScopeUse) (machine : Machine) :
    applyAll (uses ++ rest) machine = applyAll rest (applyAll uses machine) :=
  List.foldl_append

/-- No use moves the two dictionaries at the bottom. -/
theorem bottom_apply (use : ScopeUse) (machine : Machine) :
    (use.apply machine).scopes.system = machine.scopes.system ∧
      (use.apply machine).scopes.user = machine.scopes.user := by
  cases use with
  | opens id => exact ⟨rfl, rfl⟩
  | closes =>
    simp only [apply, Machine.endScope, Scopes.close]
    cases machine.scopes.opened <;> exact ⟨rfl, rfl⟩
  | defines name token => exact ⟨rfl, rfl⟩
  | definesSystem name token => exact ⟨rfl, rfl⟩

theorem bottom_applyAll (uses : List ScopeUse) (machine : Machine) :
    (applyAll uses machine).scopes.system = machine.scopes.system ∧
      (applyAll uses machine).scopes.user = machine.scopes.user := by
  induction uses generalizing machine with
  | nil => exact ⟨rfl, rfl⟩
  | cons use rest ih =>
    obtain ⟨hsystem, huser⟩ := ih (use.apply machine)
    obtain ⟨hsystemStep, huserStep⟩ := bottom_apply use machine
    exact ⟨hsystem.trans hsystemStep, huser.trans huserStep⟩

/-- Closing takes back the opening. -/
theorem apply_closes_of_opened {id : DictId} {scopes : Scopes}
    (hscopes : machine.scopes = scopes.push id) :
    closes.apply machine = { machine with scopes } := by
  simp only [apply, Machine.endScope, Scopes.close, hscopes, Scopes.push]

/-- From a scope of a dictionary that is not outside, balanced uses lead back to the same
scopes, and the dictionaries outside are not written. -/
theorem Balanced.applyAll (hbalanced : Balanced outside uses)
    (htop : machine.scopes.top ∉ outside) :
    (applyAll uses machine).scopes = machine.scopes ∧
      ∀ id ∈ outside, (applyAll uses machine).store.dictionary id =
        machine.store.dictionary id := by
  induction hbalanced generalizing machine with
  | nil => exact ⟨rfl, fun _ _ => rfl⟩
  | @defines name token rest _ ih =>
    have htopNext : (machine.redefine name token).scopes.top ∉ outside := htop
    obtain ⟨hscopes, hsame⟩ := ih htopNext
    refine ⟨hscopes, fun id hmem => (hsame id hmem).trans ?_⟩
    have hid : id ≠ machine.scopes.top := fun heq => htop (heq ▸ hmem)
    exact Store.dictionary_insert_ne hid
  | @scope id inner rest hid _ _ ihInner ihRest =>
    have htopInner : (machine.beginScope id).scopes.top ∉ outside := hid
    obtain ⟨hopened, hinner⟩ := ihInner htopInner
    have hclosed : closes.apply (ScopeUse.applyAll inner ((opens id).apply machine)) =
        { ScopeUse.applyAll inner (machine.beginScope id) with scopes := machine.scopes } :=
      apply_closes_of_opened hopened
    rw [applyAll_cons, applyAll_append, applyAll_cons, hclosed]
    obtain ⟨hscopes, hrest⟩ := @ihRest
      { ScopeUse.applyAll inner (machine.beginScope id) with scopes := machine.scopes } htop
    exact ⟨hscopes, fun own hmem => (hrest own hmem).trans (hinner own hmem)⟩

/-- A scope of a dictionary that was not open leaves the scopes and the open dictionaries as
they were. -/
theorem Balanced.closed {id : DictId} (hid : id ∉ machine.scopes.innermostFirst)
    (hbalanced : Balanced machine.scopes.innermostFirst inner) :
    let after := ScopeUse.applyAll (opens id :: (inner ++ [closes])) machine
    after.scopes = machine.scopes ∧
      ∀ other ∈ machine.scopes.innermostFirst,
        after.store.dictionary other = machine.store.dictionary other := by
  have htop : (machine.beginScope id).scopes.top ∉ machine.scopes.innermostFirst := hid
  obtain ⟨hscopes, hsame⟩ := hbalanced.applyAll htop
  intro after
  have hafter : after =
      { ScopeUse.applyAll inner (machine.beginScope id) with scopes := machine.scopes } := by
    rw [← apply_closes_of_opened hscopes]
    simp [after, ScopeUse.apply]
  rw [hafter]
  exact ⟨rfl, hsame⟩

end ScopeUse

namespace Machine

/-- A look-up by the machine gives a copy of what the scopes answer, for which the pools must
have room, and leaves behind the mark and nothing else. -/
theorem lookup_outcome (machine : Machine) (name : Name) :
    (machine.scopes.lookup machine.store name = none → lookup name machine = .ok none machine) ∧
    ∀ token next, machine.scopes.lookup machine.store name = some (token, next) →
      (∃ slack, lookup name machine = .ok (some token) { machine with store := next, slack }) ∨
        machine.room ≠ none ∧
          ∃ fault, lookup name machine = .error (.fault fault) { machine with store := next } := by
  refine ⟨fun hnone => ?_, fun token next hfound => ?_⟩
  · simp only [lookup, Bind.bind, EStateM.bind, MonadState.get, getThe, MonadStateOf.get,
      EStateM.get, hnone]
    rfl
  · rw [lookup_eq_claim hfound]
    obtain ⟨slack, hclaim⟩ | ⟨fault, hclaim, hroom⟩ :=
      claim_cases [.token token] { machine with store := next }
    · exact .inl ⟨slack, by simp only [Bind.bind, EStateM.bind, hclaim]; rfl⟩
    · exact .inr ⟨hroom, fault, by simp only [Bind.bind, EStateM.bind, hclaim]⟩

/-- After any use of the scopes of a machine the user dictionary and below it the system
dictionary are at the bottom.  For every name, whether it is known, where it is defined and
what it is bound to are one question: they have an answer together, and it is that of the
innermost dictionary that knows the name.  A look-up gives the token of the entry there, and
of everything in the store it changes the mark of that entry, which is set; a machine copies
the token, for which its pools must have room.  A scope of a dictionary that is not open,
with definitions and such scopes inside it, leaves the scopes, the open dictionaries and the
resolution of every name as they were. -/
theorem resolution_after_uses (machine : Machine) (uses : List ScopeUse) (name : Name) :
    let last := ScopeUse.applyAll uses machine
    let scopes := last.scopes
    let store := last.store
    scopes.innermostFirst = scopes.opened ++ [machine.scopes.user, machine.scopes.system] ∧
    (scopes.whereDefined? store name).isSome = scopes.knows store name ∧
    (scopes.lookup store name).isSome = scopes.knows store name ∧
    (∀ id, scopes.whereDefined? store name = some id ↔ scopes.Decides store name id) ∧
    (∀ token next, scopes.lookup store name = some (token, next) →
      (∃ id slot, scopes.Decides store name id ∧ token = slot.token ∧
        store.Marks id name slot next) ∧
      ((∃ slack, lookup name last = .ok (some token) { last with store := next, slack }) ∨
        last.room ≠ none ∧
          ∃ fault, lookup name last = .error (.fault fault) { last with store := next })) ∧
    (scopes.lookup store name = none → lookup name last = .ok none last) ∧
    ∀ id inner, id ∉ scopes.innermostFirst → ScopeUse.Balanced scopes.innermostFirst inner →
      let after := ScopeUse.applyAll (.opens id :: (inner ++ [.closes])) last
      after.scopes = scopes ∧
      (∀ other ∈ scopes.innermostFirst, after.store.dictionary other = store.dictionary other) ∧
      ∀ key, after.scopes.knows after.store key = scopes.knows store key ∧
        after.scopes.whereDefined? after.store key = scopes.whereDefined? store key ∧
        (after.scopes.lookup after.store key).map Prod.fst =
          (scopes.lookup store key).map Prod.fst := by
  intro last scopes store
  obtain ⟨hsystem, huser⟩ := ScopeUse.bottom_applyAll uses machine
  obtain ⟨hunbound, hfound⟩ := lookup_outcome last name
  refine ⟨?_, Scopes.isSome_whereDefined?, Scopes.isSome_lookup,
    fun _ => Scopes.whereDefined?_eq_some_iff,
    fun token next hlookup => ⟨?_, hfound token next hlookup⟩, hunbound,
    fun id inner hid hbalanced => ?_⟩
  · rw [Scopes.innermostFirst, hsystem, huser]
  · obtain ⟨id, slot, hdecides, hslot, rfl, rfl⟩ := Scopes.lookup_eq_some_iff.1 hlookup
    exact ⟨id, slot, hdecides, rfl, Store.marks_touch hslot⟩
  · intro after
    obtain ⟨hscopes, hsame⟩ := hbalanced.closed hid
    refine ⟨hscopes, hsame, fun key => ?_⟩
    have hscopes : after.scopes = scopes := hscopes
    have hsame : ∀ other ∈ scopes.innermostFirst,
        after.store.dictionary other = store.dictionary other := hsame
    rw [hscopes, ← Scopes.isSome_whereDefined?, ← Scopes.isSome_whereDefined?,
      Scopes.whereDefined?_congr hsame]
    exact ⟨rfl, rfl, Scopes.lookup_congr hsame⟩

/-- One dictionary is open twice and holds a void entry that shadows one further out; a scope
of another one, with a scope of itself inside, comes and goes. -/
theorem resolution_after_uses_shadowed :
    let machine := (bare {}).newHeldDictionary.2.newHeldDictionary.2
    let uses : List ScopeUse :=
      [.defines "x" (.integer 1), .opens ⟨2⟩, .defines "x" .void, .opens ⟨2⟩,
        .definesSystem "y" (.integer 2)]
    let inner : List ScopeUse :=
      [.defines "x" (.integer 3), .opens ⟨3⟩, .defines "y" (.integer 4), .closes]
    let last := ScopeUse.applyAll uses machine
    let after := ScopeUse.applyAll (.opens ⟨3⟩ :: (inner ++ [.closes])) last
    (∃ next, last.scopes.lookup last.store "x" = some (.void, next) ∧
      ∃ id slot, last.scopes.Decides last.store "x" id ∧ last.store.Marks id "x" slot next) ∧
    ⟨3⟩ ∉ last.scopes.innermostFirst ∧
    ScopeUse.Balanced last.scopes.innermostFirst inner ∧
    last.scopes.whereDefined? last.store "x" = some ⟨2⟩ ∧
    after.scopes.whereDefined? after.store "x" = some ⟨2⟩ := by
  intro machine uses inner last after
  obtain ⟨-, -, -, -, hlookup, -, hscope⟩ := resolution_after_uses machine uses "x"
  have hfound : last.scopes.lookup last.store "x" =
      some (.void, last.store.touch ⟨2⟩ "x") := rfl
  have hclosed : (⟨3⟩ : DictId) ∉ last.scopes.innermostFirst := by decide
  have hbalanced : ScopeUse.Balanced last.scopes.innermostFirst inner :=
    .defines _ _ (.scope hclosed (.defines _ _ .nil) .nil)
  have hwhere : last.scopes.whereDefined? last.store "x" = some ⟨2⟩ := by decide
  obtain ⟨⟨id, slot, hdecides, -, hmarks⟩, -⟩ := hlookup _ _ hfound
  obtain ⟨-, -, hsame⟩ := hscope ⟨3⟩ inner hclosed hbalanced
  exact ⟨⟨_, hfound, id, slot, hdecides, hmarks⟩, hclosed, hbalanced, hwhere,
    (hsame "x").2.1.trans hwhere⟩

end Machine

end StackLang
