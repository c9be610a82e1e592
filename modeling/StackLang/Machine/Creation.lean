import StackLang.Machine.Registration
import StackLang.Store.Build

/-!
# The life of a machine

A machine begins with two empty dictionaries, in one of which its operators are
registered.  Its host makes dictionaries and tokens for it, as far as the pools
have room.  When the machine goes, its scopes are emptied.
-/

namespace StackLang.Machine

/-- A machine with empty stacks and two empty dictionaries. -/
def bare (config : Config) : Machine :=
  let store : Store := {}
  let (system, store) := store.newDictionary
  let (user, store) := store.newDictionary
  { store := store.report
      (.installingPools config.pools.initialBlockSize config.pools.growthFactor)
    scopes := { system, user }
    config
    room := config.pools.room? }

/-- A machine with operators, for which its value pools must have room. -/
def create (config : Config) (registrations : List Registration) : Except Fault Machine := do
  config.pools.check
  match (registrations.forM install).run (bare config) with
  | .ok _ machine => .ok machine
  | .error fault _ => .error fault

/-- Makes an empty dictionary that the host holds. -/
def newHeldDictionary (machine : Machine) : DictId × Machine :=
  let (id, store) := machine.store.newDictionary
  (id, { machine with store, held := .value (.dictionary (.owned id)) :: machine.held })

/-- The admission of data to a machine. -/
def admission (machine : Machine) : Admission := fun inHand store =>
  { machine with store }.refusal? inHand

/-- Makes something in the store of a machine. -/
def making {α : Type} (action : Admission → Making α) : HostAction α := fun machine =>
  match (action machine.admission).run machine.store with
  | .ok value store => .ok value { machine with store, slack := 0 }
  | .error fault store => .error fault { machine with store, slack := 0 }

/-- Makes the token that a draft describes. -/
def make (draft : Draft) : HostAction Token :=
  making fun admission => draft.make admission []

/-- Makes the tokens that drafts describe, in order. -/
def makeAll (drafts : List Draft) : HostAction (List Token) :=
  making fun admission => Draft.makeAll admission [] drafts

/-- The store after the scopes have been given up, which empties their
dictionaries. -/
def finalStore (machine : Machine) : Store :=
  machine.scopes.clearAll machine.store

end StackLang.Machine
