import StackLang.Proofs.Control.Fresh
import StackLang.Proofs.Control.ReadOnly
import StackLang.Proofs.Control.Silence
import StackLang.Proofs.Store.Merging

/-!
# Merging into a dictionary that is bound to a name

The machine looks up the dictionary, which marks the binding as read, and then does to the
store what a merge of the two dictionaries does.  Storage for the copies is claimed one
entry after the other.  Pools that cannot grow for ever may run out of it, and then the
copies made so far stay, but nothing else has changed.
-/

namespace StackLang

namespace Machine

variable {machine : Machine} {touched : Store} {source target : DictId} {name : Name}

/-- A claim changes nothing but the storage that is set aside, or it exceeds the room. -/
theorem claim_cases (inHand : List Holding) (machine : Machine) :
    (∃ slack, claim inHand machine = .ok () { machine with slack }) ∨
      ∃ fault, claim inHand machine = .error (.fault fault) machine ∧ machine.room ≠ none := by
  rw [claim_eq]
  split
  case h_1 => exact .inl ⟨machine.slack, rfl⟩
  case h_2 room hroom =>
    dsimp only
    split
    · exact .inl ⟨_, rfl⟩
    · split
      · exact .inl ⟨_, rfl⟩
      · exact .inr ⟨room.fault, rfl, by simp [hroom]⟩

/-- The innermost binding of the name is a dictionary, which is alive.  The store is the
one in which that binding has been read. -/
inductive Finds (machine : Machine) (name : Name) : Store → DictId → Prop where
  | found {holder target : DictId} {slot : Slot}
    (hholder : machine.scopes.whereDefined? machine.store name = some holder)
    (hslot : machine.store.slot? holder name = some slot)
    (htarget : Kind.dictionary.ofToken
      (isAlive { machine with store := machine.store.touch holder name }) slot.token =
        .ok target) :
    Finds machine name (machine.store.touch holder name) target

/-- The machine ends with the store that is the result, or fails with its error and leaves
the store in which the binding has been read.  Unless its pools can grow for ever it may run
out of storage, and leaves one of the stores that stand between the two. -/
inductive Delivers (machine : Machine) (touched : Store) (between : Store → Prop) :
    Except Error Store → Outcome → Prop where
  | ok {store : Store} {slack : Nat} :
    Delivers machine touched between (.ok store) (.ok () { machine with store, slack })
  | error {error : Error} {slack : Nat} :
    Delivers machine touched between (.error error)
      (.error (.error error) { machine with store := touched, slack })
  | fault {result : Except Error Store} {fault : Fault} {store : Store} {slack : Nat}
    (hroom : machine.room ≠ none) (hbetween : between store) :
    Delivers machine touched between result
      (.error (.fault fault) { machine with store, slack })

theorem Delivers.of_unlimited {store : Store} {outcome : Outcome} {between : Store → Prop}
    (hdelivers : Delivers machine touched between (.ok store) outcome)
    (hroom : machine.room = none) : ∃ slack, outcome = .ok () { machine with store, slack } := by
  cases hdelivers with
  | ok => exact ⟨_, rfl⟩
  | fault hlimited => exact absurd hroom hlimited

/-- The binding has been read before storage for the copy is claimed. -/
theorem resolveDictionary_cases (hfinds : machine.Finds name touched target) :
    (∃ slack, resolveDictionary name machine =
      .ok target { machine with store := touched, slack }) ∨
      ∃ fault slack, resolveDictionary name machine =
        .error (.fault fault) { machine with store := touched, slack } ∧
        machine.room ≠ none := by
  cases hfinds with
  | @found holder target slot hholder hslot htarget =>
    have hfound : machine.scopes.lookup machine.store name =
        some (slot.token, machine.store.touch holder name) := by
      rw [Scopes.lookup_eq, hholder, Option.bind_some, hslot, Option.map_some]
    simp only [resolveDictionary, bind, EStateM.bind, lookup_eq_claim hfound]
    obtain ⟨slack, hclaim⟩ | ⟨fault, hclaim, hroom⟩ := claim_cases [.token slot.token]
      { machine with store := machine.store.touch holder name }
    · have halive : ∀ slack, Kind.dictionary.ofToken
          (isAlive { machine with store := machine.store.touch holder name, slack })
            slot.token = .ok target := fun _ => htarget
      rw [hclaim]
      refine .inl ⟨slack, ?_⟩
      simp only [pure, EStateM.pure, EStateM.bind, get, getThe, MonadStateOf.get, EStateM.get,
        halive, orFail]
    · rw [hclaim]
      exact .inr ⟨fault, machine.slack, rfl, hroom⟩

/-- Entries are copied one by one, which does to the store what copying them at once does, or
storage runs out at one of them. -/
theorem copyInto_cases (target : DictId) (entries : List (Name × Slot)) (machine : Machine) :
    (∃ slack, copyInto target entries machine = .ok () { machine with
      store := entries.foldl (fun store entry => store.insert target entry.1 entry.2.token)
        machine.store
      slack }) ∨
    ∃ fault copied entry left slack, entries = copied ++ entry :: left ∧
      copyInto target entries machine = .error (.fault fault) { machine with
        store := copied.foldl (fun store entry => store.insert target entry.1 entry.2.token)
          machine.store
        slack } ∧
      machine.room ≠ none := by
  induction entries generalizing machine with
  | nil => exact .inl ⟨machine.slack, rfl⟩
  | cons entry rest ih =>
    simp only [copyInto, bind, EStateM.bind]
    obtain ⟨slack, hclaim⟩ | ⟨fault, hclaim, hroom⟩ :=
      claim_cases [.token entry.2.token, .value (.dictionary (.owned target))] machine
    · rw [hclaim]
      obtain ⟨last, hcopied⟩ | ⟨fault, copied, later, left, last, rfl, hstopped, hroom⟩ :=
        ih { machine with store := machine.store.insert target entry.1 entry.2.token, slack }
      · exact .inl ⟨last, hcopied⟩
      · exact .inr ⟨fault, entry :: copied, later, left, last, rfl, hstopped, hroom⟩
    · rw [hclaim]
      exact .inr ⟨fault, [], entry, rest, machine.slack, rfl, rfl, hroom⟩

theorem merge_delivers (hfinds : machine.Finds name touched target)
    (hlt : target.index < touched.dictionaries.size) :
    Delivers machine touched (touched.Halfway source target) (touched.merge source target)
      (merge source name machine) := by
  simp only [merge, bind, EStateM.bind]
  obtain ⟨slack, hresolve⟩ | ⟨fault, slack, hresolve, hroom⟩ := resolveDictionary_cases hfinds
  · rw [hresolve, Store.merge]
    simp only [get, getThe, MonadStateOf.get, EStateM.get]
    cases hcollision : touched.firstCollision? source target with
    | some known => exact .error
    | none =>
      obtain ⟨last, hcopied⟩ | ⟨fault, copied, entry, left, last, hsplit, hstopped, hroom⟩ :=
        copyInto_cases target (touched.dictionary source).entries
          { machine with store := touched, slack }
      · simp only [hcopied]
        exact .ok
      · simp only [hstopped]
        exact .fault hroom (Store.halfway_foldl_insert hlt hcollision hsplit)
  · rw [hresolve]
    exact .fault hroom .untouched

theorem unmerge_delivers (hfinds : machine.Finds name touched target) :
    Delivers machine touched (· = touched) (.ok (touched.unmerge source target))
      (unmerge source name machine) := by
  simp only [unmerge, bind, EStateM.bind]
  obtain ⟨slack, hresolve⟩ | ⟨fault, slack, hresolve, hroom⟩ := resolveDictionary_cases hfinds
  · rw [hresolve]
    exact .ok
  · rw [hresolve]
    exact .fault hroom rfl

/-- Merging copies all entries of a dictionary or none, and removing its names takes the
copies back.  A dictionary that is merged into itself collides with its own first name,
and one without its own names is empty.  A machine does the same to the dictionary that is
bound to a name, apart from marking the binding as read, unless its pools cannot grow for
ever and it runs out of storage: then the first entries of the source may have been copied
when a merge stops, and nothing has been removed. -/
theorem merge_all_or_none {store : Store} {source target : DictId}
    (hlt : target.index < store.dictionaries.size) :
    (source ≠ target → store.Merges source target (store.merge source target)) ∧
      (source = target →
        (store.merge source target = match (store.dictionary source).names with
          | [] => .ok store
          | name :: _ => .error (.undefinedName name.text)) ∧
        (store.unmerge source target).dictionary target = .empty ∧
        ∀ other, other ≠ target →
          (store.unmerge source target).dictionary other = store.dictionary other) ∧
      ∀ (machine : Machine) (name : Name), machine.Finds name store target →
        Delivers machine store (store.Halfway source target) (store.merge source target)
            (merge source name machine) ∧
          Delivers machine store (· = store) (.ok (store.unmerge source target))
            (unmerge source name machine) := by
  refine ⟨fun hne => Store.merges_merge hne hlt, ?_, fun machine name hfinds =>
    ⟨merge_delivers hfinds hlt, unmerge_delivers hfinds⟩⟩
  rintro rfl
  exact ⟨store.merge_itself source, Store.dictionary_unmerge_itself,
    fun other hother => Store.dictionary_unmerge_ne hother⟩

/-- A dictionary with an entry for the parent of the target is merged into the target, which
the machine finds in that parent.  The entry is stored as an alias, and removing it restores
the target. -/
theorem merge_all_or_none_parent :
    let parent : Dictionary := Dictionary.empty.insert "down" (.dictionary ⟨0⟩)
    let source : Dictionary := Dictionary.empty.insert "up" (.dictionary ⟨2⟩)
    let target : Dictionary := Dictionary.empty.insert "k" (.integer 1)
    let machine : Machine :=
      { store := { dictionaries := #[target, source, parent] }
        scopes := { system := ⟨2⟩, user := ⟨2⟩ } }
    ∃ next slack, merge ⟨1⟩ "down" machine = .ok () { machine with store := next, slack } ∧
      (next.dictionary ⟨0⟩).entries = target.entries ++
        [(("up" : Name), ({ token := .ofValue (.dictionary (.aliased ⟨2⟩)) } : Slot))] ∧
      (next.unmerge ⟨1⟩ ⟨0⟩).dictionary ⟨0⟩ = target := by
  intro parent source target machine
  have hfinds : machine.Finds "down" (machine.store.touch ⟨2⟩ "down") ⟨0⟩ := .found rfl rfl rfl
  have hlt : (⟨0⟩ : DictId).index < (machine.store.touch ⟨2⟩ "down").dictionaries.size := by decide
  have hne : (⟨1⟩ : DictId) ≠ ⟨0⟩ := by decide
  obtain ⟨hmerges, -, hdelivers⟩ :=
    @merge_all_or_none (machine.store.touch ⟨2⟩ "down") ⟨1⟩ ⟨0⟩ hlt
  have hmerge : (machine.store.touch ⟨2⟩ "down").merge ⟨1⟩ ⟨0⟩ =
      .ok ((machine.store.touch ⟨2⟩ "down").copyEntries ⟨1⟩ ⟨0⟩) := rfl
  have hmerged := hmerges hne
  have hdone := (hdelivers machine "down" hfinds).1
  rw [hmerge] at hmerged hdone
  obtain ⟨slack, hended⟩ := hdone.of_unlimited rfl
  obtain ⟨⟨copies, hcopies, hentries⟩, -, hundone⟩ := hmerged.withCopies
  obtain ⟨copied, rest, hcopied, hrest, rfl⟩ := List.forall₂_cons_left_iff.1 hcopies
  obtain rfl := List.forall₂_nil_left_iff.1 hrest
  rw [hcopied.of_path rfl (Store.reaches_iff.1 (by decide))] at hentries
  exact ⟨_, slack, hended, hentries, hundone ⟨0⟩⟩

/-- Where the pools cannot grow, there may be room for a copy of the first entry of a dictionary
but not for one of the second. -/
theorem merge_stops_halfway :
    let numbers : Draft := .array ((List.range 10).map fun n => .integer (.ofNat n))
    ∃ machine, Crowded [.newDictionary [.mk "a" numbers, .mk "b" numbers], .newDictionary []]
        machine ∧
      let bound := machine.redefine "d" (.ofValue (.dictionary (.owned ⟨3⟩)))
      let failed := ended (merge ⟨2⟩ "d" bound)
      ∃ touched merged, bound.Finds "d" touched ⟨3⟩ ∧ touched.merge ⟨2⟩ ⟨3⟩ = .ok merged ∧
        (merged.dictionary ⟨3⟩).names = [("a" : Name), "b"] ∧ Faulted (merge ⟨2⟩ "d" bound) ∧
        (failed.store.dictionary ⟨3⟩).names = [("a" : Name)] := by
  intro numbers
  obtain ⟨machine, hcrowded, -, htested⟩ := exists_crowded
    [.newDictionary [.mk "a" numbers, .mk "b" numbers], .newDictionary []]
    (fun machine : Machine =>
      let bound := machine.redefine "d" (.ofValue (.dictionary (.owned ⟨3⟩)))
      let touched := bound.store.touch ⟨1⟩ "d"
      decide (bound.scopes.whereDefined? bound.store "d" = some ⟨1⟩) &&
        (bound.store.slot? ⟨1⟩ "d").any (fun slot : Slot =>
          (Kind.dictionary.ofToken (isAlive { bound with store := touched })
            slot.token).toOption == some ⟨3⟩) &&
        (touched.merge ⟨2⟩ ⟨3⟩).toOption.any (fun merged : Store =>
          decide ((merged.dictionary ⟨3⟩).names = [("a" : Name), "b"])) &&
        decide (Faulted (merge ⟨2⟩ "d" bound)) &&
        decide (((ended (merge ⟨2⟩ "d" bound)).store.dictionary ⟨3⟩).names = [("a" : Name)]))
    (by decide +kernel)
  simp only [Bool.and_eq_true, decide_eq_true_eq, Option.any_eq_true, beq_iff_eq] at htested
  obtain ⟨⟨⟨⟨hholder, slot, hslot, htarget⟩, merged, hmerged, hnames⟩, hfaulted⟩, hstopped⟩ :=
    htested
  exact ⟨machine, hcrowded, _, merged, .found hholder hslot (eq_ok_of_toOption htarget),
    eq_ok_of_toOption hmerged, hnames, hfaulted, hstopped⟩

end Machine

end StackLang
