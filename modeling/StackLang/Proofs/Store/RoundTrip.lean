import Mathlib
import StackLang.Proofs.Ownership.Liveness
import StackLang.Proofs.Ownership.Writes
import StackLang.Store.Access

/-!
# Reading back what was written

A value that is written under a name is read back as it was, whatever its kind, and no
other entry changes.  The one exception is a dictionary with a path of entries back to
the one it is stored in: only an alias is stored, so it can be read as long as a handle
somewhere else keeps it alive.
-/

namespace StackLang

open Relation

namespace Dictionary

variable {dictionary : Dictionary} {name : Name}

theorem ext {left right : Dictionary} (hentries : left.entries = right.entries) :
    left = right := by
  cases left
  cases right
  congr

theorem get?_modify_self (f : Slot → Slot) :
    (dictionary.modify name f).get? name = (dictionary.get? name).map f := by
  simp only [get?, modify, mapSlots]
  induction dictionary.entries with
  | nil => rfl
  | cons entry rest ih =>
    obtain ⟨other, slot⟩ := entry
    by_cases hother : name = other
    · subst hother
      simp
    · simpa [List.lookup_cons, beq_false_of_ne hother, Ne.symm hother] using ih

theorem get?_insert_self (token : Token) :
    (dictionary.insert name token).get? name = some { token } := by
  unfold insert
  split
  case isTrue hnone =>
    have hlookup : dictionary.entries.lookup name = none := hnone
    simp [get?, List.lookup_append, hlookup]
  case isFalse hsome =>
    obtain ⟨slot, hslot⟩ := Option.ne_none_iff_exists'.1 hsome
    rw [get?_modify_self, hslot, Option.map_some]

theorem erase_modify (f : Slot → Slot) :
    (dictionary.modify name f).erase name = dictionary.erase name := by
  refine ext ?_
  simp only [erase, modify, mapSlots, List.filter_map]
  refine (List.map_congr_left fun entry hmem => ?_).trans (List.map_id _)
  have hother : entry.1 ≠ name := by simpa using (List.mem_filter.1 hmem).2
  simp [hother]

theorem erase_insert (token : Token) :
    (dictionary.insert name token).erase name = dictionary.erase name := by
  unfold insert
  split
  · exact ext (by simp [erase])
  · exact erase_modify _

end Dictionary

namespace Kind

/-- A dictionary can be read while it is alive, any other value always. -/
def Readable (alive : DictId → Bool) : (kind : Kind) → kind.Carrier → Prop
  | dictionary, id => alive id = true
  | integer, _ | double, _ | boolean, _ | string, _ | name, _ | procedure, _ | tokens, _
  | doubles, _ | integers, _ => True

theorem mapM_double? (xs : List Float) : (xs.map Token.double).mapM double? = some xs := by
  induction xs with
  | nil => rfl
  | cons x rest ih =>
    rw [List.map_cons, List.mapM_cons, ih]
    rfl

theorem mapM_integer? (ns : List Int64) : (ns.map Token.integer).mapM integer? = some ns := by
  induction ns with
  | nil => rfl
  | cons n rest ih =>
    rw [List.map_cons, List.mapM_cons, ih]
    rfl

/-- What is stored as it is can be read back. -/
theorem ofToken_toToken (alive : DictId → Bool) (kind : Kind) (value : kind.Carrier) :
    kind.ofToken alive (kind.toToken value) = .ok value := by
  cases kind with
  | doubles =>
    have hvalue : (doubles.toToken value).value?.bind (doubles.ofValue alive) = some value :=
      mapM_double? value
    rw [ofToken, hvalue]
  | integers =>
    have hvalue : (integers.toToken value).value?.bind (integers.ofValue alive) = some value :=
      mapM_integer? value
    rw [ofToken, hvalue]
  | _ => rfl

end Kind

namespace Store

variable {store : Store} {target : DictId} {name : Name}

theorem slot?_insert_self {token : Token} (hlt : target.index < store.dictionaries.size) :
    (store.insert target name token).slot? target name =
      some { token := store.accepted target token } := by
  rw [slot?, dictionary_insert_self hlt, Dictionary.get?_insert_self]

theorem erase_insert_self {token : Token} :
    ((store.insert target name token).dictionary target).erase name =
      (store.dictionary target).erase name := by
  by_cases hlt : target.index < store.dictionaries.size
  · rw [dictionary_insert_self hlt, Dictionary.erase_insert]
  · rw [dictionary_eq_empty (by simpa using hlt), dictionary_eq_empty (Nat.le_of_not_lt hlt)]

theorem erase_touch_self :
    ((store.touch target name).dictionary target).erase name =
      (store.dictionary target).erase name := by
  by_cases hlt : target.index < store.dictionaries.size
  · rw [touch, dictionary_modifyDictionary_self _ hlt, Dictionary.touch, Dictionary.erase_modify]
  · have hsize : (store.touch target name).dictionaries.size ≤ target.index := by
      simpa [touch, modifyDictionary] using hlt
    rw [dictionary_eq_empty hsize, dictionary_eq_empty (Nat.le_of_not_lt hlt)]

theorem readAs_eq {alive : DictId → Bool} {kind : Kind} {slot : Slot}
    (hslot : store.slot? target name = some slot) :
    (readAs alive kind target name).run store = match kind.ofToken alive slot.token with
      | .ok value => .ok value (store.touch target name)
      | .error reason => .error (.undefinedName name.text)
          ((store.touch target name).report (.unreadable name reason)) := by
  have hread : (read target name).run store = .ok slot.token (store.touch target name) := by
    simp only [read, read?, EStateM.run, bind, EStateM.bind, get, getThe, MonadStateOf.get,
      EStateM.get, hslot]
    rfl
  simp only [EStateM.run] at hread
  simp only [readAs, EStateM.run, bind, EStateM.bind, hread]
  cases kind.ofToken alive slot.token <;> rfl

/-- A dictionary that does not lead back is owned by the one it is stored in. -/
theorem owns_of_insert {inner : DictId} {token : Token}
    (hlt : target.index < store.dictionaries.size)
    (howned : token.ownedDictionary? = some inner)
    (hback : ¬ ReflTransGen store.DirectlyOwns inner target) :
    (store.insert target name token).Owns (.dictionary target) (.dictionary inner) := by
  have hslot : (store.insert target name token).slot? target name = some { token := token } := by
    rw [slot?_insert_self hlt, accepted_of_not_reaches howned hback]
  exact (directlyOwns_iff.2 ⟨token, Dictionary.mem_tokens_of_get? hslot, howned⟩).owns

/-- A dictionary that is stored is alive if it does not lead back or if somebody outside
can come to it. -/
theorem isAlive_of_insert {roots : List Token} {inner : DictId} {token : Token}
    (hlt : target.index < store.dictionaries.size)
    (hroot : .dictionary target ∈ Token.ownedByAll roots)
    (howned : token.ownedDictionary? = some inner)
    (hinner : inner.index < store.dictionaries.size)
    (hheld : ¬ ReflTransGen store.DirectlyOwns inner target ∨
      ∃ root ∈ Token.ownedByAll roots,
        ReflTransGen (store.insert target name token).Owns root (.dictionary inner)) :
    (store.insert target name token).isAlive roots inner = true := by
  rw [isAlive_iff (by simpa using hinner)]
  obtain hback | houtside := hheld
  · exact .inl ⟨_, hroot, .single (owns_of_insert hlt howned hback)⟩
  · exact .inl houtside

/-- What is stored for a value is read back as that value if it can be read. -/
theorem ofToken_accepted {alive : DictId → Bool} {kind : Kind} {value : kind.Carrier}
    (hreadable : kind.Readable alive value) :
    kind.ofToken alive (store.accepted target (kind.toToken value)) = .ok value := by
  cases kind with
  | dictionary =>
    have howned : (Kind.dictionary.toToken value).ownedDictionary? = some value := rfl
    have halive : alive value = true := hreadable
    by_cases hback : ReflTransGen store.DirectlyOwns value target
    · rw [accepted_of_reaches howned hback]
      simp [Kind.toToken, Token.dictionary, Token.ofValue, Token.mapValue, Kind.ofToken,
        Kind.ofValue, Kind.resolve, Token.value?, halive]
    · rw [accepted_of_not_reaches howned hback, Kind.ofToken_toToken]
  | _ => rw [accepted_of_no_handle rfl, Kind.ofToken_toToken]

/-- An alias of a dictionary that is not alive cannot be read. -/
theorem ofToken_accepted_dead {alive : DictId → Bool} {inner : DictId}
    (hback : ReflTransGen store.DirectlyOwns inner target) (hdead : alive inner = false) :
    Kind.dictionary.ofToken alive (store.accepted target (.dictionary inner)) =
      .error (.typeMismatch "dictionarytype" "dictionarytype") := by
  have howned : (Token.dictionary inner).ownedDictionary? = some inner := rfl
  rw [accepted_of_reaches howned hback]
  simp [Token.dictionary, Token.ofValue, Token.mapValue, Kind.ofToken, Kind.ofValue, Kind.resolve,
    Token.value?, hdead, Kind.expected, Token.typeName, Value.tag, TypeTag.typeName]

/-- A value that is written is read back, a dictionary if it is alive by then; otherwise
the name counts as undefined.  A dictionary is alive if it does not lead back to the one
it is stored in, or if somebody outside can come to it.  Nothing else changes. -/
theorem readAs_define (store : Store) (roots : List Token) (kind : Kind) (target : DictId)
    (name : Name) (value : kind.Carrier) (htarget : target.index < store.dictionaries.size)
    (hroot : .dictionary target ∈ Token.ownedByAll roots)
    (hvalue : ∀ inner, (kind.toToken value).ownedDictionary? = some inner →
      inner.index < store.dictionaries.size) :
    let written := store.define kind target name value
    let alive := written.isAlive roots
    let reading := (readAs alive kind target name).run written
    (kind.Readable alive value → reading = .ok value (written.touch target name)) ∧
      (¬ kind.Readable alive value → reading = .error (.undefinedName name.text)
        ((written.touch target name).report
          (.unreadable name (.typeMismatch "dictionarytype" "dictionarytype")))) ∧
      (∀ inner, (kind.toToken value).ownedDictionary? = some inner →
        ¬ ReflTransGen store.DirectlyOwns inner target ∨
          (∃ root ∈ Token.ownedByAll roots, ReflTransGen written.Owns root (.dictionary inner)) →
            alive inner = true) ∧
      ((written.touch target name).dictionary target).erase name =
        (store.dictionary target).erase name ∧
      ∀ other, other ≠ target →
        (written.touch target name).dictionary other = store.dictionary other := by
  intro written alive reading
  have hslot : written.slot? target name =
      some { token := store.accepted target (kind.toToken value) } := slot?_insert_self htarget
  have hreading : reading = _ := readAs_eq hslot
  have halive : ∀ inner, (kind.toToken value).ownedDictionary? = some inner →
      ¬ ReflTransGen store.DirectlyOwns inner target ∨
        (∃ root ∈ Token.ownedByAll roots, ReflTransGen written.Owns root (.dictionary inner)) →
          alive inner = true :=
    fun inner howned hheld =>
      isAlive_of_insert htarget hroot howned (hvalue inner howned) hheld
  refine ⟨fun hreadable => ?_, fun hunreadable => ?_, halive, ?_, fun other hne => ?_⟩
  · rw [hreading, ofToken_accepted hreadable]
  · cases kind with
    | dictionary =>
      have hdead : alive value = false := Bool.eq_false_iff.2 hunreadable
      have hback : ReflTransGen store.DirectlyOwns value target := by
        by_contra hback
        exact hunreadable (halive value rfl (.inl hback))
      have hrefused : Kind.dictionary.ofToken alive
          (store.accepted target (Kind.dictionary.toToken value)) = _ :=
        ofToken_accepted_dead hback hdead
      rw [hreading, hrefused]
    | _ => exact absurd trivial hunreadable
  · rw [erase_touch_self]
    exact erase_insert_self
  · rw [touch, dictionary_modifyDictionary_ne _ hne]
    exact dictionary_insert_ne hne

/-- Two dictionaries, of which the second has the first as an entry. -/
def leadingBack : Store :=
  ({ dictionaries := #[.empty, .empty] } : Store).define .dictionary ⟨1⟩ "back" ⟨0⟩

/-- A dictionary that leads back is read back while somebody outside holds it. -/
theorem readAs_define_held :
    (readAs ((leadingBack.define .dictionary ⟨0⟩ "k" ⟨1⟩).isAlive
        [.dictionary ⟨0⟩, .dictionary ⟨1⟩]) .dictionary ⟨0⟩ "k").run
      (leadingBack.define .dictionary ⟨0⟩ "k" ⟨1⟩) =
        .ok ⟨1⟩ ((leadingBack.define .dictionary ⟨0⟩ "k" ⟨1⟩).touch ⟨0⟩ "k") := by
  have hvalue : ∀ inner, (Kind.dictionary.toToken ⟨1⟩).ownedDictionary? = some inner →
      inner.index < leadingBack.dictionaries.size := by
    rintro inner ⟨⟩
    decide
  have hroundTrip := readAs_define leadingBack [.dictionary ⟨0⟩, .dictionary ⟨1⟩] .dictionary ⟨0⟩
    "k" ⟨1⟩ (by decide) (by decide) hvalue
  exact hroundTrip.1 (hroundTrip.2.2.1 ⟨1⟩ rfl (.inr ⟨.dictionary ⟨1⟩, by decide, .refl⟩))

/-- A dictionary that leads back and whose last handle is given up with the write cannot
be read back. -/
theorem readAs_define_dropped :
    ¬ ∀ (store : Store) (roots : List Token) (kind : Kind) (target : DictId) (name : Name)
      (value : kind.Carrier), target.index < store.dictionaries.size →
        .dictionary target ∈ Token.ownedByAll roots →
          ∃ last, (readAs ((store.define kind target name value).isAlive roots) kind target
            name).run (store.define kind target name value) = .ok value last := by
  intro hreads
  obtain ⟨last, hlast⟩ := hreads leadingBack [.dictionary ⟨0⟩] .dictionary ⟨0⟩ "k" ⟨1⟩
    (by decide) (by decide)
  have hback : ReflTransGen leadingBack.DirectlyOwns ⟨1⟩ ⟨0⟩ := reaches_iff.1 (by decide)
  have hdead : (leadingBack.define .dictionary ⟨0⟩ "k" ⟨1⟩).isAlive [.dictionary ⟨0⟩] ⟨1⟩ =
      false := by
    decide
  have hslot : (leadingBack.define .dictionary ⟨0⟩ "k" ⟨1⟩).slot? ⟨0⟩ "k" =
      some { token := leadingBack.accepted ⟨0⟩ (.dictionary ⟨1⟩) } :=
    slot?_insert_self (by decide)
  rw [readAs_eq hslot, ofToken_accepted_dead hback hdead] at hlast
  cases hlast

end Store

end StackLang
