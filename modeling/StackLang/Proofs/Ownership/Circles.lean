import StackLang.Proofs.Ownership.Liveness
import StackLang.Proofs.Ownership.Writes

/-!
# Circles of dictionaries

A write that would close a path of entries stores an alias, so no path of entries ever
leads from a dictionary back to itself.  The check looks at handles that are entries
themselves.  A handle inside an array, a procedure or a callback is stored as it is,
and a circle through one of these outlives the last handle outside.
-/

namespace StackLang

open Relation

namespace Store

variable {store next : Store} {id target : DictId} {name : Name} {token : Token}

/-! ## No circle of entries -/

/-- A way that uses more steps from one point either does without them or leads to that
point and goes on from the end of one of them. -/
theorem reflTransGen_of_extra {α : Type} {old new : α → α → Prop} {start : α} {ends : α → Prop}
    (hnew : ∀ x y, new x y → old x y ∨ x = start ∧ ends y) {a b : α}
    (hpath : ReflTransGen new a b) :
    ReflTransGen old a b ∨
      ReflTransGen old a start ∧ ∃ finish, ends finish ∧ ReflTransGen old finish b := by
  induction hpath with
  | refl => exact .inl .refl
  | tail _ hstep ih =>
    obtain hold | ⟨rfl, hend⟩ := hnew _ _ hstep
    · exact ih.imp (·.tail hold) (.imp_right fun ⟨finish, hend, hpath⟩ =>
        ⟨finish, hend, hpath.tail hold⟩)
    · exact .inr ⟨ih.elim id And.left, _, hend, .refl⟩

/-- A circle that uses more steps from one point gives a way back to it from the end of
one of them. -/
theorem transGen_of_extra {α : Type} {old new : α → α → Prop} {start : α} {ends : α → Prop}
    (hnew : ∀ x y, new x y → old x y ∨ x = start ∧ ends y) {a : α}
    (hcircle : TransGen new a a) :
    TransGen old a a ∨ ∃ finish, ends finish ∧ ReflTransGen old finish start := by
  obtain ⟨last, hpath, hstep⟩ := TransGen.tail'_iff.1 hcircle
  obtain hold | ⟨hlast, hfirst⟩ := hnew _ _ hstep
  · obtain hpath | ⟨hto, finish, hend, hback⟩ := reflTransGen_of_extra hnew hpath
    · exact .inl (TransGen.tail' hpath hold)
    · exact .inr ⟨finish, hend, (hback.tail hold).trans hto⟩
  · subst hlast
    obtain hpath | ⟨hto, -⟩ := reflTransGen_of_extra hnew hpath
    · exact .inr ⟨a, hfirst, hpath⟩
    · exact .inr ⟨a, hfirst, hto⟩

/-- No path of entries leads from a dictionary back to itself. -/
def Acyclic (store : Store) : Prop :=
  ∀ id, ¬ TransGen store.DirectlyOwns id id

theorem Within.directlyOwns (hwithin : next.Within store) {owner : DictId}
    (howns : next.DirectlyOwns owner id) : store.DirectlyOwns owner id := by
  obtain ⟨token, hmem, howned⟩ := directlyOwns_iff.1 howns
  exact directlyOwns_iff.2 ⟨token, hwithin.tokens owner hmem, howned⟩

theorem Acyclic.within (hacyclic : store.Acyclic) (hwithin : next.Within store) : next.Acyclic :=
  fun id hcircle => hacyclic id (TransGen.mono (fun _ _ => hwithin.directlyOwns) id id hcircle)

theorem Acyclic.insert (hacyclic : store.Acyclic) (target : DictId) (name : Name)
    (token : Token) : (store.insert target name token).Acyclic := by
  intro id hcircle
  cases howned : (store.accepted target token).ownedDictionary? with
  | none =>
    refine hacyclic id (TransGen.mono (fun owner owned howns => ?_) id id hcircle)
    obtain ⟨bound, hmem, hbound⟩ := directlyOwns_iff.1 howns
    obtain hold | ⟨-, rfl⟩ := mem_tokens_of_insert hmem
    · exact directlyOwns_iff.2 ⟨bound, hold, hbound⟩
    · simp [howned] at hbound
  | some inner =>
    have hnew : ∀ owner owned, (store.insert target name token).DirectlyOwns owner owned →
        store.DirectlyOwns owner owned ∨ owner = target ∧ owned = inner := by
      intro owner owned howns
      obtain ⟨bound, hmem, hbound⟩ := directlyOwns_iff.1 howns
      obtain hold | ⟨rfl, rfl⟩ := mem_tokens_of_insert hmem
      · exact .inl (directlyOwns_iff.2 ⟨bound, hold, hbound⟩)
      · exact .inr ⟨rfl, Option.some.inj (hbound.symm.trans howned)⟩
    obtain hold | ⟨finish, rfl, hback⟩ := transGen_of_extra hnew hcircle
    · exact hacyclic id hold
    · exact not_reaches_of_accepted howned hback

theorem stable_acyclic : Stable (fun _ => True) Acyclic where
  tokens := fun _ _ => trivial
  insert := fun hacyclic _ target name => hacyclic.insert target name _
  within := Acyclic.within

end Store

/-- The token holds no handle of a dictionary unless it is one. -/
def Token.Flat (token : Token) : Prop :=
  ∀ id, .dictionary id ∈ token.owned → token.ownedDictionary? = some id

namespace Store

variable {store : Store} {owner : SharedObject} {id : DictId}

/-- No dictionary holds a handle of a dictionary but as an entry. -/
def Flat (store : Store) : Prop :=
  ∀ id, ∀ token ∈ (store.dictionary id).tokens, token.Flat

theorem flat_accepted {target : DictId} {token : Token} (hflat : token.Flat) :
    (store.accepted target token).Flat := by
  unfold accepted
  split
  · exact hflat
  · intro id hmem
    cases token <;> simp [Token.mapValue, Token.owned, Value.owned] at hmem

theorem stable_flat : Stable Token.Flat Flat where
  tokens := fun hflat hmem => hflat _ _ hmem
  insert := fun hflat htoken target name id bound hmem => by
    obtain hold | ⟨-, rfl⟩ := mem_tokens_of_insert hmem
    · exact hflat id bound hold
    · exact flat_accepted htoken
  within := fun hflat hwithin id token hmem => hflat id token (hwithin.tokens id hmem)

/-- Without handles inside containers, only entries lead to dictionaries. -/
theorem Flat.owner_of_owns (hflat : store.Flat)
    (htables : ∀ table id, ¬ store.Owns (.table table) (.dictionary id))
    (howns : store.Owns owner (.dictionary id)) :
    ∃ other, owner = .dictionary other ∧ store.DirectlyOwns other id := by
  cases owner with
  | table table => exact absurd howns (htables table id)
  | dictionary other =>
    obtain ⟨token, hmem, howned⟩ := Token.mem_ownedByAll.1 howns
    exact ⟨other, rfl, directlyOwns_iff.2 ⟨token, hmem, hflat other token hmem id howned⟩⟩

theorem Flat.path_of_owns (hflat : store.Flat)
    (htables : ∀ table id, ¬ store.Owns (.table table) (.dictionary id))
    (hpath : ReflTransGen store.Owns owner (.dictionary id)) :
    ∃ other, owner = .dictionary other ∧ ReflTransGen store.DirectlyOwns other id := by
  induction hpath using ReflTransGen.head_induction_on with
  | refl => exact ⟨id, rfl, .refl⟩
  | head hstep _ ih =>
    obtain ⟨next, rfl, hrest⟩ := ih
    obtain ⟨other, rfl, howns⟩ := hflat.owner_of_owns htables hstep
    exact ⟨other, rfl, hrest.head howns⟩

/-- Without handles inside containers, no dictionary hangs on a circle. -/
theorem Flat.not_onCircle (hflat : store.Flat) (hacyclic : store.Acyclic)
    (htables : ∀ table id, ¬ store.Owns (.table table) (.dictionary id))
    (hcircle : store.OnCircle owner) : ¬ ReflTransGen store.Owns owner (.dictionary id) := by
  intro hpath
  obtain ⟨other, rfl, -⟩ := hflat.path_of_owns htables hpath
  obtain ⟨next, hstep, hback⟩ := TransGen.head'_iff.1 hcircle
  obtain ⟨second, rfl, hrest⟩ := hflat.path_of_owns htables hback
  obtain ⟨first, hfirst, howns⟩ := hflat.owner_of_owns htables hstep
  obtain rfl := SharedObject.dictionary.inj hfirst
  exact hacyclic other (TransGen.head' howns hrest)

theorem flat_of_empty (hempty : ∀ id, store.dictionary id = .empty) : store.Flat := by
  intro id token hmem
  simp [hempty, Dictionary.empty, Dictionary.tokens] at hmem

theorem acyclic_of_empty (hempty : ∀ id, store.dictionary id = .empty) : store.Acyclic := by
  intro id hcircle
  obtain ⟨next, hstep, -⟩ := TransGen.head'_iff.1 hcircle
  exact hstep.owner_ne_empty (hempty id)

end Store

namespace DictionaryWrite

/-- However empty dictionaries are written, no path of entries leads from one back to
itself.  Once nobody outside holds a handle, a dictionary is still alive exactly if it
hangs on a circle of handles, which then goes through a container: if no handle was
written inside one, all dictionaries are released. -/
theorem isAlive_applyAll (writes : List DictionaryWrite) (store : Store)
    (hempty : ∀ id, store.dictionary id = .empty) (roots : List Token)
    (hroots : Token.ownedByAll roots = []) :
    (∀ id, ¬ TransGen (applyAll writes store).DirectlyOwns id id) ∧
      (∀ id : DictId, id.index < store.dictionaries.size →
        ((applyAll writes store).isAlive roots id = true ↔
          ∃ owner, TransGen (applyAll writes store).Owns owner owner ∧
            ReflTransGen (applyAll writes store).Owns owner (.dictionary id))) ∧
      ((∀ write ∈ writes, ∀ token ∈ write.tokens, token.Flat) →
        (∀ table id, ¬ store.Owns (.table table) (.dictionary id)) →
          ∀ id, (applyAll writes store).isAlive roots id = false) := by
  have hacyclic : (applyAll writes store).Acyclic :=
    Store.stable_acyclic.applyAll (fun _ _ _ _ => trivial) (Store.acyclic_of_empty hempty)
  obtain ⟨hsize, htables⟩ : (applyAll writes store).dictionaries.size = store.dictionaries.size ∧
      (applyAll writes store).tables = store.tables :=
    (Store.stable_shape _ _).applyAll (fun _ _ _ _ => trivial) ⟨rfl, rfl⟩
  have halive : ∀ id : DictId, id.index < store.dictionaries.size →
      ((applyAll writes store).isAlive roots id = true ↔
        ∃ owner, (applyAll writes store).OnCircle owner ∧
          ReflTransGen (applyAll writes store).Owns owner (.dictionary id)) := by
    intro id hlt
    rw [Store.isAlive_iff (hsize ▸ hlt), Store.Held, hroots]
    simp
  refine ⟨hacyclic, halive, fun hflat hfree id => ?_⟩
  have hlast : (applyAll writes store).Flat :=
    Store.stable_flat.applyAll hflat (Store.flat_of_empty hempty)
  have hfreeLast : ∀ table id, ¬ (applyAll writes store).Owns (.table table) (.dictionary id) := by
    simpa [Store.Owns, Store.contents, Store.table, htables] using hfree
  rw [Bool.eq_false_iff]
  intro hid
  obtain ⟨owner, hcircle, hpath⟩ := (halive id (hsize ▸ Store.lt_of_isAlive hid)).1 hid
  exact hlast.not_onCircle hacyclic hfreeLast hcircle hpath

/-- Two dictionaries that are entries of each other die with their last handles: the
second entry is an alias. -/
theorem isAlive_applyAll_mutual :
    (applyAll [.insert ⟨0⟩ "y" (.dictionary ⟨1⟩),
        .insert ⟨1⟩ "x" (.dictionary ⟨0⟩)]
      { dictionaries := #[.empty, .empty] }).isAlive [] ⟨0⟩ = false := by
  have hempty : ∀ id, ({ dictionaries := #[.empty, .empty] } : Store).dictionary id = .empty := by
    rintro ⟨_ | _ | index⟩ <;> rfl
  have hflat : ∀ write ∈ [DictionaryWrite.insert ⟨0⟩ "y" (.dictionary ⟨1⟩),
      .insert ⟨1⟩ "x" (.dictionary ⟨0⟩)], ∀ token ∈ write.tokens, token.Flat := by
    simp [tokens, Token.Flat, Token.dictionary, Token.ofValue, Token.owned, Value.owned,
      Token.ownedDictionary?]
  have hfree : ∀ table id, ¬ ({ dictionaries := #[.empty, .empty] } : Store).Owns
      (.table table) (.dictionary id) := by
    simp [Store.Owns, Store.contents, Store.table, OverloadTree.functions, Token.ownedByAll]
  exact (isAlive_applyAll _ _ hempty [] rfl).2.2 hflat hfree ⟨0⟩

/-- Circles through containers are not seen: a dictionary with an array that holds its
own handle is never released. -/
theorem isAlive_wrapped_handle :
    ¬ ∀ (writes : List DictionaryWrite) (store : Store),
      (∀ id, store.dictionary id = .empty) →
        ∀ id, (applyAll writes store).isAlive [] id = false := by
  intro hreleased
  have hempty : ∀ id, ({ dictionaries := #[.empty] } : Store).dictionary id = .empty := by
    rintro ⟨_ | index⟩ <;> rfl
  have hstays : (applyAll [.insert ⟨0⟩ "k" (.array [.dictionary ⟨0⟩])]
      { dictionaries := #[.empty] }).isAlive [] ⟨0⟩ = true := by
    decide
  exact Bool.noConfusion (hstays.symm.trans (hreleased _ _ hempty ⟨0⟩))

end DictionaryWrite

end StackLang
