import StackLang.Proofs.Ownership.Circles
import StackLang.Proofs.Store.RoundTrip

/-!
# Looking for a way back

A write that looks for a path of entries back to its target need not collect all that can
be reached.  It can go down the entries one after the other, look at every dictionary only
once, whatever way led there, and stop at the first way back.  A dictionary that was seen
before is passed over although its entries may still be under way; the search is not wrong
about that, because a search that finds nothing leaves a set that no entry leads out of.

What a write stores therefore depends on nothing but the path, and as an alias takes the
place of a handle exactly where there is one, no sequence of writes closes a circle.
-/

namespace StackLang.Store

open Relation

variable {store : Store} {source target id : DictId} {pending seen last : List DictId}
  {answer : Bool} {name : Name} {token : Token}

/-- How the search goes through the handles that are pending: those seen before are passed
over, others are followed first, and nothing is looked at any more once the target is
found.  What was seen is handed on. -/
inductive Searches (store : Store) (target : DictId) :
    List DictId → List DictId → Bool → List DictId → Prop where
  | done {seen : List DictId} : Searches store target [] seen false seen
  | found {rest seen : List DictId} : Searches store target (target :: rest) seen true seen
  | passed {id : DictId} {rest seen last : List DictId} {answer : Bool} (hne : id ≠ target)
    (hseen : id ∈ seen) (hrest : Searches store target rest seen answer last) :
    Searches store target (id :: rest) seen answer last
  | deeper {id : DictId} {rest seen last : List DictId} (hne : id ≠ target) (hnew : id ∉ seen)
    (hinner : Searches store target (store.directlyOwned id) (seen ++ [id]) true last) :
    Searches store target (id :: rest) seen true last
  | onward {id : DictId} {rest seen mid last : List DictId} {answer : Bool} (hne : id ≠ target)
    (hnew : id ∉ seen)
    (hinner : Searches store target (store.directlyOwned id) (seen ++ [id]) false mid)
    (hrest : Searches store target rest mid answer last) :
    Searches store target (id :: rest) seen answer last

/-- What a search leaves that has found nothing: everything pending has been seen, the target
has not, and no entry of a dictionary that is new leads to one that has not been seen. -/
structure Exhausted (store : Store) (target : DictId) (pending seen last : List DictId) :
    Prop where
  pending : pending ⊆ last
  target : target ∉ seen → target ∉ last
  closed : ∀ owner ∈ last, owner ∈ seen ∨ ∀ id, store.DirectlyOwns owner id → id ∈ last

namespace Searches

theorem subset (hsearches : Searches store target pending seen answer last) : seen ⊆ last := by
  induction hsearches with
  | done => exact List.Subset.refl _
  | found => exact List.Subset.refl _
  | passed _ _ _ ih => exact ih
  | deeper _ _ _ ih => exact List.Subset.trans (List.subset_append_left _ _) ih
  | onward _ _ _ _ ihInner ihRest =>
    have hinner := List.Subset.trans (List.subset_append_left _ _) ihInner
    exact List.Subset.trans hinner ihRest

theorem sound (hsearches : Searches store target pending seen answer last)
    (hanswer : answer = true) : ∃ id ∈ pending, ReflTransGen store.DirectlyOwns id target := by
  induction hsearches with
  | done => cases hanswer
  | found => exact ⟨target, List.mem_cons_self, .refl⟩
  | passed _ _ _ ih =>
    exact (ih hanswer).imp fun _ hfound => hfound.imp_left (List.mem_cons_of_mem _)
  | @deeper owner _ _ _ _ _ _ ih =>
    obtain ⟨id, howns, hpath⟩ := ih hanswer
    exact ⟨owner, List.mem_cons_self, hpath.head howns⟩
  | onward _ _ _ _ _ ih =>
    exact (ih hanswer).imp fun _ hfound => hfound.imp_left (List.mem_cons_of_mem _)

theorem exhausted (hsearches : Searches store target pending seen answer last)
    (hanswer : answer = false) : store.Exhausted target pending seen last := by
  induction hsearches with
  | done => exact ⟨List.nil_subset _, id, fun _ hseen => .inl hseen⟩
  | found => cases hanswer
  | passed _ hseen hrest ih =>
    have hleft := ih hanswer
    exact ⟨List.cons_subset.2 ⟨hrest.subset hseen, hleft.pending⟩, hleft.target, hleft.closed⟩
  | deeper => cases hanswer
  | @onward id rest seen mid last _ hne hnew hinner hrest ihInner ihRest =>
    have hbelow := ihInner rfl
    have hleft := ihRest hanswer
    have hid : id ∈ mid := hinner.subset (by simp)
    refine ⟨List.cons_subset.2 ⟨hrest.subset hid, hleft.pending⟩, fun htarget => ?_,
      fun owner howner => ?_⟩
    · apply hleft.target
      apply hbelow.target
      simpa [htarget] using hne.symm
    -- the dictionary itself is the one that neither search calls new
    · obtain hmid | hclosed := hleft.closed owner howner
      · obtain hseen | hclosed := hbelow.closed owner hmid
        · obtain hold | hself := List.mem_append.1 hseen
          · exact .inl hold
          · obtain rfl := List.mem_singleton.1 hself
            exact .inr fun inner howns => hrest.subset (hbelow.pending howns)
        · exact .inr fun inner howns => hrest.subset (hclosed inner howns)
      · exact .inr hclosed

/-- The search finds a way exactly if there is one. -/
theorem iff_path (hsearches : Searches store target [source] [] answer last) :
    answer = true ↔ ReflTransGen store.DirectlyOwns source target := by
  constructor
  · intro hanswer
    obtain ⟨id, hid, hpath⟩ := hsearches.sound hanswer
    rwa [← List.mem_singleton.1 hid]
  · intro hpath
    by_contra hanswer
    have hleft := hsearches.exhausted (Bool.not_eq_true _ ▸ hanswer)
    have hclosed : store.Closed last := fun owner howner =>
      (hleft.closed owner howner).resolve_left List.not_mem_nil
    have hsource : source ∈ last := hleft.pending List.mem_cons_self
    exact hleft.target List.not_mem_nil (hclosed.mem_of_reflTransGen hsource hpath)

end Searches

/-! ## The search ends -/

theorem unseen_le_of_subset (hsubset : seen ⊆ last) : store.unseen last ≤ store.unseen seen := by
  apply Finset.card_le_card
  intro index hindex
  simp only [Finset.mem_filter] at hindex ⊢
  exact ⟨hindex.1, fun hseen => hindex.2 (hsubset hseen)⟩

theorem directlyOwned_eq_nil (hlarge : store.dictionaries.size ≤ id.index) :
    store.directlyOwned id = [] := by
  rw [directlyOwned, dictionary_eq_empty hlarge]
  rfl

/-- Every dictionary that is followed is seen from then on, and there are only so many. -/
theorem exists_searches {bound : Nat} (hbound : store.unseen seen < bound) :
    ∃ answer last, Searches store target pending seen answer last := by
  induction bound generalizing pending seen with
  | zero => exact absurd hbound (Nat.not_lt_zero _)
  | succ bound ih =>
    -- Only a dictionary that is followed takes one off the bound, one that is pending does not.
    induction pending generalizing seen with
    | nil => exact ⟨false, seen, .done⟩
    | cons id rest ihRest =>
      by_cases htarget : id = target
      · subst htarget
        exact ⟨true, seen, .found⟩
      by_cases hseen : id ∈ seen
      · obtain ⟨answer, last, hrest⟩ := ihRest hbound
        exact ⟨answer, last, .passed htarget hseen hrest⟩
      have hinner : ∃ answer last,
          Searches store target (store.directlyOwned id) (seen ++ [id]) answer last := by
        by_cases hlt : id.index < store.dictionaries.size
        · have hfewer := unseen_append_lt (List.mem_singleton_self id) hseen hlt
          exact ih (by omega)
        · rw [directlyOwned_eq_nil (Nat.le_of_not_lt hlt)]
          exact ⟨false, _, .done⟩
      obtain ⟨answer, mid, hinner⟩ := hinner
      cases answer with
      | true => exact ⟨true, mid, .deeper htarget hseen hinner⟩
      | false =>
        have hsubset : seen ⊆ mid :=
          List.Subset.trans (List.subset_append_left _ _) hinner.subset
        have hmid : store.unseen mid < bound + 1 :=
          Nat.lt_of_le_of_lt (unseen_le_of_subset hsubset) hbound
        obtain ⟨answer, last, hrest⟩ := ihRest hmid
        exact ⟨answer, last, .onward htarget hseen hinner hrest⟩

/-- What the search answers is what a write goes by. -/
theorem searches_reaches (store : Store) (source target : DictId) :
    ∃ last, Searches store target [source] [] (store.reaches source target) last := by
  obtain ⟨answer, last, hsearches⟩ := exists_searches (Nat.lt_succ_self (store.unseen []))
  have hanswer : answer = store.reaches source target :=
    Bool.eq_iff_iff.2 (hsearches.iff_path.trans reaches_iff.symm)
  exact ⟨last, hanswer ▸ hsearches⟩

/-! ## What a write stores -/

/-- The search ends and tells whether there is a way back.  A handle with a way back to the
dictionary that it is stored in becomes an alias, and every other token is stored as it is.
From empty dictionaries no sequence of writes makes a circle. -/
theorem insert_alias_path_back (hlt : target.index < store.dictionaries.size) :
    (∀ inner, ∃ last, Searches store target [inner] [] (store.reaches inner target) last) ∧
      (∀ inner, token.ownedDictionary? = some inner →
        ReflTransGen store.DirectlyOwns inner target →
          (store.insert target name token).slot? target name =
            some { token := token.mapValue fun _ => .dictionary (.aliased inner) }) ∧
      ((∀ inner, token.ownedDictionary? = some inner →
          ¬ ReflTransGen store.DirectlyOwns inner target) →
        (store.insert target name token).slot? target name = some { token }) ∧
      ∀ (writes : List DictionaryWrite) (base : Store), (∀ id, base.dictionary id = .empty) →
        ∀ id, ¬ TransGen (DictionaryWrite.applyAll writes base).DirectlyOwns id id := by
  refine ⟨fun inner => searches_reaches store inner target, fun inner howned hback => ?_,
    fun hfree => ?_, fun writes base hempty => ?_⟩
  · rw [slot?_insert_self hlt, accepted_of_reaches howned hback]
  · rw [slot?_insert_self hlt]
    cases howned : token.ownedDictionary? with
    | none => rw [accepted_of_no_handle howned]
    | some inner => rw [accepted_of_not_reaches howned (hfree inner howned)]
  · exact stable_acyclic.applyAll (fun _ _ _ _ => trivial) (acyclic_of_empty hempty)

/-- Two dictionaries share a third one, which has an entry for the first.  Stored there, a
handle of the second becomes an alias. -/
theorem insert_alias_path_back_shared :
    let shared : Dictionary := Dictionary.empty.insert "up" (.dictionary ⟨0⟩)
    let second : Dictionary := Dictionary.empty.insert "shared" (.dictionary ⟨2⟩)
    let store : Store := { dictionaries := #[.empty, second, shared] }
    (store.insert ⟨0⟩ "down" (.dictionary ⟨1⟩)).slot? ⟨0⟩ "down" =
      some { token := .ofValue (.dictionary (.aliased ⟨1⟩)) } := by
  intro shared second store
  have hlt : (⟨0⟩ : DictId).index < store.dictionaries.size := by decide
  have hback : ReflTransGen store.DirectlyOwns ⟨1⟩ ⟨0⟩ := reaches_iff.1 (by decide)
  exact (insert_alias_path_back hlt).2.1 ⟨1⟩ rfl hback

end StackLang.Store
