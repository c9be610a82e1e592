import StackLang.Proofs.Overload.Registering

/-!
# The list of registered names

The names of a sequence of registrations are listed in order, and a name that is registered
again right behind itself is listed once.  The system dictionary keeps the first place of a
name wherever else it is registered.  So the list has every name of the dictionary, in the
order of the dictionary, but it is the list of the dictionary's names only as long as no name
comes again behind another one.
-/

namespace StackLang

namespace Registration

variable {names rest : List Name} {first name : Name}

/-- A name that comes again comes again at once. -/
def InOneGo (names : List Name) : Prop :=
  ∀ before name after, names = before ++ name :: after → name ∈ after → after.head? = some name

theorem inOneGo_cons (first : Name) (rest : List Name) :
    InOneGo (first :: rest) ↔ (first ∈ rest → rest.head? = some first) ∧ InOneGo rest := by
  constructor
  · intro honce
    exact ⟨honce [] first rest rfl, fun before name after heq =>
      honce (first :: before) name after (by rw [heq, List.cons_append])⟩
  · rintro ⟨hfirst, hrest⟩ before name after heq
    obtain ⟨rfl, hcons⟩ | ⟨tail, rfl, htail⟩ := List.cons_eq_append_iff.1 heq
    · obtain ⟨rfl, rfl⟩ := List.cons.inj hcons
      exact hfirst
    · exact hrest tail name after htail

@[simp]
theorem mem_dropRepeats : name ∈ dropRepeats names ↔ name ∈ names := by
  induction names using dropRepeats.induct with
  | case1 second rest ih => simp [dropRepeats, ih]
  | case2 first second rest hne ih => simp [dropRepeats, hne, ih]
  | case3 names hshort => rw [dropRepeats]; exact hshort

theorem eraseDups_filter (keep : Name → Bool) (names : List Name) :
    (names.filter keep).eraseDups = names.eraseDups.filter keep := by
  induction names using List.reverseRecOn with
  | nil => rfl
  | append_singleton names name ih =>
    rw [List.filter_append, eraseDups_concat]
    by_cases hkeep : keep name <;> by_cases hmem : name ∈ names <;>
      simp [hkeep, hmem, ih, eraseDups_concat]

theorem nodup_eraseDups (names : List Name) : names.eraseDups.Nodup := by
  induction names using List.reverseRecOn with
  | nil => exact List.nodup_nil
  | append_singleton names name ih =>
    rw [eraseDups_concat]
    split
    · exact ih
    · rename_i hnew
      simpa [List.nodup_append] using ⟨ih, fun other hmem heq => hnew (heq ▸ hmem)⟩

theorem eraseDups_of_nodup {names : List Name} (hnodup : names.Nodup) :
    names.eraseDups = names := by
  induction names using List.reverseRecOn with
  | nil => rfl
  | append_singleton names name ih =>
    obtain ⟨hnames, -, hapart⟩ := List.nodup_append.1 hnodup
    have hnew : name ∉ names := fun hmem => hapart name hmem name (by simp) rfl
    rw [eraseDups_concat, if_neg hnew, ih hnames]

/-- Repetitions apart, the same names come in the same order. -/
theorem eraseDups_dropRepeats (names : List Name) :
    (dropRepeats names).eraseDups = names.eraseDups := by
  induction names using dropRepeats.induct with
  | case1 second rest ih =>
    rw [dropRepeats, if_pos rfl, ih]
    simp [List.eraseDups_cons]
  | case2 first second rest hne ih =>
    rw [dropRepeats, if_neg hne, List.eraseDups_cons, List.eraseDups_cons, eraseDups_filter,
      eraseDups_filter, ih]
  | case3 names hshort => rw [dropRepeats.eq_2 names hshort]

/-- No name is left twice just if each came in one go. -/
theorem nodup_dropRepeats_iff (names : List Name) : (dropRepeats names).Nodup ↔ InOneGo names := by
  induction names using dropRepeats.induct with
  | case1 second rest ih =>
    rw [dropRepeats, if_pos rfl, ih, inOneGo_cons second (second :: rest)]
    exact ⟨fun h => ⟨fun _ => rfl, h⟩, And.right⟩
  | case2 first second rest hne ih =>
    rw [dropRepeats, if_neg hne, List.nodup_cons, ih, mem_dropRepeats, inOneGo_cons first]
    refine and_congr_left fun _ => ⟨fun hnew hmem => absurd hmem hnew, fun honce hmem => ?_⟩
    exact hne (Option.some.inj (honce hmem)).symm
  | case3 names hshort =>
    rw [dropRepeats.eq_2 names hshort]
    match names, hshort with
    | [], _ => simp [InOneGo]
    | [only], _ =>
      rw [inOneGo_cons]
      simp [InOneGo]
    | first :: second :: rest, hshort => exact absurd rfl (hshort first second rest)

end Registration

namespace Machine

open Registration

/-- Registrations, carried out on a machine without operators, put the registered names into
the system dictionary in the order in which each is registered first, unless the pools have
no room for the operators.  The list of registered names has the same names in the same order
if only the first place of each counts; without repetitions, and so the same list, it is
exactly if a name that is registered again is registered again at once. -/
theorem names_of_registrations {machine : Machine} (hunequipped : machine.Unequipped)
    {registrations : List Registration}
    (hsigned : ∀ registration ∈ registrations, registration.Signed) :
    Affords
      (fun _ last => (last.store.dictionary last.scopes.system).names = firstNames registrations ∧
        (Registration.names registrations).eraseDups =
          (last.store.dictionary last.scopes.system).names ∧
        (Registration.names registrations = (last.store.dictionary last.scopes.system).names ↔
          InOneGo (registrations.map Registration.name)))
      (registrations.forM install) machine := by
  have hfirst : (Registration.names registrations).eraseDups = firstNames registrations :=
    eraseDups_dropRepeats _
  have hsame : Registration.names registrations = firstNames registrations ↔
      InOneGo (registrations.map Registration.name) := by
    rw [← nodup_dropRepeats_iff]
    refine ⟨fun heq => ?_, fun hnodup => ?_⟩
    · change (Registration.names registrations).Nodup
      rw [heq]
      exact nodup_eraseDups _
    · rw [← hfirst]
      exact (eraseDups_of_nodup hnodup).symm
  refine (hunequipped.installAll hsigned).mono fun _ last hequipped => ?_
  have hnames : (last.store.dictionary last.scopes.system).names = firstNames registrations :=
    hequipped.names
  exact ⟨hnames, hnames ▸ hfirst, hnames ▸ hsame⟩

/-- Overloads of two names, each in one go, and a plain operator. -/
theorem names_of_registrations_in_one_go :
    let registrations : List Registration :=
      [.typed "f" [.any] .pop, .typed "f" [.exactly .integer] .dup, .plain "g" .exit,
        .typed "h" [.any] .exec]
    (bare {}).Unequipped ∧ (∀ registration ∈ registrations, registration.Signed) ∧
      ∃ last, registrations.forM install (bare {}) = .ok () last ∧
        (last.store.dictionary last.scopes.system).names = ["f", "g", "h"] ∧
        Registration.names registrations = ["f", "g", "h"] := by
  intro registrations
  have hsigned : ∀ registration ∈ registrations, registration.Signed := by decide
  have hrun := names_of_registrations (unequipped_bare {}) hsigned
  refine ⟨unequipped_bare {}, hsigned, ?_⟩
  obtain ⟨_, last, hlast, -, hnames, -, -⟩ | ⟨hlimited, -⟩ := hrun
  · exact ⟨last, hlast, hnames.trans (by decide), by decide⟩
  · exact absurd rfl hlimited

/-- A name that comes again behind another one is listed twice, and is in the dictionary
once. -/
theorem names_lists_twice :
    let registrations : List Registration := [.plain "a" .pop, .plain "b" .pop, .plain "a" .pop]
    Registration.names registrations = ["a", "b", "a"] ∧
      ∃ last, registrations.forM install (bare {}) = .ok () last ∧
        (last.store.dictionary last.scopes.system).names = ["a", "b"] := by
  intro registrations
  have hsigned : ∀ registration ∈ registrations, registration.Signed := by decide
  refine ⟨by decide, ?_⟩
  obtain ⟨_, last, hrun, -, hequipped⟩ | ⟨hlimited, -⟩ :=
    (unequipped_bare {}).installAll hsigned
  · exact ⟨last, hrun, hequipped.names.trans (by decide)⟩
  · exact absurd rfl hlimited

end Machine

end StackLang
