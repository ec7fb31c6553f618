import Mathlib.Data.List.Induction
import Exemplar.Proofs.Documents

/-!
The index of compiled fields. It is written when the fields are compiled, and after that a field is
only put in the place of one of its own name, so that the index goes on saying where each field
stands.
-/

namespace Exemplar

namespace Named

variable {α : Type} {base own entries : Named α} {name : String} {value : α}

theorem set_of_not_mem (unknown : name ∉ names entries) :
    set name value entries = entries ++ [(name, value)] := by
  induction entries with
  | nil => rfl
  | cons entry rest ih =>
      obtain ⟨first, later⟩ : name ≠ entry.1 ∧ name ∉ names rest := by simpa [names] using unknown
      simp [set, first.symm, ih later]

theorem merge_append : merge base (own ++ [(name, value)]) = set name value (merge base own) := by
  simp [merge]

theorem merge_nil (distinct : (names own).Nodup) : merge [] own = own := by
  induction own using List.reverseRecOn with
  | nil => rfl
  | append_singleton rest entry ih =>
      obtain ⟨key, value⟩ := entry
      rw [names, List.map_append, List.nodup_append] at distinct
      obtain ⟨earlier, _, apart⟩ := distinct
      have fresh : key ∉ names rest := fun again => apart key again key (by simp) rfl
      rw [merge_append, ih earlier, set_of_not_mem fresh]

theorem nodup_set (distinct : (names entries).Nodup) : (names (set name value entries)).Nodup := by
  by_cases known : name ∈ names entries
  · rw [names_set_of_mem known]
    exact distinct
  · rw [names_set_of_not_mem known, List.nodup_append]
    refine ⟨distinct, by simp, ?_⟩
    intro other member fresh single same
    rw [List.mem_singleton] at single
    exact known (single ▸ same ▸ member)

theorem nodup_merge (distinct : (names base).Nodup) : (names (merge base own)).Nodup := by
  unfold merge
  induction own generalizing base with
  | nil => exact distinct
  | cons entry rest ih => exact ih (nodup_set distinct)

end Named

namespace Compiled

/-- No two fields have one name, and the index has the place of each. -/
structure Indexed (compiled : Compiled) : Prop where
  distinct : (compiled.fields.map (·.name)).Nodup
  index : compiled.index = places compiled.fields

variable {fields others : List Field} {compiled : Compiled} {field old : Field} {name : String}
  {place : Nat}

theorem names_zipIdx :
    Named.names (fields.zipIdx.map fun (field, place) => (field.name, place)) =
      fields.map (·.name) := by
  have firsts : fields.zipIdx.map Prod.fst = fields := List.zipIdx_map_fst 0 fields
  rw [Named.names, List.map_map]
  conv_rhs => rw [← firsts, List.map_map]
  rfl

theorem places_eq (distinct : (fields.map (·.name)).Nodup) :
    places fields = fields.zipIdx.map fun (field, place) => (field.name, place) :=
  Named.merge_nil (names_zipIdx ▸ distinct)

/-- The places depend on nothing but the names. -/
theorem places_congr (same : fields.map (·.name) = others.map (·.name)) :
    places fields = places others := by
  have listed (fields : List Field) :
      (fields.zipIdx.map fun (field, place) => (field.name, place)) =
        (fields.map (·.name)).zipIdx := by
    rw [List.zipIdx_map]
    rfl
  rw [places, places, listed, listed, same]

@[simp] theorem catalogue_replace : (compiled.replace field).catalogue = compiled.catalogue := by
  unfold replace
  split <;> rfl

@[simp] theorem sample_replace : (compiled.replace field).sample = compiled.sample := by
  unfold replace
  split <;> rfl

@[simp] theorem index_replace : (compiled.replace field).index = compiled.index := by
  unfold replace
  split <;> rfl

namespace Indexed

theorem names_index (indexed : compiled.Indexed) :
    Named.names compiled.index = compiled.fields.map (·.name) := by
  rw [indexed.index, places_eq indexed.distinct, names_zipIdx]

theorem place?_eq_some_iff (indexed : compiled.Indexed) :
    compiled.place? name = some place ↔
      ∃ field, compiled.fields[place]? = some field ∧ field.name = name := by
  rw [place?, indexed.index, places_eq indexed.distinct]
  constructor
  · intro found
    obtain ⟨⟨field, position⟩, member, same⟩ := List.mem_map.mp (Named.mem_of_get? found)
    cases same
    exact ⟨field, List.mem_zipIdx_iff_getElem?.mp member, rfl⟩
  · rintro ⟨field, stands, rfl⟩
    have member : (field.name, place) ∈
        compiled.fields.zipIdx.map fun (field, place) => (field.name, place) :=
      List.mem_map.mpr ⟨(field, place), List.mem_zipIdx_iff_getElem?.mpr stands, rfl⟩
    exact Named.get?_of_mem (names_zipIdx ▸ indexed.distinct) member

/-- What is found under a name is the field of that name. -/
theorem field_eq_ok_iff (indexed : compiled.Indexed) :
    compiled.field name = .ok field ↔ field ∈ compiled.fields ∧ field.name = name := by
  constructor
  · intro found
    unfold Compiled.field at found
    split at found
    next => cases found
    next place known =>
      obtain ⟨there, stands, named⟩ := indexed.place?_eq_some_iff.mp known
      rw [stands] at found
      cases found
      exact ⟨List.mem_of_getElem? stands, named⟩
  · rintro ⟨member, named⟩
    obtain ⟨place, stands⟩ := List.mem_iff_getElem?.mp member
    have known := indexed.place?_eq_some_iff.mpr ⟨field, stands, named⟩
    simp only [Compiled.field, known, stands]

/-- A field is put in the place of the one of its name, and of no other. -/
theorem fields_replace (indexed : compiled.Indexed) :
    (compiled.replace field).fields =
      compiled.fields.map fun old => if old.name = field.name then field else old := by
  unfold replace
  split
  next place known =>
    obtain ⟨there, stands, named⟩ := indexed.place?_eq_some_iff.mp known
    refine List.ext_getElem? fun position => ?_
    rw [List.getElem?_map]
    by_cases here : place = position
    · subst here
      have inside : place < compiled.fields.length := (List.getElem?_eq_some_iff.mp stands).1
      rw [List.getElem?_set_self inside, stands, Option.map_some, if_pos named]
    · rw [List.getElem?_set_ne here]
      cases other : compiled.fields[position]? with
      | none => rfl
      | some next =>
          have apart : next.name ≠ field.name := fun same => here <| by
            have also := indexed.place?_eq_some_iff.mpr ⟨next, other, same⟩
            exact Option.some.inj (known.symm.trans also)
          simp [apart]
  next unknown =>
    have apart : ∀ old ∈ compiled.fields, old.name ≠ field.name := fun old member same => by
      obtain ⟨place, stands⟩ := List.mem_iff_getElem?.mp member
      have known := indexed.place?_eq_some_iff.mpr ⟨old, stands, same⟩
      cases unknown.symm.trans known
    have kept : (compiled.fields.map fun old => if old.name = field.name then field else old) =
        compiled.fields.map id := List.map_congr_left fun old member => if_neg (apart old member)
    rw [kept, List.map_id]

theorem names_replace (indexed : compiled.Indexed) :
    (compiled.replace field).fields.map (·.name) = compiled.fields.map (·.name) := by
  rw [indexed.fields_replace, List.map_map]
  refine List.map_congr_left fun old _ => ?_
  by_cases same : old.name = field.name <;> simp [same]

theorem replace (indexed : compiled.Indexed) : (compiled.replace field).Indexed := by
  refine ⟨indexed.names_replace ▸ indexed.distinct, ?_⟩
  rw [index_replace, indexed.index]
  exact (places_congr indexed.names_replace).symm

end Indexed

end Compiled

end Exemplar
