/-!
Values known by names, in the order in which the names were first given.
-/

namespace Exemplar

abbrev Named (α : Type) := List (String × α)

namespace Named

variable {α : Type}

def get? (name : String) : Named α → Option α
  | [] => none
  | (key, value) :: rest => if key = name then some value else get? name rest

/-- Stores under a name: in place where the name is known, else at the end. -/
def set (name : String) (value : α) : Named α → Named α
  | [] => [(name, value)]
  | (key, old) :: rest =>
      if key = name then (key, value) :: rest else (key, old) :: set name value rest

/-- Stores what the second holds into the first. -/
def merge (base own : Named α) : Named α :=
  own.foldl (fun merged (name, value) => set name value merged) base

def names (entries : Named α) : List String := entries.map (·.1)

variable {entries : Named α} {name other : String} {value : α}

@[simp] theorem get?_set_self : get? name (set name value entries) = some value := by
  induction entries with
  | nil => simp [set, get?]
  | cons entry rest ih =>
      by_cases same : entry.1 = name <;> simp [set, get?, same, ih]

theorem get?_set_of_ne (different : other ≠ name) :
    get? other (set name value entries) = get? other entries := by
  induction entries with
  | nil => simp [set, get?, different.symm]
  | cons entry rest ih =>
      by_cases same : entry.1 = name
      · simp [set, get?, same, different.symm]
      · simp [set, get?, same, ih]

theorem names_set_of_mem (known : name ∈ names entries) :
    names (set name value entries) = names entries := by
  induction entries with
  | nil => simp [names] at known
  | cons entry rest ih =>
      by_cases same : entry.1 = name
      · simp [set, names, same]
      · have later : name ∈ names rest := by simpa [names, Ne.symm same] using known
        simpa [set, names, same] using ih later

theorem names_set_of_not_mem (unknown : name ∉ names entries) :
    names (set name value entries) = names entries ++ [name] := by
  induction entries with
  | nil => rfl
  | cons entry rest ih =>
      obtain ⟨first, later⟩ : name ≠ entry.1 ∧ name ∉ names rest := by
        simpa [names] using unknown
      simpa [set, names, first.symm] using ih later

theorem get?_eq_none_iff : get? name entries = none ↔ name ∉ names entries := by
  induction entries with
  | nil => simp [get?, names]
  | cons entry rest ih =>
      by_cases same : entry.1 = name
      · simp [get?, names, same]
      · simpa [get?, names, same, Ne.symm same] using ih

end Named

end Exemplar
