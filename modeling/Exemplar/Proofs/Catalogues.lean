import Mathlib.Data.List.Sort
import Exemplar.Proofs.Sessions
import Exemplar.Proofs.Texts

/-!
Catalogues in order. However types have been registered, they stand in strictly descending order of
priority: so the order of registration leaves no mark on a catalogue, a copy of it is the same
again, and the first type that takes a sample is the one of the greatest priority that does.
-/

namespace Exemplar

namespace Catalogue

variable {catalogue next other : Catalogue} {type : ValueType} {types others : List ValueType}
  {before after : Trace} {fault : Fault}

def Descending (catalogue : Catalogue) : Prop :=
  catalogue.Pairwise fun higher lower => lower.priority < higher.priority

/-- No two types of the same priority. -/
def Apart (types : List ValueType) : Prop :=
  types.Pairwise fun one other => one.priority ≠ other.priority

theorem Descending.apart (descending : catalogue.Descending) : Apart catalogue :=
  descending.imp fun lower => (Int.ne_of_lt lower).symm

theorem Apart.perm (apart : Apart types) (same : types.Perm others) : Apart others :=
  List.Pairwise.perm apart same Ne.symm

/-- A catalogue is known by what is in it. -/
theorem Descending.eq_of_perm (one : catalogue.Descending) (another : other.Descending)
    (same : catalogue.Perm other) : catalogue = other := by
  refine List.Perm.eq_of_pairwise (fun higher lower _ _ above below => ?_) one another same
  exact absurd above (Int.lt_asymm below)

theorem insert_perm (type : ValueType) (catalogue : Catalogue) :
    (catalogue.insert type).Perm (type :: catalogue) := by
  induction catalogue with
  | nil => exact List.Perm.refl _
  | cons existing rest ih =>
      simp only [insert]
      split
      next => exact (ih.cons existing).trans (List.Perm.swap type existing rest)
      next => exact List.Perm.refl _

/-- A type of a priority of its own is put where it belongs: the search for its place stops at the
first type of lower priority, and from there on all are lower. -/
theorem Descending.insert (descending : catalogue.Descending)
    (free : ∀ existing ∈ catalogue, existing.priority ≠ type.priority) :
    (catalogue.insert type).Descending := by
  induction catalogue with
  | nil => exact List.pairwise_singleton _ _
  | cons existing rest ih =>
      obtain ⟨above, ordered⟩ := List.pairwise_cons.mp descending
      have differs : existing.priority ≠ type.priority := free existing (by simp)
      simp only [Catalogue.insert]
      split
      next lower =>
        have inserted := ih ordered fun later member =>
          free later (List.mem_cons_of_mem existing member)
        refine List.pairwise_cons.mpr ⟨fun later member => ?_, inserted⟩
        rcases List.mem_cons.mp ((insert_perm type rest).mem_iff.mp member) with rfl | old
        · exact lower
        · exact above later old
      next reached =>
        have higher : existing.priority < type.priority := by omega
        refine List.pairwise_cons.mpr ⟨fun later member => ?_, descending⟩
        rcases List.mem_cons.mp member with rfl | old
        · exact higher
        · exact Int.lt_trans (above later old) higher

section Adding

theorem withPriority?_eq_none_iff {priority : Int} :
    catalogue.withPriority? priority = none ↔
      ∀ existing ∈ catalogue, existing.priority ≠ priority := by
  simp [withPriority?]

/-- What a registration writes to the log. -/
def registered (type : ValueType) : Event :=
  .logged .debug s!"Registered type '{type.name}' with priority {type.priority}"

theorem add_yields : (catalogue.add type).Yields before next after ↔
    (∀ existing ∈ catalogue, existing.priority ≠ type.priority) ∧ next = catalogue.insert type ∧
      after = before ++ [registered type] := by
  unfold add
  cases found : catalogue.withPriority? type.priority with
  | some existing =>
      have clash : ¬ ∀ existing ∈ catalogue, existing.priority ≠ type.priority := fun free => by
        cases found.symm.trans (withPriority?_eq_none_iff.mpr free)
      simp [clash]
  | none =>
      have free := withPriority?_eq_none_iff.mp found
      simp only [Run.debug, Run.yields_bind, Run.yields_record, Run.yields_pure]
      constructor
      · rintro ⟨_, _, rfl, rfl, rfl⟩
        exact ⟨free, rfl, rfl⟩
      · rintro ⟨_, rfl, rfl⟩
        exact ⟨(), _, rfl, rfl, rfl⟩

/-- A registration is refused where the priority is taken, before anything is logged. -/
theorem add_breaks : (catalogue.add type).Breaks before fault after ↔
    ∃ existing, catalogue.withPriority? type.priority = some existing ∧
      fault = .samePriority type.name type.priority existing.name ∧ after = before := by
  unfold add
  cases catalogue.withPriority? type.priority with
  | some existing => simp
  | none => simp only [Run.debug, Run.breaks_bind, Run.breaks_record, Run.breaks_pure, and_false,
      exists_false, or_false, reduceCtorEq, false_and]

theorem addAll_yields (distinct : Apart (types ++ catalogue)) (descending : catalogue.Descending)
    (before : Trace) : ∃ next after, (catalogue.addAll types).Yields before next after ∧
      next.Descending ∧ next.Perm (types ++ catalogue) := by
  induction types generalizing catalogue before with
  | nil => exact ⟨catalogue, before, Run.yields_pure.mpr ⟨rfl, rfl⟩, descending, List.Perm.refl _⟩
  | cons type rest ih =>
      obtain ⟨apart, _⟩ := List.pairwise_cons.mp distinct
      have free : ∀ existing ∈ catalogue, existing.priority ≠ type.priority :=
        fun existing member => (apart existing (List.mem_append_right rest member)).symm
      -- The rest is added to what has the type in its place already.
      have moved : (type :: (rest ++ catalogue)).Perm (rest ++ catalogue.insert type) :=
        List.perm_middle.symm.trans ((insert_perm type catalogue).symm.append_left rest)
      obtain ⟨next, after, added, ordered, same⟩ :=
        ih (distinct.perm moved) (descending.insert free) (before ++ [registered type])
      refine ⟨next, after, ?_, ordered, same.trans moved.symm⟩
      exact Run.yields_bind.mpr ⟨_, _, add_yields.mpr ⟨free, rfl, rfl⟩, added⟩

theorem Descending.addAll (descending : catalogue.Descending)
    (added : (catalogue.addAll types).Yields before next after) : next.Descending := by
  induction types generalizing catalogue before with
  | nil =>
      obtain ⟨rfl, _⟩ := Run.yields_pure.mp added
      exact descending
  | cons type rest ih =>
      obtain ⟨grown, _, first, others⟩ := Run.yields_bind.mp added
      obtain ⟨free, rfl, _⟩ := add_yields.mp first
      exact ih (descending.insert free) others

/-- Types of different priorities come to one catalogue, whatever the order in which they are
registered. -/
theorem ofList_yields (distinct : Apart types) (before : Trace) :
    ∃ catalogue after, (ofList types).Yields before catalogue after ∧ catalogue.Descending ∧
      catalogue.Perm types := by
  have alone : Apart (types ++ ([] : Catalogue)) := by simpa using distinct
  obtain ⟨catalogue, after, added, descending, same⟩ :=
    addAll_yields alone List.Pairwise.nil before
  exact ⟨catalogue, after, added, descending, by simpa using same⟩

theorem descending_of_ofList (listed : (ofList types).Yields before catalogue after) :
    catalogue.Descending :=
  Descending.addAll List.Pairwise.nil listed

theorem Descending.copy (descending : catalogue.Descending) (before : Trace) :
    ∃ after, catalogue.copy.Yields before catalogue after := by
  obtain ⟨again, after, copied, ordered, same⟩ := ofList_yields descending.apart before
  cases ordered.eq_of_perm descending same
  exact ⟨after, copied⟩

theorem descending_builtIn : Descending builtIn := by
  unfold Descending
  decide

end Adding

section Resolving

variable {heap : Heap} {sample : Value} {accepts : ValueType → Bool}

/-- Whether a registered type applies to the sample: each of them answers, and always the same. -/
def Decides (catalogue : Catalogue) (heap : Heap) (sample : Value) (accepts : ValueType → Bool) :
    Prop :=
  ∀ type ∈ catalogue, ∀ before, ∃ after, (type.suits heap sample).Yields before (accepts type) after

/-- The one of the greatest priority of the types that apply. -/
def Foremost (catalogue : Catalogue) (accepts : ValueType → Bool) (type : ValueType) : Prop :=
  type ∈ catalogue ∧ accepts type = true ∧
    ∀ other ∈ catalogue, accepts other = true → other.priority ≤ type.priority

/-- What is raised for a sample that no type applies to: its text is told, and where it has none, what
keeps it from being written. -/
def unresolved (heap : Heap) (sample : Value) : Fault :=
  match heap.literal sample with
  | .ok literal => .noType literal
  | .error fault => fault

theorem find_yields (decides : catalogue.Decides heap sample accepts) (before : Trace) :
    ∃ after, (find? heap sample catalogue).Yields before (List.find? accepts catalogue) after := by
  induction catalogue generalizing before with
  | nil => exact ⟨before, rfl⟩
  | cons type rest ih =>
      obtain ⟨middle, asked⟩ := decides type (by simp) before
      cases answer : accepts type with
      | true =>
          rw [answer] at asked
          exact ⟨middle, Run.yields_bind.mpr ⟨_, _, asked, by simp [answer]⟩⟩
      | false =>
          rw [answer] at asked
          obtain ⟨after, found⟩ :=
            ih (fun later member => decides later (List.mem_cons_of_mem type member)) middle
          exact ⟨after, Run.yields_bind.mpr ⟨_, _, asked, by simpa [answer] using found⟩⟩

/-- The first type that applies, in descending order, is the foremost one. -/
theorem Descending.find_iff (descending : catalogue.Descending) :
    List.find? accepts catalogue = some type ↔ catalogue.Foremost accepts type := by
  constructor
  · intro found
    obtain ⟨applies, above, below, split, refused⟩ := List.find?_eq_some_iff_append.mp found
    subst split
    have ordered := (List.pairwise_append.mp descending).2.1
    refine ⟨by simp, applies, fun other member taken => ?_⟩
    rcases List.mem_append.mp member with earlier | later
    · exact absurd (refused other earlier) (by simp [taken])
    · rcases List.mem_cons.mp later with rfl | lower
      · exact Int.le_refl _
      · exact Int.le_of_lt ((List.pairwise_cons.mp ordered).1 other lower)
  · intro foremost
    obtain ⟨member, applies, highest⟩ := foremost
    obtain ⟨first, found⟩ : ∃ first, List.find? accepts catalogue = some first :=
      Option.isSome_iff_exists.mp (List.find?_isSome.mpr ⟨type, member, applies⟩)
    obtain ⟨taken, above, below, split, refused⟩ := List.find?_eq_some_iff_append.mp found
    subst split
    have ordered := (List.pairwise_append.mp descending).2.1
    rcases List.mem_append.mp member with earlier | later
    · exact absurd (refused type earlier) (by simp [applies])
    · rcases List.mem_cons.mp later with rfl | lower
      · exact found
      · have beneath : type.priority < first.priority :=
          (List.pairwise_cons.mp ordered).1 type lower
        have above : first.priority ≤ type.priority := highest first (by simp) taken
        omega

/-- A sample comes to the foremost type that applies to it, or to a fault where none does. -/
theorem resolve_ends (decides : catalogue.Decides heap sample accepts) (before : Trace) :
    (∃ type after, List.find? accepts catalogue = some type ∧
      (catalogue.resolve heap sample).Yields before type after) ∨
    ∃ after, List.find? accepts catalogue = none ∧
      (catalogue.resolve heap sample).Breaks before (unresolved heap sample) after := by
  obtain ⟨after, searched⟩ := find_yields decides before
  cases found : List.find? accepts catalogue with
  | some type =>
      rw [found] at searched
      exact .inl ⟨type, after, rfl, searched.bind.trans rfl⟩
  | none =>
      rw [found] at searched
      refine .inr ⟨after, rfl, searched.bind.trans ?_⟩
      cases written : heap.literal sample with
      | ok literal =>
          have told : unresolved heap sample = .noType literal := by simp [unresolved, written]
          rw [told]
          rfl
      | error fault =>
          have told : unresolved heap sample = fault := by simp [unresolved, written]
          rw [told]
          rfl

theorem Descending.resolve_yields_iff (descending : catalogue.Descending)
    (decides : catalogue.Decides heap sample accepts) :
    (∃ after, (catalogue.resolve heap sample).Yields before type after) ↔
      catalogue.Foremost accepts type := by
  constructor
  · rintro ⟨after, ran⟩
    rcases resolve_ends decides before with ⟨found, last, first, yielded⟩ | ⟨last, _, broke⟩
    · obtain ⟨rfl, _⟩ := ran.unique yielded
      exact descending.find_iff.mp first
    · exact absurd broke ran.not_breaks
  · intro foremost
    have first := descending.find_iff.mpr foremost
    rcases resolve_ends decides before with ⟨found, last, other, yielded⟩ | ⟨last, none, _⟩
    · cases first.symm.trans other
      exact ⟨last, yielded⟩
    · cases first.symm.trans none

theorem resolve_breaks_iff (decides : catalogue.Decides heap sample accepts) :
    (∃ after, (catalogue.resolve heap sample).Breaks before fault after) ↔
      (∀ type ∈ catalogue, accepts type = false) ∧ fault = unresolved heap sample := by
  have refused :
      List.find? accepts catalogue = none ↔ ∀ type ∈ catalogue, accepts type = false := by
    simp
  rw [← refused]
  rcases resolve_ends decides before with ⟨type, last, found, yielded⟩ | ⟨last, none, broke⟩
  · simp only [found, reduceCtorEq, false_and, iff_false]
    rintro ⟨after, broke⟩
    exact yielded.not_breaks broke
  · simp only [none, true_and]
    constructor
    · rintro ⟨after, ran⟩
      exact (ran.unique broke).1
    · rintro rfl
      exact ⟨last, broke⟩

end Resolving

end Catalogue

namespace World

variable {world other : World} {made : Catalogue} {number id : CatalogueId}

/-- Every catalogue of the world is in order. -/
def Ordered (world : World) : Prop := ∀ id, (world.catalogue id).Descending

theorem Ordered.congr (ordered : world.Ordered) (same : other.catalogues = world.catalogues) :
    other.Ordered := by
  intro id
  have kept : other.catalogue id = world.catalogue id := by simp only [World.catalogue, same]
  exact kept ▸ ordered id

theorem catalogue_push :
    ({ world with catalogues := world.catalogues.push made } : World).catalogue id =
      if id = world.catalogues.size then made else world.catalogue id := by
  simp only [World.catalogue, Array.getElem?_push]
  split <;> rfl

theorem catalogue_set :
    ({ world with catalogues := world.catalogues.setIfInBounds number made } : World).catalogue id =
      if number = id ∧ id < world.catalogues.size then made else world.catalogue id := by
  simp only [World.catalogue, Array.getElem?_setIfInBounds]
  by_cases same : number = id
  · subst same
    by_cases inside : number < world.catalogues.size
    · simp [inside]
    · simp [inside]
  · simp [same]

theorem Ordered.push (ordered : world.Ordered) (descending : made.Descending) :
    ({ world with catalogues := world.catalogues.push made } : World).Ordered := by
  intro id
  rw [catalogue_push]
  split
  · exact descending
  · exact ordered id

theorem Ordered.set (ordered : world.Ordered) (descending : made.Descending) :
    ({ world with
      catalogues := world.catalogues.setIfInBounds number made } : World).Ordered := by
  intro id
  rw [catalogue_set]
  split
  · exact descending
  · exact ordered id

end World

namespace Session

open Act Catalogue

variable {before after : Session} {id : ConfigurationId} {type : ValueType}

/-- Catalogues are made from lists of types, those of the application or those of a catalogue that is
copied. -/
def Change.Listed : Change → Prop
  | .newCatalogue build => ∃ types, build = Catalogue.ofList types
  | _ => True

theorem ordered_of_register (ordered : before.world.Ordered) {result : Except Fault Unit}
    (ended : (register id type).Ends before result after) : after.world.Ordered := by
  rcases register_ends ended with ⟨types, trace, _, added, rfl⟩ | ⟨_, _, _, _, rfl⟩
  · obtain ⟨free, rfl, _⟩ := add_yields.mp added
    exact ordered.set ((ordered _).insert free)
  · exact ordered

theorem ordered_of_newCatalogue (ordered : before.world.Ordered) {types : List ValueType}
    {result : Except Fault CatalogueId}
    (ended : (newCatalogue (ofList types)).Ends before result after) : after.world.Ordered := by
  rcases newCatalogue_ends ended with ⟨made, trace, _, listed, rfl⟩ | ⟨_, _, _, _, rfl⟩
  · exact ordered.push (descending_of_ofList listed)
  · exact ordered

theorem ordered_of_derive (ordered : before.world.Ordered) {changes : Changes}
    {result : Except Fault ConfigurationId}
    (ended : (derive id changes).Ends before result after) : after.world.Ordered := by
  replace ended := ends_bind_current.mp ended
  rcases ends_bind.mp ended with ⟨_, _, copied, made⟩ | ⟨_, broke, _⟩
  · have kept {config} : (newConfiguration config).Leaves World.catalogues :=
      newConfiguration_leaves fun _ _ => rfl
    exact (ordered_of_newCatalogue ordered copied).congr (kept _ _ _ made)
  · exact ordered_of_newCatalogue ordered broke

/-- Whatever is done, all catalogues stay in order. -/
theorem ordered_of_change (ordered : before.world.Ordered) {change : Change}
    (listed : change.Listed) {result : Except Fault Unit}
    (ended : change.act.Ends before result after) : after.world.Ordered := by
  have kept (leaves : change.act.Leaves World.catalogues) : after.world.Ordered :=
    ordered.congr (leaves _ _ _ ended)
  cases change with
  | place value => exact kept (place_leaves fun _ _ => rfl).forget
  | mutate target key value => exact kept (mutate_leaves fun _ _ => rfl)
  | define name bases entries config => exact kept (defineSchema_leaves fun _ _ _ => rfl).forget
  | defineFrom name entries config => exact kept (defineFrom_leaves fun _ _ _ => rfl).forget
  | repoint id name value => exact kept (repoint_leaves (fun _ _ => rfl) fun _ _ => rfl)
  | newConfiguration config => exact kept (newConfiguration_leaves fun _ _ => rfl).forget
  | setDefault id => exact kept (setDefault_leaves fun _ _ => rfl).forget
  | run action => exact kept leaves_ofRun
  | register id type => exact ordered_of_register ordered ended
  | newCatalogue build =>
      obtain ⟨types, rfl⟩ := listed
      obtain ⟨_, made⟩ := ends_of_forget ended
      exact ordered_of_newCatalogue ordered made
  | derive id changes =>
      obtain ⟨_, derived⟩ := ends_of_forget ended
      exact ordered_of_derive ordered derived
  | changeDefault changes =>
      replace ended := ends_bind_current.mp ended
      rcases ends_bind.mp ended with ⟨made, _, derived, installed⟩ | ⟨_, broke, _⟩
      · have kept : (setDefault made).Leaves World.catalogues := setDefault_leaves fun _ _ => rfl
        have same := kept.bind (fun _ => leaves_pure) _ _ _ installed
        exact (ordered_of_derive ordered derived).congr same
      · exact ordered_of_derive ordered broke

theorem ordered_after {changes : List Change} (listed : ∀ change ∈ changes, change.Listed) :
    (Session.after changes).world.Ordered := by
  induction changes with
  | nil =>
      intro id
      cases id with
      | zero => exact descending_builtIn
      | succ id => exact List.Pairwise.nil
  | cons change earlier ih =>
      have ordered := ih fun other member => listed other (List.mem_cons_of_mem change member)
      exact ordered_of_change ordered (listed change (by simp)) (ends_act change earlier)

/-- What a registration comes to: where the priority is taken it is refused and the session is as
before, else the one catalogue has one more type. -/
theorem register_cases {result : Except Fault Unit}
    (ended : (register id type).Ends before result after) :
    ((∃ existing ∈ before.world.catalogue (before.world.config id).catalogue,
        existing.priority = type.priority ∧
        result = .error (.samePriority type.name type.priority existing.name)) ∧ after = before) ∨
    (∀ existing ∈ before.world.catalogue (before.world.config id).catalogue,
        existing.priority ≠ type.priority) ∧ result = .ok () ∧
      ∀ number, after.world.catalogue number =
        if (before.world.config id).catalogue = number ∧ number < before.world.catalogues.size then
          (before.world.catalogue number).insert type
        else before.world.catalogue number := by
  rcases register_ends ended with
    ⟨types, trace, done, added, rfl⟩ | ⟨fault, trace, failed, broke, rfl⟩
  · obtain ⟨free, rfl, _⟩ := add_yields.mp added
    refine .inr ⟨free, done, fun number => ?_⟩
    rw [World.catalogue_set]
    by_cases same : (before.world.config id).catalogue = number
    · subst same
      rfl
    · simp [same]
  · obtain ⟨existing, found, rfl, rfl⟩ := add_breaks.mp broke
    have member := List.mem_of_find?_eq_some found
    have taken : existing.priority = type.priority := by simpa using List.find?_some found
    exact .inl ⟨⟨existing, member, taken, failed⟩, rfl⟩

end Session

open Session Catalogue in
/-- However types have been registered and catalogues copied: every catalogue is in strictly
descending order; a registration is refused exactly where the priority is taken, and then changes
nothing, and else adds its type to the one catalogue; a copy goes well and is the same catalogue; a
sample comes to the type of the greatest priority that applies to it, and to a fault exactly where
none does: a failed lookup if the sample has a text, else what keeps it from having one. Of types of
different priorities, every order of registration makes the same catalogue. -/
theorem catalogues_stay_in_order {changes : List Change}
    (listed : ∀ change ∈ changes, change.Listed) :
    let world := (after changes).world
    (∀ id, (world.catalogue id).Descending) ∧
    (∀ id type result last, (register id type).Ends (after changes) result last →
      let number := (world.config id).catalogue
      ((∃ existing ∈ world.catalogue number, existing.priority = type.priority ∧
          result = .error (.samePriority type.name type.priority existing.name)) ∧
        last = after changes) ∨
      (∀ existing ∈ world.catalogue number, existing.priority ≠ type.priority) ∧ result = .ok () ∧
        (number < world.catalogues.size → (last.world.catalogue number).Descending ∧
          (last.world.catalogue number).Perm (type :: world.catalogue number)) ∧
        ∀ other, other ≠ number → last.world.catalogue other = world.catalogue other) ∧
    (∀ id before, ∃ last, (world.catalogue id).copy.Yields before (world.catalogue id) last) ∧
    (∀ id heap sample accepts before, (world.catalogue id).Decides heap sample accepts →
      (∀ type, (∃ last, ((world.catalogue id).resolve heap sample).Yields before type last) ↔
        (world.catalogue id).Foremost accepts type) ∧
      (∀ fault, (∃ last, ((world.catalogue id).resolve heap sample).Breaks before fault last) ↔
        (∀ type ∈ world.catalogue id, accepts type = false) ∧ fault = unresolved heap sample) ∧
      (∀ text, heap.literal sample = .ok text → (unresolved heap sample).kind = "LookupError") ∧
      ∀ fault, heap.literal sample = .error fault → unresolved heap sample = fault) ∧
    ∀ types others before again, Apart types → types.Perm others →
      ∃ catalogue last other, (ofList types).Yields before catalogue last ∧
        (ofList others).Yields again catalogue other ∧ catalogue.Perm types := by
  have ordered := ordered_after listed
  refine ⟨ordered, fun id type result last ended => ?_, fun id => (ordered id).copy,
    fun id heap sample accepts before decides => ⟨fun type => ?_, fun fault => ?_, ?_, ?_⟩,
    fun types others before again apart same => ?_⟩
  · rcases register_cases ended with refused | ⟨free, done, stored⟩
    · exact .inl refused
    · refine .inr ⟨free, done, fun known => ?_, fun other differs => ?_⟩
      · have grown := stored ((after changes).world.config id).catalogue
        rw [if_pos ⟨rfl, known⟩] at grown
        rw [grown]
        exact ⟨(ordered _).insert free, insert_perm type _⟩
      · simpa [differs.symm] using stored other
  · exact (ordered id).resolve_yields_iff decides
  · exact resolve_breaks_iff decides
  · intro text written
    simp [unresolved, written, Fault.kind]
  · intro fault unwritten
    simp [unresolved, unwritten]
  · obtain ⟨one, last, listedFirst, descending, held⟩ := ofList_yields apart before
    obtain ⟨two, other, listedAgain, ordered, holds⟩ := ofList_yields (apart.perm same) again
    have equal : one = two :=
      descending.eq_of_perm ordered (held.trans (same.trans holds.symm))
    subst equal
    exact ⟨one, last, other, listedFirst, listedAgain, held⟩

namespace Numerals

open Session

/-- Big integers are registered, then a second type of their priority in vain, and then the catalogue
is copied. -/
def changes : List Change :=
  [.derive 0 {}, .register 0 (.custom { Custom.abstract with priority := 100000000 }),
    .register 0 .bigInteger]

theorem listed : ∀ change ∈ changes, change.Listed := by
  intro change member
  simp only [changes, List.mem_cons, List.not_mem_nil, or_false] at member
  rcases member with rfl | rfl | rfl <;> trivial

def types : Catalogue :=
  [.unbound .set, .unbound .array, .record, .bigInteger, .primitive .fallback]

theorem catalogue_eq : (after changes).world.catalogue 1 = types := rfl

/-- A big integer suits the type of big integers and the type that is for everything. -/
def accepts : ValueType → Bool
  | .bigInteger | .primitive _ => true
  | _ => false

theorem decides : types.Decides .empty (.bigInteger 7) accepts := by
  intro type member before
  simp only [types, List.mem_cons, List.not_mem_nil, or_false] at member
  rcases member with rfl | rfl | rfl | rfl | rfl <;> exact ⟨before, rfl⟩

end Numerals

/-- A big integer comes to the type of big integers in the copy of the catalogue, and this type with
the one of records makes the same catalogue in either order. -/
theorem catalogues_stay_in_order_numerals :
    (∀ change ∈ Numerals.changes, change.Listed) ∧
    ((Session.after Numerals.changes).world.catalogue 1).Descending ∧
    (∃ last, (((Session.after Numerals.changes).world.catalogue 1).resolve .empty
      (.bigInteger 7)).Yields [] .bigInteger last) ∧
    ∃ catalogue last other, (Catalogue.ofList [.bigInteger, .record]).Yields [] catalogue last ∧
      (Catalogue.ofList [.record, .bigInteger]).Yields [] catalogue other ∧
      catalogue.Perm [.bigInteger, .record] := by
  obtain ⟨descending, _, _, resolves, orders⟩ := catalogues_stay_in_order Numerals.listed
  refine ⟨Numerals.listed, descending 1, ?_, ?_⟩
  · obtain ⟨found, _, _⟩ := resolves 1 .empty (.bigInteger 7) Numerals.accepts []
      (Numerals.catalogue_eq ▸ Numerals.decides)
    refine (found .bigInteger).mpr ⟨?_, rfl, ?_⟩
    · rw [Numerals.catalogue_eq]
      simp [Numerals.types]
    · rw [Numerals.catalogue_eq]
      intro other member taken
      simp only [Numerals.types, List.mem_cons, List.not_mem_nil, or_false] at member
      rcases member with rfl | rfl | rfl | rfl | rfl <;> first | decide | cases taken
  · refine orders [.bigInteger, .record] [.record, .bigInteger] [] [] ?_ (List.Perm.swap _ _ _)
    exact List.pairwise_pair.mpr (by decide)

namespace Numerals

/-- An integer of one digit more than can be written. -/
def large : Int := (Nat.pow 10 Number.digitLimit : Nat)

theorem refuses : Catalogue.Decides [.bigInteger] .empty (.int large) fun _ => false := by
  intro type member before
  obtain rfl := List.mem_singleton.mp member
  exact ⟨before, rfl⟩

end Numerals

open Numerals in
/-- No type applies to the integer, and as it is too long to be written, what is raised is no failed
lookup. -/
theorem unresolved_without_text :
    Catalogue.Decides [.bigInteger] .empty (.int large) (fun _ => false) ∧
    (Catalogue.resolve [.bigInteger] .empty (.int large)).Breaks [] (.longNumeral none) [] ∧
    (Fault.longNumeral none).kind = "ValueError" := by
  have long (digits : Nat) : ¬ (Nat.pow 10 digits : Int).natAbs < Nat.pow 10 digits := by
    rw [Int.natAbs_natCast]
    exact Nat.lt_irrefl _
  have unwritten : Heap.empty.literal (.int large) = .error (.longNumeral none) :=
    Heap.literal_int_of_long (long Number.digitLimit)
  have missed : (Catalogue.find? .empty (.int large) [.bigInteger]).Yields [] none [] := rfl
  refine ⟨refuses, missed.bind.trans ?_, rfl⟩
  rw [unwritten]
  rfl

end Exemplar
