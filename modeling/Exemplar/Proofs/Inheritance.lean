import Exemplar.Proofs.Changes
import Exemplar.Proofs.Linearization

/-!
Where the fields of a schema come from. A schema has a field for every name that it or a schema that
it extends declares. It takes a declaration from its own body or else from the first of its bases
that has the field, and each base has settled its fields for itself: so a schema on one branch can
be heard before another that redeclares the field and comes first in the linear order.
-/

namespace Exemplar

namespace Named

variable {α : Type} {base own entries : Named α} {name : String} {value : α}

theorem get?_merge :
    get? name (merge base own) = (get? name (merge [] own)).or (get? name base) := by
  induction own using List.reverseRecOn with
  | nil => rfl
  | append_singleton rest entry ih =>
      obtain ⟨key, value⟩ := entry
      simp only [merge_append]
      by_cases same : name = key
      · simp [same]
      · simp only [get?_set_of_ne same, ih]

end Named

theorem findSome?_congr {α β : Type} {one other : α → Option β} {items : List α}
    (same : ∀ item ∈ items, one item = other item) :
    items.findSome? one = items.findSome? other := by
  induction items with
  | nil => rfl
  | cons item rest ih =>
      have later := ih fun next member => same next (List.mem_cons_of_mem item member)
      rw [List.findSome?_cons, List.findSome?_cons, same item (by simp), later]

theorem findSome?_eq_bind {α β : Type} {read : α → Option β} {items : List α} :
    items.findSome? read = (items.find? fun item => (read item).isSome).bind read := by
  induction items with
  | nil => rfl
  | cons item rest ih =>
      cases found : read item with
      | none => simp [found, ih]
      | some value => simp [found]

/-- What is found first in a list is found first in every part of it that has it. -/
theorem find?_of_sublist {α : Type} {accepts : α → Bool} {part whole : List α} {first : α}
    (within : part.Sublist whole) (distinct : whole.Nodup)
    (found : whole.find? accepts = some first) (member : first ∈ part) :
    part.find? accepts = some first := by
  induction within with
  | slnil => cases member
  | @cons part rest item within ih =>
      obtain ⟨apart, distinct⟩ := List.nodup_cons.mp distinct
      rw [List.find?_cons] at found
      split at found
      next =>
        cases found
        exact absurd (within.subset member) apart
      next => exact ih distinct found member
  | @cons_cons part rest item within ih =>
      rw [List.find?_cons] at found ⊢
      split at found
      next => exact found
      next refused =>
        rcases List.mem_cons.mp member with rfl | later
        · simp [List.find?_some found] at refused
        · exact ih (List.nodup_cons.mp distinct).2 found later

namespace World

variable {world before after : World} {id key : SchemaId} {compiled : Compiled} {field : Field}
  {name : String}

/-- The declaration of a name in a schema's own body. -/
def own (world : World) (id : SchemaId) (name : String) : Option Declaration :=
  Named.get? name (Named.merge [] (world.schema id).body)

/-- The declaration that a schema goes by. -/
def declared (world : World) (id : SchemaId) (name : String) : Option Declaration :=
  Named.get? name (world.schema id).declarations

/-- The first schema in the linear order that declares the name. -/
def declarer? (world : World) (id : SchemaId) (name : String) : Option SchemaId :=
  (world.schema id).ancestry.find? fun above => (world.own above name).isSome

/-- The declaration from the body of the first schema in the linear order that has one. -/
def resolved (world : World) (id : SchemaId) (name : String) : Option Declaration :=
  (world.declarer? id name).bind fun first => world.own first name

end World

namespace World

variable {world other : World} {name : String} {bases : List SchemaId} {id : SchemaId}

/-- The declarations that a schema inherits are those of the first base that has one of the name. -/
theorem get?_inherited
    (distinct : ∀ base ∈ bases, (Named.names (world.schema base).declarations).Nodup) :
    Named.get? name (Session.inherited world bases) =
      bases.findSome? fun base => world.declared base name := by
  unfold Session.inherited
  rw [List.foldl_reverse]
  induction bases with
  | nil => rfl
  | cons base rest ih =>
      have others := ih fun other member => distinct other (List.mem_cons_of_mem base member)
      rw [List.foldr_cons, Named.get?_merge, Named.merge_nil (distinct base (by simp)), others,
        List.findSome?_cons, World.declared]
      cases Named.get? name (world.schema base).declarations <;> rfl

/-- What a schema has of its bases: their order, and the declarations for the names that its body
says nothing of, each from the first base that has one. -/
structure Inherits (world : World) (id : SchemaId) (bases : List SchemaId) : Prop where
  grounded : ∀ base ∈ bases, base < id
  ancestry : ∃ above, (world.schema id).ancestry = id :: above ∧ bases.Nodup ∧
    Ancestry.Merges (bases.map (fun base => (world.schema base).ancestry) ++ [bases]) above
  declared : ∀ name, world.declared id name =
    (world.own id name).or (bases.findSome? fun base => world.declared base name)

theorem inherits_of_defines {entries : List (String × Entry)} {config : Option ConfigurationId}
    {before : Trace} {schema : Schema} {heap : Heap} (faithful : world.Faithful)
    (grounded : ∀ base ∈ bases, base < world.schemas.size)
    (defines : world.Defines name bases entries config before schema heap) :
    (world.enlarge schema heap).Inherits world.schemas.size bases := by
  have made : (world.enlarge schema heap).schema world.schemas.size = schema :=
    schema_enlarge.trans (if_pos rfl)
  have kept : ∀ base ∈ bases, (world.enlarge schema heap).schema base = world.schema base :=
    fun base member => schema_enlarge.trans (if_neg (Nat.ne_of_lt (grounded base member)))
  obtain ⟨above, ordered, line⟩ := defines.ancestry
  obtain ⟨apart, merges⟩ := Ancestry.ofBases_ok.mp ordered
  refine ⟨grounded, ⟨above, by rw [made, line], apart, ?_⟩, fun name => ?_⟩
  · rw [List.map_congr_left fun base member => congrArg Schema.ancestry (kept base member)]
    exact merges
  · have inherited : bases.findSome? (fun base => (world.enlarge schema heap).declared base name) =
        Named.get? name (Session.inherited world bases) := by
      rw [get?_inherited fun base _ => faithful.distinct base]
      refine findSome?_congr fun base member => ?_
      rw [World.declared, kept base member, World.declared]
    rw [World.declared, World.own, made, inherited, defines.declarations, Named.get?_merge]

theorem Inherits.congr (inherits : world.Inherits id bases)
    (same : ∀ lower ≤ id, (other.schema lower).outline = (world.schema lower).outline) :
    other.Inherits id bases := by
  have ancestry {lower : SchemaId} (low : lower ≤ id) :
      (other.schema lower).ancestry = (world.schema lower).ancestry :=
    (congrArg Schema.ancestry (same lower low) :)
  have declared {lower : SchemaId} (low : lower ≤ id) (name : String) :
      other.declared lower name = world.declared lower name :=
    (congrArg (fun schema => Named.get? name schema.declarations) (same lower low) :)
  have own (name : String) : other.own id name = world.own id name :=
    (congrArg (fun schema => Named.get? name (Named.merge [] schema.body))
      (same id (Nat.le_refl id)) :)
  have low {base : SchemaId} (member : base ∈ bases) : base ≤ id :=
    Nat.le_of_lt (inherits.grounded base member)
  refine ⟨inherits.grounded, ?_, fun name => ?_⟩
  · obtain ⟨above, line, apart, merges⟩ := inherits.ancestry
    refine ⟨above, (ancestry (Nat.le_refl id)).trans line, apart, ?_⟩
    rw [List.map_congr_left fun base member => ancestry (low member)]
    exact merges
  · rw [declared (Nat.le_refl id), own, inherits.declared name]
    congr 1
    exact findSome?_congr fun base member => (declared (low member) name).symm

end World

namespace Session

open Act

/-- Every definition extends schemas that are there. -/
def Grounded : List Change → Prop
  | [] => True
  | change :: earlier =>
      (∀ bases ∈ change.bases?, ∀ base ∈ bases, base < (after earlier).world.schemas.size) ∧
        Grounded earlier

/-- The bases that a schema was defined with; the root has none. -/
def basesOf : List Change → SchemaId → List SchemaId
  | [], _ => []
  | change :: earlier, id =>
      if id < (after earlier).world.schemas.size then basesOf earlier id else change.bases?.getD []

theorem inherits_after {changes : List Change} (grounded : Grounded changes) {id : Nat}
    (here : id < (after changes).world.schemas.size) :
    (after changes).world.Inherits id (basesOf changes id) := by
  induction changes with
  | nil =>
      obtain rfl : id = 0 := Nat.lt_one_iff.mp here
      exact ⟨by simp [basesOf], ⟨[], rfl, List.nodup_nil, .done rfl⟩, fun name => rfl⟩
  | cons change earlier ih =>
      have does := does_of_ends (ends_act change earlier)
      unfold basesOf
      split
      next old =>
        refine (ih grounded.2 old).congr fun lower low => ?_
        exact (outline_of_does does).2 lower (Nat.lt_of_le_of_lt low old)
      next fresh =>
        cases does with
        | nothing same _ => exact absurd (same ▸ here) fresh
        | defines based defines grown =>
            have size : (after (change :: earlier)).world.schemas.size =
                (after earlier).world.schemas.size + 1 := by simp [grown, World.enlarge]
            have beyond : (after earlier).world.schemas.size ≤ id := Nat.le_of_not_lt fresh
            obtain rfl : id = (after earlier).world.schemas.size := by omega
            rw [based, Option.getD_some, grown]
            exact World.inherits_of_defines (faithful_after earlier) (grounded.1 _ based) defines
        | exchanges _ _ same =>
            refine absurd ?_ fresh
            simpa [same, World.exchange] using here

end Session

namespace World

/-- The schema hears its bases as the linear order has it: where its own body says nothing of the
name, the first schema to declare it is known to the first base that has the field. -/
def Straight (world : World) (name : String) (id : SchemaId) (bases : List SchemaId) : Prop :=
  world.own id name = none → ∀ base first,
    bases.find? (fun base => (world.declared base name).isSome) = some base →
    world.declarer? id name = some first → first ∈ (world.schema base).ancestry

section Descent

variable {world : World} {basesOf : SchemaId → List SchemaId} {id base other first : SchemaId}
  {name : String}

theorem declarer?_isSome_iff :
    (world.declarer? id name).isSome ↔
      ∃ above ∈ (world.schema id).ancestry, (world.own above name).isSome := by
  simp [declarer?]

theorem own_of_declarer? (found : world.declarer? id name = some first) :
    (world.own first name).isSome := by
  simpa using List.find?_some found

variable (descends : ∀ id < world.schemas.size, world.Inherits id (basesOf id))

include descends

theorem mem_ancestry_self (here : id < world.schemas.size) : id ∈ (world.schema id).ancestry := by
  obtain ⟨above, line, _⟩ := (descends id here).ancestry
  simp [line]

theorem mem_tail_ancestry_iff (here : id < world.schemas.size) :
    other ∈ (world.schema id).ancestry.tail ↔
      ∃ base ∈ basesOf id, other ∈ (world.schema base).ancestry := by
  have inherits := descends id here
  obtain ⟨above, line, _, merges⟩ := inherits.ancestry
  rw [line, List.tail_cons, merges.mem_iff]
  constructor
  · rintro ⟨bases, member, within⟩
    rcases List.mem_append.mp member with mapped | single
    · obtain ⟨base, based, rfl⟩ := List.mem_map.mp mapped
      exact ⟨base, based, within⟩
    · obtain rfl := List.mem_singleton.mp single
      have below := Nat.lt_trans (inherits.grounded other within) here
      exact ⟨other, within, mem_ancestry_self descends below⟩
  · rintro ⟨base, based, within⟩
    exact ⟨_, List.mem_append_left _ (List.mem_map_of_mem based), within⟩

theorem mem_ancestry_iff (here : id < world.schemas.size) :
    other ∈ (world.schema id).ancestry ↔
      other = id ∨ ∃ base ∈ basesOf id, other ∈ (world.schema base).ancestry := by
  rw [← mem_tail_ancestry_iff descends here]
  obtain ⟨above, line, _⟩ := (descends id here).ancestry
  rw [line, List.mem_cons, List.tail_cons]

theorem mem_ancestry_of_base (here : id < world.schemas.size) (based : base ∈ basesOf id)
    (within : other ∈ (world.schema base).ancestry) : other ∈ (world.schema id).ancestry :=
  (mem_ancestry_iff descends here).mpr (.inr ⟨base, based, within⟩)

theorem le_of_mem_ancestry (here : id < world.schemas.size)
    (within : other ∈ (world.schema id).ancestry) : other ≤ id := by
  induction id using Nat.strong_induction_on with
  | _ id ih =>
      rcases (mem_ancestry_iff descends here).mp within with rfl | ⟨base, based, within⟩
      · exact Nat.le_refl other
      · have lower := (descends id here).grounded base based
        have below := ih base lower (Nat.lt_trans lower here) within
        exact Nat.le_of_lt (Nat.lt_of_le_of_lt below lower)

theorem nodup_ancestry (here : id < world.schemas.size) : (world.schema id).ancestry.Nodup := by
  have inherits := descends id here
  obtain ⟨above, line, _, merges⟩ := inherits.ancestry
  have inside : ∀ other ∈ above, other ≠ id := by
    intro other member
    have upward : other ∈ (world.schema id).ancestry.tail := by rw [line]; exact member
    obtain ⟨base, based, within⟩ := (mem_tail_ancestry_iff descends here).mp upward
    have lower := inherits.grounded base based
    have below := le_of_mem_ancestry descends (Nat.lt_trans lower here) within
    exact Nat.ne_of_lt (Nat.lt_of_le_of_lt below lower)
  rw [line]
  exact List.nodup_cons.mpr ⟨fun again => inside id again rfl, merges.nodup⟩

/-- Every declaration comes from the body of the schema itself or of one that it extends. -/
theorem own_of_declared {declaration : Declaration} (here : id < world.schemas.size)
    (declared : world.declared id name = some declaration) :
    ∃ above ∈ (world.schema id).ancestry, world.own above name = some declaration := by
  induction id using Nat.strong_induction_on with
  | _ id ih =>
      have inherits := descends id here
      rw [inherits.declared name] at declared
      cases found : world.own id name with
      | some own =>
          rw [found] at declared
          cases declared
          exact ⟨id, mem_ancestry_self descends here, found⟩
      | none =>
          rw [found, Option.none_or] at declared
          obtain ⟨base, based, provided⟩ := List.exists_of_findSome?_eq_some declared
          have lower := inherits.grounded base based
          obtain ⟨above, within, provided⟩ := ih base lower (Nat.lt_trans lower here) provided
          exact ⟨above, mem_ancestry_of_base descends here based within, provided⟩

/-- A schema has a field for a name where it or a schema that it extends declares the name. -/
theorem declared_isSome_iff (here : id < world.schemas.size) :
    (world.declared id name).isSome ↔
      ∃ above ∈ (world.schema id).ancestry, (world.own above name).isSome := by
  constructor
  · intro has
    obtain ⟨declaration, declared⟩ := Option.isSome_iff_exists.mp has
    obtain ⟨above, within, provided⟩ := own_of_declared descends here declared
    exact ⟨above, within, by simp [provided]⟩
  · rintro ⟨above, within, has⟩
    induction id using Nat.strong_induction_on with
    | _ id ih =>
        have inherits := descends id here
        rw [inherits.declared name]
        rcases (mem_ancestry_iff descends here).mp within with rfl | ⟨base, based, within⟩
        · simp [has]
        · have lower := inherits.grounded base based
          have provided := ih base lower (Nat.lt_trans lower here) within
          have inherited : ((basesOf id).findSome? fun base => world.declared base name).isSome :=
            List.findSome?_isSome_iff.mpr ⟨base, based, provided⟩
          simp [inherited]

/-- The first schema to declare a name is the first one for every base that it is known to: the
order keeps the order of the base. -/
theorem declarer?_of_base (here : id < world.schemas.size) (based : base ∈ basesOf id)
    (found : world.declarer? id name = some first) (known : first ∈ (world.schema base).ancestry) :
    world.declarer? base name = some first := by
  obtain ⟨above, line, _, merges⟩ := (descends id here).ancestry
  have member : (world.schema base).ancestry ∈
      (basesOf id).map fun base => (world.schema base).ancestry := List.mem_map_of_mem based
  have part : (world.schema base).ancestry.Sublist (world.schema id).ancestry := by
    rw [line]
    exact (merges.sublist (List.mem_append_left _ member)).cons id
  exact find?_of_sublist part (nodup_ancestry descends here) found known

/-- A schema with one base is heard as the order has it. -/
theorem straight_of_single (here : id < world.schemas.size) (single : (basesOf id).length ≤ 1) :
    world.Straight name id (basesOf id) := by
  intro own base first heard found
  have based := List.mem_of_find?_eq_some heard
  have declares := own_of_declarer? found
  rcases (mem_ancestry_iff descends here).mp (List.mem_of_find?_eq_some found) with
    rfl | ⟨other, known, within⟩
  · simp [own] at declares
  · obtain ⟨only, alone⟩ := List.length_eq_one_iff.mp
      (Nat.le_antisymm single (List.length_pos_of_mem based))
    obtain rfl : base = only := by simpa [alone] using based
    obtain rfl : other = base := by simpa [alone] using known
    exact within

/-- What the body leaves open is settled by the first base that has the field. -/
theorem declared_of_heard (here : id < world.schemas.size) (own : world.own id name = none)
    (heard : (basesOf id).find? (fun base => (world.declared base name).isSome) = some base) :
    world.declared id name = world.declared base name := by
  rw [(descends id here).declared name, own, Option.none_or, findSome?_eq_bind, heard,
    Option.bind_some]

/-- Where every schema in the order hears its bases as the order has it, the declaration is that of
the first schema in the order that declares the name. -/
theorem declared_eq (here : id < world.schemas.size)
    (straight : ∀ lower ∈ (world.schema id).ancestry, world.Straight name lower (basesOf lower)) :
    world.declared id name = world.resolved id name := by
  induction id using Nat.strong_induction_on with
  | _ id ih =>
      have inherits := descends id here
      rw [resolved]
      cases found : world.declarer? id name with
      | none =>
          have unheard : ¬ (world.declared id name).isSome := fun has => by
            have declares := declarer?_isSome_iff.mpr ((declared_isSome_iff descends here).mp has)
            simp [found] at declares
          simpa using unheard
      | some first =>
          rw [Option.bind_some]
          cases own : world.own id name with
          | some declaration =>
              obtain ⟨above, line, _⟩ := inherits.ancestry
              obtain rfl : id = first := by simpa [declarer?, line, own] using found
              rw [inherits.declared name, own, Option.some_or]
          | none =>
              have has := (declared_isSome_iff descends here).mpr
                (declarer?_isSome_iff.mp (Option.isSome_iff_exists.mpr ⟨first, found⟩))
              rw [inherits.declared name, own, Option.none_or, findSome?_eq_bind] at has
              obtain ⟨base, heard⟩ :=
                Option.isSome_iff_exists.mp (Option.isSome_of_isSome_bind has)
              have based := List.mem_of_find?_eq_some heard
              have lower := inherits.grounded base based
              -- The first declarer is the first one for this base too, which has a lower number.
              have known := straight id (mem_ancestry_self descends here) own base first heard found
              have inherited := ih base lower (Nat.lt_trans lower here) fun lower within =>
                straight lower (mem_ancestry_of_base descends here based within)
              rw [resolved, declarer?_of_base descends here based found known] at inherited
              rw [declared_of_heard descends here own heard]
              exact inherited

end Descent

end World

/-- What is found under a name is declared as the entry of that name says. -/
theorem Compiled.Indexed.declaration_of_field {compiled : Compiled} (indexed : compiled.Indexed)
    (name : String) :
    (compiled.field name).toOption.map (·.declaration) =
      Named.get? name (compiled.fields.map Field.entry) := by
  have distinct : (Named.names (compiled.fields.map Field.entry)).Nodup := by
    rw [Named.names, List.map_map]
    exact indexed.distinct
  cases found : compiled.field name with
  | ok field =>
      obtain ⟨member, rfl⟩ := indexed.field_eq_ok_iff.mp found
      exact (Named.get?_of_mem distinct (List.mem_map_of_mem member)).symm
  | error fault =>
      refine (Named.get?_eq_none_iff.mpr fun declared => ?_).symm
      rw [Named.names, List.map_map] at declared
      obtain ⟨field, member, named⟩ := List.mem_map.mp declared
      cases found.symm.trans (indexed.field_eq_ok_iff.mpr ⟨member, named⟩)

namespace Session

/-- What a schema has of those that it extends. -/
structure Descends (changes : List Change) (id : SchemaId) : Prop where
  /-- Their order is the merge of the orders of its bases. -/
  line : ∃ above, ((after changes).world.schema id).ancestry = id :: above ∧
    (basesOf changes id).Nodup ∧
    Ancestry.Merges ((basesOf changes id).map
      (fun base => ((after changes).world.schema base).ancestry) ++ [basesOf changes id]) above
  /-- It is compiled to fields for the declarations that it goes by. -/
  compiled : ∃ compiled, ((after changes).world.schema id).compiled = some compiled ∧
    ∀ name, (compiled.field name).toOption.map (·.declaration) =
      (after changes).world.declared id name
  /-- There is one for each name that a schema in the order declares. -/
  fields : ∀ name, ((after changes).world.declared id name).isSome ↔
    ∃ above ∈ ((after changes).world.schema id).ancestry,
      ((after changes).world.own above name).isSome
  /-- It comes from its own body, or else from the first base that has the field. -/
  nearest : ∀ name, (after changes).world.declared id name =
    ((after changes).world.own id name).or
      ((basesOf changes id).findSome? fun base => (after changes).world.declared base name)
  /-- So it comes from the body of a schema in the order. -/
  origin : ∀ name declaration, (after changes).world.declared id name = some declaration →
    ∃ above ∈ ((after changes).world.schema id).ancestry,
      (after changes).world.own above name = some declaration
  /-- That is the first one to declare the name, where all hear their bases as the order has it. -/
  ordered : ∀ name, (∀ lower ∈ ((after changes).world.schema id).ancestry,
      (after changes).world.Straight name lower (basesOf changes lower)) →
    (after changes).world.declared id name = (after changes).world.resolved id name
  /-- They are where none of them has two bases. -/
  single : (∀ lower ∈ ((after changes).world.schema id).ancestry,
      (basesOf changes lower).length ≤ 1) →
    ∀ name, (after changes).world.declared id name = (after changes).world.resolved id name

/-- Every schema but the root goes by the declarations of its own body and else by those of its
first bases, with one for each name that is declared in its linear order. -/
theorem declarations_from_bases {changes : List Change} (grounded : Grounded changes)
    {id : SchemaId} (extends_root : 0 < id) (here : id < (after changes).world.schemas.size) :
    Descends changes id := by
  have faithful := faithful_after changes
  have descends : ∀ id < (after changes).world.schemas.size,
      (after changes).world.Inherits id (basesOf changes id) :=
    fun id here => inherits_after grounded here
  refine ⟨(descends id here).ancestry, ?_, fun name => World.declared_isSome_iff descends here,
    (descends id here).declared, fun name declaration => World.own_of_declared descends here,
    fun name => World.declared_eq descends here, fun single name => ?_⟩
  · obtain ⟨compiled, known⟩ := Option.isSome_iff_exists.mp (faithful.compiled id extends_root here)
    refine ⟨compiled, known, fun name => ?_⟩
    rw [(faithful.indexed known).declaration_of_field, faithful.entries id compiled known]
    rfl
  · refine World.declared_eq descends here fun lower within => ?_
    have low := World.le_of_mem_ancestry descends here within
    exact World.straight_of_single descends (Nat.lt_of_le_of_lt low here) (single lower within)

end Session

namespace Diamond

open Session

/-- Two schemas extend one with a number in it; one of them makes a text of the number, and a fourth
schema extends both, with the other one first. The last change comes first. -/
def changes : List Change :=
  [.define "Both" [3, 2] [] none, .define "Plain" [1] [] none,
    .define "Written" [1] [("x", .declared { sample := .text "" })] none,
    .define "Numbered" [0] [("x", .declared { sample := .int 0 })] none]

theorem grounded : Grounded changes := by
  refine ⟨?_, ?_, ?_, ?_, trivial⟩ <;>
    · intro bases based base member
      cases based
      revert base
      decide

end Diamond

/-- The last schema takes the field from its first base, and the one that makes a text of it, with
single bases all the way up, has it from its own body. -/
theorem declarations_from_bases_diamond :
    Session.Grounded Diamond.changes ∧
    (Session.after Diamond.changes).world.declared 4 "x" =
      (Session.after Diamond.changes).world.declared 3 "x" ∧
    (Session.after Diamond.changes).world.declared 2 "x" =
      (Session.after Diamond.changes).world.own 2 "x" := by
  have last : 4 < (Session.after Diamond.changes).world.schemas.size := by decide
  have second : 2 < (Session.after Diamond.changes).world.schemas.size := by decide
  refine ⟨Diamond.grounded, ?_, ?_⟩
  · exact (Session.declarations_from_bases Diamond.grounded (by decide) last).nearest "x"
  · have descends := Session.declarations_from_bases Diamond.grounded (by decide) second
    exact descends.single (by decide) "x"

open Session in
/-- The first schema in the order to declare the field makes a text of it, but the last schema has a
number, and refuses texts. -/
theorem first_declarer_unheard :
    let world := (after Diamond.changes).world
    Grounded Diamond.changes ∧ (world.schema 4).ancestry = [4, 3, 2, 1, 0] ∧
    world.declarer? 4 "x" = some 2 ∧ (world.own 2 "x").map (·.sample) = some (.text "") ∧
    (world.declared 4 "x").map (·.sample) = some (.int 0) ∧
    world.declared 4 "x" ≠ world.resolved 4 "x" ∧
    ∃ fail, (world.tryValidate (world.schema 4) (.mapping [(.text "x", .text "a")]) none).Yields []
      (.error fail) [] := by
  intro world
  refine ⟨Diamond.grounded, rfl, rfl, rfl, rfl, fun same => ?_, _, rfl⟩
  have samples := congrArg (Option.map (·.sample)) same
  cases samples

end Exemplar
