import Exemplar.Proofs.Changes
import Exemplar.Proofs.FixedTypes

/-!
What becomes of compiled fields in the course of a session. A field is compiled when its schema is
defined, and again when it is pointed at another sample; nothing else that an application does
touches it, registrations of types in particular. So runs depend on the catalogues as they were when
the fields were compiled, and on none as it is by now.
-/

namespace Exemplar

/-- A field that the schema has been compiled to. -/
def World.HasField (world : World) (id : SchemaId) (field : Field) : Prop :=
  ∃ compiled, (world.schema id).compiled = some compiled ∧ field ∈ compiled.fields

/-- A field that the schema has been compiled to with that catalogue. -/
def World.HasFieldOf (world : World) (id : SchemaId) (catalogue : CatalogueId) (field : Field) :
    Prop :=
  ∃ compiled, (world.schema id).compiled = some compiled ∧ compiled.catalogue = catalogue ∧
    field ∈ compiled.fields

section Looking

variable {world other : World} {id key : SchemaId} {catalogue : CatalogueId} {made field : Field}
  {compiled : Compiled} {schema : Schema}

theorem World.HasFieldOf.congr (has : world.HasFieldOf id catalogue field)
    (same : world.schemas = other.schemas) : other.HasFieldOf id catalogue field := by
  obtain ⟨compiled, known, member⟩ := has
  exact ⟨compiled, World.schema_congr same ▸ known, member⟩

theorem World.HasFieldOf.lt_size (has : world.HasFieldOf id catalogue field) :
    id < world.schemas.size := by
  obtain ⟨compiled, known, _⟩ := has
  exact World.lt_size_of_compiled known

/-- Of an exchange a field is left over, or it is the one that has been put in the place of
others. -/
theorem World.hasFieldOf_exchange (faithful : world.Faithful)
    (known : (world.schema key).compiled = some compiled)
    (has : (world.exchange key compiled made).HasFieldOf id catalogue field) :
    (world.HasFieldOf id catalogue field ∧ (id = key → field.name ≠ made.name)) ∨
      id = key ∧ catalogue = compiled.catalogue ∧ field = made := by
  obtain ⟨left, declared, of, member⟩ := has
  rw [World.schema_exchange known] at declared
  split at declared
  next same =>
    subst same
    cases declared
    have of : compiled.catalogue = catalogue := Compiled.catalogue_replace.symm.trans of
    rw [(faithful.indexed known).fields_replace] at member
    obtain ⟨old, stood, kept⟩ := List.mem_map.mp member
    split at kept
    next => exact .inr ⟨rfl, of.symm, kept.symm⟩
    next differs =>
      subst kept
      exact .inl ⟨⟨compiled, known, of, stood⟩, fun _ => differs⟩
  next differs => exact .inl ⟨⟨left, declared, of, member⟩, fun same => absurd same differs⟩

theorem compiledBy_of_compile {catalogue : Catalogue} {heap : Heap} {name : String}
    {declaration : Declaration} {sample : Value} {before after : Trace}
    (made : (Field.compile catalogue heap name declaration sample).Yields before field after) :
    field.name = name ∧ field.CompiledBy catalogue heap := by
  have whole := made
  simp only [Field.compile, Run.yields_bind, Run.yields_pure] at made
  obtain ⟨type, _, _, checks, _, _, rfl, _⟩ := made
  exact ⟨rfl, before, after, whole⟩

theorem compiledBy_of_compileFields {catalogue : Catalogue} {heap : Heap}
    {declarations : List (String × Declaration)} {fields : List Field} {before after : Trace}
    (ran : (Session.compileFields catalogue heap declarations).Yields before fields after)
    (member : field ∈ fields) : field.CompiledBy catalogue heap := by
  induction declarations generalizing fields before with
  | nil =>
      obtain ⟨rfl, _⟩ := Run.yields_pure.mp ran
      cases member
  | cons declaration rest ih =>
      simp only [Session.compileFields, Run.yields_bind, Run.yields_pure] at ran
      obtain ⟨first, _, made, others, _, later, rfl, rfl⟩ := ran
      rcases List.mem_cons.mp member with rfl | within
      · exact (compiledBy_of_compile made).2
      · exact ih later within

theorem World.eq_stocked (same : other.stocked #[] = world.stocked #[]) :
    other = world.stocked other.catalogues :=
  congrArg (fun bare => bare.stocked other.catalogues) same

end Looking

namespace Session

open Act

/-- The heap as it was when a schema's field of that name was compiled for the last time. -/
inductive CompiledIn (id : SchemaId) (name : String) : List Change → Heap → Prop
  | now {change earlier} : change.Compiles (after earlier) id name →
      CompiledIn id name (change :: earlier) (after earlier).world.heap
  | before {change earlier heap} : ¬ change.Compiles (after earlier) id name →
      CompiledIn id name earlier heap → CompiledIn id name (change :: earlier) heap

/-- The changes before a schema's field of that name was compiled for the last time. -/
inductive CompiledAfter (id : SchemaId) (name : String) : List Change → List Change → Prop
  | now {change earlier} : change.Compiles (after earlier) id name →
      CompiledAfter id name (change :: earlier) earlier
  | before {change earlier past} : ¬ change.Compiles (after earlier) id name →
      CompiledAfter id name earlier past → CompiledAfter id name (change :: earlier) past

theorem CompiledAfter.compiledIn {id : SchemaId} {name : String} {changes past : List Change}
    (since : CompiledAfter id name changes past) :
    CompiledIn id name changes (after past).world.heap := by
  induction since with
  | now compiles => exact .now compiles
  | before idle _ ih => exact .before idle ih

section Steps

variable {before after : Session} {change : Change} {id : SchemaId} {catalogue : CatalogueId}
  {field : Field}

/-- A field is left as it was by a change that does not compile it, or is compiled by the change,
with the catalogue of its schema as it is by then. -/
theorem hasFieldOf_of_does (faithful : before.world.Faithful)
    (does : change.Does before after.world)
    (has : after.world.HasFieldOf id catalogue field) :
    (before.world.HasFieldOf id catalogue field ∧ ¬ change.Compiles before id field.name) ∨
    change.Compiles before id field.name ∧
      field.CompiledBy (before.world.catalogue catalogue) before.world.heap := by
  cases does with
  | nothing same idle =>
      have kept := has.congr same
      exact .inl ⟨kept, idle id kept.lt_size field.name⟩
  | defines based defines grown =>
      rw [compiles_of_bases based]
      obtain ⟨compiled, known, of, member⟩ := has
      rw [grown, World.schema_enlarge] at known
      split at known
      next last =>
        obtain ⟨made, declared, compiles⟩ := defines.compiled
        cases declared.symm.trans known
        obtain ⟨_, ran⟩ := compiles.fields
        exact .inr ⟨last, of ▸ compiledBy_of_compileFields ran member⟩
      next old => exact .inl ⟨⟨compiled, known, of, member⟩, old⟩
  | exchanges pointed made same =>
      subst pointed
      obtain ⟨old, known, _, compiles⟩ := recompile_yields.mp made
      obtain ⟨named, by_⟩ := compiledBy_of_compile compiles
      rcases World.hasFieldOf_exchange faithful known (has.congr same) with ⟨kept, differs⟩ |
        ⟨rfl, rfl, rfl⟩
      · exact .inl ⟨kept, fun found => differs found.1 (found.2.1.trans named.symm)⟩
      · exact .inr ⟨⟨rfl, named, _, _, made⟩, by_⟩

end Steps

/-- Every field of a session has been compiled in the session's past. -/
theorem compiledAfter_of_hasFieldOf {changes : List Change} {id : SchemaId}
    {catalogue : CatalogueId} {field : Field}
    (has : (after changes).world.HasFieldOf id catalogue field) :
    ∃ past, CompiledAfter id field.name changes past ∧
      field.CompiledBy ((after past).world.catalogue catalogue) (after past).world.heap := by
  induction changes with
  | nil =>
      have root : id = 0 := Nat.lt_one_iff.mp has.lt_size
      subst root
      obtain ⟨_, known, _⟩ := has
      cases known
  | cons change earlier ih =>
      have does := does_of_ends (ends_act change earlier)
      rcases hasFieldOf_of_does (faithful_after earlier) does has with ⟨kept, idle⟩ |
        ⟨compiles, made⟩
      · obtain ⟨past, since, made⟩ := ih kept
        exact ⟨past, .before idle since, made⟩
      · exact ⟨earlier, .now compiles, made⟩

theorem compiledIn_of_hasField {changes : List Change} {id : SchemaId} {field : Field}
    (has : (after changes).world.HasField id field) :
    ∃ heap catalogue, CompiledIn id field.name changes heap ∧ field.CompiledBy catalogue heap := by
  obtain ⟨compiled, known, member⟩ := has
  obtain ⟨past, since, made⟩ := compiledAfter_of_hasFieldOf ⟨compiled, known, rfl, member⟩
  exact ⟨_, _, since.compiledIn, made⟩

/-- Registrations of types, each with the catalogue of a configuration. -/
def registering (registrations : List (ConfigurationId × ValueType)) : List Change :=
  registrations.map fun entry => .register entry.1 entry.2

theorem world_of_registering (registrations : List (ConfigurationId × ValueType))
    (changes : List Change) :
    ∃ catalogues, (after (registering registrations ++ changes)).world =
      (after changes).world.stocked catalogues := by
  induction registrations with
  | nil => exact ⟨(after changes).world.catalogues, rfl⟩
  | cons entry rest ih =>
      obtain ⟨catalogues, before⟩ := ih
      have leaves : (Session.register entry.1 entry.2).Leaves fun world => world.stocked #[] :=
        register_leaves fun _ _ => rfl
      have same := leaves _ _ _
        (ends_act (.register entry.1 entry.2) (registering rest ++ changes))
      rw [before] at same
      exact ⟨_, World.eq_stocked same⟩

end Session

/-- Runs of the schema come to the same in both worlds, by configurations that differ in nothing but
the catalogue: they have the same results, give the same warnings and finish the same records. -/
structure World.RunsAlike (now later : World) (root : SchemaId) : Prop where
  placed : ∀ (config : Configuration) catalogue location data,
    later.validateAt (config.supplied catalogue) (later.schema root) location data =
      now.validateAt config (now.schema root) location data
  named : ∀ one other catalogue data, now.config other = (now.config one).supplied catalogue →
    later.tryValidate (later.schema root) data (some other) =
        now.tryValidate (now.schema root) data (some one) ∧
      later.validate (later.schema root) data (some other) =
        now.validate (now.schema root) data (some one)
  governed : ∀ data,
    later.tryValidate (later.schema root) data none =
        now.tryValidate (now.schema root) data none ∧
      later.validate (later.schema root) data none = now.validate (now.schema root) data none

theorem World.runsAlike_of_fixed {world : World} {root : SchemaId} (fixed : world.FixedFrom root)
    (catalogues : Array Catalogue) : world.RunsAlike (world.stocked catalogues) root where
  placed config catalogue location data := Validation.validateAt_stocked fixed location data
  named one other catalogue data differ := by
    have tried : (world.stocked catalogues).tryValidate ((world.stocked catalogues).schema root)
          data (some other) = world.tryValidate (world.schema root) data (some one) := by
      have run : (world.stocked catalogues).validateAt ((world.config one).supplied catalogue)
            ((world.stocked catalogues).schema root) "" data =
          world.validateAt (world.config one) (world.schema root) "" data :=
        Validation.validateAt_stocked fixed "" data
      rw [← differ] at run
      exact run
    exact ⟨tried, by simp only [World.validate, tried]⟩
  governed data := by
    have tried : (world.stocked catalogues).tryValidate ((world.stocked catalogues).schema root)
          data none = world.tryValidate (world.schema root) data none :=
      Validation.validateAt_stocked fixed "" data
    exact ⟨tried, by simp only [World.validate, tried]⟩

open Session in
/-- Types are fixed when fields are compiled. However schemas have come about, whatever types have
been registered where: if the samples of the fields that runs of a schema come to still are what
they were when the fields were compiled, its runs do not depend on the catalogue of the
configuration, and no registration makes a difference to them. Types of the application are taken to
keep to this: what they make of values does not depend on that catalogue either. -/
theorem runs_ignore_catalogues {changes : List Change} {root : SchemaId}
    (kept : ∀ {used field heap}, (after changes).world.Comes root used →
      (after changes).world.HasField used field → CompiledIn used field.name changes heap →
      heap.Kept (after changes).world.heap field.type field.sample)
    (heedless : ∀ {used field}, (after changes).world.Comes root used →
      (after changes).world.HasField used field → field.type.Heedless)
    (registrations : List (ConfigurationId × ValueType)) :
    (after changes).world.RunsAlike (after (registering registrations ++ changes)).world root := by
  obtain ⟨catalogues, same⟩ := world_of_registering registrations changes
  rw [same]
  refine World.runsAlike_of_fixed (fun {used compiled field} comes known member => ?_) catalogues
  have has : (after changes).world.HasField used field := ⟨compiled, known, member⟩
  obtain ⟨heap, catalogue, since, _, _, made⟩ := compiledIn_of_hasField has
  exact ⟨Heap.fixed_of_compile made (kept comes has since), heedless comes has⟩

namespace Branch

open Session

/-- Branches with some tags and a branch that comes next, the last change first. -/
def changes : List Change :=
  [.repoint 1 "next" (.ref 1),
    .define "Branch" [0]
      [("tags", .declared { sample := .ref 0 }),
        ("next", .declared { sample := .null, mode := .optional })] none,
    .place (.list [.text ""])]

def tags : Field :=
  ⟨"tags", { sample := .ref 0 }, .ref 0, .bound .array (.primitive .fallback), []⟩

def next : Field := ⟨"next", { sample := .null, mode := .optional }, .ref 1, .record, []⟩

theorem compiled_eq :
    ((after changes).world.schema 1).compiled = some (.of [tags, next] 0 (.ref 1)) :=
  rfl

theorem eq_of_comes {used : SchemaId} (comes : (after changes).world.Comes 1 used) : used = 1 := by
  induction comes with
  | root => rfl
  | field _ known member meets ih =>
      subst ih
      cases compiled_eq.symm.trans known
      simp only [List.mem_cons, List.not_mem_nil, or_false] at member
      rcases member with rfl | rfl
      · cases meets with
        | element _ meets => cases meets
      · cases meets with
        | record shape =>
            cases shape
            rfl

/-- Tags have been compiled when branches were defined, and next branches after that. -/
theorem heap_of_compiledIn {field : Field} {heap : Heap} (member : field ∈ [tags, next])
    (since : CompiledIn 1 field.name changes heap) :
    (field = tags ∧ heap = (after (changes.drop 2)).world.heap) ∨ field = next := by
  simp only [List.mem_cons, List.not_mem_nil, or_false] at member
  rcases member with rfl | rfl
  · left
    refine ⟨rfl, ?_⟩
    cases since with
    | now compiles => exact absurd compiles.2.1 (by decide)
    | before _ since =>
        cases since with
        | now _ => rfl
        | before idle _ => exact absurd rfl idle
  · exact .inr rfl

/-- Making the next branch did nothing to the tags. -/
theorem unchanged_tags :
    (after (changes.drop 2)).world.heap.Unchanged (after changes).world.heap (.ref 0) := by
  intro part shown
  have known : part = .ref 0 ∨ part = .text "" := by
    induction shown with
    | self => exact .inl rfl
    | part _ member ih =>
        rcases ih with rfl | rfl
        · exact .inr (List.mem_singleton.mp member)
        · cases member
  rcases known with rfl | rfl <;> rfl

end Branch

/-- Once branches refer to themselves, a type is registered that takes all records for texts; runs
of branches go on as before. -/
theorem runs_ignore_catalogues_branches :
    (Session.after Branch.changes).world.RunsAlike
      (Session.after (Session.registering [(0, .custom Points.written)] ++ Branch.changes)).world
      1 := by
  refine runs_ignore_catalogues (fun {used field heap} comes has since => ?_)
    (fun {used field} comes has => ?_) _
  · cases Branch.eq_of_comes comes
    obtain ⟨compiled, known, member⟩ := has
    cases Branch.compiled_eq.symm.trans known
    rcases Branch.heap_of_compiledIn member since with ⟨rfl, rfl⟩ | rfl
    · exact Heap.kept_of_unchanged ⟨Gathering.array.observant, trivial⟩ Branch.unchanged_tags
    · trivial
  · cases Branch.eq_of_comes comes
    obtain ⟨compiled, known, member⟩ := has
    cases Branch.compiled_eq.symm.trans known
    simp only [List.mem_cons, List.not_mem_nil, or_false] at member
    rcases member with rfl | rfl <;> exact fun _ _ => trivial

end Exemplar
