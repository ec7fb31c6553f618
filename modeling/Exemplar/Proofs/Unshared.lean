import Exemplar.Proofs.Handouts

/-!
Defaults that no record shares. A schema keeps its sample, and what it compares values with, to
itself. An application that has been handed a default may change it as it likes, and all that it
comes to from there: the sample stays as it is, and the schema goes on to give the same default.
-/

namespace Exemplar

open Validation

/-- The objects that a schema keeps to itself: its sample, and all that the values of the watched
fields lead to. -/
def Compiled.Owns (compiled : Compiled) (heap : Heap) (watched : Field → Prop) (index : Nat) :
    Prop :=
  compiled.sample = .ref index ∨
    ∃ field value, watched field ∧ value ∈ field.values ∧ heap.Spans value index

/-- A session, and the values in it that an application holds. -/
structure Holding where
  session : Session
  held : List Value

section Steps

variable (schema : Schema) (own : Nat → Prop) (watched : Field → Prop)

/-- What an application does: it runs the schema and takes defaults from the record that comes of
it, it stores more or changes what is no object, it takes hold of what leads to nothing that the
schema keeps to itself, and it changes any object that it comes to from what it holds, to hold in
turn what it holds. -/
inductive Holding.Step : Holding → Holding → Prop
  | run {before after held gained data named result} :
      (Session.runStored schema data named).Ends before result after →
      (∀ value ∈ gained, HandsOut schema watched data named before after result value) →
      Step ⟨before, held⟩ ⟨after, gained ++ held⟩
  | extend {before after held} : before.world.heap.Grows after.world.heap →
      after.world.heap.Flat → Step ⟨before, held⟩ ⟨after, held⟩
  | hold {session held value} : value.Stored → session.world.heap.Spares own value →
      Step ⟨session, held⟩ ⟨session, value :: held⟩
  | mutate {before after held holder target key value done} : holder ∈ held →
      before.world.heap.Holds holder target → value ∈ held → (∀ given ∈ key, given ∈ held) →
      (Session.mutate target key value).Ends before done after →
      Step ⟨before, held⟩ ⟨after, held⟩
  | alter {before after held holder target index shape} : holder ∈ held →
      before.world.heap.Holds holder target → before.Alters after target held index shape →
      Step ⟨before, held⟩ ⟨after, held⟩

end Steps

/-- What is owned is as it was at first, and nothing that is held leads to such of it as can
change. -/
structure Holding.Sound (origin : Heap) (own : Nat → Prop) (holding : Holding) : Prop where
  flat : holding.session.world.heap.Flat
  size : origin.cells.size ≤ holding.session.world.heap.cells.size
  kept : ∀ index, own index → holding.session.world.heap.cell index = origin.cell index
  each : ∀ value ∈ holding.held, value.Stored ∧ holding.session.world.heap.Spares own value

namespace Holding.Sound

variable {origin : Heap} {own : Nat → Prop} {before after : Session} {held : List Value}
  {holder target value : Value} {index : Nat} {shape : Value}

theorem agrees {holding : Holding} (sound : holding.Sound origin own)
    (owned : ∀ index, origin.Spans value index → own index) :
    origin.Agrees holding.session.world.heap value :=
  fun index spans => sound.kept index (owned index spans)

theorem extend (sound : Sound origin own ⟨before, held⟩)
    (owned : ∀ index, own index → index < origin.cells.size)
    (grows : before.world.heap.Grows after.world.heap) (flat : after.world.heap.Flat) :
    Sound origin own ⟨after, held⟩ where
  flat := flat
  size := Nat.le_trans sound.size grows.size
  kept index mine := by
    rw [grows.kept index (Nat.lt_of_lt_of_le (owned index mine) sound.size)]
    exact sound.kept index mine
  each value member :=
    ⟨(sound.each value member).1, (sound.each value member).2.grow grows⟩

theorem alter {given : List Value} (sound : Sound origin own ⟨before, held⟩)
    (member : holder ∈ held) (inside : before.world.heap.Holds holder target)
    (each : ∀ value ∈ given, value.Stored ∧ before.world.heap.Spares own value)
    (alters : before.Alters after target given index shape) : Sound origin own ⟨after, held⟩ := by
  obtain ⟨rfl, changeable, parts, rfl⟩ := alters
  have reached := (sound.each holder member).2.held inside
  -- What is held leads to nothing owned that can change, so what is changed is not owned.
  have other : ¬ own index := fun mine => by
    rw [(reached index .ref).2 mine] at changeable
    cases changeable
  have inner : ∀ part ∈ shape.parts, part.Stored ∧ before.world.heap.Spares own part := by
    intro part known
    rcases parts part known with old | given
    · exact ⟨sound.flat index part old, reached.inside old⟩
    · exact each part given
  refine ⟨sound.flat.write fun part known => (inner part known).1, ?_, fun cell mine => ?_,
    fun value held => ⟨(sound.each value held).1, ?_⟩⟩
  · simpa [Session.rewritten, Heap.write] using sound.size
  · have different : cell ≠ index := by
      rintro rfl
      exact other mine
    exact (Heap.cell_write_of_ne different).trans (sound.kept cell mine)
  · exact (sound.each value held).2.write other fun part known => (inner part known).2

theorem gain {gained : List Value} (sound : Sound origin own ⟨before, held⟩)
    (each : ∀ value ∈ gained, value.Stored ∧ before.world.heap.Spares own value) :
    Sound origin own ⟨before, gained ++ held⟩ :=
  { sound with each := List.forall_mem_append.mpr ⟨each, sound.each⟩ }

end Holding.Sound

/-- What the application may have come to, if it held nothing at the start. -/
def Holding.ComesOf (schema : Schema) (compiled : Compiled) (watched : Field → Prop)
    (start : Session) (later : Holding) : Prop :=
  Relation.ReflTransGen
    (Holding.Step schema (compiled.Owns start.world.heap watched) watched) ⟨start, []⟩ later

/-- A compiled schema of which the watched fields have defaults. -/
structure Compiled.Lends (compiled : Compiled) (schema : Schema) (heap : Heap)
    (watched : Field → Prop) : Prop where
  known : schema.compiled = some compiled
  distinct : (compiled.fields.map (·.name)).Nodup
  flat : heap.Flat
  sample : ∀ cell, compiled.sample = .ref cell → cell < heap.cells.size
  fields : ∀ field, watched field → field.Lends heap

/-- Whatever an application does, the sample of the schema stays as it is, all that the fields'
samples lead to included; what the application holds leads to nothing of it that can change; and
every run that has no input for a watched field makes the same of it. -/
structure Session.KeepsDefaults (start : Session) (schema : Schema) (compiled : Compiled)
    (watched : Field → Prop) : Prop where
  sample {later : Holding} {cell : Nat} : Holding.ComesOf schema compiled watched start later →
    compiled.sample = .ref cell →
    later.session.world.heap.cell cell = start.world.heap.cell cell
  fields {later : Holding} {field : Field} : Holding.ComesOf schema compiled watched start later →
    watched field →
    start.world.heap.Agrees later.session.world.heap field.sample
  apart {later : Holding} {value : Value} : Holding.ComesOf schema compiled watched start later →
    value ∈ later.held →
    later.session.world.heap.Spares (compiled.Owns start.world.heap watched) value
  steady {field : Field} : watched field → ∃ outcome, ∀ later data named visit,
    Holding.ComesOf schema compiled watched start later →
    later.session.Misses schema field data named visit →
      later.session.Gives schema field data named visit outcome ∧
      ∀ value, outcome = .stored value → start.world.heap.Agrees later.session.world.heap value

namespace Compiled.Lends

variable {origin : Heap} {schema : Schema} {compiled : Compiled} {watched : Field → Prop}
  {before after : Holding} {session last : Session} {held : List Value}
  {field : Field} {data value : Value} {named : Option ConfigurationId} {visit : Visit}
  {outcome : FieldOutcome} {result : Except Fault Outcome}

theorem owned (lends : compiled.Lends schema origin watched) {cell : Nat}
    (mine : compiled.Owns origin watched cell) : cell < origin.cells.size := by
  rcases mine with same | ⟨field, value, watches, member, spans⟩
  · exact lends.sample cell same
  · exact (lends.fields field watches).known value member cell spans

theorem agrees (sound : after.Sound origin (compiled.Owns origin watched))
    (watches : watched field) :
    ∀ value ∈ field.values, origin.Agrees after.session.world.heap value :=
  fun value member => sound.agrees fun _ spans => .inr ⟨field, value, watches, member, spans⟩

theorem gives (lends : compiled.Lends schema origin watched)
    (sound : after.Sound origin (compiled.Owns origin watched)) (watches : watched field)
    (misses : after.session.Misses schema field data named visit)
    (becomes : field.Becomes origin visit.path outcome) :
    after.session.Gives schema field data named visit outcome :=
  (lends.fields field watches).gives lends.known lends.distinct (agrees sound watches) misses
    becomes

section Tuples

variable (lends : compiled.Lends schema origin watched)
  (tuples : ∀ field, watched field → origin.FixedIfTuple field.sample)

include lends tuples

/-- What a run hands out leads to nothing of the schema's own that can change. -/
theorem handed_out
    (sound : Holding.Sound origin (compiled.Owns origin watched) ⟨session, held⟩)
    (ended : (Session.runStored schema data named).Ends session result last)
    (handed : HandsOut schema watched data named session last result value) :
    value.Stored ∧ last.world.heap.Spares (compiled.Owns origin watched) value := by
  obtain @⟨index, field, visit, fields, value, watches, misses, keeps, cell, found⟩ := handed
  rcases Session.runStored_ends ended with ⟨record, _, ran, placed, heap⟩ | ⟨none, _⟩
  case inr => exact absurd rfl (none _)
  obtain ⟨outcome, becomes⟩ := field.exists_becomes origin visit.path
  cases lends.gives sound watches misses becomes with
  | failed _ stopped => cases (ran.unique stopped).1
  | stored _ stands =>
      obtain ⟨others, rfl, stored⟩ := stands keeps record _ ran
      rw [Heap.place_record_eq] at placed heap
      cases placed
      rw [heap, Heap.cell_store_self] at cell
      cases cell
      -- The default is placed after some of the other fields, and others are placed after it.
      obtain ⟨middle, grows, flat, same, later⟩ := Heap.get?_placeFields sound.flat stored
      cases found.symm.trans same
      have fields := lends.fields field watches
      have kept : origin.Agrees middle field.sample :=
        (agrees sound watches _ List.mem_cons_self).grow grows fun cell spans =>
          Nat.lt_of_lt_of_le (fields.known _ List.mem_cons_self cell spans) sound.size
      have spares := fields.spares_placed (tuples field watches) becomes
        (fun _ => lends.owned) (Nat.le_trans sound.size grows.size) kept flat
      rw [heap]
      exact ⟨(Heap.Flat.place _ flat).1, spares.grow later.store⟩

/-- Each step keeps what the schema owns, and hands out nothing of it that can change. -/
theorem sound_of_step (sound : before.Sound origin (compiled.Owns origin watched))
    (step : Holding.Step schema (compiled.Owns origin watched) watched before after) :
    after.Sound origin (compiled.Owns origin watched) := by
  have owned : ∀ cell, compiled.Owns origin watched cell → cell < origin.cells.size :=
    fun _ => lends.owned
  cases step with
  | run ended handed =>
      obtain ⟨grows, flat⟩ := Session.runStored_grows sound.flat ended
      exact (sound.extend owned grows flat).gain fun value member =>
        lends.handed_out tuples sound ended (handed value member)
  | extend grows flat => exact sound.extend owned grows flat
  | hold stored spares =>
      exact sound.gain (List.forall_mem_singleton.mpr ⟨stored, spares⟩)
  | alter member inside alters =>
      exact sound.alter member inside (fun _ known => sound.each _ known) alters
  | @mutate _ _ _ _ _ key _ _ member inside given keyed ended =>
      rcases Session.alters_of_mutate ended with rfl | ⟨index, shape, alters⟩
      · exact sound
      · refine sound.alter member inside (List.forall_mem_cons.mpr ⟨?_, ?_⟩) alters
        · cases key with
          | none => exact ⟨trivial, .of_plain trivial nofun⟩
          | some key => exact sound.each key (keyed key rfl)
        · exact List.forall_mem_singleton.mpr (sound.each _ given)

theorem sound_of_comesOf {start : Session} (same : start.world.heap = origin)
    (comes : Holding.ComesOf schema compiled watched start after) :
    after.Sound origin (compiled.Owns origin watched) := by
  subst same
  induction comes with
  | refl => exact ⟨lends.flat, Nat.le_refl _, fun _ _ => rfl, nofun⟩
  | tail _ step ih => exact lends.sound_of_step tuples ih step

end Tuples

end Compiled.Lends

/-- Records do not share their defaults with the sample of their schema. Whatever an application
does with the defaults that it has got, and with all that it comes to from there, the sample stays
as it is, and each run that has no input for a field gives it the default that the first one gave.
The sample of a field may be anything but a record, and nothing in it can change if it is a
tuple. -/
theorem Session.defaults_unshared {start : Session} {schema : Schema} {compiled : Compiled}
    {watched : Field → Prop} (lends : compiled.Lends schema start.world.heap watched)
    (tuples : ∀ field, watched field → start.world.heap.FixedIfTuple field.sample) :
    start.KeepsDefaults schema compiled watched where
  sample {_ cell} comes same := (lends.sound_of_comesOf tuples rfl comes).kept cell (.inl same)
  fields {_ field} comes watches :=
    Compiled.Lends.agrees (lends.sound_of_comesOf tuples rfl comes) watches field.sample
      List.mem_cons_self
  apart {_ value} comes member := ((lends.sound_of_comesOf tuples rfl comes).each value member).2
  steady {field} watches := by
    obtain ⟨outcome, becomes⟩ := field.exists_becomes start.world.heap (fieldPath "" field.name)
    refine ⟨outcome, fun later data named visit comes misses => ?_⟩
    have sound := lends.sound_of_comesOf tuples rfl comes
    have path : visit.path = fieldPath "" field.name := by
      have reaches := misses.reaches
      rw [← misses.visited]
      cases reaches
      rfl
    refine ⟨lends.gives sound watches misses (path ▸ becomes), ?_⟩
    rintro value rfl
    have sample := Compiled.Lends.agrees sound watches field.sample List.mem_cons_self
    obtain ⟨_, _, stood⟩ := becomes.stood
    have fields := lends.fields field watches
    exact ((fields.compiled.typed.standsIn stood).retained
      ⟨sample, fields.finite _ List.mem_cons_self⟩).agrees

/-! Albums with settings that hold a list and may not be empty, a tuple of sizes, and a tuple of
tags whose only element is a list. -/

namespace Albums

def albumClass : RecordClass := ⟨1, "Album", [1, 0]⟩

def heap : Heap :=
  ⟨#[.list [.text "a"], .mapping [(.text "pages", .ref 0)], .tuple [.int 1, .int 2],
    .list [.text "a"], .tuple [.ref 3],
    .record albumClass [("settings", .ref 1), ("sizes", .ref 2), ("tags", .ref 4)]]⟩

def filled : CustomCheck where
  label := "filled"
  check := fun heap value =>
    match heap.look value with
    | .mapping [] => return .failure ⟨"", "EMPTY", "must not be empty"⟩
    | _ => return .pass

theorem filled_goes_by_value : filled.GoesByValue where
  agrees retains := by simp only [filled, retains.agrees.look]
  determined heap value := by
    simp only [filled]
    split <;> exact Run.determinacy.pure
  answers _ answered := by
    simp only [filled] at answered
    split at answered <;> cases (Run.yields_pure.mp answered).1

def settings : Field :=
  ⟨"settings",
    { sample := .ref 1, mode := .defaulted, minimum := some (.int 1), custom := some filled },
    .ref 1, .primitive .fallback, [.bySize .below "size" (.int 1) Measure.length, .custom filled]⟩

def sizes : Field :=
  ⟨"sizes", { sample := .ref 2, mode := .defaulted }, .ref 2, .primitive .fallback, []⟩

def tags : Field :=
  ⟨"tags", { sample := .ref 4, mode := .defaulted }, .ref 4, .primitive .fallback, []⟩

def compiled : Compiled := .of [settings, sizes, tags] 0 (.ref 5)

def declarations : List (String × Declaration) :=
  compiled.fields.map fun field => (field.name, field.declaration)

def schema : Schema where
  recordClass := albumClass
  body := declarations
  declarations := declarations
  ancestry := [1, 0]
  config := none
  compiled := some compiled

def world (heap : Heap) : World where
  heap := heap
  schemas := #[.root, schema]
  configs := #[{ catalogue := 0 }]
  catalogues := #[Catalogue.builtIn]
  default := 0

def initial : Session := ⟨world heap, []⟩

theorem flat : heap.Flat := by
  refine Heap.flat_of_cells ?_
  simp [heap, Value.parts, Value.interleave, Value.Stored]

/-- All that is referred to is stored. -/
theorem spans_inside {cell index : Nat} (known : cell < 6) (spans : heap.Spans (.ref cell) index) :
    index < heap.cells.size := by
  refine @Heap.spans_confined heap (.ref cell) index (· < 6) ?_ flat trivial
    (fun _ same => by cases same; exact known) spans
  rintro cell _ part member inner rfl
  rcases heap.mem_cells_or_null cell with stored | bare
  · generalize heap.cell cell = shape at stored member
    simp only [heap, List.mem_cons, List.not_mem_nil, or_false] at stored
    rcases stored with rfl | rfl | rfl | rfl | rfl | rfl <;>
      simp [Value.parts, Value.interleave] at member <;> omega
  · simp [bare, Value.parts] at member

theorem within {cell : Nat} (below : cell < 5) : heap.Within 3 (.ref cell) := by
  obtain rfl | rfl | rfl | rfl | rfl : cell = 0 ∨ cell = 1 ∨ cell = 2 ∨ cell = 3 ∨ cell = 4 := by
    omega
  all_goals simp [heap, Heap.Within, Heap.cell, Heap.look, Value.parts, Value.interleave]

theorem values_known {field : Field} (member : field ∈ compiled.fields) :
    ∀ value ∈ field.values, value = .int 1 ∨ ∃ cell, cell < 5 ∧ value = .ref cell := by
  simp only [compiled, List.mem_cons, List.not_mem_nil, or_false] at member
  rcases member with rfl | rfl | rfl <;>
    simp [settings, sizes, tags, Field.values, Declaration.compared]

theorem lends {watched : Field → Prop} (among : ∀ field, watched field → field ∈ compiled.fields) :
    compiled.Lends schema heap watched where
  known := rfl
  distinct := by decide
  flat := flat
  sample cell same := by
    cases same
    decide
  fields field watches := by
    have member := among field watches
    have known := values_known member
    have finite : ∀ value ∈ field.values, heap.Finite value := fun value listed => by
      rcases known value listed with rfl | ⟨cell, below, rfl⟩
      · exact Heap.finite_of_isScalar rfl
      · exact ⟨3, within below⟩
    have inside : ∀ value ∈ field.values, ∀ index, heap.Spans value index →
        index < heap.cells.size := fun value listed index spans => by
      rcases known value listed with rfl | ⟨cell, below, rfl⟩
      · exact absurd spans (Heap.not_spans_of_plain (by trivial) nofun)
      · exact spans_inside (by omega) spans
    simp only [compiled, List.mem_cons, List.not_mem_nil, or_false] at member
    rcases member with rfl | rfl | rfl
    · exact ⟨⟨⟨[], [], rfl⟩, rfl, rfl, trivial, rfl, finite, fun hook declared => by
        cases declared; exact filled_goes_by_value⟩, inside⟩
    · exact ⟨⟨⟨[], [], rfl⟩, rfl, rfl, trivial, rfl, finite, nofun⟩, inside⟩
    · exact ⟨⟨⟨[], [], rfl⟩, rfl, rfl, trivial, rfl, finite, nofun⟩, inside⟩

/-- The albums and their fields that are not shared. -/
def Watched (field : Field) : Prop := field = settings ∨ field = sizes

theorem fixedIfTuple (field : Field) (watched : Watched field) :
    heap.FixedIfTuple field.sample := by
  intro elements shape index spans
  rcases watched with rfl | rfl
  · cases shape
  · have here : index = 2 := by
      refine @Heap.spans_confined heap (.ref 2) index (· = 2) ?_ flat trivial (fun _ same => by
        cases same; rfl) spans
      rintro _ rfl part member inner rfl
      simp [heap, Heap.cell, Value.parts] at member
    rw [here]
    rfl

/-- The session after a run, where the list that came of the copied settings and the one inside the
tags are as given. -/
def sessionWith (pages kept : List Value) : Session :=
  ⟨world ⟨#[.list [.text "a"], .mapping [(.text "pages", .ref 0)], .tuple [.int 1, .int 2],
    .list kept, .tuple [.ref 3],
    .record albumClass [("settings", .ref 1), ("sizes", .ref 2), ("tags", .ref 4)],
    .mapping [(.text "pages", .ref 7)], .list pages,
    .record albumClass [("settings", .ref 6), ("sizes", .ref 2), ("tags", .ref 4)]]⟩, []⟩

theorem misses_settings : initial.Misses schema settings (.mapping []) none
    ⟨limit initial.world (.mapping []), "", [], settings, []⟩ where
  root := rfl
  deep := rfl
  reaches := .intro rfl rfl (List.nil_append compiled.fields).symm rfl
  visited := rfl
  absent := ⟨"settings", [], rfl, rfl⟩

theorem misses_tags : initial.Misses schema tags (.mapping []) none
    ⟨limit initial.world (.mapping []), "", [], tags, []⟩ where
  root := rfl
  deep := rfl
  reaches :=
    .intro rfl rfl (show compiled.fields = compiled.fields.take 2 ++ tags :: [] from rfl) rfl
  visited := rfl
  absent := ⟨"tags", [], rfl, rfl⟩

/-- The session after a run and nothing else. -/
def made : Session := sessionWith [.text "a"] [.text "a"]

/-- An album is made of no input, and something that its field leads to takes one more text. -/
theorem comes_of_change {watched : Field → Prop} {field : Field} {visit : Visit}
    {value target : Value} {changed : Session} (watches : watched field)
    (misses : initial.Misses schema field (.mapping []) none visit)
    (found : Named.get? field.name
      [("settings", Value.ref 6), ("sizes", .ref 2), ("tags", .ref 4)] = some value)
    (inside : made.world.heap.Holds value target)
    (ended : (Session.mutate target none (.text "b")).Ends made (.ok ()) changed) :
    Holding.ComesOf schema compiled watched initial ⟨changed, [.text "b", value]⟩ := by
  have ran : (Session.runStored schema (.mapping []) none).Ends initial (.ok (.ok (.ref 8))) made :=
    rfl
  have handed : HandsOut schema watched (.mapping []) none initial made (.ok (.ok (.ref 8))) value :=
    .intro watches misses (Finisher.keeps_identity.keepsField _) rfl found
  have plain : (Value.text "b").Stored ∧
      made.world.heap.Spares (compiled.Owns initial.world.heap watched) (.text "b") :=
    ⟨trivial, .of_plain trivial nofun⟩
  have first : Holding.ComesOf schema compiled watched initial ⟨made, [value]⟩ :=
    .single (.run ran (List.forall_mem_singleton.mpr handed))
  exact (first.tail (.hold plain.1 plain.2)).tail
    (.mutate (List.mem_cons_of_mem _ List.mem_cons_self) inside List.mem_cons_self (by simp) ended)

end Albums

open Albums in
/-- The settings of one album are changed, and those of the sample are not. -/
theorem Session.defaults_unshared_albums :
    initial.KeepsDefaults schema compiled Watched ∧
    ∃ later, Holding.ComesOf schema compiled Watched initial later ∧ .ref 6 ∈ later.held ∧
      later.session.world.heap.display (.ref 6) = .ok "\x7b'pages': ['a', 'b']\x7d" ∧
      later.session.world.heap.display settings.sample = .ok "\x7b'pages': ['a']\x7d" := by
  constructor
  · refine Session.defaults_unshared (lends ?_) fixedIfTuple
    rintro field (rfl | rfl) <;> simp [compiled]
  · have inside : made.world.heap.Holds (.ref 6) (.ref 7) :=
      .inside (List.mem_cons_of_mem _ List.mem_cons_self) .self
    exact ⟨⟨sessionWith [.text "a", .text "b"] [.text "a"], [.text "b", .ref 6]⟩,
      comes_of_change (.inl rfl) misses_settings rfl inside rfl, by simp, rfl, rfl⟩

open Albums in
/-- A tuple is handed out as it is, with the list inside it, so whoever changes an album's list of
tags changes the sample, and the default of every album from then on. -/
theorem Session.tuple_default_shared :
    (∃ later, Holding.ComesOf schema compiled (· = tags) initial later ∧
      initial.world.heap.display tags.sample = .ok "(['a'],)" ∧
      later.session.world.heap.display tags.sample = .ok "(['a', 'b'],)") ∧
    ¬ ∀ {start : Session} {schema : Schema} {compiled : Compiled}
      {watched : Field → Prop}, compiled.Lends schema start.world.heap watched →
      (∀ field, watched field → start.world.heap.RecordFree field.sample) →
      start.KeepsDefaults schema compiled watched := by
  have inside : made.world.heap.Holds (.ref 4) (.ref 3) :=
    .inside List.mem_cons_self .self
  have comes : Holding.ComesOf schema compiled (· = tags) initial
      ⟨sessionWith [.text "a"] [.text "a", .text "b"], [.text "b", .ref 4]⟩ :=
    comes_of_change rfl misses_tags rfl inside rfl
  refine ⟨⟨_, comes, rfl, rfl⟩, fun keeps => ?_⟩
  have free : Albums.heap.RecordFree (.ref 4) := by
    refine Heap.recordFree_of_parts rfl (List.forall_mem_singleton.mpr ?_)
    refine Heap.recordFree_of_parts rfl (List.forall_mem_singleton.mpr ?_)
    exact Heap.recordFree_of_no_parts rfl rfl
  have among : ∀ field, field = tags → field ∈ compiled.fields := by
    rintro _ rfl
    simp [compiled]
  have kept : initial.KeepsDefaults schema compiled (· = tags) :=
    keeps (lends among) (by rintro _ rfl; exact free)
  have same := kept.fields comes rfl 3 (.within List.mem_cons_self .ref)
  cases same

end Exemplar
