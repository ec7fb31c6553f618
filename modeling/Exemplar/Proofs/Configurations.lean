import Exemplar.Proofs.Catalogues

/-!
Configurations and what they share. A configuration never changes; what an application sets goes
into a new default configuration with a copy of the catalogue, so registered types reach other
configurations only through a catalogue that was handed on to them.
-/

namespace Exemplar

/-- What a configuration settles beside its catalogue. -/
inductive Setting where
  | lenient
  | sink
  | finisher
  | keys

namespace Setting

def Choice : Setting → Type
  | .lenient => Bool
  | .sink => WarningSink
  | .finisher => Finisher
  | .keys => KeyStrategy

/-- The change of this setting alone. -/
def change : (setting : Setting) → setting.Choice → Session.Changes
  | .lenient, choice => { lenient := some choice }
  | .sink, choice => { sink := some choice }
  | .finisher, choice => { finisher := some choice }
  | .keys, choice => { keys := some choice }

end Setting

namespace Configuration

def choice (config : Configuration) : (setting : Setting) → setting.Choice
  | .lenient => config.lenient
  | .sink => config.sink
  | .finisher => config.finisher
  | .keys => config.keys

/-- What an application finds before it has set anything. -/
def initial : Configuration := { catalogue := 0 }

/-- The configuration with changes made to it, and a fresh catalogue unless they bring one along. -/
def changed (config : Configuration) (changes : Session.Changes) (fresh : CatalogueId) :
    Configuration where
  lenient := changes.lenient.getD config.lenient
  sink := changes.sink.getD config.sink
  finisher := changes.finisher.getD config.finisher
  keys := changes.keys.getD config.keys
  catalogue := changes.catalogue.getD fresh

variable {config : Configuration} {setting other : Setting} {fresh : CatalogueId}

theorem choice_changed_self {choice : setting.Choice} :
    (config.changed (setting.change choice) fresh).choice setting = choice := by
  cases setting <;> rfl

theorem choice_changed_of_ne {choice : other.Choice} (differs : other ≠ setting) :
    (config.changed (other.change choice) fresh).choice setting = config.choice setting := by
  cases setting <;> cases other <;> first | rfl | exact absurd rfl differs

theorem catalogue_changed {choice : setting.Choice} :
    (config.changed (setting.change choice) fresh).catalogue = fresh := by
  cases setting <;> rfl

end Configuration

namespace World

variable {world before after : World} {config : Configuration} {types : Catalogue} {id number : Nat}

def withConfiguration (world : World) (config : Configuration) : World :=
  { world with configs := world.configs.push config }

def withCatalogue (world : World) (types : Catalogue) : World :=
  { world with catalogues := world.catalogues.push types }

theorem catalogue_withCatalogue : (world.withCatalogue types).catalogue number =
    if number = world.catalogues.size then types else world.catalogue number :=
  catalogue_push

/-- Catalogues come to be and take types in, one of them at most; none loses a type. -/
structure Grows (before after : World) (enlarged : Option CatalogueId) : Prop where
  size : before.catalogues.size ≤ after.catalogues.size
  kept : ∀ number < before.catalogues.size, enlarged ≠ some number →
    after.catalogue number = before.catalogue number
  held : ∀ number < before.catalogues.size, ∀ type ∈ before.catalogue number,
    type ∈ after.catalogue number

theorem Grows.of_eq {enlarged : Option CatalogueId} (same : after.catalogues = before.catalogues) :
    before.Grows after enlarged := by
  have equal (number : Nat) : after.catalogue number = before.catalogue number := by
    simp only [World.catalogue, same]
  exact ⟨by rw [same], fun number _ _ => equal number,
    fun number _ type member => (equal number).symm ▸ member⟩

theorem Grows.of_push {enlarged : Option CatalogueId}
    (same : after.catalogues = before.catalogues.push types) : before.Grows after enlarged := by
  have equal {number : Nat} (old : number < before.catalogues.size) :
      after.catalogue number = before.catalogue number := by
    simp [World.catalogue, same, Array.getElem?_push, Nat.ne_of_lt old]
  refine ⟨by simp [same], fun number old _ => equal old, fun number old type member => ?_⟩
  rw [equal old]
  exact member

theorem Grows.of_set {type : ValueType}
    (same : after.catalogues =
      before.catalogues.setIfInBounds number ((before.catalogue number).insert type)) :
    before.Grows after (some number) := by
  have equal (other : Nat) : after.catalogue other =
      if number = other ∧ other < before.catalogues.size then (before.catalogue number).insert type
      else before.catalogue other := by
    rw [← catalogue_set]
    simp only [World.catalogue, same]
  refine ⟨by simp [same], fun other _ differs => ?_, fun other _ held member => ?_⟩
  · have apart : number ≠ other := fun equal => differs (congrArg some equal)
    simp [equal, apart]
  · rw [equal other]
    split
    next target =>
      obtain ⟨rfl, _⟩ := target
      exact (Catalogue.insert_perm type _).mem_iff.mpr (List.mem_cons_of_mem type member)
    next => exact member

end World

namespace Session

open Act Catalogue

/-- What an application does about configurations: it makes catalogues, makes configurations and
derives them from others, installs one of them, sets what is in force where no configuration is
named, and registers types with the catalogue in force or with that of a configuration. -/
inductive Setup where
  | collect (types : List ValueType)
  | configure (chosen : Changes)
  | derive (id : ConfigurationId) (changes : Changes)
  | setDefault (id : ConfigurationId)
  | choose (setting : Setting) (choice : setting.Choice)
  | addType (type : ValueType)
  | register (id : ConfigurationId) (type : ValueType)

namespace Setup

def act : Setup → Act Unit
  | .collect types => forget (newCatalogue (Catalogue.ofList types))
  | .configure chosen => forget (Session.configure chosen)
  | .derive id changes => forget (Session.derive id changes)
  | .setDefault id => forget (Session.setDefault id)
  | .choose setting choice => changeDefault (setting.change choice)
  | .addType type => do Session.register (← current).default type
  | .register id type => Session.register id type

/-- The configuration that the step makes, if it makes one. -/
def made? (world : World) : Setup → Option Configuration
  | .configure chosen => some (Configuration.initial.changed chosen world.catalogues.size)
  | .derive id changes => some ((world.config id).changed changes world.catalogues.size)
  | .choose setting choice =>
      some ((world.config world.default).changed (setting.change choice) world.catalogues.size)
  | _ => none

/-- The catalogue that is handed to the configuration that the step makes. -/
def handed? : Setup → Option CatalogueId
  | .configure changes | .derive _ changes => changes.catalogue
  | _ => none

/-- The catalogue that the step registers a type with. -/
def registersWith? (world : World) : Setup → Option CatalogueId
  | .addType _ => some (world.config world.default).catalogue
  | .register id _ => some (world.config id).catalogue
  | _ => none

/-- The default configuration from this step on. -/
def installs (world : World) : Setup → ConfigurationId
  | .setDefault id => id
  | .choose .. => world.configs.size
  | _ => world.default

/-- The step has a say in what is in force for the setting. -/
def Settles (setting : Setting) : Setup → Prop
  | .setDefault _ => True
  | .choose other _ => other = setting
  | _ => False

/-- The configurations and catalogues that the step names are there. -/
def Known (world : World) : Setup → Prop
  | .configure chosen => ∀ number ∈ chosen.catalogue, number < world.catalogues.size
  | .derive id changes => id < world.configs.size ∧
      ∀ number ∈ changes.catalogue, number < world.catalogues.size
  | .setDefault id | .register id _ => id < world.configs.size
  | .collect _ | .choose .. | .addType _ => True

end Setup

section Making

variable {before after : Session} {id : ConfigurationId} {chosen changes : Changes}
  {types : Catalogue}

theorem newCatalogue_copy (descending : types.Descending) {result : Except Fault CatalogueId}
    (ended : (newCatalogue types.copy).Ends before result after) :
    result = .ok before.world.catalogues.size ∧ after.world = before.world.withCatalogue types := by
  obtain ⟨last, copied⟩ := descending.copy before.trace
  rcases newCatalogue_ends ended with ⟨made, trace, done, built, rfl⟩ | ⟨_, _, _, broke, _⟩
  · obtain ⟨rfl, _⟩ := built.unique copied
    exact ⟨done, rfl⟩
  · exact absurd broke copied.not_breaks

theorem configure_ends {result : Except Fault ConfigurationId}
    (ended : (Session.configure chosen).Ends before result after) :
    after.world = World.withConfiguration
      (if chosen.catalogue.isSome then before.world
        else before.world.withCatalogue Catalogue.builtIn)
      (Configuration.initial.changed chosen before.world.catalogues.size) := by
  cases handed : chosen.catalogue with
  | some number =>
      simp only [Session.configure, handed, pure_bind] at ended
      obtain ⟨_, rfl⟩ := newConfiguration_ends ended
      simp [World.withConfiguration, Configuration.changed, Configuration.initial, handed]
  | none =>
      simp only [Session.configure, handed] at ended
      rcases ends_bind.mp ended with ⟨number, middle, collected, ended⟩ | ⟨_, broke, _⟩
      · obtain ⟨same, stocked⟩ := newCatalogue_copy descending_builtIn collected
        cases same
        obtain ⟨_, rfl⟩ := newConfiguration_ends ended
        simp [World.withConfiguration, Configuration.changed, Configuration.initial, handed,
          stocked]
      · cases (newCatalogue_copy descending_builtIn broke).1

/-- A configuration can always be derived: catalogues in order copy. -/
theorem derive_ends (ordered : before.world.Ordered) {result : Except Fault ConfigurationId}
    (ended : (Session.derive id changes).Ends before result after) :
    result = .ok before.world.configs.size ∧
      after.world = World.withConfiguration
        (before.world.withCatalogue (before.world.catalogue (before.world.config id).catalogue))
        ((before.world.config id).changed changes before.world.catalogues.size) := by
  replace ended := ends_bind_current.mp ended
  rcases ends_bind.mp ended with ⟨copy, middle, copied, ended⟩ | ⟨_, broke, _⟩
  · obtain ⟨same, stocked⟩ := newCatalogue_copy (ordered _) copied
    cases same
    obtain ⟨done, rfl⟩ := newConfiguration_ends ended
    simp only [stocked] at done ⊢
    exact ⟨done, rfl⟩
  · cases (newCatalogue_copy (ordered _) broke).1

theorem changeDefault_ends (ordered : before.world.Ordered) {result : Except Fault Unit}
    (ended : (changeDefault changes).Ends before result after) :
    after.world =
      { World.withConfiguration
          (before.world.withCatalogue
            (before.world.catalogue (before.world.config before.world.default).catalogue))
          ((before.world.config before.world.default).changed changes
            before.world.catalogues.size) with
        default := before.world.configs.size } := by
  replace ended := ends_bind_current.mp ended
  rcases ends_bind.mp ended with ⟨made, middle, derived, ended⟩ | ⟨_, broke, _⟩
  · obtain ⟨same, grown⟩ := derive_ends ordered derived
    cases same
    rcases ends_bind.mp ended with ⟨_, last, installed, ended⟩ | ⟨_, broke, _⟩
    · obtain ⟨_, rfl⟩ := ends_pure.mp ended
      rw [setDefault_ends installed, grown]
    · rw [setDefault_ends broke, grown]
  · cases (derive_ends ordered broke).1

end Making

namespace Setup

/-- What a step comes to: at most one more configuration, the default as it is installed, and
catalogues that have grown. -/
structure Makes (step : Setup) (before after : World) : Prop where
  configs : after.configs = before.configs ++ (step.made? before).toArray
  default : after.default = step.installs before
  grows : before.Grows after (step.registersWith? before)
  fresh : (step.made? before).isSome → step.handed? = none →
    before.catalogues.size < after.catalogues.size
  copied : ∀ setting choice, step = .choose setting choice →
    after.catalogue before.catalogues.size =
      before.catalogue (before.config before.default).catalogue
  ordered : after.Ordered

section Steps

variable {step : Setup} {before after : Session} {result : Except Fault Unit}

/-- A step that makes no configuration and sets no default may still bring a catalogue. -/
theorem Makes.of_catalogues (none : step.made? before.world = none)
    (same : step.installs before.world = before.world.default)
    (configs : after.world.configs = before.world.configs)
    (default : after.world.default = before.world.default)
    (grows : before.world.Grows after.world (step.registersWith? before.world))
    (ordered : after.world.Ordered) : step.Makes before.world after.world where
  configs := by simp [none, configs]
  default := default.trans same.symm
  grows := grows
  fresh made _ := by simp [none] at made
  copied setting choice choosing := by
    subst choosing
    cases none
  ordered := ordered

/-- The configuration that a step makes, with a catalogue of its own. -/
theorem Makes.of_fresh {world : World} {config : Configuration} {types : Catalogue}
    (ordered : world.Ordered) (made : step.made? world = some config)
    (descending : types.Descending)
    (copied : ∀ setting choice, step = .choose setting choice →
      types = world.catalogue (world.config world.default).catalogue) :
    step.Makes world
      { (world.withCatalogue types).withConfiguration config with
        default := step.installs world } where
  configs := by simp [made, World.withConfiguration, World.withCatalogue]
  default := rfl
  grows := World.Grows.of_push rfl
  fresh _ _ := by simp [World.withConfiguration, World.withCatalogue]
  copied setting choice choosing := by
    rw [← copied setting choice choosing]
    exact World.catalogue_withCatalogue.trans (if_pos rfl)
  ordered := (ordered.push descending).congr rfl

theorem makes_of_register {id : ConfigurationId} {type : ValueType}
    (ordered : before.world.Ordered)
    (none : step.made? before.world = none)
    (same : step.installs before.world = before.world.default)
    (registers : step.registersWith? before.world = some (before.world.config id).catalogue)
    (ended : (Session.register id type).Ends before result after) :
    step.Makes before.world after.world := by
  have orderly := ordered_of_register ordered ended
  rcases register_ends ended with ⟨types, trace, _, added, rfl⟩ | ⟨_, _, _, _, rfl⟩
  · obtain ⟨_, rfl, _⟩ := add_yields.mp added
    exact .of_catalogues none same rfl rfl (registers ▸ World.Grows.of_set rfl) orderly
  · exact .of_catalogues none same rfl rfl (World.Grows.of_eq rfl) ordered

theorem makes_of_ends (ordered : before.world.Ordered) (ended : step.act.Ends before result after) :
    step.Makes before.world after.world := by
  cases step with
  | collect types =>
      obtain ⟨_, collected⟩ := ends_of_forget ended
      have orderly := ordered_of_newCatalogue ordered collected
      rcases newCatalogue_ends collected with ⟨made, trace, _, _, rfl⟩ | ⟨_, _, _, _, rfl⟩
      · exact .of_catalogues rfl rfl rfl rfl (World.Grows.of_push rfl) orderly
      · exact .of_catalogues rfl rfl rfl rfl (World.Grows.of_eq rfl) ordered
  | configure chosen =>
      obtain ⟨_, configured⟩ := ends_of_forget ended
      rw [configure_ends configured]
      cases handed : chosen.catalogue with
      | some number =>
          exact {
            configs := Array.push_eq_append ..
            default := rfl
            grows := World.Grows.of_eq rfl
            fresh := fun _ bare => by cases handed.symm.trans bare
            copied := fun _ _ choosing => by cases choosing
            ordered := ordered.congr rfl }
      | none =>
          exact .of_fresh ordered rfl descending_builtIn fun _ _ choosing => by cases choosing
  | derive id changes =>
      obtain ⟨_, derived⟩ := ends_of_forget ended
      rw [(derive_ends ordered derived).2]
      exact .of_fresh ordered rfl (ordered _) fun _ _ choosing => by cases choosing
  | setDefault id =>
      obtain ⟨_, installed⟩ := ends_of_forget ended
      rw [setDefault_ends installed]
      exact {
        configs := by simp [made?]
        default := rfl
        grows := World.Grows.of_eq rfl
        fresh := fun made _ => by cases made
        copied := fun _ _ choosing => by cases choosing
        ordered := ordered.congr rfl }
  | choose setting choice =>
      rw [changeDefault_ends ordered ended]
      exact .of_fresh ordered rfl (ordered _) fun _ _ _ => rfl
  | addType type =>
      replace ended := ends_bind_current.mp ended
      exact makes_of_register ordered rfl rfl rfl ended
  | register id type => exact makes_of_register ordered rfl rfl rfl ended

end Steps

end Setup

end Session

namespace World

/-- What is in force where no configuration is named. -/
def inForce (world : World) (setting : Setting) : setting.Choice :=
  (world.config world.default).choice setting

/-- The types of the catalogue in force. -/
def typesInForce (world : World) : Catalogue :=
  world.catalogue (world.config world.default).catalogue

/-- The default configuration is there, and so are the catalogues of all configurations. -/
structure Complete (world : World) : Prop where
  ordered : world.Ordered
  default : world.default < world.configs.size
  held : ∀ id < world.configs.size, (world.config id).catalogue < world.catalogues.size

end World

namespace Session

open Act Catalogue

namespace Setup

theorem catalogue_of_made {step : Setup} {world : World} {config : Configuration}
    (made : step.made? world = some config) :
    config.catalogue = step.handed?.getD world.catalogues.size := by
  cases step with
  | configure chosen =>
      cases made
      rfl
  | derive id changes =>
      cases made
      rfl
  | choose setting choice =>
      cases made
      exact Configuration.catalogue_changed
  | _ => cases made

theorem handed_lt {step : Setup} {world : World} {number : CatalogueId} (known : step.Known world)
    (handed : step.handed? = some number) : number < world.catalogues.size := by
  cases step with
  | configure chosen => exact known number handed
  | derive id changes => exact known.2 number handed
  | _ => cases handed

namespace Makes

variable {step : Setup} {before after : World} {id : Nat} {config : Configuration}
  {setting : Setting}

theorem size_le (makes : step.Makes before after) : before.configs.size ≤ after.configs.size := by
  simp [makes.configs]

theorem config_of_lt (makes : step.Makes before after) (old : id < before.configs.size) :
    after.config id = before.config id := by
  simp only [World.config, makes.configs, Array.getElem?_append_left old]

theorem config_of_made (makes : step.Makes before after) (made : step.made? before = some config) :
    after.config before.configs.size = config := by
  simp [World.config, makes.configs, made]

theorem id_cases (makes : step.Makes before after) (here : id < after.configs.size) :
    id < before.configs.size ∨
      id = before.configs.size ∧ step.made? before = some (after.config id) := by
  rcases Nat.lt_or_ge id before.configs.size with old | fresh
  · exact .inl old
  · right
    cases made : step.made? before with
    | none =>
        have size : after.configs.size = before.configs.size := by simp [makes.configs, made]
        omega
    | some config =>
        have size : after.configs.size = before.configs.size + 1 := by simp [makes.configs, made]
        obtain rfl : id = before.configs.size := by omega
        exact ⟨rfl, congrArg some (makes.config_of_made made).symm⟩

/-- A step keeps the world complete: what it installs and what it hands on is there. -/
theorem complete (makes : step.Makes before after) (complete : before.Complete)
    (known : step.Known before) : after.Complete where
  ordered := makes.ordered
  default := by
    rw [makes.default]
    have enough := makes.size_le
    have inside := complete.default
    cases step with
    | setDefault id => exact Nat.lt_of_lt_of_le known enough
    | choose setting choice =>
        have size : after.configs.size = before.configs.size + 1 := by simp [makes.configs, made?]
        rw [installs, size]
        exact Nat.lt_succ_self _
    | _ => exact Nat.lt_of_lt_of_le inside enough
  held := by
    intro id here
    have grown := makes.grows.size
    rcases makes.id_cases here with old | ⟨rfl, made⟩
    · rw [makes.config_of_lt old]
      exact Nat.lt_of_lt_of_le (complete.held id old) grown
    · rw [catalogue_of_made made]
      cases handed : step.handed? with
      | some number => exact Nat.lt_of_lt_of_le (handed_lt known handed) grown
      | none => exact makes.fresh (by simp [made]) handed

/-- A step that has no say in a setting leaves it: a default that is made anew takes it over. -/
theorem inForce_of_idle (makes : step.Makes before after) (complete : before.Complete)
    (idle : ¬ step.Settles setting) : after.inForce setting = before.inForce setting := by
  have standing (same : step.installs before = before.default) :
      after.inForce setting = before.inForce setting := by
    rw [World.inForce, makes.default, same, makes.config_of_lt complete.default, World.inForce]
  cases step with
  | setDefault id => exact absurd trivial idle
  | choose other choice =>
      have made : after.config before.configs.size =
          (before.config before.default).changed (other.change choice) before.catalogues.size :=
        makes.config_of_made rfl
      rw [World.inForce, makes.default, installs, made]
      exact Configuration.choice_changed_of_ne idle
  | _ => exact standing rfl

theorem inForce_of_choose {choice : setting.Choice}
    (makes : (Setup.choose setting choice).Makes before after) :
    after.inForce setting = choice := by
  have made : after.config before.configs.size =
      (before.config before.default).changed (setting.change choice) before.catalogues.size :=
    makes.config_of_made rfl
  rw [World.inForce, makes.default, installs, made]
  exact Configuration.choice_changed_self

/-- Types in force stay in force under every step but the installation of a configuration: a default
that is made anew gets a copy of the catalogue. -/
theorem typesInForce_held {type : ValueType} (makes : step.Makes before after)
    (complete : before.Complete) (stays : ∀ id, step ≠ .setDefault id)
    (registered : type ∈ before.typesInForce) : type ∈ after.typesInForce := by
  have standing (same : step.installs before = before.default) : type ∈ after.typesInForce := by
    rw [World.typesInForce, makes.default, same, makes.config_of_lt complete.default]
    exact makes.grows.held _ (complete.held _ complete.default) type registered
  cases step with
  | setDefault id => exact absurd rfl (stays id)
  | choose setting choice =>
      have made : after.config before.configs.size =
          (before.config before.default).changed (setting.change choice) before.catalogues.size :=
        makes.config_of_made rfl
      rw [World.typesInForce, makes.default, installs, made, Configuration.catalogue_changed,
        makes.copied setting choice rfl]
      exact registered
  | _ => exact standing rfl

end Makes

end Setup

/-- The session after steps of setup, the last of them first. -/
def setUp : List Setup → Session
  | [] => start
  | step :: earlier => (step.act.run.run (setUp earlier)).2

/-- Every step names what is there when it is taken. -/
def Known : List Setup → Prop
  | [] => True
  | step :: earlier => step.Known (setUp earlier).world ∧ Known earlier

section Course

variable {later earlier steps : List Setup} {step : Setup} {id one two : Nat} {setting : Setting}

theorem ends_setUp (step : Setup) (earlier : List Setup) :
    step.act.Ends (setUp earlier) (step.act.run.run (setUp earlier)).1
      (setUp (step :: earlier)) := rfl

theorem Known.suffix (known : Known (later ++ earlier)) : Known earlier := by
  induction later with
  | nil => exact known
  | cons step later ih => exact ih known.2

theorem complete_start : start.world.Complete where
  ordered := by
    intro id
    cases id with
    | zero => exact descending_builtIn
    | succ id => exact List.Pairwise.nil
  default := Nat.zero_lt_one
  held id here := by
    obtain rfl : id = 0 := Nat.lt_one_iff.mp here
    exact Nat.zero_lt_one

theorem complete_setUp (known : Known steps) : (setUp steps).world.Complete := by
  induction steps with
  | nil => exact complete_start
  | cons step earlier ih =>
      have complete := ih known.2
      have makes := Setup.makes_of_ends complete.ordered (ends_setUp step earlier)
      exact makes.complete complete known.1

theorem makes_setUp (known : Known (step :: earlier)) :
    step.Makes (setUp earlier).world (setUp (step :: earlier)).world :=
  Setup.makes_of_ends (complete_setUp known.2).ordered (ends_setUp step earlier)

theorem config_kept (known : Known (later ++ earlier))
    (old : id < (setUp earlier).world.configs.size) :
    id < (setUp (later ++ earlier)).world.configs.size ∧
      (setUp (later ++ earlier)).world.config id = (setUp earlier).world.config id := by
  induction later with
  | nil => exact ⟨old, rfl⟩
  | cons step later ih =>
      obtain ⟨here, same⟩ := ih known.2
      have makes := makes_setUp known
      exact ⟨Nat.lt_of_lt_of_le here makes.size_le, (makes.config_of_lt here).trans same⟩

theorem inForce_kept (known : Known (later ++ earlier))
    (idle : ∀ step ∈ later, ¬ step.Settles setting) :
    (setUp (later ++ earlier)).world.inForce setting = (setUp earlier).world.inForce setting := by
  induction later with
  | nil => rfl
  | cons step later ih =>
      have same := ih known.2 fun other member => idle other (List.mem_cons_of_mem step member)
      have stays := (makes_setUp known).inForce_of_idle (complete_setUp known.2)
        (idle step (by simp))
      exact stays.trans same

theorem typesInForce_kept (known : Known (later ++ earlier))
    (stays : ∀ id, .setDefault id ∉ later) {type : ValueType}
    (registered : type ∈ (setUp earlier).world.typesInForce) :
    type ∈ (setUp (later ++ earlier)).world.typesInForce := by
  induction later with
  | nil => exact registered
  | cons step later ih =>
      have held := ih known.2 fun id member => stays id (List.mem_cons_of_mem step member)
      refine (makes_setUp known).typesInForce_held (complete_setUp known.2) (fun id same => ?_) held
      exact stays id (by simp [same])

/-- A type that has been registered with the default configuration is in force. -/
theorem typesInForce_of_addType {type : ValueType} (known : Known (.addType type :: earlier))
    (added : (Setup.addType type).act.Ends (setUp earlier) (.ok ())
      (setUp (.addType type :: earlier))) :
    type ∈ (setUp (.addType type :: earlier)).world.typesInForce := by
  have complete := complete_setUp known.2
  have makes := makes_setUp known
  have here := complete.held _ complete.default
  have ended := ends_bind_current.mp added
  rcases register_cases ended with ⟨⟨_, _, _, refused⟩, _⟩ | ⟨_, _, stored⟩
  · cases refused
  · have standing : (setUp (.addType type :: earlier)).world.default =
        (setUp earlier).world.default := makes.default
    rw [World.typesInForce, standing, makes.config_of_lt complete.default, stored,
      if_pos ⟨rfl, here⟩]
    exact (insert_perm type _).mem_iff.mpr (by simp)

/-- The step made the configuration. -/
def MadeBy (id : ConfigurationId) (step : Setup) (earlier : List Setup) : Prop :=
  (setUp earlier).world.configs.size = id ∧ id < (setUp (step :: earlier)).world.configs.size

/-- Two configurations have a catalogue in common only where the later one was given it. -/
theorem handed_of_shared (known : Known steps) (order : one < two)
    (here : two < (setUp steps).world.configs.size)
    (shared : ((setUp steps).world.config one).catalogue =
      ((setUp steps).world.config two).catalogue) :
    ∃ step earlier, step :: earlier <:+ steps ∧ MadeBy two step earlier ∧
      step.handed? = some ((setUp steps).world.config one).catalogue := by
  induction steps with
  | nil =>
      have size : two < 1 := here
      omega
  | cons step earlier ih =>
      have makes := makes_setUp known
      have complete := complete_setUp known.2
      rcases makes.id_cases here with old | ⟨rfl, made⟩
      · have alike := makes.config_of_lt (Nat.lt_trans order old)
        rw [alike, makes.config_of_lt old] at shared
        obtain ⟨giver, before, within, by_, handed⟩ := ih known.2 old shared
        exact ⟨giver, before, within.trans (List.suffix_cons step earlier), by_, alike ▸ handed⟩
      · refine ⟨step, earlier, List.suffix_refl _, ⟨rfl, here⟩, ?_⟩
        have got := Setup.catalogue_of_made made
        have held := complete.held one order
        rw [makes.config_of_lt order] at shared ⊢
        cases handed : step.handed? with
        | some number => rw [shared, got, handed, Option.getD_some]
        | none =>
            rw [handed, Option.getD_none] at got
            exact absurd (shared.trans got) (Nat.ne_of_lt held)

end Course

/-- What configurations are to each other after steps of setup. -/
structure Isolated (steps : List Setup) : Prop where
  /-- No configuration ever changes. -/
  unchanged : ∀ earlier, earlier <:+ steps → ∀ id < (setUp earlier).world.configs.size,
    (setUp steps).world.config id = (setUp earlier).world.config id
  /-- The types of a configuration change with a registration only, one with the catalogue that it
  holds; none is lost. -/
  enlarged : ∀ step earlier, step :: earlier <:+ steps → ∀ id < (setUp earlier).world.configs.size,
    let held := ((setUp earlier).world.config id).catalogue
    let before := (setUp earlier).world.catalogue held
    let after := (setUp (step :: earlier)).world.catalogue held
    before ⊆ after ∧ (after ≠ before → step.registersWith? (setUp earlier).world = some held)
  /-- A catalogue is shared only with a configuration that was given it. -/
  shared : ∀ one two, one < two → two < (setUp steps).world.configs.size →
    ((setUp steps).world.config one).catalogue = ((setUp steps).world.config two).catalogue →
    ∃ step earlier, step :: earlier <:+ steps ∧ MadeBy two step earlier ∧
      step.handed? = some ((setUp steps).world.config one).catalogue
  /-- What was chosen last is in force. -/
  chosen : ∀ setting later (choice : setting.Choice) earlier,
    steps = later ++ .choose setting choice :: earlier →
    (∀ step ∈ later, ¬ step.Settles setting) → (setUp steps).world.inForce setting = choice
  /-- What has not been chosen since a configuration was installed is as in that configuration. -/
  installed : ∀ setting later id earlier, steps = later ++ .setDefault id :: earlier →
    (∀ step ∈ later, ¬ step.Settles setting) →
    (setUp steps).world.inForce setting = ((setUp steps).world.config id).choice setting
  /-- What has never been chosen is as at the start. -/
  untouched : ∀ setting, (∀ step ∈ steps, ¬ step.Settles setting) →
    (setUp steps).world.inForce setting = Configuration.initial.choice setting
  /-- Types registered since a configuration was installed are in force. -/
  kept : ∀ later type earlier, steps = later ++ .addType type :: earlier →
    (Setup.addType type).act.Ends (setUp earlier) (.ok ()) (setUp (.addType type :: earlier)) →
    (∀ id, .setDefault id ∉ later) → type ∈ (setUp steps).world.typesInForce

/-- Whatever an application sets up, configurations stay apart: none ever changes, they share no
catalogue but what they are given, and what an application chooses and registers is in force until
another configuration is installed. -/
theorem configurations_stay_apart {steps : List Setup} (known : Known steps) : Isolated steps where
  unchanged := by
    rintro earlier ⟨later, rfl⟩ id old
    exact (config_kept known old).2
  enlarged := by
    rintro step earlier ⟨later, rfl⟩ id old held before after
    have makes := makes_setUp known.suffix
    have here := (complete_setUp known.suffix.2).held id old
    refine ⟨makes.grows.held held here, fun differs => ?_⟩
    by_contra elsewhere
    exact differs (makes.grows.kept held here elsewhere)
  shared one two order here alike := handed_of_shared known order here alike
  chosen := by
    rintro setting later choice earlier rfl idle
    exact (inForce_kept known idle).trans (makes_setUp known.suffix).inForce_of_choose
  installed := by
    rintro setting later id earlier rfl idle
    have makes := makes_setUp known.suffix
    have there : id < (setUp (.setDefault id :: earlier)).world.configs.size :=
      Nat.lt_of_lt_of_le known.suffix.1 makes.size_le
    rw [inForce_kept known idle, (config_kept known there).2, World.inForce, makes.default]
    rfl
  untouched := by
    intro setting idle
    have known : Known (steps ++ []) := by simpa using known
    have same := inForce_kept known idle
    rw [List.append_nil] at same
    exact same
  kept := by
    rintro later type earlier rfl added stays
    exact typesInForce_kept known stays (typesInForce_of_addType known.suffix added)

end Session

namespace Tenants

open Session

/-- A second configuration is given the catalogue of the first, big integers are registered, and
then the application turns strict. -/
def steps : List Setup :=
  [.choose .lenient false, .addType .bigInteger, .derive 0 { catalogue := some 0 }]

theorem known : Known steps := by
  refine ⟨trivial, trivial, ⟨Nat.zero_lt_one, fun number handed => ?_⟩, trivial⟩
  cases handed
  exact Nat.zero_lt_one

theorem added : (Setup.addType .bigInteger).act.Ends (setUp (steps.drop 2)) (.ok ())
    (setUp (steps.drop 1)) := rfl

end Tenants

/-- The second configuration holds the catalogue it was given; a strict configuration with a
catalogue of its own is in force, which has the big integers; and the first configuration is as it
was. -/
theorem configurations_stay_apart_tenants :
    Session.Known Tenants.steps ∧
    (Session.setUp Tenants.steps).world.inForce .lenient = false ∧
    .bigInteger ∈ (Session.setUp Tenants.steps).world.typesInForce ∧
    (Session.setUp Tenants.steps).world.config 0 = Configuration.initial ∧
    ∃ step earlier, step :: earlier <:+ Tenants.steps ∧ Session.MadeBy 1 step earlier ∧
      step.handed? = some 0 := by
  have isolated := Session.configurations_stay_apart Tenants.known
  refine ⟨Tenants.known, ?_, ?_, ?_, ?_⟩
  · exact isolated.chosen .lenient [] false _ rfl (by simp)
  · refine isolated.kept (Tenants.steps.take 1) .bigInteger _ rfl Tenants.added ?_
    simp [Tenants.steps]
  · exact isolated.unchanged [] List.nil_suffix 0 Nat.zero_lt_one
  · exact isolated.shared 0 1 Nat.zero_lt_one (by decide) rfl

end Exemplar
