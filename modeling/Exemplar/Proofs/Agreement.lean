import Exemplar.Proofs.Documents
import Mathlib.Data.Multiset.ZeroCons

/-!
What it means for values to be equal. Values without parts are equal if they stand for the same,
numbers of all kinds by their place on the line; compound values if their parts are, one by one,
sets, mappings and records in any order. Told level by level this is an equivalence, numbers that are
none and endless values apart. The test for equality looks for counterparts from one side only and
takes the first that it finds; it comes to the same because members of sets, keys and names differ
from each other.
-/

namespace Exemplar

/-- A place on the line of numbers, whatever a number at that place is held as. -/
inductive Spot where
  | bottom
  | at (value : ℚ)
  | top

def Number.Binary64.Point.spot : Number.Binary64.Point → Spot
  | .bottom => .bottom
  | .at place => .at place.toRat
  | .top => .top

def Quantity.spot? : Quantity → Option Spot
  | .nan => none
  | .point place => some place.spot

theorem Number.Binary64.Point.same_iff {left right : Number.Binary64.Point} :
    left.same right = true ↔ left.spot = right.spot := by
  cases left <;> cases right <;> simp [same, spot, Number.Dyadic.same_iff]

theorem Quantity.same_iff {left right : Quantity} :
    left.same right = true ↔ ∃ spot, left.spot? = some spot ∧ right.spot? = some spot := by
  cases left with
  | nan => simp [same, spot?]
  | point first =>
      cases right with
      | nan => simp [same, spot?]
      | point second =>
          simp only [same, spot?, Number.Binary64.Point.same_iff, Option.some.injEq]
          exact ⟨fun equal => ⟨_, equal, rfl⟩, fun ⟨_, one, other⟩ => one.trans other.symm⟩

/-- What a value without parts stands for. -/
inductive Atom where
  | null
  | number (spot : Spot)
  | text (text : String)
  | bytes (bytes : List UInt8)
  | date (date : Date)
  | mode (mode : Mode)
  | pattern (source : String) (options : Regex.Options)
  | failure (fail : Failure)

/-- Values whose elements have an order. -/
inductive Row where
  | list
  | tuple
  | deque

def Row.made : Row → List Value → Value
  | .list => .list
  | .tuple => .tuple
  | .deque => .deque

/-- What a shape is made of, so far as equality can tell. -/
inductive Layout where
  | atom (content : Atom)
  | row (kind : Row) (elements : List Value)
  | members (members : List Value)
  | entries (entries : List (Value × Value))
  | fields (number : Nat) (fields : Named Value)

namespace Value

/-- Nothing for compound values, and for numbers that are none. -/
def atom? : Value → Option Atom
  | .null => some .null
  | .text value => some (.text value)
  | .bytes value => some (.bytes value)
  | .date value => some (.date value)
  | .mode value => some (.mode value)
  | .pattern value => some (.pattern value.source value.options)
  | .failure value => some (.failure value)
  | value => (value.quantity?.bind Quantity.spot?).map .number

def layout? : Value → Option Layout
  | .list elements => some (.row .list elements)
  | .tuple elements => some (.row .tuple elements)
  | .deque elements => some (.row .deque elements)
  | .set members | .frozenSet members => some (.members members)
  | .mapping entries => some (.entries entries)
  | .record recordClass fields => some (.fields recordClass.number fields)
  | value => value.atom?.map .atom

variable {value : Value} {quantity : Quantity} {content : Atom} {elements : List Value}

theorem atom?_of_quantity (counts : value.quantity? = some quantity) :
    value.atom? = quantity.spot?.map .number := by
  cases value <;> simp_all [quantity?, atom?]

theorem quantity?_of_number {spot : Spot} (single : value.atom? = some (.number spot)) :
    ∃ quantity, value.quantity? = some quantity ∧ quantity.spot? = some spot := by
  cases value <;> simp_all [atom?, quantity?]

theorem layout?_of_atom (single : value.atom? = some content) :
    value.layout? = some (.atom content) := by
  cases value <;> simp_all [atom?, layout?, quantity?]

theorem atom?_of_layout (laid : value.layout? = some (.atom content)) :
    value.atom? = some content := by
  cases value <;> simp_all [layout?]

theorem eq_of_row {kind : Row} (laid : value.layout? = some (.row kind elements)) :
    value = kind.made elements := by
  cases kind <;> cases value <;> simp_all [layout?, Row.made]

theorem eq_of_members (laid : value.layout? = some (.members elements)) :
    value = .set elements ∨ value = .frozenSet elements := by
  cases value <;> simp_all [layout?]

theorem eq_of_entries {entries : List (Value × Value)}
    (laid : value.layout? = some (.entries entries)) : value = .mapping entries := by
  cases value <;> simp_all [layout?]

theorem eq_of_fields {number : Nat} {fields : Named Value}
    (laid : value.layout? = some (.fields number fields)) :
    ∃ recordClass, recordClass.number = number ∧ value = .record recordClass fields := by
  cases value <;> simp_all [layout?]

end Value

section Counterparts

variable {α : Type} {relation : α → α → Prop} {lefts rights : List α} {one : α}

theorem exists_of_rel (each : Multiset.Rel relation lefts rights) (member : one ∈ lefts) :
    ∃ other ∈ rights, relation one other :=
  Multiset.exists_mem_of_rel_of_mem each member

theorem length_eq_of_rel (each : Multiset.Rel relation lefts rights) :
    lefts.length = rights.length :=
  Multiset.card_eq_card_of_rel each

/-- If each of the first list has a counterpart in the second, which is no longer, and no two of the
first are counterparts of each other, then the two lists correspond in some order. -/
theorem rel_of_counterparts (symmetric : ∀ one other, relation one other → relation other one)
    (transitive : ∀ one other third, relation one other → relation other third →
      relation one third)
    (apart : lefts.Pairwise fun one other => ¬ relation one other)
    (count : lefts.length = rights.length)
    (each : ∀ one ∈ lefts, ∃ other ∈ rights, relation one other) :
    Multiset.Rel relation lefts rights := by
  induction lefts generalizing rights with
  | nil =>
      obtain rfl := List.length_eq_zero_iff.mp count.symm
      exact .zero
  | cons first rest ih =>
      obtain ⟨here, later⟩ := List.pairwise_cons.mp apart
      obtain ⟨found, others⟩ := List.forall_mem_cons.mp each
      obtain ⟨mate, member, mated⟩ := found
      obtain ⟨before, after, rfl⟩ := List.append_of_mem member
      have remaining : ∀ one ∈ rest, ∃ other ∈ before ++ after, relation one other := by
        intro one known
        obtain ⟨other, present, related⟩ := others one known
        -- The counterpart of the first is taken: who shared it would be one of the first's own.
        have free : other ≠ mate := fun same => here one known
          (transitive _ _ _ mated (symmetric _ _ (same ▸ related)))
        refine ⟨other, ?_, related⟩
        simpa [free] using present
      have remain : rest.length = (before ++ after).length := by
        simp only [List.length_cons, List.length_append] at count ⊢
        omega
      have matched := ih later remain remaining
      have order : (↑(before ++ mate :: after) : Multiset α) = mate ::ₘ ↑(before ++ after) :=
        Multiset.coe_eq_coe.mpr List.perm_middle
      rw [order]
      exact .cons mated matched

end Counterparts

namespace Layout

def EntriesAgree (agree : Value → Value → Prop) (one other : Value × Value) : Prop :=
  agree one.1 other.1 ∧ agree one.2 other.2

def FieldsAgree (agree : Value → Value → Prop) (one other : String × Value) : Prop :=
  one.1 = other.1 ∧ agree one.2 other.2

/-- Two layouts agree if the values that they are made of do. -/
inductive Agree (agree : Value → Value → Prop) : Layout → Layout → Prop
  | atom {content} : Agree agree (.atom content) (.atom content)
  | row {kind lefts rights} : List.Forall₂ agree lefts rights →
      Agree agree (.row kind lefts) (.row kind rights)
  | members {lefts rights : List Value} : Multiset.Rel agree lefts rights →
      Agree agree (.members lefts) (.members rights)
  | entries {lefts rights : List (Value × Value)} :
      Multiset.Rel (EntriesAgree agree) lefts rights →
      Agree agree (.entries lefts) (.entries rights)
  | fields {number} {lefts rights : Named Value} :
      Multiset.Rel (FieldsAgree agree) lefts rights →
      Agree agree (.fields number lefts) (.fields number rights)

variable {agree : Value → Value → Prop} {left right third : Layout}

theorem Agree.symm (symmetric : ∀ one other, agree one other → agree other one)
    (agrees : left.Agree agree right) : right.Agree agree left := by
  have turned {α : Type} {relation : α → α → Prop} {lefts rights : Multiset α}
      (symmetric : ∀ one other, relation one other → relation other one)
      (each : Multiset.Rel relation lefts rights) : Multiset.Rel relation rights lefts :=
    Multiset.rel_flip.mp (each.mono fun one _ other _ => symmetric one other)
  cases agrees with
  | atom => exact .atom
  | row each => exact .row (each.flip.imp fun one other => symmetric other one)
  | members each => exact .members (turned symmetric each)
  | entries each =>
      exact .entries (turned (fun _ _ both => ⟨symmetric _ _ both.1, symmetric _ _ both.2⟩) each)
  | fields each =>
      exact .fields (turned (fun _ _ both => ⟨both.1.symm, symmetric _ _ both.2⟩) each)

theorem Agree.trans
    (transitive : ∀ one other third, agree one other → agree other third → agree one third)
    (first : left.Agree agree right) (second : right.Agree agree third) :
    left.Agree agree third := by
  have joined {α : Type} {relation : α → α → Prop} {lefts rights thirds : Multiset α}
      (transitive : ∀ one other third, relation one other → relation other third →
        relation one third)
      (first : Multiset.Rel relation lefts rights) (second : Multiset.Rel relation rights thirds) :
      Multiset.Rel relation lefts thirds :=
    have : IsTrans α relation := ⟨transitive⟩
    first.trans relation second
  have along {lefts rights thirds : List Value} (first : List.Forall₂ agree lefts rights)
      (second : List.Forall₂ agree rights thirds) : List.Forall₂ agree lefts thirds := by
    induction first generalizing thirds with
    | nil =>
        cases second
        exact .nil
    | cons one _ ih =>
        cases second with
        | cons other rest => exact .cons (transitive _ _ _ one other) (ih rest)
  cases first with
  | atom => exact second
  | row one =>
      cases second with
      | row other => exact .row (along one other)
  | members one =>
      cases second with
      | members other => exact .members (joined transitive one other)
  | entries one =>
      cases second with
      | entries other =>
          exact .entries (joined (fun _ _ _ one other =>
            ⟨transitive _ _ _ one.1 other.1, transitive _ _ _ one.2 other.2⟩) one other)
  | fields one =>
      cases second with
      | fields other =>
          exact .fields (joined (fun _ _ _ one other =>
            ⟨one.1.trans other.1, transitive _ _ _ one.2 other.2⟩) one other)

/-- Members, keys and names are each other's counterparts nowhere. -/
def Apart (agree : Value → Value → Prop) : Layout → Prop
  | .members values => values.Pairwise fun one other => ¬ agree one other
  | .entries pairs => pairs.Pairwise fun one other => ¬ agree one.1 other.1
  | .fields _ named => (Named.names named).Nodup
  | _ => True

def parts : Layout → List Value
  | .atom _ => []
  | .row _ values | .members values => values
  | .entries pairs => Value.interleave pairs
  | .fields _ named => named.map (·.2)

theorem Agree.of_parts {layout : Layout} (each : ∀ part ∈ layout.parts, agree part part) :
    layout.Agree agree layout := by
  cases layout with
  | atom content => exact .atom
  | row kind values => exact .row (List.forall₂_same.mpr each)
  | members values => exact .members (Multiset.rel_refl_of_refl_on each)
  | entries pairs =>
      refine .entries (Multiset.rel_refl_of_refl_on fun entry member => ⟨?_, ?_⟩)
      · exact each _ (Value.mem_interleave.mpr ⟨entry, member, .inl rfl⟩)
      · exact each _ (Value.mem_interleave.mpr ⟨entry, member, .inr rfl⟩)
  | fields number named =>
      refine .fields (Multiset.rel_refl_of_refl_on fun field member => ⟨rfl, ?_⟩)
      exact each _ (List.mem_map_of_mem member)

/-- Every value that something agreeing is made of has a counterpart. -/
theorem Agree.inside {part : Value} (agrees : left.Agree agree right) (member : part ∈ left.parts) :
    ∃ other, agree part other := by
  cases agrees with
  | atom => cases member
  | row each =>
      obtain ⟨other, _, agreed⟩ := exists_of_forall₂ each member
      exact ⟨other, agreed⟩
  | members each =>
      obtain ⟨other, _, agreed⟩ := exists_of_rel each member
      exact ⟨other, agreed⟩
  | entries each =>
      obtain ⟨entry, known, rfl | rfl⟩ := Value.mem_interleave.mp member
      · obtain ⟨other, _, agreed, _⟩ := exists_of_rel each known
        exact ⟨other.1, agreed⟩
      · obtain ⟨other, _, _, agreed⟩ := exists_of_rel each known
        exact ⟨other.2, agreed⟩
  | fields each =>
      obtain ⟨field, known, rfl⟩ := List.mem_map.mp member
      obtain ⟨other, _, _, agreed⟩ := exists_of_rel each known
      exact ⟨other.2, agreed⟩

theorem parts_eq {value : Value} {layout : Layout} (laid : value.layout? = some layout) :
    value.parts = layout.parts := by
  cases value <;>
    simp only [Value.layout?, Option.map_eq_some_iff, Option.some.injEq] at laid <;>
    first
    | (subst laid; rfl)
    | (obtain ⟨_, _, rfl⟩ := laid; rfl)

theorem Apart.imp_mem {other : Value → Value → Prop} {layout : Layout}
    (apart : layout.Apart agree)
    (implies : ∀ first ∈ layout.parts, ∀ second ∈ layout.parts, other first second →
      agree first second) : layout.Apart other := by
  cases layout with
  | atom _ | row _ _ => trivial
  | fields _ _ => exact apart
  | members values =>
      exact List.Pairwise.imp_of_mem (fun first second differ same =>
        differ (implies _ first _ second same)) apart
  | entries pairs =>
      refine List.Pairwise.imp_of_mem (fun first second differ same => differ ?_) apart
      exact implies _ (Value.mem_interleave.mpr ⟨_, first, .inl rfl⟩) _
        (Value.mem_interleave.mpr ⟨_, second, .inl rfl⟩) same

end Layout

namespace Heap

section Tests

/-- The test has an answer for the value, whatever it is compared with. -/
def Decides (equal : Comparison) (value : Value) : Prop :=
  ∀ other, ∃ answer, equal value other = some answer

variable {equal : Comparison} {value key : Value} {values lefts rights : List Value}
  {entries : List (Value × Value)} {named others : Named Value}

theorem equalAll_iff : equalAll equal lefts rights = some true ↔
    List.Forall₂ (fun one other => equal one other = some true) lefts rights := by
  induction lefts generalizing rights with
  | nil => cases rights <;> simp [equalAll]
  | cons first rest ih =>
      cases rights with
      | nil => simp [equalAll]
      | cons other others =>
          simp only [equalAll, List.forall₂_cons, ← ih]
          split <;> simp_all

theorem exists_of_equalAny (found : equalAny equal value values = some true) :
    ∃ other ∈ values, equal value other = some true := by
  induction values with
  | nil => cases found
  | cons first rest ih =>
      unfold equalAny at found
      split at found
      next =>
        obtain ⟨other, member, same⟩ := ih found
        exact ⟨other, List.mem_cons_of_mem first member, same⟩
      next => exact ⟨first, by simp, found⟩

/-- Where every comparison has an answer, one that is positive is found. -/
theorem equalAny_of_mem (decides : Decides equal value) {other : Value}
    (member : other ∈ values) (same : equal value other = some true) :
    equalAny equal value values = some true := by
  induction values with
  | nil => cases member
  | cons first rest ih =>
      obtain ⟨answer, decided⟩ := decides first
      cases answer with
      | true => simp [equalAny, decided]
      | false =>
          have later : other ∈ rest := by
            rcases List.mem_cons.mp member with rfl | later
            · simp [decided] at same
            · exact later
          simpa [equalAny, decided] using ih later

theorem equalWithin_iff : equalWithin equal lefts rights = some true ↔
    ∀ one ∈ lefts, equalAny equal one rights = some true := by
  induction lefts with
  | nil => simp [equalWithin]
  | cons first rest ih =>
      simp only [equalWithin, List.forall_mem_cons, ← ih]
      split <;> simp_all

theorem mem_of_entryWith (found : entryWith equal key entries = some (some value)) :
    ∃ other, (other, value) ∈ entries ∧ equal key other = some true := by
  induction entries with
  | nil => cases found
  | cons entry rest ih =>
      obtain ⟨other, held⟩ := entry
      unfold entryWith at found
      split at found
      next same =>
        cases found
        exact ⟨other, by simp, same⟩
      next =>
        obtain ⟨later, member, same⟩ := ih found
        exact ⟨later, List.mem_cons_of_mem _ member, same⟩
      next => cases found

/-- The entry that is found is the one under the key if no other key is equal to it. -/
theorem entryWith_of_mem (decides : Decides equal key)
    (only : entries.Pairwise fun one other =>
      ¬ (equal key one.1 = some true ∧ equal key other.1 = some true))
    {entry : Value × Value} (member : entry ∈ entries) (same : equal key entry.1 = some true) :
    entryWith equal key entries = some (some entry.2) := by
  induction entries with
  | nil => cases member
  | cons first rest ih =>
      obtain ⟨here, later⟩ := List.pairwise_cons.mp only
      rcases List.mem_cons.mp member with rfl | further
      · simp [entryWith, same]
      · obtain ⟨answer, decided⟩ := decides first.1
        cases answer with
        | true => exact absurd ⟨decided, same⟩ (here entry further)
        | false => simpa [entryWith, decided] using ih later further

theorem entriesWithin_iff {pairs : List (Value × Value)} :
    entriesWithin equal entries pairs = some true ↔ ∀ entry ∈ entries, ∃ other,
      entryWith equal entry.1 pairs = some (some other) ∧ equal entry.2 other = some true := by
  induction entries with
  | nil => simp [entriesWithin]
  | cons first rest ih =>
      simp only [entriesWithin, List.forall_mem_cons, ← ih]
      split
      next => simp_all
      next => simp_all
      next => split <;> simp_all

theorem fieldsWithin_iff : fieldsWithin equal named others = some true ↔ ∀ field ∈ named, ∃ other,
    Named.get? field.1 others = some other ∧ equal field.2 other = some true := by
  induction named with
  | nil => simp [fieldsWithin]
  | cons first rest ih =>
      simp only [fieldsWithin, List.forall_mem_cons, ← ih]
      split
      next => simp_all
      next => split <;> simp_all

section Answers

theorem equalAll_decides (decides : ∀ one ∈ lefts, Decides equal one) :
    ∃ answer, equalAll equal lefts rights = some answer := by
  induction lefts generalizing rights with
  | nil => cases rights <;> exact ⟨_, rfl⟩
  | cons first rest ih =>
      rw [List.forall_mem_cons] at decides
      cases rights with
      | nil => exact ⟨_, rfl⟩
      | cons other others =>
          obtain ⟨answer, decided⟩ := decides.1 other
          cases answer with
          | true => simpa [equalAll, decided] using ih decides.2
          | false => exact ⟨false, by simp [equalAll, decided]⟩

theorem equalAny_decides (decides : Decides equal value) :
    ∃ answer, equalAny equal value values = some answer := by
  induction values with
  | nil => exact ⟨_, rfl⟩
  | cons first rest ih =>
      obtain ⟨answer, decided⟩ := decides first
      cases answer with
      | true => exact ⟨true, by simp [equalAny, decided]⟩
      | false => simpa [equalAny, decided] using ih

theorem equalWithin_decides (decides : ∀ one ∈ lefts, Decides equal one) :
    ∃ answer, equalWithin equal lefts rights = some answer := by
  induction lefts with
  | nil => exact ⟨_, rfl⟩
  | cons first rest ih =>
      rw [List.forall_mem_cons] at decides
      obtain ⟨answer, decided⟩ : ∃ answer, equalAny equal first rights = some answer :=
        equalAny_decides decides.1
      cases answer with
      | true => simpa [equalWithin, decided] using ih decides.2
      | false => exact ⟨false, by simp [equalWithin, decided]⟩

theorem entryWith_decides (decides : Decides equal key) :
    ∃ answer, entryWith equal key entries = some answer := by
  induction entries with
  | nil => exact ⟨_, rfl⟩
  | cons entry rest ih =>
      obtain ⟨answer, decided⟩ := decides entry.1
      cases answer with
      | true => exact ⟨some entry.2, by simp [entryWith, decided]⟩
      | false => simpa [entryWith, decided] using ih

theorem entriesWithin_decides {pairs : List (Value × Value)}
    (decides : ∀ entry ∈ entries, Decides equal entry.1 ∧ Decides equal entry.2) :
    ∃ answer, entriesWithin equal entries pairs = some answer := by
  induction entries with
  | nil => exact ⟨_, rfl⟩
  | cons entry rest ih =>
      rw [List.forall_mem_cons] at decides
      obtain ⟨found, looked⟩ : ∃ answer, entryWith equal entry.1 pairs = some answer :=
        entryWith_decides decides.1.1
      cases found with
      | none => exact ⟨false, by simp [entriesWithin, looked]⟩
      | some other =>
          obtain ⟨answer, decided⟩ := decides.1.2 other
          cases answer with
          | true => simpa [entriesWithin, looked, decided] using ih decides.2
          | false => exact ⟨false, by simp [entriesWithin, looked, decided]⟩

theorem fieldsWithin_decides (decides : ∀ field ∈ named, Decides equal field.2) :
    ∃ answer, fieldsWithin equal named others = some answer := by
  induction named with
  | nil => exact ⟨_, rfl⟩
  | cons field rest ih =>
      rw [List.forall_mem_cons] at decides
      cases found : Named.get? field.1 others with
      | none => exact ⟨false, by simp [fieldsWithin, found]⟩
      | some other =>
          obtain ⟨answer, decided⟩ := decides.1 other
          cases answer with
          | true => simpa [fieldsWithin, found, decided] using ih decides.2
          | false => exact ⟨false, by simp [fieldsWithin, found, decided]⟩

theorem equalShapes_decides {left right : Value} (decides : ∀ one ∈ left.parts, Decides equal one) :
    ∃ answer, equalShapes equal left right = some answer := by
  have members {lefts rights : List Value} (decides : ∀ one ∈ lefts, Decides equal one) :
      ∃ answer, (if lefts.length = rights.length then equalWithin equal lefts rights
        else some false) = some answer := by
    split
    next => exact equalWithin_decides decides
    next => exact ⟨false, rfl⟩
  unfold equalShapes
  split
  case h_8 | h_9 | h_10 => exact equalAll_decides decides
  case h_11 | h_12 | h_13 | h_14 => exact members decides
  case h_15 =>
    split
    next =>
      exact entriesWithin_decides fun entry member =>
        ⟨decides _ (Value.mem_interleave.mpr ⟨entry, member, .inl rfl⟩),
          decides _ (Value.mem_interleave.mpr ⟨entry, member, .inr rfl⟩)⟩
    next => exact ⟨false, rfl⟩
  case h_16 =>
    split
    next => exact fieldsWithin_decides fun field member => decides _ (List.mem_map_of_mem member)
    next => exact ⟨false, rfl⟩
  case h_17 => split <;> exact ⟨_, rfl⟩
  all_goals exact ⟨_, rfl⟩

end Answers

end Tests

section Shapes

variable {agree : Value → Value → Prop} {equal : Comparison} {left right : Value}

/-- Two shapes agree if they are laid out alike and their parts agree. -/
def ShapesAgree (agree : Value → Value → Prop) (left right : Value) : Prop :=
  ∃ one other, left.layout? = some one ∧ right.layout? = some other ∧ one.Agree agree other

theorem exists_of_equalWithin {lefts rights : List Value}
    (sound : ∀ one ∈ lefts, ∀ other ∈ rights, equal one other = some true → agree one other)
    (within : equalWithin equal lefts rights = some true) :
    ∀ one ∈ lefts, ∃ other ∈ rights, agree one other := by
  intro one member
  obtain ⟨other, present, same⟩ := exists_of_equalAny (equalWithin_iff.mp within one member)
  exact ⟨other, present, sound one member other present same⟩

theorem ShapesAgree.of_atom {content : Atom} (one : left.atom? = some content)
    (other : right.atom? = some content) : ShapesAgree agree left right :=
  ⟨_, _, Value.layout?_of_atom one, Value.layout?_of_atom other, .atom⟩

/-- What the test finds equal agrees, if the test finds so of parts that agree only. -/
theorem agree_of_equalShapes (symmetric : ∀ one other, agree one other → agree other one)
    (transitive : ∀ one other third, agree one other → agree other third → agree one third)
    (sound : ∀ one ∈ left.parts, ∀ other ∈ right.parts, equal one other = some true →
      agree one other)
    (apart : ∀ layout, left.layout? = some layout → layout.Apart agree)
    (same : equalShapes equal left right = some true) : ShapesAgree agree left right := by
  have row {kind : Row} {lefts rights : List Value} (one : left.layout? = some (.row kind lefts))
      (other : right.layout? = some (.row kind rights))
      (all : equalAll equal lefts rights = some true) : ShapesAgree agree left right := by
    rw [Layout.parts_eq one, Layout.parts_eq other] at sound
    exact ⟨_, _, one, other, .row (forall₂_imp_mem (equalAll_iff.mp all) sound)⟩
  have members {lefts rights : List Value} (one : left.layout? = some (.members lefts))
      (other : right.layout? = some (.members rights))
      (counted : (if lefts.length = rights.length then equalWithin equal lefts rights
        else some false) = some true) : ShapesAgree agree left right := by
    rw [Layout.parts_eq one, Layout.parts_eq other] at sound
    split at counted
    next count =>
      have each := exists_of_equalWithin sound counted
      exact ⟨_, _, one, other, .members
        (rel_of_counterparts symmetric transitive (apart _ one) count each)⟩
    next => cases counted
  unfold equalShapes at same
  split at same
  case h_1 => exact .of_atom rfl rfl
  case h_2 | h_3 | h_4 | h_5 | h_7 =>
    obtain rfl := eq_of_beq (Option.some.inj same)
    exact .of_atom rfl rfl
  case h_6 first second =>
    simp only [Option.some.injEq, Bool.and_eq_true, beq_iff_eq] at same
    exact .of_atom rfl (by simp only [Value.atom?, same])
  case h_8 | h_9 | h_10 => exact row rfl rfl same
  case h_11 | h_12 | h_13 | h_14 => exact members rfl rfl same
  case h_15 lefts rights =>
    split at same
    next count =>
      refine ⟨_, _, rfl, rfl, .entries (rel_of_counterparts
        (fun _ _ both => ⟨symmetric _ _ both.1, symmetric _ _ both.2⟩)
        (fun _ _ _ one other =>
          ⟨transitive _ _ _ one.1 other.1, transitive _ _ _ one.2 other.2⟩)
        ((apart _ rfl).imp fun differ both => differ both.1) count fun entry member => ?_)⟩
      obtain ⟨held, found, alike⟩ := entriesWithin_iff.mp same entry member
      obtain ⟨key, present, matched⟩ := mem_of_entryWith found
      refine ⟨(key, held), present, ?_, ?_⟩
      · exact sound _ (Value.mem_interleave.mpr ⟨entry, member, .inl rfl⟩) _
          (Value.mem_interleave.mpr ⟨_, present, .inl rfl⟩) matched
      · exact sound _ (Value.mem_interleave.mpr ⟨entry, member, .inr rfl⟩) _
          (Value.mem_interleave.mpr ⟨_, present, .inr rfl⟩) alike
    next => cases same
  case h_16 upper lefts lower rights =>
    split at same
    next counted =>
      have distinct : (Named.names lefts).Nodup := apart _ rfl
      have apart : lefts.Pairwise fun one other => ¬ Layout.FieldsAgree agree one other :=
        (List.pairwise_map.mp distinct).imp fun differ both => differ both.1
      refine ⟨_, _, rfl, by rw [Value.layout?, ← counted.1], .fields (rel_of_counterparts
        (fun _ _ both => ⟨both.1.symm, symmetric _ _ both.2⟩)
        (fun _ _ _ one other => ⟨one.1.trans other.1, transitive _ _ _ one.2 other.2⟩)
        apart counted.2 fun field member => ?_)⟩
      obtain ⟨held, found, alike⟩ := fieldsWithin_iff.mp same field member
      have present := Named.mem_of_get? found
      exact ⟨(field.1, held), present, rfl,
        sound _ (List.mem_map_of_mem member) _ (List.mem_map_of_mem present) alike⟩
    next => cases same
  case h_17 =>
    split at same
    next first second one other =>
      obtain ⟨spot, here, there⟩ := Quantity.same_iff.mp (Option.some.inj same)
      have content : left.atom? = some (.number spot) := by
        rw [Value.atom?_of_quantity one, here]
        rfl
      refine .of_atom content ?_
      rw [Value.atom?_of_quantity other, there]
      rfl
    next => cases same

theorem equalShapes_of_atom {content : Atom} (one : left.atom? = some content)
    (other : right.atom? = some content) : equalShapes equal left right = some true := by
  cases counts : left.quantity? with
  | none =>
      cases left <;> simp only [Value.atom?, Value.quantity?, Option.bind_none, Option.map_none,
        reduceCtorEq, Option.some.injEq] at one counts <;>
        subst one <;> cases right <;>
        simp_all [Value.atom?, Value.quantity?, equalShapes]
  | some quantity =>
      rw [Value.atom?_of_quantity counts] at one
      obtain ⟨spot, here, rfl⟩ := Option.map_eq_some_iff.mp one
      obtain ⟨also, known, there⟩ := Value.quantity?_of_number other
      rw [equalShapes_of_quantity counts, known]
      exact congrArg some (Quantity.same_iff.mpr ⟨spot, here, there⟩)

/-- What agrees the test finds equal, if it has an answer for all parts, a positive one for parts that
agree, and none such for keys that differ. -/
theorem equalShapes_of_agree
    (symmetric : ∀ one other, agree one other → agree other one)
    (transitive : ∀ one other third, agree one other → agree other third → agree one third)
    (found : ∀ one ∈ left.parts, ∀ other ∈ right.parts, agree one other →
      equal one other = some true)
    (sound : ∀ one ∈ left.parts, ∀ other ∈ right.parts, agree one one →
      equal one other = some true → agree one other)
    (decides : ∀ one ∈ left.parts, Decides equal one)
    (apart : ∀ layout, right.layout? = some layout → layout.Apart agree)
    (agrees : ShapesAgree agree left right) : equalShapes equal left right = some true := by
  obtain ⟨one, other, here, there, agrees⟩ := agrees
  rw [Layout.parts_eq here] at found sound decides
  rw [Layout.parts_eq there] at found sound
  cases agrees with
  | atom => exact equalShapes_of_atom (Value.atom?_of_layout here) (Value.atom?_of_layout there)
  | @row kind lefts rights each =>
      have all : equalAll equal lefts rights = some true :=
        equalAll_iff.mpr (forall₂_imp_mem each found)
      rw [Value.eq_of_row here, Value.eq_of_row there]
      cases kind <;> exact all
  | @members lefts rights each =>
      have within : equalWithin equal lefts rights = some true := by
        refine equalWithin_iff.mpr fun one member => ?_
        obtain ⟨other, present, agrees⟩ := exists_of_rel each member
        exact equalAny_of_mem (decides one member) present (found one member other present agrees)
      rcases Value.eq_of_members here with rfl | rfl <;>
        rcases Value.eq_of_members there with rfl | rfl <;>
        simp only [equalShapes, length_eq_of_rel each, if_true, within]
  | @entries lefts rights each =>
      obtain rfl := Value.eq_of_entries here
      obtain rfl := Value.eq_of_entries there
      have key {entries : List (Value × Value)} {entry : Value × Value} (member : entry ∈ entries) :
          entry.1 ∈ Value.interleave entries := Value.mem_interleave.mpr ⟨entry, member, .inl rfl⟩
      have held {entries : List (Value × Value)} {entry : Value × Value} (member : entry ∈ entries) :
          entry.2 ∈ Value.interleave entries := Value.mem_interleave.mpr ⟨entry, member, .inr rfl⟩
      simp only [equalShapes, length_eq_of_rel each, if_true]
      refine entriesWithin_iff.mpr fun entry member => ?_
      obtain ⟨other, present, keys, values⟩ := exists_of_rel each member
      have itself := transitive _ _ _ keys (symmetric _ _ keys)
      have only : rights.Pairwise fun one other =>
          ¬ (equal entry.1 one.1 = some true ∧ equal entry.1 other.1 = some true) := by
        refine (apart _ rfl).imp_of_mem fun first second differ both => differ ?_
        exact transitive _ _ _
          (symmetric _ _ (sound _ (key member) _ (key first) itself both.1))
          (sound _ (key member) _ (key second) itself both.2)
      exact ⟨other.2, entryWith_of_mem (decides _ (key member)) only present
          (found _ (key member) _ (key present) keys),
        found _ (held member) _ (held present) values⟩
  | @fields number lefts rights each =>
      obtain ⟨upper, one, rfl⟩ := Value.eq_of_fields here
      obtain ⟨lower, other, rfl⟩ := Value.eq_of_fields there
      simp only [equalShapes, one, other, length_eq_of_rel each, and_self, if_true]
      refine fieldsWithin_iff.mpr fun field member => ?_
      obtain ⟨other, present, names, values⟩ := exists_of_rel each member
      have distinct : (Named.names rights).Nodup := apart _ there
      exact ⟨other.2, names ▸ Named.get?_of_mem distinct present,
        found _ (List.mem_map_of_mem member) _ (List.mem_map_of_mem present) values⟩

end Shapes

section Levels

variable {heap : Heap} {levels more : Nat} {left right third value part : Value}

theorem ShapesAgree.symm {agree : Value → Value → Prop}
    (symmetric : ∀ one other, agree one other → agree other one)
    (agrees : ShapesAgree agree left right) : ShapesAgree agree right left := by
  obtain ⟨one, other, here, there, agrees⟩ := agrees
  exact ⟨other, one, there, here, agrees.symm symmetric⟩

theorem ShapesAgree.trans {agree : Value → Value → Prop}
    (transitive : ∀ one other third, agree one other → agree other third → agree one third)
    (first : ShapesAgree agree left right) (second : ShapesAgree agree right third) :
    ShapesAgree agree left third := by
  obtain ⟨one, middle, here, between, agrees⟩ := first
  obtain ⟨also, other, same, there, further⟩ := second
  obtain rfl := Option.some.inj (between.symm.trans same)
  exact ⟨one, other, here, there, agrees.trans transitive further⟩

/-- The values agree down to the last level, which is no deeper than so many. -/
def AgreeTo (heap : Heap) : Nat → Value → Value → Prop
  | 0, _, _ => False
  | levels + 1, left, right =>
      ShapesAgree (heap.AgreeTo levels) (heap.look left) (heap.look right)

theorem AgreeTo.symm (agrees : heap.AgreeTo levels left right) :
    heap.AgreeTo levels right left := by
  induction levels generalizing left right with
  | zero => exact agrees
  | succ levels ih => exact ShapesAgree.symm (fun _ _ => ih) agrees

theorem AgreeTo.trans (first : heap.AgreeTo levels left right)
    (second : heap.AgreeTo levels right third) : heap.AgreeTo levels left third := by
  induction levels generalizing left right third with
  | zero => exact first
  | succ levels ih => exact ShapesAgree.trans (fun _ _ _ => ih) first second

theorem AgreeTo.self (agrees : heap.AgreeTo levels left right) : heap.AgreeTo levels left left :=
  agrees.trans agrees.symm

/-- The parts of what agrees with something agree with themselves. -/
theorem AgreeTo.inside (agrees : heap.AgreeTo (levels + 1) left right)
    (member : part ∈ (heap.look left).parts) : heap.AgreeTo levels part part := by
  obtain ⟨one, other, here, _, agrees⟩ := agrees
  rw [Layout.parts_eq here] at member
  obtain ⟨counterpart, agreed⟩ := agrees.inside member
  exact agreed.self

theorem AgreeTo.within (agrees : heap.AgreeTo levels left right) : heap.Within levels left := by
  induction levels generalizing left right with
  | zero => exact agrees
  | succ levels ih => exact fun part member => ih (agrees.inside member)

theorem decides_of_within (within : heap.Within levels value) :
    Decides (heap.equalTo levels) value := by
  induction levels generalizing value with
  | zero => exact within.elim
  | succ levels ih =>
      intro other
      unfold equalTo
      split
      next => exact ⟨true, rfl⟩
      next => exact equalShapes_decides fun part member => ih (within part member)

/-- What stands for members, keys and names differs from each other at every level of the value. -/
def Sound (heap : Heap) (value : Value) : Prop :=
  ∀ inner layout, heap.Holds value inner → (heap.look inner).layout? = some layout →
    layout.Apart fun one other => heap.equal one other = true

theorem Sound.inside (sound : heap.Sound value) (member : part ∈ (heap.look value).parts) :
    heap.Sound part :=
  fun inner layout held => sound inner layout (.inside member held)

/-- The test and agreement come to the same. Whatever the test finds equal to something that agrees
with itself agrees with it, and what agrees shows no difference to the test. -/
theorem agreement (heap : Heap) (levels : Nat) :
    (∀ left right, heap.Sound left → heap.Sound right →
      heap.AgreeTo levels left left ∨ heap.AgreeTo levels right right →
      ∀ fuel, heap.equalTo fuel left right = some true → heap.AgreeTo levels left right) ∧
    ∀ left right, heap.Sound left → heap.Sound right → heap.AgreeTo levels left right →
      heap.Alike left right := by
  induction levels with
  | zero => exact ⟨fun _ _ _ _ either => either.elim False.elim False.elim, fun _ _ _ _ => False.elim⟩
  | succ levels ih =>
      obtain ⟨tells, complete⟩ := ih
      have symmetric (one other : Value) : heap.AgreeTo levels one other →
          heap.AgreeTo levels other one := AgreeTo.symm
      have transitive (one other third : Value) : heap.AgreeTo levels one other →
          heap.AgreeTo levels other third → heap.AgreeTo levels one third := AgreeTo.trans
      have apart (value : Value) (sound : heap.Sound value) (layout : Layout)
          (laid : (heap.look value).layout? = some layout) : layout.Apart (heap.AgreeTo levels) := by
        refine Layout.Apart.imp_mem (sound value layout .self laid)
          fun first one second other agrees => ?_
        rw [← Layout.parts_eq laid] at one other
        exact (complete _ _ (sound.inside one) (sound.inside other) agrees).equal ⟨_, agrees.within⟩
      constructor
      · intro left right one other either fuel same
        cases fuel with
        | zero => cases same
        | succ fuel =>
            unfold equalTo at same
            split at same
            next shared =>
              obtain rfl := Value.eq_of_sameObject shared
              exact either.elim id id
            next =>
              refine agree_of_equalShapes symmetric transitive
                (fun first member second known found => ?_) (apart left one) same
              refine tells first second (one.inside member) (other.inside known) ?_ fuel found
              exact either.imp (·.inside member) (·.inside known)
      · intro left right one other agrees
        have shapes : ShapesAgree (heap.AgreeTo levels) (heap.look left) (heap.look right) := agrees
        refine alike_of_shapes fun fuel within => ?_
        refine equalShapes_of_agree symmetric transitive
          (fun first member second known agreed => ?_) (fun first member second known self found => ?_)
          (fun first member => decides_of_within (within first member)) (apart right other) shapes
        · exact complete first second (one.inside member) (other.inside known) agreed fuel
            (within first member)
        · exact tells first second (one.inside member) (other.inside known) (.inl self) fuel found

/-- An ordinary value: it comes to an end, and inside of it no number is none, no reference leads to
another reference, and members, keys and names differ from each other. -/
structure Proper (heap : Heap) (value : Value) : Prop where
  finite : heap.Finite value
  sound : heap.Sound value
  numbers : ∀ inner, heap.Holds value inner → heap.look inner ≠ .float .nan
  resolved : ∀ inner, heap.Holds value inner → (heap.look inner).address? = none

theorem Proper.inside (proper : heap.Proper value) (member : part ∈ (heap.look value).parts) :
    heap.Proper part where
  finite := by
    obtain ⟨levels, within⟩ := proper.finite
    obtain ⟨below, rfl⟩ := within.succ
    exact ⟨below, within part member⟩
  sound := proper.sound.inside member
  numbers inner held := proper.numbers inner (.inside member held)
  resolved inner held := proper.resolved inner (.inside member held)

theorem exists_layout (number : value ≠ .float .nan) (resolved : value.address? = none) :
    ∃ layout, value.layout? = some layout := by
  cases value with
  | float value =>
      rcases value with _ | negative | _
      · exact absurd rfl number
      · cases negative <;> exact ⟨_, rfl⟩
      · exact ⟨_, rfl⟩
  | ref _ | copy _ => cases resolved
  | _ => exact ⟨_, rfl⟩

theorem Proper.agreeTo_self (proper : heap.Proper value) (within : heap.Within levels value) :
    heap.AgreeTo levels value value := by
  induction levels generalizing value with
  | zero => exact within.elim
  | succ levels ih =>
      obtain ⟨layout, laid⟩ := exists_layout (proper.numbers value .self) (proper.resolved value .self)
      refine ⟨layout, layout, laid, laid, .of_parts fun part member => ?_⟩
      rw [← Layout.parts_eq laid] at member
      exact ih (proper.inside member) (within part member)

/-- The values agree, however many levels it takes. -/
def Agree (heap : Heap) (left right : Value) : Prop := ∃ levels, heap.AgreeTo levels left right

theorem equalTo_of_equal (same : heap.equal left right = true) :
    ∃ fuel, heap.equalTo fuel left right = some true := by
  refine ⟨heap.reach left + heap.reach right, ?_⟩
  unfold equal equal? at same
  exact (Option.getD_eq_iff.mp same).resolve_right (by simp)

/-- Of an ordinary value and one that is well made, equality tells whether they agree, in either
direction. -/
theorem Proper.equal_iff (proper : heap.Proper value) (sound : heap.Sound right) :
    (heap.equal value right = true ↔ heap.Agree value right) ∧
      (heap.equal right value = true ↔ heap.Agree value right) := by
  obtain ⟨levels, within⟩ := proper.finite
  have self := proper.agreeTo_self within
  refine ⟨⟨fun same => ?_, fun agrees => ?_⟩, ⟨fun same => ?_, fun agrees => ?_⟩⟩
  · obtain ⟨fuel, same⟩ := equalTo_of_equal same
    exact ⟨levels, (heap.agreement levels).1 _ _ proper.sound sound (.inl self) fuel same⟩
  · obtain ⟨more, agrees⟩ := agrees
    exact ((heap.agreement more).2 _ _ proper.sound sound agrees).equal proper.finite
  · obtain ⟨fuel, same⟩ := equalTo_of_equal same
    exact ⟨levels, ((heap.agreement levels).1 _ _ sound proper.sound (.inr self) fuel same).symm⟩
  · obtain ⟨more, agrees⟩ := agrees
    exact ((heap.agreement more).2 _ _ sound proper.sound agrees.symm).equal
      ⟨more, agrees.symm.within⟩

theorem Proper.equal_comm (proper : heap.Proper value) (sound : heap.Sound right) :
    heap.equal right value = heap.equal value right :=
  Bool.eq_iff_iff.mpr ((proper.equal_iff sound).2.trans (proper.equal_iff sound).1.symm)

end Levels

end Heap

end Exemplar
